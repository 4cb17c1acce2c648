import Mathlib.Data.List.Basic

/- Memory as a function of the address, and what `memcpy` does to it. A program
   that lays data out at offsets is verified with two rules: what was copied in is
   read back (`read_copy`), and what lies beside a copy is as it was
   (`read_copy_of_apart`). Machine words go in and out as their bytes
   (`word_bytes`, `bytes_word`), with the same two rules (`word_copy`,
   `word_copy_of_apart`). -/
namespace Arinc.Memory

variable {α : Type*}

/-- `n` cells of `src` copied to `offset`. -/
def copy (dst : Nat → α) (offset : Nat) (src : Nat → α) (n : Nat) : Nat → α :=
  fun i => if offset ≤ i ∧ i < offset + n then src (i - offset) else dst i

/-- The `n` cells from `offset` on. -/
def read (m : Nat → α) (offset n : Nat) : List α := (List.range n).map fun i => m (offset + i)

@[simp] theorem length_read (m : Nat → α) (offset n : Nat) : (read m offset n).length = n := by
  simp [read]

theorem read_congr {m m' : Nat → α} {offset offset' n : Nat}
    (h : ∀ i < n, m (offset + i) = m' (offset' + i)) : read m offset n = read m' offset' n := by
  apply List.map_congr_left
  intro i hi
  exact h i (List.mem_range.mp hi)

theorem read_map {β : Type*} (f : α → β) (m : Nat → α) (offset n : Nat) :
    read (fun i => f (m i)) offset n = (read m offset n).map f := by
  unfold read
  rw [List.map_map]
  rfl

theorem copy_inside {dst src : Nat → α} {offset n i : Nat} (hi : i < n) :
    copy dst offset src n (offset + i) = src i := by
  unfold copy
  rw [if_pos ⟨Nat.le_add_right offset i, by omega⟩, Nat.add_sub_cancel_left]

theorem copy_outside {dst src : Nat → α} {offset n i : Nat} (hi : i < offset ∨ offset + n ≤ i) :
    copy dst offset src n i = dst i := by
  unfold copy
  rw [if_neg (by omega)]

/-- What was copied in is read back, or as much of it as is asked for. -/
theorem read_copy {dst src : Nat → α} {offset n k : Nat} (hk : k ≤ n) :
    read (copy dst offset src n) offset k = read src 0 k := by
  apply read_congr
  intro i hi
  rw [copy_inside (by omega), Nat.zero_add]

/-- What lies beside a copy is as it was. -/
theorem read_copy_of_apart {dst src : Nat → α} {offset n place k : Nat}
    (h : place + k ≤ offset ∨ offset + n ≤ place) :
    read (copy dst offset src n) place k = read dst place k := by
  apply read_congr
  intro i hi
  exact copy_outside (by omega)

theorem copy_congr {dst src src' : Nat → α} {offset n : Nat} (h : ∀ i < n, src i = src' i) :
    copy dst offset src n = copy dst offset src' n := by
  funext i
  unfold copy
  split
  · next hi => exact h (i - offset) (by omega)
  · rfl

theorem copy_zero (dst src : Nat → α) (offset : Nat) : copy dst offset src 0 = dst := by
  funext i
  exact copy_outside (Nat.lt_or_ge i offset)

theorem copy_succ (dst src : Nat → α) (offset n : Nat) :
    copy (Function.update dst offset (src offset)) (offset + 1) (fun i => src (offset + 1 + i)) n =
      copy dst offset (fun i => src (offset + i)) (n + 1) := by
  funext i
  unfold copy
  by_cases hi : i = offset
  · rw [hi, if_neg (by omega), if_pos (by omega), Function.update_self]
    exact congrArg src (by omega)
  · rw [Function.update_of_ne hi]
    by_cases hinside : offset ≤ i ∧ i < offset + (n + 1)
    · rw [if_pos (by omega), if_pos hinside]
      exact congrArg src (by omega)
    · rw [if_neg (by omega), if_neg hinside]

/-- A longer read is two reads, one behind the other. -/
theorem read_append (m : Nat → α) (offset n k : Nat) :
    read m offset (n + k) = read m offset n ++ read m (offset + n) k := by
  unfold read
  rw [List.range_add, List.map_append, List.map_map]
  congr 1
  apply List.map_congr_left
  intro i _
  show m (offset + (n + i)) = m (offset + n + i)
  rw [Nat.add_assoc]

theorem read_inj {m m' : Nat → α} {offset offset' n : Nat}
    (h : read m offset n = read m' offset' n) : ∀ i < n, m (offset + i) = m' (offset' + i) := by
  intro i hi
  have hcell := congrArg (fun l => l[i]?) h
  simpa [read, hi] using hcell

/-- A list laid out from address 0, with `a` behind it. -/
def ofList (l : List α) (a : α) : Nat → α := fun i => l.getD i a

theorem read_ofList (l : List α) (a : α) : read (ofList l a) 0 l.length = l := by
  apply List.ext_getElem
  · exact length_read _ 0 l.length
  · intro i hi hi'
    simp [read, ofList, hi']

theorem read_ofList_take (l : List α) (a : α) (n : Nat) :
    read (ofList l a) 0 (l.take n).length = l.take n := by
  apply List.ext_getElem
  · exact length_read _ 0 _
  · intro i hi hi'
    have hlength : i < l.length := Nat.lt_of_lt_of_le hi' (List.length_take_le' n l)
    simp [read, ofList, hlength]

/-! ## Machine words -/

/-- The bytes of a machine word, the lowest first. -/
def bytes {w : Nat} (x : BitVec w) : Nat → BitVec 8 := fun i => x.extractLsb' (8 * i) 8

/-- The word of `n` bytes at `offset`. -/
def word (m : Nat → BitVec 8) (offset : Nat) : (n : Nat) → BitVec (8 * n)
  | 0 => 0#0
  | n + 1 => (m (offset + n) ++ word m offset n).cast (Nat.add_comm 8 (8 * n))

theorem getLsbD_word (m : Nat → BitVec 8) (offset n i : Nat) :
    (word m offset n).getLsbD i = (decide (i < 8 * n) && (m (offset + i / 8)).getLsbD (i % 8)) := by
  induction n with
  | zero => simp [word]
  | succ n ih =>
    rw [word, BitVec.getLsbD_cast, BitVec.getLsbD_append, ih]
    by_cases hlow : i < 8 * n
    · rw [if_pos hlow, decide_eq_true hlow, decide_eq_true (by omega : i < 8 * (n + 1))]
    · rw [if_neg hlow]
      by_cases hhigh : i < 8 * (n + 1)
      · rw [decide_eq_true hhigh, Bool.true_and, show i / 8 = n by omega, show i - 8 * n = i % 8 by omega]
      · rw [decide_eq_false hhigh, Bool.false_and]
        exact BitVec.getLsbD_of_ge _ _ (by omega)

theorem word_congr {m m' : Nat → BitVec 8} {offset offset' n : Nat}
    (h : ∀ i < n, m (offset + i) = m' (offset' + i)) : word m offset n = word m' offset' n := by
  induction n with
  | zero => rfl
  | succ n ih =>
    rw [word, word, h n (Nat.lt_succ_self n), ih fun i hi => h i (Nat.lt_succ_of_lt hi)]

/-- A word written is read back. -/
theorem word_bytes {n : Nat} (x : BitVec (8 * n)) : word (bytes x) 0 n = x := by
  apply BitVec.eq_of_getLsbD_eq
  intro i hi
  rw [getLsbD_word, decide_eq_true hi, Bool.true_and, Nat.zero_add, bytes, BitVec.getLsbD_extractLsb',
    decide_eq_true (Nat.mod_lt i (by omega)), Bool.true_and, Nat.div_add_mod]

/-- The bytes of a word are those it was read from. -/
theorem bytes_word (m : Nat → BitVec 8) (offset : Nat) {n i : Nat} (hi : i < n) :
    bytes (word m offset n) i = m (offset + i) := by
  apply BitVec.eq_of_getLsbD_eq
  intro j hj
  rw [bytes, BitVec.getLsbD_extractLsb', decide_eq_true hj, Bool.true_and, getLsbD_word,
    decide_eq_true (by omega), Bool.true_and, show (8 * i + j) / 8 = i by omega,
    show (8 * i + j) % 8 = j by omega]

/-- A word copied in is read back. -/
theorem word_copy {dst : Nat → BitVec 8} {offset n : Nat} (x : BitVec (8 * n)) :
    word (copy dst offset (bytes x) n) offset n = x := by
  calc word (copy dst offset (bytes x) n) offset n
      = word (bytes x) 0 n := word_congr fun i hi => by rw [copy_inside hi, Nat.zero_add]
    _ = x := word_bytes x

/-- A word beside a copy is as it was. -/
theorem word_copy_of_apart {dst src : Nat → BitVec 8} {offset n place k : Nat}
    (h : place + k ≤ offset ∨ offset + n ≤ place) :
    word (copy dst offset src n) place k = word dst place k :=
  word_congr fun i hi => copy_outside (by omega)

theorem bytes_inj {n : Nat} {x y : BitVec (8 * n)} (h : ∀ i < n, bytes x i = bytes y i) : x = y := by
  calc x = word (bytes x) 0 n := (word_bytes x).symm
    _ = word (bytes y) 0 n := word_congr fun i hi => by rw [Nat.zero_add, h i hi]
    _ = y := word_bytes y

/-! ## Arrays -/

/-- An array laid out from address 0, with `a` behind it. -/
def ofArray {n : Nat} (cells : Fin n → α) (a : α) : Nat → α :=
  fun i => if h : i < n then cells ⟨i, h⟩ else a

/-- The array of `n` cells at `offset`. -/
def array (m : Nat → α) (offset n : Nat) : Fin n → α := fun i => m (offset + i)

theorem ofArray_of_lt {n i : Nat} (hi : i < n) (cells : Fin n → α) (a : α) :
    ofArray cells a i = cells ⟨i, hi⟩ := dif_pos hi

end Arinc.Memory
