import ArincEmulator.Types
import ArincEmulator.Lib.History

/- A state variable (`STATE_VARIABLE`): the last samples of a value, in a deque that
   is pushed at its back, trimmed at its front and undone at its back. The abstract
   variable is a bounded history of values.

   What is proved: after every sequence of operations the values of the deque are
   the samples the history retains, oldest first, and `GET` of an index finds the
   sample of that index where it is retained (`values_refine_history`). The index
   is a 32-bit `int` whose distance from 0 is compared and subtracted as a
   `size_t`; no index and no depth makes the two disagree. -/
namespace Arinc.StateVariable

/-- `VALUE_ITEM`. -/
structure ValueItem (T : Type) where
  value : T
  timeOfCreation : Int
  deriving DecidableEq, Repr

end StateVariable

/-- `STATE_VARIABLE`. -/
structure StateVariable (T : Type) where
  windowSize : Nat
  values : List (StateVariable.ValueItem T)
  deriving DecidableEq, Repr

namespace StateVariable

variable {T : Type}

/-! ## The operations -/

/-- The constructor. `WINDOW_SIZE` is an `unsigned int`. -/
def create (historyDepth : Int) : StateVariable T := ⟨(historyDepth % 2 ^ 32).toNat, []⟩

/-- `RESET`: what it returns, and the variable. -/
def reset (v : StateVariable T) : Nat × StateVariable T := (0, { v with values := [] })

/-- The first lines of both `SET`s: a full deque loses its front. -/
def makeRoom (v : StateVariable T) : StateVariable T :=
  if v.values.length = v.windowSize then { v with values := v.values.tail } else v

/-- `VALUES.push_back(input)`: the item is made on the spot, at the time `clock`. -/
def pushBack (v : StateVariable T) (input : T) (clock : Int) : StateVariable T :=
  { v with values := v.values ++ [⟨input, clock⟩] }

/-- `SET`. -/
def set (v : StateVariable T) (input : T) (clock : Int) : StateVariable T :=
  v.makeRoom.pushBack input clock

/-- `SET` with a time. The item that is made with it is not the one that is pushed. -/
def setAt (v : StateVariable T) (input : T) (_now clock : Int) : StateVariable T :=
  v.makeRoom.pushBack input clock

/-- `UNSET_LAST_SAMPLE`. -/
def unsetLastSample (v : StateVariable T) : ReturnCode × StateVariable T :=
  if v.values.length = 0 then (.notAvailable, v)
  else (.noError, { v with values := v.values.dropLast })

/-- A sum or a difference in an `int`. -/
def toInt (x : Int) : Int := x.bmod (2 ^ 32)

/-- An `int` where a `size_t` is expected. -/
def sizeT (x : Int) : Nat := (x % 2 ^ 64).toNat

/-- `abs` of an `int`. -/
def abs (x : Int) : Int := toInt x.natAbs

/-- The lookup all `GET`s share: the code, and the item whose parts are written out.
    The comparison and the difference are those of a `size_t`. -/
def getItem (v : StateVariable T) (timeIndex : Int) : ReturnCode × Option (ValueItem T) :=
  if 0 < timeIndex then (.invalidParam, none)
  else if v.values.length = 0 then (.notAvailable, none)
  else if v.values.length < sizeT (toInt (abs timeIndex + 1)) then (.notAvailable, none)
  else
    let indexToReturn := toInt (sizeT ((v.values.length - 1 : Nat) - sizeT (abs timeIndex)))
    (.noError, v.values[sizeT indexToReturn]?)

/-- `GET`: the code, and the value where one is written. -/
def get (v : StateVariable T) (timeIndex : Int) : ReturnCode × Option T :=
  ((v.getItem timeIndex).1, (v.getItem timeIndex).2.map (·.value))

/-- `GET` of the value and its time. -/
def getWithTime (v : StateVariable T) (timeIndex : Int) : ReturnCode × Option (T × Int) :=
  ((v.getItem timeIndex).1, (v.getItem timeIndex).2.map fun item => (item.value, item.timeOfCreation))

/-! ## Sequences of operations -/

/-- The operations, with the clock as it is read. -/
inductive Op (T : Type) where
  | set (input : T) (clock : Int)
  | setAt (input : T) (now clock : Int)
  | unsetLastSample
  | reset

/-- One operation. -/
def step (v : StateVariable T) : Op T → StateVariable T
  | .set input clock => v.set input clock
  | .setAt input now clock => v.setAt input now clock
  | .unsetLastSample => v.unsetLastSample.2
  | .reset => v.reset.2

/-- What it means for the history. -/
def record {W : Nat} (h : History W T) : Op T → History W T
  | .set input _ => h.record input
  | .setAt input _ _ => h.record input
  | .unsetLastSample => h.undo
  | .reset => .empty

/-- A new variable after the operations, in order. -/
def after (historyDepth : Int) (ops : List (Op T)) : StateVariable T :=
  ops.foldl step (create historyDepth)

/-- A new history after them. -/
def historyAfter (W : Nat) (ops : List (Op T)) : History W T := ops.foldl record .empty

/-! ## The refinement -/

/-- The variable holds the samples of the history. -/
structure Refines {W : Nat} (v : StateVariable T) (h : History W T) : Prop where
  window : v.windowSize = W
  values : v.values.map ValueItem.value = h.oldestFirst

variable {W : Nat} {v : StateVariable T} {h : History W T}

theorem Refines.length (hv : Refines v h) : v.values.length = h.oldestFirst.length := by
  rw [← hv.values, List.length_map]

theorem refines_create {historyDepth : Int} (hpos : 1 ≤ historyDepth)
    (hint : historyDepth < 2 ^ 31) :
    Refines (create historyDepth) (.empty : History historyDepth.toNat T) where
  window := by
    show (historyDepth % 2 ^ 32).toNat = historyDepth.toNat
    rw [Int.emod_eq_of_lt (by omega) (by omega)]
  values := rfl

theorem Refines.pushBack (hW : 0 < W) (hv : Refines v h) (input : T) (clock : Int) :
    Refines (v.makeRoom.pushBack input clock) (h.record input) := by
  unfold makeRoom
  split
  · rename_i hfull
    refine ⟨hv.window, ?_⟩
    have hlength : h.oldestFirst.length = W := by rw [← hv.length, hfull, hv.window]
    show (v.values.tail ++ [ValueItem.mk input clock]).map ValueItem.value = _
    rw [History.oldestFirst_record_of_full hW hlength, List.map_append, List.map_tail, hv.values]
    rfl
  · rename_i hroom
    refine ⟨hv.window, ?_⟩
    have hlength : h.oldestFirst.length < W := by
      refine Nat.lt_of_le_of_ne h.length_oldestFirst fun heq => hroom ?_
      rw [hv.length, heq, hv.window]
    show (v.values ++ [ValueItem.mk input clock]).map ValueItem.value = _
    rw [History.oldestFirst_record_of_lt hlength, List.map_append, hv.values]
    rfl

theorem Refines.unsetLastSample (hv : Refines v h) : Refines v.unsetLastSample.2 h.undo := by
  unfold StateVariable.unsetLastSample
  split
  · rename_i hnone
    -- nothing to take back, in either
    have hvalues : v.values = [] := List.length_eq_zero_iff.mp hnone
    refine ⟨hv.window, ?_⟩
    rw [History.oldestFirst_undo, ← hv.values, hvalues]
    rfl
  · refine ⟨hv.window, ?_⟩
    rw [History.oldestFirst_undo, ← hv.values, List.map_dropLast]

theorem Refines.step (hW : 0 < W) (hv : Refines v h) (op : Op T) :
    Refines (v.step op) (record h op) := by
  cases op with
  | set input clock => exact hv.pushBack hW input clock
  | setAt input now clock => exact hv.pushBack hW input clock
  | unsetLastSample => exact hv.unsetLastSample
  | reset => exact ⟨hv.window, rfl⟩

theorem Refines.steps (hW : 0 < W) (hv : Refines v h) (ops : List (Op T)) :
    Refines (ops.foldl StateVariable.step v) (ops.foldl record h) := by
  induction ops generalizing v h with
  | nil => exact hv
  | cons op ops ih => exact ih (hv.step hW op)

/-! ## The indices -/

/-- An index as the lookup uses it: counted back by `k`, or so far back that one more
    leaves the range of an `int` and comes out as a `size_t` beyond every size. -/
theorem index_cases {k : Nat} (hk : k ≤ 2 ^ 31) :
    k + 1 < 2 ^ 31 ∧ sizeT (abs (-k)) = k ∧ sizeT (toInt (abs (-k) + 1)) = k + 1 ∨
      2 ^ 31 ≤ k + 1 ∧ 2 ^ 31 ≤ sizeT (toInt (abs (-k) + 1)) := by
  have habs : ((-(k : Int)).natAbs : Int) = k := by omega
  simp only [abs, toInt, sizeT, habs, Int.bmod_def]
  by_cases hnear : k + 1 < 2 ^ 31
  · left
    omega
  · right
    omega

theorem Refines.get_of_previous (hv : Refines v h) (hW : W < 2 ^ 31) {k : Nat}
    (hk : k ≤ 2 ^ 31) {a : T} (ha : h.previous k = some a) : v.get (-k) = (.noError, some a) := by
  have hlength := h.length_oldestFirst
  have hretained : k < v.values.length := by
    rw [hv.length, History.oldestFirst, List.length_reverse]
    refine Nat.lt_of_not_le fun hle => ?_
    rw [(h.previous_eq_none_iff k).mpr hle] at ha
    cases ha
  have hwithin : v.values.length < 2 ^ 31 := by
    rw [hv.length]
    omega
  obtain ⟨-, habs, hnext⟩ | ⟨hfar, -⟩ := index_cases hk
  · have hindex : sizeT (toInt (sizeT ((v.values.length - 1 : Nat) - k))) =
        v.values.length - 1 - k := by
      simp only [sizeT, toInt, Int.bmod_def]
      omega
    have hitem : v.getItem (-k) = (.noError, v.values[v.values.length - 1 - k]?) := by
      rw [getItem, if_neg (by omega), if_neg (by omega), hnext, if_neg (by omega), habs]
      exact congrArg (fun i => (ReturnCode.noError, v.values[i]?)) hindex
    have hvalue : (v.values[v.values.length - 1 - k]?).map ValueItem.value = some a := by
      rw [← List.getElem?_map, hv.values, hv.length,
        History.getElem?_oldestFirst (hv.length ▸ hretained), ha]
    rw [get, hitem, hvalue]
  · omega

theorem Refines.get_of_not_retained (hv : Refines v h) (hW : W < 2 ^ 31) {k : Nat}
    (hk : k ≤ 2 ^ 31) (hnone : h.previous k = none) : v.get (-k) = (.notAvailable, none) := by
  have hlength := h.length_oldestFirst
  have hshort : v.values.length ≤ k := by
    rw [hv.length, History.oldestFirst, List.length_reverse]
    exact (h.previous_eq_none_iff k).mp hnone
  have hbeyond : v.values.length < sizeT (toInt (abs (-k) + 1)) := by
    rw [hv.length] at hshort ⊢
    obtain ⟨-, -, hnext⟩ | ⟨-, hfar⟩ := index_cases hk
    · omega
    · omega
  have hitem : v.getItem (-k) = (.notAvailable, none) := by
    by_cases hempty : v.values.length = 0
    · rw [getItem, if_neg (by omega), if_pos hempty]
    · rw [getItem, if_neg (by omega), if_neg hempty, if_pos hbeyond]
  rw [get, hitem]
  rfl

theorem Refines.get_back (hv : Refines v h) (hW : W < 2 ^ 31) {k : Nat} (hk : k ≤ 2 ^ 31) :
    v.get (-k) = (h.previous k).elim (.notAvailable, none) fun a => (.noError, some a) := by
  cases hprevious : h.previous k with
  | none => exact hv.get_of_not_retained hW hk hprevious
  | some a => exact hv.get_of_previous hW hk hprevious

/-- What a step does to what is found: a new sample is found at 0 and the others one
    further back, one that is taken back leaves them one closer, and a reset leaves
    nothing, as there is nothing beyond the depth. -/
theorem Refines.get_step (hv : Refines v h) (hpos : 0 < W) (hW : W < 2 ^ 31) :
    (∀ input clock, (v.step (.set input clock)).get 0 = (.noError, some input) ∧
        ∀ k : Nat, k + 1 < W → (v.step (.set input clock)).get (-(k + 1 : Nat)) = v.get (-k)) ∧
      (∀ k : Nat, k < 2 ^ 31 → (v.step .unsetLastSample).get (-k) = v.get (-(k + 1 : Nat))) ∧
      (∀ k : Nat, k ≤ 2 ^ 31 → (v.step .reset).get (-k) = (.notAvailable, none)) ∧
      ∀ k : Nat, W ≤ k → k ≤ 2 ^ 31 → v.get (-k) = (.notAvailable, none) := by
  refine ⟨fun input clock => ⟨?_, fun k hk => ?_⟩, fun k hk => ?_, fun k hk => ?_,
    fun k hbeyond hk => ?_⟩
  · have hset := (hv.step hpos (.set input clock)).get_back hW (k := 0) (by omega)
    rw [record, History.previous_record_zero hpos] at hset
    exact hset
  · rw [(hv.step hpos (.set input clock)).get_back hW (by omega), record,
      History.previous_record_succ hk, hv.get_back hW (by omega)]
  · rw [(hv.step hpos .unsetLastSample).get_back hW (by omega), record, History.previous_undo,
      hv.get_back hW (by omega)]
  · rw [(hv.step hpos .reset).get_back hW hk, record, History.previous_empty]
    rfl
  · rw [hv.get_back hW hk, History.previous_of_le hbeyond]
    rfl

/-- After every sequence of operations, for every depth: the values are the samples
    the history retains, an index that is not positive finds the sample it names, or
    none where that is not retained, and a positive one is refused. -/
theorem values_refine_history {historyDepth : Int} (hpos : 1 ≤ historyDepth)
    (hint : historyDepth < 2 ^ 31) (ops : List (Op T)) :
    (after historyDepth ops).values.map ValueItem.value =
        (historyAfter historyDepth.toNat ops).oldestFirst ∧
      (∀ k : Nat, k ≤ 2 ^ 31 →
        (∀ a, (historyAfter historyDepth.toNat ops).previous k = some a →
          (after historyDepth ops).get (-k) = (.noError, some a)) ∧
        ((historyAfter historyDepth.toNat ops).previous k = none →
          (after historyDepth ops).get (-k) = (.notAvailable, none))) ∧
      ∀ timeIndex : Int, 0 < timeIndex →
        (after historyDepth ops).get timeIndex = (.invalidParam, none) := by
  have hW : 0 < historyDepth.toNat := by omega
  have hsmall : historyDepth.toNat < 2 ^ 31 := by omega
  have hrefines : Refines (after historyDepth ops) (historyAfter historyDepth.toNat ops) :=
    (refines_create hpos hint).steps hW ops
  refine ⟨hrefines.values, ?_, ?_⟩
  · intro k hk
    exact ⟨fun a ha => hrefines.get_of_previous hsmall hk ha,
      fun hnone => hrefines.get_of_not_retained hsmall hk hnone⟩
  · intro timeIndex hpositive
    rw [get, getItem, if_pos hpositive]
    rfl

/-- Three samples in a history of two, of which the last is taken back. -/
def threeSamples : List (Op Nat) :=
  [.set 10 1, .setAt 20 2 2, .set 30 3, .unsetLastSample, .set 40 4]

theorem values_refine_history_threeSamples :
    ((after 2 threeSamples).values.map ValueItem.value = [20, 40]) ∧
      (after 2 threeSamples).get (-1) = (.noError, some 20) ∧
      (after 2 threeSamples).get (-2) = (.notAvailable, none) := by
  obtain ⟨hvalues, hget, -⟩ :=
    values_refine_history (by decide : (1 : Int) ≤ 2) (by decide) threeSamples
  refine ⟨hvalues.trans (by decide), ?_, ?_⟩
  · exact (hget 1 (by decide)).1 20 (by decide)
  · exact (hget 2 (by decide)).2 (by decide)

end StateVariable

end Arinc
