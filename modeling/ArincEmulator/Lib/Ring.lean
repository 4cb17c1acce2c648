import Mathlib.Data.List.Basic
import Mathlib.Data.Nat.ModEq
import Mathlib.Logic.Function.Basic

/- A circular array of `n` slots as a queue: the window of `count` slots from
   `head` on, modulo `n`. What a queue over such an array has to know is how
   the window changes when a slot past its end is filled (`window_push`) and
   when its first slot is given up, overwritten or not (`window_pop`,
   `window_update_head`). -/
namespace Arinc.Ring

variable {α : Type*}

/-- The contents of the `count` slots from `head` on. -/
def window (n : Nat) (slots : Nat → α) (head count : Nat) : List α :=
  (List.range count).map fun j => slots ((head + j) % n)

/-- The next index: one more, and 0 at the end of the array. -/
def next (n i : Nat) : Nat := if i + 1 = n then 0 else i + 1

variable {n head count : Nat} {slots : Nat → α}

theorem next_eq_mod (h : head < n) : next n head = (head + 1) % n := by
  unfold next
  split
  · rename_i he
    rw [he, Nat.mod_self]
  · rw [Nat.mod_eq_of_lt (by omega)]

theorem next_lt (h : head < n) : next n head < n := by
  rw [next_eq_mod h]
  exact Nat.mod_lt _ (by omega)

/-- Two places of a window no longer than the array are different slots. -/
theorem add_mod_ne {i j : Nat} (hij : i < j) (hj : j < n) :
    (head + i) % n ≠ (head + j) % n := by
  intro he
  have hmod : i ≡ j [MOD n] := Nat.ModEq.add_left_cancel' head he
  exact absurd (hmod.eq_of_lt_of_lt (hij.trans hj) hj) hij.ne

theorem window_succ (n : Nat) (slots : Nat → α) (head count : Nat) :
    window n slots head (count + 1) = window n slots head count ++ [slots ((head + count) % n)] := by
  simp only [window, List.range_succ, List.map_append, List.map_cons, List.map_nil]

theorem window_congr {slots' : Nat → α}
    (h : ∀ j < count, slots ((head + j) % n) = slots' ((head + j) % n)) :
    window n slots head count = window n slots' head count := by
  apply List.map_congr_left
  intro j hj
  exact h j (List.mem_range.mp hj)

theorem mem_window {j : Nat} (hj : j < count) : slots ((head + j) % n) ∈ window n slots head count :=
  List.mem_map.mpr ⟨j, List.mem_range.mpr hj, rfl⟩

theorem window_push (hcount : count < n) (x : α) :
    window n (Function.update slots ((head + count) % n) x) head (count + 1)
      = window n slots head count ++ [x] := by
  simp only [window, List.range_succ, List.map_append, List.map_cons, List.map_nil,
    Function.update_self]
  congr 1
  apply List.map_congr_left
  intro j hj
  rw [Function.update_of_ne (add_mod_ne (List.mem_range.mp hj) hcount)]

theorem window_pop (h : head < n) :
    window n slots head (count + 1) = slots head :: window n slots (next n head) count := by
  simp only [window, List.range_succ_eq_map, List.map_cons, List.map_map, Nat.add_zero,
    Nat.mod_eq_of_lt h, List.cons.injEq, true_and]
  apply List.map_congr_left
  intro j _
  rw [next_eq_mod h]
  simp only [Function.comp, Nat.mod_add_mod]
  congr 2
  omega

/-- Overwriting the slot given up leaves the rest of the window alone. -/
theorem window_update_head (h : head < n) (hcount : count < n) (x : α) :
    window n (Function.update slots head x) (next n head) count
      = window n slots (next n head) count := by
  apply List.map_congr_left
  intro j hj
  have hj := List.mem_range.mp hj
  have hne : (next n head + j) % n ≠ head := by
    rw [next_eq_mod h, Nat.mod_add_mod, Nat.add_assoc, Nat.add_comm 1 j]
    have hdiff : (head + 0) % n ≠ (head + (j + 1)) % n := add_mod_ne (Nat.succ_pos j) (by omega)
    rw [Nat.add_zero, Nat.mod_eq_of_lt h] at hdiff
    exact hdiff.symm
  rw [Function.update_of_ne hne]

end Arinc.Ring
