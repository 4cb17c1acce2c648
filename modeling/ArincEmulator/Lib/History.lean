import Mathlib.Data.List.Basic

/- Histories with a bound: the last `W` samples that were recorded and not taken
   back, the newest first. The bound is part of the type. What a history holds is
   read with `previous`, and each operation is known by what it does to that
   (`previous_record_zero`, `previous_record_succ`, `previous_undo`,
   `previous_empty`); beyond the samples there is nothing (`previous_eq_none_iff`). -/
namespace Arinc

/-- At most `W` samples, the newest first. -/
structure History (W : Nat) (α : Type*) where
  samples : List α
  bounded : samples.length ≤ W

namespace History

variable {W : Nat} {α : Type*}

/-- No sample. -/
def empty : History W α := ⟨[], Nat.zero_le W⟩

/-- A new sample; a full history loses its oldest. -/
def record (h : History W α) (a : α) : History W α :=
  ⟨(a :: h.samples).take W, List.length_take_le W _⟩

/-- The newest sample is taken back. -/
def undo (h : History W α) : History W α :=
  ⟨h.samples.tail, by
    rw [List.length_tail]
    exact Nat.le_trans (Nat.sub_le _ 1) h.bounded⟩

/-- The sample `k` before the newest, where it is retained. -/
def previous (h : History W α) (k : Nat) : Option α := h.samples[k]?

@[simp] theorem previous_empty (k : Nat) : (empty : History W α).previous k = none := rfl

theorem previous_record_zero (hW : 0 < W) (h : History W α) (a : α) :
    (h.record a).previous 0 = some a := by
  simp [previous, record, List.getElem?_take_of_lt hW]

theorem previous_record_succ {k : Nat} (hk : k + 1 < W) (h : History W α) (a : α) :
    (h.record a).previous (k + 1) = h.previous k := by
  simp [previous, record, List.getElem?_take_of_lt hk]

theorem previous_undo (h : History W α) (k : Nat) : h.undo.previous k = h.previous (k + 1) := by
  simp [previous, undo]

theorem previous_eq_none_iff (h : History W α) (k : Nat) :
    h.previous k = none ↔ h.samples.length ≤ k := List.getElem?_eq_none_iff

theorem previous_of_le {k : Nat} (hk : W ≤ k) (h : History W α) : h.previous k = none :=
  (h.previous_eq_none_iff k).mpr (Nat.le_trans h.bounded hk)

/-! ## The oldest first

A container that appends at its end and drops from its front. -/

/-- The samples in the order they were recorded. -/
def oldestFirst (h : History W α) : List α := h.samples.reverse

theorem length_oldestFirst (h : History W α) : h.oldestFirst.length ≤ W :=
  Nat.le_trans (Nat.le_of_eq List.length_reverse) h.bounded

theorem oldestFirst_record_of_lt {h : History W α} (hroom : h.oldestFirst.length < W) (a : α) :
    (h.record a).oldestFirst = h.oldestFirst ++ [a] := by
  have hfits : (a :: h.samples).length ≤ W := by
    rw [oldestFirst, List.length_reverse] at hroom
    exact hroom
  simp only [oldestFirst, record]
  rw [List.take_of_length_le hfits, List.reverse_cons]

theorem oldestFirst_record_of_full (hW : 0 < W) {h : History W α} (hfull : h.oldestFirst.length = W)
    (a : α) : (h.record a).oldestFirst = h.oldestFirst.tail ++ [a] := by
  obtain ⟨n, rfl⟩ : ∃ n, W = n + 1 := ⟨W - 1, by omega⟩
  have hlength : h.samples.length = n + 1 := by
    rwa [oldestFirst, List.length_reverse] at hfull
  simp only [oldestFirst, record]
  rw [List.take_succ_cons, List.reverse_cons, List.tail_reverse, List.dropLast_eq_take, hlength,
    Nat.add_sub_cancel]

theorem oldestFirst_undo (h : History W α) : h.undo.oldestFirst = h.oldestFirst.dropLast := by
  simp only [oldestFirst, undo]
  rw [List.dropLast_reverse]

/-- The sample `k` before the newest, counted from the front. -/
theorem getElem?_oldestFirst {h : History W α} {k : Nat} (hk : k < h.oldestFirst.length) :
    h.oldestFirst[h.oldestFirst.length - 1 - k]? = h.previous k := by
  have hk' : k < h.samples.length := by
    rwa [oldestFirst, List.length_reverse] at hk
  simp only [oldestFirst, previous, List.length_reverse]
  rw [List.getElem?_reverse (by omega)]
  congr 1
  omega

end History

end Arinc
