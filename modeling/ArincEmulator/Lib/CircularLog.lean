import Mathlib.Data.List.Rotate
import ArincEmulator.Lib.Ring

/- A log in an array of `n` slots that is written round and round: an index of the next
   slot, and a mark for an array that has been written to its end. What it retains, in
   the order of the writes, are the last `n` entries (`retains_after`); slot by slot that
   is turned by the index (`Retains.last_eq_rotate`). So a dump by slots is in order just
   when there was room for all, or the turn changes nothing
   (`Retains.bySlot_eq_last_iff`), and for entries that differ the turn changes nothing
   only when the index is back at the first slot (`rotate_eq_last_iff`). -/
namespace Arinc.CircularLog
open Arinc.Ring

variable {α : Type*}

/-- The array, its next slot, and whether it has been written to its end. -/
structure Log (α : Type*) where
  slots : Nat → α
  index : Nat
  full : Bool

/-- A log that has not been written. -/
def empty (slots : Nat → α) : Log α := ⟨slots, 0, false⟩

/-- One entry. -/
def write (n : Nat) (log : Log α) (a : α) : Log α where
  slots := Function.update log.slots log.index a
  index := next n log.index
  full := log.full || decide (log.index + 1 = n)

/-- The slots that have been written, one after the other. -/
def bySlot (n : Nat) (log : Log α) : List α :=
  window n log.slots 0 (if log.full then n else log.index)

/-- The same from the oldest on. -/
def byAge (n : Nat) (log : Log α) : List α :=
  if log.full then window n log.slots log.index n else window n log.slots 0 log.index

/-- The log after the entries, in order. -/
def after (n : Nat) (slots : Nat → α) (entries : List α) : Log α :=
  entries.foldl (write n) (empty slots)

variable {n : Nat} {slots : Nat → α}

theorem index_write_lt {log : Log α} (hindex : log.index < n) (a : α) :
    (write n log a).index < n := next_lt hindex

theorem window_zero {count : Nat} (hcount : count ≤ n) :
    window n slots 0 count = (List.range count).map slots := by
  apply List.map_congr_left
  intro i hi
  have hi := List.mem_range.mp hi
  rw [Nat.zero_add, Nat.mod_eq_of_lt (by omega)]

/-- A whole turn of the ring, from another slot. -/
theorem window_eq_rotate (head : Nat) :
    window n slots head n = (window n slots 0 n).rotate head := by
  apply List.ext_getElem
  · simp [window]
  · intro k hk hk'
    rw [List.getElem_rotate]
    simp only [window, List.getElem_map, List.getElem_range, List.length_map, List.length_range,
      Nat.zero_add, Nat.mod_mod]
    rw [Nat.add_comm]

/-- Before the end is reached a write adds its entry. -/
theorem byAge_write_of_not_full {log : Log α} (hfull : log.full = false) (hindex : log.index < n)
    (a : α) : byAge n (write n log a) = byAge n log ++ [a] := by
  have hpush : window n (Function.update log.slots ((0 + log.index) % n) a) 0 (log.index + 1) =
      window n log.slots 0 log.index ++ [a] := window_push hindex a
  rw [Nat.zero_add, Nat.mod_eq_of_lt hindex] at hpush
  have hold : byAge n log = window n log.slots 0 log.index := by simp [byAge, hfull]
  rw [hold, ← hpush]
  unfold byAge write next
  by_cases hend : log.index + 1 = n
  · simp [hend, hfull]
  · simp [hend, hfull]

/-- Afterwards it takes the place of the oldest. -/
theorem byAge_write_of_full {log : Log α} (hfull : log.full = true) (hindex : log.index < n)
    (a : α) : byAge n (write n log a) = (byAge n log).tail ++ [a] := by
  obtain ⟨m, rfl⟩ : ∃ m, n = m + 1 := ⟨n - 1, by omega⟩
  have hslot : (next (m + 1) log.index + m) % (m + 1) = log.index := by
    rw [next_eq_mod hindex, Nat.mod_add_mod, Nat.add_assoc, Nat.add_comm 1 m, Nat.add_mod_right]
    exact Nat.mod_eq_of_lt hindex
  have hpush : window (m + 1)
      (Function.update log.slots ((next (m + 1) log.index + m) % (m + 1)) a)
      (next (m + 1) log.index) (m + 1) =
        window (m + 1) log.slots (next (m + 1) log.index) m ++ [a] :=
    window_push (Nat.lt_succ_self m) a
  rw [hslot] at hpush
  calc byAge (m + 1) (write (m + 1) log a)
      = window (m + 1) (Function.update log.slots log.index a) (next (m + 1) log.index) (m + 1) := by
        simp [byAge, write, hfull]
    _ = window (m + 1) log.slots (next (m + 1) log.index) m ++ [a] := hpush
    _ = (byAge (m + 1) log).tail ++ [a] := by
        simp only [byAge, hfull, if_true, window_pop hindex, List.tail_cons]

/-- What a log knows after `entries`: how many they were, up to the turns, and the last
    of them. -/
structure Retains (n : Nat) (log : Log α) (entries : List α) : Prop where
  index : log.index = entries.length % n
  full : log.full = decide (n ≤ entries.length)
  last : byAge n log = entries.drop (entries.length - n)

theorem retains_empty (hn : 0 < n) : Retains n (empty slots) ([] : List α) where
  index := (Nat.zero_mod n).symm
  full := (decide_eq_false (Nat.not_le.mpr hn)).symm
  last := by simp [byAge, empty, window]

theorem Retains.write {log : Log α} {entries : List α} (hn : 0 < n) (h : Retains n log entries)
    (a : α) : Retains n (write n log a) (entries ++ [a]) := by
  have hindex : log.index < n := by
    rw [h.index]
    exact Nat.mod_lt _ hn
  have hnext : (CircularLog.write n log a).index = (entries ++ [a]).length % n := by
    rw [List.length_append, List.length_singleton, Nat.add_mod, ← h.index]
    exact (next_eq_mod hindex).trans (by simp)
  refine ⟨hnext, ?_, ?_⟩
  · show (log.full || decide (log.index + 1 = n)) = decide (n ≤ (entries ++ [a]).length)
    rw [h.full, ← Bool.decide_or, List.length_append, List.length_singleton, decide_eq_decide]
    by_cases hlong : n ≤ entries.length
    · exact iff_of_true (Or.inl hlong) (by omega)
    · rw [h.index, Nat.mod_eq_of_lt (by omega)]
      omega
  -- Before the first turn nothing is lost; from then on a write drops the oldest entry.
  · cases hfull : log.full with
    | false =>
      have hshort : entries.length < n := by
        rw [h.full] at hfull
        simpa using hfull
      rw [byAge_write_of_not_full hfull hindex, h.last, List.length_append, List.length_singleton,
        Nat.sub_eq_zero_of_le (by omega), Nat.sub_eq_zero_of_le (by omega)]
      rfl
    | true =>
      have hlong : n ≤ entries.length := by
        rw [h.full] at hfull
        simpa using hfull
      rw [byAge_write_of_full hfull hindex, h.last, List.length_append, List.length_singleton,
        List.tail_drop, List.drop_append_of_le_length (by omega), Nat.sub_add_comm hlong]

theorem Retains.foldl_write {log : Log α} {entries : List α} (hn : 0 < n)
    (h : Retains n log entries) (more : List α) :
    Retains n (more.foldl (CircularLog.write n) log) (entries ++ more) := by
  induction more generalizing log entries with
  | nil =>
    rw [List.append_nil]
    exact h
  | cons a more ih =>
    have hrest := ih (h.write hn a)
    rwa [List.append_assoc] at hrest

/-- After any entries the log retains the last of them. -/
theorem retains_after (hn : 0 < n) (slots : Nat → α) (entries : List α) :
    Retains n (after n slots entries) entries := (retains_empty hn).foldl_write hn entries

/-! ## Read slot by slot -/

variable {log : Log α} {entries : List α}

theorem Retains.bySlot_of_lt (h : Retains n log entries) (hshort : entries.length < n) :
    bySlot n log = entries := by
  have hfull : log.full = false := by
    rw [h.full]
    exact decide_eq_false (Nat.not_le.mpr hshort)
  have hlast := h.last
  rw [Nat.sub_eq_zero_of_le (Nat.le_of_lt hshort), List.drop_zero] at hlast
  simpa [bySlot, byAge, hfull] using hlast

theorem Retains.last_eq_rotate (h : Retains n log entries) (hlong : n ≤ entries.length) :
    entries.drop (entries.length - n) = (bySlot n log).rotate (entries.length % n) := by
  have hfull : log.full = true := by
    rw [h.full]
    exact decide_eq_true hlong
  have hage : byAge n log = window n log.slots log.index n := by simp [byAge, hfull]
  have hslot : bySlot n log = window n log.slots 0 n := by simp [bySlot, hfull]
  rw [← h.last, hage, hslot, ← h.index]
  exact window_eq_rotate log.index

/-- Slot by slot the last entries lie in order just when there is room for all, or the
    turn by the index changes nothing. -/
theorem Retains.bySlot_eq_last_iff (h : Retains n log entries) :
    bySlot n log = entries.drop (entries.length - n) ↔
      entries.length ≤ n ∨
        (entries.drop (entries.length - n)).rotate (entries.length % n) =
          entries.drop (entries.length - n) := by
  obtain hshort | hlong := Nat.lt_or_ge entries.length n
  · refine iff_of_true ?_ (Or.inl (Nat.le_of_lt hshort))
    rw [h.bySlot_of_lt hshort, Nat.sub_eq_zero_of_le (Nat.le_of_lt hshort), List.drop_zero]
  have hturn := h.last_eq_rotate hlong
  generalize entries.drop (entries.length - n) = last at hturn
  constructor
  · intro heq
    rw [heq] at hturn
    exact Or.inr hturn.symm
  · intro hor
    obtain hle | heq := hor
    · obtain rfl : entries.length = n := Nat.le_antisymm hle hlong
      rw [Nat.mod_self, List.rotate_zero] at hturn
      exact hturn.symm
    · have hsame : last.rotate (entries.length % n) =
          (bySlot n log).rotate (entries.length % n) := heq.trans hturn
      exact (List.rotate_injective _ hsame).symm

/-- Where the retained entries differ, the index has to be back at the first slot. -/
theorem rotate_eq_last_iff (hn : 0 < n) (hlong : n ≤ entries.length)
    (hdiffer : (entries.drop (entries.length - n)).Nodup) :
    (entries.drop (entries.length - n)).rotate (entries.length % n) =
        entries.drop (entries.length - n) ↔ n ∣ entries.length := by
  have hlength : (entries.drop (entries.length - n)).length = n := by
    rw [List.length_drop]
    omega
  have hne : entries.drop (entries.length - n) ≠ [] := by
    intro hnil
    rw [hnil] at hlength
    exact absurd hlength.symm (Nat.ne_of_gt hn)
  rw [hdiffer.rotate_eq_self_iff, hlength, Nat.mod_mod, Nat.dvd_iff_mod_eq_zero]
  exact or_iff_left hne

end Arinc.CircularLog
