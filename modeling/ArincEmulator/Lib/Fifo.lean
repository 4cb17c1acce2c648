import Mathlib.Data.List.Basic

/- Queues with a capacity. An element that finds no room is not taken, so what a
   sequence of offers leaves is the beginning of the old queue with everything
   offered behind it (`offerAll_elements`). -/
namespace Arinc

/-- A queue of at most `capacity` elements, the oldest first. -/
structure Fifo (α : Type*) where
  capacity : Nat
  elements : List α
  within : elements.length ≤ capacity

namespace Fifo

variable {α : Type*}

/-- The queue with `a` at its end, where there is room. -/
def put (q : Fifo α) (a : α) : Option (Fifo α) :=
  if h : q.elements.length < q.capacity then
    some ⟨q.capacity, q.elements ++ [a], by rwa [List.length_append, List.length_singleton]⟩
  else none

/-- The oldest element and the queue without it. -/
def take (q : Fifo α) : Option (α × Fifo α) :=
  match h : q.elements with
  | [] => none
  | a :: rest => some (a, ⟨q.capacity, rest, by
      have hwithin := q.within
      rw [h, List.length_cons] at hwithin
      exact Nat.le_of_succ_le hwithin⟩)

/-- The queue after `a` has come to it and has been taken or lost. -/
def offer (q : Fifo α) (a : α) : Fifo α := (q.put a).getD q

/-- The same for a sequence of elements. -/
def offerAll (q : Fifo α) (as : List α) : Fifo α := as.foldl offer q

@[simp] theorem offer_capacity (q : Fifo α) (a : α) : (q.offer a).capacity = q.capacity := by
  unfold offer put
  split
  · rfl
  · rfl

theorem put_elements {q r : Fifo α} {a : α} (h : q.put a = some r) :
    r.capacity = q.capacity ∧ r.elements = q.elements ++ [a] := by
  unfold put at h
  split at h
  · obtain rfl := Option.some.inj h
    exact ⟨rfl, rfl⟩
  · cases h

theorem put_eq_none_iff {q : Fifo α} {a : α} : q.put a = none ↔ q.capacity ≤ q.elements.length := by
  unfold put
  split
  · rename_i hroom
    exact iff_of_false (by simp) (Nat.not_le.mpr hroom)
  · rename_i hfull
    exact iff_of_true rfl (Nat.not_lt.mp hfull)

theorem take_some {q r : Fifo α} {a : α} (h : q.take = some (a, r)) :
    r.capacity = q.capacity ∧ q.elements = a :: r.elements := by
  unfold take at h
  split at h
  · cases h
  · rename_i b rest hcons
    obtain ⟨rfl, rfl⟩ := Prod.mk.inj (Option.some.inj h)
    exact ⟨rfl, hcons⟩

theorem take_eq_none_iff {q : Fifo α} : q.take = none ↔ q.elements = [] := by
  unfold take
  split
  · rename_i hnil
    exact iff_of_true rfl hnil
  · rename_i b rest hcons
    exact iff_of_false (by simp) (by simp [hcons])

theorem offer_elements (q : Fifo α) (a : α) (as : List α) :
    ((q.offer a).elements ++ as).take q.capacity = (q.elements ++ a :: as).take q.capacity := by
  unfold offer put
  split
  · simp
  · rename_i hfull
    have hlength : q.elements.length = q.capacity :=
      Nat.le_antisymm q.within (Nat.not_lt.mp hfull)
    show (q.elements ++ as).take q.capacity = _
    rw [List.take_left' hlength, List.take_left' hlength]

@[simp] theorem offerAll_capacity (q : Fifo α) (as : List α) :
    (q.offerAll as).capacity = q.capacity := by
  induction as generalizing q with
  | nil => rfl
  | cons a as ih => exact (ih (q.offer a)).trans (offer_capacity q a)

/-- Of the elements offered in order those that find room are kept in that order. -/
theorem offerAll_elements (q : Fifo α) (as : List α) :
    (q.offerAll as).elements = (q.elements ++ as).take q.capacity := by
  induction as generalizing q with
  | nil =>
    rw [List.append_nil, List.take_of_length_le q.within]
    rfl
  | cons a as ih =>
    calc (q.offerAll (a :: as)).elements = ((q.offer a).offerAll as).elements := rfl
      _ = ((q.offer a).elements ++ as).take (q.offer a).capacity := ih (q.offer a)
      _ = ((q.offer a).elements ++ as).take q.capacity := by rw [offer_capacity]
      _ = (q.elements ++ a :: as).take q.capacity := offer_elements q a as

end Fifo

end Arinc
