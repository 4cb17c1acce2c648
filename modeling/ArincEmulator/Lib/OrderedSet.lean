import Mathlib.Order.Lattice
import Mathlib.Data.List.Basic

/- An ordered container as libraries have it (`std::set`): the elements stand in the
   order of a comparison, and an element is not inserted when one is there that is
   equivalent to it, neither of the two coming before the other. The comparison is
   `<` on keys in what follows.

   What is proved: the keys of the elements ascend strictly (`sorted_insertAll`), the
   elements are among those inserted, and all of those are there just when no two
   different ones have the same key (`insertAll_keeps_iff`). -/
namespace Arinc.OrderedSet

variable {α β : Type*}

/-- An insertion. -/
def insert (comp : α → α → Bool) (x : α) : List α → List α
  | [] => [x]
  | y :: ys =>
    if comp x y then x :: y :: ys
    else if comp y x then y :: insert comp x ys
    else y :: ys

/-- Insertions, one after the other. -/
def insertAll (comp : α → α → Bool) (s xs : List α) : List α :=
  xs.foldl (fun s x => insert comp x s) s

theorem insertAll_append (comp : α → α → Bool) (s xs ys : List α) :
    insertAll comp s (xs ++ ys) = insertAll comp (insertAll comp s xs) ys := List.foldl_append

variable [LinearOrder β]

/-- Strictly ascending keys. -/
def Sorted (key : α → β) (s : List α) : Prop := s.Pairwise fun a b => key a < key b

/-- No two different elements have the same key. -/
def Apart (key : α → β) (xs : List α) : Prop := ∀ x ∈ xs, ∀ y ∈ xs, key x = key y → x = y

instance [DecidableEq α] (key : α → β) (xs : List α) : Decidable (Apart key xs) :=
  inferInstanceAs (Decidable (∀ x ∈ xs, ∀ y ∈ xs, _ → _))

theorem Sorted.nodup {key : α → β} {s : List α} (h : Sorted key s) : s.Nodup := by
  apply List.Pairwise.imp _ h
  rintro a b hlt rfl
  exact lt_irrefl _ hlt

theorem Sorted.apart {key : α → β} {s : List α} (h : Sorted key s) : Apart key s := by
  induction s with
  | nil => exact nofun
  | cons a s ih =>
    obtain ⟨ha, hs⟩ := List.pairwise_cons.mp h
    intro x hx y hy heq
    rcases List.mem_cons.mp hx with rfl | hxs
    · rcases List.mem_cons.mp hy with rfl | hys
      · rfl
      · exact absurd heq (ha y hys).ne
    · rcases List.mem_cons.mp hy with rfl | hys
      · exact absurd heq.symm (ha x hxs).ne
      · exact ih hs x hxs y hys heq

section
variable {key : α → β} {comp : α → α → Bool} (hcomp : ∀ a b, comp a b = true ↔ key a < key b)
include hcomp

/-- The element is there unless its key was. -/
theorem mem_insert {x z : α} {s : List α} (hs : Sorted key s) :
    z ∈ insert comp x s ↔ z ∈ s ∨ z = x ∧ ∀ y ∈ s, key y ≠ key x := by
  induction s with
  | nil => simp [insert]
  | cons y ys ih =>
    obtain ⟨hy, hys⟩ := List.pairwise_cons.mp hs
    simp only [insert, hcomp]
    split
    · rename_i hlt
      have hnew : ∀ w ∈ y :: ys, key w ≠ key x := by
        intro w hw
        rcases List.mem_cons.mp hw with rfl | hw
        · exact hlt.ne'
        · exact (hlt.trans (hy w hw)).ne'
      rw [List.mem_cons, or_comm, and_iff_left hnew]
    · rename_i hge
      split
      · rename_i hlt
        rw [List.mem_cons, List.mem_cons, ih hys, or_assoc, List.forall_mem_cons,
          and_iff_right hlt.ne]
      · rename_i hle
        have hkey : key y = key x := le_antisymm (not_lt.mp hge) (not_lt.mp hle)
        simp [hkey]

theorem sorted_insert (x : α) {s : List α} (hs : Sorted key s) : Sorted key (insert comp x s) := by
  induction s with
  | nil => exact List.pairwise_singleton _ _
  | cons y ys ih =>
    obtain ⟨hy, hys⟩ := List.pairwise_cons.mp hs
    simp only [insert, hcomp]
    split
    · rename_i hlt
      refine List.pairwise_cons.mpr ⟨fun w hw => ?_, hs⟩
      rcases List.mem_cons.mp hw with rfl | hw
      · exact hlt
      · exact hlt.trans (hy w hw)
    · split
      · rename_i hlt
        refine List.pairwise_cons.mpr ⟨fun w hw => ?_, ih hys⟩
        rcases (mem_insert hcomp hys).mp hw with hw | ⟨rfl, -⟩
        · exact hy w hw
        · exact hlt
      · exact hs

theorem sorted_insertAll (xs : List α) {s : List α} (hs : Sorted key s) :
    Sorted key (insertAll comp s xs) := by
  induction xs generalizing s with
  | nil => exact hs
  | cons x xs ih => exact ih (sorted_insert hcomp x hs)

theorem mem_of_mem_insertAll {xs s : List α} (hs : Sorted key s) {z : α}
    (hz : z ∈ insertAll comp s xs) : z ∈ s ∨ z ∈ xs := by
  induction xs generalizing s with
  | nil => exact Or.inl hz
  | cons x xs ih =>
    rcases ih (sorted_insert hcomp x hs) hz with hz | hz
    · rcases (mem_insert hcomp hs).mp hz with hz | ⟨rfl, -⟩
      · exact Or.inl hz
      · exact Or.inr List.mem_cons_self
    · exact Or.inr (List.mem_cons_of_mem _ hz)

theorem mem_insertAll_of_mem {xs s : List α} (hs : Sorted key s) {z : α} (hz : z ∈ s) :
    z ∈ insertAll comp s xs := by
  induction xs generalizing s with
  | nil => exact hz
  | cons x xs ih =>
    exact ih (sorted_insert hcomp x hs) ((mem_insert hcomp hs).mpr (Or.inl hz))

theorem mem_insertAll_of_apart {xs s : List α} (hs : Sorted key s) (hapart : Apart key (s ++ xs))
    {z : α} (hz : z ∈ xs) : z ∈ insertAll comp s xs := by
  induction xs generalizing s with
  | nil => cases hz
  | cons x xs ih =>
    have hsorted := sorted_insert hcomp x hs
    have hx : x ∈ insert comp x s := by
      rw [mem_insert hcomp hs]
      by_cases hin : x ∈ s
      · exact Or.inl hin
      · refine Or.inr ⟨rfl, fun y hy heq => hin ?_⟩
        have hyx := hapart y (List.mem_append_left _ hy) x (by simp) heq
        exact hyx ▸ hy
    rcases List.mem_cons.mp hz with rfl | hz
    · exact mem_insertAll_of_mem hcomp hsorted hx
    · refine ih hsorted ?_ hz
      have hsub : ∀ w ∈ insert comp x s ++ xs, w ∈ s ++ x :: xs := by
        intro w hw
        rcases List.mem_append.mp hw with hw | hw
        · rcases (mem_insert hcomp hs).mp hw with hw | ⟨rfl, -⟩
          · exact List.mem_append_left _ hw
          · simp
        · simp [hw]
      exact fun a ha b hb => hapart a (hsub a ha) b (hsub b hb)

/-- Nothing inserted is missing just when the keys are apart. -/
theorem insertAll_keeps_iff (xs : List α) :
    (∀ x ∈ xs, x ∈ insertAll comp [] xs) ↔ Apart key xs := by
  constructor
  · intro h x hx y hy
    exact (sorted_insertAll hcomp xs .nil).apart x (h x hx) y (h y hy)
  · intro hapart x hx
    exact mem_insertAll_of_apart hcomp .nil hapart hx

end

end Arinc.OrderedSet
