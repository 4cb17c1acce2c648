import Mathlib.Data.List.Basic
import Mathlib.Order.Lattice

/- Ordered containers with several values for a key (`std::multimap`). The entries
   stand in the order of their keys, and an entry goes in behind all those with the
   same key, so that the values of a key are in the order in which they came.

   What is proved (`holds_insertAll`): a sequence of insertions into an empty container
   leaves just the entries inserted, each as many times as it was, and the values of
   each key in their order. -/
namespace Arinc

/-- Entries by key. -/
structure Multimap (κ υ : Type*) [LinearOrder κ] where
  entries : List (κ × υ)
  sorted : entries.Pairwise fun d e => d.1 ≤ e.1

namespace Multimap

variable {κ υ : Type*} [LinearOrder κ]

/-- The values of a key, among some entries. -/
def valuesOf (es : List (κ × υ)) (k : κ) : List υ := (es.filter (·.1 = k)).map Prod.snd

/-- An entry, behind those whose key is not greater. -/
def insertEntry (e : κ × υ) : List (κ × υ) → List (κ × υ)
  | [] => [e]
  | d :: es => if d.1 ≤ e.1 then d :: insertEntry e es else e :: d :: es

theorem insertEntry_perm (e : κ × υ) (es : List (κ × υ)) : (insertEntry e es).Perm (e :: es) := by
  induction es with
  | nil => exact List.Perm.refl _
  | cons d es ih =>
    rw [insertEntry]
    split
    · exact (ih.cons d).trans (List.Perm.swap e d es)
    · exact List.Perm.refl _

theorem sorted_insertEntry {e : κ × υ} {es : List (κ × υ)}
    (h : es.Pairwise fun d e => d.1 ≤ e.1) :
    (insertEntry e es).Pairwise fun d e => d.1 ≤ e.1 := by
  induction es with
  | nil => exact List.pairwise_singleton _ _
  | cons d es ih =>
    obtain ⟨hd, hes⟩ := List.pairwise_cons.mp h
    rw [insertEntry]
    split
    · rename_i hle
      refine List.pairwise_cons.mpr ⟨fun x hx => ?_, ih hes⟩
      obtain rfl | hx := List.mem_cons.mp ((insertEntry_perm e es).mem_iff.mp hx)
      · exact hle
      · exact hd x hx
    · rename_i hgt
      have hlt : e.1 ≤ d.1 := le_of_lt (not_le.mp hgt)
      refine List.pairwise_cons.mpr ⟨fun x hx => ?_, h⟩
      obtain rfl | hx := List.mem_cons.mp hx
      · exact hlt
      · exact le_trans hlt (hd x hx)

/-- The value of the new entry comes last among those of its key. -/
theorem valuesOf_insertEntry {e : κ × υ} {es : List (κ × υ)}
    (h : es.Pairwise fun d e => d.1 ≤ e.1) (k : κ) :
    valuesOf (insertEntry e es) k = valuesOf es k ++ valuesOf [e] k := by
  unfold valuesOf
  induction es with
  | nil => rfl
  | cons d es ih =>
    obtain ⟨hd, hes⟩ := List.pairwise_cons.mp h
    rw [insertEntry]
    split
    · rw [List.filter_cons, List.filter_cons (x := d)]
      split
      · rw [List.map_cons, List.map_cons, ih hes, List.cons_append]
      · exact ih hes
    · rename_i hgt
      by_cases hk : e.1 = k
      -- no entry has this key: all those keys are greater
      · have hnone : (d :: es).filter (·.1 = k) = [] := by
          rw [List.filter_eq_nil_iff]
          intro x hx
          have hlt : e.1 < x.1 := by
            obtain rfl | hx := List.mem_cons.mp hx
            · exact not_le.mp hgt
            · exact lt_of_lt_of_le (not_le.mp hgt) (hd x hx)
          have hne : ¬ x.1 = k := by
            rw [← hk]
            exact ne_of_gt hlt
          simpa using hne
        rw [List.filter_cons_of_pos (by simpa using hk), hnone]
        simp [hk]
      · simp [hk, List.filter_cons (x := e)]

/-- An empty container. -/
def empty : Multimap κ υ := ⟨[], List.Pairwise.nil⟩

/-- `insert`. -/
def insert (m : Multimap κ υ) (k : κ) (v : υ) : Multimap κ υ :=
  ⟨insertEntry (k, v) m.entries, sorted_insertEntry m.sorted⟩

/-- Insertions, one after the other. -/
def insertAll (m : Multimap κ υ) (es : List (κ × υ)) : Multimap κ υ :=
  es.foldl (fun m e => m.insert e.1 e.2) m

@[simp] theorem insertAll_nil (m : Multimap κ υ) : m.insertAll [] = m := rfl

@[simp] theorem insertAll_cons (m : Multimap κ υ) (e : κ × υ) (es : List (κ × υ)) :
    m.insertAll (e :: es) = (m.insert e.1 e.2).insertAll es := rfl

theorem insertAll_perm (m : Multimap κ υ) (es : List (κ × υ)) :
    (m.insertAll es).entries.Perm (m.entries ++ es) := by
  induction es generalizing m with
  | nil => rw [insertAll_nil, List.append_nil]
  | cons e es ih =>
    calc (m.insertAll (e :: es)).entries.Perm ((m.insert e.1 e.2).entries ++ es) := ih _
      _ |>.Perm (e :: m.entries ++ es) := (insertEntry_perm e m.entries).append_right es
      _ |>.Perm (m.entries ++ e :: es) := List.perm_middle.symm

theorem valuesOf_insertAll (m : Multimap κ υ) (es : List (κ × υ)) (k : κ) :
    valuesOf (m.insertAll es).entries k = valuesOf m.entries k ++ valuesOf es k := by
  induction es generalizing m with
  | nil => exact (List.append_nil _).symm
  | cons e es ih =>
    have hes : valuesOf (e :: es) k = valuesOf [e] k ++ valuesOf es k := by
      unfold valuesOf
      rw [← List.map_append, ← List.filter_append, List.singleton_append]
    rw [insertAll_cons, ih, hes, ← List.append_assoc]
    congr 1
    exact valuesOf_insertEntry m.sorted k

/-- The container holds these entries: each as many times, and the values of each key
    in their order. -/
def Holds (m : Multimap κ υ) (es : List (κ × υ)) : Prop :=
  m.entries.Perm es ∧ ∀ k, valuesOf m.entries k = valuesOf es k

theorem holds_insertAll (es : List (κ × υ)) : (empty.insertAll es).Holds es :=
  ⟨insertAll_perm empty es, valuesOf_insertAll empty es⟩

end Multimap

end Arinc
