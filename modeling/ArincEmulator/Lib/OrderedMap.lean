import Mathlib.Data.List.Pairwise
import Mathlib.Order.Lattice

/- Ordered containers with one value for a key (`std::map`). The entries stand in the
   order of their keys; to assign to a key replaces its value, and to access a key that
   is not there assigns a default to it.

   What is proved: an assignment leaves the other keys alone and holds the value
   assigned (`mem_set`), and so does an access (`mem_access`); a key is found just with
   its value (`find?_eq_some_iff`). -/
namespace Arinc

/-- Entries by key, one for each. -/
structure OrderedMap (κ υ : Type*) [LinearOrder κ] where
  entries : List (κ × υ)
  sorted : entries.Pairwise fun d e => d.1 < e.1

namespace OrderedMap

variable {κ υ : Type*} [LinearOrder κ]

/-- An entry at the place of its key. -/
def setEntry (e : κ × υ) : List (κ × υ) → List (κ × υ)
  | [] => [e]
  | d :: es =>
    if e.1 < d.1 then e :: d :: es
    else if e.1 = d.1 then e :: es
    else d :: setEntry e es

theorem mem_setEntry {e d : κ × υ} {es : List (κ × υ)}
    (h : es.Pairwise fun d e => d.1 < e.1) :
    d ∈ setEntry e es ↔ d = e ∨ d ∈ es ∧ d.1 ≠ e.1 := by
  induction es with
  | nil => simp [setEntry]
  | cons c es ih =>
    obtain ⟨hc, hes⟩ := List.pairwise_cons.mp h
    rw [setEntry]
    split
    · rename_i hlt
      have hother : ∀ x ∈ c :: es, x.1 ≠ e.1 := by
        intro x hx
        obtain rfl | hx := List.mem_cons.mp hx
        · exact ne_of_gt hlt
        · exact ne_of_gt (lt_trans hlt (hc x hx))
      rw [List.mem_cons]
      exact or_congr_right (iff_self_and.mpr (hother d))
    · split
      · rename_i heq
        have hother : ∀ x ∈ es, x.1 ≠ e.1 := fun x hx => heq ▸ ne_of_gt (hc x hx)
        rw [List.mem_cons, List.mem_cons]
        constructor
        · rintro (rfl | hd)
          · exact Or.inl rfl
          · exact Or.inr ⟨Or.inr hd, hother d hd⟩
        · rintro (rfl | ⟨rfl | hd, hne⟩)
          · exact Or.inl rfl
          · exact absurd heq.symm hne
          · exact Or.inr hd
      · rename_i hne
        rw [List.mem_cons, ih hes, List.mem_cons]
        constructor
        · rintro (rfl | rfl | ⟨hd, hother⟩)
          · exact Or.inr ⟨Or.inl rfl, fun heq => hne heq.symm⟩
          · exact Or.inl rfl
          · exact Or.inr ⟨Or.inr hd, hother⟩
        · rintro (rfl | ⟨rfl | hd, hother⟩)
          · exact Or.inr (Or.inl rfl)
          · exact Or.inl rfl
          · exact Or.inr (Or.inr ⟨hd, hother⟩)

theorem sorted_setEntry {e : κ × υ} {es : List (κ × υ)}
    (h : es.Pairwise fun d e => d.1 < e.1) :
    (setEntry e es).Pairwise fun d e => d.1 < e.1 := by
  induction es with
  | nil => exact List.pairwise_singleton _ _
  | cons c es ih =>
    obtain ⟨hc, hes⟩ := List.pairwise_cons.mp h
    rw [setEntry]
    split
    · rename_i hlt
      refine List.pairwise_cons.mpr ⟨fun x hx => ?_, h⟩
      obtain rfl | hx := List.mem_cons.mp hx
      · exact hlt
      · exact lt_trans hlt (hc x hx)
    · split
      · rename_i heq
        exact List.pairwise_cons.mpr ⟨fun x hx => heq ▸ hc x hx, hes⟩
      · rename_i hnlt hne
        refine List.pairwise_cons.mpr ⟨fun x hx => ?_, ih hes⟩
        obtain rfl | ⟨hx, -⟩ := (mem_setEntry hes).mp hx
        · exact lt_of_le_of_ne (not_lt.mp hnlt) fun heq => hne heq.symm
        · exact hc x hx

/-- An empty container. -/
def empty : OrderedMap κ υ := ⟨[], List.Pairwise.nil⟩

/-- `m[k] = v`. -/
def set (m : OrderedMap κ υ) (k : κ) (v : υ) : OrderedMap κ υ :=
  ⟨setEntry (k, v) m.entries, sorted_setEntry m.sorted⟩

/-- The value of a key. -/
def find? (m : OrderedMap κ υ) (k : κ) : Option υ := (m.entries.find? (·.1 = k)).map Prod.snd

/-- What `m[k]` leaves where it is read. -/
def access (m : OrderedMap κ υ) (default : υ) (k : κ) : OrderedMap κ υ :=
  if (m.find? k).isSome then m else m.set k default

theorem mem_set {m : OrderedMap κ υ} {k : κ} {v : υ} {d : κ × υ} :
    d ∈ (m.set k v).entries ↔ d = (k, v) ∨ d ∈ m.entries ∧ d.1 ≠ k :=
  mem_setEntry m.sorted

theorem eq_of_mem {m : OrderedMap κ υ} {d e : κ × υ} (hd : d ∈ m.entries) (he : e ∈ m.entries)
    (h : d.1 = e.1) : d = e := by
  by_contra hne
  have hsymm : Std.Symm fun d e : κ × υ => d.1 ≠ e.1 := ⟨fun _ _ hd => hd.symm⟩
  exact (m.sorted.imp fun hlt => ne_of_lt hlt).forall hd he hne h

theorem find?_eq_some_iff {m : OrderedMap κ υ} {k : κ} {v : υ} :
    m.find? k = some v ↔ (k, v) ∈ m.entries := by
  constructor
  · intro h
    obtain ⟨⟨k', v'⟩, hfind, rfl⟩ := Option.map_eq_some_iff.mp h
    obtain rfl : k' = k := by simpa using List.find?_some hfind
    exact List.mem_of_find?_eq_some hfind
  · intro h
    cases hfind : m.entries.find? (·.1 = k) with
    | none =>
      have hother := List.find?_eq_none.mp hfind _ h
      simp at hother
    | some e =>
      have hkey : e.1 = k := by simpa using List.find?_some hfind
      obtain rfl := eq_of_mem (List.mem_of_find?_eq_some hfind) h hkey
      rw [find?, hfind]
      rfl

theorem find?_eq_none_iff {m : OrderedMap κ υ} {k : κ} :
    m.find? k = none ↔ ∀ e ∈ m.entries, e.1 ≠ k := by
  rw [find?, Option.map_eq_none_iff, List.find?_eq_none]
  simp

theorem mem_access {m : OrderedMap κ υ} {default : υ} {k : κ} {d : κ × υ} :
    d ∈ (m.access default k).entries ↔
      d ∈ m.entries ∨ d = (k, default) ∧ ∀ e ∈ m.entries, e.1 ≠ k := by
  rw [access]
  cases hfind : m.find? k with
  | some v =>
    have hthere := find?_eq_some_iff.mp hfind
    rw [Option.isSome_some, if_pos rfl]
    exact ⟨Or.inl, fun h => h.elim id fun ⟨_, hnone⟩ => absurd rfl (hnone _ hthere)⟩
  | none =>
    have hnone := find?_eq_none_iff.mp hfind
    rw [Option.isSome_none, if_neg Bool.false_ne_true, mem_set]
    constructor
    · rintro (rfl | ⟨hd, -⟩)
      · exact Or.inr ⟨rfl, hnone⟩
      · exact Or.inl hd
    · rintro (hd | ⟨rfl, -⟩)
      · exact Or.inr ⟨hd, hnone d hd⟩
      · exact Or.inl rfl

end OrderedMap

end Arinc
