import Mathlib.Data.List.Nodup

/- Tables that only grow at their end and whose entries are found by name: the id
   of an entry is its place. While no name is there twice, the search for a name
   answers just for the names of the table, with the place of the entry
   (`find_eq_some_iff`), and an answer stays the same however the table grows
   (`find_of_prefix`). A field that a change of one entry leaves alone reads the
   same over the whole table (`map_modify`). -/
namespace Arinc.NameTable

variable {ν : Type*} [DecidableEq ν]

/-- The search from the start for the first entry of a name. -/
def find (names : List ν) (name : ν) : Option Nat := names.idxOf? name

theorem getElem?_of_find {names : List ν} {name : ν} {id : Nat} (h : find names name = some id) :
    names[id]? = some name := by
  obtain ⟨hid, hname, -⟩ := List.idxOf?_eq_some_iff.mp h
  rw [List.getElem?_eq_getElem hid, hname]

theorem find_eq_none_iff {names : List ν} {name : ν} : find names name = none ↔ name ∉ names :=
  List.idxOf?_eq_none_iff

/-- In a table without doubles the search finds each entry at its place. -/
theorem find_eq_some_iff {names : List ν} (hn : names.Nodup) {name : ν} {id : Nat} :
    find names name = some id ↔ names[id]? = some name := by
  refine ⟨getElem?_of_find, fun h => ?_⟩
  obtain ⟨hid, hname⟩ := List.getElem?_eq_some_iff.mp h
  apply List.idxOf?_eq_some_iff.mpr
  refine ⟨hid, hname, fun j hj heq => ?_⟩
  have hplace : j = id := (List.Nodup.getElem_inj_iff hn).mp (heq.trans hname.symm)
  exact absurd hplace (Nat.ne_of_lt hj)

theorem find_of_prefix {names names' : List ν} (h : names <+: names') (hn : names'.Nodup)
    {name : ν} {id : Nat} (hid : find names name = some id) : find names' name = some id := by
  obtain ⟨hlt, hname⟩ := List.getElem?_eq_some_iff.mp (getElem?_of_find hid)
  rw [find_eq_some_iff hn, List.prefix_iff_getElem?.mp h id hlt, hname]

/-! ## Fields of the entries -/

section
variable {α β : Type*}

theorem getElem?_push_cases {l : List α} {a b : α} {i : Nat} (h : (l ++ [a])[i]? = some b) :
    l[i]? = some b ∨ i = l.length ∧ b = a := by
  rw [List.getElem?_append] at h
  split at h
  · exact Or.inl h
  · rename_i hi
    obtain ⟨hlt, hb⟩ := List.getElem?_eq_some_iff.mp h
    rw [List.length_singleton] at hlt
    have hzero : i - l.length = 0 := by omega
    simp only [hzero, List.getElem_cons_zero] at hb
    exact Or.inr ⟨by omega, hb.symm⟩

theorem getElem?_push_of_some {l : List α} {a b : α} {i : Nat} (h : l[i]? = some b) :
    (l ++ [a])[i]? = some b := by
  rw [List.getElem?_append_left (List.getElem?_eq_some_iff.mp h).1]
  exact h

theorem map_modify {f : α → β} {g : α → α} (h : ∀ a, f (g a) = f a) (l : List α) (i : Nat) :
    (l.modify i g).map f = l.map f := by
  apply List.ext_getElem?
  intro j
  rw [List.getElem?_map, List.getElem?_modify, List.getElem?_map]
  cases l[j]? with
  | none => rfl
  | some a =>
    simp only [Option.map_eq_map, Option.map_some]
    split
    · rw [h a]
    · rfl

theorem modify_last (l : List α) (a : α) (g : α → α) :
    (l ++ [a]).modify l.length g = l ++ [g a] := by
  induction l with
  | nil => rfl
  | cons b l ih => simpa using ih

theorem places_push {f : α → Nat} {l : List α} (h : l.map f = List.range l.length) {a : α}
    (ha : f a = l.length) : (l ++ [a]).map f = List.range (l ++ [a]).length := by
  rw [List.map_append, h, List.length_append, List.length_singleton, List.range_succ]
  simp [ha]

end

end Arinc.NameTable
