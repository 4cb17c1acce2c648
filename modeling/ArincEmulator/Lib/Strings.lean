import Mathlib.Data.List.DropRight
import Mathlib.Data.List.Infix

/- Strings as lists, with the operations a scripting language has for them: searching,
   slicing, splitting, stripping and replacing. What a proof has to know of the last two:
   stripping takes spaces away and nothing else (`mem_strip`, `infix_strip`), a text
   that shares nothing with what it is replaced by is gone afterwards
   (`not_infix_replace`), and replacing goes on cell by cell where neither text has a
   separator (`splitOnP_replace`). -/
namespace Arinc.Strings

variable {α : Type*} [DecidableEq α]

/-- Where `sub` begins first. -/
def indexOf (sub : List α) : List α → Option Nat
  | [] => if sub = [] then some 0 else none
  | c :: s => if sub <+: c :: s then some 0 else (indexOf sub s).map (· + 1)

/-- The same with -1 for not at all. -/
def find (s sub : List α) : Int := (indexOf sub s).elim (-1) fun n => n

/-- A place counted from the end where it is negative, and kept within the string. -/
def place (s : List α) (i : Int) : Nat :=
  if i < 0 then (s.length + i).toNat else min i.toNat s.length

/-- `s[i:j]`. -/
def slice (s : List α) (i j : Int) : List α :=
  (s.drop (place s i)).take (place s j - place s i)

omit [DecidableEq α] in
theorem infix_slice (s : List α) (i j : Int) : slice s i j <:+: s :=
  (List.take_prefix _ _).isInfix.trans (List.drop_suffix _ s).isInfix

/-- The pieces between the occurrences of `sep`, with `k` elements of the last one to be
    passed over. -/
def splitFrom (sep : List α) : Nat → List α → List (List α)
  | _, [] => [[]]
  | k + 1, _ :: s => splitFrom sep k s
  | 0, c :: s =>
    if sep <+: c :: s then [] :: splitFrom sep (sep.length - 1) s
    else (splitFrom sep 0 s).modifyHead (c :: ·)

/-- The pieces between the occurrences of `sep`. -/
def split (s sep : List α) : List (List α) := splitFrom sep 0 s

/-- Every occurrence of `old` replaced, from the left, with `k` elements of the last one
    to be passed over. -/
def replaceFrom (old new : List α) : Nat → List α → List α
  | _, [] => []
  | k + 1, _ :: s => replaceFrom old new k s
  | 0, c :: s =>
    if old <+: c :: s then new ++ replaceFrom old new (old.length - 1) s
    else c :: replaceFrom old new 0 s

/-- Every occurrence of `old` replaced, from the left. -/
def replace (s old new : List α) : List α := replaceFrom old new 0 s

/-- Without the spaces at the two ends. -/
def strip (space : α → Bool) (s : List α) : List α := (s.dropWhile space).rdropWhile space

/-! ## Stripping -/

omit [DecidableEq α] in
theorem mem_strip {space : α → Bool} {s : List α} {c : α} (hc : c ∈ s) (hspace : space c = false) :
    c ∈ strip space s := by
  have hbefore : c ∈ s.dropWhile space := by
    rw [← List.takeWhile_append_dropWhile (p := space) (l := s), List.mem_append] at hc
    refine hc.resolve_left fun htaken => ?_
    rw [List.mem_takeWhile_imp htaken] at hspace
    cases hspace
  rw [← List.rdropWhile_append_rtakeWhile (p := space) (l := s.dropWhile space), List.mem_append] at hbefore
  refine hbefore.resolve_right fun htaken => ?_
  rw [List.mem_rtakeWhile_imp htaken] at hspace
  cases hspace

omit [DecidableEq α] in
theorem infix_strip (space : α → Bool) (s : List α) : strip space s <:+: s :=
  (List.rdropWhile_prefix space (s.dropWhile space)).isInfix.trans (List.dropWhile_suffix space).isInfix

omit [DecidableEq α] in
theorem strip_eq_self {space : α → Bool} {s : List α} (h : ∀ c ∈ s, space c = false) :
    strip space s = s := by
  have hbefore : s.dropWhile space = s := List.dropWhile_eq_self_iff.mpr fun hpos => by
    simp [h _ (List.getElem_mem hpos)]
  rw [strip, hbefore]
  exact List.rdropWhile_eq_self_iff.mpr fun hne => by simp [h _ (List.getLast_mem hne)]

/-! ## Replacing -/

variable {old new : List α}

theorem replaceFrom_eq (old new : List α) (k : Nat) (s : List α) :
    replaceFrom old new k s = replace (s.drop k) old new := by
  induction s generalizing k with
  | nil => cases k <;> rfl
  | cons c s ih =>
    cases k with
    | zero => rfl
    | succ k => exact ih k

theorem replace_append (hold : old ≠ []) (s : List α) :
    replace (old ++ s) old new = new ++ replace s old new := by
  obtain ⟨c, rest, rfl⟩ := List.exists_cons_of_ne_nil hold
  have hprefix : c :: rest <+: c :: (rest ++ s) := List.prefix_append (c :: rest) s
  show (if c :: rest <+: c :: (rest ++ s) then
    new ++ replaceFrom (c :: rest) new rest.length (rest ++ s) else _) = _
  rw [if_pos hprefix, replaceFrom_eq, List.drop_left]

theorem replace_cons {c : α} {s : List α} (h : ¬ old <+: c :: s) :
    replace (c :: s) old new = c :: replace s old new := if_neg h

/-- What holds behind every occurrence and every other element holds of all strings. -/
theorem occurrence_induction {motive : List α → Prop} (hold : old ≠ []) (nil : motive [])
    (occurrence : ∀ s, motive s → motive (old ++ s))
    (cons : ∀ c s, ¬ old <+: c :: s → motive s → motive (c :: s)) (s : List α) : motive s := by
  induction hlength : s.length using Nat.strong_induction_on generalizing s with
  | _ n ih =>
    cases s with
    | nil => exact nil
    | cons c s =>
      by_cases hprefix : old <+: c :: s
      · obtain ⟨rest, hrest⟩ := hprefix
        have hpos := List.length_pos_of_ne_nil hold
        have hsum := congrArg List.length hrest
        rw [List.length_append] at hsum
        rw [← hrest]
        exact occurrence rest (ih rest.length (by omega) rest rfl)
      · rw [List.length_cons] at hlength
        exact cons c s hprefix (ih s.length (by omega) s rfl)

/-- A text without an element of `new` that begins the result begins the string. -/
theorem prefix_of_prefix_replace (hold : old ≠ []) (hnew : new ≠ []) {w : List α}
    (hw : ∀ c ∈ new, c ∉ w) (s : List α) (h : w <+: replace s old new) : w <+: s := by
  induction s using occurrence_induction hold generalizing w with
  | nil => exact h
  | occurrence s ih =>
    rw [replace_append hold] at h
    cases w with
    | nil => exact List.nil_prefix
    | cons d w =>
      obtain ⟨c, rest, rfl⟩ := List.exists_cons_of_ne_nil hnew
      obtain rfl : d = c := (List.cons_prefix_cons.mp h).1
      exact absurd List.mem_cons_self (hw d List.mem_cons_self)
  | cons c s hnot ih =>
    rw [replace_cons hnot] at h
    cases w with
    | nil => exact List.nil_prefix
    | cons d w =>
      obtain ⟨rfl, hrest⟩ := List.cons_prefix_cons.mp h
      exact List.cons_prefix_cons.mpr
        ⟨rfl, ih (fun x hx hmem => hw x hx (List.mem_cons_of_mem _ hmem)) hrest⟩

omit [DecidableEq α] in
/-- A text that shares nothing with what a string begins with lies behind it. -/
theorem infix_of_infix_append {w u s : List α} (hw : w ≠ []) (hshare : ∀ c ∈ u, c ∉ w)
    (h : w <:+: u ++ s) : w <:+: s := by
  induction u with
  | nil => exact h
  | cons c u ih =>
    have hshare := List.forall_mem_cons.mp hshare
    obtain hprefix | hwithin := List.infix_cons_iff.mp h
    · obtain ⟨d, rest, rfl⟩ := List.exists_cons_of_ne_nil hw
      obtain rfl : d = c := (List.cons_prefix_cons.mp hprefix).1
      exact absurd List.mem_cons_self hshare.1
    · exact ih hshare.2 hwithin

/-- What shares nothing with its replacement is gone. -/
theorem not_infix_replace (hold : old ≠ []) (hnew : new ≠ []) (hshare : ∀ c ∈ new, c ∉ old)
    (s : List α) : ¬ old <:+: replace s old new := by
  induction s using occurrence_induction hold with
  | nil => exact fun h => hold (List.infix_nil.mp h)
  | occurrence s ih =>
    rw [replace_append hold]
    exact fun h => ih (infix_of_infix_append hold hshare h)
  | cons c s hnot ih =>
    rw [replace_cons hnot]
    intro h
    obtain hprefix | hwithin := List.infix_cons_iff.mp h
    · obtain ⟨d, rest, rfl⟩ := List.exists_cons_of_ne_nil hold
      obtain ⟨rfl, hrest⟩ := List.cons_prefix_cons.mp hprefix
      refine hnot (List.cons_prefix_cons.mpr ⟨rfl, ?_⟩)
      exact prefix_of_prefix_replace hold hnew
        (fun x hx hmem => hshare x hx (List.mem_cons_of_mem _ hmem)) s hrest
    · exact ih hwithin

theorem replace_eq_self {c : α} (hold : old ≠ []) (hc : c ∈ new) (s : List α)
    (h : c ∉ replace s old new) : replace s old new = s ∧ ¬ old <:+: s := by
  induction s using occurrence_induction hold with
  | nil => exact ⟨rfl, fun h => hold (List.infix_nil.mp h)⟩
  | occurrence s ih =>
    rw [replace_append hold] at h
    exact absurd (List.mem_append_left _ hc) h
  | cons d s hnot ih =>
    rw [replace_cons hnot] at h ⊢
    obtain ⟨heq, hwithin⟩ := ih fun hmem => h (List.mem_cons_of_mem d hmem)
    refine ⟨congrArg (d :: ·) heq, fun h => ?_⟩
    exact (List.infix_cons_iff.mp h).elim hnot hwithin

/-! ## Cells -/

section cells
omit [DecidableEq α]

variable {p q : α → Bool}

theorem splitOnP_parts (p : α → Bool) (s : List α) :
    ∃ first rest, s.splitOnP p = first :: rest ∧ first <+: s ∧ ∀ cell ∈ rest, cell <:+: s := by
  induction s with
  | nil => exact ⟨[], [], rfl, List.nil_prefix, fun _ h => absurd h List.not_mem_nil⟩
  | cons c s ih =>
    obtain ⟨first, rest, hsplit, hfirst, hrest⟩ := ih
    have hlater : ∀ cell ∈ rest, cell <:+: c :: s := fun cell hcell =>
      (hrest cell hcell).trans (List.suffix_cons c s).isInfix
    rw [List.splitOnP_cons_eq_if_modifyHead, hsplit]
    split
    · refine ⟨[], first :: rest, rfl, List.nil_prefix, List.forall_mem_cons.mpr ⟨?_, hlater⟩⟩
      exact hfirst.isInfix.trans (List.suffix_cons c s).isInfix
    · exact ⟨c :: first, rest, rfl, List.cons_prefix_cons.mpr ⟨rfl, hfirst⟩, hlater⟩

theorem infix_of_mem_splitOnP {s cell : List α} (h : cell ∈ s.splitOnP p) : cell <:+: s := by
  obtain ⟨first, rest, hsplit, hfirst, hrest⟩ := splitOnP_parts p s
  rw [hsplit] at h
  obtain rfl | hcell := List.mem_cons.mp h
  · exact hfirst.isInfix
  · exact hrest cell hcell

theorem splitOnP_append {text : List α} (htext : ∀ c ∈ text, p c = false) (s : List α) :
    ∃ init last, s.splitOnP p = init ++ [last] ∧ (s ++ text).splitOnP p = init ++ [last ++ text] := by
  induction s with
  | nil => exact ⟨[], [], rfl, List.splitOnP_eq_singleton htext⟩
  | cons c s ih =>
    obtain ⟨init, last, hsplit, happend⟩ := ih
    rw [List.cons_append, List.splitOnP_cons_eq_if_modifyHead, List.splitOnP_cons_eq_if_modifyHead,
      hsplit, happend]
    split
    · exact ⟨[] :: init, last, rfl, rfl⟩
    · cases init with
      | nil => exact ⟨[], c :: last, rfl, rfl⟩
      | cons first init => exact ⟨(c :: first) :: init, last, rfl, rfl⟩

theorem splitOnP_prepend {text : List α} (htext : ∀ c ∈ text, p c = false) (s : List α) :
    (text ++ s).splitOnP p = (s.splitOnP p).modifyHead (text ++ ·) := by
  obtain ⟨first, rest, hsplit, -⟩ := splitOnP_parts p s
  induction text with
  | nil =>
    rw [List.nil_append, hsplit]
    rfl
  | cons c text ih =>
    have htext := List.forall_mem_cons.mp htext
    rw [List.cons_append, List.splitOnP_cons_eq_if_modifyHead, ih htext.2, hsplit, htext.1]
    rfl

theorem splitOnP_or (p q : α → Bool) (s : List α) :
    s.splitOnP (fun c => p c || q c) = (s.splitOnP p).flatMap (List.splitOnP q) := by
  induction s with
  | nil => rfl
  | cons c s ih =>
    obtain ⟨first, rest, hsplit, -⟩ := splitOnP_parts p s
    rw [List.splitOnP_cons_eq_if_modifyHead, List.splitOnP_cons_eq_if_modifyHead, ih, hsplit]
    cases hp : p c with
    | true => rfl
    | false =>
      have hcell : (c :: first).splitOnP q =
          if q c then [] :: first.splitOnP q else (first.splitOnP q).modifyHead (c :: ·) :=
        List.splitOnP_cons_eq_if_modifyHead c first
      obtain ⟨first', rest', hfirst, -⟩ := splitOnP_parts q first
      cases hq : q c with
      | true => simp [hcell, hq]
      | false => simp [hcell, hq, hfirst]

theorem mem_splitOnP_or {s cell : List α} (h : cell ∈ s.splitOnP p) (hcell : ∀ c ∈ cell, q c = false) :
    cell ∈ s.splitOnP fun c => p c || q c := by
  rw [splitOnP_or, List.mem_flatMap]
  refine ⟨cell, h, ?_⟩
  rw [List.splitOnP_eq_singleton hcell]
  exact List.mem_singleton_self cell

end cells

/-- Replacing goes on cell by cell when no separator is in either text. -/
theorem splitOnP_replace (hold : old ≠ []) {p : α → Bool} (holdp : ∀ c ∈ old, p c = false)
    (hnewp : ∀ c ∈ new, p c = false) (s : List α) :
    (replace s old new).splitOnP p = (s.splitOnP p).map (replace · old new) := by
  induction s using occurrence_induction hold with
  | nil => rfl
  | occurrence s ih =>
    obtain ⟨first, rest, hsplit, -⟩ := splitOnP_parts p s
    rw [replace_append hold, splitOnP_prepend hnewp, ih, splitOnP_prepend holdp, hsplit]
    simp only [List.map_cons, List.modifyHead_cons, replace_append hold]
  | cons c s hnot ih =>
    obtain ⟨first, rest, hsplit, hfirst, -⟩ := splitOnP_parts p s
    have hnot' : ¬ old <+: c :: first := fun h =>
      hnot (h.trans (List.cons_prefix_cons.mpr ⟨rfl, hfirst⟩))
    rw [replace_cons hnot, List.splitOnP_cons_eq_if_modifyHead,
      List.splitOnP_cons_eq_if_modifyHead, ih, hsplit]
    split
    · rfl
    · simp only [List.map_cons, List.modifyHead_cons, replace_cons hnot']

theorem drop_find (c : α) (s : List α) :
    s.drop (find s [c] + 1).toNat = s ∨
      ∃ before, s = before ++ c :: s.drop (find s [c] + 1).toNat := by
  have hindex : ∀ n, indexOf [c] s = some n → ∃ before, s = before ++ c :: s.drop (n + 1) := by
    induction s with
    | nil =>
      intro n h
      cases h
    | cons d s ih =>
      intro n h
      rw [indexOf] at h
      split at h
      · rename_i hprefix
        obtain rfl := (List.cons_prefix_cons.mp hprefix).1
        obtain rfl := Option.some.inj h
        exact ⟨[], rfl⟩
      · obtain ⟨m, hm, rfl⟩ := Option.map_eq_some_iff.mp h
        obtain ⟨before, hbefore⟩ := ih m hm
        exact ⟨d :: before, congrArg (d :: ·) hbefore⟩
  unfold find
  cases h : indexOf [c] s with
  | none => exact Or.inl rfl
  | some n => exact Or.inr (hindex n h)

theorem indexOf_append_cons {c : α} {before : List α} (hbefore : c ∉ before) (s : List α) :
    indexOf [c] (before ++ c :: s) = some before.length := by
  induction before with
  | nil => exact if_pos (List.cons_prefix_cons.mpr ⟨rfl, List.nil_prefix⟩)
  | cons d before ih =>
    obtain ⟨hne, hrest⟩ := not_or.mp (mt List.mem_cons.mpr hbefore)
    have hnot : ¬ [c] <+: d :: (before ++ c :: s) := fun h => hne (List.cons_prefix_cons.mp h).1
    rw [List.cons_append, indexOf, if_neg hnot, ih hrest]
    rfl

theorem drop_find_append {c : α} {before : List α} (hbefore : c ∉ before) (s : List α) :
    (before ++ c :: s).drop (find (before ++ c :: s) [c] + 1).toNat = s := by
  have hplace : (find (before ++ c :: s) [c] + 1).toNat = before.length + 1 := by
    rw [find, indexOf_append_cons hbefore]
    exact Int.toNat_natCast (before.length + 1)
  rw [hplace, ← List.drop_drop, List.drop_left, List.drop_one, List.tail_cons]

theorem splitOn_eq_takeWhile (c : α) (s : List α) :
    ∃ rest, s.splitOn c = s.takeWhile (· != c) :: rest := by
  induction s with
  | nil => exact ⟨[], rfl⟩
  | cons d s ih =>
    obtain ⟨rest, hrest⟩ := ih
    rw [List.splitOn_cons_eq_if_modifyHead, hrest]
    by_cases heq : d = c
    · exact ⟨s.takeWhile (· != c) :: rest, by simp [heq]⟩
    · exact ⟨rest, by simp [heq]⟩

end Arinc.Strings
