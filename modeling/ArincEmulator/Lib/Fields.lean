import Mathlib.Data.List.TakeWhile

/- The fields of a list: the maximal non-empty runs between its delimiters. A loop
   finds them when it takes a run, skips what is behind it and goes on
   (`fields_of_ne_nil`, `fields_skip`). They are what lies at the places of the
   maximal runs, each once and in their order (`fields_spans`). -/
namespace Arinc.Fields

variable {α : Type*} (delim : α → Bool)

/-- The fields. -/
def fields (s : List α) : List (List α) := (s.splitOnP delim).filter fun t => !t.isEmpty

theorem fields_nil : fields delim ([] : List α) = [] := by simp [fields]

variable {delim}

theorem fields_cons_delim {c : α} (hc : delim c = true) (s : List α) :
    fields delim (c :: s) = fields delim s := by
  unfold fields
  rw [List.splitOnP_cons_eq_if_modifyHead, if_pos hc]
  rfl

/-- Leading delimiters make no difference. -/
theorem fields_skip (s : List α) : fields delim (s.dropWhile delim) = fields delim s := by
  induction s with
  | nil => rfl
  | cons c s ih =>
    by_cases hc : delim c = true
    · rw [List.dropWhile_cons_of_pos hc, ih, fields_cons_delim hc]
    · rw [List.dropWhile_cons_of_neg hc]

theorem fields_of_ne_nil {c : α} (hc : delim c = false) (s : List α) :
    fields delim (c :: s) =
      (c :: s).takeWhile (!delim ·) :: fields delim ((c :: s).dropWhile (!delim ·)) := by
  have hsplit := List.takeWhile_append_dropWhile (p := (!delim ·)) (l := c :: s)
  have hrun : ∀ x ∈ (c :: s).takeWhile (!delim ·), delim x = false := by
    intro x hx
    simpa using List.mem_takeWhile_imp hx
  have hfield : (c :: s).takeWhile (!delim ·) ≠ [] := by simp [hc]
  generalize (c :: s).takeWhile (!delim ·) = run at hsplit hrun hfield
  have hrest : ∀ d, ((c :: s).dropWhile (!delim ·)).head? = some d → delim d = true := by
    intro d hd
    have hnot := List.head?_dropWhile_not (!delim ·) (c :: s)
    rw [hd] at hnot
    simpa using hnot
  generalize (c :: s).dropWhile (!delim ·) = rest at hsplit hrest
  rw [← hsplit]
  unfold fields
  cases rest with
  | nil =>
    rw [List.append_nil, List.splitOnP_eq_singleton hrun]
    simp [hfield]
  | cons d rest =>
    have hd : delim d = true := hrest d rfl
    rw [List.splitOnP_append_cons_of_forall_mem hrun d hd, List.splitOnP_cons_eq_if_modifyHead, if_pos hd]
    simp [hfield]

/-- Behind a field and the delimiters that follow it there is less. -/
theorem length_behind_lt {s : List α} (hs : s ≠ []) :
    ((s.dropWhile (!delim ·)).dropWhile delim).length < s.length := by
  cases s with
  | nil => exact absurd rfl hs
  | cons c s =>
    have hlength {p : α → Bool} {t : List α} : (t.dropWhile p).length ≤ t.length :=
      (List.dropWhile_sublist p).length_le
    by_cases hc : delim c = true
    · rw [List.dropWhile_cons_of_neg (by simp [hc]), List.dropWhile_cons_of_pos hc]
      exact Nat.lt_succ_of_le hlength
    · rw [List.dropWhile_cons_of_pos (by simp [hc])]
      exact Nat.lt_succ_of_le (Nat.le_trans hlength hlength)

theorem take_sub_length_dropWhile (p : α → Bool) (s : List α) :
    s.take (s.length - (s.dropWhile p).length) = s.takeWhile p := by
  have hsplit := List.takeWhile_append_dropWhile (p := p) (l := s)
  have hlength := congrArg List.length hsplit
  rw [List.length_append] at hlength
  calc s.take (s.length - (s.dropWhile p).length)
      = (s.takeWhile p ++ s.dropWhile p).take (s.length - (s.dropWhile p).length) := by rw [hsplit]
    _ = s.takeWhile p := List.take_left' (by omega)

/-! ## Where the fields lie -/

/-- There is an element at `k`, and it is no delimiter. -/
def inside (delim : α → Bool) (s : List α) (k : Nat) : Bool := s[k]?.any (!delim ·)

/-- From `i` up to `j` there is a run without delimiters. -/
structure IsRun (delim : α → Bool) (s : List α) (i j : Nat) : Prop where
  nonempty : i < j
  free : ∀ k, i ≤ k → k < j → inside delim s k = true

/-- A run that no other contains. -/
def IsMaximalRun (delim : α → Bool) (s : List α) (i j : Nat) : Prop :=
  IsRun delim s i j ∧ ∀ i' j', IsRun delim s i' j' → i' ≤ i → j ≤ j' → i' = i ∧ j' = j

/-- What lies from `i` up to `j`. -/
def slice (s : List α) (i j : Nat) : List α := (s.drop i).take (j - i)

variable {s : List α} {i j p : Nat}

theorem inside_lt {k : Nat} (h : inside delim s k = true) : k < s.length := by
  by_contra hk
  rw [inside, List.getElem?_eq_none (by omega)] at h
  cases h

theorem inside_eq {k : Nat} (hk : k < s.length) : inside delim s k = !delim s[k] := by
  rw [inside, List.getElem?_eq_getElem hk]
  rfl

/-- A maximal run is one that neither end can be moved of. -/
theorem isMaximalRun_iff :
    IsMaximalRun delim s i j ↔ IsRun delim s i j ∧
      (∀ k, k + 1 = i → inside delim s k = false) ∧ inside delim s j = false := by
  constructor
  · rintro ⟨hrun, hmaximal⟩
    refine ⟨hrun, fun k hk => Bool.eq_false_iff.mpr fun hinside => ?_,
      Bool.eq_false_iff.mpr fun hinside => ?_⟩
    -- A character before the run that is no delimiter would make it longer; so would one behind.
    · have hlonger : IsRun delim s k j := by
        refine ⟨by have := hrun.nonempty; omega, fun k' hle hlt => ?_⟩
        obtain rfl | hlt' := Nat.eq_or_lt_of_le hle
        · exact hinside
        · exact hrun.free k' (by omega) hlt
      have := hmaximal k j hlonger (by omega) (Nat.le_refl j)
      omega
    · have hlonger : IsRun delim s i (j + 1) := by
        refine ⟨by have := hrun.nonempty; omega, fun k hle hlt => ?_⟩
        obtain rfl | hlt' := Nat.eq_or_lt_of_le (Nat.le_of_lt_succ hlt)
        · exact hinside
        · exact hrun.free k hle hlt'
      have := hmaximal i (j + 1) hlonger (Nat.le_refl i) (Nat.le_succ j)
      omega
  · rintro ⟨hrun, hbefore, hbehind⟩
    refine ⟨hrun, fun i' j' hlonger hi hj => ?_⟩
    have hnonempty := hrun.nonempty
    constructor
    · by_contra hne
      have hinside := hlonger.free (i - 1) (by omega) (by omega)
      rw [hbefore (i - 1) (by omega)] at hinside
      cases hinside
    · by_contra hne
      have hinside := hlonger.free j (by omega) (by omega)
      rw [hbehind] at hinside
      cases hinside

/-- No run lies across `p`. -/
def NotCut (delim : α → Bool) (s : List α) (p : Nat) : Prop :=
  ∀ k, k + 1 = p → inside delim s k = true → inside delim s p = false

/-- The next delimiter behind a place, or the end. -/
def nextDelim (delim : α → Bool) (s : List α) (p : Nat) : Nat := p + (s.drop p).findIdx delim

theorem inside_before_nextDelim {k : Nat} (hle : p ≤ k) (hk : k < nextDelim delim s p) :
    inside delim s k = true := by
  have hnot := List.not_of_lt_findIdx (show k - p < (s.drop p).findIdx delim by
    unfold nextDelim at hk
    omega)
  have hbound : (s.drop p).findIdx delim ≤ (s.drop p).length := List.findIdx_le_length
  rw [List.length_drop] at hbound
  unfold nextDelim at hk
  rw [inside_eq (by omega)]
  simpa [Nat.add_sub_cancel' hle] using hnot

theorem inside_nextDelim : inside delim s (nextDelim delim s p) = false := by
  refine Bool.eq_false_iff.mpr fun hinside => ?_
  have hlt : (s.drop p).findIdx delim < (s.drop p).length := by
    have hlt := inside_lt hinside
    unfold nextDelim at hlt
    rw [List.length_drop]
    omega
  have hdelim : delim ((s.drop p)[(s.drop p).findIdx delim]) = true := List.findIdx_getElem
  rw [inside_eq (inside_lt hinside)] at hinside
  rw [List.getElem_drop] at hdelim
  simp [nextDelim, hdelim] at hinside

/-- At a place that cuts no run, a run begins or there is a delimiter. -/
theorem isMaximalRun_nextDelim (hcut : NotCut delim s p) (hp : inside delim s p = true) :
    IsMaximalRun delim s p (nextDelim delim s p) := by
  refine isMaximalRun_iff.mpr ⟨⟨?_, fun k => inside_before_nextDelim⟩, ?_, inside_nextDelim⟩
  · by_contra hle
    have heq : nextDelim delim s p = p := Nat.le_antisymm (by omega) (Nat.le_add_right p _)
    have hnot : inside delim s (nextDelim delim s p) = false := inside_nextDelim
    rw [heq, hp] at hnot
    cases hnot
  · intro k hk
    refine Bool.eq_false_iff.mpr fun hinside => ?_
    rw [hcut k hk hinside] at hp
    cases hp

theorem isMaximalRun_from (hcut : NotCut delim s p) (hp : inside delim s p = true) :
    p ≤ i ∧ IsMaximalRun delim s i j ↔
      (i = p ∧ j = nextDelim delim s p) ∨ nextDelim delim s p ≤ i ∧ IsMaximalRun delim s i j := by
  have hfirst := isMaximalRun_nextDelim hcut hp
  constructor
  · rintro ⟨hle, hrun⟩
    by_cases hbehind : nextDelim delim s p ≤ i
    · exact Or.inr ⟨hbehind, hrun⟩
    refine Or.inl ?_
    have hbounds := isMaximalRun_iff.mp hrun
    have hi : i = p := by
      by_contra hne
      have hinside := inside_before_nextDelim (show p ≤ i - 1 by omega)
        (show i - 1 < nextDelim delim s p by omega)
      rw [hbounds.2.1 (i - 1) (by omega)] at hinside
      cases hinside
    subst hi
    refine ⟨rfl, ?_⟩
    by_cases hj : j ≤ nextDelim delim s i
    · exact (hrun.2 i (nextDelim delim s i) hfirst.1 (Nat.le_refl i) hj).2.symm
    · exact (hfirst.2 i j hrun.1 (Nat.le_refl i) (by omega)).2
  · rintro (⟨rfl, rfl⟩ | ⟨hle, hrun⟩)
    · exact ⟨Nat.le_refl i, hfirst⟩
    · exact ⟨Nat.le_trans (Nat.le_add_right p _) hle, hrun⟩

theorem fields_drop (hcut : NotCut delim s p) :
    ∃ spans : List (Nat × Nat), spans.Pairwise (fun a b => a.2 ≤ b.1) ∧
      (∀ i j, (i, j) ∈ spans ↔ p ≤ i ∧ IsMaximalRun delim s i j) ∧
      fields delim (s.drop p) = spans.map fun a => slice s a.1 a.2 := by
  -- The induction is on what is left of the string; the position is between two fields or at the
  -- start of one, so no run is cut.
  induction hlength : s.length - p using Nat.strong_induction_on generalizing p with
  | _ n ih =>
    by_cases hend : s.length ≤ p
    · refine ⟨[], List.Pairwise.nil, fun i j => ?_, ?_⟩
      · refine iff_of_false List.not_mem_nil ?_
        rintro ⟨hle, hrun⟩
        have hlt := inside_lt (hrun.1.free i (Nat.le_refl i) hrun.1.nonempty)
        omega
      · rw [List.drop_eq_nil_of_le hend, fields_nil]
        rfl
    have hcons : s.drop p = s[p] :: s.drop (p + 1) := List.drop_eq_getElem_cons (by omega)
    cases hp : inside delim s p with
    | false =>
      have hdelim : delim s[p] = true := by simpa [inside_eq (show p < s.length by omega)] using hp
      have hcut' : NotCut delim s (p + 1) := by
        intro k hk hinside
        obtain rfl : k = p := by omega
        rw [hp] at hinside
        cases hinside
      obtain ⟨spans, hordered, hmem, hfields⟩ := ih _ (by omega) hcut' rfl
      refine ⟨spans, hordered, fun i j => (hmem i j).trans ?_, ?_⟩
      · refine and_congr_left fun hrun => ⟨Nat.le_of_succ_le, fun hle => ?_⟩
        refine Nat.lt_of_le_of_ne hle ?_
        rintro rfl
        have hinside := hrun.1.free p (Nat.le_refl p) hrun.1.nonempty
        rw [hp] at hinside
        cases hinside
      · rw [hcons, fields_cons_delim hdelim, hfields]
    | true =>
      have hdelim : delim s[p] = false := by simpa [inside_eq (show p < s.length by omega)] using hp
      have hlt := (isMaximalRun_nextDelim hcut hp).1.nonempty
      have hcut' : NotCut delim s (nextDelim delim s p) := fun _ _ _ => inside_nextDelim
      obtain ⟨spans, hordered, hmem, hfields⟩ := ih _ (by omega) hcut' rfl
      refine ⟨(p, nextDelim delim s p) :: spans, List.Pairwise.cons ?_ hordered, fun i j => ?_, ?_⟩
      · intro span hspan
        exact ((hmem span.1 span.2).mp hspan).1
      · rw [List.mem_cons, Prod.mk.injEq, hmem]
        exact (isMaximalRun_from hcut hp).symm
      · have hrun : (s.drop p).takeWhile (!delim ·) = slice s p (nextDelim delim s p) := by
          rw [List.takeWhile_eq_take_findIdx_not, slice, nextDelim, Nat.add_sub_cancel_left]
          simp only [Bool.not_not]
        have hrest : (s.drop p).dropWhile (!delim ·) = s.drop (nextDelim delim s p) := by
          rw [List.dropWhile_eq_drop_findIdx_not, nextDelim, ← List.drop_drop]
          simp only [Bool.not_not]
        rw [hcons, fields_of_ne_nil hdelim, ← hcons, hrun, hrest, hfields, List.map_cons]

/-- The fields are what lies at the places of the maximal runs, in their order. -/
theorem fields_spans (delim : α → Bool) (s : List α) :
    ∃ spans : List (Nat × Nat), spans.Pairwise (fun a b => a.2 ≤ b.1) ∧
      (∀ i j, (i, j) ∈ spans ↔ IsMaximalRun delim s i j) ∧
      fields delim s = spans.map fun a => slice s a.1 a.2 := by
  have hcut : NotCut delim s 0 := fun k hk => absurd hk (by omega)
  obtain ⟨spans, hordered, hmem, hfields⟩ := fields_drop hcut
  exact ⟨spans, hordered, fun i j => (hmem i j).trans (and_iff_right (Nat.zero_le i)), hfields⟩

end Arinc.Fields
