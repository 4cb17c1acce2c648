import Mathlib.Data.List.Basic

/- Places that admit what suits them, while they have room, and turn the rest away.
   What is offered in order ends up behind what was there, as far as it suits and as
   far as there is room (`offerAll_held`); nothing is turned away just when all of it
   suits and there is room for all (`offerAll_complete_iff`). A loop that keeps only
   its last answer reports on the last offer alone (`lastAdmitted_iff`). -/
namespace Arinc

/-- A place that holds at most `limit` things, all of them admissible. -/
structure Place (α : Type*) where
  limit : Nat
  admissible : α → Bool
  held : List α

namespace Place

variable {α : Type*}

/-- The place takes `a`. -/
def Admits (p : Place α) (a : α) : Prop := p.admissible a = true ∧ p.held.length < p.limit

instance (p : Place α) (a : α) : Decidable (p.Admits a) := inferInstanceAs (Decidable (_ ∧ _))

/-- The place after `a` has been offered. -/
def offer (p : Place α) (a : α) : Place α :=
  if p.Admits a then { p with held := p.held ++ [a] } else p

/-- The same for a sequence of offers. -/
def offerAll (p : Place α) (as : List α) : Place α := as.foldl offer p

/-- The answer to the last of a sequence of offers; `before` where there is none. -/
def LastAdmitted (before : Prop) : Place α → List α → Prop
  | _, [] => before
  | p, a :: as => LastAdmitted (p.Admits a) (p.offer a) as

theorem offer_of_admits {p : Place α} {a : α} (h : p.Admits a) :
    p.offer a = { p with held := p.held ++ [a] } := if_pos h

theorem offer_of_not_admits {p : Place α} {a : α} (h : ¬ p.Admits a) : p.offer a = p := if_neg h

@[simp] theorem offer_limit (p : Place α) (a : α) : (p.offer a).limit = p.limit := by
  unfold offer
  split
  · rfl
  · rfl

@[simp] theorem offer_admissible (p : Place α) (a : α) :
    (p.offer a).admissible = p.admissible := by
  unfold offer
  split
  · rfl
  · rfl

@[simp] theorem offerAll_nil (p : Place α) : p.offerAll [] = p := rfl

@[simp] theorem offerAll_cons (p : Place α) (a : α) (as : List α) :
    p.offerAll (a :: as) = (p.offer a).offerAll as := rfl

@[simp] theorem offerAll_limit (p : Place α) (as : List α) : (p.offerAll as).limit = p.limit := by
  induction as generalizing p with
  | nil => rfl
  | cons a as ih => rw [offerAll_cons, ih, offer_limit]

@[simp] theorem offerAll_admissible (p : Place α) (as : List α) :
    (p.offerAll as).admissible = p.admissible := by
  induction as generalizing p with
  | nil => rfl
  | cons a as ih => rw [offerAll_cons, ih, offer_admissible]

/-- What was there, and behind it what suits, as far as there is room. -/
theorem offerAll_held (p : Place α) (as : List α) :
    (p.offerAll as).held =
      p.held ++ (as.filter p.admissible).take (p.limit - p.held.length) := by
  induction as generalizing p with
  | nil => simp
  | cons a as ih =>
    rw [offerAll_cons, ih, offer_limit, offer_admissible, List.filter_cons]
    by_cases hadmits : p.Admits a
    · obtain ⟨hsuits, hroom⟩ := hadmits
      have hleft : p.limit - p.held.length = p.limit - (p.held.length + 1) + 1 := by omega
      rw [offer_of_admits ⟨hsuits, hroom⟩, if_pos hsuits, hleft,
        List.take_succ_cons, List.length_append, List.length_singleton, List.append_assoc]
      rfl
    · rw [offer_of_not_admits hadmits]
      by_cases hsuits : p.admissible a = true
      · have hfull : p.limit - p.held.length = 0 :=
          Nat.sub_eq_zero_of_le (Nat.not_lt.mp fun hroom => hadmits ⟨hsuits, hroom⟩)
        rw [hfull, List.take_zero, List.take_zero]
      · rw [if_neg hsuits]

/-- Nothing is turned away just when all of it suits and there is room for all. -/
theorem offerAll_complete_iff {p : Place α} {as : List α} :
    (p.offerAll as).held = p.held ++ as ↔
      as = [] ∨ (∀ a ∈ as, p.admissible a = true) ∧ p.held.length + as.length ≤ p.limit := by
  rw [offerAll_held, List.append_cancel_left_eq]
  constructor
  · intro hall
    by_cases has : as = []
    · exact Or.inl has
    · have hlength := congrArg List.length hall
      rw [List.length_take] at hlength
      have hfilter := List.length_filter_le p.admissible as
      have hpositive := List.length_pos_iff.mpr has
      refine Or.inr ⟨fun a ha => ?_, by omega⟩
      have hkept : a ∈ (as.filter p.admissible).take (p.limit - p.held.length) := by
        rwa [hall]
      exact (List.mem_filter.mp (List.mem_of_mem_take hkept)).2
  · rintro (rfl | ⟨hsuits, hroom⟩)
    · simp
    · have hself : as.filter p.admissible = as := List.filter_eq_self.mpr hsuits
      rw [hself]
      exact List.take_of_length_le (by omega)

/-- The place takes `a` behind a sequence of offers: it suits, and what suits of them
    leaves room for it. -/
theorem offerAll_admits_iff {p : Place α} {as : List α} {a : α} :
    (p.offerAll as).Admits a ↔
      p.admissible a = true ∧ p.held.length + (as.filter p.admissible).length < p.limit := by
  unfold Admits
  rw [offerAll_admissible, offerAll_limit, offerAll_held, List.length_append, List.length_take]
  refine and_congr_right fun _ => ?_
  omega

theorem lastAdmitted_concat {before : Prop} {p : Place α} {as : List α} {a : α} :
    LastAdmitted before p (as ++ [a]) ↔ (p.offerAll as).Admits a := by
  induction as generalizing before p with
  | nil => rfl
  | cons b as ih => exact ih

theorem lastAdmitted_iff {before : Prop} {p : Place α} {as : List α} (has : as ≠ []) :
    LastAdmitted before p as ↔
      ∀ a ∈ as.getLast?,
        p.admissible a = true ∧ p.held.length + (as.filter p.admissible).length ≤ p.limit := by
  obtain ⟨bs, b, rfl⟩ := (List.eq_nil_or_concat' as).resolve_left has
  rw [lastAdmitted_concat, offerAll_admits_iff, List.getLast?_concat]
  simp only [Option.mem_def, Option.some.injEq, forall_eq']
  refine and_congr_right fun hsuits => ?_
  rw [List.filter_append, List.filter_cons, if_pos hsuits, List.filter_nil,
    List.length_append, List.length_singleton]
  omega

end Place

end Arinc
