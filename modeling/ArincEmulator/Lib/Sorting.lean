import Mathlib.Order.Lattice

/- Sorting a range with a comparison function, as libraries promise it: when the
   comparison is a strict weak ordering of the elements, the result is a sorted
   permutation (`Sorts`); otherwise nothing is promised, not even that the elements
   stay. A sort that compares no element with itself needs the laws between
   different elements only (`SortsDistinct`); this is more than the libraries promise.

   What is proved: a comparison that agrees with `<` on keys, on every two
   different elements, meets the laws between them (`strictWeakBetween_of_key`). -/
namespace Arinc.Sorting

variable {α : Type*}

/-- Two different elements do not both come before the other. -/
def AsymmAt (comp : α → α → Bool) (a b : α) : Prop :=
  a ≠ b → comp a b = true → comp b a = false

/-- For three different elements, coming before is transitive and so is not coming
    before. -/
def TransAt (comp : α → α → Bool) (a b c : α) : Prop :=
  a ≠ b → b ≠ c → a ≠ c →
    (comp a b = true → comp b c = true → comp a c = true) ∧
      (comp a b = false → comp b c = false → comp a c = false)

/-- The comparison meets the laws of a strict weak ordering between the different
    elements of `l`. -/
def StrictWeakBetween (comp : α → α → Bool) (l : List α) : Prop :=
  (∀ a ∈ l, ∀ b ∈ l, AsymmAt comp a b) ∧ ∀ a ∈ l, ∀ b ∈ l, ∀ c ∈ l, TransAt comp a b c

/-- The comparison is a strict weak ordering on `l`: it is irreflexive as well. -/
def StrictWeakOn (comp : α → α → Bool) (l : List α) : Prop :=
  (∀ a ∈ l, comp a a = false) ∧ StrictWeakBetween comp l

/-- The elements of `l`, and in order. -/
def Sorted (comp : α → α → Bool) (l result : List α) : Prop :=
  result.Perm l ∧ result.Pairwise fun a b => comp b a = false

/-- What a sort of `l` may leave in its place. -/
def Sorts (comp : α → α → Bool) (l result : List α) : Prop :=
  StrictWeakOn comp l → Sorted comp l result

/-- What a sort that compares no element with itself may leave in the place of `l`. -/
def SortsDistinct (comp : α → α → Bool) (l result : List α) : Prop :=
  StrictWeakBetween comp l → Sorted comp l result

section
variable [DecidableEq α]

instance (comp : α → α → Bool) (a b : α) : Decidable (AsymmAt comp a b) :=
  inferInstanceAs (Decidable (_ → _ → _))

instance (comp : α → α → Bool) (a b c : α) : Decidable (TransAt comp a b c) :=
  inferInstanceAs (Decidable (_ → _ → _ → (_ → _ → _) ∧ (_ → _ → _)))

instance (comp : α → α → Bool) (l : List α) : Decidable (StrictWeakBetween comp l) :=
  inferInstanceAs (Decidable (_ ∧ _))

instance (comp : α → α → Bool) (l : List α) : Decidable (StrictWeakOn comp l) :=
  inferInstanceAs (Decidable (_ ∧ _))

instance (comp : α → α → Bool) (l result : List α) : Decidable (Sorted comp l result) :=
  inferInstanceAs (Decidable (_ ∧ _))

instance (comp : α → α → Bool) (l result : List α) : Decidable (Sorts comp l result) :=
  inferInstanceAs (Decidable (_ → _))

instance (comp : α → α → Bool) (l result : List α) : Decidable (SortsDistinct comp l result) :=
  inferInstanceAs (Decidable (_ → _))

end

theorem strictWeakBetween_of_key {β : Type*} [LinearOrder β] {comp : α → α → Bool} {l : List α}
    (key : α → β) (h : ∀ a ∈ l, ∀ b ∈ l, a ≠ b → (comp a b = true ↔ key a < key b)) :
    StrictWeakBetween comp l := by
  have hfalse : ∀ a ∈ l, ∀ b ∈ l, a ≠ b → (comp a b = false ↔ key b ≤ key a) := by
    intro a ha b hb hab
    rw [← Bool.not_eq_true, h a ha b hb hab, not_lt]
  constructor
  · intro a ha b hb hab hlt
    rw [hfalse b hb a ha hab.symm]
    exact ((h a ha b hb hab).mp hlt).le
  · intro a ha b hb c hc hab hbc hac
    rw [h a ha b hb hab, h b hb c hc hbc, h a ha c hc hac, hfalse a ha b hb hab,
      hfalse b hb c hc hbc, hfalse a ha c hc hac]
    exact ⟨fun h1 h2 => h1.trans h2, fun h1 h2 => h2.trans h1⟩

/-- On elements none of which comes before another the comparison is one. -/
theorem strictWeakOn_of_false {comp : α → α → Bool} {l : List α}
    (h : ∀ a ∈ l, ∀ b ∈ l, comp a b = false) : StrictWeakOn comp l :=
  ⟨fun a ha => h a ha a ha, fun a ha b hb _ _ => h b hb a ha,
    fun a ha b hb c hc _ _ _ => ⟨fun hab => absurd (hab.symm.trans (h a ha b hb)) (by decide),
      fun _ _ => h a ha c hc⟩⟩

end Arinc.Sorting
