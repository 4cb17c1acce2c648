import ArincEmulator.ProcessTable
import ArincEmulator.ObjectIds

/- The comparison of the scheduling vector, law by law. It compares critical times with
   `compareTime`, which is `≤`: a process that is not dormant comes before itself, and
   of two with one critical time each comes before the other.

   What is proved: the comparison is transitive and so is incomparability, for all
   descriptors; it is a strict weak order on a vector just when all in it are dormant,
   and between different descriptors just when there are no ties
   (`scheduling_order_iff`). -/
namespace Arinc.SchedulingOrder
open ProcessTable Sorting Registry

/-! ## The comparison -/

/-- `PROCESS_DESCRIPTOR_COMP`. -/
def processDescriptorComp (first second : Descriptor) : Bool :=
  if first.process.state = .dormant ∧ second.process.state = .dormant then false
  else if second.process.state = .dormant then true
  else if first.process.state = .dormant then false
  else compareTime first.absoluteCriticalTime second.absoluteCriticalTime

/-- What the comparison reads. -/
def schedulingInfo (d : Descriptor) : SchedulingInfo :=
  ⟨decide (d.process.state = .dormant), d.absoluteCriticalTime⟩

theorem comp_schedulingInfo (d : Nat → Descriptor) (i j : Nat) :
    Registry.processDescriptorComp (fun i => schedulingInfo (d i)) i j =
      processDescriptorComp (d i) (d j) := by
  by_cases hi : (d i).process.state = .dormant
  · by_cases hj : (d j).process.state = .dormant
    · simp [Registry.processDescriptorComp, processDescriptorComp, schedulingInfo, hi, hj]
    · simp [Registry.processDescriptorComp, processDescriptorComp, schedulingInfo, hi, hj]
  · by_cases hj : (d j).process.state = .dormant
    · simp [Registry.processDescriptorComp, processDescriptorComp, schedulingInfo, hi, hj]
    · simp [Registry.processDescriptorComp, processDescriptorComp, schedulingInfo, hi, hj]

/-- A descriptor that comes before another is not dormant, and the other is or is due no
    earlier. -/
theorem comp_iff (first second : Descriptor) :
    processDescriptorComp first second = true ↔ first.process.state ≠ .dormant ∧
      (second.process.state = .dormant ∨
        lexTime first.absoluteCriticalTime ≤ lexTime second.absoluteCriticalTime) := by
  unfold processDescriptorComp
  by_cases hfirst : first.process.state = .dormant
  · by_cases hsecond : second.process.state = .dormant
    · simp [hfirst, hsecond]
    · simp [hfirst, hsecond]
  · by_cases hsecond : second.process.state = .dormant
    · simp [hfirst, hsecond]
    · simp [hfirst, hsecond, compareTime_iff_lexTime]

theorem comp_self_iff (d : Descriptor) :
    processDescriptorComp d d = true ↔ d.process.state ≠ .dormant := by
  rw [comp_iff]
  exact and_iff_left (Or.inr le_rfl)

theorem comp_trans {a b c : Descriptor} (hab : processDescriptorComp a b = true)
    (hbc : processDescriptorComp b c = true) : processDescriptorComp a c = true := by
  rw [comp_iff] at hab hbc ⊢
  obtain ⟨ha, hab⟩ := hab
  obtain ⟨hb, hc | hbc⟩ := hbc
  · exact ⟨ha, Or.inl hc⟩
  · exact ⟨ha, Or.inr ((hab.resolve_left hb).trans hbc)⟩

/-- Neither of the two comes before the other. -/
def Incomparable (a b : Descriptor) : Prop :=
  processDescriptorComp a b = false ∧ processDescriptorComp b a = false

/-- Of two that are not dormant one is due no later than the other. -/
theorem incomparable_iff (a b : Descriptor) :
    Incomparable a b ↔ a.process.state = .dormant ∧ b.process.state = .dormant := by
  unfold Incomparable
  rw [← Bool.not_eq_true, ← Bool.not_eq_true, comp_iff, comp_iff]
  constructor
  · rintro ⟨hab, hba⟩
    have hdormant : a.process.state = .dormant ∨ b.process.state = .dormant := by
      by_contra hlive
      obtain ⟨ha, hb⟩ := not_or.mp hlive
      rcases le_total (lexTime a.absoluteCriticalTime) (lexTime b.absoluteCriticalTime) with h | h
      · exact hab ⟨ha, Or.inr h⟩
      · exact hba ⟨hb, Or.inr h⟩
    rcases hdormant with ha | hb
    · exact ⟨ha, by_contra fun hb => hba ⟨hb, Or.inl ha⟩⟩
    · exact ⟨by_contra fun ha => hab ⟨ha, Or.inl hb⟩, hb⟩
  · rintro ⟨ha, hb⟩
    exact ⟨fun h => h.1 ha, fun h => h.1 hb⟩

theorem incomparable_trans {a b c : Descriptor} (hab : Incomparable a b) (hbc : Incomparable b c) :
    Incomparable a c := by
  rw [incomparable_iff] at hab hbc ⊢
  exact ⟨hab.1, hbc.2⟩

/-! ## The vector -/

/-- The dormant come last and the others by their critical time. -/
def Before (d : Nat → Descriptor) (i j : Nat) : Prop :=
  (d j).process.state = .dormant ∨
    ((d i).process.state ≠ .dormant ∧
      lexTime (d i).absoluteCriticalTime ≤ lexTime (d j).absoluteCriticalTime)

/-- Whatever a sort that compares none with itself leaves of the vector is the vector in
    that order. -/
def SortsWell (d : Nat → Descriptor) (l : List Nat) : Prop :=
  ∀ result, SortsDistinct (fun i j => processDescriptorComp (d i) (d j)) l result →
    result.Perm l ∧ result.Pairwise (Before d)

/-- The laws of a strict weak order on the vector, and what a sort makes of it then. -/
structure StrictWeakOrder (d : Nat → Descriptor) (l : List Nat) : Prop where
  irreflexive : ∀ i ∈ l, processDescriptorComp (d i) (d i) = false
  asymmetric : ∀ i ∈ l, ∀ j ∈ l, processDescriptorComp (d i) (d j) = true →
    processDescriptorComp (d j) (d i) = false
  transitive : ∀ i ∈ l, ∀ j ∈ l, ∀ k ∈ l, processDescriptorComp (d i) (d j) = true →
    processDescriptorComp (d j) (d k) = true → processDescriptorComp (d i) (d k) = true
  incomparable : ∀ i ∈ l, ∀ j ∈ l, ∀ k ∈ l, Incomparable (d i) (d j) → Incomparable (d j) (d k) →
    Incomparable (d i) (d k)
  sorted : SortsWell d l

/-- No two different descriptors that are not dormant share a critical time. -/
def TieFree (d : Nat → Descriptor) (l : List Nat) : Prop :=
  NoTies (fun i => schedulingInfo (d i)) l

theorem strictWeakBetween_comp_iff (d : Nat → Descriptor) (l : List Nat) :
    StrictWeakBetween (fun i j => processDescriptorComp (d i) (d j)) l ↔ TieFree d l := by
  rw [TieFree, ← strictWeakBetween_iff]
  simp only [← comp_schedulingInfo]

theorem sortsWell_of_tieFree {d : Nat → Descriptor} {l : List Nat} (h : TieFree d l) :
    SortsWell d l := by
  intro result hsorts
  obtain ⟨hperm, hsorted⟩ := hsorts ((strictWeakBetween_comp_iff d l).mpr h)
  refine ⟨hperm, hsorted.imp fun {i j} hji => ?_⟩
  rw [← Bool.not_eq_true, comp_iff] at hji
  by_cases hj : (d j).process.state = .dormant
  · exact Or.inl hj
  · have hback := fun hi => hji ⟨hj, hi⟩
    exact Or.inr ⟨fun hi => hback (Or.inl hi),
      (le_total _ _).resolve_right fun hle => hback (Or.inr hle)⟩

/-- On any vector of descriptors the comparison is a strict weak order, and a sort leaves
    the dormant last and the others by critical time, if and only if all descriptors are
    dormant. A sort that compares no descriptor with itself needs less, and exactly this:
    that no two that are not dormant have the same critical time. -/
theorem scheduling_order_iff (d : Nat → Descriptor) (l : List Nat) :
    (StrictWeakOrder d l ↔ ∀ i ∈ l, (d i).process.state = .dormant) ∧
      (StrictWeakBetween (fun i j => processDescriptorComp (d i) (d j)) l ∧ SortsWell d l ↔
        TieFree d l) := by
  constructor
  · constructor
    · intro h i hi
      by_contra hlive
      have hself := h.irreflexive i hi
      rw [(comp_self_iff (d i)).mpr hlive] at hself
      cases hself
    · intro hdormant
      have hfalse : ∀ i ∈ l, ∀ j, processDescriptorComp (d i) (d j) = false := by
        intro i hi j
        rw [← Bool.not_eq_true, comp_iff]
        exact fun h => h.1 (hdormant i hi)
      refine ⟨fun i hi => hfalse i hi i, fun i _ j hj _ => hfalse j hj i,
        fun _ _ _ _ _ _ => comp_trans, fun _ _ _ _ _ _ => incomparable_trans,
        sortsWell_of_tieFree ?_⟩
      intro i hi j _ _ hlive
      simp [schedulingInfo, hdormant i hi] at hlive
  · rw [strictWeakBetween_comp_iff]
    exact and_iff_left_of_imp sortsWell_of_tieFree

/-- Two processes ready at second 5. -/
def tied : Nat → Descriptor := fun _ =>
  { Descriptor.create with
    absoluteCriticalTime := ⟨5, 0⟩
    process := Process.create.setState .ready }

/-- Each comes before itself and before the other, and a sort may leave anything. -/
theorem tied_not_ordered :
    processDescriptorComp (tied 0) (tied 0) = true ∧
      processDescriptorComp (tied 0) (tied 1) = true ∧
      processDescriptorComp (tied 1) (tied 0) = true ∧
      SortsDistinct (fun i j => processDescriptorComp (tied i) (tied j)) [0, 1] [] ∧
      ¬ StrictWeakOrder tied [0, 1] := by
  refine ⟨by decide, by decide, by decide, by decide, fun h => ?_⟩
  have hself := h.irreflexive 0 (by decide)
  revert hself
  decide

end Arinc.SchedulingOrder
