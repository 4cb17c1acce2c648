import ArincEmulator.Lib.Numerals
import Mathlib.Data.List.Basic

/- Runs of a labelled step function. Every choice a program leaves open (which
   thread moves next, whether a timed wait gives up, what a clock reads) is
   part of the label, so `step` is a partial function and a run is a list of
   labels. Four rules are proved once here and used by every component:
   an invariant of the single step is an invariant of the run
   (`run_invariant`), also one that speaks of the labels so far
   (`run_history`), the same under a condition on the steps taken
   (`run_invariant_of_meets`), and a property holds all along a run exactly
   when its steps meet the condition that each of them needs
   (`always_iff_meets`). -/
namespace Arinc.Runs

variable {σ α : Type*}

/-- The state after the labels `as`, in order, or `none` where one of them is
    not enabled. -/
def run (step : σ → α → Option σ) : σ → List α → Option σ
  | s, [] => some s
  | s, a :: as => (step s a).bind fun t => run step t as

/-- Every step taken from `s` along `as` meets `C` in the state it is taken in. -/
def Meets (step : σ → α → Option σ) (C : σ → α → Prop) : σ → List α → Prop
  | _, [] => True
  | s, a :: as => C s a ∧ ∀ t, step s a = some t → Meets step C t as

variable {step : σ → α → Option σ} {C : σ → α → Prop}

instance decidableMeets [∀ s a, Decidable (C s a)] :
    ∀ (s : σ) (as : List α), Decidable (Meets step C s as)
  | _, [] => isTrue trivial
  | s, a :: as =>
    have : ∀ t, Decidable (Meets step C t as) := fun t => decidableMeets t as
    decidable_of_iff (C s a ∧ ∀ t ∈ step s a, Meets step C t as) Iff.rfl

@[simp] theorem run_nil (s : σ) : run step s [] = some s := rfl

theorem run_cons (s : σ) (a : α) (as : List α) :
    run step s (a :: as) = (step s a).bind fun t => run step t as := rfl

theorem run_cons_some {s u : σ} {a : α} {as : List α} :
    run step s (a :: as) = some u ↔ ∃ t, step s a = some t ∧ run step t as = some u := by
  simp [run_cons, Option.bind_eq_some_iff]

theorem run_append (s : σ) (as bs : List α) :
    run step s (as ++ bs) = (run step s as).bind fun t => run step t bs := by
  induction as generalizing s with
  | nil => rfl
  | cons a as ih =>
    simp only [List.cons_append, run_cons]
    cases step s a with
    | none => rfl
    | some t => exact ih t

theorem run_append_some {s u : σ} {as bs : List α} :
    run step s (as ++ bs) = some u ↔ ∃ t, run step s as = some t ∧ run step t bs = some u := by
  simp [run_append, Option.bind_eq_some_iff]

/-- What every step keeps, every run keeps. -/
theorem run_invariant {I : σ → Prop} (hstep : ∀ s a t, I s → step s a = some t → I t)
    {s t : σ} {as : List α} (hs : I s) (h : run step s as = some t) : I t := by
  induction as generalizing s with
  | nil =>
    obtain rfl : s = t := Option.some.inj h
    exact hs
  | cons a as ih =>
    obtain ⟨u, hu, hrun⟩ := run_cons_some.mp h
    exact ih (hstep s a u hs hu) hrun

/-- A fact about a state and the labels that led to it, true of the start and of
    every step more, is true of every run. -/
theorem run_history {I : List α → σ → Prop} {s : σ} (hstart : I [] s)
    (hstep : ∀ as t a u, run step s as = some t → I as t → step t a = some u → I (as ++ [a]) u)
    {t : σ} {as : List α} (h : run step s as = some t) : I as t := by
  -- the labels already taken stand in front
  suffices hgen : ∀ past mid, run step s past = some mid → I past mid →
      run step mid as = some t → I (past ++ as) t from hgen [] s rfl hstart h
  clear h
  induction as with
  | nil =>
    intro past mid _ hI hrun
    obtain rfl : mid = t := Option.some.inj hrun
    rwa [List.append_nil]
  | cons a as ih =>
    intro past mid hpast hI hrun
    obtain ⟨u, hu, hrest⟩ := run_cons_some.mp hrun
    have hlonger : run step s (past ++ [a]) = some u :=
      run_append_some.mpr ⟨mid, hpast, run_cons_some.mpr ⟨u, hu, rfl⟩⟩
    have hall := ih (past ++ [a]) u hlonger (hstep past mid a u hpast hI hu) hrest
    rwa [List.append_assoc] at hall

/-- What every step meeting `C` keeps, every run whose steps meet `C` keeps. -/
theorem run_invariant_of_meets {I : σ → Prop}
    (hstep : ∀ s a t, I s → C s a → step s a = some t → I t) {s t : σ} {as : List α}
    (hs : I s) (hC : Meets step C s as) (h : run step s as = some t) : I t := by
  induction as generalizing s with
  | nil =>
    obtain rfl : s = t := Option.some.inj h
    exact hs
  | cons a as ih =>
    obtain ⟨u, hu, hrun⟩ := run_cons_some.mp h
    exact ih (hstep s a u hs hC.1 hu) (hC.2 u hu) hrun

theorem meets_append {s t : σ} {as bs : List α} (has : Meets step C s as)
    (h : run step s as = some t) (hbs : Meets step C t bs) : Meets step C s (as ++ bs) := by
  induction as generalizing s with
  | nil =>
    obtain rfl : s = t := Option.some.inj h
    exact hbs
  | cons a as ih =>
    obtain ⟨u, hu, hrun⟩ := run_cons_some.mp h
    refine ⟨has.1, fun v hv => ?_⟩
    obtain rfl : u = v := Option.some.inj (hu.symm.trans hv)
    exact ih (has.2 u hu) hrun

theorem meets_of_forall {D : α → Prop} {s : σ} {as : List α} (h : ∀ a ∈ as, D a) :
    Meets step (fun _ a => D a) s as := by
  induction as generalizing s with
  | nil => trivial
  | cons a as ih =>
    obtain ⟨ha, has⟩ := List.forall_mem_cons.mp h
    exact ⟨ha, fun t _ => ih has⟩

theorem Meets.and {D : σ → α → Prop} {s : σ} {as : List α} (h : Meets step C s as)
    (hD : Meets step D s as) : Meets step (fun s a => C s a ∧ D s a) s as := by
  induction as generalizing s with
  | nil => trivial
  | cons a as ih => exact ⟨⟨h.1, hD.1⟩, fun t ht => ih (h.2 t ht) (hD.2 t ht)⟩

/-- A condition that implies another in every state of an invariant it keeps. -/
theorem Meets.imp {I : σ → Prop} {D : σ → α → Prop}
    (hstep : ∀ s a t, I s → C s a → step s a = some t → I t)
    (himp : ∀ s a, I s → C s a → D s a) {s : σ} {as : List α} (hs : I s)
    (h : Meets step C s as) : Meets step D s as := by
  induction as generalizing s with
  | nil => trivial
  | cons a as ih =>
    refine ⟨himp s a hs h.1, ?_⟩
    intro t ht
    exact ih (hstep s a t hs h.1 ht) (h.2 t ht)

/-- Two conditions that agree on every enabled step meeting a third agree on
    every run whose steps meet it. -/
theorem meets_iff {P Q : σ → α → Prop}
    (hiff : ∀ s a t, C s a → step s a = some t → (P s a ↔ Q s a)) {s t : σ} {as : List α}
    (hC : Meets step C s as) (h : run step s as = some t) :
    Meets step P s as ↔ Meets step Q s as := by
  induction as generalizing s with
  | nil => exact Iff.rfl
  | cons a as ih =>
    obtain ⟨u, hu, hrun⟩ := run_cons_some.mp h
    apply and_congr (hiff s a u hC.1 hu)
    apply forall_congr'
    intro v
    apply imp_congr_right
    intro hv
    obtain rfl : u = v := Option.some.inj (hu.symm.trans hv)
    exact ih (hC.2 u hu) hrun

/-- Two conditions that agree on every enabled step from a state of an invariant,
    which the second keeps, agree on every run from such a state. -/
theorem meets_iff_of_kept {I : σ → Prop} {P Q : σ → α → Prop}
    (hstep : ∀ s a t, I s → step s a = some t → (P s a ↔ Q s a) ∧ (Q s a → I t))
    {s t : σ} {as : List α} (hs : I s) (h : run step s as = some t) :
    Meets step P s as ↔ Meets step Q s as := by
  induction as generalizing s with
  | nil => exact Iff.rfl
  | cons a as ih =>
    obtain ⟨u, hu, hrun⟩ := run_cons_some.mp h
    obtain ⟨hiff, hkeep⟩ := hstep s a u hs hu
    have hnext (v : σ) (hv : step s a = some v) : v = u := Option.some.inj (hv.symm.trans hu)
    constructor
    · intro hP
      have hQ : Q s a := hiff.mp hP.1
      refine ⟨hQ, fun v hv => ?_⟩
      rw [hnext v hv]
      exact (ih (hkeep hQ) hrun).mp (hP.2 u hu)
    · intro hQ
      refine ⟨hiff.mpr hQ.1, fun v hv => ?_⟩
      rw [hnext v hv]
      exact (ih (hkeep hQ.1) hrun).mpr (hQ.2 u hu)

/-- `P` holds in every state the run goes through. -/
def Always (step : σ → α → Option σ) (P : σ → Prop) (s : σ) (as : List α) : Prop :=
  ∀ bs cs t, as = bs ++ cs → run step s bs = some t → P t

theorem always_nil {P : σ → Prop} {s : σ} : Always step P s [] ↔ P s := by
  constructor
  · intro h
    exact h [] [] s rfl rfl
  · intro hs bs cs t heq hrun
    obtain ⟨rfl, -⟩ := List.append_eq_nil_iff.mp heq.symm
    obtain rfl : s = t := Option.some.inj hrun
    exact hs

theorem always_cons {P : σ → Prop} {s : σ} {a : α} {as : List α} :
    Always step P s (a :: as) ↔ P s ∧ ∀ t, step s a = some t → Always step P t as := by
  constructor
  · intro h
    refine ⟨h [] (a :: as) s rfl rfl, ?_⟩
    intro t ht bs cs u heq hrun
    exact h (a :: bs) cs u (congrArg (a :: ·) heq) (run_cons_some.mpr ⟨t, ht, hrun⟩)
  · intro h bs cs u heq hrun
    cases bs with
    | nil =>
      obtain rfl : s = u := Option.some.inj hrun
      exact h.1
    | cons b bs =>
      obtain ⟨rfl, rfl⟩ := List.cons.inj heq
      obtain ⟨t, ht, hrest⟩ := run_cons_some.mp hrun
      exact h.2 t ht bs cs u rfl hrest

/-- `C` is the exact condition of `I`: where `I` holds, and with it the side facts
    `J`, a step keeps `I` just when it meets `C`, and then keeps `J`. So a run
    stays in `I` just when every step of it meets `C`. -/
theorem always_iff_meets {I J : σ → Prop}
    (hstep : ∀ s a t, I s → J s → step s a = some t → (I t ↔ C s a) ∧ (C s a → J t))
    {s u : σ} {as : List α} (hI : I s) (hJ : J s) (h : run step s as = some u) :
    Always step I s as ↔ Meets step C s as := by
  induction as generalizing s with
  | nil => exact iff_of_true (always_nil.mpr hI) trivial
  | cons a as ih =>
    obtain ⟨v, hv, hrun⟩ := run_cons_some.mp h
    obtain ⟨hkeep, hside⟩ := hstep s a v hI hJ hv
    have hnext (w : σ) (hw : step s a = some w) : w = v := Option.some.inj (hw.symm.trans hv)
    rw [always_cons]
    constructor
    · intro hall
      have hrest : Always step I v as := hall.2 v hv
      have hIv : I v := hrest [] as v rfl rfl
      have hC : C s a := hkeep.mp hIv
      refine ⟨hC, fun w hw => ?_⟩
      rw [hnext w hw]
      exact (ih hIv (hside hC) hrun).mp hrest
    · intro hmeets
      refine ⟨hI, fun w hw => ?_⟩
      rw [hnext w hw]
      exact (ih (hkeep.mpr hmeets.1) (hside hmeets.1) hrun).mpr (hmeets.2 v hv)

end Arinc.Runs
