import ArincEmulator.CallLog
import ArincEmulator.Search
import Mathlib.Data.Fin.VecNotation

/- Default actions. The search for transitions looks for the outermost state that has
   one, to be done when no transition is found; but on its way back every state writes
   what its regions have found over what it has found itself, and a state without
   regions has nothing to write.

   What is proved: no step ever does a default action (`step_noDefault`), so a step does
   what it should just where it finds a transition or no active state has a default
   action (`default_actions_iff`). -/
namespace Arinc.DefaultAction
open AndOrTree StateMachine

variable {S R T : Type} {H : Hierarchy S R T}

/-! ## The default actions of a configuration -/

/-- The active states from `s` down, in the order of the search. -/
def activeStates (c : Config H) : Nat → S → List S
  | 0, _ => []
  | fuel + 1, s => s :: (H.regions s).flatMap fun r =>
      match c.currentState r with
      | none => []
      | some x => activeStates c fuel x

variable (H) in
/-- The transitions of a state are asked, after its during action, until one is there
    whose guard holds. -/
def ask (env : Env S T) (log : List (Callback S T)) (s : S) : List (Callback S T) × Option T :=
  firstActive H env (if H.stateHasDs s then .during s :: log else log) (H.outTransitions s)

variable (H) in
/-- The calls once all transitions of the states have been asked. -/
def asked (env : Env S T) (log : List (Callback S T)) (ss : List S) : List (Callback S T) :=
  ss.foldl (fun log s => (ask H env log s).1) log

variable (H) in
/-- No transition of the states, asked one after the other, is enabled. -/
def NoneEnabled (env : Env S T) : List (Callback S T) → List S → Prop
  | _, [] => True
  | log, s :: ss => (ask H env log s).2 = none ∧ NoneEnabled env (ask H env log s).1 ss

/-- Asked down a list, so it can be decided. -/
instance NoneEnabled.decidable (env : Env S T) :
    ∀ (log : List (Callback S T)) (ss : List S), Decidable (NoneEnabled H env log ss)
  | _, [] => isTrue trivial
  | log, s :: ss =>
    have := NoneEnabled.decidable env (ask H env log s).1 ss
    if h : (ask H env log s).2.isNone = true then
      decidable_of_iff (NoneEnabled H env (ask H env log s).1 ss)
        (and_iff_right (Option.isNone_iff_eq_none.mp h)).symm
    else isFalse fun hask => h (Option.isNone_iff_eq_none.mpr hask.1)

/-- The state whose default action is done. -/
def defaultOf : Callback S T → Option S
  | .defaultAction s => some s
  | _ => none

/-- The calls of `new` that are not in `log`. -/
def newCalls (log new : List (Callback S T)) : List (Callback S T) :=
  new.take (new.length - log.length)

/-- An active state with a default action, below no other one. -/
def Outermost (c : Config H) (s : S) : Prop :=
  c.Active s ∧ H.defaultActionSet s = true ∧
    ∀ a, c.Active a → H.defaultActionSet a = true → Below H.toTree a s → a = s

/-- The calls before the loop of `step`. -/
def stepCalls (log : List (Callback S T)) : List (Callback S T) :=
  .getTimeOutTransitions :: .setCurrentTime :: .applyAndResetInputEvents ::
    .resetOutputEvents :: log

/-- No transition of an active state is enabled when `step` begins, and some active state
    has a default action. -/
def DefaultDue (env : Env S T) (m : Machine H) : Prop :=
  NoneEnabled H env (stepCalls m.log) (activeStates m.config (fuel H) H.root) ∧
    ∃ s, m.config.Active s ∧ H.defaultActionSet s = true

variable [DecidableEq S] [DecidableEq R]

/-- A step does one default action when one is due, that of an outermost state, and none
    otherwise. -/
structure DoesDefaults (env : Env S T) (rounds : Nat) (m : Machine H) : Prop where
  due : DefaultDue env m → ∃ s, Outermost m.config s ∧
    (newCalls m.log (step H env rounds m).log).filterMap defaultOf = [s]
  notDue : ¬ DefaultDue env m →
    (newCalls m.log (step H env rounds m).log).filterMap defaultOf = []

/-! ## The states the search visits -/

section
omit [DecidableEq S] [DecidableEq R]

theorem mem_activeStates (c : Config H) (fuel : Nat) (s x : S)
    (hfuel : H.height < fuel + H.depth s) :
    x ∈ activeStates c fuel s ↔ Reached H.toTree c.currentState s x := by
  induction fuel generalizing s with
  | zero =>
    have hle := H.depth_le s
    omega
  | succ fuel ih =>
    rw [activeStates, List.mem_cons, Reached.iff_head, List.mem_flatMap]
    apply or_congr_right
    apply exists_congr
    intro r
    rw [H.mem_regions]
    apply and_congr_right
    intro howner
    cases hr : c.currentState r with
    | none => simp
    | some y =>
      have hy := c.proper r y hr
      have hdepth := H.depth_child hy
      rw [howner] at hdepth
      simp only [Option.some.injEq, exists_eq_left']
      exact ih y (by omega)

theorem noneEnabled_append (env : Env S T) (log : List (Callback S T)) (ss ts : List S) :
    NoneEnabled H env log (ss ++ ts) ↔
      NoneEnabled H env log ss ∧ NoneEnabled H env (asked H env log ss) ts := by
  induction ss generalizing log with
  | nil => exact (and_iff_right trivial).symm
  | cons s ss ih =>
    rw [List.cons_append, NoneEnabled, NoneEnabled, ih, and_assoc]
    exact Iff.rfl

/-- What the search from some states on has found: nothing just when none of their
    transitions is enabled, and then it has asked them all. -/
structure Searched (env : Env S T) (e new : Searching S T) (ss : List S) : Prop where
  found : ∃ ts, new.activeTransitions = e.activeTransitions ++ ts ∧
    (ts = [] ↔ NoneEnabled H env e.log ss) ∧ (ts = [] → new.log = asked H env e.log ss)
  default : (e.activeTransitions = [] → e.defaultState = none) →
    new.activeTransitions = [] → new.defaultState = none

theorem Searched.refl (env : Env S T) (e : Searching S T) : Searched (H := H) env e e [] :=
  ⟨⟨[], (List.append_nil _).symm, iff_of_true rfl trivial, fun _ => rfl⟩, id⟩

theorem Searched.trans {env : Env S T} {e new newer : Searching S T} {ss ss' : List S}
    (h : Searched (H := H) env e new ss) (h' : Searched (H := H) env new newer ss') :
    Searched (H := H) env e newer (ss ++ ss') := by
  obtain ⟨ts, hts, hnone, hlog⟩ := h.found
  obtain ⟨us, hus, hnone', hlog'⟩ := h'.found
  refine ⟨⟨ts ++ us, by rw [hus, hts, List.append_assoc], ?_, ?_⟩, fun he hnew => ?_⟩
  · rw [List.append_eq_nil_iff, noneEnabled_append, hnone', ← hnone]
    apply and_congr_right
    intro hempty
    rw [hlog hempty]
  · intro hempty
    obtain ⟨hts', hus'⟩ := List.append_eq_nil_iff.mp hempty
    rw [hlog' hus', hlog hts', asked, asked, asked, List.foldl_append]
  · exact h'.default (h.default he) hnew

theorem foldl_searched (env : Env S T) (c : Config H) {f : Searching S T → S → Bool → Searching S T}
    (states : S → List S) (hf : ∀ e x look, Searched (H := H) env e (f e x look) (states x))
    (rs : List R) (e : Searching S T × Bool) :
    Searched (H := H) env e.1 (rs.foldl (Region.evalTransitions c f) e).1
      (rs.flatMap fun r =>
        match c.currentState r with
        | none => []
        | some x => states x) := by
  induction rs generalizing e with
  | nil => exact .refl env e.1
  | cons r rs ih =>
    rw [List.foldl_cons, List.flatMap_cons]
    refine Searched.trans ?_ (ih _)
    unfold Region.evalTransitions
    cases c.currentState r with
    | none => exact .refl env e.1
    | some x => exact hf e.1 x e.2

/-- `EvalTransitions` of a state. What it leaves as the default state it has from its
    regions, and the innermost have none. -/
theorem evalTransitions_searched (env : Env S T) (c : Config H) (fuel : Nat) (e : Searching S T)
    (s : S) (lookForDefault : Bool) :
    Searched (H := H) env e (evalTransitions H env c fuel e s lookForDefault)
      (activeStates c fuel s) := by
  induction fuel generalizing e s lookForDefault with
  | zero => exact .refl env e
  | succ fuel ih =>
    rw [activeStates]
    cases hask : ask H env e.log s with
    | mk log found =>
      have hfirst := hask
      unfold ask at hfirst
      -- A transition of the state itself ends the search there; else its regions are searched.
      cases found with
      | some t =>
        simp only [evalTransitions, hfirst]
        have hfound : e.activeTransitions ++ [t] ≠ [] := by simp
        refine ⟨⟨[t], rfl, ?_, fun hnew => absurd hnew (List.cons_ne_nil t [])⟩,
          fun _ hnew => absurd hnew hfound⟩
        simp [NoneEnabled, hask]
      | none =>
        simp only [evalTransitions, hfirst]
        have hregions := foldl_searched env c
          (f := fun e x look => evalTransitions H env c fuel e x look) (activeStates c fuel) (fun e x look => ih e x look) (H.regions s)
          (⟨log, e.activeTransitions, none⟩, lookForDefault)
        simp only at hregions ⊢
        obtain ⟨ts, hts, hnone, hlog⟩ := hregions.found
        refine ⟨⟨ts, hts, ?_, ?_⟩, fun _ hnew => ?_⟩
        · rw [NoneEnabled, hask, hnone]
          exact (and_iff_right rfl).symm
        · intro hempty
          rw [hlog hempty, asked, asked, List.foldl_cons, hask]
        · have hdefault := hregions.default (fun _ => rfl) hnew
          exact (if_pos (List.isEmpty_iff.mpr hnew)).trans hdefault

/-- The search finds nothing just when no transition of an active state is enabled. -/
theorem search_eq_nil_iff (env : Env S T) (m : Machine H) :
    (search H env m).activeTransitions = [] ↔
      NoneEnabled H env m.log (activeStates m.config (fuel H) H.root) := by
  obtain ⟨ts, hts, hnone, -⟩ :=
    (evalTransitions_searched env m.config (fuel H) ⟨m.log, [], none⟩ H.root true).found
  rw [List.nil_append] at hts
  rw [search, hts]
  exact hnone

theorem search_defaultState (env : Env S T) (m : Machine H)
    (h : (search H env m).activeTransitions = []) : (search H env m).defaultState = none :=
  (evalTransitions_searched env m.config (fuel H) ⟨m.log, [], none⟩ H.root true).default
    (fun _ => rfl) h

end

/-! ## The calls of a step -/

/-- No default action. -/
def NoDefault (c : Callback S T) : Prop := defaultOf c = none

theorem perform_noDefault (env : Env S T) (m : Machine H × Set T) (t : T) :
    Grows NoDefault m.1.log (perform H env m t).1.log := by
  have hexit := evalExit_grows (P := NoDefault) H (fun _ => rfl) m.1.config (fuel H)
    ⟨m.1.log, m.2⟩ (entryAndExitPoints H t).stateToExit
    (!(entryAndExitPoints H t).betweenParallelMachines)
  unfold perform
  simp only
  split
  · exact hexit
  · refine Grows.trans ?_ (evalEntry_grows H env (fun _ => rfl) (fun _ => rfl) (fuel H) ⟨_, _, _⟩ _ _ _)
    refine Grows.trans ?_ (evalTimeOut_grows H env (fun _ => rfl) m.1.config (fuel H) (_, _) _ _ _)
    exact hexit.trans (performAction_grows H (fun _ => rfl) _ t)

theorem foldl_perform_noDefault (env : Env S T) (ts : List T) (m : Machine H × Set T) :
    Grows NoDefault m.1.log (ts.foldl (perform H env) m).1.log := by
  induction ts generalizing m with
  | nil => exact Grows.refl _ _
  | cons t ts ih => exact (perform_noDefault env m t).trans (ih _)

theorem round_noDefault (env : Env S T) (m : Machine H) :
    Grows NoDefault m.log (round H env m).1.log := by
  have hsearch : Grows NoDefault m.log (search H env m).log :=
    evalTransitions_grows H env (fun _ => rfl) (fun _ => rfl) (fun _ => rfl) m.config (fuel H)
      ⟨m.log, [], none⟩ H.root true
  have hnone := search_defaultState env m
  unfold StateMachine.round
  generalize search H env m = found at hsearch hnone ⊢
  cases hts : found.activeTransitions with
  | nil =>
    simp only [hts, hnone hts]
    exact hsearch
  | cons t ts =>
    simp only [hts]
    iterate 5 refine Grows.cons ?_ rfl
    exact hsearch.trans (foldl_perform_noDefault env (t :: ts) ({ m with log := found.log }, ∅))

theorem loop_noDefault (env : Env S T) (rounds : Nat) (m : Machine H) :
    Grows NoDefault m.log (loop H env rounds m).log := by
  induction rounds generalizing m with
  | zero => exact Grows.refl _ _
  | succ rounds ih =>
    have hround := round_noDefault env m
    rw [loop]
    split
    · rename_i m' heq
      rw [heq] at hround
      iterate 2 refine Grows.cons ?_ rfl
      exact hround
    · rename_i m' heq
      rw [heq] at hround
      exact hround.trans (ih m')

theorem step_noDefault (env : Env S T) (rounds : Nat) (m : Machine H) :
    Grows NoDefault m.log (step H env rounds m).log := by
  refine Grows.trans ?_ (loop_noDefault env rounds { m with log := stepCalls m.log })
  iterate 4 refine Grows.cons ?_ rfl
  exact Grows.refl _ _

theorem step_defaults (env : Env S T) (rounds : Nat) (m : Machine H) :
    (newCalls m.log (step H env rounds m).log).filterMap defaultOf = [] := by
  obtain ⟨w, hw, hno⟩ := step_noDefault env rounds m
  have hcalls : newCalls m.log (w ++ m.log) = w := by
    apply List.take_left'
    rw [List.length_append]
    omega
  rw [hw, hcalls, List.filterMap_eq_nil_iff]
  exact hno

/-- A step treats default actions as it should if and only if none is due: a transition
    of an active state is enabled, or no active state has a default action. -/
theorem default_actions_iff (env : Env S T) (rounds : Nat) (m : Machine H) :
    DoesDefaults env rounds m ↔ ¬ DefaultDue env m := by
  have hnone := step_defaults env rounds m
  constructor
  · intro h hdue
    obtain ⟨s, -, hs⟩ := h.due hdue
    rw [hnone] at hs
    cases hs
  · intro hnot
    exact ⟨fun hdue => absurd hdue hnot, fun _ => hnone⟩

/-! ## One state with a default action -/

/-- The root 0 has the region 0 with the state 1, which has a default action. There are
    no transitions. -/
def waiting : Hierarchy (Fin 2) (Fin 1) (Fin 0) where
  root := 0
  region := ![none, some 0]
  owner := ![0]
  depth := ![0, 1]
  region_root := rfl
  eq_root := by decide
  depth_child := by decide
  regions := ![[0], []]
  initState := ![some 1]
  isDeepHistory := fun _ => false
  stateHasDs := fun _ => true
  defaultActionSet := ![false, true]
  outTransitions := fun _ => []
  timeOutTransitions := fun _ => []
  source := nofun
  target := nofun
  setHistory := nofun
  transitionHasDs := nofun
  height := 1
  mem_regions := by decide
  regions_nodup := by decide
  region_initState := by decide
  depth_le := by decide

/-- The machine has started, a step finds no transition, and state 1 waits for its default
    action in vain. -/
theorem default_action_lost :
    (step waiting (fun _ => false) 1 (start waiting (fun _ => false) 1)).log.head? =
      some .resetInternalEvents ∧
    (newCalls (start waiting (fun _ => false) 1).log
        (step waiting (fun _ => false) 1 (start waiting (fun _ => false) 1)).log).filterMap
          defaultOf = [] ∧
    ¬ DoesDefaults (fun _ => false) 1 (start waiting (fun _ => false) 1) := by
  refine ⟨rfl, by decide, fun h => ?_⟩
  have hstate : (start waiting (fun _ => false) 1).config.currentState 0 = some 1 := by decide
  obtain ⟨s, -, hs⟩ := h.due ⟨by decide, 1, .child hstate .refl, rfl⟩
  revert hs
  revert s
  decide

end Arinc.DefaultAction
