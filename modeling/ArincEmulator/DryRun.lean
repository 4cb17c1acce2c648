import ArincEmulator.ActiveSources
import Mathlib.Data.Fin.VecNotation

/- The pass over the time-outs before an entry (`EvalTimeOut`) as a dry run of the entry
   (`EvalEntry`). Both go through the same states, since what the entry does to the
   current states is above all that is still to be looked at (`entryStates_same`). But
   `Region::EvalTimeOut` hands `doEntry` down and `Region::EvalEntry` does not: between
   parallel machines the pass asks no guard at all, while the entry enters everything
   below the first state.

   What is proved: the pass asks the time-out guards of the states entered, in their
   order, just where the transition is not between parallel machines or none of the
   states below the first has any (`dry_run_iff`). -/
namespace Arinc.DryRun
open AndOrTree StateMachine EntryRule
open ActiveSources (firstToEnter)

variable {S R T : Type} [DecidableEq S] [DecidableEq R] {H : Hierarchy S R T}

/-! ## The states of the two passes -/

/-- `Region::EvalTimeOut` as far as it concerns the states of the pass, given that of a
    state. The states still to enter are in front, the states asked behind. -/
def Region.timeOutStates (c : Config H) (applyHistory checkHistory : Bool)
    (state : List S × List S → S → Bool → List S × List S) (e : List S × List S) (r : R) :
    List S × List S :=
  match chooseState H c e.1 r applyHistory checkHistory with
  | (none, _) => e
  | (some x, applyHistory) => state e x applyHistory

/-- The states at which `State::EvalTimeOut` asks the time-out guards. -/
def timeOutStates (c : Config H) :
    Nat → List S × List S → S → Bool → Bool → List S × List S
  | 0, e, _, _, _ => e
  | fuel + 1, e, s, applyHistory, doEntry =>
    let asked := if doEntry then e.2 ++ [s] else e.2
    let (statesToEnter, checkHistory) := popState e.1 s applyHistory
    (H.regions s).foldl (Region.timeOutStates c applyHistory checkHistory fun e x applyHistory =>
      timeOutStates c fuel e x applyHistory doEntry) (statesToEnter, asked)

variable (H) in
/-- The current states, the states still to enter, and the states entered. -/
structure Entered where
  config : Config H
  statesToEnter : List S
  states : List S

/-- `Region::EvalEntry` as far as it concerns the states entered, given that of a state. -/
def Region.entryStates (applyHistory checkHistory : Bool)
    (state : Entered H → S → Bool → Entered H) (e : Entered H) (r : R) : Entered H :=
  match chooseState H e.config e.statesToEnter r applyHistory checkHistory with
  | (none, _) => e
  | (some x, applyHistory) => state { e with config := e.config.setCurrentState r x } x applyHistory

/-- The states on which `State::EvalEntry` performs the entry. -/
def entryStates : Nat → Entered H → S → Bool → Bool → Entered H
  | 0, e, _, _, _ => e
  | fuel + 1, e, s, applyHistory, doEntry =>
    let states := if doEntry then e.states ++ [s] else e.states
    let (statesToEnter, checkHistory) := popState e.statesToEnter s applyHistory
    (H.regions s).foldl (Region.entryStates applyHistory checkHistory fun e x applyHistory =>
      entryStates fuel e x applyHistory true) ⟨e.config.enter s, statesToEnter, states⟩

variable (H) in
/-- The calls made by asking the time-out guards of the states. -/
def askCalls (env : Env S T) (log : List (Callback S T)) (e : List S × List S) :
    List S × List (Callback S T) :=
  (e.1, e.2.foldl (evalTransitionsForTimeOut H env) log)

/-- The calls made by entering the states. -/
def entryCalls (env : Env S T) (log : List (Callback S T)) (e : Entered H) : Entering H :=
  ⟨e.config, e.statesToEnter, e.states.foldl (performEntry H env) log⟩

/-- The pass over the time-outs makes the calls of its states. -/
theorem evalTimeOut_eq (env : Env S T) (c : Config H) (log : List (Callback S T)) (fuel : Nat)
    (e : List S × List S) (s : S) (applyHistory doEntry : Bool) :
    evalTimeOut H env c fuel (askCalls H env log e) s applyHistory doEntry =
      askCalls H env log (timeOutStates c fuel e s applyHistory doEntry) := by
  induction fuel generalizing e s applyHistory with
  | zero => rfl
  | succ fuel ih =>
    have hasked : (if doEntry = true then
        evalTransitionsForTimeOut H env (askCalls H env log e).2 s
        else (askCalls H env log e).2) =
        (if doEntry = true then e.2 ++ [s] else e.2).foldl (evalTransitionsForTimeOut H env) log := by
      split
      · rw [List.foldl_append, List.foldl_cons, List.foldl_nil, askCalls]
      · rfl
    have hregion : ∀ (e : List S × List S) (r : R) (checkHistory : Bool),
        Region.evalTimeOut c applyHistory checkHistory (fun e x applyHistory =>
          evalTimeOut H env c fuel e x applyHistory doEntry) (askCalls H env log e) r =
        askCalls H env log (Region.timeOutStates c applyHistory checkHistory
          (fun e x applyHistory => timeOutStates c fuel e x applyHistory doEntry) e r) := by
      intro e r checkHistory
      simp only [Region.evalTimeOut, Region.timeOutStates]
      change (match chooseState H c e.1 r applyHistory checkHistory with
        | (none, _) => _
        | (some x, applyHistory) => _) = _
      split
      · rfl
      · exact ih e _ _
    simp only [evalTimeOut, timeOutStates]
    rw [hasked]
    rw [← List.foldl_hom (askCalls H env log) fun e r => hregion e r _]
    rfl

/-- The entry makes the calls of its states, and leaves these current states. -/
theorem evalEntry_eq (env : Env S T) (log : List (Callback S T)) (fuel : Nat) (e : Entered H)
    (s : S) (applyHistory doEntry : Bool) :
    evalEntry H env fuel (entryCalls env log e) s applyHistory doEntry =
      entryCalls env log (entryStates fuel e s applyHistory doEntry) := by
  induction fuel generalizing e s applyHistory doEntry with
  | zero => rfl
  | succ fuel ih =>
    have hentered : (if doEntry = true then performEntry H env (entryCalls env log e).log s
        else (entryCalls env log e).log) =
        (if doEntry = true then e.states ++ [s] else e.states).foldl (performEntry H env) log := by
      split
      · rw [List.foldl_append, List.foldl_cons, List.foldl_nil, entryCalls]
      · rfl
    have hregion : ∀ (e : Entered H) (r : R) (checkHistory : Bool),
        Region.evalEntry applyHistory checkHistory (fun e x applyHistory =>
          evalEntry H env fuel e x applyHistory true) (entryCalls env log e) r =
        entryCalls env log (Region.entryStates applyHistory checkHistory
          (fun e x applyHistory => entryStates fuel e x applyHistory true) e r) := by
      intro e r checkHistory
      simp only [Region.evalEntry, Region.entryStates]
      change (match chooseState H e.config e.statesToEnter r applyHistory checkHistory with
        | (none, _) => _
        | (some x, applyHistory) => _) = _
      split
      · rfl
      · exact ih { e with config := e.config.setCurrentState r _ } _ _ _
    simp only [evalEntry, entryStates]
    rw [hentered]
    rw [← List.foldl_hom (entryCalls env log) fun e r => hregion e r _]
    rfl

/-! ## Both go through the same states -/

omit [DecidableEq S] in
theorem foldl_entryStates_frame {s : S} {q : R} (hq : ¬ Below H.toTree s (H.owner q))
    {applyHistory checkHistory : Bool} {f : Entered H → S → Bool → Entered H}
    (hf : ∀ (e : Entered H) (x : S) (h : Bool), H.region x ≠ some q →
      ¬ Below H.toTree x (H.owner q) → (f e x h).config.currentState q = e.config.currentState q)
    (rs : List R) (hrs : ∀ r ∈ rs, H.owner r = s) (e : Entered H) :
    (rs.foldl (Region.entryStates applyHistory checkHistory f) e).config.currentState q =
      e.config.currentState q := by
  induction rs generalizing e with
  | nil => rfl
  | cons r rs ih =>
    rw [List.foldl_cons, ih fun k hk => hrs k (List.mem_cons_of_mem _ hk)]
    have howner := hrs r List.mem_cons_self
    unfold Region.entryStates
    split
    · rfl
    · rename_i x h hchoose
      have hx := chooseState_region hchoose
      have hbelow : ∀ k, H.region x = some k → k ≠ q := by
        rintro k hk rfl
        obtain rfl := Option.some.inj (hx.symm.trans hk)
        exact hq (howner ▸ .refl)
      rw [hf _ x h (fun hk => hbelow q hk rfl) fun hk => hq ((howner ▸ Below.child hx .refl).trans hk)]
      exact Config.setCurrentState_ne _ _ (hbelow r hx).symm

/-- The entry of `s` only changes its own region and those below. -/
theorem entryStates_frame (fuel : Nat) (e : Entered H) (s : S) (applyHistory doEntry : Bool)
    {q : R} (hs : H.region s ≠ some q) (hq : ¬ Below H.toTree s (H.owner q)) :
    (entryStates fuel e s applyHistory doEntry).config.currentState q =
      e.config.currentState q := by
  induction fuel generalizing e s applyHistory doEntry with
  | zero => rfl
  | succ fuel ih =>
    simp only [entryStates]
    rw [foldl_entryStates_frame hq (fun e x h hx hxq => ih e x h true hx hxq) (H.regions s)
      fun r hr => H.mem_regions.mp hr]
    exact Config.enter_ne _ hs

theorem region_entryStates_agree {fuel : Nat} {r q : R} (howner : H.owner r = H.owner q)
    (hne : r ≠ q) (e : Entered H) (applyHistory checkHistory : Bool) :
    Agree q e.config (Region.entryStates applyHistory checkHistory (fun e x applyHistory =>
      entryStates fuel e x applyHistory true) e r).config := by
  intro k hk
  unfold Region.entryStates
  split
  · rfl
  · rename_i x h hchoose
    have hx := chooseState_region hchoose
    have hunder : ∀ y, Below H.toTree x y → ¬ UnderRegion H.toTree q y := fun y hxy hy =>
      hne (eq_of_underRegion howner ⟨x, hx, hxy⟩ hy)
    have hkr : k ≠ r := by
      rintro rfl
      rcases hk with rfl | hk
      · exact hne rfl
      · rw [howner] at hk
        exact not_underRegion_owner q hk
    have hxk : H.region x ≠ some k := by
      rw [hx]
      exact fun heq => hkr (Option.some.inj heq).symm
    have hbelow : ¬ Below H.toTree x (H.owner k) := by
      intro hb
      rcases hk with rfl | hk
      · rw [← howner] at hb
        exact not_below_owner hx hb
      · exact hunder _ hb hk
    rw [entryStates_frame fuel _ x h true hxk hbelow]
    exact Config.setCurrentState_ne _ _ hkr

theorem foldl_entryStates_same {c : Config H} {s : S} (fuel : Nat)
    (applyHistory checkHistory : Bool)
    (hf : ∀ (e : Entered H) (x : S) (h : Bool) (r : R), H.region x = some r → H.owner r = s →
      (∀ q, Below H.toTree x (H.owner q) → e.config.currentState q = c.currentState q) →
      ((entryStates fuel e x h true).statesToEnter, (entryStates fuel e x h true).states) =
        timeOutStates c fuel (e.statesToEnter, e.states) x h true)
    (rs : List R) (hrs : ∀ r ∈ rs, H.owner r = s) (hnodup : rs.Nodup) (e : Entered H)
    (hagree : ∀ r ∈ rs, Agree r c e.config) :
    let new := rs.foldl (Region.entryStates applyHistory checkHistory fun e x applyHistory =>
      entryStates fuel e x applyHistory true) e
    (new.statesToEnter, new.states) =
      rs.foldl (Region.timeOutStates c applyHistory checkHistory fun e x applyHistory =>
        timeOutStates c fuel e x applyHistory true) (e.statesToEnter, e.states) := by
  -- The induction is on the regions still to enter; entering one leaves the others as they were.
  induction rs generalizing e with
  | nil => rfl
  | cons r rs ih =>
    obtain ⟨hr, hnodup⟩ := List.nodup_cons.mp hnodup
    have howner := hrs r List.mem_cons_self
    have hfirst := hagree r List.mem_cons_self
    have hturn : ((Region.entryStates applyHistory checkHistory (fun e x applyHistory =>
        entryStates fuel e x applyHistory true) e r).statesToEnter,
        (Region.entryStates applyHistory checkHistory (fun e x applyHistory =>
          entryStates fuel e x applyHistory true) e r).states) =
        Region.timeOutStates c applyHistory checkHistory (fun e x applyHistory =>
          timeOutStates c fuel e x applyHistory true) (e.statesToEnter, e.states) r := by
      simp only [Region.entryStates, Region.timeOutStates]
      rw [chooseState_congr e.statesToEnter applyHistory checkHistory (hfirst r (Or.inl rfl))]
      cases hchoose : chooseState H c e.statesToEnter r applyHistory checkHistory with
      | mk choice h =>
        cases choice with
        | none => rfl
        | some x =>
          have hx := chooseState_region hchoose
          apply hf { e with config := e.config.setCurrentState r x } x h r hx howner
          intro q hq
          rw [Config.setCurrentState_ne]
          · exact hfirst q (Or.inr ⟨x, hx, hq⟩)
          · rintro rfl
            exact not_below_owner hx hq
    rw [List.foldl_cons, List.foldl_cons, ← hturn]
    apply ih (fun q hq => hrs q (List.mem_cons_of_mem _ hq)) hnodup
    intro q hq
    apply Agree.trans (hagree q (List.mem_cons_of_mem _ hq))
    apply region_entryStates_agree
    · rw [howner, hrs q (List.mem_cons_of_mem _ hq)]
    · rintro rfl
      exact hr hq

/-- Where both passes begin with the state itself, they go through the same states. -/
theorem entryStates_same (c : Config H) (fuel : Nat) (e : Entered H) (s : S) (applyHistory : Bool)
    (hsame : ∀ q, Below H.toTree s (H.owner q) → e.config.currentState q = c.currentState q) :
    ((entryStates fuel e s applyHistory true).statesToEnter,
        (entryStates fuel e s applyHistory true).states) =
      timeOutStates c fuel (e.statesToEnter, e.states) s applyHistory true := by
  induction fuel generalizing e s applyHistory with
  | zero => rfl
  | succ fuel ih =>
    simp only [entryStates, timeOutStates]
    apply foldl_entryStates_same fuel _ _ (fun e x h r _ _ hx => ih e x h hx) (H.regions s)
      (fun r hr => H.mem_regions.mp hr) (H.regions_nodup s)
    intro r hr q hq
    have hbelow : Below H.toTree s (H.owner q) := by
      rw [← H.mem_regions.mp hr]
      rcases hq with rfl | hq
      · exact .refl
      · exact hq.below_owner
    -- the region of `s` is above all of these
    refine (Config.enter_ne _ fun hs => ?_).trans (hsame q hbelow)
    exact not_below_owner hs hbelow

/-- Without the entry of the first state the pass over the time-outs asks nothing. -/
theorem timeOutStates_quiet (c : Config H) (fuel : Nat) (e : List S × List S) (s : S)
    (applyHistory : Bool) : (timeOutStates c fuel e s applyHistory false).2 = e.2 := by
  induction fuel generalizing e s applyHistory with
  | zero => rfl
  | succ fuel ih =>
    simp only [timeOutStates, Bool.false_eq_true, if_false]
    have hregions : ∀ (rs : List R) (checkHistory : Bool) (e : List S × List S),
        (rs.foldl (Region.timeOutStates c applyHistory checkHistory fun e x applyHistory =>
          timeOutStates c fuel e x applyHistory false) e).2 = e.2 := by
      intro rs checkHistory
      induction rs with
      | nil => exact fun e => rfl
      | cons r rs ihrs =>
        intro e
        rw [List.foldl_cons, ihrs]
        unfold Region.timeOutStates
        split
        · rfl
        · exact ih e _ _
    exact hregions _ _ _

/-! ## The states entered -/

/-- The entry of `s` comes to `x`: the states to be chosen go from `s` down to `x`. -/
inductive Visits (c : Config H) : Plan S → S → S → Prop
  | refl {p : Plan S} {s : S} : Visits c p s s
  | region {p : Plan S} {s y x : S} {r : R} {h : Bool} : H.owner r = s →
      p.choose c r = (some y, h) → Visits c (.enter (p.pendingAt H r) y h) y x → Visits c p s x

theorem Visits.isBelow {c : Config H} {p : Plan S} {s x : S} (h : Visits c p s x) :
    Below H.toTree s x := by
  induction h with
  | refl => exact .refl
  | region howner hchoose _ ih =>
    subst howner
    exact UnderRegion.below_owner ⟨_, chooseState_region hchoose, ih⟩

/-- In region `r` the entry comes to `x`. -/
def VisitsIn (c : Config H) (p : Plan S) (r : R) (x : S) : Prop :=
  ∃ y h, p.choose c r = (some y, h) ∧ Visits c (.enter (p.pendingAt H r) y h) y x

theorem Visits.iff_region {c : Config H} {p : Plan S} {s x : S} :
    Visits c p s x ↔ x = s ∨ ∃ r, H.owner r = s ∧ VisitsIn c p r x := by
  constructor
  · intro h
    cases h with
    | refl => exact Or.inl rfl
    | region howner hchoose h => exact Or.inr ⟨_, howner, _, _, hchoose, h⟩
  · rintro (rfl | ⟨r, howner, y, h, hchoose, hy⟩)
    · exact .refl
    · exact .region howner hchoose hy

/-- What the pass from `s` on adds to the states asked, and leaves of the queue. -/
structure Asks (c : Config H) (e new : List S × List S) (s : S) (applyHistory : Bool) : Prop where
  states : ∀ x, x ∈ new.2 ↔ x ∈ e.2 ∨ Visits c (.enter e.1 s applyHistory) s x
  queue : new.1 = remaining e.1 s

theorem foldl_asks {c : Config H} {s : S} {p : Plan S} (hp : p.Fits H s)
    {f : List S × List S → S → Bool → List S × List S}
    (hf : ∀ (e : List S × List S) (x : S) (h : Bool) (r : R), H.region x = some r →
      H.owner r = s → Fits H x e.1 → Asks c e (f e x h) x h)
    (rs done : List R) (hregions : H.regions s = done ++ rs) (e : List S × List S)
    (hqueue : e.1 = p.pending H done) :
    let new := rs.foldl (Region.timeOutStates c p.applyHistory p.checkHistory f) e
    (∀ x, x ∈ new.2 ↔ x ∈ e.2 ∨ ∃ r ∈ rs, VisitsIn c p r x) ∧
      new.1 = p.pending H (H.regions s) := by
  -- The induction is on the regions still to visit; `done` is what has been taken off the list
  -- of states to enter.
  induction rs generalizing done e with
  | nil =>
    rw [List.append_nil] at hregions
    simp [hqueue, hregions]
  | cons r rs ih =>
    have howner : H.owner r = s :=
      H.mem_regions.mp (hregions ▸ List.mem_append_right _ List.mem_cons_self)
    have hat := pendingAt_eq p hregions
    have hturn : (∀ x, x ∈ (Region.timeOutStates c p.applyHistory p.checkHistory f e r).2 ↔
        x ∈ e.2 ∨ VisitsIn c p r x) ∧
        (Region.timeOutStates c p.applyHistory p.checkHistory f e r).1 = p.pending H (done ++ [r]) := by
      unfold VisitsIn Plan.choose
      rw [hat, ← hqueue]
      unfold Region.timeOutStates
      split
      · rename_i h hchoose
        rw [hchoose]
        rw [hqueue] at hchoose
        refine ⟨fun x => by simp, hqueue.trans (pending_of_none hp hchoose).symm⟩
      · rename_i y h hchoose
        rw [hchoose]
        rw [hqueue] at hchoose
        obtain ⟨hfits, hrest⟩ := pending_of_some hp howner hchoose
        rw [← hqueue] at hfits hrest
        have hdone := hf e y h r (chooseState_region hchoose) howner hfits
        refine ⟨fun x => ?_, hdone.queue.trans hrest.symm⟩
        rw [hdone.states x]
        apply or_congr_right
        constructor
        · exact fun hx => ⟨y, h, rfl, hx⟩
        · rintro ⟨_, _, ⟨⟩, hx⟩
          exact hx
    obtain ⟨hstates, hnext⟩ := ih (done ++ [r]) (by simp [hregions]) _ hturn.2
    refine ⟨fun x => ?_, hnext⟩
    rw [List.foldl_cons, hstates x, hturn.1 x, or_assoc]
    simp

theorem timeOutStates_asks (c : Config H) (fuel : Nat) (e : List S × List S) (s : S)
    (applyHistory : Bool) (hfuel : H.height < fuel + H.depth s) (hfits : Fits H s e.1) :
    Asks c e (timeOutStates c fuel e s applyHistory true) s applyHistory := by
  induction fuel generalizing e s applyHistory with
  | zero =>
    have hle := H.depth_le s
    omega
  | succ fuel ih =>
    obtain ⟨hstates, hqueue⟩ := foldl_asks (c := c) (hfits.enter applyHistory)
      (f := fun e x applyHistory => timeOutStates c fuel e x applyHistory true)
      (by
        intro e x h r hx hr hfits
        apply ih e x h _ hfits
        rw [H.depth_child hx, hr]
        omega)
      (H.regions s) [] rfl ((popState e.1 s applyHistory).1, e.2 ++ [s])
      (by
        unfold Plan.pending Plan.enter
        cases (popState e.1 s applyHistory).1 with
        | nil => rfl
        | cons d rest => simp)
    refine ⟨fun x => (hstates x).trans ?_, hqueue.trans (pending_regions hfits applyHistory)⟩
    rw [Visits.iff_region, List.mem_append, List.mem_singleton, or_assoc]
    simp only [H.mem_regions]

/-! ## A transition -/

/-- The states at which the pass before the entry asks the time-out guards. -/
def askedStates (c : Config H) (t : T) : List S :=
  (timeOutStates c (fuel H) ((entryAndExitPoints H t).statesToEnter, []) (firstToEnter H t)
    (H.setHistory t) (!(entryAndExitPoints H t).betweenParallelMachines)).2

/-- The states entered. -/
def enteredStates (c : Config H) (t : T) : List S :=
  (entryStates (fuel H) ⟨c, (entryAndExitPoints H t).statesToEnter, []⟩ (firstToEnter H t)
    (H.setHistory t) (!(entryAndExitPoints H t).betweenParallelMachines)).states

/-- The pass asks the time-out guards of the states entered, in their order. It works on
    the current states before the transition, and there is nothing it could do to them. -/
def DryRunMatches (c : Config H) (t : T) : Prop :=
  (askedStates c t).flatMap H.timeOutTransitions = (enteredStates c t).flatMap H.timeOutTransitions

/-- The states below the first one that the entry comes to. -/
def VisitsBelow (c : Config H) (t : T) (x : S) : Prop :=
  x ≠ firstToEnter H t ∧ Visits c
    (.enter (entryAndExitPoints H t).statesToEnter (firstToEnter H t) (H.setHistory t))
    (firstToEnter H t) x

/-- The calls of a transition between the action and the end are those of the two
    passes, and the current states are left by the second. -/
theorem perform_passes (env : Env S T) (m : Machine H × Set T) (t : T) :
    ∃ log, (perform H env m t).1.log =
        (enteredStates m.1.config t).foldl (performEntry H env)
          ((askedStates m.1.config t).foldl (evalTransitionsForTimeOut H env) log) ∧
      (perform H env m t).1.config =
        (entryStates (fuel H) ⟨m.1.config, (entryAndExitPoints H t).statesToEnter, []⟩
          (firstToEnter H t) (H.setHistory t)
          (!(entryAndExitPoints H t).betweenParallelMachines)).config := by
  obtain ⟨first, rest, hlist, -⟩ := entryAndExitPoints_entryPath (H := H) t
  have hfirst : firstToEnter H t = first := by rw [firstToEnter, hlist, List.headD_cons]
  unfold askedStates enteredStates
  rw [hfirst]
  simp only [perform, hlist]
  generalize performAction H _ t = log
  have hask := evalTimeOut_eq env m.1.config log (fuel H) (first :: rest, []) first
    (H.setHistory t) (!(entryAndExitPoints H t).betweenParallelMachines)
  simp only [askCalls, List.foldl_nil] at hask
  rw [hask]
  have henter := evalEntry_eq env ((timeOutStates m.1.config (fuel H) (first :: rest, []) first
    (H.setHistory t) (!(entryAndExitPoints H t).betweenParallelMachines)).2.foldl
      (evalTransitionsForTimeOut H env) log) (fuel H) ⟨m.1.config, first :: rest, []⟩ first
    (H.setHistory t) (!(entryAndExitPoints H t).betweenParallelMachines)
  simp only [entryCalls, List.foldl_nil] at henter
  rw [henter]
  exact ⟨log, rfl, rfl⟩

theorem mem_entryStates_below (c : Config H) (fuel : Nat) (statesToEnter : List S) (s x : S)
    (applyHistory : Bool) (hfuel : H.height < fuel + H.depth s) (hfits : Fits H s statesToEnter) :
    x ∈ (entryStates fuel ⟨c, statesToEnter, []⟩ s applyHistory false).states ↔
      x ≠ s ∧ Visits c (.enter statesToEnter s applyHistory) s x := by
  cases fuel with
  | zero =>
    have hle := H.depth_le s
    omega
  | succ fuel =>
    -- Entering the state touches no region below it, so the dry run sees them as the entry will.
    have hagree : ∀ r ∈ H.regions s, Agree r c (c.enter s) := by
      intro r hr q hq
      apply Config.enter_ne
      intro hs
      apply not_below_owner hs
      rw [← H.mem_regions.mp hr]
      rcases hq with rfl | hq
      · exact .refl
      · exact hq.below_owner
    have hsame := foldl_entryStates_same (c := c) fuel applyHistory
      (popState statesToEnter s applyHistory).2 (fun e x h r _ _ hx => entryStates_same c fuel e x h hx) (H.regions s)
      (fun r hr => H.mem_regions.mp hr) (H.regions_nodup s)
      ⟨c.enter s, (popState statesToEnter s applyHistory).1, []⟩ hagree
    obtain ⟨hstates, -⟩ := foldl_asks (c := c) (hfits.enter applyHistory)
      (f := fun e x applyHistory => timeOutStates c fuel e x applyHistory true)
      (by
        intro e x h r hx hr hfits
        apply timeOutStates_asks c fuel e x h _ hfits
        rw [H.depth_child hx, hr]
        omega)
      (H.regions s) [] rfl ((popState statesToEnter s applyHistory).1, [])
      (by
        unfold Plan.pending Plan.enter
        cases (popState statesToEnter s applyHistory).1 with
        | nil => rfl
        | cons d rest => simp)
    simp only [entryStates, Bool.false_eq_true, if_false]
    have hbelow : ∀ r, H.owner r = s →
        VisitsIn c (.enter statesToEnter s applyHistory) r x → x ≠ s := by
      rintro r howner ⟨y, h, hchoose, hx⟩ rfl
      apply not_below_owner (chooseState_region hchoose)
      rw [howner]
      exact hx.isBelow
    have hentered := congrArg Prod.snd hsame
    simp only at hentered
    rw [hentered, Visits.iff_region]
    refine (hstates x).trans ?_
    simp only [H.mem_regions, List.not_mem_nil, false_or]
    constructor
    · rintro ⟨r, howner, hx⟩
      exact ⟨hbelow r howner hx, Or.inr ⟨r, howner, hx⟩⟩
    · rintro ⟨hne, heq | hx⟩
      · exact absurd heq hne
      · exact hx

theorem statesToEnter_fits (t : T) :
    Fits H (firstToEnter H t) (entryAndExitPoints H t).statesToEnter := by
  obtain ⟨first, rest, hlist, hpath, -⟩ := entryAndExitPoints_entryPath (H := H) t
  rw [firstToEnter, hlist, List.headD_cons]
  exact Or.inr (Or.inl ⟨rest, rfl, hpath⟩)

omit [DecidableEq S] [DecidableEq R] in
theorem height_lt_fuel (s : S) : H.height < fuel H + H.depth s :=
  Nat.lt_add_right _ (Nat.lt_succ_self _)

theorem mem_enteredStates (c : Config H) {t : T} {x : S} (hx : x ≠ firstToEnter H t) :
    x ∈ enteredStates c t ↔ Visits c
      (.enter (entryAndExitPoints H t).statesToEnter (firstToEnter H t) (H.setHistory t))
      (firstToEnter H t) x := by
  unfold enteredStates
  cases (entryAndExitPoints H t).betweenParallelMachines with
  | false =>
    have hsame := congrArg Prod.snd (entryStates_same c (fuel H)
      ⟨c, (entryAndExitPoints H t).statesToEnter, []⟩ (firstToEnter H t) (H.setHistory t)
      fun _ _ => rfl)
    simp only at hsame
    rw [Bool.not_false, hsame, (timeOutStates_asks c (fuel H) (_, []) _ _ (height_lt_fuel _)
      (statesToEnter_fits t)).states x]
    simp
  | true =>
    rw [Bool.not_true, mem_entryStates_below c (fuel H) _ _ _ _ (height_lt_fuel _)
      (statesToEnter_fits t)]
    exact and_iff_right hx

/-- The pass over the time-outs matches the entry if and only if the transition is not
    between parallel machines, or no state entered below the first has time-outs. -/
theorem dry_run_iff (c : Config H) (t : T) :
    DryRunMatches c t ↔ (entryAndExitPoints H t).betweenParallelMachines = false ∨
      ∀ x, VisitsBelow c t x → H.timeOutTransitions x = [] := by
  unfold DryRunMatches askedStates enteredStates
  cases (entryAndExitPoints H t).betweenParallelMachines with
  | false =>
    have hsame := entryStates_same c (fuel H) ⟨c, (entryAndExitPoints H t).statesToEnter, []⟩
      (firstToEnter H t) (H.setHistory t) fun _ _ => rfl
    apply iff_of_true
    · rw [Bool.not_false, ← hsame]
    · exact Or.inl rfl
  | true =>
    rw [Bool.not_true, timeOutStates_quiet, List.flatMap_nil, eq_comm, List.flatMap_eq_nil_iff]
    simp only [mem_entryStates_below c (fuel H) _ _ _ _ (height_lt_fuel _) (statesToEnter_fits t),
      Bool.true_eq_false, false_or]
    exact Iff.rfl

/-! ## Between parallel machines -/

/-- The root 0 has the regions 0 with the states 1, initially, and 2, and 1 with 3; state
    3 has the region 2 with 4, and the transition 0 from it on is a time-out. Transition
    1 goes from 5, in the region 3 of state 1, to 4. -/
def parallel : Hierarchy (Fin 6) (Fin 4) (Fin 2) where
  root := 0
  region := ![none, some 0, some 0, some 1, some 2, some 3]
  owner := ![0, 0, 3, 1]
  depth := ![0, 1, 1, 1, 2, 2]
  region_root := rfl
  eq_root := by decide
  depth_child := by decide
  regions := ![[0, 1], [3], [], [2], [], []]
  initState := ![some 1, some 3, some 4, some 5]
  isDeepHistory := fun _ => false
  stateHasDs := fun _ => true
  defaultActionSet := fun _ => false
  outTransitions := ![[], [], [], [], [0], [1]]
  timeOutTransitions := ![[], [], [], [], [0], []]
  source := ![4, 5]
  target := ![4, 4]
  setHistory := fun _ => false
  transitionHasDs := fun _ => true
  height := 2
  mem_regions := by decide
  regions_nodup := by decide
  region_initState := by decide
  depth_le := by decide

/-- The transition enters state 4 with its time-out, and the pass before asks nothing. -/
theorem parallel_not_asked :
    (entryAndExitPoints parallel 1).betweenParallelMachines = true ∧
      askedStates (Config.initial parallel) 1 = [] ∧
      enteredStates (Config.initial parallel) 1 = [1, 5, 3, 4] ∧
      ¬ DryRunMatches (Config.initial parallel) 1 := by
  unfold DryRunMatches
  decide

end Arinc.DryRun
