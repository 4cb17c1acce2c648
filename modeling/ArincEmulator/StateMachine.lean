import ArincEmulator.Lib.AndOrTree
import ArincEmulator.Lib.Numerals
import Mathlib.Data.Set.Insert

/- The hierarchical state machine (`STATEMACHINE`): states with ordered regions,
   regions with an initial and a current state, transitions with the points they
   leave and enter at. What the machine does is a sequence of calls on its data
   source; what the data source answers is an environment that has seen all calls
   before (`Env`). The recursions go down a tree and carry its height as fuel. -/
namespace Arinc.StateMachine
open AndOrTree

/-- The machine as it has been built. `regions` is `m_setOrderedRegions` in its
    order, which holds the regions of a state as their priorities are distinct;
    `outTransitions` and `timeOutTransitions` are the ordered sets of a state. -/
structure Hierarchy (S R T : Type) extends Tree S R where
  regions : S → List R
  initState : R → Option S
  isDeepHistory : R → Bool
  stateHasDs : S → Bool
  defaultActionSet : S → Bool
  outTransitions : S → List T
  timeOutTransitions : S → List T
  source : T → S
  target : T → S
  setHistory : T → Bool
  transitionHasDs : T → Bool
  height : Nat
  mem_regions : ∀ {r s}, r ∈ regions s ↔ owner r = s
  regions_nodup : ∀ s, (regions s).Nodup
  region_initState : ∀ {r s}, initState r = some s → region s = some r
  depth_le : ∀ s, depth s ≤ height

/-- The calls on the data source. -/
inductive Callback (S T : Type) where
  | entry (s : S)
  | exit (s : S)
  | during (s : S)
  | event (t : T)
  | guard (t : T)
  | action (t : T)
  | defaultAction (s : S)
  | resetOutputEvents
  | applyAndResetInputEvents
  | setCurrentTime
  | evaluateTimeOuts
  | applyAndResetInternalEvents
  | isCurrentEventSet
  | getTimeOutTransitions
  | clearTimeOutCalls (ids : Set T)
  | resetInputEvents
  | resetInternalEvents

/-- What the data source answers to the newest of the calls made, newest first. -/
abbrev Env (S T : Type) := List (Callback S T) → Bool

variable {S R T : Type}

/-- `m_currentState` of every region: always one of the region's own states. -/
@[ext]
structure Config (H : Hierarchy S R T) where
  currentState : R → Option S
  proper : Proper H.toTree currentState

namespace Config
variable {H : Hierarchy S R T}

/-- `Region::addState` has made the initial states current. -/
def initial (H : Hierarchy S R T) : Config H := ⟨H.initState, fun _ _ => H.region_initState⟩

/-- `Region::setCurrentState`: a state of another region is refused. -/
def setCurrentState [DecidableEq R] (c : Config H) (r : R) (s : S) : Config H :=
  if h : H.region s = some r then
    { currentState := fun q => if q = r then some s else c.currentState q
      proper := by
        intro q x hq
        simp only at hq
        split at hq
        · rename_i hqr
          obtain rfl := Option.some.inj hq
          rw [h, hqr]
        · exact c.proper q x hq }
  else c

theorem setCurrentState_self [DecidableEq R] (c : Config H) {r : R} {s : S}
    (h : H.region s = some r) : (c.setCurrentState r s).currentState r = some s := by
  simp [setCurrentState, h]

theorem setCurrentState_ne [DecidableEq R] (c : Config H) {r q : R} (s : S) (h : q ≠ r) :
    (c.setCurrentState r s).currentState q = c.currentState q := by
  unfold setCurrentState
  split
  · exact if_neg h
  · rfl

/-- A state made the current one of its region, if it has one. -/
def enter [DecidableEq R] (c : Config H) (s : S) : Config H :=
  match H.region s with
  | none => c
  | some r => c.setCurrentState r s

theorem enter_self [DecidableEq R] (c : Config H) {r : R} {s : S} (h : H.region s = some r) :
    (c.enter s).currentState r = some s := by
  rw [enter, h]
  exact c.setCurrentState_self h

theorem enter_ne [DecidableEq R] (c : Config H) {q : R} {s : S} (h : H.region s ≠ some q) :
    (c.enter s).currentState q = c.currentState q := by
  unfold enter
  split
  · rfl
  · rename_i r hr
    apply c.setCurrentState_ne
    rintro rfl
    exact h hr

/-- The active configuration. -/
def Active (c : Config H) : S → Prop := AndOrTree.Active H.toTree c.currentState

end Config

section
variable (H : Hierarchy S R T)

/-! ## Exit -/

/-- What `EvalExit` works on: the calls made, newest first, and `setTimeOutTransIDs`, the
    time-out transitions of the states left. -/
structure Exiting (S T : Type) where
  log : List (Callback S T)
  timeOuts : Set T

/-- `State::performExit`. -/
def performExit (log : List (Callback S T)) (s : S) : List (Callback S T) :=
  if H.stateHasDs s then .exit s :: log else log

variable {H} in
/-- `Region::EvalExit`, given `EvalExit` of a state. -/
def Region.evalExit (c : Config H) (state : Exiting S T → S → Exiting S T) (e : Exiting S T)
    (r : R) : Exiting S T :=
  match c.currentState r with
  | none => e
  | some x => state e x

/-- `State::EvalExit`. -/
def evalExit (c : Config H) : Nat → Exiting S T → S → Bool → Exiting S T
  | 0, e, _, _ => e
  | fuel + 1, e, s, doExit =>
    let e := (H.regions s).foldl (Region.evalExit c fun e x => evalExit c fuel e x true) e
    if doExit then
      ⟨performExit H e.log s, e.timeOuts ∪ {t | t ∈ H.timeOutTransitions s}⟩
    else e

/-! ## Entry -/

/-- `Transition::checkGuard`. -/
def checkGuard (env : Env S T) (log : List (Callback S T)) (t : T) : List (Callback S T) × Bool :=
  if H.transitionHasDs t then (.guard t :: log, env (.guard t :: log)) else (log, true)

/-- `Transition::checkEvent`. -/
def checkEvent (env : Env S T) (log : List (Callback S T)) (t : T) : List (Callback S T) × Bool :=
  if H.transitionHasDs t then (.event t :: log, env (.event t :: log)) else (log, true)

/-- `State::EvalTransitionsForTimeOut` without the during action, which no caller
    asks for: the guards are asked and their answers dropped. -/
def evalTransitionsForTimeOut (env : Env S T) (log : List (Callback S T)) (s : S) :
    List (Callback S T) :=
  (H.timeOutTransitions s).foldl (fun log t => (checkGuard H env log t).1) log

/-- `State::performEntry`. -/
def performEntry (env : Env S T) (log : List (Callback S T)) (s : S) : List (Callback S T) :=
  if H.stateHasDs s then .entry s :: evalTransitionsForTimeOut H env log s else log

/-- What an entry works on: the current states, the states still to enter, the
    calls made. -/
structure Entering where
  config : Config H
  statesToEnter : List S
  log : List (Callback S T)

variable [DecidableEq S] [DecidableEq R]

/-- The first lines of `Region::EvalEntry` and `Region::EvalTimeOut`: the state to
    enter, and whether history goes on below it. -/
def chooseState (c : Config H) (statesToEnter : List S) (r : R)
    (applyHistory checkHistory : Bool) : Option S × Bool :=
  match statesToEnter with
  | [] =>
    (if applyHistory then c.currentState r else H.initState r,
      applyHistory && !(checkHistory && !H.isDeepHistory r))
  | s :: _ => (if H.region s = some r then some s else H.initState r, applyHistory)

/-- The state at the front of the queue is popped as it is entered; at the last one
    history is to be checked. -/
def popState (statesToEnter : List S) (s : S) (applyHistory : Bool) : List S × Bool :=
  match statesToEnter with
  | [] => ([], false)
  | x :: rest => if x = s then (rest, rest.isEmpty && applyHistory) else (x :: rest, false)

variable {H} in
/-- `Region::EvalTimeOut`, given `EvalTimeOut` of a state. -/
def Region.evalTimeOut (c : Config H) (applyHistory checkHistory : Bool)
    (state : List S × List (Callback S T) → S → Bool → List S × List (Callback S T))
    (e : List S × List (Callback S T)) (r : R) : List S × List (Callback S T) :=
  match chooseState H c e.1 r applyHistory checkHistory with
  | (none, _) => e
  | (some x, applyHistory) => state e x applyHistory

/-- `State::EvalTimeOut`. -/
def evalTimeOut (env : Env S T) (c : Config H) :
    Nat → List S × List (Callback S T) → S → Bool → Bool → List S × List (Callback S T)
  | 0, e, _, _, _ => e
  | fuel + 1, e, s, applyHistory, doEntry =>
    let log := if doEntry then evalTransitionsForTimeOut H env e.2 s else e.2
    let (statesToEnter, checkHistory) := popState e.1 s applyHistory
    (H.regions s).foldl (Region.evalTimeOut c applyHistory checkHistory fun e x applyHistory =>
      evalTimeOut env c fuel e x applyHistory doEntry) (statesToEnter, log)

variable {H} in
/-- `Region::EvalEntry`, given `EvalEntry` of a state. -/
def Region.evalEntry (applyHistory checkHistory : Bool)
    (state : Entering H → S → Bool → Entering H) (e : Entering H) (r : R) : Entering H :=
  match chooseState H e.config e.statesToEnter r applyHistory checkHistory with
  | (none, _) => e
  | (some x, applyHistory) => state { e with config := e.config.setCurrentState r x } x applyHistory

/-- `State::EvalEntry`. -/
def evalEntry (env : Env S T) : Nat → Entering H → S → Bool → Bool → Entering H
  | 0, e, _, _, _ => e
  | fuel + 1, e, s, applyHistory, doEntry =>
    let log := if doEntry then performEntry H env e.log s else e.log
    let (statesToEnter, checkHistory) := popState e.statesToEnter s applyHistory
    (H.regions s).foldl (Region.evalEntry applyHistory checkHistory fun e x applyHistory =>
      evalEntry env fuel e x applyHistory true) ⟨e.config.enter s, statesToEnter, log⟩

/-! ## Transitions -/

/-- `State::computePathToRoot`: the states above `s`, the root first. -/
def statePathToRoot : Nat → S → List S
  | 0, _ => []
  | fuel + 1, s =>
    match H.region s with
    | none => []
    | some r => statePathToRoot fuel (H.owner r) ++ [H.owner r]

/-- `m_StatePathToRoot`. -/
def pathToRoot (s : S) : List S := statePathToRoot H (H.depth s) s

omit [DecidableEq S] [DecidableEq R] in
theorem pathToRoot_child {s : S} {r : R} (h : H.region s = some r) :
    pathToRoot H s = pathToRoot H (H.owner r) ++ [H.owner r] := by
  simp only [pathToRoot, H.depth_child h, statePathToRoot, h]

/-- `m_StateToExit`, `m_StatesToEnter` and `m_TransitionBetweenParallelMachines`. -/
structure Points (S : Type) where
  stateToExit : S
  statesToEnter : List S
  betweenParallelMachines : Bool
  deriving DecidableEq, Repr

/-- The loop of `computeEntryAndExitPoints` along both paths; `last` is the state
    they have in common so far. -/
def divergence (t : T) : S → List S → List S → Points S
  | last, a :: as, b :: bs =>
    if a = b then divergence t a as bs
    else if H.region a ≠ H.region b then ⟨last, last :: b :: bs ++ [H.target t], true⟩
    else ⟨a, b :: bs ++ [H.target t], false⟩
  | _, [], bs => ⟨H.source t, bs ++ [H.target t], false⟩
  | _, _ :: _, [] => ⟨H.source t, [H.target t], false⟩

/-- `Transition::computeEntryAndExitPoints`. -/
def entryAndExitPoints (t : T) : Points S :=
  divergence H t H.root (pathToRoot H (H.source t)) (pathToRoot H (H.target t))

/-- The first transition whose event is there and whose guard holds. -/
def firstActive (env : Env S T) : List (Callback S T) → List T → List (Callback S T) × Option T
  | log, [] => (log, none)
  | log, t :: ts =>
    let (log, there) := checkEvent H env log t
    if there then
      let (log, holds) := checkGuard H env log t
      if holds then (log, some t) else firstActive env log ts
    else firstActive env log ts

/-- What the search for transitions works on: the calls made, the transitions
    found, and the state whose default action is to be done. -/
structure Searching (S T : Type) where
  log : List (Callback S T)
  activeTransitions : List T
  defaultState : Option S

variable {H} in
/-- A round of the loop of `State::EvalTransitions` over the regions, given
    `EvalTransitions` of a state; beside the search, whether a default action is
    still looked for. -/
def Region.evalTransitions (c : Config H)
    (state : Searching S T → S → Bool → Searching S T)
    (e : Searching S T × Bool) (r : R) : Searching S T × Bool :=
  match c.currentState r with
  | none => e
  | some x =>
    let inner := state e.1 x e.2
    (inner, e.2 && inner.defaultState.isNone)

/-- `State::EvalTransitions`. In the loop `defaultState` is the local `defActionID`. -/
def evalTransitions (env : Env S T) (c : Config H) :
    Nat → Searching S T → S → Bool → Searching S T
  | 0, e, _, _ => e
  | fuel + 1, e, s, lookForDefault =>
    let log := if H.stateHasDs s then .during s :: e.log else e.log
    match firstActive H env log (H.outTransitions s) with
    | (log, some t) => ⟨log, e.activeTransitions ++ [t], e.defaultState⟩
    | (log, none) =>
      let defaultState := if lookForDefault && H.defaultActionSet s then some s else e.defaultState
      let inner := ((H.regions s).foldl (Region.evalTransitions c fun e x lookForDefault =>
        evalTransitions env c fuel e x lookForDefault)
        (⟨log, e.activeTransitions, none⟩, lookForDefault)).1
      { inner with
        defaultState := if inner.activeTransitions.isEmpty then inner.defaultState
          else defaultState }

/-! ## Steps -/

/-- The current states, the calls made so far, and the calls of each transition
    performed, newest first. -/
structure Machine where
  config : Config H
  log : List (Callback S T)
  transitions : List (List (Callback S T))

/-- The machine as built, before its start. -/
def build : Machine H := ⟨Config.initial H, [], []⟩

/-- Enough for the recursions from any state. -/
def fuel : Nat := H.height + 1

/-- `Transition::performAction`. -/
def performAction (log : List (Callback S T)) (t : T) : List (Callback S T) :=
  if H.transitionHasDs t then .action t :: log else log

/-- One round of the loop over the transitions found: exit, action, time-outs,
    entry. -/
def perform (env : Env S T) (m : Machine H × Set T) (t : T) : Machine H × Set T :=
  let points := entryAndExitPoints H t
  let left := evalExit H m.1.config (fuel H) ⟨m.1.log, m.2⟩ points.stateToExit
    (!points.betweenParallelMachines)
  match points.statesToEnter with
  | [] => ({ m.1 with log := left.log }, left.timeOuts)
  | first :: _ =>
    let log := performAction H left.log t
    let (_, log) := evalTimeOut H env m.1.config (fuel H) (points.statesToEnter, log) first
      (H.setHistory t) (!points.betweenParallelMachines)
    let entered := evalEntry H env (fuel H) ⟨m.1.config, points.statesToEnter, log⟩ first
      (H.setHistory t) (!points.betweenParallelMachines)
    (⟨entered.config, entered.log,
      entered.log.take (entered.log.length - m.1.log.length) :: m.1.transitions⟩, left.timeOuts)

/-- The transitions the search finds. -/
def search (env : Env S T) (m : Machine H) : Searching S T :=
  evalTransitions H env m.config (fuel H) ⟨m.log, [], none⟩ H.root true

/-- One round of the loop of `step`, and whether another one follows. -/
def round (env : Env S T) (m : Machine H) : Machine H × Bool :=
  let found := search H env m
  match found.activeTransitions with
  | [] =>
    match found.defaultState with
    | none => ({ m with log := found.log }, false)
    | some s => ({ m with log := .defaultAction s :: found.log }, false)
  | t :: ts =>
    let (m, timeOuts) := (t :: ts).foldl (perform H env) ({ m with log := found.log }, ∅)
    let log := .isCurrentEventSet :: .applyAndResetInternalEvents :: .resetInputEvents ::
      .evaluateTimeOuts :: .clearTimeOutCalls timeOuts :: m.log
    ({ m with log := log }, env log)

/-- The loop of `step`. It ends when no event is left; `rounds` bounds how far it is
    followed, and the state reached is the one after that many rounds. -/
def loop (env : Env S T) : Nat → Machine H → Machine H
  | 0, m => m
  | rounds + 1, m =>
    match round H env m with
    | (m, false) => { m with log := .resetInternalEvents :: .resetInputEvents :: m.log }
    | (m, true) => loop env rounds m

/-- `StateMachine::step`, its loop followed for a number of rounds. -/
def step (env : Env S T) (rounds : Nat) (m : Machine H) : Machine H :=
  loop H env rounds { m with
    log := .getTimeOutTransitions :: .setCurrentTime :: .applyAndResetInputEvents ::
      .resetOutputEvents :: m.log }

/-- `StateMachine::start`: `step` with its first branch taken. -/
def start (env : Env S T) (rounds : Nat) : Machine H :=
  let m := build H
  let log := .setCurrentTime :: .applyAndResetInputEvents :: .resetOutputEvents :: m.log
  let (_, log) := evalTimeOut H env m.config (fuel H) ([], log) H.root false true
  let entered := evalEntry H env (fuel H) ⟨m.config, [], .evaluateTimeOuts :: log⟩ H.root false true
  let log := .isCurrentEventSet :: .applyAndResetInternalEvents :: entered.log
  if env log then loop H env rounds ⟨entered.config, .getTimeOutTransitions :: log, []⟩
  else ⟨entered.config, log, []⟩

end

end Arinc.StateMachine
