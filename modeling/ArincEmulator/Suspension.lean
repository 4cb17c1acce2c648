import ArincEmulator.Lib.Runs
import ArincEmulator.Process
import ArincEmulator.Event
import Mathlib.Data.Fintype.Basic

/- `SUSPEND_SELF` of one aperiodic process against the `RESUME`s of others, one access
   to the shared data at a time. The process state, the suspension event and the end of
   the wait are three things that no lock holds together: a `RESUME` that has read the
   state may set the event long after the suspension it saw is over, and the event is
   not reset before the next one.

   Suspensions are counted, and every call of `RESUME` is known by the count when it was
   invoked and when it read the state. A wait may end its sleep at any time, as a
   condition variable lets it, so the broadcast of `SET_EVENT` needs no step.

   What is proved: while every event is set inside the suspension in which its `RESUME`
   was invoked, calls are paired (`suspensions_paired`); one that is set late ends the
   next suspension before it has begun to wait (`late_resume_ends_next`). -/
namespace Arinc.Suspension
open Runs

/-! ## The calls -/

/-- A call of `RESUME` that has set the event: the suspensions begun when it was invoked
    and when it found the process suspended by itself. -/
structure Setter where
  invoked : Nat
  found : Nat
  deriving DecidableEq, Repr

/-- Where `SUSPEND_SELF` is: before each of its two reads of the state, before the write
    of the state, before the test of the event and in the sleep of the wait, before the
    state is restored, and before the event is reset. `before` is the state at the call,
    `saved` the local `state`; at its end the wait has the setters of the event. -/
inductive Pc where
  | idle
  | checking (before : ProcessState)
  | saving (before : ProcessState)
  | suspending (before saved : ProcessState)
  | waiting (before saved : ProcessState)
  | sleeping (before saved : ProcessState)
  | restoring (before saved : ProcessState) (code : ReturnCode) (setters : List Setter)
  | resetting (before : ProcessState) (code : ReturnCode) (setters : List Setter)
  deriving DecidableEq, Repr

/-- Where `RESUME` is: before its first and its second read of the state, and past the
    second one: before the test and before the write of the event, or before the write
    of the state of a process that another one has suspended. -/
inductive Resumer where
  | idle
  | called (invoked : Nat)
  | checked (invoked : Nat)
  | found (setter : Setter)
  | setting (setter : Setter)
  | foundOther
  deriving DecidableEq, Repr

/-- A call of `SUSPEND_SELF` that has returned. -/
structure Returned where
  code : ReturnCode
  suspension : Nat
  setters : List Setter
  before : ProcessState
  after : ProcessState
  deriving DecidableEq, Repr

/-- The process with its suspension event, the callers of `RESUME`, the suspensions begun,
    the setters of the event since its last reset, and the calls returned, newest first. -/
structure State (U : Type*) where
  processState : ProcessState
  suspensionEvent : EventState
  pc : Pc
  resumers : U → Resumer
  suspensions : Nat
  setters : List Setter
  returned : List Returned

variable {U : Type*}

/-- No call is under way. -/
def start (U : Type*) (state : ProcessState) : State U :=
  ⟨state, .down, .idle, fun _ => .idle, 0, [], []⟩

/-- `SUSPEND_SELF` returns. -/
def State.answer (s : State U) (before : ProcessState) (code : ReturnCode)
    (setters : List Setter) : State U :=
  { s with
    pc := .idle
    returned := ⟨code, s.suspensions, setters, before, s.processState⟩ :: s.returned }

/-- The steps of the process, and those of the callers of `RESUME`. -/
inductive Op (U : Type*) where
  | suspendSelf (timeout : Int)
  | checkState
  | saveState
  | setSuspended
  | testEvent
  | wake
  | expire
  | restoreState
  | resetEvent
  | resume (u : U)
  | checkDormant (u : U)
  | readState (u : U)
  | testSet (u : U)
  | writeUp (u : U)
  | writeRunning (u : U)

variable [DecidableEq U]

/-- A caller of `RESUME` goes on. -/
def State.move (s : State U) (u : U) (r : Resumer) : State U :=
  { s with resumers := Function.update s.resumers u r }

/-- One step. -/
def step (s : State U) : Op U → Option (State U)
  | .suspendSelf timeout =>
    if s.pc = .idle then
      if timeout ≠ infiniteTimeValue ∧ maxTimeOut < timeout then
        some (s.answer s.processState .invalidParam [])
      else some { s with pc := .checking s.processState }
    else none
  | .checkState =>
    match s.pc with
    | .checking before =>
      if s.processState = .waitingSuspendedOther ∨ s.processState = .waitingSuspendedSelf then
        some (s.answer before .noAction [])
      else some { s with pc := .saving before }
    | _ => none
  | .saveState =>
    match s.pc with
    | .saving before => some { s with pc := .suspending before s.processState }
    | _ => none
  | .setSuspended =>
    match s.pc with
    | .suspending before saved =>
      some { s with
        processState := .waitingSuspendedSelf
        suspensions := s.suspensions + 1
        pc := .waiting before saved }
    | _ => none
  | .testEvent =>
    match s.pc with
    | .waiting before saved =>
      if s.suspensionEvent = .down then some { s with pc := .sleeping before saved }
      else some { s with pc := .restoring before saved .noError s.setters }
    | _ => none
  | .wake =>
    match s.pc with
    | .sleeping before saved => some { s with pc := .waiting before saved }
    | _ => none
  | .expire =>
    -- an infinite time-out too has an end, in `MAX_TIME_OUT`
    match s.pc with
    | .sleeping before saved => some { s with pc := .restoring before saved .timedOut s.setters }
    | _ => none
  | .restoreState =>
    match s.pc with
    | .restoring before saved code setters =>
      some { s with processState := saved, pc := .resetting before code setters }
    | _ => none
  | .resetEvent =>
    match s.pc with
    | .resetting before code setters =>
      some ({ s with suspensionEvent := .down, setters := [] }.answer before code setters)
    | _ => none
  | .resume u =>
    if s.resumers u = .idle then some (s.move u (.called s.suspensions)) else none
  | .checkDormant u =>
    match s.resumers u with
    | .called invoked =>
      some (s.move u (if s.processState = .dormant then .idle else .checked invoked))
    | _ => none
  | .readState u =>
    match s.resumers u with
    | .checked invoked =>
      some (s.move u
        (if s.processState = .waitingSuspendedOther then .foundOther
          else if s.processState = .waitingSuspendedSelf then .found ⟨invoked, s.suspensions⟩
          else .idle))
    | _ => none
  | .testSet u =>
    match s.resumers u with
    | .found setter =>
      some (s.move u (if s.suspensionEvent = .down then .setting setter else .idle))
    | _ => none
  | .writeUp u =>
    match s.resumers u with
    | .setting setter =>
      some { s.move u .idle with suspensionEvent := .up, setters := setter :: s.setters }
    | _ => none
  | .writeRunning u =>
    if s.resumers u = .foundOther then some { s.move u .idle with processState := .running }
    else none

/-! ## Suspensions and what ends them -/

/-- The setters can end suspension `n`: one was invoked when it had begun, and none found
    an earlier one. -/
def Ends (setters : List Setter) (n : Nat) : Prop :=
  (∃ w ∈ setters, n ≤ w.invoked) ∧ ∀ w ∈ setters, n ≤ w.found

instance (setters : List Setter) (n : Nat) : Decidable (Ends setters n) :=
  inferInstanceAs (Decidable (_ ∧ _))

/-- A call that answered `NO_ERROR` was ended by a `RESUME` of its suspension, and every
    call has left the state as it was. -/
structure Returned.Paired (r : Returned) : Prop where
  ended : r.code = .noError → Ends r.setters r.suspension
  restored : r.after = r.before

/-- A suspension is under way, up to the reset of its event. -/
def Pc.UnderWay : Pc → Prop
  | .waiting _ _ | .sleeping _ _ | .restoring _ _ _ _ | .resetting _ _ _ => True
  | _ => False

instance (pc : Pc) : Decidable pc.UnderWay :=
  match pc with
  | .waiting _ _ | .sleeping _ _ | .restoring _ _ _ _ | .resetting _ _ _ => isTrue trivial
  | .idle | .checking _ | .saving _ | .suspending _ _ => isFalse id

/-- The event is set inside the suspension in which its `RESUME` was invoked. -/
def Resumer.SetsInTime (r : Resumer) (pc : Pc) (suspensions : Nat) : Prop :=
  match r with
  | .setting setter => pc.UnderWay ∧ setter.invoked = suspensions
  | _ => True

instance (r : Resumer) (pc : Pc) (suspensions : Nat) : Decidable (r.SetsInTime pc suspensions) :=
  match r with
  | .setting _ => inferInstanceAs (Decidable (_ ∧ _))
  | .idle | .called _ | .checked _ | .found _ | .foundOther => isTrue trivial

/-- Every `RESUME` sets the event in time; and where it found the process suspended by
    another one, it does not write the state during a `SUSPEND_SELF`. -/
def InTime (s : State U) : Op U → Prop
  | .writeUp u => (s.resumers u).SetsInTime s.pc s.suspensions
  | .writeRunning _ => s.pc = .idle
  | _ => True

instance (s : State U) : ∀ op, Decidable (InTime s op)
  | .writeUp u => inferInstanceAs (Decidable ((s.resumers u).SetsInTime _ _))
  | .writeRunning _ => inferInstanceAs (Decidable (_ = _))
  | .suspendSelf _ | .checkState | .saveState | .setSuspended | .testEvent | .wake | .expire
  | .restoreState | .resetEvent | .resume _ | .checkDormant _ | .readState _ | .testSet _ =>
    isTrue trivial

/-! ## The invariant -/

/-- What the place of the process says about the state and the calls it was ended by. -/
def Pc.Ok (pc : Pc) (state : ProcessState) (suspensions : Nat) : Prop :=
  match pc with
  | .idle => True
  | .checking before | .saving before => state = before
  | .suspending before saved => state = before ∧ saved = before
  | .waiting before saved | .sleeping before saved => saved = before
  | .restoring before saved code setters =>
    saved = before ∧ (code = .noError → Ends setters suspensions)
  | .resetting before code setters =>
    state = before ∧ (code = .noError → Ends setters suspensions)

/-- The counts a caller of `RESUME` has seen are in order. -/
def Resumer.Ok (r : Resumer) (suspensions : Nat) : Prop :=
  match r with
  | .idle | .foundOther => True
  | .called invoked | .checked invoked => invoked ≤ suspensions
  | .found setter | .setting setter => setter.invoked ≤ setter.found ∧ setter.found ≤ suspensions

/-- Outside a suspension the event is down, and inside it was set by calls that belong to
    it. -/
structure Good (s : State U) : Prop where
  quiet : ¬ s.pc.UnderWay → s.suspensionEvent = .down ∧ s.setters = []
  set : s.suspensionEvent = .up → s.setters ≠ []
  setters : ∀ w ∈ s.setters, w.invoked = s.suspensions ∧ w.found = s.suspensions
  resumers : ∀ u, (s.resumers u).Ok s.suspensions
  place : s.pc.Ok s.processState s.suspensions
  returned : ∀ r ∈ s.returned, r.Paired

theorem Resumer.Ok.mono {r : Resumer} {n m : Nat} (h : r.Ok n) (hle : n ≤ m) : r.Ok m := by
  cases r with
  | idle => trivial
  | foundOther => trivial
  | called invoked => exact Nat.le_trans h hle
  | checked invoked => exact Nat.le_trans h hle
  | found setter => exact ⟨h.1, Nat.le_trans h.2 hle⟩
  | setting setter => exact ⟨h.1, Nat.le_trans h.2 hle⟩

omit [DecidableEq U] in
theorem start_good (state : ProcessState) : Good (start U state) where
  quiet := fun _ => ⟨rfl, rfl⟩
  set := nofun
  setters := nofun
  resumers := fun _ => trivial
  place := trivial
  returned := nofun

omit [DecidableEq U] in
/-- The event of a suspension that is up has been set by its own calls. -/
theorem Good.ends {s : State U} (hs : Good s) (hup : s.suspensionEvent = .up) :
    Ends s.setters s.suspensions := by
  obtain ⟨w, hw⟩ := List.exists_mem_of_ne_nil _ (hs.set hup)
  exact ⟨⟨w, hw, (hs.setters w hw).1.ge⟩, fun w hw => (hs.setters w hw).2.ge⟩

omit [DecidableEq U] in
theorem Good.goto {s : State U} (hs : Good s) {pc : Pc} (hway : s.pc.UnderWay → pc.UnderWay)
    (hplace : pc.Ok s.processState s.suspensions) : Good { s with pc := pc } where
  quiet := fun h => hs.quiet fun hpc => h (hway hpc)
  set := hs.set
  setters := hs.setters
  resumers := hs.resumers
  place := hplace
  returned := hs.returned

omit [DecidableEq U] in
theorem Good.answer {s : State U} (hs : Good s) {before : ProcessState} {code : ReturnCode}
    {setters : List Setter} (hdown : s.suspensionEvent = .down) (hnone : s.setters = [])
    (hstate : s.processState = before)
    (hends : code = .noError → Ends setters s.suspensions) :
    Good (s.answer before code setters) where
  quiet := fun _ => ⟨hdown, hnone⟩
  set := hs.set
  setters := hs.setters
  resumers := hs.resumers
  place := trivial
  returned := fun r hr => by
    rcases List.mem_cons.mp hr with rfl | hr
    · exact ⟨hends, hstate⟩
    · exact hs.returned r hr

theorem Good.move {s : State U} (hs : Good s) {u : U} {r : Resumer} (hr : r.Ok s.suspensions) :
    Good (s.move u r) where
  quiet := hs.quiet
  set := hs.set
  setters := hs.setters
  resumers := fun v => by
    by_cases hvu : v = u
    · subst hvu
      simp only [State.move, Function.update_self]
      exact hr
    · simp only [State.move, Function.update_of_ne hvu]
      exact hs.resumers v
  place := hs.place
  returned := hs.returned

theorem step_good {s s' : State U} {op : Op U} (hs : Good s) (hop : InTime s op)
    (h : step s op = some s') : Good s' := by
  have hplace := hs.place
  cases op with
  | suspendSelf timeout =>
    simp only [step] at h
    split at h
    · rename_i hidle
      have hquiet := hs.quiet (by simp [hidle, Pc.UnderWay])
      split at h
      · obtain rfl := Option.some.inj h
        exact hs.answer hquiet.1 hquiet.2 rfl nofun
      · obtain rfl := Option.some.inj h
        exact hs.goto (by simp [hidle, Pc.UnderWay]) rfl
    · cases h
  | checkState =>
    simp only [step] at h
    split at h
    · rename_i before hpc
      rw [hpc] at hplace
      split at h
      · obtain rfl := Option.some.inj h
        have hquiet := hs.quiet (by simp [hpc, Pc.UnderWay])
        exact hs.answer hquiet.1 hquiet.2 hplace nofun
      · obtain rfl := Option.some.inj h
        exact hs.goto (by simp [hpc, Pc.UnderWay]) hplace
    · cases h
  | saveState =>
    simp only [step] at h
    split at h
    · rename_i before hpc
      rw [hpc] at hplace
      obtain rfl := Option.some.inj h
      exact hs.goto (by simp [hpc, Pc.UnderWay]) ⟨hplace, hplace⟩
    · cases h
  | setSuspended =>
    simp only [step] at h
    split at h
    · rename_i before saved hpc
      rw [hpc] at hplace
      obtain rfl := Option.some.inj h
      have hquiet := hs.quiet (by simp [hpc, Pc.UnderWay])
      refine ⟨fun hway => absurd trivial hway, hs.set, ?_, ?_, hplace.2, hs.returned⟩
      · simp [hquiet.2]
      · exact fun u => (hs.resumers u).mono (Nat.le_succ _)
    · cases h
  | testEvent =>
    simp only [step] at h
    split at h
    · rename_i before saved hpc
      rw [hpc] at hplace
      split at h
      · obtain rfl := Option.some.inj h
        exact hs.goto (fun _ => trivial) hplace
      · rename_i hdown
        obtain rfl := Option.some.inj h
        have hup : s.suspensionEvent = .up := by
          cases hevent : s.suspensionEvent with
          | down => exact absurd hevent hdown
          | up => rfl
        exact hs.goto (fun _ => trivial) ⟨hplace, fun _ => hs.ends hup⟩
    · cases h
  | wake =>
    simp only [step] at h
    split at h
    · rename_i before saved hpc
      rw [hpc] at hplace
      obtain rfl := Option.some.inj h
      exact hs.goto (fun _ => trivial) hplace
    · cases h
  | expire =>
    simp only [step] at h
    split at h
    · rename_i before saved hpc
      rw [hpc] at hplace
      obtain rfl := Option.some.inj h
      exact hs.goto (fun _ => trivial) ⟨hplace, nofun⟩
    · cases h
  | restoreState =>
    simp only [step] at h
    split at h
    · rename_i before saved code setters hpc
      rw [hpc] at hplace
      obtain rfl := Option.some.inj h
      exact ⟨fun hway => absurd trivial hway, hs.set, hs.setters, hs.resumers, hplace, hs.returned⟩
    · cases h
  | resetEvent =>
    simp only [step] at h
    split at h
    · rename_i before code setters hpc
      rw [hpc] at hplace
      obtain rfl := Option.some.inj h
      have hreset : Good { s with suspensionEvent := .down, setters := [] } :=
        ⟨fun _ => ⟨rfl, rfl⟩, nofun, nofun, hs.resumers, hs.place, hs.returned⟩
      exact hreset.answer rfl rfl hplace.1 hplace.2
    · cases h
  | resume u =>
    simp only [step, Option.ite_none_right_eq_some, Option.some.injEq] at h
    obtain ⟨-, rfl⟩ := h
    exact hs.move (Nat.le_refl _)
  | checkDormant u =>
    have hu := hs.resumers u
    simp only [step] at h
    split at h
    · rename_i invoked hcalled
      rw [hcalled] at hu
      obtain rfl := Option.some.inj h
      apply hs.move
      split
      · trivial
      · exact hu
    · cases h
  | readState u =>
    have hu := hs.resumers u
    simp only [step] at h
    split at h
    · rename_i invoked hchecked
      rw [hchecked] at hu
      obtain rfl := Option.some.inj h
      apply hs.move
      split
      · trivial
      · split
        · exact ⟨hu, Nat.le_refl _⟩
        · trivial
    · cases h
  | testSet u =>
    have hu := hs.resumers u
    simp only [step] at h
    split at h
    · rename_i setter hfound
      rw [hfound] at hu
      obtain rfl := Option.some.inj h
      apply hs.move
      split
      · exact hu
      · trivial
    · cases h
  | writeUp u =>
    have hu := hs.resumers u
    simp only [step] at h
    split at h
    · rename_i setter hsetting
      rw [hsetting] at hu
      simp only [InTime, hsetting, Resumer.SetsInTime] at hop
      obtain rfl := Option.some.inj h
      have hmove := hs.move (u := u) (r := .idle) trivial
      refine ⟨fun hway => absurd hop.1 hway, fun _ => List.cons_ne_nil _ _, ?_, hmove.resumers,
        hs.place, hs.returned⟩
      intro w hw
      rcases List.mem_cons.mp hw with rfl | hw
      · -- found between its call and now
        refine ⟨hop.2, Nat.le_antisymm hu.2 ?_⟩
        exact hop.2.symm.trans_le hu.1
      · exact hs.setters w hw
    · cases h
  | writeRunning u =>
    simp only [step, Option.ite_none_right_eq_some, Option.some.injEq] at h
    obtain ⟨-, rfl⟩ := h
    have hmove := hs.move (u := u) (r := .idle) trivial
    refine ⟨hs.quiet, hs.set, hs.setters, hmove.resumers, ?_, hs.returned⟩
    have hidle : s.pc = .idle := hop
    rw [State.move, hidle]
    trivial

/-- In every run in which each event is set inside the suspension in which its `RESUME`
    was invoked, and no `RESUME` writes the state during a `SUSPEND_SELF`, every call of
    `SUSPEND_SELF` that has returned is paired. -/
theorem suspensions_paired (state : ProcessState) (ops : List (Op U)) (s : State U)
    (hops : Meets step InTime (start U state) ops) (h : run step (start U state) ops = some s) :
    ∀ r ∈ s.returned, r.Paired :=
  (run_invariant_of_meets (fun _ _ _ => step_good) (start_good state) hops h).returned

/-- One suspension, resumed. -/
def resumed : List (Op (Fin 1)) :=
  [.suspendSelf 5, .checkState, .saveState, .setSuspended, .testEvent, .resume 0,
   .checkDormant 0, .readState 0, .testSet 0, .writeUp 0, .wake, .testEvent, .restoreState,
   .resetEvent]

/-- The process suspends itself again after it, and is resumed again. -/
theorem suspensions_paired_resumed :
    ∃ s, run step (start (Fin 1) .running) (resumed ++ resumed) = some s ∧
      s.returned.length = 2 ∧ ∀ r ∈ s.returned, r.Paired :=
  ⟨_, rfl, rfl, suspensions_paired .running (resumed ++ resumed) _ (by decide) rfl⟩

/-- A `RESUME` finds the process suspended; the suspension times out and its event is
    reset; then the `RESUME` sets the event, and the process suspends itself again. -/
def lateResume : List (Op (Fin 1)) :=
  [.suspendSelf 5, .checkState, .saveState, .setSuspended, .testEvent, .resume 0,
   .checkDormant 0, .readState 0, .expire, .restoreState, .resetEvent, .testSet 0, .writeUp 0,
   .suspendSelf 5, .checkState, .saveState, .setSuspended, .testEvent, .restoreState,
   .resetEvent]

/-- The second suspension is over at once, ended by the `RESUME` of the first one. -/
theorem late_resume_ends_next :
    ∃ s, run step (start (Fin 1) .running) lateResume = some s ∧
      s.returned.head? = some ⟨.noError, 2, [⟨1, 1⟩], .running, .running⟩ ∧
      ¬ ∀ r ∈ s.returned, r.Paired := by
  refine ⟨_, rfl, rfl, fun h => ?_⟩
  have hends := (h _ List.mem_cons_self).ended rfl
  revert hends
  decide

end Arinc.Suspension
