import Mathlib.Data.Fintype.Basic
import ArincEmulator.Event
import ArincEmulator.ProcessTable

/- `APEX_HELPER_START_PROCESS_AND_WAIT_FOR_RESPONSE` on an aperiodic process of a
   `NORMAL` partition: the callers, the process's own thread and the partition
   scheduler, between them the state of the process and its response blackboard.
   `START` tests for `DORMANT`, clears the blackboard and writes `READY`; the
   caller then reads the blackboard as soon as something is on it. A job that is
   over writes `DORMANT` first and notifies afterwards, and a scheduler that has
   found a hard deadline missed stops the process first and notifies afterwards,
   so `START` can be accepted between the two.

   Every read and write of the state and every step on the blackboard is a step of
   its own. A response is known by the activation whose end it reports. The call
   waits with `INFINITE_TIME_VALUE`, so that no time-out ends its wait.

   What is proved, for any number of callers and calls: while `START` is accepted
   only when nobody is still to notify or to read (`Quiet`), and a notification
   does not clear a response that a call is about to read, every call that
   returns `NO_ERROR` returns the response of the activation it started
   (`responses_belong`). -/
namespace Arinc.Response
open Runs ProcessTable

/-! ## The blackboard -/

/-- Who acts on the process. -/
inductive Agent (T : Type*) where
  | caller (t : T)
  | thread
  | scheduler
  deriving DecidableEq, Repr

/-- What is left to do for the holder of `BLACKBOARD_MUTEX`: in `ERASE_BLACKBOARD`,
    past the `memset`, the event and the size; in `WRITE_ON_BLACKBOARD`, past the
    `memcpy`, the size and the event. -/
inductive BoardStep where
  | resetEvent
  | eraseSize
  | writeSize
  | setEvent
  deriving DecidableEq, Repr

/-- The response blackboard: the activation its payload is about (`none` for one
    that was erased), whether `CURRENT_MESSAGE_SIZE` is not 0, its event, and the
    holder of its mutex. -/
structure Board (T : Type*) where
  payload : Option Nat
  occupied : Bool
  eventState : EventState
  holder : Option (Agent T × BoardStep)

namespace Board

variable {T : Type*} [DecidableEq T]

/-- `ERASE_BLACKBOARD` up to the `memset`. -/
def beginErase (b : Board T) (x : Agent T) : Option (Board T) :=
  if b.holder = none then some { b with payload := none, holder := some (x, .resetEvent) }
  else none

/-- `WRITE_ON_BLACKBOARD` up to the `memcpy`. -/
def beginWrite (b : Board T) (x : Agent T) (activation : Nat) : Option (Board T) :=
  if b.holder = none then
    some { b with payload := some activation, holder := some (x, .writeSize) }
  else none

/-- The next step of the holder. -/
def advance (b : Board T) (x : Agent T) : Option (Board T) :=
  match b.holder with
  | none => none
  | some (y, boardStep) =>
    if x = y then
      match boardStep with
      | .resetEvent => some { b with eventState := .down, holder := some (x, .eraseSize) }
      | .eraseSize => some { b with occupied := false, holder := none }
      | .writeSize => some { b with occupied := true, holder := some (x, .setEvent) }
      | .setEvent => some { b with eventState := .up, holder := none }
    else none

/-- The thread is gone: its locks are unwound. -/
def unwind (b : Board T) (x : Agent T) : Board T :=
  if b.holder.map Prod.fst = some x then { b with holder := none } else b

end Board

/-! ## The parties -/

/-- Where an agent is in `DISPLAY_BLACKBOARD`: before and in the erasing, before and
    in the writing. -/
inductive DisplayPc where
  | clear
  | erasing
  | write
  | writing
  deriving DecidableEq, Repr

/-- Where a call is: in `START` before and in `CLEAR_BLACKBOARD`, before the state is
    written, before the descriptor is; past `START`; at the wait on the event; and
    past it. -/
inductive CallStep where
  | clear
  | erasing
  | readying
  | releasing
  | started
  | waiting
  | reading
  deriving DecidableEq, Repr

/-- Where the scheduler is with this process: nowhere, in a release, or in `stop`,
    `restart` and the notification for a hard deadline missed. -/
inductive SchedulerPc where
  | idle
  | readying
  | starting
  | settingRunning
  | posting
  | stopping
  | restarting
  | cancelling
  | joining
  | resetting
  | creating
  | notifying (d : DisplayPc)
  deriving DecidableEq, Repr

/-- What a call that returned `NO_ERROR` had started and has read; `none` stands for
    a length of 0, `some none` for a payload that was erased. -/
structure Outcome where
  activation : Nat
  response : Option (Option Nat)
  deriving DecidableEq, Repr

/-- The process, its blackboard and the parties. `activation` numbers the starts
    accepted, `job` is the activation the thread runs or reports and `verdict` the
    one the scheduler has found too late; a call carries the activation it has
    started. -/
structure System (T : Type*) where
  process : Process
  activation : Nat
  job : Nat
  display : DisplayPc
  cancelPending : Bool
  scheduler : SchedulerPc
  verdict : Nat
  nextSchedulingInstance : SchedulingInstance
  board : Board T
  delayedStartMutex : Option T
  calls : T → Option (Nat × CallStep)
  log : List Outcome

/-- A process as `CREATE_PROCESS` leaves it. -/
def create {T : Type*} : System T :=
  ⟨Process.create, 0, 0, .clear, false, .idle, 0, .releaseProcess, ⟨none, false, .down, none⟩, none,
    fun _ => none, []⟩

/-- The steps. `finished` carries whether the caller's buffer passes the check of
    `GET_PROCESS_FINISHED_STATUS`; `clear`, `write` and `advance` are an agent's
    steps on the blackboard. -/
inductive Op (T : Type*) where
  | startTest (t : T)
  | setReady (t : T)
  | release (t : T)
  | finished (t : T) (fits : Bool)
  | waited (t : T)
  | read (t : T)
  | thread (op : Process.ThreadOp)
  | cancelled
  | scheduler
  | clear (x : Agent T)
  | write (x : Agent T)
  | advance (x : Agent T)

/-! ## The step -/

variable {T : Type*} [DecidableEq T]

/-- The call of `t` goes on. -/
def System.goto (s : System T) (t : T) (call : Option (Nat × CallStep)) : System T :=
  { s with calls := Function.update s.calls t call }

/-- The thread is in `NOTIFY_PROCESS_FINISHED_STATUS`, at `d`. -/
def System.ThreadAt (s : System T) (d : DisplayPc) : Prop := s.process.pc = .tail ∧ s.display = d

instance (s : System T) (d : DisplayPc) : Decidable (s.ThreadAt d) :=
  inferInstanceAs (Decidable (_ ∧ _))

/-- The scheduler's next step: a release or a check of the deadline, then line by
    line. -/
def System.schedulerStep (s : System T) (deadline : DeadlineType) : Option (System T) :=
  match s.scheduler with
  | .idle =>
    match s.nextSchedulingInstance with
    | .releaseProcess => if s.process.Releasable then some { s with scheduler := .readying } else none
    | .checkDeadline =>
      -- the state is tested here once and not again before the stop
      if s.process.state = .dormant ∨ s.process.state = .waitingOnPeriod then
        some { s with nextSchedulingInstance := .releaseProcess }
      else if deadline = .hard then some { s with scheduler := .stopping, verdict := s.activation }
      else some s
  | .readying => some { s with process := s.process.setState .ready, scheduler := .starting }
  | .starting =>
    if s.process.state = .ready then some { s with scheduler := .settingRunning }
    else some { s with scheduler := .idle, nextSchedulingInstance := .checkDeadline }
  | .settingRunning =>
    some { s with process := s.process.setState .running, scheduler := .posting }
  | .posting =>
    some { s with process := s.process.postStateChange, scheduler := .idle,
                  nextSchedulingInstance := .checkDeadline }
  | .stopping => some { s with process := s.process.setState .dormant, scheduler := .restarting }
  | .restarting => some { s with process := s.process.setState .restarting, scheduler := .cancelling }
  | .cancelling => some { s with cancelPending := true, scheduler := .joining }
  | .joining =>
    if s.process.pc = .ended then some { s with cancelPending := false, scheduler := .resetting }
    else none
  | .resetting => some { s with process := s.process.setState .dormant, scheduler := .creating }
  | .creating =>
    some { s with process := { s.process with pc := .waitRun }, scheduler := .notifying .clear,
                  nextSchedulingInstance := .releaseProcess }
  | .notifying _ => none

/-- Where an agent goes whose turn with the mutex is over. -/
def System.finish (s : System T) : Agent T → System T
  | .caller t => s.goto t ((s.calls t).map fun call => (call.1, .readying))
  | .thread =>
    if s.display = .erasing then { s with display := .write }
    else { s with process := { s.process with pc := .waitRun } }
  | .scheduler =>
    if s.scheduler = .notifying .erasing then { s with scheduler := .notifying .write }
    else { s with scheduler := .idle }

/-- One step. -/
def step (deadline : DeadlineType) (s : System T) : Op T → Option (System T)
  | .startTest t =>
    if s.calls t = none ∧ s.delayedStartMutex = none then
      if s.process.state = .dormant then
        some { s.goto t (some (s.activation + 1, .clear)) with
          activation := s.activation + 1, delayedStartMutex := some t }
      else some s -- `NO_ACTION`
    else none
  | .setReady t =>
    match s.calls t with
    | some (a, .readying) =>
      some { s.goto t (some (a, .releasing)) with process := s.process.setState .ready }
    | _ => none
  | .release t =>
    -- under `PROCESS_TABLE_MUTEX`, which the scheduler holds while it is at work
    match s.calls t with
    | some (a, .releasing) =>
      if s.scheduler = .idle then
        some { s.goto t (some (a, .started)) with
          nextSchedulingInstance := .releaseProcess, delayedStartMutex := none }
      else none
    | _ => none
  | .finished t fits =>
    match s.calls t with
    | some (a, .started) =>
      if fits = false then some (s.goto t none) -- `INVALID_PARAM`
      else if s.board.occupied then some (s.goto t (some (a, .reading)))
      else some (s.goto t (some (a, .waiting)))
    | _ => none
  | .waited t =>
    match s.calls t with
    | some (a, .waiting) =>
      if s.board.eventState = .up then some (s.goto t (some (a, .reading))) else none
    | _ => none
  | .read t =>
    match s.calls t with
    | some (a, .reading) =>
      let response := if s.board.occupied then some s.board.payload else none
      some { s.goto t none with log := ⟨a, response⟩ :: s.log }
    | _ => none
  | .thread op =>
    if op = .notify then none
    else
      (s.process.threadStep false op).map fun p =>
        { s with
          process := p
          job := if op = .check then s.activation else s.job
          display := .clear }
  | .cancelled =>
    if s.cancelPending then
      some { s with process := { s.process with pc := .ended }, board := s.board.unwind .thread }
    else none
  | .scheduler => s.schedulerStep deadline
  | .clear x =>
    match x with
    | .caller t =>
      match s.calls t with
      | some (a, .clear) =>
        (s.board.beginErase x).map fun board => { s.goto t (some (a, .erasing)) with board }
      | _ => none
    | .thread =>
      if s.ThreadAt .clear then
        (s.board.beginErase x).map fun board => { s with board, display := .erasing }
      else none
    | .scheduler =>
      if s.scheduler = .notifying .clear then
        (s.board.beginErase x).map fun board => { s with board, scheduler := .notifying .erasing }
      else none
  | .write x =>
    match x with
    | .caller _ => none
    | .thread =>
      if s.ThreadAt .write then
        (s.board.beginWrite x s.job).map fun board => { s with board, display := .writing }
      else none
    | .scheduler =>
      if s.scheduler = .notifying .write then
        (s.board.beginWrite x s.verdict).map fun board => { s with board, scheduler := .notifying .writing }
      else none
  | .advance x =>
    (s.board.advance x).map fun board =>
      if board.holder = none then { s.finish x with board } else { s with board }

/-! ## The condition -/

/-- The thread has a job or is still to report one. -/
def Reporting (pc : ThreadPc) : Prop := pc ≠ .waitRun ∧ pc ≠ .checkRun ∧ pc ≠ .ended

instance (pc : ThreadPc) : Decidable (Reporting pc) := inferInstanceAs (Decidable (_ ∧ _ ∧ _))

/-- The scheduler has found the deadline missed and has not notified yet. -/
def SchedulerPc.Stopping (c : SchedulerPc) : Prop :=
  c ≠ .idle ∧ c ≠ .readying ∧ c ≠ .starting ∧ c ≠ .settingRunning ∧ c ≠ .posting

instance (c : SchedulerPc) : Decidable c.Stopping :=
  inferInstanceAs (Decidable (_ ∧ _ ∧ _ ∧ _ ∧ _))

/-- Nobody is still to notify and nobody still to read. -/
def System.Quiet (s : System T) : Prop :=
  ¬ Reporting s.process.pc ∧ ¬ s.scheduler.Stopping ∧ ∀ u, s.calls u = none

/-- `START` is accepted when all is quiet, and a notification that begins while a
    call is under way finds the blackboard empty. -/
def Orderly (s : System T) : Op T → Prop
  | .startTest _ => s.process.state = .dormant → s.Quiet
  | .clear .thread | .clear .scheduler => (∃ u, s.calls u ≠ none) → s.board.occupied = false
  | _ => True

instance [Fintype T] (s : System T) : ∀ a, Decidable (Orderly s a)
  | .startTest _ => inferInstanceAs (Decidable (_ → _ ∧ _ ∧ ∀ u, s.calls u = none))
  | .clear .thread | .clear .scheduler =>
    inferInstanceAs (Decidable ((∃ u, s.calls u ≠ none) → s.board.occupied = false))
  | .clear (.caller _) | .setReady _ | .release _ | .finished _ _ | .waited _ | .read _ | .thread _
  | .cancelled | .scheduler | .write _ | .advance _ => inferInstanceAs (Decidable True)

/-- Every call that returned `NO_ERROR` returned the response of its activation. -/
def Belong (s : System T) : Prop := ∀ o ∈ s.log, o.response = some (some o.activation)

/-! ## The invariant -/

/-- Past the clearing of the blackboard. -/
def CallStep.Past (c : CallStep) : Prop := c ≠ .clear ∧ c ≠ .erasing

/-- Where `x` is when it holds the mutex of the blackboard with `b` left to do. -/
def System.Busy (s : System T) (b : BoardStep) : Agent T → Prop
  | .caller t => (∃ a, s.calls t = some (a, .erasing)) ∧ (b = .resetEvent ∨ b = .eraseSize)
  | .thread => s.process.pc = .tail
  | .scheduler => ∃ d, s.scheduler = .notifying d

/-- The blackboard by itself: its event is up only while a response is on it, and
    what the holder of the mutex has done so far. -/
structure BoardInv (b : Board T) (activation : Nat) : Prop where
  up : b.eventState = .up → b.occupied = true
  erased : ∀ x, b.holder = some (x, .eraseSize) → b.eventState = .down
  sized : ∀ x, b.holder = some (x, .setEvent) → b.occupied = true
  written : ∀ x, b.holder = some (x, .writeSize) → b.payload = some activation

/-- For a call past its clearing: what is on the blackboard is its response, and an
    erasing finds nothing. -/
structure Board.Fresh (b : Board T) (activation : Nat) : Prop where
  own : b.occupied = true → b.payload = some activation
  empty : ∀ x y, b.holder = some (x, y) → y = .resetEvent ∨ y = .eraseSize → b.occupied = false

/-- Whoever notifies does so for the last activation, the one call under way has
    started it, and the blackboard is its own once it has cleared it. -/
structure Inv (s : System T) : Prop where
  job : Reporting s.process.pc → s.job = s.activation
  verdict : s.scheduler.Stopping → s.verdict = s.activation
  ended : s.scheduler = .resetting ∨ s.scheduler = .creating → s.process.pc = .ended
  one : ∀ t u, s.calls t ≠ none → s.calls u ≠ none → t = u
  current : ∀ t a c, s.calls t = some (a, c) → a = s.activation
  busy : ∀ x b, s.board.holder = some (x, b) → s.Busy b x
  board : BoardInv s.board s.activation
  fresh : ∀ t a c, s.calls t = some (a, c) → c.Past → s.board.Fresh s.activation
  reading : ∀ t a, s.calls t = some (a, .reading) → s.board.occupied = true
  log : Belong s

omit [DecidableEq T] in
theorem create_inv : Inv (create : System T) := by
  refine ⟨fun h => absurd rfl h.1, fun h => absurd rfl h.1, nofun, fun _ _ h => absurd rfl h,
    nofun, nofun, ⟨nofun, nofun, nofun, nofun⟩, nofun, nofun, ?_⟩
  intro o ho
  cases ho

/-! ## The calls -/

section
variable {s : System T} {t : T}

theorem Inv.goto (hs : Inv s) {a : Nat} {c : CallStep} (hcall : s.calls t = some (a, c))
    (hheld : ∀ b, s.board.holder ≠ some (.caller t, b)) {call : Option (Nat × CallStep)}
    (hnext : ∀ a' c', call = some (a', c') →
      a' = a ∧ (c'.Past → s.board.Fresh s.activation) ∧ (c' = .reading → s.board.occupied = true)) :
    Inv (s.goto t call) := by
  have hcalls (u : T) : (s.goto t call).calls u = if u = t then call else s.calls u := by
    simp [System.goto, Function.update_apply]
  have hsome (u : T) : (s.goto t call).calls u ≠ none → s.calls u ≠ none := by
    rw [hcalls]
    split
    · next hut =>
      intro _
      rw [hut, hcall]
      exact Option.some_ne_none _
    · exact id
  refine ⟨hs.job, hs.verdict, hs.ended, ?_, ?_, ?_, hs.board, ?_, ?_, hs.log⟩
  · exact fun u v hu hv => hs.one u v (hsome u hu) (hsome v hv)
  · intro u a' c' hu
    rw [hcalls] at hu
    split at hu
    · exact ((hnext a' c' hu).1).trans (hs.current t a c hcall)
    · exact hs.current u a' c' hu
  · intro x b hholder
    have hbusy := hs.busy x b hholder
    cases x with
    | caller u =>
      -- a holder of the mutex is another call, and stays where it is
      obtain ⟨⟨a', hu⟩, hb⟩ := hbusy
      refine ⟨⟨a', ?_⟩, hb⟩
      have hut : u ≠ t := by
        rintro rfl
        exact hheld b hholder
      rw [hcalls, if_neg hut, hu]
    | thread => exact hbusy
    | scheduler => exact hbusy
  · intro u a' c' hu hpast
    rw [hcalls] at hu
    split at hu
    · exact (hnext a' c' hu).2.1 hpast
    · exact hs.fresh u a' c' hu hpast
  · intro u a' hu
    rw [hcalls] at hu
    split at hu
    · exact (hnext a' .reading hu).2.2 rfl
    · exact hs.reading u a' hu

omit [DecidableEq T] in
theorem Inv.not_held (hs : Inv s) {a : Nat} {c : CallStep} (hcall : s.calls t = some (a, c))
    (hpast : c.Past) (b : BoardStep) : s.board.holder ≠ some (.caller t, b) := by
  intro hholder
  obtain ⟨⟨a', hu⟩, -⟩ := hs.busy _ b hholder
  rw [hcall] at hu
  exact hpast.2 (congrArg Prod.snd (Option.some.inj hu))

theorem Inv.goto_past (hs : Inv s) {a : Nat} {c d : CallStep} (hcall : s.calls t = some (a, c))
    (hpast : c.Past) (hread : d = .reading → s.board.occupied = true) :
    Inv (s.goto t (some (a, d))) := by
  refine hs.goto hcall (hs.not_held hcall hpast) ?_
  rintro a' c' ⟨⟩
  exact ⟨rfl, fun _ => hs.fresh t a c hcall hpast, hread⟩

/-- Where all the others are at rest, a call that has moved is the only one. -/
theorem only_call {calls : T → Option (Nat × CallStep)} (hothers : ∀ u, u ≠ t → calls u = none)
    {moved call : Nat × CallStep} {u : T}
    (hu : Function.update calls t (some moved) u = some call) : u = t ∧ call = moved := by
  by_cases hut : u = t
  · rw [hut, Function.update_self] at hu
    exact ⟨hut, (Option.some.inj hu).symm⟩
  · rw [Function.update_of_ne hut, hothers u hut] at hu
    cases hu

/-- A scheduler that notifies is still in the stop. -/
theorem stopping_notifying {c : SchedulerPc} {d : DisplayPc} (hc : c = .notifying d) :
    c.Stopping := by
  subst hc
  refine ⟨?_, ?_, ?_, ?_, ?_⟩ <;> simp

/-- An accepted start: all is quiet, so it begins with nobody on the blackboard. -/
theorem startTest_inv (hs : Inv s) (hquiet : s.Quiet) :
    Inv { s.goto t (some (s.activation + 1, .clear)) with
      activation := s.activation + 1, delayedStartMutex := some t } := by
  obtain ⟨hthread, hscheduler, hcalls⟩ := hquiet
  have hnew (u : T) (call : Nat × CallStep)
      (hu : Function.update s.calls t (some (s.activation + 1, .clear)) u = some call) :
      u = t ∧ call = (s.activation + 1, .clear) := only_call (fun v _ => hcalls v) hu
  -- every holder of the mutex is somebody that is not quiet
  have hfree : s.board.holder = none := by
    cases hholder : s.board.holder with
    | none => rfl
    | some held =>
      exfalso
      obtain ⟨x, b⟩ := held
      have hbusy := hs.busy x b hholder
      cases x with
      | caller u =>
        obtain ⟨⟨a, hu⟩, -⟩ := hbusy
        rw [hcalls u] at hu
        cases hu
      | thread =>
        have hpc : s.process.pc = .tail := hbusy
        exact hthread (by rw [hpc]; decide)
      | scheduler =>
        obtain ⟨d, hd⟩ := hbusy
        exact hscheduler (stopping_notifying hd)
  have hnone (x : Agent T) (b : BoardStep) : s.board.holder ≠ some (x, b) := by
    rw [hfree]
    exact nofun
  refine ⟨fun h => absurd h hthread, fun h => absurd h hscheduler, hs.ended, ?_, ?_, ?_, ?_, ?_,
    ?_, hs.log⟩
  · intro u v hu hv
    obtain ⟨cu, hcu⟩ := Option.ne_none_iff_exists'.mp hu
    obtain ⟨cv, hcv⟩ := Option.ne_none_iff_exists'.mp hv
    rw [(hnew u cu hcu).1, (hnew v cv hcv).1]
  · intro u a c hu
    exact congrArg Prod.fst (hnew u (a, c) hu).2
  · exact fun x b hholder => absurd hholder (hnone x b)
  · exact ⟨hs.board.up, fun x h => absurd h (hnone x _), fun x h => absurd h (hnone x _),
      fun x h => absurd h (hnone x _)⟩
  · intro u a c hu hpast
    exact absurd (congrArg Prod.snd (hnew u (a, c) hu).2) hpast.1
  · intro u a hu
    cases congrArg Prod.snd (hnew u (a, .reading) hu).2

end

/-! ## The thread and the scheduler -/

section
variable {s t : System T}

omit [DecidableEq T] in
/-- A step that leaves the calls, the blackboard and the log alone, and takes neither
    the thread nor the scheduler out of its notification. -/
theorem Inv.move (hs : Inv s) (hactivation : t.activation = s.activation)
    (hcalls : t.calls = s.calls) (hboard : t.board = s.board) (hlog : t.log = s.log)
    (hjob : Reporting t.process.pc → t.job = s.activation)
    (hverdict : t.scheduler.Stopping → t.verdict = s.activation)
    (hended : t.scheduler = .resetting ∨ t.scheduler = .creating → t.process.pc = .ended)
    (hthread : s.process.pc = .tail → t.process.pc = .tail)
    (hscheduler : ∀ d, s.scheduler = .notifying d → ∃ d', t.scheduler = .notifying d') : Inv t := by
  refine ⟨?_, ?_, hended, ?_, ?_, ?_, ?_, ?_, ?_, ?_⟩
  · rw [hactivation]
    exact hjob
  · rw [hactivation]
    exact hverdict
  · rw [hcalls]
    exact hs.one
  · rw [hcalls, hactivation]
    exact hs.current
  · intro x b hholder
    rw [hboard] at hholder
    have hbusy := hs.busy x b hholder
    cases x with
    | caller u =>
      obtain ⟨⟨a, hu⟩, hb⟩ := hbusy
      exact ⟨⟨a, by rw [hcalls, hu]⟩, hb⟩
    | thread => exact hthread hbusy
    | scheduler =>
      obtain ⟨d, hd⟩ := hbusy
      exact hscheduler d hd
  · rw [hboard, hactivation]
    exact hs.board
  · rw [hcalls, hboard, hactivation]
    exact hs.fresh
  · rw [hcalls, hboard]
    exact hs.reading
  · rw [Belong, hlog]
    exact hs.log

omit [DecidableEq T] in
theorem threadStep_reporting {p q : Process} {op : Process.ThreadOp}
    (h : p.threadStep false op = some q) (hop : op ≠ .notify) :
    p.pc ≠ .tail ∧ p.pc ≠ .ended ∧ (Reporting q.pc → op = .check ∨ Reporting p.pc) := by
  cases op with
  | take =>
    obtain ⟨hpc, -, rfl⟩ := Process.threadStep_take h
    exact ⟨by simp [hpc], by simp [hpc], fun hreport => absurd rfl hreport.2.1⟩
  | check =>
    obtain ⟨hpc, -⟩ := Process.threadStep_check h
    exact ⟨by simp [hpc], by simp [hpc], fun _ => .inl rfl⟩
  | enter =>
    obtain ⟨hpc, -⟩ := Process.threadStep_enter h
    exact ⟨by simp [hpc], by simp [hpc], fun _ => .inr (by rw [hpc]; decide)⟩
  | complete =>
    obtain ⟨hpc, -⟩ := Process.threadStep_complete h
    exact ⟨by simp [hpc], by simp [hpc], fun _ => .inr (by rw [hpc]; decide)⟩
  | notify => exact absurd rfl hop
  | periodicWait =>
    obtain ⟨hpc, -⟩ := Process.threadStep_periodicWait h
    exact ⟨by simp [hpc], by simp [hpc], fun _ => .inr (by rw [hpc]; decide)⟩
  | resume =>
    obtain ⟨hpc, -, -⟩ := Process.threadStep_resume h
    exact ⟨by simp [hpc], by simp [hpc], fun _ => .inr (by rw [hpc]; decide)⟩

theorem thread_inv {deadline : DeadlineType} {op : Process.ThreadOp} (hs : Inv s)
    (h : step deadline s (.thread op) = some t) : Inv t := by
  simp only [step] at h
  split at h
  · cases h
  · next hop =>
    obtain ⟨q, hq, rfl⟩ := Option.map_eq_some_iff.mp h
    obtain ⟨htail, hnotEnded, hreport⟩ := threadStep_reporting hq hop
    refine hs.move rfl rfl rfl rfl ?_ ?_ ?_ ?_ ?_
    · intro hafter
      show (if op = .check then s.activation else s.job) = s.activation
      rcases hreport hafter with hcheck | hbefore
      · rw [if_pos hcheck]
      · rw [hs.job hbefore, ite_self]
    · exact hs.verdict
    · exact fun hscheduler => absurd (hs.ended hscheduler) hnotEnded
    · exact fun hpc => absurd hpc htail
    · exact fun d hd => ⟨d, hd⟩

theorem cancelled_inv {deadline : DeadlineType} (hs : Inv s)
    (h : step deadline s .cancelled = some t) : Inv t := by
  simp only [step] at h
  split at h
  · obtain rfl := Option.some.inj h
    -- what the mutex guarded stays, and it is free if the thread held it
    have hholder (x : Agent T) (b : BoardStep)
        (hx : (s.board.unwind .thread).holder = some (x, b)) :
        s.board.holder = some (x, b) ∧ x ≠ .thread := by
      unfold Board.unwind at hx
      split at hx
      · cases hx
      · next hnot =>
        refine ⟨hx, ?_⟩
        rintro rfl
        exact hnot (by rw [hx, Option.map_some])
    have hpayload : (s.board.unwind .thread).payload = s.board.payload := by
      unfold Board.unwind
      split <;> rfl
    have hoccupied : (s.board.unwind .thread).occupied = s.board.occupied := by
      unfold Board.unwind
      split <;> rfl
    have hevent : (s.board.unwind .thread).eventState = s.board.eventState := by
      unfold Board.unwind
      split <;> rfl
    refine ⟨fun hreport => absurd rfl hreport.2.2, hs.verdict, fun _ => rfl, hs.one, hs.current, ?_,
      ⟨?_, ?_, ?_, ?_⟩, ?_, ?_, hs.log⟩
    · intro x b hx
      obtain ⟨hheld, hne⟩ := hholder x b hx
      have hbusy := hs.busy x b hheld
      cases x with
      | caller u => exact hbusy
      | thread => exact absurd rfl hne
      | scheduler => exact hbusy
    · rw [hevent, hoccupied]
      exact hs.board.up
    · intro x hx
      rw [hevent]
      exact hs.board.erased x (hholder x _ hx).1
    · intro x hx
      rw [hoccupied]
      exact hs.board.sized x (hholder x _ hx).1
    · intro x hx
      rw [hpayload]
      exact hs.board.written x (hholder x _ hx).1
    · intro u a c hu hpast
      have hfresh := hs.fresh u a c hu hpast
      refine ⟨?_, ?_⟩
      · rw [hoccupied, hpayload]
        exact hfresh.own
      · intro x y hx hy
        rw [hoccupied]
        exact hfresh.empty x y (hholder x y hx).1 hy
    · intro u a hu
      rw [hoccupied]
      exact hs.reading u a hu
  · cases h

omit [DecidableEq T] in
/-- The scheduler writes the state and its own place. It reaches the notification
    with the verdict it made on the last activation. -/
theorem schedulerStep_inv {deadline : DeadlineType} (hs : Inv s)
    (h : s.schedulerStep deadline = some t) : Inv t := by
  unfold System.schedulerStep at h
  cases hscheduler : s.scheduler with
  | idle =>
    simp only [hscheduler] at h
    split at h
    · split at h
      · obtain rfl := Option.some.inj h
        exact hs.move rfl rfl rfl rfl hs.job (fun hstop => absurd rfl hstop.2.1) (by simp) id
          (by simp [hscheduler])
      · cases h
    · split at h
      · obtain rfl := Option.some.inj h
        exact hs.move rfl rfl rfl rfl hs.job (fun hstop => absurd rfl hstop.1) (by simp) id
          (by simp [hscheduler])
      · split at h
        · -- the verdict is on the last activation, for now
          obtain rfl := Option.some.inj h
          exact hs.move rfl rfl rfl rfl hs.job (fun _ => rfl) (by simp) id (by simp [hscheduler])
        · obtain rfl := Option.some.inj h
          exact hs
  | readying =>
    simp only [hscheduler] at h
    obtain rfl := Option.some.inj h
    exact hs.move rfl rfl rfl rfl hs.job (fun hstop => absurd rfl hstop.2.2.1) (by simp) id
      (by simp [hscheduler])
  | starting =>
    simp only [hscheduler] at h
    split at h
    · obtain rfl := Option.some.inj h
      exact hs.move rfl rfl rfl rfl hs.job (fun hstop => absurd rfl hstop.2.2.2.1) (by simp) id
        (by simp [hscheduler])
    · obtain rfl := Option.some.inj h
      exact hs.move rfl rfl rfl rfl hs.job (fun hstop => absurd rfl hstop.1) (by simp) id
        (by simp [hscheduler])
  | settingRunning =>
    simp only [hscheduler] at h
    obtain rfl := Option.some.inj h
    exact hs.move rfl rfl rfl rfl hs.job (fun hstop => absurd rfl hstop.2.2.2.2) (by simp) id
      (by simp [hscheduler])
  | posting =>
    simp only [hscheduler] at h
    obtain rfl := Option.some.inj h
    exact hs.move rfl rfl rfl rfl hs.job (fun hstop => absurd rfl hstop.1) (by simp) id
      (by simp [hscheduler])
  | stopping =>
    simp only [hscheduler] at h
    obtain rfl := Option.some.inj h
    exact hs.move rfl rfl rfl rfl hs.job (fun _ => hs.verdict (by rw [hscheduler]; decide)) (by simp)
      id (by simp [hscheduler])
  | restarting =>
    simp only [hscheduler] at h
    obtain rfl := Option.some.inj h
    exact hs.move rfl rfl rfl rfl hs.job (fun _ => hs.verdict (by rw [hscheduler]; decide)) (by simp)
      id (by simp [hscheduler])
  | cancelling =>
    simp only [hscheduler] at h
    obtain rfl := Option.some.inj h
    exact hs.move rfl rfl rfl rfl hs.job (fun _ => hs.verdict (by rw [hscheduler]; decide)) (by simp)
      id (by simp [hscheduler])
  | joining =>
    simp only [hscheduler] at h
    split at h
    · next hended =>
      obtain rfl := Option.some.inj h
      exact hs.move rfl rfl rfl rfl hs.job (fun _ => hs.verdict (by rw [hscheduler]; decide))
        (fun _ => hended) id (by simp [hscheduler])
    · cases h
  | resetting =>
    simp only [hscheduler] at h
    obtain rfl := Option.some.inj h
    exact hs.move rfl rfl rfl rfl hs.job (fun _ => hs.verdict (by rw [hscheduler]; decide))
      (fun _ => hs.ended (.inl hscheduler)) id (by simp [hscheduler])
  | creating =>
    simp only [hscheduler] at h
    obtain rfl := Option.some.inj h
    -- the old thread has ended, so nothing of its job is left to report
    have hended := hs.ended (.inr hscheduler)
    exact hs.move rfl rfl rfl rfl (fun hreport => absurd rfl hreport.1)
      (fun _ => hs.verdict (by rw [hscheduler]; decide)) (by simp) (by simp [hended])
      (by simp [hscheduler])
  | notifying d =>
    simp only [hscheduler] at h
    cases h

end

/-! ## The blackboard steps -/

section
variable {b b' : Board T} {x : Agent T} {activation n : Nat}

omit [DecidableEq T] in
theorem beginErase_cases (h : b.beginErase x = some b') :
    b.holder = none ∧ b' = { b with payload := none, holder := some (x, .resetEvent) } := by
  obtain ⟨hfree, rfl⟩ : b.holder = none ∧ _ = b' := by simpa [Board.beginErase] using h
  exact ⟨hfree, rfl⟩

omit [DecidableEq T] in
theorem beginWrite_cases (h : b.beginWrite x n = some b') :
    b.holder = none ∧ b' = { b with payload := some n, holder := some (x, .writeSize) } := by
  obtain ⟨hfree, rfl⟩ : b.holder = none ∧ _ = b' := by simpa [Board.beginWrite] using h
  exact ⟨hfree, rfl⟩

theorem advance_cases (h : b.advance x = some b') :
    b.holder = some (x, .resetEvent) ∧
        b' = { b with eventState := .down, holder := some (x, .eraseSize) } ∨
      b.holder = some (x, .eraseSize) ∧ b' = { b with occupied := false, holder := none } ∨
      b.holder = some (x, .writeSize) ∧
        b' = { b with occupied := true, holder := some (x, .setEvent) } ∨
      b.holder = some (x, .setEvent) ∧ b' = { b with eventState := .up, holder := none } := by
  unfold Board.advance at h
  split at h
  · cases h
  · next y boardStep hholder =>
    split at h
    · next hxy =>
      subst hxy
      cases boardStep with
      | resetEvent => exact .inl ⟨hholder, (Option.some.inj h).symm⟩
      | eraseSize => exact .inr (.inl ⟨hholder, (Option.some.inj h).symm⟩)
      | writeSize => exact .inr (.inr (.inl ⟨hholder, (Option.some.inj h).symm⟩))
      | setEvent => exact .inr (.inr (.inr ⟨hholder, (Option.some.inj h).symm⟩))
    · cases h

omit [DecidableEq T] in
theorem BoardInv.beginErase (hb : BoardInv b activation) :
    BoardInv { b with payload := none, holder := some (x, .resetEvent) } activation :=
  ⟨hb.up, nofun, nofun, nofun⟩

omit [DecidableEq T] in
theorem BoardInv.beginWrite (hb : BoardInv b activation) :
    BoardInv { b with payload := some activation, holder := some (x, .writeSize) } activation :=
  ⟨hb.up, nofun, nofun, fun _ _ => rfl⟩

theorem BoardInv.advance (hb : BoardInv b activation) (h : b.advance x = some b') :
    BoardInv b' activation := by
  rcases advance_cases h with ⟨-, rfl⟩ | ⟨hheld, rfl⟩ | ⟨-, rfl⟩ | ⟨hheld, rfl⟩
  · exact ⟨nofun, fun _ _ => rfl, nofun, nofun⟩
  · refine ⟨?_, nofun, nofun, nofun⟩
    intro hup
    rw [show b.eventState = .down from hb.erased x hheld] at hup
    cases hup
  · exact ⟨fun _ => rfl, nofun, fun _ _ => rfl, nofun⟩
  · exact ⟨fun _ => hb.sized x hheld, nofun, nofun, nofun⟩

theorem Board.Fresh.advance (hb : BoardInv b activation) (hfresh : b.Fresh activation)
    (h : b.advance x = some b') : b'.Fresh activation := by
  rcases advance_cases h with ⟨hheld, rfl⟩ | ⟨-, rfl⟩ | ⟨hheld, rfl⟩ | ⟨-, rfl⟩
  · have hempty : b.occupied = false := hfresh.empty x _ hheld (.inl rfl)
    exact ⟨hfresh.own, fun _ _ _ _ => hempty⟩
  · exact ⟨nofun, nofun⟩
  · refine ⟨fun _ => hb.written x hheld, ?_⟩
    intro z y hz hy
    obtain ⟨rfl, rfl⟩ : x = z ∧ BoardStep.setEvent = y := by simpa using hz
    rcases hy with hy | hy <;> cases hy
  · exact ⟨hfresh.own, nofun⟩

end

section
variable {s t : System T}

/-- A call's own clearing begins. It is the only call. -/
theorem clear_caller_inv (hs : Inv s) {u : T} {a : Nat} (hcall : s.calls u = some (a, .clear))
    {board : Board T} (h : s.board.beginErase (.caller u) = some board) :
    Inv { s.goto u (some (a, .erasing)) with board } := by
  obtain ⟨hfree, rfl⟩ := beginErase_cases h
  have hothers (v : T) (hvu : v ≠ u) : s.calls v = none := by
    by_contra hv
    exact hvu (hs.one v u hv (by simp [hcall]))
  have honly (v : T) (call : Nat × CallStep)
      (hv : Function.update s.calls u (some (a, .erasing)) v = some call) :
      v = u ∧ call = (a, .erasing) := only_call hothers hv
  refine ⟨hs.job, hs.verdict, hs.ended, ?_, ?_, ?_, hs.board.beginErase, ?_, ?_, hs.log⟩
  · intro v w hv hw
    obtain ⟨cv, hcv⟩ := Option.ne_none_iff_exists'.mp hv
    obtain ⟨cw, hcw⟩ := Option.ne_none_iff_exists'.mp hw
    rw [(honly v cv hcv).1, (honly w cw hcw).1]
  · intro v a' c hv
    have hsame : a' = a := congrArg Prod.fst (honly v (a', c) hv).2
    exact hsame.trans (hs.current u a .clear hcall)
  · intro x y hx
    obtain ⟨rfl, rfl⟩ : Agent.caller u = x ∧ BoardStep.resetEvent = y := by simpa using hx
    exact ⟨⟨a, Function.update_self u _ s.calls⟩, .inl rfl⟩
  · intro v a' c hv hpast
    exact absurd (congrArg Prod.snd (honly v (a', c) hv).2) hpast.2
  · intro v a' hv
    cases congrArg Prod.snd (honly v (a', .reading) hv).2

omit [DecidableEq T] in
/-- A step of a notification on the blackboard: the calls stay, and the agent stays
    in its notification. -/
theorem Inv.notify (hs : Inv s) {board : Board T} {x : Agent T} {y : BoardStep}
    (hactivation : t.activation = s.activation) (hcalls : t.calls = s.calls)
    (hlog : t.log = s.log) (hprocess : t.process = s.process) (hjob : t.job = s.job)
    (hverdict : t.verdict = s.verdict) (hboard : t.board = board)
    (hscheduler : t.scheduler = s.scheduler ∨
      ∃ d d', s.scheduler = .notifying d ∧ t.scheduler = .notifying d')
    (hheld : board.holder = some (x, y)) (hbusy : t.Busy y x) (hinv : BoardInv board s.activation)
    (hoccupied : board.occupied = s.board.occupied)
    (hfresh : ∀ u a c, s.calls u = some (a, c) → c.Past → board.Fresh s.activation) : Inv t := by
  refine ⟨?_, ?_, ?_, ?_, ?_, ?_, ?_, ?_, ?_, ?_⟩
  · rw [hprocess, hjob, hactivation]
    exact hs.job
  · rw [hverdict, hactivation]
    rcases hscheduler with hsame | ⟨d, d', hd, -⟩
    · rw [hsame]
      exact hs.verdict
    · exact fun _ => hs.verdict (stopping_notifying hd)
  · rw [hprocess]
    rcases hscheduler with hsame | ⟨d, d', -, hd'⟩
    · rw [hsame]
      exact hs.ended
    · rw [hd']
      simp
  · rw [hcalls]
    exact hs.one
  · rw [hcalls, hactivation]
    exact hs.current
  · intro x' y' hx'
    rw [hboard, hheld] at hx'
    obtain ⟨rfl, rfl⟩ : x = x' ∧ y = y' := by simpa using hx'
    exact hbusy
  · rw [hboard, hactivation]
    exact hinv
  · rw [hcalls, hboard, hactivation]
    exact hfresh
  · rw [hcalls, hboard, hoccupied]
    exact hs.reading
  · rw [Belong, hlog]
    exact hs.log

theorem clear_inv {deadline : DeadlineType} {x : Agent T} (hs : Inv s)
    (horderly : Orderly s (.clear x)) (h : step deadline s (.clear x) = some t) : Inv t := by
  -- what an erasing leaves to a call past its own: the blackboard was empty
  have hfresh {board : Board T} (hempty : (∃ u, s.calls u ≠ none) → s.board.occupied = false)
      (hb : board = { s.board with payload := none, holder := some (x, .resetEvent) }) :
      ∀ u a c, s.calls u = some (a, c) → c.Past → board.Fresh s.activation := by
    intro u a c hu _
    have hoccupied : s.board.occupied = false := hempty ⟨u, by simp [hu]⟩
    subst hb
    refine ⟨?_, fun _ _ _ _ => hoccupied⟩
    intro hfull
    rw [hoccupied] at hfull
    cases hfull
  cases x with
  | caller u =>
    simp only [step] at h
    split at h
    · next a hcall =>
      obtain ⟨board, hboard, rfl⟩ := Option.map_eq_some_iff.mp h
      exact clear_caller_inv hs hcall hboard
    · cases h
  | thread =>
    simp only [step] at h
    split at h
    · next hat =>
      obtain ⟨board, hboard, rfl⟩ := Option.map_eq_some_iff.mp h
      obtain ⟨-, hb⟩ := beginErase_cases hboard
      exact hs.notify (x := .thread) (y := .resetEvent) rfl rfl rfl rfl rfl rfl rfl (.inl rfl)
        (by rw [hb]) hat.1 (hb ▸ hs.board.beginErase) (by rw [hb]) (hfresh horderly hb)
    · cases h
  | scheduler =>
    simp only [step] at h
    split at h
    · next hat =>
      obtain ⟨board, hboard, rfl⟩ := Option.map_eq_some_iff.mp h
      obtain ⟨-, hb⟩ := beginErase_cases hboard
      exact hs.notify (x := .scheduler) (y := .resetEvent) rfl rfl rfl rfl rfl rfl rfl
        (.inr ⟨_, _, hat, rfl⟩) (by rw [hb]) ⟨_, rfl⟩ (hb ▸ hs.board.beginErase) (by rw [hb])
        (hfresh horderly hb)
    · cases h

theorem write_inv {deadline : DeadlineType} {x : Agent T} (hs : Inv s)
    (h : step deadline s (.write x) = some t) : Inv t := by
  -- The payload is of the activation of now, and the size that follows it is still to be written.
  have hfresh {board : Board T}
      (hb : board = { s.board with payload := some s.activation, holder := some (x, .writeSize) }) :
      ∀ u a c, s.calls u = some (a, c) → c.Past → board.Fresh s.activation := by
    intro u a c _ _
    subst hb
    refine ⟨fun _ => rfl, ?_⟩
    intro x' y hx hy
    obtain ⟨-, rfl⟩ : x = x' ∧ BoardStep.writeSize = y := by simpa using hx
    rcases hy with hy | hy <;> cases hy
  cases x with
  | caller u => cases h
  | thread =>
    simp only [step] at h
    split at h
    · next hat =>
      obtain ⟨board, hboard, rfl⟩ := Option.map_eq_some_iff.mp h
      obtain ⟨-, hb⟩ := beginWrite_cases hboard
      rw [hs.job (by rw [hat.1]; decide)] at hb
      exact hs.notify (x := .thread) (y := .writeSize) rfl rfl rfl rfl rfl rfl rfl (.inl rfl)
        (by rw [hb]) hat.1 (hb ▸ hs.board.beginWrite) (by rw [hb]) (hfresh hb)
    · cases h
  | scheduler =>
    simp only [step] at h
    split at h
    · next hat =>
      obtain ⟨board, hboard, rfl⟩ := Option.map_eq_some_iff.mp h
      obtain ⟨-, hb⟩ := beginWrite_cases hboard
      rw [hs.verdict (stopping_notifying hat)] at hb
      exact hs.notify (x := .scheduler) (y := .writeSize) rfl rfl rfl rfl rfl rfl rfl
        (.inr ⟨_, _, hat, rfl⟩) (by rw [hb]) ⟨_, rfl⟩ (hb ▸ hs.board.beginWrite) (by rw [hb])
        (hfresh hb)
    · cases h

end

section
variable {s t : System T} {x : Agent T}

theorem Inv.advance (hs : Inv s) {board : Board T} (h : s.board.advance x = some board) :
    Inv { s with board } := by
  refine ⟨hs.job, hs.verdict, hs.ended, hs.one, hs.current, ?_, hs.board.advance h, ?_, ?_,
    hs.log⟩
  · intro x' b' hx'
    rcases advance_cases h with ⟨hheld, rfl⟩ | ⟨-, rfl⟩ | ⟨hheld, rfl⟩ | ⟨-, rfl⟩
    · obtain ⟨rfl, rfl⟩ : x = x' ∧ BoardStep.eraseSize = b' := by simpa using hx'
      have hbusy := hs.busy x _ hheld
      cases x with
      | caller u => exact ⟨hbusy.1, .inr rfl⟩
      | thread => exact hbusy
      | scheduler => exact hbusy
    · cases hx'
    · obtain ⟨rfl, rfl⟩ : x = x' ∧ BoardStep.setEvent = b' := by simpa using hx'
      have hbusy := hs.busy x _ hheld
      cases x with
      | caller u =>
        -- a call only erases
        rcases hbusy.2 with hb | hb <;> cases hb
      | thread => exact hbusy
      | scheduler => exact hbusy
    · cases hx'
  · exact fun u a c hu hpast => (hs.fresh u a c hu hpast).advance hs.board h
  · intro u a hu
    have hoccupied := hs.reading u a hu
    rcases advance_cases h with ⟨-, rfl⟩ | ⟨hheld, rfl⟩ | ⟨-, rfl⟩ | ⟨-, rfl⟩
    · exact hoccupied
    · -- an erasing finds nothing that a call is about to read
      have hfresh := hs.fresh u a .reading hu ⟨nofun, nofun⟩
      have hempty : s.board.occupied = false := hfresh.empty x _ hheld (.inr rfl)
      rw [hoccupied] at hempty
      cases hempty
    · rfl
    · exact hoccupied

/-- The agent whose turn with the mutex is over goes on: a call has left the
    blackboard empty, a notification goes on to its writing or ends. -/
theorem finish_inv (hs : Inv s) (hfree : s.board.holder = none)
    (hcaller : ∀ u, x = .caller u →
      (∃ a, s.calls u = some (a, .erasing)) ∧ s.board.occupied = false)
    (hthread : x = .thread → s.process.pc = .tail)
    (hscheduler : x = .scheduler → ∃ d, s.scheduler = .notifying d) : Inv (s.finish x) := by
  have hnone (y : Agent T) (b : BoardStep) : s.board.holder ≠ some (y, b) := by
    rw [hfree]
    exact nofun
  cases x with
  | caller u =>
    obtain ⟨⟨a, hcall⟩, hempty⟩ := hcaller u rfl
    simp only [System.finish, hcall, Option.map_some]
    refine hs.goto hcall (hnone _) ?_
    rintro a' c' ⟨⟩
    refine ⟨rfl, fun _ => ⟨?_, fun y b hb => absurd hb (hnone y b)⟩, nofun⟩
    intro hfull
    rw [hempty] at hfull
    cases hfull
  | thread =>
    have hpc := hthread rfl
    simp only [System.finish]
    split
    · exact hs.move rfl rfl rfl rfl hs.job hs.verdict hs.ended id fun d hd => ⟨d, hd⟩
    · -- its pc changes, but it does not hold the mutex any more
      refine ⟨fun hreport => absurd rfl hreport.1, hs.verdict, ?_, hs.one, hs.current,
        fun y b hb => absurd hb (hnone y b), hs.board, hs.fresh, hs.reading, hs.log⟩
      intro hending
      have hended := hs.ended hending
      rw [hpc] at hended
      cases hended
  | scheduler =>
    obtain ⟨d, hd⟩ := hscheduler rfl
    have hverdict : s.verdict = s.activation := hs.verdict (stopping_notifying hd)
    simp only [System.finish]
    split
    · exact hs.move rfl rfl rfl rfl hs.job (fun _ => hverdict) (by simp) id
        fun _ _ => ⟨_, rfl⟩
    · exact ⟨hs.job, fun hstop => absurd rfl hstop.1, by simp, hs.one, hs.current,
        fun y b hb => absurd hb (hnone y b), hs.board, hs.fresh, hs.reading, hs.log⟩

theorem advance_inv {deadline : DeadlineType} (hs : Inv s)
    (h : step deadline s (.advance x) = some t) : Inv t := by
  simp only [step] at h
  obtain ⟨board, hboard, rfl⟩ := Option.map_eq_some_iff.mp h
  have hadvanced := hs.advance hboard
  split
  · next hfree =>
    -- the agent's own step does not look at the blackboard
    have hfinish : { s.finish x with board } = System.finish { s with board } x := by
      cases x with
      | caller u => rfl
      | thread =>
        simp only [System.finish]
        split <;> rfl
      | scheduler =>
        simp only [System.finish]
        split <;> rfl
    rw [hfinish]
    obtain ⟨b, hheld⟩ : ∃ b, s.board.holder = some (x, b) := by
      rcases advance_cases hboard with ⟨hheld, -⟩ | ⟨hheld, -⟩ | ⟨hheld, -⟩ | ⟨hheld, -⟩
      all_goals exact ⟨_, hheld⟩
    have hbusy := hs.busy x b hheld
    refine finish_inv hadvanced hfree ?_ ?_ ?_
    · rintro u rfl
      refine ⟨hbusy.1, ?_⟩
      rcases advance_cases hboard with ⟨-, rfl⟩ | ⟨-, rfl⟩ | ⟨-, rfl⟩ | ⟨hset, -⟩
      · cases hfree
      · rfl
      · cases hfree
      · rw [hset] at hheld
        obtain rfl : BoardStep.setEvent = b := congrArg Prod.snd (Option.some.inj hheld)
        rcases hbusy.2 with hb | hb <;> cases hb
    · rintro rfl
      exact hbusy
    · rintro rfl
      exact hbusy
  · exact hadvanced

end

/-! ## Every run -/

section
variable {s t : System T}

/-- A call that reads: what is on the blackboard is the response of its activation. -/
theorem read_inv (hs : Inv s) {u : T} {a : Nat} (hcall : s.calls u = some (a, .reading)) :
    Inv { s.goto u none with
      log := ⟨a, if s.board.occupied then some s.board.payload else none⟩ :: s.log } := by
  have hpast : CallStep.Past .reading := ⟨nofun, nofun⟩
  have hoccupied := hs.reading u a hcall
  have hresponse :
      (if s.board.occupied then some s.board.payload else none) = some (some a) := by
    rw [if_pos hoccupied, (hs.fresh u a .reading hcall hpast).own hoccupied,
      hs.current u a .reading hcall]
  have hgone : Inv (s.goto u none) := hs.goto hcall (hs.not_held hcall hpast) nofun
  refine { hgone with log := ?_ }
  intro o ho
  rcases List.mem_cons.mp ho with rfl | hold
  · exact hresponse
  · exact hs.log o hold

theorem step_inv {deadline : DeadlineType} {op : Op T} (hs : Inv s) (horderly : Orderly s op)
    (h : step deadline s op = some t) : Inv t := by
  cases op with
  | startTest u =>
    simp only [step] at h
    split at h
    · split at h
      · next hdormant =>
        obtain rfl := Option.some.inj h
        exact startTest_inv hs (horderly hdormant)
      · -- `NO_ACTION`
        obtain rfl := Option.some.inj h
        exact hs
    · cases h
  | setReady u =>
    simp only [step] at h
    split at h
    · next a hcall =>
      obtain rfl := Option.some.inj h
      have hgoto := hs.goto_past (d := .releasing) hcall ⟨nofun, nofun⟩ nofun
      exact hgoto.move rfl rfl rfl rfl hs.job hs.verdict hs.ended id fun d hd => ⟨d, hd⟩
    · cases h
  | release u =>
    simp only [step] at h
    split at h
    · next a hcall =>
      split at h
      · obtain rfl := Option.some.inj h
        have hgoto := hs.goto_past (d := .started) hcall ⟨nofun, nofun⟩ nofun
        exact hgoto.move rfl rfl rfl rfl hs.job hs.verdict hs.ended id fun d hd => ⟨d, hd⟩
      · cases h
    · cases h
  | finished u fits =>
    simp only [step] at h
    split at h
    · next a hcall =>
      have hpast : CallStep.Past .started := ⟨nofun, nofun⟩
      split at h
      · obtain rfl := Option.some.inj h
        exact hs.goto hcall (hs.not_held hcall hpast) nofun
      · split at h
        · next hoccupied =>
          -- what is on the blackboard now stays there until it is read
          obtain rfl := Option.some.inj h
          exact hs.goto_past hcall hpast fun _ => hoccupied
        · obtain rfl := Option.some.inj h
          exact hs.goto_past hcall hpast nofun
    · cases h
  | waited u =>
    simp only [step] at h
    split at h
    · next a hcall =>
      split at h
      · next hup =>
        obtain rfl := Option.some.inj h
        exact hs.goto_past hcall ⟨nofun, nofun⟩ fun _ => hs.board.up hup
      · cases h
    · cases h
  | read u =>
    simp only [step] at h
    split at h
    · next a hcall =>
      obtain rfl := Option.some.inj h
      exact read_inv hs hcall
    · cases h
  | thread op => exact thread_inv hs h
  | cancelled => exact cancelled_inv hs h
  | scheduler => exact schedulerStep_inv hs h
  | clear x => exact clear_inv hs horderly h
  | write x => exact write_inv hs h
  | advance x => exact advance_inv hs h

end

/-- **Activation and response belong together.** In every run in which each start is
    accepted only when nobody is still to notify or to read, and in which a
    notification that begins during a call finds the blackboard empty, every call
    that returned `NO_ERROR` returned the response of the activation it started. -/
theorem responses_belong (deadline : DeadlineType) (ops : List (Op T)) (s : System T)
    (horderly : Meets (step deadline) Orderly create ops)
    (h : run (step deadline) create ops = some s) : Belong s :=
  (run_invariant_of_meets (fun _ _ _ hs hC hstep => step_inv hs hC hstep) create_inv horderly
    h).log

/-- `START`, up to the descriptor. -/
def acceptSteps : List (Op Unit) :=
  [.startTest (), .clear (.caller ()), .advance (.caller ()), .advance (.caller ()), .setReady ()]

/-- A release, and the job up to its entry. -/
def releaseSteps : List (Op Unit) :=
  [.release (), .scheduler, .scheduler, .scheduler, .scheduler, .scheduler, .thread .take,
   .thread .check, .thread .enter]

/-- `DISPLAY_BLACKBOARD` by one agent. -/
def displaySteps (x : Agent Unit) : List (Op Unit) :=
  [.clear x, .advance x, .advance x, .write x, .advance x, .advance x]

/-- One call, from its start to its response. -/
def oneCall : List (Op Unit) :=
  List.flatten
    [acceptSteps, releaseSteps, [.finished () true, .thread .complete], displaySteps .thread,
     [.waited (), .read ()]]

set_option maxRecDepth 2000 in
/-- A second call follows the first. -/
theorem responses_belong_secondCall :
    ∃ s, run (step .soft) create (oneCall ++ oneCall) = some s ∧
      s.log = [⟨2, some (some 2)⟩, ⟨1, some (some 1)⟩] ∧ Belong s :=
  ⟨_, rfl, rfl, responses_belong .soft (oneCall ++ oneCall) _ (by decide) rfl⟩

/-- Two calls of one caller, one after the other. The scheduler has found the first
    activation too late just before its job ends; the second call finds the process
    dormant and clears the blackboard before the scheduler's notification. -/
def twoCalls : List (Op Unit) :=
  List.flatten
    [acceptSteps, releaseSteps, [.finished () true, .scheduler, .thread .complete],
     displaySteps .thread, [.waited (), .read ()], acceptSteps,
     [.scheduler, .scheduler, .scheduler, .cancelled, .scheduler, .scheduler, .scheduler],
     displaySteps .scheduler, [.release (), .finished () true, .read ()]]

/-- The second call returns the verdict on the first activation. -/
theorem late_verdict_returned :
    ∃ s, run (step .hard) create twoCalls = some s ∧
      s.log = [⟨2, some (some 1)⟩, ⟨1, some (some 1)⟩] ∧ ¬ Belong s := by
  have hlogs : (run (step .hard) create twoCalls).map System.log =
      some [⟨2, some (some 1)⟩, ⟨1, some (some 1)⟩] := by decide +kernel
  obtain ⟨s, hrun, hlog⟩ := Option.map_eq_some_iff.mp hlogs
  refine ⟨s, hrun, hlog, ?_⟩
  intro hbelong
  have hsecond := hbelong ⟨2, some (some 1)⟩ (by rw [hlog]; exact List.mem_cons_self)
  cases hsecond

end Arinc.Response
