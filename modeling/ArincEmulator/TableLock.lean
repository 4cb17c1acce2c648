import ArincEmulator.Event
import ArincEmulator.ProcessTable

/- `PROCESS_TABLE_MUTEX` between the partition scheduler and the callers of
   `DELAYED_START` and `REPLENISH`. Both services lock the mutex, write the
   descriptor and leave the unlocking to `SET_EVENT` on the scheduling event,
   which shares the mutex; `SET_EVENT` unlocks only when it finds the event
   down. The scheduler holds the mutex except while it sleeps on the event.

   What is proved, for any number of callers, from any state of the event and
   any owner of the mutex: no call unlocks a mutex it does not hold, and every
   call that returns `NO_ERROR` has let go of it, in every state of a run just
   when `SET_EVENT` finds the event down in each of these calls
   (`table_lock_iff`). -/
namespace Arinc.TableLock
open Runs ProcessTable

/-! ## The mutex -/

/-- The threads that use the table. -/
inductive Agent (T : Type*) where
  | scheduler
  | caller (t : T)
  deriving DecidableEq, Repr

/-- A mutex of type `ERRORCHECK`: its owner. -/
abbrev Mutex (T : Type*) := Option (Agent T)

namespace Mutex

variable {T : Type*} [DecidableEq T]

/-- `lock`: waits for another owner; `EDEADLK` for the owner itself is ignored. -/
def lock (m : Mutex T) (a : Agent T) : Option (Mutex T) :=
  if m = none ∨ m = some a then some (some a) else none

/-- `try_lock`: `EBUSY` for a mutex that has an owner, the caller included. -/
def tryLock (m : Mutex T) (a : Agent T) : Mutex T := if m = none then some a else m

/-- `unlock`: `EPERM`, and no effect, for a mutex of another owner or none. -/
def unlock (m : Mutex T) (a : Agent T) : Mutex T := if m = some a then none else m

end Mutex

/-! ## The threads -/

/-- Where a caller is: outside, with the code its last call returned; past the
    checks; with the mutex locked; past the test of `SET_EVENT` that found the
    event down; and behind its `try_lock` and its broadcast. -/
inductive CallerPc where
  | outside (returned : Option ReturnCode)
  | checked
  | locked
  | tested
  | tried
  | broadcasted
  deriving DecidableEq, Repr

/-- Where the scheduler is: at work with the table, asleep on the event, or on its
    way to `RESET_EVENT`. -/
inductive SchedulerPc where
  | running
  | asleep
  | resetting
  deriving DecidableEq, Repr

/-- The event, the mutex and the threads. `delayedStartMutex` is the static mutex
    of `DELAYED_START`; `foreignUnlock` records an unlock of a mutex its thread
    did not hold. -/
structure State (T : Type*) where
  eventState : EventState
  processTableMutex : Mutex T
  delayedStartMutex : Option T
  scheduler : SchedulerPc
  pcs : T → CallerPc
  foreignUnlock : Bool

/-- Any event, any owner, no call under way. -/
def start {T : Type*} (eventState : EventState) (owner : Mutex T) : State T :=
  ⟨eventState, owner, none, .running, fun _ => .outside none, false⟩

/-- The steps. The first two carry what the checks of the services read, the
    descriptor found for the process if there is one; the partition is in `NORMAL`
    mode. `schedulerWake` is the scheduler's return from its sleep and its next
    test of the event, `timedOut` if the sleep was over. -/
inductive Op (T : Type*) where
  | delayedStart (t : T) (found : Option (Attributes × Descriptor)) (delay : Int) (now : ClockTime)
  | replenish (t : T) (found : Option (Attributes × Descriptor)) (budget : Int) (now : ClockTime)
  | lockTable (t : T)
  | testEvent (t : T)
  | tryLock (t : T)
  | broadcast (t : T)
  | unlock (t : T)
  | schedulerLock
  | schedulerTest
  | schedulerWake (timedOut : Bool)
  | resetEvent

variable {T : Type*} [DecidableEq T]

/-- A caller goes on. -/
def State.goto (s : State T) (t : T) (pc : CallerPc) : State T :=
  { s with pcs := Function.update s.pcs t pc }

/-- The checks of `DELAYED_START`. -/
def delayedStartCode (found : Option (Attributes × Descriptor)) (delay : Int) (now : ClockTime) :
    Option ReturnCode :=
  if delay < 0 then some .invalidParam
  else match found with
    | none => some .invalidParam
    | some (a, d) => (d.delayedStart a .normal delay now).map Prod.fst

/-- The checks of `REPLENISH`; the code for a caller that is no process is that of
    `GET_MY_ID`. -/
def replenishCode (found : Option (Attributes × Descriptor)) (budget : Int) (now : ClockTime) :
    Option ReturnCode :=
  if budget ≠ infiniteTimeValue ∧ maxTimeOut < budget then some .invalidParam
  else match found with
    | none => some .invalidMode
    | some (a, d) => (d.replenish a .normal budget now).map Prod.fst

/-- Where the checks lead. -/
def afterChecks (code : ReturnCode) : CallerPc :=
  if code = .noError then .checked else .outside (some code)

/-- `DELAYED_START` gives its own mutex back when it returns. -/
def State.leave (s : State T) (t : T) : State T :=
  { s.goto t (.outside (some .noError)) with
    delayedStartMutex := if s.delayedStartMutex = some t then none else s.delayedStartMutex }

/-- One step. -/
def step (s : State T) : Op T → Option (State T)
  | .delayedStart t found delay now =>
    match s.pcs t with
    | .outside _ =>
      if s.delayedStartMutex = none then
        (delayedStartCode found delay now).map fun code =>
          { s.goto t (afterChecks code) with
            delayedStartMutex := if code = .noError then some t else none }
      else none
    | _ => none
  | .replenish t found budget now =>
    match s.pcs t with
    | .outside _ => (replenishCode found budget now).map fun code => s.goto t (afterChecks code)
    | _ => none
  | .lockTable t =>
    if s.pcs t = .checked then
      (s.processTableMutex.lock (.caller t)).map fun m =>
        { s.goto t .locked with processTableMutex := m }
    else none
  | .testEvent t =>
    if s.pcs t = .locked then
      -- an event that is up is left alone, and so is the mutex
      if s.eventState = .down then some { s.goto t .tested with eventState := .up }
      else some (s.leave t)
    else none
  | .tryLock t =>
    if s.pcs t = .tested then
      some { s.goto t .tried with
        processTableMutex := s.processTableMutex.tryLock (.caller t) }
    else none
  | .broadcast t => if s.pcs t = .tried then some (s.goto t .broadcasted) else none
  | .unlock t =>
    if s.pcs t = .broadcasted then
      some { s.leave t with
        processTableMutex := s.processTableMutex.unlock (.caller t)
        foreignUnlock := s.foreignUnlock || decide (s.processTableMutex ≠ some (.caller t)) }
    else none
  | .schedulerLock =>
    if s.scheduler = .running then
      (s.processTableMutex.lock .scheduler).map fun m => { s with processTableMutex := m }
    else none
  | .schedulerTest =>
    if s.scheduler = .running ∧ s.processTableMutex = some .scheduler then
      if s.eventState = .down then some { s with scheduler := .asleep, processTableMutex := none }
      else some { s with scheduler := .resetting }
    else none
  | .schedulerWake timedOut =>
    if s.scheduler = .asleep ∧ s.processTableMutex = none then
      if timedOut then some { s with scheduler := .running, processTableMutex := some .scheduler }
      else if s.eventState = .down then some s
      else some { s with scheduler := .resetting, processTableMutex := some .scheduler }
    else none
  | .resetEvent =>
    if s.scheduler = .resetting then
      some { s with scheduler := .running, eventState := .down }
    else none

/-- Nobody unlocked what it did not hold, and who returned `NO_ERROR` holds
    nothing. -/
structure Disciplined (s : State T) : Prop where
  own : s.foreignUnlock = false
  released : ∀ t, s.pcs t = .outside (some .noError) → s.processTableMutex ≠ some (.caller t)

/-- `SET_EVENT` finds the event down. -/
def FindsDown (s : State T) : Op T → Prop
  | .testEvent _ => s.eventState = .down
  | _ => True

/-! ## Who holds the mutex -/

/-- Between the lock and the end of `SET_EVENT`. -/
def CallerPc.inside : CallerPc → Prop
  | .locked | .tested | .tried | .broadcasted => True
  | _ => False

/-- A caller inside holds the mutex. -/
def Holding (s : State T) : Prop :=
  ∀ t, (s.pcs t).inside → s.processTableMutex = some (.caller t)

omit [DecidableEq T] in
theorem Holding.not_inside {s : State T} (hs : Holding s) {m : Mutex T}
    (hm : s.processTableMutex = m) (hno : ∀ t, m ≠ some (.caller t)) (t : T) :
    ¬ (s.pcs t).inside :=
  fun ht => hno t (hm ▸ hs t ht)

theorem lock_cases {m m' : Mutex T} {a : Agent T} (h : m.lock a = some m') :
    (m = none ∨ m = some a) ∧ m' = some a := by
  simp only [Mutex.lock, Option.ite_none_right_eq_some, Option.some.injEq] at h
  exact ⟨h.1, h.2.symm⟩

/-- The mutex goes to `m`, one caller to `pc`, and the rest of the state where it
    may. -/
theorem Disciplined.move {s s' : State T} {t : T} {pc : CallerPc} (hs : Disciplined s)
    (hown : s'.foreignUnlock = s.foreignUnlock) (hpcs : s'.pcs = Function.update s.pcs t pc)
    (hpc : pc = .outside (some .noError) → s'.processTableMutex ≠ some (.caller t))
    (hmutex : ∀ u, u ≠ t → s'.processTableMutex = some (.caller u) →
      s.processTableMutex = some (.caller u)) : Disciplined s' where
  own := hown.trans hs.own
  released := by
    intro u hu hm
    rw [hpcs] at hu
    by_cases hut : u = t
    · subst hut
      rw [Function.update_self] at hu
      exact hpc hu hm
    · rw [Function.update_of_ne hut] at hu
      exact hs.released u hu (hmutex u hut hm)

theorem Holding.move {s s' : State T} {t : T} {pc : CallerPc} (hs : Holding s)
    (hpcs : s'.pcs = Function.update s.pcs t pc)
    (hpc : pc.inside → s'.processTableMutex = some (.caller t))
    (hmutex : ∀ u, u ≠ t → s.processTableMutex = some (.caller u) →
      s'.processTableMutex = some (.caller u)) : Holding s' := by
  intro u hu
  rw [hpcs] at hu
  by_cases hut : u = t
  · subst hut
    rw [Function.update_self] at hu
    exact hpc hu
  · rw [Function.update_of_ne hut] at hu
    exact hmutex u hut (hs u hu)

theorem move_same {s s' : State T} {t : T} {pc : CallerPc} (hs : Disciplined s)
    (hside : Holding s) (hown : s'.foreignUnlock = s.foreignUnlock)
    (hpcs : s'.pcs = Function.update s.pcs t pc)
    (hsame : s'.processTableMutex = s.processTableMutex) (hpc : pc ≠ .outside (some .noError))
    (hin : pc.inside → (s.pcs t).inside) : Disciplined s' ∧ Holding s' := by
  constructor
  · exact hs.move hown hpcs (fun heq => absurd heq hpc) fun u _ hm => hsame ▸ hm
  · exact hside.move hpcs (fun hi => hsame.trans (hside t (hin hi))) fun u _ hm => hsame.trans hm

omit [DecidableEq T] in
theorem scheduler_move {s s' : State T} (hs : Disciplined s) (hside : Holding s)
    (hown : s'.foreignUnlock = s.foreignUnlock) (hpcs : s'.pcs = s.pcs)
    (hfrom : ∀ t, s.processTableMutex ≠ some (.caller t))
    (hto : ∀ t, s'.processTableMutex ≠ some (.caller t)) : Disciplined s' ∧ Holding s' := by
  refine ⟨⟨hown.trans hs.own, fun t _ => hto t⟩, ?_⟩
  intro t ht
  rw [hpcs] at ht
  exact absurd ht (hside.not_inside rfl hfrom t)

theorem afterChecks_ne (code : ReturnCode) : afterChecks code ≠ .outside (some .noError) := by
  unfold afterChecks
  split
  · simp
  · rename_i hne
    simpa using hne

theorem not_inside_afterChecks (code : ReturnCode) : ¬ (afterChecks code).inside := by
  unfold afterChecks
  split <;> exact id

/-- A step keeps the discipline just when `SET_EVENT`, if it is at its test, finds
    the event down. -/
theorem step_disciplined_iff {s s' : State T} {op : Op T} (hs : Disciplined s)
    (hside : Holding s) (h : step s op = some s') :
    (Disciplined s' ↔ FindsDown s op) ∧ (FindsDown s op → Holding s') := by
  have hkeeps (hkept : Disciplined s' ∧ Holding s') (hC : FindsDown s op) :
      (Disciplined s' ↔ FindsDown s op) ∧ (FindsDown s op → Holding s') :=
    ⟨iff_of_true hkept.1 hC, fun _ => hkept.2⟩
  cases op with
  | delayedStart t found delay now =>
    simp only [step] at h
    split at h
    · simp only [Option.ite_none_right_eq_some] at h
      obtain ⟨code, -, rfl⟩ := Option.map_eq_some_iff.mp h.2
      exact hkeeps (move_same hs hside rfl rfl rfl (afterChecks_ne code)
        fun hin => absurd hin (not_inside_afterChecks code)) trivial
    · simp at h
  | replenish t found budget now =>
    simp only [step] at h
    split at h
    · obtain ⟨code, -, rfl⟩ := Option.map_eq_some_iff.mp h
      exact hkeeps (move_same hs hside rfl rfl rfl (afterChecks_ne code)
        fun hin => absurd hin (not_inside_afterChecks code)) trivial
    · simp at h
  | lockTable t =>
    simp only [step, Option.ite_none_right_eq_some] at h
    obtain ⟨m, hm, rfl⟩ := Option.map_eq_some_iff.mp h.2
    obtain ⟨hfree, rfl⟩ := lock_cases hm
    refine hkeeps ⟨hs.move rfl rfl (by simp) ?_, hside.move rfl (fun _ => rfl) ?_⟩ trivial
    · intro u hut hm
      exact absurd (Agent.caller.inj (Option.some.inj hm)).symm hut
    · intro u hut hm
      obtain hnone | hself := hfree
      · simp [hnone] at hm
      · rw [hself] at hm
        exact absurd (Agent.caller.inj (Option.some.inj hm)).symm hut
  | testEvent t =>
    simp only [step, Option.ite_none_right_eq_some] at h
    obtain ⟨hpc, h⟩ := h
    have hin : (s.pcs t).inside := by rw [hpc]; trivial
    split at h
    · rename_i hdown
      obtain rfl := Option.some.inj h
      exact hkeeps (move_same hs hside rfl rfl rfl (by simp) fun _ => hin) hdown
    · rename_i hup
      obtain rfl := Option.some.inj h
      -- the call returns with the mutex it locked
      refine ⟨iff_of_false ?_ hup, fun hdown => absurd hdown hup⟩
      intro hdisc
      exact hdisc.released t (Function.update_self ..) (hside t hin)
  | tryLock t =>
    simp only [step, Option.ite_none_right_eq_some, Option.some.injEq] at h
    obtain ⟨hpc, rfl⟩ := h
    have hin : (s.pcs t).inside := by rw [hpc]; trivial
    have hbusy : s.processTableMutex.tryLock (.caller t) = s.processTableMutex := by
      rw [Mutex.tryLock, hside t hin]
      rfl
    exact hkeeps (move_same hs hside rfl rfl hbusy (by simp) fun _ => hin) trivial
  | broadcast t =>
    simp only [step, Option.ite_none_right_eq_some, Option.some.injEq] at h
    obtain ⟨hpc, rfl⟩ := h
    exact hkeeps (move_same hs hside rfl rfl rfl (by simp) fun _ => by rw [hpc]; trivial) trivial
  | unlock t =>
    simp only [step, Option.ite_none_right_eq_some, Option.some.injEq] at h
    obtain ⟨hpc, rfl⟩ := h
    have hmine : s.processTableMutex = some (.caller t) := hside t (by rw [hpc]; trivial)
    have hfree : s.processTableMutex.unlock (.caller t) = none := if_pos hmine
    refine hkeeps ⟨hs.move (t := t) ?_ rfl ?_ ?_, hside.move (t := t) rfl ?_ ?_⟩ trivial
    · show (s.foreignUnlock || decide (s.processTableMutex ≠ some (.caller t))) = s.foreignUnlock
      simp [hmine]
    · intro _
      show s.processTableMutex.unlock (.caller t) ≠ _
      simp [hfree]
    · intro u _ hm
      rw [show s.processTableMutex.unlock (.caller t) = some (.caller u) from hm] at hfree
      simp at hfree
    · exact fun hin => absurd hin id
    · intro u hut hm
      rw [hmine] at hm
      exact absurd (Agent.caller.inj (Option.some.inj hm)).symm hut
  | schedulerLock =>
    simp only [step, Option.ite_none_right_eq_some] at h
    obtain ⟨m, hm, rfl⟩ := Option.map_eq_some_iff.mp h.2
    obtain ⟨hfree, rfl⟩ := lock_cases hm
    refine hkeeps (scheduler_move hs hside rfl rfl ?_ (by simp)) trivial
    intro u hu
    obtain hnone | hself := hfree
    · simp [hnone] at hu
    · simp [hself] at hu
  | schedulerTest =>
    simp only [step, Option.ite_none_right_eq_some] at h
    obtain ⟨⟨-, hmine⟩, h⟩ := h
    have hfrom (t : T) : s.processTableMutex ≠ some (.caller t) := by simp [hmine]
    split at h
    · obtain rfl := Option.some.inj h
      exact hkeeps (scheduler_move hs hside rfl rfl hfrom (by simp)) trivial
    · obtain rfl := Option.some.inj h
      exact hkeeps (scheduler_move hs hside rfl rfl hfrom hfrom) trivial
  | schedulerWake timedOut =>
    simp only [step, Option.ite_none_right_eq_some] at h
    obtain ⟨⟨-, hnone⟩, h⟩ := h
    have hfrom (t : T) : s.processTableMutex ≠ some (.caller t) := by simp [hnone]
    split at h
    · obtain rfl := Option.some.inj h
      exact hkeeps (scheduler_move hs hside rfl rfl hfrom (by simp)) trivial
    · split at h
      · obtain rfl := Option.some.inj h
        exact hkeeps ⟨hs, hside⟩ trivial
      · obtain rfl := Option.some.inj h
        exact hkeeps (scheduler_move hs hside rfl rfl hfrom (by simp)) trivial
  | resetEvent =>
    simp only [step, Option.ite_none_right_eq_some, Option.some.injEq] at h
    obtain ⟨-, rfl⟩ := h
    exact hkeeps ⟨⟨hs.own, hs.released⟩, hside⟩ trivial

/-- **The lock discipline.** From any event and any owner of the mutex, no call
    unlocks what it does not hold and each call that returns `NO_ERROR` has let go
    of the mutex, in every state of a run, if and only if `SET_EVENT` finds the
    event down in each call that comes to it. -/
theorem table_lock_iff (eventState : EventState) (owner : Mutex T) (ops : List (Op T))
    (s : State T) (h : run step (start eventState owner) ops = some s) :
    Always step Disciplined (start eventState owner) ops ↔
      Meets step FindsDown (start eventState owner) ops := by
  apply always_iff_meets (J := Holding) _ _ _ h
  · intro s op s' hs hside hstep
    exact step_disciplined_iff hs hside hstep
  · exact ⟨rfl, fun t ht => by simp [start] at ht⟩
  · exact fun t ht => absurd ht id

/-- A dormant aperiodic process with one second to run. -/
def dormantProcess : Option (Attributes × Descriptor) :=
  some (⟨"worker", false, 90, nano, infiniteTimeValue, .soft⟩, .create)

/-- The clock at ten seconds. -/
def tenSeconds : ClockTime where
  tvSec := 10
  tvNsec := 0
  normalized := by decide

/-- The scheduler sleeps, and caller 0 starts a process and wakes it. -/
def startOne : List (Op (Fin 2)) :=
  [.schedulerLock, .schedulerTest, .delayedStart 0 dormantProcess 0 tenSeconds, .lockTable 0,
   .testEvent 0, .tryLock 0, .broadcast 0, .unlock 0]

theorem table_lock_iff_startOne :
    Always step Disciplined (start .down none)
        (startOne ++ [.schedulerWake false, .resetEvent]) ↔
      Meets step FindsDown (start .down none)
        (startOne ++ [.schedulerWake false, .resetEvent]) :=
  table_lock_iff .down none (startOne ++ [.schedulerWake false, .resetEvent]) _ rfl

/-- A second start comes before the scheduler has woken: it finds the event up,
    returns `NO_ERROR` and keeps the mutex the scheduler waits for. -/
theorem second_start_keeps_mutex :
    ∃ s : State (Fin 2),
      run step (start .down none)
          (startOne ++ [.delayedStart 1 dormantProcess 0 tenSeconds, .lockTable 1, .testEvent 1]) =
        some s ∧
      s.pcs 1 = .outside (some .noError) ∧ s.processTableMutex = some (.caller 1) ∧
      step s (.schedulerWake true) = none ∧ ¬ Disciplined s := by
  refine ⟨_, rfl, rfl, rfl, rfl, ?_⟩
  intro hdisc
  exact hdisc.released 1 rfl rfl

end Arinc.TableLock
