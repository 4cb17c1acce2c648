import ArincEmulator.Semaphore

/- A process (`PROCESS`) with its thread, and what `CREATE_PROCESS` asks of its
   attributes. The thread loops in `run`: it takes a token of `sem_state`, tests
   the state, runs the user's entry function and starts over; `PERIODIC_WAIT`
   takes a token from inside the entry function. -/
namespace Arinc

/-- `PROCESS::PROCESS_state`. -/
inductive ProcessState where
  | dormant
  | ready
  | running
  | waitingOnResource
  | waitingOnPeriod
  | waitingPartitionNotNormal
  | restarting
  | waitingSuspendedOther
  | waitingSuspendedSelf
  | suspendedForHealthReasons
  deriving DecidableEq, Repr

/-- `OPERATING_MODE_TYPE`. -/
inductive OperatingMode where
  | idle
  | coldStart
  | warmStart
  | normal
  deriving DecidableEq, Repr

/-- `DEADLINE_TYPE`. -/
inductive DeadlineType where
  | soft
  | hard
  deriving DecidableEq, Repr

/-! ## Attributes -/

/-- `PROCESS_ATTRIBUTE_TYPE`; of the entry point only whether it is null. -/
structure Attributes where
  name : String
  entryPointNull : Bool
  basePriority : Int
  timeCapacity : Int
  period : Int
  deadline : DeadlineType
  deriving DecidableEq, Repr

/-- `MINIMUM_TIME_CAPACITY`. -/
def minimumTimeCapacity : Int := 1

/-- `PARTITION_PROCESS_LOWPRIORITY`. -/
def partitionProcessLowPriority : Int := 83

/-- `PARTITION_PROCESS_HIGHPRIORITY`. -/
def partitionProcessHighPriority : Int := 96

/-- `MAX_NUMBER_OF_PROCESSES`. -/
def maxNumberOfProcesses : Nat := 128

/-- The checks of `CREATE_PROCESS` on the attributes alone, in their order. -/
def checkAttributes (a : Attributes) : ReturnCode :=
  if a.basePriority < partitionProcessLowPriority
      ∨ a.basePriority > partitionProcessHighPriority then .invalidParam
  else if a.entryPointNull then .invalidParam
  else if a.timeCapacity ≠ infiniteTimeValue ∧ a.timeCapacity < minimumTimeCapacity then
    .invalidParam
  else if a.period ≠ infiniteTimeValue ∧ a.period ≤ 0 then .invalidParam
  else if a.timeCapacity ≠ infiniteTimeValue ∧ a.timeCapacity ≤ 0 then .invalidParam
  else if a.timeCapacity = infiniteTimeValue ∧ a.period ≠ infiniteTimeValue then .invalidParam
  else if a.period ≠ infiniteTimeValue ∧ a.period < a.timeCapacity then .invalidParam
  else if a.period ≠ infiniteTimeValue ∧ a.period > maxTimeOut then .invalidParam
  else if a.timeCapacity ≠ infiniteTimeValue ∧ a.timeCapacity > maxTimeOut then .invalidParam
  else .noError

/-- `CREATE_PROCESS`: what it answers, in a partition that has processes of the
    given names. -/
def createProcess (mode : OperatingMode) (names : List String) (a : Attributes) : ReturnCode :=
  if mode = .idle ∨ mode = .normal then .invalidMode
  else if maxNumberOfProcesses ≤ names.length then .invalidConfig
  else if checkAttributes a ≠ .noError then checkAttributes a
  else if a.name ∈ names then .invalidParam
  else .noError

/-- Attributes `CREATE_PROCESS` has let through. -/
structure AcceptedAttributes extends Attributes where
  accepted : checkAttributes toAttributes = .noError

/-- `PROCESS::isPeriodic`. -/
def Attributes.isPeriodic (a : Attributes) : Bool := a.period != infiniteTimeValue

theorem times_of_checkAttributes {a : Attributes} (h : checkAttributes a = .noError) :
    ¬ (a.timeCapacity ≠ infiniteTimeValue ∧ a.timeCapacity < minimumTimeCapacity) ∧
      ¬ (a.timeCapacity = infiniteTimeValue ∧ a.period ≠ infiniteTimeValue) ∧
      ¬ (a.period ≠ infiniteTimeValue ∧ a.period < a.timeCapacity) ∧
      ¬ (a.period ≠ infiniteTimeValue ∧ a.period > maxTimeOut) ∧
      ¬ (a.timeCapacity ≠ infiniteTimeValue ∧ a.timeCapacity > maxTimeOut) := by
  unfold checkAttributes at h
  obtain ⟨-, h⟩ := ReturnCode.passed (by decide) h
  obtain ⟨-, h⟩ := ReturnCode.passed (by decide) h
  obtain ⟨hminimum, h⟩ := ReturnCode.passed (by decide) h
  obtain ⟨-, h⟩ := ReturnCode.passed (by decide) h
  obtain ⟨-, h⟩ := ReturnCode.passed (by decide) h
  obtain ⟨hfinite, h⟩ := ReturnCode.passed (by decide) h
  obtain ⟨hwithin, h⟩ := ReturnCode.passed (by decide) h
  obtain ⟨hperiod, h⟩ := ReturnCode.passed (by decide) h
  obtain ⟨hcapacity, -⟩ := ReturnCode.passed (by decide) h
  exact ⟨hminimum, hfinite, hwithin, hperiod, hcapacity⟩

/-- An accepted periodic process has a finite capacity within its period. -/
theorem AcceptedAttributes.periodic_bounds (a : AcceptedAttributes)
    (hp : a.toAttributes.isPeriodic = true) :
    1 ≤ a.timeCapacity ∧ a.timeCapacity ≤ a.period ∧ a.period ≤ maxTimeOut := by
  have hperiod : a.period ≠ infiniteTimeValue := by simpa [Attributes.isPeriodic] using hp
  obtain ⟨hminimum, hfinite, hwithin, hmax, -⟩ := times_of_checkAttributes a.accepted
  have hcap : a.timeCapacity ≠ infiniteTimeValue := fun h => hfinite ⟨h, hperiod⟩
  refine ⟨?_, ?_, ?_⟩
  · exact Int.not_lt.mp fun hlt => hminimum ⟨hcap, hlt⟩
  · exact Int.not_lt.mp fun hlt => hwithin ⟨hperiod, hlt⟩
  · exact Int.not_lt.mp fun hlt => hmax ⟨hperiod, hlt⟩

theorem AcceptedAttributes.timeCapacity_le (a : AcceptedAttributes) :
    a.timeCapacity ≤ maxTimeOut := by
  obtain ⟨-, -, -, -, hmax⟩ := times_of_checkAttributes a.accepted
  by_cases hcap : a.timeCapacity = infiniteTimeValue
  · rw [hcap]
    decide
  · exact Int.not_lt.mp fun hlt => hmax ⟨hcap, hlt⟩

/-! ## The process and its thread -/

/-- Where the thread is: at the wait of `run`, at the test of the state after it,
    with its token on the way into the user's code, in that code, at the wait
    inside `PERIODIC_WAIT`, past the entry function, or ended. -/
inductive ThreadPc where
  | waitRun
  | checkRun
  | enter
  | user
  | waitPeriod
  | tail
  | ended
  deriving DecidableEq, Repr

/-- `PROCESS`: its state, its semaphore and its thread. -/
structure Process where
  state : ProcessState
  semState : Semaphore
  pc : ThreadPc
  deriving DecidableEq, Repr

namespace Process

/-- The constructor: dormant, no token, the thread on its way to its first wait. -/
def create : Process := ⟨.dormant, ⟨0, maxSemaphoreValue⟩, .waitRun⟩

/-- `set_state`. -/
def setState (p : Process) (st : ProcessState) : Process := { p with state := st }

/-- The post on `sem_state`. -/
def postStateChange (p : Process) : Process := { p with semState := p.semState.post.1 }

/-- The steps of the thread. -/
inductive ThreadOp where
  | take
  | check
  | enter
  | complete
  | notify
  | periodicWait
  | resume
  deriving DecidableEq, Repr

/-- `run` and `waiting_on_period`, step by step. -/
def threadStep (periodic : Bool) (p : Process) : ThreadOp → Option Process
  | .take =>
    if p.pc = .waitRun then
      p.semState.wait.map fun w => { p with semState := w, pc := .checkRun }
    else none
  | .check =>
    if p.pc = .checkRun then
      some { p with pc := if p.state = .running then .enter else .waitRun }
    else none
  | .enter => if p.pc = .enter then some { p with pc := .user } else none
  | .complete =>
    if p.pc = .user then
      some { p with state := if periodic then .waitingOnPeriod else .dormant, pc := .tail }
    else none
  | .notify => if p.pc = .tail then some { p with pc := .waitRun } else none
  | .periodicWait =>
    -- an aperiodic caller is answered `INVALID_MODE`
    if p.pc = .user then
      some (if periodic then { p with state := .waitingOnPeriod, pc := .waitPeriod } else p)
    else none
  | .resume =>
    -- the token alone lets the caller go on: the state is not tested again
    if p.pc = .waitPeriod then
      p.semState.wait.map fun w => { p with semState := w, pc := .enter }
    else none

/-- The states in which the scheduler releases a process. -/
def Releasable (p : Process) : Prop := p.state = .waitingOnPeriod ∨ p.state = .ready

instance (p : Process) : Decidable p.Releasable := inferInstanceAs (Decidable (_ ∨ _))

/-- The state an accepted start gives a process in a `NORMAL` partition. -/
def startState (periodic : Bool) : ProcessState := if periodic then .waitingOnPeriod else .ready

/-- `PROCESS::start`. -/
def start (p : Process) : Process :=
  if p.state = .ready then (p.setState .running).postStateChange else p

/-- The scheduler's release: `READY`, then `PROCESS::start`. -/
def release (p : Process) : Process := (p.setState .ready).start

/-- `PROCESS::restart`: the thread is cancelled and joined and a new one is
    created. The semaphore is the old one. -/
def restart (p : Process) : Process :=
  { (p.setState .restarting).setState .dormant with pc := .waitRun }

/-- `PROCESS::stop`. -/
def stop (p : Process) : Process := (p.setState .dormant).restart

/-! ## What the thread can do -/

section
variable {periodic : Bool} {p q : Process}

theorem threadStep_take (h : p.threadStep periodic .take = some q) :
    p.pc = .waitRun ∧ p.semState.counter ≠ 0 ∧
      q = ⟨p.state, { p.semState with counter := p.semState.counter - 1 }, .checkRun⟩ := by
  simp only [threadStep] at h
  split at h
  · rename_i hpc
    obtain ⟨w, hw, rfl⟩ := Option.map_eq_some_iff.mp h
    obtain ⟨hne, rfl⟩ := Semaphore.wait_cases hw
    exact ⟨hpc, hne, rfl⟩
  · simp at h

theorem threadStep_resume (h : p.threadStep periodic .resume = some q) :
    p.pc = .waitPeriod ∧ p.semState.counter ≠ 0 ∧
      q = ⟨p.state, { p.semState with counter := p.semState.counter - 1 }, .enter⟩ := by
  simp only [threadStep] at h
  split at h
  · rename_i hpc
    obtain ⟨w, hw, rfl⟩ := Option.map_eq_some_iff.mp h
    obtain ⟨hne, rfl⟩ := Semaphore.wait_cases hw
    exact ⟨hpc, hne, rfl⟩
  · simp at h

theorem threadStep_check (h : p.threadStep periodic .check = some q) :
    p.pc = .checkRun ∧
      ((p.state = .running ∧ q = ⟨p.state, p.semState, .enter⟩) ∨
        (p.state ≠ .running ∧ q = ⟨p.state, p.semState, .waitRun⟩)) := by
  simp only [threadStep] at h
  split at h
  · rename_i hpc
    obtain rfl := Option.some.inj h
    by_cases hrun : p.state = .running
    · exact ⟨hpc, Or.inl ⟨hrun, by rw [if_pos hrun]⟩⟩
    · exact ⟨hpc, Or.inr ⟨hrun, by rw [if_neg hrun]⟩⟩
  · simp at h

theorem threadStep_enter (h : p.threadStep periodic .enter = some q) :
    p.pc = .enter ∧ q = ⟨p.state, p.semState, .user⟩ := by
  simp only [threadStep] at h
  split at h
  · rename_i hpc
    exact ⟨hpc, (Option.some.inj h).symm⟩
  · simp at h

theorem threadStep_complete (h : p.threadStep periodic .complete = some q) :
    p.pc = .user ∧
      q = ⟨if periodic then .waitingOnPeriod else .dormant, p.semState, .tail⟩ := by
  simp only [threadStep] at h
  split at h
  · rename_i hpc
    exact ⟨hpc, (Option.some.inj h).symm⟩
  · simp at h

theorem threadStep_notify (h : p.threadStep periodic .notify = some q) :
    p.pc = .tail ∧ q = ⟨p.state, p.semState, .waitRun⟩ := by
  simp only [threadStep] at h
  split at h
  · rename_i hpc
    exact ⟨hpc, (Option.some.inj h).symm⟩
  · simp at h

theorem threadStep_periodicWait (h : p.threadStep periodic .periodicWait = some q) :
    p.pc = .user ∧
      ((periodic = true ∧ q = ⟨.waitingOnPeriod, p.semState, .waitPeriod⟩) ∨
        (periodic = false ∧ q = p)) := by
  simp only [threadStep] at h
  split at h
  · rename_i hpc
    obtain rfl := Option.some.inj h
    cases periodic with
    | true => exact ⟨hpc, Or.inl ⟨rfl, rfl⟩⟩
    | false => exact ⟨hpc, Or.inr ⟨rfl, rfl⟩⟩
  · simp at h

end

end Process

end Arinc
