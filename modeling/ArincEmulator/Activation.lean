import ArincEmulator.Process
import ArincEmulator.Lib.Runs

/- One process between the threads that act on it: its own thread, the
   partition scheduler that releases it, a caller of `START` and a caller of
   `STOP`. Every read and write of the state, every post and every wait is a step
   of its own, so a release, a stop and a restart interleave in any order. -/
namespace Arinc.Activation
open Runs

/-- Where the scheduler is with this process: nowhere, past a test in the start
    of the partition (`initialising`) or in a release (`readying`), and then on
    its way through `PROCESS::start`. -/
inductive SchedulerPc where
  | idle
  | initialising
  | readying
  | starting
  | settingRunning
  | posting
  deriving DecidableEq, Repr

/-- Where the caller of `STOP` is: `stop`, then `restart`, line by line. -/
inductive StopperPc where
  | idle
  | stopping
  | restarting
  | cancelling
  | joining
  | resetting
  | creating
  deriving DecidableEq, Repr

/-- The process, the threads around it, whether its thread has a cancellation
    pending, and of the incarnation that runs: the posts of `PROCESS::start` and
    the state at every entry into the user's code, newest first. -/
structure System where
  process : Process
  scheduler : SchedulerPc
  starting : Bool
  stopper : StopperPc
  cancelPending : Bool
  posts : Int
  entered : List ProcessState
  deriving DecidableEq, Repr

/-- A process as `CREATE_PROCESS` leaves it. -/
def create : System := ⟨Process.create, .idle, false, .idle, false, 0, []⟩

/-- The steps of all threads. -/
inductive Op where
  | startTest
  | startSet (normal : Bool)
  | initTest
  | initSet
  | releaseTest
  | setReady
  | readyTest
  | setRunning
  | post
  | thread (op : Process.ThreadOp)
  | stopTest
  | setDormant
  | setRestarting
  | cancel
  | cancelled
  | joined
  | reset
  | createThread
  deriving DecidableEq, Repr

/-- A write of the state. -/
def System.setState (s : System) (st : ProcessState) : System :=
  { s with process := s.process.setState st }

/-- One step. -/
def step (periodic : Bool) (s : System) : Op → Option System
  -- `DELAYED_START` runs under a mutex of its own
  | .startTest =>
    if s.starting = false ∧ s.process.state = .dormant then some { s with starting := true }
    else none
  | .startSet normal =>
    if s.starting then
      some { s.setState (if normal then Process.startState periodic else .waitingPartitionNotNormal)
        with starting := false }
    else none
  | .initTest =>
    if s.scheduler = .idle ∧ s.process.state = .waitingPartitionNotNormal then
      some { s with scheduler := .initialising }
    else none
  | .initSet =>
    if s.scheduler = .initialising then
      some { s.setState (Process.startState periodic) with scheduler := .idle }
    else none
  | .releaseTest =>
    if s.scheduler = .idle ∧ s.process.Releasable then some { s with scheduler := .readying }
    else none
  | .setReady =>
    if s.scheduler = .readying then some { s.setState .ready with scheduler := .starting }
    else none
  | .readyTest =>
    if s.scheduler = .starting then
      some { s with scheduler := if s.process.state = .ready then .settingRunning else .idle }
    else none
  | .setRunning =>
    if s.scheduler = .settingRunning then some { s.setState .running with scheduler := .posting }
    else none
  | .post =>
    if s.scheduler = .posting then
      some { s with process := s.process.postStateChange, scheduler := .idle, posts := s.posts + 1 }
    else none
  | .thread op =>
    (s.process.threadStep periodic op).map fun p =>
      { s with process := p, entered := if op = .enter then p.state :: s.entered else s.entered }
  | .stopTest =>
    if s.stopper = .idle ∧ s.process.state ≠ .dormant then some { s with stopper := .stopping }
    else none
  | .setDormant =>
    if s.stopper = .stopping then some { s.setState .dormant with stopper := .restarting }
    else none
  | .setRestarting =>
    if s.stopper = .restarting then some { s.setState .restarting with stopper := .cancelling }
    else none
  | .cancel =>
    if s.stopper = .cancelling then some { s with cancelPending := true, stopper := .joining }
    else none
  | .cancelled =>
    -- deferred: the thread ends where it next meets a cancellation point
    if s.cancelPending then some { s with process := { s.process with pc := .ended } } else none
  | .joined =>
    if s.stopper = .joining ∧ s.process.pc = .ended then
      some { s with cancelPending := false, stopper := .resetting }
    else none
  | .reset =>
    if s.stopper = .resetting then
      some { s.setState .dormant with stopper := .creating, posts := 0, entered := [] }
    else none
  | .createThread =>
    if s.stopper = .creating then
      some { s with process := { s.process with pc := .waitRun }, stopper := .idle }
    else none

/-- The tokens posted or about to be posted and not yet taken. -/
def System.outstanding (s : System) : Int :=
  s.process.semState.counter + if s.scheduler = .posting then 1 else 0

/-- The scheduler has tested the state and not yet set `RUNNING`. -/
def SchedulerPc.Busy (c : SchedulerPc) : Prop := c ≠ .idle ∧ c ≠ .posting

/-- The thread has taken a token and not yet called the user's code. -/
def claimed (pc : ThreadPc) : Int := if pc = .checkRun ∨ pc = .enter then 1 else 0

/-- The thread has taken a token and not yet come back to a wait. -/
def InUse (pc : ThreadPc) : Prop := pc = .checkRun ∨ pc = .enter ∨ pc = .user

instance (pc : ThreadPc) : Decidable (InUse pc) := inferInstanceAs (Decidable (_ ∨ _ ∨ _))

/-- The step does not write over the state between a token and the entry it stands
    for, leave a token to the next incarnation, or post one to a thread that has not
    used the last. -/
def TokenSafe (periodic : Bool) (s : System) : Op → Prop
  | .startSet _ | .setDormant | .setRestarting =>
    s.process.pc ≠ .enter ∧ (s.process.pc = .waitPeriod → s.outstanding = 0)
  | .reset => s.outstanding = 0
  | .setRunning =>
    periodic = true → s.process.semState.counter = 0 ∧ ¬ InUse s.process.pc
  | _ => True

instance (periodic : Bool) (s : System) : (op : Op) → Decidable (TokenSafe periodic s op)
  | .startSet _ | .setDormant | .setRestarting => inferInstanceAs (Decidable (_ ∧ (_ → _)))
  | .reset => inferInstanceAs (Decidable (_ = _))
  | .setRunning => inferInstanceAs (Decidable (_ → _ ∧ _))
  | .startTest | .initTest | .initSet | .releaseTest | .setReady | .readyTest | .post
  | .thread _ | .stopTest | .cancel | .cancelled | .joined | .createThread => isTrue trivial

/-! ## The invariant -/

/-- Every entry met `RUNNING` and used a token of its own; a periodic process has
    at most one, and none while its thread is between a token and the next wait. -/
structure Inv (periodic : Bool) (s : System) : Prop where
  counter_nonneg : 0 ≤ s.process.semState.counter
  entered_running : ∀ st ∈ s.entered, st = .running
  budget : s.entered.length + claimed s.process.pc + s.process.semState.counter ≤ s.posts
  enter_running : s.process.pc = .enter → s.process.state = .running
  busy_not_running : s.scheduler.Busy → s.process.state ≠ .running
  period_running : s.process.pc = .waitPeriod → 0 < s.outstanding → s.process.state = .running
  one_token : periodic = true → s.outstanding ≤ 1
  none_in_use : periodic = true → InUse s.process.pc → s.outstanding = 0
  aperiodic : periodic = false → s.process.pc ≠ .waitPeriod
  ended : s.stopper = .resetting ∨ s.stopper = .creating → s.process.pc = .ended

theorem create_inv (periodic : Bool) : Inv periodic create where
  counter_nonneg := by decide
  entered_running := by simp [create]
  budget := by decide
  enter_running := by decide
  busy_not_running := fun hbusy => absurd rfl hbusy.1
  period_running := by decide
  one_token := by decide +revert
  none_in_use := fun _ huse => absurd huse (by decide)
  aperiodic := by decide +revert
  ended := by decide

section
variable {periodic : Bool} {s t : System}

theorem Inv.move (hs : Inv periodic s) (hprocess : t.process = s.process)
    (hposts : t.posts = s.posts) (hentered : t.entered = s.entered)
    (hout : t.outstanding = s.outstanding)
    (hbusy : t.scheduler.Busy → s.process.state ≠ .running)
    (hended : t.stopper = .resetting ∨ t.stopper = .creating → s.process.pc = .ended) :
    Inv periodic t where
  counter_nonneg := by rw [hprocess]; exact hs.counter_nonneg
  entered_running := by rw [hentered]; exact hs.entered_running
  budget := by rw [hprocess, hposts, hentered]; exact hs.budget
  enter_running := by rw [hprocess]; exact hs.enter_running
  busy_not_running := by rw [hprocess]; exact hbusy
  period_running := by rw [hprocess, hout]; exact hs.period_running
  one_token := by rw [hout]; exact hs.one_token
  none_in_use := by rw [hprocess, hout]; exact hs.none_in_use
  aperiodic := by rw [hprocess]; exact hs.aperiodic
  ended := by rw [hprocess]; exact hended

/-- A state other than `RUNNING` may be written while nobody is on the way from a
    token to the user's code without a further test. -/
theorem Inv.write (hs : Inv periodic s) {w : ProcessState} (hw : w ≠ .running)
    (hpc : s.process.pc ≠ .enter) (hperiod : s.process.pc = .waitPeriod → s.outstanding ≤ 0) :
    Inv periodic (s.setState w) where
  counter_nonneg := hs.counter_nonneg
  entered_running := hs.entered_running
  budget := hs.budget
  enter_running := fun h => absurd h hpc
  busy_not_running := fun _ => hw
  period_running := fun h hpos => absurd (hperiod h) (Int.not_le.mpr hpos)
  one_token := hs.one_token
  none_in_use := hs.none_in_use
  aperiodic := hs.aperiodic
  ended := hs.ended

/-- While the scheduler is between its test and `RUNNING`, nobody is. -/
theorem Inv.write_of_busy (hs : Inv periodic s) (hbusy : s.scheduler.Busy) {w : ProcessState}
    (hw : w ≠ .running) : Inv periodic (s.setState w) := by
  have hrun := hs.busy_not_running hbusy
  apply hs.write hw
  · exact fun hpc => hrun (hs.enter_running hpc)
  · exact fun hpc => Int.not_lt.mp fun hpos => hrun (hs.period_running hpc hpos)

theorem startState_ne_running (periodic : Bool) : Process.startState periodic ≠ .running := by
  cases periodic <;> decide

theorem System.counter_le_outstanding (s : System) :
    s.process.semState.counter ≤ s.outstanding := by
  unfold System.outstanding
  split <;> omega

theorem Inv.thread (hs : Inv periodic s) {state : ProcessState} {pc : ThreadPc}
    {entered : List ProcessState} (hentered : ∀ st ∈ entered, st = .running)
    (hbudget : entered.length + claimed pc ≤ s.entered.length + claimed s.process.pc)
    (henter : pc = .enter → state = .running)
    (hstate : state = .running → s.process.state = .running)
    (huse : InUse pc → InUse s.process.pc)
    (hperiod : pc = .waitPeriod → periodic = true ∧ InUse s.process.pc)
    (hpc : s.process.pc ≠ .ended) :
    Inv periodic { s with process := ⟨state, s.process.semState, pc⟩, entered := entered } where
  counter_nonneg := hs.counter_nonneg
  entered_running := hentered
  budget := by
    have hold := hs.budget
    show entered.length + claimed pc + s.process.semState.counter ≤ s.posts
    omega
  enter_running := henter
  busy_not_running := fun hbusy hrun => hs.busy_not_running hbusy (hstate hrun)
  period_running := by
    intro hwait hpos
    have hzero := hs.none_in_use (hperiod hwait).1 (hperiod hwait).2
    exact absurd hzero (Int.ne_of_gt hpos)
  one_token := hs.one_token
  none_in_use := fun hper hin => hs.none_in_use hper (huse hin)
  aperiodic := by
    rintro rfl hwait
    exact absurd (hperiod hwait).1 (by decide)
  ended := fun hstop => absurd (hs.ended hstop) hpc

/-- A wait that takes a token: of a periodic process it was the only one. -/
theorem Inv.token (hs : Inv periodic s) {pc : ThreadPc} (hne : s.process.semState.counter ≠ 0)
    (hclaim : claimed s.process.pc = 0) (huse : InUse pc) (hnotUser : claimed pc = 1)
    (henter : pc = .enter → s.process.state = .running) (hpc : s.process.pc ≠ .ended) :
    Inv periodic { s with process := ⟨s.process.state,
      { s.process.semState with counter := s.process.semState.counter - 1 }, pc⟩ } := by
  have hcounter := hs.counter_nonneg
  have hle := s.counter_le_outstanding
  have hout : ({ s with process := ⟨s.process.state,
      { s.process.semState with counter := s.process.semState.counter - 1 }, pc⟩ } :
        System).outstanding = s.outstanding - 1 := by
    simp only [System.outstanding]
    omega
  have hwait : pc ≠ .waitPeriod := by
    rintro rfl
    exact absurd huse (by decide)
  constructor
  case counter_nonneg =>
    show 0 ≤ s.process.semState.counter - 1
    omega
  case entered_running => exact hs.entered_running
  case budget =>
    have hold := hs.budget
    show (s.entered.length : Int) + claimed pc + (s.process.semState.counter - 1) ≤ s.posts
    omega
  case enter_running => exact henter
  case busy_not_running => exact hs.busy_not_running
  case period_running => exact fun h => absurd h hwait
  case one_token =>
    intro hper
    have hone := hs.one_token hper
    omega
  case none_in_use =>
    intro hper _
    have hone := hs.one_token hper
    omega
  case aperiodic => exact fun _ => hwait
  case ended => exact fun hstop => absurd (hs.ended hstop) hpc

theorem thread_inv (hs : Inv periodic s) {op : Process.ThreadOp}
    (h : step periodic s (.thread op) = some t) : Inv periodic t := by
  obtain ⟨p, hp, rfl⟩ := Option.map_eq_some_iff.mp h
  have hentered := hs.entered_running
  cases op with
  | take =>
    obtain ⟨hpc, hne, rfl⟩ := Process.threadStep_take hp
    apply hs.token hne <;> simp [hpc, claimed, InUse]
  | resume =>
    obtain ⟨hpc, hne, rfl⟩ := Process.threadStep_resume hp
    -- The wait of PERIODIC_WAIT goes on into the user's code without a test of the state.
    have hrun : s.process.state = .running := by
      apply hs.period_running hpc
      have hcounter := hs.counter_nonneg
      have hle := s.counter_le_outstanding
      omega
    apply hs.token hne <;> simp [hpc, claimed, InUse, hrun]
  | check =>
    obtain ⟨hpc, ⟨hrun, rfl⟩ | ⟨hrun, rfl⟩⟩ := Process.threadStep_check hp
    · apply hs.thread hentered <;> simp [hpc, claimed, InUse, hrun]
    · apply hs.thread hentered
      -- A token that finds another state than RUNNING is used up without an entry.
      case hbudget =>
        have hgone : claimed .waitRun = 0 := rfl
        have hclaimed : claimed .checkRun = 1 := rfl
        rw [hpc, hgone, hclaimed]
        omega
      all_goals simp [hpc, InUse]
  | enter =>
    obtain ⟨hpc, rfl⟩ := Process.threadStep_enter hp
    have hrun := hs.enter_running hpc
    apply hs.thread
    · simpa [hrun] using hentered
    all_goals simp [hpc, claimed, InUse, hrun]
  | complete =>
    obtain ⟨hpc, rfl⟩ := Process.threadStep_complete hp
    apply hs.thread hentered
    case hstate => cases periodic <;> exact fun h => by simp at h
    all_goals simp [hpc, claimed, InUse]
  | notify =>
    obtain ⟨hpc, rfl⟩ := Process.threadStep_notify hp
    apply hs.thread hentered <;> simp [hpc, claimed, InUse]
  | periodicWait =>
    obtain ⟨hpc, ⟨hper, rfl⟩ | ⟨-, rfl⟩⟩ := Process.threadStep_periodicWait hp
    · apply hs.thread hentered <;> simp [hpc, claimed, InUse, hper]
    · exact hs

theorem Inv.schedule (hs : Inv periodic s) {c : SchedulerPc} (hold : s.scheduler ≠ .posting)
    (hnew : c ≠ .posting) (hbusy : c.Busy → s.process.state ≠ .running) :
    Inv periodic { s with scheduler := c } := by
  have hout : ({ s with scheduler := c } : System).outstanding = s.outstanding := by
    simp only [System.outstanding, if_neg hold, if_neg hnew]
  exact hs.move rfl rfl rfl hout hbusy hs.ended

theorem Inv.setRunning (hs : Inv periodic s) (hC : TokenSafe periodic s .setRunning) :
    Inv periodic { s.setState .running with scheduler := .posting } := by
  have hout : ({ s.setState .running with scheduler := .posting } : System).outstanding
      = s.process.semState.counter + 1 := rfl
  constructor
  case counter_nonneg => exact hs.counter_nonneg
  case entered_running => exact hs.entered_running
  case budget => exact hs.budget
  case enter_running => exact fun _ => rfl
  case busy_not_running => exact fun hbusy => absurd rfl hbusy.2
  case period_running => exact fun _ _ => rfl
  case one_token =>
    intro hper
    rw [hout, (hC hper).1]
    decide
  case none_in_use => exact fun hper huse => absurd huse (hC hper).2
  case aperiodic => exact hs.aperiodic
  case ended => exact hs.ended

theorem Inv.posted (hs : Inv periodic s) (hold : s.scheduler = .posting) :
    Inv periodic { s with process := s.process.postStateChange, scheduler := .idle,
                          posts := s.posts + 1 } := by
  have hcounter := hs.counter_nonneg
  have hout : s.outstanding = s.process.semState.counter + 1 := by
    rw [System.outstanding, if_pos hold]
  -- at its maximum the semaphore refuses the post
  have hnew : s.process.semState.counter ≤ s.process.semState.post.1.counter ∧
      s.process.semState.post.1.counter ≤ s.process.semState.counter + 1 := by
    unfold Semaphore.post
    split <;> constructor <;> simp only [] <;> omega
  have hout' : ({ s with process := s.process.postStateChange, scheduler := .idle,
                         posts := s.posts + 1 } : System).outstanding
      = s.process.semState.post.1.counter := Int.add_zero _
  constructor
  case counter_nonneg => exact Int.le_trans hcounter hnew.1
  case entered_running => exact hs.entered_running
  case budget =>
    have hbudget := hs.budget
    show (s.entered.length : Int) + claimed s.process.pc + s.process.semState.post.1.counter
      ≤ s.posts + 1
    omega
  case enter_running => exact hs.enter_running
  case busy_not_running => exact fun hbusy => absurd rfl hbusy.1
  case period_running =>
    intro hwait _
    apply hs.period_running hwait
    omega
  case one_token =>
    intro hper
    have hone := hs.one_token hper
    rw [hout']
    omega
  case none_in_use =>
    intro hper huse
    have hzero := hs.none_in_use hper huse
    omega
  case aperiodic => exact hs.aperiodic
  case ended => exact hs.ended

theorem Inv.cancelled (hs : Inv periodic s) :
    Inv periodic { s with process := { s.process with pc := .ended } } where
  counter_nonneg := hs.counter_nonneg
  entered_running := hs.entered_running
  budget := by
    have hbudget := hs.budget
    have hclaimed : 0 ≤ claimed s.process.pc := by
      unfold claimed
      split <;> decide
    show (s.entered.length : Int) + 0 + s.process.semState.counter ≤ s.posts
    omega
  enter_running := nofun
  busy_not_running := hs.busy_not_running
  period_running := nofun
  one_token := hs.one_token
  none_in_use := fun _ huse => by simp [InUse] at huse
  aperiodic := fun _ => nofun
  ended := fun _ => rfl

theorem Inv.reset (hs : Inv periodic s) (hC : s.outstanding = 0) (hold : s.stopper = .resetting) :
    Inv periodic { s.setState .dormant with stopper := .creating, posts := 0, entered := [] } where
  counter_nonneg := hs.counter_nonneg
  entered_running := nofun
  budget := by
    have hle := s.counter_le_outstanding
    have hended := hs.ended (Or.inl hold)
    show (0 : Int) + claimed s.process.pc + s.process.semState.counter ≤ 0
    rw [hended]
    show (0 : Int) + 0 + s.process.semState.counter ≤ 0
    omega
  enter_running := fun henter => absurd ((hs.ended (Or.inl hold)).symm.trans henter) nofun
  busy_not_running := fun _ => nofun
  period_running := fun _ hpos => absurd hC (Int.ne_of_gt hpos)
  one_token := hs.one_token
  none_in_use := hs.none_in_use
  aperiodic := hs.aperiodic
  ended := fun _ => hs.ended (Or.inl hold)

theorem Inv.createThread (hs : Inv periodic s) (hold : s.process.pc = .ended) :
    Inv periodic { s with process := { s.process with pc := .waitRun }, stopper := .idle } where
  counter_nonneg := hs.counter_nonneg
  entered_running := hs.entered_running
  budget := by
    have hbudget := hs.budget
    rw [hold] at hbudget
    exact hbudget
  enter_running := nofun
  busy_not_running := hs.busy_not_running
  period_running := nofun
  one_token := hs.one_token
  none_in_use := fun _ huse => by simp [InUse] at huse
  aperiodic := fun _ => nofun
  ended := by simp

theorem step_inv (s : System) (op : Op) (t : System) (hs : Inv periodic s)
    (hC : TokenSafe periodic s op) (h : step periodic s op = some t) : Inv periodic t := by
  have hidle : ¬ SchedulerPc.idle.Busy := fun hbusy => hbusy.1 rfl
  cases op with
  | thread op => exact thread_inv hs h
  | startTest =>
    obtain ⟨-, ht⟩ := Option.ite_none_right_eq_some.mp h
    obtain rfl := Option.some.inj ht
    exact hs.move rfl rfl rfl rfl hs.busy_not_running hs.ended
  | startSet normal =>
    obtain ⟨-, ht⟩ := Option.ite_none_right_eq_some.mp h
    obtain rfl := Option.some.inj ht
    -- START writes a state that is not RUNNING, so no token may stand for an entry just then.
    have hst : (if normal then Process.startState periodic
        else .waitingPartitionNotNormal) ≠ .running := by
      cases normal
      · exact nofun
      · exact startState_ne_running periodic
    have hw := hs.write hst hC.1 fun hpc => Int.le_of_eq (hC.2 hpc)
    exact hw.move rfl rfl rfl rfl hw.busy_not_running hw.ended
  | initTest =>
    obtain ⟨⟨hc, hst⟩, ht⟩ := Option.ite_none_right_eq_some.mp h
    obtain rfl := Option.some.inj ht
    apply hs.schedule (c := .initialising) (by simp [hc]) nofun
    rw [hst]
    exact fun _ => nofun
  | initSet =>
    obtain ⟨hc, ht⟩ := Option.ite_none_right_eq_some.mp h
    obtain rfl := Option.some.inj ht
    have hw := hs.write_of_busy ⟨by simp [hc], by simp [hc]⟩ (startState_ne_running periodic)
    exact hw.schedule (by simp [System.setState, hc]) nofun fun hb => absurd hb hidle
  | releaseTest =>
    obtain ⟨⟨hc, hst⟩, ht⟩ := Option.ite_none_right_eq_some.mp h
    obtain rfl := Option.some.inj ht
    apply hs.schedule (c := .readying) (by simp [hc]) nofun
    rcases hst with hst | hst <;> rw [hst] <;> exact fun _ => nofun
  | setReady =>
    obtain ⟨hc, ht⟩ := Option.ite_none_right_eq_some.mp h
    obtain rfl := Option.some.inj ht
    have hw := hs.write_of_busy ⟨by simp [hc], by simp [hc]⟩ (w := .ready) nofun
    exact hw.schedule (by simp [System.setState, hc]) nofun fun _ => nofun
  | readyTest =>
    obtain ⟨hc, ht⟩ := Option.ite_none_right_eq_some.mp h
    obtain rfl := Option.some.inj ht
    have hbusy := hs.busy_not_running ⟨by simp [hc], by simp [hc]⟩
    apply hs.schedule (by simp [hc])
    · split <;> exact nofun
    · exact fun _ => hbusy
  | setRunning =>
    obtain ⟨-, ht⟩ := Option.ite_none_right_eq_some.mp h
    obtain rfl := Option.some.inj ht
    -- From here on the post is owed, and counts as outstanding.
    exact hs.setRunning hC
  | post =>
    obtain ⟨hc, ht⟩ := Option.ite_none_right_eq_some.mp h
    obtain rfl := Option.some.inj ht
    exact hs.posted hc
  | stopTest =>
    obtain ⟨-, ht⟩ := Option.ite_none_right_eq_some.mp h
    obtain rfl := Option.some.inj ht
    exact hs.move rfl rfl rfl rfl hs.busy_not_running (by simp)
  | setDormant =>
    obtain ⟨-, ht⟩ := Option.ite_none_right_eq_some.mp h
    obtain rfl := Option.some.inj ht
    have hw := hs.write (w := .dormant) nofun hC.1 fun hpc => Int.le_of_eq (hC.2 hpc)
    exact hw.move rfl rfl rfl rfl hw.busy_not_running (by simp)
  | setRestarting =>
    obtain ⟨-, ht⟩ := Option.ite_none_right_eq_some.mp h
    obtain rfl := Option.some.inj ht
    have hw := hs.write (w := .restarting) nofun hC.1 fun hpc => Int.le_of_eq (hC.2 hpc)
    exact hw.move rfl rfl rfl rfl hw.busy_not_running (by simp)
  | cancel =>
    obtain ⟨-, ht⟩ := Option.ite_none_right_eq_some.mp h
    obtain rfl := Option.some.inj ht
    exact hs.move rfl rfl rfl rfl hs.busy_not_running (by simp)
  | cancelled =>
    obtain ⟨-, ht⟩ := Option.ite_none_right_eq_some.mp h
    obtain rfl := Option.some.inj ht
    exact hs.cancelled
  | joined =>
    obtain ⟨⟨-, hpc⟩, ht⟩ := Option.ite_none_right_eq_some.mp h
    obtain rfl := Option.some.inj ht
    exact hs.move rfl rfl rfl rfl hs.busy_not_running fun _ => hpc
  | reset =>
    obtain ⟨hc, ht⟩ := Option.ite_none_right_eq_some.mp h
    obtain rfl := Option.some.inj ht
    exact hs.reset hC hc
  | createThread =>
    obtain ⟨hc, ht⟩ := Option.ite_none_right_eq_some.mp h
    obtain rfl := Option.some.inj ht
    -- The new thread begins at its first wait, with no token of the old one left.
    exact hs.createThread (hs.ended (Or.inr hc))

/-! ## The services as a whole -/

/-- A release that nobody interrupts is `Process.release`. -/
theorem release_run (hidle : s.scheduler = .idle) (hrel : s.process.Releasable) :
    run (step periodic) s [.releaseTest, .setReady, .readyTest, .setRunning, .post] =
      some { s with process := s.process.release, posts := s.posts + 1 } := by
  simp [run, step, hidle, hrel, System.setState, Process.setState, Process.release, Process.start]

/-- A stop that nobody interrupts is `Process.stop`, and a new incarnation. -/
theorem stop_run (hidle : s.stopper = .idle) (hpending : s.cancelPending = false)
    (hst : s.process.state ≠ .dormant) :
    run (step periodic) s [.stopTest, .setDormant, .setRestarting, .cancel, .cancelled, .joined,
        .reset, .createThread] =
      some { s with process := s.process.stop, posts := 0, entered := [] } := by
  simp [run, step, hidle, hpending, hst, System.setState, Process.setState, Process.stop,
    Process.restart]

end

/-! ## Entries and tokens -/

/-- In every run that spares the tokens, the user's code is entered in state
    `RUNNING` only, and the entries of the incarnation that runs and the tokens
    still there were all posted for it. -/
theorem entries_on_tokens (periodic : Bool) (ops : List Op)
    (hC : Meets (step periodic) (TokenSafe periodic) create ops) (s : System)
    (h : run (step periodic) create ops = some s) :
    (∀ st ∈ s.entered, st = .running) ∧
      s.entered.length + s.process.semState.counter ≤ s.posts := by
  have hs : Inv periodic s :=
    run_invariant_of_meets (I := Inv periodic) step_inv (create_inv periodic) hC h
  have hbudget := hs.budget
  have hclaimed : 0 ≤ claimed s.process.pc := by
    unfold claimed
    split <;> decide
  exact ⟨hs.entered_running, by omega⟩

/-- `START`, and the release the scheduler makes of it. -/
def startAndRelease : List Op :=
  [.startTest, .startSet true, .releaseTest, .setReady, .readyTest, .setRunning, .post]

/-- `STOP` of a thread at its wait. -/
def stopAtWait : List Op :=
  [.stopTest, .setDormant, .setRestarting, .cancel, .cancelled, .joined, .reset, .createThread]

/-- From the wait of `run` into the user's code. -/
def activate : List Op := [.thread .take, .thread .check, .thread .enter]

/-- A job, a stop while it waits for its period, and a job of the next incarnation. -/
def stoppedBetweenJobs : List Op :=
  startAndRelease ++ activate ++ [.thread .periodicWait] ++ stopAtWait ++ startAndRelease ++ activate

theorem entries_on_tokens_stoppedBetweenJobs :
    ∃ s, run (step true) create stoppedBetweenJobs = some s ∧ s.entered = [.running] ∧
      (∀ st ∈ s.entered, st = .running) ∧
      s.entered.length + s.process.semState.counter ≤ s.posts :=
  ⟨(run (step true) create stoppedBetweenJobs).get (by decide), (Option.some_get _).symm,
    by decide,
    entries_on_tokens true stoppedBetweenJobs (by decide) _ (Option.some_get _).symm⟩

/-- The process is stopped before its thread has taken the token of its release;
    after the next start and release it enters once in turn, and again out of
    `PERIODIC_WAIT` on the token that was left, in state `WAITING_ON_PERIOD`. -/
def stoppedBeforeTake : List Op :=
  startAndRelease ++ stopAtWait ++ startAndRelease ++ activate ++
    [.thread .periodicWait, .thread .resume, .thread .enter]

theorem stale_token_activates :
    ∃ s, run (step true) create stoppedBeforeTake = some s ∧
      s.entered = [.waitingOnPeriod, .running] ∧ ¬ (∀ st ∈ s.entered, st = .running) ∧
      ¬ (s.entered.length : Int) ≤ s.posts :=
  ⟨(run (step true) create stoppedBeforeTake).get (by decide), (Option.some_get _).symm,
    by decide, by decide, by decide⟩

end Arinc.Activation
