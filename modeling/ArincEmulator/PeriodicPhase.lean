import ArincEmulator.ProcessTable
import ArincEmulator.Lib.Phase

/- The releases of a periodic process stay in phase: from an accepted start on,
   the critical time of each release is the first one plus whole periods,
   however late the scheduler wakes and whatever deadlines are missed or
   replenished. What makes it so is that a token is never in the semaphore unless
   the process is `RUNNING`, and a start has to find none there. -/
namespace Arinc.PeriodicPhase
open Runs Phase ProcessTable

/-! ## The log of the scheduler -/

/-- The critical times of the releases, newest first. -/
def newestFirst : List Event → List Int
  | [] => []
  | .release nominal :: log => nominal.toNano :: newestFirst log
  | .notRunning :: log => newestFirst log
  | .missed :: log => newestFirst log

/-- The critical times of the releases since the last accepted start, in order. -/
def releases (d : Descriptor) : List Int := (newestFirst d.log).reverse

/-- Between two releases there is a check that found no job running. -/
def Separated (log : List Event) : Prop :=
  ∀ (l₁ l₂ l₃ : List Event) (r₁ r₂ : Timespec),
    log = l₁ ++ .release r₂ :: (l₂ ++ .release r₁ :: l₃) → .notRunning ∈ l₂

/-- No check has found the last release over. -/
def openRelease : List Event → Bool
  | [] => false
  | .release _ :: _ => true
  | .notRunning :: _ => false
  | .missed :: log => openRelease log

theorem openRelease_eq_false_of_newestFirst {log : List Event} (h : newestFirst log = []) :
    openRelease log = false := by
  induction log with
  | nil => rfl
  | cons e log ih =>
    cases e with
    | release nominal => simp [newestFirst] at h
    | notRunning => rfl
    | missed => exact ih h

theorem notRunning_mem_of_openRelease {l₂ l₃ : List Event} {r : Timespec}
    (h : openRelease (l₂ ++ .release r :: l₃) = false) : .notRunning ∈ l₂ := by
  induction l₂ with
  | nil => simp [openRelease] at h
  | cons e l₂ ih =>
    cases e with
    | release nominal => simp [openRelease] at h
    | notRunning => exact List.mem_cons_self
    | missed => exact List.mem_cons_of_mem _ (ih h)

theorem separated_nil : Separated [] := by
  intro l₁ l₂ l₃ r₁ r₂ h
  simp at h

theorem Separated.cons {log : List Event} (h : Separated log) {e : Event}
    (he : ∀ r, e = .release r → openRelease log = false) : Separated (e :: log) := by
  intro l₁ l₂ l₃ r₁ r₂ heq
  cases l₁ with
  | nil =>
    obtain ⟨hr, hlog⟩ := List.cons.inj heq
    have hover := he r₂ hr
    rw [hlog] at hover
    exact notRunning_mem_of_openRelease hover
  | cons _ l₁ => exact h l₁ l₂ l₃ r₁ r₂ (List.cons.inj heq).2

/-! ## Tokens of a periodic process -/

/-- Where the thread and the semaphore may be in each state of the process. -/
def Tokens (p : Process) : Prop :=
  0 ≤ p.semState.counter ∧ p.semState.maximumvalue = maxSemaphoreValue ∧
  match p.state with
  | .dormant => p.pc = .waitRun ∨ p.pc = .checkRun
  | .waitingPartitionNotNormal => p.semState.counter = 0 ∧ p.pc = .waitRun
  | .waitingOnPeriod =>
    p.semState.counter = 0 ∧ (p.pc = .waitRun ∨ p.pc = .tail ∨ p.pc = .waitPeriod)
  | .running =>
    (p.semState.counter = 1 ∧ (p.pc = .waitRun ∨ p.pc = .tail ∨ p.pc = .waitPeriod)) ∨
      (p.semState.counter = 0 ∧ (p.pc = .checkRun ∨ p.pc = .enter ∨ p.pc = .user))
  | _ => False

section
variable {p q : Process}

theorem tokens_create : Tokens Process.create := by
  refine ⟨?_, ?_, Or.inl ?_⟩ <;> decide

/-- The thread keeps to its places; only a job that ends leaves `RUNNING`. -/
theorem Tokens.thread (h : Tokens p) {o : Process.ThreadOp} (hstep : p.threadStep true o = some q) :
    Tokens q ∧ (q.state = p.state ∨ (p.state = .running ∧ q.state = .waitingOnPeriod)) := by
  obtain ⟨st, ⟨c, m⟩, pc⟩ := p
  obtain ⟨h0, hm, hplace⟩ := h
  simp only at h0 hm hplace
  -- A token goes with the thread from its wait to the end of the job, and the state with it.
  cases o with
  | take =>
    obtain ⟨rfl, hne, rfl⟩ := Process.threadStep_take hstep
    refine ⟨?_, Or.inl rfl⟩
    cases st <;> simp_all [Tokens]
    omega
  | check =>
    obtain ⟨rfl, ⟨rfl, rfl⟩ | ⟨hrun, rfl⟩⟩ := Process.threadStep_check hstep
    · simp_all [Tokens]
    · refine ⟨?_, Or.inl rfl⟩
      cases st <;> simp_all [Tokens]
  | enter =>
    obtain ⟨rfl, rfl⟩ := Process.threadStep_enter hstep
    refine ⟨?_, Or.inl rfl⟩
    cases st <;> simp_all [Tokens]
  | complete =>
    obtain ⟨rfl, rfl⟩ := Process.threadStep_complete hstep
    cases st <;> simp_all [Tokens]
  | notify =>
    obtain ⟨rfl, rfl⟩ := Process.threadStep_notify hstep
    refine ⟨?_, Or.inl rfl⟩
    cases st <;> simp_all [Tokens]
  | periodicWait =>
    obtain ⟨rfl, ⟨-, rfl⟩ | ⟨hfalse, -⟩⟩ := Process.threadStep_periodicWait hstep
    · cases st <;> simp_all [Tokens]
    · exact absurd hfalse (by decide)
  | resume =>
    obtain ⟨rfl, hne, rfl⟩ := Process.threadStep_resume hstep
    refine ⟨?_, Or.inl rfl⟩
    cases st <;> simp_all [Tokens]

theorem Tokens.running_of_user (h : Tokens p) (hpc : p.pc = .user) : p.state = .running := by
  obtain ⟨-, -, hplace⟩ := h
  cases hst : p.state <;> simp [hst, hpc] at hplace
  rfl

theorem Tokens.states (h : Tokens p) : p.state = .dormant ∨ p.state = .waitingPartitionNotNormal ∨
    p.state = .waitingOnPeriod ∨ p.state = .running := by
  obtain ⟨-, -, hplace⟩ := h
  cases hst : p.state <;> simp [hst] at hplace ⊢

theorem Tokens.waiting_of_releasable (h : Tokens p) (hrel : p.Releasable) :
    p.state = .waitingOnPeriod := by
  rcases hrel with hrel | hrel
  · exact hrel
  · have hstates := h.states
    simp [hrel] at hstates

theorem Tokens.release (h : Tokens p) (hwait : p.state = .waitingOnPeriod) :
    Tokens p.release ∧ p.release.state = .running := by
  obtain ⟨st, ⟨c, m⟩, pc⟩ := p
  obtain ⟨h0, hm, hplace⟩ := h
  simp only at h0 hm hwait
  subst hwait
  obtain ⟨rfl, hpc⟩ := hplace
  subst hm
  have hone : (0 : Int) ≤ 1 := by decide
  exact ⟨⟨hone, rfl, Or.inl ⟨rfl, hpc⟩⟩, rfl⟩

theorem Tokens.stop (h : Tokens p) : Tokens p.stop := ⟨h.1, h.2.1, Or.inl rfl⟩

theorem Tokens.start (h : Tokens p) (hcounter : p.semState.counter = 0) (hpc : p.pc = .waitRun) :
    Tokens (p.setState .waitingOnPeriod) ∧ Tokens (p.setState .waitingPartitionNotNormal) :=
  ⟨⟨h.1, h.2.1, hcounter, Or.inl hpc⟩, h.1, h.2.1, hcounter, hpc⟩

end

/-! ## The descriptor of a periodic process -/

/-- What holds of the descriptor between any two steps; `scheduling` tells whether
    the scheduler has begun. -/
structure Phased (period : Int) (scheduling : Bool) (d : Descriptor) : Prop where
  tokens : Tokens d.process
  normalized : d.absoluteNextScheduledTime.Normalized
  delay_nonneg : 0 ≤ d.initialDelayTime
  before : scheduling = false → d.nextSchedulingInstance = .releaseProcess
  running_checked : d.process.state = .running → d.nextSchedulingInstance = .checkDeadline
  waiting_due : d.process.state = .waitingOnPeriod → d.nextSchedulingInstance = .releaseProcess →
    d.absoluteCriticalTime = d.absoluteNextScheduledTime ∧ openRelease d.log = false
  fresh : d.process.state = .waitingPartitionNotNormal → newestFirst d.log = []
  /-- The next scheduled time is where the next release will be. -/
  ahead : InPhase period (d.absoluteNextScheduledTime.toNano :: newestFirst d.log)
  deadline : newestFirst d.log ≠ [] → d.deadlineTime.toNano ≤ d.absoluteNextScheduledTime.toNano
  separated : Separated d.log

theorem phased_create (period : Int) : Phased period false Descriptor.create where
  tokens := tokens_create
  normalized := by decide
  delay_nonneg := by decide
  before := fun _ => rfl
  running_checked := nofun
  waiting_due := nofun
  fresh := nofun
  ahead := List.isChain_singleton _
  deadline := fun h => absurd rfl h
  separated := separated_nil

section
variable {a : AcceptedAttributes} {scheduling : Bool} {d e : Descriptor}

theorem Phased.weaken (h : Phased a.period scheduling d) : Phased a.period true d :=
  { h with before := nofun }

theorem Phased.thread (h : Phased a.period scheduling d) {o : Process.ThreadOp} {p : Process}
    (hstep : d.process.threadStep true o = some p) :
    Phased a.period scheduling { d with process := p } := by
  obtain ⟨htokens, hst⟩ := h.tokens.thread hstep
  constructor
  case tokens => exact htokens
  case normalized => exact h.normalized
  case delay_nonneg => exact h.delay_nonneg
  case before => exact h.before
  case running_checked =>
    intro hrun
    rcases hst with hst | ⟨-, hwait⟩
    · exact h.running_checked (hst ▸ hrun)
    · rw [hwait] at hrun
      cases hrun
  case waiting_due =>
    intro hwait hnext
    rcases hst with hst | ⟨hrun, -⟩
    · exact h.waiting_due (hst ▸ hwait) hnext
    · -- the job that just ended is still to be checked
      rw [h.running_checked hrun] at hnext
      cases hnext
  case fresh =>
    intro hnot
    rcases hst with hst | ⟨-, hwait⟩
    · exact h.fresh (hst ▸ hnot)
    · rw [hwait] at hnot
      cases hnot
  case ahead => exact h.ahead
  case deadline => exact h.deadline
  case separated => exact h.separated

theorem Phased.stop (h : Phased a.period scheduling d) :
    Phased a.period scheduling d.stop.2 := by
  unfold Descriptor.stop
  split
  · exact h
  · exact { h with
      tokens := h.tokens.stop
      running_checked := nofun
      waiting_due := nofun
      fresh := nofun }

theorem Phased.delayedStart (h : Phased a.period scheduling d)
    (hper : a.toAttributes.isPeriodic = true) {mode : OperatingMode} {delay : Int} {now : ClockTime}
    {code : ReturnCode} (hdelay : 0 ≤ delay)
    (hsettled : d.process.state = .dormant →
      d.process.semState.counter = 0 ∧ d.process.pc = .waitRun)
    (hstep : d.delayedStart a.toAttributes mode delay now = some (code, e)) :
    Phased a.period scheduling e := by
  unfold Descriptor.delayedStart at hstep
  split at hstep
  · obtain ⟨-, rfl⟩ := Prod.mk.inj (Option.some.inj hstep)
    exact h
  · rename_i hdormant
    -- A DORMANT process is settled: no token is left over and its thread is at its first wait.
    obtain ⟨hcounter, hpc⟩ := hsettled (Decidable.of_not_not hdormant)
    obtain ⟨hwaiting, hnot⟩ := h.tokens.start hcounter hpc
    split at hstep
    · obtain ⟨next, hnext, hstep⟩ := Option.bind_eq_some_iff.mp hstep
      obtain ⟨deadline, -, hstep⟩ := Option.bind_eq_some_iff.mp hstep
      obtain ⟨-, rfl⟩ := Prod.mk.inj (Option.some.inj hstep)
      obtain ⟨m, rfl, -, hm, -⟩ := addTimeNano_cases hnext
      have hstate : Process.startState a.toAttributes.isPeriodic = .waitingOnPeriod := by
        rw [hper]
        rfl
      rw [hstate]
      exact {
        tokens := hwaiting
        normalized := normalized_addNano now.normalized (Int.le_trans hdelay hm)
        delay_nonneg := h.delay_nonneg
        before := fun _ => rfl
        running_checked := nofun
        waiting_due := fun _ _ => ⟨rfl, rfl⟩
        fresh := fun _ => rfl
        ahead := List.isChain_singleton _
        deadline := fun hne => absurd rfl hne
        separated := separated_nil }
    · obtain ⟨-, rfl⟩ := Prod.mk.inj (Option.some.inj hstep)
      exact {
        tokens := hnot
        normalized := h.normalized
        delay_nonneg := hdelay
        before := h.before
        running_checked := nofun
        waiting_due := nofun
        fresh := fun _ => rfl
        ahead := List.isChain_singleton _
        deadline := fun hne => absurd rfl hne
        separated := separated_nil }

/-- The scheduler's first look, before it has made a pass. -/
theorem Phased.initialise (h : Phased a.period false d) (hper : a.toAttributes.isPeriodic = true)
    {now : ClockTime} (hstep : d.initialise a.toAttributes now = some e) :
    Phased a.period false e := by
  unfold Descriptor.initialise at hstep
  split at hstep
  -- Started before the mode was NORMAL: it gets its first release time now.
  · rename_i hnot
    obtain ⟨next, hnext, hstep⟩ := Option.bind_eq_some_iff.mp hstep
    obtain rfl := Option.some.inj hstep
    have hnorm : next.Normalized := by
      split at hnext
      · obtain rfl := Option.some.inj hnext
        exact now.normalized
      · obtain ⟨m, rfl, -, hm, -⟩ := addTimeNano_cases hnext
        exact normalized_addNano now.normalized (Int.le_trans h.delay_nonneg hm)
    obtain ⟨h0, hm, hplace⟩ := h.tokens
    rw [hnot] at hplace
    have hwaiting : Tokens (d.process.setState .waitingOnPeriod) :=
      ⟨h0, hm, hplace.1, Or.inl hplace.2⟩
    have hlog := h.fresh hnot
    have hstate : Process.startState a.toAttributes.isPeriodic = .waitingOnPeriod := by
      rw [hper]
      rfl
    rw [hstate]
    exact {
      tokens := hwaiting
      normalized := hnorm
      delay_nonneg := h.delay_nonneg
      before := fun _ => rfl
      running_checked := nofun
      waiting_due := fun _ _ => ⟨rfl, openRelease_eq_false_of_newestFirst hlog⟩
      fresh := fun _ => hlog
      ahead := by
        rw [hlog]
        exact List.isChain_singleton _
      deadline := fun hne => absurd hlog hne
      separated := h.separated }
  · obtain rfl := Option.some.inj hstep
    have hnext := h.before rfl
    exact { h with
      before := fun _ => rfl
      running_checked := fun hrun => by
        rw [h.running_checked hrun] at hnext
        cases hnext
      waiting_due := fun hwait _ => h.waiting_due hwait hnext }

/-- An accepted replenishment moves the deadline of a running job, and not past
    the next scheduled time. -/
theorem Phased.replenish (h : Phased a.period scheduling d)
    (hper : a.toAttributes.isPeriodic = true) {mode : OperatingMode} {budget : Int}
    {now : ClockTime} {code : ReturnCode} (hpc : d.process.pc = .user)
    (hstep : d.replenish a.toAttributes mode budget now = some (code, e)) :
    Phased a.period scheduling e := by
  have hrun := h.tokens.running_of_user hpc
  unfold Descriptor.replenish at hstep
  split at hstep
  · obtain ⟨-, rfl⟩ := Prod.mk.inj (Option.some.inj hstep)
    exact h
  split at hstep
  · obtain ⟨-, rfl⟩ := Prod.mk.inj (Option.some.inj hstep)
    exact h
  split at hstep
  · obtain ⟨-, rfl⟩ := Prod.mk.inj (Option.some.inj hstep)
    exact h
  obtain ⟨newDeadline, hnew, hstep⟩ := Option.bind_eq_some_iff.mp hstep
  split at hstep
  · obtain ⟨-, rfl⟩ := Prod.mk.inj (Option.some.inj hstep)
    exact h
  rename_i hlater
  obtain ⟨-, rfl⟩ := Prod.mk.inj (Option.some.inj hstep)
  rw [computeDeadlineTimeSpecs_eq] at hnew
  obtain ⟨m, rfl, -⟩ := addTimeNano_cases hnew
  -- A periodic process is refused a deadline at or past its next release.
  have hbefore : (addNano now.toTimespec m).toNano < d.absoluteNextScheduledTime.toNano := by
    apply lt_of_compareTime_false h.normalized (addNano_tvNsec_lt _ _)
    simpa [hper] using hlater
  exact { h with
    waiting_due := fun hwait => by
      rw [hrun] at hwait
      cases hwait
    deadline := fun _ => Int.le_of_lt hbefore }

/-- `RELEASE_PROCESS`: on the next scheduled time, which moves on by a period. -/
theorem Phased.releaseProcess (h : Phased a.period true d)
    (hper : a.toAttributes.isPeriodic = true) (hnext : d.nextSchedulingInstance = .releaseProcess)
    (hstep : d.releaseProcess a.toAttributes = some e) : Phased a.period true e := by
  obtain ⟨hcap, hle, hmax⟩ := a.periodic_bounds hper
  unfold Descriptor.releaseProcess at hstep
  split at hstep
  · rename_i hrel
    have hwait := h.tokens.waiting_of_releasable hrel
    obtain ⟨htokens, hstate⟩ := h.tokens.release hwait
    -- The critical time of a process that waits is its release time, and the last deadline is over.
    obtain ⟨hdue, hover⟩ := h.waiting_due hwait hnext
    obtain ⟨next, hadd, hstep⟩ := Option.bind_eq_some_iff.mp hstep
    obtain ⟨deadline, hdeadline, hstep⟩ := Option.bind_eq_some_iff.mp hstep
    obtain rfl := Option.some.inj hstep
    rw [addTimeNano_of_nonneg (by omega) hmax, hdue] at hadd
    obtain rfl := Option.some.inj hadd
    rw [computeDeadlineTimeSpecs_eq, addTimeNano_of_nonneg (by omega) (by omega), hdue] at hdeadline
    obtain rfl := Option.some.inj hdeadline
    exact {
      tokens := htokens
      normalized := normalized_addNano h.normalized (by omega)
      delay_nonneg := h.delay_nonneg
      before := nofun
      running_checked := fun _ => rfl
      waiting_due := fun _ hcheck => by cases hcheck
      fresh := fun hnot => by
        rw [hstate] at hnot
        cases hnot
      ahead := by
        show InPhase a.period ((addNano d.absoluteNextScheduledTime a.period).toNano ::
          d.absoluteCriticalTime.toNano :: newestFirst d.log)
        rw [toNano_addNano, hdue]
        exact h.ahead.next
      deadline := fun _ => by
        simp only [toNano_addNano]
        omega
      separated := h.separated.cons fun _ _ => hover }
  · obtain rfl := Option.some.inj hstep
    exact h

/-- The periods a missed deadline skips are whole ones. -/
theorem skipPeriods_spec {period : Int} (h0 : 0 < period) (hmax : period ≤ maxTimeOut)
    {critical next last : Timespec} {fuel : Nat} (hnorm : next.Normalized)
    (h : Descriptor.skipPeriods period critical fuel next = some last) :
    last.Normalized ∧ ∃ m : Int, 0 ≤ m ∧ last.toNano = next.toNano + m * period := by
  induction fuel generalizing next with
  | zero => simp [Descriptor.skipPeriods] at h
  | succ fuel ih =>
    simp only [Descriptor.skipPeriods] at h
    split at h
    · rw [addTimeNano_of_nonneg (Int.le_of_lt h0) hmax] at h
      obtain ⟨hlast, m, hm, heq⟩ := ih (normalized_addNano hnorm (Int.le_of_lt h0)) h
      refine ⟨hlast, m + 1, by omega, ?_⟩
      rw [heq, toNano_addNano, Int.add_mul, Int.one_mul]
      omega
    · obtain rfl := Option.some.inj h
      exact ⟨hnorm, 0, Int.le_refl 0, by rw [Int.zero_mul, Int.add_zero]⟩

/-- `CHECK_DEADLINE`: the release is over, or its job has missed the deadline. -/
theorem Phased.checkDeadline (h : Phased a.period true d)
    (hper : a.toAttributes.isPeriodic = true) {c : ClockTime}
    (hstep : d.checkDeadline a.toAttributes c = some e) :
    Phased a.period true e := by
  obtain ⟨hcap, hle, hmax⟩ := a.periodic_bounds hper
  have hperiod : 0 < a.period := by omega
  unfold Descriptor.checkDeadline at hstep
  -- DORMANT or waiting for its period: the job is over. Else the deadline is missed, and the
  -- process is stopped (HARD) or goes on with its next deadline moved on by whole periods.
  split at hstep
  · rename_i hdormant
    obtain rfl := Option.some.inj hstep
    exact { h with
      before := nofun
      running_checked := fun hrun => by
        rw [hdormant] at hrun
        cases hrun
      waiting_due := fun hwait => by
        rw [hdormant] at hwait
        cases hwait
      separated := h.separated.cons nofun }
  split at hstep
  · rename_i hwait
    obtain rfl := Option.some.inj hstep
    exact { h with
      before := nofun
      running_checked := fun hrun => by
        rw [hwait] at hrun
        cases hrun
      waiting_due := fun _ _ => ⟨rfl, rfl⟩
      separated := h.separated.cons nofun }
  rename_i hnotDormant hnotWaiting
  split at hstep
  · obtain rfl := Option.some.inj hstep
    exact { h with
      tokens := h.tokens.stop
      before := nofun
      running_checked := nofun
      waiting_due := nofun
      fresh := nofun
      separated := h.separated.cons nofun }
  · obtain ⟨critical, -, hstep⟩ := Option.bind_eq_some_iff.mp hstep
    obtain ⟨next, hskip, hstep⟩ := Option.bind_eq_some_iff.mp hstep
    obtain rfl := Option.some.inj hstep
    obtain ⟨hnorm, m, hm, hlast⟩ := skipPeriods_spec hperiod hmax h.normalized hskip
    exact {
      tokens := h.tokens
      normalized := hnorm
      delay_nonneg := h.delay_nonneg
      before := nofun
      running_checked := h.running_checked
      waiting_due := fun hwait => absurd hwait hnotWaiting
      fresh := h.fresh
      ahead := by
        show InPhase a.period (next.toNano :: newestFirst d.log)
        rw [hlast]
        exact h.ahead.skip hm
      deadline := fun hne => by
        have hold := h.deadline hne
        have hgrow : 0 ≤ m * a.period := Int.mul_nonneg hm (Int.le_of_lt hperiod)
        show d.deadlineTime.toNano ≤ next.toNano
        omega
      separated := h.separated.cons nofun }

theorem Phased.act (h : Phased a.period true d) (hper : a.toAttributes.isPeriodic = true)
    {c : ClockTime} (hstep : d.act a.toAttributes c = some e) : Phased a.period true e := by
  unfold Descriptor.act at hstep
  split at hstep
  · rename_i hnext
    exact h.releaseProcess hper hnext hstep
  · exact h.checkDeadline hper hstep

end

/-! ## Runs of the table -/

section
variable {n : Nat} (attr : Fin n → AcceptedAttributes) (i : Fin n)

/-- A start of process `i` finds its thread at its wait and no token. -/
def Settled (t : Table n) : Op n → Prop
  | .delayedStart id _ _ =>
    id = i → (t.descriptors i).process.state = .dormant →
      (t.descriptors i).process.semState.counter = 0 ∧ (t.descriptors i).process.pc = .waitRun
  | _ => True

instance (t : Table n) : (op : Op n) → Decidable (Settled i t op)
  | .delayedStart _ _ _ => inferInstanceAs (Decidable (_ → _ → _ ∧ _))
  | .setNormal | .initScheduler _ | .stop _ | .thread _ _ | .replenish _ _ _
  | .pass _ _ _ _ => isTrue trivial

/-- The invariant of descriptor `i`, in the table. -/
def Good (t : Table n) : Prop := Phased (attr i).period t.scheduling (t.descriptors i)

variable {attr i} {t u : Table n}

theorem Good.set {j : Fin n} {d : Descriptor} (ht : Good attr i t)
    (hd : j = i → Phased (attr i).period t.scheduling d) : Good attr i (t.set j d) := by
  show Phased _ t.scheduling (Function.update t.descriptors j d i)
  by_cases hj : j = i
  · subst hj
    rw [Function.update_self]
    exact hd rfl
  · rw [Function.update_of_ne (Ne.symm hj)]
    exact ht

theorem step_good (hper : (attr i).toAttributes.isPeriodic = true) (t : Table n) (op : Op n)
    (u : Table n) (ht : Good attr i t) (hC : Settled i t op) (h : step attr t op = some u) :
    Good attr i u := by
  cases op with
  | setNormal =>
    simp only [step] at h
    split at h
    · simp at h
    · obtain rfl := Option.some.inj h
      exact ht
  | initScheduler clock =>
    obtain ⟨⟨-, hnot⟩, hvisit⟩ := Option.ite_none_right_eq_some.mp h
    -- Until the scheduler runs nothing is released, so the phase is the one before the first.
    have hbefore : Phased (attr i).period false (t.descriptors i) := by
      have hphased := ht
      unfold Good at hphased
      rwa [hnot] at hphased
    obtain ⟨hafter, -, hscheduling⟩ := visit_keeps (P := Phased (attr i).period false)
      (t := { t with scheduling := true }) (fun d e hd he => hd.initialise hper he) hbefore hvisit
    unfold Good
    rw [hscheduling]
    exact hafter.weaken
  | delayedStart id delay now =>
    obtain ⟨⟨code, u⟩, hstart, rfl⟩ := Option.map_eq_some_iff.mp h
    unfold delayedStart at hstart
    split at hstart
    · obtain ⟨-, rfl⟩ := Prod.mk.inj (Option.some.inj hstart)
      exact ht
    split at hstart
    · rename_i hdelay hid
      obtain ⟨⟨code', d⟩, hd, heq⟩ := Option.map_eq_some_iff.mp hstart
      obtain ⟨-, rfl⟩ := Prod.mk.inj heq
      apply ht.set
      rintro rfl
      exact Phased.delayedStart ht hper (Int.not_lt.mp hdelay) (hC rfl) hd
    · obtain ⟨-, rfl⟩ := Prod.mk.inj (Option.some.inj hstart)
      exact ht
  | stop id =>
    obtain rfl := Option.some.inj h
    unfold stop
    split
    · apply ht.set
      rintro rfl
      exact Phased.stop ht
    · exact ht
  | thread j o =>
    obtain ⟨p, hp, rfl⟩ := Option.map_eq_some_iff.mp h
    apply ht.set
    rintro rfl
    rw [hper] at hp
    exact Phased.thread ht hp
  | replenish j budget now =>
    obtain ⟨hpc, hmap⟩ := Option.ite_none_right_eq_some.mp h
    obtain ⟨⟨code, d⟩, hd, rfl⟩ := Option.map_eq_some_iff.mp hmap
    apply ht.set
    rintro rfl
    exact Phased.replenish ht hper hpc hd
  | pass order now wake clock =>
    -- A pass visits the descriptors in some order, this one at most once.
    obtain ⟨⟨hscheduling, -⟩, hpass⟩ := Option.ite_none_right_eq_some.mp h
    split at hpass
    · obtain rfl := Option.some.inj hpass
      exact ht
    · split at hpass
      · obtain rfl := Option.some.inj hpass
        exact ht
      · have hbefore : Phased (attr i).period true (t.descriptors i) := Phased.weaken ht
        obtain ⟨hafter, -, hsame⟩ := visit_keeps (P := Phased (attr i).period true)
          (fun d e hd he => hd.act hper he) hbefore hpass
        unfold Good
        rw [hsame, hscheduling]
        exact hafter

/-- A process in phase since its last accepted start, `period` and the descriptor
    given: its releases are whole periods after the first, it is not scheduled
    next before the deadline of the last one, and no release comes before the
    last one has been found over. -/
structure StaysInPhase (period : Int) (d : Descriptor) : Prop where
  multiples : ∀ first rest, releases d = first :: rest →
    ∃ ks : List Int, rest = ks.map (fun k => first + k * period) ∧ (0 :: ks).Pairwise (· < ·)
  deadline : releases d ≠ [] → d.deadlineTime.toNano ≤ d.absoluteNextScheduledTime.toNano
  separated : Separated d.log

theorem Phased.staysInPhase {period : Int} {scheduling : Bool} {d : Descriptor}
    (h : Phased period scheduling d) : StaysInPhase period d where
  multiples _ _ heq := h.ahead.tail.multiples heq
  deadline hne := h.deadline fun hnil => hne (by rw [releases, hnil, List.reverse_nil])
  separated := h.separated

end

/-- In every run in which the starts of a periodic process find its thread at its
    wait and no token left, its releases stay in phase. -/
theorem releases_in_phase {n : Nat} (attr : Fin n → AcceptedAttributes) (i : Fin n)
    (hper : (attr i).toAttributes.isPeriodic = true) (ops : List (Op n))
    (hC : Meets (step attr) (Settled i) (start n) ops) (t : Table n)
    (h : run (step attr) (start n) ops = some t) :
    StaysInPhase (attr i).period (t.descriptors i) := by
  have hstart : Good attr i (start n) := phased_create _
  have ht : Good attr i t := run_invariant_of_meets (I := Good attr i) (step_good hper) hstart hC h
  exact Phased.staysInPhase ht

/-- A soft process with a period of one second and half of it to run. -/
def halfSecond : AcceptedAttributes :=
  ⟨⟨"sampler", false, 90, 500000000, 1000000000, .soft⟩, by decide⟩

theorem normalized_millisecond (second : Int) (millisecond : Fin 1000) :
    Timespec.Normalized ⟨second, millisecond * 1000000⟩ := by
  simp only [Timespec.Normalized, nano]
  omega

/-- The clock at a second and a millisecond. -/
def clockAt (second : Int) (millisecond : Fin 1000) : ClockTime where
  tvSec := second
  tvNsec := millisecond * 1000000
  normalized := normalized_millisecond second millisecond

/-- A pass over one process that wakes at the given time. -/
def passAt (second : Int) (millisecond : Fin 1000) : Op 1 :=
  .pass [0] (clockAt second millisecond) (some (clockAt second millisecond))
    fun _ => clockAt second millisecond

/-- The thread enters the user's code on the token of its release. -/
def enterJob : List (Op 1) := [.thread 0 .take, .thread 0 .check, .thread 0 .enter]

/-- The scheduler wakes two seconds late for the first release, the job misses a
    deadline, and the next release is handled four periods after the first. -/
def lateJob : List (Op 1) :=
  [.setNormal, .initScheduler fun _ => clockAt 9 0, .delayedStart 0 0 (clockAt 10 0),
    passAt 12 0] ++ enterJob ++
  [passAt 12 100, .replenish 0 500000000 (clockAt 12 200), .thread 0 .complete, .thread 0 .notify,
    passAt 13 200, passAt 14 0]

theorem releases_in_phase_lateJob :
    ∃ t, run (step fun _ => halfSecond) (start 1) lateJob = some t ∧
      releases (t.descriptors 0) = [10000000000, 14000000000] ∧
      StaysInPhase 1000000000 (t.descriptors 0) :=
  ⟨(run (step fun _ => halfSecond) (start 1) lateJob).get (by decide), (Option.some_get _).symm,
    by decide,
    releases_in_phase (fun _ => halfSecond) 0 (by decide) lateJob (by decide) _
      (Option.some_get _).symm⟩

/-- The process is stopped before it has taken the token of its release. After
    the next start its job waits for its period, goes on at once on that token,
    and replenishes its budget while it counts as waiting. -/
def leftToken : List (Op 1) :=
  [.setNormal, .initScheduler fun _ => clockAt 9 0, .delayedStart 0 0 (clockAt 10 0),
    passAt 10 0, .stop 0, .delayedStart 0 0 (clockAt 20 0), passAt 20 0] ++ enterJob ++
  [.thread 0 .periodicWait, .thread 0 .resume, .thread 0 .enter, passAt 20 500,
    .replenish 0 200000000 (clockAt 20 600), passAt 20 800]

/-- The second release is handled eight tenths of a period after the first. -/
theorem left_token_breaks_phase :
    ∃ t, run (step fun _ => halfSecond) (start 1) leftToken = some t ∧
      releases (t.descriptors 0) = [20000000000, 20800000000] ∧
      ¬ StaysInPhase 1000000000 (t.descriptors 0) := by
  refine ⟨(run (step fun _ => halfSecond) (start 1) leftToken).get (by decide),
    (Option.some_get _).symm, by decide, fun h => ?_⟩
  obtain ⟨ks, hks, -⟩ := h.multiples 20000000000 [20800000000] (by decide)
  obtain ⟨k, ks, rfl, hk, -⟩ := List.map_eq_cons_iff.mp hks.symm
  omega

end Arinc.PeriodicPhase
