import Mathlib.Data.List.FinRange
import Mathlib.Data.List.Perm.Basic
import ArincEmulator.Process
import ArincEmulator.Time
import ArincEmulator.Lib.Runs

/- The process table of a partition: the descriptors, the services that write
   them and the passes of the partition scheduler (`RunPartitionScheduler`). A
   service call and a pass are one step each; what the clock reads is part of the
   label. The order of the scheduling vector is too: a pass begins with a sort,
   of which the step only knows that it permutes the descriptors. A pass that
   waits for ever on a missed deadline (`Descriptor.Waits`) is no step: the run
   ends there. -/
namespace Arinc.ProcessTable
open Runs

/-- `NEXT_SCHEDULING_INSTANCE_TYPE`. -/
inductive SchedulingInstance where
  | releaseProcess
  | checkDeadline
  deriving DecidableEq, Repr

/-- What the scheduler did to a process: a release, with the critical time it was
    handled for, a check that found no job running, a missed deadline. -/
inductive Event where
  | release (nominal : Timespec)
  | notRunning
  | missed
  deriving DecidableEq, Repr

/-- `PROCESS_DESCRIPTOR`, and what the scheduler did since the last accepted
    start, newest first. -/
structure Descriptor where
  absoluteCriticalTime : Timespec
  absoluteNextScheduledTime : Timespec
  deadlineTime : Timespec
  initialDelayTime : Int
  nextSchedulingInstance : SchedulingInstance
  process : Process
  log : List Event
  deriving DecidableEq, Repr

namespace Descriptor

/-- A new descriptor. The constructor leaves the times and the delay as they are
    in memory; here that holds zeros. -/
def create : Descriptor := ⟨⟨0, 0⟩, ⟨0, 0⟩, ⟨0, 0⟩, 0, .releaseProcess, Process.create, []⟩

/-- `DELAYED_START` past the checks of its arguments. -/
def delayedStart (a : Attributes) (mode : OperatingMode) (delay : Int) (now : ClockTime)
    (d : Descriptor) : Option (ReturnCode × Descriptor) :=
  if d.process.state ≠ .dormant then some (.noAction, d)
  else if mode = .normal then do
    let next ← addTimeNano now.toTimespec delay
    let deadline ← addTimeNano next a.timeCapacity
    some (.noError,
      { d with
        process := d.process.setState (Process.startState a.isPeriodic)
        absoluteNextScheduledTime := next
        deadlineTime := deadline
        absoluteCriticalTime := next
        nextSchedulingInstance := .releaseProcess
        log := [] })
  else
    -- the scheduler writes the times when it first finds the process so
    some (.noError,
      { d with
        process := d.process.setState .waitingPartitionNotNormal
        initialDelayTime := delay
        log := [] })

/-- `STOP` past the check of its argument. -/
def stop (d : Descriptor) : ReturnCode × Descriptor :=
  if d.process.state = .dormant then (.noAction, d)
  else (.noError, { d with process := d.process.stop })

/-- `REPLENISH`, called by the process itself. -/
def replenish (a : Attributes) (mode : OperatingMode) (budget : Int) (now : ClockTime)
    (d : Descriptor) : Option (ReturnCode × Descriptor) :=
  if mode ≠ .normal then some (.noAction, d)
  else if budget ≠ infiniteTimeValue ∧ maxTimeOut < budget then some (.invalidParam, d)
  else if d.process.state = .dormant then some (.noAction, d)
  else do
    let newDeadline ← computeDeadlineTimeSpecs now.toTimespec budget
    if a.isPeriodic && compareTime d.absoluteNextScheduledTime newDeadline then
      some (.invalidMode, d)
    else some (.noError, { d with deadlineTime := newDeadline, absoluteCriticalTime := newDeadline })

/-- The scheduler's first look at a descriptor, before its first pass. -/
def initialise (a : Attributes) (now : ClockTime) (d : Descriptor) : Option Descriptor :=
  if d.process.state = .waitingPartitionNotNormal then do
    let next ← (if d.initialDelayTime = 0 then some now.toTimespec
      else addTimeNano now.toTimespec d.initialDelayTime)
    some { d with
      nextSchedulingInstance := .releaseProcess
      absoluteNextScheduledTime := next
      absoluteCriticalTime := next
      process := d.process.setState (Process.startState a.isPeriodic) }
  else some { d with nextSchedulingInstance := .releaseProcess }

/-- The loop after a missed soft deadline: the next scheduled time goes on by
    periods until it is past the new critical time. -/
def skipPeriods (period : Int) (critical : Timespec) : Nat → Timespec → Option Timespec
  | 0, _ => none
  | fuel + 1, next =>
    if compareTime next critical then
      (addTimeNano next period).bind (skipPeriods period critical fuel)
    else some next

/-- Rounds that are enough for `skipPeriods`. -/
def periodsFuel (critical next : Timespec) : Nat := (critical.toNano - next.toNano).toNat + 2

/-- `RELEASE_PROCESS`. -/
def releaseProcess (a : Attributes) (d : Descriptor) : Option Descriptor :=
  if d.process.Releasable then do
    let next ← (if a.isPeriodic then addTimeNano d.absoluteCriticalTime a.period
      else some d.absoluteNextScheduledTime)
    let deadline ← computeDeadlineTimeSpecs d.absoluteCriticalTime a.timeCapacity
    some { d with
      process := d.process.release
      absoluteNextScheduledTime := next
      deadlineTime := deadline
      absoluteCriticalTime := deadline
      nextSchedulingInstance := .checkDeadline
      log := .release d.absoluteCriticalTime :: d.log }
  else some d

/-- `CHECK_DEADLINE`, once it returns; `c` is the clock as a soft miss reads it. -/
def checkDeadline (a : Attributes) (c : ClockTime) (d : Descriptor) : Option Descriptor :=
  if d.process.state = .dormant then
    some { d with nextSchedulingInstance := .releaseProcess, log := .notRunning :: d.log }
  else if d.process.state = .waitingOnPeriod then
    some { d with
      absoluteCriticalTime := d.absoluteNextScheduledTime
      nextSchedulingInstance := .releaseProcess
      log := .notRunning :: d.log }
  else if a.deadline = .hard then
    some { d with
      process := d.process.stop
      nextSchedulingInstance := .releaseProcess
      log := .missed :: d.log }
  else do
    -- a soft deadline is looked at again a second later; the next release skips what was missed
    let critical ← addTimeNano c.toTimespec nano
    let next ← (if a.isPeriodic then
        skipPeriods a.period critical (periodsFuel critical d.absoluteNextScheduledTime)
          d.absoluteNextScheduledTime
      else some d.absoluteNextScheduledTime)
    some { d with
      absoluteCriticalTime := critical
      absoluteNextScheduledTime := next
      log := .missed :: d.log }

/-- The switch of the scheduler on `NEXT_SCHEDULING_INSTANCE`. -/
def act (a : Attributes) (c : ClockTime) (d : Descriptor) : Option Descriptor :=
  match d.nextSchedulingInstance with
  | .releaseProcess => d.releaseProcess a
  | .checkDeadline => d.checkDeadline a c

/-- What the actions on a missed deadline wait for: the thread that `stop(true)` has
    cancelled ends, and the buffer of the health manager, if the process has one,
    takes the error that `RAISE_APPLICATION_ERROR` sends without a time-out. -/
structure Waits where
  threadEnds : Bool
  errorTaken : Bool
  deriving DecidableEq, Repr

/-- The switch finds a job that is not over at its deadline. -/
def MissesDeadline (d : Descriptor) : Prop :=
  d.nextSchedulingInstance = .checkDeadline ∧ d.process.state ≠ .dormant ∧
    d.process.state ≠ .waitingOnPeriod

instance (d : Descriptor) : Decidable d.MissesDeadline := inferInstanceAs (Decidable (_ ∧ _ ∧ _))

/-- The switch returns: a thread is cancelled and joined on a hard miss only, the error
    is sent on every miss. -/
def Returns (a : Attributes) (w : Waits) (d : Descriptor) : Prop :=
  d.MissesDeadline → (a.deadline = .hard → w.threadEnds = true) ∧ w.errorTaken = true

instance (a : Attributes) (w : Waits) (d : Descriptor) : Decidable (d.Returns a w) :=
  inferInstanceAs (Decidable (_ → (_ → _) ∧ _))

end Descriptor

/-! ## The table -/

/-- The partition: its mode, whether its scheduler has begun to make passes, and
    a descriptor for each process. -/
structure Table (n : Nat) where
  mode : OperatingMode
  scheduling : Bool
  descriptors : Fin n → Descriptor

/-- A partition before `SET_PARTITION_MODE`. -/
def start (n : Nat) : Table n := ⟨.coldStart, false, fun _ => Descriptor.create⟩

variable {n : Nat}

/-- Descriptor `i` is replaced. -/
def Table.set (t : Table n) (i : Fin n) (d : Descriptor) : Table n :=
  { t with descriptors := Function.update t.descriptors i d }

@[simp] theorem Table.set_self (t : Table n) (i : Fin n) (d : Descriptor) :
    (t.set i d).descriptors i = d := Function.update_self ..

theorem Table.set_of_ne {i j : Fin n} (h : j ≠ i) (t : Table n) (d : Descriptor) :
    (t.set i d).descriptors j = t.descriptors j := Function.update_of_ne h ..

/-- A loop over descriptors that ends at the first one that is not `due`. -/
def visit (due : Descriptor → Bool) (f : Fin n → Descriptor → Option Descriptor) :
    List (Fin n) → Table n → Option (Table n)
  | [], t => some t
  | i :: is, t =>
    if due (t.descriptors i) then
      (f i (t.descriptors i)).bind fun d => visit due f is (t.set i d)
    else some t

/-- The steps of the partition. `pass` names the order of the scheduling vector
    after the sort, the clock before the sleep, the clock after it (`none` if an
    event ended it early) and the clock at each missed soft deadline. It is a pass
    that comes to its end: each of its actions returns. -/
inductive Op (n : Nat) where
  | setNormal
  | initScheduler (clock : Fin n → ClockTime)
  | delayedStart (id : Nat) (delay : Int) (now : ClockTime)
  | stop (id : Nat)
  | thread (i : Fin n) (op : Process.ThreadOp)
  | replenish (i : Fin n) (budget : Int) (now : ClockTime)
  | pass (order : List (Fin n)) (now : ClockTime) (wake : Option ClockTime)
      (clock : Fin n → ClockTime)

section
variable (attr : Fin n → AcceptedAttributes)

/-- The condition of the branch 'nothing to do', on the head of the vector. -/
def Idle (t : Table n) : List (Fin n) → Prop
  | [] => True
  | i :: _ =>
    (t.descriptors i).process.state = .dormant ∨
      ((attr i).timeCapacity = infiniteTimeValue ∧
        (t.descriptors i).nextSchedulingInstance = .checkDeadline)

instance (t : Table n) : (order : List (Fin n)) → Decidable (Idle attr t order)
  | [] => isTrue trivial
  | _ :: _ => inferInstanceAs (Decidable (_ ∨ _ ∧ _))

/-- The time a pass sleeps until: a second from now with nothing to do, else the
    critical time of the head. -/
def sleepUntil (t : Table n) (now : ClockTime) (order : List (Fin n)) : Timespec :=
  match order with
  | [] => addNano now.toTimespec nano
  | i :: _ =>
    if Idle attr t order then addNano now.toTimespec nano
    else (t.descriptors i).absoluteCriticalTime

/-- `DELAYED_START`; `START` is the delay 0. -/
def delayedStart (t : Table n) (id : Nat) (delay : Int) (now : ClockTime) :
    Option (ReturnCode × Table n) :=
  if delay < 0 then some (.invalidParam, t)
  else if h : id < n then
    ((t.descriptors ⟨id, h⟩).delayedStart (attr ⟨id, h⟩).toAttributes t.mode delay now).map
      fun r => (r.1, t.set ⟨id, h⟩ r.2)
  else some (.invalidParam, t)

/-- `STOP`. -/
def stop (t : Table n) (id : Nat) : ReturnCode × Table n :=
  if h : id < n then
    let r := (t.descriptors ⟨id, h⟩).stop
    (r.1, t.set ⟨id, h⟩ r.2)
  else (.invalidParam, t)

/-- One step. -/
def step (t : Table n) : Op n → Option (Table n)
  | .setNormal => if t.mode = .normal then none else some { t with mode := .normal }
  | .initScheduler clock =>
    if t.mode = .normal ∧ t.scheduling = false then
      visit (fun _ => true) (fun i => Descriptor.initialise (attr i).toAttributes (clock i))
        (List.finRange n) { t with scheduling := true }
    else none
  | .delayedStart id delay now => (delayedStart attr t id delay now).map Prod.snd
  | .stop id => some (stop t id).2
  | .thread i op =>
    ((t.descriptors i).process.threadStep (attr i).toAttributes.isPeriodic op).map fun p =>
      t.set i { t.descriptors i with process := p }
  | .replenish i budget now =>
    if (t.descriptors i).process.pc = .user then
      ((t.descriptors i).replenish (attr i).toAttributes t.mode budget now).map fun r =>
        t.set i r.2
    else none
  | .pass order _ wake clock =>
    if t.scheduling = true ∧ order.Perm (List.finRange n) then
      if Idle attr t order then some t
      else
        match wake with
        | none => some t
        | some current =>
          visit (fun d => compareTime d.absoluteCriticalTime current.toTimespec)
            (fun i => Descriptor.act (attr i).toAttributes (clock i)) order t
    else none

end

/-! ## What the loops do -/

theorem visit_keeps {due : Descriptor → Bool} {f : Fin n → Descriptor → Option Descriptor}
    {i : Fin n} {P : Descriptor → Prop} (hf : ∀ d e, P d → f i d = some e → P e)
    {is : List (Fin n)} {t u : Table n} (ht : P (t.descriptors i)) (h : visit due f is t = some u) :
    P (u.descriptors i) ∧ u.mode = t.mode ∧ u.scheduling = t.scheduling := by
  induction is generalizing t with
  | nil =>
    obtain rfl := Option.some.inj h
    exact ⟨ht, rfl, rfl⟩
  | cons j is ih =>
    simp only [visit] at h
    split at h
    · obtain ⟨d, hd, hrest⟩ := Option.bind_eq_some_iff.mp h
      refine ih (t := t.set j d) ?_ hrest
      show P (Function.update t.descriptors j d i)
      by_cases hj : i = j
      · subst hj
        rw [Function.update_self]
        exact hf _ _ ht hd
      · rw [Function.update_of_ne hj]
        exact ht
    · obtain rfl := Option.some.inj h
      exact ⟨ht, rfl, rfl⟩

theorem visit_other {due : Descriptor → Bool} {f : Fin n → Descriptor → Option Descriptor}
    {i : Fin n} {is : List (Fin n)} (hi : i ∉ is) {t u : Table n} (h : visit due f is t = some u) :
    u.descriptors i = t.descriptors i := by
  induction is generalizing t with
  | nil =>
    obtain rfl := Option.some.inj h
    rfl
  | cons j is ih =>
    obtain ⟨hij, his⟩ := not_or.mp (List.mem_cons.not.mp hi)
    simp only [visit] at h
    split at h
    · obtain ⟨d, -, hrest⟩ := Option.bind_eq_some_iff.mp h
      exact (ih his hrest).trans (Table.set_of_ne hij t d)
    · obtain rfl := Option.some.inj h
      rfl

/-- A loop that goes over each descriptor once applies its body to one at most once, and
    only if it is due. -/
theorem visit_cases {due : Descriptor → Bool} {f : Fin n → Descriptor → Option Descriptor}
    {is : List (Fin n)} (hnodup : is.Nodup) {t u : Table n} (h : visit due f is t = some u)
    (i : Fin n) : u.descriptors i = t.descriptors i ∨
      due (t.descriptors i) = true ∧ f i (t.descriptors i) = some (u.descriptors i) := by
  induction is generalizing t with
  | nil =>
    obtain rfl := Option.some.inj h
    exact Or.inl rfl
  | cons j is ih =>
    obtain ⟨hj, hrest⟩ := List.nodup_cons.mp hnodup
    simp only [visit] at h
    split at h
    · rename_i hdue
      obtain ⟨d, hd, hvisit⟩ := Option.bind_eq_some_iff.mp h
      by_cases hij : i = j
      · subst hij
        rw [visit_other hj hvisit, Table.set_self]
        exact Or.inr ⟨hdue, hd⟩
      · rw [← Table.set_of_ne hij t d]
        exact ih hrest hvisit
    · obtain rfl := Option.some.inj h
      exact Or.inl rfl

/-- It comes to a descriptor that is due if all before it are. -/
theorem visit_reaches {due : Descriptor → Bool} {f : Fin n → Descriptor → Option Descriptor}
    {i : Fin n} {before after : List (Fin n)} (hnodup : (before ++ i :: after).Nodup)
    {t u : Table n} (hbefore : ∀ k ∈ before, due (t.descriptors k) = true)
    (hi : due (t.descriptors i) = true) (h : visit due f (before ++ i :: after) t = some u) :
    f i (t.descriptors i) = some (u.descriptors i) := by
  induction before generalizing t with
  | nil =>
    obtain ⟨hafter, -⟩ := List.nodup_cons.mp hnodup
    simp only [List.nil_append, visit, if_pos hi] at h
    obtain ⟨d, hd, hvisit⟩ := Option.bind_eq_some_iff.mp h
    rw [visit_other hafter hvisit, Table.set_self]
    exact hd
  | cons j before ih =>
    obtain ⟨hj, hrest⟩ := List.nodup_cons.mp hnodup
    obtain ⟨hjdue, hbefore⟩ := List.forall_mem_cons.mp hbefore
    simp only [List.cons_append, visit, if_pos hjdue] at h
    obtain ⟨d, -, hvisit⟩ := Option.bind_eq_some_iff.mp h
    have hsame (k : Fin n) (hk : k ∈ before ++ i :: after) :
        (t.set j d).descriptors k = t.descriptors k := by
      apply Table.set_of_ne
      rintro rfl
      exact hj hk
    have hmem : i ∈ before ++ i :: after := by simp
    rw [← hsame i hmem] at hi ⊢
    refine ih hrest (fun k hk => ?_) hi hvisit
    rw [hsame k (List.mem_append_left _ hk)]
    exact hbefore k hk

/-- The loop after a missed deadline ends: each round brings the next scheduled
    time nearer to the new critical time. -/
theorem skipPeriods_ends {period : Int} (h0 : 0 < period) (hmax : period ≤ maxTimeOut)
    {critical next : Timespec} (hcritical : critical.Normalized) (hnext : next.tvNsec < nano)
    {fuel : Nat} (hfuel : critical.toNano - next.toNano + 1 < fuel) (hpos : 0 < fuel) :
    ∃ last, Descriptor.skipPeriods period critical fuel next = some last := by
  induction fuel generalizing next with
  | zero => exact absurd hpos (Nat.lt_irrefl 0)
  | succ fuel ih =>
    simp only [Descriptor.skipPeriods]
    split
    · rename_i hle
      have hle := toNano_le_of_compareTime hnext hcritical hle
      rw [addTimeNano_of_nonneg (Int.le_of_lt h0) hmax]
      apply ih (addNano_tvNsec_lt next period)
      · rw [toNano_addNano]
        omega
      · omega
    · exact ⟨next, rfl⟩

/-- It ends wherever it begins: after one round the time is a sum. -/
theorem skipPeriods_periodsFuel {period : Int} (h0 : 0 < period) (hmax : period ≤ maxTimeOut)
    {critical : Timespec} (hcritical : critical.Normalized) (next : Timespec) :
    ∃ last, Descriptor.skipPeriods period critical (Descriptor.periodsFuel critical next) next =
      some last := by
  unfold Descriptor.periodsFuel Descriptor.skipPeriods
  split
  · rw [addTimeNano_of_nonneg (Int.le_of_lt h0) hmax]
    apply skipPeriods_ends h0 hmax hcritical (addNano_tvNsec_lt next period)
    · rw [toNano_addNano]
      omega
    · omega
  · exact ⟨next, rfl⟩

theorem releaseProcess_ends (a : AcceptedAttributes) (d : Descriptor) :
    ∃ e, d.releaseProcess a.toAttributes = some e := by
  obtain ⟨deadline, hdeadline⟩ := addTimeNano_of_le a.timeCapacity_le d.absoluteCriticalTime
  rw [← computeDeadlineTimeSpecs_eq] at hdeadline
  unfold Descriptor.releaseProcess
  split
  · cases hper : a.toAttributes.isPeriodic with
    | true =>
      obtain ⟨next, hnext⟩ := addTimeNano_of_le (a.periodic_bounds hper).2.2 d.absoluteCriticalTime
      simp [hnext, hdeadline]
    | false => simp [hdeadline]
  · exact ⟨d, rfl⟩

theorem checkDeadline_ends (a : AcceptedAttributes) (c : ClockTime) (d : Descriptor) :
    ∃ e, d.checkDeadline a.toAttributes c = some e := by
  have hsecond : (0 : Int) ≤ nano := by decide
  have hcritical : addTimeNano c.toTimespec nano = some (addNano c.toTimespec nano) :=
    addTimeNano_of_nonneg hsecond (by decide) _
  unfold Descriptor.checkDeadline
  split
  · exact ⟨_, rfl⟩
  split
  · exact ⟨_, rfl⟩
  split
  · exact ⟨_, rfl⟩
  cases hper : a.toAttributes.isPeriodic with
  | true =>
    obtain ⟨hcap, hle, hmax⟩ := a.periodic_bounds hper
    obtain ⟨last, hlast⟩ := skipPeriods_periodsFuel (by omega : 0 < a.period) hmax
      (normalized_addNano c.normalized hsecond) d.absoluteNextScheduledTime
    simp [hcritical, hlast]
  | false => simp [hcritical]

/-- The switch always ends, for a process `CREATE_PROCESS` has accepted. -/
theorem act_ends (a : AcceptedAttributes) (c : ClockTime) (d : Descriptor) :
    ∃ e, d.act a.toAttributes c = some e := by
  unfold Descriptor.act
  split
  · exact releaseProcess_ends a d
  · exact checkDeadline_ends a c d

end Arinc.ProcessTable
