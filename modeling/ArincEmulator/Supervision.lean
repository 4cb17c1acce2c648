import ArincEmulator.PeriodicPhase

/- The supervision of deadlines, over whole runs of a partition. What it is for is said by
   a monitor that sees the releases and the checks alone (`Watch`): an activation is
   watched from its release until a check finds it over, a soft one also past its
   deadline, and a hard one is ended at its first miss.

   What is proved, for any number of processes, any services and thread steps between
   them and passes at any times: what the scheduler does to a process is a word of the
   monitor, and a process that the monitor has seen stopped is dormant and outside the
   user's code until it is started again (`scheduler_follows_watch`). And without a
   `REPLENISH` no miss is found before the capacity has run out from the time that the
   release was made for, nor of a job that is over (`missed_overdue`). -/
namespace Arinc.ProcessTable
open Runs PeriodicPhase

/-! ## What a step does to one descriptor -/

section
variable {n : Nat}

/-- A step that changes descriptor `i`. -/
inductive Descriptor.Changes (a : Attributes) (mode : OperatingMode) (scheduling : Bool)
    (i : Fin n) (d : Descriptor) : Op n → Descriptor → Prop
  | initialise (clock : Fin n → ClockTime) (e : Descriptor) (hmode : mode = .normal)
      (hnot : scheduling = false) (h : d.initialise a (clock i) = some e) :
      Changes a mode scheduling i d (.initScheduler clock) e
  | delayedStart (id : Nat) (delay : Int) (now : ClockTime) (code : ReturnCode) (e : Descriptor)
      (h : d.delayedStart a mode delay now = some (code, e)) :
      Changes a mode scheduling i d (.delayedStart id delay now) e
  | stop (id : Nat) : Changes a mode scheduling i d (.stop id) d.stop.2
  | thread (op : Process.ThreadOp) (p : Process)
      (h : d.process.threadStep a.isPeriodic op = some p) :
      Changes a mode scheduling i d (.thread i op) { d with process := p }
  | replenish (budget : Int) (now : ClockTime) (code : ReturnCode) (e : Descriptor)
      (hpc : d.process.pc = .user) (h : d.replenish a mode budget now = some (code, e)) :
      Changes a mode scheduling i d (.replenish i budget now) e
  | act (order : List (Fin n)) (now current : ClockTime) (clock : Fin n → ClockTime)
      (e : Descriptor) (hscheduling : scheduling = true)
      (hdue : compareTime d.absoluteCriticalTime current.toTimespec = true)
      (h : d.act a (clock i) = some e) :
      Changes a mode scheduling i d (.pass order now (some current) clock) e

variable {attr : Fin n → AcceptedAttributes} {t u : Table n} {op : Op n}

theorem step_changes (h : step attr t op = some u) (i : Fin n) :
    u.descriptors i = t.descriptors i ∨
      (t.descriptors i).Changes (attr i).toAttributes t.mode t.scheduling i op (u.descriptors i) := by
  -- a step that replaces one descriptor
  have hset : ∀ {j : Fin n} {d : Descriptor},
      (j = i → (t.descriptors i).Changes (attr i).toAttributes t.mode t.scheduling i op d) →
        (t.set j d).descriptors i = t.descriptors i ∨
          (t.descriptors i).Changes (attr i).toAttributes t.mode t.scheduling i op
            ((t.set j d).descriptors i) := by
    intro j d hd
    by_cases hj : i = j
    · subst hj
      rw [Table.set_self]
      exact Or.inr (hd rfl)
    · exact Or.inl (Table.set_of_ne hj t d)
  cases op with
  | setNormal =>
    obtain ⟨-, heq⟩ := Option.ite_none_left_eq_some.mp h
    obtain rfl := Option.some.inj heq
    exact Or.inl rfl
  | initScheduler clock =>
    obtain ⟨⟨hmode, hnot⟩, hvisit⟩ := Option.ite_none_right_eq_some.mp h
    obtain hsame | ⟨-, hbody⟩ := visit_cases (List.nodup_finRange n) hvisit i
    · exact Or.inl hsame
    · exact Or.inr (.initialise clock _ hmode hnot hbody)
  | delayedStart id delay now =>
    obtain ⟨⟨code, u⟩, hstart, rfl⟩ := Option.map_eq_some_iff.mp h
    unfold delayedStart at hstart
    split at hstart
    · obtain ⟨-, rfl⟩ := Prod.mk.inj (Option.some.inj hstart)
      exact Or.inl rfl
    split at hstart
    · obtain ⟨⟨code', d⟩, hd, heq⟩ := Option.map_eq_some_iff.mp hstart
      obtain ⟨-, rfl⟩ := Prod.mk.inj heq
      apply hset
      rintro rfl
      exact .delayedStart id delay now code' d hd
    · obtain ⟨-, rfl⟩ := Prod.mk.inj (Option.some.inj hstart)
      exact Or.inl rfl
  | stop id =>
    obtain rfl := Option.some.inj h
    unfold stop
    split
    · apply hset
      rintro rfl
      exact .stop id
    · exact Or.inl rfl
  | thread j o =>
    obtain ⟨p, hp, rfl⟩ := Option.map_eq_some_iff.mp h
    apply hset
    rintro rfl
    exact .thread o p hp
  | replenish j budget now =>
    obtain ⟨hpc, hmap⟩ := Option.ite_none_right_eq_some.mp h
    obtain ⟨⟨code, d⟩, hd, rfl⟩ := Option.map_eq_some_iff.mp hmap
    apply hset
    rintro rfl
    exact .replenish budget now code d hpc hd
  | pass order now wake clock =>
    obtain ⟨⟨hscheduling, hperm⟩, hpass⟩ := Option.ite_none_right_eq_some.mp h
    split at hpass
    · obtain rfl := Option.some.inj hpass
      exact Or.inl rfl
    · split at hpass
      · obtain rfl := Option.some.inj hpass
        exact Or.inl rfl
      · rename_i current
        have hnodup : order.Nodup := hperm.nodup_iff.mpr (List.nodup_finRange n)
        obtain hsame | ⟨hdue, hbody⟩ := visit_cases hnodup hpass i
        · exact Or.inl hsame
        · exact Or.inr (.act order now current clock _ hscheduling hdue hbody)

theorem delayedStart_frame {id : Nat} {delay : Int} {now : ClockTime} {code : ReturnCode}
    (h : delayedStart attr t id delay now = some (code, u)) :
    u.mode = t.mode ∧ u.scheduling = t.scheduling := by
  unfold delayedStart at h
  split at h
  · obtain ⟨-, rfl⟩ := Prod.mk.inj (Option.some.inj h)
    exact ⟨rfl, rfl⟩
  split at h
  · obtain ⟨r, -, heq⟩ := Option.map_eq_some_iff.mp h
    obtain ⟨-, rfl⟩ := Prod.mk.inj heq
    exact ⟨rfl, rfl⟩
  · obtain ⟨-, rfl⟩ := Prod.mk.inj (Option.some.inj h)
    exact ⟨rfl, rfl⟩

theorem stop_frame (t : Table n) (id : Nat) :
    (stop t id).2.mode = t.mode ∧ (stop t id).2.scheduling = t.scheduling := by
  unfold stop
  split
  · exact ⟨rfl, rfl⟩
  · exact ⟨rfl, rfl⟩

/-- The mode and the scheduler: both go one way, the scheduler only in the mode
    `NORMAL`. -/
theorem step_begins (i : Fin n) (h : step attr t op = some u)
    (ht : t.scheduling = true → t.mode = .normal) :
    (u.scheduling = true → u.mode = .normal) ∧ (u.scheduling = false → t.scheduling = false) := by
  -- All but two of the steps touch neither.
  have hframe : u.mode = t.mode ∧ u.scheduling = t.scheduling →
      (u.scheduling = true → u.mode = .normal) ∧ (u.scheduling = false → t.scheduling = false) := by
    rintro ⟨hmode, hscheduling⟩
    rw [hmode, hscheduling]
    exact ⟨ht, id⟩
  cases op with
  | setNormal =>
    obtain ⟨-, heq⟩ := Option.ite_none_left_eq_some.mp h
    obtain rfl := Option.some.inj heq
    exact ⟨fun _ => rfl, id⟩
  | initScheduler clock =>
    obtain ⟨⟨hmode, hnot⟩, hvisit⟩ := Option.ite_none_right_eq_some.mp h
    obtain ⟨-, hsame, -⟩ := visit_keeps (i := i) (P := fun _ => True) (fun _ _ _ _ => trivial)
      trivial hvisit
    exact ⟨fun _ => hsame.trans hmode, fun _ => hnot⟩
  | delayedStart id delay now =>
    obtain ⟨⟨code, u⟩, hstart, rfl⟩ := Option.map_eq_some_iff.mp h
    exact hframe (delayedStart_frame hstart)
  | stop id =>
    obtain rfl := Option.some.inj h
    exact hframe (stop_frame t id)
  | thread j o =>
    obtain ⟨p, -, rfl⟩ := Option.map_eq_some_iff.mp h
    exact hframe ⟨rfl, rfl⟩
  | replenish j budget now =>
    obtain ⟨-, hmap⟩ := Option.ite_none_right_eq_some.mp h
    obtain ⟨r, -, rfl⟩ := Option.map_eq_some_iff.mp hmap
    exact hframe ⟨rfl, rfl⟩
  | pass order now wake clock =>
    obtain ⟨-, hpass⟩ := Option.ite_none_right_eq_some.mp h
    split at hpass
    · obtain rfl := Option.some.inj hpass
      exact hframe ⟨rfl, rfl⟩
    · split at hpass
      · obtain rfl := Option.some.inj hpass
        exact hframe ⟨rfl, rfl⟩
      · obtain ⟨-, hsame⟩ := visit_keeps (i := i) (P := fun _ => True) (fun _ _ _ _ => trivial)
          trivial hpass
        exact hframe hsame

end

/-! ## What the services and the checks do -/

section
variable {a : Attributes} {mode : OperatingMode} {d e : Descriptor} {code : ReturnCode}

theorem Descriptor.delayedStart_cases {delay : Int} {now : ClockTime}
    (h : d.delayedStart a mode delay now = some (code, e)) :
    e = d ∨ e.log = [] ∧ (mode = .normal ∧ e.nextSchedulingInstance = .releaseProcess ∨
      mode ≠ .normal ∧ e.nextSchedulingInstance = d.nextSchedulingInstance) := by
  unfold Descriptor.delayedStart at h
  split at h
  · obtain ⟨-, rfl⟩ := Prod.mk.inj (Option.some.inj h)
    exact Or.inl rfl
  split at h
  · rename_i hmode
    obtain ⟨next, -, h⟩ := Option.bind_eq_some_iff.mp h
    obtain ⟨deadline, -, h⟩ := Option.bind_eq_some_iff.mp h
    obtain ⟨-, rfl⟩ := Prod.mk.inj (Option.some.inj h)
    exact Or.inr ⟨rfl, Or.inl ⟨hmode, rfl⟩⟩
  · rename_i hmode
    obtain ⟨-, rfl⟩ := Prod.mk.inj (Option.some.inj h)
    exact Or.inr ⟨rfl, Or.inr ⟨hmode, rfl⟩⟩

theorem Descriptor.initialise_cases {now : ClockTime} (h : d.initialise a now = some e) :
    e.log = d.log ∧ e.nextSchedulingInstance = .releaseProcess := by
  unfold Descriptor.initialise at h
  split at h
  · obtain ⟨next, -, h⟩ := Option.bind_eq_some_iff.mp h
    obtain rfl := Option.some.inj h
    exact ⟨rfl, rfl⟩
  · obtain rfl := Option.some.inj h
    exact ⟨rfl, rfl⟩

theorem Descriptor.replenish_cases {budget : Int} {now : ClockTime}
    (h : d.replenish a mode budget now = some (code, e)) :
    e.log = d.log ∧ e.nextSchedulingInstance = d.nextSchedulingInstance ∧ e.process = d.process ∧
      (e.absoluteCriticalTime = d.absoluteCriticalTime ∧ e.deadlineTime = d.deadlineTime ∨
        e.absoluteCriticalTime = e.deadlineTime) := by
  unfold Descriptor.replenish at h
  split at h
  · obtain ⟨-, rfl⟩ := Prod.mk.inj (Option.some.inj h)
    exact ⟨rfl, rfl, rfl, Or.inl ⟨rfl, rfl⟩⟩
  split at h
  · obtain ⟨-, rfl⟩ := Prod.mk.inj (Option.some.inj h)
    exact ⟨rfl, rfl, rfl, Or.inl ⟨rfl, rfl⟩⟩
  split at h
  · obtain ⟨-, rfl⟩ := Prod.mk.inj (Option.some.inj h)
    exact ⟨rfl, rfl, rfl, Or.inl ⟨rfl, rfl⟩⟩
  obtain ⟨newDeadline, -, h⟩ := Option.bind_eq_some_iff.mp h
  split at h
  · obtain ⟨-, rfl⟩ := Prod.mk.inj (Option.some.inj h)
    exact ⟨rfl, rfl, rfl, Or.inl ⟨rfl, rfl⟩⟩
  · obtain ⟨-, rfl⟩ := Prod.mk.inj (Option.some.inj h)
    exact ⟨rfl, rfl, rfl, Or.inr rfl⟩

/-- A release, with the deadline it is given. -/
structure Descriptor.Released (a : Attributes) (d e : Descriptor) : Prop where
  due : d.nextSchedulingInstance = .releaseProcess
  releasable : d.process.Releasable
  deadline : computeDeadlineTimeSpecs d.absoluteCriticalTime a.timeCapacity = some e.deadlineTime
  critical : e.absoluteCriticalTime = e.deadlineTime
  check : e.nextSchedulingInstance = .checkDeadline
  log : e.log = .release d.absoluteCriticalTime :: d.log

/-- A check that finds no job. -/
structure Descriptor.FoundOver (d e : Descriptor) : Prop where
  due : d.nextSchedulingInstance = .checkDeadline
  release : e.nextSchedulingInstance = .releaseProcess
  log : e.log = .notRunning :: d.log

/-- A check that finds one. -/
structure Descriptor.FoundLate (a : Attributes) (d e : Descriptor) : Prop where
  due : d.nextSchedulingInstance = .checkDeadline
  busy : d.process.state ≠ .dormant ∧ d.process.state ≠ .waitingOnPeriod
  hard : a.deadline = .hard → e.process = d.process.stop ∧
    e.nextSchedulingInstance = .releaseProcess
  soft : a.deadline ≠ .hard → e.nextSchedulingInstance = .checkDeadline
  log : e.log = .missed :: d.log

theorem Descriptor.act_cases {clock : ClockTime} (h : d.act a clock = some e) :
    e = d ∨ d.Released a e ∨ d.FoundOver e ∨ d.FoundLate a e := by
  unfold Descriptor.act at h
  split at h
  · rename_i hdue
    unfold Descriptor.releaseProcess at h
    split at h
    · rename_i hrel
      obtain ⟨next, -, h⟩ := Option.bind_eq_some_iff.mp h
      obtain ⟨deadline, hdeadline, h⟩ := Option.bind_eq_some_iff.mp h
      obtain rfl := Option.some.inj h
      exact Or.inr (Or.inl ⟨hdue, hrel, hdeadline, rfl, rfl, rfl⟩)
    · obtain rfl := Option.some.inj h
      exact Or.inl rfl
  · rename_i hdue
    unfold Descriptor.checkDeadline at h
    split at h
    · obtain rfl := Option.some.inj h
      exact Or.inr (Or.inr (Or.inl ⟨hdue, rfl, rfl⟩))
    split at h
    · obtain rfl := Option.some.inj h
      exact Or.inr (Or.inr (Or.inl ⟨hdue, rfl, rfl⟩))
    rename_i hdormant hwaiting
    split at h
    · rename_i hhard
      obtain rfl := Option.some.inj h
      exact Or.inr (Or.inr (Or.inr ⟨hdue, ⟨hdormant, hwaiting⟩, fun _ => ⟨rfl, rfl⟩,
        fun hsoft => absurd hhard hsoft, rfl⟩))
    · rename_i hsoft
      obtain ⟨critical, -, h⟩ := Option.bind_eq_some_iff.mp h
      obtain ⟨next, -, h⟩ := Option.bind_eq_some_iff.mp h
      obtain rfl := Option.some.inj h
      exact Or.inr (Or.inr (Or.inr ⟨hdue, ⟨hdormant, hwaiting⟩, fun hhard => absurd hhard hsoft,
        fun _ => hdue, rfl⟩))

end

/-! ## The monitor -/

/-- What is known of an activation from its releases and checks: there is none, it is
    watched since the release for a time, it is late, or it was stopped. -/
inductive Watch where
  | idle
  | watched (nominal : Timespec)
  | late (nominal : Timespec)
  | stopped
  deriving DecidableEq, Repr

/-- One event. A process is released only when its last activation is known to be over,
    and an activation is found over once. -/
def Watch.next (deadline : DeadlineType) : Watch → Event → Option Watch
  | .idle, .release nominal => some (.watched nominal)
  | .watched _, .notRunning => some .idle
  | .watched nominal, .missed => some (if deadline = .hard then .stopped else .late nominal)
  | .late _, .notRunning => some .idle
  | .late nominal, .missed => some (.late nominal)
  | _, _ => none

/-- The events of a log, newest first. -/
def Watch.after (deadline : DeadlineType) : List Event → Option Watch
  | [] => some .idle
  | e :: log => (Watch.after deadline log).bind (Watch.next deadline · e)

/-- Nothing of the process runs in the user's code, nor will without a start. -/
def Halted (p : Process) : Prop := p.state = .dormant ∧ (p.pc = .waitRun ∨ p.pc = .checkRun)

/-- The descriptor is where the monitor is: what it is scheduled for, the deadline it is
    watched until, and a process that was stopped halted. -/
def Watch.Shows (d : Descriptor) : Watch → Prop
  | .idle => d.nextSchedulingInstance = .releaseProcess
  | .watched _ =>
    d.nextSchedulingInstance = .checkDeadline ∧ d.absoluteCriticalTime = d.deadlineTime
  | .late _ => d.nextSchedulingInstance = .checkDeadline
  | .stopped => d.nextSchedulingInstance = .releaseProcess ∧ Halted d.process

theorem Watch.after_ne_late (log : List Event) (nominal : Timespec) :
    Watch.after .hard log ≠ some (.late nominal) := by
  induction log with
  | nil => exact nofun
  | cons e log ih =>
    intro h
    obtain ⟨w, hw, hnext⟩ := Option.bind_eq_some_iff.mp h
    cases w with
    | idle =>
      cases e
      all_goals cases hnext
    | watched earlier =>
      cases e
      all_goals cases hnext
    | late earlier =>
      cases e with
      | release _ => cases hnext
      | notRunning => cases hnext
      | missed =>
        obtain rfl := Watch.late.inj (Option.some.inj hnext)
        exact ih hw
    | stopped =>
      cases e
      all_goals cases hnext

theorem Halted.thread {p q : Process} {periodic : Bool} {op : Process.ThreadOp}
    (h : Halted p) (hstep : p.threadStep periodic op = some q) : Halted q := by
  obtain ⟨hdormant, hpc⟩ := h
  cases op with
  | take =>
    obtain ⟨-, -, rfl⟩ := Process.threadStep_take hstep
    exact ⟨hdormant, Or.inr rfl⟩
  | check =>
    obtain ⟨-, ⟨hrun, -⟩ | ⟨-, rfl⟩⟩ := Process.threadStep_check hstep
    · rw [hdormant] at hrun
      cases hrun
    · exact ⟨hdormant, Or.inl rfl⟩
  | enter =>
    have hat := (Process.threadStep_enter hstep).1
    simp [hat] at hpc
  | complete =>
    have hat := (Process.threadStep_complete hstep).1
    simp [hat] at hpc
  | notify =>
    have hat := (Process.threadStep_notify hstep).1
    simp [hat] at hpc
  | periodicWait =>
    have hat := (Process.threadStep_periodicWait hstep).1
    simp [hat] at hpc
  | resume =>
    have hat := (Process.threadStep_resume hstep).1
    simp [hat] at hpc

/-! ## Runs -/

section
variable {n : Nat} {attr : Fin n → AcceptedAttributes} {i : Fin n}

/-- Descriptor `i` as the monitor has it. Before the scheduler begins nothing was done. -/
structure Supervised (deadline : DeadlineType) (t : Table n) (i : Fin n) : Prop where
  begun : t.scheduling = true → t.mode = .normal
  quiet : t.scheduling = false → (t.descriptors i).log = [] ∧
    (t.descriptors i).nextSchedulingInstance = .releaseProcess
  shows : ∃ w, Watch.after deadline (t.descriptors i).log = some w ∧ w.Shows (t.descriptors i)

theorem supervised_start (deadline : DeadlineType) (i : Fin n) : Supervised deadline (start n) i where
  begun := nofun
  quiet _ := ⟨rfl, rfl⟩
  shows := ⟨.idle, rfl, rfl⟩

theorem Supervised.quiet_changes {t : Table n} {op : Op n} {e : Descriptor}
    (ht : Supervised (attr i).deadline t i) (hnot : t.scheduling = false)
    (h : (t.descriptors i).Changes (attr i).toAttributes t.mode t.scheduling i op e) :
    e.log = [] ∧ e.nextSchedulingInstance = .releaseProcess := by
  obtain ⟨hlog, hnext⟩ := ht.quiet hnot
  cases h with
  | initialise clock e hmode hnot h =>
    obtain ⟨hlog', hnext'⟩ := Descriptor.initialise_cases h
    exact ⟨hlog'.trans hlog, hnext'⟩
  | delayedStart id delay now code e h =>
    obtain rfl | ⟨hlog', ⟨-, hnext'⟩ | ⟨-, hnext'⟩⟩ := Descriptor.delayedStart_cases h
    · exact ⟨hlog, hnext⟩
    · exact ⟨hlog', hnext'⟩
    · exact ⟨hlog', hnext'.trans hnext⟩
  | stop id =>
    unfold Descriptor.stop
    split
    · exact ⟨hlog, hnext⟩
    · exact ⟨hlog, hnext⟩
  | thread o p h => exact ⟨hlog, hnext⟩
  | replenish budget now code e hpc h =>
    obtain ⟨hlog', hnext', -, -⟩ := Descriptor.replenish_cases h
    exact ⟨hlog'.trans hlog, hnext'.trans hnext⟩
  | act order now current clock e hscheduling hdue h =>
    rw [hnot] at hscheduling
    cases hscheduling

theorem Supervised.changes {t : Table n} {op : Op n} {e : Descriptor}
    (ht : Supervised (attr i).deadline t i)
    (h : (t.descriptors i).Changes (attr i).toAttributes t.mode t.scheduling i op e) :
    ∃ w, Watch.after (attr i).deadline e.log = some w ∧ w.Shows e := by
  obtain ⟨w, hw, hshows⟩ := ht.shows
  cases h with
  | initialise clock e hmode hnot h =>
    obtain ⟨hlog, hnext⟩ := Descriptor.initialise_cases h
    rw [hlog, (ht.quiet hnot).1]
    exact ⟨.idle, rfl, hnext⟩
  | delayedStart id delay now code e h =>
    obtain rfl | ⟨hlog, ⟨-, hnext⟩ | ⟨hmode, hnext⟩⟩ := Descriptor.delayedStart_cases h
    · exact ⟨w, hw, hshows⟩
    · rw [hlog]
      exact ⟨.idle, rfl, hnext⟩
    · have hnot : t.scheduling = false := Bool.eq_false_iff.mpr (mt ht.begun hmode)
      rw [hlog]
      exact ⟨.idle, rfl, hnext.trans (ht.quiet hnot).2⟩
  | stop id =>
    unfold Descriptor.stop
    split
    · exact ⟨w, hw, hshows⟩
    · rename_i hrunning
      refine ⟨w, hw, ?_⟩
      cases w with
      | idle => exact hshows
      | watched nominal => exact hshows
      | late nominal => exact hshows
      | stopped => exact absurd hshows.2.1 hrunning
  | thread o p h =>
    refine ⟨w, hw, ?_⟩
    cases w with
    | idle => exact hshows
    | watched nominal => exact hshows
    | late nominal => exact hshows
    | stopped => exact ⟨hshows.1, hshows.2.thread h⟩
  | replenish budget now code e hpc h =>
    obtain ⟨hlog, hnext, hprocess, htimes⟩ := Descriptor.replenish_cases h
    rw [hlog]
    refine ⟨w, hw, ?_⟩
    cases w with
    | idle => exact hnext.trans hshows
    | watched nominal =>
      refine ⟨hnext.trans hshows.1, ?_⟩
      obtain ⟨hcritical, hdeadline⟩ | hnew := htimes
      · rw [hcritical, hdeadline]
        exact hshows.2
      · exact hnew
    | late nominal => exact hnext.trans hshows
    | stopped =>
      refine ⟨hnext.trans hshows.1, ?_⟩
      rw [hprocess]
      exact hshows.2
  | act order now current clock e hscheduling hdue h =>
    obtain rfl | hreleased | hover | hlate := Descriptor.act_cases h
    · exact ⟨w, hw, hshows⟩
    · rw [hreleased.log, Watch.after, hw, Option.bind_some]
      cases w with
      | idle => exact ⟨.watched _, rfl, hreleased.check, hreleased.critical⟩
      | watched nominal => exact absurd (hreleased.due.symm.trans hshows.1) (by decide)
      | late nominal => exact absurd (hreleased.due.symm.trans hshows) (by decide)
      | stopped =>
        -- a process that was stopped is not one to release
        have hrel := hreleased.releasable
        rw [Process.Releasable, hshows.2.1] at hrel
        exact absurd hrel (by decide)
    · rw [hover.log, Watch.after, hw, Option.bind_some]
      cases w with
      | idle => exact absurd (hover.due.symm.trans hshows) (by decide)
      | watched nominal => exact ⟨.idle, rfl, hover.release⟩
      | late nominal => exact ⟨.idle, rfl, hover.release⟩
      | stopped => exact absurd (hover.due.symm.trans hshows.1) (by decide)
    · rw [hlate.log, Watch.after, hw, Option.bind_some]
      cases w with
      | idle => exact absurd (hlate.due.symm.trans hshows) (by decide)
      | watched nominal =>
        by_cases hdeadline : (attr i).deadline = .hard
        · obtain ⟨hprocess, hnext⟩ := hlate.hard hdeadline
          refine ⟨.stopped, by rw [Watch.next, if_pos hdeadline], hnext, ?_⟩
          rw [hprocess]
          exact ⟨rfl, Or.inl rfl⟩
        · exact ⟨.late nominal, by rw [Watch.next, if_neg hdeadline], hlate.soft hdeadline⟩
      | late nominal =>
        -- only a soft activation is watched past its deadline
        have hdeadline : (attr i).deadline ≠ .hard := by
          intro hhard
          rw [hhard] at hw
          exact Watch.after_ne_late _ _ hw
        exact ⟨.late nominal, rfl, hlate.soft hdeadline⟩
      | stopped => exact absurd (hlate.due.symm.trans hshows.1) (by decide)

theorem step_supervised {t u : Table n} {op : Op n} (ht : Supervised (attr i).deadline t i)
    (h : step attr t op = some u) : Supervised (attr i).deadline u i := by
  obtain ⟨hbegun, hscheduling⟩ := step_begins i h ht.begun
  obtain hsame | hchanges := step_changes h i
  · refine ⟨hbegun, fun hnot => ?_, ?_⟩
    · rw [hsame]
      exact ht.quiet (hscheduling hnot)
    · rw [hsame]
      exact ht.shows
  · refine ⟨hbegun, fun hnot => ?_, ht.changes hchanges⟩
    exact ht.quiet_changes (hscheduling hnot) hchanges

/-- A hard process that missed its deadline was stopped. -/
theorem Watch.stopped_of_missed {log : List Event} {w : Watch}
    (h : Watch.after .hard log = some w) (hmissed : .missed ∈ log) : w = .stopped := by
  induction log generalizing w with
  | nil => cases hmissed
  | cons e log ih =>
    obtain ⟨before, hbefore, hnext⟩ := Option.bind_eq_some_iff.mp h
    obtain rfl | hearlier := List.mem_cons.mp hmissed
    · cases before with
      | idle => cases hnext
      | watched nominal => exact (Option.some.inj hnext).symm
      | late nominal => exact absurd hbefore (Watch.after_ne_late log nominal)
      | stopped => cases hnext
    · obtain rfl := ih hbefore hearlier
      cases e
      all_goals cases hnext

end

/-- **The scheduler keeps to the monitor.** In every run of the partition, for every
    process: what was done to it since its last start is a word of the monitor, which
    shows its descriptor as it is. A hard process that was found late halts. -/
theorem scheduler_follows_watch {n : Nat} (attr : Fin n → AcceptedAttributes) (ops : List (Op n))
    (t : Table n) (h : run (step attr) (start n) ops = some t) (i : Fin n) :
    (∃ w, Watch.after (attr i).deadline (t.descriptors i).log = some w ∧
      w.Shows (t.descriptors i)) ∧
    ((attr i).deadline = .hard → .missed ∈ (t.descriptors i).log →
      Halted (t.descriptors i).process) := by
  have ht : Supervised (attr i).deadline t i :=
    run_invariant (fun _ _ _ hs hstep => step_supervised hs hstep)
      (supervised_start (attr i).deadline i) h
  refine ⟨ht.shows, fun hhard hmissed => ?_⟩
  obtain ⟨w, hw, hshows⟩ := ht.shows
  rw [hhard] at hw
  obtain rfl := Watch.stopped_of_missed hw hmissed
  exact hshows.2

/-- A hard process with a period of one second and half of it to run. -/
def hardHalfSecond : AcceptedAttributes :=
  ⟨⟨"watchdog", false, 90, 500000000, 1000000000, .hard⟩, by decide⟩

/-- It is released two seconds late, and its job begins. -/
def lateRelease : List (Op 1) := lateJob.take 7

theorem scheduler_follows_watch_lateRelease :
    ∃ t, run (step fun _ => hardHalfSecond) (start 1) (lateRelease ++ [passAt 12 100]) = some t ∧
      ((∃ w, Watch.after .hard (t.descriptors 0).log = some w ∧ w.Shows (t.descriptors 0)) ∧
        (DeadlineType.hard = .hard → .missed ∈ (t.descriptors 0).log →
          Halted (t.descriptors 0).process)) :=
  ⟨(run (step fun _ => hardHalfSecond) (start 1) (lateRelease ++ [passAt 12 100])).get (by decide),
    (Option.some_get _).symm,
    scheduler_follows_watch (fun _ => hardHalfSecond) (lateRelease ++ [passAt 12 100]) _
      (Option.some_get _).symm 0⟩

/-! ## The time of a miss -/

/-- The time a process has from its release: the infinite capacity counts as
    `MAX_TIME_OUT`. -/
def allowance (timeCapacity : Int) : Int :=
  if timeCapacity = infiniteTimeValue then maxTimeOut else timeCapacity

theorem deadline_eq {nominal deadline : Timespec} {timeCapacity : Int}
    (h : computeDeadlineTimeSpecs nominal timeCapacity = some deadline) :
    deadline = addNano nominal (allowance timeCapacity) := by
  rw [computeDeadlineTimeSpecs_eq, addTimeNano] at h
  unfold allowance
  split at h
  · cases h
  · split at h
    · rename_i hinfinite
      rw [if_pos hinfinite]
      exact (Option.some.inj h).symm
    · rename_i hfinite
      rw [if_neg hfinite]
      exact (Option.some.inj h).symm

/-- A `REPLENISH` by process `i`. -/
def Op.replenishes {n : Nat} (i : Fin n) : Op n → Bool
  | .replenish j _ _ => decide (j = i)
  | _ => false

section
variable {n : Nat} {attr : Fin n → AcceptedAttributes} {i : Fin n}

/-- An activation that is watched is checked at its deadline. -/
structure Timed (a : Attributes) (t : Table n) (i : Fin n) : Prop
    extends Supervised a.deadline t i where
  deadline : ∀ nominal, Watch.after a.deadline (t.descriptors i).log = some (.watched nominal) →
    (t.descriptors i).absoluteCriticalTime = addNano nominal (allowance a.timeCapacity)

theorem Timed.changes {t : Table n} {op : Op n} {e : Descriptor} (hno : op.replenishes i = false)
    (ht : Timed (attr i).toAttributes t i)
    (h : (t.descriptors i).Changes (attr i).toAttributes t.mode t.scheduling i op e)
    {nominal : Timespec} (hwatched : Watch.after (attr i).deadline e.log = some (.watched nominal)) :
    e.absoluteCriticalTime = addNano nominal (allowance (attr i).timeCapacity) := by
  -- The watch after the change tells which word was written last; a release is the only one
  -- that leaves a new deadline.
  cases h with
  | initialise clock e hmode hnot h =>
    rw [(Descriptor.initialise_cases h).1, (ht.quiet hnot).1] at hwatched
    cases hwatched
  | delayedStart id delay now code e h =>
    obtain rfl | ⟨hlog, -⟩ := Descriptor.delayedStart_cases h
    · exact ht.deadline nominal hwatched
    · rw [hlog] at hwatched
      cases hwatched
  | stop id =>
    have hkeep : (t.descriptors i).stop.2.log = (t.descriptors i).log ∧
        (t.descriptors i).stop.2.absoluteCriticalTime = (t.descriptors i).absoluteCriticalTime := by
      unfold Descriptor.stop
      split
      · exact ⟨rfl, rfl⟩
      · exact ⟨rfl, rfl⟩
    rw [hkeep.1] at hwatched
    rw [hkeep.2]
    exact ht.deadline nominal hwatched
  | thread o p h => exact ht.deadline nominal hwatched
  | replenish budget now code e hpc h => exact absurd hno (by simp [Op.replenishes])
  | act order now current clock e hscheduling hdue h =>
    obtain rfl | hreleased | hover | hlate := Descriptor.act_cases h
    · exact ht.deadline nominal hwatched
    · rw [hreleased.log, Watch.after] at hwatched
      obtain ⟨w, -, hnext⟩ := Option.bind_eq_some_iff.mp hwatched
      cases w with
      | idle =>
        obtain rfl := Watch.watched.inj (Option.some.inj hnext)
        rw [hreleased.critical]
        exact deadline_eq hreleased.deadline
      | watched earlier => cases hnext
      | late earlier => cases hnext
      | stopped => cases hnext
    · rw [hover.log, Watch.after] at hwatched
      obtain ⟨w, -, hnext⟩ := Option.bind_eq_some_iff.mp hwatched
      cases w
      all_goals cases hnext
    · rw [hlate.log, Watch.after] at hwatched
      obtain ⟨w, -, hnext⟩ := Option.bind_eq_some_iff.mp hwatched
      cases w with
      | idle => cases hnext
      | watched earlier =>
        have hnext := Option.some.inj hnext
        split at hnext
        all_goals cases hnext
      | late earlier => cases hnext
      | stopped => cases hnext

theorem step_timed {t u : Table n} {op : Op n} (hno : op.replenishes i = false)
    (ht : Timed (attr i).toAttributes t i) (h : step attr t op = some u) :
    Timed (attr i).toAttributes u i := by
  refine ⟨step_supervised ht.toSupervised h, fun nominal hwatched => ?_⟩
  obtain hsame | hchanges := step_changes h i
  · rw [hsame] at hwatched ⊢
    exact ht.deadline nominal hwatched
  · exact ht.changes hno hchanges hwatched

/-- Only a check of a pass finds a process late. -/
theorem Descriptor.Changes.late {a : Attributes} {mode : OperatingMode} {scheduling : Bool}
    {d e : Descriptor} {op : Op n} (h : d.Changes a mode scheduling i op e)
    (hmissed : e.log = .missed :: d.log) :
    ∃ order now current clock, op = .pass order now (some current) clock ∧
      compareTime d.absoluteCriticalTime current.toTimespec = true ∧ d.FoundLate a e := by
  -- The log has grown by one word, which rules out all steps that leave or clear it.
  have hlength : e.log.length = d.log.length + 1 := by rw [hmissed, List.length_cons]
  cases h with
  | initialise clock e hmode hnot h =>
    rw [(Descriptor.initialise_cases h).1] at hlength
    omega
  | delayedStart id delay now code e h =>
    obtain rfl | ⟨hlog, -⟩ := Descriptor.delayedStart_cases h
    · omega
    · rw [hlog] at hmissed
      cases hmissed
  | stop id =>
    unfold Descriptor.stop at hlength
    split at hlength
    · simp at hlength
    · simp at hlength
  | thread o p h => simp at hlength
  | replenish budget now code e hpc h =>
    rw [(Descriptor.replenish_cases h).1] at hlength
    omega
  | act order now current clock e hscheduling hdue h =>
    obtain rfl | hreleased | hover | hlate := Descriptor.act_cases h
    · omega
    · rw [hreleased.log] at hmissed
      cases hmissed
    · rw [hover.log] at hmissed
      cases hmissed
    · exact ⟨order, now, current, clock, rfl, hdue, hlate⟩

end

/-- **No false alarm.** In every run in which a process does not replenish its budget: the
    step that finds a watched activation late is a pass that woke up no earlier than the
    capacity after the time the release was made for, and the job was not over. A hard
    process halts there. -/
theorem missed_overdue {n : Nat} (attr : Fin n → AcceptedAttributes) (i : Fin n)
    (ops : List (Op n)) (hno : ∀ op ∈ ops, op.replenishes i = false) (t u : Table n) (op : Op n)
    (h : run (step attr) (start n) ops = some t) (hstep : step attr t op = some u)
    (nominal : Timespec)
    (hwatched : Watch.after (attr i).deadline (t.descriptors i).log = some (.watched nominal))
    (hmissed : (u.descriptors i).log = .missed :: (t.descriptors i).log) :
    (∃ order now current clock, op = .pass order now (some current) clock ∧
      nominal.toNano + allowance (attr i).timeCapacity ≤ current.toNano) ∧
    (t.descriptors i).process.state ≠ .dormant ∧
    (t.descriptors i).process.state ≠ .waitingOnPeriod ∧
    ((attr i).deadline = .hard → Halted (u.descriptors i).process) := by
  have hstart : Timed (attr i).toAttributes (start n) i :=
    ⟨supervised_start _ i, fun nominal hwatched => by cases hwatched⟩
  have ht : Timed (attr i).toAttributes t i :=
    run_invariant_of_meets (I := fun t => Timed (attr i).toAttributes t i)
      (C := fun _ op => op.replenishes i = false)
      (fun _ _ _ hs hno hstep => step_timed hno hs hstep) hstart (meets_of_forall hno) h
  obtain hsame | hchanges := step_changes hstep i
  · have hlength := congrArg List.length hmissed
    rw [hsame, List.length_cons] at hlength
    omega
  · obtain ⟨order, now, current, clock, hop, hdue, hlate⟩ := hchanges.late hmissed
    refine ⟨⟨order, now, current, clock, hop, ?_⟩, hlate.busy.1, hlate.busy.2, fun hhard => ?_⟩
    · rw [ht.deadline nominal hwatched] at hdue
      have hle := toNano_le_of_compareTime (addNano_tvNsec_lt _ _) current.normalized hdue
      rwa [toNano_addNano] at hle
    · rw [(hlate.hard hhard).1]
      exact ⟨rfl, Or.inl rfl⟩

/-- The job of the late release is found late at once. -/
theorem missed_overdue_lateRelease :
    ∃ t u, run (step fun _ => hardHalfSecond) (start 1) lateRelease = some t ∧
      step (fun _ => hardHalfSecond) t (passAt 12 100) = some u ∧
      ((∃ order now current clock, passAt 12 100 = .pass order now (some current) clock ∧
          Timespec.toNano ⟨10, 0⟩ + allowance 500000000 ≤ current.toNano) ∧
        (t.descriptors 0).process.state ≠ .dormant ∧
        (t.descriptors 0).process.state ≠ .waitingOnPeriod ∧
        (DeadlineType.hard = .hard → Halted (u.descriptors 0).process)) := by
  have hrun : ((run (step fun _ => hardHalfSecond) (start 1) lateRelease).bind
      fun t => step (fun _ => hardHalfSecond) t (passAt 12 100)).isSome = true := by decide
  obtain ⟨u, hu⟩ := Option.isSome_iff_exists.mp hrun
  obtain ⟨t, ht, hstep⟩ := Option.bind_eq_some_iff.mp hu
  have hlogs : ((run (step fun _ => hardHalfSecond) (start 1) lateRelease).map
      fun t => (t.descriptors 0).log) = some [.release ⟨10, 0⟩] ∧
      (((run (step fun _ => hardHalfSecond) (start 1) lateRelease).bind
        fun t => step (fun _ => hardHalfSecond) t (passAt 12 100)).map
          fun u => (u.descriptors 0).log) = some [.missed, .release ⟨10, 0⟩] := by decide
  rw [hu, ht, Option.map_some, Option.map_some] at hlogs
  have hbefore := Option.some.inj hlogs.1
  have hafter := Option.some.inj hlogs.2
  refine ⟨t, u, ht, hstep, ?_⟩
  exact missed_overdue (fun _ => hardHalfSecond) 0 lateRelease (by decide) t u (passAt 12 100) ht
    hstep ⟨10, 0⟩ (by rw [hbefore]; rfl) (by rw [hafter, hbefore])

end Arinc.ProcessTable
