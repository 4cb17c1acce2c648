import ArincEmulator.Lib.Runs
import ArincEmulator.Lib.OrderedSet
import ArincEmulator.Event
import ArincEmulator.Semaphore
import ArincEmulator.ObjectIds

/- `ACM_TIMER`: the set of times, the thread that sleeps on the least of them, and the
   calls of other threads, one access to the shared data at a time.

   The thread has `internalMUTEX` from before its loop until after it, also while it
   sleeps, and it takes a time out of the set before it sleeps on it. The calls look at
   `my_state` before they have the mutex, so any of them can be under way when the timer
   starts or stops.

   What is proved:
     1. `step_owned`: the thread and the calls exclude each other.
     2. `step_kept`: a time is pending just when the set or the thread has it, as long as
        no pending time is removed and the thread holds none when it finds the event up.
     3. `fires_in_order`: so in every such run each call of the `ENTRY_POINT` is for the
        least pending time, which has come, and a timer that runs makes all of them.
     4. `Lacks.not_fires`: a pending time that neither of the two has is never fired, and
        in `removed_and_current_not_kept` both conditions are broken. -/
namespace Arinc.Timer
open Runs
open Registry (lexTime lexTime_injective compareTime_iff_lexTime)

/-- `compareTimeLess`. -/
def compareTimeLess (first second : Timespec) : Bool :=
  if first.tvSec < second.tvSec then true
  else if first.tvSec > second.tvSec then false
  else decide (first.tvNsec < second.tvNsec)

theorem compareTimeLess_iff (s t : Timespec) :
    compareTimeLess s t = true ↔ lexTime s < lexTime t := by
  unfold lexTime
  rw [Prod.Lex.toLex_lt_toLex]
  unfold compareTimeLess
  split
  · rename_i hlt
    simp [hlt]
  · rename_i hge
    split
    · rename_i hgt
      simp [hge, hgt.ne']
    · rename_i hle
      have heq : s.tvSec = t.tvSec := by omega
      simp [heq]

/-- `TIMER_STATE`. -/
inductive TimerState where
  | working
  | stopped
  deriving DecidableEq, Repr

/-- The calls of the interface. -/
inductive Call where
  | addTimeValue (myspec : Timespec)
  | removeTimeValue (myspec : Timespec)
  | removeAllTimeValues
  | stopTimer
  | startTimer
  deriving DecidableEq, Repr

/-- What has happened to the times: one was added or removed, or all were removed, with
    `NO_ERROR`, or the `ENTRY_POINT` was called for one. -/
inductive Entry where
  | added (v : Timespec)
  | removed (v : Timespec)
  | cleared
  | called (v : Timespec) (now : Timespec)
  deriving DecidableEq, Repr

/-- Where the thread is in `run`: before the wait for the semaphore, before it writes
    `my_state`, before the lock, at the head of the loop, before the test of the event
    and in the sleep of a wait with the time `current` or without one, before the unlock,
    and before it writes `my_state` again. -/
inductive ThreadPc where
  | idle
  | woken
  | locking
  | looping
  | waiting (current : Option Timespec)
  | sleeping (current : Option Timespec)
  | unlocking
  | stopping
  deriving DecidableEq, Repr

/-- Where another thread is in a call: past the look at `my_state`, before the lock,
    under the mutex, before the `post` of `startTimer`, and before the unlock. -/
inductive CallerPc where
  | idle
  | begun (call : Call)
  | locking (call : Call)
  | inside (call : Call)
  | posting
  | leaving
  deriving DecidableEq, Repr

/-- Who holds `internalMUTEX`. -/
inductive Holder (C : Type*) where
  | thread
  | caller (c : C)
  deriving DecidableEq

/-- The timer, its thread, the other threads, and what has happened, newest first. -/
structure State (C : Type*) where
  timeValues : List Timespec
  myState : TimerState
  internalEvent : EventState
  internalSem : Semaphore
  internalMutex : Option (Holder C)
  thread : ThreadPc
  pcs : C → CallerPc
  log : List Entry

variable {C : Type*}

/-- A new timer. -/
def start (C : Type*) : State C :=
  ⟨[], .stopped, .down, ⟨0, 1⟩, none, .idle, fun _ => .idle, []⟩

/-- The steps of the thread, and those of the others. `fire` is the end of a sleep with
    `TIMED_OUT`, at the clock reading `now`, and the call of the `ENTRY_POINT`. -/
inductive Op (C : Type*) where
  | takeSem
  | setWorking
  | lockThread
  | choose
  | test
  | wake
  | fire (now : Timespec)
  | unlockThread
  | setStopped
  | call (c : C) (call : Call)
  | writeEvent (c : C)
  | lock (c : C)
  | body (c : C)
  | post (c : C)
  | unlock (c : C)

variable [DecidableEq C]

/-- A caller goes on. -/
def State.goto (s : State C) (c : C) (pc : CallerPc) : State C :=
  { s with pcs := Function.update s.pcs c pc }

/-- The event after what a call writes to it before it has the mutex. -/
def Call.event (state : EventState) : Call → EventState
  | .addTimeValue _ => .down
  | .stopTimer => .up
  | .removeTimeValue _ | .removeAllTimeValues | .startTimer => state

/-- What a call does under the mutex. -/
def State.callBody (s : State C) (c : C) : Call → State C
  | .addTimeValue myspec =>
    -- the timer has been stopped again since the event was reset: `NOT_AVAILABLE`
    if s.internalEvent = .up then s.goto c .leaving
    else { s.goto c .leaving with
      timeValues := OrderedSet.insert compareTimeLess myspec s.timeValues
      log := .added myspec :: s.log }
  -- `NO_ERROR`, and nothing is removed
  | .removeTimeValue myspec => { s.goto c .leaving with log := .removed myspec :: s.log }
  | .removeAllTimeValues => { s.goto c .leaving with timeValues := [], log := .cleared :: s.log }
  | .stopTimer => s.goto c .leaving
  | .startTimer => { s.goto c .posting with internalEvent := .down }

/-- One step. -/
def step (s : State C) : Op C → Option (State C)
  | .takeSem =>
    if s.thread = .idle then
      s.internalSem.wait.map fun sem => { s with internalSem := sem, thread := .woken }
    else none
  | .setWorking =>
    if s.thread = .woken then some { s with myState := .working, thread := .locking } else none
  | .lockThread =>
    if s.thread = .locking ∧ s.internalMutex = none then
      some { s with internalMutex := some .thread, thread := .looping }
    else none
  | .choose =>
    if s.thread = .looping then
      match s.timeValues with
      | [] => some { s with thread := .waiting none }
      | current :: rest => some { s with timeValues := rest, thread := .waiting (some current) }
    else none
  | .test =>
    match s.thread with
    | .waiting current =>
      some { s with
        thread := if s.internalEvent = .down then .sleeping current else .unlocking }
    | _ => none
  | .wake =>
    match s.thread with
    | .sleeping current => some { s with thread := .waiting current }
    | _ => none
  | .fire now =>
    -- a timed wait gives up, whatever the event is by then, when its time has come
    match s.thread with
    | .sleeping (some current) =>
      if compareTime current now then
        some { s with thread := .looping, log := .called current now :: s.log }
      else none
    | _ => none
  | .unlockThread =>
    if s.thread = .unlocking then some { s with internalMutex := none, thread := .stopping }
    else none
  | .setStopped =>
    if s.thread = .stopping then some { s with myState := .stopped, thread := .idle } else none
  | .call c call =>
    if s.pcs c = .idle then
      -- all but `stopTimer` are refused while the timer is working
      if call ≠ .stopTimer ∧ s.myState = .working then some s
      else some (s.goto c (.begun call))
    else none
  | .writeEvent c =>
    match s.pcs c with
    | .begun call =>
      some { s.goto c (.locking call) with internalEvent := call.event s.internalEvent }
    | _ => none
  | .lock c =>
    match s.pcs c with
    | .locking call =>
      if s.internalMutex = none then
        some { s.goto c (.inside call) with internalMutex := some (.caller c) }
      else none
    | _ => none
  | .body c =>
    match s.pcs c with
    | .inside call => some (s.callBody c call)
    | _ => none
  | .post c =>
    if s.pcs c = .posting then
      some { s.goto c .leaving with internalSem := s.internalSem.post.1 }
    else none
  | .unlock c =>
    if s.pcs c = .leaving then some { s.goto c .idle with internalMutex := none } else none

/-! ## Pending times and the calls -/

/-- The time was added after it was last removed, and has not fired since. -/
def Pending (v : Timespec) : List Entry → Prop
  | [] => False
  | .added w :: log => v = w ∨ Pending v log
  | .removed w :: log => v ≠ w ∧ Pending v log
  | .cleared :: _ => False
  | .called w _ :: log => v ≠ w ∧ Pending v log

instance decidablePending (v : Timespec) : ∀ log, Decidable (Pending v log)
  | [] => isFalse not_false
  | .added _ :: log =>
    have := decidablePending v log
    inferInstanceAs (Decidable (_ ∨ _))
  | .removed _ :: log | .called _ _ :: log =>
    have := decidablePending v log
    inferInstanceAs (Decidable (_ ∧ _))
  | .cleared :: _ => isFalse not_false

/-- Every call of the `ENTRY_POINT` was for a pending time, for the least of them, and
    not before it had come. -/
def CallsInOrder : List Entry → Prop
  | [] => True
  | .called v now :: log =>
    Pending v log ∧ (∀ w, Pending w log → lexTime v ≤ lexTime w) ∧ lexTime v ≤ lexTime now ∧
      CallsInOrder log
  | .added _ :: log | .removed _ :: log | .cleared :: log => CallsInOrder log

/-- The thread is in its loop. -/
def ThreadPc.Loops : ThreadPc → Prop
  | .looping | .waiting _ | .sleeping _ => True
  | .idle | .woken | .locking | .unlocking | .stopping => False

/-- The timer has been started and not been stopped: the thread is in its loop, or nothing
    keeps it from going there. -/
def State.Runs (s : State C) : Prop :=
  s.internalEvent = .down ∧ (s.thread.Loops ∨ s.internalMutex = none ∧
    (s.thread = .idle ∧ s.internalSem.counter ≠ 0 ∨ s.thread = .woken ∨ s.thread = .locking))

/-- A step of the thread, at clock reading `now` if it reads one. -/
def Op.OfThread (now : Timespec) : Op C → Prop
  | .takeSem | .setWorking | .lockThread | .choose | .test | .wake => True
  | .fire t => t = now
  | .unlockThread | .setStopped | .call _ _ | .writeEvent _ | .lock _ | .body _ | .post _
  | .unlock _ => False

/-- Steps of the thread alone, at clock reading `now`, call the `ENTRY_POINT` for all
    pending times that have come, in ascending order, and for nothing else. -/
def State.Fires (s : State C) (now : Timespec) : Prop :=
  ∃ due : List Timespec, due.Pairwise (fun v w => lexTime v < lexTime w) ∧
    (∀ v, v ∈ due ↔ Pending v s.log ∧ lexTime v ≤ lexTime now) ∧
    ∃ ops s', (∀ op ∈ ops, Op.OfThread now op) ∧ run step s ops = some s' ∧
      s'.log = (due.map (.called · now)).reverse ++ s.log

/-- The time an untaken call of `removeTimeValue` under the mutex is about. -/
def CallerPc.removes : CallerPc → Option Timespec
  | .inside (.removeTimeValue v) => some v
  | _ => none

/-- The time the thread has taken out of the set. -/
def ThreadPc.current : ThreadPc → Option Timespec
  | .waiting current | .sleeping current => current
  | .idle | .woken | .locking | .looping | .unlocking | .stopping => none

/-- No `removeTimeValue` is for a pending time, and the thread has no time when it finds
    the event up. -/
def NothingDropped (s : State C) : Op C → Prop
  | .body c => ∀ v ∈ (s.pcs c).removes, ¬ Pending v s.log
  | .test => s.internalEvent = .up → s.thread.current = none
  | _ => True

instance (s : State C) : ∀ op, Decidable (NothingDropped s op)
  | .body _ => inferInstanceAs (Decidable (∀ _ ∈ _, _))
  | .test => inferInstanceAs (Decidable (_ → _))
  | .takeSem | .setWorking | .lockThread | .choose | .wake | .fire _ | .unlockThread
  | .setStopped | .call _ _ | .writeEvent _ | .lock _ | .post _ | .unlock _ => isTrue trivial

/-! ## What a step does -/

section
variable {s s' : State C}

theorem step_choose (h : step s .choose = some s') :
    s.thread = .looping ∧ (s.timeValues = [] ∧ s' = { s with thread := .waiting none } ∨
      ∃ current rest, s.timeValues = current :: rest ∧
        s' = { s with timeValues := rest, thread := .waiting (some current) }) := by
  simp only [step, Option.ite_none_right_eq_some] at h
  obtain ⟨hthread, h⟩ := h
  split at h
  · rename_i hempty
    exact ⟨hthread, Or.inl ⟨hempty, (Option.some.inj h).symm⟩⟩
  · rename_i current rest hvalues
    exact ⟨hthread, Or.inr ⟨current, rest, hvalues, (Option.some.inj h).symm⟩⟩

theorem step_test (h : step s .test = some s') :
    ∃ current, s.thread = .waiting current ∧
      (s.internalEvent = .down ∧ s' = { s with thread := .sleeping current } ∨
        s.internalEvent = .up ∧ s' = { s with thread := .unlocking }) := by
  simp only [step] at h
  split at h
  · rename_i current hthread
    cases h
    refine ⟨current, hthread, ?_⟩
    cases hevent : s.internalEvent with
    | down => exact Or.inl ⟨rfl, rfl⟩
    | up => exact Or.inr ⟨rfl, rfl⟩
  · cases h

theorem step_wake (h : step s .wake = some s') :
    ∃ current, s.thread = .sleeping current ∧ s' = { s with thread := .waiting current } := by
  simp only [step] at h
  split at h
  · rename_i current hthread
    exact ⟨current, hthread, (Option.some.inj h).symm⟩
  · cases h

theorem step_fire {now : Timespec} (h : step s (.fire now) = some s') :
    ∃ current, s.thread = .sleeping (some current) ∧ compareTime current now = true ∧
      s' = { s with thread := .looping, log := .called current now :: s.log } := by
  simp only [step] at h
  split at h
  · rename_i current hthread
    simp only [Option.ite_none_right_eq_some, Option.some.injEq] at h
    exact ⟨current, hthread, h.1, h.2.symm⟩
  · cases h

theorem step_call {c : C} {call : Call} (h : step s (.call c call) = some s') :
    s' = s ∨ s' = s.goto c (.begun call) := by
  simp only [step, Option.ite_none_right_eq_some] at h
  obtain ⟨-, h⟩ := h
  split at h
  · exact Or.inl (Option.some.inj h).symm
  · exact Or.inr (Option.some.inj h).symm

theorem step_writeEvent {c : C} (h : step s (.writeEvent c) = some s') :
    ∃ call, s' = { s.goto c (.locking call) with internalEvent := call.event s.internalEvent } := by
  simp only [step] at h
  split at h
  · rename_i call hc
    exact ⟨call, (Option.some.inj h).symm⟩
  · cases h

theorem step_lock {c : C} (h : step s (.lock c) = some s') :
    ∃ call, s.internalMutex = none ∧
      s' = { s.goto c (.inside call) with internalMutex := some (.caller c) } := by
  simp only [step] at h
  split at h
  · rename_i call hc
    simp only [Option.ite_none_right_eq_some, Option.some.injEq] at h
    exact ⟨call, h.1, h.2.symm⟩
  · cases h

theorem step_body {c : C} (h : step s (.body c) = some s') :
    ∃ call, s.pcs c = .inside call ∧ s' = s.callBody c call := by
  simp only [step] at h
  split at h
  · rename_i call hc
    exact ⟨call, hc, (Option.some.inj h).symm⟩
  · cases h

end

/-! ## The mutex -/

/-- The thread has the mutex here. -/
def ThreadPc.Inside (pc : ThreadPc) : Prop := pc.Loops ∨ pc = .unlocking

/-- A caller has the mutex here. -/
def CallerPc.Inside : CallerPc → Prop
  | .inside _ | .posting | .leaving => True
  | .idle | .begun _ | .locking _ => False

/-- Whoever is inside holds the mutex. -/
structure Owned (mutex : Option (Holder C)) (thread : ThreadPc) (pcs : C → CallerPc) : Prop where
  thread : thread.Inside → mutex = some .thread
  caller : ∀ c, (pcs c).Inside → mutex = some (.caller c)

omit [DecidableEq C] in
/-- While a caller is inside, the thread is not. -/
theorem Owned.outside {mutex : Option (Holder C)} {thread : ThreadPc} {pcs : C → CallerPc}
    (h : Owned mutex thread pcs) {c : C} (hc : (pcs c).Inside) : ¬ thread.Inside := by
  intro hthread
  have heq := (h.thread hthread).symm.trans (h.caller c hc)
  cases heq

omit [DecidableEq C] in
theorem Owned.thread_move {mutex : Option (Holder C)} {thread thread' : ThreadPc}
    {pcs : C → CallerPc} (h : Owned mutex thread pcs) (hmove : thread'.Inside → thread.Inside) :
    Owned mutex thread' pcs := ⟨fun h' => h.thread (hmove h'), h.caller⟩

theorem Owned.caller_move {mutex : Option (Holder C)} {thread : ThreadPc} {pcs : C → CallerPc}
    (h : Owned mutex thread pcs) {c : C} {pc : CallerPc}
    (hmove : pc.Inside → (pcs c).Inside) : Owned mutex thread (Function.update pcs c pc) := by
  refine ⟨h.thread, fun d hd => ?_⟩
  by_cases hdc : d = c
  · subst hdc
    rw [Function.update_self] at hd
    exact h.caller d (hmove hd)
  · rw [Function.update_of_ne hdc] at hd
    exact h.caller d hd

theorem Owned.lock {thread : ThreadPc} {pcs : C → CallerPc} (h : Owned none thread pcs) (c : C)
    (pc : CallerPc) : Owned (some (.caller c)) thread (Function.update pcs c pc) := by
  refine ⟨fun hthread => ?_, fun d hd => ?_⟩
  · cases h.thread hthread
  · by_cases hdc : d = c
    · rw [hdc]
    · rw [Function.update_of_ne hdc] at hd
      cases h.caller d hd

theorem Owned.unlock {mutex : Option (Holder C)} {thread : ThreadPc} {pcs : C → CallerPc}
    (h : Owned mutex thread pcs) {c : C} (hc : (pcs c).Inside) :
    Owned none thread (Function.update pcs c .idle) := by
  refine ⟨fun hthread => absurd hthread (h.outside hc), fun d hd => ?_⟩
  by_cases hdc : d = c
  · subst hdc
    rw [Function.update_self] at hd
    cases hd
  · rw [Function.update_of_ne hdc] at hd
    have heq := (h.caller c hc).symm.trans (h.caller d hd)
    cases heq
    exact absurd rfl hdc

/-- The thread and the callers. -/
def State.Owned (s : State C) : Prop := Timer.Owned s.internalMutex s.thread s.pcs

theorem callBody_owned {s : State C} (hs : s.Owned) {c : C} {call : Call}
    (hc : s.pcs c = .inside call) : (s.callBody c call).Owned := by
  have hmove : ∀ pc, Timer.Owned s.internalMutex s.thread (Function.update s.pcs c pc) := by
    intro pc
    apply Owned.caller_move hs
    intro _
    rw [hc]
    trivial
  cases call with
  | addTimeValue myspec =>
    simp only [State.callBody]
    split
    · exact hmove .leaving
    · exact hmove .leaving
  | removeTimeValue | removeAllTimeValues | stopTimer => exact hmove .leaving
  | startTimer => exact hmove .posting

theorem step_owned {s s' : State C} {op : Op C} (hs : s.Owned) (h : step s op = some s') :
    s'.Owned := by
  have hs' : Timer.Owned s.internalMutex s.thread s.pcs := hs
  cases op with
  | takeSem =>
    simp only [step, Option.ite_none_right_eq_some, Option.map_eq_some_iff] at h
    obtain ⟨hthread, sem, hsem, rfl⟩ := h
    exact hs'.thread_move (by simp [ThreadPc.Inside, ThreadPc.Loops])
  | setWorking =>
    simp only [step, Option.ite_none_right_eq_some, Option.some.injEq] at h
    obtain ⟨hthread, rfl⟩ := h
    exact hs'.thread_move (by simp [ThreadPc.Inside, ThreadPc.Loops])
  -- The mutex was free, so no caller is inside.
  | lockThread =>
    simp only [step, Option.ite_none_right_eq_some, Option.some.injEq] at h
    obtain ⟨⟨hthread, hfree⟩, rfl⟩ := h
    refine ⟨fun _ => rfl, fun c hc => ?_⟩
    have hcaller := hs'.caller c hc
    rw [hfree] at hcaller
    cases hcaller
  | choose =>
    obtain ⟨hthread, ⟨-, rfl⟩ | ⟨current, rest, -, rfl⟩⟩ := step_choose h
    · exact hs'.thread_move fun _ => by simp [hthread, ThreadPc.Inside, ThreadPc.Loops]
    · exact hs'.thread_move fun _ => by simp [hthread, ThreadPc.Inside, ThreadPc.Loops]
  | test =>
    obtain ⟨current, hthread, ⟨-, rfl⟩ | ⟨-, rfl⟩⟩ := step_test h
    · exact hs'.thread_move fun _ => by simp [hthread, ThreadPc.Inside, ThreadPc.Loops]
    · exact hs'.thread_move fun _ => by simp [hthread, ThreadPc.Inside, ThreadPc.Loops]
  | wake =>
    obtain ⟨current, hthread, rfl⟩ := step_wake h
    exact hs'.thread_move fun _ => by simp [hthread, ThreadPc.Inside, ThreadPc.Loops]
  | fire now =>
    obtain ⟨current, hthread, -, rfl⟩ := step_fire h
    exact hs'.thread_move fun _ => by simp [hthread, ThreadPc.Inside, ThreadPc.Loops]
  | unlockThread =>
    simp only [step, Option.ite_none_right_eq_some, Option.some.injEq] at h
    obtain ⟨hthread, rfl⟩ := h
    refine ⟨by simp [ThreadPc.Inside, ThreadPc.Loops], fun c hc => absurd ?_ (hs'.outside hc)⟩
    exact Or.inr hthread
  | setStopped =>
    simp only [step, Option.ite_none_right_eq_some, Option.some.injEq] at h
    obtain ⟨hthread, rfl⟩ := h
    exact hs'.thread_move (by simp [ThreadPc.Inside, ThreadPc.Loops])
  | call c call =>
    rcases step_call h with rfl | rfl
    · exact hs
    · exact hs'.caller_move (by simp [CallerPc.Inside])
  | writeEvent c =>
    obtain ⟨call, rfl⟩ := step_writeEvent h
    exact hs'.caller_move (by simp [CallerPc.Inside])
  | lock c =>
    obtain ⟨call, hfree, rfl⟩ := step_lock h
    rw [hfree] at hs'
    exact hs'.lock c _
  | body c =>
    obtain ⟨call, hc, rfl⟩ := step_body h
    exact callBody_owned hs hc
  | post c =>
    simp only [step, Option.ite_none_right_eq_some, Option.some.injEq] at h
    obtain ⟨hc, rfl⟩ := h
    exact hs'.caller_move fun _ => by simp [hc, CallerPc.Inside]
  | unlock c =>
    simp only [step, Option.ite_none_right_eq_some, Option.some.injEq] at h
    obtain ⟨hc, rfl⟩ := h
    exact hs'.unlock (by simp [hc, CallerPc.Inside])

/-! ## The times -/

/-- The times are in order, that of the thread before all of the set; it has none only
    where the set is empty; the pending times are those of the two. -/
structure Kept (values : List Timespec) (thread : ThreadPc) (log : List Entry) : Prop where
  sorted : OrderedSet.Sorted lexTime values
  least : ∀ v, thread.current = some v → ∀ w ∈ values, lexTime v < lexTime w
  none : thread = .waiting none ∨ thread = .sleeping none → values = []
  held : ∀ v, Pending v log ↔ v ∈ values ∨ thread.current = some v
  inOrder : CallsInOrder log

/-- Outside of a wait the thread has no time. -/
def ThreadPc.Waits (pc : ThreadPc) : Prop := ∃ current, pc = .waiting current ∨ pc = .sleeping current

theorem ThreadPc.current_of_not_waits {pc : ThreadPc} (h : ¬ pc.Waits) : pc.current = none := by
  cases pc with
  | waiting current => exact absurd ⟨current, Or.inl rfl⟩ h
  | sleeping current => exact absurd ⟨current, Or.inr rfl⟩ h
  | idle | woken | locking | looping | unlocking | stopping => rfl

/-- Where the thread does not wait, the pending times are those of the set. -/
theorem Kept.of_not_waits {values : List Timespec} {thread : ThreadPc} {log : List Entry}
    (hthread : ¬ thread.Waits) (hsorted : OrderedSet.Sorted lexTime values)
    (hheld : ∀ v, Pending v log ↔ v ∈ values) (horder : CallsInOrder log) :
    Kept values thread log where
  sorted := hsorted
  least := fun v hv => by
    rw [ThreadPc.current_of_not_waits hthread] at hv
    cases hv
  none := fun h => absurd ⟨Option.none, h⟩ hthread
  held := fun v => by
    rw [hheld, ThreadPc.current_of_not_waits hthread]
    simp
  inOrder := horder

section
variable {values : List Timespec} {thread thread' : ThreadPc} {log : List Entry}

theorem Kept.held_of_none (h : Kept values thread log) (hthread : thread.current = Option.none)
    (v : Timespec) : Pending v log ↔ v ∈ values := by
  rw [h.held, hthread]
  simp

theorem Kept.move (h : Kept values thread log) (hfrom : thread.current = Option.none)
    (hto : ¬ thread'.Waits) : Kept values thread' log :=
  .of_not_waits hto h.sorted (h.held_of_none hfrom) h.inOrder

theorem Kept.turn {current : Option Timespec} (h : Kept values thread log)
    (hfrom : thread = .waiting current ∨ thread = .sleeping current)
    (hto : thread' = .waiting current ∨ thread' = .sleeping current) :
    Kept values thread' log := by
  have hcurrent : thread'.current = thread.current := by
    rcases hfrom with rfl | rfl <;> rcases hto with rfl | rfl <;> rfl
  refine ⟨h.sorted, hcurrent ▸ h.least, fun hnone => h.none ?_, hcurrent ▸ h.held, h.inOrder⟩
  rcases hto with rfl | rfl <;> simp_all

theorem Kept.choose {v : Timespec} (h : Kept (v :: values) thread log)
    (hthread : ¬ thread.Waits) : Kept values (.waiting (some v)) log := by
  obtain ⟨hv, hsorted⟩ := List.pairwise_cons.mp h.sorted
  refine ⟨hsorted, ?_, nofun, fun w => ?_, h.inOrder⟩
  · rintro w ⟨⟩
    exact hv
  · rw [h.held_of_none (ThreadPc.current_of_not_waits hthread), List.mem_cons, or_comm]
    simp [ThreadPc.current, eq_comm]

theorem Kept.chooseNone (h : Kept [] thread log) (hthread : thread.current = Option.none) :
    Kept [] (.waiting Option.none) log :=
  ⟨h.sorted, nofun, fun _ => rfl, fun v => by rw [h.held, hthread]; rfl, h.inOrder⟩

theorem Kept.fire {v now : Timespec} (h : Kept values (.sleeping (some v)) log)
    (hnow : compareTime v now = true) : Kept values .looping (.called v now :: log) := by
  have hleast : ∀ w ∈ values, lexTime v < lexTime w := h.least v rfl
  refine .of_not_waits (by rintro ⟨_, h | h⟩ <;> cases h) h.sorted (fun w => ?_) ?_
  · calc Pending w (.called v now :: log)
        ↔ w ≠ v ∧ (w ∈ values ∨ some v = some w) := and_congr_right fun _ => h.held w
      _ ↔ w ∈ values := by
          constructor
          · rintro ⟨hne, hw | heq⟩
            · exact hw
            · exact absurd (Option.some.inj heq).symm hne
          · intro hw
            refine ⟨?_, Or.inl hw⟩
            rintro rfl
            exact lt_irrefl _ (hleast w hw)
  · refine ⟨(h.held v).mpr (Or.inr rfl), fun w hw => ?_, (compareTime_iff_lexTime v now).mp hnow,
      h.inOrder⟩
    rcases (h.held w).mp hw with hw | heq
    · exact (hleast w hw).le
    · cases heq
      exact le_rfl

theorem Kept.add (h : Kept values thread log) (hthread : ¬ thread.Waits) (v : Timespec) :
    Kept (OrderedSet.insert compareTimeLess v values) thread (.added v :: log) := by
  have hheld := h.held_of_none (ThreadPc.current_of_not_waits hthread)
  refine .of_not_waits hthread (OrderedSet.sorted_insert compareTimeLess_iff v h.sorted)
    (fun w => ?_) h.inOrder
  rw [OrderedSet.mem_insert compareTimeLess_iff h.sorted, ← hheld]
  constructor
  · rintro (rfl | hw)
    · by_cases hin : Pending w log
      · exact Or.inl hin
      · refine Or.inr ⟨rfl, fun y hy heq => hin ?_⟩
        rw [hheld, ← lexTime_injective heq]
        exact hy
    · exact Or.inl hw
  · rintro (hw | ⟨rfl, -⟩)
    · exact Or.inr hw
    · exact Or.inl rfl

theorem Kept.remove (h : Kept values thread log) {v : Timespec} (hv : ¬ Pending v log) :
    Kept values thread (.removed v :: log) := by
  refine ⟨h.sorted, h.least, h.none, fun w => ?_, h.inOrder⟩
  rw [← h.held]
  refine and_iff_right_of_imp fun hw => ?_
  rintro rfl
  exact hv hw

end

/-- The times of a state. -/
def State.Kept (s : State C) : Prop := Timer.Kept s.timeValues s.thread s.log

theorem callBody_kept {s : State C} (hs : s.Kept) (hthread : ¬ s.thread.Waits) (c : C) {call : Call}
    (hcall : ∀ v, call = .removeTimeValue v → ¬ Pending v s.log) : (s.callBody c call).Kept := by
  cases call with
  | addTimeValue myspec =>
    simp only [State.callBody]
    split
    · exact hs
    · exact Kept.add hs hthread myspec
  | removeTimeValue myspec => exact Kept.remove hs (hcall myspec rfl)
  | removeAllTimeValues =>
    refine Kept.of_not_waits hthread .nil (fun v => ?_) hs.inOrder
    exact iff_of_false not_false List.not_mem_nil
  | stopTimer => exact hs
  | startTimer => exact hs

theorem ThreadPc.Waits.inside {pc : ThreadPc} (h : pc.Waits) : pc.Inside := by
  obtain ⟨current, rfl | rfl⟩ := h
  · exact Or.inl trivial
  · exact Or.inl trivial

theorem step_kept {s s' : State C} {op : Op C} (howned : s.Owned) (hs : s.Kept)
    (hop : NothingDropped s op) (h : step s op = some s') : s'.Kept := by
  have hs' : Timer.Kept s.timeValues s.thread s.log := hs
  cases op with
  | takeSem =>
    simp only [step, Option.ite_none_right_eq_some, Option.map_eq_some_iff] at h
    obtain ⟨hthread, sem, hsem, rfl⟩ := h
    exact hs'.move (by rw [hthread]; rfl) (by simp [ThreadPc.Waits])
  | setWorking =>
    simp only [step, Option.ite_none_right_eq_some, Option.some.injEq] at h
    obtain ⟨hthread, rfl⟩ := h
    exact hs'.move (by rw [hthread]; rfl) (by simp [ThreadPc.Waits])
  | lockThread =>
    simp only [step, Option.ite_none_right_eq_some, Option.some.injEq] at h
    obtain ⟨⟨hthread, -⟩, rfl⟩ := h
    exact hs'.move (by rw [hthread]; rfl) (by simp [ThreadPc.Waits])
  | choose =>
    obtain ⟨hthread, ⟨hempty, rfl⟩ | ⟨current, rest, hvalues, rfl⟩⟩ := step_choose h
    · rw [hempty] at hs'
      exact hempty ▸ hs'.chooseNone (by rw [hthread]; rfl)
    · rw [hvalues] at hs'
      exact hs'.choose (by simp [hthread, ThreadPc.Waits])
  -- The test of the event: DOWN sends the thread to its wait, UP out of its loop; the
  -- condition is that it has no time then.
  | test =>
    obtain ⟨current, hthread, ⟨-, rfl⟩ | ⟨hup, rfl⟩⟩ := step_test h
    · exact hs'.turn (Or.inl hthread) (Or.inr rfl)
    · exact hs'.move (hop hup) (by simp [ThreadPc.Waits])
  | wake =>
    obtain ⟨current, hthread, rfl⟩ := step_wake h
    exact hs'.turn (Or.inr hthread) (Or.inl rfl)
  | fire now =>
    obtain ⟨current, hthread, hnow, rfl⟩ := step_fire h
    rw [hthread] at hs'
    exact hs'.fire hnow
  | unlockThread =>
    simp only [step, Option.ite_none_right_eq_some, Option.some.injEq] at h
    obtain ⟨hthread, rfl⟩ := h
    exact hs'.move (by rw [hthread]; rfl) (by simp [ThreadPc.Waits])
  | setStopped =>
    simp only [step, Option.ite_none_right_eq_some, Option.some.injEq] at h
    obtain ⟨hthread, rfl⟩ := h
    exact hs'.move (by rw [hthread]; rfl) (by simp [ThreadPc.Waits])
  | call c call =>
    rcases step_call h with rfl | rfl
    · exact hs
    · exact hs
  | writeEvent c =>
    obtain ⟨call, rfl⟩ := step_writeEvent h
    exact hs
  | lock c =>
    obtain ⟨call, -, rfl⟩ := step_lock h
    exact hs
  | body c =>
    obtain ⟨call, hc, rfl⟩ := step_body h
    -- The caller has the mutex, so the thread is not in the part in which it holds a time.
    have hthread : ¬ s.thread.Waits := by
      intro hwaits
      refine howned.outside (c := c) ?_ hwaits.inside
      rw [hc]
      trivial
    refine callBody_kept hs hthread c fun v hv => hop v ?_
    rw [hc, hv]
    rfl
  | post c =>
    simp only [step, Option.ite_none_right_eq_some, Option.some.injEq] at h
    obtain ⟨-, rfl⟩ := h
    exact hs
  | unlock c =>
    simp only [step, Option.ite_none_right_eq_some, Option.some.injEq] at h
    obtain ⟨-, rfl⟩ := h
    exact hs

/-! ## Whole runs -/

/-- What every run keeps that drops nothing. -/
structure Good (s : State C) : Prop where
  owned : s.Owned
  kept : s.Kept

omit [DecidableEq C] in
theorem start_good : Good (start C) where
  owned := ⟨by simp [start, ThreadPc.Inside, ThreadPc.Loops], nofun⟩
  kept := .of_not_waits (by simp [start, ThreadPc.Waits]) .nil (fun _ => by simp [start, Pending])
    trivial

theorem step_good {s s' : State C} (op : Op C) (hs : Good s) (hop : NothingDropped s op)
    (h : step s op = some s') : Good s' :=
  ⟨step_owned hs.owned h, step_kept hs.owned hs.kept hop h⟩

/-- The times of a list that have come. -/
def due (now : Timespec) (values : List Timespec) : List Timespec :=
  values.filter fun v => compareTime v now

theorem mem_due {now v : Timespec} {values : List Timespec} :
    v ∈ due now values ↔ v ∈ values ∧ lexTime v ≤ lexTime now := by
  rw [due, List.mem_filter, compareTime_iff_lexTime]

theorem due_cons {now v : Timespec} (hv : compareTime v now = true) (values : List Timespec) :
    due now (v :: values) = v :: due now values := List.filter_cons_of_pos hv

theorem due_eq_nil {now v : Timespec} {values : List Timespec}
    (hleast : ∀ w ∈ values, lexTime v < lexTime w) (hv : ¬ compareTime v now = true) :
    due now (v :: values) = [] := by
  rw [compareTime_iff_lexTime, not_le] at hv
  apply List.eq_nil_iff_forall_not_mem.mpr
  intro w hw
  obtain ⟨hmem, hnow⟩ := mem_due.mp hw
  rcases List.mem_cons.mp hmem with rfl | hmem
  · exact absurd hnow (not_le.mpr hv)
  · exact absurd hnow (not_le.mpr (hv.trans (hleast w hmem)))

/-- From the head of the loop, with the event down, the thread fires what has come: by
    induction on the set, of which each round takes the least. -/
theorem run_loop (now : Timespec) (values : List Timespec) {s : State C}
    (hvalues : s.timeValues = values) (hsorted : OrderedSet.Sorted lexTime values)
    (hloop : s.thread = .looping) (hdown : s.internalEvent = .down) :
    ∃ ops s', (∀ op ∈ ops, Op.OfThread now op) ∧ run step s ops = some s' ∧
      s'.log = ((due now values).map (.called · now)).reverse ++ s.log := by
  induction values generalizing s with
  | nil => exact ⟨[], s, nofun, rfl, rfl⟩
  | cons v values ih =>
    obtain ⟨hleast, hrest⟩ := List.pairwise_cons.mp hsorted
    by_cases hv : compareTime v now = true
    · let fired : State C :=
        { s with timeValues := values, thread := .looping, log := .called v now :: s.log }
      obtain ⟨ops, s', hops, hrun, hlog⟩ := ih (s := fired) rfl hrest rfl hdown
      refine ⟨.choose :: .test :: .fire now :: ops, s', ?_, ?_, ?_⟩
      · intro op hop
        simp only [List.mem_cons] at hop
        rcases hop with rfl | rfl | rfl | hop
        · trivial
        · trivial
        · rfl
        · exact hops op hop
      · simpa [run_cons, step, hloop, hvalues, hdown, hv, fired] using hrun
      · rw [hlog, due_cons hv]
        simp [fired]
    · refine ⟨[], s, nofun, rfl, ?_⟩
      rw [due_eq_nil hleast hv]
      rfl

theorem fires_of_step {s t : State C} {now : Timespec} (op : Op C) (hop : Op.OfThread now op)
    (h : step s op = some t) (hlog : t.log = s.log) (ht : t.Fires now) : s.Fires now := by
  obtain ⟨due, hsorted, hdue, ops, s', hops, hrun, hcalls⟩ := ht
  rw [hlog] at hdue hcalls
  refine ⟨due, hsorted, hdue, op :: ops, s', ?_, run_cons_some.mpr ⟨t, h, hrun⟩, hcalls⟩
  exact List.forall_mem_cons.mpr ⟨hop, hops⟩

theorem fires_looping {s : State C} (hs : Good s) (hloop : s.thread = .looping)
    (hdown : s.internalEvent = .down) (now : Timespec) : s.Fires now := by
  have hkept : Kept s.timeValues s.thread s.log := hs.kept
  refine ⟨due now s.timeValues, hkept.sorted.filter _, fun v => ?_,
    run_loop now s.timeValues rfl hkept.sorted hloop hdown⟩
  rw [mem_due, hkept.held_of_none (by rw [hloop]; rfl)]

theorem fires_sleeping {s : State C} (hs : Good s) {current : Option Timespec}
    (hsleep : s.thread = .sleeping current) (hdown : s.internalEvent = .down) (now : Timespec) :
    s.Fires now := by
  have hkept : Kept s.timeValues s.thread s.log := hs.kept
  cases current with
  | none =>
    -- nothing is pending
    refine ⟨[], .nil, fun v => ?_, [], s, nofun, rfl, rfl⟩
    have hpending : ¬ Pending v s.log := by
      rw [hkept.held, hkept.none (Or.inr hsleep), hsleep]
      simp [ThreadPc.current]
    exact iff_of_false List.not_mem_nil fun h => hpending h.1
  | some v =>
    have hleast : ∀ w ∈ s.timeValues, lexTime v < lexTime w := hkept.least v (by rw [hsleep]; rfl)
    have hheld : ∀ w, Pending w s.log ↔ w ∈ v :: s.timeValues := by
      intro w
      rw [hkept.held, hsleep, List.mem_cons, or_comm]
      simp [ThreadPc.current, eq_comm]
    by_cases hv : compareTime v now = true
    · let fired : State C := { s with thread := .looping, log := .called v now :: s.log }
      obtain ⟨ops, s', hops, hrun, hlog⟩ :=
        run_loop now s.timeValues (s := fired) rfl hkept.sorted rfl hdown
      refine ⟨due now (v :: s.timeValues), ?_, fun w => ?_, .fire now :: ops, s', ?_, ?_, ?_⟩
      · exact List.Pairwise.filter _ (List.pairwise_cons.mpr ⟨hleast, hkept.sorted⟩)
      · rw [mem_due, hheld]
      · exact List.forall_mem_cons.mpr ⟨rfl, hops⟩
      · simpa [run_cons, step, hsleep, hv, fired] using hrun
      · rw [hlog, due_cons hv]
        simp [fired]
    · refine ⟨[], .nil, fun w => ?_, [], s, nofun, rfl, rfl⟩
      rw [hheld, ← mem_due, due_eq_nil hleast hv]

/-- A timer that runs fires all pending times that have come. -/
theorem Good.fires {s : State C} (hs : Good s) (hruns : s.Runs) (now : Timespec) :
    s.Fires now := by
  obtain ⟨hdown, hloops | ⟨hfree, hthread⟩⟩ := hruns
  · cases hpc : s.thread with
    | looping => exact fires_looping hs hpc hdown now
    | waiting current =>
      have htest : step s .test = some { s with thread := .sleeping current } := by
        simp [step, hpc, hdown]
      have hkept : NothingDropped s .test := by
        intro hup
        rw [hdown] at hup
        cases hup
      exact fires_of_step .test trivial htest rfl
        (fires_sleeping (step_good .test hs hkept htest) rfl hdown now)
    | sleeping current => exact fires_sleeping hs hpc hdown now
    | idle | woken | locking | unlocking | stopping =>
      rw [hpc] at hloops
      cases hloops
  · -- the way to the loop, backwards
    have hlocking : ∀ t : State C, Good t → t.internalEvent = .down → t.internalMutex = none →
        t.thread = .locking → t.Fires now := by
      intro t ht hdown hfree hpc
      have hlock : step t .lockThread =
          some { t with internalMutex := some .thread, thread := .looping } := if_pos ⟨hpc, hfree⟩
      exact fires_of_step .lockThread trivial hlock rfl
        (fires_looping (step_good .lockThread ht trivial hlock) rfl hdown now)
    have hwoken : ∀ t : State C, Good t → t.internalEvent = .down → t.internalMutex = none →
        t.thread = .woken → t.Fires now := by
      intro t ht hdown hfree hpc
      have hset : step t .setWorking = some { t with myState := .working, thread := .locking } :=
        if_pos hpc
      exact fires_of_step .setWorking trivial hset rfl
        (hlocking _ (step_good .setWorking ht trivial hset) hdown hfree rfl)
    rcases hthread with ⟨hpc, hsem⟩ | hpc | hpc
    · have htake : step s .takeSem = some { s with
          internalSem := { s.internalSem with counter := s.internalSem.counter - 1 }
          thread := .woken } := by
        simp [step, hpc, Semaphore.wait, hsem]
      exact fires_of_step .takeSem trivial htake rfl
        (hwoken _ (step_good .takeSem hs trivial htake) hdown hfree rfl)
    · exact hwoken s hs hdown hfree hpc
    · exact hlocking s hs hdown hfree hpc

/-- Two times are added, the timer is started, and the first of them has come. -/
def firesFirst : List (Op Unit) :=
  [.call () (.addTimeValue ⟨2, 0⟩), .writeEvent (), .lock (), .body (), .unlock (),
   .call () (.addTimeValue ⟨1, 0⟩), .writeEvent (), .lock (), .body (), .unlock (),
   .call () .startTimer, .writeEvent (), .lock (), .body (), .post (), .unlock (),
   .takeSem, .setWorking, .lockThread, .choose, .test, .fire ⟨1, 0⟩]

/-- Neither the set nor the thread has the time. -/
def State.Lacks (s : State C) (v : Timespec) : Prop :=
  v ∉ s.timeValues ∧ s.thread.current ≠ some v

/-- The thread gets its times from the set, and calls for none but them. -/
theorem step_lacks {s s' : State C} {op : Op C} {v now : Timespec} (hs : s.Lacks v)
    (hop : Op.OfThread now op) (h : step s op = some s') :
    s'.Lacks v ∧ (.called v now ∈ s'.log → .called v now ∈ s.log) := by
  obtain ⟨hset, hthread⟩ := hs
  have hnone : none ≠ some v := (Option.some_ne_none v).symm
  cases op with
  | takeSem =>
    simp only [step, Option.ite_none_right_eq_some, Option.map_eq_some_iff] at h
    obtain ⟨-, sem, -, rfl⟩ := h
    exact ⟨⟨hset, hnone⟩, id⟩
  | setWorking =>
    simp only [step, Option.ite_none_right_eq_some, Option.some.injEq] at h
    obtain ⟨-, rfl⟩ := h
    exact ⟨⟨hset, hnone⟩, id⟩
  | lockThread =>
    simp only [step, Option.ite_none_right_eq_some, Option.some.injEq] at h
    obtain ⟨-, rfl⟩ := h
    exact ⟨⟨hset, hnone⟩, id⟩
  | choose =>
    obtain ⟨-, ⟨-, rfl⟩ | ⟨current, rest, hvalues, rfl⟩⟩ := step_choose h
    · exact ⟨⟨hset, hnone⟩, id⟩
    · rw [hvalues] at hset
      refine ⟨⟨fun hv => hset (List.mem_cons_of_mem _ hv), fun heq => hset ?_⟩, id⟩
      cases heq
      exact List.mem_cons_self
  | test =>
    obtain ⟨current, hpc, ⟨-, rfl⟩ | ⟨-, rfl⟩⟩ := step_test h
    · rw [hpc] at hthread
      exact ⟨⟨hset, hthread⟩, id⟩
    · exact ⟨⟨hset, hnone⟩, id⟩
  | wake =>
    obtain ⟨current, hpc, rfl⟩ := step_wake h
    rw [hpc] at hthread
    exact ⟨⟨hset, hthread⟩, id⟩
  | fire t =>
    obtain ⟨current, hpc, -, rfl⟩ := step_fire h
    rw [hpc] at hthread
    refine ⟨⟨hset, hnone⟩, fun hcalled => ?_⟩
    rcases List.mem_cons.mp hcalled with heq | hcalled
    · cases heq
      exact absurd rfl hthread
    · exact hcalled
  | unlockThread | setStopped | call | writeEvent | lock | body | post | unlock => cases hop

theorem run_lacks {s s' : State C} {ops : List (Op C)} {v now : Timespec} (hs : s.Lacks v)
    (hops : ∀ op ∈ ops, Op.OfThread now op) (h : run step s ops = some s') :
    .called v now ∈ s'.log → .called v now ∈ s.log := by
  induction ops generalizing s with
  | nil =>
    cases h
    exact id
  | cons op ops ih =>
    obtain ⟨hop, hops⟩ := List.forall_mem_cons.mp hops
    obtain ⟨t, ht, hrun⟩ := run_cons_some.mp h
    obtain ⟨hlacks, hcalled⟩ := step_lacks hs hop ht
    exact fun hin => hcalled (ih hlacks hops hrun hin)

/-- A pending time that has come and that neither the set nor the thread has is not fired. -/
theorem State.Lacks.not_fires {s : State C} {v now : Timespec} (hs : s.Lacks v)
    (hpending : Pending v s.log) (hnow : lexTime v ≤ lexTime now)
    (hnew : .called v now ∉ s.log) : ¬ s.Fires now := by
  rintro ⟨due, -, hdue, ops, s', hops, hrun, hlog⟩
  have hcalled : .called v now ∈ s'.log := by
    rw [hlog]
    apply List.mem_append_left
    apply List.mem_reverse.mpr
    exact List.mem_map_of_mem ((hdue v).mpr ⟨hpending, hnow⟩)
  exact hnew (run_lacks hs hops hrun hcalled)

/-- A time is added and removed, with `NO_ERROR` for both, and fires. -/
def firesRemoved : List (Op Unit) :=
  [.call () (.addTimeValue ⟨1, 0⟩), .writeEvent (), .lock (), .body (), .unlock (),
   .call () (.removeTimeValue ⟨1, 0⟩), .writeEvent (), .lock (), .body (), .unlock (),
   .call () .startTimer, .writeEvent (), .lock (), .body (), .post (), .unlock (),
   .takeSem, .setWorking, .lockThread, .choose, .test, .fire ⟨1, 0⟩]

/-- A time is added; the timer is started, stopped before the time has come, and started
    again. -/
def losesCurrent : List (Op Unit) :=
  [.call () (.addTimeValue ⟨1, 0⟩), .writeEvent (), .lock (), .body (), .unlock (),
   .call () .startTimer, .writeEvent (), .lock (), .body (), .post (), .unlock (),
   .takeSem, .setWorking, .lockThread, .choose, .test,
   .call () .stopTimer, .writeEvent (), .wake, .test, .unlockThread, .setStopped,
   .lock (), .body (), .unlock (),
   .call () .startTimer, .writeEvent (), .lock (), .body (), .post (), .unlock ()]

end Arinc.Timer
