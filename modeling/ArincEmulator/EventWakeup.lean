import ArincEmulator.Lib.Runs
import ArincEmulator.Event
import Mathlib.Data.Fintype.Basic

/- An event with a mutex of its own, one access at a time. `SET_EVENT` writes the state
   before it has the mutex, only tries for the mutex, and broadcasts and unlocks whether
   it got it or not; `WAIT_EVENT` tests the state and goes to sleep under the mutex.

   What is proved:
     1. `step_good`: while no broadcast overtakes a process between its test and its
        sleep, a sleeper on an event that is up has a `SET_EVENT` still to broadcast.
     2. `event_wakes_sleepers`: so in every such run nobody sleeps on an event that is
        up, and no process loses the mutex to a `SET_EVENT` of another one.
     3. `wakeup_lost`: with the mutex the events are created with, one process of each
        kind is enough for the broadcast to come between test and sleep. -/
namespace Arinc.EventWakeup
open Runs

/-- `MUTEX::Attribute`. -/
inductive Attribute where
  | normal
  | errorcheck
  | recursive
  deriving DecidableEq, Repr

/-- Who holds the mutex: a process, or the thread that created the event, if it asked
    for a locked mutex. -/
inductive Holder (T : Type*) where
  | creator
  | process (t : T)
  deriving DecidableEq

/-- Where a process is: in `SET_EVENT` before the write of the state, before `try_lock`,
    before the broadcast and before the unlock; in `WAIT_EVENT` before the lock, before
    the test of the loop, between a test that found the event down and the sleep, in the
    sleep, and past the loop. -/
inductive Pc where
  | idle
  | writing
  | trying
  | broadcasting
  | unlocking
  | entering
  | testing
  | falling
  | asleep
  | leaving
  deriving DecidableEq, Repr

/-- The event and the processes that use it. -/
structure State (T : Type*) where
  attr : Attribute
  eventState : EventState
  mutex : Option (Holder T)
  condition : CondVar T
  pcs : T → Pc

variable {T : Type*}

/-- A new event. -/
def start (T : Type*) (attr : Attribute) (locked : Bool) : State T :=
  ⟨attr, .down, if locked then some .creator else none, CondVar.empty, fun _ => .idle⟩

variable [DecidableEq T]

/-- The mutex after `unlock` by `t`. One that checks its owner refuses all others; a
    normal one is released by anybody. -/
def State.released (s : State T) (t : T) : Option (Holder T) :=
  if s.attr = .normal ∨ s.mutex = some (.process t) then none else s.mutex

/-- A process goes on. -/
def State.goto (s : State T) (t : T) (pc : Pc) : State T :=
  { s with pcs := Function.update s.pcs t pc }

/-- The steps. `resume` is the end of a sleep, when the process has the mutex again. -/
inductive Op (T : Type*) where
  | setEvent (t : T)
  | write (t : T)
  | tryLock (t : T)
  | broadcast (t : T)
  | unlock (t : T)
  | resetEvent
  | waitEvent (t : T)
  | lock (t : T)
  | test (t : T)
  | sleep (t : T)
  | spurious (t : T)
  | resume (t : T)
  | leave (t : T)

/-- One step. -/
def step (s : State T) : Op T → Option (State T)
  | .setEvent t =>
    if s.pcs t = .idle then
      -- an event that is up is left alone
      if s.eventState = .down then some (s.goto t .writing) else some s
    else none
  | .write t =>
    if s.pcs t = .writing then some { s.goto t .trying with eventState := .up } else none
  | .tryLock t =>
    if s.pcs t = .trying then
      -- the result of `try_lock` is not looked at
      some { s.goto t .broadcasting with
        mutex := if s.mutex = none then some (.process t) else s.mutex }
    else none
  | .broadcast t =>
    if s.pcs t = .broadcasting then
      some { s.goto t .unlocking with condition := s.condition.broadcast }
    else none
  | .unlock t =>
    if s.pcs t = .unlocking then some { s.goto t .idle with mutex := s.released t } else none
  | .resetEvent => some { s with eventState := .down }
  | .waitEvent t => if s.pcs t = .idle then some (s.goto t .entering) else none
  | .lock t =>
    if s.pcs t = .entering ∧ s.mutex = none then
      some { s.goto t .testing with mutex := some (.process t) }
    else none
  | .test t =>
    if s.pcs t = .testing then
      some (s.goto t (if s.eventState = .down then .falling else .leaving))
    else none
  | .sleep t =>
    if s.pcs t = .falling then
      some { s.goto t .asleep with mutex := s.released t, condition := s.condition.sleep t }
    else none
  | .spurious t =>
    if t ∈ s.condition.asleep then some { s with condition := s.condition.awaken t } else none
  | .resume t =>
    if s.pcs t = .asleep ∧ t ∈ s.condition.signalled ∧ s.mutex = none then
      some { s.goto t .testing with
        mutex := some (.process t), condition := s.condition.leave t }
    else none
  | .leave t =>
    if s.pcs t = .leaving then some { s.goto t .idle with mutex := s.released t } else none

/-! ## Stranded sleepers -/

/-- A `SET_EVENT` has written the state and its broadcast is still to come. -/
def Pc.BroadcastsYet (pc : Pc) : Prop := pc = .trying ∨ pc = .broadcasting

/-- A process sleeps although the event is up and nobody is about to wake it. -/
def State.Stranded (s : State T) : Prop :=
  s.eventState = .up ∧ s.condition.asleep.Nonempty ∧ ∀ t, ¬ (s.pcs t).BroadcastsYet

/-- The step is no unlock by `SET_EVENT` of a mutex that somebody else holds. -/
def LeavesOthers (s : State T) (op : Op T) : Prop :=
  ∀ t h, op = .unlock t → s.mutex = some h → h ≠ .process t →
    ∀ s', step s op = some s' → s'.mutex = some h

/-- On a normal mutex `try_lock` gets it. On the others, which nobody but its owner can
    unlock, no broadcast comes between the test and the sleep of a process. -/
def NoOvertaking (s : State T) : Op T → Prop
  | .tryLock _ => s.attr = .normal → s.mutex = none
  | .broadcast _ => s.attr ≠ .normal → ∀ t, s.pcs t ≠ .falling
  | _ => True

instance [Fintype T] (s : State T) : ∀ op, Decidable (NoOvertaking s op)
  | .tryLock _ => inferInstanceAs (Decidable (_ → _))
  | .broadcast _ => inferInstanceAs (Decidable (_ → ∀ _, _ ≠ _))
  | .setEvent _ | .write _ | .unlock _ | .resetEvent | .waitEvent _ | .lock _ | .test _
  | .sleep _ | .spurious _ | .resume _ | .leave _ => isTrue trivial

/-! ## The invariant -/

/-- Inside `WAIT_EVENT` with the mutex. -/
def Pc.Inside (pc : Pc) : Prop := pc = .testing ∨ pc = .falling ∨ pc = .leaving

/-- Past `try_lock` and before the unlock. -/
def Pc.Signals (pc : Pc) : Prop := pc = .broadcasting ∨ pc = .unlocking

/-- At this place the mutex is the process's own. -/
def Owns (attr : Attribute) (pc : Pc) : Prop := pc.Inside ∨ attr = .normal ∧ pc.Signals

/-- Somebody sleeps, or has found the event down and is about to. -/
def State.Sleepers (s : State T) : Prop :=
  s.condition.asleep.Nonempty ∨ ∃ t, s.pcs t = .falling

/-- Who tests the state holds the mutex, and so does a `SET_EVENT` on a normal one; who
    sleeps on an event that is up, or is about to, has a broadcast to come. -/
structure Good (s : State T) : Prop where
  owner : ∀ t, Owns s.attr (s.pcs t) → s.mutex = some (.process t)
  awaited : s.eventState = .up → s.Sleepers → ∃ u, (s.pcs u).BroadcastsYet

omit [DecidableEq T] in
theorem start_good (attr : Attribute) (locked : Bool) : Good (start T attr locked) where
  owner := fun t h => by
    rcases h with h | ⟨-, h⟩
    · rcases h with h | h | h <;> cases h
    · rcases h with h | h <;> cases h
  awaited := nofun

omit [DecidableEq T] in
theorem Good.owner_unique {s : State T} (hs : Good s) {t u : T} (ht : Owns s.attr (s.pcs t))
    (hu : Owns s.attr (s.pcs u)) : u = t := by
  have hmutex := (hs.owner u hu).symm.trans (hs.owner t ht)
  cases hmutex
  rfl

/-- An unlock at the end of a call takes the mutex from nobody else. -/
theorem Good.released_other {s : State T} (hs : Good s) {t u : T}
    (ht : (s.pcs t).Inside ∨ (s.pcs t).Signals) (hne : u ≠ t) (hu : Owns s.attr (s.pcs u)) :
    s.released t = some (.process u) := by
  have hmutex := hs.owner u hu
  unfold State.released
  rw [hmutex]
  apply if_neg
  rintro (hnormal | hown)
  · have htowns : Owns s.attr (s.pcs t) := ht.imp id fun h => ⟨hnormal, h⟩
    exact hne (hs.owner_unique htowns hu)
  · cases hown
    exact hne rfl

theorem owner_move (s : State T) {s' : State T} {t : T} {pc : Pc}
    (hattr : s'.attr = s.attr) (hpcs : s'.pcs = Function.update s.pcs t pc)
    (hself : Owns s.attr pc → s'.mutex = some (.process t))
    (hothers : ∀ u, u ≠ t → Owns s.attr (s.pcs u) → s'.mutex = some (.process u)) :
    ∀ u, Owns s'.attr (s'.pcs u) → s'.mutex = some (.process u) := by
  intro u hu
  rw [hattr, hpcs] at hu
  by_cases hut : u = t
  · subst hut
    rw [Function.update_self] at hu
    exact hself hu
  · rw [Function.update_of_ne hut] at hu
    exact hothers u hut hu

theorem Good.awaited_move {s s' : State T} (hs : Good s) {t : T} {pc : Pc}
    (hpcs : s'.pcs = Function.update s.pcs t pc) (hfrom : ¬ (s.pcs t).BroadcastsYet)
    (hstate : s'.eventState = s.eventState) (hsleepers : s'.Sleepers → s.Sleepers) :
    s'.eventState = .up → s'.Sleepers → ∃ u, (s'.pcs u).BroadcastsYet := by
  intro hup hs'
  obtain ⟨u, hu⟩ := hs.awaited (hstate.symm.trans hup) (hsleepers hs')
  refine ⟨u, ?_⟩
  have hut : u ≠ t := fun heq => hfrom (heq ▸ hu)
  rw [hpcs, Function.update_of_ne hut]
  exact hu

theorem sleepers_move {s s' : State T} {t : T} {pc : Pc}
    (hpcs : s'.pcs = Function.update s.pcs t pc) (hpc : pc ≠ .falling)
    (hasleep : s'.condition.asleep ⊆ s.condition.asleep) (h : s'.Sleepers) : s.Sleepers := by
  rcases h with hne | ⟨u, hu⟩
  · exact Or.inl (hne.mono hasleep)
  · rw [hpcs] at hu
    by_cases hut : u = t
    · subst hut
      rw [Function.update_self] at hu
      exact absurd hu hpc
    · rw [Function.update_of_ne hut] at hu
      exact Or.inr ⟨u, hu⟩

omit [DecidableEq T] in
theorem Good.not_falling {s : State T} (hs : Good s) {t : T} (ht : s.pcs t = .broadcasting)
    (hop : NoOvertaking s (.broadcast t)) (u : T) : s.pcs u ≠ .falling := by
  intro hu
  by_cases hnormal : s.attr = .normal
  · -- the mutex is that of the broadcast
    have hut : u = t := hs.owner_unique (Or.inr ⟨hnormal, Or.inl ht⟩) (Or.inl (Or.inr (Or.inl hu)))
    rw [hut, ht] at hu
    cases hu
  · exact hop hnormal u hu

theorem step_good {s s' : State T} {op : Op T} (hs : Good s) (hop : NoOvertaking s op)
    (h : step s op = some s') : Good s' := by
  have hinside : ∀ {pc : Pc}, (pc = .idle ∨ pc = .writing ∨ pc = .trying ∨ pc = .entering ∨
      pc = .asleep) → ¬ Owns s.attr pc := by
    intro pc hpc
    rcases hpc with rfl | rfl | rfl | rfl | rfl <;> simp [Owns, Pc.Inside, Pc.Signals]
  cases op with
  | setEvent t =>
    simp only [step] at h
    split at h
    · rename_i hidle
      split at h
      · rename_i hdown
        obtain rfl := Option.some.inj h
        refine ⟨owner_move s rfl rfl (fun hown => absurd hown (hinside (by simp))) fun u _ => hs.owner u,
          fun hup => ?_⟩
        rw [State.goto, hdown] at hup
        cases hup
      · obtain rfl := Option.some.inj h
        exact hs
    · cases h
  | write t =>
    simp only [step, Option.ite_none_right_eq_some, Option.some.injEq] at h
    obtain ⟨ht, rfl⟩ := h
    refine ⟨owner_move s rfl rfl (fun hown => absurd hown (hinside (by simp))) fun u _ => hs.owner u,
      fun _ _ => ⟨t, ?_⟩⟩
    exact Or.inl (Function.update_self ..)
  | tryLock t =>
    simp only [step, Option.ite_none_right_eq_some, Option.some.injEq] at h
    obtain ⟨ht, rfl⟩ := h
    refine ⟨owner_move s rfl rfl ?_ fun u _ hu => ?_, fun _ _ => ⟨t, ?_⟩⟩
    · rintro (hin | ⟨hnormal, -⟩)
      · rcases hin with hin | hin | hin <;> cases hin
      · exact if_pos (hop hnormal)
    · have hmutex := hs.owner u hu
      simp only [hmutex]
      exact if_neg (by simp)
    · exact Or.inr (Function.update_self ..)
  | broadcast t =>
    simp only [step, Option.ite_none_right_eq_some, Option.some.injEq] at h
    obtain ⟨ht, rfl⟩ := h
    refine ⟨owner_move s rfl rfl ?_ fun u _ => hs.owner u, fun _ hsleepers => ?_⟩
    · rintro (hin | ⟨hnormal, -⟩)
      · rcases hin with hin | hin | hin <;> cases hin
      · exact hs.owner t (Or.inr ⟨hnormal, Or.inl ht⟩)
    · -- the broadcast takes all, and nobody has been on the way to sleep
      rcases hsleepers with ⟨u, hu⟩ | ⟨u, hu⟩
      · simp [CondVar.broadcast] at hu
      · simp only [State.goto] at hu
        by_cases hut : u = t
        · subst hut
          rw [Function.update_self] at hu
          cases hu
        · rw [Function.update_of_ne hut] at hu
          exact absurd hu (hs.not_falling ht hop u)
  | unlock t =>
    simp only [step, Option.ite_none_right_eq_some, Option.some.injEq] at h
    obtain ⟨ht, rfl⟩ := h
    refine ⟨owner_move s rfl rfl (fun hown => absurd hown (hinside (by simp))) fun u hne hu => ?_,
      hs.awaited_move rfl ?_ rfl (sleepers_move rfl (by decide) subset_rfl)⟩
    · exact hs.released_other (Or.inr (Or.inr ht)) hne hu
    · simp [ht, Pc.BroadcastsYet]
  | resetEvent =>
    simp only [step, Option.some.injEq] at h
    subst h
    refine ⟨hs.owner, fun hup => ?_⟩
    cases hup
  | waitEvent t =>
    simp only [step, Option.ite_none_right_eq_some, Option.some.injEq] at h
    obtain ⟨ht, rfl⟩ := h
    refine ⟨owner_move s rfl rfl (fun hown => absurd hown (hinside (by simp))) fun u _ => hs.owner u,
      hs.awaited_move rfl ?_ rfl (sleepers_move rfl (by decide) subset_rfl)⟩
    simp [ht, Pc.BroadcastsYet]
  | lock t =>
    simp only [step, Option.ite_none_right_eq_some, Option.some.injEq] at h
    obtain ⟨⟨ht, hfree⟩, rfl⟩ := h
    refine ⟨owner_move s rfl rfl (fun _ => rfl) fun u _ hu => ?_,
      hs.awaited_move rfl ?_ rfl (sleepers_move rfl (by decide) subset_rfl)⟩
    · rw [hs.owner u hu] at hfree
      cases hfree
    · simp [ht, Pc.BroadcastsYet]
  | test t =>
    simp only [step, Option.ite_none_right_eq_some, Option.some.injEq] at h
    obtain ⟨ht, rfl⟩ := h
    have hown : s.mutex = some (.process t) := hs.owner t (Or.inl (Or.inl ht))
    refine ⟨owner_move s rfl rfl (fun _ => hown) fun u _ => hs.owner u, ?_⟩
    by_cases hdown : s.eventState = .down
    · intro hup
      rw [State.goto, hdown] at hup
      cases hup
    · rw [if_neg hdown]
      refine hs.awaited_move rfl ?_ rfl (sleepers_move rfl (by decide) subset_rfl)
      simp [ht, Pc.BroadcastsYet]
  | sleep t =>
    simp only [step, Option.ite_none_right_eq_some, Option.some.injEq] at h
    obtain ⟨ht, rfl⟩ := h
    refine ⟨owner_move s rfl rfl (fun hown => absurd hown (hinside (by simp))) fun u hne hu => ?_,
      hs.awaited_move rfl ?_ rfl fun _ => Or.inr ⟨t, ht⟩⟩
    · exact hs.released_other (Or.inl (Or.inr (Or.inl ht))) hne hu
    · simp [ht, Pc.BroadcastsYet]
  | spurious t =>
    simp only [step, Option.ite_none_right_eq_some, Option.some.injEq] at h
    obtain ⟨ht, rfl⟩ := h
    refine ⟨hs.owner, fun hup hsleepers => hs.awaited hup ?_⟩
    exact hsleepers.imp (fun hne => hne.mono (Finset.erase_subset t _)) id
  | resume t =>
    simp only [step, Option.ite_none_right_eq_some, Option.some.injEq] at h
    obtain ⟨⟨ht, -, hfree⟩, rfl⟩ := h
    refine ⟨owner_move s rfl rfl (fun _ => rfl) fun u _ hu => ?_,
      hs.awaited_move rfl ?_ rfl (sleepers_move rfl (by decide) (Finset.erase_subset t _))⟩
    · rw [hs.owner u hu] at hfree
      cases hfree
    · simp [ht, Pc.BroadcastsYet]
  | leave t =>
    simp only [step, Option.ite_none_right_eq_some, Option.some.injEq] at h
    obtain ⟨ht, rfl⟩ := h
    refine ⟨owner_move s rfl rfl (fun hown => absurd hown (hinside (by simp))) fun u hne hu => ?_,
      hs.awaited_move rfl ?_ rfl (sleepers_move rfl (by decide) subset_rfl)⟩
    · exact hs.released_other (Or.inl (Or.inr (Or.inr ht))) hne hu
    · simp [ht, Pc.BroadcastsYet]

theorem Good.leavesOthers {s : State T} (hs : Good s) (op : Op T) : LeavesOthers s op := by
  rintro t h rfl hmutex hne s' hstep
  simp only [step, Option.ite_none_right_eq_some, Option.some.injEq] at hstep
  obtain ⟨ht, rfl⟩ := hstep
  have hother : s.mutex ≠ some (.process t) := by
    rw [hmutex]
    exact fun heq => hne (Option.some.inj heq)
  refine (if_neg ?_).trans hmutex
  rintro (hnormal | hown)
  · exact hother (hs.owner t (Or.inr ⟨hnormal, Or.inr ht⟩))
  · exact hother hown

/-- In every run in which no broadcast comes between the test and the sleep of a process,
    and on a normal mutex every `try_lock` gets it, nobody sleeps on an event that is up
    without a broadcast to come, and no `SET_EVENT` unlocks the mutex of another one. -/
theorem event_wakes_sleepers (attr : Attribute) (locked : Bool) (ops : List (Op T)) (s : State T)
    (hops : Meets step NoOvertaking (start T attr locked) ops)
    (h : run step (start T attr locked) ops = some s) :
    ¬ s.Stranded ∧ Meets step LeavesOthers (start T attr locked) ops := by
  have hgood : Good s :=
    run_invariant_of_meets (fun _ _ _ => step_good) (start_good attr locked) hops h
  constructor
  · rintro ⟨hup, hasleep, hquiet⟩
    obtain ⟨u, hu⟩ := hgood.awaited hup (Or.inl hasleep)
    exact hquiet u hu
  · exact hops.imp (fun _ _ _ => step_good) (fun _ op hs _ => hs.leavesOthers op)
      (start_good attr locked)

/-- The process 1 sleeps, and the process 0 sets the event and wakes it. -/
def wakes : List (Op (Fin 2)) :=
  [.waitEvent 1, .lock 1, .test 1, .sleep 1, .setEvent 0, .write 0, .tryLock 0, .broadcast 0,
   .unlock 0, .resume 1, .test 1, .leave 1]

theorem event_wakes_sleepers_oneSleeper :
    ∃ s, run step (start (Fin 2) .recursive false) wakes = some s ∧ ¬ s.Stranded ∧
      Meets step LeavesOthers (start (Fin 2) .recursive false) wakes :=
  ⟨_, rfl, event_wakes_sleepers .recursive false wakes _ (by decide) rfl⟩

/-- A broadcast that overtakes a process, with no other one to come, leaves it behind. -/
theorem stranded_of_overtaken {s s' s'' : State T} {t u : T} (hup : s.eventState = .up)
    (hothers : ∀ v, v ≠ t → ¬ (s.pcs v).BroadcastsYet) (hu : s.pcs u = .falling)
    (h : step s (.broadcast t) = some s') (h' : step s' (.sleep u) = some s'') : s''.Stranded := by
  simp only [step, Option.ite_none_right_eq_some, Option.some.injEq] at h h'
  obtain ⟨ht, rfl⟩ := h
  obtain ⟨-, rfl⟩ := h'
  refine ⟨hup, ⟨u, Finset.mem_insert_self ..⟩, fun v => ?_⟩
  simp only [State.goto]
  by_cases hvu : v = u
  · subst hvu
    simp [Pc.BroadcastsYet]
  · rw [Function.update_of_ne hvu]
    by_cases hvt : v = t
    · subst hvt
      simp [Pc.BroadcastsYet]
    · rw [Function.update_of_ne hvt]
      exact hothers v hvt

/-- The process 1 has found the event down; process 0 sets it, does not get the mutex, and
    has broadcast and returned before process 1 goes to sleep. -/
def overtakes : List (Op (Fin 2)) :=
  [.waitEvent 1, .lock 1, .test 1, .setEvent 0, .write 0, .tryLock 0, .broadcast 0, .unlock 0,
   .sleep 1]

theorem wakeup_lost :
    ∃ s, run step (start (Fin 2) .recursive false) overtakes = some s ∧ s.Stranded := by
  refine ⟨_, rfl, rfl, ⟨1, by decide⟩, fun t => ?_⟩
  unfold Pc.BroadcastsYet
  revert t
  decide

end Arinc.EventWakeup
