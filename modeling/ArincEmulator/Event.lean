import ArincEmulator.SemaphoreQueue

/- Events (`APEX_EVENT_TYPE`). A wait sleeps while the event is down, in turns
   like those of a semaphore. Of the four waits only the untimed one adds its
   caller to `APEX_UNSIGNED_COUNTER`; each takes one off when it leaves. -/
namespace Arinc

/-- `EVENT_STATE_TYPE`. -/
inductive EventState where
  | down
  | up
  deriving DecidableEq, Repr

/-- The waits on an event: `WAIT_EVENT` without a time-out, with a duration, with
    an absolute time, and `WAIT_AND_LOCK_EVENT`. -/
inductive WaitKind where
  | untimed
  | timed
  | absolute
  | andLock
  deriving DecidableEq, Repr

/-- `APEX_EVENT_TYPE`. -/
structure ApexEvent (T : Type*) where
  eventState : EventState
  apexUnsignedCounter : BitVec 64
  condition : CondVar T

/-- `EVENT_STATUS_TYPE`; the count is converted to the signed range type. -/
structure EventStatus where
  eventState : EventState
  waitingProcesses : Int
  deriving DecidableEq, Repr

namespace ApexEvent

/-- The constructor. -/
def create (T : Type*) : ApexEvent T := ⟨.down, 0, CondVar.empty⟩

variable {T : Type*}

/-- `RESET_EVENT`. -/
def resetEvent (e : ApexEvent T) : ApexEvent T := { e with eventState := .down }

/-- The start of a wait, before its mutex. -/
def enterWait (e : ApexEvent T) (kind : WaitKind) : ApexEvent T :=
  if kind = .untimed then { e with apexUnsignedCounter := e.apexUnsignedCounter + 1 } else e

/-- `GET_EVENT_STATUS`, past the check of its argument. -/
def getEventStatus (e : ApexEvent T) : EventStatus :=
  ⟨e.eventState, e.apexUnsignedCounter.toInt⟩

/-- `SET_EVENT` up to its broadcast. -/
def setEvent (e : ApexEvent T) : ApexEvent T := { e with eventState := .up }

variable [DecidableEq T]

/-- The broadcast of `SET_EVENT`. -/
def broadcast (e : ApexEvent T) : ApexEvent T := { e with condition := e.condition.broadcast }

/-- The end of a wait, past its loop. -/
def exitWait (e : ApexEvent T) (t : T) : ApexEvent T :=
  { e with
    apexUnsignedCounter := e.apexUnsignedCounter - 1
    condition := e.condition.leave t }

/-- The loop test of a wait and what follows it up to the next sleep. -/
def test (e : ApexEvent T) (t : T) : ApexEvent T × Option ReturnCode :=
  if e.eventState = .down then ({ e with condition := e.condition.sleep t }, none)
  else (e.exitWait t, some .noError)

/-- One turn of a wait under the event's mutex. -/
def turn (e : ApexEvent T) (kind : WaitKind) (t : T) :
    Turn → Option (ApexEvent T × Option ReturnCode)
  | .enter => if e.condition.Waits t then none else some (e.test t)
  | .resume => if t ∈ e.condition.signalled then some (e.test t) else none
  | .expire =>
    if kind ≠ .untimed ∧ t ∈ e.condition.asleep then some (e.exitWait t, some .timedOut) else none

theorem turn_cases {e e' : ApexEvent T} {kind : WaitKind} {t : T} {why : Turn}
    {code : Option ReturnCode} (h : e.turn kind t why = some (e', code)) :
    (code = none ∧ e'.apexUnsignedCounter = e.apexUnsignedCounter) ∨
      (code ≠ none ∧ e'.apexUnsignedCounter = e.apexUnsignedCounter - 1) := by
  have htest (h : e.test t = (e', code)) :
      (code = none ∧ e'.apexUnsignedCounter = e.apexUnsignedCounter) ∨
        (code ≠ none ∧ e'.apexUnsignedCounter = e.apexUnsignedCounter - 1) := by
    unfold test at h
    split at h
    · obtain ⟨rfl, rfl⟩ := Prod.mk.inj h
      exact Or.inl ⟨rfl, rfl⟩
    · obtain ⟨rfl, rfl⟩ := Prod.mk.inj h
      exact Or.inr ⟨by simp, rfl⟩
  cases why with
  | enter =>
    simp only [turn, Option.ite_none_left_eq_some, Option.some.injEq] at h
    exact htest h.2
  | resume =>
    simp only [turn, Option.ite_none_right_eq_some, Option.some.injEq] at h
    exact htest h.2
  | expire =>
    simp only [turn, Option.ite_none_right_eq_some, Option.some.injEq, Prod.mk.injEq] at h
    obtain ⟨-, rfl, rfl⟩ := h
    exact Or.inr ⟨by simp, rfl⟩

end ApexEvent

end Arinc
