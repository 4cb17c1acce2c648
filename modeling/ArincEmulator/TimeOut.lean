import Mathlib.Tactic.ByContra
import ArincEmulator.Time
import ArincEmulator.Process

/- The services that sleep until an absolute time, and the time each of them
   computes from its time-out: `TIMED_WAIT`, `SUSPEND_SELF`, `SEND_BUFFER`,
   `RECEIVE_BUFFER`, `READ_BLACKBOARD` and `WAIT_EVENT`. Each checks its arguments
   in its own way and all of them end in `addTimeNano`, whose division truncates
   towards zero.

   What is proved: the time a call computes is normalised and not before the
   clock just when the time-out that reaches the conversion is infinite or lies
   between 0 and `MAX_TIME_OUT` (`absolute_time_iff`). The services let through every
   negative time-out, and two of them also those above `MAX_TIME_OUT`. -/
namespace Arinc.TimeOut

/-- The process that calls, as `SUSPEND_SELF` looks at it. -/
structure Caller where
  periodic : Bool
  state : ProcessState
  deriving DecidableEq, Repr

/-- A blackboard, as `READ_BLACKBOARD` looks at it before it waits. -/
structure Board where
  currentMessageSize : Int
  eventId : Nat
  deriving DecidableEq, Repr

/-- What the services look at before they wait: the sizes of `BUFFER_VECTOR` and
    `EVENT_VECTOR`, the blackboards, and the calling process when its thread is in
    the table of threads. -/
structure Partition where
  buffers : Nat
  events : Nat
  boards : List Board
  caller : Option Caller
  deriving DecidableEq, Repr

/-- The calls; `timeout` is the `DELAY_TIME` of a `TIMED_WAIT`. -/
inductive Call where
  | timedWait (timeout : Int)
  | suspendSelf (timeout : Int)
  | sendBuffer (id : Nat) (timeout : Int)
  | receiveBuffer (id : Nat) (timeout : Int)
  | readBlackboard (id : Nat) (timeout : Int)
  | waitEvent (id : Nat) (timeout : Int)
  deriving DecidableEq, Repr

/-- The time-out of a call. -/
def Call.timeout : Call → Int
  | .timedWait timeout | .suspendSelf timeout | .sendBuffer _ timeout
  | .receiveBuffer _ timeout | .readBlackboard _ timeout | .waitEvent _ timeout => timeout

/-- How far a call comes: a code that turns it down, an answer that needs no wait,
    a wait without a time, the assertion of `addTimeNano`, or a wait for the time
    it computed. -/
inductive Wait where
  | rejected (code : ReturnCode)
  | answered
  | untimed
  | aborted
  | until (time : Timespec)
  deriving DecidableEq, Repr

/-- The conversion of a time-out at the clock. -/
def untilTime (now : ClockTime) (timeout : Int) : Wait :=
  match addTimeNano now.toTimespec timeout with
  | some time => .until time
  | none => .aborted

/-- `TIMED_WAIT`. -/
def timedWait (now : ClockTime) (timeout : Int) : Wait := untilTime now timeout

/-- `SUSPEND_SELF`; the infinite time-out too goes to the timed wait of the event. -/
def suspendSelf (p : Partition) (now : ClockTime) (timeout : Int) : Wait :=
  if timeout ≠ infiniteTimeValue ∧ maxTimeOut < timeout then .rejected .invalidParam
  else
    match p.caller with
    | none => .rejected .invalidMode
    | some caller =>
      if caller.periodic then .rejected .invalidMode
      else if caller.state = .waitingSuspendedOther ∨ caller.state = .waitingSuspendedSelf then
        .rejected .noAction
      else untilTime now timeout

/-- `SEMAPHORE::wait` with a time-out, which converts it before it looks whether it
    is infinite. -/
def semaphoreWait (now : ClockTime) (timeout : Int) : Wait :=
  match untilTime now timeout with
  | .until time => if timeout = infiniteTimeValue then .untimed else .until time
  | other => other

/-- The wait of `SEND_BUFFER` and `RECEIVE_BUFFER`: the id is compared as a word of
    32 bits. -/
def bufferWait (p : Partition) (now : ClockTime) (id : Nat) (timeout : Int) : Wait :=
  if p.buffers ≤ id % 2 ^ 32 then .rejected .invalidParam
  else if maxTimeOut < timeout then .rejected .invalidParam
  else semaphoreWait now timeout

/-- `SEND_BUFFER`. -/
def sendBuffer (p : Partition) (now : ClockTime) (id : Nat) (timeout : Int) : Wait :=
  bufferWait p now id timeout

/-- `RECEIVE_BUFFER`. -/
def receiveBuffer (p : Partition) (now : ClockTime) (id : Nat) (timeout : Int) : Wait :=
  bufferWait p now id timeout

/-- `WAIT_EVENT`. -/
def waitEvent (p : Partition) (now : ClockTime) (id : Nat) (timeout : Int) : Wait :=
  if p.events ≤ id then .rejected .invalidParam
  else if timeout = infiniteTimeValue then .untimed
  else untilTime now timeout

/-- Of the ends of its wait `READ_BLACKBOARD` takes only a time-out for its own; past
    a refused event it reads the blackboard. -/
def readPast : Wait → Wait
  | .rejected _ => .answered
  | other => other

/-- `READ_BLACKBOARD`. -/
def readBlackboard (p : Partition) (now : ClockTime) (id : Nat) (timeout : Int) : Wait :=
  match p.boards[id]? with
  | none => .rejected .invalidParam
  | some board =>
    if maxTimeOut < timeout then .rejected .invalidParam
    else if board.currentMessageSize = 0 then
      if timeout = 0 then .rejected .notAvailable
      else readPast (waitEvent p now board.eventId timeout)
    else .answered

/-- One call. -/
def serve (p : Partition) (now : ClockTime) : Call → Wait
  | .timedWait timeout => timedWait now timeout
  | .suspendSelf timeout => suspendSelf p now timeout
  | .sendBuffer id timeout => sendBuffer p now id timeout
  | .receiveBuffer id timeout => receiveBuffer p now id timeout
  | .readBlackboard id timeout => readBlackboard p now id timeout
  | .waitEvent id timeout => waitEvent p now id timeout

/-! ## What the sleepers need -/

/-- The results of `pthread_cond_timedwait` and `clock_nanosleep` that the code
    tells apart. -/
inductive SleepResult where
  | ok
  | interrupted
  | timedOut
  | invalid
  deriving DecidableEq, Repr

/-- A sleep until `time` that would end as `result`: both calls refuse a time whose
    nanoseconds are no proper fraction of a second. -/
def sleepUntil (time : Timespec) (result : SleepResult) : SleepResult :=
  if time.Normalized then result else .invalid

/-- `COND_VAR::timed_wait`: the assertion fails on a refused time. -/
def condTimedWait (time : Timespec) (result : SleepResult) : Option SleepResult :=
  if sleepUntil time result = .invalid then none else some (sleepUntil time result)

/-- The sleep loop of `TIMED_WAIT` over what its sleeps would end as: whether it has
    come out of the loop. -/
def sleepLoop (time : Timespec) : List SleepResult → Bool
  | [] => false
  | result :: rest => if sleepUntil time result = .ok then true else sleepLoop time rest

/-- The loop comes out at the first sleep that is not interrupted; a refused time
    keeps it in for ever. -/
theorem sleepLoop_iff (time : Timespec) (results : List SleepResult) :
    sleepLoop time results = true ↔ time.Normalized ∧ .ok ∈ results := by
  induction results with
  | nil => simp [sleepLoop]
  | cons result rest ih =>
    rw [sleepLoop, List.mem_cons, eq_comm (a := SleepResult.ok)]
    by_cases hn : time.Normalized
    · rw [show sleepUntil time result = result from if_pos hn]
      by_cases hok : result = .ok
      · simp [hok, hn]
      · rw [if_neg hok, ih, or_iff_right hok]
    · rw [show sleepUntil time result = .invalid from if_neg hn, if_neg (by decide), ih]
      simp [hn]

/-- The assertion of the timed wait stands just for a normalised time. -/
theorem condTimedWait_isSome_iff (time : Timespec) {result : SleepResult}
    (hr : result ≠ .invalid) : (condTimedWait time result).isSome ↔ time.Normalized := by
  unfold condTimedWait sleepUntil
  by_cases hn : time.Normalized
  · simp [hn, hr]
  · simp [hn]

/-! ## Which time-outs are well formed -/

/-- A time the sleepers can take: normalised and not before the clock. The other
    ends of a call leave them alone, but for the assertion. -/
def Wait.WellFormed (now : ClockTime) : Wait → Prop
  | .until time => time.Normalized ∧ now.toNano ≤ time.toNano
  | .aborted => False
  | _ => True

instance (now : ClockTime) : (w : Wait) → Decidable (w.WellFormed now)
  | .until time => inferInstanceAs (Decidable (time.Normalized ∧ now.toNano ≤ time.toNano))
  | .aborted => inferInstanceAs (Decidable False)
  | .rejected _ | .answered | .untimed => inferInstanceAs (Decidable True)

/-- A call of `SUSPEND_SELF` goes to sleep. -/
def Caller.MaySuspend (caller : Caller) : Prop :=
  caller.periodic = false ∧ caller.state ≠ .waitingSuspendedOther ∧
    caller.state ≠ .waitingSuspendedSelf

/-- A call is accepted for a wait with its time-out: its checks of the other
    arguments and of the state let it through to the conversion, and so does the
    check of the time-out where it has one. -/
def Accepted (p : Partition) : Call → Prop
  | .timedWait _ => True
  | .suspendSelf timeout => timeout ≤ maxTimeOut ∧ ∃ caller ∈ p.caller, caller.MaySuspend
  | .sendBuffer id timeout | .receiveBuffer id timeout =>
    id % 2 ^ 32 < p.buffers ∧ timeout ≤ maxTimeOut
  | .readBlackboard id timeout =>
    timeout ≤ maxTimeOut ∧ timeout ≠ 0 ∧
      ∃ board ∈ p.boards[id]?, board.currentMessageSize = 0 ∧ board.eventId < p.events
  | .waitEvent id _ => id < p.events

/-- The conversion is well formed just on the infinite time-out and on those from 0
    to `MAX_TIME_OUT`: a negative duration leads to a time before the clock. -/
theorem untilTime_wellFormed_iff (now : ClockTime) (timeout : Int) :
    (untilTime now timeout).WellFormed now ↔ infiniteTimeValue ≤ timeout ∧ timeout ≤ maxTimeOut := by
  unfold untilTime addTimeNano
  by_cases hmax : maxTimeOut < timeout
  · simp only [if_pos hmax, Wait.WellFormed, false_iff]
    omega
  · by_cases hinf : timeout = infiniteTimeValue
    · have hn := normalized_addNano now.normalized (n := maxTimeOut) (by decide)
      have ht := toNano_addNano now.toTimespec maxTimeOut
      have hpos : 0 ≤ maxTimeOut := by decide
      simp only [if_neg hmax, if_pos hinf, Wait.WellFormed, hn, true_and, ht]
      omega
    · have ht := toNano_addNano now.toTimespec timeout
      simp only [if_neg hmax, if_neg hinf, Wait.WellFormed, ht]
      constructor
      · intro h
        have hminus : infiniteTimeValue = -1 := rfl
        omega
      · intro h
        have hminus : infiniteTimeValue = -1 := rfl
        have h0 : 0 ≤ timeout := by omega
        exact ⟨normalized_addNano now.normalized h0, by omega⟩

theorem untilTime_eq_aborted_iff (now : ClockTime) (timeout : Int) :
    untilTime now timeout = .aborted ↔ maxTimeOut < timeout := by
  constructor
  · intro h
    by_contra hmax
    obtain ⟨time, htime⟩ := addTimeNano_of_le (Int.not_lt.mp hmax) now.toTimespec
    simp [untilTime, htime] at h
  · intro h
    simp [untilTime, addTimeNano, h]

/-! ## One specification for the six services -/

/-- A call that is accepted converts its time-out, but for an infinite one that may
    wait without a time; a call that is not is over before the conversion. -/
def Specified (now : ClockTime) (timeout : Int) (accepted : Prop) (w : Wait) : Prop :=
  (accepted ∧ (w = untilTime now timeout ∨ timeout = infiniteTimeValue ∧ w = .untimed)) ∨
    (¬ accepted ∧ ((∃ code, w = .rejected code) ∨ w = .answered))

theorem Specified.of_accepted {now : ClockTime} {timeout : Int} {accepted : Prop} {w : Wait}
    (ha : accepted) (hw : w = untilTime now timeout ∨ timeout = infiniteTimeValue ∧ w = .untimed) :
    Specified now timeout accepted w := Or.inl ⟨ha, hw⟩

theorem Specified.of_rejected {now : ClockTime} {timeout : Int} {accepted : Prop} {w : Wait}
    {code : ReturnCode} (ha : ¬ accepted) (hw : w = .rejected code) :
    Specified now timeout accepted w := Or.inr ⟨ha, Or.inl ⟨code, hw⟩⟩

theorem suspendSelf_specified (p : Partition) (now : ClockTime) (timeout : Int) :
    Specified now timeout (Accepted p (.suspendSelf timeout)) (suspendSelf p now timeout) := by
  have hinf : infiniteTimeValue = -1 := rfl
  have hpos : 0 ≤ maxTimeOut := by decide
  simp only [Accepted]
  unfold suspendSelf
  split
  · rename_i hmax
    refine .of_rejected ?_ rfl
    rintro ⟨hle, -⟩
    omega
  · rename_i hmax
    have hle : timeout ≤ maxTimeOut := by omega
    cases hc : p.caller with
    | none => exact .of_rejected (by simp) rfl
    | some caller =>
      simp only [Option.mem_def, Option.some.injEq, exists_eq_left']
      split
      · rename_i hp
        exact .of_rejected (fun h => absurd hp (by simp [h.2.1])) rfl
      · rename_i hp
        split
        · rename_i hst
          refine .of_rejected ?_ rfl
          rintro ⟨-, -, hother, hself⟩
          exact hst.elim hother hself
        · rename_i hst
          rw [not_or] at hst
          exact .of_accepted ⟨hle, by simpa using hp, hst⟩ (Or.inl rfl)

theorem bufferWait_specified (p : Partition) (now : ClockTime) (id : Nat) (timeout : Int) :
    Specified now timeout (id % 2 ^ 32 < p.buffers ∧ timeout ≤ maxTimeOut)
      (bufferWait p now id timeout) := by
  unfold bufferWait
  split
  · rename_i hid
    exact .of_rejected (fun h => by omega) rfl
  · rename_i hid
    split
    · rename_i hmax
      exact .of_rejected (fun h => by omega) rfl
    · rename_i hmax
      refine .of_accepted ⟨by omega, by omega⟩ ?_
      obtain ⟨time, htime⟩ := addTimeNano_of_le (Int.not_lt.mp hmax) now.toTimespec
      have huntil : untilTime now timeout = .until time := by rw [untilTime, htime]
      rw [semaphoreWait, huntil]
      by_cases hinf : timeout = infiniteTimeValue
      · exact Or.inr ⟨hinf, if_pos hinf⟩
      · exact Or.inl (if_neg hinf)

theorem waitEvent_specified (p : Partition) (now : ClockTime) (id : Nat) (timeout : Int) :
    Specified now timeout (id < p.events) (waitEvent p now id timeout) := by
  unfold waitEvent
  split
  · rename_i hid
    exact .of_rejected (Nat.not_lt.mpr hid) rfl
  · rename_i hid
    refine .of_accepted (Nat.not_le.mp hid) ?_
    by_cases hinf : timeout = infiniteTimeValue
    · exact Or.inr ⟨hinf, if_pos hinf⟩
    · exact Or.inl (if_neg hinf)

theorem Specified.readPast {now : ClockTime} {timeout : Int} {accepted : Prop} {w : Wait}
    (h : Specified now timeout accepted w) : Specified now timeout accepted (readPast w) := by
  obtain ⟨ha, rfl | ⟨hinf, rfl⟩⟩ | ⟨ha, ⟨code, rfl⟩ | rfl⟩ := h
  · refine .of_accepted ha (Or.inl ?_)
    unfold untilTime
    cases addTimeNano now.toTimespec timeout with
    | none => rfl
    | some time => rfl
  · exact .of_accepted ha (Or.inr ⟨hinf, rfl⟩)
  · exact Or.inr ⟨ha, Or.inr rfl⟩
  · exact Or.inr ⟨ha, Or.inr rfl⟩

theorem readBlackboard_specified (p : Partition) (now : ClockTime) (id : Nat) (timeout : Int) :
    Specified now timeout (Accepted p (.readBlackboard id timeout))
      (readBlackboard p now id timeout) := by
  simp only [Accepted]
  unfold readBlackboard
  cases hb : p.boards[id]? with
  | none => exact .of_rejected (by simp) rfl
  | some board =>
    simp only [Option.mem_def, Option.some.injEq, exists_eq_left']
    split
    · rename_i hmax
      exact .of_rejected (fun h => by omega) rfl
    · rename_i hmax
      split
      · rename_i hempty
        split
        · rename_i hzero
          exact .of_rejected (fun h => h.2.1 hzero) rfl
        · rename_i hzero
          have hiff : board.eventId < p.events ↔
              timeout ≤ maxTimeOut ∧ timeout ≠ 0 ∧
                board.currentMessageSize = 0 ∧ board.eventId < p.events :=
            ⟨fun h => ⟨Int.not_lt.mp hmax, hzero, hempty, h⟩, fun h => h.2.2.2⟩
          rw [← hiff]
          exact (waitEvent_specified p now board.eventId timeout).readPast
      · rename_i hoccupied
        exact Or.inr ⟨fun h => hoccupied h.2.2.1, Or.inr rfl⟩

theorem serve_specified (p : Partition) (now : ClockTime) (call : Call) :
    Specified now call.timeout (Accepted p call) (serve p now call) := by
  cases call with
  | timedWait timeout => exact .of_accepted trivial (Or.inl rfl)
  | suspendSelf timeout => exact suspendSelf_specified p now timeout
  | sendBuffer id timeout => exact bufferWait_specified p now id timeout
  | receiveBuffer id timeout => exact bufferWait_specified p now id timeout
  | readBlackboard id timeout => exact readBlackboard_specified p now id timeout
  | waitEvent id timeout => exact waitEvent_specified p now id timeout

/-- At every clock and state, the time computed for an accepted call is well formed
    just when its time-out is infinite or from 0 to `MAX_TIME_OUT`; above that the
    assertion of the conversion ends the program. -/
theorem absolute_time_iff (p : Partition) (now : ClockTime) (call : Call) :
    ((serve p now call).WellFormed now ↔
      (Accepted p call → infiniteTimeValue ≤ call.timeout ∧ call.timeout ≤ maxTimeOut)) ∧
    (serve p now call = .aborted ↔ Accepted p call ∧ maxTimeOut < call.timeout) := by
  obtain ⟨ha, hw | ⟨hinf, hw⟩⟩ | ⟨ha, hw⟩ := serve_specified p now call
  · rw [hw, untilTime_wellFormed_iff, untilTime_eq_aborted_iff]
    simp [ha]
  · have hle : infiniteTimeValue ≤ maxTimeOut := by decide
    rw [hw, hinf]
    simp [Wait.WellFormed, hle]
  · have hquiet : (serve p now call).WellFormed now ∧ serve p now call ≠ .aborted := by
      obtain ⟨code, hw⟩ | hw := hw
      · simp [hw, Wait.WellFormed]
      · simp [hw, Wait.WellFormed]
    simp [ha, hquiet]

/-- A `TIMED_WAIT` of -2 at the start of a second computes -2 nanoseconds, which
    every sleep refuses. -/
theorem timedWait_minus_two :
    serve ⟨0, 0, [], none⟩ ⟨⟨100, 0⟩, by decide⟩ (.timedWait (-2)) = .until ⟨100, -2⟩ ∧
      ¬ (serve ⟨0, 0, [], none⟩ ⟨⟨100, 0⟩, by decide⟩ (.timedWait (-2))).WellFormed
        ⟨⟨100, 0⟩, by decide⟩ ∧
      sleepUntil ⟨100, -2⟩ .ok = .invalid := by decide

end Arinc.TimeOut
