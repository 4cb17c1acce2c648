import ArincEmulator.Lib.Census
import ArincEmulator.Blackboard

/- The processes that wait on one event, by `WAIT_EVENT`, with an absolute time, or
   in a `READ_BLACKBOARD` on the blackboard the event belongs to, and the count
   of them that `GET_EVENT_STATUS` and `GET_BLACKBOARD_STATUS` report.

   What is proved: in every run, the count is the number of processes inside a
   wait in every state just when every wait of the run is untimed
   (`waiting_count_iff`). -/
namespace Arinc.EventWait
open Runs Census Blackboard

/-- Where a process is: outside the event, past the write of `SET_EVENT` and before
    its broadcast, or inside a wait. -/
inductive Pc where
  | idle
  | setting
  | waiting (kind : WaitKind)
  deriving DecidableEq, Repr

/-- The event, `CURRENT_MESSAGE_SIZE` of its blackboard, and the processes. -/
structure System (T : Type*) where
  event : ApexEvent T
  currentMessageSize : Int
  pcs : T → Pc

/-- A new event and its empty blackboard. -/
def start (T : Type*) : System T := ⟨.create T, 0, fun _ => .idle⟩

/-- The part of `BLACKBOARD_STATUS_TYPE` that comes from the two. -/
structure BlackboardStatus where
  emptyIndicator : EmptyIndicator
  waitingProcesses : Int
  deriving DecidableEq, Repr

variable {T : Type*}

/-- `GET_BLACKBOARD_STATUS`. -/
def System.getBlackboardStatus (s : System T) : BlackboardStatus :=
  ⟨if s.currentMessageSize = 0 then .empty else .occupied, s.event.getEventStatus.waitingProcesses⟩

/-- The steps of the processes. `setMessageSize` is what a display or a clear
    leaves of the length. -/
inductive Op (T : Type*) where
  | setEvent (t : T)
  | broadcast (t : T)
  | resetEvent
  | setMessageSize (size : Int)
  | waitEvent (t : T) (timeout : Int)
  | waitAbsolute (t : T) (lock : Bool)
  | readBlackboard (t : T) (timeout : Int)
  | turn (t : T) (why : Turn)
  | spurious (t : T)

variable [DecidableEq T]

/-- A wait begins. -/
def System.enterWait (s : System T) (t : T) (kind : WaitKind) : System T :=
  { s with
    event := s.event.enterWait kind
    pcs := Function.update s.pcs t (.waiting kind) }

/-- `WAIT_EVENT` up to its first look at the event: an infinite time-out is the
    untimed wait, any other goes through `addTimeNano` and its assertion. -/
def System.waitEvent (s : System T) (t : T) (timeout : Int) : Option (System T) :=
  if timeout = infiniteTimeValue then some (s.enterWait t .untimed)
  else if maxTimeOut < timeout then none
  else some (s.enterWait t .timed)

/-- `READ_BLACKBOARD` on the blackboard of the event waits at all. -/
def System.ReadWaits (s : System T) (timeout : Int) : Prop :=
  timeout ≤ maxTimeOut ∧ s.currentMessageSize = 0 ∧ timeout ≠ 0

instance (s : System T) (timeout : Int) : Decidable (s.ReadWaits timeout) :=
  inferInstanceAs (Decidable (_ ∧ _ ∧ _))

/-- One step. -/
def step (s : System T) : Op T → Option (System T)
  | .setEvent t =>
    if s.pcs t = .idle then
      if s.event.eventState = .down then
        some { s with event := s.event.setEvent, pcs := Function.update s.pcs t .setting }
      else some s -- an event that is up is left alone, and nothing is broadcast
    else none
  | .broadcast t =>
    if s.pcs t = .setting then
      some { s with event := s.event.broadcast, pcs := Function.update s.pcs t .idle }
    else none
  | .resetEvent => some { s with event := s.event.resetEvent }
  | .setMessageSize size => some { s with currentMessageSize := size }
  | .waitEvent t timeout => if s.pcs t = .idle then s.waitEvent t timeout else none
  | .waitAbsolute t lock =>
    if s.pcs t = .idle then some (s.enterWait t (if lock then .andLock else .absolute)) else none
  | .readBlackboard t timeout =>
    if s.pcs t = .idle then
      -- a bad time-out, a message on the board and a poll are answered without the event
      if s.ReadWaits timeout then s.waitEvent t timeout else some s
    else none
  | .turn t why =>
    match s.pcs t with
    | .waiting kind => (s.event.turn kind t why).map fun (e, code) =>
        { s with
          event := e
          pcs := Function.update s.pcs t (if code = none then .waiting kind else .idle) }
    | _ => none
  | .spurious t =>
    if t ∈ s.event.condition.asleep then
      some { s with event := { s.event with condition := s.event.condition.awaken t } }
    else none

/-! ## The count -/

/-- A process inside a wait counts for one. -/
def Pc.inWait : Pc → Int
  | .waiting _ => 1
  | _ => 0

variable [Fintype T]

/-- The processes inside a wait. -/
def System.blocked (s : System T) : Int := census Pc.inWait s.pcs

/-- The counter is the number of processes inside a wait, and so are the two
    reports. -/
structure Exact (s : System T) : Prop where
  counter : s.event.apexUnsignedCounter.toNat = s.blocked
  eventStatus : s.event.getEventStatus.waitingProcesses = s.blocked
  blackboardStatus : s.getBlackboardStatus.waitingProcesses = s.blocked

/-- A wait the step begins is untimed. -/
def Untimed (s : System T) : Op T → Prop
  | .waitEvent _ timeout => timeout = infiniteTimeValue
  | .waitAbsolute _ _ => False
  | .readBlackboard _ timeout => s.ReadWaits timeout → timeout = infiniteTimeValue
  | _ => True

/-- Who is inside a wait is inside an untimed one. -/
def NoTimedWait (s : System T) : Prop := ∀ t kind, s.pcs t = .waiting kind → kind = .untimed

omit [DecidableEq T] in
theorem System.blocked_le_card (s : System T) : s.blocked ≤ Fintype.card T := by
  calc s.blocked ≤ ∑ _t : T, (1 : Int) := by
        apply Finset.sum_le_sum
        intro t _
        show (s.pcs t).inWait ≤ 1
        unfold Pc.inWait
        split <;> decide
    _ = Fintype.card T := by simp

theorem blocked_update (s : System T) (t : T) (pc : Pc) :
    census Pc.inWait (Function.update s.pcs t pc) = s.blocked - (s.pcs t).inWait + pc.inWait :=
  census_update Pc.inWait s.pcs t pc

omit [DecidableEq T] in
theorem one_le_blocked {s : System T} {t : T} {kind : WaitKind} (h : s.pcs t = .waiting kind) :
    1 ≤ s.blocked := by
  have hle : (s.pcs t).inWait ≤ s.blocked := by
    apply le_census
    intro u
    unfold Pc.inWait
    split <;> decide
  rw [h] at hle
  exact hle

omit [DecidableEq T] in
/-- A population this small never brings the signed reports below zero. -/
theorem exact_iff {s : System T} (hcard : Fintype.card T < 2 ^ 63) :
    Exact s ↔ s.event.apexUnsignedCounter.toNat = s.blocked := by
  constructor
  · intro h
    exact h.counter
  · intro h
    have hsmall : 2 * s.event.apexUnsignedCounter.toNat < 2 ^ 64 := by
      have hle := s.blocked_le_card
      omega
    have hstatus : s.event.getEventStatus.waitingProcesses = s.blocked := by
      rw [← h]
      exact BitVec.toInt_eq_toNat_of_lt hsmall
    exact ⟨h, hstatus, hstatus⟩

/-! ## What a step does to the count -/

section
variable {s s' : System T} {t : T} (hcard : Fintype.card T < 2 ^ 63)
include hcard

omit [DecidableEq T] in
theorem exact_of_same (hs : Exact s)
    (hcounter : s'.event.apexUnsignedCounter = s.event.apexUnsignedCounter)
    (hblocked : s'.blocked = s.blocked) : Exact s' := by
  rw [exact_iff hcard, hcounter, hblocked]
  exact hs.counter

/-- The start of a wait adds its caller to the count if the wait is untimed, and
    puts it inside in any case. -/
theorem enterWait_exact_iff {kind : WaitKind} (hs : Exact s) (hpc : s.pcs t = .idle) :
    Exact (s.enterWait t kind) ↔ kind = .untimed := by
  have hblocked : (s.enterWait t kind).blocked = s.blocked + 1 := by
    show census Pc.inWait (Function.update s.pcs t (.waiting kind)) = s.blocked + 1
    rw [blocked_update, hpc]
    show s.blocked - 0 + 1 = s.blocked + 1
    omega
  have hcount := hs.counter
  have hle := s.blocked_le_card
  rw [exact_iff hcard, hblocked, ← hcount]
  by_cases hkind : kind = .untimed
  · refine iff_of_true ?_ hkind
    show ((s.event.enterWait kind).apexUnsignedCounter.toNat : Int) = _
    rw [ApexEvent.enterWait, if_pos hkind]
    show ((s.event.apexUnsignedCounter + 1).toNat : Int) = _
    rw [BitVec.toNat_add, show (1 : BitVec 64).toNat = 1 from rfl]
    omega
  · refine iff_of_false ?_ hkind
    show ((s.event.enterWait kind).apexUnsignedCounter.toNat : Int) ≠ _
    rw [ApexEvent.enterWait, if_neg hkind]
    omega

omit hcard [Fintype T] in
theorem enterWait_noTimedWait {kind : WaitKind} (hs : NoTimedWait s) (hkind : kind = .untimed) :
    NoTimedWait (s.enterWait t kind) := by
  intro u k hu
  by_cases hut : u = t
  · subst hut
    have hk : Pc.waiting kind = .waiting k := (Function.update_self ..).symm.trans hu
    rw [Pc.waiting.injEq] at hk
    exact hk ▸ hkind
  · exact hs u k ((Function.update_of_ne hut ..).symm.trans hu)

theorem waitEvent_exact_iff {timeout : Int} (hs : Exact s) (hside : NoTimedWait s)
    (hpc : s.pcs t = .idle) (h : s.waitEvent t timeout = some s') :
    (Exact s' ↔ timeout = infiniteTimeValue) ∧
      (timeout = infiniteTimeValue → NoTimedWait s') := by
  unfold System.waitEvent at h
  split at h
  · rename_i hinf
    obtain rfl := Option.some.inj h
    exact ⟨iff_of_true ((enterWait_exact_iff hcard hs hpc).mpr rfl) hinf,
      fun _ => enterWait_noTimedWait hside rfl⟩
  · rename_i hfin
    split at h
    · simp at h
    · obtain rfl := Option.some.inj h
      refine ⟨iff_of_false ?_ hfin, fun hinf => absurd hinf hfin⟩
      intro hexact
      exact absurd ((enterWait_exact_iff hcard hs hpc).mp hexact) (by decide)

theorem turn_exact {why : Turn} (hs : Exact s) (h : step s (.turn t why) = some s') :
    Exact s' := by
  simp only [step] at h
  split at h
  · rename_i kind hpc
    obtain ⟨⟨e, code⟩, he, rfl⟩ := Option.map_eq_some_iff.mp h
    obtain ⟨rfl, hcounter⟩ | ⟨hcode, hcounter⟩ := ApexEvent.turn_cases he
    · apply exact_of_same hcard hs hcounter
      show census Pc.inWait (Function.update s.pcs t (.waiting kind)) = s.blocked
      rw [blocked_update, hpc]
      show s.blocked - 1 + 1 = s.blocked
      omega
    · have hblocked : census Pc.inWait (Function.update s.pcs t
          (if code = none then .waiting kind else .idle)) = s.blocked - 1 := by
        rw [blocked_update, hpc, if_neg hcode]
        show s.blocked - 1 + 0 = s.blocked - 1
        omega
      have hcount := hs.counter
      have hone := one_le_blocked hpc
      rw [exact_iff hcard]
      show (e.apexUnsignedCounter.toNat : Int) = census Pc.inWait _
      rw [hblocked, hcounter, BitVec.toNat_sub, show (1 : BitVec 64).toNat = 1 from rfl]
      omega
  · simp at h

omit hcard [Fintype T] in
theorem NoTimedWait.update {pc : Pc} (hs : NoTimedWait s)
    (hpc : ∀ kind, pc = .waiting kind → kind = .untimed) (e : ApexEvent T) :
    NoTimedWait { s with event := e, pcs := Function.update s.pcs t pc } := by
  intro u kind hu
  by_cases hut : u = t
  · subst hut
    exact hpc kind ((Function.update_self ..).symm.trans hu)
  · exact hs u kind ((Function.update_of_ne hut ..).symm.trans hu)

/-- A step keeps the count exact just when it begins no timed wait. -/
theorem step_exact_iff {op : Op T} (hs : Exact s) (hside : NoTimedWait s)
    (h : step s op = some s') :
    (Exact s' ↔ Untimed s op) ∧ (Untimed s op → NoTimedWait s') := by
  cases op with
  | setEvent t =>
    -- the caller is in no wait before or after
    simp only [step, Option.ite_none_right_eq_some] at h
    obtain ⟨hpc, h⟩ := h
    split at h
    · obtain rfl := Option.some.inj h
      refine ⟨iff_of_true (exact_of_same hcard hs rfl ?_) trivial, fun _ => hside.update ?_ _⟩
      · show census Pc.inWait (Function.update s.pcs t .setting) = s.blocked
        rw [blocked_update, hpc]
        show s.blocked - 0 + 0 = s.blocked
        omega
      · intro kind hk
        simp at hk
    · obtain rfl := Option.some.inj h
      exact ⟨iff_of_true hs trivial, fun _ => hside⟩
  | broadcast t =>
    simp only [step, Option.ite_none_right_eq_some, Option.some.injEq] at h
    obtain ⟨hpc, rfl⟩ := h
    refine ⟨iff_of_true (exact_of_same hcard hs rfl ?_) trivial, fun _ => hside.update ?_ _⟩
    · show census Pc.inWait (Function.update s.pcs t .idle) = s.blocked
      rw [blocked_update, hpc]
      show s.blocked - 0 + 0 = s.blocked
      omega
    · intro kind hk
      simp at hk
  | resetEvent | setMessageSize size =>
    obtain rfl := Option.some.inj h
    exact ⟨iff_of_true (exact_of_same hcard hs rfl rfl) trivial, fun _ => hside⟩
  | waitEvent t timeout =>
    simp only [step, Option.ite_none_right_eq_some] at h
    exact waitEvent_exact_iff hcard hs hside h.1 h.2
  | waitAbsolute t lock =>
    simp only [step, Option.ite_none_right_eq_some, Option.some.injEq] at h
    obtain ⟨hpc, rfl⟩ := h
    refine ⟨iff_of_false ?_ id, fun hfalse => absurd hfalse id⟩
    intro hexact
    have hkind := (enterWait_exact_iff hcard hs hpc).mp hexact
    cases lock <;> simp at hkind
  | readBlackboard t timeout =>
    simp only [step, Option.ite_none_right_eq_some] at h
    obtain ⟨hpc, h⟩ := h
    split at h
    · rename_i hwaits
      have hcond : Untimed s (.readBlackboard t timeout) ↔ timeout = infiniteTimeValue :=
        ⟨fun hu => hu hwaits, fun hinf _ => hinf⟩
      rw [hcond]
      exact waitEvent_exact_iff hcard hs hside hpc h
    · rename_i hno
      obtain rfl := Option.some.inj h
      exact ⟨iff_of_true hs fun hwaits => absurd hwaits hno, fun _ => hside⟩
  | turn t why =>
    refine ⟨iff_of_true (turn_exact hcard hs h) trivial, fun _ => ?_⟩
    simp only [step] at h
    split at h
    · rename_i kind hpc
      obtain ⟨⟨e, code⟩, -, rfl⟩ := Option.map_eq_some_iff.mp h
      apply hside.update
      intro k hk
      split at hk
      · rw [Pc.waiting.injEq] at hk
        exact hk ▸ hside t kind hpc
      · simp at hk
    · simp at h
  | spurious t =>
    simp only [step, Option.ite_none_right_eq_some, Option.some.injEq] at h
    obtain ⟨-, rfl⟩ := h
    exact ⟨iff_of_true (exact_of_same hcard hs rfl rfl) trivial, fun _ => hside⟩

end

omit [DecidableEq T] in
theorem start_exact (hcard : Fintype.card T < 2 ^ 63) : Exact (start T) := by
  rw [exact_iff hcard]
  have hnone : (start T).blocked = 0 := census_eq_zero fun _ => rfl
  rw [hnone]
  rfl

/-- **The count of waiting processes.** The counter and the two reports are the
    number of processes inside a wait in every state of a run, if and only if
    every wait the run begins is untimed. -/
theorem waiting_count_iff (hcard : Fintype.card T < 2 ^ 63) (ops : List (Op T)) (s : System T)
    (h : run step (start T) ops = some s) :
    Always step Exact (start T) ops ↔ Meets step Untimed (start T) ops := by
  apply always_iff_meets (J := NoTimedWait) _ (start_exact hcard) _ h
  · intro s op s' hs hside hstep
    exact step_exact_iff hcard hs hside hstep
  · intro t kind hpc
    simp [start] at hpc

/-- Two processes wait without a time-out, one of them in a read, and the event is
    set and wakes them. -/
def twoWaiters : List (Op (Fin 3)) :=
  [.waitEvent 0 infiniteTimeValue, .turn 0 .enter, .readBlackboard 1 infiniteTimeValue,
   .turn 1 .enter, .setEvent 2, .broadcast 2, .turn 1 .resume]

theorem waiting_count_iff_twoWaiters :
    Always step Exact (start (Fin 3)) twoWaiters ↔ Meets step Untimed (start (Fin 3)) twoWaiters :=
  waiting_count_iff (by decide) twoWaiters _ rfl

/-- A wait that times out takes off what it never added: nobody waits and the
    counter is `2^64 - 1`. -/
theorem timed_wait_wraps :
    ∃ s : System (Fin 1),
      run step (start (Fin 1)) [.waitEvent 0 nano, .turn 0 .enter, .turn 0 .expire] = some s ∧
        s.blocked = 0 ∧ s.event.apexUnsignedCounter.toNat = 2 ^ 64 - 1 ∧
        s.getBlackboardStatus.waitingProcesses = -1 ∧ ¬ Exact s := by
  refine ⟨_, rfl, rfl, rfl, rfl, ?_⟩
  intro hexact
  exact absurd hexact.counter (by decide)

end Arinc.EventWait
