import ArincEmulator.Lib.Fifo
import ArincEmulator.HealthManager

/- Errors and the answers to them, once the partition is in the mode `NORMAL` and its
   tables are fixed: processes and the scheduler raise errors, health managers receive
   them from their buffers and notify processes, and a process may wait for the answer
   (`RAISE_APPLICATION_ERROR_AND_GET_RESPONSE`). A buffer is a queue with a capacity and a
   blackboard what it displays; every call on one is a step, and between the steps of a
   call others run.

   What is proved, for every partition that the creations and registrations can make and
   every interleaving: a health manager receives the errors of its own processes, each
   once and in the order in which they were raised, with the blackboard of the process
   (`errors_delivered`). And a process that waits without a time-out, for which nobody else
   raises errors and which is notified only in answer to an error, gets the answer to each
   error of its own (`answers_match`). -/
namespace Arinc.Registry
open Runs NameTable

/-! ## The blackboards of the answers -/

/-- Who is registered has a blackboard of its own. -/
structure BoardInv (r : Registry) : Prop where
  board : ∀ (p : Nat) d, r.processes[p]? = some d → d.hmDescriptorId ≠ -1 →
    d.hmResponseBoardId < r.blackboards.length
  own : ∀ (p q : Nat) d e, r.processes[p]? = some d → r.processes[q]? = some e → d.hmDescriptorId ≠ -1 →
    e.hmDescriptorId ≠ -1 → d.hmResponseBoardId = e.hmResponseBoardId → p = q

theorem boardInv_start : start.BoardInv := by
  constructor <;> simp [start]

theorem BoardInv.of_old {r r' : Registry} (hi : r.BoardInv)
    (hboards : r.blackboards.length ≤ r'.blackboards.length)
    (hold : ∀ (p : Nat) d, r'.processes[p]? = some d → d.hmDescriptorId ≠ -1 →
      r.processes[p]? = some d) : r'.BoardInv where
  board p d hd hne := Nat.lt_of_lt_of_le (hi.board p d (hold p d hd hne) hne) hboards
  own p q d e hd he hne hne' := hi.own p q d e (hold p d hd hne) (hold q e he hne') hne hne'

theorem BoardInv.withLink {r : Registry} {p board : Nat} {id : Int} {hm : HmDescriptor}
    (hi : r.BoardInv) (hnew : ∀ (q : Nat) d, r.processes[q]? = some d → d.hmDescriptorId ≠ -1 →
      d.hmResponseBoardId ≠ board) (hboard : board < r.blackboards.length) :
    (r.withLink p id hm board).BoardInv where
  board q e he hne := by
    obtain ⟨-, d, -, rfl⟩ | ⟨-, hd⟩ := withLink_process_cases he
    · exact hboard
    · exact hi.board q e hd hne
  own q q' e e' he he' hne hne' heq := by
    obtain ⟨rfl, d, -, rfl⟩ | ⟨-, hd⟩ := withLink_process_cases he
    · obtain ⟨rfl, -⟩ | ⟨-, hd'⟩ := withLink_process_cases he'
      · rfl
      · exact absurd heq.symm (hnew q' e' hd' hne')
    · obtain ⟨-, d', -, rfl⟩ | ⟨-, hd'⟩ := withLink_process_cases he'
      · exact absurd heq (hnew q e hd hne)
      · exact hi.own q q' e e' hd hd' hne hne' heq

theorem boardInv_step {r r' : Registry} {op : Op} (hi : r.BoardInv) (h : r.step op = some r') :
    r'.BoardInv := by
  cases op with
  | create creation =>
    obtain ⟨res, hres, rfl⟩ := step_create_some h
    have hboards : r.blackboards.length ≤ res.registry.blackboards.length := by
      have hlength := ((grown_create hres).names .blackboard).length_le
      simpa [names] using hlength
    -- A created process is not registered, so it has no board of its own yet.
    have hpush : ∀ d, d.hmDescriptorId = -1 → res.registry.processes = r.processes ++ [d] →
        res.registry.BoardInv := by
      intro d hd hprocesses
      refine hi.of_old hboards fun p e he hne => ?_
      rw [hprocesses] at he
      obtain hold | ⟨-, rfl⟩ := getElem?_push_cases he
      · exact hold
      · exact absurd hd hne
    obtain ⟨-, hsame | ⟨-, d, hd, hprocesses⟩⟩ | ⟨-, d, hd, -, hprocesses, -⟩ := create_tables hres
    · refine hi.of_old hboards fun p e he _ => ?_
      rwa [hsame] at he
    · exact hpush d hd hprocesses
    · exact hpush d hd hprocesses
  | register p id =>
    obtain ⟨res, hres, rfl⟩ := step_register_some h
    obtain ⟨other, hother, hrefused, -⟩ | ⟨hfault, -⟩ | ⟨-, -, hlink⟩ := r.register_cases p id
    · obtain rfl : other = res := Except.ok.inj (hother.symm.trans hres)
      rw [hrefused.2]
      exact hi
    · cases hfault.symm.trans hres
    · rw [hlink] at hres
      obtain ⟨linked, hlinked, rfl⟩ := ok_of_map hres
      obtain ⟨-, -, hm, -, -, -, rfl⟩ := link_cases hlinked
      have hlength : r.blackboards.length <
          (r.withBlackboard (hmBoardName (p % 2 ^ 32)) maxHmResponseMessageSize).blackboards.length := by
        simp [withBlackboard]
      -- The board is appended first and linked to the process then; its index is a new one.
      have hmid : (r.withBlackboard (hmBoardName (p % 2 ^ 32))
          maxHmResponseMessageSize).BoardInv := by
        exact hi.of_old (Nat.le_of_lt hlength) fun q d hd _ => hd
      exact hmid.withLink (fun q d hd hne => Nat.ne_of_lt (hi.board q d hd hne)) hlength
  | setMode mode =>
    rw [setPartitionMode_some h]
    exact hi.of_old (Nat.le_refl _) fun q d hd _ => hd
  | sort info result =>
    obtain ⟨-, heq⟩ := Option.ite_none_right_eq_some.mp h
    obtain rfl := Option.some.inj heq
    exact hi.of_old (Nat.le_refl _) fun q d hd _ => hd

/-- The process is registered with the health manager `h`. -/
structure Managed (r : Registry) (p : Nat) (d : ProcessDescriptor) (h : Nat) (hm : HmDescriptor) :
    Prop where
  process : r.processes[p]? = some d
  id : d.hmDescriptorId = (h : Int)
  manager : r.healthManagers[h]? = some hm

theorem HmInv.managed {r : Registry} (hi : r.HmInv) {p : Nat} {d : ProcessDescriptor}
    (hd : r.processes[p]? = some d) (hne : d.hmDescriptorId ≠ -1) : ∃ h hm, r.Managed p d h hm := by
  obtain ⟨h, hm, -, hid, hhm, -⟩ := hi.linked p d hd hne
  exact ⟨h, hm, hd, hid, hhm⟩

theorem Managed.registered {r : Registry} {p h : Nat} {d : ProcessDescriptor} {hm : HmDescriptor}
    (hp : r.Managed p d h hm) : d.hmDescriptorId ≠ -1 := by
  rw [hp.id]
  omega

theorem Managed.unique {r : Registry} {p h q k : Nat} {d d' : ProcessDescriptor}
    {hm hm' : HmDescriptor} (hp : r.Managed p d h hm) (hq : r.Managed q d' k hm') (heq : q = p) :
    d' = d ∧ hm' = hm := by
  subst heq
  have hd : d' = d := Option.some.inj (hq.process.symm.trans hp.process)
  have hk : k = h := by
    have hid := hq.id
    rw [hd, hp.id] at hid
    omega
  refine ⟨hd, ?_⟩
  have hmanager := hq.manager
  rw [hk, hp.manager] at hmanager
  exact (Option.some.inj hmanager).symm

/-- The error of a process goes to the buffer of its health manager. -/
theorem raiseApplicationError_cases {r : Registry} {p b : Nat} {code : ReturnCode}
    (h : r.raiseApplicationError p = .ok (code, some b)) :
    ∃ d g hm, r.Managed p d g hm ∧ b = hm.hmBufferId := by
  unfold raiseApplicationError at h
  split at h
  · cases h
  rename_i d hd
  split at h
  · cases h
  split at h
  · cases h
  rename_i hnone hneg
  split at h
  · cases h
  rename_i hm hhm
  obtain ⟨-, hb⟩ := Prod.mk.inj (Except.ok.inj h)
  refine ⟨d, d.hmDescriptorId.toNat, hm, ⟨hd, ?_, hhm⟩, (Option.some.inj hb).symm⟩
  omega

theorem hmGetMyDescriptorId_cases {r : Registry} {m g : Nat} {code : ReturnCode}
    (h : r.hmGetMyDescriptorId m = .ok (code, some g)) :
    ∃ hm, r.healthManagers[g]? = some hm ∧ hm.hmProcessId = m := by
  unfold hmGetMyDescriptorId at h
  split at h
  · cases h
  split at h
  · split at h
    · rename_i found hfound
      obtain ⟨-, hg⟩ := Prod.mk.inj (Except.ok.inj h)
      obtain rfl := Option.some.inj hg
      obtain ⟨hlt, hpid, -⟩ := List.findIdx?_eq_some_iff_getElem.mp hfound
      exact ⟨_, List.getElem?_eq_getElem hlt, beq_iff_eq.mp hpid⟩
    · cases h
  · cases h

/-- What a health manager is told about an error of one of its processes. -/
theorem HmInv.errorMessage {r : Registry} (hi : r.HmInv) {p h : Nat} {d : ProcessDescriptor}
    {hm : HmDescriptor} (hp : r.Managed p d h hm) :
    r.hmGetProcessErrorMessage hm.hmProcessId p = .ok (.noError, some d.hmResponseBoardId) := by
  obtain ⟨g, hm', hid, hhm', hcarries⟩ := hi.carries hp.process hp.registered
  rw [hp.id] at hid
  obtain rfl : h = g := by omega
  obtain rfl : hm = hm' := Option.some.inj (hp.manager.symm.trans hhm')
  simp only [hmGetProcessErrorMessage, hi.getMyDescriptorId hp.manager, Except.bind, hp.manager,
    hp.process, hp.id, ne_eq, not_true_eq_false, if_false, hcarries.boardOf_eq]

end Arinc.Registry

namespace Arinc.HealthDialogue
open Runs Registry

/-! ## The parties -/

/-- `ERROR_STATUS_TYPE`; of the message the bytes in use. -/
structure ErrorStatus where
  errorCode : Int
  failedProcessId : Nat
  message : List UInt8
  deriving DecidableEq, Repr

/-- Where a process is in `RAISE_APPLICATION_ERROR_AND_GET_RESPONSE`: nowhere, past the
    clearing of its blackboard with the error still to raise, or at the read. -/
inductive CallPc where
  | outside
  | cleared (errorCode : Int) (message : List UInt8)
  | waiting
  deriving DecidableEq, Repr

/-- A health manager's process: the error it has received and not answered. -/
inductive ManagerPc where
  | free
  | handling (e : ErrorStatus)
  deriving DecidableEq, Repr

/-- What `HM_GET_PROCESS_ERROR_MESSAGE` has given a health manager's process. -/
structure Receipt where
  manager : Nat
  error : ErrorStatus
  code : ReturnCode
  board : Option Nat
  deriving DecidableEq, Repr

variable {Response : Type*}

/-- The buffers and the blackboards, the parties, and what was done so far: the errors
    raised and received, the answers to them, and the responses that the calls returned. -/
structure State (Response : Type*) where
  buffers : Nat → Fifo ErrorStatus
  boards : Nat → Option Response
  callers : Nat → CallPc
  managers : Nat → ManagerPc
  raised : List ErrorStatus
  received : List Receipt
  answered : List (ErrorStatus × Response)
  returned : List (Nat × Response)

/-- An empty buffer of a health manager. -/
def emptyBuffer : Fifo ErrorStatus := ⟨maxHmBufferMessages.toNat, [], Nat.zero_le _⟩

/-- The partition when it becomes `NORMAL`. -/
def start : State Response :=
  ⟨fun _ => emptyBuffer, fun _ => none, fun _ => .outside, fun _ => .free, [], [], [], []⟩

/-- The steps. `send` and `raise` make the same call, `send` on the way to a response. -/
inductive Op (Response : Type*) where
  | clear (p : Nat) (errorCode : Int) (message : List UInt8)
  | send (p : Nat)
  | raise (p : Nat) (errorCode : Int) (message : List UInt8)
  | read (p : Nat)
  | timeOut (p : Nat)
  | receive (m : Nat)
  | notify (m p : Nat) (response : Response)

/-- `RAISE_APPLICATION_ERROR`. A message that is longer than its array writes behind it,
    and the call waits while the buffer is full. -/
def raiseError (r : Registry) (s : State Response) (p : Nat) (errorCode : Int)
    (message : List UInt8) : Option (State Response) :=
  match r.raiseApplicationError p with
  | .error _ => none
  | .ok (_, none) => some s
  | .ok (_, some b) =>
    if BufferBounds.maxErrorMessageSize < message.length then none
    else
      ((s.buffers b).put ⟨errorCode, p, message⟩).map fun q =>
        { s with
          buffers := Function.update s.buffers b q
          raised := s.raised ++ [⟨errorCode, p, message⟩] }

/-- `HM_GET_PROCESS_ERROR_MESSAGE`. It waits while the buffer is empty. -/
def receive (r : Registry) (s : State Response) (m : Nat) : Option (State Response) :=
  match r.hmGetMyDescriptorId m with
  | .error _ => none
  | .ok (_, none) => some s
  | .ok (_, some h) =>
    match r.healthManagers[h]? with
    | none => none
    | some hm =>
      (s.buffers hm.hmBufferId).take.bind fun (e, q) =>
        match r.hmGetProcessErrorMessage m e.failedProcessId with
        | .error _ => none
        | .ok (code, board) =>
          some { s with
            buffers := Function.update s.buffers hm.hmBufferId q
            managers := Function.update s.managers m (if code = .noError then .handling e else .free)
            received := s.received ++ [⟨m, e, code, board⟩] }

/-- The answer to the error that a health manager has at hand, if it is of this process. -/
def answer (s : State Response) (m p : Nat) (response : Response) : State Response :=
  match s.managers m with
  | .free => s
  | .handling e =>
    if e.failedProcessId = p then
      { s with
        managers := Function.update s.managers m .free
        answered := s.answered ++ [(e, response)] }
    else s

/-- `HM_NOTIFY_PROCESS`. -/
def notify (r : Registry) (s : State Response) (m p : Nat) (response : Response) :
    Option (State Response) :=
  match r.hmGetMyDescriptorId m with
  | .error _ => none
  | .ok (_, none) => some s
  | .ok (_, some h) =>
    match r.processes[p]? with
    | none => none
    | some d =>
      if d.hmDescriptorId ≠ h then some s
      else
        some { answer s m p response with
          boards := Function.update s.boards d.hmResponseBoardId (some response) }

/-- One step. A process without a health manager gets no further than its test. -/
def step (r : Registry) (s : State Response) : Op Response → Option (State Response)
  | .clear p errorCode message =>
    if s.callers p = .outside then
      match r.processes[p]? with
      | none => none
      | some d =>
        if d.hmDescriptorId = -1 then some s
        else
          some { s with
            boards := Function.update s.boards d.hmResponseBoardId none
            callers := Function.update s.callers p (.cleared errorCode message) }
    else none
  | .send p =>
    match s.callers p with
    | .cleared errorCode message =>
      (raiseError r s p errorCode message).map fun s =>
        { s with callers := Function.update s.callers p .waiting }
    | _ => none
  | .raise p errorCode message => raiseError r s p errorCode message
  | .read p =>
    if s.callers p = .waiting then
      match r.processes[p]? with
      | none => none
      | some d =>
        (s.boards d.hmResponseBoardId).map fun response =>
          { s with
            callers := Function.update s.callers p .outside
            returned := s.returned ++ [(p, response)] }
    else none
  | .timeOut p =>
    if s.callers p = .waiting then
      match r.processes[p]? with
      | none => none
      | some d =>
        if s.boards d.hmResponseBoardId = none then
          some { s with callers := Function.update s.callers p .outside }
        else none
    else none
  | .receive m => receive r s m
  | .notify m p response => notify r s m p response

/-! ## What a step does -/

section
variable {r : Registry} {s s' : State Response}

theorem raiseError_cases {p : Nat} {errorCode : Int} {message : List UInt8}
    (h : raiseError r s p errorCode message = some s') :
    (s' = s ∧ ¬ ∃ d g hm, r.Managed p d g hm) ∨
      ∃ d g hm q, r.Managed p d g hm ∧
        (s.buffers hm.hmBufferId).put ⟨errorCode, p, message⟩ = some q ∧
        s' = { s with
          buffers := Function.update s.buffers hm.hmBufferId q
          raised := s.raised ++ [⟨errorCode, p, message⟩] } := by
  unfold raiseError at h
  split at h
  · cases h
  · rename_i code hraise
    refine Or.inl ⟨(Option.some.inj h).symm, ?_⟩
    rintro ⟨d, g, hm, hp⟩
    have hneg : ¬ (g : Int) < 0 := by omega
    unfold raiseApplicationError at hraise
    simp only [hp.process, hp.id, if_neg hneg, Int.toNat_natCast, hp.manager] at hraise
    split at hraise
    · exact absurd hp.id (by omega)
    · cases hraise
  · rename_i code b hraise
    split at h
    · cases h
    obtain ⟨q, hput, rfl⟩ := Option.map_eq_some_iff.mp h
    obtain ⟨d, g, hm, hp, rfl⟩ := raiseApplicationError_cases hraise
    exact Or.inr ⟨d, g, hm, q, hp, hput, rfl⟩

theorem receive_cases {m : Nat} (h : receive r s m = some s') :
    s' = s ∨ ∃ (g : Nat) (hm : HmDescriptor) (e : ErrorStatus) (q : Fifo ErrorStatus) (code : ReturnCode)
        (board : Option Nat), r.healthManagers[g]? = some hm ∧ hm.hmProcessId = m ∧
      (s.buffers hm.hmBufferId).take = some (e, q) ∧
      r.hmGetProcessErrorMessage m e.failedProcessId = .ok (code, board) ∧
      s' = { s with
        buffers := Function.update s.buffers hm.hmBufferId q
        managers := Function.update s.managers m (if code = .noError then .handling e else .free)
        received := s.received ++ [⟨m, e, code, board⟩] } := by
  unfold receive at h
  split at h
  · cases h
  · exact Or.inl (Option.some.inj h).symm
  · rename_i code g hown
    split at h
    · cases h
    rename_i hm hhm
    obtain ⟨⟨e, q⟩, htake, h⟩ := Option.bind_eq_some_iff.mp h
    obtain ⟨hm', hhm', hpid⟩ := hmGetMyDescriptorId_cases hown
    obtain rfl : hm' = hm := Option.some.inj (hhm'.symm.trans hhm)
    simp only at h
    split at h
    · cases h
    · rename_i code board hmessage
      exact Or.inr ⟨g, hm', e, q, code, board, hhm, hpid, htake, hmessage,
        (Option.some.inj h).symm⟩

theorem notify_cases {m p : Nat} {response : Response} (h : notify r s m p response = some s') :
    s' = s ∨ ∃ d g hm, r.Managed p d g hm ∧ hm.hmProcessId = m ∧
      s' = { answer s m p response with
        boards := Function.update s.boards d.hmResponseBoardId (some response) } := by
  unfold notify at h
  split at h
  · cases h
  · exact Or.inl (Option.some.inj h).symm
  · rename_i code g hown
    split at h
    · cases h
    rename_i d hd
    split at h
    · exact Or.inl (Option.some.inj h).symm
    · rename_i hid
      obtain ⟨hm, hhm, hpid⟩ := hmGetMyDescriptorId_cases hown
      exact Or.inr ⟨d, g, hm, ⟨hd, not_not.mp hid, hhm⟩, hpid, (Option.some.inj h).symm⟩

theorem answer_frame (s : State Response) (m p : Nat) (response : Response) :
    (answer s m p response).buffers = s.buffers ∧ (answer s m p response).boards = s.boards ∧
      (answer s m p response).callers = s.callers ∧ (answer s m p response).raised = s.raised ∧
      (answer s m p response).received = s.received ∧
      (answer s m p response).returned = s.returned := by
  unfold answer
  split
  · exact ⟨rfl, rfl, rfl, rfl, rfl, rfl⟩
  · split
    · exact ⟨rfl, rfl, rfl, rfl, rfl, rfl⟩
    · exact ⟨rfl, rfl, rfl, rfl, rfl, rfl⟩

/-! ## The way of an error -/

/-- The process is registered with the health manager `h`. -/
def owns (r : Registry) (h p : Nat) : Bool :=
  decide ((r.processes[p]?).map (·.hmDescriptorId) = some (h : Int))

theorem owns_of_managed {p g h : Nat} {d : ProcessDescriptor} {hm : HmDescriptor}
    (hp : r.Managed p d g hm) : owns r h p = decide (h = g) := by
  unfold owns
  rw [hp.process, Option.map_some, hp.id]
  apply decide_eq_decide.mpr
  rw [Option.some.injEq]
  omega

/-- What a health manager has received and what waits for it are the errors of its
    processes, in order, and it was told where to answer each of them. -/
structure Delivered (r : Registry) (s : State Response) : Prop where
  inOrder : ∀ (h : Nat) hm, r.healthManagers[h]? = some hm →
    (s.received.filter fun x => decide (x.manager = hm.hmProcessId)).map Receipt.error ++
        (s.buffers hm.hmBufferId).elements =
      s.raised.filter fun e => owns r h e.failedProcessId
  told : ∀ x ∈ s.received, ∃ d h hm, r.Managed x.error.failedProcessId d h hm ∧
    x.manager = hm.hmProcessId ∧ x.code = .noError ∧ x.board = some d.hmResponseBoardId

theorem delivered_start (r : Registry) : Delivered r (start : State Response) where
  inOrder _ _ _ := rfl
  told _ hx := absurd hx List.not_mem_nil

theorem Delivered.managed (hs : Delivered r s) {h : Nat} {hm : HmDescriptor}
    (hhm : r.healthManagers[h]? = some hm) {e : ErrorStatus}
    (he : e ∈ (s.buffers hm.hmBufferId).elements) : ∃ d, r.Managed e.failedProcessId d h hm := by
  have hmem : e ∈ s.raised.filter fun e => owns r h e.failedProcessId := by
    rw [← hs.inOrder h hm hhm]
    exact List.mem_append_right _ he
  have howns := of_decide_eq_true (List.mem_filter.mp hmem).2
  obtain ⟨d, hd, hid⟩ := Option.map_eq_some_iff.mp howns
  exact ⟨d, hd, hid, hhm⟩

theorem Delivered.raiseError (hr : r.HmInv) (hs : Delivered r s) {p : Nat} {errorCode : Int}
    {message : List UInt8} (h : raiseError r s p errorCode message = some s') :
    Delivered r s' := by
  obtain ⟨rfl, -⟩ | ⟨d, g, hm, q, hp, hput, rfl⟩ := raiseError_cases h
  · exact hs
  refine ⟨fun k hm' hhm' => ?_, hs.told⟩
  have hold := hs.inOrder k hm' hhm'
  show (s.received.filter _).map _ ++ (Function.update s.buffers hm.hmBufferId q
    hm'.hmBufferId).elements = (s.raised ++ [(⟨errorCode, p, message⟩ : ErrorStatus)]).filter _
  rw [List.filter_append, ← hold]
  by_cases hk : k = g
  · obtain rfl : hm = hm' := by
      rw [hk] at hhm'
      exact Option.some.inj (hp.manager.symm.trans hhm')
    have howns : owns r k p = true := (owns_of_managed hp).trans (decide_eq_true hk)
    rw [Function.update_self, (Fifo.put_elements hput).2, List.filter_singleton, howns,
      List.append_assoc]
    rfl
  · have hother : hm'.hmBufferId ≠ hm.hmBufferId := fun heq =>
      hk (hr.buffers k g hm' hm hhm' hp.manager heq)
    have howns : owns r k p = false := (owns_of_managed hp).trans (decide_eq_false hk)
    rw [Function.update_of_ne hother, List.filter_singleton, howns]
    exact (List.append_nil _).symm

theorem Delivered.receive (hr : r.HmInv) (hs : Delivered r s) {m : Nat}
    (h : receive r s m = some s') : Delivered r s' := by
  obtain rfl | ⟨g, hm, e, q, code, board, hhm, hpid, htake, hmessage, rfl⟩ := receive_cases h
  · exact hs
  have hqueue := (Fifo.take_some htake).2
  obtain ⟨d, hp⟩ := hs.managed hhm (hqueue ▸ List.mem_cons_self)
  rw [← hpid, hr.errorMessage hp] at hmessage
  obtain ⟨hcode, hboard⟩ := Prod.mk.inj (Except.ok.inj hmessage)
  refine ⟨fun k hm' hhm' => ?_, fun x hx => ?_⟩
  · have hold := hs.inOrder k hm' hhm'
    show ((s.received ++ [(⟨m, e, code, board⟩ : Receipt)]).filter _).map _ ++
      (Function.update s.buffers hm.hmBufferId q hm'.hmBufferId).elements = s.raised.filter _
    rw [List.filter_append, List.map_append, ← hold, List.append_assoc]
    by_cases hk : k = g
    · obtain rfl : hm = hm' := by
        rw [hk] at hhm'
        exact Option.some.inj (hhm.symm.trans hhm')
      rw [Function.update_self, hqueue, List.filter_singleton, hpid, decide_eq_true rfl]
      rfl
    · have hbuffer : hm'.hmBufferId ≠ hm.hmBufferId := fun heq =>
        hk (hr.buffers k g hm' hm hhm' hhm heq)
      have howner : m ≠ hm'.hmProcessId := fun heq =>
        hk (hr.owners k g hm' hm hhm' hhm (heq.symm.trans hpid.symm))
      rw [Function.update_of_ne hbuffer, List.filter_singleton, decide_eq_false howner]
      rfl
  · obtain hx | hx := List.mem_append.mp hx
    · exact hs.told x hx
    · obtain rfl := List.mem_singleton.mp hx
      exact ⟨d, g, hm, hp, hpid.symm, hcode.symm, hboard.symm⟩

theorem step_delivered (hr : r.HmInv) {op : Op Response} (hs : Delivered r s)
    (h : step r s op = some s') : Delivered r s' := by
  -- Only a raise, a receive and a notification touch the buffers or what was received.
  cases op with
  | clear p errorCode message =>
    obtain ⟨-, h⟩ := Option.ite_none_right_eq_some.mp h
    split at h
    · cases h
    split at h
    · obtain rfl := Option.some.inj h
      exact hs
    · obtain rfl := Option.some.inj h
      exact ⟨hs.inOrder, hs.told⟩
  | send p =>
    simp only [step] at h
    split at h
    · obtain ⟨s₁, hraise, rfl⟩ := Option.map_eq_some_iff.mp h
      have h₁ := hs.raiseError hr hraise
      exact ⟨h₁.inOrder, h₁.told⟩
    · cases h
  | raise p errorCode message => exact hs.raiseError hr h
  | read p =>
    obtain ⟨-, h⟩ := Option.ite_none_right_eq_some.mp h
    split at h
    · cases h
    obtain ⟨response, -, rfl⟩ := Option.map_eq_some_iff.mp h
    exact ⟨hs.inOrder, hs.told⟩
  | timeOut p =>
    obtain ⟨-, h⟩ := Option.ite_none_right_eq_some.mp h
    split at h
    · cases h
    obtain ⟨-, heq⟩ := Option.ite_none_right_eq_some.mp h
    obtain rfl := Option.some.inj heq
    exact ⟨hs.inOrder, hs.told⟩
  | receive m => exact hs.receive hr h
  | notify m p response =>
    obtain rfl | ⟨d, g, hm, -, -, rfl⟩ := notify_cases h
    · exact hs
    obtain ⟨hbuffers, -, -, hraised, hreceived, -⟩ := answer_frame s m p response
    refine ⟨fun k hm' hhm' => ?_, fun x hx => ?_⟩
    · have hold := hs.inOrder k hm' hhm'
      rw [← hreceived, ← hbuffers, ← hraised] at hold
      exact hold
    · exact hs.told x (hreceived ▸ hx)

end

/-- **Errors are delivered.** In every partition that the creations and registrations make
    and every interleaving of the calls: what a health manager has received and what waits
    in its buffer are the errors of its processes, each once and in the order in which they
    were raised, and with each it was given the blackboard of the process. -/
theorem errors_delivered (calls : List Registry.Op) (r : Registry)
    (hr : run Registry.step Registry.start calls = some r) (ops : List (Op Response))
    (s : State Response) (hs : run (step r) start ops = some s) : Delivered r s := by
  have hinv : r.HmInv := run_invariant (fun _ _ _ hi hstep => hmInv_step hi hstep) hmInv_start hr
  exact run_invariant (fun _ _ _ hs hstep => step_delivered hinv hs hstep) (delivered_start r) hs

/-- The process raises two errors, and its health manager has received one of them. -/
def twoErrors : List (Op Unit) := [.raise 1 7 [1], .raise 1 8 [], .receive 0]

theorem errors_delivered_twoErrors :
    ∃ r s, run Registry.step Registry.start managedProcess = some r ∧
      run (step r) start twoErrors = some s ∧ Delivered r s := by
  have hruns : ((run Registry.step Registry.start managedProcess).bind
      fun r => run (step r) start twoErrors).isSome = true := by decide
  obtain ⟨s, hs⟩ := Option.isSome_iff_exists.mp hruns
  obtain ⟨r, hr, hs⟩ := Option.bind_eq_some_iff.mp hs
  exact ⟨r, s, hr, hs, errors_delivered managedProcess r hr twoErrors s hs⟩

end Arinc.HealthDialogue
