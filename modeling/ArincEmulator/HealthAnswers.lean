import ArincEmulator.HealthDialogue

/- The answers of the health managers. What the calls of one process are for is said by a
   dialogue (`Dialogue`): an error is asked about, taken up and answered, and the answer
   comes back before the next error. The steps of the partition are steps of the dialogue
   of a process, or none of its business, as long as it waits without a time-out, nobody
   else raises errors for it, and it is notified only in answer to an error of its own that
   its health manager has at hand (`step_dialogue`).

   What is proved: along every such run the responses that the calls of the process return
   are the answers to its errors, one for each and in their order (`answers_match`). -/
namespace Arinc.HealthDialogue
open Runs Registry

variable {Response : Type*}

/-! ## The dialogue -/

/-- One process and its health manager: where the process is, its blackboard, its errors
    in the buffer and at hand, and its errors, the answers to them and what its calls
    returned so far. -/
@[ext] structure Dialogue (Response : Type*) where
  pc : CallPc
  board : Option Response
  queued : List ErrorStatus
  atHand : Option ErrorStatus
  errors : List ErrorStatus
  answers : List (ErrorStatus × Response)
  responses : List Response

namespace Dialogue

/-- The steps. A health manager that takes up another error drops the one at hand. -/
inductive Next (v : Dialogue Response) : Dialogue Response → Prop
  | clear (errorCode : Int) (message : List UInt8) (hpc : v.pc = .outside) :
      Next v { v with pc := .cleared errorCode message, board := none }
  | ask (e : ErrorStatus) (hpc : ∃ errorCode message, v.pc = .cleared errorCode message) :
      Next v { v with pc := .waiting, queued := v.queued ++ [e], errors := v.errors ++ [e] }
  | take (e : ErrorStatus) (rest : List ErrorStatus) (hqueued : v.queued = e :: rest) :
      Next v { v with queued := rest, atHand := some e }
  | drop : Next v { v with atHand := none }
  | answer (e : ErrorStatus) (response : Response) (hhand : v.atHand = some e) :
      Next v { v with
        atHand := none, board := some response, answers := v.answers ++ [(e, response)] }
  | back (response : Response) (hpc : v.pc = .waiting) (hboard : v.board = some response) :
      Next v { v with pc := .outside, responses := v.responses ++ [response] }

/-- Nothing is asked, one error is asked about and not answered, or its answer is on the
    blackboard. All before are answered and back. -/
inductive Matched (v : Dialogue Response) : Prop
  | quiet (hpc : v.pc ≠ .waiting) (hboard : v.pc ≠ .outside → v.board = none)
      (hqueued : v.queued = []) (hhand : v.atHand = none)
      (herrors : v.errors = v.answers.map Prod.fst)
      (hresponses : v.responses = v.answers.map Prod.snd)
  | asked (e : ErrorStatus) (hpc : v.pc = .waiting) (hboard : v.board = none)
      (hflight : v.queued = [e] ∧ v.atHand = none ∨
        v.queued = [] ∧ (v.atHand = none ∨ v.atHand = some e))
      (herrors : v.errors = v.answers.map Prod.fst ++ [e])
      (hresponses : v.responses = v.answers.map Prod.snd)
  | told (response : Response) (hpc : v.pc = .waiting) (hboard : v.board = some response)
      (hqueued : v.queued = []) (hhand : v.atHand = none)
      (herrors : v.errors = v.answers.map Prod.fst)
      (hresponses : v.answers.map Prod.snd = v.responses ++ [response])

theorem Matched.next {v w : Dialogue Response} (hv : v.Matched) (h : v.Next w) : w.Matched := by
  -- The cases are the steps of the dialogue; in each the phases in which the step cannot be
  -- taken are refuted by the place of the process.
  cases h with
  | clear errorCode message hpc =>
    cases hv with
    | quiet _ _ hqueued hhand herrors hresponses =>
      exact .quiet nofun (fun _ => rfl) hqueued hhand herrors hresponses
    | asked e hwaiting => exact absurd (hpc.symm.trans hwaiting) nofun
    | told response hwaiting => exact absurd (hpc.symm.trans hwaiting) nofun
  | ask e hpc =>
    obtain ⟨errorCode, message, hpc⟩ := hpc
    cases hv with
    | quiet _ hboard hqueued hhand herrors hresponses =>
      have hnone : v.board = none := hboard (by rw [hpc]; exact nofun)
      refine .asked e rfl hnone (Or.inl ⟨?_, hhand⟩) ?_ hresponses
      · show v.queued ++ [e] = [e]
        rw [hqueued, List.nil_append]
      · show v.errors ++ [e] = _
        rw [herrors]
    | asked e hwaiting => exact absurd (hpc.symm.trans hwaiting) nofun
    | told response hwaiting => exact absurd (hpc.symm.trans hwaiting) nofun
  | take e rest hfirst =>
    cases hv with
    | quiet _ _ hqueued => exact absurd (hfirst.symm.trans hqueued) nofun
    | asked e' hpc hboard hflight herrors hresponses =>
      obtain ⟨hqueued, -⟩ | ⟨hqueued, -⟩ := hflight
      · obtain ⟨rfl, rfl⟩ := List.cons.inj (hfirst.symm.trans hqueued)
        exact .asked e hpc hboard (Or.inr ⟨rfl, Or.inr rfl⟩) herrors hresponses
      · exact absurd (hfirst.symm.trans hqueued) nofun
    | told response _ _ hqueued => exact absurd (hfirst.symm.trans hqueued) nofun
  | drop =>
    cases hv with
    | quiet hpc hboard hqueued _ herrors hresponses =>
      exact .quiet hpc hboard hqueued rfl herrors hresponses
    | asked e hpc hboard hflight herrors hresponses =>
      refine .asked e hpc hboard ?_ herrors hresponses
      obtain ⟨hqueued, -⟩ | ⟨hqueued, -⟩ := hflight
      · exact Or.inl ⟨hqueued, rfl⟩
      · exact Or.inr ⟨hqueued, Or.inl rfl⟩
    | told response hpc hboard hqueued _ herrors hresponses =>
      exact .told response hpc hboard hqueued rfl herrors hresponses
  | answer e response hhand =>
    cases hv with
    | quiet _ _ _ hnone => exact absurd (hhand.symm.trans hnone) nofun
    | asked e' hpc hboard hflight herrors hresponses =>
      -- An answer needs the error in hand, so it has left the queue.
      obtain ⟨-, hnone⟩ | ⟨hqueued, hnone | hsome⟩ := hflight
      · exact absurd (hhand.symm.trans hnone) nofun
      · exact absurd (hhand.symm.trans hnone) nofun
      · obtain rfl := Option.some.inj (hhand.symm.trans hsome)
        refine .told response hpc rfl hqueued rfl ?_ ?_
        · show v.errors = (v.answers ++ [(e, response)]).map Prod.fst
          rw [herrors, List.map_append]
          rfl
        · show (v.answers ++ [(e, response)]).map Prod.snd = v.responses ++ [response]
          rw [hresponses, List.map_append]
          rfl
    | told response' _ _ _ hnone => exact absurd (hhand.symm.trans hnone) nofun
  | back response hpc hshown =>
    cases hv with
    | quiet hnot => exact absurd hpc hnot
    | asked e _ hboard => exact absurd (hshown.symm.trans hboard) nofun
    | told response' _ hboard hqueued hhand herrors hresponses =>
      obtain rfl := Option.some.inj (hshown.symm.trans hboard)
      exact .quiet nofun (fun hout => absurd rfl hout) hqueued hhand herrors hresponses.symm

/-- What a dialogue promises at any time: each response is the answer to the error of its
    place, no more than one is still to come, and none when the process is not waiting. -/
structure Answered (v : Dialogue Response) : Prop where
  responses : v.responses <+: v.answers.map Prod.snd
  errors : v.answers.map Prod.fst <+: v.errors
  pending : v.errors.length ≤ v.responses.length + 1
  quiet : v.pc ≠ .waiting → v.responses.length = v.errors.length

theorem Matched.answered {v : Dialogue Response} (hv : v.Matched) : v.Answered := by
  cases hv with
  | quiet hpc _ _ _ herrors hresponses =>
    have hlength : v.responses.length = v.errors.length := by
      rw [herrors, hresponses, List.length_map, List.length_map]
    refine ⟨?_, ?_, by omega, fun _ => hlength⟩
    · rw [hresponses]
    · rw [herrors]
  | asked e hpc _ _ herrors hresponses =>
    refine ⟨?_, ?_, ?_, fun hnot => absurd hpc hnot⟩
    · rw [hresponses]
    · rw [herrors]
      exact List.prefix_append _ _
    · rw [herrors, hresponses, List.length_append, List.length_map, List.length_map]
      exact Nat.le_refl _
  | told response hpc _ _ _ herrors hresponses =>
    refine ⟨?_, ?_, ?_, fun hnot => absurd hpc hnot⟩
    · rw [hresponses]
      exact List.prefix_append _ _
    · rw [herrors]
    · have hlength := congrArg List.length hresponses
      rw [List.length_map, List.length_append, List.length_singleton] at hlength
      rw [herrors, List.length_map]
      omega

end Dialogue

/-! ## The dialogue of a process -/

section
variable {α : Type*} {f : α → Nat} {p : Nat} {a : α}

theorem filter_push_self (h : f a = p) (l : List α) :
    (l ++ [a]).filter (fun x => decide (f x = p)) = l.filter (fun x => decide (f x = p)) ++ [a] := by
  rw [List.filter_append, List.filter_singleton, decide_eq_true h]
  rfl

theorem filter_push_of_ne (h : f a ≠ p) (l : List α) :
    (l ++ [a]).filter (fun x => decide (f x = p)) = l.filter (fun x => decide (f x = p)) := by
  rw [List.filter_append, List.filter_singleton, decide_eq_false h]
  exact List.append_nil _

end

/-- The error at hand, if it is of process `p`. -/
def ManagerPc.atHand (p : Nat) : ManagerPc → Option ErrorStatus
  | .free => none
  | .handling e => if e.failedProcessId = p then some e else none

/-- What the partition shows of process `p`, whose health manager and blackboard are given. -/
def view (p : Nat) (hm : HmDescriptor) (board : Nat) (s : State Response) : Dialogue Response where
  pc := s.callers p
  board := s.boards board
  queued := (s.buffers hm.hmBufferId).elements.filter fun e => decide (e.failedProcessId = p)
  atHand := (s.managers hm.hmProcessId).atHand p
  errors := s.raised.filter fun e => decide (e.failedProcessId = p)
  answers := s.answered.filter fun a => decide (a.1.failedProcessId = p)
  responses := (s.returned.filter fun x => decide (x.1 = p)).map Prod.snd

/-- The step leaves the dialogue of process `p` to its own call: nobody else raises an
    error for it, it does not give up, and it is notified in answer to the error that the
    health manager has at hand. -/
def Orderly (p : Nat) (s : State Response) : Op Response → Prop
  | .raise q _ _ => q ≠ p
  | .timeOut q => q ≠ p
  | .notify m q _ => q = p → ((s.managers m).atHand p).isSome = true
  | _ => True

instance (p : Nat) (s : State Response) : (op : Op Response) → Decidable (Orderly p s op)
  | .raise _ _ _ | .timeOut _ => inferInstanceAs (Decidable (_ ≠ _))
  | .notify _ _ _ => inferInstanceAs (Decidable (_ → _))
  | .clear _ _ _ | .send _ | .read _ | .receive _ => isTrue trivial

section
variable {r : Registry} {s s' : State Response} {p h : Nat} {d : ProcessDescriptor}
  {hm : HmDescriptor}

theorem view_raiseError_of_ne {q board : Nat} {errorCode : Int} {message : List UInt8} (hq : q ≠ p)
    (hstep : raiseError r s q errorCode message = some s') :
    view p hm board s' = view p hm board s := by
  obtain ⟨rfl, -⟩ | ⟨d', k, hm', b, hother, hput, rfl⟩ := raiseError_cases hstep
  · rfl
  have hqueued : ((Function.update s.buffers hm'.hmBufferId b hm.hmBufferId).elements.filter
      fun e => decide (e.failedProcessId = p)) =
        (s.buffers hm.hmBufferId).elements.filter fun e => decide (e.failedProcessId = p) := by
    by_cases hbuffer : hm.hmBufferId = hm'.hmBufferId
    · rw [hbuffer, Function.update_self, (Fifo.put_elements hput).2, filter_push_of_ne hq]
    · rw [Function.update_of_ne hbuffer]
  have herrors : ((s.raised ++ [(⟨errorCode, q, message⟩ : ErrorStatus)]).filter
      fun e => decide (e.failedProcessId = p)) =
        s.raised.filter fun e => decide (e.failedProcessId = p) := filter_push_of_ne hq _
  exact Dialogue.ext rfl rfl hqueued rfl herrors rfl rfl

/-- Receiving takes the process's own error up, drops it for another one, or has nothing
    to do with it. -/
theorem view_receive (hr : r.HmInv) (hs : Delivered r s) (hp : r.Managed p d h hm) {m : Nat}
    (hstep : receive r s m = some s') :
    view p hm d.hmResponseBoardId s' = view p hm d.hmResponseBoardId s ∨
      (view p hm d.hmResponseBoardId s).Next (view p hm d.hmResponseBoardId s') := by
  obtain rfl | ⟨k, hm', e, b, code, board, hhm, hpid, htake, hmessage, rfl⟩ := receive_cases hstep
  · exact Or.inl rfl
  have hqueue := (Fifo.take_some htake).2
  obtain ⟨d', he⟩ := hs.managed hhm (hqueue ▸ List.mem_cons_self)
  rw [← hpid, hr.errorMessage he] at hmessage
  obtain ⟨rfl, -⟩ := Prod.mk.inj (Except.ok.inj hmessage)
  by_cases hk : k = h
  · -- it is the health manager of the process
    obtain rfl : hm = hm' := by
      rw [hk] at hhm
      exact Option.some.inj (hp.manager.symm.trans hhm)
    right
    by_cases hfailed : e.failedProcessId = p
    · have hfirst : (view p hm d.hmResponseBoardId s).queued =
          e :: b.elements.filter fun e => decide (e.failedProcessId = p) := by
        show (s.buffers hm.hmBufferId).elements.filter _ = _
        rw [hqueue]
        exact List.filter_cons_of_pos (by simpa using hfailed)
      have hview := Dialogue.Next.take e _ hfirst
      convert hview using 1
      refine Dialogue.ext rfl rfl ?_ ?_ rfl rfl rfl
      · show (Function.update s.buffers hm.hmBufferId b hm.hmBufferId).elements.filter _ = _
        rw [Function.update_self]
      · show (Function.update s.managers m _ hm.hmProcessId).atHand p = _
        rw [← hpid, Function.update_self, if_pos rfl]
        exact if_pos hfailed
    · have hdrop := Dialogue.Next.drop (v := view p hm d.hmResponseBoardId s)
      convert hdrop using 1
      refine Dialogue.ext rfl rfl ?_ ?_ rfl rfl rfl
      · show (Function.update s.buffers hm.hmBufferId b hm.hmBufferId).elements.filter _ =
          (s.buffers hm.hmBufferId).elements.filter _
        rw [Function.update_self, hqueue]
        exact (List.filter_cons_of_neg (by simpa using hfailed)).symm
      · show (Function.update s.managers m _ hm.hmProcessId).atHand p = _
        rw [← hpid, Function.update_self, if_pos rfl]
        exact if_neg hfailed
  · left
    have hbuffer : hm.hmBufferId ≠ hm'.hmBufferId := fun heq =>
      hk (hr.buffers k h hm' hm hhm hp.manager heq.symm)
    have howner : hm.hmProcessId ≠ m := fun heq =>
      hk (hr.owners k h hm' hm hhm hp.manager (hpid.trans heq.symm))
    refine Dialogue.ext rfl rfl ?_ ?_ rfl rfl rfl
    · show (Function.update s.buffers hm'.hmBufferId b hm.hmBufferId).elements.filter _ = _
      rw [Function.update_of_ne hbuffer]
      rfl
    · show (Function.update s.managers m _ hm.hmProcessId).atHand p = _
      rw [Function.update_of_ne howner]
      rfl

theorem answer_of_ne (s : State Response) (m : Nat) {q : Nat} (hq : q ≠ p) (response : Response) :
    (∀ x, ((answer s m q response).managers x).atHand p = (s.managers x).atHand p) ∧
      ((answer s m q response).answered.filter fun a => decide (a.1.failedProcessId = p)) =
        s.answered.filter fun a => decide (a.1.failedProcessId = p) := by
  unfold answer
  split
  · exact ⟨fun _ => rfl, rfl⟩
  · rename_i e hpc
    split
    · rename_i hfailed
      have hother : e.failedProcessId ≠ p := by
        rw [hfailed]
        exact hq
      refine ⟨fun x => ?_, ?_⟩
      · by_cases hx : x = m
        · subst hx
          show (Function.update s.managers x .free x).atHand p = _
          rw [Function.update_self, hpc]
          exact (if_neg hother).symm
        · show (Function.update s.managers m .free x).atHand p = _
          rw [Function.update_of_ne hx]
      · exact filter_push_of_ne (f := fun a : ErrorStatus × Response => a.1.failedProcessId)
          hother s.answered
    · exact ⟨fun _ => rfl, rfl⟩

/-- A notification is the answer to the error at hand, or goes to another process. -/
theorem view_notify (hb : r.BoardInv) (hp : r.Managed p d h hm) {m q : Nat} {response : Response}
    (hC : q = p → ((s.managers m).atHand p).isSome = true)
    (hstep : notify r s m q response = some s') :
    view p hm d.hmResponseBoardId s' = view p hm d.hmResponseBoardId s ∨
      (view p hm d.hmResponseBoardId s).Next (view p hm d.hmResponseBoardId s') := by
  obtain rfl | ⟨d', k, hm', hq, hpid, rfl⟩ := notify_cases hstep
  · exact Or.inl rfl
  obtain ⟨hbuffers, -, hcallers, hraised, -, hreturned⟩ := answer_frame s m q response
  by_cases hqp : q = p
  -- The manager that answers is the one the process is registered with.
  · obtain ⟨rfl, rfl⟩ := hp.unique hq hqp
    subst hqp
    obtain ⟨e, hhand⟩ := Option.isSome_iff_exists.mp (hC rfl)
    right
    have hanswer := Dialogue.Next.answer (v := view q hm' d'.hmResponseBoardId s) e response
      (by rw [← hpid] at hhand; exact hhand)
    cases hpc : s.managers m with
    | free =>
      rw [hpc] at hhand
      cases hhand
    | handling e' =>
      rw [hpc] at hhand
      obtain ⟨hfailed, heq⟩ := Option.ite_none_right_eq_some.mp hhand
      obtain rfl := Option.some.inj heq
      have hdone : answer s m q response = { s with
          managers := Function.update s.managers m .free
          answered := s.answered ++ [(e', response)] } := by
        unfold answer
        rw [hpc]
        exact if_pos hfailed
      rw [hdone]
      convert hanswer using 1
      refine Dialogue.ext rfl ?_ rfl ?_ rfl ?_ rfl
      · exact Function.update_self ..
      · show (Function.update s.managers m _ hm'.hmProcessId).atHand q = none
        rw [← hpid, Function.update_self]
        rfl
      · exact filter_push_self (f := fun a : ErrorStatus × Response => a.1.failedProcessId)
          hfailed s.answered
  · left
    have hboard : d.hmResponseBoardId ≠ d'.hmResponseBoardId := fun heq =>
      hqp (hb.own p q d d' hp.process hq.process hp.registered hq.registered heq).symm
    obtain ⟨hrest, hanswers⟩ := answer_of_ne s m hqp response
    refine Dialogue.ext (congrFun hcallers p) ?_ ?_ (hrest hm.hmProcessId) ?_ hanswers ?_
    · exact Function.update_of_ne hboard ..
    · show ((answer s m q response).buffers _).elements.filter _ = _
      rw [hbuffers]
      rfl
    · show (answer s m q response).raised.filter _ = _
      rw [hraised]
      rfl
    · show ((answer s m q response).returned.filter _).map _ = _
      rw [hreturned]
      rfl

theorem view_send (hp : r.Managed p d h hm) {errorCode : Int} {message : List UInt8}
    {s₁ : State Response} (hpc : s.callers p = .cleared errorCode message)
    (hstep : raiseError r s p errorCode message = some s₁) :
    (view p hm d.hmResponseBoardId s).Next (view p hm d.hmResponseBoardId
      { s₁ with callers := Function.update s₁.callers p .waiting }) := by
  obtain ⟨-, hnot⟩ | ⟨d', k, hm', b, hq, hput, rfl⟩ := raiseError_cases hstep
  · exact absurd ⟨d, h, hm, hp⟩ hnot
  obtain ⟨rfl, rfl⟩ := hp.unique hq rfl
  have hask := Dialogue.Next.ask (v := view p hm' d'.hmResponseBoardId s) ⟨errorCode, p, message⟩
    ⟨errorCode, message, hpc⟩
  have hself : (⟨errorCode, p, message⟩ : ErrorStatus).failedProcessId = p := rfl
  convert hask using 1
  refine Dialogue.ext ?_ rfl ?_ rfl ?_ rfl rfl
  · exact Function.update_self ..
  · show (Function.update s.buffers hm'.hmBufferId b hm'.hmBufferId).elements.filter _ = _
    rw [Function.update_self, (Fifo.put_elements hput).2]
    exact filter_push_self hself _
  · exact filter_push_self hself s.raised

theorem view_update_of_ne {q board : Nat} (hq : p ≠ q) (pc : CallPc) :
    view p hm board { s with callers := Function.update s.callers q pc } = view p hm board s :=
  Dialogue.ext (Function.update_of_ne hq ..) rfl rfl rfl rfl rfl rfl

/-- A step of the partition is a step of the dialogue, or none of its business. -/
theorem step_dialogue (hr : r.HmInv) (hb : r.BoardInv) (hs : Delivered r s)
    (hp : r.Managed p d h hm) {op : Op Response} (hC : Orderly p s op)
    (hstep : step r s op = some s') :
    view p hm d.hmResponseBoardId s' = view p hm d.hmResponseBoardId s ∨
      (view p hm d.hmResponseBoardId s).Next (view p hm d.hmResponseBoardId s') := by
  cases op with
  | clear q errorCode message =>
    obtain ⟨hpc, hstep⟩ := Option.ite_none_right_eq_some.mp hstep
    split at hstep
    · cases hstep
    rename_i d' hd'
    split at hstep
    · obtain rfl := Option.some.inj hstep
      exact Or.inl rfl
    rename_i hregistered
    obtain rfl := Option.some.inj hstep
    -- Another process has another response blackboard, so its steps are not seen.
    by_cases hq : p = q
    · subst hq
      obtain rfl : d = d' := Option.some.inj (hp.process.symm.trans hd')
      right
      have hclear := Dialogue.Next.clear (v := view p hm d.hmResponseBoardId s) errorCode message hpc
      convert hclear using 1
      exact Dialogue.ext (Function.update_self ..) (Function.update_self ..) rfl rfl rfl rfl rfl
    · left
      have hboard : d.hmResponseBoardId ≠ d'.hmResponseBoardId := fun heq =>
        hq (hb.own p q d d' hp.process hd' hp.registered hregistered heq)
      exact Dialogue.ext (Function.update_of_ne hq ..) (Function.update_of_ne hboard ..) rfl rfl rfl
        rfl rfl
  | send q =>
    simp only [step] at hstep
    split at hstep
    · rename_i errorCode message hpc
      obtain ⟨s₁, hraise, rfl⟩ := Option.map_eq_some_iff.mp hstep
      by_cases hq : p = q
      · subst hq
        exact Or.inr (view_send hp hpc hraise)
      · left
        rw [view_update_of_ne hq]
        exact view_raiseError_of_ne (Ne.symm hq) hraise
    · cases hstep
  | raise q errorCode message => exact Or.inl (view_raiseError_of_ne hC hstep)
  | read q =>
    obtain ⟨hpc, hstep⟩ := Option.ite_none_right_eq_some.mp hstep
    split at hstep
    · cases hstep
    rename_i d' hd'
    obtain ⟨response, hshown, rfl⟩ := Option.map_eq_some_iff.mp hstep
    by_cases hq : p = q
    · subst hq
      obtain rfl : d = d' := Option.some.inj (hp.process.symm.trans hd')
      right
      have hback := Dialogue.Next.back (v := view p hm d.hmResponseBoardId s) response hpc hshown
      convert hback using 1
      refine Dialogue.ext (Function.update_self ..) rfl rfl rfl rfl rfl ?_
      show ((s.returned ++ [(p, response)]).filter _).map _ = _
      have hself : (p, response).1 = p := rfl
      rw [filter_push_self (f := Prod.fst) hself, List.map_append]
      rfl
    · left
      refine Dialogue.ext (Function.update_of_ne hq ..) rfl rfl rfl rfl rfl ?_
      show ((s.returned ++ [(q, response)]).filter _).map _ = _
      rw [filter_push_of_ne (f := Prod.fst) (Ne.symm hq)]
      rfl
  | timeOut q =>
    obtain ⟨-, hstep⟩ := Option.ite_none_right_eq_some.mp hstep
    split at hstep
    · cases hstep
    obtain ⟨-, heq⟩ := Option.ite_none_right_eq_some.mp hstep
    obtain rfl := Option.some.inj heq
    exact Or.inl (view_update_of_ne (Ne.symm hC) _)
  | receive m => exact view_receive hr hs hp hstep
  | notify m q response => exact view_notify hb hp hC hstep

theorem matched_start (p : Nat) (hm : HmDescriptor) (board : Nat) :
    (view p hm board (start : State Response)).Matched :=
  .quiet nofun (fun _ => rfl) rfl rfl rfl rfl

end

/-- **Answers match.** In every partition that the creations and registrations make, for
    every process that is registered with a health manager: along every interleaving that
    leaves the errors of the process to its own calls, which wait without a time-out, and
    in which it is notified only in answer to the error at hand, its calls return the
    answers to its errors, each to the one that it raised. -/
theorem answers_match (calls : List Registry.Op) (r : Registry)
    (hr : run Registry.step Registry.start calls = some r) (p h : Nat) (d : ProcessDescriptor)
    (hm : HmDescriptor) (hp : r.Managed p d h hm) (ops : List (Op Response))
    (hC : Meets (step r) (Orderly p) start ops) (s : State Response)
    (hs : run (step r) start ops = some s) :
    (view p hm d.hmResponseBoardId s).Answered := by
  have hinv : r.HmInv := run_invariant (fun _ _ _ hi hstep => hmInv_step hi hstep) hmInv_start hr
  have hboards : r.BoardInv :=
    run_invariant (fun _ _ _ hi hstep => boardInv_step hi hstep) boardInv_start hr
  have hall : Delivered r s ∧ (view p hm d.hmResponseBoardId s).Matched := by
    refine run_invariant_of_meets (I := fun s => Delivered r s ∧
      (view p hm d.hmResponseBoardId s).Matched) ?_ ⟨delivered_start r, matched_start p hm _⟩ hC hs
    intro t op u ht horderly hstep
    refine ⟨step_delivered hinv ht.1 hstep, ?_⟩
    obtain hsame | hnext := step_dialogue hinv hboards ht.1 hp horderly hstep
    · rw [hsame]
      exact ht.2
    · exact ht.2.next hnext
  exact hall.2.answered

/-- The process of the managed partition asks twice, and is answered once. -/
def answeredOnce : List (Op Bool) :=
  [.clear 1 7 [1], .send 1, .receive 0, .notify 0 1 true, .read 1, .clear 1 8 [], .send 1]

theorem managedProcess_isSome :
    (run Registry.step Registry.start managedProcess).isSome = true := by decide

/-- Its tables. -/
def managedTables : Registry :=
  (run Registry.step Registry.start managedProcess).get managedProcess_isSome

theorem answers_match_answeredOnce :
    ∃ d hm s, run Registry.step Registry.start managedProcess = some managedTables ∧
      managedTables.Managed 1 d 0 hm ∧ run (step managedTables) start answeredOnce = some s ∧
      (view 1 hm d.hmResponseBoardId s).Answered := by
  have hmade : run Registry.step Registry.start managedProcess = some managedTables :=
    (Option.some_get managedProcess_isSome).symm
  have htables : managedTables.processes[1]?.map (·.hmDescriptorId) = some 0 ∧
      0 < managedTables.healthManagers.length := by decide
  obtain ⟨d, hd, hdescriptor⟩ := Option.map_eq_some_iff.mp htables.1
  have hp := Managed.mk hd hdescriptor (List.getElem?_eq_getElem htables.2)
  have hruns : (run (step managedTables) start answeredOnce).isSome = true := by decide
  obtain ⟨s, hs⟩ := Option.isSome_iff_exists.mp hruns
  refine ⟨d, _, s, hmade, hp, hs, ?_⟩
  exact answers_match managedProcess managedTables hmade 1 0 d _ hp answeredOnce (by decide) s hs

end Arinc.HealthDialogue
