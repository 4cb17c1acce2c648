import Mathlib.Data.List.Forall2
import ArincEmulator.QueuePort

/- Queueing channels. A move receives as many messages as its source held when it
   began and sends each of them to every destination, and to every address where the
   channel has a socket; on the other side a channel receives datagrams and sends
   them to its destinations. A full destination loses the message, and the others
   get it all the same.

   What is proved (`moveMessages_transfers`): a move within a module ends with the
   source empty and with each destination holding, as far as its capacity goes, its
   old messages and then those of the source in their order. A channel that has
   neither destinations nor a socket does nothing. Where a channel has a socket, a
   `sendTo` that fails throws out of the move; the move returns when none does. -/
namespace Arinc.QueuePort
open Memory SamplingPacket

/-- `QUEUE_CHANNEL`: its ports, whether it has the socket it sends by and the one it
    receives by, and its `INTERNAL_BUFFER`. `U` is the type of the addresses. -/
structure QueueChannel (U : Type*) where
  initialized : Bool
  sourceQueue : Option MessageQueue
  destinationQueueVector : List MessageQueue
  sender : Bool
  receiver : Bool
  maxSizeofmessage : Int
  maxSocketMessage : Nat
  destinationUrlVector : List U
  internalBuffer : Nat → Byte

/-- What `MOVE_MESSAGES` leaves: the channel, the datagrams sent, and those still
    pending at the receiving socket. -/
structure Moved (U : Type*) where
  returnCode : ReturnCode
  channel : QueueChannel U
  sent : List (U × List Byte)
  pending : List (List Byte)

/-- The loop over the destinations, which goes on behind an error. The clock is read
    once for each of them. -/
def sendToAll (clock : Nat → ClockTime) (msgPtr : Nat → Byte) (length : Int)
    (returnCode : ReturnCode) : List MessageQueue → Option (ReturnCode × List MessageQueue)
  | [] => some (returnCode, [])
  | q :: queues =>
    (q.sendMessage (clock queues.length) msgPtr length 0).bind fun (code, q) =>
      (sendToAll clock msgPtr length code queues).map fun (code, queues) => (code, q :: queues)

variable {U : Type*}

namespace QueueChannel

/-- The loop over the messages of the source, with `counter` of them to go; `clock`
    is read in each round by the receive and by the sends, and `sends k` says whether
    the `k`-th `sendTo` of the call goes through. One that does not throws a
    `SocketException`, which the call does not catch. -/
def moveLoop (sends : Nat → Bool) (clock : Nat → Nat → ClockTime) (pending : List (List Byte)) :
    Nat → QueueChannel U → MessageQueue → ReturnCode → List (U × List Byte) → Option (Moved U)
  | 0, c, source, returnCode, sent =>
    some ⟨returnCode, { c with sourceQueue := some source }, sent, pending⟩
  | counter + 1, c, source, _, sent =>
    (source.receiveMessage (clock counter c.destinationQueueVector.length) c.internalBuffer 0).bind
      fun received =>
        let c := { c with internalBuffer := received.msgPtr }
        -- the code returns from the middle of the loop
        if received.returnCode ≠ .noError then
          some ⟨received.returnCode, { c with sourceQueue := some received.queue }, sent, pending⟩
        else
          let length := received.length.getD 0
          (sendToAll (clock counter) c.internalBuffer length received.returnCode
            c.destinationQueueVector).bind fun (returnCode, queues) =>
              let datagrams :=
                if c.sender then
                  c.destinationUrlVector.map fun url => (url, read c.internalBuffer 0 length.toNat)
                else []
              if allSent sends sent.length datagrams.length then
                moveLoop sends clock pending counter { c with destinationQueueVector := queues }
                  received.queue returnCode (sent ++ datagrams)
              -- the SocketException of a sendTo that fails
              else none

/-- The receiving loop over `times`; a receive that finds nothing ends it. -/
def receiveRounds (clock : Nat → Nat → ClockTime) :
    Nat → QueueChannel U → List (List Byte) → ReturnCode → Option (Moved U)
  | 0, c, pending, returnCode => some ⟨returnCode, c, [], pending⟩
  | _ + 1, c, [], returnCode => some ⟨returnCode, c, [], []⟩
  | times + 1, c, datagram :: pending, returnCode =>
    let recvMsgSize := min datagram.length (MessageQueue.sizeT c.maxSizeofmessage)
    let internalBuffer := copy c.internalBuffer 0 (ofList datagram 0) recvMsgSize
    (sendToAll (clock times) internalBuffer recvMsgSize returnCode c.destinationQueueVector).bind
      fun (returnCode, queues) =>
        receiveRounds clock times { c with internalBuffer, destinationQueueVector := queues }
          pending returnCode

/-- `MOVE_MESSAGES`, with the datagrams pending at the receiving socket. -/
def moveMessagesOver (sends : Nat → Bool) (c : QueueChannel U) (clock : Nat → Nat → ClockTime)
    (pending : List (List Byte)) : Option (Moved U) :=
  if c.initialized = false then some ⟨.noAction, c, [], pending⟩
  else if c.receiver = false then
    match c.sourceQueue with
    | none => some ⟨.noAction, c, [], pending⟩
    | some source =>
      if c.destinationQueueVector = [] ∧ c.sender = false then some ⟨.noAction, c, [], pending⟩
      else
        -- GET_QUEUING_PORT_STATUS, whose status is logged, leaves its code
        let returnCode := if source.readyOrNot then .noError else .invalidMode
        c.moveLoop sends clock pending source.numberOfMessages source returnCode []
  else if c.destinationQueueVector = [] then some ⟨.noAction, c, [], pending⟩
  else receiveRounds clock c.maxSocketMessage c pending .noError

/-- `MOVE_MESSAGES` where every `sendTo` goes through. -/
def moveMessages (c : QueueChannel U) (clock : Nat → Nat → ClockTime) (pending : List (List Byte)) :
    Option (Moved U) :=
  c.moveMessagesOver (fun _ => true) clock pending

end QueueChannel

/-! ## The loops -/

theorem sendToAll_offers (clock : Nat → ClockTime) {msgPtr : Nat → Byte} {m : List Byte}
    (hm : read msgPtr 0 m.length = m) {queues : List MessageQueue}
    (hqueues : ∀ q ∈ queues, q.Opened ∧ q.qPortDirection = .portSourceDest)
    (hfits : ∀ q ∈ queues, (m.length : Int) ≤ q.qMaxMessageSize) (returnCode : ReturnCode) :
    ∃ code queues', sendToAll clock msgPtr m.length returnCode queues = some (code, queues') ∧
      List.Forall₂ (fun q q' => q.AfterOffers [m] q') queues queues' := by
  induction queues generalizing returnCode with
  | nil => exact ⟨returnCode, [], rfl, List.Forall₂.nil⟩
  | cons q queues ih =>
    obtain ⟨⟨hopened, hdirection⟩, hrest⟩ := List.forall_mem_cons.mp hqueues
    obtain ⟨hfit, hfitsRest⟩ := List.forall_mem_cons.mp hfits
    obtain ⟨code, q', hsend, hq'⟩ := MessageQueue.sendMessage_zero hopened
      (by rw [hdirection]; decide) (clock queues.length) hm hfit
    obtain ⟨code', queues', hall, hqueues'⟩ := ih hrest hfitsRest code
    refine ⟨code', q' :: queues', ?_, List.Forall₂.cons hq' hqueues'⟩
    rw [sendToAll, hsend, Option.bind_some]
    simp only [hall, Option.map_some]

theorem afterOffers_trans {qs rs ts : List MessageQueue} {ms ns : List (List Byte)}
    (h : List.Forall₂ (fun q r => q.AfterOffers ms r) qs rs)
    (h' : List.Forall₂ (fun r t => r.AfterOffers ns t) rs ts) :
    List.Forall₂ (fun q t => q.AfterOffers (ms ++ ns) t) qs ts := by
  induction h generalizing ts with
  | nil =>
    cases h'
    exact List.Forall₂.nil
  | cons hq hqs ih =>
    cases h' with
    | cons hr hrs => exact List.Forall₂.cons (hq.trans hr) (ih hrs)

theorem afterOffers_kept {P : Int → Prop} {qs rs : List MessageQueue} {ms : List (List Byte)}
    (h : List.Forall₂ (fun q r => q.AfterOffers ms r) qs rs)
    (hqs : ∀ q ∈ qs, (q.Opened ∧ q.qPortDirection = .portSourceDest) ∧ P q.qMaxMessageSize) :
    ∀ r ∈ rs, (r.Opened ∧ r.qPortDirection = .portSourceDest) ∧ P r.qMaxMessageSize := by
  induction h with
  | nil => exact hqs
  | cons hq _ ih =>
    obtain ⟨⟨⟨hopened, hdirection⟩, hsize⟩, hrest⟩ := List.forall_mem_cons.mp hqs
    refine List.forall_mem_cons.mpr ⟨⟨⟨hq.opened hopened, ?_⟩, ?_⟩, ih hrest⟩
    · rw [hq.port]
      exact hdirection
    · rw [hq.port]
      exact hsize

theorem afterOffers_elements {qs rs : List MessageQueue} {ms : List (List Byte)}
    (h : List.Forall₂ (fun q r => q.AfterOffers ms r) qs rs) :
    rs.map (·.mq.elements) = qs.map fun q => (q.mq.elements ++ ms).take q.mq.capacity := by
  induction h with
  | nil => rfl
  | cons hq _ ih =>
    rw [List.map_cons, List.map_cons, ih, hq.fifo, Fifo.offerAll_elements]

namespace QueueChannel

/-- A channel as `ADD_SOURCE_QUEUE` and `ADD_DESTINATION_QUEUE` build it, with all of
    its queues opened, that does not receive from another module. -/
structure Built (c : QueueChannel U) (source : MessageQueue) : Prop where
  initialized : c.initialized = true
  receiver : c.receiver = false
  sourceQueue : c.sourceQueue = some source
  opened : source.Opened ∧ source.qPortDirection = .portSourceDest
  destinations : ∀ q ∈ c.destinationQueueVector, q.Opened ∧ q.qPortDirection = .portSourceDest

/-- The datagrams a channel sends for the messages of its source. -/
def datagrams (c : QueueChannel U) (ms : List (List Byte)) : List (U × List Byte) :=
  if c.sender then ms.flatMap fun m => c.destinationUrlVector.map fun url => (url, m) else []

/-- One round: the oldest message goes to the buffer of the channel, from there to all
    destinations, and to the addresses. -/
theorem moveLoop_round (clock : Nat → Nat → ClockTime) (pending : List (List Byte)) (counter : Nat)
    (c : QueueChannel U) {source : MessageQueue} (hgives : source.Gives) {m : List Byte}
    {ms : List (List Byte)} (hms : source.mq.elements = m :: ms) (returnCode : ReturnCode)
    (sent : List (U × List Byte)) :
    ∃ msgPtr internalBuffer, ∃ mq : PosixQueue, read msgPtr 0 m.length = m ∧
      mq.msgsize = source.mq.msgsize ∧ mq.capacity = source.mq.capacity ∧ mq.elements = ms ∧
      ∀ code queues, sendToAll (clock counter) msgPtr m.length .noError c.destinationQueueVector =
          some (code, queues) →
        c.moveLoop (fun _ => true) clock pending (counter + 1) source returnCode sent =
          moveLoop (fun _ => true) clock pending counter
            { c with internalBuffer := msgPtr, destinationQueueVector := queues }
            { source with internalBuffer, mq } code
            (sent ++ if c.sender then c.destinationUrlVector.map fun url => (url, m) else []) := by
  obtain ⟨msgPtr, internalBuffer, mq, hreceive, hread, hmsgsize, hcapacity, hrest⟩ :=
    hgives.receiveMessage (clock counter c.destinationQueueVector.length) c.internalBuffer
      (by decide : (0 : Int) ≤ maxTimeOut) hms
  refine ⟨msgPtr, internalBuffer, mq, hread, hmsgsize, hcapacity, hrest, fun code queues hsend => ?_⟩
  rw [moveLoop, hreceive, Option.bind_some]
  simp only [ne_eq, not_true_eq_false, if_false, Option.getD_some]
  rw [hsend, Option.bind_some]
  simp only [Int.toNat_natCast, hread, allSent_true, if_true]

/-- The loop drains the source: the induction is on its messages, each of which is
    offered to all destinations in its round. -/
theorem moveLoop_drains (clock : Nat → Nat → ClockTime) (pending : List (List Byte))
    {ms : List (List Byte)} {c : QueueChannel U} {source : MessageQueue} (hopened : source.Opened)
    (hdirection : source.qPortDirection = .portSourceDest) (hms : source.mq.elements = ms)
    (hqueues : ∀ q ∈ c.destinationQueueVector, (q.Opened ∧ q.qPortDirection = .portSourceDest) ∧
      ∀ m ∈ ms, (m.length : Int) ≤ q.qMaxMessageSize)
    (returnCode : ReturnCode) (sent : List (U × List Byte)) :
    ∃ r source', c.moveLoop (fun _ => true) clock pending ms.length source returnCode sent = some r ∧
      r.channel.sourceQueue = some source' ∧ source'.mq.elements = [] ∧
      List.Forall₂ (fun q q' => q.AfterOffers ms q') c.destinationQueueVector
        r.channel.destinationQueueVector ∧
      r.sent = sent ++ c.datagrams ms := by
  induction ms generalizing c source returnCode sent with
  | nil =>
    refine ⟨_, source, rfl, rfl, hms, ?_, ?_⟩
    · exact List.forall₂_same.mpr fun q _ => MessageQueue.AfterOffers.refl q
    · unfold datagrams
      split <;> simp
  | cons m ms ih =>
    obtain ⟨msgPtr, internalBuffer, mq, hread, hmsgsize, hcapacity, hms₁, hround⟩ :=
      moveLoop_round clock pending ms.length c (hopened.gives (by rw [hdirection]; decide)) hms
        returnCode sent
    have hopened₁ := hopened.received internalBuffer hmsgsize hcapacity
    obtain ⟨code, queues, hsend, hoffers⟩ := sendToAll_offers (clock ms.length) hread
      (fun q hq => (hqueues q hq).1) (fun q hq => (hqueues q hq).2 m (by simp)) .noError
    have hqueues₁ := afterOffers_kept (P := fun size => ∀ n ∈ ms, (n.length : Int) ≤ size) hoffers
      fun q hq => ⟨(hqueues q hq).1, fun n hn => (hqueues q hq).2 n (List.mem_cons_of_mem m hn)⟩
    obtain ⟨r, source', hloop, hsource', hempty, hall, hsent⟩ :=
      ih (c := { c with internalBuffer := msgPtr, destinationQueueVector := queues }) hopened₁
        hdirection hms₁ hqueues₁ code
        (sent ++ if c.sender then c.destinationUrlVector.map fun url => (url, m) else [])
    -- The offer of this round and those of the rest follow each other at every destination.
    refine ⟨r, source', (hround code queues hsend).trans hloop, hsource', hempty,
      afterOffers_trans hoffers hall, ?_⟩
    rw [hsent, List.append_assoc]
    congr 1
    unfold datagrams
    by_cases hsender : c.sender = true
    · simp only [hsender, if_true, List.flatMap_cons]
    · rw [if_neg hsender, if_neg hsender, if_neg hsender]
      rfl

theorem moveMessages_eq_moveLoop {c : QueueChannel U} {source : MessageQueue} (hc : c.Built source)
    (hsome : c.destinationQueueVector ≠ [] ∨ c.sender = true) (clock : Nat → Nat → ClockTime)
    (pending : List (List Byte)) :
    c.moveMessages clock pending =
      c.moveLoop (fun _ => true) clock pending source.mq.elements.length source .noError [] := by
  have hinitialized : ¬ c.initialized = false := by simp [hc.initialized]
  have hnot : ¬ (c.destinationQueueVector = [] ∧ c.sender = false) := by
    rintro ⟨hempty, hsender⟩
    obtain h | h := hsome
    · exact h hempty
    · rw [hsender] at h
      cases h
  have hready : source.readyOrNot = true := hc.opened.1.ready
  rw [moveMessages, moveMessagesOver, if_neg hinitialized, if_pos hc.receiver, hc.sourceQueue]
  simp only [if_neg hnot, MessageQueue.numberOfMessages, hready, if_true]

theorem moveMessages_drains {c : QueueChannel U} {source : MessageQueue} (hc : c.Built source)
    (hsome : c.destinationQueueVector ≠ [] ∨ c.sender = true)
    (hfits : ∀ m ∈ source.mq.elements, ∀ q ∈ c.destinationQueueVector,
      (m.length : Int) ≤ q.qMaxMessageSize)
    (clock : Nat → Nat → ClockTime) (pending : List (List Byte)) :
    ∃ r source', c.moveMessages clock pending = some r ∧
      r.channel.sourceQueue = some source' ∧ source'.mq.elements = [] ∧
      List.Forall₂ (fun q q' => q.AfterOffers source.mq.elements q') c.destinationQueueVector
        r.channel.destinationQueueVector ∧
      r.sent = c.datagrams source.mq.elements := by
  rw [moveMessages_eq_moveLoop hc hsome]
  exact moveLoop_drains clock pending hc.opened.1 hc.opened.2 rfl
    (fun q hq => ⟨hc.destinations q hq, fun m hm => hfits m hm q hq⟩) _ []

theorem moveLoop_sent {sends : Nat → Bool} {clock : Nat → Nat → ClockTime}
    {pending : List (List Byte)} {counter : Nat} {c : QueueChannel U} {source : MessageQueue}
    {returnCode : ReturnCode} {sent : List (U × List Byte)} {r : Moved U}
    (h : c.moveLoop sends clock pending counter source returnCode sent = some r) :
    sent <+: r.sent := by
  induction counter generalizing c source returnCode sent with
  | zero =>
    obtain rfl := Option.some.inj h
    exact List.prefix_refl sent
  | succ counter ih =>
    obtain ⟨received, -, h⟩ := Option.bind_eq_some_iff.mp h
    simp only at h
    split at h
    · obtain rfl := Option.some.inj h
      exact List.prefix_refl sent
    · obtain ⟨⟨code, queues⟩, -, h⟩ := Option.bind_eq_some_iff.mp h
      generalize (if c.sender then _ else []) = datagrams at h
      simp only at h
      split at h
      · exact (List.prefix_append sent datagrams).trans (ih h)
      · cases h

/-- The loop returns just when all its sends go through, and then as if every send did.
    The induction is on the rounds; a round whose sends fail is one whose datagrams are
    among those that the whole loop would send. -/
theorem moveLoop_filter (sends : Nat → Bool) (clock : Nat → Nat → ClockTime)
    (pending : List (List Byte)) (counter : Nat) (c : QueueChannel U) (source : MessageQueue)
    (returnCode : ReturnCode) {sent : List (U × List Byte)}
    (hsent : allSent sends 0 sent.length = true) :
    c.moveLoop sends clock pending counter source returnCode sent =
      (c.moveLoop (fun _ => true) clock pending counter source returnCode sent).filter
        fun r => allSent sends 0 r.sent.length := by
  induction counter generalizing c source returnCode sent with
  | zero =>
    rw [moveLoop, moveLoop, Option.filter_some_pos]
    exact hsent
  | succ counter ih =>
    rw [moveLoop, moveLoop]
    cases source.receiveMessage (clock counter c.destinationQueueVector.length) c.internalBuffer 0 with
    | none => rfl
    | some received =>
      simp only [Option.bind_some]
      split
      · rw [Option.filter_some_pos]
        exact hsent
      · cases sendToAll (clock counter) received.msgPtr (received.length.getD 0) received.returnCode
          c.destinationQueueVector with
        | none => rfl
        | some sentTo =>
          simp only [Option.bind_some, allSent_true, if_true]
          generalize (if c.sender then _ else []) = datagrams
          split
          · rename_i hround
            refine ih _ _ _ ?_
            rw [List.length_append]
            exact allSent_append.mpr ⟨hsent, by rwa [Nat.zero_add]⟩
          · rename_i hround
            refine (Option.filter_eq_none_iff.mpr fun r hr hall => hround ?_).symm
            have hle := (moveLoop_sent hr).length_le
            rw [List.length_append] at hle
            exact allSent_iff.mpr fun k _ hk => allSent_iff.mp hall k (Nat.zero_le k) (by omega)

theorem receiveRounds_sent {clock : Nat → Nat → ClockTime} {times : Nat} {c : QueueChannel U}
    {pending : List (List Byte)} {returnCode : ReturnCode} {r : Moved U}
    (h : receiveRounds clock times c pending returnCode = some r) : r.sent = [] := by
  induction times generalizing c pending returnCode with
  | zero =>
    obtain rfl := Option.some.inj h
    rfl
  | succ times ih =>
    cases pending with
    | nil =>
      obtain rfl := Option.some.inj h
      rfl
    | cons datagram pending =>
      obtain ⟨⟨code, queues⟩, -, hrest⟩ := Option.bind_eq_some_iff.mp h
      exact ih hrest

/-- A call returns just when all its sends go through, and then as if every send did. -/
theorem moveMessagesOver_eq (sends : Nat → Bool) (c : QueueChannel U)
    (clock : Nat → Nat → ClockTime) (pending : List (List Byte)) :
    c.moveMessagesOver sends clock pending =
      (c.moveMessages clock pending).filter fun r => allSent sends 0 r.sent.length := by
  unfold moveMessages moveMessagesOver
  split
  · rfl
  · split
    · cases c.sourceQueue with
      | none => rfl
      | some source =>
        simp only
        split
        · rfl
        · exact moveLoop_filter sends clock pending _ c source _ rfl
    · split
      · rfl
      · cases hrounds : receiveRounds clock c.maxSocketMessage c pending .noError with
        | none => rfl
        | some r =>
          rw [Option.filter_some_pos]
          rw [receiveRounds_sent hrounds]
          rfl

theorem moveMessages_of_over {sends : Nat → Bool} {c : QueueChannel U}
    {clock : Nat → Nat → ClockTime} {pending : List (List Byte)} {r : Moved U}
    (h : c.moveMessagesOver sends clock pending = some r) :
    c.moveMessages clock pending = some r := by
  rw [moveMessagesOver_eq, Option.filter_eq_some_iff] at h
  exact h.1

theorem Built.moveMessages_idle {c : QueueChannel U} {source : MessageQueue} (hc : c.Built source)
    (hnone : c.destinationQueueVector = [] ∧ c.sender = false) (clock : Nat → Nat → ClockTime)
    (pending : List (List Byte)) : c.moveMessages clock pending = some ⟨.noAction, c, [], pending⟩ := by
  rw [moveMessages, moveMessagesOver, if_neg (by simp [hc.initialized]), if_pos hc.receiver,
    hc.sourceQueue]
  simp only [if_pos hnone]

/-- **A move transfers the source.** Where each of its sends goes through (a channel
    without a socket makes none), it ends with the source empty, each destination with its
    old messages and then those of the source in order, as far as its capacity goes, and
    each address with all of them; where one fails, it does not return. Without a
    destination and without a socket it does nothing. -/
theorem moveMessages_transfers {c : QueueChannel U} {source : MessageQueue} (hc : c.Built source)
    (hfits : ∀ m ∈ source.mq.elements, ∀ q ∈ c.destinationQueueVector,
      (m.length : Int) ≤ q.qMaxMessageSize)
    (sends : Nat → Bool) (clock : Nat → Nat → ClockTime) (pending : List (List Byte)) :
    (c.destinationQueueVector = [] ∧ c.sender = false →
      c.moveMessagesOver sends clock pending = some ⟨.noAction, c, [], pending⟩) ∧
    (c.destinationQueueVector ≠ [] ∨ c.sender = true →
      (∀ k < (c.datagrams source.mq.elements).length, sends k = true) →
      ∃ r source', c.moveMessagesOver sends clock pending = some r ∧
        r.channel.sourceQueue = some source' ∧ source'.mq.elements = [] ∧
        r.channel.destinationQueueVector.map (·.mq.elements) = c.destinationQueueVector.map
          (fun q => (q.mq.elements ++ source.mq.elements).take q.mq.capacity) ∧
        r.sent = c.datagrams source.mq.elements) ∧
    ((∃ k < (c.datagrams source.mq.elements).length, sends k = false) →
      c.moveMessagesOver sends clock pending = none) := by
  rw [moveMessagesOver_eq]
  refine ⟨fun hnone => ?_, fun hsome hall => ?_, ?_⟩
  · rw [hc.moveMessages_idle hnone]
    rfl
  · obtain ⟨r, source', hmove, hsource', hempty, hoffers, hsent⟩ :=
      moveMessages_drains hc hsome hfits clock pending
    refine ⟨r, source', ?_, hsource', hempty, afterOffers_elements hoffers, hsent⟩
    rw [hmove, Option.filter_some_pos]
    rw [hsent]
    exact allSent_zero_iff.mpr hall
  · rintro ⟨k, hk, hfails⟩
    -- Only a channel with a socket has datagrams, so only there a send can fail.
    have hsender : c.sender = true := by
      by_contra hsender
      rw [datagrams, if_neg hsender] at hk
      exact absurd hk (Nat.not_lt_zero k)
    obtain ⟨r, _, hmove, -, -, -, hsent⟩ :=
      moveMessages_drains hc (Or.inr hsender) hfits clock pending
    rw [hmove, Option.filter_eq_none_iff]
    intro r' hr' hall
    obtain rfl := Option.some.inj hr'
    rw [hsent] at hall
    rw [allSent_zero_iff.mp hall k hk] at hfails
    cases hfails

/-! ## What a move leaves alone -/

/-- The port is as it was but for its buffer and for what is in its queue. -/
structure SameQueue (q r : MessageQueue) : Prop where
  port : r = { q with internalBuffer := r.internalBuffer, mq := r.mq }
  msgsize : r.mq.msgsize = q.mq.msgsize
  capacity : r.mq.capacity = q.mq.capacity

theorem SameQueue.refl (q : MessageQueue) : SameQueue q q := ⟨rfl, rfl, rfl⟩

theorem SameQueue.trans {q r t : MessageQueue} (h : SameQueue q r) (h' : SameQueue r t) :
    SameQueue q t where
  port := by
    rw [h'.port, h.port]
  msgsize := h'.msgsize.trans h.msgsize
  capacity := h'.capacity.trans h.capacity

theorem SameQueue.opened {q r : MessageQueue} (h : SameQueue q r) (hq : q.Opened) : r.Opened := by
  rw [h.port]
  exact hq.received r.internalBuffer h.msgsize h.capacity

theorem sameQueues_refl (qs : List MessageQueue) : List.Forall₂ SameQueue qs qs :=
  List.forall₂_same.mpr fun q _ => SameQueue.refl q

theorem sameQueues_trans {qs rs ts : List MessageQueue} (h : List.Forall₂ SameQueue qs rs)
    (h' : List.Forall₂ SameQueue rs ts) : List.Forall₂ SameQueue qs ts := by
  induction h generalizing ts with
  | nil => exact h'
  | cons hq _ ih =>
    cases h' with
    | cons hr hrs => exact List.Forall₂.cons (hq.trans hr) (ih hrs)

theorem sameQueues_forall {P : MessageQueue → Prop} {qs rs : List MessageQueue}
    (h : List.Forall₂ SameQueue qs rs) (hP : ∀ q r, SameQueue q r → P q → P r)
    (hqs : ∀ q ∈ qs, P q) : ∀ r ∈ rs, P r := by
  induction h with
  | nil => exact hqs
  | cons hq _ ih =>
    obtain ⟨hfirst, hrest⟩ := List.forall_mem_cons.mp hqs
    exact List.forall_mem_cons.mpr ⟨hP _ _ hq hfirst, ih hrest⟩

theorem sendMessage_sameQueue {q r : MessageQueue} {now : ClockTime} {msgPtr : Nat → Byte}
    {length timeOut : Int} {code : ReturnCode}
    (h : q.sendMessage now msgPtr length timeOut = some (code, r)) : SameQueue q r := by
  obtain ⟨-, rfl⟩ | ⟨-, hmsgsize, hcapacity, -⟩ := MessageQueue.sendMessage_cases h
  · exact SameQueue.refl _
  · refine ⟨?_, hmsgsize, hcapacity⟩
    rw [MessageQueue.sendMessage_port h]

theorem receiveMessage_sameQueue {q : MessageQueue} {now : ClockTime} {msgPtr : Nat → Byte}
    {timeOut : Int} {r : MessageQueue.Received}
    (h : q.receiveMessage now msgPtr timeOut = some r) : SameQueue q r.queue := by
  obtain ⟨-, hqueue⟩ | ⟨-, hmsgsize, hcapacity, -⟩ := MessageQueue.receiveMessage_cases h
  · rw [hqueue]
    exact SameQueue.refl _
  · exact ⟨MessageQueue.receiveMessage_port h, hmsgsize, hcapacity⟩

theorem sendToAll_sameQueues {clock : Nat → ClockTime} {msgPtr : Nat → Byte} {length : Int}
    {queues rs : List MessageQueue} {returnCode code : ReturnCode}
    (h : sendToAll clock msgPtr length returnCode queues = some (code, rs)) :
    List.Forall₂ SameQueue queues rs := by
  induction queues generalizing returnCode code rs with
  | nil =>
    obtain ⟨-, rfl⟩ := Prod.mk.inj (Option.some.inj h)
    exact List.Forall₂.nil
  | cons q queues ih =>
    obtain ⟨⟨code₁, q'⟩, hsend, h⟩ := Option.bind_eq_some_iff.mp h
    obtain ⟨⟨code₂, queues'⟩, hrest, heq⟩ := Option.map_eq_some_iff.mp h
    obtain ⟨rfl, rfl⟩ := Prod.mk.inj heq
    exact List.Forall₂.cons (sendMessage_sameQueue hsend) (ih hrest)

/-- What a move within the module leaves of a channel: all but its queues, and of these
    the ports. -/
structure SameChannel (c c' : QueueChannel U) (source : MessageQueue) : Prop where
  channel : c' = { c with
    sourceQueue := c'.sourceQueue
    destinationQueueVector := c'.destinationQueueVector
    internalBuffer := c'.internalBuffer }
  source : ∃ source', c'.sourceQueue = some source' ∧ SameQueue source source'
  destinations : List.Forall₂ SameQueue c.destinationQueueVector c'.destinationQueueVector

/-- The loop ends with a source, and each of its rounds receives from that and sends to
    the destinations. -/
theorem moveLoop_same {clock : Nat → Nat → ClockTime} {pending : List (List Byte)}
    {counter : Nat} {c : QueueChannel U} {source : MessageQueue} {returnCode : ReturnCode}
    {sent : List (U × List Byte)} {r : Moved U}
    (h : c.moveLoop (fun _ => true) clock pending counter source returnCode sent = some r) :
    SameChannel c r.channel source := by
  induction counter generalizing c source returnCode sent with
  | zero =>
    obtain rfl := Option.some.inj h
    exact ⟨rfl, ⟨source, rfl, SameQueue.refl _⟩, sameQueues_refl _⟩
  | succ counter ih =>
    obtain ⟨received, hreceive, h⟩ := Option.bind_eq_some_iff.mp h
    have hsource : SameQueue source received.queue := receiveMessage_sameQueue hreceive
    simp only at h
    split at h
    · obtain rfl := Option.some.inj h
      exact ⟨rfl, ⟨received.queue, rfl, hsource⟩, sameQueues_refl _⟩
    · obtain ⟨⟨code, queues⟩, hsend, h⟩ := Option.bind_eq_some_iff.mp h
      simp only [allSent_true, if_true] at h
      obtain ⟨hchannel, ⟨source', hsource', hlast⟩, hqueues⟩ := ih h
      refine ⟨?_, ⟨source', hsource', hsource.trans hlast⟩,
        sameQueues_trans (sendToAll_sameQueues hsend) hqueues⟩
      rw [hchannel]

theorem moveMessages_same {c : QueueChannel U} {source : MessageQueue}
    (hreceiver : c.receiver = false) (hsource : c.sourceQueue = some source)
    {clock : Nat → Nat → ClockTime} {pending : List (List Byte)} {r : Moved U}
    (h : c.moveMessages clock pending = some r) : SameChannel c r.channel source := by
  have hsame : SameChannel c c source :=
    ⟨rfl, ⟨source, hsource, SameQueue.refl _⟩, sameQueues_refl _⟩
  rw [moveMessages, moveMessagesOver, if_pos hreceiver, hsource] at h
  simp only at h
  split at h
  · obtain rfl := Option.some.inj h
    exact hsame
  · split at h
    · obtain rfl := Option.some.inj h
      exact hsame
    · exact moveLoop_same h

theorem receiveRounds_channel {clock : Nat → Nat → ClockTime} {times : Nat} {c : QueueChannel U}
    {pending : List (List Byte)} {returnCode : ReturnCode} {r : Moved U}
    (h : receiveRounds clock times c pending returnCode = some r) :
    r.channel = { c with
      destinationQueueVector := r.channel.destinationQueueVector
      internalBuffer := r.channel.internalBuffer } := by
  induction times generalizing c pending returnCode with
  | zero =>
    obtain rfl := Option.some.inj h
    rfl
  | succ times ih =>
    cases pending with
    | nil =>
      obtain rfl := Option.some.inj h
      rfl
    | cons datagram pending =>
      obtain ⟨⟨code, queues⟩, -, hrest⟩ := Option.bind_eq_some_iff.mp h
      have hchannel := ih hrest
      rw [hchannel]

theorem moveMessages_channel {c : QueueChannel U} (hreceiver : c.receiver = true)
    {clock : Nat → Nat → ClockTime} {pending : List (List Byte)} {r : Moved U}
    (h : c.moveMessages clock pending = some r) :
    r.channel = { c with
      destinationQueueVector := r.channel.destinationQueueVector
      internalBuffer := r.channel.internalBuffer } := by
  unfold moveMessages moveMessagesOver at h
  rw [if_neg (by simp [hreceiver] : ¬ c.receiver = false)] at h
  split at h
  · obtain rfl := Option.some.inj h
    rfl
  · split at h
    · obtain rfl := Option.some.inj h
      rfl
    · exact receiveRounds_channel h

/-- A port for messages of 4 bytes, with some in its queue. -/
def portOf (capacity : Nat) (ms : List (List Byte)) (hwithin : ms.length ≤ capacity)
    (hfits : ∀ m ∈ ms, m.length ≤ 4) : MessageQueue :=
  ⟨4, capacity, .portSourceDest, true, fun _ => 0, ⟨⟨capacity, ms, hwithin⟩, 4, hfits⟩⟩

theorem portOf_opened {capacity : Nat} {ms : List (List Byte)} (hwithin : ms.length ≤ capacity)
    (hfits : ∀ m ∈ ms, m.length ≤ 4) : (portOf capacity ms hwithin hfits).Opened :=
  ⟨rfl, rfl, rfl, (by decide : 4 < 2 ^ 63)⟩

theorem emptyPort_within : ([] : List (List Byte)).length ≤ 2 := Nat.zero_le 2

theorem emptyPort_fits : ∀ m ∈ ([] : List (List Byte)), m.length ≤ 4 := List.forall_mem_nil _

/-- A port with room for two messages. -/
def emptyPort : MessageQueue := portOf 2 [] emptyPort_within emptyPort_fits

/-- Two messages at the source, a destination with room for one and one with room for
    three that holds a message already. -/
def twoQueues : QueueChannel Nat :=
  ⟨true, some (portOf 3 [[1, 2], [3]] (by decide) (by decide)),
    [portOf 1 [] (by decide) (by decide), portOf 3 [[9]] (by decide) (by decide)], false, false, 4, 1,
    [], fun _ => 0⟩

theorem moveMessages_transfers_twoQueues :
    ∃ r source', twoQueues.moveMessagesOver (fun _ => false) (fun _ _ => ⟨⟨0, 0⟩, by decide⟩) [] =
        some r ∧
      r.channel.sourceQueue = some source' ∧ source'.mq.elements = [] ∧
      r.channel.destinationQueueVector.map (·.mq.elements) = [[[1, 2]], [[9], [1, 2], [3]]] := by
  have hbuilt : twoQueues.Built (portOf 3 [[1, 2], [3]] (by decide) (by decide)) := by
    refine ⟨rfl, rfl, rfl, ⟨portOf_opened _ _, rfl⟩, ?_⟩
    exact List.forall_mem_cons.mpr
      ⟨⟨portOf_opened _ _, rfl⟩, List.forall_mem_singleton.mpr ⟨portOf_opened _ _, rfl⟩⟩
  obtain ⟨r, source', hmove, hsource', hempty, hqueues, -⟩ :=
    (moveMessages_transfers hbuilt (by decide) (fun _ => false) (fun _ _ => ⟨⟨0, 0⟩, by decide⟩)
      []).2.1 (Or.inl (by simp [twoQueues])) (by simp [datagrams, twoQueues])
  exact ⟨r, source', hmove, hsource', hempty, hqueues⟩

/-- One message at the source and no destination. -/
def noDestination : QueueChannel Nat :=
  ⟨true, some (portOf 3 [[1]] (by decide) (by decide)), [], false, false, 4, 1, [], fun _ => 0⟩

/-- One message at the source, which goes to one address. -/
def oneAddress : QueueChannel Nat :=
  ⟨true, some (portOf 3 [[1]] (by decide) (by decide)), [], true, false, 4, 1, [7], fun _ => 0⟩

/-- Without a destination the message stays at the source, and a `sendTo` that fails ends
    the call before its return. -/
theorem noDestination_keeps :
    (noDestination.moveMessagesOver (fun _ => true) (fun _ _ => ⟨⟨0, 0⟩, by decide⟩) []).map
      (fun r => (r.returnCode, r.channel.sourceQueue.map (·.mq.elements))) =
        some (.noAction, some [[1]]) ∧
    (oneAddress.moveMessagesOver (fun _ => false) (fun _ _ => ⟨⟨0, 0⟩, by decide⟩) []).isNone := by
  decide

end QueueChannel

end Arinc.QueuePort
