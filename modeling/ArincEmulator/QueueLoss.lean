import ArincEmulator.QueueChannel

/- What a queueing move reports. The destinations are sent each message in turn, each
   send writes the one return code of the call, and the loops go on behind an error:
   the code that comes back is that of the last send.

   What is proved, for channels in any state (`moveMessages_reports_loss_iff`): a move
   that answers NO_ERROR has lost nothing just when each destination has room for all
   the messages, or the last destination turns the last message away. -/
namespace Arinc.QueuePort
open Memory SamplingPacket

variable {U : Type*}

namespace QueueChannel

/-- The destinations as places. -/
def places (c : QueueChannel U) : List (Place (List Byte)) :=
  c.destinationQueueVector.map MessageQueue.place

/-- The messages at the source. -/
def atSource (c : QueueChannel U) : List (List Byte) :=
  (c.sourceQueue.map fun q => q.mq.elements).getD []

/-- The datagrams as the receiving socket hands them over. -/
def receivedFrom (c : QueueChannel U) (pending : List (List Byte)) : List (List Byte) :=
  pending.map (List.take (MessageQueue.sizeT c.maxSizeofmessage))

/-- The messages a move has taken: what is gone from the source, or from the socket. -/
def taken (c : QueueChannel U) (pending : List (List Byte)) (r : Moved U) : List (List Byte) :=
  if c.receiver = false then c.atSource.take (c.atSource.length - r.channel.atSource.length)
  else c.receivedFrom (pending.take (pending.length - r.pending.length))

/-- NO_ERROR says that every destination holds every message taken. -/
def ReportsLoss (c : QueueChannel U) (pending : List (List Byte)) (r : Moved U) : Prop :=
  r.returnCode = .noError →
    r.channel.destinationQueueVector.map (·.mq.elements) =
      c.destinationQueueVector.map (·.mq.elements ++ c.taken pending r)

instance (c : QueueChannel U) (pending : List (List Byte)) (r : Moved U) :
    Decidable (c.ReportsLoss pending r) :=
  inferInstanceAs (Decidable (_ → _))

/-- The messages that a move will take. -/
def toMove (c : QueueChannel U) (pending : List (List Byte)) : List (List Byte) :=
  if c.initialized = false then []
  else if c.receiver = false then
    if c.destinationQueueVector = [] ∧ c.sender = false then []
    else (c.sourceQueue.map fun q => if q.Gives then q.mq.elements else []).getD []
  else if c.destinationQueueVector = [] then []
  else c.receivedFrom (pending.take c.maxSocketMessage)

/-- Every destination accepts all the messages and has room for them. -/
def RoomForAll (c : QueueChannel U) (ms : List (List Byte)) : Prop :=
  ms = [] ∨ ∀ p ∈ c.places, (∀ m ∈ ms, p.admissible m = true) ∧ p.held.length + ms.length ≤ p.limit

/-- The last destination does not accept the last message, or has no room for it behind
    those of the others that it accepts. -/
def LastTurnedAway (c : QueueChannel U) (ms : List (List Byte)) : Prop :=
  ∃ p ∈ c.places.getLast?, ∃ m ∈ ms.getLast?,
    ¬ (p.admissible m = true ∧ p.held.length + (ms.filter p.admissible).length ≤ p.limit)

/-- A channel and what is left of it after some messages have been sent to all of its
    destinations: with the return code as it was before them, or that of the last send. -/
structure Offered (c : QueueChannel U) (before : Prop) (ms : List (List Byte)) (r : Moved U) :
    Prop where
  places : r.channel.places = c.places.map (·.offerAll ms)
  reports : ∀ p ∈ c.places.getLast?, (r.returnCode = .noError ↔ p.LastAdmitted before ms)

/-! ## The loops -/

theorem sendToAll_places (clock : Nat → ClockTime) {msgPtr : Nat → Byte} {m : List Byte}
    (hm : read msgPtr 0 m.length = m) (hlength : m.length < 2 ^ 64) (queues : List MessageQueue)
    (returnCode : ReturnCode) :
    ∃ code rs, sendToAll clock msgPtr m.length returnCode queues = some (code, rs) ∧
      rs.map MessageQueue.place = (queues.map MessageQueue.place).map (·.offer m) ∧
      ∀ p ∈ (queues.map MessageQueue.place).getLast?, (code = .noError ↔ p.Admits m) := by
  induction queues generalizing returnCode with
  | nil => exact ⟨returnCode, [], rfl, rfl, fun p hp => by cases hp⟩
  | cons q queues ih =>
    obtain ⟨code, r, hsend, hplace, hcode⟩ :
        ∃ code r, q.sendMessage (clock queues.length) msgPtr m.length 0 = some (code, r) ∧
          r.place = q.place.offer m ∧ (code = .noError ↔ q.place.Admits m) := by
      obtain ⟨hadmits, mq, hsend, hmsgsize, hput⟩ | ⟨hnot, code, hcode, hsend⟩ :=
        q.sendMessage_spec (clock queues.length) hm hlength
      · refine ⟨_, _, hsend, ?_, iff_of_true rfl hadmits⟩
        obtain ⟨hcapacity, helements⟩ := Fifo.put_elements hput
        rw [Place.offer_of_admits hadmits]
        simp only [MessageQueue.place, hmsgsize, hcapacity, helements]
      · exact ⟨_, _, hsend, (Place.offer_of_not_admits hnot).symm, iff_of_false hcode hnot⟩
    obtain ⟨code', rs, hrest, hplaces, hlast⟩ := ih code
    refine ⟨code', r :: rs, ?_, ?_, ?_⟩
    · rw [sendToAll, hsend, Option.bind_some]
      simp only [hrest, Option.map_some]
    · rw [List.map_cons, List.map_cons, List.map_cons, hplace, hplaces]
    -- The code that the loop ends with is that of the last destination.
    · intro p hp
      cases queues with
      | nil =>
        obtain ⟨rfl, -⟩ := Prod.mk.inj (Option.some.inj hrest)
        obtain rfl := Option.some.inj hp
        exact hcode
      | cons q' queues => exact hlast p (by simpa [List.getLast?_cons] using hp)

theorem Offered.cons {c d : QueueChannel U} {before : Prop} {code : ReturnCode} {m : List Byte}
    {ms : List (List Byte)} {r : Moved U} (h : d.Offered (code = .noError) ms r)
    (hplaces : d.places = c.places.map (·.offer m))
    (hcode : ∀ p ∈ c.places.getLast?, (code = .noError ↔ p.Admits m)) :
    c.Offered before (m :: ms) r where
  places := by
    rw [h.places, hplaces, List.map_map]
    rfl
  reports p hp := by
    have hlast : p.offer m ∈ d.places.getLast? := by
      rw [hplaces, List.getLast?_map, Option.mem_def.mp hp]
      rfl
    rw [h.reports _ hlast, propext (hcode p hp)]
    rfl

/-- The loop takes every message of a source that gives its messages; the induction is
    on those. -/
theorem moveLoop_offers (clock : Nat → Nat → ClockTime) (pending : List (List Byte))
    {ms : List (List Byte)} {c : QueueChannel U} {source : MessageQueue} (hgives : source.Gives)
    (hms : source.mq.elements = ms) (returnCode : ReturnCode) (sent : List (U × List Byte)) :
    ∃ r, c.moveLoop (fun _ => true) clock pending ms.length source returnCode sent = some r ∧
      r.channel.atSource = [] ∧ c.Offered (returnCode = .noError) ms r := by
  induction ms generalizing c source returnCode sent with
  | nil =>
    refine ⟨_, rfl, hms, ?_, fun p _ => Iff.rfl⟩
    show c.places = c.places.map id
    rw [List.map_id]
  | cons m ms ih =>
    obtain ⟨msgPtr, internalBuffer, mq, hread, hmsgsize, -, hrest, hround⟩ :=
      moveLoop_round clock pending ms.length c hgives hms returnCode sent
    have hlength : m.length < 2 ^ 64 := by
      have hfits := source.mq.fits m (by simp [hms])
      have hsize := hgives.size
      have hsizeT : MessageQueue.sizeT source.qMaxMessageSize < 2 ^ 64 := by
        unfold MessageQueue.sizeT
        omega
      omega
    obtain ⟨code, rs, hsend, hplaces, hcode⟩ :=
      sendToAll_places (clock ms.length) hread hlength c.destinationQueueVector .noError
    have hgives' : MessageQueue.Gives { source with internalBuffer, mq } :=
      ⟨hgives.ready, hgives.direction, hmsgsize ▸ hgives.size⟩
    obtain ⟨r, hloop, hempty, hoffered⟩ :=
      ih (c := { c with internalBuffer := msgPtr, destinationQueueVector := rs }) hgives' hrest code
        (sent ++ if c.sender then c.destinationUrlVector.map fun url => (url, m) else [])
    exact ⟨r, (hround code rs hsend).trans hloop, hempty, hoffered.cons hplaces hcode⟩

/-- Of a source that does not give them it takes none: the first round ends it. -/
theorem moveLoop_keeps (clock : Nat → Nat → ClockTime) (pending : List (List Byte))
    {c : QueueChannel U} {source : MessageQueue} (hkeeps : ¬ source.Gives) (returnCode : ReturnCode)
    (sent : List (U × List Byte)) :
    ∃ r, c.moveLoop (fun _ => true) clock pending source.numberOfMessages source returnCode sent = some r ∧
      r.channel.atSource = source.mq.elements ∧ r.pending = pending ∧
      r.channel.places = c.places := by
  cases hcount : source.numberOfMessages with
  | zero => exact ⟨_, rfl, rfl, rfl, rfl⟩
  | succ counter =>
    have hready : source.readyOrNot = true := by
      by_contra hready
      rw [MessageQueue.numberOfMessages, if_neg hready] at hcount
      cases hcount
    rw [MessageQueue.numberOfMessages, if_pos hready] at hcount
    obtain ⟨m, rest, hcons⟩ := List.exists_cons_of_length_eq_add_one hcount
    obtain ⟨code, length, hcode, hreceive⟩ := MessageQueue.receiveMessage_keeps hkeeps
      (clock counter c.destinationQueueVector.length) c.internalBuffer hcons
    rw [moveLoop, hreceive, Option.bind_some]
    simp only [if_pos hcode]
    exact ⟨_, rfl, rfl, rfl, rfl⟩

/-- The receiving loop hands over the datagrams that are pending, up to its bound. -/
theorem receiveRounds_offers (clock : Nat → Nat → ClockTime) (times : Nat) (c : QueueChannel U)
    (pending : List (List Byte)) (returnCode : ReturnCode) :
    ∃ r, receiveRounds clock times c pending returnCode = some r ∧
      r.pending = pending.drop times ∧
      c.Offered (returnCode = .noError) (c.receivedFrom (pending.take times)) r := by
  induction times generalizing c pending returnCode with
  | zero =>
    refine ⟨_, rfl, rfl, ?_, fun p _ => Iff.rfl⟩
    show c.places = c.places.map id
    rw [List.map_id]
  | succ times ih =>
    cases pending with
    | nil =>
      refine ⟨_, rfl, rfl, ?_, fun p _ => Iff.rfl⟩
      show c.places = c.places.map id
      rw [List.map_id]
    | cons datagram pending =>
      let m := datagram.take (MessageQueue.sizeT c.maxSizeofmessage)
      have hsize : min datagram.length (MessageQueue.sizeT c.maxSizeofmessage) = m.length := by
        rw [List.length_take, Nat.min_comm]
      have hlength : m.length < 2 ^ 64 := by
        have hsizeT : MessageQueue.sizeT c.maxSizeofmessage < 2 ^ 64 := by
          unfold MessageQueue.sizeT
          omega
        omega
      have hread : read (copy c.internalBuffer 0 (ofList datagram 0) m.length) 0 m.length = m := by
        rw [read_copy (Nat.le_refl _)]
        exact read_ofList_take datagram 0 _
      obtain ⟨code, rs, hsend, hplaces, hcode⟩ :=
        sendToAll_places (clock times) hread hlength c.destinationQueueVector returnCode
      obtain ⟨r, hloop, hpending, hoffered⟩ := ih
        { c with
          internalBuffer := copy c.internalBuffer 0 (ofList datagram 0) m.length
          destinationQueueVector := rs } pending code
      refine ⟨r, ?_, hpending, hoffered.cons hplaces hcode⟩
      unfold receiveRounds
      simp only [hsize, hsend, Option.bind_some]
      exact hloop

/-! ## A move -/

theorem taken_unmoved {c : QueueChannel U} {pending : List (List Byte)} {r : Moved U}
    (hsource : r.channel.atSource = c.atSource) (hpending : r.pending = pending) :
    c.taken pending r = [] := by
  unfold taken
  rw [hsource, hpending, Nat.sub_self, Nat.sub_self, List.take_zero, List.take_zero]
  split
  · rfl
  · rfl

/-- A call has taken the messages that it was to take and has offered them to all
    destinations. -/
structure Moves (c : QueueChannel U) (pending : List (List Byte)) (r : Moved U) : Prop where
  taken : c.taken pending r = c.toMove pending
  places : r.channel.places = c.places.map (·.offerAll (c.toMove pending))
  reports : c.toMove pending ≠ [] → ∀ p ∈ c.places.getLast?,
    (r.returnCode = .noError ↔ p.LastAdmitted True (c.toMove pending))

theorem Moves.of_unmoved {c : QueueChannel U} {pending : List (List Byte)} {r : Moved U}
    (hnothing : c.toMove pending = []) (hsource : r.channel.atSource = c.atSource)
    (hpending : r.pending = pending) (hplaces : r.channel.places = c.places) :
    c.Moves pending r where
  taken := by rw [taken_unmoved hsource hpending, hnothing]
  places := by
    rw [hplaces, hnothing]
    exact (List.map_id _).symm
  reports hsome := absurd hnothing hsome

theorem Moves.of_offered {c : QueueChannel U} {before : Prop} {pending : List (List Byte)}
    {r : Moved U} (htaken : c.taken pending r = c.toMove pending)
    (h : c.Offered before (c.toMove pending) r) : c.Moves pending r where
  taken := htaken
  places := h.places
  reports hsome p hp := by
    rw [h.reports p hp]
    cases hms : c.toMove pending with
    | nil => exact absurd hms hsome
    | cons m ms => rfl

theorem moveMessages_moves (c : QueueChannel U) (clock : Nat → Nat → ClockTime)
    (pending : List (List Byte)) :
    ∃ r, c.moveMessages clock pending = some r ∧ c.Moves pending r := by
  unfold moveMessages moveMessagesOver
  by_cases hinitialized : c.initialized = false
  · rw [if_pos hinitialized]
    exact ⟨_, rfl, Moves.of_unmoved (by simp [toMove, hinitialized]) rfl rfl rfl⟩
  rw [if_neg hinitialized]
  by_cases hreceiver : c.receiver = false
  · rw [if_pos hreceiver]
    cases hsource : c.sourceQueue with
    | none =>
      refine ⟨_, rfl, Moves.of_unmoved ?_ rfl rfl rfl⟩
      simp [toMove, hreceiver, hsource]
    | some source =>
      simp only
      by_cases hnone : c.destinationQueueVector = [] ∧ c.sender = false
      · rw [if_pos hnone]
        refine ⟨_, rfl, Moves.of_unmoved ?_ rfl rfl rfl⟩
        simp [toMove, hinitialized, hreceiver, hnone]
      rw [if_neg hnone]
      have htoMove : c.toMove pending = if source.Gives then source.mq.elements else [] := by
        simp [toMove, hinitialized, hreceiver, hnone, hsource]
      have hatSource : c.atSource = source.mq.elements := by
        rw [atSource, hsource]
        rfl
      -- A source that cannot give away what it has stops the loop at its first receive.
      by_cases hgives : source.Gives
      · rw [if_pos hgives] at htoMove
        have hcount : source.numberOfMessages = source.mq.elements.length := by
          rw [MessageQueue.numberOfMessages, hgives.ready, if_pos rfl]
        obtain ⟨r, hloop, hempty, hoffered⟩ := moveLoop_offers clock pending hgives rfl
          (if source.readyOrNot then .noError else .invalidMode) []
        rw [hcount]
        refine ⟨r, hloop, Moves.of_offered ?_ (htoMove ▸ hoffered)⟩
        rw [taken, if_pos hreceiver, hempty, hatSource, htoMove]
        exact List.take_length
      · rw [if_neg hgives] at htoMove
        obtain ⟨r, hloop, hsame, hpending, hplaces⟩ := moveLoop_keeps (c := c) clock pending hgives
          (if source.readyOrNot then .noError else .invalidMode) []
        exact ⟨r, hloop, Moves.of_unmoved htoMove (hsame.trans hatSource.symm) hpending hplaces⟩
  rw [if_neg hreceiver]
  by_cases hnone : c.destinationQueueVector = []
  · rw [if_pos hnone]
    refine ⟨_, rfl, Moves.of_unmoved ?_ rfl rfl rfl⟩
    simp [toMove, hinitialized, hreceiver, hnone]
  rw [if_neg hnone]
  have htoMove : c.toMove pending = c.receivedFrom (pending.take c.maxSocketMessage) := by
    simp [toMove, hinitialized, hreceiver, hnone]
  obtain ⟨r, hloop, hpending, hoffered⟩ :=
    receiveRounds_offers clock c.maxSocketMessage c pending .noError
  refine ⟨r, hloop, Moves.of_offered ?_ (htoMove ▸ hoffered)⟩
  rw [taken, if_neg hreceiver, hpending, htoMove, List.length_drop]
  congr 1
  rw [List.take_eq_take_iff]
  omega

/-- **What a move reports.** A move that answers NO_ERROR has lost none of the messages
    that it took, at any destination, just when every destination has room for all
    of them or the last destination turns the last of them away. -/
theorem moveMessages_reports_loss_iff (c : QueueChannel U) (clock : Nat → Nat → ClockTime)
    (pending : List (List Byte)) :
    ∃ r, c.moveMessages clock pending = some r ∧
      (c.ReportsLoss pending r ↔
        c.RoomForAll (c.toMove pending) ∨ c.LastTurnedAway (c.toMove pending)) := by
  obtain ⟨r, hmove, hmoves⟩ := moveMessages_moves c clock pending
  refine ⟨r, hmove, ?_⟩
  have hcomplete : r.channel.destinationQueueVector.map (·.mq.elements) =
      c.destinationQueueVector.map (·.mq.elements ++ c.taken pending r) ↔
        c.RoomForAll (c.toMove pending) := by
    have hafter : r.channel.destinationQueueVector.map (·.mq.elements) =
        c.places.map fun p => (p.offerAll (c.toMove pending)).held := by
      calc r.channel.destinationQueueVector.map (·.mq.elements)
          = r.channel.places.map Place.held := by
            rw [places, List.map_map]
            rfl
        _ = c.places.map fun p => (p.offerAll (c.toMove pending)).held := by
            rw [hmoves.places, List.map_map]
            rfl
    have hwanted : c.destinationQueueVector.map (·.mq.elements ++ c.taken pending r) =
        c.places.map fun p => p.held ++ c.toMove pending := by
      rw [places, List.map_map, hmoves.taken]
      rfl
    rw [hafter, hwanted, List.map_inj_left, RoomForAll]
    simp only [Place.offerAll_complete_iff]
    by_cases hnothing : c.toMove pending = []
    · exact iff_of_true (fun _ _ => Or.inl hnothing) (Or.inl hnothing)
    · simp only [hnothing, false_or]
  unfold ReportsLoss
  rw [hcomplete]
  by_cases hnothing : c.toMove pending = []
  · exact iff_of_true (fun _ => Or.inl hnothing) (Or.inl (Or.inl hnothing))
  cases hlast : c.places.getLast? with
  | none =>
    have hroom : c.RoomForAll (c.toMove pending) := by
      refine Or.inr fun p hp => ?_
      rw [List.getLast?_eq_none_iff.mp hlast] at hp
      cases hp
    exact iff_of_true (fun _ => hroom) (Or.inl hroom)
  | some p =>
    -- The call reports what the last destination answered to the last message.
    rw [hmoves.reports hnothing p hlast, Place.lastAdmitted_iff hnothing]
    have hturned : c.LastTurnedAway (c.toMove pending) ↔ ¬ ∀ m ∈ (c.toMove pending).getLast?,
        p.admissible m = true ∧
          p.held.length + ((c.toMove pending).filter p.admissible).length ≤ p.limit := by
      simp [LastTurnedAway, hlast]
    rw [hturned, or_comm, imp_iff_not_or]

/-- The first of the two destinations has room for one of the two messages and loses the
    other, the second has room for both, and the move answers NO_ERROR. -/
theorem twoQueues_lost_silently :
    ∃ r, twoQueues.moveMessages (fun _ _ => ⟨⟨0, 0⟩, by decide⟩) [] = some r ∧
      r.returnCode = .noError ∧ twoQueues.taken [] r = [[1, 2], [3]] ∧
      r.channel.destinationQueueVector.map (·.mq.elements) = [[[1, 2]], [[9], [1, 2], [3]]] ∧
      ¬ twoQueues.ReportsLoss [] r := by
  refine ⟨_, rfl, ?_, ?_, ?_, ?_⟩
  · decide
  · decide
  · decide
  · decide

end QueueChannel

end Arinc.QueuePort
