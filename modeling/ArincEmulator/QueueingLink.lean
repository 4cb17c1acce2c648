import ArincEmulator.Lib.Datagrams
import ArincEmulator.Lib.Runs
import ArincEmulator.QueueLoss

/- Queueing between modules. A partition sends to the source port of a channel, the
   network partition of its module moves the channel and so sends each message in a
   datagram of its own, and the network partition of another module moves the channel
   at the other end, which offers each datagram it takes to all its destinations, where
   other partitions receive. Between the two lies a network that can lose, repeat and
   reorder.

   What is proved: what was sent is what has gone to the network and what waits at the
   source; whatever the network does, what a destination has given away and holds was
   sent; and where the network keeps the order and repeats nothing, it is part of what
   was sent, in that order and nothing twice (`queueing_between_modules`). All along a
   run the destinations hold all that their end has taken just when every move finds
   room for it; then, over a network that loses nothing, every message sent is in one
   place of the way (`queueing_lossless_iff`). -/
namespace Arinc.QueueingLink
open Memory Runs Datagrams SamplingPacket QueuePort

/-! ## The two ends -/

/-- The channel of the sending module, the way to one of its addresses, and the channel
    of the receiving module. On the side: the messages accepted at the source, and those
    received at each destination, the oldest first. -/
structure Modules (U : Type*) where
  source : QueueChannel U
  link : Link (List Byte)
  destination : QueueChannel U
  sent : List (List Byte)
  taken : Nat → List (List Byte)

/-- A send to the source port, a move at either end, the arrival of a datagram that was
    sent, and a receive at a destination. `sends k` says whether the `k`-th `sendTo` of the
    move goes through; the exception of one that does not ends the network partition, and
    the run with it. -/
inductive Op where
  | send (now : ClockTime) (msgPtr : Nat → Byte) (length timeOut : Int)
  | moveSource (sends : Nat → Bool) (clock : Nat → Nat → ClockTime)
  | arrive (i : Nat)
  | moveDestination (clock : Nat → Nat → ClockTime)
  | receive (j : Nat) (now : ClockTime) (msgPtr : Nat → Byte) (timeOut : Int)

variable {U : Type*} [DecidableEq U]

/-- The partitions have ports of their own over the queues of the channels. A call that
    waits for ever is no step. -/
def step (url : U) (s : Modules U) : Op → Option (Modules U)
  | .send now msgPtr length timeOut =>
    s.source.sourceQueue.bind fun p =>
      (({ p with qPortDirection := .portSource } : MessageQueue).sendMessage now msgPtr length
        timeOut).map fun (code, r) =>
          { s with
            source := { s.source with sourceQueue := some { p with mq := r.mq } }
            sent :=
              if code = .noError then s.sent ++ [read msgPtr 0 (MessageQueue.sizeT length)]
              else s.sent }
  | .moveSource sends clock =>
    (s.source.moveMessagesOver sends clock []).map fun r =>
      { s with source := r.channel, link := s.link.send (sentTo url r.sent) }
  | .arrive i => (s.link.arrive i).map fun link => { s with link }
  | .moveDestination clock =>
    (s.destination.moveMessages clock s.link.pending).map fun r =>
      { s with
        destination := r.channel
        link := s.link.take (s.link.pending.length - r.pending.length) }
  | .receive j now msgPtr timeOut =>
    s.destination.destinationQueueVector[j]?.bind fun q =>
      (({ q with qPortDirection := .portDest } : MessageQueue).receiveMessage now msgPtr
        timeOut).map fun r =>
        { s with
          destination := { s.destination with
            destinationQueueVector :=
              s.destination.destinationQueueVector.set j { q with mq := r.queue.mq } }
          taken :=
            if r.returnCode = .noError then
              Function.update s.taken j (s.taken j ++ [read r.msgPtr 0 (r.length.getD 0).toNat])
            else s.taken }

/-- What waits at the source. -/
def Modules.waiting (s : Modules U) : List (List Byte) :=
  (s.source.sourceQueue.map (·.mq.elements)).getD []

/-- The ends as the module managers build them: no destination takes shorter messages
    than its channel, nor the receiving end than the sending one, and the receiver is
    once among the addresses of the sender. -/
structure Joined (url : U) (s : Modules U) : Prop where
  source : ∃ p, s.source.Built p ∧ p.qMaxMessageSize ≤ s.destination.maxSizeofmessage ∧
    ∀ q ∈ s.source.destinationQueueVector, p.qMaxMessageSize ≤ q.qMaxMessageSize
  sender : s.source.sender = true
  address : s.source.destinationUrlVector.count url = 1
  receiver : s.destination.receiver = true
  representable : s.destination.maxSizeofmessage < 2 ^ 63

/-- Before the first step all queues are empty and nothing has been sent. -/
structure Start (url : U) (s : Modules U) : Prop extends Joined url s where
  waiting : s.waiting = []
  queues : ∀ q ∈ s.destination.destinationQueueVector, q.mq.elements = []
  idle : s.link = Link.idle ∧ s.sent = [] ∧ s.taken = fun _ => []

/-- What every run keeps: what was sent is what has gone to the network and what waits
    at the source; every datagram fits the receiving end; and what a destination has
    given away and holds is part of what that end has taken from the network. -/
structure Flow (url : U) (s : Modules U) : Prop extends Joined url s where
  sent : s.sent = s.link.sent ++ s.waiting
  fits : ∀ d ∈ s.link.sent, (d.length : Int) ≤ s.destination.maxSizeofmessage
  delivered : ∀ j q, s.destination.destinationQueueVector[j]? = some q →
    (s.taken j ++ q.mq.elements).Sublist s.link.received

/-- No destination has lost what its end has taken. -/
def Lossless (s : Modules U) : Prop :=
  ∀ j q, s.destination.destinationQueueVector[j]? = some q →
    s.taken j ++ q.mq.elements = s.link.received

/-- A move at the receiving end finds room: every destination admits all that the move
    takes. -/
def Roomy (s : Modules U) : Op → Prop
  | .moveDestination _ => s.destination.RoomForAll (s.destination.toMove s.link.pending)
  | _ => True

instance (c : QueueChannel U) (ms : List (List Byte)) : Decidable (c.RoomForAll ms) :=
  inferInstanceAs (Decidable (_ ∨ ∀ p ∈ c.places, (∀ m ∈ ms, _) ∧ _))

instance (s : Modules U) : (op : Op) → Decidable (Roomy s op)
  | .send _ _ _ _ => isTrue trivial
  | .moveSource _ _ => isTrue trivial
  | .arrive _ => isTrue trivial
  | .moveDestination _ => inferInstanceAs (Decidable (QueueChannel.RoomForAll _ _))
  | .receive _ _ _ _ => isTrue trivial

/-! ## One step -/

section
variable {url : U} {s t : Modules U}

theorem send_cases {now : ClockTime} {msgPtr : Nat → Byte} {length timeOut : Int}
    (h : step url s (.send now msgPtr length timeOut) = some t) :
    t = s ∨ ∃ p, ∃ mq : PosixQueue, ∃ msg, s.source.sourceQueue = some p ∧
      mq.msgsize = p.mq.msgsize ∧ mq.capacity = p.mq.capacity ∧
      mq.elements = p.mq.elements ++ [msg] ∧
      t = { s with
        source := { s.source with sourceQueue := some { p with mq } }
        sent := s.sent ++ [msg] } := by
  obtain ⟨p, hp, h⟩ := Option.bind_eq_some_iff.mp h
  obtain ⟨⟨code, r⟩, hsend, rfl⟩ := Option.map_eq_some_iff.mp h
  obtain ⟨hcode, rfl⟩ | ⟨rfl, hmsgsize, hcapacity, helements⟩ := MessageQueue.sendMessage_cases hsend
  · left
    have hsame : { s.source with sourceQueue := some p } = s.source := by rw [← hp]
    simp only [if_neg hcode, hsame]
  · right
    exact ⟨p, r.mq, _, hp, hmsgsize, hcapacity, helements, by simp only [if_true]⟩

theorem receive_cases {j : Nat} {now : ClockTime} {msgPtr : Nat → Byte} {timeOut : Int}
    (h : step url s (.receive j now msgPtr timeOut) = some t) :
    t = s ∨ ∃ q, ∃ mq : PosixQueue, ∃ msg, s.destination.destinationQueueVector[j]? = some q ∧
      mq.msgsize = q.mq.msgsize ∧ mq.capacity = q.mq.capacity ∧
      q.mq.elements = msg :: mq.elements ∧
      t = { s with
        destination := { s.destination with
          destinationQueueVector := s.destination.destinationQueueVector.set j { q with mq } }
        taken := Function.update s.taken j (s.taken j ++ [msg]) } := by
  obtain ⟨q, hq, h⟩ := Option.bind_eq_some_iff.mp h
  obtain ⟨r, hreceive, rfl⟩ := Option.map_eq_some_iff.mp h
  obtain ⟨hcode, hqueue⟩ | ⟨hcode, hmsgsize, hcapacity, msg, hlength, hread, helements⟩ :=
    MessageQueue.receiveMessage_cases hreceive
  · left
    obtain ⟨hj, rfl⟩ := List.getElem?_eq_some_iff.mp hq
    have hset : s.destination.destinationQueueVector.set j
        { s.destination.destinationQueueVector[j] with mq := r.queue.mq } =
          s.destination.destinationQueueVector := by
      rw [hqueue]
      exact List.set_getElem_self hj
    simp only [if_neg hcode, hset]
  · right
    refine ⟨q, r.queue.mq, msg, hq, hmsgsize, hcapacity, helements, ?_⟩
    simp only [if_pos hcode, hlength, Option.getD_some, Int.toNat_natCast, hread]

/-- What a move at the sending end does: all that waits at the source goes to the
    network, in that order. -/
theorem Flow.moveSource_cases (hs : Flow url s) {sends : Nat → Bool}
    {clock : Nat → Nat → ClockTime} (h : step url s (.moveSource sends clock) = some t) :
    ∃ source, t = { s with source, link := s.link.send s.waiting } ∧ t.waiting = [] ∧
      Joined url t := by
  obtain ⟨p, hbuilt, hsize, hfits⟩ := hs.source
  have hwaiting : s.waiting = p.mq.elements := by
    rw [Modules.waiting, hbuilt.sourceQueue, Option.map_some, Option.getD_some]
  -- Every destination has the maximum size of the source, so it refuses no message as too long.
  have hlocal : ∀ m ∈ p.mq.elements, ∀ q ∈ s.source.destinationQueueVector,
      (m.length : Int) ≤ q.qMaxMessageSize := by
    intro m hm q hq
    have hmsgsize := hbuilt.opened.1.size
    have hle := p.mq.fits m hm
    have := hfits q hq
    omega
  obtain ⟨r, p', hmoved, hp', hempty, -, hsent⟩ :=
    QueueChannel.moveMessages_drains hbuilt (Or.inr hs.sender) hlocal clock []
  obtain ⟨hchannel, ⟨p'', hp'', hsame⟩, hqueues⟩ :=
    QueueChannel.moveMessages_same hbuilt.receiver hbuilt.sourceQueue hmoved
  obtain rfl : p' = p'' := Option.some.inj (hp'.symm.trans hp'')
  have hto : sentTo url r.sent = s.waiting := by
    rw [hsent, QueueChannel.datagrams, if_pos hs.sender, sentTo_flatMap hs.address, hwaiting]
  obtain ⟨r', hover, rfl⟩ := Option.map_eq_some_iff.mp h
  obtain rfl : r = r' :=
    Option.some.inj (hmoved.symm.trans (QueueChannel.moveMessages_of_over hover))
  refine ⟨r.channel, by rw [hto], ?_, ⟨⟨p', ⟨?_, ?_, hp', ?_, ?_⟩, ?_, ?_⟩, ?_, ?_, hs.receiver,
    hs.representable⟩⟩
  · simp only [Modules.waiting, hp', Option.map_some, Option.getD_some, hempty]
  · rw [hchannel]
    exact hbuilt.initialized
  · rw [hchannel]
    exact hbuilt.receiver
  · refine ⟨hsame.opened hbuilt.opened.1, ?_⟩
    rw [hsame.port]
    exact hbuilt.opened.2
  · refine QueueChannel.sameQueues_forall hqueues (fun q q' hq hkept => ?_) hbuilt.destinations
    refine ⟨hq.opened hkept.1, ?_⟩
    rw [hq.port]
    exact hkept.2
  · rw [hsame.port]
    exact hsize
  · rw [hsame.port]
    refine QueueChannel.sameQueues_forall hqueues (fun q q' hq hle => ?_) hfits
    rw [hq.port]
    exact hle
  · rw [hchannel]
    exact hs.sender
  · rw [hchannel]
    exact hs.address

/-- What a move at the receiving end does: it takes the datagrams it may take and offers
    each to every destination. -/
theorem Flow.moveDestination_cases (hs : Flow url s) {clock : Nat → Nat → ClockTime}
    (h : step url s (.moveDestination clock) = some t) :
    ∃ destination n, t = { s with destination, link := s.link.take n } ∧
      destination.receiver = s.destination.receiver ∧
      destination.maxSizeofmessage = s.destination.maxSizeofmessage ∧
      s.link.pending.take n = s.destination.toMove s.link.pending ∧
      destination.places = s.destination.places.map
        (·.offerAll (s.destination.toMove s.link.pending)) := by
  obtain ⟨r, hmove, hmoves⟩ := s.destination.moveMessages_moves clock s.link.pending
  have hchannel := QueueChannel.moveMessages_channel hs.receiver hmove
  rw [step, hmove, Option.map_some] at h
  obtain rfl := Option.some.inj h
  refine ⟨r.channel, _, rfl, by rw [hchannel], by rw [hchannel], ?_, hmoves.places⟩
  -- no datagram is cut
  have hwhole : ∀ d ∈ s.link.pending.take (s.link.pending.length - r.pending.length),
      d.take (MessageQueue.sizeT s.destination.maxSizeofmessage) = d := by
    intro d hd
    have hfits := hs.fits d (Link.mem_of_mem_pending (List.mem_of_mem_take hd))
    have hrepresentable := hs.representable
    apply List.take_of_length_le
    unfold MessageQueue.sizeT
    omega
  rw [← hmoves.taken, QueueChannel.taken, if_neg (by simp [hs.receiver]), QueueChannel.receivedFrom,
    List.map_congr_left hwhole, List.map_id']

omit [DecidableEq U] in
theorem queue_of_places {c c' : QueueChannel U} {ms : List (List Byte)}
    (h : c'.places = c.places.map (·.offerAll ms)) {j : Nat} {q' : MessageQueue}
    (hq' : c'.destinationQueueVector[j]? = some q') :
    ∃ q, c.destinationQueueVector[j]? = some q ∧ q'.mq.elements = (q.place.offerAll ms).held := by
  have hplace : c'.places[j]? = some q'.place := by
    rw [QueueChannel.places, List.getElem?_map, hq', Option.map_some]
  rw [h, List.getElem?_map] at hplace
  obtain ⟨p, hp, heq⟩ := Option.map_eq_some_iff.mp hplace
  rw [QueueChannel.places, List.getElem?_map] at hp
  obtain ⟨q, hq, rfl⟩ := Option.map_eq_some_iff.mp hp
  exact ⟨q, hq, congrArg Place.held heq.symm⟩

/-- With a receive a message goes from the queue to the partition, and what the two have
    had stays the same. -/
theorem receive_same {j : Nat} {now : ClockTime} {msgPtr : Nat → Byte} {timeOut : Int}
    (h : step url s (.receive j now msgPtr timeOut) = some t) {i : Nat} {r : MessageQueue}
    (hr : t.destination.destinationQueueVector[i]? = some r) :
    ∃ r₀, s.destination.destinationQueueVector[i]? = some r₀ ∧
      t.taken i ++ r.mq.elements = s.taken i ++ r₀.mq.elements := by
  obtain rfl | ⟨q, mq, msg, hq, -, -, helements, rfl⟩ := receive_cases h
  · exact ⟨r, hr, rfl⟩
  have hr : (s.destination.destinationQueueVector.set j { q with mq })[i]? = some r := hr
  by_cases hi : i = j
  · subst hi
    obtain ⟨hlt, -⟩ := List.getElem?_eq_some_iff.mp hq
    rw [List.getElem?_set_self hlt] at hr
    obtain rfl := Option.some.inj hr
    refine ⟨q, hq, ?_⟩
    show Function.update s.taken i (s.taken i ++ [msg]) i ++ mq.elements = _
    rw [Function.update_self, helements, List.append_assoc]
    rfl
  · rw [List.getElem?_set_ne (Ne.symm hi)] at hr
    refine ⟨r, hr, ?_⟩
    show Function.update s.taken j (s.taken j ++ [msg]) i ++ r.mq.elements = _
    rw [Function.update_of_ne hi]

theorem flow_step {op : Op} (hs : Flow url s) (h : step url s op = some t) : Flow url t := by
  -- Only the two moves and the arrivals touch the link; a send and a receive shift messages
  -- between what waits and what counts as sent or taken.
  cases op with
  | send now msgPtr length timeOut =>
    obtain rfl | ⟨p, mq, msg, hp, hmsgsize, hcapacity, helements, rfl⟩ := send_cases h
    · exact hs
    obtain ⟨p₀, hbuilt, hsize, hfits⟩ := hs.source
    obtain rfl : p = p₀ := Option.some.inj (hp.symm.trans hbuilt.sourceQueue)
    have hopened : MessageQueue.Opened { p with mq } :=
      hbuilt.opened.1.received p.internalBuffer hmsgsize hcapacity
    refine ⟨⟨⟨{ p with mq }, ⟨hbuilt.initialized, hbuilt.receiver, rfl, ⟨hopened, hbuilt.opened.2⟩,
      hbuilt.destinations⟩, hsize, hfits⟩, hs.sender, hs.address, hs.receiver, hs.representable⟩, ?_,
      hs.fits, hs.delivered⟩
    have hsent := hs.sent
    simp only [Modules.waiting, hp, Option.map_some, Option.getD_some] at hsent ⊢
    rw [hsent, helements, List.append_assoc]
  | moveSource sends clock =>
    obtain ⟨source, rfl, hempty, hjoined⟩ := hs.moveSource_cases h
    refine ⟨hjoined, ?_, ?_, ?_⟩
    · rw [hempty, List.append_nil]
      exact hs.sent
    · intro d hd
      obtain hd | hd := List.mem_append.mp hd
      · exact hs.fits d hd
      · obtain ⟨p, hbuilt, hsize, -⟩ := hs.source
        rw [Modules.waiting, hbuilt.sourceQueue, Option.map_some, Option.getD_some] at hd
        have hmsgsize := hbuilt.opened.1.size
        have hle := p.mq.fits d hd
        show (d.length : Int) ≤ s.destination.maxSizeofmessage
        omega
    · intro j q hq
      rw [Link.received_send]
      exact hs.delivered j q hq
  | arrive i =>
    obtain ⟨link, hlink, rfl⟩ := Option.map_eq_some_iff.mp h
    obtain ⟨_, -, hsent, -⟩ := Link.arrive_some hlink
    refine ⟨⟨hs.source, hs.sender, hs.address, hs.receiver, hs.representable⟩, ?_, ?_, ?_⟩
    · rw [hsent]
      exact hs.sent
    · rw [hsent]
      exact hs.fits
    · intro j q hq
      rw [Link.received_arrive hlink]
      exact hs.delivered j q hq
  | moveDestination clock =>
    obtain ⟨destination, n, rfl, hreceiver, hsize, htaken, hplaces⟩ := hs.moveDestination_cases h
    obtain ⟨p, hbuilt, hmax, hfits⟩ := hs.source
    refine ⟨⟨⟨p, hbuilt, ?_, hfits⟩, hs.sender, hs.address, hreceiver.trans hs.receiver, ?_⟩,
      hs.sent, ?_, ?_⟩
    · rw [hsize]
      exact hmax
    · rw [hsize]
      exact hs.representable
    · rw [hsize]
      exact hs.fits
    · intro j q' hq'
      obtain ⟨q, hq, helements⟩ := queue_of_places hplaces hq'
      rw [helements, Place.offerAll_held, Link.received_take, htaken, ← List.append_assoc]
      -- What the move offers is the part of the arrivals that it takes from the link.
      exact (hs.delivered j q hq).append
        ((List.take_sublist _ _).trans (List.filter_sublist (p := q.place.admissible)))
  | receive j now msgPtr timeOut =>
    have hdelivered : ∀ i r, t.destination.destinationQueueVector[i]? = some r →
        (t.taken i ++ r.mq.elements).Sublist s.link.received := by
      intro i r hr
      obtain ⟨r₀, hr₀, heq⟩ := receive_same h hr
      rw [heq]
      exact hs.delivered i r₀ hr₀
    obtain rfl | ⟨q, mq, msg, -, -, -, -, rfl⟩ := receive_cases h
    · exact hs
    · exact ⟨⟨hs.source, hs.sender, hs.address, hs.receiver, hs.representable⟩, hs.sent, hs.fits,
        hdelivered⟩

/-- A step after which the destinations have lost nothing, where they had not before, is
    one that finds room. -/
theorem lossless_step {op : Op} (hs : Flow url s) (hlossless : Lossless s)
    (h : step url s op = some t) : Lossless t ↔ Roomy s op := by
  cases op with
  | send now msgPtr length timeOut =>
    refine iff_of_true ?_ trivial
    obtain rfl | ⟨_, _, _, -, -, -, -, rfl⟩ := send_cases h
    · exact hlossless
    · exact hlossless
  | moveSource sends clock =>
    refine iff_of_true ?_ trivial
    obtain ⟨source, rfl, -, -⟩ := hs.moveSource_cases h
    intro j q hq
    rw [Link.received_send]
    exact hlossless j q hq
  | arrive i =>
    refine iff_of_true ?_ trivial
    obtain ⟨link, hlink, rfl⟩ := Option.map_eq_some_iff.mp h
    intro j q hq
    rw [Link.received_arrive hlink]
    exact hlossless j q hq
  | moveDestination clock =>
    obtain ⟨destination, n, rfl, -, -, htaken, hplaces⟩ := hs.moveDestination_cases h
    let ms := s.destination.toMove s.link.pending
    have hreceived : (s.link.take n).received = s.link.received ++ ms := by
      rw [Link.received_take, htaken]
    -- a destination has lost nothing just when its place has admitted everything
    have hone : ∀ q : MessageQueue, (q.place.offerAll ms).held = q.mq.elements ++ ms ↔
        ms = [] ∨ (∀ m ∈ ms, q.place.admissible m = true) ∧
          q.place.held.length + ms.length ≤ q.place.limit := fun q => Place.offerAll_complete_iff
    constructor
    · intro hafter
      by_cases hnone : ms = []
      · exact Or.inl hnone
      · right
        intro p hp
        obtain ⟨q, hq, rfl⟩ := List.mem_map.mp hp
        obtain ⟨j, hj⟩ := List.mem_iff_getElem?.mp hq
        have hlength : destination.destinationQueueVector.length =
            s.destination.destinationQueueVector.length := by
          simpa [QueueChannel.places] using congrArg List.length hplaces
        obtain ⟨q', hq'⟩ : ∃ q', destination.destinationQueueVector[j]? = some q' := by
          obtain ⟨hlt, -⟩ := List.getElem?_eq_some_iff.mp hj
          exact ⟨_, List.getElem?_eq_getElem (hlength ▸ hlt)⟩
        obtain ⟨q₀, hq₀, helements⟩ := queue_of_places hplaces hq'
        obtain rfl := Option.some.inj (hj.symm.trans hq₀)
        refine ((hone q).mp ?_).resolve_left hnone
        rw [← helements]
        have hsame : s.taken j ++ q'.mq.elements = s.taken j ++ (q.mq.elements ++ ms) := by
          rw [← List.append_assoc, hlossless j q hj, ← hreceived]
          exact hafter j q' hq'
        exact List.append_cancel_left hsame
    · intro hroomy j q' hq'
      obtain ⟨q, hq, helements⟩ := queue_of_places hplaces hq'
      have hroom : ms = [] ∨ (∀ m ∈ ms, q.place.admissible m = true) ∧
          q.place.held.length + ms.length ≤ q.place.limit :=
        hroomy.imp_right fun hall =>
          hall q.place (List.mem_map_of_mem (List.mem_of_getElem? hq))
      rw [helements, (hone q).mpr hroom, hreceived, ← List.append_assoc, hlossless j q hq]
  | receive j now msgPtr timeOut =>
    refine iff_of_true ?_ trivial
    have hlink : t.link = s.link := by
      obtain rfl | ⟨_, _, _, -, -, -, -, rfl⟩ := receive_cases h
      · rfl
      · rfl
    intro i r hr
    obtain ⟨r₀, hr₀, heq⟩ := receive_same h hr
    rw [heq, hlink]
    exact hlossless i r₀ hr₀

/-! ## Runs -/

theorem Start.flow (hs : Start url s) : Flow url s ∧ Lossless s := by
  obtain ⟨hlink, hsent, htaken⟩ := hs.idle
  have hnothing : ∀ j q, s.destination.destinationQueueVector[j]? = some q →
      s.taken j ++ q.mq.elements = [] := by
    intro j q hq
    rw [htaken, hs.queues q (List.mem_of_getElem? hq)]
    rfl
  refine ⟨⟨hs.toJoined, ?_, ?_, ?_⟩, ?_⟩
  · rw [hsent, hlink, hs.waiting]
    rfl
  · intro d hd
    rw [hlink] at hd
    cases hd
  · intro j q hq
    rw [hnothing j q hq]
    exact List.nil_sublist _
  · intro j q hq
    rw [hnothing j q hq, hlink]
    rfl

theorem flow_run {ops : List Op} (hs : Start url s) (h : run (step url) s ops = some t) :
    Flow url t :=
  run_invariant (fun _ _ _ => flow_step) hs.flow.1 h

/-- A source for two messages of 4 bytes whose channel has two addresses, and a channel
    at the second with one destination for two messages. -/
def twoModules : Modules Nat where
  source := ⟨true, some QueueChannel.emptyPort, [], true, false, 4, 1, [1, 2], fun _ => 0⟩
  link := Link.idle
  destination := ⟨true, none, [QueueChannel.emptyPort], false, true, 4, 2, [], fun _ => 0⟩
  sent := []
  taken _ := []

theorem twoModules_start : Start 2 twoModules where
  source := ⟨_, ⟨rfl, rfl, rfl, ⟨QueueChannel.portOf_opened _ _, rfl⟩, by simp [twoModules]⟩, by decide,
    by simp [twoModules]⟩
  sender := rfl
  address := rfl
  receiver := rfl
  representable := by decide
  waiting := rfl
  queues := List.forall_mem_singleton.mpr rfl
  idle := ⟨rfl, rfl, rfl⟩

theorem clockZero_normalized : (⟨0, 0⟩ : Timespec).Normalized := Timespec.normalized_second 0

/-- The clock at its beginning. -/
def clockZero : ClockTime := ⟨⟨0, 0⟩, clockZero_normalized⟩

/-- Two messages are sent and moved, and the first is lost. -/
def firstLost : List Op :=
  [.send clockZero (ofList [1, 2] 0) 2 0, .send clockZero (ofList [3] 0) 1 0,
    .moveSource (fun _ => true) fun _ _ => clockZero, .arrive 1, .moveDestination fun _ _ => clockZero,
    .receive 0 clockZero (fun _ => 0) 0]

/-- Two messages are moved, another is sent behind them, and the first of them arrives. -/
def firstArrived : List Op :=
  [.send clockZero (ofList [1, 2] 0) 2 0, .send clockZero (ofList [3] 0) 1 0,
    .moveSource (fun _ => true) fun _ _ => clockZero, .send clockZero (ofList [4] 0) 1 0, .arrive 0,
    .moveDestination fun _ _ => clockZero]

end

end Arinc.QueueingLink
