import ArincEmulator.Lib.Datagrams
import ArincEmulator.SamplingFreshness

/- Sampling between modules. A partition writes the source port of a channel, the
   network partition of its module moves the channel and so sends the contents of the
   port in a datagram, and the network partition of another module moves the channel
   at the other end, which takes datagrams in the order of their arrival and leaves the
   contents of each in all its destinations. Between the two lies a network that can
   lose, repeat and reorder. A write and a move are one step here, so these are runs in
   which no window is closed in the middle of one; how a write is cut is in
   `SamplingWrite`.

   What is proved: whatever the network does, every destination holds one message of
   the source as it was written, namely what the source held at the move whose datagram
   was taken last, no move of the receiving end fails its assertion, and a move of the
   sending end returns just when all its sends go through (`sampling_between_modules`);
   the exception of one that does not ends the network partition, and the run with it.
   Where the network keeps the order, no destination ever goes back to an older message,
   and a move that finds no more datagrams than it may take brings the destinations up
   to the last arrival (`sampling_in_order`). -/
namespace Arinc.SamplingLink
open Memory Runs Datagrams SamplingPacket

/-! ## The two ends -/

/-- The channel of the sending module, the way to one of its addresses, and the channel
    of the receiving module. On the side: all that the source port has held, the oldest
    first, and for each datagram sent the place there of what it carries. -/
structure Modules (U : Type*) where
  source : SamplingChannel U
  link : Link (List Byte)
  destination : SamplingChannel U
  written : List SamplingData
  moved : List Nat

/-- A write to the source port, a move at either end, and the arrival of a datagram that
    was sent. `sends k` says whether the `k`-th `sendTo` of the move goes through. -/
inductive Op where
  | write (now : NanoTime) (msgPtr : Nat → Byte) (length : BitVec 64)
  | moveSource (sends : Nat → Bool)
  | arrive (i : Nat)
  | moveDestination

variable {U : Type*} [DecidableEq U]

def step (url : U) (s : Modules U) : Op → Option (Modules U)
  | .write now msgPtr length =>
    s.source.sourcePort.bind fun p =>
      (p.writeSamplingMessage now msgPtr length).map fun (code, p) =>
        { s with
          source := { s.source with sourcePort := some p }
          written := if code = .noError then s.written ++ [⟨now, length, msgPtr⟩] else s.written }
  | .moveSource sends =>
    (s.source.moveMessagesOver sends []).map fun r =>
      let ds := sentTo url r.sent
      { s with
        source := r.channel
        link := s.link.send ds
        moved := s.moved ++ ds.map fun _ => s.written.length - 1 }
  | .arrive i => (s.link.arrive i).map fun link => { s with link }
  | .moveDestination =>
    (s.destination.moveMessages s.link.pending).map fun r =>
      { s with
        destination := r.channel
        link := s.link.take (s.link.pending.length - r.pending.length) }

/-- The place in `written` of what was taken last. -/
def Modules.version (s : Modules U) : Option Nat := s.link.lastTaken.bind (s.moved[·]?)

/-- What a reader of a port that holds a message of some bytes gets. -/
def Reads (q : SamplingPort) (m : SamplingData) : Prop :=
  ∀ (reader : Reader) (now : NanoTime) (msgPtr : Nat → Byte),
    let reading := q.readSamplingMessage reader now msgPtr
    reading.returnCode = .noError ∧ reading.length = some m.messageSize ∧
      read reading.msgPtr 0 m.count = read m.data 0 m.count ∧
      (reading.validity = some .valid ↔
        now.val.toInt - m.absoluteTimeWritten.toInt ≤ reader.refreshPeriod)

/-- The ends as the module managers build them: the source and the destinations have
    one maximum size, and the receiver is once among the addresses of the sender. -/
structure Joined (url : U) (maxMessageSize : Int) (s : Modules U) : Prop where
  limit : maxMessageSize ≤ systemLimitMaxSamplingMessageSize
  source : ∃ p, s.source.Sends p ∧ p.maxMessageSize = maxMessageSize ∧ p.readyOrNot = true ∧
    p.portDirection ≠ .portDest
  address : s.source.destinationUrlVector.count url = 1
  destination : s.destination.initialized = true ∧ s.destination.receiver = true
  ports : ∀ q ∈ s.destination.destinationPortVector, q.maxMessageSize = maxMessageSize ∧
    q.readyOrNot = true ∧ q.portDirection ≠ .portSource

/-- Before the first step: the source is empty, as `ADD_SOURCE` leaves it, and nothing
    has been sent. -/
structure Start (url : U) (maxMessageSize : Int) (s : Modules U) : Prop extends
    Joined url maxMessageSize s where
  size : 0 ≤ maxMessageSize
  empty : ∃ p, s.source.sourcePort = some p ∧ s.written = [p.sharedMemory] ∧
    p.sharedMemory.absoluteTimeWritten = 0 ∧ p.sharedMemory.messageSize = 0
  idle : s.link = Link.idle ∧ s.moved = []

/-- What every run keeps: the source holds what was written last; each datagram is the
    packet of its place in `written`, and the places rise; and the destinations hold
    what the datagram taken last carries. -/
structure Flow (url : U) (maxMessageSize : Int) (s : Modules U) : Prop extends
    Joined url maxMessageSize s where
  held : ∃ p m, s.source.sourcePort = some p ∧ s.written.getLast? = some m ∧ p.Holds m
  fits : ∀ m ∈ s.written, Fits m maxMessageSize ∧ 0 ≤ m.absoluteTimeWritten.toInt
  sent : List.Forall₂ (fun d k => ∃ m, s.written[k]? = some m ∧ d = packet m) s.link.sent s.moved
  rising : s.moved.Pairwise (· ≤ ·)
  delivered : ∀ i d, s.link.lastTaken = some i → s.link.sent[i]? = some d →
    ∀ q ∈ s.destination.destinationPortVector, packet q.sharedMemory = d

/-! ## Packets -/

/-- A port holds a message just when its contents make the same packet. -/
theorem holds_iff {q : SamplingPort} {m : SamplingData} :
    q.Holds m ↔ packet q.sharedMemory = packet m := by
  constructor
  · rintro ⟨htime, hsize, hmessage⟩
    have hcount : q.sharedMemory.count = m.count := congrArg BitVec.toNat hsize
    rw [packet, packet, htime, hsize, hcount, hmessage]
  · intro h
    have hbuffer : read (ofList (packet m) 0) 0 (packet m).length = packet m := read_ofList _ _
    obtain ⟨htime, hsize, hdata⟩ := of_read_packet hbuffer
    rw [← h] at hbuffer
    obtain ⟨htime', hsize', hdata'⟩ := of_read_packet hbuffer
    rw [h] at htime' hsize' hdata'
    have hsame : q.sharedMemory.messageSize = m.messageSize := hsize'.symm.trans hsize
    have hcount : q.sharedMemory.count = m.count := congrArg BitVec.toNat hsame
    refine ⟨htime'.symm.trans htime, hsame, read_congr fun i hi => ?_⟩
    rw [Nat.zero_add]
    exact (hdata' i (by omega)).symm.trans (hdata i hi)

/-- What a move at the receiving end leaves of the channel. -/
structure SameChannel (c c' : SamplingChannel U) : Prop where
  initialized : c'.initialized = c.initialized
  receiver : c'.receiver = c.receiver
  rounds : c'.maxSocketMessage = c.maxSocketMessage
  ports : ∀ q' ∈ c'.destinationPortVector, ∃ q ∈ c.destinationPortVector,
    q' = { q with sharedMemory := q'.sharedMemory }

omit [DecidableEq U] in
/-- The rounds of the receiving loop take as many datagrams as they may, and leave the
    last of them in all destinations. The induction is on the rounds. -/
theorem receiveRounds_packets {maxMessageSize : Int} (times : Nat) {pending : List (List Byte)}
    (c : SamplingChannel U)
    (hpending : ∀ d ∈ pending, ∃ m, d = packet m ∧ Fits m maxMessageSize) :
    ∃ c', c.receiveRounds times pending = some (c', pending.drop times) ∧ SameChannel c c' ∧
      (pending.take times = [] → c'.destinationPortVector = c.destinationPortVector) ∧
      ∀ d, (pending.take times).getLast? = some d →
        ∀ q ∈ c'.destinationPortVector, packet q.sharedMemory = d := by
  have unchanged : SameChannel c c := ⟨rfl, rfl, rfl, fun q hq => ⟨q, hq, rfl⟩⟩
  induction times generalizing c pending with
  | zero => exact ⟨c, rfl, unchanged, fun _ => rfl, by simp⟩
  | succ times ih =>
    cases pending with
    | nil => exact ⟨c, rfl, unchanged, fun _ => rfl, by simp⟩
    | cons d pending =>
      obtain ⟨⟨m, rfl, hfits⟩, hrest⟩ := List.forall_mem_cons.mp hpending
      obtain ⟨dataBuffer, hone⟩ := c.receiveOne_packet hfits
      obtain ⟨c', hloop, hsame, hnone, hlast⟩ := ih
        { c with
          dataBuffer
          destinationPortVector := c.destinationPortVector.map fun q => q.deliver m } hrest
        ⟨rfl, rfl, rfl, fun q hq => ⟨q, hq, rfl⟩⟩
      refine ⟨c', ?_, ⟨hsame.initialized, hsame.receiver, hsame.rounds, ?_⟩, by simp, ?_⟩
      · rw [SamplingChannel.receiveRounds, hone, Option.bind_some, hloop, List.drop_succ_cons]
      · intro q' hq'
        obtain ⟨q₁, hq₁, heq⟩ := hsame.ports q' hq'
        obtain ⟨q, hq, rfl⟩ := List.mem_map.mp hq₁
        exact ⟨q, hq, heq⟩
      · intro d hd q hq
        rw [List.take_succ_cons] at hd
        -- The last datagram taken is this one, or the last of those after it.
        obtain hempty | ⟨front, d', hfront⟩ := List.eq_nil_or_concat' (pending.take times)
        · rw [hempty, List.getLast?_singleton] at hd
          obtain rfl := Option.some.inj hd
          rw [hnone hempty] at hq
          obtain ⟨q₀, -, rfl⟩ := List.mem_map.mp hq
          exact holds_iff.mp (q₀.deliver_holds m)
        · apply hlast d _ q hq
          rw [hfront, ← List.cons_append, List.getLast?_concat] at hd
          rw [hfront, List.getLast?_concat, hd]

/-! ## One step -/

section
variable {url : U} {maxMessageSize : Int} {s t : Modules U}

theorem write_cases {now : NanoTime} {msgPtr : Nat → Byte} {length : BitVec 64}
    (h : step url s (.write now msgPtr length) = some t) :
    t = s ∨ ∃ p p', s.source.sourcePort = some p ∧ p' = { p with sharedMemory := p'.sharedMemory } ∧
      p'.Holds ⟨now, length, msgPtr⟩ ∧ 0 ≤ length.toInt ∧ length.toInt ≤ p.maxMessageSize ∧
      t = { s with
        source := { s.source with sourcePort := some p' }
        written := s.written ++ [⟨now, length, msgPtr⟩] } := by
  obtain ⟨p, hp, h⟩ := Option.bind_eq_some_iff.mp h
  obtain ⟨⟨code, p'⟩, hwrite, rfl⟩ := Option.map_eq_some_iff.mp h
  obtain ⟨hcode, rfl⟩ | ⟨rfl, hnonneg, hle, hp'⟩ := SamplingPort.writeSamplingMessage_cases hwrite
  · left
    have hsame : { s.source with sourcePort := some p' } = s.source := by rw [← hp]
    simp only [if_neg hcode, hsame]
  · right
    refine ⟨p, p', hp, ?_, ?_, hnonneg, hle, by simp only [if_true]⟩
    · rw [hp']
    · rw [hp']
      exact ⟨rfl, rfl, read_copy (Nat.le_refl length.toNat)⟩

/-- What a move at the sending end does: the packet of the source is sent to the
    receiver, and the source stays as it is. -/
theorem Joined.moveSource_eq (hs : Joined url maxMessageSize s) {p : SamplingPort}
    (hp : s.source.sourcePort = some p) (hfits : Fits p.sharedMemory maxMessageSize)
    {sends : Nat → Bool} (h : step url s (.moveSource sends) = some t) :
    ∃ source, source.Sends p ∧ source.destinationUrlVector = s.source.destinationUrlVector ∧
      t = { s with
        source
        link := s.link.send [packet p.sharedMemory]
        moved := s.moved ++ [s.written.length - 1] } := by
  obtain ⟨p', hsends, rfl, -⟩ := hs.source
  obtain rfl : p = p' := Option.some.inj (hp.symm.trans hsends.source)
  have hsome : ¬ (s.source.destinationPortVector = [] ∧ s.source.sender = false) := by
    simp [hsends.sender]
  obtain ⟨r, hmove, hsource, hsent, -⟩ := SamplingChannel.moveMessages_source hsends hfits []
  have hr : r = s.source.moveFrom p [] := by
    rw [SamplingChannel.moveMessages_from hsends.initialized hsends.receiver hsends.source hsome]
      at hmove
    exact (Option.some.inj hmove).symm
  have hto : sentTo url r.sent = [packet p.sharedMemory] := by
    rw [hsent, sentTo_map, hs.address]
    rfl
  refine ⟨r.channel, ⟨?_, hsource, ?_, ?_⟩, ?_, ?_⟩
  · rw [hr, (SamplingSystem.moveFrom_channel _ _ _).1, hsends.initialized]
  · rw [hr, SamplingChannel.moveFrom, if_pos hsends.sender]
    exact hsends.sender
  · rw [hr, (SamplingSystem.moveFrom_channel _ _ _).2.1, hsends.receiver]
  · rw [hr, SamplingChannel.moveFrom, if_pos hsends.sender]
  · rw [step, SamplingChannel.moveMessagesOver_from hsends.initialized hsends.receiver hsends.source
      hsome] at h
    split at h
    · rw [← hr, Option.map_some] at h
      obtain rfl := Option.some.inj h
      simp only [hto, List.map_cons, List.map_nil]
    · cases h

theorem Flow.pending (hs : Flow url maxMessageSize s) :
    ∀ d ∈ s.link.pending, ∃ m, d = packet m ∧ Fits m maxMessageSize := by
  intro d hd
  obtain ⟨i, hi, hget⟩ := List.mem_iff_getElem.mp (Link.mem_of_mem_pending hd)
  obtain ⟨hlength, hpaired⟩ := List.forall₂_iff_get.mp hs.sent
  obtain ⟨m, hm, hpacket⟩ := hpaired i hi (hlength ▸ hi)
  exact ⟨m, hget ▸ hpacket, (hs.fits m (List.mem_of_getElem? hm)).1⟩

/-- What a move at the receiving end does: it takes as many datagrams as it may, and
    leaves the last of them in every destination. -/
theorem Flow.moveDestination_eq (hs : Flow url maxMessageSize s) :
    ∃ destination n, step url s .moveDestination =
        some { s with destination, link := s.link.take n } ∧
      SameChannel s.destination destination ∧
      (s.destination.destinationPortVector ≠ [] → n = min s.destination.maxSocketMessage
        s.link.pending.length) ∧
      (s.link.pending.take n = [] →
        destination.destinationPortVector = s.destination.destinationPortVector) ∧
      ∀ d, (s.link.pending.take n).getLast? = some d →
        ∀ q ∈ destination.destinationPortVector, packet q.sharedMemory = d := by
  obtain ⟨hinitialized, hreceiver⟩ := hs.destination
  by_cases hnone : s.destination.destinationPortVector = []
  · refine ⟨s.destination, 0, ?_, ⟨rfl, rfl, rfl, fun q hq => ⟨q, hq, rfl⟩⟩,
      fun hsome => absurd hnone hsome, fun _ => rfl, by simp⟩
    rw [step, SamplingChannel.moveMessages_nowhere hinitialized hreceiver hnone, Option.map_some,
      Nat.sub_self]
  · obtain ⟨c', hloop, hsame, hempty, hlast⟩ :=
      receiveRounds_packets s.destination.maxSocketMessage s.destination hs.pending
    have htaken : s.link.pending.take (min s.destination.maxSocketMessage s.link.pending.length) =
        s.link.pending.take s.destination.maxSocketMessage := (List.take_eq_take_min ..).symm
    refine ⟨c', min s.destination.maxSocketMessage s.link.pending.length, ?_, hsame, fun _ => rfl,
      ?_, ?_⟩
    · rw [step, SamplingChannel.moveMessages_receiving hinitialized hreceiver hnone, hloop,
        Option.map_some, Option.map_some]
      simp only [List.length_drop]
      congr 3
      omega
    · rw [htaken]
      exact hempty
    · rw [htaken]
      exact hlast

theorem flow_step {op : Op} (hs : Flow url maxMessageSize s) (h : step url s op = some t) :
    Flow url maxMessageSize t := by
  cases op with
  | write now msgPtr length =>
    obtain rfl | ⟨p, p', hp, hport, hholds, hnonneg, hle, rfl⟩ := write_cases h
    · exact hs
    obtain ⟨p₀, hsends, hmax, hready, hdirection⟩ := hs.source
    obtain rfl : p = p₀ := Option.some.inj (hp.symm.trans hsends.source)
    refine ⟨⟨hs.limit, ⟨p', ⟨hsends.initialized, rfl, hsends.sender, hsends.receiver⟩, ?_⟩,
      hs.address, hs.destination, hs.ports⟩, ⟨p', _, rfl, List.getLast?_concat, hholds⟩, ?_, ?_,
      hs.rising, hs.delivered⟩
    · rw [hport]
      exact ⟨hmax, hready, hdirection⟩
    · intro m hm
      obtain hm | hm := List.mem_append.mp hm
      · exact hs.fits m hm
      · rw [List.mem_singleton.mp hm]
        exact ⟨⟨hnonneg, hmax ▸ hle, hs.limit⟩, now.property⟩
    · refine hs.sent.imp fun d k ⟨m, hm, hd⟩ => ⟨m, ?_, hd⟩
      exact (List.getElem?_append_left (List.getElem?_eq_some_iff.mp hm).1).trans hm
  -- The datagram sent carries what the source holds, which is what was written last.
  | moveSource sends =>
    obtain ⟨p, m, hp, hm, hholds⟩ := hs.held
    have hfitsMessage := (hs.fits m (List.mem_of_getLast? hm)).1
    have hfits : Fits p.sharedMemory maxMessageSize :=
      ⟨by rw [hholds.size]; exact hfitsMessage.nonneg, by rw [hholds.size]; exact hfitsMessage.le_max,
        hs.limit⟩
    obtain ⟨source, hsends, hurls, rfl⟩ := hs.moveSource_eq hp hfits h
    obtain ⟨p₀, hsends₀, hp₀⟩ := hs.source
    obtain rfl : p = p₀ := Option.some.inj (hp.symm.trans hsends₀.source)
    have hlast : s.written[s.written.length - 1]? = some m := by
      rw [← List.getLast?_eq_getElem?, hm]
    refine ⟨⟨hs.limit, ⟨p, hsends, hp₀⟩, ?_, hs.destination, hs.ports⟩,
      ⟨p, m, hsends.source, hm, hholds⟩, hs.fits, ?_, ?_, ?_⟩
    · rw [hurls]
      exact hs.address
    · exact List.rel_append hs.sent
        (List.Forall₂.cons ⟨m, hlast, holds_iff.mp hholds⟩ List.Forall₂.nil)
    · refine List.pairwise_append.mpr ⟨hs.rising, List.pairwise_singleton _ _, ?_⟩
      intro k hk j hj
      obtain ⟨i, hi, rfl⟩ := List.mem_iff_getElem.mp hk
      obtain ⟨hlength, hpaired⟩ := List.forall₂_iff_get.mp hs.sent
      obtain ⟨m', hm', -⟩ := hpaired i (hlength ▸ hi) hi
      have hlt : s.moved[i] < s.written.length := (List.getElem?_eq_some_iff.mp hm').1
      rw [List.mem_singleton.mp hj]
      omega
    · intro i d hi hd
      rw [Link.lastTaken_send] at hi
      have hsame : (s.link.sent ++ [packet p.sharedMemory])[i]? = s.link.sent[i]? :=
        List.getElem?_append_left (Link.lastTaken_lt hi)
      exact hs.delivered i d hi (hsame.symm.trans hd)
  | arrive i =>
    obtain ⟨link, hlink, rfl⟩ := Option.map_eq_some_iff.mp h
    obtain ⟨_, -, hsent, -⟩ := Link.arrive_some hlink
    refine ⟨⟨hs.limit, hs.source, hs.address, hs.destination, hs.ports⟩, hs.held, hs.fits, ?_,
      hs.rising, ?_⟩
    · rw [hsent]
      exact hs.sent
    · intro j d hj hd
      rw [Link.lastTaken_arrive hlink] at hj
      rw [hsent] at hd
      exact hs.delivered j d hj hd
  | moveDestination =>
    obtain ⟨destination, n, hstep, hsame, -, hnone, hlast⟩ := hs.moveDestination_eq
    obtain rfl := Option.some.inj (hstep.symm.trans h)
    obtain ⟨hinitialized, hreceiver⟩ := hs.destination
    refine ⟨⟨hs.limit, hs.source, hs.address, ⟨hsame.initialized.trans hinitialized,
      hsame.receiver.trans hreceiver⟩, ?_⟩, hs.held, hs.fits, hs.sent, hs.rising, ?_⟩
    · intro q' hq'
      obtain ⟨q, hq, heq⟩ := hsame.ports q' hq'
      rw [heq]
      exact hs.ports q hq
    · intro i d hi hd
      obtain ⟨hnothing, hkept⟩ | ⟨j, d', hj, hd', htaken⟩ := s.link.lastTaken_take n
      · rw [hnone hnothing]
        exact hs.delivered i d (hkept ▸ hi) hd
      · obtain rfl : j = i := Option.some.inj (hj.symm.trans hi)
        obtain rfl : d' = d := Option.some.inj (hd'.symm.trans hd)
        exact hlast d' htaken

/-! ## Runs -/

theorem Start.flow (hs : Start url maxMessageSize s) : Flow url maxMessageSize s := by
  obtain ⟨p, hp, hwritten, htime, hsize⟩ := hs.empty
  obtain ⟨hlink, hmoved⟩ := hs.idle
  refine ⟨hs.toJoined, ⟨p, p.sharedMemory, hp, by rw [hwritten]; rfl, rfl, rfl, rfl⟩, ?_, ?_, ?_, ?_⟩
  · intro m hm
    rw [hwritten] at hm
    rw [List.mem_singleton.mp hm, htime]
    refine ⟨⟨?_, ?_, hs.limit⟩, by decide⟩
    · rw [hsize]
      decide
    · rw [hsize]
      exact hs.size
  · rw [hlink, hmoved]
    exact List.Forall₂.nil
  · rw [hmoved]
    exact List.Pairwise.nil
  · intro i d hi
    rw [hlink] at hi
    cases hi

theorem flow_run {ops : List Op} (hs : Start url maxMessageSize s)
    (h : run (step url) s ops = some t) : Flow url maxMessageSize t :=
  run_invariant (fun _ _ _ => flow_step) hs.flow h

/-- The destinations are as they were built until a datagram has been taken. -/
theorem untouched_run {ops : List Op} (hs : Start url maxMessageSize s)
    (h : run (step url) s ops = some t) :
    t.link.lastTaken = none →
      t.destination.destinationPortVector = s.destination.destinationPortVector := by
  have hkept : Flow url maxMessageSize t ∧ (t.link.lastTaken = none →
      t.destination.destinationPortVector = s.destination.destinationPortVector) := by
    refine run_invariant (I := fun u => Flow url maxMessageSize u ∧ (u.link.lastTaken = none →
      u.destination.destinationPortVector = s.destination.destinationPortVector)) ?_
      ⟨hs.flow, fun _ => rfl⟩ h
    rintro u op v ⟨hu, hsame⟩ hstep
    refine ⟨flow_step hu hstep, ?_⟩
    cases op with
    | write now msgPtr length =>
      obtain rfl | ⟨_, _, -, -, -, -, -, rfl⟩ := write_cases hstep
      · exact hsame
      · exact hsame
    | moveSource sends =>
      obtain ⟨r, -, rfl⟩ := Option.map_eq_some_iff.mp hstep
      exact hsame
    | arrive i =>
      obtain ⟨link, hlink, rfl⟩ := Option.map_eq_some_iff.mp hstep
      rw [Link.lastTaken_arrive hlink]
      exact hsame
    | moveDestination =>
      obtain ⟨destination, n, hstep', -, -, hnone, -⟩ := hu.moveDestination_eq
      obtain rfl := Option.some.inj (hstep'.symm.trans hstep)
      intro hlast
      obtain ⟨hnothing, hkept⟩ | ⟨j, _, hj, -⟩ := u.link.lastTaken_take n
      · rw [hnone hnothing]
        exact hsame (hkept ▸ hlast)
      · cases hj.symm.trans hlast
  exact hkept.2

theorem Flow.version_eq_none (hs : Flow url maxMessageSize s) (h : s.version = none) :
    s.link.lastTaken = none := by
  cases hi : s.link.lastTaken with
  | none => rfl
  | some i =>
    rw [Modules.version, hi, Option.bind_some, List.getElem?_eq_none_iff, ← hs.sent.length_eq] at h
    exact absurd (Link.lastTaken_lt hi) (Nat.not_lt.mpr h)

/-- The destinations show the version they have taken last. -/
theorem Flow.shows (hs : Flow url maxMessageSize s) {k : Nat} (hk : s.version = some k) :
    ∃ m, s.written[k]? = some m ∧ ∀ q ∈ s.destination.destinationPortVector, q.Holds m ∧
      (0 < m.messageSize.toInt → Reads q m) := by
  obtain ⟨i, hi, hki⟩ := Option.bind_eq_some_iff.mp hk
  obtain ⟨hlt, rfl⟩ := List.getElem?_eq_some_iff.mp hki
  obtain ⟨hlength, hpaired⟩ := List.forall₂_iff_get.mp hs.sent
  obtain ⟨m, hm, hd⟩ := hpaired i (hlength ▸ hlt) hlt
  refine ⟨m, hm, fun q hq => ?_⟩
  have hholds : q.Holds m :=
    holds_iff.mpr ((hs.delivered i _ hi (List.getElem?_eq_getElem (hlength ▸ hlt)) q hq).trans hd)
  obtain ⟨-, hready, hdirection⟩ := hs.ports q hq
  obtain ⟨-, htime⟩ := hs.fits m (List.mem_of_getElem? hm)
  exact ⟨hholds, fun hsize =>
    SamplingSystem.readSamplingMessage_holds hholds hready hdirection hsize htime⟩

/-- A source of 4 bytes whose channel has two addresses, and a channel at the second with
    two destinations that takes up to two datagrams in a move. -/
def twoModules : Modules Nat where
  source := ⟨true, some ⟨4, .portSourceDest, true, ⟨0, 0, fun _ => 0⟩⟩, [], true, false, 1, [1, 2],
    fun _ => 0⟩
  link := Link.idle
  destination := ⟨true, none, List.replicate 2 ⟨4, .portSourceDest, true, ⟨0, 0, fun _ => 0⟩⟩, false,
    true, 2, [], fun _ => 0⟩
  written := [⟨0, 0, fun _ => 0⟩]
  moved := []

theorem twoModules_start : Start 2 4 twoModules where
  limit := by decide
  source := ⟨_, ⟨rfl, rfl, rfl, rfl⟩, rfl, rfl, by decide⟩
  address := rfl
  destination := ⟨rfl, rfl⟩
  ports q hq := by
    rw [List.eq_of_mem_replicate hq]
    exact ⟨rfl, rfl, by decide⟩
  size := by decide
  empty := ⟨_, rfl, rfl, rfl, rfl⟩
  idle := ⟨rfl, rfl⟩

theorem seven_nonneg : 0 ≤ (7 : BitVec 64).toInt := by decide

theorem nine_nonneg : 0 ≤ (9 : BitVec 64).toInt := by decide

/-- Three bytes are written at 7. -/
def writeThree : Op := .write ⟨7, seven_nonneg⟩ (ofList [65, 67, 77] 0) 3

/-- Two bytes are written at 9. -/
def writeTwo : Op := .write ⟨9, nine_nonneg⟩ (ofList [66, 68] 0) 2

/-- A move whose sends go through. -/
def moveAll : Op := .moveSource fun _ => true

/-- The three bytes are sent and arrive behind the two. -/
def overtaken : List Op :=
  [writeThree, moveAll, writeTwo, moveAll, .arrive 1, .arrive 0, .moveDestination]

theorem step_later {op : Op} (h : step url s op = some t) :
    Link.Later s.link t.link ∧ s.moved <+: t.moved := by
  cases op with
  | write now msgPtr length =>
    obtain rfl | ⟨_, _, -, -, -, -, -, rfl⟩ := write_cases h
    · exact ⟨Link.Later.refl _, List.prefix_refl _⟩
    · exact ⟨Link.Later.refl _, List.prefix_refl _⟩
  | moveSource sends =>
    obtain ⟨r, -, rfl⟩ := Option.map_eq_some_iff.mp h
    exact ⟨Link.later_send _ _, List.prefix_append _ _⟩
  | arrive i =>
    obtain ⟨link, hlink, rfl⟩ := Option.map_eq_some_iff.mp h
    exact ⟨Link.later_arrive hlink, List.prefix_refl _⟩
  | moveDestination =>
    obtain ⟨r, -, rfl⟩ := Option.map_eq_some_iff.mp h
    exact ⟨Link.later_take _ _, List.prefix_refl _⟩

theorem run_later {ops : List Op} (h : run (step url) s ops = some t) :
    Link.Later s.link t.link ∧ s.moved <+: t.moved := by
  refine run_invariant (I := fun u => Link.Later s.link u.link ∧ s.moved <+: u.moved) ?_
    ⟨Link.Later.refl _, List.prefix_refl _⟩ h
  rintro u op v ⟨hlater, hmoved⟩ hstep
  exact ⟨hlater.trans (step_later hstep).1, hmoved.trans (step_later hstep).2⟩

/-- **Where the network keeps the order, nothing gets older.** The version that the
    destinations show never falls; and when the datagram sent last has arrived, a move
    that may take all that waits leaves in them what the source held at its last move. -/
theorem sampling_in_order {u : Modules U} (hs : Start url maxMessageSize s) {before after : List Op}
    (hu : run (step url) s before = some u) (ht : run (step url) u after = some t)
    (horder : t.link.Ordered) :
    (∀ k k', u.version = some k → t.version = some k' → k ≤ k') ∧
      ∀ v, step url t .moveDestination = some v → t.destination.destinationPortVector ≠ [] →
        t.link.sent.length - 1 ∈ t.link.arrivals →
        t.link.pending.length ≤ t.destination.maxSocketMessage →
        v.version = t.moved.getLast? := by
  have hflow : Flow url maxMessageSize t := flow_run hs (run_append_some.mpr ⟨u, hu, ht⟩)
  constructor
  · intro k k' hk hk'
    obtain ⟨i, hi, hki⟩ := Option.bind_eq_some_iff.mp hk
    obtain ⟨j, hj, hkj⟩ := Option.bind_eq_some_iff.mp hk'
    obtain ⟨hlater, hmoved⟩ := run_later ht
    -- The datagrams are taken in the order of sending, and their places rise in that order.
    have hle : i ≤ j := Link.Ordered.le_lastTaken horder hlater hi hj
    have hki : t.moved[i]? = some k := by
      obtain ⟨rest, hrest⟩ := hmoved
      rw [← hrest]
      exact (List.getElem?_append_left (List.getElem?_eq_some_iff.mp hki).1).trans hki
    obtain ⟨hilt, rfl⟩ := List.getElem?_eq_some_iff.mp hki
    obtain ⟨hjlt, rfl⟩ := List.getElem?_eq_some_iff.mp hkj
    obtain rfl | hlt := Nat.eq_or_lt_of_le hle
    · exact Nat.le_refl _
    · exact List.pairwise_iff_getElem.mp hflow.rising i j hilt hjlt hlt
  · intro v hv hsome harrived hroom
    obtain ⟨destination, n, hstep, -, hn, -⟩ := hflow.moveDestination_eq
    obtain rfl := Option.some.inj (hstep.symm.trans hv)
    rw [hn hsome, Nat.min_eq_right hroom, Modules.version]
    show (t.link.take t.link.pending.length).lastTaken.bind (t.moved[·]?) = t.moved.getLast?
    rw [Link.lastTaken_take_all, Link.Ordered.getLast? horder harrived, Option.bind_some,
      hflow.sent.length_eq, ← List.getLast?_eq_getElem?]

/-- The first message is sent and taken. -/
def firstTaken : List Op :=
  [writeThree, moveAll, .arrive 0, .moveDestination]

/-- The second is sent twice, and arrives once. -/
def secondArrived : List Op :=
  [writeTwo, moveAll, moveAll, .arrive 2]

/-- The next move shows what the source holds. -/
theorem sampling_in_order_secondArrived :
    ∃ t v, run (step 2) twoModules (firstTaken ++ secondArrived) = some t ∧
      step 2 t .moveDestination = some v ∧ v.version = some 2 := by
  obtain ⟨t, ht, hmoved, horder, hsome, harrived, hroom, v, hv⟩ :
      ∃ t, run (step 2) twoModules (firstTaken ++ secondArrived) = some t ∧
        t.moved = [1, 2, 2] ∧ t.link.Ordered ∧ t.destination.destinationPortVector ≠ [] ∧
        t.link.sent.length - 1 ∈ t.link.arrivals ∧
        t.link.pending.length ≤ t.destination.maxSocketMessage ∧
        ∃ v, step 2 t .moveDestination = some v :=
    ⟨_, rfl, rfl, by decide, List.cons_ne_nil _ _, by decide, by decide, _, rfl⟩
  obtain ⟨u', hu', ht'⟩ := run_append_some.mp ht
  obtain ⟨-, hcaught⟩ := sampling_in_order twoModules_start hu' ht' horder
  refine ⟨t, v, ht, hv, ?_⟩
  rw [hcaught v hv hsome harrived hroom, hmoved]
  rfl

end

end Arinc.SamplingLink
