import ArincEmulator.EventPort

/- Datagrams at their destination. A sampling channel and an event port over a
   sampling port take a datagram into a buffer that still holds earlier ones, and
   decode the buffer: the time, a size, and as many bytes as the size says.

   A datagram is a complete encoding when its bytes hold the header and a payload of
   the size in it. For channels and event ports alike (`malformed_harmless_iff`): a
   datagram is harmless just when it is a complete encoding and every destination
   admits its size or holds its contents already. So only a repetition of what a port
   holds does no harm among the malformed ones; a queueing event port, whose
   datagrams have no header, is not harmed by any. -/
namespace Arinc.SamplingPacket
open Memory

/-! ## Decoding -/

/-- The contents a decoder finds in its buffer. -/
def content (m : Nat → Byte) : SamplingData := ⟨word m 0 8, word m 8 8, fun i => m (16 + i)⟩

/-- A buffer with the bytes of a datagram at its front. -/
def overlay (buffer : Nat → Byte) (received : List Byte) : Nat → Byte :=
  copy buffer 0 (ofList received 0) received.length

/-- The contents that the bytes of a datagram encode. -/
def encoded (received : List Byte) : SamplingData := content (ofList received 0)

/-- The bytes hold a header and all of its payload. -/
structure Complete (received : List Byte) : Prop where
  header : 16 ≤ received.length
  nonneg : 0 ≤ (encoded received).messageSize.toInt
  payload : 16 + (encoded received).count ≤ received.length

/-- A complete encoding of at most `maxMessageSize` bytes. -/
def WellFormed (received : List Byte) (maxMessageSize : Int) : Prop :=
  Complete received ∧ (encoded received).messageSize.toInt ≤ maxMessageSize

/-- The port has room for the contents, or holds them already. -/
def SamplingPort.Admits (q : SamplingPort) (received : List Byte) : Prop :=
  (encoded received).messageSize.toInt ≤ q.maxMessageSize ∨ q.Holds (encoded received)

theorem overlay_of_lt (buffer : Nat → Byte) {received : List Byte} {i : Nat}
    (h : i < received.length) : overlay buffer received i = ofList received 0 i := by
  rw [overlay, copy, if_pos ⟨Nat.zero_le i, by omega⟩, Nat.sub_zero]

theorem overlay_of_le (buffer : Nat → Byte) {received : List Byte} {i : Nat}
    (h : received.length ≤ i) : overlay buffer received i = buffer i := by
  rw [overlay, copy, if_neg (by omega)]

theorem content_header (buffer : Nat → Byte) {received : List Byte} (h : 16 ≤ received.length) :
    (content (overlay buffer received)).absoluteTimeWritten =
        (encoded received).absoluteTimeWritten ∧
      (content (overlay buffer received)).messageSize = (encoded received).messageSize := by
  constructor
  · exact word_congr fun i hi => overlay_of_lt buffer (by omega)
  · exact word_congr fun i hi => overlay_of_lt buffer (by omega)

theorem deliver_complete (buffer : Nat → Byte) {received : List Byte} (h : Complete received)
    (q : SamplingPort) :
    q.deliver (content (overlay buffer received)) = q.deliver (encoded received) := by
  obtain ⟨htime, hsize⟩ := content_header buffer h.header
  have hcount : (content (overlay buffer received)).count = (encoded received).count :=
    congrArg BitVec.toNat hsize
  have hdata : copy q.sharedMemory.data 0 (content (overlay buffer received)).data
      (encoded received).count =
      copy q.sharedMemory.data 0 (encoded received).data (encoded received).count := by
    apply copy_congr
    intro i hi
    have hle := h.payload
    exact overlay_of_lt buffer (by omega)
  rw [SamplingPort.deliver, SamplingPort.deliver, htime, hsize, hcount, hdata]

theorem deliver_eq_self_iff {q : SamplingPort} {s : SamplingData} : q.deliver s = q ↔ q.Holds s := by
  constructor
  · intro h
    rw [← h]
    exact q.deliver_holds s
  · rintro ⟨htime, hsize, hmessage⟩
    have hdata : copy q.sharedMemory.data 0 s.data s.count = q.sharedMemory.data := by
      funext i
      unfold copy
      split
      · rename_i hi
        have hcell := read_inj hmessage i (by omega)
        rw [Nat.zero_add] at hcell
        rw [Nat.sub_zero, hcell]
      · rfl
    rw [SamplingPort.deliver, hdata, ← htime, ← hsize]

/-- The highest bit of the last byte is the sign of the size. -/
theorem messageSize_neg {m : Nat → Byte} (h : (m 15).getLsbD 7 = true) :
    (content m).messageSize.toInt < 0 := by
  have hmsb : (word m 8 8).msb = true := by
    rw [BitVec.msb_eq_getLsbD_last, getLsbD_word]
    simpa using h
  rw [BitVec.msb_eq_toInt] at hmsb
  exact of_decide_eq_true hmsb

/-- A datagram that decodes to the same whatever is in the buffer is complete. -/
theorem complete_of_same {received : List Byte} {q : SamplingPort}
    (hnonneg : ∀ buffer, 0 ≤ (content (overlay buffer received)).messageSize.toInt)
    (hsame : ∀ buffer buffer', q.deliver (content (overlay buffer received)) =
      q.deliver (content (overlay buffer' received))) : Complete received := by
  have hheader : 16 ≤ received.length := by
    by_contra hshort
    -- the last byte of the size comes from the buffer, and with it the sign
    have hlast : overlay (fun _ => 128) received 15 = 128 := overlay_of_le _ (by omega)
    have hneg := messageSize_neg (m := overlay (fun _ => 128) received) (by rw [hlast]; decide)
    exact Int.not_le.mpr hneg (hnonneg _)
  have hsize (buffer : Nat → Byte) := (content_header buffer hheader).2
  refine ⟨hheader, ?_, ?_⟩
  · rw [← hsize fun _ => 0]
    exact hnonneg _
  · by_contra hshort
    -- the first byte of the payload that was not received comes from the buffer
    obtain ⟨i, hi⟩ : ∃ i, received.length = 16 + i := ⟨received.length - 16, by omega⟩
    have hlt : i < 0 + (encoded received).count := by omega
    have hcell (a : Byte) :
        (q.deliver (content (overlay (fun _ => a) received))).sharedMemory.data i = a := by
      have hcount : (content (overlay (fun _ => a) received)).count = (encoded received).count :=
        congrArg BitVec.toNat (hsize _)
      show copy q.sharedMemory.data 0 (content (overlay (fun _ => a) received)).data
        (content (overlay (fun _ => a) received)).count i = a
      rw [hcount, copy, if_pos ⟨Nat.zero_le i, hlt⟩, Nat.sub_zero]
      exact overlay_of_le (fun _ => a) (Nat.le_of_eq hi)
    have hequal : (0 : Byte) = 1 := by rw [← hcell 0, hsame _ fun _ => 1, hcell 1]
    exact absurd hequal (by decide)

/-! ## Channels -/

namespace SamplingChannel

variable {U : Type*}

/-- The bytes a channel takes of a datagram. -/
def received (datagram : List Byte) : List Byte := datagram.take dataBufferSize

/-- No assertion fails, a destination for which the datagram is malformed is left as it
    was, and what the destinations hold does not depend on what earlier datagrams
    have left in the buffer. -/
structure Harmless (c : SamplingChannel U) (datagram : List Byte) : Prop where
  noAssertion : c.moveMessages [datagram] ≠ none
  unchanged : ∀ r, c.moveMessages [datagram] = some r → ∀ (j : Nat) (q : SamplingPort),
    c.destinationPortVector[j]? = some q → ¬ WellFormed (received datagram) q.maxMessageSize →
      r.channel.destinationPortVector[j]? = some q
  noEarlierBytes : ∀ dataBuffer,
    (({ c with dataBuffer } : SamplingChannel U).moveMessages [datagram]).map
        (fun r => r.channel.destinationPortVector) =
      (c.moveMessages [datagram]).map fun r => r.channel.destinationPortVector

theorem moveMessages_one {c : SamplingChannel U} (hc : c.Receives)
    (hdestinations : c.destinationPortVector ≠ []) (datagram : List Byte) :
    (c.moveMessages [datagram]).map (fun r => r.channel.destinationPortVector) =
      if (content (overlay c.dataBuffer (received datagram))).messageSize.toInt < 0 then none
      else some (c.destinationPortVector.map fun q =>
        q.deliver (content (overlay c.dataBuffer (received datagram)))) := by
  have hbuffer : copy c.dataBuffer 0 (ofList datagram 0) (min datagram.length dataBufferSize) =
      overlay c.dataBuffer (received datagram) := by
    have hlength : (received datagram).length = min datagram.length dataBufferSize := by
      rw [received, List.length_take, Nat.min_comm]
    rw [overlay, hlength]
    apply copy_congr
    intro i hi
    show datagram.getD i 0 = (datagram.take dataBufferSize).getD i 0
    rw [List.getD_eq_getElem?_getD, List.getD_eq_getElem?_getD, List.getElem?_take, if_pos (by omega)]
  -- One datagram is pending, so the second round finds none.
  have hrounds : c.receiveRounds c.maxSocketMessage [datagram] =
      (c.receiveOne datagram).map fun c => (c, []) := by
    obtain ⟨times, htimes⟩ : ∃ times, c.maxSocketMessage = times + 1 :=
      ⟨c.maxSocketMessage - 1, by have := hc.rounds; omega⟩
    rw [htimes, receiveRounds]
    cases c.receiveOne datagram with
    | none => rfl
    | some c' => cases times <;> rfl
  rw [moveMessages_receiving hc.initialized hc.receiver hdestinations, hrounds, receiveOne, hbuffer]
  simp only [Option.map_map]
  show Option.map _ (if (content (overlay c.dataBuffer (received datagram))).messageSize.toInt < 0
    then none else _) = _
  split
  · rfl
  · rfl

theorem moveMessages_complete {c : SamplingChannel U} (hc : c.Receives)
    (hdestinations : c.destinationPortVector ≠ []) {datagram : List Byte}
    (hcomplete : Complete (received datagram)) :
    (c.moveMessages [datagram]).map (fun r => r.channel.destinationPortVector) =
      some (c.destinationPortVector.map fun q => q.deliver (encoded (received datagram))) := by
  have hnonneg := hcomplete.nonneg
  rw [moveMessages_one hc hdestinations, (content_header c.dataBuffer hcomplete.header).2,
    if_neg (Int.not_lt.mpr hnonneg)]
  simp only [deliver_complete c.dataBuffer hcomplete]

theorem Harmless.complete {c : SamplingChannel U} (hc : c.Receives) {datagram : List Byte}
    (h : c.Harmless datagram) {q : SamplingPort} (hq : q ∈ c.destinationPortVector) :
    Complete (received datagram) := by
  have hdestinations : c.destinationPortVector ≠ [] := List.ne_nil_of_mem hq
  obtain ⟨r, hr⟩ := Option.ne_none_iff_exists'.mp h.noAssertion
  have hone (buffer : Nat → Byte) :
      0 ≤ (content (overlay buffer (received datagram))).messageSize.toInt ∧
        c.destinationPortVector.map (fun q =>
          q.deliver (content (overlay buffer (received datagram)))) =
        r.channel.destinationPortVector := by
    have hmoved := h.noEarlierBytes buffer
    rw [moveMessages_one (c := { c with dataBuffer := buffer }) ⟨hc.initialized, hc.receiver, hc.rounds⟩
      hdestinations, hr, Option.map_some] at hmoved
    split at hmoved
    · cases hmoved
    · rename_i hnonneg
      exact ⟨Int.not_lt.mp hnonneg, Option.some.inj hmoved⟩
  apply complete_of_same (q := q) fun buffer => (hone buffer).1
  intro buffer buffer'
  exact List.map_inj_left.mp ((hone buffer).2.trans (hone buffer').2.symm) q hq

theorem harmless_iff {c : SamplingChannel U} (hc : c.Receives) (datagram : List Byte) :
    c.Harmless datagram ↔ ∀ q ∈ c.destinationPortVector,
      Complete (received datagram) ∧ q.Admits (received datagram) := by
  constructor
  · intro h q hq
    have hdestinations : c.destinationPortVector ≠ [] := List.ne_nil_of_mem hq
    have hcomplete := h.complete hc hq
    refine ⟨hcomplete, ?_⟩
    by_cases hfits : (encoded (received datagram)).messageSize.toInt ≤ q.maxMessageSize
    · exact Or.inl hfits
    · right
      have hmoved := moveMessages_complete hc hdestinations hcomplete
      obtain ⟨r, hr, hports⟩ := Option.map_eq_some_iff.mp hmoved
      obtain ⟨j, hj⟩ := List.mem_iff_getElem?.mp hq
      have hkept := h.unchanged r hr j q hj fun hformed => hfits hformed.2
      rw [hports, List.getElem?_map, hj, Option.map_some] at hkept
      exact deliver_eq_self_iff.mp (Option.some.inj hkept)
  · intro h
    by_cases hdestinations : c.destinationPortVector = []
    -- Without a destination the call returns before it takes the datagram.
    · have hmoved (dataBuffer : Nat → Byte) :
          ({ c with dataBuffer } : SamplingChannel U).moveMessages [datagram] =
            some ⟨.noAction, { c with dataBuffer }, [], [datagram]⟩ :=
        moveMessages_nowhere (c := { c with dataBuffer }) hc.initialized hc.receiver hdestinations _
      have hmoved' : c.moveMessages [datagram] = some ⟨.noAction, c, [], [datagram]⟩ :=
        hmoved c.dataBuffer
      constructor
      · rw [hmoved']
        exact Option.some_ne_none _
      · rintro r hr j q hj -
        rw [hdestinations] at hj
        cases hj
      · intro dataBuffer
        rw [hmoved, hmoved', Option.map_some, Option.map_some]
    · obtain ⟨q₀, hq₀⟩ := List.exists_mem_of_ne_nil _ hdestinations
      have hcomplete := (h q₀ hq₀).1
      have hmoved := moveMessages_complete hc hdestinations hcomplete
      obtain ⟨r, hr, hports⟩ := Option.map_eq_some_iff.mp hmoved
      constructor
      · rw [hr]
        exact Option.some_ne_none r
      · rintro r' hr' j q hj hmalformed
        obtain rfl := Option.some.inj (hr.symm.trans hr')
        obtain hfits | hholds := (h q (List.mem_of_getElem? hj)).2
        · exact absurd ⟨hcomplete, hfits⟩ hmalformed
        · rw [hports, List.getElem?_map, hj, Option.map_some, deliver_eq_self_iff.mpr hholds]
      · intro dataBuffer
        rw [hmoved]
        exact moveMessages_complete (c := { c with dataBuffer })
          ⟨hc.initialized, hc.receiver, hc.rounds⟩ hdestinations hcomplete

end SamplingChannel

end Arinc.SamplingPacket

/-! ## Event ports -/

namespace Arinc.EventPort
open Memory SamplingPacket QueuePort

namespace Partition

/-- `WRITE_CONTENTS_FROM_DATA_BUFFER`, the service; `none` where the assertion fails. -/
def writeContentsFromDataBuffer (s : Partition) (id : Nat) (msgPtr : Nat → Byte) (length : Int) :
    Option (ReturnCode × Partition) :=
  match s.samplingPorts[id]? with
  | none => some (.invalidParam, s)
  | some (p, reader) => (p.writeContentsFromDataBuffer msgPtr length).map fun (code, p) =>
      (code, { s with samplingPorts := s.samplingPorts.set id (p, reader) })

/-- The partition with contents delivered to a sampling port. -/
def delivered (s : Partition) (id : Nat) (q : SamplingPort) (reader : Reader)
    (contents : SamplingData) : Partition :=
  { s with samplingPorts := s.samplingPorts.set id (q.deliver contents, reader) }

/-- `MESSAGE_QUEUE_SEND_MESSAGE_FROM_BUFFER`; `none` where it waits for ever. -/
def messageQueueSendMessageFromBuffer (s : Partition) (id : Nat) (now : ClockTime)
    (msgPtr : Nat → Byte) (length timeOut : Int) : Option (ReturnCode × Partition) :=
  match s.queuingPorts[id]? with
  | none => some (.invalidParam, s)
  | some q => (q.sendMessageFromBufferReadFromSocket now msgPtr length timeOut).map
      fun (code, q) => (code, { s with queuingPorts := s.queuingPorts.set id q })

end Partition

/-- The ends of a transfer: it returns, an assertion fails, or it waits for ever. -/
inductive Transfer (U : Type*) where
  | returned (returnCode : ReturnCode) (port : AcmEventPort U) (partition : Partition)
  | assertion
  | waits

/-- The partition a transfer leaves. -/
def Transfer.partition? {U : Type*} : Transfer U → Option Partition
  | .returned _ _ s => some s
  | _ => none

namespace AcmEventPort

variable {U : Type*}

/-- The length of the buffer, which the socket takes as an `int`. -/
def bufferLen (p : AcmEventPort U) : Nat :=
  MessageQueue.sizeT ((16 + p.eventPortTotalSize.toInt).bmod (2 ^ 32))

/-- The bytes a port takes of a datagram. -/
def received (p : AcmEventPort U) (datagram : List Byte) : List Byte := datagram.take p.bufferLen

/-- The port with another buffer. -/
def withBuffer (p : AcmEventPort U) (interModuleDataBuffer : Nat → Byte) : AcmEventPort U :=
  { p with interModuleDataBuffer }

/-- The services `BLOCK_AND_TRANSFER_FROM_SOCKET_READ_PORT` calls. A sampling port is
    given the length of the buffer, a queuing port that of the datagram. -/
def transfer (p : AcmEventPort U) (s : Partition) (now : ClockTime) (recvMsgSize : Nat)
    (portTimeOut : Int) : Transfer U :=
  match p.eventPortImplType with
  | .samplingport =>
    match s.writeContentsFromDataBuffer p.eventPortId p.interModuleDataBuffer
        (16 + p.eventPortTotalSize.toInt) with
    | none => .assertion
    | some (code, s) => .returned code p s
  | .queueingport =>
    match s.messageQueueSendMessageFromBuffer p.eventPortId now p.interModuleDataBuffer recvMsgSize
        portTimeOut with
    | none => .waits
    | some (code, s) => .returned code p s
  | _ => .returned .noAction p s

/-- `BLOCK_AND_TRANSFER_FROM_SOCKET_READ_PORT`, for the datagram that comes. -/
def blockAndTransferFromSocketReadPort (p : AcmEventPort U) (s : Partition) (now : ClockTime)
    (datagram : List Byte) (portTimeOut : Int) : Transfer U :=
  if p.eventPortType = .write then .returned .invalidMode p s
  else if p.eventPortImplType = .buffer ∨ p.eventPortImplType = .blackboard then
    .returned .invalidMode p s
  else if p.receiver = false then .returned .invalidMode p s
  else
    (p.withBuffer (overlay p.interModuleDataBuffer (p.received datagram))).transfer s now
      (p.received datagram).length portTimeOut

/-- A datagram that the object behind the port is made for. That of a sampling port
    encodes a size; that of a queuing port is the message. -/
def WellFormed (p : AcmEventPort U) (s : Partition) (datagram : List Byte) : Prop :=
  match p.eventPortImplType with
  | .samplingport => ∀ port, s.samplingPorts[p.eventPortId]? = some port →
      SamplingPacket.WellFormed (p.received datagram) port.1.maxMessageSize
  | .queueingport => ∀ q, s.queuingPorts[p.eventPortId]? = some q →
      ((p.received datagram).length : Int) ≤ q.qMaxMessageSize
  | _ => True

/-- No assertion fails, a malformed datagram leaves the partition as it was, and what a
    transfer leaves does not depend on what earlier datagrams have left in the
    buffer. -/
structure Harmless (p : AcmEventPort U) (s : Partition) (now : ClockTime) (portTimeOut : Int)
    (datagram : List Byte) : Prop where
  noAssertion : p.blockAndTransferFromSocketReadPort s now datagram portTimeOut ≠ .assertion
  unchanged : ¬ p.WellFormed s datagram → ∀ code p' t,
    p.blockAndTransferFromSocketReadPort s now datagram portTimeOut = .returned code p' t → t = s
  noEarlierBytes : ∀ interModuleDataBuffer,
    ((p.withBuffer interModuleDataBuffer).blockAndTransferFromSocketReadPort s now datagram
        portTimeOut).partition? =
      (p.blockAndTransferFromSocketReadPort s now datagram portTimeOut).partition?

/-- A port that receives from another module, and was created. -/
structure Receives (p : AcmEventPort U) : Prop where
  type : p.eventPortType = .read
  receiver : p.receiver = true
  pos : 0 < p.eventPortTotalSize.toInt

/-- What comes behind the checks, with any bytes in the buffer. -/
def transferred (p : AcmEventPort U) (s : Partition) (now : ClockTime) (portTimeOut : Int)
    (datagram : List Byte) (buffer : Nat → Byte) : Transfer U :=
  (p.withBuffer (overlay buffer (p.received datagram))).transfer s now
    (p.received datagram).length portTimeOut

/-- A datagram gets past the checks of a port that receives. -/
theorem blockAndTransfer_eq {p : AcmEventPort U} (hp : p.Receives)
    (himpl : ¬ (p.eventPortImplType = .buffer ∨ p.eventPortImplType = .blackboard)) (s : Partition)
    (now : ClockTime) (portTimeOut : Int) (datagram : List Byte) (buffer : Nat → Byte) :
    (p.withBuffer buffer).blockAndTransferFromSocketReadPort s now datagram portTimeOut =
      p.transferred s now portTimeOut datagram buffer := by
  have htype : ¬ (p.withBuffer buffer).eventPortType = .write := by
    rw [withBuffer, hp.type]
    exact EventPortCommType.noConfusion
  have hreceiver : ¬ (p.withBuffer buffer).receiver = false := by
    rw [withBuffer, hp.receiver]
    exact Bool.noConfusion
  have himpl' : ¬ ((p.withBuffer buffer).eventPortImplType = .buffer ∨
      (p.withBuffer buffer).eventPortImplType = .blackboard) := himpl
  rw [blockAndTransferFromSocketReadPort, if_neg htype, if_neg himpl', if_neg hreceiver]
  rfl

theorem transfer_turnedDown {p : AcmEventPort U} {s : Partition}
    (himpl : p.eventPortImplType = .samplingport)
    (hnot : ∀ q reader, s.samplingPorts[p.eventPortId]? = some (q, reader) →
      q.readyOrNot = true → q.portDirection = .portSource)
    (now : ClockTime) (recvMsgSize : Nat) (portTimeOut : Int) :
    ∃ code, p.transfer s now recvMsgSize portTimeOut = .returned code p s := by
  have hservice (m : Nat → Byte) (n : Int) :
      ∃ code, s.writeContentsFromDataBuffer p.eventPortId m n = some (code, s) := by
    unfold Partition.writeContentsFromDataBuffer
    cases hq : s.samplingPorts[p.eventPortId]? with
    | none => exact ⟨.invalidParam, rfl⟩
    | some port =>
      obtain ⟨q, reader⟩ := port
      refine ⟨.invalidMode, ?_⟩
      have hwrite : q.writeContentsFromDataBuffer m n = some (.invalidMode, q) := by
        rw [SamplingPort.writeContentsFromDataBuffer]
        by_cases hready : q.readyOrNot = true
        · rw [if_neg (by simp [hready]), if_pos (hnot q reader hq hready)]
        · rw [if_pos (by simpa using hready)]
      simp only [hwrite, Option.map_some, BufferBounds.set_same hq]
  obtain ⟨code, hcode⟩ := hservice p.interModuleDataBuffer (16 + p.eventPortTotalSize.toInt)
  refine ⟨code, ?_⟩
  simp only [transfer, himpl, hcode]

theorem transfer_sampling {p : AcmEventPort U} {s : Partition} (hpos : 0 < p.eventPortTotalSize.toInt)
    (himpl : p.eventPortImplType = .samplingport) {q : SamplingPort} {reader : Reader}
    (hq : s.samplingPorts[p.eventPortId]? = some (q, reader)) (hready : q.readyOrNot = true)
    (hdirection : q.portDirection ≠ .portSource) (now : ClockTime) (recvMsgSize : Nat)
    (portTimeOut : Int) :
    p.transfer s now recvMsgSize portTimeOut =
      if (content p.interModuleDataBuffer).messageSize.toInt < 0 then .assertion
      else .returned .noError p
        (s.delivered p.eventPortId q reader (content p.interModuleDataBuffer)) := by
  have hlt := BitVec.toInt_lt (x := p.eventPortTotalSize)
  have hlong : ¬ (16 + p.eventPortTotalSize.toInt) % 2 ^ 64 < 16 := by omega
  have hwrite : q.writeContentsFromDataBuffer p.interModuleDataBuffer
      (16 + p.eventPortTotalSize.toInt) =
        if (content p.interModuleDataBuffer).messageSize.toInt < 0 then none
        else some (.noError, q.deliver (content p.interModuleDataBuffer)) := by
    rw [SamplingPort.writeContentsFromDataBuffer, if_neg (by simp [hready]), if_neg hdirection,
      if_neg hlong]
    rfl
  simp only [transfer, himpl, Partition.writeContentsFromDataBuffer, hq, hwrite]
  by_cases hneg : (content p.interModuleDataBuffer).messageSize.toInt < 0
  · simp only [if_pos hneg, Option.map_none]
  · simp only [if_neg hneg, Option.map_some, Partition.delivered]

/-- A queue is given the bytes of the datagram, or is left as it was. -/
theorem sendFromSocket_congr {q : MessageQueue} {now : ClockTime} {m m' : Nat → Byte} {n : Nat}
    {timeOut : Int} (h : read m 0 n = read m' 0 n) :
    q.sendMessageFromBufferReadFromSocket now m n timeOut =
      q.sendMessageFromBufferReadFromSocket now m' n timeOut := by
  have hread : read m 0 (MessageQueue.sizeT n) = read m' 0 (MessageQueue.sizeT n) := by
    apply read_congr
    intro i hi
    have hle : MessageQueue.sizeT n ≤ n := by
      unfold MessageQueue.sizeT
      omega
    exact read_inj h i (by omega)
  rw [MessageQueue.sendMessageFromBufferReadFromSocket, q.mq.mqSend_congr hread,
    MessageQueue.sendMessageFromBufferReadFromSocket]

theorem sendFromSocket_long {q : MessageQueue} (now : ClockTime) (m : Nat → Byte) {length : Int}
    (timeOut : Int) (h : q.qMaxMessageSize < length) :
    ∃ code, q.sendMessageFromBufferReadFromSocket now m length timeOut = some (code, q) := by
  unfold MessageQueue.sendMessageFromBufferReadFromSocket
  split
  · exact ⟨_, rfl⟩
  split
  · exact ⟨_, rfl⟩
  split
  · exact ⟨_, rfl⟩
  split
  · exact ⟨_, rfl⟩
  · exact ⟨_, rfl⟩

theorem harmless_iff_transferred {p : AcmEventPort U} (hp : p.Receives)
    (himpl : ¬ (p.eventPortImplType = .buffer ∨ p.eventPortImplType = .blackboard)) (s : Partition)
    (now : ClockTime) (portTimeOut : Int) (datagram : List Byte) :
    p.Harmless s now portTimeOut datagram ↔
      p.transferred s now portTimeOut datagram p.interModuleDataBuffer ≠ .assertion ∧
      (¬ p.WellFormed s datagram → ∀ t,
        (p.transferred s now portTimeOut datagram p.interModuleDataBuffer).partition? = some t →
          t = s) ∧
      ∀ buffer, (p.transferred s now portTimeOut datagram buffer).partition? =
        (p.transferred s now portTimeOut datagram p.interModuleDataBuffer).partition? := by
  have heq := blockAndTransfer_eq hp himpl s now portTimeOut datagram
  have hself : p.blockAndTransferFromSocketReadPort s now datagram portTimeOut =
      p.transferred s now portTimeOut datagram p.interModuleDataBuffer := heq _
  constructor
  · rintro ⟨hassertion, hunchanged, hsame⟩
    rw [hself] at hassertion hunchanged hsame
    refine ⟨hassertion, fun hmalformed t ht => ?_, fun buffer => ?_⟩
    · cases htransferred : p.transferred s now portTimeOut datagram p.interModuleDataBuffer with
      | returned code p' t' =>
        rw [htransferred] at ht
        obtain rfl : t' = t := Option.some.inj ht
        exact hunchanged hmalformed code p' t' htransferred
      | assertion =>
        rw [htransferred] at ht
        cases ht
      | waits =>
        rw [htransferred] at ht
        cases ht
    · rw [← heq buffer]
      exact hsame buffer
  · rintro ⟨hassertion, hunchanged, hsame⟩
    constructor
    · rw [hself]
      exact hassertion
    · intro hmalformed code p' t ht
      apply hunchanged hmalformed t
      rw [← hself, ht]
      rfl
    · intro buffer
      rw [heq buffer, hself]
      exact hsame buffer

/-- A transfer that leaves the partition, whatever is in the buffer, is harmless. -/
theorem harmless_of_returned {p : AcmEventPort U} (hp : p.Receives)
    (himpl : ¬ (p.eventPortImplType = .buffer ∨ p.eventPortImplType = .blackboard)) (s : Partition)
    (now : ClockTime) (portTimeOut : Int) (datagram : List Byte)
    (h : ∀ buffer, ∃ code p', (p.withBuffer buffer).transfer s now (p.received datagram).length
      portTimeOut = .returned code p' s) : p.Harmless s now portTimeOut datagram := by
  rw [harmless_iff_transferred hp himpl]
  obtain ⟨code, p', hself⟩ := h (overlay p.interModuleDataBuffer (p.received datagram))
  refine ⟨?_, fun _ t ht => ?_, fun buffer => ?_⟩
  · rw [transferred, hself]
    nofun
  · rw [transferred, hself] at ht
    exact (Option.some.inj ht).symm
  · obtain ⟨code', p'', hother⟩ := h (overlay buffer (p.received datagram))
    rw [transferred, transferred, hself, hother]
    rfl

theorem harmless_sampling_iff {p : AcmEventPort U} {s : Partition} (hp : p.Receives)
    (himpl : p.eventPortImplType = .samplingport) {q : SamplingPort} {reader : Reader}
    (hq : s.samplingPorts[p.eventPortId]? = some (q, reader)) (hready : q.readyOrNot = true)
    (hdirection : q.portDirection ≠ .portSource) (now : ClockTime) (portTimeOut : Int)
    (datagram : List Byte) :
    p.Harmless s now portTimeOut datagram ↔
      Complete (p.received datagram) ∧ q.Admits (p.received datagram) := by
  obtain ⟨hlt, -⟩ := List.getElem?_eq_some_iff.mp hq
  let decoded (buffer : Nat → Byte) : SamplingData := content (overlay buffer (p.received datagram))
  have htransferred (buffer : Nat → Byte) : p.transferred s now portTimeOut datagram buffer =
      if (decoded buffer).messageSize.toInt < 0 then .assertion
      else .returned .noError (p.withBuffer (overlay buffer (p.received datagram)))
        (s.delivered p.eventPortId q reader (decoded buffer)) :=
    transfer_sampling (p := p.withBuffer (overlay buffer (p.received datagram))) hp.pos himpl hq hready
      hdirection now (p.received datagram).length portTimeOut
  have hport (c : SamplingData) :
      (s.delivered p.eventPortId q reader c).samplingPorts[p.eventPortId]? =
        some (q.deliver c, reader) := List.getElem?_set_self hlt
  have hformed : p.WellFormed s datagram ↔
      SamplingPacket.WellFormed (p.received datagram) q.maxMessageSize := by
    rw [WellFormed, himpl]
    simp only [hq, Option.some.injEq, forall_eq']
  rw [harmless_iff_transferred hp (by rw [himpl]; decide), hformed]
  constructor
  · rintro ⟨hassertion, hunchanged, hsame⟩
    -- Harmless means the same for all that the buffer held before: were a field of the
    -- message cut off, two buffers would be told apart.
    have hself : ¬ (decoded p.interModuleDataBuffer).messageSize.toInt < 0 := by
      intro hneg
      apply hassertion
      rw [htransferred, if_pos hneg]
    have hone (buffer : Nat → Byte) : 0 ≤ (decoded buffer).messageSize.toInt ∧
        q.deliver (decoded buffer) = q.deliver (decoded p.interModuleDataBuffer) := by
      have hequal := hsame buffer
      rw [htransferred, htransferred, if_neg hself] at hequal
      split at hequal
      · cases hequal
      · rename_i hnonneg
        have hdelivered := hport (decoded buffer)
        rw [Option.some.inj hequal, hport] at hdelivered
        exact ⟨Int.not_lt.mp hnonneg, (Prod.mk.inj (Option.some.inj hdelivered)).1.symm⟩
    have hcomplete : Complete (p.received datagram) :=
      complete_of_same (fun buffer => (hone buffer).1) fun buffer buffer' =>
        (hone buffer).2.trans (hone buffer').2.symm
    refine ⟨hcomplete, ?_⟩
    by_cases hfits : (encoded (p.received datagram)).messageSize.toInt ≤ q.maxMessageSize
    · exact Or.inl hfits
    · right
      -- Too long for the port, so the datagram is malformed and has to leave the port as it is.
      have hkept : s.delivered p.eventPortId q reader (decoded p.interModuleDataBuffer) = s := by
        apply hunchanged fun hwell => hfits hwell.2
        rw [htransferred, if_neg hself]
        rfl
      have hdelivered := hport (decoded p.interModuleDataBuffer)
      rw [hkept, hq, deliver_complete p.interModuleDataBuffer hcomplete] at hdelivered
      exact deliver_eq_self_iff.mp (Prod.mk.inj (Option.some.inj hdelivered)).1.symm
  · rintro ⟨hcomplete, hadmits⟩
    have hreturned (buffer : Nat → Byte) :
        p.transferred s now portTimeOut datagram buffer =
          .returned .noError (p.withBuffer (overlay buffer (p.received datagram)))
            (s.delivered p.eventPortId q reader (encoded (p.received datagram))) := by
      have hnonneg := hcomplete.nonneg
      rw [← (content_header buffer hcomplete.header).2] at hnonneg
      rw [htransferred, if_neg (Int.not_lt.mpr hnonneg), Partition.delivered,
        deliver_complete buffer hcomplete, Partition.delivered]
    refine ⟨?_, ?_, ?_⟩
    · rw [hreturned]
      nofun
    · intro hmalformed t ht
      rw [hreturned] at ht
      -- Either the datagram is well formed, or delivering it is delivering what is there.
      obtain hfits | hholds := hadmits
      · exact absurd ⟨hcomplete, hfits⟩ hmalformed
      · rw [← Option.some.inj ht, Partition.delivered, deliver_eq_self_iff.mpr hholds,
          BufferBounds.set_same hq]
    · intro buffer
      rw [hreturned, hreturned]
      rfl

theorem harmless_queuing {p : AcmEventPort U} (hp : p.Receives)
    (himpl : p.eventPortImplType = .queueingport) (s : Partition) (now : ClockTime)
    (portTimeOut : Int) (datagram : List Byte) : p.Harmless s now portTimeOut datagram := by
  have htransferred (buffer : Nat → Byte) : p.transferred s now portTimeOut datagram buffer =
      match s.messageQueueSendMessageFromBuffer p.eventPortId now
          (overlay buffer (p.received datagram)) (p.received datagram).length portTimeOut with
      | none => .waits
      | some (code, t) => .returned code (p.withBuffer (overlay buffer (p.received datagram))) t := by
    have himpl' : (p.withBuffer (overlay buffer (p.received datagram))).eventPortImplType =
      .queueingport := himpl
    rw [transferred, transfer, himpl']
    rfl
  -- A message queue takes the bytes of the datagram and none of what the buffer held behind them.
  have hbytes (buffer : Nat → Byte) : read (overlay buffer (p.received datagram)) 0
      (p.received datagram).length = p.received datagram := by
    rw [overlay, read_copy (Nat.le_refl _), read_ofList]
  rw [harmless_iff_transferred hp (by rw [himpl]; decide)]
  refine ⟨?_, ?_, ?_⟩
  · rw [htransferred]
    split
    · nofun
    · nofun
  · intro hmalformed t ht
    rw [WellFormed, himpl] at hmalformed
    simp only [not_forall, Int.not_le] at hmalformed
    obtain ⟨q, hq, hlong⟩ := hmalformed
    obtain ⟨code, hsend⟩ := sendFromSocket_long now
      (overlay p.interModuleDataBuffer (p.received datagram)) portTimeOut hlong
    rw [htransferred, Partition.messageQueueSendMessageFromBuffer, hq] at ht
    simp only [hsend, Option.map_some, BufferBounds.set_same hq] at ht
    exact (Option.some.inj ht).symm
  · intro buffer
    have hsame : s.messageQueueSendMessageFromBuffer p.eventPortId now
        (overlay buffer (p.received datagram)) (p.received datagram).length portTimeOut =
        s.messageQueueSendMessageFromBuffer p.eventPortId now
          (overlay p.interModuleDataBuffer (p.received datagram)) (p.received datagram).length
          portTimeOut := by
      unfold Partition.messageQueueSendMessageFromBuffer
      split
      · rfl
      · rw [sendFromSocket_congr ((hbytes buffer).trans (hbytes _).symm)]
    rw [htransferred, htransferred, hsame]
    split
    · rfl
    · rfl

/-- The transports within a partition take no datagrams. -/
theorem harmless_intraPartition {p : AcmEventPort U} (hp : p.Receives)
    (himpl : p.eventPortImplType = .buffer ∨ p.eventPortImplType = .blackboard) (s : Partition)
    (now : ClockTime) (portTimeOut : Int) (datagram : List Byte) :
    p.Harmless s now portTimeOut datagram := by
  have hreturned (buffer : Nat → Byte) : (p.withBuffer buffer).blockAndTransferFromSocketReadPort s
      now datagram portTimeOut = .returned .invalidMode (p.withBuffer buffer) s := by
    have htype : ¬ (p.withBuffer buffer).eventPortType = .write := by
      rw [withBuffer, hp.type]
      exact EventPortCommType.noConfusion
    have himpl' : (p.withBuffer buffer).eventPortImplType = .buffer ∨
      (p.withBuffer buffer).eventPortImplType = .blackboard := himpl
    rw [blockAndTransferFromSocketReadPort, if_neg htype, if_pos himpl']
  have hself : p.blockAndTransferFromSocketReadPort s now datagram portTimeOut =
      .returned .invalidMode p s := hreturned p.interModuleDataBuffer
  constructor
  · rw [hself]
    nofun
  · intro _ code p' t h
    rw [hself] at h
    exact (Transfer.returned.inj h).2.2.symm
  · intro buffer
    rw [hreturned, hself]
    rfl

theorem harmless_iff {p : AcmEventPort U} (hp : p.Receives) (s : Partition) (now : ClockTime)
    (portTimeOut : Int) (datagram : List Byte) :
    p.Harmless s now portTimeOut datagram ↔ (p.eventPortImplType = .samplingport →
      ∀ q reader, s.samplingPorts[p.eventPortId]? = some (q, reader) → q.readyOrNot = true →
        q.portDirection ≠ .portSource →
        Complete (p.received datagram) ∧ q.Admits (p.received datagram)) := by
  cases himpl : p.eventPortImplType with
  | samplingport =>
    by_cases hnot : ∀ q reader, s.samplingPorts[p.eventPortId]? = some (q, reader) →
        q.readyOrNot = true → q.portDirection = .portSource
    · refine iff_of_true ?_ fun _ q reader hq hready hdirection => ?_
      · apply harmless_of_returned hp (by rw [himpl]; decide)
        intro buffer
        obtain ⟨code, hcode⟩ := transfer_turnedDown (p := p.withBuffer buffer) himpl hnot now
          (p.received datagram).length portTimeOut
        exact ⟨code, _, hcode⟩
      · exact absurd (hnot q reader hq hready) hdirection
    · simp only [not_forall] at hnot
      obtain ⟨q, reader, hq, hready, hdirection⟩ := hnot
      rw [harmless_sampling_iff hp himpl hq hready hdirection]
      constructor
      · rintro h - q' reader' hq' - -
        obtain ⟨rfl, -⟩ := Prod.mk.inj (Option.some.inj (hq.symm.trans hq'))
        exact h
      · exact fun h => h rfl q reader hq hready hdirection
  | queueingport =>
    exact iff_of_true (harmless_queuing hp himpl s now portTimeOut datagram)
      fun himpl' => by cases himpl'
  | undefined =>
    refine iff_of_true ?_ fun himpl' => by cases himpl'
    apply harmless_of_returned hp (by rw [himpl]; decide)
    intro buffer
    refine ⟨.noAction, p.withBuffer buffer, ?_⟩
    have himpl' : (p.withBuffer buffer).eventPortImplType = .undefined := himpl
    rw [transfer, himpl']
  | blackboard =>
    exact iff_of_true (harmless_intraPartition hp (Or.inr himpl) s now portTimeOut datagram)
      fun himpl' => by cases himpl'
  | buffer =>
    exact iff_of_true (harmless_intraPartition hp (Or.inl himpl) s now portTimeOut datagram)
      fun himpl' => by cases himpl'

end AcmEventPort

/-! ## Malformed datagrams -/

/-- A destination of 4 bytes at most that holds 3, written at 7. -/
def holdsThree : SamplingPort := ⟨4, .portSourceDest, true, ⟨7, 3, ofList [65, 67, 77] 0⟩⟩

/-- Its channel; the buffer still has the datagram they came in. -/
def holdsThreeChannel : SamplingChannel Nat :=
  ⟨true, none, [holdsThree], false, true, 1, [], ofList (packet holdsThree.sharedMemory) 0⟩

/-- A header for `size` bytes written at 9, without them. -/
def headerOnly (size : BitVec 64) : List Byte := read (bytes (9 : BitVec 64)) 0 8 ++ read (bytes size) 0 8

end Arinc.EventPort
