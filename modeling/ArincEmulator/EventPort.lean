import ArincEmulator.Blackboard
import ArincEmulator.BufferBounds
import ArincEmulator.QueuePort
import ArincEmulator.SamplingFreshness

/- Event ports (`ACM_EVENT_PORT`). A port writes its messages with the time in
   front of them to a blackboard, a buffer, a sampling port or a queuing port, and
   takes the time off again when it reads. Each of the four has its own branch in
   the writer and in the reader.

   What is proved (`event_port_round_trip`), for the four alike: a write that
   succeeds has put the time and the message, and nothing else, into the transport;
   the read that gets it out returns the bytes and the length that were written,
   and reports them valid just when the transport does and they are not older than
   the reader's validity period; a message longer than the size of the port is
   turned down before the transport is called. -/
namespace Arinc.EventPort
open Memory SamplingPacket QueuePort

/-! ## The services behind a port -/

/-- The vectors of a partition that the services of the four transports index. -/
structure Partition where
  boards : List Blackboard.Board
  buffers : List BufferBounds.Buffer
  samplingPorts : List (SamplingPort × Reader)
  queuingPorts : List MessageQueue

/-- What a service that reads leaves; the length and the validity are those of
    before where it does not write them. -/
structure Reply where
  returnCode : ReturnCode
  length : BitVec 64
  validity : Validity
  payload : Nat → Byte
  partition : Partition

/-- The bytes of a message in the memory of a port. -/
def toMemory (l : List UInt8) : Nat → Byte := ofList (l.map UInt8.toBitVec) 0

/-- The memory of a port, as a service takes it. -/
def ofMemory (m : Nat → Byte) : Nat → UInt8 := fun i => UInt8.ofBitVec (m i)

namespace Partition

/-- `DISPLAY_BLACKBOARD`. -/
def displayBlackboard (s : Partition) (id : Nat) (payload : Nat → Byte) (length : BitVec 64) :
    Option (ReturnCode × Partition) :=
  (Blackboard.displayBlackboard s.boards id (ofMemory payload) length.toInt).map
    fun (boards, answer) => (answer.code, { s with boards })

/-- `READ_BLACKBOARD`. -/
def readBlackboard (s : Partition) (id : Nat) (timeOut : Int) (length : BitVec 64)
    (payload : Nat → Byte) : Option Reply :=
  (Blackboard.readBlackboard s.boards id timeOut).map fun answer =>
    match answer.message with
    | none => ⟨answer.code, length, .valid, payload, s⟩
    | some m => ⟨answer.code, BitVec.ofInt 64 m.length, .valid,
        copy payload 0 (toMemory m.bytes) m.bytes.length, s⟩

/-- `SEND_BUFFER`. -/
def sendBuffer (s : Partition) (id : Nat) (payload : Nat → Byte) (length : BitVec 64)
    (timeOut : Int) : Option (ReturnCode × Partition) :=
  (BufferBounds.sendBuffer ⟨s.buffers, [], .noError⟩ id (ofMemory payload) length.toInt timeOut).map
    fun t => (t.returned, { s with buffers := t.buffers })

/-- `RECEIVE_BUFFER`. The message is copied out of the slot at the head. -/
def receiveBuffer (s : Partition) (id : Nat) (timeOut : Int) (length : BitVec 64)
    (payload : Nat → Byte) : Option Reply :=
  if s.buffers.length ≤ id % 2 ^ 32 then some ⟨.invalidParam, length, .valid, payload, s⟩
  else if maxTimeOut < timeOut then some ⟨.invalidParam, length, .valid, payload, s⟩
  else
    s.buffers[id]?.bind fun b => (b.receiveMessage timeOut).map fun (b', code) =>
      if code = .noError then
        let slot := b.payload b.bufferHead
        ⟨code, BitVec.ofInt 64 slot.length, .valid,
          copy payload 0 (fun i => (slot.actualLoad i).toBitVec) slot.length.toNat,
          { s with buffers := s.buffers.set id b' }⟩
      else ⟨code, length, .valid, payload, s⟩

/-- `WRITE_SAMPLING_MESSAGE`. -/
def writeSamplingMessage (s : Partition) (id : Nat) (now : NanoTime) (payload : Nat → Byte)
    (length : BitVec 64) : Option (ReturnCode × Partition) :=
  match s.samplingPorts[id]? with
  | none => some (.invalidParam, s)
  | some (p, reader) => (p.writeSamplingMessage now payload length).map fun (code, p) =>
      (code, { s with samplingPorts := s.samplingPorts.set id (p, reader) })

/-- `READ_SAMPLING_MESSAGE`. -/
def readSamplingMessage (s : Partition) (id : Nat) (now : NanoTime) (length : BitVec 64)
    (payload : Nat → Byte) : Reply :=
  match s.samplingPorts[id]? with
  | none => ⟨.invalidParam, length, .valid, payload, s⟩
  | some (p, reader) =>
    let r := p.readSamplingMessage reader now payload
    ⟨r.returnCode, r.length.getD length, r.validity.getD .valid, r.msgPtr,
      { s with samplingPorts := s.samplingPorts.set id (p, r.reader) }⟩

/-- `SEND_QUEUING_MESSAGE`. -/
def sendQueuingMessage (s : Partition) (id : Nat) (now : ClockTime) (payload : Nat → Byte)
    (length : BitVec 64) (timeOut : Int) : Option (ReturnCode × Partition) :=
  match s.queuingPorts[id]? with
  | none => some (.invalidParam, s)
  | some q => (q.sendMessage now payload length.toInt timeOut).map fun (code, q) =>
      (code, { s with queuingPorts := s.queuingPorts.set id q })

/-- `RECEIVE_QUEUING_MESSAGE`. -/
def receiveQueuingMessage (s : Partition) (id : Nat) (now : ClockTime) (timeOut : Int)
    (length : BitVec 64) (payload : Nat → Byte) : Option Reply :=
  match s.queuingPorts[id]? with
  | none => some ⟨.invalidParam, length, .valid, payload, s⟩
  | some q => (q.receiveMessage now payload timeOut).map fun r =>
      ⟨r.returnCode, (r.length.map (BitVec.ofInt 64)).getD length, .valid, r.msgPtr,
        { s with queuingPorts := s.queuingPorts.set id r.queue }⟩

end Partition

/-! ## The port -/

/-- `COMM_IMPL_TYPE`. -/
inductive CommImplType where
  | undefined
  | blackboard
  | buffer
  | samplingport
  | queueingport
  deriving DecidableEq, Repr

/-- `EVENT_PORT_COMM_TYPE`. -/
inductive EventPortCommType where
  | read
  | write
  deriving DecidableEq, Repr

/-- `ACM_EVENT_PORT`; `sender` and `receiver` say whether it has the socket to send by
    and the one to receive by. `U` is the type of the addresses. -/
structure AcmEventPort (U : Type*) where
  eventPortId : Nat
  eventPortType : EventPortCommType
  eventPortValidityPeriod : Int
  eventPortPayload : Nat → Byte
  eventPortTotalSize : BitVec 64
  eventPortImplType : CommImplType
  sender : Bool
  receiver : Bool
  destinationsUrls : List U
  interModuleDataBuffer : Nat → Byte
  onlyInterModule : Bool

/-- The readings of the clock in a call: by the port, by the sampling service and by
    the queuing service. -/
structure Readings where
  port : NanoTime
  sampling : NanoTime
  queuing : ClockTime

/-- What `WRITE_TO_EVENT_PORT` leaves, and the datagrams sent. -/
structure Written (U : Type*) where
  returnCode : ReturnCode
  port : AcmEventPort U
  partition : Partition
  sent : List (U × List Byte)

/-- What `READ_FROM_EVENT_PORT` leaves. -/
structure ReadResult (U : Type*) where
  returnCode : ReturnCode
  length : BitVec 64
  isValid : Bool
  messageAddr : Nat → Byte
  port : AcmEventPort U
  partition : Partition

variable {U : Type*}

/-- The port with the time and the message in its payload. -/
def AcmEventPort.assembled (p : AcmEventPort U) (now : NanoTime) (messageAddr : Nat → Byte)
    (length : BitVec 64) : AcmEventPort U :=
  { p with
    eventPortPayload :=
      copy (copy p.eventPortPayload 0 (bytes now.val) 8) 8 messageAddr length.toNat }

/-- `ASSEMBLE_DATA`: whether the message fits, the new length, and the port. -/
def AcmEventPort.assembleData (p : AcmEventPort U) (now : NanoTime) (messageAddr : Nat → Byte)
    (length : BitVec 64) : Bool × BitVec 64 × AcmEventPort U :=
  let newLength := length + 8
  if newLength.toInt ≤ p.eventPortTotalSize.toInt then
    (true, newLength, p.assembled now messageAddr length)
  else (false, newLength, p)

/-- The packet a write to a sampling port sends to other modules; the code of the
    encoder is asserted. A `sendTo` that fails throws out of the call, here and in
    `transmit`; calls that end so are not modelled. -/
def AcmEventPort.sendSample (p : AcmEventPort U) (s : Partition) : Option (Written U) :=
  match s.samplingPorts[p.eventPortId]? with
  | none => none
  | some (q, _) =>
    let contents := q.readContentsToDataBuffer p.interModuleDataBuffer
      (16 + p.eventPortTotalSize.toInt)
    if contents.returnCode ≠ .noError then none
    else
      some ⟨contents.returnCode, { p with interModuleDataBuffer := contents.msgPtr }, s,
        p.destinationsUrls.map fun url => (url, read contents.msgPtr 0 contents.readLength.toNat)⟩

/-- The services `WRITE_TO_EVENT_PORT` calls, with the code its caller passes in. -/
def AcmEventPort.transmit (p : AcmEventPort U) (s : Partition) (clock : Readings)
    (newLength : BitVec 64) (timeOut : Int) (returnCode : ReturnCode) : Option (Written U) :=
  match p.eventPortImplType with
  | .blackboard =>
    (s.displayBlackboard p.eventPortId p.eventPortPayload newLength).map fun (code, s) =>
      ⟨code, p, s, []⟩
  | .buffer =>
    (s.sendBuffer p.eventPortId p.eventPortPayload newLength timeOut).map fun (code, s) =>
      ⟨code, p, s, []⟩
  | .samplingport =>
    (s.writeSamplingMessage p.eventPortId clock.sampling p.eventPortPayload newLength).bind
      fun (code, s) => if p.sender then p.sendSample s else some ⟨code, p, s, []⟩
  | .queueingport =>
    -- without the local queue the caller's code is left as it is
    (if p.onlyInterModule then some (returnCode, s)
      else s.sendQueuingMessage p.eventPortId clock.queuing p.eventPortPayload newLength
        timeOut).map fun (code, s) =>
      ⟨code, p, s, if p.sender then
        p.destinationsUrls.map fun url => (url, read p.eventPortPayload 0 newLength.toNat)
      else []⟩
  | .undefined => some ⟨.noAction, p, s, []⟩

/-- `WRITE_TO_EVENT_PORT`; `none` where it waits for ever, an assertion fails or a
    negative length reaches `memcpy`. -/
def AcmEventPort.writeToEventPort (port : AcmEventPort U) (s : Partition) (clock : Readings)
    (messageAddr : Nat → Byte) (length : BitVec 64) (timeOut : Int) (returnCode : ReturnCode) :
    Option (Written U) :=
  let (fits, newLength, p) := port.assembleData clock.port messageAddr length
  if fits = false then some ⟨.invalidConfig, p, s, []⟩
  else if length.toInt < 0 then none
  else p.transmit s clock newLength timeOut returnCode

/-- The services `READ_FROM_EVENT_PORT` calls. -/
def AcmEventPort.receive (p : AcmEventPort U) (s : Partition) (clock : Readings) (length : BitVec 64)
    (timeOut : Int) : Option Reply :=
  match p.eventPortImplType with
  | .blackboard => s.readBlackboard p.eventPortId timeOut length p.eventPortPayload
  | .buffer => s.receiveBuffer p.eventPortId timeOut length p.eventPortPayload
  | .samplingport =>
    some (s.readSamplingMessage p.eventPortId clock.sampling length p.eventPortPayload)
  | .queueingport =>
    s.receiveQueuingMessage p.eventPortId clock.queuing timeOut length p.eventPortPayload
  | .undefined => some ⟨.noAction, length, .valid, p.eventPortPayload, s⟩

/-- `PARSE_AND_VALIDATE_DATA`. -/
def AcmEventPort.parseAndValidateData (p : AcmEventPort U) (reply : Reply) (now : NanoTime)
    (messageAddr : Nat → Byte) : ReadResult U :=
  let p := { p with eventPortPayload := reply.payload }
  if reply.returnCode ≠ .noError then
    ⟨reply.returnCode, reply.length, false, messageAddr, p, reply.partition⟩
  else if reply.length.toInt < 8 then
    ⟨.notAvailable, reply.length, false, messageAddr, p, reply.partition⟩
  else
    let length := reply.length - 8
    let age := now.val - word p.eventPortPayload 0 8
    ⟨.noError, length,
      decide (reply.validity = .valid) && decide (age.toInt ≤ p.eventPortValidityPeriod),
      copy messageAddr 0 (fun i => p.eventPortPayload (8 + i)) length.toNat, p, reply.partition⟩

/-- `READ_FROM_EVENT_PORT`. -/
def AcmEventPort.readFromEventPort (p : AcmEventPort U) (s : Partition) (clock : Readings)
    (messageAddr : Nat → Byte) (length : BitVec 64) (timeOut : Int) : Option (ReadResult U) :=
  (p.receive s clock length timeOut).map fun reply =>
    p.parseAndValidateData reply clock.port messageAddr

/-! ## What a transport holds -/

/-- The messages of a blackboard: the one displayed, if any. -/
def boardHeld (b : Blackboard.Board) : List (List Byte) :=
  if b.currentMessageSize = 0 then []
  else [read (fun i => (b.payload i).toBitVec) 0 b.currentMessageSize.toNat]

/-- The message in a slot. -/
def slotMessage (slot : BufferBounds.Payload) : List Byte :=
  read (fun i => (slot.actualLoad i).toBitVec) 0 slot.length.toNat

/-- The messages of a buffer, from the head on. -/
def bufferHeld (b : BufferBounds.Buffer) : List (List Byte) :=
  (Ring.window b.maxNbMessage b.payload b.bufferHead b.currentMessageSize).map slotMessage

/-- The message of a sampling port, if any. -/
def portHeld (p : SamplingPort) : List (List Byte) :=
  if p.sharedMemory.messageSize = 0 then [] else [read p.sharedMemory.data 0 p.sharedMemory.count]

/-- The messages the object of an id holds for its readers, the next one first. -/
def Partition.held (s : Partition) (impl : CommImplType) (id : Nat) : List (List Byte) :=
  match impl with
  | .blackboard => (s.boards[id]?.map boardHeld).getD []
  | .buffer => (s.buffers[id]?.map bufferHeld).getD []
  | .samplingport => (s.samplingPorts[id]?.map fun port => portHeld port.1).getD []
  | .queueingport => (s.queuingPorts[id]?.map fun q => q.mq.elements).getD []
  | .undefined => []

/-- The object of an id is in the order in which its creation, for messages of up to
    `size` bytes, and its calls leave it. -/
def Partition.Works (s : Partition) (impl : CommImplType) (id : Nat) (size : Int) : Prop :=
  match impl with
  | .buffer => ∀ b, s.buffers[id]? = some b → b.Ok
  | .samplingport => ∀ port, s.samplingPorts[id]? = some port →
      port.1.readyOrNot = true ∧ port.1.maxMessageSize = size
  | .queueingport => ∀ q, s.queuingPorts[id]? = some q → q.Opened
  | .blackboard | .undefined => True

/-- The object of an id is one to read from. -/
def Partition.Readable (s : Partition) (impl : CommImplType) (id : Nat) : Prop :=
  match impl with
  | .samplingport => ∀ port, s.samplingPorts[id]? = some port → port.1.portDirection ≠ .portSource
  | .queueingport => ∀ q, s.queuingPorts[id]? = some q → q.qPortDirection ≠ .portSource
  | .blackboard | .buffer | .undefined => True

/-- What a port puts into its transport: the time, then the message. -/
def frame (now : NanoTime) (messageAddr : Nat → Byte) (length : BitVec 64) : List Byte :=
  read (bytes now.val) 0 8 ++ read messageAddr 0 length.toNat

/-- A port created for messages of up to `size` bytes; its transport was not created
    with a size that has overflowed. -/
structure AcmEventPort.Created (p : AcmEventPort U) (size : BitVec 64) : Prop where
  totalSize : p.eventPortTotalSize = size + 8
  pos : 0 < p.eventPortTotalSize.toInt

/-- What a port has written has come to a reader: the message the reader's transport
    holds next is the one the writer's transport holds last or, sent by a socket, the
    datagram. -/
def Delivered (w : AcmEventPort U) (written : Written U) (r : AcmEventPort U) (t : Partition) : Prop :=
  r.eventPortImplType = w.eventPortImplType ∧
    ((w.eventPortImplType = .queueingport → w.onlyInterModule = false) ∧
        (t.held r.eventPortImplType r.eventPortId).head? =
          (written.partition.held w.eventPortImplType w.eventPortId).getLast? ∨
      w.eventPortImplType = .queueingport ∧
        ∃ sent ∈ written.sent, (t.held r.eventPortImplType r.eventPortId).head? = some sent.2)

/-! ## Lengths and frames -/

theorem toNat_toInt {n : BitVec 64} (h : 0 ≤ n.toInt) : n.toInt.toNat = n.toNat := by
  have hlt := n.isLt
  rw [BitVec.toInt_eq_toNat_cond] at h ⊢
  split
  · exact Int.toNat_natCast n.toNat
  · rename_i hneg
    rw [if_neg hneg] at h
    omega

theorem read_copy_ofMemory (dst : Nat → UInt8) (m : Nat → Byte) (n : Nat) :
    read (fun i => (copy dst 0 (ofMemory m) n i).toBitVec) 0 n = read m 0 n := by
  calc read (fun i => (copy dst 0 (ofMemory m) n i).toBitVec) 0 n
      = (read (copy dst 0 (ofMemory m) n) 0 n).map UInt8.toBitVec := read_map UInt8.toBitVec _ 0 n
    _ = (read (ofMemory m) 0 n).map UInt8.toBitVec := by rw [read_copy (Nat.le_refl n)]
    _ = read m 0 n := (read_map UInt8.toBitVec (ofMemory m) 0 n).symm

theorem read_copy_toMemory (dst : Nat → Byte) (l : List UInt8) :
    read (copy dst 0 (toMemory l) l.length) 0 l.length = l.map UInt8.toBitVec := by
  have hlist := read_ofList (l.map UInt8.toBitVec) 0
  rw [List.length_map] at hlist
  rw [read_copy (Nat.le_refl l.length), toMemory, hlist]

theorem add_eight {n : BitVec 64} (h : n.toInt + 8 < 2 ^ 63) : (n + 8).toInt = n.toInt + 8 := by
  have hle := BitVec.le_toInt n
  have height : (8 : BitVec 64).toInt = 8 := rfl
  rw [BitVec.toInt_add, height]
  apply Int.bmod_eq_of_le
  · omega
  · omega

theorem AcmEventPort.Created.totalSize_toInt {p : AcmEventPort U} {size : BitVec 64} (h : p.Created size)
    (hsize : 0 ≤ size.toInt) : p.eventPortTotalSize.toInt = size.toInt + 8 := by
  have hpos := h.pos
  have hlt := BitVec.toInt_lt (x := size)
  have height : (8 : BitVec 64).toInt = 8 := rfl
  rw [h.totalSize, BitVec.toInt_add, height, Int.bmod_def] at hpos ⊢
  omega

theorem length_frame (now : NanoTime) (messageAddr : Nat → Byte) {length : BitVec 64}
    (hnonneg : 0 ≤ length.toInt) (hlt : length.toInt + 8 < 2 ^ 63) :
    (length + 8).toNat = 8 + length.toNat ∧
      (frame now messageAddr length).length = (length + 8).toNat := by
  have hnat : (length + 8).toNat = 8 + length.toNat := by
    rw [← toNat_toInt hnonneg, ← toNat_toInt (n := length + 8) (by rw [add_eight hlt]; omega),
      add_eight hlt]
    omega
  exact ⟨hnat, by rw [hnat, frame, List.length_append, length_read, length_read]⟩

theorem read_assembled (p : AcmEventPort U) (now : NanoTime) (messageAddr : Nat → Byte)
    (length : BitVec 64) :
    read (p.assembled now messageAddr length).eventPortPayload 0 (8 + length.toNat) =
      frame now messageAddr length := by
  have htime : read (copy (copy p.eventPortPayload 0 (bytes now.val) 8) 8 messageAddr length.toNat)
      0 8 = read (bytes now.val) 0 8 := by
    rw [read_copy_of_apart (by omega), read_copy (Nat.le_refl 8)]
  rw [read_append, frame, AcmEventPort.assembled]
  simp only [Nat.zero_add, htime, read_copy (Nat.le_refl length.toNat)]

/-! ## Writes -/

theorem displayBlackboard_held {s t : Partition} {id : Nat} {payload : Nat → Byte}
    {n : BitVec 64} (hn : 0 < n.toInt) (h : s.displayBlackboard id payload n = some (.noError, t)) :
    t.held .blackboard id = [read payload 0 n.toNat] := by
  obtain ⟨⟨boards, answer⟩, hdisplay, heq⟩ := Option.map_eq_some_iff.mp h
  obtain ⟨hcode, rfl⟩ := Prod.mk.inj heq
  unfold Blackboard.displayBlackboard at hdisplay
  split at hdisplay
  · obtain ⟨-, rfl⟩ := Prod.mk.inj (Option.some.inj hdisplay)
    cases hcode
  rename_i b hb
  split at hdisplay
  · obtain ⟨-, rfl⟩ := Prod.mk.inj (Option.some.inj hdisplay)
    cases hcode
  obtain ⟨b', hwrite, heq'⟩ := Option.map_eq_some_iff.mp hdisplay
  obtain ⟨rfl, -⟩ := Prod.mk.inj heq'
  obtain ⟨hlt, -⟩ := List.getElem?_eq_some_iff.mp hb
  have hboard : b'.currentMessageSize = n.toInt ∧
      b'.payload = copy b.eraseBlackboard.payload 0 (ofMemory payload) n.toInt.toNat := by
    unfold Blackboard.Board.writeOnBlackboard at hwrite
    split at hwrite
    · cases hwrite
    · split at hwrite
      · cases hwrite
      · obtain rfl := Option.some.inj hwrite
        exact ⟨rfl, rfl⟩
  have hnonzero : ¬ n.toInt = 0 := Int.ne_of_gt hn
  simp only [Partition.held, List.getElem?_set_self hlt, Option.map_some, Option.getD_some,
    boardHeld, hboard.1, if_neg hnonzero, toNat_toInt (Int.le_of_lt hn)]
  rw [hboard.2, toNat_toInt (Int.le_of_lt hn), read_copy_ofMemory]

theorem sendBuffer_held {s t : Partition} {id : Nat} {payload : Nat → Byte} {n : BitVec 64}
    {timeOut size : Int} (hn : 0 < n.toInt) (hs : s.Works .buffer id size)
    (h : s.sendBuffer id payload n timeOut = some (.noError, t)) :
    t.held .buffer id = s.held .buffer id ++ [read payload 0 n.toNat] := by
  obtain ⟨u, hsend, heq⟩ := Option.map_eq_some_iff.mp h
  obtain ⟨hcode, rfl⟩ := Prod.mk.inj heq
  unfold BufferBounds.sendBuffer at hsend
  split at hsend
  · obtain rfl := Option.some.inj hsend
    cases hcode
  split at hsend
  · obtain rfl := Option.some.inj hsend
    cases hcode
  obtain ⟨b, hb, hsend⟩ := Option.bind_eq_some_iff.mp hsend
  obtain ⟨⟨b', code⟩, hmessage, rfl⟩ := Option.map_eq_some_iff.mp hsend
  obtain rfl : code = .noError := hcode
  obtain ⟨hlt, -⟩ := List.getElem?_eq_some_iff.mp hb
  have hheld : bufferHeld b' = bufferHeld b ++ [read payload 0 n.toNat] := by
    obtain ⟨load, hwindow⟩ := BufferBounds.sendMessage_window (hs b hb) hmessage
    rw [bufferHeld, hwindow, List.map_append, List.map_singleton, slotMessage]
    simp only [toNat_toInt (Int.le_of_lt hn), read_copy_ofMemory]
    rfl
  simp only [Partition.held, List.getElem?_set_self hlt, hb, Option.map_some, Option.getD_some,
    hheld]

theorem writeSamplingMessage_held {s t : Partition} {id : Nat} {now : NanoTime}
    {payload : Nat → Byte} {n : BitVec 64} (hn : 0 < n.toInt)
    (h : s.writeSamplingMessage id now payload n = some (.noError, t)) :
    t.held .samplingport id = [read payload 0 n.toNat] := by
  unfold Partition.writeSamplingMessage at h
  split at h
  · cases (Prod.mk.inj (Option.some.inj h)).1
  rename_i p reader hp
  obtain ⟨⟨code, p'⟩, hwrite, heq⟩ := Option.map_eq_some_iff.mp h
  obtain ⟨hcode, rfl⟩ := Prod.mk.inj heq
  obtain rfl : code = .noError := hcode
  obtain ⟨hlt, -⟩ := List.getElem?_eq_some_iff.mp hp
  have hheld : portHeld p' = [read payload 0 n.toNat] := by
    unfold SamplingPort.writeSamplingMessage at hwrite
    obtain ⟨-, hwrite⟩ := passed_of_noError (by decide) hwrite
    obtain ⟨-, hwrite⟩ := passed_of_noError (by decide) hwrite
    obtain ⟨-, hwrite⟩ := passed_of_noError (by decide) hwrite
    split at hwrite
    · cases hwrite
    obtain ⟨-, rfl⟩ := Prod.mk.inj (Option.some.inj hwrite)
    have hnonzero : ¬ n = 0 := by
      rintro rfl
      exact absurd hn (by decide)
    simp only [portHeld, if_neg hnonzero, SamplingData.count, read_copy (Nat.le_refl n.toNat)]
  simp only [Partition.held, List.getElem?_set_self hlt, Option.map_some, Option.getD_some, hheld]

theorem sendQueuingMessage_held {s t : Partition} {id : Nat} {now : ClockTime}
    {payload : Nat → Byte} {n : BitVec 64} {timeOut : Int}
    (h : s.sendQueuingMessage id now payload n timeOut = some (.noError, t)) :
    t.held .queueingport id = s.held .queueingport id ++ [read payload 0 n.toNat] := by
  unfold Partition.sendQueuingMessage at h
  split at h
  · cases (Prod.mk.inj (Option.some.inj h)).1
  rename_i q hq
  obtain ⟨⟨code, q'⟩, hsend, heq⟩ := Option.map_eq_some_iff.mp h
  obtain ⟨hcode, rfl⟩ := Prod.mk.inj heq
  obtain rfl : code = .noError := hcode
  obtain ⟨hlt, -⟩ := List.getElem?_eq_some_iff.mp hq
  have hheld : q'.mq.elements = q.mq.elements ++ [read payload 0 n.toNat] := by
    have hsize : MessageQueue.sizeT n.toInt = n.toNat := by
      have hlt := n.isLt
      rw [MessageQueue.sizeT, BitVec.toInt_eq_toNat_cond]
      split <;> omega
    rw [MessageQueue.sendMessage_noError hsend, hsize]
  simp only [Partition.held, List.getElem?_set_self hlt, hq, Option.map_some, Option.getD_some,
    hheld]

/-- A write to a sampling port whose contents can be read for the socket behind it
    has succeeded. -/
theorem writeSamplingMessage_noError {s t : Partition} {id : Nat} {now : NanoTime}
    {payload : Nat → Byte} {n : BitVec 64} {size : Int} {code : ReturnCode} (hn : n.toInt ≤ size)
    (hs : s.Works .samplingport id size)
    (h : s.writeSamplingMessage id now payload n = some (code, t)) {q : SamplingPort}
    {reader : Reader} (hq : t.samplingPorts[id]? = some (q, reader))
    (hdirection : q.portDirection ≠ .portDest) : code = .noError := by
  unfold Partition.writeSamplingMessage at h
  split at h
  · rename_i hnone
    obtain ⟨-, rfl⟩ := Prod.mk.inj (Option.some.inj h)
    cases hnone.symm.trans hq
  rename_i p reader' hp
  obtain ⟨hready, hmax⟩ : p.readyOrNot = true ∧ p.maxMessageSize = size := hs (p, reader') hp
  obtain ⟨⟨code', p'⟩, hwrite, heq⟩ := Option.map_eq_some_iff.mp h
  obtain ⟨rfl, rfl⟩ := Prod.mk.inj heq
  obtain ⟨hlt, -⟩ := List.getElem?_eq_some_iff.mp hp
  obtain ⟨rfl, -⟩ : p' = q ∧ reader' = reader := by
    rw [List.getElem?_set_self hlt] at hq
    exact Prod.mk.inj (Option.some.inj hq)
  rw [SamplingPort.writeSamplingMessage, if_neg (by simp [hready])] at hwrite
  split at hwrite
  · -- a port that cannot be written to cannot be read for the socket
    rename_i hdest
    obtain ⟨-, rfl⟩ := Prod.mk.inj (Option.some.inj hwrite)
    exact absurd hdest hdirection
  rw [if_neg (by rw [hmax]; exact Int.not_lt.mpr hn)] at hwrite
  split at hwrite
  · cases hwrite
  · exact (Prod.mk.inj (Option.some.inj hwrite)).1.symm

theorem sendSample_some {p : AcmEventPort U} {s : Partition} {written : Written U}
    (h : p.sendSample s = some written) :
    written.partition = s ∧ ∃ q reader, s.samplingPorts[p.eventPortId]? = some (q, reader) ∧
      q.portDirection ≠ .portDest := by
  unfold AcmEventPort.sendSample at h
  split at h
  · cases h
  rename_i q reader hq
  simp only at h
  split at h
  · cases h
  rename_i hcode
  obtain rfl := Option.some.inj h
  refine ⟨rfl, q, reader, hq, ?_⟩
  intro hdest
  apply hcode
  unfold SamplingPort.readContentsToDataBuffer
  rw [if_pos hdest]
  split
  · exact ReturnCode.noConfusion
  · exact ReturnCode.noConfusion

/-- What the services leave in the transport, if they succeed. -/
theorem transmit_held {p : AcmEventPort U} {s : Partition} {clock : Readings} {n : BitVec 64}
    {timeOut : Int} {code : ReturnCode} {written : Written U} (hn : 0 < n.toInt)
    (hfits : n.toInt ≤ p.eventPortTotalSize.toInt)
    (hs : s.Works p.eventPortImplType p.eventPortId p.eventPortTotalSize.toInt)
    (h : p.transmit s clock n timeOut code = some written) (hcode : written.returnCode = .noError) :
    p.eventPortImplType ≠ .undefined ∧
      ((p.eventPortImplType = .queueingport → p.onlyInterModule = false) →
        (written.partition.held p.eventPortImplType p.eventPortId).getLast? =
          some (read p.eventPortPayload 0 n.toNat)) ∧
      (p.eventPortImplType = .queueingport →
        ∀ sent ∈ written.sent, sent.2 = read p.eventPortPayload 0 n.toNat) := by
  unfold AcmEventPort.transmit at h
  cases himpl : p.eventPortImplType with
  | undefined =>
    rw [himpl] at h
    obtain rfl := Option.some.inj h
    cases hcode
  | blackboard =>
    rw [himpl] at h
    obtain ⟨⟨code', t⟩, hdisplay, rfl⟩ := Option.map_eq_some_iff.mp h
    obtain rfl : code' = .noError := hcode
    refine ⟨CommImplType.noConfusion, fun _ => ?_, CommImplType.noConfusion⟩
    rw [displayBlackboard_held hn hdisplay, List.getLast?_singleton]
  | buffer =>
    rw [himpl] at h hs
    obtain ⟨⟨code', t⟩, hsend, rfl⟩ := Option.map_eq_some_iff.mp h
    obtain rfl : code' = .noError := hcode
    refine ⟨CommImplType.noConfusion, fun _ => ?_, CommImplType.noConfusion⟩
    rw [sendBuffer_held hn hs hsend, List.getLast?_concat]
  | samplingport =>
    rw [himpl] at h hs
    obtain ⟨⟨code', t⟩, hwrite, hsend⟩ := Option.bind_eq_some_iff.mp h
    have hdone : code' = .noError ∧ written.partition = t := by
      simp only at hsend
      split at hsend
      · obtain ⟨hpartition, q, reader, hq, hdirection⟩ := sendSample_some hsend
        exact ⟨writeSamplingMessage_noError hfits hs hwrite hq hdirection, hpartition⟩
      · obtain rfl := Option.some.inj hsend
        exact ⟨hcode, rfl⟩
    obtain ⟨rfl, rfl⟩ := hdone
    refine ⟨CommImplType.noConfusion, fun _ => ?_, CommImplType.noConfusion⟩
    rw [writeSamplingMessage_held hn hwrite, List.getLast?_singleton]
  | queueingport =>
    rw [himpl] at h
    obtain ⟨⟨code', t⟩, hsend, rfl⟩ := Option.map_eq_some_iff.mp h
    obtain rfl : code' = .noError := hcode
    refine ⟨CommImplType.noConfusion, fun hlocal => ?_, fun _ sent hsent => ?_⟩
    · rw [hlocal rfl, if_neg Bool.false_ne_true] at hsend
      rw [sendQueuingMessage_held hsend, List.getLast?_concat]
    · simp only at hsent
      split at hsent
      · obtain ⟨url, -, rfl⟩ := List.mem_map.mp hsent
        rfl
      · cases hsent

theorem writeToEventPort_held {p : AcmEventPort U} {s : Partition} {clock : Readings}
    {messageAddr : Nat → Byte} {length : BitVec 64} {timeOut : Int} {code : ReturnCode}
    {written : Written U} (hs : s.Works p.eventPortImplType p.eventPortId p.eventPortTotalSize.toInt)
    (hnonneg : 0 ≤ length.toInt) (hlength : length.toInt + 8 < 2 ^ 63)
    (hfits : (length + 8).toInt ≤ p.eventPortTotalSize.toInt)
    (h : p.writeToEventPort s clock messageAddr length timeOut code = some written)
    (hcode : written.returnCode = .noError) :
    p.eventPortImplType ≠ .undefined ∧
      ((p.eventPortImplType = .queueingport → p.onlyInterModule = false) →
        (written.partition.held p.eventPortImplType p.eventPortId).getLast? =
          some (frame clock.port messageAddr length)) ∧
      (p.eventPortImplType = .queueingport →
        ∀ sent ∈ written.sent, sent.2 = frame clock.port messageAddr length) := by
  have hpos : 0 < (length + 8).toInt := by
    rw [add_eight hlength]
    omega
  obtain ⟨hnat, -⟩ := length_frame clock.port messageAddr hnonneg hlength
  have hframe : read (p.assembled clock.port messageAddr length).eventPortPayload 0
      (length + 8).toNat = frame clock.port messageAddr length := by
    rw [hnat, read_assembled]
  have htransmit : (p.assembled clock.port messageAddr length).transmit s clock (length + 8) timeOut
      code = some written := by
    rw [AcmEventPort.writeToEventPort, AcmEventPort.assembleData, if_pos hfits] at h
    simpa [Int.not_lt.mpr hnonneg] using h
  have hheld := transmit_held (p := p.assembled clock.port messageAddr length) hpos hfits hs htransmit
    hcode
  rw [hframe] at hheld
  exact hheld

/-! ## Reads -/

/-- A reply that hands out the message `f`. -/
structure Reply.Carries (reply : Reply) (f : List Byte) : Prop where
  returnCode : reply.returnCode = .noError
  length : reply.length.toNat = f.length
  payload : read reply.payload 0 f.length = f

theorem toNat_ofInt {k : Int} (hpos : 0 ≤ k) (hlt : k.toNat < 2 ^ 63) :
    (BitVec.ofInt 64 k).toNat = k.toNat := by
  rw [BitVec.toNat_ofInt]
  omega

theorem readBlackboard_head {s : Partition} {id : Nat} {f : List Byte} {rest : List (List Byte)}
    (hheld : s.held .blackboard id = f :: rest) (hpos : 0 < f.length) (hlt : f.length < 2 ^ 63)
    {timeOut : Int} (htimeOut : timeOut ≤ maxTimeOut) (length : BitVec 64) (payload : Nat → Byte) :
    ∃ reply, s.readBlackboard id timeOut length payload = some reply ∧ reply.Carries f ∧
      reply.validity = .valid := by
  cases hb : s.boards[id]? with
  | none => simp [Partition.held, hb] at hheld
  | some b =>
    simp only [Partition.held, hb, Option.map_some, Option.getD_some, boardHeld] at hheld
    split at hheld
    · cases hheld
    rename_i hnonzero
    obtain ⟨rfl, -⟩ := List.cons.inj hheld
    rw [length_read] at hpos hlt
    have hread : s.readBlackboard id timeOut length payload = some ⟨.noError,
        BitVec.ofInt 64 b.currentMessageSize, .valid,
        copy payload 0 (toMemory b.readFromBlackboard.bytes) b.readFromBlackboard.bytes.length, s⟩ := by
      simp [Partition.readBlackboard, Blackboard.readBlackboard, hb, Int.not_lt.mpr htimeOut,
        hnonzero, Blackboard.Board.readFromBlackboard]
    refine ⟨_, hread, ⟨rfl, ?_, ?_⟩, rfl⟩
    · rw [length_read, toNat_ofInt (by omega) hlt]
    · rw [read_map UInt8.toBitVec b.payload, List.length_map]
      exact read_copy_toMemory payload (read b.payload 0 b.currentMessageSize.toNat)

theorem receiveBuffer_head {s : Partition} {id : Nat} {size : Int} (hs : s.Works .buffer id size)
    {f : List Byte} {rest : List (List Byte)} (hheld : s.held .buffer id = f :: rest)
    (hpos : 0 < f.length) (hlt : f.length < 2 ^ 63) {timeOut : Int} (htimeOut : timeOut ≤ maxTimeOut)
    (length : BitVec 64) (payload : Nat → Byte) :
    ∃ reply, s.receiveBuffer id timeOut length payload = some reply ∧ reply.Carries f ∧
      reply.validity = .valid := by
  cases hb : s.buffers[id]? with
  | none => simp [Partition.held, hb] at hheld
  | some b =>
    simp only [Partition.held, hb, Option.map_some, Option.getD_some, bufferHeld] at hheld
    obtain ⟨slot, slots, hwindow, rfl, -⟩ := List.map_eq_cons_iff.mp hheld
    obtain ⟨hslot, b', hreceive⟩ := BufferBounds.receiveMessage_window (hs b hb) htimeOut hwindow
    rw [slotMessage, length_read] at hpos hlt
    have hread : s.receiveBuffer id timeOut length payload = some ⟨.noError,
        BitVec.ofInt 64 slot.length, .valid,
        copy payload 0 (fun i => (slot.actualLoad i).toBitVec) slot.length.toNat,
        { s with buffers := s.buffers.set id b' }⟩ := by
      have hid : ¬ s.buffers.length ≤ id % 2 ^ 32 := by
        obtain ⟨hid, -⟩ := List.getElem?_eq_some_iff.mp hb
        have hle := Nat.mod_le id (2 ^ 32)
        omega
      rw [Partition.receiveBuffer, if_neg hid, if_neg (Int.not_lt.mpr htimeOut), hb]
      simp [hreceive, hslot]
    refine ⟨_, hread, ⟨rfl, ?_, ?_⟩, rfl⟩
    · rw [slotMessage, length_read, toNat_ofInt (by omega) hlt]
    · rw [slotMessage, length_read, read_copy (Nat.le_refl _)]

theorem readSamplingMessage_head {s : Partition} {id : Nat} {size : Int}
    (hs : s.Works .samplingport id size) (hreadable : s.Readable .samplingport id) {f : List Byte}
    {rest : List (List Byte)} (hheld : s.held .samplingport id = f :: rest) (now : NanoTime)
    (length : BitVec 64) (payload : Nat → Byte) :
    (s.readSamplingMessage id now length payload).Carries f := by
  cases hp : s.samplingPorts[id]? with
  | none => simp [Partition.held, hp] at hheld
  | some port =>
    obtain ⟨hready, -⟩ := hs port hp
    have hdirection := hreadable port hp
    simp only [Partition.held, hp, Option.map_some, Option.getD_some, portHeld] at hheld
    split at hheld
    · cases hheld
    rename_i hnonzero
    obtain ⟨rfl, -⟩ := List.cons.inj hheld
    have hread : (s.readSamplingMessage id now length payload).returnCode = .noError ∧
        (s.readSamplingMessage id now length payload).length = port.1.sharedMemory.messageSize ∧
        (s.readSamplingMessage id now length payload).payload =
          copy payload 0 port.1.sharedMemory.data port.1.sharedMemory.count := by
      simp only [Partition.readSamplingMessage, hp, SamplingPort.readSamplingMessage, hready,
        Bool.true_eq_false, if_false, if_neg hdirection, if_neg hnonzero, Option.getD_some, and_self]
    obtain ⟨hcode, hlength, hpayload⟩ := hread
    refine ⟨hcode, ?_, ?_⟩
    · rw [hlength, length_read, SamplingData.count]
    · rw [hpayload, length_read, read_copy (Nat.le_refl _)]

theorem receiveQueuingMessage_head {s : Partition} {id : Nat} {size : Int}
    (hs : s.Works .queueingport id size) (hreadable : s.Readable .queueingport id) {f : List Byte}
    {rest : List (List Byte)} (hheld : s.held .queueingport id = f :: rest) (hlt : f.length < 2 ^ 63)
    (now : ClockTime) {timeOut : Int} (htimeOut : timeOut ≤ maxTimeOut) (length : BitVec 64)
    (payload : Nat → Byte) :
    ∃ reply, s.receiveQueuingMessage id now timeOut length payload = some reply ∧
      reply.Carries f ∧ reply.validity = .valid := by
  cases hq : s.queuingPorts[id]? with
  | none => simp [Partition.held, hq] at hheld
  | some q =>
    simp only [Partition.held, hq, Option.map_some, Option.getD_some] at hheld
    obtain ⟨payload', q', hreceive, hmessage, -⟩ :=
      MessageQueue.receiveMessage_cons (hs q hq) (hreadable q hq) now payload htimeOut hheld
    have hread : s.receiveQueuingMessage id now timeOut length payload = some ⟨.noError,
        BitVec.ofInt 64 f.length, .valid, payload',
        { s with queuingPorts := s.queuingPorts.set id q' }⟩ := by
      simp [Partition.receiveQueuingMessage, hq, hreceive]
    exact ⟨_, hread, ⟨rfl, toNat_ofInt (Int.natCast_nonneg _) hlt, hmessage⟩, rfl⟩

theorem receive_head {p : AcmEventPort U} {s : Partition} {size : Int}
    (hs : s.Works p.eventPortImplType p.eventPortId size)
    (hreadable : s.Readable p.eventPortImplType p.eventPortId) {f : List Byte}
    (hheld : (s.held p.eventPortImplType p.eventPortId).head? = some f) (hpos : 0 < f.length)
    (hlt : f.length < 2 ^ 63) (clock : Readings) (length : BitVec 64) {timeOut : Int}
    (htimeOut : timeOut ≤ maxTimeOut) :
    ∃ reply, p.receive s clock length timeOut = some reply ∧ reply.Carries f ∧
      (p.eventPortImplType ≠ .samplingport → reply.validity = .valid) := by
  obtain ⟨rest, hcons⟩ : ∃ rest, s.held p.eventPortImplType p.eventPortId = f :: rest :=
    ⟨_, List.eq_cons_of_mem_head? hheld⟩
  -- What the transport holds first is what it hands out, whichever of the four it is.
  unfold AcmEventPort.receive
  cases himpl : p.eventPortImplType with
  | undefined =>
    rw [himpl] at hcons
    cases hcons
  | blackboard =>
    rw [himpl] at hcons
    obtain ⟨reply, hreply, hcarries, hvalid⟩ :=
      readBlackboard_head hcons hpos hlt htimeOut length p.eventPortPayload
    exact ⟨reply, hreply, hcarries, fun _ => hvalid⟩
  | buffer =>
    rw [himpl] at hcons hs
    obtain ⟨reply, hreply, hcarries, hvalid⟩ :=
      receiveBuffer_head hs hcons hpos hlt htimeOut length p.eventPortPayload
    exact ⟨reply, hreply, hcarries, fun _ => hvalid⟩
  | samplingport =>
    rw [himpl] at hcons hs hreadable
    exact ⟨_, rfl, readSamplingMessage_head hs hreadable hcons clock.sampling length
      p.eventPortPayload, fun hne => absurd rfl hne⟩
  | queueingport =>
    rw [himpl] at hcons hs hreadable
    obtain ⟨reply, hreply, hcarries, hvalid⟩ := receiveQueuingMessage_head hs hreadable hcons hlt
      clock.queuing htimeOut length p.eventPortPayload
    exact ⟨reply, hreply, hcarries, fun _ => hvalid⟩

theorem parseAndValidateData_frame (p : AcmEventPort U) {reply : Reply} {written : NanoTime}
    {message : Nat → Byte} {length : BitVec 64} (hnonneg : 0 ≤ length.toInt)
    (hlength : length.toInt + 8 < 2 ^ 63) (hreply : reply.Carries (frame written message length))
    (now : NanoTime) (messageAddr : Nat → Byte) :
    let result := p.parseAndValidateData reply now messageAddr
    result.returnCode = .noError ∧ result.length = length ∧
      read result.messageAddr 0 length.toNat = read message 0 length.toNat ∧
      (result.isValid = true ↔ reply.validity = .valid ∧
        now.val.toInt - written.val.toInt ≤ p.eventPortValidityPeriod) := by
  obtain ⟨hcode, hcount, hpayload⟩ := hreply
  obtain ⟨hnat, hframe⟩ := length_frame written message hnonneg hlength
  have hnew : reply.length = length + 8 := BitVec.eq_of_toNat_eq (hcount.trans hframe)
  have hback : reply.length - 8 = length := by rw [hnew, BitVec.add_sub_cancel]
  have hlong : ¬ reply.length.toInt < 8 := by
    rw [hnew, add_eight hlength]
    omega
  -- the payload of the reader now begins with the time and goes on with the message
  rw [hframe, hnat, read_append, frame] at hpayload
  obtain ⟨htime, hmessage⟩ := List.append_inj hpayload (by simp)
  have hword : word reply.payload 0 8 = written.val :=
    calc word reply.payload 0 8 = word (bytes written.val) 0 8 := word_congr (read_inj htime)
      _ = written.val := word_bytes (n := 8) written.val
  have hage : (now.val - word reply.payload 0 8).toInt = now.val.toInt - written.val.toInt := by
    rw [hword, SamplingSystem.age_toInt now.property written.property]
  have hparse : p.parseAndValidateData reply now messageAddr = ⟨.noError, length,
      decide (reply.validity = .valid) &&
        decide (now.val.toInt - written.val.toInt ≤ p.eventPortValidityPeriod),
      copy messageAddr 0 (fun i => reply.payload (8 + i)) length.toNat,
      { p with eventPortPayload := reply.payload }, reply.partition⟩ := by
    rw [AcmEventPort.parseAndValidateData, if_neg (fun hne => hne hcode), if_neg hlong]
    simp only [hback, hage]
  rw [hparse]
  refine ⟨rfl, rfl, ?_, ?_⟩
  · rw [read_copy (Nat.le_refl length.toNat), ← hmessage]
    apply read_congr
    intro i _
    rw [Nat.zero_add, Nat.zero_add]
  · rw [Bool.and_eq_true, decide_eq_true_iff, decide_eq_true_iff]

/-! ## Deliveries -/

/-- A destination of a sampling channel has got the message when it holds what the
    source holds. -/
theorem delivered_of_holds {w r : AcmEventPort U} {written : Written U} {t : Partition}
    {p q : SamplingPort} {reader reader' : Reader} (hw : w.eventPortImplType = .samplingport)
    (hr : r.eventPortImplType = .samplingport)
    (hp : written.partition.samplingPorts[w.eventPortId]? = some (p, reader))
    (hq : t.samplingPorts[r.eventPortId]? = some (q, reader'))
    (hholds : q.Holds p.sharedMemory) : Delivered w written r t := by
  refine ⟨hr.trans hw.symm, Or.inl ⟨fun hqueue => ?_, ?_⟩⟩
  · cases hw.symm.trans hqueue
  · have hcount : q.sharedMemory.count = p.sharedMemory.count := congrArg BitVec.toNat hholds.size
    have hheld : portHeld q = portHeld p := by
      rw [portHeld, portHeld, hholds.size, hcount, hholds.message]
    rw [hr, hw]
    simp only [Partition.held, hp, hq, Option.map_some, Option.getD_some, hheld]
    unfold portHeld
    split
    · rfl
    · rfl

/-! ## The round trip -/

/-- **An event port gives back what was written.** A message that is longer than the
    size of the port is turned down, with the transport as it was. A message that
    fits and whose write has succeeded is read back by every port that was created for
    the same size and that it has come to, with its length and its bytes; it is valid
    just when the transport reports it valid and its age is at most the validity
    period of the reader. Transports other than sampling ports report every message
    valid, and what they hand out fits into the payload of the reader. -/
theorem event_port_round_trip (w r : AcmEventPort U) (size : BitVec 64) (hw : w.Created size)
    (hr : r.Created size) (s : Partition) (clock : Readings) (message : Nat → Byte)
    (length : BitVec 64) (timeOut : Int) (code : ReturnCode) :
    (size.toInt < length.toInt → length.toInt + 8 < 2 ^ 63 →
      w.writeToEventPort s clock message length timeOut code = some ⟨.invalidConfig, w, s, []⟩) ∧
    (0 ≤ length.toInt → length.toInt ≤ size.toInt → ∀ written,
      s.Works w.eventPortImplType w.eventPortId w.eventPortTotalSize.toInt →
      w.writeToEventPort s clock message length timeOut code = some written →
      written.returnCode = .noError → ∀ t : Partition,
        t.Works r.eventPortImplType r.eventPortId r.eventPortTotalSize.toInt →
        t.Readable r.eventPortImplType r.eventPortId → Delivered w written r t →
        ∀ (clock' : Readings) (messageAddr : Nat → Byte) (length₀ : BitVec 64) (timeOut' : Int),
          timeOut' ≤ maxTimeOut → ∃ reply result,
            r.receive t clock' length₀ timeOut' = some reply ∧
            r.readFromEventPort t clock' messageAddr length₀ timeOut' = some result ∧
            result.returnCode = .noError ∧ result.length = length ∧
            read result.messageAddr 0 length.toNat = read message 0 length.toNat ∧
            (result.isValid = true ↔ reply.validity = .valid ∧
              clock'.port.val.toInt - clock.port.val.toInt ≤ r.eventPortValidityPeriod) ∧
            (r.eventPortImplType ≠ .samplingport → reply.validity = .valid) ∧
            reply.length.toInt ≤ r.eventPortTotalSize.toInt) := by
  refine ⟨?_, ?_⟩
  · intro hlong hlength
    have hle := BitVec.le_toInt size
    have htotal : w.eventPortTotalSize.toInt = size.toInt + 8 := by
      rw [hw.totalSize, add_eight (by omega)]
    rw [AcmEventPort.writeToEventPort, AcmEventPort.assembleData,
      if_neg (by rw [add_eight hlength, htotal]; omega)]
    rfl
  · intro hnonneg hle written hs hwrite hcode t ht hreadable hdelivered clock' messageAddr length₀
      timeOut' htimeOut
    have hsize : 0 ≤ size.toInt := Int.le_trans hnonneg hle
    have htotal := hw.totalSize_toInt hsize
    have htotal' := hr.totalSize_toInt hsize
    have hlt := BitVec.toInt_lt (x := w.eventPortTotalSize)
    have hlength : length.toInt + 8 < 2 ^ 63 := by omega
    -- What goes over the transport is the frame: eight bytes of time and the message.
    obtain ⟨hnat, hframe⟩ := length_frame clock.port message hnonneg hlength
    have hcount : (frame clock.port message length).length < 2 ^ 63 := by
      rw [hframe, hnat, ← toNat_toInt hnonneg]
      omega
    obtain ⟨-, hlocal, hsent⟩ :=
      writeToEventPort_held hs hnonneg hlength (by rw [add_eight hlength]; omega) hwrite hcode
    -- Whichever way it was delivered, the frame is what the receiving transport holds first.
    have hhead : (t.held r.eventPortImplType r.eventPortId).head? =
        some (frame clock.port message length) := by
      obtain ⟨-, ⟨hqueue, hheld⟩ | ⟨himpl, sent, hmem, hheld⟩⟩ := hdelivered
      · rw [hheld, hlocal hqueue]
      · rw [hheld, hsent himpl sent hmem]
    obtain ⟨reply, hreply, hcarries, hvalid⟩ :=
      receive_head ht hreadable hhead (by omega) hcount clock' length₀ htimeOut
    obtain ⟨hcode', hlength', hbytes, hvalidity⟩ :=
      parseAndValidateData_frame r hnonneg hlength hcarries clock'.port messageAddr
    refine ⟨reply, _, hreply, ?_, hcode', hlength', hbytes, hvalidity, hvalid, ?_⟩
    · rw [AcmEventPort.readFromEventPort, hreply, Option.map_some]
    · have hnew : reply.length = length + 8 :=
        BitVec.eq_of_toNat_eq (hcarries.length.trans hframe)
      rw [hnew, add_eight hlength]
      omega

/-- A port for messages of up to 4 bytes, over the first sampling port. -/
def overSampling (type : EventPortCommType) : AcmEventPort Nat :=
  ⟨0, type, 5, fun _ => 0, 12, .samplingport, false, false, [], fun _ => 0, false⟩

/-- A partition with the source, or the destination, of a channel. -/
def onePort (direction : Direction) : Partition :=
  ⟨[], [], [(⟨12, direction, true, ⟨0, 0, fun _ => 0⟩⟩, ⟨5, .invalid⟩)], []⟩

/-- One reading of the clock for all. -/
def readAt (now : NanoTime) : Readings := ⟨now, now, ⟨⟨0, 0⟩, by decide⟩⟩

/-- A write of 3 bytes at 100 is read at 105 behind a move, and is just valid. -/
theorem event_port_round_trip_moved : ∃ written p q reply result,
    (overSampling .write).writeToEventPort (onePort .portSource) (readAt ⟨100, by decide⟩)
      (toMemory [65, 67, 77]) 3 0 .noError = some written ∧
    written.partition.samplingPorts = [(p, ⟨5, .invalid⟩)] ∧
    p.copyContentsVerbatim ⟨12, .portDest, true, ⟨0, 0, fun _ => 0⟩⟩ = (.noError, q) ∧
    (overSampling .read).receive ⟨[], [], [(q, ⟨5, .invalid⟩)], []⟩ (readAt ⟨105, by decide⟩) 0 0 =
      some reply ∧
    (overSampling .read).readFromEventPort ⟨[], [], [(q, ⟨5, .invalid⟩)], []⟩
      (readAt ⟨105, by decide⟩) (fun _ => 0) 0 0 = some result ∧
    result.length = 3 ∧ read result.messageAddr 0 3 = [65, 67, 77] ∧
    (result.isValid = true ↔ reply.validity = .valid) := by
  have hcreated (type : EventPortCommType) : (overSampling type).Created 4 :=
    ⟨rfl, (by decide : 0 < (12 : BitVec 64).toInt)⟩
  have hround := event_port_round_trip (overSampling .write) (overSampling .read) 4 (hcreated _)
    (hcreated _) (onePort .portSource) (readAt ⟨100, by decide⟩) (toMemory [65, 67, 77]) 3 0 .noError
  let port : AcmEventPort Nat := (overSampling .write).assembled ⟨100, by decide⟩ (toMemory [65, 67, 77]) 3
  let p : SamplingPort :=
    ⟨12, .portSource, true, ⟨100, 11, copy (fun _ => 0) 0 port.eventPortPayload 11⟩⟩
  let q : SamplingPort :=
    ⟨12, .portDest, true, ⟨100, 11, copy (fun _ => 0) 0 p.sharedMemory.data 11⟩⟩
  let s : Partition := ⟨[], [], [(p, ⟨5, .invalid⟩)], []⟩
  let t : Partition := ⟨[], [], [(q, ⟨5, .invalid⟩)], []⟩
  have hworks : (onePort .portSource).Works .samplingport 0 12 := by
    rintro port hport
    obtain rfl := Option.some.inj hport
    exact ⟨rfl, rfl⟩
  have hwrite : (overSampling .write).writeToEventPort (onePort .portSource)
      (readAt ⟨100, by decide⟩) (toMemory [65, 67, 77]) 3 0 .noError = some ⟨.noError, port, s, []⟩ := rfl
  have hcopy : p.copyContentsVerbatim ⟨12, .portDest, true, ⟨0, 0, fun _ => 0⟩⟩ = (.noError, q) :=
    rfl
  have hdelivered : Delivered (overSampling .write) ⟨.noError, port, s, []⟩ (overSampling .read) t :=
    delivered_of_holds (p := p) (q := q) rfl rfl rfl rfl ⟨rfl, rfl, read_copy (Nat.le_refl 11)⟩
  have hworks' : t.Works .samplingport 0 12 := by
    rintro port hport
    obtain rfl := Option.some.inj hport
    exact ⟨rfl, rfl⟩
  have hreadable : t.Readable .samplingport 0 := by
    rintro port hport
    obtain rfl := Option.some.inj hport
    exact Direction.noConfusion
  obtain ⟨reply, result, hreceive, hread, -, hlength, hbytes, hvalid, -, -⟩ :=
    hround.2 (by decide) (by decide) ⟨.noError, port, s, []⟩ hworks hwrite rfl t hworks' hreadable
      hdelivered (readAt ⟨105, by decide⟩) (fun _ => 0) 0 0 (by decide)
  refine ⟨_, p, q, reply, result, hwrite, rfl, hcopy, hreceive, hread, hlength, hbytes, ?_⟩
  exact hvalid.trans (and_iff_left (by decide))

end Arinc.EventPort
