import ArincEmulator.Types
import ArincEmulator.Lib.Memory

/- Sampling messages between modules. The packet is the write time, the message
   size and the message, as they lie in the shared memory of a sampling port. Two
   pieces of code build it, the source side of `MOVE_MESSAGES` and
   `READ_CONTENTS_TO_DATA_BUFFER`; two take it apart, the destination side of
   `MOVE_MESSAGES` and `WRITE_CONTENTS_FROM_DATA_BUFFER`.

   What is proved, for every size up to the maximum and any number of destinations
   at either end: both build the same bytes and leave the source port alone, and
   either decoder leaves the time, the size and the message of the source in every
   destination (`sampling_round_trip`). -/
namespace Arinc.SamplingPacket
open Memory

/-! ## Ports and channels -/

abbrev Byte := BitVec 8

/-- `DIRECTION_TYPE`. -/
inductive Direction where
  | portSource
  | portDest
  | portSourceDest
  deriving DecidableEq, Repr

/-- `SAMPLING_DATA`, in shared memory. -/
structure SamplingData where
  absoluteTimeWritten : BitVec 64
  messageSize : BitVec 64
  data : Nat → Byte

/-- The message size as `memcpy` takes it. -/
def SamplingData.count (s : SamplingData) : Nat := s.messageSize.toNat

/-- `SAMPLING_PORT_HELPER`. -/
structure SamplingPort where
  maxMessageSize : Int
  portDirection : Direction
  readyOrNot : Bool
  sharedMemory : SamplingData

/-- `S_REAL_MAX_MESSAGE_SIZE`. -/
def SamplingPort.realMaxMessageSize (p : SamplingPort) : Int := p.maxMessageSize + 16

def systemLimitMaxSamplingMessageSize : Nat := 262144

/-- `SAMPLING_CHANNEL`: its ports, whether it has the socket it sends by and the one
    it receives by, and its `DataBuffer`. `U` is the type of the addresses. -/
structure SamplingChannel (U : Type*) where
  initialized : Bool
  sourcePort : Option SamplingPort
  destinationPortVector : List SamplingPort
  sender : Bool
  receiver : Bool
  maxSocketMessage : Nat
  destinationUrlVector : List U
  dataBuffer : Nat → Byte

/-! ## The port's own encoder and decoder -/

/-- What `READ_CONTENTS_TO_DATA_BUFFER` leaves. -/
structure Contents where
  returnCode : ReturnCode
  readLength : Int
  msgPtr : Nat → Byte
  port : SamplingPort

namespace SamplingPort

/-- `READ_CONTENTS_TO_DATA_BUFFER`; `written` is an `unsigned int`. -/
def readContentsToDataBuffer (p : SamplingPort) (msgPtr : Nat → Byte) (maxLength : Int) :
    Contents :=
  if p.readyOrNot = false then ⟨.invalidMode, 0, msgPtr, p⟩
  else if p.portDirection = .portDest then ⟨.invalidMode, 0, msgPtr, p⟩
  else if maxLength < p.realMaxMessageSize then ⟨.invalidParam, 0, msgPtr, p⟩
  else
    let s := p.sharedMemory
    let msgPtr := copy msgPtr 0 (bytes s.absoluteTimeWritten) 8
    let written := 8
    let msgPtr := copy msgPtr written (bytes s.messageSize) 8
    let written := written + 8
    let msgPtr := copy msgPtr written s.data s.count
    let written : Nat := (written + s.count) % 2 ^ 32
    ⟨.noError, written, msgPtr, p⟩

/-- `WRITE_CONTENTS_FROM_DATA_BUFFER`. The length is compared as an unsigned number;
    `none` where the assertion on the size fails. -/
def writeContentsFromDataBuffer (p : SamplingPort) (msgPtr : Nat → Byte) (readLength : Int) :
    Option (ReturnCode × SamplingPort) :=
  if p.readyOrNot = false then some (.invalidMode, p)
  else if p.portDirection = .portSource then some (.invalidMode, p)
  else if readLength % 2 ^ 64 < 16 then some (.noAction, p)
  else
    let written := 0
    let absoluteTimeWritten : BitVec 64 := word msgPtr written 8
    let written := written + 8
    let messageSize : BitVec 64 := word msgPtr written 8
    -- assert(MESSAGE_SIZE >= 0); the size is not compared with the port's maximum
    if messageSize.toInt < 0 then none
    else
      let written := written + 8
      let data := copy p.sharedMemory.data 0 (fun i => msgPtr (written + i)) messageSize.toNat
      some (.noError, { p with sharedMemory := ⟨absoluteTimeWritten, messageSize, data⟩ })

/-- `COPY_CONTENTS_VERBATIM`, with the destination as it leaves it. -/
def copyContentsVerbatim (p destination : SamplingPort) : ReturnCode × SamplingPort :=
  if p.realMaxMessageSize = destination.realMaxMessageSize then
    let s := p.sharedMemory
    (.noError, { destination with
      sharedMemory := ⟨s.absoluteTimeWritten, s.messageSize,
        copy destination.sharedMemory.data 0 s.data s.count⟩ })
  else (.invalidConfig, destination)

end SamplingPort

/-! ## The channel -/

/-- What `MOVE_MESSAGES` leaves: the channel, the datagrams sent, and those still
    pending at the receiving socket. -/
structure Moved (U : Type*) where
  returnCode : ReturnCode
  channel : SamplingChannel U
  sent : List (U × List Byte)
  pending : List (List Byte)

/-- Whether the `n` calls of `sendTo` from the `first` on all go through. -/
def allSent (sends : Nat → Bool) (first n : Nat) : Bool :=
  (List.range' first n).all sends

theorem allSent_iff {sends : Nat → Bool} {first n : Nat} :
    allSent sends first n = true ↔ ∀ k, first ≤ k → k < first + n → sends k = true := by
  simp [allSent, List.all_eq_true, List.mem_range'_1]

theorem allSent_zero_iff {sends : Nat → Bool} {n : Nat} :
    allSent sends 0 n = true ↔ ∀ k < n, sends k = true := by
  simp [allSent_iff]

theorem allSent_append {sends : Nat → Bool} {first m n : Nat} :
    allSent sends first (m + n) = true ↔
      allSent sends first m = true ∧ allSent sends (first + m) n = true := by
  simp only [allSent_iff]
  constructor
  · exact fun h => ⟨fun k hk hlt => h k hk (by omega), fun k hk hlt => h k (by omega) (by omega)⟩
  · intro h k hk hlt
    by_cases hfirst : k < first + m
    · exact h.1 k hk hfirst
    · exact h.2 k (by omega) (by omega)

@[simp] theorem allSent_true (first n : Nat) : allSent (fun _ => true) first n = true :=
  allSent_iff.mpr fun _ _ _ => rfl

namespace SamplingChannel

variable {U : Type*}

/-- The size of `DataBuffer`. -/
def dataBufferSize : Nat := 8 + 8 + systemLimitMaxSamplingMessageSize

/-- One round of the receiving loop, for the datagram it takes; `none` where the
    assertion on the size fails. -/
def receiveOne (c : SamplingChannel U) (datagram : List Byte) : Option (SamplingChannel U) :=
  let dataBuffer := copy c.dataBuffer 0 (ofList datagram 0) (min datagram.length dataBufferSize)
  let written := 0
  let timeOfMessage : BitVec 64 := word dataBuffer written 8
  let written := written + 8
  let messageRealSize : BitVec 64 := word dataBuffer written 8
  if messageRealSize.toInt < 0 then none
  else
    let written := written + 8
    some { c with
      dataBuffer
      destinationPortVector := c.destinationPortVector.map fun q =>
        { q with sharedMemory := ⟨timeOfMessage, messageRealSize,
            copy q.sharedMemory.data 0 (fun i => dataBuffer (written + i)) messageRealSize.toNat⟩ } }

/-- The receiving loop over `times`; a receive that finds nothing ends it. -/
def receiveRounds (c : SamplingChannel U) : Nat → List (List Byte) →
    Option (SamplingChannel U × List (List Byte))
  | 0, pending => some (c, pending)
  | _ + 1, [] => some (c, [])
  | times + 1, datagram :: pending =>
    (c.receiveOne datagram).bind fun c => receiveRounds c times pending

/-- The packet of the source side and its length. -/
def preparePacket (c : SamplingChannel U) (p : SamplingPort) : (Nat → Byte) × Nat :=
  let s := p.sharedMemory
  let written := 0
  let dataBuffer := copy c.dataBuffer 0 (bytes s.absoluteTimeWritten) 8
  let written := written + 8
  let dataBuffer := copy dataBuffer written (bytes s.messageSize) 8
  let written := written + 8
  let dataBuffer := copy dataBuffer written s.data s.count
  let written := (written + s.count) % 2 ^ 32
  (dataBuffer, written)

/-- The source side of `MOVE_MESSAGES`, if every `sendTo` goes through. -/
def moveFrom (c : SamplingChannel U) (p : SamplingPort) (pending : List (List Byte)) : Moved U :=
  let copied := c.destinationPortVector.map p.copyContentsVerbatim
  let returnCode := (copied.map Prod.fst).getLastD .noError
  let c := { c with destinationPortVector := copied.map Prod.snd }
  if c.sender then
    let packet := c.preparePacket p
    ⟨returnCode, { c with dataBuffer := packet.1 },
      c.destinationUrlVector.map fun url => (url, read packet.1 0 packet.2), pending⟩
  else ⟨returnCode, c, [], pending⟩

/-- `MOVE_MESSAGES`, with the datagrams pending at the receiving socket; `sends k` says
    whether the `k`-th `sendTo` of the call goes through. One that does not throws a
    `SocketException`, which the call does not catch. -/
def moveMessagesOver (sends : Nat → Bool) (c : SamplingChannel U) (pending : List (List Byte)) :
    Option (Moved U) :=
  if c.initialized = false then some ⟨.noAction, c, [], pending⟩
  else if c.receiver = false then
    match c.sourcePort with
    | none => some ⟨.noAction, c, [], pending⟩
    | some p =>
      if c.destinationPortVector = [] ∧ c.sender = false then some ⟨.noAction, c, [], pending⟩
      else
        let moved := c.moveFrom p pending
        if allSent sends 0 moved.sent.length then some moved else none
  else if c.destinationPortVector = [] then some ⟨.noAction, c, [], pending⟩
  else
    (c.receiveRounds c.maxSocketMessage pending).map fun r => ⟨.noError, r.1, [], r.2⟩

/-- `MOVE_MESSAGES` where every `sendTo` goes through. -/
def moveMessages (c : SamplingChannel U) (pending : List (List Byte)) : Option (Moved U) :=
  c.moveMessagesOver (fun _ => true) pending

section
variable {c : SamplingChannel U} {p : SamplingPort}

theorem moveMessagesOver_from (hinitialized : c.initialized = true) (hreceiver : c.receiver = false)
    (hsource : c.sourcePort = some p) (hsome : ¬ (c.destinationPortVector = [] ∧ c.sender = false))
    (sends : Nat → Bool) (pending : List (List Byte)) :
    c.moveMessagesOver sends pending =
      if allSent sends 0 (c.moveFrom p pending).sent.length then some (c.moveFrom p pending)
      else none := by
  rw [moveMessagesOver, if_neg (by simp [hinitialized]), if_pos hreceiver, hsource]
  simp only [if_neg hsome]

theorem moveMessages_of_over {sends : Nat → Bool} {pending : List (List Byte)} {moved : Moved U}
    (h : c.moveMessagesOver sends pending = some moved) : c.moveMessages pending = some moved := by
  unfold moveMessages
  unfold moveMessagesOver at h ⊢
  split
  · rwa [if_pos ‹_›] at h
  rw [if_neg ‹_›] at h
  split
  · rw [if_pos ‹_›] at h
    cases hsource : c.sourcePort with
    | none =>
      rw [hsource] at h
      exact h
    | some p =>
      simp only [hsource] at h ⊢
      split
      · rwa [if_pos ‹_›] at h
      · rw [if_neg ‹_›] at h
        rw [allSent_true, if_pos rfl]
        exact (Option.ite_none_right_eq_some.mp h).2
  · rwa [if_neg ‹_›] at h

theorem moveMessages_from (hinitialized : c.initialized = true) (hreceiver : c.receiver = false)
    (hsource : c.sourcePort = some p) (hsome : ¬ (c.destinationPortVector = [] ∧ c.sender = false))
    (pending : List (List Byte)) : c.moveMessages pending = some (c.moveFrom p pending) := by
  rw [moveMessages, moveMessagesOver_from hinitialized hreceiver hsource hsome, allSent_true,
    if_pos rfl]

theorem moveMessages_idle (hinitialized : c.initialized = true) (hreceiver : c.receiver = false)
    (hsource : c.sourcePort = some p) (hnone : c.destinationPortVector = [] ∧ c.sender = false)
    (pending : List (List Byte)) : c.moveMessages pending = some ⟨.noAction, c, [], pending⟩ := by
  rw [moveMessages, moveMessagesOver, if_neg (by simp [hinitialized]), if_pos hreceiver, hsource]
  simp only [if_pos hnone]

theorem moveMessages_receiving (hinitialized : c.initialized = true) (hreceiver : c.receiver = true)
    (hsome : c.destinationPortVector ≠ []) (pending : List (List Byte)) :
    c.moveMessages pending =
      (c.receiveRounds c.maxSocketMessage pending).map fun r => ⟨.noError, r.1, [], r.2⟩ := by
  rw [moveMessages, moveMessagesOver, if_neg (by simp [hinitialized]), if_neg (by simp [hreceiver]),
    if_neg hsome]

theorem moveMessages_nowhere (hinitialized : c.initialized = true) (hreceiver : c.receiver = true)
    (hnone : c.destinationPortVector = []) (pending : List (List Byte)) :
    c.moveMessages pending = some ⟨.noAction, c, [], pending⟩ := by
  rw [moveMessages, moveMessagesOver, if_neg (by simp [hinitialized]), if_neg (by simp [hreceiver]),
    if_pos hnone]

end

end SamplingChannel

/-! ## The packet -/

/-- Write time, message size and message. -/
def packet (s : SamplingData) : List Byte :=
  read (bytes s.absoluteTimeWritten) 0 8 ++ read (bytes s.messageSize) 0 8 ++ read s.data 0 s.count

@[simp] theorem length_packet (s : SamplingData) : (packet s).length = 8 + 8 + s.count := by
  simp only [packet, List.length_append, length_read]

/-- A content a source port can have: a size from 0 to the maximum of the port, which
    is at most the limit of the system. -/
structure Fits (s : SamplingData) (maxMessageSize : Int) : Prop where
  nonneg : 0 ≤ s.messageSize.toInt
  le_max : s.messageSize.toInt ≤ maxMessageSize
  max_le : maxMessageSize ≤ systemLimitMaxSamplingMessageSize

theorem Fits.count_le {s : SamplingData} {maxMessageSize : Int} (h : Fits s maxMessageSize) :
    s.count ≤ systemLimitMaxSamplingMessageSize := by
  have hcount : s.messageSize.toInt = s.count :=
    BitVec.toInt_eq_toNat_of_msb (BitVec.msb_eq_false_iff_two_mul_lt.mpr (by
      have hnonneg := h.nonneg
      rw [BitVec.toInt_eq_toNat_cond] at hnonneg
      split at hnonneg
      · assumption
      · have := s.messageSize.isLt
        omega))
  have := h.le_max
  have := h.max_le
  omega

/-- The three copies of an encoder lay the packet out. -/
theorem read_layout (buffer : Nat → Byte) (s : SamplingData) :
    read (copy (copy (copy buffer 0 (bytes s.absoluteTimeWritten) 8) 8 (bytes s.messageSize) 8)
      16 s.data s.count) 0 (8 + 8 + s.count) = packet s := by
  have htime : read (copy (copy (copy buffer 0 (bytes s.absoluteTimeWritten) 8) 8
      (bytes s.messageSize) 8) 16 s.data s.count) 0 8 = read (bytes s.absoluteTimeWritten) 0 8 := by
    rw [read_copy_of_apart (by omega), read_copy_of_apart (by omega), read_copy (Nat.le_refl 8)]
  have hsize : read (copy (copy (copy buffer 0 (bytes s.absoluteTimeWritten) 8) 8
      (bytes s.messageSize) 8) 16 s.data s.count) 8 8 = read (bytes s.messageSize) 0 8 := by
    rw [read_copy_of_apart (by omega), read_copy (Nat.le_refl 8)]
  have hdata : read (copy (copy (copy buffer 0 (bytes s.absoluteTimeWritten) 8) 8
      (bytes s.messageSize) 8) 16 s.data s.count) 16 s.count = read s.data 0 s.count :=
    read_copy (Nat.le_refl s.count)
  rw [read_append, read_append, htime, hsize, hdata, packet]

/-- A buffer that begins with the packet has its words and its bytes where the
    decoders look for them. -/
theorem of_read_packet {buffer : Nat → Byte} {s : SamplingData}
    (h : read buffer 0 (packet s).length = packet s) :
    word buffer 0 8 = s.absoluteTimeWritten ∧ word buffer 8 8 = s.messageSize ∧
      ∀ i < s.count, buffer (16 + i) = s.data i := by
  rw [length_packet, read_append, read_append, packet] at h
  obtain ⟨hheader, hdata⟩ := List.append_inj h (by simp)
  obtain ⟨htime, hsize⟩ := List.append_inj hheader (by simp)
  refine ⟨?_, ?_, ?_⟩
  · calc word buffer 0 8 = word (bytes s.absoluteTimeWritten) 0 8 := word_congr (read_inj htime)
      _ = s.absoluteTimeWritten := word_bytes (n := 8) s.absoluteTimeWritten
  · calc word buffer 8 8 = word (bytes s.messageSize) 0 8 := word_congr (read_inj hsize)
      _ = s.messageSize := word_bytes (n := 8) s.messageSize
  · intro i hi
    have := read_inj hdata i hi
    rwa [Nat.zero_add i] at this

/-! ## What a delivery leaves -/

/-- The port with the time, the size and the message of `s`. -/
def SamplingPort.deliver (q : SamplingPort) (s : SamplingData) : SamplingPort :=
  { q with sharedMemory :=
      ⟨s.absoluteTimeWritten, s.messageSize, copy q.sharedMemory.data 0 s.data s.count⟩ }

/-- The port holds the time, the size and the message of `s`. -/
structure SamplingPort.Holds (q : SamplingPort) (s : SamplingData) : Prop where
  time : q.sharedMemory.absoluteTimeWritten = s.absoluteTimeWritten
  size : q.sharedMemory.messageSize = s.messageSize
  message : read q.sharedMemory.data 0 s.count = read s.data 0 s.count

theorem SamplingPort.deliver_holds (q : SamplingPort) (s : SamplingData) : (q.deliver s).Holds s :=
  ⟨rfl, rfl, read_copy (Nat.le_refl s.count)⟩

/-- What a decoder stores, read from a buffer that begins with the packet. -/
theorem decode_eq_deliver {buffer : Nat → Byte} {s : SamplingData} (q : SamplingPort)
    (h : read buffer 0 (packet s).length = packet s) :
    { q with sharedMemory := ⟨s.absoluteTimeWritten, s.messageSize,
        copy q.sharedMemory.data 0 (fun i => buffer (16 + i)) s.messageSize.toNat⟩ } = q.deliver s := by
  have hdata : copy q.sharedMemory.data 0 (fun i => buffer (16 + i)) s.count =
      copy q.sharedMemory.data 0 s.data s.count := copy_congr (of_read_packet h).2.2
  rw [SamplingPort.deliver, ← hdata, SamplingData.count]

/-! ## The encoders -/

theorem Fits.length_mod {s : SamplingData} {maxMessageSize : Int} (h : Fits s maxMessageSize) :
    (8 + 8 + s.count) % 2 ^ 32 = (packet s).length := by
  rw [length_packet]
  apply Nat.mod_eq_of_lt
  have hle : s.count ≤ 262144 := h.count_le
  omega

theorem readContentsToDataBuffer_eq {p : SamplingPort}
    (hfits : Fits p.sharedMemory p.maxMessageSize) (hready : p.readyOrNot = true)
    (hdirection : p.portDirection ≠ .portDest) (buffer : Nat → Byte) {maxLength : Int}
    (hlength : p.realMaxMessageSize ≤ maxLength) :
    ∃ buffer', p.readContentsToDataBuffer buffer maxLength =
        ⟨.noError, (packet p.sharedMemory).length, buffer', p⟩ ∧
      read buffer' 0 (packet p.sharedMemory).length = packet p.sharedMemory := by
  let s := p.sharedMemory
  refine ⟨copy (copy (copy buffer 0 (bytes s.absoluteTimeWritten) 8) 8 (bytes s.messageSize) 8)
    16 s.data s.count, ?_, ?_⟩
  · rw [SamplingPort.readContentsToDataBuffer, if_neg (by simp [hready]), if_neg hdirection,
      if_neg (Int.not_lt.mpr hlength)]
    simp only [Nat.reduceAdd]
    rw [← hfits.length_mod]
  · rw [length_packet]
    exact read_layout buffer p.sharedMemory

namespace SamplingChannel

variable {U : Type*}

/-- A channel that sends the contents of the port `p` to other modules. -/
structure Sends (c : SamplingChannel U) (p : SamplingPort) : Prop where
  initialized : c.initialized = true
  source : c.sourcePort = some p
  sender : c.sender = true
  receiver : c.receiver = false

/-- A channel that receives from another module. -/
structure Receives (c : SamplingChannel U) : Prop where
  initialized : c.initialized = true
  receiver : c.receiver = true
  rounds : 0 < c.maxSocketMessage

theorem read_preparePacket (c : SamplingChannel U) {p : SamplingPort}
    (hfits : Fits p.sharedMemory p.maxMessageSize) :
    read (c.preparePacket p).1 0 (c.preparePacket p).2 = packet p.sharedMemory := by
  have hlength : (c.preparePacket p).2 = 8 + 8 + p.sharedMemory.count := by
    rw [← length_packet, ← hfits.length_mod]
    rfl
  rw [hlength]
  exact read_layout c.dataBuffer p.sharedMemory

theorem length_sent_moveFrom {c : SamplingChannel U} {p : SamplingPort} (hsender : c.sender = true)
    (pending : List (List Byte)) :
    (c.moveFrom p pending).sent.length = c.destinationUrlVector.length := by
  simp only [moveFrom, hsender, if_true, List.length_map]

/-- The source side: the packet goes to every address, the port is left alone, and
    the destinations of the module itself hold its contents. -/
theorem moveMessages_source {c : SamplingChannel U} {p : SamplingPort} (hc : c.Sends p)
    (hfits : Fits p.sharedMemory p.maxMessageSize) (pending : List (List Byte)) :
    ∃ r, c.moveMessages pending = some r ∧ r.channel.sourcePort = some p ∧
      r.sent = c.destinationUrlVector.map (fun url => (url, packet p.sharedMemory)) ∧
      r.channel.destinationPortVector =
        c.destinationPortVector.map fun q => (p.copyContentsVerbatim q).2 := by
  refine ⟨c.moveFrom p pending, ?_, ?_, ?_, ?_⟩
  · exact moveMessages_from hc.initialized hc.receiver hc.source (by simp [hc.sender]) pending
  · simp [moveFrom, hc.sender, hc.source]
  · have hpacket := read_preparePacket
      { c with destinationPortVector := (c.destinationPortVector.map p.copyContentsVerbatim).map Prod.snd }
      hfits
    simp only [moveFrom, hc.sender, if_true]
    apply List.map_congr_left
    intro url _
    exact congrArg (Prod.mk url) hpacket
  · simp [moveFrom, hc.sender, Function.comp_def]

end SamplingChannel

/-! ## The decoders -/

theorem writeContentsFromDataBuffer_eq {s : SamplingData} {maxMessageSize : Int}
    (hfits : Fits s maxMessageSize) {q : SamplingPort} (hready : q.readyOrNot = true)
    (hdirection : q.portDirection ≠ .portSource) {buffer : Nat → Byte}
    (hbuffer : read buffer 0 (packet s).length = packet s) :
    q.writeContentsFromDataBuffer buffer (packet s).length = some (.noError, q.deliver s) := by
  obtain ⟨htime, hsize, -⟩ := of_read_packet hbuffer
  have hlength : ¬ ((packet s).length : Int) % 2 ^ 64 < 16 := by
    have hle : s.count ≤ 262144 := hfits.count_le
    rw [length_packet]
    omega
  rw [SamplingPort.writeContentsFromDataBuffer, if_neg (by simp [hready]), if_neg hdirection,
    if_neg hlength]
  simp only [Nat.zero_add, Nat.reduceAdd, htime, hsize]
  rw [if_neg (Int.not_lt.mpr hfits.nonneg), decode_eq_deliver q hbuffer]

namespace SamplingChannel

variable {U : Type*}

theorem receiveOne_packet (c : SamplingChannel U) {s : SamplingData} {maxMessageSize : Int}
    (hfits : Fits s maxMessageSize) :
    ∃ dataBuffer, c.receiveOne (packet s) = some { c with
      dataBuffer
      destinationPortVector := c.destinationPortVector.map fun q => q.deliver s } := by
  have hroom : min (packet s).length dataBufferSize = (packet s).length := by
    have hle : s.count ≤ systemLimitMaxSamplingMessageSize := hfits.count_le
    rw [length_packet, dataBufferSize]
    omega
  have hbuffer : read (copy c.dataBuffer 0 (ofList (packet s) 0) (packet s).length) 0
      (packet s).length = packet s := by
    rw [read_copy (Nat.le_refl _), read_ofList]
  obtain ⟨htime, hsize, -⟩ := of_read_packet hbuffer
  refine ⟨copy c.dataBuffer 0 (ofList (packet s) 0) (packet s).length, ?_⟩
  simp only [receiveOne, hroom, Nat.zero_add, Nat.reduceAdd, htime, hsize]
  rw [if_neg (Int.not_lt.mpr hfits.nonneg)]
  simp only [decode_eq_deliver _ hbuffer]

/-- One datagram pending: it is taken, and the next round finds nothing. -/
theorem receiveRounds_one {c c' : SamplingChannel U} {datagram : List Byte}
    (hone : c.receiveOne datagram = some c') {times : Nat} (htimes : 0 < times) :
    c.receiveRounds times [datagram] = some (c', []) := by
  cases times with
  | zero => exact absurd htimes (Nat.lt_irrefl 0)
  | succ times =>
    rw [receiveRounds, hone, Option.bind_some]
    cases times <;> rfl

/-- The destination side: every destination is delivered the packet. -/
theorem moveMessages_destination {c : SamplingChannel U} (hc : c.Receives) {s : SamplingData}
    {maxMessageSize : Int} (hfits : Fits s maxMessageSize) :
    ∃ r, c.moveMessages [packet s] = some r ∧ r.channel.destinationPortVector =
      c.destinationPortVector.map fun q => q.deliver s := by
  by_cases hnone : c.destinationPortVector = []
  · exact ⟨⟨.noAction, c, [], [packet s]⟩,
      moveMessages_nowhere hc.initialized hc.receiver hnone [packet s], by simp [hnone]⟩
  · obtain ⟨dataBuffer, hone⟩ := c.receiveOne_packet hfits
    refine ⟨⟨.noError, { c with
      dataBuffer
      destinationPortVector := c.destinationPortVector.map fun q => q.deliver s }, [], []⟩, ?_, rfl⟩
    rw [moveMessages_receiving hc.initialized hc.receiver hnone, receiveRounds_one hone hc.rounds, Option.map_some]

end SamplingChannel

/-! ## The round trip -/

theorem SamplingPort.copyContentsVerbatim_eq {p q : SamplingPort}
    (h : q.maxMessageSize = p.maxMessageSize) :
    p.copyContentsVerbatim q = (.noError, q.deliver p.sharedMemory) := by
  rw [copyContentsVerbatim, if_pos (by rw [realMaxMessageSize, realMaxMessageSize, h]), deliver]

/-- **A sampling message survives the way between modules.** There is one packet that
    the sending channel sends to every address and `READ_CONTENTS_TO_DATA_BUFFER`
    puts in its buffer, and both leave the source port as it was. Received by a
    channel, with any number of destinations, or written by
    `WRITE_CONTENTS_FROM_DATA_BUFFER`, it leaves the time, the size and the message
    of the source in the destination. Destinations in the source's own module, of the
    same maximum size, hold them too. -/
theorem sampling_round_trip {U : Type*} {p : SamplingPort}
    (hfits : Fits p.sharedMemory p.maxMessageSize) (hready : p.readyOrNot = true)
    (hdirection : p.portDirection ≠ .portDest) {c : SamplingChannel U} (hc : c.Sends p)
    (pending : List (List Byte)) (buffer : Nat → Byte) {maxLength : Int}
    (hlength : p.realMaxMessageSize ≤ maxLength) :
    ∃ datagram : List Byte,
      (∃ r, c.moveMessages pending = some r ∧ r.channel.sourcePort = some p ∧
        r.sent = c.destinationUrlVector.map (fun url => (url, datagram)) ∧
        ((∀ q ∈ c.destinationPortVector, q.maxMessageSize = p.maxMessageSize) →
          ∀ q ∈ r.channel.destinationPortVector, q.Holds p.sharedMemory)) ∧
      (∃ buffer', p.readContentsToDataBuffer buffer maxLength =
          ⟨.noError, datagram.length, buffer', p⟩ ∧ read buffer' 0 datagram.length = datagram) ∧
      (∀ c' : SamplingChannel U, c'.Receives → ∃ r, c'.moveMessages [datagram] = some r ∧
        r.channel.destinationPortVector.length = c'.destinationPortVector.length ∧
        ∀ q ∈ r.channel.destinationPortVector, q.Holds p.sharedMemory) ∧
      (∀ (q : SamplingPort) (buffer' : Nat → Byte), q.readyOrNot = true →
        q.portDirection ≠ .portSource → read buffer' 0 datagram.length = datagram →
        ∃ q', q.writeContentsFromDataBuffer buffer' datagram.length = some (.noError, q') ∧
          q'.Holds p.sharedMemory) := by
  refine ⟨packet p.sharedMemory, ?_, ?_, ?_, ?_⟩
  · obtain ⟨r, hmove, hsource, hsent, hlocal⟩ := SamplingChannel.moveMessages_source hc hfits pending
    refine ⟨r, hmove, hsource, hsent, ?_⟩
    -- the ports of the source's own module are copied verbatim
    intro hmax q hq
    rw [hlocal] at hq
    obtain ⟨q₀, hq₀, rfl⟩ := List.mem_map.mp hq
    rw [SamplingPort.copyContentsVerbatim_eq (hmax q₀ hq₀)]
    exact q₀.deliver_holds p.sharedMemory
  · exact readContentsToDataBuffer_eq hfits hready hdirection buffer hlength
  · intro c' hc'
    obtain ⟨r, hmove, hdestinations⟩ := SamplingChannel.moveMessages_destination hc' hfits
    refine ⟨r, hmove, by rw [hdestinations, List.length_map], ?_⟩
    intro q hq
    rw [hdestinations] at hq
    obtain ⟨q₀, -, rfl⟩ := List.mem_map.mp hq
    exact q₀.deliver_holds p.sharedMemory
  · intro q buffer' hready' hdirection' hbuffer
    exact ⟨q.deliver p.sharedMemory,
      writeContentsFromDataBuffer_eq hfits hready' hdirection' hbuffer, q.deliver_holds p.sharedMemory⟩

/-- A port of 4 bytes that holds a message of 3, written at 7. -/
def threeBytes : SamplingPort := ⟨4, .portSourceDest, true, ⟨7, 3, ofList [65, 67, 77] 0⟩⟩

/-- Its channel, with one destination of its own module and two addresses. -/
def twoAddresses : SamplingChannel Nat :=
  ⟨true, some threeBytes, [⟨4, .portSourceDest, true, ⟨0, 0, fun _ => 0⟩⟩], true, false, 1, [1, 2],
    fun _ => 0⟩

/-- A channel of another module with two destinations. -/
def twoDestinations : SamplingChannel Nat :=
  ⟨true, none, List.replicate 2 ⟨4, .portSourceDest, true, ⟨0, 0, fun _ => 0⟩⟩, false, true, 1, [],
    fun _ => 0⟩

theorem sampling_round_trip_threeBytes :
    ∃ datagram r r', twoAddresses.moveMessages [] = some r ∧
      r.sent = [(1, datagram), (2, datagram)] ∧ twoDestinations.moveMessages [datagram] = some r' ∧
      r'.channel.destinationPortVector.length = 2 ∧
      ∀ q ∈ r'.channel.destinationPortVector, q.Holds threeBytes.sharedMemory := by
  have hfits : Fits threeBytes.sharedMemory threeBytes.maxMessageSize :=
    ⟨by decide, by decide, by decide⟩
  obtain ⟨datagram, ⟨r, hmove, -, hsent, -⟩, -, hreceived, -⟩ :=
    sampling_round_trip hfits rfl (by decide) (c := twoAddresses) ⟨rfl, rfl, rfl, rfl⟩ []
      (fun _ => 0) (by decide : threeBytes.realMaxMessageSize ≤ 20)
  obtain ⟨r', hmove', hcount, hholds⟩ := hreceived twoDestinations ⟨rfl, rfl, by decide⟩
  exact ⟨datagram, r, r', hmove, hsent, hmove', hcount, hholds⟩

end Arinc.SamplingPacket
