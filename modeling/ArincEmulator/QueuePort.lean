import ArincEmulator.Lib.Admission
import ArincEmulator.Lib.Fifo
import ArincEmulator.SamplingPacket
import ArincEmulator.Time

/- Queuing ports. A `MESSAGE_QUEUE_TYPE` opens a message queue of the operating
   system with its own size and capacity; its services check their arguments and
   then call `mq_timedsend`, `mq_timedreceive` or their untimed siblings. All
   messages have one priority, so the queue is first in, first out.

   The rest of the system does not touch the queue during a call here: a call that
   would wait waits until its time-out. A send with the time-out 0 puts its message into
   the queue or leaves it, whatever the state of the port (`sendMessage_spec`), and a
   receive takes the oldest or none (`Gives.receiveMessage`, `receiveMessage_keeps`);
   what they do to a queue that was opened with the port's attributes follows
   (`sendMessage_zero`, `receiveMessage_cons`). -/
namespace Arinc.QueuePort
open Memory SamplingPacket

/-! ## Message queues of the operating system -/

/-- A message queue, opened for messages of `msgsize` bytes. -/
structure PosixQueue extends Fifo (List Byte) where
  msgsize : Nat
  fits : ∀ m ∈ elements, m.length ≤ msgsize

/-- The errors of a call, those that the services tell apart. -/
inductive Errno where
  | etimedout
  | other
  deriving DecidableEq, Repr

/-- The ends of a call: it returns a value, fails, or waits for ever. -/
inductive Outcome (α : Type*) where
  | done (value : α)
  | failed (errno : Errno)
  | waits

namespace PosixQueue

theorem fits_append {q : PosixQueue} {m : List Byte} (hm : m.length ≤ q.msgsize) :
    ∀ n ∈ q.elements ++ [m], n.length ≤ q.msgsize := by
  intro n hn
  obtain hn | hn := List.mem_append.mp hn
  · exact q.fits n hn
  · rw [List.mem_singleton.mp hn]
    exact hm

/-- What a call that finds the queue full, or empty, comes to by its absolute time;
    `none` is a call without one. -/
def expire {α : Type*} (absolute : Option Timespec) : Outcome α :=
  match absolute with
  | none => .waits
  | some time => if time.Normalized then .failed .etimedout else .failed .other

/-- `mq_timedsend`, and `mq_send` where there is no absolute time. The length is a
    `size_t`. -/
def mqSend (q : PosixQueue) (msgPtr : Nat → Byte) (length : Nat) (absolute : Option Timespec) :
    Outcome PosixQueue :=
  if h : length ≤ q.msgsize then
    match hput : q.put (read msgPtr 0 length) with
    | some r => .done ⟨r, q.msgsize, by
        rw [(Fifo.put_elements hput).2]
        exact fits_append (by rwa [length_read])⟩
    | none => expire absolute
  else .failed .other

/-- `mq_timedreceive`, and `mq_receive` where there is no absolute time, into a
    buffer of `size` bytes. -/
def mqReceive (q : PosixQueue) (size : Nat) (absolute : Option Timespec) :
    Outcome (List Byte × PosixQueue) :=
  if size < q.msgsize then .failed .other
  else
    match htake : q.take with
    | none => expire absolute
    | some (m, r) => .done (m, ⟨r, q.msgsize, fun n hn =>
        q.fits n (by rw [(Fifo.take_some htake).2]; exact List.mem_cons_of_mem m hn)⟩)

theorem mqSend_of_room {q : PosixQueue} {msgPtr : Nat → Byte} {length : Nat}
    (hlength : length ≤ q.msgsize) (hroom : q.elements.length < q.capacity)
    (absolute : Option Timespec) :
    ∃ r : PosixQueue, q.mqSend msgPtr length absolute = .done r ∧ r.msgsize = q.msgsize ∧
      q.put (read msgPtr 0 length) = some r.toFifo := by
  unfold mqSend
  rw [dif_pos hlength]
  split
  · rename_i r hput
    exact ⟨_, rfl, rfl, hput⟩
  · rename_i hput
    exact absurd (Fifo.put_eq_none_iff.mp hput) (Nat.not_le.mpr hroom)

/-- With an absolute time a send fails where the message is too long or there is no
    room for it. -/
theorem mqSend_fails {q : PosixQueue} {msgPtr : Nat → Byte} {length : Nat}
    (h : ¬ (length ≤ q.msgsize ∧ q.elements.length < q.capacity)) (time : Timespec) :
    ∃ errno, q.mqSend msgPtr length (some time) = .failed errno := by
  unfold mqSend
  by_cases hlength : length ≤ q.msgsize
  · rw [dif_pos hlength]
    split
    · rename_i r hput
      have hroom := Fifo.put_eq_none_iff.not.mp (by simp [hput] : ¬ q.put (read msgPtr 0 length) = none)
      exact absurd ⟨hlength, Nat.not_le.mp hroom⟩ h
    · unfold expire
      simp only
      split
      · exact ⟨_, rfl⟩
      · exact ⟨_, rfl⟩
  · rw [dif_neg hlength]
    exact ⟨_, rfl⟩

theorem mqSend_congr (q : PosixQueue) {m m' : Nat → Byte} {length : Nat}
    (h : read m 0 length = read m' 0 length) (absolute : Option Timespec) :
    q.mqSend m length absolute = q.mqSend m' length absolute := by
  unfold mqSend
  by_cases hlength : length ≤ q.msgsize
  · rw [dif_pos hlength, dif_pos hlength]
    split
    · rename_i r hput
      split
      · rename_i r' hput'
        rw [h, hput'] at hput
        obtain rfl := Option.some.inj hput
        rfl
      · rename_i hput'
        rw [h, hput'] at hput
        cases hput
    · rename_i hput
      split
      · rename_i r' hput'
        rw [h, hput'] at hput
        cases hput
      · rfl
  · rw [dif_neg hlength, dif_neg hlength]

theorem mqSend_done {q r : PosixQueue} {msgPtr : Nat → Byte} {length : Nat}
    {absolute : Option Timespec} (h : q.mqSend msgPtr length absolute = .done r) :
    r.elements = q.elements ++ [read msgPtr 0 length] := by
  unfold mqSend at h
  split at h
  · split at h
    · rename_i r' hput
      obtain rfl := Outcome.done.inj h
      exact (Fifo.put_elements hput).2
    · unfold expire at h
      split at h
      · cases h
      · split at h
        · cases h
        · cases h
  · cases h

theorem mqReceive_cons {q : PosixQueue} {size : Nat} {m : List Byte} {rest : List (List Byte)}
    (hsize : q.msgsize ≤ size) (h : q.elements = m :: rest) (absolute : Option Timespec) :
    ∃ r : PosixQueue, q.mqReceive size absolute = .done (m, r) ∧ r.msgsize = q.msgsize ∧
      r.capacity = q.capacity ∧ r.elements = rest := by
  unfold mqReceive
  rw [if_neg (Nat.not_lt.mpr hsize)]
  split
  · rename_i hnone
    cases (Fifo.take_eq_none_iff.mp hnone).symm.trans h
  · rename_i n r htake
    obtain ⟨hcapacity, hcons⟩ := Fifo.take_some htake
    obtain ⟨rfl, rfl⟩ := List.cons.inj (hcons.symm.trans h)
    exact ⟨_, rfl, rfl, hcapacity, rfl⟩

theorem mqSend_kept {q r : PosixQueue} {msgPtr : Nat → Byte} {length : Nat}
    {absolute : Option Timespec} (h : q.mqSend msgPtr length absolute = .done r) :
    r.msgsize = q.msgsize ∧ r.capacity = q.capacity := by
  unfold mqSend at h
  split at h
  · split at h
    · rename_i r' hput
      obtain rfl := Outcome.done.inj h
      exact ⟨rfl, (Fifo.put_elements hput).1⟩
    · unfold expire at h
      split at h
      · cases h
      · split at h <;> cases h
  · cases h

end PosixQueue

theorem passed_of_noError {α : Type*} {p : Prop} [Decidable p] {code : ReturnCode} {a b : α}
    {rest : Option (ReturnCode × α)} (hcode : code ≠ .noError)
    (h : (if p then some (code, a) else rest) = some (.noError, b)) :
    ¬ p ∧ rest = some (.noError, b) := by
  split at h
  · exact absurd (Prod.mk.inj (Option.some.inj h)).1 hcode
  · rename_i hp
    exact ⟨hp, h⟩

/-! ## The port -/

/-- `MESSAGE_QUEUE_TYPE`. -/
structure MessageQueue where
  qMaxMessageSize : Int
  qMaxNbMessage : Int
  qPortDirection : Direction
  readyOrNot : Bool
  internalBuffer : Nat → Byte
  mq : PosixQueue

namespace MessageQueue

/-- `MESSAGE_LIMIT_EXCEEDED`. -/
def messageLimitExceeded (q : MessageQueue) : Bool :=
  decide (q.qMaxNbMessage ≤ q.mq.elements.length)

/-- `IS_EMPTY`. -/
def isEmpty (q : MessageQueue) : Bool := q.mq.elements.isEmpty

/-- `NUMBER_OF_MESSAGES`; without a queue its attributes cannot be read. -/
def numberOfMessages (q : MessageQueue) : Nat := if q.readyOrNot then q.mq.elements.length else 0

/-- The absolute time of a call: none for the infinite time-out. -/
def absoluteTime (now : ClockTime) (timeOut : Int) : Option Timespec :=
  if timeOut = infiniteTimeValue then none else some (addNano now.toTimespec timeOut)

/-- A length as a `size_t`. -/
def sizeT (length : Int) : Nat := (length % 2 ^ 64).toNat

/-- `SEND_MESSAGE`; `none` where it waits for ever. -/
def sendMessage (q : MessageQueue) (now : ClockTime) (msgPtr : Nat → Byte) (length timeOut : Int) :
    Option (ReturnCode × MessageQueue) :=
  if q.readyOrNot = false then some (.invalidMode, q)
  else if q.qPortDirection = .portDest then some (.invalidMode, q)
  else if timeOut = 0 ∧ q.messageLimitExceeded then some (.timedOut, q)
  else if maxTimeOut < timeOut ∧ timeOut ≠ infiniteTimeValue then some (.invalidParam, q)
  else if q.qMaxMessageSize < length then some (.invalidConfig, q)
  else
    match q.mq.mqSend msgPtr (sizeT length) (absoluteTime now timeOut) with
    | .done mq => some (.noError, { q with mq })
    | .failed .etimedout =>
      some (if timeOut = infiniteTimeValue then .noAction else .timedOut, q)
    | .failed .other => some (.noAction, q)
    | .waits => none

/-- `SEND_MESSAGE_FROM_BUFFER_READ_FROM_SOCKET`: `SEND_MESSAGE` for the other end. -/
def sendMessageFromBufferReadFromSocket (q : MessageQueue) (now : ClockTime) (msgPtr : Nat → Byte)
    (length timeOut : Int) : Option (ReturnCode × MessageQueue) :=
  if q.readyOrNot = false then some (.invalidMode, q)
  else if q.qPortDirection = .portSource then some (.invalidMode, q)
  else if timeOut = 0 ∧ q.messageLimitExceeded then some (.timedOut, q)
  else if maxTimeOut < timeOut ∧ timeOut ≠ infiniteTimeValue then some (.invalidParam, q)
  else if q.qMaxMessageSize < length then some (.invalidConfig, q)
  else
    match q.mq.mqSend msgPtr (sizeT length) (absoluteTime now timeOut) with
    | .done mq => some (.noError, { q with mq })
    | .failed .etimedout =>
      some (if timeOut = infiniteTimeValue then .noAction else .timedOut, q)
    | .failed .other => some (.noAction, q)
    | .waits => none

/-- What `RECEIVE_MESSAGE` leaves; `length` is `none` where it is not written. -/
structure Received where
  returnCode : ReturnCode
  length : Option Int
  msgPtr : Nat → Byte
  queue : MessageQueue

/-- `RECEIVE_MESSAGE`; `none` where it waits for ever. The message goes to the
    internal buffer of the port and from there to the caller. -/
def receiveMessage (q : MessageQueue) (now : ClockTime) (msgPtr : Nat → Byte) (timeOut : Int) :
    Option Received :=
  if q.readyOrNot = false then some ⟨.invalidMode, none, msgPtr, q⟩
  else if q.qPortDirection = .portSource then some ⟨.invalidMode, none, msgPtr, q⟩
  else if maxTimeOut < timeOut ∧ timeOut ≠ infiniteTimeValue then
    some ⟨.invalidParam, none, msgPtr, q⟩
  else if timeOut = 0 ∧ q.isEmpty then some ⟨.notAvailable, none, msgPtr, q⟩
  else
    -- when mq_timedreceive fails LENGTH is what it returned, -1
    match q.mq.mqReceive (sizeT q.qMaxMessageSize) (absoluteTime now timeOut) with
    | .done (m, mq) =>
      let internalBuffer := copy q.internalBuffer 0 (ofList m 0) m.length
      some ⟨.noError, some m.length, copy msgPtr 0 internalBuffer m.length,
        { q with internalBuffer, mq }⟩
    | .failed .etimedout =>
      some ⟨if timeOut = infiniteTimeValue then .noAction else .timedOut, some (-1), msgPtr, q⟩
    | .failed .other => some ⟨.noAction, some (-1), msgPtr, q⟩
    | .waits => none

/-- The port has the queue it asked for. -/
structure Opened (q : MessageQueue) : Prop where
  ready : q.readyOrNot = true
  size : (q.mq.msgsize : Int) = q.qMaxMessageSize
  capacity : (q.mq.capacity : Int) = q.qMaxNbMessage
  representable : q.mq.msgsize < 2 ^ 63

/-- What is left of a port after a sequence of messages has been offered to it: the
    port as it was, with those that found room in its queue. -/
structure AfterOffers (q : MessageQueue) (ms : List (List Byte)) (r : MessageQueue) : Prop where
  port : r = { q with mq := r.mq }
  msgsize : r.mq.msgsize = q.mq.msgsize
  fifo : r.mq.toFifo = q.mq.toFifo.offerAll ms

theorem AfterOffers.refl (q : MessageQueue) : q.AfterOffers [] q := ⟨rfl, rfl, rfl⟩

theorem AfterOffers.trans {q r t : MessageQueue} {ms ns : List (List Byte)}
    (h : q.AfterOffers ms r) (h' : r.AfterOffers ns t) : q.AfterOffers (ms ++ ns) t where
  port := by
    rw [h'.port, h.port]
  msgsize := h'.msgsize.trans h.msgsize
  fifo := by
    rw [h'.fifo, h.fifo, Fifo.offerAll, Fifo.offerAll, Fifo.offerAll, List.foldl_append]

theorem AfterOffers.opened {q r : MessageQueue} {ms : List (List Byte)} (h : q.AfterOffers ms r)
    (hq : q.Opened) : r.Opened := by
  have hcapacity : r.mq.capacity = q.mq.capacity := by
    rw [h.fifo, Fifo.offerAll_capacity]
  constructor
  · rw [h.port]
    exact hq.ready
  · rw [h.msgsize, h.port]
    exact hq.size
  · rw [hcapacity, h.port]
    exact hq.capacity
  · rw [h.msgsize]
    exact hq.representable

theorem sizeT_natCast {n : Nat} (h : n < 2 ^ 63) : sizeT (n : Int) = n := by
  unfold sizeT
  omega

theorem sendMessage_noError {q r : MessageQueue} {now : ClockTime} {msgPtr : Nat → Byte}
    {length timeOut : Int} (h : q.sendMessage now msgPtr length timeOut = some (.noError, r)) :
    r.mq.elements = q.mq.elements ++ [read msgPtr 0 (sizeT length)] := by
  unfold sendMessage at h
  obtain ⟨-, h⟩ := passed_of_noError (by decide) h
  obtain ⟨-, h⟩ := passed_of_noError (by decide) h
  obtain ⟨-, h⟩ := passed_of_noError (by decide) h
  obtain ⟨-, h⟩ := passed_of_noError (by decide) h
  obtain ⟨-, h⟩ := passed_of_noError (by decide) h
  split at h
  · rename_i mq hsend
    obtain ⟨-, rfl⟩ := Prod.mk.inj (Option.some.inj h)
    exact PosixQueue.mqSend_done hsend
  · have hcode := (Prod.mk.inj (Option.some.inj h)).1
    split at hcode
    · cases hcode
    · cases hcode
  · cases (Prod.mk.inj (Option.some.inj h)).1
  · cases h

/-- A port as a place: the messages it accepts, and the room there is for them in it
    and in its queue. -/
def place (q : MessageQueue) : Place (List Byte) where
  limit := min q.qMaxNbMessage.toNat q.mq.capacity
  admissible m := q.readyOrNot && decide (q.qPortDirection ≠ .portDest) &&
    decide ((m.length : Int) ≤ q.qMaxMessageSize) && decide (m.length ≤ q.mq.msgsize)
  held := q.mq.elements

theorem admissible_iff {q : MessageQueue} {m : List Byte} :
    q.place.admissible m = true ↔ q.readyOrNot = true ∧ q.qPortDirection ≠ .portDest ∧
      (m.length : Int) ≤ q.qMaxMessageSize ∧ m.length ≤ q.mq.msgsize := by
  simp [place, and_assoc]

/-- A send with the time-out 0 puts the message into the queue and answers NO_ERROR, or
    does neither. -/
theorem sendMessage_spec (q : MessageQueue) (now : ClockTime) {msgPtr : Nat → Byte} {m : List Byte}
    (hm : read msgPtr 0 m.length = m) (hlength : m.length < 2 ^ 64) :
    (q.place.Admits m ∧ ∃ mq : PosixQueue,
        q.sendMessage now msgPtr m.length 0 = some (.noError, { q with mq }) ∧
        mq.msgsize = q.mq.msgsize ∧ q.mq.put m = some mq.toFifo) ∨
      ¬ q.place.Admits m ∧ ∃ code, code ≠ .noError ∧
        q.sendMessage now msgPtr m.length 0 = some (code, q) := by
  have hsizeT : sizeT (m.length : Int) = m.length := by
    unfold sizeT
    omega
  -- Two bounds: the limit that the port counts to, and the capacity of the POSIX queue.
  have hroom : q.mq.elements.length < q.place.limit ↔
      ¬ q.messageLimitExceeded = true ∧ q.mq.elements.length < q.mq.capacity := by
    simp only [place, messageLimitExceeded, decide_eq_true_iff, Nat.lt_min]
    omega
  unfold Place.Admits
  rw [admissible_iff, show q.place.held = q.mq.elements from rfl, hroom]
  by_cases hready : q.readyOrNot = false
  · exact Or.inr ⟨by simp [hready], _, by decide, if_pos hready⟩
  by_cases hdirection : q.qPortDirection = .portDest
  · refine Or.inr ⟨by simp [hdirection], .invalidMode, by decide, ?_⟩
    rw [sendMessage, if_neg hready, if_pos hdirection]
  by_cases hfull : q.messageLimitExceeded = true
  · refine Or.inr ⟨by simp [hfull], .timedOut, by decide, ?_⟩
    rw [sendMessage, if_neg hready, if_neg hdirection, if_pos ⟨rfl, hfull⟩]
  by_cases hlong : q.qMaxMessageSize < (m.length : Int)
  · refine Or.inr ⟨fun h => absurd hlong (Int.not_lt.mpr h.1.2.2.1), .invalidConfig, by decide, ?_⟩
    rw [sendMessage, if_neg hready, if_neg hdirection, if_neg fun h => hfull h.2,
      if_neg (by decide), if_pos hlong]
  have hsend : q.sendMessage now msgPtr m.length 0 =
      match q.mq.mqSend msgPtr m.length (some (addNano now.toTimespec 0)) with
      | .done mq => some (.noError, { q with mq })
      | .failed .etimedout => some (.timedOut, q)
      | .failed .other => some (.noAction, q)
      | .waits => none := by
    rw [sendMessage, if_neg hready, if_neg hdirection, if_neg fun h => hfull h.2,
      if_neg (by decide), if_neg hlong, hsizeT]
    rfl
  rw [hsend]
  by_cases hqueue : m.length ≤ q.mq.msgsize ∧ q.mq.elements.length < q.mq.capacity
  · obtain ⟨r, hdone, hmsgsize, hput⟩ :
        ∃ r : PosixQueue, q.mq.mqSend msgPtr m.length (some (addNano now.toTimespec 0)) = .done r ∧
          r.msgsize = q.mq.msgsize ∧ q.mq.put (read msgPtr 0 m.length) = some r.toFifo :=
      PosixQueue.mqSend_of_room hqueue.1 hqueue.2 _
    rw [hm] at hput
    refine Or.inl ⟨⟨⟨?_, hdirection, Int.not_lt.mp hlong, hqueue.1⟩, hfull, hqueue.2⟩, r, ?_,
      hmsgsize, hput⟩
    · simpa using hready
    · rw [hdone]
  · obtain ⟨errno, hfailed⟩ :
        ∃ errno, q.mq.mqSend msgPtr m.length (some (addNano now.toTimespec 0)) = .failed errno :=
      PosixQueue.mqSend_fails hqueue _
    refine Or.inr ⟨fun h => hqueue ⟨h.1.2.2.2, h.2.2⟩, ?_⟩
    rw [hfailed]
    cases errno with
    | etimedout => exact ⟨_, by decide, rfl⟩
    | other => exact ⟨_, by decide, rfl⟩

theorem sendMessage_zero {q : MessageQueue} (hq : q.Opened) (hdirection : q.qPortDirection ≠ .portDest)
    (now : ClockTime) {msgPtr : Nat → Byte} {m : List Byte} (hm : read msgPtr 0 m.length = m)
    (hfits : (m.length : Int) ≤ q.qMaxMessageSize) :
    ∃ code r, q.sendMessage now msgPtr m.length 0 = some (code, r) ∧ q.AfterOffers [m] r := by
  have hsize := hq.size
  have hcapacity := hq.capacity
  have hrepresentable := hq.representable
  have hlength : m.length ≤ q.mq.msgsize := by omega
  obtain ⟨-, mq, hsend, hmsgsize, hput⟩ | ⟨hfull, code, -, hsend⟩ :=
    sendMessage_spec q now hm (by omega)
  · refine ⟨_, _, hsend, rfl, hmsgsize, ?_⟩
    show mq.toFifo = (q.mq.toFifo.put m).getD q.mq.toFifo
    rw [hput, Option.getD_some]
  · have hput : q.mq.toFifo.put m = none := by
      rw [Fifo.put_eq_none_iff, ← Nat.not_lt]
      intro hroom
      refine hfull ⟨admissible_iff.mpr ⟨hq.ready, hdirection, hfits, hlength⟩, ?_⟩
      show q.mq.elements.length < min q.qMaxNbMessage.toNat q.mq.capacity
      omega
    refine ⟨code, q, hsend, rfl, rfl, ?_⟩
    show q.mq.toFifo = (q.mq.toFifo.put m).getD q.mq.toFifo
    rw [hput, Option.getD_none]

/-- The port gives its messages away. -/
structure Gives (q : MessageQueue) : Prop where
  ready : q.readyOrNot = true
  direction : q.qPortDirection ≠ .portSource
  size : q.mq.msgsize ≤ sizeT q.qMaxMessageSize

instance (q : MessageQueue) : Decidable q.Gives :=
  decidable_of_iff (q.readyOrNot = true ∧ q.qPortDirection ≠ .portSource ∧
    q.mq.msgsize ≤ sizeT q.qMaxMessageSize)
    ⟨fun ⟨hready, hdirection, hsize⟩ => ⟨hready, hdirection, hsize⟩,
      fun h => ⟨h.ready, h.direction, h.size⟩⟩

theorem Gives.receiveMessage {q : MessageQueue} (hq : q.Gives) (now : ClockTime)
    (msgPtr : Nat → Byte) {timeOut : Int} (htimeOut : timeOut ≤ maxTimeOut) {m : List Byte}
    {rest : List (List Byte)} (h : q.mq.elements = m :: rest) :
    ∃ msgPtr' internalBuffer, ∃ mq : PosixQueue, q.receiveMessage now msgPtr timeOut =
        some ⟨.noError, some m.length, msgPtr', { q with internalBuffer, mq }⟩ ∧
      read msgPtr' 0 m.length = m ∧ mq.msgsize = q.mq.msgsize ∧ mq.capacity = q.mq.capacity ∧
      mq.elements = rest := by
  have hready : ¬ q.readyOrNot = false := by simp [hq.ready]
  have hempty : q.isEmpty = false := by simp [isEmpty, h]
  obtain ⟨r, hreceive, hmsgsize, hcapacity, hrest⟩ :=
    PosixQueue.mqReceive_cons hq.size h (absoluteTime now timeOut)
  rw [MessageQueue.receiveMessage, if_neg hready, if_neg hq.direction,
    if_neg (fun hlate => by omega), if_neg (by simp [hempty]), hreceive]
  refine ⟨_, _, r, rfl, ?_, hmsgsize, hcapacity, hrest⟩
  rw [read_copy (Nat.le_refl _), read_copy (Nat.le_refl _), read_ofList]

theorem receiveMessage_keeps {q : MessageQueue} (hq : ¬ q.Gives) (now : ClockTime)
    (msgPtr : Nat → Byte) {m : List Byte} {rest : List (List Byte)} (h : q.mq.elements = m :: rest) :
    ∃ code length, code ≠ .noError ∧
      q.receiveMessage now msgPtr 0 = some ⟨code, length, msgPtr, q⟩ := by
  unfold receiveMessage
  by_cases hready : q.readyOrNot = false
  · exact ⟨_, _, by decide, if_pos hready⟩
  by_cases hdirection : q.qPortDirection = .portSource
  · rw [if_neg hready, if_pos hdirection]
    exact ⟨_, _, by decide, rfl⟩
  have hsize : sizeT q.qMaxMessageSize < q.mq.msgsize := by
    by_contra hle
    exact hq ⟨by simpa using hready, hdirection, Nat.not_lt.mp hle⟩
  rw [if_neg hready, if_neg hdirection, if_neg (by decide), if_neg (by simp [isEmpty, h]),
    PosixQueue.mqReceive, if_pos hsize]
  exact ⟨_, _, by decide, rfl⟩

theorem Opened.gives {q : MessageQueue} (hq : q.Opened) (hdirection : q.qPortDirection ≠ .portSource) :
    q.Gives where
  ready := hq.ready
  direction := hdirection
  size := Nat.le_of_eq (by rw [← hq.size, sizeT_natCast hq.representable])

/-- A port is open as before when its queue has lost messages. -/
theorem Opened.received {q : MessageQueue} (hq : q.Opened) (internalBuffer : Nat → Byte)
    {mq : PosixQueue} (hmsgsize : mq.msgsize = q.mq.msgsize) (hcapacity : mq.capacity = q.mq.capacity) :
    Opened { q with internalBuffer, mq } where
  ready := hq.ready
  size := by
    show (mq.msgsize : Int) = q.qMaxMessageSize
    rw [hmsgsize]
    exact hq.size
  capacity := by
    show (mq.capacity : Int) = q.qMaxNbMessage
    rw [hcapacity]
    exact hq.capacity
  representable := by
    show mq.msgsize < 2 ^ 63
    rw [hmsgsize]
    exact hq.representable

theorem receiveMessage_cons {q : MessageQueue} (hq : q.Opened)
    (hdirection : q.qPortDirection ≠ .portSource) (now : ClockTime) (msgPtr : Nat → Byte)
    {timeOut : Int} (htimeOut : timeOut ≤ maxTimeOut) {m : List Byte} {rest : List (List Byte)}
    (h : q.mq.elements = m :: rest) :
    ∃ msgPtr' r, q.receiveMessage now msgPtr timeOut =
        some ⟨.noError, some m.length, msgPtr', r⟩ ∧
      read msgPtr' 0 m.length = m ∧ r.Opened ∧ r.qPortDirection = q.qPortDirection ∧
      r.mq.elements = rest := by
  obtain ⟨msgPtr', internalBuffer, mq, hreceive, hread, hmsgsize, hcapacity, hrest⟩ :=
    (hq.gives hdirection).receiveMessage now msgPtr htimeOut h
  exact ⟨msgPtr', _, hreceive, hread, hq.received internalBuffer hmsgsize hcapacity, rfl, hrest⟩

theorem sendMessage_cases {q r : MessageQueue} {now : ClockTime} {msgPtr : Nat → Byte}
    {length timeOut : Int} {code : ReturnCode}
    (h : q.sendMessage now msgPtr length timeOut = some (code, r)) :
    (code ≠ .noError ∧ r = q) ∨
      code = .noError ∧ r.mq.msgsize = q.mq.msgsize ∧ r.mq.capacity = q.mq.capacity ∧
        r.mq.elements = q.mq.elements ++ [read msgPtr 0 (sizeT length)] := by
  have refused {c : ReturnCode} (hc : c ≠ .noError) (h : some (c, q) = some (code, r)) :
      code ≠ .noError ∧ r = q := by
    obtain ⟨rfl, rfl⟩ := Prod.mk.inj (Option.some.inj h)
    exact ⟨hc, rfl⟩
  -- All the checks refuse before mq_timedsend; a failed mq_timedsend puts nothing in.
  unfold sendMessage at h
  split at h
  · exact Or.inl (refused (by decide) h)
  split at h
  · exact Or.inl (refused (by decide) h)
  split at h
  · exact Or.inl (refused (by decide) h)
  split at h
  · exact Or.inl (refused (by decide) h)
  split at h
  · exact Or.inl (refused (by decide) h)
  split at h
  · rename_i mq hsend
    obtain ⟨rfl, rfl⟩ := Prod.mk.inj (Option.some.inj h)
    obtain ⟨hmsgsize, hcapacity⟩ := PosixQueue.mqSend_kept hsend
    exact Or.inr ⟨rfl, hmsgsize, hcapacity, PosixQueue.mqSend_done hsend⟩
  · refine Or.inl (refused ?_ h)
    split <;> decide
  · exact Or.inl (refused (by decide) h)
  · cases h

theorem receiveMessage_cases {q : MessageQueue} {now : ClockTime} {msgPtr : Nat → Byte}
    {timeOut : Int} {r : Received}
    (h : q.receiveMessage now msgPtr timeOut = some r) :
    (r.returnCode ≠ .noError ∧ r.queue = q) ∨
      r.returnCode = .noError ∧ r.queue.mq.msgsize = q.mq.msgsize ∧
        r.queue.mq.capacity = q.mq.capacity ∧
        ∃ msg, r.length = some (msg.length : Int) ∧ read r.msgPtr 0 msg.length = msg ∧
          q.mq.elements = msg :: r.queue.mq.elements := by
  have refused {c : ReturnCode} {length : Option Int} (hc : c ≠ .noError)
      (h : some (⟨c, length, msgPtr, q⟩ : Received) = some r) :
      r.returnCode ≠ .noError ∧ r.queue = q := by
    obtain rfl := Option.some.inj h
    exact ⟨hc, rfl⟩
  -- Four checks refuse before the queue is looked at; a failed mq_timedreceive leaves it alone.
  unfold receiveMessage at h
  split at h
  · exact Or.inl (refused (by decide) h)
  split at h
  · exact Or.inl (refused (by decide) h)
  split at h
  · exact Or.inl (refused (by decide) h)
  split at h
  · exact Or.inl (refused (by decide) h)
  split at h
  · rename_i msg mq hreceive
    obtain rfl := Option.some.inj h
    unfold PosixQueue.mqReceive at hreceive
    split at hreceive
    · cases hreceive
    split at hreceive
    · unfold PosixQueue.expire at hreceive
      split at hreceive
      · cases hreceive
      · split at hreceive <;> cases hreceive
    · rename_i msg' r' htake
      obtain ⟨rfl, rfl⟩ := Prod.mk.inj (Outcome.done.inj hreceive)
      obtain ⟨hcapacity, hcons⟩ := Fifo.take_some htake
      refine Or.inr ⟨rfl, rfl, hcapacity, msg', rfl, ?_, hcons⟩
      rw [read_copy (Nat.le_refl _), read_copy (Nat.le_refl _), read_ofList]
  · refine Or.inl (refused ?_ h)
    split <;> decide
  · exact Or.inl (refused (by decide) h)
  · cases h

theorem sendMessage_port {q r : MessageQueue} {now : ClockTime} {msgPtr : Nat → Byte}
    {length timeOut : Int} {code : ReturnCode}
    (h : q.sendMessage now msgPtr length timeOut = some (code, r)) : r = { q with mq := r.mq } := by
  have refused {c : ReturnCode} (h : some (c, q) = some (code, r)) : r = { q with mq := r.mq } := by
    obtain ⟨-, rfl⟩ := Prod.mk.inj (Option.some.inj h)
    rfl
  unfold sendMessage at h
  iterate 5
    split at h
    · exact refused h
  split at h
  · obtain ⟨-, rfl⟩ := Prod.mk.inj (Option.some.inj h)
    rfl
  · exact refused h
  · exact refused h
  · cases h

theorem receiveMessage_port {q : MessageQueue} {now : ClockTime} {msgPtr : Nat → Byte}
    {timeOut : Int} {r : Received} (h : q.receiveMessage now msgPtr timeOut = some r) :
    r.queue = { q with internalBuffer := r.queue.internalBuffer, mq := r.queue.mq } := by
  unfold receiveMessage at h
  iterate 4
    split at h
    · obtain rfl := Option.some.inj h
      rfl
  split at h
  · obtain rfl := Option.some.inj h
    rfl
  · obtain rfl := Option.some.inj h
    rfl
  · obtain rfl := Option.some.inj h
    rfl
  · cases h

end MessageQueue

end Arinc.QueuePort
