import Mathlib.Data.List.Forall2
import ArincEmulator.Lib.Runs
import ArincEmulator.Lib.Census
import ArincEmulator.Lib.Memory
import ArincEmulator.Lib.Ring
import ArincEmulator.Semaphore

/- The bounded message buffer (`APEX_BUFFER_TYPE`) behind `SEND_BUFFER` and
   `RECEIVE_BUFFER`, and any number of callers. A call waits for its semaphore,
   runs its critical section under `BUFFER_MUTEX` and posts the other semaphore
   before it lets go of the mutex: three steps, and other callers move between
   them. The messages of the critical sections are logged in their order. A send
   copies as many bytes as it is told to, whatever its slot has room for.

   What is proved, for every interleaving and every choice of time-outs:
     1. `callerStep_keeps`: one step of one caller keeps the queue, and moves
        slots and messages between the counters and that caller, if the message
        it may copy fits its slot.
     2. `messages_in_order`: in a run whose copies fit, what was received is what
        was sent, in order, up to the messages still queued in the slots from the
        head on; the counters and the callers in flight add up to the capacity;
        no inner post fails; a call that gave up changed nothing.
     3. `long_message_overwrites`: one that does not fit spoils another. -/
namespace Arinc.Buffer

open Arinc.Runs Arinc.Census Arinc.Ring Arinc.Memory

/-- `PAYLOAD_TYPE`: where the memory of one slot begins, and the length of the message
    in it. -/
structure Payload where
  actualLoad : Nat
  length : Nat
  deriving DecidableEq, Repr

/-- `APEX_BUFFER_TYPE`; `bufferMutex` says whether a caller has `BUFFER_MUTEX`. The
    `heap` is the memory that the slots are in. -/
structure ApexBuffer where
  bufferId : Nat
  bufferMaxMessageSize : Nat
  bufferMaxNbMessage : Nat
  currentMessageSize : Int
  bufferHead : Nat
  bufferTail : Nat
  payload : Nat → Payload
  heap : Nat → UInt8
  bufferReadSemaphore : Semaphore
  bufferWriteSemaphore : Semaphore
  bufferMutex : Bool

/-- What the constructor gets from `malloc`: the array of the slots and a place for each
    of them, which lie apart, and whatever the memory has held. -/
structure Allocation (size n : Nat) where
  payload : Nat → Payload
  heap : Nat → UInt8
  apart : ∀ i < n, ∀ j < n, i ≠ j →
    (payload i).actualLoad + size ≤ (payload j).actualLoad ∨
      (payload j).actualLoad + size ≤ (payload i).actualLoad

/-- The constructor. The slots are allocated, nothing is written to them. -/
def ApexBuffer.create (id : Nat) {size maxNbMessage : Nat} (slots : Allocation size maxNbMessage) :
    ApexBuffer where
  bufferId := id
  bufferMaxMessageSize := size
  bufferMaxNbMessage := maxNbMessage
  currentMessageSize := 0
  bufferHead := 0
  bufferTail := 0
  payload := slots.payload
  heap := slots.heap
  bufferReadSemaphore := ⟨0, maxNbMessage⟩
  bufferWriteSemaphore := ⟨maxNbMessage, maxNbMessage⟩
  bufferMutex := false

/-- A message as `RECEIVE_MESSAGE` hands it out: `LENGTH` and the bytes copied. -/
structure Received where
  length : Nat
  bytes : List UInt8
  deriving DecidableEq, Repr

namespace ApexBuffer

/-- The wait of `SEND_MESSAGE` and what it answers when the wait gives up. -/
def sendWait (b : ApexBuffer) (timeout : Int) (expired : Bool) :
    Option (ApexBuffer × ReturnCode) :=
  (b.bufferWriteSemaphore.waitFor timeout expired).map fun (w, code) =>
    ({ b with bufferWriteSemaphore := w },
      if code = .timedOut ∧ timeout = 0 then .notAvailable else code)

/-- The critical section of `SEND_MESSAGE`; `LENGTH` is that of the message. -/
def sendCritical (b : ApexBuffer) (message : List UInt8) : ApexBuffer :=
  let slot := b.payload b.bufferTail
  { b with
    heap := copy b.heap slot.actualLoad (ofList message 0) message.length
    payload := Function.update b.payload b.bufferTail { slot with length := message.length }
    currentMessageSize := b.currentMessageSize + 1
    bufferTail := next b.bufferMaxNbMessage b.bufferTail
    bufferMutex := true }

/-- The end of `SEND_MESSAGE`: the post, and the mutex is free again. -/
def sendPost (b : ApexBuffer) : ApexBuffer :=
  { b with bufferReadSemaphore := b.bufferReadSemaphore.post.1, bufferMutex := false }

/-- The wait of `RECEIVE_MESSAGE` and what it answers when the wait gives up. -/
def receiveWait (b : ApexBuffer) (timeout : Int) (expired : Bool) :
    Option (ApexBuffer × ReturnCode) :=
  (b.bufferReadSemaphore.waitFor timeout expired).map fun (r, code) =>
    ({ b with bufferReadSemaphore := r },
      if code = .timedOut ∧ timeout = 0 then .notAvailable else code)

/-- The message in slot `i` as `RECEIVE_MESSAGE` reads it. -/
def slotMessage (b : ApexBuffer) (i : Nat) : Received :=
  ⟨(b.payload i).length, read b.heap (b.payload i).actualLoad (b.payload i).length⟩

/-- What the critical section of `RECEIVE_MESSAGE` copies out. -/
def headMessage (b : ApexBuffer) : Received := b.slotMessage b.bufferHead

/-- The critical section of `RECEIVE_MESSAGE`: the slot is filled with the
    character '0' and given up. -/
def receiveCritical (b : ApexBuffer) : ApexBuffer :=
  let slot := b.payload b.bufferHead
  { b with
    heap := copy b.heap slot.actualLoad (fun _ => 48) b.bufferMaxMessageSize
    payload := Function.update b.payload b.bufferHead { slot with length := 0 }
    bufferHead := next b.bufferMaxNbMessage b.bufferHead
    currentMessageSize := b.currentMessageSize - 1
    bufferMutex := true }

/-- The end of `RECEIVE_MESSAGE`. -/
def receivePost (b : ApexBuffer) : ApexBuffer :=
  { b with bufferWriteSemaphore := b.bufferWriteSemaphore.post.1, bufferMutex := false }

end ApexBuffer

/-! ## Callers -/

/-- Where a caller is: in no call, past its wait, or past its critical section. -/
inductive Pc where
  | idle
  | sendReady (message : List UInt8)
  | sendPosting
  | receiveReady
  | receivePosting
  deriving DecidableEq, Repr

/-- A caller and the `RETURN_CODE` of its last step. -/
structure Caller where
  pc : Pc
  returnCode : ReturnCode
  deriving DecidableEq, Repr

/-- The steps of one caller. -/
inductive Op where
  | sendBuffer (id : Nat) (message : List UInt8) (timeout : Int) (expired : Bool)
  | sendCritical
  | sendPost
  | receiveBuffer (id : Nat) (timeout : Int) (expired : Bool)
  | receiveCritical
  | receivePost
  deriving DecidableEq, Repr

/-- The buffer and the messages of its critical sections so far. -/
structure Queue where
  buffer : ApexBuffer
  sent : List (List UInt8)
  received : List Received

/-- The argument checks of `SEND_BUFFER` and `RECEIVE_BUFFER` over a vector of
    `size` buffers: the id is compared as a word of 32 bits. -/
def badRequest (size id : Nat) (timeout : Int) : Bool :=
  decide (size ≤ id % 2 ^ 32) || decide (maxTimeOut < timeout)

/-- One step of one caller. A call for another buffer is no step of this one. -/
def callerStep (size : Nat) (q : Queue) (c : Caller) : Op → Option (Queue × Caller)
  | .sendBuffer id message timeout expired =>
    if c.pc = .idle then
      if badRequest size id timeout then some (q, { c with returnCode := .invalidParam })
      else if id = q.buffer.bufferId then
        (q.buffer.sendWait timeout expired).map fun (b, code) =>
          ({ q with buffer := b },
            ⟨if code = .noError then .sendReady message else .idle, code⟩)
      else none
    else none
  -- the critical section is one step, taken when the mutex is free
  | .sendCritical =>
    match c.pc, q.buffer.bufferMutex with
    | .sendReady message, false =>
      some ({ q with buffer := q.buffer.sendCritical message, sent := q.sent ++ [message] },
        { c with pc := .sendPosting })
    | _, _ => none
  | .sendPost =>
    if c.pc = .sendPosting then
      some ({ q with buffer := q.buffer.sendPost }, ⟨.idle, .noError⟩)
    else none
  | .receiveBuffer id timeout expired =>
    if c.pc = .idle then
      if badRequest size id timeout then some (q, { c with returnCode := .invalidParam })
      else if id = q.buffer.bufferId then
        (q.buffer.receiveWait timeout expired).map fun (b, code) =>
          ({ q with buffer := b }, ⟨if code = .noError then .receiveReady else .idle, code⟩)
      else none
    else none
  | .receiveCritical =>
    match c.pc, q.buffer.bufferMutex with
    | .receiveReady, false =>
      some ({ q with
          buffer := q.buffer.receiveCritical
          received := q.received ++ [q.buffer.headMessage] },
        { c with pc := .receivePosting })
    | _, _ => none
  | .receivePost =>
    if c.pc = .receivePosting then
      some ({ q with buffer := q.buffer.receivePost }, ⟨.idle, .noError⟩)
    else none

/-- The message that the caller may be about to copy fits a slot of `size` bytes. -/
def Pc.Fits (size : Nat) : Pc → Prop
  | .sendReady message => message.length ≤ size
  | _ => True

instance (size : Nat) : (pc : Pc) → Decidable (pc.Fits size)
  | .sendReady _ => inferInstanceAs (Decidable (_ ≤ _))
  | .idle | .sendPosting | .receiveReady | .receivePosting => inferInstanceAs (Decidable True)

/-- The buffer and all its callers. -/
structure State (ι : Type*) where
  queue : Queue
  callers : ι → Caller

variable {ι : Type*}

/-- A new buffer, nobody has called it. -/
def start (id : Nat) {size maxNbMessage : Nat} (slots : Allocation size maxNbMessage) : State ι :=
  ⟨⟨.create id slots, [], []⟩, fun _ => ⟨.idle, .noError⟩⟩

/-- Caller `i` takes a step; `vectorSize` is `BUFFER_VECTOR.size()`. -/
def step [DecidableEq ι] (vectorSize : Nat) (s : State ι) (a : ι × Op) : Option (State ι) :=
  (callerStep vectorSize s.queue (s.callers a.1) a.2).map fun (q, c) =>
    ⟨q, Function.update s.callers a.1 c⟩

/-- A step that copies a message to a slot copies one that fits it. -/
def CopyFits (s : State ι) (a : ι × Op) : Prop :=
  a.2 = .sendCritical → (s.callers a.1).pc.Fits s.queue.buffer.bufferMaxMessageSize

instance (s : State ι) (a : ι × Op) : Decidable (CopyFits s a) :=
  inferInstanceAs (Decidable (_ → _))

/-! ## Messages in slots -/

/-- `r` is the message `m`: its length, and its bytes if a slot of `size` bytes
    can hold them. -/
def Intact (size : Nat) (r : Received) (m : List UInt8) : Prop :=
  r.length = m.length ∧ (m.length ≤ size → r.bytes = m)

instance (size : Nat) (r : Received) (m : List UInt8) : Decidable (Intact size r m) :=
  inferInstanceAs (Decidable (_ ∧ (_ → _)))

/-- The message as it should be received. -/
def Received.of (m : List UInt8) : Received := ⟨m.length, m⟩

theorem forall₂_intact (size : Nat) (ms : List (List UInt8)) :
    List.Forall₂ (Intact size) (ms.map Received.of) ms := by
  rw [List.forall₂_map_left_iff, List.forall₂_same]
  exact fun _ _ => ⟨rfl, fun _ => rfl⟩

/-- The queue of a buffer of `n` slots of `size` bytes: what was sent is what was
    received followed by what the slots from the head on hold. -/
structure Queue.Ok {size n : Nat} (slots : Allocation size n) (q : Queue)
    (delivered queued : List (List UInt8)) : Prop where
  size_eq : q.buffer.bufferMaxMessageSize = size
  nb_eq : q.buffer.bufferMaxNbMessage = n
  readMax : q.buffer.bufferReadSemaphore.maximumvalue = n
  writeMax : q.buffer.bufferWriteSemaphore.maximumvalue = n
  read_nonneg : 0 ≤ q.buffer.bufferReadSemaphore.counter
  write_nonneg : 0 ≤ q.buffer.bufferWriteSemaphore.counter
  head_lt : q.buffer.bufferHead < n
  tail_eq : q.buffer.bufferTail = (q.buffer.bufferHead + queued.length) % n
  current : q.buffer.currentMessageSize = queued.length
  sent : q.sent = delivered ++ queued
  received : q.received = delivered.map Received.of
  places : ∀ i, (q.buffer.payload i).actualLoad = (slots.payload i).actualLoad
  fits : ∀ m ∈ queued, m.length ≤ size
  slots : window n q.buffer.slotMessage q.buffer.bufferHead queued.length = queued.map Received.of

section
variable {size n : Nat} {slots : Allocation size n} {q : Queue}
  {delivered queued : List (List UInt8)}

theorem Queue.Ok.slot_fits (hq : q.Ok slots delivered queued) {j : Nat} (hj : j < queued.length) :
    (q.buffer.payload ((q.buffer.bufferHead + j) % n)).length ≤ size := by
  have hmem : q.buffer.slotMessage ((q.buffer.bufferHead + j) % n) ∈
      window n q.buffer.slotMessage q.buffer.bufferHead queued.length := mem_window hj
  rw [hq.slots] at hmem
  obtain ⟨m, hm, heq⟩ := List.mem_map.mp hmem
  have hlength : m.length = (q.buffer.payload ((q.buffer.bufferHead + j) % n)).length :=
    congrArg Received.length heq
  rw [← hlength]
  exact hq.fits m hm

/-- A write into slot `k` that stays in it leaves the messages of the other slots. -/
theorem Queue.Ok.slotMessage_of_ne (hq : q.Ok slots delivered queued) {b : ApexBuffer} {k : Nat}
    (hk : k < n) {src : Nat → UInt8} {count length : Nat} (hcount : count ≤ size)
    (hheap : b.heap = copy q.buffer.heap (q.buffer.payload k).actualLoad src count)
    (hpayload : b.payload = Function.update q.buffer.payload k
      { q.buffer.payload k with length := length }) {j : Nat} (hj : j < queued.length)
    (hne : (q.buffer.bufferHead + j) % n ≠ k) :
    b.slotMessage ((q.buffer.bufferHead + j) % n) =
      q.buffer.slotMessage ((q.buffer.bufferHead + j) % n) := by
  have hfits := hq.slot_fits hj
  have hapart := slots.apart _ (Nat.mod_lt (q.buffer.bufferHead + j) (by omega : n > 0)) k hk hne
  rw [← hq.places, ← hq.places] at hapart
  unfold ApexBuffer.slotMessage
  rw [hpayload, Function.update_of_ne hne, hheap, read_copy_of_apart (by omega)]

theorem places_update {payload : Nat → Payload} (k length : Nat)
    (h : ∀ i, (payload i).actualLoad = (slots.payload i).actualLoad) (i : Nat) :
    (Function.update payload k { payload k with length := length } i).actualLoad =
      (slots.payload i).actualLoad := by
  by_cases hi : i = k
  · rw [hi, Function.update_self]
    exact h k
  · rw [Function.update_of_ne hi]
    exact h i

theorem Queue.Ok.send (hq : q.Ok slots delivered queued) (hroom : queued.length < n)
    {m : List UInt8} (hm : m.length ≤ size) :
    Queue.Ok slots { q with buffer := q.buffer.sendCritical m, sent := q.sent ++ [m] }
      delivered (queued ++ [m]) := by
  have htail : q.buffer.bufferTail < n := by
    rw [hq.tail_eq]
    exact Nat.mod_lt _ (by omega)
  refine { hq with
    tail_eq := ?_
    current := ?_
    sent := ?_
    places := places_update _ _ hq.places
    fits := List.forall_mem_append.mpr ⟨hq.fits, List.forall_mem_singleton.mpr hm⟩
    slots := ?_ }
  · rw [List.length_append, List.length_singleton]
    simp only [ApexBuffer.sendCritical, hq.nb_eq]
    rw [next_eq_mod htail, hq.tail_eq, Nat.mod_add_mod, Nat.add_assoc]
  · simp [ApexBuffer.sendCritical, hq.current]
  · simp only [hq.sent, List.append_assoc]
  · -- the others keep their messages, and the slot at the tail has the new one
    have hothers : window n (q.buffer.sendCritical m).slotMessage q.buffer.bufferHead queued.length =
        window n q.buffer.slotMessage q.buffer.bufferHead queued.length := by
      refine window_congr fun j hj => hq.slotMessage_of_ne htail hm rfl rfl hj ?_
      rw [hq.tail_eq]
      exact add_mod_ne hj hroom
    have hnew : (q.buffer.sendCritical m).slotMessage q.buffer.bufferTail = Received.of m := by
      simp only [ApexBuffer.slotMessage, ApexBuffer.sendCritical, Function.update_self]
      rw [read_copy (Nat.le_refl _), read_ofList]
      rfl
    rw [List.length_append, List.length_singleton, List.map_append, List.map_singleton]
    show window n (q.buffer.sendCritical m).slotMessage q.buffer.bufferHead (queued.length + 1) = _
    rw [window_succ, hothers, hq.slots, ← hq.tail_eq, hnew]

theorem Queue.Ok.receive {m : List UInt8} (hq : q.Ok slots delivered (m :: queued))
    (hroom : queued.length < n) :
    Queue.Ok slots { q with
        buffer := q.buffer.receiveCritical
        received := q.received ++ [q.buffer.headMessage] }
      (delivered ++ [m]) queued := by
  have hslots := hq.slots
  rw [List.length_cons, window_pop hq.head_lt, List.map_cons] at hslots
  obtain ⟨hhead, hrest⟩ := List.cons.inj hslots
  refine { hq with
    head_lt := ?_
    tail_eq := ?_
    current := ?_
    sent := ?_
    received := ?_
    places := places_update _ _ hq.places
    fits := (List.forall_mem_cons.mp hq.fits).2
    slots := ?_ }
  · simp only [ApexBuffer.receiveCritical, hq.nb_eq]
    exact next_lt hq.head_lt
  · have htail := hq.tail_eq
    rw [List.length_cons] at htail
    simp only [ApexBuffer.receiveCritical, hq.nb_eq]
    -- One off at the head and one fewer: the tail stays where it is.
    rw [next_eq_mod hq.head_lt, Nat.mod_add_mod, htail]
    congr 1
    omega
  · have hcurrent := hq.current
    rw [List.length_cons] at hcurrent
    simp only [ApexBuffer.receiveCritical]
    omega
  · simp only [hq.sent, List.append_assoc, List.singleton_append]
  · rw [List.map_append, List.map_singleton, ← hhead, ← hq.received]
    rfl
  · rw [← hrest]
    have hnext : next q.buffer.bufferMaxNbMessage q.buffer.bufferHead =
        next n q.buffer.bufferHead := by rw [hq.nb_eq]
    show window n q.buffer.receiveCritical.slotMessage
      (next q.buffer.bufferMaxNbMessage q.buffer.bufferHead) queued.length = _
    rw [hnext]
    -- The receive fills the head slot with the character 0; the other slots keep their bytes.
    refine window_congr fun j hj => ?_
    have hplace : (next n q.buffer.bufferHead + j) % n = (q.buffer.bufferHead + (j + 1)) % n := by
      rw [next_eq_mod hq.head_lt, Nat.mod_add_mod]
      congr 1
      omega
    rw [hplace]
    have hheap : q.buffer.receiveCritical.heap =
        copy q.buffer.heap (q.buffer.payload q.buffer.bufferHead).actualLoad (fun _ => 48)
          q.buffer.bufferMaxMessageSize := rfl
    refine hq.slotMessage_of_ne hq.head_lt (Nat.le_of_eq hq.size_eq) hheap rfl
      (by rw [List.length_cons]; omega) ?_
    have hdiff : (q.buffer.bufferHead + 0) % n ≠ (q.buffer.bufferHead + (j + 1)) % n :=
      add_mod_ne (Nat.succ_pos j) (by omega)
    rw [Nat.add_zero, Nat.mod_eq_of_lt hq.head_lt] at hdiff
    exact hdiff.symm

end

/-! ## What one step of one caller keeps -/

/-- The read tokens a caller keeps from the counter: taken by its wait, or owed
    by its post. -/
def Caller.readShare (c : Caller) : Int :=
  match c.pc with
  | .receiveReady | .sendPosting => 1
  | _ => 0

/-- The write tokens a caller keeps from the counter. -/
def Caller.writeShare (c : Caller) : Int :=
  match c.pc with
  | .sendReady _ | .receivePosting => 1
  | _ => 0

/-- Whether the caller has `BUFFER_MUTEX`. -/
def Caller.locks (c : Caller) : Int :=
  match c.pc with
  | .sendPosting | .receivePosting => 1
  | _ => 0

/-- `BUFFER_MUTEX` as a count of its holders. -/
def ApexBuffer.mutexCount (b : ApexBuffer) : Int := if b.bufferMutex then 1 else 0

theorem Caller.readShare_nonneg (c : Caller) : 0 ≤ c.readShare := by
  unfold Caller.readShare
  split <;> omega

theorem Caller.writeShare_nonneg (c : Caller) : 0 ≤ c.writeShare := by
  unfold Caller.writeShare
  split <;> omega

theorem Caller.locks_nonneg (c : Caller) : 0 ≤ c.locks := by
  unfold Caller.locks
  split <;> omega

/-- The queue is well formed for some split of what was sent. -/
def Queue.Good {size n : Nat} (slots : Allocation size n) (q : Queue) : Prop :=
  ∃ delivered queued, q.Ok slots delivered queued

/-- A step keeps the queue and moves tokens, slots and the mutex between the
    buffer and the caller. -/
structure Keeps {size n : Nat} (slots : Allocation size n) (q : Queue) (c : Caller) (q' : Queue)
    (c' : Caller) : Prop where
  good : q'.Good slots
  read : q'.buffer.bufferReadSemaphore.counter + c'.readShare - q'.buffer.currentMessageSize
    = q.buffer.bufferReadSemaphore.counter + c.readShare - q.buffer.currentMessageSize
  write : q'.buffer.bufferWriteSemaphore.counter + c'.writeShare + q'.buffer.currentMessageSize
    = q.buffer.bufferWriteSemaphore.counter + c.writeShare + q.buffer.currentMessageSize
  mutex : c'.locks - q'.buffer.mutexCount = c.locks - q.buffer.mutexCount

theorem Keeps.refl {size n : Nat} {slots : Allocation size n} {q : Queue} {c c' : Caller}
    (hq : q.Good slots) (hpc : c'.pc = c.pc) : Keeps slots q c q c' :=
  ⟨hq, by simp only [Caller.readShare, hpc], by simp only [Caller.writeShare, hpc],
    by simp only [Caller.locks, hpc]⟩

/-- A wait for a message or for room: one that gives up leaves the buffer alone, one
    that does not takes a permit. `p` puts the semaphore back. -/
theorem messageWait_cases {b b' : ApexBuffer} {s : Semaphore} {p : Semaphore → ApexBuffer}
    {timeout : Int} {expired : Bool} {code : ReturnCode} (hput : p s = b)
    (h : ((s.waitFor timeout expired).map fun (w, code) =>
      (p w, if code = .timedOut ∧ timeout = 0 then .notAvailable else code)) = some (b', code)) :
    (code ≠ .noError ∧ b' = b) ∨
      (code = .noError ∧ s.counter ≠ 0 ∧ b' = p { s with counter := s.counter - 1 }) := by
  obtain ⟨⟨w, code'⟩, hw, heq⟩ := Option.map_eq_some_iff.mp h
  obtain ⟨rfl, rfl⟩ := Prod.mk.inj heq
  rcases Semaphore.waitFor_cases hw with ⟨rfl, rfl⟩ | ⟨rfl, hne, rfl⟩
  · refine Or.inl ⟨?_, hput⟩
    split <;> simp
  · exact Or.inr ⟨by simp, hne, rfl⟩

theorem sendWait_cases {b b' : ApexBuffer} {timeout : Int} {expired : Bool} {code : ReturnCode}
    (h : b.sendWait timeout expired = some (b', code)) :
    (code ≠ .noError ∧ b' = b) ∨
      (code = .noError ∧ b.bufferWriteSemaphore.counter ≠ 0 ∧ b' = { b with
        bufferWriteSemaphore := { b.bufferWriteSemaphore with
          counter := b.bufferWriteSemaphore.counter - 1 } }) :=
  messageWait_cases (p := fun w => { b with bufferWriteSemaphore := w }) rfl h

theorem receiveWait_cases {b b' : ApexBuffer} {timeout : Int} {expired : Bool}
    {code : ReturnCode} (h : b.receiveWait timeout expired = some (b', code)) :
    (code ≠ .noError ∧ b' = b) ∨
      (code = .noError ∧ b.bufferReadSemaphore.counter ≠ 0 ∧ b' = { b with
        bufferReadSemaphore := { b.bufferReadSemaphore with
          counter := b.bufferReadSemaphore.counter - 1 } }) :=
  messageWait_cases (p := fun r => { b with bufferReadSemaphore := r }) rfl h

section Steps

variable {vectorSize size n : Nat} {slots : Allocation size n} {q q' : Queue} {c c' : Caller}

theorem keeps_sendBuffer {id : Nat} {m : List UInt8} {timeout : Int} {expired : Bool}
    (hq : q.Good slots)
    (h : callerStep vectorSize q c (.sendBuffer id m timeout expired) = some (q', c')) :
    Keeps slots q c q' c' := by
  simp only [callerStep] at h
  split at h
  · rename_i hpc
    split at h
    · obtain ⟨rfl, rfl⟩ := Prod.mk.inj (Option.some.inj h)
      exact .refl hq rfl
    · split at h
      · obtain ⟨⟨b, code⟩, hb, heq⟩ := Option.map_eq_some_iff.mp h
        obtain ⟨rfl, rfl⟩ := Prod.mk.inj heq
        rcases sendWait_cases hb with ⟨hcode, rfl⟩ | ⟨rfl, hne, rfl⟩
        · exact .refl hq (by simp only [if_neg hcode, hpc])
        · obtain ⟨delivered, queued, hok⟩ := hq
          have hpos := hok.write_nonneg
          refine ⟨⟨delivered, queued, { hok with write_nonneg := ?_ }⟩, ?_, ?_, ?_⟩
          · simp only
            omega
          · simp [Caller.readShare, hpc]
          · simp [Caller.writeShare, hpc]
          · simp [Caller.locks, hpc, ApexBuffer.mutexCount]
      · simp at h
  · simp at h

theorem keeps_receiveBuffer {id : Nat} {timeout : Int} {expired : Bool}
    (hq : q.Good slots)
    (h : callerStep vectorSize q c (.receiveBuffer id timeout expired) = some (q', c')) :
    Keeps slots q c q' c' := by
  simp only [callerStep] at h
  split at h
  · rename_i hpc
    split at h
    · obtain ⟨rfl, rfl⟩ := Prod.mk.inj (Option.some.inj h)
      exact .refl hq rfl
    · split at h
      · obtain ⟨⟨b, code⟩, hb, heq⟩ := Option.map_eq_some_iff.mp h
        obtain ⟨rfl, rfl⟩ := Prod.mk.inj heq
        rcases receiveWait_cases hb with ⟨hcode, rfl⟩ | ⟨rfl, hne, rfl⟩
        · exact .refl hq (by simp only [if_neg hcode, hpc])
        · obtain ⟨delivered, queued, hok⟩ := hq
          have hpos := hok.read_nonneg
          refine ⟨⟨delivered, queued, { hok with read_nonneg := ?_ }⟩, ?_, ?_, ?_⟩
          · simp only
            omega
          · simp [Caller.readShare, hpc]
          · simp [Caller.writeShare, hpc]
          · simp [Caller.locks, hpc, ApexBuffer.mutexCount]
      · simp at h
  · simp at h

/-- A sender past its wait has a slot: its token stands for one the queue lacks. -/
theorem keeps_sendCritical (hq : q.Good slots) (hfits : c.pc.Fits q.buffer.bufferMaxMessageSize)
    (hroom : q.buffer.bufferWriteSemaphore.counter + c.writeShare
      + q.buffer.currentMessageSize ≤ n)
    (h : callerStep vectorSize q c .sendCritical = some (q', c')) : Keeps slots q c q' c' := by
  simp only [callerStep] at h
  split at h
  · rename_i m hpc hmutex
    obtain ⟨rfl, rfl⟩ := Prod.mk.inj (Option.some.inj h)
    obtain ⟨delivered, queued, hok⟩ := hq
    have hpos := hok.write_nonneg
    have hlt : queued.length < n := by
      simp only [Caller.writeShare, hpc, hok.current] at hroom
      omega
    have hm : m.length ≤ size := by
      rw [hpc, hok.size_eq] at hfits
      exact hfits
    refine ⟨⟨delivered, queued ++ [m], hok.send hlt hm⟩, ?_, ?_, ?_⟩
    · simp only [Caller.readShare, hpc, ApexBuffer.sendCritical]
      omega
    · simp only [Caller.writeShare, hpc, ApexBuffer.sendCritical]
      omega
    · simp [Caller.locks, hpc, ApexBuffer.sendCritical, ApexBuffer.mutexCount, hmutex]
  · simp at h

/-- A receiver past its wait has a message: its token stands for a queued one. -/
theorem keeps_receiveCritical (hq : q.Good slots)
    (hsome : q.buffer.bufferReadSemaphore.counter + c.readShare
      ≤ q.buffer.currentMessageSize)
    (hroom : q.buffer.bufferWriteSemaphore.counter + q.buffer.currentMessageSize ≤ n)
    (h : callerStep vectorSize q c .receiveCritical = some (q', c')) :
    Keeps slots q c q' c' := by
  simp only [callerStep] at h
  split at h
  · rename_i hpc hmutex
    obtain ⟨rfl, rfl⟩ := Prod.mk.inj (Option.some.inj h)
    obtain ⟨delivered, queued, hok⟩ := hq
    have hread := hok.read_nonneg
    have hwrite := hok.write_nonneg
    have hcurrent := hok.current
    simp only [Caller.readShare, hpc] at hsome
    cases queued with
    | nil =>
      rw [List.length_nil] at hcurrent
      omega
    | cons m rest =>
      rw [List.length_cons] at hcurrent
      refine ⟨⟨delivered ++ [m], rest, hok.receive (by omega)⟩, ?_, ?_, ?_⟩
      · simp only [Caller.readShare, hpc, ApexBuffer.receiveCritical]
        omega
      · simp only [Caller.writeShare, hpc, ApexBuffer.receiveCritical]
        omega
      · simp [Caller.locks, hpc, ApexBuffer.receiveCritical, ApexBuffer.mutexCount, hmutex]
  · simp at h

theorem sendPost_noError (hq : q.Good slots) (hpc : c.pc = .sendPosting)
    (hsome : q.buffer.bufferReadSemaphore.counter + c.readShare
      ≤ q.buffer.currentMessageSize)
    (hroom : q.buffer.bufferWriteSemaphore.counter + q.buffer.currentMessageSize ≤ n) :
    q.buffer.bufferReadSemaphore.counter < q.buffer.bufferReadSemaphore.maximumvalue := by
  obtain ⟨delivered, queued, hok⟩ := hq
  have hwrite := hok.write_nonneg
  simp only [Caller.readShare, hpc] at hsome
  rw [hok.readMax]
  omega

theorem receivePost_noError (hq : q.Good slots) (hpc : c.pc = .receivePosting)
    (hroom : q.buffer.bufferWriteSemaphore.counter + c.writeShare
      + q.buffer.currentMessageSize ≤ n) :
    q.buffer.bufferWriteSemaphore.counter < q.buffer.bufferWriteSemaphore.maximumvalue := by
  obtain ⟨delivered, queued, hok⟩ := hq
  have hcurrent := hok.current
  simp only [Caller.writeShare, hpc] at hroom
  rw [hok.writeMax]
  omega

theorem keeps_sendPost (hq : q.Good slots)
    (hsome : q.buffer.bufferReadSemaphore.counter + c.readShare
      ≤ q.buffer.currentMessageSize)
    (hroom : q.buffer.bufferWriteSemaphore.counter + q.buffer.currentMessageSize ≤ n)
    (hmutex : c.locks ≤ q.buffer.mutexCount)
    (h : callerStep vectorSize q c .sendPost = some (q', c')) : Keeps slots q c q' c' := by
  simp only [callerStep] at h
  split at h
  · rename_i hpc
    obtain ⟨rfl, rfl⟩ := Prod.mk.inj (Option.some.inj h)
    have hlt := sendPost_noError hq hpc hsome hroom
    obtain ⟨delivered, queued, hok⟩ := hq
    have hread := hok.read_nonneg
    have hlocked : q.buffer.bufferMutex = true := by
      by_contra hne
      simp [Caller.locks, hpc, ApexBuffer.mutexCount, hne] at hmutex
    simp only [ApexBuffer.sendPost, Semaphore.post_of_lt hlt]
    refine ⟨⟨delivered, queued, { hok with read_nonneg := ?_ }⟩, ?_, ?_, ?_⟩
    · simp only
      omega
    · simp only [Caller.readShare, hpc]
      omega
    · simp only [Caller.writeShare, hpc]
    · simp [Caller.locks, hpc, ApexBuffer.mutexCount, hlocked]
  · simp at h

theorem keeps_receivePost (hq : q.Good slots)
    (hroom : q.buffer.bufferWriteSemaphore.counter + c.writeShare
      + q.buffer.currentMessageSize ≤ n)
    (hmutex : c.locks ≤ q.buffer.mutexCount)
    (h : callerStep vectorSize q c .receivePost = some (q', c')) : Keeps slots q c q' c' := by
  simp only [callerStep] at h
  split at h
  · rename_i hpc
    obtain ⟨rfl, rfl⟩ := Prod.mk.inj (Option.some.inj h)
    have hlt := receivePost_noError hq hpc hroom
    obtain ⟨delivered, queued, hok⟩ := hq
    have hwrite := hok.write_nonneg
    have hlocked : q.buffer.bufferMutex = true := by
      by_contra hne
      simp [Caller.locks, hpc, ApexBuffer.mutexCount, hne] at hmutex
    simp only [ApexBuffer.receivePost, Semaphore.post_of_lt hlt]
    refine ⟨⟨delivered, queued, { hok with write_nonneg := ?_ }⟩, ?_, ?_, ?_⟩
    · simp only
      omega
    · simp only [Caller.readShare, hpc]
    · simp only [Caller.writeShare, hpc]
      omega
    · simp [Caller.locks, hpc, ApexBuffer.mutexCount, hlocked]
  · simp at h

theorem callerStep_keeps (hq : q.Good slots)
    (hsome : q.buffer.bufferReadSemaphore.counter + c.readShare
      ≤ q.buffer.currentMessageSize)
    (hroom : q.buffer.bufferWriteSemaphore.counter + c.writeShare
      + q.buffer.currentMessageSize ≤ n)
    (hmutex : c.locks ≤ q.buffer.mutexCount) {op : Op}
    (hfits : op = .sendCritical → c.pc.Fits q.buffer.bufferMaxMessageSize)
    (h : callerStep vectorSize q c op = some (q', c')) : Keeps slots q c q' c' := by
  have hwrite := c.writeShare_nonneg
  cases op with
  | sendBuffer id m timeout expired => exact keeps_sendBuffer hq h
  | sendCritical => exact keeps_sendCritical hq (hfits rfl) hroom h
  | sendPost => exact keeps_sendPost hq hsome (by omega) hmutex h
  | receiveBuffer id timeout expired => exact keeps_receiveBuffer hq h
  | receiveCritical => exact keeps_receiveCritical hq hsome (by omega) h
  | receivePost => exact keeps_receivePost hq hroom hmutex h

/-- A call that comes back with anything but `NO_ERROR` left the queue alone. -/
theorem callerStep_gaveUp {op : Op} (h : callerStep vectorSize q c op = some (q', c'))
    (hidle : c'.pc = .idle) (hcode : c'.returnCode ≠ .noError) : q' = q := by
  -- Only a wait comes back with another code, and then it has taken no token.
  cases op with
  | sendBuffer id m timeout expired =>
    simp only [callerStep] at h
    split at h
    · split at h
      · exact (Prod.mk.inj (Option.some.inj h)).1.symm
      · split at h
        · obtain ⟨⟨b, code⟩, hb, heq⟩ := Option.map_eq_some_iff.mp h
          obtain ⟨rfl, rfl⟩ := Prod.mk.inj heq
          rcases sendWait_cases hb with ⟨_, rfl⟩ | ⟨rfl, _⟩
          · rfl
          · exact absurd rfl hcode
        · simp at h
    · simp at h
  | receiveBuffer id timeout expired =>
    simp only [callerStep] at h
    split at h
    · split at h
      · exact (Prod.mk.inj (Option.some.inj h)).1.symm
      · split at h
        · obtain ⟨⟨b, code⟩, hb, heq⟩ := Option.map_eq_some_iff.mp h
          obtain ⟨rfl, rfl⟩ := Prod.mk.inj heq
          rcases receiveWait_cases hb with ⟨_, rfl⟩ | ⟨rfl, _⟩
          · rfl
          · exact absurd rfl hcode
        · simp at h
    · simp at h
  | sendCritical =>
    simp only [callerStep] at h
    split at h
    · obtain ⟨rfl, rfl⟩ := Prod.mk.inj (Option.some.inj h)
      simp at hidle
    · simp at h
  | receiveCritical =>
    simp only [callerStep] at h
    split at h
    · obtain ⟨rfl, rfl⟩ := Prod.mk.inj (Option.some.inj h)
      simp at hidle
    · simp at h
  | sendPost =>
    simp only [callerStep] at h
    split at h
    · obtain ⟨rfl, rfl⟩ := Prod.mk.inj (Option.some.inj h)
      exact absurd rfl hcode
    · simp at h
  | receivePost =>
    simp only [callerStep] at h
    split at h
    · obtain ⟨rfl, rfl⟩ := Prod.mk.inj (Option.some.inj h)
      exact absurd rfl hcode
    · simp at h

end Steps

/-! ## All callers together -/

/-- Whether the caller is between its wait and its post. -/
def Caller.inFlight (c : Caller) : Int := if c.pc = .idle then 0 else 1

theorem Caller.inFlight_eq (c : Caller) : c.inFlight = c.readShare + c.writeShare := by
  unfold Caller.inFlight Caller.readShare Caller.writeShare
  cases c.pc <;> simp

/-- What holds between any two steps. -/
structure Inv [Fintype ι] {size n : Nat} (slots : Allocation size n) (s : State ι) : Prop where
  good : s.queue.Good slots
  read : s.queue.buffer.bufferReadSemaphore.counter + census Caller.readShare s.callers
    = s.queue.buffer.currentMessageSize
  write : s.queue.buffer.bufferWriteSemaphore.counter + census Caller.writeShare s.callers
    + s.queue.buffer.currentMessageSize = n
  mutex : census Caller.locks s.callers = s.queue.buffer.mutexCount

section Population

variable [Fintype ι] {vectorSize size n : Nat} {slots : Allocation size n}

theorem start_inv (hn : 1 ≤ n) (id : Nat) : Inv slots (start id slots : State ι) where
  good := ⟨[], [], {
    size_eq := rfl
    nb_eq := rfl
    readMax := rfl
    writeMax := rfl
    read_nonneg := by simp [start, ApexBuffer.create]
    write_nonneg := by simp [start, ApexBuffer.create]
    head_lt := by simp only [start, ApexBuffer.create]; omega
    tail_eq := by simp [start, ApexBuffer.create]
    current := rfl
    sent := rfl
    received := rfl
    places := fun _ => rfl
    fits := List.forall_mem_nil _
    slots := rfl }⟩
  read := by
    rw [census_eq_zero (w := Caller.readShare) fun i => rfl]
    rfl
  write := by
    rw [census_eq_zero (w := Caller.writeShare) fun i => rfl]
    simp [start, ApexBuffer.create]
  mutex := census_eq_zero fun i => rfl

variable [DecidableEq ι]

theorem step_inv (s : State ι) (a : ι × Op) (t : State ι) (hs : Inv slots s)
    (hfits : CopyFits s a) (h : step vectorSize s a = some t) : Inv slots t := by
  obtain ⟨⟨q, c⟩, hc, rfl⟩ := Option.map_eq_some_iff.mp h
  have hread := hs.read
  have hwrite := hs.write
  have hmutex := hs.mutex
  have hr := le_census (w := Caller.readShare) (fun i => (s.callers i).readShare_nonneg) a.1
  have hw := le_census (w := Caller.writeShare) (fun i => (s.callers i).writeShare_nonneg) a.1
  have hl := le_census (w := Caller.locks) (fun i => (s.callers i).locks_nonneg) a.1
  have hk := callerStep_keeps hs.good (by omega) (by omega) (by omega) hfits hc
  have hkr := hk.read
  have hkw := hk.write
  have hkm := hk.mutex
  refine ⟨hk.good, ?_, ?_, ?_⟩
  · simp only [census_update]
    omega
  · simp only [census_update]
    omega
  · simp only [census_update]
    omega

theorem reachable_inv (hn : 1 ≤ n) {id : Nat} {as : List (ι × Op)} {s : State ι}
    (hfits : Meets (step vectorSize) CopyFits (start id slots) as)
    (h : run (step vectorSize) (start id slots) as = some s) : Inv slots s :=
  run_invariant_of_meets step_inv (start_inv hn id) hfits h

omit [DecidableEq ι] in
/-- No inner post of a reachable state is refused. -/
theorem Inv.posts {s : State ι} (hs : Inv slots s) (i : ι) :
    ((s.callers i).pc = .sendPosting →
        s.queue.buffer.bufferReadSemaphore.post.2 = .noError) ∧
      ((s.callers i).pc = .receivePosting →
        s.queue.buffer.bufferWriteSemaphore.post.2 = .noError) := by
  have hread := hs.read
  have hwrite := hs.write
  have hr := le_census (w := Caller.readShare) (fun i => (s.callers i).readShare_nonneg) i
  have hw := le_census (w := Caller.writeShare) (fun i => (s.callers i).writeShare_nonneg) i
  have hpos := (s.callers i).writeShare_nonneg
  refine ⟨fun hpc => ?_, fun hpc => ?_⟩
  · rw [Semaphore.post_of_lt (sendPost_noError hs.good hpc (by omega) (by omega))]
  · rw [Semaphore.post_of_lt (receivePost_noError hs.good hpc (by omega))]

/-- The messages received are the first messages sent, in order and intact; the
    others are queued in the slots from the head on, and their number is
    `CURRENT_MESSAGE_SIZE`. Both counters and the callers in flight add up to
    the capacity, the inner posts go through, and a call that ended without
    `NO_ERROR` changed nothing. -/
structure InOrder (vectorSize size n : Nat) (s : State ι) : Prop where
  received : List.Forall₂ (Intact size) s.queue.received
    (s.queue.sent.take s.queue.received.length)
  leading : (∀ m ∈ s.queue.sent, m.length ≤ size) →
    s.queue.received.map Received.bytes <+: s.queue.sent
  current : s.queue.buffer.currentMessageSize = s.queue.sent.length - s.queue.received.length
  queued : List.Forall₂ (Intact size)
    (window n s.queue.buffer.slotMessage s.queue.buffer.bufferHead
      (s.queue.sent.length - s.queue.received.length))
    (s.queue.sent.drop s.queue.received.length)
  permits : s.queue.buffer.bufferReadSemaphore.counter + s.queue.buffer.bufferWriteSemaphore.counter
    + census Caller.inFlight s.callers = n
  posts : ∀ i, ((s.callers i).pc = .sendPosting →
      s.queue.buffer.bufferReadSemaphore.post.2 = .noError) ∧
    ((s.callers i).pc = .receivePosting →
      s.queue.buffer.bufferWriteSemaphore.post.2 = .noError)
  gaveUp : ∀ i op t, step vectorSize s (i, op) = some t → (t.callers i).pc = .idle →
    (t.callers i).returnCode ≠ .noError → t.queue = s.queue

/-- In every run whose sends copy messages that fit their slots, the messages are in
    order. -/
theorem messages_in_order (vectorSize id : Nat) {size n : Nat} (slots : Allocation size n)
    (hn : 1 ≤ n) (as : List (ι × Op))
    (hfits : Meets (step vectorSize) CopyFits (start id slots) as) (s : State ι)
    (h : run (step vectorSize) (start id slots) as = some s) : InOrder vectorSize size n s := by
  have hs : Inv slots s := reachable_inv hn hfits h
  obtain ⟨delivered, queued, hok⟩ := hs.good
  have hlen : s.queue.received.length = delivered.length := by rw [hok.received, List.length_map]
  -- What was sent is what was received, followed by what is queued.
  have htake : s.queue.sent.take s.queue.received.length = delivered := by
    rw [hok.sent, hlen, List.take_left]
  have hdrop : s.queue.sent.drop s.queue.received.length = queued := by
    rw [hok.sent, hlen, List.drop_left]
  have hcount : s.queue.sent.length = s.queue.received.length + queued.length := by
    rw [hok.sent, hlen, List.length_append]
  refine ⟨?_, ?_, ?_, ?_, ?_, fun i => hs.posts i, ?_⟩
  · rw [htake, hok.received]
    exact forall₂_intact size delivered
  · intro _
    have hbytes : (delivered.map Received.of).map Received.bytes = delivered := by
      rw [List.map_map]
      exact List.map_id delivered
    rw [hok.received, hbytes, hok.sent]
    exact List.prefix_append delivered queued
  · rw [hok.current]
    omega
  · rw [hdrop, show s.queue.sent.length - s.queue.received.length = queued.length by omega, hok.slots]
    exact forall₂_intact size queued
  · have hread := hs.read
    have hwrite := hs.write
    have hsplit : census Caller.inFlight s.callers
        = census Caller.readShare s.callers + census Caller.writeShare s.callers := by
      rw [← census_add]
      exact congrArg (fun w => census w s.callers) (funext Caller.inFlight_eq)
    omega
  · intro i op t ht hidle hcode
    obtain ⟨⟨q, c⟩, hc, rfl⟩ := Option.map_eq_some_iff.mp ht
    simp only [Function.update_self] at hidle hcode
    exact callerStep_gaveUp hc hidle hcode

end Population

theorem slotsOf8_apart : ∀ i < 2, ∀ j < 2, i ≠ j →
    32 * i + 8 ≤ 32 * j ∨ 32 * j + 8 ≤ 32 * i := by
  intro i _ j _ hij
  omega

/-- Two slots of 8 bytes, 32 bytes from one beginning to the other. -/
def slotsOf8 : Allocation 8 2 := ⟨fun i => ⟨32 * i, 0⟩, fun _ => 0, slotsOf8_apart⟩

/-- Two callers: two sends, a refused one, a receive and a third send that reuses the
    slot. -/
def reuse (message : List UInt8) : List (Fin 2 × Op) :=
  [(0, .sendBuffer 0 [7] 10 false), (0, .sendCritical), (0, .sendPost),
    (0, .sendBuffer 0 [8, 8] 10 false), (0, .sendCritical), (0, .sendPost),
    (1, .sendBuffer 0 [9] 0 true), (1, .receiveBuffer 0 10 false), (1, .receiveCritical),
    (1, .receivePost), (0, .sendBuffer 0 message 10 false), (0, .sendCritical), (0, .sendPost),
    (1, .receiveBuffer 0 10 false), (1, .receiveCritical)]

theorem messages_in_order_reuse :
    ∃ s, run (step 1) (start 0 slotsOf8) (reuse [5]) = some s ∧
      s.queue.received = [⟨1, [7]⟩, ⟨2, [8, 8]⟩] ∧ s.queue.sent = [[7], [8, 8], [5]] ∧
      InOrder 1 8 2 s :=
  ⟨(run (step 1) (start 0 slotsOf8) (reuse [5])).get (by decide), (Option.some_get _).symm,
    by decide, by decide,
    messages_in_order 1 0 slotsOf8 (by decide) (reuse [5]) (by decide) _ (Option.some_get _).symm⟩

/-- The third message has 33 bytes. The last of them goes to the slot of the second
    message, which is within the maximum size and comes out changed. -/
theorem long_message_overwrites :
    ∃ s, run (step 1) (start 0 slotsOf8) (reuse (List.replicate 33 5)) = some s ∧
      s.queue.sent = [[7], [8, 8], List.replicate 33 5] ∧
      s.queue.received = [⟨1, [7]⟩, ⟨2, [5, 8]⟩] ∧ ¬ InOrder 1 8 2 s := by
  refine ⟨(run (step 1) (start 0 slotsOf8) (reuse (List.replicate 33 5))).get (by decide),
    (Option.some_get _).symm, by decide, by decide, fun h => ?_⟩
  have hreceived := h.received
  revert hreceived
  decide

end Arinc.Buffer
