import ArincEmulator.Lib.Memory
import ArincEmulator.Lib.Ring
import ArincEmulator.Lib.Runs
import ArincEmulator.Semaphore

/- The lengths of the messages in buffers. `SEND_BUFFER` and `SEND_MESSAGE` hand
   the caller's `LENGTH` to a `memcpy` into a slot without a look at
   `BUFFER_MAX_MESSAGE_SIZE`, and `RAISE_APPLICATION_ERROR` does so with the
   message array of an `ERROR_STATUS_TYPE`, before it sends that record to the
   buffer of a health manager. The calls follow one another here; what a
   `memcpy` writes past its storage is not modelled, only that it does.

   What is proved: in every run, every copy and every occupied slot stays within
   its bounds just when the calls that find room bring lengths that fit
   (`lengths_in_bounds_iff`). -/
namespace Arinc.BufferBounds
open Runs Memory Arinc.Ring

/-- `MAX_ERROR_MESSAGE_SIZE`. -/
def maxErrorMessageSize : Int := 64

/-- `sizeof(ERROR_STATUS_TYPE)`, whose message array comes last. -/
def sizeofErrorStatus : Int := 96

/-- `PAYLOAD_TYPE`. -/
structure Payload where
  actualLoad : Nat → UInt8
  length : Int

/-- The arguments of `CREATE_BUFFER` it lets through. -/
structure BufferSize where
  maxMessageSize : Int
  maxNbMessage : Nat
  size_pos : 0 < maxMessageSize
  nb_pos : 0 < maxNbMessage
  nb_le : maxNbMessage ≤ 512

/-- `APEX_BUFFER_TYPE`. -/
structure Buffer where
  maxMessageSize : Int
  maxNbMessage : Nat
  currentMessageSize : Nat
  bufferHead : Nat
  bufferTail : Nat
  payload : Nat → Payload
  readSemaphore : Semaphore
  writeSemaphore : Semaphore

namespace Buffer

/-- The constructor; `memory` is what the allocated slots hold. -/
def create (size : BufferSize) (memory : Nat → Payload) : Buffer :=
  ⟨size.maxMessageSize, size.maxNbMessage, 0, 0, 0, memory,
    ⟨0, size.maxNbMessage⟩, ⟨size.maxNbMessage, size.maxNbMessage⟩⟩

/-- `SEND_MESSAGE`. A timed wait ends with its time-out when no slot is free, as no
    other call runs meanwhile, and an infinite one does not end. -/
def sendMessage (b : Buffer) (src : Nat → UInt8) (length timeout : Int) :
    Option (Buffer × ReturnCode) :=
  (b.writeSemaphore.waitFor timeout (b.writeSemaphore.counter = 0)).map fun (w, code) =>
    if code = .timedOut then (b, if timeout = 0 then .notAvailable else .timedOut)
    else
      ({ b with
        payload := Function.update b.payload b.bufferTail
          ⟨copy (b.payload b.bufferTail).actualLoad 0 src length.toNat, length⟩
        currentMessageSize := b.currentMessageSize + 1
        bufferTail := next b.maxNbMessage b.bufferTail
        readSemaphore := b.readSemaphore.post.1
        writeSemaphore := w }, .noError)

/-- `RECEIVE_MESSAGE`, without the copy it hands out. -/
def receiveMessage (b : Buffer) (timeout : Int) : Option (Buffer × ReturnCode) :=
  (b.readSemaphore.waitFor timeout (b.readSemaphore.counter = 0)).map fun (r, code) =>
    if code = .timedOut then (b, if timeout = 0 then .notAvailable else .timedOut)
    else
      ({ b with
        payload := Function.update b.payload b.bufferHead
          ⟨copy (b.payload b.bufferHead).actualLoad 0 (fun _ => 48) b.maxMessageSize.toNat, 0⟩
        currentMessageSize := b.currentMessageSize - 1
        bufferHead := next b.maxNbMessage b.bufferHead
        readSemaphore := r
        writeSemaphore := b.writeSemaphore.post.1 }, .noError)

/-- The lengths in the occupied slots. -/
def lengths (b : Buffer) : List Int :=
  window b.maxNbMessage (Payload.length ∘ b.payload) b.bufferHead b.currentMessageSize

end Buffer

/-! ## The services -/

/-- A `memcpy` of a message: the storage it goes to and the length it is told. -/
structure Copy where
  capacity : Int
  length : Int
  deriving DecidableEq, Repr

/-- The copy stays inside its storage. -/
def Copy.Fits (c : Copy) : Prop := 0 ≤ c.length ∧ c.length ≤ c.capacity

instance (c : Copy) : Decidable c.Fits := inferInstanceAs (Decidable (_ ∧ _))

/-- A partition before its first call: its buffers, and the buffer of the health
    manager of each process that has one, made by `CREATE_HEALTH_MANAGER_PROCESS`
    for records of the error status. -/
structure Config where
  sizes : List BufferSize
  hmBuffer : Nat → Option Nat
  hm_size : ∀ p id, hmBuffer p = some id →
    (sizes[id]?.map BufferSize.maxMessageSize) = some sizeofErrorStatus

/-- The buffers, the copies made so far and the code of the last call. -/
structure State where
  buffers : List Buffer
  copies : List Copy
  returned : ReturnCode

/-- No call yet. -/
def start (c : Config) (memory : Nat → Payload) : State :=
  ⟨c.sizes.map fun size => .create size memory, [], .noError⟩

/-- The calls. Of the error status, `record` is all but the message. -/
inductive Call where
  | sendBuffer (id : Nat) (src : Nat → UInt8) (length timeout : Int)
  | receiveBuffer (id : Nat) (timeout : Int)
  | raiseApplicationError (process : Nat) (record src : Nat → UInt8) (length : Int)

/-- `SEND_BUFFER`. The id is compared as a word of 32 bits; one that gets past that and is
    none of the vector has no step. -/
def sendBuffer (s : State) (id : Nat) (src : Nat → UInt8) (length timeout : Int) : Option State :=
  if s.buffers.length ≤ id % 2 ^ 32 then some { s with returned := .invalidParam }
  else if maxTimeOut < timeout then some { s with returned := .invalidParam }
  else
    s.buffers[id]?.bind fun b => (b.sendMessage src length timeout).map fun (b', code) =>
      { buffers := s.buffers.set id b'
        copies := if code = .noError then ⟨b.maxMessageSize, length⟩ :: s.copies else s.copies
        returned := code }

/-- `RECEIVE_BUFFER`. -/
def receiveBuffer (s : State) (id : Nat) (timeout : Int) : Option State :=
  if s.buffers.length ≤ id % 2 ^ 32 then some { s with returned := .invalidParam }
  else if maxTimeOut < timeout then some { s with returned := .invalidParam }
  else
    s.buffers[id]?.bind fun b => (b.receiveMessage timeout).map fun (b', code) =>
      { s with buffers := s.buffers.set id b', returned := code }

/-- `RAISE_APPLICATION_ERROR`. -/
def raiseApplicationError (c : Config) (s : State) (process : Nat) (record src : Nat → UInt8)
    (length : Int) : Option State :=
  match c.hmBuffer process with
  | none => some { s with returned := .notAvailable }
  | some id =>
    let errorStatus := copy record (sizeofErrorStatus - maxErrorMessageSize).toNat src length.toNat
    sendBuffer { s with copies := ⟨maxErrorMessageSize, length⟩ :: s.copies } id errorStatus
      sizeofErrorStatus infiniteTimeValue

/-- One call of a sequence. -/
def step (c : Config) (s : State) : Call → Option State
  | .sendBuffer id src length timeout => sendBuffer s id src length timeout
  | .receiveBuffer id timeout => receiveBuffer s id timeout
  | .raiseApplicationError process record src length =>
    raiseApplicationError c s process record src length

/-! ## Copies within their storage -/

/-- Every copy and every occupied slot is within its bounds. -/
structure InBounds (s : State) : Prop where
  copies : ∀ m ∈ s.copies, m.Fits
  slots : ∀ b ∈ s.buffers, ∀ l ∈ b.lengths, Copy.Fits ⟨b.maxMessageSize, l⟩

/-- A send with a length that does not fit is turned down without effect. -/
def TurnsDown (c : Config) (s : State) : Call → Prop
  | .sendBuffer id src length timeout =>
    ∀ b, s.buffers[id]? = some b → ¬ Copy.Fits ⟨b.maxMessageSize, length⟩ →
      ∀ t, step c s (.sendBuffer id src length timeout) = some t →
        t.returned ≠ .noError ∧ t.buffers = s.buffers ∧ t.copies = s.copies
  | _ => True

/-- A send that finds a free slot brings a length that fits the slot, and an
    error raised to a health manager one that fits the error status. -/
def LengthFits (c : Config) (s : State) : Call → Prop
  | .sendBuffer id _ length timeout =>
    ∀ b ∈ s.buffers[id]?, timeout ≤ maxTimeOut → b.writeSemaphore.counter ≠ 0 →
      Copy.Fits ⟨b.maxMessageSize, length⟩
  | .receiveBuffer _ _ => True
  | .raiseApplicationError process _ _ length =>
    c.hmBuffer process ≠ none → Copy.Fits ⟨maxErrorMessageSize, length⟩

/-! ## One buffer -/

/-- The counters of a buffer agree: slots used and tokens to read, slots free and
    tokens to write, and the tail behind the last slot used. -/
structure Buffer.Ok (b : Buffer) : Prop where
  head_lt : b.bufferHead < b.maxNbMessage
  count_le : b.currentMessageSize ≤ b.maxNbMessage
  tail_eq : b.bufferTail = (b.bufferHead + b.currentMessageSize) % b.maxNbMessage
  read : b.readSemaphore = ⟨b.currentMessageSize, b.maxNbMessage⟩
  write : b.writeSemaphore = ⟨b.maxNbMessage - b.currentMessageSize, b.maxNbMessage⟩

theorem create_ok (size : BufferSize) (memory : Nat → Payload) :
    (Buffer.create size memory).Ok := by
  refine ⟨size.nb_pos, Nat.zero_le _, (Nat.zero_mod _).symm, rfl, ?_⟩
  show (⟨size.maxNbMessage, size.maxNbMessage⟩ : Semaphore) =
    ⟨size.maxNbMessage - ((0 : Nat) : Int), size.maxNbMessage⟩
  rw [Semaphore.mk.injEq]
  exact ⟨by omega, rfl⟩

theorem waitFor_empty_cases {s t : Semaphore} {timeout : Int} {code : ReturnCode}
    (h : s.waitFor timeout (s.counter = 0) = some (t, code)) :
    (code = .timedOut ∧ s.counter = 0) ∨
      (code = .noError ∧ s.counter ≠ 0 ∧ t = { s with counter := s.counter - 1 }) := by
  obtain ⟨rfl, -⟩ | hok := Semaphore.waitFor_cases h
  · left
    refine ⟨rfl, ?_⟩
    by_contra hne
    simp only [Semaphore.waitFor, Semaphore.waitUntil, Semaphore.wait, hne, decide_false] at h
    split at h
    · simp at h
    · split at h <;> simp at h
  · exact Or.inr hok

theorem post_counter {tokens maximum : Int} (h : tokens < maximum) :
    (Semaphore.post ⟨tokens, maximum⟩).1 = ⟨tokens + 1, maximum⟩ :=
  congrArg Prod.fst (Semaphore.post_of_lt (s := ⟨tokens, maximum⟩) h)

theorem sendMessage_cases {b b' : Buffer} {src : Nat → UInt8} {length timeout : Int}
    {code : ReturnCode} (hb : b.Ok) (h : b.sendMessage src length timeout = some (b', code)) :
    (code ≠ .noError ∧ b' = b ∧ b.writeSemaphore.counter = 0) ∨
      (code = .noError ∧ b.writeSemaphore.counter ≠ 0 ∧ b'.Ok ∧
        b'.maxMessageSize = b.maxMessageSize ∧ b'.lengths = b.lengths ++ [length]) := by
  obtain ⟨⟨w, c⟩, hw, heq⟩ := Option.map_eq_some_iff.mp h
  obtain ⟨rfl, hzero⟩ | ⟨rfl, hne, rfl⟩ := waitFor_empty_cases hw
  · left
    simp only [if_true, Prod.mk.injEq] at heq
    obtain ⟨rfl, rfl⟩ := heq
    refine ⟨?_, rfl, hzero⟩
    split <;> simp
  · right
    simp only [reduceCtorEq, if_false, Prod.mk.injEq] at heq
    obtain ⟨rfl, rfl⟩ := heq
    have hle := hb.count_le
    -- a write permit is a free slot
    have hroom : b.currentMessageSize < b.maxNbMessage := by
      rw [hb.write] at hne
      simp only at hne
      omega
    refine ⟨rfl, hne, ⟨hb.head_lt, hroom, ?_, ?_, ?_⟩, rfl, ?_⟩
    · show next b.maxNbMessage b.bufferTail =
        (b.bufferHead + (b.currentMessageSize + 1)) % b.maxNbMessage
      have hlt : b.bufferTail < b.maxNbMessage := hb.tail_eq ▸ Nat.mod_lt _ (by omega)
      rw [next_eq_mod hlt, hb.tail_eq, Nat.mod_add_mod, Nat.add_assoc]
    · show b.readSemaphore.post.1 = ⟨((b.currentMessageSize + 1 : Nat) : Int), b.maxNbMessage⟩
      rw [hb.read, post_counter (by omega)]
      push_cast
      rfl
    · show ({ b.writeSemaphore with counter := b.writeSemaphore.counter - 1 } : Semaphore) =
        ⟨b.maxNbMessage - ((b.currentMessageSize + 1 : Nat) : Int), b.maxNbMessage⟩
      rw [hb.write, Semaphore.mk.injEq]
      exact ⟨by push_cast; omega, rfl⟩
    · show window b.maxNbMessage (Payload.length ∘ Function.update b.payload b.bufferTail _)
        b.bufferHead (b.currentMessageSize + 1) = _
      rw [Function.comp_update, hb.tail_eq, window_push hroom]
      rfl

theorem receiveMessage_cases {b b' : Buffer} {timeout : Int} {code : ReturnCode} (hb : b.Ok)
    (h : b.receiveMessage timeout = some (b', code)) :
    b' = b ∨ (b'.Ok ∧ b'.maxMessageSize = b.maxMessageSize ∧ ∃ l, b.lengths = l :: b'.lengths) := by
  obtain ⟨⟨r, c⟩, hr, heq⟩ := Option.map_eq_some_iff.mp h
  obtain ⟨rfl, -⟩ | ⟨rfl, hne, rfl⟩ := waitFor_empty_cases hr
  · left
    simp only [if_true, Prod.mk.injEq] at heq
    exact heq.1.symm
  · right
    simp only [reduceCtorEq, if_false, Prod.mk.injEq] at heq
    obtain ⟨rfl, -⟩ := heq
    have hle := hb.count_le
    have hhead := hb.head_lt
    -- a read permit is a message
    obtain ⟨k, hk⟩ : ∃ k, b.currentMessageSize = k + 1 := by
      rw [hb.read] at hne
      simp only at hne
      exact Nat.exists_eq_succ_of_ne_zero (by omega)
    refine ⟨⟨next_lt hhead, ?_, ?_, ?_, ?_⟩, rfl, (b.payload b.bufferHead).length, ?_⟩
    · show b.currentMessageSize - 1 ≤ b.maxNbMessage
      omega
    · show b.bufferTail =
        (next b.maxNbMessage b.bufferHead + (b.currentMessageSize - 1)) % b.maxNbMessage
      rw [hb.tail_eq, next_eq_mod hhead, hk, Nat.mod_add_mod, Nat.add_sub_cancel, Nat.add_assoc,
        Nat.add_comm 1 k]
    · show ({ b.readSemaphore with counter := b.readSemaphore.counter - 1 } : Semaphore) =
        ⟨((b.currentMessageSize - 1 : Nat) : Int), b.maxNbMessage⟩
      rw [hb.read, Semaphore.mk.injEq]
      exact ⟨show (b.currentMessageSize : Int) - 1 = _ by omega, rfl⟩
    · show b.writeSemaphore.post.1 =
        ⟨b.maxNbMessage - ((b.currentMessageSize - 1 : Nat) : Int), b.maxNbMessage⟩
      rw [hb.write, post_counter (by omega), Semaphore.mk.injEq]
      exact ⟨by omega, rfl⟩
    · show b.lengths = _ :: window b.maxNbMessage
        (Payload.length ∘ Function.update b.payload b.bufferHead _)
        (next b.maxNbMessage b.bufferHead) (b.currentMessageSize - 1)
      rw [Function.comp_update, hk, Nat.add_sub_cancel, window_update_head hhead (by omega),
        Buffer.lengths, hk, window_pop hhead]
      rfl

/-- A send that succeeds fills the slot behind the last one used. -/
theorem sendMessage_window {b b' : Buffer} {src : Nat → UInt8} {length timeout : Int} (hb : b.Ok)
    (h : b.sendMessage src length timeout = some (b', .noError)) :
    ∃ load, window b'.maxNbMessage b'.payload b'.bufferHead b'.currentMessageSize =
      window b.maxNbMessage b.payload b.bufferHead b.currentMessageSize ++
        [⟨copy load 0 src length.toNat, length⟩] := by
  obtain ⟨⟨w, c⟩, hw, heq⟩ := Option.map_eq_some_iff.mp h
  obtain ⟨rfl, -⟩ | ⟨rfl, hne, rfl⟩ := waitFor_empty_cases hw
  · simp only [if_true, Prod.mk.injEq] at heq
    split at heq
    · cases heq.2
    · cases heq.2
  · simp only [reduceCtorEq, if_false, Prod.mk.injEq] at heq
    obtain ⟨rfl, -⟩ := heq
    have hle := hb.count_le
    have hroom : b.currentMessageSize < b.maxNbMessage := by
      rw [hb.write] at hne
      simp only at hne
      omega
    refine ⟨(b.payload b.bufferTail).actualLoad, ?_⟩
    show window b.maxNbMessage (Function.update b.payload b.bufferTail _) b.bufferHead
      (b.currentMessageSize + 1) = _
    rw [hb.tail_eq, window_push hroom]

/-- A receive that finds a message takes the one at the head. -/
theorem receiveMessage_window {b : Buffer} {timeout : Int} {slot : Payload} {rest : List Payload}
    (hb : b.Ok) (htimeout : timeout ≤ maxTimeOut)
    (h : window b.maxNbMessage b.payload b.bufferHead b.currentMessageSize = slot :: rest) :
    b.payload b.bufferHead = slot ∧ ∃ b', b.receiveMessage timeout = some (b', .noError) := by
  have hhead := hb.head_lt
  cases hcount : b.currentMessageSize with
  | zero =>
    rw [hcount] at h
    cases h
  | succ k =>
    rw [hcount, window_pop hhead] at h
    refine ⟨(List.cons.inj h).1, ?_⟩
    have hcounter : b.readSemaphore.counter ≠ 0 := by
      rw [hb.read, hcount]
      simp only
      omega
    have hwait : b.readSemaphore.waitFor timeout (b.readSemaphore.counter = 0) =
        some ({ b.readSemaphore with counter := b.readSemaphore.counter - 1 }, .noError) := by
      rw [Semaphore.waitFor, if_neg (Int.not_lt.mpr htimeout), decide_eq_false hcounter, ite_self,
        Semaphore.waitUntil, if_neg Bool.false_ne_true, Semaphore.wait, if_neg hcounter,
        Option.map_some]
    rw [Buffer.receiveMessage, hwait]
    exact ⟨_, rfl⟩

/-! ## The partition -/

/-- The buffers have the sizes they were created with, and their counters agree. -/
structure Kept (c : Config) (s : State) : Prop where
  sizes : ∀ id : Nat, s.buffers[id]?.map Buffer.maxMessageSize =
    c.sizes[id]?.map BufferSize.maxMessageSize
  ok : ∀ b ∈ s.buffers, b.Ok

theorem start_kept (c : Config) (memory : Nat → Payload) : Kept c (start c memory) where
  sizes id := by
    show ((c.sizes.map fun size => Buffer.create size memory)[id]?).map _ = _
    rw [List.getElem?_map, Option.map_map]
    rfl
  ok := by
    intro b hb
    obtain ⟨size, -, rfl⟩ := List.mem_map.mp hb
    exact create_ok size memory

theorem Kept.set {c : Config} {s : State} {id : Nat} {b b' : Buffer} (hs : Kept c s)
    (hb : s.buffers[id]? = some b) (hmax : b'.maxMessageSize = b.maxMessageSize) (hok : b'.Ok)
    (copies : List Copy) (returned : ReturnCode) :
    Kept c ⟨s.buffers.set id b', copies, returned⟩ where
  sizes i := by
    show ((s.buffers.set id b')[i]?).map _ = _
    rw [← hs.sizes i]
    by_cases hi : id = i
    · subst hi
      rw [List.getElem?_set_self (List.getElem?_eq_some_iff.mp hb).1, hb]
      exact congrArg some hmax
    · rw [List.getElem?_set_ne hi]
  ok x hx := by
    obtain hmem | rfl := List.mem_or_eq_of_mem_set hx
    · exact hs.ok x hmem
    · exact hok

theorem set_same {α : Type*} {l : List α} {id : Nat} {x : α} (h : l[id]? = some x) :
    l.set id x = l := by
  obtain ⟨hid, rfl⟩ := List.getElem?_eq_some_iff.mp h
  exact List.set_getElem_self hid

theorem sendBuffer_cases {c : Config} {s t : State} {id : Nat} {src : Nat → UInt8}
    {length timeout : Int} (hs : Kept c s) (h : sendBuffer s id src length timeout = some t) :
    (t.returned ≠ .noError ∧ t.buffers = s.buffers ∧ t.copies = s.copies ∧
      ∀ b, s.buffers[id]? = some b → ¬ (timeout ≤ maxTimeOut ∧ b.writeSemaphore.counter ≠ 0)) ∨
    ∃ b b', s.buffers[id]? = some b ∧ timeout ≤ maxTimeOut ∧ b.writeSemaphore.counter ≠ 0 ∧
      b'.Ok ∧ b'.maxMessageSize = b.maxMessageSize ∧ b'.lengths = b.lengths ++ [length] ∧
      t = ⟨s.buffers.set id b', ⟨b.maxMessageSize, length⟩ :: s.copies, .noError⟩ := by
  unfold sendBuffer at h
  split at h
  · rename_i hnone
    obtain rfl := Option.some.inj h
    refine Or.inl ⟨by simp, rfl, rfl, ?_⟩
    intro b hb
    obtain ⟨hid, -⟩ := List.getElem?_eq_some_iff.mp hb
    have hle := Nat.mod_le id (2 ^ 32)
    omega
  · split at h
    · rename_i hlong
      obtain rfl := Option.some.inj h
      exact Or.inl ⟨by simp, rfl, rfl, fun _ _ hroom => absurd hroom.1 (Int.not_le.mpr hlong)⟩
    · rename_i hshort
      obtain ⟨b, hb, h⟩ := Option.bind_eq_some_iff.mp h
      obtain ⟨⟨b', code⟩, hb', rfl⟩ := Option.map_eq_some_iff.mp h
      obtain ⟨hcode, hsame, hfull⟩ | ⟨rfl, hne, hok, hmax, hlen⟩ :=
        sendMessage_cases (hs.ok b (List.mem_of_getElem? hb)) hb'
      · -- no slot: the message was not copied
        refine Or.inl ⟨hcode, ?_, if_neg hcode, ?_⟩
        · show s.buffers.set id b' = s.buffers
          rw [hsame, set_same hb]
        · intro x hx hroom
          obtain rfl : b = x := Option.some.inj (hb.symm.trans hx)
          exact hroom.2 hfull
      · exact Or.inr ⟨b, b', hb, Int.not_lt.mp hshort, hne, hok, hmax, hlen, rfl⟩

theorem InBounds.copied {s : State} (hs : InBounds s) {m : Copy} (hm : m.Fits) :
    InBounds { s with copies := m :: s.copies } where
  copies := by
    intro x hx
    obtain rfl | hx := List.mem_cons.mp hx
    · exact hm
    · exact hs.copies x hx
  slots := hs.slots

theorem InBounds.set {s : State} (hs : InBounds s) {id : Nat} {b : Buffer}
    (hb : ∀ l ∈ b.lengths, Copy.Fits ⟨b.maxMessageSize, l⟩) (returned : ReturnCode) :
    InBounds ⟨s.buffers.set id b, s.copies, returned⟩ where
  copies := hs.copies
  slots := by
    intro x hx
    obtain hmem | rfl := List.mem_or_eq_of_mem_set hx
    · exact hs.slots x hmem
    · exact hb

/-- A send keeps the bounds just when it finds no room or brings a length that
    fits. -/
theorem sendBuffer_inBounds_iff {c : Config} {s t : State} {id : Nat} {src : Nat → UInt8}
    {length timeout : Int} (hs : InBounds s) (hkept : Kept c s)
    (h : sendBuffer s id src length timeout = some t) :
    InBounds t ↔ LengthFits c s (.sendBuffer id src length timeout) := by
  obtain ⟨-, hbuf, hcop, hroom⟩ | ⟨b, b', hb, htime, hne, -, hmax, hlen, rfl⟩ :=
    sendBuffer_cases hkept h
  · apply iff_of_true
    · exact ⟨hcop ▸ hs.copies, hbuf ▸ hs.slots⟩
    · intro b hb htime hne
      exact absurd ⟨htime, hne⟩ (hroom b hb)
  · constructor
    · intro ht x hx _ _
      obtain rfl : b = x := Option.some.inj (hb.symm.trans hx)
      exact ht.copies _ List.mem_cons_self
    · intro hfits
      have hfit := hfits b hb htime hne
      refine (hs.set ?_ .noError).copied hfit
      intro l hl
      rw [hmax]
      rw [hlen, List.mem_append, List.mem_singleton] at hl
      obtain hl | rfl := hl
      · exact hs.slots b (List.mem_of_getElem? hb) l hl
      · exact hfit

theorem sendBuffer_kept {c : Config} {s t : State} {id : Nat} {src : Nat → UInt8}
    {length timeout : Int} (hs : Kept c s) (h : sendBuffer s id src length timeout = some t) :
    Kept c t := by
  obtain ⟨-, hbuf, -⟩ | ⟨b, b', hb, -, -, hok, hmax, -, rfl⟩ := sendBuffer_cases hs h
  · exact ⟨hbuf ▸ hs.sizes, hbuf ▸ hs.ok⟩
  · exact hs.set hb hmax hok _ _

/-- The record sent to a health manager always fits its buffer. -/
theorem errorStatus_fits {c : Config} {s : State} (hs : Kept c s) {process id : Nat}
    (hhm : c.hmBuffer process = some id) (src : Nat → UInt8) (timeout : Int) :
    LengthFits c s (.sendBuffer id src sizeofErrorStatus timeout) := by
  intro b hb _ _
  have hsize : some b.maxMessageSize = some sizeofErrorStatus := by
    calc some b.maxMessageSize = s.buffers[id]?.map Buffer.maxMessageSize := by
          rw [show s.buffers[id]? = some b from hb]; rfl
      _ = c.sizes[id]?.map BufferSize.maxMessageSize := hs.sizes id
      _ = some sizeofErrorStatus := c.hm_size process id hhm
  rw [Option.some.inj hsize]
  decide

theorem step_inBounds_iff {c : Config} {s t : State} {call : Call} (hs : InBounds s)
    (hkept : Kept c s) (h : step c s call = some t) :
    (InBounds t ↔ LengthFits c s call) ∧ Kept c t := by
  cases call with
  | sendBuffer id src length timeout =>
    exact ⟨sendBuffer_inBounds_iff hs hkept h, sendBuffer_kept hkept h⟩
  | receiveBuffer id timeout =>
    simp only [step, receiveBuffer] at h
    split at h
    · obtain rfl := Option.some.inj h
      exact ⟨iff_of_true ⟨hs.copies, hs.slots⟩ trivial, ⟨hkept.sizes, hkept.ok⟩⟩
    · split at h
      · obtain rfl := Option.some.inj h
        exact ⟨iff_of_true ⟨hs.copies, hs.slots⟩ trivial, ⟨hkept.sizes, hkept.ok⟩⟩
      · obtain ⟨b, hb, h⟩ := Option.bind_eq_some_iff.mp h
        obtain ⟨⟨b', code⟩, hb', rfl⟩ := Option.map_eq_some_iff.mp h
        have hmem := List.mem_of_getElem? hb
        obtain rfl | ⟨hok, hmax, l, hl⟩ := receiveMessage_cases (hkept.ok b hmem) hb'
        · exact ⟨iff_of_true (hs.set (hs.slots _ hmem) code) trivial,
            hkept.set hb rfl (hkept.ok _ hmem) _ _⟩
        · refine ⟨iff_of_true (hs.set ?_ code) trivial, hkept.set hb hmax hok _ _⟩
          intro x hx
          rw [hmax]
          exact hs.slots b hmem x (hl ▸ List.mem_cons_of_mem l hx)
  | raiseApplicationError process record src length =>
    simp only [step, raiseApplicationError] at h
    split at h
    · rename_i hnone
      obtain rfl := Option.some.inj h
      exact ⟨iff_of_true ⟨hs.copies, hs.slots⟩ fun hhm => absurd hnone hhm,
        ⟨hkept.sizes, hkept.ok⟩⟩
    · rename_i id hhm
      have hkept' : Kept c { s with copies := ⟨maxErrorMessageSize, length⟩ :: s.copies } :=
        ⟨hkept.sizes, hkept.ok⟩
      refine ⟨?_, sendBuffer_kept hkept' h⟩
      constructor
      · intro ht _
        -- the copy into the error status stays on the list whatever the send does
        obtain ⟨-, -, hcop, -⟩ | ⟨b, b', -, -, -, -, -, -, rfl⟩ := sendBuffer_cases hkept' h
        · exact ht.copies _ (hcop ▸ List.mem_cons_self)
        · exact ht.copies _ (List.mem_cons_of_mem _ List.mem_cons_self)
      · intro hfits
        have hfit := hfits (by rw [hhm]; simp)
        exact (sendBuffer_inBounds_iff (hs.copied hfit) hkept' h).mpr
          (errorStatus_fits hkept' hhm _ _)

/-- A call whose length fits where there is room is turned down where it does not. -/
theorem turnsDown_of_lengthFits {c : Config} {s : State} {call : Call} (hs : Kept c s)
    (hfits : LengthFits c s call) : TurnsDown c s call := by
  cases call with
  | sendBuffer id src length timeout =>
    intro b hb hbad t ht
    obtain ⟨hcode, hbuf, hcop, -⟩ | ⟨x, -, hx, htime, hne, -⟩ := sendBuffer_cases hs ht
    · exact ⟨hcode, hbuf, hcop⟩
    · obtain rfl : b = x := Option.some.inj (hb.symm.trans hx)
      exact absurd (hfits b hb htime hne) hbad
  | receiveBuffer | raiseApplicationError => trivial

theorem start_inBounds (c : Config) (memory : Nat → Payload) : InBounds (start c memory) where
  copies m hm := by simp [start] at hm
  slots := by
    intro b hb l hl
    obtain ⟨size, -, rfl⟩ := List.mem_map.mp hb
    simp [Buffer.create, Buffer.lengths, window] at hl

/-- **Message bounds.** Every copy and every occupied slot of a run is within its
    bounds, and every send that does not fit is turned down, if and only if each
    send that finds room and each error raised brings a length that fits. -/
theorem lengths_in_bounds_iff (c : Config) (memory : Nat → Payload) (calls : List Call) (s : State)
    (h : run (step c) (start c memory) calls = some s) :
    (Always (step c) InBounds (start c memory) calls ∧
        Meets (step c) (TurnsDown c) (start c memory) calls) ↔
      Meets (step c) (LengthFits c) (start c memory) calls := by
  have hbounds : Always (step c) InBounds (start c memory) calls ↔
      Meets (step c) (LengthFits c) (start c memory) calls := by
    apply always_iff_meets (J := Kept c) _ (start_inBounds c memory) (start_kept c memory) h
    intro s call t hs hkept hstep
    obtain ⟨hiff, hnext⟩ := step_inBounds_iff hs hkept hstep
    exact ⟨hiff, fun _ => hnext⟩
  rw [hbounds]
  apply and_iff_left_of_imp
  intro hfits
  apply Meets.imp (I := fun s => InBounds s ∧ Kept c s) _ _
    ⟨start_inBounds c memory, start_kept c memory⟩ hfits
  · intro s call t hs hfit hstep
    obtain ⟨hiff, hnext⟩ := step_inBounds_iff hs.1 hs.2 hstep
    exact ⟨hiff.mpr hfit, hnext⟩
  · intro s call hs hfit
    exact turnsDown_of_lengthFits hs.2 hfit

/-- One buffer for the processes and one for the health manager of process 0. -/
def oneManager : Config where
  sizes := [⟨8, 2, by decide, by decide, by decide⟩,
    ⟨sizeofErrorStatus, 20, by decide, by decide, by decide⟩]
  hmBuffer p := if p = 0 then some 1 else none
  hm_size := by
    intro p id h
    simp only [Option.ite_none_right_eq_some, Option.some.injEq] at h
    rw [← h.2]
    rfl

theorem lengths_in_bounds_iff_oneManager :
    (Always (step oneManager) InBounds (start oneManager fun _ => ⟨fun _ => 0, 0⟩)
          [.sendBuffer 0 (fun _ => 7) 8 0, .raiseApplicationError 0 (fun _ => 1) (fun _ => 7) 64,
            .receiveBuffer 0 0] ∧
        Meets (step oneManager) (TurnsDown oneManager)
          (start oneManager fun _ => ⟨fun _ => 0, 0⟩)
          [.sendBuffer 0 (fun _ => 7) 8 0, .raiseApplicationError 0 (fun _ => 1) (fun _ => 7) 64,
            .receiveBuffer 0 0]) ↔
      Meets (step oneManager) (LengthFits oneManager)
        (start oneManager fun _ => ⟨fun _ => 0, 0⟩)
        [.sendBuffer 0 (fun _ => 7) 8 0, .raiseApplicationError 0 (fun _ => 1) (fun _ => 7) 64,
          .receiveBuffer 0 0] :=
  lengths_in_bounds_iff oneManager _ _ _ rfl

/-- A send of 9 bytes into a buffer of 8-byte slots is answered `NO_ERROR`, and an
    error raised with 65 bytes goes past the message array of its record. -/
theorem length_unchecked :
    ∃ s, run (step oneManager) (start oneManager fun _ => ⟨fun _ => 0, 0⟩)
        [.sendBuffer 0 (fun _ => 7) 9 0, .raiseApplicationError 0 (fun _ => 1) (fun _ => 7) 65] =
      some s ∧ s.returned = .noError ∧ s.copies = [⟨96, 96⟩, ⟨64, 65⟩, ⟨8, 9⟩] ∧
        (s.buffers[0]?.map Buffer.lengths) = some [9] ∧ ¬ InBounds s := by
  refine ⟨_, rfl, rfl, rfl, rfl, ?_⟩
  intro hbounds
  have hmem : (⟨8, 9⟩ : Copy) ∈ ([⟨96, 96⟩, ⟨64, 65⟩, ⟨8, 9⟩] : List Copy) := by decide
  exact absurd (hbounds.copies ⟨8, 9⟩ hmem).2 (by decide)

end Arinc.BufferBounds
