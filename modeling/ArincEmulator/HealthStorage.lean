import ArincEmulator.Blackboard
import ArincEmulator.HealthDialogue

/- The storage of the dialogue: the buffers of the health managers, with their slots,
   indices and semaphores, and the blackboards of the processes, with their bytes and
   their events. The errors travel as records of `sizeof(ERROR_STATUS_TYPE)` bytes, the
   responses as messages of some bytes.

   What is proved:
     1. `Holds.send`, `Holds.receive`: a buffer that holds a queue of records sends and
        receives as the queue puts and takes, and waits when it does.
     2. `Shows.read`, `Shows.erase`, `Shows.display`: the same for what is displayed.
     3. `stored_run`: so whatever the dialogue does, the calls on the storage do. -/
namespace Arinc.HealthDialogue
open Runs Memory Arinc.Ring Registry

/-! ## A buffer of records -/

section
variable {α : Type*}

/-- What a slot holds, read as a record. -/
def slotRecord (decode : List UInt8 → α) (slot : BufferBounds.Payload) : α :=
  decode (read slot.actualLoad 0 slot.length.toNat)

/-- The occupied slots of a buffer hold the elements of a queue. -/
structure Holds (decode : List UInt8 → α) (b : BufferBounds.Buffer) (q : Fifo α) : Prop where
  ok : b.Ok
  capacity : b.maxNbMessage = q.capacity
  elements : (window b.maxNbMessage b.payload b.bufferHead b.currentMessageSize).map
    (slotRecord decode) = q.elements

variable {decode : List UInt8 → α} {b : BufferBounds.Buffer} {q : Fifo α}

theorem Holds.length_eq (h : Holds decode b q) : q.elements.length = b.currentMessageSize := by
  rw [← h.elements, List.length_map]
  simp [window]

/-- A semaphore without a token keeps an infinite wait, and one with a token ends it. -/
theorem waitFor_infinite (s : Semaphore) (expired : Bool) :
    s.waitFor infiniteTimeValue expired =
      if s.counter = 0 then none else some ({ s with counter := s.counter - 1 }, .noError) := by
  rw [Semaphore.waitFor, if_neg (by decide), if_pos rfl, Semaphore.waitUntil,
    if_neg Bool.false_ne_true, Semaphore.wait]
  split <;> rfl

/-- **A send puts its record at the end of the queue**, and waits when there is no room. -/
theorem Holds.send (h : Holds decode b q) (src : Nat → UInt8) (length : Int) :
    (b.sendMessage src length infiniteTimeValue = none ∧
      q.put (decode (read src 0 length.toNat)) = none) ∨
    ∃ b' q', b.sendMessage src length infiniteTimeValue = some (b', .noError) ∧
      q.put (decode (read src 0 length.toNat)) = some q' ∧ Holds decode b' q' := by
  have hlength := h.length_eq
  have hwrite := h.ok.write
  by_cases hfull : b.writeSemaphore.counter = 0
  · left
    constructor
    · rw [BufferBounds.Buffer.sendMessage, waitFor_infinite, if_pos hfull, Option.map_none]
    · rw [hwrite] at hfull
      simp only at hfull
      rw [Fifo.put_eq_none_iff, hlength, ← h.capacity]
      omega
  · right
    cases hsend : b.sendMessage src length infiniteTimeValue with
    | none =>
      rw [BufferBounds.Buffer.sendMessage, waitFor_infinite, if_neg hfull] at hsend
      cases hsend
    | some r =>
      obtain ⟨b', code⟩ := r
      obtain ⟨-, -, hzero⟩ | ⟨rfl, -, hok, -⟩ := BufferBounds.sendMessage_cases h.ok hsend
      · exact absurd hzero hfull
      obtain ⟨load, hwindow⟩ := BufferBounds.sendMessage_window h.ok hsend
      have hnb : b'.maxNbMessage = b.maxNbMessage := by
        rw [BufferBounds.Buffer.sendMessage, waitFor_infinite, if_neg hfull] at hsend
        exact congrArg (fun r => r.1.maxNbMessage) (Option.some.inj hsend).symm
      cases hput : q.put (decode (read src 0 length.toNat)) with
      | none =>
        rw [Fifo.put_eq_none_iff, hlength, ← h.capacity] at hput
        rw [hwrite] at hfull
        simp only at hfull
        have hle := h.ok.count_le
        omega
      | some q' =>
        obtain ⟨hcapacity, helements⟩ := Fifo.put_elements hput
        refine ⟨b', q', rfl, rfl, hok, by rw [hnb, h.capacity, hcapacity], ?_⟩
        rw [hwindow, List.map_append, h.elements, helements, List.map_singleton, slotRecord,
          read_copy (Nat.le_refl _)]

/-- **A receive takes the oldest record**, and waits when there is none. -/
theorem Holds.receive (h : Holds decode b q) :
    (b.receiveMessage infiniteTimeValue = none ∧ q.take = none) ∨
    ∃ b' q', b.receiveMessage infiniteTimeValue = some (b', .noError) ∧
      q.take = some (slotRecord decode (b.payload b.bufferHead), q') ∧ Holds decode b' q' := by
  have hlength := h.length_eq
  have helements := h.elements
  have hcounter : b.readSemaphore.counter = b.currentMessageSize := by rw [h.ok.read]
  cases hcount : b.currentMessageSize with
  | zero =>
    left
    rw [hcount] at hcounter hlength
    have hzero : b.readSemaphore.counter = 0 := hcounter
    constructor
    · rw [BufferBounds.Buffer.receiveMessage, waitFor_infinite, if_pos hzero, Option.map_none]
    · exact Fifo.take_eq_none_iff.mpr (List.eq_nil_of_length_eq_zero hlength)
  | succ k =>
    right
    have hhead := h.ok.head_lt
    have hle := h.ok.count_le
    have hnonzero : b.readSemaphore.counter ≠ 0 := by
      rw [hcounter, hcount]
      omega
    rw [hcount, window_pop hhead, List.map_cons] at helements
    cases htake : q.take with
    | none =>
      rw [Fifo.take_eq_none_iff.mp htake] at helements
      cases helements
    | some r =>
      obtain ⟨a, q'⟩ := r
      obtain ⟨hcapacity, hcons⟩ := Fifo.take_some htake
      obtain ⟨ha, hrest⟩ := List.cons.inj (helements.trans hcons)
      have hreceive : b.receiveMessage infiniteTimeValue = some ({ b with
          payload := Function.update b.payload b.bufferHead
            ⟨copy (b.payload b.bufferHead).actualLoad 0 (fun _ => 48) b.maxMessageSize.toNat, 0⟩
          currentMessageSize := b.currentMessageSize - 1
          bufferHead := next b.maxNbMessage b.bufferHead
          readSemaphore := { b.readSemaphore with counter := b.readSemaphore.counter - 1 }
          writeSemaphore := b.writeSemaphore.post.1 }, .noError) := by
        rw [BufferBounds.Buffer.receiveMessage, waitFor_infinite, if_neg hnonzero]
        rfl
      obtain hsame | ⟨hok, -⟩ := BufferBounds.receiveMessage_cases h.ok hreceive
      · have hsize := congrArg BufferBounds.Buffer.currentMessageSize hsame
        simp only at hsize
        omega
      refine ⟨_, q', hreceive, by rw [ha], hok, h.capacity.trans hcapacity.symm, ?_⟩
      simp only [hcount, Nat.add_sub_cancel]
      rw [window_update_head hhead (by omega), hrest]

theorem holds_create (decode : List UInt8 → α) (size : BufferBounds.BufferSize)
    (memory : Nat → BufferBounds.Payload) :
    Holds decode (.create size memory) ⟨size.maxNbMessage, [], Nat.zero_le _⟩ where
  ok := BufferBounds.create_ok size memory
  capacity := rfl
  elements := rfl

/-! ## A blackboard of messages -/

/-- A blackboard displays a message, or nothing. -/
def Shows (decode : List UInt8 → α) (b : Blackboard.Board) (shown : Option α) : Prop :=
  ∃ m, Blackboard.Holds b m ∧ m.map decode = shown

variable {board : Blackboard.Board} {shown : Option α}

theorem Shows.erase (h : Shows decode board shown) : Shows decode board.eraseBlackboard none := by
  obtain ⟨m, hm, -⟩ := h
  exact ⟨none, Blackboard.holds_erase hm.size_pos, rfl⟩

/-- **A display erases and writes.** -/
theorem Shows.display (h : Shows decode board shown) {src : Nat → UInt8} {length : Int}
    (hpos : 0 < length) (hle : length ≤ board.maxMessageSize) :
    ∃ board', board.eraseBlackboard.writeOnBlackboard src length = some board' ∧
      board'.maxMessageSize = board.maxMessageSize ∧
      Shows decode board' (some (decode (read src 0 length.toNat))) := by
  obtain ⟨m, hm, -⟩ := h
  have hroom : ¬ board.eraseBlackboard.maxMessageSize < length := Int.not_lt.mpr hle
  have hwrite : board.eraseBlackboard.writeOnBlackboard src length ≠ none := by
    rw [Blackboard.Board.writeOnBlackboard, if_neg hroom, if_neg (by omega)]
    exact Option.some_ne_none _
  obtain ⟨board', hboard'⟩ := Option.ne_none_iff_exists'.mp hwrite
  have hsize : 0 < board.eraseBlackboard.maxMessageSize := hm.size_pos
  exact ⟨board', hboard', (Blackboard.writeOnBlackboard_cases hboard').2.1, _,
    Blackboard.holds_write hsize hpos hboard', rfl⟩

/-- **A read without a time-out gets what is displayed**, and waits when nothing is. -/
theorem Shows.read (h : Shows decode board shown) {boards : List Blackboard.Board} {id : Nat}
    (hid : boards[id]? = some board) :
    (Blackboard.readBlackboard boards id infiniteTimeValue = none ∧ shown = none) ∨
    ∃ message, Blackboard.readBlackboard boards id infiniteTimeValue =
      some ⟨.noError, some message, none⟩ ∧ shown = some (decode message.bytes) := by
  obtain ⟨m, hm, rfl⟩ := h
  have hinfinite : ¬ maxTimeOut < infiniteTimeValue := by decide
  have hnonzero : infiniteTimeValue ≠ 0 := by decide
  simp only [Blackboard.readBlackboard, hid, if_neg hinfinite, hnonzero, and_false, if_false]
  cases m with
  | none =>
    left
    rw [if_pos (hm.empty rfl), if_true]
    exact ⟨rfl, rfl⟩
  | some m =>
    obtain ⟨-, hread, hup⟩ := hm.full m rfl
    refine Or.inr ⟨⟨m.length, m⟩, ?_, rfl⟩
    rw [if_neg (by rw [hup]; simp), hread]

end

/-! ## The storage of a dialogue -/

/-- The buffers and the blackboards of the partition. -/
structure Storage where
  buffers : Nat → BufferBounds.Buffer
  boards : Nat → Blackboard.Board

/-- A call on one of them that ends with `NO_ERROR`, or none. -/
inductive Storage.Step (m : Storage) : Storage → Prop where
  | none : Step m m
  | sendBuffer {id : Nat} {src : Nat → UInt8} {length : Int} {b : BufferBounds.Buffer}
      (h : (m.buffers id).sendMessage src length infiniteTimeValue = some (b, .noError)) :
      Step m { m with buffers := Function.update m.buffers id b }
  | receiveBuffer {id : Nat} {b : BufferBounds.Buffer}
      (h : (m.buffers id).receiveMessage infiniteTimeValue = some (b, .noError)) :
      Step m { m with buffers := Function.update m.buffers id b }
  | clearBlackboard (id : Nat) :
      Step m { m with boards := Function.update m.boards id (m.boards id).eraseBlackboard }
  | displayBlackboard {id : Nat} {src : Nat → UInt8} {length : Int} {b : Blackboard.Board}
      (h : (m.boards id).eraseBlackboard.writeOnBlackboard src length = some b) :
      Step m { m with boards := Function.update m.boards id b }

variable {Response : Type*}

/-- The storage holds what the dialogue has in its queues and displays. -/
structure Stored (error : List UInt8 → ErrorStatus) (response : List UInt8 → Response)
    (m : Storage) (s : State Response) : Prop where
  buffers : ∀ id, Holds error (m.buffers id) (s.buffers id)
  boards : ∀ id, Shows response (m.boards id) (s.boards id)
  size : ∀ id, (m.boards id).maxMessageSize = maxHmResponseMessageSize

/-- What a step sends or displays has a form in bytes: an error as a record, a response
    as a message of some bytes that a blackboard takes. -/
def HasForm (error : List UInt8 → ErrorStatus) (response : List UInt8 → Response)
    (s : State Response) : Op Response → Prop
  | .send p => ∀ errorCode message, s.callers p = .cleared errorCode message →
      ∃ src, error (read src 0 BufferBounds.sizeofErrorStatus.toNat) = ⟨errorCode, p, message⟩
  | .raise p errorCode message =>
      ∃ src, error (read src 0 BufferBounds.sizeofErrorStatus.toNat) = ⟨errorCode, p, message⟩
  | .notify _ _ x => ∃ src, ∃ length : Int, 0 < length ∧ length ≤ maxHmResponseMessageSize ∧
      response (read src 0 length.toNat) = x
  | _ => True

section
variable {error : List UInt8 → ErrorStatus} {response : List UInt8 → Response} {m : Storage}
  {s s' : State Response} {r : Registry}

theorem Stored.of_same (h : Stored error response m s) (hbuffers : s'.buffers = s.buffers)
    (hboards : s'.boards = s.boards) : ∃ m', m.Step m' ∧ Stored error response m' s' :=
  ⟨m, .none, fun id => by rw [hbuffers]; exact h.buffers id,
    fun id => by rw [hboards]; exact h.boards id, h.size⟩

theorem Stored.setBuffer (h : Stored error response m s) {id : Nat} {b : BufferBounds.Buffer}
    {q : Fifo ErrorStatus} (hb : Holds error b q)
    (hbuffers : s'.buffers = Function.update s.buffers id q) (hboards : s'.boards = s.boards) :
    Stored error response { m with buffers := Function.update m.buffers id b } s' := by
  refine ⟨fun k => ?_, fun k => by rw [hboards]; exact h.boards k, h.size⟩
  rw [hbuffers]
  by_cases hk : k = id
  · subst hk
    simpa using hb
  · simpa [Function.update_of_ne hk] using h.buffers k

theorem Stored.setBoard (h : Stored error response m s) {id : Nat} {b : Blackboard.Board}
    {shown : Option Response} (hb : Shows response b shown)
    (hsize : b.maxMessageSize = (m.boards id).maxMessageSize) (hbuffers : s'.buffers = s.buffers)
    (hboards : s'.boards = Function.update s.boards id shown) :
    Stored error response { m with boards := Function.update m.boards id b } s' := by
  refine ⟨fun k => by rw [hbuffers]; exact h.buffers k, fun k => ?_, fun k => ?_⟩
  · rw [hboards]
    by_cases hk : k = id
    · subst hk
      simpa using hb
    · simpa [Function.update_of_ne hk] using h.boards k
  · by_cases hk : k = id
    · subst hk
      simpa using hsize.trans (h.size k)
    · simpa [Function.update_of_ne hk] using h.size k

theorem Stored.raiseError (h : Stored error response m s) {p : Nat} {errorCode : Int}
    {message : List UInt8}
    (hform : ∃ src, error (read src 0 BufferBounds.sizeofErrorStatus.toNat) =
      ⟨errorCode, p, message⟩)
    (hstep : raiseError r s p errorCode message = some s') :
    ∃ m', m.Step m' ∧ Stored error response m' s' := by
  obtain ⟨rfl, -⟩ | ⟨d, g, hm, q, -, hput, rfl⟩ := raiseError_cases hstep
  · exact h.of_same rfl rfl
  · obtain ⟨src, hsrc⟩ := hform
    obtain ⟨-, hfull⟩ | ⟨b, q', hsend, hput', hb⟩ :=
      (h.buffers hm.hmBufferId).send src BufferBounds.sizeofErrorStatus
    · rw [hsrc, hput] at hfull
      cases hfull
    · rw [hsrc, hput] at hput'
      obtain rfl := Option.some.inj hput'
      exact ⟨_, .sendBuffer hsend, h.setBuffer hb rfl rfl⟩

/-- **What a step does to the queues and the displays, one call does to the storage.** -/
theorem stored_step (h : Stored error response m s) {op : Op Response}
    (hform : HasForm error response s op) (hstep : step r s op = some s') :
    ∃ m', m.Step m' ∧ Stored error response m' s' := by
  cases op with
  | clear p errorCode message =>
    obtain ⟨-, hstep⟩ := Option.ite_none_right_eq_some.mp hstep
    split at hstep
    · cases hstep
    rename_i d hd
    split at hstep
    · obtain rfl := Option.some.inj hstep
      exact h.of_same rfl rfl
    · obtain rfl := Option.some.inj hstep
      exact ⟨_, .clearBlackboard d.hmResponseBoardId,
        h.setBoard (h.boards d.hmResponseBoardId).erase rfl rfl rfl⟩
  | send p =>
    rw [step] at hstep
    split at hstep
    · rename_i errorCode message hcaller
      obtain ⟨u, hraise, rfl⟩ := Option.map_eq_some_iff.mp hstep
      obtain ⟨m', hm', hu⟩ := h.raiseError (hform errorCode message hcaller) hraise
      exact ⟨m', hm', hu.buffers, hu.boards, hu.size⟩
    · cases hstep
  | raise p errorCode message => exact h.raiseError hform hstep
  | read p =>
    obtain ⟨-, hstep⟩ := Option.ite_none_right_eq_some.mp hstep
    split at hstep
    · cases hstep
    obtain ⟨x, -, rfl⟩ := Option.map_eq_some_iff.mp hstep
    exact h.of_same rfl rfl
  | timeOut p =>
    obtain ⟨-, hstep⟩ := Option.ite_none_right_eq_some.mp hstep
    split at hstep
    · cases hstep
    obtain ⟨-, hstep⟩ := Option.ite_none_right_eq_some.mp hstep
    obtain rfl := Option.some.inj hstep
    exact h.of_same rfl rfl
  | receive k =>
    obtain rfl | ⟨g, hm, e, q, code, board, -, -, htake, -, rfl⟩ := receive_cases hstep
    · exact h.of_same rfl rfl
    · obtain ⟨-, hempty⟩ | ⟨b, q', hreceive, htake', hb⟩ := (h.buffers hm.hmBufferId).receive
      · rw [htake] at hempty
        cases hempty
      · rw [htake] at htake'
        obtain ⟨-, rfl⟩ := Prod.mk.inj (Option.some.inj htake')
        exact ⟨_, .receiveBuffer hreceive, h.setBuffer hb rfl rfl⟩
  | notify k p x =>
    obtain rfl | ⟨d, g, hm, -, -, rfl⟩ := notify_cases hstep
    · exact h.of_same rfl rfl
    · obtain ⟨src, length, hpos, hle, rfl⟩ := hform
      obtain ⟨b, hwrite, hsize, hb⟩ := (h.boards d.hmResponseBoardId).display hpos
        (hle.trans (h.size d.hmResponseBoardId).ge)
      exact ⟨_, .displayBlackboard hwrite,
        h.setBoard hb hsize (answer_frame s k p _).1 rfl⟩

/-- **So does a run.** -/
theorem stored_run (h : Stored error response m s) {ops : List (Op Response)}
    (hform : Meets (step r) (HasForm error response) s ops) (hrun : run (step r) s ops = some s') :
    ∃ m', Relation.ReflTransGen Storage.Step m m' ∧ Stored error response m' s' := by
  refine run_invariant_of_meets
    (I := fun t => ∃ m', Relation.ReflTransGen Storage.Step m m' ∧ Stored error response m' t)
    ?_ ⟨m, .refl, h⟩ hform hrun
  rintro t op u ⟨m', hreach, ht⟩ hform hstep
  obtain ⟨m'', hm'', hu⟩ := stored_step ht hform hstep
  exact ⟨m'', hreach.tail hm'', hu⟩

end

theorem sizeofErrorStatus_pos : 0 < BufferBounds.sizeofErrorStatus := by decide

theorem maxHmBufferMessages_bounds :
    0 < maxHmBufferMessages.toNat ∧ maxHmBufferMessages.toNat ≤ 512 := by decide

/-- The buffer of a health manager and the blackboard of a process, as they are created. -/
def createdStorage (memory : Nat → BufferBounds.Payload) : Storage where
  buffers _ := .create ⟨BufferBounds.sizeofErrorStatus, maxHmBufferMessages.toNat,
    sizeofErrorStatus_pos, maxHmBufferMessages_bounds.1, maxHmBufferMessages_bounds.2⟩ memory
  boards _ := .create maxHmResponseMessageSize

theorem stored_start (error : List UInt8 → ErrorStatus) (response : List UInt8 → Response)
    (memory : Nat → BufferBounds.Payload) :
    Stored error response (createdStorage memory) start where
  buffers _ := holds_create error _ memory
  boards _ := ⟨none, ⟨(by decide : 0 < maxHmResponseMessageSize), fun _ => ⟨rfl, rfl⟩,
    fun _ h => absurd h (by simp)⟩, rfl⟩
  size _ := rfl

end Arinc.HealthDialogue
