import ArincEmulator.Lib.Memory
import ArincEmulator.Lib.Runs
import ArincEmulator.Event

/- The blackboards of a partition and sequences of calls on them. A blackboard
   has a buffer, the length of what is in it, and an event that is up while it is
   occupied; a length of 0 stands for an empty blackboard, and nothing keeps a
   caller from displaying a message of that length.

   What is proved: a blackboard stands for a register, the last message displayed
   and not cleared since (`register`). The answers, the indicator and the event
   agree with it after every call of a run just when no call displays a message
   without a byte (`register_iff`). -/
namespace Arinc.Blackboard
open Runs Memory

/-- `EMPTY_INDICATOR_TYPE`. -/
inductive EmptyIndicator where
  | empty
  | occupied
  deriving DecidableEq, Repr

/-- `APEX_BLACKBOARD_TYPE`, with the state of its event. -/
structure Board where
  maxMessageSize : Int
  currentMessageSize : Int
  payload : Nat → UInt8
  eventState : EventState

/-- A size `CREATE_BLACKBOARD` lets through. -/
abbrev Size := { size : Int // 0 < size }

/-- A message as `READ_BLACKBOARD` hands it out. -/
structure Message where
  length : Int
  bytes : List UInt8
  deriving DecidableEq, Repr

namespace Board

/-- The constructor; the buffer is allocated and not written. -/
def create (size : Int) : Board := ⟨size, 0, fun _ => 0, .down⟩

/-- `ERASE_BLACKBOARD`. The buffer is filled with the character 0. -/
def eraseBlackboard (b : Board) : Board :=
  { b with
    payload := copy b.payload 0 (fun _ => 48) b.maxMessageSize.toNat
    eventState := .down
    currentMessageSize := 0 }

/-- `WRITE_ON_BLACKBOARD`. A negative length is a `memcpy` of about 2^64 bytes,
    which ends the program. -/
def writeOnBlackboard (b : Board) (src : Nat → UInt8) (length : Int) : Option Board :=
  if b.maxMessageSize < length then none -- the assertion
  else if length < 0 then none
  else
    some { b with
      payload := copy b.payload 0 src length.toNat
      currentMessageSize := length
      eventState := .up }

/-- `READ_FROM_BLACKBOARD`. -/
def readFromBlackboard (b : Board) : Message :=
  ⟨b.currentMessageSize, read b.payload 0 b.currentMessageSize.toNat⟩

/-- The `EMPTY_INDICATOR` of `GET_BLACKBOARD_STATUS`. -/
def emptyIndicator (b : Board) : EmptyIndicator :=
  if b.currentMessageSize = 0 then .empty else .occupied

end Board

/-! ## The services -/

/-- The calls on the blackboards. -/
inductive Call where
  | display (id : Nat) (src : Nat → UInt8) (length : Int)
  | read (id : Nat) (timeout : Int)
  | clear (id : Nat)
  | status (id : Nat)

/-- What a call gives back. -/
structure Answer where
  code : ReturnCode
  message : Option Message
  indicator : Option EmptyIndicator
  deriving DecidableEq, Repr

/-- An answer that is a code only. -/
def Answer.only (code : ReturnCode) : Answer := ⟨code, none, none⟩

/-- `DISPLAY_BLACKBOARD`. -/
def displayBlackboard (boards : List Board) (id : Nat) (src : Nat → UInt8) (length : Int) :
    Option (List Board × Answer) :=
  match boards[id]? with
  | none => some (boards, .only .invalidParam)
  | some b =>
    if b.maxMessageSize < length then some (boards, .only .invalidParam)
    else (b.eraseBlackboard.writeOnBlackboard src length).map fun b' =>
      (boards.set id b', .only .noError)

/-- `READ_BLACKBOARD`. A wait on an event that is down ends with its time-out, as
    no other call runs meanwhile, and an infinite one does not end. -/
def readBlackboard (boards : List Board) (id : Nat) (timeout : Int) : Option Answer :=
  match boards[id]? with
  | none => some (.only .invalidParam)
  | some b =>
    if maxTimeOut < timeout then some (.only .invalidParam)
    else if b.currentMessageSize = 0 ∧ timeout = 0 then some (.only .notAvailable)
    else if b.currentMessageSize = 0 ∧ b.eventState = .down then
      if timeout = infiniteTimeValue then none else some (.only .timedOut)
    else some ⟨.noError, some b.readFromBlackboard, none⟩

/-- `CLEAR_BLACKBOARD`. -/
def clearBlackboard (boards : List Board) (id : Nat) : List Board × Answer :=
  match boards[id]? with
  | none => (boards, .only .invalidParam)
  | some b => (boards.set id b.eraseBlackboard, .only .noError)

/-- `GET_BLACKBOARD_STATUS`. -/
def getBlackboardStatus (boards : List Board) (id : Nat) : Answer :=
  match boards[id]? with
  | none => .only .invalidParam
  | some b => ⟨.noError, none, some b.emptyIndicator⟩

/-- One call. -/
def perform (boards : List Board) : Call → Option (List Board × Answer)
  | .display id src length => displayBlackboard boards id src length
  | .read id timeout => (readBlackboard boards id timeout).map fun a => (boards, a)
  | .clear id => some (clearBlackboard boards id)
  | .status id => some (boards, getBlackboardStatus boards id)

/-- The blackboards and the calls answered so far, newest first. -/
structure State where
  boards : List Board
  log : List (Call × Answer)

/-- Blackboards of the given sizes, none of them used. -/
def start (sizes : List Size) : State := ⟨sizes.map fun size : Size => .create size.1, []⟩

/-- One call of a sequence. -/
def step (s : State) (call : Call) : Option State :=
  (perform s.boards call).map fun (boards, a) => ⟨boards, (call, a) :: s.log⟩

/-! ## What a blackboard is for -/

/-- The register: the last message displayed on `id` with `NO_ERROR`, unless it
    was cleared since. -/
def register (id : Nat) : List (Call × Answer) → Option (List UInt8)
  | [] => none
  | (call, answer) :: log =>
    if answer.code = .noError then
      match call with
      | .display i src length =>
        if i = id then some (read src 0 length.toNat) else register id log
      | .clear i => if i = id then none else register id log
      | _ => register id log
    else register id log

/-- The blackboards answer and look as the registers do. -/
structure Agrees (s : State) : Prop where
  read : ∀ id timeout boards a, perform s.boards (.read id timeout) = some (boards, a) →
    a.code = .noError → ∃ m, register id s.log = some m ∧ a.message = some ⟨m.length, m⟩
  indicator : ∀ (id : Nat) (b : Board), s.boards[id]? = some b →
    (b.emptyIndicator = .occupied ↔ (register id s.log).isSome)
  event : ∀ (id : Nat) (b : Board), s.boards[id]? = some b →
    (b.eventState = .up ↔ b.emptyIndicator = .occupied)
  rejected : ∀ id src length boards a,
    perform s.boards (.display id src length) = some (boards, a) → a.code ≠ .noError →
      boards = s.boards

/-- A message displayed on a blackboard has at least one byte. -/
def HasBytes (s : State) : Call → Prop
  | .display id _ length => id < s.boards.length → 0 < length
  | _ => True

/-! ## A blackboard and its register -/

/-- The four parts of a blackboard hold the register's content. -/
structure Holds (b : Board) (r : Option (List UInt8)) : Prop where
  size_pos : 0 < b.maxMessageSize
  empty : r = none → b.currentMessageSize = 0 ∧ b.eventState = .down
  full : ∀ m, r = some m → 0 < m.length ∧ b.readFromBlackboard = ⟨m.length, m⟩ ∧
    b.eventState = .up

theorem Holds.currentMessageSize {b : Board} {m : List UInt8} (h : Holds b (some m)) :
    b.currentMessageSize = m.length :=
  congrArg Message.length (h.full m rfl).2.1

theorem Holds.eq_zero_iff {b : Board} {r : Option (List UInt8)} (h : Holds b r) :
    b.currentMessageSize = 0 ↔ r = none := by
  cases r with
  | none => exact ⟨fun _ => rfl, fun _ => (h.empty rfl).1⟩
  | some m =>
    have hpos := (h.full m rfl).1
    have hsize := h.currentMessageSize
    constructor
    · intro hzero
      omega
    · intro hnone
      simp at hnone

theorem Holds.indicator_iff {b : Board} {r : Option (List UInt8)} (h : Holds b r) :
    b.emptyIndicator = .occupied ↔ r.isSome := by
  unfold Board.emptyIndicator
  rw [Option.isSome_iff_ne_none, ne_eq, ← h.eq_zero_iff]
  split
  · rename_i hzero
    simp [hzero]
  · rename_i hne
    simp [hne]

theorem Holds.up_iff {b : Board} {r : Option (List UInt8)} (h : Holds b r) :
    b.eventState = .up ↔ b.emptyIndicator = .occupied := by
  rw [h.indicator_iff]
  cases r with
  | none => simp [(h.empty rfl).2]
  | some m => simp [(h.full m rfl).2.2]

theorem holds_erase {b : Board} (h : 0 < b.maxMessageSize) : Holds b.eraseBlackboard none where
  size_pos := h
  empty _ := ⟨rfl, rfl⟩
  full m hm := by simp at hm

theorem writeOnBlackboard_cases {b b' : Board} {src : Nat → UInt8} {length : Int}
    (h : b.writeOnBlackboard src length = some b') :
    0 ≤ length ∧ b'.maxMessageSize = b.maxMessageSize ∧ b'.currentMessageSize = length ∧
      b'.eventState = .up ∧ b'.readFromBlackboard = ⟨length, read src 0 length.toNat⟩ := by
  simp only [Board.writeOnBlackboard, Option.ite_none_left_eq_some, Option.some.injEq] at h
  obtain ⟨-, hlo, rfl⟩ := h
  refine ⟨by omega, rfl, rfl, rfl, ?_⟩
  show (⟨length, read (copy b.payload 0 src length.toNat) 0 length.toNat⟩ : Message) = _
  rw [read_copy le_rfl]

theorem holds_write {b b' : Board} {src : Nat → UInt8} {length : Int}
    (hsize : 0 < b.maxMessageSize) (hpos : 0 < length)
    (h : b.writeOnBlackboard src length = some b') :
    Holds b' (some (read src 0 length.toNat)) := by
  obtain ⟨-, hmax, -, hup, hread⟩ := writeOnBlackboard_cases h
  refine ⟨hmax ▸ hsize, fun hnone => by simp at hnone, ?_⟩
  intro m hm
  obtain rfl := Option.some.inj hm
  have hlen : ((read src 0 length.toNat).length : Int) = length := by
    rw [length_read]
    omega
  exact ⟨by omega, by rw [hread, hlen], hup⟩

theorem displayBlackboard_cases {boards boards' : List Board} {id : Nat} {src : Nat → UInt8}
    {length : Int} {a : Answer}
    (h : displayBlackboard boards id src length = some (boards', a)) :
    (a.code = .invalidParam ∧ boards' = boards) ∨
      ∃ b b', boards[id]? = some b ∧ b.eraseBlackboard.writeOnBlackboard src length = some b' ∧
        a.code = .noError ∧ boards' = boards.set id b' := by
  unfold displayBlackboard at h
  split at h
  · obtain ⟨rfl, rfl⟩ := Prod.mk.inj (Option.some.inj h)
    exact Or.inl ⟨rfl, rfl⟩
  · rename_i b hb
    split at h
    · obtain ⟨rfl, rfl⟩ := Prod.mk.inj (Option.some.inj h)
      exact Or.inl ⟨rfl, rfl⟩
    · obtain ⟨b', hb', heq⟩ := Option.map_eq_some_iff.mp h
      obtain ⟨rfl, rfl⟩ := Prod.mk.inj heq
      exact Or.inr ⟨b, b', hb, hb', rfl, rfl⟩

/-- Every blackboard holds its register's content. -/
def Held (s : State) : Prop :=
  ∀ (id : Nat) (b : Board), s.boards[id]? = some b → Holds b (register id s.log)

theorem start_held (sizes : List Size) : Held (start sizes) := by
  intro id b hb
  obtain ⟨size, -, rfl⟩ := List.mem_map.mp (List.mem_of_getElem? hb)
  exact ⟨size.2, fun _ => ⟨rfl, rfl⟩, fun m hm => by simp [register, start] at hm⟩

theorem Held.agrees {s : State} (h : Held s) : Agrees s where
  read := by
    intro id timeout boards a ha hcode
    simp only [perform] at ha
    obtain ⟨a', ha', heq⟩ := Option.map_eq_some_iff.mp ha
    obtain ⟨rfl, rfl⟩ := Prod.mk.inj heq
    unfold readBlackboard at ha'
    split at ha'
    · obtain rfl := Option.some.inj ha'
      exact absurd hcode (by decide)
    · rename_i b hb
      have hholds := h id b hb
      split at ha'
      · obtain rfl := Option.some.inj ha'
        exact absurd hcode (by decide)
      · split at ha'
        · obtain rfl := Option.some.inj ha'
          exact absurd hcode (by decide)
        · split at ha'
          · split at ha'
            · simp at ha'
            · obtain rfl := Option.some.inj ha'
              exact absurd hcode (by decide)
          · -- not empty, or its event is up: either way the register has a message
            rename_i hwait
            obtain rfl := Option.some.inj ha'
            cases hr : register id s.log with
            | none =>
              rw [hr] at hholds
              exact absurd (hholds.empty rfl) hwait
            | some m =>
              rw [hr] at hholds
              exact ⟨m, rfl, congrArg some (hholds.full m rfl).2.1⟩
  indicator id b hb := (h id b hb).indicator_iff
  event id b hb := (h id b hb).up_iff
  rejected := by
    intro id src length boards a ha hcode
    obtain ⟨-, hsame⟩ | ⟨-, -, -, -, hok, -⟩ := displayBlackboard_cases ha
    · exact hsame
    · exact absurd hok hcode

/-! ## Runs -/

theorem Held.set {s : State} (h : Held s) {id : Nat} {b b' : Board} {call : Call} {a : Answer}
    (hb : s.boards[id]? = some b) (hsame : ∀ i, i ≠ id → register i ((call, a) :: s.log) =
      register i s.log) (hb' : Holds b' (register id ((call, a) :: s.log))) :
    Held ⟨s.boards.set id b', (call, a) :: s.log⟩ := by
  intro i c hc
  by_cases hi : i = id
  · subst hi
    rw [List.getElem?_set_self (List.getElem?_eq_some_iff.mp hb).1] at hc
    obtain rfl := Option.some.inj hc
    exact hb'
  · rw [List.getElem?_set_ne (fun heq => hi heq.symm)] at hc
    show Holds c (register i ((call, a) :: s.log))
    rw [hsame i hi]
    exact h i c hc

theorem Held.unchanged {s : State} (h : Held s) {call : Call} {a : Answer}
    (hsame : ∀ i, register i ((call, a) :: s.log) = register i s.log) :
    Held ⟨s.boards, (call, a) :: s.log⟩ := by
  intro i c hc
  show Holds c (register i ((call, a) :: s.log))
  rw [hsame i]
  exact h i c hc

theorem step_held {s t : State} {call : Call} (h : Held s) (hcall : HasBytes s call)
    (hstep : step s call = some t) : Held t := by
  obtain ⟨⟨boards, a⟩, ha, rfl⟩ := Option.map_eq_some_iff.mp hstep
  cases call with
  | display id src length =>
    obtain ⟨hcode, hsame⟩ | ⟨b, b', hb, hb', hcode, hset⟩ := displayBlackboard_cases ha
    · -- turned down: neither the board nor the register moves
      subst hsame
      exact h.unchanged fun i => by simp [register, hcode]
    · subst hset
      have hpos : 0 < length := hcall (List.getElem?_eq_some_iff.mp hb).1
      apply h.set hb
      · intro i hi
        simp [register, hcode, Ne.symm hi]
      · have hreg : register id ((.display id src length, a) :: s.log) =
            some (read src 0 length.toNat) := by simp [register, hcode]
        rw [hreg]
        exact holds_write (b := b.eraseBlackboard) (h id b hb).size_pos hpos hb'
  | read id timeout =>
    obtain ⟨a', -, heq⟩ := Option.map_eq_some_iff.mp ha
    obtain ⟨rfl, rfl⟩ := Prod.mk.inj heq
    exact h.unchanged fun i => by simp [register]
  | clear id =>
    have heq := Option.some.inj ha
    unfold clearBlackboard at heq
    split at heq
    · obtain ⟨rfl, rfl⟩ := Prod.mk.inj heq
      exact h.unchanged fun i => by simp [register, Answer.only]
    · rename_i b hb
      obtain ⟨rfl, rfl⟩ := Prod.mk.inj heq
      apply h.set hb
      · intro i hi
        simp [register, Answer.only, Ne.symm hi]
      · have hreg : register id ((.clear id, .only .noError) :: s.log) = none := by
          simp [register, Answer.only]
        rw [hreg]
        exact holds_erase (h id b hb).size_pos
  | status id =>
    obtain ⟨rfl, rfl⟩ := Prod.mk.inj (Option.some.inj ha)
    exact h.unchanged fun i => by simp [register]

/-- A message without a byte fills the register and leaves the blackboard empty. -/
theorem not_agrees_of_not_hasBytes {s t : State} {call : Call} (h : Held s)
    (hcall : ¬ HasBytes s call) (hstep : step s call = some t) : ¬ Agrees t := by
  obtain ⟨⟨boards, a⟩, ha, rfl⟩ := Option.map_eq_some_iff.mp hstep
  cases call with
  | display id src length =>
    simp only [HasBytes, Classical.not_imp] at hcall
    obtain ⟨hid, hlen⟩ := hcall
    have hb : s.boards[id]? = some s.boards[id] := List.getElem?_eq_getElem hid
    intro hagrees
    obtain ⟨hcode, -⟩ | ⟨b, b', -, hb', hcode, hset⟩ := displayBlackboard_cases ha
    · -- a length of at most 0 is below every maximum, so the call is not turned down
      have hle : ¬ s.boards[id].maxMessageSize < length := by
        have hpos := (h id _ hb).size_pos
        omega
      simp only [perform, displayBlackboard, hb, hle, if_false] at ha
      obtain ⟨b', -, heq⟩ := Option.map_eq_some_iff.mp ha
      obtain ⟨-, rfl⟩ := Prod.mk.inj heq
      exact absurd hcode (by decide)
    · obtain ⟨hnonneg, -, hsize, -⟩ := writeOnBlackboard_cases hb'
      have hhere : boards[id]? = some b' := by rw [hset, List.getElem?_set_self hid]
      have hfull : (register id ((.display id src length, a) :: s.log)).isSome := by
        simp [register, hcode]
      have hoccupied := (hagrees.indicator id b' hhere).mpr hfull
      have hzero : b'.currentMessageSize = 0 := by omega
      simp [Board.emptyIndicator, hzero] at hoccupied
  | read | clear | status => exact absurd trivial hcall

/-- **Register semantics.** The blackboards answer, and show, what their
    registers hold in every state of a run if and only if no call of the run
    displays a message without a byte. -/
theorem register_iff (sizes : List Size) (calls : List Call) (s : State)
    (h : run step (start sizes) calls = some s) :
    Always step Agrees (start sizes) calls ↔ Meets step HasBytes (start sizes) calls := by
  apply always_iff_meets (J := Held) _ (start_held sizes).agrees (start_held sizes) h
  intro s call t _ hheld hstep
  by_cases hcall : HasBytes s call
  · have hnext := step_held hheld hcall hstep
    exact ⟨iff_of_true hnext.agrees hcall, fun _ => hnext⟩
  · exact ⟨iff_of_false (not_agrees_of_not_hasBytes hheld hcall hstep) hcall,
      fun hc => absurd hc hcall⟩

/-- A message is displayed on one blackboard of two, read and cleared. -/
theorem register_iff_displayed :
    Always step Agrees (start [⟨4, by decide⟩, ⟨8, by decide⟩])
        [.display 1 (fun _ => 7) 3, .read 1 0, .clear 1] ↔
      Meets step HasBytes (start [⟨4, by decide⟩, ⟨8, by decide⟩])
        [.display 1 (fun _ => 7) 3, .read 1 0, .clear 1] :=
  register_iff _ _ _ rfl

/-- A displayed message of length 0 is answered `NO_ERROR` and raises the event of
    a blackboard that still shows itself empty. -/
theorem empty_message_disagrees :
    ∃ s : State, run step (start [⟨4, by decide⟩]) [.display 0 (fun _ => 7) 0] = some s ∧
      register 0 s.log = some [] ∧
      (s.boards[0]?.map fun b => (b.emptyIndicator, b.eventState)) = some (.empty, .up) ∧
      ¬ Agrees s := by
  refine ⟨_, rfl, rfl, rfl, ?_⟩
  intro hagrees
  have hoccupied := (hagrees.indicator 0 _ rfl).mpr rfl
  exact absurd hoccupied (by decide)

end Arinc.Blackboard
