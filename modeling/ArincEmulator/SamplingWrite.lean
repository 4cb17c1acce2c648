import ArincEmulator.SamplingFreshness

/- A write to a sampling port, step by step. `WRITE_SAMPLING_MESSAGE` checks its
   arguments, takes the mutex of the port object and writes the time, the size and then
   the bytes of the message into the shared memory. The mutex keeps the other threads of
   the partition out and nobody else: a process that is stopped in the middle leaves the
   memory as it is at that point.

   What is proved:
     1. `run_write`: a write that nothing interrupts leaves what the service leaves as a
        function of the port.
     2. `writeStep_cases`: a step of a write is refused, or it carries the write on, or
        it ends it, and then the memory holds the message. -/
namespace Arinc.SamplingPacket
open Memory Runs

/-- A write that has the mutex and has written its time: the message, and how many of
    its bytes are copied, if its size is written. -/
structure Writing where
  message : SamplingData
  copied : Option Nat

/-- The shared memory of a port, and the write that has the mutex of the port object. -/
structure WriterSide where
  sharedMemory : SamplingData
  writing : Option Writing

/-- The steps of a write. -/
inductive WriteStep where
  | start (now : NanoTime) (msgPtr : Nat → Byte) (length : BitVec 64)
  | messageSize
  | memcpy
  | finish

/-- A step of a write by the port object `p`, with the message it completes; `none`
    where the write has to wait for the mutex, or is not there. -/
def writeStep (p : SamplingPort) (s : WriterSide) (step : WriteStep) :
    Option (WriterSide × Option SamplingData) :=
  match step, s.writing with
  | .start now msgPtr length, writing =>
    ({ p with sharedMemory := s.sharedMemory }.writeSamplingMessage now msgPtr length).bind
      fun written =>
        if written.1 ≠ ReturnCode.noError then some (s, none)
        else if writing.isSome then none
        else
          some (⟨{ s.sharedMemory with absoluteTimeWritten := now },
            some ⟨⟨now, length, msgPtr⟩, none⟩⟩, none)
  | .messageSize, some ⟨message, none⟩ =>
    some (⟨{ s.sharedMemory with messageSize := message.messageSize }, some ⟨message, some 0⟩⟩,
      none)
  | .memcpy, some ⟨message, some k⟩ =>
    if k < message.count then
      some (⟨{ s.sharedMemory with data := Function.update s.sharedMemory.data k (message.data k) },
        some ⟨message, some (k + 1)⟩⟩, none)
    else none
  | .finish, some ⟨message, some k⟩ =>
    if k = message.count then some (⟨s.sharedMemory, none⟩, some message) else none
  | _, _ => none

/-- What is there of a message whose write has come to a point. -/
structure Writing.Progress (w : Writing) (memory : SamplingData) : Prop where
  clock : 0 ≤ w.message.absoluteTimeWritten.toInt
  time : memory.absoluteTimeWritten = w.message.absoluteTimeWritten
  sized : ∀ k, w.copied = some k → memory.messageSize = w.message.messageSize ∧
    read memory.data 0 k = read w.message.data 0 k

section
variable {p : SamplingPort} {s : WriterSide}

/-! ## A write that nothing interrupts -/

/-- The steps of a write, as a run takes them. -/
def writerStep (p : SamplingPort) (s : WriterSide) (step : WriteStep) : Option WriterSide :=
  (writeStep p s step).map Prod.fst

theorem run_memcpy (p : SamplingPort) {message : SamplingData} (memory : SamplingData) {k n : Nat}
    (h : k + n ≤ message.count) :
    run (writerStep p) ⟨memory, some ⟨message, some k⟩⟩ (List.replicate n .memcpy) =
      some ⟨{ memory with data := copy memory.data k (fun i => message.data (k + i)) n },
        some ⟨message, some (k + n)⟩⟩ := by
  induction n generalizing k memory with
  | zero =>
    rw [List.replicate_zero, run_nil, copy_zero]
    rfl
  | succ n ih =>
    have hstep : writerStep p ⟨memory, some ⟨message, some k⟩⟩ .memcpy =
        some ⟨{ memory with data := Function.update memory.data k (message.data k) },
          some ⟨message, some (k + 1)⟩⟩ := by
      simp only [writerStep, writeStep, if_pos (show k < message.count by omega), Option.map_some]
    rw [List.replicate_succ, run_cons, hstep, Option.bind_some, ih _ (by omega), copy_succ,
      show k + 1 + n = k + (n + 1) by omega]

/-- **A write that nothing interrupts is the service.** -/
theorem run_write {now : NanoTime} {msgPtr : Nat → Byte} {length : BitVec 64} {q : SamplingPort}
    (h : { p with sharedMemory := s.sharedMemory }.writeSamplingMessage now msgPtr length =
      some (.noError, q)) (hfree : s.writing = none) :
    run (writerStep p) s (.start now msgPtr length :: .messageSize ::
        (List.replicate length.toNat .memcpy ++ [.finish])) = some ⟨q.sharedMemory, none⟩ := by
  obtain ⟨memory, writing⟩ := s
  obtain rfl : writing = none := hfree
  have hstart : writerStep p ⟨memory, none⟩ (.start now msgPtr length) =
      some ⟨{ memory with absoluteTimeWritten := now }, some ⟨⟨now, length, msgPtr⟩, none⟩⟩ := by
    simp only [writerStep, writeStep]
    rw [h]
    rfl
  obtain ⟨hcode, -⟩ | ⟨-, -, -, rfl⟩ := SamplingPort.writeSamplingMessage_cases h
  · exact absurd rfl hcode
  have hsize : writerStep p ⟨{ memory with absoluteTimeWritten := now },
        some ⟨⟨now, length, msgPtr⟩, none⟩⟩ .messageSize =
      some ⟨⟨now, length, memory.data⟩, some ⟨⟨now, length, msgPtr⟩, some 0⟩⟩ := rfl
  have hall : 0 + length.toNat ≤ (⟨now, length, msgPtr⟩ : SamplingData).count := by
    simp [SamplingData.count]
  rw [run_cons, hstart, Option.bind_some, run_cons, hsize, Option.bind_some, run_append,
    run_memcpy p _ hall, Option.bind_some, run_cons]
  simp [writerStep, writeStep, SamplingData.count]

/-! ## A write at any point -/

theorem read_copied {data source : Nat → Byte} {k : Nat} (h : read data 0 k = read source 0 k) :
    read (Function.update data k (source k)) 0 (k + 1) = read source 0 (k + 1) := by
  have hkept : ∀ i < k, data (0 + i) = source (0 + i) := read_inj h
  apply read_congr
  intro i hi
  by_cases hik : i = k
  · rw [hik, Nat.zero_add, Function.update_self]
  · rw [Nat.zero_add, Function.update_of_ne hik]
    have hbefore := hkept i (by omega)
    rwa [Nat.zero_add] at hbefore

/-- A step of a write leaves everything alone, or it carries the write on, or it ends
    it, when all of the message is there. -/
theorem writeStep_cases {step : WriteStep} {r : WriterSide × Option SamplingData}
    (h : writeStep p s step = some r) :
    r = (s, none) ∨
    (∃ w, r.1.writing = some w ∧ r.2 = none ∧
      ((∀ w', s.writing = some w' → w'.Progress s.sharedMemory) →
        w.Progress r.1.sharedMemory)) ∨
    ∃ message, s.writing = some ⟨message, some message.count⟩ ∧
      r = (⟨s.sharedMemory, none⟩, some message) := by
  obtain ⟨memory, writing⟩ := s
  cases step with
  | start now msgPtr length =>
    simp only [writeStep] at h
    obtain ⟨written, -, h⟩ := Option.bind_eq_some_iff.mp h
    split at h
    · exact Or.inl (Option.some.inj h).symm
    split at h
    · cases h
    obtain rfl := Option.some.inj h
    refine Or.inr (Or.inl ⟨_, rfl, rfl, fun _ => ⟨now.property, rfl, fun k hk => ?_⟩⟩)
    cases hk
  | messageSize =>
    obtain _ | ⟨message, _ | k⟩ := writing
    · cases h
    · obtain rfl := Option.some.inj h
      refine Or.inr (Or.inl ⟨_, rfl, rfl, fun hw => ?_⟩)
      obtain ⟨hclock, htime, -⟩ := hw _ rfl
      refine ⟨hclock, htime, fun k hk => ?_⟩
      obtain rfl := Option.some.inj hk
      exact ⟨rfl, rfl⟩
    · cases h
  | memcpy =>
    obtain _ | ⟨message, _ | k⟩ := writing
    · cases h
    · cases h
    obtain ⟨-, h⟩ := Option.ite_none_right_eq_some.mp h
    obtain rfl := Option.some.inj h
    refine Or.inr (Or.inl ⟨_, rfl, rfl, fun hw => ?_⟩)
    obtain ⟨hclock, htime, hsized⟩ := hw _ rfl
    obtain ⟨hsize, hread⟩ := hsized k rfl
    refine ⟨hclock, htime, fun k' hk => ?_⟩
    obtain rfl := Option.some.inj hk
    exact ⟨hsize, read_copied hread⟩
  | finish =>
    obtain _ | ⟨message, _ | k⟩ := writing
    · cases h
    · cases h
    obtain ⟨rfl, h⟩ := Option.ite_none_right_eq_some.mp h
    exact Or.inr (Or.inr ⟨message, rfl, (Option.some.inj h).symm⟩)

end

end Arinc.SamplingPacket
