import ArincEmulator.StateVariable
import ArincEmulator.Lib.Memory

/- Checkpoints of a state variable. `CHECKPOINT` writes a header, the latest value
   and its time; `RESTORE` empties the variable, compares the header with the length
   it is given and with the size of the whole, and only then reads.

   What is proved: the writer and the reader agree on where the value and the time
   lie (`checkpoint_written`), but not on what the header counts. The writer leaves
   its own eight bytes out, the reader asks for them, so no variable is ever
   restored: every `RESTORE` of what `CHECKPOINT` wrote answers INVALID_CONFIG and
   leaves its variable empty (`restore_never_round_trips`).

   Nor is a `RESTORE` that fails without effect. `CHECKPOINT` and `UNSET_LAST_SAMPLE`
   check first and change afterwards; `RESTORE` empties the variable and checks then,
   so a rejected buffer costs the samples, if there were any
   (`failedRestoreKeeps_iff`). -/
namespace Arinc.StateVariable
open Memory

/-- How the objects of a type lie in memory. No object is larger than half of it. -/
structure Layout (T : Type) where
  size : Nat
  size_lt : size < 2 ^ 63
  encode : T → Nat → BitVec 8
  decode : (Nat → BitVec 8) → T
  decode_encode : ∀ m t, (∀ i < size, m i = encode t i) → decode m = t

variable {T : Type}

/-- `sizeof(APEX_INTEGER)`. -/
def sizeofApexInteger : Nat := 8

/-- `sizeof(SYSTEM_TIME_TYPE)`. -/
def sizeofSystemTime : Nat := 8

/-- `sizeof(T) + sizeof(SYSTEM_TIME_TYPE) + sizeof(APEX_INTEGER)`. -/
def Layout.total (L : Layout T) : BitVec 64 :=
  BitVec.ofNat 64 (L.size + sizeofSystemTime + sizeofApexInteger)

/-- What a `CHECKPOINT` leaves. -/
structure Written where
  returnCode : ReturnCode
  lengthWritten : BitVec 64
  message : Nat → BitVec 8

/-- `CHECKPOINT`. `MAX_LENGTH` is compared with a sum of sizes, as an unsigned number. -/
def checkpoint (L : Layout T) (v : StateVariable T) (message : Nat → BitVec 8)
    (maxLength : BitVec 64) : Written :=
  if maxLength.toNat < L.total.toNat then ⟨.invalidConfig, 0, message⟩
  else
    match v.getWithTime 0 with
    | (code, none) => ⟨code, 0, message⟩
    | (code, some (outData, timeval)) =>
      let length : BitVec 64 := BitVec.ofNat 64 (L.size + sizeofSystemTime)
      let message := copy message 0 (bytes length) sizeofApexInteger
      let written := sizeofApexInteger
      let message := copy message written (L.encode outData) L.size
      let written := written + L.size
      let message := copy message written (bytes (BitVec.ofInt 64 timeval)) sizeofSystemTime
      ⟨code, BitVec.ofNat 64 (written + sizeofSystemTime), message⟩

/-- `RESTORE`, with the clock as `SET` reads it. -/
def restore (L : Layout T) (v : StateVariable T) (message : Nat → BitVec 8) (length : BitVec 64)
    (clock : Int) : ReturnCode × StateVariable T :=
  let v := v.reset.2
  let lengthr : BitVec 64 := word message 0 sizeofApexInteger
  if lengthr ≠ length then (.invalidConfig, v)
  else if lengthr ≠ L.total then (.invalidConfig, v)
  else
    let indata := L.decode fun i => message (sizeofApexInteger + i)
    let timeval : BitVec 64 := word message (sizeofApexInteger + L.size) sizeofSystemTime
    (.noError, v.setAt indata timeval.toInt clock)

/-- What `v` writes is restored into `w`: the call succeeds, and the latest value and
    its time are those of `v`. -/
def RoundTrips (L : Layout T) (v w : StateVariable T) (message : Nat → BitVec 8)
    (maxLength : BitVec 64) (clock : Int) : Prop :=
  let written := v.checkpoint L message maxLength
  let restored := w.restore L written.message written.lengthWritten clock
  restored.1 = .noError ∧ restored.2.getWithTime 0 = v.getWithTime 0

/-- The header is the length passed, and counts the whole. -/
def HeaderFits (L : Layout T) (message : Nat → BitVec 8) (length : BitVec 64) : Prop :=
  let lengthr : BitVec 64 := word message 0 sizeofApexInteger
  lengthr = length ∧ lengthr = L.total

/-- A `RESTORE` that does not succeed leaves the samples as they were. -/
def FailedRestoreKeeps (L : Layout T) (v : StateVariable T) (message : Nat → BitVec 8)
    (length : BitVec 64) (clock : Int) : Prop :=
  (v.restore L message length clock).1 ≠ .noError →
    (v.restore L message length clock).2.values = v.values

/-! ## What is written -/

/-- A `CHECKPOINT` leaves the buffer alone and writes the length 0, or writes all three
    parts: the header counts the two behind it, and the value and the time lie where
    `RESTORE` reads them. -/
theorem checkpoint_written (L : Layout T) (v : StateVariable T) (message : Nat → BitVec 8)
    (maxLength : BitVec 64) :
    (v.checkpoint L message maxLength).lengthWritten = 0 ∧
        (v.checkpoint L message maxLength).message = message ∨
      ∃ outData timeval, (v.getWithTime 0).2 = some (outData, timeval) ∧
        (v.checkpoint L message maxLength).lengthWritten = L.total ∧
        word (v.checkpoint L message maxLength).message 0 sizeofApexInteger =
          BitVec.ofNat 64 (L.size + sizeofSystemTime) ∧
        L.decode (fun i => (v.checkpoint L message maxLength).message (sizeofApexInteger + i)) =
          outData ∧
        word (v.checkpoint L message maxLength).message (sizeofApexInteger + L.size)
          sizeofSystemTime = BitVec.ofInt 64 timeval := by
  unfold checkpoint
  split
  · exact Or.inl ⟨rfl, rfl⟩
  cases hget : v.getWithTime 0 with
  | mk code out =>
    cases out with
    | none => exact Or.inl ⟨rfl, rfl⟩
    | some item =>
      obtain ⟨outData, timeval⟩ := item
      refine Or.inr ⟨outData, timeval, rfl, ?_, ?_, ?_, ?_⟩
      · simp only [Layout.total, sizeofApexInteger, sizeofSystemTime]
        congr 1
        omega
      -- The value and the time are copied behind the header and do not touch it.
      · show word (copy _ (8 + L.size) _ 8) 0 8 = _
        rw [word_copy_of_apart (by omega), word_copy_of_apart (Or.inl (Nat.le_refl 8))]
        exact word_copy (n := 8) _
      · apply L.decode_encode
        intro i hi
        show copy _ (8 + L.size) _ 8 (8 + i) = _
        rw [copy_outside (by omega)]
        exact copy_inside hi
      · exact word_copy (n := 8) _

/-! ## What is restored -/

theorem header_ne_total (L : Layout T) :
    BitVec.ofNat 64 (L.size + sizeofSystemTime) ≠ L.total := by
  intro heq
  have hnat := congrArg BitVec.toNat heq
  have hlt := L.size_lt
  simp only [Layout.total, sizeofSystemTime, sizeofApexInteger, BitVec.toNat_ofNat] at hnat
  omega

theorem total_ne_zero (L : Layout T) : L.total ≠ 0 := by
  intro heq
  have hnat : L.total.toNat = 0 := congrArg BitVec.toNat heq
  have hlt := L.size_lt
  simp only [Layout.total, sizeofSystemTime, sizeofApexInteger, BitVec.toNat_ofNat] at hnat
  omega

/-- What `CHECKPOINT` wrote, `RESTORE` refuses. -/
theorem restore_checkpoint (L : Layout T) (v w : StateVariable T) (message : Nat → BitVec 8)
    (maxLength : BitVec 64) (clock : Int) :
    w.restore L (v.checkpoint L message maxLength).message
        (v.checkpoint L message maxLength).lengthWritten clock = (.invalidConfig, w.reset.2) := by
  unfold restore
  obtain ⟨hlength, -⟩ | ⟨-, -, -, hlength, hheader, -, -⟩ :=
    v.checkpoint_written L message maxLength
  · -- nothing was written: the length is 0, and not that of a checkpoint
    by_cases hzero : word (v.checkpoint L message maxLength).message 0 sizeofApexInteger =
        (v.checkpoint L message maxLength).lengthWritten
    · simp only [hzero, hlength, ne_eq, not_true_eq_false, if_false]
      exact if_pos (total_ne_zero L).symm
    · exact if_pos hzero
  · rw [hheader, hlength]
    exact if_pos (header_ne_total L)

/-- For every type, every state, buffer and length, and whatever variable it is restored
    into: a checkpoint does not round trip. The call answers INVALID_CONFIG and the
    variable is left empty. -/
theorem restore_never_round_trips (L : Layout T) (v w : StateVariable T)
    (message : Nat → BitVec 8) (maxLength : BitVec 64) (clock : Int) :
    ¬ RoundTrips L v w message maxLength clock := by
  intro hround
  have hcode : (w.restore L (v.checkpoint L message maxLength).message
      (v.checkpoint L message maxLength).lengthWritten clock).1 = .noError := hround.1
  rw [restore_checkpoint] at hcode
  cases hcode

/-! ## What a failure leaves -/

variable {L : Layout T} {message : Nat → BitVec 8} {length : BitVec 64}

theorem restore_of_fits (h : HeaderFits L message length) (v : StateVariable T) (clock : Int) :
    (v.restore L message length clock).1 = .noError := by
  have hrestore : v.restore L message length clock = (.noError, _) :=
    (if_neg (not_not_intro h.1)).trans (if_neg (not_not_intro h.2))
  rw [hrestore]

/-- Every rejecting branch comes after the `RESET`. -/
theorem restore_of_not_fits (h : ¬ HeaderFits L message length) (v : StateVariable T)
    (clock : Int) : v.restore L message length clock = (.invalidConfig, v.reset.2) := by
  by_cases hlength : (word message 0 sizeofApexInteger : BitVec 64) = length
  · exact (if_neg (not_not_intro hlength)).trans (if_pos fun htotal => h ⟨hlength, htotal⟩)
  · exact if_pos hlength

/-- For every buffer, length and variable: a failed `RESTORE` keeps the samples if and only
    if the header fits, so that it does not fail, or there is no sample to lose. -/
theorem failedRestoreKeeps_iff (L : Layout T) (v : StateVariable T) (message : Nat → BitVec 8)
    (length : BitVec 64) (clock : Int) :
    FailedRestoreKeeps L v message length clock ↔
      HeaderFits L message length ∨ v.values = [] := by
  by_cases hfits : HeaderFits L message length
  · exact iff_of_true (fun hfailed => absurd (restore_of_fits hfits v clock) hfailed) (Or.inl hfits)
  have hrestore := restore_of_not_fits hfits v clock
  have hkeeps : FailedRestoreKeeps L v message length clock ↔ [] = v.values := by
    unfold FailedRestoreKeeps
    rw [hrestore]
    exact forall_prop_of_true (by simp)
  rw [hkeeps, or_iff_right hfits]
  exact eq_comm

/-- A byte. -/
def byteLayout : Layout (BitVec 8) where
  size := 1
  size_lt := by decide
  encode := fun t _ => t
  decode := fun m => m 0
  decode_encode := fun _ _ h => h 0 Nat.one_pos

/-- A variable of one sample. -/
def oneSample : StateVariable (BitVec 8) := (create 2).set 7#8 100

/-- It is written in full, with a header of 9 where 17 bytes were written, and is not
    restored. -/
theorem oneSample_not_restored :
    (oneSample.checkpoint byteLayout (fun _ => 0#8) 100#64).returnCode = .noError ∧
      (oneSample.checkpoint byteLayout (fun _ => 0#8) 100#64).lengthWritten = 17#64 ∧
      word (oneSample.checkpoint byteLayout (fun _ => 0#8) 100#64).message 0 8 = 9#64 ∧
      ¬ RoundTrips byteLayout oneSample (create 2) (fun _ => 0#8) 100#64 200 := by
  refine ⟨by decide, by decide, by decide, ?_⟩
  intro hround
  exact absurd hround.1 (by decide)

/-- A buffer of zeros with the length 1 is rejected, and the sample is gone. -/
theorem oneSample_lost :
    (oneSample.restore byteLayout (fun _ => 0#8) 1#64 200).1 = .invalidConfig ∧
      oneSample.values = [⟨7#8, 100⟩] ∧
      (oneSample.restore byteLayout (fun _ => 0#8) 1#64 200).2.values = [] ∧
      ¬ FailedRestoreKeeps byteLayout oneSample (fun _ => 0#8) 1#64 200 := by
  refine ⟨by decide, by decide, by decide, ?_⟩
  intro hkeeps
  exact absurd (hkeeps (by decide)) (by decide)

end Arinc.StateVariable
