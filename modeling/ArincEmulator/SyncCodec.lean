import ArincEmulator.Lib.Memory

/- The messages between module managers on the wire. `TO_SERIAL_BUFFER` and
   `FROM_SERIAL_BUFFER` copy the five fields one behind the other, each with an
   offset of its own that it moves on as it goes.

   What is proved: the fields lie in disjoint ranges that make up the buffer
   (`existsUnique_field`), both functions put every field into its range and take it
   from there (`toSerialBuffer_at`, `fromSerialBuffer_at`), and each of them undoes
   the other, for every message and every buffer (`sync_codec`). -/
namespace Arinc.SyncCodec
open Memory

abbrev Byte := BitVec 8

/-- `MAX_NAME_LENGTH`, the size of `NAME_TYPE`. -/
abbrev nameSize : Nat := 100

/-- `SocketSynchronizationMessageType`. The type of the message is the word of its
    enumeration, which both functions copy as it is. -/
@[ext]
structure Message where
  sync : BitVec (8 * 4)
  messageSrcModule : Fin nameSize → Byte
  messageDstModule : Fin nameSize → Byte
  nanosecondsToWait : BitVec (8 * 8)
  seqId : BitVec (8 * 8)

/-- `SyncTypeSize`. -/
abbrev syncTypeSize : Nat := 4 + nameSize + nameSize + 8 + 8

/-- `SERIAL_BUFFER_TYPE`. -/
abbrev SerialBuffer := Fin syncTypeSize → Byte

/-- `TO_SERIAL_BUFFER`. -/
def toSerialBuffer (serialBuffer : SerialBuffer) (message : Message) : SerialBuffer :=
  let buffer := ofArray serialBuffer 0#8
  let written := 0
  let buffer := copy buffer 0 (bytes message.sync) 4
  let written := written + 4
  let buffer := copy buffer written (ofArray message.messageSrcModule 0#8) nameSize
  let written := written + nameSize
  let buffer := copy buffer written (ofArray message.messageDstModule 0#8) nameSize
  let written := written + nameSize
  let buffer := copy buffer written (bytes message.nanosecondsToWait) 8
  let written := written + 8
  let buffer := copy buffer written (bytes message.seqId) 8
  array buffer 0 syncTypeSize

/-- `FROM_SERIAL_BUFFER`, into a message that holds anything. -/
def fromSerialBuffer (message : Message) (serialBuffer : SerialBuffer) : Message :=
  let buffer := ofArray serialBuffer 0#8
  let written := 0
  let message := { message with sync := word buffer 0 4 }
  let written := written + 4
  let message := { message with messageSrcModule := array buffer written nameSize }
  let written := written + nameSize
  let message := { message with messageDstModule := array buffer written nameSize }
  let written := written + nameSize
  let message := { message with nanosecondsToWait := word buffer written 8 }
  let written := written + 8
  { message with seqId := word buffer written 8 }

/-! ## The fields -/

/-- The fields of a message. -/
inductive Field where
  | sync
  | messageSrcModule
  | messageDstModule
  | nanosecondsToWait
  | seqId
  deriving DecidableEq, Repr

namespace Field

/-- Where a field begins. -/
def offset : Field → Nat
  | .sync => 0
  | .messageSrcModule => 4
  | .messageDstModule => 104
  | .nanosecondsToWait => 204
  | .seqId => 212

/-- How many bytes it takes. -/
def size : Field → Nat
  | .sync => 4
  | .messageSrcModule | .messageDstModule => nameSize
  | .nanosecondsToWait | .seqId => 8

/-- Its bytes in a message. -/
def contents (m : Message) : Field → Nat → Byte
  | .sync => bytes m.sync
  | .messageSrcModule => ofArray m.messageSrcModule 0#8
  | .messageDstModule => ofArray m.messageDstModule 0#8
  | .nanosecondsToWait => bytes m.nanosecondsToWait
  | .seqId => bytes m.seqId

/-- Byte `j` of the buffer is one of the field's. -/
def Covers (f : Field) (j : Nat) : Prop := f.offset ≤ j ∧ j < f.offset + f.size

theorem offset_add_lt (f : Field) {i : Nat} (hi : i < f.size) : f.offset + i < syncTypeSize := by
  cases f <;> simp only [size, offset, syncTypeSize, nameSize] at hi ⊢ <;> omega

end Field

/-- The ranges are disjoint and cover the buffer. -/
theorem existsUnique_field {j : Nat} (hj : j < syncTypeSize) : ∃! f : Field, f.Covers j := by
  have hdisjoint (f g : Field) (hf : f.Covers j) (hg : g.Covers j) : f = g := by
    cases f <;> cases g <;> first
      | rfl
      | (simp only [Field.Covers, Field.offset, Field.size, nameSize] at hf hg; omega)
  have hcover : ∃ f : Field, f.Covers j := by
    by_contra hnone
    have hsync := not_exists.mp hnone .sync
    have hsrc := not_exists.mp hnone .messageSrcModule
    have hdst := not_exists.mp hnone .messageDstModule
    have hwait := not_exists.mp hnone .nanosecondsToWait
    have hseq := not_exists.mp hnone .seqId
    simp only [Field.Covers, Field.offset, Field.size, nameSize] at hsync hsrc hdst hwait hseq
    simp only [syncTypeSize, nameSize] at hj
    omega
  obtain ⟨f, hf⟩ := hcover
  exact ⟨f, hf, fun g hg => hdisjoint g f hg hf⟩

theorem message_ext {m m' : Message}
    (h : ∀ (f : Field), ∀ i < f.size, f.contents m i = f.contents m' i) : m = m' := by
  have hname (cells cells' : Fin nameSize → Byte)
      (hcells : ∀ i < nameSize, ofArray cells 0#8 i = ofArray cells' 0#8 i) : cells = cells' := by
    funext i
    have hi := hcells i i.isLt
    rwa [ofArray_of_lt i.isLt, ofArray_of_lt i.isLt] at hi
  ext1
  · exact bytes_inj (h .sync)
  · exact hname _ _ (h .messageSrcModule)
  · exact hname _ _ (h .messageDstModule)
  · exact bytes_inj (h .nanosecondsToWait)
  · exact bytes_inj (h .seqId)

theorem toSerialBuffer_at (serialBuffer : SerialBuffer) (m : Message) (f : Field) {i : Nat}
    (hi : i < f.size) :
    toSerialBuffer serialBuffer m ⟨f.offset + i, f.offset_add_lt hi⟩ = f.contents m i := by
  simp only [toSerialBuffer, array, nameSize, Nat.zero_add]
  -- the copies behind a field's own leave it alone
  cases f with
  | sync =>
    have hi : i < 4 := hi
    simp only [Field.offset]
    rw [copy_outside (by omega), copy_outside (by omega), copy_outside (by omega),
      copy_outside (by omega)]
    exact copy_inside hi
  | messageSrcModule =>
    have hi : i < 100 := hi
    simp only [Field.offset]
    rw [copy_outside (by omega), copy_outside (by omega), copy_outside (by omega)]
    exact copy_inside hi
  | messageDstModule =>
    have hi : i < 100 := hi
    simp only [Field.offset]
    rw [copy_outside (by omega), copy_outside (by omega)]
    exact copy_inside hi
  | nanosecondsToWait =>
    have hi : i < 8 := hi
    simp only [Field.offset]
    rw [copy_outside (by omega)]
    exact copy_inside hi
  | seqId => exact copy_inside hi

theorem fromSerialBuffer_at (old : Message) (serialBuffer : SerialBuffer) (f : Field) {i : Nat}
    (hi : i < f.size) :
    f.contents (fromSerialBuffer old serialBuffer) i =
      serialBuffer ⟨f.offset + i, f.offset_add_lt hi⟩ := by
  rw [← ofArray_of_lt (f.offset_add_lt hi) serialBuffer 0#8]
  cases f with
  | sync => exact bytes_word (n := 4) _ 0 hi
  | messageSrcModule => exact ofArray_of_lt hi _ _
  | messageDstModule => exact ofArray_of_lt hi _ _
  | nanosecondsToWait => exact bytes_word (n := 8) _ 204 hi
  | seqId => exact bytes_word (n := 8) _ 212 hi

/-- For every message, whatever the buffer held, and every buffer, whatever the message
    held: decoding undoes encoding and encoding undoes decoding, and each byte of the
    buffer is that of one field alone, the same one in both functions. -/
theorem sync_codec (m old : Message) (serialBuffer before : SerialBuffer) :
    fromSerialBuffer old (toSerialBuffer before m) = m ∧
      toSerialBuffer before (fromSerialBuffer old serialBuffer) = serialBuffer ∧
      (∀ j < syncTypeSize, ∃! f : Field, f.Covers j) ∧
      ∀ (f : Field) (i : Nat) (hi : i < f.size),
        toSerialBuffer before m ⟨f.offset + i, f.offset_add_lt hi⟩ = f.contents m i ∧
          f.contents (fromSerialBuffer old serialBuffer) i =
            serialBuffer ⟨f.offset + i, f.offset_add_lt hi⟩ := by
  refine ⟨?_, ?_, fun j hj => existsUnique_field hj, ?_⟩
  · apply message_ext
    intro f i hi
    rw [fromSerialBuffer_at old _ f hi, toSerialBuffer_at before m f hi]
  · funext j
    obtain ⟨f, ⟨hle, hlt⟩, -⟩ := existsUnique_field j.isLt
    have hi : j.val - f.offset < f.size := by omega
    have hj : j = ⟨f.offset + (j.val - f.offset), f.offset_add_lt hi⟩ :=
      Fin.ext (Nat.add_sub_cancel' hle).symm
    rw [hj, toSerialBuffer_at before _ f hi, fromSerialBuffer_at old serialBuffer f hi]
  · intro f i hi
    exact ⟨toSerialBuffer_at before m f hi, fromSerialBuffer_at old serialBuffer f hi⟩

end Arinc.SyncCodec
