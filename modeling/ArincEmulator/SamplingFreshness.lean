import ArincEmulator.Lib.Runs
import ArincEmulator.SamplingPacket

/- Sampling within a module. A partition writes the source port of a channel, the
   module moves its contents to the destinations, and other partitions read those.
   The time of the write travels with the message, and each reader compares the age
   it finds with a refresh period of its own.

   What is proved, for any sequence of writes, moves and reads (`sampling_fresh`):
   after a move every destination holds what the source holds; and a read behind a
   write and a move returns the message moved last, valid just when no more time
   than the reader's refresh period has passed since it was written. A move, or
   many, leaves the time of the write as it was. -/
namespace Arinc.SamplingPacket
open Memory Runs

/-! ## Writing and reading a port -/

/-- What `currentTimeInNanoSeconds` returns: the nanoseconds since the epoch. -/
abbrev NanoTime := { t : BitVec 64 // 0 ≤ t.toInt }

/-- `VALIDITY_TYPE`. -/
inductive Validity where
  | invalid
  | valid
  deriving DecidableEq, Repr

/-- The fields of a `SAMPLING_PORT_HELPER` that only its reader uses. -/
structure Reader where
  refreshPeriod : Int
  lastValidity : Validity
  deriving DecidableEq, Repr

/-- What `READ_SAMPLING_MESSAGE` leaves; `none` where it does not write to its out
    parameter. -/
structure Reading where
  returnCode : ReturnCode
  length : Option (BitVec 64)
  validity : Option Validity
  msgPtr : Nat → Byte
  reader : Reader

namespace SamplingPort

/-- `WRITE_SAMPLING_MESSAGE`; `none` where a negative length reaches `memcpy`. -/
def writeSamplingMessage (p : SamplingPort) (now : NanoTime) (msgPtr : Nat → Byte)
    (length : BitVec 64) : Option (ReturnCode × SamplingPort) :=
  if p.readyOrNot = false then some (.invalidMode, p)
  else if p.portDirection = .portDest then some (.invalidMode, p)
  else if p.maxMessageSize < length.toInt then some (.invalidConfig, p)
  else if length.toInt < 0 then none
  else
    some (.noError, { p with
      sharedMemory := ⟨now, length, copy p.sharedMemory.data 0 msgPtr length.toNat⟩ })

/-- `READ_SAMPLING_MESSAGE`. -/
def readSamplingMessage (p : SamplingPort) (reader : Reader) (now : NanoTime)
    (msgPtr : Nat → Byte) : Reading :=
  if p.readyOrNot = false then ⟨.invalidMode, none, none, msgPtr, reader⟩
  else if p.portDirection = .portSource then ⟨.invalidMode, none, none, msgPtr, reader⟩
  else
    let s := p.sharedMemory
    if s.messageSize = 0 then ⟨.noAction, some s.messageSize, some .invalid, msgPtr, reader⟩
    else
      let msgPtr := copy msgPtr 0 s.data s.count
      let age := now.val - s.absoluteTimeWritten
      let validity := if reader.refreshPeriod < age.toInt then .invalid else .valid
      ⟨.noError, some s.messageSize, some validity, msgPtr,
        { reader with lastValidity := validity }⟩

theorem writeSamplingMessage_cases {p q : SamplingPort} {now : NanoTime} {msgPtr : Nat → Byte}
    {length : BitVec 64} {code : ReturnCode}
    (h : p.writeSamplingMessage now msgPtr length = some (code, q)) :
    (code ≠ .noError ∧ q = p) ∨
      code = .noError ∧ 0 ≤ length.toInt ∧ length.toInt ≤ p.maxMessageSize ∧ q = { p with
        sharedMemory := ⟨now, length, copy p.sharedMemory.data 0 msgPtr length.toNat⟩ } := by
  have refused {c : ReturnCode} (hc : c ≠ .noError) (h : some (c, p) = some (code, q)) :
      code ≠ .noError ∧ q = p := by
    obtain ⟨rfl, rfl⟩ := Prod.mk.inj (Option.some.inj h)
    exact ⟨hc, rfl⟩
  unfold writeSamplingMessage at h
  split at h
  · exact Or.inl (refused (by decide) h)
  split at h
  · exact Or.inl (refused (by decide) h)
  split at h
  · exact Or.inl (refused (by decide) h)
  rename_i hlong
  split at h
  · cases h
  rename_i hnegative
  obtain ⟨rfl, rfl⟩ := Prod.mk.inj (Option.some.inj h)
  exact Or.inr ⟨rfl, Int.not_lt.mp hnegative, Int.not_lt.mp hlong, rfl⟩

end SamplingPort

/-! ## The channel and its users -/

/-- A channel and the readers of its destinations. -/
structure SamplingSystem (U : Type*) where
  channel : SamplingChannel U
  readers : Nat → Reader

/-- A write to the source, a move, and a read of a destination. -/
inductive SamplingOp where
  | write (now : NanoTime) (msgPtr : Nat → Byte) (length : BitVec 64)
  | move
  | read (destination : Nat) (now : NanoTime) (msgPtr : Nat → Byte)

def SamplingOp.IsWrite : SamplingOp → Prop
  | .write _ _ _ => True
  | _ => False

def SamplingOp.IsMove : SamplingOp → Prop
  | .move => True
  | _ => False

namespace SamplingSystem

variable {U : Type*}

def step (s : SamplingSystem U) : SamplingOp → Option (SamplingSystem U)
  | .write now msgPtr length =>
    s.channel.sourcePort.bind fun p =>
      (p.writeSamplingMessage now msgPtr length).map fun written =>
        { s with channel := { s.channel with sourcePort := some written.2 } }
  | .move => (s.channel.moveMessages []).map fun moved => { s with channel := moved.channel }
  | .read j now msgPtr =>
    s.channel.destinationPortVector[j]?.map fun q =>
      { s with readers :=
          Function.update s.readers j (q.readSamplingMessage (s.readers j) now msgPtr).reader }

/-- A channel within the module with its source and with destinations of the same
    maximum size, as `ADD_SOURCE` and `ADD_DESTINATION` leave it. -/
structure Wired (s : SamplingSystem U) (maxMessageSize : Int) (refreshPeriod : Nat → Int) :
    Prop where
  initialized : s.channel.initialized = true
  receiver : s.channel.receiver = false
  source : ∃ p, s.channel.sourcePort = some p ∧ p.maxMessageSize = maxMessageSize ∧
    p.readyOrNot = true ∧ p.portDirection ≠ .portDest
  destinations : ∀ q ∈ s.channel.destinationPortVector, q.maxMessageSize = maxMessageSize ∧
    q.readyOrNot = true ∧ q.portDirection ≠ .portSource
  periods : ∀ j, (s.readers j).refreshPeriod = refreshPeriod j

/-- A write of some bytes, at most the maximum, and a read of a destination there is. -/
def Fits (s : SamplingSystem U) (maxMessageSize : Int) : SamplingOp → Prop
  | .write _ _ length => 0 < length.toInt ∧ length.toInt ≤ maxMessageSize
  | .move => True
  | .read j _ _ => j < s.channel.destinationPortVector.length

/-- The source holds a message. -/
def SourceHolds (s : SamplingSystem U) (m : SamplingData) : Prop :=
  ∃ p, s.channel.sourcePort = some p ∧ p.Holds m

/-- All destinations hold a message. -/
def DestinationsHold (s : SamplingSystem U) (m : SamplingData) : Prop :=
  ∀ q ∈ s.channel.destinationPortVector, q.Holds m

variable {s t : SamplingSystem U} {maxMessageSize : Int} {refreshPeriod : Nat → Int}

/-! ## One step -/

/-- With or without a socket, only the destinations change. -/
theorem moveFrom_channel (c : SamplingChannel U) (p : SamplingPort) (pending : List (List Byte)) :
    (c.moveFrom p pending).channel.initialized = c.initialized ∧
      (c.moveFrom p pending).channel.receiver = c.receiver ∧
      (c.moveFrom p pending).channel.sourcePort = c.sourcePort ∧
      (c.moveFrom p pending).channel.destinationPortVector =
        (c.destinationPortVector.map p.copyContentsVerbatim).map Prod.snd := by
  simp only [SamplingChannel.moveFrom]
  split
  · exact ⟨rfl, rfl, rfl, rfl⟩
  · exact ⟨rfl, rfl, rfl, rfl⟩

theorem Wired.move_eq (hw : s.Wired maxMessageSize refreshPeriod) {p : SamplingPort}
    (hp : s.channel.sourcePort = some p) (h : s.step .move = some t) :
    t.channel.initialized = true ∧ t.channel.receiver = false ∧ t.channel.sourcePort = some p ∧
      t.readers = s.readers ∧ t.channel.destinationPortVector =
        s.channel.destinationPortVector.map fun q => q.deliver p.sharedMemory := by
  obtain ⟨p', hp', hmax, -⟩ := hw.source
  obtain rfl : p = p' := Option.some.inj (hp.symm.trans hp')
  have hcopied : (s.channel.destinationPortVector.map p.copyContentsVerbatim).map Prod.snd =
      s.channel.destinationPortVector.map fun q => q.deliver p.sharedMemory := by
    rw [List.map_map]
    apply List.map_congr_left
    intro q hq
    have hsame : q.maxMessageSize = p.maxMessageSize := by rw [(hw.destinations q hq).1, hmax]
    rw [Function.comp_apply, SamplingPort.copyContentsVerbatim_eq hsame]
  obtain ⟨moved, hmoved, rfl⟩ := Option.map_eq_some_iff.mp h
  by_cases hnone : s.channel.destinationPortVector = [] ∧ s.channel.sender = false
  · -- a channel without destinations and without a socket does nothing
    rw [SamplingChannel.moveMessages_idle hw.initialized hw.receiver hp hnone] at hmoved
    obtain rfl := Option.some.inj hmoved
    exact ⟨hw.initialized, hw.receiver, hp, rfl, by simp [hnone.1]⟩
  · rw [SamplingChannel.moveMessages_from hw.initialized hw.receiver hp hnone] at hmoved
    obtain rfl := Option.some.inj hmoved
    obtain ⟨hinitialized, hreceiver, hsource, hdestinations⟩ := moveFrom_channel s.channel p []
    exact ⟨hinitialized.trans hw.initialized, hreceiver.trans hw.receiver, hsource.trans hp, rfl,
      hdestinations.trans hcopied⟩

theorem Wired.write_cases (hw : s.Wired maxMessageSize refreshPeriod) {now : NanoTime}
    {msgPtr : Nat → Byte} {length : BitVec 64} (h : s.step (.write now msgPtr length) = some t) :
    ∃ p, s.channel.sourcePort = some p ∧
      (maxMessageSize < length.toInt ∧ t = s ∨
        length.toInt ≤ maxMessageSize ∧ t = { s with channel := { s.channel with
          sourcePort := some { p with sharedMemory :=
            ⟨now, length, copy p.sharedMemory.data 0 msgPtr length.toNat⟩ } } }) := by
  obtain ⟨p, hp, rfl, hready, hdirection⟩ := hw.source
  refine ⟨p, hp, ?_⟩
  rw [step, hp, Option.bind_some, SamplingPort.writeSamplingMessage, if_neg (by simp [hready]),
    if_neg hdirection] at h
  split at h
  · rename_i hlong
    left
    obtain rfl := Option.some.inj h
    have hsame : { s.channel with sourcePort := some p } = s.channel := by rw [← hp]
    exact ⟨hlong, congrArg (fun c => { s with channel := c }) hsame⟩
  · rename_i hfits
    split at h
    · cases h
    · exact Or.inr ⟨Int.not_lt.mp hfits, (Option.some.inj h).symm⟩

theorem wired_step {op : SamplingOp} (hw : s.Wired maxMessageSize refreshPeriod)
    (h : s.step op = some t) : t.Wired maxMessageSize refreshPeriod := by
  cases op with
  | write now msgPtr length =>
    obtain ⟨p, hp, ⟨-, rfl⟩ | ⟨-, rfl⟩⟩ := hw.write_cases h
    · exact hw
    · obtain ⟨p', hp', hmax, hready, hdirection⟩ := hw.source
      obtain rfl : p = p' := Option.some.inj (hp.symm.trans hp')
      exact ⟨hw.initialized, hw.receiver, ⟨_, rfl, hmax, hready, hdirection⟩, hw.destinations,
        hw.periods⟩
  | move =>
    obtain ⟨p, hp, hsource⟩ := hw.source
    obtain ⟨hinitialized, hreceiver, hp', hreaders, hdelivered⟩ := hw.move_eq hp h
    refine ⟨hinitialized, hreceiver, ⟨p, hp', hsource⟩, ?_, ?_⟩
    · intro q hq
      rw [hdelivered] at hq
      obtain ⟨q₀, hq₀, rfl⟩ := List.mem_map.mp hq
      exact hw.destinations q₀ hq₀
    · rw [hreaders]
      exact hw.periods
  -- A read changes the validity that one reader remembers, and not its refresh period.
  | read j now msgPtr =>
    obtain ⟨q, -, rfl⟩ := Option.map_eq_some_iff.mp h
    refine ⟨hw.initialized, hw.receiver, hw.source, hw.destinations, fun i => ?_⟩
    show (Function.update s.readers j _ i).refreshPeriod = refreshPeriod i
    by_cases hi : i = j
    · subst hi
      rw [Function.update_self, ← hw.periods i]
      unfold SamplingPort.readSamplingMessage
      split
      · rfl
      · split
        · rfl
        · simp only
          split
          · rfl
          · rfl
    · rw [Function.update_of_ne hi]
      exact hw.periods i

/-- Only a write changes the source. -/
theorem Wired.source_step {op : SamplingOp} (hw : s.Wired maxMessageSize refreshPeriod)
    (hop : ¬ op.IsWrite) (h : s.step op = some t) :
    t.channel.sourcePort = s.channel.sourcePort := by
  cases op with
  | write now msgPtr length => exact absurd trivial hop
  | move =>
    obtain ⟨p, hp, -⟩ := hw.source
    obtain ⟨-, -, hp', -⟩ := hw.move_eq hp h
    rw [hp', hp]
  | read j now msgPtr =>
    obtain ⟨q, -, rfl⟩ := Option.map_eq_some_iff.mp h
    rfl

theorem Wired.destinations_step {op : SamplingOp} (hw : s.Wired maxMessageSize refreshPeriod)
    (hop : ¬ op.IsMove) (h : s.step op = some t) :
    t.channel.destinationPortVector = s.channel.destinationPortVector := by
  cases op with
  | write now msgPtr length =>
    obtain ⟨p, -, ⟨-, rfl⟩ | ⟨-, rfl⟩⟩ := hw.write_cases h
    · rfl
    · rfl
  | move => exact absurd trivial hop
  | read j now msgPtr =>
    obtain ⟨q, -, rfl⟩ := Option.map_eq_some_iff.mp h
    rfl

theorem Wired.write_holds (hw : s.Wired maxMessageSize refreshPeriod) {now : NanoTime}
    {msgPtr : Nat → Byte} {length : BitVec 64} (hlength : length.toInt ≤ maxMessageSize)
    (h : s.step (.write now msgPtr length) = some t) :
    t.SourceHolds ⟨now, length, msgPtr⟩ := by
  obtain ⟨p, -, ⟨hlong, -⟩ | ⟨-, rfl⟩⟩ := hw.write_cases h
  · exact absurd hlong (Int.not_lt.mpr hlength)
  · exact ⟨_, rfl, rfl, rfl, read_copy (Nat.le_refl length.toNat)⟩

theorem Wired.move_holds (hw : s.Wired maxMessageSize refreshPeriod) {m : SamplingData}
    (hm : s.SourceHolds m) (h : s.step .move = some t) : t.DestinationsHold m := by
  obtain ⟨p, hp, htime, hsize, hmessage⟩ := hm
  obtain ⟨-, -, -, -, hdelivered⟩ := hw.move_eq hp h
  have hcount : p.sharedMemory.count = m.count := congrArg BitVec.toNat hsize
  intro q hq
  rw [hdelivered] at hq
  obtain ⟨q₀, -, rfl⟩ := List.mem_map.mp hq
  have hheld := q₀.deliver_holds p.sharedMemory
  refine ⟨hheld.time.trans htime, hheld.size.trans hsize, ?_⟩
  rw [← hcount, hheld.message, hcount, hmessage]

/-! ## A read -/

/-- Between two readings of the clock nothing overflows. -/
theorem age_toInt {now written : BitVec 64} (hnow : 0 ≤ now.toInt) (hwritten : 0 ≤ written.toInt) :
    (now - written).toInt = now.toInt - written.toInt := by
  have hlt := now.toInt_lt
  have hlt' := written.toInt_lt
  rw [BitVec.toInt_sub]
  apply Int.bmod_eq_of_le
  · omega
  · omega

theorem readSamplingMessage_holds {q : SamplingPort} {m : SamplingData} (hm : q.Holds m)
    (hready : q.readyOrNot = true) (hdirection : q.portDirection ≠ .portSource)
    (hsize : 0 < m.messageSize.toInt) (htime : 0 ≤ m.absoluteTimeWritten.toInt) (reader : Reader)
    (now : NanoTime) (msgPtr : Nat → Byte) :
    (q.readSamplingMessage reader now msgPtr).returnCode = .noError ∧
      (q.readSamplingMessage reader now msgPtr).length = some m.messageSize ∧
      read (q.readSamplingMessage reader now msgPtr).msgPtr 0 m.count = read m.data 0 m.count ∧
      ((q.readSamplingMessage reader now msgPtr).validity = some .valid ↔
        now.val.toInt - m.absoluteTimeWritten.toInt ≤ reader.refreshPeriod) := by
  have hcount : q.sharedMemory.count = m.count := congrArg BitVec.toNat hm.size
  have hnonzero : ¬ m.messageSize = 0 := by
    rintro hzero
    rw [hzero] at hsize
    exact absurd hsize (by decide)
  simp only [SamplingPort.readSamplingMessage, hready, Bool.true_eq_false, if_false, hdirection,
    hm.size, hm.time, hnonzero, age_toInt now.property htime, true_and]
  refine ⟨?_, ?_⟩
  · rw [hcount, read_copy (Nat.le_refl m.count), hm.message]
  · by_cases hstale : reader.refreshPeriod < now.val.toInt - m.absoluteTimeWritten.toInt
    · rw [if_pos hstale]
      exact iff_of_false (by simp) (Int.not_le.mpr hstale)
    · rw [if_neg hstale]
      exact iff_of_true rfl (Int.not_lt.mp hstale)

/-! ## Runs -/

theorem Wired.length_step {op : SamplingOp} (hw : s.Wired maxMessageSize refreshPeriod)
    (h : s.step op = some t) :
    t.channel.destinationPortVector.length = s.channel.destinationPortVector.length := by
  cases op with
  | move =>
    obtain ⟨p, hp, -⟩ := hw.source
    obtain ⟨-, -, -, -, hdelivered⟩ := hw.move_eq hp h
    rw [hdelivered, List.length_map]
  | write now msgPtr length =>
    have hop : ¬ (SamplingOp.write now msgPtr length).IsMove := not_false
    rw [hw.destinations_step hop h]
  | read j now msgPtr =>
    have hop : ¬ (SamplingOp.read j now msgPtr).IsMove := not_false
    rw [hw.destinations_step hop h]

/-- A write that fits, a move and a read of a destination there is all return. -/
theorem Wired.step_isSome {op : SamplingOp} (hw : s.Wired maxMessageSize refreshPeriod)
    (hfits : s.Fits maxMessageSize op) : ∃ t, s.step op = some t := by
  obtain ⟨p, hp, rfl, hready, hdirection⟩ := hw.source
  cases op with
  | write now msgPtr length =>
    obtain ⟨hpos, hle⟩ := hfits
    rw [step, hp, Option.bind_some, SamplingPort.writeSamplingMessage, if_neg (by simp [hready]),
      if_neg hdirection, if_neg (Int.not_lt.mpr hle), if_neg (by omega)]
    exact ⟨_, rfl⟩
  | move =>
    by_cases hnone : s.channel.destinationPortVector = [] ∧ s.channel.sender = false
    · rw [step, SamplingChannel.moveMessages_idle hw.initialized hw.receiver hp hnone]
      exact ⟨_, rfl⟩
    · rw [step, SamplingChannel.moveMessages_from hw.initialized hw.receiver hp hnone]
      exact ⟨_, rfl⟩
  | read j now msgPtr =>
    exact ⟨_, Option.map_eq_some_iff.mpr ⟨_, List.getElem?_eq_getElem hfits, rfl⟩⟩

theorem wired_run {ops : List SamplingOp} (hw : s.Wired maxMessageSize refreshPeriod)
    (h : run step s ops = some t) :
    t.Wired maxMessageSize refreshPeriod ∧
      t.channel.destinationPortVector.length = s.channel.destinationPortVector.length := by
  refine run_invariant (I := fun u => u.Wired maxMessageSize refreshPeriod ∧
    u.channel.destinationPortVector.length = s.channel.destinationPortVector.length) ?_ ⟨hw, rfl⟩ h
  intro u op v hu hstep
  exact ⟨wired_step hu.1 hstep, (hu.1.length_step hstep).trans hu.2⟩

theorem Wired.run_isSome {ops : List SamplingOp} (hw : s.Wired maxMessageSize refreshPeriod)
    (hfits : ∀ op ∈ ops, s.Fits maxMessageSize op) : ∃ t, run step s ops = some t := by
  induction ops generalizing s with
  | nil => exact ⟨s, rfl⟩
  | cons op ops ih =>
    obtain ⟨hfirst, hrest⟩ := List.forall_mem_cons.mp hfits
    obtain ⟨u, hu⟩ := hw.step_isSome hfirst
    have hkept : ∀ op ∈ ops, u.Fits maxMessageSize op := by
      intro op hop
      have hfit := hrest op hop
      cases op with
      | write now msgPtr length => exact hfit
      | move => trivial
      | read j now msgPtr => exact Nat.lt_of_lt_of_eq hfit (hw.length_step hu).symm
    obtain ⟨t, ht⟩ := ih (wired_step hw hu) hkept
    exact ⟨t, run_cons_some.mpr ⟨u, hu, ht⟩⟩

theorem Wired.source_run {ops : List SamplingOp} (hw : s.Wired maxMessageSize refreshPeriod)
    (hops : ∀ op ∈ ops, ¬ op.IsWrite) (h : run step s ops = some t) :
    t.channel.sourcePort = s.channel.sourcePort := by
  have hkept : t.Wired maxMessageSize refreshPeriod ∧
      t.channel.sourcePort = s.channel.sourcePort := by
    refine run_invariant_of_meets (I := fun u => u.Wired maxMessageSize refreshPeriod ∧
      u.channel.sourcePort = s.channel.sourcePort) ?_ ⟨hw, rfl⟩ (meets_of_forall hops) h
    intro u op v hu hop hstep
    exact ⟨wired_step hu.1 hstep, (hu.1.source_step hop hstep).trans hu.2⟩
  exact hkept.2

theorem Wired.destinations_run {ops : List SamplingOp}
    (hw : s.Wired maxMessageSize refreshPeriod) (hops : ∀ op ∈ ops, ¬ op.IsMove)
    (h : run step s ops = some t) :
    t.channel.destinationPortVector = s.channel.destinationPortVector := by
  have hkept : t.Wired maxMessageSize refreshPeriod ∧
      t.channel.destinationPortVector = s.channel.destinationPortVector := by
    refine run_invariant_of_meets (I := fun u => u.Wired maxMessageSize refreshPeriod ∧
      u.channel.destinationPortVector = s.channel.destinationPortVector) ?_ ⟨hw, rfl⟩
      (meets_of_forall hops) h
    intro u op v hu hop hstep
    exact ⟨wired_step hu.1 hstep, (hu.1.destinations_step hop hstep).trans hu.2⟩
  exact hkept.2

/-- A write, then no other write before a move, then no other move: the destinations
    hold the message written. -/
theorem Wired.destinationsHold_run {now : NanoTime} {message : Nat → Byte} {length : BitVec 64}
    {before between after : List SamplingOp} (hw : s.Wired maxMessageSize refreshPeriod)
    (hlength : length.toInt ≤ maxMessageSize) (hbetween : ∀ op ∈ between, ¬ op.IsWrite)
    (hafter : ∀ op ∈ after, ¬ op.IsMove)
    (h : run step s (before ++ .write now message length :: (between ++ .move :: after)) = some t) :
    t.DestinationsHold ⟨now, length, message⟩ := by
  obtain ⟨s₁, h₁, h⟩ := run_append_some.mp h
  obtain ⟨s₂, h₂, h⟩ := run_cons_some.mp h
  obtain ⟨s₃, h₃, h⟩ := run_append_some.mp h
  obtain ⟨s₄, h₄, h₅⟩ := run_cons_some.mp h
  have hw₁ : s₁.Wired maxMessageSize refreshPeriod := (wired_run hw h₁).1
  have hw₂ : s₂.Wired maxMessageSize refreshPeriod := wired_step hw₁ h₂
  have hw₃ : s₃.Wired maxMessageSize refreshPeriod := (wired_run hw₂ h₃).1
  have hw₄ : s₄.Wired maxMessageSize refreshPeriod := wired_step hw₃ h₄
  have hsource : s₃.SourceHolds ⟨now, length, message⟩ := by
    obtain ⟨p, hp, hholds⟩ := hw₁.write_holds hlength h₂
    exact ⟨p, (hw₂.source_run hbetween h₃).trans hp, hholds⟩
  have hmoved : s₄.DestinationsHold ⟨now, length, message⟩ := hw₃.move_holds hsource h₄
  rw [DestinationsHold, hw₄.destinations_run hafter h₅]
  exact hmoved

/-- **Sampling is fresh from end to end.** Writes that fit, moves and reads all
    return. A move leaves in every destination the time, the size and the message of
    the source, and the source alone. A read of any destination, behind a write and a
    move and with no other write between them and no other move behind, returns that
    message, valid just when the refresh period of the destination has not passed
    since the write. -/
theorem sampling_fresh (hw : s.Wired maxMessageSize refreshPeriod) {ops : List SamplingOp}
    (hfits : ∀ op ∈ ops, s.Fits maxMessageSize op) :
    ∃ t, run step s ops = some t ∧
      (∀ before after u v, ops = before ++ .move :: after → run step s before = some u →
        u.step .move = some v → ∃ p, u.channel.sourcePort = some p ∧
          v.channel.sourcePort = some p ∧ v.DestinationsHold p.sharedMemory) ∧
      ∀ before now message length between after,
        ops = before ++ .write now message length :: (between ++ .move :: after) →
        (∀ op ∈ between, ¬ op.IsWrite) → (∀ op ∈ after, ¬ op.IsMove) →
        ∀ j < s.channel.destinationPortVector.length,
          ∃ q, t.channel.destinationPortVector[j]? = some q ∧ ∀ time msgPtr,
            let r := q.readSamplingMessage (t.readers j) time msgPtr
            r.returnCode = .noError ∧ r.length = some length ∧
              read r.msgPtr 0 length.toNat = read message 0 length.toNat ∧
              (r.validity = some .valid ↔
                time.val.toInt - now.val.toInt ≤ refreshPeriod j) := by
  obtain ⟨t, ht⟩ := hw.run_isSome hfits
  obtain ⟨hwt, hcount⟩ := wired_run hw ht
  refine ⟨t, ht, ?_, ?_⟩
  · rintro before after u v - hu hv
    have hwu : u.Wired maxMessageSize refreshPeriod := (wired_run hw hu).1
    obtain ⟨p, hp, -⟩ := hwu.source
    obtain ⟨-, -, hp', -⟩ := hwu.move_eq hp hv
    exact ⟨p, hp, hp', hwu.move_holds ⟨p, hp, rfl, rfl, rfl⟩ hv⟩
  · rintro before now message length between after rfl hbetween hafter j hj
    obtain ⟨hpos, hle⟩ := hfits (.write now message length) (by simp)
    have hholds := hw.destinationsHold_run hle hbetween hafter ht
    have hlt : j < t.channel.destinationPortVector.length := Nat.lt_of_lt_of_eq hj hcount.symm
    have hmem := List.getElem_mem hlt
    obtain ⟨-, hready, hdirection⟩ := hwt.destinations _ hmem
    refine ⟨_, List.getElem?_eq_getElem hlt, fun time msgPtr => ?_⟩
    have hread := readSamplingMessage_holds (hholds _ hmem) hready hdirection hpos now.property
      (t.readers j) time msgPtr
    rw [hwt.periods j] at hread
    exact hread

/-- A source of 4 bytes and two destinations with different refresh periods. -/
def twoReaders : SamplingSystem Nat where
  channel := ⟨true, some ⟨4, .portSourceDest, true, ⟨0, 0, fun _ => 0⟩⟩,
    List.replicate 2 ⟨4, .portSourceDest, true, ⟨0, 0, fun _ => 0⟩⟩, false, false, 1, [], fun _ => 0⟩
  readers j := ⟨if j = 0 then 10 else 100, .valid⟩

/-- Three bytes are written at 7 and moved twice, before and after another move. -/
def movedAgain : List SamplingOp :=
  [.move, .write ⟨7, by decide⟩ (ofList [65, 67, 77] 0) 3, .move, .move]

/-- Read at 40, the message is too old for the first reader and valid for the second. -/
theorem sampling_fresh_movedAgain :
    ∃ t q q', run step twoReaders movedAgain = some t ∧
      t.channel.destinationPortVector[0]? = some q ∧ t.channel.destinationPortVector[1]? = some q' ∧
      (q.readSamplingMessage (t.readers 0) ⟨40, by decide⟩ (fun _ => 0)).validity ≠ some .valid ∧
      (q'.readSamplingMessage (t.readers 1) ⟨40, by decide⟩ (fun _ => 0)).validity =
        some .valid := by
  have hw : twoReaders.Wired 4 fun j => if j = 0 then 10 else 100 :=
    ⟨rfl, rfl, ⟨_, rfl, rfl, rfl, by decide⟩, fun q hq => by
      rw [List.eq_of_mem_replicate hq]
      exact ⟨rfl, rfl, by decide⟩, fun j => rfl⟩
  have hfits : ∀ op ∈ movedAgain, twoReaders.Fits 4 op := by
    simp [movedAgain, Fits]
  obtain ⟨t, ht, -, hread⟩ := sampling_fresh hw hfits
  have hreads := hread [.move] ⟨7, by decide⟩ (ofList [65, 67, 77] 0) 3 [.move] [] rfl
    (by simp [SamplingOp.IsWrite]) (by simp)
  obtain ⟨q, hq, hfirst⟩ := hreads 0 (by decide)
  obtain ⟨q', hq', hsecond⟩ := hreads 1 (by decide)
  refine ⟨t, q, q', ht, hq, hq', ?_, ?_⟩
  · intro hvalid
    exact absurd ((hfirst _ _).2.2.2.mp hvalid) (by decide)
  · exact (hsecond _ _).2.2.2.mpr (by decide)

end SamplingSystem

end Arinc.SamplingPacket
