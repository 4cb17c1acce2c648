import ArincEmulator.SamplingFreshness

/- The last validity of a sampling port. `READ_SAMPLING_MESSAGE` answers with a
   validity on each of its exits but records it on those with a message only, and
   `GET_SAMPLING_PORT_STATUS` reports what is recorded.

   What is proved, for any sequence of writes, moves and reads of any number of
   ports, and whatever other processes put into their memory: the status of every
   port reports the validity that its last read returned just when every read that
   finds its port empty comes while INVALID is what is recorded
   (`status_follows_reads_iff`). -/
namespace Arinc.SamplingPacket
open Runs

/-! ## The status -/

/-- `PORT_DIRECTION_TYPE`. -/
inductive PortDirection where
  | source
  | destination
  deriving DecidableEq, Repr

/-- `SAMPLING_PORT_STATUS_TYPE`. -/
structure SamplingPortStatus where
  refreshPeriod : Int
  maxMessageSize : Int
  portDirection : PortDirection
  lastMsgValidity : Validity
  deriving DecidableEq, Repr

/-- `GET_SAMPLING_PORT_STATUS`. -/
def SamplingPort.getSamplingPortStatus (p : SamplingPort) (reader : Reader) :
    ReturnCode × Option SamplingPortStatus :=
  if p.readyOrNot = false then (.invalidMode, none)
  else
    let portDirection := if p.portDirection = .portSource then .source else .destination
    (.noError, some ⟨reader.refreshPeriod, p.maxMessageSize, portDirection, reader.lastValidity⟩)

/-! ## The ports over a run -/

/-- A channel with the readers of its destinations, and the validity that the last
    read of each destination returned. -/
structure ReadSystem (U : Type*) where
  system : SamplingSystem U
  returned : Nat → Option Validity

/-- A write to the source, a write to a destination, a move with the datagrams pending
    at its socket, a read of a destination, and whatever another process does to the
    memory of a destination. -/
inductive ReadOp where
  | write (now : NanoTime) (msgPtr : Nat → Byte) (length : BitVec 64)
  | writeDestination (destination : Nat) (now : NanoTime) (msgPtr : Nat → Byte) (length : BitVec 64)
  | move (pending : List (List Byte))
  | read (destination : Nat) (now : NanoTime) (msgPtr : Nat → Byte)
  | overwrite (destination : Nat) (contents : SamplingData)

namespace ReadSystem

variable {U : Type*}

/-- The channel of a system is replaced. -/
def withChannel (s : ReadSystem U) (c : SamplingChannel U) : ReadSystem U :=
  { s with system := { s.system with channel := c } }

/-- A destination of the channel is replaced. -/
def withDestination (s : ReadSystem U) (j : Nat) (q : SamplingPort) : ReadSystem U :=
  s.withChannel { s.system.channel with
    destinationPortVector := s.system.channel.destinationPortVector.set j q }

/-- A read of destination `j` has left `r`. -/
def withReading (s : ReadSystem U) (j : Nat) (r : Reading) : ReadSystem U where
  system := { s.system with readers := Function.update s.system.readers j r.reader }
  returned := Function.update s.returned j (r.validity.or (s.returned j))

/-- One step. -/
def step (s : ReadSystem U) : ReadOp → Option (ReadSystem U)
  | .write now msgPtr length =>
    s.system.channel.sourcePort.bind fun p =>
      (p.writeSamplingMessage now msgPtr length).map fun written =>
        s.withChannel { s.system.channel with sourcePort := some written.2 }
  | .writeDestination j now msgPtr length =>
    s.system.channel.destinationPortVector[j]?.bind fun q =>
      (q.writeSamplingMessage now msgPtr length).map fun written => s.withDestination j written.2
  | .move pending =>
    (s.system.channel.moveMessages pending).map fun moved => s.withChannel moved.channel
  | .read j now msgPtr =>
    s.system.channel.destinationPortVector[j]?.map fun q =>
      s.withReading j (q.readSamplingMessage (s.system.readers j) now msgPtr)
  | .overwrite j contents =>
    s.system.channel.destinationPortVector[j]?.map fun q =>
      s.withDestination j { q with sharedMemory := contents }

/-- The status of each port that has been read reports what the last read returned. -/
def StatusFollowsReads (s : ReadSystem U) : Prop :=
  ∀ j validity, s.returned j = some validity →
    ∀ q code status, s.system.channel.destinationPortVector[j]? = some q →
      q.getSamplingPortStatus (s.system.readers j) = (code, some status) →
        status.lastMsgValidity = validity

/-- A read that finds its port empty comes while INVALID is recorded. -/
def EmptyWhileInvalid (s : ReadSystem U) : ReadOp → Prop
  | .read j _ _ =>
    ∀ q ∈ s.system.channel.destinationPortVector[j]?, q.readyOrNot = true →
      q.portDirection ≠ .portSource → q.sharedMemory.messageSize = 0 →
        (s.system.readers j).lastValidity = .invalid
  | _ => True

instance (s : ReadSystem U) : ∀ op, Decidable (EmptyWhileInvalid s op)
  | .read _ _ _ => inferInstanceAs (Decidable (∀ q ∈ _, _ → _ → _ → _))
  | .write _ _ _ | .writeDestination _ _ _ _ | .move _ | .overwrite _ _ =>
    inferInstanceAs (Decidable True)

/-! ## What stays of the ports -/

/-- What no step changes of a port. -/
def header (q : SamplingPort) : Int × Direction × Bool :=
  (q.maxMessageSize, q.portDirection, q.readyOrNot)

theorem header_copied (p q : SamplingPort) : header (p.copyContentsVerbatim q).2 = header q := by
  unfold SamplingPort.copyContentsVerbatim
  split
  · rfl
  · rfl

theorem header_written {q : SamplingPort} {now : NanoTime} {msgPtr : Nat → Byte}
    {length : BitVec 64} {written : ReturnCode × SamplingPort}
    (h : q.writeSamplingMessage now msgPtr length = some written) : header written.2 = header q := by
  unfold SamplingPort.writeSamplingMessage at h
  split at h
  · exact Option.some.inj h ▸ rfl
  split at h
  · exact Option.some.inj h ▸ rfl
  split at h
  · exact Option.some.inj h ▸ rfl
  split at h
  · cases h
  · exact Option.some.inj h ▸ rfl

theorem headers_receiveOne {c d : SamplingChannel U} {datagram : List Byte}
    (h : c.receiveOne datagram = some d) :
    d.destinationPortVector.map header = c.destinationPortVector.map header := by
  simp only [SamplingChannel.receiveOne] at h
  split at h
  · cases h
  · obtain rfl := Option.some.inj h
    rw [List.map_map]
    rfl

theorem headers_receiveRounds {times : Nat} {c : SamplingChannel U} {pending : List (List Byte)}
    {r : SamplingChannel U × List (List Byte)} (h : c.receiveRounds times pending = some r) :
    r.1.destinationPortVector.map header = c.destinationPortVector.map header := by
  induction times generalizing c pending with
  | zero =>
    obtain rfl := Option.some.inj h
    rfl
  | succ times ih =>
    cases pending with
    | nil =>
      obtain rfl := Option.some.inj h
      rfl
    | cons datagram pending =>
      obtain ⟨d, hd, hrest⟩ := Option.bind_eq_some_iff.mp h
      exact (ih hrest).trans (headers_receiveOne hd)

theorem headers_moveMessages {c : SamplingChannel U} {pending : List (List Byte)}
    {moved : Moved U} (h : c.moveMessages pending = some moved) :
    moved.channel.destinationPortVector.map header = c.destinationPortVector.map header := by
  unfold SamplingChannel.moveMessages SamplingChannel.moveMessagesOver at h
  simp only [allSent_true, if_true] at h
  split at h
  · exact Option.some.inj h ▸ rfl
  split at h
  · cases hsource : c.sourcePort with
    | none =>
      rw [hsource] at h
      exact Option.some.inj h ▸ rfl
    | some p =>
      simp only [hsource] at h
      split at h
      · exact Option.some.inj h ▸ rfl
      · obtain rfl := Option.some.inj h
        obtain ⟨-, -, -, hdestinations⟩ := SamplingSystem.moveFrom_channel c p pending
        rw [hdestinations, List.map_map, List.map_map]
        exact List.map_congr_left fun q _ => header_copied p q
  split at h
  · exact Option.some.inj h ▸ rfl
  · obtain ⟨r, hr, rfl⟩ := Option.map_eq_some_iff.mp h
    exact headers_receiveRounds hr

variable {s t : ReadSystem U}

/-- All steps but reads leave the readers, what was returned and the headers alone. -/
theorem quiet_step {op : ReadOp} (hop : ∀ j now msgPtr, op ≠ .read j now msgPtr)
    (h : s.step op = some t) :
    t.system.readers = s.system.readers ∧ t.returned = s.returned ∧
      t.system.channel.destinationPortVector.map header =
        s.system.channel.destinationPortVector.map header := by
  have hset {j : Nat} {q q' : SamplingPort}
      (hq : s.system.channel.destinationPortVector[j]? = some q) (hheader : header q' = header q) :
      (s.system.channel.destinationPortVector.set j q').map header =
        s.system.channel.destinationPortVector.map header := by
    obtain ⟨hj, rfl⟩ := List.getElem?_eq_some_iff.mp hq
    rw [List.map_set, hheader]
    exact List.ext_getElem (by simp) fun i _ _ => by grind
  cases op with
  | write now msgPtr length =>
    obtain ⟨p, -, hp⟩ := Option.bind_eq_some_iff.mp h
    obtain ⟨written, -, rfl⟩ := Option.map_eq_some_iff.mp hp
    exact ⟨rfl, rfl, rfl⟩
  | writeDestination j now msgPtr length =>
    obtain ⟨q, hq, hwrite⟩ := Option.bind_eq_some_iff.mp h
    obtain ⟨written, hwritten, rfl⟩ := Option.map_eq_some_iff.mp hwrite
    exact ⟨rfl, rfl, hset hq (header_written hwritten)⟩
  | move pending =>
    obtain ⟨moved, hmoved, rfl⟩ := Option.map_eq_some_iff.mp h
    exact ⟨rfl, rfl, headers_moveMessages hmoved⟩
  | read j now msgPtr => exact absurd rfl (hop j now msgPtr)
  | overwrite j contents =>
    obtain ⟨q, hq, rfl⟩ := Option.map_eq_some_iff.mp h
    exact ⟨rfl, rfl, hset hq rfl⟩

/-! ## A read -/

/-- The exits of a read: it is refused, it finds the port empty and records nothing, or
    it records what it returns. -/
theorem reading_cases (q : SamplingPort) (reader : Reader) (now : NanoTime) (msgPtr : Nat → Byte) :
    ((q.readyOrNot = false ∨ q.portDirection = .portSource) ∧
        (q.readSamplingMessage reader now msgPtr).validity = none ∧
        (q.readSamplingMessage reader now msgPtr).reader = reader) ∨
      q.readyOrNot = true ∧ q.portDirection ≠ .portSource ∧
        (q.sharedMemory.messageSize = 0 ∧
            (q.readSamplingMessage reader now msgPtr).validity = some .invalid ∧
            (q.readSamplingMessage reader now msgPtr).reader = reader ∨
          q.sharedMemory.messageSize ≠ 0 ∧
            (q.readSamplingMessage reader now msgPtr).validity =
              some (q.readSamplingMessage reader now msgPtr).reader.lastValidity) := by
  unfold SamplingPort.readSamplingMessage
  by_cases hready : q.readyOrNot = false
  · rw [if_pos hready]
    exact Or.inl ⟨Or.inl hready, rfl, rfl⟩
  by_cases hdirection : q.portDirection = .portSource
  · rw [if_neg hready, if_pos hdirection]
    exact Or.inl ⟨Or.inr hdirection, rfl, rfl⟩
  right
  rw [if_neg hready, if_neg hdirection]
  refine ⟨Bool.not_eq_false _ ▸ hready, hdirection, ?_⟩
  by_cases hempty : q.sharedMemory.messageSize = 0
  · left
    simp only [hempty, if_true, true_and]
  · right
    rw [if_neg hempty]
    exact ⟨hempty, rfl⟩

/-- The ports that were read are open. -/
def Opened (s : ReadSystem U) : Prop :=
  ∀ j validity, s.returned j = some validity →
    ∃ q, s.system.channel.destinationPortVector[j]? = some q ∧ q.readyOrNot = true

/-- What is recorded is what was returned. -/
def Recorded (s : ReadSystem U) : Prop :=
  ∀ j validity, s.returned j = some validity → (s.system.readers j).lastValidity = validity

theorem Opened.statusFollowsReads_iff (hs : s.Opened) : s.StatusFollowsReads ↔ s.Recorded := by
  have hstatus {q : SamplingPort} (hready : q.readyOrNot = true) (reader : Reader) :
      ∃ code status, q.getSamplingPortStatus reader = (code, some status) ∧
        status.lastMsgValidity = reader.lastValidity := by
    unfold SamplingPort.getSamplingPortStatus
    rw [if_neg (by simp [hready])]
    exact ⟨_, _, rfl, rfl⟩
  constructor
  · intro hfollows j validity hreturned
    obtain ⟨q, hq, hready⟩ := hs j validity hreturned
    obtain ⟨code, status, hget, hlast⟩ := hstatus hready (s.system.readers j)
    rw [← hlast]
    exact hfollows j validity hreturned q code status hq hget
  · intro hrecorded j validity hreturned q code status hq hget
    obtain ⟨q', hq', hready⟩ := hs j validity hreturned
    obtain rfl : q = q' := Option.some.inj (hq.symm.trans hq')
    obtain ⟨code', status', hget', hlast⟩ := hstatus hready (s.system.readers j)
    obtain ⟨-, hsame⟩ := Prod.mk.inj (hget.symm.trans hget')
    rw [Option.some.inj hsame, hlast]
    exact hrecorded j validity hreturned

theorem Opened.of_quiet (hs : s.Opened) (hreturned : t.returned = s.returned)
    (hheaders : t.system.channel.destinationPortVector.map header =
      s.system.channel.destinationPortVector.map header) : t.Opened := by
  intro j validity hvalidity
  rw [hreturned] at hvalidity
  obtain ⟨q, hq, hready⟩ := hs j validity hvalidity
  have hat : (t.system.channel.destinationPortVector[j]?).map header = some (header q) := by
    rw [← List.getElem?_map, hheaders, List.getElem?_map, hq]
    rfl
  obtain ⟨q', hq', hsame⟩ := Option.map_eq_some_iff.mp hat
  have hready' : q'.readyOrNot = q.readyOrNot := congrArg (fun x => x.2.2) hsame
  exact ⟨q', hq', hready'.trans hready⟩

/-- A read, in a system whose records are right: what is recorded is right behind it just
    when it did not find its port empty while something else was recorded. -/
theorem read_step {j : Nat} {now : NanoTime} {msgPtr : Nat → Byte} (hr : s.Recorded)
    (ho : s.Opened) (h : s.step (.read j now msgPtr) = some t) :
    (t.Recorded ↔ s.EmptyWhileInvalid (.read j now msgPtr)) ∧ t.Opened := by
  obtain ⟨q, hq, rfl⟩ := Option.map_eq_some_iff.mp h
  have hcondition : s.EmptyWhileInvalid (.read j now msgPtr) ↔
      (q.readyOrNot = true → q.portDirection ≠ .portSource → q.sharedMemory.messageSize = 0 →
        (s.system.readers j).lastValidity = .invalid) := by
    simp [EmptyWhileInvalid, hq]
  have hother {i : Nat} (hi : i ≠ j) (r : Reading) :
      (s.withReading j r).returned i = s.returned i ∧
        (s.withReading j r).system.readers i = s.system.readers i :=
    ⟨Function.update_of_ne hi _ _, Function.update_of_ne hi _ _⟩
  have hown (r : Reading) : (s.withReading j r).returned j = r.validity.or (s.returned j) ∧
      (s.withReading j r).system.readers j = r.reader :=
    ⟨Function.update_self .., Function.update_self ..⟩
  -- only the entry of the port that was read can have changed
  have hrecorded (r : Reading) : (s.withReading j r).Recorded ↔
      ∀ validity, r.validity.or (s.returned j) = some validity →
        r.reader.lastValidity = validity := by
    constructor
    · intro hall validity hvalidity
      rw [← (hown r).2]
      exact hall j validity ((hown r).1.trans hvalidity)
    · intro hj i validity hvalidity
      by_cases hi : i = j
      · subst hi
        rw [(hown r).2]
        exact hj validity ((hown r).1.symm.trans hvalidity)
      · rw [(hother hi r).2]
        exact hr i validity ((hother hi r).1.symm.trans hvalidity)
  have hopened (r : Reading) (hready : r.validity ≠ none → q.readyOrNot = true) :
      (s.withReading j r).Opened := by
    intro i validity hvalidity
    by_cases hi : i = j
    · subst hi
      rw [(hown r).1] at hvalidity
      cases hanswer : r.validity with
      | none =>
        rw [hanswer, Option.none_or] at hvalidity
        exact ho i validity hvalidity
      | some v => exact ⟨q, hq, hready (by simp [hanswer])⟩
    · rw [(hother hi r).1] at hvalidity
      exact ho i validity hvalidity
  obtain ⟨hrefused, hvalidity, hreader⟩ |
    ⟨hready, hdirection, ⟨hempty, hvalidity, hreader⟩ | ⟨hfull, hvalidity⟩⟩ :=
    reading_cases q (s.system.readers j) now msgPtr
  · refine ⟨?_, hopened _ fun hanswer => absurd hvalidity hanswer⟩
    rw [hrecorded, hcondition, hvalidity, hreader]
    refine iff_of_true (fun validity hreturned => hr j validity hreturned) ?_
    intro hready hdirection
    rcases hrefused with hclosed | hsource
    · rw [hclosed] at hready
      cases hready
    · exact absurd hsource hdirection
  · refine ⟨?_, hopened _ fun _ => hready⟩
    rw [hrecorded, hcondition, hvalidity, hreader]
    constructor
    · exact fun hlast _ _ _ => hlast .invalid rfl
    · intro hlast validity hreturned
      rw [← Option.some.inj hreturned]
      exact hlast hready hdirection hempty
  · refine ⟨?_, hopened _ fun _ => hready⟩
    rw [hrecorded, hcondition, hvalidity]
    refine iff_of_true (fun validity hreturned => Option.some.inj hreturned) ?_
    exact fun _ _ hempty => absurd hempty hfull

/-! ## Runs -/

theorem statusFollowsReads_step {op : ReadOp} (hs : s.StatusFollowsReads) (ho : s.Opened)
    (h : s.step op = some t) : (t.StatusFollowsReads ↔ s.EmptyWhileInvalid op) ∧ t.Opened := by
  have hr : s.Recorded := ho.statusFollowsReads_iff.mp hs
  by_cases hop : ∀ j now msgPtr, op ≠ .read j now msgPtr
  · obtain ⟨hreaders, hreturned, hheaders⟩ := quiet_step hop h
    have hopened : t.Opened := ho.of_quiet hreturned hheaders
    refine ⟨?_, hopened⟩
    rw [hopened.statusFollowsReads_iff]
    refine iff_of_true ?_ ?_
    · intro j validity hvalidity
      rw [hreaders]
      exact hr j validity (hreturned ▸ hvalidity)
    · cases op with
      | read j now msgPtr => exact absurd rfl (hop j now msgPtr)
      | write | writeDestination | move | overwrite => trivial
  · cases op with
    | read j now msgPtr =>
      obtain ⟨hiff, hopened⟩ := read_step hr ho h
      exact ⟨hopened.statusFollowsReads_iff.trans hiff, hopened⟩
    | write | writeDestination | move | overwrite =>
      exact absurd (fun _ _ _ heq => by cases heq) hop

/-- Over any sequence of writes, moves and reads, of ports none of which has been read
    before: the status of each port reports at every moment the validity that its
    last read returned, just when every read that finds its port empty comes while
    INVALID is recorded. -/
theorem status_follows_reads_iff {s : SamplingSystem U} {ops : List ReadOp} {t : ReadSystem U}
    (h : run step ⟨s, fun _ => none⟩ ops = some t) :
    Always step StatusFollowsReads ⟨s, fun _ => none⟩ ops ↔
      Meets step EmptyWhileInvalid ⟨s, fun _ => none⟩ ops := by
  refine always_iff_meets (J := Opened) ?_ ?_ ?_ h
  · intro u op v hfollows hopened hstep
    obtain ⟨hiff, hkept⟩ := statusFollowsReads_step hfollows hopened hstep
    exact ⟨hiff, fun _ => hkept⟩
  · intro j validity hreturned
    cases hreturned
  · intro j validity hreturned
    cases hreturned

theorem seven_nonneg : 0 ≤ (7#64).toInt := by decide
theorem ten_nonneg : 0 ≤ (10#64).toInt := by decide
theorem forty_nonneg : 0 ≤ (40#64).toInt := by decide

/-- A message is written, moved and read by both readers, the second time too late for
    the first of them. -/
def readTwice : List ReadOp :=
  [.write ⟨7, seven_nonneg⟩ (Memory.ofList [65, 67, 77] 0) 3, .move [],
    .read 0 ⟨10, ten_nonneg⟩ fun _ => 0, .read 1 ⟨10, ten_nonneg⟩ fun _ => 0,
    .read 0 ⟨40, forty_nonneg⟩ fun _ => 0]

theorem status_follows_reads_iff_readTwice :
    Always step StatusFollowsReads ⟨SamplingSystem.twoReaders, fun _ => none⟩ readTwice ↔
      Meets step EmptyWhileInvalid ⟨SamplingSystem.twoReaders, fun _ => none⟩ readTwice := by
  have hrun : (run step ⟨SamplingSystem.twoReaders, fun _ => none⟩ readTwice).isSome = true := by
    decide
  exact status_follows_reads_iff (Option.some_get hrun).symm

/-- A read before anything was written: it returns INVALID, and the status reports
    VALID. -/
theorem empty_read_not_recorded :
    ∃ t, run step ⟨SamplingSystem.twoReaders, fun _ => none⟩
        [.read 0 ⟨10, by decide⟩ fun _ => 0] = some t ∧
      t.returned 0 = some .invalid ∧
      (t.system.channel.destinationPortVector[0]?.bind fun q =>
        (q.getSamplingPortStatus (t.system.readers 0)).2).map
          SamplingPortStatus.lastMsgValidity = some .valid ∧
      ¬ t.StatusFollowsReads := by
  refine ⟨_, rfl, rfl, rfl, ?_⟩
  intro hfollows
  exact absurd (hfollows 0 .invalid rfl _ _ _ rfl rfl) (by decide)

end ReadSystem

end Arinc.SamplingPacket
