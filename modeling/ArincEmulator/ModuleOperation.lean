import ArincEmulator.Initialization
import ArincEmulator.TransportSetup

/- From the property file to the frames. The constructor of the module manager reads the
   length of the frame and their number, creates the partitions with their channels,
   sorts the windows and checks them; then the frames run.

   What is proved (`every_partition_runs`), for every property file that the constructor
   accepts, if no offset and no duration in it is negative: in every run of the frames,
   for all delays, only partitions of the vector are continued, and in each frame each of
   them as often as it has windows, which is once at least. -/
namespace Arinc.Initialization
open PropertyFile ChannelWiring Throwing
open Schedule (SchedulingTuple Sorted checkSchedule)
open ModuleScheduler (Action hyperperiods runWithoutSystemManager framesRun)

/-- `MAX_PARTITION_NUM`. -/
def maxPartitionNum : Nat := 10

/-- SET_MAJOR_FRAME_SIZE. -/
def setMajorFrameSize (env : Environment) (map : PropertyMap) : Except Int Int := do
  let framestring ← orThrow (-2) (equalRange map primaryKeyHyperperiodKey).head?
  orThrow (-2) (env.secsToNano (stringTrim framestring [' ']))

/-- SET_MAX_NUMBER_OF_FRAMES; nothing where the key is missing. -/
def setMaxNumberOfFrames (map : PropertyMap) : Except Int (Option Int) :=
  match (equalRange map primaryKeyMaxiterations).head? with
  | none => .ok none
  | some maxiterationstring =>
    (orThrow (-2) (fromString true 32 (stringTrim maxiterationstring [' ']))).map some

/-- What the constructor leaves, where it does not throw. `std::sort` promises no more
    than a sorted permutation of the windows. -/
structure Constructed (env : Environment) (constructed : Kind → PortDescriptor → ReturnCode)
    (map : PropertyMap) (m : ModuleManager) (timing : Transport.Timing) : Prop where
  frame : setMajorFrameSize env map = .ok timing.majorFrameSize
  frames : setMaxNumberOfFrames map =
    .ok (if timing.isMaxNumberOfFramesSet then some timing.maxNumberOfFrames else none)
  created : createPartitionVector env constructed map = some m
  size : m.partitionVector.length ≤ maxPartitionNum
  permuted : ∃ proxyPorts s, readPartitionVector env map = .ok (proxyPorts, s) ∧
    timing.schedulingVector.Perm s.schedulingVector
  sorted : Sorted timing.schedulingVector
  checked : checkSchedule timing.schedulingVector timing.majorFrameSize = .accepted

/-! ## How often a partition is continued -/

/-- The windows of a partition, in a frame. -/
def windows (schedulingVector : List SchedulingTuple) (i : Nat) : Nat :=
  schedulingVector.countP (·.partitionIndex = i)

section
variable (mgr : ModuleScheduler.ModuleManager) (i : Nat)

theorem count_windowActions (start : Int) (w : SchedulingTuple) :
    (ModuleScheduler.windowActions mgr start w).count (.sigcont i) =
      if w.partitionIndex = i then 1 else 0 := by
  have hmoves (b : Bool) (queues samplings : List String) :
      (if b then [] else queues.map Action.moveQueueChannel ++
        samplings.map Action.moveSamplingChannel).count (.sigcont i) = 0 := by
    cases b <;> simp [List.count_eq_zero]
  have htoken (b : Bool) (queue : String) :
      (if b then [Action.sendToken queue] else []).count (.sigcont i) = 0 := by
    cases b <;> simp
  have hcontinue : ([Action.sigcont w.partitionIndex, .sleepUntil (start + w.finish),
      .sigstop w.partitionIndex]).count (.sigcont i) = if w.partitionIndex = i then 1 else 0 := by
    by_cases hi : w.partitionIndex = i <;> simp [hi]
  unfold ModuleScheduler.windowActions
  simp only [List.count_append, hmoves, htoken, hcontinue]
  simp

theorem count_frameActions (start : Int) :
    (ModuleScheduler.frameActions mgr start).count (.sigcont i) =
      windows mgr.schedulingVector i := by
  rw [ModuleScheduler.frameActions, List.count_append, windows]
  induction mgr.schedulingVector with
  | nil => simp
  | cons w ws ih =>
    rw [List.flatMap_cons, List.count_append, count_windowActions, Nat.add_assoc, ih,
      List.countP_cons, Nat.add_comm]
    simp

/-- Each frame continues a partition as often as it has windows. -/
theorem count_hyperperiods (start : Int) (n : Nat) :
    (hyperperiods mgr start n).count (.sigcont i) = n * windows mgr.schedulingVector i := by
  induction n with
  | zero => simp [hyperperiods]
  | succ n ih =>
    rw [hyperperiods, List.range_succ, List.flatMap_append, List.count_append, Nat.succ_mul]
    congr 1
    rw [List.flatMap_cons, List.flatMap_nil, List.append_nil]
    exact count_frameActions mgr i _

end

/-! ## Every partition -/

section
variable {env : Environment} {constructed : Kind → PortDescriptor → ReturnCode} {map : PropertyMap}
  {m : ModuleManager} {timing : Transport.Timing}

theorem length_partitionVector {proxyPorts : List ProxyPort} {s : State}
    (hread : readPartitionVector env map = .ok (proxyPorts, s))
    (h : createPartitionVector env constructed map = some m) :
    m.partitionVector.length = s.partitionVector.length := by
  obtain ⟨proxyPorts', s', hread', hcreated⟩ := of_createPartitionVector h
  rw [hread] at hread'
  obtain ⟨rfl, rfl⟩ := Prod.mk.inj (Except.ok.inj hread')
  have hshape : Transport.shape m = Transport.shape (s.moduleManager proxyPorts) := by
    rw [(Transport.created_of_reached
      (Configuration.createPartitionVector_reached hcreated)).sameShape, configuration_start hread]
  have heq := congrArg List.length hshape
  rwa [Transport.shape, Transport.shape, List.length_map, List.length_map] at heq

/-- The windows of a module that was constructed: only partitions have some, and each
    partition has. -/
theorem Constructed.windows_pos_iff (h : Constructed env constructed map m timing) (i : Nat) :
    0 < windows timing.schedulingVector i ↔ i < m.partitionVector.length := by
  obtain ⟨proxyPorts, s, hread, hperm⟩ := h.permuted
  have hcovered := (read_of_readPartitionVector hread).covered
  have hlength := length_partitionVector hread h.created
  rw [windows, List.countP_pos_iff, hlength]
  constructor
  · rintro ⟨w, hw, hindex⟩
    rw [← of_decide_eq_true hindex]
    exact hcovered.inRange w (hperm.mem_iff.mp hw)
  · intro hi
    obtain ⟨w, hw, hindex⟩ := hcovered.served i hi
    exact ⟨w, hperm.mem_iff.mpr hw, decide_eq_true hindex⟩

/-- What is accepted can run, negative times apart. -/
theorem Constructed.runnable (h : Constructed env constructed map m timing)
    (hnonneg : ∀ w ∈ timing.schedulingVector, 0 ≤ w.offset ∧ 0 ≤ w.duration)
    (hpos : 0 < timing.majorFrameSize) (hle : timing.majorFrameSize ≤ maxTimeOut) :
    ModuleScheduler.Runnable (Transport.scheduler m timing) where
  frame_pos := hpos
  frame_le := hle
  valid := by
    have hchecked := h.checked
    by_cases hne : timing.schedulingVector = []
    · rw [hne, Schedule.checkSchedule_nil] at hchecked
      cases hchecked
    · rw [Schedule.checkSchedule_nonempty hne] at hchecked
      split at hchecked
      · rename_i hboth
        exact Schedule.valid_of_accepted h.sorted hnonneg hboth.1 hboth.2
      · cases hchecked

/-- **Every partition runs.** The module that is constructed from a property file without
    negative times never continues a partition that is not there, and continues each in
    every frame, once for each of its windows. -/
theorem every_partition_runs (h : Constructed env constructed map m timing)
    (hnonneg : ∀ w ∈ timing.schedulingVector, 0 ≤ w.offset ∧ 0 ≤ w.duration)
    (hpos : 0 < timing.majorFrameSize) (hle : timing.majorFrameSize ≤ maxTimeOut)
    (delay : Nat → Nat) (frames : Nat) (t0 : Timespec) :
    ∃ machine, runWithoutSystemManager (Transport.scheduler m timing) delay frames 0 t0
        ⟨t0.toNano, []⟩ = some machine ∧
      ∀ i, machine.actions.count (.sigcont i) =
          framesRun (Transport.scheduler m timing) frames 0 * windows timing.schedulingVector i ∧
        (0 < windows timing.schedulingVector i ↔ i < m.partitionVector.length) := by
  have hstart : ModuleScheduler.Punctual ⟨t0.toNano, []⟩ := ⟨.nil, by simp, by simp⟩
  obtain ⟨machine, hrun, hactions, -⟩ := ModuleScheduler.runWithoutSystemManager_actions delay
    (h.runnable hnonneg hpos hle) frames 0 t0 _ hstart
  refine ⟨machine, hrun, fun i => ⟨?_, h.windows_pos_iff i⟩⟩
  have hactions : machine.actions =
      hyperperiods (Transport.scheduler m timing) t0.toNano
        (framesRun (Transport.scheduler m timing) frames 0) := hactions
  rw [hactions]
  exact count_hyperperiods (Transport.scheduler m timing) i _ _

end

theorem oneQueue_schedule :
    ((readPartitionVector willing oneQueue).toOption.map fun (_, s) =>
        (s.schedulingVector, s.partitionVector.length)) =
      some ([⟨0, 0, 10000000000⟩, ⟨1, 10000000000, 10000000000⟩], 2) := by
  decide +kernel

/-- Two windows of ten seconds. -/
def tenSeconds : Transport.Timing :=
  ⟨[⟨0, 0, 10000000000⟩, ⟨1, 10000000000, 10000000000⟩], 20000000000, false, 0, fun _ => "",
    fun _ => false⟩

theorem oneQueue_constructed :
    Constructed willing (fun _ _ => .noError) oneQueue oneQueueModule tenSeconds := by
  obtain ⟨proxyPorts, s, hread, -⟩ := of_createPartitionVector oneQueue_created
  have hschedule := oneQueue_schedule
  rw [hread] at hschedule
  obtain ⟨hvector, hlength⟩ := Prod.mk.inj (Option.some.inj hschedule)
  refine ⟨by decide +kernel, by decide +kernel, oneQueue_created, ?_, ⟨proxyPorts, s, hread, ?_⟩,
    by decide, by decide⟩
  · rw [length_partitionVector hread oneQueue_created, hlength]
    decide
  · rw [hvector]
    exact List.Perm.refl _

theorem every_partition_runs_oneQueue :
    ∃ machine, runWithoutSystemManager (Transport.scheduler oneQueueModule tenSeconds)
        (fun _ => 7) 3 0 ⟨1, 0⟩ ⟨(⟨1, 0⟩ : Timespec).toNano, []⟩ = some machine ∧
      ∀ i, machine.actions.count (.sigcont i) =
          framesRun (Transport.scheduler oneQueueModule tenSeconds) 3 0 *
            windows tenSeconds.schedulingVector i ∧
        (0 < windows tenSeconds.schedulingVector i ↔ i < oneQueueModule.partitionVector.length) :=
  every_partition_runs oneQueue_constructed (by decide) (by decide) (by decide) (fun _ => 7) 3
    ⟨1, 0⟩

end Arinc.Initialization
