import ArincEmulator.Lib.Runs
import ArincEmulator.ChannelWiring

/- Who creates a channel. The module manager and every network partition read the same
   configuration and go through the same source ports and proxies; `CanAddChannel`,
   of which each program is built with its own version, decides which of the channels
   a program creates. The names of the channels that a partition takes part in are
   stored in its vectors, and RUN_PARTITION looks them up.

   What is proved:
     1. `step_owned`: a creation leaves the configuration of the network partitions
        alone, creates nothing that the program does not own, and stores no name in a
        regular partition without its channel.
     2. `channel_ownership`: so at every point of the creation the module manager has
        no channel that a network partition lists, a network partition has none but
        those it lists, and RUN_PARTITION finds every channel it looks up. -/
namespace Arinc.ChannelWiring
open Runs

/-- The programs built from this source: the module manager, and with
    `ISNETWORK_PARTITION` a network partition, which has the name `net_partition`
    has, or none where that is null. -/
inductive Build where
  | moduleManager
  | networkPartition (netPartition : Option String)
  deriving DecidableEq, Repr

namespace Partition

/-- `CheckIfChannelExists`. -/
def checkIfChannelExists (p : Partition) (name : String) : Bool :=
  (p.channelSourceVector .sampling).contains name ||
    (p.channelSourceVector .queueing).contains name ||
    (p.channelInterModuleDstVector .queueing).contains name ||
    (p.channelInterModuleDstVector .sampling).contains name

/-- The name of a channel stored behind those that have their source in the partition. -/
def pushSource (kind : Kind) (name : String) (p : Partition) : Partition :=
  { p with
    channelSourceVector :=
      Function.update p.channelSourceVector kind (p.channelSourceVector kind ++ [name]) }

/-- The name of a channel stored with those from other modules, where it is not there
    already. -/
def pushInterModuleDst (kind : Kind) (name : String) (p : Partition) : Partition :=
  if (p.channelInterModuleDstVector kind).contains name then p
  else
    { p with
      channelInterModuleDstVector :=
        Function.update p.channelInterModuleDstVector kind
          (p.channelInterModuleDstVector kind ++ [name]) }

/-- The names stored in the two vectors of a kind. -/
def channelNames (p : Partition) (kind : Kind) : List String :=
  p.channelInterModuleDstVector kind ++ p.channelSourceVector kind

end Partition

namespace ModuleManager

/-- `CanAddChannel`, of the build. Where `net_partition` is null the loop ends at the
    first network partition. -/
def canAddChannel (m : ModuleManager) (build : Build) (name : String) : Bool :=
  match build with
  | .moduleManager =>
    !m.partitionVector.any fun p => p.isNetworkPartition && p.checkIfChannelExists name
  | .networkPartition netPartition =>
    m.partitionVector.any fun p =>
      p.isNetworkPartition && netPartition == some p.name && p.checkIfChannelExists name

/-- A partition of the vector changed. -/
def modifyPartition (m : ModuleManager) (j : Nat) (f : Partition → Partition) : ModuleManager :=
  { m with partitionVector := m.partitionVector.modify j f }

/-- A channel stored in the map of its kind, under its name. -/
def storeChannel (m : ModuleManager) (kind : Kind) (c : Channel) : ModuleManager :=
  { m with
    mapOfChannels := fun k name =>
      if k = kind ∧ name = c.channelName then some c else m.mapOfChannels k name }

end ModuleManager

section
variable (constructed : Kind → PortDescriptor → ReturnCode)

namespace ModuleManager

/-- The loop over the destinations of a channel from another module. The name of the
    channel is stored before the code of the destination is looked at. -/
def wireInterModuleDst (kind : Kind) :
    ModuleManager → Channel → List String → Except Failure (ModuleManager × Channel)
  | m, c, [] => .ok (m, c)
  | m, c, name :: names =>
    match findPartitionFromPort kind name m.partitionVector with
    | none => .error .thrown
    | some (j, descriptor) =>
      if descriptor.portDirection ≠ .destination then .error .thrown
      else
        let (returnCode, c) := c.add constructed kind descriptor
        let m := m.modifyPartition j (Partition.pushInterModuleDst kind c.channelName)
        (ensure (returnCode, c)).bind fun c => wireInterModuleDst kind m c names

/-- What the first part of the CREATE of a kind makes of a source port and the channel it
    is of. -/
def createSourceChannel (m : ModuleManager) (kind : Kind) (name : String) (port : PortDescriptor)
    (destination : List String) : Wiring :=
  match kind with
  | .sampling => m.createSamplingChannel constructed name port destination
  | .queueing => m.createQueueingChannel constructed name port destination

/-- What its second part makes of a proxy and the channel it is the source of. The code
    of `SET_MAX_SIZE_OF_MESSAGE` is overwritten. -/
def createInterModuleDst (m : ModuleManager) (kind : Kind) (name : String) (proxy : ProxyPort)
    (destination : List String) : Except Failure (ModuleManager × Channel) :=
  let c := Channel.construct name .interModuleDst proxy.portNumber
  let c := (c.setMaxSizeOfMessage proxy.maxMessageSize).2
  (ensure (c.setMaxSocketMessage (proxy.maxNbMessage % 2 ^ 32).toNat)).bind fun c =>
    (m.wireInterModuleDst constructed kind c destination).map fun (m, c) =>
      (m, { c with initialized := true })

end ModuleManager

/-- The rounds of CREATE_QUEUEING_CHANNELS and CREATE_SAMPLING_CHANNELS: one for each port
    of each partition, and one for each proxy. -/
inductive Creation where
  | source (kind : Kind) (counter k : Nat)
  | interModuleDst (kind : Kind) (sizevec : Nat)

namespace ModuleManager

/-- The round of a port. An exception leaves nothing: it ends the program. -/
def createSource (build : Build) (m : ModuleManager) (kind : Kind) (counter : Nat)
    (port : PortDescriptor) : Option ModuleManager :=
  if port.portDirection = .destination then some m
  else
    match m.channelMap.find? (·.2.source = port.name) with
    | none => some m
    | some (name, descriptor) =>
      if m.canAddChannel build name then
        match m.createSourceChannel constructed kind name port descriptor.destination with
        | ⟨_, some _⟩ => none
        | ⟨c, none⟩ =>
          some ((m.modifyPartition counter (Partition.pushSource kind c.channelName)).storeChannel
            kind c)
      else some m

/-- The round of a proxy. -/
def createFromProxy (build : Build) (m : ModuleManager) (kind : Kind) (proxy : ProxyPort) :
    Option ModuleManager :=
  if proxy.portDirection = .destination ∨ proxy.proxyType ≠ kind then some m
  else
    match m.channelMap.find? (·.2.source = proxy.name) with
    | none => some m
    | some (name, descriptor) =>
      if m.canAddChannel build name then
        match m.createInterModuleDst constructed kind name proxy descriptor.destination with
        | .error _ => none
        | .ok (m, c) => some (m.storeChannel kind c)
      else some m

/-- One round. -/
def step (build : Build) (m : ModuleManager) : Creation → Option ModuleManager
  | .source kind counter k =>
    (m.partitionVector[counter]?.bind fun p => (p.ports kind)[k]?).bind
      (m.createSource constructed build kind counter)
  | .interModuleDst kind sizevec =>
    m.proxyPorts[sizevec]?.bind (m.createFromProxy constructed build kind)

/-- The rounds of a kind, in their order. -/
def creations (m : ModuleManager) (kind : Kind) : List Creation :=
  (m.partitionVector.zipIdx.flatMap fun (p, counter) =>
    (List.range (p.ports kind).length).map (.source kind counter)) ++
  (List.range m.proxyPorts.length).map (.interModuleDst kind)

/-- CREATE_QUEUEING_CHANNELS and CREATE_SAMPLING_CHANNELS. -/
def createChannels (build : Build) (m : ModuleManager) (kind : Kind) : Option ModuleManager :=
  run (step constructed build) m (m.creations kind)

end ModuleManager
end

/-! ## The configuration -/

/-- What the programs read from the configuration: the network partitions with the
    channels they list, the kinds of these channels, and the regular partitions with
    their ports. -/
structure Configuration where
  networkPartitions : List (String × List String)
  kindOf : String → Kind
  partitions : List (String × (Kind → List PortDescriptor))
  proxyPorts : List ProxyPort
  channelMap : List (String × ChannelDescriptor)

namespace Configuration
variable (cfg : Configuration)

/-- A network partition has no ports, and stores the channels it lists. -/
def networkPartition (listed : String × List String) : Partition :=
  ⟨listed.1, true, fun _ => [], fun kind => listed.2.filter (cfg.kindOf · = kind), fun _ => []⟩

/-- A regular partition stores none at first. -/
def regularPartition (configured : String × (Kind → List PortDescriptor)) : Partition :=
  ⟨configured.1, false, configured.2, fun _ => [], fun _ => []⟩

/-- CREATE_NETWORK_PARTITION_VECTOR. -/
def networkPartitionVector : List Partition :=
  cfg.networkPartitions.map cfg.networkPartition

/-- CREATE_PARTITION_VECTOR up to the creation of the channels. -/
def start : ModuleManager where
  partitionVector :=
    cfg.networkPartitionVector ++ cfg.partitions.map regularPartition
  proxyPorts := cfg.proxyPorts
  channelMap := cfg.channelMap
  mapOfChannels := fun _ _ => none

/-- CREATE_PARTITION_VECTOR. -/
def createPartitionVector (constructed : Kind → PortDescriptor → ReturnCode) (build : Build) :
    Option ModuleManager :=
  (cfg.start.createChannels constructed build .queueing).bind fun m =>
    m.createChannels constructed build .sampling

/-- The states it goes through: after some of the rounds for the queueing channels, or
    after all of these and some of those for the sampling channels. -/
def Reached (constructed : Kind → PortDescriptor → ReturnCode) (build : Build)
    (m : ModuleManager) : Prop :=
  (∃ as, as <+: cfg.start.creations .queueing ∧
    run (ModuleManager.step constructed build) cfg.start as = some m) ∨
  ∃ queueing as, cfg.start.createChannels constructed build .queueing = some queueing ∧
    as <+: queueing.creations .sampling ∧
    run (ModuleManager.step constructed build) queueing as = some m

end Configuration

/-- The channels RUN_PARTITION moves for the partition of an index, before the partition
    runs and after, as it finds them in the maps. Network partitions move their own. -/
def ModuleManager.runPartition (m : ModuleManager) (partitionIndex : Nat) :
    List (Option Channel) :=
  match m.partitionVector[partitionIndex]? with
  | none => []
  | some p =>
    if p.isNetworkPartition then []
    else
      (p.channelInterModuleDstVector .queueing).map (m.mapOfChannels .queueing) ++
        (p.channelInterModuleDstVector .sampling).map (m.mapOfChannels .sampling) ++
        (p.channelSourceVector .queueing).map (m.mapOfChannels .queueing) ++
        (p.channelSourceVector .sampling).map (m.mapOfChannels .sampling)

/-! ## What a creation keeps -/

/-- The channels that a build is there to create. -/
def Build.Owns (build : Build) (cfg : Configuration) (name : String) : Prop :=
  match build with
  | .moduleManager => ∀ listed ∈ cfg.networkPartitions, name ∉ listed.2
  | .networkPartition netPartition =>
    ∃ listed ∈ cfg.networkPartitions, netPartition = some listed.1 ∧ name ∈ listed.2

/-- The names in the vectors of the regular partitions are all held. -/
def ModuleManager.Stored (m : ModuleManager) (held : Kind → String → Prop) : Prop :=
  ∀ p ∈ m.partitionVector, p.isNetworkPartition = false →
    ∀ kind, ∀ name ∈ p.channelNames kind, held kind name

/-- The network partitions of the vector. -/
def ModuleManager.networkPartitions (m : ModuleManager) : List Partition :=
  m.partitionVector.filter (·.isNetworkPartition)

/-- What every point of the creation has. -/
structure Owned (build : Build) (cfg : Configuration) (m : ModuleManager) : Prop where
  networks : m.networkPartitions = cfg.networkPartitionVector
  owned : ∀ kind name, (m.mapOfChannels kind name).isSome → build.Owns cfg name
  stored : m.Stored fun kind name => (m.mapOfChannels kind name).isSome

theorem mem_channelNames {p : Partition} {kind : Kind} {name : String} :
    name ∈ p.channelNames kind ↔
      name ∈ p.channelInterModuleDstVector kind ∨ name ∈ p.channelSourceVector kind :=
  List.mem_append

theorem checkIfChannelExists_iff {p : Partition} {name : String} :
    p.checkIfChannelExists name = true ↔ ∃ kind, name ∈ p.channelNames kind := by
  simp only [Partition.checkIfChannelExists, Bool.or_eq_true, List.contains_iff_mem,
    mem_channelNames]
  constructor
  · rintro (((h | h) | h) | h)
    · exact ⟨.sampling, Or.inr h⟩
    · exact ⟨.queueing, Or.inr h⟩
    · exact ⟨.queueing, Or.inl h⟩
    · exact ⟨.sampling, Or.inl h⟩
  · rintro ⟨kind, h⟩
    cases kind <;> cases h <;> simp [*]

/-- A change of a partition that concerns one name of its vectors of one kind. -/
structure Stores (kind : Kind) (name : String) (f : Partition → Partition) : Prop where
  isNetworkPartition : ∀ p, (f p).isNetworkPartition = p.isNetworkPartition
  channelNames : ∀ p k n, n ∈ (f p).channelNames k → n ∈ p.channelNames k ∨ k = kind ∧ n = name

theorem pushSource_stores (kind : Kind) (name : String) :
    Stores kind name (Partition.pushSource kind name) where
  isNetworkPartition _ := rfl
  channelNames p k n h := by
    rw [mem_channelNames] at h ⊢
    by_cases hk : k = kind
    · subst hk
      simp [Partition.pushSource] at h
      tauto
    · simp [Partition.pushSource, hk] at h
      exact Or.inl h

theorem pushInterModuleDst_stores (kind : Kind) (name : String) :
    Stores kind name (Partition.pushInterModuleDst kind name) where
  isNetworkPartition p := by
    rw [Partition.pushInterModuleDst]
    split <;> rfl
  channelNames p k n h := by
    rw [Partition.pushInterModuleDst] at h
    split at h
    · exact Or.inl h
    · rw [mem_channelNames] at h ⊢
      by_cases hk : k = kind
      · subst hk
        simp at h
        tauto
      · simp [hk] at h
        exact Or.inl h

@[simp] theorem networkPartition_name (cfg : Configuration) (listed : String × List String) :
    (cfg.networkPartition listed).name = listed.1 := rfl

theorem networkPartition_lists (cfg : Configuration) (listed : String × List String)
    (name : String) :
    (cfg.networkPartition listed).checkIfChannelExists name = true ↔ name ∈ listed.2 := by
  rw [checkIfChannelExists_iff]
  simp [mem_channelNames, Configuration.networkPartition]

theorem mem_modify {α : Type*} {l : List α} {j : Nat} {f : α → α} {b : α}
    (h : b ∈ l.modify j f) : b ∈ l ∨ ∃ a ∈ l, b = f a := by
  obtain ⟨i, hi⟩ := List.mem_iff_getElem?.mp h
  rw [List.getElem?_modify] at hi
  obtain ⟨a, ha, hab⟩ := Option.map_eq_some_iff.mp hi
  have hmem : a ∈ l := List.mem_of_getElem? ha
  split at hab
  · exact Or.inr ⟨a, hmem, hab.symm⟩
  · exact Or.inl (hab ▸ hmem)

theorem filter_modify {α : Type*} {l : List α} {j : Nat} {f : α → α} {a : α} {q : α → Bool}
    (h : l[j]? = some a) (ha : q a = false) (hf : q (f a) = false) :
    (l.modify j f).filter q = l.filter q := by
  obtain ⟨hlt, hentry⟩ := List.getElem?_eq_some_iff.mp h
  obtain ⟨before, b, after, hl, hlength, hmodify⟩ := List.exists_of_modify f hlt
  have hb : b = a := by
    rw [← hentry]
    simp [hl, ← hlength]
  rw [hmodify, hl, hb]
  simp [List.filter_append, ha, hf]

namespace ModuleManager
variable {m : ModuleManager} {held held' : Kind → String → Prop} {kind : Kind} {name : String}

theorem Stored.mono (h : m.Stored held) (himp : ∀ k n, held k n → held' k n) : m.Stored held' :=
  fun p hp hregular k n hn => himp k n (h p hp hregular k n hn)

theorem Stored.modify (h : m.Stored held) {f : Partition → Partition} (hf : Stores kind name f)
    (hname : held kind name) (j : Nat) : (m.modifyPartition j f).Stored held := by
  intro p hp hregular k n hn
  obtain hold | ⟨q, hq, rfl⟩ := mem_modify hp
  · exact h p hold hregular k n hn
  · obtain hn | ⟨rfl, rfl⟩ := hf.channelNames q k n hn
    · exact h q hq (by rwa [hf.isNetworkPartition] at hregular) k n hn
    · exact hname

theorem storeChannel_isSome {c : Channel} {k : Kind} {n : String} :
    ((m.storeChannel kind c).mapOfChannels k n).isSome ↔
      k = kind ∧ n = c.channelName ∨ (m.mapOfChannels k n).isSome := by
  rw [storeChannel]
  by_cases h : k = kind ∧ n = c.channelName <;> simp [h]

end ModuleManager

theorem findPartitionFromPort_some {kind : Kind} {portName : String} {partitions : List Partition}
    {j : Nat} {descriptor : PortDescriptor}
    (h : findPartitionFromPort kind portName partitions = some (j, descriptor)) :
    ∃ p, partitions[j]? = some p ∧ descriptor ∈ p.ports kind := by
  induction partitions generalizing j with
  | nil => cases h
  | cons partition partitions ih =>
    rw [findPartitionFromPort] at h
    cases hfind : (partition.ports kind).find? (·.name = portName) with
    | some found =>
      simp only [hfind] at h
      obtain ⟨rfl, rfl⟩ := Prod.mk.inj (Option.some.inj h)
      exact ⟨partition, rfl, List.mem_of_find?_eq_some hfind⟩
    | none =>
      simp only [hfind] at h
      obtain ⟨⟨counter, found⟩, hrest, heq⟩ := Option.map_eq_some_iff.mp h
      obtain ⟨rfl, rfl⟩ := Prod.mk.inj heq
      exact ih hrest

section
variable {build : Build} {cfg : Configuration} {m : ModuleManager}

/-- The network partitions of a state are those of the configuration, which have no ports. -/
theorem regular_of_port (h : m.networkPartitions = cfg.networkPartitionVector)
    {j : Nat} {p : Partition} (hp : m.partitionVector[j]? = some p) {kind : Kind}
    {descriptor : PortDescriptor} (hport : descriptor ∈ p.ports kind) :
    p.isNetworkPartition = false := by
  by_contra hnetwork
  have hmem : p ∈ cfg.networkPartitionVector := by
    rw [← h]
    exact List.mem_filter.mpr ⟨List.mem_of_getElem? hp, by simpa using hnetwork⟩
  obtain ⟨listed, -, rfl⟩ := List.mem_map.mp hmem
  cases hport

theorem networks_modify (h : m.networkPartitions = cfg.networkPartitionVector)
    {j : Nat} {p : Partition} (hp : m.partitionVector[j]? = some p) {kind : Kind}
    {descriptor : PortDescriptor} (hport : descriptor ∈ p.ports kind) {name : String}
    {f : Partition → Partition} (hf : Stores kind name f) :
    (m.modifyPartition j f).networkPartitions = cfg.networkPartitionVector := by
  have hregular := regular_of_port h hp hport
  exact (filter_modify hp hregular ((hf.isNetworkPartition p).trans hregular)).trans h

theorem canAddChannel_iff
    (h : m.networkPartitions = cfg.networkPartitionVector) (name : String) :
    m.canAddChannel build name = true ↔ build.Owns cfg name := by
  cases build with
  | moduleManager =>
    rw [ModuleManager.canAddChannel, ← List.any_filter, ← ModuleManager.networkPartitions, h,
      Configuration.networkPartitionVector]
    simp [Build.Owns, networkPartition_lists]
  | networkPartition netPartition =>
    simp only [ModuleManager.canAddChannel, Bool.and_assoc]
    rw [← List.any_filter, ← ModuleManager.networkPartitions, h,
      Configuration.networkPartitionVector, List.any_map, List.any_eq_true]
    apply exists_congr
    intro listed
    simp only [Function.comp_apply, Bool.and_eq_true, beq_iff_eq, networkPartition_lists,
      networkPartition_name]

/-! ### The name of a channel -/

theorem sourceChannel_channelName {constructed : Kind → PortDescriptor → ReturnCode}
    {loop : Channel → List String → Wiring} {kind : Kind} {name : String} {port : PortDescriptor}
    {destination : List String}
    (hloop : ∀ c : Channel, c.UnderConstruction → c.channelName = name →
      (loop c destination).channel.channelName = name) :
    (sourceChannel loop (withSource constructed kind name port) name
      destination).channel.channelName = name := by
  cases hadded : withSource constructed kind name port with
  | error failure => rfl
  | ok c =>
    have hname := hloop c (withSource_ok hadded).1 (withSource_channelName hadded)
    rw [sourceChannel]
    cases hw : loop c destination with
    | mk c' failure =>
      rw [hw] at hname
      cases failure <;> exact hname

theorem createSourceChannel_channelName (constructed : Kind → PortDescriptor → ReturnCode)
    (m : ModuleManager) (kind : Kind) (name : String) (port : PortDescriptor)
    (destination : List String) :
    (m.createSourceChannel constructed kind name port destination).channel.channelName = name := by
  have hattach : ∀ (c : Channel) endpoint, c.channelName = name →
      (c.attach endpoint).channelName = name := by
    intro c endpoint hname
    cases endpoint <;> exact hname
  cases kind with
  | sampling =>
    exact sourceChannel_channelName fun c hc hname =>
      ModuleManager.carryingLoop_keeps constructed m .sampling hattach hc hname destination
  | queueing =>
    refine sourceChannel_channelName fun c hc hname => ?_
    rw [ModuleManager.resettingLoop_eq_rule hc]
    exact ModuleManager.wireRule_keeps constructed m .queueing hattach hname destination

theorem add_channelName (constructed : Kind → PortDescriptor → ReturnCode) (kind : Kind)
    (c : Channel) (port : PortDescriptor) :
    (c.add constructed kind port).2.channelName = c.channelName := by
  cases kind with
  | sampling =>
    rw [Channel.add, Channel.addDestination]
    split_ifs
    · rfl
    · rfl
    · cases constructed .sampling port <;> rfl
  | queueing =>
    rw [Channel.add, Channel.addDestinationQueue]
    split_ifs <;> rfl

/-! ### One round -/

theorem ensure_bind_ok {α β : Type*} {answer : ReturnCode × α} {f : α → Except Failure β} {b : β}
    (h : (ensure answer).bind f = .ok b) : f answer.2 = .ok b := by
  obtain ⟨returnCode, a⟩ := answer
  cases returnCode with
  | noError => exact h
  | _ => cases h

/-- The loop over the destinations of a channel from another module stores no name but
    that of the channel, and only in regular partitions. -/
theorem wireInterModuleDst_stored {constructed : Kind → PortDescriptor → ReturnCode}
    {m m' : ModuleManager} {kind : Kind} {c c' : Channel} {names : List String}
    {held : Kind → String → Prop}
    (hnetworks : m.networkPartitions = cfg.networkPartitionVector)
    (hstored : m.Stored held) (hheld : held kind c.channelName)
    (h : m.wireInterModuleDst constructed kind c names = .ok (m', c')) :
    m'.networkPartitions = cfg.networkPartitionVector ∧
      m'.Stored held ∧ m'.mapOfChannels = m.mapOfChannels ∧ c'.channelName = c.channelName := by
  -- The induction is on the destinations still to wire.
  induction names generalizing m c with
  | nil =>
    obtain ⟨rfl, rfl⟩ := Prod.mk.inj (Except.ok.inj h)
    exact ⟨hnetworks, hstored, rfl, rfl⟩
  | cons name names ih =>
    rw [ModuleManager.wireInterModuleDst] at h
    cases hfind : findPartitionFromPort kind name m.partitionVector with
    | none => simp [hfind] at h
    | some found =>
      obtain ⟨j, descriptor⟩ := found
      obtain ⟨p, hp, hport⟩ := findPartitionFromPort_some hfind
      have hname := add_channelName constructed kind c descriptor
      simp only [hfind] at h
      split at h
      · cases h
      · have hrest := ensure_bind_ok h
        have hpush :=
          pushInterModuleDst_stores kind (c.add constructed kind descriptor).2.channelName
        have hheld' : held kind (c.add constructed kind descriptor).2.channelName := by
          rwa [hname]
        obtain ⟨hnetworks', hstored', hmap, hchannel⟩ :=
          ih (networks_modify hnetworks hp hport hpush) (hstored.modify hpush hheld' j) hheld' hrest
        exact ⟨hnetworks', hstored', hmap, hchannel.trans hname⟩

theorem createInterModuleDst_stored {constructed : Kind → PortDescriptor → ReturnCode}
    {m m' : ModuleManager} {kind : Kind} {name : String} {proxy : ProxyPort} {c : Channel}
    {destination : List String} {held : Kind → String → Prop}
    (hnetworks : m.networkPartitions = cfg.networkPartitionVector)
    (hstored : m.Stored held) (hheld : held kind name)
    (h : m.createInterModuleDst constructed kind name proxy destination = .ok (m', c)) :
    m'.networkPartitions = cfg.networkPartitionVector ∧
      m'.Stored held ∧ m'.mapOfChannels = m.mapOfChannels ∧ c.channelName = name := by
  rw [ModuleManager.createInterModuleDst] at h
  have hloop := ensure_bind_ok h
  simp only at hloop
  generalize hconfigured : (Channel.setMaxSocketMessage _ _).2 = configured at hloop
  have hname : configured.channelName = name := by
    rw [← hconfigured]
    rfl
  cases hwired : m.wireInterModuleDst constructed kind configured destination with
  | error failure => simp [hwired, Except.map] at hloop
  | ok made =>
    obtain ⟨m₁, c₁⟩ := made
    simp only [hwired, Except.map] at hloop
    obtain ⟨rfl, rfl⟩ := Prod.mk.inj (Except.ok.inj hloop)
    obtain ⟨hnetworks', hstored', hmap, hchannel⟩ :=
      wireInterModuleDst_stored hnetworks hstored (by rwa [hname]) hwired
    exact ⟨hnetworks', hstored', hmap, hchannel.trans hname⟩

theorem Owned.storeChannel {kind : Kind} {c : Channel}
    (hnetworks : m.networkPartitions = cfg.networkPartitionVector)
    (howned : ∀ k n, (m.mapOfChannels k n).isSome → build.Owns cfg n)
    (hc : build.Owns cfg c.channelName)
    (hstored : m.Stored fun k n => k = kind ∧ n = c.channelName ∨ (m.mapOfChannels k n).isSome) :
    Owned build cfg (m.storeChannel kind c) where
  networks := hnetworks
  owned k n h := by
    obtain ⟨-, rfl⟩ | h := ModuleManager.storeChannel_isSome.mp h
    · exact hc
    · exact howned k n h
  stored p hp hregular k n hn :=
    ModuleManager.storeChannel_isSome.mpr (hstored p hp hregular k n hn)

section
variable {constructed : Kind → PortDescriptor → ReturnCode} {m' : ModuleManager}

theorem createSource_owned (h : Owned build cfg m) {kind : Kind} {counter : Nat} {p : Partition}
    {port : PortDescriptor} (hp : m.partitionVector[counter]? = some p)
    (hport : port ∈ p.ports kind)
    (hstep : m.createSource constructed build kind counter port = some m') :
    Owned build cfg m' := by
  rw [ModuleManager.createSource] at hstep
  split at hstep
  · obtain rfl := Option.some.inj hstep
    exact h
  · cases hfind : m.channelMap.find? (·.2.source = port.name) with
    | none =>
      simp only [hfind] at hstep
      obtain rfl := Option.some.inj hstep
      exact h
    | some entry =>
      obtain ⟨name, descriptor⟩ := entry
      simp only [hfind] at hstep
      split at hstep
      -- CanAddChannel has passed, so the channel is the program's to create.
      · rename_i hcan
        have hname := createSourceChannel_channelName constructed m kind name port
          descriptor.destination
        cases hw : m.createSourceChannel constructed kind name port descriptor.destination with
        | mk c failure =>
          rw [hw] at hname hstep
          cases failure with
          | some failure => cases hstep
          | none =>
            obtain rfl := Option.some.inj hstep
            obtain rfl : c.channelName = name := hname
            have hpush := pushSource_stores kind c.channelName
            have hstored := h.stored.mono fun k n hn =>
              (Or.inr hn : k = kind ∧ n = c.channelName ∨ (m.mapOfChannels k n).isSome)
            exact Owned.storeChannel (networks_modify h.networks hp hport hpush) h.owned
              ((canAddChannel_iff h.networks c.channelName).mp hcan)
              (hstored.modify hpush (Or.inl ⟨rfl, rfl⟩) counter)
      · obtain rfl := Option.some.inj hstep
        exact h

theorem createFromProxy_owned (h : Owned build cfg m) {kind : Kind} {proxy : ProxyPort}
    (hstep : m.createFromProxy constructed build kind proxy = some m') : Owned build cfg m' := by
  rw [ModuleManager.createFromProxy] at hstep
  split at hstep
  · obtain rfl := Option.some.inj hstep
    exact h
  · cases hfind : m.channelMap.find? (·.2.source = proxy.name) with
    | none =>
      simp only [hfind] at hstep
      obtain rfl := Option.some.inj hstep
      exact h
    | some entry =>
      obtain ⟨name, descriptor⟩ := entry
      simp only [hfind] at hstep
      split at hstep
      · rename_i hcan
        cases hcreate :
          m.createInterModuleDst constructed kind name proxy descriptor.destination with
        | error failure => simp [hcreate] at hstep
        | ok made =>
          obtain ⟨m₁, c⟩ := made
          simp only [hcreate] at hstep
          obtain rfl := Option.some.inj hstep
          obtain ⟨hnetworks, hstored, hmap, hname⟩ := createInterModuleDst_stored h.networks
            (h.stored.mono fun k n hn =>
              (Or.inr hn : k = kind ∧ n = name ∨ (m.mapOfChannels k n).isSome))
            (Or.inl ⟨rfl, rfl⟩) hcreate
          subst hname
          refine Owned.storeChannel hnetworks ?_ ((canAddChannel_iff h.networks _).mp hcan) ?_
          · rw [hmap]
            exact h.owned
          · rw [hmap]
            exact hstored
      · obtain rfl := Option.some.inj hstep
        exact h

theorem step_owned (h : Owned build cfg m) {creation : Creation}
    (hstep : m.step constructed build creation = some m') : Owned build cfg m' := by
  cases creation with
  | source kind counter k =>
    obtain ⟨port, hentry, hsource⟩ := Option.bind_eq_some_iff.mp hstep
    obtain ⟨p, hp, hport⟩ := Option.bind_eq_some_iff.mp hentry
    exact createSource_owned h hp (List.mem_of_getElem? hport) hsource
  | interModuleDst kind sizevec =>
    obtain ⟨proxy, -, hproxy⟩ := Option.bind_eq_some_iff.mp hstep
    exact createFromProxy_owned h hproxy

theorem run_owned (h : Owned build cfg m) {creations : List Creation}
    (hrun : run (ModuleManager.step constructed build) m creations = some m') :
    Owned build cfg m' :=
  run_invariant (I := Owned build cfg) (fun _ _ _ hs hstep => step_owned hs hstep) h hrun

end
end

/-! ## Every configuration -/

theorem start_owned (build : Build) (cfg : Configuration) : Owned build cfg cfg.start where
  networks := by
    have hnetwork : ∀ p ∈ cfg.networkPartitionVector, p.isNetworkPartition = true := by
      intro p hp
      obtain ⟨listed, -, rfl⟩ := List.mem_map.mp hp
      rfl
    have hregular : ∀ p ∈ cfg.partitions.map Configuration.regularPartition,
        ¬ p.isNetworkPartition = true := by
      intro p hp
      obtain ⟨configured, -, rfl⟩ := List.mem_map.mp hp
      nofun
    rw [ModuleManager.networkPartitions, Configuration.start, List.filter_append,
      List.filter_eq_self.mpr hnetwork, List.filter_eq_nil_iff.mpr hregular, List.append_nil]
  owned kind name h := by cases h
  stored p hp hregular kind name hname := by
    obtain hp | hp := List.mem_append.mp hp
    · obtain ⟨listed, -, rfl⟩ := List.mem_map.mp hp
      cases hregular
    · obtain ⟨configured, -, rfl⟩ := List.mem_map.mp hp
      cases hname

theorem Configuration.Reached.owned {cfg : Configuration} {build : Build} {m : ModuleManager}
    {constructed : Kind → PortDescriptor → ReturnCode} (h : cfg.Reached constructed build m) :
    Owned build cfg m := by
  obtain ⟨as, -, hrun⟩ | ⟨queueing, as, hqueueing, -, hrun⟩ := h
  · exact run_owned (start_owned build cfg) hrun
  · exact run_owned (run_owned (start_owned build cfg) hqueueing) hrun

theorem Configuration.createPartitionVector_reached {cfg : Configuration} {build : Build}
    {m : ModuleManager} {constructed : Kind → PortDescriptor → ReturnCode}
    (h : cfg.createPartitionVector constructed build = some m) :
    cfg.Reached constructed build m := by
  obtain ⟨queueing, hqueueing, hsampling⟩ := Option.bind_eq_some_iff.mp h
  exact Or.inr ⟨queueing, queueing.creations .sampling, hqueueing, List.prefix_rfl, hsampling⟩

/-- RUN_PARTITION finds every channel it looks up. -/
theorem Owned.runPartition {build : Build} {cfg : Configuration} {m : ModuleManager}
    (h : Owned build cfg m) {i : Nat} {channel : Option Channel}
    (hchannel : channel ∈ m.runPartition i) : channel.isSome := by
  rw [ModuleManager.runPartition] at hchannel
  cases hp : m.partitionVector[i]? with
  | none =>
    rw [hp] at hchannel
    cases hchannel
  | some p =>
    simp only [hp] at hchannel
    split at hchannel
    · cases hchannel
    · rename_i hnetwork
      have hstored := h.stored p (List.mem_of_getElem? hp) (by simpa using hnetwork)
      simp only [List.mem_append, List.mem_map] at hchannel
      obtain ((⟨name, hname, rfl⟩ | ⟨name, hname, rfl⟩) | ⟨name, hname, rfl⟩) |
        ⟨name, hname, rfl⟩ := hchannel
      · exact hstored .queueing name (mem_channelNames.mpr (Or.inl hname))
      · exact hstored .sampling name (mem_channelNames.mpr (Or.inl hname))
      · exact hstored .queueing name (mem_channelNames.mpr (Or.inr hname))
      · exact hstored .sampling name (mem_channelNames.mpr (Or.inr hname))

/-- At every point of the creation, in the module manager and in the network partition of
    a name: the module manager has created no channel that a network partition lists, the
    network partition none but those it lists, so neither has one that the other has. The
    names stored in the regular partitions are those of channels in the maps, and
    RUN_PARTITION finds each channel it looks up. -/
theorem channel_ownership {cfg : Configuration} {netPartition : String} {mm np : ModuleManager}
    {constructed constructed' : Kind → PortDescriptor → ReturnCode}
    (hmm : cfg.Reached constructed .moduleManager mm)
    (hnp : cfg.Reached constructed' (.networkPartition (some netPartition)) np) :
    (∀ kind name, (mm.mapOfChannels kind name).isSome →
        ∀ listed ∈ cfg.networkPartitions, name ∉ listed.2) ∧
      (∀ kind name, (np.mapOfChannels kind name).isSome →
        ∃ channels, (netPartition, channels) ∈ cfg.networkPartitions ∧ name ∈ channels) ∧
      (∀ kind kind' name, (mm.mapOfChannels kind name).isSome →
        np.mapOfChannels kind' name = none) ∧
      (∀ m, m = mm ∨ m = np → ∀ p ∈ m.partitionVector, p.isNetworkPartition = false →
        ∀ kind, ∀ name ∈ p.channelNames kind, (m.mapOfChannels kind name).isSome) ∧
      ∀ partitionIndex, none ∉ mm.runPartition partitionIndex := by
  have hmmOwned := hmm.owned
  have hnpOwned := hnp.owned
  have hlisted : ∀ kind name, (np.mapOfChannels kind name).isSome →
      ∃ channels, (netPartition, channels) ∈ cfg.networkPartitions ∧ name ∈ channels := by
    intro kind name h
    obtain ⟨⟨listedName, channels⟩, hmem, hname, hin⟩ := hnpOwned.owned kind name h
    obtain rfl := Option.some.inj hname
    exact ⟨channels, hmem, hin⟩
  refine ⟨hmmOwned.owned, hlisted, fun kind kind' name h => ?_, ?_, fun i hnone => ?_⟩
  · by_contra hboth
    obtain ⟨channels, hmem, hin⟩ := hlisted kind' name (Option.ne_none_iff_isSome.mp hboth)
    exact hmmOwned.owned kind name h (netPartition, channels) hmem hin
  · rintro m (rfl | rfl)
    · exact hmmOwned.stored
    · exact hnpOwned.stored
  · exact Bool.noConfusion (hmmOwned.runPartition hnone)

/-- A configuration with a channel within the module, and one that the network partition
    `net` lists. -/
def sharedConfiguration : Configuration where
  networkPartitions := [("net", ["outward"])]
  kindOf := fun _ => .sampling
  partitions :=
    [("sender", fun
        | .sampling => [⟨"out", 4, 0, .source⟩, ⟨"far", 4, 0, .source⟩]
        | .queueing => []),
      ("receiver", fun
        | .sampling => [⟨"in", 4, 0, .destination⟩]
        | .queueing => [])]
  proxyPorts := [⟨.sampling, "remote", "module2", 5000, 4, 1, .destination⟩]
  channelMap := [("inward", ⟨"out", ["in"]⟩), ("outward", ⟨"far", ["remote"]⟩)]

theorem channel_ownership_shared :
    ∃ mm np,
      sharedConfiguration.createPartitionVector (fun _ _ => .noError) .moduleManager = some mm ∧
      sharedConfiguration.createPartitionVector (fun _ _ => .noError)
        (.networkPartition (some "net")) = some np ∧
      (mm.mapOfChannels .sampling "inward").isSome ∧
      (np.mapOfChannels .sampling "outward").isSome ∧
      mm.mapOfChannels .sampling "outward" = none ∧
      np.mapOfChannels .sampling "inward" = none := by
  have hmm : ((sharedConfiguration.createPartitionVector (fun _ _ => .noError)
      .moduleManager).map fun m => (m.mapOfChannels .sampling "inward").isSome) = some true := by
    decide
  have hnp : ((sharedConfiguration.createPartitionVector (fun _ _ => .noError)
      (.networkPartition (some "net"))).map fun m =>
        (m.mapOfChannels .sampling "outward").isSome) = some true := by
    decide
  obtain ⟨mm, hmm, hinward⟩ := Option.map_eq_some_iff.mp hmm
  obtain ⟨np, hnp, houtward⟩ := Option.map_eq_some_iff.mp hnp
  obtain ⟨hunlisted, -, hdisjoint, -, -⟩ := channel_ownership
    (Configuration.createPartitionVector_reached hmm)
    (Configuration.createPartitionVector_reached hnp)
  refine ⟨mm, np, hmm, hnp, hinward, houtward, ?_, hdisjoint .sampling .sampling "inward" hinward⟩
  by_contra hsome
  exact hunlisted .sampling "outward" (Option.ne_none_iff_isSome.mp hsome) ("net", ["outward"])
    (by decide) (by decide)

end Arinc.ChannelWiring
