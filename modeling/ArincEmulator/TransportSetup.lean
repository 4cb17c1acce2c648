import ArincEmulator.Lib.Throwing
import ArincEmulator.Transport

/- What CREATE_PARTITION_VECTOR lays out. The channels are created one after the other,
   and each round adds names to the vectors of the partitions and a channel to a map.
   Nothing in these programs checks that the ports of the configuration have different
   names or that a destination is in one channel only; where both hold, the channels do
   not get into each other's way.

   What is proved (`created_layout`): from every such configuration, whatever the ports
   answer when they are constructed, each program creates a layout in which the channels
   go from source ports to destination ports and share none of them; and a channel that
   has a source is listed in the partition of the source, a regular one, and takes only
   messages that its destinations take. -/
namespace Arinc.Transport
open Runs ChannelWiring Throwing

/-- The ports of a kind have different names, and no destination is in two channels. -/
structure Separate (cfg : Configuration) : Prop where
  ports : ∀ kind, ((cfg.partitions.flatMap (·.2 kind)).map (·.name)).Nodup
  destinations : (cfg.channelMap.flatMap (·.2.destination)).Nodup

/-- What the creation leaves alone in the partitions. -/
def shape (m : ChannelWiring.ModuleManager) : List (Bool × (Kind → List PortDescriptor)) :=
  m.partitionVector.map fun p => (p.isNetworkPartition, p.ports)

/-! ## What the loops wire -/

/-- What a loop over the destinations of some names adds to a channel: local ones that
    it found by a name and that take its messages, and addresses. -/
structure Wires (m : ChannelWiring.ModuleManager) (kind : Kind) (c : Channel)
    (names : List String) (c' : Channel) : Prop where
  channelName : c'.channelName = c.channelName
  source : c'.source = c.source
  maxSizeOfMessage : c'.maxSizeOfMessage = c.maxSizeOfMessage
  recvMySocket : c'.recvMySocket = c.recvMySocket
  initialized : c'.initialized = c.initialized
  added : ∃ ds, c'.destinations = c.destinations ++ ds ∧
    (ds.map (·.name)).Sublist names ∧
    ∀ d ∈ ds, (∃ j, HasPort m kind .destination j d) ∧
      kind.allows c.maxSizeOfMessage d.maxMessageSize = true

theorem findPartitionFromPort_name {kind : Kind} {name : String}
    {partitions : List Partition} {j : Nat} {d : PortDescriptor}
    (h : findPartitionFromPort kind name partitions = some (j, d)) : d.name = name := by
  induction partitions generalizing j with
  | nil => cases h
  | cons partition partitions ih =>
    rw [findPartitionFromPort] at h
    cases hfirst : (partition.ports kind).find? (·.name = name) with
    | some found =>
      simp only [hfirst] at h
      obtain ⟨-, rfl⟩ := Prod.mk.inj (Option.some.inj h)
      simpa using List.find?_some hfirst
    | none =>
      simp only [hfirst] at h
      obtain ⟨⟨counter, found⟩, hrest, heq⟩ := Option.map_eq_some_iff.mp h
      obtain ⟨-, rfl⟩ := Prod.mk.inj heq
      exact ih hrest

section
variable {constructed : Kind → PortDescriptor → ReturnCode} {m : ChannelWiring.ModuleManager}
  {kind : Kind} {c c' c'' : Channel} {name : String} {names : List String}

theorem Wires.none (m : ChannelWiring.ModuleManager) (kind : Kind) (c : Channel)
    (names : List String) : Wires m kind c names c :=
  ⟨rfl, rfl, rfl, rfl, rfl, [], by simp, List.nil_sublist names, by simp⟩

theorem Wires.proxy (m : ChannelWiring.ModuleManager) (kind : Kind) (c : Channel)
    (names : List String) (proxy : ProxyPort) : Wires m kind c names (c.attach (.proxy proxy)) :=
  ⟨rfl, rfl, rfl, rfl, rfl, [], by simp [Channel.attach], List.nil_sublist names, by simp⟩

theorem Wires.port {j : Nat} {d : PortDescriptor}
    (hfind : findPartitionFromPort kind name m.partitionVector = some (j, d))
    (hdirection : d.portDirection = .destination)
    (hallows : kind.allows c.maxSizeOfMessage d.maxMessageSize = true) :
    Wires m kind c [name] (c.attach (.port d)) := by
  obtain ⟨p, hp, hd⟩ := findPartitionFromPort_some hfind
  have hname : d.name = name := findPartitionFromPort_name hfind
  refine ⟨rfl, rfl, rfl, rfl, rfl, [d], rfl, by simp [hname], ?_⟩
  intro e he
  rw [List.mem_singleton.mp he]
  exact ⟨⟨j, p, hp, hd, hdirection⟩, hallows⟩

theorem Wires.trans {names' : List String} (h : Wires m kind c names c')
    (h' : Wires m kind c' names' c'') : Wires m kind c (names ++ names') c'' := by
  obtain ⟨ds, hds, hnames, hports⟩ := h.added
  obtain ⟨ds', hds', hnames', hports'⟩ := h'.added
  refine ⟨h'.channelName.trans h.channelName, h'.source.trans h.source,
    h'.maxSizeOfMessage.trans h.maxSizeOfMessage,
    h'.recvMySocket.trans h.recvMySocket, h'.initialized.trans h.initialized, ds ++ ds', ?_, ?_, ?_⟩
  · rw [hds', hds, List.append_assoc]
  · rw [List.map_append]
    exact hnames.append hnames'
  · intro d hd
    obtain hd | hd := List.mem_append.mp hd
    · exact hports d hd
    · rw [← h.maxSizeOfMessage]
      exact hports' d hd

theorem ensure_add_ok {d : PortDescriptor} (hc : c.initialized = false)
    (h : ensure (c.add constructed kind d) = .ok c') :
    kind.allows c.maxSizeOfMessage d.maxMessageSize = true ∧ c' = c.attach (.port d) := by
  cases kind with
  | sampling =>
    by_cases hsize : c.maxSizeOfMessage = d.maxMessageSize
    · cases hcode : constructed .sampling d <;>
        simp [Channel.add, Channel.addDestination, hc, hsize, hcode, ensure] at h
      exact ⟨by simp [Kind.allows, hsize], by simp [← h, Channel.attach, hc, hsize]⟩
    · simp [Channel.add, Channel.addDestination, hc, hsize, ensure] at h
  | queueing =>
    by_cases hsize : d.maxMessageSize < c.maxSizeOfMessage
    · simp [Channel.add, Channel.addDestinationQueue, hc, hsize, ensure] at h
    · cases hcode : constructed .queueing d <;>
        simp [Channel.add, Channel.addDestinationQueue, hc, hsize, hcode, ensure] at h
      exact ⟨by simpa [Kind.allows] using hsize, by simp [← h, Channel.attach, hc]⟩

theorem wireDestination_wires {scan scan' : Scan} (hc : c.UnderConstruction)
    (h : m.wireDestination constructed kind scan c name = .ok (scan', c')) :
    c'.UnderConstruction ∧ Wires m kind c [name] c' := by
  obtain ⟨found, -, h⟩ := of_bind_ok h
  split at h
  · split at h
    · cases h
    · rename_i proxy _
      rw [wireUrl_eq hc] at h
      obtain ⟨-, rfl⟩ := Prod.mk.inj (Except.ok.inj h)
      exact ⟨hc.attach _, Wires.proxy m kind c [name] proxy⟩
  · split at h
    · obtain ⟨-, rfl⟩ := Prod.mk.inj (Except.ok.inj h)
      exact ⟨hc, Wires.none m kind c [name]⟩
    · rename_i j d hfind
      obtain ⟨c₁, hport, heq⟩ := of_map_ok h
      obtain ⟨-, rfl⟩ := Prod.mk.inj heq
      rw [wirePort] at hport
      split at hport
      · cases hport
      · rename_i hdirection
        obtain ⟨hallows, rfl⟩ := ensure_add_ok hc.initialized hport
        exact ⟨hc.attach _, Wires.port hfind (not_not.mp hdirection) hallows⟩

theorem carryingLoop_wires {scan : Scan} (hc : c.UnderConstruction)
    (h : m.carryingLoop constructed kind scan c names = ⟨c', none⟩) : Wires m kind c names c' := by
  induction names generalizing scan c with
  | nil =>
    obtain ⟨rfl, -⟩ := Wiring.mk.inj h
    exact Wires.none m kind c []
  | cons name names ih =>
    rw [ModuleManager.carryingLoop] at h
    cases hround : m.wireDestination constructed kind scan c name with
    | error failure => simp [hround] at h
    | ok next =>
      obtain ⟨scan', c₁⟩ := next
      rw [hround] at h
      obtain ⟨hc₁, hwires⟩ := wireDestination_wires hc hround
      exact hwires.trans (ih hc₁ h)

theorem resettingLoop_wires (hc : c.UnderConstruction)
    (h : m.resettingLoop constructed kind c names = ⟨c', none⟩) : Wires m kind c names c' := by
  induction names generalizing c with
  | nil =>
    obtain ⟨rfl, -⟩ := Wiring.mk.inj h
    exact Wires.none m kind c []
  | cons name names ih =>
    rw [ModuleManager.resettingLoop] at h
    cases hround : m.wireDestination constructed kind .start c name with
    | error failure => simp [hround] at h
    | ok next =>
      obtain ⟨scan', c₁⟩ := next
      rw [hround] at h
      obtain ⟨hc₁, hwires⟩ := wireDestination_wires hc hround
      exact hwires.trans (ih hc₁ h)

theorem withSource_source {port : PortDescriptor}
    (h : withSource constructed kind name port = .ok c) :
    c.source = some port ∧ c.recvMySocket = none := by
  cases kind with
  | sampling =>
    cases hcode : constructed .sampling port <;>
      simp [withSource, Channel.addSource, Channel.construct, Channel.withType, hcode, ensure] at h
    subst h
    exact ⟨rfl, rfl⟩
  | queueing =>
    by_cases hcode : constructed .queueing port = .noError <;>
      simp [withSource, Channel.addSourceQueue, Channel.construct, Channel.withType, hcode, ensure,
        Except.bind] at h
    subst h
    exact ⟨rfl, rfl⟩

/-- A channel of a source port that has been created. -/
structure Made (m : ChannelWiring.ModuleManager) (kind : Kind) (port : PortDescriptor)
    (names : List String) (c : Channel) : Prop where
  initialized : c.initialized = true
  source : c.source = some port
  recvMySocket : c.recvMySocket = none
  names : (c.destinations.map (·.name)).Sublist names
  destinations : ∀ d ∈ c.destinations, (∃ j, HasPort m kind .destination j d) ∧
    kind.allows port.maxMessageSize d.maxMessageSize = true

theorem sourceChannel_made {loop : Channel → List String → Wiring} {port : PortDescriptor}
    (hloop : ∀ {c₀ c₁ : Channel}, c₀.UnderConstruction → loop c₀ names = ⟨c₁, none⟩ →
      Wires m kind c₀ names c₁)
    (h : sourceChannel loop (withSource constructed kind name port) name names = ⟨c, none⟩) :
    Made m kind port names c := by
  cases hadded : withSource constructed kind name port with
  | error failure =>
    rw [hadded] at h
    cases h
  | ok c₀ =>
    rw [hadded, sourceChannel] at h
    obtain ⟨hc, hsize, hnone, -⟩ := withSource_ok hadded
    obtain ⟨hsource, hrecv⟩ := withSource_source hadded
    cases hwiring : loop c₀ names with
    | mk c₁ failure =>
      cases failure with
      | some failure =>
        rw [hwiring] at h
        cases h
      | none =>
        have hwires := hloop hc hwiring
        obtain ⟨ds, hds, hnames, hports⟩ := hwires.added
        rw [hnone, List.nil_append] at hds
        rw [hwiring] at h
        obtain ⟨rfl, -⟩ := Wiring.mk.inj h
        refine ⟨rfl, hwires.source.trans hsource, hwires.recvMySocket.trans hrecv, ?_, ?_⟩
        · exact hds ▸ hnames
        · rw [← hsize]
          exact hds ▸ hports

theorem createSourceChannel_made {port : PortDescriptor}
    (h : m.createSourceChannel constructed kind name port names = ⟨c, none⟩) :
    Made m kind port names c := by
  cases kind with
  | sampling => exact sourceChannel_made (fun hc hloop => carryingLoop_wires hc hloop) h
  | queueing => exact sourceChannel_made (fun hc hloop => resettingLoop_wires hc hloop) h

/-! ## What a round keeps -/

/-- A change of a partition that only adds names of channels. -/
structure Grows (f : Partition → Partition) : Prop where
  isNetworkPartition : ∀ p, (f p).isNetworkPartition = p.isNetworkPartition
  ports : ∀ p, (f p).ports = p.ports
  sources : ∀ p kind, p.channelSourceVector kind ⊆ (f p).channelSourceVector kind

theorem pushSource_grows (kind : Kind) (name : String) : Grows (Partition.pushSource kind name) where
  isNetworkPartition _ := rfl
  ports _ := rfl
  sources p k := by
    by_cases hk : k = kind
    · subst hk
      simp [Partition.pushSource]
    · simp [Partition.pushSource, hk]

theorem pushInterModuleDst_grows (kind : Kind) (name : String) :
    Grows (Partition.pushInterModuleDst kind name) where
  isNetworkPartition p := by
    rw [Partition.pushInterModuleDst]
    split <;> rfl
  ports p := by
    rw [Partition.pushInterModuleDst]
    split <;> rfl
  sources p k := by
    rw [Partition.pushInterModuleDst]
    split
    · exact List.Subset.refl _
    · exact List.Subset.refl _

/-- A state of the creation and a later one: names have been added to the partitions. -/
structure Extends (m m' : ChannelWiring.ModuleManager) : Prop where
  sameShape : shape m' = shape m
  channelMap : m'.channelMap = m.channelMap
  proxyPorts : m'.proxyPorts = m.proxyPorts
  partition : ∀ {i : Nat} {p : Partition}, m.partitionVector[i]? = some p →
    ∃ p', m'.partitionVector[i]? = some p' ∧ p'.isNetworkPartition = p.isNetworkPartition ∧
      ∀ kind, p.channelSourceVector kind ⊆ p'.channelSourceVector kind

theorem Extends.refl (m : ChannelWiring.ModuleManager) : Extends m m :=
  ⟨rfl, rfl, rfl, fun {_ p} hp => ⟨p, hp, rfl, fun _ => List.Subset.refl _⟩⟩

theorem Extends.trans {m' m'' : ChannelWiring.ModuleManager} (h : Extends m m')
    (h' : Extends m' m'') : Extends m m'' where
  sameShape := h'.sameShape.trans h.sameShape
  channelMap := h'.channelMap.trans h.channelMap
  proxyPorts := h'.proxyPorts.trans h.proxyPorts
  partition hp := by
    obtain ⟨p', hp', hnetwork, hsources⟩ := h.partition hp
    obtain ⟨p'', hp'', hnetwork', hsources'⟩ := h'.partition hp'
    exact ⟨p'', hp'', hnetwork'.trans hnetwork,
      fun kind => List.Subset.trans (hsources kind) (hsources' kind)⟩

theorem extends_modify (m : ChannelWiring.ModuleManager) (j : Nat) {f : Partition → Partition}
    (hf : Grows f) : Extends m (m.modifyPartition j f) where
  sameShape := by
    apply List.ext_getElem?
    intro i
    rw [shape, shape, List.getElem?_map, List.getElem?_map, ModuleManager.modifyPartition,
      List.getElem?_modify]
    cases m.partitionVector[i]? with
    | none => rfl
    | some p =>
      by_cases hj : j = i
      · simp [hj, hf.isNetworkPartition, hf.ports]
      · simp [hj]
  channelMap := rfl
  proxyPorts := rfl
  partition := by
    intro i p hp
    rw [ModuleManager.modifyPartition, List.getElem?_modify, hp]
    by_cases hj : j = i
    · exact ⟨f p, by simp [hj], hf.isNetworkPartition p, hf.sources p⟩
    · exact ⟨p, by simp [hj], rfl, fun _ => List.Subset.refl _⟩

theorem hasPort_iff {direction : PortDirection} {i : Nat} {d : PortDescriptor} :
    HasPort m kind direction i d ↔ ∃ e, (shape m)[i]? = some e ∧ d ∈ e.2 kind ∧
      d.portDirection = direction := by
  rw [HasPort, shape, List.getElem?_map]
  cases m.partitionVector[i]? with
  | none => simp
  | some p => simp

theorem Extends.hasPort {m' : ChannelWiring.ModuleManager} (h : Extends m m')
    {direction : PortDirection} {i : Nat} {d : PortDescriptor} :
    HasPort m' kind direction i d ↔ HasPort m kind direction i d := by
  rw [hasPort_iff, hasPort_iff, h.sameShape]

theorem wireInterModuleDst_wires {m' : ChannelWiring.ModuleManager} (hc : c.initialized = false)
    (h : m.wireInterModuleDst constructed kind c names = .ok (m', c')) :
    Extends m m' ∧ m'.mapOfChannels = m.mapOfChannels ∧ Wires m kind c names c' := by
  induction names generalizing m c with
  | nil =>
    obtain ⟨rfl, rfl⟩ := Prod.mk.inj (Except.ok.inj h)
    exact ⟨Extends.refl m, rfl, Wires.none m kind c []⟩
  | cons name names ih =>
    rw [ModuleManager.wireInterModuleDst] at h
    split at h
    · cases h
    · rename_i j d hfind
      split at h
      · cases h
      · rename_i hdirection
        obtain ⟨c₁, hadd, hrest⟩ := of_bind_ok h
        obtain ⟨hallows, rfl⟩ := ensure_add_ok hc hadd
        have hextends := extends_modify m j
          (pushInterModuleDst_grows kind (c.add constructed kind d).2.channelName)
        obtain ⟨hextends', hmap, hwires⟩ := ih (c := c.attach (.port d)) hc hrest
        have hwires' : Wires m kind (c.attach (.port d)) names c' := by
          obtain ⟨ds, hds, hnames, hports⟩ := hwires.added
          refine ⟨hwires.channelName, hwires.source, hwires.maxSizeOfMessage, hwires.recvMySocket,
            hwires.initialized, ds, hds, hnames, fun e he => ?_⟩
          obtain ⟨⟨k, hk⟩, hallowed⟩ := hports e he
          exact ⟨⟨k, hextends.hasPort.mp hk⟩, hallowed⟩
        exact ⟨hextends.trans hextends', hmap,
          (Wires.port hfind (not_not.mp hdirection) hallows).trans hwires'⟩

/-- What is known of a channel in a map. -/
structure Known (cfg : Configuration) (m : ChannelWiring.ModuleManager) (kind : Kind)
    (name : String) (c : Channel) : Prop where
  entry : ∃ descriptor, (name, descriptor) ∈ cfg.channelMap ∧
    (c.destinations.map (·.name)).Sublist descriptor.destination
  destinations : ∀ d ∈ c.destinations, ∃ j, HasPort m kind .destination j d
  source : ∀ p, c.source = some p →
    (∃ descriptor, cfg.channelMap.find? (·.2.source = p.name) = some (name, descriptor)) ∧
      ∃ i, Carries m kind name i c p

/-- What every point of the creation has. -/
structure Created (cfg : Configuration) (m : ChannelWiring.ModuleManager) : Prop where
  sameShape : shape m = shape cfg.start
  channelMap : m.channelMap = cfg.channelMap
  proxyPorts : m.proxyPorts = cfg.proxyPorts
  known : ∀ {kind name c}, m.mapOfChannels kind name = some c → Known cfg m kind name c

section
variable {cfg : Configuration} {m' : ChannelWiring.ModuleManager} {build : Build}

theorem Known.extend (h : Known cfg m kind name c) (hext : Extends m m')
    (hstored : m'.mapOfChannels kind name = some c) : Known cfg m' kind name c where
  entry := h.entry
  destinations d hd := (h.destinations d hd).imp fun _ hj => hext.hasPort.mpr hj
  source p hp := by
    obtain ⟨hfirst, i, hcarries⟩ := h.source p hp
    obtain ⟨q, hq, hregular, hlisted⟩ := hcarries.listed
    obtain ⟨q', hq', hnetwork, hsources⟩ := hext.partition hq
    exact ⟨hfirst, i, hstored, hcarries.initialized, hcarries.receiver, hcarries.hasSource,
      hext.hasPort.mpr hcarries.owner, ⟨q', hq', hnetwork.trans hregular, hsources kind hlisted⟩,
      hcarries.allows⟩

theorem storeChannel_self : (m.storeChannel kind c).mapOfChannels kind c.channelName = some c :=
  if_pos ⟨rfl, rfl⟩

theorem storeChannel_of_ne {k : Kind} {n : String} (h : ¬ (k = kind ∧ n = c.channelName)) :
    (m.storeChannel kind c).mapOfChannels k n = m.mapOfChannels k n :=
  if_neg h

theorem Created.store {m₁ : ChannelWiring.ModuleManager} (h : Created cfg m) (hext : Extends m m₁)
    (hmap : m₁.mapOfChannels = m.mapOfChannels)
    (hknown : Known cfg (m₁.storeChannel kind c) kind c.channelName c) :
    Created cfg (m₁.storeChannel kind c) where
  sameShape := hext.sameShape.trans h.sameShape
  channelMap := hext.channelMap.trans h.channelMap
  proxyPorts := hext.proxyPorts.trans h.proxyPorts
  known := by
    intro k n c' hc'
    have hext' : Extends m (m₁.storeChannel kind c) := hext.trans ⟨rfl, rfl, rfl, fun {_ p} hp =>
      ⟨p, hp, rfl, fun _ => List.Subset.refl _⟩⟩
    by_cases hkey : k = kind ∧ n = c.channelName
    · obtain ⟨rfl, rfl⟩ := hkey
      rw [storeChannel_self] at hc'
      obtain rfl := Option.some.inj hc'
      exact hknown
    · have hold : m.mapOfChannels k n = some c' := by
        rwa [storeChannel_of_ne hkey, hmap] at hc'
      exact (h.known hold).extend hext' hc'

/-- Network partitions have no ports. -/
theorem Created.regular (h : Created cfg m) {direction : PortDirection} {i : Nat}
    {d : PortDescriptor} (hd : HasPort m kind direction i d) {p : Partition}
    (hp : m.partitionVector[i]? = some p) : p.isNetworkPartition = false := by
  obtain ⟨e, he, hport, -⟩ := hasPort_iff.mp hd
  have hentry : e = (p.isNetworkPartition, p.ports) := by
    rw [shape, List.getElem?_map, hp] at he
    exact (Option.some.inj he).symm
  rw [h.sameShape] at he
  obtain ⟨q, hq, hqe⟩ := List.mem_map.mp (List.mem_of_getElem? he)
  obtain hq | hq := List.mem_append.mp hq
  · obtain ⟨listed, -, rfl⟩ := List.mem_map.mp hq
    rw [← hqe] at hport
    cases hport
  · obtain ⟨configured, -, rfl⟩ := List.mem_map.mp hq
    exact (congrArg Prod.fst (hqe.trans hentry)).symm

/-- What a round can do: nothing, or create the channel of a port or of a proxy. -/
inductive Round (constructed : Kind → PortDescriptor → ReturnCode)
    (m : ChannelWiring.ModuleManager) : ChannelWiring.ModuleManager → Prop where
  | idle : Round constructed m m
  | source {kind : Kind} {counter : Nat} {port : PortDescriptor} {name : String}
      {descriptor : ChannelDescriptor} {c : Channel} (howner : HasPort m kind .source counter port)
      (hfind : m.channelMap.find? (·.2.source = port.name) = some (name, descriptor))
      (hcreate : m.createSourceChannel constructed kind name port descriptor.destination =
        ⟨c, none⟩) :
      Round constructed m
        ((m.modifyPartition counter (Partition.pushSource kind c.channelName)).storeChannel kind c)
  | interModuleDst {kind : Kind} {proxy : ProxyPort} {name : String}
      {descriptor : ChannelDescriptor} {m₁ : ChannelWiring.ModuleManager} {c : Channel}
      (hproxy : proxy ∈ m.proxyPorts)
      (hfind : m.channelMap.find? (·.2.source = proxy.name) = some (name, descriptor))
      (hcreate : m.createInterModuleDst constructed kind name proxy descriptor.destination =
        .ok (m₁, c)) :
      Round constructed m (m₁.storeChannel kind c)

theorem createSource_round {counter : Nat} {p : Partition} {port : PortDescriptor}
    (hp : m.partitionVector[counter]? = some p) (hport : port ∈ p.ports kind)
    (h : m.createSource constructed build kind counter port = some m') :
    Round constructed m m' := by
  rw [ModuleManager.createSource] at h
  split at h
  · obtain rfl := Option.some.inj h
    exact .idle
  rename_i hdirection
  have howner : HasPort m kind .source counter port := by
    refine ⟨p, hp, hport, ?_⟩
    cases hd : port.portDirection with
    | source => rfl
    | destination => exact absurd hd hdirection
  split at h
  · obtain rfl := Option.some.inj h
    exact .idle
  rename_i name descriptor hfind
  split at h
  · split at h
    · cases h
    rename_i c hcreate
    obtain rfl := Option.some.inj h
    exact .source howner hfind hcreate
  · obtain rfl := Option.some.inj h
    exact .idle

theorem createFromProxy_round {proxy : ProxyPort} (hproxy : proxy ∈ m.proxyPorts)
    (h : m.createFromProxy constructed build kind proxy = some m') : Round constructed m m' := by
  rw [ModuleManager.createFromProxy] at h
  split at h
  · obtain rfl := Option.some.inj h
    exact .idle
  split at h
  · obtain rfl := Option.some.inj h
    exact .idle
  rename_i name descriptor hfind
  split at h
  · split at h
    · cases h
    rename_i m₁ c hcreate
    obtain rfl := Option.some.inj h
    exact .interModuleDst hproxy hfind hcreate
  · obtain rfl := Option.some.inj h
    exact .idle

theorem round_of_step {creation : Creation}
    (h : m.step constructed build creation = some m') : Round constructed m m' := by
  cases creation with
  | source kind counter k =>
    obtain ⟨port, hentry, hsource⟩ := Option.bind_eq_some_iff.mp h
    obtain ⟨p, hp, hport⟩ := Option.bind_eq_some_iff.mp hentry
    exact createSource_round hp (List.mem_of_getElem? hport) hsource
  | interModuleDst kind sizevec =>
    obtain ⟨proxy, hentry, hproxy⟩ := Option.bind_eq_some_iff.mp h
    exact createFromProxy_round (List.mem_of_getElem? hentry) hproxy

theorem createSourceChannel_name {port : PortDescriptor}
    (h : m.createSourceChannel constructed kind name port names = ⟨c, none⟩) :
    c.channelName = name := by
  have heq := createSourceChannel_channelName constructed m kind name port names
  rwa [h] at heq

/-- A channel of a proxy that has been created. -/
structure Received (m m₁ : ChannelWiring.ModuleManager) (kind : Kind) (name : String)
    (names : List String) (c : Channel) : Prop where
  grown : Extends m m₁
  mapOfChannels : m₁.mapOfChannels = m.mapOfChannels
  channelName : c.channelName = name
  source : c.source = none
  names : (c.destinations.map (·.name)).Sublist names
  destinations : ∀ d ∈ c.destinations, ∃ j, HasPort m kind .destination j d

theorem createInterModuleDst_received {m₁ : ChannelWiring.ModuleManager} {proxy : ProxyPort}
    (h : m.createInterModuleDst constructed kind name proxy names = .ok (m₁, c)) :
    Received m m₁ kind name names c := by
  rw [ModuleManager.createInterModuleDst] at h
  obtain ⟨configured, hconfigured, hloop⟩ := of_bind_ok h
  obtain ⟨⟨m₂, c₂⟩, hwired, heq⟩ := of_map_ok hloop
  obtain ⟨rfl, rfl⟩ := Prod.mk.inj heq
  obtain ⟨hinitialized, hname, hnone, hempty⟩ : configured.initialized = false ∧
      configured.channelName = name ∧ configured.source = none ∧ configured.destinations = [] := by
    obtain rfl := Except.ok.inj hconfigured
    exact ⟨rfl, rfl, rfl, rfl⟩
  obtain ⟨hext, hmap, hwires⟩ := wireInterModuleDst_wires hinitialized hwired
  obtain ⟨ds, hds, hnames, hports⟩ := hwires.added
  rw [hempty, List.nil_append] at hds
  refine ⟨hext, hmap, hwires.channelName.trans hname, hwires.source.trans hnone, ?_, fun d hd => ?_⟩
  · exact hds ▸ hnames
  · exact (hports d (hds ▸ hd)).1

theorem step_created (h : Created cfg m) {creation : Creation}
    (hstep : m.step constructed build creation = some m') : Created cfg m' := by
  cases round_of_step hstep with
  | idle => exact h
  | @source kind counter port name descriptor c howner hfind hcreate =>
    obtain ⟨p, hp, hport, -⟩ := id howner
    have hmade := createSourceChannel_made hcreate
    obtain rfl := createSourceChannel_name hcreate
    have hext := extends_modify m counter (pushSource_grows kind c.channelName)
    rw [h.channelMap] at hfind
    refine h.store hext rfl ⟨⟨descriptor, List.mem_of_find?_eq_some hfind, hmade.names⟩,
      fun d hd => ?_, fun q hq => ?_⟩
    · exact ((hmade.destinations d hd).1).imp fun _ hj => hext.hasPort.mpr hj
    · obtain rfl : port = q := Option.some.inj (hmade.source.symm.trans hq)
      refine ⟨⟨descriptor, hfind⟩, counter, storeChannel_self, hmade.initialized,
        hmade.recvMySocket, hq, hext.hasPort.mpr howner, ?_, fun d hd => (hmade.destinations d hd).2⟩
      have hregular : p.isNetworkPartition = false := h.regular howner hp
      refine ⟨Partition.pushSource kind c.channelName p, ?_, hregular, ?_⟩
      · simp [ModuleManager.storeChannel, ModuleManager.modifyPartition, hp]
      · simp [Partition.pushSource]
  | @interModuleDst kind proxy name descriptor m₁ c hproxy hfind hcreate =>
    have hreceived := createInterModuleDst_received hcreate
    obtain rfl := hreceived.channelName
    rw [h.channelMap] at hfind
    refine h.store hreceived.grown hreceived.mapOfChannels
      ⟨⟨descriptor, List.mem_of_find?_eq_some hfind, hreceived.names⟩, fun d hd => ?_, fun q hq => ?_⟩
    · exact (hreceived.destinations d hd).imp fun _ hj => hreceived.grown.hasPort.mpr hj
    · cases hreceived.source.symm.trans hq

theorem start_created (cfg : Configuration) : Created cfg cfg.start where
  sameShape := rfl
  channelMap := rfl
  proxyPorts := rfl
  known h := by cases h

theorem created_of_reached (h : cfg.Reached constructed build m) : Created cfg m := by
  have hrun {m m' : ChannelWiring.ModuleManager} {as : List Creation} (hm : Created cfg m)
      (h : run (ModuleManager.step constructed build) m as = some m') : Created cfg m' :=
    run_invariant (I := Created cfg) (fun _ _ _ hs hstep => step_created hs hstep) hm h
  obtain ⟨as, -, h⟩ | ⟨queueing, as, hqueueing, -, h⟩ := h
  · exact hrun (start_created cfg) h
  · exact hrun (hrun (start_created cfg) hqueueing) h

/-! ## The layout -/

/-- An element that two entries of a list have in common, of a list of lists in which
    each element stands once. -/
theorem eq_of_mem_flatMap {α β : Type*} {l : List α} {f : α → List β} (h : (l.flatMap f).Nodup)
    {x y : α} (hx : x ∈ l) (hy : y ∈ l) {b : β} (hbx : b ∈ f x) (hby : b ∈ f y) : x = y := by
  by_contra hne
  have hdisjoint := (List.nodup_flatMap.mp h).2
  have hsymm : Std.Symm (Function.onFun List.Disjoint f) := ⟨fun _ _ hd => hd.symm⟩
  exact hdisjoint.forall hx hy hne hbx hby

theorem index_of_mem_flatMap {α β : Type*} {l : List α} {f : α → List β} (h : (l.flatMap f).Nodup)
    {i j : Nat} {x y : α} (hx : l[i]? = some x) (hy : l[j]? = some y) {b : β} (hbx : b ∈ f x)
    (hby : b ∈ f y) : i = j := by
  obtain ⟨hi, rfl⟩ := List.getElem?_eq_some_iff.mp hx
  obtain ⟨hj, rfl⟩ := List.getElem?_eq_some_iff.mp hy
  have hdisjoint := List.pairwise_iff_getElem.mp (List.nodup_flatMap.mp h).2
  obtain hlt | heq | hgt := Nat.lt_trichotomy i j
  · exact absurd hby (hdisjoint i j hi hj hlt hbx)
  · exact heq
  · exact absurd hbx (hdisjoint j i hj hi hgt hby)

theorem shape_ports (h : Created cfg m) (kind : Kind) :
    (shape m).flatMap (·.2 kind) = cfg.partitions.flatMap (·.2 kind) := by
  rw [h.sameShape, shape, Configuration.start, List.map_append, List.flatMap_append]
  have hnone : (cfg.networkPartitionVector.map fun p => (p.isNetworkPartition, p.ports)).flatMap
      (·.2 kind) = [] := by
    rw [List.flatMap_eq_nil_iff]
    intro e he
    obtain ⟨p, hp, rfl⟩ := List.mem_map.mp he
    obtain ⟨listed, -, rfl⟩ := List.mem_map.mp hp
    rfl
  rw [hnone, List.nil_append, List.map_map, List.flatMap_map]
  rfl

theorem Created.unique (h : Created cfg m)
    (hnodup : ((cfg.partitions.flatMap (·.2 kind)).map (·.name)).Nodup)
    {direction direction' : PortDirection} {i j : Nat} {d e : PortDescriptor}
    (hd : HasPort m kind direction i d) (he : HasPort m kind direction' j e)
    (hname : d.name = e.name) : i = j ∧ d = e := by
  obtain ⟨p, hp, hdp, -⟩ := hasPort_iff.mp hd
  obtain ⟨q, hq, heq, -⟩ := hasPort_iff.mp he
  rw [← shape_ports h kind, List.map_flatMap] at hnodup
  obtain rfl : i = j := index_of_mem_flatMap hnodup hp hq (List.mem_map_of_mem hdp)
    (hname ▸ List.mem_map_of_mem heq)
  obtain rfl : p = q := Option.some.inj (hp.symm.trans hq)
  have hports := (List.nodup_flatMap.mp hnodup).1 p (List.mem_of_getElem? hp)
  exact ⟨rfl, List.inj_on_of_nodup_map hports hdp heq hname⟩

theorem Created.layout (h : Created cfg m) (hcfg : Separate cfg) : Layout m where
  unique := by
    intro kind direction direction' i j d e hd he hname
    exact h.unique (hcfg.ports kind) hd he hname
  source := by
    intro kind name c p hc hp
    obtain ⟨-, i, hcarries⟩ := (h.known hc).source p hp
    exact ⟨i, hcarries.owner⟩
  destination := by
    intro kind name c d hc hd
    exact (h.known hc).destinations d hd
  nodup := by
    intro kind name c hc
    obtain ⟨descriptor, hentry, hsublist⟩ := (h.known hc).entry
    exact hsublist.nodup ((List.nodup_flatMap.mp hcfg.destinations).1 _ hentry)
  apart := by
    intro kind name name' c c' hc hc' hne
    obtain ⟨descriptor, hentry, hsublist⟩ := (h.known hc).entry
    obtain ⟨descriptor', hentry', hsublist'⟩ := (h.known hc').entry
    -- No two channels share a destination, and the first channel with a source owns it.
    constructor
    · intro d hd d' hd' hname
      have hmem : d.name ∈ descriptor.destination := hsublist.subset (List.mem_map_of_mem hd)
      have hmem' : d.name ∈ descriptor'.destination :=
        hname ▸ hsublist'.subset (List.mem_map_of_mem hd')
      exact hne (congrArg Prod.fst
        (eq_of_mem_flatMap hcfg.destinations hentry hentry' hmem hmem'))
    · intro p p' hp hp' hname
      obtain ⟨⟨first, hfirst⟩, -⟩ := (h.known hc).source p hp
      obtain ⟨⟨first', hfirst'⟩, -⟩ := (h.known hc').source p' hp'
      rw [hname, hfirst'] at hfirst
      exact hne (congrArg Prod.fst (Option.some.inj hfirst)).symm

/-- **What is created is laid out.** From a configuration with ports of different names
    and destinations of one channel each, every program creates a layout, and each of its
    channels that has a source carries the messages of that from a partition that lists
    the channel to be moved. -/
theorem created_layout (hcfg : Separate cfg)
    (h : cfg.createPartitionVector constructed build = some m) :
    Layout m ∧ ∀ kind name c source, m.mapOfChannels kind name = some c →
      c.source = some source → ∃ i, Carries m kind name i c source := by
  have hcreated := created_of_reached (Configuration.createPartitionVector_reached h)
  exact ⟨hcreated.layout hcfg, fun kind name c source hc hsource =>
    ((hcreated.known hc).source source hsource).2⟩

end

end

/-! ## An example -/

theorem senderReceiver_separate : Separate senderReceiver where
  ports kind := by
    cases kind <;> decide
  destinations := by decide

theorem created_layout_senderReceiver :
    Layout senderReceiverModule ∧ ∀ kind name c source,
      senderReceiverModule.mapOfChannels kind name = some c → c.source = some source →
        ∃ i, Carries senderReceiverModule kind name i c source :=
  created_layout senderReceiver_separate (Option.some_get senderReceiver_isSome).symm

theorem senderReceiver_created : Created senderReceiver senderReceiverModule :=
  created_of_reached (Configuration.createPartitionVector_reached
    (Option.some_get senderReceiver_isSome).symm)

end Arinc.Transport
