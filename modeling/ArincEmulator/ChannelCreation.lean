import ArincEmulator.Initialization
import ArincEmulator.TransportSetup

/- The creation of the channels of a configuration that was read from a property file.
   The directions of ports and proxies are read again and again, and the creation checks
   them once more; whether a destination exists is not checked before.

   What is proved, for every property map, every program and whatever the ports answer
   when they are constructed:
     1. `directions_agree`: at every point of the creation, what has the name of the
        source of a channel is a source, and a destination is refused only where nothing
        has its name; the checks of the direction never fire.
     2. `configured_channel_created`: a creation that goes through leaves no channel out
        that the program owns and that has a source port of its own. The channel is
        stored, is moved with the partition of its source, and goes to what the names of
        its destinations stand for, to each once and in their order. -/
namespace Arinc.Transport
open Runs ChannelWiring
open PropertyFile (PropertyMap Text)
open Initialization (Environment readPartitionVector configuration directionOf equalRange channelOf
  portKey primaryKeyNetworkPartitionName primaryKeyPartitionName primaryKeyChannelName
  primaryKeyProxyPort additiveKeyChannel additiveKeySource additiveKeyDestination)

/-! ## Names -/

section
variable {m m' : ChannelWiring.ModuleManager} {kind : Kind} {name : String}

/-- The search for a port looks at the ports of the partitions only. -/
theorem findPartitionFromPort_congr {partitions partitions' : List Partition}
    (h : partitions.map Partition.ports = partitions'.map Partition.ports) :
    findPartitionFromPort kind name partitions = findPartitionFromPort kind name partitions' := by
  induction partitions generalizing partitions' with
  | nil => rw [List.map_eq_nil_iff.mp h.symm]
  | cons p partitions ih =>
    cases partitions' with
    | nil => cases h
    | cons p' partitions' =>
      obtain ⟨hports, hrest⟩ := List.cons.inj h
      rw [findPartitionFromPort, findPartitionFromPort, hports, ih hrest]

theorem findPartitionFromPort_of_shape (h : shape m' = shape m) :
    findPartitionFromPort kind name m'.partitionVector =
      findPartitionFromPort kind name m.partitionVector := by
  apply findPartitionFromPort_congr
  have hports (m : ChannelWiring.ModuleManager) :
      m.partitionVector.map Partition.ports = (shape m).map Prod.snd := by
    rw [shape, List.map_map]
    rfl
  rw [hports, hports, h]

theorem resolve_of_shape (h : shape m' = shape m) (hproxies : m'.proxyPorts = m.proxyPorts) :
    m'.resolve kind name = m.resolve kind name := by
  rw [ModuleManager.resolve, ModuleManager.resolve, findPartitionFromPort_of_shape h, hproxies]

/-- A name that stands for nothing is that of no port and of no proxy, where all of these
    are destinations. -/
theorem resolve_eq_none
    (hports : ∀ j d, findPartitionFromPort kind name m.partitionVector = some (j, d) →
      d.portDirection = .destination)
    (hproxies : ∀ proxy ∈ m.proxyPorts, proxy.name = name → proxy.portDirection = .destination)
    (h : m.resolve kind name = none) :
    findPartitionFromPort kind name m.partitionVector = none ∧
      ∀ proxy ∈ m.proxyPorts, proxy.name ≠ name := by
  rw [ModuleManager.resolve] at h
  cases hfind : findPartitionFromPort kind name m.partitionVector with
  | some found => simp [hfind, hports found.1 found.2 hfind] at h
  | none =>
    refine ⟨rfl, ?_⟩
    cases hproxy : m.proxyPorts.find? (·.name = name) with
    | none => simpa using List.find?_eq_none.mp hproxy
    | some proxy =>
      have hdirection := hproxies proxy (List.mem_of_find?_eq_some hproxy)
        (by simpa using List.find?_some hproxy)
      simp [hfind, hproxy, hdirection] at h

end

/-! ## Directions -/

section
variable {env : Environment} {map : PropertyMap}
  {proxyPorts : List ProxyPort} {s : Initialization.State} {build : Build}
  {constructed : Kind → PortDescriptor → ReturnCode} {m : ChannelWiring.ModuleManager}

theorem directionOf_port (hread : Initialization.Read map proxyPorts s)
    (hshape : shape m = shape (s.moduleManager proxyPorts)) {kind : Kind}
    {direction : PortDirection} {i : Nat} {d : PortDescriptor}
    (hd : HasPort m kind direction i d) : directionOf map d.name = some direction := by
  obtain ⟨e, he, hport, rfl⟩ := hasPort_iff.mp hd
  rw [hshape] at he
  obtain ⟨p, hp, rfl⟩ := List.mem_map.mp (List.mem_of_getElem? he)
  obtain hnone | ⟨name, hname⟩ := hread.partition_cases hp
  · have hport : d ∈ p.ports kind := hport
    rw [hnone kind] at hport
    cases hport
  · exact hname.directions kind d hport

/-- **The directions agree.** Whatever has the name of the source of a channel is a
    source, and a name of one of its destinations stands for nothing only where nothing
    has it. -/
theorem directions_agree (hread : readPartitionVector env map = .ok (proxyPorts, s))
    (h : (configuration map proxyPorts s).Reached constructed build m)
    {channel : String × ChannelDescriptor} (hchannel : channel ∈ m.channelMap)
    (hdestination : channel.2.destination ≠ []) :
    (∀ kind direction i d, HasPort m kind direction i d → d.name = channel.2.source →
        direction = .source) ∧
      (∀ proxy ∈ m.proxyPorts, proxy.name = channel.2.source → proxy.portDirection = .source) ∧
      ∀ kind, ∀ name ∈ channel.2.destination, m.resolve kind name = none →
        findPartitionFromPort kind name m.partitionVector = none ∧
          ∀ proxy ∈ m.proxyPorts, proxy.name ≠ name := by
  have hknown := Initialization.read_of_readPartitionVector hread
  have hcreated := created_of_reached h
  have hshape : shape m = shape (s.moduleManager proxyPorts) := by
    rw [hcreated.sameShape, Initialization.configuration_start hread]
  have hproxies : ∀ proxy ∈ m.proxyPorts,
      directionOf map proxy.name = some proxy.portDirection := by
    rw [hcreated.proxyPorts]
    exact hknown.proxies
  -- What a name stands for is decided by its direction, which the file gives once.
  obtain ⟨e, he, rfl⟩ := List.mem_map.mp (hcreated.channelMap ▸ hchannel)
  obtain ⟨-, -, hdirected⟩ | ⟨-, hempty⟩ := hknown.channels.entries e he
  · refine ⟨fun kind direction i d hd hname => ?_, fun proxy hproxy hname => ?_,
      fun kind name hname hnone => ?_⟩
    · have hdirection := directionOf_port hknown hshape hd
      rw [hname, hdirected.source] at hdirection
      exact (Option.some.inj hdirection).symm
    · have hdirection := hproxies proxy hproxy
      rw [hname, hdirected.source] at hdirection
      exact (Option.some.inj hdirection).symm
    · refine resolve_eq_none (fun j d hfind => ?_) (fun proxy hproxy heq => ?_) hnone
      · obtain ⟨p, hp, hport⟩ := findPartitionFromPort_some hfind
        have hdirection := directionOf_port hknown hshape ⟨p, hp, hport, rfl⟩
        rw [findPartitionFromPort_name hfind, hdirected.destination name hname] at hdirection
        exact (Option.some.inj hdirection).symm
      · have hdirection := hproxies proxy hproxy
        rw [heq, hdirected.destination name hname] at hdirection
        exact (Option.some.inj hdirection).symm
  · exact absurd (congrArg ChannelDescriptor.destination hempty) hdestination

end

theorem directions_agree_oneQueue :
    ∃ proxyPorts s, readPartitionVector Initialization.willing Initialization.oneQueue =
        .ok (proxyPorts, s) ∧
      ∀ kind direction i d, HasPort Initialization.oneQueueModule kind direction i d →
        d.name = "outQueue" → direction = .source := by
  obtain ⟨proxyPorts, s, hread, hmodule⟩ :=
    Initialization.of_createPartitionVector Initialization.oneQueue_created
  have hknown := Initialization.read_of_readPartitionVector hread
  have hreached := Configuration.createPartitionVector_reached hmodule
  obtain ⟨⟨hchannels, -⟩, hsource, hdestination, -⟩ := Initialization.oneQueue_values
  have hlisted : "queued".toList ∈ equalRange Initialization.oneQueue primaryKeyChannelName := by
    rw [hchannels]
    exact List.mem_cons_self
  have hchannel : (String.ofList "queued".toList, channelOf Initialization.oneQueue
      "queued".toList) ∈ Initialization.oneQueueModule.channelMap := by
    rw [(created_of_reached hreached).channelMap]
    exact List.mem_map.mpr ⟨_, hknown.channels.names _ hlisted, rfl⟩
  have hends : channelOf Initialization.oneQueue "queued".toList = ⟨"outQueue", ["inQueue"]⟩ := by
    rw [channelOf, hsource, hdestination]
    rfl
  rw [hends] at hchannel
  exact ⟨proxyPorts, s, hread, (directions_agree hread hreached hchannel (List.cons_ne_nil _ _)).1⟩

/-! ## Channels with a source port -/

/-- A channel from a port to what the names stand for. -/
structure Complete (m : ChannelWiring.ModuleManager) (kind : Kind) (port : PortDescriptor)
    (names : List String) (c : Channel) : Prop where
  source : c.source = some port
  wired : ∃ endpoints,
    List.Forall₂ (fun name endpoint => m.resolve kind name = some endpoint) names endpoints ∧
      c.destinations = endpoints.filterMap Endpoint.port? ∧
      c.destinationUrlVector = endpoints.filterMap Endpoint.address?

/-- The lists of destinations on which the loop over them follows the rule. -/
def InRule (constructed : Kind → PortDescriptor → ReturnCode) (m : ChannelWiring.ModuleManager)
    (kind : Kind) (size : Int) (names : List String) : Prop :=
  kind = .sampling → m.InOrder constructed kind size none names

section
variable {constructed : Kind → PortDescriptor → ReturnCode} {m m' : ChannelWiring.ModuleManager}
  {kind : Kind} {name : String} {port : PortDescriptor} {names : List String} {c : Channel}

theorem createSourceChannel_complete
    (hnames : InRule constructed m kind port.maxMessageSize names)
    (h : m.createSourceChannel constructed kind name port names = ⟨c, none⟩) :
    Complete m kind port names c := by
  have hrule : m.createByRule constructed kind name port names = ⟨c, none⟩ := by
    cases kind with
    | sampling =>
      rw [← (createSamplingChannel_eq_rule_iff constructed m name port names).mpr
        fun _ => hnames rfl]
      exact h
    | queueing =>
      rw [← createQueueingChannel_eq_rule]
      exact h
  have hwired := createByRule_wires_each constructed m name port names kind (by rw [hrule])
  rw [hrule] at hwired
  exact ⟨(createSourceChannel_made h).source, hwired⟩

theorem Complete.of_shape (h : Complete m kind port names c) (hshape : shape m' = shape m)
    (hproxies : m'.proxyPorts = m.proxyPorts) : Complete m' kind port names c where
  source := h.source
  wired := by
    obtain ⟨endpoints, heach, hports, hurls⟩ := h.wired
    refine ⟨endpoints, heach.imp fun name endpoint hname => ?_, hports, hurls⟩
    rw [resolve_of_shape hshape hproxies]
    exact hname

theorem inOrder_of_shape (hshape : shape m' = shape m) (hproxies : m'.proxyPorts = m.proxyPorts)
    {size : Int} {found : Option Nat} :
    m'.InOrder constructed kind size found names ↔ m.InOrder constructed kind size found names := by
  induction names generalizing found with
  | nil => cases found <;> rfl
  | cons name names ih =>
    have hadmitted (n : String) : m'.admitted constructed kind size n =
        m.admitted constructed kind size n := by
      rw [ModuleManager.admitted, ModuleManager.admitted, resolve_of_shape hshape hproxies]
    have htarget (i : Nat) : m'.targetAt i = m.targetAt i := by
      rw [ModuleManager.targetAt, ModuleManager.targetAt, ModuleManager.entryAt,
        ModuleManager.entryAt, hproxies]
    cases found <;>
      simp only [ModuleManager.InOrder, hadmitted, htarget, hproxies,
        findPartitionFromPort_of_shape hshape, ih]

/-- A channel that is in a map stays there, or another is put in its place. -/
theorem step_keeps_channel {creation : Creation} {build : Build} {k : Kind} {n : String}
    (h : m.step constructed build creation = some m') (hsome : (m.mapOfChannels k n).isSome) :
    (m'.mapOfChannels k n).isSome := by
  cases round_of_step h with
  | idle => exact hsome
  | source howner hfind hcreate =>
    exact ModuleManager.storeChannel_isSome.mpr (Or.inr hsome)
  | interModuleDst hproxy hfind hcreate =>
    have hreceived := createInterModuleDst_received hcreate
    apply ModuleManager.storeChannel_isSome.mpr
    rw [hreceived.mapOfChannels]
    exact Or.inr hsome

end

/-- A source port, and the channel that is to be created for it: the first of those with
    this source. No two ports of the kind have the same name, and no proxy has its name. -/
structure Configured (constructed : Kind → PortDescriptor → ReturnCode) (build : Build)
    (cfg : Configuration) (kind : Kind) (i : Nat) (port : PortDescriptor) (name : String)
    (descriptor : ChannelDescriptor) : Prop where
  owner : HasPort cfg.start kind .source i port
  first : cfg.channelMap.find? (·.2.source = port.name) = some (name, descriptor)
  owns : build.Owns cfg name
  names : ((cfg.partitions.flatMap (·.2 kind)).map (·.name)).Nodup
  noProxy : ∀ proxy ∈ cfg.proxyPorts, proxy.name ≠ port.name
  inRule : InRule constructed cfg.start kind port.maxMessageSize descriptor.destination

section
variable {constructed : Kind → PortDescriptor → ReturnCode} {build : Build} {cfg : Configuration}
  {kind : Kind} {i : Nat} {port : PortDescriptor} {name : String} {descriptor : ChannelDescriptor}
  {m m' : ChannelWiring.ModuleManager}

/-- What every point of the creation has, where the names of the channels are different. -/
structure Filling (build : Build) (cfg : Configuration) (kind : Kind) (port : PortDescriptor)
    (name : String) (descriptor : ChannelDescriptor) (m : ChannelWiring.ModuleManager) : Prop where
  created : Created cfg m
  owned : Owned build cfg m
  complete : ∀ c, m.mapOfChannels kind name = some c →
    Complete cfg.start kind port descriptor.destination c

theorem start_filling (build : Build) (cfg : Configuration) (kind : Kind) (port : PortDescriptor)
    (name : String) (descriptor : ChannelDescriptor) :
    Filling build cfg kind port name descriptor cfg.start :=
  ⟨start_created cfg, start_owned build cfg, fun _ h => by cases h⟩

theorem source_of_entry (hnames : (cfg.channelMap.map Prod.fst).Nodup)
    (hfirst : cfg.channelMap.find? (·.2.source = port.name) = some (name, descriptor))
    {source : String} {descriptor' : ChannelDescriptor}
    (hentry : cfg.channelMap.find? (·.2.source = source) = some (name, descriptor')) :
    source = port.name ∧ descriptor' = descriptor := by
  have heq := List.inj_on_of_nodup_map hnames (List.mem_of_find?_eq_some hentry)
    (List.mem_of_find?_eq_some hfirst) rfl
  obtain rfl : descriptor' = descriptor := congrArg Prod.snd heq
  have hsource : descriptor'.source = source := by simpa using List.find?_some hentry
  have hport : descriptor'.source = port.name := by simpa using List.find?_some hfirst
  exact ⟨hsource.symm.trans hport, rfl⟩

theorem step_filling (hnames : (cfg.channelMap.map Prod.fst).Nodup)
    (hconfigured : Configured constructed build cfg kind i port name descriptor)
    (h : Filling build cfg kind port name descriptor m) {creation : Creation}
    (hstep : m.step constructed build creation = some m') :
    Filling build cfg kind port name descriptor m' := by
  refine ⟨step_created h.created hstep, step_owned h.owned hstep, ?_⟩
  cases round_of_step hstep with
  | idle => exact h.complete
  | @source kind' counter port' name' descriptor' c' howner hfind hcreate =>
    intro c hc
    obtain rfl := createSourceChannel_name hcreate
    by_cases hkey : kind = kind' ∧ name = c'.channelName
    -- A channel of this name was made: only this port is its source, so it is the one in question.
    · obtain ⟨rfl, rfl⟩ := hkey
      rw [storeChannel_self] at hc
      obtain rfl := Option.some.inj hc
      rw [h.created.channelMap] at hfind
      obtain ⟨hname, rfl⟩ := source_of_entry hnames hconfigured.first hfind
      have hstart : HasPort cfg.start kind .source counter port' := by
        rw [hasPort_iff, ← h.created.sameShape, ← hasPort_iff]
        exact howner
      obtain ⟨-, rfl⟩ := (start_created cfg).unique hconfigured.names hstart hconfigured.owner hname
      have hproxies : cfg.start.proxyPorts = m.proxyPorts := h.created.proxyPorts.symm
      apply (createSourceChannel_complete ?_ hcreate).of_shape h.created.sameShape.symm hproxies
      intro hkind
      exact (inOrder_of_shape h.created.sameShape.symm hproxies).mp (hconfigured.inRule hkind)
    · rw [storeChannel_of_ne hkey] at hc
      exact h.complete c hc
  | @interModuleDst kind' proxy name' descriptor' m₁ c' hproxy hfind hcreate =>
    intro c hc
    have hreceived := createInterModuleDst_received hcreate
    obtain rfl := hreceived.channelName
    by_cases hkey : kind = kind' ∧ name = c'.channelName
    · obtain ⟨rfl, rfl⟩ := hkey
      rw [h.created.channelMap] at hfind
      rw [h.created.proxyPorts] at hproxy
      obtain ⟨hname, -⟩ := source_of_entry hnames hconfigured.first hfind
      exact absurd hname (hconfigured.noProxy proxy hproxy)
    · rw [storeChannel_of_ne hkey, hreceived.mapOfChannels] at hc
      exact h.complete c hc

theorem round_creates (hconfigured : Configured constructed build cfg kind i port name descriptor)
    (h : Filling build cfg kind port name descriptor m) {p : Partition} {k : Nat}
    (hp : m.partitionVector[i]? = some p) (hk : (p.ports kind)[k]? = some port)
    (hstep : m.step constructed build (.source kind i k) = some m') :
    (m'.mapOfChannels kind name).isSome := by
  obtain ⟨_, -, _, hdirection⟩ := hconfigured.owner
  have hsource : ¬ port.portDirection = .destination := by
    rw [hdirection]
    nofun
  have hcan : m.canAddChannel build name = true :=
    (canAddChannel_iff h.owned.networks name).mpr hconfigured.owns
  rw [ModuleManager.step, hp, Option.bind_some, hk, Option.bind_some, ModuleManager.createSource,
    if_neg hsource, h.created.channelMap, hconfigured.first] at hstep
  simp only [hcan, if_true] at hstep
  split at hstep
  · cases hstep
  · rename_i c hcreate
    obtain rfl := Option.some.inj hstep
    rw [createSourceChannel_name hcreate]
    exact ModuleManager.storeChannel_isSome.mpr (Or.inl ⟨rfl, (createSourceChannel_name hcreate).symm⟩)

theorem createChannels_creates (hnames : (cfg.channelMap.map Prod.fst).Nodup)
    (hconfigured : Configured constructed build cfg kind i port name descriptor)
    (h : Filling build cfg kind port name descriptor m)
    (hrun : m.createChannels constructed build kind = some m') :
    (m'.mapOfChannels kind name).isSome := by
  have howner : HasPort m kind .source i port := by
    rw [hasPort_iff, h.created.sameShape, ← hasPort_iff]
    exact hconfigured.owner
  obtain ⟨p, hp, hport, -⟩ := howner
  obtain ⟨k, hk⟩ := List.mem_iff_getElem?.mp hport
  have hround : .source kind i k ∈ m.creations kind := by
    apply List.mem_append_left
    refine List.mem_flatMap.mpr ⟨(p, i), List.mem_zipIdx_iff_getElem?.mpr hp, ?_⟩
    exact List.mem_map.mpr ⟨k, List.mem_range.mpr (List.getElem?_eq_some_iff.mp hk).1, rfl⟩
  obtain ⟨before, after, hsplit⟩ := List.append_of_mem hround
  rw [ModuleManager.createChannels, hsplit] at hrun
  obtain ⟨u, hu, hrest⟩ := run_append_some.mp hrun
  obtain ⟨v, hv, hafter⟩ := run_cons_some.mp hrest
  have hfilling : Filling build cfg kind port name descriptor u :=
    run_invariant (fun _ _ _ hs hstep => step_filling hnames hconfigured hs hstep) h hu
  -- the ports of the partition are still those it had
  have hsame : shape u = shape m := hfilling.created.sameShape.trans h.created.sameShape.symm
  have hentry : (shape u)[i]? = some (p.isNetworkPartition, p.ports) := by
    rw [hsame, shape, List.getElem?_map, hp]
    rfl
  rw [shape, List.getElem?_map] at hentry
  obtain ⟨q, hq, hports⟩ := Option.map_eq_some_iff.mp hentry
  rw [← (Prod.mk.inj hports).2] at hk
  exact run_invariant (I := fun m => (m.mapOfChannels kind name).isSome = true)
    (fun _ _ _ hs hstep => step_keeps_channel hstep hs)
    (round_creates hconfigured hfilling hq hk hv) hafter

theorem channel_created (hnames : (cfg.channelMap.map Prod.fst).Nodup)
    (hconfigured : Configured constructed build cfg kind i port name descriptor)
    (h : cfg.createPartitionVector constructed build = some m) :
    ∃ c, m.mapOfChannels kind name = some c ∧ Carries m kind name i c port ∧
      Complete m kind port descriptor.destination c := by
  have hfilling {u v : ChannelWiring.ModuleManager} {as : List Creation}
      (hu : Filling build cfg kind port name descriptor u)
      (hrun : run (ModuleManager.step constructed build) u as = some v) :
      Filling build cfg kind port name descriptor v :=
    run_invariant (fun _ _ _ hs hstep => step_filling hnames hconfigured hs hstep) hu hrun
  have hstart := start_filling build cfg kind port name descriptor
  obtain ⟨queueing, hqueueing, hsampling⟩ := Option.bind_eq_some_iff.mp h
  have hmiddle := hfilling hstart hqueueing
  have hend := hfilling hmiddle hsampling
  have hsome : (m.mapOfChannels kind name).isSome := by
    cases kind with
    | sampling => exact createChannels_creates hnames hconfigured hmiddle hsampling
    | queueing =>
      exact run_invariant (I := fun m => (m.mapOfChannels .queueing name).isSome = true)
        (fun _ _ _ hs hstep => step_keeps_channel hstep hs)
        (createChannels_creates hnames hconfigured hstart hqueueing) hsampling
  obtain ⟨c, hc⟩ := Option.isSome_iff_exists.mp hsome
  have hcomplete := hend.complete c hc
  obtain ⟨-, j, hcarries⟩ := (hend.created.known hc).source port hcomplete.source
  have howner : HasPort cfg.start kind .source j port := by
    rw [hasPort_iff, ← hend.created.sameShape, ← hasPort_iff]
    exact hcarries.owner
  obtain ⟨rfl, -⟩ := (start_created cfg).unique hconfigured.names howner hconfigured.owner rfl
  exact ⟨c, hc, hcarries, hcomplete.of_shape hend.created.sameShape hend.created.proxyPorts⟩

theorem configuration_names (map : PropertyMap) (proxyPorts : List ProxyPort)
    (s : Initialization.State) :
    ((configuration map proxyPorts s).channelMap.map Prod.fst).Nodup := by
  have hkeys : (s.channelMap.entries.map Prod.fst).Nodup :=
    List.pairwise_map.mpr (s.channelMap.sorted.imp fun hlt => ne_of_lt hlt)
  have heq : (configuration map proxyPorts s).channelMap.map Prod.fst =
      (s.channelMap.entries.map Prod.fst).map String.ofList := by
    rw [configuration, List.map_map, List.map_map]
    rfl
  rw [heq]
  exact hkeys.map fun a b hab => String.ofList_injective hab

end

/-! ## The property file -/

/-- The channels that the property file leaves to a program. -/
def Owns (map : PropertyMap) (channelName : Text) : Build → Prop
  | .moduleManager => ∀ name ∈ equalRange map primaryKeyNetworkPartitionName,
      channelName ∉ equalRange map (name ++ additiveKeyChannel)
  | .networkPartition netPartition => ∃ name ∈ equalRange map primaryKeyNetworkPartitionName,
      netPartition = some (String.ofList name) ∧
        channelName ∈ equalRange map (name ++ additiveKeyChannel)

/-- A channel of the property file: the only one of its source, which is a port of the
    partition that comes at the place `k`. The ports of the kind have different names, and
    the destinations of a sampling channel are all ports of partitions. -/
structure FileChannel (map : PropertyMap) (kind : Kind)
    (channelName source : Text) (k : Nat) : Prop where
  listed : channelName ∈ equalRange map primaryKeyChannelName
  sourced : (equalRange map (channelName ++ additiveKeySource)).head? = some source
  named : source ≠ []
  single : ∀ other ∈ equalRange map primaryKeyChannelName,
    (equalRange map (other ++ additiveKeySource)).head? = some source → other = channelName
  port : ∃ name, (equalRange map primaryKeyPartitionName)[k]? = some name ∧
    source ∈ equalRange map (name ++ portKey kind)
  names : ((equalRange map primaryKeyPartitionName).flatMap fun name =>
    equalRange map (name ++ portKey kind)).Nodup
  noProxy : source ∉ equalRange map primaryKeyProxyPort
  inModule : kind = .sampling →
    ∀ destination ∈ equalRange map (channelName ++ additiveKeyDestination),
      ∃ name ∈ equalRange map primaryKeyPartitionName,
        destination ∈ equalRange map (name ++ portKey .sampling)

section
variable {env : Environment} {map : PropertyMap}
  {proxyPorts : List ProxyPort} {s : Initialization.State}
  {constructed : Kind → PortDescriptor → ReturnCode} {kind : Kind}
  {channelName source : Text} {k : Nat}

theorem mem_map_ofList {texts : List Text} {text : Text} :
    String.ofList text ∈ texts.map String.ofList ↔ text ∈ texts :=
  List.mem_map_of_injective fun _ _ => String.ofList_injective

theorem owns_iff {build : Build} :
    build.Owns (configuration map proxyPorts s) (String.ofList channelName) ↔
      Owns map channelName build := by
  cases build with
  | moduleManager => simp [Build.Owns, Owns, configuration, mem_map_ofList]
  | networkPartition netPartition => simp [Build.Owns, Owns, configuration, mem_map_ofList]

theorem FileChannel.first (h : FileChannel map kind channelName source k)
    (hread : Initialization.Read map proxyPorts s) :
    (configuration map proxyPorts s).channelMap.find? (·.2.source = String.ofList source) =
      some (String.ofList channelName, channelOf map channelName) := by
  have hsource : (channelOf map channelName).source = String.ofList source := by
    rw [channelOf, h.sourced]
    rfl
  have hthere : (String.ofList channelName, channelOf map channelName) ∈
      (configuration map proxyPorts s).channelMap :=
    List.mem_map.mpr ⟨_, hread.channels.names channelName h.listed, rfl⟩
  cases hfind : (configuration map proxyPorts s).channelMap.find?
      (·.2.source = String.ofList source) with
  | none => exact absurd (decide_eq_true hsource) (List.find?_eq_none.mp hfind _ hthere)
  | some e =>
    have hfound : e.2.source = String.ofList source := by simpa using List.find?_some hfind
    obtain ⟨entry, hentry, rfl⟩ := List.mem_map.mp (List.mem_of_find?_eq_some hfind)
    obtain ⟨hlisted, heq, -⟩ | ⟨-, hempty⟩ := hread.channels.entries entry hentry
    · simp only [heq, channelOf, String.ofList_inj] at hfound
      cases hhead : (equalRange map (entry.1 ++ additiveKeySource)).head? with
      | none =>
        rw [hhead] at hfound
        exact absurd hfound.symm h.named
      | some first =>
        rw [hhead] at hfound
        obtain rfl : first = source := hfound
        obtain rfl := h.single entry.1 hlisted hhead
        rw [heq]
    · simp only [hempty] at hfound
      exact absurd (String.ofList_injective hfound.symm) h.named

theorem port_names (hread : Initialization.Read map proxyPorts s) :
    ((configuration map proxyPorts s).partitions.flatMap (·.2 kind)).map (·.name) =
      ((equalRange map primaryKeyPartitionName).flatMap fun name =>
        equalRange map (name ++ portKey kind)).map String.ofList := by
  have hregular := hread.regular
  rw [configuration, List.flatMap_map, List.map_flatMap, List.map_flatMap]
  generalize equalRange map primaryKeyPartitionName = names at hregular
  generalize s.regular = regular at hregular
  induction hregular with
  | nil => rfl
  | cons hname _ ih => rw [List.flatMap_cons, List.flatMap_cons, hname.names, ih]

theorem findPartitionFromPort_isSome {partitions : List Partition} {name : String}
    (h : ∃ p ∈ partitions, name ∈ (p.ports kind).map (·.name)) :
    findPartitionFromPort kind name partitions ≠ none := by
  induction partitions with
  | nil =>
    obtain ⟨p, hp, -⟩ := h
    cases hp
  | cons partition partitions ih =>
    rw [findPartitionFromPort]
    cases hfirst : (partition.ports kind).find? (·.name = name) with
    | some found =>
      intro hnone
      cases hnone
    | none =>
      obtain ⟨p, hp, hname⟩ := h
      obtain ⟨d, hd, hdname⟩ := List.mem_map.mp hname
      obtain rfl | hp := List.mem_cons.mp hp
      · exact absurd (decide_eq_true hdname) (List.find?_eq_none.mp hfirst d hd)
      · have hrest := ih ⟨p, hp, hname⟩
        simpa using hrest

/-- Where no destination is remote, the loop follows the rule. -/
theorem inOrder_of_local {m : ChannelWiring.ModuleManager} {names : List String}
    (h : ∀ name ∈ names, findPartitionFromPort kind name m.partitionVector ≠ none) (size : Int) :
    m.InOrder constructed kind size none names := by
  induction names with
  | nil => trivial
  | cons name names ih =>
    obtain ⟨hname, hnames⟩ := List.forall_mem_cons.mp h
    rw [ModuleManager.InOrder]
    cases hfind : findPartitionFromPort kind name m.partitionVector with
    | none => exact absurd hfind hname
    | some found => exact Or.inr (ih hnames)

theorem FileChannel.configured (h : FileChannel map kind channelName source k)
    (howns : Owns map channelName env.build)
    (hread : readPartitionVector env map = .ok (proxyPorts, s)) :
    ∃ port, port.name = String.ofList source ∧
      Configured constructed env.build (configuration map proxyPorts s) kind
        ((equalRange map primaryKeyNetworkPartitionName).length + k) port
        (String.ofList channelName) (channelOf map channelName) := by
  have hknown := Initialization.read_of_readPartitionVector hread
  have hstart := Initialization.configuration_start hread
  obtain ⟨name, hname, hsource⟩ := h.port
  obtain ⟨p, hp, hregular⟩ := hknown.partition_at hname
  have hmem : String.ofList source ∈ (p.ports kind).map (·.name) := by
    rw [hregular.names]
    exact mem_map_ofList.mpr hsource
  obtain ⟨port, hport, hportName⟩ := List.mem_map.mp hmem
  have hdirected : Initialization.Directed map (channelOf map channelName) := by
    obtain ⟨-, -, hdirected⟩ | ⟨hnot, -⟩ :=
      hknown.channels.entries _ (hknown.channels.names channelName h.listed)
    · exact hdirected
    · exact absurd h.listed hnot
  -- The port and the channel read the direction of the name from the same property.
  have hdirection : port.portDirection = .source := by
    have hread := hregular.directions kind port hport
    have hchannel := hdirected.source
    rw [channelOf, h.sourced] at hchannel
    rw [hportName] at hread
    exact Option.some.inj (hread.symm.trans hchannel)
  refine ⟨port, hportName, ?_, ?_, owns_iff.mpr howns, ?_, ?_, ?_⟩
  · rw [hstart]
    exact ⟨p, hp, hport, hdirection⟩
  · rw [hportName]
    exact h.first hknown
  · rw [port_names hknown]
    exact h.names.map fun _ _ => String.ofList_injective
  · intro proxy hproxy heq
    have hproxies : proxy.name ∈ proxyPorts.map (·.name) := List.mem_map_of_mem hproxy
    rw [hknown.proxyNames, heq, hportName] at hproxies
    exact h.noProxy (mem_map_ofList.mp hproxies)
  -- The destinations of a sampling channel are all in the module, so they keep their order.
  · intro hkind
    subst hkind
    apply inOrder_of_local
    intro name hname
    obtain ⟨destination, hdestination, rfl⟩ := List.mem_map.mp hname
    obtain ⟨owner, howner, hlisted⟩ := h.inModule rfl destination hdestination
    obtain ⟨j, hj⟩ := List.mem_iff_getElem?.mp howner
    obtain ⟨q, hq, hqregular⟩ := hknown.partition_at hj
    rw [hstart]
    apply findPartitionFromPort_isSome
    refine ⟨q, List.mem_of_getElem? hq, ?_⟩
    rw [hqregular.names]
    exact mem_map_ofList.mpr hlisted

/-- **Every channel of the property file is created.** When CREATE_PARTITION_VECTOR comes
    to its end, the program has each channel that the file leaves to it and whose source
    is a port of a partition: the channel carries the messages of that port, and goes to
    what the names of its destinations stand for, to each once and in their order. -/
theorem configured_channel_created {m : ChannelWiring.ModuleManager}
    (hcreated : Initialization.createPartitionVector env constructed map = some m)
    (h : FileChannel map kind channelName source k) (howns : Owns map channelName env.build) :
    ∃ c port, port.name = String.ofList source ∧
      m.mapOfChannels kind (String.ofList channelName) = some c ∧
      Carries m kind (String.ofList channelName)
        ((equalRange map primaryKeyNetworkPartitionName).length + k) c port ∧
      Complete m kind port
        ((equalRange map (channelName ++ additiveKeyDestination)).map String.ofList) c := by
  obtain ⟨proxyPorts, s, hread, hcreated⟩ := Initialization.of_createPartitionVector hcreated
  obtain ⟨port, hname, hconfigured⟩ := h.configured howns hread
  obtain ⟨c, hc, hcarries, hcomplete⟩ :=
    channel_created (configuration_names map proxyPorts s) hconfigured hcreated
  exact ⟨c, port, hname, hc, hcarries, hcomplete⟩

end

/-! ## An example -/

theorem oneQueue_channel :
    FileChannel Initialization.oneQueue .queueing "queued".toList "outQueue".toList 0 := by
  obtain ⟨⟨hchannels, hpartitions, -, hproxies⟩, hsource, -, hsender, hreceiver⟩ :=
    Initialization.oneQueue_values
  have hports : ((equalRange Initialization.oneQueue primaryKeyPartitionName).flatMap fun name =>
      equalRange Initialization.oneQueue (name ++ portKey .queueing)) =
        ["outQueue".toList, "inQueue".toList] := by
    rw [hpartitions, List.flatMap_cons, List.flatMap_cons, List.flatMap_nil, hsender, hreceiver]
    rfl
  refine ⟨?_, ?_, by decide, ?_, ⟨"sender".toList, ?_, ?_⟩, ?_, ?_, nofun⟩
  · rw [hchannels]
    exact List.mem_cons_self
  · rw [hsource]
    rfl
  · rw [hchannels]
    exact fun other hother _ => List.mem_singleton.mp hother
  · rw [hpartitions]
    rfl
  · rw [hsender]
    exact List.mem_cons_self
  · rw [hports]
    decide
  · rw [hproxies]
    exact List.not_mem_nil

theorem configured_channel_created_oneQueue :
    ∃ c port, port.name = String.ofList "outQueue".toList ∧
      Initialization.oneQueueModule.mapOfChannels .queueing (String.ofList "queued".toList) =
        some c ∧
      Carries Initialization.oneQueueModule .queueing (String.ofList "queued".toList)
        ((equalRange Initialization.oneQueue primaryKeyNetworkPartitionName).length + 0) c port ∧
      Complete Initialization.oneQueueModule .queueing port
        ((equalRange Initialization.oneQueue ("queued".toList ++ additiveKeyDestination)).map
          String.ofList) c := by
  have howns : Owns Initialization.oneQueue "queued".toList .moduleManager := by
    obtain ⟨⟨-, -, hnetworks, -⟩, -⟩ := Initialization.oneQueue_values
    intro name hname
    rw [hnetworks] at hname
    cases hname
  exact configured_channel_created Initialization.oneQueue_created oneQueue_channel howns

end Arinc.Transport
