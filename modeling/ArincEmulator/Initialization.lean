import ArincEmulator.ChannelOwnership
import ArincEmulator.Lib.OrderedMap
import ArincEmulator.Lib.Throwing
import ArincEmulator.PropertyFile
import ArincEmulator.Schedule

/- The initialization of a module from its property file. The proxies, the channels, the
   network partitions and the regular partitions are read one after the other, each from
   the values of keys that are made of its name; what is missing or cannot be read makes
   the program throw. A network partition is given the channels it lists by the type of
   their sources, and to look for the source of a channel that was not read adds an
   empty one to the map.

   What is proved, for every property map and every environment:
     1. `read_of_readPartitionVector`: what was read comes from the values of its names,
        in their order; every window of the schedule is one of a partition of the
        vector, and every partition has one (`Covered`).
     2. `configuration_start`: where the initialization comes to the creation of the
        channels, it is at the start of the creation for some configuration. -/
namespace Arinc.Initialization
open PropertyFile ChannelWiring Throwing
open Schedule (SchedulingTuple)

/-! ## Keys and values -/

def primaryKeyNetworkPartitionName : Text := "NETWORK_PARTITION_NAME".toList
def primaryKeyHyperperiodKey : Text := "HYPERPERIOD".toList
def primaryKeyMaxiterations : Text := "MAXITERATIONS".toList
def primaryKeyPartitionName : Text := "PARTITION_NAME".toList
def primaryKeyChannelName : Text := "CHANNEL_NAME".toList
def primaryKeyProxyPort : Text := "PROXY_PORT".toList
def additiveKeyChannel : Text := "_CHANNEL".toList
def additiveKeyPortNumber : Text := "_PORT_NUMBER".toList
def additiveKeyModuleName : Text := "_MODULE_NAME".toList
def additiveKeyType : Text := "_TYPE".toList
def additiveKeyDirection : Text := "_DIRECTION".toList
def additiveKeyDestination : Text := "_DESTINATION".toList
def additiveKeySource : Text := "_SOURCE".toList
def additiveKeySchedule : Text := "_SCHEDULE".toList
def additiveKeyExecutable : Text := "_EXECUTABLE".toList
def additiveKeySamplingport : Text := "_SAMPLINGPORT".toList
def additiveKeyMaxmessagesize : Text := "_MAXMESSAGESIZE".toList
def additiveKeyRefreshperiod : Text := "_REFRESHPERIOD".toList
def additiveKeyQueuingport : Text := "_QUEUINGPORT".toList
def additiveKeyMaxnumberofmessages : Text := "_MAXNUMBEROFMESSAGES".toList

/-- `PROXY_TYPE_SAMPLING` and `PROXY_TYPE_QUEUEING`. -/
def proxyType (data : Text) : Option Kind :=
  if data = "SAMPLING".toList then some .sampling
  else if data = "QUEUING".toList then some .queueing
  else none

/-- The two words for a direction. -/
def portDirection (data : Text) : Option PortDirection :=
  if data = "SOURCE".toList then some .source
  else if data = "DESTINATION".toList then some .destination
  else none

/-- What `from_string` reads of an integer of `w` bits: blanks are passed over, a sign is
    taken, and then all digits there are. -/
def fromString (signed : Bool) (w : Nat) (s : Text) : Option Int :=
  let s := fromFirstNotOf s [' ', '\t', '\n', '\x0b', '\x0c', '\r']
  let negative := s.head? = some '-'
  let digits := (if s.head? = some '-' ∨ s.head? = some '+' then s.tail else s).takeWhile
    Char.isDigit
  let magnitude := digits.foldl (fun n c => 10 * n + (c.toNat - '0'.toNat)) 0
  if digits = [] then none
  else if signed then
    if negative then if magnitude ≤ 2 ^ (w - 1) then some (-magnitude) else none
    else if magnitude < 2 ^ (w - 1) then some magnitude else none
  -- a minus in front of an unsigned value is taken modulo `2 ^ w`
  else if magnitude < 2 ^ w then some (if negative then -magnitude % 2 ^ w else magnitude)
  else none

/-- What the initialization asks of its surroundings: the program that it is part of, the
    nanoseconds that a text gives in seconds (`from_string<double>` and
    `convertSecsToNano`), whether a file can be opened, and the codes with which the
    ports of a partition and the configuration queue of a network partition are made. -/
structure Environment where
  build : Build
  secsToNano : Text → Option Int
  fexists : Text → Bool
  port : Nat → Kind → PortDescriptor → ReturnCode
  configurationQueue : Nat → Text → ReturnCode

/-- The values of a key, in the order of their lines (`equal_range`). -/
def equalRange (map : PropertyMap) (key : Text) : List Text := Multimap.valuesOf map.entries key

/-- A value, or an exception of the code. -/
def orThrow {α : Type} (code : Int) : Option α → Except Int α
  | none => .error code
  | some a => .ok a

/-- An exception of the code where the condition does not hold. -/
def require (code : Int) (condition : Bool) : Except Int Unit :=
  if condition then .ok () else .error code

/-- The first value of a key. -/
def firstValue (map : PropertyMap) (key : Text) : Except Int Text :=
  orThrow (-3) (equalRange map key).head?

/-- The values of a key, of which there has to be one. -/
def someValues (map : PropertyMap) (key : Text) : Except Int (List Text) :=
  (require (-3) (decide (equalRange map key ≠ []))).map fun _ => equalRange map key

/-! ## Proxies and channels -/

/-- The round of CREATE_PROXY_PORT_DESCRIPTORS. -/
def createProxyPortDescriptor (map : PropertyMap) (proxyName : Text) : Except Int ProxyPort := do
  let hostName ← firstValue map (proxyName ++ additiveKeyModuleName)
  let proxytypetmp ← firstValue map (proxyName ++ additiveKeyType)
  let kind ← orThrow (-3) (proxyType proxytypetmp)
  let portnumtemp ← firstValue map (proxyName ++ additiveKeyPortNumber)
  let portNumber ← orThrow (-3) (fromString false 32 portnumtemp)
  let messagemaxsize ← firstValue map (proxyName ++ additiveKeyMaxmessagesize)
  let maxMessageSize ← orThrow (-3) (fromString true 64 messagemaxsize)
  let messagemaxNum ← firstValue map (proxyName ++ additiveKeyMaxnumberofmessages)
  let maxNbMessage ← orThrow (-3) (fromString true 64 messagemaxNum)
  let directionData ← firstValue map (proxyName ++ additiveKeyDirection)
  let direction ← orThrow (-3) (portDirection directionData)
  return ⟨kind, String.ofList proxyName, String.ofList hostName, portNumber.toNat, maxMessageSize,
    maxNbMessage, direction⟩

/-- The check that CREATE_CHANNEL_DSCRIPTOR makes of the ends of a channel. -/
def checkDirection (map : PropertyMap) (direction : PortDirection) (port : Text) :
    Except Int Unit := do
  let directionData ← firstValue map (port ++ additiveKeyDirection)
  require (-3) (portDirection directionData = some direction)

/-- `CHANNEL_MAP`. -/
abbrev ChannelMap := OrderedMap Text ChannelDescriptor

/-- The round of CREATE_CHANNEL_DSCRIPTOR. -/
def createChannelDescriptor (map : PropertyMap) (channelMap : ChannelMap) (channelName : Text) :
    Except Int ChannelMap := do
  let channelSource ← firstValue map (channelName ++ additiveKeySource)
  let _ ← checkDirection map .source channelSource
  let channelDestination ← someValues map (channelName ++ additiveKeyDestination)
  let _ ← channelDestination.mapM (checkDirection map .destination)
  return channelMap.set channelName
    ⟨String.ofList channelSource, channelDestination.map String.ofList⟩

/-! ## Partitions -/

/-- What CREATE_PARTITION_VECTOR fills. -/
structure State where
  channelMap : ChannelMap
  partitionVector : List Partition
  schedulingVector : List SchedulingTuple

/-- A line of a schedule. -/
def schedulingTuple (env : Environment) (partitionIndex : Nat) (scheduleString : Text) :
    Except Int SchedulingTuple :=
  match stringTokenize scheduleString [','] with
  | [first, second] => do
    let offset ← orThrow (-4) (env.secsToNano first)
    let duration ← orThrow (-4) (env.secsToNano second)
    return ⟨partitionIndex, offset, duration⟩
  | _ => .error (-3)

/-- The schedule of a partition. -/
def schedule (env : Environment) (map : PropertyMap) (partitionIndex : Nat) (name : Text) :
    Except Int (List SchedulingTuple) :=
  (someValues map (name ++ additiveKeySchedule)).bind
    (List.mapM (schedulingTuple env partitionIndex))

/-- The kind of a channel, by the type of its source if that is a proxy, and else by
    whether its source has a refresh period. -/
def channelKind (map : PropertyMap) (source : Text) : Except Int Kind :=
  match (equalRange map (source ++ additiveKeyType)).head? with
  | some value => orThrow (-3) (proxyType value)
  | none =>
    .ok (if equalRange map (source ++ additiveKeyRefreshperiod) = [] then .queueing else .sampling)

/-- The source of a channel, as the map has it once the channel was accessed. -/
def sourceOf (channelMap : ChannelMap) (channelName : Text) : Text :=
  ((channelMap.find? channelName).map fun descriptor => descriptor.source.toList).getD []

/-- A channel that a network partition lists. -/
def listChannel (map : PropertyMap) (s : ChannelMap × Partition) (channelName : Text) :
    Except Int (ChannelMap × Partition) := do
  let channelMap := s.1.access ⟨"", []⟩ channelName
  let kind ← channelKind map (sourceOf channelMap channelName)
  return (channelMap, s.2.pushSource kind (String.ofList channelName))

/-- The round of CREATE_NETWORK_PARTITION_VECTOR. -/
def createNetworkPartition (env : Environment) (map : PropertyMap) (s : State) (name : Text) :
    Except Int State := do
  let partitionIndex := s.partitionVector.length
  let _ ← require (-3) (env.build ≠ .moduleManager ∨
    env.configurationQueue partitionIndex name = .noError)
  let (channelMap, partition) ← (equalRange map (name ++ additiveKeyChannel)).foldlM
    (listChannel map) (s.channelMap, ⟨String.ofList name, true, fun _ => [], fun _ => [], fun _ => []⟩)
  let tuples ← schedule env map partitionIndex name
  return ⟨channelMap, s.partitionVector ++ [partition], s.schedulingVector ++ tuples⟩

/-- What is read of a port: its sizes, and its direction, and then it is made. -/
def portDescriptor (env : Environment) (map : PropertyMap) (partitionIndex : Nat) (kind : Kind)
    (attributeKey : Text) (ofData : Text → Option Int) (notMade : Int) (name : Text) :
    Except Int PortDescriptor := do
  let maxMessageData ← firstValue map (name ++ additiveKeyMaxmessagesize)
  let maxMessageSize ← orThrow (-4) (fromString true 64 maxMessageData)
  let attributeData ← firstValue map (name ++ attributeKey)
  let portAttribute ← orThrow (-4) (ofData attributeData)
  let directionData ← firstValue map (name ++ additiveKeyDirection)
  let direction ← orThrow (-4) (portDirection directionData)
  let descriptor : PortDescriptor := ⟨String.ofList name, maxMessageSize, portAttribute, direction⟩
  let _ ← require notMade (env.build ≠ .moduleManager ∨
    env.port partitionIndex kind descriptor = .noError)
  return descriptor

/-- What CREATE_PARTITION_VECTOR reads of a sampling port, -/
def samplingPort (env : Environment) (map : PropertyMap) (partitionIndex : Nat) :
    Text → Except Int PortDescriptor :=
  portDescriptor env map partitionIndex .sampling additiveKeyRefreshperiod env.secsToNano (-4)

/-- and of a queueing port. -/
def queuingPort (env : Environment) (map : PropertyMap) (partitionIndex : Nat) :
    Text → Except Int PortDescriptor :=
  portDescriptor env map partitionIndex .queueing additiveKeyMaxnumberofmessages
    (fromString true 64) (-3)

/-- The round of CREATE_PARTITION_VECTOR for a partition. -/
def createPartition (env : Environment) (map : PropertyMap) (s : State) (name : Text) :
    Except Int State := do
  let partitionIndex := s.partitionVector.length
  let executable ← firstValue map (name ++ additiveKeyExecutable)
  let _ ← require (-3) (env.fexists executable)
  let tuples ← schedule env map partitionIndex name
  let samplingPorts ← (equalRange map (name ++ additiveKeySamplingport)).mapM
    (samplingPort env map partitionIndex)
  let queuingPorts ← (equalRange map (name ++ additiveKeyQueuingport)).mapM
    (queuingPort env map partitionIndex)
  let ports : Kind → List PortDescriptor
    | .sampling => samplingPorts
    | .queueing => queuingPorts
  return ⟨s.channelMap,
    s.partitionVector ++ [⟨String.ofList name, false, ports, fun _ => [], fun _ => []⟩],
    s.schedulingVector ++ tuples⟩

/-- CREATE_PROXY_PORT_DESCRIPTORS. -/
def createProxyPortDescriptors (map : PropertyMap) : Except Int (List ProxyPort) :=
  (equalRange map primaryKeyProxyPort).mapM (createProxyPortDescriptor map)

/-- CREATE_CHANNEL_DSCRIPTOR. -/
def createChannelDescriptors (map : PropertyMap) : Except Int ChannelMap :=
  (equalRange map primaryKeyChannelName).foldlM (createChannelDescriptor map) OrderedMap.empty

/-- CREATE_NETWORK_PARTITION_VECTOR. -/
def createNetworkPartitionVector (env : Environment) (map : PropertyMap) (channelMap : ChannelMap) :
    Except Int State :=
  (equalRange map primaryKeyNetworkPartitionName).foldlM (createNetworkPartition env map)
    ⟨channelMap, [], []⟩

/-- CREATE_PARTITION_VECTOR up to the creation of the channels. -/
def readPartitionVector (env : Environment) (map : PropertyMap) :
    Except Int (List ProxyPort × State) := do
  let proxyPorts ← createProxyPortDescriptors map
  let channelMap ← createChannelDescriptors map
  let s ← createNetworkPartitionVector env map channelMap
  let s ← (equalRange map primaryKeyPartitionName).foldlM (createPartition env map) s
  return (proxyPorts, s)

/-! ## The configuration that is read -/

/-- The kind of a channel, by its source; some kind where that has none. -/
def kindOf (map : PropertyMap) (source : Text → Text) (name : String) : Kind :=
  match channelKind map (source name.toList) with
  | .ok kind => kind
  | .error _ => .queueing

/-- The regular partitions. -/
def State.regular (s : State) : List Partition := s.partitionVector.filter (!·.isNetworkPartition)

/-- A configuration for what was read. -/
def configuration (map : PropertyMap) (proxyPorts : List ProxyPort) (s : State) :
    Configuration where
  networkPartitions := (equalRange map primaryKeyNetworkPartitionName).map fun name =>
    (String.ofList name, (equalRange map (name ++ additiveKeyChannel)).map String.ofList)
  kindOf := kindOf map (sourceOf s.channelMap)
  partitions := s.regular.map fun p => (p.name, p.ports)
  proxyPorts := proxyPorts
  channelMap := s.channelMap.entries.map fun e => (String.ofList e.1, e.2)

/-- `MODULE_MANAGER` where the creation of the channels begins. -/
def State.moduleManager (s : State) (proxyPorts : List ProxyPort) : ModuleManager where
  partitionVector := s.partitionVector
  proxyPorts := proxyPorts
  channelMap := s.channelMap.entries.map fun e => (String.ofList e.1, e.2)
  mapOfChannels := fun _ _ => none

theorem of_orThrow_ok {α : Type} {code : Int} {o : Option α} {a : α} (h : orThrow code o = .ok a) :
    o = some a := by
  cases o with
  | none => cases h
  | some b => exact congrArg some (Except.ok.inj h)

theorem of_require_ok {code : Int} {condition : Bool} {u : Unit}
    (h : require code condition = .ok u) : condition = true := by
  rw [require] at h
  split at h
  · assumption
  · cases h

theorem of_someValues_ok {map : PropertyMap} {key : Text} {vs : List Text}
    (h : someValues map key = .ok vs) : vs = equalRange map key ∧ vs ≠ [] := by
  obtain ⟨u, hsome, rfl⟩ := of_map_ok h
  exact ⟨rfl, of_decide_eq_true (of_require_ok hsome)⟩

section
variable {env : Environment} {map : PropertyMap} {s t : State} {name : Text}

/-- To look for a channel tells nothing else of the sources. -/
theorem sourceOf_access (channelMap : ChannelMap) (channelName : Text) :
    sourceOf (channelMap.access ⟨"", []⟩ channelName) = sourceOf channelMap := by
  funext name
  unfold sourceOf
  cases hfind : channelMap.find? name with
  | some descriptor =>
    have hthere : (name, descriptor) ∈ (channelMap.access ⟨"", []⟩ channelName).entries :=
      OrderedMap.mem_access.mpr (Or.inl (OrderedMap.find?_eq_some_iff.mp hfind))
    rw [OrderedMap.find?_eq_some_iff.mpr hthere]
  | none =>
    cases hfind' : (channelMap.access ⟨"", []⟩ channelName).find? name with
    | none => rfl
    | some descriptor =>
      obtain hold | ⟨heq, -⟩ := OrderedMap.mem_access.mp (OrderedMap.find?_eq_some_iff.mp hfind')
      · exact absurd rfl (OrderedMap.find?_eq_none_iff.mp hfind _ hold)
      · obtain ⟨-, rfl⟩ := Prod.mk.inj heq
        rfl

/-- The direction that the configuration has for a name. -/
def directionOf (map : PropertyMap) (name : String) : Option PortDirection :=
  (equalRange map (name.toList ++ additiveKeyDirection)).head?.bind portDirection

/-- The ends of a channel, by its name. -/
def channelOf (map : PropertyMap) (channelName : Text) : ChannelDescriptor where
  source := String.ofList ((equalRange map (channelName ++ additiveKeySource)).head?.getD [])
  destination := (equalRange map (channelName ++ additiveKeyDestination)).map String.ofList

/-- The ends of a channel as CREATE_CHANNEL_DSCRIPTOR has checked them. -/
structure Directed (map : PropertyMap) (descriptor : ChannelDescriptor) : Prop where
  source : directionOf map descriptor.source = some .source
  destination : ∀ name ∈ descriptor.destination, directionOf map name = some .destination
  nonempty : descriptor.destination ≠ []

/-- The map has the channels of some names, and empty ones besides. -/
structure HoldsChannels (map : PropertyMap) (names : List Text) (channelMap : ChannelMap) :
    Prop where
  entries : ∀ e ∈ channelMap.entries,
    e.1 ∈ names ∧ e.2 = channelOf map e.1 ∧ Directed map e.2 ∨ e.1 ∉ names ∧ e.2 = ⟨"", []⟩
  names : ∀ name ∈ names, (name, channelOf map name) ∈ channelMap.entries

theorem HoldsChannels.access {names : List Text} {channelMap : ChannelMap}
    (h : HoldsChannels map names channelMap) (channelName : Text) :
    HoldsChannels map names (channelMap.access ⟨"", []⟩ channelName) where
  entries e he := by
    obtain hold | ⟨rfl, hnew⟩ := OrderedMap.mem_access.mp he
    · exact h.entries e hold
    · exact Or.inr ⟨fun hname => hnew _ (h.names _ hname) rfl, rfl⟩
  names name hname := OrderedMap.mem_access.mpr (Or.inl (h.names name hname))

/-- What a network partition is with the channels that it has listed. -/
def listed (map : PropertyMap) (source : Text → Text) (name : Text) (channels : List Text) :
    Partition :=
  ⟨String.ofList name, true, fun _ => [],
    fun kind => (channels.map String.ofList).filter (kindOf map source · = kind), fun _ => []⟩

theorem listChannel_listed {source : Text → Text} {channels : List Text} {channel : Text}
    {channelMap channelMap' : ChannelMap} {p : Partition} (hsource : sourceOf channelMap = source)
    (h : listChannel map (channelMap, listed map source name channels) channel =
      .ok (channelMap', p)) :
    sourceOf channelMap' = source ∧ p = listed map source name (channels ++ [channel]) := by
  obtain ⟨kind, hkind, heq⟩ := of_bind_ok h
  obtain ⟨rfl, rfl⟩ := Prod.mk.inj (Except.ok.inj heq)
  rw [sourceOf_access, hsource] at hkind
  have hkindOf : kindOf map source (String.ofList channel) = kind := by
    simp [kindOf, hkind]
  refine ⟨(sourceOf_access _ _).trans hsource, ?_⟩
  rw [Partition.pushSource, listed, listed, List.map_append]
  congr 1
  funext k
  by_cases hk : k = kind
  · subst hk
    simp [hkindOf]
  · simp [hkindOf, hk, Ne.symm hk]

/-- What a round adds: a partition, and windows of it, one at least. -/
structure Pushed (s t : State) (p : Partition) : Prop where
  partitionVector : t.partitionVector = s.partitionVector ++ [p]
  schedulingVector : ∃ tuples, t.schedulingVector = s.schedulingVector ++ tuples ∧ tuples ≠ [] ∧
    ∀ w ∈ tuples, w.partitionIndex = s.partitionVector.length

theorem of_schedule_ok {partitionIndex : Nat} {tuples : List SchedulingTuple}
    (h : schedule env map partitionIndex name = .ok tuples) :
    tuples ≠ [] ∧ ∀ w ∈ tuples, w.partitionIndex = partitionIndex := by
  obtain ⟨strings, hstrings, htuples⟩ := of_bind_ok h
  obtain ⟨-, hnonempty⟩ := of_someValues_ok hstrings
  constructor
  · rintro rfl
    obtain ⟨string, hstring⟩ := List.exists_mem_of_ne_nil _ hnonempty
    obtain ⟨w, hw, -⟩ := exists_of_mem_elements htuples hstring
    cases hw
  · intro w hw
    obtain ⟨scheduleString, -, htuple⟩ := exists_of_mem_results htuples hw
    rw [schedulingTuple] at htuple
    split at htuple
    · obtain ⟨offset, -, hoffset⟩ := of_bind_ok htuple
      obtain ⟨duration, -, hduration⟩ := of_bind_ok hoffset
      obtain rfl := Except.ok.inj hduration
      rfl
    · cases htuple

theorem createNetworkPartition_pushes (h : createNetworkPartition env map s name = .ok t) :
    Pushed s t (listed map (sourceOf s.channelMap) name
        (equalRange map (name ++ additiveKeyChannel))) ∧
      sourceOf t.channelMap = sourceOf s.channelMap ∧
      ∀ names, HoldsChannels map names s.channelMap → HoldsChannels map names t.channelMap := by
  obtain ⟨u, -, h⟩ := of_bind_ok h
  obtain ⟨⟨channelMap, p⟩, hlist, h⟩ := of_bind_ok h
  obtain ⟨tuples, htuples, h⟩ := of_bind_ok h
  obtain rfl := Except.ok.inj h
  let I (channels : List Text) (state : ChannelMap × Partition) : Prop :=
    (sourceOf state.1 = sourceOf s.channelMap ∧
      state.2 = listed map (sourceOf s.channelMap) name channels) ∧
      ∀ names, HoldsChannels map names s.channelMap → HoldsChannels map names state.1
  have hlisted : I (equalRange map (name ++ additiveKeyChannel)) (channelMap, p) := by
    refine of_foldlM_ok (I := I) ⟨⟨rfl, rfl⟩, fun _ => id⟩ ?_ hlist
    intro before channel state state' hstate hround
    obtain ⟨cm, q⟩ := state
    obtain ⟨⟨hsource, rfl⟩, hholds⟩ := hstate
    obtain ⟨cm', q'⟩ := state'
    refine ⟨listChannel_listed hsource hround, fun names hnames => ?_⟩
    obtain ⟨kind, -, heq⟩ := of_bind_ok hround
    obtain ⟨rfl, -⟩ := Prod.mk.inj (Except.ok.inj heq)
    exact (hholds names hnames).access channel
  obtain ⟨⟨hsource, rfl⟩, hholds⟩ := hlisted
  exact ⟨⟨rfl, tuples, rfl, of_schedule_ok htuples⟩, hsource, hholds⟩

theorem directionOf_ofList {directionData : Text} {direction : PortDirection}
    (hdata : firstValue map (name ++ additiveKeyDirection) = .ok directionData)
    (hdirection : portDirection directionData = some direction) :
    directionOf map (String.ofList name) = some direction := by
  rw [directionOf, String.toList_ofList, of_orThrow_ok hdata]
  exact hdirection

theorem of_portDescriptor_ok {partitionIndex : Nat} {kind : Kind} {attributeKey : Text}
    {ofData : Text → Option Int} {notMade : Int} {d : PortDescriptor}
    (h : portDescriptor env map partitionIndex kind attributeKey ofData notMade name = .ok d) :
    d.name = String.ofList name ∧ directionOf map d.name = some d.portDirection := by
  obtain ⟨maxMessageData, -, h⟩ := of_bind_ok h
  obtain ⟨maxMessageSize, -, h⟩ := of_bind_ok h
  obtain ⟨attributeData, -, h⟩ := of_bind_ok h
  obtain ⟨portAttribute, -, h⟩ := of_bind_ok h
  obtain ⟨directionData, hdata, h⟩ := of_bind_ok h
  obtain ⟨direction, hdirection, h⟩ := of_bind_ok h
  obtain ⟨u, -, h⟩ := of_bind_ok h
  obtain rfl := Except.ok.inj h
  exact ⟨rfl, directionOf_ofList hdata (of_orThrow_ok hdirection)⟩

theorem of_createProxyPortDescriptor_ok {proxy : ProxyPort}
    (h : createProxyPortDescriptor map name = .ok proxy) :
    proxy.name = String.ofList name ∧ directionOf map proxy.name = some proxy.portDirection := by
  obtain ⟨hostName, -, h⟩ := of_bind_ok h
  obtain ⟨proxytypetmp, -, h⟩ := of_bind_ok h
  obtain ⟨kind, -, h⟩ := of_bind_ok h
  obtain ⟨portnumtemp, -, h⟩ := of_bind_ok h
  obtain ⟨portNumber, -, h⟩ := of_bind_ok h
  obtain ⟨messagemaxsize, -, h⟩ := of_bind_ok h
  obtain ⟨maxMessageSize, -, h⟩ := of_bind_ok h
  obtain ⟨messagemaxNum, -, h⟩ := of_bind_ok h
  obtain ⟨maxNbMessage, -, h⟩ := of_bind_ok h
  obtain ⟨directionData, hdata, h⟩ := of_bind_ok h
  obtain ⟨direction, hdirection, h⟩ := of_bind_ok h
  obtain rfl := Except.ok.inj h
  exact ⟨rfl, directionOf_ofList hdata (of_orThrow_ok hdirection)⟩

theorem of_checkDirection_ok {direction : PortDirection} {u : Unit}
    (h : checkDirection map direction name = .ok u) :
    directionOf map (String.ofList name) = some direction := by
  obtain ⟨directionData, hdata, h⟩ := of_bind_ok h
  exact directionOf_ofList hdata (of_decide_eq_true (of_require_ok h))

/-- The key of the ports of a kind. -/
def portKey : Kind → Text
  | .sampling => additiveKeySamplingport
  | .queueing => additiveKeyQueuingport

/-- A regular partition of a name, as it is read. -/
structure Regular (map : PropertyMap) (name : Text) (p : Partition) : Prop where
  fresh : p = ⟨String.ofList name, false, p.ports, fun _ => [], fun _ => []⟩
  names : ∀ kind, (p.ports kind).map (·.name) =
    (equalRange map (name ++ portKey kind)).map String.ofList
  directions : ∀ kind, ∀ d ∈ p.ports kind, directionOf map d.name = some d.portDirection

theorem createPartition_pushes (h : createPartition env map s name = .ok t) :
    ∃ p, Pushed s t p ∧ Regular map name p ∧ t.channelMap = s.channelMap := by
  obtain ⟨executable, -, h⟩ := of_bind_ok h
  obtain ⟨u, -, h⟩ := of_bind_ok h
  obtain ⟨tuples, htuples, h⟩ := of_bind_ok h
  obtain ⟨samplingPorts, hsampling, h⟩ := of_bind_ok h
  obtain ⟨queuingPorts, hqueuing, h⟩ := of_bind_ok h
  obtain rfl := Except.ok.inj h
  refine ⟨_, ⟨rfl, tuples, rfl, of_schedule_ok htuples⟩, ⟨rfl, fun kind => ?_, fun kind d hd => ?_⟩,
    rfl⟩
  · cases kind with
    | sampling => exact map_of_mapM_ok (fun hport => (of_portDescriptor_ok hport).1) hsampling
    | queueing => exact map_of_mapM_ok (fun hport => (of_portDescriptor_ok hport).1) hqueuing
  · cases kind with
    | sampling =>
      obtain ⟨port, -, hport⟩ := exists_of_mem_results hsampling hd
      exact (of_portDescriptor_ok hport).2
    | queueing =>
      obtain ⟨port, -, hport⟩ := exists_of_mem_results hqueuing hd
      exact (of_portDescriptor_ok hport).2

/-- CREATE_PARTITION_VECTOR; nothing where it throws. -/
def createPartitionVector (env : Environment) (constructed : Kind → PortDescriptor → ReturnCode)
    (map : PropertyMap) : Option ModuleManager :=
  (readPartitionVector env map).toOption.bind fun (proxyPorts, s) =>
    ((s.moduleManager proxyPorts).createChannels constructed env.build .queueing).bind fun m =>
      m.createChannels constructed env.build .sampling

/-! ## What is known of it -/

/-- Every window is of a partition, and every partition has one. -/
structure Covered (s : State) : Prop where
  inRange : ∀ w ∈ s.schedulingVector, w.partitionIndex < s.partitionVector.length
  served : ∀ i < s.partitionVector.length, ∃ w ∈ s.schedulingVector, w.partitionIndex = i

theorem Pushed.covered {p : Partition} (h : Pushed s t p) (hs : Covered s) : Covered t := by
  obtain ⟨tuples, hvector, hnonempty, hindex⟩ := h.schedulingVector
  have hlength : t.partitionVector.length = s.partitionVector.length + 1 := by
    rw [h.partitionVector, List.length_append, List.length_singleton]
  constructor
  · intro w hw
    rw [hvector] at hw
    obtain hw | hw := List.mem_append.mp hw
    · have hlt := hs.inRange w hw
      omega
    · have heq := hindex w hw
      omega
  · intro i hi
    rw [hvector]
    by_cases hold : i < s.partitionVector.length
    · obtain ⟨w, hw, heq⟩ := hs.served i hold
      exact ⟨w, List.mem_append_left _ hw, heq⟩
    · obtain ⟨w, hw⟩ := List.exists_mem_of_ne_nil _ hnonempty
      exact ⟨w, List.mem_append_right _ hw, by rw [hindex w hw]; omega⟩

/-- The network partitions that are read. -/
def networks (map : PropertyMap) (source : Text → Text) : List Partition :=
  (equalRange map primaryKeyNetworkPartitionName).map fun name =>
    listed map source name (equalRange map (name ++ additiveKeyChannel))

theorem networks_isNetworkPartition (map : PropertyMap) (source : Text → Text) :
    ∀ p ∈ networks map source, p.isNetworkPartition = true := by
  intro p hp
  obtain ⟨name, -, rfl⟩ := List.mem_map.mp hp
  rfl

/-- What is known when all partitions are read. -/
structure Read (map : PropertyMap) (proxyPorts : List ProxyPort) (s : State) : Prop where
  vector : s.partitionVector = networks map (sourceOf s.channelMap) ++ s.regular
  regular : List.Forall₂ (Regular map) (equalRange map primaryKeyPartitionName) s.regular
  covered : Covered s
  proxyNames : proxyPorts.map (·.name) = (equalRange map primaryKeyProxyPort).map String.ofList
  proxies : ∀ proxy ∈ proxyPorts, directionOf map proxy.name = some proxy.portDirection
  channels : HoldsChannels map (equalRange map primaryKeyChannelName) s.channelMap

theorem createChannelDescriptors_holds {channelMap : ChannelMap}
    (h : createChannelDescriptors map = .ok channelMap) :
    HoldsChannels map (equalRange map primaryKeyChannelName) channelMap := by
  -- The invariant is over the names read so far; a name read twice gives the same descriptor.
  let I (names : List Text) (channelMap : ChannelMap) : Prop :=
    (∀ e ∈ channelMap.entries, e.1 ∈ names ∧ e.2 = channelOf map e.1 ∧ Directed map e.2) ∧
      ∀ name ∈ names, (name, channelOf map name) ∈ channelMap.entries
  have hread : I (equalRange map primaryKeyChannelName) channelMap := by
    refine of_foldlM_ok (I := I) ⟨List.forall_mem_nil _, List.forall_mem_nil _⟩ ?_ h
    intro before channelName channelMap channelMap' hbefore hround
    obtain ⟨hentries, hnames⟩ := hbefore
    obtain ⟨channelSource, hfirst, hround⟩ := of_bind_ok hround
    obtain ⟨u, hsource, hround⟩ := of_bind_ok hround
    obtain ⟨channelDestination, hsome, hround⟩ := of_bind_ok hround
    obtain ⟨us, hdestination, hround⟩ := of_bind_ok hround
    obtain rfl := Except.ok.inj hround
    obtain ⟨rfl, hnonempty⟩ := of_someValues_ok hsome
    have hchannel : (⟨String.ofList channelSource,
        (equalRange map (channelName ++ additiveKeyDestination)).map String.ofList⟩ :
          ChannelDescriptor) = channelOf map channelName := by
      rw [channelOf, of_orThrow_ok hfirst]
      rfl
    rw [hchannel]
    have hdirected : Directed map (channelOf map channelName) := by
      rw [← hchannel]
      refine ⟨of_checkDirection_ok hsource, fun name hname => ?_, by simpa using hnonempty⟩
      obtain ⟨destination, hmem, rfl⟩ := List.mem_map.mp hname
      obtain ⟨v, -, hchecked⟩ := exists_of_mem_elements hdestination hmem
      exact of_checkDirection_ok hchecked
    constructor
    · intro e he
      obtain rfl | ⟨hold, -⟩ := OrderedMap.mem_set.mp he
      · exact ⟨List.mem_append_right _ List.mem_cons_self, rfl, hdirected⟩
      · obtain ⟨hmem, heq⟩ := hentries e hold
        exact ⟨List.mem_append_left _ hmem, heq⟩
    · intro name hname
      by_cases heq : name = channelName
      · rw [heq]
        exact OrderedMap.mem_set.mpr (Or.inl rfl)
      · obtain hname | hname := List.mem_append.mp hname
        · exact OrderedMap.mem_set.mpr (Or.inr ⟨hnames name hname, heq⟩)
        · exact absurd (List.mem_singleton.mp hname) heq
  exact ⟨fun e he => Or.inl (hread.1 e he), hread.2⟩

theorem createNetworkPartitionVector_networks {channelMap : ChannelMap} {channels : List Text}
    (hholds : HoldsChannels map channels channelMap)
    (h : createNetworkPartitionVector env map channelMap = .ok s) :
    (s.partitionVector = networks map (sourceOf s.channelMap) ∧ Covered s) ∧
      HoldsChannels map channels s.channelMap := by
  let I (names : List Text) (s : State) : Prop :=
    (s.partitionVector = names.map (fun name => listed map (sourceOf channelMap) name
        (equalRange map (name ++ additiveKeyChannel))) ∧
      sourceOf s.channelMap = sourceOf channelMap ∧ Covered s) ∧
    HoldsChannels map channels s.channelMap
  have hread : I (equalRange map primaryKeyNetworkPartitionName) s := by
    refine of_foldlM_ok (I := I) ⟨⟨rfl, rfl, by simp, by simp⟩, hholds⟩ ?_ h
    intro before name s t hs hround
    obtain ⟨⟨hvector, hsource, hcovered⟩, hholds⟩ := hs
    obtain ⟨hpushed, hsame, hkeeps⟩ := createNetworkPartition_pushes hround
    refine ⟨⟨?_, hsame.trans hsource, hpushed.covered hcovered⟩, hkeeps _ hholds⟩
    rw [hpushed.partitionVector, hvector, hsource, List.map_append]
    rfl
  obtain ⟨⟨hvector, hsource, hcovered⟩, hholds⟩ := hread
  refine ⟨⟨?_, hcovered⟩, hholds⟩
  rw [hvector, hsource]
  rfl

theorem read_of_readPartitionVector {proxyPorts : List ProxyPort}
    (h : readPartitionVector env map = .ok (proxyPorts, s)) : Read map proxyPorts s := by
  obtain ⟨proxies, hproxies, h⟩ := of_bind_ok h
  obtain ⟨channelMap, hchannels, h⟩ := of_bind_ok h
  obtain ⟨s₁, hnetworks, h⟩ := of_bind_ok h
  obtain ⟨s₂, hregular, h⟩ := of_bind_ok h
  obtain ⟨rfl, rfl⟩ := Prod.mk.inj (Except.ok.inj h)
  obtain ⟨⟨hvector, hcovered⟩, hholds⟩ :=
    createNetworkPartitionVector_networks (createChannelDescriptors_holds hchannels) hnetworks
  -- The regular partitions are appended to the network partitions, in the order of the file.
  let I (names : List Text) (s : State) : Prop :=
    (∃ regular, s.partitionVector = s₁.partitionVector ++ regular ∧
      List.Forall₂ (Regular map) names regular) ∧ s.channelMap = s₁.channelMap ∧ Covered s
  have hread : I (equalRange map primaryKeyPartitionName) s₂ := by
    refine of_foldlM_ok (I := I) ⟨⟨[], by simp, .nil⟩, rfl, hcovered⟩ ?_ hregular
    intro before name s t hs hround
    obtain ⟨⟨regular, hpartitions, hregular⟩, hsame, hs⟩ := hs
    obtain ⟨p, hpushed, hp, hkept⟩ := createPartition_pushes hround
    refine ⟨⟨regular ++ [p], ?_, List.rel_append hregular (.cons hp .nil)⟩, hkept.trans hsame,
      hpushed.covered hs⟩
    rw [hpushed.partitionVector, hpartitions, List.append_assoc]
  obtain ⟨⟨regular, hpartitions, hregular⟩, hsame, hs⟩ := hread
  rw [hvector, ← hsame] at hpartitions
  have heq : s₂.regular = regular := by
    have hfresh : ∀ p ∈ regular, (!p.isNetworkPartition) = true := by
      intro p hp
      obtain ⟨name, -, hname⟩ := exists_of_mem_right hregular hp
      rw [hname.fresh]
      rfl
    rw [State.regular, hpartitions, List.filter_append, List.filter_eq_self.mpr hfresh,
      List.filter_eq_nil_iff.mpr, List.nil_append]
    intro p hp
    simp [networks_isNetworkPartition map _ p hp]
  refine ⟨?_, ?_, hs, ?_, fun proxy hproxy => ?_, ?_⟩
  · rw [heq, hpartitions]
  · rw [heq]
    exact hregular
  · exact map_of_mapM_ok (fun hproxy => (of_createProxyPortDescriptor_ok hproxy).1) hproxies
  · obtain ⟨name, -, hround⟩ := exists_of_mem_results hproxies hproxy
    exact (of_createProxyPortDescriptor_ok hround).2
  · rw [hsame]
    exact hholds

/-- A partition that was read lists a network partition's channels, or comes from a name. -/
theorem Read.partition_cases {proxyPorts : List ProxyPort} (h : Read map proxyPorts s)
    {p : Partition} (hp : p ∈ s.partitionVector) :
    (∀ kind, p.ports kind = []) ∨ ∃ name, Regular map name p := by
  rw [h.vector] at hp
  obtain hp | hp := List.mem_append.mp hp
  · obtain ⟨name, -, rfl⟩ := List.mem_map.mp hp
    exact Or.inl fun _ => rfl
  · obtain ⟨name, -, hname⟩ := exists_of_mem_right h.regular hp
    exact Or.inr ⟨name, hname⟩

theorem Read.partition_at {proxyPorts : List ProxyPort} (h : Read map proxyPorts s) {k : Nat}
    (hname : (equalRange map primaryKeyPartitionName)[k]? = some name) :
    ∃ p, s.partitionVector[(equalRange map primaryKeyNetworkPartitionName).length + k]? = some p ∧
      Regular map name p := by
  obtain ⟨hk, hget⟩ := List.getElem?_eq_some_iff.mp hname
  have hlength : k < s.regular.length := h.regular.length_eq ▸ hk
  have hregular := h.regular.get hk hlength
  rw [List.get_eq_getElem, List.get_eq_getElem] at hregular
  refine ⟨s.regular[k], ?_, hget ▸ hregular⟩
  have hnetworks : (networks map (sourceOf s.channelMap)).length =
      (equalRange map primaryKeyNetworkPartitionName).length := by
    rw [networks, List.length_map]
  rw [h.vector, ← hnetworks, List.getElem?_append_right (Nat.le_add_right _ _),
    Nat.add_sub_cancel_left]
  exact List.getElem?_eq_getElem hlength

/-- **The creation starts from a configuration.** -/
theorem configuration_start {proxyPorts : List ProxyPort}
    (h : readPartitionVector env map = .ok (proxyPorts, s)) :
    (configuration map proxyPorts s).start = s.moduleManager proxyPorts := by
  have hread := read_of_readPartitionVector h
  have hnetworks : (configuration map proxyPorts s).networkPartitionVector =
      networks map (sourceOf s.channelMap) := by
    rw [networks, Configuration.networkPartitionVector, configuration, List.map_map]
    rfl
  have hfresh : ∀ p ∈ s.regular, Configuration.regularPartition (p.name, p.ports) = p := by
    intro p hp
    obtain ⟨name, -, hname⟩ := exists_of_mem_right hread.regular hp
    rw [hname.fresh]
    rfl
  have hregular : (configuration map proxyPorts s).partitions.map
      Configuration.regularPartition = s.regular := by
    rw [configuration, List.map_map]
    exact (List.map_congr_left hfresh).trans (List.map_id' s.regular)
  rw [Configuration.start, State.moduleManager, hnetworks, hregular, ← hread.vector]
  rfl

end

theorem of_createPartitionVector {env : Environment} {map : PropertyMap}
    {constructed : Kind → PortDescriptor → ReturnCode} {m : ModuleManager}
    (h : createPartitionVector env constructed map = some m) :
    ∃ proxyPorts s, readPartitionVector env map = .ok (proxyPorts, s) ∧
      (configuration map proxyPorts s).createPartitionVector constructed env.build = some m := by
  obtain ⟨⟨proxyPorts, s⟩, hsome, hcreated⟩ := Option.bind_eq_some_iff.mp h
  cases hread : readPartitionVector env map with
  | error failure =>
    rw [hread] at hsome
    cases hsome
  | ok read =>
    rw [hread] at hsome
    obtain rfl := Option.some.inj hsome
    refine ⟨proxyPorts, s, rfl, ?_⟩
    rw [Configuration.createPartitionVector, configuration_start hread]
    exact hcreated

/-! ## An example -/

/-- A module manager for which nothing fails, and whole numbers of seconds. -/
def willing : Environment :=
  ⟨.moduleManager, fun s => (fromString true 64 s).map (· * 1000000000), fun _ => true,
    fun _ _ _ => .noError, fun _ _ => .noError⟩

/-- The entries for a partition that sends through a queueing channel and one that
    receives. -/
def oneQueueEntries : List (Text × Text) := List.map (fun e : String × String =>
    (e.1.toList, e.2.toList))
  [("CHANNEL_NAME", "queued"), ("HYPERPERIOD", "20"), ("PARTITION_NAME", "sender"),
    ("PARTITION_NAME", "receiver"), ("inQueue_DIRECTION", "DESTINATION"),
    ("inQueue_MAXMESSAGESIZE", "4"), ("inQueue_MAXNUMBEROFMESSAGES", "2"),
    ("outQueue_DIRECTION", "SOURCE"), ("outQueue_MAXMESSAGESIZE", "4"),
    ("outQueue_MAXNUMBEROFMESSAGES", "2"), ("queued_DESTINATION", "inQueue"),
    ("queued_SOURCE", "outQueue"), ("receiver_EXECUTABLE", "receiver.out"),
    ("receiver_QUEUINGPORT", "inQueue"), ("receiver_SCHEDULE", "10,10"),
    ("sender_EXECUTABLE", "sender.out"), ("sender_QUEUINGPORT", "outQueue"),
    ("sender_SCHEDULE", "0,10")]

theorem oneQueueEntries_sorted : oneQueueEntries.Pairwise fun d e => d.1 ≤ e.1 := by
  decide +kernel

/-- The property map of these two. -/
def oneQueue : PropertyMap := ⟨oneQueueEntries, oneQueueEntries_sorted⟩

theorem oneQueue_values :
    (equalRange oneQueue primaryKeyChannelName = ["queued".toList] ∧
      equalRange oneQueue primaryKeyPartitionName = ["sender".toList, "receiver".toList] ∧
      equalRange oneQueue primaryKeyNetworkPartitionName = [] ∧
      equalRange oneQueue primaryKeyProxyPort = []) ∧
    equalRange oneQueue ("queued".toList ++ additiveKeySource) = ["outQueue".toList] ∧
      equalRange oneQueue ("queued".toList ++ additiveKeyDestination) = ["inQueue".toList] ∧
      equalRange oneQueue ("sender".toList ++ portKey .queueing) = ["outQueue".toList] ∧
      equalRange oneQueue ("receiver".toList ++ portKey .queueing) = ["inQueue".toList] := by
  decide +kernel

theorem oneQueue_isSome :
    (createPartitionVector willing (fun _ _ => .noError) oneQueue).isSome = true := by
  decide +kernel

/-- The module that is created from it. -/
def oneQueueModule : ModuleManager := Option.get _ oneQueue_isSome

theorem oneQueue_created :
    createPartitionVector willing (fun _ _ => .noError) oneQueue = some oneQueueModule :=
  (Option.some_get oneQueue_isSome).symm

end Arinc.Initialization
