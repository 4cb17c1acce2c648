import Mathlib.Data.List.Forall2
import ArincEmulator.Types

/- The wiring of the channels that have a source port. The initialization reads
   from the configuration the partitions with their ports, the proxies, which stand
   for the ports of other modules, and for each channel its source and its
   destinations, by name. A destination that a partition has is added to the channel
   as a port, one that only a proxy stands for by the address of the proxy.

   What is proved:
     1. `resettingLoop_eq_rule`: the loop of CREATE_QUEUEING_CHANNELS wires every
        list of destinations by that rule.
     2. `wireRule_wires_each`: where the rule accepts the configuration, it wires
        each destination once, in their order, and nothing else.
     3. `sampling_wiring_iff`: CREATE_SAMPLING_CHANNELS declares the index and the
        flag of its search in front of the loop over the destinations, so a round
        begins where the last one stopped. It follows the rule just for the lists
        in which no local destination stands behind a remote one and the proxies
        are met in the order of the table (`InOrder`). -/
namespace Arinc.ChannelWiring

/-- `PORT_DIRECTION_TYPE`. -/
inductive PortDirection where
  | source
  | destination
  deriving DecidableEq, Repr

/-- The two kinds of ports, and of the channels and proxies they go with. -/
inductive Kind where
  | sampling
  | queueing
  deriving DecidableEq, Repr

/-- `SAMPLING_PORT_DESCRIPTOR` and `QUEUING_PORT_DESCRIPTOR`; `portAttribute` is the
    `REFRESH_PERIOD` of the one and the `MAX_NB_MESSAGE` of the other. -/
structure PortDescriptor where
  name : String
  maxMessageSize : Int
  portAttribute : Int
  portDirection : PortDirection
  deriving DecidableEq, Repr

/-- `PROXY_PORT_DESCRIPTORS`. -/
structure ProxyPort where
  proxyType : Kind
  name : String
  hostName : String
  portNumber : Nat
  maxMessageSize : Int
  maxNbMessage : Int
  portDirection : PortDirection
  deriving DecidableEq, Repr

/-- `CHANNEL_DESCRIPTOR`. -/
structure ChannelDescriptor where
  source : String
  destination : List String

/-- `PARTITION`: its ports of each kind and its four vectors of channel names. -/
structure Partition where
  name : String
  isNetworkPartition : Bool
  ports : Kind → List PortDescriptor
  channelSourceVector : Kind → List String
  channelInterModuleDstVector : Kind → List String

/-- `FIND_PARTITION_FROM_SAMPLING_PORT` and `FIND_PARTITION_FROM_QUEUING_PORT`: the
    first port of the name, with the index of its partition. -/
def findPartitionFromPort (kind : Kind) (portName : String) :
    List Partition → Option (Nat × PortDescriptor)
  | [] => none
  | partition :: partitions =>
    match (partition.ports kind).find? (·.name = portName) with
    | some descriptor => some (0, descriptor)
    | none =>
      (findPartitionFromPort kind portName partitions).map fun (counter, descriptor) =>
        (counter + 1, descriptor)

/-! ## Channels under construction -/

/-- `COMMUNICATION_TYPE_ENUM`. -/
inductive CommunicationType where
  | intraModule
  | interModuleSrc
  | interModuleDst
  deriving DecidableEq, Repr

/-- `SAMPLING_CHANNEL` and `QUEUE_CHANNEL` as they are configured. A port of the
    channel is given by the descriptor it was constructed from, the receiving socket
    by its number. -/
structure Channel where
  channelName : String
  initialized : Bool
  source : Option PortDescriptor
  maxSizeOfMessage : Int
  destinations : List PortDescriptor
  senderMySocket : Bool
  recvMySocket : Option Nat
  maxSocketMessage : Nat
  communicationType : CommunicationType
  destinationUrlVector : List (String × Nat)
  deriving DecidableEq, Repr

namespace Channel

/-- The sockets that the constructor and `SET_COMMUNICATION_TYPE_ENUM` make for a type. -/
def withType (c : Channel) (communicationType : CommunicationType) (srcportNum : Nat) : Channel :=
  match communicationType with
  | .intraModule => { c with communicationType }
  | .interModuleSrc => { c with communicationType, senderMySocket := true }
  | .interModuleDst => { c with communicationType, recvMySocket := some srcportNum }

/-- The constructor of both classes. -/
def construct (name : String) (communicationType : CommunicationType) (srcportNum : Nat) :
    Channel :=
  withType ⟨name, false, none, 0, [], false, none, 1, communicationType, []⟩ communicationType
    srcportNum

/-- `SET_COMMUNICATION_TYPE_ENUM`. -/
def setCommunicationTypeEnum (c : Channel) (data : CommunicationType) (srcportNum : Nat) :
    ReturnCode × Channel :=
  if c.initialized then (.noAction, c)
  else if c.communicationType ≠ .intraModule then (.noAction, c)
  else (.noError, c.withType data srcportNum)

/-- `ADD_DESTINATION_URL`, whose port number is an `unsigned short`. -/
def addDestinationUrl (c : Channel) (nodename : String) (portNumber : Nat) : ReturnCode × Channel :=
  if c.initialized then (.noAction, c)
  else if c.senderMySocket = false then (.notAvailable, c)
  else
    let temp := (nodename, portNumber % 2 ^ 16)
    (.noError, { c with destinationUrlVector := c.destinationUrlVector ++ [temp] })

/-- `SET_MAX_SIZE_OF_MESSAGE`. -/
def setMaxSizeOfMessage (c : Channel) (data : Int) : ReturnCode × Channel :=
  if c.initialized then (.noAction, c)
  else if c.communicationType ≠ .interModuleDst then (.notAvailable, c)
  else (.noError, { c with maxSizeOfMessage := data })

/-- `SET_MAX_SOCKET_MESSAGE`. -/
def setMaxSocketMessage (c : Channel) (data : Nat) : ReturnCode × Channel :=
  if c.initialized then (.noAction, c) else (.noError, { c with maxSocketMessage := data })

end Channel

/-- Why the initialization does not go on: an exception of its own, an `assert`, or
    an access behind the end of `PROXY_PORTS`. -/
inductive Failure where
  | thrown
  | assertion
  | outOfBounds
  deriving DecidableEq, Repr

/-- `MODULE_MANAGER`, as far as it configures the channels: its maps of channels hold
    nothing where a key is missing. -/
structure ModuleManager where
  partitionVector : List Partition
  proxyPorts : List ProxyPort
  channelMap : List (String × ChannelDescriptor)
  mapOfChannels : Kind → String → Option Channel

section
-- the code with which a port of the kind is constructed from a descriptor
variable (constructed : Kind → PortDescriptor → ReturnCode)

namespace Channel

/-- `ADD_SOURCE` of a sampling channel. -/
def addSource (c : Channel) (port : PortDescriptor) : ReturnCode × Channel :=
  if c.initialized then (.noAction, c)
  else if c.source.isSome then (.noAction, c)
  else if c.recvMySocket.isSome then (.noAction, c)
  else
    let c := { c with source := some port }
    match constructed .sampling port with
    | .noError => (.noError, { c with maxSizeOfMessage := port.maxMessageSize })
    | code => (code, c)

/-- `ADD_SOURCE_QUEUE`, which asserts that the queue was opened. -/
def addSourceQueue (c : Channel) (port : PortDescriptor) : Except Failure (ReturnCode × Channel) :=
  if c.initialized then .ok (.noAction, c)
  else if c.source.isSome then .ok (.noAction, c)
  else if constructed .queueing port ≠ .noError then .error .assertion
  else
    .ok (.noError, { c with source := some port, maxSizeOfMessage := port.maxMessageSize })

/-- `ADD_DESTINATION` of a sampling channel. -/
def addDestination (c : Channel) (port : PortDescriptor) : ReturnCode × Channel :=
  if c.initialized then (.noAction, c)
  else if c.maxSizeOfMessage ≠ port.maxMessageSize then (.invalidConfig, c)
  else
    match constructed .sampling port with
    | .noError => (.noError, { c with destinations := c.destinations ++ [port] })
    | code => (code, c)

/-- `ADD_DESTINATION_QUEUE`, which keeps also a queue that was not opened. -/
def addDestinationQueue (c : Channel) (port : PortDescriptor) : ReturnCode × Channel :=
  if c.initialized then (.noAction, c)
  else if c.maxSizeOfMessage > port.maxMessageSize then (.invalidConfig, c)
  else (constructed .queueing port, { c with destinations := c.destinations ++ [port] })

/-- What a channel of the kind does with a port that is its destination. -/
def add (kind : Kind) (c : Channel) (port : PortDescriptor) : ReturnCode × Channel :=
  match kind with
  | .sampling => c.addDestination constructed port
  | .queueing => c.addDestinationQueue constructed port

end Channel

/-- `ENSURE_CONDITION` of a return code. The macro negates only the first operand of
    its condition, so `RETURN_CODE == NO_ERROR || RETURN_CODE == NO_ACTION` lets
    through no more than `RETURN_CODE == NO_ERROR`. -/
def ensure {α : Type*} : ReturnCode × α → Except Failure α
  | (.noError, a) => .ok a
  | _ => .error .thrown

/-! ## The loops over the destinations -/

/-- The variables of the search among the proxies. -/
structure Scan where
  sizevec : Nat
  foundinproxy : Bool
  deriving DecidableEq, Repr

/-- What the variables are declared with. -/
def Scan.start : Scan := ⟨0, false⟩

/-- Where the search from `sizevec` on stops: at the first proxy of the name, or
    behind the last one. -/
def scanProxyPorts (proxyPorts : List ProxyPort) (sizevec : Nat) (name : String) : Nat :=
  sizevec + (proxyPorts.drop sizevec).findIdx (·.name = name)

/-- What a loop over destinations leaves: the channel as the last round that was
    completed has it, and why the next one was not. -/
structure Wiring where
  channel : Channel
  failure : Option Failure
  deriving DecidableEq, Repr

/-- A destination wired by the address of a proxy. The code of `ADD_DESTINATION_URL`
    goes to a variable that nobody reads. -/
def wireUrl (c : Channel) (proxy : ProxyPort) : Except Failure Channel :=
  (if c.communicationType ≠ .interModuleSrc then
      ensure (c.setCommunicationTypeEnum .interModuleSrc 0)
    else .ok c).map fun c => (c.addDestinationUrl proxy.hostName proxy.portNumber).2

/-- A destination wired as a port. -/
def wirePort (kind : Kind) (c : Channel) (descriptor : PortDescriptor) : Except Failure Channel :=
  if descriptor.portDirection ≠ .destination then .error .thrown
  else ensure (c.add constructed kind descriptor)

/-- `SET_INITIALIZED`, behind a loop that went through. -/
def Wiring.finish : Wiring → Wiring
  | ⟨c, none⟩ => ⟨{ c with initialized := true }, none⟩
  | stopped => stopped

/-- The channel of a source port, from its constructor to `SET_INITIALIZED`, with the
    loop that wires its destinations. -/
def sourceChannel (loop : Channel → List String → Wiring) (added : Except Failure Channel)
    (name : String) (destination : List String) : Wiring :=
  match added with
  | .error failure => ⟨Channel.construct name .intraModule 0, some failure⟩
  | .ok c => (loop c destination).finish

/-- `SET_NAME` on a new channel, and its source port. -/
def withSource (kind : Kind) (name : String) (port : PortDescriptor) : Except Failure Channel :=
  let c := { Channel.construct "" .intraModule 0 with channelName := name }
  match kind with
  | .sampling => ensure (c.addSource constructed port)
  | .queueing => (c.addSourceQueue constructed port).bind ensure

namespace ModuleManager
variable (m : ModuleManager)

/-- The search for a destination that no partition has. -/
def searchProxyPorts (scan : Scan) (name : String) : Except Failure Scan :=
  let sizevec := scanProxyPorts m.proxyPorts scan.sizevec name
  let foundinproxy := scan.foundinproxy || decide (sizevec < m.proxyPorts.length)
  if foundinproxy = false then .error .thrown
  else
    match m.proxyPorts[sizevec]? with
    | none => .error .outOfBounds
    | some proxy =>
      if proxy.portDirection ≠ .destination then .error .thrown else .ok ⟨sizevec, foundinproxy⟩

/-- One round of the loop over the destinations. -/
def wireDestination (kind : Kind) (scan : Scan) (c : Channel) (name : String) :
    Except Failure (Scan × Channel) :=
  let j := findPartitionFromPort kind name m.partitionVector
  (match j with
    | none => m.searchProxyPorts scan name
    | some _ => .ok scan).bind fun scan =>
      if scan.foundinproxy then
        match m.proxyPorts[scan.sizevec]? with
        | none => .error .outOfBounds
        | some proxy => (wireUrl c proxy).map fun c => (scan, c)
      else
        match j with
        | none => .ok (scan, c)
        | some (_, descriptor) => (wirePort constructed kind c descriptor).map fun c => (scan, c)

/-- The loop of CREATE_SAMPLING_CHANNELS, which declares the variables of the search
    once for all destinations. -/
def carryingLoop (kind : Kind) : Scan → Channel → List String → Wiring
  | _, c, [] => ⟨c, none⟩
  | scan, c, name :: names =>
    match m.wireDestination constructed kind scan c name with
    | .error failure => ⟨c, some failure⟩
    | .ok (scan, c) => carryingLoop kind scan c names

/-- The loop of CREATE_QUEUEING_CHANNELS, which declares them in each round. -/
def resettingLoop (kind : Kind) : Channel → List String → Wiring
  | c, [] => ⟨c, none⟩
  | c, name :: names =>
    match m.wireDestination constructed kind .start c name with
    | .error failure => ⟨c, some failure⟩
    | .ok (_, c) => resettingLoop kind c names

/-- What CREATE_SAMPLING_CHANNELS makes of a source port and the channel it is of. -/
def createSamplingChannel (name : String) (port : PortDescriptor) (destination : List String) :
    Wiring :=
  sourceChannel (m.carryingLoop constructed .sampling .start)
    (withSource constructed .sampling name port) name destination

/-- What CREATE_QUEUEING_CHANNELS makes of a source port and the channel it is of. -/
def createQueueingChannel (name : String) (port : PortDescriptor) (destination : List String) :
    Wiring :=
  sourceChannel (m.resettingLoop constructed .queueing)
    (withSource constructed .queueing name port) name destination

end ModuleManager

/-! ## The rule -/

/-- What the name of a destination stands for. -/
inductive Endpoint where
  | port (descriptor : PortDescriptor)
  | proxy (proxy : ProxyPort)
  deriving DecidableEq, Repr

/-- The address of the port that a proxy stands for. -/
def ProxyPort.address (proxy : ProxyPort) : String × Nat :=
  (proxy.hostName, proxy.portNumber % 2 ^ 16)

/-- The message sizes a destination of the kind may have, against that of the source. -/
def Kind.allows : Kind → Int → Int → Bool
  | .sampling, size, maxMessageSize => size = maxMessageSize
  | .queueing, size, maxMessageSize => size ≤ maxMessageSize

/-- Whether a channel of the kind, with messages of a size, takes the destination. -/
def Endpoint.accepted (kind : Kind) (size : Int) : Endpoint → Bool
  | .port descriptor =>
    kind.allows size descriptor.maxMessageSize && constructed kind descriptor = .noError
  | .proxy _ => true

/-- The channel with one destination more. -/
def Channel.attach (c : Channel) : Endpoint → Channel
  | .port descriptor => { c with destinations := c.destinations ++ [descriptor] }
  | .proxy proxy =>
    { c with
      communicationType := .interModuleSrc
      senderMySocket := true
      destinationUrlVector := c.destinationUrlVector ++ [proxy.address] }

namespace ModuleManager
variable (m : ModuleManager)

/-- The destination of a name: the port of a partition, and where no partition has
    one, the first proxy. Either has to have the direction of a destination. -/
def resolve (kind : Kind) (name : String) : Option Endpoint :=
  match findPartitionFromPort kind name m.partitionVector with
  | some (_, descriptor) =>
    if descriptor.portDirection = .destination then some (.port descriptor) else none
  | none =>
    (m.proxyPorts.find? (·.name = name)).bind fun proxy =>
      if proxy.portDirection = .destination then some (.proxy proxy) else none

/-- The destination of a name that a channel takes. -/
def admitted (kind : Kind) (size : Int) (name : String) : Option Endpoint :=
  (m.resolve kind name).filter (Endpoint.accepted constructed kind size)

/-- The rule: each name in turn is wired as what it stands for, and the configuration
    is rejected where that is nothing the channel takes. -/
def wireRule (kind : Kind) : Channel → List String → Wiring
  | c, [] => ⟨c, none⟩
  | c, name :: names =>
    match m.admitted constructed kind c.maxSizeOfMessage name with
    | none => ⟨c, some .thrown⟩
    | some endpoint => wireRule kind (c.attach endpoint) names

/-- The channel of a source port with its destinations wired by the rule. -/
def createByRule (kind : Kind) (name : String) (port : PortDescriptor)
    (destination : List String) : Wiring :=
  sourceChannel (m.wireRule constructed kind) (withSource constructed kind name port) name
    destination

/-- The entry at an index, where that has the direction of a destination. -/
def entryAt (i : Nat) : Option ProxyPort :=
  m.proxyPorts[i]?.filter (·.portDirection = .destination)

/-- The address of that entry. -/
def targetAt (i : Nat) : Option (String × Nat) :=
  (m.entryAt i).map ProxyPort.address

/-- The lists of destinations on which it makes no difference that the search goes on
    where it stopped, for a search that has found nothing yet or has stopped at an
    index: behind the first remote destination, and up to the one at which the
    configuration is rejected, each is remote, and the entry of its name that comes
    next has the address that the first entry of the name has. -/
def InOrder (kind : Kind) (size : Int) : Option Nat → List String → Prop
  | _, [] => True
  | none, name :: names =>
    m.admitted constructed kind size name = none ∨
      match findPartitionFromPort kind name m.partitionVector with
      | some _ => InOrder kind size none names
      | none => InOrder kind size (some (scanProxyPorts m.proxyPorts 0 name)) names
  | some sizevec, name :: names =>
    findPartitionFromPort kind name m.partitionVector = none ∧
      scanProxyPorts m.proxyPorts sizevec name < m.proxyPorts.length ∧
      m.targetAt (scanProxyPorts m.proxyPorts sizevec name) =
        m.targetAt (scanProxyPorts m.proxyPorts 0 name) ∧
      (m.admitted constructed kind size name = none ∨
        InOrder kind size (some (scanProxyPorts m.proxyPorts sizevec name)) names)

end ModuleManager
end

/-! ## One round -/

/-- What the loops keep of a channel until its destinations are wired. -/
structure Channel.UnderConstruction (c : Channel) : Prop where
  initialized : c.initialized = false
  configured : c.communicationType = .intraModule ∨
    c.communicationType = .interModuleSrc ∧ c.senderMySocket = true

theorem Channel.UnderConstruction.attach {c : Channel} (h : c.UnderConstruction)
    (endpoint : Endpoint) : (c.attach endpoint).UnderConstruction := by
  cases endpoint with
  | port descriptor => exact ⟨h.initialized, h.configured⟩
  | proxy proxy => exact ⟨h.initialized, Or.inr ⟨rfl, rfl⟩⟩

@[simp] theorem Channel.attach_maxSizeOfMessage (c : Channel) (endpoint : Endpoint) :
    (c.attach endpoint).maxSizeOfMessage = c.maxSizeOfMessage := by
  cases endpoint <;> rfl

theorem wireUrl_eq {c : Channel} (h : c.UnderConstruction) (proxy : ProxyPort) :
    wireUrl c proxy = .ok (c.attach (.proxy proxy)) := by
  obtain htype | ⟨htype, hsender⟩ := h.configured
  · have hset : c.setCommunicationTypeEnum .interModuleSrc 0 =
        (.noError, { c with communicationType := .interModuleSrc, senderMySocket := true }) := by
      simp [Channel.setCommunicationTypeEnum, h.initialized, htype, Channel.withType]
    simp [wireUrl, htype, hset, ensure, Except.map, Channel.addDestinationUrl, h.initialized,
      Channel.attach, ProxyPort.address]
  · simp [wireUrl, htype, hsender, Except.map, Channel.addDestinationUrl, h.initialized,
      Channel.attach, ProxyPort.address]

section
variable {constructed : Kind → PortDescriptor → ReturnCode} {m : ModuleManager} {kind : Kind}

theorem ensure_add {c : Channel} (h : c.UnderConstruction) (descriptor : PortDescriptor) :
    ensure (c.add constructed kind descriptor) =
      if Endpoint.accepted constructed kind c.maxSizeOfMessage (.port descriptor) then
        .ok (c.attach (.port descriptor))
      else .error .thrown := by
  cases kind with
  | sampling =>
    by_cases hsize : c.maxSizeOfMessage = descriptor.maxMessageSize
    · cases hcode : constructed .sampling descriptor <;>
        simp [Channel.add, Channel.addDestination, h.initialized, hsize, hcode, ensure,
          Endpoint.accepted, Kind.allows, Channel.attach]
    · simp [Channel.add, Channel.addDestination, h.initialized, hsize, ensure,
        Endpoint.accepted, Kind.allows]
  | queueing =>
    by_cases hsize : c.maxSizeOfMessage ≤ descriptor.maxMessageSize
    · have hnot : ¬ descriptor.maxMessageSize < c.maxSizeOfMessage := Int.not_lt.mpr hsize
      cases hcode : constructed .queueing descriptor <;>
        simp [Channel.add, Channel.addDestinationQueue, h.initialized, hsize, hnot, hcode, ensure,
          Endpoint.accepted, Kind.allows, Channel.attach]
    · have hgt : descriptor.maxMessageSize < c.maxSizeOfMessage := Int.not_le.mp hsize
      simp [Channel.add, Channel.addDestinationQueue, h.initialized, hgt, hsize, ensure,
        Endpoint.accepted, Kind.allows]

end

/-! ## The search -/

section
variable {proxyPorts : List ProxyPort} {sizevec : Nat} {name : String}

theorem getElem?_scanProxyPorts (proxyPorts : List ProxyPort) (sizevec : Nat) (name : String) :
    proxyPorts[scanProxyPorts proxyPorts sizevec name]? =
      (proxyPorts.drop sizevec).find? (·.name = name) := by
  rw [scanProxyPorts, ← List.getElem?_drop, List.find?_eq_getElem?_findIdx]

theorem getElem?_scanProxyPorts_zero (proxyPorts : List ProxyPort) (name : String) :
    proxyPorts[scanProxyPorts proxyPorts 0 name]? = proxyPorts.find? (·.name = name) :=
  getElem?_scanProxyPorts proxyPorts 0 name

end

namespace ModuleManager
section
variable {constructed : Kind → PortDescriptor → ReturnCode} {m : ModuleManager} {kind : Kind}
  {c : Channel} {name : String}

theorem searchProxyPorts_start (m : ModuleManager) (name : String) :
    m.searchProxyPorts .start name =
      match m.proxyPorts.find? (·.name = name) with
      | none => .error .thrown
      | some proxy =>
        if proxy.portDirection = .destination then
          .ok ⟨scanProxyPorts m.proxyPorts 0 name, true⟩
        else .error .thrown := by
  have hget := getElem?_scanProxyPorts_zero m.proxyPorts name
  cases hfind : m.proxyPorts.find? (·.name = name) with
  | none =>
    have hend : ¬ scanProxyPorts m.proxyPorts 0 name < m.proxyPorts.length := by
      rw [hfind, List.getElem?_eq_none_iff] at hget
      omega
    simp [searchProxyPorts, Scan.start, hend]
  | some proxy =>
    obtain ⟨hlt, hentry⟩ := List.getElem?_eq_some_iff.mp (hget.trans hfind)
    by_cases hdirection : proxy.portDirection = .destination <;>
      simp [searchProxyPorts, Scan.start, hlt, hentry, hdirection]

/-- The search for a name once one was found. It does not notice that it reaches the
    end of the proxies. -/
theorem searchProxyPorts_found (m : ModuleManager) (sizevec : Nat) (name : String) :
    m.searchProxyPorts ⟨sizevec, true⟩ name =
      match m.proxyPorts[scanProxyPorts m.proxyPorts sizevec name]? with
      | none => .error .outOfBounds
      | some proxy =>
        if proxy.portDirection = .destination then
          .ok ⟨scanProxyPorts m.proxyPorts sizevec name, true⟩
        else .error .thrown := by
  cases hget : m.proxyPorts[scanProxyPorts m.proxyPorts sizevec name]? with
  | none => simp [searchProxyPorts, hget]
  | some proxy =>
    by_cases hdirection : proxy.portDirection = .destination <;>
      simp [searchProxyPorts, hget, hdirection]

/-- What the search has found behind a round that began with nothing found. -/
def scanned (m : ModuleManager) (kind : Kind) (name : String) : Scan :=
  match findPartitionFromPort kind name m.partitionVector with
  | some _ => .start
  | none => ⟨scanProxyPorts m.proxyPorts 0 name, true⟩

/-- A round that begins with nothing found follows the rule. -/
theorem wireDestination_start (hc : c.UnderConstruction) (name : String) :
    m.wireDestination constructed kind .start c name =
      match m.admitted constructed kind c.maxSizeOfMessage name with
      | none => .error .thrown
      | some endpoint => .ok (m.scanned kind name, c.attach endpoint) := by
  cases hj : findPartitionFromPort kind name m.partitionVector with
  | some found =>
    obtain ⟨j, descriptor⟩ := found
    by_cases hdirection : descriptor.portDirection = .destination
    · by_cases haccepted :
          Endpoint.accepted constructed kind c.maxSizeOfMessage (.port descriptor) = true <;>
        simp [wireDestination, hj, Except.bind, Scan.start, wirePort, hdirection, ensure_add hc,
          admitted, resolve, haccepted, Option.filter, Except.map, scanned]
    · simp [wireDestination, hj, Except.bind, Scan.start, wirePort, hdirection,
        admitted, resolve, Except.map]
  | none =>
    have hget := getElem?_scanProxyPorts_zero m.proxyPorts name
    cases hfind : m.proxyPorts.find? (·.name = name) with
    | none =>
      simp [wireDestination, hj, searchProxyPorts_start, hfind, Except.bind, admitted, resolve]
    | some proxy =>
      rw [hfind] at hget
      by_cases hdirection : proxy.portDirection = .destination
      · simp [wireDestination, hj, searchProxyPorts_start, hfind, hdirection, Except.bind, hget,
          wireUrl_eq hc, Except.map, admitted, resolve, Option.filter, Endpoint.accepted, scanned]
      · simp [wireDestination, hj, searchProxyPorts_start, hfind, hdirection, Except.bind,
          admitted, resolve]

/-- A local destination behind a remote one gets the address that was found before. -/
theorem wireDestination_stale (hc : c.UnderConstruction) {found : Nat × PortDescriptor}
    (hj : findPartitionFromPort kind name m.partitionVector = some found) {sizevec : Nat}
    {proxy : ProxyPort} (hproxy : m.proxyPorts[sizevec]? = some proxy) :
    m.wireDestination constructed kind ⟨sizevec, true⟩ c name =
      .ok (⟨sizevec, true⟩, c.attach (.proxy proxy)) := by
  simp [wireDestination, hj, Except.bind, hproxy, wireUrl_eq hc, Except.map]

variable (constructed) in
theorem wireDestination_found (hc : c.UnderConstruction)
    (hj : findPartitionFromPort kind name m.partitionVector = none) (sizevec : Nat) :
    m.wireDestination constructed kind ⟨sizevec, true⟩ c name =
      match m.proxyPorts[scanProxyPorts m.proxyPorts sizevec name]? with
      | none => .error .outOfBounds
      | some proxy =>
        if proxy.portDirection = .destination then
          .ok (⟨scanProxyPorts m.proxyPorts sizevec name, true⟩, c.attach (.proxy proxy))
        else .error .thrown := by
  cases hget : m.proxyPorts[scanProxyPorts m.proxyPorts sizevec name]? with
  | none => simp [wireDestination, hj, searchProxyPorts_found, hget, Except.bind]
  | some proxy =>
    by_cases hdirection : proxy.portDirection = .destination <;>
      simp [wireDestination, hj, searchProxyPorts_found, hget, hdirection, Except.bind,
        wireUrl_eq hc, Except.map]

end
end ModuleManager

/-! ## The loops against the rule -/

namespace ModuleManager
section
variable {constructed : Kind → PortDescriptor → ReturnCode} {m : ModuleManager} {kind : Kind}
  {c : Channel} {name : String}

theorem resettingLoop_eq_rule (hc : c.UnderConstruction) (names : List String) :
    m.resettingLoop constructed kind c names = m.wireRule constructed kind c names := by
  induction names generalizing c with
  | nil => rfl
  | cons name names ih =>
    rw [resettingLoop, wireRule, wireDestination_start hc]
    cases m.admitted constructed kind c.maxSizeOfMessage name with
    | none => rfl
    | some endpoint => exact ih (hc.attach endpoint)

variable (constructed m kind) in
theorem wireRule_extends (c : Channel) (names : List String) :
    c.destinations <+: (m.wireRule constructed kind c names).channel.destinations ∧
      c.destinationUrlVector <+:
        (m.wireRule constructed kind c names).channel.destinationUrlVector := by
  induction names generalizing c with
  | nil => exact ⟨List.prefix_rfl, List.prefix_rfl⟩
  | cons name names ih =>
    rw [wireRule]
    cases m.admitted constructed kind c.maxSizeOfMessage name with
    | none => exact ⟨List.prefix_rfl, List.prefix_rfl⟩
    | some endpoint =>
      obtain ⟨hports, hurls⟩ := ih (c.attach endpoint)
      cases endpoint with
      | port descriptor => exact ⟨(List.prefix_append _ _).trans hports, hurls⟩
      | proxy proxy => exact ⟨hports, (List.prefix_append _ _).trans hurls⟩

theorem wireRule_failure (c : Channel) (names : List String) :
    (m.wireRule constructed kind c names).failure ≠ some .outOfBounds := by
  induction names generalizing c with
  | nil => nofun
  | cons name names ih =>
    rw [wireRule]
    cases m.admitted constructed kind c.maxSizeOfMessage name with
    | none => nofun
    | some endpoint => exact ih (c.attach endpoint)

/-- Once a proxy was found, every round that ends adds the address of some proxy. -/
theorem wireDestination_found_ok (hc : c.UnderConstruction) {sizevec : Nat}
    (hsizevec : sizevec < m.proxyPorts.length) {scan : Scan} {c' : Channel}
    (h : m.wireDestination constructed kind ⟨sizevec, true⟩ c name = .ok (scan, c')) :
    ∃ sizevec' proxy, scan = ⟨sizevec', true⟩ ∧ sizevec' < m.proxyPorts.length ∧
      c' = c.attach (.proxy proxy) := by
  cases hj : findPartitionFromPort kind name m.partitionVector with
  | some found =>
    rw [wireDestination_stale hc hj (List.getElem?_eq_getElem hsizevec)] at h
    obtain ⟨rfl, rfl⟩ := Prod.mk.inj (Except.ok.inj h)
    exact ⟨sizevec, _, rfl, hsizevec, rfl⟩
  | none =>
    rw [wireDestination_found constructed hc hj] at h
    cases hget : m.proxyPorts[scanProxyPorts m.proxyPorts sizevec name]? with
    | none => rw [hget] at h; cases h
    | some proxy =>
      simp only [hget] at h
      split at h
      · obtain ⟨rfl, rfl⟩ := Prod.mk.inj (Except.ok.inj h)
        exact ⟨_, proxy, rfl, (List.getElem?_eq_some_iff.mp hget).1, rfl⟩
      · cases h

variable (constructed kind) in
/-- So from there on the loop adds addresses and no ports. -/
theorem carryingLoop_found_extends (hc : c.UnderConstruction) {sizevec : Nat}
    (hsizevec : sizevec < m.proxyPorts.length) (names : List String) :
    (m.carryingLoop constructed kind ⟨sizevec, true⟩ c names).channel.destinations =
        c.destinations ∧
      c.destinationUrlVector <+:
        (m.carryingLoop constructed kind ⟨sizevec, true⟩ c names).channel.destinationUrlVector := by
  induction names generalizing sizevec c with
  | nil => exact ⟨rfl, List.prefix_rfl⟩
  | cons name names ih =>
    rw [carryingLoop]
    cases hround : m.wireDestination constructed kind ⟨sizevec, true⟩ c name with
    | error failure => exact ⟨rfl, List.prefix_rfl⟩
    | ok next =>
      obtain ⟨sizevec', proxy, hscan, hlt, hnext⟩ := wireDestination_found_ok hc hsizevec hround
      obtain ⟨scan, c'⟩ := next
      subst hscan hnext
      obtain ⟨hports, hurls⟩ := ih (hc.attach (.proxy proxy)) hlt
      exact ⟨hports, (List.prefix_append _ _).trans hurls⟩

theorem admitted_of_remote (hj : findPartitionFromPort kind name m.partitionVector = none)
    (size : Int) :
    m.admitted constructed kind size name =
      (m.entryAt (scanProxyPorts m.proxyPorts 0 name)).map .proxy := by
  rw [admitted, resolve, hj, entryAt, getElem?_scanProxyPorts_zero]
  cases m.proxyPorts.find? (·.name = name) with
  | none => rfl
  | some proxy =>
    by_cases hdirection : proxy.portDirection = .destination <;>
      simp [hdirection, Option.filter, Endpoint.accepted]

theorem admitted_of_local {found : Nat × PortDescriptor}
    (hj : findPartitionFromPort kind name m.partitionVector = some found) {size : Int}
    {endpoint : Endpoint} (h : m.admitted constructed kind size name = some endpoint) :
    endpoint = .port found.2 := by
  obtain ⟨j, descriptor⟩ := found
  obtain ⟨hresolve, -⟩ := Option.filter_eq_some_iff.mp h
  simp only [resolve, hj] at hresolve
  split at hresolve
  · exact (Option.some.inj hresolve).symm
  · cases hresolve

theorem wireDestination_entry (hc : c.UnderConstruction)
    (hj : findPartitionFromPort kind name m.partitionVector = none) {sizevec : Nat}
    (hlt : scanProxyPorts m.proxyPorts sizevec name < m.proxyPorts.length) :
    m.wireDestination constructed kind ⟨sizevec, true⟩ c name =
      match m.entryAt (scanProxyPorts m.proxyPorts sizevec name) with
      | none => .error .thrown
      | some proxy =>
        .ok (⟨scanProxyPorts m.proxyPorts sizevec name, true⟩, c.attach (.proxy proxy)) := by
  rw [wireDestination_found constructed hc hj, entryAt, List.getElem?_eq_getElem hlt]
  by_cases hdirection :
      m.proxyPorts[scanProxyPorts m.proxyPorts sizevec name].portDirection = .destination <;>
    simp [hdirection, Option.filter]

end
end ModuleManager

/-! ## Lists in order -/

theorem eq_of_prefix_push {α : Type*} {l u : List α} {a b : α} (ha : l ++ [a] <+: u)
    (hb : l ++ [b] <+: u) : a = b := by
  have hlength : (l ++ [a]).length = (l ++ [b]).length := by simp
  have heq : l ++ [a] = l ++ [b] :=
    (List.prefix_of_prefix_length_le ha hb (Nat.le_of_eq hlength)).eq_of_length hlength
  exact List.singleton_inj.mp (List.append_cancel_left heq)

theorem not_prefix_push {α : Type*} (l : List α) (a : α) : ¬ l ++ [a] <+: l := by
  intro h
  have hle := h.length_le
  rw [List.length_append, List.length_singleton] at hle
  omega

namespace ModuleManager
section
variable {constructed : Kind → PortDescriptor → ReturnCode} {m : ModuleManager} {kind : Kind}
  {c : Channel} {name : String}

theorem ne_stopped {c : Channel} {w : Wiring} {proxy : ProxyPort} {failure : Option Failure}
    (h : (c.attach (.proxy proxy)).destinationUrlVector <+: w.channel.destinationUrlVector) :
    w ≠ ⟨c, failure⟩ := by
  rintro rfl
  exact not_prefix_push _ _ h

/-- For a local destination behind a remote one the loop adds an address, and the rule
    a port or nothing. -/
theorem carryingLoop_local_ne (hc : c.UnderConstruction) {found : Nat × PortDescriptor}
    (hj : findPartitionFromPort kind name m.partitionVector = some found) {sizevec : Nat}
    (hsizevec : sizevec < m.proxyPorts.length) (names : List String) :
    m.carryingLoop constructed kind ⟨sizevec, true⟩ c (name :: names) ≠
      m.wireRule constructed kind c (name :: names) := by
  intro heq
  rw [carryingLoop, wireRule,
    wireDestination_stale hc hj (List.getElem?_eq_getElem hsizevec)] at heq
  obtain ⟨hports, hurls⟩ := carryingLoop_found_extends constructed kind
    (hc.attach (.proxy m.proxyPorts[sizevec])) hsizevec names
  cases hadmitted : m.admitted constructed kind c.maxSizeOfMessage name with
  | none =>
    simp only [hadmitted] at heq
    exact ne_stopped hurls heq
  | some endpoint =>
    simp only [hadmitted] at heq
    obtain rfl := admitted_of_local hj hadmitted
    obtain ⟨hrule, -⟩ := wireRule_extends constructed m kind (c.attach (.port found.2)) names
    rw [← heq, hports] at hrule
    exact not_prefix_push _ _ hrule

theorem carryingLoop_cons_entry (hc : c.UnderConstruction)
    (hj : findPartitionFromPort kind name m.partitionVector = none) {sizevec : Nat}
    (hlt : scanProxyPorts m.proxyPorts sizevec name < m.proxyPorts.length) (names : List String) :
    m.carryingLoop constructed kind ⟨sizevec, true⟩ c (name :: names) =
      match m.entryAt (scanProxyPorts m.proxyPorts sizevec name) with
      | none => ⟨c, some .thrown⟩
      | some proxy =>
        m.carryingLoop constructed kind ⟨scanProxyPorts m.proxyPorts sizevec name, true⟩
          (c.attach (.proxy proxy)) names := by
  rw [carryingLoop, wireDestination_entry hc hj hlt]
  cases m.entryAt (scanProxyPorts m.proxyPorts sizevec name) <;> rfl

theorem wireRule_cons_entry (hj : findPartitionFromPort kind name m.partitionVector = none)
    (c : Channel) (names : List String) :
    m.wireRule constructed kind c (name :: names) =
      match m.entryAt (scanProxyPorts m.proxyPorts 0 name) with
      | none => ⟨c, some .thrown⟩
      | some proxy => m.wireRule constructed kind (c.attach (.proxy proxy)) names := by
  rw [wireRule, admitted_of_remote hj]
  cases m.entryAt (scanProxyPorts m.proxyPorts 0 name) <;> rfl

/-- A search that goes on to the end of the proxies fails as the rule never does. -/
theorem carryingLoop_end_ne (hc : c.UnderConstruction)
    (hj : findPartitionFromPort kind name m.partitionVector = none) {sizevec : Nat}
    (hend : ¬ scanProxyPorts m.proxyPorts sizevec name < m.proxyPorts.length)
    (names : List String) :
    m.carryingLoop constructed kind ⟨sizevec, true⟩ c (name :: names) ≠
      m.wireRule constructed kind c (name :: names) := by
  intro heq
  have hget : m.proxyPorts[scanProxyPorts m.proxyPorts sizevec name]? = none :=
    List.getElem?_eq_none_iff.mpr (Nat.le_of_not_lt hend)
  have hround := wireDestination_found constructed (c := c) hc hj sizevec
  simp only [hget] at hround
  rw [carryingLoop, hround] at heq
  exact wireRule_failure c (name :: names) (congrArg Wiring.failure heq).symm

variable (constructed kind) in
theorem carryingLoop_found_iff (hc : c.UnderConstruction) {sizevec : Nat}
    (hsizevec : sizevec < m.proxyPorts.length) (names : List String) :
    m.carryingLoop constructed kind ⟨sizevec, true⟩ c names =
        m.wireRule constructed kind c names ↔
      m.InOrder constructed kind c.maxSizeOfMessage (some sizevec) names := by
  induction names generalizing sizevec c with
  | nil => exact iff_of_true rfl trivial
  | cons name names ih =>
    cases hj : findPartitionFromPort kind name m.partitionVector with
    | some found =>
      refine iff_of_false (carryingLoop_local_ne hc hj hsizevec names) fun h => ?_
      rw [InOrder, hj] at h
      exact nomatch h.1
    | none =>
      by_cases hlt : scanProxyPorts m.proxyPorts sizevec name < m.proxyPorts.length
      · rw [carryingLoop_cons_entry hc hj hlt, wireRule_cons_entry hj, InOrder,
          admitted_of_remote hj, targetAt, targetAt]
        cases m.entryAt (scanProxyPorts m.proxyPorts sizevec name) with
        | none =>
          cases m.entryAt (scanProxyPorts m.proxyPorts 0 name) with
          | none => simp [hj, hlt]
          | some first =>
            -- the rule goes on with the first entry
            have hrule := wireRule_extends constructed m kind (c.attach (.proxy first)) names
            exact iff_of_false (ne_stopped hrule.2).symm (by simp)
        | some next =>
          have hloop :=
            carryingLoop_found_extends constructed kind (hc.attach (.proxy next)) hlt names
          cases m.entryAt (scanProxyPorts m.proxyPorts 0 name) with
          | none => exact iff_of_false (ne_stopped hloop.2) (by simp)
          | some first =>
            by_cases haddress : next.address = first.address
            · have hattach : c.attach (.proxy first) = c.attach (.proxy next) := by
                rw [Channel.attach, Channel.attach, haddress]
              have hih := ih (hc.attach (.proxy next)) hlt
              simpa [hj, hlt, haddress, hattach] using hih
            · refine iff_of_false (fun heq => ?_) (by simp [haddress])
              have hrule := wireRule_extends constructed m kind (c.attach (.proxy first)) names
              have hurls := hloop.2
              simp only at heq
              rw [heq] at hurls
              exact haddress (eq_of_prefix_push hurls hrule.2)
      · exact iff_of_false (carryingLoop_end_ne hc hj hlt names) fun h => hlt h.2.1

theorem scanned_lt {size : Int} {endpoint : Endpoint}
    (hj : findPartitionFromPort kind name m.partitionVector = none)
    (h : m.admitted constructed kind size name = some endpoint) :
    scanProxyPorts m.proxyPorts 0 name < m.proxyPorts.length := by
  by_contra hend
  rw [admitted_of_remote hj, entryAt,
    List.getElem?_eq_none_iff.mpr (Nat.le_of_not_lt hend)] at h
  cases h

theorem carryingLoop_start_iff (hc : c.UnderConstruction) (names : List String) :
    m.carryingLoop constructed kind .start c names = m.wireRule constructed kind c names ↔
      m.InOrder constructed kind c.maxSizeOfMessage none names := by
  induction names generalizing c with
  | nil => exact iff_of_true rfl trivial
  | cons name names ih =>
    rw [carryingLoop, wireRule, InOrder, wireDestination_start hc]
    cases hadmitted : m.admitted constructed kind c.maxSizeOfMessage name with
    | none => simp
    | some endpoint =>
      cases hj : findPartitionFromPort kind name m.partitionVector with
      | some found => simpa [scanned, hj] using ih (hc.attach endpoint)
      | none =>
        have hfound := carryingLoop_found_iff constructed kind
          (hc.attach endpoint) (scanned_lt hj hadmitted) names
        simpa [scanned, hj] using hfound

variable (constructed m kind) in
theorem wireRule_keeps {I : Channel → Prop}
    (hattach : ∀ c endpoint, I c → I (c.attach endpoint)) (hI : I c) (names : List String) :
    I (m.wireRule constructed kind c names).channel := by
  induction names generalizing c with
  | nil => exact hI
  | cons name names ih =>
    rw [wireRule]
    cases m.admitted constructed kind c.maxSizeOfMessage name with
    | none => exact hI
    | some endpoint => exact ih (hattach c endpoint hI)

variable (constructed kind) in
theorem carryingLoop_found_keeps {I : Channel → Prop}
    (hattach : ∀ c endpoint, I c → I (c.attach endpoint)) (hc : c.UnderConstruction) (hI : I c)
    {sizevec : Nat} (hsizevec : sizevec < m.proxyPorts.length) (names : List String) :
    I (m.carryingLoop constructed kind ⟨sizevec, true⟩ c names).channel := by
  induction names generalizing sizevec c with
  | nil => exact hI
  | cons name names ih =>
    rw [carryingLoop]
    cases hround : m.wireDestination constructed kind ⟨sizevec, true⟩ c name with
    | error failure => exact hI
    | ok next =>
      obtain ⟨sizevec', proxy, hscan, hlt, hnext⟩ := wireDestination_found_ok hc hsizevec hround
      obtain ⟨scan, c'⟩ := next
      subst hscan hnext
      exact ih (hc.attach (.proxy proxy)) (hattach c (.proxy proxy) hI) hlt

variable (constructed m kind) in
theorem carryingLoop_keeps {I : Channel → Prop}
    (hattach : ∀ c endpoint, I c → I (c.attach endpoint)) (hc : c.UnderConstruction) (hI : I c)
    (names : List String) :
    I (m.carryingLoop constructed kind .start c names).channel := by
  induction names generalizing c with
  | nil => exact hI
  | cons name names ih =>
    rw [carryingLoop, wireDestination_start hc]
    cases hadmitted : m.admitted constructed kind c.maxSizeOfMessage name with
    | none => exact hI
    | some endpoint =>
      have hnext := hattach c endpoint hI
      cases hj : findPartitionFromPort kind name m.partitionVector with
      | some found => simpa [scanned, hj] using ih (hc.attach endpoint) hnext
      | none =>
        have hfound := carryingLoop_found_keeps constructed kind hattach
          (hc.attach endpoint) hnext (scanned_lt hj hadmitted) names
        simpa [scanned, hj] using hfound

end
end ModuleManager

/-! ## The wired destinations -/

/-- The port, where the destination is one. -/
def Endpoint.port? : Endpoint → Option PortDescriptor
  | .port descriptor => some descriptor
  | .proxy _ => none

/-- The address, where the destination is on another module. -/
def Endpoint.address? : Endpoint → Option (String × Nat)
  | .port _ => none
  | .proxy entry => some entry.address

/-- `endpoints` are what the names stand for, in their order, and the ports and
    addresses of the channel `c'` are those of `c` and then theirs. -/
structure Wired (m : ModuleManager) (kind : Kind) (names : List String) (c c' : Channel)
    (endpoints : List Endpoint) : Prop where
  each : List.Forall₂ (fun name endpoint => m.resolve kind name = some endpoint) names endpoints
  ports : c'.destinations = c.destinations ++ endpoints.filterMap Endpoint.port?
  urls : c'.destinationUrlVector =
    c.destinationUrlVector ++ endpoints.filterMap Endpoint.address?

theorem Wired.cons {m : ModuleManager} {kind : Kind} {name : String} {names : List String}
    {c c' : Channel} {endpoint : Endpoint} {endpoints : List Endpoint}
    (hname : m.resolve kind name = some endpoint)
    (h : Wired m kind names (c.attach endpoint) c' endpoints) :
    Wired m kind (name :: names) c c' (endpoint :: endpoints) where
  each := List.Forall₂.cons hname h.each
  ports := by
    rw [h.ports]
    cases endpoint <;> simp [Channel.attach, Endpoint.port?, List.filterMap_cons]
  urls := by
    rw [h.urls]
    cases endpoint <;> simp [Channel.attach, Endpoint.address?, List.filterMap_cons]

section
variable {constructed : Kind → PortDescriptor → ReturnCode} {m : ModuleManager} {kind : Kind}

/-- Where the rule accepts the configuration it wires every destination once, and
    nothing else. -/
theorem wireRule_wires_each {c : Channel} {names : List String}
    (h : (m.wireRule constructed kind c names).failure = none) :
    ∃ endpoints,
      Wired m kind names c (m.wireRule constructed kind c names).channel endpoints := by
  induction names generalizing c with
  | nil => exact ⟨[], List.Forall₂.nil, by simp [ModuleManager.wireRule],
      by simp [ModuleManager.wireRule]⟩
  | cons name names ih =>
    rw [ModuleManager.wireRule] at h ⊢
    cases hadmitted : m.admitted constructed kind c.maxSizeOfMessage name with
    | none => simp [hadmitted] at h
    | some endpoint =>
      simp only [hadmitted] at h ⊢
      obtain ⟨endpoints, hwired⟩ := ih h
      exact ⟨endpoint :: endpoints, Wired.cons (Option.filter_eq_some_iff.mp hadmitted).1 hwired⟩

theorem withSource_ok {name : String} {port : PortDescriptor} {c : Channel}
    (h : withSource constructed kind name port = .ok c) :
    c.UnderConstruction ∧ c.maxSizeOfMessage = port.maxMessageSize ∧ c.destinations = [] ∧
      c.destinationUrlVector = [] ∧ constructed kind port = .noError := by
  cases kind with
  | sampling =>
    cases hcode : constructed .sampling port <;>
      simp [withSource, Channel.addSource, Channel.construct, Channel.withType, hcode, ensure] at h
    subst h
    exact ⟨⟨rfl, Or.inl rfl⟩, rfl, rfl, rfl, rfl⟩
  | queueing =>
    by_cases hcode : constructed .queueing port = .noError
    · simp [withSource, Channel.addSourceQueue, Channel.construct, Channel.withType, hcode, ensure,
        Except.bind] at h
      subst h
      exact ⟨⟨rfl, Or.inl rfl⟩, rfl, rfl, rfl, hcode⟩
    · simp [withSource, Channel.addSourceQueue, Channel.construct, Channel.withType, hcode,
        Except.bind] at h

theorem withSource_channelName {name : String} {port : PortDescriptor} {c : Channel}
    (h : withSource constructed kind name port = .ok c) : c.channelName = name := by
  cases kind with
  | sampling =>
    cases hcode : constructed .sampling port <;>
      simp [withSource, Channel.addSource, Channel.construct, Channel.withType, hcode, ensure] at h
    subst h
    rfl
  | queueing =>
    by_cases hcode : constructed .queueing port = .noError <;>
      simp [withSource, Channel.addSourceQueue, Channel.construct, Channel.withType, hcode, ensure,
        Except.bind] at h
    subst h
    rfl

theorem withSource_error {name : String} {port : PortDescriptor} {failure : Failure}
    (h : withSource constructed kind name port = .error failure) :
    constructed kind port ≠ .noError := by
  intro hcode
  cases kind <;>
    simp [withSource, Channel.addSource, Channel.addSourceQueue, Channel.construct,
      Channel.withType, hcode, ensure, Except.bind] at h

theorem Wiring.of_finish {w : Wiring} (hw : w.channel.initialized = false) :
    w = ⟨{ w.finish.channel with initialized := false }, w.finish.failure⟩ := by
  obtain ⟨c, failure⟩ := w
  have hc : c = { c with initialized := false } := by
    rw [← hw]
  cases failure with
  | none => exact congrArg (Wiring.mk · none) hc
  | some failure => exact congrArg (Wiring.mk · (some failure)) hc

theorem Wiring.finish_inj {w w' : Wiring} (hw : w.channel.initialized = false)
    (hw' : w'.channel.initialized = false) (h : w.finish = w'.finish) : w = w' :=
  calc w = ⟨{ w.finish.channel with initialized := false }, w.finish.failure⟩ := of_finish hw
    _ = ⟨{ w'.finish.channel with initialized := false }, w'.finish.failure⟩ := by rw [h]
    _ = w' := (of_finish hw').symm

end

/-! ## The channels -/

section
variable (constructed : Kind → PortDescriptor → ReturnCode) (m : ModuleManager) (name : String)
  (port : PortDescriptor) (destination : List String)

theorem createQueueingChannel_eq_rule :
    m.createQueueingChannel constructed name port destination =
      m.createByRule constructed .queueing name port destination := by
  rw [ModuleManager.createQueueingChannel, ModuleManager.createByRule]
  cases hadded : withSource constructed .queueing name port with
  | error failure => rfl
  | ok c =>
    obtain ⟨hc, -⟩ := withSource_ok hadded
    rw [sourceChannel, sourceChannel, ModuleManager.resettingLoop_eq_rule hc]

theorem createSamplingChannel_eq_rule_iff :
    m.createSamplingChannel constructed name port destination =
        m.createByRule constructed .sampling name port destination ↔
      (constructed .sampling port = .noError →
        m.InOrder constructed .sampling port.maxMessageSize none destination) := by
  rw [ModuleManager.createSamplingChannel, ModuleManager.createByRule]
  cases hadded : withSource constructed .sampling name port with
  | error failure => exact iff_of_true rfl fun hcode => absurd hcode (withSource_error hadded)
  | ok c =>
    obtain ⟨hc, hsize, -, -, hcode⟩ := withSource_ok hadded
    have hattach : ∀ (c : Channel) endpoint, c.UnderConstruction →
        (c.attach endpoint).UnderConstruction := fun _ endpoint h => h.attach endpoint
    have hinit := (ModuleManager.carryingLoop_keeps constructed m
      .sampling hattach hc hc destination).initialized
    have hinit' := (ModuleManager.wireRule_keeps constructed m
      .sampling hattach hc destination).initialized
    calc sourceChannel _ (.ok c) name destination = sourceChannel _ (.ok c) name destination
        ↔ m.carryingLoop constructed .sampling .start c destination =
            m.wireRule constructed .sampling c destination :=
          ⟨Wiring.finish_inj hinit hinit', congrArg Wiring.finish⟩
      _ ↔ m.InOrder constructed .sampling port.maxMessageSize none destination := by
          rw [ModuleManager.carryingLoop_start_iff hc, hsize]
      _ ↔ _ := ⟨fun h _ => h, fun h => h hcode⟩

theorem createByRule_wires_each (kind : Kind)
    (h : (m.createByRule constructed kind name port destination).failure = none) :
    ∃ endpoints,
      List.Forall₂ (fun name endpoint => m.resolve kind name = some endpoint)
        destination endpoints ∧
      (m.createByRule constructed kind name port destination).channel.destinations =
        endpoints.filterMap Endpoint.port? ∧
      (m.createByRule constructed kind name port destination).channel.destinationUrlVector =
        endpoints.filterMap Endpoint.address? := by
  rw [ModuleManager.createByRule] at h ⊢
  cases hadded : withSource constructed kind name port with
  | error failure =>
    rw [hadded] at h
    cases h
  | ok c =>
    rw [hadded] at h
    rw [sourceChannel] at h ⊢
    -- The channel of the source alone has no destinations, so all of them come from the loop.
    obtain ⟨-, -, hports, hurls, -⟩ := withSource_ok hadded
    cases hwiring : m.wireRule constructed kind c destination with
    | mk c' failure =>
      cases failure with
      | some failure =>
        rw [hwiring] at h
        cases h
      | none =>
        obtain ⟨endpoints, hwired⟩ := wireRule_wires_each (congrArg Wiring.failure hwiring)
        have hwiredPorts := hwired.ports
        have hwiredUrls := hwired.urls
        rw [hwiring, hports] at hwiredPorts
        rw [hwiring, hurls] at hwiredUrls
        exact ⟨endpoints, hwired.each, hwiredPorts, hwiredUrls⟩

/-- Queueing channels are wired by the rule, on every configuration. Sampling channels
    are wired by it just where the destinations are in order, and where the rule
    accepts the configuration every destination is wired once, as what it stands for. -/
theorem sampling_wiring_iff :
    m.createQueueingChannel constructed name port destination =
        m.createByRule constructed .queueing name port destination ∧
      (m.createSamplingChannel constructed name port destination =
          m.createByRule constructed .sampling name port destination ↔
        (constructed .sampling port = .noError →
          m.InOrder constructed .sampling port.maxMessageSize none destination)) ∧
      ∀ kind, (m.createByRule constructed kind name port destination).failure = none →
        ∃ endpoints,
          List.Forall₂ (fun name endpoint => m.resolve kind name = some endpoint)
            destination endpoints ∧
          (m.createByRule constructed kind name port destination).channel.destinations =
            endpoints.filterMap Endpoint.port? ∧
          (m.createByRule constructed kind name port destination).channel.destinationUrlVector =
            endpoints.filterMap Endpoint.address? :=
  ⟨createQueueingChannel_eq_rule constructed m name port destination,
    createSamplingChannel_eq_rule_iff constructed m name port destination,
    createByRule_wires_each constructed m name port destination⟩

end

/-- A partition with a port to receive, and a proxy for a port of another module. -/
def mixedModule : ModuleManager where
  partitionVector :=
    [⟨"receiver", false, fun _ => [⟨"local", 4, 0, .destination⟩], fun _ => [], fun _ => []⟩]
  proxyPorts := [⟨.sampling, "remote", "module2", 5000, 4, 1, .destination⟩]
  channelMap := []
  mapOfChannels := fun _ _ => none

/-- The local destination behind the remote one gets the address of the remote one, and
    the port is not added; the rule adds the port. -/
theorem sampling_wiring_mixed :
    let wiring := mixedModule.createSamplingChannel (fun _ _ => .noError) "channel"
      ⟨"out", 4, 0, .source⟩ ["remote", "local"]
    let ruled := mixedModule.createByRule (fun _ _ => .noError) .sampling "channel"
      ⟨"out", 4, 0, .source⟩ ["remote", "local"]
    wiring.failure = none ∧ wiring.channel.destinations = [] ∧
      wiring.channel.destinationUrlVector = [("module2", 5000), ("module2", 5000)] ∧
      ruled.failure = none ∧ ruled.channel.destinations = [⟨"local", 4, 0, .destination⟩] ∧
      ruled.channel.destinationUrlVector = [("module2", 5000)] := by
  decide

end Arinc.ChannelWiring
