import Mathlib.Data.Prod.Lex
import Mathlib.Order.WithBot
import ArincEmulator.Lib.NameTable
import ArincEmulator.Lib.Runs
import ArincEmulator.Lib.Sorting
import ArincEmulator.BufferBounds
import ArincEmulator.Process
import ArincEmulator.Time

/- The objects of a partition and the services that create them. Every kind has
   a vector, an object's id is its place in it, and the services that look an
   object up compare names. Some creations make others on the way: a blackboard
   makes its event, a process its response blackboard, a health manager its
   process and its buffer. A call may refuse, succeed, or stop half way with some
   of its objects created; `_cases` lemmas at the end say which for each service,
   and the modules on ids, limits and health managers work from them. -/
namespace Arinc.Registry

/-! ## The objects -/

/-- `PROCESS_DESCRIPTOR`, of which the process and the ids. -/
structure ProcessDescriptor where
  name : String
  processId : Nat
  hmDescriptorId : Int
  isHealthManager : Bool
  hmResponseBoardId : Nat
  processNotificationResponseBoardId : Option Nat
  deriving DecidableEq, Repr

/-- `APEX_EVENT_TYPE`. -/
structure EventObject where
  eventName : String
  deriving DecidableEq, Repr

/-- `SEMAPHORE`. -/
structure SemaphoreObject where
  semaphoreName : String
  counter : Int
  maximumValue : Int
  deriving DecidableEq, Repr

/-- `RW_LOCK_SEM`. -/
structure RwSemaphoreObject where
  name : String
  maxReaders : Int
  deriving DecidableEq, Repr

/-- `APEX_BUFFER_TYPE`. -/
structure BufferObject where
  bufferName : String
  bufferId : Nat
  bufferMaxMessageSize : Int
  bufferMaxNbMessage : Int
  deriving DecidableEq, Repr

/-- `APEX_BLACKBOARD_TYPE`. -/
structure BlackboardObject where
  blackboardName : String
  blackboardId : Nat
  maxMessageSize : Int
  blackboardEventId : Option Nat
  deriving DecidableEq, Repr

/-- `SAMPLING_PORT_HELPER`. -/
structure SamplingPortObject where
  sName : String
  sMaxMessageSize : Int
  sRefreshPeriod : Int
  deriving DecidableEq, Repr

/-- `MESSAGE_QUEUE_TYPE`. -/
structure QueuingPortObject where
  qName : String
  qMaxMessageSize : Int
  qMaxNbMessage : Int
  deriving DecidableEq, Repr

/-- `PROC_HM_ASSOCIATION_TYPE`. -/
structure ProcHmAssociation where
  processId : Nat
  blackboardId : Nat
  deriving DecidableEq, Repr

/-- `HM_DESCRIPTOR_TYPE`. The array of associations has
    `MAX_HM_PROC_RELATIONSHIPS` places, and the count is one below the number of
    those in use. -/
structure HmDescriptor where
  hmProcessId : Nat
  hmBufferId : Nat
  procHmAssociation : Nat → ProcHmAssociation
  currentlyRegisteredProcs : Int

end Arinc.Registry

namespace Arinc

/-- The vectors of a partition (`APEX`). The scheduling vector holds pointers to
    the descriptors, here the places they point to. -/
structure Registry where
  currentOperatingMode : OperatingMode
  processes : List Registry.ProcessDescriptor
  schedulingSorted : List Nat
  events : List Registry.EventObject
  semaphores : List Registry.SemaphoreObject
  rwSemaphores : List Registry.RwSemaphoreObject
  buffers : List Registry.BufferObject
  blackboards : List Registry.BlackboardObject
  samplingPorts : List Registry.SamplingPortObject
  queuingPorts : List Registry.QueuingPortObject
  healthManagers : List Registry.HmDescriptor

namespace Registry
open Runs NameTable Sorting

/-- The constructor of `APEX`. -/
def start : Registry := ⟨.coldStart, [], [], [], [], [], [], [], [], [], []⟩

/-! ## Names and limits of each kind -/

/-- The kinds of objects that have names. -/
inductive Kind where
  | process
  | event
  | semaphore
  | rwSemaphore
  | buffer
  | blackboard
  | samplingPort
  | queuingPort
  deriving DecidableEq, Repr

/-- The names in the vector of a kind, in its order. -/
def names (r : Registry) : Kind → List String
  | .process => r.processes.map (·.name)
  | .event => r.events.map (·.eventName)
  | .semaphore => r.semaphores.map (·.semaphoreName)
  | .rwSemaphore => r.rwSemaphores.map (·.name)
  | .buffer => r.buffers.map (·.bufferName)
  | .blackboard => r.blackboards.map (·.blackboardName)
  | .samplingPort => r.samplingPorts.map (·.sName)
  | .queuingPort => r.queuingPorts.map (·.qName)

/-- `SYSTEM_LIMIT_NUMBER_OF_MESSAGES`. -/
def systemLimitNumberOfMessages : Int := 512

/-- `SYSTEM_LIMIT_MAX_SAMPLING_MESSAGE_SIZE`. -/
def systemLimitMaxSamplingMessageSize : Int := 262144

/-- The `SYSTEM_LIMIT` constant of each kind. -/
def systemLimit : Kind → Nat
  | .process => 128
  | .event | .semaphore | .rwSemaphore | .buffer | .blackboard => 256
  | .samplingPort | .queuingPort => 512

/-- The code of a search that finds nothing. -/
def notFound : Kind → ReturnCode
  | .event | .semaphore | .rwSemaphore => .invalidParam
  | .process | .buffer | .blackboard | .samplingPort | .queuingPort => .invalidConfig

/-- `GET_PROCESS_ID`, `GET_EVENT_ID` and their siblings: the code and the id. -/
def getId (r : Registry) (kind : Kind) (name : String) : ReturnCode × Option Nat :=
  match find (r.names kind) name with
  | some id => (.noError, some id)
  | none => (notFound kind, none)

/-! ## Creation -/

/-- The ends of a call that do not return: a failed assertion, a name longer than
    its array, an index outside its vector. -/
inductive Fault where
  | assertion
  | nameOverflow
  | outOfBounds
  deriving DecidableEq, Repr

/-- A call that returns: the vectors after it, its code, and the id it wrote. -/
structure Result where
  registry : Registry
  code : ReturnCode
  id : Option Nat

/-- A call that returns a code and does nothing else. -/
def refuse (r : Registry) (code : ReturnCode) : Result := ⟨r, code, none⟩

/-- The test of the mode that most services begin with: nothing is created in IDLE
    and in NORMAL. -/
def Closed (r : Registry) : Prop :=
  r.currentOperatingMode = .idle ∨ r.currentOperatingMode = .normal

instance (r : Registry) : Decidable r.Closed := inferInstanceAs (Decidable (_ ∨ _))

/-- `QUEUING_DISCIPLINE_TYPE`; the enumeration of C++ can hold other values. -/
inductive QueuingDiscipline where
  | fifo
  | priority
  | other
  deriving DecidableEq, Repr

/-- `CREATE_EVENT`. -/
def createEvent (r : Registry) (name : String) : Result :=
  if r.Closed then r.refuse .invalidMode
  else if name ∈ r.names .event then r.refuse .invalidParam
  else ⟨{ r with events := r.events ++ [⟨name⟩] }, .noError, some r.events.length⟩

/-- `CREATE_SEMAPHORE`. -/
def createSemaphore (r : Registry) (name : String) (currentValue maximumValue : Int) : Result :=
  if r.Closed then r.refuse .invalidMode
  else if name ∈ r.names .semaphore then r.refuse .invalidParam
  else
    ⟨{ r with semaphores := r.semaphores ++ [⟨name, currentValue, maximumValue⟩] }, .noError,
      some r.semaphores.length⟩

/-- `CREATE_RW_SEMAPHORE`. -/
def createRwSemaphore (r : Registry) (name : String) (maximumReaders : Int) : Result :=
  if r.Closed then r.refuse .invalidMode
  else if name ∈ r.names .rwSemaphore then r.refuse .invalidParam
  else
    ⟨{ r with rwSemaphores := r.rwSemaphores ++ [⟨name, maximumReaders⟩] }, .noError,
      some r.rwSemaphores.length⟩

/-- `CREATE_BUFFER`. -/
def createBuffer (r : Registry) (name : String) (maxMessageSize maxNbMessage : Int)
    (discipline : QueuingDiscipline) : Result :=
  if r.currentOperatingMode = .normal then r.refuse .invalidMode
  else if systemLimit .buffer ≤ r.buffers.length then r.refuse .invalidConfig
  else if discipline = .other then r.refuse .invalidParam
  else if maxMessageSize ≤ 0 then r.refuse .invalidConfig
  else if maxNbMessage ≤ 0 ∨ systemLimitNumberOfMessages < maxNbMessage then
    r.refuse .invalidConfig
  else if name ∈ r.names .buffer then r.refuse .noAction
  else
    ⟨{ r with buffers := r.buffers ++ [⟨name, r.buffers.length, maxMessageSize, maxNbMessage⟩] },
      .noError, some r.buffers.length⟩

/-- `CREATE_BLACKBOARD`. The constructor creates the event of the blackboard, under
    the same name, and asserts that it was created. -/
def createBlackboard (r : Registry) (name : String) (maxMessageSize : Int) : Except Fault Result :=
  if r.currentOperatingMode = .normal then .ok (r.refuse .invalidMode)
  else if maxMessageSize ≤ 0 then .ok (r.refuse .invalidParam)
  else if name ∈ r.names .blackboard then .ok (r.refuse .noAction)
  else
    let event := r.createEvent name
    if event.code ≠ .noError then .error .assertion
    else
      .ok ⟨{ event.registry with
          blackboards := r.blackboards ++
            [⟨name, r.blackboards.length, maxMessageSize, event.id⟩] },
        .noError, some r.blackboards.length⟩

/-- `CREATE_SAMPLING_PORT`. `opened` is the code of the constructor, which opens
    the shared memory. -/
def createSamplingPort (r : Registry) (name : String) (maxMessageSize refreshPeriod : Int)
    (opened : ReturnCode) : Result :=
  if r.currentOperatingMode = .normal then r.refuse .invalidMode
  else if systemLimit .samplingPort ≤ r.samplingPorts.length then r.refuse .invalidConfig
  else if maxMessageSize = 0 ∨ systemLimitMaxSamplingMessageSize < maxMessageSize then
    r.refuse .invalidConfig
  else if refreshPeriod = 0 ∨ maxTimeOut < refreshPeriod then r.refuse .invalidConfig
  else if name ∈ r.names .samplingPort then r.refuse .noAction
  else if opened = .noError then
    ⟨{ r with samplingPorts := r.samplingPorts ++ [⟨name, maxMessageSize, refreshPeriod⟩] },
      .noError, some r.samplingPorts.length⟩
  else ⟨r, opened, some r.samplingPorts.length⟩ -- the id is written before the port is opened

/-- `CREATE_QUEUING_PORT`. `opened` is the code of the constructor, which opens
    the message queue. -/
def createQueuingPort (r : Registry) (name : String) (maxMessageSize maxNbMessage : Int)
    (discipline : QueuingDiscipline) (opened : ReturnCode) : Result :=
  if r.currentOperatingMode = .normal then r.refuse .invalidMode
  else if systemLimit .queuingPort ≤ r.queuingPorts.length then r.refuse .invalidConfig
  else if discipline = .other then r.refuse .invalidParam
  else if maxMessageSize ≤ 0 then r.refuse .invalidConfig
  else if maxNbMessage ≤ 0 ∨ systemLimitNumberOfMessages < maxNbMessage then
    r.refuse .invalidConfig
  else if name ∈ r.names .queuingPort then r.refuse .noAction
  else if opened = .noError then
    ⟨{ r with queuingPorts := r.queuingPorts ++ [⟨name, maxMessageSize, maxNbMessage⟩] },
      .noError, some r.queuingPorts.length⟩
  else ⟨r, opened, some r.queuingPorts.length⟩

/-- `MAX_PROCESS_RESPONSE_MESSAGE_SIZE`. -/
def maxProcessResponseMessageSize : Int := 248

/-- The name of the response blackboard of a process. -/
def responseName (processId : Nat) : String := s!"RESPONSE_{processId}"

/-- The descriptor of a new process. -/
def newDescriptor (name : String) (processId : Nat) (board : Option Nat) : ProcessDescriptor where
  name := name
  processId := processId
  hmDescriptorId := -1
  isHealthManager := false
  hmResponseBoardId := 1000
  processNotificationResponseBoardId := board

/-- `CREATE_PROCESS`. The process enters both vectors whatever has become of its
    response blackboard, whose code is the one that is returned. -/
def createProcess (r : Registry) (attributes : Attributes) : Except Fault Result :=
  let checked := Arinc.createProcess r.currentOperatingMode (r.names .process) attributes
  if checked ≠ .noError then .ok (r.refuse checked)
  else
    let newProcessId := r.processes.length
    (r.createBlackboard (responseName newProcessId) maxProcessResponseMessageSize).map
      fun board =>
        let descriptor := newDescriptor attributes.name newProcessId board.id
        ⟨{ board.registry with
            processes := r.processes ++ [descriptor]
            schedulingSorted := r.schedulingSorted ++ [newProcessId] },
          board.code, some newProcessId⟩

/-- `MAX_NAME_LENGTH`, the size of the array of a name. -/
def maxNameLength : Nat := 100

/-- `HMPRIORITY`. -/
def hmPriority : Int := partitionProcessHighPriority

/-- `MAX_HM_BUFFER_MESSGAES`. -/
def maxHmBufferMessages : Int := 20

/-- `APEX_HELPER_CREATE_PROCESS`. A name of just the size of its array is copied
    without its end. -/
def apexHelperCreateProcess (r : Registry) (attributes : Attributes) : Except Fault Result :=
  if maxNameLength < attributes.name.length then .ok (r.refuse .invalidParam)
  else if attributes.name.length = maxNameLength then .error .nameOverflow
  else r.createProcess attributes

/-- `IS_HEALTH_MANAGER = true` on the process of an id. -/
def markHealthManager (r : Registry) (processId : Nat) : Registry :=
  { r with processes := r.processes.modify processId fun d => { d with isHealthManager := true } }

/-- The attributes of a health manager's process. -/
def hmAttributes (name : String) (entryPointNull : Bool) : Attributes where
  name := name
  entryPointNull := entryPointNull
  basePriority := hmPriority
  timeCapacity := infiniteTimeValue
  period := infiniteTimeValue
  deadline := .hard

/-- The name of a health manager's buffer. -/
def hmBufferName (name : String) : String := name ++ "_HMB"

/-- `CREATE_HEALTH_MANAGER_PROCESS` past its process: the buffer, whose name is put
    together in an array of its own, and a descriptor without associations. -/
def createHmBuffer (r : Registry) (name : String) (hmProcessId : Nat) : Except Fault Result :=
  if maxNameLength ≤ (hmBufferName name).length then .error .nameOverflow
  else
    let buffer := r.createBuffer (hmBufferName name) BufferBounds.sizeofErrorStatus
      maxHmBufferMessages .fifo
    if buffer.code ≠ .noError then .ok ⟨buffer.registry, buffer.code, none⟩
    else
      .ok ⟨{ buffer.registry with
          healthManagers := buffer.registry.healthManagers ++
            [⟨hmProcessId, buffer.id.getD 0, fun _ => ⟨0, 0⟩, -1⟩] },
        .noError, some buffer.registry.healthManagers.length⟩

/-- `CREATE_HEALTH_MANAGER_PROCESS`. -/
def createHealthManagerProcess (r : Registry) (entryPointNull : Bool) (name : String) :
    Except Fault Result :=
  if r.Closed then .ok (r.refuse .invalidMode)
  else
    (r.apexHelperCreateProcess (hmAttributes name entryPointNull)).bind fun process =>
      if process.code ≠ .noError then .ok ⟨process.registry, process.code, none⟩
      else
        let hmProcessId := process.id.getD 0
        (process.registry.markHealthManager hmProcessId).createHmBuffer name hmProcessId

/-! ## Registration -/

/-- `MAX_HM_PROC_RELATIONSHIPS`. -/
def maxHmProcRelationships : Int := 128

/-- `MAX_HM_RESPONSE_MESSAGE_SIZE`. -/
def maxHmResponseMessageSize : Int := 232

/-- The name of the blackboard a process gets its health manager's answers on. -/
def hmBoardName (processId : Nat) : String := s!"Process{processId}"

/-- The association a registration writes, on the next place of the array. -/
def HmDescriptor.associate (hm : HmDescriptor) (association : ProcHmAssociation) : HmDescriptor :=
  let registered := hm.currentlyRegisteredProcs + 1
  { hm with
    currentlyRegisteredProcs := registered
    procHmAssociation := Function.update hm.procHmAssociation registered.toNat association }

/-- The two entries a registration links: the process's descriptor and the next
    association of the health manager. -/
def withLink (r : Registry) (processId : Nat) (hmDescriptorId : Int) (hm : HmDescriptor)
    (board : Nat) : Registry :=
  { r with
    processes := r.processes.modify processId fun d =>
      { d with hmDescriptorId := hmDescriptorId, hmResponseBoardId := board }
    healthManagers := r.healthManagers.set hmDescriptorId.toNat (hm.associate ⟨processId, board⟩) }

/-- What a registration writes once its blackboard is there. Each vector is indexed
    with the id as it was passed. -/
def link (r : Registry) (processId : Nat) (hmDescriptorId : Int) (board : Nat) :
    Except Fault Registry :=
  if r.processes.length ≤ processId then .error .outOfBounds
  else if hmDescriptorId < 0 then .error .outOfBounds
  else
    match r.healthManagers[hmDescriptorId.toNat]? with
    | none => .error .outOfBounds
    | some hm =>
      -- the log names the health manager's process
      if r.processes.length ≤ hm.hmProcessId then .error .outOfBounds
      else if maxHmProcRelationships ≤ hm.currentlyRegisteredProcs + 1 then .error .outOfBounds
      else
        .ok (r.withLink processId hmDescriptorId hm board)

/-- `REGISTER_PROCESS_WITH_HEALTH_MANAGER`. The id of the process is compared and
    printed as a word of 32 bits, and that of the health manager from above only. -/
def registerProcessWithHealthManager (r : Registry) (processId : Nat) (hmDescriptorId : Int) :
    Except Fault Result :=
  if r.Closed then .ok (r.refuse .invalidMode)
  else if r.processes.length ≤ processId % 2 ^ 32 then .ok (r.refuse .invalidParam)
  else if (r.healthManagers.length : Int) ≤ hmDescriptorId then .ok (r.refuse .invalidParam)
  else
    (r.createBlackboard (hmBoardName (processId % 2 ^ 32)) maxHmResponseMessageSize).bind
      fun board =>
        if board.code ≠ .noError then .ok ⟨board.registry, board.code, none⟩
        else
          let boardId := board.id.getD 0
          (board.registry.link processId hmDescriptorId boardId).map fun linked =>
            ⟨linked, .noError, some boardId⟩

/-! ## Modes and the scheduler -/

/-- `SET_PARTITION_MODE`. A partition that leaves the mode NORMAL is terminated and
    its vectors are gone. -/
def setPartitionMode (r : Registry) (mode : OperatingMode) : Option Registry :=
  match r.currentOperatingMode with
  | .coldStart => if mode = .warmStart then some r else some { r with currentOperatingMode := mode }
  | .idle => some r
  | .normal => if mode = .normal then some r else none
  | .warmStart => some { r with currentOperatingMode := mode }

/-- What the comparison of the scheduler reads of a process. -/
structure SchedulingInfo where
  dormant : Bool
  absoluteCriticalTime : Timespec
  deriving DecidableEq, Repr

/-- `PROCESS_DESCRIPTOR_COMP`. -/
def processDescriptorComp (info : Nat → SchedulingInfo) (first second : Nat) : Bool :=
  if (info first).dormant && (info second).dormant then false
  else if (info second).dormant then true
  else if (info first).dormant then false
  else compareTime (info first).absoluteCriticalTime (info second).absoluteCriticalTime

/-! ## Runs -/

/-- The creations, with the results of the operating system where they depend on
    them. -/
inductive Creation where
  | process (attributes : Attributes)
  | healthManager (entryPointNull : Bool) (name : String)
  | event (name : String)
  | semaphore (name : String) (currentValue maximumValue : Int)
  | rwSemaphore (name : String) (maximumReaders : Int)
  | buffer (name : String) (maxMessageSize maxNbMessage : Int) (discipline : QueuingDiscipline)
  | blackboard (name : String) (maxMessageSize : Int)
  | samplingPort (name : String) (maxMessageSize refreshPeriod : Int) (opened : ReturnCode)
  | queuingPort (name : String) (maxMessageSize maxNbMessage : Int)
      (discipline : QueuingDiscipline) (opened : ReturnCode)

/-- One `CREATE_` call. -/
def create (r : Registry) : Creation → Except Fault Result
  | .process attributes => r.createProcess attributes
  | .healthManager entryPointNull name => r.createHealthManagerProcess entryPointNull name
  | .event name => .ok (r.createEvent name)
  | .semaphore name currentValue maximumValue =>
    .ok (r.createSemaphore name currentValue maximumValue)
  | .rwSemaphore name maximumReaders => .ok (r.createRwSemaphore name maximumReaders)
  | .buffer name maxMessageSize maxNbMessage discipline =>
    .ok (r.createBuffer name maxMessageSize maxNbMessage discipline)
  | .blackboard name maxMessageSize => r.createBlackboard name maxMessageSize
  | .samplingPort name maxMessageSize refreshPeriod opened =>
    .ok (r.createSamplingPort name maxMessageSize refreshPeriod opened)
  | .queuingPort name maxMessageSize maxNbMessage discipline opened =>
    .ok (r.createQueuingPort name maxMessageSize maxNbMessage discipline opened)

/-- The steps: a creation, a registration, a change of mode, and a sort of the
    scheduling vector over the states and times the processes have by then, with
    what it leaves. -/
inductive Op where
  | create (creation : Creation)
  | register (processId : Nat) (hmDescriptorId : Int)
  | setMode (mode : OperatingMode)
  | sort (info : Nat → SchedulingInfo) (result : List Nat)

/-- One step; a call that does not return has no successor. -/
def step (r : Registry) : Op → Option Registry
  | .create creation => (r.create creation).toOption.map (·.registry)
  | .register processId hmDescriptorId =>
    (r.registerProcessWithHealthManager processId hmDescriptorId).toOption.map (·.registry)
  | .setMode mode => r.setPartitionMode mode
  | .sort info result =>
    if Sorts (processDescriptorComp info) r.schedulingSorted result then
      some { r with schedulingSorted := result }
    else none

/-! ## What a call does

One inversion lemma for each service: it refuses and leaves the vectors alone, or
its checks hold and it puts its objects at the ends. -/

theorem ok_of_map {α β : Type} {x : Except Fault α} {f : α → β} {b : β} (h : x.map f = .ok b) :
    ∃ a, x = .ok a ∧ f a = b := by
  cases x with
  | error fault => cases h
  | ok a => exact ⟨a, rfl, Except.ok.inj h⟩

theorem ok_of_bind {α β : Type} {x : Except Fault α} {f : α → Except Fault β} {b : β}
    (h : x.bind f = .ok b) : ∃ a, x = .ok a ∧ f a = .ok b := by
  cases x with
  | error fault => cases h
  | ok a => exact ⟨a, rfl, h⟩

theorem step_create_some {r r' : Registry} {creation : Creation}
    (h : r.step (.create creation) = some r') :
    ∃ res, r.create creation = .ok res ∧ res.registry = r' := by
  unfold step at h
  cases hcreate : r.create creation with
  | error fault => simp [hcreate, Except.toOption] at h
  | ok res => exact ⟨res, rfl, by simpa [hcreate, Except.toOption] using h⟩

theorem step_register_some {r r' : Registry} {processId : Nat} {hmDescriptorId : Int}
    (h : r.step (.register processId hmDescriptorId) = some r') :
    ∃ res, r.registerProcessWithHealthManager processId hmDescriptorId = .ok res ∧
      res.registry = r' := by
  unfold step at h
  cases hregister : r.registerProcessWithHealthManager processId hmDescriptorId with
  | error fault => simp [hregister, Except.toOption] at h
  | ok res => exact ⟨res, rfl, by simpa [hregister, Except.toOption] using h⟩

/-- A change of the mode changes the mode or nothing. -/
theorem setPartitionMode_some {r r' : Registry} {mode : OperatingMode}
    (h : r.setPartitionMode mode = some r') :
    r' = { r with currentOperatingMode := r'.currentOperatingMode } := by
  unfold setPartitionMode at h
  split at h
  · split at h
    · rw [← Option.some.inj h]
    · rw [← Option.some.inj h]
  · rw [← Option.some.inj h]
  · obtain ⟨-, h⟩ := Option.ite_none_right_eq_some.mp h
    rw [← Option.some.inj h]
  · rw [← Option.some.inj h]

/-- The partition with one more event. -/
def withEvent (r : Registry) (name : String) : Registry :=
  { r with events := r.events ++ [⟨name⟩] }

/-- The partition with one more blackboard and its event. -/
def withBlackboard (r : Registry) (name : String) (maxMessageSize : Int) : Registry :=
  { r.withEvent name with
    blackboards := r.blackboards ++
      [⟨name, r.blackboards.length, maxMessageSize, some r.events.length⟩] }

/-- The partition with one more process. -/
def withProcess (r : Registry) (name : String) (board : Option Nat) : Registry :=
  { r with
    processes := r.processes ++ [newDescriptor name r.processes.length board]
    schedulingSorted := r.schedulingSorted ++ [r.processes.length] }

/-- The call refused and did nothing else. -/
def Result.Refused (res : Result) (r : Registry) : Prop :=
  res.code ≠ .noError ∧ res = r.refuse res.code

theorem refused_refuse {r : Registry} {code : ReturnCode} (h : code ≠ .noError) :
    (r.refuse code).Refused r := ⟨h, rfl⟩

theorem createEvent_cases (r : Registry) (name : String) :
    (r.createEvent name).Refused r ∧ (r.Closed ∨ name ∈ r.names .event) ∨
      ¬ r.Closed ∧ name ∉ r.names .event ∧
        r.createEvent name = ⟨r.withEvent name, .noError, some r.events.length⟩ := by
  unfold createEvent
  by_cases hmode : r.Closed
  · left
    rw [if_pos hmode]
    exact ⟨refused_refuse (by decide), Or.inl hmode⟩
  · by_cases hname : name ∈ r.names .event
    · left
      rw [if_neg hmode, if_pos hname]
      exact ⟨refused_refuse (by decide), Or.inr hname⟩
    · right
      rw [if_neg hmode, if_neg hname]
      exact ⟨hmode, hname, rfl⟩

theorem createBlackboard_cases {r : Registry} {name : String} {size : Int} {res : Result}
    (h : r.createBlackboard name size = .ok res) :
    res.Refused r ∧
        (r.currentOperatingMode = .normal ∨ size ≤ 0 ∨ name ∈ r.names .blackboard) ∨
      ¬ r.Closed ∧ 0 < size ∧ name ∉ r.names .blackboard ∧ name ∉ r.names .event ∧
        res = ⟨r.withBlackboard name size, .noError, some r.blackboards.length⟩ := by
  unfold createBlackboard at h
  split at h
  · rename_i hmode
    obtain rfl := Except.ok.inj h
    exact Or.inl ⟨refused_refuse (by decide), Or.inl hmode⟩
  · split at h
    · rename_i hsize
      obtain rfl := Except.ok.inj h
      exact Or.inl ⟨refused_refuse (by decide), Or.inr (Or.inl hsize)⟩
    · rename_i hsize
      split at h
      · rename_i hname
        obtain rfl := Except.ok.inj h
        exact Or.inl ⟨refused_refuse (by decide), Or.inr (Or.inr hname)⟩
      · rename_i hname
        obtain ⟨hrefused, -⟩ | ⟨hopen, hevent, hok⟩ := r.createEvent_cases name
        · simp [hrefused.1] at h
        · rw [hok] at h
          obtain rfl := Except.ok.inj h
          exact Or.inr ⟨hopen, Int.not_le.mp hsize, hname, hevent, rfl⟩

theorem createBlackboard_error {r : Registry} {name : String} {size : Int} {fault : Fault}
    (h : r.createBlackboard name size = .error fault) :
    fault = .assertion ∧ (r.Closed ∨ name ∈ r.names .event) := by
  unfold createBlackboard at h
  split at h
  · cases h
  split at h
  · cases h
  split at h
  · cases h
  simp only at h
  split at h
  · rename_i hcode
    refine ⟨(Except.error.inj h).symm, ?_⟩
    obtain ⟨-, hwhy⟩ | ⟨-, -, hok⟩ := r.createEvent_cases name
    · exact hwhy
    · rw [hok] at hcode
      exact absurd rfl hcode
  · cases h

theorem createProcess_eq_noError_iff {r : Registry} {a : Attributes} :
    Arinc.createProcess r.currentOperatingMode (r.names .process) a = .noError ↔
      ¬ r.Closed ∧ r.processes.length < maxNumberOfProcesses ∧ checkAttributes a = .noError ∧
        a.name ∉ r.names .process := by
  have hlen : (r.names .process).length = r.processes.length := List.length_map _
  unfold Arinc.createProcess Closed
  rw [hlen]
  split
  · rename_i hmode
    simp [hmode]
  · rename_i hmode
    split
    · rename_i hfull
      simp only [reduceCtorEq, false_iff]
      omega
    · rename_i hfull
      split
      · rename_i hcheck
        simp [hcheck]
      · rename_i hcheck
        split
        · rename_i hname
          simp [hname]
        · rename_i hname
          simp only [true_iff]
          exact ⟨hmode, Nat.not_le.mp hfull, not_not.mp hcheck, hname⟩

/-- A process that passes the checks is created, with its blackboard or, where the
    name of that is taken, without and under the code of the blackboard. -/
theorem createProcess_cases {r : Registry} {a : Attributes} {res : Result}
    (h : r.createProcess a = .ok res) :
    res.Refused r ∧
        Arinc.createProcess r.currentOperatingMode (r.names .process) a ≠ .noError ∨
      Arinc.createProcess r.currentOperatingMode (r.names .process) a = .noError ∧
        (responseName r.processes.length ∈ r.names .blackboard ∧ res.code ≠ .noError ∧
            res.registry = r.withProcess a.name none ∨
          responseName r.processes.length ∉ r.names .blackboard ∧
            responseName r.processes.length ∉ r.names .event ∧
            res = ⟨(r.withBlackboard (responseName r.processes.length)
              maxProcessResponseMessageSize).withProcess a.name (some r.blackboards.length),
              .noError, some r.processes.length⟩) := by
  unfold createProcess at h
  by_cases hcheck : Arinc.createProcess r.currentOperatingMode (r.names .process) a = .noError
  · simp only [hcheck, ne_eq, not_true_eq_false, if_false] at h
    obtain ⟨board, hboard, hres⟩ := ok_of_map h
    have hopen : ¬ r.Closed := (createProcess_eq_noError_iff.mp hcheck).1
    refine Or.inr ⟨hcheck, ?_⟩
    -- The response blackboard is created behind the process, which stays when that fails.
    obtain ⟨⟨hcode, hrefused⟩, hwhy⟩ | ⟨-, -, hname, hevent, rfl⟩ := createBlackboard_cases hboard
    · left
      have hname : responseName r.processes.length ∈ r.names .blackboard := by
        obtain hmode | hsize | hname := hwhy
        · exact absurd (Or.inr hmode) hopen
        · exact absurd hsize (by decide)
        · exact hname
      rw [← hres, hrefused]
      exact ⟨hname, hcode, rfl⟩
    · right
      exact ⟨hname, hevent, hres.symm⟩
  · simp only [ne_eq, hcheck, not_false_eq_true, if_true] at h
    obtain rfl := Except.ok.inj h
    exact Or.inl ⟨refused_refuse hcheck, hcheck⟩

theorem createBuffer_cases (r : Registry) (name : String) (size nb : Int)
    (discipline : QueuingDiscipline) :
    (r.createBuffer name size nb discipline).Refused r ∧
        (r.currentOperatingMode = .normal ∨ systemLimit .buffer ≤ r.buffers.length ∨
          discipline = .other ∨ size ≤ 0 ∨ nb ≤ 0 ∨ systemLimitNumberOfMessages < nb ∨
          name ∈ r.names .buffer) ∨
      r.buffers.length < systemLimit .buffer ∧ name ∉ r.names .buffer ∧
        r.createBuffer name size nb discipline =
          ⟨{ r with buffers := r.buffers ++ [⟨name, r.buffers.length, size, nb⟩] }, .noError,
            some r.buffers.length⟩ := by
  unfold createBuffer
  split
  · rename_i hmode
    exact Or.inl ⟨refused_refuse (by decide), by simp [hmode]⟩
  · split
    · rename_i hfull
      exact Or.inl ⟨refused_refuse (by decide), by simp [hfull]⟩
    · rename_i hfull
      split
      · rename_i hdisc
        exact Or.inl ⟨refused_refuse (by decide), by simp [hdisc]⟩
      · split
        · rename_i hsize
          exact Or.inl ⟨refused_refuse (by decide), by simp [hsize]⟩
        · split
          · rename_i hnb
            refine Or.inl ⟨refused_refuse (by decide), ?_⟩
            obtain hnb | hnb := hnb
            · simp [hnb]
            · simp [hnb]
          · split
            · rename_i hname
              exact Or.inl ⟨refused_refuse (by decide), by simp [hname]⟩
            · rename_i hname
              exact Or.inr ⟨Nat.not_le.mp hfull, hname, rfl⟩

theorem createSemaphore_cases (r : Registry) (name : String) (currentValue maximumValue : Int) :
    (r.createSemaphore name currentValue maximumValue).Refused r ∧
        (r.Closed ∨ name ∈ r.names .semaphore) ∨
      ¬ r.Closed ∧ name ∉ r.names .semaphore ∧
        r.createSemaphore name currentValue maximumValue =
          ⟨{ r with semaphores := r.semaphores ++ [⟨name, currentValue, maximumValue⟩] }, .noError,
            some r.semaphores.length⟩ := by
  unfold createSemaphore
  split
  · rename_i hmode
    exact Or.inl ⟨refused_refuse (by decide), Or.inl hmode⟩
  rename_i hmode
  split
  · rename_i hname
    exact Or.inl ⟨refused_refuse (by decide), Or.inr hname⟩
  · rename_i hname
    exact Or.inr ⟨hmode, hname, rfl⟩

theorem createRwSemaphore_cases (r : Registry) (name : String) (maximumReaders : Int) :
    (r.createRwSemaphore name maximumReaders).Refused r ∧
        (r.Closed ∨ name ∈ r.names .rwSemaphore) ∨
      ¬ r.Closed ∧ name ∉ r.names .rwSemaphore ∧
        r.createRwSemaphore name maximumReaders =
          ⟨{ r with rwSemaphores := r.rwSemaphores ++ [⟨name, maximumReaders⟩] }, .noError,
            some r.rwSemaphores.length⟩ := by
  unfold createRwSemaphore
  split
  · rename_i hmode
    exact Or.inl ⟨refused_refuse (by decide), Or.inl hmode⟩
  rename_i hmode
  split
  · rename_i hname
    exact Or.inl ⟨refused_refuse (by decide), Or.inr hname⟩
  · rename_i hname
    exact Or.inr ⟨hmode, hname, rfl⟩

theorem createSamplingPort_cases (r : Registry) (name : String) (size refresh : Int)
    (opened : ReturnCode) :
    (r.createSamplingPort name size refresh opened).code ≠ .noError ∧
        (r.createSamplingPort name size refresh opened).registry = r ∨
      r.samplingPorts.length < systemLimit .samplingPort ∧ name ∉ r.names .samplingPort ∧
        r.createSamplingPort name size refresh opened =
          ⟨{ r with samplingPorts := r.samplingPorts ++ [⟨name, size, refresh⟩] }, .noError,
            some r.samplingPorts.length⟩ := by
  unfold createSamplingPort
  split
  · exact Or.inl ⟨by simp [refuse], rfl⟩
  split
  · exact Or.inl ⟨by simp [refuse], rfl⟩
  rename_i hroom
  split
  · exact Or.inl ⟨by simp [refuse], rfl⟩
  split
  · exact Or.inl ⟨by simp [refuse], rfl⟩
  split
  · exact Or.inl ⟨by simp [refuse], rfl⟩
  rename_i hname
  split
  · exact Or.inr ⟨Nat.not_le.mp hroom, hname, rfl⟩
  · rename_i hopened
    exact Or.inl ⟨hopened, rfl⟩

theorem createQueuingPort_cases (r : Registry) (name : String) (size nb : Int)
    (discipline : QueuingDiscipline) (opened : ReturnCode) :
    (r.createQueuingPort name size nb discipline opened).code ≠ .noError ∧
        (r.createQueuingPort name size nb discipline opened).registry = r ∨
      r.queuingPorts.length < systemLimit .queuingPort ∧ name ∉ r.names .queuingPort ∧
        r.createQueuingPort name size nb discipline opened =
          ⟨{ r with queuingPorts := r.queuingPorts ++ [⟨name, size, nb⟩] }, .noError,
            some r.queuingPorts.length⟩ := by
  unfold createQueuingPort
  split
  · exact Or.inl ⟨by simp [refuse], rfl⟩
  split
  · exact Or.inl ⟨by simp [refuse], rfl⟩
  rename_i hroom
  split
  · exact Or.inl ⟨by simp [refuse], rfl⟩
  split
  · exact Or.inl ⟨by simp [refuse], rfl⟩
  split
  · exact Or.inl ⟨by simp [refuse], rfl⟩
  split
  · exact Or.inl ⟨by simp [refuse], rfl⟩
  rename_i hname
  split
  · exact Or.inr ⟨Nat.not_le.mp hroom, hname, rfl⟩
  · rename_i hopened
    exact Or.inl ⟨hopened, rfl⟩

/-- A health manager's process with its response blackboard. -/
def withManagerProcess (r : Registry) (name : String) : Registry :=
  ((r.withBlackboard (responseName r.processes.length) maxProcessResponseMessageSize).withProcess
    name (some r.blackboards.length)).markHealthManager r.processes.length

/-- A health manager, complete. -/
def withHealthManager (r : Registry) (name : String) : Registry :=
  { r.withManagerProcess name with
    buffers := r.buffers ++
      [⟨hmBufferName name, r.buffers.length, BufferBounds.sizeofErrorStatus, maxHmBufferMessages⟩]
    healthManagers := r.healthManagers ++
      [⟨r.processes.length, r.buffers.length, fun _ => ⟨0, 0⟩, -1⟩] }

theorem createHmBuffer_cases {r : Registry} {name : String} {id : Nat} {res : Result}
    (hopen : ¬ r.Closed) (h : r.createHmBuffer name id = .ok res) :
    (systemLimit .buffer ≤ r.buffers.length ∨ hmBufferName name ∈ r.names .buffer) ∧
        res.Refused r ∨
      r.buffers.length < systemLimit .buffer ∧ hmBufferName name ∉ r.names .buffer ∧
        res = ⟨{ r with
            buffers := r.buffers ++ [⟨hmBufferName name, r.buffers.length,
              BufferBounds.sizeofErrorStatus, maxHmBufferMessages⟩]
            healthManagers := r.healthManagers ++
              [⟨id, r.buffers.length, fun _ => ⟨0, 0⟩, -1⟩] },
          .noError, some r.healthManagers.length⟩ := by
  unfold createHmBuffer at h
  split at h
  · cases h
  obtain ⟨⟨hcode, hbuffer⟩, hwhy⟩ | ⟨hroom, hname, hok⟩ := r.createBuffer_cases
    (hmBufferName name) BufferBounds.sizeofErrorStatus maxHmBufferMessages .fifo
  · rw [if_pos hcode] at h
    obtain rfl := Except.ok.inj h
    refine Or.inl ⟨?_, hcode, by rw [hbuffer]; rfl⟩
    -- Sizes and discipline are constants that CREATE_BUFFER takes.
    obtain hmode | hfull | hdisc | hsize | hnb | hnb | hname := hwhy
    · exact absurd (Or.inr hmode) hopen
    · exact Or.inl hfull
    · cases hdisc
    · exact absurd hsize (by decide)
    · exact absurd hnb (by decide)
    · exact absurd hnb (by decide)
    · exact Or.inr hname
  · rw [if_neg (by rw [hok]; simp), hok] at h
    obtain rfl := Except.ok.inj h
    exact Or.inr ⟨hroom, hname, rfl⟩

/-- A health manager's creation comes as far as its process. -/
def AcceptsHealthManager (r : Registry) (entryPointNull : Bool) (name : String) : Prop :=
  name.length ≤ maxNameLength ∧
    Arinc.createProcess r.currentOperatingMode (r.names .process)
      (hmAttributes name entryPointNull) = .noError

instance (r : Registry) (entryPointNull : Bool) (name : String) :
    Decidable (r.AcceptsHealthManager entryPointNull name) := inferInstanceAs (Decidable (_ ∧ _))

/-- The ends of a health manager's creation: refused, stopped after its process
    because the name of the response blackboard or of the buffer is taken or there
    is no room for the buffer, or complete. -/
theorem createHealthManagerProcess_cases {r : Registry} {entryPointNull : Bool} {name : String}
    {res : Result} (h : r.createHealthManagerProcess entryPointNull name = .ok res) :
    res.Refused r ∧ ¬ r.AcceptsHealthManager entryPointNull name ∨
      r.AcceptsHealthManager entryPointNull name ∧
        (responseName r.processes.length ∈ r.names .blackboard ∧ res.code ≠ .noError ∧
            res.registry = r.withProcess name none ∨
          responseName r.processes.length ∉ r.names .blackboard ∧
            responseName r.processes.length ∉ r.names .event ∧
            ((systemLimit .buffer ≤ r.buffers.length ∨ hmBufferName name ∈ r.names .buffer) ∧
                res.code ≠ .noError ∧ res.registry = r.withManagerProcess name ∨
              r.buffers.length < systemLimit .buffer ∧ hmBufferName name ∉ r.names .buffer ∧
                res = ⟨r.withHealthManager name, .noError, some r.healthManagers.length⟩)) := by
  unfold createHealthManagerProcess at h
  by_cases hopen : r.Closed
  · rw [if_pos hopen] at h
    obtain rfl := Except.ok.inj h
    refine Or.inl ⟨refused_refuse (by decide), fun ha => ?_⟩
    exact (createProcess_eq_noError_iff.mp ha.2).1 hopen
  rw [if_neg hopen] at h
  obtain ⟨process, hprocess, h⟩ := ok_of_bind h
  -- The process comes first, and stays when the buffer that follows is refused.
  unfold apexHelperCreateProcess at hprocess
  split at hprocess
  · rename_i hlong
    obtain rfl := Except.ok.inj hprocess
    obtain rfl := Except.ok.inj h
    refine Or.inl ⟨refused_refuse (show ReturnCode.invalidParam ≠ .noError by decide), fun ha => ?_⟩
    exact Nat.not_lt.mpr ha.1 hlong
  rename_i hlong
  split at hprocess
  · cases hprocess
  obtain ⟨⟨hcode, hrefused⟩, hcheck⟩ | ⟨hcheck, ⟨hname, hcode, hreg⟩ | ⟨hname, hevent, rfl⟩⟩ :=
    createProcess_cases hprocess
  · rw [if_pos hcode] at h
    obtain rfl := Except.ok.inj h
    rw [hrefused]
    exact Or.inl ⟨refused_refuse hcode, fun ha => hcheck ha.2⟩
  · rw [if_pos hcode] at h
    obtain rfl := Except.ok.inj h
    exact Or.inr ⟨⟨Nat.not_lt.mp hlong, hcheck⟩, Or.inl ⟨hname, hcode, hreg⟩⟩
  · refine Or.inr ⟨⟨Nat.not_lt.mp hlong, hcheck⟩, Or.inr ⟨hname, hevent, ?_⟩⟩
    rw [if_neg (by simp)] at h
    have hbuffer : (r.withManagerProcess name).createHmBuffer name r.processes.length = .ok res := h
    obtain ⟨hwhy, hcode, hrefused⟩ | ⟨hroom, hbname, rfl⟩ :=
      createHmBuffer_cases (r := r.withManagerProcess name) hopen hbuffer
    · exact Or.inl ⟨hwhy, hcode, congrArg Result.registry hrefused⟩
    · exact Or.inr ⟨hroom, hbname, rfl⟩

theorem link_cases {r r' : Registry} {processId : Nat} {hmDescriptorId : Int} {board : Nat}
    (h : r.link processId hmDescriptorId board = .ok r') :
    processId < r.processes.length ∧ 0 ≤ hmDescriptorId ∧
      ∃ hm, r.healthManagers[hmDescriptorId.toNat]? = some hm ∧
        hm.hmProcessId < r.processes.length ∧
        hm.currentlyRegisteredProcs + 1 < maxHmProcRelationships ∧
        r' = r.withLink processId hmDescriptorId hm board := by
  unfold link at h
  split at h
  · cases h
  rename_i hprocess
  split at h
  · cases h
  rename_i hnegative
  cases hhm : r.healthManagers[hmDescriptorId.toNat]? with
  | none =>
    rw [hhm] at h
    cases h
  | some hm =>
    simp only [hhm] at h
    split at h
    · cases h
    rename_i howner
    split at h
    · cases h
    rename_i hroom
    exact ⟨Nat.not_le.mp hprocess, Int.not_lt.mp hnegative, hm, rfl, Nat.not_le.mp howner,
      Int.not_le.mp hroom, (Except.ok.inj h).symm⟩

/-- A registration gets past its checks and those of its blackboard. -/
def AcceptsRegistration (r : Registry) (processId : Nat) (hmDescriptorId : Int) : Prop :=
  ¬ r.Closed ∧ processId % 2 ^ 32 < r.processes.length ∧
    hmDescriptorId < r.healthManagers.length ∧
    hmBoardName (processId % 2 ^ 32) ∉ r.names .blackboard

instance (r : Registry) (processId : Nat) (hmDescriptorId : Int) :
    Decidable (r.AcceptsRegistration processId hmDescriptorId) :=
  inferInstanceAs (Decidable (_ ∧ _ ∧ _ ∧ _))

/-- A registration refuses, ends in the assertion on its event, or goes on to link
    the new blackboard. -/
theorem register_cases (r : Registry) (processId : Nat) (hmDescriptorId : Int) :
    (∃ res, r.registerProcessWithHealthManager processId hmDescriptorId = .ok res ∧
        res.Refused r ∧ ¬ r.AcceptsRegistration processId hmDescriptorId) ∨
      r.registerProcessWithHealthManager processId hmDescriptorId = .error .assertion ∧
        hmBoardName (processId % 2 ^ 32) ∈ r.names .event ∨
      r.AcceptsRegistration processId hmDescriptorId ∧
        hmBoardName (processId % 2 ^ 32) ∉ r.names .event ∧
        r.registerProcessWithHealthManager processId hmDescriptorId =
          ((r.withBlackboard (hmBoardName (processId % 2 ^ 32)) maxHmResponseMessageSize).link
            processId hmDescriptorId r.blackboards.length).map
              fun linked => ⟨linked, .noError, some r.blackboards.length⟩ := by
  unfold registerProcessWithHealthManager
  by_cases hopen : r.Closed
  · rw [if_pos hopen]
    exact Or.inl ⟨_, rfl, refused_refuse (by decide), fun ha => ha.1 hopen⟩
  rw [if_neg hopen]
  split
  · rename_i hprocess
    exact Or.inl ⟨_, rfl, refused_refuse (by decide), fun ha => Nat.not_lt.mpr hprocess ha.2.1⟩
  rename_i hprocess
  split
  · rename_i hmanager
    exact Or.inl ⟨_, rfl, refused_refuse (by decide), fun ha => Int.not_lt.mpr hmanager ha.2.2.1⟩
  rename_i hmanager
  -- The response blackboard is made before the ids are used as indices.
  cases hboard : r.createBlackboard (hmBoardName (processId % 2 ^ 32)) maxHmResponseMessageSize with
  | error fault =>
    right
    left
    obtain ⟨rfl, hwhy⟩ := createBlackboard_error hboard
    exact ⟨rfl, hwhy.resolve_left hopen⟩
  | ok board =>
    obtain ⟨⟨hcode, hrefused⟩, hwhy⟩ | ⟨-, -, hname, hevent, rfl⟩ := createBlackboard_cases hboard
    · left
      refine ⟨⟨board.registry, board.code, none⟩, if_pos hcode, ?_, ?_⟩
      · rw [hrefused]
        exact refused_refuse hcode
      · rintro ⟨-, -, -, hname⟩
        obtain hmode | hsize | htaken := hwhy
        · exact hopen (Or.inr hmode)
        · exact absurd hsize (by decide)
        · exact hname htaken
    · right
      right
      exact ⟨⟨hopen, Nat.not_le.mp hprocess, Int.not_le.mp hmanager, hname⟩, hevent, rfl⟩

end Registry

end Arinc
