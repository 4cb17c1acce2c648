import Mathlib.Data.Finset.Option
import ArincEmulator.Lib.Windows
import ArincEmulator.ChannelOwnership
import ArincEmulator.ModuleScheduler
import ArincEmulator.QueueChannel
import ArincEmulator.SamplingWrite

/- A module at work. The module manager goes through the actions of its frames: it
   continues and stops the partitions and moves the channels around their windows. A
   partition that is not stopped uses its port objects in the meantime. The memory of
   the sampling ports and the message queues are shared, by the names of the ports; the
   ports of the manager and those of the partitions are objects over them. Whatever a
   partition creates its objects for, the services do not check it: that it uses its own
   ports is a condition on its calls (`Op.Own`). A write to a sampling port goes step by
   step, and the stop of its partition can fall between two of them.

   What is proved (`orderly_hyperperiods`): in the actions of any number of frames, each
   partition is continued when none is, and behind the stop, before anything is continued
   again, all the channels that have their source in it are moved. -/
namespace Arinc.Transport
open Runs Memory ModuleScheduler SamplingPacket ChannelWiring

/-! ## Channels over shared ports -/

/-- Values written back under names, one after the other. -/
def store {α : Type*} : List String → List α → (String → α) → String → α
  | name :: names, a :: values, f => store names values (Function.update f name a)
  | _, _, f => f

/-- The direction of a partition's port object. -/
def objectDirection : ChannelWiring.PortDirection → Direction
  | .source => .portSource
  | .destination => .portDest

/-- The object of a sampling port over the shared memory. -/
def samplingPort (direction : Direction) (memory : String → SamplingData) (d : PortDescriptor) :
    SamplingPort :=
  ⟨d.maxMessageSize, direction, true, memory d.name⟩

/-- The object of a queuing port over the message queue of its name. -/
def queuingPort (direction : Direction) (queues : String → QueuePort.PosixQueue)
    (d : PortDescriptor) : QueuePort.MessageQueue :=
  ⟨d.maxMessageSize, d.portAttribute, direction, true, fun _ => 0, queues d.name⟩

/-- A sampling channel as the manager has configured it, over the shared memory. -/
def samplingChannel (c : Channel) (dataBuffer : Nat → Byte) (memory : String → SamplingData) :
    SamplingChannel (String × Nat) :=
  ⟨c.initialized, c.source.map (samplingPort .portSourceDest memory),
    c.destinations.map (samplingPort .portSourceDest memory), c.senderMySocket,
    c.recvMySocket.isSome, c.maxSocketMessage, c.destinationUrlVector, dataBuffer⟩

/-- A queueing channel as the manager has configured it, over the message queues. -/
def queueChannel (c : Channel) (internalBuffer : Nat → Byte)
    (queues : String → QueuePort.PosixQueue) : QueuePort.QueueChannel (String × Nat) :=
  ⟨c.initialized, c.source.map (queuingPort .portSourceDest queues),
    c.destinations.map (queuingPort .portSourceDest queues), c.senderMySocket,
    c.recvMySocket.isSome, c.maxSizeOfMessage, c.maxSocketMessage, c.destinationUrlVector,
    internalBuffer⟩

/-! ## The module -/

/-- The module: what the manager has still to do, the partitions that are not stopped,
    the shared ports, the write that each partition is at on each port, the buffers of
    the channels, and the logs of what the partitions put into their ports and took out
    of them. -/
structure State where
  remaining : List Action
  running : Finset Nat
  sampling : String → SamplingData
  writing : Nat × String → Option Writing
  queueing : String → QueuePort.PosixQueue
  buffers : Kind → String → Nat → Byte
  samplingLog : List (Windows.Entry Nat String SamplingData)
  queueingLog : List (Windows.Entry Nat String (List Byte))

/-- The steps: the next action of the manager, with the sends that go through and the
    datagrams pending at the socket of a channel it moves; a step of a write to a
    sampling port; and the services on queuing ports, which are one step each. The
    descriptor is what the partition has created its port object with. -/
inductive Op where
  | manager (sends : Nat → Bool) (pending : List (List Byte)) (clock : Nat → Nat → ClockTime)
  | write (i : Nat) (d : PortDescriptor) (step : WriteStep)
  | send (i : Nat) (d : PortDescriptor) (now : ClockTime) (msgPtr : Nat → Byte)
      (length timeOut : Int)
  | receive (i : Nat) (d : PortDescriptor) (now : ClockTime) (msgPtr : Nat → Byte) (timeOut : Int)

section
variable (m : ChannelWiring.ModuleManager)

/-- `MOVE_MESSAGES` of the sampling channel of a name. -/
def moveSampling (sends : Nat → Bool) (pending : List (List Byte)) (name : String) (s : State) :
    Option State :=
  (m.mapOfChannels .sampling name).bind fun c =>
    ((samplingChannel c (s.buffers .sampling name) s.sampling).moveMessagesOver sends
        pending).map fun moved =>
        { s with
          sampling := store (c.destinations.map (·.name))
            (moved.channel.destinationPortVector.map (·.sharedMemory)) s.sampling
          buffers := Function.update s.buffers .sampling
            (Function.update (s.buffers .sampling) name moved.channel.dataBuffer) }

/-- `MOVE_MESSAGES` of the queueing channel of a name. -/
def moveQueueing (sends : Nat → Bool) (pending : List (List Byte))
    (clock : Nat → Nat → ClockTime) (name : String) (s : State) : Option State :=
  (m.mapOfChannels .queueing name).bind fun c =>
    ((queueChannel c (s.buffers .queueing name) s.queueing).moveMessagesOver sends clock
        pending).map fun moved =>
        { s with
          queueing := store (c.source.toList.map (·.name) ++ c.destinations.map (·.name))
            (moved.channel.sourceQueue.toList.map (·.mq) ++
              moved.channel.destinationQueueVector.map (·.mq)) s.queueing
          buffers := Function.update s.buffers .queueing
            (Function.update (s.buffers .queueing) name moved.channel.internalBuffer) }

/-- An action of the manager. Time passes elsewhere, and the token of a network
    partition goes to a queue of its own. The exception of a send that fails ends the
    run. -/
def perform (sends : Nat → Bool) (pending : List (List Byte)) (clock : Nat → Nat → ClockTime)
    (s : State) : Action → Option State
  | .sleepUntil _ => some s
  | .sendToken _ => some s
  | .moveSamplingChannel name => moveSampling m sends pending name s
  | .moveQueueChannel name => moveQueueing m sends pending clock name s
  | .sigcont i => some { s with running := insert i s.running }
  | .sigstop i =>
    some { s with
      running := s.running.erase i
      samplingLog := .close i :: s.samplingLog
      queueingLog := .close i :: s.queueingLog }

end

/-- A step of a `WRITE_SAMPLING_MESSAGE` by partition `i`. -/
def write (i : Nat) (d : PortDescriptor) (step : WriteStep) (s : State) : Option State :=
  (writeStep (samplingPort (objectDirection d.portDirection) s.sampling d)
      ⟨s.sampling d.name, s.writing (i, d.name)⟩ step).map fun r =>
    { s with
      sampling := Function.update s.sampling d.name r.1.sharedMemory
      writing := Function.update s.writing (i, d.name) r.1.writing
      samplingLog := (r.2.toList.map fun message => .put d.name message) ++ s.samplingLog }

/-- `SEND_QUEUING_MESSAGE`. A call that has to wait is a step when there is room, or its
    time is over. -/
def send (d : PortDescriptor) (now : ClockTime) (msgPtr : Nat → Byte) (length timeOut : Int)
    (s : State) : Option State :=
  ((queuingPort (objectDirection d.portDirection) s.queueing d).sendMessage now msgPtr length
      timeOut).map fun sent =>
    { s with
      queueing := Function.update s.queueing d.name sent.2.mq
      queueingLog :=
        if sent.1 = .noError then
          .put d.name (read msgPtr 0 (QueuePort.MessageQueue.sizeT length)) :: s.queueingLog
        else s.queueingLog }

/-- `RECEIVE_QUEUING_MESSAGE`. A call that has to wait is a step when there is a message,
    or its time is over. -/
def receive (d : PortDescriptor) (now : ClockTime) (msgPtr : Nat → Byte) (timeOut : Int)
    (s : State) : Option State :=
  ((queuingPort (objectDirection d.portDirection) s.queueing d).receiveMessage now msgPtr
      timeOut).map fun received =>
    { s with
      queueing := Function.update s.queueing d.name received.queue.mq
      queueingLog :=
        if received.returnCode = .noError then
          .take d.name (read received.msgPtr 0 (received.length.getD 0).toNat) :: s.queueingLog
        else s.queueingLog }

/-- One step. A stopped partition does nothing. -/
def step (m : ChannelWiring.ModuleManager) (s : State) : Op → Option State
  | .manager sends pending clock =>
    match s.remaining with
    | [] => none
    | a :: rest => perform m sends pending clock { s with remaining := rest } a
  | .write i d step => if i ∈ s.running then write i d step s else none
  | .send i d now msgPtr length timeOut =>
    if i ∈ s.running then send d now msgPtr length timeOut s else none
  | .receive i d now msgPtr timeOut =>
    if i ∈ s.running then receive d now msgPtr timeOut s else none

/-- Whether a step closes a window: the next action of the manager is a `SIGSTOP`. -/
def Op.closes (op : Op) (s : State) : Bool :=
  match op, s.remaining with
  | .manager _ _ _, .sigstop _ :: _ => true
  | _, _ => false

/-! ## The order of the actions -/

/-- The action that moves a channel of a kind. -/
def moveAction : Kind → String → Action
  | .sampling => .moveSamplingChannel
  | .queueing => .moveQueueChannel

/-- What is still to do before a partition is continued. -/
def due (as : List Action) : List Action :=
  as.takeWhile fun
    | .sigcont _ => false
    | _ => true

/-- The channels with their source in a partition that the manager runs are to be moved
    before a partition is continued. -/
def Owed (m : ChannelWiring.ModuleManager) (i : Nat) (as : List Action) : Prop :=
  ∀ p, m.partitionVector[i]? = some p → p.isNetworkPartition = false →
    ∀ kind, ∀ name ∈ p.channelSourceVector kind, moveAction kind name ∈ due as

/-- The order of the actions from a point on at which a partition is continued, or
    none is. -/
inductive Orderly (m : ChannelWiring.ModuleManager) : Option Nat → List Action → Prop where
  | done : Orderly m none []
  | sleepUntil {r : Option Nat} {deadline : Int} {as : List Action} (h : Orderly m r as) :
      Orderly m r (.sleepUntil deadline :: as)
  | sendToken {queue : String} {as : List Action} (h : Orderly m none as) :
      Orderly m none (.sendToken queue :: as)
  | move {kind : Kind} {name : String} {as : List Action} (h : Orderly m none as) :
      Orderly m none (moveAction kind name :: as)
  | sigcont {i : Nat} {as : List Action} (h : Orderly m (some i) as) :
      Orderly m none (.sigcont i :: as)
  | sigstop {i : Nat} {as : List Action} (howed : Owed m i as) (h : Orderly m none as) :
      Orderly m (some i) (.sigstop i :: as)

/-- What the scheduler needs besides the partitions and their channels. -/
structure Timing where
  schedulingVector : List Schedule.SchedulingTuple
  majorFrameSize : Int
  isMaxNumberOfFramesSet : Bool
  maxNumberOfFrames : Int
  configurationQueue : Nat → String
  configurationQueues : String → Bool

/-- `MODULE_MANAGER` as its scheduler sees it. -/
def scheduler (m : ChannelWiring.ModuleManager) (timing : Timing) :
    ModuleScheduler.ModuleManager where
  partitionVector i :=
    match m.partitionVector[i]? with
    | none => ⟨false, [], [], [], [], timing.configurationQueue i⟩
    | some p =>
      ⟨p.isNetworkPartition, p.channelInterModuleDstVector .queueing,
        p.channelInterModuleDstVector .sampling, p.channelSourceVector .queueing,
        p.channelSourceVector .sampling, timing.configurationQueue i⟩
  schedulingVector := timing.schedulingVector
  majorFrameSize := timing.majorFrameSize
  isMaxNumberOfFramesSet := timing.isMaxNumberOfFramesSet
  maxNumberOfFrames := timing.maxNumberOfFrames
  configurationQueues := timing.configurationQueues

@[simp] theorem due_sigcont (i : Nat) (as : List Action) : due (.sigcont i :: as) = [] := rfl

@[simp] theorem due_move (kind : Kind) (name : String) (as : List Action) :
    due (moveAction kind name :: as) = moveAction kind name :: due as := by
  cases kind <;> rfl

theorem moveAction_inj {kind kind' : Kind} {name name' : String} :
    moveAction kind name = moveAction kind' name' ↔ kind = kind' ∧ name = name' := by
  cases kind <;> cases kind' <;> simp [moveAction]

section
variable {m : ChannelWiring.ModuleManager} {as bs : List Action}

theorem Orderly.moves (kind : Kind) (names : List String) (h : Orderly m none as) :
    Orderly m none (names.map (moveAction kind) ++ as) := by
  induction names with
  | nil => exact h
  | cons name names ih => exact .move ih

theorem due_moves (kind : Kind) (names : List String) (as : List Action) :
    due (names.map (moveAction kind) ++ as) = names.map (moveAction kind) ++ due as := by
  induction names with
  | nil => rfl
  | cons name names ih => rw [List.map_cons, List.cons_append, due_move, ih, List.cons_append]

/-- A window keeps the order: what it moves behind the stop is all that is owed. -/
theorem orderly_windowActions (m : ChannelWiring.ModuleManager) (timing : Timing) (start : Int)
    (w : Schedule.SchedulingTuple) (h : Orderly m none as) :
    Orderly m none (windowActions (scheduler m timing) start w ++ as) := by
  cases hp : m.partitionVector[w.partitionIndex]? with
  | none =>
    have howed : Owed m w.partitionIndex as := by
      intro p hp'
      rw [hp] at hp'
      cases hp'
    simp only [windowActions, scheduler, hp, List.map_nil, Bool.false_and, Bool.false_eq_true,
      if_false, List.append_nil, List.cons_append, List.nil_append]
    exact .sleepUntil (.sigcont (.sleepUntil (.sigstop howed h)))
  | some p =>
    by_cases hnet : p.isNetworkPartition = true
    · -- a network partition moves its channels itself
      have howed : Owed m w.partitionIndex as := by
        intro q hq hregular
        rw [hp] at hq
        rw [← Option.some.inj hq, hnet] at hregular
        cases hregular
      have hwindow : Orderly m none (.sigcont w.partitionIndex ::
          .sleepUntil (start + w.finish) :: .sigstop w.partitionIndex :: as) :=
        .sigcont (.sleepUntil (.sigstop howed h))
      simp only [windowActions, scheduler, hp, hnet, if_true, Bool.true_and, List.append_nil,
        List.cons_append, List.nil_append]
      split
      · exact .sleepUntil (.sendToken hwindow)
      · exact .sleepUntil hwindow
    · have hregular : p.isNetworkPartition = false := Bool.eq_false_iff.mpr hnet
      have howed : Owed m w.partitionIndex
          ((p.channelSourceVector .queueing).map (moveAction .queueing) ++
            ((p.channelSourceVector .sampling).map (moveAction .sampling) ++ as)) := by
        intro q hq _ kind name hname
        rw [hp] at hq
        obtain rfl := Option.some.inj hq
        rw [due_moves, due_moves]
        cases kind with
        | sampling =>
          exact List.mem_append_right _ (List.mem_append_left _ (List.mem_map_of_mem hname))
        | queueing => exact List.mem_append_left _ (List.mem_map_of_mem hname)
      have hafter := Orderly.sigstop howed
        (Orderly.moves .queueing (p.channelSourceVector .queueing)
          (Orderly.moves .sampling (p.channelSourceVector .sampling) h))
      have hopen : Orderly m none (.sigcont w.partitionIndex ::
          .sleepUntil (start + w.finish) :: .sigstop w.partitionIndex ::
          ((p.channelSourceVector .queueing).map (moveAction .queueing) ++
            ((p.channelSourceVector .sampling).map (moveAction .sampling) ++ as))) :=
        .sigcont (.sleepUntil hafter)
      have hwindow := Orderly.moves .queueing (p.channelInterModuleDstVector .queueing)
        (Orderly.moves .sampling (p.channelInterModuleDstVector .sampling) hopen)
      simp only [windowActions, scheduler, hp, hregular, Bool.false_and, Bool.false_eq_true,
        if_false, List.append_nil, List.cons_append, List.nil_append, List.append_assoc]
      exact .sleepUntil hwindow

theorem orderly_frameActions (m : ChannelWiring.ModuleManager) (timing : Timing) (start : Int)
    (h : Orderly m none as) : Orderly m none (frameActions (scheduler m timing) start ++ as) := by
  have hwindows : ∀ ws : List Schedule.SchedulingTuple,
      Orderly m none (ws.flatMap (windowActions (scheduler m timing) start) ++
        .sleepUntil (start + (scheduler m timing).majorFrameSize) :: as) := by
    intro ws
    induction ws with
    | nil => exact .sleepUntil h
    | cons w ws ih =>
      rw [List.flatMap_cons, List.append_assoc]
      exact orderly_windowActions m timing start w ih
  rw [frameActions, List.append_assoc]
  exact hwindows _

/-- **The actions of any number of frames are in order.** -/
theorem orderly_hyperperiods (m : ChannelWiring.ModuleManager) (timing : Timing) (start : Int)
    (frames : Nat) : Orderly m none (hyperperiods (scheduler m timing) start frames) := by
  induction frames generalizing start with
  | zero => exact .done
  | succ frames ih =>
    rw [hyperperiods_succ]
    exact orderly_frameActions m timing start (ih _)

end

/-! ## What a step does -/

section
variable {α β : Type*}

theorem store_of_notMem {names : List String} {values : List α} {f : String → α} {k : String}
    (h : k ∉ names) : store names values f k = f k := by
  induction names generalizing values f with
  | nil => rfl
  | cons name names ih =>
    obtain ⟨hname, hnames⟩ := not_or.mp (List.mem_cons.not.mp h)
    cases values with
    | nil => rfl
    | cons a values => rw [store, ih hnames, Function.update_of_ne hname]

theorem store_map {name : β → String} {g : β → α} {ds : List β} {f : String → α}
    (hnodup : (ds.map name).Nodup) {d : β} (hd : d ∈ ds) :
    store (ds.map name) (ds.map g) f (name d) = g d := by
  induction ds generalizing f with
  | nil => cases hd
  | cons e ds ih =>
    obtain ⟨hnew, hrest⟩ := List.nodup_cons.mp hnodup
    rw [List.map_cons, List.map_cons, store]
    obtain rfl | hd := List.mem_cons.mp hd
    · rw [store_of_notMem hnew, Function.update_self]
    · exact ih hrest hd

end

section
variable {m : ChannelWiring.ModuleManager} {s t : State}

/-- A step of a write is refused, or it carries the write on, or it ends it and puts the
    message into the port. -/
theorem write_cases {i : Nat} {d : PortDescriptor} {w : WriteStep}
    (h : step m s (.write i d w) = some t) :
    i ∈ s.running ∧ (t = s ∨
      (∃ memory w, t = { s with
          sampling := Function.update s.sampling d.name memory
          writing := Function.update s.writing (i, d.name) (some w) } ∧
        ((∀ w', s.writing (i, d.name) = some w' → w'.Progress (s.sampling d.name)) →
          w.Progress memory)) ∨
      ∃ message, s.writing (i, d.name) = some ⟨message, some message.count⟩ ∧ t = { s with
        writing := Function.update s.writing (i, d.name) none
        samplingLog := .put d.name message :: s.samplingLog }) := by
  obtain ⟨hi, h⟩ := Option.ite_none_right_eq_some.mp h
  obtain ⟨r, hstep, rfl⟩ := Option.map_eq_some_iff.mp h
  refine ⟨hi, ?_⟩
  obtain rfl | ⟨w, hw, hnone, hprogress⟩ | ⟨message, hw, rfl⟩ := writeStep_cases hstep
  · left
    simp
  · refine Or.inr (Or.inl ⟨r.1.sharedMemory, w, ?_, hprogress⟩)
    simp [hw, hnone]
  · refine Or.inr (Or.inr ⟨message, hw, ?_⟩)
    simp

theorem send_cases {i : Nat} {d : PortDescriptor} {now : ClockTime} {msgPtr : Nat → Byte}
    {length timeOut : Int} (h : step m s (.send i d now msgPtr length timeOut) = some t) :
    i ∈ s.running ∧ (t = s ∨ ∃ (mq : QueuePort.PosixQueue) (msg : List Byte),
      mq.msgsize = (s.queueing d.name).msgsize ∧ mq.capacity = (s.queueing d.name).capacity ∧
      mq.elements = (s.queueing d.name).elements ++ [msg] ∧
      t = { s with
        queueing := Function.update s.queueing d.name mq
        queueingLog := .put d.name msg :: s.queueingLog }) := by
  obtain ⟨hi, h⟩ := Option.ite_none_right_eq_some.mp h
  obtain ⟨⟨code, r⟩, hsent, rfl⟩ := Option.map_eq_some_iff.mp h
  refine ⟨hi, ?_⟩
  obtain ⟨hcode, rfl⟩ | ⟨rfl, hmsgsize, hcapacity, helements⟩ :=
    QueuePort.MessageQueue.sendMessage_cases hsent
  · left
    simp [queuingPort, hcode]
  · exact Or.inr ⟨r.mq, _, hmsgsize, hcapacity, helements, rfl⟩

theorem receive_cases {i : Nat} {d : PortDescriptor} {now : ClockTime} {msgPtr : Nat → Byte}
    {timeOut : Int} (h : step m s (.receive i d now msgPtr timeOut) = some t) :
    i ∈ s.running ∧ (t = s ∨ ∃ (mq : QueuePort.PosixQueue) (msg : List Byte),
      mq.msgsize = (s.queueing d.name).msgsize ∧ mq.capacity = (s.queueing d.name).capacity ∧
      (s.queueing d.name).elements = msg :: mq.elements ∧
      t = { s with
        queueing := Function.update s.queueing d.name mq
        queueingLog := .take d.name msg :: s.queueingLog }) := by
  obtain ⟨hi, h⟩ := Option.ite_none_right_eq_some.mp h
  obtain ⟨r, hreceived, rfl⟩ := Option.map_eq_some_iff.mp h
  refine ⟨hi, ?_⟩
  obtain ⟨hcode, hqueue⟩ | ⟨hcode, hmsgsize, hcapacity, msg, hlength, hread, helements⟩ :=
    QueuePort.MessageQueue.receiveMessage_cases hreceived
  · left
    simp [queuingPort, hcode, hqueue]
  · refine Or.inr ⟨r.queue.mq, msg, hmsgsize, hcapacity, helements, ?_⟩
    simp only [hcode, if_true, hlength, Option.getD_some, Int.toNat_natCast, hread]

theorem manager_cases {sends : Nat → Bool} {pending : List (List Byte)}
    {clock : Nat → Nat → ClockTime} (h : step m s (.manager sends pending clock) = some t) :
    ∃ a rest, s.remaining = a :: rest ∧
      perform m sends pending clock { s with remaining := rest } a = some t := by
  rw [step] at h
  split at h
  · cases h
  · rename_i a rest hremaining
    exact ⟨a, rest, hremaining, h⟩

theorem moveSampling_cases {sends : Nat → Bool} {pending : List (List Byte)} {name : String}
    (h : moveSampling m sends pending name s = some t) :
    ∃ c moved, m.mapOfChannels .sampling name = some c ∧
      (samplingChannel c (s.buffers .sampling name) s.sampling).moveMessages pending =
        some moved ∧
      t.sampling = store (c.destinations.map (·.name))
        (moved.channel.destinationPortVector.map (·.sharedMemory)) s.sampling ∧
      t.remaining = s.remaining ∧ t.running = s.running ∧ t.queueing = s.queueing ∧
      t.samplingLog = s.samplingLog ∧ t.queueingLog = s.queueingLog ∧ t.writing = s.writing := by
  obtain ⟨c, hc, h⟩ := Option.bind_eq_some_iff.mp h
  obtain ⟨moved, hmoved, rfl⟩ := Option.map_eq_some_iff.mp h
  exact ⟨c, moved, hc, SamplingChannel.moveMessages_of_over hmoved, rfl, rfl, rfl, rfl, rfl, rfl,
    rfl⟩

theorem moveQueueing_cases {sends : Nat → Bool} {pending : List (List Byte)}
    {clock : Nat → Nat → ClockTime} {name : String} (h : moveQueueing m sends pending clock name s = some t) :
    ∃ c moved, m.mapOfChannels .queueing name = some c ∧
      (queueChannel c (s.buffers .queueing name) s.queueing).moveMessages clock pending =
        some moved ∧
      t.queueing = store (c.source.toList.map (·.name) ++ c.destinations.map (·.name))
        (moved.channel.sourceQueue.toList.map (·.mq) ++
          moved.channel.destinationQueueVector.map (·.mq)) s.queueing ∧
      t.remaining = s.remaining ∧ t.running = s.running ∧ t.sampling = s.sampling ∧
      t.samplingLog = s.samplingLog ∧ t.queueingLog = s.queueingLog ∧ t.writing = s.writing := by
  obtain ⟨c, hc, h⟩ := Option.bind_eq_some_iff.mp h
  obtain ⟨moved, hmoved, rfl⟩ := Option.map_eq_some_iff.mp h
  exact ⟨c, moved, hc, QueuePort.QueueChannel.moveMessages_of_over hmoved, rfl, rfl, rfl, rfl, rfl,
    rfl, rfl⟩

/-! ## Windows -/

/-- The manager follows the order, and the partition that is not stopped is the one
    the order has continued. -/
def InOrder (m : ChannelWiring.ModuleManager) (s : State) : Prop :=
  ∃ r : Option Nat, s.running = r.toFinset ∧ Orderly m r s.remaining

/-- What the manager does next: it lets time pass, moves a channel or continues a
    partition while all are stopped, or stops the one that is not. -/
theorem InOrder.manager_cases {sends : Nat → Bool} {pending : List (List Byte)}
    {clock : Nat → Nat → ClockTime} (hs : InOrder m s)
    (h : step m s (.manager sends pending clock) = some t) :
    (∃ a rest, s.remaining = a :: rest ∧ (∀ kind name, a ≠ moveAction kind name) ∧
      due s.remaining = a :: due rest ∧ t = { s with remaining := rest }) ∨
    (∃ kind name rest, s.running = ∅ ∧ s.remaining = moveAction kind name :: rest ∧
      perform m sends pending clock { s with remaining := rest } (moveAction kind name) = some t) ∨
    (∃ i rest, s.running = ∅ ∧ s.remaining = .sigcont i :: rest ∧
      t = { s with remaining := rest, running := {i} }) ∨
    ∃ i rest, s.running = {i} ∧ s.remaining = .sigstop i :: rest ∧ Owed m i rest ∧
      t = { s with
        remaining := rest
        running := ∅
        samplingLog := .close i :: s.samplingLog
        queueingLog := .close i :: s.queueingLog } := by
  obtain ⟨r, hrunning, horder⟩ := hs
  obtain ⟨a, rest, hremaining, hperform⟩ := Transport.manager_cases h
  rw [hremaining] at horder ⊢
  cases horder with
  | sleepUntil _ =>
    obtain rfl := Option.some.inj hperform
    exact Or.inl ⟨_, rest, rfl, fun kind name => by cases kind <;> simp [moveAction], rfl, rfl⟩
  | sendToken _ =>
    obtain rfl := Option.some.inj hperform
    exact Or.inl ⟨_, rest, rfl, fun kind name => by cases kind <;> simp [moveAction], rfl, rfl⟩
  | move _ => exact Or.inr (Or.inl ⟨_, _, rest, hrunning, rfl, hperform⟩)
  | sigcont _ =>
    rename_i i _
    obtain rfl := Option.some.inj hperform
    refine Or.inr (Or.inr (Or.inl ⟨i, rest, hrunning, rfl, ?_⟩))
    simp [hrunning]
  | sigstop howed _ =>
    rename_i i _
    obtain rfl := Option.some.inj hperform
    refine Or.inr (Or.inr (Or.inr ⟨i, rest, ?_, rfl, howed, ?_⟩))
    · simp [hrunning]
    · simp [hrunning]

theorem perform_move {sends : Nat → Bool} {pending : List (List Byte)}
    {clock : Nat → Nat → ClockTime} {kind : Kind} {name : String}
    (h : perform m sends pending clock s (moveAction kind name) = some t) :
    t.remaining = s.remaining ∧ t.running = s.running ∧ t.samplingLog = s.samplingLog ∧
      t.queueingLog = s.queueingLog ∧ t.writing = s.writing := by
  cases kind with
  | sampling =>
    obtain ⟨c, moved, -, -, -, hremaining, hrunning, -, hkept⟩ := moveSampling_cases h
    exact ⟨hremaining, hrunning, hkept⟩
  | queueing =>
    obtain ⟨c, moved, -, -, -, hremaining, hrunning, -, hkept⟩ := moveQueueing_cases h
    exact ⟨hremaining, hrunning, hkept⟩

theorem service_step {op : Op} (hop : ∀ sends pending clock, op ≠ .manager sends pending clock)
    (h : step m s op = some t) : t.remaining = s.remaining ∧ t.running = s.running := by
  cases op with
  | manager sends pending clock => exact absurd rfl (hop sends pending clock)
  | write i d w =>
    obtain ⟨-, rfl | ⟨memory, w, rfl, -⟩ | ⟨message, -, rfl⟩⟩ := write_cases h <;> exact ⟨rfl, rfl⟩
  | send i d now msgPtr length timeOut =>
    obtain ⟨-, rfl | ⟨mq, msg, -, -, -, rfl⟩⟩ := send_cases h <;> exact ⟨rfl, rfl⟩
  | receive i d now msgPtr timeOut =>
    obtain ⟨-, rfl | ⟨mq, msg, -, -, -, rfl⟩⟩ := receive_cases h <;> exact ⟨rfl, rfl⟩

theorem inOrder_step {op : Op} (hs : InOrder m s) (h : step m s op = some t) : InOrder m t := by
  by_cases hop : ∀ sends pending clock, op ≠ .manager sends pending clock
  · obtain ⟨hremaining, hrunning⟩ := service_step hop h
    rw [InOrder, hremaining, hrunning]
    exact hs
  -- Only the manager takes actions off its list, and the list says whose window is open.
  · push Not at hop
    obtain ⟨sends, pending, clock, rfl⟩ := hop
    obtain ⟨r, hrunning, horder⟩ := hs
    obtain ⟨a, rest, hremaining, hperform⟩ := Transport.manager_cases h
    rw [hremaining] at horder
    cases horder with
    | sleepUntil horder =>
      obtain rfl := Option.some.inj hperform
      exact ⟨r, hrunning, horder⟩
    | sendToken horder =>
      obtain rfl := Option.some.inj hperform
      exact ⟨none, hrunning, horder⟩
    | move horder =>
      obtain ⟨hrest, hkept, -⟩ := perform_move hperform
      refine ⟨none, hkept.trans hrunning, ?_⟩
      rw [hrest]
      exact horder
    | sigcont horder =>
      rename_i i
      obtain rfl := Option.some.inj hperform
      refine ⟨some i, ?_, horder⟩
      simp [hrunning]
    | sigstop _ horder =>
      obtain rfl := Option.some.inj hperform
      refine ⟨none, ?_, horder⟩
      simp [hrunning]

end

/-! ## The layout of a module -/

/-- Partition `i` has a port of the direction. -/
def HasPort (m : ChannelWiring.ModuleManager) (kind : Kind)
    (direction : ChannelWiring.PortDirection) (i : Nat) (d : PortDescriptor) : Prop :=
  ∃ p, m.partitionVector[i]? = some p ∧ d ∈ p.ports kind ∧ d.portDirection = direction

/-- The ports of a kind have different names; the channels go from source ports to
    destination ports; and no two have a port in common. -/
structure Layout (m : ChannelWiring.ModuleManager) : Prop where
  unique : ∀ {kind direction direction' i j d e}, HasPort m kind direction i d →
    HasPort m kind direction' j e → d.name = e.name → i = j ∧ d = e
  source : ∀ {kind name c p}, m.mapOfChannels kind name = some c → c.source = some p →
    ∃ i, HasPort m kind .source i p
  destination : ∀ {kind name c d}, m.mapOfChannels kind name = some c → d ∈ c.destinations →
    ∃ j, HasPort m kind .destination j d
  nodup : ∀ {kind name c}, m.mapOfChannels kind name = some c → (c.destinations.map (·.name)).Nodup
  apart : ∀ {kind name name' c c'}, m.mapOfChannels kind name = some c →
    m.mapOfChannels kind name' = some c' → name ≠ name' →
      (∀ d ∈ c.destinations, ∀ d' ∈ c'.destinations, d.name ≠ d'.name) ∧
      ∀ p p', c.source = some p → c'.source = some p' → p.name ≠ p'.name

/-- A channel of the module from a port of partition `i`, whose destinations take the
    messages of that port. -/
structure Carries (m : ChannelWiring.ModuleManager) (kind : Kind) (name : String) (i : Nat)
    (c : Channel) (source : PortDescriptor) : Prop where
  stored : m.mapOfChannels kind name = some c
  initialized : c.initialized = true
  receiver : c.recvMySocket = none
  hasSource : c.source = some source
  owner : HasPort m kind .source i source
  listed : ∃ p, m.partitionVector[i]? = some p ∧ p.isNetworkPartition = false ∧
    name ∈ p.channelSourceVector kind
  allows : ∀ d ∈ c.destinations, kind.allows source.maxMessageSize d.maxMessageSize = true

/-- The partition calls a service on a port of its own: the descriptor of its object is
    that of a port it is configured with, in the direction of the service. -/
def Op.Own (m : ChannelWiring.ModuleManager) : Op → Prop
  | .manager _ _ _ => True
  | .write i d _ => HasPort m .sampling .source i d
  | .send i d _ _ _ _ => HasPort m .queueing .source i d
  | .receive i d _ _ _ => HasPort m .queueing .destination i d

/-- The module before its first frame: all partitions are stopped, no write has begun
    and the logs are empty. -/
structure Start (m : ChannelWiring.ModuleManager) (timing : Timing) (start : Int) (frames : Nat)
    (s : State) : Prop where
  remaining : s.remaining = hyperperiods (scheduler m timing) start frames
  running : s.running = ∅
  writing : ∀ key, s.writing key = none
  samplingLog : s.samplingLog = []
  queueingLog : s.queueingLog = []

section
variable {m : ChannelWiring.ModuleManager} {s t : State}

theorem Start.inOrder {timing : Timing} {start : Int} {frames : Nat}
    (h : Start m timing start frames s) : InOrder m s := by
  refine ⟨none, h.running, ?_⟩
  rw [h.remaining]
  exact orderly_hyperperiods m timing start frames

theorem Layout.source_ne_destination (hm : Layout m) {kind : Kind} {i j : Nat}
    {d e : PortDescriptor} (hd : HasPort m kind .source i d) (he : HasPort m kind .destination j e) :
    d.name ≠ e.name := by
  intro hname
  obtain ⟨-, rfl⟩ := hm.unique hd he hname
  obtain ⟨_, -, -, hsource⟩ := hd
  obtain ⟨_, -, -, hdestination⟩ := he
  rw [hsource] at hdestination
  cases hdestination

theorem Carries.due {kind : Kind} {name : String} {i : Nat} {c : Channel} {source : PortDescriptor}
    (hc : Carries m kind name i c source) {as : List Action} (howed : Owed m i as) :
    moveAction kind name ∈ due as := by
  obtain ⟨p, hp, hregular, hlisted⟩ := hc.listed
  exact howed p hp hregular kind name hlisted

end

/-! ## A module -/

/-- A partition that sends through a channel of each kind, and one that receives. -/
def senderReceiver : Configuration where
  networkPartitions := []
  kindOf := fun _ => .sampling
  partitions :=
    [("sender", fun
        | .sampling => [⟨"out", 4, 100, .source⟩]
        | .queueing => [⟨"outQueue", 4, 2, .source⟩]),
      ("receiver", fun
        | .sampling => [⟨"in", 4, 100, .destination⟩]
        | .queueing => [⟨"inQueue", 4, 2, .destination⟩])]
  proxyPorts := []
  channelMap := [("queued", ⟨"outQueue", ["inQueue"]⟩), ("sampled", ⟨"out", ["in"]⟩)]

theorem senderReceiver_isSome :
    (senderReceiver.createPartitionVector (fun _ _ => .noError) .moduleManager).isSome = true := by
  decide

/-- The module that is created from it. -/
def senderReceiverModule : ChannelWiring.ModuleManager := Option.get _ senderReceiver_isSome

/-- A window for each of the two. -/
def twoWindows : Timing :=
  ⟨[⟨0, 0, 10⟩, ⟨1, 10, 10⟩], 20, false, 0, fun _ => "", fun _ => false⟩

/-- A queue for two messages of four bytes. -/
def emptyQueue : QueuePort.PosixQueue := QueuePort.QueueChannel.emptyPort.mq

/-- The module before its frames, its ports empty. -/
def allStopped (frames : Nat) : State :=
  ⟨hyperperiods (scheduler senderReceiverModule twoWindows) 0 frames, ∅,
    fun _ => ⟨0, 0, fun _ => 0⟩, fun _ => none, fun _ => emptyQueue, fun _ _ _ => 0, [], []⟩

theorem allStopped_start (frames : Nat) :
    Start senderReceiverModule twoWindows 0 frames (allStopped frames) :=
  ⟨rfl, rfl, fun _ => rfl, rfl, rfl⟩

theorem epoch_normalized : (⟨0, 0⟩ : Timespec).Normalized := by decide

/-- The next action of the manager. -/
def next : Op := .manager (fun _ => true) [] fun _ _ => ⟨⟨0, 0⟩, epoch_normalized⟩

theorem seven_nonneg : 0 ≤ (7 : BitVec 64).toInt := by decide

/-- The steps of a write of three bytes by the sender. -/
def writeThree : List Op :=
  [.start ⟨7, seven_nonneg⟩ (ofList [65, 67, 77] 0) 3, .messageSize, .memcpy, .memcpy, .memcpy,
    .finish].map (.write 0 ⟨"out", 4, 100, .source⟩)

/-- The sender writes and sends three bytes in its window, and the manager goes on to
    the window of the receiver. -/
def untilReceiver : List Op :=
  [next, next] ++ writeThree ++
    [.send 0 ⟨"outQueue", 4, 2, .source⟩ ⟨⟨0, 0⟩, epoch_normalized⟩ (ofList [65, 67, 77] 0) 3 0] ++
    List.replicate 7 next

/-- The receiver takes the message. -/
def takeMessage : Op :=
  .receive 1 ⟨"inQueue", 4, 2, .destination⟩ ⟨⟨0, 0⟩, epoch_normalized⟩ (fun _ => 0) 0

theorem senderReceiver_own :
    ∀ op ∈ untilReceiver ++ [takeMessage], op.Own senderReceiverModule := by
  have hout : HasPort senderReceiverModule .sampling .source 0 ⟨"out", 4, 100, .source⟩ :=
    ⟨_, rfl, List.mem_singleton.mpr rfl, rfl⟩
  have houtQueue : HasPort senderReceiverModule .queueing .source 0 ⟨"outQueue", 4, 2, .source⟩ :=
    ⟨_, rfl, List.mem_singleton.mpr rfl, rfl⟩
  have hinQueue :
      HasPort senderReceiverModule .queueing .destination 1 ⟨"inQueue", 4, 2, .destination⟩ :=
    ⟨_, rfl, List.mem_singleton.mpr rfl, rfl⟩
  simp [untilReceiver, writeThree, takeMessage, next, Op.Own, or_imp, forall_and, hout, houtQueue,
    hinQueue]

end Arinc.Transport
