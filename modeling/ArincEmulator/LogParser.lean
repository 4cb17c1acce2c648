import Mathlib.Logic.Function.Basic
import ArincEmulator.Lib.Runs
import ArincEmulator.LogEvent

/- The log parser (`log_parser.py`): it reads a log line by line, gives every event an
   identifier and a cause, and at the end ties the health-management events to one
   another. The objects are on a heap, which the lists of the parser point into: an
   identifier or a cause that is assigned later is seen through every reference.

   An event of a line may have an extra event: a return from a method that was invoked,
   the order of a manager to start or stop, or the effect of a fault that is injected. The
   two are stored one after the other, the extra one first.

   A log is accepted when nothing raises: every line has four fields and a time, and a
   start has a source that was created. -/
namespace Arinc.LogParser
open Strings

/-- `LogEvent.processes`: names and module identifiers. -/
abbrev Processes := List (Text × Int)

/-- `processes[name] = id`. -/
def Processes.assign (processes : Processes) (name : Text) (id : Int) : Processes :=
  processes.filter (fun entry => decide (entry.1 ≠ name)) ++ [(name, id)]

/-- The parser, with the data its events share. -/
structure Parser where
  heap : Nat → LogEvent
  /-- The next free place of the heap. -/
  next : Nat
  processes : Processes
  invokeEvents : List Nat
  hmEvents : List Nat
  dvDetected : Bool
  publishEvent : Option Nat
  eventID : Int
  createContents : List Nat
  /-- The assignments to `EventContents`, in order. -/
  eventContents : List (Int × Nat)

/-- An object with nothing in it. -/
def LogEvent.blank : LogEvent := ⟨[], [], [], [], 1, [], [], [], -1, -1, -1⟩

/-- The parser before the first line. -/
def Parser.start : Parser := ⟨fun _ => LogEvent.blank, 0, [], [], [], false, none, 1, [], []⟩

/-! ## The constructor of an event -/

/-- The constructor up to where a copy returns: the line is taken apart, and the event and
    its module have their identifiers. -/
def LogEvent.init (processes : Processes) (line : Text) (eventID : Int) :
    Option (LogEvent × Processes) :=
  (LogEvent.parse line).map fun e =>
    if e.action = "CREATE".toList then
      let moduleID : Int := processes.length + 2
      ({ e with moduleID }, processes.assign e.module moduleID)
    else
      let e := { e with eventID := eventID + 1 }
      match processes.lookup e.module, processes.lookup e.source with
      | some moduleID, _ => ({ e with moduleID }, processes)
      | none, some moduleID => ({ e with module := e.source, moduleID }, processes)
      | none, none => (e, processes)

/-- What the constructor does for an event of type "HME". The event will be at the next
    place of the heap. -/
def Parser.recordHME (s : Parser) (e : LogEvent) : Parser :=
  { s with
    hmEvents := s.hmEvents ++ [s.next]
    dvDetected := s.dvDetected ||
      decide (find e.desc "INJECT".toList ≠ -1 ∧ find e.desc "DEADLINE".toList ≠ -1)
    invokeEvents := if find e.action "REPONSE RESTART".toList ≠ -1 then s.invokeEvents ++ [s.next]
      else s.invokeEvents }

/-- An invocation is kept for the start it is the cause of. -/
def Parser.recordInvoke (s : Parser) (e : LogEvent) : Parser :=
  if e.action = "INVOKE_PROCESS".toList ∨ e.action = "INVOKE_METHOD".toList then
    { s with invokeEvents := s.invokeEvents ++ [s.next] }
  else s

/-- The event has the cause `id`. -/
def LogEvent.causedBy (e : LogEvent) (id : Int) : LogEvent := { e with ce := id, msgID := id }

/-- `genInvokeEventMsg`: the event, and the return event where there is one. -/
def Parser.genInvokeEventMsg (s : Parser) (e : LogEvent) :
    Option (Parser × LogEvent × Option LogEvent) :=
  match s.invokeEvents with
  | [] => some (s, e, none)
  | first :: _ =>
    let invoke := s.heap first
    if invoke.action = "INVOKE_PROCESS".toList then
      some ({ s with invokeEvents := [] }, e.causedBy invoke.eventID, none)
    else if e.action = "START_PROCESS".toList ∧ invoke.action = "INVOKE_METHOD".toList then
      some (s, e.causedBy invoke.eventID, none)
    else if e.action = "END_PROCESS".toList ∧ invoke.action = "INVOKE_METHOD".toList then
      (LogEvent.init s.processes e.line (e.eventID + 1)).map fun (returnEvent, processes) =>
        ({ s with processes, invokeEvents := [] }, e,
          some ({ returnEvent with module := invoke.module, moduleID := invoke.moduleID }.causedBy
            e.eventID))
    else if e.action = "START_PROCESS".toList ∧ invoke.action = "REPONSE RESTART".toList then
      some ({ s with invokeEvents := [] }, e.causedBy invoke.eventID, none)
    else some (s, e, none)

/-- The same for the events that have to do with an invocation. -/
def Parser.recordStart (s : Parser) (e : LogEvent) : Option (Parser × LogEvent × Option LogEvent) :=
  if e.action = "START_PROCESS".toList ∨ e.action = "END_PROCESS".toList then
    s.genInvokeEventMsg e
  else some (s, e, none)

/-- `recordPublishToConsumeConn`. -/
def Parser.recordPublishToConsumeConn (s : Parser) (e : LogEvent) : Parser × LogEvent :=
  if e.action = "PUBLISH".toList then ({ s with publishEvent := some s.next }, e)
  else if e.action = "CONSUME".toList ∨ e.action = "START_CONSUME".toList then
    match s.publishEvent with
    | none => (s, e)
    | some publish => ({ s with publishEvent := none }, e.causedBy (s.heap publish).eventID)
  else (s, e)

/-- The constructor: what the parser keeps, the event, and its return event. -/
def Parser.construct (s : Parser) (line : Text) : Option (Parser × LogEvent × Option LogEvent) :=
  (LogEvent.init s.processes line s.eventID).bind fun (e, processes) =>
    let s := { s with processes }
    if e.type = "HME".toList then some (s.recordHME e, e, none)
    else
      ((s.recordInvoke e).recordStart e).map fun (s, e, returnEvent) =>
        let (s, e) := s.recordPublishToConsumeConn e
        (s, e, returnEvent)

/-! ## A line -/

/-- `generateInjectEvent`. -/
def Parser.generateInjectEvent (s : Parser) (e : LogEvent) :
    Option (Parser × LogEvent × Option LogEvent) :=
  (LogEvent.init s.processes e.line e.eventID).map fun (newLogEvent, processes) =>
    ({ s with processes }, e, some (newLogEvent.causedBy e.eventID))

/-- `postProcessing`: the event again, and the extra event. A source that is not among the
    processes raises. -/
def Parser.postProcessing (s : Parser) (e : LogEvent) (returnEvent : Option LogEvent) :
    Option (Parser × LogEvent × Option LogEvent) :=
  if returnEvent.isSome then some (s, e, returnEvent)
  else if e.msgID ≠ -1 then some (s, e, none)
  else if e.type = "HME".toList then
    if find e.desc "INJECT".toList = -1 ∨ s.dvDetected then some (s, e, none)
    else s.generateInjectEvent e
  else if e.source = "MM".toList ∨ e.action = "START_PROCESS".toList then
    (LogEvent.init s.processes e.line (e.eventID - 1)).bind fun (newLogEvent, processes) =>
      (processes.lookup e.source).map fun moduleID =>
        ({ s with processes },
          { e with eventID := e.eventID + 1 }.causedBy newLogEvent.eventID,
          some { newLogEvent with module := e.source, moduleID })
  else some (s, e, none)

/-- The event at the next place of the heap, and its extra event behind it. -/
def Parser.store (s : Parser) (e : LogEvent) : Option LogEvent → Parser
  | none =>
    { s with
      heap := Function.update s.heap s.next e
      next := s.next + 1
      eventID := e.eventID
      eventContents := s.eventContents ++ [(e.eventID, s.next)] }
  | some extraEvent =>
    { s with
      heap := Function.update (Function.update s.heap s.next e) (s.next + 1) extraEvent
      next := s.next + 2
      eventID := max e.eventID extraEvent.eventID
      eventContents := s.eventContents ++
        [(extraEvent.eventID, s.next + 1), (e.eventID, s.next)] }

/-- `processEvent`. The event of the line is put at the next place of the heap. -/
def Parser.processEvent (s : Parser) (line : Text) : Option Parser :=
  (s.construct line).bind fun (s, e, returnEvent) =>
    if e.action = "CREATE".toList then
      some { s with
        heap := Function.update s.heap s.next e
        next := s.next + 1
        createContents := s.createContents ++ [s.next] }
    else (s.postProcessing e returnEvent).map fun (s, e, extraEvent) => s.store e extraEvent

/-- `generateEndEvent`, for the event at `old` of the line. The cause of the second event
    is set when both are stored. -/
def Parser.generateEndEvent (s : Parser) (line : Text) (old : Nat) : Option Parser :=
  (s.processEvent (endLine line)).bind fun s =>
    (s.processEvent (stopLine line)).map fun s' =>
      let stopped : LogEvent := { s'.heap s.next with ce := (s'.heap old).eventID, msgID := 1 }
      { s' with heap := Function.update s'.heap s.next stopped }

/-! ## A log -/

/-- `IgnoreProcesses`. -/
def ignoreProcesses : List Text :=
  ["NAV_PROC_DATA_IN_TRIGGER".toList, "ORB_PROCESS_Partition2".toList,
    "ORB_PROCESS_Partition1".toList, "U_NavDisplay_getGPSData".toList]

/-- `IgnoreStart`. -/
def ignoreStart : List Text := ["NAV_PROC_DATA_IN".toList]

/-- `checkForIgnoreProceses`. -/
def checkForIgnoreProceses (line : Text) : Bool :=
  (ignoreProcesses.any fun i => decide (find line i ≠ -1)) ||
    ignoreStart.any fun i => decide (find line i ≠ -1 ∧ find line "START_PROCESS".toList ≠ -1)

/-- The lines of a file that are not empty and not to be ignored. -/
def logLines (contents : Text) : List Text :=
  (contents.splitOn '\n').filter fun line => !line.isEmpty && !checkForIgnoreProceses line

/-- The body of the loop of `readLog`. -/
def Parser.readLine (s : Parser) (line : Text) : Option Parser :=
  (s.processEvent line).bind fun s' =>
    if s'.dvDetected ∧ find (s'.heap s.next).action "forcefully stopped".toList ≠ -1 then
      s'.generateEndEvent line s.next
    else some s'

/-- The lines, one after the other. -/
def readLines (lines : List Text) : Option Parser := Runs.run Parser.readLine Parser.start lines

/-- `readLog`. -/
def readLog (contents : Text) : Option Parser := readLines (logLines contents)

/-- `genHMEMsg`, for the event at `self` and the one before it at `past`. -/
def Parser.genHMEMsg (s : Parser) (self past : Nat) : Parser :=
  if find (s.heap past).action "INJECT".toList ≠ -1 ∧ s.dvDetected = false then s
  else { s with heap := Function.update s.heap self ((s.heap self).causedBy (s.heap past).eventID) }

/-- `HMEvents[i - 1]`, which is the last one where `i` is 0. -/
def pastIndex (n i : Nat) : Nat := if i = 0 then n - 1 else i - 1

/-- The body of the loop of `updateHME`. -/
def Parser.updateHMEvent (s : Parser) (i : Nat) : Parser :=
  let self := s.hmEvents.getD i 0
  if (s.heap self).action ≠ "INJECT".toList then
    s.genHMEMsg self (s.hmEvents.getD (pastIndex s.hmEvents.length i) 0)
  else s

/-- `updateHME`. -/
def Parser.updateHME (s : Parser) : Parser :=
  (List.range s.hmEvents.length).foldl Parser.updateHMEvent s

/-- A log that is read, up to the output. -/
def parseLog (contents : Text) : Option Parser := (readLog contents).map Parser.updateHME

end Arinc.LogParser
