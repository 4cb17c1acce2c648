import ArincEmulator.TransportSetup

/- Sampling through the windows of a module. What a partition writes to a source port
   becomes visible at the destinations when its window has been closed and the channel
   has been moved, before any partition is continued again. So what a partition finds
   at a destination depends on the windows that are closed, and on nothing that happens
   while its own is open.

   What is proved (`sampling_through_windows`): in every run of any number of frames,
   with any delays and any services of the partitions on their own ports, in which no
   window is closed on a write to the source, while a partition is not stopped every
   destination of a channel holds the last message that the partition of the source
   wrote before its last window was closed, and keeps it until the window is closed. A
   window that is closed on a write is another matter: the manager moves what there is
   of the message. -/
namespace Arinc.Transport
open Runs Memory ModuleScheduler SamplingPacket ChannelWiring

section
variable {m : ChannelWiring.ModuleManager} {name : String} {i : Nat} {c : Channel}
  {source : PortDescriptor} {s t : State}

/-- The memory of a port holds a message. -/
def PortHolds (s : State) (d : PortDescriptor) (msg : SamplingData) : Prop :=
  (samplingPort .portSourceDest s.sampling d).Holds msg

/-- A step does not close a window while partition `i` is at a write to a port. -/
def Between (i : Nat) (port : String) (s : State) (op : Op) : Prop :=
  op.closes s = true → s.writing (i, port) = none

/-- What the run keeps of a channel: the source holds what was written last, or what
    there is of the next message; all that was written counts while its partition is
    stopped, which is at no write; and the destinations hold the last message that
    counts, or the channel is still to be moved before a partition is continued. -/
structure SamplingFlow (m : ChannelWiring.ModuleManager) (name : String) (i : Nat) (c : Channel)
    (source : PortDescriptor) (s : State) : Prop where
  order : InOrder m s
  times : ∀ msg ∈ Windows.puts source.name s.samplingLog, 0 ≤ msg.absoluteTimeWritten.toInt
  written : s.writing (i, source.name) = none →
    ∀ msg, (Windows.puts source.name s.samplingLog).getLast? = some msg → PortHolds s source msg
  writing : ∀ w, s.writing (i, source.name) = some w → w.Progress (s.sampling source.name)
  closed : i ∉ s.running →
    Windows.closedPuts i source.name s.samplingLog = Windows.puts source.name s.samplingLog ∧
      s.writing (i, source.name) = none
  delivered : (∀ d ∈ c.destinations, ∀ msg,
      (Windows.closedPuts i source.name s.samplingLog).getLast? = some msg → PortHolds s d msg) ∨
    s.running = ∅ ∧ moveAction .sampling name ∈ due s.remaining

/-- A move within the module delivers what the source holds to every destination. -/
theorem moveMessages_delivers (hc : Carries m .sampling name i c source) {dataBuffer : Nat → Byte}
    {memory : String → SamplingData} {pending : List (List Byte)} {moved : Moved (String × Nat)}
    (h : (samplingChannel c dataBuffer memory).moveMessages pending = some moved) :
    moved.channel.destinationPortVector.map (·.sharedMemory) = c.destinations.map fun d =>
      ((samplingPort .portSourceDest memory d).deliver (memory source.name)).sharedMemory := by
  have hcopied : ((c.destinations.map (samplingPort .portSourceDest memory)).map
      (samplingPort .portSourceDest memory source).copyContentsVerbatim).map Prod.snd =
      c.destinations.map fun d =>
        (samplingPort .portSourceDest memory d).deliver (memory source.name) := by
    rw [List.map_map, List.map_map]
    apply List.map_congr_left
    intro d hd
    have hsame : source.maxMessageSize = d.maxMessageSize := by
      simpa [Kind.allows] using hc.allows d hd
    exact congrArg Prod.snd (SamplingPort.copyContentsVerbatim_eq hsame.symm)
  have hreceiver : (samplingChannel c dataBuffer memory).receiver = false := by
    simp only [samplingChannel, hc.receiver, Option.isSome_none]
  have hsource : (samplingChannel c dataBuffer memory).sourcePort =
      some (samplingPort .portSourceDest memory source) := by
    simp only [samplingChannel, hc.hasSource, Option.map_some]
  by_cases hnone : (samplingChannel c dataBuffer memory).destinationPortVector = [] ∧
      (samplingChannel c dataBuffer memory).sender = false
  · -- without destinations there is nothing to deliver
    rw [SamplingChannel.moveMessages_idle hc.initialized hreceiver hsource hnone] at h
    obtain rfl := Option.some.inj h
    simp [hnone.1, List.map_eq_nil_iff.mp hnone.1]
  · rw [SamplingChannel.moveMessages_from hc.initialized hreceiver hsource hnone] at h
    obtain rfl := Option.some.inj h
    rw [(SamplingSystem.moveFrom_channel _ _ _).2.2.2]
    show (((c.destinations.map (samplingPort .portSourceDest memory)).map
      (samplingPort .portSourceDest memory source).copyContentsVerbatim).map Prod.snd).map _ = _
    rw [hcopied, List.map_map]
    rfl

theorem PortHolds.of_eq {d : PortDescriptor} {msg : SamplingData} (h : PortHolds s d msg)
    (heq : t.sampling d.name = s.sampling d.name) : PortHolds t d msg := by
  unfold PortHolds samplingPort at h ⊢
  rwa [heq]

/-- The move of the channel itself: what was written last arrives. -/
theorem move_self (hc : Carries m .sampling name i c source) (hm : Layout m)
    {msg : SamplingData} (hsource : PortHolds s source msg) {sends : Nat → Bool}
    {pending : List (List Byte)} (h : moveSampling m sends pending name s = some t) :
    ∀ d ∈ c.destinations, PortHolds t d msg := by
  obtain ⟨c', moved, hc', hmoved, hsampling, -⟩ := moveSampling_cases h
  obtain rfl : c = c' := Option.some.inj (hc.stored.symm.trans hc')
  intro d hd
  have hdelivered : t.sampling d.name =
      ((samplingPort .portSourceDest s.sampling d).deliver (s.sampling source.name)).sharedMemory := by
    rw [hsampling, moveMessages_delivers hc hmoved]
    exact store_map (hm.nodup hc.stored) hd
  have hcount : (s.sampling source.name).count = msg.count := congrArg BitVec.toNat hsource.size
  have hheld := (samplingPort .portSourceDest s.sampling d).deliver_holds (s.sampling source.name)
  unfold PortHolds samplingPort
  rw [hdelivered]
  refine ⟨hsource.time, hsource.size, ?_⟩
  calc read _ 0 msg.count = read _ 0 (s.sampling source.name).count := by rw [hcount]
    _ = read (s.sampling source.name).data 0 (s.sampling source.name).count := hheld.message
    _ = read (s.sampling source.name).data 0 msg.count := by rw [hcount]
    _ = read msg.data 0 msg.count := hsource.message

theorem move_source (hc : Carries m .sampling name i c source) (hm : Layout m) {name' : String}
    {sends : Nat → Bool} {pending : List (List Byte)}
    (h : moveSampling m sends pending name' s = some t) :
    t.sampling source.name = s.sampling source.name := by
  obtain ⟨c', moved, hc', -, hsampling, -⟩ := moveSampling_cases h
  rw [hsampling]
  apply store_of_notMem
  intro hmem
  obtain ⟨d', hd', heq⟩ := List.mem_map.mp hmem
  obtain ⟨j, hj⟩ := hm.destination hc' hd'
  exact hm.source_ne_destination hc.owner hj heq.symm

theorem move_other (hc : Carries m .sampling name i c source) (hm : Layout m) {name' : String}
    (hname : name' ≠ name) {sends : Nat → Bool} {pending : List (List Byte)}
    (h : moveSampling m sends pending name' s = some t) :
    ∀ d ∈ c.destinations, t.sampling d.name = s.sampling d.name := by
  obtain ⟨c', moved, hc', -, hsampling, -⟩ := moveSampling_cases h
  rw [hsampling]
  intro d hd
  apply store_of_notMem
  intro hmem
  obtain ⟨d', hd', heq⟩ := List.mem_map.mp hmem
  exact (hm.apart hc.stored hc' hname.symm).1 d hd d' hd' heq.symm

theorem SamplingFlow.congr (hs : SamplingFlow m name i c source s) (horder : InOrder m t)
    (hsampling : t.sampling = s.sampling) (hlog : t.samplingLog = s.samplingLog)
    (hwriting : t.writing = s.writing) (hrunning : t.running = s.running)
    (hdue : moveAction .sampling name ∈ due s.remaining →
      moveAction .sampling name ∈ due t.remaining) :
    SamplingFlow m name i c source t where
  order := horder
  times := by
    rw [hlog]
    exact hs.times
  written hfree msg hmsg := by
    rw [hwriting] at hfree
    rw [hlog] at hmsg
    exact (hs.written hfree msg hmsg).of_eq (by rw [hsampling])
  writing := by
    rw [hwriting, hsampling]
    exact hs.writing
  closed hstopped := by
    rw [hrunning] at hstopped
    rw [hlog, hwriting]
    exact hs.closed hstopped
  delivered := by
    rw [hlog, hrunning]
    obtain hheld | ⟨hall, hmove⟩ := hs.delivered
    · exact Or.inl fun d hd msg hmsg => (hheld d hd msg hmsg).of_eq (by rw [hsampling])
    · exact Or.inr ⟨hall, hdue hmove⟩

theorem SamplingFlow.heldOf (hs : SamplingFlow m name i c source s) {j : Nat} (hj : j ∈ s.running)
    (hkept : ∀ d ∈ c.destinations, t.sampling d.name = s.sampling d.name) :
    ∀ d ∈ c.destinations, ∀ msg,
      (Windows.closedPuts i source.name s.samplingLog).getLast? = some msg → PortHolds t d msg := by
  obtain hheld | ⟨hall, -⟩ := hs.delivered
  · exact fun d hd msg hmsg => (hheld d hd msg hmsg).of_eq (hkept d hd)
  · exact absurd hall (Finset.ne_empty_of_mem hj)

theorem Writing.Progress.holds {message : SamplingData} {d : PortDescriptor}
    (h : (⟨message, some message.count⟩ : Writing).Progress (s.sampling d.name)) :
    PortHolds s d message := by
  obtain ⟨hsize, hread⟩ := h.sized _ rfl
  exact ⟨h.time, hsize, hread⟩

/-- A step of a write by a partition: it is seen at the source only, and counts later. -/
theorem SamplingFlow.write (hc : Carries m .sampling name i c source) (hm : Layout m)
    (hs : SamplingFlow m name i c source s) {j : Nat} {e : PortDescriptor} {w : WriteStep}
    (howner : HasPort m .sampling .source j e) (h : step m s (.write j e w) = some t) :
    SamplingFlow m name i c source t := by
  have horder : InOrder m t := inOrder_step hs.order h
  have hdestinations : ∀ d ∈ c.destinations, d.name ≠ e.name := by
    intro d hd
    obtain ⟨k, hk⟩ := hm.destination hc.stored hd
    exact (hm.source_ne_destination howner hk).symm
  obtain ⟨hj, hcases⟩ := write_cases h
  by_cases hname : e.name = source.name
  · -- the write is to the source of the channel, so by its partition
    obtain ⟨rfl, rfl⟩ := hm.unique howner hc.owner hname
    obtain rfl | ⟨memory, w', rfl, hprogress⟩ | ⟨message, hw, rfl⟩ := hcases
    · exact hs
    · refine ⟨horder, hs.times, fun hfree => ?_, fun w hw => ?_, fun hstopped => absurd hj hstopped,
        Or.inl ?_⟩
      · simp at hfree
      · simp only [Function.update_self, Option.some.injEq] at hw ⊢
        exact hw ▸ hprogress hs.writing
      · exact hs.heldOf hj fun d hd => Function.update_of_ne (hdestinations d hd) _ _
    · have hdone := hs.writing _ hw
      refine ⟨horder, fun msg hmsg => ?_, fun _ msg hmsg => ?_, fun w hw => ?_,
        fun hstopped => absurd hj hstopped, Or.inl ?_⟩
      · rw [Windows.puts_put_self] at hmsg
        obtain hmsg | hmsg := List.mem_append.mp hmsg
        · exact hs.times msg hmsg
        · rw [List.mem_singleton.mp hmsg]
          exact hdone.clock
      · rw [Windows.puts_put_self, List.getLast?_concat] at hmsg
        obtain rfl := Option.some.inj hmsg
        exact Writing.Progress.holds hdone
      · simp at hw
      · rw [Windows.closedPuts_put]
        exact hs.heldOf hj fun _ _ => rfl
  · -- it is to another port
    have hkey : (i, source.name) ≠ (j, e.name) := fun heq => hname (Prod.mk.inj heq).2.symm
    obtain rfl | ⟨memory, w', rfl, -⟩ | ⟨message, -, rfl⟩ := hcases
    · exact hs
    · have hsource := Function.update_of_ne (Ne.symm hname) memory s.sampling
      have hwriting := Function.update_of_ne hkey (some w') s.writing
      refine ⟨horder, hs.times, fun hfree msg hmsg => ?_, fun w hw => ?_, fun hstopped => ?_,
        Or.inl ?_⟩
      · exact (hs.written (hwriting ▸ hfree) msg hmsg).of_eq hsource
      · simp only [hsource]
        exact hs.writing w (hwriting ▸ hw)
      · simp only [hwriting]
        exact hs.closed hstopped
      · exact hs.heldOf hj fun d hd => Function.update_of_ne (hdestinations d hd) _ _
    · have hwriting := Function.update_of_ne hkey none s.writing
      refine ⟨horder, ?_, fun hfree => ?_, fun w hw => ?_, fun hstopped => ?_, Or.inl ?_⟩
      · rw [Windows.puts_put_of_ne hname]
        exact hs.times
      · rw [Windows.puts_put_of_ne hname]
        exact hs.written (hwriting ▸ hfree)
      · exact hs.writing w (hwriting ▸ hw)
      · rw [Windows.closedPuts_put, Windows.puts_put_of_ne hname]
        simp only [hwriting]
        exact hs.closed hstopped
      · rw [Windows.closedPuts_put]
        exact hs.heldOf hj fun _ _ => rfl

theorem SamplingFlow.manager (hc : Carries m .sampling name i c source) (hm : Layout m)
    (hs : SamplingFlow m name i c source s) {sends : Nat → Bool} {pending : List (List Byte)}
    {clock : Nat → Nat → ClockTime}
    (hbetween : Between i source.name s (.manager sends pending clock))
    (h : step m s (.manager sends pending clock) = some t) :
    SamplingFlow m name i c source t := by
  have horder : InOrder m t := inOrder_step hs.order h
  obtain ⟨a, rest, hremaining, hmove, hdue, rfl⟩ | ⟨kind, name', rest, hstopped, hremaining, h⟩ |
    ⟨j, rest, hstopped, hremaining, rfl⟩ | ⟨j, rest, hrunning, hremaining, howed, rfl⟩ :=
    hs.order.manager_cases h
  · -- time passes
    refine hs.congr horder rfl rfl rfl rfl ?_
    rw [hdue]
    intro hmem
    obtain heq | hmem := List.mem_cons.mp hmem
    · exact absurd heq.symm (hmove .sampling name)
    · exact hmem
  · obtain ⟨hrest, hrunning, hlog, -, hwriting⟩ := perform_move h
    have hkept : moveAction .sampling name ≠ moveAction kind name' →
        moveAction .sampling name ∈ due s.remaining →
          moveAction .sampling name ∈ due t.remaining := by
      intro hne hmem
      rw [hremaining, due_move] at hmem
      rw [hrest]
      exact (List.mem_cons.mp hmem).resolve_left hne
    cases kind with
    | queueing =>
      obtain ⟨_, _, -, -, -, -, -, hsampling, -⟩ := moveQueueing_cases h
      exact hs.congr horder hsampling hlog hwriting hrunning
        (hkept (by rw [Ne, moveAction_inj]; simp))
    | sampling =>
      have hsource : t.sampling source.name = s.sampling source.name :=
        move_source hc hm (s := { s with remaining := rest }) h
      by_cases hname : name' = name
      · subst hname
        obtain ⟨hputs, hfree⟩ := hs.closed (by simp [hstopped])
        refine ⟨horder, ?_, fun _ msg hmsg => ?_, ?_, fun _ => ?_, Or.inl fun d hd msg hmsg => ?_⟩
        · rw [hlog]
          exact hs.times
        · rw [hlog] at hmsg
          exact (hs.written hfree msg hmsg).of_eq hsource
        · rw [hwriting, hsource]
          exact hs.writing
        · rw [hlog, hwriting]
          exact ⟨hputs, hfree⟩
        · rw [hlog] at hmsg
          have hheld : PortHolds s source msg := hs.written hfree msg (hputs ▸ hmsg)
          exact move_self hc hm (s := { s with remaining := rest }) hheld h d hd
      · refine ⟨horder, ?_, fun hfree msg hmsg => ?_, ?_, ?_, ?_⟩
        · rw [hlog]
          exact hs.times
        · rw [hwriting] at hfree
          rw [hlog] at hmsg
          exact (hs.written hfree msg hmsg).of_eq hsource
        · rw [hwriting, hsource]
          exact hs.writing
        · rw [hlog, hrunning, hwriting]
          exact hs.closed
        · rw [hlog, hrunning]
          obtain hheld | ⟨hall, hmem⟩ := hs.delivered
          · left
            intro d hd msg hmsg
            exact (hheld d hd msg hmsg).of_eq
              (move_other hc hm (s := { s with remaining := rest }) hname h d hd)
          · refine Or.inr ⟨hall, hkept ?_ hmem⟩
            rw [Ne, moveAction_inj]
            exact fun heq => hname heq.2.symm
  · -- a partition is continued: nothing can still be due
    have hheld := hs.delivered.resolve_right fun hdue => by
      rw [hremaining, due_sigcont] at hdue
      exact List.not_mem_nil hdue.2
    exact ⟨horder, hs.times, hs.written, hs.writing, fun _ => hs.closed (by simp [hstopped]),
      Or.inl hheld⟩
  · -- a partition is stopped: its channels become due, and for others nothing changes
    have hfree : s.writing (i, source.name) = none := hbetween (by simp [Op.closes, hremaining])
    refine ⟨horder, hs.times, hs.written, hs.writing, fun _ => ⟨?_, hfree⟩, ?_⟩
    · by_cases hj : j = i
      · rw [hj, Windows.closedPuts_close, Windows.puts_close]
      · obtain ⟨hputs, -⟩ := hs.closed (by simp [hrunning, Ne.symm hj])
        exact Windows.closedPuts_close_of_eq hputs
    · by_cases hj : j = i
      · exact Or.inr ⟨rfl, hc.due (hj ▸ howed)⟩
      · have hheld := hs.delivered.resolve_right fun hdue => by
          rw [hrunning] at hdue
          exact Finset.singleton_ne_empty j hdue.1
        left
        rw [Windows.closedPuts_close_of_ne hj]
        exact hheld

theorem samplingFlow_step (hc : Carries m .sampling name i c source) (hm : Layout m) {op : Op}
    (hown : op.Own m) (hbetween : Between i source.name s op)
    (hs : SamplingFlow m name i c source s) (h : step m s op = some t) :
    SamplingFlow m name i c source t := by
  have horder : InOrder m t := inOrder_step hs.order h
  cases op with
  | manager sends pending clock => exact hs.manager hc hm hbetween h
  | write j e w => exact hs.write hc hm hown h
  | send j e now msgPtr length timeOut =>
    obtain ⟨-, rfl | ⟨mq, msg, -, -, -, rfl⟩⟩ := send_cases h
    · exact hs
    · exact hs.congr horder rfl rfl rfl rfl id
  | receive j e now msgPtr timeOut =>
    obtain ⟨-, rfl | ⟨mq, msg, -, -, -, rfl⟩⟩ := receive_cases h
    · exact hs
    · exact hs.congr horder rfl rfl rfl rfl id

theorem Start.samplingFlow {timing : Timing} {start : Int} {frames : Nat}
    (h : Start m timing start frames s) : SamplingFlow m name i c source s where
  order := h.inOrder
  times msg hmsg := by
    rw [h.samplingLog] at hmsg
    cases hmsg
  written _ msg hmsg := by
    rw [h.samplingLog] at hmsg
    cases hmsg
  writing w hw := by
    rw [h.writing] at hw
    cases hw
  closed _ := by
    rw [h.samplingLog]
    exact ⟨rfl, h.writing _⟩
  delivered := by
    left
    intro d _ msg hmsg
    rw [h.samplingLog] at hmsg
    cases hmsg

/-! ## While a window is open -/

/-- A step that closes no window leaves it open, and the destination ports as they are. -/
theorem open_step (hm : Layout m) {op : Op} (hs : InOrder m s) (hopen : s.running.Nonempty)
    (hown : op.Own m) (hcloses : op.closes s = false) (h : step m s op = some t) {k : Nat}
    {d : PortDescriptor} (hd : HasPort m .sampling .destination k d) :
    t.running.Nonempty ∧ t.sampling d.name = s.sampling d.name := by
  cases op with
  | manager sends pending clock =>
    obtain ⟨a, rest, -, -, -, rfl⟩ | ⟨kind, name', rest, hstopped, -⟩ | ⟨j, rest, hstopped, -⟩ |
      ⟨j, rest, -, hremaining, -⟩ := hs.manager_cases h
    · exact ⟨hopen, rfl⟩
    · exact absurd hstopped hopen.ne_empty
    · exact absurd hstopped hopen.ne_empty
    · simp [Op.closes, hremaining] at hcloses
  | write j e w =>
    have hne : d.name ≠ e.name := (hm.source_ne_destination hown hd).symm
    obtain ⟨-, rfl | ⟨memory, w', rfl, -⟩ | ⟨message, -, rfl⟩⟩ := write_cases h
    · exact ⟨hopen, rfl⟩
    · exact ⟨hopen, Function.update_of_ne hne _ _⟩
    · exact ⟨hopen, rfl⟩
  | send j e now msgPtr length timeOut =>
    obtain ⟨-, rfl | ⟨mq, msg, -, -, -, rfl⟩⟩ := send_cases h <;> exact ⟨hopen, rfl⟩
  | receive j e now msgPtr timeOut =>
    obtain ⟨-, rfl | ⟨mq, msg, -, -, -, rfl⟩⟩ := receive_cases h <;> exact ⟨hopen, rfl⟩

theorem open_run (hm : Layout m) {ops : List Op} (hs : InOrder m s) (hopen : s.running.Nonempty)
    (hown : ∀ op ∈ ops, op.Own m)
    (hcloses : Meets (step m) (fun s op => op.closes s = false) s ops)
    (h : run (step m) s ops = some t) {k : Nat} {d : PortDescriptor}
    (hd : HasPort m .sampling .destination k d) : t.sampling d.name = s.sampling d.name := by
  have hkept : InOrder m t ∧ t.running.Nonempty ∧ t.sampling d.name = s.sampling d.name := by
    refine run_invariant_of_meets
      (I := fun u => InOrder m u ∧ u.running.Nonempty ∧ u.sampling d.name = s.sampling d.name)
      ?_ ⟨hs, hopen, rfl⟩ ((meets_of_forall hown).and hcloses) h
    rintro u op v ⟨horder, hrunning, heq⟩ ⟨hown, hcloses⟩ hstep
    obtain ⟨hrunning', heq'⟩ := open_step hm horder hrunning hown hcloses hstep hd
    exact ⟨inOrder_step horder hstep, hrunning', heq'.trans heq⟩
  exact hkept.2.2

/-- What a reader of a port that holds a message of some bytes gets: that message, and
    its validity against the refresh period of the port. -/
def Reads (s : State) (d : PortDescriptor) (msg : SamplingData) : Prop :=
  ∀ (lastValidity : Validity) (now : NanoTime) (msgPtr : Nat → Byte),
    let reading := (samplingPort .portDest s.sampling d).readSamplingMessage
      ⟨d.portAttribute, lastValidity⟩ now msgPtr
    reading.returnCode = .noError ∧ reading.length = some msg.messageSize ∧
      read reading.msgPtr 0 msg.count = read msg.data 0 msg.count ∧
      (reading.validity = some .valid ↔
        now.val.toInt - msg.absoluteTimeWritten.toInt ≤ d.portAttribute)

/-- **What is read depends on the closed windows only.** In every run that closes no
    window on a write to the source, while a partition is not stopped, every destination
    holds the last message that was written to the source before the last window of its
    partition was closed, its readers get it, and it stays there as long as the window
    is open. -/
theorem sampling_through_windows (hm : Layout m) (hc : Carries m .sampling name i c source)
    {timing : Timing} {start : Int} {frames : Nat} {ops : List Op}
    (hs : Start m timing start frames s) (hown : ∀ op ∈ ops, op.Own m)
    (hbetween : Meets (step m) (Between i source.name) s ops) (h : run (step m) s ops = some t)
    (hopen : t.running.Nonempty) {d : PortDescriptor} (hd : d ∈ c.destinations)
    {msg : SamplingData}
    (hlast : (Windows.closedPuts i source.name t.samplingLog).getLast? = some msg) :
    PortHolds t d msg ∧ (0 < msg.messageSize.toInt → Reads t d msg) ∧
      ∀ later u, (∀ op ∈ later, op.Own m) →
        Meets (step m) (fun s op => op.closes s = false) t later →
        run (step m) t later = some u → u.sampling d.name = t.sampling d.name := by
  have hflow : SamplingFlow m name i c source t := by
    refine run_invariant_of_meets (I := SamplingFlow m name i c source) ?_ hs.samplingFlow
      ((meets_of_forall hown).and hbetween) h
    rintro u op v hu ⟨hown, hbetween⟩ hstep
    exact samplingFlow_step hc hm hown hbetween hu hstep
  have hheld : PortHolds t d msg := by
    -- What the last window left is delivered before the next opens, and one is open.
    obtain hheld | ⟨hstopped, -⟩ := hflow.delivered
    · exact hheld d hd msg hlast
    · exact absurd hstopped hopen.ne_empty
  obtain ⟨k, hk⟩ := hm.destination hc.stored hd
  refine ⟨hheld, fun hsize lastValidity now msgPtr => ?_, fun later u hown' hcloses hlater =>
    open_run hm hflow.order hopen hown' hcloses hlater hk⟩
  have hwritten : msg ∈ Windows.puts source.name t.samplingLog :=
    (Windows.closedPuts_isPrefix i source.name t.samplingLog).subset (List.mem_of_getLast? hlast)
  have hreader : (samplingPort .portDest t.sampling d).Holds msg :=
    ⟨hheld.time, hheld.size, hheld.message⟩
  exact SamplingSystem.readSamplingMessage_holds hreader rfl (by simp [samplingPort]) hsize
    (hflow.times msg hwritten) _ now msgPtr

end

/-- The channel of the samples. -/
def sampledChannel : Channel :=
  ⟨"sampled", true, some ⟨"out", 4, 100, .source⟩, 4, [⟨"in", 4, 100, .destination⟩], false, none,
    1, .intraModule, []⟩

theorem sampledChannel_carries :
    Carries senderReceiverModule .sampling "sampled" 0 sampledChannel ⟨"out", 4, 100, .source⟩ where
  stored := rfl
  initialized := rfl
  receiver := rfl
  hasSource := rfl
  owner := ⟨_, rfl, List.mem_singleton.mpr rfl, rfl⟩
  listed := ⟨_, rfl, rfl, List.mem_singleton.mpr rfl⟩
  allows := by decide

instance (i : Nat) (port : String) (s : State) (op : Op) : Decidable (Between i port s op) :=
  inferInstanceAs (Decidable (_ → _))

/-- The receiver finds the three bytes the sender has written. -/
theorem sampling_through_windows_receiver :
    ∃ t, run (step senderReceiverModule) (allStopped 1) untilReceiver = some t ∧
      Reads t ⟨"in", 4, 100, .destination⟩ ⟨7, 3, ofList [65, 67, 77] 0⟩ := by
  obtain ⟨t, ht, hopen, hlast⟩ :
      ∃ t, run (step senderReceiverModule) (allStopped 1) untilReceiver = some t ∧
        1 ∈ t.running ∧ (Windows.closedPuts 0 "out" t.samplingLog).getLast? =
          some ⟨7, 3, ofList [65, 67, 77] 0⟩ := ⟨_, rfl, by decide, rfl⟩
  have hbetween : Meets (step senderReceiverModule) (Between 0 "out") (allStopped 1)
      untilReceiver := by decide +kernel
  obtain ⟨-, hreads, -⟩ := sampling_through_windows
    (senderReceiver_created.layout senderReceiver_separate) sampledChannel_carries
    (allStopped_start 1) (fun op hop => senderReceiver_own op (List.mem_append_left _ hop)) hbetween
    ht ⟨1, hopen⟩ (List.mem_singleton.mpr rfl) hlast
  exact ⟨t, ht, hreads (by decide)⟩

-- a window that is closed on a write: the receiver finds the new size over the old bytes
example : ∃ t, run (step senderReceiverModule) (allStopped 1)
      ([next, next] ++ writeThree.take 2 ++ List.replicate 7 next) = some t ∧
    (t.sampling "in").messageSize = 3 ∧ read (t.sampling "in").data 0 3 = [0, 0, 0] :=
  ⟨_, rfl, rfl, rfl⟩

end Arinc.Transport
