import ArincEmulator.TransportSetup

/- Queueing through the windows of a module. What a partition sends waits in the queue
   of its source port until its window has been closed; the move of the channel then
   hands all of it over to the queues of the destinations, where other partitions take
   it in windows of their own. A destination whose queue is full loses what there is no
   room for.

   What is proved (`queueing_through_windows`): in every run of any number of frames,
   with any delays and any services of the partitions, what a destination has given
   away and still holds is part of what was sent, in that order and nothing twice;
   while a partition is not stopped it is part of what was sent before the last window
   of the sender was closed, and the queue of the source of a stopped sender is empty;
   and where every move found room at the destinations it is all of that. -/
namespace Arinc.Transport
open Runs Memory ModuleScheduler SamplingPacket ChannelWiring QueuePort

/-- The message queue of a port has the attributes of its descriptor. -/
def Opens (s : State) (d : PortDescriptor) : Prop :=
  (queuingPort .portSourceDest s.queueing d).Opened

/-- What is in the queue of a port. -/
def held (s : State) (d : PortDescriptor) : List (List Byte) :=
  (s.queueing d.name).elements

/-- The queues of the module before its first frame. -/
structure QueuesReady (m : ChannelWiring.ModuleManager) (s : State) : Prop where
  opens : ∀ {direction i d}, HasPort m .queueing direction i d → Opens s d
  empty : ∀ {direction i d}, HasPort m .queueing direction i d → held s d = []

/-- A step finds room: where it moves the channel of a name, each destination has room
    for all that the source holds. -/
def Roomy (m : ChannelWiring.ModuleManager) (name : String) (s : State) (_ : Op) : Prop :=
  s.remaining.head? = some (moveAction .queueing name) →
    ∀ c source, m.mapOfChannels .queueing name = some c → c.source = some source →
      ∀ d ∈ c.destinations,
        (held s d).length + (held s source).length ≤ (s.queueing d.name).capacity

section
variable {m : ChannelWiring.ModuleManager} {name : String} {i : Nat} {c : Channel}
  {source : PortDescriptor} {s t : State}

theorem Opens.of_same {d : PortDescriptor} (h : Opens s d)
    (hmsgsize : (t.queueing d.name).msgsize = (s.queueing d.name).msgsize)
    (hcapacity : (t.queueing d.name).capacity = (s.queueing d.name).capacity) : Opens t d :=
  h.received (fun _ => 0) hmsgsize hcapacity

theorem Opens.update {d : PortDescriptor} (h : Opens s d) {port : String} {mq : PosixQueue}
    (ht : t.queueing = Function.update s.queueing port mq)
    (hmsgsize : mq.msgsize = (s.queueing port).msgsize)
    (hcapacity : mq.capacity = (s.queueing port).capacity) : Opens t d := by
  by_cases hname : d.name = port
  · apply h.of_same
    · rw [ht, hname, Function.update_self, hmsgsize]
    · rw [ht, hname, Function.update_self, hcapacity]
  · apply h.of_same
    · rw [ht, Function.update_of_ne hname]
    · rw [ht, Function.update_of_ne hname]

theorem Opens.length_le {d : PortDescriptor} (h : Opens s d) {msg : List Byte}
    (hmsg : msg ∈ held s d) : (msg.length : Int) ≤ d.maxMessageSize := by
  have hsize : ((s.queueing d.name).msgsize : Int) = d.maxMessageSize := h.size
  have hfits := (s.queueing d.name).fits msg hmsg
  omega

/-! ## The move of the channel -/

theorem store_forall₂ {α β : Type*} {name : β → String} {R : β → α → Prop} {ds : List β}
    {values : List α} {f : String → α} (h : List.Forall₂ R ds values)
    (hnodup : (ds.map name).Nodup) {d : β} (hd : d ∈ ds) :
    R d (store (ds.map name) values f (name d)) := by
  induction h generalizing f with
  | nil => cases hd
  | cons he _ ih =>
    obtain ⟨hnew, hrest⟩ := List.nodup_cons.mp hnodup
    rw [List.map_cons, store]
    obtain rfl | hd := List.mem_cons.mp hd
    · rw [store_of_notMem hnew, Function.update_self]
      exact he
    · exact ih hrest hd

theorem Carries.built (hc : Carries m .queueing name i c source) (hsource : Opens s source)
    (hdestinations : ∀ d ∈ c.destinations, Opens s d) (internalBuffer : Nat → Byte) :
    (queueChannel c internalBuffer s.queueing).Built
      (queuingPort .portSourceDest s.queueing source) where
  initialized := hc.initialized
  receiver := by simp [queueChannel, hc.receiver]
  sourceQueue := by simp [queueChannel, hc.hasSource]
  opened := ⟨hsource, rfl⟩
  destinations := by
    intro q hq
    obtain ⟨d, hd, rfl⟩ := List.mem_map.mp hq
    exact ⟨hdestinations d hd, rfl⟩

/-- The move of the channel itself empties the source, and each destination takes what
    it has room for. -/
theorem move_transfers (hc : Carries m .queueing name i c source) (hm : Layout m)
    (hsource : Opens s source) (hdestinations : ∀ d ∈ c.destinations, Opens s d)
    (hsome : c.destinations ≠ []) {sends : Nat → Bool} {pending : List (List Byte)}
    {clock : Nat → Nat → ClockTime} (h : moveQueueing m sends pending clock name s = some t) :
    Opens t source ∧ held t source = [] ∧ ∀ d ∈ c.destinations, Opens t d ∧
      held t d = (held s d ++ held s source).take (s.queueing d.name).capacity := by
  obtain ⟨c', r, hc', hmoved, hqueueing, -⟩ := moveQueueing_cases h
  obtain rfl : c = c' := Option.some.inj (hc.stored.symm.trans hc')
  have hbuilt := hc.built hsource hdestinations (s.buffers .queueing name)
  have hfits : ∀ msg ∈ held s source, ∀ q ∈ (queueChannel c (s.buffers .queueing name)
      s.queueing).destinationQueueVector, (msg.length : Int) ≤ q.qMaxMessageSize := by
    intro msg hmsg q hq
    obtain ⟨d, hd, rfl⟩ := List.mem_map.mp hq
    have hallowed : source.maxMessageSize ≤ d.maxMessageSize := by
      simpa [Kind.allows] using hc.allows d hd
    exact Int.le_trans (hsource.length_le hmsg) hallowed
  have hnot : (queueChannel c (s.buffers .queueing name) s.queueing).destinationQueueVector ≠ [] := by
    simpa [queueChannel] using hsome
  obtain ⟨r', source', hmoved', hsource', hempty, hoffers, -⟩ :=
    QueueChannel.moveMessages_drains hbuilt (Or.inl hnot) hfits clock pending
  have helements := afterOffers_elements hoffers
  obtain rfl : r = r' := Option.some.inj (hmoved.symm.trans hmoved')
  obtain ⟨-, ⟨source'', hsource'', hsame⟩, hqueues⟩ :=
    QueueChannel.moveMessages_same hbuilt.receiver hbuilt.sourceQueue hmoved
  obtain rfl : source' = source'' := Option.some.inj (hsource'.symm.trans hsource'')
  -- The contents are stored back port by port, and the source is none of the destinations.
  have hnew : source.name ∉ c.destinations.map (·.name) := by
    intro hmem
    obtain ⟨d, hd, heq⟩ := List.mem_map.mp hmem
    obtain ⟨j, hj⟩ := hm.destination hc.stored hd
    exact hm.source_ne_destination hc.owner hj heq.symm
  simp only [hc.hasSource, hsource', Option.toList_some, List.map_cons, List.map_nil,
    List.cons_append, List.nil_append, store] at hqueueing
  have hheld : t.queueing source.name = source'.mq := by
    rw [hqueueing, store_of_notMem hnew, Function.update_self]
  refine ⟨hsource.of_same (by rw [hheld]; exact hsame.msgsize) (by rw [hheld]; exact hsame.capacity),
    by rw [held, hheld]; exact hempty, fun d hd => ?_⟩
  have htaken : List.Forall₂
      (fun d mq => mq.elements = (held s d ++ held s source).take (s.queueing d.name).capacity)
      c.destinations (r.channel.destinationQueueVector.map (·.mq)) := by
    rw [List.forall₂_map_right_iff]
    have hpaired := List.forall₂_eq_eq_eq ▸ helements
    rw [List.forall₂_map_left_iff, List.forall₂_map_right_iff, queueChannel,
      List.forall₂_map_right_iff] at hpaired
    exact hpaired.flip
  have hkept : List.Forall₂
      (fun d mq => mq.msgsize = (s.queueing d.name).msgsize ∧
        mq.capacity = (s.queueing d.name).capacity)
      c.destinations (r.channel.destinationQueueVector.map (·.mq)) := by
    rw [List.forall₂_map_right_iff]
    exact (List.forall₂_map_left_iff.mp hqueues).imp fun _ _ hsame => ⟨hsame.msgsize, hsame.capacity⟩
  have hnodup := hm.nodup hc.stored
  obtain ⟨hmsgsize, hcapacity⟩ := store_forall₂ hkept hnodup hd
    (f := Function.update s.queueing source.name source'.mq)
  have hall := store_forall₂ htaken hnodup hd
    (f := Function.update s.queueing source.name source'.mq)
  rw [← hqueueing] at hmsgsize hcapacity hall
  exact ⟨(hdestinations d hd).of_same hmsgsize hcapacity, hall⟩

theorem moveQueueing_other (hc : Carries m .queueing name i c source) (hm : Layout m)
    {name' : String} (hname : name' ≠ name) {sends : Nat → Bool} {pending : List (List Byte)}
    {clock : Nat → Nat → ClockTime} (h : moveQueueing m sends pending clock name' s = some t) :
    t.queueing source.name = s.queueing source.name ∧
      ∀ d ∈ c.destinations, t.queueing d.name = s.queueing d.name := by
  obtain ⟨c', r, hc', -, hqueueing, -⟩ := moveQueueing_cases h
  obtain ⟨hdestinations, hsources⟩ := hm.apart hc.stored hc' hname.symm
  rw [hqueueing]
  constructor
  · apply store_of_notMem
    intro hmem
    obtain hmem | hmem := List.mem_append.mp hmem
    · obtain ⟨p, hp, heq⟩ := List.mem_map.mp hmem
      exact hsources source p hc.hasSource (Option.mem_toList.mp hp) heq.symm
    · obtain ⟨d, hd, heq⟩ := List.mem_map.mp hmem
      obtain ⟨j, hj⟩ := hm.destination hc' hd
      exact hm.source_ne_destination hc.owner hj heq.symm
  · intro d hd
    apply store_of_notMem
    intro hmem
    obtain hmem | hmem := List.mem_append.mp hmem
    · obtain ⟨p, hp, heq⟩ := List.mem_map.mp hmem
      obtain ⟨j, hj⟩ := hm.source hc' (Option.mem_toList.mp hp)
      obtain ⟨k, hk⟩ := hm.destination hc.stored hd
      exact hm.source_ne_destination hj hk heq
    · obtain ⟨d', hd', heq⟩ := List.mem_map.mp hmem
      exact hdestinations d hd d' hd' heq.symm

/-! ## What the run keeps -/

/-- What was sent is what the moves have taken and what the source holds; what a
    destination has given away and holds is part of the former. All that was sent counts
    while its partition is stopped; what the moves have taken is what counts while a
    partition is not stopped; and a stopped sender holds nothing, or the channel is
    still to be moved before a partition is continued. -/
structure QueueingFlow (m : ChannelWiring.ModuleManager) (name : String) (i : Nat) (c : Channel)
    (source : PortDescriptor) (moved : List (List Byte)) (s : State) : Prop where
  order : InOrder m s
  opens : Opens s source ∧ ∀ d ∈ c.destinations, Opens s d
  sent : Windows.puts source.name s.queueingLog = moved ++ held s source
  delivered : ∀ d ∈ c.destinations,
    (Windows.takes d.name s.queueingLog ++ held s d).Sublist moved
  closed : i ∉ s.running →
    Windows.closedPuts i source.name s.queueingLog = Windows.puts source.name s.queueingLog
  counted : s.running.Nonempty → moved = Windows.closedPuts i source.name s.queueingLog
  settled : i ∉ s.running →
    held s source = [] ∨ s.running = ∅ ∧ moveAction .queueing name ∈ due s.remaining

/-- Nothing that was moved is lost. -/
def Lossless (c : Channel) (moved : List (List Byte)) (s : State) : Prop :=
  ∀ d ∈ c.destinations, Windows.takes d.name s.queueingLog ++ held s d = moved

theorem QueueingFlow.congr {moved : List (List Byte)}
    (hs : QueueingFlow m name i c source moved s) (horder : InOrder m t)
    (hsource : t.queueing source.name = s.queueing source.name)
    (hdestinations : ∀ d ∈ c.destinations, t.queueing d.name = s.queueing d.name)
    (hlog : t.queueingLog = s.queueingLog) (hrunning : t.running = s.running)
    (hdue : moveAction .queueing name ∈ due s.remaining →
      moveAction .queueing name ∈ due t.remaining) :
    QueueingFlow m name i c source moved t ∧ (Lossless c moved s → Lossless c moved t) := by
  have hheld : held t source = held s source := by rw [held, held, hsource]
  have hkept : ∀ d ∈ c.destinations, held t d = held s d := fun d hd => by
    rw [held, held, hdestinations d hd]
  constructor
  · constructor
    · exact horder
    · exact ⟨hs.opens.1.of_same (by rw [hsource]) (by rw [hsource]), fun d hd =>
        (hs.opens.2 d hd).of_same (by rw [hdestinations d hd]) (by rw [hdestinations d hd])⟩
    · rw [hlog, hheld]
      exact hs.sent
    · intro d hd
      rw [hlog, hkept d hd]
      exact hs.delivered d hd
    · rw [hlog, hrunning]
      exact hs.closed
    · rw [hlog, hrunning]
      exact hs.counted
    · intro hstopped
      rw [hrunning] at hstopped ⊢
      rw [hheld]
      obtain hempty | ⟨hall, hmove⟩ := hs.settled hstopped
      · exact Or.inl hempty
      · exact Or.inr ⟨hall, hdue hmove⟩
  · intro hlossless d hd
    rw [hlog, hkept d hd]
    exact hlossless d hd

/-- A send by a partition: it waits at the source, and counts later. -/
theorem QueueingFlow.send (hc : Carries m .queueing name i c source) (hm : Layout m)
    {moved : List (List Byte)} (hs : QueueingFlow m name i c source moved s) {j : Nat}
    {e : PortDescriptor} {now : ClockTime} {msgPtr : Nat → Byte} {length timeOut : Int}
    (howner : HasPort m .queueing .source j e)
    (h : step m s (.send j e now msgPtr length timeOut) = some t) :
    QueueingFlow m name i c source moved t ∧ (Lossless c moved s → Lossless c moved t) := by
  have horder : InOrder m t := inOrder_step hs.order h
  obtain ⟨hj, rfl | ⟨mq, msg, hmsgsize, hcapacity, helements, ht⟩⟩ := send_cases h
  · exact ⟨hs, id⟩
  have hqueueing : t.queueing = Function.update s.queueing e.name mq := by rw [ht]
  have hlog : t.queueingLog = .put e.name msg :: s.queueingLog := by rw [ht]
  have hrunning : t.running = s.running := by rw [ht]
  -- The port written is a source port, so no destination changes.
  have hkept : ∀ d ∈ c.destinations, held t d = held s d := by
    intro d hd
    obtain ⟨k, hk⟩ := hm.destination hc.stored hd
    rw [held, hqueueing, Function.update_of_ne (hm.source_ne_destination howner hk).symm, held]
  have hsource : e.name ≠ source.name → held t source = held s source := by
    intro hname
    rw [held, hqueueing, Function.update_of_ne (Ne.symm hname), held]
  have hother : i ∉ s.running → e.name ≠ source.name := by
    intro hstopped hname
    obtain ⟨rfl, -⟩ := hm.unique howner hc.owner hname
    exact hstopped hj
  constructor
  · constructor
    · exact horder
    · exact ⟨hs.opens.1.update hqueueing hmsgsize hcapacity,
        fun d hd => (hs.opens.2 d hd).update hqueueing hmsgsize hcapacity⟩
    -- The source of this channel, or of another one.
    · by_cases hname : e.name = source.name
      · calc Windows.puts source.name t.queueingLog
            = Windows.puts source.name s.queueingLog ++ [msg] := by
              rw [hlog, hname, Windows.puts_put_self]
          _ = moved ++ (held s source ++ [msg]) := by rw [hs.sent, List.append_assoc]
          _ = moved ++ held t source := by
              rw [held, held, hqueueing, hname, Function.update_self, helements, hname]
      · rw [hlog, Windows.puts_put_of_ne hname, hsource hname]
        exact hs.sent
    · intro d hd
      rw [hlog, Windows.takes_put, hkept d hd]
      exact hs.delivered d hd
    · intro hstopped
      rw [hrunning] at hstopped
      rw [hlog, Windows.closedPuts_put, Windows.puts_put_of_ne (hother hstopped)]
      exact hs.closed hstopped
    · rw [hlog, hrunning, Windows.closedPuts_put]
      exact hs.counted
    · intro hstopped
      rw [hrunning] at hstopped
      rw [hsource (hother hstopped)]
      exact Or.inl ((hs.settled hstopped).resolve_right fun hdue =>
        Finset.ne_empty_of_mem hj hdue.1)
  · intro hlossless d hd
    rw [hlog, Windows.takes_put, hkept d hd]
    exact hlossless d hd

theorem QueueingFlow.receive (hc : Carries m .queueing name i c source) (hm : Layout m)
    {moved : List (List Byte)} (hs : QueueingFlow m name i c source moved s) {j : Nat}
    {e : PortDescriptor} {now : ClockTime} {msgPtr : Nat → Byte} {timeOut : Int}
    (howner : HasPort m .queueing .destination j e)
    (h : step m s (.receive j e now msgPtr timeOut) = some t) :
    QueueingFlow m name i c source moved t ∧ (Lossless c moved s → Lossless c moved t) := by
  have horder : InOrder m t := inOrder_step hs.order h
  obtain ⟨-, rfl | ⟨mq, msg, hmsgsize, hcapacity, helements, ht⟩⟩ := receive_cases h
  · exact ⟨hs, id⟩
  have hqueueing : t.queueing = Function.update s.queueing e.name mq := by rw [ht]
  have hlog : t.queueingLog = .take e.name msg :: s.queueingLog := by rw [ht]
  have hrunning : t.running = s.running := by rw [ht]
  have hsource : held t source = held s source := by
    rw [held, hqueueing, Function.update_of_ne (hm.source_ne_destination hc.owner howner), held]
  -- What a receive takes from a destination it hands to the partition: together they are as before.
  have hgiven : ∀ d, Windows.takes d.name t.queueingLog ++ held t d =
      Windows.takes d.name s.queueingLog ++ held s d := by
    intro d
    rw [hlog, held, hqueueing, held]
    by_cases hname : e.name = d.name
    · rw [hname, Windows.takes_take_self, Function.update_self, List.append_assoc, ← hname,
        helements, List.singleton_append]
    · rw [Windows.takes_take_of_ne hname, Function.update_of_ne (Ne.symm hname)]
  constructor
  · constructor
    · exact horder
    · exact ⟨hs.opens.1.update hqueueing hmsgsize hcapacity,
        fun d hd => (hs.opens.2 d hd).update hqueueing hmsgsize hcapacity⟩
    · rw [hlog, Windows.puts_take, hsource]
      exact hs.sent
    · intro d hd
      rw [hgiven]
      exact hs.delivered d hd
    · rw [hlog, hrunning, Windows.closedPuts_take, Windows.puts_take]
      exact hs.closed
    · rw [hlog, hrunning, Windows.closedPuts_take]
      exact hs.counted
    · intro hstopped
      rw [hrunning] at hstopped
      rw [hsource, ht]
      exact hs.settled hstopped
  · intro hlossless d hd
    rw [hgiven]
    exact hlossless d hd

theorem QueueingFlow.moved (hc : Carries m .queueing name i c source) (hm : Layout m)
    (hsome : c.destinations ≠ []) {moved : List (List Byte)}
    (hs : QueueingFlow m name i c source moved s) (hstopped : s.running = ∅) {rest : List Action}
    {sends : Nat → Bool} {pending : List (List Byte)} {clock : Nat → Nat → ClockTime}
    (h : moveQueueing m sends pending clock name { s with remaining := rest } = some t)
    (horder : InOrder m t) :
    QueueingFlow m name i c source (moved ++ held s source) t ∧
      ((∀ d ∈ c.destinations,
          (held s d).length + (held s source).length ≤ (s.queueing d.name).capacity) →
        Lossless c moved s → Lossless c (moved ++ held s source) t) := by
  obtain ⟨hopens, hempty, htaken⟩ := move_transfers hc hm (s := { s with remaining := rest })
    hs.opens.1 hs.opens.2 hsome h
  obtain ⟨-, -, -, -, -, -, hrunning, -, -, hlog, -⟩ := moveQueueing_cases h
  simp only [hstopped] at hrunning hlog
  have htaken' : ∀ d ∈ c.destinations,
      held t d = (held s d ++ held s source).take (s.queueing d.name).capacity :=
    fun d hd => (htaken d hd).2
  constructor
  · constructor
    · exact horder
    · exact ⟨hopens, fun d hd => (htaken d hd).1⟩
    · rw [hlog, hempty, List.append_nil]
      exact hs.sent
    · intro d hd
      -- A destination takes the first messages that there is room for.
      have hpart : (held t d).Sublist (held s d ++ held s source) := by
        rw [htaken' d hd]
        exact List.take_sublist _ _
      have hdelivered := (hs.delivered d hd).append (List.Sublist.refl (held s source))
      rw [List.append_assoc] at hdelivered
      rw [hlog]
      exact ((List.Sublist.refl _).append hpart).trans hdelivered
    · rw [hlog]
      exact fun _ => hs.closed (by simp [hstopped])
    · intro hopen
      exact absurd hrunning hopen.ne_empty
    · exact fun _ => Or.inl hempty
  · intro hroom hlossless d hd
    have hall : held t d = held s d ++ held s source := by
      rw [htaken' d hd]
      apply List.take_of_length_le
      rw [List.length_append]
      exact hroom d hd
    rw [hlog, hall, ← List.append_assoc, hlossless d hd]

theorem QueueingFlow.manager (hc : Carries m .queueing name i c source) (hm : Layout m)
    (hsome : c.destinations ≠ []) {moved : List (List Byte)}
    (hs : QueueingFlow m name i c source moved s) {sends : Nat → Bool} {pending : List (List Byte)}
    {clock : Nat → Nat → ClockTime} (h : step m s (.manager sends pending clock) = some t) :
    ∃ moved', QueueingFlow m name i c source moved' t ∧
      (Roomy m name s (.manager sends pending clock) → Lossless c moved s → Lossless c moved' t) := by
  have horder : InOrder m t := inOrder_step hs.order h
  obtain ⟨a, rest, hremaining, hmove, hdue, rfl⟩ | ⟨kind, name', rest, hstopped, hremaining, h⟩ |
    ⟨j, rest, hstopped, hremaining, rfl⟩ | ⟨j, rest, hrunning, hremaining, howed, rfl⟩ :=
    hs.order.manager_cases h
  · -- time passes
    have hkept : moveAction .queueing name ∈ due s.remaining →
        moveAction .queueing name ∈ due rest := by
      rw [hdue]
      intro hmem
      exact (List.mem_cons.mp hmem).resolve_left fun heq => hmove .queueing name heq.symm
    obtain ⟨hflow, hlossless⟩ := hs.congr horder rfl (fun _ _ => rfl) rfl rfl hkept
    exact ⟨moved, hflow, fun _ => hlossless⟩
  · obtain ⟨hrest, hrunning, -, hlog, -⟩ := perform_move h
    have hkept : moveAction .queueing name ≠ moveAction kind name' →
        moveAction .queueing name ∈ due s.remaining →
          moveAction .queueing name ∈ due t.remaining := by
      intro hne hmem
      rw [hremaining, due_move] at hmem
      rw [hrest]
      exact (List.mem_cons.mp hmem).resolve_left hne
    cases kind with
    | sampling =>
      obtain ⟨_, _, -, -, -, -, -, hqueueing, -⟩ := moveSampling_cases h
      obtain ⟨hflow, hlossless⟩ := hs.congr horder (by rw [hqueueing]) (fun _ _ => by rw [hqueueing])
        hlog hrunning (hkept (by rw [Ne, moveAction_inj]; simp))
      exact ⟨moved, hflow, fun _ => hlossless⟩
    | queueing =>
      by_cases hname : name' = name
      · subst hname
        obtain ⟨hflow, hlossless⟩ := hs.moved hc hm hsome hstopped h horder
        refine ⟨_, hflow, fun hroomy => hlossless ?_⟩
        exact hroomy (by rw [hremaining]; rfl) c source hc.stored hc.hasSource
      · obtain ⟨hsource, hdestinations⟩ :=
          moveQueueing_other hc hm (s := { s with remaining := rest }) hname h
        obtain ⟨hflow, hlossless⟩ := hs.congr horder hsource hdestinations hlog hrunning
          (hkept (by rw [Ne, moveAction_inj]; exact fun heq => hname heq.2.symm))
        exact ⟨moved, hflow, fun _ => hlossless⟩
  · -- a partition is continued: nothing can still be due, so all that was sent was moved
    have hsettled : held s source = [] := (hs.settled (by simp [hstopped])).resolve_right
      fun hdue => by
        rw [hremaining, due_sigcont] at hdue
        exact List.not_mem_nil hdue.2
    have hclosed := hs.closed (by simp [hstopped])
    have hcounted : moved = Windows.closedPuts i source.name s.queueingLog := by
      rw [hclosed, hs.sent, hsettled, List.append_nil]
    exact ⟨moved, ⟨horder, hs.opens, hs.sent, hs.delivered, fun _ => hclosed, fun _ => hcounted,
      fun _ => Or.inl hsettled⟩, fun _ => id⟩
  · -- a partition is stopped: its channels become due, and for others nothing changes
    refine ⟨moved, ⟨horder, hs.opens, hs.sent, hs.delivered, fun _ => ?_, ?_, fun _ => ?_⟩,
      fun _ => id⟩
    · by_cases hj : j = i
      · rw [hj, Windows.closedPuts_close, Windows.puts_close]
      · exact Windows.closedPuts_close_of_eq (hs.closed (by simp [hrunning, Ne.symm hj]))
    · exact fun hopen => absurd rfl hopen.ne_empty
    · by_cases hj : j = i
      · exact Or.inr ⟨rfl, hc.due (hj ▸ howed)⟩
      · have hsettled := hs.settled (by simp [hrunning, Ne.symm hj])
        exact Or.inl (hsettled.resolve_right fun hdue => by
          rw [hrunning] at hdue
          exact Finset.singleton_ne_empty j hdue.1)

theorem queueingFlow_step (hc : Carries m .queueing name i c source) (hm : Layout m)
    (hsome : c.destinations ≠ []) {moved : List (List Byte)} {op : Op} (hown : op.Own m)
    (hs : QueueingFlow m name i c source moved s) (h : step m s op = some t) :
    ∃ moved', QueueingFlow m name i c source moved' t ∧
      (Roomy m name s op → Lossless c moved s → Lossless c moved' t) := by
  cases op with
  | manager sends pending clock => exact hs.manager hc hm hsome h
  | write j e w =>
    have horder : InOrder m t := inOrder_step hs.order h
    obtain ⟨-, rfl | ⟨memory, w', rfl, -⟩ | ⟨message, -, rfl⟩⟩ := write_cases h
    · exact ⟨moved, hs, fun _ => id⟩
    · obtain ⟨hflow, hlossless⟩ := hs.congr horder rfl (fun _ _ => rfl) rfl rfl id
      exact ⟨moved, hflow, fun _ => hlossless⟩
    · obtain ⟨hflow, hlossless⟩ := hs.congr horder rfl (fun _ _ => rfl) rfl rfl id
      exact ⟨moved, hflow, fun _ => hlossless⟩
  | send j e now msgPtr length timeOut =>
    obtain ⟨hflow, hlossless⟩ := hs.send hc hm hown h
    exact ⟨moved, hflow, fun _ => hlossless⟩
  | receive j e now msgPtr timeOut =>
    obtain ⟨hflow, hlossless⟩ := hs.receive hc hm hown h
    exact ⟨moved, hflow, fun _ => hlossless⟩

theorem Start.queueingFlow (hc : Carries m .queueing name i c source) (hm : Layout m)
    {timing : Timing} {start : Int} {frames : Nat} (hs : Start m timing start frames s)
    (hready : QueuesReady m s) :
    QueueingFlow m name i c source [] s ∧ Lossless c [] s := by
  have hempty : held s source = [] := hready.empty hc.owner
  have hnothing : ∀ d ∈ c.destinations,
      Windows.takes d.name s.queueingLog ++ held s d = [] := by
    intro d hd
    obtain ⟨j, hj⟩ := hm.destination hc.stored hd
    rw [hs.queueingLog, hready.empty hj]
    rfl
  constructor
  · constructor
    · exact hs.inOrder
    · refine ⟨hready.opens hc.owner, fun d hd => ?_⟩
      obtain ⟨j, hj⟩ := hm.destination hc.stored hd
      exact hready.opens hj
    · rw [hs.queueingLog, hempty]
      rfl
    · intro d hd
      rw [hnothing d hd]
    · rw [hs.queueingLog]
      exact fun _ => rfl
    · rw [hs.queueingLog]
      exact fun _ => rfl
    · exact fun _ => Or.inl hempty
  · exact hnothing

/-- **Queueing through the windows.** In every run a destination gives away and holds
    part of what was sent, in order and nothing twice; while a partition is not stopped,
    part of what was sent before the last window of the sender was closed, and a stopped
    sender has nothing left to be moved; and all of that where each move found room. -/
theorem queueing_through_windows (hm : Layout m) (hc : Carries m .queueing name i c source)
    {timing : Timing} {start : Int} {frames : Nat} {ops : List Op}
    (hs : Start m timing start frames s) (hready : QueuesReady m s)
    (hown : ∀ op ∈ ops, op.Own m) (h : run (step m) s ops = some t) {d : PortDescriptor}
    (hd : d ∈ c.destinations) :
    (Windows.takes d.name t.queueingLog ++ held t d).Sublist
        (Windows.puts source.name t.queueingLog) ∧
      (t.running.Nonempty →
        (Windows.takes d.name t.queueingLog ++ held t d).Sublist
            (Windows.closedPuts i source.name t.queueingLog) ∧
          (i ∉ t.running → held t source = []) ∧
          (Meets (step m) (Roomy m name) s ops →
            Windows.takes d.name t.queueingLog ++ held t d =
              Windows.closedPuts i source.name t.queueingLog)) := by
  have hsome : c.destinations ≠ [] := List.ne_nil_of_mem hd
  obtain ⟨hflow, hlossless⟩ := hs.queueingFlow hc hm hready
  have howns : Meets (step m) (fun _ op => op.Own m) s ops := meets_of_forall hown
  obtain ⟨moved, hflow'⟩ : ∃ moved, QueueingFlow m name i c source moved t := by
    refine run_invariant_of_meets (I := fun s => ∃ moved, QueueingFlow m name i c source moved s)
      ?_ ⟨[], hflow⟩ howns h
    rintro _ _ _ ⟨_, hs⟩ hown h
    obtain ⟨moved', hs', -⟩ := queueingFlow_step hc hm hsome hown hs h
    exact ⟨moved', hs'⟩
  -- What was moved was sent; the rest of what was sent still waits at the source.
  have hpart : moved.Sublist (Windows.puts source.name t.queueingLog) := by
    rw [hflow'.sent]
    exact List.sublist_append_left _ _
  refine ⟨(hflow'.delivered d hd).trans hpart, fun hopen => ⟨?_, fun hstopped => ?_, fun hmeets => ?_⟩⟩
  · rw [← hflow'.counted hopen]
    exact hflow'.delivered d hd
  · exact (hflow'.settled hstopped).resolve_right fun hdue => hopen.ne_empty hdue.1
  · obtain ⟨all, hall, hkept⟩ :
        ∃ moved, QueueingFlow m name i c source moved t ∧ Lossless c moved t := by
      refine run_invariant_of_meets
        (I := fun s => ∃ moved, QueueingFlow m name i c source moved s ∧ Lossless c moved s)
        ?_ ⟨[], hflow, hlossless⟩ (howns.and hmeets) h
      rintro _ _ _ ⟨_, hs, hl⟩ ⟨hown, hroomy⟩ h
      obtain ⟨moved', hs', hl'⟩ := queueingFlow_step hc hm hsome hown hs h
      exact ⟨moved', hs', hl' hroomy hl⟩
    rw [hkept d hd, hall.counted hopen]

end

/-- The channel of the queues. -/
def queuedChannel : Channel :=
  ⟨"queued", true, some ⟨"outQueue", 4, 2, .source⟩, 4, [⟨"inQueue", 4, 2, .destination⟩], false,
    none, 1, .intraModule, []⟩

theorem queuedChannel_carries :
    Carries senderReceiverModule .queueing "queued" 0 queuedChannel
      ⟨"outQueue", 4, 2, .source⟩ where
  stored := rfl
  initialized := rfl
  receiver := rfl
  hasSource := rfl
  owner := ⟨_, rfl, List.mem_singleton.mpr rfl, rfl⟩
  listed := ⟨_, rfl, rfl, List.mem_singleton.mpr rfl⟩
  allows := by decide

theorem allStopped_ready (frames : Nat) : QueuesReady senderReceiverModule (allStopped frames) where
  opens := by
    intro direction i d hd
    have hsize : ∀ q ∈ (shape senderReceiverModule).flatMap (·.2 .queueing),
        q.maxMessageSize = 4 ∧ q.portAttribute = 2 := by decide
    obtain ⟨e, he, hport, -⟩ := hasPort_iff.mp hd
    obtain ⟨hmax, hcapacity⟩ :=
      hsize d (List.mem_flatMap.mpr ⟨e, List.mem_of_getElem? he, hport⟩)
    refine ⟨rfl, ?_, ?_, ?_⟩
    · exact hmax.symm
    · exact hcapacity.symm
    · exact (by decide : 4 < 2 ^ 63)
  empty _ := rfl

instance (m : ChannelWiring.ModuleManager) (name : String) (s : State) (op : Op) :
    Decidable (Roomy m name s op) :=
  decidable_of_iff (s.remaining.head? = some (moveAction .queueing name) →
    ∀ c ∈ m.mapOfChannels .queueing name, ∀ source ∈ c.source, ∀ d ∈ c.destinations,
      (held s d).length + (held s source).length ≤ (s.queueing d.name).capacity)
    ⟨fun h hmove c source hc hsource => h hmove c hc source hsource,
      fun h hmove c hc source hsource => h hmove c source hc hsource⟩

/-- The receiver has the message of the sender when it has taken it, and nothing is
    left of what the sender has sent. -/
theorem queueing_through_windows_receiver :
    ∃ t, run (step senderReceiverModule) (allStopped 1) (untilReceiver ++ [takeMessage]) = some t ∧
      held t ⟨"outQueue", 4, 2, .source⟩ = [] ∧
      Windows.takes "inQueue" t.queueingLog ++ held t ⟨"inQueue", 4, 2, .destination⟩ =
        [[65, 67, 77]] := by
  obtain ⟨t, ht, hopen, hstopped, hputs⟩ :
      ∃ t, run (step senderReceiverModule) (allStopped 1) (untilReceiver ++ [takeMessage]) = some t ∧
        1 ∈ t.running ∧ 0 ∉ t.running ∧
          Windows.closedPuts 0 "outQueue" t.queueingLog = [[65, 67, 77]] :=
    ⟨_, rfl, by decide, by decide, rfl⟩
  have hroomy : Meets (step senderReceiverModule) (Roomy senderReceiverModule "queued")
      (allStopped 1) (untilReceiver ++ [takeMessage]) := by decide +kernel
  obtain ⟨-, hflow⟩ := queueing_through_windows
    (senderReceiver_created.layout senderReceiver_separate) queuedChannel_carries
    (allStopped_start 1) (allStopped_ready 1) senderReceiver_own ht (List.mem_singleton.mpr rfl)
  obtain ⟨-, hempty, hall⟩ := hflow ⟨1, hopen⟩
  exact ⟨t, ht, hempty hstopped, (hall hroomy).trans hputs⟩

end Arinc.Transport
