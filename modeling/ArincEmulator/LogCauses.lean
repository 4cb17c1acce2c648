import ArincEmulator.LogStore

/- A log, line by line, and the health-management events it leaves behind. The events that
   are remembered for `updateHME` are those of type "HME" of the file, in order
   (`Parser.HMInv`): the two lines that are made for a forced stop add none.

   What is proved: whatever lines were read, the events are a causal log, and the lines
   that follow get identifiers above (`readLines_known`, `readLines_append`). -/
namespace Arinc.LogParser
open Strings CausalLog

/-! ## The health-management events -/

/-- The event of a line, where it is of type "HME". -/
def hmEvent (line : Text) : Option LogEvent :=
  (LogEvent.parse line).filter fun p => decide (p.type = "HME".toList)

/-- The health-management events of a log. -/
def hmLines (lines : List Text) : List LogEvent := lines.filterMap hmEvent

/-- The events at `refs` are `events`, in order. A creation among them has the identifier
    1, and any other is stored, under an identifier above those before it. -/
structure Parser.Lists (s : Parser) (refs : List Nat) (events : List LogEvent) : Prop where
  actions : refs.map (fun r => (s.heap r).action) = events.map LogEvent.action
  places : ∀ r ∈ refs, r < s.next
  ordered : refs.Pairwise (· < ·)
  created : ∀ r ∈ refs, (s.heap r).action = "CREATE".toList → (s.heap r).eventID = 1
  stored : ∀ r ∈ refs, (s.heap r).action ≠ "CREATE".toList → s.Stored r
  rising : refs.Pairwise fun r r' =>
    (s.heap r').action ≠ "CREATE".toList → (s.heap r).eventID < (s.heap r').eventID

/-- The same of `HMEvents`, and whether one of them is a deadline violation. -/
structure Parser.HMInv (s : Parser) (events : List LogEvent) : Prop where
  lists : s.Lists s.hmEvents events
  dvDetected : s.dvDetected = events.any LogEvent.isDeadline

theorem hmInv_start : Parser.start.HMInv [] where
  lists :=
    ⟨rfl, fun _ h => absurd h List.not_mem_nil, List.Pairwise.nil,
      fun _ h => absurd h List.not_mem_nil, fun _ h => absurd h List.not_mem_nil,
      List.Pairwise.nil⟩
  dvDetected := rfl

variable {s u : Parser} {refs : List Nat} {events : List LogEvent}

theorem Parser.Lists.mono (h : s.Lists refs events)
    (hheap : ∀ r ∈ refs, (u.heap r).action = (s.heap r).action ∧
      (u.heap r).eventID = (s.heap r).eventID)
    (hnext : s.next ≤ u.next) (hstored : ∀ r ∈ refs, s.Stored r → u.Stored r) :
    u.Lists refs events where
  actions := (List.map_congr_left fun r hr => (hheap r hr).1).trans h.actions
  places := fun r hr => Nat.lt_of_lt_of_le (h.places r hr) hnext
  ordered := h.ordered
  created := by
    intro r hr
    rw [(hheap r hr).1, (hheap r hr).2]
    exact h.created r hr
  stored := by
    intro r hr
    rw [(hheap r hr).1]
    exact fun hcreate => hstored r hr (h.stored r hr hcreate)
  rising := by
    refine h.rising.imp_of_mem fun {r r'} hr hr' hlt => ?_
    rw [(hheap r' hr').1, (hheap r hr).2, (hheap r' hr').2]
    exact hlt

theorem Parser.Lists.concat (h : s.Lists refs events) {r : Nat} {p : LogEvent}
    (hnew : ∀ r' ∈ refs, r' < r) (hplace : r < s.next) (haction : (s.heap r).action = p.action)
    (hcreated : p.action = "CREATE".toList → (s.heap r).eventID = 1)
    (hstored : p.action ≠ "CREATE".toList → s.Stored r)
    (hrising : p.action ≠ "CREATE".toList →
      ∀ r' ∈ refs, (s.heap r').eventID < (s.heap r).eventID) :
    s.Lists (refs ++ [r]) (events ++ [p]) where
  actions := by
    rw [List.map_append, List.map_append, h.actions, List.map_singleton, List.map_singleton, haction]
  places := List.forall_mem_append.mpr ⟨h.places, List.forall_mem_singleton.mpr hplace⟩
  ordered := by
    refine List.pairwise_append.mpr ⟨h.ordered, List.pairwise_singleton _ _, ?_⟩
    exact fun r' hr' => List.forall_mem_singleton.mpr (hnew r' hr')
  created := by
    refine List.forall_mem_append.mpr ⟨h.created, List.forall_mem_singleton.mpr ?_⟩
    rw [haction]
    exact hcreated
  stored := by
    refine List.forall_mem_append.mpr ⟨h.stored, List.forall_mem_singleton.mpr ?_⟩
    rw [haction]
    exact hstored
  rising := by
    refine List.pairwise_append.mpr ⟨h.rising, List.pairwise_singleton _ _, ?_⟩
    refine fun r' hr' => List.forall_mem_singleton.mpr ?_
    rw [haction]
    exact fun hcreate => hrising hcreate r' hr'

theorem Parser.Lists.bounds (h : s.Lists refs events) (hs : s.Inv) {r : Nat} (hr : r ∈ refs) :
    1 ≤ (s.heap r).eventID ∧ (s.heap r).eventID ≤ s.eventID := by
  by_cases hcreate : (s.heap r).action = "CREATE".toList
  · rw [h.created r hr hcreate]
    exact ⟨Int.le_refl 1, hs.pos⟩
  · obtain ⟨-, hpos, hle⟩ := hs.stored_of (h.stored r hr hcreate)
    exact ⟨Int.le_of_lt hpos, hle⟩

theorem Parser.Reads.hmInv {p : LogEvent} (h : s.Reads p u) (hs : s.Inv) (hhm : s.HMInv events) :
    u.HMInv (events ++ if p.type = "HME".toList then [p] else []) := by
  obtain ⟨new, hextends⟩ := h.store
  have hlists : u.Lists s.hmEvents events := by
    refine hhm.lists.mono (fun r hr => ?_) hextends.next fun r _ => hextends.stored_mono hs
    rw [hextends.heap r (hhm.lists.places r hr)]
    exact ⟨rfl, rfl⟩
  have hevents := h.hmEvents
  by_cases hp : p.type = "HME".toList
  · rw [if_pos hp] at hevents ⊢
    refine ⟨?_, ?_⟩
    · rw [hevents]
      refine hlists.concat hhm.lists.places h.next h.action h.created
        (fun hcreate => (h.event hcreate).1) fun hcreate r' hr' => ?_
      rw [hextends.heap r' (hhm.lists.places r' hr')]
      exact Int.lt_of_le_of_lt (hhm.lists.bounds hs hr').2 (h.event hcreate).2
    · rw [h.dvDetected, hhm.dvDetected, List.any_append]
      simp
  · have hdeadline : p.isDeadline = false := decide_eq_false fun h => hp h.1
    rw [if_neg hp] at hevents ⊢
    refine ⟨?_, ?_⟩
    · rw [hevents, List.append_nil]
      exact hlists
    · rw [h.dvDetected, hhm.dvDetected, hdeadline, Bool.or_false, List.append_nil]

/-! ## The log -/

/-- Events are added with identifiers above all that were given. -/
def Parser.Grows (s u : Parser) : Prop :=
  s.eventID ≤ u.eventID ∧ ∃ new, u.eventContents = s.eventContents ++ new ∧
    ∀ a ∈ new, s.eventID < a.1

theorem Parser.Extends.grows {new : List (Int × Nat)} (h : s.Extends u new) : s.Grows u :=
  ⟨h.eventID, new, h.contents, fun a ha => (h.stored a ha).2.2.1⟩

theorem Parser.Grows.refl (s : Parser) : s.Grows s :=
  ⟨Int.le_refl _, [], (List.append_nil _).symm, fun _ h => absurd h List.not_mem_nil⟩

theorem Parser.Grows.trans {v : Parser} (h : s.Grows u) (h' : u.Grows v) : s.Grows v := by
  obtain ⟨hid, new, hcontents, hnew⟩ := h
  obtain ⟨hid', new', hcontents', hnew'⟩ := h'
  refine ⟨Int.le_trans hid hid', new ++ new', ?_, ?_⟩
  · rw [hcontents', hcontents, List.append_assoc]
  · intro a ha
    obtain hold | hlater := List.mem_append.mp ha
    · exact hnew a hold
    · exact Int.lt_of_le_of_lt hid (hnew' a hlater)

/-- What is known between two lines. -/
structure Parser.Known (s : Parser) (events : List LogEvent) : Prop where
  inv : s.Inv
  hmInv : s.HMInv events

/-- The lines that are made for a forced stop add no health-management event, and the
    second one is caused by the event of the line they are made for. -/
theorem generateEndEvent_spec {line : Text} {old : Nat} (hs : s.Known events) (hold : s.Stored old)
    (h : s.generateEndEvent line old = some u) : u.Known events ∧ s.Grows u := by
  obtain ⟨s₁, hend, hrest⟩ := Option.bind_eq_some_iff.mp h
  obtain ⟨s₂, hstop, heq⟩ := Option.map_eq_some_iff.mp hrest
  obtain ⟨p₁, hp₁, hreads₁⟩ := processEvent_spec hs.inv hend
  obtain ⟨new₁, hextends₁⟩ := hreads₁.store
  have hinv₁ := hextends₁.inv hs.inv
  have hhm₁ := hreads₁.hmInv hs.inv hs.hmInv
  rw [if_neg (endLine_type hp₁), List.append_nil] at hhm₁
  obtain ⟨p₂, hp₂, hreads₂⟩ := processEvent_spec hinv₁ hstop
  obtain ⟨new₂, hextends₂⟩ := hreads₂.store
  have hinv₂ := hextends₂.inv hinv₁
  have hhm₂ := hreads₂.hmInv hinv₁ hhm₁
  rw [if_neg (stopLine_type hp₂), List.append_nil] at hhm₂
  have hold₁ := hextends₁.stored_mono hs.inv hold
  have hold₂ := hextends₂.stored_mono hinv₁ hold₁
  have hbelow : (s₂.heap old).eventID ≤ s₁.eventID := by
    rw [hextends₂.heap old (hinv₁.stored_of hold₁).1]
    exact (hinv₁.stored_of hold₁).2.2
  obtain ⟨e, hid, haction, hce, rfl⟩ : ∃ e : LogEvent, e.eventID = (s₂.heap s₁.next).eventID ∧
      e.action = (s₂.heap s₁.next).action ∧ e.ce = (s₂.heap old).eventID ∧
      s₂.replaceEvent s₁.next e = u :=
    ⟨{ s₂.heap s₁.next with ce := (s₂.heap old).eventID, msgID := 1 }, rfl, rfl, rfl, heq⟩
  have hlists := hhm₂.lists.mono (u := s₂.replaceEvent s₁.next e)
    (fun r _ => replaceEvent_fields hid haction r) (Nat.le_refl _)
    fun r _ => replaceEvent_stored hid haction
  refine ⟨⟨hinv₂.replaceEvent hid haction fun hstored => ?_, hlists, hhm₂.dvDetected⟩,
    hextends₁.grows.trans hextends₂.grows⟩
  -- a second event that is stored is above the one of the line
  refine Or.inr ⟨?_, List.mem_map.mpr ⟨_, hold₂, hce.symm⟩⟩
  have hcreate : p₂.action ≠ "CREATE".toList := by
    intro hcreate
    have hone := hreads₂.created hcreate
    have hpos := (hinv₂.stored_of hstored).2.1
    omega
  rw [hce, hid]
  exact Int.lt_of_le_of_lt hbelow (hreads₂.event hcreate).2

theorem readLine_spec {line : Text} (hs : s.Known events) (h : s.readLine line = some u) :
    u.Known (events ++ (hmEvent line).toList) ∧ s.Grows u := by
  obtain ⟨t, hprocess, hrest⟩ := Option.bind_eq_some_iff.mp h
  obtain ⟨p, hp, hreads⟩ := processEvent_spec hs.inv hprocess
  obtain ⟨new, hextends⟩ := hreads.store
  have hevent : (if p.type = "HME".toList then [p] else []) = (hmEvent line).toList := by
    rw [hmEvent, hp, Option.filter_some]
    by_cases htype : p.type = "HME".toList
    · rw [if_pos htype, if_pos (decide_eq_true htype)]
      rfl
    · rw [if_neg htype, if_neg (decide_eq_true_iff.not.mpr htype)]
      rfl
  have hknown : t.Known (events ++ (hmEvent line).toList) :=
    ⟨hextends.inv hs.inv, hevent ▸ hreads.hmInv hs.inv hs.hmInv⟩
  split at hrest
  · rename_i hforced
    -- an event that is forcefully stopped is no creation
    have hcreate : p.action ≠ "CREATE".toList := by
      intro hcreate
      rw [hreads.action, hcreate] at hforced
      exact hforced.2 (by decide)
    obtain ⟨hknown', hgrows⟩ := generateEndEvent_spec hknown (hreads.event hcreate).1 hrest
    exact ⟨hknown', hextends.grows.trans hgrows⟩
  · obtain rfl := Option.some.inj hrest
    exact ⟨hknown, hextends.grows⟩

theorem hmLines_concat (lines : List Text) (line : Text) :
    hmLines (lines ++ [line]) = hmLines lines ++ (hmEvent line).toList := by
  rw [hmLines, hmLines, List.filterMap_append, List.filterMap_cons, List.filterMap_nil]
  cases hmEvent line <;> rfl

theorem readLines_known {lines : List Text} (h : readLines lines = some u) :
    u.Known (hmLines lines) := by
  refine Runs.run_history (I := fun lines t => t.Known (hmLines lines)) ⟨inv_start, hmInv_start⟩
    (fun lines t line v _ ht hline => ?_) h
  rw [hmLines_concat]
  exact (readLine_spec ht hline).1

/-- Whatever was read first is read the same way when more lines follow, which only get
    identifiers above. -/
theorem readLines_append {before rest : List Text} (h : readLines (before ++ rest) = some u) :
    ∃ t, readLines before = some t ∧ t.Inv ∧ t.Grows u := by
  obtain ⟨t, hbefore, hrest⟩ := Runs.run_append_some.mp h
  have hknown := readLines_known hbefore
  have hstep : ∀ v line w, (∃ events, v.Known events ∧ t.Grows v) → v.readLine line = some w →
      ∃ events, w.Known events ∧ t.Grows w := by
    intro v line w hv hline
    obtain ⟨events, hv, hgrows⟩ := hv
    obtain ⟨hw, hmore⟩ := readLine_spec hv hline
    exact ⟨_, hw, hgrows.trans hmore⟩
  obtain ⟨-, -, hgrows⟩ := Runs.run_invariant hstep ⟨_, hknown, Parser.Grows.refl t⟩ hrest
  exact ⟨t, hbefore, hknown.inv, hgrows⟩

end Arinc.LogParser
