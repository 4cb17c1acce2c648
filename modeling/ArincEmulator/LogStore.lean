import ArincEmulator.Lib.CausalLog
import ArincEmulator.LogParser

/- What one line does to the log parser. A line gives its event the next identifier, and an
   extra event the one behind it; a cause is an event that is remembered, or the other
   event of the line (`Parser.Fresh`). So a line adds events above all that were given
   (`store_extends`), and the events stay a causal log (`Parser.Extends.inv`).

   `processEvent_spec` says all that a line does; what follows does not look into
   `processEvent` again. An event on the heap may be replaced by one with another cause,
   as long as that fits (`Parser.Inv.replaceEvent`). -/
namespace Arinc.LogParser
open Strings CausalLog

/-! ## One event -/

theorem parse_fields {line : Text} {p : LogEvent} (h : LogEvent.parse line = some p) :
    p.line = line ∧ p.eventID = 1 ∧ p.msgID = -1 ∧ p.ce = -1 := by
  unfold LogEvent.parse at h
  split at h
  · split at h
    · obtain rfl := Option.some.inj h
      unfold LogEvent.describe
      split
      · exact ⟨rfl, rfl, rfl, rfl⟩
      · split
        · exact ⟨rfl, rfl, rfl, rfl⟩
        · exact ⟨rfl, rfl, rfl, rfl⟩
    · cases h
  · cases h

/-- An event is of a line: it is what the line says, but for the module and the
    identifiers. -/
structure LogEvent.Of (e p : LogEvent) : Prop where
  line : e.line = p.line
  type : e.type = p.type
  desc : e.desc = p.desc
  action : e.action = p.action

/-- What the constructor gives an event: a creation keeps the identifier 1, and any other
    has the next one. No cause is set. -/
theorem init_spec {processes processes' : Processes} {line : Text} {id : Int} {e : LogEvent}
    (h : LogEvent.init processes line id = some (e, processes')) :
    ∃ p, LogEvent.parse line = some p ∧ e.Of p ∧
      e.eventID = (if p.action = "CREATE".toList then 1 else id + 1) ∧ e.msgID = -1 ∧ e.ce = -1 := by
  obtain ⟨p, hp, heq⟩ := Option.map_eq_some_iff.mp h
  obtain ⟨hline, hid, hmsg, hce⟩ := parse_fields hp
  refine ⟨p, hp, ?_⟩
  by_cases hcreate : p.action = "CREATE".toList
  · rw [if_pos hcreate] at heq ⊢
    obtain ⟨rfl, -⟩ := Prod.mk.inj heq
    exact ⟨⟨rfl, rfl, rfl, rfl⟩, hid, hmsg, hce⟩
  · rw [if_neg hcreate] at heq ⊢
    simp only at heq
    split at heq
    · obtain ⟨rfl, -⟩ := Prod.mk.inj heq
      exact ⟨⟨rfl, rfl, rfl, rfl⟩, rfl, hmsg, hce⟩
    · obtain ⟨rfl, -⟩ := Prod.mk.inj heq
      exact ⟨⟨rfl, rfl, rfl, rfl⟩, rfl, hmsg, hce⟩
    · obtain ⟨rfl, -⟩ := Prod.mk.inj heq
      exact ⟨⟨rfl, rfl, rfl, rfl⟩, rfl, hmsg, hce⟩

theorem init_copy {processes processes' : Processes} {id : Int} {e p x : LogEvent}
    (hp : LogEvent.parse p.line = some p) (he : e.Of p) (hcreate : p.action ≠ "CREATE".toList)
    (h : LogEvent.init processes e.line id = some (x, processes')) :
    x.eventID = id + 1 ∧ x.ce = -1 := by
  obtain ⟨p', hp', -, hid, -, hce⟩ := init_spec h
  rw [he.line, hp] at hp'
  obtain rfl := Option.some.inj hp'
  rw [if_neg hcreate] at hid
  exact ⟨hid, hce⟩

/-! ## The constructor -/

/-- A fault whose detection is a deadline violation. -/
def LogEvent.isDeadline (p : LogEvent) : Bool :=
  decide (p.type = "HME".toList ∧ find p.desc "INJECT".toList ≠ -1 ∧
    find p.desc "DEADLINE".toList ≠ -1)

/-- Between two stores nothing changes but what is remembered; of the new event, which is
    to be at the next place, only if it is no creation. -/
structure Parser.Keeps (s t : Parser) (p : LogEvent) : Prop where
  heap : t.heap = s.heap
  next : t.next = s.next
  eventID : t.eventID = s.eventID
  eventContents : t.eventContents = s.eventContents
  invoke : ∀ r ∈ t.invokeEvents, r ∈ s.invokeEvents ∨ r = s.next ∧ p.action ≠ "CREATE".toList
  publish : ∀ r ∈ t.publishEvent, r ∈ s.publishEvent ∨ r = s.next ∧ p.action ≠ "CREATE".toList

/-- The health-management events are left alone. -/
def Parser.Quiet (s t : Parser) : Prop :=
  t.hmEvents = s.hmEvents ∧ t.dvDetected = s.dvDetected

/-- An event of the line that is constructed from `s`. Its cause is one that is remembered. -/
structure Parser.Makes (s : Parser) (p e : LogEvent) : Prop where
  of : e.Of p
  eventID : e.eventID = if p.action = "CREATE".toList then 1 else s.eventID + 1
  msgID : e.msgID = e.ce
  ce : e.ce = -1 ∨ ∃ r, (r ∈ s.invokeEvents ∨ r ∈ s.publishEvent) ∧ e.ce = (s.heap r).eventID

/-- A return event comes two identifiers behind the event it is caused by. -/
def Returns (p e : LogEvent) (returnEvent : Option LogEvent) : Prop :=
  ∀ x ∈ returnEvent, p.action ≠ "CREATE".toList ∧ x.eventID = e.eventID + 2 ∧ x.ce = e.eventID

theorem Parser.Makes.causedBy {s : Parser} {p e : LogEvent} (h : s.Makes p e) {r : Nat}
    (hr : r ∈ s.invokeEvents ∨ r ∈ s.publishEvent) :
    s.Makes p (e.causedBy (s.heap r).eventID) where
  of := ⟨h.of.line, h.of.type, h.of.desc, h.of.action⟩
  eventID := h.eventID
  msgID := rfl
  ce := Or.inr ⟨r, hr, rfl⟩

theorem genInvokeEventMsg_spec {s t : Parser} {p e e' : LogEvent} {returnEvent : Option LogEvent}
    (hp : LogEvent.parse p.line = some p) (he : s.Makes p e)
    (h : s.genInvokeEventMsg e = some (t, e', returnEvent)) :
    s.Keeps t p ∧ s.Quiet t ∧ s.Makes p e' ∧ Returns p e' returnEvent := by
  have hself : s.Keeps s p := ⟨rfl, rfl, rfl, rfl, fun _ => Or.inl, fun _ => Or.inl⟩
  have hclear : ∀ processes, s.Keeps { s with processes, invokeEvents := [] } p := fun processes =>
    ⟨rfl, rfl, rfl, rfl, fun _ hr => absurd hr List.not_mem_nil, fun _ => Or.inl⟩
  have hnone : ∀ e, Returns p e none := fun e x hx => by cases hx
  unfold Parser.genInvokeEventMsg at h
  split at h
  · obtain ⟨rfl, rfl, rfl⟩ := by simpa using h
    exact ⟨hself, ⟨rfl, rfl⟩, he, hnone _⟩
  · rename_i first rest hfirst
    have hcause := he.causedBy (Or.inl (show first ∈ s.invokeEvents by simp [hfirst]))
    simp only at h
    split at h
    · obtain ⟨rfl, rfl, rfl⟩ := by simpa using h
      exact ⟨hclear _, ⟨rfl, rfl⟩, hcause, hnone _⟩
    · split at h
      · obtain ⟨rfl, rfl, rfl⟩ := by simpa using h
        exact ⟨hself, ⟨rfl, rfl⟩, hcause, hnone _⟩
      · split at h
        · -- the return event is a copy
          rename_i hend
          have hcreate : p.action ≠ "CREATE".toList := by
            rw [← he.of.action, hend.1]
            decide
          obtain ⟨⟨x, processes⟩, hcopy, heq⟩ := Option.map_eq_some_iff.mp h
          obtain ⟨rfl, rfl, rfl⟩ := by simpa using heq
          obtain ⟨hid, -⟩ := init_copy hp he.of hcreate hcopy
          refine ⟨hclear _, ⟨rfl, rfl⟩, he, ?_⟩
          intro x' hx'
          obtain rfl := Option.some.inj hx'
          refine ⟨hcreate, ?_, rfl⟩
          show x.eventID = e.eventID + 2
          omega
        · split at h
          · obtain ⟨rfl, rfl, rfl⟩ := by simpa using h
            exact ⟨hclear _, ⟨rfl, rfl⟩, hcause, hnone _⟩
          · obtain ⟨rfl, rfl, rfl⟩ := by simpa using h
            exact ⟨hself, ⟨rfl, rfl⟩, he, hnone _⟩

theorem recordInvoke_spec {s : Parser} {p e : LogEvent} (he : e.Of p) :
    s.Keeps (s.recordInvoke e) p ∧ s.Quiet (s.recordInvoke e) ∧
      (s.recordInvoke e).publishEvent = s.publishEvent := by
  unfold Parser.recordInvoke
  split
  · rename_i hinvoke
    have hcreate : p.action ≠ "CREATE".toList := by
      rw [← he.action]
      obtain h | h := hinvoke
      · rw [h]
        decide
      · rw [h]
        decide
    refine ⟨⟨rfl, rfl, rfl, rfl, fun r hr => ?_, fun _ => Or.inl⟩, ⟨rfl, rfl⟩, rfl⟩
    exact (List.mem_append.mp hr).imp_right fun hr => ⟨List.mem_singleton.mp hr, hcreate⟩
  · exact ⟨⟨rfl, rfl, rfl, rfl, fun _ => Or.inl, fun _ => Or.inl⟩, ⟨rfl, rfl⟩, rfl⟩

theorem recordPublishToConsumeConn_spec {s t : Parser} {p e : LogEvent} (he : s.Makes p e)
    (hkeeps : s.Keeps t p) (hpublish : t.publishEvent = s.publishEvent) :
    s.Keeps (t.recordPublishToConsumeConn e).1 p ∧ t.Quiet (t.recordPublishToConsumeConn e).1 ∧
      s.Makes p (t.recordPublishToConsumeConn e).2 := by
  unfold Parser.recordPublishToConsumeConn
  split
  · rename_i haction
    have hcreate : p.action ≠ "CREATE".toList := by
      rw [← he.of.action, haction]
      decide
    refine ⟨⟨hkeeps.heap, hkeeps.next, hkeeps.eventID, hkeeps.eventContents, hkeeps.invoke,
      fun r hr => ?_⟩, ⟨rfl, rfl⟩, he⟩
    obtain rfl := Option.some.inj hr
    exact Or.inr ⟨hkeeps.next, hcreate⟩
  · split
    · split
      · exact ⟨hkeeps, ⟨rfl, rfl⟩, he⟩
      · rename_i publish hsome
        rw [hpublish] at hsome
        refine ⟨⟨hkeeps.heap, hkeeps.next, hkeeps.eventID, hkeeps.eventContents, hkeeps.invoke,
          fun r hr => by cases hr⟩, ⟨rfl, rfl⟩, ?_⟩
        show s.Makes p (e.causedBy (t.heap publish).eventID)
        rw [hkeeps.heap]
        exact he.causedBy (Or.inr hsome)
    · exact ⟨hkeeps, ⟨rfl, rfl⟩, he⟩

theorem recordPublishToConsumeConn_of_start {t : Parser} {e : LogEvent}
    (h : e.action = "START_PROCESS".toList ∨ e.action = "END_PROCESS".toList) :
    t.recordPublishToConsumeConn e = (t, e) := by
  unfold Parser.recordPublishToConsumeConn
  obtain h | h := h
  · rw [h, if_neg (by decide), if_neg (by decide)]
  · rw [h, if_neg (by decide), if_neg (by decide)]

theorem record_spec {s t : Parser} {p e e' : LogEvent} {returnEvent : Option LogEvent}
    (hp : LogEvent.parse p.line = some p) (he : s.Makes p e)
    (h : ((s.recordInvoke e).recordStart e).map (fun (s, e, returnEvent) =>
      ((s.recordPublishToConsumeConn e).1, (s.recordPublishToConsumeConn e).2, returnEvent)) =
        some (t, e', returnEvent)) :
    s.Keeps t p ∧ s.Quiet t ∧ s.Makes p e' ∧ Returns p e' returnEvent := by
  obtain ⟨⟨s₁, e₁, ret⟩, hstart, heq⟩ := Option.map_eq_some_iff.mp h
  obtain ⟨rfl, rfl, rfl⟩ := by simpa using heq
  unfold Parser.recordStart at hstart
  split at hstart
  · rename_i haction
    have hinvoke : s.recordInvoke e = s := by
      unfold Parser.recordInvoke
      obtain h | h := haction
      · rw [h, if_neg (by decide)]
      · rw [h, if_neg (by decide)]
    rw [hinvoke] at hstart
    obtain ⟨hkeeps, hquiet, hmakes, hreturns⟩ := genInvokeEventMsg_spec hp he hstart
    have haction' : e₁.action = e.action := hmakes.of.action.trans he.of.action.symm
    rw [recordPublishToConsumeConn_of_start (haction' ▸ haction)]
    exact ⟨hkeeps, hquiet, hmakes, hreturns⟩
  · obtain ⟨rfl, rfl, rfl⟩ := by simpa using hstart
    obtain ⟨hkeeps, hquiet, hpublish⟩ := recordInvoke_spec (s := s) he.of
    obtain ⟨hkeeps', hquiet', hmakes⟩ := recordPublishToConsumeConn_spec he hkeeps hpublish
    refine ⟨hkeeps', ⟨hquiet'.1.trans hquiet.1, hquiet'.2.trans hquiet.2⟩, hmakes, ?_⟩
    intro x hx
    cases hx

theorem construct_spec {s t : Parser} {line : Text} {e : LogEvent} {returnEvent : Option LogEvent}
    (h : s.construct line = some (t, e, returnEvent)) :
    ∃ p, LogEvent.parse line = some p ∧ s.Keeps t p ∧ s.Makes p e ∧ Returns p e returnEvent ∧
      t.hmEvents = (if p.type = "HME".toList then s.hmEvents ++ [s.next] else s.hmEvents) ∧
      t.dvDetected = (s.dvDetected || p.isDeadline) := by
  obtain ⟨⟨e₀, processes⟩, hinit, hrest⟩ := Option.bind_eq_some_iff.mp h
  obtain ⟨p, hp, hof, hid, hmsg, hce⟩ := init_spec hinit
  have hline : LogEvent.parse p.line = some p := (parse_fields hp).1.symm ▸ hp
  -- the processes are of no interest to what follows
  have hmakes : ({ s with processes } : Parser).Makes p e₀ :=
    ⟨hof, hid, hmsg.trans hce.symm, Or.inl hce⟩
  refine ⟨p, hp, ?_⟩
  simp only [hof.type] at hrest
  by_cases hhme : p.type = "HME".toList
  · rw [if_pos hhme] at hrest
    obtain ⟨rfl, rfl, rfl⟩ := by simpa using hrest
    have hinvoke : ∀ r ∈ (({ s with processes } : Parser).recordHME e₀).invokeEvents,
        r ∈ s.invokeEvents ∨ r = s.next ∧ p.action ≠ "CREATE".toList := by
      intro r hr
      simp only [Parser.recordHME] at hr
      split at hr
      · rename_i hrestart
        refine (List.mem_append.mp hr).imp_right fun hr => ⟨List.mem_singleton.mp hr, ?_⟩
        rw [← hof.action]
        intro hcreate
        rw [hcreate] at hrestart
        exact hrestart (by decide)
      · exact Or.inl hr
    refine ⟨⟨rfl, rfl, rfl, rfl, hinvoke, fun _ => Or.inl⟩,
      ⟨hmakes.of, hmakes.eventID, hmakes.msgID, hmakes.ce⟩, (fun x hx => by cases hx), ?_, ?_⟩
    · rw [if_pos hhme]
      rfl
    · have hdeadline : decide (find e₀.desc "INJECT".toList ≠ -1 ∧
          find e₀.desc "DEADLINE".toList ≠ -1) = p.isDeadline := by
        rw [LogEvent.isDeadline, decide_eq_decide, hof.desc]
        exact (and_iff_right hhme).symm
      exact congrArg (s.dvDetected || ·) hdeadline
  · rw [if_neg hhme] at hrest
    obtain ⟨hkeeps, hquiet, hmakes', hreturns⟩ := record_spec hline hmakes hrest
    refine ⟨⟨hkeeps.heap, hkeeps.next, hkeeps.eventID, hkeeps.eventContents, hkeeps.invoke,
      hkeeps.publish⟩, ⟨hmakes'.of, hmakes'.eventID, hmakes'.msgID, hmakes'.ce⟩, hreturns, ?_, ?_⟩
    · rw [if_neg hhme]
      exact hquiet.1
    · have hdeadline : p.isDeadline = false := decide_eq_false fun h => hhme h.1
      rw [hquiet.2, hdeadline, Bool.or_false]

/-! ## The extra event -/

/-- An event and its extra event, ready to be stored: their identifiers are new and not the
    same, and each has no cause, or one that is remembered, or the other event where that
    comes first. -/
structure Parser.Fresh (s : Parser) (p e : LogEvent) (extraEvent : Option LogEvent) : Prop where
  action : e.action = p.action
  above : s.eventID < e.eventID
  caused : e.ce = -1 ∨
    (∃ r, (r ∈ s.invokeEvents ∨ r ∈ s.publishEvent) ∧ e.ce = (s.heap r).eventID) ∨
    ∃ x ∈ extraEvent, e.ce = x.eventID ∧ x.eventID < e.eventID
  extra : ∀ x ∈ extraEvent, s.eventID < x.eventID ∧ x.eventID ≠ e.eventID ∧
    (x.ce = -1 ∨ x.ce = e.eventID ∧ e.eventID < x.eventID)

theorem Parser.Makes.fresh {s : Parser} {p e : LogEvent} (h : s.Makes p e)
    (hcreate : p.action ≠ "CREATE".toList) {extraEvent : Option LogEvent}
    (hextra : ∀ x ∈ extraEvent, x.ce = e.eventID ∧ e.eventID < x.eventID) :
    s.Fresh p e extraEvent := by
  have hid := h.eventID
  rw [if_neg hcreate] at hid
  refine ⟨h.of.action, by omega, h.ce.imp_right Or.inl, fun x hx => ?_⟩
  obtain ⟨hce, hlt⟩ := hextra x hx
  exact ⟨by omega, by omega, Or.inr ⟨hce, hlt⟩⟩

theorem postProcessing_spec {s t t' : Parser} {p e e' : LogEvent}
    {returnEvent extraEvent : Option LogEvent} (hp : LogEvent.parse p.line = some p)
    (he : s.Makes p e) (hreturns : Returns p e returnEvent) (hcreate : p.action ≠ "CREATE".toList)
    (h : t.postProcessing e returnEvent = some (t', e', extraEvent)) :
    (∃ processes, t' = { t with processes }) ∧ s.Fresh p e' extraEvent := by
  have hnone : s.Fresh p e none := he.fresh hcreate fun x hx => by cases hx
  unfold Parser.postProcessing at h
  split at h
  · -- the return from a method
    obtain ⟨rfl, rfl, rfl⟩ := by simpa using h
    refine ⟨⟨_, rfl⟩, he.fresh hcreate fun x hx => ?_⟩
    obtain ⟨-, hid, hce⟩ := hreturns x hx
    exact ⟨hce, by omega⟩
  split at h
  · obtain ⟨rfl, rfl, rfl⟩ := by simpa using h
    exact ⟨⟨_, rfl⟩, hnone⟩
  split at h
  · split at h
    · obtain ⟨rfl, rfl, rfl⟩ := by simpa using h
      exact ⟨⟨_, rfl⟩, hnone⟩
    · -- the effect of a fault
      obtain ⟨⟨x, processes⟩, hcopy, heq⟩ := Option.map_eq_some_iff.mp h
      obtain ⟨rfl, rfl, rfl⟩ := by simpa using heq
      obtain ⟨hid, -⟩ := init_copy hp he.of hcreate hcopy
      refine ⟨⟨_, rfl⟩, he.fresh hcreate fun x' hx' => ?_⟩
      obtain rfl := Option.some.inj hx'
      refine ⟨rfl, ?_⟩
      show e.eventID < x.eventID
      omega
  split at h
  · -- the order of a manager, which takes the identifier of the event
    obtain ⟨⟨x, processes⟩, hcopy, hrest⟩ := Option.bind_eq_some_iff.mp h
    obtain ⟨moduleID, -, heq⟩ := Option.map_eq_some_iff.mp hrest
    obtain ⟨rfl, rfl, rfl⟩ := by simpa using heq
    obtain ⟨hid, hce⟩ := init_copy hp he.of hcreate hcopy
    have hid' := he.eventID
    rw [if_neg hcreate] at hid'
    refine ⟨⟨_, rfl⟩, he.of.action, ?_, Or.inr (Or.inr ⟨_, rfl, rfl, ?_⟩), fun x' hx' => ?_⟩
    · show s.eventID < e.eventID + 1
      omega
    · show x.eventID < e.eventID + 1
      omega
    · obtain rfl := Option.some.inj hx'
      refine ⟨?_, ?_, Or.inl hce⟩
      · show s.eventID < x.eventID
        omega
      · show x.eventID ≠ e.eventID + 1
        omega
  · obtain ⟨rfl, rfl, rfl⟩ := by simpa using h
    exact ⟨⟨_, rfl⟩, hnone⟩

/-! ## The invariant -/

/-- The cause of an event, where it has one. -/
def LogEvent.cause (e : LogEvent) : Option Int := if e.ce = -1 then none else some e.ce

/-- The events that were stored, each with the identifier it was stored under. -/
def Parser.entries (s : Parser) : List (Int × Option Int) :=
  s.eventContents.map fun a => (a.1, (s.heap a.2).cause)

/-- An event is stored under its identifier. -/
def Parser.Stored (s : Parser) (r : Nat) : Prop := ((s.heap r).eventID, r) ∈ s.eventContents

/-- Between two lines: every event is stored under its own identifier, none is above the
    last one given, the events are a causal log, and what is remembered is stored. -/
structure Parser.Inv (s : Parser) : Prop where
  pos : 1 ≤ s.eventID
  stored : ∀ a ∈ s.eventContents,
    a.2 < s.next ∧ (s.heap a.2).eventID = a.1 ∧ 1 < a.1 ∧ a.1 ≤ s.eventID
  causal : Causal s.entries
  invoke : ∀ r ∈ s.invokeEvents, s.Stored r
  publish : ∀ r ∈ s.publishEvent, s.Stored r

theorem inv_start : Parser.start.Inv where
  pos := Int.le_refl 1
  stored := fun _ h => absurd h List.not_mem_nil
  causal := causal_nil
  invoke := fun _ h => absurd h List.not_mem_nil
  publish := fun _ h => by cases h

theorem ids_entries (s : Parser) : ids s.entries = s.eventContents.map Prod.fst := by
  unfold ids Parser.entries
  rw [List.map_map]
  rfl

/-- A cause that is none, or the identifier of an event that is stored and comes first. -/
def CauseFits (e : LogEvent) (id : Int) (known : List Int) : Prop :=
  e.ce = -1 ∨ e.ce < id ∧ e.ce ∈ known

theorem CauseFits.caused {e : LogEvent} {id : Int} {known : List Int} (h : CauseFits e id known) :
    Caused known (id, e.cause) := by
  unfold LogEvent.cause
  split
  · exact caused_none known id
  · rename_i hce
    intro c hc
    obtain rfl := Option.some.inj hc
    exact h.resolve_left hce

theorem Parser.Inv.stored_of {s : Parser} (h : s.Inv) {r : Nat} (hr : s.Stored r) :
    r < s.next ∧ 1 < (s.heap r).eventID ∧ (s.heap r).eventID ≤ s.eventID := by
  obtain ⟨hnext, -, hpos, hle⟩ := h.stored _ hr
  exact ⟨hnext, hpos, hle⟩

/-- What a line does to the store: it may add events, with identifiers above all that were
    given and causes that fit. -/
structure Parser.Extends (s u : Parser) (new : List (Int × Nat)) : Prop where
  heap : ∀ r < s.next, u.heap r = s.heap r
  next : s.next ≤ u.next
  eventID : s.eventID ≤ u.eventID
  contents : u.eventContents = s.eventContents ++ new
  stored : ∀ a ∈ new,
    a.2 < u.next ∧ (u.heap a.2).eventID = a.1 ∧ s.eventID < a.1 ∧ a.1 ≤ u.eventID
  unique : (new.map Prod.fst).Nodup
  caused : ∀ a ∈ new, CauseFits (u.heap a.2) a.1 (u.eventContents.map Prod.fst)
  invoke : ∀ r ∈ u.invokeEvents, r ∈ s.invokeEvents ∨ u.Stored r
  publish : ∀ r ∈ u.publishEvent, r ∈ s.publishEvent ∨ u.Stored r

theorem Parser.Extends.stored_mono {s u : Parser} {new : List (Int × Nat)} (h : s.Extends u new)
    (hs : s.Inv) {r : Nat} (hr : s.Stored r) : u.Stored r := by
  unfold Parser.Stored
  rw [h.heap r (hs.stored_of hr).1, h.contents]
  exact List.mem_append_left _ hr

theorem Parser.Extends.inv {s u : Parser} {new : List (Int × Nat)} (h : s.Extends u new)
    (hs : s.Inv) : u.Inv where
  pos := Int.le_trans hs.pos h.eventID
  stored := by
    intro a ha
    rw [h.contents] at ha
    obtain hold | hnew := List.mem_append.mp ha
    · obtain ⟨hnext, hid, hpos, hle⟩ := hs.stored a hold
      have hheap := h.heap a.2 hnext
      have hnext' := h.next
      have hle' := h.eventID
      rw [hheap]
      exact ⟨by omega, hid, hpos, by omega⟩
    · obtain ⟨hnext, hid, hlt, hle⟩ := h.stored a hnew
      have hpos := hs.pos
      exact ⟨hnext, hid, by omega, hle⟩
  causal := by
    have hentries : u.entries = s.entries ++ new.map fun a => (a.1, (u.heap a.2).cause) := by
      unfold Parser.entries
      rw [h.contents, List.map_append]
      congr 1
      apply List.map_congr_left
      intro a ha
      rw [h.heap a.2 (hs.stored a ha).1]
    have hids : ids (new.map fun a => (a.1, (u.heap a.2).cause)) = new.map Prod.fst := by
      unfold ids
      rw [List.map_map]
      rfl
    have hall := ids_entries u
    rw [hentries] at hall ⊢
    refine hs.causal.append Int.lt_irrefl (hids ▸ h.unique) ?_ ?_
    -- All new ids are above the highest id so far.
    · rw [hids, ids_entries]
      intro id hid id' hid'
      obtain ⟨a, ha, rfl⟩ := List.mem_map.mp hid
      obtain ⟨b, hb, rfl⟩ := List.mem_map.mp hid'
      have habove := (h.stored a ha).2.2.1
      have hbelow := (hs.stored b hb).2.2.2
      omega
    · rw [hall]
      intro e he
      obtain ⟨a, ha, rfl⟩ := List.mem_map.mp he
      exact (h.caused a ha).caused
  invoke := fun r hr => (h.invoke r hr).elim (fun hold => h.stored_mono hs (hs.invoke r hold)) id
  publish := fun r hr => (h.publish r hr).elim (fun hold => h.stored_mono hs (hs.publish r hold)) id

theorem causeFits_of_remembered {s : Parser} (hs : s.Inv) {e : LogEvent} {id : Int} {known : List Int}
    (hknown : s.eventContents.map Prod.fst ⊆ known) (hid : s.eventID < id)
    (h : ∃ r, (r ∈ s.invokeEvents ∨ r ∈ s.publishEvent) ∧ e.ce = (s.heap r).eventID) :
    CauseFits e id known := by
  obtain ⟨r, hr, hce⟩ := h
  have hstored : s.Stored r := hr.elim (hs.invoke r) (hs.publish r)
  have hle := (hs.stored_of hstored).2.2
  exact Or.inr ⟨by omega, hknown (List.mem_map.mpr ⟨_, hstored, hce.symm⟩)⟩

/-- Where an event and its extra event are stored. -/
def placed (next : Nat) (e : LogEvent) (extraEvent : Option LogEvent) : List (Int × Nat) :=
  (extraEvent.toList.map fun x => (x.eventID, next + 1)) ++ [(e.eventID, next)]

theorem mem_placed {next : Nat} {e : LogEvent} {extraEvent : Option LogEvent} {a : Int × Nat}
    (h : a ∈ placed next e extraEvent) :
    a = (e.eventID, next) ∨ ∃ x ∈ extraEvent, a = (x.eventID, next + 1) := by
  obtain hextra | hself := List.mem_append.mp h
  · obtain ⟨x, hx, rfl⟩ := List.mem_map.mp hextra
    exact Or.inr ⟨x, Option.mem_toList.mp hx, rfl⟩
  · exact Or.inl (List.mem_singleton.mp hself)

theorem store_fields (t : Parser) (e : LogEvent) (extraEvent : Option LogEvent) :
    (∀ r < t.next, (t.store e extraEvent).heap r = t.heap r) ∧
      (t.store e extraEvent).heap t.next = e ∧
      (∀ x ∈ extraEvent, (t.store e extraEvent).heap (t.next + 1) = x ∧
        t.next + 1 < (t.store e extraEvent).next ∧ x.eventID ≤ (t.store e extraEvent).eventID) ∧
      t.next < (t.store e extraEvent).next ∧ e.eventID ≤ (t.store e extraEvent).eventID ∧
      (t.store e extraEvent).eventContents = t.eventContents ++ placed t.next e extraEvent := by
  cases extraEvent with
  | none =>
    refine ⟨fun r hr => ?_, ?_, (fun x hx => by cases hx), Nat.lt_succ_self _, Int.le_refl _, rfl⟩
    · exact Function.update_of_ne (Nat.ne_of_lt hr) _ _
    · exact Function.update_self _ _ _
  | some x =>
    refine ⟨fun r hr => ?_, ?_, fun x' hx => ?_, Nat.lt_add_of_pos_right (by decide),
      Int.le_max_left _ _, rfl⟩
    · show Function.update (Function.update t.heap t.next e) (t.next + 1) x r = t.heap r
      rw [Function.update_of_ne (by omega), Function.update_of_ne (by omega)]
    · show Function.update (Function.update t.heap t.next e) (t.next + 1) x t.next = e
      rw [Function.update_of_ne (by omega), Function.update_self]
    · obtain rfl := Option.some.inj hx
      exact ⟨Function.update_self _ _ _, Nat.lt_succ_self _, Int.le_max_right _ _⟩

theorem store_extends {s t : Parser} {p e : LogEvent} {extraEvent : Option LogEvent} (hs : s.Inv)
    (hkeeps : s.Keeps t p) (hfresh : s.Fresh p e extraEvent) :
    s.Extends (t.store e extraEvent) (placed s.next e extraEvent) := by
  obtain ⟨hheap, hself, hextra, hnext, hid, hcontents⟩ := store_fields t e extraEvent
  rw [hkeeps.heap, hkeeps.next] at hheap
  rw [hkeeps.next] at hself hextra hnext
  rw [hkeeps.next, hkeeps.eventContents] at hcontents
  have habove := hfresh.above
  -- The new events go behind all that is stored, the extra one before the one it is stored with.
  have hmem : (e.eventID, s.next) ∈ (t.store e extraEvent).eventContents := by
    rw [hcontents]
    exact List.mem_append_right _ (List.mem_append_right _ (List.mem_singleton_self _))
  have hmem' : ∀ x ∈ extraEvent, (x.eventID, s.next + 1) ∈ (t.store e extraEvent).eventContents := by
    intro x hx
    rw [hcontents]
    refine List.mem_append_right _ (List.mem_append_left _ ?_)
    exact List.mem_map.mpr ⟨x, Option.mem_toList.mpr hx, rfl⟩
  have hstored : (t.store e extraEvent).Stored s.next := by
    unfold Parser.Stored
    rw [hself]
    exact hmem
  refine ⟨hheap, Nat.le_of_lt hnext, by omega, hcontents, fun a ha => ?_, ?_, fun a ha => ?_,
    fun r hr => ?_, fun r hr => ?_⟩
  · obtain rfl | ⟨x, hx, rfl⟩ := mem_placed ha
    · exact ⟨hnext, congrArg LogEvent.eventID hself, habove, hid⟩
    · obtain ⟨hplace, hlt, hle⟩ := hextra x hx
      exact ⟨hlt, congrArg LogEvent.eventID hplace, (hfresh.extra x hx).1, hle⟩
  · cases extraEvent with
    | none => exact List.nodup_singleton _
    | some x =>
      have hne := (hfresh.extra x rfl).2.1
      simp [placed, hne]
  · obtain rfl | ⟨x, hx, rfl⟩ := mem_placed ha
    · show CauseFits ((t.store e extraEvent).heap s.next) e.eventID _
      rw [hself]
      -- A cause is none, an event remembered from an earlier line, or the extra event of this line.
      obtain hnone | hremembered | ⟨x, hx, hce, hlt⟩ := hfresh.caused
      · exact Or.inl hnone
      · refine causeFits_of_remembered hs ?_ habove hremembered
        rw [hcontents, List.map_append]
        exact List.subset_append_left _ _
      · exact Or.inr ⟨by omega, List.mem_map.mpr ⟨_, hmem' x hx, hce.symm⟩⟩
    · show CauseFits ((t.store e extraEvent).heap (s.next + 1)) x.eventID _
      rw [(hextra x hx).1]
      refine (hfresh.extra x hx).2.2.imp_right fun h => ?_
      exact ⟨by omega, List.mem_map.mpr ⟨_, hmem, h.1.symm⟩⟩
  · have hr : r ∈ t.invokeEvents := by cases extraEvent <;> exact hr
    refine (hkeeps.invoke r hr).imp_right fun hnew => ?_
    rw [hnew.1]
    exact hstored
  · have hr : r ∈ t.publishEvent := by cases extraEvent <;> exact hr
    refine (hkeeps.publish r hr).imp_right fun hnew => ?_
    rw [hnew.1]
    exact hstored

/-! ## A line -/

/-- What the parser knows after an event of a line. -/
structure Parser.Reads (s : Parser) (p : LogEvent) (u : Parser) : Prop where
  store : ∃ new, s.Extends u new
  next : s.next < u.next
  action : (u.heap s.next).action = p.action
  hmEvents : u.hmEvents = if p.type = "HME".toList then s.hmEvents ++ [s.next] else s.hmEvents
  dvDetected : u.dvDetected = (s.dvDetected || p.isDeadline)
  created : p.action = "CREATE".toList → (u.heap s.next).eventID = 1
  event : p.action ≠ "CREATE".toList → u.Stored s.next ∧ s.eventID < (u.heap s.next).eventID

theorem processEvent_spec {s u : Parser} {line : Text} (hs : s.Inv)
    (h : s.processEvent line = some u) : ∃ p, LogEvent.parse line = some p ∧ s.Reads p u := by
  obtain ⟨⟨t, e, returnEvent⟩, hconstruct, hrest⟩ := Option.bind_eq_some_iff.mp h
  obtain ⟨p, hp, hkeeps, hmakes, hreturns, hhm, hdv⟩ := construct_spec hconstruct
  have hline : LogEvent.parse p.line = some p := (parse_fields hp).1.symm ▸ hp
  have hid := hmakes.eventID
  refine ⟨p, hp, ?_⟩
  simp only [hmakes.of.action] at hrest
  by_cases hcreate : p.action = "CREATE".toList
  · -- a creation is not stored
    rw [if_pos hcreate] at hrest hid
    obtain rfl := Option.some.inj hrest
    have hself : Function.update t.heap t.next e s.next = e := by
      rw [hkeeps.next, Function.update_self]
    have hnext : s.next < t.next + 1 := by
      rw [hkeeps.next]
      exact Nat.lt_succ_self _
    refine ⟨⟨[], ?_⟩, hnext, (congrArg LogEvent.action hself).trans hmakes.of.action, hhm, hdv,
      fun _ => (congrArg LogEvent.eventID hself).trans hid, fun h => absurd hcreate h⟩
    refine ⟨fun r hr => ?_, Nat.le_of_lt hnext, Int.le_of_eq hkeeps.eventID.symm, ?_,
      (fun _ h => absurd h List.not_mem_nil), List.nodup_nil,
      (fun _ h => absurd h List.not_mem_nil),
      fun r hr => (hkeeps.invoke r hr).imp_right fun h => absurd hcreate h.2,
      fun r hr => (hkeeps.publish r hr).imp_right fun h => absurd hcreate h.2⟩
    · show Function.update t.heap t.next e r = s.heap r
      rw [hkeeps.heap, hkeeps.next, Function.update_of_ne (Nat.ne_of_lt hr)]
    · rw [List.append_nil]
      exact hkeeps.eventContents
  · rw [if_neg hcreate] at hrest
    obtain ⟨⟨t', e', extraEvent⟩, hpost, heq⟩ := Option.map_eq_some_iff.mp hrest
    obtain ⟨⟨processes, rfl⟩, hfresh⟩ := postProcessing_spec hline hmakes hreturns hcreate hpost
    obtain rfl : Parser.store { t with processes } e' extraEvent = u := heq
    have hkeeps' : s.Keeps { t with processes } p :=
      ⟨hkeeps.heap, hkeeps.next, hkeeps.eventID, hkeeps.eventContents, hkeeps.invoke, hkeeps.publish⟩
    have hextends := store_extends hs hkeeps' hfresh
    have hself : (Parser.store { t with processes } e' extraEvent).heap s.next = e' := by
      rw [← hkeeps.next]
      exact (store_fields { t with processes } e' extraEvent).2.1
    have hmem : (e'.eventID, s.next) ∈ placed s.next e' extraEvent :=
      List.mem_append_right _ (List.mem_singleton_self _)
    refine ⟨⟨_, hextends⟩, (hextends.stored _ hmem).1,
      (congrArg LogEvent.action hself).trans hfresh.action, ?_, ?_, fun h => absurd h hcreate,
      fun _ => ⟨?_, ?_⟩⟩
    · cases extraEvent <;> exact hhm
    · cases extraEvent <;> exact hdv
    · unfold Parser.Stored
      rw [hself, hextends.contents]
      exact List.mem_append_right _ hmem
    · rw [hself]
      exact hfresh.above

/-- An event on the heap in the place of one with its action and its identifier. -/
def Parser.replaceEvent (s : Parser) (r : Nat) (e : LogEvent) : Parser :=
  { s with heap := Function.update s.heap r e }

theorem replaceEvent_self (s : Parser) (r : Nat) (e : LogEvent) :
    (s.replaceEvent r e).heap r = e := by
  show Function.update s.heap r e r = e
  rw [Function.update_self]

theorem replaceEvent_of_ne (s : Parser) {r r' : Nat} (h : r' ≠ r) (e : LogEvent) :
    (s.replaceEvent r e).heap r' = s.heap r' := by
  show Function.update s.heap r e r' = s.heap r'
  rw [Function.update_of_ne h]

theorem replaceEvent_fields {s : Parser} {r : Nat} {e : LogEvent} (hid : e.eventID = (s.heap r).eventID)
    (haction : e.action = (s.heap r).action) (r' : Nat) :
    ((s.replaceEvent r e).heap r').action = (s.heap r').action ∧
      ((s.replaceEvent r e).heap r').eventID = (s.heap r').eventID := by
  by_cases hr : r' = r
  · subst hr
    rw [replaceEvent_self]
    exact ⟨haction, hid⟩
  · rw [replaceEvent_of_ne s hr]
    exact ⟨rfl, rfl⟩

theorem replaceEvent_stored {s : Parser} {r : Nat} {e : LogEvent} (hid : e.eventID = (s.heap r).eventID)
    (haction : e.action = (s.heap r).action) {r' : Nat} (h : s.Stored r') :
    (s.replaceEvent r e).Stored r' := by
  unfold Parser.Stored
  rw [(replaceEvent_fields hid haction r').2]
  exact h

/-- A cause that fits is set. The identifiers stay, and so does what is remembered. -/
theorem Parser.Inv.replaceEvent {s : Parser} (hs : s.Inv) {r : Nat} {e : LogEvent}
    (hid : e.eventID = (s.heap r).eventID) (haction : e.action = (s.heap r).action)
    (hfits : s.Stored r → CauseFits e e.eventID (s.eventContents.map Prod.fst)) :
    (s.replaceEvent r e).Inv := by
  have hstored : ∀ r', s.Stored r' → (s.replaceEvent r e).Stored r' := fun _ =>
    replaceEvent_stored hid haction
  refine ⟨hs.pos, fun a ha => ?_, ?_, fun r' hr' => hstored r' (hs.invoke r' hr'),
    fun r' hr' => hstored r' (hs.publish r' hr')⟩
  · obtain ⟨hnext, hkey, hrest⟩ := hs.stored a ha
    exact ⟨hnext, (replaceEvent_fields hid haction a.2).2.trans hkey, hrest⟩
  · refine hs.causal.set_causes ((ids_entries _).trans (ids_entries s).symm) fun entry hentry => ?_
    obtain ⟨a, ha, rfl⟩ := List.mem_map.mp hentry
    by_cases hr : a.2 = r
    · have hkey : e.eventID = a.1 := by
        rw [hid, ← hr]
        exact (hs.stored a ha).2.1
      have hself : s.Stored r := by
        unfold Parser.Stored
        rw [← hid, hkey, ← hr]
        exact ha
      refine Or.inr ?_
      rw [ids_entries, ← hkey, hr]
      show Caused _ (e.eventID, ((s.replaceEvent r e).heap r).cause)
      rw [replaceEvent_self]
      exact (hfits hself).caused
    · refine Or.inl (List.mem_map.mpr ⟨a, ha, ?_⟩)
      show _ = (a.1, ((s.replaceEvent r e).heap a.2).cause)
      rw [replaceEvent_of_ne s hr]

end Arinc.LogParser
