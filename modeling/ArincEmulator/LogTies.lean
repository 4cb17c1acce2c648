import Mathlib.Data.List.GetD
import ArincEmulator.LogCauses

/- `updateHME` ties each health-management event to `HMEvents[i - 1]`. For the first one this
   is the last event of the list: itself, or one that comes later.

   What is proved: the identifiers of every log that is accepted are unique and rise from
   line to line (`parseLog_ids`). The causes fit if and only if the first event is not
   tied and no tied event follows a creation, which has no identifier of its own
   (`causalIds_iff`). An event is not tied where it is a fault that is injected, or where
   the one before it is and there was no deadline violation (`Tied`). -/
namespace Arinc.LogParser
open Strings CausalLog

/-! ## What is tied -/

/-- The event at `i` gets the event before it as its cause: it is no fault that is injected,
    and the one before it is not one either, or there was a deadline violation. -/
def Tied (events : List LogEvent) (i : Nat) : Prop :=
  (events.getD i LogEvent.blank).action ≠ "INJECT".toList ∧
    ¬ (find (events.getD (pastIndex events.length i) LogEvent.blank).action "INJECT".toList ≠ -1 ∧
      events.any LogEvent.isDeadline = false)

/-- An event that is tied and has an identifier of its own is not the first one, and does not
    follow a creation. -/
def CausesFit (events : List LogEvent) : Prop :=
  ∀ i < events.length, Tied events i →
    (events.getD i LogEvent.blank).action ≠ "CREATE".toList →
      0 < i ∧ (events.getD (i - 1) LogEvent.blank).action ≠ "CREATE".toList

instance (events : List LogEvent) (i : Nat) : Decidable (Tied events i) :=
  inferInstanceAs (Decidable (_ ∧ ¬ (_ ∧ _)))

instance (events : List LogEvent) : Decidable (CausesFit events) :=
  inferInstanceAs (Decidable (∀ i < events.length, _ → _ → _ ∧ _))

theorem pastIndex_lt {n i : Nat} (h : i < n) : pastIndex n i < n := by
  unfold pastIndex
  split
  · omega
  · omega

variable {s t : Parser} {events : List LogEvent}

/-- The place of the event at `i`. -/
def Parser.place (s : Parser) (i : Nat) : Nat := s.hmEvents.getD i 0

theorem Parser.HMInv.length_eq (h : s.HMInv events) : s.hmEvents.length = events.length := by
  simpa using congrArg List.length h.lists.actions

theorem place_eq {i : Nat} (hi : i < s.hmEvents.length) : s.place i = s.hmEvents[i] :=
  List.getD_eq_getElem _ _ hi

theorem Parser.HMInv.place_mem (h : s.HMInv events) {i : Nat} (hi : i < events.length) :
    s.place i ∈ s.hmEvents := by
  rw [place_eq (h.length_eq ▸ hi)]
  exact List.getElem_mem _

theorem Parser.HMInv.action_eq (h : s.HMInv events) {i : Nat} (hi : i < events.length) :
    (s.heap (s.place i)).action = (events.getD i LogEvent.blank).action := by
  have hi' : i < s.hmEvents.length := h.length_eq ▸ hi
  rw [place_eq hi', List.getD_eq_getElem _ _ hi]
  have hget := congrArg (fun l => l[i]?) h.lists.actions
  simpa [hi, hi'] using hget

theorem Parser.HMInv.place_lt (h : s.HMInv events) {i j : Nat} (hij : i < j)
    (hj : j < events.length) : s.place i < s.place j := by
  have hj' : j < s.hmEvents.length := h.length_eq ▸ hj
  rw [place_eq hj', place_eq (Nat.lt_trans hij hj')]
  exact List.pairwise_iff_getElem.mp h.lists.ordered i j _ _ hij

theorem Parser.HMInv.rising (h : s.HMInv events) {i j : Nat} (hij : i < j)
    (hj : j < events.length) (hcreate : (s.heap (s.place j)).action ≠ "CREATE".toList) :
    (s.heap (s.place i)).eventID < (s.heap (s.place j)).eventID := by
  have hj' : j < s.hmEvents.length := h.length_eq ▸ hj
  rw [place_eq hj'] at hcreate ⊢
  rw [place_eq (Nat.lt_trans hij hj')]
  exact List.pairwise_iff_getElem.mp h.lists.rising i j _ _ hij hcreate

/-! ## The loop -/

/-- The event at `i`, caused by the one before it. -/
def Parser.tie (s : Parser) (i : Nat) : LogEvent :=
  (s.heap (s.place i)).causedBy (s.heap (s.place (pastIndex s.hmEvents.length i))).eventID

theorem updateHMEvent_eq (s : Parser) (i : Nat) :
    s.updateHMEvent i =
      if (s.heap (s.place i)).action ≠ "INJECT".toList then
        s.genHMEMsg (s.place i) (s.place (pastIndex s.hmEvents.length i))
      else s := rfl

theorem updateHMEvent_of_tied (h : s.HMInv events) {i : Nat} (hi : i < events.length)
    (htied : Tied events i) : s.updateHMEvent i = s.replaceEvent (s.place i) (s.tie i) := by
  obtain ⟨hself, hpast⟩ := htied
  rw [← h.action_eq hi] at hself
  rw [← h.action_eq (pastIndex_lt hi), ← h.dvDetected, ← h.length_eq] at hpast
  rw [updateHMEvent_eq, if_pos hself, Parser.genHMEMsg, if_neg hpast]
  rfl

theorem updateHMEvent_of_not_tied (h : s.HMInv events) {i : Nat} (hi : i < events.length)
    (htied : ¬ Tied events i) : s.updateHMEvent i = s := by
  rw [updateHMEvent_eq]
  split
  · rename_i hself
    rw [h.action_eq hi] at hself
    have hpast := Decidable.not_not.mp fun hpast => htied ⟨hself, hpast⟩
    rw [← h.action_eq (pastIndex_lt hi), ← h.dvDetected, ← h.length_eq] at hpast
    rw [Parser.genHMEMsg, if_pos hpast]
  · rfl

/-- Only causes differ. -/
structure Parser.SameEvents (s t : Parser) : Prop where
  fields : ∀ r, (t.heap r).action = (s.heap r).action ∧ (t.heap r).eventID = (s.heap r).eventID
  hmEvents : t.hmEvents = s.hmEvents
  dvDetected : t.dvDetected = s.dvDetected
  next : t.next = s.next
  eventContents : t.eventContents = s.eventContents

theorem Parser.SameEvents.hmInv (h : s.SameEvents t) (hs : s.HMInv events) : t.HMInv events where
  lists := by
    rw [h.hmEvents]
    refine hs.lists.mono (fun r _ => h.fields r) (Nat.le_of_eq h.next.symm) fun r _ hr => ?_
    unfold Parser.Stored
    rw [(h.fields r).2, h.eventContents]
    exact hr
  dvDetected := h.dvDetected.trans hs.dvDetected

theorem sameEvents_updateHMEvent (hs : s.HMInv events) {i : Nat} (hi : i < events.length) :
    s.SameEvents (s.updateHMEvent i) := by
  by_cases htied : Tied events i
  · rw [updateHMEvent_of_tied hs hi htied]
    exact ⟨replaceEvent_fields rfl rfl, rfl, rfl, rfl, rfl⟩
  · rw [updateHMEvent_of_not_tied hs hi htied]
    exact ⟨fun _ => ⟨rfl, rfl⟩, rfl, rfl, rfl, rfl⟩

theorem Parser.SameEvents.trans {u : Parser} (h : s.SameEvents t) (h' : t.SameEvents u) :
    s.SameEvents u where
  fields := fun r => ⟨(h'.fields r).1.trans (h.fields r).1, (h'.fields r).2.trans (h.fields r).2⟩
  hmEvents := h'.hmEvents.trans h.hmEvents
  dvDetected := h'.dvDetected.trans h.dvDetected
  next := h'.next.trans h.next
  eventContents := h'.eventContents.trans h.eventContents

/-- `updateHME`, up to the event at `k`. -/
def Parser.updateFirst (s : Parser) (k : Nat) : Parser := (List.range k).foldl Parser.updateHMEvent s

theorem updateFirst_succ (s : Parser) (k : Nat) :
    s.updateFirst (k + 1) = (s.updateFirst k).updateHMEvent k := by
  rw [Parser.updateFirst, List.range_succ, List.foldl_append]
  rfl

theorem updateHME_eq (hs : s.HMInv events) : s.updateHME = s.updateFirst events.length := by
  rw [← hs.length_eq]
  rfl

theorem sameEvents_updateFirst (hs : s.HMInv events) {k : Nat} (hk : k ≤ events.length) :
    s.SameEvents (s.updateFirst k) := by
  induction k with
  | zero => exact ⟨fun _ => ⟨rfl, rfl⟩, rfl, rfl, rfl, rfl⟩
  | succ k ih =>
    have hfirst := ih (Nat.le_of_succ_le hk)
    rw [updateFirst_succ]
    exact hfirst.trans (sameEvents_updateHMEvent (hfirst.hmInv hs) hk)

theorem updateFirst_ce (hs : s.HMInv events) {k i : Nat} (hk : k ≤ events.length) (hi : i < k)
    (htied : Tied events i) :
    ((s.updateFirst k).heap (s.place i)).ce =
      (s.heap (s.place (pastIndex events.length i))).eventID := by
  induction k with
  | zero => omega
  | succ k ih =>
    have hfirst := sameEvents_updateFirst hs (Nat.le_of_succ_le hk)
    have hinv := hfirst.hmInv hs
    have hplace : ∀ j, (s.updateFirst k).place j = s.place j := fun j =>
      congrArg (fun refs => refs.getD j 0) hfirst.hmEvents
    rw [updateFirst_succ]
    by_cases hik : i = k
    · subst hik
      rw [updateHMEvent_of_tied hinv hk htied, hplace, replaceEvent_self]
      show ((s.updateFirst i).heap _).eventID = _
      rw [hplace, (hfirst.fields _).2, hinv.length_eq]
    · -- the places of two events are not the same
      have hlt : i < k := by omega
      have hne : s.place i ≠ s.place k := Nat.ne_of_lt (hs.place_lt hlt hk)
      rw [← ih (Nat.le_of_succ_le hk) hlt]
      by_cases htied' : Tied events k
      · rw [updateHMEvent_of_tied hinv hk htied', hplace, replaceEvent_of_ne _ hne]
      · rw [updateHMEvent_of_not_tied hinv hk htied']

/-! ## Causes -/

theorem causeFits_tie (hinv : s.Inv) (hs : s.HMInv events) (hfit : CausesFit events) {i : Nat}
    (hi : i < events.length) (htied : Tied events i) (hstored : s.Stored (s.place i)) :
    CauseFits (s.tie i) (s.tie i).eventID (s.eventContents.map Prod.fst) := by
  have hcreate : (s.heap (s.place i)).action ≠ "CREATE".toList := by
    intro hcreate
    have hone := hs.lists.created _ (hs.place_mem hi) hcreate
    have hpos := (hinv.stored_of hstored).2.1
    omega
  obtain ⟨hpos, hpast⟩ := hfit i hi htied (hs.action_eq hi ▸ hcreate)
  have hlt : i - 1 < i := Nat.sub_one_lt (Nat.ne_of_gt hpos)
  have hi' : i - 1 < events.length := Nat.lt_trans hlt hi
  have hstored' := hs.lists.stored _ (hs.place_mem hi') (hs.action_eq hi' ▸ hpast)
  have hce : (s.tie i).ce = (s.heap (s.place (i - 1))).eventID := by
    show (s.heap (s.place (pastIndex s.hmEvents.length i))).eventID = _
    rw [pastIndex, if_neg (Nat.ne_of_gt hpos)]
  refine Or.inr ⟨?_, List.mem_map.mpr ⟨_, hstored', hce.symm⟩⟩
  rw [hce]
  exact hs.rising hlt hi hcreate

theorem inv_updateFirst (hinv : s.Inv) (hs : s.HMInv events) (hfit : CausesFit events) {k : Nat}
    (hk : k ≤ events.length) : (s.updateFirst k).Inv := by
  induction k with
  | zero => exact hinv
  | succ k ih =>
    have hfirst := ih (Nat.le_of_succ_le hk)
    have hhm := (sameEvents_updateFirst hs (Nat.le_of_succ_le hk)).hmInv hs
    rw [updateFirst_succ]
    by_cases htied : Tied events k
    · rw [updateHMEvent_of_tied hhm hk htied]
      exact hfirst.replaceEvent rfl rfl (causeFits_tie hfirst hhm hfit hk htied)
    · rw [updateHMEvent_of_not_tied hhm hk htied]
      exact hfirst

/-- What is not tied as it should be has a cause that does not fit: that of the first event
    is the last one, and a creation is no event. -/
theorem causesFit_of_causal (hinv : s.Inv) (hs : s.HMInv events) (h : Causal s.updateHME.entries) :
    CausesFit events := by
  intro i hi htied hcreate
  have hsame := sameEvents_updateFirst hs (Nat.le_refl events.length)
  have hce := updateFirst_ce hs (Nat.le_refl events.length) hi htied
  rw [updateHME_eq hs] at h
  rw [← hs.action_eq hi] at hcreate
  have hstored := hs.lists.stored _ (hs.place_mem hi) hcreate
  have hentry : ((s.heap (s.place i)).eventID,
      ((s.updateFirst events.length).heap (s.place i)).cause) ∈
        (s.updateFirst events.length).entries := by
    refine List.mem_map.mpr ⟨((s.heap (s.place i)).eventID, s.place i), ?_, rfl⟩
    rw [hsame.eventContents]
    exact hstored
  generalize hpast : pastIndex events.length i = past at hce
  have hpast' : past < events.length := hpast ▸ pastIndex_lt hi
  -- the cause is the event before it, which is stored
  have hcause : (s.heap (s.place past)).eventID < (s.heap (s.place i)).eventID ∧
      1 < (s.heap (s.place past)).eventID := by
    have hne : (s.heap (s.place past)).eventID ≠ -1 := by
      have hpos := (hs.lists.bounds hinv (hs.place_mem hpast')).1
      omega
    have hsome : (s.heap (s.place past)).eventID ∈
        ((s.updateFirst events.length).heap (s.place i)).cause := by
      rw [LogEvent.cause, hce, if_neg hne]
      rfl
    obtain ⟨hlt, hmem⟩ := h.caused _ hentry _ hsome
    rw [ids_entries, hsame.eventContents] at hmem
    obtain ⟨a, ha, hid⟩ := List.mem_map.mp hmem
    refine ⟨hlt, ?_⟩
    rw [← hid]
    exact (hinv.stored a ha).2.2.1
  have hcreate' : (s.heap (s.place past)).action ≠ "CREATE".toList := by
    intro hcreate'
    have hone := hs.lists.created _ (hs.place_mem hpast') hcreate'
    omega
  unfold pastIndex at hpast
  split at hpast
  · rename_i hzero
    subst hzero hpast
    by_cases hone : events.length - 1 = 0
    · rw [hone] at hcause
      omega
    · have hrising := hs.rising (Nat.pos_of_ne_zero hone) hpast' hcreate'
      omega
  · subst hpast
    exact ⟨by omega, hs.action_eq hpast' ▸ hcreate'⟩

/-! ## The log -/

/-- A line only adds events with identifiers above all that were given before it. -/
def Rises (contents : Text) (s : Parser) : Prop :=
  ∀ before rest, logLines contents = before ++ rest →
    ∃ t new, readLines before = some t ∧ s.eventContents = t.eventContents ++ new ∧
      ∀ a ∈ new, ∀ b ∈ t.eventContents, b.1 < a.1

/-- The identifiers of a log and its causes: an event is stored under its identifier, no
    identifier is given twice, and every cause is an event with a smaller one. -/
structure CausalIds (contents : Text) (s : Parser) : Prop where
  keyed : ∀ a ∈ s.eventContents, (s.heap a.2).eventID = a.1
  causal : Causal s.entries
  rises : Rises contents s

/-- The identifiers are as they should be, whatever the causes are. -/
theorem parseLog_ids {contents : Text} (h : parseLog contents = some s) :
    (∀ a ∈ s.eventContents, (s.heap a.2).eventID = a.1) ∧ (ids s.entries).Nodup ∧
      Rises contents s := by
  obtain ⟨r, hread, rfl⟩ := Option.map_eq_some_iff.mp h
  have hknown := readLines_known hread
  have hsame := sameEvents_updateFirst hknown.hmInv (Nat.le_refl _)
  rw [← updateHME_eq hknown.hmInv] at hsame
  refine ⟨fun a ha => ?_, ?_, fun before rest hlines => ?_⟩
  · rw [hsame.eventContents] at ha
    exact (hsame.fields a.2).2.trans (hknown.inv.stored a ha).2.1
  · rw [ids_entries, hsame.eventContents, ← ids_entries]
    exact hknown.inv.causal.unique
  · rw [readLog, hlines] at hread
    obtain ⟨t, hbefore, ht, -, new, hnew, habove⟩ := readLines_append hread
    refine ⟨t, new, hbefore, hsame.eventContents.trans hnew, fun a ha b hb => ?_⟩
    exact Int.lt_of_le_of_lt (ht.stored b hb).2.2.2 (habove a ha)

/-- For every log that is accepted, the causes fit if and only if every event that is tied
    has an event before it. -/
theorem causalIds_iff {contents : Text} (h : parseLog contents = some s) :
    CausalIds contents s ↔ CausesFit (hmLines (logLines contents)) := by
  obtain ⟨hkeyed, -, hrises⟩ := parseLog_ids h
  obtain ⟨r, hread, rfl⟩ := Option.map_eq_some_iff.mp h
  have hknown := readLines_known hread
  constructor
  · exact fun hids => causesFit_of_causal hknown.inv hknown.hmInv hids.causal
  · intro hfit
    have hinv := inv_updateFirst hknown.inv hknown.hmInv hfit (Nat.le_refl _)
    rw [← updateHME_eq hknown.hmInv] at hinv
    exact ⟨hkeyed, hinv.causal, hrises⟩

/-- A fault that is injected and detected: the detection is not tied to the fault, and the
    response is tied to the detection. -/
def injectLog : Text :=
  "1:MM|0.0|TRC|START: MM\n1:P|1.0|HME|INJECT->FAULT:P\n1:P|1.1|HME|DETECT:P\n1:MM|1.2|HME|RESPONSE:P".toList

theorem injectLog_fits :
    ∃ s, parseLog injectLog = some s ∧ CausesFit (hmLines (logLines injectLog)) ∧
      CausalIds injectLog s := by
  have hfit : CausesFit (hmLines (logLines injectLog)) := by decide +kernel
  obtain ⟨s, hs⟩ := Option.isSome_iff_exists.mp (show (parseLog injectLog).isSome = true by decide +kernel)
  exact ⟨s, hs, hfit, (causalIds_iff hs).mpr hfit⟩

/-- A detection and nothing before it: it is its own cause. -/
theorem detection_caused_by_itself :
    ∃ s, parseLog "1:MM|0.0|TRC|START: MM\n1:P|1.0|HME|DETECT".toList = some s ∧
      s.entries = [(2, some 2)] ∧
      ¬ CausalIds "1:MM|0.0|TRC|START: MM\n1:P|1.0|HME|DETECT".toList s := by
  have hentries : (parseLog "1:MM|0.0|TRC|START: MM\n1:P|1.0|HME|DETECT".toList).map Parser.entries =
      some [(2, some 2)] := by decide +kernel
  obtain ⟨s, hs, hself⟩ := Option.map_eq_some_iff.mp hentries
  refine ⟨s, hs, hself, fun hids => ?_⟩
  have hcaused := hids.causal.caused (2, some 2) (by rw [hself]; exact List.mem_singleton_self _)
  exact absurd (hcaused 2 rfl).1 (by decide)

end Arinc.LogParser
