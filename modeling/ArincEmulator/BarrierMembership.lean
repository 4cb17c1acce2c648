import ArincEmulator.Barrier

/- Who the parent of a barrier waits for. Both functions of the parent that collect
   `BARRIER_READY` re-arm the table of the children and write the flag of whatever
   name a message carries; the index of the table makes an entry of a name that has
   none.

   What is proved, for any messages from anyone over any number of rounds of either
   function: the keys of the table stay the configured children just when every
   `BARRIER_READY` taken names one of them (`membership_fixed_iff`), and then nobody
   else is ever waited for. A name that has become a key stays one, and the next
   round is not left without a message under it (`waitsFor_of_key`). -/
namespace Arinc.BarrierMembership
open Runs Barrier

variable {M : Type*} [DecidableEq M]

/-- The parent: whether it is in the loop of `SYNC_WITH_OTHER_MODULE_MANAGERS` or of
    `GET_READY_MM_FOR_HYPERPERIOD`, and its table. -/
structure Parent (M : Type*) where
  collecting : Bool
  childrenModules : List (ChildUrl M)
  deriving DecidableEq, Repr

/-- The keys of the table. -/
def Parent.keys (s : Parent M) : List M := s.childrenModules.map ChildUrl.childname

/-- As `PREPARE_PARENT_CHILD_INFORMATION` leaves it. -/
def start (cfg : Config M) : Parent M := ⟨false, cfg.childNames.map fun c => ⟨c, false⟩⟩

/-- The steps: a call of either function, a receive in its loop, of a message or of
    something that is not as long as one, and the end of the loop. -/
inductive Op (M : Type*) where
  | enter
  | receive (message : Option (SyncMessage M))
  | leave
  deriving DecidableEq, Repr

/-- What a receive does to the table. -/
def receive (l : List (ChildUrl M)) : Option (SyncMessage M) → List (ChildUrl M)
  | none => l
  | some m => if m.sync ≠ .barrierReady then l else markAnswered l m.messageSrcModule

/-- One step. -/
def step (s : Parent M) : Op M → Option (Parent M)
  | .enter =>
    if s.collecting then none else some ⟨true, resetChildrenModules s.childrenModules⟩
  | .receive message =>
    if s.collecting = true ∧ 0 < numChildrenSyncRemaining s.childrenModules then
      some { s with childrenModules := receive s.childrenModules message }
    else none
  | .leave =>
    if s.collecting = true ∧ numChildrenSyncRemaining s.childrenModules = 0 then
      some { s with collecting := false }
    else none

/-! ## Members and the messages taken -/

/-- The keys are the configured children. -/
def Membership (cfg : Config M) (s : Parent M) : Prop := ∀ c, c ∈ s.keys ↔ c ∈ cfg.childNames

/-- The round under way is not left before a message under the name `c`. -/
def Parent.WaitsFor (s : Parent M) (c : M) : Prop :=
  s.collecting = true ∧ ⟨c, false⟩ ∈ s.childrenModules

/-- A `BARRIER_READY` that is taken names a configured child. -/
def NamesChild (cfg : Config M) (_ : Parent M) : Op M → Prop
  | .receive (some m) => m.sync = .barrierReady → m.messageSrcModule ∈ cfg.childNames
  | _ => True

instance (s : Parent M) (c : M) : Decidable (s.WaitsFor c) :=
  inferInstanceAs (Decidable (_ ∧ _))

instance (cfg : Config M) (s : Parent M) : ∀ a, Decidable (NamesChild cfg s a)
  | .receive (some _) => inferInstanceAs (Decidable (_ → _))
  | .receive none | .enter | .leave => inferInstanceAs (Decidable True)

/-! ## Steps -/

variable {cfg : Config M} {s t : Parent M}

theorem mem_keys_mark (l : List (ChildUrl M)) (src c : M) :
    c ∈ (markAnswered l src).map ChildUrl.childname ↔ c = src ∨ c ∈ l.map ChildUrl.childname := by
  by_cases hsrc : src ∈ l.map ChildUrl.childname
  · rw [map_childname_mark hsrc]
    refine ⟨Or.inr, ?_⟩
    rintro (rfl | hmem)
    · exact hsrc
    · exact hmem
  · rw [markAnswered, if_neg hsrc, List.map_append, List.mem_append, or_comm]
    exact or_congr_left List.mem_singleton

theorem mem_keys_step {a : Op M} (h : step s a = some t) (c : M) :
    c ∈ t.keys ↔ c ∈ s.keys ∨ a = .receive (some ⟨.barrierReady, c⟩) := by
  cases a with
  | enter =>
    simp only [step, Option.ite_none_left_eq_some, Option.some.injEq] at h
    obtain ⟨-, rfl⟩ := h
    simp [Parent.keys]
  | receive message =>
    simp only [step, Option.ite_none_right_eq_some, Option.some.injEq] at h
    obtain ⟨-, rfl⟩ := h
    cases message with
    | none => simp [Parent.keys, receive]
    | some m =>
      obtain ⟨sync, src⟩ := m
      by_cases hready : sync = .barrierReady
      · subst hready
        simp only [Parent.keys, receive, ne_eq, not_true_eq_false, if_false, mem_keys_mark,
          Op.receive.injEq, Option.some.injEq, SyncMessage.mk.injEq, true_and]
        rw [or_comm, eq_comm]
      · simp [Parent.keys, receive, hready]
  | leave =>
    simp only [step, Option.ite_none_right_eq_some, Option.some.injEq] at h
    obtain ⟨-, rfl⟩ := h
    simp [Parent.keys]

/-- From a table of the configured children a step leads to one just when it takes no
    other name. -/
theorem membership_step_iff {a : Op M} (hs : Membership cfg s) (h : step s a = some t) :
    Membership cfg t ↔ NamesChild cfg s a := by
  constructor
  · intro ht
    cases a with
    | receive message =>
      cases message with
      | none => trivial
      | some m =>
        obtain ⟨sync, src⟩ := m
        rintro rfl
        exact (ht src).mp ((mem_keys_step h src).mpr (Or.inr rfl))
    | enter | leave => trivial
  · intro hnames c
    rw [mem_keys_step h, hs c]
    refine ⟨?_, Or.inl⟩
    rintro (hmem | rfl)
    · exact hmem
    · exact hnames rfl

omit [DecidableEq M] in
theorem membership_start (cfg : Config M) : Membership cfg (start cfg) := by
  intro c
  simp [Parent.keys, start, Function.comp_def]

/-! ## Rounds -/

omit [DecidableEq M] in
theorem Parent.WaitsFor.mem_keys {c : M} (h : s.WaitsFor c) : c ∈ s.keys :=
  List.mem_map.mpr ⟨⟨c, false⟩, h.2, rfl⟩

theorem waitsFor_of_key {c : M} (hc : c ∈ s.keys) (h : step s .enter = some t) : t.WaitsFor c := by
  simp only [step, Option.ite_none_left_eq_some, Option.some.injEq] at h
  obtain ⟨-, rfl⟩ := h
  obtain ⟨e, he, rfl⟩ := List.mem_map.mp hc
  exact ⟨rfl, List.mem_map.mpr ⟨e, he, rfl⟩⟩

theorem Parent.WaitsFor.not_left {c : M} (h : s.WaitsFor c) : step s .leave = none := by
  have hmem : (⟨c, false⟩ : ChildUrl M) ∈ s.childrenModules.filter fun e => !e.receivedanswer :=
    List.mem_filter.mpr ⟨h.2, rfl⟩
  have hpos : numChildrenSyncRemaining s.childrenModules ≠ 0 := by
    intro hzero
    rw [List.length_eq_zero_iff.mp hzero] at hmem
    cases hmem
  exact if_neg fun hleave => hpos hleave.2

/-! ## Runs -/

/-- Over any rounds and any messages: the keys are the configured children all along
    just when every `BARRIER_READY` taken names one of them; and as long as they are,
    nobody else is waited for. -/
theorem membership_fixed_iff (cfg : Config M) {ops : List (Op M)}
    (h : run step (start cfg) ops = some s) :
    (Always step (Membership cfg) (start cfg) ops ↔
        Meets step (NamesChild cfg) (start cfg) ops) ∧
      (Meets step (NamesChild cfg) (start cfg) ops →
        ∀ c, s.WaitsFor c → c ∈ cfg.childNames) := by
  have hiff : Always step (Membership cfg) (start cfg) ops ↔
      Meets step (NamesChild cfg) (start cfg) ops :=
    always_iff_meets (J := fun _ => True)
      (fun _ _ _ hs _ hstep => ⟨membership_step_iff hs hstep, fun _ => trivial⟩)
      (membership_start cfg) trivial h
  refine ⟨hiff, fun hmeets c hwaits => ?_⟩
  have hmembership : Membership cfg s := hiff.mpr hmeets ops [] s (List.append_nil ops).symm h
  exact (hmembership c).mp hwaits.mem_keys

theorem nodup_oneChild : ["A"].Nodup := List.nodup_singleton "A"

/-- A system module manager with one child. -/
def oneChild : Config String := ⟨"S", ["A"], nodup_oneChild⟩

/-- A round in which the child answers, after something short and a message that is no
    `BARRIER_READY`. -/
def answeredRound : List (Op String) :=
  [.enter, .receive none, .receive (some ⟨.start, "X"⟩), .receive (some ⟨.barrierReady, "A"⟩),
    .leave]

theorem membership_fixed_iff_answeredRound :
    Always step (Membership oneChild) (start oneChild) answeredRound := by
  have hrun : run step (start oneChild) answeredRound =
      some ((run step (start oneChild) answeredRound).get (by decide)) := (Option.some_get _).symm
  exact (membership_fixed_iff oneChild hrun).1.mpr (by decide)

/-- The same round with a `BARRIER_READY` of a module that is not configured, and the
    beginning of the next. -/
def strangerReady : List (Op String) :=
  [.enter, .receive (some ⟨.barrierReady, "X"⟩), .receive (some ⟨.barrierReady, "A"⟩), .leave,
    .enter, .receive (some ⟨.barrierReady, "A"⟩)]

/-- The module has become a key, and with the child's answer alone the next round is
    not left. -/
theorem stranger_is_waited_for :
    ∃ s, run step (start oneChild) strangerReady = some s ∧ ¬ Membership oneChild s ∧
      s.WaitsFor "X" ∧ "X" ∉ oneChild.childNames ∧ step s .leave = none := by
  refine ⟨(run step (start oneChild) strangerReady).get (by decide), (Option.some_get _).symm, ?_,
    by decide, by decide, by decide⟩
  intro hmembership
  exact absurd ((hmembership "X").mp (by decide)) (by decide)

end Arinc.BarrierMembership
