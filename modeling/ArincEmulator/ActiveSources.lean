import ArincEmulator.EntryRule
import ArincEmulator.Search
import ArincEmulator.Bracketing

/- The transitions of one step are found first and performed then, one after the other,
   and nothing looks at a source again. An earlier one of them can leave the source of
   a later one; when none does is a matter of the configuration before the step and
   of the entry rule (`Undisturbed`). -/
namespace Arinc.ActiveSources
open AndOrTree StateMachine EntryRule

variable {S R T : Type} [DecidableEq S] [DecidableEq R] {H : Hierarchy S R T}

/-! ## One transition -/

variable (H) in
/-- The first of the states to enter. -/
def firstToEnter (t : T) : S := (entryAndExitPoints H t).statesToEnter.headD (H.target t)

/-- The entry of the transition leads to `x`. -/
def LeadsTo (c : Config H) (t : T) (x : S) : Prop :=
  Leads c (.enter (entryAndExitPoints H t).statesToEnter (firstToEnter H t) (H.setHistory t))
    (firstToEnter H t) x

open Classical in
/-- The configuration after the transition: the states the entry leads to are current. -/
noncomputable def after (c : Config H) (t : T) : Config H where
  currentState := fun q =>
    if h : ∃ x, LeadsTo c t x ∧ H.region x = some q then some h.choose else c.currentState q
  proper := by
    intro q x hx
    simp only at hx
    split at hx
    · rename_i h
      obtain rfl := Option.some.inj hx
      exact h.choose_spec.2
    · exact c.proper q x hx

/-- After the transition `x` is active: the entry leads to it, or it lies outside the
    region the transition enters. -/
def Survives (c : Config H) (t : T) (x : S) : Prop :=
  LeadsTo c t x ∨
    c.Active x ∧ ∃ r, H.region (firstToEnter H t) = some r ∧ ¬ UnderRegion H.toTree r x

theorem perform_enters (env : Env S T) (m : Machine H × Set T) (t : T) :
    ∃ new : Entering H, (perform H env m t).1.config = new.config ∧
      Enters m.1.config (entryAndExitPoints H t).statesToEnter (firstToEnter H t) (H.setHistory t)
        new := by
  obtain ⟨first, rest, hlist, hpath, -⟩ := entryAndExitPoints_entryPath (H := H) t
  have hfirst : firstToEnter H t = first := by rw [firstToEnter, hlist, List.headD_cons]
  simp only [perform, hlist, hfirst]
  refine ⟨_, rfl, evalEntry_follows env (fuel H) ⟨m.1.config, first :: rest, _⟩ first
    (H.setHistory t) _ (Nat.lt_add_right _ (Nat.lt_succ_self _)) ?_⟩
  exact Or.inr (Or.inl ⟨rest, rfl, hpath⟩)

theorem perform_config (env : Env S T) (m : Machine H × Set T) (t : T) :
    (perform H env m t).1.config = after m.1.config t := by
  obtain ⟨new, hnew, henters⟩ := perform_enters env m t
  rw [hnew]
  apply Config.ext
  funext q
  simp only [after]
  split
  · rename_i h
    exact henters.current h.choose_spec.1 h.choose_spec.2
  · rename_i h
    apply henters.frame
    exact fun x hx hxq => h ⟨x, hx, hxq⟩

/-- One transition from an active source: `Survives` says what is active then. -/
theorem after_active_iff {c : Config H} {t : T} (hactive : c.Active (H.source t)) (x : S) :
    (after c t).Active x ↔ Survives c t x := by
  obtain ⟨new, hnew, henters⟩ := perform_enters (fun _ => true) (⟨c, [], []⟩, ∅) t
  rw [perform_config] at hnew
  simp only at hnew henters
  rw [hnew]
  obtain ⟨first, rest, hlist, -, habove⟩ := entryAndExitPoints_entryPath (H := H) t
  have hfirst : firstToEnter H t = first := by rw [firstToEnter, hlist, List.headD_cons]
  have hleads : Reached H.toTree new.config.currentState first x ↔ LeadsTo c t x := by
    rw [LeadsTo, ← henters.reached x, hfirst]
  rw [Survives, hfirst, ← hleads]
  rw [hfirst] at henters
  cases hr : H.region first with
  | none =>
    -- the entry begins at the root
    obtain rfl := H.eq_root hr
    simp [Config.Active, Active]
  | some r =>
    have howner : Active H.toTree c.currentState (H.owner r) :=
      Active.ancestor c.proper hactive (habove r hr)
    have hupdate := active_update (x := x) c.proper new.config.proper (henters.selected r hr)
      fun q hq hb => henters.frame_outside (by
        rw [hr]
        exact fun h => hq (Option.some.inj h).symm) hb
    rw [Config.Active, hupdate, and_iff_right howner, or_comm]
    simp [Config.Active]

/-! ## The transitions of a step -/

/-- Every transition has an active source just before it is performed. -/
def SourcesActive (env : Env S T) : Machine H × Set T → List T → Prop
  | _, [] => True
  | m, t :: ts => m.1.config.Active (H.source t) ∧ SourcesActive env (perform H env m t) ts

/-- Whenever one transition follows another, its source survives the one before. -/
def Undisturbed : Config H → List T → Prop
  | c, t :: u :: ts => Survives c t (H.source u) ∧ Undisturbed (after c t) (u :: ts)
  | _, _ => True

theorem sourcesActive_iff (env : Env S T) (ts : List T) (m : Machine H × Set T) :
    SourcesActive env m ts ↔
      (∀ t ∈ ts.head?, m.1.config.Active (H.source t)) ∧ Undisturbed m.1.config ts := by
  induction ts generalizing m with
  | nil => simp [SourcesActive, Undisturbed]
  | cons t ts ih =>
    rw [SourcesActive, ih, perform_config]
    simp only [List.head?_cons, Option.mem_some_iff, forall_eq']
    apply and_congr_right
    intro hactive
    cases ts with
    | nil => simp [Undisturbed]
    | cons u ts => simp [Undisturbed, after_active_iff hactive]

/-- The transitions a step finds all have active sources when they are performed if and
    only if the first one has and each source survives the transition before. -/
theorem sources_active_iff (env : Env S T) (m : Machine H) :
    SourcesActive env ({ m with log := (search H env m).log }, ∅)
        (search H env m).activeTransitions ↔
      (∀ t ∈ (search H env m).activeTransitions.head?, m.config.Active (H.source t)) ∧
        Undisturbed m.config (search H env m).activeTransitions :=
  sourcesActive_iff env _ _

/-- Transitions added to the states they start from are all found with active sources,
    so only what comes between two of them matters. -/
theorem sourcesActive_of_attached (hattached : Attached H) (env : Env S T) (m : Machine H) :
    SourcesActive env ({ m with log := (search H env m).log }, ∅)
        (search H env m).activeTransitions ↔
      Undisturbed m.config (search H env m).activeTransitions := by
  rw [sourcesActive_iff]
  apply and_iff_right
  intro t ht
  exact (search_finds hattached env m).reached t (List.mem_of_mem_head? ht)

/-- No transition enters a region in which a later one starts: this is enough. -/
theorem undisturbed_of_apart {c : Config H} {ts : List T}
    (hactive : ∀ t ∈ ts, c.Active (H.source t))
    (hapart : ts.Pairwise fun t u => ∃ r, H.region (firstToEnter H t) = some r ∧
      ¬ UnderRegion H.toTree r (H.source u)) : Undisturbed c ts := by
  induction ts generalizing c with
  | nil => trivial
  | cons t ts ih =>
    obtain ⟨hfirst, hrest⟩ := List.pairwise_cons.mp hapart
    have hsurvives : ∀ u ∈ ts, Survives c t (H.source u) := fun u hu =>
      Or.inr ⟨hactive u (List.mem_cons_of_mem _ hu), hfirst u hu⟩
    have hafter := ih (c := after c t) (fun u hu => (after_active_iff
      (hactive t List.mem_cons_self) _).mpr (hsurvives u hu)) hrest
    cases ts with
    | nil => trivial
    | cons u ts => exact ⟨hsurvives u List.mem_cons_self, hafter⟩

/-! ## A step that performs a transition from a state it has left -/

/-- The root 0 has the region 0 with the states 1, initially, and 2; state 1 has the
    regions 1 with 3, and 2 with 4, initially, and 5; state 2 has the region 3 with 6.
    The transitions are 3 to 6 and 4 to 5. -/
def leaving : Hierarchy (Fin 7) (Fin 4) (Fin 2) where
  root := 0
  region := ![none, some 0, some 0, some 1, some 2, some 2, some 3]
  owner := ![0, 1, 1, 2]
  depth := ![0, 1, 1, 2, 2, 2, 2]
  region_root := rfl
  eq_root := by decide
  depth_child := by decide
  regions := ![[0], [1, 2], [3], [], [], [], []]
  initState := ![some 1, some 3, some 4, some 6]
  isDeepHistory := fun _ => false
  stateHasDs := fun _ => true
  defaultActionSet := fun _ => false
  outTransitions := ![[], [], [], [0], [1], [], []]
  timeOutTransitions := fun _ => []
  source := ![3, 4]
  target := ![6, 5]
  setHistory := fun _ => false
  transitionHasDs := fun _ => true
  height := 2
  mem_regions := by decide
  regions_nodup := by decide
  region_initState := by decide
  depth_le := Bracketing.sevenStates_depth_le

/-- The machine after its start. -/
def leavingStarted : Machine leaving := start leaving (Bracketing.answers []) 1

/-- Both transitions are found, the first leaves state 1 with all below it, and the
    exit action of state 4 runs again when the second one is performed. -/
theorem inactive_source_fires :
    (search leaving (Bracketing.answers [0, 1]) leavingStarted).activeTransitions = [0, 1] ∧
    (step leaving (Bracketing.answers [0, 1]) 1 leavingStarted).transitions =
      [[.entry 5, .action 1, .exit 4],
        [.entry 6, .entry 2, .action 0, .exit 1, .exit 4, .exit 3]] ∧
    ¬ SourcesActive (Bracketing.answers [0, 1])
      ({ leavingStarted with
          log := (search leaving (Bracketing.answers [0, 1]) leavingStarted).log }, ∅)
      (search leaving (Bracketing.answers [0, 1]) leavingStarted).activeTransitions := by
  have hfound : (search leaving (Bracketing.answers [0, 1]) leavingStarted).activeTransitions =
      [0, 1] := by decide
  refine ⟨hfound, rfl, ?_⟩
  rw [hfound]
  rintro ⟨-, hactive, -⟩
  generalize hm : perform leaving (Bracketing.answers [0, 1]) _ 0 = m at hactive
  -- after the first transition the root's region is in state 2
  have hroot : m.1.config.currentState 0 = some 2 := by
    rw [← hm]
    decide
  have howner := (Active.selected m.1.config.proper hactive (r := 2) rfl).2
  have hone := (Active.selected m.1.config.proper howner (r := 0) rfl).1
  rw [hroot] at hone
  cases hone

end Arinc.ActiveSources
