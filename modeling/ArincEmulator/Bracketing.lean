import ArincEmulator.CallLog
import ArincEmulator.EntryPoints
import ArincEmulator.Search
import Mathlib.Data.Fin.VecNotation

/- Entry and exit actions bracket: a state's entry action and its exit action take
   turns, a parent is entered before and left after its children, and between two
   transitions the states entered and not left are the active configuration. The
   transitions of the machine each connect two states of one region. -/
namespace Arinc.Bracketing
open AndOrTree StateMachine

variable {S R T : Type}

/-! ## Exit -/

/-- Every region has an initial state, every state its data source; the transitions of
    a state start from it and end in its region. -/
structure WellFormed (H : Hierarchy S R T) : Prop where
  initState : ∀ r, H.initState r ≠ none
  stateHasDs : ∀ s, H.stateHasDs s = true
  attached : Attached H
  sameRegion : ∀ s, ∀ t ∈ H.outTransitions s,
    ∃ r, H.region s = some r ∧ H.region (H.target t) = some r

section
variable {H : Hierarchy S R T}

/-- What leaving some states has done to a log: those of `gone` are no longer
    entered, all others as before. -/
structure Leaves (H : Hierarchy S R T) (gone : S → Prop) (log new : List (Callback S T)) : Prop where
  bracketed : Bracketed H new
  entered : ∀ x, Entered new x ↔ Entered log x ∧ ¬ gone x
  grows : Grows NoEntry log new

theorem Leaves.refl {log : List (Callback S T)} (h : Bracketed H log) {gone : S → Prop}
    (hgone : ∀ x, Entered log x → ¬ gone x) : Leaves H gone log log :=
  ⟨h, fun x => ⟨fun hx => ⟨hx, hgone x hx⟩, fun hx => hx.1⟩, Grows.refl _ _⟩

theorem foldl_leaves {c : Config H} {s : S} {f : Exiting S T → S → Exiting S T}
    (hf : ∀ (e : Exiting S T) (x : S) (r : R), H.region x = some r → H.owner r = s →
      Bracketed H e.log →
      (∀ y, Below H.toTree x y → (Entered e.log y ↔ Reached H.toTree c.currentState x y)) →
      Leaves H (Below H.toTree x) e.log (f e x).log) :
    ∀ (rs : List R) (e : Exiting S T), rs.Nodup → (∀ r ∈ rs, H.owner r = s) →
      Bracketed H e.log →
      (∀ r ∈ rs, ∀ y, UnderRegion H.toTree r y →
        (Entered e.log y ↔ Reached H.toTree c.currentState s y)) →
      Leaves H (fun y => ∃ r ∈ rs, UnderRegion H.toTree r y) e.log
        (rs.foldl (Region.evalExit c f) e).log := by
  intro rs
  induction rs with
  | nil =>
    intro e _ _ hb _
    exact Leaves.refl hb (by simp)
  | cons r rs ih =>
    intro e hnodup howner hb hentered
    obtain ⟨hr, hnodup⟩ := List.nodup_cons.mp hnodup
    have howner_r := howner r List.mem_cons_self
    -- what the first region does
    have hfirst : Leaves H (UnderRegion H.toTree r) e.log
        (Region.evalExit c f e r).log := by
      unfold Region.evalExit
      cases hx : c.currentState r with
      | none =>
        apply Leaves.refl hb
        intro y hy hunder
        have hreach := (hentered r List.mem_cons_self y hunder).mp hy
        obtain ⟨z, hz, -⟩ := hreach.of_underRegion c.proper howner_r hunder
        rw [hx] at hz
        cases hz
      | some x =>
        have hxr := c.proper r x hx
        have hreached : ∀ y, UnderRegion H.toTree r y → Entered e.log y →
            Reached H.toTree c.currentState x y := by
          intro y hunder hy
          have hreach := (hentered r List.mem_cons_self y hunder).mp hy
          obtain ⟨z, hz, hzy⟩ := hreach.of_underRegion c.proper howner_r hunder
          obtain rfl := Option.some.inj (hx.symm.trans hz)
          exact hzy
        have hdone := hf e x r hxr howner_r hb (by
          intro y hy
          constructor
          · exact hreached y ⟨x, hxr, hy⟩
          · intro hreach
            apply (hentered r List.mem_cons_self y ⟨x, hxr, hy⟩).mpr
            exact Reached.iff_head.mpr (Or.inr ⟨r, howner_r, x, hx, hreach⟩))
        refine ⟨hdone.bracketed, fun y => ?_, hdone.grows⟩
        rw [hdone.entered y]
        apply and_congr_right
        intro hy
        apply not_congr
        constructor
        · exact fun hbelow => ⟨x, hxr, hbelow⟩
        · exact fun hunder => (hreached y hunder hy).isBelow c.proper
    rw [List.foldl_cons]
    have hrest := ih _ hnodup (fun q hq => howner q (List.mem_cons_of_mem _ hq)) hfirst.bracketed (by
      intro q hq y hunder
      have hnot : ¬ UnderRegion H.toTree r y := by
        intro hunder'
        have heq := eq_of_underRegion
          (howner_r.trans (howner q (List.mem_cons_of_mem _ hq)).symm) hunder' hunder
        exact hr (heq ▸ hq)
      rw [hfirst.entered y, ← hentered q (List.mem_cons_of_mem _ hq) y hunder]
      exact ⟨fun h => h.1, fun h => ⟨h, hnot⟩⟩)
    refine ⟨hrest.bracketed, fun y => ?_, hfirst.grows.trans hrest.grows⟩
    rw [hrest.entered y, hfirst.entered y, and_assoc]
    apply and_congr_right
    intro _
    simp only [List.mem_cons, exists_eq_or_imp, not_or]

/-- `EvalExit` of a state below which the states entered are those reached: all are
    left, the state last. -/
theorem evalExit_leaves (hwf : WellFormed H) (c : Config H) (fuel : Nat) (e : Exiting S T) (s : S)
    (hfuel : H.height < fuel + H.depth s) (hb : Bracketed H e.log)
    (hentered : ∀ y, Below H.toTree s y →
      (Entered e.log y ↔ Reached H.toTree c.currentState s y)) :
    Leaves H (Below H.toTree s) e.log (evalExit H c fuel e s true).log := by
  induction fuel generalizing e s with
  | zero =>
    have hle := H.depth_le s
    omega
  | succ fuel ih =>
    have hregions := foldl_leaves (c := c) (s := s)
      (f := fun e x => evalExit H c fuel e x true)
      (by
        intro e x r hx howner hb hentered
        apply ih e x _ hb hentered
        rw [H.depth_child hx, howner]
        omega)
      (H.regions s) e (H.regions_nodup s) (fun r hr => H.mem_regions.mp hr) hb
      (fun r hr y hunder => hentered y (by
        rw [← H.mem_regions.mp hr]
        exact hunder.below_owner))
    -- what is below `s` is `s` or lies in one of its regions
    have hbelow : ∀ y, Below H.toTree s y ↔
        y = s ∨ ∃ r ∈ H.regions s, UnderRegion H.toTree r y := by
      intro y
      rw [below_iff]
      simp only [H.mem_regions]
    have hs : Entered e.log s := (hentered s .refl).mpr .refl
    have hstays : ¬ ∃ r ∈ H.regions s, UnderRegion H.toTree r s := by
      rintro ⟨r, hr, hunder⟩
      rw [← H.mem_regions.mp hr] at hunder
      exact not_underRegion_owner r hunder
    simp only [evalExit, if_true, performExit, hwf.stateHasDs s]
    refine ⟨⟨(hregions.entered s).mpr ⟨hs, hstays⟩, ?_, hregions.bracketed⟩, fun y => ?_,
      hregions.grows.cons (noEntry_exit s)⟩
    · intro x r hx howner hentered
      apply ((hregions.entered x).mp hentered).2
      exact ⟨r, H.mem_regions.mpr howner, x, hx, .refl⟩
    · show y ≠ s ∧ Entered _ y ↔ _
      rw [hregions.entered y, hbelow y, not_or]
      exact and_left_comm

end

/-! ## Entry -/

theorem performEntry_eq {H : Hierarchy S R T} (hwf : WellFormed H) (env : Env S T) (log : List (Callback S T)) (s : S) :
    ∃ w, performEntry H env log s = .entry s :: w ∧ Grows Quiet log w := by
  refine ⟨_, ?_, evalTransitionsForTimeOut_quiet H env log s⟩
  rw [performEntry, if_pos (hwf.stateHasDs s)]

section
variable [DecidableEq R] {H : Hierarchy S R T}

/-- A state is current in every region. -/
def Total (c : Config H) : Prop := ∀ r, c.currentState r ≠ none

theorem Total.setCurrentState {c : Config H} (h : Total c) (r : R) (s : S) :
    Total (c.setCurrentState r s) := by
  intro q
  unfold Config.setCurrentState
  split
  · show (if q = r then some s else c.currentState q) ≠ none
    split
    · exact Option.some_ne_none s
    · exact h q
  · exact h q

theorem Total.enter {c : Config H} (h : Total c) (s : S) : Total (c.enter s) := by
  unfold Config.enter
  split
  · exact h
  · exact h.setCurrentState _ s

/-- What entering the regions `rs` of one state has done. -/
structure EntersRegions (H : Hierarchy S R T) (rs : List R) (e new : Entering H) : Prop where
  bracketed : Bracketed H new.log
  entered : ∀ x, Entered new.log x ↔ Entered e.log x ∨
    ∃ r ∈ rs, ∃ y, new.config.currentState r = some y ∧
      Reached H.toTree new.config.currentState y x
  grows : Grows NoExit e.log new.log
  total : Total new.config
  queue : new.statesToEnter = []
  frame : ∀ q, q ∉ rs → (∀ r ∈ rs, ¬ UnderRegion H.toTree r (H.owner q)) →
    new.config.currentState q = e.config.currentState q

/-- What entering `s` has done: what is reached from it now is entered, and the
    current states have changed in its region and below it only. -/
structure Enters (H : Hierarchy S R T) (s : S) (e new : Entering H) : Prop where
  bracketed : Bracketed H new.log
  entered : ∀ x, Entered new.log x ↔ Entered e.log x ∨ Reached H.toTree new.config.currentState s x
  grows : Grows NoExit e.log new.log
  total : Total new.config
  queue : new.statesToEnter = []
  selected : ∀ r, H.region s = some r → new.config.currentState r = some s
  frame : ∀ q, H.region s ≠ some q → ¬ Below H.toTree s (H.owner q) →
    new.config.currentState q = e.config.currentState q

theorem Enters.of_setCurrentState {e new : Entering H} {s : S} {r : R} (hs : H.region s = some r)
    (h : Enters H s { e with config := e.config.setCurrentState r s } new) : Enters H s e new := by
  refine { h with frame := fun q hq hbelow => ?_ }
  rw [h.frame q hq hbelow]
  apply Config.setCurrentState_ne
  rintro rfl
  exact hq hs

theorem chooseState_nil (hwf : WellFormed H) {c : Config H} (htotal : Total c) (r : R)
    (applyHistory checkHistory : Bool) : ∃ x history, H.region x = some r ∧
      chooseState H c [] r applyHistory checkHistory = (some x, history) := by
  unfold chooseState
  cases applyHistory with
  | false =>
    obtain ⟨x, hx⟩ := Option.ne_none_iff_exists'.mp (hwf.initState r)
    exact ⟨x, _, H.region_initState hx, by simp [hx]; rfl⟩
  | true =>
    obtain ⟨x, hx⟩ := Option.ne_none_iff_exists'.mp (htotal r)
    exact ⟨x, _, c.proper r x hx, by simp [hx]; rfl⟩

theorem foldl_enters (hwf : WellFormed H) {s : S} (applyHistory checkHistory : Bool)
    {f : Entering H → S → Bool → Entering H}
    (hf : ∀ (e : Entering H) (x : S) (history : Bool) (r : R), H.region x = some r →
      H.owner r = s → Total e.config → e.statesToEnter = [] → Bracketed H e.log →
      Entered e.log s → (∀ y, Below H.toTree x y → ¬ Entered e.log y) →
      Enters H x e (f e x history)) :
    ∀ (rs : List R) (e : Entering H), rs.Nodup → (∀ r ∈ rs, H.owner r = s) → Total e.config →
      e.statesToEnter = [] → Bracketed H e.log → Entered e.log s →
      (∀ r ∈ rs, ∀ y, UnderRegion H.toTree r y → ¬ Entered e.log y) →
      EntersRegions H rs e (rs.foldl (Region.evalEntry applyHistory checkHistory f) e) := by
  intro rs
  induction rs with
  | nil =>
    intro e _ _ htotal hqueue hb _ _
    exact ⟨hb, fun x => by simp, Grows.refl _ _, htotal, hqueue, fun q _ _ => rfl⟩
  | cons r rs ih =>
    intro e hnodup howner htotal hqueue hb hs hentered
    obtain ⟨hr, hnodup⟩ := List.nodup_cons.mp hnodup
    have howner_r := howner r List.mem_cons_self
    have howners : ∀ q ∈ rs, H.owner q = s := fun q hq => howner q (List.mem_cons_of_mem _ hq)
    -- what the first region does
    obtain ⟨x, hxr, hfirst⟩ : ∃ x, H.region x = some r ∧
        Enters H x e (Region.evalEntry applyHistory checkHistory f e r) := by
      obtain ⟨x, history, hxr, hchoose⟩ :=
        chooseState_nil hwf htotal r applyHistory checkHistory
      refine ⟨x, hxr, ?_⟩
      rw [← hqueue] at hchoose
      simp only [Region.evalEntry, hchoose]
      apply Enters.of_setCurrentState hxr
      apply hf { e with config := e.config.setCurrentState r x } x history r hxr howner_r
        (htotal.setCurrentState r x) hqueue hb hs
      exact fun y hy => hentered r List.mem_cons_self y ⟨x, hxr, hy⟩
    rw [List.foldl_cons]
    generalize Region.evalEntry applyHistory checkHistory f e r = e₁ at hfirst ⊢
    -- the other regions are untouched by it
    have hother : ∀ q ∈ rs, ∀ y, UnderRegion H.toTree q y → ¬ Below H.toTree x y := by
      intro q hq y hunder hbelow
      have heq := eq_of_underRegion (howner_r.trans (howners q hq).symm) ⟨x, hxr, hbelow⟩ hunder
      exact hr (heq ▸ hq)
    have hrest := ih e₁ hnodup howners hfirst.total hfirst.queue hfirst.bracketed
      ((hfirst.entered s).mpr (Or.inl hs)) (by
        intro q hq y hunder hy
        rcases (hfirst.entered y).mp hy with hy | hy
        · exact hentered q (List.mem_cons_of_mem _ hq) y hunder hy
        · exact hother q hq y hunder (hy.isBelow e₁.config.proper))
    generalize rs.foldl (Region.evalEntry applyHistory checkHistory f) e₁ = e₂ at hrest ⊢
    -- nor is the first one by the others
    have hkept : e₂.config.currentState r = some x := by
      rw [hrest.frame r hr, hfirst.selected r hxr]
      intro q hq hunder
      rw [howner_r, ← howners q hq] at hunder
      exact not_underRegion_owner q hunder
    have hbelow : ∀ q, Below H.toTree x (H.owner q) →
        e₂.config.currentState q = e₁.config.currentState q := by
      intro q hq
      apply hrest.frame
      · intro hmem
        apply not_below_owner hxr
        rw [howner_r, ← howners q hmem]
        exact hq
      · exact fun p hp hunder => hother p hp _ hunder hq
    have hreached : ∀ y, Reached H.toTree e₂.config.currentState x y ↔
        Reached H.toTree e₁.config.currentState x y := fun y =>
      ⟨Reached.congr e₂.config.proper fun q hq => (hbelow q hq).symm,
        Reached.congr e₁.config.proper hbelow⟩
    refine ⟨hrest.bracketed, fun y => ?_, hfirst.grows.trans hrest.grows, hrest.total, hrest.queue,
      fun q hq hunder => ?_⟩
    · rw [hrest.entered y, hfirst.entered y, or_assoc]
      simp only [List.mem_cons, exists_eq_or_imp, hkept, Option.some.injEq, exists_eq_left',
        hreached]
    · rw [hrest.frame q (fun h => hq (List.mem_cons_of_mem _ h))
        (fun p hp => hunder p (List.mem_cons_of_mem _ hp))]
      apply hfirst.frame q
      · rw [hxr]
        intro heq
        exact hq (Option.some.inj heq ▸ List.mem_cons_self)
      · exact fun h => hunder r List.mem_cons_self ⟨x, hxr, h⟩

variable [DecidableEq S]

/-- `EvalEntry` of a state below which nothing is entered, when it is the last of the
    queue or the queue is empty. -/
theorem evalEntry_enters (hwf : WellFormed H) (env : Env S T) (fuel : Nat) (e : Entering H) (s : S)
    (applyHistory : Bool) (hfuel : H.height < fuel + H.depth s) (htotal : Total e.config)
    (hqueue : (popState e.statesToEnter s applyHistory).1 = []) (hb : Bracketed H e.log)
    (howner : ∀ r, H.region s = some r → Entered e.log (H.owner r))
    (hnot : ∀ y, Below H.toTree s y → ¬ Entered e.log y) :
    Enters H s e (evalEntry H env fuel e s applyHistory true) := by
  induction fuel generalizing e s applyHistory with
  | zero =>
    have hle := H.depth_le s
    omega
  | succ fuel ih =>
    obtain ⟨w, hw, hquiet⟩ := performEntry_eq hwf env e.log s
    simp only [evalEntry, if_true, hw, hqueue]
    generalize (popState e.statesToEnter s applyHistory).2 = checkHistory
    have hw_entered : ∀ x, Entered (.entry s :: w) x ↔ x = s ∨ Entered e.log x := fun x =>
      or_congr_right (hquiet.entered_iff x)
    -- its regions
    have hregions := foldl_enters hwf (s := s) applyHistory checkHistory
      (f := fun e x applyHistory => evalEntry H env fuel e x applyHistory true)
      (by
        intro e x history r hx hr htotal hqueue hb hs hnot
        apply ih e x history _ htotal (by rw [hqueue, popState]) hb _ hnot
        · rw [H.depth_child hx, hr]
          omega
        · intro q hq
          obtain rfl := Option.some.inj (hx.symm.trans hq)
          rw [hr]
          exact hs)
      (H.regions s) ⟨e.config.enter s, [], .entry s :: w⟩ (H.regions_nodup s)
      (fun r => H.mem_regions.mp) (htotal.enter s) rfl
      ⟨fun h => hnot s .refl ((hquiet.entered_iff s).mp h),
        fun r hr => (hquiet.entered_iff _).mpr (howner r hr), hquiet.bracketed_iff.mpr hb⟩
      (Or.inl rfl) (by
        intro r hr y hunder hy
        rw [← H.mem_regions.mp hr] at hnot
        rcases (hw_entered y).mp hy with rfl | hy
        · rw [← H.mem_regions.mp hr] at hunder
          exact not_underRegion_owner r hunder
        · exact hnot y hunder.below_owner hy)
    generalize (H.regions s).foldl _ _ = new at hregions ⊢
    have houtside : ∀ q, ¬ Below H.toTree s (H.owner q) →
        new.config.currentState q = (e.config.enter s).currentState q := by
      intro q hq
      apply hregions.frame
      · intro hmem
        rw [H.mem_regions.mp hmem] at hq
        exact hq .refl
      · intro r hr hunder
        rw [← H.mem_regions.mp hr] at hq
        exact hq hunder.below_owner
    refine ⟨hregions.bracketed, fun x => ?_, ?_, hregions.total, hregions.queue,
      fun r hr => ?_, fun q hq hbelow => ?_⟩
    · rw [hregions.entered x, hw_entered x, Reached.iff_head]
      simp only [H.mem_regions]
      rw [or_comm (a := x = s), or_assoc]
    · refine Grows.trans ?_ hregions.grows
      exact (hquiet.mono fun c => Quiet.noExit).cons (noExit_entry s)
    · rw [houtside r (not_below_owner hr), e.config.enter_self hr]
    · rw [houtside q hbelow, e.config.enter_ne hq]

end

/-! ## Transitions -/

section
variable [DecidableEq S] [DecidableEq R] {H : Hierarchy S R T}

/-- What the machine keeps between two transitions. -/
structure Inv (m : Machine H) : Prop where
  total : Total m.config
  entered : ∀ x, Entered m.log x ↔ m.config.Active x
  bracketed : Bracketed H m.log
  nested : ∀ calls ∈ m.transitions, Nested H calls

omit [DecidableEq S] [DecidableEq R] in
theorem Inv.of_quiet {m : Machine H} (h : Inv m) {log : List (Callback S T)}
    (hlog : Grows Quiet m.log log) : Inv { m with log := log } where
  total := h.total
  entered := fun x => (hlog.entered_iff x).trans (h.entered x)
  bracketed := hlog.bracketed_iff.mpr h.bracketed
  nested := h.nested

omit [DecidableEq S] [DecidableEq R] in
theorem Inv.call {config : Config H} {log : List (Callback S T)}
    {transitions : List (List (Callback S T))} (h : Inv ⟨config, log, transitions⟩)
    {c : Callback S T} (hc : Quiet c) : Inv ⟨config, c :: log, transitions⟩ :=
  h.of_quiet ((Grows.refl Quiet log).cons hc)

omit [DecidableEq S] [DecidableEq R] in
/-- The calls between `log` and `new`, when exit actions have come before entry
    actions. -/
theorem nested_take {log left mid new : List (Callback S T)} (hleft : Grows NoEntry log left)
    (hmid : Grows Quiet left mid) (hnew : Grows NoExit mid new) (hb : Bracketed H new) :
    Nested H (new.take (new.length - log.length)) := by
  obtain ⟨w, rfl, hw⟩ := hleft
  obtain ⟨v, rfl, hv⟩ := hmid
  obtain ⟨u, rfl, hu⟩ := hnew
  have htake : (u ++ (v ++ (w ++ log))).take ((u ++ (v ++ (w ++ log))).length - log.length) =
      u ++ (v ++ w) := by
    rw [← List.append_assoc v, ← List.append_assoc u]
    apply List.take_left'
    simp only [List.length_append]
    omega
  rw [htake]
  apply Nested.of_bracketed log _ _ hu
  · simpa using hb
  · intro c hc
    rcases List.mem_append.mp hc with hc | hc
    · exact (hv c hc).noEntry
    · exact hw c hc

/-- A transition out of an active state: the source's region is left and entered
    anew, and what lies elsewhere stays active. -/
theorem perform_keeps (hwf : WellFormed H) (env : Env S T) {m : Machine H} (ids : Set T) {t : T}
    {r : R} (hsource : H.region (H.source t) = some r) (htarget : H.region (H.target t) = some r)
    (hactive : m.config.Active (H.source t)) (hinv : Inv m) :
    Inv (perform H env (m, ids) t).1 ∧ ∀ x, m.config.Active x → ¬ UnderRegion H.toTree r x →
      (perform H env (m, ids) t).1.config.Active x := by
  have howner := (Active.selected m.config.proper hactive hsource).2
  have hbelow := fun x (hx : m.config.Active x) =>
    Active.underRegion_iff m.config.proper hactive hsource hx
  simp only [perform, entryAndExitPoints_sameRegion hsource htarget, Bool.not_false]
  -- the exit
  have hleft := evalExit_leaves hwf m.config (fuel H) ⟨m.log, ids⟩ (H.source t)
    (Nat.lt_add_right _ (Nat.lt_succ_self _)) hinv.bracketed (by
      intro y hy
      rw [hinv.entered y, reached_iff_active m.config.proper hactive]
      exact (and_iff_left hy).symm)
  generalize evalExit H m.config (fuel H) ⟨m.log, ids⟩ (H.source t) true = left at hleft ⊢
  -- the action and the time-outs
  have hquiet := (performAction_quiet H left.log t).trans (evalTimeOut_quiet H env m.config (fuel H)
    ([H.target t], performAction H left.log t) (H.target t) (H.setHistory t) true)
  generalize (evalTimeOut H env m.config (fuel H) ([H.target t], performAction H left.log t)
    (H.target t) (H.setHistory t) true).2 = log at hquiet ⊢
  have hlog : ∀ x, Entered log x ↔ m.config.Active x ∧ ¬ Below H.toTree (H.source t) x := by
    intro x
    rw [hquiet.entered_iff x, hleft.entered x, hinv.entered x]
  -- the entry
  have hentry := evalEntry_enters hwf env (fuel H) ⟨m.config, [H.target t], log⟩ (H.target t)
    (H.setHistory t) (Nat.lt_add_right _ (Nat.lt_succ_self _)) hinv.total (by simp [popState])
    (hquiet.bracketed_iff.mpr hleft.bracketed) (by
      intro q hq
      obtain rfl := Option.some.inj (htarget.symm.trans hq)
      exact (hlog _).mpr ⟨howner, not_below_owner hsource⟩) (by
      intro y hy h
      obtain ⟨hyactive, hnot⟩ := (hlog y).mp h
      exact hnot ((hbelow y hyactive).mp ⟨_, htarget, hy⟩))
  generalize evalEntry H env (fuel H) ⟨m.config, [H.target t], log⟩ (H.target t) (H.setHistory t)
    true = entered at hentry ⊢
  have hactive' := fun x => active_update (x := x) m.config.proper entered.config.proper
    (hentry.selected r htarget) fun q hq hb => hentry.frame q (by
      rw [htarget]
      exact fun h => hq (Option.some.inj h).symm) hb
  refine ⟨⟨hentry.total, fun x => ?_, hentry.bracketed, ?_⟩, fun x hx hunder => ?_⟩
  · show Entered entered.log x ↔ Active H.toTree entered.config.currentState x
    rw [hactive' x, hentry.entered x, hlog x, and_iff_right howner]
    apply or_congr_left
    apply and_congr_right
    exact fun hx => not_congr (hbelow x hx).symm
  · intro calls hcalls
    rcases List.mem_cons.mp hcalls with rfl | hcalls
    · exact nested_take hleft.grows hquiet hentry.grows hentry.bracketed
    · exact hinv.nested calls hcalls
  · exact (hactive' x).mpr (Or.inl ⟨hx, hunder⟩)

theorem foldl_performs (hwf : WellFormed H) (env : Env S T) :
    ∀ (ts : List T) (m : Machine H × Set T), Inv m.1 →
      (∀ t ∈ ts, t ∈ H.outTransitions (H.source t)) →
      (∀ t ∈ ts, m.1.config.Active (H.source t)) →
      (ts.Pairwise fun t u =>
        ¬ Below H.toTree (H.source t) (H.source u) ∧ ¬ Below H.toTree (H.source u) (H.source t)) →
      Inv (ts.foldl (perform H env) m).1 := by
  intro ts
  induction ts with
  | nil => exact fun m hinv _ _ _ => hinv
  | cons t ts ih =>
    intro m hinv hout hactive hapart
    obtain ⟨hfirst, hrest⟩ := List.pairwise_cons.mp hapart
    obtain ⟨r, hsource, htarget⟩ := hwf.sameRegion _ t (hout t List.mem_cons_self)
    have hactive_t := hactive t List.mem_cons_self
    obtain ⟨hkeeps, hstays⟩ := perform_keeps hwf env m.2 hsource htarget hactive_t hinv
    rw [List.foldl_cons]
    apply ih _ hkeeps (fun u hu => hout u (List.mem_cons_of_mem _ hu)) _ hrest
    -- the other sources lie in other regions
    intro u hu
    have hactive_u := hactive u (List.mem_cons_of_mem _ hu)
    apply hstays _ hactive_u
    rw [Active.underRegion_iff m.1.config.proper hactive_t hsource hactive_u]
    exact (hfirst u hu).1

theorem round_keeps (hwf : WellFormed H) (env : Env S T) {m : Machine H} (hinv : Inv m) :
    Inv (round H env m).1 := by
  have hfinds := search_finds hwf.attached env m
  have hquiet : Grows Quiet m.log (search H env m).log :=
    evalTransitions_quiet H env m.config (fuel H) ⟨m.log, [], none⟩ H.root true
  unfold StateMachine.round
  generalize search H env m = found at hfinds hquiet ⊢
  have hfound := hinv.of_quiet hquiet
  cases hts : found.activeTransitions with
  | nil =>
    cases hdefault : found.defaultState with
    | none =>
      simp only [hts, hdefault]
      exact hfound
    | some s =>
      simp only [hts, hdefault]
      exact hfound.call (by trivial)
  | cons t ts =>
    rw [hts] at hfinds
    have hbatch := foldl_performs hwf env (t :: ts) ({ m with log := found.log }, ∅) hfound
      hfinds.source hfinds.reached hfinds.apart
    simp only [hts]
    iterate 5 refine Inv.call ?_ (by trivial)
    exact hbatch

theorem loop_keeps (hwf : WellFormed H) (env : Env S T) (rounds : Nat) {m : Machine H}
    (hinv : Inv m) : Inv (loop H env rounds m) := by
  induction rounds generalizing m with
  | zero => exact hinv
  | succ rounds ih =>
    have hround := round_keeps hwf env hinv
    rw [loop]
    split
    · rename_i m' heq
      rw [heq] at hround
      iterate 2 refine Inv.call ?_ (by trivial)
      exact hround
    · rename_i m' heq
      rw [heq] at hround
      exact ih hround

theorem step_keeps (hwf : WellFormed H) (env : Env S T) (rounds : Nat) {m : Machine H}
    (hinv : Inv m) : Inv (step H env rounds m) := by
  apply loop_keeps hwf env rounds
  iterate 4 refine Inv.call ?_ (by trivial)
  exact hinv

theorem enterRoot_keeps (hwf : WellFormed H) (env : Env S T) {log : List (Callback S T)}
    (hlog : Grows Quiet [] log) {entered : Entering H}
    (h : entered = evalEntry H env (fuel H) ⟨Config.initial H, [], log⟩ H.root false true) :
    Inv ⟨entered.config, entered.log, []⟩ := by
  have hentry := evalEntry_enters hwf env (fuel H) ⟨Config.initial H, [], log⟩ H.root false
    (Nat.lt_add_right _ (Nat.lt_succ_self _)) hwf.initState rfl (hlog.bracketed_iff.mpr trivial)
    (by
      intro r hr
      rw [H.region_root] at hr
      cases hr)
    (fun y _ hy => (hlog.entered_iff y).mp hy)
  rw [← h] at hentry
  refine ⟨hentry.total, fun x => ?_, hentry.bracketed, nofun⟩
  rw [hentry.entered x, hlog.entered_iff x]
  exact iff_of_eq (false_or _)

theorem start_keeps (hwf : WellFormed H) (env : Env S T) (rounds : Nat) :
    Inv (start H env rounds) := by
  have hcalls : Grows Quiet ([] : List (Callback S T))
      [.setCurrentTime, .applyAndResetInputEvents, .resetOutputEvents] :=
    ⟨_, (List.append_nil _).symm, by simp [Quiet]⟩
  have htimeouts := hcalls.trans
    (evalTimeOut_quiet H env (Config.initial H) (fuel H) ([], _) H.root false true)
  have hentered := enterRoot_keeps hwf env (htimeouts.cons (c := .evaluateTimeOuts) trivial) rfl
  apply iteInduction (motive := Inv)
  · intro _
    apply loop_keeps hwf env rounds
    iterate 3 refine Inv.call ?_ (by trivial)
    exact hentered
  · intro _
    iterate 2 refine Inv.call ?_ (by trivial)
    exact hentered

variable (H) in
/-- `start` and then any number of calls of `step`, each with its own environment. -/
def run (env : Env S T) (rounds : Nat) (calls : List (Env S T × Nat)) : Machine H :=
  calls.foldl (fun m call => step H call.1 call.2 m) (start H env rounds)

theorem run_keeps (hwf : WellFormed H) (env : Env S T) (rounds : Nat)
    (calls : List (Env S T × Nat)) : Inv (run H env rounds calls) := by
  unfold run
  have hsteps : ∀ m : Machine H, Inv m →
      Inv (calls.foldl (fun m call => step H call.1 call.2 m) m) := by
    induction calls with
    | nil => exact fun m hinv => hinv
    | cons call calls ih => exact fun m hinv => ih _ (step_keeps hwf call.1 call.2 hinv)
  exact hsteps _ (start_keeps hwf env rounds)

/-- In every run the states whose last entry or exit action is an entry action are the
    active ones; entry actions come to states not entered and exit actions to states
    entered; and each transition leaves children before and enters them after their
    owners. -/
theorem actions_bracket (hwf : WellFormed H) (env : Env S T) (rounds : Nat)
    (calls : List (Env S T × Nat)) :
    (∀ s, Entered (run H env rounds calls).log s ↔
      (run H env rounds calls).config.Active s) ∧
    Bracketed H (run H env rounds calls).log ∧
    ∀ transition ∈ (run H env rounds calls).transitions, Nested H transition :=
  have hinv := run_keeps hwf env rounds calls
  ⟨hinv.entered, hinv.bracketed, hinv.nested⟩

end

/-! ## A machine with two orthogonal regions -/

/-! The regions of seven states, and their depths, as more than one example has them. -/

theorem sevenStates_region_root :
    (![none, some 0, some 0, some 1, some 1, some 2, some 2] : Fin 7 → Option (Fin 3)) 0 = none :=
  rfl

theorem sevenStates_eq_root : ∀ {s : Fin 7},
    (![none, some 0, some 0, some 1, some 1, some 2, some 2] : Fin 7 → Option (Fin 3)) s = none →
      s = 0 := by decide

theorem sevenStates_region_initState : ∀ {r : Fin 3} {s : Fin 7},
    (![some 1, some 3, some 5] : Fin 3 → Option (Fin 7)) r = some s →
      (![none, some 0, some 0, some 1, some 1, some 2, some 2] : Fin 7 → Option (Fin 3)) s =
        some r := by decide

theorem sevenStates_depth_le : ∀ s, (![0, 1, 1, 2, 2, 2, 2] : Fin 7 → Nat) s ≤ 2 := by decide

/-- The root 0 has the region 0 with the states 1, initially, and 2; state 1 has the
    regions 1 with 3, initially, and 4, and 2 with 5, initially, and 6. The
    transitions are 3 to 4, 5 to 6, 1 to 2, and 2 to 1 with history. -/
def twoRegions : Hierarchy (Fin 7) (Fin 3) (Fin 4) where
  root := 0
  region := ![none, some 0, some 0, some 1, some 1, some 2, some 2]
  owner := ![0, 1, 1]
  depth := ![0, 1, 1, 2, 2, 2, 2]
  region_root := sevenStates_region_root
  eq_root := sevenStates_eq_root
  depth_child := by decide
  regions := ![[0], [1, 2], [], [], [], [], []]
  initState := ![some 1, some 3, some 5]
  isDeepHistory := fun _ => true
  stateHasDs := fun _ => true
  defaultActionSet := fun _ => false
  outTransitions := ![[], [2], [3], [0], [], [1], []]
  timeOutTransitions := fun _ => []
  source := ![3, 5, 1, 2]
  target := ![4, 6, 2, 1]
  setHistory := ![false, false, false, true]
  transitionHasDs := fun _ => true
  height := 2
  mem_regions := by decide
  regions_nodup := by decide
  region_initState := sevenStates_region_initState
  depth_le := sevenStates_depth_le

/-- The events of the transitions `ts` are there, every guard holds, and there are no
    internal events. -/
def answers [DecidableEq T] (ts : List T) : Env S T
  | .event t :: _ => t ∈ ts
  | .guard _ :: _ => true
  | _ => false

theorem twoRegions_wellFormed : WellFormed twoRegions where
  initState := by decide
  stateHasDs := by decide
  attached := by
    unfold Attached
    decide
  sameRegion := by decide

/-- Both regions of state 1 move on, it is left, and it is entered again with history. -/
def historyCalls : List (Env (Fin 7) (Fin 4) × Nat) :=
  [(answers [0, 1], 1), (answers [2], 1), (answers [3], 1)]

theorem actions_bracket_historyEntry :
    (run twoRegions (answers []) 1 historyCalls).transitions.head? =
      some [.entry 6, .entry 4, .entry 1, .action 3, .exit 2] ∧
    (∀ s, Entered (run twoRegions (answers []) 1 historyCalls).log s ↔
      (run twoRegions (answers []) 1 historyCalls).config.Active s) ∧
    Bracketed twoRegions (run twoRegions (answers []) 1 historyCalls).log ∧
    ∀ transition ∈ (run twoRegions (answers []) 1 historyCalls).transitions,
      Nested twoRegions transition :=
  ⟨rfl, actions_bracket twoRegions_wellFormed (answers []) 1 historyCalls⟩

end Arinc.Bracketing
