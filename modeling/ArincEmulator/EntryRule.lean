import ArincEmulator.EntryPoints

/- What an entry makes of the configuration, as a rule on the configuration before it.
   On the way to the target the regions before the next state to enter get their
   initial states, the regions after it history or their initial states; so do those
   of the target (`Plan`). The states this leads to are those reached after `EvalEntry`,
   and the regions it does not lead to keep their current states. -/
namespace Arinc.EntryRule
open AndOrTree StateMachine

variable {S R T : Type} [DecidableEq S] [DecidableEq R] {H : Hierarchy S R T}

/-! ## The rule -/

/-- How an entry goes on below a state: the states still to enter, and history. -/
structure Plan (S : Type) where
  statesToEnter : List S
  applyHistory : Bool
  checkHistory : Bool

/-- The plan below `s` once `s` is entered. -/
def Plan.enter (statesToEnter : List S) (s : S) (applyHistory : Bool) : Plan S :=
  ⟨(popState statesToEnter s applyHistory).1, applyHistory,
    (popState statesToEnter s applyHistory).2⟩

/-- The states still to enter after the regions `done`: none, if the next one lies in
    one of them. -/
def Plan.pending (H : Hierarchy S R T) (p : Plan S) (done : List R) : List S :=
  match p.statesToEnter with
  | [] => []
  | d :: rest => if ∃ q ∈ done, H.region d = some q then [] else d :: rest

/-- The states still to enter when it is the turn of `r`. -/
def Plan.pendingAt (H : Hierarchy S R T) (p : Plan S) (r : R) : List S :=
  p.pending H ((H.regions (H.owner r)).takeWhile (· ≠ r))

/-- The state to enter in `r`, and whether history goes on below it. -/
def Plan.choose (p : Plan S) (c : Config H) (r : R) : Option S × Bool :=
  chooseState H c (p.pendingAt H r) r p.applyHistory p.checkHistory

/-- The entry of `s` leads to `x`. Where there is no state to enter in a region, its
    current state stays with all that is reached from it. -/
inductive Leads (c : Config H) : Plan S → S → S → Prop
  | refl {p : Plan S} {s : S} : Leads c p s s
  | entered {p : Plan S} {s y x : S} {r : R} {h : Bool} : H.owner r = s →
      p.choose c r = (some y, h) → Leads c (.enter (p.pendingAt H r) y h) y x → Leads c p s x
  | kept {p : Plan S} {s y x : S} {r : R} {h : Bool} : H.owner r = s →
      p.choose c r = (none, h) → c.currentState r = some y →
      Reached H.toTree c.currentState y x → Leads c p s x

/-- The entry leads to `x` in region `r`. -/
def LeadsIn (c : Config H) (p : Plan S) (r : R) (x : S) : Prop :=
  (∃ y h, p.choose c r = (some y, h) ∧ Leads c (.enter (p.pendingAt H r) y h) y x) ∨
    ∃ y h, p.choose c r = (none, h) ∧ c.currentState r = some y ∧
      Reached H.toTree c.currentState y x

theorem LeadsIn.iff_of_some {c : Config H} {p : Plan S} {r : R} {y : S} {h : Bool}
    (hchoose : p.choose c r = (some y, h)) (x : S) :
    LeadsIn c p r x ↔ Leads c (.enter (p.pendingAt H r) y h) y x := by
  constructor
  · rintro (⟨z, k, hz, hzx⟩ | ⟨z, k, hz, -⟩)
    · rw [hchoose] at hz
      cases hz
      exact hzx
    · rw [hchoose] at hz
      cases hz
  · exact fun hx => Or.inl ⟨y, h, hchoose, hx⟩

theorem LeadsIn.iff_of_none {c : Config H} {p : Plan S} {r : R} {h : Bool}
    (hchoose : p.choose c r = (none, h)) (x : S) :
    LeadsIn c p r x ↔ ∃ y, c.currentState r = some y ∧ Reached H.toTree c.currentState y x := by
  constructor
  · rintro (⟨z, k, hz, -⟩ | ⟨z, k, -, hz⟩)
    · rw [hchoose] at hz
      cases hz
    · exact ⟨z, hz⟩
  · rintro ⟨y, hy⟩
    exact Or.inr ⟨y, h, hchoose, hy⟩

theorem Leads.iff_region {c : Config H} {p : Plan S} {s x : S} :
    Leads c p s x ↔ x = s ∨ ∃ r, H.owner r = s ∧ LeadsIn c p r x := by
  constructor
  · intro h
    cases h with
    | refl => exact Or.inl rfl
    | entered howner hchoose h => exact Or.inr ⟨_, howner, Or.inl ⟨_, _, hchoose, h⟩⟩
    | kept howner hchoose hr h => exact Or.inr ⟨_, howner, Or.inr ⟨_, _, hchoose, hr, h⟩⟩
  · rintro (rfl | ⟨r, howner, ⟨y, h, hchoose, hy⟩ | ⟨y, h, hchoose, hr, hy⟩⟩)
    · exact .refl
    · exact .entered howner hchoose hy
    · exact .kept howner hchoose hr hy

omit [DecidableEq S] in
theorem chooseState_region {c : Config H} {statesToEnter : List S} {r : R} {h k : Bool} {y : S}
    {h' : Bool} (hy : chooseState H c statesToEnter r h k = (some y, h')) :
    H.region y = some r := by
  unfold chooseState at hy
  cases statesToEnter with
  | nil =>
    have hy := congrArg Prod.fst hy
    cases h with
    | false => exact H.region_initState hy
    | true => exact c.proper r y hy
  | cons d rest =>
    have hy := congrArg Prod.fst hy
    simp only at hy
    split at hy
    · rename_i hd
      obtain rfl := Option.some.inj hy
      exact hd
    · exact H.region_initState hy

omit [DecidableEq S] in
theorem chooseState_congr {c c' : Config H} (statesToEnter : List S) {r : R} (h k : Bool)
    (hsame : c'.currentState r = c.currentState r) :
    chooseState H c' statesToEnter r h k = chooseState H c statesToEnter r h k := by
  unfold chooseState
  cases statesToEnter with
  | nil => rw [hsame]
  | cons d rest => rfl

theorem Leads.isBelow {c : Config H} {p : Plan S} {s x : S} (h : Leads c p s x) :
    Below H.toTree s x := by
  induction h with
  | refl => exact .refl
  | entered howner hchoose _ ih =>
    subst howner
    exact UnderRegion.below_owner ⟨_, chooseState_region hchoose, ih⟩
  | kept howner _ hr h =>
    subst howner
    exact UnderRegion.below_owner ⟨_, c.proper _ _ hr, h.isBelow c.proper⟩

theorem LeadsIn.underRegion {c : Config H} {p : Plan S} {r : R} {x : S} (h : LeadsIn c p r x) :
    UnderRegion H.toTree r x := by
  rcases h with ⟨y, h, hchoose, hy⟩ | ⟨y, h, -, hr, hy⟩
  · exact ⟨y, chooseState_region hchoose, hy.isBelow⟩
  · exact ⟨y, c.proper r y hr, hy.isBelow c.proper⟩

omit [DecidableEq S] in
theorem Plan.choose_congr {c c' : Config H} (p : Plan S) {r : R}
    (hsame : c'.currentState r = c.currentState r) : p.choose c' r = p.choose c r :=
  chooseState_congr _ _ _ hsame

theorem Leads.congr {c c' : Config H} {p : Plan S} {s x : S}
    (hsame : ∀ q, Below H.toTree s (H.owner q) → c'.currentState q = c.currentState q)
    (h : Leads c p s x) : Leads c' p s x := by
  induction h with
  | refl => exact .refl
  | entered howner hchoose _ ih =>
    subst howner
    have hbelow := UnderRegion.below_owner ⟨_, chooseState_region hchoose, .refl⟩
    have hchoose' := (Plan.choose_congr _ (hsame _ .refl)).trans hchoose
    exact .entered rfl hchoose' (ih fun q hq => hsame q (hbelow.trans hq))
  | kept howner hchoose hr h =>
    subst howner
    have hbelow := UnderRegion.below_owner ⟨_, c.proper _ _ hr, .refl⟩
    have hchoose' := (Plan.choose_congr _ (hsame _ .refl)).trans hchoose
    exact .kept rfl hchoose' ((hsame _ .refl).trans hr)
      (h.congr c.proper fun q hq => hsame q (hbelow.trans hq))

/-! ## The queue -/

/-- The queue at the entry of `s`: empty, or from `s` on a path down, or about
    another place. -/
def Fits (H : Hierarchy S R T) (s : S) (statesToEnter : List S) : Prop :=
  statesToEnter = [] ∨ (∃ rest, statesToEnter = s :: rest ∧ Path H.toTree (s :: rest)) ∨
    ∃ d rest, statesToEnter = d :: rest ∧ ¬ Below H.toTree s d

/-- The queue below `s`: empty, or from a child of `s` on a path down, or about
    another place. -/
def Plan.Fits (H : Hierarchy S R T) (s : S) (p : Plan S) : Prop :=
  p.statesToEnter = [] ∨ ∃ d rest, p.statesToEnter = d :: rest ∧
    (Path H.toTree (s :: d :: rest) ∨ ¬ Below H.toTree s d)

/-- The queue after the entry of `s`. -/
def remaining (statesToEnter : List S) (s : S) : List S :=
  if statesToEnter.head? = some s then [] else statesToEnter

omit [DecidableEq R] in
theorem Fits.enter {s : S} {statesToEnter : List S} (h : Fits H s statesToEnter)
    (applyHistory : Bool) : (Plan.enter statesToEnter s applyHistory).Fits H s := by
  rcases h with rfl | ⟨rest, rfl, hpath⟩ | ⟨d, rest, rfl, hd⟩
  · exact Or.inl rfl
  · cases rest with
    | nil => exact Or.inl (by simp [Plan.enter, popState])
    | cons d rest => exact Or.inr ⟨d, rest, by simp [Plan.enter, popState], Or.inl hpath⟩
  · have hne : d ≠ s := fun heq => hd (heq ▸ .refl)
    exact Or.inr ⟨d, rest, by simp [Plan.enter, popState, hne], Or.inr hd⟩

omit [DecidableEq S] in
theorem pending_cons {p : Plan S} {d : S} {rest : List S} (h : p.statesToEnter = d :: rest)
    (done : List R) :
    p.pending H done = if ∃ q ∈ done, H.region d = some q then [] else d :: rest := by
  rw [Plan.pending, h]

omit [DecidableEq S] in
theorem pendingAt_eq {s : S} (p : Plan S) {r : R} {done rs : List R}
    (h : H.regions s = done ++ r :: rs) : p.pendingAt H r = p.pending H done := by
  have hnodup := H.regions_nodup s
  have hr : H.owner r = s := H.mem_regions.mp (h ▸ List.mem_append_right _ List.mem_cons_self)
  rw [h] at hnodup
  have hdone : ∀ q ∈ done, decide (q ≠ r) = true := fun q hq =>
    decide_eq_true ((List.nodup_append.mp hnodup).2.2 q hq r List.mem_cons_self)
  rw [Plan.pendingAt, hr, h, List.takeWhile_append_of_pos hdone, List.takeWhile_cons_of_neg,
    List.append_nil]
  simp

omit [DecidableEq S] in
theorem pending_cases {s : S} {p : Plan S} (hp : p.Fits H s) (done : List R) :
    (∀ r, p.pending H done = [] ∧ p.pending H (done ++ [r]) = []) ∨
      ∃ d rest, p.pending H done = d :: rest ∧
        (∀ r, p.pending H (done ++ [r]) = if H.region d = some r then [] else d :: rest) ∧
        (Path H.toTree (s :: d :: rest) ∨ ¬ Below H.toTree s d) := by
  rcases hp with hp | ⟨d, rest, hp, hd⟩
  · simp [Plan.pending, hp]
  · by_cases hdone : ∃ q ∈ done, H.region d = some q
    · left
      intro r
      obtain ⟨q, hq, hdq⟩ := hdone
      rw [pending_cons hp, pending_cons hp]
      exact ⟨if_pos ⟨q, hq, hdq⟩, if_pos ⟨q, List.mem_append_left _ hq, hdq⟩⟩
    · refine Or.inr ⟨d, rest, ?_, fun r => ?_, hd⟩
      · rw [pending_cons hp, if_neg hdone]
      · rw [pending_cons hp]
        apply if_congr _ rfl rfl
        constructor
        · rintro ⟨q, hq, hdq⟩
          rcases List.mem_append.mp hq with hq | hq
          · exact absurd ⟨q, hq, hdq⟩ hdone
          · exact List.mem_singleton.mp hq ▸ hdq
        · exact fun hdr => ⟨r, List.mem_append_right _ List.mem_cons_self, hdr⟩

omit [DecidableEq S] in
/-- The turn of a region without a state to enter leaves the queue. -/
theorem pending_of_none {s : S} {p : Plan S} (hp : p.Fits H s) {r : R} {c : Config H}
    {done : List R} {h k h' : Bool}
    (hchoose : chooseState H c (p.pending H done) r h k = (none, h')) :
    p.pending H (done ++ [r]) = p.pending H done := by
  rcases pending_cases hp done with hempty | ⟨d, rest, hnow, hnext, -⟩
  · rw [(hempty r).1, (hempty r).2]
  · rw [hnow] at hchoose
    rw [hnext r, hnow]
    apply if_neg
    intro hdr
    simp [chooseState, hdr] at hchoose

/-- The turn of a region with the state `y` to enter: the queue fits `y`, and what
    remains of it afterwards is pending for the regions behind. -/
theorem pending_of_some {s : S} {p : Plan S} (hp : p.Fits H s) {r : R} (hr : H.owner r = s)
    {c : Config H} {done : List R} {h k h' : Bool} {y : S}
    (hchoose : chooseState H c (p.pending H done) r h k = (some y, h')) :
    Fits H y (p.pending H done) ∧
      p.pending H (done ++ [r]) = remaining (p.pending H done) y := by
  have hyr := chooseState_region hchoose
  rcases pending_cases hp done with hempty | ⟨d, rest, hnow, hnext, hd⟩
  · rw [(hempty r).1, (hempty r).2]
    exact ⟨Or.inl rfl, rfl⟩
  · rw [hnow] at hchoose
    rw [hnext r, hnow]
    by_cases hdr : H.region d = some r
    · -- the next state of the path
      have hyd : some d = some y := by
        have hfst := congrArg Prod.fst hchoose
        rwa [chooseState, if_pos hdr] at hfst
      obtain rfl := Option.some.inj hyd
      rcases hd with hpath | hd
      · exact ⟨Or.inr (Or.inl ⟨rest, rfl, hpath.of_cons⟩), by simp [remaining, hdr]⟩
      · exact absurd (Below.child hdr (hr ▸ .refl)) hd
    · -- a state beside the path
      have hyd : d ≠ y := fun heq => hdr (heq ▸ hyr)
      refine ⟨Or.inr (Or.inr ⟨d, rest, rfl, fun hbelow => ?_⟩), by simp [remaining, hdr, hyd]⟩
      rcases hd with hpath | hd
      · obtain ⟨⟨q, hdq, hq⟩, -⟩ := List.isChain_cons_cons.mp hpath
        exact hyd (eq_of_below_siblings hyr hdq (hr.trans hq.symm) hbelow .refl).symm
      · exact hd (Below.trans (.child hyr (hr ▸ .refl)) hbelow)

theorem pending_regions {s : S} {statesToEnter : List S} (h : Fits H s statesToEnter)
    (applyHistory : Bool) :
    (Plan.enter statesToEnter s applyHistory).pending H (H.regions s) =
      remaining statesToEnter s := by
  rcases h with rfl | ⟨rest, rfl, hpath⟩ | ⟨d, rest, rfl, hd⟩
  · rfl
  · cases rest with
    | nil => simp [Plan.enter, popState, Plan.pending, remaining]
    | cons d rest =>
      obtain ⟨⟨q, hdq, hq⟩, -⟩ := List.isChain_cons_cons.mp hpath
      have henter : (Plan.enter (s :: d :: rest) s applyHistory).statesToEnter = d :: rest := by
        simp [Plan.enter, popState]
      rw [pending_cons henter, if_pos ⟨q, H.mem_regions.mpr hq, hdq⟩]
      simp [remaining]
  · have hne : d ≠ s := fun heq => hd (heq ▸ .refl)
    have henter : (Plan.enter (d :: rest) s applyHistory).statesToEnter = d :: rest := by
      simp [Plan.enter, popState, hne]
    rw [pending_cons henter, if_neg]
    · simp [remaining, hne]
    · rintro ⟨q, hq, hdq⟩
      exact hd (Below.child hdq (H.mem_regions.mp hq ▸ .refl))

/-! ## `EvalEntry` follows the rule -/

/-- What entering `s` has done to the configuration `c`. -/
structure Enters (c : Config H) (statesToEnter : List S) (s : S) (applyHistory : Bool)
    (new : Entering H) : Prop where
  reached : ∀ x, Reached H.toTree new.config.currentState s x ↔
    Leads c (.enter statesToEnter s applyHistory) s x
  selected : ∀ r, H.region s = some r → new.config.currentState r = some s
  frame : ∀ q, (∀ x, Leads c (.enter statesToEnter s applyHistory) s x → H.region x ≠ some q) →
    new.config.currentState q = c.currentState q
  queue : new.statesToEnter = remaining statesToEnter s

/-- What the turn of region `r` has done to the configuration `c`. -/
structure EntersRegion (c : Config H) (p : Plan S) (r : R) (e new : Entering H) : Prop where
  reached : ∀ x, (∃ y, new.config.currentState r = some y ∧
    Reached H.toTree new.config.currentState y x) ↔ LeadsIn c p r x
  frame : ∀ q, (∀ x, LeadsIn c p r x → H.region x ≠ some q) →
    new.config.currentState q = e.config.currentState q

/-- The configurations agree on region `r` and below it. -/
def Agree (r : R) (c c' : Config H) : Prop :=
  ∀ q, q = r ∨ UnderRegion H.toTree r (H.owner q) → c'.currentState q = c.currentState q

omit [DecidableEq S] [DecidableEq R] in
theorem Agree.symm {r : R} {c c' : Config H} (h : Agree r c c') : Agree r c' c :=
  fun q hq => (h q hq).symm

omit [DecidableEq S] [DecidableEq R] in
theorem Agree.trans {r : R} {c c' c'' : Config H} (h : Agree r c c') (h' : Agree r c' c'') :
    Agree r c c'' := fun q hq => (h' q hq).trans (h q hq)

omit [DecidableEq S] [DecidableEq R] in
theorem Agree.reached {r : R} {c c' : Config H} (h : Agree r c c') (x : S)
    (hx : ∃ y, c.currentState r = some y ∧ Reached H.toTree c.currentState y x) :
    ∃ y, c'.currentState r = some y ∧ Reached H.toTree c'.currentState y x := by
  obtain ⟨y, hy, hyx⟩ := hx
  refine ⟨y, (h r (Or.inl rfl)).trans hy, hyx.congr c.proper fun q hq => ?_⟩
  exact h q (Or.inr ⟨y, c.proper r y hy, hq⟩)

theorem EntersRegion.agree {c : Config H} {p : Plan S} {r q : R} {e new : Entering H}
    (h : EntersRegion c p r e new) (howner : H.owner r = H.owner q) (hne : r ≠ q) :
    Agree q e.config new.config := by
  intro k hk
  apply h.frame
  intro x hx hxk
  apply hne
  apply eq_of_underRegion howner hx.underRegion
  rcases hk with rfl | hk
  · exact ⟨x, hxk, .refl⟩
  · obtain ⟨y, hy, hyk⟩ := hk
    exact ⟨y, hy, .child hxk hyk⟩

theorem region_enters {c : Config H} {s : S} {p : Plan S} (hp : p.Fits H s)
    {f : Entering H → S → Bool → Entering H}
    (hf : ∀ (e : Entering H) (x : S) (h : Bool) (r : R), H.region x = some r → H.owner r = s →
      Fits H x e.statesToEnter → Enters e.config e.statesToEnter x h (f e x h))
    {r : R} {done rs : List R} (hregions : H.regions s = done ++ r :: rs) {e : Entering H}
    (hqueue : e.statesToEnter = p.pending H done) (hagree : Agree r c e.config) :
    EntersRegion c p r e (Region.evalEntry p.applyHistory p.checkHistory f e r) ∧
      (Region.evalEntry p.applyHistory p.checkHistory f e r).statesToEnter =
        p.pending H (done ++ [r]) := by
  have howner : H.owner r = s :=
    H.mem_regions.mp (hregions ▸ List.mem_append_right _ List.mem_cons_self)
  have hat := pendingAt_eq p hregions
  have hchoose : chooseState H e.config e.statesToEnter r p.applyHistory p.checkHistory =
      p.choose c r := by
    rw [Plan.choose, hat, hqueue]
    exact chooseState_congr _ _ _ (hagree r (Or.inl rfl))
  unfold Region.evalEntry
  cases hx : p.choose c r with
  | mk choice h =>
    rw [hchoose, hx]
    rw [hx, hqueue] at hchoose
    cases choice with
    | none =>
      refine ⟨⟨fun x => ?_, fun q _ => rfl⟩, ?_⟩
      · rw [LeadsIn.iff_of_none hx]
        exact ⟨hagree.symm.reached x, hagree.reached x⟩
      · rw [pending_of_none hp hchoose]
        exact hqueue
    | some y =>
      have hyr := chooseState_region hchoose
      obtain ⟨hfits, hrest⟩ := pending_of_some hp howner hchoose
      rw [← hqueue] at hfits hrest
      rw [← hqueue] at hat
      have hdone := hf { e with config := e.config.setCurrentState r y } y h r hyr howner hfits
      simp only at hdone ⊢
      generalize f { e with config := e.config.setCurrentState r y } y h = new at hdone ⊢
      -- the current state that has been set is above all that matters below `y`
      have hbelow : ∀ q, Below H.toTree y (H.owner q) →
          (e.config.setCurrentState r y).currentState q = c.currentState q := by
        intro q hq
        have hqr : q ≠ r := by
          rintro rfl
          exact not_below_owner hyr hq
        rw [Config.setCurrentState_ne _ _ hqr]
        exact hagree q (Or.inr ⟨y, hyr, hq⟩)
      have hleads : ∀ x, Leads (e.config.setCurrentState r y) (.enter e.statesToEnter y h) y x ↔
          LeadsIn c p r x := by
        intro x
        rw [LeadsIn.iff_of_some hx, hat]
        exact ⟨Leads.congr fun q hq => (hbelow q hq).symm, Leads.congr hbelow⟩
      refine ⟨⟨fun x => ?_, fun q hq => ?_⟩, hdone.queue.trans hrest.symm⟩
      · rw [← hleads x, ← hdone.reached x, hdone.selected r hyr]
        simp
      · have hqr : q ≠ r := by
          rintro rfl
          exact hq y ((hleads y).mp .refl) hyr
        rw [hdone.frame q (fun x hx => hq x ((hleads x).mp hx)), Config.setCurrentState_ne _ _ hqr]

/-- What the turns of the regions `rs` have done to the configuration `c`. -/
structure EntersRegions (c : Config H) (p : Plan S) (rs : List R) (e new : Entering H) : Prop where
  reached : ∀ r ∈ rs, ∀ x, (∃ y, new.config.currentState r = some y ∧
    Reached H.toTree new.config.currentState y x) ↔ LeadsIn c p r x
  frame : ∀ q, (∀ r ∈ rs, ∀ x, LeadsIn c p r x → H.region x ≠ some q) →
    new.config.currentState q = e.config.currentState q

theorem regions_enter {c : Config H} {s : S} {p : Plan S} (hp : p.Fits H s)
    {f : Entering H → S → Bool → Entering H}
    (hf : ∀ (e : Entering H) (x : S) (h : Bool) (r : R), H.region x = some r → H.owner r = s →
      Fits H x e.statesToEnter → Enters e.config e.statesToEnter x h (f e x h)) :
    ∀ (rs done : List R) (e : Entering H), H.regions s = done ++ rs →
      e.statesToEnter = p.pending H done → (∀ r ∈ rs, Agree r c e.config) →
      EntersRegions c p rs e
          (rs.foldl (Region.evalEntry p.applyHistory p.checkHistory f) e) ∧
        (rs.foldl (Region.evalEntry p.applyHistory p.checkHistory f) e).statesToEnter =
          p.pending H (H.regions s) := by
  intro rs
  induction rs with
  | nil =>
    intro done e hregions hqueue _
    rw [List.append_nil] at hregions
    exact ⟨⟨nofun, fun q _ => rfl⟩, hregions ▸ hqueue⟩
  | cons r rs ih =>
    intro done e hregions hqueue hagree
    have howner : ∀ q ∈ r :: rs, H.owner q = s := fun q hq =>
      H.mem_regions.mp (hregions ▸ List.mem_append_right _ hq)
    have hr : r ∉ rs := by
      have hnodup := H.regions_nodup s
      rw [hregions] at hnodup
      exact (List.nodup_cons.mp (List.nodup_append.mp hnodup).2.1).1
    have hsiblings : ∀ q ∈ rs, H.owner r = H.owner q ∧ r ≠ q := fun q hq =>
      ⟨(howner r List.mem_cons_self).trans (howner q (List.mem_cons_of_mem _ hq)).symm,
        fun heq => hr (heq ▸ hq)⟩
    obtain ⟨hfirst, hnext⟩ :=
      region_enters hp hf hregions hqueue (hagree r List.mem_cons_self)
    rw [List.foldl_cons]
    generalize Region.evalEntry p.applyHistory p.checkHistory f e r = e₁ at hfirst hnext ⊢
    obtain ⟨hrest, hlast⟩ := ih (done ++ [r]) e₁ (by simp [hregions]) hnext fun q hq =>
      (hagree q (List.mem_cons_of_mem _ hq)).trans
        (hfirst.agree (hsiblings q hq).1 (hsiblings q hq).2)
    generalize rs.foldl (Region.evalEntry p.applyHistory p.checkHistory f) e₁ = e₂ at hrest hlast ⊢
    -- the regions behind leave the first one alone
    have hkept : Agree r e₁.config e₂.config := by
      intro k hk
      apply hrest.frame
      intro q hq x hx hxk
      have hunder : UnderRegion H.toTree r x := by
        rcases hk with rfl | ⟨y, hy, hyk⟩
        · exact ⟨x, hxk, .refl⟩
        · exact ⟨y, hy, .child hxk hyk⟩
      exact (hsiblings q hq).2 (eq_of_underRegion (hsiblings q hq).1 hunder hx.underRegion)
    refine ⟨⟨fun q hq x => ?_, fun q hq => ?_⟩, hlast⟩
    · rcases List.mem_cons.mp hq with rfl | hq
      · rw [← hfirst.reached x]
        exact ⟨hkept.symm.reached x, hkept.reached x⟩
      · exact hrest.reached q hq x
    · rw [hrest.frame q fun k hk => hq k (List.mem_cons_of_mem _ hk),
        hfirst.frame q (hq r List.mem_cons_self)]

theorem evalEntry_follows (env : Env S T) (fuel : Nat) (e : Entering H) (s : S)
    (applyHistory doEntry : Bool) (hfuel : H.height < fuel + H.depth s)
    (hfits : Fits H s e.statesToEnter) :
    Enters e.config e.statesToEnter s applyHistory
      (evalEntry H env fuel e s applyHistory doEntry) := by
  induction fuel generalizing e s applyHistory doEntry with
  | zero =>
    have hle := H.depth_le s
    omega
  | succ fuel ih =>
    simp only [evalEntry]
    generalize (if doEntry = true then performEntry H env e.log s else e.log) = log
    -- below `s` the current state of its own region does not matter
    have hsame : ∀ q, Below H.toTree s (H.owner q) →
        (e.config.enter s).currentState q = e.config.currentState q := by
      intro q hq
      apply Config.enter_ne
      intro hs
      exact not_below_owner hs hq
    obtain ⟨hregions, hqueue⟩ := regions_enter (c := e.config.enter s) (hfits.enter applyHistory)
      (f := fun e x applyHistory => evalEntry H env fuel e x applyHistory true)
      (by
        intro e x h r hx hr hfits
        apply ih e x h true _ hfits
        rw [H.depth_child hx, hr]
        omega)
      (H.regions s) [] ⟨e.config.enter s, (popState e.statesToEnter s applyHistory).1, log⟩ rfl
      (by
        unfold Plan.pending Plan.enter
        cases (popState e.statesToEnter s applyHistory).1 with
        | nil => rfl
        | cons d rest => simp)
      (fun r _ q _ => rfl)
    rw [pending_regions hfits] at hqueue
    simp only [Plan.enter] at hregions hqueue
    generalize (H.regions s).foldl _ _ = new at hregions hqueue ⊢
    change EntersRegions _ (.enter e.statesToEnter s applyHistory) _ _ new at hregions
    have hleads : ∀ x, Leads e.config (.enter e.statesToEnter s applyHistory) s x ↔
        x = s ∨ ∃ r ∈ H.regions s, LeadsIn (e.config.enter s)
          (.enter e.statesToEnter s applyHistory) r x := by
      intro x
      simp only [H.mem_regions]
      rw [← Leads.iff_region]
      exact ⟨Leads.congr hsame, Leads.congr fun q hq => (hsame q hq).symm⟩
    have hframe : ∀ q, (∀ x, Leads e.config (.enter e.statesToEnter s applyHistory) s x →
        H.region x ≠ some q) → new.config.currentState q = e.config.currentState q := by
      intro q hq
      rw [hregions.frame q fun r hr x hx => hq x ((hleads x).mpr (Or.inr ⟨r, hr, hx⟩))]
      exact Config.enter_ne _ (hq s .refl)
    refine ⟨fun x => ?_, fun r hr => ?_, hframe, hqueue⟩
    · rw [hleads x, Reached.iff_head]
      simp only [← H.mem_regions]
      apply or_congr_right
      apply exists_congr
      intro r
      apply and_congr_right
      exact fun hr => hregions.reached r hr x
    · rw [hregions.frame r fun q hq x hx hxr => ?_]
      · exact Config.enter_self _ hr
      · -- the region of `s` is not below `s`
        rw [← H.mem_regions.mp hq] at hr
        exact not_below_owner hr (hx.underRegion.below_owner_of_region hxr)

theorem Enters.current {c : Config H} {statesToEnter : List S} {s x : S} {applyHistory : Bool}
    {new : Entering H} {q : R} (h : Enters c statesToEnter s applyHistory new)
    (hx : Leads c (.enter statesToEnter s applyHistory) s x) (hq : H.region x = some q) :
    new.config.currentState q = some x := by
  by_cases hxs : x = s
  · subst hxs
    exact h.selected q hq
  · exact (((h.reached x).mpr hx).selected new.config.proper hxs hq).1

theorem Enters.frame_outside {c : Config H} {statesToEnter : List S} {s : S} {applyHistory : Bool}
    {new : Entering H} {q : R} (h : Enters c statesToEnter s applyHistory new)
    (hq : H.region s ≠ some q) (hbelow : ¬ Below H.toTree s (H.owner q)) :
    new.config.currentState q = c.currentState q := by
  apply h.frame
  intro x hx hxq
  rcases hx.isBelow.eq_or_owner with rfl | ⟨r, hr, hb⟩
  · exact hq hxq
  · obtain rfl := Option.some.inj (hr.symm.trans hxq)
    exact hbelow hb

end Arinc.EntryRule
