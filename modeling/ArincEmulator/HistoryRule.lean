import ArincEmulator.DryRun
import Mathlib.Data.List.TakeWhile

/- History, as a rule that does not know the order of the regions, against the entry.
   `Region::EvalEntry` asks neither whether a region has history enabled nor whether it
   is beside the path: it looks at the states still to enter, and these are used up once
   the region on the path has had its turn. So the regions behind it get their last
   states, with all below them, and the regions before it their initial ones.

   What is proved: a transition with history enters the states of the rule, in whatever
   order the regions are, just where every region that is to begin anew is in its initial
   state already (`history_iff`). -/
namespace Arinc.HistoryRule
open AndOrTree StateMachine EntryRule DryRun
open ActiveSources (firstToEnter)

variable {S R T : Type} {H : Hierarchy S R T}

/-! ## The rule -/

variable (H) in
/-- `m_historyEnabled`, which is set wherever `m_isDeepHistory` is. -/
structure HistoryFlags where
  historyEnabled : R → Bool
  of_deep : ∀ r, H.isDeepHistory r = true → historyEnabled r = true

/-- Where an entry with history is: on the way to the target with `d` the next state, at
    the target, below it with deep history or without any more, or beside the path. -/
inductive Mode (S : Type) where
  | toward (d : S) (rest : List S)
  | target
  | deep
  | shallow
  | beside

/-- The way still to go. -/
def Mode.along : List S → Mode S
  | [] => .target
  | d :: rest => .toward d rest

variable [DecidableEq R]

/-- The state a region is to enter, and how the entry goes on below it. -/
def Mode.choose (F : HistoryFlags H) (c : Config H) : Mode S → R → Option S × Mode S
  | .toward d rest, r =>
    if H.region d = some r then (some d, .along rest) else (H.initState r, .beside)
  | .target, r =>
    if F.historyEnabled r then
      (c.currentState r, if H.isDeepHistory r then .deep else .shallow)
    else (H.initState r, .shallow)
  | .deep, r => (if F.historyEnabled r then c.currentState r else H.initState r, .deep)
  | .shallow, r => (H.initState r, .shallow)
  | .beside, r => (H.initState r, .beside)

/-- A region begins anew although there is history around it: it lies beside the path,
    or it has no history of its own. -/
def Mode.Anew (F : HistoryFlags H) : Mode S → R → Prop
  | .toward d _, r => H.region d ≠ some r
  | .target, r => F.historyEnabled r = false
  | .deep, r => F.historyEnabled r = false
  | .shallow, _ => False
  | .beside, _ => True

/-- From `s` on in one mode the rule comes to region `r` in another. -/
inductive Comes (F : HistoryFlags H) (c : Config H) : Mode S → S → Mode S → R → Prop
  | here {m : Mode S} {s : S} {r : R} : H.owner r = s → Comes F c m s m r
  | inside {m m' k : Mode S} {s y : S} {r q : R} : H.owner r = s → m.choose F c r = (some y, m') →
      Comes F c m' y k q → Comes F c m s k q

/-! ## Another order of the regions -/

/-- The same hierarchy with the regions of each state in another order. -/
def reordered (H : Hierarchy S R T) (order : S → List R)
    (horder : ∀ s, (order s).Perm (H.regions s)) : Hierarchy S R T :=
  { H with
    regions := order
    mem_regions := fun {_ s} => (horder s).mem_iff.trans H.mem_regions
    regions_nodup := fun s => (horder s).nodup_iff.mpr (H.regions_nodup s) }

omit [DecidableEq R] in
/-- The current states do not depend on the order. -/
def reorderedConfig (c : Config H) (order : S → List R)
    (horder : ∀ s, (order s).Perm (H.regions s)) : Config (reordered H order horder) :=
  ⟨c.currentState, c.proper⟩

variable [DecidableEq S]

variable (H) in
/-- Where the entry of a transition begins. -/
def startMode (t : T) : Mode S := .along (entryAndExitPoints H t).statesToEnter.tail

/-- In any order of the regions the transition enters, of the states of each region the
    rule comes to, the one the rule chooses, and this is the current one afterwards. -/
def FollowsHistory (F : HistoryFlags H) (c : Config H) (t : T) : Prop :=
  H.setHistory t = true →
    ∀ (order : S → List R) (horder : ∀ s, (order s).Perm (H.regions s)) (m : Mode S) (r : R),
      Comes F c (startMode H t) (firstToEnter H t) m r →
      (∀ x, H.region x = some r →
        (x ∈ enteredStates (reorderedConfig c order horder) t ↔ (m.choose F c r).1 = some x)) ∧
      ∀ (env : Env S T) (before : Machine (reordered H order horder) × Set T) (x : S),
        before.1.config = reorderedConfig c order horder → (m.choose F c r).1 = some x →
        (perform (reordered H order horder) env before t).1.config.currentState r = some x

/-! ## What the entry chooses -/

/-- On the way from `a` the entry comes to `s`, with the plan `p` there. -/
inductive Follow (c : Config H) : Plan S → S → Plan S → S → Prop
  | refl {p : Plan S} {s : S} : Follow c p s p s
  | region {p q : Plan S} {s y x : S} {r : R} {h : Bool} : H.owner r = s →
      p.choose c r = (some y, h) → Follow c (.enter (p.pendingAt H r) y h) y q x →
      Follow c p s q x

theorem Follow.snoc {c : Config H} {p q : Plan S} {a s y : S} {r : R} {h : Bool}
    (hfollow : Follow c p a q s) (howner : H.owner r = s) (hchoose : q.choose c r = (some y, h)) :
    Follow c p a (.enter (q.pendingAt H r) y h) y := by
  induction hfollow with
  | refl => exact .region howner hchoose .refl
  | region howner' hchoose' _ ih => exact .region howner' hchoose' (ih howner hchoose)

theorem Follow.isBelow {c : Config H} {p q : Plan S} {a s : S} (h : Follow c p a q s) :
    Below H.toTree a s := by
  induction h with
  | refl => exact .refl
  | region howner hchoose _ ih =>
    subst howner
    exact UnderRegion.below_owner ⟨_, chooseState_region hchoose, ih⟩

theorem Follow.visits_iff {c : Config H} {p q : Plan S} {a s x : S} (h : Follow c p a q s)
    (hx : Below H.toTree s x) : Visits c p a x ↔ Visits c q s x := by
  induction h with
  | refl => exact Iff.rfl
  | @region p q s y z r k howner hchoose hfollow ih =>
    rw [← ih hx]
    have hy := chooseState_region hchoose
    have hyx : Below H.toTree y x := hfollow.isBelow.trans hx
    constructor
    · intro hvisits
      rcases Visits.iff_region.mp hvisits with rfl | ⟨r', howner', z, k', hchoose', hz⟩
      · rw [← howner] at hyx
        exact absurd hyx (not_below_owner hy)
      · obtain rfl := eq_of_underRegion (howner'.trans howner.symm)
          ⟨z, chooseState_region hchoose', hz.isBelow⟩ ⟨y, hy, hyx⟩
        rw [hchoose] at hchoose'
        cases hchoose'
        exact hz
    · exact fun hvisits => .region howner hchoose hvisits

/-- Of the states of a region on the way the entry comes to the one it chooses. -/
theorem Follow.visits_iff_choose {c : Config H} {p q : Plan S} {a x : S} {r : R}
    (h : Follow c p a q (H.owner r)) (hx : H.region x = some r) :
    Visits c p a x ↔ (q.choose c r).1 = some x := by
  rw [h.visits_iff (.child hx .refl), Visits.iff_region]
  constructor
  · rintro (rfl | ⟨r', howner', y, k, hchoose, hy⟩)
    · exact absurd .refl (not_below_owner hx)
    · have hyr := chooseState_region hchoose
      obtain rfl := eq_of_underRegion howner' ⟨y, hyr, hy.isBelow⟩ ⟨x, hx, .refl⟩
      obtain rfl := eq_of_below_siblings hyr hx rfl hy.isBelow .refl
      rw [hchoose]
  · intro hchoose
    exact Or.inr ⟨r, rfl, x, (q.choose c r).2, Prod.ext hchoose rfl, .refl⟩

/-! ## Modes and plans -/

variable (H) in
/-- In every state the region on the way to the target comes first. -/
def PathFirst (t : T) : Prop :=
  ∀ r q, H.owner r = H.owner q → UnderRegion H.toTree r (H.target t) → r ≠ q →
    r ∈ (H.regions (H.owner q)).takeWhile (· ≠ q)

variable (H) in
/-- The plan of the entry at `s` where the rule is in a mode. Beside the path the states
    still to enter lie elsewhere, or there are none left and the entry takes what it
    finds for history. -/
def Rel (t : T) : Mode S → Plan S → S → Prop
  | .toward d rest, p, s => p = ⟨d :: rest, true, false⟩ ∧ Path H.toTree (s :: d :: rest) ∧
      ∀ x ∈ d :: rest, Below H.toTree x (H.target t)
  | .target, p, _ => p = ⟨[], true, true⟩
  | .deep, p, _ => p = ⟨[], true, false⟩
  | .shallow, p, _ => ∃ k, p = ⟨[], false, k⟩
  | .beside, p, s => p = ⟨[], true, false⟩ ∨
      ¬ PathFirst H t ∧ ∃ d rest, p = ⟨d :: rest, true, false⟩ ∧ ¬ Below H.toTree s d

omit [DecidableEq S] in
theorem pendingAt_own {d : S} {r : R} (hd : H.region d = some r) (rest : List S) (h k : Bool) :
    (⟨d :: rest, h, k⟩ : Plan S).pendingAt H r = d :: rest := by
  apply if_neg
  rintro ⟨q, hq, hdq⟩
  obtain rfl := Option.some.inj (hd.symm.trans hdq)
  simpa using List.mem_takeWhile_imp hq

omit [DecidableEq S] in
theorem pendingAt_elsewhere {d : S} {r : R} (hd : ¬ Below H.toTree (H.owner r) d) (rest : List S)
    (h k : Bool) : (⟨d :: rest, h, k⟩ : Plan S).pendingAt H r = d :: rest := by
  apply if_neg
  rintro ⟨q, hq, hdq⟩
  apply hd
  rw [← H.mem_regions.mp ((List.takeWhile_sublist _).subset hq)]
  exact .child hdq .refl

omit [DecidableEq S] in
/-- With the region on the path first there is nothing left for the others. -/
theorem pendingAt_of_pathFirst {t : T} (hfirst : PathFirst H t) {d : S} {q r : R}
    (hdq : H.region d = some q) (howner : H.owner q = H.owner r) (hne : q ≠ r)
    (hd : Below H.toTree d (H.target t)) (rest : List S) (h k : Bool) :
    (⟨d :: rest, h, k⟩ : Plan S).pendingAt H r = [] :=
  if_pos ⟨q, hfirst q r howner ⟨d, hdq, hd⟩ hne, hdq⟩

omit [DecidableEq S] in
theorem choose_of_anew {F : HistoryFlags H} {c : Config H} {m : Mode S} {r : R}
    (h : m.Anew F r) : (m.choose F c r).1 = H.initState r := by
  cases m with
  | toward d rest => simp [Mode.choose, if_neg h]
  | target => simp [Mode.choose, show F.historyEnabled r = false from h]
  | deep => simp [Mode.choose, show F.historyEnabled r = false from h]
  | shallow => exact h.elim
  | beside => rfl

omit [DecidableEq S] in
/-- The entry gives it the state it is in, if the region on the path has been before. -/
theorem Rel.choose_of_anew {F : HistoryFlags H} {c : Config H} {t : T} {m : Mode S} {p : Plan S}
    {r : R} (h : Rel H t m p (H.owner r)) (hfirst : PathFirst H t) (hanew : m.Anew F r) :
    (p.choose c r).1 = c.currentState r := by
  cases m with
  | toward d rest =>
    obtain ⟨rfl, hpath, hbelow⟩ := h
    obtain ⟨⟨q, hdq, hq⟩, -⟩ := List.isChain_cons_cons.mp hpath
    have hne : q ≠ r := fun heq => hanew (heq ▸ hdq)
    rw [Plan.choose, pendingAt_of_pathFirst hfirst hdq hq hne (hbelow d List.mem_cons_self)]
    rfl
  | target =>
    obtain rfl := h
    rfl
  | deep =>
    obtain rfl := h
    rfl
  | shallow => exact hanew.elim
  | beside =>
    rcases h with rfl | ⟨hlast, -⟩
    · rfl
    · exact absurd hfirst hlast

theorem Rel.along {t : T} {d : S} {rest : List S} (hpath : Path H.toTree (d :: rest))
    (hbelow : ∀ x ∈ rest, Below H.toTree x (H.target t)) :
    Rel H t (.along rest) (.enter (d :: rest) d true) d := by
  cases rest with
  | nil => simp [Rel, Mode.along, Plan.enter, popState]
  | cons d' rest => exact ⟨by simp [Plan.enter, popState], hpath, hbelow⟩

/-- At a region that begins anew only if it is in its initial state, the entry chooses as
    the rule does, and goes on as the rule does. -/
theorem Rel.step {F : HistoryFlags H} {c : Config H} {t : T} {m : Mode S} {p : Plan S} {r : R}
    (h : Rel H t m p (H.owner r)) (hanew : m.Anew F r → c.currentState r = H.initState r) :
    (p.choose c r).1 = (m.choose F c r).1 ∧ ∀ y, (m.choose F c r).1 = some y →
      Rel H t (m.choose F c r).2 (.enter (p.pendingAt H r) y (p.choose c r).2) y := by
  cases m with
  | toward d rest =>
    obtain ⟨rfl, hpath, hbelow⟩ := h
    obtain ⟨⟨q, hdq, hq⟩, hrest⟩ := List.isChain_cons_cons.mp hpath
    by_cases hd : H.region d = some r
    · simp only [Mode.choose, if_pos hd, Plan.choose, pendingAt_own hd, chooseState, true_and]
      rintro y ⟨⟩
      exact Rel.along hrest fun x hx => hbelow x (List.mem_cons_of_mem _ hx)
    · have hne : q ≠ r := fun heq => hd (heq ▸ hdq)
      have hcurrent := hanew hd
      simp only [Mode.choose, if_neg hd, Plan.choose]
      by_cases hdone : ∃ k ∈ (H.regions (H.owner r)).takeWhile (· ≠ r), H.region d = some k
      · -- the region on the path has been before
        rw [show (⟨d :: rest, true, false⟩ : Plan S).pendingAt H r = [] from if_pos hdone]
        refine ⟨hcurrent, fun y _ => Or.inl ?_⟩
        simp [Plan.enter, popState, chooseState]
      · rw [show (⟨d :: rest, true, false⟩ : Plan S).pendingAt H r = d :: rest from if_neg hdone]
        simp only [chooseState, if_neg hd, true_and]
        intro y hy
        have hyr := H.region_initState hy
        have hyd : d ≠ y := fun heq => hd (heq ▸ hyr)
        refine Or.inr ⟨fun hfirst => hdone ⟨q, ?_, hdq⟩, d, rest, ?_, fun hyb => hyd ?_⟩
        · exact hfirst q r hq ⟨d, hdq, hbelow d List.mem_cons_self⟩ hne
        · simp [Plan.enter, popState, hyd]
        · exact (eq_of_below_siblings hyr hdq hq.symm hyb .refl).symm
  | target =>
    obtain rfl := h
    simp only [Mode.choose, Plan.choose]
    by_cases henabled : F.historyEnabled r = true
    · simp only [if_pos henabled]
      refine ⟨rfl, fun y _ => ?_⟩
      cases hdeep : H.isDeepHistory r with
      | false => exact ⟨false, by simp [Plan.pendingAt, Plan.pending, Plan.enter, popState, chooseState, hdeep]⟩
      | true => simp [Rel, Plan.pendingAt, Plan.pending, Plan.enter, popState, chooseState, hdeep]
    · simp only [if_neg henabled]
      have hdeep : H.isDeepHistory r = false := by
        rw [← Bool.not_eq_true]
        exact fun hdeep => henabled (F.of_deep r hdeep)
      refine ⟨hanew (Bool.eq_false_iff.mpr henabled), fun y _ => ⟨false, ?_⟩⟩
      simp [Plan.pendingAt, Plan.pending, Plan.enter, popState, chooseState, hdeep]
  | deep =>
    obtain rfl := h
    simp only [Mode.choose, Plan.choose]
    refine ⟨?_, fun y _ => rfl⟩
    by_cases henabled : F.historyEnabled r = true
    · rw [if_pos henabled]
      rfl
    · rw [if_neg henabled]
      exact hanew (Bool.eq_false_iff.mpr henabled)
  | shallow =>
    obtain ⟨k, rfl⟩ := h
    exact ⟨rfl, fun y _ => ⟨false, rfl⟩⟩
  | beside =>
    simp only [Mode.choose, Plan.choose]
    rcases h with rfl | ⟨hlast, d, rest, rfl, hd⟩
    · exact ⟨hanew trivial, fun y _ => Or.inl rfl⟩
    · have hdr : H.region d ≠ some r := fun hdr => hd (.child hdr .refl)
      rw [pendingAt_elsewhere hd]
      simp only [chooseState, if_neg hdr, true_and]
      intro y hy
      have hyd : ¬ Below H.toTree y d := fun hyd =>
        hd ((Below.child (H.region_initState hy) .refl).trans hyd)
      have hne : d ≠ y := fun heq => hyd (heq ▸ .refl)
      exact Or.inr ⟨hlast, d, rest, by simp [Plan.enter, popState, hne], hyd⟩

/-- Where the rule comes, the entry follows, if regions begin anew only in their initial
    states. -/
theorem Rel.follow {F : HistoryFlags H} {c : Config H} {t : T} {m k : Mode S} {p P : Plan S}
    {s a : S} {r : R} (h : Comes F c m s k r) (hrel : Rel H t m p s) (hfollow : Follow c P a p s)
    (hanew : ∀ k' r', Comes F c m s k' r' → k'.Anew F r' → c.currentState r' = H.initState r') :
    ∃ q, Follow c P a q (H.owner r) ∧ Rel H t k q (H.owner r) := by
  induction h generalizing p with
  | here howner =>
    subst howner
    exact ⟨p, hfollow, hrel⟩
  | inside howner hchoose _ ih =>
    subst howner
    obtain ⟨hfst, hnext⟩ := hrel.step (hanew _ _ (.here rfl))
    rw [hchoose] at hfst hnext
    exact ih (hnext _ rfl) (hfollow.snoc rfl (Prod.ext hfst rfl)) fun k' r' hcomes =>
      hanew k' r' (.inside rfl hchoose hcomes)

/-- With the region on the path first, an entry that follows the rule finds all regions
    that begin anew in their initial states. -/
theorem Rel.anew {F : HistoryFlags H} {c : Config H} {t : T} {m k : Mode S} {p P : Plan S}
    {s a : S} {r : R} (h : Comes F c m s k r) (hfirst : PathFirst H t) (hrel : Rel H t m p s)
    (hfollow : Follow c P a p s)
    (hvisits : ∀ k' r', Comes F c m s k' r' → ∀ x, H.region x = some r' →
      (Visits c P a x ↔ (k'.choose F c r').1 = some x)) :
    k.Anew F r → c.currentState r = H.initState r := by
  have hhere : ∀ {m : Mode S} {p : Plan S} {r : R}, Rel H t m p (H.owner r) →
      Follow c P a p (H.owner r) →
      (∀ x, H.region x = some r → (Visits c P a x ↔ (m.choose F c r).1 = some x)) →
      m.Anew F r → c.currentState r = H.initState r := by
    intro m p r hrel hfollow hvisits hanew
    have hiff : ∀ x, H.region x = some r →
        (c.currentState r = some x ↔ H.initState r = some x) := by
      intro x hx
      rw [← HistoryRule.choose_of_anew (c := c) hanew, ← hrel.choose_of_anew hfirst hanew,
        ← hfollow.visits_iff_choose hx]
      exact hvisits x hx
    apply Option.ext
    intro x
    constructor
    · exact fun hx => (hiff x (c.proper r x hx)).mp hx
    · exact fun hx => (hiff x (H.region_initState hx)).mpr hx
  -- The induction is down the regions the entry comes to; rule and code agree on each in turn.
  induction h generalizing p with
  | here howner =>
    subst howner
    exact hhere hrel hfollow (hvisits _ _ (.here rfl))
  | inside howner hchoose _ ih =>
    subst howner
    obtain ⟨hfst, hnext⟩ := hrel.step (hhere hrel hfollow (hvisits _ _ (.here rfl)))
    rw [hchoose] at hfst hnext
    exact ih (hnext _ rfl) (hfollow.snoc rfl (Prod.ext hfst rfl)) fun k' r' hcomes =>
      hvisits k' r' (.inside rfl hchoose hcomes)

/-! ## A transition with history -/

theorem rel_start {t : T} (h : H.setHistory t = true) :
    Rel H t (startMode H t)
      (.enter (entryAndExitPoints H t).statesToEnter (firstToEnter H t) (H.setHistory t))
      (firstToEnter H t) := by
  obtain ⟨first, rest, hlist, hpath, -⟩ := entryAndExitPoints_entryPath (H := H) t
  have hlast := divergence_getLast (H := H) t (pathToRoot H (H.source t))
    (pathToRoot H (H.target t)) H.root
  rw [← entryAndExitPoints, hlist] at hlast
  rw [startMode, firstToEnter, hlist, h]
  exact Rel.along hpath fun x hx => Path.below_last hpath hlast (List.mem_cons_of_mem _ hx)

theorem Visits.leads {c : Config H} {p : Plan S} {s x : S} (h : Visits c p s x) :
    Leads c p s x := by
  induction h with
  | refl => exact .refl
  | region howner hchoose _ ih => exact .entered howner hchoose ih

theorem perform_current (env : Env S T) (m : Machine H × Set T) {t : T} {x : S} {r : R}
    (hx : Visits m.1.config
      (.enter (entryAndExitPoints H t).statesToEnter (firstToEnter H t) (H.setHistory t))
      (firstToEnter H t) x) (hr : H.region x = some r) :
    (perform H env m t).1.config.currentState r = some x := by
  obtain ⟨new, hnew, henters⟩ := ActiveSources.perform_enters env m t
  rw [hnew]
  exact henters.current (Visits.leads hx) hr

omit [DecidableEq S] in
theorem Mode.choose_region {F : HistoryFlags H} {c : Config H} {m : Mode S} {r : R} {y : S}
    (h : (m.choose F c r).1 = some y) : H.region y = some r := by
  unfold Mode.choose at h
  split at h
  · split at h
    · rename_i hd
      obtain rfl := Option.some.inj h
      exact hd
    · exact H.region_initState h
  · split at h
    · exact c.proper r y h
    · exact H.region_initState h
  · simp only at h
    split at h
    · exact c.proper r y h
    · exact H.region_initState h
  · exact H.region_initState h
  · exact H.region_initState h

omit [DecidableEq S] in
theorem Comes.isBelow {F : HistoryFlags H} {c : Config H} {m k : Mode S} {s : S} {r : R}
    (h : Comes F c m s k r) : Below H.toTree s (H.owner r) := by
  induction h with
  | here howner =>
    subst howner
    exact .refl
  | inside howner hchoose _ ih =>
    subst howner
    have hy := Mode.choose_region (congrArg Prod.fst hchoose)
    exact (Below.child hy .refl).trans ih

/-- Every region to begin anew is in its initial state. -/
def AnewInitial (F : HistoryFlags H) (c : Config H) (t : T) : Prop :=
  ∀ (m : Mode S) (r : R), Comes F c (startMode H t) (firstToEnter H t) m r → m.Anew F r →
    c.currentState r = H.initState r

/-- The entry and the rule choose the same states. -/
def EntersByRule (F : HistoryFlags H) (c : Config H) (t : T) : Prop :=
  ∀ (m : Mode S) (r : R), Comes F c (startMode H t) (firstToEnter H t) m r →
    ∀ x, H.region x = some r → (x ∈ enteredStates c t ↔ (m.choose F c r).1 = some x)

theorem mem_enteredStates_of_comes {F : HistoryFlags H} {c : Config H} {t : T} {m : Mode S} {r : R}
    {x : S} (h : Comes F c (startMode H t) (firstToEnter H t) m r) (hx : H.region x = some r) :
    x ∈ enteredStates c t ↔ Visits c
      (.enter (entryAndExitPoints H t).statesToEnter (firstToEnter H t) (H.setHistory t))
      (firstToEnter H t) x := by
  apply mem_enteredStates
  rintro rfl
  exact not_below_owner hx h.isBelow

theorem entersByRule_of_anewInitial {F : HistoryFlags H} {c : Config H} {t : T}
    (hhistory : H.setHistory t = true) (h : AnewInitial F c t) : EntersByRule F c t := by
  intro m r hcomes x hx
  obtain ⟨q, hfollow, hrel⟩ := Rel.follow hcomes (rel_start hhistory) .refl h
  rw [mem_enteredStates_of_comes hcomes hx, hfollow.visits_iff_choose hx,
    (hrel.step (h m r hcomes)).1]

theorem anewInitial_of_entersByRule {F : HistoryFlags H} {c : Config H} {t : T}
    (hhistory : H.setHistory t = true) (hfirst : PathFirst H t) (h : EntersByRule F c t) :
    AnewInitial F c t := by
  intro m r hcomes
  refine Rel.anew hcomes hfirst (rel_start hhistory) .refl fun k q hk x hx => ?_
  rw [← mem_enteredStates_of_comes hk hx]
  exact h k q hk x hx

/-! ## In another order -/

/-- The flags of a hierarchy do not depend on the order. -/
def reorderedFlags (F : HistoryFlags H) (order : S → List R)
    (horder : ∀ s, (order s).Perm (H.regions s)) : HistoryFlags (reordered H order horder) :=
  ⟨F.historyEnabled, F.of_deep⟩

variable {order : S → List R} {horder : ∀ s, (order s).Perm (H.regions s)}

omit [DecidableEq S] in
theorem comes_reordered_iff {F : HistoryFlags H} {c : Config H} {m k : Mode S} {s : S} {r : R} :
    Comes (reorderedFlags F order horder) (reorderedConfig c order horder) m s k r ↔
      Comes F c m s k r := by
  constructor
  · intro h
    induction h with
    | here howner => exact .here howner
    | inside howner hchoose _ ih => exact .inside howner hchoose ih
  · intro h
    induction h with
    | here howner => exact .here howner
    | inside howner hchoose _ ih => exact .inside howner hchoose ih

omit [DecidableEq S] [DecidableEq R] in
theorem statePathToRoot_reordered (n : Nat) (s : S) :
    statePathToRoot (reordered H order horder) n s = statePathToRoot H n s := by
  induction n generalizing s with
  | zero => rfl
  | succ n ih =>
    simp only [statePathToRoot, ih]
    rfl

theorem divergence_reordered (t : T) (as bs : List S) (last : S) :
    divergence (reordered H order horder) t last as bs = divergence H t last as bs := by
  induction as generalizing bs last with
  | nil => rfl
  | cons a as ih =>
    cases bs with
    | nil => rfl
    | cons b bs =>
      simp only [divergence, ih]
      rfl

theorem entryAndExitPoints_reordered (t : T) :
    entryAndExitPoints (reordered H order horder) t = entryAndExitPoints H t := by
  unfold entryAndExitPoints pathToRoot
  rw [divergence_reordered, statePathToRoot_reordered, statePathToRoot_reordered]
  rfl

open Classical in
variable (H) in
/-- The regions with the one on the way to the target first. -/
noncomputable def pathFirstOrder (t : T) (s : S) : List R :=
  (H.regions s).filter (fun r => UnderRegion H.toTree r (H.target t)) ++
    (H.regions s).filter (fun r => ¬ UnderRegion H.toTree r (H.target t))

omit [DecidableEq S] [DecidableEq R] in
theorem pathFirstOrder_perm (t : T) (s : S) : (pathFirstOrder H t s).Perm (H.regions s) := by
  classical
  simpa only [pathFirstOrder, decide_not] using List.filter_append_perm _ (H.regions s)

omit [DecidableEq S] in
theorem pathFirst_reordered (t : T) :
    PathFirst (reordered H (pathFirstOrder H t) (pathFirstOrder_perm t)) t := by
  classical
  intro r q howner hr hne
  have hrest : ∀ k ∈ (H.regions (H.owner q)).filter (fun r => UnderRegion H.toTree r (H.target t)),
      decide (k ≠ q) = true := by
    intro k hk
    apply decide_eq_true
    rintro rfl
    exact hne (eq_of_underRegion howner hr (of_decide_eq_true (List.mem_filter.mp hk).2))
  change r ∈ (pathFirstOrder H t (H.owner q)).takeWhile _
  rw [pathFirstOrder, List.takeWhile_append_of_pos hrest]
  apply List.mem_append_left
  exact List.mem_filter.mpr ⟨H.mem_regions.mpr howner, decide_eq_true hr⟩

theorem startMode_reordered (t : T) : startMode (reordered H order horder) t = startMode H t := by
  unfold startMode
  rw [entryAndExitPoints_reordered]

theorem firstToEnter_reordered (t : T) :
    firstToEnter (reordered H order horder) t = firstToEnter H t := by
  unfold firstToEnter
  rw [entryAndExitPoints_reordered]
  rfl

variable (horder) in
theorem comes_start_reordered_iff {F : HistoryFlags H} {c : Config H} {t : T} {m : Mode S} {r : R} :
    Comes (reorderedFlags F order horder) (reorderedConfig c order horder)
        (startMode (reordered H order horder) t) (firstToEnter (reordered H order horder) t) m r ↔
      Comes F c (startMode H t) (firstToEnter H t) m r := by
  rw [startMode_reordered, firstToEnter_reordered]
  exact comes_reordered_iff

variable (horder) in
theorem anewInitial_reordered_iff {F : HistoryFlags H} {c : Config H} {t : T} :
    AnewInitial (reorderedFlags F order horder) (reorderedConfig c order horder) t ↔
      AnewInitial F c t := by
  apply forall_congr'
  intro m
  apply forall_congr'
  intro r
  exact imp_congr_left (comes_start_reordered_iff horder)

/-- A transition with history follows the rule in every order of the regions if and only
    if every region that begins anew by the rule is in its initial state before. -/
theorem history_iff (F : HistoryFlags H) (c : Config H) (t : T) :
    FollowsHistory F c t ↔ (H.setHistory t = true → AnewInitial F c t) := by
  apply imp_congr_right
  intro hhistory
  constructor
  · intro h
    have hfirst := pathFirst_reordered (H := H) t
    rw [← anewInitial_reordered_iff (pathFirstOrder_perm t)]
    apply anewInitial_of_entersByRule
      (H := reordered H (pathFirstOrder H t) (pathFirstOrder_perm t)) hhistory hfirst
    intro m r hcomes
    exact (h _ _ m r ((comes_start_reordered_iff _).mp hcomes)).1
  · intro h order horder m r hcomes
    have hcomes' := (comes_start_reordered_iff horder).mpr hcomes
    have henters := entersByRule_of_anewInitial (H := reordered H order horder) hhistory
      ((anewInitial_reordered_iff horder).mpr h)
    refine ⟨henters m r hcomes', fun env before x hbefore hx => ?_⟩
    have hxr := Mode.choose_region hx
    have hentered := (henters m r hcomes' x hxr).mpr hx
    rw [mem_enteredStates_of_comes hcomes' hxr, ← hbefore] at hentered
    exact perform_current env before hentered hxr

/-! ## A region beside the path -/

/-- The root 0 has the region 0 with the states 1, initially, and 2; state 2 has the regions
    1 with 3, initially, and 4, and 2 with 5, initially, and 6. The transitions are 1 to
    2, 5 to 6, 2 to 1, and with history 1 to 4. -/
def resuming : Hierarchy (Fin 7) (Fin 3) (Fin 4) where
  root := 0
  region := ![none, some 0, some 0, some 1, some 1, some 2, some 2]
  owner := ![0, 2, 2]
  depth := ![0, 1, 1, 2, 2, 2, 2]
  region_root := Bracketing.sevenStates_region_root
  eq_root := Bracketing.sevenStates_eq_root
  depth_child := by decide
  regions := ![[0], [], [1, 2], [], [], [], []]
  initState := ![some 1, some 3, some 5]
  isDeepHistory := fun _ => false
  stateHasDs := fun _ => true
  defaultActionSet := fun _ => false
  outTransitions := ![[], [0, 3], [2], [], [], [1], []]
  timeOutTransitions := fun _ => []
  source := ![1, 5, 2, 1]
  target := ![2, 6, 1, 4]
  setHistory := ![false, false, false, true]
  transitionHasDs := fun _ => true
  height := 2
  mem_regions := by decide
  regions_nodup := by decide
  region_initState := Bracketing.sevenStates_region_initState
  depth_le := Bracketing.sevenStates_depth_le

/-- No region has history. -/
def noHistory : HistoryFlags resuming := ⟨fun _ => false, by decide⟩

/-- The machine after its start and steps with the transitions 0, 1 and 2. -/
def resumed : Machine resuming :=
  [0, 1, 2].foldl (fun m t => step resuming (Bracketing.answers [t]) 1 m)
    (start resuming (Bracketing.answers []) 1)

/-- The way to state 4 goes past region 2, which has no history and is left in state 6:
    the entry takes it up there again, or begins anew if the region comes first. -/
theorem beside_resumes :
    enteredStates resumed.config 3 = [2, 4, 6] ∧
      enteredStates (reorderedConfig resumed.config ![[0], [], [2, 1], [], [], [], []]
        (by decide)) 3 = [2, 5, 4] ∧
      ¬ FollowsHistory noHistory resumed.config 3 := by
  have hentered : enteredStates resumed.config 3 = [2, 4, 6] := by decide
  refine ⟨hentered, by decide, fun h => ?_⟩
  have hregion := (h rfl resuming.regions (fun _ => .refl _) (.toward 4 []) 2 (.here rfl)).1 6 rfl
  have hmem : 6 ∈ enteredStates (reorderedConfig resumed.config resuming.regions
      fun _ => .refl _) 3 := by
    change 6 ∈ enteredStates resumed.config 3
    rw [hentered]
    decide
  have hchoose := hregion.mp hmem
  revert hchoose
  decide

end Arinc.HistoryRule
