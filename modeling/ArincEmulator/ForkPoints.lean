import ArincEmulator.EntryPoints
import Mathlib.Data.Fin.VecNotation

/- The points of a transition, compared with the place where the paths to its source and
   its target part. `computeEntryAndExitPoints` looks for the first difference of the two
   lists of ancestors, and a state is not among its own ancestors: the difference is not
   seen where the source or the target itself is the first state after the fork.

   What is proved: the points are those of the fork just where both states lie deeper
   than that, or the source is the state to leave and no other region is entered
   (`entry_exit_points_iff`). -/
namespace Arinc.ForkPoints
open AndOrTree StateMachine

variable {S R T : Type} {H : Hierarchy S R T}

/-! ## The fork -/

variable (H) in
/-- Where the paths part: `ancestor` is the deepest state above both source and target,
    `leave` its child on the path to the source and `enter` on the path to the target.
    They are one state where one of the two is the source or the target itself. -/
structure Fork (t : T) where
  ancestor : S
  leave : S
  enter : S
  leaveRegion : R
  enterRegion : R
  region_leave : H.region leave = some leaveRegion
  region_enter : H.region enter = some enterRegion
  owner_leave : H.owner leaveRegion = ancestor
  owner_enter : H.owner enterRegion = ancestor
  below_source : Below H.toTree leave (H.source t)
  below_target : Below H.toTree enter (H.target t)
  parts : leave = enter → leave = H.source t ∨ enter = H.target t

/-- The path from `x` down to `y`. -/
structure PathTo (H : Hierarchy S R T) (x y : S) (l : List S) : Prop where
  path : Path H.toTree l
  head : l.head? = some x
  last : l.getLast? = some y

variable [DecidableEq S] [DecidableEq R]

/-- The points of the fork: the child of the ancestor is left and the path to the target
    is entered; from one region to another the ancestor itself is both. -/
def Fork.Right {t : T} (f : Fork H t) : Prop :=
  ∃ l, PathTo H f.enter (H.target t) l ∧ entryAndExitPoints H t =
    if f.leaveRegion = f.enterRegion then ⟨f.leave, l, false⟩
    else ⟨f.ancestor, f.ancestor :: l, true⟩

/-- Source and target lie deeper than the children of the ancestor, or the source is the
    child and the target lies in its region. -/
def Fork.Seen {t : T} (f : Fork H t) : Prop :=
  (f.leave ≠ H.source t ∧ f.enter ≠ H.target t) ∨
    (f.leave = H.source t ∧ f.leaveRegion = f.enterRegion)

variable (H) in
/-- The points of a transition are those of its fork. The root has nothing above it. -/
def PointsRight (t : T) : Prop :=
  H.source t ≠ H.root → H.target t ≠ H.root → ∃ f : Fork H t, f.Right

/-! ## The paths -/

omit [DecidableEq S] [DecidableEq R] in
/-- The list of the states above `y` goes through the owner of the region of `x`, and
    from there down through `x`. -/
theorem pathToRoot_below {x y : S} {r : R} (hx : H.region x = some r)
    (h : Below H.toTree x y) :
    ∃ l, pathToRoot H y = pathToRoot H (H.owner r) ++ H.owner r :: l ∧
      PathTo H x y (l ++ [y]) := by
  induction h with
  | refl =>
    refine ⟨[], ?_, ⟨List.isChain_singleton x, rfl, rfl⟩⟩
    exact pathToRoot_child H hx
  | @child y k hy _ ih =>
    obtain ⟨l, hl, hpath⟩ := ih
    refine ⟨l ++ [H.owner k], ?_, ⟨?_, ?_, by simp⟩⟩
    · rw [pathToRoot_child H hy, hl]
      simp
    · apply hpath.path.append (List.isChain_singleton y)
      intro a ha b hb
      rw [hpath.last, Option.mem_some_iff] at ha
      rw [List.head?_cons, Option.mem_some_iff] at hb
      subst ha hb
      exact ⟨k, hy, rfl⟩
    · rw [List.head?_append, hpath.head]
      rfl

theorem divergence_together (t : T) (path : List S) (last p : S) (as bs : List S) :
    divergence H t last (path ++ p :: as) (path ++ p :: bs) = divergence H t p as bs := by
  induction path generalizing last with
  | nil => exact if_pos rfl
  | cons a path ih =>
    rw [List.cons_append, List.cons_append, divergence, if_pos rfl]
    exact ih a

omit [DecidableEq S] [DecidableEq R] in
theorem PathTo.ne {x y : S} {l : List S} (h : PathTo H x y (x :: l ++ [y])) : x ≠ y := by
  rintro rfl
  obtain ⟨b, rest, hl⟩ := List.exists_cons_of_ne_nil (l := l ++ [x]) (by simp)
  have hpath := h.path
  rw [List.cons_append, hl] at hpath
  obtain ⟨⟨r, hr, howner⟩, hrest⟩ := List.isChain_cons_cons.mp hpath
  have hx : x ∈ b :: rest := hl ▸ List.mem_append_right _ List.mem_cons_self
  have hbelow : Below H.toTree b x := by
    rcases List.mem_cons.mp hx with rfl | hx
    · exact .refl
    · exact Path.below hrest hx
  apply not_below_owner hr
  rw [howner]
  exact hbelow

/-- The loop from the fork on: the points are those of the fork if and only if the first
    difference is seen. -/
theorem Fork.right_iff {t : T} (f : Fork H t) : f.Right ↔ f.Seen := by
  obtain ⟨as, has, hsource⟩ := pathToRoot_below f.region_leave f.below_source
  obtain ⟨bs, hbs, htarget⟩ := pathToRoot_below f.region_enter f.below_target
  have hpoints : entryAndExitPoints H t = divergence H t f.ancestor as bs := by
    rw [entryAndExitPoints, has, hbs, f.owner_leave, f.owner_enter]
    exact divergence_together t _ _ _ as bs
  unfold Fork.Right Fork.Seen
  rw [hpoints]
  cases as with
  | nil =>
    -- the source itself is the state to leave
    have hleave : f.leave = H.source t := (Option.some.inj hsource.head).symm
    simp only [divergence]
    constructor
    · rintro ⟨l, -, hl⟩
      refine Or.inr ⟨hleave, ?_⟩
      by_contra hne
      rw [if_neg hne] at hl
      cases congrArg Points.betweenParallelMachines hl
    · rintro (⟨hne, -⟩ | ⟨-, hregion⟩)
      · exact absurd hleave hne
      · exact ⟨bs ++ [H.target t], htarget, by rw [if_pos hregion, hleave]⟩
  | cons a as =>
    obtain rfl : a = f.leave := Option.some.inj hsource.head
    have hleave : f.leave ≠ H.source t := hsource.ne
    cases bs with
    | nil =>
      -- the target itself is the first state to enter: the source is left alone
      have henter : f.enter = H.target t := (Option.some.inj htarget.head).symm
      have hancestor : f.ancestor ≠ H.source t := by
        rintro heq
        apply not_below_owner f.region_leave
        rw [f.owner_leave, heq]
        exact f.below_source
      simp only [divergence]
      constructor
      · rintro ⟨l, -, hl⟩
        have hexit := congrArg Points.stateToExit hl
        split at hexit
        · exact absurd hexit.symm hleave
        · exact absurd hexit.symm hancestor
      · rintro (⟨-, hne⟩ | ⟨heq, -⟩)
        · exact absurd henter hne
        · exact absurd heq hleave
    | cons b bs =>
      obtain rfl : b = f.enter := Option.some.inj htarget.head
      have henter : f.enter ≠ H.target t := htarget.ne
      have hne : f.leave ≠ f.enter := fun heq => (f.parts heq).elim hleave henter
      apply iff_of_true
      · refine ⟨f.enter :: bs ++ [H.target t], htarget, ?_⟩
        rw [divergence, if_neg hne, f.region_leave, f.region_enter]
        by_cases hregion : f.leaveRegion = f.enterRegion
        · rw [if_pos hregion, if_neg (by rw [hregion]; simp)]
        · rw [if_neg hregion, if_pos fun h => hregion (Option.some.inj h)]
          rfl
      · exact Or.inl ⟨hleave, henter⟩

/-! ## There is one fork -/

omit [DecidableEq R] in
/-- From a state above both down: the fork is at the first state that is not. -/
theorem exists_fork_below (t : T) (n : Nat) (p : S) {a b : S} {r q : R}
    (hn : H.depth (H.source t) ≤ H.depth p + n)
    (ha : H.region a = some r) (hr : H.owner r = p) (hsource : Below H.toTree a (H.source t))
    (hb : H.region b = some q) (hq : H.owner q = p) (htarget : Below H.toTree b (H.target t)) :
    Nonempty (Fork H t) := by
  induction n generalizing p a b r q with
  | zero =>
    have hle := hsource.depth_le
    rw [H.depth_child ha, hr] at hle
    omega
  | succ n ih =>
    by_cases hparts : a = b → a = H.source t ∨ b = H.target t
    · exact ⟨p, a, b, r, q, ha, hb, hr, hq, hsource, htarget, hparts⟩
    · push Not at hparts
      obtain ⟨rfl, hasource, hatarget⟩ := hparts
      obtain ⟨k, hk, x, hx, hxsource⟩ :=
        (below_iff.mp hsource).resolve_left (Ne.symm hasource)
      obtain ⟨j, hj, y, hy, hytarget⟩ :=
        (below_iff.mp htarget).resolve_left (Ne.symm hatarget)
      apply ih a _ hx hk hxsource hy hj hytarget
      rw [H.depth_child ha, hr]
      omega

omit [DecidableEq R] in
theorem exists_fork {t : T} (hsource : H.source t ≠ H.root) (htarget : H.target t ≠ H.root) :
    Nonempty (Fork H t) := by
  obtain ⟨r, hr, a, ha, hasource⟩ :=
    (below_iff.mp (below_root H.toTree (H.source t))).resolve_left hsource
  obtain ⟨q, hq, b, hb, hbtarget⟩ :=
    (below_iff.mp (below_root H.toTree (H.target t))).resolve_left htarget
  exact exists_fork_below t _ H.root (Nat.le_add_left _ _) ha hr hasource hb hq hbtarget

/-- The points of a transition between states below the root are those of its fork if and
    only if source and target both lie deeper than the children of the ancestor, or the
    source is the child and the target is in the same region. -/
theorem entry_exit_points_iff (t : T) :
    PointsRight H t ↔
      (H.source t ≠ H.root → H.target t ≠ H.root → ∃ f : Fork H t, f.Seen) := by
  apply imp_congr_right
  intro _
  apply imp_congr_right
  intro _
  exact exists_congr Fork.right_iff

/-! ## Sibling regions at one depth -/

/-- The root 0 has the region 0 with the state 1, which has the regions 1 with 2 and 2
    with 3. The transition is from 2 to 3. -/
def siblings : Hierarchy (Fin 4) (Fin 3) (Fin 1) where
  root := 0
  region := ![none, some 0, some 1, some 2]
  owner := ![0, 1, 1]
  depth := ![0, 1, 2, 2]
  region_root := rfl
  eq_root := by decide
  depth_child := by decide
  regions := ![[0], [1, 2], [], []]
  initState := ![some 1, some 2, some 3]
  isDeepHistory := fun _ => false
  stateHasDs := fun _ => true
  defaultActionSet := fun _ => false
  outTransitions := ![[], [], [0], []]
  timeOutTransitions := fun _ => []
  source := ![2]
  target := ![3]
  setHistory := fun _ => false
  transitionHasDs := fun _ => true
  height := 2
  mem_regions := by decide
  regions_nodup := by decide
  region_initState := by decide
  depth_le := by decide

/-- State 2 is left and state 3 entered, in another region, and nothing says that the
    transition is one between parallel machines. -/
theorem sibling_regions_not_flagged :
    entryAndExitPoints siblings 0 = ⟨2, [3], false⟩ ∧ ¬ PointsRight siblings 0 := by
  have hpoints : entryAndExitPoints siblings 0 = ⟨2, [3], false⟩ := by decide
  refine ⟨hpoints, fun h => ?_⟩
  obtain ⟨f, l, hpath, hl⟩ := h (by decide) (by decide)
  rw [hpoints] at hl
  split at hl
  · -- the two lie in two regions
    rename_i hregion
    have hleave : 2 = f.leave := congrArg Points.stateToExit hl
    have henter : [3] = l := congrArg Points.statesToEnter hl
    have hhead := hpath.head
    rw [← henter] at hhead
    have hr := f.region_leave
    have hq := f.region_enter
    rw [← hregion, ← hr, ← hleave, ← Option.some.inj hhead] at hq
    exact absurd hq (by decide)
  · cases congrArg Points.betweenParallelMachines hl

end Arinc.ForkPoints
