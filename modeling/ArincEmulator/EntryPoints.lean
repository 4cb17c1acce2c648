import ArincEmulator.StateMachine

/- The points at which a transition leaves and enters: the states to enter are a path
   down to the target, and what the first of them lies in is above the source. -/
namespace Arinc.StateMachine
open AndOrTree

variable {S R T : Type} {H : Hierarchy S R T}

theorem pathToRoot_path (s : S) :
    ∃ l, pathToRoot H s ++ [s] = H.root :: l ∧ Path H.toTree (H.root :: l) := by
  cases hr : H.region s with
  | none =>
    obtain rfl := H.eq_root hr
    refine ⟨[], ?_, .singleton _⟩
    cases hd : H.depth H.root with
    | zero => simp [pathToRoot, statePathToRoot, hd]
    | succ n => simp [pathToRoot, statePathToRoot, hd, hr]
  | some r =>
    obtain ⟨l, hl, hpath⟩ := pathToRoot_path (H.owner r)
    refine ⟨l ++ [s], ?_, ?_⟩
    · rw [pathToRoot_child H hr, hl, List.cons_append]
    · rw [← List.cons_append, ← hl, List.append_assoc]
      rw [← hl] at hpath
      exact List.isChain_append_cons_cons.mpr ⟨hpath, ⟨r, hr, rfl⟩, .singleton _⟩
termination_by H.depth s
decreasing_by
  rw [H.depth_child hr]
  exact Nat.lt_succ_self _

/-- A path to be entered, in a region of a state above `s` or from the root. -/
def EntryPath (H : Hierarchy S R T) (s : S) (l : List S) : Prop :=
  ∃ first rest, l = first :: rest ∧ Path H.toTree (first :: rest) ∧
    ∀ r, H.region first = some r → Below H.toTree (H.owner r) s

theorem EntryPath.of_path {last s : S} {l : List S} (hne : l ≠ []) (h : Path H.toTree (last :: l))
    (hs : Below H.toTree last s) : EntryPath H s l := by
  cases l with
  | nil => exact absurd rfl hne
  | cons first rest =>
    obtain ⟨⟨r, hr, howner⟩, hrest⟩ := List.isChain_cons_cons.mp h
    refine ⟨first, rest, rfl, hrest, fun q hq => ?_⟩
    obtain rfl := Option.some.inj (hr.symm.trans hq)
    rw [howner]
    exact hs

variable [DecidableEq S] [DecidableEq R]

theorem divergence_entryPath (t : T) (as bs : List S) (last : S)
    (hsource : Path H.toTree (last :: (as ++ [H.source t])))
    (htarget : Path H.toTree (last :: (bs ++ [H.target t]))) :
    EntryPath H (H.source t) (divergence H t last as bs).statesToEnter := by
  have hlast : Below H.toTree last (H.source t) := hsource.below (by simp)
  have htail : bs ++ [H.target t] ≠ [] := by simp
  induction as generalizing bs last with
  | nil =>
    simp only [divergence]
    exact .of_path htail htarget hlast
  | cons a as ih =>
    cases bs with
    | nil =>
      simp only [divergence]
      exact .of_path htail htarget hlast
    | cons b bs =>
      have hsource' := List.isChain_cons_cons.mp hsource
      have htarget' := List.isChain_cons_cons.mp htarget
      simp only [divergence]
      split
      · rename_i hab
        subst hab
        exact ih bs a hsource'.2 htarget'.2 (Path.below hsource'.2 (by simp)) (by simp)
      · split
        · -- regions of one owner: the owner itself is entered
          exact ⟨last, b :: bs ++ [H.target t], rfl, htarget, fun r hr =>
            UnderRegion.below_owner ⟨last, hr, hlast⟩⟩
        · exact .of_path htail htarget hlast

theorem entryAndExitPoints_entryPath (t : T) :
    EntryPath H (H.source t) (entryAndExitPoints H t).statesToEnter := by
  obtain ⟨l, hl, hsource⟩ := pathToRoot_path (H := H) (H.source t)
  obtain ⟨k, hk, htarget⟩ := pathToRoot_path (H := H) (H.target t)
  have hroot : ∀ r, H.region H.root = some r → Below H.toTree (H.owner r) (H.source t) := by
    intro r hr
    rw [H.region_root] at hr
    cases hr
  rw [entryAndExitPoints]
  cases has : pathToRoot H (H.source t) with
  | nil =>
    simp only [divergence]
    exact ⟨H.root, k, hk, htarget, hroot⟩
  | cons a as =>
    cases hbs : pathToRoot H (H.target t) with
    | nil =>
      rw [hbs] at hk
      simp only [divergence]
      exact ⟨H.root, k, hk, htarget, hroot⟩
    | cons b bs =>
      -- both paths begin at the root
      rw [has] at hl
      rw [hbs] at hk
      obtain ⟨rfl, rfl⟩ := List.cons.inj hl
      obtain ⟨rfl, rfl⟩ := List.cons.inj hk
      simp only [divergence, if_true]
      exact divergence_entryPath t as bs H.root hsource htarget

theorem divergence_getLast (t : T) (as bs : List S) (last : S) :
    (divergence H t last as bs).statesToEnter.getLast? = some (H.target t) := by
  induction as generalizing bs last with
  | nil => simp [divergence]
  | cons a as ih =>
    cases bs with
    | nil => simp [divergence]
    | cons b bs =>
      rw [divergence]
      split
      · exact ih bs a
      · rw [← List.getLast?_concat (l := b :: bs) (a := H.target t)]
        split
        · rfl
        · rfl

theorem divergence_self (t : T) (last : S) (path : List S) :
    divergence H t last path path = ⟨H.source t, [H.target t], false⟩ := by
  induction path generalizing last with
  | nil => rfl
  | cons a path ih =>
    rw [divergence, if_pos rfl]
    exact ih a

/-- Source and target of one region: the source is left, the target entered. -/
theorem entryAndExitPoints_sameRegion {t : T} {r : R} (hsource : H.region (H.source t) = some r)
    (htarget : H.region (H.target t) = some r) :
    entryAndExitPoints H t = ⟨H.source t, [H.target t], false⟩ := by
  rw [entryAndExitPoints, pathToRoot_child H hsource, pathToRoot_child H htarget]
  exact divergence_self t _ _

end Arinc.StateMachine
