import Mathlib.Data.Int.Order.Basic
import Mathlib.Data.List.Nodup
import ArincEmulator.Lib.OrderedSet
import ArincEmulator.StateMachine

/- How the transitions and regions of a state machine come to its states. Each state
   keeps them in ordered sets, and the comparison of a set looks at the priorities
   only: of two transitions with one priority it takes the second for the first.

   What is proved: after any calls, each state's iterations visit what was added to
   it, once each and by ascending priority, just when no two different transitions
   or regions in one set have the same priority (`construction_keeps_iff`). -/
namespace Arinc.Construction
open OrderedSet

variable {S R T α : Type}

/-! ## The sets of a state -/

/-- A comparison of pointers: by priority, and a null pointer last. -/
def pointerComp (priority : α → Int) : Option α → Option α → Bool
  | some a, some b => decide (priority a < priority b)
  | some _, none => true
  | none, _ => false

/-- `m_priority` of the transitions and the regions, and `m_SourceState`; the
    constructors set them. -/
structure Parts (S R T : Type) where
  transitionPriority : T → Int
  regionPriority : R → Int
  source : T → S

namespace Parts

/-- `TransitionComp`. -/
def transitionComp (p : Parts S R T) (t1 t2 : Option T) : Bool :=
  pointerComp p.transitionPriority t1 t2

/-- `RegionComp`. -/
def regionComp (p : Parts S R T) (r1 r2 : Option R) : Bool := pointerComp p.regionPriority r1 r2

end Parts

/-- `m_setOrderedOutTransitions`, `m_setTimeOutTransitions` and `m_setOrderedRegions`
    of every state, in their order. -/
structure Sets (S R T : Type) where
  orderedOutTransitions : S → List T
  timeOutTransitions : S → List T
  orderedRegions : S → List R

/-- The states as constructed. -/
def Sets.create : Sets S R T := ⟨fun _ => [], fun _ => [], fun _ => []⟩

/-- The calls. A null pointer is no argument of theirs: each reads its argument for the
    trace before it inserts it. -/
inductive Call (S R T : Type) where
  | addOutgoingTransition (s : S) (t : T)
  | addTimeOutTransition (s : S) (t : T)
  | addChildRegion (s : S) (r : R)
  | setEvalTimeOut (t : T) (b : Bool)

section
variable [DecidableEq S] (p : Parts S R T) (sets : Sets S R T)

/-- `State::addOutgoingTransition`. -/
def addOutgoingTransition (s : S) (t : T) : Sets S R T :=
  { sets with
    orderedOutTransitions := Function.update sets.orderedOutTransitions s
      (insert (fun a b => p.transitionComp (some a) (some b)) t (sets.orderedOutTransitions s)) }

/-- `State::addTimeOutTransition`. -/
def addTimeOutTransition (s : S) (t : T) : Sets S R T :=
  { sets with
    timeOutTransitions := Function.update sets.timeOutTransitions s
      (insert (fun a b => p.transitionComp (some a) (some b)) t (sets.timeOutTransitions s)) }

/-- `State::addChildRegion`. -/
def addChildRegion (s : S) (r : R) : Sets S R T :=
  { sets with
    orderedRegions := Function.update sets.orderedRegions s
      (insert (fun a b => p.regionComp (some a) (some b)) r (sets.orderedRegions s)) }

/-- `Transition::SetEvalTimeOut`. -/
def setEvalTimeOut (t : T) (b : Bool) : Sets S R T :=
  if b then addTimeOutTransition p sets (p.source t) t else sets

/-- One call. -/
def apply : Call S R T → Sets S R T
  | .addOutgoingTransition s t => addOutgoingTransition p sets s t
  | .addTimeOutTransition s t => addTimeOutTransition p sets s t
  | .addChildRegion s r => addChildRegion p sets s r
  | .setEvalTimeOut t b => setEvalTimeOut p sets t b

end

/-! ## What was added -/

section
variable [DecidableEq S]

/-- The transition a call adds to the outgoing ones of `s`. -/
def Call.outgoing (s : S) : Call S R T → Option T
  | .addOutgoingTransition s' t => if s' = s then some t else none
  | _ => none

/-- The transition a call adds to the time-out transitions of `s`. -/
def Call.timeOut (p : Parts S R T) (s : S) : Call S R T → Option T
  | .addTimeOutTransition s' t => if s' = s then some t else none
  | .setEvalTimeOut t b => if b = true ∧ p.source t = s then some t else none
  | _ => none

/-- The region a call adds to `s`. -/
def Call.childRegion (s : S) : Call S R T → Option R
  | .addChildRegion s' r => if s' = s then some r else none
  | _ => none

/-- The sets after the calls. -/
def build (p : Parts S R T) (calls : List (Call S R T)) : Sets S R T :=
  calls.foldl (apply p) Sets.create

/-- Every element added is visited once, and nothing else is, by ascending priority. -/
structure VisitedOnce [DecidableEq α] (priority : α → Int) (added visited : List α) : Prop where
  once : ∀ x ∈ added, visited.count x = 1
  only : ∀ x ∈ visited, x ∈ added
  ascending : visited.Pairwise fun x y => priority x ≤ priority y

variable [DecidableEq R] [DecidableEq T]

/-- The iterations of every state visit what was added to it. -/
structure Complete (p : Parts S R T) (calls : List (Call S R T)) : Prop where
  outgoing : ∀ s, VisitedOnce p.transitionPriority (calls.filterMap (Call.outgoing s))
    ((build p calls).orderedOutTransitions s)
  timeOut : ∀ s, VisitedOnce p.transitionPriority (calls.filterMap (Call.timeOut p s))
    ((build p calls).timeOutTransitions s)
  regions : ∀ s, VisitedOnce p.regionPriority (calls.filterMap (Call.childRegion s))
    ((build p calls).orderedRegions s)

/-- No two different elements that go to one set have the same priority. -/
structure PrioritiesApart (p : Parts S R T) (calls : List (Call S R T)) : Prop where
  outgoing : ∀ s, Apart p.transitionPriority (calls.filterMap (Call.outgoing s))
  timeOut : ∀ s, Apart p.transitionPriority (calls.filterMap (Call.timeOut p s))
  regions : ∀ s, Apart p.regionPriority (calls.filterMap (Call.childRegion s))

/-! ## Which sets are complete -/

theorem visitedOnce_iff [DecidableEq α] {priority : α → Int} {comp : α → α → Bool}
    (hcomp : ∀ a b, comp a b = true ↔ priority a < priority b) (added : List α) :
    VisitedOnce priority added (insertAll comp [] added) ↔ Apart priority added := by
  have hsorted := sorted_insertAll hcomp added .nil
  rw [← insertAll_keeps_iff hcomp]
  constructor
  · intro h x hx
    apply List.count_pos_iff.mp
    rw [h.once x hx]
    exact Nat.one_pos
  · intro h
    refine ⟨fun x hx => ?_, fun x hx => ?_, hsorted.imp fun hlt => hlt.le⟩
    · exact List.count_eq_one_of_mem hsorted.nodup (h x hx)
    · exact (mem_of_mem_insertAll hcomp .nil hx).resolve_left List.not_mem_nil

omit [DecidableEq S] [DecidableEq R] [DecidableEq T] in
/-- A set that each call leaves alone or inserts into is that of all it was given. -/
theorem foldl_eq_insertAll {comp : α → α → Bool} {f : Sets S R T → Call S R T → Sets S R T}
    (proj : Sets S R T → List α) {added : Call S R T → Option α}
    (hf : ∀ sets call, proj (f sets call) = insertAll comp (proj sets) (added call).toList)
    (calls : List (Call S R T)) (sets : Sets S R T) :
    proj (calls.foldl f sets) = insertAll comp (proj sets) (calls.filterMap added) := by
  induction calls generalizing sets with
  | nil => rfl
  | cons call calls ih =>
    have hcons : (call :: calls).filterMap added = (added call).toList ++ calls.filterMap added := by
      rw [List.filterMap_cons]
      cases added call <;> rfl
    rw [List.foldl_cons, ih, hf, hcons, insertAll_append]

omit [DecidableEq R] [DecidableEq T] in
theorem build_outgoing (p : Parts S R T) (calls : List (Call S R T)) (s : S) :
    (build p calls).orderedOutTransitions s =
      insertAll (fun a b => p.transitionComp (some a) (some b)) []
        (calls.filterMap (Call.outgoing s)) := by
  refine foldl_eq_insertAll (fun sets => sets.orderedOutTransitions s) (fun sets call => ?_)
    calls Sets.create
  cases call with
  | addOutgoingTransition s' t =>
    by_cases hs : s' = s
    · subst hs
      simp [apply, addOutgoingTransition, Call.outgoing, insertAll]
    · simp [apply, addOutgoingTransition, Call.outgoing, insertAll, hs, Ne.symm hs]
  | setEvalTimeOut t b => cases b <;> rfl
  | _ => rfl

omit [DecidableEq R] [DecidableEq T] in
theorem build_timeOut (p : Parts S R T) (calls : List (Call S R T)) (s : S) :
    (build p calls).timeOutTransitions s =
      insertAll (fun a b => p.transitionComp (some a) (some b)) []
        (calls.filterMap (Call.timeOut p s)) := by
  refine foldl_eq_insertAll (fun sets => sets.timeOutTransitions s) (fun sets call => ?_)
    calls Sets.create
  cases call with
  | addTimeOutTransition s' t =>
    by_cases hs : s' = s
    · subst hs
      simp [apply, addTimeOutTransition, Call.timeOut, insertAll]
    · simp [apply, addTimeOutTransition, Call.timeOut, insertAll, hs, Ne.symm hs]
  | setEvalTimeOut t b =>
    cases b with
    | false => rfl
    | true =>
      by_cases hs : p.source t = s
      · subst hs
        simp [apply, setEvalTimeOut, addTimeOutTransition, Call.timeOut, insertAll]
      · simp [apply, setEvalTimeOut, addTimeOutTransition, Call.timeOut, insertAll, hs, Ne.symm hs]
  | _ => rfl

omit [DecidableEq R] [DecidableEq T] in
theorem build_regions (p : Parts S R T) (calls : List (Call S R T)) (s : S) :
    (build p calls).orderedRegions s =
      insertAll (fun a b => p.regionComp (some a) (some b)) []
        (calls.filterMap (Call.childRegion s)) := by
  refine foldl_eq_insertAll (fun sets => sets.orderedRegions s) (fun sets call => ?_)
    calls Sets.create
  cases call with
  | addChildRegion s' r =>
    by_cases hs : s' = s
    · subst hs
      simp [apply, addChildRegion, Call.childRegion, insertAll]
    · simp [apply, addChildRegion, Call.childRegion, insertAll, hs, Ne.symm hs]
  | setEvalTimeOut t b => cases b <;> rfl
  | _ => rfl

omit [DecidableEq R] [DecidableEq T] in
/-- The regions are those of a hierarchy: as its states own them, and each once. -/
theorem regions_of_apart {p : Parts S R T} {calls : List (Call S R T)} {owner : R → S}
    (hadded : ∀ s r, r ∈ calls.filterMap (Call.childRegion s) ↔ owner r = s)
    (hapart : PrioritiesApart p calls) (s : S) :
    ((build p calls).orderedRegions s).Nodup ∧
      ∀ r, r ∈ (build p calls).orderedRegions s ↔ owner r = s := by
  have hcomp : ∀ a b, p.regionComp (some a) (some b) = true ↔
      p.regionPriority a < p.regionPriority b := fun a b => decide_eq_true_iff
  rw [build_regions]
  refine ⟨(sorted_insertAll hcomp _ .nil).nodup, fun r => ?_⟩
  rw [← hadded s r]
  constructor
  · intro hr
    exact (mem_of_mem_insertAll hcomp .nil hr).resolve_left List.not_mem_nil
  · exact (insertAll_keeps_iff hcomp _).mpr (hapart.regions s) r

/-- After any calls, every state's iterations visit what was added to it once each and
    by ascending priority, if and only if no two different transitions or regions in one
    set have the same priority. -/
theorem construction_keeps_iff (p : Parts S R T) (calls : List (Call S R T)) :
    Complete p calls ↔ PrioritiesApart p calls := by
  have htransition : ∀ a b, p.transitionComp (some a) (some b) = true ↔
      p.transitionPriority a < p.transitionPriority b := fun a b => decide_eq_true_iff
  have hregion : ∀ a b, p.regionComp (some a) (some b) = true ↔
      p.regionPriority a < p.regionPriority b := fun a b => decide_eq_true_iff
  constructor
  · intro h
    refine ⟨fun s => ?_, fun s => ?_, fun s => ?_⟩
    · rw [← visitedOnce_iff htransition, ← build_outgoing]
      exact h.outgoing s
    · rw [← visitedOnce_iff htransition, ← build_timeOut]
      exact h.timeOut s
    · rw [← visitedOnce_iff hregion, ← build_regions]
      exact h.regions s
  · intro h
    refine ⟨fun s => ?_, fun s => ?_, fun s => ?_⟩
    · rw [build_outgoing, visitedOnce_iff htransition]
      exact h.outgoing s
    · rw [build_timeOut, visitedOnce_iff htransition]
      exact h.timeOut s
    · rw [build_regions, visitedOnce_iff hregion]
      exact h.regions s

end

/-! ## Two transitions of one priority -/

/-- Transitions 0 and 1 of priority 5. -/
def samePriority : Parts (Fin 1) (Fin 1) (Fin 2) := ⟨fun _ => 5, fun _ => 0, fun _ => 0⟩

/-- The second transition is lost, as an outgoing one and as a time-out transition. -/
theorem second_transition_lost :
    (build samePriority [.addOutgoingTransition 0 0, .addOutgoingTransition 0 1,
        .setEvalTimeOut 0 true, .setEvalTimeOut 1 true]).orderedOutTransitions 0 = [0] ∧
    (build samePriority [.addOutgoingTransition 0 0, .addOutgoingTransition 0 1,
        .setEvalTimeOut 0 true, .setEvalTimeOut 1 true]).timeOutTransitions 0 = [0] ∧
    ¬ Complete samePriority [.addOutgoingTransition 0 0, .addOutgoingTransition 0 1,
        .setEvalTimeOut 0 true, .setEvalTimeOut 1 true] := by
  refine ⟨rfl, rfl, fun h => ?_⟩
  have hone := (h.outgoing 0).once 1 (by decide)
  revert hone
  decide

end Arinc.Construction
