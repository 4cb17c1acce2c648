import Mathlib.Algebra.Group.Nat.Defs
import Mathlib.Data.List.Chain
import Mathlib.Data.List.Perm.Basic

/- The admission check of a partition schedule (`MODULE_MANAGER::MODULE_MANAGER`):
   the windows are sorted by offset, each is compared with its successor, and
   the end of the last one with the major frame. The sums of offset and duration
   are taken to be representable, and the index of the loop not to wrap.

   What is proved:
     1. `checkSchedule_nonempty` — on a non-empty sorted vector the check accepts
        exactly when every window ends before its successor starts and the last
        ends within the frame.
     2. `checkSchedule_conforms_iff` — the exact condition under which that is
        the documented check (windows inside the frame, none negative, none
        overlapping): not for the empty list, not where a negative offset or
        duration slips through, and not where the sort leaves a zero-length
        window behind one that starts at the same offset. -/
namespace Arinc.Schedule

/-- `SCHEDULING_TUPLE`: one window of a partition. -/
structure SchedulingTuple where
  partitionIndex : Nat
  offset : Int
  duration : Int
  deriving DecidableEq, Repr

/-- `OFFSET + DURATION`. -/
def SchedulingTuple.finish (w : SchedulingTuple) : Int := w.offset + w.duration

/-- `SCHEDULE_COMP`. -/
def scheduleComp (first second : SchedulingTuple) : Bool := decide (first.offset < second.offset)

/-- What `std::sort` promises: no element before one it should follow. The order
    of windows of one offset is left open. -/
def Sorted (v : List SchedulingTuple) : Prop :=
  v.Pairwise fun a b => scheduleComp b a = false

/-- The outcome of the check: accepted, `throw(-5)`, or an access outside the
    schedule vector. -/
inductive Admission where
  | accepted
  | rejected
  | outOfRange
  deriving DecidableEq, Repr

/-- `SCHEDULING_VECTOR.size() - 1` in the unsigned `size_t`: it wraps at 0. -/
def sizeMinusOne (v : List SchedulingTuple) : Nat :=
  if v.length = 0 then 2 ^ 64 - 1 else v.length - 1

/-- The test of the last window against `MAJOR_FRAME_SIZE`. -/
def checkFrame (v : List SchedulingTuple) (majorFrameSize : Int) : Admission :=
  match v[sizeMinusOne v]? with
  | some w => if w.finish > majorFrameSize then .rejected else .accepted
  | none => .outOfRange

/-- The loop over neighbours from index `i`, `rounds` of it left. -/
def checkNeighbours (v : List SchedulingTuple) (majorFrameSize : Int) (i : Nat) :
    Nat → Admission
  | 0 => checkFrame v majorFrameSize
  | rounds + 1 =>
    match v[i]?, v[i + 1]? with
    | some a, some b =>
      if a.finish > b.offset then .rejected
      else checkNeighbours v majorFrameSize (i + 1) rounds
    | _, _ => .outOfRange

/-- The schedule check of the constructor, on the sorted vector. -/
def checkSchedule (v : List SchedulingTuple) (majorFrameSize : Int) : Admission :=
  checkNeighbours v majorFrameSize 0 (sizeMinusOne v)

/-! ## What a schedule should be -/

/-- The windows lie inside `[0, MAJOR_FRAME_SIZE]` and do not overlap. -/
structure Valid (majorFrameSize : Int) (ws : List SchedulingTuple) : Prop where
  offset_nonneg : ∀ w ∈ ws, 0 ≤ w.offset
  duration_nonneg : ∀ w ∈ ws, 0 ≤ w.duration
  inFrame : ∀ w ∈ ws, w.finish ≤ majorFrameSize
  disjoint : ws.Pairwise fun a b => a.finish ≤ b.offset ∨ b.finish ≤ a.offset

/-- The outcome is the documented one: no access out of range, and acceptance
    exactly for a valid schedule. -/
def Conforms (outcome : Admission) (majorFrameSize : Int) (ws : List SchedulingTuple) : Prop :=
  outcome ≠ .outOfRange ∧ (outcome = .accepted ↔ Valid majorFrameSize ws)

/-- Each window ends before its successor starts. -/
def EndsBeforeNext (v : List SchedulingTuple) : Prop :=
  v.IsChain fun a b => a.finish ≤ b.offset

/-- The last window ends within the frame. -/
def LastInFrame (majorFrameSize : Int) (v : List SchedulingTuple) : Prop :=
  ∀ w ∈ v.getLast?, w.finish ≤ majorFrameSize

/-- No window of positive length stands directly before one of the same offset. -/
def ShortBeforeEqual (v : List SchedulingTuple) : Prop :=
  v.IsChain fun a b => a.offset = b.offset → a.duration ≤ 0

/-- When the check is the documented one: there is a window; a negative offset
    or duration comes with an overlap or a late end that the check sees; and in
    a valid schedule the sort has put the zero-length windows of an offset
    before the others of that offset. -/
structure CheckApplies (majorFrameSize : Int) (v : List SchedulingTuple) : Prop where
  nonempty : v ≠ []
  negative : (∃ w ∈ v, w.offset < 0 ∨ w.duration < 0) →
    ¬ EndsBeforeNext v ∨ ¬ LastInFrame majorFrameSize v
  ties : Valid majorFrameSize v → ShortBeforeEqual v

instance (v : List SchedulingTuple) : Decidable (Sorted v) :=
  inferInstanceAs (Decidable (v.Pairwise _))

instance (v : List SchedulingTuple) : Decidable (EndsBeforeNext v) :=
  inferInstanceAs (Decidable (v.IsChain _))

instance (majorFrameSize : Int) (v : List SchedulingTuple) :
    Decidable (LastInFrame majorFrameSize v) :=
  inferInstanceAs (Decidable (∀ w ∈ v.getLast?, _))

/-! ## The loop is the chain -/

theorem sizeMinusOne_of_ne {v : List SchedulingTuple} (hne : v ≠ []) :
    sizeMinusOne v = v.length - 1 :=
  if_neg fun h => hne (List.eq_nil_of_length_eq_zero h)

theorem checkFrame_eq {v : List SchedulingTuple} (hne : v ≠ []) (majorFrameSize : Int) :
    checkFrame v majorFrameSize
      = if LastInFrame majorFrameSize v then .accepted else .rejected := by
  have hlast : v[sizeMinusOne v]? = some (v.getLast hne) := by
    rw [sizeMinusOne_of_ne hne, ← List.getLast?_eq_getElem?, List.getLast?_eq_some_getLast hne]
  have hframe : LastInFrame majorFrameSize v ↔ (v.getLast hne).finish ≤ majorFrameSize := by
    simp [LastInFrame, List.getLast?_eq_some_getLast hne]
  unfold checkFrame
  rw [hlast]
  by_cases hle : (v.getLast hne).finish ≤ majorFrameSize
  · rw [if_pos (hframe.mpr hle)]
    exact if_neg (by omega)
  · rw [if_neg fun h => hle (hframe.mp h)]
    exact if_pos (by omega)

/-- From index `i` on, the loop decides the chain of what is left. -/
theorem checkNeighbours_eq (v : List SchedulingTuple) (majorFrameSize : Int) :
    ∀ (rounds i : Nat), i + rounds + 1 = v.length →
      checkNeighbours v majorFrameSize i rounds
        = if EndsBeforeNext (v.drop i) ∧ LastInFrame majorFrameSize v then .accepted
          else .rejected := by
  intro rounds
  -- The induction is on the rounds left: the last window is compared with the frame, every other
  -- one with the window behind it.
  induction rounds with
  | zero =>
    intro i hi
    have hne : v ≠ [] := by
      intro h
      rw [h, List.length_nil] at hi
      omega
    have hdrop : v.drop i = [v[i]] := by
      rw [List.drop_eq_getElem_cons (by omega), List.drop_of_length_le (by omega)]
    have hchain : EndsBeforeNext (v.drop i) := by
      rw [hdrop]
      exact List.isChain_singleton _
    rw [checkNeighbours, checkFrame_eq hne]
    simp only [hchain, true_and]
  | succ rounds ih =>
    intro i hi
    have hdrop : v.drop i = v[i] :: v.drop (i + 1) := List.drop_eq_getElem_cons (by omega)
    have hnext : v.drop (i + 1) = v[i + 1] :: v.drop (i + 2) :=
      List.drop_eq_getElem_cons (by omega)
    have hchain : EndsBeforeNext (v.drop i)
        ↔ v[i].finish ≤ v[i + 1].offset ∧ EndsBeforeNext (v.drop (i + 1)) := by
      rw [hdrop, hnext]
      exact List.isChain_cons_cons
    rw [checkNeighbours, List.getElem?_eq_getElem (by omega), List.getElem?_eq_getElem (by omega)]
    by_cases hle : v[i].finish ≤ v[i + 1].offset
    · simp only [hchain, hle, true_and]
      rw [if_neg (by omega)]
      exact ih (i + 1) (by omega)
    · simp only [hchain, hle, false_and, if_false]
      exact if_pos (by omega)

theorem checkSchedule_nonempty {v : List SchedulingTuple} (hne : v ≠ []) (majorFrameSize : Int) :
    checkSchedule v majorFrameSize
      = if EndsBeforeNext v ∧ LastInFrame majorFrameSize v then .accepted else .rejected := by
  have hpos : 0 < v.length := List.length_pos_iff.mpr hne
  unfold checkSchedule
  rw [sizeMinusOne_of_ne hne, checkNeighbours_eq v majorFrameSize _ 0 (by omega)]
  rfl

theorem checkSchedule_nil (majorFrameSize : Int) :
    checkSchedule [] majorFrameSize = .outOfRange := rfl

/-! ## The chain and the documented check -/

theorem Sorted.offset_le {v : List SchedulingTuple} (hv : Sorted v) :
    v.Pairwise fun a b => a.offset ≤ b.offset :=
  hv.imp fun h => by simpa [scheduleComp] using h

/-- Sorted neighbours that do not overlap make all pairs not overlap. -/
theorem EndsBeforeNext.pairwise {v : List SchedulingTuple} (hv : Sorted v)
    (h : EndsBeforeNext v) : v.Pairwise fun a b => a.finish ≤ b.offset := by
  have hoff := hv.offset_le
  clear hv
  induction v with
  | nil => exact .nil
  | cons a rest ih =>
    cases rest with
    | nil => exact List.pairwise_singleton _ a
    | cons b rest =>
      obtain ⟨hab, hrest⟩ := List.isChain_cons_cons.mp h
      have hoff' := (List.pairwise_cons.mp hoff).2
      refine List.pairwise_cons.mpr ⟨fun c hc => ?_, ih hrest hoff'⟩
      rcases List.mem_cons.mp hc with rfl | hc
      · exact hab
      · exact Int.le_trans hab ((List.pairwise_cons.mp hoff').1 c hc)

/-- What the check accepts is valid, negative windows apart. -/
theorem valid_of_accepted {v : List SchedulingTuple} {majorFrameSize : Int} (hv : Sorted v)
    (hnonneg : ∀ w ∈ v, 0 ≤ w.offset ∧ 0 ≤ w.duration) (hchain : EndsBeforeNext v)
    (hlast : LastInFrame majorFrameSize v) : Valid majorFrameSize v where
  offset_nonneg w hw := (hnonneg w hw).1
  duration_nonneg w hw := (hnonneg w hw).2
  inFrame := by
    intro w hw
    obtain ⟨front, last, hsplit⟩ := v.eq_nil_or_concat.resolve_left (List.ne_nil_of_mem hw)
    rw [List.concat_eq_append] at hsplit
    subst hsplit
    have hend : last.finish ≤ majorFrameSize := hlast last (by simp)
    rcases List.mem_append.mp hw with hw | hw
    · have hle := (List.pairwise_append.mp (hchain.pairwise hv)).2.2 w hw last (by simp)
      have hdur := (hnonneg last (by simp)).2
      unfold SchedulingTuple.finish at *
      omega
    · rw [List.mem_singleton.mp hw]
      exact hend
  disjoint := (hchain.pairwise hv).imp Or.inl

/-- A valid schedule passes, unless the sort left a tie the wrong way round. -/
theorem accepted_of_valid {v : List SchedulingTuple} {majorFrameSize : Int} (hv : Sorted v)
    (hvalid : Valid majorFrameSize v) (hties : ShortBeforeEqual v) :
    EndsBeforeNext v ∧ LastInFrame majorFrameSize v := by
  refine ⟨?_, fun w hw => hvalid.inFrame w (List.mem_of_getLast? hw)⟩
  have hboth := hv.offset_le.and hvalid.disjoint
  have hdur := hvalid.duration_nonneg
  clear hvalid hv
  unfold EndsBeforeNext
  unfold ShortBeforeEqual at hties
  induction v with
  | nil => exact .nil
  | cons a rest ih =>
    cases rest with
    | nil => exact List.isChain_singleton a
    | cons b rest =>
      obtain ⟨htie, hrest⟩ := List.isChain_cons_cons.mp hties
      obtain ⟨hab, hboth'⟩ := List.pairwise_cons.mp hboth
      obtain ⟨hoff, hsep⟩ := hab b List.mem_cons_self
      have hb := hdur b (by simp)
      refine List.isChain_cons_cons.mpr
        ⟨?_, ih hrest hboth' fun w hw => hdur w (List.mem_cons_of_mem _ hw)⟩
      rcases hsep with hsep | hsep
      · exact hsep
      · -- `b` ends no later than `a` starts, so it is empty and starts with `a`
        unfold SchedulingTuple.finish at *
        have heq : a.offset = b.offset := by omega
        have := htie heq
        omega

theorem Valid.perm {majorFrameSize : Int} {v ws : List SchedulingTuple} (h : v.Perm ws) :
    Valid majorFrameSize v ↔ Valid majorFrameSize ws := by
  have hdisjoint : (v.Pairwise fun a b => a.finish ≤ b.offset ∨ b.finish ≤ a.offset)
      ↔ ws.Pairwise fun a b => a.finish ≤ b.offset ∨ b.finish ≤ a.offset :=
    h.pairwise_iff fun hab => hab.symm
  constructor
  · intro hv
    exact ⟨fun w hw => hv.offset_nonneg w (h.mem_iff.mpr hw),
      fun w hw => hv.duration_nonneg w (h.mem_iff.mpr hw),
      fun w hw => hv.inFrame w (h.mem_iff.mpr hw), hdisjoint.mp hv.disjoint⟩
  · intro hv
    exact ⟨fun w hw => hv.offset_nonneg w (h.mem_iff.mp hw),
      fun w hw => hv.duration_nonneg w (h.mem_iff.mp hw),
      fun w hw => hv.inFrame w (h.mem_iff.mp hw), hdisjoint.mpr hv.disjoint⟩

/-- For every schedule, however the sort leaves it: the check is the documented
    one exactly when `CheckApplies`. -/
theorem checkSchedule_conforms_iff (ws v : List SchedulingTuple) (majorFrameSize : Int)
    (hperm : v.Perm ws) (hv : Sorted v) :
    Conforms (checkSchedule v majorFrameSize) majorFrameSize ws
      ↔ CheckApplies majorFrameSize v := by
  unfold Conforms
  rw [← Valid.perm hperm]
  by_cases hne : v = []
  · subst hne
    rw [checkSchedule_nil]
    exact ⟨fun h => absurd rfl h.1, fun h => absurd rfl h.nonempty⟩
  have haccepted : checkSchedule v majorFrameSize = .accepted
      ↔ EndsBeforeNext v ∧ LastInFrame majorFrameSize v := by
    rw [checkSchedule_nonempty hne]
    split <;> simp_all
  have hrange : checkSchedule v majorFrameSize ≠ .outOfRange := by
    rw [checkSchedule_nonempty hne]
    split <;> simp
  rw [haccepted]
  constructor
  -- A negative offset or duration makes the schedule invalid, so the check has to reject it by
  -- one of its own two tests.
  · rintro ⟨-, hiff⟩
    refine ⟨hne, ?_, ?_⟩
    · rintro ⟨w, hw, hneg⟩
      by_contra hcon
      rw [not_or, not_not, not_not] at hcon
      have hvalid := hiff.mp hcon
      have hoff := hvalid.offset_nonneg w hw
      have hdur := hvalid.duration_nonneg w hw
      omega
    · intro hvalid
      refine (hiff.mpr hvalid).1.imp fun a b hab heq => ?_
      unfold SchedulingTuple.finish at hab
      omega
  · intro hc
    refine ⟨hrange, fun h => ?_, fun hvalid => accepted_of_valid hv hvalid (hc.ties hvalid)⟩
    refine valid_of_accepted hv (fun w hw => ?_) h.1 h.2
    by_contra hcon
    rcases hc.negative ⟨w, hw, by omega⟩ with hneg | hneg
    · exact hneg h.1
    · exact hneg h.2

theorem checkSchedule_conforms_iff_two_windows :
    Conforms (checkSchedule [⟨0, 0, 4⟩, ⟨1, 5, 5⟩] 10) 10 [⟨1, 5, 5⟩, ⟨0, 0, 4⟩]
      ↔ CheckApplies 10 [⟨0, 0, 4⟩, ⟨1, 5, 5⟩] :=
  checkSchedule_conforms_iff _ _ 10 (List.Perm.swap _ _ _)
    (by decide)

/-- The empty schedule is read out of range; a window that starts before the
    frame is accepted; and of a valid schedule with a zero-length window, one
    order of the tie is refused. -/
theorem checkSchedule_fails :
    ¬ Conforms (checkSchedule [] 10) 10 [] ∧
      ¬ Conforms (checkSchedule [⟨0, -5, 3⟩] 10) 10 [⟨0, -5, 3⟩] ∧
      ¬ Conforms (checkSchedule [⟨0, 5, 5⟩, ⟨1, 5, 0⟩] 10) 10 [⟨0, 5, 5⟩, ⟨1, 5, 0⟩] := by
  refine ⟨?_, ?_, ?_⟩
  · exact fun h => h.1 rfl
  · intro h
    have hvalid := h.2.mp (by decide)
    have hoff := hvalid.offset_nonneg ⟨0, -5, 3⟩ (by simp)
    simp at hoff
  · intro h
    have hvalid : Valid 10 [⟨0, 5, 5⟩, ⟨1, 5, 0⟩] :=
      ⟨by decide, by decide, by decide, by decide⟩
    have hacc := h.2.mpr hvalid
    revert hacc
    decide

end Arinc.Schedule
