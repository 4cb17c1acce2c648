import Mathlib.Data.List.TakeWhile
import ArincEmulator.SchedulingOrder
import ArincEmulator.IdleBranch

/- One pass of the scheduler's loop over the scheduling vector. The loop ends at the
   first descriptor that is not due, and what it does to a descriptor on the way
   changes times and states; over a vector in the order the sort means, it still
   comes to every process that is due and to no other.

   What is proved: the descriptors the loop acts on are the longest due beginning
   of the vector as it stood before the pass (`visitTrace_acted`), and from it, for
   every vector with the dormant last and the others in ascending critical time,
   what a pass does to each descriptor, and that it ends just when the actions on
   the due processes return (`pass_acts_on_due`). The action on a missed deadline
   may wait for ever, and then a pass comes to none behind it (`pass_blocks`). -/
namespace Arinc.SchedulerPass
open ProcessTable SchedulingOrder Registry

variable {n : Nat}

/-! ## The beginning of a list that a loop takes -/

theorem takeWhile_congr {α : Type*} {p q : α → Bool} {l : List α} (h : ∀ a ∈ l, p a = q a) :
    l.takeWhile p = l.takeWhile q := by
  induction l with
  | nil => rfl
  | cons a l ih =>
    obtain ⟨ha, hl⟩ := List.forall_mem_cons.mp h
    rw [List.takeWhile_cons, List.takeWhile_cons, ha, ih hl]

/-- In a list in the order `R`, the loop comes to what is taken itself and has
    nothing before it that is not. -/
theorem mem_takeWhile_of_pairwise {α : Type*} {R : α → α → Prop} {p : α → Bool} {l : List α}
    (hsort : l.Pairwise R) {a : α} (ha : a ∈ l) (hpa : p a = true)
    (hbefore : ∀ b, R b a → p b = true) : a ∈ l.takeWhile p := by
  induction l with
  | nil => cases ha
  | cons b l ih =>
    obtain ⟨hb, hl⟩ := List.pairwise_cons.mp hsort
    rcases List.mem_cons.mp ha with rfl | hmem
    · rw [List.takeWhile_cons_of_pos hpa]
      exact List.mem_cons_self
    · rw [List.takeWhile_cons_of_pos (hbefore b (hb a hmem))]
      exact List.mem_cons_of_mem b (ih hl hmem)

/-! ## The loop and its trace -/

/-- `visit`, with the descriptors its body was applied to, in their order. -/
def visitTrace (due : Descriptor → Bool) (f : Fin n → Descriptor → Option Descriptor) :
    List (Fin n) → Table n → Option (List (Fin n) × Table n)
  | [], t => some ([], t)
  | i :: is, t =>
    if due (t.descriptors i) then
      (f i (t.descriptors i)).bind fun d =>
        (visitTrace due f is (t.set i d)).map fun r => (i :: r.1, r.2)
    else some ([], t)

/-- The loop of a pass, at the time `current`: the due are those whose critical time
    is at or before it, and the body is the switch on the pending action. `none` is a
    pass that does not end. -/
def passLoop (attr : Fin n → AcceptedAttributes) (current : Timespec) (clock : Fin n → ClockTime)
    (waits : Fin n → Descriptor.Waits) :
    List (Fin n) → Table n → Option (List (Fin n) × Table n) :=
  visitTrace (fun d => compareTime d.absoluteCriticalTime current) fun i d =>
    if d.Returns (attr i).toAttributes (waits i) then d.act (attr i).toAttributes (clock i)
    else none

section
variable {due : Descriptor → Bool} {f : Fin n → Descriptor → Option Descriptor}

/-- The trace takes nothing away from the loop and adds nothing to it. -/
theorem visitTrace_snd (is : List (Fin n)) (t : Table n) :
    (visitTrace due f is t).map Prod.snd = visit due f is t := by
  induction is generalizing t with
  | nil => rfl
  | cons i is ih =>
    simp only [visitTrace, visit]
    split
    · cases hd : f i (t.descriptors i) with
      | none => rfl
      | some d =>
        simp only [Option.bind_some, Option.map_map, ← ih]
        rfl
    · rfl

/-- The body is applied to a beginning of the vector: to all of it up to the first
    descriptor that was not due when the pass began. -/
theorem visitTrace_acted {is : List (Fin n)} (hnodup : is.Nodup) {t u : Table n}
    {acted : List (Fin n)} (h : visitTrace due f is t = some (acted, u)) :
    acted = is.takeWhile fun i => due (t.descriptors i) := by
  induction is generalizing t acted with
  | nil =>
    obtain ⟨rfl, -⟩ := Prod.mk.inj (Option.some.inj h)
    rfl
  | cons i is ih =>
    obtain ⟨hi, hrest⟩ := List.nodup_cons.mp hnodup
    simp only [visitTrace] at h
    split at h
    · rename_i hdue
      obtain ⟨d, -, h⟩ := Option.bind_eq_some_iff.mp h
      obtain ⟨⟨acted', u'⟩, hvisit, heq⟩ := Option.map_eq_some_iff.mp h
      obtain ⟨rfl, rfl⟩ := Prod.mk.inj heq
      -- the descriptors behind are as they were: the vector holds each once
      have hsame : is.takeWhile (fun k => due ((t.set i d).descriptors k)) =
          is.takeWhile fun k => due (t.descriptors k) := by
        apply takeWhile_congr
        intro k hk
        have hne : k ≠ i := fun heq => hi (heq ▸ hk)
        rw [Table.set_of_ne hne]
      rw [List.takeWhile_cons, hdue, if_pos rfl, ← hsame, ← ih hrest hvisit]
    · rename_i hdue
      obtain ⟨rfl, -⟩ := Prod.mk.inj (Option.some.inj h)
      rw [List.takeWhile_cons, if_neg hdue]

theorem visitTrace_mem {is : List (Fin n)} (hnodup : is.Nodup) {t u : Table n}
    {acted : List (Fin n)} (h : visitTrace due f is t = some (acted, u)) {i : Fin n}
    (hi : i ∈ acted) : f i (t.descriptors i) = some (u.descriptors i) := by
  induction is generalizing t acted with
  | nil =>
    obtain ⟨rfl, -⟩ := Prod.mk.inj (Option.some.inj h)
    cases hi
  | cons j is ih =>
    obtain ⟨hj, hrest⟩ := List.nodup_cons.mp hnodup
    have hvisit := (visitTrace_snd (j :: is) t).symm.trans (congrArg (Option.map Prod.snd) h)
    simp only [visitTrace] at h
    split at h
    · rename_i hdue
      obtain ⟨d, hd, h⟩ := Option.bind_eq_some_iff.mp h
      obtain ⟨⟨acted', u'⟩, htrace, heq⟩ := Option.map_eq_some_iff.mp h
      obtain ⟨rfl, rfl⟩ := Prod.mk.inj heq
      by_cases hij : i = j
      · subst hij
        exact visit_reaches (hnodup : ([] ++ i :: is).Nodup)
          (fun k hk => absurd hk List.not_mem_nil) hdue hvisit
      · rw [← Table.set_of_ne hij t d]
        exact ih hrest htrace ((List.mem_cons.mp hi).resolve_left hij)
    · obtain ⟨rfl, -⟩ := Prod.mk.inj (Option.some.inj h)
      cases hi

theorem visitTrace_not_mem {is : List (Fin n)} {t u : Table n} {acted : List (Fin n)}
    (h : visitTrace due f is t = some (acted, u)) {i : Fin n} (hi : i ∉ acted) :
    u.descriptors i = t.descriptors i := by
  induction is generalizing t acted with
  | nil =>
    obtain ⟨-, rfl⟩ := Prod.mk.inj (Option.some.inj h)
    rfl
  | cons j is ih =>
    simp only [visitTrace] at h
    split at h
    · obtain ⟨d, -, h⟩ := Option.bind_eq_some_iff.mp h
      obtain ⟨⟨acted', u'⟩, htrace, heq⟩ := Option.map_eq_some_iff.mp h
      obtain ⟨rfl, rfl⟩ := Prod.mk.inj heq
      obtain ⟨hij, hrest⟩ := not_or.mp (List.mem_cons.not.mp hi)
      exact (ih htrace hrest).trans (Table.set_of_ne hij t d)
    · obtain ⟨-, rfl⟩ := Prod.mk.inj (Option.some.inj h)
      rfl

theorem visitTrace_ends {is : List (Fin n)} (hnodup : is.Nodup) {t : Table n}
    (hf : ∀ i ∈ is, due (t.descriptors i) = true → ∃ e, f i (t.descriptors i) = some e) :
    ∃ acted u, visitTrace due f is t = some (acted, u) := by
  induction is generalizing t with
  | nil => exact ⟨[], t, rfl⟩
  | cons i is ih =>
    obtain ⟨hi, hrest⟩ := List.nodup_cons.mp hnodup
    simp only [visitTrace]
    split
    · rename_i hdue
      obtain ⟨d, hd⟩ := hf i List.mem_cons_self hdue
      have hothers : ∀ k ∈ is, due ((t.set i d).descriptors k) = true →
          ∃ e, f k ((t.set i d).descriptors k) = some e := by
        intro k hk
        have hne : k ≠ i := fun heq => hi (heq ▸ hk)
        rw [Table.set_of_ne hne]
        exact hf k (List.mem_cons_of_mem i hk)
      obtain ⟨acted, u, htrace⟩ := ih hrest hothers
      exact ⟨i :: acted, u, by rw [hd, Option.bind_some, htrace, Option.map_some]⟩
    · exact ⟨[], t, rfl⟩

end

/-! ## One pass -/

/-- The order of the vector: of two descriptors the later is dormant, or neither is and
    the earlier has the critical time that is no later. -/
def Ascending (t : Table n) (i j : Fin n) : Prop :=
  (t.descriptors j).process.state = .dormant ∨
    ((t.descriptors i).process.state ≠ .dormant ∧
      compareTime (t.descriptors i).absoluteCriticalTime
        (t.descriptors j).absoluteCriticalTime = true)

instance (t : Table n) : DecidableRel (Ascending t) :=
  fun _ _ => inferInstanceAs (Decidable (_ ∨ _ ∧ _))

/-- The same descriptor but for its pending action, and what the scheduler has noted
    of it. -/
def OnlyPending (d e : Descriptor) : Prop :=
  e = { d with nextSchedulingInstance := e.nextSchedulingInstance, log := e.log }

/-- What a pass at `current` has made of the table, descriptor by descriptor. -/
structure ActedOnDue (attr : Fin n → AcceptedAttributes) (current : Timespec)
    (clock : Fin n → ClockTime) (order : List (Fin n)) (t : Table n) (acted : List (Fin n))
    (u : Table n) : Prop where
  due : ∀ i ∈ order, (t.descriptors i).process.state ≠ .dormant →
    compareTime (t.descriptors i).absoluteCriticalTime current = true →
      acted.count i = 1 ∧
        (t.descriptors i).act (attr i).toAttributes (clock i) = some (u.descriptors i)
  later : ∀ i ∈ order, (t.descriptors i).process.state ≠ .dormant →
    compareTime (t.descriptors i).absoluteCriticalTime current = false →
      i ∉ acted ∧ u.descriptors i = t.descriptors i
  dormant : ∀ i ∈ order, (t.descriptors i).process.state = .dormant →
    OnlyPending (t.descriptors i) (u.descriptors i)
  absent : ∀ i, i ∉ order → u.descriptors i = t.descriptors i

theorem act_dormant {a : Attributes} {c : ClockTime} {d e : Descriptor}
    (hd : d.process.state = .dormant) (h : d.act a c = some e) : OnlyPending d e := by
  unfold Descriptor.act at h
  split at h
  · have hnot : ¬ d.process.Releasable := by simp [Process.Releasable, hd]
    rw [Descriptor.releaseProcess, if_neg hnot] at h
    obtain rfl := Option.some.inj h
    rfl
  · rw [Descriptor.checkDeadline, if_pos hd] at h
    obtain rfl := Option.some.inj h
    rfl

theorem due_of_le {first second current : Timespec} (h : compareTime first second = true)
    (hdue : compareTime second current = true) : compareTime first current = true := by
  rw [compareTime_iff_lexTime] at h hdue ⊢
  exact le_trans h hdue

section
variable {attr : Fin n → AcceptedAttributes} {order : List (Fin n)} {t u : Table n}
  {acted : List (Fin n)} {current : Timespec} {clock : Fin n → ClockTime}
  {waits : Fin n → Descriptor.Waits}

theorem acted_of_due (hnodup : order.Nodup) (hsort : order.Pairwise (Ascending t))
    (hpass : passLoop attr current clock waits order t = some (acted, u)) {i : Fin n}
    (hi : i ∈ order) (hstate : (t.descriptors i).process.state ≠ .dormant)
    (hdue : compareTime (t.descriptors i).absoluteCriticalTime current = true) : i ∈ acted := by
  rw [visitTrace_acted hnodup hpass]
  refine mem_takeWhile_of_pairwise hsort hi hdue fun b hb => ?_
  obtain hdormant | ⟨-, hle⟩ := hb
  · exact absurd hdormant hstate
  · exact due_of_le hle hdue

/-- What the loop has come to has returned, and the switch has made what it left. -/
theorem act_of_acted (hnodup : order.Nodup)
    (hpass : passLoop attr current clock waits order t = some (acted, u)) {i : Fin n}
    (hi : i ∈ acted) :
    (t.descriptors i).Returns (attr i).toAttributes (waits i) ∧
      (t.descriptors i).act (attr i).toAttributes (clock i) = some (u.descriptors i) :=
  Option.ite_none_right_eq_some.mp (visitTrace_mem hnodup hpass hi)

theorem passLoop_acted (hnodup : order.Nodup) (hsort : order.Pairwise (Ascending t))
    (hpass : passLoop attr current clock waits order t = some (acted, u)) :
    ActedOnDue attr current clock order t acted u := by
  have hacted := visitTrace_acted hnodup hpass
  have hsublist : acted.Sublist order := hacted ▸ List.takeWhile_sublist _
  refine ⟨?_, ?_, ?_, ?_⟩
  · intro i hi hstate hdue
    have hmem : i ∈ acted := acted_of_due hnodup hsort hpass hi hstate hdue
    exact ⟨List.count_eq_one_of_mem (hsublist.nodup hnodup) hmem,
      (act_of_acted hnodup hpass hmem).2⟩
  · intro i _ _ hlater
    have hmem : i ∉ acted := by
      intro hmem
      rw [hacted] at hmem
      have hdue : compareTime (t.descriptors i).absoluteCriticalTime current = true :=
        List.mem_takeWhile_imp (p := fun k => compareTime (t.descriptors k).absoluteCriticalTime current)
          hmem
      exact Bool.false_ne_true (hlater.symm.trans hdue)
    exact ⟨hmem, visitTrace_not_mem hpass hmem⟩
  · intro i _ hdormant
    by_cases hmem : i ∈ acted
    · exact act_dormant hdormant (act_of_acted hnodup hpass hmem).2
    · rw [visitTrace_not_mem hpass hmem]
      rfl
  · intro i hi
    exact visitTrace_not_mem hpass fun hmem => hi (hsublist.subset hmem)

end

/-- One pass over a vector in its order, at any time and whatever the states, the
    pending actions and the clocks. It ends just when the actions on the processes
    that are due return; then the switch has been applied once to each of these, the
    others that are not dormant are as they were, and of the dormant only the pending
    action has changed. -/
theorem pass_acts_on_due (attr : Fin n → AcceptedAttributes) {order : List (Fin n)}
    (hnodup : order.Nodup) {t : Table n} (hsort : order.Pairwise (Ascending t))
    (current : Timespec) (clock : Fin n → ClockTime) (waits : Fin n → Descriptor.Waits) :
    ((∃ acted u, passLoop attr current clock waits order t = some (acted, u)) ↔
      ∀ i ∈ order, (t.descriptors i).process.state ≠ .dormant →
        compareTime (t.descriptors i).absoluteCriticalTime current = true →
          (t.descriptors i).Returns (attr i).toAttributes (waits i)) ∧
    ∀ acted u, passLoop attr current clock waits order t = some (acted, u) →
      ActedOnDue attr current clock order t acted u := by
  refine ⟨⟨?_, ?_⟩, fun acted u => passLoop_acted hnodup hsort⟩
  · rintro ⟨acted, u, hpass⟩ i hi hstate hdue
    exact (act_of_acted hnodup hpass (acted_of_due hnodup hsort hpass hi hstate hdue)).1
  · intro hreturns
    refine visitTrace_ends hnodup fun i hi hdue => ?_
    have hreturn : (t.descriptors i).Returns (attr i).toAttributes (waits i) := by
      by_cases hstate : (t.descriptors i).process.state = .dormant
      · exact fun hmiss => absurd hstate hmiss.2.1
      · exact hreturns i hi hstate hdue
    rw [if_pos hreturn]
    exact act_ends (attr i) (clock i) _

/-- It is the loop of the scheduler's step, where the sleep ended with its time-out and
    nothing is waited for in vain. -/
theorem step_pass {attr : Fin n → AcceptedAttributes} {t u : Table n} {order : List (Fin n)}
    {now current : ClockTime} {clock : Fin n → ClockTime} (hbusy : ¬ Idle attr t order)
    (h : step attr t (.pass order now (some current) clock) = some u) :
    ∃ acted, passLoop attr current.toTimespec clock (fun _ => ⟨true, true⟩) order t =
      some (acted, u) := by
  obtain ⟨-, hloop⟩ := Option.ite_none_right_eq_some.mp h
  rw [if_neg hbusy] at hloop
  have hreturns (i : Fin n) (d : Descriptor) : d.Returns (attr i).toAttributes ⟨true, true⟩ :=
    fun _ => ⟨fun _ => rfl, rfl⟩
  have hsnd := (visitTrace_snd order t).trans hloop
  obtain ⟨⟨acted, u'⟩, hpass, rfl⟩ := Option.map_eq_some_iff.mp hsnd
  refine ⟨acted, ?_⟩
  simp only [passLoop, hreturns, if_true]
  exact hpass

/-- The table of `bothRun` at second 14: the deadline of the sampler is due again, and the
    monitor has none. -/
theorem pass_acts_on_due_bothRun :
    ∃ t, Runs.run (step IdleBranch.monitorAndSampler) (start 2) IdleBranch.bothRun = some t ∧
      [1, 0].Pairwise (Ascending t) ∧
      ∃ acted u, passLoop IdleBranch.monitorAndSampler ⟨14, 0⟩ (fun _ => IdleBranch.clockAt 14)
          (fun _ => ⟨true, true⟩) [1, 0] t = some (acted, u) ∧
        ActedOnDue IdleBranch.monitorAndSampler ⟨14, 0⟩ (fun _ => IdleBranch.clockAt 14) [1, 0] t
          acted u := by
  have hsort : [1, 0].Pairwise (Ascending
      ((Runs.run (step IdleBranch.monitorAndSampler) (start 2) IdleBranch.bothRun).get
        (by decide))) := by decide
  obtain ⟨hends, hacted⟩ := pass_acts_on_due IdleBranch.monitorAndSampler (by decide) hsort ⟨14, 0⟩
    (fun _ => IdleBranch.clockAt 14) (fun _ => ⟨true, true⟩)
  obtain ⟨acted, u, hpass⟩ := hends.mpr fun _ _ _ _ _ => ⟨fun _ => rfl, rfl⟩
  exact ⟨_, (Option.some_get _).symm, hsort, acted, u, hpass, hacted acted u hpass⟩

theorem control_accepted :
    checkAttributes ⟨"control", false, 90, 1000000000, infiniteTimeValue, .hard⟩ = .noError := by
  decide

/-- Two processes with hard deadlines. -/
def hardPair (_ : Fin 2) : AcceptedAttributes := ⟨_, control_accepted⟩

/-- Both are started, at seconds 1 and 2, and released at second 2. -/
def bothReleased : List (Op 2) :=
  [.setNormal, .initScheduler fun _ => IdleBranch.clockAt 0,
    .delayedStart 0 0 (IdleBranch.clockAt 1), .delayedStart 1 0 (IdleBranch.clockAt 2),
    IdleBranch.passAt [0, 1] 2]

/-- The thread of the first process does not come to an end. -/
def stuckThread (i : Fin 2) : Descriptor.Waits := ⟨decide (i ≠ 0), true⟩

/-- At second 5 both have missed their deadlines. The pass joins the thread of the first
    for ever, and does not come to the second. -/
theorem pass_blocks :
    ∃ t, Runs.run (step hardPair) (start 2) bothReleased = some t ∧
      [0, 1].Pairwise (Ascending t) ∧
      (∀ i, (t.descriptors i).process.state = .running ∧
        compareTime (t.descriptors i).absoluteCriticalTime ⟨5, 0⟩ = true) ∧
      passLoop hardPair ⟨5, 0⟩ (fun _ => IdleBranch.clockAt 5) stuckThread [0, 1] t = none :=
  ⟨(Runs.run (step hardPair) (start 2) bothReleased).get (by decide), (Option.some_get _).symm,
    by decide, by decide, by decide⟩

end Arinc.SchedulerPass
