import ArincEmulator.ProcessTable

/- The branch 'nothing to do' of the scheduler. It looks at the head of the sorted
   vector only, and takes a process of infinite capacity that waits for its
   deadline check for one that has nothing due. Such a process may have a critical
   time as near as any other: `REPLENISH` writes one. The branch is right exactly
   where the head's critical time is no nearer than the second it sleeps. -/
namespace Arinc.IdleBranch
open Runs ProcessTable

variable {n : Nat}

/-- The order the comparator means: the dormant last, the others by their critical
    time. -/
def Before (t : Table n) (i j : Fin n) : Prop :=
  (t.descriptors j).process.state = .dormant ∨
    ((t.descriptors i).process.state ≠ .dormant ∧
      (t.descriptors i).absoluteCriticalTime.toNano ≤ (t.descriptors j).absoluteCriticalTime.toNano)

instance (t : Table n) : DecidableRel (Before t) :=
  fun _ _ => inferInstanceAs (Decidable (_ ∨ _ ∧ _))

/-- The sort of a pass has returned the vector in that order. -/
def Sorts (t : Table n) : Op n → Prop
  | .pass order _ _ _ => order.Pairwise (Before t)
  | _ => True

instance (t : Table n) : (op : Op n) → Decidable (Sorts t op)
  | .pass _ _ _ _ => inferInstanceAs (Decidable (List.Pairwise _ _))
  | .setNormal | .initScheduler _ | .delayedStart _ _ _ | .stop _ | .thread _ _
  | .replenish _ _ _ => isTrue trivial

section
variable (attr : Fin n → AcceptedAttributes)

/-- A pass takes the branch only where no process that is not dormant is due, and
    does not sleep past the critical time of any. -/
def AttendsToPending (t : Table n) : Op n → Prop
  | .pass order now _ _ =>
    (Idle attr t order → ∀ j, (t.descriptors j).process.state ≠ .dormant →
      now.toNano < (t.descriptors j).absoluteCriticalTime.toNano) ∧
    ∀ j, (t.descriptors j).process.state ≠ .dormant →
      (sleepUntil attr t now order).toNano ≤ (t.descriptors j).absoluteCriticalTime.toNano
  | _ => True

instance (t : Table n) : (op : Op n) → Decidable (AttendsToPending attr t op)
  | .pass _ _ _ _ => inferInstanceAs (Decidable ((_ → ∀ _, _ → _) ∧ ∀ _, _ → _))
  | .setNormal | .initScheduler _ | .delayedStart _ _ _ | .stop _ | .thread _ _
  | .replenish _ _ _ => isTrue trivial

/-- The head, where it is a process of infinite capacity waiting for its deadline
    check, has a second to go. -/
def HeadIsFar (t : Table n) : Op n → Prop
  | .pass (i :: _) now _ _ =>
    (t.descriptors i).process.state ≠ .dormant → (attr i).timeCapacity = infiniteTimeValue →
      (t.descriptors i).nextSchedulingInstance = .checkDeadline →
      now.toNano + nano ≤ (t.descriptors i).absoluteCriticalTime.toNano
  | _ => True

instance (t : Table n) : (op : Op n) → Decidable (HeadIsFar attr t op)
  | .pass (_ :: _) _ _ _ => inferInstanceAs (Decidable (_ → _ → _ → _))
  | .pass [] _ _ _ | .setNormal | .initScheduler _ | .delayedStart _ _ _ | .stop _ | .thread _ _
  | .replenish _ _ _ => isTrue trivial

variable {attr} {t : Table n}

/-- Nobody but the dormant comes before the head. -/
theorem head_le {i j : Fin n} {order : List (Fin n)} (hsort : (i :: order).Pairwise (Before t))
    (hmem : j ∈ i :: order) (hj : (t.descriptors j).process.state ≠ .dormant) :
    (t.descriptors i).process.state ≠ .dormant ∧
      (t.descriptors i).absoluteCriticalTime.toNano
        ≤ (t.descriptors j).absoluteCriticalTime.toNano := by
  rcases List.mem_cons.mp hmem with rfl | hrest
  · exact ⟨hj, Int.le_refl _⟩
  · rcases List.rel_of_pairwise_cons hsort hrest with hdormant | hbefore
    · exact absurd hdormant hj
    · exact hbefore

theorem attends_iff (t : Table n) (op : Op n) (u : Table n) (hsort : Sorts t op)
    (h : step attr t op = some u) : AttendsToPending attr t op ↔ HeadIsFar attr t op := by
  cases op with
  | pass order now wake clock =>
    obtain ⟨⟨-, hperm⟩, -⟩ := Option.ite_none_right_eq_some.mp h
    have hall : ∀ j, j ∈ order := fun j => hperm.mem_iff.mpr (List.mem_finRange j)
    cases order with
    | nil =>
      constructor
      · exact fun _ => trivial
      · intro _
        exact ⟨fun _ j => absurd (hall j) List.not_mem_nil,
          fun j => absurd (hall j) List.not_mem_nil⟩
    | cons i order =>
      constructor
      · intro hattends hstate hcap hnext
        have hidle : Idle attr t (i :: order) := Or.inr ⟨hcap, hnext⟩
        have hsleep := hattends.2 i hstate
        rwa [sleepUntil, if_pos hidle, toNano_addNano] at hsleep
      · intro hfar
        by_cases hidle : Idle attr t (i :: order)
        · -- of a head that is not dormant the branch says how it was taken
          have hhead : ∀ j, (t.descriptors j).process.state ≠ .dormant →
              now.toNano + nano ≤ (t.descriptors j).absoluteCriticalTime.toNano := by
            intro j hj
            obtain ⟨hi, hle⟩ := head_le hsort (hall j) hj
            obtain ⟨hcap, hnext⟩ := hidle.resolve_left hi
            exact Int.le_trans (hfar hi hcap hnext) hle
          constructor
          · intro _ j hj
            have hsecond : (0 : Int) < nano := by decide
            have hj := hhead j hj
            omega
          · intro j hj
            rw [sleepUntil, if_pos hidle, toNano_addNano]
            exact hhead j hj
        · constructor
          · exact fun h => absurd h hidle
          · intro j hj
            rw [sleepUntil, if_neg hidle]
            exact (head_le hsort (hall j) hj).2
  | setNormal | initScheduler _ | delayedStart _ _ _ | stop _ | thread _ _ | replenish _ _ _ =>
    exact Iff.rfl

end

/-- Over a run whose sorts do what they mean to, the scheduler attends to whatever
    is pending at every pass exactly if at every pass the head is far. -/
theorem attends_to_pending_iff (attr : Fin n → AcceptedAttributes) (ops : List (Op n))
    (hsort : Meets (step attr) Sorts (start n) ops) (t : Table n)
    (h : run (step attr) (start n) ops = some t) :
    Meets (step attr) (AttendsToPending attr) (start n) ops ↔
      Meets (step attr) (HeadIsFar attr) (start n) ops :=
  meets_iff attends_iff hsort h

/-- A process without a deadline, and one of finite capacity. -/
def monitorAndSampler : Fin 2 → AcceptedAttributes
  | 0 => ⟨⟨"monitor", false, 90, infiniteTimeValue, infiniteTimeValue, .soft⟩, by decide⟩
  | 1 => ⟨⟨"sampler", false, 90, 1000000000, 2000000000, .soft⟩, by decide⟩

/-- The clock at a second. -/
def clockAt (second : Int) : ClockTime where
  tvSec := second
  tvNsec := 0
  normalized := Timespec.normalized_second second

/-- A pass that finds the vector in the given order. -/
def passAt (order : List (Fin 2)) (second : Int) : Op 2 :=
  .pass order (clockAt second) (some (clockAt second)) fun _ => clockAt second

/-- The monitor runs. -/
def monitorRuns : List (Op 2) :=
  [.setNormal, .initScheduler fun _ => clockAt 9, .delayedStart 0 0 (clockAt 10),
    passAt [0, 1] 10, .thread 0 .take, .thread 0 .check, .thread 0 .enter]

/-- The sampler is started beside it, and its deadline is checked. -/
def bothRun : List (Op 2) :=
  monitorRuns ++ [passAt [0, 1] 11, .delayedStart 1 0 (clockAt 12), passAt [1, 0] 12,
    passAt [1, 0] 13]

theorem attends_to_pending_iff_bothRun :
    Meets (step monitorAndSampler) (AttendsToPending monitorAndSampler) (start 2) bothRun ↔
      Meets (step monitorAndSampler) (HeadIsFar monitorAndSampler) (start 2) bothRun :=
  attends_to_pending_iff monitorAndSampler bothRun (by decide)
    ((run (step monitorAndSampler) (start 2) bothRun).get (by decide)) (Option.some_get _).symm

/-- The monitor replenishes a budget of one second; then the sampler is started. -/
def monitorReplenishes : List (Op 2) :=
  monitorRuns ++ [.replenish 0 1000000000 (clockAt 11), .delayedStart 1 0 (clockAt 12)]

/-- The head is the monitor, due at second 12 as the sampler is; the pass finds
    nothing to do and sleeps until second 13. -/
theorem idles_on_pending :
    ∃ t, run (step monitorAndSampler) (start 2) monitorReplenishes = some t ∧
      Sorts t (passAt [0, 1] 12) ∧ (step monitorAndSampler t (passAt [0, 1] 12)).isSome ∧
      Idle monitorAndSampler t [0, 1] ∧
      (t.descriptors 1).process.state = .waitingOnPeriod ∧
      (t.descriptors 1).absoluteCriticalTime = ⟨12, 0⟩ ∧
      sleepUntil monitorAndSampler t (clockAt 12) [0, 1] = ⟨13, 0⟩ ∧
      ¬ AttendsToPending monitorAndSampler t (passAt [0, 1] 12) :=
  ⟨(run (step monitorAndSampler) (start 2) monitorReplenishes).get (by decide),
    (Option.some_get _).symm, by decide, by decide, by decide, by decide, by decide, by decide,
    by decide⟩

end Arinc.IdleBranch
