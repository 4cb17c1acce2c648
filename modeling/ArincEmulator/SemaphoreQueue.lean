import ArincEmulator.Semaphore
import ArincEmulator.Lib.CondVar

/- A `SEMAPHORE` together with the condition its waiters sleep on. What runs
   between two sleeps of a wait runs under the mutex, so a wait is a sequence of
   turns: the first pass through the loop test, one more after every wake-up,
   and the return with `TIMED_OUT`. `post` signals after it has released the
   mutex, so the signal is a step of its own. -/
namespace Arinc

/-- `SEMAPHORE` with its `condition`. -/
structure SemaphoreQueue (T : Type*) where
  sem : Semaphore
  condition : CondVar T

/-- Why the thread of a wait runs: it has just called, it was woken, or its
    timed sleep is over. -/
inductive Turn where
  | enter
  | resume
  | expire
  deriving DecidableEq, Repr

namespace SemaphoreQueue

variable {T : Type*} [DecidableEq T]

/-- The loop test of a wait and what follows it up to the next sleep: a token and
    `NO_ERROR`, or the sleep. -/
def attempt (q : SemaphoreQueue T) (t : T) : SemaphoreQueue T × Option ReturnCode :=
  match q.sem.wait with
  | some s => (⟨s, q.condition.leave t⟩, some .noError)
  | none => (⟨q.sem, q.condition.sleep t⟩, none)

/-- One turn of a wait, with the code it returns unless it sleeps (again). The
    loop breaks on `ETIMEDOUT` without another look at the counter. -/
def turn (q : SemaphoreQueue T) (t : T) : Turn → Option (SemaphoreQueue T × Option ReturnCode)
  | .enter => if q.condition.Waits t then none else some (q.attempt t)
  | .resume => if t ∈ q.condition.signalled then some (q.attempt t) else none
  | .expire =>
    if t ∈ q.condition.asleep then some (⟨q.sem, q.condition.leave t⟩, some .timedOut) else none

/-- `SEMAPHORE::post` up to its signal. -/
def post (q : SemaphoreQueue T) : SemaphoreQueue T × ReturnCode :=
  (⟨q.sem.post.1, q.condition⟩, q.sem.post.2)

/-- The signal of a `post`. -/
def signal (q : SemaphoreQueue T) (target : Option T) : Option (SemaphoreQueue T) :=
  (q.condition.signal target).map fun v => ⟨q.sem, v⟩

/-- A wake-up without a signal. -/
def spurious (q : SemaphoreQueue T) (t : T) : Option (SemaphoreQueue T) :=
  if t ∈ q.condition.asleep then some ⟨q.sem, q.condition.awaken t⟩ else none

/-! ## What a turn can do -/

theorem attempt_cases (q : SemaphoreQueue T) (t : T) :
    (q.sem.counter ≠ 0 ∧
      q.attempt t = (⟨{ q.sem with counter := q.sem.counter - 1 }, q.condition.leave t⟩,
        some .noError)) ∨
    (q.sem.counter = 0 ∧ q.attempt t = (⟨q.sem, q.condition.sleep t⟩, none)) := by
  unfold attempt
  by_cases hc : q.sem.counter = 0
  · have hw : q.sem.wait = none := by simp [Semaphore.wait, hc]
    exact Or.inr ⟨hc, by rw [hw]⟩
  · have hw : q.sem.wait = some { q.sem with counter := q.sem.counter - 1 } := by
      simp [Semaphore.wait, hc]
    exact Or.inl ⟨hc, by rw [hw]⟩

theorem turn_cases {q q' : SemaphoreQueue T} {t : T} {turn : Turn} {code : Option ReturnCode}
    (h : q.turn t turn = some (q', code)) :
    (code = some .noError ∧ q.sem.counter ≠ 0 ∧
      (t ∈ q.condition.signalled ∨ ¬ q.condition.Waits t) ∧
      q' = ⟨{ q.sem with counter := q.sem.counter - 1 }, q.condition.leave t⟩) ∨
    (code = none ∧ q.sem.counter = 0 ∧ q' = ⟨q.sem, q.condition.sleep t⟩) ∨
    (code = some .timedOut ∧ turn = .expire ∧ t ∈ q.condition.asleep ∧
      q' = ⟨q.sem, q.condition.leave t⟩) := by
  -- the first turn and a turn after a wake-up run the same test
  have hattempt (hin : t ∈ q.condition.signalled ∨ ¬ q.condition.Waits t)
      (ha : q.attempt t = (q', code)) :
      (code = some .noError ∧ q.sem.counter ≠ 0 ∧
        (t ∈ q.condition.signalled ∨ ¬ q.condition.Waits t) ∧
        q' = ⟨{ q.sem with counter := q.sem.counter - 1 }, q.condition.leave t⟩) ∨
      (code = none ∧ q.sem.counter = 0 ∧ q' = ⟨q.sem, q.condition.sleep t⟩) := by
    obtain ⟨hc, heq⟩ | ⟨hc, heq⟩ := q.attempt_cases t
    · obtain ⟨rfl, rfl⟩ := Prod.mk.inj (ha.symm.trans heq)
      exact Or.inl ⟨rfl, hc, hin, rfl⟩
    · obtain ⟨rfl, rfl⟩ := Prod.mk.inj (ha.symm.trans heq)
      exact Or.inr ⟨rfl, hc, rfl⟩
  cases turn with
  | enter =>
    simp only [SemaphoreQueue.turn, Option.ite_none_left_eq_some, Option.some.injEq] at h
    exact (hattempt (Or.inr h.1) h.2).imp id Or.inl
  | resume =>
    simp only [SemaphoreQueue.turn, Option.ite_none_right_eq_some, Option.some.injEq] at h
    exact (hattempt (Or.inl h.1) h.2).imp id Or.inl
  | expire =>
    simp only [SemaphoreQueue.turn, Option.ite_none_right_eq_some, Option.some.injEq,
      Prod.mk.injEq] at h
    obtain ⟨ht, rfl, rfl⟩ := h
    exact Or.inr (Or.inr ⟨rfl, rfl, ht, rfl⟩)

theorem turn_waits {q q' : SemaphoreQueue T} {t u : T} {why : Turn} {code : Option ReturnCode}
    (h : q.turn t why = some (q', code)) (hu : q'.condition.Waits u) :
    (u ≠ t ∧ q.condition.Waits u) ∨ (u = t ∧ code = none) := by
  obtain ⟨-, -, -, rfl⟩ | ⟨hcode, -, rfl⟩ | ⟨-, -, -, rfl⟩ := turn_cases h
  · exact Or.inl (CondVar.waits_leave.mp hu)
  · by_cases hut : u = t
    · exact Or.inr ⟨hut, hcode⟩
    · exact Or.inl ⟨hut, (CondVar.waits_sleep.mp hu).resolve_left hut⟩
  · exact Or.inl (CondVar.waits_leave.mp hu)

theorem signal_waits {q q' : SemaphoreQueue T} {target : Option T} {u : T}
    (h : q.signal target = some q') (hu : q'.condition.Waits u) : q.condition.Waits u := by
  obtain ⟨v, hv, rfl⟩ := Option.map_eq_some_iff.mp h
  exact (CondVar.waits_signal hv).mp hu

theorem spurious_waits {q q' : SemaphoreQueue T} {t u : T} (h : q.spurious t = some q')
    (hu : q'.condition.Waits u) : q.condition.Waits u := by
  simp only [spurious, Option.ite_none_right_eq_some, Option.some.injEq] at h
  obtain ⟨ht, rfl⟩ := h
  exact (CondVar.waits_awaken ht).mp hu

theorem signal_sem {q q' : SemaphoreQueue T} {target : Option T}
    (h : q.signal target = some q') : q'.sem = q.sem := by
  obtain ⟨v, -, rfl⟩ := Option.map_eq_some_iff.mp h
  rfl

theorem spurious_sem {q q' : SemaphoreQueue T} {t : T} (h : q.spurious t = some q') :
    q'.sem = q.sem := by
  simp only [spurious, Option.ite_none_right_eq_some, Option.some.injEq] at h
  rw [← h.2]

/-! ## Lost wake-ups -/

section
variable {q q' : SemaphoreQueue T} {t : T} {owed : Int}

/-- Every token of the semaphore has a woken thread or an owed signal. -/
def Covered (q : SemaphoreQueue T) (owed : Int) : Prop :=
  q.condition.Covered q.sem.counter owed

theorem turn_covered {why : Turn} {code : Option ReturnCode} (hq : q.Covered owed)
    (ho : 0 ≤ owed) (h : q.turn t why = some (q', code)) : q'.Covered owed := by
  obtain ⟨-, -, hin, rfl⟩ | ⟨-, hc, rfl⟩ | ⟨-, -, ht, rfl⟩ := turn_cases h
  · obtain ht | ht := hin
    · exact CondVar.Covered.leave_signalled hq ht
    · show (q.condition.leave t).Covered (q.sem.counter - 1) owed
      rw [CondVar.leave_of_not_waits ht]
      exact CondVar.Covered.mono hq (by omega)
  · exact CondVar.covered_of_nonpos hc.le ho
  · exact CondVar.Covered.leave_asleep hq ht

theorem spurious_covered (hq : q.Covered owed) (h : q.spurious t = some q') :
    q'.Covered owed := by
  simp only [spurious, Option.ite_none_right_eq_some, Option.some.injEq] at h
  obtain ⟨ht, rfl⟩ := h
  exact CondVar.Covered.awaken hq ht

theorem signal_covered {target : Option T} (hq : q.Covered owed) (ho : 1 ≤ owed)
    (h : q.signal target = some q') : q'.Covered (owed - 1) := by
  obtain ⟨v, hv, rfl⟩ := Option.map_eq_some_iff.mp h
  exact CondVar.Covered.signal hq ho hv

omit [DecidableEq T] in
/-- A `post` that succeeds owes one signal, one that fails owes none. -/
theorem post_covered (hq : q.Covered owed) :
    (q.post.2 = .noError ∧ q.post.1.Covered (owed + 1)) ∨
      (q.post.2 = .notAvailable ∧ q.post.1 = q) := by
  by_cases hlt : q.sem.counter < q.sem.maximumvalue
  · left
    have hpost := Semaphore.post_of_lt hlt
    refine ⟨congrArg Prod.snd hpost, ?_⟩
    show q.condition.Covered q.sem.post.1.counter (owed + 1)
    rw [hpost]
    exact CondVar.Covered.owe_one hq
  · right
    have hpost : q.sem.post = (q.sem, .notAvailable) := if_pos (Int.not_lt.mp hlt)
    refine ⟨congrArg Prod.snd hpost, ?_⟩
    show (⟨q.sem.post.1, q.condition⟩ : SemaphoreQueue T) = q
    rw [hpost]

end

end SemaphoreQueue

end Arinc
