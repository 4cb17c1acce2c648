import Mathlib.Data.Finset.Card
import Mathlib.Tactic.Push

/- A condition variable of any threads: the threads asleep on it, and those a
   signal or a broadcast has taken out of their sleep and that have not run
   since. The two sets are disjoint by construction. Which sleeper a signal
   takes is left open, so `signal` is told.

   The second half is the arithmetic of lost wake-ups. A monitor hands out
   permits and owes signals for them; `Covered permits owed` says that no
   sleeper is left behind: every permit has a woken thread or an owed signal to
   answer it, or the owed signals wake every sleeper. Each thing a monitor does
   has one rule here, and a covered monitor that owes nothing and has no woken
   thread strands nobody (`Covered.not_stranded`). -/
namespace Arinc

/-- A condition variable. -/
structure CondVar (T : Type*) where
  asleep : Finset T
  signalled : Finset T
  apart : Disjoint asleep signalled

namespace CondVar

variable {T : Type*}

@[ext] theorem ext {v w : CondVar T} (ha : v.asleep = w.asleep)
    (hs : v.signalled = w.signalled) : v = w := by
  cases v
  cases w
  simp only at ha hs
  subst ha hs
  rfl

/-- Nobody waits. -/
def empty : CondVar T := ⟨∅, ∅, Finset.disjoint_empty_left ∅⟩

/-- The thread is inside a wait on the variable. -/
def Waits (v : CondVar T) (t : T) : Prop := t ∈ v.asleep ∨ t ∈ v.signalled

variable [DecidableEq T]

instance (v : CondVar T) (t : T) : Decidable (v.Waits t) :=
  inferInstanceAs (Decidable (_ ∨ _))

/-- The thread goes to sleep, for the first time or again. -/
def sleep (v : CondVar T) (t : T) : CondVar T where
  asleep := insert t v.asleep
  signalled := v.signalled.erase t
  apart := by
    rw [Finset.disjoint_insert_left]
    exact ⟨Finset.notMem_erase t _,
      Finset.disjoint_of_subset_right (Finset.erase_subset t _) v.apart⟩

/-- The thread leaves the variable. -/
def leave (v : CondVar T) (t : T) : CondVar T where
  asleep := v.asleep.erase t
  signalled := v.signalled.erase t
  apart := Finset.disjoint_of_subset_left (Finset.erase_subset t _)
    (Finset.disjoint_of_subset_right (Finset.erase_subset t _) v.apart)

/-- A sleeper is taken out of its sleep. -/
def awaken (v : CondVar T) (t : T) : CondVar T where
  asleep := v.asleep.erase t
  signalled := insert t v.signalled
  apart := by
    rw [Finset.disjoint_insert_right]
    exact ⟨Finset.notMem_erase t _,
      Finset.disjoint_of_subset_left (Finset.erase_subset t _) v.apart⟩

/-- `pthread_cond_signal`: takes the sleeper it is told, and does nothing when
    there is none. -/
def signal (v : CondVar T) : Option T → Option (CondVar T)
  | none => if v.asleep = ∅ then some v else none
  | some t => if t ∈ v.asleep then some (v.awaken t) else none

/-- `pthread_cond_broadcast`. -/
def broadcast (v : CondVar T) : CondVar T where
  asleep := ∅
  signalled := v.signalled ∪ v.asleep
  apart := Finset.disjoint_empty_left _

theorem signal_cases {v w : CondVar T} {target : Option T} (h : v.signal target = some w) :
    (v.asleep = ∅ ∧ w = v) ∨ ∃ t ∈ v.asleep, target = some t ∧ w = v.awaken t := by
  cases target with
  | none =>
    simp only [signal, Option.ite_none_right_eq_some, Option.some.injEq] at h
    exact Or.inl ⟨h.1, h.2.symm⟩
  | some t =>
    simp only [signal, Option.ite_none_right_eq_some, Option.some.injEq] at h
    exact Or.inr ⟨t, h.1, rfl, h.2.symm⟩

@[simp] theorem waits_sleep {v : CondVar T} {t u : T} :
    (v.sleep t).Waits u ↔ u = t ∨ v.Waits u := by
  by_cases h : u = t
  · simp [Waits, sleep, h]
  · simp [Waits, sleep, h]

@[simp] theorem waits_leave {v : CondVar T} {t u : T} :
    (v.leave t).Waits u ↔ u ≠ t ∧ v.Waits u := by
  simp only [Waits, leave, Finset.mem_erase, and_or_left]

theorem waits_awaken {v : CondVar T} {t u : T} (ht : t ∈ v.asleep) :
    (v.awaken t).Waits u ↔ v.Waits u := by
  by_cases h : u = t
  · simp [Waits, awaken, h, ht]
  · simp [Waits, awaken, h]

@[simp] theorem waits_broadcast {v : CondVar T} {u : T} : v.broadcast.Waits u ↔ v.Waits u := by
  simp [Waits, broadcast, or_comm]

theorem waits_signal {v w : CondVar T} {target : Option T} (h : v.signal target = some w)
    {u : T} : w.Waits u ↔ v.Waits u := by
  obtain ⟨-, rfl⟩ | ⟨t, ht, -, rfl⟩ := signal_cases h
  · rfl
  · exact waits_awaken ht

theorem leave_of_not_waits {v : CondVar T} {t : T} (h : ¬ v.Waits t) : v.leave t = v :=
  ext (Finset.erase_eq_of_notMem fun ht => h (Or.inl ht))
    (Finset.erase_eq_of_notMem fun ht => h (Or.inr ht))

/-! ## Permits, owed signals and sleepers -/

/-- Every permit is answered by a thread already taken out of its sleep or by a
    signal still owed, or the signals owed are enough for every sleeper. -/
def Covered (v : CondVar T) (permits owed : Int) : Prop :=
  permits ≤ v.signalled.card + owed ∨ v.asleep.card ≤ owed

instance (v : CondVar T) (permits owed : Int) : Decidable (v.Covered permits owed) :=
  inferInstanceAs (Decidable (_ ∨ _))

section
variable {v w : CondVar T} {t : T} {permits owed : Int}

omit [DecidableEq T] in
theorem covered_of_asleep_eq_empty (h : v.asleep = ∅) (ho : 0 ≤ owed) :
    v.Covered permits owed := by
  right
  rw [h, Finset.card_empty]
  exact ho

omit [DecidableEq T] in
theorem Covered.mono {fewer : Int} (h : v.Covered permits owed) (hle : fewer ≤ permits) :
    v.Covered fewer owed := by
  obtain h | h := h
  · exact Or.inl (hle.trans h)
  · exact Or.inr h

omit [DecidableEq T] in
theorem Covered.owe_one (h : v.Covered permits owed) : v.Covered (permits + 1) (owed + 1) := by
  obtain h | h := h
  · left
    omega
  · right
    omega

theorem card_asleep_leave_le (v : CondVar T) (t : T) :
    ((v.leave t).asleep.card : Int) ≤ v.asleep.card :=
  Int.ofNat_le.mpr (Finset.card_le_card (Finset.erase_subset t _))

theorem Covered.leave_asleep (h : v.Covered permits owed) (ht : t ∈ v.asleep) :
    (v.leave t).Covered permits owed := by
  have hs : (v.leave t).signalled = v.signalled :=
    Finset.erase_eq_of_notMem (Finset.disjoint_left.mp v.apart ht)
  obtain h | h := h
  · left
    rw [hs]
    exact h
  · right
    exact (v.card_asleep_leave_le t).trans h

theorem Covered.leave_signalled (h : v.Covered permits owed) (ht : t ∈ v.signalled) :
    (v.leave t).Covered (permits - 1) owed := by
  have hs : (v.leave t).signalled.card + 1 = v.signalled.card := Finset.card_erase_add_one ht
  obtain h | h := h
  · left
    omega
  · right
    exact (v.card_asleep_leave_le t).trans h

omit [DecidableEq T] in
theorem covered_of_nonpos (hp : permits ≤ 0) (ho : 0 ≤ owed) : v.Covered permits owed := by
  left
  omega

theorem card_awaken (ht : t ∈ v.asleep) :
    (v.awaken t).asleep.card + 1 = v.asleep.card ∧
      (v.awaken t).signalled.card = v.signalled.card + 1 :=
  ⟨Finset.card_erase_add_one ht,
    Finset.card_insert_of_notMem (Finset.disjoint_left.mp v.apart ht)⟩

theorem Covered.awaken (h : v.Covered permits owed) (ht : t ∈ v.asleep) :
    (v.awaken t).Covered permits owed := by
  obtain ⟨ha, hs⟩ := card_awaken ht
  obtain h | h := h
  · left
    omega
  · right
    omega

theorem Covered.signal {target : Option T} (h : v.Covered permits owed) (ho : 1 ≤ owed)
    (hw : v.signal target = some w) : w.Covered permits (owed - 1) := by
  obtain ⟨hnone, rfl⟩ | ⟨t, ht, -, rfl⟩ := signal_cases hw
  · exact covered_of_asleep_eq_empty hnone (by omega)
  · obtain ⟨ha, hs⟩ := card_awaken ht
    obtain h | h := h
    · left
      omega
    · right
      omega

omit [DecidableEq T] in
/-- With no woken thread and no owed signal, a permit means no sleeper. -/
theorem Covered.not_stranded (h : v.Covered permits 0) (hs : v.signalled = ∅)
    (hp : 0 < permits) : v.asleep = ∅ := by
  obtain h | h := h
  · simp only [hs, Finset.card_empty] at h
    omega
  · exact Finset.card_eq_zero.mp (by omega)

end

end CondVar

end Arinc
