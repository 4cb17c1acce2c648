import ArincEmulator.Types

/- The time helpers over `struct timespec`: adding a duration, deadlines and
   comparison. Sums go through seconds and nanoseconds with truncating division;
   read as nanoseconds they are plain addition (`toNano_addNano`), and on
   normalised times comparison is `≤` (`compareTime_iff`). -/
namespace Arinc

/-- `SYSTEM_TIMESPEC`. -/
structure Timespec where
  tvSec : Int
  tvNsec : Int
  deriving DecidableEq, Repr

namespace Timespec

/-- The time in nanoseconds. -/
def toNano (t : Timespec) : Int := t.tvSec * nano + t.tvNsec

/-- What a clock returns: the nanoseconds are a proper fraction of a second. -/
def Normalized (t : Timespec) : Prop := 0 ≤ t.tvNsec ∧ t.tvNsec < nano

instance (t : Timespec) : Decidable t.Normalized := inferInstanceAs (Decidable (_ ∧ _))

theorem normalized_second (second : Int) : Normalized ⟨second, 0⟩ := by
  simp only [Normalized, nano]
  omega

end Timespec

/-- What `currentTime` returns. -/
structure ClockTime extends Timespec where
  normalized : toTimespec.Normalized

/-- The sum `addTimeNano` computes. -/
def addNano (first : Timespec) (nanoseconds : Int) : Timespec :=
  let nsecs := first.tvNsec + nanoseconds
  ⟨nsecs.tdiv nano + first.tvSec, nsecs.tmod nano⟩

/-- `addTimeNano`: its assertion ends the program above `MAX_TIME_OUT`, and the
    infinite time counts as `MAX_TIME_OUT`. -/
def addTimeNano (first : Timespec) (nanoseconds : Int) : Option Timespec :=
  if maxTimeOut < nanoseconds then none
  else if nanoseconds = infiniteTimeValue then some (addNano first maxTimeOut)
  else some (addNano first nanoseconds)

/-- `computeDeadlineTimeSpecs`: the same sum under an assertion of its own. -/
def computeDeadlineTimeSpecs (first : Timespec) (nanoseconds : Int) : Option Timespec :=
  if maxTimeOut < nanoseconds then none
  else if nanoseconds = infiniteTimeValue then addTimeNano first maxTimeOut
  else addTimeNano first nanoseconds

/-- `compareTime`: the first is no later than the second. -/
def compareTime (first second : Timespec) : Bool :=
  if first.tvSec < second.tvSec then true
  else if first.tvSec > second.tvSec then false
  else decide (first.tvNsec ≤ second.tvNsec)

theorem toNano_addNano (t : Timespec) (n : Int) : (addNano t n).toNano = t.toNano + n := by
  have h := Int.mul_tdiv_add_tmod (t.tvNsec + n) nano
  rw [Int.mul_comm] at h
  simp only [addNano, Timespec.toNano, Int.add_mul]
  omega

theorem normalized_addNano {t : Timespec} (ht : t.Normalized) {n : Int} (hn : 0 ≤ n) :
    (addNano t n).Normalized := by
  have hsum : 0 ≤ t.tvNsec + n := Int.add_nonneg ht.1 hn
  exact ⟨Int.tmod_nonneg _ hsum, Int.tmod_lt_of_pos _ (by decide)⟩

theorem addTimeNano_of_nonneg {n : Int} (h0 : 0 ≤ n) (hmax : n ≤ maxTimeOut) (t : Timespec) :
    addTimeNano t n = some (addNano t n) := by
  have hinf : n ≠ infiniteTimeValue := by
    unfold infiniteTimeValue
    omega
  simp only [addTimeNano, if_neg (Int.not_lt.mpr hmax), if_neg hinf]

/-- A duration that is not negative is added as it is, the infinite one as
    `MAX_TIME_OUT`. -/
theorem addTimeNano_cases {t u : Timespec} {n : Int} (h : addTimeNano t n = some u) :
    ∃ m, u = addNano t m ∧ m ≤ maxTimeOut ∧ n ≤ m ∧ (0 ≤ n → m = n) := by
  unfold addTimeNano at h
  split at h
  · simp at h
  · rename_i hmax
    split at h
    · rename_i hinf
      refine ⟨maxTimeOut, (Option.some.inj h).symm, Int.le_refl _, Int.not_lt.mp hmax, ?_⟩
      intro h0
      rw [hinf] at h0
      exact absurd h0 (by decide)
    · exact ⟨n, (Option.some.inj h).symm, Int.not_lt.mp hmax, Int.le_refl _, fun _ => rfl⟩

theorem addTimeNano_of_le {n : Int} (hmax : n ≤ maxTimeOut) (t : Timespec) :
    ∃ u, addTimeNano t n = some u := by
  unfold addTimeNano
  rw [if_neg (Int.not_lt.mpr hmax)]
  split
  · exact ⟨_, rfl⟩
  · exact ⟨_, rfl⟩

theorem computeDeadlineTimeSpecs_eq (t : Timespec) (n : Int) :
    computeDeadlineTimeSpecs t n = addTimeNano t n := by
  unfold computeDeadlineTimeSpecs
  split
  · rename_i hmax
    rw [addTimeNano, if_pos hmax]
  · split
    · rename_i hinf
      rw [hinf]
      rfl
    · rfl

theorem addNano_tvNsec_lt (t : Timespec) (n : Int) : (addNano t n).tvNsec < nano :=
  Int.tmod_lt_of_pos _ (by decide)

/-- What `compareTime` refuses is earlier, also where the second time is the sum
    with a negative duration, whose nanoseconds may be negative. -/
theorem lt_of_compareTime_false {s t : Timespec} (hs : s.Normalized) (ht : t.tvNsec < nano)
    (h : compareTime s t = false) : t.toNano < s.toNano := by
  obtain ⟨hs0, -⟩ := hs
  simp only [nano] at ht
  simp only [compareTime] at h
  simp only [Timespec.toNano, nano]
  split at h
  · simp at h
  · split at h
    · omega
    · simp only [decide_eq_false_iff_not] at h
      omega

/-- What `compareTime` accepts is no later, also where the first time has negative
    nanoseconds. -/
theorem toNano_le_of_compareTime {s t : Timespec} (hs : s.tvNsec < nano) (ht : t.Normalized)
    (h : compareTime s t = true) : s.toNano ≤ t.toNano := by
  obtain ⟨ht0, -⟩ := ht
  simp only [nano] at hs
  simp only [compareTime] at h
  simp only [Timespec.toNano, nano]
  split at h
  · omega
  · split at h
    · simp at h
    · simp only [decide_eq_true_eq] at h
      omega

theorem compareTime_iff {s t : Timespec} (hs : s.Normalized) (ht : t.Normalized) :
    compareTime s t = true ↔ s.toNano ≤ t.toNano := by
  obtain ⟨hs0, hs1⟩ := hs
  obtain ⟨ht0, ht1⟩ := ht
  simp only [nano] at hs1 ht1
  simp only [compareTime, Timespec.toNano, nano]
  split
  · simp only [true_iff]
    omega
  · split
    · simp only [Bool.false_eq_true, false_iff]
      omega
    · simp only [decide_eq_true_eq]
      omega

end Arinc
