import ArincEmulator.Lib.Checked
import ArincEmulator.Timer

/- The time helpers on 64-bit integers. Seconds and nanoseconds are added and
   subtracted apart, and each helper carries or borrows in a way of its own, by a
   division or by a loop. A result here is `none` where an operation overflows or an
   assertion ends the program.

   What is proved: on normalised times all of them compute in nanoseconds, with the
   normalised time of the sum or the difference as their result (`addTime_eq`,
   `addTimeNano_eq`, `subtractTime_eq`, `subtractTimeNano_eq`), and what follows from
   that for the helpers together (`time_arithmetic`). -/
namespace Arinc.TimeArithmetic
open Checked
open Timer (compareTimeLess)
open Registry (compareTime_iff_lexTime)

/-- `convertTimeSpecToNano`. -/
def convertTimeSpecToNano (tv : Timespec) : Option Int :=
  (fit 64 (tv.tvSec * nano)).bind fun seconds => fit 64 (seconds + tv.tvNsec)

/-- The loop of `addTime`. -/
def addTimeLoop (secs nsecs : Int) : Option Timespec :=
  if nano ≤ nsecs then
    if Fits 64 (secs + 1) ∧ Fits 64 (nsecs - nano) then addTimeLoop (secs + 1) (nsecs - nano)
    else none
  else some ⟨secs, nsecs⟩
termination_by nsecs.toNat
decreasing_by
  simp only [nano] at *
  omega

/-- `addTime`. -/
def addTime (first second : Timespec) : Option Timespec :=
  (fit 64 (first.tvNsec + second.tvNsec)).bind fun nsecs =>
    (fit 64 (first.tvSec + second.tvSec)).bind fun secs => addTimeLoop secs nsecs

/-- The sum in both branches of `addTimeNano`. -/
def addNano (first : Timespec) (nanoseconds : Int) : Option Timespec :=
  (fit 64 (first.tvNsec + nanoseconds)).bind fun nsecs =>
    (fit 64 (nsecs.tdiv nano + first.tvSec)).map fun secs => ⟨secs, nsecs.tmod nano⟩

/-- `addTimeNano`. -/
def addTimeNano (first : Timespec) (nanoseconds : Int) : Option Timespec :=
  if maxTimeOut < nanoseconds then none
  else if nanoseconds = infiniteTimeValue then addNano first maxTimeOut
  else addNano first nanoseconds

/-- The loop of `subtractTime` and of `subtractTimeNano`. -/
def subtractTimeLoop (secs nsecs : Int) : Option Timespec :=
  if nsecs < 0 then
    if Fits 64 (secs - 1) ∧ Fits 64 (nsecs + nano) then subtractTimeLoop (secs - 1) (nsecs + nano)
    else none
  else some ⟨secs, nsecs⟩
termination_by (-nsecs).toNat
decreasing_by
  simp only [nano] at *
  omega

/-- `subtractTime`. -/
def subtractTime (first second : Timespec) : Option Timespec :=
  (fit 64 (first.tvNsec - second.tvNsec)).bind fun nsecs =>
    (fit 64 (first.tvSec - second.tvSec)).bind fun secs => subtractTimeLoop secs nsecs

/-- `subtractTime2`. -/
def subtractTime2 (first second : Timespec) : Option Int :=
  (subtractTime first second).bind fun tv =>
    (fit 64 (tv.tvSec * nano)).bind fun seconds => fit 64 (tv.tvNsec + seconds)

/-- `subtractTimeNano`. -/
def subtractTimeNano (first : Timespec) (nanoseconds : Int) : Option Timespec :=
  if maxTimeOut < nanoseconds then none
  else (fit 64 (first.tvNsec - nanoseconds)).bind fun nsecs => subtractTimeLoop first.tvSec nsecs

/-! ## Times and nanoseconds -/

/-- The normalised time of a number of nanoseconds. -/
def ofNano (x : Int) : Timespec := ⟨x / nano, x % nano⟩

theorem toNano_ofNano (x : Int) : (ofNano x).toNano = x := by
  simp only [ofNano, Timespec.toNano, nano]
  omega

theorem normalized_ofNano (x : Int) : (ofNano x).Normalized := by
  simp only [ofNano, Timespec.Normalized, nano]
  omega

theorem ofNano_toNano {t : Timespec} (ht : t.Normalized) : ofNano t.toNano = t := by
  obtain ⟨h0, h1⟩ := ht
  simp only [nano] at h1
  simp only [ofNano, Timespec.toNano, nano]
  congr 1
  · omega
  · omega

/-- A normalised time with a number of seconds far from the bounds of a word. -/
structure Moderate (t : Timespec) : Prop where
  normalized : t.Normalized
  lower : -2 ^ 40 ≤ t.tvSec
  upper : t.tvSec < 2 ^ 40

theorem moderate_ofNano {x : Int} (hlower : -2 ^ 40 * nano ≤ x) (hupper : x < 2 ^ 40 * nano) :
    Moderate (ofNano x) := by
  refine ⟨normalized_ofNano x, ?_, ?_⟩
  · simp only [ofNano, nano] at *
    omega
  · simp only [ofNano, nano] at *
    omega

/-- The conversion is right where the nanoseconds fit into a word with a second to
    spare. -/
theorem convertTimeSpecToNano_eq {t : Timespec} (ht : t.Normalized)
    (hlower : -2 ^ 63 + nano ≤ t.toNano) (hupper : t.toNano < 2 ^ 63) :
    convertTimeSpecToNano t = some t.toNano := by
  obtain ⟨h0, h1⟩ := ht
  unfold Timespec.toNano at *
  have hseconds : Fits 64 (t.tvSec * nano) := fits_64_iff.mpr (by omega)
  have hsum : Fits 64 (t.tvSec * nano + t.tvNsec) := fits_64_iff.mpr (by omega)
  rw [convertTimeSpecToNano, fit_of_fits hseconds, Option.bind_some, fit_of_fits hsum]

/-! ## Carries -/

/-- The loop carries one second at a time until less than a second is left. -/
theorem addTimeLoop_eq {secs nsecs : Int} (h0 : 0 ≤ nsecs) (hnsecs : Fits 64 nsecs)
    (hsecs : Fits 64 secs) (hresult : Fits 64 (secs + nsecs / nano)) :
    addTimeLoop secs nsecs = some (ofNano (secs * nano + nsecs)) := by
  induction secs, nsecs using addTimeLoop.induct with
  | case1 secs nsecs hcarry hfits ih =>
    rw [addTimeLoop, if_pos hcarry, if_pos hfits, ih (by omega) hfits.2 hfits.1]
    · congr 2
      rw [Int.add_mul]
      omega
    · refine (congrArg (Fits 64) ?_).mp hresult
      simp only [nano] at *
      omega
  | case2 secs nsecs hcarry hover =>
    refine absurd ⟨hsecs.between hresult (by omega) ?_, ?_⟩ hover
    · simp only [nano] at *
      omega
    · simp only [fits_64_iff, nano] at *
      omega
  | case3 secs nsecs hcarry =>
    rw [addTimeLoop, if_neg hcarry, ← ofNano_toNano (t := ⟨secs, nsecs⟩) ⟨h0, Int.not_le.mp hcarry⟩]
    rfl

/-- The loop borrows one second at a time until the nanoseconds are not negative. -/
theorem subtractTimeLoop_eq {secs nsecs : Int} (h1 : nsecs < nano) (hnsecs : Fits 64 nsecs)
    (hsecs : Fits 64 secs) (hresult : Fits 64 (secs + nsecs / nano)) :
    subtractTimeLoop secs nsecs = some (ofNano (secs * nano + nsecs)) := by
  induction secs, nsecs using subtractTimeLoop.induct with
  | case1 secs nsecs hborrow hfits ih =>
    rw [subtractTimeLoop, if_pos hborrow, if_pos hfits, ih (by omega) hfits.2 hfits.1]
    · congr 2
      rw [Int.sub_mul]
      omega
    · refine (congrArg (Fits 64) ?_).mp hresult
      simp only [nano] at *
      omega
  | case2 secs nsecs hborrow hover =>
    refine absurd ⟨hresult.between hsecs ?_ (by omega), ?_⟩ hover
    · simp only [nano] at *
      omega
    · simp only [fits_64_iff, nano] at *
      omega
  | case3 secs nsecs hborrow =>
    rw [subtractTimeLoop, if_neg hborrow, ← ofNano_toNano (t := ⟨secs, nsecs⟩) ⟨Int.not_lt.mp hborrow, h1⟩]
    rfl

/-! ## Sums and differences -/

theorem addTime_eq {a b : Timespec} (ha : Moderate a) (hb : Moderate b) :
    addTime a b = some (ofNano (a.toNano + b.toNano)) := by
  obtain ⟨⟨ha0, ha1⟩, halower, haupper⟩ := ha
  obtain ⟨⟨hb0, hb1⟩, hblower, hbupper⟩ := hb
  simp only [nano] at ha1 hb1
  have hnsecs : Fits 64 (a.tvNsec + b.tvNsec) := fits_64_iff.mpr (by omega)
  have hsecs : Fits 64 (a.tvSec + b.tvSec) := fits_64_iff.mpr (by omega)
  rw [addTime, fit_of_fits hnsecs, Option.bind_some, fit_of_fits hsecs, Option.bind_some,
    addTimeLoop_eq (by omega) hnsecs hsecs (by simp only [fits_64_iff, nano]; omega)]
  congr 2
  simp only [Timespec.toNano, nano]
  omega

theorem subtractTime_eq {a b : Timespec} (ha : Moderate a) (hb : Moderate b) :
    subtractTime a b = some (ofNano (a.toNano - b.toNano)) := by
  obtain ⟨⟨ha0, ha1⟩, halower, haupper⟩ := ha
  obtain ⟨⟨hb0, hb1⟩, hblower, hbupper⟩ := hb
  simp only [nano] at ha1 hb1
  have hnsecs : Fits 64 (a.tvNsec - b.tvNsec) := fits_64_iff.mpr (by omega)
  have hsecs : Fits 64 (a.tvSec - b.tvSec) := fits_64_iff.mpr (by omega)
  rw [subtractTime, fit_of_fits hnsecs, Option.bind_some, fit_of_fits hsecs, Option.bind_some,
    subtractTimeLoop_eq (by simp only [nano]; omega) hnsecs hsecs
      (by simp only [fits_64_iff, nano]; omega)]
  congr 2
  simp only [Timespec.toNano, nano]
  omega

theorem addNano_eq {t : Timespec} (ht : Moderate t) {n : Int} (h0 : 0 ≤ n) (hmax : n ≤ maxTimeOut) :
    addNano t n = some (ofNano (t.toNano + n)) := by
  obtain ⟨⟨ht0, ht1⟩, htlower, htupper⟩ := ht
  simp only [maxTimeOut, nano] at ht1 hmax
  have hsum : 0 ≤ t.tvNsec + n := by omega
  have hnsecs : Fits 64 (t.tvNsec + n) := fits_64_iff.mpr (by omega)
  have hsecs : Fits 64 ((t.tvNsec + n).tdiv nano + t.tvSec) := by
    rw [Int.tdiv_eq_ediv_of_nonneg hsum]
    simp only [fits_64_iff, nano]
    omega
  rw [addNano, fit_of_fits hnsecs, Option.bind_some, fit_of_fits hsecs, Option.map_some,
    Int.tdiv_eq_ediv_of_nonneg hsum, Int.tmod_eq_emod_of_nonneg hsum]
  simp only [ofNano, Timespec.toNano, nano]
  congr 2
  · omega
  · omega

/-- What `addTimeNano` adds. -/
def duration (n : Int) : Int := if n = infiniteTimeValue then maxTimeOut else n

theorem addTimeNano_eq {t : Timespec} (ht : Moderate t) {n : Int}
    (h0 : 0 ≤ n ∨ n = infiniteTimeValue) (hmax : n ≤ maxTimeOut) :
    addTimeNano t n = some (ofNano (t.toNano + duration n)) := by
  rw [addTimeNano, if_neg (Int.not_lt.mpr hmax), duration]
  split
  · exact addNano_eq ht (by decide) (Int.le_refl _)
  · rename_i hfinite
    exact addNano_eq ht (h0.resolve_right hfinite) hmax

/-- The sums that the rest of the development computes with are these. -/
theorem addTimeNano_exact {t u : Timespec} {n : Int} (h : addTimeNano t n = some u) :
    Arinc.addTimeNano t n = some u := by
  have hsum {m : Int} (hm : addNano t m = some u) : Arinc.addNano t m = u := by
    obtain ⟨nsecs, hnsecs, hmap⟩ := Option.bind_eq_some_iff.mp hm
    obtain ⟨secs, hsecs, rfl⟩ := Option.map_eq_some_iff.mp hmap
    obtain ⟨-, rfl⟩ := fit_eq_some_iff.mp hnsecs
    obtain ⟨-, rfl⟩ := fit_eq_some_iff.mp hsecs
    rfl
  unfold addTimeNano at h
  unfold Arinc.addTimeNano
  split at h
  · cases h
  · rename_i hmax
    rw [if_neg hmax]
    split at h
    · rename_i hinfinite
      rw [if_pos hinfinite, hsum h]
    · rename_i hfinite
      rw [if_neg hfinite, hsum h]

theorem subtractTimeNano_eq {t : Timespec} (ht : Moderate t) {n : Int} (h0 : 0 ≤ n)
    (hmax : n ≤ maxTimeOut) : subtractTimeNano t n = some (ofNano (t.toNano - n)) := by
  obtain ⟨⟨ht0, ht1⟩, htlower, htupper⟩ := ht
  rw [subtractTimeNano, if_neg (Int.not_lt.mpr hmax)]
  simp only [maxTimeOut, nano] at ht1 hmax
  have hnsecs : Fits 64 (t.tvNsec - n) := fits_64_iff.mpr (by omega)
  have hsecs : Fits 64 t.tvSec := fits_64_iff.mpr (by omega)
  rw [fit_of_fits hnsecs, Option.bind_some, subtractTimeLoop_eq (by simp only [nano]; omega) hnsecs
    hsecs (by simp only [fits_64_iff, nano]; omega)]
  congr 2
  simp only [Timespec.toNano]
  omega

theorem subtractTime2_eq {a b : Timespec} (ha : Moderate a) (hb : Moderate b)
    (hlower : -2 ^ 63 + nano ≤ a.toNano - b.toNano) (hupper : a.toNano - b.toNano < 2 ^ 63) :
    subtractTime2 a b = some (a.toNano - b.toNano) := by
  rw [subtractTime2, subtractTime_eq ha hb, Option.bind_some]
  generalize a.toNano - b.toNano = x at hlower hupper
  obtain ⟨h0, h1⟩ := normalized_ofNano x
  have hvalue : (ofNano x).tvSec * nano + (ofNano x).tvNsec = x := toNano_ofNano x
  have hseconds : Fits 64 ((ofNano x).tvSec * nano) := fits_64_iff.mpr (by omega)
  have hsum : Fits 64 ((ofNano x).tvNsec + (ofNano x).tvSec * nano) := fits_64_iff.mpr (by omega)
  rw [fit_of_fits hseconds, Option.bind_some, fit_of_fits hsum, Int.add_comm, hvalue]

/-! ## The laws -/

/-- A normalised time from 0 on and below 2^33 seconds. -/
structure InRange (t : Timespec) : Prop where
  normalized : t.Normalized
  nonneg : 0 ≤ t.tvSec
  below : t.tvSec < 2 ^ 33

theorem InRange.moderate {t : Timespec} (ht : InRange t) : Moderate t where
  normalized := ht.normalized
  lower := Int.le_trans (by decide) ht.nonneg
  upper := Int.lt_trans ht.below (by decide)

theorem InRange.toNano_bounds {t : Timespec} (ht : InRange t) :
    0 ≤ t.toNano ∧ t.toNano < 2 ^ 33 * nano := by
  obtain ⟨⟨h0, h1⟩, hnonneg, hbelow⟩ := ht
  simp only [nano] at h1
  simp only [Timespec.toNano, nano]
  omega

/-- The strict comparison is the other one, with the times exchanged and the answer
    negated. -/
theorem compareTimeLess_iff {a b : Timespec} (ha : a.Normalized) (hb : b.Normalized) :
    compareTimeLess a b = true ↔ a.toNano < b.toNano := by
  rw [Timer.compareTimeLess_iff, ← not_le, ← compareTime_iff_lexTime, compareTime_iff hb ha, not_le]

/-- The sum with a duration: normalised, of the right value, and undone by a
    subtraction; its distance from the time is the duration. -/
theorem addTimeNano_laws {t : Timespec} (ht : InRange t) {n : Int}
    (h0 : 0 ≤ n ∨ n = infiniteTimeValue) (hmax : n ≤ maxTimeOut) :
    ∃ u, addTimeNano t n = some u ∧ u.Normalized ∧
      convertTimeSpecToNano u = some (t.toNano + duration n) ∧
      subtractTimeNano u (duration n) = some t ∧ subtractTime2 u t = some (duration n) := by
  have hduration : 0 ≤ duration n ∧ duration n ≤ maxTimeOut := by
    unfold duration
    split
    · exact ⟨by decide, Int.le_refl _⟩
    · rename_i hfinite
      exact ⟨h0.resolve_right hfinite, hmax⟩
  have hsum := addTimeNano_eq ht.moderate h0 hmax
  generalize duration n = d at hduration hsum
  obtain ⟨hd0, hdmax⟩ := hduration
  obtain ⟨ht0, ht1⟩ := ht.toNano_bounds
  simp only [maxTimeOut, nano] at hdmax ht1
  have hvalue := toNano_ofNano (t.toNano + d)
  -- The sum stays so far below 2^63 that no intermediate value of the code overflows.
  have hmoderate : Moderate (ofNano (t.toNano + d)) :=
    moderate_ofNano (by simp only [nano]; omega) (by simp only [nano]; omega)
  refine ⟨_, hsum, normalized_ofNano _, ?_, ?_, ?_⟩
  · rw [convertTimeSpecToNano_eq (normalized_ofNano _), hvalue]
    · rw [hvalue]
      simp only [nano]
      omega
    · omega
  · rw [subtractTimeNano_eq hmoderate hd0 hdmax, hvalue, Int.add_sub_cancel,
      ofNano_toNano ht.normalized]
  · have hdifference : (ofNano (t.toNano + d)).toNano - t.toNano = d := by omega
    rw [subtractTime2_eq hmoderate ht.moderate, hdifference]
    · rw [hdifference]
      simp only [nano]
      omega
    · omega

/-- The sum and the difference of two times undo each other. -/
theorem addTime_laws {a b : Timespec} (ha : InRange a) (hb : InRange b) :
    (∃ u, addTime a b = some u ∧ subtractTime u b = some a) ∧
      ∃ u, subtractTime a b = some u ∧ addTime u b = some a := by
  obtain ⟨ha0, ha1⟩ := ha.toNano_bounds
  obtain ⟨hb0, hb1⟩ := hb.toNano_bounds
  simp only [nano] at ha1 hb1
  constructor
  · refine ⟨_, addTime_eq ha.moderate hb.moderate, ?_⟩
    rw [subtractTime_eq (moderate_ofNano (by simp only [nano]; omega) (by simp only [nano]; omega))
      hb.moderate, toNano_ofNano, Int.add_sub_cancel, ofNano_toNano ha.normalized]
  · refine ⟨_, subtractTime_eq ha.moderate hb.moderate, ?_⟩
    rw [addTime_eq (moderate_ofNano (by simp only [nano]; omega) (by simp only [nano]; omega))
      hb.moderate, toNano_ofNano, Int.sub_add_cancel, ofNano_toNano ha.normalized]

/-- **Time arithmetic.** A duration is added to the nanoseconds of a time, the infinite
    one as `MAX_TIME_OUT`, and subtracted again; sums and differences of times undo each
    other; the comparisons are those of the nanoseconds; and nothing overflows. -/
theorem time_arithmetic {a b t : Timespec} (ha : InRange a) (hb : InRange b) (ht : InRange t)
    {n : Int} (h0 : 0 ≤ n) (hmax : n ≤ maxTimeOut) :
    (convertTimeSpecToNano a = some a.toNano ∧ convertTimeSpecToNano b = some b.toNano ∧
        convertTimeSpecToNano t = some t.toNano) ∧
      (∃ u, addTimeNano t n = some u ∧ u.Normalized ∧
        convertTimeSpecToNano u = some (t.toNano + n) ∧ subtractTimeNano u n = some t ∧
        subtractTime2 u t = some n) ∧
      (∃ u, addTimeNano t infiniteTimeValue = some u ∧ u.Normalized ∧
        convertTimeSpecToNano u = some (t.toNano + maxTimeOut)) ∧
      (∃ u, addTime a b = some u ∧ subtractTime u b = some a) ∧
      (∃ u, subtractTime a b = some u ∧ addTime u b = some a) ∧
      (compareTime a b = true ↔ a.toNano ≤ b.toNano) ∧
      (compareTimeLess a b = true ↔ a.toNano < b.toNano) := by
  have hconvert {s : Timespec} (hs : InRange s) : convertTimeSpecToNano s = some s.toNano := by
    obtain ⟨hs0, hs1⟩ := hs.toNano_bounds
    simp only [nano] at hs1
    exact convertTimeSpecToNano_eq hs.normalized (by simp only [nano]; omega) (by omega)
  have hduration : duration n = n := if_neg (by unfold infiniteTimeValue; omega)
  obtain ⟨u, hsum, hnormalized, hvalue, hback, hdistance⟩ := addTimeNano_laws ht (Or.inl h0) hmax
  obtain ⟨v, hinfinite, hnormalized', hvalue', -, -⟩ :=
    addTimeNano_laws ht (Or.inr rfl) (by decide : infiniteTimeValue ≤ maxTimeOut)
  rw [hduration] at hvalue hback hdistance
  obtain ⟨hadd, hsubtract⟩ := addTime_laws ha hb
  exact ⟨⟨hconvert ha, hconvert hb, hconvert ht⟩, ⟨u, hsum, hnormalized, hvalue, hback, hdistance⟩,
    ⟨v, hinfinite, hnormalized', hvalue'⟩, hadd, hsubtract,
    compareTime_iff ha.normalized hb.normalized, compareTimeLess_iff ha.normalized hb.normalized⟩

/-- With carries and borrows, at the greatest duration. -/
theorem time_arithmetic_carries :
    ∃ u, addTimeNano ⟨8, 999999999⟩ maxTimeOut = some u ∧
      subtractTimeNano u maxTimeOut = some ⟨8, 999999999⟩ := by
  have hrange {second nsec : Int} (hsecond : 0 ≤ second ∧ second < 2 ^ 33)
      (hnsec : 0 ≤ nsec ∧ nsec < nano) : InRange ⟨second, nsec⟩ :=
    ⟨hnsec, hsecond.1, hsecond.2⟩
  obtain ⟨-, ⟨u, hsum, -, -, hback, -⟩, -⟩ :=
    time_arithmetic (hrange (by decide) (by decide) : InRange ⟨3, 5⟩)
      (hrange (by decide) (by decide) : InRange ⟨2, 7⟩)
      (hrange (by decide) (by decide) : InRange ⟨8, 999999999⟩) (by decide : 0 ≤ maxTimeOut)
      (Int.le_refl _)
  exact ⟨u, hsum, hback⟩

end Arinc.TimeArithmetic
