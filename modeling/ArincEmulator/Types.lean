import Mathlib.Algebra.Group.Int.Defs
import Mathlib.Algebra.Group.Nat.Defs

/- The base types the services share: return codes, time constants and the
   words a service uses to answer. -/
namespace Arinc

/-- `RETURN_CODE_TYPE`. -/
inductive ReturnCode where
  | noError
  | noAction
  | notAvailable
  | invalidParam
  | invalidConfig
  | invalidMode
  | timedOut
  deriving DecidableEq, Repr

/-- What answers `NO_ERROR` has passed a check that answers anything else. -/
theorem ReturnCode.passed {p : Prop} [Decidable p] {code rest : ReturnCode}
    (hcode : code ≠ .noError) (h : (if p then code else rest) = .noError) :
    ¬ p ∧ rest = .noError := by
  split at h
  · exact absurd h hcode
  · rename_i hp
    exact ⟨hp, h⟩

/-- `NANO`: nanoseconds in a second. -/
def nano : Int := 1000000000

/-- `MAX_TIME_OUT`, the largest duration the time helpers accept. -/
def maxTimeOut : Int := 315569260 * nano

/-- `INFINITE_TIME_VALUE`. -/
def infiniteTimeValue : Int := -1

/-- `MAX_SEMAPHORE_VALUE`. -/
def maxSemaphoreValue : Int := 32767

end Arinc
