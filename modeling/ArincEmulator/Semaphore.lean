import ArincEmulator.Types

/- The counting semaphore of the thread support (`SEMAPHORE`). Its body runs
   under its own mutex, so `wait` and `post` are single steps; a thread that
   sleeps on the condition is a step that is not enabled (`none`). Whether a
   timed wait gives up is decided outside (`expired`), and it may give up
   whatever the counter is by then: the mutex is taken again after the signal
   was missed. -/
namespace Arinc

/-- `SEMAPHORE`: the counter and the value `post` refuses to pass. -/
structure Semaphore where
  counter : Int
  maximumvalue : Int
  deriving DecidableEq, Repr

namespace Semaphore

/-- `SEMAPHORE::wait()`. -/
def wait (s : Semaphore) : Option Semaphore :=
  if s.counter = 0 then none else some { s with counter := s.counter - 1 }

/-- `SEMAPHORE::wait(SYSTEM_TIMESPEC &)`: gives up with `TIMED_OUT` and an
    unchanged counter, or takes a token. -/
def waitUntil (s : Semaphore) (expired : Bool) : Option (Semaphore × ReturnCode) :=
  if expired then some (s, .timedOut) else s.wait.map fun s' => (s', .noError)

/-- `SEMAPHORE::wait(SYSTEM_TIME_TYPE)`. The deadline is computed first and its
    assertion ends the program on a time-out above `MAX_TIME_OUT`; the infinite
    time-out is the untimed wait and never gives up. -/
def waitFor (s : Semaphore) (timeout : Int) (expired : Bool) : Option (Semaphore × ReturnCode) :=
  if maxTimeOut < timeout then none
  else if timeout = infiniteTimeValue then s.waitUntil false
  else s.waitUntil expired

/-- `SEMAPHORE::post()`. -/
def post (s : Semaphore) : Semaphore × ReturnCode :=
  if s.maximumvalue ≤ s.counter then (s, .notAvailable)
  else ({ s with counter := s.counter + 1 }, .noError)

/-! ## What a wait and a post can do -/

theorem wait_cases {s t : Semaphore} (h : s.wait = some t) :
    s.counter ≠ 0 ∧ t = { s with counter := s.counter - 1 } := by
  unfold wait at h
  split at h
  · simp at h
  · rename_i hc
    exact ⟨hc, (Option.some.inj h).symm⟩

theorem waitUntil_cases {s t : Semaphore} {expired : Bool} {code : ReturnCode}
    (h : s.waitUntil expired = some (t, code)) :
    (code = .timedOut ∧ t = s) ∨
      (code = .noError ∧ s.counter ≠ 0 ∧ t = { s with counter := s.counter - 1 }) := by
  unfold waitUntil at h
  split at h
  · simp only [Option.some.injEq, Prod.mk.injEq] at h
    exact Or.inl ⟨h.2.symm, h.1.symm⟩
  · obtain ⟨u, hu, heq⟩ := Option.map_eq_some_iff.mp h
    obtain ⟨rfl, rfl⟩ := Prod.mk.inj heq
    exact Or.inr ⟨rfl, wait_cases hu⟩

theorem waitFor_cases {s t : Semaphore} {timeout : Int} {expired : Bool} {code : ReturnCode}
    (h : s.waitFor timeout expired = some (t, code)) :
    (code = .timedOut ∧ t = s) ∨
      (code = .noError ∧ s.counter ≠ 0 ∧ t = { s with counter := s.counter - 1 }) := by
  unfold waitFor at h
  split at h
  · simp at h
  · split at h <;> exact waitUntil_cases h

theorem post_of_lt {s : Semaphore} (h : s.counter < s.maximumvalue) :
    s.post = ({ s with counter := s.counter + 1 }, .noError) := by
  simp only [post, if_neg (Int.not_le.mpr h)]

end Semaphore

end Arinc
