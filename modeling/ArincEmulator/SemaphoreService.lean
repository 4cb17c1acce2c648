import ArincEmulator.Lib.Runs
import ArincEmulator.SemaphoreQueue
import ArincEmulator.Process

/- The semaphore services of a partition (`CREATE_SEMAPHORE`, `WAIT_SEMAPHORE`,
   `SIGNAL_SEMAPHORE`), called by any number of threads on any number of
   semaphores. `CREATE_SEMAPHORE` looks at the mode and the name, and at
   neither of the two values.

   What is proved, for every interleaving:
     1. `step_moves`: a step takes one token from a semaphore, puts one in, or
        leaves the semaphore as it is.
     2. `semaphore_bounds_iff`: the counter is the initial value with the
        signals added and the waits taken off, whatever the initial value; it
        stays within 0 and the maximum in every run exactly when creation was
        asked for a value in those bounds. -/
namespace Arinc.SemaphoreService
open Runs

/-- A semaphore of the partition, with the number of signals and waits on it that
    returned `NO_ERROR`; the source counts neither. -/
structure ApexSemaphore (T : Type*) where
  name : String
  queue : SemaphoreQueue T
  signals : Nat
  waits : Nat

/-- Where a thread is: outside the services, with the code its last call
    returned, in a wait, or in a signal past the counter. -/
inductive Call where
  | outside (returned : Option ReturnCode)
  | waiting (id : Nat) (timeout : Int)
  | signalling (id : Nat)
  deriving DecidableEq, Repr

/-- Of `APEX` what the semaphore services use, and the threads in them. -/
structure Partition (T : Type*) where
  mode : OperatingMode
  semaphoreVector : List (ApexSemaphore T)
  calls : T → Call

/-- A partition that has created nothing. -/
def Partition.start (T : Type*) : Partition T := ⟨.coldStart, [], fun _ => .outside none⟩

namespace Partition

variable {T : Type*} [DecidableEq T]

omit [DecidableEq T] in
/-- `CREATE_SEMAPHORE`; the new id is the length the vector had. -/
def createSemaphore (p : Partition T) (name : String) (currentValue maximumValue : Int) :
    Partition T × ReturnCode :=
  if p.mode = .idle ∨ p.mode = .normal then (p, .invalidMode)
  else if p.semaphoreVector.any (fun x => x.name == name) then (p, .invalidParam)
  else
    ({ p with semaphoreVector := p.semaphoreVector ++
        [⟨name, ⟨⟨currentValue, maximumValue⟩, CondVar.empty⟩, 0, 0⟩] }, .noError)

/-- One turn of the wait of `t` on semaphore `id`. -/
def turn (p : Partition T) (t : T) (id : Nat) (timeout : Int) (why : Turn) :
    Option (Partition T) := do
  let x ← p.semaphoreVector[id]?
  let (q, code) ← x.queue.turn t why
  some { p with
    semaphoreVector := p.semaphoreVector.set id
      { x with queue := q, waits := if code = some .noError then x.waits + 1 else x.waits }
    calls := Function.update p.calls t
      (if code = none then .waiting id timeout else .outside code) }

/-- `WAIT_SEMAPHORE` up to its first sleep. -/
def waitSemaphore (p : Partition T) (t : T) (id : Nat) (timeout : Int) : Option (Partition T) :=
  if p.semaphoreVector.length ≤ id then
    some { p with calls := Function.update p.calls t (.outside (some .invalidParam)) }
  else if maxTimeOut < timeout then none -- the assertion of `addTimeNano`
  else p.turn t id timeout .enter

/-- `SIGNAL_SEMAPHORE` up to the signal of its `post`. -/
def signalSemaphore (p : Partition T) (t : T) (id : Nat) : Partition T :=
  match p.semaphoreVector[id]? with
  | none => { p with calls := Function.update p.calls t (.outside (some .invalidParam)) }
  | some x =>
    if x.queue.post.2 = .noError then
      { p with
        semaphoreVector := p.semaphoreVector.set id
          { x with queue := x.queue.post.1, signals := x.signals + 1 }
        calls := Function.update p.calls t (.signalling id) }
    else { p with calls := Function.update p.calls t (.outside (some x.queue.post.2)) }

/-- The condition of semaphore `id` is changed by `f`. -/
def onQueue (p : Partition T) (id : Nat)
    (f : SemaphoreQueue T → Option (SemaphoreQueue T)) : Option (Partition T) := do
  let x ← p.semaphoreVector[id]?
  let q ← f x.queue
  some { p with semaphoreVector := p.semaphoreVector.set id { x with queue := q } }

end Partition

/-- The steps of the threads. -/
inductive Op (T : Type*) where
  | createSemaphore (name : String) (currentValue maximumValue : Int)
  | waitSemaphore (t : T) (id : Nat) (timeout : Int)
  | resume (t : T)
  | expire (t : T)
  | spurious (t : T)
  | signalSemaphore (t : T) (id : Nat)
  | signal (t : T) (target : Option T)

variable {T : Type*} [DecidableEq T]

/-- One step. -/
def step (p : Partition T) : Op T → Option (Partition T)
  | .createSemaphore name currentValue maximumValue =>
    some (p.createSemaphore name currentValue maximumValue).1
  | .waitSemaphore t id timeout =>
    match p.calls t with
    | .outside _ => p.waitSemaphore t id timeout
    | _ => none
  | .resume t =>
    match p.calls t with
    | .waiting id timeout => p.turn t id timeout .resume
    | _ => none
  | .expire t =>
    match p.calls t with
    | .waiting id timeout =>
      -- an untimed wait has no time-out to miss
      if timeout = infiniteTimeValue then none else p.turn t id timeout .expire
    | _ => none
  | .spurious t =>
    match p.calls t with
    | .waiting id _ => p.onQueue id fun q => q.spurious t
    | _ => none
  | .signalSemaphore t id =>
    match p.calls t with
    | .outside _ => some (p.signalSemaphore t id)
    | _ => none
  | .signal t target =>
    match p.calls t with
    | .signalling id => (p.onQueue id fun q => q.signal target).map fun p' =>
        { p' with calls := Function.update p'.calls t (.outside (some .noError)) }
    | _ => none

/-- The thread a step belongs to. -/
def Op.caller : Op T → Option T
  | .createSemaphore _ _ _ => none
  | .waitSemaphore t _ _ | .resume t | .expire t | .spurious t | .signalSemaphore t _
  | .signal t _ => some t

/-! ## What a step does to a semaphore -/

/-- The semaphore keeps its value, gives a token to a wait or gets one from a
    signal. -/
def ApexSemaphore.Moves (x y : ApexSemaphore T) : Prop :=
  (y.queue.sem = x.queue.sem ∧ y.signals = x.signals ∧ y.waits = x.waits) ∨
  (x.queue.sem.counter ≠ 0 ∧
    y.queue.sem = { x.queue.sem with counter := x.queue.sem.counter - 1 } ∧
    y.signals = x.signals ∧ y.waits = x.waits + 1) ∨
  (x.queue.sem.counter < x.queue.sem.maximumvalue ∧
    y.queue.sem = { x.queue.sem with counter := x.queue.sem.counter + 1 } ∧
    y.signals = x.signals + 1 ∧ y.waits = x.waits)

/-- The step ended a call with an error code. -/
def Failed (op : Op T) (p : Partition T) : Prop :=
  ∃ t code, op.caller = some t ∧ p.calls t = .outside (some code) ∧ code ≠ .noError

/-- One semaphore moved; when the step ended a call in an error, not even that. -/
def Moved (p : Partition T) (op : Op T) (p' : Partition T) : Prop :=
  ∃ id x y, p.semaphoreVector[id]? = some x ∧ p'.semaphoreVector = p.semaphoreVector.set id y ∧
    x.Moves y ∧ (Failed op p' → y.queue.sem = x.queue.sem)

theorem turn_moved {p p' : Partition T} {t : T} {id : Nat} {timeout : Int} {why : Turn}
    {op : Op T} (hop : op.caller = some t) (h : p.turn t id timeout why = some p') :
    Moved p op p' := by
  simp only [Partition.turn, bind, Option.bind_eq_some_iff, Option.some.injEq] at h
  obtain ⟨x, hx, ⟨q, code⟩, hq, rfl⟩ := h
  refine ⟨id, x, _, hx, rfl, ?_⟩
  obtain ⟨rfl, hc, -, rfl⟩ | ⟨rfl, -, rfl⟩ | ⟨rfl, -, -, rfl⟩ := SemaphoreQueue.turn_cases hq
  · refine ⟨Or.inr (Or.inl ⟨hc, rfl, rfl, rfl⟩), ?_⟩
    intro hfail
    obtain ⟨u, code, hu, hcode, hne⟩ := hfail
    obtain rfl : t = u := Option.some.inj (hop.symm.trans hu)
    simp only [Function.update_self, reduceCtorEq, if_false, Call.outside.injEq,
      Option.some.injEq] at hcode
    exact absurd hcode.symm hne
  · exact ⟨Or.inl ⟨rfl, rfl, rfl⟩, fun _ => rfl⟩
  · exact ⟨Or.inl ⟨rfl, rfl, rfl⟩, fun _ => rfl⟩

omit [DecidableEq T] in
theorem onQueue_moved {p p' : Partition T} {id : Nat}
    {f : SemaphoreQueue T → Option (SemaphoreQueue T)} (op : Op T)
    (hf : ∀ q q', f q = some q' → q'.sem = q.sem) (h : p.onQueue id f = some p') :
    Moved p op p' := by
  simp only [Partition.onQueue, bind, Option.bind_eq_some_iff, Option.some.injEq] at h
  obtain ⟨x, hx, q, hq, rfl⟩ := h
  exact ⟨id, x, _, hx, rfl, Or.inl ⟨hf _ _ hq, rfl, rfl⟩, fun _ => hf _ _ hq⟩

theorem signalSemaphore_moved (p : Partition T) (t : T) (id : Nat) :
    (p.signalSemaphore t id).semaphoreVector = p.semaphoreVector ∨
      Moved p (.signalSemaphore t id) (p.signalSemaphore t id) := by
  unfold Partition.signalSemaphore
  split
  · exact Or.inl rfl
  · rename_i x hx
    split
    · rename_i hok
      right
      have hlt : x.queue.sem.counter < x.queue.sem.maximumvalue := by
        by_contra hle
        have hfull : x.queue.post.2 = .notAvailable := by
          simp only [SemaphoreQueue.post, Semaphore.post, if_pos (Int.not_lt.mp hle)]
        rw [hfull] at hok
        exact absurd hok (by decide)
      have hpost : x.queue.post.1.sem = { x.queue.sem with counter := x.queue.sem.counter + 1 } :=
        congrArg Prod.fst (Semaphore.post_of_lt hlt)
      refine ⟨id, x, _, hx, rfl, Or.inr (Or.inr ⟨hlt, hpost, rfl, rfl⟩), ?_⟩
      intro hfail
      obtain ⟨u, code, hu, hcode, -⟩ := hfail
      obtain rfl : t = u := Option.some.inj hu
      simp at hcode
    · exact Or.inl rfl

/-- A step moves at most one semaphore, and creation adds one at the end. -/
theorem step_moves {p p' : Partition T} {op : Op T} (h : step p op = some p') :
    (∃ new, p'.semaphoreVector = p.semaphoreVector ++ new ∧ (Failed op p' → new = [])) ∨
      Moved p op p' := by
  cases op with
  | createSemaphore name cv mv =>
    obtain rfl := Option.some.inj h
    left
    unfold Partition.createSemaphore
    split
    · exact ⟨[], (List.append_nil _).symm, fun _ => rfl⟩
    · split
      · exact ⟨[], (List.append_nil _).symm, fun _ => rfl⟩
      · -- the two values are not looked at
        refine ⟨_, rfl, ?_⟩
        intro hfail
        obtain ⟨u, code, hu, -⟩ := hfail
        simp [Op.caller] at hu
  | waitSemaphore t id timeout =>
    simp only [step] at h
    split at h
    · unfold Partition.waitSemaphore at h
      split at h
      · obtain rfl := Option.some.inj h
        exact Or.inl ⟨[], (List.append_nil _).symm, fun _ => rfl⟩
      · split at h
        · simp at h
        · exact Or.inr (turn_moved rfl h)
    · simp at h
  | resume t =>
    simp only [step] at h
    split at h
    · exact Or.inr (turn_moved rfl h)
    · simp at h
  | expire t =>
    simp only [step] at h
    split at h
    · split at h
      · simp at h -- an untimed wait does not expire
      · exact Or.inr (turn_moved rfl h)
    · simp at h
  | spurious t =>
    simp only [step] at h
    split at h
    · exact Or.inr (onQueue_moved _ (fun _ _ => SemaphoreQueue.spurious_sem) h)
    · simp at h
  | signalSemaphore t id =>
    simp only [step] at h
    split at h
    · obtain rfl := Option.some.inj h
      obtain heq | hmoved := signalSemaphore_moved p t id
      · exact Or.inl ⟨[], heq.trans (List.append_nil _).symm, fun _ => rfl⟩
      · exact Or.inr hmoved
    · simp at h
  | signal t target =>
    simp only [step] at h
    split at h
    · obtain ⟨p₁, hp₁, rfl⟩ := Option.map_eq_some_iff.mp h
      obtain ⟨id, x, y, hx, hy, hmove, -⟩ :=
        onQueue_moved (.signal t target) (fun _ _ => SemaphoreQueue.signal_sem) hp₁
      refine Or.inr ⟨id, x, y, hx, hy, hmove, ?_⟩
      intro hfail
      obtain ⟨u, code, hu, hcode, hne⟩ := hfail
      obtain rfl : t = u := Option.some.inj hu
      simp only [Function.update_self, Call.outside.injEq, Option.some.injEq] at hcode
      exact absurd hcode.symm hne
    · simp at h

/-! ## Accounts and bounds -/

/-- The counter and the maximum of semaphore `id`. -/
def Partition.value (p : Partition T) (id : Nat) : Option Semaphore :=
  p.semaphoreVector[id]?.map fun x => x.queue.sem

/-- Semaphore `id`, created with the two values, is accounted for. -/
structure Accounted (p : Partition T) (id : Nat) (currentValue maximumValue : Int)
    (x : ApexSemaphore T) : Prop where
  here : p.semaphoreVector[id]? = some x
  maximum : x.queue.sem.maximumvalue = maximumValue
  counter : x.queue.sem.counter = currentValue + x.signals - x.waits

/-- What is asked of a state: the account, the bounds, and that no failed call
    changes a semaphore. -/
structure Sound (p : Partition T) (id : Nat) (currentValue maximumValue : Int) : Prop where
  accounted : ∃ x, Accounted p id currentValue maximumValue x ∧
    0 ≤ x.queue.sem.counter ∧ x.queue.sem.counter ≤ x.queue.sem.maximumvalue
  failed_unchanged : ∀ op q, step p op = some q → Failed op q → ∀ i, q.value i = p.value i

omit [DecidableEq T] in
theorem ApexSemaphore.Moves.counter_eq {x y : ApexSemaphore T} {initial : Int}
    (h : x.Moves y) (hx : x.queue.sem.counter = initial + x.signals - x.waits) :
    y.queue.sem.counter = initial + y.signals - y.waits := by
  obtain ⟨hsem, hs, hw⟩ | ⟨-, hsem, hs, hw⟩ | ⟨-, hsem, hs, hw⟩ := h
  · rw [hsem, hs, hw, hx]
  · rw [hsem, hs, hw]
    push_cast
    omega
  · rw [hsem, hs, hw]
    push_cast
    omega

omit [DecidableEq T] in
theorem ApexSemaphore.Moves.maximum_eq {x y : ApexSemaphore T} (h : x.Moves y) :
    y.queue.sem.maximumvalue = x.queue.sem.maximumvalue := by
  obtain ⟨hsem, -⟩ | ⟨-, hsem, -⟩ | ⟨-, hsem, -⟩ := h <;> rw [hsem]

omit [DecidableEq T] in
/-- A token is taken from a counter that is not 0 and put into one below the
    maximum, so a counter in its bounds stays there. -/
theorem ApexSemaphore.Moves.bounds {x y : ApexSemaphore T} (h : x.Moves y)
    (hlo : 0 ≤ x.queue.sem.counter) (hhi : x.queue.sem.counter ≤ x.queue.sem.maximumvalue) :
    0 ≤ y.queue.sem.counter ∧ y.queue.sem.counter ≤ y.queue.sem.maximumvalue := by
  obtain ⟨hsem, -⟩ | ⟨hne, hsem, -⟩ | ⟨hlt, hsem, -⟩ := h
  · rw [hsem]
    exact ⟨hlo, hhi⟩
  · rw [hsem]
    constructor
    · show 0 ≤ x.queue.sem.counter - 1
      omega
    · show x.queue.sem.counter - 1 ≤ x.queue.sem.maximumvalue
      omega
  · rw [hsem]
    constructor
    · show 0 ≤ x.queue.sem.counter + 1
      omega
    · show x.queue.sem.counter + 1 ≤ x.queue.sem.maximumvalue
      omega

theorem step_at {p p' : Partition T} {op : Op T} {id : Nat} {x : ApexSemaphore T}
    (h : step p op = some p') (hx : p.semaphoreVector[id]? = some x) :
    ∃ y, p'.semaphoreVector[id]? = some y ∧ x.Moves y := by
  obtain ⟨new, hnew, -⟩ | ⟨j, u, v, hu, hv, hmove, -⟩ := step_moves h
  · refine ⟨x, ?_, Or.inl ⟨rfl, rfl, rfl⟩⟩
    rw [hnew]
    exact List.getElem?_append_left (List.getElem?_eq_some_iff.mp hx).1 ▸ hx
  · by_cases hj : j = id
    · subst hj
      obtain rfl : x = u := Option.some.inj (hx.symm.trans hu)
      refine ⟨v, ?_, hmove⟩
      rw [hv, List.getElem?_set_self (List.getElem?_eq_some_iff.mp hx).1]
    · refine ⟨x, ?_, Or.inl ⟨rfl, rfl, rfl⟩⟩
      rw [hv, List.getElem?_set_ne hj, hx]

theorem step_failed_unchanged {p p' : Partition T} {op : Op T} (h : step p op = some p')
    (hfail : Failed op p') (i : Nat) : p'.value i = p.value i := by
  obtain ⟨new, hnew, hnil⟩ | ⟨j, x, y, hx, hy, -, hsame⟩ := step_moves h
  · rw [Partition.value, Partition.value, hnew, hnil hfail, List.append_nil]
  · unfold Partition.value
    rw [hy]
    by_cases hj : j = i
    · subst hj
      rw [List.getElem?_set_self (List.getElem?_eq_some_iff.mp hx).1, hx]
      exact congrArg some (hsame hfail)
    · rw [List.getElem?_set_ne hj]

/-- The account holds whatever the initial value; the bounds come with it. -/
def Kept (id : Nat) (currentValue maximumValue : Int) (p : Partition T) : Prop :=
  ∃ x, Accounted p id currentValue maximumValue x ∧
    (0 ≤ currentValue ∧ currentValue ≤ maximumValue →
      0 ≤ x.queue.sem.counter ∧ x.queue.sem.counter ≤ x.queue.sem.maximumvalue)

theorem step_kept {id : Nat} {cv mv : Int} {p p' : Partition T} {op : Op T}
    (hp : Kept id cv mv p) (h : step p op = some p') : Kept id cv mv p' := by
  obtain ⟨x, hx, hbounds⟩ := hp
  obtain ⟨y, hy, hmove⟩ := step_at h hx.here
  refine ⟨y, ⟨hy, hmove.maximum_eq.trans hx.maximum, hmove.counter_eq hx.counter⟩, ?_⟩
  intro hcreated
  obtain ⟨hlo, hhi⟩ := hbounds hcreated
  exact hmove.bounds hlo hhi

omit [DecidableEq T] in
theorem createSemaphore_noError {p p₀ : Partition T} {name : String} {cv mv : Int}
    (h : p.createSemaphore name cv mv = (p₀, .noError)) :
    p₀.semaphoreVector = p.semaphoreVector ++ [⟨name, ⟨⟨cv, mv⟩, CondVar.empty⟩, 0, 0⟩] := by
  unfold Partition.createSemaphore at h
  split at h
  · simp at h
  · split at h
    · simp at h
    · obtain ⟨rfl, -⟩ := Prod.mk.inj h
      rfl

omit [DecidableEq T] in
theorem created_kept {p p₀ : Partition T} {name : String} {cv mv : Int}
    (h : p.createSemaphore name cv mv = (p₀, .noError)) :
    Kept p.semaphoreVector.length cv mv p₀ := by
  refine ⟨⟨name, ⟨⟨cv, mv⟩, CondVar.empty⟩, 0, 0⟩, ⟨?_, rfl, ?_⟩, fun hcreated => hcreated⟩
  · rw [createSemaphore_noError h]
    exact List.getElem?_concat_length
  · show cv = cv + ((0 : Nat) : Int) - ((0 : Nat) : Int)
    omega

/-- **Bounds and accounts of a semaphore.** Every interleaving of the services
    keeps the counter of a created semaphore accounted for and within 0 and its
    maximum, if and only if `CREATE_SEMAPHORE` was given values in that order. -/
theorem semaphore_bounds_iff {p p₀ : Partition T} {name : String} {currentValue maximumValue : Int}
    (h : p.createSemaphore name currentValue maximumValue = (p₀, .noError)) :
    (∀ ops q, run step p₀ ops = some q →
        Sound q p.semaphoreVector.length currentValue maximumValue) ↔
      0 ≤ currentValue ∧ currentValue ≤ maximumValue := by
  constructor
  · intro hsound
    -- the state creation leaves is one of those reached
    obtain ⟨x, hx, hlo, hhi⟩ := (hsound [] p₀ rfl).accounted
    have hnew : x = ⟨name, ⟨⟨currentValue, maximumValue⟩, CondVar.empty⟩, 0, 0⟩ := by
      have hhere := hx.here
      rw [createSemaphore_noError h, List.getElem?_concat_length] at hhere
      exact (Option.some.inj hhere).symm
    subst hnew
    exact ⟨hlo, hhi⟩
  · intro hcreated ops q hrun
    have hkept : Kept p.semaphoreVector.length currentValue maximumValue q :=
      run_invariant (fun _ _ _ hp hstep => step_kept hp hstep) (created_kept h) hrun
    obtain ⟨x, hx, hbounds⟩ := hkept
    exact ⟨⟨x, hx, hbounds hcreated⟩, fun _ _ hstep hfail i => step_failed_unchanged hstep hfail i⟩

/-- A binary semaphore created empty. -/
theorem semaphore_bounds_iff_binary :
    (∀ ops q, run step ((Partition.start Nat).createSemaphore "SEM" 0 1).1 ops = some q →
        Sound q 0 0 1) ↔ (0 : Int) ≤ 0 ∧ (0 : Int) ≤ 1 :=
  @semaphore_bounds_iff Nat _ (Partition.start Nat) _ "SEM" 0 1 rfl

/-- The two values are not checked: a semaphore created at -1 lets a wait through
    that no signal paid for, and counts -2. -/
theorem unchecked_initial_value :
    ∃ p₀ q : Partition Nat,
      (Partition.start Nat).createSemaphore "SEM" (-1) 1 = (p₀, .noError) ∧
      run step p₀ [.waitSemaphore 0 0 infiniteTimeValue] = some q ∧
      q.calls 0 = .outside (some .noError) ∧ q.value 0 = some ⟨-2, 1⟩ ∧
      ¬ Sound q 0 (-1) 1 := by
  refine ⟨_, _, rfl, rfl, rfl, rfl, ?_⟩
  intro hsound
  obtain ⟨x, hx, hlo, -⟩ := hsound.accounted
  obtain rfl := Option.some.inj hx.here
  exact absurd hlo (by decide)

end Arinc.SemaphoreService
