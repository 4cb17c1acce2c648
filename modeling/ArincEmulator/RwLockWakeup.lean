import ArincEmulator.Lib.Runs
import ArincEmulator.Lib.Census
import ArincEmulator.RwLock
import ArincEmulator.SemaphoreQueue

/- The read/write lock again, with the sleepers of its two semaphores and the
   signals that wake them. `readunlock` gives one permit back and signals once;
   `writeunlock` and a timed-out `writelock` give back several and signal once
   as well, each after `RW_SEM.mutex` is released.

   What is proved:
     1. `step_covered`: no step leaves a permit that neither a woken client nor
        an owed signal answers, unless one unlock frees more permits than it
        wakes clients (`SignalsSuffice`).
     2. `no_lost_wakeup`: while every unlock meets that condition, no client
        sleeps on a free permit.
     3. `reader_stranded`: two readers asleep behind a writer are enough for one
        of them to sleep on. -/
namespace Arinc.RwLockWakeup
open Runs Census RwLock

/-- Where a client is. The places after `writeunlock`, `readunlock` and the
    roll-back of `writelock` are those before the signal on `RW_SEM`. -/
inductive Pc where
  | idle
  | reading (timeout : Int)
  | waitingToken
  | acquiring (successcount : Int)
  | rollingBack (successcount : Int)
  | rolledBack
  | leaving
  | left
  | readUnlocked
  | writeUnlocked
  deriving DecidableEq, Repr

/-- `RW_LOCK_SEM` with the conditions of its semaphores, and its clients. -/
structure State (T : Type*) where
  maxReaders : Int
  rwSem : SemaphoreQueue T
  writerSemaphore : SemaphoreQueue T
  pcs : T → Pc

variable {T : Type*}

/-- The lock without its sleepers. -/
def State.lock (s : State T) : RwLockSem := ⟨s.maxReaders, s.rwSem.sem, s.writerSemaphore.sem⟩

/-- A new lock and clients that have called nothing. -/
def start (T : Type*) (numReaders : Int) : State T :=
  let l := RwLockSem.create numReaders
  ⟨l.maxReaders, ⟨l.rwSem, CondVar.empty⟩, ⟨l.writerSemaphore, CondVar.empty⟩, fun _ => .idle⟩

/-- The loop test of `writelock`. -/
def State.loopTest (s : State T) (successcount : Int) : Pc :=
  if successcount < s.maxReaders then .acquiring successcount else .leaving

/-- The steps of the clients. -/
inductive Op (T : Type*) where
  | readlock (t : T) (timeout : Int)
  | readTurn (t : T) (why : Turn)
  | readunlock (t : T)
  | writelock (t : T) (timeout : Int)
  | tokenTurn (t : T) (why : Turn)
  | acquire (t : T) (why : Turn)
  | giveBack (t : T)
  | leave (t : T)
  | writeunlock (t : T)
  | signalReaders (t : T) (target : Option T)
  | signalWriters (t : T) (target : Option T)
  | spuriousReader (t : T)
  | spuriousWriter (t : T)

/-- Where the signal on `RW_SEM` leads a client, if it owes one. -/
def Pc.afterSignal : Pc → Option Pc
  | .rolledBack => some .leaving
  | .readUnlocked | .writeUnlocked => some .idle
  | _ => none

variable [DecidableEq T]

/-- A turn of a wait on `RW_SEM`; `next` is where its return code leads. -/
def State.turnRead (s : State T) (t : T) (why : Turn) (next : Option ReturnCode → Pc) :
    Option (State T) :=
  (s.rwSem.turn t why).map fun (q, code) =>
    { s with rwSem := q, pcs := Function.update s.pcs t (next code) }

/-- A turn of the wait on `WRITER_SEMAPHORE`. -/
def State.turnToken (s : State T) (t : T) (why : Turn) : Option (State T) :=
  (s.writerSemaphore.turn t why).map fun (q, code) =>
    { s with
      writerSemaphore := q
      pcs := Function.update s.pcs t
        (if code = none then .waitingToken
          else if code = some .timedOut then .idle else s.loopTest 0) }

/-- Where a turn of `readlock` leads. -/
def afterRead (timeout : Int) (code : Option ReturnCode) : Pc :=
  if code = none then .reading timeout else .idle

/-- Where a turn of the loop of `writelock` leads. -/
def State.afterAcquire (s : State T) (successcount : Int) (code : Option ReturnCode) : Pc :=
  if code = none then .acquiring successcount
  else if code = some .timedOut then .rollingBack successcount
  else s.loopTest (RwLockSem.increment successcount)

/-- One step of one client. -/
def step (s : State T) : Op T → Option (State T)
  | .readlock t timeout =>
    if s.pcs t = .idle then
      -- the assertion of `addTimeNano` ends the program
      if maxTimeOut < timeout then none else s.turnRead t .enter (afterRead timeout)
    else none
  | .readTurn t why =>
    match s.pcs t with
    | .reading timeout =>
      if why = .expire ∧ timeout = infiniteTimeValue then none
      else s.turnRead t why (afterRead timeout)
    | _ => none
  | .readunlock t =>
    if s.pcs t = .idle then
      some { s with
        rwSem := s.rwSem.post.1
        pcs := Function.update s.pcs t
          (if s.rwSem.post.2 = .noError then .readUnlocked else .idle) }
    else none
  | .writelock t timeout =>
    if s.pcs t = .idle then
      if maxTimeOut < timeout then none else s.turnToken t .enter
    else none
  | .tokenTurn t why => if s.pcs t = .waitingToken then s.turnToken t why else none
  | .acquire t why =>
    match s.pcs t with
    | .acquiring k => s.turnRead t why (s.afterAcquire k)
    | _ => none
  | .giveBack t =>
    match s.pcs t with
    | .rollingBack k =>
      some { s with
        rwSem := ⟨(s.lock.giveBack k).rwSem, s.rwSem.condition⟩
        pcs := Function.update s.pcs t .rolledBack }
    | _ => none
  | .leave t =>
    if s.pcs t = .leaving then
      some { s with
        writerSemaphore := s.writerSemaphore.post.1
        pcs := Function.update s.pcs t
          (if s.writerSemaphore.post.2 = .noError then .left else .idle) }
    else none
  | .writeunlock t =>
    if s.pcs t = .idle then
      some { s with
        rwSem := ⟨s.lock.writeunlock.rwSem, s.rwSem.condition⟩
        pcs := Function.update s.pcs t .writeUnlocked }
    else none
  | .signalReaders t target =>
    match (s.pcs t).afterSignal with
    | some pc => (s.rwSem.signal target).map fun q =>
        { s with rwSem := q, pcs := Function.update s.pcs t pc }
    | none => none
  | .signalWriters t target =>
    if s.pcs t = .left then
      (s.writerSemaphore.signal target).map fun q =>
        { s with writerSemaphore := q, pcs := Function.update s.pcs t .idle }
    else none
  | .spuriousReader t => (s.rwSem.spurious t).map fun q => { s with rwSem := q }
  | .spuriousWriter t => (s.writerSemaphore.spurious t).map fun q => { s with writerSemaphore := q }

/-! ## Sleeping on a free permit -/

/-- A client in the middle of a call that does not sleep. -/
def State.InProgress (s : State T) (t : T) : Prop :=
  s.pcs t ≠ .idle ∧ t ∉ s.rwSem.condition.asleep ∧ t ∉ s.writerSemaphore.condition.asleep

/-- A client sleeps on a free permit and nothing that runs will wake it. -/
def State.Stranded (s : State T) : Prop :=
  0 < s.rwSem.sem.counter ∧ s.rwSem.condition.asleep.Nonempty ∧
    s.rwSem.condition.signalled = ∅ ∧ ∀ t, ¬ s.InProgress t

instance [Fintype T] (s : State T) : Decidable s.Stranded :=
  have (t : T) : Decidable (s.InProgress t) := inferInstanceAs (Decidable (_ ∧ _ ∧ _))
  inferInstanceAs (Decidable (_ ∧ _ ∧ _ ∧ ∀ t, ¬ s.InProgress t))

/-- The signals on `RW_SEM` a client at `pc` owes. -/
def Pc.owes (pc : Pc) : Int := if pc.afterSignal = none then 0 else 1

variable [Fintype T]

/-- The signals on `RW_SEM` all clients owe. -/
def State.owed (s : State T) : Int := census Pc.owes s.pcs

omit [DecidableEq T] [Fintype T] in
/-- The counter an unlock that frees several permits leaves. -/
def freed (s : State T) : Op T → Option Int
  | .writeunlock _ => some s.maxReaders
  | .giveBack t =>
    match s.pcs t with
    | .rollingBack k => some (s.rwSem.sem.counter + k)
    | _ => none
  | _ => none

/-- The permits an unlock leaves free do not outnumber the clients already woken
    and the signals owed with its own, or no more clients sleep than there are
    such signals. -/
def SignalsSuffice (s : State T) (op : Op T) : Prop :=
  ∀ permits ∈ freed s op, s.rwSem.condition.Covered permits (s.owed + 1)

instance (s : State T) (op : Op T) : Decidable (SignalsSuffice s op) :=
  inferInstanceAs (Decidable (∀ permits ∈ freed s op, _))

/-! ## The step keeps permits covered -/

omit [DecidableEq T] in
theorem State.owed_nonneg (s : State T) : 0 ≤ s.owed := by
  apply census_nonneg
  intro t
  unfold Pc.owes
  split <;> decide

omit [Fintype T] [DecidableEq T] in
@[simp] theorem State.owes_loopTest (s : State T) (k : Int) : (s.loopTest k).owes = 0 := by
  unfold State.loopTest
  split <;> rfl

omit [Fintype T] [DecidableEq T] in
@[simp] theorem owes_afterRead (timeout : Int) (code : Option ReturnCode) :
    (afterRead timeout code).owes = 0 := by
  unfold afterRead
  split <;> rfl

omit [Fintype T] [DecidableEq T] in
@[simp] theorem State.owes_afterAcquire (s : State T) (k : Int) (code : Option ReturnCode) :
    (s.afterAcquire k code).owes = 0 := by
  unfold State.afterAcquire
  split
  · rfl
  · split
    · rfl
    · exact s.owes_loopTest (RwLockSem.increment k)

theorem owed_update (s : State T) (t : T) (pc : Pc) :
    census Pc.owes (Function.update s.pcs t pc) = s.owed - (s.pcs t).owes + pc.owes :=
  census_update Pc.owes s.pcs t pc

theorem owed_update_of_zero {s : State T} {t : T} {pc : Pc} (hfrom : (s.pcs t).owes = 0)
    (hto : pc.owes = 0) : census Pc.owes (Function.update s.pcs t pc) = s.owed := by
  rw [owed_update, hfrom, hto]
  omega

/-- Every free permit of `RW_SEM` has a woken client or an owed signal. -/
def Inv (s : State T) : Prop := s.rwSem.Covered s.owed

theorem turnRead_covered {s s' : State T} {t : T} {why : Turn} {next : Option ReturnCode → Pc}
    (hs : Inv s) (hfrom : (s.pcs t).owes = 0) (hto : ∀ code, (next code).owes = 0)
    (h : s.turnRead t why next = some s') : Inv s' := by
  obtain ⟨⟨q, code⟩, hq, rfl⟩ := Option.map_eq_some_iff.mp h
  show q.Covered (census Pc.owes (Function.update s.pcs t (next code)))
  rw [owed_update_of_zero hfrom (hto code)]
  exact SemaphoreQueue.turn_covered hs s.owed_nonneg hq

theorem turnToken_covered {s s' : State T} {t : T} {why : Turn} (hs : Inv s)
    (hfrom : (s.pcs t).owes = 0) (h : s.turnToken t why = some s') : Inv s' := by
  obtain ⟨⟨q, code⟩, -, rfl⟩ := Option.map_eq_some_iff.mp h
  have hto : (if code = none then Pc.waitingToken
      else if code = some .timedOut then .idle else s.loopTest 0).owes = 0 := by
    split
    · rfl
    · split
      · rfl
      · exact s.owes_loopTest 0
  show s.rwSem.Covered (census Pc.owes (Function.update s.pcs t _))
  rw [owed_update_of_zero hfrom hto]
  exact hs

theorem free_covered {s : State T} {t : T} {pc : Pc} {permits maximum : Int}
    (hfrom : (s.pcs t).owes = 0) (hto : pc.owes = 1)
    (h : s.rwSem.condition.Covered permits (s.owed + 1)) :
    Inv { s with
      rwSem := ⟨⟨permits, maximum⟩, s.rwSem.condition⟩
      pcs := Function.update s.pcs t pc } := by
  show s.rwSem.condition.Covered permits (census Pc.owes (Function.update s.pcs t pc))
  rw [owed_update, hfrom, hto, sub_zero]
  exact h

theorem signalReaders_covered {s s' : State T} {t : T} {target : Option T} (hs : Inv s)
    (h : step s (.signalReaders t target) = some s') : Inv s' := by
  simp only [step] at h
  split at h
  · rename_i pc hpc
    obtain ⟨q, hq, rfl⟩ := Option.map_eq_some_iff.mp h
    have hfrom : (s.pcs t).owes = 1 := by simp [Pc.owes, hpc]
    have hto : pc.owes = 0 := by
      revert hpc
      cases s.pcs t <;> simp only [Pc.afterSignal, Option.some.injEq, reduceCtorEq,
        false_implies]
      all_goals
        intro hpc
        rw [← hpc]
        rfl
    have howed : 1 ≤ s.owed := by
      rw [← hfrom]
      apply le_census
      intro u
      unfold Pc.owes
      split <;> decide
    show q.Covered (census Pc.owes (Function.update s.pcs t pc))
    rw [owed_update, hfrom, hto, add_zero]
    exact SemaphoreQueue.signal_covered hs howed hq
  · simp at h

theorem readunlock_covered {s s' : State T} {t : T} (hs : Inv s)
    (h : step s (.readunlock t) = some s') : Inv s' := by
  simp only [step, Option.ite_none_right_eq_some, Option.some.injEq] at h
  obtain ⟨hpc, rfl⟩ := h
  have hfrom : (s.pcs t).owes = 0 := by rw [hpc]; rfl
  show s.rwSem.post.1.Covered (census Pc.owes (Function.update s.pcs t _))
  obtain ⟨hcode, hcov⟩ | ⟨hcode, heq⟩ := SemaphoreQueue.post_covered (q := s.rwSem) hs
  · rw [hcode, owed_update, hfrom, sub_zero]
    exact hcov
  · rw [hcode, heq, owed_update_of_zero hfrom rfl]
    exact hs

theorem step_covered {s s' : State T} {op : Op T} (hs : Inv s) (hop : SignalsSuffice s op)
    (h : step s op = some s') : Inv s' := by
  cases op with
  | readlock t timeout =>
    simp only [step, Option.ite_none_right_eq_some, Option.ite_none_left_eq_some] at h
    obtain ⟨hpc, -, h⟩ := h
    exact turnRead_covered hs (by rw [hpc]; rfl) (owes_afterRead timeout) h
  | readTurn t why =>
    simp only [step] at h
    split at h
    · rename_i timeout hpc
      simp only [Option.ite_none_left_eq_some] at h
      exact turnRead_covered hs (by rw [hpc]; rfl) (owes_afterRead timeout) h.2
    · simp at h
  | readunlock t => exact readunlock_covered hs h
  | writelock t timeout =>
    simp only [step, Option.ite_none_right_eq_some, Option.ite_none_left_eq_some] at h
    obtain ⟨hpc, -, h⟩ := h
    exact turnToken_covered hs (by rw [hpc]; rfl) h
  | tokenTurn t why =>
    simp only [step, Option.ite_none_right_eq_some] at h
    obtain ⟨hpc, h⟩ := h
    exact turnToken_covered hs (by rw [hpc]; rfl) h
  | acquire t why =>
    simp only [step] at h
    split at h
    · rename_i k hpc
      exact turnRead_covered hs (by rw [hpc]; rfl) (s.owes_afterAcquire k) h
    · simp at h
  | giveBack t =>
    simp only [step] at h
    split at h
    · rename_i k hpc
      obtain rfl := Option.some.inj h
      -- the `k` permits of a writer that timed out
      have hfreed : freed s (.giveBack t) = some (s.rwSem.sem.counter + k) := by
        simp only [freed, hpc]
      exact free_covered (by rw [hpc]; rfl) rfl (hop _ hfreed)
    · simp at h
  | leave t =>
    simp only [step, Option.ite_none_right_eq_some, Option.some.injEq] at h
    obtain ⟨hpc, rfl⟩ := h
    show s.rwSem.Covered (census Pc.owes (Function.update s.pcs t _))
    rw [owed_update_of_zero (by rw [hpc]; rfl) (by split <;> rfl)]
    exact hs
  | writeunlock t =>
    simp only [step, Option.ite_none_right_eq_some, Option.some.injEq] at h
    obtain ⟨hpc, rfl⟩ := h
    exact free_covered (by rw [hpc]; rfl) rfl (hop _ rfl)
  | signalReaders t target => exact signalReaders_covered hs h
  | signalWriters t target =>
    simp only [step, Option.ite_none_right_eq_some] at h
    obtain ⟨hpc, h⟩ := h
    obtain ⟨q, -, rfl⟩ := Option.map_eq_some_iff.mp h
    show s.rwSem.Covered (census Pc.owes (Function.update s.pcs t .idle))
    rw [owed_update_of_zero (by rw [hpc]; rfl) rfl]
    exact hs
  | spuriousReader t =>
    obtain ⟨q, hq, rfl⟩ := Option.map_eq_some_iff.mp h
    exact SemaphoreQueue.spurious_covered hs hq
  | spuriousWriter t =>
    obtain ⟨q, -, rfl⟩ := Option.map_eq_some_iff.mp h
    exact hs

/-! ## Where the sleepers are -/

/-- In a wait on `RW_SEM`. -/
def Pc.onReaders : Pc → Prop
  | .reading _ | .acquiring _ => True
  | _ => False

/-- Who waits on a semaphore is at a wait on it. -/
structure Placed (s : State T) : Prop where
  readers : ∀ u, s.rwSem.condition.Waits u → (s.pcs u).onReaders
  writers : ∀ u, s.writerSemaphore.condition.Waits u → s.pcs u = .waitingToken

section
omit [Fintype T]
variable {s s' : State T} {t : T} {pc : Pc}

omit [DecidableEq T] in
theorem Placed.not_onReaders (hs : Placed s) (h : ¬ (s.pcs t).onReaders) :
    ¬ s.rwSem.condition.Waits t :=
  fun ht => h (hs.readers t ht)

omit [DecidableEq T] in
theorem Placed.not_onWriters (hs : Placed s) (h : s.pcs t ≠ .waitingToken) :
    ¬ s.writerSemaphore.condition.Waits t :=
  fun ht => h (hs.writers t ht)

/-- One client goes from one place to another; who waits on the two semaphores
    afterwards did so before, or is that client at its new place. -/
theorem Placed.move (hs : Placed s) {rw ws : SemaphoreQueue T} {maxReaders : Int}
    (hr : ∀ u, rw.condition.Waits u → (u ≠ t ∧ s.rwSem.condition.Waits u) ∨ (u = t ∧ pc.onReaders))
    (hw : ∀ u, ws.condition.Waits u →
      (u ≠ t ∧ s.writerSemaphore.condition.Waits u) ∨ (u = t ∧ pc = .waitingToken)) :
    Placed ⟨maxReaders, rw, ws, Function.update s.pcs t pc⟩ := by
  constructor
  · intro u hu
    show (Function.update s.pcs t pc u).onReaders
    obtain ⟨hne, hu⟩ | ⟨rfl, hpc⟩ := hr u hu
    · rw [Function.update_of_ne hne]
      exact hs.readers u hu
    · rw [Function.update_self]
      exact hpc
  · intro u hu
    show Function.update s.pcs t pc u = .waitingToken
    obtain ⟨hne, hu⟩ | ⟨rfl, hpc⟩ := hw u hu
    · rw [Function.update_of_ne hne]
      exact hs.writers u hu
    · rw [Function.update_self]
      exact hpc

omit [DecidableEq T] in
theorem waits_others {q : SemaphoreQueue T} {P : Prop} (h : ¬ q.condition.Waits t) (u : T)
    (hu : q.condition.Waits u) : (u ≠ t ∧ q.condition.Waits u) ∨ (u = t ∧ P) :=
  Or.inl ⟨fun hut => h (hut ▸ hu), hu⟩

theorem turnRead_placed {why : Turn} {next : Option ReturnCode → Pc} (hs : Placed s)
    (hfrom : s.pcs t ≠ .waitingToken) (hto : (next none).onReaders)
    (h : s.turnRead t why next = some s') : Placed s' := by
  obtain ⟨⟨q, code⟩, hq, rfl⟩ := Option.map_eq_some_iff.mp h
  apply hs.move
  · intro u hu
    obtain hu | ⟨rfl, rfl⟩ := SemaphoreQueue.turn_waits hq hu
    · exact Or.inl hu
    · exact Or.inr ⟨rfl, hto⟩
  · exact waits_others (hs.not_onWriters hfrom)

theorem turnToken_placed {why : Turn} (hs : Placed s) (hfrom : ¬ (s.pcs t).onReaders)
    (h : s.turnToken t why = some s') : Placed s' := by
  obtain ⟨⟨q, code⟩, hq, rfl⟩ := Option.map_eq_some_iff.mp h
  apply hs.move
  · exact waits_others (hs.not_onReaders hfrom)
  · intro u hu
    obtain hu | ⟨rfl, rfl⟩ := SemaphoreQueue.turn_waits hq hu
    · exact Or.inl hu
    · exact Or.inr ⟨rfl, if_pos rfl⟩

theorem Placed.move_active (hs : Placed s) (hfrom : ¬ (s.pcs t).onReaders)
    (hfrom' : s.pcs t ≠ .waitingToken) {rw ws : SemaphoreQueue T} {maxReaders : Int}
    (hr : ∀ u, rw.condition.Waits u → s.rwSem.condition.Waits u)
    (hw : ∀ u, ws.condition.Waits u → s.writerSemaphore.condition.Waits u) :
    Placed ⟨maxReaders, rw, ws, Function.update s.pcs t pc⟩ :=
  hs.move (fun u hu => waits_others (hs.not_onReaders hfrom) u (hr u hu))
    fun u hu => waits_others (hs.not_onWriters hfrom') u (hw u hu)

theorem step_placed {op : Op T} (hs : Placed s) (h : step s op = some s') : Placed s' := by
  cases op with
  | readlock t timeout =>
    simp only [step, Option.ite_none_right_eq_some, Option.ite_none_left_eq_some] at h
    obtain ⟨hpc, -, h⟩ := h
    exact turnRead_placed hs (by simp [hpc]) (show (afterRead timeout none).onReaders from trivial) h
  | readTurn t why =>
    simp only [step] at h
    split at h
    · rename_i timeout hpc
      simp only [Option.ite_none_left_eq_some] at h
      exact turnRead_placed hs (by simp [hpc]) (show (afterRead timeout none).onReaders from trivial) h.2
    · simp at h
  | writelock t timeout =>
    simp only [step, Option.ite_none_right_eq_some, Option.ite_none_left_eq_some] at h
    obtain ⟨hpc, -, h⟩ := h
    exact turnToken_placed hs (by simp [hpc, Pc.onReaders]) h
  | tokenTurn t why =>
    simp only [step, Option.ite_none_right_eq_some] at h
    obtain ⟨hpc, h⟩ := h
    exact turnToken_placed hs (by simp [hpc, Pc.onReaders]) h
  | acquire t why =>
    simp only [step] at h
    split at h
    · rename_i k hpc
      exact turnRead_placed hs (by simp [hpc]) (show (s.afterAcquire k none).onReaders from trivial) h
    · simp at h
  | giveBack t =>
    simp only [step] at h
    split at h
    · rename_i k hpc
      obtain rfl := Option.some.inj h
      exact hs.move_active (by simp [hpc, Pc.onReaders]) (by simp [hpc]) (fun _ hu => hu)
        fun _ hu => hu
    · simp at h
  | readunlock t | leave t | writeunlock t =>
    simp only [step, Option.ite_none_right_eq_some, Option.some.injEq] at h
    obtain ⟨hpc, rfl⟩ := h
    exact hs.move_active (by simp [hpc, Pc.onReaders]) (by simp [hpc]) (fun _ hu => hu)
      fun _ hu => hu
  | signalReaders t target =>
    simp only [step] at h
    split at h
    · rename_i pc hpc
      obtain ⟨q, hq, rfl⟩ := Option.map_eq_some_iff.mp h
      apply hs.move_active
      -- who owes a signal has left its wait
      · intro hon
        cases hat : s.pcs t <;> simp [hat, Pc.afterSignal, Pc.onReaders] at hpc hon
      · intro hat
        simp [hat, Pc.afterSignal] at hpc
      · exact fun u => SemaphoreQueue.signal_waits hq
      · exact fun u hu => hu
    · simp at h
  | signalWriters t target =>
    simp only [step, Option.ite_none_right_eq_some] at h
    obtain ⟨hpc, h⟩ := h
    obtain ⟨q, hq, rfl⟩ := Option.map_eq_some_iff.mp h
    exact hs.move_active (by simp [hpc, Pc.onReaders]) (by simp [hpc]) (fun _ hu => hu)
      fun u => SemaphoreQueue.signal_waits hq
  | spuriousReader t =>
    obtain ⟨q, hq, rfl⟩ := Option.map_eq_some_iff.mp h
    exact ⟨fun u hu => hs.readers u (SemaphoreQueue.spurious_waits hq hu), hs.writers⟩
  | spuriousWriter t =>
    obtain ⟨q, hq, rfl⟩ := Option.map_eq_some_iff.mp h
    exact ⟨hs.readers, fun u hu => hs.writers u (SemaphoreQueue.spurious_waits hq hu)⟩

end

/-- What holds in every state of a run whose unlocks signal enough. -/
structure Good (s : State T) : Prop where
  covered : Inv s
  placed : Placed s

omit [DecidableEq T] in
theorem start_good (numReaders : Int) : Good (start T numReaders) where
  covered := CondVar.covered_of_asleep_eq_empty rfl (start T numReaders).owed_nonneg
  placed := by
    constructor
    · intro u hu
      simp [start, CondVar.empty, CondVar.Waits] at hu
    · intro u hu
      simp [start, CondVar.empty, CondVar.Waits] at hu

omit [DecidableEq T] in
/-- Where nothing runs, nobody owes a signal: who owes one is in a call, and does
    not sleep. -/
theorem Good.owed_eq_zero {s : State T} (hs : Good s) (hquiet : ∀ t, ¬ s.InProgress t) :
    s.owed = 0 := by
  apply census_eq_zero
  intro t
  unfold Pc.owes
  split
  · rfl
  · rename_i howes
    exfalso
    apply hquiet t
    refine ⟨?_, ?_, ?_⟩
    · intro hpc
      exact howes (by rw [hpc]; rfl)
    · intro ht
      have hon := hs.placed.readers t (Or.inl ht)
      cases hpc : s.pcs t <;> simp [hpc, Pc.afterSignal, Pc.onReaders] at howes hon
    · intro ht
      have hon := hs.placed.writers t (Or.inl ht)
      exact howes (by rw [hon]; rfl)

/-- **No lost wake-up.** In a run whose unlocks free no more permits than they
    wake clients, no client is left asleep on a free permit. -/
theorem no_lost_wakeup (numReaders : Int) (ops : List (Op T)) (s : State T)
    (hops : Meets step SignalsSuffice (start T numReaders) ops)
    (h : run step (start T numReaders) ops = some s) : ¬ s.Stranded := by
  have hgood : Good s :=
    run_invariant_of_meets (fun _ _ _ hs hop hstep =>
      ⟨step_covered hs.covered hop hstep, step_placed hs.placed hstep⟩)
      (start_good numReaders) hops h
  intro hstranded
  obtain ⟨hfree, hasleep, hwoken, hquiet⟩ := hstranded
  have hcov : s.rwSem.Covered 0 := hgood.owed_eq_zero hquiet ▸ hgood.covered
  rw [CondVar.Covered.not_stranded hcov hwoken hfree] at hasleep
  exact Finset.not_nonempty_empty hasleep

/-- A writer takes the lock of two readers, and one of them sleeps behind it. -/
def readerBehindWriter : List (Op (Fin 3)) :=
  [.writelock 0 nano, .acquire 0 .enter, .acquire 0 .enter, .leave 0, .signalWriters 0 none,
   .readlock 1 infiniteTimeValue]

/-- The writer unlocks, and the one reader asleep takes a permit. -/
def readerWakes : List (Op (Fin 3)) :=
  readerBehindWriter ++ [.writeunlock 0, .signalReaders 0 (some 1), .readTurn 1 .resume]

theorem no_lost_wakeup_oneReader :
    ∃ s, run step (start (Fin 3) 2) readerWakes = some s ∧ ¬ s.Stranded :=
  ⟨_, rfl, no_lost_wakeup 2 readerWakes _ (by decide) rfl⟩

/-- Two readers sleep behind the writer. Its one signal wakes a reader, which
    takes its permit; the other sleeps on with a permit free. -/
theorem reader_stranded :
    ∃ s, run step (start (Fin 3) 2)
        (readerBehindWriter ++ [.readlock 2 infiniteTimeValue, .writeunlock 0,
          .signalReaders 0 (some 1), .readTurn 1 .resume]) =
      some s ∧ s.Stranded :=
  ⟨_, rfl, by decide⟩

end Arinc.RwLockWakeup
