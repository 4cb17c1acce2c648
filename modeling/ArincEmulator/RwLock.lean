import ArincEmulator.Lib.Runs
import ArincEmulator.Lib.Census
import ArincEmulator.Semaphore

/- The read/write lock over two counting semaphores (`RW_LOCK_SEM`) and any
   number of clients that use it. `RW_SEM` holds one permit a reader; a writer
   takes the `WRITER_SEMAPHORE` token, then every permit one by one, and gives
   back what it had taken when one of the waits times out. The semaphore waits
   and posts, and each block under `RW_SEM.mutex`, are the steps. The loop counts
   in an `int` what `MAX_READERS`, a `long`, may have more of.

   What is proved, for every interleaving and every choice of time-outs:
     1. `clientStep_conserves`: one step of one client moves permits between
        the counter and that client, and loses none, while the `int` can count them.
     2. `permits_conserved`: then the counter, the permits read, the permits a
        writer has taken so far and the whole lock of a writer add up to
        `MAX_READERS`; hence exclusion, the bound on readers and the exact
        rollback. That no run of a lock breaks this is true just of those for fewer
        than 2^31 readers.
     3. `rollback_wraps`: a run that takes 2^31 permits and gives back -2^31. -/
namespace Arinc.RwLock

open Arinc.Runs Arinc.Census

/-- `RW_LOCK_SEM`: its bound and its two semaphores. -/
structure RwLockSem where
  maxReaders : Int
  rwSem : Semaphore
  writerSemaphore : Semaphore
  deriving DecidableEq, Repr

/-- The constructor: `RW_SEM(num_readers, num_readers)`, `WRITER_SEMAPHORE(1, 1)`. -/
def RwLockSem.create (numReaders : Int) : RwLockSem :=
  ⟨numReaders, ⟨numReaders, numReaders⟩, ⟨1, 1⟩⟩

/-- Where a caller is in `writelock`: outside it, in the loop with
    `successcount` permits counted, past a timed-out loop with those permits still
    to give back, or before the last `WRITER_SEMAPHORE.post()`. -/
inductive Pc where
  | outside
  | acquiring (successcount : Int)
  | rollingBack (successcount : Int)
  | leaving (code : ReturnCode)
  deriving DecidableEq, Repr

namespace RwLockSem

/-- `readlock`. -/
def readlock (l : RwLockSem) (timeout : Int) (expired : Bool) :
    Option (RwLockSem × ReturnCode) :=
  (l.rwSem.waitFor timeout expired).map fun (r, code) => ({ l with rwSem := r }, code)

/-- `readunlock`. -/
def readunlock (l : RwLockSem) : RwLockSem := { l with rwSem := l.rwSem.post.1 }

/-- `++` on an `int`, which wraps around. `readcount` and `successcount` go up
    together, so one of them stands for both. -/
def increment (successcount : Int) : Int := (successcount + 1).bmod (2 ^ 32)

/-- The loop test `readcount < MAX_READERS`. -/
def loopTest (l : RwLockSem) (successcount : Int) : Pc :=
  if successcount < l.maxReaders then .acquiring successcount else .leaving .noError

/-- `writelock` up to its loop: the deadline, whose assertion ends the program
    on a time-out above `MAX_TIME_OUT`, and the wait for the writer token. -/
def writelock (l : RwLockSem) (timeout : Int) (expired : Bool) : Option (RwLockSem × Pc) :=
  if maxTimeOut < timeout then none
  else (l.writerSemaphore.waitUntil expired).map fun (w, code) =>
    ({ l with writerSemaphore := w }, if code = .timedOut then .outside else l.loopTest 0)

/-- One round of the loop of `writelock`. -/
def acquire (l : RwLockSem) (successcount : Int) (expired : Bool) : Option (RwLockSem × Pc) :=
  (l.rwSem.waitUntil expired).map fun (r, code) =>
    ({ l with rwSem := r },
      if code = .timedOut then .rollingBack successcount else l.loopTest (increment successcount))

/-- The block `RW_SEM.counter += successcount` of a timed-out `writelock`. -/
def giveBack (l : RwLockSem) (successcount : Int) : RwLockSem :=
  { l with rwSem := { l.rwSem with counter := l.rwSem.counter + successcount } }

/-- The `WRITER_SEMAPHORE.post()` every `writelock` past the token ends with. -/
def leave (l : RwLockSem) : RwLockSem :=
  { l with writerSemaphore := l.writerSemaphore.post.1 }

/-- `writeunlock`: the counter is set, not added to. -/
def writeunlock (l : RwLockSem) : RwLockSem :=
  { l with rwSem := { l.rwSem with counter := l.maxReaders } }

end RwLockSem

/-! ## Clients -/

/-- A client: the `NO_ERROR` read and write locks it has not unlocked, and its
    place in `writelock`. `taken` counts the permits its loop got from `RW_SEM`,
    until it gives back what it has counted; the source has no such variable. -/
structure Client where
  reads : Nat
  writes : Nat
  taken : Int
  pc : Pc
  deriving DecidableEq, Repr

/-- A client that has called nothing yet. -/
def Client.fresh : Client := ⟨0, 0, 0, .outside⟩

/-- The steps of one client. -/
inductive Op where
  | readlock (timeout : Int) (expired : Bool)
  | readunlock
  | writelock (timeout : Int) (expired : Bool)
  | acquire (expired : Bool)
  | giveBack
  | leave
  | writeunlock
  deriving DecidableEq, Repr

/-- The permits a round of the loop leaves with the caller: one more, or none
    of them once they make up the write lock. -/
def takenAfter (taken : Int) : Pc → Int
  | .acquiring _ => taken + 1
  | .rollingBack _ => taken
  | _ => 0

/-- One step of one client. An unlock needs a lock the client was given; a call
    starts when the client is in no other one. -/
def clientStep (l : RwLockSem) (c : Client) : Op → Option (RwLockSem × Client)
  | .readlock timeout expired =>
    if c.pc = .outside then
      (l.readlock timeout expired).map fun (l', code) =>
        (l', if code = .noError then { c with reads := c.reads + 1 } else c)
    else none
  | .readunlock =>
    if c.pc = .outside ∧ 0 < c.reads then
      some (l.readunlock, { c with reads := c.reads - 1 })
    else none
  | .writelock timeout expired =>
    if c.pc = .outside then
      (l.writelock timeout expired).map fun (l', pc) => (l', { c with pc := pc })
    else none
  | .acquire expired =>
    match c.pc with
    | .acquiring k => (l.acquire k expired).map fun (l', pc) =>
        (l', { c with taken := takenAfter c.taken pc, pc := pc })
    | _ => none
  | .giveBack =>
    match c.pc with
    | .rollingBack k =>
      some (l.giveBack k, { c with taken := 0, pc := .leaving .timedOut })
    | _ => none
  | .leave =>
    match c.pc with
    | .leaving code =>
      some (l.leave, { c with
        writes := if code = .noError then c.writes + 1 else c.writes, pc := .outside })
    | _ => none
  | .writeunlock =>
    if c.pc = .outside ∧ 0 < c.writes then
      some (l.writeunlock, { c with writes := c.writes - 1 })
    else none

/-- One permit more is one the `int` of the loop can count. -/
def Pc.NextFits : Pc → Prop
  | .acquiring k => k + 1 < 2 ^ 31
  | _ => True

instance : (pc : Pc) → Decidable pc.NextFits
  | .acquiring _ => inferInstanceAs (Decidable (_ < _))
  | .outside | .rollingBack _ | .leaving _ => inferInstanceAs (Decidable True)

/-- The lock and all its clients. -/
structure State (ι : Type*) where
  lock : RwLockSem
  clients : ι → Client

variable {ι : Type*}

/-- A new lock, no client has called it. -/
def start (numReaders : Int) : State ι := ⟨.create numReaders, fun _ => .fresh⟩

/-- Client `i` takes a step. -/
def step [DecidableEq ι] (s : State ι) (a : ι × Op) : Option (State ι) :=
  (clientStep s.lock (s.clients a.1) a.2).map fun (l, c) =>
    ⟨l, Function.update s.clients a.1 c⟩

/-- A step of a loop that takes a permit can count it. -/
def CountFits (s : State ι) (a : ι × Op) : Prop :=
  a.2 = .acquire false → (s.clients a.1).pc.NextFits

instance (s : State ι) (a : ι × Op) : Decidable (CountFits s a) :=
  inferInstanceAs (Decidable (_ → _))

/-! ## What a client holds -/

/-- The write locks of a client: those it may unlock, and the one whose loop
    has all permits while the call has not yet returned. -/
def Client.writeLocks (c : Client) : Nat :=
  c.writes + if c.pc = .leaving .noError then 1 else 0

/-- Whether the client is between taking the writer token and posting it. -/
def Client.inside (c : Client) : Int := if c.pc = .outside then 0 else 1

/-- The permits a client keeps from the counter of a lock for `n` readers. -/
def Client.weight (n : Int) (c : Client) : Int := c.reads + c.taken + n * c.writeLocks

/-- The ghost count is the loop's `successcount`, and the loop is left at `n`. -/
def Client.Ok (n : Int) (c : Client) : Prop :=
  match c.pc with
  | .acquiring k | .rollingBack k => c.taken = k ∧ 0 ≤ k ∧ k < n
  | _ => c.taken = 0

/-- A lock for `n` readers with non-negative counters. -/
structure RwLockSem.Ok (n : Int) (l : RwLockSem) : Prop where
  maxReaders : l.maxReaders = n
  rwMax : l.rwSem.maximumvalue = n
  writerMax : l.writerSemaphore.maximumvalue = 1
  counter_nonneg : 0 ≤ l.rwSem.counter
  writer_nonneg : 0 ≤ l.writerSemaphore.counter

/-! ## What the lock's operations can do -/

namespace RwLockSem

theorem readlock_cases {l l' : RwLockSem} {timeout : Int} {expired : Bool} {code : ReturnCode}
    (h : l.readlock timeout expired = some (l', code)) :
    (code = .timedOut ∧ l' = l) ∨
      (code = .noError ∧ l.rwSem.counter ≠ 0 ∧
        l' = { l with rwSem := { l.rwSem with counter := l.rwSem.counter - 1 } }) := by
  obtain ⟨⟨r, code'⟩, hr, heq⟩ := Option.map_eq_some_iff.mp h
  obtain ⟨rfl, rfl⟩ := Prod.mk.inj heq
  rcases Semaphore.waitFor_cases hr with ⟨hc, rfl⟩ | ⟨hc, hne, rfl⟩
  · exact Or.inl ⟨hc, rfl⟩
  · exact Or.inr ⟨hc, hne, rfl⟩

theorem writelock_cases {l l' : RwLockSem} {timeout : Int} {expired : Bool} {pc : Pc}
    (h : l.writelock timeout expired = some (l', pc)) :
    (pc = .outside ∧ l' = l) ∨
      (pc = l.loopTest 0 ∧ l.writerSemaphore.counter ≠ 0 ∧ l' = { l with
        writerSemaphore := { l.writerSemaphore with counter := l.writerSemaphore.counter - 1 } }) := by
  unfold writelock at h
  split at h
  · simp at h
  · obtain ⟨⟨w, code⟩, hw, heq⟩ := Option.map_eq_some_iff.mp h
    obtain ⟨rfl, rfl⟩ := Prod.mk.inj heq
    rcases Semaphore.waitUntil_cases hw with ⟨rfl, rfl⟩ | ⟨rfl, hne, rfl⟩
    · exact Or.inl ⟨rfl, rfl⟩
    · exact Or.inr ⟨rfl, hne, rfl⟩

theorem acquire_cases {l l' : RwLockSem} {k : Int} {expired : Bool} {pc : Pc}
    (h : l.acquire k expired = some (l', pc)) :
    (pc = .rollingBack k ∧ l' = l) ∨
      (expired = false ∧ pc = l.loopTest (increment k) ∧ l.rwSem.counter ≠ 0 ∧
        l' = { l with rwSem := { l.rwSem with counter := l.rwSem.counter - 1 } }) := by
  obtain ⟨⟨r, code⟩, hr, heq⟩ := Option.map_eq_some_iff.mp h
  obtain ⟨rfl, rfl⟩ := Prod.mk.inj heq
  cases expired with
  | true =>
    obtain ⟨rfl, rfl⟩ := Prod.mk.inj (Option.some.inj hr)
    exact Or.inl ⟨rfl, rfl⟩
  | false =>
    rcases Semaphore.waitUntil_cases hr with ⟨rfl, rfl⟩ | ⟨rfl, hne, rfl⟩
    · exact Or.inl ⟨rfl, rfl⟩
    · exact Or.inr ⟨rfl, rfl, hne, rfl⟩

theorem increment_of_fits {k : Int} (hk : 0 ≤ k) (hfits : k + 1 < 2 ^ 31) :
    increment k = k + 1 := by
  apply Int.bmod_eq_of_le
  · omega
  · omega

theorem create_ok {n : Int} (hn : 1 ≤ n) : (create n).Ok n :=
  ⟨rfl, rfl, rfl, by simp only [create]; omega, by simp [create]⟩

end RwLockSem

/-- A client's step keeps the lock and the client well formed and moves
    permits and the token between them without losing any. -/
structure Conserves (n : Int) (l : RwLockSem) (c : Client) (l' : RwLockSem) (c' : Client) :
    Prop where
  lock : l'.Ok n
  client : c'.Ok n
  permits : l'.rwSem.counter + c'.weight n = l.rwSem.counter + c.weight n
  token : l'.writerSemaphore.counter + c'.inside = l.writerSemaphore.counter + c.inside

theorem Client.Ok.taken_nonneg {n : Int} {c : Client} (hc : c.Ok n) : 0 ≤ c.taken := by
  unfold Client.Ok at hc
  split at hc <;> omega

theorem Client.weight_nonneg {n : Int} (hn : 1 ≤ n) {c : Client} (hc : c.Ok n) :
    0 ≤ c.weight n := by
  have hlocks : 0 ≤ n * (c.writeLocks : Int) := Int.mul_nonneg (by omega) (by omega)
  have htaken := hc.taken_nonneg
  unfold Client.weight
  omega

theorem Client.inside_nonneg (c : Client) : 0 ≤ c.inside := by
  unfold Client.inside
  split <;> omega

section Steps

variable {n : Int} {l l' : RwLockSem} {c c' : Client}

theorem conserves_readlock {timeout : Int} {expired : Bool} (hl : l.Ok n) (hc : c.Ok n)
    (h : clientStep l c (.readlock timeout expired) = some (l', c')) : Conserves n l c l' c' := by
  simp only [clientStep] at h
  split at h
  · rename_i hpc
    obtain ⟨⟨l₁, code⟩, hr, heq⟩ := Option.map_eq_some_iff.mp h
    obtain ⟨rfl, rfl⟩ := Prod.mk.inj heq
    rcases RwLockSem.readlock_cases hr with ⟨rfl, rfl⟩ | ⟨rfl, hne, rfl⟩
    · exact ⟨hl, hc, rfl, rfl⟩
    · have hpos := hl.counter_nonneg
      simp only [if_true]
      refine ⟨{ hl with counter_nonneg := ?_ }, ?_, ?_, rfl⟩
      · simp only
        omega
      · simpa only [Client.Ok, hpc] using hc
      · simp only [Client.weight, Client.writeLocks, hpc]
        omega
  · simp at h

/-- An unlock by a holder finds the counter below its maximum, so the post
    goes through. -/
theorem conserves_readunlock (hn : 1 ≤ n) (hl : l.Ok n) (hc : c.Ok n)
    (hle : l.rwSem.counter + c.weight n ≤ n)
    (h : clientStep l c .readunlock = some (l', c')) : Conserves n l c l' c' := by
  simp only [clientStep] at h
  split at h
  · rename_i hpc
    obtain ⟨rfl, rfl⟩ := Prod.mk.inj (Option.some.inj h)
    have hw : (c.reads : Int) ≤ c.weight n := by
      have hlocks : 0 ≤ n * (c.writeLocks : Int) := Int.mul_nonneg (by omega) (by omega)
      simp only [Client.Ok, hpc.1] at hc
      unfold Client.weight
      omega
    have hlt : l.rwSem.counter < l.rwSem.maximumvalue := by rw [hl.rwMax]; omega
    have hpos := hl.counter_nonneg
    simp only [RwLockSem.readunlock, Semaphore.post_of_lt hlt]
    refine ⟨{ hl with counter_nonneg := ?_ }, ?_, ?_, rfl⟩
    · simp only
      omega
    · simpa only [Client.Ok, hpc.1] using hc
    · simp only [Client.weight, Client.writeLocks, hpc.1]
      omega
  · simp at h

theorem conserves_writelock {timeout : Int} {expired : Bool} (hn : 1 ≤ n) (hl : l.Ok n)
    (hc : c.Ok n) (h : clientStep l c (.writelock timeout expired) = some (l', c')) :
    Conserves n l c l' c' := by
  simp only [clientStep] at h
  split at h
  · rename_i hpc
    obtain ⟨⟨l₁, pc⟩, hw, heq⟩ := Option.map_eq_some_iff.mp h
    obtain ⟨rfl, rfl⟩ := Prod.mk.inj heq
    rcases RwLockSem.writelock_cases hw with ⟨rfl, rfl⟩ | ⟨rfl, hne, rfl⟩
    · refine ⟨hl, ?_, ?_, ?_⟩
      · simpa only [Client.Ok, hpc] using hc
      · simp only [Client.weight, Client.writeLocks, hpc]
      · simp only [Client.inside, hpc]
    · have hpos := hl.writer_nonneg
      have htest : l.loopTest 0 = .acquiring 0 := by
        simp only [RwLockSem.loopTest, hl.maxReaders]
        exact if_pos (by omega)
      simp only [Client.Ok, hpc] at hc
      refine ⟨{ hl with writer_nonneg := ?_ }, ?_, ?_, ?_⟩
      · simp only
        omega
      · simp only [Client.Ok, htest]
        omega
      · simp [Client.weight, Client.writeLocks, hpc, htest]
      · simp only [Client.inside, hpc, htest]
        simp
  · simp at h

/-- The round that takes the last permit turns the permits into the lock. -/
theorem conserves_acquire {expired : Bool} (hl : l.Ok n) (hc : c.Ok n)
    (hfits : expired = false → c.pc.NextFits)
    (h : clientStep l c (.acquire expired) = some (l', c')) : Conserves n l c l' c' := by
  simp only [clientStep] at h
  split at h
  · rename_i k hpc
    obtain ⟨⟨l₁, pc⟩, ha, heq⟩ := Option.map_eq_some_iff.mp h
    obtain ⟨rfl, rfl⟩ := Prod.mk.inj heq
    simp only [Client.Ok, hpc] at hc
    rcases RwLockSem.acquire_cases ha with ⟨rfl, rfl⟩ | ⟨hexpired, rfl, hne, rfl⟩
    · refine ⟨hl, hc, ?_, ?_⟩
      · simp [Client.weight, Client.writeLocks, hpc, takenAfter]
      · simp [Client.inside, hpc]
    · have hpos := hl.counter_nonneg
      have hok : ({ l with rwSem := { l.rwSem with counter := l.rwSem.counter - 1 } } :
          RwLockSem).Ok n := { hl with counter_nonneg := by simp only; omega }
      have hcount : RwLockSem.increment k = k + 1 := by
        have hnext := hfits hexpired
        rw [hpc] at hnext
        exact RwLockSem.increment_of_fits hc.2.1 hnext
      rw [hcount]
      by_cases hlast : k + 1 < n
      · have htest : l.loopTest (k + 1) = .acquiring (k + 1) := by
          simp only [RwLockSem.loopTest, hl.maxReaders, if_pos hlast]
        refine ⟨hok, ?_, ?_, ?_⟩
        · simp only [Client.Ok, htest, takenAfter]
          omega
        · simp only [Client.weight, Client.writeLocks, hpc, htest, takenAfter]
          simp
          omega
        · simp [Client.inside, hpc, htest]
      · have htest : l.loopTest (k + 1) = .leaving .noError := by
          simp only [RwLockSem.loopTest, hl.maxReaders, if_neg hlast]
        refine ⟨hok, ?_, ?_, ?_⟩
        · simp only [Client.Ok, htest, takenAfter]
        · have hexpand : n * ((c.writes : Int) + 1) = n * c.writes + n := by
            rw [Int.mul_add, Int.mul_one]
          simp [Client.weight, Client.writeLocks, hpc, htest, takenAfter, hexpand]
          omega
        · simp [Client.inside, hpc, htest]
  · simp at h

theorem conserves_giveBack (hl : l.Ok n) (hc : c.Ok n)
    (h : clientStep l c .giveBack = some (l', c')) : Conserves n l c l' c' := by
  simp only [clientStep] at h
  split at h
  · rename_i k hpc
    obtain ⟨rfl, rfl⟩ := Prod.mk.inj (Option.some.inj h)
    simp only [Client.Ok, hpc] at hc
    have hpos := hl.counter_nonneg
    refine ⟨{ hl with counter_nonneg := ?_ }, ?_, ?_, ?_⟩
    · simp only [RwLockSem.giveBack]
      omega
    · simp only [Client.Ok]
    · simp [Client.weight, Client.writeLocks, hpc, RwLockSem.giveBack]
      omega
    · simp [Client.inside, hpc, RwLockSem.giveBack]
  · simp at h

/-- The token goes back: only its holder is inside, so the post goes through. -/
theorem conserves_leave (hl : l.Ok n) (hc : c.Ok n)
    (hle : l.writerSemaphore.counter + c.inside ≤ 1)
    (h : clientStep l c .leave = some (l', c')) : Conserves n l c l' c' := by
  simp only [clientStep] at h
  split at h
  · rename_i code hpc
    obtain ⟨rfl, rfl⟩ := Prod.mk.inj (Option.some.inj h)
    simp only [Client.Ok, hpc] at hc
    have hin : c.inside = 1 := by simp [Client.inside, hpc]
    have hlt : l.writerSemaphore.counter < l.writerSemaphore.maximumvalue := by
      rw [hl.writerMax]; omega
    have hpos := hl.writer_nonneg
    simp only [RwLockSem.leave, Semaphore.post_of_lt hlt]
    refine ⟨{ hl with writer_nonneg := ?_ }, hc, ?_, ?_⟩
    · simp only
      omega
    · by_cases hcode : code = .noError
      · simp [Client.weight, Client.writeLocks, hpc, hcode]
      · simp [Client.weight, Client.writeLocks, hpc, hcode]
    · simp [Client.inside, hpc]
  · simp at h

/-- `writeunlock` overwrites the counter: right because the holder's permits
    are all there are, so the counter it overwrites is zero. -/
theorem conserves_writeunlock (hn : 1 ≤ n) (hl : l.Ok n) (hc : c.Ok n)
    (hle : l.rwSem.counter + c.weight n ≤ n)
    (h : clientStep l c .writeunlock = some (l', c')) : Conserves n l c l' c' := by
  simp only [clientStep] at h
  split at h
  · rename_i hpc
    obtain ⟨rfl, rfl⟩ := Prod.mk.inj (Option.some.inj h)
    simp only [Client.Ok, hpc.1] at hc
    have hpos := hl.counter_nonneg
    obtain ⟨w, hw⟩ := Nat.exists_eq_succ_of_ne_zero (Nat.pos_iff_ne_zero.mp hpc.2)
    have hexpand : n * ((w : Int) + 1) = n * w + n := by rw [Int.mul_add, Int.mul_one]
    have hrest : 0 ≤ n * (w : Int) := Int.mul_nonneg (by omega) (by omega)
    simp only [Client.weight, Client.writeLocks, hpc.1, hw] at hle
    simp [hexpand] at hle
    refine ⟨{ hl with counter_nonneg := ?_ }, ?_, ?_, rfl⟩
    · simp only [RwLockSem.writeunlock, hl.maxReaders]
      omega
    · simpa only [Client.Ok, hpc.1] using hc
    · simp only [Client.weight, Client.writeLocks, hpc.1, hw, RwLockSem.writeunlock, hl.maxReaders]
      simp [hexpand]
      omega
  · simp at h

theorem clientStep_conserves (hn : 1 ≤ n) (hl : l.Ok n) (hc : c.Ok n)
    (hle : l.rwSem.counter + c.weight n ≤ n) (hin : l.writerSemaphore.counter + c.inside ≤ 1)
    {op : Op} (hfits : op = .acquire false → c.pc.NextFits)
    (h : clientStep l c op = some (l', c')) : Conserves n l c l' c' := by
  cases op with
  | readlock timeout expired => exact conserves_readlock hl hc h
  | readunlock => exact conserves_readunlock hn hl hc hle h
  | writelock timeout expired => exact conserves_writelock hn hl hc h
  | acquire expired =>
    exact conserves_acquire hl hc (fun hexpired => hfits (congrArg Op.acquire hexpired)) h
  | giveBack => exact conserves_giveBack hl hc h
  | leave => exact conserves_leave hl hc hin h
  | writeunlock => exact conserves_writeunlock hn hl hc hle h

end Steps

/-! ## All clients together -/

/-- What holds between any two steps: the clients hold what the counters lack. -/
structure Inv [Fintype ι] (n : Int) (s : State ι) : Prop where
  lock : s.lock.Ok n
  client : ∀ i, (s.clients i).Ok n
  permits : s.lock.rwSem.counter + census (Client.weight n) s.clients = n
  token : s.lock.writerSemaphore.counter + census Client.inside s.clients = 1

section Population

variable [Fintype ι] {n : Int}

theorem start_inv (hn : 1 ≤ n) : Inv n (start n : State ι) where
  lock := RwLockSem.create_ok hn
  client _ := rfl
  permits := by
    rw [census_eq_zero fun i => by simp [start, Client.fresh, Client.weight, Client.writeLocks]]
    simp [start, RwLockSem.create]
  token := by
    rw [census_eq_zero fun i => by simp [start, Client.fresh, Client.inside]]
    simp [start, RwLockSem.create]

variable [DecidableEq ι]

theorem step_inv (hn : 1 ≤ n) (s : State ι) (a : ι × Op) (t : State ι) (hs : Inv n s)
    (hfits : CountFits s a) (h : step s a = some t) : Inv n t := by
  obtain ⟨⟨l, c⟩, hc, rfl⟩ := Option.map_eq_some_iff.mp h
  have hweight : (s.clients a.1).weight n ≤ census (Client.weight n) s.clients :=
    le_census (fun i => Client.weight_nonneg hn (hs.client i)) a.1
  have hinside : (s.clients a.1).inside ≤ census Client.inside s.clients :=
    le_census (fun i => (s.clients i).inside_nonneg) a.1
  have hpermits := hs.permits
  have htoken := hs.token
  have hstep := clientStep_conserves hn hs.lock (hs.client a.1) (by omega) (by omega) hfits hc
  have hp := hstep.permits
  have ht := hstep.token
  refine ⟨hstep.lock, ?_, ?_, ?_⟩
  · intro i
    by_cases hi : i = a.1
    · simpa only [hi, Function.update_self] using hstep.client
    · simpa only [Function.update_of_ne hi] using hs.client i
  · simp only [census_update]
    omega
  · simp only [census_update]
    omega

theorem reachable_inv (hn : 1 ≤ n) {as : List (ι × Op)} {s : State ι}
    (hfits : Meets step CountFits (start n) as) (h : run step (start n) as = some s) : Inv n s :=
  run_invariant_of_meets (step_inv hn) (start_inv hn) hfits h

omit [DecidableEq ι] in
/-- A loop of a lock for fewer than 2^31 readers ends before its `int` is full. -/
theorem Inv.countFits {s : State ι} (hs : Inv n s) (hint : n < 2 ^ 31) (a : ι × Op) :
    CountFits s a := by
  intro _
  have hok := hs.client a.1
  unfold Client.Ok at hok
  unfold Pc.NextFits
  split
  · rename_i k hpc
    simp only [hpc] at hok
    omega
  · trivial

/-- The read permits held by the clients. -/
def readsHeld (s : State ι) : Int := census (fun c => (c.reads : Int)) s.clients

/-- The permits held by running acquisition loops. -/
def permitsTaken (s : State ι) : Int := census Client.taken s.clients

/-- Some client has the lock for writing. -/
def WriterHolds (s : State ι) : Prop := ∃ i, 0 < (s.clients i).writeLocks

instance (s : State ι) : Decidable (WriterHolds s) :=
  inferInstanceAs (Decidable (∃ i, 0 < (s.clients i).writeLocks))

omit [DecidableEq ι] in
theorem census_weight (s : State ι) :
    census (Client.weight n) s.clients = readsHeld s + permitsTaken s
      + n * census (fun c => (c.writeLocks : Int)) s.clients := by
  have h := census_add (fun c : Client => (c.reads : Int) + c.taken)
    (fun c => n * (c.writeLocks : Int)) s.clients
  rw [census_add (fun c : Client => (c.reads : Int)) Client.taken,
    census_mul_left n (fun c : Client => (c.writeLocks : Int))] at h
  exact h

omit [DecidableEq ι] in
/-- With a writer there is exactly one write lock, and nobody has anything else. -/
theorem Inv.of_writerHolds (hn : 1 ≤ n) {s : State ι} (hs : Inv n s) (hw : WriterHolds s) :
    census (fun c => (c.writeLocks : Int)) s.clients = 1 ∧ s.lock.rwSem.counter = 0 ∧
      readsHeld s = 0 ∧ permitsTaken s = 0 := by
  obtain ⟨i, hi⟩ := hw
  have hone : (0 : Int) < census (fun c => (c.writeLocks : Int)) s.clients := by
    have h := le_census (w := fun c : Client => (c.writeLocks : Int)) (c := s.clients)
      (fun j => by omega) i
    omega
  have hreads : 0 ≤ readsHeld s := census_nonneg fun j => by omega
  have htaken : 0 ≤ permitsTaken s := census_nonneg fun j => (hs.client j).taken_nonneg
  have hpos := hs.lock.counter_nonneg
  have hsum := hs.permits
  rw [census_weight] at hsum
  generalize census (fun c : Client => (c.writeLocks : Int)) s.clients = w at hone hsum ⊢
  have hle : w ≤ 1 := by
    by_contra hgt
    have hmul : n * 2 ≤ n * w := Int.mul_le_mul_of_nonneg_left (by omega) (by omega)
    omega
  obtain rfl : w = 1 := by omega
  rw [Int.mul_one] at hsum
  omega

omit [DecidableEq ι] in
theorem Inv.conservation (hn : 1 ≤ n) {s : State ι} (hs : Inv n s) :
    s.lock.rwSem.counter + readsHeld s + permitsTaken s + (if WriterHolds s then n else 0) = n := by
  have hsum := hs.permits
  rw [census_weight] at hsum
  by_cases hw : WriterHolds s
  · rw [(hs.of_writerHolds hn hw).1, Int.mul_one] at hsum
    rw [if_pos hw]
    omega
  · have hzero : census (fun c : Client => (c.writeLocks : Int)) s.clients = 0 :=
      census_eq_zero fun i => by
        have hi : ¬ 0 < (s.clients i).writeLocks := fun h => hw ⟨i, h⟩
        omega
    rw [hzero, Int.mul_zero] at hsum
    rw [if_neg hw]
    omega

omit [DecidableEq ι] in
/-- A holding writer excludes every reader and every other write lock. -/
theorem Inv.exclusion (hn : 1 ≤ n) {s : State ι} (hs : Inv n s) {i : ι}
    (hi : 0 < (s.clients i).writeLocks) :
    (s.clients i).writeLocks = 1 ∧ (∀ j, (s.clients j).reads = 0) ∧
      ∀ j, 0 < (s.clients j).writeLocks → j = i := by
  obtain ⟨hone, -, hreads, -⟩ := hs.of_writerHolds hn ⟨i, hi⟩
  have hnonneg : ∀ j, 0 ≤ ((s.clients j).writeLocks : Int) := fun j => by omega
  refine ⟨?_, ?_, ?_⟩
  · have h := le_census (w := fun c : Client => (c.writeLocks : Int)) hnonneg i
    omega
  · intro j
    have h := eq_zero_of_census (w := fun c : Client => (c.reads : Int)) (fun k => by omega)
      hreads j
    omega
  · intro j hj
    by_contra hij
    have h := pair_le_census (w := fun c : Client => (c.writeLocks : Int)) hnonneg hij
    omega

omit [DecidableEq ι] in
/-- At most one client is between taking the writer token and posting it. -/
theorem Inv.inside_unique {s : State ι} (hs : Inv n s) {i j : ι}
    (hi : (s.clients i).pc ≠ .outside) (hj : (s.clients j).pc ≠ .outside) : i = j := by
  by_contra hij
  have h := pair_le_census (w := Client.inside) (fun k => (s.clients k).inside_nonneg) hij
  have htoken := hs.token
  have hpos := hs.lock.writer_nonneg
  simp only [Client.inside, if_neg hi, if_neg hj] at h
  omega

/-- A timed-out `writelock` can always take its rollback step, which adds to the
    counter what this call had taken from it. -/
theorem Inv.rollback {s : State ι} (hs : Inv n s) {i : ι} {k : Int}
    (hpc : (s.clients i).pc = .rollingBack k) :
    ∃ t, step s (i, .giveBack) = some t ∧
      t.lock.rwSem.counter = s.lock.rwSem.counter + (s.clients i).taken := by
  have hok := hs.client i
  simp only [Client.Ok, hpc] at hok
  have hstep : clientStep s.lock (s.clients i) .giveBack = some (s.lock.giveBack k,
      { s.clients i with taken := 0, pc := .leaving .timedOut }) := by
    simp only [clientStep, hpc]
  refine ⟨_, by rw [step, hstep]; rfl, ?_⟩
  simp only [RwLockSem.giveBack]
  omega

/-- Permit conservation, and what follows from it: a writer holds the lock alone,
    at most `MAX_READERS` readers hold it, one writer at a time is in its loop,
    and a writer that timed out gives back exactly what it had taken. -/
structure Conserved (n : Int) (s : State ι) : Prop where
  permits : s.lock.rwSem.counter + readsHeld s + permitsTaken s
    + (if WriterHolds s then n else 0) = n
  alone : ∀ i, 0 < (s.clients i).writeLocks →
    (s.clients i).writeLocks = 1 ∧ (∀ j, (s.clients j).reads = 0) ∧
      ∀ j, 0 < (s.clients j).writeLocks → j = i
  counter_nonneg : 0 ≤ s.lock.rwSem.counter
  readers : readsHeld s ≤ n
  inside_unique : ∀ i j, (s.clients i).pc ≠ .outside → (s.clients j).pc ≠ .outside → i = j
  rollback : ∀ i k, (s.clients i).pc = .rollingBack k → ∃ t, step s (i, .giveBack) = some t ∧
    t.lock.rwSem.counter = s.lock.rwSem.counter + (s.clients i).taken

theorem Inv.conserved (hn : 1 ≤ n) {s : State ι} (hs : Inv n s) : Conserved n s := by
  have hsum := hs.conservation hn
  have hpos := hs.lock.counter_nonneg
  have htaken : 0 ≤ permitsTaken s := census_nonneg fun j => (hs.client j).taken_nonneg
  refine ⟨hsum, fun i hi => hs.exclusion hn hi, hpos, ?_,
    fun i j hi hj => hs.inside_unique hi hj, fun i k hpc => hs.rollback hpc⟩
  split at hsum <;> omega

end Population

/-! ## A loop past its `int` -/

section Overflow

variable [DecidableEq ι] {n x r : Int} {w : Semaphore} {i : ι}

/-- The lock with one client that has called it. -/
def solo (i : ι) (p : RwLockSem × Client) : State ι :=
  ⟨p.1, Function.update (fun _ => .fresh) i p.2⟩

/-- That client by itself. -/
def soloStep (p : RwLockSem × Client) (op : Op) : Option (RwLockSem × Client) :=
  clientStep p.1 p.2 op

theorem run_solo (ops : List Op) (p : RwLockSem × Client) :
    run step (solo i p) (ops.map (Prod.mk i)) = (run soloStep p ops).map (solo i) := by
  induction ops generalizing p with
  | nil => rfl
  | cons op ops ih =>
    rw [List.map_cons, run_cons, run_cons, step]
    simp only [solo, Function.update_self, Function.update_idem]
    cases hstep : clientStep p.1 p.2 op with
    | none => simp [soloStep, hstep]
    | some q =>
      simp only [soloStep, hstep, Option.map_some, Option.bind_some]
      exact ih q

theorem run_reads (k : Nat) (reads : Nat) (hx : (k : Int) ≤ x) :
    run soloStep (⟨n, ⟨x, n⟩, w⟩, ⟨reads, 0, 0, .outside⟩)
        (List.replicate k (.readlock 0 false)) =
      some (⟨n, ⟨x - k, n⟩, w⟩, ⟨reads + k, 0, 0, .outside⟩) := by
  induction k generalizing x reads with
  | zero => simp
  | succ k ih =>
    have hne : x ≠ 0 := by omega
    have hlimit : ¬ maxTimeOut < 0 := by decide
    have hzero : ¬ (0 : Int) = infiniteTimeValue := by decide
    have hread : soloStep (⟨n, ⟨x, n⟩, w⟩, ⟨reads, 0, 0, .outside⟩) (.readlock 0 false) =
        some (⟨n, ⟨x - 1, n⟩, w⟩, ⟨reads + 1, 0, 0, .outside⟩) := by
      simp [soloStep, clientStep, RwLockSem.readlock, Semaphore.waitFor, Semaphore.waitUntil,
        Semaphore.wait, hne, hlimit, hzero]
    have hleft : x - 1 - (k : Int) = x - ((k + 1 : Nat) : Int) := by
      push_cast
      omega
    rw [List.replicate_succ, run_cons, hread, Option.bind_some, ih (reads + 1) (by omega), hleft,
      Nat.add_right_comm, Nat.add_assoc]

/-- `k` rounds of the loop, which does not come to an end: its `int` stays below
    `MAX_READERS`. -/
theorem run_acquires (k : Nat) (reads : Nat) (taken : Int) (hn : 2 ^ 31 ≤ n) (hx : (k : Int) ≤ x) :
    run soloStep (⟨n, ⟨x, n⟩, w⟩, ⟨reads, 0, taken, .acquiring (taken.bmod (2 ^ 32))⟩)
        (List.replicate k (.acquire false)) =
      some (⟨n, ⟨x - k, n⟩, w⟩,
        ⟨reads, 0, taken + k, .acquiring ((taken + k).bmod (2 ^ 32))⟩) := by
  induction k generalizing x taken with
  | zero => simp
  | succ k ih =>
    have hne : x ≠ 0 := by omega
    have hcount : RwLockSem.increment (taken.bmod (2 ^ 32)) = (taken + 1).bmod (2 ^ 32) :=
      Int.bmod_add_bmod ..
    have hbelow : (taken + 1).bmod (2 ^ 32) < n := by
      have hlt : (taken + 1).bmod (2 ^ 32) < ((2 ^ 32 : Nat) + 1) / 2 :=
        Int.bmod_lt (by decide)
      omega
    have htest : RwLockSem.loopTest ⟨n, ⟨x, n⟩, w⟩
        (RwLockSem.increment (taken.bmod (2 ^ 32))) = .acquiring ((taken + 1).bmod (2 ^ 32)) := by
      rw [hcount, RwLockSem.loopTest, if_pos hbelow]
    have hwait : Semaphore.waitUntil ⟨x, n⟩ false = some (⟨x - 1, n⟩, .noError) := by
      simp [Semaphore.waitUntil, Semaphore.wait, hne]
    have hround : soloStep (⟨n, ⟨x, n⟩, w⟩, ⟨reads, 0, taken, .acquiring (taken.bmod (2 ^ 32))⟩)
        (.acquire false) =
        some (⟨n, ⟨x - 1, n⟩, w⟩,
          ⟨reads, 0, taken + 1, .acquiring ((taken + 1).bmod (2 ^ 32))⟩) := by
      simp only [soloStep, clientStep, RwLockSem.acquire, hwait, Option.map_some, reduceCtorEq,
        if_false, htest, takenAfter]
    rw [List.replicate_succ, run_cons, hround, Option.bind_some, ih (taken + 1) (by omega)]
    have hsum : taken + 1 + (k : Int) = taken + ((k + 1 : Nat) : Int) := by
      push_cast
      omega
    have hleft : x - 1 - (k : Int) = x - ((k + 1 : Nat) : Int) := by
      push_cast
      omega
    rw [hsum, hleft]

/-- All permits but 2^31 are read, a writer takes the others and times out. -/
def overflowing (n : Int) : List Op :=
  List.replicate (n - 2 ^ 31).toNat (.readlock 0 false) ++ .writelock 0 false ::
    (List.replicate (2 ^ 31) (.acquire false) ++ [.acquire true, .giveBack])

theorem run_overflowing (hn : 2 ^ 31 ≤ n) :
    run soloStep (.create n, .fresh) (overflowing n) =
      some (⟨n, ⟨-2 ^ 31, n⟩, ⟨0, 1⟩⟩, ⟨(n - 2 ^ 31).toNat, 0, 0, .leaving .timedOut⟩) := by
  have hreads := run_reads (n := n) (x := n) (w := ⟨1, 1⟩) (n - 2 ^ 31).toNat 0 (by omega)
  have hrest : n - ((n - 2 ^ 31).toNat : Int) = 2 ^ 31 := by omega
  rw [hrest, Nat.zero_add] at hreads
  have htoken : soloStep (⟨n, ⟨2 ^ 31, n⟩, ⟨1, 1⟩⟩, ⟨(n - 2 ^ 31).toNat, 0, 0, .outside⟩)
      (.writelock 0 false) =
      some (⟨n, ⟨2 ^ 31, n⟩, ⟨0, 1⟩⟩,
        ⟨(n - 2 ^ 31).toNat, 0, 0, .acquiring (Int.bmod 0 (2 ^ 32))⟩) := by
    have hlimit : ¬ maxTimeOut < 0 := by decide
    have hpos : 0 < n := by omega
    simp [soloStep, clientStep, RwLockSem.writelock, Semaphore.waitUntil, Semaphore.wait, hlimit,
      RwLockSem.loopTest, hpos]
  have hrounds := run_acquires (n := n) (x := 2 ^ 31) (w := ⟨0, 1⟩) (2 ^ 31) (n - 2 ^ 31).toNat 0 hn
    (by decide)
  have hfull : (2 ^ 31 : Int) - ((2 ^ 31 : Nat) : Int) = 0 := by decide
  have hcount : ((0 : Int) + ((2 ^ 31 : Nat) : Int)).bmod (2 ^ 32) = -2 ^ 31 := by decide
  rw [hfull, hcount] at hrounds
  rw [overflowing, run_append, RwLockSem.create, Client.fresh, hreads, Option.bind_some, run_cons,
    htoken, Option.bind_some, run_append, hrounds, Option.bind_some]
  rfl

end Overflow

section Population

variable [Fintype ι] [DecidableEq ι] {n : Int}

theorem census_solo {w : Client → Int} (hfresh : w .fresh = 0) (i : ι) (p : RwLockSem × Client) :
    census w (solo i p).clients = w p.2 := by
  have hall : census w (fun _ : ι => Client.fresh) = 0 := census_eq_zero fun _ => hfresh
  show census w (Function.update (fun _ => Client.fresh) i p.2) = w p.2
  rw [census_update, hall, hfresh, sub_zero, zero_add]

/-- After such a run the permits do not add up: 2^32 of them are missing. -/
theorem overflowing_loses_permits (hn : 2 ^ 31 ≤ n) (i : ι) :
    ∃ s : State ι, run step (start n) ((overflowing n).map (Prod.mk i)) = some s ∧
      s.lock.rwSem.counter = -2 ^ 31 ∧
      s.lock.rwSem.counter + readsHeld s + permitsTaken s + (if WriterHolds s then n else 0) =
        n - 2 ^ 32 := by
  have hstart : (start n : State ι) = solo i (.create n, .fresh) := by
    unfold start solo
    rw [Function.update_eq_self]
  refine ⟨solo i _, by rw [hstart, run_solo, run_overflowing hn]; rfl, rfl, ?_⟩
  have hnot : ¬ WriterHolds (solo i (⟨n, ⟨-2 ^ 31, n⟩, ⟨0, 1⟩⟩,
      ⟨(n - 2 ^ 31).toNat, 0, 0, .leaving .timedOut⟩) : State ι) := by
    rintro ⟨j, hj⟩
    by_cases hji : j = i
    · subst hji
      simp [solo, Client.writeLocks] at hj
    · simp [solo, Function.update_of_ne hji, Client.writeLocks, Client.fresh] at hj
  rw [if_neg hnot, readsHeld, permitsTaken, census_solo rfl, census_solo rfl]
  simp only [solo]
  omega

/-- **Permit conservation.** It holds in every run in which no loop takes more permits
    than its `int` can count. So it holds in every run of a lock for fewer than 2^31
    readers, and of no other lock in every run. -/
theorem permits_conserved [Nonempty ι] (numReaders : Int) (hn : 1 ≤ numReaders) :
    (∀ (as : List (ι × Op)) (s : State ι), Meets step CountFits (start numReaders) as →
      run step (start numReaders) as = some s → Conserved numReaders s) ∧
    ((∀ (as : List (ι × Op)) (s : State ι), run step (start numReaders) as = some s →
      Conserved numReaders s) ↔ numReaders < 2 ^ 31) := by
  refine ⟨fun as s hfits h => (reachable_inv hn hfits h).conserved hn, ?_, ?_⟩
  · intro hall
    by_contra hlarge
    obtain ⟨i⟩ := ‹Nonempty ι›
    obtain ⟨s, hs, -, hlost⟩ := overflowing_loses_permits (Int.not_lt.mp hlarge) i
    have hpermits := (hall _ s hs).permits
    omega
  · intro hint as s h
    have hinv : Inv numReaders s :=
      run_invariant (fun s a t hs hstep => step_inv hn s a t hs (hs.countFits hint a) hstep)
        (start_inv hn) h
    exact hinv.conserved hn

end Population

/-- A writer takes one of two permits beside a reader, times out, gives it back,
    and gets the lock once the reader has left. -/
def handover : List (Fin 2 × Op) :=
  [(0, .readlock 10 false), (1, .writelock 10 false), (1, .acquire false), (1, .acquire true),
    (1, .giveBack), (1, .leave), (0, .readunlock), (1, .writelock 10 false),
    (1, .acquire false), (1, .acquire false), (1, .leave)]

theorem permits_conserved_handover :
    ∃ s, run step (start 2) handover = some s ∧ WriterHolds s ∧ Conserved 2 s :=
  ⟨(run step (start 2) handover).get (by decide), (Option.some_get _).symm, by decide,
    (permits_conserved 2 (by decide)).2.mpr (by decide) handover _ (Option.some_get _).symm⟩

/-- A lock for 2^31 readers: a writer takes all permits, counts -2^31 and waits for one
    more; its time-out gives back -2^31. -/
theorem rollback_wraps :
    ∃ s : State (Fin 1), run step (start (2 ^ 31)) ((overflowing (2 ^ 31)).map (Prod.mk 0)) = some s ∧
      s.lock.rwSem.counter = -2 ^ 31 ∧
      s.lock.rwSem.counter + readsHeld s + permitsTaken s
        + (if WriterHolds s then 2 ^ 31 else 0) ≠ 2 ^ 31 := by
  obtain ⟨s, hs, hcounter, hlost⟩ := overflowing_loses_permits (le_refl (2 ^ 31)) (0 : Fin 1)
  refine ⟨s, hs, hcounter, ?_⟩
  rw [hlost]
  decide

end Arinc.RwLock
