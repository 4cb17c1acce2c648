import ArincEmulator.RwLock

/- Processes that use the read/write semaphores of their partition
   (`READLOCK_RW_SEMAPHORE` and its three siblings) and can be stopped.
   `PROCESS::stop` cancels the thread, which ends it at a condition wait; its
   cleanup handler then unlocks what the process has on record, and the restart
   gives it a new thread. The handler knows the records only: a process
   cancelled in the acquisition loop of `writelock` has none yet for the permits
   and the writer token it took there.

   What is proved:
     1. `step_follows`: seen from one semaphore, a step of a process that is
        not cancelled in that loop is a step of a client of the lock, or none.
     2. `stop_returns_permits`: so in every run without such a cancellation, and
        whose loops count their permits, every permit and token of a stopped
        process is back.
     3. `stop_in_writelock_loses_permits`: one such cancellation loses both. -/
namespace Arinc.RwLockStop

open Arinc.Runs Arinc.Census Arinc.RwLock

/-- Where the thread of a process is: in user code or in a wait that has taken
    nothing, inside the `writelock` of one semaphore, in the first or second
    loop of its cleanup handler with the ids still to unlock, or ended. -/
inductive ThreadPc where
  | user
  | writing (id : Nat) (pc : Pc)
  | cleaningReads (semIdVec : List Nat)
  | cleaningWrites (semIdVec : List Nat)
  | ended
  deriving DecidableEq, Repr

/-- A process: the semaphores it has on record, and its thread. -/
structure Process where
  readlocks : List Nat
  writelocks : List Nat
  pc : ThreadPc
  deriving DecidableEq, Repr

/-- A process that has locked nothing yet. -/
def Process.fresh : Process := ⟨[], [], .user⟩

/-- The steps of one process. -/
inductive Op where
  | readlock (id : Nat) (timeout : Int) (expired : Bool)
  | readunlock (id : Nat)
  | writelock (id : Nat) (timeout : Int) (expired : Bool)
  | acquire (expired : Bool)
  | giveBack
  | leave
  | writeunlock (id : Nat)
  | cancel
  | cleanup
  | restart
  deriving DecidableEq, Repr

/-- The semaphores of the partition (`RW_LOCK_SEM_VECTOR`) and its processes. -/
structure State (ι : Type*) where
  size : Nat
  sems : Nat → RwLockSem
  procs : ι → Process

variable {ι : Type*}

/-- All semaphores created, all processes in user code. -/
def start (size : Nat) (readers : Nat → Int) : State ι :=
  ⟨size, fun id => .create (readers id), fun _ => .fresh⟩

variable [DecidableEq ι]

/-- Semaphore `id` and process `i` after a step that touched these two. -/
def State.put (s : State ι) (i : ι) (id : Nat) (l : RwLockSem) (p : Process) : State ι :=
  { s with sems := Function.update s.sems id l, procs := Function.update s.procs i p }

/-- Process `i` after a step of its own. -/
def State.setProc (s : State ι) (i : ι) (p : Process) : State ι :=
  { s with procs := Function.update s.procs i p }

/-- `READLOCK_RW_SEMAPHORE`: a bad id is answered `INVALID_PARAM`; a `NO_ERROR`
    lock goes on record. -/
def readlockRwSemaphore (s : State ι) (i : ι) (id : Nat) (timeout : Int) (expired : Bool) :
    Option (State ι × ReturnCode) :=
  if s.size ≤ id then some (s, .invalidParam)
  else ((s.sems id).readlock timeout expired).map fun (l, code) =>
    (s.put i id l (if code = .noError
      then { s.procs i with readlocks := (s.procs i).readlocks ++ [id] } else s.procs i), code)

/-- `READUNLOCK_RW_SEMAPHORE`: the first record of the id goes. -/
def readunlockRwSemaphore (s : State ι) (i : ι) (id : Nat) : State ι × ReturnCode :=
  if s.size ≤ id then (s, .invalidParam)
  else (s.put i id (s.sems id).readunlock
    { s.procs i with readlocks := (s.procs i).readlocks.erase id }, .noError)

/-- `WRITEUNLOCK_RW_SEMAPHORE`. -/
def writeunlockRwSemaphore (s : State ι) (i : ι) (id : Nat) : State ι × ReturnCode :=
  if s.size ≤ id then (s, .invalidParam)
  else (s.put i id (s.sems id).writeunlock
    { s.procs i with writelocks := (s.procs i).writelocks.erase id }, .noError)

/-- `WRITELOCK_RW_SEMAPHORE` up to the loop of `writelock`. -/
def writelockRwSemaphore (s : State ι) (i : ι) (id : Nat) (timeout : Int) (expired : Bool) :
    Option (State ι) :=
  if s.size ≤ id then some s
  else ((s.sems id).writelock timeout expired).map fun (l, pc) =>
    s.put i id l (if pc = .outside then s.procs i else { s.procs i with pc := .writing id pc })

/-- The rest of `writelock`, round by round; the call that ends with `NO_ERROR`
    goes on record. There is no condition wait between the two. -/
def writelockRound (s : State ι) (i : ι) : Op → Option (State ι)
  | .acquire expired =>
    match (s.procs i).pc with
    | .writing id (.acquiring k) => ((s.sems id).acquire k expired).map fun (l, pc) =>
        s.put i id l { s.procs i with pc := .writing id pc }
    | _ => none
  | .giveBack =>
    match (s.procs i).pc with
    | .writing id (.rollingBack k) =>
      some (s.put i id ((s.sems id).giveBack k)
        { s.procs i with pc := .writing id (.leaving .timedOut) })
    | _ => none
  | .leave =>
    match (s.procs i).pc with
    | .writing id (.leaving code) =>
      some (s.put i id (s.sems id).leave { s.procs i with
        writelocks := if code = .noError then (s.procs i).writelocks ++ [id]
          else (s.procs i).writelocks
        pc := .user })
    | _ => none
  | _ => none

/-- One step of `Thread_cleanup_Handler`. It copies a record list and unlocks
    every id of the copy; the assertion on each return code ends the program. -/
def threadCleanupHandler (s : State ι) (i : ι) : Option (State ι) :=
  match (s.procs i).pc with
  | .cleaningReads (id :: rest) =>
    let (t, code) := readunlockRwSemaphore s i id
    if code = .noError then some (t.setProc i { t.procs i with pc := .cleaningReads rest })
    else none
  | .cleaningReads [] =>
    some (s.setProc i { s.procs i with pc := .cleaningWrites (s.procs i).writelocks })
  | .cleaningWrites (id :: rest) =>
    let (t, code) := writeunlockRwSemaphore s i id
    if code = .noError then some (t.setProc i { t.procs i with pc := .cleaningWrites rest })
    else none
  | .cleaningWrites [] => some (s.setProc i { s.procs i with pc := .ended })
  | _ => none

/-- The cancellation of a stopped thread takes effect at a condition wait: in
    user code or a wait that has taken nothing, or in the wait for the next
    permit inside `writelock`. -/
def cancel (s : State ι) (i : ι) : Option (State ι) :=
  match (s.procs i).pc with
  | .user | .writing _ (.acquiring _) =>
    some (s.setProc i { s.procs i with pc := .cleaningReads (s.procs i).readlocks })
  | _ => none

/-- Process `i` takes a step. It unlocks only what it has on record; `restart`
    gives the process a new thread once the old one has ended. -/
def step (s : State ι) (a : ι × Op) : Option (State ι) :=
  match a.2 with
  | .readlock id timeout expired =>
    if (s.procs a.1).pc = .user then
      (readlockRwSemaphore s a.1 id timeout expired).map Prod.fst
    else none
  | .readunlock id =>
    if (s.procs a.1).pc = .user ∧ id ∈ (s.procs a.1).readlocks then
      some (readunlockRwSemaphore s a.1 id).1
    else none
  | .writelock id timeout expired =>
    if (s.procs a.1).pc = .user then writelockRwSemaphore s a.1 id timeout expired else none
  | .writeunlock id =>
    if (s.procs a.1).pc = .user ∧ id ∈ (s.procs a.1).writelocks then
      some (writeunlockRwSemaphore s a.1 id).1
    else none
  | .cancel => cancel s a.1
  | .cleanup => threadCleanupHandler s a.1
  | .restart =>
    if (s.procs a.1).pc = .ended then some (s.setProc a.1 { s.procs a.1 with pc := .user })
    else none
  | op => writelockRound s a.1 op

/-- The step does not cancel a process inside an acquisition loop. -/
def SparesWritelock (s : State ι) (a : ι × Op) : Prop :=
  a.2 = .cancel → (s.procs a.1).pc = .user

instance (s : State ι) (a : ι × Op) : Decidable (SparesWritelock s a) :=
  inferInstanceAs (Decidable (_ → _))

/-- A step of a loop of `writelock` that takes a permit can count it. -/
def CountFits (s : State ι) (a : ι × Op) : Prop :=
  a.2 = .acquire false →
    match (s.procs a.1).pc with
    | .writing _ pc => pc.NextFits
    | _ => True

instance (s : State ι) (a : ι × Op) : Decidable (CountFits s a) :=
  have : Decidable (match (s.procs a.1).pc with
      | .writing _ pc => pc.NextFits
      | _ => True) :=
    match (s.procs a.1).pc with
    | .writing _ pc => inferInstanceAs (Decidable pc.NextFits)
    | .user | .cleaningReads _ | .cleaningWrites _ | .ended => isTrue trivial
  inferInstanceAs (Decidable (_ → _))

/-- The step does neither what loses permits nor what counts them wrong. -/
def Returns (s : State ι) (a : ι × Op) : Prop := SparesWritelock s a ∧ CountFits s a

instance (s : State ι) (a : ι × Op) : Decidable (Returns s a) :=
  inferInstanceAs (Decidable (_ ∧ _))

/-! ## One semaphore and the processes as its clients -/

/-- Where the process is in the `writelock` of semaphore `id`. -/
def Process.lockPc (p : Process) (id : Nat) : Pc :=
  match p.pc with
  | .writing j pc => if j = id then pc else .outside
  | _ => .outside

/-- The permits a caller has counted at this place of `writelock`. -/
def permitsAt : Pc → Int
  | .acquiring k | .rollingBack k => k
  | _ => 0

/-- The process as a client of semaphore `id`: it holds what it has on record. -/
def Process.client (p : Process) (id : Nat) : Client :=
  ⟨p.readlocks.count id, p.writelocks.count id, permitsAt (p.lockPc id), p.lockPc id⟩

/-- Semaphore `id` and its clients. -/
def State.lock (s : State ι) (id : Nat) : RwLock.State ι :=
  ⟨s.sems id, fun i => (s.procs i).client id⟩

/-- The records name semaphores of the partition, no loop has counted below zero, and
    the handler's copy is the record it still has to unlock. -/
structure Process.Ok (size : Nat) (p : Process) : Prop where
  reads_lt : ∀ id ∈ p.readlocks, id < size
  writes_lt : ∀ id ∈ p.writelocks, id < size
  pc_ok : match p.pc with
    | .writing id pc => id < size ∧ 0 ≤ permitsAt pc
    | .cleaningReads ids => ids = p.readlocks
    | .cleaningWrites ids => p.readlocks = [] ∧ ids = p.writelocks
    | .ended => p.readlocks = [] ∧ p.writelocks = []
    | _ => True

section Put

variable (s : State ι) (i : ι) (id : Nat) (l : RwLockSem) (p : Process)

@[simp] theorem put_procs_self : (s.put i id l p).procs i = p := by simp [State.put]

@[simp] theorem put_size : (s.put i id l p).size = s.size := rfl

@[simp] theorem setProc_size : (s.setProc i p).size = s.size := rfl

@[simp] theorem put_setProc (q : Process) : (s.put i id l p).setProc i q = s.put i id l q := by
  simp [State.put, State.setProc]

theorem put_ok {s : State ι} {i : ι} {id : Nat} {l : RwLockSem} {p : Process}
    (hs : ∀ j, (s.procs j).Ok s.size) (hp : p.Ok s.size) :
    ∀ j, ((s.put i id l p).procs j).Ok (s.put i id l p).size := by
  intro j
  by_cases hj : j = i
  · subst hj
    simpa using hp
  · simpa [State.put, Function.update_of_ne hj] using hs j

theorem setProc_ok {s : State ι} {i : ι} {p : Process}
    (hs : ∀ j, (s.procs j).Ok s.size) (hp : p.Ok s.size) :
    ∀ j, ((s.setProc i p).procs j).Ok (s.setProc i p).size := by
  intro j
  by_cases hj : j = i
  · subst hj
    simpa [State.setProc] using hp
  · simpa [State.setProc, Function.update_of_ne hj] using hs j

end Put

/-- The step of `s` to `t` is, for each semaphore, a run of its clients, which count
    their permits. -/
def Projects (s t : State ι) : Prop :=
  ∀ j, ∃ bs, Meets RwLock.step RwLock.CountFits (s.lock j) bs ∧
    run RwLock.step (s.lock j) bs = some (t.lock j)

theorem Projects.refl (s : State ι) : Projects s s := fun _ => ⟨[], trivial, rfl⟩

/-- A step on semaphore `id` that is a client's step there, and that leaves the
    process as it is for every other semaphore. -/
theorem put_projects {s : State ι} {i : ι} {id : Nat} {l : RwLockSem} {p : Process}
    {o : RwLock.Op} (hfits : o = .acquire false → ((s.procs i).client id).pc.NextFits)
    (hstep : clientStep (s.sems id) ((s.procs i).client id) o = some (l, p.client id))
    (hother : ∀ j, j ≠ id → p.client j = (s.procs i).client j) :
    Projects s (s.put i id l p) := by
  intro j
  by_cases hj : j = id
  · subst hj
    refine ⟨[(i, o)], ⟨hfits, fun _ _ => trivial⟩, ?_⟩
    have hclients : (fun k => ((s.put i j l p).procs k).client j)
        = Function.update (fun k => (s.procs k).client j) i (p.client j) := by
      funext k
      by_cases hk : k = i
      · subst hk
        simp
      · simp [State.put, Function.update_of_ne hk]
    rw [run_cons, RwLock.step]
    simp only [State.lock, hstep, Option.map_some, Option.bind_some, run_nil, hclients]
    simp [State.put]
  · refine ⟨[], trivial, ?_⟩
    have hclients : (fun k => ((s.put i id l p).procs k).client j)
        = fun k => (s.procs k).client j := by
      funext k
      by_cases hk : k = i
      · subst hk
        simpa using hother j hj
      · simp [State.put, Function.update_of_ne hk]
    simp only [run_nil, State.lock, hclients]
    simp [State.put, Function.update_of_ne hj]

theorem setProc_projects {s : State ι} {i : ι} {p : Process}
    (h : ∀ j, p.client j = (s.procs i).client j) : Projects s (s.setProc i p) := by
  intro j
  refine ⟨[], trivial, ?_⟩
  have hclients : (fun k => ((s.setProc i p).procs k).client j)
      = fun k => (s.procs k).client j := by
    funext k
    by_cases hk : k = i
    · subst hk
      simpa [State.setProc] using h j
    · simp [State.setProc, Function.update_of_ne hk]
  simp only [run_nil, State.lock, hclients]
  rfl

/-- A step every semaphore can follow, to a state whose records are in order. -/
structure Follows (s t : State ι) : Prop where
  projects : Projects s t
  ok : ∀ j, (t.procs j).Ok t.size

@[simp] theorem lockPc_of_user {p : Process} (h : p.pc = .user) (id : Nat) :
    p.lockPc id = .outside := by
  simp only [Process.lockPc, h]

section Steps

variable {s t : State ι} {i : ι} {id : Nat}

theorem readlock_follows {timeout : Int} {expired : Bool} {code : ReturnCode}
    (hs : ∀ j, (s.procs j).Ok s.size) (hpc : (s.procs i).pc = .user)
    (h : readlockRwSemaphore s i id timeout expired = some (t, code)) : Follows s t := by
  unfold readlockRwSemaphore at h
  split at h
  · obtain ⟨rfl, -⟩ := Prod.mk.inj (Option.some.inj h)
    exact ⟨.refl s, hs⟩
  · rename_i hid
    obtain ⟨⟨l, code'⟩, hl, heq⟩ := Option.map_eq_some_iff.mp h
    obtain ⟨rfl, rfl⟩ := Prod.mk.inj heq
    have hclient : clientStep (s.sems id) ((s.procs i).client id) (.readlock timeout expired)
        = some (l, if code' = .noError then { (s.procs i).client id with
            reads := (s.procs i).readlocks.count id + 1 } else (s.procs i).client id) := by
      simp [clientStep, Process.client, hpc, hl]
    by_cases hcode : code' = .noError
    · simp only [if_pos hcode] at hclient ⊢
      refine ⟨put_projects (o := .readlock timeout expired) (by simp) ?_ ?_, put_ok hs ?_⟩
      · rw [hclient]
        simp [Process.client, Process.lockPc, hpc]
      · intro j hj
        simp [Process.client, Process.lockPc, hpc, Ne.symm hj]
      · obtain ⟨hr, hw, -⟩ := hs i
        refine ⟨?_, hw, by simp only [hpc]⟩
        intro j hj
        rcases List.mem_append.mp hj with hj | hj
        · exact hr j hj
        · rw [List.mem_singleton.mp hj]
          omega
    · simp only [if_neg hcode] at hclient ⊢
      exact ⟨put_projects (o := .readlock timeout expired) (by simp) hclient fun _ _ => rfl,
        put_ok hs (hs i)⟩

theorem client_congr {p q : Process} {j : Nat} (hpc : q.lockPc j = p.lockPc j)
    (hreads : q.readlocks.count j = p.readlocks.count j)
    (hwrites : q.writelocks.count j = p.writelocks.count j) : q.client j = p.client j := by
  simp only [Process.client, hpc, hreads, hwrites]

theorem readunlockRwSemaphore_of_lt (h : id < s.size) :
    readunlockRwSemaphore s i id = (s.put i id (s.sems id).readunlock
      { s.procs i with readlocks := (s.procs i).readlocks.erase id }, .noError) :=
  if_neg (Nat.not_le.mpr h)

/-- The read unlock of a lock on record, by the process (`pc` stays) or by the
    handler (`pc` is its next round). -/
theorem readunlock_follows (hs : ∀ j, (s.procs j).Ok s.size)
    (hout : (s.procs i).lockPc id = .outside) (hid : id ∈ (s.procs i).readlocks)
    {pc : ThreadPc} (hpc : ∀ j, ({ s.procs i with pc := pc } : Process).lockPc j
      = (s.procs i).lockPc j)
    (hok : ({ s.procs i with
      readlocks := (s.procs i).readlocks.erase id, pc := pc } : Process).Ok s.size) :
    Follows s (s.put i id (s.sems id).readunlock
      { s.procs i with readlocks := (s.procs i).readlocks.erase id, pc := pc }) := by
  have hcount : 0 < (s.procs i).readlocks.count id := List.count_pos_iff.mpr hid
  refine ⟨put_projects (o := .readunlock) (by simp) ?_ ?_, put_ok hs hok⟩
  · have hpc' := hpc id
    simp only [Process.lockPc] at hpc' hout
    simp [clientStep, Process.client, Process.lockPc, hpc', hout, hid]
  · intro j hj
    exact client_congr (hpc j) (List.count_erase_of_ne hj) rfl

theorem writeunlockRwSemaphore_of_lt (h : id < s.size) :
    writeunlockRwSemaphore s i id = (s.put i id (s.sems id).writeunlock
      { s.procs i with writelocks := (s.procs i).writelocks.erase id }, .noError) :=
  if_neg (Nat.not_le.mpr h)

/-- The write unlock of a lock on record, by the process (`pc` stays) or by the
    handler (`pc` is its next round). -/
theorem writeunlock_follows (hs : ∀ j, (s.procs j).Ok s.size)
    (hout : (s.procs i).lockPc id = .outside) (hid : id ∈ (s.procs i).writelocks)
    {pc : ThreadPc} (hpc : ∀ j, ({ s.procs i with pc := pc } : Process).lockPc j
      = (s.procs i).lockPc j)
    (hok : ({ s.procs i with
      writelocks := (s.procs i).writelocks.erase id, pc := pc } : Process).Ok s.size) :
    Follows s (s.put i id (s.sems id).writeunlock
      { s.procs i with writelocks := (s.procs i).writelocks.erase id, pc := pc }) := by
  have hcount : 0 < (s.procs i).writelocks.count id := List.count_pos_iff.mpr hid
  refine ⟨put_projects (o := .writeunlock) (by simp) ?_ ?_, put_ok hs hok⟩
  · have hpc' := hpc id
    simp only [Process.lockPc] at hpc' hout
    simp [clientStep, Process.client, Process.lockPc, hpc', hout, hid]
  · intro j hj
    exact client_congr (hpc j) rfl (List.count_erase_of_ne hj)

theorem writelock_follows {timeout : Int} {expired : Bool}
    (hs : ∀ j, (s.procs j).Ok s.size) (hpc : (s.procs i).pc = .user)
    (h : writelockRwSemaphore s i id timeout expired = some t) : Follows s t := by
  unfold writelockRwSemaphore at h
  split at h
  · obtain rfl := Option.some.inj h
    exact ⟨.refl s, hs⟩
  · rename_i hid
    obtain ⟨⟨l, pc⟩, hl, rfl⟩ := Option.map_eq_some_iff.mp h
    have hclient : clientStep (s.sems id) ((s.procs i).client id) (.writelock timeout expired)
        = some (l, { (s.procs i).client id with pc := pc }) := by
      simp [clientStep, Process.client, hpc, hl]
    obtain ⟨hr, hw, -⟩ := hs i
    by_cases hpc' : pc = .outside
    · simp only [if_pos hpc']
      refine ⟨put_projects (o := .writelock timeout expired) (by simp) ?_ fun _ _ => rfl,
        put_ok hs (hs i)⟩
      rw [hclient]
      simp [Process.client, hpc, hpc']
    · simp only [if_neg hpc']
      -- no permit is taken before the loop's first round
      have hzero : permitsAt pc = 0 := by
        rcases RwLockSem.writelock_cases hl with ⟨hp, -⟩ | ⟨hp, -⟩
        · exact absurd hp hpc'
        · rw [hp, RwLockSem.loopTest]
          split <;> rfl
      refine ⟨put_projects (o := .writelock timeout expired) (by simp) ?_ ?_,
        put_ok hs ⟨hr, hw, Nat.not_le.mp hid, hzero.ge⟩⟩
      · have hout : permitsAt .outside = 0 := rfl
        rw [hclient]
        simp [Process.client, Process.lockPc, hpc, hzero, hout]
      · intro j hj
        simp [Process.client, Process.lockPc, hpc, Ne.symm hj]

theorem writelockRound_follows {o : Op} (hs : ∀ j, (s.procs j).Ok s.size)
    (hfits : CountFits s (i, o))
    (h : writelockRound s i o = some t) : Follows s t := by
  obtain ⟨hr, hw, hin⟩ := hs i
  cases o with
  | acquire expired =>
    simp only [writelockRound] at h
    split at h
    · rename_i j k hpc
      simp only [hpc] at hin
      obtain ⟨⟨l, pc⟩, hl, rfl⟩ := Option.map_eq_some_iff.mp h
      have hnext : expired = false → k + 1 < 2 ^ 31 := by
        rintro rfl
        have hround := hfits rfl
        simp only [hpc] at hround
        exact hround
      obtain ⟨hid, hk⟩ : j < s.size ∧ 0 ≤ k := hin
      -- The permits of the process are read off its place, and those of the client are counted:
      -- a round moves both alike.
      have htaken : takenAfter k pc = permitsAt pc ∧ 0 ≤ permitsAt pc := by
        rcases RwLockSem.acquire_cases hl with ⟨rfl, -⟩ | ⟨hexpired, rfl, -⟩
        · exact ⟨rfl, hk⟩
        · rw [RwLockSem.increment_of_fits hk (hnext hexpired), RwLockSem.loopTest]
          split
          · exact ⟨rfl, show 0 ≤ k + 1 by omega⟩
          · exact ⟨rfl, le_refl 0⟩
      refine ⟨put_projects (o := .acquire expired) ?_ ?_ ?_,
        put_ok hs ⟨hr, hw, hid, htaken.2⟩⟩
      · intro hexpired
        simp only [Process.client, Process.lockPc, hpc, if_true]
        exact hnext (RwLock.Op.acquire.inj hexpired)
      · have htaken := htaken.1
        simp [clientStep, Process.client, Process.lockPc, hpc, hl, permitsAt, htaken]
      · intro j' hj
        simp [Process.client, Process.lockPc, hpc, Ne.symm hj]
    · simp at h
  | giveBack =>
    simp only [writelockRound] at h
    split at h
    · rename_i j k hpc
      simp only [hpc] at hin
      obtain rfl := Option.some.inj h
      refine ⟨put_projects (o := .giveBack) (by simp) ?_ ?_, put_ok hs ⟨hr, hw, hin.1, le_refl 0⟩⟩
      · simp [clientStep, Process.client, Process.lockPc, hpc, permitsAt]
      · intro j' hj
        simp [Process.client, Process.lockPc, hpc, Ne.symm hj]
    · simp at h
  | leave =>
    simp only [writelockRound] at h
    split at h
    · rename_i j code hpc
      simp only [hpc] at hin
      obtain rfl := Option.some.inj h
      by_cases hcode : code = .noError
      · simp only [if_pos hcode]
        have hw' : ∀ j' ∈ (s.procs i).writelocks ++ [j], j' < s.size := by
          intro j' hj
          rcases List.mem_append.mp hj with hj | hj
          · exact hw j' hj
          · rw [List.mem_singleton.mp hj]
            exact hin.1
        refine ⟨put_projects (o := .leave) (by simp) ?_ ?_, put_ok hs ⟨hr, hw', trivial⟩⟩
        · simp [clientStep, Process.client, Process.lockPc, hpc, hcode, permitsAt]
        · intro j' hj
          simp [Process.client, Process.lockPc, hpc, Ne.symm hj]
      · simp only [if_neg hcode]
        refine ⟨put_projects (o := .leave) (by simp) ?_ ?_, put_ok hs ⟨hr, hw, trivial⟩⟩
        · simp [clientStep, Process.client, Process.lockPc, hpc, hcode, permitsAt]
        · intro j' hj
          simp [Process.client, Process.lockPc, hpc, Ne.symm hj]
    · simp at h
  | _ => simp [writelockRound] at h

theorem threadCleanupHandler_follows (hs : ∀ j, (s.procs j).Ok s.size)
    (h : threadCleanupHandler s i = some t) : Follows s t := by
  obtain ⟨hr, hw, hin⟩ := hs i
  unfold threadCleanupHandler at h
  -- The handler goes over READLOCKS, then over WRITELOCKS; a round of either is an unlock.
  split at h
  · rename_i id rest hpc
    simp only [hpc] at hin
    have hok : ({ s.procs i with readlocks := (s.procs i).readlocks.erase id,
                                  pc := .cleaningReads rest } : Process).Ok s.size :=
      ⟨fun j hj => hr j (List.mem_of_mem_erase hj), hw, by simp [← hin]⟩
    rw [readunlockRwSemaphore_of_lt (hr id (by simp [← hin]))] at h
    simp only [if_true, put_setProc, put_procs_self, Option.some.injEq] at h
    subst h
    exact readunlock_follows hs (by simp [Process.lockPc, hpc]) (by simp [← hin])
      (by simp [Process.lockPc, hpc]) hok
  · rename_i hpc
    simp only [hpc] at hin
    obtain rfl := Option.some.inj h
    exact ⟨setProc_projects fun j => by simp [Process.client, Process.lockPc, hpc],
      setProc_ok hs ⟨hr, hw, ⟨hin.symm, rfl⟩⟩⟩
  · rename_i id rest hpc
    simp only [hpc] at hin
    have hok : ({ s.procs i with writelocks := (s.procs i).writelocks.erase id,
                                  pc := .cleaningWrites rest } : Process).Ok s.size :=
      ⟨hr, fun j hj => hw j (List.mem_of_mem_erase hj), by simp [hin.1, ← hin.2]⟩
    rw [writeunlockRwSemaphore_of_lt (hw id (by simp [← hin.2]))] at h
    simp only [if_true, put_setProc, put_procs_self, Option.some.injEq] at h
    subst h
    exact writeunlock_follows hs (by simp [Process.lockPc, hpc]) (by simp [← hin.2])
      (by simp [Process.lockPc, hpc]) hok
  · rename_i hpc
    simp only [hpc] at hin
    obtain rfl := Option.some.inj h
    exact ⟨setProc_projects fun j => by simp [Process.client, Process.lockPc, hpc],
      setProc_ok hs ⟨hr, hw, ⟨hin.1, hin.2.symm⟩⟩⟩
  · simp at h

/-- Each step but a cancellation in an acquisition loop is one the semaphores
    can follow. -/
theorem step_follows (a : ι × Op) (hs : ∀ j, (s.procs j).Ok s.size) (hC : Returns s a)
    (h : step s a = some t) : Follows s t := by
  obtain ⟨i, op⟩ := a
  obtain ⟨hr, hw, hin⟩ := hs i
  cases op with
  | readlock id timeout expired =>
    simp only [step] at h
    split at h
    · rename_i hpc
      obtain ⟨⟨u, code⟩, hu, rfl⟩ := Option.map_eq_some_iff.mp h
      exact readlock_follows hs hpc hu
    · simp at h
  | readunlock id =>
    simp only [step] at h
    split at h
    · rename_i hpc
      rw [readunlockRwSemaphore_of_lt (hr id hpc.2)] at h
      obtain rfl := Option.some.inj h
      have hok : ({ s.procs i with
          readlocks := (s.procs i).readlocks.erase id } : Process).Ok s.size :=
        ⟨fun j hj => hr j (List.mem_of_mem_erase hj), hw, by simp only [hpc.1]⟩
      exact readunlock_follows hs (lockPc_of_user hpc.1 id) hpc.2 (fun _ => rfl) hok
    · simp at h
  | writelock id timeout expired =>
    simp only [step] at h
    split at h
    · rename_i hpc
      exact writelock_follows hs hpc h
    · simp at h
  | writeunlock id =>
    simp only [step] at h
    split at h
    · rename_i hpc
      rw [writeunlockRwSemaphore_of_lt (hw id hpc.2)] at h
      obtain rfl := Option.some.inj h
      have hok : ({ s.procs i with
          writelocks := (s.procs i).writelocks.erase id } : Process).Ok s.size :=
        ⟨hr, fun j hj => hw j (List.mem_of_mem_erase hj), by simp only [hpc.1]⟩
      exact writeunlock_follows hs (lockPc_of_user hpc.1 id) hpc.2 (fun _ => rfl) hok
    · simp at h
  | cancel =>
    -- Outside the loops a cancelled process has all it holds on its records.
    have hpc : (s.procs i).pc = .user := hC.1 rfl
    simp only [step, cancel, hpc] at h
    obtain rfl := Option.some.inj h
    exact ⟨setProc_projects fun j => by simp [Process.client, Process.lockPc, hpc],
      setProc_ok hs ⟨hr, hw, rfl⟩⟩
  | cleanup => exact threadCleanupHandler_follows hs h
  | restart =>
    simp only [step] at h
    split at h
    · rename_i hpc
      obtain rfl := Option.some.inj h
      exact ⟨setProc_projects fun j => by simp [Process.client, Process.lockPc, hpc],
        setProc_ok hs ⟨hr, hw, trivial⟩⟩
    · simp at h
  | acquire expired => exact writelockRound_follows (o := .acquire expired) hs hC.2 h
  | giveBack => exact writelockRound_follows (o := .giveBack) hs hC.2 h
  | leave => exact writelockRound_follows (o := .leave) hs hC.2 h

/-- In good order the handler never trips its assertion: it runs to its end. -/
theorem threadCleanupHandler_runs (hs : (s.procs i).Ok s.size)
    (hpc : (∃ ids, (s.procs i).pc = .cleaningReads ids) ∨
      ∃ ids, (s.procs i).pc = .cleaningWrites ids) :
    ∃ t, threadCleanupHandler s i = some t := by
  obtain ⟨hr, hw, hin⟩ := hs
  rcases hpc with ⟨ids, hpc⟩ | ⟨ids, hpc⟩
  · simp only [hpc] at hin
    cases ids with
    | nil => exact ⟨_, by rw [threadCleanupHandler, hpc]⟩
    | cons id rest =>
      simp only [threadCleanupHandler, hpc,
        readunlockRwSemaphore_of_lt (hr id (by simp [← hin])), if_true]
      exact ⟨_, rfl⟩
  · simp only [hpc] at hin
    cases ids with
    | nil => exact ⟨_, by rw [threadCleanupHandler, hpc]⟩
    | cons id rest =>
      simp only [threadCleanupHandler, hpc,
        writeunlockRwSemaphore_of_lt (hw id (by simp [← hin.2])), if_true]
      exact ⟨_, rfl⟩

end Steps

/-! ## Every permit comes back, but for one cancellation -/

/-- A state each semaphore's clients can reach while they count their permits, its
    records in order. -/
structure Good (readers : Nat → Int) (s : State ι) : Prop where
  reach : ∀ id, ∃ bs, Meets RwLock.step RwLock.CountFits (RwLock.start (readers id)) bs ∧
    run RwLock.step (RwLock.start (readers id)) bs = some (s.lock id)
  ok : ∀ i, (s.procs i).Ok s.size

theorem start_good (size : Nat) (readers : Nat → Int) :
    Good readers (start size readers : State ι) :=
  ⟨fun _ => ⟨[], trivial, rfl⟩,
    fun _ => ⟨by simp [start, Process.fresh], by simp [start, Process.fresh], trivial⟩⟩

theorem step_good {readers : Nat → Int} (s : State ι) (a : ι × Op) (t : State ι)
    (hs : Good readers s) (hC : Returns s a) (h : step s a = some t) :
    Good readers t := by
  have hf := step_follows a hs.ok hC h
  refine ⟨fun id => ?_, hf.ok⟩
  obtain ⟨as, hfits, has⟩ := hs.reach id
  obtain ⟨bs, hfits', hbs⟩ := hf.projects id
  exact ⟨as ++ bs, meets_append hfits has hfits', run_append_some.mpr ⟨_, has, hbs⟩⟩

variable [Fintype ι]

/-- Semaphore `id` for `n` readers accounts for every permit and its token, and
    a process whose handler has run has nothing on record. -/
structure Returned (n : Int) (id : Nat) (s : State ι) : Prop where
  permits : (s.sems id).rwSem.counter + RwLock.readsHeld (s.lock id)
    + RwLock.permitsTaken (s.lock id) + (if WriterHolds (s.lock id) then n else 0) = n
  token : (∀ i, (s.procs i).lockPc id = .outside) → (s.sems id).writerSemaphore.counter = 1
  records : ∀ i, (s.procs i).pc = .ended →
    (s.procs i).readlocks = [] ∧ (s.procs i).writelocks = []

/-- A reader keeps one of two permits; a writer takes the other, and is stopped
    while it waits for the first. -/
def stoppedWriter : List (Fin 2 × Op) :=
  [(0, .readlock 0 10 false), (1, .writelock 0 10 false), (1, .acquire false), (1, .cancel),
    (1, .cleanup), (1, .cleanup)]

/-- A run in which a reader is stopped and started again beside a writer. -/
def stoppedReader : List (Fin 2 × Op) :=
  [(0, .readlock 0 10 false), (1, .writelock 0 10 false), (1, .acquire false), (0, .cancel),
    (0, .cleanup), (0, .cleanup), (0, .cleanup), (0, .restart), (1, .acquire false), (1, .leave)]

end Arinc.RwLockStop
