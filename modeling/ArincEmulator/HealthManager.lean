import Mathlib.Data.Finset.Card
import ArincEmulator.ObjectIds

/- Health managers and the processes registered with them. A process's descriptor
   names its health manager and the blackboard of the answers; the health manager's
   descriptor lists its processes with the same blackboards. A registration writes
   both, indexing the vectors with ids it has compared from one side only.

   What is proved (`registration_linked`): the calls of a run stay within the
   vectors just when every registration that gets past the checks names a process
   and a health manager that exist; and in every state reached the two tables agree
   and a health manager that receives an error finds the blackboard of the process
   that raised it. A negative id of a health manager is such a registration
   (`register_negative`). -/
namespace Arinc.Registry
open Runs NameTable

/-! ## The services that read the tables -/

/-- `HM_GET_MY_DESCRIPTOR_ID`, past `GET_MY_ID`. -/
def hmGetMyDescriptorId (r : Registry) (myId : Nat) : Except Fault (ReturnCode × Option Nat) :=
  match r.processes[myId]? with
  | none => .error .outOfBounds
  | some d =>
    if d.isHealthManager then
      match r.healthManagers.findIdx? fun hm => hm.hmProcessId == myId with
      | some h => .ok (.noError, some h)
      | none => .ok (.invalidConfig, none)
    else .ok (.notAvailable, none)

/-- The search of `HM_GET_PROCESS_ERROR_MESSAGE` through the associations. -/
def HmDescriptor.boardOf (hm : HmDescriptor) (failedId : Nat) : Option Nat :=
  ((List.range (hm.currentlyRegisteredProcs + 1).toNat).map hm.procHmAssociation).findSome?
    fun association => if association.processId = failedId then some association.blackboardId
      else none

/-- `RAISE_APPLICATION_ERROR` of a process up to its `SEND_BUFFER`: the buffer the
    message goes to. -/
def raiseApplicationError (r : Registry) (processId : Nat) :
    Except Fault (ReturnCode × Option Nat) :=
  match r.processes[processId]? with
  | none => .error .outOfBounds
  | some d =>
    if d.hmDescriptorId = -1 then .ok (.notAvailable, none)
    else if d.hmDescriptorId < 0 then .error .outOfBounds
    else
      match r.healthManagers[d.hmDescriptorId.toNat]? with
      | none => .error .outOfBounds
      | some hm => .ok (.noError, some hm.hmBufferId)

/-- The buffer `HM_GET_PROCESS_ERROR_MESSAGE` receives from. -/
def hmBufferOf (r : Registry) (myId : Nat) : Except Fault (Option Nat) :=
  (r.hmGetMyDescriptorId myId).map fun (_, id) => id.bind fun h =>
    (r.healthManagers[h]?).map (·.hmBufferId)

/-- `HM_GET_PROCESS_ERROR_MESSAGE` past its `RECEIVE_BUFFER`, which has given it an
    error of `failedId`: the code and the blackboard for the answer. -/
def hmGetProcessErrorMessage (r : Registry) (myId failedId : Nat) :
    Except Fault (ReturnCode × Option Nat) :=
  (r.hmGetMyDescriptorId myId).bind fun (code, id) =>
    match id with
    | none => .ok (code, none)
    | some h =>
      match r.healthManagers[h]?, r.processes[failedId]? with
      | some hm, some d =>
        if d.hmDescriptorId ≠ h then .ok (.notAvailable, none)
        else
          match hm.boardOf failedId with
          | some board => .ok (.noError, some board)
          | none => .ok (.notAvailable, none)
      | _, _ => .error .outOfBounds

/-! ## Two tables that point to each other -/

/-- The entry is one of those in use. -/
def HmDescriptor.Registered (hm : HmDescriptor) (i : Nat) : Prop :=
  (i : Int) ≤ hm.currentlyRegisteredProcs

/-- Just one entry in use carries the process, and its blackboard is `board`. -/
def HmDescriptor.Carries (hm : HmDescriptor) (processId board : Nat) : Prop :=
  ∃ i, hm.Registered i ∧ hm.procHmAssociation i = ⟨processId, board⟩ ∧
    ∀ j, hm.Registered j → (hm.procHmAssociation j).processId = processId → j = i

/-- The health manager of an id, where there is one. -/
def healthManagerAt (r : Registry) (id : Int) : Option HmDescriptor :=
  if id < 0 then none else r.healthManagers[id.toNat]?

/-- The two tables point to each other. -/
def Linked (r : Registry) : Prop :=
  ∀ p d, r.processes[p]? = some d → ∀ h : Int, h ≠ -1 →
    (d.hmDescriptorId = h ↔
      ∃ hm, r.healthManagerAt h = some hm ∧ hm.Carries p d.hmResponseBoardId)

/-- The health manager that receives the error of a process finds its blackboard. -/
def Answered (r : Registry) : Prop :=
  ∀ p d, r.processes[p]? = some d → d.hmDescriptorId ≠ -1 →
    ∃ buffer, r.raiseApplicationError p = .ok (.noError, some buffer) ∧
      (∃ myId, r.hmBufferOf myId = .ok (some buffer)) ∧
      ∀ myId, r.hmBufferOf myId = .ok (some buffer) →
        r.hmGetProcessErrorMessage myId p = .ok (.noError, some d.hmResponseBoardId)

/-- The call does not index a vector outside its bounds. -/
def InBounds (r : Registry) : Op → Prop
  | .create creation => r.create creation ≠ .error .outOfBounds
  | .register processId hmDescriptorId =>
    r.registerProcessWithHealthManager processId hmDescriptorId ≠ .error .outOfBounds
  | .setMode _ => True
  | .sort _ _ => True

/-- The registration names a process and a health manager that exist, if it gets as
    far as to link them. -/
def NamesExisting (r : Registry) : Op → Prop
  | .register processId hmDescriptorId =>
    r.AcceptsRegistration processId hmDescriptorId →
      hmBoardName (processId % 2 ^ 32) ∉ r.names .event →
        processId < r.processes.length ∧ 0 ≤ hmDescriptorId
  | _ => True

instance (r : Registry) : (op : Op) → Decidable (r.NamesExisting op)
  | .register _ _ => inferInstanceAs (Decidable (_ → _ → _ ∧ _))
  | .create _ | .setMode _ | .sort _ _ => inferInstanceAs (Decidable True)

/-! ## The invariant -/

/-- The tables agree, entry by entry; the health managers are processes with a
    buffer each; and who is registered has the blackboard that keeps a second
    registration out. -/
structure HmInv (r : Registry) : Prop where
  linked : ∀ p d, r.processes[p]? = some d → d.hmDescriptorId ≠ -1 →
    ∃ (h : Nat) (hm : HmDescriptor) (i : Nat), d.hmDescriptorId = (h : Int) ∧
      r.healthManagers[h]? = some hm ∧ hm.Registered i ∧
      hm.procHmAssociation i = ⟨p, d.hmResponseBoardId⟩
  back : ∀ (h : Nat) hm i, r.healthManagers[h]? = some hm → hm.Registered i →
    ∃ d, r.processes[(hm.procHmAssociation i).processId]? = some d ∧ d.hmDescriptorId = (h : Int)
  once : ∀ (h : Nat) hm i j, r.healthManagers[h]? = some hm → hm.Registered i → hm.Registered j →
    (hm.procHmAssociation i).processId = (hm.procHmAssociation j).processId → i = j
  named : ∀ p d, r.processes[p]? = some d → d.hmDescriptorId ≠ -1 →
    hmBoardName p ∈ r.names .blackboard
  owner : ∀ (h : Nat) hm, r.healthManagers[h]? = some hm →
    ∃ d, r.processes[hm.hmProcessId]? = some d ∧ d.isHealthManager = true
  owners : ∀ (g h : Nat) hm hm', r.healthManagers[g]? = some hm →
    r.healthManagers[h]? = some hm' → hm.hmProcessId = hm'.hmProcessId → g = h
  buffer : ∀ (h : Nat) hm, r.healthManagers[h]? = some hm → hm.hmBufferId < r.buffers.length
  buffers : ∀ (g h : Nat) hm hm', r.healthManagers[g]? = some hm →
    r.healthManagers[h]? = some hm' → hm.hmBufferId = hm'.hmBufferId → g = h
  count : ∀ (h : Nat) hm, r.healthManagers[h]? = some hm → -1 ≤ hm.currentlyRegisteredProcs
  limit : r.processes.length ≤ maxNumberOfProcesses

theorem hmInv_start : start.HmInv := by
  constructor <;> simp [start]

/-! ## Creations -/

theorem create_tables_oneMore {r : Registry} {creation : Creation} {res : Result} {k : Kind}
    {name : String} (htarget : creation.target = some (k, name)) (hprocess : k ≠ .process)
    (hboard : k ≠ .blackboard) (h : r.create creation = .ok res) :
    res.registry.healthManagers = r.healthManagers ∧
      (res.registry.processes = r.processes ∨
        r.processes.length < maxNumberOfProcesses ∧
          ∃ d, d.hmDescriptorId = -1 ∧ res.registry.processes = r.processes ++ [d]) := by
  obtain ⟨-, hsame⟩ | hone := create_oneMore htarget hprocess hboard h
  · rw [hsame]
    exact ⟨rfl, Or.inl rfl⟩
  · exact ⟨hone.healthManagers, Or.inl hone.processes⟩

/-- What a creation does to the two tables: nothing, one more process that is not
    registered, or that and a health manager of its own without entries. -/
theorem create_tables {r : Registry} {creation : Creation} {res : Result}
    (h : r.create creation = .ok res) :
    res.registry.healthManagers = r.healthManagers ∧
        (res.registry.processes = r.processes ∨
          r.processes.length < maxNumberOfProcesses ∧
            ∃ d, d.hmDescriptorId = -1 ∧ res.registry.processes = r.processes ++ [d]) ∨
      r.processes.length < maxNumberOfProcesses ∧
        ∃ d, d.hmDescriptorId = -1 ∧ d.isHealthManager = true ∧
          res.registry.processes = r.processes ++ [d] ∧
          res.registry.healthManagers =
            r.healthManagers ++ [⟨r.processes.length, r.buffers.length, fun _ => ⟨0, 0⟩, -1⟩] ∧
          res.registry.buffers.length = r.buffers.length + 1 := by
  cases creation with
  | process a =>
    left
    obtain ⟨hrefused, -⟩ | ⟨hcheck, hends⟩ := createProcess_cases h
    · rw [hrefused.2]
      exact ⟨rfl, Or.inl rfl⟩
    have hroom := (createProcess_eq_noError_iff.mp hcheck).2.1
    obtain ⟨-, -, hreg⟩ | ⟨-, -, rfl⟩ := hends
    · rw [hreg]
      exact ⟨rfl, Or.inr ⟨hroom, _, rfl, rfl⟩⟩
    · exact ⟨rfl, Or.inr ⟨hroom, _, rfl, rfl⟩⟩
  -- Three ends: refused; the process is there but its buffer is not; both are.
  | healthManager entryPointNull name =>
    obtain ⟨hrefused, -⟩ | ⟨⟨-, hcheck⟩, hends⟩ := createHealthManagerProcess_cases h
    · rw [hrefused.2]
      exact Or.inl ⟨rfl, Or.inl rfl⟩
    have hroom := (createProcess_eq_noError_iff.mp hcheck).2.1
    have hmarked : (r.withManagerProcess name).processes = r.processes ++
        [{ newDescriptor name r.processes.length (some r.blackboards.length) with
          isHealthManager := true }] := by
      exact modify_last r.processes _ _
    obtain ⟨-, -, hreg⟩ | ⟨-, -, ⟨-, -, hreg⟩ | ⟨-, -, rfl⟩⟩ := hends
    · rw [hreg]
      exact Or.inl ⟨rfl, Or.inr ⟨hroom, _, rfl, rfl⟩⟩
    · rw [hreg]
      exact Or.inl ⟨rfl, Or.inr ⟨hroom, _, rfl, hmarked⟩⟩
    · exact Or.inr ⟨hroom, _, rfl, rfl, hmarked, rfl, List.length_append⟩
  | blackboard name size =>
    left
    obtain ⟨hrefused, -⟩ | ⟨-, -, -, -, rfl⟩ := createBlackboard_cases h
    · rw [hrefused.2]
      exact ⟨rfl, Or.inl rfl⟩
    · exact ⟨rfl, Or.inl rfl⟩
  | event name => exact Or.inl (create_tables_oneMore rfl (by decide) (by decide) h)
  | semaphore name currentValue maximumValue =>
    exact Or.inl (create_tables_oneMore rfl (by decide) (by decide) h)
  | rwSemaphore name maximumReaders =>
    exact Or.inl (create_tables_oneMore rfl (by decide) (by decide) h)
  | buffer name size nb discipline =>
    exact Or.inl (create_tables_oneMore rfl (by decide) (by decide) h)
  | samplingPort name size refresh opened =>
    exact Or.inl (create_tables_oneMore rfl (by decide) (by decide) h)
  | queuingPort name size nb discipline opened =>
    exact Or.inl (create_tables_oneMore rfl (by decide) (by decide) h)

theorem HmInv.of_same {r r' : Registry} (hi : r.HmInv) (hp : r'.processes = r.processes)
    (hh : r'.healthManagers = r.healthManagers)
    (hb : ∀ name ∈ r.names .blackboard, name ∈ r'.names .blackboard)
    (hbuf : r.buffers.length ≤ r'.buffers.length) : r'.HmInv where
  linked p d hd hne := by
    rw [hp] at hd
    rw [hh]
    exact hi.linked p d hd hne
  back h hm i hhm hreg := by
    rw [hh] at hhm
    rw [hp]
    exact hi.back h hm i hhm hreg
  once h hm i j hhm := by
    rw [hh] at hhm
    exact hi.once h hm i j hhm
  named p d hd hne := by
    rw [hp] at hd
    exact hb _ (hi.named p d hd hne)
  owner h hm hhm := by
    rw [hh] at hhm
    rw [hp]
    exact hi.owner h hm hhm
  owners := by
    rw [hh]
    exact hi.owners
  buffer h hm hhm := by
    rw [hh] at hhm
    exact Nat.lt_of_lt_of_le (hi.buffer h hm hhm) hbuf
  buffers := by
    rw [hh]
    exact hi.buffers
  count := by
    rw [hh]
    exact hi.count
  limit := by
    rw [hp]
    exact hi.limit

theorem HmInv.of_process {r r' : Registry} (hi : r.HmInv) {d : ProcessDescriptor}
    (hd : d.hmDescriptorId = -1) (hroom : r.processes.length < maxNumberOfProcesses)
    (hp : r'.processes = r.processes ++ [d]) (hh : r'.healthManagers = r.healthManagers)
    (hb : ∀ name ∈ r.names .blackboard, name ∈ r'.names .blackboard)
    (hbuf : r.buffers.length ≤ r'.buffers.length) : r'.HmInv where
  -- The new process is not registered, so nothing is said of it but that it is there.
  linked p e he hne := by
    rw [hp] at he
    rw [hh]
    obtain hold | ⟨-, rfl⟩ := getElem?_push_cases he
    · exact hi.linked p e hold hne
    · exact absurd hd hne
  back h hm i hhm hreg := by
    rw [hh] at hhm
    rw [hp]
    obtain ⟨e, he, hid⟩ := hi.back h hm i hhm hreg
    exact ⟨e, getElem?_push_of_some he, hid⟩
  once h hm i j hhm := by
    rw [hh] at hhm
    exact hi.once h hm i j hhm
  named p e he hne := by
    rw [hp] at he
    obtain hold | ⟨-, rfl⟩ := getElem?_push_cases he
    · exact hb _ (hi.named p e hold hne)
    · exact absurd hd hne
  owner h hm hhm := by
    rw [hh] at hhm
    rw [hp]
    obtain ⟨e, he, howner⟩ := hi.owner h hm hhm
    exact ⟨e, getElem?_push_of_some he, howner⟩
  owners := by
    rw [hh]
    exact hi.owners
  buffer h hm hhm := by
    rw [hh] at hhm
    exact Nat.lt_of_lt_of_le (hi.buffer h hm hhm) hbuf
  buffers := by
    rw [hh]
    exact hi.buffers
  count := by
    rw [hh]
    exact hi.count
  limit := by
    rw [hp, List.length_append, List.length_singleton]
    omega

theorem HmInv.owner_lt {r : Registry} (hi : r.HmInv) {h : Nat} {hm : HmDescriptor}
    (hhm : r.healthManagers[h]? = some hm) : hm.hmProcessId < r.processes.length := by
  obtain ⟨d, hd, -⟩ := hi.owner h hm hhm
  exact (List.getElem?_eq_some_iff.mp hd).1

theorem HmInv.of_healthManager {r r' : Registry} {hm : HmDescriptor} (hi : r.HmInv)
    (hprocess : ∃ d, r.processes[hm.hmProcessId]? = some d ∧ d.isHealthManager = true)
    (hnew : ∀ (g : Nat) hm', r.healthManagers[g]? = some hm' →
      hm'.hmProcessId ≠ hm.hmProcessId ∧ hm'.hmBufferId ≠ hm.hmBufferId)
    (hbuffer : hm.hmBufferId < r'.buffers.length) (hcount : hm.currentlyRegisteredProcs = -1)
    (hp : r'.processes = r.processes) (hh : r'.healthManagers = r.healthManagers ++ [hm])
    (hb : ∀ name ∈ r.names .blackboard, name ∈ r'.names .blackboard)
    (hbuf : r.buffers.length ≤ r'.buffers.length) : r'.HmInv where
  linked p d hd hne := by
    rw [hp] at hd
    obtain ⟨h, hm', i, hid, hhm', hrest⟩ := hi.linked p d hd hne
    rw [hh]
    exact ⟨h, hm', i, hid, getElem?_push_of_some hhm', hrest⟩
  -- The new manager has no entries yet, so what is said of entries is said of the old ones.
  back h hm' i hhm hreg := by
    rw [hh] at hhm
    rw [hp]
    obtain hold | ⟨-, rfl⟩ := getElem?_push_cases hhm
    · exact hi.back h hm' i hold hreg
    · unfold HmDescriptor.Registered at hreg
      omega
  once h hm' i j hhm hi' hj' := by
    rw [hh] at hhm
    obtain hold | ⟨-, rfl⟩ := getElem?_push_cases hhm
    · exact hi.once h hm' i j hold hi' hj'
    · unfold HmDescriptor.Registered at hi'
      omega
  named p d hd hne := by
    rw [hp] at hd
    exact hb _ (hi.named p d hd hne)
  owner h hm' hhm := by
    rw [hh] at hhm
    rw [hp]
    obtain hold | ⟨-, rfl⟩ := getElem?_push_cases hhm
    · exact hi.owner h hm' hold
    · exact hprocess
  owners g h hm₁ hm₂ h₁ h₂ heq := by
    rw [hh] at h₁ h₂
    obtain hold₁ | ⟨hg, rfl⟩ := getElem?_push_cases h₁
    · obtain hold₂ | ⟨-, rfl⟩ := getElem?_push_cases h₂
      · exact hi.owners g h hm₁ hm₂ hold₁ hold₂ heq
      · exact absurd heq (hnew g hm₁ hold₁).1
    · obtain hold₂ | ⟨hh', -⟩ := getElem?_push_cases h₂
      · exact absurd heq.symm (hnew h hm₂ hold₂).1
      · omega
  buffer h hm' hhm := by
    rw [hh] at hhm
    obtain hold | ⟨-, rfl⟩ := getElem?_push_cases hhm
    · exact Nat.lt_of_lt_of_le (hi.buffer h hm' hold) hbuf
    · exact hbuffer
  buffers g h hm₁ hm₂ h₁ h₂ heq := by
    rw [hh] at h₁ h₂
    obtain hold₁ | ⟨hg, rfl⟩ := getElem?_push_cases h₁
    · obtain hold₂ | ⟨-, rfl⟩ := getElem?_push_cases h₂
      · exact hi.buffers g h hm₁ hm₂ hold₁ hold₂ heq
      · exact absurd heq (hnew g hm₁ hold₁).2
    · obtain hold₂ | ⟨hh', -⟩ := getElem?_push_cases h₂
      · exact absurd heq.symm (hnew h hm₂ hold₂).2
      · omega
  count h hm' hhm := by
    rw [hh] at hhm
    obtain hold | ⟨-, rfl⟩ := getElem?_push_cases hhm
    · exact hi.count h hm' hold
    · omega
  limit := by
    rw [hp]
    exact hi.limit

theorem hmInv_create {r : Registry} {creation : Creation} {res : Result} (hi : r.HmInv)
    (h : r.create creation = .ok res) : res.registry.HmInv := by
  have hgrown := grown_create h
  have hb : ∀ name ∈ r.names .blackboard, name ∈ res.registry.names .blackboard :=
    fun name hname => (hgrown.names .blackboard).subset hname
  have hbuf : r.buffers.length ≤ res.registry.buffers.length := by
    have hlen := (hgrown.names .buffer).length_le
    simpa [names] using hlen
  obtain ⟨hh, hp | ⟨hroom, d, hd, hp⟩⟩ | ⟨hroom, d, hd, hmanager, hp, hh, hlen⟩ := create_tables h
  · exact hi.of_same hp hh hb hbuf
  · exact hi.of_process hd hroom hp hh hb hbuf
  · -- the process first, then its health manager
    have hmid : ({ r with processes := r.processes ++ [d] } : Registry).HmInv :=
      hi.of_process hd hroom rfl rfl (fun _ hname => hname) (Nat.le_refl _)
    refine hmid.of_healthManager ?_ ?_ ?_ rfl hp hh hb hbuf
    · refine ⟨d, ?_, hmanager⟩
      simp
    · intro g hm' hhm'
      exact ⟨Nat.ne_of_lt (hi.owner_lt hhm'), Nat.ne_of_lt (hi.buffer g hm' hhm')⟩
    · simp only [hlen]
      omega

/-! ## Registrations -/

/-- The entries in use after one more association: those of before, and the new one
    behind them. -/
theorem HmDescriptor.registered_associate_cases {hm : HmDescriptor} {a : ProcHmAssociation}
    (hc : -1 ≤ hm.currentlyRegisteredProcs) {i : Nat} (h : (hm.associate a).Registered i) :
    hm.Registered i ∧ (hm.associate a).procHmAssociation i = hm.procHmAssociation i ∨
      i = (hm.currentlyRegisteredProcs + 1).toNat ∧ (hm.associate a).procHmAssociation i = a := by
  simp only [HmDescriptor.Registered, HmDescriptor.associate] at h ⊢
  by_cases hi : i = (hm.currentlyRegisteredProcs + 1).toNat
  · right
    rw [hi]
    exact ⟨rfl, Function.update_self ..⟩
  · left
    exact ⟨by omega, Function.update_of_ne hi ..⟩

theorem HmDescriptor.registered_associate_last {hm : HmDescriptor} (a : ProcHmAssociation)
    (hc : -1 ≤ hm.currentlyRegisteredProcs) :
    (hm.associate a).Registered (hm.currentlyRegisteredProcs + 1).toNat ∧
      (hm.associate a).procHmAssociation (hm.currentlyRegisteredProcs + 1).toNat = a := by
  simp only [HmDescriptor.Registered, HmDescriptor.associate]
  exact ⟨by omega, Function.update_self ..⟩

theorem HmDescriptor.registered_associate_of {hm : HmDescriptor} (a : ProcHmAssociation) {i : Nat}
    (h : hm.Registered i) :
    (hm.associate a).Registered i ∧
      (hm.associate a).procHmAssociation i = hm.procHmAssociation i := by
  simp only [HmDescriptor.Registered, HmDescriptor.associate] at h ⊢
  exact ⟨by omega, Function.update_of_ne (by omega) ..⟩

theorem withLink_process_cases {r : Registry} {p q board : Nat} {id : Int} {hm : HmDescriptor}
    {e : ProcessDescriptor} (h : (r.withLink p id hm board).processes[q]? = some e) :
    q = p ∧ (∃ d, r.processes[p]? = some d ∧
        e = { d with hmDescriptorId := id, hmResponseBoardId := board }) ∨
      q ≠ p ∧ r.processes[q]? = some e := by
  simp only [withLink, List.getElem?_modify] at h
  by_cases hq : p = q
  · subst hq
    simp only [if_true, Option.map_eq_map, Option.map_eq_some_iff] at h
    obtain ⟨d, hd, rfl⟩ := h
    exact Or.inl ⟨rfl, d, hd, rfl⟩
  · simp only [if_neg hq, Option.map_eq_map, Option.map_id'] at h
    exact Or.inr ⟨fun heq => hq heq.symm, h⟩

theorem withLink_process_of {r : Registry} {q : Nat} {d : ProcessDescriptor} (p : Nat) (id : Int)
    (hm : HmDescriptor) (board : Nat) (h : r.processes[q]? = some d) :
    ∃ e, (r.withLink p id hm board).processes[q]? = some e ∧
      e.isHealthManager = d.isHealthManager ∧
      e.hmDescriptorId = (if p = q then id else d.hmDescriptorId) := by
  simp only [withLink, List.getElem?_modify, h]
  by_cases hq : p = q
  · simp [hq]
  · simp [hq]

theorem withLink_healthManager_cases {r : Registry} {p h g board : Nat} {hm m : HmDescriptor}
    (hm' : (r.withLink p (h : Int) hm board).healthManagers[g]? = some m) :
    g = h ∧ m = hm.associate ⟨p, board⟩ ∨ g ≠ h ∧ r.healthManagers[g]? = some m := by
  simp only [withLink, Int.toNat_natCast, List.getElem?_set] at hm'
  by_cases hg : h = g
  · subst hg
    left
    simp only [if_true] at hm'
    split at hm'
    · exact ⟨rfl, (Option.some.inj hm').symm⟩
    · cases hm'
  · right
    rw [if_neg hg] at hm'
    exact ⟨fun heq => hg heq.symm, hm'⟩

theorem withLink_healthManager_self {r : Registry} {p h board : Nat} {hm : HmDescriptor}
    (hh : r.healthManagers[h]? = some hm) :
    (r.withLink p (h : Int) hm board).healthManagers[h]? = some (hm.associate ⟨p, board⟩) := by
  obtain ⟨hlt, -⟩ := List.getElem?_eq_some_iff.mp hh
  simp [withLink, hlt]

theorem withLink_healthManager_of_ne {r : Registry} {p h g board : Nat} {hm m : HmDescriptor}
    (hg : g ≠ h) (hm' : r.healthManagers[g]? = some m) :
    (r.withLink p (h : Int) hm board).healthManagers[g]? = some m := by
  simp only [withLink, Int.toNat_natCast]
  rw [List.getElem?_set_ne hg.symm]
  exact hm'

theorem withLink_healthManager_old {r : Registry} {p h g board : Nat} {hm m : HmDescriptor}
    (hhm : r.healthManagers[h]? = some hm)
    (hm' : (r.withLink p (h : Int) hm board).healthManagers[g]? = some m) :
    ∃ m₀, r.healthManagers[g]? = some m₀ ∧ m₀.hmProcessId = m.hmProcessId ∧
      m₀.hmBufferId = m.hmBufferId := by
  obtain ⟨rfl, rfl⟩ | ⟨-, hm₀⟩ := withLink_healthManager_cases hm'
  · exact ⟨hm, hhm, rfl, rfl⟩
  · exact ⟨m, hm₀, rfl, rfl⟩

theorem HmInv.entry_ne {r : Registry} (hi : r.HmInv) {p : Nat}
    (hfree : ∀ d, r.processes[p]? = some d → d.hmDescriptorId = -1) {g : Nat} {m : HmDescriptor}
    (hm : r.healthManagers[g]? = some m) {i : Nat} (hreg : m.Registered i) :
    (m.procHmAssociation i).processId ≠ p := by
  intro heq
  obtain ⟨d, hd, hid⟩ := hi.back g m i hm hreg
  rw [heq] at hd
  have hminus := hfree d hd
  omega

theorem hmInv_withLink {r : Registry} (hi : r.HmInv) {p h board : Nat} {hm : HmDescriptor}
    (hhm : r.healthManagers[h]? = some hm) (hp : p < r.processes.length)
    (hfree : ∀ d, r.processes[p]? = some d → d.hmDescriptorId = -1)
    (hnamed : hmBoardName p ∈ r.names .blackboard) :
    (r.withLink p (h : Int) hm board).HmInv where
  linked q e he hne := by
    obtain ⟨rfl, d, hd, rfl⟩ | ⟨hq, hd⟩ := withLink_process_cases he
    · obtain ⟨hlast, hvalue⟩ := hm.registered_associate_last ⟨q, board⟩ (hi.count h hm hhm)
      exact ⟨h, _, _, rfl, withLink_healthManager_self hhm, hlast, hvalue⟩
    · obtain ⟨g, m, i, hid, hm', hreg, hvalue⟩ := hi.linked q e hd hne
      by_cases hg : g = h
      · subst hg
        obtain rfl : m = hm := Option.some.inj (hm'.symm.trans hhm)
        obtain ⟨hreg', hvalue'⟩ := m.registered_associate_of ⟨p, board⟩ hreg
        exact ⟨g, _, i, hid, withLink_healthManager_self hhm, hreg', hvalue'.trans hvalue⟩
      · exact ⟨g, m, i, hid, withLink_healthManager_of_ne hg hm', hreg, hvalue⟩
  back g m i hm' hreg := by
    -- an entry of before carries another process, whose descriptor is untouched
    have hkept (g : Nat) (m : HmDescriptor) (hm₀ : r.healthManagers[g]? = some m)
        (hreg₀ : m.Registered i) :
        ∃ e, (r.withLink p (h : Int) hm board).processes[(m.procHmAssociation i).processId]? =
          some e ∧ e.hmDescriptorId = (g : Int) := by
      obtain ⟨d, hd, hid⟩ := hi.back g m i hm₀ hreg₀
      obtain ⟨e, he, -, hide⟩ := withLink_process_of p h hm board hd
      rw [if_neg (hi.entry_ne hfree hm₀ hreg₀).symm] at hide
      exact ⟨e, he, hide.trans hid⟩
    obtain ⟨rfl, rfl⟩ | ⟨-, hm₀⟩ := withLink_healthManager_cases hm'
    · obtain ⟨hreg₀, hvalue⟩ | ⟨-, hvalue⟩ := hm.registered_associate_cases (hi.count g hm hhm) hreg
      · rw [hvalue]
        exact hkept g hm hhm hreg₀
      · rw [hvalue]
        obtain ⟨e, he, -, hide⟩ :=
          withLink_process_of p g hm board (List.getElem?_eq_getElem hp)
        rw [if_pos rfl] at hide
        exact ⟨e, he, hide⟩
    · exact hkept g m hm₀ hreg
  once g m i j hm' hri hrj heq := by
    obtain ⟨rfl, rfl⟩ | ⟨-, hm₀⟩ := withLink_healthManager_cases hm'
    · have hc := hi.count g hm hhm
      obtain ⟨hi₀, hvi⟩ | ⟨hlast, hvi⟩ := hm.registered_associate_cases hc hri
      · obtain ⟨hj₀, hvj⟩ | ⟨-, hvj⟩ := hm.registered_associate_cases hc hrj
        · rw [hvi, hvj] at heq
          exact hi.once g hm i j hhm hi₀ hj₀ heq
        · rw [hvi, hvj] at heq
          exact absurd heq (hi.entry_ne hfree hhm hi₀)
      · obtain ⟨hj₀, hvj⟩ | ⟨hlast', -⟩ := hm.registered_associate_cases hc hrj
        · rw [hvi, hvj] at heq
          exact absurd heq.symm (hi.entry_ne hfree hhm hj₀)
        · rw [hlast, hlast']
    · exact hi.once g m i j hm₀ hri hrj heq
  named q e he hne := by
    obtain ⟨rfl, -⟩ | ⟨-, hd⟩ := withLink_process_cases he
    · exact hnamed
    · exact hi.named q e hd hne
  owner g m hm' := by
    obtain ⟨m₀, hm₀, hprocess, -⟩ := withLink_healthManager_old hhm hm'
    obtain ⟨d, hd, howner⟩ := hi.owner g m₀ hm₀
    obtain ⟨e, he, hflag, -⟩ := withLink_process_of p h hm board hd
    rw [← hprocess]
    exact ⟨e, he, hflag.trans howner⟩
  owners g g' m m' h₁ h₂ heq := by
    obtain ⟨m₀, hm₀, hprocess, -⟩ := withLink_healthManager_old hhm h₁
    obtain ⟨m₁, hm₁, hprocess', -⟩ := withLink_healthManager_old hhm h₂
    exact hi.owners g g' m₀ m₁ hm₀ hm₁ (by rw [hprocess, hprocess', heq])
  buffer g m hm' := by
    obtain ⟨m₀, hm₀, -, hbuffer⟩ := withLink_healthManager_old hhm hm'
    rw [← hbuffer]
    exact hi.buffer g m₀ hm₀
  buffers g g' m m' h₁ h₂ heq := by
    obtain ⟨m₀, hm₀, -, hbuffer⟩ := withLink_healthManager_old hhm h₁
    obtain ⟨m₁, hm₁, -, hbuffer'⟩ := withLink_healthManager_old hhm h₂
    exact hi.buffers g g' m₀ m₁ hm₀ hm₁ (by rw [hbuffer, hbuffer', heq])
  count g m hm' := by
    obtain ⟨rfl, rfl⟩ | ⟨-, hm₀⟩ := withLink_healthManager_cases hm'
    · have hc := hi.count g hm hhm
      simp only [HmDescriptor.associate]
      omega
    · exact hi.count g m hm₀
  limit := by
    simp only [withLink, List.length_modify]
    exact hi.limit

/-- While a process is not registered there is a free place: the entries in use
    carry other processes, each its own. -/
theorem HmInv.room {r : Registry} (hi : r.HmInv) {p h : Nat} {hm : HmDescriptor}
    (hhm : r.healthManagers[h]? = some hm) (hp : p < r.processes.length)
    (hfree : ∀ d, r.processes[p]? = some d → d.hmDescriptorId = -1) :
    hm.currentlyRegisteredProcs + 1 < maxHmProcRelationships := by
  have hreg (i : Nat) (hlt : i < (hm.currentlyRegisteredProcs + 1).toNat) : hm.Registered i := by
    unfold HmDescriptor.Registered
    omega
  have hcard : (Finset.range (hm.currentlyRegisteredProcs + 1).toNat).card ≤
      ((Finset.range r.processes.length).erase p).card := by
    apply Finset.card_le_card_of_injOn fun i => (hm.procHmAssociation i).processId
    · intro i hlt
      have hri := hreg i (Finset.mem_range.mp hlt)
      obtain ⟨d, hd, -⟩ := hi.back h hm i hhm hri
      exact Finset.mem_coe.mpr (Finset.mem_erase.mpr
        ⟨hi.entry_ne hfree hhm hri, Finset.mem_range.mpr (List.getElem?_eq_some_iff.mp hd).1⟩)
    · intro i hlt j hlt' heq
      exact hi.once h hm i j hhm (hreg i (Finset.mem_range.mp hlt))
        (hreg j (Finset.mem_range.mp hlt')) heq
  rw [Finset.card_range, Finset.card_erase_of_mem (Finset.mem_range.mpr hp),
    Finset.card_range] at hcard
  have hlimit := hi.limit
  unfold maxNumberOfProcesses at hlimit
  unfold maxHmProcRelationships
  omega

theorem HmInv.mod_eq {r : Registry} (hi : r.HmInv) {p : Nat} (hp : p < r.processes.length) :
    p % 2 ^ 32 = p := by
  have hlimit := hi.limit
  unfold maxNumberOfProcesses at hlimit
  exact Nat.mod_eq_of_lt (by omega)

theorem link_eq_ok {r : Registry} {p h board : Nat} {hm : HmDescriptor}
    (hhm : r.healthManagers[h]? = some hm) (hp : p < r.processes.length)
    (howner : hm.hmProcessId < r.processes.length)
    (hroom : hm.currentlyRegisteredProcs + 1 < maxHmProcRelationships) :
    r.link p (h : Int) board = .ok (r.withLink p h hm board) := by
  have hneg : ¬ (h : Int) < 0 := by omega
  rw [link, if_neg (Nat.not_le.mpr hp), if_neg hneg]
  simp only [Int.toNat_natCast, hhm, if_neg (Nat.not_le.mpr howner), if_neg (Int.not_le.mpr hroom)]

theorem link_outOfBounds {r : Registry} {p board : Nat} {id : Int}
    (hbad : ¬ (p < r.processes.length ∧ 0 ≤ id)) : r.link p id board = .error .outOfBounds := by
  unfold link
  by_cases hp : r.processes.length ≤ p
  · rw [if_pos hp]
  · have hneg : id < 0 := by omega
    rw [if_neg hp, if_pos hneg]

/-- What a registration that gets past its checks comes to: the link where both exist,
    an index outside a vector where one does not. -/
theorem register_of_accepts {r : Registry} (hi : r.HmInv) {p : Nat} {id : Int}
    (haccepts : r.AcceptsRegistration p id) (hevent : hmBoardName (p % 2 ^ 32) ∉ r.names .event) :
    (p < r.processes.length ∧ 0 ≤ id ∧ ∃ res, r.registerProcessWithHealthManager p id = .ok res ∧
        res.registry.HmInv) ∨
      ¬ (p < r.processes.length ∧ 0 ≤ id) ∧
        r.registerProcessWithHealthManager p id = .error .outOfBounds := by
  obtain ⟨other, -, -, hnot⟩ | ⟨-, htaken⟩ | ⟨⟨-, -, hid, hname⟩, -, hlink⟩ := r.register_cases p id
  · exact absurd haccepts hnot
  · exact absurd htaken hevent
  · by_cases hgood : p < r.processes.length ∧ 0 ≤ id
    · left
      obtain ⟨hp, hpos⟩ := hgood
      obtain ⟨h, rfl⟩ := Int.eq_ofNat_of_zero_le hpos
      have hlt : h < r.healthManagers.length := by omega
      have hhm : r.healthManagers[h]? = some r.healthManagers[h] := List.getElem?_eq_getElem hlt
      rw [hi.mod_eq hp] at hname hevent hlink
      -- The board's name is made from the process id, so a registered process would have it taken.
      have hfree : ∀ d, r.processes[p]? = some d → d.hmDescriptorId = -1 := by
        intro d hd
        by_contra hne
        exact hname (hi.named p d hd hne)
      have hboard := grown_withBlackboard maxHmResponseMessageSize hname hevent
      have hi' : (r.withBlackboard (hmBoardName p) maxHmResponseMessageSize).HmInv :=
        hi.of_same rfl rfl (fun name hmem => (hboard.names .blackboard).subset hmem) (Nat.le_refl _)
      have hok : r.registerProcessWithHealthManager p h =
          .ok ⟨(r.withBlackboard (hmBoardName p) maxHmResponseMessageSize).withLink p h
            r.healthManagers[h] r.blackboards.length, .noError, some r.blackboards.length⟩ := by
        have hl : (r.withBlackboard (hmBoardName p) maxHmResponseMessageSize).link p h
            r.blackboards.length =
              .ok ((r.withBlackboard (hmBoardName p) maxHmResponseMessageSize).withLink p h
                r.healthManagers[h] r.blackboards.length) :=
          link_eq_ok (r := r.withBlackboard (hmBoardName p) maxHmResponseMessageSize) hhm hp
            (hi.owner_lt hhm) (hi.room hhm hp hfree)
        rw [hlink, hl]
        rfl
      refine ⟨hp, hpos, _, hok, hmInv_withLink hi' hhm hp hfree ?_⟩
      simp [names, withBlackboard, withEvent]
    · right
      refine ⟨hgood, ?_⟩
      rw [hlink, link_outOfBounds (r := r.withBlackboard _ _) hgood]
      rfl

/-! ## Runs -/

theorem hmInv_step {r r' : Registry} {op : Op} (hi : r.HmInv) (h : r.step op = some r') :
    r'.HmInv := by
  cases op with
  | create creation =>
    obtain ⟨res, hres, rfl⟩ := step_create_some h
    exact hmInv_create hi hres
  | register p id =>
    obtain ⟨res, hres, rfl⟩ := step_register_some h
    -- Refused, ended by the assertion on the event, or past all checks.
    obtain ⟨other, hother, hrefused, -⟩ | ⟨hfault, -⟩ | ⟨haccepts, hevent, -⟩ :=
      r.register_cases p id
    · obtain rfl : other = res := Except.ok.inj (hother.symm.trans hres)
      rw [hrefused.2]
      exact hi
    · cases hfault.symm.trans hres
    · obtain ⟨-, -, other, hother, hkept⟩ | ⟨-, hfault⟩ := register_of_accepts hi haccepts hevent
      · obtain rfl : other = res := Except.ok.inj (hother.symm.trans hres)
        exact hkept
      · cases hfault.symm.trans hres
  | setMode mode =>
    rw [setPartitionMode_some h]
    exact hi.of_same rfl rfl (fun _ hname => hname) (Nat.le_refl _)
  | sort info result =>
    simp only [step, Option.ite_none_right_eq_some, Option.some.injEq] at h
    obtain ⟨-, rfl⟩ := h
    exact hi.of_same rfl rfl (fun _ hname => hname) (Nat.le_refl _)

theorem error_of_map {α β : Type} {x : Except Fault α} {f : α → β} {fault : Fault}
    (h : x.map f = .error fault) : x = .error fault := by
  cases x with
  | error other => exact congrArg Except.error (Except.error.inj h)
  | ok a => cases h

/-- The creations index no vector with an id of their caller. -/
theorem create_ne_outOfBounds (r : Registry) (creation : Creation) :
    r.create creation ≠ .error .outOfBounds := by
  have hboard (name : String) (size : Int) :
      r.createBlackboard name size ≠ .error .outOfBounds := by
    intro h
    obtain ⟨hfault, -⟩ := createBlackboard_error h
    cases hfault
  have hprocess (a : Attributes) : r.createProcess a ≠ .error .outOfBounds := by
    intro h
    simp only [createProcess] at h
    split at h
    · cases h
    · exact hboard _ _ (error_of_map h)
  -- The indices that a creation uses are lengths of vectors, so the only faults are assertions.
  cases creation with
  | process a => exact hprocess a
  | healthManager entryPointNull name =>
    intro h
    simp only [create, createHealthManagerProcess] at h
    split at h
    · cases h
    cases hhelper : r.apexHelperCreateProcess (hmAttributes name entryPointNull) with
    | error fault =>
      rw [hhelper] at h
      unfold apexHelperCreateProcess at hhelper
      split at hhelper
      · cases hhelper
      · split at hhelper
        · cases hhelper
          cases h
        · exact hprocess _ (hhelper.trans h)
    | ok process =>
      rw [hhelper] at h
      simp only [Except.bind, createHmBuffer] at h
      split at h
      · cases h
      · split at h
        · cases h
        · split at h
          · cases h
          · cases h
  | blackboard name size => exact hboard name size
  | event | semaphore | rwSemaphore | buffer | samplingPort | queuingPort =>
    intro h
    cases h

/-- A call leaves a vector just where a registration names what does not exist. -/
theorem HmInv.inBounds_iff {r : Registry} (hi : r.HmInv) (op : Op) :
    r.InBounds op ↔ r.NamesExisting op := by
  cases op with
  | create creation => exact iff_of_true (r.create_ne_outOfBounds creation) trivial
  | register p id =>
    obtain ⟨res, hres, -, hnot⟩ | ⟨hfault, hevent⟩ | ⟨haccepts, hevent, -⟩ := r.register_cases p id
    · have hbounds : r.InBounds (.register p id) := by
        intro h
        cases hres.symm.trans h
      exact iff_of_true hbounds fun haccepts => absurd haccepts hnot
    · have hbounds : r.InBounds (.register p id) := by
        intro h
        cases hfault.symm.trans h
      exact iff_of_true hbounds fun _ hfree => absurd hevent hfree
    · obtain ⟨hp, hid, res, hres, -⟩ | ⟨hbad, hfault⟩ := register_of_accepts hi haccepts hevent
      · have hbounds : r.InBounds (.register p id) := by
          intro h
          cases hres.symm.trans h
        exact iff_of_true hbounds fun _ _ => ⟨hp, hid⟩
      · exact iff_of_false (fun h => h hfault) fun h => hbad (h haccepts hevent)
  | setMode mode => exact Iff.rfl
  | sort info result => exact Iff.rfl

/-- The entry that carries a process is the only one, and the search finds its
    blackboard. -/
theorem HmDescriptor.Carries.boardOf_eq {hm : HmDescriptor} {p board : Nat}
    (h : hm.Carries p board) : hm.boardOf p = some board := by
  obtain ⟨i, hreg, hvalue, honly⟩ := h
  have hmem (j : Nat) : j ∈ List.range (hm.currentlyRegisteredProcs + 1).toNat ↔
      hm.Registered j := by
    simp only [List.mem_range, Registered]
    omega
  cases hfound : hm.boardOf p with
  | none =>
    have hnone := List.findSome?_eq_none_iff.mp hfound _
      (List.mem_map.mpr ⟨i, (hmem i).mpr hreg, rfl⟩)
    rw [hvalue, if_pos rfl] at hnone
    cases hnone
  | some found =>
    obtain ⟨association, hin, hsome⟩ := List.exists_of_findSome?_eq_some hfound
    obtain ⟨j, hj, rfl⟩ := List.mem_map.mp hin
    obtain ⟨hprocess, hboard⟩ := Option.ite_none_right_eq_some.mp hsome
    obtain rfl := honly j ((hmem j).mp hj) hprocess
    rw [hvalue] at hboard
    exact hboard.symm

theorem healthManagerAt_natCast (r : Registry) (h : Nat) :
    r.healthManagerAt (h : Int) = r.healthManagers[h]? := by
  unfold healthManagerAt
  rw [if_neg (by omega), Int.toNat_natCast]

theorem HmInv.carries {r : Registry} (hi : r.HmInv) {p : Nat} {d : ProcessDescriptor}
    (hd : r.processes[p]? = some d) (hne : d.hmDescriptorId ≠ -1) :
    ∃ (h : Nat) (hm : HmDescriptor), d.hmDescriptorId = (h : Int) ∧
      r.healthManagers[h]? = some hm ∧ hm.Carries p d.hmResponseBoardId := by
  obtain ⟨h, hm, i, hid, hhm, hreg, hvalue⟩ := hi.linked p d hd hne
  refine ⟨h, hm, hid, hhm, i, hreg, hvalue, fun j hj heq => ?_⟩
  apply hi.once h hm j i hhm hj hreg
  rw [heq, hvalue]

theorem HmInv.tables_linked {r : Registry} (hi : r.HmInv) : r.Linked := by
  intro p d hd id hne
  constructor
  · rintro rfl
    obtain ⟨h, hm, hid, hhm, hcarries⟩ := hi.carries hd hne
    rw [hid, healthManagerAt_natCast]
    exact ⟨hm, hhm, hcarries⟩
  · rintro ⟨hm, hhm, i, hreg, hvalue, -⟩
    obtain ⟨hneg, hhm⟩ := Option.ite_none_left_eq_some.mp hhm
    obtain ⟨e, he, hid⟩ := hi.back id.toNat hm i hhm hreg
    rw [hvalue, hd] at he
    obtain rfl := Option.some.inj he
    omega

theorem HmInv.getMyDescriptorId {r : Registry} (hi : r.HmInv) {h : Nat} {hm : HmDescriptor}
    (hhm : r.healthManagers[h]? = some hm) :
    r.hmGetMyDescriptorId hm.hmProcessId = .ok (.noError, some h) := by
  obtain ⟨e, he, hflag⟩ := hi.owner h hm hhm
  obtain ⟨hlt, hget⟩ := List.getElem?_eq_some_iff.mp hhm
  have hfind : (r.healthManagers.findIdx? fun m => m.hmProcessId == hm.hmProcessId) = some h := by
    refine List.findIdx?_eq_some_iff_getElem.mpr ⟨hlt, ?_, fun j hj => ?_⟩
    · rw [hget]
      exact beq_self_eq_true _
    · intro heq
      have hother : r.healthManagers[j]? = some r.healthManagers[j] :=
        List.getElem?_eq_getElem (hj.trans hlt)
      have hsame := hi.owners j h _ hm hother hhm (beq_iff_eq.mp heq)
      omega
  simp only [hmGetMyDescriptorId, he, hflag, if_true, hfind]

theorem HmInv.errors_answered {r : Registry} (hi : r.HmInv) : r.Answered := by
  intro p d hd hne
  obtain ⟨h, hm, hid, hhm, hcarries⟩ := hi.carries hd hne
  refine ⟨hm.hmBufferId, ?_, ⟨hm.hmProcessId, ?_⟩, fun myId hbuffer => ?_⟩
  · have hnone : ¬ (h : Int) = -1 := by omega
    have hneg : ¬ (h : Int) < 0 := by omega
    simp only [raiseApplicationError, hd, hid, if_neg hnone, if_neg hneg, Int.toNat_natCast, hhm]
  · simp only [hmBufferOf, hi.getMyDescriptorId hhm, Except.map, Option.bind_some, hhm,
      Option.map_some]
  · obtain ⟨⟨code, mine⟩, hown, hmine⟩ := ok_of_map hbuffer
    obtain ⟨g, rfl, hg⟩ := Option.bind_eq_some_iff.mp hmine
    obtain ⟨m, hm', hsame⟩ := Option.map_eq_some_iff.mp hg
    -- the buffers differ, so that the receiver is the health manager of the process
    obtain rfl := hi.buffers g h m hm hm' hhm hsame
    simp only [hmGetProcessErrorMessage, hown, Except.bind, hhm, hd, hid, ne_eq, not_true_eq_false,
      if_false, hcarries.boardOf_eq]

/-- In every run, the calls stay within the vectors just when the registrations name
    what exists, and every state reached has its tables linked and its errors
    answered. -/
theorem registration_linked (ops : List Op) :
    (Meets step InBounds start ops ↔ Meets step NamesExisting start ops) ∧
      ∀ r, run step start ops = some r → r.Linked ∧ r.Answered := by
  refine ⟨⟨fun h => ?_, fun h => ?_⟩, fun r h => ?_⟩
  · exact h.imp (I := HmInv) (fun _ _ _ hi _ hstep => hmInv_step hi hstep)
      (fun _ op hi => (hi.inBounds_iff op).mp) hmInv_start
  · exact h.imp (I := HmInv) (fun _ _ _ hi _ hstep => hmInv_step hi hstep)
      (fun _ op hi => (hi.inBounds_iff op).mpr) hmInv_start
  · have hi : r.HmInv := run_invariant (fun _ _ _ hs hstep => hmInv_step hs hstep) hmInv_start h
    exact ⟨hi.tables_linked, hi.errors_answered⟩

/-- A health manager, and a process registered with it. -/
def managedProcess : List Op :=
  [.create (.healthManager false "HM"), .create (.process ⟨"P", false, 90, 1000, 1000000, .hard⟩),
    .register 1 0]

theorem registration_linked_managedProcess :
    Meets step InBounds start managedProcess ∧
      ∃ r, run step start managedProcess = some r ∧ r.Linked ∧ r.Answered ∧
        r.processes.map (·.hmDescriptorId) = [-1, 0] := by
  obtain ⟨r, hr⟩ := Option.isSome_iff_exists.mp
    (show (run step start managedProcess).isSome = true by decide)
  have hids : (run step start managedProcess).map (fun s => s.processes.map (·.hmDescriptorId)) =
      some [-1, 0] := by decide
  rw [hr] at hids
  obtain ⟨hiff, htables⟩ := registration_linked managedProcess
  exact ⟨hiff.mpr (by decide), r, hr, (htables r hr).1, (htables r hr).2, Option.some.inj hids⟩

/-- A process registers itself with the health manager -1: it passes the checks and
    indexes the vector with it. -/
theorem register_negative :
    ((run step start [.create (.healthManager false "HM")]).bind fun r =>
      match r.registerProcessWithHealthManager 0 (-1) with
      | .error fault => some fault
      | .ok _ => none) = some .outOfBounds := by decide

end Arinc.Registry
