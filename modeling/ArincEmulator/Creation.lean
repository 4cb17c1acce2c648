import ArincEmulator.Registry

/- Which creations are all or nothing, and which of them the limits hold for.

   What is proved: in a run, every creation that returns an error has left all
   vectors alone and no vector is longer than its limit, just when the calls meet
   `Fits` (`creation_atomic_iff`). What breaks it are the creations made of several:
   a process stays when its response blackboard is refused, a health manager's
   process and blackboard when its buffer is; and the kinds whose vectors nothing
   checks: events, semaphores, read/write semaphores and blackboards. -/
namespace Arinc.Registry
open Runs

/-! ## Creations that are all or nothing -/

/-- No vector is longer than its limit. -/
def WithinLimits (r : Registry) : Prop := ∀ k, (r.names k).length ≤ systemLimit k

/-- The call has left the vectors alone unless it succeeded. -/
def Result.Atomic (res : Result) (r : Registry) : Prop := res.code ≠ .noError → res.registry = r

/-- A step in order: a creation that returns is all or nothing, and the vectors are
    within their limits after it. -/
def Proper (r : Registry) : Op → Prop
  | .create creation => ∀ res, r.create creation = .ok res →
      res.Atomic r ∧ res.registry.WithinLimits
  | .register processId hmDescriptorId => ∀ res,
      r.registerProcessWithHealthManager processId hmDescriptorId = .ok res →
        res.Atomic r ∧ res.registry.WithinLimits
  | .setMode _ => True
  | .sort _ _ => True

/-- There is room for one more of a kind. -/
def Room (r : Registry) (k : Kind) : Prop := (r.names k).length < systemLimit k

/-- The name of the next process's response blackboard is free. -/
def ResponseFree (r : Registry) : Prop :=
  responseName r.processes.length ∉ r.names .blackboard

instance (r : Registry) (k : Kind) : Decidable (r.Room k) := inferInstanceAs (Decidable (_ < _))

instance (r : Registry) : Decidable r.ResponseFree := inferInstanceAs (Decidable (¬ _))

/-- The condition on a creation that gets past its own checks: room for what it
    creates on the way where nothing checks it, and free names. -/
def CreationFits (r : Registry) : Creation → Prop
  | .process a =>
    Arinc.createProcess r.currentOperatingMode (r.names .process) a = .noError →
      r.ResponseFree ∧ r.Room .event ∧ r.Room .blackboard
  | .healthManager entryPointNull name =>
    r.AcceptsHealthManager entryPointNull name →
      r.ResponseFree ∧ r.Room .event ∧ r.Room .blackboard ∧ r.Room .buffer ∧
        hmBufferName name ∉ r.names .buffer
  | .event name => ¬ r.Closed → name ∉ r.names .event → r.Room .event
  | .semaphore name _ _ => ¬ r.Closed → name ∉ r.names .semaphore → r.Room .semaphore
  | .rwSemaphore name _ => ¬ r.Closed → name ∉ r.names .rwSemaphore → r.Room .rwSemaphore
  | .blackboard name size =>
    r.currentOperatingMode ≠ .normal → 0 < size → name ∉ r.names .blackboard →
      r.Room .event ∧ r.Room .blackboard
  | .buffer .. => True
  | .samplingPort .. => True
  | .queuingPort .. => True

/-- The condition on a step. -/
def Fits (r : Registry) : Op → Prop
  | .create creation => r.CreationFits creation
  | .register processId hmDescriptorId =>
    r.AcceptsRegistration processId hmDescriptorId → r.Room .event ∧ r.Room .blackboard
  | .setMode _ => True
  | .sort _ _ => True

instance (r : Registry) : (creation : Creation) → Decidable (r.CreationFits creation)
  | .process _ => inferInstanceAs (Decidable (_ → _ ∧ _ ∧ _))
  | .healthManager _ _ => inferInstanceAs (Decidable (_ → _ ∧ _ ∧ _ ∧ _ ∧ _))
  | .event _ | .semaphore _ _ _ | .rwSemaphore _ _ => inferInstanceAs (Decidable (_ → _ → _))
  | .blackboard _ _ => inferInstanceAs (Decidable (_ → _ → _ → _ ∧ _))
  | .buffer .. | .samplingPort .. | .queuingPort .. => inferInstanceAs (Decidable True)

instance (r : Registry) : (op : Op) → Decidable (r.Fits op)
  | .create creation => inferInstanceAs (Decidable (r.CreationFits creation))
  | .register _ _ => inferInstanceAs (Decidable (_ → _ ∧ _))
  | .setMode _ | .sort _ _ => inferInstanceAs (Decidable True)

/-! ## Lengths -/

theorem withinLimits_iff (r : Registry) :
    r.WithinLimits ↔
      r.processes.length ≤ 128 ∧ r.events.length ≤ 256 ∧ r.semaphores.length ≤ 256 ∧
        r.rwSemaphores.length ≤ 256 ∧ r.buffers.length ≤ 256 ∧ r.blackboards.length ≤ 256 ∧
        r.samplingPorts.length ≤ 512 ∧ r.queuingPorts.length ≤ 512 := by
  constructor
  · intro h
    have hk (k : Kind) : (r.names k).length ≤ systemLimit k := h k
    simp only [names, systemLimit] at hk
    refine ⟨?_, ?_, ?_, ?_, ?_, ?_, ?_, ?_⟩
    · simpa using hk .process
    · simpa using hk .event
    · simpa using hk .semaphore
    · simpa using hk .rwSemaphore
    · simpa using hk .buffer
    · simpa using hk .blackboard
    · simpa using hk .samplingPort
    · simpa using hk .queuingPort
  · rintro ⟨h1, h2, h3, h4, h5, h6, h7, h8⟩ k
    cases k <;> simpa [names, systemLimit]

theorem room_iff (r : Registry) :
    (r.Room .event ↔ r.events.length < 256) ∧ (r.Room .blackboard ↔ r.blackboards.length < 256) ∧
      (r.Room .semaphore ↔ r.semaphores.length < 256) ∧
      (r.Room .rwSemaphore ↔ r.rwSemaphores.length < 256) ∧
      (r.Room .buffer ↔ r.buffers.length < 256) := by
  simp [Room, names, systemLimit]

theorem proper_of_refused {r : Registry} {res : Result} (hl : r.WithinLimits) (h : res.Refused r) :
    res.Atomic r ∧ res.registry.WithinLimits := by
  rw [h.2]
  exact ⟨fun _ => rfl, hl⟩

theorem withBlackboard_withinLimits_iff {r : Registry} (hl : r.WithinLimits) (name : String)
    (size : Int) :
    (r.withBlackboard name size).WithinLimits ↔ r.Room .event ∧ r.Room .blackboard := by
  obtain ⟨hevent, hboard, -⟩ := r.room_iff
  rw [withinLimits_iff] at hl ⊢
  rw [hevent, hboard]
  simp only [withBlackboard, withEvent, List.length_append, List.length_singleton]
  omega

theorem atomic_of_noError {res : Result} {r : Registry} (h : res.code = .noError) :
    res.Atomic r := fun hcode => absurd h hcode

theorem not_atomic_of_processes {res : Result} {r : Registry} (hcode : res.code ≠ .noError)
    (h : res.registry.processes.length = r.processes.length + 1) : ¬ res.Atomic r := by
  intro hatomic
  rw [hatomic hcode] at h
  omega

/-! ## Each service -/

theorem createBlackboard_proper_iff {r : Registry} (hl : r.WithinLimits) {name : String}
    {size : Int} {res : Result} (h : r.createBlackboard name size = .ok res) :
    (res.Atomic r ∧ res.registry.WithinLimits) ↔ r.CreationFits (.blackboard name size) := by
  obtain ⟨hrefused, hwhy⟩ | ⟨hopen, hsize, hname, -, rfl⟩ := createBlackboard_cases h
  · refine iff_of_true (proper_of_refused hl hrefused) ?_
    intro hmode hsize hname
    obtain hnormal | hneg | htaken := hwhy
    · exact absurd hnormal hmode
    · omega
    · exact absurd htaken hname
  · have hmode : r.currentOperatingMode ≠ .normal := fun hm => hopen (Or.inr hm)
    have hfits : r.CreationFits (.blackboard name size) ↔ r.Room .event ∧ r.Room .blackboard :=
      ⟨fun hf => hf hmode hsize hname, fun hroom _ _ _ => hroom⟩
    rw [hfits, ← withBlackboard_withinLimits_iff hl name size]
    exact and_iff_right (atomic_of_noError rfl)

theorem withProcess_withinLimits_iff {r : Registry} (hl : r.WithinLimits)
    (hroom : r.processes.length < maxNumberOfProcesses) (board name : String) (size : Int)
    (id : Option Nat) :
    ((r.withBlackboard board size).withProcess name id).WithinLimits ↔
      r.Room .event ∧ r.Room .blackboard := by
  rw [← withBlackboard_withinLimits_iff hl board size, withinLimits_iff, withinLimits_iff]
  unfold maxNumberOfProcesses at hroom
  simp only [withProcess, withBlackboard, withEvent, List.length_append, List.length_singleton]
  omega

theorem createProcess_proper_iff {r : Registry} (hl : r.WithinLimits) {a : Attributes}
    {res : Result} (h : r.createProcess a = .ok res) :
    (res.Atomic r ∧ res.registry.WithinLimits) ↔ r.CreationFits (.process a) := by
  obtain ⟨hrefused, hcheck⟩ | ⟨hcheck, hends⟩ := createProcess_cases h
  · exact iff_of_true (proper_of_refused hl hrefused) fun hc => absurd hc hcheck
  have hroom := (createProcess_eq_noError_iff.mp hcheck).2.1
  obtain ⟨htaken, hcode, hreg⟩ | ⟨hfree, -, rfl⟩ := hends
  · -- the process stays although the call fails
    refine iff_of_false ?_ fun hfits => (hfits hcheck).1 htaken
    rintro ⟨hatomic, -⟩
    exact not_atomic_of_processes hcode (by rw [hreg]; simp [withProcess]) hatomic
  · have hfits : r.CreationFits (.process a) ↔ r.Room .event ∧ r.Room .blackboard :=
      ⟨fun hf => (hf hcheck).2, fun hr _ => ⟨hfree, hr⟩⟩
    rw [hfits, ← withProcess_withinLimits_iff hl hroom]
    exact and_iff_right (atomic_of_noError rfl)

theorem withHealthManager_withinLimits_iff {r : Registry} (hl : r.WithinLimits)
    (hroom : r.processes.length < maxNumberOfProcesses)
    (hbuffer : r.buffers.length < systemLimit .buffer) (name : String) :
    (r.withHealthManager name).WithinLimits ↔ r.Room .event ∧ r.Room .blackboard := by
  rw [← withProcess_withinLimits_iff hl hroom (responseName r.processes.length) name
    maxProcessResponseMessageSize (some r.blackboards.length), withinLimits_iff, withinLimits_iff]
  simp only [systemLimit] at hbuffer
  simp only [withHealthManager, withManagerProcess, markHealthManager, List.length_modify,
    List.length_append, List.length_singleton]
  have hbuffers : ((r.withBlackboard (responseName r.processes.length)
      maxProcessResponseMessageSize).withProcess name
        (some r.blackboards.length)).buffers.length = r.buffers.length := rfl
  omega

theorem createHealthManagerProcess_proper_iff {r : Registry} (hl : r.WithinLimits)
    {entryPointNull : Bool} {name : String} {res : Result}
    (h : r.createHealthManagerProcess entryPointNull name = .ok res) :
    (res.Atomic r ∧ res.registry.WithinLimits) ↔
      r.CreationFits (.healthManager entryPointNull name) := by
  obtain ⟨hrefused, hcheck⟩ | ⟨haccepts, hends⟩ := createHealthManagerProcess_cases h
  · exact iff_of_true (proper_of_refused hl hrefused) fun hc => absurd hc hcheck
  have hroom := (createProcess_eq_noError_iff.mp haccepts.2).2.1
  have hbuffers := (r.room_iff).2.2.2.2
  obtain ⟨htaken, hcode, hreg⟩ | ⟨hfree, -, ⟨hwhy, hcode, hreg⟩ | ⟨hbuffer, hbname, rfl⟩⟩ := hends
  · refine iff_of_false ?_ fun hfits => (hfits haccepts).1 htaken
    rintro ⟨hatomic, -⟩
    exact not_atomic_of_processes hcode (by rw [hreg]; simp [withProcess]) hatomic
  · -- without its buffer the health manager's process and blackboard stay
    refine iff_of_false ?_ fun hfits => ?_
    · rintro ⟨hatomic, -⟩
      refine not_atomic_of_processes hcode ?_ hatomic
      rw [hreg]
      simp [withManagerProcess, markHealthManager, withProcess, withBlackboard, withEvent]
    · obtain ⟨-, -, -, hfull, hbname⟩ := hfits haccepts
      obtain hfull' | htaken := hwhy
      · exact absurd (hbuffers.mp hfull) (Nat.not_lt.mpr hfull')
      · exact hbname htaken
  · have hfits : r.CreationFits (.healthManager entryPointNull name) ↔
        r.Room .event ∧ r.Room .blackboard := by
      constructor
      · intro hf
        obtain ⟨-, hevent, hboard, -⟩ := hf haccepts
        exact ⟨hevent, hboard⟩
      · rintro ⟨hevent, hboard⟩ -
        exact ⟨hfree, hevent, hboard, hbuffers.mpr hbuffer, hbname⟩
    rw [hfits, ← withHealthManager_withinLimits_iff hl hroom hbuffer name]
    exact and_iff_right (atomic_of_noError rfl)

/-- The kinds that nothing else is created with and whose limit nobody checks: an
    accepted creation stays within the limits just when there is room. -/
theorem proper_iff_room {r r' : Registry} {res : Result} {k : Kind} {name : String}
    {id : Option Nat} (hl : r.WithinLimits)
    (hcases : res.Refused r ∧ (r.Closed ∨ name ∈ r.names k) ∨
      ¬ r.Closed ∧ name ∉ r.names k ∧ res = ⟨r', .noError, id⟩)
    (hroom : r'.WithinLimits ↔ r.Room k) :
    (res.Atomic r ∧ res.registry.WithinLimits) ↔ (¬ r.Closed → name ∉ r.names k → r.Room k) := by
  obtain ⟨hrefused, hwhy⟩ | ⟨hopen, hname, rfl⟩ := hcases
  · exact iff_of_true (proper_of_refused hl hrefused) fun ho hn => absurd hwhy (not_or.mpr ⟨ho, hn⟩)
  · have hfits : (¬ r.Closed → name ∉ r.names k → r.Room k) ↔ r.Room k :=
      ⟨fun hf => hf hopen hname, fun h _ _ => h⟩
    rw [hfits]
    exact (and_iff_right (atomic_of_noError rfl)).trans hroom

theorem createEvent_proper_iff {r : Registry} (hl : r.WithinLimits) (name : String) :
    ((r.createEvent name).Atomic r ∧ (r.createEvent name).registry.WithinLimits) ↔
      r.CreationFits (.event name) := by
  refine proper_iff_room hl (r.createEvent_cases name) ?_
  rw [(r.room_iff).1]
  rw [withinLimits_iff] at hl ⊢
  simp only [withEvent, List.length_append, List.length_singleton]
  omega

theorem createSemaphore_proper_iff {r : Registry} (hl : r.WithinLimits) (name : String)
    (currentValue maximumValue : Int) :
    ((r.createSemaphore name currentValue maximumValue).Atomic r ∧
        (r.createSemaphore name currentValue maximumValue).registry.WithinLimits) ↔
      r.CreationFits (.semaphore name currentValue maximumValue) := by
  refine proper_iff_room hl (r.createSemaphore_cases name currentValue maximumValue) ?_
  rw [(r.room_iff).2.2.1]
  rw [withinLimits_iff] at hl ⊢
  simp only [List.length_append, List.length_singleton]
  omega

theorem createRwSemaphore_proper_iff {r : Registry} (hl : r.WithinLimits) (name : String)
    (maximumReaders : Int) :
    ((r.createRwSemaphore name maximumReaders).Atomic r ∧
        (r.createRwSemaphore name maximumReaders).registry.WithinLimits) ↔
      r.CreationFits (.rwSemaphore name maximumReaders) := by
  refine proper_iff_room hl (r.createRwSemaphore_cases name maximumReaders) ?_
  rw [(r.room_iff).2.2.2.1]
  rw [withinLimits_iff] at hl ⊢
  simp only [List.length_append, List.length_singleton]
  omega

theorem createBuffer_proper {r : Registry} (hl : r.WithinLimits) (name : String) (size nb : Int)
    (discipline : QueuingDiscipline) :
    (r.createBuffer name size nb discipline).Atomic r ∧
      (r.createBuffer name size nb discipline).registry.WithinLimits := by
  obtain ⟨hrefused, -⟩ | ⟨hroom, -, hok⟩ := r.createBuffer_cases name size nb discipline
  · exact proper_of_refused hl hrefused
  · rw [hok]
    refine ⟨atomic_of_noError rfl, ?_⟩
    rw [withinLimits_iff] at hl ⊢
    simp only [systemLimit] at hroom
    simp only [List.length_append, List.length_singleton]
    omega

theorem createSamplingPort_proper {r : Registry} (hl : r.WithinLimits) (name : String)
    (size refresh : Int) (opened : ReturnCode) :
    (r.createSamplingPort name size refresh opened).Atomic r ∧
      (r.createSamplingPort name size refresh opened).registry.WithinLimits := by
  obtain ⟨-, hsame⟩ | ⟨hroom, -, hok⟩ := r.createSamplingPort_cases name size refresh opened
  · exact ⟨fun _ => hsame, by rw [hsame]; exact hl⟩
  · rw [hok]
    refine ⟨atomic_of_noError rfl, ?_⟩
    rw [withinLimits_iff] at hl ⊢
    simp only [systemLimit] at hroom
    simp only [List.length_append, List.length_singleton]
    omega

theorem createQueuingPort_proper {r : Registry} (hl : r.WithinLimits) (name : String)
    (size nb : Int) (discipline : QueuingDiscipline) (opened : ReturnCode) :
    (r.createQueuingPort name size nb discipline opened).Atomic r ∧
      (r.createQueuingPort name size nb discipline opened).registry.WithinLimits := by
  obtain ⟨-, hsame⟩ | ⟨hroom, -, hok⟩ := r.createQueuingPort_cases name size nb discipline opened
  · exact ⟨fun _ => hsame, by rw [hsame]; exact hl⟩
  · rw [hok]
    refine ⟨atomic_of_noError rfl, ?_⟩
    rw [withinLimits_iff] at hl ⊢
    simp only [systemLimit] at hroom
    simp only [List.length_append, List.length_singleton]
    omega

theorem create_proper_iff {r : Registry} (hl : r.WithinLimits) {creation : Creation} {res : Result}
    (h : r.create creation = .ok res) :
    (res.Atomic r ∧ res.registry.WithinLimits) ↔ r.CreationFits creation := by
  cases creation with
  | process a => exact createProcess_proper_iff hl h
  | healthManager entryPointNull name => exact createHealthManagerProcess_proper_iff hl h
  | event name => exact Except.ok.inj h ▸ createEvent_proper_iff hl name
  | semaphore name currentValue maximumValue =>
    exact Except.ok.inj h ▸ createSemaphore_proper_iff hl name currentValue maximumValue
  | rwSemaphore name maximumReaders =>
    exact Except.ok.inj h ▸ createRwSemaphore_proper_iff hl name maximumReaders
  | buffer name size nb discipline =>
    exact iff_of_true (Except.ok.inj h ▸ createBuffer_proper hl name size nb discipline) trivial
  | blackboard name size => exact createBlackboard_proper_iff hl h
  | samplingPort name size refresh opened =>
    exact iff_of_true (Except.ok.inj h ▸ createSamplingPort_proper hl name size refresh opened)
      trivial
  | queuingPort name size nb discipline opened =>
    exact iff_of_true
      (Except.ok.inj h ▸ createQueuingPort_proper hl name size nb discipline opened) trivial

theorem withLink_withinLimits_iff (r : Registry) (i : Nat) (id : Int) (hm : HmDescriptor)
    (board : Nat) : (r.withLink i id hm board).WithinLimits ↔ r.WithinLimits := by
  rw [withinLimits_iff, withinLimits_iff]
  simp [withLink]

theorem register_proper_iff {r : Registry} (hl : r.WithinLimits) {processId : Nat}
    {hmDescriptorId : Int} {res : Result}
    (h : r.registerProcessWithHealthManager processId hmDescriptorId = .ok res) :
    (res.Atomic r ∧ res.registry.WithinLimits) ↔ r.Fits (.register processId hmDescriptorId) := by
  obtain ⟨other, hother, hrefused, hwhy⟩ | ⟨hfault, -⟩ | ⟨haccepts, -, hlink⟩ :=
    r.register_cases processId hmDescriptorId
  · obtain rfl : other = res := Except.ok.inj (hother.symm.trans h)
    exact iff_of_true (proper_of_refused hl hrefused) fun ha => absurd ha hwhy
  · cases hfault.symm.trans h
  · rw [hlink] at h
    obtain ⟨linked, hlinked, rfl⟩ := ok_of_map h
    obtain ⟨-, -, hm, -, -, -, rfl⟩ := link_cases hlinked
    have hfits : r.Fits (.register processId hmDescriptorId) ↔ r.Room .event ∧ r.Room .blackboard :=
      ⟨fun hf => hf haccepts, fun hroom _ => hroom⟩
    rw [hfits, withLink_withinLimits_iff, withBlackboard_withinLimits_iff hl]
    exact and_iff_right (atomic_of_noError rfl)

theorem setPartitionMode_withinLimits {r r' : Registry} {mode : OperatingMode}
    (hl : r.WithinLimits) (h : r.setPartitionMode mode = some r') : r'.WithinLimits := by
  rw [setPartitionMode_some h]
  exact (withinLimits_iff _).mpr ((withinLimits_iff r).mp hl)

/-! ## Runs -/

theorem step_proper_iff {r r' : Registry} {op : Op} (hl : r.WithinLimits)
    (h : r.step op = some r') : (r.Proper op ↔ r.Fits op) ∧ (r.Fits op → r'.WithinLimits) := by
  cases op with
  | create creation =>
    obtain ⟨res, hres, rfl⟩ := step_create_some h
    have hiff := create_proper_iff hl hres
    refine ⟨⟨fun hp => hiff.mp (hp res hres), fun hf other hother => ?_⟩, fun hf => (hiff.mpr hf).2⟩
    obtain rfl : res = other := Except.ok.inj (hres.symm.trans hother)
    exact hiff.mpr hf
  | register processId hmDescriptorId =>
    obtain ⟨res, hres, rfl⟩ := step_register_some h
    have hiff := register_proper_iff hl hres
    refine ⟨⟨fun hp => hiff.mp (hp res hres), fun hf other hother => ?_⟩, fun hf => (hiff.mpr hf).2⟩
    obtain rfl : res = other := Except.ok.inj (hres.symm.trans hother)
    exact hiff.mpr hf
  | setMode mode =>
    exact ⟨Iff.rfl, fun _ => setPartitionMode_withinLimits hl h⟩
  | sort info result =>
    refine ⟨Iff.rfl, fun _ => ?_⟩
    simp only [step, Option.ite_none_right_eq_some, Option.some.injEq] at h
    obtain ⟨-, rfl⟩ := h
    exact (withinLimits_iff _).mpr ((withinLimits_iff r).mp hl)

theorem withinLimits_start : start.WithinLimits := (withinLimits_iff start).mpr (by decide)

/-- In every run, the creations that fail leave all vectors alone and the vectors
    stay within their limits just when the calls meet `Fits`. -/
theorem creation_atomic_iff {ops : List Op} {r : Registry} (h : run step start ops = some r) :
    Meets step Proper start ops ↔ Meets step Fits start ops :=
  meets_iff_of_kept (fun _ _ _ hl hstep => step_proper_iff hl hstep) withinLimits_start h

/-- A health manager, a process and the registration of it. -/
def registeredProcess : List Op :=
  [.create (.healthManager false "HM"), .create (.process ⟨"P", false, 90, 1000, 1000000, .hard⟩),
    .register 1 0]

theorem creation_atomic_iff_registeredProcess : Meets step Proper start registeredProcess := by
  obtain ⟨r, hr⟩ := Option.isSome_iff_exists.mp
    (show (run step start registeredProcess).isSome = true by decide)
  exact (creation_atomic_iff hr).mpr (by decide)

/-- A health manager whose buffer has the name of one that is there: the call fails
    with NO_ACTION, and a process, a blackboard and an event have come to stay. -/
def takenBufferName : List Op := [.create (.buffer "HM_HMB" 8 1 .fifo)]

theorem healthManager_not_atomic :
    ((run step start takenBufferName).bind fun r =>
      ((r.createHealthManagerProcess false "HM").toOption.map fun res =>
        (res.code, r.processes.length, res.registry.processes.length,
          res.registry.blackboards.length, res.registry.healthManagers.length))) =
      some (.noAction, 0, 1, 1, 0) := by decide

end Arinc.Registry
