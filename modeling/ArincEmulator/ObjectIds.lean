import ArincEmulator.Registry

/- Names and ids of the objects of a partition over sequences of creations,
   registrations, changes of mode and sorts, whether the calls succeed or not.

   What is proved: the names of a kind are unique, an object's id is its place and
   stays, and the services that look up a name find just the objects there are.
   The scheduling vector holds each process once as long as all processes are dormant
   when it is sorted, or, with a sort that compares none with itself, no two that are
   not dormant share a critical time (`registry_sound`): the comparison answers `true`
   on one such process and itself and both ways on such two, which no sort promises
   to survive. -/
namespace Arinc.Registry
open Runs NameTable Sorting

/-! ## Names, ids and the scheduling vector -/

/-- The objects that store their own id store their place. -/
structure IdsAgree (r : Registry) : Prop where
  process : r.processes.map (·.processId) = List.range r.processes.length
  buffer : r.buffers.map (·.bufferId) = List.range r.buffers.length
  blackboard : r.blackboards.map (·.blackboardId) = List.range r.blackboards.length

/-- The scheduling vector points to each descriptor once. -/
def Scheduled (r : Registry) : Prop := r.schedulingSorted.Perm (List.range r.processes.length)

instance (r : Registry) : Decidable r.Scheduled :=
  inferInstanceAs (Decidable (List.Perm _ _))

/-- The names are unique, the ids are the places, and the services that look up a
    name answer NO_ERROR just for the names of the objects, with their ids. -/
structure Sound (r : Registry) : Prop where
  unique : ∀ k, (r.names k).Nodup
  ids : r.IdsAgree
  found_iff : ∀ k name, (r.getId k name).1 = .noError ↔ name ∈ r.names k
  getId_iff : ∀ k name id, r.getId k name = (.noError, some id) ↔ (r.names k)[id]? = some name

/-- No two processes of the vector that are not dormant share a critical time. -/
def NoTies (info : Nat → SchedulingInfo) (l : List Nat) : Prop :=
  ∀ a ∈ l, ∀ b ∈ l, a ≠ b → (info a).dormant = false → (info b).dormant = false →
    (info a).absoluteCriticalTime ≠ (info b).absoluteCriticalTime

instance (info : Nat → SchedulingInfo) (l : List Nat) : Decidable (NoTies info l) :=
  inferInstanceAs (Decidable (∀ a ∈ l, ∀ b ∈ l, _ → _ → _ → _))

/-- All processes of the vector are dormant. -/
def AllDormant (info : Nat → SchedulingInfo) (l : List Nat) : Prop :=
  ∀ i ∈ l, (info i).dormant = true

instance (info : Nat → SchedulingInfo) (l : List Nat) : Decidable (AllDormant info l) :=
  inferInstanceAs (Decidable (∀ i ∈ l, _))

/-- The condition on a sort: the processes are dormant, or it is one that compares no
    element with itself and there are no ties. -/
def SortsSafely (r : Registry) : Op → Prop
  | .sort info result =>
    AllDormant info r.schedulingSorted ∨
      SortsDistinct (processDescriptorComp info) r.schedulingSorted result ∧
        NoTies info r.schedulingSorted
  | _ => True

instance (r : Registry) : (op : Op) → Decidable (r.SortsSafely op)
  | .sort _ _ => inferInstanceAs (Decidable (_ ∨ _ ∧ _))
  | .create _ | .register _ _ | .setMode _ => inferInstanceAs (Decidable True)

/-! ## The comparison -/

/-- Seconds first, then nanoseconds. -/
def lexTime (t : Timespec) : Int ×ₗ Int := toLex (t.tvSec, t.tvNsec)

/-- Dormant processes come last, the others by their critical time. -/
def SchedulingInfo.key (x : SchedulingInfo) : WithTop (Int ×ₗ Int) :=
  if x.dormant then ⊤ else (lexTime x.absoluteCriticalTime : WithTop (Int ×ₗ Int))

theorem lexTime_injective : Function.Injective lexTime := by
  intro s t h
  obtain ⟨hsec, hnsec⟩ := Prod.mk.inj (toLex.injective h)
  cases s
  cases t
  exact congrArg₂ Timespec.mk hsec hnsec

theorem compareTime_iff_lexTime (s t : Timespec) :
    compareTime s t = true ↔ lexTime s ≤ lexTime t := by
  unfold lexTime
  rw [Prod.Lex.toLex_le_toLex]
  unfold compareTime
  split
  · rename_i hlt
    simp [hlt]
  · rename_i hge
    split
    · rename_i hgt
      have hne : s.tvSec ≠ t.tvSec := by omega
      simp [hge, hne]
    · rename_i hle
      have heq : s.tvSec = t.tvSec := by omega
      simp [heq]

/-- The comparison meets the laws between different processes just when there are no
    ties. -/
theorem strictWeakBetween_iff (info : Nat → SchedulingInfo) (l : List Nat) :
    StrictWeakBetween (processDescriptorComp info) l ↔ NoTies info l := by
  constructor
  · intro h a ha b hb hab hlive_a hlive_b heq
    have hcomp (x y : Nat) (hx : (info x).dormant = false) (hy : (info y).dormant = false)
        (hxy : (info x).absoluteCriticalTime = (info y).absoluteCriticalTime) :
        processDescriptorComp info x y = true := by
      simp [processDescriptorComp, hx, hy, hxy, compareTime]
    have hback := h.1 a ha b hb hab (hcomp a b hlive_a hlive_b heq)
    rw [hcomp b a hlive_b hlive_a heq.symm] at hback
    exact absurd hback (by decide)
  · intro h
    refine strictWeakBetween_of_key (fun i => (info i).key) ?_
    intro a ha b hb hab
    unfold processDescriptorComp SchedulingInfo.key
    cases hda : (info a).dormant with
    | true => simp
    | false =>
      cases hdb : (info b).dormant with
      | true => simp
      | false =>
        have hne : lexTime (info a).absoluteCriticalTime ≠ lexTime (info b).absoluteCriticalTime :=
          fun heq => h a ha b hb hab hda hdb (lexTime_injective heq)
        simp [compareTime_iff_lexTime, lt_iff_le_and_ne, hne]

/-- A process that is not dormant comes before itself. -/
theorem strictWeakOn_iff (info : Nat → SchedulingInfo) (l : List Nat) :
    StrictWeakOn (processDescriptorComp info) l ↔ AllDormant info l := by
  constructor
  · intro h i hi
    have hself := h.1 i hi
    by_contra hlive
    simp [processDescriptorComp, hlive, compareTime] at hself
  · intro h
    refine strictWeakOn_of_false fun i hi j hj => ?_
    simp [processDescriptorComp, h i hi, h j hj]

/-! ## The creations of one object -/

/-- The kind and the name of what a creation creates; a health manager's id is no
    id of a named object. -/
def Creation.target : Creation → Option (Kind × String)
  | .process attributes => some (.process, attributes.name)
  | .healthManager _ _ => none
  | .event name => some (.event, name)
  | .semaphore name _ _ => some (.semaphore, name)
  | .rwSemaphore name _ => some (.rwSemaphore, name)
  | .buffer name _ _ _ => some (.buffer, name)
  | .blackboard name _ => some (.blackboard, name)
  | .samplingPort name _ _ _ => some (.samplingPort, name)
  | .queuingPort name _ _ _ _ => some (.queuingPort, name)

/-- What an accepted creation leaves that creates one object and nothing else: the
    object, behind the others of its kind. Only buffers store their place. -/
structure OneMore (r : Registry) (res : Result) (k : Kind) (name : String) : Prop where
  id : res.id = some (r.names k).length
  fresh : name ∉ r.names k
  names : res.registry.names k = r.names k ++ [name]
  other : ∀ j, j ≠ k → res.registry.names j = r.names j
  processes : res.registry.processes = r.processes
  healthManagers : res.registry.healthManagers = r.healthManagers
  blackboards : res.registry.blackboards = r.blackboards
  schedulingSorted : res.registry.schedulingSorted = r.schedulingSorted
  buffers : res.registry.buffers = r.buffers ∨
    ∃ size nb, res.registry.buffers = r.buffers ++ [⟨name, r.buffers.length, size, nb⟩]

/-- The creations of all kinds but processes, with their blackboards, and blackboards,
    with their events. -/
theorem create_oneMore {r : Registry} {creation : Creation} {res : Result} {k : Kind}
    {name : String} (htarget : creation.target = some (k, name)) (hprocess : k ≠ .process)
    (hboard : k ≠ .blackboard) (h : r.create creation = .ok res) :
    res.code ≠ .noError ∧ res.registry = r ∨ r.OneMore res k name := by
  -- A creation in a table of its own is refused or appends one name; only the table and its
  -- bound differ from one kind to the next.
  cases creation with
  | healthManager entryPointNull hmName => cases htarget
  | process a =>
    obtain ⟨rfl, -⟩ := Prod.mk.inj (Option.some.inj htarget)
    exact absurd rfl hprocess
  | blackboard blackboardName size =>
    obtain ⟨rfl, -⟩ := Prod.mk.inj (Option.some.inj htarget)
    exact absurd rfl hboard
  | event eventName =>
    obtain ⟨rfl, rfl⟩ := Prod.mk.inj (Option.some.inj htarget)
    obtain rfl := Except.ok.inj h
    obtain ⟨hrefused, -⟩ | ⟨-, hname, hok⟩ := r.createEvent_cases eventName
    · exact Or.inl ⟨hrefused.1, congrArg Result.registry hrefused.2⟩
    · rw [hok]
      refine Or.inr ⟨?_, hname, List.map_append, ?_, rfl, rfl, rfl, rfl, Or.inl rfl⟩
      · exact congrArg some (List.length_map _).symm
      · intro j hj
        cases j with
        | event => exact absurd rfl hj
        | _ => rfl
  | semaphore semaphoreName currentValue maximumValue =>
    obtain ⟨rfl, rfl⟩ := Prod.mk.inj (Option.some.inj htarget)
    obtain rfl := Except.ok.inj h
    obtain ⟨hrefused, -⟩ | ⟨-, hname, hok⟩ :=
      r.createSemaphore_cases semaphoreName currentValue maximumValue
    · exact Or.inl ⟨hrefused.1, congrArg Result.registry hrefused.2⟩
    · rw [hok]
      refine Or.inr ⟨?_, hname, List.map_append, ?_, rfl, rfl, rfl, rfl, Or.inl rfl⟩
      · exact congrArg some (List.length_map _).symm
      · intro j hj
        cases j with
        | semaphore => exact absurd rfl hj
        | _ => rfl
  | rwSemaphore semaphoreName maximumReaders =>
    obtain ⟨rfl, rfl⟩ := Prod.mk.inj (Option.some.inj htarget)
    obtain rfl := Except.ok.inj h
    obtain ⟨hrefused, -⟩ | ⟨-, hname, hok⟩ := r.createRwSemaphore_cases semaphoreName maximumReaders
    · exact Or.inl ⟨hrefused.1, congrArg Result.registry hrefused.2⟩
    · rw [hok]
      refine Or.inr ⟨?_, hname, List.map_append, ?_, rfl, rfl, rfl, rfl, Or.inl rfl⟩
      · exact congrArg some (List.length_map _).symm
      · intro j hj
        cases j with
        | rwSemaphore => exact absurd rfl hj
        | _ => rfl
  | buffer bufferName size nb discipline =>
    obtain ⟨rfl, rfl⟩ := Prod.mk.inj (Option.some.inj htarget)
    obtain rfl := Except.ok.inj h
    obtain ⟨hrefused, -⟩ | ⟨-, hname, hok⟩ := r.createBuffer_cases bufferName size nb discipline
    · exact Or.inl ⟨hrefused.1, congrArg Result.registry hrefused.2⟩
    · rw [hok]
      refine Or.inr ⟨?_, hname, List.map_append, ?_, rfl, rfl, rfl, rfl, Or.inr ⟨size, nb, rfl⟩⟩
      · exact congrArg some (List.length_map _).symm
      · intro j hj
        cases j with
        | buffer => exact absurd rfl hj
        | _ => rfl
  | samplingPort portName size refresh opened =>
    obtain ⟨rfl, rfl⟩ := Prod.mk.inj (Option.some.inj htarget)
    obtain rfl := Except.ok.inj h
    obtain hrefused | ⟨-, hname, hok⟩ := r.createSamplingPort_cases portName size refresh opened
    · exact Or.inl hrefused
    · rw [hok]
      refine Or.inr ⟨?_, hname, List.map_append, ?_, rfl, rfl, rfl, rfl, Or.inl rfl⟩
      · exact congrArg some (List.length_map _).symm
      · intro j hj
        cases j with
        | samplingPort => exact absurd rfl hj
        | _ => rfl
  | queuingPort portName size nb discipline opened =>
    obtain ⟨rfl, rfl⟩ := Prod.mk.inj (Option.some.inj htarget)
    obtain rfl := Except.ok.inj h
    obtain hrefused | ⟨-, hname, hok⟩ :=
      r.createQueuingPort_cases portName size nb discipline opened
    · exact Or.inl hrefused
    · rw [hok]
      refine Or.inr ⟨?_, hname, List.map_append, ?_, rfl, rfl, rfl, rfl, Or.inl rfl⟩
      · exact congrArg some (List.length_map _).symm
      · intro j hj
        cases j with
        | queuingPort => exact absurd rfl hj
        | _ => rfl

/-! ## What every call keeps -/

/-- The vectors have grown at their ends, and what was in order still is. -/
structure Grown (r r' : Registry) : Prop where
  names : ∀ k, r.names k <+: r'.names k
  unique : (∀ k, (r.names k).Nodup) → ∀ k, (r'.names k).Nodup
  ids : r.IdsAgree → r'.IdsAgree
  scheduled : r.Scheduled → r'.Scheduled

theorem Grown.refl (r : Registry) : Grown r r :=
  ⟨fun _ => List.prefix_rfl, fun h => h, fun h => h, fun h => h⟩

theorem Grown.trans {r s t : Registry} (h : Grown r s) (h' : Grown s t) : Grown r t where
  names k := (h.names k).trans (h'.names k)
  unique hu := h'.unique (h.unique hu)
  ids hi := h'.ids (h.ids hi)
  scheduled hs := h'.scheduled (h.scheduled hs)

theorem Grown.of_push {r r' : Registry} {k : Kind} {name : String} (hnew : name ∉ r.names k)
    (hk : r'.names k = r.names k ++ [name]) (hother : ∀ j, j ≠ k → r'.names j = r.names j)
    (hids : r.IdsAgree → r'.IdsAgree) (hscheduled : r.Scheduled → r'.Scheduled) : Grown r r' where
  names j := by
    by_cases hj : j = k
    · rw [hj, hk]
      exact List.prefix_append _ _
    · exact hother j hj ▸ List.prefix_rfl
  unique hu j := by
    by_cases hj : j = k
    · rw [hj, hk, ← List.concat_eq_append]
      exact List.Nodup.concat hnew (hu k)
    · rw [hother j hj]
      exact hu j
  ids := hids
  scheduled := hscheduled

theorem Grown.of_same {r r' : Registry} (hnames : ∀ k, r'.names k = r.names k)
    (hids : r.IdsAgree → r'.IdsAgree) (hscheduled : r.Scheduled → r'.Scheduled) : Grown r r' where
  names k := hnames k ▸ List.prefix_rfl
  unique hu k := by
    rw [hnames k]
    exact hu k
  ids := hids
  scheduled := hscheduled

theorem grown_of_refused {r : Registry} {res : Result} (h : res.Refused r) :
    Grown r res.registry := by
  rw [h.2]
  exact Grown.refl r

theorem grown_withEvent {r : Registry} {name : String} (h : name ∉ r.names .event) :
    Grown r (r.withEvent name) := by
  refine Grown.of_push h ?_ ?_ (fun hi => ⟨hi.process, hi.buffer, hi.blackboard⟩) (fun hs => hs)
  · exact List.map_append
  · intro j hj
    cases j with
    | event => exact absurd rfl hj
    | _ => rfl

theorem grown_withBlackboard {r : Registry} {name : String} (size : Int)
    (hboard : name ∉ r.names .blackboard) (hevent : name ∉ r.names .event) :
    Grown r (r.withBlackboard name size) := by
  have hboard' : name ∉ (r.withEvent name).names .blackboard := hboard
  refine (grown_withEvent hevent).trans (Grown.of_push hboard' ?_ ?_ ?_ (fun hs => hs))
  · exact List.map_append
  · intro j hj
    cases j with
    | blackboard => exact absurd rfl hj
    | _ => rfl
  · intro hi
    exact ⟨hi.process, hi.buffer, places_push hi.blackboard rfl⟩

theorem grown_withProcess {r : Registry} {name : String} (board : Option Nat)
    (h : name ∉ r.names .process) : Grown r (r.withProcess name board) := by
  refine Grown.of_push h ?_ ?_ ?_ ?_
  · exact List.map_append
  · intro j hj
    cases j with
    | process => exact absurd rfl hj
    | _ => rfl
  · intro hi
    exact ⟨places_push hi.process rfl, hi.buffer, hi.blackboard⟩
  · intro hs
    have hpush : (r.schedulingSorted ++ [r.processes.length]).Perm
        (List.range r.processes.length ++ [r.processes.length]) := hs.append_right _
    rw [← List.range_succ] at hpush
    simpa [Scheduled, withProcess] using hpush

/-- A change of one descriptor that leaves its name and its id alone. -/
theorem grown_of_modify {r r' : Registry} {i : Nat} {g : ProcessDescriptor → ProcessDescriptor}
    (hprocesses : r'.processes = r.processes.modify i g)
    (hname : ∀ d, (g d).name = d.name) (hid : ∀ d, (g d).processId = d.processId)
    (hother : ∀ k, k ≠ .process → r'.names k = r.names k) (hbuffers : r'.buffers = r.buffers)
    (hboards : r'.blackboards = r.blackboards)
    (hsorted : r'.schedulingSorted = r.schedulingSorted) : Grown r r' := by
  refine Grown.of_same ?_ ?_ ?_
  · intro k
    by_cases hk : k = .process
    · rw [hk, Registry.names, Registry.names, hprocesses]
      exact map_modify hname r.processes i
    · exact hother k hk
  · intro hi
    refine ⟨?_, by rw [hbuffers]; exact hi.buffer, by rw [hboards]; exact hi.blackboard⟩
    rw [hprocesses, map_modify hid, List.length_modify]
    exact hi.process
  · intro hs
    rw [Scheduled, hsorted, hprocesses, List.length_modify]
    exact hs

theorem grown_markHealthManager (r : Registry) (i : Nat) : Grown r (r.markHealthManager i) := by
  refine grown_of_modify rfl (fun _ => rfl) (fun _ => rfl) ?_ rfl rfl rfl
  intro k hk
  cases k with
  | process => exact absurd rfl hk
  | _ => rfl

theorem grown_withLink (r : Registry) (i : Nat) (id : Int) (hm : HmDescriptor) (board : Nat) :
    Grown r (r.withLink i id hm board) := by
  refine grown_of_modify rfl (fun _ => rfl) (fun _ => rfl) ?_ rfl rfl rfl
  intro k hk
  cases k with
  | process => exact absurd rfl hk
  | _ => rfl

theorem grown_createBlackboard {r : Registry} {name : String} {size : Int} {res : Result}
    (h : r.createBlackboard name size = .ok res) : Grown r res.registry := by
  obtain ⟨hrefused, -⟩ | ⟨-, -, hname, hevent, rfl⟩ := createBlackboard_cases h
  · exact grown_of_refused hrefused
  · exact grown_withBlackboard size hname hevent

theorem grown_withBlackboard_withProcess {r : Registry} {board name : String} (size : Int)
    (id : Option Nat) (hboard : board ∉ r.names .blackboard) (hevent : board ∉ r.names .event)
    (hname : name ∉ r.names .process) :
    Grown r ((r.withBlackboard board size).withProcess name id) :=
  (grown_withBlackboard size hboard hevent).trans (grown_withProcess id hname)

theorem grown_createProcess {r : Registry} {a : Attributes} {res : Result}
    (h : r.createProcess a = .ok res) : Grown r res.registry := by
  obtain ⟨hrefused, -⟩ | ⟨hcheck, hboard⟩ := createProcess_cases h
  · exact grown_of_refused hrefused
  obtain ⟨-, -, -, hname⟩ := createProcess_eq_noError_iff.mp hcheck
  obtain ⟨-, -, hreg⟩ | ⟨hfree, hevent, rfl⟩ := hboard
  · rw [hreg]
    exact grown_withProcess none hname
  · exact grown_withBlackboard_withProcess _ _ hfree hevent hname

theorem grown_pushBuffer {r : Registry} {name : String} {size nb : Int}
    (h : name ∉ r.names .buffer) :
    Grown r { r with buffers := r.buffers ++ [⟨name, r.buffers.length, size, nb⟩] } := by
  refine Grown.of_push h ?_ ?_ ?_ (fun hs => hs)
  · exact List.map_append
  · intro j hj
    cases j with
    | buffer => exact absurd rfl hj
    | _ => rfl
  · intro hi
    exact ⟨hi.process, places_push hi.buffer rfl, hi.blackboard⟩

theorem grown_withManagerProcess {r : Registry} {name : String}
    (hboard : responseName r.processes.length ∉ r.names .blackboard)
    (hevent : responseName r.processes.length ∉ r.names .event)
    (hname : name ∉ r.names .process) : Grown r (r.withManagerProcess name) :=
  (grown_withBlackboard_withProcess _ _ hboard hevent hname).trans (grown_markHealthManager _ _)

theorem grown_healthManagers (r : Registry) (hms : List HmDescriptor) :
    Grown r { r with healthManagers := hms } := by
  refine Grown.of_same ?_ (fun hi => ⟨hi.process, hi.buffer, hi.blackboard⟩) (fun hs => hs)
  intro k
  cases k <;> rfl

theorem grown_createHealthManagerProcess {r : Registry} {entryPointNull : Bool} {name : String}
    {res : Result} (h : r.createHealthManagerProcess entryPointNull name = .ok res) :
    Grown r res.registry := by
  obtain ⟨hrefused, -⟩ | ⟨⟨-, hcheck⟩, hends⟩ := createHealthManagerProcess_cases h
  · exact grown_of_refused hrefused
  obtain ⟨-, -, -, hname⟩ := createProcess_eq_noError_iff.mp hcheck
  obtain ⟨-, -, hreg⟩ | ⟨hfree, hevent, hends⟩ := hends
  · rw [hreg]
    exact grown_withProcess none hname
  have hprocess := grown_withManagerProcess hfree hevent hname
  obtain ⟨-, -, hreg⟩ | ⟨-, hbuffer, rfl⟩ := hends
  · rw [hreg]
    exact hprocess
  · exact (hprocess.trans (grown_pushBuffer hbuffer)).trans (grown_healthManagers _ _)

theorem OneMore.grown {r : Registry} {res : Result} {k : Kind} {name : String}
    (h : r.OneMore res k name) : Grown r res.registry := by
  refine Grown.of_push h.fresh h.names h.other ?_ ?_
  · intro hi
    refine ⟨by rw [h.processes]; exact hi.process, ?_, by rw [h.blackboards]; exact hi.blackboard⟩
    obtain hbuffers | ⟨size, nb, hbuffers⟩ := h.buffers
    · rw [hbuffers]
      exact hi.buffer
    · rw [hbuffers]
      exact places_push hi.buffer rfl
  · intro hs
    rw [Scheduled, h.schedulingSorted, h.processes]
    exact hs

theorem grown_create_oneMore {r : Registry} {creation : Creation} {res : Result} {k : Kind}
    {name : String} (htarget : creation.target = some (k, name)) (hprocess : k ≠ .process)
    (hboard : k ≠ .blackboard) (h : r.create creation = .ok res) : Grown r res.registry := by
  obtain ⟨-, hsame⟩ | hone := create_oneMore htarget hprocess hboard h
  · rw [hsame]
    exact Grown.refl r
  · exact hone.grown

/-- Every creation only adds to the ends, whatever code it returns. -/
theorem grown_create {r : Registry} {creation : Creation} {res : Result}
    (h : r.create creation = .ok res) : Grown r res.registry := by
  cases creation with
  | process attributes => exact grown_createProcess h
  | healthManager entryPointNull name => exact grown_createHealthManagerProcess h
  | blackboard name size => exact grown_createBlackboard h
  | event name => exact grown_create_oneMore rfl (by decide) (by decide) h
  | semaphore name currentValue maximumValue =>
    exact grown_create_oneMore rfl (by decide) (by decide) h
  | rwSemaphore name maximumReaders => exact grown_create_oneMore rfl (by decide) (by decide) h
  | buffer name size nb discipline => exact grown_create_oneMore rfl (by decide) (by decide) h
  | samplingPort name size refresh opened =>
    exact grown_create_oneMore rfl (by decide) (by decide) h
  | queuingPort name size nb discipline opened =>
    exact grown_create_oneMore rfl (by decide) (by decide) h

theorem grown_register {r : Registry} {processId : Nat} {hmDescriptorId : Int} {res : Result}
    (h : r.registerProcessWithHealthManager processId hmDescriptorId = .ok res) :
    Grown r res.registry := by
  obtain ⟨other, hother, hrefused, -⟩ | ⟨hfault, -⟩ | ⟨⟨-, -, -, hname⟩, hevent, hlink⟩ :=
    r.register_cases processId hmDescriptorId
  · obtain rfl : other = res := Except.ok.inj (hother.symm.trans h)
    exact grown_of_refused hrefused
  · cases hfault.symm.trans h
  · rw [hlink] at h
    obtain ⟨linked, hlinked, rfl⟩ := ok_of_map h
    obtain ⟨-, -, hm, -, -, -, rfl⟩ := link_cases hlinked
    exact (grown_withBlackboard _ hname hevent).trans (grown_withLink _ _ _ _ _)

/-! ## Runs -/

/-- What every step keeps but for the scheduling vector. -/
structure Ordered (r : Registry) : Prop where
  unique : ∀ k, (r.names k).Nodup
  ids : r.IdsAgree

theorem Grown.ordered {r r' : Registry} (h : Grown r r') (ho : r.Ordered) : r'.Ordered :=
  ⟨h.unique ho.unique, h.ids ho.ids⟩

theorem grown_step {r r' : Registry} {op : Op} (h : r.step op = some r') :
    Grown r r' ∨ ∃ info result, op = .sort info result ∧
      Sorts (processDescriptorComp info) r.schedulingSorted result ∧
      r' = { r with schedulingSorted := result } := by
  cases op with
  | create creation =>
    obtain ⟨res, hres, rfl⟩ := step_create_some h
    exact Or.inl (grown_create hres)
  | register processId hmDescriptorId =>
    obtain ⟨res, hres, rfl⟩ := step_register_some h
    exact Or.inl (grown_register hres)
  | setMode mode =>
    left
    rw [setPartitionMode_some h]
    refine Grown.of_same ?_ (fun hi => ⟨hi.process, hi.buffer, hi.blackboard⟩) (fun hs => hs)
    intro k
    cases k <;> rfl
  | sort info result =>
    right
    simp only [step, Option.ite_none_right_eq_some] at h
    exact ⟨info, result, rfl, h.1, (Option.some.inj h.2).symm⟩

theorem names_prefix_step {r r' : Registry} {op : Op} (h : r.step op = some r') (k : Kind) :
    r.names k <+: r'.names k := by
  obtain hgrown | ⟨-, -, -, -, rfl⟩ := grown_step h
  · exact hgrown.names k
  · cases k <;> exact List.prefix_rfl

theorem ordered_step {r r' : Registry} {op : Op} (ho : r.Ordered) (h : r.step op = some r') :
    r'.Ordered := by
  obtain hgrown | ⟨-, -, -, -, rfl⟩ := grown_step h
  · exact hgrown.ordered ho
  · refine ⟨?_, ho.ids.process, ho.ids.buffer, ho.ids.blackboard⟩
    intro k
    have hk := ho.unique k
    cases k <;> exact hk

theorem scheduled_step {r r' : Registry} {op : Op} (hs : r.Scheduled) (hsafe : r.SortsSafely op)
    (h : r.step op = some r') : r'.Scheduled := by
  obtain hgrown | ⟨info, result, rfl, hsorts, rfl⟩ := grown_step h
  · exact hgrown.scheduled hs
  · have hsorted : Sorted (processDescriptorComp info) r.schedulingSorted result := by
      obtain hdormant | ⟨hdistinct, hties⟩ := hsafe
      · exact hsorts ((strictWeakOn_iff info _).mpr hdormant)
      · exact hdistinct ((strictWeakBetween_iff info _).mpr hties)
    exact hsorted.1.trans hs

theorem ordered_start : start.Ordered :=
  ⟨fun k => by cases k <;> exact List.nodup_nil, ⟨rfl, rfl, rfl⟩⟩

theorem ordered_of_run {ops : List Op} {r : Registry} (h : run step start ops = some r) :
    r.Ordered :=
  run_invariant (fun _ _ _ ho hstep => ordered_step ho hstep) ordered_start h

theorem getId_eq_noError_iff {r : Registry} (ho : r.Ordered) (k : Kind) (name : String) (id : Nat) :
    r.getId k name = (.noError, some id) ↔ (r.names k)[id]? = some name := by
  rw [← find_eq_some_iff (ho.unique k), getId]
  cases find (r.names k) name with
  | none =>
    refine iff_of_false ?_ (by simp)
    intro h
    cases (Prod.mk.inj h).2
  | some j => simp

theorem Ordered.sound {r : Registry} (ho : r.Ordered) : r.Sound where
  unique := ho.unique
  ids := ho.ids
  found_iff k name := by
    rw [getId]
    cases hfind : find (r.names k) name with
    | none =>
      refine iff_of_false ?_ (find_eq_none_iff.mp hfind)
      cases k <;> decide
    | some id => exact iff_of_true rfl (List.mem_of_getElem? (getElem?_of_find hfind))
  getId_iff := getId_eq_noError_iff ho

theorem OneMore.at {r : Registry} {res : Result} {k : Kind} {name : String}
    (h : r.OneMore res k name) :
    ∃ id, res.id = some id ∧ (res.registry.names k)[id]? = some name := by
  refine ⟨_, h.id, ?_⟩
  rw [h.names, List.getElem?_concat_length]

theorem created_at {r : Registry} {creation : Creation} {res : Result} {k : Kind} {name : String}
    (h : r.create creation = .ok res) (hcode : res.code = .noError)
    (htarget : creation.target = some (k, name)) :
    ∃ id, res.id = some id ∧ (res.registry.names k)[id]? = some name := by
  by_cases hprocess : k = .process
  · subst hprocess
    cases creation with
    | process a =>
      obtain ⟨-, rfl⟩ := Prod.mk.inj (Option.some.inj htarget)
      obtain ⟨hrefused, -⟩ | ⟨-, ⟨-, hrefused, -⟩ | ⟨-, -, rfl⟩⟩ := createProcess_cases h
      · exact absurd hcode hrefused.1
      · exact absurd hcode hrefused
      · refine ⟨_, rfl, ?_⟩
        simp [names, withProcess, withBlackboard, withEvent, newDescriptor]
    | _ => simp [Creation.target] at htarget
  by_cases hboard : k = .blackboard
  · subst hboard
    cases creation with
    | blackboard blackboardName size =>
      obtain ⟨-, rfl⟩ := Prod.mk.inj (Option.some.inj htarget)
      obtain ⟨hrefused, -⟩ | ⟨-, -, -, -, rfl⟩ := createBlackboard_cases h
      · exact absurd hcode hrefused.1
      · refine ⟨_, rfl, ?_⟩
        simp [names, withBlackboard, withEvent]
    | _ => simp [Creation.target] at htarget
  obtain ⟨hrefused, -⟩ | hone := create_oneMore htarget hprocess hboard h
  · exact absurd hcode hrefused
  · exact hone.at

/-- In every run, whatever its calls return: names are unique per kind, ids are
    places, an accepted creation gives out the id its object is found by, what a
    search has found it finds for ever after, and the scheduling vector is a
    permutation of the processes as long as its sorts find all of them dormant or, if
    they compare none with itself, meet no ties. -/
theorem registry_sound {before after : List Op} {r r' : Registry}
    (hbefore : run step start before = some r) (hafter : run step r after = some r') :
    r.Sound ∧
      (∀ creation res k name, r.create creation = .ok res → res.code = .noError →
        creation.target = some (k, name) →
          ∃ id, res.id = some id ∧ res.registry.getId k name = (.noError, some id)) ∧
      (∀ k name id, r.getId k name = (.noError, some id) →
        r'.getId k name = (.noError, some id)) ∧
      (Meets step SortsSafely start before → r.Scheduled) := by
  have ho : r.Ordered := ordered_of_run hbefore
  refine ⟨ho.sound, ?_, ?_, ?_⟩
  · intro creation res k name hcreate hcode htarget
    obtain ⟨id, hid, hname⟩ := created_at hcreate hcode htarget
    exact ⟨id, hid, (getId_eq_noError_iff ((grown_create hcreate).ordered ho) k name id).mpr hname⟩
  · intro k name id hid
    have ho' : r'.Ordered := run_invariant (fun _ _ _ hs hstep => ordered_step hs hstep) ho hafter
    have hprefix : r.names k <+: r'.names k :=
      run_invariant (I := fun s => r.names k <+: s.names k)
        (fun s op t hs hstep => hs.trans (names_prefix_step hstep k)) List.prefix_rfl hafter
    rw [getId_eq_noError_iff ho, ← find_eq_some_iff (ho.unique k)] at hid
    rw [getId_eq_noError_iff ho', ← find_eq_some_iff (ho'.unique k)]
    exact find_of_prefix hprefix (ho'.unique k) hid
  · intro hsafe
    have hstart : start.Scheduled := List.Perm.nil
    exact run_invariant_of_meets (fun _ _ _ hs hC hstep => scheduled_step hs hC hstep) hstart hsafe
      hbefore

/-- The attributes of a periodic process. -/
def periodicAttributes (name : String) : Attributes :=
  ⟨name, false, 90, 1000, 1000000, .hard⟩

/-- A process and a blackboard, a second process of the same name, and a sort. -/
def twoObjects : List Op :=
  [.create (.process (periodicAttributes "P")), .create (.blackboard "B" 8),
    .create (.process (periodicAttributes "P")), .sort (fun _ => ⟨false, ⟨5, 0⟩⟩) [0]]

theorem registry_sound_twoObjects :
    ∃ r, run step start twoObjects = some r ∧ r.Sound ∧ r.Scheduled ∧
      r.getId .blackboard "B" = (.noError, some 1) := by
  obtain ⟨r, hr⟩ := Option.isSome_iff_exists.mp
    (show (run step start twoObjects).isSome = true by decide)
  have hid : (run step start twoObjects).map (fun s => s.getId .blackboard "B") =
      some (.noError, some 1) := by decide
  obtain ⟨hsound, -, -, hscheduled⟩ := registry_sound hr (run_nil r)
  refine ⟨r, hr, hsound, hscheduled (by decide), ?_⟩
  rw [hr] at hid
  exact Option.some.inj hid

/-- Seventeen periodic processes, started together, and what a sort may leave of
    the vector. -/
def tiedProcesses : List Op :=
  (List.range 17).map (fun i => .create (.process (periodicAttributes s!"P{i}"))) ++
    [.setMode .normal, .sort (fun _ => ⟨false, ⟨5, 0⟩⟩) []]

/-- A sort over processes with one critical time is not bound to permute them, whether
    it compares one with itself or not: the comparison answers `true` both ways. -/
theorem tied_sort_not_scheduled :
    (run step start tiedProcesses).map
      (fun r => (r.processes.length, r.schedulingSorted, decide r.Scheduled)) =
      some (17, [], false) ∧
    SortsDistinct (processDescriptorComp fun _ => ⟨false, ⟨5, 0⟩⟩) (List.range 17) [] := by
  refine ⟨by decide, fun h => ?_⟩
  have hties := (strictWeakBetween_iff _ _).mp h 0 (by decide) 1 (by decide) (by decide) rfl rfl
  exact absurd rfl hties

end Arinc.Registry
