import ArincEmulator.ObjectIds

/- The event of a blackboard. The constructor of a blackboard creates an event under
   the blackboard's name and asserts that it was created, but the checks before it are
   not those of the creation of an event: `CREATE_BLACKBOARD` turns away the mode
   NORMAL only, and looks for its name among the blackboards only.

   What is proved: in every reachable partition a construction gets its event just
   when the mode is not IDLE and no `CREATE_EVENT` was called before, in a mode that
   takes it, with that name (`constructor_passes_iff`). -/
namespace Arinc.Registry
open Runs

/-! ## The event of a blackboard -/

/-- `CREATE_BLACKBOARD` gets past its checks and constructs the blackboard. -/
def Constructs (r : Registry) (name : String) (maxMessageSize : Int) : Prop :=
  r.currentOperatingMode ≠ .normal ∧ 0 < maxMessageSize ∧ name ∉ r.names .blackboard

instance (r : Registry) (name : String) (size : Int) : Decidable (r.Constructs name size) :=
  inferInstanceAs (Decidable (_ ∧ _ ∧ _))

/-- The event is created, and the call does not end in the constructor's assertion. -/
def ConstructorPasses (r : Registry) (name : String) (maxMessageSize : Int) : Prop :=
  (r.createEvent name).code = .noError ∧
    r.createBlackboard name maxMessageSize ≠ .error .assertion

/-- The call asks for an event of that name in a mode that takes it. -/
def RequestsEvent (r : Registry) (name : String) (op : Op) : Prop :=
  op = .create (.event name) ∧ ¬ r.Closed

/-- One of the calls has. -/
def EventRequested (ops : List Op) (name : String) : Prop :=
  ∃ before op after r, ops = before ++ op :: after ∧ run step start before = some r ∧
    r.RequestsEvent name op

/-! ## Where events come from -/

theorem names_withEvent (r : Registry) (name : String) :
    (r.withEvent name).names .event = r.names .event ++ [name] := List.map_append

/-- Every event that is new has a blackboard of its name. -/
def BoardsExplain (r r' : Registry) : Prop :=
  ∀ name ∈ r'.names .event, name ∈ r.names .event ∨ name ∈ r'.names .blackboard

theorem boardsExplain_of_same {r r' : Registry} (h : r'.names .event = r.names .event) :
    BoardsExplain r r' := by
  intro name hname
  exact Or.inl (h ▸ hname)

theorem boardsExplain_of_board {r r' : Registry} {board : String}
    (hevents : r'.names .event = r.names .event ++ [board])
    (hboards : r'.names .blackboard = r.names .blackboard ++ [board]) : BoardsExplain r r' := by
  intro name hname
  rw [hevents] at hname
  rw [hboards]
  rcases List.mem_append.mp hname with hold | hnew
  · exact Or.inl hold
  · exact Or.inr (List.mem_append_right _ hnew)

theorem boardsExplain_withBlackboard (r : Registry) (name : String) (size : Int) :
    BoardsExplain r (r.withBlackboard name size) :=
  boardsExplain_of_board List.map_append List.map_append

theorem boardsExplain_createBlackboard {r : Registry} {name : String} {size : Int} {res : Result}
    (h : r.createBlackboard name size = .ok res) : BoardsExplain r res.registry := by
  obtain ⟨⟨-, hrefused⟩, -⟩ | ⟨-, -, -, -, rfl⟩ := createBlackboard_cases h
  · rw [hrefused]
    exact boardsExplain_of_same rfl
  · exact r.boardsExplain_withBlackboard name size

theorem boardsExplain_createProcess {r : Registry} {a : Attributes} {res : Result}
    (h : r.createProcess a = .ok res) : BoardsExplain r res.registry := by
  obtain ⟨⟨-, hrefused⟩, -⟩ | ⟨-, ⟨-, -, hprocess⟩ | ⟨-, -, rfl⟩⟩ := createProcess_cases h
  · rw [hrefused]
    exact boardsExplain_of_same rfl
  · rw [hprocess]
    exact boardsExplain_of_same rfl
  · exact boardsExplain_of_board List.map_append List.map_append

theorem boardsExplain_createHealthManagerProcess {r : Registry} {entryPointNull : Bool}
    {name : String} {res : Result} (h : r.createHealthManagerProcess entryPointNull name = .ok res) :
    BoardsExplain r res.registry := by
  obtain ⟨⟨-, hrefused⟩, -⟩ | ⟨-, ⟨-, -, hprocess⟩ | ⟨-, -, ⟨-, -, hmanager⟩ | ⟨-, -, rfl⟩⟩⟩ :=
    createHealthManagerProcess_cases h
  · rw [hrefused]
    exact boardsExplain_of_same rfl
  · rw [hprocess]
    exact boardsExplain_of_same rfl
  · rw [hmanager]
    exact boardsExplain_of_board List.map_append List.map_append
  · exact boardsExplain_of_board List.map_append List.map_append

theorem boardsExplain_register {r : Registry} {processId : Nat} {hmDescriptorId : Int}
    {res : Result} (h : r.registerProcessWithHealthManager processId hmDescriptorId = .ok res) :
    BoardsExplain r res.registry := by
  obtain ⟨other, hother, hrefused, -⟩ | ⟨herror, -⟩ | ⟨-, -, hlink⟩ :=
    r.register_cases processId hmDescriptorId
  · obtain rfl : other = res := Except.ok.inj (hother.symm.trans h)
    rw [hrefused.2]
    exact boardsExplain_of_same rfl
  · rw [herror] at h
    cases h
  · obtain ⟨linked, hlinked, rfl⟩ := ok_of_map (hlink.symm.trans h)
    obtain ⟨-, -, hm, -, -, -, rfl⟩ := link_cases hlinked
    exact boardsExplain_of_board List.map_append List.map_append

theorem event_of_step {r r' : Registry} {op : Op} (h : r.step op = some r') {name : String}
    (hname : name ∈ r'.names .event) :
    name ∈ r.names .event ∨ name ∈ r'.names .blackboard ∨ r.RequestsEvent name op := by
  have hof (hexplain : BoardsExplain r r') :
      name ∈ r.names .event ∨ name ∈ r'.names .blackboard ∨ r.RequestsEvent name op :=
    (hexplain name hname).imp_right Or.inl
  cases op with
  | create creation =>
    obtain ⟨res, hres, rfl⟩ := step_create_some h
    have hother {k : Kind} {created : String} (htarget : creation.target = some (k, created))
        (hprocess : k ≠ .process) (hboard : k ≠ .blackboard) (hevent : .event ≠ k) :
        BoardsExplain r res.registry := by
      obtain ⟨-, hsame⟩ | hone := create_oneMore htarget hprocess hboard hres
      · rw [hsame]
        exact boardsExplain_of_same rfl
      · exact boardsExplain_of_same (hone.other .event hevent)
    cases creation with
    | process a => exact hof (boardsExplain_createProcess hres)
    | healthManager entryPointNull hmName =>
      exact hof (boardsExplain_createHealthManagerProcess hres)
    | event eventName =>
      obtain rfl := Except.ok.inj hres
      obtain ⟨⟨-, hrefused⟩, -⟩ | ⟨hopen, -, hok⟩ := r.createEvent_cases eventName
      · rw [hrefused] at hname
        exact Or.inl hname
      · rw [hok] at hname
        have hin : name ∈ r.names .event ++ [eventName] := r.names_withEvent eventName ▸ hname
        rcases List.mem_append.mp hin with hold | hnew
        · exact Or.inl hold
        · obtain rfl := List.mem_singleton.mp hnew
          exact Or.inr (Or.inr ⟨rfl, hopen⟩)
    | blackboard boardName size => exact hof (boardsExplain_createBlackboard hres)
    | semaphore _ _ _ => exact hof (hother rfl (by decide) (by decide) (by decide))
    | rwSemaphore _ _ => exact hof (hother rfl (by decide) (by decide) (by decide))
    | buffer _ _ _ _ => exact hof (hother rfl (by decide) (by decide) (by decide))
    | samplingPort _ _ _ _ => exact hof (hother rfl (by decide) (by decide) (by decide))
    | queuingPort _ _ _ _ _ => exact hof (hother rfl (by decide) (by decide) (by decide))
  | register processId hmDescriptorId =>
    obtain ⟨res, hres, rfl⟩ := step_register_some h
    exact hof (boardsExplain_register hres)
  | setMode mode =>
    refine hof (boardsExplain_of_same ?_)
    rw [setPartitionMode_some h]
    rfl
  | sort info result =>
    simp only [step, Option.ite_none_right_eq_some, Option.some.injEq] at h
    obtain ⟨-, rfl⟩ := h
    exact hof (boardsExplain_of_same rfl)

/-! ## Runs -/

theorem EventRequested.append {ops : List Op} {name : String} (h : EventRequested ops name)
    (more : List Op) : EventRequested (ops ++ more) name := by
  obtain ⟨before, op, after, r, rfl, hrun, hrequests⟩ := h
  exact ⟨before, op, after ++ more, r, by simp, hrun, hrequests⟩

theorem requested_of_event {ops : List Op} {r : Registry} (h : run step start ops = some r)
    {name : String} (hevent : name ∈ r.names .event) (hboard : name ∉ r.names .blackboard) :
    EventRequested ops name := by
  refine run_history
    (I := fun past s => name ∈ s.names .event → name ∉ s.names .blackboard →
      EventRequested past name) ?_ ?_ h hevent hboard
  · intro hstart
    cases hstart
  · intro past s op t hpast hI hstep hname hfree
    rcases event_of_step hstep hname with hold | hnamed | hrequests
    · have hfreeBefore : name ∉ s.names .blackboard :=
        fun hmem => hfree ((names_prefix_step hstep .blackboard).subset hmem)
      exact (hI hold hfreeBefore).append [op]
    · exact absurd hnamed hfree
    · exact ⟨past, op, [], s, rfl, hpast, hrequests⟩

theorem event_of_requested {ops : List Op} {r : Registry} (h : run step start ops = some r)
    {name : String} (hrequested : EventRequested ops name) : name ∈ r.names .event := by
  obtain ⟨before, op, after, s, rfl, hbefore, rfl, hopen⟩ := hrequested
  obtain ⟨s', hs', hrest⟩ := run_append_some.mp h
  obtain rfl : s' = s := Option.some.inj (hs'.symm.trans hbefore)
  obtain ⟨t, ht, hafter⟩ := run_cons_some.mp hrest
  have hcreated : name ∈ t.names .event := by
    obtain ⟨res, hres, rfl⟩ := step_create_some ht
    obtain rfl := Except.ok.inj hres
    obtain ⟨⟨-, hrefused⟩, hclosed | htaken⟩ | ⟨-, -, hok⟩ := s'.createEvent_cases name
    · exact absurd hclosed hopen
    · rw [hrefused]
      exact htaken
    · rw [hok]
      exact (s'.names_withEvent name).symm ▸ List.mem_append_right _ (List.mem_singleton_self name)
  have hprefix : t.names .event <+: r.names .event :=
    run_invariant (I := fun u => t.names .event <+: u.names .event)
      (fun _ _ _ hu hstep => hu.trans (names_prefix_step hstep .event)) List.prefix_rfl hafter
  exact hprefix.subset hcreated

/-- The constructor passes just when the creation of an event takes the name. -/
theorem constructorPasses_iff_event {r : Registry} {name : String} {size : Int}
    (hreach : r.Constructs name size) :
    r.ConstructorPasses name size ↔
      r.currentOperatingMode ≠ .idle ∧ name ∉ r.names .event := by
  obtain ⟨hnormal, hsize, hname⟩ := hreach
  unfold ConstructorPasses
  obtain ⟨⟨hcode, -⟩, hwhy⟩ | ⟨hopen, hevent, hok⟩ := r.createEvent_cases name
  · constructor
    · exact fun hpasses => absurd hpasses.1 hcode
    · rintro ⟨hidle, hevent⟩
      rcases hwhy with (hmode | hmode) | htaken
      · exact absurd hmode hidle
      · exact absurd hmode hnormal
      · exact absurd htaken hevent
  · refine iff_of_true ⟨by rw [hok], fun herror => ?_⟩ ⟨fun hidle => hopen (Or.inl hidle), hevent⟩
    obtain ⟨-, hclosed | htaken⟩ := createBlackboard_error herror
    · exact hopen hclosed
    · exact hevent htaken

/-- In every reachable partition, whatever was created before and whatever its mode:
    a construction that `CREATE_BLACKBOARD` comes to gets its event, and does not
    abort, just when the mode is not IDLE and no event of the name was asked for. -/
theorem constructor_passes_iff {ops : List Op} {r : Registry} (h : run step start ops = some r)
    {name : String} {size : Int} (hreach : r.Constructs name size) :
    r.ConstructorPasses name size ↔
      r.currentOperatingMode ≠ .idle ∧ ¬ EventRequested ops name := by
  rw [constructorPasses_iff_event hreach]
  refine and_congr_right fun _ => not_congr ⟨?_, event_of_requested h⟩
  exact fun hevent => requested_of_event h hevent hreach.2.2

/-- A blackboard, and an event under another name. -/
def boardAndEvent : List Op := [.create (.blackboard "B" 8), .create (.event "E")]

theorem constructor_passes_iff_boardAndEvent :
    ∃ r, run step start boardAndEvent = some r ∧ r.Constructs "C" 8 ∧
      (r.ConstructorPasses "C" 8 ↔
        r.currentOperatingMode ≠ .idle ∧ ¬ EventRequested boardAndEvent "C") := by
  have hreach : ((run step start boardAndEvent).map fun r => decide (r.Constructs "C" 8)) =
      some true := by decide
  obtain ⟨r, hr, hconstructs⟩ := Option.map_eq_some_iff.mp hreach
  have hconstructs : r.Constructs "C" 8 := of_decide_eq_true hconstructs
  exact ⟨r, hr, hconstructs, constructor_passes_iff hr hconstructs⟩

/-- An event, then a blackboard under its name: the checks let it through, and the
    constructor aborts. -/
theorem constructor_aborts :
    ∃ r, run step start [.create (.event "E")] = some r ∧ r.Constructs "E" 8 ∧
      ¬ r.ConstructorPasses "E" 8 := by
  refine ⟨(run step start [.create (.event "E")]).get (by decide), (Option.some_get _).symm,
    by decide, ?_⟩
  intro hpasses
  exact absurd hpasses.1 (by decide)

end Arinc.Registry
