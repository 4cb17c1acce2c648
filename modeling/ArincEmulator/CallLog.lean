import ArincEmulator.StateMachine

/- The calls on the data source as a log, newest first: which states the entry and
   exit actions say are entered, what it is for these actions to bracket, and how a
   log grows. Most functions of the machine make other calls only. -/
namespace Arinc.StateMachine

variable {S R T : Type}

/-! ## What a log says -/

/-- The last of the entry and exit actions of `x` is an entry action. -/
def Entered : List (Callback S T) → S → Prop
  | [], _ => False
  | .entry s :: log, x => x = s ∨ Entered log x
  | .exit s :: log, x => x ≠ s ∧ Entered log x
  | _ :: log, x => Entered log x

/-- Neither an entry nor an exit action. -/
def Quiet : Callback S T → Prop
  | .entry _ => False
  | .exit _ => False
  | _ => True

/-- No entry action. -/
def NoEntry (c : Callback S T) : Prop := ∀ s, c ≠ .entry s

/-- No exit action. -/
def NoExit (c : Callback S T) : Prop := ∀ s, c ≠ .exit s

theorem noEntry_exit (s : S) : NoEntry (.exit s : Callback S T) := by
  intro x h
  cases h

theorem noExit_entry (s : S) : NoExit (.entry s : Callback S T) := by
  intro x h
  cases h

theorem Quiet.noEntry {c : Callback S T} (h : Quiet c) : NoEntry c := by
  rintro s rfl
  exact h

theorem Quiet.noExit {c : Callback S T} (h : Quiet c) : NoExit c := by
  rintro s rfl
  exact h

/-- An entry action comes to a state that is not entered, below an owner that is;
    an exit action to one that is, above none that is. -/
def Bracketed (H : Hierarchy S R T) : List (Callback S T) → Prop
  | [] => True
  | .entry s :: log =>
    ¬ Entered log s ∧ (∀ r, H.region s = some r → Entered log (H.owner r)) ∧ Bracketed H log
  | .exit s :: log =>
    Entered log s ∧ (∀ x r, H.region x = some r → H.owner r = s → ¬ Entered log x) ∧
      Bracketed H log
  | _ :: log => Bracketed H log

/-- `new` is `log` with further calls, all of them such that `P`. -/
def Grows (P : Callback S T → Prop) (log new : List (Callback S T)) : Prop :=
  ∃ w, new = w ++ log ∧ ∀ c ∈ w, P c

section
variable {H : Hierarchy S R T} {P Q : Callback S T → Prop} {log new newer : List (Callback S T)}

theorem Grows.refl (P : Callback S T → Prop) (log : List (Callback S T)) : Grows P log log :=
  ⟨[], rfl, nofun⟩

theorem Grows.trans (h : Grows P log new) (h' : Grows P new newer) : Grows P log newer := by
  obtain ⟨w, rfl, hw⟩ := h
  obtain ⟨v, rfl, hv⟩ := h'
  refine ⟨v ++ w, by rw [List.append_assoc], ?_⟩
  intro c hc
  rcases List.mem_append.mp hc with hc | hc
  · exact hv c hc
  · exact hw c hc

theorem Grows.cons (h : Grows P log new) {c : Callback S T} (hc : P c) : Grows P log (c :: new) :=
  h.trans ⟨[c], rfl, by simpa using hc⟩

theorem Grows.mono (h : Grows P log new) (hPQ : ∀ c, P c → Q c) : Grows Q log new := by
  obtain ⟨w, hw, hP⟩ := h
  exact ⟨w, hw, fun c hc => hPQ c (hP c hc)⟩

theorem entered_cons_of_quiet {c : Callback S T} (hc : Quiet c) (x : S) :
    Entered (c :: log) x ↔ Entered log x := by
  cases c <;> first
    | exact hc.elim
    | exact Iff.rfl

theorem bracketed_cons_of_quiet {c : Callback S T} (hc : Quiet c) :
    Bracketed H (c :: log) ↔ Bracketed H log := by
  cases c <;> first
    | exact hc.elim
    | exact Iff.rfl

theorem Grows.entered_iff (h : Grows Quiet log new) (x : S) : Entered new x ↔ Entered log x := by
  obtain ⟨w, rfl, hw⟩ := h
  induction w with
  | nil => exact Iff.rfl
  | cons c w ih =>
    rw [List.cons_append, entered_cons_of_quiet (hw c List.mem_cons_self)]
    exact ih fun d hd => hw d (List.mem_cons_of_mem _ hd)

theorem Grows.bracketed_iff (h : Grows Quiet log new) : Bracketed H new ↔ Bracketed H log := by
  obtain ⟨w, rfl, hw⟩ := h
  induction w with
  | nil => exact Iff.rfl
  | cons c w ih =>
    rw [List.cons_append, bracketed_cons_of_quiet (hw c List.mem_cons_self)]
    exact ih fun d hd => hw d (List.mem_cons_of_mem _ hd)

theorem Bracketed.of_append {w : List (Callback S T)} (h : Bracketed H (w ++ log)) :
    Bracketed H log := by
  induction w with
  | nil => exact h
  | cons c w ih =>
    apply ih
    cases c with
    | entry s => exact h.2.2
    | exit s => exact h.2.2
    | _ => exact h

theorem Entered.of_append {w : List (Callback S T)} {x : S} (h : Entered (w ++ log) x) :
    Entered log x ∨ .entry x ∈ w := by
  induction w with
  | nil => exact Or.inl h
  | cons c w ih =>
    have hcons : Entered (w ++ log) x → Entered log x ∨ .entry x ∈ c :: w := fun h =>
      (ih h).imp id (List.mem_cons_of_mem _)
    cases c with
    | entry s =>
      rcases h with rfl | h
      · exact Or.inr List.mem_cons_self
      · exact hcons h
    | exit s => exact hcons h.2
    | _ => exact hcons h

theorem Entered.append {w : List (Callback S T)} {x : S} (h : Entered log x) (hw : .exit x ∉ w) :
    Entered (w ++ log) x := by
  induction w with
  | nil => exact h
  | cons c w ih =>
    have hrest := ih fun hx => hw (List.mem_cons_of_mem _ hx)
    cases c with
    | entry s => exact Or.inr hrest
    | exit s =>
      refine ⟨?_, hrest⟩
      rintro rfl
      exact hw List.mem_cons_self
    | _ => exact hrest

end

/-! ## The calls of one transition -/

/-- A child's exit action comes before that of its owner, a child's entry action after
    that of its owner. -/
structure Nested (H : Hierarchy S R T) (calls : List (Callback S T)) : Prop where
  exit : ∀ {x r l₁ l₂}, H.region x = some r → calls = l₂ ++ .exit (H.owner r) :: l₁ → .exit x ∉ l₂
  entry : ∀ {x r l₁ l₂}, H.region x = some r → calls = l₂ ++ .entry (H.owner r) :: l₁ →
    .entry x ∉ l₁

section
variable {H : Hierarchy S R T}

theorem mem_right_of_append {α : Type} {l l' a b : List α} {d : α} (h : l ++ l' = a ++ d :: b)
    (hd : d ∉ l) : ∀ c ∈ b, c ∈ l' := by
  rcases List.append_eq_append_iff.mp h with ⟨k, -, rfl⟩ | ⟨k, rfl, hk⟩
  · exact fun c hc => List.mem_append_right _ (List.mem_cons_of_mem _ hc)
  · cases k with
    | nil =>
      obtain rfl : d :: b = l' := hk
      exact fun c => List.mem_cons_of_mem _
    | cons e k =>
      obtain ⟨rfl, -⟩ := List.cons.inj hk
      exact absurd (List.mem_append_right _ List.mem_cons_self) hd

theorem mem_left_of_append {α : Type} {l l' a b : List α} {d : α} (h : l ++ l' = a ++ d :: b)
    (hd : d ∉ l') : ∀ c ∈ a, c ∈ l := by
  rcases List.append_eq_append_iff.mp h with ⟨k, rfl, rfl⟩ | ⟨k, rfl, -⟩
  · exact absurd (List.mem_append_right _ List.mem_cons_self) hd
  · exact fun c hc => List.mem_append_left _ hc

/-- Exit actions first and entry actions then, and all of it bracketed. -/
theorem Nested.of_bracketed {left entered : List (Callback S T)} (log : List (Callback S T))
    (hb : Bracketed H (entered ++ left ++ log)) (hleft : ∀ c ∈ left, NoEntry c)
    (hentered : ∀ c ∈ entered, NoExit c) : Nested H (entered ++ left) := by
  constructor
  · intro x r l₁ l₂ hx hcalls hmem
    obtain ⟨a, b, rfl⟩ := List.append_of_mem hmem
    rw [List.append_assoc, List.cons_append] at hcalls
    rw [hcalls, List.append_assoc, List.cons_append, List.append_assoc] at hb
    have hexit := hb.of_append
    have howner := hexit.2.2.of_append
    rcases hexit.1.of_append with h | h
    · exact howner.2.1 x r hx rfl h.2
    · have hb' := mem_right_of_append hcalls (fun h => hentered _ h x rfl)
      exact hleft _ (hb' _ (List.mem_append_left _ h)) x rfl
  · intro x r l₁ l₂ hx hcalls hmem
    obtain ⟨a, b, rfl⟩ := List.append_of_mem hmem
    rw [hcalls, List.append_assoc, List.cons_append, List.append_assoc] at hb
    have howner := hb.of_append
    have hentry := howner.2.2.of_append
    have hbefore : Entered (.entry x :: b ++ log) (H.owner r) := Or.inr (hentry.2.1 r hx)
    apply howner.1
    apply hbefore.append
    intro hexit
    rw [← List.cons_append, ← List.append_assoc] at hcalls
    have ha := mem_left_of_append hcalls (fun h => hleft _ h x rfl)
    exact hentered _ (ha _ (List.mem_append_right _ (List.mem_cons_of_mem _ hexit))) _ rfl

end

/-! ## Which calls a function makes -/

section
variable (H : Hierarchy S R T) (env : Env S T) {P : Callback S T → Prop}

theorem checkGuard_grows (hguard : ∀ t, P (.guard t)) (log : List (Callback S T)) (t : T) :
    Grows P log (checkGuard H env log t).1 := by
  unfold checkGuard
  split
  · exact (Grows.refl _ _).cons (hguard t)
  · exact Grows.refl _ _

theorem checkEvent_grows (hevent : ∀ t, P (.event t)) (log : List (Callback S T)) (t : T) :
    Grows P log (checkEvent H env log t).1 := by
  unfold checkEvent
  split
  · exact (Grows.refl _ _).cons (hevent t)
  · exact Grows.refl _ _

theorem performAction_grows (haction : ∀ t, P (.action t)) (log : List (Callback S T)) (t : T) :
    Grows P log (performAction H log t) := by
  unfold performAction
  split
  · exact (Grows.refl _ _).cons (haction t)
  · exact Grows.refl _ _

theorem evalTransitionsForTimeOut_grows (hguard : ∀ t, P (.guard t)) (log : List (Callback S T))
    (s : S) : Grows P log (evalTransitionsForTimeOut H env log s) := by
  unfold evalTransitionsForTimeOut
  induction H.timeOutTransitions s generalizing log with
  | nil => exact Grows.refl _ _
  | cons t ts ih => exact (checkGuard_grows H env hguard log t).trans (ih _)

theorem performEntry_grows (hentry : ∀ s, P (.entry s)) (hguard : ∀ t, P (.guard t))
    (log : List (Callback S T)) (s : S) : Grows P log (performEntry H env log s) := by
  unfold performEntry
  split
  · exact (evalTransitionsForTimeOut_grows H env hguard log s).cons (hentry s)
  · exact Grows.refl _ _

theorem firstActive_grows (hevent : ∀ t, P (.event t)) (hguard : ∀ t, P (.guard t))
    (log : List (Callback S T)) (ts : List T) : Grows P log (firstActive H env log ts).1 := by
  induction ts generalizing log with
  | nil => exact Grows.refl _ _
  | cons t ts ih =>
    have hlog := checkEvent_grows H env hevent log t
    have hlog' := checkGuard_grows H env hguard (checkEvent H env log t).1 t
    simp only [firstActive]
    split
    · split
      · exact hlog.trans hlog'
      · exact (hlog.trans hlog').trans (ih _)
    · exact hlog.trans (ih _)

variable [DecidableEq S] [DecidableEq R]

theorem evalTimeOut_grows (hguard : ∀ t, P (.guard t)) (c : Config H) (fuel : Nat)
    (e : List S × List (Callback S T)) (s : S) (applyHistory doEntry : Bool) :
    Grows P e.2 (evalTimeOut H env c fuel e s applyHistory doEntry).2 := by
  induction fuel generalizing e s applyHistory doEntry with
  | zero => exact Grows.refl _ _
  | succ fuel ih =>
    simp only [evalTimeOut]
    have hregions : ∀ (rs : List R) (e : List S × List (Callback S T)) (check : Bool),
        Grows P e.2 (rs.foldl (Region.evalTimeOut c applyHistory check fun e x applyHistory =>
          evalTimeOut H env c fuel e x applyHistory doEntry) e).2 := by
      intro rs
      induction rs with
      | nil => exact fun e _ => Grows.refl _ _
      | cons r rs ihrs =>
        intro e check
        rw [List.foldl_cons]
        refine Grows.trans ?_ (ihrs _ check)
        unfold Region.evalTimeOut
        split
        · exact Grows.refl _ _
        · exact ih _ _ _ _
    refine Grows.trans ?_ (hregions _ _ _)
    split
    · exact evalTransitionsForTimeOut_grows H env hguard e.2 s
    · exact Grows.refl _ _

theorem evalEntry_grows (hentry : ∀ s, P (.entry s)) (hguard : ∀ t, P (.guard t)) (fuel : Nat)
    (e : Entering H) (s : S) (applyHistory doEntry : Bool) :
    Grows P e.log (evalEntry H env fuel e s applyHistory doEntry).log := by
  induction fuel generalizing e s applyHistory doEntry with
  | zero => exact Grows.refl _ _
  | succ fuel ih =>
    have hregions : ∀ (rs : List R) (e : Entering H) (check : Bool),
        Grows P e.log (rs.foldl (Region.evalEntry applyHistory check fun e x applyHistory =>
          evalEntry H env fuel e x applyHistory true) e).log := by
      intro rs
      induction rs with
      | nil => exact fun e _ => Grows.refl _ _
      | cons r rs ihrs =>
        intro e check
        rw [List.foldl_cons]
        refine Grows.trans ?_ (ihrs _ check)
        unfold Region.evalEntry
        split
        · exact Grows.refl _ _
        · rename_i x applyHistory _
          exact ih { e with config := e.config.setCurrentState r x } x applyHistory true
    simp only [evalEntry]
    refine Grows.trans ?_ (hregions _ ⟨_, _, _⟩ _)
    split
    · exact performEntry_grows H env hentry hguard e.log s
    · exact Grows.refl _ _

omit [DecidableEq S] [DecidableEq R] in
theorem evalExit_grows (hexit : ∀ s, P (.exit s)) (c : Config H) (fuel : Nat) (e : Exiting S T)
    (s : S) (doExit : Bool) : Grows P e.log (evalExit H c fuel e s doExit).log := by
  induction fuel generalizing e s doExit with
  | zero => exact Grows.refl _ _
  | succ fuel ih =>
    have hregions : ∀ (rs : List R) (e : Exiting S T),
        Grows P e.log (rs.foldl (Region.evalExit c fun e x => evalExit H c fuel e x true) e).log := by
      intro rs
      induction rs with
      | nil => exact fun e => Grows.refl _ _
      | cons r rs ihrs =>
        intro e
        rw [List.foldl_cons]
        refine Grows.trans ?_ (ihrs _)
        unfold Region.evalExit
        split
        · exact Grows.refl _ _
        · exact ih _ _ _
    simp only [evalExit]
    refine (hregions (H.regions s) e).trans ?_
    split
    · unfold performExit
      split
      · exact (Grows.refl _ _).cons (hexit s)
      · exact Grows.refl _ _
    · exact Grows.refl _ _

omit [DecidableEq S] [DecidableEq R] in
theorem evalTransitions_grows (hduring : ∀ s, P (.during s)) (hevent : ∀ t, P (.event t))
    (hguard : ∀ t, P (.guard t)) (c : Config H) (fuel : Nat) (e : Searching S T) (s : S)
    (lookForDefault : Bool) :
    Grows P e.log (evalTransitions H env c fuel e s lookForDefault).log := by
  -- The induction is on the fuel, and inside it on the regions of the state.
  induction fuel generalizing e s lookForDefault with
  | zero => exact Grows.refl _ _
  | succ fuel ih =>
    have hregions : ∀ (rs : List R) (e : Searching S T × Bool),
        Grows P e.1.log (rs.foldl (Region.evalTransitions c fun e x lookForDefault =>
          evalTransitions H env c fuel e x lookForDefault) e).1.log := by
      intro rs
      induction rs with
      | nil => exact fun e => Grows.refl _ _
      | cons r rs ihrs =>
        intro e
        rw [List.foldl_cons]
        refine Grows.trans ?_ (ihrs _)
        unfold Region.evalTransitions
        split
        · exact Grows.refl _ _
        · exact ih _ _ _
    have hstart : Grows P e.log (if H.stateHasDs s then .during s :: e.log else e.log) := by
      split
      · exact (Grows.refl _ _).cons (hduring s)
      · exact Grows.refl _ _
    have hfirst := hstart.trans (firstActive_grows H env hevent hguard _ (H.outTransitions s))
    simp only [evalTransitions]
    split
    · rename_i log t heq
      rw [heq] at hfirst
      exact hfirst
    · rename_i log heq
      rw [heq] at hfirst
      exact hfirst.trans (hregions _ (⟨log, _, _⟩, _))

end

/-! ## The calls that are neither -/

section
variable (H : Hierarchy S R T) (env : Env S T)

theorem performAction_quiet (log : List (Callback S T)) (t : T) :
    Grows Quiet log (performAction H log t) := performAction_grows H (fun _ => trivial) log t

theorem evalTransitionsForTimeOut_quiet (log : List (Callback S T)) (s : S) :
    Grows Quiet log (evalTransitionsForTimeOut H env log s) :=
  evalTransitionsForTimeOut_grows H env (fun _ => trivial) log s

theorem evalTransitions_quiet (c : Config H) (fuel : Nat) (e : Searching S T) (s : S)
    (lookForDefault : Bool) :
    Grows Quiet e.log (evalTransitions H env c fuel e s lookForDefault).log :=
  evalTransitions_grows H env (fun _ => trivial) (fun _ => trivial) (fun _ => trivial) c fuel e s
    lookForDefault

variable [DecidableEq S] [DecidableEq R]

theorem evalTimeOut_quiet (c : Config H) (fuel : Nat) (e : List S × List (Callback S T)) (s : S)
    (applyHistory doEntry : Bool) :
    Grows Quiet e.2 (evalTimeOut H env c fuel e s applyHistory doEntry).2 :=
  evalTimeOut_grows H env (fun _ => trivial) c fuel e s applyHistory doEntry

end

end Arinc.StateMachine
