import ArincEmulator.StateMachine

/- What the search for transitions finds: transitions out of active states, none of
   which lies below another one. -/
namespace Arinc.StateMachine
open AndOrTree

variable {S R T : Type} {H : Hierarchy S R T}

/-- Transitions have been added to the states they start from. -/
def Attached (H : Hierarchy S R T) : Prop := ∀ s, ∀ t ∈ H.outTransitions s, H.source t = s

/-- Transitions out of states reached from `s`, none of them below another. -/
structure Finds (c : Config H) (s : S) (ts : List T) : Prop where
  source : ∀ t ∈ ts, t ∈ H.outTransitions (H.source t)
  reached : ∀ t ∈ ts, Reached H.toTree c.currentState s (H.source t)
  apart : ts.Pairwise fun t u =>
    ¬ Below H.toTree (H.source t) (H.source u) ∧ ¬ Below H.toTree (H.source u) (H.source t)

variable (H) in
theorem firstActive_mem {env : Env S T} {log : List (Callback S T)} {ts : List T} {t : T}
    (h : (firstActive H env log ts).2 = some t) : t ∈ ts := by
  induction ts generalizing log with
  | nil => simp [firstActive] at h
  | cons u ts ih =>
    simp only [firstActive] at h
    split at h
    · split at h
      · obtain rfl := Option.some.inj h
        exact List.mem_cons_self
      · exact List.mem_cons_of_mem _ (ih h)
    · exact List.mem_cons_of_mem _ (ih h)

theorem Finds.nil (c : Config H) (s : S) : Finds c s [] :=
  ⟨nofun, nofun, .nil⟩

theorem Finds.single (hattached : Attached H) (c : Config H) {s : S} {t : T}
    (h : t ∈ H.outTransitions s) : Finds c s [t] := by
  obtain rfl := hattached s t h
  refine ⟨?_, ?_, List.pairwise_singleton _ _⟩
  · intro u hu
    obtain rfl := List.mem_singleton.mp hu
    exact h
  · intro u hu
    obtain rfl := List.mem_singleton.mp hu
    exact .refl

/-- What is found from the current state of a region lies under that region. -/
theorem Finds.underRegion {c : Config H} {x : S} {r : R} {ts : List T} (h : Finds c x ts)
    (hx : H.region x = some r) {t : T} (ht : t ∈ ts) : UnderRegion H.toTree r (H.source t) :=
  ⟨x, hx, (h.reached t ht).isBelow c.proper⟩

theorem foldl_finds {c : Config H} {s : S} {f : Searching S T → S → Bool → Searching S T}
    (hf : ∀ e x look, ∃ ts, (f e x look).activeTransitions = e.activeTransitions ++ ts ∧
      Finds c x ts) :
    ∀ (rs : List R) (e : Searching S T × Bool), rs.Nodup → (∀ r ∈ rs, H.owner r = s) →
      ∃ ts, (rs.foldl (Region.evalTransitions c f) e).1.activeTransitions =
        e.1.activeTransitions ++ ts ∧ Finds c s ts ∧
        ∀ t ∈ ts, ∃ r ∈ rs, UnderRegion H.toTree r (H.source t) := by
  intro rs
  induction rs with
  | nil => exact fun e _ _ => ⟨[], (List.append_nil _).symm, Finds.nil c s, nofun⟩
  | cons r rs ih =>
    intro e hnodup howner
    obtain ⟨hr, hnodup⟩ := List.nodup_cons.mp hnodup
    have howners : ∀ q ∈ rs, H.owner q = s := fun q hq => howner q (List.mem_cons_of_mem _ hq)
    have howner_r := howner r List.mem_cons_self
    rw [List.foldl_cons]
    obtain ⟨us, hus, hfinds, hunder⟩ := ih (Region.evalTransitions c f e r) hnodup howners
    have hrest : ∀ u ∈ us, ∃ q ∈ r :: rs, UnderRegion H.toTree q (H.source u) := by
      intro u hu
      obtain ⟨q, hq, hqu⟩ := hunder u hu
      exact ⟨q, List.mem_cons_of_mem _ hq, hqu⟩
    cases hx : c.currentState r with
    | none =>
      simp only [Region.evalTransitions, hx] at hus ⊢
      exact ⟨us, hus, hfinds, hrest⟩
    | some x =>
      have hxr := c.proper r x hx
      obtain ⟨ts, hts, hfound⟩ := hf e.1 x e.2
      simp only [Region.evalTransitions, hx] at hus ⊢
      rw [hts, List.append_assoc] at hus
      refine ⟨ts ++ us, hus, ⟨?_, ?_, ?_⟩, ?_⟩
      · intro t ht
        rcases List.mem_append.mp ht with ht | ht
        · exact hfound.source t ht
        · exact hfinds.source t ht
      · intro t ht
        rcases List.mem_append.mp ht with ht | ht
        · exact Reached.iff_head.mpr (Or.inr ⟨r, howner_r, x, hx, hfound.reached t ht⟩)
        · exact hfinds.reached t ht
      · rw [List.pairwise_append]
        refine ⟨hfound.apart, hfinds.apart, fun t ht u hu => ?_⟩
        -- the two lie in different regions of `s`
        obtain ⟨q, hq, hqu⟩ := hunder u hu
        have howner_q := howner_r.trans (howners q hq).symm
        have hrt := hfound.underRegion hxr ht
        constructor
        · intro hbelow
          exact hr (eq_of_underRegion howner_q (hrt.trans hbelow) hqu ▸ hq)
        · intro hbelow
          exact hr (eq_of_underRegion howner_q hrt (hqu.trans hbelow) ▸ hq)
      · intro t ht
        rcases List.mem_append.mp ht with ht | ht
        · exact ⟨r, List.mem_cons_self, hfound.underRegion hxr ht⟩
        · exact hrest t ht

theorem evalTransitions_finds (hattached : Attached H) (env : Env S T) (c : Config H) (fuel : Nat) (e : Searching S T)
    (s : S) (lookForDefault : Bool) :
    ∃ ts, (evalTransitions H env c fuel e s lookForDefault).activeTransitions =
      e.activeTransitions ++ ts ∧ Finds c s ts := by
  induction fuel generalizing e s lookForDefault with
  | zero => exact ⟨[], (List.append_nil _).symm, Finds.nil c s⟩
  | succ fuel ih =>
    simp only [evalTransitions]
    generalize (if H.stateHasDs s then Callback.during s :: e.log else e.log) = log
    cases hfirst : firstActive H env log (H.outTransitions s) with
    | mk log found =>
      cases found with
      | some t =>
        have hmem := firstActive_mem H (congrArg Prod.snd hfirst)
        exact ⟨[t], rfl, Finds.single hattached c hmem⟩
      | none =>
        obtain ⟨ts, hts, hfinds, -⟩ := foldl_finds (c := c) (s := s)
          (f := fun e x look => evalTransitions H env c fuel e x look)
          (fun e x look => ih e x look) (H.regions s) (⟨log, e.activeTransitions, none⟩, lookForDefault)
          (H.regions_nodup s) (fun r => H.mem_regions.mp)
        exact ⟨ts, hts, hfinds⟩

theorem search_finds (hattached : Attached H) (env : Env S T) (m : Machine H) :
    Finds m.config H.root (search H env m).activeTransitions := by
  obtain ⟨ts, hts, hfinds⟩ :=
    evalTransitions_finds hattached env m.config (fuel H) ⟨m.log, [], none⟩ H.root true
  rw [List.nil_append] at hts
  rw [search, hts]
  exact hfinds

end Arinc.StateMachine
