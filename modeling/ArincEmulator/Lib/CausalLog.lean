import Mathlib.Data.List.Nodup

/- A log of events with identifiers and causes. It is causal when no identifier is given
   twice and every cause is an event of the log with a smaller identifier. A batch keeps
   that when its identifiers are new and its causes lie before them, in the log or in the
   batch (`Causal.append`); so does setting causes that do (`Causal.set_causes`). -/
namespace Arinc.CausalLog

variable {ι : Type*}

/-- The identifiers that were given, in order. -/
def ids (log : List (ι × Option ι)) : List ι := log.map Prod.fst

theorem ids_append (log log' : List (ι × Option ι)) : ids (log ++ log') = ids log ++ ids log' :=
  List.map_append

variable [LT ι]

/-- The cause lies before the event, and is one of `known`. -/
def Caused (known : List ι) (e : ι × Option ι) : Prop := ∀ c ∈ e.2, c < e.1 ∧ c ∈ known

/-- Identifiers are unique, and every cause is an earlier event of the log. -/
structure Causal (log : List (ι × Option ι)) : Prop where
  unique : (ids log).Nodup
  caused : ∀ e ∈ log, Caused (ids log) e

theorem Caused.mono {known known' : List ι} {e : ι × Option ι} (h : Caused known e)
    (hsub : known ⊆ known') : Caused known' e := fun c hc => ⟨(h c hc).1, hsub (h c hc).2⟩

theorem caused_none (known : List ι) (id : ι) : Caused known (id, none) := by
  intro c hc
  cases hc

theorem causal_nil : Causal ([] : List (ι × Option ι)) where
  unique := List.nodup_nil
  caused := fun _ he => absurd he List.not_mem_nil

theorem Causal.append (irrefl : ∀ id : ι, ¬ id < id) {log batch : List (ι × Option ι)}
    (h : Causal log) (hunique : (ids batch).Nodup) (habove : ∀ id ∈ ids batch, ∀ id' ∈ ids log, id' < id)
    (hcaused : ∀ e ∈ batch, Caused (ids (log ++ batch)) e) : Causal (log ++ batch) where
  unique := by
    rw [ids_append]
    refine List.nodup_append.mpr ⟨h.unique, hunique, ?_⟩
    intro id hold id' hnew heq
    have hlt := habove id' hnew id hold
    rw [heq] at hlt
    exact irrefl id' hlt
  caused := by
    intro e he
    obtain hold | hnew := List.mem_append.mp he
    · refine (h.caused e hold).mono ?_
      rw [ids_append]
      exact List.subset_append_left _ _
    · exact hcaused e hnew

theorem Causal.set_causes {log log' : List (ι × Option ι)} (h : Causal log)
    (hids : ids log' = ids log) (hcaused : ∀ e ∈ log', e ∈ log ∨ Caused (ids log) e) :
    Causal log' where
  unique := hids ▸ h.unique
  caused := by
    intro e he
    rw [hids]
    exact (hcaused e he).elim (h.caused e) id

end Arinc.CausalLog
