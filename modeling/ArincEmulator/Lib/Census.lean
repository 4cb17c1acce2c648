import Mathlib.Algebra.BigOperators.Group.Finset.Piecewise
import Mathlib.Algebra.Order.BigOperators.Group.Finset
import Mathlib.Algebra.BigOperators.Ring.Finset
import Mathlib.Data.Fintype.BigOperators
import Mathlib.Algebra.Order.Ring.Int

/- A census adds up one weight over a finite population of clients. Shared
   counters of a concurrent component are tied to what the clients hold by an
   equation between the counter and a census; one step moves one client, so
   the only rule an invariant proof needs is how a census changes when one
   client does (`census_update`). -/
namespace Arinc.Census

variable {ι γ : Type*} [Fintype ι]

/-- The weights of all clients together. -/
def census (w : γ → Int) (c : ι → γ) : Int := ∑ i, w (c i)

theorem census_add (w v : γ → Int) (c : ι → γ) :
    census (fun x => w x + v x) c = census w c + census v c :=
  Finset.sum_add_distrib

theorem census_mul_left (k : Int) (w : γ → Int) (c : ι → γ) :
    census (fun x => k * w x) c = k * census w c :=
  (Finset.mul_sum Finset.univ (fun i => w (c i)) k).symm

theorem census_nonneg {w : γ → Int} {c : ι → γ} (hw : ∀ i, 0 ≤ w (c i)) : 0 ≤ census w c :=
  Finset.sum_nonneg fun i _ => hw i

theorem le_census {w : γ → Int} {c : ι → γ} (hw : ∀ i, 0 ≤ w (c i)) (i : ι) :
    w (c i) ≤ census w c :=
  Finset.single_le_sum (fun j _ => hw j) (Finset.mem_univ i)

theorem eq_zero_of_census {w : γ → Int} {c : ι → γ} (hw : ∀ i, 0 ≤ w (c i))
    (h : census w c = 0) (i : ι) : w (c i) = 0 :=
  le_antisymm (h ▸ le_census hw i) (hw i)

theorem census_eq_zero {w : γ → Int} {c : ι → γ} (h : ∀ i, w (c i) = 0) : census w c = 0 :=
  Finset.sum_eq_zero fun i _ => h i

/-- Two clients together weigh no more than all of them. -/
theorem pair_le_census {w : γ → Int} {c : ι → γ} (hw : ∀ i, 0 ≤ w (c i)) {i j : ι}
    (hij : i ≠ j) : w (c i) + w (c j) ≤ census w c := by
  classical
  have hsub : ({i, j} : Finset ι) ⊆ Finset.univ := Finset.subset_univ _
  have hle := Finset.sum_le_sum_of_subset_of_nonneg hsub
    fun k _ _ => hw k
  simpa [census, Finset.sum_pair hij] using hle

variable [DecidableEq ι]

theorem census_update (w : γ → Int) (c : ι → γ) (i : ι) (x : γ) :
    census w (Function.update c i x) = census w c - w (c i) + w x := by
  have hsplit : ∑ j, w (c j) = ∑ j ∈ Finset.univ.erase i, w (c j) + w (c i) :=
    (Finset.sum_erase_add _ _ (Finset.mem_univ i)).symm
  have hrest : ∑ j ∈ Finset.univ.erase i, w (Function.update c i x j)
      = ∑ j ∈ Finset.univ.erase i, w (c j) :=
    Finset.sum_congr rfl fun j hj => by
      rw [Function.update_of_ne (Finset.ne_of_mem_erase hj)]
  have hupd : census w (Function.update c i x)
      = ∑ j ∈ Finset.univ.erase i, w (Function.update c i x j) + w x := by
    have h := Finset.sum_erase_add Finset.univ (fun j => w (Function.update c i x j))
      (Finset.mem_univ i)
    rw [Function.update_self] at h
    exact h.symm
  rw [hupd, hrest, census, hsplit]
  omega

end Arinc.Census
