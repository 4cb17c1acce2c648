import Mathlib.Data.List.Chain
import Mathlib.Tactic.Ring

/- Times on a grid of a fixed period. A history that only ever grows by a time
   some periods after the last one stays on the grid of its first time, however
   many periods each step jumps (`InPhase.multiples`). Lists are newest first. -/
namespace Arinc.Phase

/-- `new` is a positive number of periods after `old`. -/
def Ahead (period new old : Int) : Prop := ∃ k : Int, 0 < k ∧ new = old + k * period

/-- Each time is ahead of the one before it. -/
def InPhase (period : Int) (times : List Int) : Prop := times.IsChain (Ahead period)

variable {period new old : Int} {times : List Int}

theorem Ahead.skip (h : Ahead period new old) {m : Int} (hm : 0 ≤ m) :
    Ahead period (new + m * period) old := by
  obtain ⟨k, hk, rfl⟩ := h
  refine ⟨k + m, by omega, ?_⟩
  rw [Int.add_mul, Int.add_assoc]

theorem InPhase.tail (h : InPhase period (new :: times)) : InPhase period times :=
  List.IsChain.of_cons h

/-- The newest time may be put off by whole periods. -/
theorem InPhase.skip (h : InPhase period (new :: times)) {m : Int} (hm : 0 ≤ m) :
    InPhase period ((new + m * period) :: times) := by
  cases times with
  | nil => exact List.isChain_singleton _
  | cons t times =>
    obtain ⟨hahead, hrest⟩ := List.isChain_cons_cons.mp h
    exact List.isChain_cons_cons.mpr ⟨hahead.skip hm, hrest⟩

theorem InPhase.next (h : InPhase period (new :: times)) :
    InPhase period ((new + period) :: new :: times) :=
  List.isChain_cons_cons.mpr ⟨⟨1, Int.one_pos, by rw [Int.one_mul]⟩, h⟩

/-- The multiples of a history newest first: falling, down to 0. -/
theorem InPhase.falling (h : InPhase period (new :: times)) :
    ∃ (first : Int) (k : Int) (ks : List Int), (k :: ks).IsChain (· > ·) ∧
      (k :: ks).getLast (List.cons_ne_nil _ _) = 0 ∧
      new :: times = (k :: ks).map fun j => first + j * period := by
  induction times generalizing new with
  | nil => exact ⟨new, 0, [], List.isChain_singleton _, rfl, by simp⟩
  | cons t times ih =>
    obtain ⟨⟨m, hm, rfl⟩, hrest⟩ := List.isChain_cons_cons.mp h
    obtain ⟨first, k, ks, hchain, hlast, heq⟩ := ih hrest
    refine ⟨first, k + m, k :: ks, List.isChain_cons_cons.mpr ⟨by omega, hchain⟩, ?_, ?_⟩
    · rw [List.getLast_cons (List.cons_ne_nil _ _)]
      exact hlast
    · have hk : t = first + k * period := by
        rw [List.map_cons] at heq
        exact (List.cons.inj heq).1
      rw [List.map_cons, ← heq, hk]
      congr 1
      ring

/-- Read oldest first: the first time, then strictly growing multiples after it. -/
theorem InPhase.multiples (h : InPhase period times) {first : Int} {rest : List Int}
    (heq : times.reverse = first :: rest) :
    ∃ ks : List Int, rest = ks.map (fun k => first + k * period) ∧ (0 :: ks).Pairwise (· < ·) := by
  cases times with
  | nil => simp at heq
  | cons t times =>
    obtain ⟨origin, k, ks, hchain, hlast, hmap⟩ := h.falling
    obtain ⟨js, hjs⟩ : ∃ js, (k :: ks).reverse = 0 :: js := by
      refine ⟨(k :: ks).dropLast.reverse, ?_⟩
      rw [← List.dropLast_append_getLast (List.cons_ne_nil k ks), hlast]
      simp
    have hpair : (0 :: js).Pairwise (· < ·) := by
      rw [← hjs, List.pairwise_reverse]
      exact List.isChain_iff_pairwise.mp hchain
    rw [hmap, ← List.map_reverse, hjs, List.map_cons] at heq
    obtain ⟨hfirst, hrest⟩ := List.cons.inj heq
    have horigin : origin = first := by
      rw [← hfirst, Int.zero_mul, Int.add_zero]
    exact ⟨js, by rw [← hrest, horigin], hpair⟩

end Arinc.Phase
