import Mathlib.Data.List.Forall2

/- Computations that may throw. Where one has come to an end, each of its parts has, and
   a loop that has come to an end went through all its rounds; what holds at its
   beginning and is kept by a round holds behind it. -/
namespace Arinc.Throwing

universe u v w
variable {ε : Type u} {α β : Type v} {σ : Type w}

theorem of_bind_ok {x : Except ε α} {f : α → Except ε β} {b : β} (h : x.bind f = .ok b) :
    ∃ a, x = .ok a ∧ f a = .ok b := by
  cases x with
  | error failure => cases h
  | ok a => exact ⟨a, rfl, h⟩

theorem of_map_ok {x : Except ε α} {f : α → β} {b : β} (h : x.map f = .ok b) :
    ∃ a, x = .ok a ∧ f a = b := by
  cases x with
  | error failure => cases h
  | ok a => exact ⟨a, rfl, Except.ok.inj h⟩

theorem of_mapM_ok {f : α → Except ε β} {xs : List α} {ys : List β} (h : xs.mapM f = .ok ys) :
    List.Forall₂ (fun x y => f x = .ok y) xs ys := by
  induction xs generalizing ys with
  | nil =>
    obtain rfl := Except.ok.inj h
    exact .nil
  | cons x xs ih =>
    rw [List.mapM_cons] at h
    obtain ⟨y, hy, hrest⟩ := of_bind_ok h
    obtain ⟨ys', hys, hcons⟩ := of_bind_ok hrest
    obtain rfl := Except.ok.inj hcons
    exact .cons hy (ih hys)

theorem map_of_mapM_ok {γ : Type*} {f : α → Except ε β} {g : β → γ} {g' : α → γ}
    (hround : ∀ {x y}, f x = .ok y → g y = g' x) {xs : List α} {ys : List β}
    (h : xs.mapM f = .ok ys) : ys.map g = xs.map g' := by
  have hrounds := of_mapM_ok h
  clear h
  induction hrounds with
  | nil => rfl
  | cons hx _ ih => rw [List.map_cons, List.map_cons, hround hx, ih]

theorem exists_of_mem_right {R : α → β → Prop} {xs : List α} {ys : List β}
    (h : List.Forall₂ R xs ys) {y : β} (hy : y ∈ ys) : ∃ x ∈ xs, R x y := by
  induction h with
  | nil => cases hy
  | cons hxy _ ih =>
    obtain rfl | hy := List.mem_cons.mp hy
    · exact ⟨_, List.mem_cons_self, hxy⟩
    · obtain ⟨x, hx, hround⟩ := ih hy
      exact ⟨x, List.mem_cons_of_mem _ hx, hround⟩

/-- Each result comes from an element, -/
theorem exists_of_mem_results {f : α → Except ε β} {xs : List α} {ys : List β}
    (h : xs.mapM f = .ok ys) {y : β} (hy : y ∈ ys) : ∃ x ∈ xs, f x = .ok y :=
  exists_of_mem_right (of_mapM_ok h) hy

/-- and each element has one. -/
theorem exists_of_mem_elements {f : α → Except ε β} {xs : List α} {ys : List β}
    (h : xs.mapM f = .ok ys) {x : α} (hx : x ∈ xs) : ∃ y ∈ ys, f x = .ok y :=
  exists_of_mem_right (of_mapM_ok h).flip hx

section
variable {f : σ → α → Except ε σ} {xs : List α} {s t : σ}

theorem of_foldlM_ok {I : List α → σ → Prop} (hs : I [] s)
    (hround : ∀ {before x s t}, I before s → f s x = .ok t → I (before ++ [x]) t)
    (h : xs.foldlM f s = .ok t) : I xs t := by
  have hrest (before xs : List α) {s : σ} (hs : I before s) (h : xs.foldlM f s = .ok t) :
      I (before ++ xs) t := by
    induction xs generalizing before s with
    | nil =>
      obtain rfl := Except.ok.inj h
      rwa [List.append_nil]
    | cons x xs ih =>
      rw [List.foldlM_cons] at h
      obtain ⟨s', hx, hrest⟩ := of_bind_ok h
      rw [← List.singleton_append, ← List.append_assoc]
      exact ih (before ++ [x]) (hround hs hx) hrest
  exact hrest [] xs hs h

end

end Arinc.Throwing
