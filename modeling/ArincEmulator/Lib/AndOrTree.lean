import Mathlib.Data.List.Chain

/- A tree of states and regions, and a selection of one state in each region. A
   state has any number of regions, a region any number of states; what the
   selection reaches from the root is the active configuration. The tree is given
   by the region of each state and the owner of each region, and nothing is said
   about how many there are. The main fact is what becomes of the configuration
   when the selection changes below one place (`active_update`). -/
namespace Arinc.AndOrTree

/-- States `S` and regions `R`. The depth is there to make it a tree. -/
structure Tree (S R : Type*) where
  root : S
  region : S → Option R
  owner : R → S
  depth : S → Nat
  region_root : region root = none
  eq_root : ∀ {s}, region s = none → s = root
  depth_child : ∀ {s r}, region s = some r → depth s = depth (owner r) + 1

variable {S R : Type*} {t : Tree S R}

/-- `x` is `a` or lies below it. -/
inductive Below (t : Tree S R) (a : S) : S → Prop
  | refl : Below t a a
  | child {x : S} {r : R} : t.region x = some r → Below t a (t.owner r) → Below t a x

/-- `x` lies in region `r`, directly or deeper. -/
def UnderRegion (t : Tree S R) (r : R) (x : S) : Prop := ∃ y, t.region y = some r ∧ Below t y x

namespace Below
variable {a b x : S}

theorem trans (h : Below t a b) (hx : Below t b x) : Below t a x := by
  induction hx with
  | refl => exact h
  | child hr _ ih => exact .child hr ih

theorem depth_le (h : Below t a x) : t.depth a ≤ t.depth x := by
  induction h with
  | refl => exact Nat.le_refl _
  | child hr _ ih =>
    rw [t.depth_child hr]
    omega

theorem eq_or_owner (h : Below t a x) : x = a ∨ ∃ r, t.region x = some r ∧ Below t a (t.owner r) := by
  cases h with
  | refl => exact Or.inl rfl
  | child hr h => exact Or.inr ⟨_, hr, h⟩

/-- Above `x` there is one state at each depth. -/
theorem eq_of_depth (ha : Below t a x) (hb : Below t b x) (hd : t.depth a = t.depth b) : a = b := by
  induction ha with
  | refl =>
    rcases hb.eq_or_owner with rfl | ⟨r, hr, hb⟩
    · rfl
    · have hle := hb.depth_le
      rw [t.depth_child hr] at hd
      omega
  | child hr ha ih =>
    rcases hb.eq_or_owner with rfl | ⟨r, hr', hb⟩
    · have hle := ha.depth_le
      rw [t.depth_child hr] at hd
      omega
    · obtain rfl := Option.some.inj (hr.symm.trans hr')
      exact ih hb

theorem antisymm (h : Below t a b) (h' : Below t b a) : a = b :=
  h.eq_of_depth .refl (Nat.le_antisymm h.depth_le h'.depth_le)

end Below

theorem below_root (t : Tree S R) (x : S) : Below t t.root x := by
  cases hr : t.region x with
  | none =>
    obtain rfl := t.eq_root hr
    exact .refl
  | some r => exact .child hr (below_root t (t.owner r))
termination_by t.depth x
decreasing_by
  rw [t.depth_child hr]
  exact Nat.lt_succ_self _

theorem not_below_owner {r : R} {x : S} (hx : t.region x = some r) : ¬ Below t x (t.owner r) := by
  intro h
  have hle := h.depth_le
  rw [t.depth_child hx] at hle
  exact absurd hle (Nat.not_succ_le_self _)

theorem not_underRegion_owner (r : R) : ¬ UnderRegion t r (t.owner r) := by
  rintro ⟨y, hy, h⟩
  exact not_below_owner hy h

/-- Two states of one owner's regions have nothing below both, unless they are one. -/
theorem eq_of_below_siblings {a b x : S} {r q : R} (ha : t.region a = some r)
    (hb : t.region b = some q) (howner : t.owner r = t.owner q) (hax : Below t a x)
    (hbx : Below t b x) : a = b := by
  apply hax.eq_of_depth hbx
  rw [t.depth_child ha, t.depth_child hb, howner]

/-- Nor have two regions of one owner, unless they are one. -/
theorem eq_of_underRegion {x : S} {r q : R} (howner : t.owner r = t.owner q)
    (hr : UnderRegion t r x) (hq : UnderRegion t q x) : r = q := by
  obtain ⟨a, ha, hax⟩ := hr
  obtain ⟨b, hb, hbx⟩ := hq
  obtain rfl := eq_of_below_siblings ha hb howner hax hbx
  exact Option.some.inj (ha.symm.trans hb)

theorem UnderRegion.below_owner {x : S} {r : R} (h : UnderRegion t r x) : Below t (t.owner r) x := by
  obtain ⟨y, hy, hb⟩ := h
  exact (Below.child hy .refl).trans hb

/-- What has a child in a region is below the owner of the region. -/
theorem UnderRegion.below_owner_of_region {x : S} {r q : R} (h : UnderRegion t r x)
    (hx : t.region x = some q) : Below t (t.owner r) (t.owner q) := by
  obtain ⟨y, hy, hb⟩ := h
  rcases hb.eq_or_owner with rfl | ⟨p, hp, hb⟩
  · obtain rfl := Option.some.inj (hy.symm.trans hx)
    exact .refl
  · obtain rfl := Option.some.inj (hp.symm.trans hx)
    exact (Below.child hy .refl).trans hb

theorem UnderRegion.trans {a x : S} {r : R} (h : UnderRegion t r a) (hx : Below t a x) :
    UnderRegion t r x := by
  obtain ⟨y, hy, hb⟩ := h
  exact ⟨y, hy, hb.trans hx⟩

theorem below_iff {a x : S} : Below t a x ↔ x = a ∨ ∃ r, t.owner r = a ∧ UnderRegion t r x := by
  constructor
  · intro h
    induction h with
    | refl => exact Or.inl rfl
    | child hr _ ih =>
      rcases ih with howner | ⟨q, hq, y, hy, hb⟩
      · exact Or.inr ⟨_, howner, _, hr, .refl⟩
      · exact Or.inr ⟨q, hq, y, hy, .child hr hb⟩
  · rintro (rfl | ⟨r, rfl, h⟩)
    · exact .refl
    · exact h.below_owner

/-- Each state of the list is a child of the one before it. -/
def Path (t : Tree S R) (l : List S) : Prop :=
  l.IsChain fun a b => ∃ r, t.region b = some r ∧ t.owner r = a

theorem Path.below {a x : S} {l : List S} (h : Path t (a :: l)) (hx : x ∈ l) : Below t a x := by
  induction l generalizing a with
  | nil => cases hx
  | cons b l ih =>
    obtain ⟨⟨r, hr, howner⟩, hrest⟩ := List.isChain_cons_cons.mp h
    have hab : Below t a b := .child hr (howner ▸ .refl)
    rcases List.mem_cons.mp hx with rfl | hx
    · exact hab
    · exact hab.trans (ih hrest hx)

theorem Path.below_last {l : List S} {x y : S} (hpath : Path t l) (hlast : l.getLast? = some y)
    (hx : x ∈ l) : Below t x y := by
  induction l with
  | nil => cases hx
  | cons a l ih =>
    cases l with
    | nil =>
      obtain rfl := List.mem_singleton.mp hx
      obtain rfl := Option.some.inj hlast
      exact .refl
    | cons b l =>
      rw [List.getLast?_cons_cons] at hlast
      rcases List.mem_cons.mp hx with rfl | hx
      · exact Path.below hpath (List.mem_of_getLast? hlast)
      · exact ih (List.isChain_cons_cons.mp hpath).2 hlast hx

/-! ## Selections -/

/-- The state selected in a region is one of its states. -/
def Proper (t : Tree S R) (sel : R → Option S) : Prop :=
  ∀ r s, sel r = some s → t.region s = some r

/-- What the selection reaches from `a` down. -/
inductive Reached (t : Tree S R) (sel : R → Option S) (a : S) : S → Prop
  | refl : Reached t sel a a
  | child {x : S} {r : R} : sel r = some x → Reached t sel a (t.owner r) → Reached t sel a x

/-- The active configuration. -/
def Active (t : Tree S R) (sel : R → Option S) : S → Prop := Reached t sel t.root

variable {sel sel' : R → Option S} {a x u : S} {r : R}

namespace Reached

theorem trans (h : Reached t sel a u) (hx : Reached t sel u x) : Reached t sel a x := by
  induction hx with
  | refl => exact h
  | child hr _ ih => exact .child hr ih

theorem isBelow (hsel : Proper t sel) (h : Reached t sel a x) : Below t a x := by
  induction h with
  | refl => exact .refl
  | child hr _ ih => exact .child (hsel _ _ hr) ih

theorem selected (hsel : Proper t sel) (h : Reached t sel a x) (hne : x ≠ a)
    (hr : t.region x = some r) : sel r = some x ∧ Reached t sel a (t.owner r) := by
  cases h with
  | refl => exact absurd rfl hne
  | child hq h =>
    obtain rfl := Option.some.inj (hr.symm.trans (hsel _ _ hq))
    exact ⟨hq, h⟩

theorem congr (hsel : Proper t sel) (hsame : ∀ q, Below t a (t.owner q) → sel' q = sel q)
    (h : Reached t sel a x) : Reached t sel' a x := by
  induction h with
  | refl => exact .refl
  | child hr h ih => exact .child ((hsame _ (h.isBelow hsel)).trans hr) ih

/-- Seen from `a`: the region of `a` taken first, and the state selected there. -/
theorem iff_head : Reached t sel a x ↔
    x = a ∨ ∃ r, t.owner r = a ∧ ∃ y, sel r = some y ∧ Reached t sel y x := by
  constructor
  · intro h
    induction h with
    | refl => exact Or.inl rfl
    | child hr _ ih =>
      rcases ih with howner | ⟨q, hq, y, hy, h⟩
      · exact Or.inr ⟨_, howner, _, hr, .refl⟩
      · exact Or.inr ⟨q, hq, y, hy, .child hr h⟩
  · rintro (rfl | ⟨r, rfl, y, hy, h⟩)
    · exact .refl
    · exact (Reached.child hy .refl).trans h

theorem of_underRegion (hsel : Proper t sel) (h : Reached t sel a x) (howner : t.owner r = a)
    (hx : UnderRegion t r x) : ∃ y, sel r = some y ∧ Reached t sel y x := by
  rcases iff_head.mp h with rfl | ⟨q, hq, y, hy, h⟩
  · rw [← howner] at hx
    exact absurd hx (not_underRegion_owner r)
  · obtain rfl := eq_of_underRegion (howner.trans hq.symm) hx ⟨y, hsel _ _ hy, h.isBelow hsel⟩
    exact ⟨y, hy, h⟩

end Reached

theorem Active.selected (hsel : Proper t sel) (h : Active t sel x) (hr : t.region x = some r) :
    sel r = some x ∧ Active t sel (t.owner r) := by
  apply Reached.selected hsel h _ hr
  rintro rfl
  rw [t.region_root] at hr
  cases hr

theorem Active.ancestor (hsel : Proper t sel) (h : Active t sel x) (hb : Below t a x) :
    Active t sel a := by
  induction hb with
  | refl => exact h
  | child hr _ ih => exact ih (h.selected hsel hr).2

/-- What is active in the region of an active state is below this state. -/
theorem Active.underRegion_iff (hsel : Proper t sel) (ha : Active t sel a) (hr : t.region a = some r)
    (hx : Active t sel x) : UnderRegion t r x ↔ Below t a x := by
  constructor
  · rintro ⟨y, hy, hyx⟩
    have hyr := ((hx.ancestor hsel hyx).selected hsel hy).1
    obtain rfl := Option.some.inj ((ha.selected hsel hr).1.symm.trans hyr)
    exact hyx
  · exact fun h => ⟨a, hr, h⟩

/-- Below an active state, what is active is what is reached from it. -/
theorem reached_iff_active (hsel : Proper t sel) (ha : Active t sel a) :
    Reached t sel a x ↔ Active t sel x ∧ Below t a x := by
  constructor
  · exact fun h => ⟨Reached.trans ha h, h.isBelow hsel⟩
  · rintro ⟨hx, hb⟩
    induction hb with
    | refl => exact .refl
    | child hr _ ih =>
      obtain ⟨hsome, howner⟩ := hx.selected hsel hr
      exact .child hsome (ih howner)

/-- The selection has changed to `u` in region `r` and arbitrarily below `u`. Then
    what lies in the region is active as far as it is reached from `u`, and what
    lies elsewhere as before. -/
theorem active_update (hsel : Proper t sel) (hsel' : Proper t sel') (hr : sel' r = some u)
    (hsame : ∀ q, q ≠ r → ¬ Below t u (t.owner q) → sel' q = sel q) :
    Active t sel' x ↔ (Active t sel x ∧ ¬ UnderRegion t r x) ∨
      (Active t sel (t.owner r) ∧ Reached t sel' u x) := by
  have hu : t.region u = some r := hsel' _ _ hr
  constructor
  · intro h
    -- The induction is down the new selection: a step outside the region is a step of the old one.
    induction h with
    | refl =>
      refine Or.inl ⟨.refl, ?_⟩
      rintro ⟨y, hy, hb⟩
      rw [hb.antisymm (below_root t y), t.region_root] at hy
      cases hy
    | child hq h ih =>
      rename_i z q
      rcases ih with ⟨hold, hout⟩ | ⟨hold, hreach⟩
      · by_cases hqr : q = r
        · subst hqr
          obtain rfl := Option.some.inj (hr.symm.trans hq)
          exact Or.inr ⟨hold, .refl⟩
        · have hnot : ¬ Below t u (t.owner q) := fun hb => hout ⟨u, hu, hb⟩
          refine Or.inl ⟨.child ((hsame q hqr hnot).symm.trans hq) hold, ?_⟩
          rintro ⟨y, hy, hb⟩
          rcases hb.eq_or_owner with rfl | ⟨p, hp, hb⟩
          · exact hqr (Option.some.inj ((hsel' _ _ hq).symm.trans hy))
          · obtain rfl := Option.some.inj ((hsel' _ _ hq).symm.trans hp)
            exact hout ⟨y, hy, hb⟩
      · exact Or.inr ⟨hold, .child hq hreach⟩
  -- And the other way: what is outside the region keeps its selection.
  · have houtside : ∀ y, Active t sel y → ¬ UnderRegion t r y → Active t sel' y := by
      intro y hy hout
      induction hy with
      | refl => exact .refl
      | child hq h ih =>
        rename_i z q
        have hz := hsel _ _ hq
        have hqr : q ≠ r := fun heq => hout ⟨z, heq ▸ hz, .refl⟩
        have hnot : ¬ UnderRegion t r (t.owner q) := fun ⟨y, hy, hb⟩ => hout ⟨y, hy, .child hz hb⟩
        have hsel'q : sel' q = some z := by
          rw [hsame q hqr fun hb => hnot ⟨u, hu, hb⟩]
          exact hq
        exact .child hsel'q (ih hnot)
    rintro (⟨hx, hout⟩ | ⟨howner, hreach⟩)
    · exact houtside x hx hout
    · have hactive := houtside _ howner (not_underRegion_owner r)
      exact Reached.trans (Reached.child hr hactive) hreach

end Arinc.AndOrTree
