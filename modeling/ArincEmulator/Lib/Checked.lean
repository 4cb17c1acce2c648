import Mathlib.Algebra.Ring.Int.Defs

/- Machine integers with a sign, as integers whose operations fail where the result
   has no representation. A computation that comes to a value has overflowed nowhere,
   and its value is the one that the operations have on the integers. -/
namespace Arinc.Checked

/-- `x` is represented in `w` bits. -/
def Fits (w : Nat) (x : Int) : Prop := -2 ^ (w - 1) ≤ x ∧ x < 2 ^ (w - 1)

instance (w : Nat) (x : Int) : Decidable (Fits w x) := inferInstanceAs (Decidable (_ ∧ _))

/-- The result `x` of an operation on `w` bits. -/
def fit (w : Nat) (x : Int) : Option Int := if Fits w x then some x else none

theorem fit_of_fits {w : Nat} {x : Int} (h : Fits w x) : fit w x = some x := if_pos h

theorem fit_eq_some_iff {w : Nat} {x y : Int} : fit w x = some y ↔ Fits w x ∧ x = y := by
  unfold fit
  split
  · rename_i h
    simp [h]
  · rename_i h
    simp [h]

theorem Fits.between {w : Nat} {x y z : Int} (hx : Fits w x) (hz : Fits w z) (hxy : x ≤ y)
    (hyz : y ≤ z) : Fits w y :=
  ⟨Int.le_trans hx.1 hxy, Int.lt_of_le_of_lt hyz hz.2⟩

theorem fits_64_iff {x : Int} :
    Fits 64 x ↔ -9223372036854775808 ≤ x ∧ x < 9223372036854775808 := Iff.rfl

end Arinc.Checked
