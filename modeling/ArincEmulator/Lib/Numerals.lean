import Mathlib.Algebra.GroupWithZero.Nat

/- Numerals of the small types `Fin n`, whose elements name the threads of a run or the
   states of a machine that is written out. That such a type is not empty is one
   constant here, found before the proof by successor, so that a numeral is one term
   wherever it stands. -/
namespace Arinc.Numerals

instance (priority := 2000) neZero_one : NeZero (1 : Nat) := ⟨by decide⟩
instance (priority := 2000) neZero_two : NeZero (2 : Nat) := ⟨by decide⟩
instance (priority := 2000) neZero_three : NeZero (3 : Nat) := ⟨by decide⟩
instance (priority := 2000) neZero_four : NeZero (4 : Nat) := ⟨by decide⟩
instance (priority := 2000) neZero_six : NeZero (6 : Nat) := ⟨by decide⟩
instance (priority := 2000) neZero_seven : NeZero (7 : Nat) := ⟨by decide⟩

end Arinc.Numerals
