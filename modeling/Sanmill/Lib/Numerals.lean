import Mathlib.Algebra.Group.Int.Defs
import Mathlib.Algebra.Group.Nat.Defs
import Mathlib.Algebra.Ring.Int.Defs
import Mathlib.Algebra.Ring.Nat

/-!
# Numerals of the fixed sizes

Sides, slots, symmetries, nodes and squares are numbers below a fixed size. The instances are
named, so that a numeral is the same term in every module.
-/

namespace Sanmill

instance neZeroTwo : NeZero 2 := ⟨by decide⟩

instance neZeroFour : NeZero 4 := ⟨by decide⟩

instance neZeroEight : NeZero 8 := ⟨by decide⟩

instance neZeroSixteen : NeZero 16 := ⟨by decide⟩

instance neZeroTwentyFour : NeZero 24 := ⟨by decide⟩

instance neZeroSixtyFour : NeZero 64 := ⟨by decide⟩

/-! Texts and nodes are compared for equality. -/

instance lawfulBEqText : LawfulBEq (List Char) := inferInstance

instance lawfulBEqNode : LawfulBEq (Fin 24) := inferInstance

end Sanmill
