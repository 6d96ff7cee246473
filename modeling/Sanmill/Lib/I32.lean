import Sanmill.Lib.Numerals

/-!
# Signed 32-bit scores

Scores are integers here, and each operation that can leave the range of `i32`
goes through `wrapI32` (two's complement, as in a release build) or
`saturateI32`. Inside the range both are the identity, which is all a search
with sane scores ever needs.
-/

namespace Sanmill

/-- `i32::MIN`. -/
def i32Min : Int := -2147483648

/-- `i32::MAX`. -/
def i32Max : Int := 2147483647

/-- Two's-complement wrap-around. -/
def wrapI32 (x : Int) : Int := Int.bmod x 4294967296

/-- Clamp to the range of `i32`. -/
def saturateI32 (x : Int) : Int := max i32Min (min i32Max x)

theorem wrapI32_of_range {x : Int} (hlo : i32Min ≤ x) (hhi : x ≤ i32Max) : wrapI32 x = x := by
  unfold i32Min at hlo
  unfold i32Max at hhi
  unfold wrapI32
  rw [Int.bmod_def]
  split <;> omega

theorem saturateI32_of_range {x : Int} (hlo : i32Min ≤ x) (hhi : x ≤ i32Max) :
    saturateI32 x = x := by
  unfold saturateI32
  omega

/-- Negation leaves the range only at `i32::MIN`. -/
theorem wrapI32_neg {x : Int} (hlo : i32Min < x) (hhi : x ≤ i32Max) : wrapI32 (-x) = -x := by
  unfold i32Min at hlo
  unfold i32Max at hhi
  refine wrapI32_of_range ?_ ?_
  · unfold i32Min
    omega
  · unfold i32Max
    omega

end Sanmill
