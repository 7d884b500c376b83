import Mathlib.Algebra.Group.Nat.Defs
import Mathlib.Data.Nat.Basic

/-!
# Fixed-width arithmetic on natural numbers

Amounts and works are natural numbers; where the source saturates or truncates to a word, so does the
model.
-/

namespace Ratum

def U64_MAX : Nat := 2 ^ 64 - 1

/-- The largest `u128`, at which an addition of works saturates. -/
def U128_MAX : Nat := 2 ^ 128 - 1

/-- `u64::saturating_add`. -/
def satAdd64 (a b : Nat) : Nat := min (a + b) U64_MAX

/-- `u128::saturating_mul`. -/
def satMul128 (a b : Nat) : Nat := min (a * b) U128_MAX

/-- `as u64`. -/
def asU64 (n : Nat) : Nat := n % (U64_MAX + 1)

theorem asU64_of_le {n : Nat} (h : n ≤ U64_MAX) : asU64 n = n := Nat.mod_eq_of_lt (by omega)

theorem satMul128_div_le {a w work : Nat} (h : w ≤ work) (hwork : 0 < work) :
    satMul128 a w / work ≤ a := by
  calc satMul128 a w / work ≤ a * w / work := Nat.div_le_div_right (Nat.min_le_left _ _)
    _ ≤ a * work / work := Nat.div_le_div_right (Nat.mul_le_mul_left a h)
    _ = a := Nat.mul_div_cancel a hwork

end Ratum
