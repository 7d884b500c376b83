import Mathlib.Algebra.Group.Nat.Defs
import Mathlib.Data.Nat.Log

/-!
# Powers of two in a word

Words that are powers of two, and the operations that keep them so: the greater of two, half of one, and one
shifted without loss.
-/

namespace UInt64

def IsPowerOfTwo (x : UInt64) : Prop := x.toNat.isPowerOfTwo

theorem toNat_shiftLeft_of_lt {x k : UInt64} (hk : k.toNat < 64)
    (hfits : x.toNat * 2 ^ k.toNat < 2 ^ 64) : (x <<< k).toNat = x.toNat * 2 ^ k.toNat := by
  rw [UInt64.toNat_shiftLeft, Nat.mod_eq_of_lt hk, Nat.shiftLeft_eq, Nat.mod_eq_of_lt hfits]

theorem toNat_shiftRight_one (x : UInt64) : (x >>> 1).toNat = x.toNat / 2 := by
  rw [UInt64.toNat_shiftRight]
  exact Nat.shiftRight_one x.toNat

namespace IsPowerOfTwo

variable {x y : UInt64}

theorem pos (h : x.IsPowerOfTwo) : 0 < x.toNat := Nat.pos_of_isPowerOfTwo h

theorem ne_zero (h : x.IsPowerOfTwo) : x ≠ 0 := by
  rintro rfl
  exact absurd h.pos (lt_irrefl 0)

theorem one : (1 : UInt64).IsPowerOfTwo := ⟨0, rfl⟩

theorem max_left (hx : x.IsPowerOfTwo) (hy : y = 0 ∨ y.IsPowerOfTwo) : (max x y).IsPowerOfTwo := by
  rw [IsPowerOfTwo, toNat_max]
  rcases hy with rfl | hy
  · rwa [UInt64.toNat_zero, Nat.max_zero]
  · rcases Nat.le_total x.toNat y.toNat with hle | hle
    · rwa [Nat.max_eq_right hle]
    · rwa [Nat.max_eq_left hle]

theorem max_right (hx : x = 0 ∨ x.IsPowerOfTwo) (hy : y.IsPowerOfTwo) : (max x y).IsPowerOfTwo := by
  have hswap : max x y = max y x := by
    rw [← UInt64.toNat_inj, toNat_max, toNat_max, Nat.max_comm]
  rw [hswap]
  exact hy.max_left hx

theorem half (hx : x.IsPowerOfTwo) : x >>> 1 = 0 ∨ (x >>> 1).IsPowerOfTwo := by
  obtain ⟨k, hk⟩ := hx
  cases k with
  | zero =>
      left
      rw [← UInt64.toNat_inj, toNat_shiftRight_one, hk]
      rfl
  | succ k =>
      right
      refine ⟨k, ?_⟩
      rw [toNat_shiftRight_one, hk, Nat.pow_succ, Nat.mul_div_cancel _ Nat.two_pos]

theorem shiftLeft {k : UInt64} (hx : x.IsPowerOfTwo) (hk : k.toNat < 64)
    (hfits : x.toNat * 2 ^ k.toNat < 2 ^ 64) : (x <<< k).IsPowerOfTwo := by
  obtain ⟨j, hj⟩ := hx
  refine ⟨j + k.toNat, ?_⟩
  rw [toNat_shiftLeft_of_lt hk hfits, hj, Nat.pow_add]

/-- The logarithm names a power of two. -/
theorem two_pow_log2 (hx : x.IsPowerOfTwo) : 2 ^ Nat.log2 x.toNat = x.toNat := by
  obtain ⟨k, hk⟩ := hx
  rw [hk, Nat.log2_two_pow]

end IsPowerOfTwo
end UInt64
