import Mathlib.Data.Nat.Bitwise

/-!
# Exclusive or of natural numbers

Exclusive or moves a number by no more than what it is taken with, and by no less than the highest bit of
that without the bits below it. Below a power of two it stays below it.
-/

namespace Nat

theorem xor_le_add (a b : Nat) : a ^^^ b ≤ a + b := by
  induction a using Nat.strongRecOn generalizing b with
  | ind a ih =>
      cases a with
      | zero => rw [Nat.zero_xor, Nat.zero_add]
      | succ a =>
          have hhalf := ih ((a + 1) / 2) (by omega) (b / 2)
          have hbit : ((a + 1) ^^^ b) % 2 = (a + 1 + b) % 2 := xor_mod_two_eq
          rw [← Nat.xor_div_two] at hhalf
          omega

/-- A number comes back from its exclusive or. -/
theorem le_xor_add (a b : Nat) : a ≤ (a ^^^ b) + b := by
  have h := xor_le_add (a ^^^ b) b
  rwa [Nat.xor_xor_cancel_right] at h

/-- Taking the exclusive or with a number of `k + 1` bits moves by its highest bit at least, less what the
others can take back. -/
theorem two_pow_le_xor_distance {k low : Nat} (hlow : low < 2 ^ k) (a : Nat) :
    a + 2 ^ k ≤ (a ^^^ (2 ^ k + low)) + low ∨ (a ^^^ (2 ^ k + low)) + 2 ^ k ≤ a + low := by
  have hmask : (2 ^ k + low) / 2 ^ k = 1 ∧ (2 ^ k + low) % 2 ^ k = low := by
    rw [Nat.add_mod_left, Nat.mod_eq_of_lt hlow, Nat.add_div_left _ (Nat.two_pow_pos k),
      Nat.div_eq_of_lt hlow]
    exact ⟨rfl, rfl⟩
  have hhigh : (a ^^^ (2 ^ k + low)) / 2 ^ k = a / 2 ^ k ^^^ 1 := by rw [Nat.xor_div_two_pow, hmask.1]
  have hrest : (a ^^^ (2 ^ k + low)) % 2 ^ k = a % 2 ^ k ^^^ low := by rw [Nat.xor_mod_two_pow, hmask.2]
  have hup := xor_le_add (a % 2 ^ k) low
  have hdown := le_xor_add (a % 2 ^ k) low
  have hdiv := Nat.div_add_mod a (2 ^ k)
  have hdiv' := Nat.div_add_mod (a ^^^ (2 ^ k + low)) (2 ^ k)
  rw [hhigh, hrest] at hdiv'
  have hflip : a / 2 ^ k ^^^ 1 = a / 2 ^ k + 1 ∨ (a / 2 ^ k ^^^ 1) + 1 = a / 2 ^ k := by
    have hbit : (a / 2 ^ k ^^^ 1) % 2 = (a / 2 ^ k + 1) % 2 := xor_mod_two_eq
    have hhalf : (a / 2 ^ k ^^^ 1) / 2 = a / 2 ^ k / 2 ^^^ 1 / 2 := Nat.xor_div_two
    rw [show 1 / 2 = 0 from rfl, Nat.xor_zero] at hhalf
    omega
  obtain hflip | hflip := hflip
  · left
    rw [hflip, Nat.mul_add, Nat.mul_one] at hdiv'
    omega
  · right
    rw [← hflip, Nat.mul_add, Nat.mul_one] at hdiv
    omega

/-- The exclusive or of numbers of two digits is taken digit by digit. -/
theorem xor_two_pow_mul_add {k x y : Nat} (hx : x < 2 ^ k) (hy : y < 2 ^ k) (a b : Nat) :
    (a * 2 ^ k + x) ^^^ (b * 2 ^ k + y) = (a ^^^ b) * 2 ^ k + (x ^^^ y) := by
  have hdigits {c z : Nat} (hz : z < 2 ^ k) :
      (c * 2 ^ k + z) / 2 ^ k = c ∧ (c * 2 ^ k + z) % 2 ^ k = z := by
    rw [Nat.mul_comm, Nat.mul_add_div (Nat.two_pow_pos k), Nat.div_eq_of_lt hz, Nat.mul_add_mod,
      Nat.mod_eq_of_lt hz]
    exact ⟨rfl, rfl⟩
  have hsplit := Nat.div_add_mod ((a * 2 ^ k + x) ^^^ (b * 2 ^ k + y)) (2 ^ k)
  rw [Nat.xor_div_two_pow, Nat.xor_mod_two_pow, (hdigits hx).1, (hdigits hx).2, (hdigits hy).1,
    (hdigits hy).2] at hsplit
  rw [← hsplit, Nat.mul_comm]

theorem xor_lt_two_pow_iff {k a b : Nat} (hb : b < 2 ^ k) : a ^^^ b < 2 ^ k ↔ a < 2 ^ k := by
  constructor
  · intro h
    have := Nat.xor_lt_two_pow h hb
    rwa [Nat.xor_xor_cancel_right] at this
  · intro h
    exact Nat.xor_lt_two_pow h hb

end Nat
