import Ratum.Base.Xor
import Mathlib.Tactic.Ring

/-!
# The numbers big-endian bytes write

Byte strings of one length are ordered as the numbers they write, and the exclusive or byte by byte writes
the exclusive or of the numbers.
-/

namespace BigEndian

def value : List UInt8 → Nat
  | [] => 0
  | b :: bs => b.toNat * 2 ^ (8 * bs.length) + value bs

@[simp] theorem value_cons (b : UInt8) (bs : List UInt8) :
    value (b :: bs) = b.toNat * 2 ^ (8 * bs.length) + value bs := rfl

theorem value_lt (bs : List UInt8) : value bs < 2 ^ (8 * bs.length) := by
  induction bs with
  | nil => exact Nat.one_pos
  | cons b bs ih =>
      have hb : b.toNat + 1 ≤ 2 ^ 8 := b.toNat_lt
      have hpow : 2 ^ (8 * (b :: bs).length) = 2 ^ 8 * 2 ^ (8 * bs.length) := by
        rw [List.length_cons, ← Nat.pow_add]
        congr 1
        omega
      calc value (b :: bs) < (b.toNat + 1) * 2 ^ (8 * bs.length) := by
            rw [value_cons, Nat.add_mul, Nat.one_mul]
            omega
        _ ≤ 2 ^ (8 * (b :: bs).length) := hpow ▸ Nat.mul_le_mul_right _ hb

theorem value_append_singleton (bs : List UInt8) (b : UInt8) :
    value (bs ++ [b]) = value bs * 256 + b.toNat := by
  induction bs with
  | nil => simp [value]
  | cons a bs ih =>
      rw [List.cons_append, value_cons, value_cons, ih, List.length_append, List.length_singleton,
        Nat.mul_add, Nat.pow_add]
      ring

/-- The order of the first bytes decides, and that of the rest when they are one. -/
theorem value_cons_lt_iff {a b : UInt8} {as bs : List UInt8} (hlen : as.length = bs.length) :
    value (a :: as) < value (b :: bs) ↔ a < b ∨ a = b ∧ value as < value bs := by
  have has := value_lt as
  have hbs := value_lt bs
  rw [value_cons, value_cons, hlen, UInt8.lt_iff_toNat_lt, ← UInt8.toNat_inj]
  rw [hlen] at has
  generalize 2 ^ (8 * bs.length) = radix at has hbs
  rcases lt_trichotomy a.toNat b.toNat with hlt | heq | hgt
  · have hmul : (a.toNat + 1) * radix ≤ b.toNat * radix := Nat.mul_le_mul_right _ hlt
    rw [Nat.add_mul, Nat.one_mul] at hmul
    omega
  · rw [heq]
    omega
  · have hmul : (b.toNat + 1) * radix ≤ a.toNat * radix := Nat.mul_le_mul_right _ hgt
    rw [Nat.add_mul, Nat.one_mul] at hmul
    omega

/-- **Bytes of one length are ordered as the numbers they write.** -/
theorem value_lt_value_iff {as bs : List UInt8} (hlen : as.length = bs.length) :
    value as < value bs ↔ as < bs := by
  induction as generalizing bs with
  | nil =>
      obtain rfl := List.length_eq_zero_iff.mp hlen.symm
      simp
  | cons a as ih =>
      cases bs with
      | nil => cases hlen
      | cons b bs =>
          rw [List.length_cons, List.length_cons, Nat.add_right_cancel_iff] at hlen
          rw [value_cons_lt_iff hlen, List.cons_lt_cons_iff, ih hlen]

theorem value_le_value_iff {as bs : List UInt8} (hlen : as.length = bs.length) :
    value as ≤ value bs ↔ as ≤ bs := by
  rw [← Nat.not_lt, value_lt_value_iff hlen.symm]
  rfl

/-- **The exclusive or of the bytes is that of the numbers.** -/
theorem value_zipWith_xor {as bs : List UInt8} (hlen : as.length = bs.length) :
    value (List.zipWith (· ^^^ ·) as bs) = value as ^^^ value bs := by
  induction as generalizing bs with
  | nil =>
      obtain rfl := List.length_eq_zero_iff.mp hlen.symm
      rfl
  | cons a as ih =>
      cases bs with
      | nil => cases hlen
      | cons b bs =>
          rw [List.length_cons, List.length_cons, Nat.add_right_cancel_iff] at hlen
          have has := value_lt as
          rw [hlen] at has
          rw [List.zipWith_cons_cons, value_cons, value_cons, value_cons, ih hlen, List.length_zipWith, hlen,
            Nat.min_self, UInt8.toNat_xor, Nat.xor_two_pow_mul_add has (value_lt bs)]

theorem value_append (as bs : List UInt8) : value (as ++ bs) = value as * 2 ^ (8 * bs.length) + value bs := by
  induction as with
  | nil => simp [value]
  | cons a as ih =>
      rw [List.cons_append, value_cons, value_cons, ih, List.length_append, Nat.mul_add, Nat.pow_add]
      ring

theorem value_eq_zero_iff {bs : List UInt8} : value bs = 0 ↔ ∀ b ∈ bs, b = 0 := by
  induction bs with
  | nil => simp [value]
  | cons b bs ih =>
      have hpow := Nat.two_pow_pos (8 * bs.length)
      rw [value_cons, Nat.add_eq_zero_iff, Nat.mul_eq_zero, ih, List.forall_mem_cons, ← UInt8.toNat_inj]
      exact and_congr_left fun _ => or_iff_left hpow.ne'

theorem value_replicate_zero (n : Nat) : value (List.replicate n 0) = 0 :=
  value_eq_zero_iff.mpr fun _ => List.eq_of_mem_replicate

/-- A byte set where there was none, at a distance from the end. -/
theorem value_set {bs : List UInt8} {i : Nat} (hi : i < bs.length) (hzero : bs[i] = 0) (b : UInt8) :
    value (bs.set i b) = value bs + b.toNat * 2 ^ (8 * (bs.length - 1 - i)) := by
  induction bs generalizing i with
  | nil => cases hi
  | cons a bs ih =>
      cases i with
      | zero =>
          rw [List.getElem_cons_zero] at hzero
          rw [List.set_cons_zero, value_cons, value_cons, hzero, UInt8.toNat_zero, Nat.zero_mul, Nat.zero_add,
            Nat.add_comm]
          rfl
      | succ i =>
          rw [List.length_cons, Nat.add_lt_add_iff_right] at hi
          rw [List.getElem_cons_succ] at hzero
          rw [List.set_cons_succ, value_cons, value_cons, ih hi hzero, List.length_set, List.length_cons,
            Nat.add_assoc]
          congr 5
          omega

/-- One byte among zeros. -/
theorem value_set_replicate {n i : Nat} (hi : i < n) (b : UInt8) :
    value ((List.replicate n 0).set i b) = b.toNat * 2 ^ (8 * (n - 1 - i)) := by
  rw [value_set (by rwa [List.length_replicate]) (List.getElem_replicate ..), value_replicate_zero, Nat.zero_add,
    List.length_replicate]

/-! ### Shifts by fewer bits than a byte has -/

/-- A byte shifted left, with the high bits of the next. -/
def shiftByte (k : Nat) (high low : UInt8) : UInt8 :=
  if k = 0 then high else high <<< UInt8.ofNat k ||| low >>> UInt8.ofNat (8 - k)

def shiftBits (k : Nat) : List UInt8 → List UInt8
  | [] => []
  | b :: bs => shiftByte k b (bs.headD 0) :: shiftBits k bs

@[simp] theorem length_shiftBits (k : Nat) (bs : List UInt8) : (shiftBits k bs).length = bs.length := by
  induction bs with
  | nil => rfl
  | cons b bs ih => rw [shiftBits, List.length_cons, ih, List.length_cons]

theorem getD_shiftBits (k : Nat) {bs : List UInt8} {i : Nat} (hi : i < bs.length) :
    (shiftBits k bs).getD i 0 = shiftByte k (bs.getD i 0) (bs.getD (i + 1) 0) := by
  induction bs generalizing i with
  | nil => cases hi
  | cons b bs ih =>
      cases i with
      | zero => cases bs <;> rfl
      | succ i => exact ih (Nat.lt_of_succ_lt_succ hi)

/-- The bits that leave a byte go to the one before it. -/
theorem toNat_shiftByte {k : Nat} (hk : k < 8) (high low : UInt8) :
    (shiftByte k high low).toNat + high.toNat / 2 ^ (8 - k) * 2 ^ 8 =
      high.toNat * 2 ^ k + low.toNat / 2 ^ (8 - k) := by
  have hhigh := high.toNat_lt
  have hlow := low.toNat_lt
  rw [shiftByte]
  split
  · subst k
    rw [Nat.sub_zero, Nat.div_eq_of_lt hhigh, Nat.div_eq_of_lt hlow]
    omega
  · rename_i hpos
    have hsplit : 2 ^ 8 = 2 ^ k * 2 ^ (8 - k) := by
      rw [← Nat.pow_add]
      congr 1
      omega
    have hleft : (high <<< UInt8.ofNat k).toNat = 2 ^ k * (high.toNat % 2 ^ (8 - k)) := by
      rw [UInt8.toNat_shiftLeft, UInt8.toNat_ofNat', Nat.mod_eq_of_lt (by omega : k < 2 ^ 8),
        Nat.mod_eq_of_lt hk, Nat.shiftLeft_eq, Nat.mul_comm, hsplit, Nat.mul_mod_mul_left]
    have hright : (low >>> UInt8.ofNat (8 - k)).toNat = low.toNat / 2 ^ (8 - k) := by
      rw [UInt8.toNat_shiftRight, UInt8.toNat_ofNat', Nat.mod_eq_of_lt (by omega : 8 - k < 2 ^ 8),
        Nat.mod_eq_of_lt (by omega : 8 - k < 8), Nat.shiftRight_eq_div_pow]
    have hfits : low.toNat / 2 ^ (8 - k) < 2 ^ k := by
      rw [Nat.div_lt_iff_lt_mul (Nat.two_pow_pos _), ← hsplit]
      exact hlow
    rw [UInt8.toNat_or, hleft, hright, ← Nat.two_pow_add_eq_or_of_lt hfits, hsplit]
    calc 2 ^ k * (high.toNat % 2 ^ (8 - k)) + low.toNat / 2 ^ (8 - k) +
          high.toNat / 2 ^ (8 - k) * (2 ^ k * 2 ^ (8 - k))
        = 2 ^ k * (2 ^ (8 - k) * (high.toNat / 2 ^ (8 - k)) + high.toNat % 2 ^ (8 - k)) +
          low.toNat / 2 ^ (8 - k) := by ring
      _ = high.toNat * 2 ^ k + low.toNat / 2 ^ (8 - k) := by rw [Nat.div_add_mod, Nat.mul_comm]

/-- **The bytes shifted, and the bits that left them, are the number shifted.** -/
theorem value_shiftBits {k : Nat} (hk : k < 8) (bs : List UInt8) :
    value (shiftBits k bs) + (bs.headD 0).toNat / 2 ^ (8 - k) * 2 ^ (8 * bs.length) = value bs * 2 ^ k := by
  induction bs with
  | nil => simp [shiftBits, value]
  | cons b bs ih =>
      have hbyte := toNat_shiftByte hk b (bs.headD 0)
      rw [shiftBits, value_cons, length_shiftBits, List.headD_cons, value_cons, List.length_cons, Nat.mul_succ,
        Nat.pow_add]
      calc (shiftByte k b (bs.headD 0)).toNat * 2 ^ (8 * bs.length) + value (shiftBits k bs) +
            b.toNat / 2 ^ (8 - k) * (2 ^ (8 * bs.length) * 2 ^ 8)
          = ((shiftByte k b (bs.headD 0)).toNat + b.toNat / 2 ^ (8 - k) * 2 ^ 8) * 2 ^ (8 * bs.length) +
            value (shiftBits k bs) := by ring
        _ = b.toNat * 2 ^ k * 2 ^ (8 * bs.length) +
            (value (shiftBits k bs) + (bs.headD 0).toNat / 2 ^ (8 - k) * 2 ^ (8 * bs.length)) := by
          rw [hbyte]
          ring
        _ = (b.toNat * 2 ^ (8 * bs.length) + value bs) * 2 ^ k := by
          rw [ih]
          ring

end BigEndian
