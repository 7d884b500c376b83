import Ratum.Core.TargetBytes
import Ratum.Datum.Work

/-!
# The mask under the XOR key

The bits of the mask that are cleared from the left are those that a share's target leaves zero, so the mask
moves no hash across the target.
-/

namespace Ratum

/-! ### The mask -/

theorem clearedAt_of_lt {clearBits : UInt8} {i : Nat} (hi : 8 * (i + 1) ≤ clearBits.toNat) (b : UInt8) :
    Hashing.clearedAt clearBits i b = 0 := if_pos (by omega)

/-- The byte the cleared bits end in has the bits that are left. -/
theorem clearedAt_lt {clearBits : UInt8} {i : Nat} (hi : 8 * i ≤ clearBits.toNat)
    (hend : clearBits.toNat < 8 * (i + 1)) (b : UInt8) :
    (Hashing.clearedAt clearBits i b).toNat < 2 ^ (8 * (i + 1) - clearBits.toNat) := by
  have hrest : 8 * (i + 1) - clearBits.toNat = 8 - clearBits.toNat % 8 := by omega
  rw [Hashing.clearedAt, if_neg (by omega), if_pos (by omega), hrest, UInt8.toNat_and]
  refine lt_of_le_of_lt Nat.and_le_right ?_
  rw [UInt8.toNat_shiftRight, UInt8.toNat_mod, show UInt8.toNat 8 = 8 from rfl, Nat.mod_mod,
    Nat.shiftRight_eq_div_pow,
    Nat.div_lt_iff_lt_mul (Nat.two_pow_pos _), ← Nat.pow_add]
  have hlt : clearBits.toNat % 8 < 8 := Nat.mod_lt _ (by omega)
  rw [UInt8.toNat_ofNat, Nat.sub_add_cancel hlt.le]
  decide

theorem value_mapIdx_clearedAt_lt (clearBits : UInt8) (bytes : Bytes) {i : Nat}
    (hi : 8 * i ≤ clearBits.toNat) (hbytes : clearBits.toNat ≤ 8 * (i + bytes.length)) :
    BigEndian.value (bytes.mapIdx fun j => Hashing.clearedAt clearBits (i + j)) <
      2 ^ (8 * (i + bytes.length) - clearBits.toNat) := by
  induction bytes generalizing i with
  | nil => exact Nat.two_pow_pos _
  | cons b bytes ih =>
      rw [List.mapIdx_cons, BigEndian.value_cons, List.length_mapIdx, Nat.add_zero]
      have hshift : (fun j => Hashing.clearedAt clearBits (i + (j + 1))) =
          fun j => Hashing.clearedAt clearBits (i + 1 + j) := by
        funext j
        rw [Nat.add_right_comm, Nat.add_assoc]
      rw [hshift]
      rw [List.length_cons] at hbytes ⊢
      rw [show i + (bytes.length + 1) = i + 1 + bytes.length by omega] at hbytes ⊢
      by_cases hnext : 8 * (i + 1) ≤ clearBits.toNat
      · rw [clearedAt_of_lt hnext, UInt8.toNat_zero, Nat.zero_mul, Nat.zero_add]
        exact ih hnext hbytes
      · have hb := clearedAt_lt hi (by omega) b
        have hrest := BigEndian.value_lt (bytes.mapIdx fun j => Hashing.clearedAt clearBits (i + 1 + j))
        rw [List.length_mapIdx] at hrest
        have hpow : 2 ^ (8 * (i + 1 + bytes.length) - clearBits.toNat) =
            2 ^ (8 * (i + 1) - clearBits.toNat) * 2 ^ (8 * bytes.length) := by
          rw [← Nat.pow_add]
          congr 1
          omega
        rw [hpow]
        refine lt_of_lt_of_le ?_ (Nat.mul_le_mul_right _ hb)
        rw [Nat.succ_mul (Hashing.clearedAt clearBits i b).toNat]
        exact Nat.add_lt_add_left hrest _

theorem clearBits_toNat {targetByte : UInt8} (htarget : targetByte ≤ 223) :
    (clearBits targetByte).toNat = 32 + targetByte.toNat := by
  have hle : targetByte.toNat ≤ 223 := htarget
  rw [clearBits, SHARE_TARGET_BASE_BITS, UInt8.toNat_ofNat']
  omega

namespace Hashing

variable (H : Hashing)

/-- A mask is below the target that leaves as many bits as it clears, and one. -/
theorem xorKeyMask_lt (key : XorKey) {targetByte : UInt8} (htarget : targetByte ≤ 223) :
    beNat (H.xorKeyMask key (clearBits targetByte)) < targetForExponent targetByte := by
  have hle : targetByte.toNat ≤ 223 := htarget
  have hclear := clearBits_toNat htarget
  rw [xorKeyMask, targetForExponent, beNat_eq]
  split
  · rw [Vector.toList_replicate, BigEndian.value_replicate_zero]
    exact Nat.two_pow_pos _
  · rw [Vector.toList_mapIdx]
    generalize H.taggedSha256 "Bitcoin block hash PoW XOR mask" key.toList = digest
    have hlen : digest.toList.length = 32 := Vector.length_toList
    have hlt := value_mapIdx_clearedAt_lt (clearBits targetByte) digest.toList (i := 0) (by omega)
      (by rw [hlen]; omega)
    simp only [Nat.zero_add, hlen, hclear] at hlt
    rw [DIFF1_EXPONENT, show 224 - targetByte.toNat = 8 * 32 - (32 + targetByte.toNat) by omega]
    exact hlt

theorem xorKeyMask_zero (clearBits : UInt8) :
    H.xorKeyMask (Vector.replicate _ 0) clearBits = Vector.replicate _ 0 := if_pos (by simp)

end Hashing

/-- The hash a block is known by. -/
def masked (raw mask : Hash) : Hash := raw.zipWith (· ^^^ ·) mask

theorem beNat_masked (raw mask : Hash) : beNat (masked raw mask) = beNat raw ^^^ beNat mask := by
  rw [beNat_eq, beNat_eq, beNat_eq, masked, Vector.toList_zipWith, BigEndian.value_zipWith_xor (by simp)]

/-- The mask moves no hash across the target. -/
theorem masked_lt_iff (H : Hashing) (key : XorKey) {targetByte : UInt8} (htarget : targetByte ≤ 223)
    (raw : Hash) : beNat (masked raw (H.xorKeyMask key (clearBits targetByte))) <
      targetForExponent targetByte ↔ beNat raw < targetForExponent targetByte := by
  have hmask := H.xorKeyMask_lt key htarget
  rw [targetForExponent] at hmask ⊢
  rw [beNat_masked, Nat.xor_lt_two_pow_iff hmask]

/-- A hash that meets a block target below the share target meets the share target under any key. -/
theorem meetsTarget_of_masked (H : Hashing) (key : XorKey) {targetByte : UInt8}
    (htarget : targetByte ≤ 223) {raw : Hash} {target : Target}
    (hbelow : target < targetForExponent targetByte)
    (hblock : meetsTarget (masked raw (H.xorKeyMask key (clearBits targetByte))) target = true) :
    meetsTarget raw (targetForExponent targetByte) = true := by
  rw [meetsTarget, decide_eq_true_eq] at hblock ⊢
  exact ((masked_lt_iff H key htarget raw).mp (lt_of_le_of_lt hblock hbelow)).le

end Ratum
