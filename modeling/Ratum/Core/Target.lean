import Ratum.Core.Bytes

/-!
# Targets

`core/src/target.rs`. A target is the number its 32 big-endian bytes write, and a hash meets it when the
hash's number is at most it.
-/

namespace Ratum

abbrev Target := Nat

def TARGET_MAX : Target := 2 ^ 256 - 1

def DIFF1_EXPONENT : Nat := 224

def MAX_TARGET_EXPONENT : UInt8 := 63

/-- The number that 32 big-endian bytes write. -/
def beNat (hash : Hash) : Nat := leNat hash.toList.reverse

/-- The target `bits` encodes; none for the sign bit, a mantissa that overflows 256 bits, or zero. -/
def bitsToTarget (bits : UInt32) : Option Target :=
  let mantissa := (bits &&& 0x007fffff).toNat
  let size := (bits >>> 24).toNat
  if bits &&& 0x00800000 ≠ 0 then none
  else if 34 < size then none
  else
    let target := if size < 3 then mantissa >>> (8 * (3 - size)) else mantissa <<< (8 * (size - 3))
    if target = 0 || TARGET_MAX < target then none else some target

def meetsTarget (hash : Hash) (target : Target) : Bool := beNat hash ≤ target

def shlSaturating (target : Target) (bits : Nat) : Target := min (target <<< bits) TARGET_MAX

def targetForExponent (exponent : UInt8) : Target := 2 ^ (DIFF1_EXPONENT - exponent.toNat)

def floorLog2 (diff : Nat) : Nat := Nat.log2 diff

/-- The least power of two from `v` on, or the greatest of 64 bits. -/
def pow2Ceil (v : UInt64) : UInt64 :=
  if v = 0 then 0 else UInt64.ofNat (min v.toNat.nextPowerOfTwo (2 ^ 63))

/-- Share difficulty 1 as the node encodes it. -/
example : bitsToTarget 0x1d00ffff = some (0xffff * 2 ^ 208) := by decide

end Ratum
