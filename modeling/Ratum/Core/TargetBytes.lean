import Ratum.Base.BigEndian
import Ratum.Core.Target
import Mathlib.Data.List.Induction

/-!
# Targets as bytes

`core/src/target.rs` keeps a target as 32 big-endian bytes: how the bytes of a compact target are placed, how
they are compared, and how they are shifted. Each does to the numbers they write what `Target` does.
-/

namespace Ratum

/-! ### Bytes and numbers -/

/-- `target_for_exponent`, as the source writes its bytes. -/
def exponentTarget (exponent : UInt8) : Hash :=
  let bit := DIFF1_EXPONENT - exponent.toNat
  (Vector.replicate HASH_SIZE 0).set (HASH_SIZE - 1 - bit / 8) (1 <<< UInt8.ofNat (bit % 8))
    (by rw [HASH_SIZE]; omega)

/-- `hash <= target`: the order of byte arrays. -/
def meetsTargetBytes (hash target : Hash) : Bool := hash.toList ≤ target.toList

theorem leNat_reverse (bytes : Bytes) : leNat bytes.reverse = BigEndian.value bytes := by
  induction bytes using List.reverseRecOn with
  | nil => rfl
  | append_singleton bytes b ih =>
      rw [List.reverse_append, BigEndian.value_append_singleton, ← ih]
      show b.toNat + 256 * leNat bytes.reverse = _
      omega

theorem beNat_eq (hash : Hash) : beNat hash = BigEndian.value hash.toList := leNat_reverse _

theorem beNat_le_iff (hash hash' : Hash) : beNat hash ≤ beNat hash' ↔ hash.toList ≤ hash'.toList := by
  rw [beNat_eq, beNat_eq, BigEndian.value_le_value_iff (by simp)]

theorem beNat_lt_iff (hash hash' : Hash) : beNat hash < beNat hash' ↔ hash.toList < hash'.toList := by
  rw [beNat_eq, beNat_eq, BigEndian.value_lt_value_iff (by simp)]

theorem meetsTargetBytes_eq (hash target : Hash) :
    meetsTargetBytes hash target = meetsTarget hash (beNat target) := by
  rw [meetsTargetBytes, meetsTarget, decide_eq_decide, beNat_le_iff]

theorem beNat_exponentTarget (exponent : UInt8) :
    beNat (exponentTarget exponent) = targetForExponent exponent := by
  rw [beNat_eq, exponentTarget, targetForExponent, Vector.toList_set, Vector.toList_replicate,
    BigEndian.value_set_replicate (by rw [HASH_SIZE]; omega)]
  generalize hbit : DIFF1_EXPONENT - exponent.toNat = bit
  have hle : bit ≤ 224 := by
    rw [← hbit, DIFF1_EXPONENT]
    omega
  have hone : (1 <<< UInt8.ofNat (bit % 8) : UInt8).toNat = 2 ^ (bit % 8) := by
    have hlt : bit % 8 < 8 := Nat.mod_lt _ (by omega)
    have hpow : 2 ^ (bit % 8) < 2 ^ 8 := Nat.pow_lt_pow_right (by omega) hlt
    rw [UInt8.toNat_shiftLeft, UInt8.toNat_ofNat', Nat.mod_eq_of_lt (by omega : bit % 8 < 2 ^ 8),
      Nat.mod_mod, Nat.shiftLeft_eq, UInt8.toNat_one, Nat.one_mul, Nat.mod_eq_of_lt hpow]
  rw [hone, ← Nat.pow_add]
  congr 1
  rw [HASH_SIZE]
  omega

/-! ### Compact targets -/

def MAX_COMPACT_TARGET_SIZE : Nat := 34

/-- The bytes of the mantissa, the highest first. -/
def mantissaBytes (bits : UInt32) : Bytes := (leBytes 4 (bits &&& 0x007fffff).toNat).reverse.drop 1

/-- Places a byte of the mantissa; one below the target is dropped, and one above it has to be zero. -/
def placeByte (size : Nat) (t : Hash) (b : UInt8) (i : Nat) : Option Hash :=
  let «at» : Int := HASH_SIZE - size + i
  if HASH_SIZE ≤ «at» then some t
  else if 0 ≤ «at» then some (t.setIfInBounds «at».toNat b)
  else if b = 0 then some t
  else none

/-- `bits_to_target`, as the source writes its bytes. -/
def bitsToTargetBytes (bits : UInt32) : Option Hash :=
  let size := (bits >>> 24).toNat
  if bits &&& 0x00800000 ≠ 0 then none
  else if MAX_COMPACT_TARGET_SIZE < size then none
  else
    ((mantissaBytes bits).zipIdx.foldlM (fun t (b, i) => placeByte size t b i) (Vector.replicate _ 0)).filter
      fun t => t.any (· ≠ 0)

/-- The number compact bits name: the mantissa times a power of 256, less what falls below one. -/
def compactValue (bits : UInt32) : Nat := (bits &&& 0x007fffff).toNat * 256 ^ (bits >>> 24).toNat / 256 ^ 3

/-- What a byte of the mantissa adds to the target. -/
def placed (size : Nat) (b : UInt8) (i : Nat) : Nat := if i < size then b.toNat * 256 ^ (size - 1 - i) else 0

/-- The bytes from an index of the mantissa on are zero. -/
def ClearFrom (size : Nat) (t : Hash) (i : Nat) : Prop := ∀ j (hj : j < HASH_SIZE), HASH_SIZE + i ≤ j + size → t[j] = 0

theorem placeByte_spec {size i : Nat} {t : Hash} (b : UInt8) (hclear : ClearFrom size t i) :
    placeByte size t b i = none ∧ 256 ^ HASH_SIZE ≤ placed size b i ∨
      ∃ t', placeByte size t b i = some t' ∧ beNat t' = beNat t + placed size b i ∧ ClearFrom size t' (i + 1) := by
  have hmono : ClearFrom size t (i + 1) := fun j hj h => hclear j hj (by omega)
  have hsize : HASH_SIZE = 32 := rfl
  rw [placeByte]
  by_cases hbelow : size ≤ i
  · rw [if_pos (by omega), placed, if_neg (by omega)]
    exact .inr ⟨t, rfl, rfl, hmono⟩
  · rw [if_neg (by omega), placed, if_pos (by omega : i < size)]
    by_cases hin : size ≤ HASH_SIZE + i
    · have hat : ((HASH_SIZE : Int) - size + i).toNat = HASH_SIZE + i - size := by omega
      have hlt : HASH_SIZE + i - size < HASH_SIZE := by omega
      rw [if_pos (by omega), hat]
      refine .inr ⟨_, rfl, ?_, ?_⟩
      · have hlt' : HASH_SIZE + i - size < t.toList.length := by rwa [Vector.length_toList]
        have hzero : t.toList[HASH_SIZE + i - size] = 0 := by
          rw [Vector.getElem_toList]
          exact hclear _ hlt (by omega)
        rw [beNat_eq, beNat_eq, Vector.toList_setIfInBounds, BigEndian.value_set hlt' hzero,
          Vector.length_toList, show 256 = 2 ^ 8 from rfl, ← Nat.pow_mul]
        congr 4
        omega
      · intro j hj hge
        rw [Vector.getElem_setIfInBounds_ne hj (by omega)]
        exact hclear j hj (by omega)
    · rw [if_neg (by omega)]
      split
      · rename_i hzero
        refine .inr ⟨t, rfl, ?_, hmono⟩
        rw [hzero, UInt8.toNat_zero, Nat.zero_mul, Nat.add_zero]
      · rename_i hne
        have hpos : 1 ≤ b.toNat := Nat.one_le_iff_ne_zero.mpr fun h => hne (UInt8.toNat_inj.mp h)
        refine .inl ⟨rfl, ?_⟩
        calc 256 ^ HASH_SIZE ≤ 256 ^ (size - 1 - i) := Nat.pow_le_pow_right (by decide) (by omega)
          _ ≤ b.toNat * 256 ^ (size - 1 - i) := Nat.le_mul_of_pos_left _ hpos

/-- The mantissa's bytes add up to what the compact bits name. -/
theorem placed_eq (bits : UInt32) :
    ∃ b₀ b₁ b₂, mantissaBytes bits = [b₀, b₁, b₂] ∧
      placed (bits >>> 24).toNat b₀ 0 + placed (bits >>> 24).toNat b₁ 1 + placed (bits >>> 24).toNat b₂ 2 =
        compactValue bits := by
  have hmantissa : (bits &&& 0x007fffff).toNat < 2 ^ 23 := by
    rw [UInt32.toNat_and]
    exact Nat.lt_of_le_of_lt Nat.and_le_right (by decide)
  rw [compactValue, mantissaBytes]
  generalize (bits &&& 0x007fffff).toNat = m at hmantissa
  generalize (bits >>> 24).toNat = size
  refine ⟨UInt8.ofNat (m / 256 / 256), UInt8.ofNat (m / 256), UInt8.ofNat m, rfl, ?_⟩
  have hfirst : (UInt8.ofNat (m / 256 / 256)).toNat = m / 256 / 256 :=
    UInt8.toNat_ofNat_of_lt' (by show _ < 256; omega)
  have hrest : m = (m / 256 / 256 * 256 + m / 256 % 256) * 256 + m % 256 := by omega
  simp only [placed, hfirst, UInt8.toNat_ofNat']
  match size with
  | 0 =>
      simp
      omega
  | 1 =>
      simp
      omega
  | 2 =>
      simp
      omega
  | size + 3 =>
      have hdiv : m * 256 ^ (size + 3) / 256 ^ 3 = m * 256 ^ size := by
        rw [Nat.pow_add, ← Nat.mul_assoc, Nat.mul_div_cancel _ (by decide)]
      rw [hdiv, if_pos (by omega), if_pos (by omega), if_pos (by omega)]
      show m / 256 / 256 * 256 ^ (size + 2) + m / 256 % 256 * 256 ^ (size + 1) + m % 256 * 256 ^ size = _
      conv_rhs => rw [hrest]
      ring

/-- The loop over the mantissa's bytes writes the number they add up to, unless it overflows. -/
theorem placeBytes_spec (size : Nat) (b₀ b₁ b₂ : UInt8) :
    let placedAll := ([b₀, b₁, b₂].zipIdx.foldlM (fun t (b, i) => placeByte size t b i)
      (Vector.replicate HASH_SIZE 0 : Hash))
    let sum := placed size b₀ 0 + placed size b₁ 1 + placed size b₂ 2
    placedAll = none ∧ 256 ^ HASH_SIZE ≤ sum ∨ ∃ t, placedAll = some t ∧ beNat t = sum := by
  intro placedAll sum
  have hempty : beNat (Vector.replicate HASH_SIZE 0) = 0 := by
    rw [beNat_eq, Vector.toList_replicate, BigEndian.value_replicate_zero]
  have hfold : placedAll = (placeByte size (Vector.replicate HASH_SIZE 0) b₀ 0).bind fun t =>
      (placeByte size t b₁ 1).bind fun t => placeByte size t b₂ 2 := by
    simp only [placedAll, List.zipIdx_cons, List.zipIdx_nil, List.foldlM_cons, List.foldlM_nil, bind, Nat.zero_add]
    congr 1
    funext t
    congr 1
    funext t
    exact Option.bind_fun_some _
  rw [hfold]
  rcases placeByte_spec b₀ (fun j hj _ => Vector.getElem_replicate hj) with
    ⟨hnone, hover⟩ | ⟨t₀, hplace₀, hvalue₀, hclear₀⟩
  · rw [hnone]
    exact .inl ⟨rfl, by omega⟩
  rcases placeByte_spec (i := 1) b₁ hclear₀ with ⟨hnone, hover⟩ | ⟨t₁, hplace₁, hvalue₁, hclear₁⟩
  · rw [hplace₀, Option.bind_some, hnone]
    exact .inl ⟨rfl, by omega⟩
  rcases placeByte_spec (i := 2) b₂ hclear₁ with ⟨hnone, hover⟩ | ⟨t₂, hplace₂, hvalue₂, -⟩
  · rw [hplace₀, Option.bind_some, hplace₁, Option.bind_some, hnone]
    exact .inl ⟨rfl, by omega⟩
  · rw [hplace₀, Option.bind_some, hplace₁, Option.bind_some, hplace₂]
    exact .inr ⟨t₂, rfl, by omega⟩

theorem any_ne_zero_iff (t : Hash) : (t.any (· ≠ 0)) = true ↔ beNat t ≠ 0 := by
  rw [beNat_eq, Ne, BigEndian.value_eq_zero_iff]
  simp [Vector.any_eq_true', Vector.mem_toList_iff]

/-- A compact target is the number its bits name, and there is none for the sign bit, a size past the
largest, a number of more than 256 bits, or zero. -/
theorem bitsToTargetBytes_spec (bits : UInt32) :
    (∀ t, bitsToTargetBytes bits = some t → beNat t = compactValue bits) ∧
    (bitsToTargetBytes bits = none ↔
      bits &&& 0x00800000 ≠ 0 ∨ 2 ^ 256 ≤ compactValue bits ∨ MAX_COMPACT_TARGET_SIZE < (bits >>> 24).toNat ∨
        compactValue bits = 0) := by
  obtain ⟨b₀, b₁, b₂, hbytes, hsum⟩ := placed_eq bits
  have hplaced := placeBytes_spec (bits >>> 24).toNat b₀ b₁ b₂
  rw [← hbytes, hsum] at hplaced
  rw [bitsToTargetBytes]
  by_cases hsign : bits &&& 0x00800000 ≠ 0
  · rw [if_pos hsign]
    exact ⟨nofun, fun _ => .inl hsign, fun _ => rfl⟩
  by_cases hsize : MAX_COMPACT_TARGET_SIZE < (bits >>> 24).toNat
  · rw [if_neg hsign, if_pos hsize]
    exact ⟨nofun, fun _ => .inr (.inr (.inl hsize)), fun _ => rfl⟩
  rw [if_neg hsign, if_neg hsize]
  rcases hplaced with ⟨hnone, hover⟩ | ⟨t, hsome, hvalue⟩
  · rw [hnone]
    exact ⟨nofun, fun _ => .inr (.inl hover), fun _ => rfl⟩
  · rw [hsome]
    have hlt : beNat t < 2 ^ 256 := by
      have := BigEndian.value_lt t.toList
      rwa [Vector.length_toList, ← beNat_eq] at this
    refine ⟨fun t' h => ?_, ?_⟩
    · obtain ⟨h, -⟩ := Option.filter_eq_some_iff.mp h
      rw [← Option.some.inj h, hvalue]
    · rw [Option.filter_eq_none_iff]
      simp only [Option.some.injEq, forall_eq', any_ne_zero_iff, not_not, hvalue]
      constructor
      · exact fun hzero => .inr (.inr (.inr hzero))
      · rintro (h | h | h | h)
        · exact absurd h hsign
        · omega
        · exact absurd h hsize
        · exact h

/-- The bytes of the target are the number's. -/
theorem map_beNat_bitsToTargetBytes (bits : UInt32) : (bitsToTargetBytes bits).map beNat = bitsToTarget bits := by
  obtain ⟨hvalue, hnone⟩ := bitsToTargetBytes_spec bits
  have hnumber : (if (bits >>> 24).toNat < 3 then
      (bits &&& 0x007fffff).toNat >>> (8 * (3 - (bits >>> 24).toNat))
      else (bits &&& 0x007fffff).toNat <<< (8 * ((bits >>> 24).toNat - 3))) = compactValue bits := by
    rw [compactValue]
    generalize (bits &&& 0x007fffff).toNat = m
    generalize (bits >>> 24).toNat = size
    split
    · have hsplit : 256 ^ 3 = 256 ^ size * 256 ^ (3 - size) := by
        rw [← Nat.pow_add]
        congr 1
        omega
      rw [Nat.shiftRight_eq_div_pow, Nat.pow_mul, hsplit, Nat.mul_comm m,
        Nat.mul_div_mul_left _ _ (Nat.pow_pos (by decide))]
    · have hsplit : 256 ^ size = 256 ^ (size - 3) * 256 ^ 3 := by
        rw [← Nat.pow_add]
        congr 1
        omega
      rw [Nat.shiftLeft_eq, Nat.pow_mul, hsplit, ← Nat.mul_assoc, Nat.mul_div_cancel _ (by decide)]
  rw [bitsToTarget]
  dsimp only
  rw [hnumber]
  have hout : (decide (compactValue bits = 0) || decide (TARGET_MAX < compactValue bits)) = true ↔
      compactValue bits = 0 ∨ 2 ^ 256 ≤ compactValue bits := by
    rw [Bool.or_eq_true, decide_eq_true_iff, decide_eq_true_iff]
    exact Iff.rfl
  rw [MAX_COMPACT_TARGET_SIZE] at hnone
  cases htarget : bitsToTargetBytes bits with
  | none =>
      rw [Option.map_none]
      split
      · rfl
      split
      · rfl
      split
      · rfl
      rename_i hsign hsize hin
      rw [hout] at hin
      rcases hnone.mp htarget with h | h | h | h
      · exact absurd h hsign
      · exact absurd (.inr h) hin
      · exact absurd h hsize
      · exact absurd (.inl h) hin
  | some t =>
      have hnot := mt hnone.mpr (by rw [htarget]; exact nofun)
      simp only [not_or] at hnot
      obtain ⟨hsign, hfits, hsize, hzero⟩ := hnot
      rw [Option.map_some, hvalue t htarget, if_neg hsign, if_neg hsize, if_neg (mt hout.mp (not_or.mpr ⟨hzero, hfits⟩))]

/-! ### Shifts -/

/-- `shl_saturating`, as the source writes its bytes. -/
def shlSaturatingBytes (target : Hash) (bits : UInt32) : Hash :=
  let byteShift := bits.toNat / 8
  let bitShift := bits.toNat % 8
  let overflows :=
    if HASH_SIZE ≤ byteShift then target.any (· ≠ 0)
    else (target.toList.take byteShift).any (· ≠ 0) ||
      (0 < bitShift && target.toList.getD byteShift 0 >>> UInt8.ofNat (8 - bitShift) ≠ 0)
  if overflows then Vector.replicate _ 0xff
  else Vector.ofFn fun i =>
    if i < HASH_SIZE - byteShift then
      BigEndian.shiftByte bitShift (target.toList.getD (i + byteShift) 0) (target.toList.getD (i + byteShift + 1) 0)
    else 0

/-- The bytes shifted are those left of the target, with zeros after. -/
theorem toList_shifted (target : Hash) {byteShift bitShift : Nat} :
    (Vector.ofFn fun i : Fin HASH_SIZE =>
      if i < HASH_SIZE - byteShift then
        BigEndian.shiftByte bitShift (target.toList.getD (i + byteShift) 0)
          (target.toList.getD (i + byteShift + 1) 0)
      else 0).toList =
      BigEndian.shiftBits bitShift (target.toList.drop byteShift) ++ List.replicate (min byteShift HASH_SIZE) 0 := by
  apply List.ext_getElem
  · simp
    omega
  · intro i h₁ h₂
    have hi : i < HASH_SIZE := by simpa using h₁
    rw [Vector.getElem_toList, Vector.getElem_ofFn]
    split
    · rename_i hshifted
      have hleft : i < (target.toList.drop byteShift).length := by
        rw [List.length_drop, Vector.length_toList]
        omega
      have hbyte := BigEndian.getD_shiftBits bitShift hleft
      have hdrop (k : Nat) : (target.toList.drop byteShift).getD k 0 = target.toList.getD (k + byteShift) 0 := by
        rw [List.getD_eq_getElem?_getD, List.getElem?_drop, Nat.add_comm, List.getD_eq_getElem?_getD]
      have hlen : i < (BigEndian.shiftBits bitShift (target.toList.drop byteShift)).length := by
        rwa [BigEndian.length_shiftBits]
      rw [List.getElem_append_left hlen, ← List.getD_eq_getElem _ 0 hlen, hbyte, hdrop, hdrop, Nat.add_right_comm]
    · rename_i hzero
      dsimp only at hzero
      rw [List.getElem_append_right, List.getElem_replicate]
      rw [BigEndian.length_shiftBits, List.length_drop, Vector.length_toList]
      omega

theorem any_ne_zero_bytes_iff (bytes : Bytes) : (bytes.any (· ≠ 0)) = true ↔ BigEndian.value bytes ≠ 0 := by
  rw [Ne, BigEndian.value_eq_zero_iff]
  simp

theorem head_shiftRight_ne_zero_iff {bitShift : Nat} (hbit : bitShift < 8) (high : UInt8) :
    (0 < bitShift ∧ high >>> UInt8.ofNat (8 - bitShift) ≠ 0) ↔ high.toNat / 2 ^ (8 - bitShift) ≠ 0 := by
  have hhigh := high.toNat_lt
  rcases Nat.eq_zero_or_pos bitShift with rfl | hpos
  · rw [Nat.sub_zero, Nat.div_eq_of_lt hhigh]
    simp
  · have hright : (high >>> UInt8.ofNat (8 - bitShift)).toNat = high.toNat / 2 ^ (8 - bitShift) := by
      rw [UInt8.toNat_shiftRight, UInt8.toNat_ofNat', Nat.mod_eq_of_lt (by omega : 8 - bitShift < 2 ^ 8),
        Nat.mod_eq_of_lt (by omega : 8 - bitShift < 8), Nat.shiftRight_eq_div_pow]
    rw [← hright, Ne, Ne, ← UInt8.toNat_inj, UInt8.toNat_zero, and_iff_right hpos]

/-- What is left of a target that loses no bit. -/
theorem beNat_shifted (target : Hash) {byteShift bitShift : Nat} (hbit : bitShift < 8)
    (hpre : BigEndian.value (target.toList.take byteShift) = 0)
    (hhead : ((target.toList.drop byteShift).headD 0).toNat / 2 ^ (8 - bitShift) = 0) :
    BigEndian.value (BigEndian.shiftBits bitShift (target.toList.drop byteShift) ++
      List.replicate (min byteShift HASH_SIZE) 0) = beNat target * 2 ^ bitShift * 2 ^ (8 * byteShift) := by
  have hvalue : beNat target = BigEndian.value (target.toList.drop byteShift) := by
    conv_lhs => rw [beNat_eq, ← List.take_append_drop byteShift target.toList, BigEndian.value_append, hpre,
      Nat.zero_mul, Nat.zero_add]
  have hshift := BigEndian.value_shiftBits hbit (target.toList.drop byteShift)
  have hlt := BigEndian.value_lt (BigEndian.shiftBits bitShift (target.toList.drop byteShift))
  rw [hhead, Nat.zero_mul, Nat.add_zero, ← hvalue] at hshift
  rw [BigEndian.length_shiftBits, List.length_drop, Vector.length_toList, hshift] at hlt
  rw [BigEndian.value_append, BigEndian.value_replicate_zero, Nat.add_zero, List.length_replicate, hshift]
  rcases Nat.le_total byteShift HASH_SIZE with hle | hge
  · rw [Nat.min_eq_left hle]
  · rw [Nat.sub_eq_zero_of_le hge, Nat.mul_zero, Nat.pow_zero, Nat.lt_one_iff] at hlt
    rw [hlt, Nat.zero_mul, Nat.zero_mul]

/-- What a target that loses a bit is at least. -/
theorem le_beNat_shifted (target : Hash) {byteShift bitShift : Nat} (hbit : bitShift < 8)
    (hlost : BigEndian.value (target.toList.take byteShift) ≠ 0 ∨
      ((target.toList.drop byteShift).headD 0).toNat / 2 ^ (8 - bitShift) ≠ 0) :
    2 ^ (8 * (HASH_SIZE - byteShift)) ≤ beNat target * 2 ^ bitShift := by
  have hvalue : beNat target = BigEndian.value (target.toList.take byteShift) * 2 ^ (8 * (HASH_SIZE - byteShift)) +
      BigEndian.value (target.toList.drop byteShift) := by
    conv_lhs => rw [beNat_eq, ← List.take_append_drop byteShift target.toList, BigEndian.value_append,
      List.length_drop, Vector.length_toList]
  rcases hlost with hpre | hhead
  · calc 2 ^ (8 * (HASH_SIZE - byteShift))
        ≤ BigEndian.value (target.toList.take byteShift) * 2 ^ (8 * (HASH_SIZE - byteShift)) :=
          Nat.le_mul_of_pos_left _ (Nat.pos_of_ne_zero hpre)
      _ ≤ beNat target := hvalue ▸ Nat.le_add_right _ _
      _ ≤ beNat target * 2 ^ bitShift := Nat.le_mul_of_pos_right _ (Nat.two_pow_pos _)
  · have hshift := BigEndian.value_shiftBits hbit (target.toList.drop byteShift)
    rw [List.length_drop, Vector.length_toList] at hshift
    calc 2 ^ (8 * (HASH_SIZE - byteShift))
        ≤ ((target.toList.drop byteShift).headD 0).toNat / 2 ^ (8 - bitShift) * 2 ^ (8 * (HASH_SIZE - byteShift)) :=
          Nat.le_mul_of_pos_left _ (Nat.pos_of_ne_zero hhead)
      _ ≤ BigEndian.value (target.toList.drop byteShift) * 2 ^ bitShift := hshift ▸ Nat.le_add_left _ _
      _ ≤ beNat target * 2 ^ bitShift := Nat.mul_le_mul_right _ (hvalue ▸ Nat.le_add_left _ _)

/-- Whether the shift overflows is whether a bit is lost. -/
theorem overflows_iff (target : Hash) {byteShift bitShift : Nat} (hbit : bitShift < 8) :
    (if HASH_SIZE ≤ byteShift then target.any (· ≠ 0)
      else (target.toList.take byteShift).any (· ≠ 0) ||
        (0 < bitShift && target.toList.getD byteShift 0 >>> UInt8.ofNat (8 - bitShift) ≠ 0)) = true ↔
      BigEndian.value (target.toList.take byteShift) ≠ 0 ∨
        ((target.toList.drop byteShift).headD 0).toNat / 2 ^ (8 - bitShift) ≠ 0 := by
  split
  · rename_i hall
    have htake : target.toList.take byteShift = target.toList := List.take_of_length_le (by simpa using hall)
    have hdrop : target.toList.drop byteShift = [] := List.drop_of_length_le (by simpa using hall)
    rw [any_ne_zero_iff, htake, hdrop, ← beNat_eq, List.headD_nil, UInt8.toNat_zero, Nat.zero_div]
    exact (or_iff_left (not_not.mpr rfl)).symm
  · have hhead : (target.toList.drop byteShift).headD 0 = target.toList.getD byteShift 0 := by
      rw [List.headD_eq_head?_getD, List.head?_drop, List.getD_eq_getElem?_getD]
    rw [Bool.or_eq_true, any_ne_zero_bytes_iff, hhead, ← head_shiftRight_ne_zero_iff hbit, Bool.and_eq_true,
      decide_eq_true_iff, decide_eq_true_iff]

/-- **The target shifted is the number shifted**, or the largest target. -/
theorem beNat_shlSaturatingBytes (target : Hash) (bits : UInt32) :
    beNat (shlSaturatingBytes target bits) = shlSaturating (beNat target) bits.toNat := by
  have hbits : bits.toNat = 8 * (bits.toNat / 8) + bits.toNat % 8 := (Nat.div_add_mod ..).symm
  have hmod : bits.toNat % 8 < 8 := Nat.mod_lt _ (by decide)
  have hproduct : beNat target <<< bits.toNat =
      beNat target * 2 ^ (bits.toNat % 8) * 2 ^ (8 * (bits.toNat / 8)) := by
    conv_lhs => rw [Nat.shiftLeft_eq, hbits, Nat.pow_add, Nat.mul_comm (2 ^ _), ← Nat.mul_assoc]
  rw [shlSaturatingBytes, shlSaturating, hproduct]
  generalize bits.toNat / 8 = byteShift
  generalize bits.toNat % 8 = bitShift at hmod
  have hoverflows := @overflows_iff target byteShift bitShift hmod
  by_cases hlost : BigEndian.value (target.toList.take byteShift) ≠ 0 ∨
      ((target.toList.drop byteShift).headD 0).toNat / 2 ^ (8 - bitShift) ≠ 0
  · have hproductLe : 2 ^ 256 ≤ beNat target * 2 ^ bitShift * 2 ^ (8 * byteShift) :=
      calc 2 ^ 256 ≤ 2 ^ (8 * (HASH_SIZE - byteShift) + 8 * byteShift) :=
            Nat.pow_le_pow_right (by decide) (by rw [HASH_SIZE]; omega)
        _ ≤ beNat target * 2 ^ bitShift * 2 ^ (8 * byteShift) := by
            rw [Nat.pow_add]
            exact Nat.mul_le_mul_right _ (le_beNat_shifted target hmod hlost)
    rw [if_pos (hoverflows.mpr hlost), Nat.min_eq_right (Nat.le_trans (Nat.sub_le _ _) hproductLe : TARGET_MAX ≤ _)]
    decide +kernel
  · rw [if_neg (mt hoverflows.mp hlost)]
    rw [not_or, not_not, not_not] at hlost
    have hvalue := beNat_shifted target hmod hlost.1 hlost.2
    have hproductLt := BigEndian.value_lt (BigEndian.shiftBits bitShift (target.toList.drop byteShift) ++
      List.replicate (min byteShift HASH_SIZE) 0)
    rw [← toList_shifted, Vector.length_toList, toList_shifted, hvalue] at hproductLt
    have hmax : beNat target * 2 ^ bitShift * 2 ^ (8 * byteShift) ≤ TARGET_MAX := Nat.le_sub_one_of_lt hproductLt
    rw [beNat_eq, toList_shifted, hvalue, Nat.min_eq_left hmax]

/-! ### The target a miner is given -/

def HIGH_ZERO_BYTES : Nat := HASH_SIZE - DIFF1_EXPONENT / 8

/-- The greatest target under the one an exponent names. -/
def shareTarget (exponent : UInt8) : Hash :=
  Vector.ofFn fun i =>
    let firstSet := HIGH_ZERO_BYTES + exponent.toNat / 8
    if DIFF1_EXPONENT ≤ exponent.toNat ∨ i.val < firstSet then 0
    else if i.val = firstSet then 0xff >>> (exponent % 8)
    else 0xff

/-- The compact form of a target, its first three bytes or two. -/
def targetToBits (target : Hash) : UInt32 :=
  match target.toList.findIdx? (· ≠ 0) with
  | none => 0
  | some first =>
      let size := UInt32.ofNat (HASH_SIZE - first)
      let byteAt (i : Nat) : UInt32 := (target.toList.getD i 0).toUInt32
      if target.toList.getD first 0 &&& 0x80 ≠ 0 then
        (size + 1) <<< 24 ||| byteAt first <<< 8 ||| byteAt (first + 1)
      else size <<< 24 ||| byteAt first <<< 16 ||| byteAt (first + 1) <<< 8 ||| byteAt (first + 2)

/-- The bits a mining.notify carries. -/
def shareNbits (exponent : UInt8) : UInt32 := targetToBits (shareTarget exponent)

/-- The target a miner is given is one, and no easier than the one its shares are judged by. -/
theorem target_shareNbits {exponent : UInt8} (hexponent : exponent.toNat < DIFF1_EXPONENT) :
    ∃ target, bitsToTarget (shareNbits exponent) = some target ∧ target < targetForExponent exponent := by
  have hall : ∀ n < DIFF1_EXPONENT, (bitsToTarget (shareNbits (UInt8.ofNat n))).any
      (· < targetForExponent (UInt8.ofNat n)) = true := by decide +kernel
  have htarget := hall _ hexponent
  rw [UInt8.ofNat_toNat, Option.any_eq_true] at htarget
  obtain ⟨target, hbits, hlt⟩ := htarget
  exact ⟨target, hbits, of_decide_eq_true hlt⟩

example : shareNbits 0 = 0x1d00ffff ∧ shareNbits 1 = 0x1c7fffff ∧ shareNbits 8 = 0x1c00ffff ∧ shareNbits 224 = 0 := by
  decide +kernel

end Ratum
