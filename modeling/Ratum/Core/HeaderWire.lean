import Ratum.Core.Header

/-!
# The header read back

`BlockHeaderV2::deserialize` of `core/src/header.rs`.
-/

namespace Ratum
namespace BlockHeaderV2

def deserialize (b : Bytes) : Option BlockHeaderV2 := do
  if b.length ≠ HEADER_V2_SIZE then none
  let (v, r) ← ((ByteReader.new b).u32 "version").toOption
  if v &&& V2_FLAG = 0 then none
  let (prevBlock, r) ← (r.arr HASH_SIZE "prev block").toOption
  let (merkleRoot, r) ← (r.arr HASH_SIZE "merkle root").toOption
  let (time, r) ← (r.u32 "time").toOption
  let (bits, r) ← (r.u32 "bits").toOption
  let (nonce, r) ← (r.u32 "nonce").toOption
  let (nonce2, r) ← (r.u32 "nonce2").toOption
  let (nonce3, r) ← (r.u32 "nonce3").toOption
  let (extranonce, r) ← (r.arr 16 "extranonce").toOption
  let (timeOffset, r) ← (r.u32 "time offset").toOption
  let (txcount, r) ← (r.u16 "txcount").toOption
  let (flags, r) ← (r.u8 "flags").toOption
  let (xorKeyMaskClearBits, r) ← (r.u8 "xor key mask clear bits").toOption
  let (xorKey, r) ← (r.arr 16 "xor key").toOption
  let (height, r) ← (r.u32 "height").toOption
  let (mmRhs, _) ← (r.arr HASH_SIZE "mm rhs").toOption
  pure
    { version := v &&& ~~~V2_FLAG
      prevBlock, merkleRoot
      time := if flags &&& FLAG_USE_TIME_OFFSET ≠ 0 then time + timeOffset else time
      bits, nonce, nonce2, nonce3, extranonce, timeOffset, txcount, flags, xorKeyMaskClearBits, xorKey
      height, mmRhs }

section Flag

variable (a b : UInt32)

theorem flagged_and_flag : (a ||| b) &&& a = a := by
  apply UInt32.toBitVec_inj.mp
  ext i hi
  simp only [UInt32.toBitVec_and, UInt32.toBitVec_or, BitVec.getElem_and, BitVec.getElem_or]
  cases a.toBitVec[i] <;> simp

theorem flag_or_and_not_flag : (a ||| b) &&& ~~~a = b &&& ~~~a := by
  apply UInt32.toBitVec_inj.mp
  ext i hi
  simp only [UInt32.toBitVec_and, UInt32.toBitVec_or, UInt32.toBitVec_not, BitVec.getElem_and,
    BitVec.getElem_or, BitVec.getElem_not]
  cases a.toBitVec[i] <;> simp

theorem flagged_and_not_flag : (a ||| b &&& ~~~a) &&& ~~~a = b &&& ~~~a := by
  rw [flag_or_and_not_flag, UInt32.and_assoc, UInt32.and_self]

theorem not_flag_or_flag : a &&& ~~~b ||| b = a ||| b := by
  apply UInt32.toBitVec_inj.mp
  ext i hi
  simp only [UInt32.toBitVec_and, UInt32.toBitVec_or, UInt32.toBitVec_not, BitVec.getElem_and,
    BitVec.getElem_or, BitVec.getElem_not]
  cases b.toBitVec[i] <;> simp

theorem and_or_and_not : a &&& b ||| a &&& ~~~b = a := by
  apply UInt32.toBitVec_inj.mp
  ext i hi
  simp only [UInt32.toBitVec_and, UInt32.toBitVec_or, UInt32.toBitVec_not, BitVec.getElem_and,
    BitVec.getElem_or, BitVec.getElem_not]
  cases b.toBitVec[i] <;> simp

end Flag

section Version

variable {v : UInt32}

/-- The flag is the sign bit of the version. -/
theorem and_flag : v &&& V2_FLAG = if v.toBitVec.getLsbD 31 then V2_FLAG else 0 := by
  apply UInt32.toBitVec_inj.mp
  have htwo := BitVec.and_twoPow v.toBitVec 31
  rw [UInt32.toBitVec_and]
  show v.toBitVec &&& BitVec.twoPow 32 31 = _
  rw [htwo]
  split <;> rfl

theorem flag_or_not_flag (hv : v &&& V2_FLAG ≠ 0) : V2_FLAG ||| v &&& ~~~V2_FLAG = v := by
  have hflag : v &&& V2_FLAG = V2_FLAG := by
    rw [and_flag] at hv ⊢
    split
    · rfl
    · rename_i hsign
      rw [if_neg hsign] at hv
      exact absurd rfl hv
  calc V2_FLAG ||| v &&& ~~~V2_FLAG = v &&& V2_FLAG ||| v &&& ~~~V2_FLAG := by rw [hflag]
    _ = v := and_or_and_not v V2_FLAG

/-- A version that is not negative as an `i32` has no flag. -/
theorem unflagged_of_nonneg (hv : 0 ≤ v.toInt32) : v &&& ~~~V2_FLAG = v := by
  have hsign : v.toBitVec.getLsbD 31 = false := by
    have hint : 0 ≤ v.toBitVec.toInt := Int32.le_iff_toInt_le.mp hv
    rw [← BitVec.msb_eq_getLsbD_last v.toBitVec, BitVec.msb_eq_toInt]
    exact decide_eq_false (Int.not_lt.mpr hint)
  have hflag : v &&& V2_FLAG = 0 := by
    rw [and_flag, hsign]
    rfl
  calc v &&& ~~~V2_FLAG = v &&& V2_FLAG ||| v &&& ~~~V2_FLAG := by rw [hflag, UInt32.zero_or]
    _ = v := and_or_and_not v V2_FLAG

end Version

/-- **A header is read back as it was written**, its version without the flag. -/
theorem deserialize_serialize (h : BlockHeaderV2) :
    deserialize h.serialize = some { h with version := h.version &&& ~~~V2_FLAG } := by
  have hlength : ¬ h.serialize.length ≠ HEADER_V2_SIZE := not_not.mpr h.length_serialize
  have hflag : (V2_FLAG ||| h.version &&& ~~~V2_FLAG) &&& V2_FLAG ≠ 0 := by
    rw [flagged_and_flag]
    decide
  have hmm (full : Bytes) (what : String) :
      (ByteReader.mk full h.mmRhs.toList).arr HASH_SIZE what = .ok (h.mmRhs, ⟨full, []⟩) := by
    have hread := ByteReader.arr_append HASH_SIZE full [] what h.mmRhs
    rwa [List.append_nil] at hread
  have htime : (if h.flags &&& FLAG_USE_TIME_OFFSET ≠ 0 then h.timeOnWire + h.timeOffset
      else h.timeOnWire) = h.time := by
    rw [timeOnWire]
    split <;> simp_all
  rw [deserialize, if_neg hlength, ByteReader.new]
  generalize hfull : h.serialize = full
  have hrest : (⟨full, full⟩ : ByteReader) = ⟨full, h.serialize⟩ := by rw [hfull]
  rw [hrest, serialize]
  simp only [word, List.append_assoc, List.cons_append, List.nil_append, bind, Option.bind,
    ByteReader.u32_leBytes, ByteReader.u16_leBytes, ByteReader.arr_append, ByteReader.u8_cons,
    Except.toOption, hmm, if_neg hflag, flagged_and_not_flag, htime]
  rfl

theorem timeOnWire_of_read {h : BlockHeaderV2} {time : UInt32}
    (htime : h.time = if h.flags &&& FLAG_USE_TIME_OFFSET ≠ 0 then time + h.timeOffset else time) :
    h.timeOnWire = time := by
  rw [timeOnWire, htime]
  by_cases hoffset : h.flags &&& FLAG_USE_TIME_OFFSET = 0
  · rw [if_pos hoffset, if_neg (not_not.mpr hoffset)]
  · rw [if_neg hoffset, if_pos hoffset, UInt32.add_sub_cancel]

open ByteReader in
/-- The bytes a header is read from are those it is written as. -/
theorem serialize_deserialize {b : Bytes} {h : BlockHeaderV2} (hread : deserialize b = some h) :
    h.serialize = b := by
  rw [deserialize] at hread
  obtain ⟨hlength, hread⟩ := Option.ite_none_left_eq_some.mp hread
  obtain ⟨⟨v, r1⟩, h1, hread⟩ := Option.bind_eq_some_iff.mp hread
  obtain ⟨hv, hread⟩ := Option.ite_none_left_eq_some.mp hread
  obtain ⟨⟨prevBlock, r2⟩, h2, hread⟩ := Option.bind_eq_some_iff.mp hread
  obtain ⟨⟨merkleRoot, r3⟩, h3, hread⟩ := Option.bind_eq_some_iff.mp hread
  obtain ⟨⟨time, r4⟩, h4, hread⟩ := Option.bind_eq_some_iff.mp hread
  obtain ⟨⟨bits, r5⟩, h5, hread⟩ := Option.bind_eq_some_iff.mp hread
  obtain ⟨⟨nonce, r6⟩, h6, hread⟩ := Option.bind_eq_some_iff.mp hread
  obtain ⟨⟨nonce2, r7⟩, h7, hread⟩ := Option.bind_eq_some_iff.mp hread
  obtain ⟨⟨nonce3, r8⟩, h8, hread⟩ := Option.bind_eq_some_iff.mp hread
  obtain ⟨⟨extranonce, r9⟩, h9, hread⟩ := Option.bind_eq_some_iff.mp hread
  obtain ⟨⟨timeOffset, r10⟩, h10, hread⟩ := Option.bind_eq_some_iff.mp hread
  obtain ⟨⟨txcount, r11⟩, h11, hread⟩ := Option.bind_eq_some_iff.mp hread
  obtain ⟨⟨flags, r12⟩, h12, hread⟩ := Option.bind_eq_some_iff.mp hread
  obtain ⟨⟨clearBits, r13⟩, h13, hread⟩ := Option.bind_eq_some_iff.mp hread
  obtain ⟨⟨xorKey, r14⟩, h14, hread⟩ := Option.bind_eq_some_iff.mp hread
  obtain ⟨⟨height, r15⟩, h15, hread⟩ := Option.bind_eq_some_iff.mp hread
  obtain ⟨⟨mmRhs, r16⟩, h16, hread⟩ := Option.bind_eq_some_iff.mp hread
  obtain rfl := Option.some.inj hread
  have hfirst := rest_of_u32 (ok_of_toOption h1)
  rw [rest_of_arr (ok_of_toOption h2), rest_of_arr (ok_of_toOption h3), rest_of_u32 (ok_of_toOption h4),
    rest_of_u32 (ok_of_toOption h5), rest_of_u32 (ok_of_toOption h6), rest_of_u32 (ok_of_toOption h7),
    rest_of_u32 (ok_of_toOption h8), rest_of_arr (ok_of_toOption h9), rest_of_u32 (ok_of_toOption h10),
    rest_of_u16 (ok_of_toOption h11), rest_of_u8 (ok_of_toOption h12), rest_of_u8 (ok_of_toOption h13),
    rest_of_arr (ok_of_toOption h14), rest_of_u32 (ok_of_toOption h15),
    rest_of_arr (ok_of_toOption h16)] at hfirst
  have hend : r16.rest = [] := by
    have hlen := congrArg List.length hfirst
    have hb : (ByteReader.new b).rest.length = 164 := not_not.mp hlength
    have hsize : HASH_SIZE = 32 := rfl
    simp only [hb, List.length_append, length_leBytes, Vector.length_toList, List.length_cons] at hlen
    exact List.length_eq_zero_iff.mp (by omega)
  rw [hend] at hfirst
  show _ = (ByteReader.new b).rest
  rw [hfirst, serialize, timeOnWire_of_read rfl]
  simp only [UInt32.and_assoc, UInt32.and_self, flag_or_not_flag hv, word, List.append_assoc, List.cons_append,
    List.nil_append, List.append_nil]

section Hashes

variable (H : Hashing) (h : BlockHeaderV2)

/-- The hash stages do not read the flag of the version. -/
theorem hashStages_unflagged :
    ({ h with version := h.version &&& ~~~V2_FLAG } : BlockHeaderV2).hashStages H = h.hashStages H := by
  have hpreimage : ({ h with version := h.version &&& ~~~V2_FLAG } : BlockHeaderV2).h1Preimage H =
      h.h1Preimage H := by
    simp only [h1Preimage, not_flag_or_flag, timeOnWire]
  simp only [hashStages, hpreimage]

theorem powHashes_unflagged :
    ({ h with version := h.version &&& ~~~V2_FLAG } : BlockHeaderV2).powHashes H = h.powHashes H := by
  simp only [powHashes, hashStages_unflagged]
  rfl

/-- Headers of the same bytes differ at most in the flag of their versions. -/
theorem unflagged_eq_of_serialize {h h' : BlockHeaderV2} (heq : h.serialize = h'.serialize) :
    ({ h with version := h.version &&& ~~~V2_FLAG } : BlockHeaderV2) =
      { h' with version := h'.version &&& ~~~V2_FLAG } := by
  apply Option.some.inj
  rw [← deserialize_serialize, ← deserialize_serialize, heq]

end Hashes

end BlockHeaderV2
end Ratum
