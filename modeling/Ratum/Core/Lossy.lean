import Ratum.Core.Bytes

/-!
# Lossy decoding adds no zero byte

Each whole sequence decodes to the character it encodes, and each ill-formed one to the replacement
character, so text without a zero byte decodes to text without one.
-/

namespace Ratum

/-- Only the zero character is encoded with a zero byte. -/
theorem toNat_eq_zero_of_mem_utf8EncodeChar {c : Char} (hmem : 0 ∈ String.utf8EncodeChar c) :
    c.toNat = 0 := by
  show c.val.toNat = 0
  rw [String.utf8EncodeChar] at hmem
  generalize c.val.toNat = v at hmem ⊢
  split at hmem
  · simp only [List.mem_cons, List.not_mem_nil, or_false, ← UInt8.toNat_inj, UInt8.toNat_ofNat'] at hmem
    change 0 = v % 256 at hmem
    omega
  · exfalso
    split at hmem
    · simp only [List.mem_cons, List.not_mem_nil, or_false, ← UInt8.toNat_inj, UInt8.toNat_ofNat',
        UInt8.toNat_ofNat, Nat.reducePow, Nat.reduceMod] at hmem
      omega
    · split at hmem <;>
        simp only [List.mem_cons, List.not_mem_nil, or_false, ← UInt8.toNat_inj, UInt8.toNat_ofNat',
          UInt8.toNat_ofNat, Nat.reducePow, Nat.reduceMod] at hmem <;>
        omega

theorem toNat_ofNat_of_valid {n : Nat} (hvalid : n.isValidChar) : (Char.ofNat n).toNat = n := by
  rw [Char.ofNat, dif_pos hvalid]
  rfl

theorem isContinuation_iff {b : UInt8} : isContinuation b = true ↔ 0x80 ≤ b.toNat ∧ b.toNat ≤ 0xbf := by
  rw [isContinuation, Bool.and_eq_true, decide_eq_true_iff, decide_eq_true_iff, UInt8.le_iff_toNat_le,
    UInt8.le_iff_toNat_le]
  rfl

/-- What the second byte leaves out is what would spell a shorter sequence, a surrogate or a number over
the last character. -/
theorem secondByteFollows_bounds {b0 b1 : UInt8} (hfollows : secondByteFollows b0 b1 = true) :
    (0x80 ≤ b1.toNat ∧ b1.toNat ≤ 0xbf) ∧ (b0.toNat = 0xe0 → 0xa0 ≤ b1.toNat) ∧
      (b0.toNat = 0xed → b1.toNat ≤ 0x9f) ∧ (b0.toNat = 0xf0 → 0x90 ≤ b1.toNat) ∧
      (b0.toNat = 0xf4 → b1.toNat ≤ 0x8f) := by
  simp only [secondByteFollows, beq_iff_eq, ← UInt8.toNat_inj] at hfollows
  simp only [UInt8.reduceToNat] at hfollows
  split_ifs at hfollows <;>
    simp only [isContinuation_iff, Bool.and_eq_true, decide_eq_true_iff, UInt8.le_iff_toNat_le,
      UInt8.reduceToNat] at hfollows <;>
    omega

/-- A whole sequence without a zero byte holds a character, and not the zero one. -/
theorem codePoint_of_whole {b0 : UInt8} {rest : Bytes} (hzero : 0 ∉ b0 :: rest) {len : Nat}
    (hwhole : utf8Head (b0 :: rest) = (true, len)) :
    (codePoint ((b0 :: rest).take len)).isValidChar ∧ codePoint ((b0 :: rest).take len) ≠ 0 := by
  have hb0 : b0.toNat ≠ 0 := fun h => hzero (List.mem_cons.mpr (.inl (UInt8.toNat_inj.mp h).symm))
  have hcont {b : UInt8} (h : ¬ (!isContinuation b) = true) : 0x80 ≤ b.toNat ∧ b.toNat ≤ 0xbf :=
    isContinuation_iff.mp (by simpa using h)
  have hsecond {b : UInt8} (h : ¬ (!secondByteFollows b0 b) = true) :=
    @secondByteFollows_bounds b0 b (by simpa using h)
  have hnone : ¬ 0x80 ≤ (0 : UInt8).toNat := by decide
  simp only [utf8Head, Bool.and_eq_true, decide_eq_true_iff, UInt8.lt_iff_toNat_lt, UInt8.le_iff_toNat_le,
    UInt8.reduceToNat] at hwhole
  rw [Nat.isValidChar]
  split_ifs at hwhole with hone htwo h1 hthree h2 h3 hfour h4 h5 h6 <;>
    simp only [Prod.mk.injEq, Bool.false_eq_true, false_and, true_and] at hwhole <;>
    subst hwhole
  · show (b0.toNat < _ ∨ _) ∧ b0.toNat ≠ 0
    omega
  · have h1 := isContinuation_iff.mp h1
    rcases rest with _ | ⟨b1, rest⟩
    · exact absurd h1.1 hnone
    · change 0x80 ≤ b1.toNat ∧ b1.toNat ≤ 0xbf at h1
      show (b0.toNat % 32 * 64 + b1.toNat % 64 < _ ∨ _) ∧ b0.toNat % 32 * 64 + b1.toNat % 64 ≠ 0
      omega
  · have h2 := hsecond h2
    have h3 := hcont h3
    rcases rest with _ | ⟨b1, _ | ⟨b2, rest⟩⟩
    · exact absurd h2.1.1 hnone
    · exact absurd h3.1 hnone
    · simp only [List.getD_cons_zero, List.getD_cons_succ] at h2 h3
      simp only [List.take_succ_cons, List.take_zero, codePoint]
      omega
  · have h4 := hsecond h4
    have h5 := hcont h5
    have h6 := hcont h6
    rcases rest with _ | ⟨b1, _ | ⟨b2, _ | ⟨b3, rest⟩⟩⟩
    · exact absurd h4.1.1 hnone
    · exact absurd h5.1 hnone
    · exact absurd h6.1 hnone
    · simp only [List.getD_cons_zero, List.getD_cons_succ] at h4 h5 h6
      simp only [List.take_succ_cons, List.take_zero, codePoint]
      omega

theorem lossyChars_cons (n : Nat) (b : UInt8) (rest : Bytes) :
    lossyChars (n + 1) (b :: rest) =
      (if (utf8Head (b :: rest)).1 then Char.ofNat (codePoint ((b :: rest).take (utf8Head (b :: rest)).2))
        else Char.ofNat 0xfffd) :: lossyChars n ((b :: rest).drop (utf8Head (b :: rest)).2) := rfl

theorem toNat_ne_zero_of_mem_lossyChars {n : Nat} {bytes : Bytes} (hzero : 0 ∉ bytes) {c : Char}
    (hc : c ∈ lossyChars n bytes) : c.toNat ≠ 0 := by
  induction n generalizing bytes with
  | zero => exact absurd hc List.not_mem_nil
  | succ n ih =>
      cases bytes with
      | nil => exact absurd hc List.not_mem_nil
      | cons b rest =>
          rw [lossyChars_cons] at hc
          generalize hhead : utf8Head (b :: rest) = head at hc
          obtain ⟨whole, len⟩ := head
          obtain rfl | hrest := List.mem_cons.mp hc
          · cases whole with
            | false => exact (by decide : (Char.ofNat 0xfffd).toNat ≠ 0)
            | true =>
                obtain ⟨hvalid, hne⟩ := codePoint_of_whole hzero hhead
                show (Char.ofNat (codePoint ((b :: rest).take len))).toNat ≠ 0
                rwa [toNat_ofNat_of_valid hvalid]
          · exact ih (fun hmem => hzero (List.mem_of_mem_drop hmem)) hrest

/-- **Text without a zero byte decodes to text without one.** -/
theorem zero_notMem_fromUtf8Lossy {bytes : Bytes} (hzero : 0 ∉ bytes) :
    0 ∉ stringBytes (fromUtf8Lossy bytes) := by
  rw [fromUtf8Lossy]
  split
  · intro hmem
    apply hzero
    simpa [stringBytes] using hmem
  · rw [stringBytes_ofList, List.mem_flatMap]
    rintro ⟨c, hc, hmem⟩
    exact toNat_ne_zero_of_mem_lossyChars hzero hc (toNat_eq_zero_of_mem_utf8EncodeChar hmem)

end Ratum
