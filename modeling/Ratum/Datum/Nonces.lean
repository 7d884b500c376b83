import Mathlib.Data.List.Nodup
import Ratum.Base.Xor
import Ratum.Datum.Framing

/-!
# The nonces of a session

A nonce is a little-endian counter of 192 bits. The two sides start so far apart that neither reaches the
other's start before it has sent `2 ^ 160` messages.
-/

namespace Ratum

theorem leNat_append (a b : Bytes) : leNat (a ++ b) = leNat a + 256 ^ a.length * leNat b := by
  induction a with
  | nil => simp [leNat]
  | cons x a ih =>
      rw [List.cons_append, leNat, leNat, ih, List.length_cons, Nat.pow_succ', Nat.mul_add, Nat.mul_assoc,
        Nat.add_assoc]

/-- Bytes of one length are told apart by their number. -/
theorem leNat_inj {a b : Bytes} (hlength : a.length = b.length) (heq : leNat a = leNat b) : a = b := by
  induction a generalizing b with
  | nil => exact (List.length_eq_zero_iff.mp hlength.symm).symm
  | cons x a ih =>
      cases b with
      | nil => cases hlength
      | cons y b =>
          rw [leNat, leNat] at heq
          have hx := x.toNat_lt
          have hy := y.toNat_lt
          have hxy : x = y := UInt8.toNat_inj.mp (by omega)
          rw [hxy, ih (Nat.succ.inj hlength) (by omega)]

/-! ### The counter -/

theorem leNat_incrementWords {bytes : Bytes} {k : Nat} (hlength : bytes.length = 4 * k) :
    leNat (incrementWords bytes) = (leNat bytes + 1) % 256 ^ bytes.length := by
  induction k generalizing bytes with
  | zero =>
      obtain rfl := List.length_eq_zero_iff.mp hlength
      rfl
  | succ k ih =>
      match bytes, hlength with
      | b0 :: b1 :: b2 :: b3 :: rest, hlength =>
          have hrest : rest.length = 4 * k := by
            simp only [List.length_cons] at hlength
            omega
          have hpow4 : (256 : Nat) ^ 4 = 2 ^ 32 := rfl
          have hword : leNat [b0, b1, b2, b3] < 2 ^ 32 := lt_of_lt_of_eq (leNat_lt _) hpow4
          have hsplit : leNat (b0 :: b1 :: b2 :: b3 :: rest) =
              leNat [b0, b1, b2, b3] + 2 ^ 32 * leNat rest := by
            rw [show b0 :: b1 :: b2 :: b3 :: rest = [b0, b1, b2, b3] ++ rest from rfl, leNat_append,
              show [b0, b1, b2, b3].length = 4 from rfl, hpow4]
          have hpow : 256 ^ (b0 :: b1 :: b2 :: b3 :: rest).length = 2 ^ 32 * 256 ^ rest.length := by
            show 256 ^ (rest.length + 4) = _
            rw [Nat.pow_add, hpow4, Nat.mul_comm]
          rw [incrementWords, hsplit, hpow]
          generalize leNat [b0, b1, b2, b3] = w at hword ⊢
          have hraised : (UInt32.ofNat w + 1).toNat = (w + 1) % 2 ^ 32 := by
            rw [UInt32.toNat_add, UInt32.toNat_ofNat', Nat.mod_add_mod]
            rfl
          have hlow : leNat (leBytes WORD_SIZE (UInt32.ofNat w + 1).toNat) = (w + 1) % 2 ^ 32 := by
            rw [leNat_leBytes, hraised]
            exact Nat.mod_mod _ _
          have hlt := leNat_lt rest
          rw [leNat_append, hlow, length_leBytes, WORD_SIZE, hpow4]
          by_cases hcarry : w + 1 = 2 ^ 32
          · -- the word comes round to zero and the next one is raised
            rw [if_neg (by rw [not_not, ← UInt32.toNat_inj, hraised, hcarry]; rfl), ih hrest, hcarry, Nat.mod_self,
              Nat.zero_add, Nat.add_right_comm, hcarry, Nat.add_comm (2 ^ 32), ← Nat.mul_succ,
              Nat.mul_mod_mul_left]
          · rw [if_pos, Nat.mod_eq_of_lt (show w + 1 < 2 ^ 32 by omega), Nat.add_right_comm w (2 ^ 32 * leNat rest),
              Nat.mod_eq_of_lt]
            · calc w + 1 + 2 ^ 32 * leNat rest < 2 ^ 32 + 2 ^ 32 * leNat rest := by omega
                _ = 2 ^ 32 * (leNat rest + 1) := by rw [Nat.mul_succ, Nat.add_comm]
                _ ≤ 2 ^ 32 * 256 ^ rest.length := Nat.mul_le_mul_left _ hlt
            · rw [ne_eq, ← UInt32.toNat_inj, hraised, Nat.mod_eq_of_lt (by omega)]
              exact Nat.succ_ne_zero w

namespace Nonce

/-- The number the nonce counts to. -/
def value (nonce : Nonce) : Nat := leNat nonce.toList

/-- How many values a nonce has. -/
def RANGE : Nat := 2 ^ 192

theorem value_lt (nonce : Nonce) : nonce.value < RANGE := by
  have h := leNat_lt nonce.toList
  rw [Vector.length_toList] at h
  exact h

/-- **An increment counts up by one**, and comes round after the last. -/
theorem value_increment (nonce : Nonce) : (incrementNonce nonce).value = (nonce.value + 1) % RANGE := by
  have h := @leNat_incrementWords nonce.toList 6 (by rw [Vector.length_toList]; rfl)
  rw [Vector.length_toList] at h
  exact h

/-- The nonce after some messages. -/
def after (nonce : Nonce) (sent : Nat) : Nonce := incrementNonce^[sent] nonce

theorem after_succ (nonce : Nonce) (sent : Nat) : nonce.after (sent + 1) = incrementNonce (nonce.after sent) :=
  Function.iterate_succ_apply' _ _ _

theorem value_after (nonce : Nonce) (sent : Nat) : (nonce.after sent).value = (nonce.value + sent) % RANGE := by
  induction sent with
  | zero => exact (Nat.mod_eq_of_lt nonce.value_lt).symm
  | succ sent ih =>
      rw [after_succ, value_increment, ih, Nat.mod_add_mod, Nat.add_assoc]

/-- A side comes back to a nonce only after it has been through them all. -/
theorem after_inj {nonce : Nonce} {i j : Nat} (hi : i < RANGE) (hj : j < RANGE)
    (heq : nonce.after i = nonce.after j) : i = j := by
  have hvalue := congrArg value heq
  rw [value_after, value_after] at hvalue
  have hlt := nonce.value_lt
  simp only [RANGE] at hvalue hlt hi hj
  omega

end Nonce

/-! ### The two starts -/

/-- The mask moves a word by two at least, and by less than goes round. -/
theorem sender_mask_apart (w : UInt32) :
    (w.toNat + 2 ≤ (w ^^^ SENDER_MASK).toNat ∨ (w ^^^ SENDER_MASK).toNat + 2 ≤ w.toNat) ∧
      (w ^^^ SENDER_MASK).toNat + 2 ≤ w.toNat + 2 ^ 32 ∧
        w.toNat + 2 ≤ (w ^^^ SENDER_MASK).toNat + 2 ^ 32 := by
  have hmask : SENDER_MASK.toNat = 2 ^ 30 + 0x17575757 := by decide
  have hdistance := @Nat.two_pow_le_xor_distance 30 0x17575757 (by decide) w.toNat
  have hup := Nat.xor_le_add w.toNat (2 ^ 30 + 0x17575757)
  have hdown := Nat.le_xor_add w.toNat (2 ^ 30 + 0x17575757)
  rw [UInt32.toNat_xor, hmask]
  omega

theorem wordBytes_append (a b : List UInt32) : wordBytes (a ++ b) = wordBytes a ++ wordBytes b :=
  List.flatMap_append

/-- The number of the last word's worth and of the words below it. -/
theorem leNat_wordBytes_concat (words : List UInt32) (w : UInt32) :
    leNat (wordBytes (words ++ [w])) = leNat (wordBytes words) + 2 ^ (32 * words.length) * w.toNat := by
  have hone : leNat (wordBytes [w]) = w.toNat := by
    rw [wordBytes, List.flatMap_singleton, leNat_leBytes]
    exact Nat.mod_eq_of_lt w.toNat_lt
  rw [wordBytes_append, leNat_append, hone, length_wordBytes, show (256 : Nat) = 2 ^ 8 from rfl, ← Nat.pow_mul,
    WORD_SIZE, ← Nat.mul_assoc]

/-- **The two sides of a session never use one nonce** while each has sent fewer than `2 ^ 160`. -/
theorem SessionNonces.after_ne (nk : UInt32) (sessionSignPk : Vector UInt8 32) {i j : Nat} (hi : i < 2 ^ 160)
    (hj : j < 2 ^ 160) :
    (derive nk sessionSignPk).clientSender.after i ≠ (derive nk sessionSignPk).clientReceiver.after j := by
  intro heq
  have hvalue := congrArg Nonce.value heq
  rw [Nonce.value_after, Nonce.value_after] at hvalue
  obtain ⟨words, w, hwords⟩ : ∃ (words : List UInt32) (w : UInt32), SessionNonces.words nk sessionSignPk = words ++ [w] := by
    have hne : SessionNonces.words nk sessionSignPk ≠ [] := by
      intro hnil
      have := congrArg List.length hnil
      rw [SessionNonces.words, length_receiverWords] at this
      cases this
    exact ⟨_, _, (List.dropLast_concat_getLast hne).symm⟩
  have hlength : words.length = 5 := by
    have := congrArg List.length hwords
    rw [SessionNonces.words, length_receiverWords, List.length_append] at this
    change 6 = words.length + 1 at this
    omega
  have hreceiver : (derive nk sessionSignPk).clientReceiver.value =
      leNat (wordBytes words) + 2 ^ 160 * w.toNat := by
    have h := leNat_wordBytes_concat words w
    rw [← hwords, hlength] at h
    exact h
  have hsender : (derive nk sessionSignPk).clientSender.value =
      leNat (wordBytes (words.map (· ^^^ SENDER_MASK))) + 2 ^ 160 * (w ^^^ SENDER_MASK).toNat := by
    have h := leNat_wordBytes_concat (words.map (· ^^^ SENDER_MASK)) (w ^^^ SENDER_MASK)
    have hmap : words.map (· ^^^ SENDER_MASK) ++ [w ^^^ SENDER_MASK] =
        (SessionNonces.words nk sessionSignPk).map (· ^^^ SENDER_MASK) := by
      rw [hwords, List.map_append]
      rfl
    rw [hmap, List.length_map, hlength] at h
    exact h
  have hlow (words : List UInt32) (hlength : words.length = 5) : leNat (wordBytes words) < 2 ^ 160 := by
    have h := leNat_lt (wordBytes words)
    rwa [length_wordBytes, hlength] at h
  have hlow₁ := hlow words hlength
  have hlow₂ := hlow (words.map (· ^^^ SENDER_MASK)) (by rw [List.length_map, hlength])
  obtain ⟨hapart, hup, hdown⟩ := sender_mask_apart w
  rw [hreceiver, hsender, Nonce.RANGE] at hvalue
  have ht := w.toNat_lt
  have hu := (w ^^^ SENDER_MASK).toNat_lt
  omega

end Ratum
