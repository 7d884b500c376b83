import Mathlib.Data.Nat.Bitwise
import Ratum.Core.Bytes

/-!
# The frame on the wire

`core/src/datum/framing.rs`: a four-byte header masked by a ratchet both sides advance in step, and the
nonces and header keys both sides derive from the `nk` the hello carries.
-/

namespace Ratum

def HEADER_LEN : Nat := 4

def CMD_LEN_BITS : UInt32 := 22

def CMD_LEN_MASK : UInt32 := (1 <<< CMD_LEN_BITS) - 1

def MAX_CMD_LEN : Nat := CMD_LEN_MASK.toNat

def INITIAL_HEADER_KEY : UInt32 := 0xdc871829

def NONCE_LEN : Nat := 24

def WORD_SIZE : Nat := 4

def NONCE_SEED_AT : Nat := 7

def NONCE_STEP : UInt32 := 42

def SENDER_MASK : UInt32 := 0x57575757

def HELLO_OR_PING : UInt8 := 1

def HANDSHAKE_RESPONSE : UInt8 := 2

def RESERVED_SHIFT : UInt32 := CMD_LEN_BITS

def RESERVED_MASK : UInt32 := 0x3

def SIGNED_BIT : UInt32 := 24

def ENCRYPTED_PUBKEY_BIT : UInt32 := 25

def ENCRYPTED_CHANNEL_BIT : UInt32 := 26

def PROTO_CMD_SHIFT : UInt32 := 27

def PROTO_CMD_MASK : UInt32 := 0x1f

/-! ### The header -/

structure FrameHeader where
  cmdLen : UInt32
  reserved : UInt8
  isSigned : Bool
  isEncryptedPubkey : Bool
  isEncryptedChannel : Bool
  protoCmd : UInt8
  deriving DecidableEq

namespace FrameHeader

def default : FrameHeader := ⟨0, 0, false, false, false, 0⟩

/-- `u32::from` of a flag. -/
def bit (set : Bool) : UInt32 := if set then 1 else 0

/-- The four bytes as a word. -/
def word (h : FrameHeader) : UInt32 :=
  (h.cmdLen &&& CMD_LEN_MASK) |||
    ((h.reserved.toUInt32 &&& RESERVED_MASK) <<< RESERVED_SHIFT) |||
    (bit h.isSigned <<< SIGNED_BIT) |||
    (bit h.isEncryptedPubkey <<< ENCRYPTED_PUBKEY_BIT) |||
    (bit h.isEncryptedChannel <<< ENCRYPTED_CHANNEL_BIT) |||
    ((h.protoCmd.toUInt32 &&& PROTO_CMD_MASK) <<< PROTO_CMD_SHIFT)

def ofWord (v : UInt32) : FrameHeader where
  cmdLen := v &&& CMD_LEN_MASK
  reserved := ((v >>> RESERVED_SHIFT) &&& RESERVED_MASK).toUInt8
  isSigned := v &&& (1 <<< SIGNED_BIT) ≠ 0
  isEncryptedPubkey := v &&& (1 <<< ENCRYPTED_PUBKEY_BIT) ≠ 0
  isEncryptedChannel := v &&& (1 <<< ENCRYPTED_CHANNEL_BIT) ≠ 0
  protoCmd := ((v >>> PROTO_CMD_SHIFT) &&& PROTO_CMD_MASK).toUInt8

def toBytes (h : FrameHeader) : Bytes := leBytes HEADER_LEN h.word.toNat

def fromBytes (b : Bytes) : FrameHeader := ofWord (UInt32.ofNat (leNat b))

/-- Every field fits the bits it has in the word. -/
structure Fits (h : FrameHeader) : Prop where
  cmdLen_le : h.cmdLen.toNat ≤ MAX_CMD_LEN
  reserved_lt : h.reserved.toNat < 4
  protoCmd_lt : h.protoCmd.toNat < 32

end FrameHeader

/-! ### The header read back -/

section Word

variable {x y k : UInt32}

/-- A word put in above another. -/
theorem toNat_or_shiftLeft (hk : k.toNat < 32) (hx : x.toNat < 2 ^ k.toNat)
    (hy : y.toNat < 2 ^ (32 - k.toNat)) : (x ||| y <<< k).toNat = x.toNat + 2 ^ k.toNat * y.toNat := by
  have hlt : y.toNat * 2 ^ k.toNat < 2 ^ 32 := by
    have hmul := Nat.mul_lt_mul_of_pos_right hy (Nat.two_pow_pos k.toNat)
    rwa [← Nat.pow_add, Nat.sub_add_cancel (Nat.le_of_lt hk)] at hmul
  rw [UInt32.toNat_or, UInt32.toNat_shiftLeft, Nat.mod_eq_of_lt hk, Nat.shiftLeft_eq, Nat.mod_eq_of_lt hlt,
    Nat.or_comm, Nat.mul_comm, ← Nat.two_pow_add_eq_or_of_lt hx, Nat.add_comm]

theorem ofNat_leNat_leBytes (v : UInt32) : UInt32.ofNat (leNat (leBytes HEADER_LEN v.toNat)) = v := by
  rw [leNat_leBytes]
  show UInt32.ofNat (v.toNat % 2 ^ 32) = v
  rw [Nat.mod_eq_of_lt v.toNat_lt, UInt32.ofNat_toNat]

theorem toNat_bit (set : Bool) : (FrameHeader.bit set).toNat = set.toNat := by
  cases set <;> rfl

/-- A word's bit is set when half of what is above it is odd. -/
theorem and_bit_ne_zero_iff {v : UInt32} (hk : k.toNat < 32) :
    v &&& (1 <<< k) ≠ 0 ↔ v.toNat / 2 ^ k.toNat % 2 = 1 := by
  have hone : ((1 : UInt32) <<< k).toNat = 2 ^ k.toNat := by
    rw [UInt32.toNat_shiftLeft, Nat.mod_eq_of_lt hk, Nat.shiftLeft_eq]
    show 1 * 2 ^ k.toNat % 2 ^ 32 = 2 ^ k.toNat
    rw [Nat.one_mul, Nat.mod_eq_of_lt (Nat.pow_lt_pow_right Nat.one_lt_two hk)]
  rw [ne_eq, ← UInt32.toNat_inj, UInt32.toNat_and, hone, Nat.and_two_pow, Nat.testBit_eq_decide_div_mod_eq]
  have hpos := Nat.two_pow_pos k.toNat
  by_cases hodd : v.toNat / 2 ^ k.toNat % 2 = 1
  · simp [hodd]
  · simp [hodd]

end Word

namespace FrameHeader

theorem word_toNat {h : FrameHeader} (hfits : h.Fits) :
    h.word.toNat = h.cmdLen.toNat + 2 ^ 22 * h.reserved.toNat + 2 ^ 24 * h.isSigned.toNat +
      2 ^ 25 * h.isEncryptedPubkey.toNat + 2 ^ 26 * h.isEncryptedChannel.toNat +
        2 ^ 27 * h.protoCmd.toNat := by
  obtain ⟨hlen, hreserved, hcmd⟩ := hfits
  change h.cmdLen.toNat ≤ 2 ^ 22 - 1 at hlen
  have hreserved' : h.reserved.toUInt32.toNat = h.reserved.toNat := UInt8.toNat_toUInt32 _
  have hcmd' : h.protoCmd.toUInt32.toNat = h.protoCmd.toNat := UInt8.toNat_toUInt32 _
  have hlenMasked : (h.cmdLen &&& CMD_LEN_MASK).toNat = h.cmdLen.toNat := by
    rw [UInt32.toNat_and]
    exact (Nat.and_two_pow_sub_one_eq_mod _ 22).trans (Nat.mod_eq_of_lt (by omega))
  have hreservedMasked : (h.reserved.toUInt32 &&& RESERVED_MASK).toNat = h.reserved.toNat := by
    rw [UInt32.toNat_and, hreserved']
    exact (Nat.and_two_pow_sub_one_eq_mod _ 2).trans (Nat.mod_eq_of_lt (by omega))
  have hcmdMasked : (h.protoCmd.toUInt32 &&& PROTO_CMD_MASK).toNat = h.protoCmd.toNat := by
    rw [UInt32.toNat_and, hcmd']
    exact (Nat.and_two_pow_sub_one_eq_mod _ 5).trans (Nat.mod_eq_of_lt (by omega))
  have hsigned := Bool.toNat_lt h.isSigned
  have hpubkey := Bool.toNat_lt h.isEncryptedPubkey
  have hchannel := Bool.toNat_lt h.isEncryptedChannel
  have h22 : RESERVED_SHIFT.toNat = 22 := rfl
  have h24 : SIGNED_BIT.toNat = 24 := rfl
  have h25 : ENCRYPTED_PUBKEY_BIT.toNat = 25 := rfl
  have h26 : ENCRYPTED_CHANNEL_BIT.toNat = 26 := rfl
  have h27 : PROTO_CMD_SHIFT.toNat = 27 := rfl
  have hword0 := @toNat_or_shiftLeft (h.cmdLen &&& CMD_LEN_MASK) (h.reserved.toUInt32 &&& RESERVED_MASK)
    RESERVED_SHIFT (by decide) (by rw [hlenMasked, h22]; omega) (by rw [hreservedMasked, h22]; omega)
  rw [hlenMasked, hreservedMasked, h22] at hword0
  have hword1 := @toNat_or_shiftLeft _ (bit h.isSigned) SIGNED_BIT (by decide)
    (by rw [hword0, h24]; omega) (by rw [toNat_bit, h24]; omega)
  rw [hword0, toNat_bit, h24] at hword1
  have hword2 := @toNat_or_shiftLeft _ (bit h.isEncryptedPubkey) ENCRYPTED_PUBKEY_BIT (by decide)
    (by rw [hword1, h25]; omega) (by rw [toNat_bit, h25]; omega)
  rw [hword1, toNat_bit, h25] at hword2
  have hword3 := @toNat_or_shiftLeft _ (bit h.isEncryptedChannel) ENCRYPTED_CHANNEL_BIT (by decide)
    (by rw [hword2, h26]; omega) (by rw [toNat_bit, h26]; omega)
  rw [hword2, toNat_bit, h26] at hword3
  have hword4 := @toNat_or_shiftLeft _ (h.protoCmd.toUInt32 &&& PROTO_CMD_MASK) PROTO_CMD_SHIFT (by decide)
    (by rw [hword3, h27]; omega) (by rw [hcmdMasked, h27]; omega)
  rw [hword3, hcmdMasked, h27] at hword4
  exact hword4

theorem decide_bit {v k : UInt32} {set : Bool} (hk : k.toNat < 32)
    (hset : v.toNat / 2 ^ k.toNat % 2 = set.toNat) : decide (v &&& (1 <<< k) ≠ 0) = set := by
  cases set with
  | true => exact decide_eq_true ((and_bit_ne_zero_iff hk).mpr hset)
  | false =>
      refine decide_eq_false fun hne => ?_
      rw [(and_bit_ne_zero_iff hk).mp hne] at hset
      cases hset

/-- **A header is read back as it was written**, when its fields fit. -/
theorem fromBytes_toBytes {h : FrameHeader} (hfits : h.Fits) : fromBytes h.toBytes = h := by
  have hword := word_toNat hfits
  obtain ⟨hlen, hreserved, hcmd⟩ := hfits
  change h.cmdLen.toNat ≤ 2 ^ 22 - 1 at hlen
  have hsigned := Bool.toNat_lt h.isSigned
  have hpubkey := Bool.toNat_lt h.isEncryptedPubkey
  have hchannel := Bool.toNat_lt h.isEncryptedChannel
  rw [fromBytes, toBytes, ofNat_leNat_leBytes, ofWord]
  have hlen' : h.word &&& CMD_LEN_MASK = h.cmdLen := by
    rw [← UInt32.toNat_inj, UInt32.toNat_and]
    refine (Nat.and_two_pow_sub_one_eq_mod _ 22).trans ?_
    rw [hword]
    omega
  have hreserved' : ((h.word >>> RESERVED_SHIFT) &&& RESERVED_MASK).toUInt8 = h.reserved := by
    rw [← UInt8.toNat_inj, UInt32.toNat_toUInt8, UInt32.toNat_and, UInt32.toNat_shiftRight,
      Nat.shiftRight_eq_div_pow]
    show (h.word.toNat / 2 ^ 22 &&& (2 ^ 2 - 1)) % 2 ^ 8 = _
    rw [Nat.and_two_pow_sub_one_eq_mod, hword]
    omega
  have hcmd' : ((h.word >>> PROTO_CMD_SHIFT) &&& PROTO_CMD_MASK).toUInt8 = h.protoCmd := by
    rw [← UInt8.toNat_inj, UInt32.toNat_toUInt8, UInt32.toNat_and, UInt32.toNat_shiftRight,
      Nat.shiftRight_eq_div_pow]
    show (h.word.toNat / 2 ^ 27 &&& (2 ^ 5 - 1)) % 2 ^ 8 = _
    rw [Nat.and_two_pow_sub_one_eq_mod, hword]
    omega
  have hsigned' : decide (h.word &&& (1 <<< SIGNED_BIT) ≠ 0) = h.isSigned := by
    refine decide_bit (by decide) ?_
    show h.word.toNat / 2 ^ 24 % 2 = _
    rw [hword]
    omega
  have hpubkey' : decide (h.word &&& (1 <<< ENCRYPTED_PUBKEY_BIT) ≠ 0) = h.isEncryptedPubkey := by
    refine decide_bit (by decide) ?_
    show h.word.toNat / 2 ^ 25 % 2 = _
    rw [hword]
    omega
  have hchannel' : decide (h.word &&& (1 <<< ENCRYPTED_CHANNEL_BIT) ≠ 0) = h.isEncryptedChannel := by
    refine decide_bit (by decide) ?_
    show h.word.toNat / 2 ^ 26 % 2 = _
    rw [hword]
    omega
  rw [hlen', hreserved', hcmd', hsigned', hpubkey', hchannel']

end FrameHeader

/-! ### The ratchet of the header keys -/

/-- `u32::rotate_left`. -/
def rotateLeft (x : UInt32) (n : UInt32) : UInt32 := (x <<< n) ||| (x >>> (32 - n))

def feedback (i : UInt32) : UInt32 :=
  let k := i * 0xcc9e2d51
  let k := rotateLeft k 15
  let k := k * 0x1b873593
  let h := 0xb10cfeed ^^^ k
  let h := rotateLeft h 13
  let h := h * 5 + 0xe6546b64
  let h := h ^^^ 4
  let h := h ^^^ (h >>> 16)
  let h := h * 0x85ebca6b
  let h := h ^^^ (h >>> 13)
  let h := h * 0xc2b2ae35
  h ^^^ (h >>> 16)

structure HeaderKeyRatchet where
  key : UInt32
  deriving DecidableEq

namespace HeaderKeyRatchet

def initial : HeaderKeyRatchet := ⟨INITIAL_HEADER_KEY⟩

def advance (r : HeaderKeyRatchet) : HeaderKeyRatchet := ⟨feedback r.key⟩

def mask (r : HeaderKeyRatchet) (h : FrameHeader) : HeaderKeyRatchet × Bytes :=
  (r.advance, leBytes HEADER_LEN (UInt32.ofNat (leNat h.toBytes) ^^^ r.key).toNat)

def unmask (r : HeaderKeyRatchet) (b : Bytes) : HeaderKeyRatchet × FrameHeader :=
  (r.advance, FrameHeader.fromBytes (leBytes HEADER_LEN (UInt32.ofNat (leNat b) ^^^ r.key).toNat))

theorem length_mask (r : HeaderKeyRatchet) (h : FrameHeader) : (r.mask h).2.length = HEADER_LEN :=
  length_leBytes _ _

/-- The two ends of a ratchet stay in step, and the header comes through. -/
theorem unmask_mask (r : HeaderKeyRatchet) {h : FrameHeader} (hfits : h.Fits) :
    r.unmask (r.mask h).2 = (r.advance, h) := by
  rw [unmask, mask]
  dsimp only
  rw [ofNat_leNat_leBytes, UInt32.xor_assoc, UInt32.xor_self, UInt32.xor_zero]
  congr 1
  rw [FrameHeader.toBytes, ofNat_leNat_leBytes]
  exact FrameHeader.fromBytes_toBytes hfits

example : (initial.mask { FrameHeader.default with
    cmdLen := 42, isSigned := true, isEncryptedPubkey := true, protoCmd := 1 }).2 = [0x03, 0x18, 0x87, 0xd7] := by
  decide

end HeaderKeyRatchet

structure HeaderKeys where
  clientToServer : UInt32
  serverToClient : UInt32

def HeaderKeys.fromNk (nk : UInt32) : HeaderKeys := ⟨feedback nk, feedback (~~~nk)⟩

/-! ### The nonces -/

abbrev Nonce := Vector UInt8 NONCE_LEN

/-- The words of the receiver's nonce, each from the complement of the one before. -/
def receiverWords : Nat → UInt32 → List UInt32
  | 0, _ => []
  | k + 1, n =>
      let r := feedback (n - NONCE_STEP)
      r :: receiverWords k (~~~r)

def wordBytes (words : List UInt32) : Bytes := words.flatMap fun w => leBytes WORD_SIZE w.toNat

@[simp] theorem length_receiverWords (k : Nat) (n : UInt32) : (receiverWords k n).length = k := by
  induction k generalizing n with
  | zero => rfl
  | succ k ih => rw [receiverWords, List.length_cons, ih]

@[simp] theorem length_wordBytes (words : List UInt32) :
    (wordBytes words).length = WORD_SIZE * words.length := by
  induction words with
  | nil => rfl
  | cons w words ih =>
      rw [wordBytes, List.flatMap_cons, List.length_append, length_leBytes, ← wordBytes, ih,
        List.length_cons, Nat.mul_succ, Nat.add_comm]

structure SessionNonces where
  clientReceiver : Nonce
  clientSender : Nonce

/-- The words of a nonce. -/
def NONCE_WORDS : Nat := NONCE_LEN / WORD_SIZE

namespace SessionNonces

/-- The words both nonces are derived from. -/
def words (nk : UInt32) (sessionSignPk : Vector UInt8 32) : List UInt32 :=
  let seed := (sessionSignPk.toList.drop NONCE_SEED_AT).take WORD_SIZE
  receiverWords NONCE_WORDS ((nk - NONCE_STEP) ^^^ UInt32.ofNat (leNat seed))

def derive (nk : UInt32) (sessionSignPk : Vector UInt8 32) : SessionNonces where
  clientReceiver :=
    ⟨(wordBytes (words nk sessionSignPk)).toArray, by
      rw [List.size_toArray, length_wordBytes, words, length_receiverWords]
      rfl⟩
  clientSender :=
    ⟨(wordBytes ((words nk sessionSignPk).map (· ^^^ SENDER_MASK))).toArray, by
      rw [List.size_toArray, length_wordBytes, List.length_map, words, length_receiverWords]
      rfl⟩

end SessionNonces

/-- Raises the first word, and the next when it has come round to zero. -/
def incrementWords : Bytes → Bytes
  | b0 :: b1 :: b2 :: b3 :: rest =>
      let raised := UInt32.ofNat (leNat [b0, b1, b2, b3]) + 1
      leBytes WORD_SIZE raised.toNat ++ (if raised ≠ 0 then rest else incrementWords rest)
  | rest => rest

theorem length_incrementWords (bytes : Bytes) : (incrementWords bytes).length = bytes.length := by
  fun_induction incrementWords bytes with
  | case1 b0 b1 b2 b3 rest raised ih =>
      rw [List.length_append, length_leBytes]
      split
      · show 4 + _ = _ + 1 + 1 + 1 + 1
        omega
      · show 4 + _ = _ + 1 + 1 + 1 + 1
        omega
  | case2 bytes _ => rfl

def incrementNonce (nonce : Nonce) : Nonce :=
  ⟨(incrementWords nonce.toList).toArray, by
    rw [List.size_toArray, length_incrementWords, Vector.length_toList]⟩

end Ratum
