import Ratum.Base.FailsIn
import Ratum.Base.Suffix
import Ratum.Datum.Coinbase
import Ratum.Datum.Messages
import Ratum.Ledger.Split

/-!
# The split on the wire

`core/src/datum/messages/coinbaser.rs`: how the split of a value is written and read back. Both sides keep a
running total of the outputs in a `u64`, the writer's saturating and the reader's wrapping where it is not
checked.
-/

namespace Ratum

def COINBASER : UInt8 := 0x11

def MAX_COINBASER_BLOB_LEN : Nat := 65535

def MIN_COINBASER_OUTPUT_SCRIPT_LEN : Nat := 2

def MAX_COINBASER_OUTPUT_SCRIPT_LEN : Nat := 64

/-- Whether a split may carry a script of the length. -/
def splitScriptFits (len : Nat) : Bool :=
  MIN_COINBASER_OUTPUT_SCRIPT_LEN ≤ len && len ≤ MAX_COINBASER_OUTPUT_SCRIPT_LEN

namespace CoinbaserResponse

/-! ### Writing -/

def writeOutputs : List TxOut → Nat → Bytes → Except MessageError (Nat × Bytes)
  | [], total, blob => .ok (total, blob)
  | o :: outputs, total, blob =>
      if !splitScriptFits o.scriptPubkey.length then .error (.outOfRange "output script" o.scriptPubkey.length)
      else
        writeOutputs outputs (satAdd64 total o.value)
          (blob ++ leBytes 8 o.value ++ [UInt8.ofNat o.scriptPubkey.length] ++ o.scriptPubkey)

def encode (r : CoinbaserResponse) : Except MessageError Bytes := do
  if MAX_COINBASER_OUTPUTS < r.outputs.length then throw (.tooLong "coinbaser outputs" r.outputs.length)
  let (total, blob) ← writeOutputs r.outputs 0 [r.coinbaserId]
  if r.value < total then throw (.splitExceedsValue total r.value)
  if MAX_COINBASER_BLOB_LEN < blob.length then throw (.tooLong "coinbaser blob" blob.length)
  pure (COINBASER :: leBytes 8 r.value ++ leBytes 4 blob.length ++ blob)

/-! ### Reading -/

/-- The outputs a blob lists, up to `n`, while their total stays within the value. The last addition is not
checked: it wraps, or panics in a build that checks for overflow. -/
def readOutputs (value : Nat) : Nat → ByteReader → Nat → Except MessageError (List TxOut)
  | 0, _, _ => .ok []
  | n + 1, b, total =>
      if b.atEnd then .ok []
      else do
        let (v, b) ← orTruncated (b.uint 8 "output value")
        if value < satAdd64 total v then pure []
        else
          let (slen, b) ← orTruncated (b.u8 "script length")
          if !splitScriptFits slen.toNat then throw (.outOfRange "output script" slen.toNat)
          let (script, b) ← orTruncated (b.take slen.toNat "output script")
          let outputs ← readOutputs value n b (asU64 (total + v))
          pure (⟨v, script⟩ :: outputs)

def decode (data : Bytes) : Except MessageError CoinbaserResponse := do
  let c ← openMessage data COINBASER
  let (value, c) ← orTruncated (c.uint 8 "value")
  let (blobLen, c) ← orTruncated (c.uint 4 "blob length")
  if blobLen < 1 || MAX_COINBASER_BLOB_LEN < blobLen then throw (.outOfRange "coinbaser blob" blobLen)
  let (blob, _) ← orTruncated (c.take blobLen "blob")
  let (coinbaserId, b) ← orTruncated ((ByteReader.new blob).u8 "coinbaser id")
  let outputs ← readOutputs value MAX_COINBASER_OUTPUTS b 0
  pure { value, coinbaserId, outputs }

end CoinbaserResponse

/-! ### The bytes of the outputs -/

/-- An output as a split lists it. -/
def TxOut.splitBytes (o : TxOut) : Bytes :=
  leBytes 8 o.value ++ UInt8.ofNat o.scriptPubkey.length :: o.scriptPubkey

/-- An output a split may carry, its value that of the source's type. -/
structure TxOut.FitsSplit (o : TxOut) : Prop where
  value_le : o.value ≤ U64_MAX
  script : splitScriptFits o.scriptPubkey.length

namespace CoinbaserResponse

theorem foldl_satAdd64 (outputs : List TxOut) {total : Nat} (htotal : total ≤ U64_MAX) :
    outputs.foldl (fun total o => satAdd64 total o.value) total =
      min (total + Suffix.total TxOut.value outputs) U64_MAX := by
  induction outputs generalizing total with
  | nil =>
      rw [List.foldl_nil, Suffix.total_nil]
      omega
  | cons o outputs ih =>
      rw [List.foldl_cons, ih (show satAdd64 total o.value ≤ U64_MAX from Nat.min_le_right _ _), Suffix.total_cons,
        satAdd64]
      omega

theorem writeOutputs_eq {outputs : List TxOut} (hscripts : ∀ o ∈ outputs, splitScriptFits o.scriptPubkey.length)
    (total : Nat) (blob : Bytes) :
    writeOutputs outputs total blob =
      .ok (outputs.foldl (fun total o => satAdd64 total o.value) total,
        blob ++ outputs.flatMap TxOut.splitBytes) := by
  induction outputs generalizing total blob with
  | nil =>
      rw [List.flatMap_nil, List.append_nil]
      rfl
  | cons o outputs ih =>
      rw [writeOutputs, hscripts o List.mem_cons_self, ih fun o' ho' => hscripts o' (List.mem_cons_of_mem o ho')]
      simp [TxOut.splitBytes]

theorem scripts_of_writeOutputs {outputs : List TxOut} {total : Nat} {blob : Bytes} {written : Nat × Bytes}
    (h : writeOutputs outputs total blob = .ok written) : ∀ o ∈ outputs, splitScriptFits o.scriptPubkey.length := by
  induction outputs generalizing total blob with
  | nil => nofun
  | cons o outputs ih =>
      rw [writeOutputs] at h
      obtain ⟨hscript, hrest⟩ := FailsIn.ok_of_guard h
      intro o' ho'
      rcases List.mem_cons.mp ho' with rfl | ho'
      · simpa using hscript
      · exact ih hrest o' ho'

/-- What a split is written as, and when. -/
theorem encode_ok_iff {r : CoinbaserResponse} {bytes : Bytes} :
    r.encode = .ok bytes ↔ r.outputs.length ≤ MAX_COINBASER_OUTPUTS ∧
      (∀ o ∈ r.outputs, splitScriptFits o.scriptPubkey.length) ∧
      min (Suffix.total TxOut.value r.outputs) U64_MAX ≤ r.value ∧
      (r.coinbaserId :: r.outputs.flatMap TxOut.splitBytes).length ≤ MAX_COINBASER_BLOB_LEN ∧
      bytes = COINBASER :: leBytes 8 r.value ++
        leBytes 4 (r.coinbaserId :: r.outputs.flatMap TxOut.splitBytes).length ++
        r.coinbaserId :: r.outputs.flatMap TxOut.splitBytes := by
  by_cases hscripts : ∀ o ∈ r.outputs, splitScriptFits o.scriptPubkey.length
  · have hwritten := writeOutputs_eq hscripts 0 [r.coinbaserId]
    rw [foldl_satAdd64 r.outputs (Nat.zero_le _), Nat.zero_add, List.singleton_append] at hwritten
    simp only [encode, hwritten, bind, Except.bind, pure, Except.pure, throw, throwThe, MonadExceptOf.throw]
    constructor
    · intro h
      obtain ⟨hcount, h⟩ := FailsIn.ok_of_guard h
      obtain ⟨htotal, h⟩ := FailsIn.ok_of_guard h
      obtain ⟨hblob, h⟩ := FailsIn.ok_of_guard h
      exact ⟨not_lt.mp hcount, hscripts, not_lt.mp htotal, not_lt.mp hblob, (Except.ok.inj h).symm⟩
    · rintro ⟨hcount, -, htotal, hblob, rfl⟩
      rw [if_neg (not_lt.mpr hcount), if_neg (not_lt.mpr htotal), if_neg (not_lt.mpr hblob)]
  · constructor
    · intro h
      rw [encode] at h
      obtain ⟨-, h⟩ := FailsIn.ok_of_guard h
      obtain ⟨written, hwritten, -⟩ := Gives.exists_of_bind h
      exact absurd (scripts_of_writeOutputs hwritten) hscripts
    · rintro ⟨-, hall, -⟩
      exact absurd hall hscripts

/-! ### What is read -/

/-- What a running total of an output leaves of a value, below the largest one. -/
def StaysWithin (value : Nat) (outputs : List TxOut) (total : Nat) : Prop :=
  value = U64_MAX ∨ total + Suffix.total TxOut.value outputs ≤ value

theorem toNat_ofNat_script {len : Nat} (h : splitScriptFits len) : (UInt8.ofNat len).toNat = len := by
  have hle : len ≤ 64 := by
    simp only [splitScriptFits, Bool.and_eq_true, decide_eq_true_eq] at h
    exact h.2
  exact UInt8.toNat_ofNat_of_lt' (by show _ < 256; omega)

/-- The outputs of a split are read back, whatever the running total wraps to. -/
theorem readOutputs_flatMap {value n : Nat} {outputs : List TxOut} (hcount : outputs.length ≤ n)
    (hfits : ∀ o ∈ outputs, o.FitsSplit) (full : Bytes) {total : Nat} (hvalue : value ≤ U64_MAX)
    (hwithin : StaysWithin value outputs total) :
    readOutputs value n ⟨full, outputs.flatMap TxOut.splitBytes⟩ total = .ok outputs := by
  induction outputs generalizing n total with
  | nil =>
      cases n with
      | zero => rfl
      | succ n => rfl
  | cons o outputs ih =>
      obtain ⟨n, rfl⟩ : ∃ k, n = k + 1 := ⟨n - 1, by rw [List.length_cons] at hcount; omega⟩
      have ho := hfits o List.mem_cons_self
      have hnotend : (ByteReader.mk full (o.splitBytes ++ outputs.flatMap TxOut.splitBytes)).atEnd = false := rfl
      have hvalueRead (rest : Bytes) := ByteReader.uint_leBytes full rest "output value"
        (show o.value < 256 ^ 8 from Nat.lt_succ_of_le ho.value_le)
      have hscript := toNat_ofNat_script ho.script
      have hadds : ¬ value < satAdd64 total o.value := by
        rw [satAdd64]
        rcases hwithin with heq | hle
        · omega
        · rw [Suffix.total_cons] at hle
          omega
      have hrest : StaysWithin value outputs (asU64 (total + o.value)) := by
        rcases hwithin with heq | hle
        · exact .inl heq
        · rw [Suffix.total_cons] at hle
          rw [StaysWithin, asU64_of_le (by omega)]
          omega
      have hread := ih (Nat.le_of_succ_le_succ hcount) (fun o' ho' => hfits o' (List.mem_cons_of_mem o ho')) hrest
      rw [List.flatMap_cons, readOutputs, hnotend, if_neg Bool.false_ne_true, TxOut.splitBytes, List.append_assoc,
        hvalueRead]
      simp only [orTruncated_ok, bind, Except.bind, if_neg hadds, List.cons_append, ByteReader.u8_cons, hscript,
        ho.script, Bool.not_true, Bool.false_eq_true, if_false, ByteReader.take_append full _ rfl, hread, pure,
        Except.pure]

/-- One turn of the reading loop. -/
theorem readOutputs_cases {value n total : Nat} {b : ByteReader} {outputs : List TxOut}
    (h : readOutputs value (n + 1) b total = .ok outputs) :
    outputs = [] ∧ (b.rest = [] ∨ ∃ v, value < satAdd64 total v) ∨
      ∃ o rest b', outputs = o :: rest ∧ o.FitsSplit ∧ b.rest = o.splitBytes ++ b'.rest ∧
        satAdd64 total o.value ≤ value ∧ readOutputs value n b' (asU64 (total + o.value)) = .ok rest := by
  rw [readOutputs] at h
  split at h
  · rename_i hend
    exact .inl ⟨(Except.ok.inj h).symm, .inl (List.isEmpty_iff.mp hend)⟩
  · obtain ⟨⟨v, b₁⟩, hv, h⟩ := Gives.exists_of_bind h
    dsimp only at h
    split at h
    · rename_i hover
      exact .inl ⟨(Except.ok.inj h).symm, .inr ⟨v, hover⟩⟩
    · rename_i hwithin
      obtain ⟨⟨slen, b₂⟩, hslen, h⟩ := Gives.exists_of_bind h
      obtain ⟨hscript, h⟩ := FailsIn.ok_of_guard h
      obtain ⟨⟨script, b₃⟩, hread, h⟩ := Gives.exists_of_bind h
      obtain ⟨rest, hrest, h⟩ := Gives.exists_of_bind h
      obtain ⟨-, hlength, -⟩ := ByteReader.take_ok (of_orTruncated hread)
      have hbytes := ByteReader.rest_of_uint (of_orTruncated hv)
      rw [ByteReader.rest_of_u8 (of_orTruncated hslen), ByteReader.rest_of_take (of_orTruncated hread)] at hbytes
      refine .inr ⟨⟨v, script⟩, rest, b₃, (Except.ok.inj h).symm, ⟨?_, ?_⟩, ?_, not_lt.mp hwithin, hrest⟩
      · exact Nat.le_of_lt_succ (ByteReader.uint_ok (of_orTruncated hv)).1
      · show splitScriptFits script.length
        rw [hlength]
        simpa using hscript
      · rw [hbytes, TxOut.splitBytes]
        dsimp only
        rw [hlength, UInt8.ofNat_toNat, List.append_assoc, List.cons_append]

/-- What was read fits a split of the value, in no more bytes than there were. -/
theorem readOutputs_fits {value n total : Nat} {b : ByteReader} {outputs : List TxOut}
    (hvalue : value ≤ U64_MAX) (htotal : value = U64_MAX ∨ total ≤ value)
    (h : readOutputs value n b total = .ok outputs) :
    outputs.length ≤ n ∧ (∀ o ∈ outputs, o.FitsSplit) ∧ StaysWithin value outputs total ∧
      (outputs.flatMap TxOut.splitBytes).length ≤ b.rest.length := by
  induction n generalizing b total outputs with
  | zero =>
      obtain rfl := Except.ok.inj h
      refine ⟨Nat.le_refl 0, nofun, ?_, Nat.zero_le _⟩
      rwa [StaysWithin, Suffix.total_nil, Nat.add_zero]
  | succ n ih =>
      rcases readOutputs_cases h with ⟨rfl, -⟩ | ⟨o, rest, b', rfl, ho, hbytes, hadds, hrest⟩
      · refine ⟨Nat.zero_le _, nofun, ?_, Nat.zero_le _⟩
        rwa [StaysWithin, Suffix.total_nil, Nat.add_zero]
      · rw [satAdd64] at hadds
        have htotal' : value = U64_MAX ∨ asU64 (total + o.value) ≤ value ∧ asU64 (total + o.value) = total + o.value := by
          by_cases hmax : value = U64_MAX
          · exact .inl hmax
          · have hsum : total + o.value ≤ value := by omega
            have hexact := asU64_of_le (hsum.trans hvalue)
            exact .inr ⟨hexact.trans_le hsum, hexact⟩
        obtain ⟨hcount, hfits, hwithin, hlength⟩ := ih (htotal'.imp_right And.left) hrest
        refine ⟨Nat.succ_le_succ hcount, ?_, ?_, ?_⟩
        · intro o' ho'
          rcases List.mem_cons.mp ho' with rfl | ho'
          · exact ho
          · exact hfits o' ho'
        · rcases htotal' with hmax | ⟨-, hexact⟩
          · exact .inl hmax
          · rw [StaysWithin, hexact] at hwithin
            rw [StaysWithin, Suffix.total_cons]
            omega
        · rw [hbytes, List.flatMap_cons, List.length_append, List.length_append]
          omega

/-- The outputs a blob lists, up to `n`, whatever their values. -/
def listedOutputs : Nat → Bytes → List TxOut
  | 0, _ => []
  | n + 1, blob =>
      let len := 9 + (blob.getD 8 0).toNat
      if blob.length < len then []
      else ⟨leNat (blob.take 8), (blob.take len).drop 9⟩ :: listedOutputs n (blob.drop len)

theorem listedOutputs_splitBytes {o : TxOut} (ho : o.FitsSplit) (n : Nat) (rest : Bytes) :
    listedOutputs (n + 1) (o.splitBytes ++ rest) = o :: listedOutputs n rest := by
  have hwhole : o.splitBytes.length = 9 + o.scriptPubkey.length := by
    simp only [TxOut.splitBytes, List.length_append, length_leBytes, List.length_cons]
    omega
  have hat : (o.splitBytes ++ rest).getD 8 0 = UInt8.ofNat o.scriptPubkey.length := by
    simp [TxOut.splitBytes, List.getD]
  have hvalue : leNat ((o.splitBytes ++ rest).take 8) = o.value := by
    rw [TxOut.splitBytes, List.append_assoc, List.take_left' (length_leBytes 8 _), leNat_leBytes]
    exact Nat.mod_eq_of_lt (Nat.lt_succ_of_le ho.value_le)
  have hscript : o.splitBytes.drop 9 = o.scriptPubkey := by
    rw [TxOut.splitBytes, ← List.singleton_append, ← List.append_assoc, List.drop_left' (by simp)]
  rw [listedOutputs]
  simp only [hat, toNat_ofNat_script ho.script, ← hwhole, hvalue, List.take_left, List.drop_left, hscript]
  rw [if_neg (by rw [List.length_append]; omega)]

/-- A split of the largest value is read whole. -/
theorem readOutputs_listed {n total : Nat} {b : ByteReader} {outputs : List TxOut}
    (h : readOutputs U64_MAX n b total = .ok outputs) : outputs = listedOutputs n b.rest := by
  induction n generalizing b total outputs with
  | zero => exact (Except.ok.inj h).symm
  | succ n ih =>
      rcases readOutputs_cases h with ⟨rfl, hend | ⟨v, hover⟩⟩ | ⟨o, rest, b', rfl, ho, hbytes, -, hrest⟩
      · rw [hend]
        rfl
      · exact absurd hover (not_lt.mpr (Nat.min_le_right _ _))
      · rw [hbytes, listedOutputs_splitBytes ho, ih hrest]

/-! ### The message -/

/-- A split message, with bytes after it. -/
def message (value : Nat) (coinbaserId : UInt8) (blob tail : Bytes) : Bytes :=
  COINBASER :: (leBytes 8 value ++ (leBytes 4 (coinbaserId :: blob).length ++ (coinbaserId :: blob ++ tail)))

theorem decode_message {value : Nat} {coinbaserId : UInt8} {blob : Bytes} (tail : Bytes) (hvalue : value ≤ U64_MAX)
    (hblob : (coinbaserId :: blob).length ≤ MAX_COINBASER_BLOB_LEN) :
    decode (message value coinbaserId blob tail) =
      (readOutputs value MAX_COINBASER_OUTPUTS ⟨coinbaserId :: blob, blob⟩ 0).map
        fun outputs => { value, coinbaserId, outputs } := by
  have hlen : (coinbaserId :: blob).length < 256 ^ 4 := Nat.lt_of_le_of_lt hblob (by decide)
  have hrange : ¬ ((decide ((coinbaserId :: blob).length < 1) ||
      decide (MAX_COINBASER_BLOB_LEN < (coinbaserId :: blob).length)) = true) := by
    simp only [Bool.or_eq_true, decide_eq_true_eq, not_or, not_lt, List.length_cons] at hblob ⊢
    omega
  rw [decode, message, openMessage_cons]
  simp only [bind, Except.bind, orTruncated_ok, if_neg hrange,
    ByteReader.uint_leBytes _ _ _ (show value < 256 ^ 8 from Nat.lt_succ_of_le hvalue),
    ByteReader.uint_leBytes _ _ _ hlen, ByteReader.take_append _ _ rfl, ByteReader.new, ByteReader.u8_cons]
  cases readOutputs value MAX_COINBASER_OUTPUTS ⟨coinbaserId :: blob, blob⟩ 0 <;> rfl

/-- What is decoded came in a message of its value and id. -/
theorem decode_ok {data : Bytes} {r : CoinbaserResponse} (h : decode data = .ok r) :
    ∃ blob tail, data = message r.value r.coinbaserId blob tail ∧ r.value ≤ U64_MAX ∧
      (r.coinbaserId :: blob).length ≤ MAX_COINBASER_BLOB_LEN ∧
      readOutputs r.value MAX_COINBASER_OUTPUTS ⟨r.coinbaserId :: blob, blob⟩ 0 = .ok r.outputs := by
  rw [decode] at h
  obtain ⟨c, hopen, h⟩ := Gives.exists_of_bind h
  obtain ⟨⟨value, c₁⟩, hvalue, h⟩ := Gives.exists_of_bind h
  obtain ⟨⟨blobLen, c₂⟩, hlen, h⟩ := Gives.exists_of_bind h
  obtain ⟨hrange, h⟩ := FailsIn.ok_of_guard h
  obtain ⟨⟨bytes, c₃⟩, hblob, h⟩ := Gives.exists_of_bind h
  obtain ⟨⟨coinbaserId, b⟩, hid, h⟩ := Gives.exists_of_bind h
  obtain ⟨outputs, houtputs, h⟩ := Gives.exists_of_bind h
  obtain rfl := Except.ok.inj h
  have hbytes : bytes = coinbaserId :: b.rest := ByteReader.rest_of_u8 (of_orTruncated hid)
  have hb : b = ⟨bytes, b.rest⟩ := by
    rw [hbytes, ByteReader.new, ByteReader.u8_cons] at hid
    exact (Prod.mk.inj (Except.ok.inj hid)).2.symm.trans (by rw [hbytes])
  have hlength := (ByteReader.take_ok (of_orTruncated hblob)).2.1
  have hdata := openMessage_ok hopen
  rw [ByteReader.rest_of_uint (of_orTruncated hvalue), ByteReader.rest_of_uint (of_orTruncated hlen),
    ByteReader.rest_of_take (of_orTruncated hblob), ← hlength] at hdata
  simp only [Bool.or_eq_true, decide_eq_true_eq, not_or, not_lt] at hrange
  refine ⟨b.rest, c₃.rest, ?_, ?_, ?_, ?_⟩
  · rw [hdata, message, ← hbytes]
  · exact Nat.le_of_lt_succ (ByteReader.uint_ok (of_orTruncated hvalue)).1
  · rw [← hbytes, hlength]
    exact hrange.2
  · rwa [hb, hbytes] at houtputs

/-- The value a message states. -/
def statedValue (data : Bytes) : Nat := leNat ((data.drop 1).take 8)

/-- The bytes a message lists its outputs in. -/
def listedBytes (data : Bytes) : Bytes := (data.drop 14).take (leNat ((data.drop 9).take 4) - 1)

theorem statedValue_message {value : Nat} (coinbaserId : UInt8) (blob tail : Bytes) (hvalue : value ≤ U64_MAX) :
    statedValue (message value coinbaserId blob tail) = value := by
  rw [statedValue, message, List.drop_one, List.tail_cons, List.take_left' (length_leBytes 8 _), leNat_leBytes]
  exact Nat.mod_eq_of_lt (Nat.lt_succ_of_le hvalue)

theorem listedBytes_message (value : Nat) {coinbaserId : UInt8} {blob : Bytes} (tail : Bytes)
    (hblob : (coinbaserId :: blob).length ≤ MAX_COINBASER_BLOB_LEN) :
    listedBytes (message value coinbaserId blob tail) = blob := by
  have hnine : (message value coinbaserId blob tail).drop 9 =
      leBytes 4 (coinbaserId :: blob).length ++ (coinbaserId :: blob ++ tail) := by
    rw [message, List.drop_succ_cons, List.drop_left' (length_leBytes 8 _)]
  have hfourteen : (message value coinbaserId blob tail).drop 14 = blob ++ tail := by
    rw [show 14 = 9 + (4 + 1) from rfl, ← List.drop_drop, hnine, ← List.drop_drop,
      List.drop_left' (length_leBytes 4 _), List.cons_append, List.drop_one, List.tail_cons]
  have hlen : (coinbaserId :: blob).length < 256 ^ 4 := Nat.lt_of_le_of_lt hblob (by decide)
  rw [listedBytes, hfourteen, hnine, List.take_left' (length_leBytes 4 _), leNat_leBytes, Nat.mod_eq_of_lt hlen,
    List.length_cons, Nat.add_sub_cancel, List.take_left]

/-- The amounts are those of the source's types. -/
structure Typed (r : CoinbaserResponse) : Prop where
  value_le : r.value ≤ U64_MAX
  outputs_le : ∀ o ∈ r.outputs, o.value ≤ U64_MAX

/-- The message of a split, and after any bytes of padding, is read back. -/
theorem decode_encode {r : CoinbaserResponse} {bytes : Bytes} (htyped : r.Typed) (hencode : r.encode = .ok bytes)
    (pad : Bytes) : decode (bytes ++ pad) = .ok r := by
  obtain ⟨hcount, hscripts, htotal, hblob, rfl⟩ := encode_ok_iff.mp hencode
  have hwithin : StaysWithin r.value r.outputs 0 := by
    have hvalue := htyped.value_le
    rw [StaysWithin]
    omega
  have hread := readOutputs_flatMap hcount (fun o ho => ⟨htyped.outputs_le o ho, hscripts o ho⟩)
    (r.coinbaserId :: r.outputs.flatMap TxOut.splitBytes) htyped.value_le hwithin
  have hmessage := decode_message pad htyped.value_le hblob
  rw [hread] at hmessage
  rw [← show _ = Except.ok r from hmessage, message]
  simp only [List.cons_append, List.append_assoc]

/-- A split that totals at most its value, never past a `u64` on the way, in outputs a split may carry. -/
structure Sound (r : CoinbaserResponse) : Prop where
  total_le : Suffix.total TxOut.value r.outputs ≤ r.value
  running_le : ∀ n, Suffix.total TxOut.value (r.outputs.take n) ≤ U64_MAX
  count_le : r.outputs.length ≤ MAX_COINBASER_OUTPUTS
  scripts : ∀ o ∈ r.outputs, splitScriptFits o.scriptPubkey.length

theorem running_le_of_total {outputs : List TxOut} {limit : Nat} (htotal : Suffix.total TxOut.value outputs ≤ limit)
    (n : Nat) : Suffix.total TxOut.value (outputs.take n) ≤ limit := by
  rw [← List.take_append_drop n outputs, Suffix.total_append] at htotal
  omega

/-- What was decoded is sound when its outputs total at most the largest value. -/
theorem decode_sound_iff {data : Bytes} {r : CoinbaserResponse} (h : decode data = .ok r) :
    r.Sound ∧ (∃ bytes, r.encode = .ok bytes ∧ decode bytes = .ok r) ↔
      statedValue data < U64_MAX ∨
        Suffix.total TxOut.value (listedOutputs MAX_COINBASER_OUTPUTS (listedBytes data)) ≤ U64_MAX := by
  obtain ⟨blob, tail, rfl, hvalue, hblob, hread⟩ := decode_ok h
  obtain ⟨hcount, hfits, hwithin, hlength⟩ := readOutputs_fits hvalue (.inr (Nat.zero_le _)) hread
  rw [statedValue_message _ _ _ hvalue, listedBytes_message _ _ hblob]
  rw [StaysWithin, Nat.zero_add] at hwithin
  have hlisted : r.value = U64_MAX → r.outputs = listedOutputs MAX_COINBASER_OUTPUTS blob := by
    intro hmax
    rw [hmax] at hread
    exact readOutputs_listed hread
  constructor
  · rintro ⟨hsound, -⟩
    by_cases hmax : r.value = U64_MAX
    · rw [← hlisted hmax, ← hmax]
      exact .inr hsound.total_le
    · exact .inl (by omega)
  · intro hcond
    have htotal : Suffix.total TxOut.value r.outputs ≤ r.value := by
      rcases hwithin with hmax | hle
      · rcases hcond with hlt | hle
        · omega
        · rwa [← hlisted hmax, ← hmax] at hle
      · exact hle
    have hencode := encode_ok_iff.mpr ⟨hcount, fun o ho => (hfits o ho).script,
      (Nat.min_le_left _ _).trans htotal, le_trans (Nat.succ_le_succ hlength) hblob, rfl⟩
    have hagain := decode_encode ⟨hvalue, fun o ho => (hfits o ho).value_le⟩ hencode []
    rw [List.append_nil] at hagain
    exact ⟨⟨htotal, running_le_of_total (htotal.trans hvalue), hcount, fun o ho => (hfits o ho).script⟩,
      _, hencode, hagain⟩

/-- **A decoded split never overspends**, nor one that was encoded, unless it is of the largest value and its
outputs total more than that: the running totals tell no such total from the value. -/
theorem split_never_overspends (data : Bytes) (r : CoinbaserResponse) :
    (decode data = .ok r →
      (r.Sound ∧ (∃ bytes, r.encode = .ok bytes ∧ decode bytes = .ok r) ↔
        statedValue data < U64_MAX ∨
          Suffix.total TxOut.value (listedOutputs MAX_COINBASER_OUTPUTS (listedBytes data)) ≤ U64_MAX)) ∧
    ∀ bytes, r.Typed → r.encode = .ok bytes →
      (Suffix.total TxOut.value r.outputs ≤ r.value ∧ (∀ pad, decode (bytes ++ pad) = .ok r) ↔
        r.value < U64_MAX ∨ Suffix.total TxOut.value r.outputs ≤ U64_MAX) := by
  refine ⟨decode_sound_iff, fun bytes htyped hencode => ?_⟩
  have hpad := decode_encode htyped hencode
  obtain ⟨-, -, htotal, -, -⟩ := encode_ok_iff.mp hencode
  have hvalue := htyped.value_le
  constructor
  · rintro ⟨hle, -⟩
    exact .inr (hle.trans hvalue)
  · intro hcond
    exact ⟨by omega, hpad⟩

end CoinbaserResponse

/-- A split of the largest value, with one satoshi more in its outputs. -/
def overspentSplit : CoinbaserResponse :=
  { value := U64_MAX, coinbaserId := 0, outputs := [⟨U64_MAX, [0x51, 0x51]⟩, ⟨1, [0x51, 0x51]⟩] }

/-- **A split of the largest value may overspend**: it is encoded, and decoded again. -/
theorem overspent_split_accepted :
    ∃ bytes, overspentSplit.encode = .ok bytes ∧ CoinbaserResponse.decode bytes = .ok overspentSplit ∧
      overspentSplit.value < Suffix.total TxOut.value overspentSplit.outputs := by
  refine ⟨_, rfl, ?_, ?_⟩
  · decide +kernel
  · decide

theorem split_never_overspends_below :
    let r : CoinbaserResponse := { value := 10, coinbaserId := 1, outputs := [⟨7, [0x51, 0x51]⟩] }
    ∃ bytes, r.Sound ∧ (∃ again, r.encode = .ok again ∧ CoinbaserResponse.decode again = .ok r) ∧
      (∀ pad, CoinbaserResponse.decode (bytes ++ pad) = .ok r) := by
  intro r
  have hencode : r.encode = .ok (CoinbaserResponse.message 10 1 (TxOut.splitBytes ⟨7, [0x51, 0x51]⟩) []) := by
    decide +kernel
  have hdecode : CoinbaserResponse.decode
      (CoinbaserResponse.message 10 1 (TxOut.splitBytes ⟨7, [0x51, 0x51]⟩) []) = .ok r := by
    decide +kernel
  obtain ⟨hread, hwritten⟩ := CoinbaserResponse.split_never_overspends
    (CoinbaserResponse.message 10 1 (TxOut.splitBytes ⟨7, [0x51, 0x51]⟩) []) r
  obtain ⟨hsound, hagain⟩ := (hread hdecode).mpr (.inl (by decide +kernel))
  exact ⟨_, hsound, hagain, ((hwritten _ ⟨by decide, by decide⟩ hencode).mpr (.inl (by decide))).2⟩

end Ratum
