import Ratum.Base.FailsIn
import Ratum.Bitcoin.CoinbaseTx

/-!
# What a transaction is read from

What `parse_coinbase` accepts is one serialization of what it reads, and `txid` hashes the bytes of a
transaction without a witness as they are.
-/

namespace Ratum

/-! ### Reading on -/

/-- A reader further on over the same bytes. -/
structure ByteReader.Ahead (r r' : ByteReader) : Prop where
  full : r'.full = r.full
  rest : r'.rest <:+ r.rest

namespace ByteReader

variable {r r' r'' : ByteReader} {what : String} {n : Nat}

theorem Ahead.refl (r : ByteReader) : Ahead r r := ⟨rfl, List.suffix_refl _⟩

theorem Ahead.trans (h : Ahead r r') (h' : Ahead r' r'') : Ahead r r'' :=
  ⟨h'.full.trans h.full, h'.rest.trans h.rest⟩

theorem ahead_of_take {bytes : Bytes} (h : r.take n what = .ok (bytes, r')) : Ahead r r' := by
  refine ⟨?_, ⟨bytes, (rest_of_take h).symm⟩⟩
  unfold take at h
  split at h
  · cases h
  · cases h
    rfl

theorem ahead_of_advance (h : r.advance n what = .ok r') : Ahead r r' := by
  obtain ⟨⟨bytes, r''⟩, htake, rfl⟩ := map_ok h
  exact ahead_of_take htake

theorem ahead_of_uint {value : Nat} (h : r.uint n what = .ok (value, r')) : Ahead r r' := by
  obtain ⟨⟨bytes, r''⟩, htake, heq⟩ := map_ok h
  cases heq
  exact ahead_of_take htake

theorem ahead_of_u8 {value : UInt8} (h : r.u8 what = .ok (value, r')) : Ahead r r' := by
  obtain ⟨⟨n, r''⟩, huint, heq⟩ := map_ok h
  cases heq
  exact ahead_of_uint huint

theorem ahead_of_u32 {value : UInt32} (h : r.u32 what = .ok (value, r')) : Ahead r r' := by
  obtain ⟨⟨n, r''⟩, huint, heq⟩ := map_ok h
  cases heq
  exact ahead_of_uint huint

theorem advance_append {field : Bytes} (full rest : Bytes) (what : String) (hn : field.length = n) :
    (ByteReader.mk full (field ++ rest)).advance n what = .ok ⟨full, rest⟩ := by
  rw [advance, take_append full what hn]
  rfl

/-- The bytes between two readers, by their positions. -/
theorem Ahead.take_pos {field : Bytes} (h : Ahead r r') (hpos : r.rest.length ≤ r.full.length)
    (hfield : r.rest = field ++ r'.rest) : r.rest.take (r'.pos - r.pos) = field := by
  have hlength : r'.pos - r.pos = field.length := by
    rw [pos, pos, h.full]
    rw [hfield, List.length_append] at hpos ⊢
    omega
  rw [hlength, hfield, List.take_left]

end ByteReader

open ByteReader

theorem TxError.ok_of_ofRead {α : Type} {read : Except Truncated α} {a : α} (h : TxError.ofRead read = .ok a) :
    read = .ok a := by
  cases read with
  | error e => cases h
  | ok a' => exact congrArg _ (Except.ok.inj h)

variable {c c' : ByteReader} {n : Nat}

theorem compactSizeOf_ok {minimum : Nat} {read : Except Truncated (Nat × ByteReader)}
    (h : compactSizeOf read minimum = .ok (n, c')) : read = .ok (n, c') ∧ minimum ≤ n := by
  unfold compactSizeOf at h
  obtain ⟨⟨n', c''⟩, hread, h⟩ := Gives.exists_of_bind h
  dsimp only at h
  split at h
  · cases h
  · rename_i hminimum
    cases h
    exact ⟨TxError.ok_of_ofRead hread, Nat.not_lt.mp hminimum⟩

/-- **A compact size has one encoding.** -/
theorem rest_of_decodeCompactSize (h : decodeCompactSize c = .ok (n, c')) :
    c.rest = encodeCompactSize n ++ c'.rest ∧ n < 2 ^ 64 ∧ Ahead c c' := by
  unfold decodeCompactSize at h
  obtain ⟨⟨first, c₁⟩, hfirst, h⟩ := Gives.exists_of_bind h
  have hread := TxError.ok_of_ofRead hfirst
  dsimp only at h
  have hlonger : ∀ {k minimum : Nat} {marker : UInt8}, k ≤ 8 →
      compactSizeOf (c₁.uint k "compact size") minimum = .ok (n, c') →
      (minimum ≤ n → n < 256 ^ k → encodeCompactSize n = marker :: leBytes k n) → first = marker →
      c.rest = encodeCompactSize n ++ c'.rest ∧ n < 2 ^ 64 ∧ Ahead c c' := by
    rintro k minimum marker hk hsize hencode rfl
    obtain ⟨huint, hminimum⟩ := compactSizeOf_ok hsize
    have hlt := (uint_ok huint).1
    rw [rest_of_u8 hread, rest_of_uint huint, hencode hminimum hlt]
    refine ⟨rfl, hlt.trans_le ?_, (ahead_of_u8 hread).trans (ahead_of_uint huint)⟩
    exact (Nat.pow_le_pow_right (by decide) hk).trans_eq (by decide)
  split at h
  · refine hlonger (by decide) h (fun hminimum hlt => ?_) ‹_›
    have hlt : n < 65536 := hlt
    rw [encodeCompactSize, if_neg (by omega), if_pos (by omega)]
  · split at h
    · refine hlonger (by decide) h (fun hminimum hlt => ?_) ‹_›
      have hlt : n < 4294967296 := hlt
      rw [encodeCompactSize, if_neg (by omega), if_neg (by omega), if_pos (by omega)]
    · split at h
      · refine hlonger (by decide) h (fun hminimum _ => ?_) ‹_›
        rw [encodeCompactSize, if_neg (by omega), if_neg (by omega), if_neg (by omega)]
      · rename_i hfd hfe hff
        cases h
        have hsmall : first.toNat ≤ 0xfc := by
          have hlt := first.toNat_lt
          have hne : ∀ marker : UInt8, first ≠ marker → first.toNat ≠ marker.toNat := fun marker hne heq =>
            hne (UInt8.toNat_inj.mp heq)
          have hfd : first.toNat ≠ 0xfd := hne _ hfd
          have hfe : first.toNat ≠ 0xfe := hne _ hfe
          have hff : first.toNat ≠ 0xff := hne _ hff
          omega
        rw [rest_of_u8 hread, encodeCompactSize, if_pos hsmall, UInt8.ofNat_toNat]
        exact ⟨rfl, hsmall.trans_lt (by decide), ahead_of_u8 hread⟩

/-- **Outputs have one encoding.** -/
theorem rest_of_readOutputs {outputs : List TxOut} (h : readOutputs n c = .ok (outputs, c')) :
    c.rest = outputs.flatMap TxOut.encode ++ c'.rest ∧ outputs.length = n ∧ (∀ o ∈ outputs, o.Writable) ∧
      Ahead c c' := by
  induction n generalizing c outputs with
  | zero =>
      cases h
      exact ⟨rfl, rfl, (fun _ hmem => by cases hmem), .refl _⟩
  | succ n ih =>
      unfold readOutputs at h
      obtain ⟨⟨value, c₁⟩, hvalue, h⟩ := Gives.exists_of_bind h
      obtain ⟨⟨len, c₂⟩, hlen, h⟩ := Gives.exists_of_bind h
      obtain ⟨⟨script, c₃⟩, hscript, h⟩ := Gives.exists_of_bind h
      obtain ⟨⟨rest, c₄⟩, hrest, h⟩ := Gives.exists_of_bind h
      cases h
      have hvalue := TxError.ok_of_ofRead hvalue
      have hscript := TxError.ok_of_ofRead hscript
      obtain ⟨hlenBytes, hlt, hahead⟩ := rest_of_decodeCompactSize hlen
      obtain ⟨hrestBytes, rfl, hwritable, hrestAhead⟩ := ih hrest
      obtain rfl := (take_ok hscript).2.1
      refine ⟨?_, rfl, ?_, (ahead_of_uint hvalue).trans (hahead.trans ((ahead_of_take hscript).trans hrestAhead))⟩
      · rw [rest_of_uint hvalue, hlenBytes, rest_of_take hscript, hrestBytes, List.flatMap_cons, TxOut.encode,
          encodeOutput]
        simp only [List.append_assoc]
      · rintro o (_ | ⟨_, hmem⟩)
        · exact ⟨(uint_ok hvalue).1, hlt⟩
        · exact hwritable o hmem

theorem rest_of_readLockTime {lockTime : UInt32} (h : readLockTime c = .ok (lockTime, c')) :
    c.rest = leBytes 4 lockTime.toNat := by
  unfold readLockTime at h
  obtain ⟨⟨lockTime', c₁⟩, hlockTime, h⟩ := Gives.exists_of_bind h
  dsimp only at h
  split at h
  · cases h
  · rename_i hend
    cases h
    have hempty : c'.rest = [] := by simpa [atEnd] using hend
    rw [rest_of_u32 (TxError.ok_of_ofRead hlockTime), hempty, List.append_nil]

/-! ### The id of a transaction without a witness -/

theorem ahead_of_decodeCompactSize (h : decodeCompactSize c = .ok (n, c')) : Ahead c c' :=
  (rest_of_decodeCompactSize h).2.2

theorem ahead_of_skipInputs (h : skipInputs n c = .ok c') : Ahead c c' := by
  induction n generalizing c with
  | zero =>
      cases h
      exact .refl _
  | succ n ih =>
      unfold skipInputs at h
      obtain ⟨c₁, houtpoint, h⟩ := Gives.exists_of_bind h
      obtain ⟨⟨len, c₂⟩, hlen, h⟩ := Gives.exists_of_bind h
      obtain ⟨c₃, hscript, h⟩ := Gives.exists_of_bind h
      obtain ⟨c₄, hsequence, h⟩ := Gives.exists_of_bind h
      exact (ahead_of_advance (TxError.ok_of_ofRead houtpoint)).trans
        ((ahead_of_decodeCompactSize hlen).trans ((ahead_of_advance (TxError.ok_of_ofRead hscript)).trans
          ((ahead_of_advance (TxError.ok_of_ofRead hsequence)).trans (ih h))))

theorem ahead_of_skipOutputs (h : skipOutputs n c = .ok c') : Ahead c c' := by
  induction n generalizing c with
  | zero =>
      cases h
      exact .refl _
  | succ n ih =>
      unfold skipOutputs at h
      obtain ⟨c₁, hvalue, h⟩ := Gives.exists_of_bind h
      obtain ⟨⟨len, c₂⟩, hlen, h⟩ := Gives.exists_of_bind h
      obtain ⟨c₃, hscript, h⟩ := Gives.exists_of_bind h
      exact (ahead_of_advance (TxError.ok_of_ofRead hvalue)).trans
        ((ahead_of_decodeCompactSize hlen).trans ((ahead_of_advance (TxError.ok_of_ofRead hscript)).trans (ih h)))

/-- The version read, and whether the marker and flag of a witness follow it. -/
theorem readVersionAndMarker_ok {version : UInt32} {hasWitness : Bool}
    (h : readVersionAndMarker c = .ok (version, hasWitness, c')) :
    Ahead c c' ∧ (hasWitness = false → c.rest = leBytes 4 version.toNat ++ c'.rest ∧
      c'.peek2 ≠ some (0x00, 0x01)) := by
  unfold readVersionAndMarker at h
  obtain ⟨⟨version', c₁⟩, hversion, h⟩ := Gives.exists_of_bind h
  have hversion := TxError.ok_of_ofRead hversion
  dsimp only at h
  split at h
  · obtain ⟨c₂, hmarker, h⟩ := Gives.exists_of_bind h
    cases h
    exact ⟨(ahead_of_u32 hversion).trans (ahead_of_advance (TxError.ok_of_ofRead hmarker)), fun hnone => by cases hnone⟩
  · rename_i hmarker
    cases h
    exact ⟨ahead_of_u32 hversion, fun _ => ⟨rest_of_u32 hversion, hmarker⟩⟩

/-- A transaction whose version the marker and flag of a witness do not follow. -/
def Witnessless (tx : Bytes) : Prop := ∃ version c, readVersionAndMarker (.new tx) = .ok (version, false, c)

/-- **The id of a transaction without a witness is the double hash of its bytes.** -/
theorem txid_of_witnessless {H : Hashing} {tx : Bytes} {id : Hash} (hwitnessless : Witnessless tx)
    (h : txid H tx = .ok id) : id = H.sha256d tx := by
  obtain ⟨version, body, hversion⟩ := hwitnessless
  unfold txid at h
  obtain ⟨read, hread, h⟩ := Gives.exists_of_bind h
  obtain rfl := Except.ok.inj (hread.symm.trans hversion)
  obtain ⟨⟨inputs, c₁⟩, hinputs, h⟩ := Gives.exists_of_bind h
  dsimp only at h
  split at h
  · cases h
  · obtain ⟨c₂, hskipped, h⟩ := Gives.exists_of_bind h
    obtain ⟨⟨outputs, c₃⟩, houtputs, h⟩ := Gives.exists_of_bind h
    obtain ⟨c₄, hbody, h⟩ := Gives.exists_of_bind h
    rw [if_neg Bool.false_ne_true] at h
    obtain ⟨_, hnone, h⟩ := Gives.exists_of_bind h
    obtain rfl := Except.ok.inj hnone
    obtain ⟨⟨lockTime, c₅⟩, hlockTime, h⟩ := Gives.exists_of_bind h
    cases h
    obtain ⟨hahead, hbytes⟩ := readVersionAndMarker_ok hversion
    obtain ⟨hbytes, -⟩ := hbytes rfl
    have hskips : Ahead body c₄ := (ahead_of_decodeCompactSize hinputs).trans ((ahead_of_skipInputs hskipped).trans
      ((ahead_of_decodeCompactSize houtputs).trans (ahead_of_skipOutputs hbody)))
    obtain ⟨field, hfield⟩ := hskips.rest
    have hlength : body.rest.length ≤ body.full.length := by
      rw [hahead.full]
      exact hahead.rest.length_le
    rw [hskips.take_pos hlength hfield.symm, ← rest_of_readLockTime hlockTime, List.append_assoc, hfield, ← hbytes]
    rfl

/-! ### A coinbase -/

/-- The inputs and outputs of a coinbase as they are written. -/
def coinbaseBody (scriptSig : Bytes) (sequence : UInt32) (outputs : List TxOut) : Bytes :=
  encodeCompactSize 1 ++ (nullOutpoint ++ (encodeCompactSize scriptSig.length ++ (scriptSig ++
    (leBytes 4 sequence.toNat ++ (encodeCompactSize outputs.length ++ outputs.flatMap TxOut.encode)))))

namespace CoinbaseTx

def body (cb : CoinbaseTx) : Bytes := coinbaseBody cb.scriptSig cb.sequence cb.outputs

/-- The serialization without a witness. -/
def stripped (cb : CoinbaseTx) : Bytes := leBytes 4 cb.version.toNat ++ cb.body ++ leBytes 4 cb.lockTime.toNat

/-- What it holds can be written. -/
structure Writable (cb : CoinbaseTx) : Prop where
  scriptSig : cb.scriptSig.length < 2 ^ 64
  count : cb.outputs.length < 2 ^ 64
  outputs : ∀ o ∈ cb.outputs, o.Writable

end CoinbaseTx

/-- What follows the outputs: a witness when the marker and flag are there, and the lock time. -/
def readsEnd (hasWitness : Bool) (c : ByteReader) (lockTime : UInt32) : Prop :=
  ∃ c' c'', (if hasWitness then skipWitnesses 1 c else pure c : Except TxError ByteReader) = .ok c' ∧
    readLockTime c' = .ok (lockTime, c'')

/-- **What `parse_coinbase` accepts is a serialization of what it reads.** -/
theorem parseCoinbase_ok {tx : Bytes} {cb : CoinbaseTx} (h : parseCoinbase tx = .ok cb) :
    ∃ rest, readVersionAndMarker (.new tx) = .ok (cb.version, cb.hasWitness, ⟨tx, cb.body ++ rest⟩) ∧
      readsEnd cb.hasWitness ⟨tx, rest⟩ cb.lockTime ∧ cb.Writable := by
  unfold parseCoinbase at h
  obtain ⟨⟨version, hasWitness, c₁⟩, hversion, h⟩ := Gives.exists_of_bind h
  obtain ⟨⟨inputs, c₂⟩, hinputs, h⟩ := Gives.exists_of_bind h
  dsimp only at h
  split at h
  · cases h
  rename_i hone
  obtain rfl := not_not.mp hone
  obtain ⟨⟨prevout, c₃⟩, hprevout, h⟩ := Gives.exists_of_bind h
  dsimp only at h
  split at h
  · cases h
  rename_i hnull
  obtain rfl := not_not.mp hnull
  obtain ⟨⟨scriptLen, c₄⟩, hscriptLen, h⟩ := Gives.exists_of_bind h
  obtain ⟨⟨scriptSig, c₅⟩, hscriptSig, h⟩ := Gives.exists_of_bind h
  obtain ⟨⟨sequence, c₆⟩, hsequence, h⟩ := Gives.exists_of_bind h
  obtain ⟨⟨nOut, c₇⟩, hnOut, h⟩ := Gives.exists_of_bind h
  dsimp only at h
  split at h
  · cases h
  obtain ⟨⟨outputs, c₈⟩, houtputs, h⟩ := Gives.exists_of_bind h
  obtain ⟨c₉, c', lockTime, hwitness, hlockTime, rfl⟩ : ∃ c₉ c' lockTime,
      (if hasWitness then skipWitnesses 1 c₈ else pure c₈ : Except TxError ByteReader) = .ok c₉ ∧
        readLockTime c₉ = .ok (lockTime, c') ∧
          cb = ⟨version, c₄.pos, scriptSig, sequence, outputs, lockTime, hasWitness⟩ := by
    cases hasWitness <;>
    · obtain ⟨c₉, hwitness, h⟩ := Gives.exists_of_bind h
      obtain ⟨⟨lockTime, c'⟩, hlockTime, h⟩ := Gives.exists_of_bind h
      exact ⟨c₉, c', lockTime, hwitness, hlockTime, (Except.ok.inj h).symm⟩
  have hprevout := TxError.ok_of_ofRead hprevout
  have hscriptSig := TxError.ok_of_ofRead hscriptSig
  have hsequence := TxError.ok_of_ofRead hsequence
  obtain ⟨hinputsBytes, -, hinputsAhead⟩ := rest_of_decodeCompactSize hinputs
  obtain ⟨hlenBytes, hlenLt, hlenAhead⟩ := rest_of_decodeCompactSize hscriptLen
  obtain ⟨hcountBytes, hcountLt, hcountAhead⟩ := rest_of_decodeCompactSize hnOut
  obtain ⟨houtputsBytes, rfl, hwritable, houtputsAhead⟩ := rest_of_readOutputs houtputs
  obtain rfl := (take_ok hscriptSig).2.1
  obtain ⟨hahead, -⟩ := readVersionAndMarker_ok hversion
  have hfull : c₁.full = tx := hahead.full
  have hfull' : c₈.full = tx := (hinputsAhead.trans ((ahead_of_take hprevout).trans (hlenAhead.trans
    ((ahead_of_take hscriptSig).trans ((ahead_of_u32 hsequence).trans
      (hcountAhead.trans houtputsAhead)))))).full.trans hfull
  have hbody : c₁ = ⟨tx, coinbaseBody scriptSig sequence outputs ++ c₈.rest⟩ := by
    obtain ⟨full, rest⟩ := c₁
    obtain rfl : full = tx := hfull
    obtain rfl : rest = encodeCompactSize 1 ++ c₂.rest := hinputsBytes
    rw [rest_of_take hprevout, hlenBytes, rest_of_take hscriptSig, rest_of_u32 hsequence, hcountBytes, houtputsBytes]
    simp only [coinbaseBody, List.append_assoc]
  refine ⟨c₈.rest, hbody ▸ hversion, ⟨c₉, c', ?_, hlockTime⟩, hlenLt, hcountLt, hwritable⟩
  rw [← hfull']
  exact hwitness

section Writes

variable {H : Hashing} {tx rest : Bytes} {cb : CoinbaseTx} {hasWitness : Bool}

theorem length_nullOutpoint : nullOutpoint.length = OUTPOINT_SIZE := rfl

theorem skipInputs_one {full : Bytes} {scriptSig : Bytes} (hscript : scriptSig.length < 2 ^ 64) (sequence : UInt32)
    (rest : Bytes) :
    skipInputs 1 ⟨full, nullOutpoint ++ (encodeCompactSize scriptSig.length ++ (scriptSig ++
      (leBytes 4 sequence.toNat ++ rest)))⟩ = .ok ⟨full, rest⟩ := by
  have hsequence := advance_append full rest "sequence" (length_leBytes 4 sequence.toNat)
  simp only [skipInputs, advance_append _ _ _ length_nullOutpoint, TxError.ofRead_ok, bind, Except.bind,
    decodeCompactSize_encode _ _ hscript, advance_append, SEQUENCE_SIZE, hsequence, pure, Except.pure]

theorem skipOutputs_flatMap (full rest : Bytes) {outputs : List TxOut} (houtputs : ∀ o ∈ outputs, o.Writable) :
    skipOutputs outputs.length ⟨full, outputs.flatMap TxOut.encode ++ rest⟩ = .ok ⟨full, rest⟩ := by
  induction outputs with
  | nil => rfl
  | cons o outputs ih =>
      obtain ⟨-, hlength⟩ := houtputs o List.mem_cons_self
      have ih := ih fun o' ho' => houtputs o' (List.mem_cons_of_mem _ ho')
      have hvalue (rest : Bytes) := advance_append full rest "value" (length_leBytes 8 o.value)
      simp only [List.length_cons, skipOutputs, List.flatMap_cons, TxOut.encode, encodeOutput, List.append_assoc,
        VALUE_SIZE, hvalue, TxError.ofRead_ok, bind, Except.bind, decodeCompactSize_encode _ _ hlength,
        advance_append, ih]

/-- A coinbase is read from its version, its body and what follows. -/
theorem parseCoinbase_of_body
    (hversion : readVersionAndMarker (.new tx) = .ok (cb.version, hasWitness, ⟨tx, cb.body ++ rest⟩))
    (hend : readsEnd hasWitness ⟨tx, rest⟩ cb.lockTime) (hcb : cb.Writable) :
    ∃ scriptSigOffset, parseCoinbase tx = .ok { cb with scriptSigOffset, hasWitness } := by
  obtain ⟨c', c'', hwitness, hlockTime⟩ := hend
  have hroom : ¬ (cb.outputs.flatMap TxOut.encode ++ rest).length < cb.outputs.length * MIN_OUTPUT_SIZE := by
    rw [not_lt, List.length_append]
    exact (length_flatMap_encode cb.outputs).trans (Nat.le_add_right _ _)
  simp only [parseCoinbase, hversion, CoinbaseTx.body, coinbaseBody, List.append_assoc, TxError.ofRead_ok, bind,
    Except.bind, decodeCompactSize_encode _ _ (show 1 < 2 ^ 64 by decide), ne_eq, not_true_eq_false, if_false,
    take_append _ _ length_nullOutpoint, decodeCompactSize_encode _ _ hcb.scriptSig, take_append, u32_leBytes,
    decodeCompactSize_encode _ _ hcb.count, if_neg hroom, readOutputs_flatMap _ _ hcb.outputs, pure, Except.pure]
  cases hasWitness with
  | false =>
      obtain rfl := Except.ok.inj hwitness
      simp only [Bool.false_eq_true, if_false, hlockTime]
      exact ⟨_, rfl⟩
  | true =>
      rw [if_pos rfl] at hwitness
      simp only [if_true, hwitness, hlockTime]
      exact ⟨_, rfl⟩

/-- **A coinbase's id hashes it without its witness.** -/
theorem txid_of_body
    (hversion : readVersionAndMarker (.new tx) = .ok (cb.version, hasWitness, ⟨tx, cb.body ++ rest⟩))
    (hend : readsEnd hasWitness ⟨tx, rest⟩ cb.lockTime) (hcb : cb.Writable) :
    txid H tx = .ok (H.sha256d cb.stripped) := by
  obtain ⟨c', c'', hwitness, hlockTime⟩ := hend
  have hinputs : decodeCompactSize ⟨tx, cb.body ++ rest⟩ = .ok (1, ⟨tx, nullOutpoint ++
      (encodeCompactSize cb.scriptSig.length ++ (cb.scriptSig ++ (leBytes 4 cb.sequence.toNat ++
        (encodeCompactSize cb.outputs.length ++ (cb.outputs.flatMap TxOut.encode ++ rest)))))⟩) := by
    simp only [CoinbaseTx.body, coinbaseBody, List.append_assoc]
    exact decodeCompactSize_encode _ _ (by decide)
  have hbody : (cb.body ++ rest).take ((⟨tx, rest⟩ : ByteReader).pos - (⟨tx, cb.body ++ rest⟩ : ByteReader).pos) =
      cb.body :=
    ((⟨rfl, List.suffix_append _ _⟩ : Ahead ⟨tx, cb.body ++ rest⟩ ⟨tx, rest⟩)).take_pos
      (readVersionAndMarker_ok hversion).1.rest.length_le rfl
  simp only [txid, hversion, hinputs, bind, Except.bind, one_ne_zero, if_false, skipInputs_one hcb.scriptSig,
    decodeCompactSize_encode _ _ hcb.count, skipOutputs_flatMap _ _ hcb.outputs, hbody, pure, Except.pure]
  cases hasWitness with
  | false =>
      obtain rfl := Except.ok.inj hwitness
      simp only [Bool.false_eq_true, if_false, hlockTime]
      rfl
  | true =>
      rw [if_pos rfl] at hwitness
      simp only [if_true, hwitness, hlockTime]
      rfl

end Writes

end Ratum
