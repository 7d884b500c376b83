import Ratum.Bitcoin.Script
import Ratum.Bitcoin.Transaction

/-!
# A coinbase read back

What `parse_coinbase` and `script_pushes` read out of the bytes a coinbase is written as.
-/

namespace Ratum

/-! ### The transaction -/

def TxOut.encode (o : TxOut) : Bytes := encodeOutput o.value o.scriptPubkey

/-- The serialization of a coinbase without a witness. -/
def coinbaseBytes (scriptSig : Bytes) (outputs : List TxOut) : Bytes :=
  leBytes 4 1 ++ (encodeCompactSize 1 ++ (nullOutpoint ++ (encodeCompactSize scriptSig.length ++
    (scriptSig ++ (leBytes 4 0xffffffff ++ (encodeCompactSize outputs.length ++
      (outputs.flatMap TxOut.encode ++ leBytes 4 0)))))))

def TxOut.Writable (o : TxOut) : Prop := o.value < 2 ^ 64 ∧ o.scriptPubkey.length < 2 ^ 64

theorem TxError.ofRead_ok {α : Type} (a : α) : TxError.ofRead (.ok a) = .ok a := rfl

section Reads

variable (full rest : Bytes)

theorem decodeCompactSize_encode {n : Nat} (hn : n < 2 ^ 64) :
    decodeCompactSize ⟨full, encodeCompactSize n ++ rest⟩ = .ok (n, ⟨full, rest⟩) := by
  rw [encodeCompactSize]
  split
  · rename_i hsmall
    have hbyte : (UInt8.ofNat n).toNat = n := UInt8.toNat_ofNat_of_lt' (by show n < 256; omega)
    have hne (marker : UInt8) (hmarker : 0xfc < marker.toNat) : UInt8.ofNat n ≠ marker := by
      intro heq
      rw [← heq, hbyte] at hmarker
      omega
    simp only [decodeCompactSize, List.cons_append, List.nil_append, ByteReader.u8_cons, TxError.ofRead_ok, bind,
      Except.bind, if_neg (hne 0xfd (by decide)), if_neg (hne 0xfe (by decide)),
      if_neg (hne 0xff (by decide)), hbyte, pure, Except.pure]
  · split
    · rename_i hlarge hfits
      have hread (what : String) :=
        ByteReader.uint_leBytes full rest what (show n < 256 ^ 2 by show n < 65536; omega)
      have hmin : ¬ n < 0xfd := by omega
      simp only [decodeCompactSize, compactSizeOf, List.cons_append, ByteReader.u8_cons, TxError.ofRead_ok,
        bind, Except.bind, if_true, hread, if_neg hmin, pure, Except.pure]
    · split
      · rename_i hlarge hfits
        have hread (what : String) :=
          ByteReader.uint_leBytes full rest what (show n < 256 ^ 4 by show n < 4294967296; omega)
        have hmin : ¬ n < 0x10000 := by omega
        simp only [decodeCompactSize, compactSizeOf, List.cons_append, ByteReader.u8_cons, TxError.ofRead_ok,
          bind, Except.bind, hread, if_neg hmin, pure, Except.pure]
        rfl
      · have hread (what : String) :=
          ByteReader.uint_leBytes full rest what (show n < 256 ^ 8 from hn)
        have hmin : ¬ n < 0x100000000 := by omega
        simp only [decodeCompactSize, compactSizeOf, List.cons_append, ByteReader.u8_cons, TxError.ofRead_ok,
          bind, Except.bind, hread, if_neg hmin, pure, Except.pure]
        rfl

theorem readOutputs_flatMap {outputs : List TxOut} (houtputs : ∀ o ∈ outputs, o.Writable) :
    readOutputs outputs.length ⟨full, outputs.flatMap TxOut.encode ++ rest⟩ =
      .ok (outputs, ⟨full, rest⟩) := by
  induction outputs with
  | nil => rfl
  | cons o outputs ih =>
      obtain ⟨hvalue, hlength⟩ := houtputs o List.mem_cons_self
      have hread (rest : Bytes) (what : String) :=
        ByteReader.uint_leBytes full rest what (show o.value < 256 ^ 8 from hvalue)
      have ih := ih fun o' ho' => houtputs o' (List.mem_cons_of_mem _ ho')
      simp only [List.length_cons, readOutputs, List.flatMap_cons, TxOut.encode, encodeOutput, List.append_assoc,
        VALUE_SIZE,
        hread, TxError.ofRead_ok, bind, Except.bind, decodeCompactSize_encode _ _ hlength,
        ByteReader.take_append, ih, pure, Except.pure]

end Reads

theorem length_flatMap_encode (outputs : List TxOut) :
    outputs.length * MIN_OUTPUT_SIZE ≤ (outputs.flatMap TxOut.encode).length := by
  induction outputs with
  | nil => exact Nat.zero_le _
  | cons o outputs ih =>
      have hcount : 0 < (encodeCompactSize o.scriptPubkey.length).length := by
        rw [encodeCompactSize]
        split_ifs <;> exact Nat.succ_pos _
      simp only [List.length_cons, List.flatMap_cons, List.length_append, TxOut.encode, encodeOutput,
        length_leBytes, VALUE_SIZE]
      rw [MIN_OUTPUT_SIZE, VALUE_SIZE] at *
      omega

/-- **A coinbase is read back as it was written**, its scriptSig from where it lies. -/
theorem parseCoinbase_coinbaseBytes {scriptSig : Bytes} {outputs : List TxOut}
    (hscript : scriptSig.length < 2 ^ 64) (hcount : outputs.length < 2 ^ 64)
    (houtputs : ∀ o ∈ outputs, o.Writable) :
    parseCoinbase (coinbaseBytes scriptSig outputs) =
      .ok
        { version := 1
          scriptSigOffset := 41 + (encodeCompactSize scriptSig.length).length
          scriptSig
          sequence := 0xffffffff
          outputs
          lockTime := 0
          hasWitness := false } := by
  have hnew : ByteReader.new (coinbaseBytes scriptSig outputs) =
      ⟨coinbaseBytes scriptSig outputs, leBytes 4 1 ++ (encodeCompactSize 1 ++ (nullOutpoint ++
        (encodeCompactSize scriptSig.length ++ (scriptSig ++ (leBytes 4 0xffffffff ++
          (encodeCompactSize outputs.length ++ (outputs.flatMap TxOut.encode ++ leBytes 4 0)))))))⟩ := rfl
  have hversion (full rest : Bytes) :
      (ByteReader.mk full (leBytes 4 1 ++ rest)).u32 "version" = .ok (1, ⟨full, rest⟩) :=
    ByteReader.u32_leBytes full rest "version" 1
  have hsequence (full rest : Bytes) :
      (ByteReader.mk full (leBytes 4 0xffffffff ++ rest)).u32 "sequence" = .ok (0xffffffff, ⟨full, rest⟩) :=
    ByteReader.u32_leBytes full rest "sequence" 0xffffffff
  have hlockTime (full : Bytes) : readLockTime ⟨full, leBytes 4 0⟩ = .ok (0, ⟨full, []⟩) := by
    have hread := ByteReader.u32_leBytes full [] "lock time" 0
    rw [List.append_nil] at hread
    rw [readLockTime]
    exact congrArg (fun read => TxError.ofRead read >>= _) hread
  have hmarker (full rest : Bytes) :
      (ByteReader.mk full (encodeCompactSize 1 ++ rest)).peek2 ≠ some (0x00, 0x01) := by
    cases rest <;> simp [encodeCompactSize, ByteReader.peek2]
  have houtpoint (full rest : Bytes) :=
    @ByteReader.take_append _ rest full "outpoint" _ (show nullOutpoint.length = OUTPOINT_SIZE by decide)
  have hroom : ¬ (outputs.flatMap TxOut.encode ++ leBytes 4 0).length < outputs.length * MIN_OUTPUT_SIZE := by
    rw [not_lt, List.length_append]
    exact (length_flatMap_encode outputs).trans (Nat.le_add_right _ _)
  simp only [parseCoinbase, hnew, readVersionAndMarker, hversion, TxError.ofRead_ok, bind, Except.bind,
    if_neg (hmarker _ _), pure, Except.pure, decodeCompactSize_encode _ _ (show 1 < 2 ^ 64 by decide), ne_eq,
    not_true_eq_false, if_false, houtpoint, decodeCompactSize_encode _ _ hscript, ByteReader.take_append,
    hsequence, decodeCompactSize_encode _ _ hcount, if_neg hroom, readOutputs_flatMap _ _ houtputs,
    Bool.false_eq_true, hlockTime]
  have hpos : (ByteReader.mk (coinbaseBytes scriptSig outputs) (scriptSig ++ (leBytes 4 0xffffffff ++
      (encodeCompactSize outputs.length ++ (outputs.flatMap TxOut.encode ++ leBytes 4 0))))).pos =
        41 + (encodeCompactSize scriptSig.length).length := by
    have houtpointLength : nullOutpoint.length = 36 := by decide
    have hinputsLength : (encodeCompactSize 1).length = 1 := rfl
    simp only [ByteReader.pos, coinbaseBytes, List.length_append, length_leBytes, houtpointLength,
      hinputsLength]
    omega
  rw [hpos]

end Ratum
