import Ratum.Datum.Channel
import Ratum.Datum.Messages
import Mathlib.Algebra.Order.BigOperators.Group.List

/-!
# The transaction lists of a job's validation

`core/src/datum/messages/validation.rs`: the reply that carries transactions of a job, how it is written and
how it is read back. A list of at most so many bytes fits one frame with its padding.
-/

namespace Ratum

/-- The subcommand of a validation message, either way. -/
def VALIDATION : UInt8 := 0x50

namespace ValidationRequest

def TXNS : UInt8 := 0x11

def BLOCK_TXNS : UInt8 := 0x12

end ValidationRequest

namespace ValidationResponse

def TXNS : UInt8 := 0x91

def BLOCK_TXNS : UInt8 := 0x92

end ValidationResponse

def JOB_INDEX_INVALID : UInt8 := 0xff

def JOB_INDEX_AT : Nat := 2

def REQUEST_HEADER_LEN : Nat := JOB_INDEX_AT + 1

def MAX_MINING_PAD_LEN : Nat := 100

/-- The bytes of the size before each transaction. -/
def TXN_SIZE_LEN : Nat := 3

/-- The bytes of a reply outside its transactions. -/
def TXN_LIST_REPLY_OVERHEAD : Nat := (REQUEST_HEADER_LEN + 1) + 2 + 1

/-- The most bytes the transactions of a reply take with their sizes, for it to fit a frame. -/
def MAX_TXN_LIST_TXN_BYTES : Nat := MAX_PLAINTEXT_LEN - TXN_LIST_REPLY_OVERHEAD - MAX_MINING_PAD_LEN

inductive TxnListStatus
  | ok
  | jobEmpty
  | noTemplate
  | tooManyTxns
  | badJobIndex
  | badRequest
  | unknown (code : UInt8)
  deriving DecidableEq

namespace TxnListStatus

def code : TxnListStatus → UInt8
  | ok => 0x01
  | jobEmpty => 0xf0
  | noTemplate => 0xf1
  | tooManyTxns => 0xf2
  | badJobIndex => 0xf3
  | badRequest => 0xf4
  | unknown code => code

def fromCode (code : UInt8) : TxnListStatus :=
  if code = 0x01 then ok
  else if code = 0xf0 then jobEmpty
  else if code = 0xf1 then noTemplate
  else if code = 0xf2 then tooManyTxns
  else if code = 0xf3 then badJobIndex
  else if code = 0xf4 then badRequest
  else unknown code

/-- A status of its own name is read back. -/
def Named : TxnListStatus → Prop
  | unknown _ => False
  | _ => True

theorem fromCode_code {status : TxnListStatus} (hnamed : status.Named) : fromCode status.code = status := by
  cases status with
  | unknown code => cases hnamed
  | _ => rfl

end TxnListStatus

/-- A 24-bit size, little-endian. -/
def encodeTxnSize (len : Nat) : Bytes := leBytes 2 (UInt16.ofNat len).toNat ++ [UInt8.ofNat (len >>> 16)]

def decodeTxnSize (c : ByteReader) : Except MessageError (Nat × ByteReader) := do
  let (b, c) ← orTruncated (c.arr TXN_SIZE_LEN "txn size")
  pure (leNat [b[0], b[1]] ||| (b[2].toNat <<< 16), c)

structure TxnList where
  selector : UInt8
  jobIndex : UInt8
  status : TxnListStatus
  txns : List Bytes
  deriving DecidableEq

namespace TxnList

def empty (selector jobIndex : UInt8) (status : TxnListStatus) : TxnList :=
  { selector, jobIndex, status, txns := [] }

def encode (l : TxnList) : Bytes :=
  [VALIDATION, l.selector, l.jobIndex, l.status.code] ++
    if l.status ≠ .ok then []
    else
      leBytes 2 (UInt16.ofNat l.txns.length).toNat ++
        l.txns.flatMap (fun tx => encodeTxnSize tx.length ++ tx) ++ [STRUCT_END]

/-- Opens a validation response of the selector. -/
def bodyOf (data : Bytes) (want : UInt8) : Except MessageError ByteReader := do
  let c ← openMessage data VALIDATION
  let (got, c) ← orTruncated (c.u8 "response selector")
  if got ≠ want then throw (.wrongMessage want got)
  pure c

def readTxns : Nat → ByteReader → Except MessageError (List Bytes × ByteReader)
  | 0, c => pure ([], c)
  | n + 1, c => do
      let (len, c) ← decodeTxnSize c
      let (tx, c) ← orTruncated (c.take len "txn")
      let (txns, c) ← readTxns n c
      pure (tx :: txns, c)

def decode (data : Bytes) (selector : UInt8) : Except MessageError TxnList := do
  let c ← bodyOf data selector
  let (jobIndex, c) ← orTruncated (c.u8 "job index")
  let (code, c) ← orTruncated (c.u8 "status")
  let status := TxnListStatus.fromCode code
  if status ≠ .ok then pure (empty selector jobIndex status)
  else do
    let (stated, c) ← orTruncated (c.u16 "txn count")
    let (txns, c) ← readTxns stated.toNat c
    let _ ← readTerminator c
    pure { selector, jobIndex, status, txns }

/-- The bytes of the transactions, each with its size. -/
def txnBytes (txns : List Bytes) : Nat := (txns.map fun tx => TXN_SIZE_LEN + tx.length).sum

end TxnList

theorem encodeTxnSize_eq (len : Nat) : encodeTxnSize len = leBytes 3 len := by
  have hlow : UInt8.ofNat (len % 65536) = UInt8.ofNat len := by
    apply UInt8.toNat_inj.mp
    rw [UInt8.toNat_ofNat', UInt8.toNat_ofNat']
    omega
  have hmiddle : UInt8.ofNat (len % 65536 / 256) = UInt8.ofNat (len / 256) := by
    apply UInt8.toNat_inj.mp
    rw [UInt8.toNat_ofNat', UInt8.toNat_ofNat']
    omega
  rw [encodeTxnSize, UInt16.toNat_ofNat', Nat.shiftRight_eq_div_pow]
  simp only [leBytes, List.cons_append, List.nil_append, hlow, hmiddle, Nat.div_div_eq_div_mul]

theorem decodeTxnSize_encode {len : Nat} (hlen : len < 2 ^ 24) (full rest : Bytes) :
    decodeTxnSize ⟨full, encodeTxnSize len ++ rest⟩ = .ok (len, ⟨full, rest⟩) := by
  have hread := ByteReader.arr_append TXN_SIZE_LEN full rest "txn size"
    ⟨(leBytes 3 len).toArray, by rw [List.size_toArray, length_leBytes]; rfl⟩
  rw [Vector.toList_mk, List.toList_toArray] at hread
  have hlow : leNat [UInt8.ofNat len, UInt8.ofNat (len / 256)] = len % 2 ^ 16 := leNat_leBytes 2 len
  have hhigh : (UInt8.ofNat (len / 256 / 256)).toNat = len / 2 ^ 16 := by
    rw [UInt8.toNat_ofNat']
    omega
  have hor : len % 2 ^ 16 ||| len / 2 ^ 16 * 2 ^ 16 = len := by
    rw [Nat.or_comm, Nat.mul_comm, ← Nat.two_pow_add_eq_or_of_lt (Nat.mod_lt _ (Nat.two_pow_pos 16))]
    exact Nat.div_add_mod len (2 ^ 16)
  rw [decodeTxnSize, encodeTxnSize_eq, hread]
  show Except.ok (leNat [UInt8.ofNat len, UInt8.ofNat (len / 256)] |||
    (UInt8.ofNat (len / 256 / 256)).toNat <<< 16, _) = _
  rw [hlow, hhigh, Nat.shiftLeft_eq, hor]

namespace TxnList

/-- The list fits the message: the count and the sizes are written whole. -/
structure FitsWire (l : TxnList) : Prop where
  count_lt : l.txns.length < 2 ^ 16
  size_lt : ∀ tx ∈ l.txns, tx.length < 2 ^ 24

theorem readTxns_flatMap {txns : List Bytes} (hsizes : ∀ tx ∈ txns, tx.length < 2 ^ 24) (full rest : Bytes) :
    readTxns txns.length ⟨full, txns.flatMap (fun tx => encodeTxnSize tx.length ++ tx) ++ rest⟩ =
      .ok (txns, ⟨full, rest⟩) := by
  induction txns with
  | nil => rfl
  | cons tx txns ih =>
      rw [List.length_cons, readTxns, List.flatMap_cons, List.append_assoc, List.append_assoc,
        decodeTxnSize_encode (hsizes tx List.mem_cons_self)]
      simp only [bind, Except.bind, ByteReader.take_append full _ rfl, orTruncated_ok,
        ih fun tx' htx' => hsizes tx' (List.mem_cons_of_mem tx htx'), pure, Except.pure]

/-- **A list that fits is read back**, with any bytes of padding after it. -/
theorem decode_encode {l : TxnList} (hfits : l.FitsWire) (hnamed : l.status.Named)
    (hempty : l.status ≠ .ok → l.txns = []) (pad : Bytes) : decode (l.encode ++ pad) l.selector = .ok l := by
  have hopen (rest : Bytes) : bodyOf (VALIDATION :: l.selector :: rest) l.selector =
      .ok ⟨VALIDATION :: l.selector :: rest, rest⟩ := by
    rw [bodyOf, openMessage_cons]
    simp only [bind, Except.bind, ByteReader.u8_cons, orTruncated_ok, ne_eq, not_true_eq_false, if_false, pure,
      Except.pure]
  rw [decode, encode]
  simp only [List.cons_append, List.nil_append, hopen, bind, Except.bind, ByteReader.u8_cons, orTruncated_ok,
    TxnListStatus.fromCode_code hnamed]
  by_cases hok : l.status = .ok
  · have hterminator (full : Bytes) : readTerminator ⟨full, STRUCT_END :: pad⟩ = .ok ⟨full, pad⟩ := by
      simp [readTerminator, orTruncated, Except.mapError, bind, Except.bind, pure, Except.pure]
    have hcount : (UInt16.ofNat l.txns.length).toNat = l.txns.length :=
      UInt16.toNat_ofNat_of_lt' hfits.count_lt
    have hcountRead (full rest : Bytes) := ByteReader.u16_leBytes full rest "txn count" (UInt16.ofNat l.txns.length)
    rw [hcount] at hcountRead
    simp only [hok, ne_eq, not_true_eq_false, if_false, List.append_assoc, hcountRead, orTruncated_ok,
      hcount, readTxns_flatMap hfits.size_lt, List.cons_append, List.nil_append, hterminator, pure, Except.pure]
    rw [← hok]
  · simp only [ne_eq, hok, not_false_eq_true, if_true, pure, Except.pure, empty]
    rw [← hempty hok]

theorem length_encode {l : TxnList} (hok : l.status = .ok) :
    l.encode.length = TXN_LIST_REPLY_OVERHEAD + txnBytes l.txns := by
  have hflat : (l.txns.flatMap fun tx => encodeTxnSize tx.length ++ tx).length = txnBytes l.txns := by
    rw [txnBytes, List.length_flatMap]
    simp only [List.length_append, encodeTxnSize_eq, length_leBytes, TXN_SIZE_LEN]
  rw [encode, if_neg (not_not.mpr hok)]
  simp only [List.length_append, hflat, length_leBytes, List.length_cons, List.length_nil]
  rw [TXN_LIST_REPLY_OVERHEAD, REQUEST_HEADER_LEN, JOB_INDEX_AT]
  omega

theorem length_encode_empty {selector jobIndex : UInt8} {status : TxnListStatus} (hnot : status ≠ .ok) :
    (empty selector jobIndex status).encode.length = 4 := by
  rw [encode, if_pos (show (empty selector jobIndex status).status ≠ .ok from hnot)]
  rfl

/-- The transactions of a list under the bound fit the message. -/
theorem fits_of_txnBytes_le {l : TxnList} (hcount : l.txns.length < 2 ^ 16)
    (hbytes : txnBytes l.txns ≤ MAX_TXN_LIST_TXN_BYTES) : l.FitsWire := by
  refine ⟨hcount, fun tx htx => ?_⟩
  have hle : TXN_SIZE_LEN + tx.length ≤ txnBytes l.txns :=
    List.single_le_sum (fun _ _ => Nat.zero_le _) _ (List.mem_map_of_mem htx)
  have hmax : MAX_TXN_LIST_TXN_BYTES < 2 ^ 24 := by decide
  omega

end TxnList
end Ratum
