import Ratum.Bitcoin.Script
import Ratum.Bitcoin.Transaction
import Ratum.Core.Header
import Ratum.Core.Word
import Ratum.Datum.Share

/-!
# The coinbase the gateway builds and the pool reads back

`core/src/datum/coinbase.rs`: the scriptSig with the height, the tags and the unique id carrying the pool's
prime id, where the extranonce goes, and which dictated outputs the block has room for.
-/

namespace Ratum

def TARGET_BYTE_PLACEHOLDER : UInt8 := 0xff

def TAG_SEPARATOR : UInt8 := 0x0f

def TAG_END : UInt8 := 0x00

def UNIQUE_ID_PUSH_DATA_SIZE_NO_PRIME : Nat := 3

def UNIQUE_ID_PUSH_DATA_SIZE_V1 : Nat := UNIQUE_ID_PUSH_DATA_SIZE_NO_PRIME + 4

def UNIQUE_ID_PUSH_DATA_SIZE_V3 : Nat := UNIQUE_ID_PUSH_DATA_SIZE_NO_PRIME + 8

def ENPREFIX_SIZE : Nat := 2

def EXTRANONCE_PUSH_SIZE : Nat := 1 + ENPREFIX_SIZE + EXTRANONCE_SIZE

def EXTRANONCE_PUSH_OPCODE : UInt8 := UInt8.ofNat (EXTRANONCE_PUSH_SIZE - 1)

def MAX_COINBASE_SCRIPT_SIG_LEN : Nat := 100

def MAX_COINBASE_TAG_SPACE : Nat := 86

def WIDE_PRIME_PUSH_EXTRA_BYTES : Nat := 4

def SCRIPT_SIG_ROOM_FOR_EXTRANONCE : Nat := MAX_COINBASE_SCRIPT_SIG_LEN - EXTRANONCE_PUSH_SIZE

def OP_RETURN_EXTRANONCE_OUTPUT_SIZE : Nat := MIN_OUTPUT_SIZE + 1 + EXTRANONCE_PUSH_SIZE

def COINBASE_TX_VERSION : Nat := 1

def PRUNABLE_OP_RETURN : Bytes := [OP_RETURN, 0x01, 0x00]

def MIN_USEFUL_OUTPUT_ROOM : Nat := 30

def MAX_TXN_COUNT_SIZE : Nat := 5

def COINBASE_WITNESS_BYTES : Nat := 36

def WITNESS_SCALE_FACTOR : Nat := 4

def MAX_COINBASE_SECTION_LEN : Nat := 32768

/-! ### The scriptSig -/

/-- The bytes of the scriptSig the tag push may occupy. -/
def tagSpace (widePrime : Bool) : Nat :=
  MAX_COINBASE_TAG_SPACE - if widePrime then WIDE_PRIME_PUSH_EXTRA_BYTES else 0

def tagPushData (primary secondary : Bytes) : Bytes :=
  primary ++ (if secondary.isEmpty then [] else TAG_SEPARATOR :: secondary) ++ [TAG_END]

def uniqueIdPush (uniqueId : UInt16) (primeId : Bytes) : Bytes :=
  UInt8.ofNat (UNIQUE_ID_PUSH_DATA_SIZE_NO_PRIME + primeId.length) ::
    TARGET_BYTE_PLACEHOLDER :: (leBytes 2 uniqueId.toNat ++ primeId)

structure ScriptSigInputs where
  height : UInt32
  tagPrimary : String
  tagSecondary : String
  uniqueId : UInt16
  primeId : UInt64
  widePrime : Bool
  datumActive : Bool

namespace ScriptSigInputs

variable (t : ScriptSigInputs)

/-- The tag push, the secondary tag shortened to fit; none when the primary tag does not fit. -/
def tagPushDataThatFits : Option Bytes :=
  let tag0 := stringBytes t.tagPrimary
  let tag1 := stringBytes t.tagSecondary
  let space := tagSpace t.widePrime
  let data := tagPushData tag0 tag1
  let data := if space < data.length then
      let excess := data.length - space
      tagPushData tag0 (if excess < tag1.length then tag1.take (tag1.length - excess) else [])
    else data
  if data.length ≤ space then some data else none

/-- The prime id as the unique-id push carries it. -/
def primeIdBytes : Bytes :=
  if t.primeId = 0 && !t.datumActive then []
  else if t.widePrime then leBytes 8 t.primeId.toNat
  else leBytes 4 t.primeId.toUInt32.toNat

/-- The scriptSig before the extranonce push, and the index of the target byte in it. -/
def scriptSig : Option (Bytes × Nat) := do
  let data ← t.tagPushDataThatFits
  let script := heightPush t.height ++ encodePush data
  pure (script ++ uniqueIdPush t.uniqueId t.primeIdBytes, script.length + 1)

end ScriptSigInputs

structure ParsedScriptSig where
  targetByteIndex : Nat
  tagSecondary : String
  deriving DecidableEq

/-- `char::is_control`. -/
def isControl (c : Char) : Bool := c.toNat ≤ 0x1f || 0x7f ≤ c.toNat && c.toNat ≤ 0x9f

def decodeTag (bytes : Bytes) : String :=
  let bytes := if bytes.getLast? = some TAG_END then bytes.dropLast else bytes
  String.ofList ((fromUtf8Lossy bytes).toList.filter (!isControl ·))

/-- Whether a push is the unique-id push of the prime id, which is 32 bits wide or 64. -/
def carriesPrimeId (primeId : UInt64) (data : Bytes) : Bool :=
  let id := data.drop UNIQUE_ID_PUSH_DATA_SIZE_NO_PRIME
  if data.length = UNIQUE_ID_PUSH_DATA_SIZE_V1 then
    primeId.toNat < 2 ^ 32 && id = (leBytes 8 primeId.toNat).take 4
  else if data.length = UNIQUE_ID_PUSH_DATA_SIZE_V3 then id = leBytes 8 primeId.toNat
  else false

/-- The bytes after a prefix; none when the bytes do not begin with it. -/
def stripPrefix (start bytes : Bytes) : Option Bytes :=
  if bytes.take start.length = start then some (bytes.drop start.length) else none

/-- The secondary tag of the push before the unique id; none when the pool's own tag is missing. -/
def secondaryTag (coinbaseTag : String) (tagPush : Option Bytes) : Option String :=
  if coinbaseTag.isEmpty then
    some ((tagPush.bind (stripPrefix [TAG_SEPARATOR])).elim "" decodeTag)
  else
    match tagPush.bind (stripPrefix (stringBytes coinbaseTag)) with
    | none => none
    | some [] => none
    | some (marker :: rest) =>
        if marker = TAG_END then some ""
        else if marker = TAG_SEPARATOR then some (decodeTag rest)
        else none

def parseScriptSig (tx : CoinbaseTx) (primeId : UInt64) (coinbaseTag : String) :
    Option ParsedScriptSig := do
  let pushes := scriptPushes tx.scriptSig
  let at_ ← pushes.findIdx? fun push => carriesPrimeId primeId push.data
  let uniqueIdPush ← pushes[at_]?
  let tagSecondary ← secondaryTag coinbaseTag
    (if at_ = 0 then none else pushes[at_ - 1]?.map ScriptPush.data)
  pure { targetByteIndex := tx.scriptSigOffset + uniqueIdPush.dataAt, tagSecondary }

/-! ### The coinbase -/

/-- `core/src/datum/messages/coinbaser.rs`: a request for the split of a value. -/
structure CoinbaserRequest where
  value : Nat
  prevHash : Hash
  deriving DecidableEq

/-- The split the pool dictates for a value. -/
structure CoinbaserResponse where
  value : Nat
  coinbaserId : UInt8
  outputs : List TxOut
  deriving DecidableEq

/-- The template's size and weight limits, and what its transactions have used. -/
structure BlockLimits where
  sizelimit : Nat
  weightlimit : Nat
  txnTotalSize : Nat
  txnTotalWeight : Nat

structure CoinbaseSpec where
  coinbaseId : UInt8
  scriptSig : Bytes
  targetByteIndexInScript : Nat
  enPrefix : UInt16
  witnessCommitment : Option Bytes
  poolPayoutScript : Bytes
  coinbaseValue : Nat
  outputs : List TxOut
  limits : BlockLimits
  sigopBudget : Nat

structure BuiltCoinbase where
  «section» : CoinbaseSection
  targetByteIndex : Nat

def OP_CHECKSIG : UInt8 := 0xac

def OP_CHECKSIGVERIFY : UInt8 := 0xad

def OP_CHECKMULTISIG : UInt8 := 0xae

def OP_CHECKMULTISIGVERIFY : UInt8 := 0xaf

def sigopCost (opcode : UInt8) : Nat :=
  if opcode = OP_CHECKSIG || opcode = OP_CHECKSIGVERIFY then WITNESS_SCALE_FACTOR
  else if opcode = OP_CHECKMULTISIG || opcode = OP_CHECKMULTISIGVERIFY then
    20 * WITNESS_SCALE_FACTOR
  else 0

def outputSigopCost (script : Bytes) : Nat := ((scriptOpcodes script).map sigopCost).sum

namespace CoinbaseSpec

variable (p : CoinbaseSpec)

/-- Whether the extranonce fits in the scriptSig; an output carries it otherwise. -/
def inScript : Bool := p.scriptSig.length ≤ SCRIPT_SIG_ROOM_FOR_EXTRANONCE

/-- The bytes before the scriptSig. -/
def head : Bytes :=
  leBytes 4 COINBASE_TX_VERSION ++ encodeCompactSize 1 ++ nullOutpoint ++
    encodeCompactSize (p.scriptSig.length + if p.inScript then EXTRANONCE_PUSH_SIZE else 0)

/-- The bytes of `u16::to_be_bytes`. -/
def enPrefixBytes : Bytes := (leBytes 2 p.enPrefix.toNat).reverse

/-- What the outputs after the extranonce hold. -/
def tail (included : List TxOut) (paid : Nat) : Bytes :=
  (included.map fun o => encodeOutput o.value o.scriptPubkey).flatten ++
    (if paid < p.coinbaseValue then encodeOutput (p.coinbaseValue - paid) p.poolPayoutScript
      else encodeOutput 0 PRUNABLE_OP_RETURN) ++
    (p.witnessCommitment.elim [] (encodeOutput 0)) ++ List.replicate 4 0

/-- The coinbase carrying the included outputs, which pay `paid` of its value. -/
def assemble (included : List TxOut) (paid : Nat) : BuiltCoinbase :=
  let nOut := included.length + 1 + p.witnessCommitment.isSome.toNat
  let sequenceFinal := List.replicate SEQUENCE_SIZE 0xff
  let (coinb1, coinb2) := if p.inScript then
      (EXTRANONCE_PUSH_OPCODE :: p.enPrefixBytes, sequenceFinal ++ encodeCompactSize nOut)
    else
      (sequenceFinal ++ encodeCompactSize (nOut + 1) ++ leBytes 8 0 ++
        [UInt8.ofNat (OP_RETURN_EXTRANONCE_OUTPUT_SIZE - MIN_OUTPUT_SIZE), OP_RETURN,
          EXTRANONCE_PUSH_OPCODE] ++ p.enPrefixBytes, [])
  { «section» :=
      { coinbaseId := p.coinbaseId
        coinb1 := p.head ++ p.scriptSig ++ coinb1
        coinb2 := coinb2 ++ p.tail included paid }
    targetByteIndex := p.head.length + p.targetByteIndexInScript }

/-- The bytes the coinbase occupies besides the dictated outputs. -/
def fixedBytes : Nat :=
  let cb := (p.assemble [] 0).section
  let countGrowth := (encodeCompactSize (p.outputs.length + 3)).length - (encodeCompactSize 3).length
  cb.coinb1.length + EXTRANONCE_SIZE + cb.coinb2.length + countGrowth

end CoinbaseSpec

/-- The bytes a block's coinbase may spend on dictated outputs. -/
def outputBudget (fixedBytes : Nat) (limits : BlockLimits) : Nat :=
  let around := HEADER_V2_SIZE + MAX_TXN_COUNT_SIZE
  let bySize := limits.sizelimit - (limits.txnTotalSize + around + COINBASE_WITNESS_BYTES)
  let byWeight := (limits.weightlimit -
    (limits.txnTotalWeight + WITNESS_SCALE_FACTOR * around + COINBASE_WITNESS_BYTES)) /
      WITNESS_SCALE_FACTOR
  min (min bySize byWeight) MAX_COINBASE_SECTION_LEN - fixedBytes

/-- The loop over the dictated outputs: those that fit, and the value they pay. -/
def selectFrom (coinbaseValue : Nat) :
    List TxOut → (remaining sigopsLeft paid : Nat) → List TxOut × Nat
  | [], _, _, paid => ([], paid)
  | o :: outputs, remaining, sigopsLeft, paid =>
      if remaining < MIN_USEFUL_OUTPUT_ROOM || coinbaseValue ≤ paid then ([], paid)
      else
        let cost := o.scriptPubkey.length + MIN_OUTPUT_SIZE
        let sigops := outputSigopCost o.scriptPubkey
        if coinbaseValue < satAdd64 paid o.value || remaining < cost || sigopsLeft < sigops then
          selectFrom coinbaseValue outputs remaining sigopsLeft paid
        else
          let (included, total) := selectFrom coinbaseValue outputs (remaining - cost)
            (sigopsLeft - sigops) (paid + o.value)
          (o :: included, total)

/-- The coinbase and the dictated outputs it carries, in the order they were given. -/
def CoinbaseSpec.build (p : CoinbaseSpec) : BuiltCoinbase × List TxOut :=
  let (included, paid) := selectFrom p.coinbaseValue p.outputs (outputBudget p.fixedBytes p.limits)
    p.sigopBudget 0
  (p.assemble included paid, included)

end Ratum
