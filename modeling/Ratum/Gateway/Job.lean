import Ratum.Bitcoin.Transaction
import Ratum.Core.Clock
import Ratum.Core.Target
import Ratum.Datum.Coinbase
import Ratum.Datum.Work
import Ratum.Gateway.Assignments

/-!
# Jobs

`gateway/src/job.rs`: a template, the two coinbases work may commit to, and the header every share on the
job shares. The header of a coinbase and target byte is computed once and kept in the source; it is a
function of the two, so it is computed where it is used.
-/

namespace Ratum

inductive CoinbaseKind
  | pooled
  | subsidyOnly
  deriving DecidableEq

namespace CoinbaseKind

def POOLED_WIRE_ID : UInt8 := 1

def wireId : CoinbaseKind → UInt8
  | pooled => POOLED_WIRE_ID
  | subsidyOnly => COINBASE_ID_SUBSIDY_ONLY

end CoinbaseKind

structure TxnTotals where
  fee : Nat
  weight : UInt32
  size : UInt32
  sigops : UInt32

/-- A block template, with the transaction ids in place of the transactions. -/
structure Template where
  height : UInt32
  coinbaseValue : Nat
  curtime : Nat
  sizelimit : Nat
  weightlimit : Nat
  sigoplimit : Nat
  version : UInt32
  nbits : UInt32
  prevHash : Hash
  witnessCommitment : Bytes
  blake2bRule : Bool
  reducedData : Bool
  txids : List Hash
  totals : TxnTotals

structure Job where
  serial : Nat
  slot : UInt8
  stratumJobId : Bytes
  template : Template
  blockTarget : Target
  prevblockHidden : Bytes
  jobSection : JobSection
  pooledCoinbase : BuiltCoinbase
  subsidyOnlyCoinbase : BuiltCoinbase
  coinbaserOutputs : List TxOut
  poolPayoutScript : Bytes
  isDatumJob : Bool
  abw : Option AbwAssignment
  createdAt : Instant

/-- The header of a coinbase and target byte before the miner's nonces and extranonce, and its H2. -/
structure H2Commitment where
  header : BlockHeaderV2
  h2 : Hash

namespace Job

variable (H : Hashing) (job : Job)

def coinbase : CoinbaseKind → BuiltCoinbase
  | .pooled => job.pooledCoinbase
  | .subsidyOnly => job.subsidyOnlyCoinbase

def fullCoinbase (kind : CoinbaseKind) (targetByte : UInt8) : Option Bytes :=
  job.jobSection.coinbaseTx (job.coinbase kind).section targetByte

def hashStages (h : BlockHeaderV2) : HashStages :=
  match job.abw with
  | some a => h.hashStagesWithKeyHash H a.keyHash
  | none => h.hashStages H

def rawPowHash (h : BlockHeaderV2) : Hash := h.rawPowHash H (job.hashStages H h)

def commitment (kind : CoinbaseKind) (targetByte : UInt8) : Option H2Commitment := do
  let tx ← job.fullCoinbase kind targetByte
  let subsidyOnly := kind = .subsidyOnly
  let header ← job.jobSection.header job.template.version (UInt32.ofNat job.template.curtime)
    (job.jobSection.merkleRoot H tx subsidyOnly) subsidyOnly targetByte job.abw.isSome
  pure { header, h2 := (job.hashStages H header).h2 }

def header (kind : CoinbaseKind) (targetByte : UInt8)
    (extranonce : Vector UInt8 HEADER_EXTRANONCE_SIZE)
    (siaNtime siaNonce : Vector UInt8 SIA_WORDS_LEN) : Option BlockHeaderV2 :=
  (job.commitment H kind targetByte).map fun commitment =>
    { commitment.header with extranonce }.setSiaFields siaNtime siaNonce

end Job
end Ratum
