import Ratum.Datum.ShareResponse
import Ratum.Ledger.Split
import Ratum.Core.Header

/-!
# A rebuilt share

`RebuiltShare` and `Refusal` of `prime/src/verify.rs`.
-/

namespace Ratum

structure RebuiltShare where
  isBlock : Bool
  difficulty : UInt64
  blockHash : Hash
  rawPowHash : Hash
  prevHash : Hash
  jobBits : UInt32
  header : Bytes
  coinbaseTx : Bytes
  height : UInt32
  txnCount : UInt32
  coinbaserId : UInt8
  paidToSplit : Nat
  paidToPool : Nat
  /-- The dictated outputs the coinbase left out, other than those paying the pool's script. -/
  unpaidOutputs : List Payout
  tagSecondary : String
  version : UInt32
  coinbaseDigest : Hash
  /-- The generation of the job installed in the share's slot when the share was rebuilt on it. -/
  jobGeneration : Option Nat
  deriving DecidableEq

/-- A refused share: the reason, and the share as rebuilt. -/
structure Refusal where
  reason : RejectReason
  rebuilt : Option RebuiltShare
  deriving DecidableEq

def Refusal.unreferenced (reason : RejectReason) : Refusal := ⟨reason, none⟩

end Ratum
