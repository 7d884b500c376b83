import Ratum.Core.Bytes
import Ratum.Core.Io
import Ratum.Ledger.Split

/-!
# Found blocks and what they owe

The records of `prime/src/ledger/blocks.rs`: the blocks the pool found and what their coinbases left
owed, each block hash recorded once. The packed rows, the settling and the confirmations are left out.
-/

namespace Ratum

structure OwedBlock where
  foundAt : Nat
  height : UInt32
  blockHash : Hash
  settledAt : Option Nat
  entries : List Payout
  deriving DecidableEq

/-- The sum of payouts as a `u64`. -/
def sumSats (payouts : List Payout) : Nat := asU64 (Suffix.total Payout.sats payouts)

def OwedBlock.total (owed : OwedBlock) : Nat := sumSats owed.entries

structure FoundBlock (F : Type) where
  foundAt : Nat
  height : UInt32
  blockHash : Hash
  paidToSplit : Nat
  paidToPool : Nat
  finder : String
  tagSecondary : String
  networkDifficulty : F
  cumulativeWork : Nat

structure BlockRecords (F : Type) where
  blocks : List (FoundBlock F)
  owed : List OwedBlock

namespace BlockRecords

variable {F : Type}

def recordBlock (records : BlockRecords F) (block : FoundBlock F) (answer : IoAnswer) :
    Except IoError (BlockRecords F) :=
  if records.blocks.any fun b => b.blockHash = block.blockHash then .ok records
  else answer.map fun _ => { records with blocks := records.blocks ++ [block] }

def recordOwed (records : BlockRecords F) (owed : OwedBlock) (answer : IoAnswer) :
    Except IoError (BlockRecords F) :=
  if records.owed.any fun o => o.blockHash = owed.blockHash then .ok records
  else answer.map fun _ => { records with owed := records.owed ++ [owed] }

end BlockRecords
end Ratum
