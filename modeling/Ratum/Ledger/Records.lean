import Ratum.Core.Maps
import Ratum.Ledger.RecordRows
import Mathlib.Data.List.Sort

/-!
# The block records and the file they are kept in

`BlockRecords` of `prime/src/ledger/blocks.rs` with its database: the blocks, the owed records and the
confirmation readings in memory, and the three tables. A write either takes effect or fails, and its
answer is an argument; the records after an operation are given whether it failed or not.
-/

namespace Ratum

/-- `BLOCKS`, `OWED` and `CHAIN_STATE`. -/
inductive RecordTable
  | blocks
  | owed
  | chainState
  deriving DecidableEq

abbrev RecordTables := RecordTable → HashMap Bytes Bytes

/-- The rows of a table in the order of their keys, as `redb` iterates them. -/
def HashMap.rows (table : HashMap Bytes Bytes) : List (Σ _ : Bytes, Bytes) :=
  table.entries.mergeSort fun left right => decide (left.1 ≤ right.1)

structure StoredRecords extends BlockRecords F64 where
  confirmations : HashMap Hash ConfirmationReading
  db : Option RecordTables

/-- What `void_block` removed. -/
structure Voided where
  block : Option (FoundBlock F64)
  owed : Option OwedBlock

namespace StoredRecords

/-- The order of the keys `(found_at, height)` records are sorted by when they are read back. -/
def foundBefore (foundAt : Nat) (height : UInt32) (foundAt' : Nat) (height' : UInt32) : Bool :=
  foundAt < foundAt' || foundAt == foundAt' && height ≤ height'

def «open» (db : RecordTables) (created read : IoAnswer) : Except IoError StoredRecords := do
  created
  read
  let blocks := blockFormat.readAll (db .blocks).rows
  let owed := owedFormat.readAll (db .owed).rows
  let confirmations := confirmationsFormat.readAll (db .chainState).rows
  pure {
    blocks := blocks.mergeSort fun a b => foundBefore a.foundAt a.height b.foundAt b.height
    owed := owed.mergeSort fun a b => foundBefore a.foundAt a.height b.foundAt b.height
    confirmations := confirmations.foldl (fun map entry => map.insert entry.1 entry.2) ∅
    db := some db }

def block (records : StoredRecords) (hash : Hash) : Option (FoundBlock F64) :=
  records.blocks.find? (·.blockHash = hash)

/-- Writes one row, or returns without writing for records with no file. -/
def put (records : StoredRecords) (table : RecordTable) (key value : Bytes) (answer : IoAnswer) :
    IoAnswer × StoredRecords :=
  match records.db, answer with
  | none, _ => (.ok (), records)
  | some _, .error e => (.error e, records)
  | some db, .ok () =>
      (.ok (), { records with
        db := some (Function.update db table ((db table).insert key value)) })

def recordBlock (records : StoredRecords) (block : FoundBlock F64) (answer : IoAnswer) :
    IoAnswer × StoredRecords :=
  if (records.block block.blockHash).isSome then (.ok (), records)
  else
    match records.put .blocks block.blockHash.toList (packBlock block) answer with
    | (.error e, records) => (.error e, records)
    | (.ok (), records) => (.ok (), { records with blocks := records.blocks ++ [block] })

def recordConfirmations (records : StoredRecords) (hash : Hash) (reading : ConfirmationReading)
    (answer : IoAnswer) : Except IoError (Option ConfirmationReading) × StoredRecords :=
  match records.put .chainState hash.toList (packConfirmations reading) answer with
  | (.error e, records) => (.error e, records)
  | (.ok (), records) =>
      (.ok (records.confirmations.lookup hash),
        { records with confirmations := records.confirmations.insert hash reading })

def writeOwed (records : StoredRecords) (owed : OwedBlock) (answer : IoAnswer) :
    IoAnswer × StoredRecords :=
  records.put .owed owed.blockHash.toList (packOwed owed) answer

def recordOwed (records : StoredRecords) (owed : OwedBlock) (answer : IoAnswer) :
    IoAnswer × StoredRecords :=
  if records.owed.any fun o => o.blockHash = owed.blockHash then (.ok (), records)
  else
    match records.writeOwed owed answer with
    | (.error e, records) => (.error e, records)
    | (.ok (), records) => (.ok (), { records with owed := records.owed ++ [owed] })

def settleOwed (records : StoredRecords) (hash : Hash) (settledAt : UInt64) (answer : IoAnswer) :
    Except IoError (Option OwedBlock) × StoredRecords :=
  match records.owed.findIdx? (·.blockHash = hash) with
  | none => (.ok none, records)
  | some index =>
      match records.owed[index]? with
      | none => (.ok none, records)
      | some owed =>
          if owed.settledAt.isSome then (.ok (some owed), records)
          else
            let owed := { owed with settledAt := some (max settledAt.toNat 1) }
            match records.writeOwed owed answer with
            | (.error e, records) => (.error e, records)
            | (.ok (), records) =>
                (.ok (some owed), { records with owed := records.owed.set index owed })

/-- Removes what is under the hash in one write. -/
def voidBlock (records : StoredRecords) (hash : Hash) (answer : IoAnswer) :
    Except IoError Voided × StoredRecords :=
  let block := records.blocks.findIdx? (·.blockHash = hash)
  let owed := records.owed.findIdx? (·.blockHash = hash)
  if block.isNone ∧ owed.isNone ∧ hash ∉ records.confirmations then (.ok ⟨none, none⟩, records)
  else
    let removed (db : Option RecordTables) := { records with
      blocks := block.elim records.blocks records.blocks.eraseIdx
      owed := owed.elim records.owed records.owed.eraseIdx
      confirmations := records.confirmations.erase hash
      db }
    let voided : Voided := ⟨block.bind (records.blocks[·]?), owed.bind (records.owed[·]?)⟩
    match records.db, answer with
    | none, _ => (.ok voided, removed none)
    | some _, .error e => (.error e, records)
    | some db, .ok () => (.ok voided, removed (some fun table => (db table).erase hash.toList))

end StoredRecords
end Ratum
