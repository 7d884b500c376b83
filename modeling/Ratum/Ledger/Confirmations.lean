import Ratum.Base.Earliest
import Ratum.Ledger.RecordRuns

/-!
# The passes that re-read the blocks' confirmations

`due` and `check_blocks` of `prime/src/confirmations.rs`, and every run of passes over the block records
while other threads change them. The node's answer to a read is an argument; what a reading is logged as is
left out.
-/

namespace Ratum

def CONFIRMED_DEPTH : Int64 := 100

def MAX_PER_PASS : Nat := 32

/-- The block with the time it was last read at, if it is under the confirmed depth. -/
def underDepthAt (records : StoredRecords) (block : FoundBlock F64) : Option (Option UInt64 × Hash) :=
  match records.confirmations.lookup block.blockHash with
  | none => some (none, block.blockHash)
  | some s =>
      if s.confirmations < CONFIRMED_DEPTH then some (some s.checkedAt, block.blockHash) else none

def underDepth (records : StoredRecords) : List (Option UInt64 × Hash) :=
  records.blocks.filterMap (underDepthAt records)

/-- The order of the times of the last readings: `None` before every `Some`. -/
def readBefore : Option UInt64 → Option UInt64 → Bool
  | none, _ => true
  | some _, none => false
  | some left, some right => left ≤ right

/-- The block is recorded, and every reading of it is under the confirmed depth. -/
def UnderDepth (records : StoredRecords) (hash : Hash) : Prop :=
  (∃ block ∈ records.blocks, block.blockHash = hash) ∧
    ∀ reading ∈ records.confirmations.lookup hash, reading.confirmations < CONFIRMED_DEPTH

instance (records : StoredRecords) (hash : Hash) : Decidable (UnderDepth records hash) :=
  inferInstanceAs (Decidable (_ ∧ _))

/-- The blocks to read in a pass. -/
def due (records : StoredRecords) : List Hash :=
  (((underDepth records).mergeSort fun a b => readBefore a.1 b.1).take MAX_PER_PASS).map Prod.snd

/-- One turn of the loop of `check_blocks`: the records after the node answered for the block. -/
def checkBlock {E : Type} (records : StoredRecords) (now : UInt64) (hash : Hash)
    (answer : Except E (Option Int64)) (write : IoAnswer) : StoredRecords :=
  match answer with
  | .error _ => records
  | .ok found =>
      let state := ⟨now, found.getD ConfirmationReading.NOT_STORED⟩
      -- Voided while the node was read.
      if (records.block hash).isNone then records
      else (records.recordConfirmations hash state write).2

/-! ### Every run of passes -/

/-- The records, and the pass that is under way: its time, and the blocks it has still to read. -/
structure Passes where
  records : StoredRecords
  now : UInt64
  pending : List Hash

inductive PassEvent (E : Type)
  /-- A pass lists the blocks due in the records it locks. -/
  | began (now : UInt64) (records : StoredRecords)
  | read (hash : Hash) (answer : Except E (Option Int64)) (write : IoAnswer)
  /-- Another thread records a block that was not recorded. -/
  | recorded (block : FoundBlock F64)
  /-- Another thread's operation that records no block. -/
  | changed (op : RecordOp)

/-- An operation that records no new block and no reading. -/
def RecordOp.RecordsNone (records : StoredRecords) (answer : IoAnswer) : RecordOp → Prop
  | recordBlock block => (records.recordBlock block answer).2 = records
  | recordConfirmations _ _ => False
  | _ => True

inductive PassStep {E : Type} : Passes → PassEvent E → Passes → Prop
  | began {s : Passes} (now : UInt64) (hdone : s.pending = []) :
      PassStep s (.began now s.records) ⟨s.records, now, due s.records⟩
  | read {s : Passes} {hash : Hash} {rest : List Hash} (answer : Except E (Option Int64))
      (write : IoAnswer) (hnext : s.pending = hash :: rest) :
      PassStep s (.read hash answer write) ⟨checkBlock s.records s.now hash answer write, s.now, rest⟩
  | recorded {s : Passes} (block : FoundBlock F64) (answer : IoAnswer)
      (hnew : (s.records.recordBlock block answer).2 ≠ s.records) :
      PassStep s (.recorded block) { s with records := (s.records.recordBlock block answer).2 }
  | changed {s : Passes} (op : RecordOp) (answer : IoAnswer) (hnone : op.RecordsNone s.records answer) :
      PassStep s (.changed op) { s with records := (op.apply s.records answer).2 }

/-- The runs from given records, in the middle of a pass or between two. -/
def passRuns (E : Type) (start : Passes) : Lts Passes (PassEvent E) where
  init s := s = start
  step := PassStep

/-- The blocks read, in order. -/
def readHashes {E : Type} (trace : List (PassEvent E)) : List Hash :=
  trace.filterMap fun
    | .read hash _ _ => some hash
    | _ => none

/-- The times of the passes that began. -/
def passTimes {E : Type} (trace : List (PassEvent E)) : List UInt64 :=
  trace.filterMap fun
    | .began now _ => some now
    | _ => none

def passesBegun {E : Type} (trace : List (PassEvent E)) : Nat := (passTimes trace).length

end Ratum
