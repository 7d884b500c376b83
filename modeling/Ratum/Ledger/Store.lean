import Ratum.Core.Io
import Ratum.Core.Word
import Ratum.Ledger.Share

/-!
# The share rows on disk

The store of `prime/src/ledger/store.rs`: each share's row under a sequence number, beside the chain the
ledger serves and the running total of credited work. A database keeps what is on disk apart from what
is committed: a removal by retention commits without an fsync and reaches the disk with the next share.
-/

namespace Ratum

/-- The rows of a table keyed by sequence numbers, in the order of their keys. -/
abbrev ShareTable := List (Nat × Bytes)

namespace ShareTable

def insert (table : ShareTable) (seq : Nat) (row : Bytes) : ShareTable :=
  table.filter (fun entry => entry.1 < seq) ++
    (seq, row) :: table.filter (fun entry => seq < entry.1)

def remove (table : ShareTable) (seq : Nat) : ShareTable := table.filter fun entry => entry.1 ≠ seq

def last (table : ShareTable) : Option Nat := table.getLast?.map Prod.fst

/-- The entries from a key on, in order. -/
def range (table : ShareTable) (start : Nat) : ShareTable :=
  table.filter fun entry => start ≤ entry.1

/-- The shares the rows hold, oldest first. -/
def log (table : ShareTable) : List Share := table.filterMap fun entry => unpack entry.2

end ShareTable

/-- `SHARES`, and the `META` entries the store keeps. -/
structure Tables where
  shares : ShareTable
  chain : Option String
  cumulativeWork : Option Nat
  deriving DecidableEq

/-- What the database has committed, and what of it is on disk. -/
structure Database where
  committed : Tables
  durable : Tables
  deriving DecidableEq

namespace Database

/-- A write transaction at `Durability::Immediate`. -/
def write (db : Database) (answer : IoAnswer) (f : Tables → Tables) : Except IoError Database :=
  answer.map fun _ => { committed := f db.committed, durable := f db.committed }

/-- A write transaction at `Durability::None`. -/
def writeDeferred (db : Database) (answer : IoAnswer) (f : Tables → Tables) :
    Except IoError Database :=
  answer.map fun _ => { db with committed := f db.committed }

/-- A read transaction reads the tables committed before it began. -/
def beginRead (db : Database) (answer : IoAnswer) : Except IoError Tables :=
  answer.map fun _ => db.committed

/-- What opening the file again finds: everything committed, or only what was on disk. -/
def reopened (db : Database) (crashed : Bool) : Database :=
  if crashed then ⟨db.durable, db.durable⟩ else ⟨db.committed, db.committed⟩

end Database

def MAX_RETAINED_PER_CALL : Nat := 4096

structure ReadBack where
  skipped : Nat
  truncated : Bool
  stamped : Bool
  deriving DecidableEq

structure Store where
  db : Database
  path : String
  nextSeq : Nat
  /-- The shares to retain on disk, or none to retain every one. -/
  retainBound : Option Nat
  cumulativeWork : Nat
  stamped : Bool

namespace Store

def chainMismatch (path stored chain : String) : IoError :=
  .invalidData (path ++ " holds shares for chain " ++ stored ++ ", but the node is on chain " ++
    chain ++ "; a ledger serves one chain, so move it out of the data directory")

/-- What opening stamps into the tables, and whether it stamped a ledger that held shares. -/
def stampChain (path : String) (chain : Option String) (tables : Tables) :
    Except IoError (Tables × Bool) :=
  match chain, tables.chain with
  | none, _ => .ok (tables, false)
  | some chain, some stored =>
      if stored ≠ chain then .error (chainMismatch path stored chain) else .ok (tables, false)
  | some chain, none => .ok ({ tables with chain := some chain }, !tables.shares.isEmpty)

/-- `keep` is the shares to retain on disk, or none to retain every one. -/
def «open» (db : Database) (path : String) (keep : Option Nat) (chain : Option String)
    (answer : IoAnswer) : Except IoError Store := do
  let (tables, stamped) ← stampChain path chain db.committed
  let db ← db.write answer fun _ => tables
  pure {
    db, path
    nextSeq := (tables.shares.last).elim 0 (· + 1)
    retainBound := keep
    cumulativeWork := tables.cumulativeWork.getD 0
    stamped }

def beginRead (s : Store) (answer : IoAnswer) : Except IoError Tables := s.db.beginRead answer

/-- The rows `insert_batch` adds, under the next sequence numbers. -/
def insertRows (table : ShareTable) (nextSeq : Nat) (shares : List Share) : ShareTable :=
  (shares.zipIdx nextSeq).foldl (fun table (share, seq) => table.insert seq (pack share)) table

def insertBatch (s : Store) (shares : List Share) (cumulativeWork : Nat) (answer : IoAnswer) :
    Except IoError Store := do
  let db ← s.db.write answer fun tables =>
    { tables with
      shares := insertRows tables.shares s.nextSeq shares
      cumulativeWork := some cumulativeWork }
  pure { s with db, nextSeq := s.nextSeq + shares.length }

/-- The scan of `accepted_since`, from the newest row. -/
def acceptedBack (cutoff : Nat) : Nat → ShareTable → List (UInt64 × Hash)
  | 0, _ => []
  | _, [] => []
  | max + 1, (_, row) :: older =>
      match unpackHead row with
      | none => acceptedBack cutoff (max + 1) older
      | some head =>
          if head.acceptedAt.toNat < cutoff then []
          else (head.acceptedAt, head.blockHash) :: acceptedBack cutoff max older

def acceptedSince (s : Store) (cutoff max : Nat) (answer : IoAnswer) :
    Except IoError (List (UInt64 × Hash)) :=
  (s.beginRead answer).map fun tables => (acceptedBack cutoff max tables.shares.reverse).reverse

/-- Whether retention keeps the row at a position because the duplicate check reads it back. -/
def readBack (recentFrom keepAfter position : Nat) (row : Bytes) : Bool :=
  recentFrom ≤ position && (unpackHead row).any fun head => keepAfter ≤ head.acceptedAt.toNat

/-- The keys of the rows retention removes. -/
def surplusKeys (configured floor keepAfter keepNewest : Nat) (table : ShareTable) : List Nat :=
  let count := table.length
  let surplus := min (count - max configured floor) MAX_RETAINED_PER_CALL
  let recentFrom := count - keepNewest
  let kept := fun entry : (Nat × Bytes) × Nat => readBack recentFrom keepAfter entry.2 entry.1.2
  ((table.take surplus).zipIdx.takeWhile fun entry => !kept entry).map fun entry => entry.1.1

def retain (s : Store) (floor keepAfter keepNewest : Nat) (read write : IoAnswer) :
    Except IoError (Nat × Store) :=
  match s.retainBound with
  | none => .ok (0, s)
  | some configured => do
      let tables ← s.beginRead read
      let oldest := surplusKeys configured floor keepAfter keepNewest tables.shares
      if oldest.isEmpty then pure (0, s)
      else
        let db ← s.db.writeDeferred write fun tables =>
          { tables with shares := oldest.foldl ShareTable.remove tables.shares }
        pure (oldest.length, { s with db })

end Store

/-- Where the first pass of `read_window` stands. -/
structure WindowScan where
  work : Nat
  counted : Nat
  start : Option Nat
  skipped : Nat
  hitCountCap : Bool

namespace WindowScan

def new : WindowScan := { work := 0, counted := 0, start := none, skipped := 0, hitCountCap := false }

def count (scan : WindowScan) (seq : Nat) (head : RowHead) : WindowScan :=
  { scan with
    work := min (scan.work + head.difficulty.toNat) U128_MAX
    counted := scan.counted + 1
    start := some seq }

/-- The first pass, over the rows from the newest back. -/
def back (window maxShares : Nat) : WindowScan → ShareTable → WindowScan
  | scan, rows =>
      if scan.work < window then
        if maxShares ≤ scan.counted then { scan with hitCountCap := true }
        else
          match rows with
          | [] => scan
          | (seq, row) :: older =>
              match unpackHead row with
              | some head => back window maxShares (scan.count seq head) older
              | none => back window maxShares { scan with skipped := scan.skipped + 1 } older
      else scan

end WindowScan

/-- The shares `read_window` passes on, oldest first. -/
def readWindow (table : ShareTable) (window maxShares : Nat) : List Share × ReadBack :=
  let scan := WindowScan.back window maxShares .new table.reverse
  let readBack := {
    skipped := scan.skipped
    truncated := scan.work < window && !scan.hitCountCap
    stamped := false }
  match scan.start with
  | none => ([], readBack)
  | some start => ((table.range start).log, readBack)

end Ratum
