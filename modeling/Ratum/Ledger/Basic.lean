import Ratum.Ledger.Contents
import Ratum.Ledger.Split
import Ratum.Ledger.Store

/-!
# The ledger

The share window over its store, as in `prime/src/ledger.rs`: recording a batch, resizing the window
and re-reading it from the store. Each function runs under the ledger's lock, except `Reread.read`. The
lines logged are left out.
-/

namespace Ratum

def MAX_SHARES : Nat := 2 ^ 22

def NTIME_WINDOW_SECS : Nat := 7200

def CLOCK_STEP_MARGIN_SECS : Nat := 600

def ACCEPTED_HASH_RETENTION_SECS : Nat := 2 * NTIME_WINDOW_SECS + CLOCK_STEP_MARGIN_SECS

def MAX_ACCEPTED_HASHES : Nat := 2 ^ 20

/-- `WindowRule::window_for`, for the network difficulties of a type of floating-point numbers: the
product is converted to a `u128`, or is 1 where it is not finite or less than 1. -/
structure WindowRule (F : Type) where
  windowFor : F → Nat
  one_le : ∀ networkDifficulty, 1 ≤ windowFor networkDifficulty
  le_max : ∀ networkDifficulty, windowFor networkDifficulty ≤ U128_MAX

/-- A re-read begun under the ledger's lock. -/
structure Reread where
  snapshot : Tables
  window : Nat
  maxShares : Nat

/-- `Contents::read` of `read_window`, when the reads answer. -/
def readContents (snapshot : Tables) (window maxShares : Nat) (answer : IoAnswer) :
    Except IoError (Contents × ReadBack) :=
  answer.map fun _ =>
    let (shares, readBack) := readWindow snapshot.shares window maxShares
    (Contents.read window maxShares shares, readBack)

def Reread.read (reread : Reread) (answer : IoAnswer) : Except IoError (Contents × ReadBack) :=
  readContents reread.snapshot reread.window reread.maxShares answer

structure Ledger (F : Type) where
  contents : Contents
  windowRule : WindowRule F
  splitPolicy : SplitPolicy
  window : Nat
  store : Option Store
  cumulativeWork : Nat
  maxShares : Nat
  countCapped : Bool
  networkDifficulty : Option F
  rereadDue : Bool
  /-- The shares recorded since a running re-read's snapshot; none while no re-read runs. -/
  recordedDuringReread : Option (List Share)

/-- What the database answers the calls of `record_batch`. -/
structure RecordAnswers where
  insert : IoAnswer
  retainRead : IoAnswer
  retainWrite : IoAnswer

namespace Ledger

variable {F : Type}

def new [One F] (windowRule : WindowRule F) (splitPolicy : SplitPolicy) : Ledger F where
  contents := .empty
  windowRule := windowRule
  splitPolicy := splitPolicy
  window := windowRule.windowFor 1
  store := none
  cumulativeWork := 0
  maxShares := MAX_SHARES
  countCapped := false
  networkDifficulty := none
  rereadDue := false
  recordedDuringReread := none

def len (l : Ledger F) : Nat := l.contents.shares.length

def totalWork (l : Ledger F) : Nat := l.contents.totalWork

def isCountCapped (l : Ledger F) : Bool := l.maxShares ≤ l.len && l.totalWork < l.window

def trim (l : Ledger F) : Ledger F :=
  let l := { l with contents := l.contents.trim l.window l.maxShares }
  { l with countCapped := l.isCountCapped }

/-- `load_from`, with what the read gave. -/
def loadFrom (l : Ledger F) (read : Contents × ReadBack) : ReadBack × Ledger F :=
  (read.2, { l with contents := read.1 }.trim)

def load (l : Ledger F) (store : Store) (snapshot read : IoAnswer) :
    Except IoError (ReadBack × Ledger F) := do
  let snapshot ← store.beginRead snapshot
  let contents ← readContents snapshot l.window l.maxShares read
  pure (l.loadFrom contents)

def attach (l : Ledger F) (store : Store) (snapshot read : IoAnswer) :
    Except IoError (ReadBack × Ledger F) := do
  let (readBack, l) ← l.load store snapshot read
  pure ({ readBack with stamped := store.stamped },
    { l with cumulativeWork := store.cumulativeWork, store := some store })

def setWindow (l : Ledger F) (window : Nat) : Bool × Ledger F :=
  let window := max window 1
  let due := l.rereadDue || (l.window < window && l.store.isSome)
  (due, { l with rereadDue := due, window := window }.trim)

def setNetworkDifficulty (l : Ledger F) (networkDifficulty : F) : Bool × Ledger F :=
  { l with networkDifficulty := some networkDifficulty }.setWindow
    (l.windowRule.windowFor networkDifficulty)

def beginReread (l : Ledger F) (answer : IoAnswer) : Option Reread × Ledger F :=
  if !l.rereadDue || l.recordedDuringReread.isSome then (none, l)
  else
    match l.store with
    | none => (none, l)
    | some store =>
        match store.beginRead answer with
        | .error _ => (none, l)
        | .ok snapshot =>
            (some { snapshot, window := l.window, maxShares := l.maxShares },
              { l with recordedDuringReread := some [] })

/-- The window takes a share that is on disk. -/
def pushShare (l : Ledger F) (share : Share) : Ledger F :=
  { l with contents := l.contents.push share }.trim

/-- Returns the shares gained and the contents replaced. -/
def finishReread (l : Ledger F) (window : Nat) (read : Except IoError (Contents × ReadBack)) :
    (Nat × Contents) × Ledger F :=
  let recorded := l.recordedDuringReread.getD []
  let l := { l with recordedDuringReread := none }
  match read with
  | .error _ => ((0, .empty), l)
  | .ok (contents, _) =>
      let before := l.contents.shares.length
      let replaced := l.contents
      let l := { l with contents := contents, rereadDue := window < l.window }.trim
      let l := recorded.foldl pushShare l
      ((l.contents.shares.length - before, replaced), l)

/-- The retention after a batch, whose failure leaves every share recorded. -/
def retention (l : Ledger F) (keepAfter : Nat) (read write : IoAnswer) : Nat × Ledger F :=
  match l.store with
  | none => (0, l)
  | some store =>
      match store.retain l.len keepAfter MAX_ACCEPTED_HASHES read write with
      | .ok (removed, store) => (removed, { l with store := some store })
      | .error _ => (0, l)

/-- The store's part of recording a batch. -/
def insertBatch (l : Ledger F) (shares : List Share) (cumulativeWork : Nat) (answer : IoAnswer) :
    Except IoError (Ledger F) :=
  match l.store with
  | none => .ok l
  | some store => do
      let store ← store.insertBatch shares cumulativeWork answer
      pure { l with store := some store }

def recordBatch (l : Ledger F) (shares : List Share) (answers : RecordAnswers) :
    Except IoError (Nat × Ledger F) :=
  match (shares.map fun share => share.acceptedAt.toNat).max? with
  | none => .ok (0, l)
  | some newest => do
      let keepAfter := newest - ACCEPTED_HASH_RETENTION_SECS
      let cumulativeWork := shares.foldl (fun work share => work + share.work) l.cumulativeWork
      let l ← l.insertBatch shares cumulativeWork answers.insert
      let l := { l with cumulativeWork := cumulativeWork }
      let l := shares.foldl pushShare l
      match l.recordedDuringReread with
      | some recorded => pure (0, { l with recordedDuringReread := some (recorded ++ shares) })
      | none => pure (l.retention keepAfter answers.retainRead answers.retainWrite)

/-- Each identity's weight in the split, its work. -/
def weights (l : Ledger F) : Weights :=
  ⟨l.contents.identities.iter.map fun (identity, state) => (identity, state.work)⟩

/-- What the split of `value` is computed from. -/
def weightsFor (l : Ledger F) (value : Nat) : Weights × Nat :=
  (l.weights, l.splitPolicy.minersShare value)

def acceptedSince (l : Ledger F) (cutoff max : Nat) (answer : IoAnswer) :
    Except IoError (List (UInt64 × Hash)) :=
  match l.store with
  | some store => store.acceptedSince cutoff max answer
  | none => .ok []

end Ledger
end Ratum
