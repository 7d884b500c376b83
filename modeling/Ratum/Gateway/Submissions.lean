import Ratum.Core.Maps
import Ratum.Gateway.NotifyId
import Ratum.Gateway.Username

/-!
# Shares submitted by miners

`gateway/src/stratum/connection/shares.rs` from the header of a submission to its reply, with the two tables
it reads (`gateway/src/seen_shares.rs` and the found blocks of `gateway/src/gateway.rs`) and the queue of
shares for the pool (`gateway/src/datum.rs`). The node submission is the block handed to it.
-/

namespace Ratum

inductive StratumError
  | unknownWork
  | stalePrevblk
  | highHash
  | staleWork
  | duplicate
  | unauthorizedWorker
  deriving DecidableEq

/-! ### The shares seen -/

structure SeenShareHashes where
  seen : HashMap Hash Instant
  capacity : Nat
  window : Duration

namespace SeenShareHashes

def MIN_CAPACITY : Nat := 1024

def MIN_FREED_PERCENT : Nat := 5

def GROWTH_PERCENT : Nat := 25

def new (capacity : Nat) (window : Duration) : SeenShareHashes := ⟨∅, max capacity MIN_CAPACITY, window⟩

variable (table : SeenShareHashes)

def len : Nat := table.seen.entries.length

/-- Drops the shares of jobs past the window, and grows the table when that frees too little. -/
def makeRoom (now : Instant) : SeenShareHashes :=
  let seen := table.seen.retain fun _ created => now - created ≤ table.window
  let freed := table.len - seen.entries.length
  let capacity := if freed < table.capacity * MIN_FREED_PERCENT / 100 then
      table.capacity + table.capacity * GROWTH_PERCENT / 100
    else table.capacity
  { table with seen, capacity }

/-- Whether the share was not held, and the table holding it. -/
def insert (now : Instant) (h : Hash) (jobCreatedAt : Instant) : Bool × SeenShareHashes :=
  if (table.seen.lookup h).isSome then (false, table)
  else
    let table := if table.capacity ≤ table.len then table.makeRoom now else table
    (true, { table with seen := table.seen.insert h jobCreatedAt })

end SeenShareHashes

/-! ### The blocks found -/

def MAX_FOUND_BLOCKS : Nat := 64

/-- Whether the block was not found already, and the blocks found with it recorded. -/
def firstFind (foundBlocks : List Hash) (hash : Hash) : Bool × List Hash :=
  if hash ∈ foundBlocks then (false, foundBlocks)
  else
    let kept := if MAX_FOUND_BLOCKS ≤ foundBlocks.length then foundBlocks.tail else foundBlocks
    (true, kept ++ [hash])

/-! ### The shares queued for the pool -/

structure QueuedShare where
  job : Job
  notifyPrefix : NotifyPrefix
  isBlock : Bool
  targetByte : UInt8
  header : BlockHeaderV2
  username : String

def MIN_QUEUE_CAPACITY : Nat := 64

structure ShareQueue where
  queue : List QueuedShare
  queueCapacity : Nat

namespace ShareQueue

def new (queueCapacity : Nat) : ShareQueue := ⟨[], max queueCapacity MIN_QUEUE_CAPACITY⟩

variable (q : ShareQueue)

def full : Bool := q.queueCapacity ≤ q.queue.length

/-- A share that finds the queue full is logged and dropped. -/
def queueShare (share : QueuedShare) : ShareQueue :=
  if q.full then q else { q with queue := q.queue ++ [share] }

variable {q}

theorem mem_queueShare {share other : QueuedShare} (hother : other ∈ (q.queueShare share).queue) :
    other = share ∨ other ∈ q.queue := by
  rw [queueShare] at hother
  split at hother
  · exact .inr hother
  · rw [List.mem_append, List.mem_singleton] at hother
    exact hother.symm

end ShareQueue

/-! ### A submission -/

/-- What the gateway's configuration says of shares. -/
structure ShareConfig (F : Type) where
  staleWindow : Duration
  sharesInStaleWindow : Nat
  requireAddressUsername : Bool
  usernameModifiers : List (UsernameModifier F)
  poolAddress : String

def ShareConfig.refusesUsername {F : Type} (decoding : AddressDecoding) (cfg : ShareConfig F)
    (username : String) : Bool :=
  cfg.requireAddressUsername && !isPayable decoding username cfg.usernameModifiers

structure SubmitRequest where
  job : Job
  jobDiff : Nat
  notifyPrefix : NotifyPrefix
  extranonce : Vector UInt8 HEADER_EXTRANONCE_SIZE
  siaNtime : Vector UInt8 SIA_WORDS_LEN
  siaNonce : Vector UInt8 SIA_WORDS_LEN
  minerUsername : String

/-- A block handed to the nodes: its header and its coinbase transaction. -/
structure SubmittedBlock where
  header : Bytes
  coinbase : Bytes

/-- What one submission did. -/
structure Evaluation where
  answer : Except StratumError Unit
  /-- The share put in the queue for the pool. -/
  queued : Option QueuedShare
  /-- Whether the queue was full. -/
  queueFull : Bool
  block : Option SubmittedBlock

/-- What the submissions of every connection share. -/
structure SubmitState where
  foundBlocks : List Hash
  seenShareHashes : SeenShareHashes
  pool : ShareQueue
  /-- The jobs, by serial, marked as building on a stale previous block. -/
  stalePrevblock : Nat → Bool
  now : Instant

namespace SubmitRequest

variable (H : Hashing) (req : SubmitRequest)

def targetByte : UInt8 := UInt8.ofNat (floorLog2 req.jobDiff)

def header : Option BlockHeaderV2 :=
  req.job.header H req.notifyPrefix.coinbase req.targetByte req.extranonce req.siaNtime req.siaNonce

/-- The hash of the header submitted. -/
def hash : Option Hash := (req.header H).map (req.job.rawPowHash H)

/-- The coinbase transaction the header commits to. -/
def coinbaseTx : Option Bytes := req.job.fullCoinbase req.notifyPrefix.coinbase req.targetByte

end SubmitRequest

/-- Whether the hash is a block the gateway can recognize. -/
def Job.isBlock (job : Job) (hash : Hash) : Bool := job.abw.isNone && meetsTarget hash job.blockTarget

/-- `found_block`: the block handed to the nodes; none when its coinbase does not assemble. -/
def foundBlock (job : Job) (kind : CoinbaseKind) (targetByte : UInt8) (header : Bytes) :
    Option SubmittedBlock :=
  (job.fullCoinbase kind targetByte).map fun coinbase => { header, coinbase }

section Evaluate

variable {F : Type} (H : Hashing) (ops : FloatOps F) (decoding : AddressDecoding) (cfg : ShareConfig F)

def SubmitState.start : SubmitState where
  foundBlocks := []
  seenShareHashes := .new cfg.sharesInStaleWindow cfg.staleWindow
  pool := .new cfg.sharesInStaleWindow
  stalePrevblock := fun _ => false
  now := 0

/-- The checks that decide the reply, and the shares seen after them. -/
def checkShare (s : SubmitState) (job : Job) (hash : Hash) (targetByte : UInt8) (username : String) :
    Except StratumError Unit × SeenShareHashes :=
  if s.stalePrevblock job.serial then (.error .stalePrevblk, s.seenShareHashes)
  else if !meetsTarget hash (targetForExponent targetByte) then (.error .highHash, s.seenShareHashes)
  else if cfg.staleWindow < s.now - job.createdAt then (.error .staleWork, s.seenShareHashes)
  else
    match s.seenShareHashes.insert s.now hash job.createdAt with
    | (false, seen) => (.error .duplicate, seen)
    | (true, seen) =>
        if cfg.refusesUsername decoding username then (.error .unauthorizedWorker, seen)
        else (.ok (), seen)

/-- A block is queued whatever the share checks say, the first time it is found, and is queued before it
is handed to the nodes. -/
def evaluate (s : SubmitState) (req : SubmitRequest) : Evaluation × SubmitState :=
  match req.header H with
  | none => ({ answer := .error .unknownWork, queued := none, queueFull := s.pool.full, block := none }, s)
  | some header =>
      let hash := req.job.rawPowHash H header
      let isBlock := req.job.isBlock hash
      let found := if isBlock then firstFind s.foundBlocks hash else (false, s.foundBlocks)
      let checked := checkShare decoding cfg s req.job hash req.targetByte req.minerUsername
      let queues := req.job.isDatumJob && (found.1 || checked.1.isOk)
      let share : QueuedShare :=
        { job := req.job, notifyPrefix := req.notifyPrefix, isBlock, targetByte := req.targetByte, header
          username := creditedUsername ops cfg.usernameModifiers cfg.poolAddress req.minerUsername hash }
      ({ answer := checked.1
         queued := if queues && !s.pool.full then some share else none
         queueFull := s.pool.full
         block := if found.1 then
             foundBlock req.job req.notifyPrefix.coinbase req.targetByte header.serialize
           else none },
        { s with
          foundBlocks := found.2
          seenShareHashes := checked.2
          pool := if queues then s.pool.queueShare share else s.pool })

end Evaluate
end Ratum
