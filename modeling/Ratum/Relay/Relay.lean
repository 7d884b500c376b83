import Ratum.Accounting.Owed
import Ratum.Base.Traces
import Ratum.Relay.Shares

/-!
# Relaying blocks

`relay_and_record` of `prime/src/connection/shares.rs`, the submission of `prime/src/relay.rs` and the
records of `prime/src/accounting.rs`, over the connections' shares in any order. What a share verified to
is an input, and so is every answer of the node; whether the transactions form the root the header commits
to is a parameter. The rest of a connection's work changes its verifier between two shares.
-/

namespace Ratum

def MAX_RELAYED_BLOCKS : Nat := 1024

def SUBMIT_ATTEMPTS : Nat := 3

/-- What the node did with a block the pool submitted. -/
inductive Relayed
  | accepted
  | rejected
  | unknown
  deriving DecidableEq

/-- What an answer to `submitblock` says, none when the block is submitted once more. -/
def submitted (attempt : Nat) : NodeAnswer → Option Relayed
  | .ok none => some .accepted
  | .ok (some reason) =>
      if reason = "duplicate" || reason = "inconclusive" then some .accepted else some .rejected
  | .error .unauthorized => some .unknown
  | .error .failed => if attempt < SUBMIT_ATTEMPTS then none else some .unknown

/-- The second half of `record_block`: what the pool's payout script owes for the block. -/
def recordOwing {F : Type} (addressScript : AddressScript) (l : Ledger F) (records : BlockRecords F)
    (rebuilt : RebuiltShare) (now : Nat) (answer : IoAnswer) : BlockRecords F :=
  if rebuilt.unpaidOutputs ≠ [] then recordUnpaidOutputs l records rebuilt now answer
  else if rebuilt.paidToSplit = 0 then recordOwedBlock addressScript l records rebuilt now answer
  else records

/-- A share whose block is relayed. -/
structure FoundShare where
  s : PowSubmit
  rebuilt : RebuiltShare
  receivedAt : Nat

/-- Where a connection's thread stands. -/
inductive RelayAt
  /-- Between two shares. -/
  | idle
  /-- Before it enters the block among those relayed. -/
  | relaying (share : FoundShare) (txns : List Bytes)
  /-- Before an attempt to submit the block. -/
  | submitting (share : FoundShare) (attempt : Nat)
  /-- With the attempt in the node's hands. -/
  | inFlight (share : FoundShare) (attempt : Nat)
  /-- Before it takes the block out of those relayed. -/
  | leaving (share : FoundShare)
  /-- Before it records the block. -/
  | recording (share : FoundShare)
  /-- Before it records what the block owes. -/
  | owing (share : FoundShare)

namespace RelayAt

/-- After the entry: submitted when it was not held and its transactions form the header's root. -/
def onEntered (share : FoundShare) (new formsRoot : Bool) : RelayAt :=
  if new && formsRoot then submitting share 1 else idle

def onAnswered (share : FoundShare) (attempt : Nat) : Option Relayed → RelayAt
  | none => submitting share (attempt + 1)
  | some .accepted => recording share
  | some .rejected => idle
  | some .unknown => leaving share

def onSettled (s : PowSubmit) (receivedAt : Nat) (settled : ShareConnection.Settled) : RelayAt :=
  settled.relays.elim idle fun block => relaying ⟨s, block.1, receivedAt⟩ block.2

end RelayAt

structure RelayThread where
  conn : ShareConnection
  /-- The held shares released and not yet settled again. -/
  released : List HeldShare
  position : RelayAt

/-- The connections and what they share. `entered` records the blocks entered among those relayed, the
latest first, which the source does not keep. -/
structure RelayServer (ι F : Type) where
  relayedBlocks : BoundedSet Hash
  records : BlockRecords F
  entered : List Hash
  threads : ι → RelayThread

inductive RelayEvent
  | quiet
  /-- A connection relays a block, whether or not it was relayed already. -/
  | relays (hash : Hash)
  | submitted (hash : Hash)
  | answered (hash : Hash) (answer : NodeAnswer)

namespace RelayServer

variable {ι F : Type} [DecidableEq ι]

def start (records : BlockRecords F) (threads : ι → ShareConnection) : RelayServer ι F where
  relayedBlocks := BoundedMap.new MAX_RELAYED_BLOCKS
  records
  entered := []
  threads c := ⟨threads c, [], .idle⟩

variable (server : RelayServer ι F) (c : ι)

def setThread (thread : RelayThread) : RelayServer ι F :=
  { server with threads := Function.update server.threads c thread }

/-- The thread of `c` goes on to `position`. -/
def move (position : RelayAt) : RelayServer ι F :=
  server.setThread c { server.threads c with position }

/-- A share of `c` settled: it is held, answered, or its block relayed. -/
def settled (s : PowSubmit) (receivedAt : Nat) (released : List HeldShare)
    (outcome : ShareConnection.Settled × ShareConnection) : RelayServer ι F :=
  server.setThread c ⟨outcome.2, released, .onSettled s receivedAt outcome.1⟩

/-- The block of `share` entered among those relayed, unless it is one of them. -/
def enter (share : FoundShare) (formsRoot : Bool) : RelayServer ι F :=
  let hash := share.rebuilt.blockHash
  let (new, relayedBlocks) := server.relayedBlocks.insert hash
  let entered := if new then hash :: server.entered else server.entered
  { server with relayedBlocks, entered }.move c (.onEntered share new formsRoot)

end RelayServer

section Steps

variable {ι F : Type} [DecidableEq ι] [Zero F] (addressScript : AddressScript)
  (canonical : String → String) (formsRoot : RebuiltShare → List Bytes → Bool)

inductive RelayStep : RelayServer ι F → RelayEvent → RelayServer ι F → Prop
  | receive {server : RelayServer ι F} {c : ι} (s : PowSubmit) (verified : Verified)
      (receivedAt : Nat) (parentHold : Option Instant) (io : SettleInputs)
      {outcome : ShareConnection.Settled × ShareConnection}
      (hat : (server.threads c).position = .idle) (hnone : (server.threads c).released = [])
      (hsettle : (server.threads c).conn.settle io server.relayedBlocks s verified receivedAt parentHold =
        .ok outcome) :
      RelayStep server .quiet (server.settled c s receivedAt [] outcome)
  | release {server : RelayServer ι F} {c : ι} (selected : HeldShare → Bool)
      (hat : (server.threads c).position = .idle) (hnone : (server.threads c).released = []) :
      RelayStep server .quiet
        (server.setThread c
          { server.threads c with
            conn.held := (server.threads c).conn.held.filter fun h => !selected h
            released := (server.threads c).conn.held.filter selected })
  | resettle {server : RelayServer ι F} {c : ι} {share : HeldShare} {released : List HeldShare}
      (anew : Verified) (io : SettleInputs) {outcome : ShareConnection.Settled × ShareConnection}
      (hat : (server.threads c).position = .idle)
      (hreleased : (server.threads c).released = share :: released)
      (hsettle : (match share.awaiting with
        | .txns => (server.threads c).conn.settle io server.relayedBlocks share.s share.verified
            share.receivedAt none
        | .parent until_ => (server.threads c).conn.settle io server.relayedBlocks share.s anew
            share.receivedAt (some until_)) = .ok outcome) :
      RelayStep server .quiet (server.settled c share.s share.receivedAt released outcome)
  | turn {server : RelayServer ι F} {c : ι} (verifier : Verifier) (txnRequests : List TxnRequest)
      (hat : (server.threads c).position = .idle) :
      RelayStep server .quiet
        (server.setThread c
          { server.threads c with
            conn := { (server.threads c).conn with verifier, txnRequests } })
  | reconnect {server : RelayServer ι F} {c : ι} (conn : ShareConnection)
      (hat : (server.threads c).position = .idle) :
      RelayStep server .quiet (server.setThread c ⟨conn, [], .idle⟩)
  | enter {server : RelayServer ι F} {c : ι} {share : FoundShare} {txns : List Bytes}
      (hat : (server.threads c).position = .relaying share txns) :
      RelayStep server (.relays share.rebuilt.blockHash)
        (server.enter c share (formsRoot share.rebuilt txns))
  | submit {server : RelayServer ι F} {c : ι} {share : FoundShare} {attempt : Nat}
      (hat : (server.threads c).position = .submitting share attempt) :
      RelayStep server (.submitted share.rebuilt.blockHash) (server.move c (.inFlight share attempt))
  | answer {server : RelayServer ι F} {c : ι} {share : FoundShare} {attempt : Nat} (answer : NodeAnswer)
      (hat : (server.threads c).position = .inFlight share attempt) :
      RelayStep server (.answered share.rebuilt.blockHash answer)
        (server.move c (.onAnswered share attempt (submitted attempt answer)))
  | leave {server : RelayServer ι F} {c : ι} {share : FoundShare}
      (hat : (server.threads c).position = .leaving share) :
      RelayStep server .quiet
        ({ server with
            relayedBlocks := (server.relayedBlocks.remove share.rebuilt.blockHash).2 }.move c
          (.recording share))
  | record {server : RelayServer ι F} {c : ι} {share : FoundShare} (l : Ledger F)
      (tipDifficulty : Option F) (answer : IoAnswer)
      (hat : (server.threads c).position = .recording share) :
      RelayStep server .quiet
        ({ server with
            records := recordFoundBlock canonical l tipDifficulty server.records share.s.username
              share.rebuilt share.receivedAt answer }.move c (.owing share))
  | owe {server : RelayServer ι F} {c : ι} {share : FoundShare} (l : Ledger F) (answer : IoAnswer)
      (hat : (server.threads c).position = .owing share) :
      RelayStep server .quiet
        ({ server with
            records := recordOwing addressScript l server.records share.rebuilt share.receivedAt
              answer }.move c .idle)

/-- The interleavings of the connections over the records the server starts with. -/
def relaying (records : BlockRecords F) : Lts (RelayServer ι F) RelayEvent where
  init server := ∃ threads, server = .start records threads
  step := RelayStep addressScript canonical formsRoot

end Steps

end Ratum
