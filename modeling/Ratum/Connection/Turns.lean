import Ratum.Connection.Server
import Ratum.Datum.TxnList
import Ratum.Relay.BlockRoot

/-!
# The turns of a connection's loop

What `prime/src/connection.rs` does between two shares: `on_block_txns`, `expire_txn_requests`,
`answer_orphaned_held` and `expire_parent_holds` of `prime/src/connection/shares.rs`, and `notify_tip_change`
of `prime/src/connection/assignments.rs`. One turn of the loop of `expire_txn_requests` is a handler of its
own. The transactions a gateway sent are interned in the source, which leaves their bytes as they are.
-/

namespace Ratum

def TXNS_TIMEOUT : Duration := .fromSecs 20

def TxnRequest.deadline (request : TxnRequest) : Instant := request.sentAt + TXNS_TIMEOUT

/-- What the transactions of a job become once a gateway answered the request for them. -/
def deliveredTxns (H : Hashing) (job : JobSection) (list : TxnList) : JobTxns :=
  if list.status = .ok then
    match txnsMatchJob H list.txns job.txnCount job.merkleBranches with
    | .ok _ => .held list.txns
    | .error _ => .refused .headerMerkleMismatch
  else .refused .other

namespace ShareConnection

/-- Without the first request `due` selects. -/
def dropRequest (due : TxnRequest → Bool) (conn : ShareConnection) : ShareConnection :=
  { conn with txnRequests := conn.txnRequests.eraseP due }

/-- The transactions of a request's job set. -/
def setRequested (request : TxnRequest) (txns : JobTxns) (conn : ShareConnection) : ShareConnection :=
  { conn with verifier := (conn.verifier.setJobTxns request.jobId request.generation txns).2 }

end ShareConnection

/-- Held for the job of a request. -/
def HeldShare.awaits (request : TxnRequest) (share : HeldShare) : Bool :=
  share.s.jobId = request.jobId && share.generation = request.generation

def HeldShare.awaitsParent (share : HeldShare) : Bool :=
  match share.awaiting with
  | .parent _ => true
  | .txns => false

def HeldShare.parentHoldUntil (share : HeldShare) : Option Instant :=
  match share.awaiting with
  | .parent until_ => some until_
  | .txns => none

namespace Connection

open Handler

variable (H : Hashing) (addressScript : AddressScript)

def changeShares (change : ShareConnection → ShareConnection) (conn : Connection) : Connection :=
  { conn with shares := change conn.shares }

/-- A list of transactions received for the request it answers, if the job is still installed. -/
def deliver (request : TxnRequest) (list : TxnList) : ShareHandler Unit := do
  let conn ← state
  match conn.shares.verifier.liveJob request.jobId request.generation with
  | none => releaseHeld H addressScript fun share => share.s.jobId = request.jobId
  | some st => do
      modify (changeShares (.setRequested request (deliveredTxns H st.job list)))
      releaseHeld H addressScript (HeldShare.awaits request)

def onBlockTxns (plain : Bytes) : ShareHandler Unit :=
  if plain[1]? ≠ some ValidationResponse.BLOCK_TXNS then pure ()
  else
    match TxnList.decode plain ValidationResponse.BLOCK_TXNS with
    | .error _ => pure ()
    | .ok list => do
        let conn ← state
        match conn.shares.txnRequests.find? (·.jobId = list.jobIndex) with
        | none => pure ()
        | some request => do
            modify (changeShares (.dropRequest (·.jobId = list.jobIndex)))
            deliver H addressScript request list

/-- One turn of the loop of `expire_txn_requests`. -/
def expireTxnRequest (now : Instant) : ShareHandler Unit := do
  let conn ← state
  match conn.shares.txnRequests.find? (·.deadline ≤ now) with
  | none => pure ()
  | some request => do
      modify (changeShares (.dropRequest (·.deadline ≤ now)))
      modify (changeShares (.setRequested request (.refused .other)))
      releaseHeld H addressScript (HeldShare.awaits request)

/-- The jobs of held shares that are no longer installed. -/
def orphaned (conn : Connection) : List (UInt8 × Nat) :=
  (conn.shares.held.filter fun share =>
    (conn.shares.verifier.liveJob share.s.jobId share.generation).isNone).map fun share =>
      (share.s.jobId, share.generation)

def releaseJobs : List (UInt8 × Nat) → ShareHandler Unit
  | [] => pure ()
  | (jobId, generation) :: jobs => do
      releaseHeld H addressScript fun share => share.s.jobId = jobId && share.generation = generation
      releaseJobs jobs

def answerOrphanedHeld : ShareHandler Unit := do
  let conn ← state
  releaseJobs H addressScript conn.orphaned

def expireParentHolds (now : Instant) : ShareHandler Unit := do
  let conn ← state
  let due (share : HeldShare) : Bool := share.parentHoldUntil.any (· ≤ now)
  if conn.shares.held.any due then releaseHeld H addressScript due else pure ()

/-- The tip of the node, and the template on it. A rotation of the assignments, and the blocknotify, follow. -/
def notifyTipChange (tip : Option Hash) (template : Option NextBlock) (now : Nat) : ShareHandler Unit := do
  let conn ← state
  if tip ≠ conn.shares.verifier.tip then do
    modify (changeShares fun shares =>
      { shares with verifier := { shares.verifier.setTip tip now with next := template } })
    releaseHeld H addressScript HeldShare.awaitsParent
  else
    modify (changeShares fun shares => { shares with verifier := { shares.verifier with next := template } })

/-- The split a coinbaser request is answered with, recorded. -/
def recordDictated (value : Nat) (prevHash : Hash) (outputs : List DictatedOutput) (now : Nat) :
    ShareHandler Unit :=
  modify (changeShares fun shares =>
    { shares with
      verifier := shares.verifier.recordDictated shares.verifier.nextCoinbaserId value prevHash outputs now })

end Connection

/-! ### One connection -/

inductive ConnectionEvent
  | quiet
  | called (call : ShareCall)

/-- The calls of a run. -/
def ConnectionEvent.calls (trace : List ConnectionEvent) : List ShareCall :=
  trace.filterMap fun
    | .quiet => none
    | .called call => some call

/-- What the loop of a connection does next. -/
inductive ConnectionTurn
  | share (s : PowSubmit)
  | blockTxns (plain : Bytes)
  | expireTxnRequest (now : Instant)
  | answerOrphanedHeld
  | expireParentHolds (now : Instant)
  | tipChange (tip : Option Hash) (template : Option NextBlock) (now : Nat)
  | dictated (value : Nat) (prevHash : Hash) (outputs : List DictatedOutput) (now : Nat)
  /-- A rotation or a reveal, on a session that has assignments. -/
  | assigned (v3 : AbwSlotState)

section Steps

variable (H : Hashing) (addressScript : AddressScript)

def ConnectionTurn.handler : ConnectionTurn → ShareHandler Unit
  | .share s => Connection.onShare H addressScript s
  | .blockTxns plain => Connection.onBlockTxns H addressScript plain
  | .expireTxnRequest now => Connection.expireTxnRequest H addressScript now
  | .answerOrphanedHeld => Connection.answerOrphanedHeld H addressScript
  | .expireParentHolds now => Connection.expireParentHolds H addressScript now
  | .tipChange tip template now => Connection.notifyTipChange H addressScript tip template now
  | .dictated value prevHash outputs now => Connection.recordDictated value prevHash outputs now
  | .assigned v3 => Handler.modify fun conn => { conn with v3 := conn.v3.map fun _ => v3 }

/-- A call of a handler is answered, whatever the answer; or the handler is done, and the loop goes on. -/
inductive ConnectionStep : ShareProgram → ConnectionEvent → ShareProgram → Prop
  | call {call : ShareOp × Connection} {next : ShareOp.Answer call.1 → ShareProgram}
      (answer : ShareOp.Answer call.1) :
      ConnectionStep (.call call next) (.called ⟨call, answer⟩) (next answer)
  | turn {conn : Connection} (turn : ConnectionTurn) :
      ConnectionStep (.done (.ok (), conn)) .quiet (ConnectionTurn.handler H addressScript turn conn)

/-- A connection from its handshake on, with the splits and the assignments of the session it resumes. -/
def connecting (policy : SharePolicy) : Lts ShareProgram ConnectionEvent where
  init program := ∃ (splits : DictatedSplits) (v3 : Option AbwSlotState),
    program = .done (.ok (), ⟨⟨(Verifier.new policy).restoreSplits splits, [], []⟩, v3, []⟩)
  step := ConnectionStep H addressScript

end Steps

end Ratum
