import Ratum.Base.Handler
import Ratum.Core.Username
import Ratum.Relay.Relay

/-!
# A connection's shares, handled

`prime/src/connection/shares.rs` from a share received to its answer, with the claim and the credit of
`prime/src/accounting.rs` and what is released when a connection drops. A handler changes its connection
and calls what other connections share or what lies outside: the clock, the hashes accepted, the node, the
ledger and the socket. A share that cannot be decoded claims nothing, and is left out with what is logged.
-/

namespace Ratum

/-- How long a share on a block the node has not reported is held for the node to report it. -/
def UNSEEN_PARENT_HOLD : Duration := .fromSecs 10

/-- A reference to a share under an assignment. -/
structure CandidateRef where
  slot : UInt8
  rawPowHashLe : Hash

def CandidateRef.new (slot : UInt8) (rawPowHash : Hash) : CandidateRef := ⟨slot, rawPowHash.reverse⟩

structure ShareResponse where
  verdict : ShareVerdict
  nonce : UInt32
  targetByte : UInt8
  jobId : UInt8
  abwRef : Option CandidateRef

structure ShareOutcome where
  verdict : ShareVerdict
  rawPowHash : Option Hash

/-- By the template's target, or by its job's own bits. -/
def RebuiltShare.isBlockCandidate (rebuilt : RebuiltShare) : Bool := rebuilt.isBlock || rebuilt.meetsOwnBits

/-- What a handler calls. Where the source passes less, the share is named too. -/
inductive ShareOp
  | unixNow
  | instantNow (verified : Verified)
  /-- `claim`, of the hash a share rebuilt to. -/
  | claim (hash : Hash) (now : Nat)
  | remove (hash : Hash)
  /-- The insertion of `may_reference`, whose result is not looked at. -/
  | hold (s : PowSubmit) (hash : Hash) (receivedAt : Nat)
  /-- What the share asks of the outside while it is settled. -/
  | settle (s : PowSubmit) (verified : Verified) (receivedAt : Nat) (parentHold : Option Instant)
  /-- `relay_and_record` up to what it notes on the session: nothing when the block was relayed before. -/
  | relay (s : PowSubmit) (rebuilt : RebuiltShare) (txns : List Bytes) (receivedAt : Nat)
  | record (share : Share)
  | receipt (s : PowSubmit) (rebuilt : RebuiltShare) (candidate : CandidateRef)
  | respond (s : PowSubmit) (verified : Verified) (response : ShareResponse)

@[reducible] def ShareOp.Answer : ShareOp → Type
  | unixNow => UInt64
  | instantNow _ => Instant
  | claim .. => Bool
  | remove .. | hold .. => Unit
  | settle .. => SettleInputs × BoundedSet Hash
  | relay .. => Option Relayed
  | record .. | receipt .. | respond .. => IoAnswer

/-- The part of a connection its shares use. -/
structure Connection where
  shares : ShareConnection
  /-- The assignments of a version 3 session. -/
  v3 : Option AbwSlotState
  /-- The held shares released and not yet settled again, which `release_held` moves out of the others. -/
  released : List HeldShare

abbrev ShareHandler (α : Type) := Handler ShareOp ShareOp.Answer Connection IoError α

abbrev ask (op : ShareOp) : ShareHandler op.Answer := Handler.call op

namespace Connection

open Handler

/-- The slot a share's receipt and reference name: the slot it carries, on a version 3 session only. -/
def abwSlotOf (conn : Connection) (s : PowSubmit) : Option UInt8 := if conn.v3.isSome then s.abwSlot else none

def notePublishedSlot (s : PowSubmit) (conn : Connection) : Connection :=
  match conn.abwSlotOf s, conn.v3 with
  | some slot, some abw => { conn with v3 := some (abw.notePublished slot).2 }
  | _, _ => conn

/-! ### The answer -/

def relayAndRecord (s : PowSubmit) (rebuilt : RebuiltShare) (txns : List Bytes) (receivedAt : Nat) :
    ShareHandler Unit := do
  let relayed ← ask (.relay s rebuilt txns receivedAt)
  match relayed with
  | some .accepted | some .unknown => modify (notePublishedSlot s)
  | _ => pure ()

def sendAbwReceipt (s : PowSubmit) (rebuilt : RebuiltShare) : ShareHandler Unit := do
  let conn ← state
  match conn.abwSlotOf s with
  | none => pure ()
  | some slot => do
      let sent ← ask (.receipt s rebuilt (.new slot rebuilt.rawPowHash))
      orFail sent

def receiptFor (s : PowSubmit) : Option RebuiltShare → ShareHandler Unit
  | some rebuilt => if rebuilt.isBlockCandidate then sendAbwReceipt s rebuilt else pure ()
  | none => pure ()

/-- A share the ledger could not record releases its claim. -/
def creditShare (username : String) (rebuilt : RebuiltShare) (now : Nat) : ShareHandler IoAnswer := do
  let recorded ← ask (.record
    { acceptedAt := .ofNat now
      identity := identityOf canonicalAddress username
      difficulty := rebuilt.difficulty
      blockHash := rebuilt.blockHash
      tagSecondary := rebuilt.tagSecondary })
  match recorded with
  | .ok _ => pure (.ok ())
  | .error e => do
      ask (.remove rebuilt.blockHash)
      pure (.error e)

/-- Whether the identity of a username is not one the pool can pay. -/
def refuseIfUnpayable (addressScript : AddressScript) (username : String) : Bool :=
  (addressScript (addressOf username)).isNone

def credit (addressScript : AddressScript) (s : PowSubmit) (rebuilt : RebuiltShare) (now : Nat) :
    ShareHandler ShareVerdict :=
  if refuseIfUnpayable addressScript s.username then pure (.rejected .badUsername)
  else do
    let recorded ← creditShare s.username rebuilt now
    match recorded with
    | .ok _ => pure .accepted
    | .error _ => pure (.rejected .other)

def noteShare (conn : Connection) : Connection := { conn with v3 := conn.v3.map AbwSlotState.noteShare }

def onAccepted (addressScript : AddressScript) (s : PowSubmit) (rebuilt : RebuiltShare) (txns : List Bytes)
    (now : Nat) : ShareHandler ShareOutcome := do
  (if rebuilt.meetsOwnBits then relayAndRecord s rebuilt txns now else pure ())
  modify noteShare
  let verdict ← credit addressScript s rebuilt now
  receiptFor s (some rebuilt)
  pure ⟨verdict, some rebuilt.rawPowHash⟩

/-- Whether a refused share's answer may reference it. Claims its hash so a resend cannot be credited; false
past the ntime window. -/
def mayReference (s : PowSubmit) (rebuilt : RebuiltShare) (receivedAt : Nat) : ShareHandler Bool := do
  let conn ← state
  if (conn.abwSlotOf s).isNone then pure false
  else if !meetsShareTarget s rebuilt then pure true
  else if satAdd64 receivedAt NTIME_WINDOW_SECS < s.blockTime.toNat then pure false
  else do
    ask (.hold s rebuilt.blockHash receivedAt)
    pure true

/-- The share the answer may reference. -/
def referenced (s : PowSubmit) (receivedAt : Nat) : Option RebuiltShare → ShareHandler (Option RebuiltShare)
  | none => pure none
  | some rebuilt => do
      let may ← mayReference s rebuilt receivedAt
      pure (if may then some rebuilt else none)

def relayRefused (s : PowSubmit) (receivedAt : Nat) : Option RebuiltShare → Option (List Bytes) → ShareHandler Unit
  | some rebuilt, some txns => relayAndRecord s rebuilt txns receivedAt
  | _, _ => pure ()

def onRefused (s : PowSubmit) (refusal : Refusal) (relay : Option (List Bytes)) (receivedAt : Nat) :
    ShareHandler ShareOutcome := do
  relayRefused s receivedAt refusal.rebuilt relay
  let rebuilt ← referenced s receivedAt refusal.rebuilt
  receiptFor s rebuilt
  pure ⟨.rejected refusal.reason, rebuilt.map RebuiltShare.rawPowHash⟩

/-- The reason a claimed share is refused for, and the transactions of its job. -/
def refusedFor : JobVerdict → RejectReason × Option (List Bytes)
  | .invalid reason => (reason, none)
  | .unchecked reason txns => (reason, some txns)
  | _ => (.other, none)

/-- A share that claimed its hash, refused by its job. Under an assignment the hash stays claimed. -/
def onRefusedByJob (s : PowSubmit) (rebuilt : RebuiltShare) (verdict : JobVerdict) (receivedAt : Nat) :
    ShareHandler ShareOutcome := do
  let (reason, txns) := refusedFor verdict
  let conn ← state
  (if (conn.abwSlotOf s).isNone then ask (.remove rebuilt.blockHash) else pure ())
  onRefused s ⟨reason, some rebuilt⟩ (txns.filter fun _ => rebuilt.meetsOwnBits) receivedAt

def outcomeOf (addressScript : AddressScript) (s : PowSubmit) (verified : Verified) (verdict : JobVerdict)
    (receivedAt : Nat) : ShareHandler ShareOutcome :=
  match verified, verdict with
  | .ok rebuilt, .valid txns => onAccepted addressScript s rebuilt txns receivedAt
  | .ok rebuilt, verdict => onRefusedByJob s rebuilt verdict receivedAt
  | .error refusal, .relayOnly txns => onRefused s refusal (some txns) receivedAt
  | .error refusal, _ => onRefused s refusal none receivedAt

def answer (addressScript : AddressScript) (s : PowSubmit) (verified : Verified) (verdict : JobVerdict)
    (receivedAt : Nat) : ShareHandler Unit := do
  let outcome ← outcomeOf addressScript s verified verdict receivedAt
  let conn ← state
  let sent ← ask (.respond s verified
    { verdict := outcome.verdict
      nonce := s.nonce
      targetByte := s.targetByte
      jobId := s.jobId
      abwRef := outcome.rawPowHash.bind fun hash => (conn.abwSlotOf s).map fun slot => .new slot hash })
  orFail sent

/-! ### Settling -/

/-- The claim of a share that is not answered. -/
def releaseUnanswered : Verified → ShareHandler Unit
  | .ok rebuilt => ask (.remove rebuilt.blockHash)
  | .error _ => pure ()

def setShares (shares : ShareConnection) (conn : Connection) : Connection := { conn with shares }

/-- Answers the share, or holds it while its job's transactions are awaited, or, until `parentHold`, while
the node has not reported its job's parent. -/
def settle (addressScript : AddressScript) (s : PowSubmit) (verified : Verified) (receivedAt : Nat)
    (parentHold : Option Instant) : ShareHandler Unit := do
  let (io, relayedBlocks) ← ask (.settle s verified receivedAt parentHold)
  let conn ← state
  match conn.shares.settle io relayedBlocks s verified receivedAt parentHold with
  | .error e => do
      releaseUnanswered verified
      fail e
  | .ok (.held, shares) => modify (setShares shares)
  | .ok (.answered verified verdict, shares) => do
      modify (setShares shares)
      answer addressScript s verified verdict receivedAt

/-- Verifies the share against this connection's jobs, splits and tip, and claims its hash across every
connection. -/
def verifyAndClaim (H : Hashing) (s : PowSubmit) (now : Nat) : ShareHandler Verified := do
  let conn ← state
  let (verified, verifier) := conn.shares.verifier.verify H s conn.v3 now
  modify (setShares { conn.shares with verifier })
  match verified with
  | .error refusal => pure (.error refusal)
  | .ok rebuilt => do
      let claimed ← ask (.claim rebuilt.blockHash now)
      pure (if claimed then .ok rebuilt else .error ⟨.duplicateWork, some rebuilt⟩)

def onShare (H : Hashing) (addressScript : AddressScript) (s : PowSubmit) : ShareHandler Unit := do
  let now ← ask .unixNow
  let verified ← verifyAndClaim H s now.toNat
  let instant ← ask (.instantNow verified)
  settle addressScript s verified now.toNat (some (instant + UNSEEN_PARENT_HOLD))

/-! ### Releasing -/

/-- Settles a released share again: as it was verified when it was held for its job's transactions, verified
anew when it was held for its job's parent. -/
def resettle (H : Hashing) (addressScript : AddressScript) (share : HeldShare) : ShareHandler Unit :=
  match share.awaiting with
  | .txns => settle addressScript share.s share.verified share.receivedAt none
  | .parent until_ => do
      let now ← ask .unixNow
      let verified ← verifyAndClaim H share.s now.toNat
      settle addressScript share.s verified share.receivedAt (some until_)

def setReleased (released : List HeldShare) (conn : Connection) : Connection := { conn with released }

/-- The loop of `release_held`. -/
def resettleAll (H : Hashing) (addressScript : AddressScript) : List HeldShare → ShareHandler Unit
  | [] => pure ()
  | share :: released => do
      modify (setReleased released)
      resettle H addressScript share
      resettleAll H addressScript released

/-- The held shares `selected` selects, moved out of the others. -/
def takeHeld (selected : HeldShare → Bool) (conn : Connection) : Connection :=
  { conn with
    shares.held := conn.shares.held.filter fun share => !selected share
    released := conn.shares.held.filter selected }

/-- Settles again, in the order they arrived, the held shares `selected` selects. -/
def releaseHeld (H : Hashing) (addressScript : AddressScript) (selected : HeldShare → Bool) :
    ShareHandler Unit := do
  modify (takeHeld selected)
  let conn ← state
  resettleAll H addressScript conn.released

/-! ### Dropping -/

/-- The block hash the share claimed on arrival, when it verified. -/
def claimedHash (verified : Verified) : Option Hash := verified.toOption.map RebuiltShare.blockHash

def setHeld (held : List HeldShare) (conn : Connection) : Connection := { conn with shares.held := held }

/-- The release of the held shares' claims, each as it leaves the shares held. -/
def releaseClaims : List HeldShare → ShareHandler Unit
  | [] => pure ()
  | share :: held => do
      releaseUnanswered share.verified
      modify (setHeld held)
      releaseClaims held

def drop : ShareHandler Unit := do
  let conn ← state
  releaseClaims conn.shares.held

end Connection

end Ratum
