import Ratum.Verify.Verify

/-!
# A share on its connection

`prime/src/connection/shares.rs` from a verified share to its verdict: the shares held for their job's
transactions or parent, the transactions asked of the gateway, the node asked about the job's block, and
the block a share has relayed. What is logged is left out, and so are the credit, the receipt and the
answer sent, which decide nothing about the relay.
-/

namespace Ratum

def MAX_TXN_REQUESTS : Nat := 8

def MAX_HELD_SHARES : Nat := 4096

def PROPOSAL_RETRY_SECS : Nat := 10

def VERSION_ROLLING_MASK : UInt32 := 0x1fffe000

def MAX_RELAY_TARGET_SHIFT : Nat := 2

/-! ### Blocks by their own bits -/

/-- A block by its job's own bits. -/
def RebuiltShare.meetsOwnBits (rebuilt : RebuiltShare) : Bool :=
  (bitsToTarget rebuilt.jobBits).any fun target => meetsTarget rebuilt.blockHash target

/-- Whether a refused share is relayed when it is a block: its bits are the template's, or may be a block's
on the tip the template replaced. -/
def Verifier.relayable (v : Verifier) (rebuilt : RebuiltShare) : Bool :=
  if !rebuilt.meetsOwnBits then false
  else if allowsMinDifficultyBlocks v.policy.chain then true
  else
    match v.nextOn rebuilt.prevHash with
    | some next => rebuilt.jobBits = next.bits
    | none =>
        match v.nextTarget, bitsToTarget rebuilt.jobBits with
        | some next, some own => own ≤ shlSaturating next MAX_RELAY_TARGET_SHIFT
        | _, _ => true

/-! ### The node's verdicts -/

/-- How a call to the node failed. -/
inductive RpcError
  | unauthorized
  | failed
  deriving DecidableEq

/-- What the node answers about a block: nothing when it takes it, else its reason. -/
abbrev NodeAnswer := Except RpcError (Option String)

/-- The node's verdict on a job's block, and whether it holds for every share on the job with that
coinbase. -/
def blockCheckFrom (proposal : NodeAnswer) (version : UInt32) (now : Nat) : BlockCheck × Bool :=
  match proposal with
  | .ok none | .ok (some "duplicate") => (.valid version, true)
  | .error _ | .ok (some "duplicate-inconclusive") => (.unavailable (now + PROPOSAL_RETRY_SECS), true)
  | .ok (some "inconclusive-not-best-prevblk") => (.invalid .staleBlock, true)
  | .ok (some "bad-diffbits") => (.invalid .badTarget, true)
  | .ok (some "bad-header-height") | .ok (some "bad-cb-height") => (.invalid .headerFieldMismatch, true)
  | .ok (some "bad-txnmrklroot") | .ok (some "bad-txns-duplicate") =>
      (.invalid .headerMerkleMismatch, true)
  | .ok (some reason) =>
      if "time-".isPrefixOf reason then (.invalid .badNtime, false)
      else if "bad-version".isPrefixOf reason then (.invalid .badVersion, false)
      else if "bad-cb-".isPrefixOf reason then (.invalid .badCoinbase, true)
      else (.invalid .other, true)

/-- What the node's view of a share's job decides about the share. -/
inductive JobVerdict
  | notNeeded
  | pending (generation : Nat)
  | valid (txns : List Bytes)
  | relayOnly (txns : List Bytes)
  | invalid (reason : RejectReason)
  | unchecked (reason : RejectReason) (txns : List Bytes)

inductive Txns
  | ready (txns : List Bytes)
  | pending
  | refused (reason : RejectReason)

abbrev Verified := Except Refusal RebuiltShare

/-- What a held share waits for. -/
inductive Awaiting
  | txns
  | parent (until_ : Instant)

structure HeldShare where
  s : PowSubmit
  verified : Verified
  generation : Nat
  receivedAt : Nat
  awaiting : Awaiting

/-- The block hash the share rebuilt to, claimed or not. -/
def HeldShare.hash (held : HeldShare) : Option Hash :=
  match held.verified with
  | .ok rebuilt => some rebuilt.blockHash
  | .error refusal => refusal.rebuilt.map RebuiltShare.blockHash

structure TxnRequest where
  jobId : UInt8
  generation : Nat
  sentAt : Instant

/-- The part of a connection its shares use. -/
structure ShareConnection where
  verifier : Verifier
  held : List HeldShare
  txnRequests : List TxnRequest

/-- What a share asks of the outside while it is settled. -/
structure SettleInputs where
  now : Instant
  /-- The answer to the write of a transaction request. -/
  sent : IoAnswer
  proposal : NodeAnswer

namespace ShareConnection

variable (conn : ShareConnection) (io : SettleInputs)

/-- Whether a share held here rebuilt to `hash`. -/
def holds (hash : Hash) : Bool := conn.held.any fun h => h.hash = some hash

def jobTxns (s : PowSubmit) (generation : Nat) : Except IoError (Txns × ShareConnection) :=
  match conn.verifier.liveJob s.jobId generation with
  | none => .ok (.refused .staleBlock, conn)
  | some st =>
      if s.subsidyOnly || st.job.txnCount = 0 then .ok (.ready [], conn)
      else
        match st.txns with
        | .held txns => .ok (.ready txns, conn)
        | .requested => .ok (.pending, conn)
        | .refused reason => .ok (.refused reason, conn)
        | .unrequested =>
            if MAX_TXN_REQUESTS ≤ conn.txnRequests.length then .ok (.refused .other, conn)
            else
              io.sent.map fun _ =>
                (.pending,
                  { conn with
                    verifier := (conn.verifier.setJobTxns s.jobId generation .requested).2
                    txnRequests := conn.txnRequests ++ [⟨s.jobId, generation, io.now⟩] })

/-- Asks the node for its verdict on the job's block with the share's coinbase. -/
def checkBlock (s : PowSubmit) (rebuilt : RebuiltShare) (generation now : Nat) :
    BlockCheck × ShareConnection :=
  let (check, wholeJob) := blockCheckFrom io.proposal rebuilt.version now
  let verifier := if wholeJob then
      conn.verifier.recordBlockCheck s.jobId generation rebuilt.coinbaseDigest check
    else conn.verifier
  (check, { conn with verifier })

/-- The verdict kept for the job's block with the share's coinbase, or the node's. -/
def blockCheck (s : PowSubmit) (rebuilt : RebuiltShare) (generation now : Nat) :
    BlockCheck × ShareConnection :=
  match (conn.verifier.liveJob s.jobId generation).bind fun st => st.checks.lookup rebuilt.coinbaseDigest with
  | some (.unavailable retryAt) =>
      if retryAt ≤ now then conn.checkBlock io s rebuilt generation now else (.unavailable retryAt, conn)
  | some check => (check, conn)
  | none => conn.checkBlock io s rebuilt generation now

/-- The rebuilt share whose job decides, and whether it would be credited. A resend of a block is relayed
only if the node never answered its submission. -/
def judged (relayedBlocks : BoundedSet Hash) : Verified → Option (RebuiltShare × Bool)
  | .ok rebuilt => some (rebuilt, true)
  | .error ⟨reason, some rebuilt⟩ =>
      if conn.verifier.relayable rebuilt &&
          (reason ≠ .duplicateWork || !relayedBlocks.contains rebuilt.blockHash) then
        some (rebuilt, false)
      else none
  | .error ⟨_, none⟩ => none

def verdictOf (rebuilt : RebuiltShare) (txns : List Bytes) : BlockCheck → JobVerdict
  | .valid version =>
      if (version ^^^ rebuilt.version) &&& ~~~VERSION_ROLLING_MASK ≠ 0 then .invalid .badVersion
      else .valid txns
  | .invalid .staleBlock => .unchecked .staleBlock txns
  | .invalid reason => .invalid reason
  | .unavailable _ => .unchecked .other txns

def jobVerdict (relayedBlocks : BoundedSet Hash) (s : PowSubmit) (verified : Verified) (now : Nat) :
    Except IoError (JobVerdict × ShareConnection) :=
  match conn.judged relayedBlocks verified with
  | none => .ok (.notNeeded, conn)
  | some (rebuilt, credited) =>
      let refused (reason : RejectReason) : JobVerdict :=
        if credited then .invalid reason else .notNeeded
      match rebuilt.jobGeneration with
      | none => .ok (refused .staleBlock, conn)
      | some generation => do
          let (txns, conn) ← conn.jobTxns io s generation
          match txns with
          | .pending => return (.pending generation, conn)
          | .refused reason => return (refused reason, conn)
          | .ready txns =>
              if !credited then return (.relayOnly txns, conn)
              let (check, conn) := conn.blockCheck io s rebuilt generation now
              return (verdictOf rebuilt txns check, conn)

/-- A share held, or answered with a verdict. -/
inductive Settled
  | held
  | answered (verified : Verified) (verdict : JobVerdict)

def hold (share : HeldShare) : ShareConnection := { conn with held := conn.held ++ [share] }

/-- `settle` of a share that is not held for its parent. -/
def settleVerified (relayedBlocks : BoundedSet Hash) (s : PowSubmit) (verified : Verified)
    (receivedAt : Nat) : Except IoError (Settled × ShareConnection) := do
  let (verdict, conn) ← conn.jobVerdict io relayedBlocks s verified receivedAt
  match verdict with
  | .pending generation =>
      if conn.held.length < MAX_HELD_SHARES then
        return (.held, conn.hold { s, verified, generation, receivedAt, awaiting := .txns })
      else return (.answered verified (.invalid .other), conn)
  | verdict => return (.answered verified verdict, conn)

/-- Answers the share, or holds it while its job's transactions are awaited, or, until `parentHold`, while
the node has not reported its job's parent. -/
def settle (relayedBlocks : BoundedSet Hash) (s : PowSubmit) (verified : Verified) (receivedAt : Nat)
    (parentHold : Option Instant) : Except IoError (Settled × ShareConnection) :=
  match verified with
  | .error ⟨reason, some rebuilt⟩ =>
      if (reason = .duplicateWork || reason = .staleBlock) && conn.holds rebuilt.blockHash then
        conn.settleVerified io relayedBlocks s (.error ⟨.duplicateWork, none⟩) receivedAt
      else
        match reason, parentHold, rebuilt.jobGeneration with
        | .staleBlock, some until_, some generation =>
            if io.now < until_ && conn.verifier.parentUnseen s rebuilt.prevHash &&
                decide (conn.held.length < MAX_HELD_SHARES) then
              .ok (.held,
                conn.hold { s, verified, generation, receivedAt, awaiting := .parent until_ })
            else conn.settleVerified io relayedBlocks s verified receivedAt
        | _, _, _ => conn.settleVerified io relayedBlocks s verified receivedAt
  | verified => conn.settleVerified io relayedBlocks s verified receivedAt

/-- The block the answer to a share relays, with its transactions. -/
def Settled.relays : Settled → Option (RebuiltShare × List Bytes)
  | .answered (.ok rebuilt) (.valid txns) | .answered (.ok rebuilt) (.unchecked _ txns) =>
      if rebuilt.meetsOwnBits then some (rebuilt, txns) else none
  | .answered (.error ⟨_, some rebuilt⟩) (.relayOnly txns) => some (rebuilt, txns)
  | _ => none

/-! ### What settling leaves held -/

variable {conn conn' : ShareConnection} {io : SettleInputs} {relayedBlocks : BoundedSet Hash} {s : PowSubmit}
  {verified verified' : Verified} {receivedAt : Nat} {parentHold : Option Instant} {verdict : JobVerdict}

theorem held_jobTxns {generation : Nat} {txns : Txns}
    (htxns : conn.jobTxns io s generation = .ok (txns, conn')) : conn'.held = conn.held := by
  unfold jobTxns at htxns
  split at htxns
  · cases htxns
    rfl
  · split at htxns
    · cases htxns
      rfl
    · split at htxns
      · cases htxns
        rfl
      · cases htxns
        rfl
      · cases htxns
        rfl
      · split at htxns
        · cases htxns
          rfl
        · cases hsent : io.sent with
          | error e =>
              rw [hsent] at htxns
              cases htxns
          | ok _ =>
              rw [hsent] at htxns
              cases htxns
              rfl

theorem held_blockCheck (rebuilt : RebuiltShare) (generation now : Nat) :
    (conn.blockCheck io s rebuilt generation now).2.held = conn.held := by
  unfold blockCheck
  split
  · split <;> rfl
  · rfl
  · rfl

theorem held_jobVerdict {now : Nat}
    (hverdict : conn.jobVerdict io relayedBlocks s verified now = .ok (verdict, conn')) :
    conn'.held = conn.held := by
  unfold jobVerdict at hverdict
  split at hverdict
  · cases hverdict
    rfl
  · rename_i rebuilt credited _
    dsimp only at hverdict
    split at hverdict
    · cases hverdict
      rfl
    · rename_i generation _
      cases htxns : conn.jobTxns io s generation with
      | error e =>
          rw [htxns] at hverdict
          cases hverdict
      | ok asked =>
          obtain ⟨txns, conn₁⟩ := asked
          rw [htxns] at hverdict
          have hheld := held_jobTxns htxns
          cases txns with
          | pending =>
              cases hverdict
              exact hheld
          | refused reason =>
              cases hverdict
              exact hheld
          | ready txns =>
              cases credited with
              | false =>
                  cases hverdict
                  exact hheld
              | true =>
                  cases hverdict
                  exact (held_blockCheck rebuilt generation now).trans hheld

/-- How a settled share leaves the shares held: with it among them, or without it; as verified, it is the share
it was. -/
inductive Settles (conn : ShareConnection) (verified : Verified) : Settled → ShareConnection → Prop
  | held {conn' : ShareConnection} (share : HeldShare) (hheld : conn'.held = conn.held ++ [share])
      (hsame : share.verified.toOption = verified.toOption)
      (hparent : share.awaiting ≠ .txns → share.verified.toOption = none) :
      Settles conn verified .held conn'
  | answered {conn' : ShareConnection} {verified' : Verified} (verdict : JobVerdict)
      (hheld : conn'.held = conn.held) (hsame : verified'.toOption = verified.toOption) :
      Settles conn verified (.answered verified' verdict) conn'

theorem settleVerified_settles {settled : Settled}
    (hsettled : conn.settleVerified io relayedBlocks s verified receivedAt = .ok (settled, conn')) :
    Settles conn verified settled conn' := by
  unfold settleVerified at hsettled
  cases hverdict : conn.jobVerdict io relayedBlocks s verified receivedAt with
  | error e =>
      rw [hverdict] at hsettled
      cases hsettled
  | ok judged =>
      obtain ⟨verdict, conn₁⟩ := judged
      rw [hverdict] at hsettled
      have hheld := held_jobVerdict hverdict
      cases verdict with
      | pending generation =>
          simp only [bind, Except.bind] at hsettled
          split at hsettled
          · cases hsettled
            exact .held { s, verified, generation, receivedAt, awaiting := .txns }
              (by rw [hold, hheld]) rfl fun hnot => absurd rfl hnot
          · cases hsettled
            exact .answered _ hheld rfl
      | _ =>
          cases hsettled
          exact .answered _ hheld rfl

theorem settle_settles {settled : Settled}
    (hsettled : conn.settle io relayedBlocks s verified receivedAt parentHold = .ok (settled, conn')) :
    Settles conn verified settled conn' := by
  unfold settle at hsettled
  split at hsettled
  · rename_i reason rebuilt
    split at hsettled
    · cases settleVerified_settles hsettled with
      | held share hheld hsame hparent => exact .held share hheld hsame hparent
      | answered verdict hheld hsame => exact .answered verdict hheld hsame
    · split at hsettled
      · split at hsettled
        · cases hsettled
          exact .held _ rfl rfl fun _ => rfl
        · exact settleVerified_settles hsettled
      · exact settleVerified_settles hsettled
  · exact settleVerified_settles hsettled

end ShareConnection

end Ratum
