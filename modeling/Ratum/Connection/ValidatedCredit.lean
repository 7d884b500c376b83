import Ratum.Connection.Released
import Ratum.Connection.Turns
import Ratum.Relay.Proposals

/-!
# Credit on validated blocks

Over every run of a connection's loop, whatever the clock, the node, the ledger and the gateway answer: a share
goes to the ledger only when the node took a proposal of its job's block, with the share's coinbase and the
transactions the job holds at that moment.
-/

namespace Ratum

namespace Connection

/-- What a call proposed to the node. -/
def proposalOf : ShareCall → Option Proposal
  | ⟨(.settle s verified receivedAt _, conn), (io, _)⟩ => conn.shares.proposes io s verified receivedAt
  | _ => none

/-- The blocks proposed over some calls. -/
def proposals (calls : List ShareCall) : List Proposal := calls.filterMap proposalOf

/-- A share settled on a connection, its block validated. -/
structure Creditable (H : Hashing) (calls : List ShareCall) (conn : Connection) (s : PowSubmit)
    (rebuilt : RebuiltShare) : Prop where
  settled : ∃ receivedAt parentHold conn answer,
    ⟨(.settle s (.ok rebuilt) receivedAt parentHold, conn), answer⟩ ∈ calls
  validated : ∃ txns p, conn.shares.Validated H (proposals calls) s rebuilt txns p

/-- What goes to the ledger is a share settled on the connection, its block validated. -/
def Credited (H : Hashing) (calls : List ShareCall) (conn : Connection) (share : Share) : Prop :=
  ∃ s rebuilt, share.blockHash = rebuilt.blockHash ∧ share.difficulty = rebuilt.difficulty ∧
    share.identity = identityOf canonicalAddress s.username ∧ Creditable H calls conn s rebuilt

/-- Follows the calls of a connection, and requires of each share recorded that its block is validated. -/
def creditMonitor (H : Hashing) : Monitor (ShareOp × Connection) (fun call => ShareOp.Answer call.1)
    (List ShareCall) where
  allows _ _ := True
  requires calls
    | (.record share, conn) => Credited H calls conn share
    | _ => True
  after calls called := calls ++ [called]

/-- The shares of a connection, with those that wait, are sound for the calls made. -/
structure Sound (H : Hashing) (calls : List ShareCall) (conn : Connection) : Prop where
  shares : conn.shares.Sound H (proposals calls)
  coinbases : ∀ share ∈ conn.shares.held ++ conn.released, ∀ rebuilt, share.verified = .ok rebuilt →
    ∃ cb, rebuilt.OnCoinbase H share.s cb

/-- A handler that leaves the shares of the connection as they are. -/
def Steady {α : Type} (H : Hashing) (calls : List ShareCall) (conn : Connection) (x : ShareHandler α) : Prop :=
  x.Ensures (creditMonitor H) conn calls fun _ conn' calls' => Same conn conn' ∧ calls ⊆ calls'

variable {α β : Type} {H : Hashing} {addressScript : AddressScript} {calls calls' : List ShareCall}
  {conn conn' : Connection} {s : PowSubmit} {rebuilt : RebuiltShare} {verified : Verified} {receivedAt : Nat}

theorem proposals_subset (hcalls : calls ⊆ calls') : proposals calls ⊆ proposals calls' :=
  List.filterMap_subset _ hcalls

theorem proposals_append (call : ShareCall) :
    proposals (calls ++ [call]) = proposals calls ++ (proposalOf call).toList := by
  rw [proposals, List.filterMap_append, ← proposals]
  cases hproposal : proposalOf call with
  | none => rw [List.filterMap_cons_none hproposal]; rfl
  | some p => rw [List.filterMap_cons_some hproposal]; rfl

theorem Sound.same (h : conn.Sound H calls) (hsame : Same conn conn') (hcalls : calls ⊆ calls') :
    conn'.Sound H calls' where
  shares := by
    rw [hsame.shares]
    exact h.shares.mono (proposals_subset hcalls)
  coinbases := by
    rw [hsame.shares, hsame.released]
    exact h.coinbases

theorem Creditable.same (h : Creditable H calls conn s rebuilt) (hsame : Same conn conn') (hcalls : calls ⊆ calls') :
    Creditable H calls' conn' s rebuilt where
  settled := by
    obtain ⟨receivedAt, parentHold, conn₀, answer, hmem⟩ := h.settled
    exact ⟨receivedAt, parentHold, conn₀, answer, hcalls hmem⟩
  validated := by
    obtain ⟨txns, p, hvalidated⟩ := h.validated
    rw [hsame.shares]
    exact ⟨txns, p, hvalidated.mono (proposals_subset hcalls)⟩

/-! ### The answer -/

theorem Steady.pure (value : α) : Steady H calls conn (pure value) := ⟨.refl conn, List.Subset.refl _⟩

theorem Steady.bind {x : ShareHandler α} {f : α → ShareHandler β} (hx : Steady H calls conn x)
    (hf : ∀ value calls' conn', Same conn conn' → calls ⊆ calls' → Steady H calls' conn' (f value)) :
    Steady H calls conn (x >>= f) := by
  refine Handler.Ensures.bind hx ?_ ?_
  · rintro value conn₁ calls₁ ⟨hsame, hcalls⟩
    refine (hf value calls₁ conn₁ hsame hcalls).mono ?_
    rintro result conn₂ calls₂ ⟨hsame', hcalls'⟩
    exact ⟨hsame.trans hsame', List.Subset.trans hcalls hcalls'⟩
  · rintro e conn₁ calls₁ ⟨hsame, hcalls⟩
    exact ⟨hsame, hcalls⟩

theorem Steady.ask {op : ShareOp} (hop : (creditMonitor H).requires calls (op, conn)) :
    Steady H calls conn (ask op) :=
  ⟨hop, fun _ _ => ⟨.refl conn, List.subset_append_left _ _⟩⟩

theorem Steady.modify {f : Connection → Connection} (hsame : ∀ conn, Same conn (f conn)) :
    Steady H calls conn (Handler.modify f) := ⟨hsame conn, List.Subset.refl _⟩

theorem Steady.state : Steady H calls conn Handler.state := ⟨.refl conn, List.Subset.refl _⟩

theorem Steady.orFail (result : Except IoError α) : Steady H calls conn (Handler.orFail result) := by
  cases result with
  | ok value => exact ⟨.refl conn, List.Subset.refl _⟩
  | error e => exact ⟨.refl conn, List.Subset.refl _⟩

theorem Steady.ite {p : Prop} [Decidable p] {x y : ShareHandler α} (hx : Steady H calls conn x)
    (hy : Steady H calls conn y) : Steady H calls conn (if p then x else y) := by
  split
  · exact hx
  · exact hy

theorem relayAndRecord_steady (txns : List Bytes) :
    Steady H calls conn (relayAndRecord s rebuilt txns receivedAt) := by
  refine .bind (.ask trivial) fun relayed calls' conn' _ _ => ?_
  split
  · exact .modify (same_notePublishedSlot s)
  · exact .modify (same_notePublishedSlot s)
  · exact .pure ()

theorem sendAbwReceipt_steady : Steady H calls conn (sendAbwReceipt s rebuilt) := by
  refine .bind .state fun conn₁ calls' conn' _ _ => ?_
  split
  · exact .pure ()
  · exact .bind (.ask trivial) fun sent _ _ _ _ => .orFail sent

theorem receiptFor_steady (share : Option RebuiltShare) : Steady H calls conn (receiptFor s share) := by
  cases share with
  | none => exact .pure ()
  | some rebuilt => exact .ite sendAbwReceipt_steady (.pure ())

/-- A share that goes to the ledger has its block validated. -/
theorem creditShare_steady (h : Creditable H calls conn s rebuilt) :
    Steady H calls conn (creditShare s.username rebuilt receivedAt) := by
  refine .bind (.ask ⟨s, rebuilt, rfl, rfl, rfl, h⟩) fun recorded calls' conn' _ _ => ?_
  cases recorded with
  | ok _ => exact .pure _
  | error e => exact .bind (.ask trivial) fun _ _ _ _ _ => .pure _

theorem credit_steady (h : Creditable H calls conn s rebuilt) :
    Steady H calls conn (credit addressScript s rebuilt receivedAt) := by
  refine .ite (.pure _) (.bind (creditShare_steady h) fun recorded calls' conn' _ _ => ?_)
  cases recorded <;> exact .pure _

theorem onAccepted_steady (h : Creditable H calls conn s rebuilt) (txns : List Bytes) :
    Steady H calls conn (onAccepted addressScript s rebuilt txns receivedAt) := by
  refine .bind (.ite (relayAndRecord_steady txns) (.pure ())) fun _ calls₁ conn₁ hsame₁ hcalls₁ => ?_
  refine .bind (.modify same_noteShare) fun _ calls₂ conn₂ hsame₂ hcalls₂ => ?_
  have h₂ := (h.same hsame₁ hcalls₁).same hsame₂ hcalls₂
  refine .bind (credit_steady h₂) fun verdict _ _ _ _ => ?_
  exact .bind (receiptFor_steady _) fun _ _ _ _ _ => .pure _

theorem referenced_steady (share : Option RebuiltShare) : Steady H calls conn (referenced s receivedAt share) := by
  cases share with
  | none => exact .pure _
  | some rebuilt =>
      have hmay : Steady H calls conn (mayReference s rebuilt receivedAt) := by
        refine .bind .state fun conn₁ _ _ _ _ => ?_
        exact .ite (.pure _) (.ite (.pure _) (.ite (.pure _) (.bind (.ask trivial) fun _ _ _ _ _ => .pure _)))
      exact .bind hmay fun may _ _ _ _ => .pure _

theorem onRefused_steady (refusal : Refusal) (relay : Option (List Bytes)) :
    Steady H calls conn (onRefused s refusal relay receivedAt) := by
  have hrelay : Steady H calls conn (relayRefused s receivedAt refusal.rebuilt relay) := by
    unfold relayRefused
    split
    · exact relayAndRecord_steady _
    · exact .pure ()
  refine .bind hrelay fun _ _ _ _ _ => .bind (referenced_steady _) fun share _ _ _ _ => ?_
  exact .bind (receiptFor_steady share) fun _ _ _ _ _ => .pure _

theorem onRefusedByJob_steady (verdict : JobVerdict) :
    Steady H calls conn (onRefusedByJob s rebuilt verdict receivedAt) := by
  refine .bind .state fun conn₁ _ _ _ _ => ?_
  exact .bind (.ite (.ask trivial) (.pure ())) fun _ _ _ _ _ => onRefused_steady _ _

/-- A share answered with a verdict that credits it has its block validated. -/
theorem answer_steady {verdict : JobVerdict}
    (h : ∀ rebuilt txns, verified = .ok rebuilt → verdict = .valid txns → Creditable H calls conn s rebuilt) :
    Steady H calls conn (answer addressScript s verified verdict receivedAt) := by
  have houtcome : Steady H calls conn (outcomeOf addressScript s verified verdict receivedAt) := by
    unfold outcomeOf
    split
    · exact onAccepted_steady (h _ _ rfl rfl) _
    · exact onRefusedByJob_steady _
    · exact onRefused_steady _ _
    · exact onRefused_steady _ _
  refine .bind houtcome fun outcome _ _ _ _ => .bind .state fun conn₁ _ _ _ _ => ?_
  exact .bind (.ask trivial) fun sent _ _ _ _ => .orFail sent

/-! ### Settling -/

theorem Steady.keeps {α : Type} {x : ShareHandler α} (hx : Steady H calls conn x) (h : conn.Sound H calls) :
    x.Ensures (creditMonitor H) conn calls fun _ conn' calls' => conn'.Sound H calls' :=
  hx.mono fun _ _ _ hleft => h.same hleft.1 hleft.2

theorem releaseUnanswered_steady : Steady H calls conn (releaseUnanswered verified) := by
  cases verified with
  | ok rebuilt => exact .ask trivial
  | error refusal => exact .pure ()

/-- Settling a share keeps the connection sound, whatever the outside answers. -/
theorem settle_sound (h : conn.Sound H calls) {parentHold : Option Instant}
    (hcoinbase : ∀ rebuilt, verified = .ok rebuilt → ∃ cb, rebuilt.OnCoinbase H s cb) :
    (settle addressScript s verified receivedAt parentHold).Ensures (creditMonitor H) conn calls
      fun _ conn' calls' => conn'.Sound H calls' := by
  unfold settle
  rw [Handler.ensures_bind, Handler.ensures_call]
  refine ⟨trivial, fun answered _ => ?_⟩
  obtain ⟨io, relayedBlocks⟩ := answered
  rw [Handler.then_ok, Handler.ensures_bind, Handler.ensures_state, Handler.then_ok]
  have hcalls : calls ⊆ calls ++ [⟨(.settle s verified receivedAt parentHold, conn), (io, relayedBlocks)⟩] :=
    List.subset_append_left _ _
  change Handler.Ensures (creditMonitor H) _ conn
    (calls ++ [⟨(.settle s verified receivedAt parentHold, conn), (io, relayedBlocks)⟩]) _
  have hproposals : proposals
      (calls ++ [⟨(.settle s verified receivedAt parentHold, conn), (io, relayedBlocks)⟩]) =
        proposals calls ++ (conn.shares.proposes io s verified receivedAt).toList := proposals_append _
  dsimp only
  cases hsettle : conn.shares.settle io relayedBlocks s verified receivedAt parentHold with
  | error e =>
      dsimp only
      refine (Steady.bind releaseUnanswered_steady fun _ _ conn' _ _ => ?_ :
        Steady H _ conn _).keeps (h.same (.refl conn) hcalls)
      exact ⟨.refl conn', List.Subset.refl _⟩
  | ok outcome =>
      obtain ⟨settled, shares⟩ := outcome
      obtain ⟨hshares, hvalidated⟩ := h.shares.settle hcoinbase hsettle
      rw [← hproposals] at hshares hvalidated
      have hsound : (setShares shares conn).Sound H
          (calls ++ [⟨(.settle s verified receivedAt parentHold, conn), (io, relayedBlocks)⟩]) := by
        refine ⟨hshares, fun share hmem rebuilt hverified => ?_⟩
        obtain hmem | hmem := List.mem_append.mp hmem
        · obtain hmem | ⟨rfl, hsame⟩ := ShareConnection.held_settle hsettle hmem hverified
          · exact h.coinbases share (List.mem_append_left _ hmem) rebuilt hverified
          · exact hcoinbase rebuilt hsame
        · exact h.coinbases share (List.mem_append_right _ hmem) rebuilt hverified
      cases settled with
      | held => exact hsound
      | answered verified' verdict =>
          dsimp only
          rw [Handler.ensures_bind, Handler.ensures_modify, Handler.then_ok]
          refine (answer_steady fun rebuilt txns hverified hvalid => ?_).keeps hsound
          subst hverified hvalid
          obtain ⟨rfl, p, hp⟩ := hvalidated rebuilt txns rfl
          exact ⟨⟨receivedAt, parentHold, conn, (io, relayedBlocks),
            List.mem_append_right _ (List.mem_singleton_self _)⟩, txns, p, hp⟩

/-! ### Verifying -/

/-- A share's block is rebuilt on the coinbase section its digest is of. -/
theorem rebuildShare_onCoinbase {config : ClientConfig} {splits : DictatedSplits} {nextTarget : Option Target}
    {job : JobSection} {cb : CoinbaseSection} {abwKey : Option XorKey} :
    Gives (fun rebuilt => rebuilt.OnCoinbase H s cb) (rebuildShare H config splits nextTarget job cb s abwKey) := by
  rw [rebuildShare]
  refine .ite (fun _ => .error _) fun _ => .bind fun parsed _ => .ite (fun _ => .error _) fun _ => ?_
  split
  · refine .ite (fun _ => .error _) fun _ => .bind fun payments _ => ?_
    split
    · exact .ok ⟨⟨_, rfl⟩, rfl⟩
    · exact .error _
  · exact .error _

theorem rebuild_onCoinbase {v : Verifier} {abw : Option AbwSlotState} :
    Gives (fun rebuilt => ∃ cb, rebuilt.OnCoinbase H s cb) (v.rebuild H s abw) := by
  rw [Verifier.rebuild]
  refine .bind fun _ _ => .bind fun sections _ => .bind fun key _ => .bind fun rebuilt hrebuilt => ?_
  have hcoinbase : rebuilt.OnCoinbase H s sections.2 := by
    cases hshare : rebuildShare H v.policy.config v.splits v.nextTarget sections.1 sections.2 s
        (key.map Prod.fst) with
    | error reason =>
        rw [hshare] at hrebuilt
        cases hrebuilt
    | ok share =>
        rw [hshare] at hrebuilt
        cases hrebuilt
        exact rebuildShare_onCoinbase rebuilt hshare
  split
  · exact .error _
  · exact .ok ⟨_, hcoinbase⟩

theorem verify_onCoinbase {v : Verifier} {abw : Option AbwSlotState} {now : Nat}
    (hverified : (v.verify H s abw now).1 = .ok rebuilt) : ∃ cb, rebuilt.OnCoinbase H s cb := by
  rw [Verifier.verify] at hverified
  cases hrebuild : v.rebuild H s abw with
  | error refusal =>
      rw [hrebuild] at hverified
      cases hverified
  | ok share =>
      rw [hrebuild] at hverified
      obtain ⟨cb, hcoinbase⟩ := rebuild_onCoinbase share hrebuild
      dsimp only at hverified
      split at hverified
      · cases hverified
        exact ⟨cb, hcoinbase.tx, hcoinbase.digest⟩
      · cases hverified

theorem generated_verify {v : Verifier} (h : v.Generated) (abw : Option AbwSlotState) (now : Nat) :
    (v.verify H s abw now).2.Generated := by
  obtain hkeeps | ⟨s', rawPowHash, now', job, cb, -, -, hkeeps, -⟩ := Verifier.after_cases H v (.verify s abw now)
  · exact h.keeps hkeeps
  · exact (h.withSections rawPowHash).keeps hkeeps

/-- A share that verified carries the digest of its coinbase. -/
theorem verifyAndClaim_sound (h : conn.Sound H calls) (now : Nat) :
    (verifyAndClaim H s now).Ensures (creditMonitor H) conn calls
      fun result conn' calls' => conn'.Sound H calls' ∧
        ∀ verified, result = .ok verified → ∀ rebuilt, verified = .ok rebuilt → ∃ cb, rebuilt.OnCoinbase H s cb := by
  unfold verifyAndClaim
  rw [Handler.ensures_bind, Handler.ensures_state, Handler.then_ok, Handler.ensures_bind, Handler.ensures_modify,
    Handler.then_ok]
  have hverified : Connection.Sound H calls
      (setShares { conn.shares with verifier := (conn.shares.verifier.verify H s conn.v3 now).2 } conn) :=
    ⟨h.shares.carries (Verifier.verify_carries H _ s conn.v3 now) (generated_verify h.shares.generated _ now),
      h.coinbases⟩
  cases hverify : (conn.shares.verifier.verify H s conn.v3 now).1 with
  | error refusal =>
      refine ⟨hverified, fun verified hresult rebuilt hok => ?_⟩
      obtain rfl := Except.ok.inj hresult
      cases hok
  | ok rebuilt =>
      dsimp only
      rw [Handler.ensures_bind, Handler.ensures_call]
      refine ⟨trivial, fun claimed _ => ⟨hverified.same (.refl _) (List.subset_append_left _ _), ?_⟩⟩
      intro verified hresult rebuilt' hok
      obtain rfl := Except.ok.inj hresult
      split at hok
      · obtain rfl := Except.ok.inj hok
        exact verify_onCoinbase hverify
      · cases hok

theorem onShare_sound (h : conn.Sound H calls) :
    (onShare H addressScript s).Ensures (creditMonitor H) conn calls fun _ conn' calls' => conn'.Sound H calls' := by
  unfold onShare
  rw [Handler.ensures_bind, Handler.ensures_call]
  refine ⟨trivial, fun now _ => ?_⟩
  rw [Handler.then_ok]
  have h' : conn.Sound H (calls ++ [⟨(.unixNow, conn), now⟩]) := h.same (.refl conn) (List.subset_append_left _ _)
  refine (verifyAndClaim_sound h' now.toNat).bind ?_ fun e conn₁ calls₁ h₁ => h₁.1
  rintro verified conn₁ calls₁ ⟨h₁, hcoinbase⟩
  rw [Handler.ensures_bind, Handler.ensures_call]
  refine ⟨trivial, fun instant _ => ?_⟩
  exact settle_sound (h₁.same (.refl conn₁) (List.subset_append_left _ _)) (hcoinbase verified rfl)

/-! ### Releasing -/

theorem resettle_sound (h : conn.Sound H calls) {share : HeldShare}
    (hcoinbase : ∀ rebuilt, share.verified = .ok rebuilt → ∃ cb, rebuilt.OnCoinbase H share.s cb) :
    (resettle H addressScript share).Ensures (creditMonitor H) conn calls
      fun _ conn' calls' => conn'.Sound H calls' := by
  unfold resettle
  split
  · exact settle_sound h hcoinbase
  · rw [Handler.ensures_bind, Handler.ensures_call]
    refine ⟨trivial, fun now _ => ?_⟩
    rw [Handler.then_ok]
    have h' : conn.Sound H (calls ++ [⟨(.unixNow, conn), now⟩]) := h.same (.refl conn) (List.subset_append_left _ _)
    refine (verifyAndClaim_sound h' now.toNat).bind ?_ fun e conn₁ calls₁ h₁ => h₁.1
    rintro verified conn₁ calls₁ ⟨h₁, hcoinbase₁⟩
    exact settle_sound h₁ (hcoinbase₁ verified rfl)

theorem resettleAll_sound (released : List HeldShare)
    (hcoinbases : ∀ share ∈ released, ∀ rebuilt, share.verified = .ok rebuilt →
      ∃ cb, rebuilt.OnCoinbase H share.s cb) (h : conn.Sound H calls) :
    (resettleAll H addressScript released).Ensures (creditMonitor H) conn calls
      fun _ conn' calls' => conn'.Sound H calls' := by
  induction released generalizing conn calls with
  | nil => exact h
  | cons share released ih =>
      obtain ⟨hshare, hcoinbases⟩ := List.forall_mem_cons.mp hcoinbases
      rw [resettleAll, Handler.ensures_bind, Handler.ensures_modify, Handler.then_ok]
      have h' : (setReleased released conn).Sound H calls := by
        refine ⟨h.shares, fun share' hmem => ?_⟩
        obtain hmem | hmem := List.mem_append.mp hmem
        · exact h.coinbases share' (List.mem_append_left _ hmem)
        · exact hcoinbases share' hmem
      exact (resettle_sound h' hshare).bind (fun _ conn₁ calls₁ h₁ => ih hcoinbases h₁)
        fun e conn₁ calls₁ h₁ => h₁

theorem releaseHeld_sound (h : conn.Sound H calls) (selected : HeldShare → Bool) :
    (releaseHeld H addressScript selected).Ensures (creditMonitor H) conn calls
      fun _ conn' calls' => conn'.Sound H calls' := by
  unfold releaseHeld
  rw [Handler.ensures_bind, Handler.ensures_modify, Handler.then_ok, Handler.ensures_bind, Handler.ensures_state,
    Handler.then_ok]
  have htaken : ∀ share ∈ (takeHeld selected conn).shares.held ++ (takeHeld selected conn).released,
      share ∈ conn.shares.held := by
    intro share hmem
    obtain hmem | hmem := List.mem_append.mp hmem
    · exact (List.mem_filter.mp hmem).1
    · exact (List.mem_filter.mp hmem).1
  have h' : (takeHeld selected conn).Sound H calls := by
    refine ⟨h.shares.withHeld _, fun share hmem => ?_⟩
    exact h.coinbases share (List.mem_append_left _ (htaken share hmem))
  exact resettleAll_sound _ (fun share hmem => h'.coinbases share (List.mem_append_right _ hmem)) h'

/-! ### The other turns -/

/-- A handler goes on with the shares changed. -/
theorem modify_sound {α : Type} {change : ShareConnection → ShareConnection} {next : ShareHandler α}
    (hnext : (changeShares change conn).Sound H calls →
      next.Ensures (creditMonitor H) (changeShares change conn) calls fun _ conn' calls' => conn'.Sound H calls')
    (h : (changeShares change conn).Sound H calls) :
    (do Handler.modify (changeShares change); next).Ensures (creditMonitor H) conn calls
      fun _ conn' calls' => conn'.Sound H calls' := by
  rw [Handler.ensures_bind, Handler.ensures_modify, Handler.then_ok]
  exact hnext h

/-- A request answered or given up, and the shares that waited for it settled. -/
theorem answerRequest_sound (h : conn.Sound H calls) {due : TxnRequest → Bool} {request : TxnRequest}
    (hfound : conn.shares.txnRequests.find? due = some request) (txns : JobTxns) :
    (changeShares (.setRequested request txns) (changeShares (.dropRequest due) conn)).Sound H calls :=
  ⟨h.shares.answerRequest hfound txns, h.coinbases⟩

theorem dropRequest_sound (h : conn.Sound H calls) (due : TxnRequest → Bool) :
    (changeShares (.dropRequest due) conn).Sound H calls :=
  ⟨h.shares.withRequests List.eraseP_sublist, h.coinbases⟩

theorem onBlockTxns_sound (h : conn.Sound H calls) (plain : Bytes) :
    (onBlockTxns H addressScript plain).Ensures (creditMonitor H) conn calls
      fun _ conn' calls' => conn'.Sound H calls' := by
  unfold onBlockTxns
  split
  · exact h
  · split
    · exact h
    · rename_i list _
      rw [Handler.ensures_bind, Handler.ensures_state, Handler.then_ok]
      cases hfound : conn.shares.txnRequests.find? (·.jobId = list.jobIndex) with
      | none => exact h
      | some request =>
          refine modify_sound (fun hdropped => ?_) (dropRequest_sound h _)
          unfold deliver
          rw [Handler.ensures_bind, Handler.ensures_state, Handler.then_ok]
          split
          · exact releaseHeld_sound hdropped _
          · exact modify_sound (fun hset => releaseHeld_sound hset _) (answerRequest_sound h hfound _)

theorem expireTxnRequest_sound (h : conn.Sound H calls) (now : Instant) :
    (expireTxnRequest H addressScript now).Ensures (creditMonitor H) conn calls
      fun _ conn' calls' => conn'.Sound H calls' := by
  unfold expireTxnRequest
  rw [Handler.ensures_bind, Handler.ensures_state, Handler.then_ok]
  cases hfound : conn.shares.txnRequests.find? (·.deadline ≤ now) with
  | none => exact h
  | some request =>
      refine modify_sound (fun _ => ?_) (dropRequest_sound h _)
      exact modify_sound (fun hset => releaseHeld_sound hset _) (answerRequest_sound h hfound _)

theorem releaseJobs_sound (jobs : List (UInt8 × Nat)) (h : conn.Sound H calls) :
    (releaseJobs H addressScript jobs).Ensures (creditMonitor H) conn calls
      fun _ conn' calls' => conn'.Sound H calls' := by
  induction jobs generalizing conn calls with
  | nil => exact h
  | cons job jobs ih =>
      obtain ⟨jobId, generation⟩ := job
      exact (releaseHeld_sound h _).bind (fun _ conn₁ calls₁ h₁ => ih h₁) fun e conn₁ calls₁ h₁ => h₁

theorem expireParentHolds_sound (h : conn.Sound H calls) (now : Instant) :
    (expireParentHolds H addressScript now).Ensures (creditMonitor H) conn calls
      fun _ conn' calls' => conn'.Sound H calls' := by
  unfold expireParentHolds
  rw [Handler.ensures_bind, Handler.ensures_state, Handler.then_ok]
  dsimp only
  split
  · exact releaseHeld_sound h _
  · exact h

theorem notifyTipChange_sound (h : conn.Sound H calls) (tip : Option Hash) (template : Option NextBlock) (now : Nat) :
    (notifyTipChange H addressScript tip template now).Ensures (creditMonitor H) conn calls
      fun _ conn' calls' => conn'.Sound H calls' := by
  unfold notifyTipChange
  rw [Handler.ensures_bind, Handler.ensures_state, Handler.then_ok]
  split
  · have hset := h.shares.generated.keeps (conn.shares.verifier.setTip_keeps tip now)
    refine modify_sound (fun hchanged => releaseHeld_sound hchanged _) ⟨?_, h.coinbases⟩
    exact h.shares.carries ((Verifier.setTip_carries _ tip now).trans (.of_jobs rfl rfl)) ⟨hset.below, hset.distinct⟩
  · exact ⟨h.shares.carries (.of_jobs rfl rfl) ⟨h.shares.generated.below, h.shares.generated.distinct⟩, h.coinbases⟩

/-- **Every turn of a connection's loop keeps it sound**, and records no share whose block is not validated. -/
theorem handler_sound (h : conn.Sound H calls) (turn : ConnectionTurn) :
    (turn.handler H addressScript).Ensures (creditMonitor H) conn calls
      fun _ conn' calls' => conn'.Sound H calls' := by
  cases turn with
  | share s => exact onShare_sound h
  | blockTxns plain => exact onBlockTxns_sound h plain
  | expireTxnRequest now => exact expireTxnRequest_sound h now
  | answerOrphanedHeld => exact releaseJobs_sound conn.orphaned h
  | expireParentHolds now => exact expireParentHolds_sound h now
  | tipChange tip template now => exact notifyTipChange_sound h tip template now
  | dictated value prevHash outputs now =>
      exact ⟨h.shares.carries (.of_jobs rfl rfl) ⟨h.shares.generated.below, h.shares.generated.distinct⟩,
        h.coinbases⟩
  | assigned v3 => exact ⟨h.shares, h.coinbases⟩

end Connection

/-! ### Every run -/

open Connection

variable {H : Hashing} {addressScript : AddressScript} {policy : SharePolicy} {trace : List ConnectionEvent}
  {program : ShareProgram}

theorem ConnectionEvent.calls_append (event : ConnectionEvent) : ConnectionEvent.calls (trace ++ [event]) =
    ConnectionEvent.calls trace ++ ConnectionEvent.calls [event] := List.filterMap_append

/-- Where a connection has come to, its handler meets the monitor and leaves it sound. -/
theorem connecting_meets (hrun : (connecting H addressScript policy).Run trace program) :
    program.Meets (creditMonitor H) (fun ended calls => ended.2.Sound H calls) (ConnectionEvent.calls trace) := by
  refine hrun.invariant (I := fun trace (program : ShareProgram) => program.Meets (creditMonitor H)
    (fun ended calls => ended.2.Sound H calls) (ConnectionEvent.calls trace)) ?_ ?_
  · rintro program ⟨splits, v3, rfl⟩
    exact ⟨.new policy splits, fun share hmem => by cases hmem⟩
  · intro trace program event program' hmeets hstep
    rw [ConnectionEvent.calls_append]
    cases hstep with
    | call answer => exact hmeets.2 answer trivial
    | turn turn =>
        have hquiet : ConnectionEvent.calls [ConnectionEvent.quiet] = [] := rfl
        rw [hquiet, List.append_nil]
        exact handler_sound hmeets turn

/-- **No share is credited on an unvalidated block.** In every run of a connection, jobs replaced, tips changed and
transactions delivered, given up and released in any order, a share goes to the ledger only when it was settled on
the connection and its job is installed, not evicted; and the node took a proposal of that job made on the
connection, with the transactions the job holds now, the digest of the share's coinbase, and a version that differs
from the share's in rolled bits only. -/
theorem credit_needs_validation {conn : Connection} {share : Share}
    {next : ShareOp.Answer (.record share) → ShareProgram}
    (hrun : (connecting H addressScript policy).Run trace (.call (.record share, conn) next)) :
    Credited H (ConnectionEvent.calls trace) conn share := (connecting_meets hrun).1

/-- After the calls of a handler, `n` of them at most. -/
def ShareProgram.runOn (env : (op : ShareOp) → op.Answer) : Nat → ShareProgram → ShareProgram
  | 0, program => program
  | _ + 1, .done ended => .done ended
  | n + 1, .call call next => runOn env n (next (env call.1))

theorem run_runOnCalls (env : (op : ShareOp) → op.Answer) (n : Nat)
    (hrun : (connecting H addressScript policy).Run trace program) :
    ∃ trace, (connecting H addressScript policy).Run trace (program.runOn env n) := by
  induction n generalizing trace program with
  | zero => exact ⟨trace, hrun⟩
  | succ n ih =>
      cases program with
      | done ended => exact ⟨trace, hrun⟩
      | call call next => exact ih (hrun.next (.call (env call.1)))

/-- A share sent on a new connection, up to the ledger. -/
def recordingShare : ShareProgram :=
  ShareProgram.runOn (quietAnswers (.ok none)) 4
    (newConnection.onShare Verifier.blankHashing (fun _ => some [])
      (Verifier.plainShare (Verifier.repeatedHash 0)))

def ShareProgram.records : ShareProgram → Bool
  | .call (.record _, _) _ => true
  | _ => false

theorem credit_needs_validation_first : ∃ trace conn share,
    Credited Verifier.blankHashing (ConnectionEvent.calls trace) conn share := by
  have hstart : (connecting Verifier.blankHashing (fun _ => some []) Verifier.untaggedPolicy).Run []
      (.done (.ok (), newConnection)) := .start ⟨.empty, none, rfl⟩
  obtain ⟨trace, hrun⟩ : ∃ trace, (connecting Verifier.blankHashing (fun _ => some [])
      Verifier.untaggedPolicy).Run trace recordingShare := run_runOnCalls (quietAnswers (.ok none)) 4
    (hstart.next (.turn (.share (Verifier.plainShare (Verifier.repeatedHash 0)))))
  have hrecords : recordingShare.records = true := by decide +kernel
  generalize hprogram : recordingShare = program at hrecords
  unfold ShareProgram.records at hrecords
  split at hrecords
  · rename_i share conn next
    exact ⟨trace, conn, share, credit_needs_validation (hprogram ▸ hrun)⟩
  · cases hrecords

end Ratum
