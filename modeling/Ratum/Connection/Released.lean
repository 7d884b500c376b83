import Ratum.Connection.Server
import Ratum.Verify.StaleVerdict

/-!
# A share refused without an assignment

Its claim is released on every way to its answer but one: `credit` refuses a share whose identity cannot be
paid and leaves its hash claimed. Where no such share reaches it, a hash is held for a share recorded, for one
under an assignment, or for one not answered, and a share that claimed nothing releases nothing.
-/

namespace Ratum

namespace Connection

open Handler

/-! ### What one share's handler calls -/

/-- A call that neither claims nor releases, of a handler that answers nothing. -/
def Aside : ShareOp × Connection → Prop
  | (.relay .., _) | (.receipt .., _) => True
  | (.hold s _ _, conn) => conn.assigns s = true
  | _ => False

def asides : Monitor (ShareOp × Connection) (fun call => ShareOp.Answer call.1) Unit where
  allows _ _ := True
  requires _ := Aside
  after _ _ := ()

/-- Follows whether a share was recorded: one answered as rejected was not, and only one that claimed its hash
has it released. -/
def handling (claimed : Prop) :
    Monitor (ShareOp × Connection) (fun call => ShareOp.Answer call.1) Bool where
  allows _ _ := True
  requires
    | recorded, (.respond _ _ response, _) => recorded = true → response.verdict = .accepted
    | _, (.remove _, _) => claimed
    | _, (.hold s _ _, conn) => conn.assigns s = true
    | _, _ => True
  after
    | _, ⟨(.record _, _), .ok _⟩ => true
    | recorded, _ => recorded

variable {addressScript : AddressScript} {claimed : Prop} {conn : Connection} {s : PowSubmit}
  {rebuilt : RebuiltShare} {receivedAt : Nat} {recorded : Bool} {α β : Type}

/-- Only makes calls aside. -/
abbrev OnlyAside (handler : ShareHandler α) (conn : Connection) : Prop :=
  handler.Ensures asides conn () fun _ _ _ => True

theorem OnlyAside.bind {handler : ShareHandler α} {f : α → ShareHandler β} (h : OnlyAside handler conn)
    (hnext : ∀ value conn, OnlyAside (f value) conn) : OnlyAside (handler >>= f) conn :=
  Ensures.bind h (fun value conn _ _ => hnext value conn) fun _ _ _ _ => trivial

theorem onlyAside_relayAndRecord (rebuilt : RebuiltShare) (txns : List Bytes) :
    OnlyAside (relayAndRecord s rebuilt txns receivedAt) conn := by
  unfold relayAndRecord
  rw [OnlyAside, ensures_bind, ensures_call]
  refine ⟨trivial, fun relayed _ => ?_⟩
  rw [then_ok]
  split <;> trivial

theorem onlyAside_receiptFor (share : Option RebuiltShare) : OnlyAside (receiptFor s share) conn := by
  unfold receiptFor
  split
  · split
    · unfold sendAbwReceipt
      rw [OnlyAside, ensures_bind, ensures_state, then_ok]
      split
      · trivial
      · rw [ensures_bind, ensures_call]
        refine ⟨trivial, fun sent _ => ?_⟩
        rw [then_ok, ensures_orFail]
        trivial
    · trivial
  · trivial

theorem onlyAside_mayReference (rebuilt : RebuiltShare) : OnlyAside (mayReference s rebuilt receivedAt) conn := by
  unfold mayReference
  rw [OnlyAside, ensures_bind, ensures_state, then_ok]
  split
  · trivial
  · rename_i hslot
    split
    · trivial
    · split
      · trivial
      · rw [ensures_bind, ensures_call]
        refine ⟨?_, fun _ _ => trivial⟩
        show (conn.abwSlotOf s).isSome = true
        rwa [Option.isNone_iff_eq_none, ← ne_eq, Option.ne_none_iff_isSome] at hslot

theorem onlyAside_onRefused (refusal : Refusal) (relay : Option (List Bytes)) :
    OnlyAside (onRefused s refusal relay receivedAt) conn := by
  unfold onRefused
  refine OnlyAside.bind ?_ fun _ _ => OnlyAside.bind ?_ fun _ _ =>
    (onlyAside_receiptFor _).bind fun _ _ => trivial
  · unfold relayRefused
    split
    · exact onlyAside_relayAndRecord _ _
    · trivial
  · unfold referenced
    split
    · trivial
    · exact (onlyAside_mayReference _).bind fun _ _ => trivial

/-- Calls aside change nothing for a share's handler. -/
theorem OnlyAside.handling {handler : ShareHandler α} (h : OnlyAside handler conn) :
    handler.Ensures (handling claimed) conn recorded fun _ _ recorded' => recorded' = recorded := by
  refine Prog.Meets.simulate (fun _ recorded' => recorded' = recorded) ?_ ?_ (fun _ _ _ h _ => h) h rfl
  · rintro _ recorded' ⟨op, conn⟩ _ haside
    cases op with
    | relay | receipt => trivial
    | hold => exact haside
    | _ => exact haside.elim
  · rintro _ recorded' ⟨⟨op, conn⟩, answer⟩ hsame haside _
    refine ⟨trivial, ?_⟩
    cases op with
    | record => exact haside.elim
    | _ => exact hsame

theorem creditShare_handling (hclaimed : claimed) (username : String) :
    (creditShare username rebuilt receivedAt).Ensures (handling claimed) conn false
      fun result _ recorded => (∃ answer, result = .ok answer) ∧ (recorded = true → result = .ok (.ok ())) := by
  unfold creditShare
  simp only [ensures_bind, ensures_call, then_ok]
  refine ⟨trivial, fun answer _ => ?_⟩
  cases answer with
  | ok _ => exact ⟨⟨_, rfl⟩, fun _ => rfl⟩
  | error e =>
      simp only [ensures_bind, ensures_call, then_ok]
      exact ⟨hclaimed, fun _ _ => ⟨⟨_, rfl⟩, fun hrecorded => by cases hrecorded⟩⟩

theorem credit_handling (hclaimed : claimed) :
    (credit addressScript s rebuilt receivedAt).Ensures (handling claimed) conn false
      fun result _ recorded => (∃ verdict, result = .ok verdict) ∧ (recorded = true → result = .ok .accepted) := by
  unfold credit
  split
  · exact ⟨⟨_, rfl⟩, fun hrecorded => by cases hrecorded⟩
  · refine (creditShare_handling hclaimed s.username).bind ?_ ?_
    · rintro answer conn recorded ⟨-, hrecorded⟩
      cases answer with
      | ok _ => exact ⟨⟨_, rfl⟩, fun _ => rfl⟩
      | error e => exact ⟨⟨_, rfl⟩, fun h => by cases hrecorded h⟩
    · rintro e conn recorded ⟨⟨_, hok⟩, -⟩
      cases hok

/-- What a share's handler that answers nothing leaves: a share recorded is accepted. -/
def AcceptsRecorded (result : Except IoError ShareOutcome) (recorded : Bool) : Prop :=
  recorded = true → ∀ outcome, result = .ok outcome → outcome.verdict = .accepted

theorem AcceptsRecorded.of_false {result : Except IoError ShareOutcome} (hnone : recorded = false) :
    AcceptsRecorded result recorded := by
  intro hrecorded
  cases hnone.symm.trans hrecorded

theorem onAccepted_handling (hclaimed : claimed) (txns : List Bytes) :
    (onAccepted addressScript s rebuilt txns receivedAt).Ensures (handling claimed) conn false
      fun result _ recorded => AcceptsRecorded result recorded := by
  unfold onAccepted
  have hrelay : OnlyAside (if rebuilt.meetsOwnBits then relayAndRecord s rebuilt txns receivedAt else pure ()) conn := by
    split
    · exact onlyAside_relayAndRecord _ _
    · trivial
  refine hrelay.handling.bind ?_ fun e conn recorded hnone => .of_false hnone
  rintro - conn recorded rfl
  rw [ensures_bind, ensures_modify, then_ok]
  refine (credit_handling hclaimed).bind ?_ ?_
  · rintro verdict conn recorded ⟨-, haccepted⟩
    refine (onlyAside_receiptFor _).handling.bind ?_ ?_
    · rintro - conn _ rfl hrecorded _ houtcome
      cases houtcome
      cases haccepted hrecorded
      rfl
    · rintro e conn _ rfl - outcome hok
      cases hok
  · rintro e conn recorded ⟨⟨_, hok⟩, -⟩
    cases hok

theorem onRefused_handling {refusal : Refusal} (relay : Option (List Bytes)) :
    (onRefused s refusal relay receivedAt).Ensures (handling claimed) conn false
      fun result _ recorded => AcceptsRecorded result recorded :=
  (onlyAside_onRefused refusal relay).handling.mono fun _ _ _ hnone => .of_false hnone

theorem onRefusedByJob_handling (hclaimed : claimed) (verdict : JobVerdict) :
    (onRefusedByJob s rebuilt verdict receivedAt).Ensures (handling claimed) conn false
      fun result _ recorded => AcceptsRecorded result recorded := by
  unfold onRefusedByJob
  rw [ensures_bind, ensures_state, then_ok, ensures_bind]
  split
  · exact ⟨hclaimed, fun _ _ => onRefused_handling _⟩
  · exact onRefused_handling _

theorem outcomeOf_handling {verified : Verified} (hclaimed : ∀ rebuilt, verified = .ok rebuilt → claimed)
    (verdict : JobVerdict) :
    (outcomeOf addressScript s verified verdict receivedAt).Ensures (handling claimed) conn false
      fun result _ recorded => AcceptsRecorded result recorded := by
  unfold outcomeOf
  split
  · exact onAccepted_handling (hclaimed _ rfl) _
  · exact onRefusedByJob_handling (hclaimed _ rfl) _
  · exact onRefused_handling _
  · exact onRefused_handling _

theorem answer_handling {verified : Verified} (hclaimed : ∀ rebuilt, verified = .ok rebuilt → claimed)
    (verdict : JobVerdict) :
    (answer addressScript s verified verdict receivedAt).Ensures (handling claimed) conn false
      fun _ _ _ => True := by
  unfold answer
  refine (outcomeOf_handling hclaimed verdict).bind ?_ fun _ _ _ _ => trivial
  intro outcome conn recorded haccepts
  simp only [ensures_bind, ensures_state, ensures_call, then_ok, ensures_orFail]
  exact ⟨fun hrecorded => haccepts hrecorded outcome rfl, fun _ _ => trivial⟩

/-- **How one share is handled**: answered as rejected it was not recorded, and refused before it claimed its
hash it releases none. -/
theorem settle_handling {verified : Verified} (hclaimed : ∀ rebuilt, verified = .ok rebuilt → claimed)
    (parentHold : Option Instant) :
    (settle addressScript s verified receivedAt parentHold).Ensures (handling claimed) conn false
      fun _ _ _ => True := by
  unfold settle
  simp only [ensures_bind, ensures_call, then_ok]
  refine ⟨trivial, ?_⟩
  rintro ⟨io, relayedBlocks⟩ -
  simp only [ensures_state, then_ok]
  cases hsettled : conn.shares.settle io relayedBlocks s verified receivedAt parentHold with
  | error e =>
      cases verified with
      | error refusal => trivial
      | ok rebuilt => exact ⟨hclaimed rebuilt rfl, fun _ _ => trivial⟩
  | ok outcome =>
      obtain ⟨settled, shares⟩ := outcome
      cases ShareConnection.settle_settles hsettled with
      | held => trivial
      | answered verdict _ hsame =>
          rw [ensures_bind, ensures_modify, then_ok]
          refine answer_handling (fun rebuilt hok => ?_) verdict
          rw [hok] at hsame
          cases verified with
          | error refusal => cases hsame
          | ok rebuilt => exact hclaimed rebuilt rfl

/-! ### A share refused -/

/-- What one share's handler may call, `verified` as it was when it claimed its hash or did not. -/
structure HandledOnce (verified : Verified) (program : ShareProgram) : Prop where
  /-- A share answered as rejected was not recorded. -/
  rejected : ∀ trace s verified response conn next,
    program.Path trace (.call (.respond s verified response, conn) next) → response.verdict ≠ .accepted →
      ∀ share conn', ⟨(.record share, conn'), .ok ()⟩ ∉ trace
  /-- A share that claimed nothing has no hash released, and one held only under an assignment. -/
  keeps : claimedHash verified = none → ∀ trace call next, program.Path trace (.call call next) →
    (∀ hash, call.1 ≠ .remove hash) ∧ ∀ s hash receivedAt, call.1 = .hold s hash receivedAt → call.2.assigns s = true

/-- A share recorded stays so. -/
theorem recorded_of_mem {trace : List ShareCall} {share : Share}
    (hmem : ⟨(.record share, conn), .ok ()⟩ ∈ trace) : (handling claimed).state false trace = true := by
  refine Monitor.state_of_mem _ (P := (· = true)) (fun _ => rfl) ?_ hmem false
  rintro recorded ⟨⟨op, conn⟩, answer⟩ hrecorded
  cases op with
  | record share => cases answer <;> [exact hrecorded; rfl]
  | _ => exact hrecorded

theorem handledOnce_settle (verified : Verified) (parentHold : Option Instant) :
    HandledOnce verified (settle addressScript s verified receivedAt parentHold conn) := by
  have hrequires : ∀ {trace call next},
      (settle addressScript s verified receivedAt parentHold conn).Path trace (.call call next) →
        (handling (∃ hash, claimedHash verified = some hash)).requires
          ((handling (∃ hash, claimedHash verified = some hash)).state false trace) call :=
    fun hpath => Prog.Meets.requires
      (settle_handling (fun rebuilt hok => ⟨rebuilt.blockHash, by rw [hok]; rfl⟩) parentHold) hpath
      (Monitor.allowed_of_allows _ fun _ _ => trivial)
  refine ⟨fun trace s verified' response conn next hpath hrejected share conn' hmem => ?_,
    fun hnone trace call next hpath => ?_⟩
  · exact hrejected (hrequires hpath (recorded_of_mem hmem))
  · have hrequired := hrequires hpath
    obtain ⟨op, conn'⟩ := call
    refine ⟨?_, ?_⟩
    · rintro hash rfl
      obtain ⟨claimed, hclaimed⟩ : ∃ hash, claimedHash verified = some hash := hrequired
      cases hnone.symm.trans hclaimed
    · rintro s hash receivedAt rfl
      exact hrequired

/-- Follows whether a claim was refused. -/
def refusals : Monitor (ShareOp × Connection) (fun call => ShareOp.Answer call.1) Prop where
  allows _ _ := True
  requires _ _ := True
  after
    | refused, ⟨(.claim _ _, _), claimed⟩ => refused ∨ claimed = false
    | refused, _ => refused

theorem verifyAndClaim_refusals (H : Hashing) (now : Nat) :
    (verifyAndClaim H s now).Ensures refusals conn False fun result _ refused =>
      refused → ∀ verified, result = .ok verified → claimedHash verified = none := by
  unfold verifyAndClaim
  simp only [ensures_bind, ensures_state, ensures_modify, then_ok]
  split
  · exact fun hrefused => hrefused.elim
  · simp only [ensures_bind, ensures_call, then_ok]
    refine ⟨trivial, fun claimed _ => ?_⟩
    intro hrefused verified hok
    obtain rfl : claimed = false := hrefused.resolve_left id
    cases hok
    rfl

theorem claimedHash_of_refused {H : Hashing} {now : Nat} {trace : List ShareCall} {verified : Verified}
    {conn' conn'' : Connection} {hash : Hash} {at_ : Nat}
    (hpath : (verifyAndClaim H s now conn).Path trace (.done (.ok verified, conn')))
    (hmem : ⟨(.claim hash at_, conn''), false⟩ ∈ trace) : claimedHash verified = none := by
  have hends := (verifyAndClaim_refusals H now).path hpath (Monitor.allowed_of_allows _ fun _ _ => trivial)
  refine hends (Monitor.state_of_mem _ (P := id) (fun refused => ?_) ?_ hmem False) verified rfl
  · exact Or.inr rfl
  rintro refused ⟨⟨op, conn⟩, answer⟩ hrefused
  cases op with
  | claim => exact Or.inl hrefused
  | _ => exact hrefused

end Connection

section Runs

open Connection

variable {ι : Type} {addressScript : AddressScript} {server : ShareServer ι}

/-- Why a hash may be held: for a share recorded, for one under an assignment, for one whose connection lost it,
or for one that was not answered yet. -/
inductive ShareServer.HeldFor (server : ShareServer ι) (hash : Hash) : Prop
  | recorded (h : hash ∈ server.ends.recorded)
  | assigned (h : hash ∈ server.ends.assigned)
  | lost (h : hash ∈ server.ends.lost)
  | unanswered (c : ι) (hclaim : hash ∈ (server.threads c).claims)
      (hwaits : hash ∈ (server.threads c).program.unanswered)

/-- What holds of the shares refused without an assignment, wherever a run has come to. -/
structure ShareServer.LeavesNoClaim (server : ShareServer ι) : Prop where
  /-- No hash is held for one that was answered. -/
  held : ∀ hash, server.accepted.contains hash → server.HeldFor hash
  /-- As it is answered, its claim is not open. -/
  answered : ∀ c s rebuilt response conn next,
    (server.threads c).program = .call (.respond s (.ok rebuilt) response, conn) next →
      conn.assigns s = false → response.verdict ≠ .accepted → rebuilt.blockHash ∉ (server.threads c).claims
  /-- A resend claims its hash. -/
  resent : ∀ hash now, ¬ server.HeldFor hash → (server.accepted.insert hash now).1 = true

theorem ShareThread.claims_subset_unanswered {strict lossless : Prop} {thread : ShareThread}
    (hkeeps : thread.Keeps addressScript strict lossless) : thread.claims ⊆ thread.program.unanswered := by
  rw [Keeps] at hkeeps
  generalize thread.program = program at hkeeps ⊢
  cases program with
  | done ended => exact hkeeps.rests.claims
  | call call next => exact hkeeps.1.1

theorem ShareServer.Accounted.leavesNoClaim {lossless : Prop}
    (h : server.Accounted addressScript True lossless) : server.LeavesNoClaim := by
  have hheld : ∀ hash, server.accepted.contains hash → server.HeldFor hash := by
    intro hash hmem
    obtain (hrecorded | hassigned | hleft | hlost) | ⟨c, hclaim⟩ := h.held hash hmem
    · exact .recorded hrecorded
    · exact .assigned hassigned
    · rw [h.left trivial] at hleft
      cases hleft
    · exact .lost hlost
    · exact .unanswered c hclaim (ShareThread.claims_subset_unanswered (h.threads c) hclaim)
  refine ⟨hheld, fun c s rebuilt response conn next hat hassigns _ => ?_, fun hash now hnone => ?_⟩
  · have hkeeps := h.threads c
    rw [ShareThread.Keeps, hat] at hkeeps
    exact hkeeps.1.2 trivial hassigns _ rfl
  · refine (Bool.eq_false_or_eq_true _).resolve_right fun hrefused => hnone (hheld hash ?_)
    exact AcceptedShareHashes.contains_of_refused hrefused

/-- **A share refused without an assignment leaves no claim**, in every run that refuses none only because its
identity cannot be paid. -/
theorem refused_share_leaves_no_claim [DecidableEq ι] {H : Hashing} {trace : List (ShareEvent ι)}
    (hrun : ((sharing H addressScript).restrict
      fun (_ : ShareServer ι) event => event.Pays addressScript).Run trace server) :
    server.LeavesNoClaim ∧
    (∀ s verified receivedAt parentHold conn,
      HandledOnce verified (Connection.settle addressScript s verified receivedAt parentHold conn)) ∧
    ∀ s now conn calls verified conn' hash at_ conn'',
      (Connection.verifyAndClaim H s now conn).Path calls (.done (.ok verified, conn')) →
        ⟨(.claim hash at_, conn''), false⟩ ∈ calls → claimedHash verified = none := by
  refine ⟨?_, fun s verified receivedAt parentHold conn => handledOnce_settle verified parentHold,
    fun s now conn calls verified conn' hash at_ conn'' => claimedHash_of_refused⟩
  have hfits : ((sharing H addressScript).restrict fun (server : ShareServer ι) event =>
      event.Fits addressScript True False server).Run trace server :=
    hrun.mono fun _ _ hpays => ⟨fun _ => hpays, False.elim⟩
  exact (accounted_of_run hfits).leavesNoClaim

end Runs

/-! ### A username that is no address -/

/-- The clock stands, every write succeeds and the node gives one answer. -/
def quietAnswers (proposal : NodeAnswer) : (op : ShareOp) → op.Answer
  | .unixNow => 0
  | .instantNow _ => (0 : Nat)
  | .claim .. => true
  | .remove _ | .hold .. => ()
  | .settle .. => (⟨0, .ok (), proposal⟩, .new 0)
  | .relay .. => none
  | .record _ | .receipt .. | .respond .. => .ok ()

def newConnection : Connection := ⟨⟨.new Verifier.untaggedPolicy, [], []⟩, none, []⟩

def newServer : ShareServer Unit where
  accepted := .fromRows [] 0
  ends := ⟨[], [], [], []⟩
  threads _ := .rests newConnection

/-- A connection's share on a job without transactions, all of whose hashes are zero. -/
def zeroShareOn (addressScript : AddressScript) : ShareServer Unit :=
  newServer.move () (newConnection.onShare Verifier.blankHashing addressScript
    (Verifier.plainShare (Verifier.repeatedHash 0)))

/-- After the share is answered. -/
def zeroShareAnswered (addressScript : AddressScript) (proposal : NodeAnswer) : ShareServer Unit :=
  (zeroShareOn addressScript).runOn (quietAnswers proposal) () 6

theorem run_zeroShareAnswered (addressScript : AddressScript) (proposal : NodeAnswer)
    (allowed : ShareServer Unit → ShareEvent Unit → Prop) (hquiet : ∀ server, allowed server .quiet)
    (hcalled : ∀ server call, allowed server (.called () call)) :
    ∃ trace, ((sharing Verifier.blankHashing addressScript).restrict allowed).Run trace
      (zeroShareAnswered addressScript proposal) := by
  have hstart : ((sharing Verifier.blankHashing addressScript).restrict allowed).Run [] newServer :=
    .start ⟨[], 0, fun _ => .new Verifier.untaggedPolicy, fun _ => none, rfl⟩
  have hshare : ((sharing Verifier.blankHashing addressScript).restrict allowed).Run [.quiet]
      (zeroShareOn addressScript) := hstart.next ⟨hquiet _, .share _ rfl rfl⟩
  exact run_runOn hshare () hcalled (quietAnswers proposal) 6

theorem refused_share_leaves_no_claim_by_node : ∃ trace, ∃ server : ShareServer Unit,
    ((sharing Verifier.blankHashing fun _ => some []).restrict
      fun (_ : ShareServer Unit) event => event.Pays fun _ => some []).Run trace server ∧
    server.LeavesNoClaim ∧ (server.accepted.insert (Verifier.repeatedHash 0) 0).1 = true := by
  have hpays : ∀ call : ShareCall, Connection.PaysIfValid (fun _ => some []) call := by
    rintro ⟨⟨op, conn⟩, answer⟩
    cases op with
    | settle => exact fun _ _ _ _ _ => rfl
    | _ => trivial
  obtain ⟨trace, hrun⟩ := run_zeroShareAnswered (fun _ => some []) (.ok (some "bad-version"))
    (fun _ event => event.Pays fun _ => some []) (fun _ => trivial) (fun _ call => hpays call)
  exact ⟨trace, _, hrun, (refused_share_leaves_no_claim hrun).1, by decide +kernel⟩

/-- The share of a username that is no address is refused with its hash claimed; sent again with one that is, it
is duplicate work. -/
theorem unpayable_share_leaves_claim : ∃ trace, ∃ server : ShareServer Unit,
    (sharing Verifier.blankHashing fun address => if address = "p" then some [] else none).Run trace server ∧
    Verifier.repeatedHash 0 ∈ server.ends.left ∧
    (server.accepted.insert (Verifier.repeatedHash 0) 0).1 = false ∧ ¬ server.LeavesNoClaim := by
  obtain ⟨trace, hrun⟩ := run_zeroShareAnswered
    (fun address => if address = "p" then some [] else none) (.ok none) (fun _ _ => True) (fun _ => trivial) (fun _ _ => trivial)
  refine ⟨trace, _, hrun.of_restrict, by decide +kernel, by decide +kernel, fun hleaves => ?_⟩
  have hheld : (zeroShareAnswered (fun address => if address = "p" then some [] else none)
      (.ok none)).HeldFor (Verifier.repeatedHash 0) := hleaves.held _ (by decide +kernel)
  cases hheld with
  | recorded h => exact absurd h (by decide +kernel)
  | assigned h => exact absurd h (by decide +kernel)
  | lost h => exact absurd h (by decide +kernel)
  | unanswered c h => exact absurd h (by cases c; decide +kernel)

end Ratum
