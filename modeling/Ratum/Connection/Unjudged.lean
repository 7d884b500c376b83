import Ratum.Connection.Dropped

/-!
# A held share is not judged

`settle` answers a resend of a held share as duplicate work, with no reference, when the resend is refused as
duplicate work or as stale. Refused for another reason it is answered as any share is, with the reference and
the receipt of the hash the held share has. Where no resend is, what is sent for a hash is sent while no share
of it waits.
-/

namespace Ratum

namespace ShareConnection

variable {conn conn' : ShareConnection} {io : SettleInputs} {relayedBlocks : BoundedSet Hash} {s : PowSubmit}
  {verified : Verified} {receivedAt : Nat} {parentHold : Option Instant}

/-! ### What `settle` makes of a share -/

/-- The arm of `settle` for a resend of a held share. -/
def resends (conn : ShareConnection) (refusal : Refusal) : Bool :=
  (refusal.reason = .duplicateWork || refusal.reason = .staleBlock) &&
    refusal.rebuilt.any fun rebuilt => conn.holds rebuilt.blockHash

/-- A share no job decides is answered at once. -/
theorem settleVerified_unjudged (hjudged : conn.judged relayedBlocks verified = none) :
    conn.settleVerified io relayedBlocks s verified receivedAt = .ok (.answered verified .notNeeded, conn) := by
  rw [settleVerified, jobVerdict, hjudged]
  rfl

/-- **A resend of a held share** is answered at once, with no share rebuilt. -/
theorem settle_resent {refusal : Refusal} (hresends : conn.resends refusal = true) :
    conn.settle io relayedBlocks s (.error refusal) receivedAt parentHold =
      .ok (.answered (.error ⟨.duplicateWork, none⟩) .notNeeded, conn) := by
  obtain ⟨reason, rebuilt⟩ := refusal
  cases rebuilt with
  | none => simp [resends] at hresends
  | some rebuilt =>
      rw [resends, Option.any_some] at hresends
      unfold settle
      dsimp only
      rw [if_pos hresends]
      exact settleVerified_unjudged rfl

/-- How a share that is no resend of a held one is settled: as it was verified. -/
inductive KeepsVerified (conn : ShareConnection) (verified : Verified) : Settled → ShareConnection → Prop
  | held {conn' : ShareConnection} (share : HeldShare) (hheld : conn'.held = conn.held ++ [share])
      (hverified : share.verified = verified) : KeepsVerified conn verified .held conn'
  | answered {conn' : ShareConnection} (verdict : JobVerdict) (hheld : conn'.held = conn.held) :
      KeepsVerified conn verified (.answered verified verdict) conn'

theorem settleVerified_keeps {settled : Settled}
    (hsettled : conn.settleVerified io relayedBlocks s verified receivedAt = .ok (settled, conn')) :
    KeepsVerified conn verified settled conn' := by
  unfold settleVerified at hsettled
  cases hverdict : conn.jobVerdict io relayedBlocks s verified receivedAt with
  | error e =>
      rw [hverdict] at hsettled
      cases hsettled
  | ok judged =>
      obtain ⟨verdict, conn₁⟩ := judged
      rw [hverdict] at hsettled
      have hheld := held_jobVerdict hverdict
      cases verdict with
      | pending generation =>
          simp only [bind, Except.bind] at hsettled
          split at hsettled
          · cases hsettled
            exact .held { s, verified, generation, receivedAt, awaiting := .txns } (by rw [hold, hheld]) rfl
          · cases hsettled
            exact .answered _ hheld
      | _ =>
          cases hsettled
          exact .answered _ hheld

theorem settle_keeps {settled : Settled}
    (hnew : ∀ refusal, verified = .error refusal → conn.resends refusal = false)
    (hsettled : conn.settle io relayedBlocks s verified receivedAt parentHold = .ok (settled, conn')) :
    KeepsVerified conn verified settled conn' := by
  unfold settle at hsettled
  split at hsettled
  · rename_i reason rebuilt
    have hresends := hnew _ rfl
    rw [resends, Option.any_some] at hresends
    rw [hresends, if_neg Bool.false_ne_true] at hsettled
    split at hsettled
    · split at hsettled
      · cases hsettled
        exact .held _ rfl rfl
      · exact settleVerified_keeps hsettled
    · exact settleVerified_keeps hsettled
  · exact settleVerified_keeps hsettled

/-- A refused share that is no block to relay, and that is not stale, is answered at once. -/
theorem settle_unrelayed {refusal : Refusal} {rebuilt : RebuiltShare} (hnew : conn.resends refusal = false)
    (hrebuilt : refusal.rebuilt = some rebuilt) (hstale : refusal.reason ≠ .staleBlock)
    (hrelayable : conn.verifier.relayable rebuilt = false) :
    conn.settle io relayedBlocks s (.error refusal) receivedAt parentHold =
      .ok (.answered (.error refusal) .notNeeded, conn) := by
  obtain ⟨reason, _⟩ := refusal
  obtain rfl := hrebuilt
  have hjudged : conn.judged relayedBlocks (.error ⟨reason, some rebuilt⟩) = none := by
    rw [judged, hrelayable, Bool.false_and, if_neg Bool.false_ne_true]
  rw [resends, Option.any_some] at hnew
  unfold settle
  dsimp only
  rw [hnew, if_neg Bool.false_ne_true]
  split
  · exact absurd rfl hstale
  · exact settleVerified_unjudged hjudged

end ShareConnection

namespace Connection

open Handler Verifier

/-! ### What is sent for a share -/

/-- The hashes that the shares that wait rebuilt to. -/
def rebuiltHashes (conn : Connection) : List Hash :=
  (conn.shares.held ++ conn.released).filterMap HeldShare.hash

/-- Whether the answer to a refused share may reference it, as `may_reference` decides. -/
def references (conn : Connection) (s : PowSubmit) (rebuilt : RebuiltShare) (receivedAt : Nat) : Bool :=
  conn.assigns s &&
    (!meetsShareTarget s rebuilt || decide (s.blockTime.toNat ≤ satAdd64 receivedAt NTIME_WINDOW_SECS))

/-- A share refused as a resend of a held one is, or else, not as stale, no block to relay and not to be
referenced. -/
def RefusedResend (conn : Connection) (s : PowSubmit) (receivedAt : Nat) (rebuilt : RebuiltShare) : Verified → Prop
  | .ok _ => False
  | .error refusal => conn.shares.resends refusal = true ∨
      refusal.reason ≠ .staleBlock ∧ conn.shares.verifier.relayable rebuilt = false ∧
        conn.references s rebuilt receivedAt = false

instance {conn : Connection} {s : PowSubmit} {receivedAt : Nat} {rebuilt : RebuiltShare} :
    DecidablePred (conn.RefusedResend s receivedAt rebuilt)
  | .ok _ => instDecidableFalse
  | .error _ => inferInstanceAs (Decidable (_ ∨ _))

/-- A share verified, on arrival or anew, that rebuilt to the hash of one that waits is a resend refused so. -/
def ResendsRefused : ShareCall → Prop
  | ⟨(.settle s verified receivedAt (some _), conn), _⟩ =>
      ∀ rebuilt ∈ answeredShare verified, rebuilt.blockHash ∈ conn.rebuiltHashes →
        conn.RefusedResend s receivedAt rebuilt verified
  | _ => True

instance : DecidablePred ResendsRefused
  | ⟨(.settle s verified receivedAt (some _), conn), _⟩ =>
      inferInstanceAs (Decidable (∀ rebuilt ∈ answeredShare verified, _ → RefusedResend conn s receivedAt _ _))
  | ⟨(.settle _ _ _ none, _), _⟩ | ⟨(.unixNow, _), _⟩ | ⟨(.instantNow _, _), _⟩ | ⟨(.claim .., _), _⟩
  | ⟨(.remove _, _), _⟩ | ⟨(.hold .., _), _⟩ | ⟨(.relay .., _), _⟩ | ⟨(.record _, _), _⟩
  | ⟨(.receipt .., _), _⟩ | ⟨(.respond .., _), _⟩ => instDecidableTrue

/-- A reference or a receipt is for the share it names, and no share that waits has its hash. -/
def Unheld (conn : Connection) (ref : CandidateRef) (rebuilt : RebuiltShare) : Prop :=
  ref.rawPowHashLe = rebuilt.rawPowHash.reverse ∧ rebuilt.blockHash ∉ conn.rebuiltHashes

def SendsUnheld : ShareOp × Connection → Prop
  | (.receipt _ rebuilt candidate, conn) => conn.Unheld candidate rebuilt
  | (.respond _ verified response, conn) =>
      ∀ ref, response.abwRef = some ref →
        ∃ rebuilt, answeredShare verified = some rebuilt ∧ conn.Unheld ref rebuilt
  | _ => True

def judging : Monitor (ShareOp × Connection) (fun call => ShareOp.Answer call.1) Unit where
  allows _ called := ResendsRefused called
  requires _ call := SendsUnheld call
  after _ _ := ()

/-- Sends nothing for a share that waits, and ends as the postcondition says. -/
abbrev Judges {α : Type} (handler : ShareHandler α) (conn : Connection)
    (post : Except IoError α → Connection → Prop) : Prop :=
  handler.Ensures judging conn () fun result conn' _ => post result conn'

variable {addressScript : AddressScript} {conn conn' : Connection} {s : PowSubmit} {rebuilt : RebuiltShare}
  {receivedAt : Nat} {hash : Hash}

theorem Same.rebuiltHashes (h : Same conn conn') : conn'.rebuiltHashes = conn.rebuiltHashes := by
  rw [Connection.rebuiltHashes, Connection.rebuiltHashes, h.shares, h.released]

theorem Same.references (h : Same conn conn') :
    conn'.references s rebuilt receivedAt = conn.references s rebuilt receivedAt := by
  rw [Connection.references, Connection.references, h.assigns]

theorem relayAndRecord_judges (rebuilt : RebuiltShare) (txns : List Bytes) :
    Judges (relayAndRecord s rebuilt txns receivedAt) conn
      fun result conn' => result = .ok () ∧ Same conn conn' := by
  unfold relayAndRecord
  rw [Judges, ensures_bind, ensures_call]
  refine ⟨trivial, fun relayed _ => ?_⟩
  rw [then_ok]
  split
  · exact ⟨rfl, same_notePublishedSlot s conn⟩
  · exact ⟨rfl, same_notePublishedSlot s conn⟩
  · exact ⟨rfl, .refl conn⟩

theorem receiptFor_judges {share : Option RebuiltShare}
    (hfree : ∀ rebuilt, share = some rebuilt → rebuilt.blockHash ∉ conn.rebuiltHashes) :
    Judges (receiptFor s share) conn fun _ conn' => conn' = conn := by
  unfold receiptFor
  split
  · rename_i rebuilt
    split
    · unfold sendAbwReceipt
      rw [Judges, ensures_bind, ensures_state, then_ok]
      split
      · rfl
      · rw [ensures_bind, ensures_call]
        refine ⟨⟨rfl, hfree rebuilt rfl⟩, fun sent _ => ?_⟩
        rw [then_ok, ensures_orFail]
    · rfl
  · rfl

theorem credit_judges : Judges (credit addressScript s rebuilt receivedAt) conn fun result conn' =>
    (∃ verdict, result = .ok verdict) ∧ conn' = conn := by
  unfold credit
  split
  · exact ⟨⟨_, rfl⟩, rfl⟩
  · unfold creditShare
    simp only [Judges, ensures_bind, ensures_call, then_ok]
    refine ⟨trivial, fun recorded _ => ?_⟩
    cases recorded with
    | ok _ => exact ⟨⟨_, rfl⟩, rfl⟩
    | error e =>
        simp only [ensures_bind, ensures_call, then_ok]
        exact ⟨trivial, fun _ _ => ⟨⟨_, rfl⟩, rfl⟩⟩

/-- What a share's handler leaves before its answer: the shares as they were, and, where it references a share,
the hash of the one rebuilt, for which none waits. -/
def AnswersUnheld (share : Option RebuiltShare) (conn : Connection) (result : Except IoError ShareOutcome)
    (conn' : Connection) : Prop :=
  Same conn conn' ∧ ∀ outcome rawPowHash, result = .ok outcome → outcome.rawPowHash = some rawPowHash →
    ∃ rebuilt, share = some rebuilt ∧ rawPowHash = rebuilt.rawPowHash ∧ rebuilt.blockHash ∉ conn.rebuiltHashes

theorem onAccepted_judges (hfree : rebuilt.blockHash ∉ conn.rebuiltHashes) (txns : List Bytes) :
    Judges (onAccepted addressScript s rebuilt txns receivedAt) conn (AnswersUnheld (some rebuilt) conn) := by
  unfold onAccepted
  have hrelay : Judges (if rebuilt.meetsOwnBits then relayAndRecord s rebuilt txns receivedAt else pure ()) conn
      fun result conn' => result = .ok () ∧ Same conn conn' := by
    split
    · exact relayAndRecord_judges rebuilt txns
    · exact ⟨rfl, .refl conn⟩
  refine Ensures.bind hrelay ?_ fun e conn' _ h => by cases h.1
  rintro - conn₁ - ⟨-, hrelayed⟩
  rw [ensures_bind, ensures_modify, then_ok]
  have hnoted := hrelayed.trans (same_noteShare conn₁)
  refine Ensures.bind credit_judges ?_ ?_
  · rintro verdict _ - ⟨-, rfl⟩
    refine Ensures.bind (receiptFor_judges ?_) ?_ ?_
    · rintro _ heq
      obtain rfl := Option.some.inj heq
      rwa [hnoted.rebuiltHashes]
    · rintro - _ - rfl
      refine ⟨hnoted, fun outcome rawPowHash hok hraw => ?_⟩
      obtain rfl := Except.ok.inj hok
      exact ⟨rebuilt, rfl, (Option.some.inj hraw).symm, hfree⟩
    · rintro e _ - rfl
      exact ⟨hnoted, fun outcome rawPowHash hok => by cases hok⟩
  · rintro e conn₂ - ⟨⟨_, hok⟩, -⟩
    cases hok

/-- **`may_reference`** answers as the share and its arrival say. -/
theorem mayReference_judges : Judges (mayReference s rebuilt receivedAt) conn fun result conn' =>
    result = .ok (conn.references s rebuilt receivedAt) ∧ conn' = conn := by
  unfold mayReference
  rw [Judges, ensures_bind, ensures_state, then_ok]
  split
  · rename_i hnone
    refine ⟨?_, rfl⟩
    rw [references, assigns, Option.isNone_iff_eq_none.mp hnone]
    rfl
  · rename_i hslot
    have hassigns : conn.assigns s = true := by
      rwa [Option.isNone_iff_eq_none, ← ne_eq, Option.ne_none_iff_isSome] at hslot
    rw [references, hassigns, Bool.true_and]
    split
    · rename_i hmeets
      rw [hmeets]
      exact ⟨rfl, rfl⟩
    · rename_i hmeets
      rw [Bool.eq_false_iff.mpr hmeets, Bool.false_or]
      split
      · rename_i hpast
        exact ⟨congrArg Except.ok (decide_eq_false (Nat.not_le.mpr hpast)).symm, rfl⟩
      · rename_i hpast
        rw [ensures_bind, ensures_call]
        exact ⟨trivial, fun _ _ => ⟨congrArg Except.ok (decide_eq_true (Nat.not_lt.mp hpast)).symm, rfl⟩⟩

theorem onRefused_judges (refusal : Refusal) (relay : Option (List Bytes))
    (hfree : ∀ rebuilt, refusal.rebuilt = some rebuilt →
      rebuilt.blockHash ∉ conn.rebuiltHashes ∨ conn.references s rebuilt receivedAt = false) :
    Judges (onRefused s refusal relay receivedAt) conn (AnswersUnheld refusal.rebuilt conn) := by
  unfold onRefused
  have hrelay : Judges (relayRefused s receivedAt refusal.rebuilt relay) conn
      fun result conn' => result = .ok () ∧ Same conn conn' := by
    unfold relayRefused
    split
    · exact relayAndRecord_judges _ _
    · exact ⟨rfl, .refl conn⟩
  refine Ensures.bind hrelay ?_ fun e conn' _ h => by cases h.1
  rintro - conn₁ - ⟨-, hsame⟩
  have hreferenced : Judges (referenced s receivedAt refusal.rebuilt) conn₁ fun result conn' =>
      ∃ share, result = .ok share ∧ conn' = conn₁ ∧ ∀ rebuilt, share = some rebuilt →
        refusal.rebuilt = some rebuilt ∧ rebuilt.blockHash ∉ conn.rebuiltHashes := by
    unfold referenced
    split
    · exact ⟨none, rfl, rfl, fun rebuilt hshare => by cases hshare⟩
    · rename_i rebuilt hrebuilt
      refine Ensures.bind mayReference_judges ?_ fun e conn' _ h => by cases h.1
      rintro may _ - ⟨hmay, rfl⟩
      refine ⟨_, rfl, rfl, fun share hshare => ?_⟩
      cases may with
      | false => cases hshare
      | true =>
          obtain rfl := Option.some.inj hshare
          rw [hsame.references] at hmay
          refine ⟨hrebuilt, (hfree rebuilt hrebuilt).resolve_right fun hnot => ?_⟩
          cases (Except.ok.inj hmay).trans hnot
  refine Ensures.bind hreferenced ?_ fun e conn' _ h => by obtain ⟨share, hok, -⟩ := h; cases hok
  rintro share _ - ⟨_, hok, rfl, hshare⟩
  obtain rfl := Except.ok.inj hok
  refine Ensures.bind (receiptFor_judges ?_) ?_ ?_
  · intro rebuilt heq
    rw [hsame.rebuiltHashes]
    exact (hshare rebuilt heq).2
  · rintro - _ - rfl
    refine ⟨hsame, fun outcome rawPowHash hok hraw => ?_⟩
    obtain rfl := Except.ok.inj hok
    obtain ⟨rebuilt, heq, rfl⟩ := Option.map_eq_some_iff.mp hraw
    exact ⟨rebuilt, (hshare rebuilt heq).1, rfl, (hshare rebuilt heq).2⟩
  · rintro e _ - rfl
    exact ⟨hsame, fun outcome rawPowHash hok => by cases hok⟩

theorem onRefusedByJob_judges (hfree : rebuilt.blockHash ∉ conn.rebuiltHashes) (verdict : JobVerdict) :
    Judges (onRefusedByJob s rebuilt verdict receivedAt) conn (AnswersUnheld (some rebuilt) conn) := by
  unfold onRefusedByJob
  rw [Judges, ensures_bind, ensures_state, then_ok]
  have hrelease : Judges (if (conn.abwSlotOf s).isNone then ask (.remove rebuilt.blockHash) else pure ()) conn
      fun result conn' => result = .ok () ∧ conn' = conn := by
    split
    · exact ⟨trivial, fun _ _ => ⟨rfl, rfl⟩⟩
    · exact ⟨rfl, rfl⟩
  refine Ensures.bind hrelease ?_ fun e conn' _ h => by cases h.1
  rintro - _ - ⟨-, rfl⟩
  refine onRefused_judges ⟨_, some rebuilt⟩ _ fun share hshare => .inl ?_
  obtain rfl := Option.some.inj hshare
  exact hfree

/-- A share answered sends nothing for a hash that waits: none waits for its own, or it may not be referenced. -/
theorem answer_judges {verified : Verified} (verdict : JobVerdict)
    (hfree : ∀ rebuilt, answeredShare verified = some rebuilt → rebuilt.blockHash ∉ conn.rebuiltHashes ∨
      verified.toOption = none ∧ conn.references s rebuilt receivedAt = false) :
    Judges (answer addressScript s verified verdict receivedAt) conn fun _ conn' => Same conn conn' := by
  have houtcome : Judges (outcomeOf addressScript s verified verdict receivedAt) conn
      (AnswersUnheld (answeredShare verified) conn) := by
    cases verified with
    | ok rebuilt =>
        have hnone : rebuilt.blockHash ∉ conn.rebuiltHashes :=
          (hfree rebuilt rfl).resolve_right fun hrefused => by cases hrefused.1
        unfold outcomeOf
        cases verdict with
        | valid txns => exact onAccepted_judges hnone txns
        | notNeeded | pending | relayOnly | invalid | unchecked => exact onRefusedByJob_judges hnone _
    | error refusal =>
        have hrefused (relay : Option (List Bytes)) := onRefused_judges refusal relay
          fun rebuilt hrebuilt => (hfree rebuilt hrebuilt).imp_right And.right
        unfold outcomeOf
        cases verdict with
        | relayOnly txns => exact hrefused (some txns)
        | notNeeded | pending | valid | invalid | unchecked => exact hrefused none
  unfold answer
  refine Ensures.bind houtcome ?_ fun e conn' _ h => h.1
  rintro outcome conn₁ - ⟨hsame, hsent⟩
  simp only [ensures_bind, ensures_state, ensures_call, then_ok, ensures_orFail]
  refine ⟨fun ref href => ?_, fun _ _ => hsame⟩
  obtain ⟨rawPowHash, hraw, hslot⟩ := Option.bind_eq_some_iff.mp href
  obtain ⟨slot, -, rfl⟩ := Option.map_eq_some_iff.mp hslot
  obtain ⟨rebuilt, hrebuilt, rfl, hnone⟩ := hsent outcome rawPowHash rfl hraw
  refine ⟨rebuilt, hrebuilt, rfl, ?_⟩
  rwa [hsame.rebuiltHashes]

/-! ### Settling -/

/-- The shares that wait rebuilt to different hashes. -/
def Distinct (conn : Connection) : Prop := conn.rebuiltHashes.Nodup

theorem Distinct.of_held {shares : ShareConnection} (h : conn.Distinct) (hheld : shares.held = conn.shares.held) :
    (setShares shares conn).Distinct := by
  rw [Distinct, rebuiltHashes, setShares, hheld]
  exact h

theorem rebuiltHashes_setShares {shares : ShareConnection} (hheld : shares.held = conn.shares.held) :
    (setShares shares conn).rebuiltHashes = conn.rebuiltHashes := by
  rw [rebuiltHashes, rebuiltHashes, setShares, hheld]

theorem hash_eq (share : HeldShare) :
    share.hash = (answeredShare share.verified).map RebuiltShare.blockHash := by
  rw [HeldShare.hash]
  cases share.verified <;> rfl

/-- A share held for whose hash none waits keeps the shares apart. -/
theorem Distinct.hold {shares : ShareConnection} {share : HeldShare} (h : conn.Distinct)
    (hheld : shares.held = conn.shares.held ++ [share])
    (hfree : ∀ rebuilt, answeredShare share.verified = some rebuilt → rebuilt.blockHash ∉ conn.rebuiltHashes) :
    (setShares shares conn).Distinct := by
  have hperm : (setShares shares conn).rebuiltHashes.Perm (share.hash.toList ++ conn.rebuiltHashes) := by
    have hshare : [share].filterMap HeldShare.hash = share.hash.toList := by
      cases hhash : share.hash <;> simp [hhash]
    rw [rebuiltHashes, setShares, hheld, rebuiltHashes, List.filterMap_append, List.filterMap_append,
      List.filterMap_append, hshare, ← List.append_assoc]
    exact List.perm_append_comm.append_right _
  refine hperm.nodup_iff.mpr ?_
  cases hhash : share.hash with
  | none => exact h
  | some hash =>
      rw [hash_eq] at hhash
      obtain ⟨rebuilt, hrebuilt, rfl⟩ := Option.map_eq_some_iff.mp hhash
      exact List.nodup_cons.mpr ⟨hfree rebuilt hrebuilt, h⟩

/-- A share for whose hash none waits is no resend of a held one. -/
theorem resends_eq_false {refusal : Refusal}
    (hnone : ∀ rebuilt, refusal.rebuilt = some rebuilt → rebuilt.blockHash ∉ conn.rebuiltHashes) :
    conn.shares.resends refusal = false := by
  rw [ShareConnection.resends, Bool.and_eq_false_iff]
  right
  rw [← Bool.not_eq_true, Option.any_eq_true]
  rintro ⟨rebuilt, hrebuilt, hholds⟩
  obtain ⟨share, hmem, hhash⟩ := List.any_eq_true.mp hholds
  exact hnone rebuilt hrebuilt
    (List.mem_filterMap.mpr ⟨share, List.mem_append_left _ hmem, of_decide_eq_true hhash⟩)

/-- A share settled sends nothing for a hash that waits, and waits itself only where none does for its hash. -/
theorem settle_judges {verified : Verified} {parentHold : Option Instant} (hdistinct : conn.Distinct)
    (hfree : parentHold = none → ∀ rebuilt, answeredShare verified = some rebuilt →
      rebuilt.blockHash ∉ conn.rebuiltHashes) :
    Judges (settle addressScript s verified receivedAt parentHold) conn fun _ conn' =>
      conn'.Distinct ∧ conn'.released = conn.released := by
  unfold settle
  simp only [Judges, ensures_bind, ensures_call, then_ok]
  refine ⟨trivial, ?_⟩
  rintro ⟨io, relayedBlocks⟩ hallows
  simp only [ensures_state, then_ok]
  have hanswered {verified' : Verified} {shares : ShareConnection} (verdict : JobVerdict)
      (hheld : shares.held = conn.shares.held)
      (hfree : ∀ rebuilt, answeredShare verified' = some rebuilt → rebuilt.blockHash ∉ conn.rebuiltHashes ∨
        verified'.toOption = none ∧ conn.references s rebuilt receivedAt = false) :
      Judges (do
          modify (setShares shares)
          answer addressScript s verified' verdict receivedAt) conn fun _ conn' =>
        conn'.Distinct ∧ conn'.released = conn.released := by
    rw [Judges, ensures_bind, ensures_modify, then_ok]
    have hrebuilt := rebuiltHashes_setShares hheld
    have hunheld : ∀ rebuilt, answeredShare verified' = some rebuilt →
        rebuilt.blockHash ∉ (setShares shares conn).rebuiltHashes ∨
          verified'.toOption = none ∧ (setShares shares conn).references s rebuilt receivedAt = false := by
      rw [hrebuilt]
      exact hfree
    refine (answer_judges verdict hunheld).mono ?_
    intro _ conn' _ hsame
    refine ⟨?_, hsame.released⟩
    rw [Distinct, hsame.rebuiltHashes, hrebuilt]
    exact hdistinct
  by_cases hwaits : ∃ rebuilt, answeredShare verified = some rebuilt ∧ rebuilt.blockHash ∈ conn.rebuiltHashes
  · -- a share waits for the hash: it is refused as the condition says
    obtain ⟨rebuilt, hrebuilt, hmem⟩ := hwaits
    cases parentHold with
    | none => exact absurd hmem (hfree rfl rebuilt hrebuilt)
    | some until_ =>
        have hrefused := hallows rebuilt hrebuilt hmem
        cases verified with
        | ok share => exact hrefused.elim
        | error refusal =>
            by_cases hresends : conn.shares.resends refusal = true
            · rw [ShareConnection.settle_resent hresends]
              exact hanswered _ rfl fun share hshare => by cases hshare
            · obtain ⟨hstale, hrelayable, hnot⟩ := hrefused.resolve_left hresends
              rw [ShareConnection.settle_unrelayed (Bool.eq_false_iff.mpr hresends) hrebuilt hstale hrelayable]
              refine hanswered _ rfl fun share hshare => .inr ⟨rfl, ?_⟩
              obtain rfl := Option.some.inj (hrebuilt.symm.trans hshare)
              exact hnot
  · have hnone : ∀ rebuilt, answeredShare verified = some rebuilt → rebuilt.blockHash ∉ conn.rebuiltHashes :=
      fun rebuilt hrebuilt hmem => hwaits ⟨rebuilt, hrebuilt, hmem⟩
    have hnew : ∀ refusal, verified = .error refusal → conn.shares.resends refusal = false := by
      rintro refusal rfl
      exact resends_eq_false hnone
    cases hsettled : conn.shares.settle io relayedBlocks s verified receivedAt parentHold with
    | error e =>
        unfold releaseUnanswered
        cases verified with
        | error refusal => exact ⟨hdistinct, rfl⟩
        | ok rebuilt => exact ⟨trivial, fun _ _ => ⟨hdistinct, rfl⟩⟩
    | ok outcome =>
        obtain ⟨settled, shares⟩ := outcome
        cases ShareConnection.settle_keeps hnew hsettled with
        | held share hheld hverified => exact ⟨hdistinct.hold hheld (hverified ▸ hnone), rfl⟩
        | answered verdict hheld =>
            exact hanswered verdict hheld fun rebuilt hrebuilt => .inl (hnone rebuilt hrebuilt)

theorem verifyAndClaim_judges (H : Hashing) (now : Nat) :
    Judges (verifyAndClaim H s now) conn fun result conn' =>
      (∃ verified, result = .ok verified) ∧ conn'.rebuiltHashes = conn.rebuiltHashes ∧
        conn'.released = conn.released := by
  unfold verifyAndClaim
  simp only [Judges, ensures_bind, ensures_state, ensures_modify, then_ok]
  split
  · exact ⟨⟨_, rfl⟩, rfl, rfl⟩
  · simp only [ensures_bind, ensures_call, then_ok]
    exact ⟨trivial, fun claimed _ => ⟨⟨_, rfl⟩, rfl, rfl⟩⟩

/-- A share verified and settled, on arrival or anew. -/
theorem verifyAndSettle_judges (H : Hashing) {now receivedAt : Nat} {α : Type}
    (instant : Verified → ShareHandler α) (parentHold : α → Instant) (hdistinct : conn.Distinct)
    (hinstant : ∀ verified conn, Judges (instant verified) conn fun result conn' =>
      (∃ value, result = .ok value) ∧ conn' = conn) :
    Judges (do
        let verified ← verifyAndClaim H s now
        let value ← instant verified
        settle addressScript s verified receivedAt (some (parentHold value))) conn fun _ conn' =>
      conn'.Distinct ∧ conn'.released = conn.released := by
  refine Ensures.bind (verifyAndClaim_judges H now) ?_ fun e conn' _ h => by obtain ⟨_, hok⟩ := h.1; cases hok
  rintro verified conn₁ - ⟨-, hrebuilt, hreleased⟩
  refine Ensures.bind (hinstant verified conn₁) ?_ fun e conn' _ h => by obtain ⟨_, hok⟩ := h.1; cases hok
  rintro value _ - ⟨-, rfl⟩
  refine (settle_judges ?_ fun hnone => by cases hnone).mono ?_
  · rw [Distinct, hrebuilt]
    exact hdistinct
  · rintro - conn₂ - ⟨hdistinct, hsame⟩
    exact ⟨hdistinct, hsame.trans hreleased⟩

theorem onShare_judges (H : Hashing) (hdistinct : conn.Distinct) :
    Judges (onShare H addressScript s) conn fun _ conn' =>
      conn'.Distinct ∧ conn'.released = conn.released := by
  unfold onShare
  rw [Judges, ensures_bind, ensures_call]
  refine ⟨trivial, fun now _ => ?_⟩
  rw [then_ok]
  exact verifyAndSettle_judges H (fun verified => ask (.instantNow verified)) (· + UNSEEN_PARENT_HOLD) hdistinct
    fun verified conn => ⟨trivial, fun instant _ => ⟨⟨instant, rfl⟩, rfl⟩⟩

/-! ### Releasing -/

/-- The share at the head of those released waits no more, and none waits for its hash. -/
theorem Distinct.released {share : HeldShare} {released : List HeldShare} (h : conn.Distinct)
    (hreleased : conn.released = share :: released) :
    (setReleased released conn).Distinct ∧ ∀ rebuilt, answeredShare share.verified = some rebuilt →
      rebuilt.blockHash ∉ (setReleased released conn).rebuiltHashes := by
  have hperm : conn.rebuiltHashes.Perm (share.hash.toList ++ (setReleased released conn).rebuiltHashes) := by
    have hshare : (share :: released).filterMap HeldShare.hash =
        share.hash.toList ++ released.filterMap HeldShare.hash := by
      cases hhash : share.hash <;> simp [hhash]
    rw [rebuiltHashes, hreleased, rebuiltHashes, setReleased, List.filterMap_append, List.filterMap_append, hshare,
      ← List.append_assoc, ← List.append_assoc]
    exact List.perm_append_comm.append_right _
  have hnodup := hperm.nodup_iff.mp h
  refine ⟨(List.nodup_append.mp hnodup).2.1, fun rebuilt hrebuilt => ?_⟩
  rw [hash_eq, hrebuilt] at hnodup
  exact (List.nodup_cons.mp hnodup).1

theorem resettle_judges (H : Hashing) {share : HeldShare} (hdistinct : conn.Distinct)
    (hfree : ∀ rebuilt, answeredShare share.verified = some rebuilt → rebuilt.blockHash ∉ conn.rebuiltHashes) :
    Judges (resettle H addressScript share) conn fun _ conn' =>
      conn'.Distinct ∧ conn'.released = conn.released := by
  unfold resettle
  split
  · exact settle_judges hdistinct fun _ => hfree
  · rename_i until_ _
    rw [Judges, ensures_bind, ensures_call]
    refine ⟨trivial, fun now _ => ?_⟩
    exact verifyAndSettle_judges H (fun _ => pure until_) id hdistinct
      fun verified conn => ⟨⟨until_, rfl⟩, rfl⟩

theorem resettleAll_judges (H : Hashing) {released : List HeldShare} (hreleased : conn.released = released)
    (hdistinct : conn.Distinct) :
    Judges (resettleAll H addressScript released) conn fun result conn' =>
      conn'.Distinct ∧ (result = .ok () → conn'.released = []) := by
  induction released generalizing conn with
  | nil => exact ⟨hdistinct, fun _ => hreleased⟩
  | cons share released ih =>
      unfold resettleAll
      rw [Judges, ensures_bind, ensures_modify, then_ok]
      obtain ⟨hrest, hfree⟩ := hdistinct.released hreleased
      refine Ensures.bind (resettle_judges H hrest hfree) ?_ ?_
      · rintro - conn₁ - ⟨hdistinct, hsame⟩
        exact ih hsame hdistinct
      · rintro e conn₁ - ⟨hdistinct, -⟩
        exact ⟨hdistinct, fun hok => by cases hok⟩

theorem releaseHeld_judges (H : Hashing) (selected : HeldShare → Bool) (hnone : conn.released = [])
    (hdistinct : conn.Distinct) :
    Judges (releaseHeld H addressScript selected) conn fun result conn' =>
      conn'.Distinct ∧ (result = .ok () → conn'.released = []) := by
  unfold releaseHeld
  simp only [Judges, ensures_bind, ensures_modify, ensures_state, then_ok]
  refine resettleAll_judges H rfl ?_
  have hperm : (takeHeld selected conn).rebuiltHashes.Perm conn.rebuiltHashes := by
    rw [rebuiltHashes, rebuiltHashes, hnone, List.append_nil, takeHeld]
    refine List.Perm.filterMap _ ?_
    exact List.perm_append_comm.trans (List.filter_append_perm selected conn.shares.held)
  exact hperm.nodup_iff.mpr hdistinct

theorem drop_judges : Judges drop conn fun _ _ => True := by
  unfold drop
  rw [Judges, ensures_bind, ensures_state, then_ok]
  have hclaims (held : List HeldShare) (conn : Connection) : Judges (releaseClaims held) conn fun _ _ => True := by
    induction held generalizing conn with
    | nil => trivial
    | cons share held ih =>
        unfold releaseClaims releaseUnanswered
        cases share.verified with
        | error refusal => exact ih _
        | ok rebuilt => exact ⟨trivial, fun _ _ => ih _⟩
  exact hclaims _ _

end Connection

section Runs

open Connection ShareServer

variable {ι : Type} [DecidableEq ι] {H : Hashing} {addressScript : AddressScript} {server server' : ShareServer ι}
  {event : ShareEvent ι} {c : ι} {thread : ShareThread}

/-- A share that rebuilt to the hash of one that waits is refused as `ResendsRefused` says. -/
def ShareEvent.RefusesResends : ShareEvent ι → Prop
  | .called _ call => ResendsRefused call
  | .quiet | .dropped _ => True

/-- What is left of the thread's program sends nothing for a share that waits. -/
def ShareThread.JudgesUnheld (thread : ShareThread) : Prop :=
  thread.program.Meets judging
    (fun ended _ => thread.closing = false → ended.2.Distinct ∧ (ended.1 = .ok () → ended.2.released = [])) ()

theorem ShareThread.judgesUnheld_rests (verifier : Verifier) (v3 : Option AbwSlotState) :
    (rests ⟨⟨verifier, [], []⟩, v3, []⟩).JudgesUnheld := fun _ => ⟨List.nodup_nil, fun _ => rfl⟩

theorem ShareThread.JudgesUnheld.at_rest {conn : Connection} (h : thread.JudgesUnheld)
    (hat : thread.program = .done (.ok (), conn)) (hopen : thread.closing = false) :
    conn.Distinct ∧ conn.released = [] := by
  rw [JudgesUnheld, hat] at h
  exact ⟨(h hopen).1, (h hopen).2 rfl⟩

/-- The threads of a server, one of them changed. -/
theorem ShareServer.judgesUnheld_setThread (h : ∀ c, (server.threads c).JudgesUnheld)
    (hsame : server'.threads = server.threads) (hthread : thread.JudgesUnheld) (c' : ι) :
    ((server'.setThread c thread).threads c').JudgesUnheld := by
  by_cases heq : c' = c
  · subst heq
    rwa [thread_setThread]
  · rw [thread_setThread_ne heq, hsame]
    exact h c'

/-- A thread goes on to handle something. -/
theorem ShareServer.judgesUnheld_handle {handler : ShareHandler Unit} {conn : Connection}
    (h : ∀ c, (server.threads c).JudgesUnheld)
    (hhandler : Judges handler conn fun result conn' =>
      conn'.Distinct ∧ (result = .ok () → conn'.released = [])) (c' : ι) :
    ((server.move c (handler conn)).threads c').JudgesUnheld := by
  refine judgesUnheld_setThread h rfl ?_ c'
  exact Prog.Meets.mono hhandler fun _ _ hleft _ => hleft

/-- **A step** keeps every thread from sending anything for a share that waits. -/
theorem ShareStep.judgesUnheld (hstep : ShareStep H addressScript server event server')
    (hrefuses : event.RefusesResends) (h : ∀ c, (server.threads c).JudgesUnheld) (c : ι) :
    (server'.threads c).JudgesUnheld := by
  cases hstep with
  | call answer hat hanswer =>
      rename_i c' _ _
      refine judgesUnheld_setThread h rfl ?_ c
      have hprogram := h c'
      rw [ShareThread.JudgesUnheld, hat] at hprogram
      exact hprogram.2 answer hrefuses
  | share s hat hopen =>
      obtain ⟨hdistinct, hnone⟩ := (h _).at_rest hat hopen
      refine judgesUnheld_handle h ((onShare_judges H hdistinct).mono ?_) c
      rintro result conn' - ⟨hdistinct, hsame⟩
      exact ⟨hdistinct, fun _ => hsame.trans hnone⟩
  | release selected hat hopen =>
      obtain ⟨hdistinct, hnone⟩ := (h _).at_rest hat hopen
      exact judgesUnheld_handle h (releaseHeld_judges H selected hnone hdistinct) c
  | turn verifier txnRequests v3 hv3 hat hopen =>
      obtain ⟨hdistinct, hnone⟩ := (h _).at_rest hat hopen
      refine judgesUnheld_setThread h rfl ?_ c
      exact fun _ => ⟨hdistinct, fun _ => hnone⟩
  | drop hat hopen =>
      refine judgesUnheld_setThread h rfl ?_ c
      exact Prog.Meets.mono drop_judges fun _ _ _ hclosing => by cases hclosing
  | reconnect verifier v3 hat hclosed =>
      exact judgesUnheld_setThread h rfl (ShareThread.judgesUnheld_rests verifier v3) c

theorem judgesUnheld_of_run {trace : List (ShareEvent ι)}
    (hrun : ((sharing H addressScript).restrict
      fun (_ : ShareServer ι) event => event.RefusesResends).Run trace server) (c : ι) :
    (server.threads c).JudgesUnheld := by
  refine hrun.invariant (I := fun _ server => ∀ c, (server.threads c).JudgesUnheld) ?_ ?_ c
  · rintro server ⟨rows, now, verifiers, v3, rfl⟩ c
    exact ShareThread.judgesUnheld_rests (verifiers c) (v3 c)
  · intro trace server event server' h hstep c
    exact hstep.2.judgesUnheld hstep.1 h c

/-- What a connection sends for a share is sent while none of the shares that wait on it, held or released and not
yet settled again, rebuilt to the same hash. -/
structure ShareServer.JudgesNoneHeld (server : ShareServer ι) : Prop where
  receipt : ∀ c s rebuilt candidate conn next,
    (server.threads c).program = .call (.receipt s rebuilt candidate, conn) next →
      ∀ share ∈ conn.shares.held ++ conn.released, share.hash ≠ some rebuilt.blockHash
  reference : ∀ c s verified response conn next ref,
    (server.threads c).program = .call (.respond s verified response, conn) next → response.abwRef = some ref →
      ∃ rebuilt, Verifier.answeredShare verified = some rebuilt ∧
        ref.rawPowHashLe = rebuilt.rawPowHash.reverse ∧
        ∀ share ∈ conn.shares.held ++ conn.released, share.hash ≠ some rebuilt.blockHash

theorem Connection.Unheld.hash_ne {conn : Connection} {ref : CandidateRef} {rebuilt : RebuiltShare}
    (h : conn.Unheld ref rebuilt) :
    ∀ share ∈ conn.shares.held ++ conn.released, share.hash ≠ some rebuilt.blockHash :=
  fun share hmem hhash => h.2 (List.mem_filterMap.mpr ⟨share, hmem, hhash⟩)

end Runs

/-! ### A resend under another username -/

/-- Whether a connection is about to answer a share with a reference while it holds one of the same hash. -/
def ShareServer.judgesHeld (server : ShareServer Unit) : Bool :=
  match (server.threads ()).program with
  | .call (.respond _ verified response, conn) _ => conn.v3.isSome && response.abwRef.isSome &&
      (Verifier.answeredShare verified).any fun rebuilt => conn.shares.holds rebuilt.blockHash
  | _ => false

/-- A share of the first assignment on a job with a transaction. -/
def assignedShare (username : String) (sections : Bool) : PowSubmit :=
  { awaitingShare 1 sections with username, abwSlot := some 0 }

def assignedServer : ShareServer Unit :=
  { newServer with threads := fun _ => .rests { newConnection with v3 := some (.start 0 (Vector.replicate _ 0)) } }

/-- A share of the first assignment is received. -/
def assignedArrived (n : Nat) : ShareServer Unit :=
  (assignedServer.handle () (Connection.onShare nonceByteHashing noAddress (assignedShare "p" true))).runOn
    (quietAnswers (.ok none)) () n

/-- Held for its job's transactions, it is sent again under a username. -/
def assignedResent (username : String) (n : Nat) : ShareServer Unit :=
  ((assignedArrived 4).handle () (Connection.onShare nonceByteHashing noAddress (assignedShare username false))).runOn
    (quietAnswers (.ok none)) () n

theorem run_assignedResent (allowed : ShareServer Unit → ShareEvent Unit → Prop)
    (hquiet : ∀ server, allowed server .quiet) (username : String) (n : Nat)
    (harrived : ∀ k < 4, ∀ call ∈ (assignedArrived k).nextCall (quietAnswers (.ok none)) (),
      ∀ server, allowed server (.called () call))
    (hresent : ∀ k < n, ∀ call ∈ (assignedResent username k).nextCall (quietAnswers (.ok none)) (),
      ∀ server, allowed server (.called () call)) :
    ∃ trace, ((sharing nonceByteHashing noAddress).restrict allowed).Run trace (assignedResent username n) := by
  have hstart : ((sharing nonceByteHashing noAddress).restrict allowed).Run [] assignedServer :=
    .start ⟨[], 0, fun _ => .new Verifier.untaggedPolicy, fun _ => some (.start 0 (Vector.replicate _ 0)), rfl⟩
  obtain ⟨trace, hrun⟩ := ShareServer.run_handle hstart () rfl hquiet _ fun conn hat hopen =>
    .share (assignedShare "p" true) hat hopen
  obtain ⟨trace, hrun⟩ := run_runOn_of_calls hrun () (quietAnswers (.ok none)) 4
    fun k hk call hcall => harrived k hk call hcall _
  obtain ⟨trace, hrun⟩ := ShareServer.run_handle hrun () (by decide +kernel) hquiet _ fun conn hat hopen =>
    .share (assignedShare username false) hat hopen
  exact run_runOn_of_calls hrun () (quietAnswers (.ok none)) n fun k hk call hcall => hresent k hk call hcall _

end Ratum
