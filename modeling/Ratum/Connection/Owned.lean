import Ratum.Connection.Claims

/-!
# What the thread of a connection owns

Beside the program of a thread stand the hashes it claimed and neither gave back nor answered for, the last of
them with the time it was claimed at until its share is settled, and the last reading of the clock. A share is
recorded, and a hash taken out, only by the thread whose hash it is, and every share that waits has a hash of
its own.
-/

namespace Ratum

/-- Whether a header time passes the check at a time of the clock. -/
def WithinNtime (headerTime now : Nat) : Prop :=
  headerTime ≤ now + NTIME_WINDOW_SECS ∧ now ≤ headerTime + NTIME_WINDOW_SECS

theorem withinNtime_of_checked {s : PowSubmit} {now : Nat} (hchecked : checkUsernameAndTime s now = .ok ()) :
    WithinNtime s.blockTime.toNat now := by
  unfold checkUsernameAndTime at hchecked
  split at hchecked
  · cases hchecked
  · split at hchecked
    · cases hchecked
    · unfold WithinNtime
      omega

/-- A share that verifies has a header time within the window. -/
theorem Verifier.withinNtime_of_verified {H : Hashing} {v : Verifier} {s : PowSubmit} {abw : Option AbwSlotState}
    {now : Nat} {rebuilt : RebuiltShare} (hverified : (v.verify H s abw now).1 = .ok rebuilt) :
    WithinNtime s.blockTime.toNat now := by
  unfold verify at hverified
  cases hrebuild : v.rebuild H s abw with
  | error refusal =>
      rw [hrebuild] at hverified
      cases hverified
  | ok share =>
      rw [hrebuild] at hverified
      dsimp only at hverified
      cases hchecked : (v.checkRebuilt s share now (meetsShareTarget s share)).1 with
      | error reason =>
          rw [hchecked] at hverified
          cases hverified
      | ok _ =>
          unfold checkRebuilt at hchecked
          split at hchecked
          · cases hchecked
          · dsimp only at hchecked
            split at hchecked
            · cases hchecked
            · rename_i v' _
              split at hchecked
              · cases hchecked
              · rename_i hshare
                unfold checkShare at hshare
                split at hshare
                · cases hshare
                · cases hsplit : v'.checkSplit s share now with
                  | error reason =>
                      rw [hsplit] at hshare
                      cases hshare
                  | ok _ =>
                      rw [hsplit] at hshare
                      exact withinNtime_of_checked hshare

/-- A share held arrived when the share settled did. -/
theorem ShareConnection.settle_arrivals {conn conn' : ShareConnection} {io : SettleInputs}
    {relayedBlocks : BoundedSet Hash} {s : PowSubmit} {verified : Verified} {receivedAt : Nat}
    {parentHold : Option Instant} {settled : Settled}
    (hsettled : conn.settle io relayedBlocks s verified receivedAt parentHold = .ok (settled, conn')) :
    ∀ share ∈ conn'.held, share ∈ conn.held ∨ share.receivedAt = receivedAt := by
  have hone {held : List HeldShare} {share : HeldShare} (hheld : conn'.held = held ++ [share])
      (harrived : share.receivedAt = receivedAt) :
      ∀ other ∈ conn'.held, other ∈ held ∨ other.receivedAt = receivedAt := by
    intro other hother
    rw [hheld] at hother
    obtain hother | hother := List.mem_append.mp hother
    · exact .inl hother
    · exact .inr (List.mem_singleton.mp hother ▸ harrived)
  have hnone (hheld : conn'.held = conn.held) :
      ∀ other ∈ conn'.held, other ∈ conn.held ∨ other.receivedAt = receivedAt :=
    fun other hother => .inl (hheld ▸ hother)
  have hverified {verified : Verified}
      (hsettled : conn.settleVerified io relayedBlocks s verified receivedAt = .ok (settled, conn')) :
      ∀ other ∈ conn'.held, other ∈ conn.held ∨ other.receivedAt = receivedAt := by
    unfold settleVerified at hsettled
    cases hverdict : conn.jobVerdict io relayedBlocks s verified receivedAt with
    | error e =>
        rw [hverdict] at hsettled
        cases hsettled
    | ok judged =>
        obtain ⟨verdict, conn₁⟩ := judged
        rw [hverdict] at hsettled
        have hheld := held_jobVerdict hverdict
        cases verdict with
        | pending generation =>
            simp only [bind, Except.bind] at hsettled
            split at hsettled
            · cases hsettled
              exact hone (congrArg (· ++ [_]) hheld) rfl
            · cases hsettled
              exact hnone hheld
        | _ =>
            cases hsettled
            exact hnone hheld
  unfold settle at hsettled
  split at hsettled
  · split at hsettled
    · exact hverified hsettled
    · split at hsettled
      · split at hsettled
        · cases hsettled
          exact hone rfl rfl
        · exact hverified hsettled
      · exact hverified hsettled
  · exact hverified hsettled

/-- What a thread owns. -/
structure Owned where
  claims : List Hash
  /-- The hash claimed for a share not settled yet, and when. -/
  fresh : Option (Hash × Nat)
  /-- The last reading of the clock. -/
  read : Nat

namespace Owned

open Connection

/-- After a call of the thread. -/
def after (owned : Owned) : ShareCall → Owned
  | ⟨(.unixNow, _), now⟩ => { owned with read := now.toNat }
  | ⟨(.claim hash now, _), true⟩ => { owned with claims := hash :: owned.claims, fresh := some (hash, now) }
  | ⟨(.settle .., _), _⟩ => { owned with fresh := none }
  | ⟨(.remove hash, _), _⟩ => { owned with claims := owned.claims.filter (· ≠ hash) }
  | ⟨(.record share, _), .ok _⟩ => { owned with claims := owned.claims.filter (· ≠ share.blockHash) }
  | ⟨(.respond _ verified _, _), _⟩ =>
      { owned with claims := owned.claims.filter (claimedHash verified ≠ some ·) }
  | _ => owned

/-- The clock does not go back, and a hash of the thread is not claimed again. -/
def Answered (owned : Owned) : ShareCall → Prop
  | ⟨(.unixNow, _), now⟩ => owned.read ≤ now.toNat
  | ⟨(.claim hash _, _), true⟩ => hash ∉ owned.claims
  | _ => True

/-- A hash is claimed at the last reading of the clock and settled with a header time that passed the check
then. A share is recorded, and a hash taken out, by the thread whose hash it is. -/
def Makes (owned : Owned) : ShareOp × Connection → Prop
  | (.claim _ now, _) => now = owned.read ∧ owned.fresh = none
  | (.hold _ _ receivedAt, _) => receivedAt ≤ owned.read
  | (.settle s verified _ _, _) => ∀ hash now, owned.fresh = some (hash, now) →
      claimedHash verified = some hash ∧ WithinNtime s.blockTime.toNat now
  | (.remove hash, _) => hash ∈ owned.claims
  | (.record share, _) =>
      share.acceptedAt.toNat ≤ owned.read ∧ owned.fresh = none ∧ share.blockHash ∈ owned.claims
  | _ => True

/-- Lets go of no hash but these. -/
structure Sheds (hashes : List Hash) (owned owned' : Owned) : Prop where
  read : owned'.read = owned.read
  fresh : owned'.fresh = owned.fresh
  others : ∀ hash ∈ owned.claims, hash ∉ hashes → hash ∈ owned'.claims

theorem Sheds.refl (hashes : List Hash) (owned : Owned) : Sheds hashes owned owned :=
  ⟨rfl, rfl, fun _ hmem _ => hmem⟩

theorem Sheds.trans {hashes : List Hash} {owned owned' owned'' : Owned} (h : Sheds hashes owned owned')
    (h' : Sheds hashes owned' owned'') : Sheds hashes owned owned'' :=
  ⟨h'.read.trans h.read, h'.fresh.trans h.fresh, fun hash hmem hother =>
    h'.others hash (h.others hash hmem hother) hother⟩

/-- The hashes are let go of. -/
theorem Sheds.filter (hashes : List Hash) (owned : Owned) {keep : Hash → Bool}
    (hkeep : ∀ hash, hash ∉ hashes → keep hash = true) :
    Sheds hashes owned { owned with claims := owned.claims.filter keep } :=
  ⟨rfl, rfl, fun hash hmem hother => List.mem_filter.mpr ⟨hmem, hkeep hash hother⟩⟩

theorem Sheds.of_nil {hashes : List Hash} {owned owned' : Owned} (h : Sheds [] owned owned') :
    Sheds hashes owned owned' := ⟨h.read, h.fresh, fun hash hmem _ => h.others hash hmem List.not_mem_nil⟩

end Owned

def owning : Monitor (ShareOp × Connection) (fun call => ShareOp.Answer call.1) Owned where
  allows := Owned.Answered
  requires := Owned.Makes
  after := Owned.after

namespace Connection

open Handler Owned

variable {H : Hashing} {addressScript : AddressScript} {conn conn' : Connection} {owned owned' : Owned}
  {s : PowSubmit} {rebuilt : RebuiltShare} {verified : Verified} {receivedAt now : Nat} {hash : Hash}

/-! ### The answer -/

/-- What part of an answer leaves: the shares as they were, and every hash but the share's own. -/
structure Lets (hashes : List Hash) (conn : Connection) (owned : Owned) (conn' : Connection) (owned' : Owned) :
    Prop where
  same : Same conn conn'
  sheds : Sheds hashes owned owned'

theorem Lets.refl (hashes : List Hash) (conn : Connection) (owned : Owned) : Lets hashes conn owned conn owned :=
  ⟨.refl conn, .refl hashes owned⟩

theorem Lets.trans {hashes : List Hash} {conn'' : Connection} {owned'' : Owned}
    (h : Lets hashes conn owned conn' owned') (h' : Lets hashes conn' owned' conn'' owned'') :
    Lets hashes conn owned conn'' owned'' := ⟨h.same.trans h'.same, h.sheds.trans h'.sheds⟩

theorem Lets.of_nil {hashes : List Hash} (h : Lets [] conn owned conn' owned') :
    Lets hashes conn owned conn' owned' := ⟨h.same, h.sheds.of_nil⟩

theorem relayAndRecord_owns (rebuilt : RebuiltShare) (txns : List Bytes) :
    (relayAndRecord s rebuilt txns receivedAt).Ensures owning conn owned
      fun result conn' owned' => result = .ok () ∧ Lets [] conn owned conn' owned' := by
  unfold relayAndRecord
  rw [ensures_bind, ensures_call]
  refine ⟨trivial, fun relayed _ => ?_⟩
  rw [then_ok]
  split
  · exact ⟨rfl, same_notePublishedSlot s conn, .refl _ _⟩
  · exact ⟨rfl, same_notePublishedSlot s conn, .refl _ _⟩
  · exact ⟨rfl, .refl _ _ _⟩

theorem receiptFor_owns (share : Option RebuiltShare) :
    (receiptFor s share).Ensures owning conn owned fun _ conn' owned' => Lets [] conn owned conn' owned' := by
  unfold receiptFor
  split
  · split
    · unfold sendAbwReceipt
      rw [ensures_bind, ensures_state, then_ok]
      split
      · exact .refl _ _ _
      · rw [ensures_bind, ensures_call]
        refine ⟨trivial, fun sent _ => ?_⟩
        rw [then_ok, ensures_orFail]
        exact .refl _ _ _
    · exact .refl _ _ _
  · exact .refl _ _ _

/-- A share is recorded under its own claim, or its claim is given back. -/
theorem credit_owns (hclaimed : rebuilt.blockHash ∈ owned.claims) (harrived : receivedAt ≤ owned.read)
    (hsettled : owned.fresh = none) :
    (credit addressScript s rebuilt receivedAt).Ensures owning conn owned
      fun result conn' owned' => (∃ verdict, result = .ok verdict) ∧
        Lets [rebuilt.blockHash] conn owned conn' owned' := by
  have hshed : Lets [rebuilt.blockHash] conn owned conn
      { owned with claims := owned.claims.filter (· ≠ rebuilt.blockHash) } :=
    ⟨.refl conn, .filter _ owned fun hash hother => decide_eq_true fun heq =>
      hother (List.mem_singleton.mpr heq)⟩
  unfold credit
  split
  · exact ⟨⟨_, rfl⟩, .refl _ _ _⟩
  · unfold creditShare
    simp only [ensures_bind, ensures_call, then_ok]
    refine ⟨⟨(Nat.mod_le _ _).trans harrived, hsettled, hclaimed⟩, fun recorded _ => ?_⟩
    cases recorded with
    | ok _ => exact ⟨⟨_, rfl⟩, hshed⟩
    | error e =>
        simp only [ensures_bind, ensures_call, then_ok]
        exact ⟨hclaimed, fun _ _ => ⟨⟨_, rfl⟩, hshed⟩⟩

theorem onAccepted_owns (hclaimed : rebuilt.blockHash ∈ owned.claims) (harrived : receivedAt ≤ owned.read)
    (hsettled : owned.fresh = none) (txns : List Bytes) :
    (onAccepted addressScript s rebuilt txns receivedAt).Ensures owning conn owned
      fun _ conn' owned' => Lets [rebuilt.blockHash] conn owned conn' owned' := by
  unfold onAccepted
  have hrelay : (if rebuilt.meetsOwnBits then relayAndRecord s rebuilt txns receivedAt else pure () :
      ShareHandler Unit).Ensures owning conn owned
        fun result conn' owned' => result = .ok () ∧ Lets [] conn owned conn' owned' := by
    split
    · exact relayAndRecord_owns rebuilt txns
    · exact ⟨rfl, .refl _ _ _⟩
  refine hrelay.bind ?_ fun e conn' owned' h => by cases h.1
  rintro - conn₁ owned₁ ⟨-, hrelayed⟩
  rw [ensures_bind, ensures_modify, then_ok]
  have hclaimed₁ := hrelayed.sheds.others _ hclaimed List.not_mem_nil
  refine (credit_owns hclaimed₁ (hrelayed.sheds.read ▸ harrived) (hrelayed.sheds.fresh.trans hsettled)).bind ?_ ?_
  · rintro verdict conn₂ owned₂ ⟨-, hcredited⟩
    have hlets : Lets [rebuilt.blockHash] conn owned conn₂ owned₂ :=
      hrelayed.of_nil.trans ⟨(same_noteShare conn₁).trans hcredited.same, hcredited.sheds⟩
    refine (receiptFor_owns (some rebuilt)).bind ?_ ?_
    · exact fun _ conn₃ owned₃ hsent => hlets.trans hsent.of_nil
    · exact fun _ conn₃ owned₃ hsent => hlets.trans hsent.of_nil
  · rintro e conn₂ owned₂ ⟨⟨_, hok⟩, -⟩
    cases hok

theorem onRefused_owns (harrived : receivedAt ≤ owned.read) (refusal : Refusal) (relay : Option (List Bytes)) :
    (onRefused s refusal relay receivedAt).Ensures owning conn owned
      fun _ conn' owned' => Lets [] conn owned conn' owned' := by
  unfold onRefused
  have hrelay : (relayRefused s receivedAt refusal.rebuilt relay).Ensures owning conn owned
      fun result conn' owned' => result = .ok () ∧ Lets [] conn owned conn' owned' := by
    unfold relayRefused
    split
    · exact relayAndRecord_owns _ _
    · exact ⟨rfl, .refl _ _ _⟩
  refine hrelay.bind ?_ fun e conn' owned' h => by cases h.1
  rintro - conn₁ owned₁ ⟨-, hrelayed⟩
  have hreferenced : (referenced s receivedAt refusal.rebuilt).Ensures owning conn₁ owned₁
      fun result conn' owned' => (∃ share, result = .ok share) ∧ conn' = conn₁ ∧ owned' = owned₁ := by
    unfold referenced
    split
    · exact ⟨⟨_, rfl⟩, rfl, rfl⟩
    · unfold mayReference
      simp only [ensures_bind, ensures_state, then_ok]
      split
      · exact ⟨⟨_, rfl⟩, rfl, rfl⟩
      · split
        · exact ⟨⟨_, rfl⟩, rfl, rfl⟩
        · split
          · exact ⟨⟨_, rfl⟩, rfl, rfl⟩
          · simp only [ensures_bind, ensures_call, then_ok]
            exact ⟨(hrelayed.sheds.read ▸ harrived : receivedAt ≤ owned₁.read),
              fun _ _ => ⟨⟨_, rfl⟩, rfl, rfl⟩⟩
  refine hreferenced.bind ?_ ?_
  · rintro share _ _ ⟨-, rfl, rfl⟩
    refine (receiptFor_owns share).bind ?_ ?_
    · exact fun _ conn₃ owned₃ hsent => hrelayed.trans hsent
    · exact fun _ conn₃ owned₃ hsent => hrelayed.trans hsent
  · rintro e conn' owned' ⟨⟨_, hok⟩, -⟩
    cases hok

theorem onRefusedByJob_owns (hclaimed : rebuilt.blockHash ∈ owned.claims) (harrived : receivedAt ≤ owned.read)
    (verdict : JobVerdict) :
    (onRefusedByJob s rebuilt verdict receivedAt).Ensures owning conn owned
      fun _ conn' owned' => Lets [rebuilt.blockHash] conn owned conn' owned' := by
  unfold onRefusedByJob
  rw [ensures_bind, ensures_state, then_ok]
  have hrelease : (if (conn.abwSlotOf s).isNone then ask (.remove rebuilt.blockHash) else pure () :
      ShareHandler Unit).Ensures owning conn owned
        fun result conn' owned' => result = .ok () ∧ Lets [rebuilt.blockHash] conn owned conn' owned' := by
    split
    · rw [ensures_call]
      refine ⟨hclaimed, fun _ _ => ⟨rfl, .refl conn, .filter _ owned fun hash hother => ?_⟩⟩
      exact decide_eq_true fun heq => hother (List.mem_singleton.mpr heq)
    · exact ⟨rfl, .refl _ _ _⟩
  refine hrelease.bind ?_ fun e conn' owned' h => by cases h.1
  rintro - conn₁ owned₁ ⟨-, hreleased⟩
  refine (onRefused_owns (hreleased.sheds.read ▸ harrived) _ _).mono ?_
  exact fun _ conn₂ owned₂ hrefused => hreleased.trans hrefused.of_nil

/-- The hash claimed for a share, while it is settled. -/
def inHand (verified : Verified) : List Hash := (claimedHash verified).toList

theorem outcomeOf_owns (hclaimed : inHand verified ⊆ owned.claims) (harrived : receivedAt ≤ owned.read)
    (hsettled : owned.fresh = none) (verdict : JobVerdict) :
    (outcomeOf addressScript s verified verdict receivedAt).Ensures owning conn owned
      fun _ conn' owned' => Lets (inHand verified) conn owned conn' owned' := by
  cases verified with
  | error refusal =>
      have hrefused (relay : Option (List Bytes)) : (onRefused s refusal relay receivedAt).Ensures owning conn owned
          fun _ conn' owned' => Lets (inHand (.error refusal)) conn owned conn' owned' :=
        (onRefused_owns harrived refusal relay).mono fun _ _ _ h => h
      cases verdict with
      | relayOnly txns => exact hrefused (some txns)
      | _ => exact hrefused none
  | ok rebuilt =>
      have hclaimed : rebuilt.blockHash ∈ owned.claims := hclaimed (List.mem_singleton_self _)
      cases verdict with
      | valid txns => exact onAccepted_owns hclaimed harrived hsettled txns
      | notNeeded => exact onRefusedByJob_owns hclaimed harrived .notNeeded
      | pending generation => exact onRefusedByJob_owns hclaimed harrived (.pending generation)
      | relayOnly txns => exact onRefusedByJob_owns hclaimed harrived (.relayOnly txns)
      | invalid reason => exact onRefusedByJob_owns hclaimed harrived (.invalid reason)
      | unchecked reason txns => exact onRefusedByJob_owns hclaimed harrived (.unchecked reason txns)

theorem answer_owns (hclaimed : inHand verified ⊆ owned.claims) (harrived : receivedAt ≤ owned.read)
    (hsettled : owned.fresh = none) (verdict : JobVerdict) :
    (answer addressScript s verified verdict receivedAt).Ensures owning conn owned
      fun _ conn' owned' => Lets (inHand verified) conn owned conn' owned' := by
  unfold answer
  refine (outcomeOf_owns hclaimed harrived hsettled verdict).bind ?_ fun _ _ _ h => h
  rintro outcome conn₁ owned₁ hlets
  simp only [ensures_bind, ensures_state, ensures_call, then_ok, ensures_orFail]
  refine ⟨trivial, fun sent _ => hlets.trans ⟨.refl _, .filter _ _ fun hash hother => ?_⟩⟩
  exact decide_eq_true fun heq => hother (Option.mem_toList.mpr heq)

/-! ### Settling -/

/-- The thread owns the hash of the share in hand and of every share that waits, and no two of them share one. -/
structure Waits (conn : Connection) (mine : List Hash) (owned : Owned) : Prop where
  claimed : mine ++ conn.waiting ⊆ owned.claims
  distinct : (mine ++ conn.waiting).Nodup
  arrived : ∀ share ∈ conn.shares.held ++ conn.released, share.receivedAt ≤ owned.read
  parents : conn.ParentsUnclaimed

/-- The share in hand is answered. -/
theorem Waits.lets {mine : List Hash} (h : conn.Waits mine owned) (hlets : Lets mine conn owned conn' owned') :
    conn'.Waits [] owned' := by
  obtain ⟨-, hdistinct, hother⟩ := List.nodup_append.mp h.distinct
  refine ⟨?_, ?_, ?_, h.parents.same hlets.same⟩
  · intro hash hmem
    rw [List.nil_append, hlets.same.waiting] at hmem
    refine hlets.sheds.others hash (h.claimed (List.mem_append_right _ hmem)) fun hmine => ?_
    exact hother hash hmine hash hmem rfl
  · rwa [List.nil_append, hlets.same.waiting]
  · rw [hlets.same.shares, hlets.same.released, hlets.sheds.read]
    exact h.arrived

/-- The same shares wait, in some order, with the one in hand or without it. -/
theorem Waits.perm {mine mine' : List Hash} (h : conn.Waits mine owned)
    (hperm : (mine' ++ conn'.waiting).Perm (mine ++ conn.waiting))
    (harrived : ∀ share ∈ conn'.shares.held ++ conn'.released, share.receivedAt ≤ owned.read)
    (hparents : conn'.ParentsUnclaimed) : conn'.Waits mine' owned :=
  ⟨fun _ hmem => h.claimed (hperm.subset hmem), hperm.nodup_iff.mpr h.distinct, harrived, hparents⟩

theorem Waits.setShares {mine : List Hash} (h : conn.Waits mine owned) {shares : ShareConnection}
    (hheld : shares.held = conn.shares.held) : (setShares shares conn).Waits mine owned := by
  refine h.perm ?_ ?_ (h.parents.setShares hheld)
  · rw [waiting_setShares hheld]
  · rw [Connection.setShares, hheld]
    exact h.arrived

theorem Waits.of_claims {mine : List Hash} (h : conn.Waits mine owned) (hclaims : owned'.claims = owned.claims)
    (hread : owned.read ≤ owned'.read) : conn.Waits mine owned' :=
  ⟨hclaims ▸ h.claimed, h.distinct, fun share hshare => (h.arrived share hshare).trans hread, h.parents⟩

theorem releaseUnanswered_owns (hclaimed : inHand verified ⊆ owned.claims) :
    (releaseUnanswered verified).Ensures owning conn owned
      fun result conn' owned' => result = .ok () ∧ conn' = conn ∧ Sheds (inHand verified) owned owned' := by
  cases verified with
  | error refusal => exact ⟨rfl, rfl, .refl _ _⟩
  | ok rebuilt =>
      rw [releaseUnanswered, ensures_call]
      refine ⟨hclaimed (List.mem_singleton_self _), fun _ _ => ⟨rfl, rfl, .filter _ owned fun hash hother => ?_⟩⟩
      exact decide_eq_true fun heq => hother (List.mem_singleton.mpr heq)

/-- The header time of a share whose hash was claimed and that is not settled yet. -/
def Fresh (s : PowSubmit) (verified : Verified) (owned : Owned) : Prop :=
  ∀ hash now, owned.fresh = some (hash, now) →
    claimedHash verified = some hash ∧ WithinNtime s.blockTime.toNat now

/-- What a handler leaves. -/
structure AtRest (released : List HeldShare) (conn : Connection) (owned : Owned) : Prop where
  waits : conn.Waits [] owned
  settled : owned.fresh = none
  released : conn.released = released

theorem settle_owns {parentHold : Option Instant} (h : conn.Waits (inHand verified) owned)
    (harrived : receivedAt ≤ owned.read) (hfresh : Fresh s verified owned) :
    (settle addressScript s verified receivedAt parentHold).Ensures owning conn owned
      fun _ conn' owned' => conn'.AtRest conn.released owned' := by
  unfold settle
  simp only [ensures_bind, ensures_call, then_ok]
  refine ⟨hfresh, ?_⟩
  rintro ⟨io, relayedBlocks⟩ -
  simp only [ensures_state, then_ok]
  have hwaits : conn.Waits (inHand verified) { owned with fresh := none } := h.of_claims rfl le_rfl
  cases hsettled : conn.shares.settle io relayedBlocks s verified receivedAt parentHold with
  | error e =>
      refine (releaseUnanswered_owns fun hash hmem => hwaits.claimed (List.mem_append_left _ hmem)).bind ?_
        fun e conn' owned' h => by cases h.1
      rintro - _ owned' ⟨-, rfl, hsheds⟩
      exact ⟨hwaits.lets ⟨.refl _, hsheds⟩, hsheds.fresh, rfl⟩
  | ok outcome =>
      obtain ⟨settled, shares⟩ := outcome
      have harrivals := ShareConnection.settle_arrivals hsettled
      cases ShareConnection.settle_settles hsettled with
      | held share hheld hsame hparent =>
          refine ⟨hwaits.perm ?_ ?_ ?_, rfl, rfl⟩
          · rw [inHand, ← claimedHash_congr hsame, List.nil_append, waiting, waiting, Connection.setShares, hheld,
              List.append_assoc, List.filterMap_append, List.filterMap_append, List.filterMap_append]
            have hshare : [share].filterMap (fun share => claimedHash share.verified) =
                (claimedHash share.verified).toList := by
              rw [List.filterMap_cons, List.filterMap_nil]
              cases claimedHash share.verified <;> rfl
            rw [hshare]
            exact List.perm_append_comm_assoc _ _ _
          · intro other hother
            obtain hother | hother := List.mem_append.mp hother
            · obtain hother | hother := harrivals other hother
              · exact h.arrived other (List.mem_append_left _ hother)
              · exact hother.trans_le harrived
            · exact h.arrived other (List.mem_append_right _ hother)
          · intro other hother hawaits
            simp only [Connection.setShares, hheld, List.mem_append, List.mem_singleton] at hother
            obtain (hother | rfl) | hother := hother
            · exact h.parents other (List.mem_append_left _ hother) hawaits
            · rw [claimedHash, hparent hawaits]
              rfl
            · exact h.parents other (List.mem_append_right _ hother) hawaits
      | answered verdict hheld hsame =>
          rename_i verified'
          rw [ensures_bind, ensures_modify, then_ok]
          have hmine : inHand verified' = inHand verified := congrArg Option.toList (claimedHash_congr hsame)
          have hwaits := hwaits.setShares hheld
          have harrived : receivedAt ≤ { owned with fresh := none : Owned }.read := harrived
          refine (answer_owns ?_ harrived rfl verdict).mono ?_
          · rw [hmine]
            exact fun hash hmem => hwaits.claimed (List.mem_append_left _ hmem)
          · rintro result conn' owned' hlets
            rw [hmine] at hlets
            exact ⟨hwaits.lets hlets, hlets.sheds.fresh, hlets.same.released⟩

/-- A share verified and claimed has a hash no share that waits has, and a header time within the window. -/
structure Claims (released : List HeldShare) (read : Nat) (s : PowSubmit) (verified : Verified) (conn : Connection)
    (owned : Owned) : Prop where
  waits : conn.Waits (inHand verified) owned
  fresh : Fresh s verified owned
  released : conn.released = released
  read : owned.read = read

theorem verifyAndClaim_owns (h : conn.Waits [] owned) (hsettled : owned.fresh = none) (hnow : now = owned.read) :
    (verifyAndClaim H s now).Ensures owning conn owned
      fun result conn' owned' => ∃ verified, result = .ok verified ∧
        Claims conn.released owned.read s verified conn' owned' := by
  unfold verifyAndClaim
  simp only [ensures_bind, ensures_state, ensures_modify, then_ok]
  have hwaits : (setShares { conn.shares with verifier := (conn.shares.verifier.verify H s conn.v3 now).2 }
      conn).Waits [] owned := h.setShares rfl
  have hunclaimed (refusal : Refusal) : Fresh s (.error refusal) owned := by
    intro hash now hfresh
    rw [hsettled] at hfresh
    cases hfresh
  split
  · rename_i refusal _
    exact ⟨.error refusal, rfl, hwaits, hunclaimed refusal, rfl, rfl⟩
  · rename_i rebuilt hverified
    simp only [ensures_bind, ensures_call, then_ok]
    refine ⟨⟨hnow, hsettled⟩, fun claimed hallowed => ?_⟩
    cases claimed with
    | false => exact ⟨_, rfl, hwaits, hunclaimed _, rfl, rfl⟩
    | true =>
        have hnew : rebuilt.blockHash ∉ owned.claims := hallowed
        refine ⟨_, rfl, ⟨?_, ?_, hwaits.arrived, hwaits.parents⟩, ?_, rfl, rfl⟩
        · exact List.cons_subset_cons _ hwaits.claimed
        · exact List.nodup_cons.mpr ⟨fun hmem => hnew (hwaits.claimed hmem), hwaits.distinct⟩
        · intro hash claimedAt hfresh
          obtain ⟨rfl, rfl⟩ := Prod.mk.inj (Option.some.inj hfresh)
          exact ⟨rfl, Verifier.withinNtime_of_verified hverified⟩

theorem onShare_owns (h : conn.Waits [] owned) (hsettled : owned.fresh = none) :
    (onShare H addressScript s).Ensures owning conn owned
      fun _ conn' owned' => conn'.AtRest conn.released owned' := by
  unfold onShare
  rw [ensures_bind, ensures_call]
  refine ⟨trivial, fun now hforward => ?_⟩
  rw [then_ok]
  have hwaits : conn.Waits [] { owned with read := now.toNat } := h.of_claims rfl hforward
  refine (verifyAndClaim_owns hwaits hsettled rfl).bind ?_ ?_
  · rintro verified conn₁ owned₁ ⟨_, hok, hclaims⟩
    obtain rfl := Except.ok.inj hok
    rw [ensures_bind, ensures_call]
    refine ⟨trivial, fun instant _ => ?_⟩
    rw [then_ok, ← hclaims.released]
    exact settle_owns hclaims.waits hclaims.read.ge hclaims.fresh
  · rintro e conn₁ owned₁ ⟨_, hok, -⟩
    cases hok

/-! ### Releasing -/

theorem resettle_owns {share : HeldShare} (h : conn.Waits (inHand share.verified) owned)
    (hsettled : owned.fresh = none) (harrived : share.receivedAt ≤ owned.read)
    (hparent : share.awaiting ≠ .txns → claimedHash share.verified = none) :
    (resettle H addressScript share).Ensures owning conn owned
      fun _ conn' owned' => conn'.AtRest conn.released owned' := by
  unfold resettle
  split
  · refine settle_owns h harrived fun hash now hfresh => ?_
    rw [hsettled] at hfresh
    cases hfresh
  · rename_i until_ hawaiting
    rw [inHand, hparent (by rw [hawaiting]; exact fun h => by cases h), Option.toList_none] at h
    rw [ensures_bind, ensures_call]
    refine ⟨trivial, fun now hforward => ?_⟩
    rw [then_ok]
    have hwaits : conn.Waits [] { owned with read := now.toNat } := h.of_claims rfl hforward
    refine (verifyAndClaim_owns hwaits hsettled rfl).bind ?_ ?_
    · rintro verified conn₁ owned₁ ⟨_, hok, hclaims⟩
      obtain rfl := Except.ok.inj hok
      rw [← hclaims.released]
      exact settle_owns hclaims.waits (hclaims.read ▸ harrived.trans hforward) hclaims.fresh
    · rintro e conn₁ owned₁ ⟨_, hok, -⟩
      cases hok

theorem resettleAll_owns {released : List HeldShare} (hreleased : conn.released = released)
    (h : conn.Waits [] owned) (hsettled : owned.fresh = none) :
    (resettleAll H addressScript released).Ensures owning conn owned
      fun _ conn' owned' => conn'.Waits [] owned' ∧ owned'.fresh = none := by
  induction released generalizing conn owned with
  | nil => exact ⟨h, hsettled⟩
  | cons share released ih =>
      unfold resettleAll
      rw [ensures_bind, ensures_modify, then_ok]
      have hshare : share ∈ conn.shares.held ++ conn.released := by
        rw [hreleased]
        exact List.mem_append_right _ List.mem_cons_self
      have hothers : ∀ other ∈ conn.shares.held ++ released, other ∈ conn.shares.held ++ conn.released := by
        intro other hother
        rw [hreleased]
        exact (List.mem_append.mp hother).elim (List.mem_append_left _) fun hother =>
          List.mem_append_right _ (List.mem_cons_of_mem _ hother)
      have hwaits : (setReleased released conn).Waits (inHand share.verified) owned := by
        refine h.perm ?_ (fun other hother => h.arrived other (hothers other hother))
          fun other hother => h.parents other (hothers other hother)
        have hshare : (share :: released).filterMap (fun share => claimedHash share.verified) =
            inHand share.verified ++ released.filterMap fun share => claimedHash share.verified := by
          rw [List.filterMap_cons, inHand]
          cases claimedHash share.verified <;> rfl
        rw [List.nil_append, waiting, waiting, hreleased, setReleased, List.filterMap_append, List.filterMap_append,
          hshare]
        exact List.perm_append_comm_assoc _ _ _
      refine (resettle_owns hwaits hsettled (h.arrived share hshare) (h.parents share hshare)).bind ?_ ?_
      · rintro - conn₁ owned₁ hleaves
        exact ih hleaves.released hleaves.waits hleaves.settled
      · rintro e conn₁ owned₁ hleaves
        exact ⟨hleaves.waits, hleaves.settled⟩

theorem releaseHeld_owns {selected : HeldShare → Bool} (h : conn.Waits [] owned) (hsettled : owned.fresh = none) :
    (releaseHeld H addressScript selected).Ensures owning conn owned
      fun _ conn' owned' => conn'.Waits [] owned' ∧ owned'.fresh = none := by
  unfold releaseHeld
  simp only [ensures_bind, ensures_modify, ensures_state, then_ok]
  have hperm : ((takeHeld selected conn).shares.held ++ (takeHeld selected conn).released).Perm conn.shares.held :=
    (List.perm_append_comm.trans (List.filter_append_perm selected conn.shares.held))
  have hsub : ∀ share ∈ (takeHeld selected conn).shares.held ++ (takeHeld selected conn).released,
      share ∈ conn.shares.held ++ conn.released :=
    fun share hshare => List.mem_append_left _ (hperm.subset hshare)
  have hwaiting : (takeHeld selected conn).waiting.Perm
      (conn.shares.held.filterMap fun share => claimedHash share.verified) := hperm.filterMap _
  have hsublist : (conn.shares.held.filterMap fun share => claimedHash share.verified).Sublist conn.waiting :=
    (List.sublist_append_left _ _).filterMap _
  refine resettleAll_owns rfl ⟨?_, ?_, fun share hshare => h.arrived share (hsub share hshare),
    fun share hshare => h.parents share (hsub share hshare)⟩ hsettled
  · exact fun hash hmem => h.claimed (hsublist.subset (hwaiting.subset hmem))
  · exact hwaiting.nodup_iff.mpr (h.distinct.sublist hsublist)

/-! ### Dropping -/

/-- The hashes of the shares held. -/
def heldClaims (conn : Connection) : List Hash :=
  conn.shares.held.filterMap fun share => claimedHash share.verified

theorem releaseClaims_owns {held : List HeldShare}
    (hclaimed : (held.filterMap fun share => claimedHash share.verified) ⊆ owned.claims)
    (hdistinct : (held.filterMap fun share => claimedHash share.verified).Nodup) (hsettled : owned.fresh = none) :
    (releaseClaims held).Ensures owning conn owned fun _ _ owned' => owned'.fresh = none := by
  induction held generalizing conn owned with
  | nil => exact hsettled
  | cons share held ih =>
      unfold releaseClaims
      have hshare : (share :: held).filterMap (fun share => claimedHash share.verified) =
          inHand share.verified ++ held.filterMap fun share => claimedHash share.verified := by
        rw [List.filterMap_cons, inHand]
        cases claimedHash share.verified <;> rfl
      rw [hshare] at hclaimed hdistinct
      obtain ⟨-, hrest, hother⟩ := List.nodup_append.mp hdistinct
      refine (releaseUnanswered_owns fun hash hmem => hclaimed (List.mem_append_left _ hmem)).bind ?_
        fun e conn' owned' h => by cases h.1
      rintro - _ owned' ⟨-, rfl, hsheds⟩
      rw [ensures_bind, ensures_modify, then_ok]
      refine ih (fun hash hmem => ?_) hrest (hsheds.fresh.trans hsettled)
      exact hsheds.others hash (hclaimed (List.mem_append_right _ hmem)) fun hmine => hother hash hmine hash hmem rfl

theorem drop_owns (hclaimed : conn.heldClaims ⊆ owned.claims) (hdistinct : conn.heldClaims.Nodup)
    (hsettled : owned.fresh = none) :
    drop.Ensures owning conn owned fun _ _ owned' => owned'.fresh = none := by
  unfold drop
  rw [ensures_bind, ensures_state, then_ok]
  exact releaseClaims_owns hclaimed hdistinct hsettled

theorem heldClaims_sublist (conn : Connection) : conn.heldClaims.Sublist conn.waiting :=
  (List.sublist_append_left _ _).filterMap _

end Connection

end Ratum
