import Ratum.Connection.Handlers

/-!
# The claims of a connection's shares

Which hashes a connection claimed for shares it has not answered, followed over the calls of its handlers.
A claim ends when its hash is taken out of the hashes accepted, when its share is recorded, and when its
share is answered, a receipt being an answer. At every call the open claims are of shares unanswered: the
share the call is for, those held, and those released and not yet settled again.
-/

namespace Ratum

/-- A call of a handler and its answer. -/
abbrev ShareCall := Called (ShareOp × Connection) fun call => ShareOp.Answer call.1

/-- The hash of the share a call is for, where the share may have claimed it. -/
def ShareOp.inHand : ShareOp → Option Hash
  | instantNow verified | settle _ verified _ _ | respond _ verified _ => Connection.claimedHash verified
  | relay _ rebuilt _ _ | receipt _ rebuilt _ => some rebuilt.blockHash
  | remove hash | hold _ hash _ => some hash
  | record share => some share.blockHash
  | unixNow | claim _ _ => none

namespace Connection

/-- The hashes claimed for the shares that wait. -/
def waiting (conn : Connection) : List Hash :=
  (conn.shares.held ++ conn.released).filterMap fun share => claimedHash share.verified

/-- The hashes claimed for the shares not answered when a call is made. -/
def unanswered (call : ShareOp × Connection) : List Hash := call.1.inHand.toList ++ call.2.waiting

/-- Whether a share is one under an assignment. -/
def assigns (conn : Connection) (s : PowSubmit) : Bool := (conn.abwSlotOf s).isSome

/-- The open claims after a call. -/
def claimsAfter (claims : List Hash) : ShareCall → List Hash
  | ⟨(.claim hash _, _), true⟩ => hash :: claims
  | ⟨(.remove hash, _), _⟩ => claims.filter (· ≠ hash)
  | ⟨(.record share, _), .ok _⟩ => claims.filter (· ≠ share.blockHash)
  | ⟨(.receipt s rebuilt _, conn), _⟩ =>
      if conn.assigns s then claims.filter (· ≠ rebuilt.blockHash) else claims
  | ⟨(.respond _ verified _, _), _⟩ => claims.filter (claimedHash verified ≠ some ·)
  | _ => claims

/-- A share without an assignment that its job's verdict would credit names an address that can be paid. -/
def PaysIfValid (addressScript : AddressScript) : ShareCall → Prop
  | ⟨(.settle s verified receivedAt parentHold, conn), (io, relayedBlocks)⟩ =>
      ∀ rebuilt txns shares, conn.shares.settle io relayedBlocks s verified receivedAt parentHold =
        .ok (.answered (.ok rebuilt) (.valid txns), shares) → conn.assigns s = false →
          refuseIfUnpayable addressScript s.username = false
  | _ => True

/-- A hash is held for a share that did not claim it only under an assignment; and with `strict`, a share
without one has no open claim when it is answered. -/
def Proper (strict : Prop) (claims : List Hash) : ShareOp × Connection → Prop
  | (.hold s _ _, conn) => conn.assigns s = true
  | (.respond s verified _, conn) =>
      strict → conn.assigns s = false → ∀ hash, claimedHash verified = some hash → hash ∉ claims
  | _ => True

/-- Follows the open claims of a connection, on shares that can be paid when `strict` holds. -/
def monitor (addressScript : AddressScript) (strict : Prop) :
    Monitor (ShareOp × Connection) (fun call => ShareOp.Answer call.1) (List Hash) where
  allows _ called := strict → PaysIfValid addressScript called
  requires claims call := claims ⊆ unanswered call ∧ Proper strict claims call
  after := claimsAfter

/-- The connection's shares and its version are the same. -/
structure Same (conn conn' : Connection) : Prop where
  shares : conn'.shares = conn.shares
  released : conn'.released = conn.released
  v3 : conn'.v3.isSome = conn.v3.isSome

variable {addressScript : AddressScript} {strict : Prop} {conn conn' : Connection} {s : PowSubmit}
  {rebuilt : RebuiltShare} {claims claims' : List Hash} {receivedAt : Nat}

theorem Same.refl (conn : Connection) : Same conn conn := ⟨rfl, rfl, rfl⟩

theorem Same.trans {conn'' : Connection} (h : Same conn conn') (h' : Same conn' conn'') : Same conn conn'' :=
  ⟨h'.shares.trans h.shares, h'.released.trans h.released, h'.v3.trans h.v3⟩

theorem Same.waiting (h : Same conn conn') : conn'.waiting = conn.waiting := by
  rw [Connection.waiting, Connection.waiting, h.shares, h.released]

theorem Same.assigns (h : Same conn conn') (s : PowSubmit) : conn'.assigns s = conn.assigns s := by
  rw [Connection.assigns, Connection.assigns, abwSlotOf, abwSlotOf, h.v3]

theorem same_notePublishedSlot (s : PowSubmit) (conn : Connection) : Same conn (notePublishedSlot s conn) := by
  rw [notePublishedSlot]
  split
  · rename_i hv3
    exact ⟨rfl, rfl, by rw [hv3]; rfl⟩
  · exact .refl conn

theorem same_noteShare (conn : Connection) : Same conn (noteShare conn) :=
  ⟨rfl, rfl, Option.isSome_map ..⟩

/-! ### The answer -/

/-- What part of an answer leaves: the shares as they were, and claims that were open before. -/
structure Leaves (conn : Connection) (claims : List Hash) (conn' : Connection) (claims' : List Hash) : Prop where
  same : Same conn conn'
  subset : claims' ⊆ claims

theorem Leaves.refl (conn : Connection) (claims : List Hash) : Leaves conn claims conn claims :=
  ⟨.refl conn, List.Subset.refl _⟩

theorem Leaves.trans {conn'' : Connection} {claims'' : List Hash} (h : Leaves conn claims conn' claims')
    (h' : Leaves conn' claims' conn'' claims'') : Leaves conn claims conn'' claims'' :=
  ⟨h.same.trans h'.same, List.Subset.trans h'.subset h.subset⟩

/-- Claims open for a share and for those that wait stay so. -/
theorem Leaves.open {hash : List Hash} (h : Leaves conn claims conn' claims')
    (hclaims : claims ⊆ hash ++ conn.waiting) : claims' ⊆ hash ++ conn'.waiting := by
  rw [h.same.waiting]
  exact List.Subset.trans h.subset hclaims

theorem Leaves.filter (conn : Connection) (claims : List Hash) (keep : Hash → Bool) :
    Leaves conn claims conn (claims.filter keep) := ⟨.refl conn, List.filter_subset_self _⟩

theorem notMem_filter_ne (hash : Hash) (claims : List Hash) : hash ∉ claims.filter (· ≠ hash) := by
  simp

theorem relayAndRecord_spec (hclaims : claims ⊆ [rebuilt.blockHash] ++ conn.waiting) (txns : List Bytes) :
    (relayAndRecord s rebuilt txns receivedAt).Ensures (monitor addressScript strict) conn claims
      fun result conn' claims' => result = .ok () ∧ Leaves conn claims conn' claims' := by
  unfold relayAndRecord
  simp only [Handler.ensures_bind, Handler.ensures_call, Handler.then_ok]
  refine ⟨⟨hclaims, trivial⟩, fun relayed _ => ?_⟩
  split
  · exact ⟨rfl, same_notePublishedSlot s conn, List.Subset.refl _⟩
  · exact ⟨rfl, same_notePublishedSlot s conn, List.Subset.refl _⟩
  · exact ⟨rfl, .refl conn claims⟩

/-- A receipt that could not be written leaves no claim of its share open. -/
theorem sendAbwReceipt_spec (hclaims : claims ⊆ [rebuilt.blockHash] ++ conn.waiting) :
    (sendAbwReceipt s rebuilt).Ensures (monitor addressScript strict) conn claims
      fun result conn' claims' => Leaves conn claims conn' claims' ∧
        (result ≠ .ok () → rebuilt.blockHash ∉ claims') := by
  unfold sendAbwReceipt
  simp only [Handler.ensures_bind, Handler.ensures_state, Handler.then_ok]
  cases hslot : conn.abwSlotOf s with
  | none => exact ⟨.refl conn claims, fun hfailed => absurd rfl hfailed⟩
  | some slot =>
      simp only [Handler.ensures_bind, Handler.ensures_call, Handler.then_ok, Handler.ensures_orFail]
      refine ⟨⟨hclaims, trivial⟩, fun sent _ => ?_⟩
      have hassigns : conn.assigns s = true := by rw [assigns, hslot]; rfl
      have hafter : (monitor addressScript strict).after claims
          ⟨(.receipt s rebuilt (.new slot rebuilt.rawPowHash), conn), sent⟩ =
            claims.filter (· ≠ rebuilt.blockHash) := if_pos hassigns
      rw [hafter]
      exact ⟨.filter conn claims _, fun _ => notMem_filter_ne _ _⟩

/-- The hash of a share, as rebuilt. -/
def rebuiltHash (rebuilt : Option RebuiltShare) : List Hash := (rebuilt.map RebuiltShare.blockHash).toList

theorem receiptFor_spec (share : Option RebuiltShare) (hclaims : claims ⊆ rebuiltHash share ++ conn.waiting) :
    (receiptFor s share).Ensures (monitor addressScript strict) conn claims
      fun result conn' claims' => Leaves conn claims conn' claims' ∧
        (result ≠ .ok () → ∀ hash ∈ rebuiltHash share, hash ∉ claims') := by
  cases share with
  | none => exact ⟨.refl conn claims, fun hfailed => absurd rfl hfailed⟩
  | some rebuilt =>
      rw [receiptFor]
      split
      · refine (sendAbwReceipt_spec hclaims).mono ?_
        rintro result conn' claims' ⟨hleaves, hfree⟩
        refine ⟨hleaves, fun hfailed hash hmem => ?_⟩
        obtain rfl := List.mem_singleton.mp hmem
        exact hfree hfailed
      · exact ⟨.refl conn claims, fun hfailed => absurd rfl hfailed⟩

/-- A share that goes to the ledger leaves no claim, recorded or not. -/
theorem creditShare_spec (username : String) (hclaims : claims ⊆ [rebuilt.blockHash] ++ conn.waiting) :
    (creditShare username rebuilt receivedAt).Ensures (monitor addressScript strict) conn claims
      fun result conn' claims' => (∃ recorded, result = .ok recorded) ∧ Leaves conn claims conn' claims' ∧
        rebuilt.blockHash ∉ claims' := by
  unfold creditShare
  simp only [Handler.ensures_bind, Handler.ensures_call, Handler.then_ok]
  refine ⟨⟨hclaims, trivial⟩, fun recorded _ => ?_⟩
  cases recorded with
  | ok _ => exact ⟨⟨_, rfl⟩, .filter conn claims _, notMem_filter_ne _ _⟩
  | error e =>
      simp only [Handler.ensures_bind, Handler.ensures_call, Handler.then_ok]
      exact ⟨⟨hclaims, trivial⟩, fun _ _ => ⟨⟨_, rfl⟩, .filter conn claims _, notMem_filter_ne _ _⟩⟩

/-- A share whose identity can be paid leaves no claim; one whose identity cannot leaves the claim it has. -/
theorem credit_spec (hclaims : claims ⊆ [rebuilt.blockHash] ++ conn.waiting) :
    (credit addressScript s rebuilt receivedAt).Ensures (monitor addressScript strict) conn claims
      fun result conn' claims' => (∃ verdict, result = .ok verdict) ∧ Leaves conn claims conn' claims' ∧
        (refuseIfUnpayable addressScript s.username = false → rebuilt.blockHash ∉ claims') := by
  unfold credit
  split
  · rename_i hunpayable
    refine ⟨⟨_, rfl⟩, .refl conn claims, fun hpayable => ?_⟩
    rw [hpayable] at hunpayable
    cases hunpayable
  · refine (creditShare_spec s.username hclaims).bind ?_ ?_
    · rintro recorded conn' claims' ⟨-, hleaves, hfree⟩
      cases recorded <;> exact ⟨⟨_, rfl⟩, hleaves, fun _ => hfree⟩
    · rintro e conn' claims' ⟨⟨_, hok⟩, -⟩
      cases hok

/-- Of a share whose job's block is valid, a claim stays open only when its identity cannot be paid. -/
theorem onAccepted_spec (hclaims : claims ⊆ [rebuilt.blockHash] ++ conn.waiting) (txns : List Bytes) :
    (onAccepted addressScript s rebuilt txns receivedAt).Ensures (monitor addressScript strict) conn claims
      fun result conn' claims' => Leaves conn claims conn' claims' ∧
        (refuseIfUnpayable addressScript s.username = false ∨ result.isOk = false →
          rebuilt.blockHash ∉ claims') := by
  unfold onAccepted
  have hrelay : (if rebuilt.meetsOwnBits then relayAndRecord s rebuilt txns receivedAt else pure () :
      ShareHandler Unit).Ensures (monitor addressScript strict) conn claims
        fun result conn' claims' => result = .ok () ∧ Leaves conn claims conn' claims' := by
    split
    · exact relayAndRecord_spec hclaims txns
    · exact ⟨rfl, .refl conn claims⟩
  refine hrelay.bind ?_ (fun e conn' claims' h => by cases h.1)
  rintro - conn₁ claims₁ ⟨-, hrelayed⟩
  rw [Handler.ensures_bind, Handler.ensures_modify, Handler.then_ok]
  have hnoted : Leaves conn claims (noteShare conn₁) claims₁ :=
    hrelayed.trans ⟨same_noteShare conn₁, List.Subset.refl _⟩
  refine (credit_spec (hnoted.open hclaims)).bind ?_ ?_
  · rintro verdict conn₂ claims₂ ⟨-, hcredited, hfree⟩
    have hleaves := hnoted.trans hcredited
    refine (receiptFor_spec (some rebuilt) (hleaves.open hclaims)).bind ?_ ?_
    · rintro - conn₃ claims₃ ⟨hsent, -⟩
      refine ⟨hleaves.trans hsent, ?_⟩
      rintro (hpayable | hfailed)
      · exact fun hopen => hfree hpayable (hsent.subset hopen)
      · cases hfailed
    · rintro e conn₃ claims₃ ⟨hsent, hfree'⟩
      exact ⟨hleaves.trans hsent, fun _ => hfree' (fun hok => by cases hok) _ (List.mem_singleton_self _)⟩
  · rintro e conn₂ claims₂ ⟨⟨_, hok⟩, -⟩
    cases hok

theorem mayReference_spec (hclaims : claims ⊆ [rebuilt.blockHash] ++ conn.waiting) :
    (mayReference s rebuilt receivedAt).Ensures (monitor addressScript strict) conn claims
      fun result conn' claims' => (∃ may, result = .ok may) ∧ Leaves conn claims conn' claims' := by
  unfold mayReference
  rw [Handler.ensures_bind, Handler.ensures_state, Handler.then_ok]
  split
  · exact ⟨⟨_, rfl⟩, .refl conn claims⟩
  · rename_i hslot
    split
    · exact ⟨⟨_, rfl⟩, .refl conn claims⟩
    · split
      · exact ⟨⟨_, rfl⟩, .refl conn claims⟩
      · simp only [Handler.ensures_bind, Handler.ensures_call, Handler.then_ok]
        refine ⟨⟨hclaims, ?_⟩, fun _ _ => ⟨⟨_, rfl⟩, .refl conn claims⟩⟩
        show (conn.abwSlotOf s).isSome = true
        rwa [Option.isNone_iff_eq_none, ← ne_eq, Option.ne_none_iff_isSome] at hslot

theorem referenced_spec {share : Option RebuiltShare} (hclaims : claims ⊆ rebuiltHash share ++ conn.waiting) :
    (referenced s receivedAt share).Ensures (monitor addressScript strict) conn claims
      fun result conn' claims' => (∃ share', result = .ok share' ∧ (share' = none ∨ share' = share)) ∧
        Leaves conn claims conn' claims' := by
  cases share with
  | none => exact ⟨⟨none, rfl, .inl rfl⟩, .refl conn claims⟩
  | some rebuilt =>
      unfold referenced
      refine (mayReference_spec hclaims).bind ?_ ?_
      · rintro may conn' claims' ⟨-, hleaves⟩
        cases may
        · exact ⟨⟨none, rfl, .inl rfl⟩, hleaves⟩
        · exact ⟨⟨some rebuilt, rfl, .inr rfl⟩, hleaves⟩
      · rintro e conn' claims' ⟨⟨_, hok⟩, -⟩
        cases hok

theorem relayRefused_spec {share : Option RebuiltShare} (hclaims : claims ⊆ rebuiltHash share ++ conn.waiting)
    (relay : Option (List Bytes)) :
    (relayRefused s receivedAt share relay).Ensures (monitor addressScript strict) conn claims
      fun result conn' claims' => result = .ok () ∧ Leaves conn claims conn' claims' := by
  unfold relayRefused
  split
  · exact relayAndRecord_spec hclaims _
  · exact ⟨rfl, .refl conn claims⟩

/-- A refusal that could not be sent in full leaves no claim of its share open. -/
theorem onRefused_spec (refusal : Refusal) (hclaims : claims ⊆ rebuiltHash refusal.rebuilt ++ conn.waiting)
    (relay : Option (List Bytes)) :
    (onRefused s refusal relay receivedAt).Ensures (monitor addressScript strict) conn claims
      fun result conn' claims' => Leaves conn claims conn' claims' ∧
        (result.isOk = false → ∀ hash ∈ rebuiltHash refusal.rebuilt, hash ∉ claims') := by
  unfold onRefused
  refine (relayRefused_spec hclaims relay).bind ?_ (fun e conn' claims' h => by cases h.1)
  rintro - conn₁ claims₁ ⟨-, hrelayed⟩
  refine (referenced_spec (hrelayed.open hclaims)).bind ?_ ?_
  · rintro share conn₂ claims₂ ⟨⟨_, hshare, hof⟩, hreferenced⟩
    obtain rfl := Except.ok.inj hshare
    have hleaves := hrelayed.trans hreferenced
    obtain rfl | rfl := hof
    · exact ⟨hleaves, fun hfailed => by cases hfailed⟩
    · refine (receiptFor_spec _ (hleaves.open hclaims)).bind ?_ ?_
      · rintro - conn₃ claims₃ ⟨hsent, -⟩
        exact ⟨hleaves.trans hsent, fun hfailed => by cases hfailed⟩
      · rintro e conn₃ claims₃ ⟨hsent, hfree⟩
        exact ⟨hleaves.trans hsent, fun _ => hfree fun hok => by cases hok⟩
  · rintro e conn₂ claims₂ ⟨⟨_, hok, -⟩, -⟩
    cases hok

/-- A share its job refuses leaves no claim without an assignment. -/
theorem onRefusedByJob_spec (hclaims : claims ⊆ [rebuilt.blockHash] ++ conn.waiting) (verdict : JobVerdict) :
    (onRefusedByJob s rebuilt verdict receivedAt).Ensures (monitor addressScript strict) conn claims
      fun result conn' claims' => Leaves conn claims conn' claims' ∧
        (conn.assigns s = false ∨ result.isOk = false → rebuilt.blockHash ∉ claims') := by
  unfold onRefusedByJob
  rw [Handler.ensures_bind, Handler.ensures_state, Handler.then_ok]
  have hrelease : (if (conn.abwSlotOf s).isNone then ask (.remove rebuilt.blockHash) else pure () :
      ShareHandler Unit).Ensures (monitor addressScript strict) conn claims
        fun result conn' claims' => result = .ok () ∧ Leaves conn claims conn' claims' ∧
          (conn.assigns s = false → rebuilt.blockHash ∉ claims') := by
    split
    · rw [Handler.ensures_call]
      exact ⟨⟨hclaims, trivial⟩, fun _ _ => ⟨rfl, .filter conn claims _, fun _ => notMem_filter_ne _ _⟩⟩
    · rename_i hslot
      refine ⟨rfl, .refl conn claims, fun hassigns => ?_⟩
      rw [assigns, Option.isSome_eq_false_iff] at hassigns
      exact absurd hassigns hslot
  refine hrelease.bind ?_ (fun e conn' claims' h => by cases h.1)
  rintro - conn₁ claims₁ ⟨-, hreleased, hfree⟩
  refine (onRefused_spec ⟨_, some rebuilt⟩ (hreleased.open hclaims) _).mono ?_
  rintro result conn₂ claims₂ ⟨hrefused, hfree'⟩
  refine ⟨hreleased.trans hrefused, ?_⟩
  rintro (hassigns | hfailed)
  · exact fun hopen => hfree hassigns (hrefused.subset hopen)
  · exact hfree' hfailed _ (List.mem_singleton_self _)

/-- Claims open for a share that has none are of the shares that wait. -/
theorem subset_waiting {claimed : Option Hash} (hclaims : claims ⊆ claimed.toList ++ conn.waiting)
    (hfree : ∀ hash, claimed = some hash → hash ∉ claims) : claims ⊆ conn.waiting := by
  intro hash hmem
  refine (List.mem_append.mp (hclaims hmem)).resolve_left fun hclaimed => ?_
  exact hfree hash (Option.mem_toList.mp hclaimed) hmem

theorem filter_subset_waiting {claimed : Option Hash} (hclaims : claims ⊆ claimed.toList ++ conn.waiting) :
    claims.filter (claimed ≠ some ·) ⊆ conn.waiting := by
  refine subset_waiting (List.Subset.trans (List.filter_subset_self _) hclaims) ?_
  exact fun hash hclaimed hmem => of_decide_eq_true (List.mem_filter.mp hmem).2 hclaimed

theorem outcomeOf_spec {verified : Verified} {verdict : JobVerdict}
    (hclaims : claims ⊆ (claimedHash verified).toList ++ conn.waiting)
    (hpays : strict → ∀ rebuilt txns, verified = .ok rebuilt → verdict = .valid txns →
      conn.assigns s = false → refuseIfUnpayable addressScript s.username = false) :
    (outcomeOf addressScript s verified verdict receivedAt).Ensures (monitor addressScript strict) conn claims
      fun result conn' claims' => Leaves conn claims conn' claims' ∧
        (strict ∧ conn.assigns s = false ∨ result.isOk = false →
          ∀ hash, claimedHash verified = some hash → hash ∉ claims') := by
  cases verified with
  | error refusal =>
      have hopen : claims ⊆ rebuiltHash refusal.rebuilt ++ conn.waiting :=
        List.Subset.trans hclaims (List.subset_append_right _ _)
      have hrefused (relay : Option (List Bytes)) :
          (onRefused s refusal relay receivedAt).Ensures (monitor addressScript strict) conn claims
            fun result conn' claims' => Leaves conn claims conn' claims' ∧
              (strict ∧ conn.assigns s = false ∨ result.isOk = false →
                ∀ hash, claimedHash (.error refusal) = some hash → hash ∉ claims') := by
        refine (onRefused_spec _ hopen relay).mono ?_
        rintro result conn' claims' ⟨hleaves, -⟩
        exact ⟨hleaves, fun _ hash hclaimed => by cases hclaimed⟩
      cases verdict with
      | relayOnly txns => exact hrefused (some txns)
      | _ => exact hrefused none
  | ok rebuilt =>
      have hjob (verdict : JobVerdict) :
          (onRefusedByJob s rebuilt verdict receivedAt).Ensures (monitor addressScript strict) conn claims
            fun result conn' claims' => Leaves conn claims conn' claims' ∧
              (strict ∧ conn.assigns s = false ∨ result.isOk = false →
                ∀ hash, claimedHash (.ok rebuilt) = some hash → hash ∉ claims') := by
        refine (onRefusedByJob_spec hclaims verdict).mono ?_
        rintro result conn' claims' ⟨hleaves, hfree⟩
        refine ⟨hleaves, fun hends hash hclaimed => ?_⟩
        obtain rfl := Option.some.inj hclaimed
        exact hfree (hends.imp_left And.right)
      cases verdict with
      | valid txns =>
          refine (onAccepted_spec hclaims txns).mono ?_
          rintro result conn' claims' ⟨hleaves, hfree⟩
          refine ⟨hleaves, fun hends hash hclaimed => ?_⟩
          obtain rfl := Option.some.inj hclaimed
          exact hfree (hends.imp_left fun h => hpays h.1 rebuilt txns rfl rfl h.2)
      | notNeeded => exact hjob .notNeeded
      | pending generation => exact hjob (.pending generation)
      | relayOnly txns => exact hjob (.relayOnly txns)
      | invalid reason => exact hjob (.invalid reason)
      | unchecked reason txns => exact hjob (.unchecked reason txns)

theorem answer_spec {verified : Verified} {verdict : JobVerdict}
    (hclaims : claims ⊆ (claimedHash verified).toList ++ conn.waiting)
    (hpays : strict → ∀ rebuilt txns, verified = .ok rebuilt → verdict = .valid txns →
      conn.assigns s = false → refuseIfUnpayable addressScript s.username = false) :
    (answer addressScript s verified verdict receivedAt).Ensures (monitor addressScript strict) conn claims
      fun _ conn' claims' => Same conn conn' ∧ claims' ⊆ conn'.waiting := by
  unfold answer
  refine (outcomeOf_spec hclaims hpays).bind ?_ ?_
  · rintro outcome conn₁ claims₁ ⟨hleaves, hfree⟩
    simp only [Handler.ensures_bind, Handler.ensures_state, Handler.ensures_call, Handler.then_ok,
      Handler.ensures_orFail]
    have hopen := hleaves.open hclaims
    refine ⟨⟨hopen, fun hstrict hassigns => ?_⟩, fun sent _ => ⟨hleaves.same, filter_subset_waiting hopen⟩⟩
    rw [hleaves.same.assigns] at hassigns
    exact hfree (.inl ⟨hstrict, hassigns⟩)
  · rintro e conn₁ claims₁ ⟨hleaves, hfree⟩
    exact ⟨hleaves.same, subset_waiting (hleaves.open hclaims) (hfree (.inr rfl))⟩

/-! ### Settling -/

/-- The shares held for their job's parent have claimed nothing. -/
def ParentsUnclaimed (conn : Connection) : Prop :=
  ∀ share ∈ conn.shares.held ++ conn.released, share.awaiting ≠ .txns → claimedHash share.verified = none

/-- What a handler leaves: open claims are of the shares that wait. -/
structure Rests (conn : Connection) (claims : List Hash) : Prop where
  claims : claims ⊆ conn.waiting
  parents : conn.ParentsUnclaimed

theorem waiting_setShares {shares : ShareConnection} (hheld : shares.held = conn.shares.held) :
    (setShares shares conn).waiting = conn.waiting := by
  rw [waiting, waiting, setShares, hheld]

theorem ParentsUnclaimed.setShares (hparents : conn.ParentsUnclaimed) {shares : ShareConnection}
    (hheld : shares.held = conn.shares.held) : (setShares shares conn).ParentsUnclaimed := by
  rw [ParentsUnclaimed, Connection.setShares, hheld]
  exact hparents

theorem ParentsUnclaimed.same (hparents : conn.ParentsUnclaimed) (hsame : Same conn conn') :
    conn'.ParentsUnclaimed := by
  rw [ParentsUnclaimed, hsame.shares, hsame.released]
  exact hparents

/-- The claim of a share is what it was, as it was verified. -/
theorem claimedHash_congr {verified verified' : Verified} (hsame : verified'.toOption = verified.toOption) :
    claimedHash verified' = claimedHash verified := by
  rw [claimedHash, claimedHash, hsame]

theorem releaseUnanswered_spec {verified : Verified}
    (hclaims : claims ⊆ (claimedHash verified).toList ++ conn.waiting) :
    (releaseUnanswered verified).Ensures (monitor addressScript strict) conn claims
      fun result conn' claims' => result = .ok () ∧ conn' = conn ∧
        claims' = claims.filter (claimedHash verified ≠ some ·) := by
  cases verified with
  | error refusal =>
      refine ⟨rfl, rfl, (List.filter_eq_self.mpr fun hash _ => ?_).symm⟩
      exact decide_eq_true fun hclaimed => by cases hclaimed
  | ok rebuilt =>
      rw [releaseUnanswered, Handler.ensures_call]
      refine ⟨⟨hclaims, trivial⟩, fun _ _ => ⟨rfl, rfl, ?_⟩⟩
      refine List.filter_congr fun hash _ => ?_
      simp [claimedHash, Except.toOption, eq_comm]

/-- A share settled is answered, or waits with its claim. -/
theorem settle_spec {verified : Verified} {parentHold : Option Instant}
    (hclaims : claims ⊆ (claimedHash verified).toList ++ conn.waiting) (hparents : conn.ParentsUnclaimed) :
    (settle addressScript s verified receivedAt parentHold).Ensures (monitor addressScript strict) conn claims
      fun _ conn' claims' => conn'.released = conn.released ∧ conn'.Rests claims' := by
  unfold settle
  simp only [Handler.ensures_bind, Handler.ensures_call, Handler.then_ok]
  refine ⟨⟨hclaims, trivial⟩, ?_⟩
  rintro ⟨io, relayedBlocks⟩ hallows
  simp only [Handler.ensures_state, Handler.then_ok]
  cases hsettled : conn.shares.settle io relayedBlocks s verified receivedAt parentHold with
  | error e =>
      refine (releaseUnanswered_spec hclaims).bind ?_ (fun e conn' claims' h => by cases h.1)
      rintro - _ _ ⟨-, rfl, rfl⟩
      exact ⟨rfl, filter_subset_waiting hclaims, hparents⟩
  | ok outcome =>
      obtain ⟨settled, shares⟩ := outcome
      cases ShareConnection.settle_settles hsettled with
      | held share hheld hsame hparent =>
          refine ⟨rfl, ?_, ?_⟩
          · intro hash hmem
            obtain hclaimed | hwaits := List.mem_append.mp (hclaims hmem)
            · rw [← claimedHash_congr hsame] at hclaimed
              simp only [waiting, setShares, hheld, List.filterMap_append, List.mem_append]
              exact .inl (.inr (List.mem_filterMap.mpr
                ⟨share, List.mem_singleton_self _, Option.mem_toList.mp hclaimed⟩))
            · simp only [waiting, setShares, hheld, List.filterMap_append, List.mem_append] at hwaits ⊢
              exact hwaits.imp_left .inl
          · intro other hother hawaits
            simp only [setShares, hheld, List.mem_append, List.mem_singleton] at hother
            obtain (hother | rfl) | hother := hother
            · exact hparents other (List.mem_append_left _ hother) hawaits
            · rw [claimedHash, hparent hawaits]
              rfl
            · exact hparents other (List.mem_append_right _ hother) hawaits
      | answered verdict hheld hsame =>
          rename_i verified'
          have hclaimed := claimedHash_congr hsame
          rw [Handler.ensures_bind, Handler.ensures_modify, Handler.then_ok]
          refine (answer_spec ?_ ?_).mono ?_
          · rwa [hclaimed, waiting_setShares hheld]
          · rintro hstrict rebuilt txns rfl rfl hassigns
            exact hallows hstrict rebuilt txns shares hsettled hassigns
          · rintro result conn' claims' ⟨hleft, hwaits⟩
            exact ⟨hleft.released, hwaits, (hparents.setShares hheld).same hleft⟩

theorem verifyAndClaim_spec {H : Hashing} {now : Nat} (h : conn.Rests claims) :
    (verifyAndClaim H s now).Ensures (monitor addressScript strict) conn claims
      fun result conn' claims' => (∃ verified, result = .ok verified ∧
        claims' ⊆ (claimedHash verified).toList ++ conn'.waiting) ∧
          conn'.released = conn.released ∧ conn'.ParentsUnclaimed := by
  unfold verifyAndClaim
  simp only [Handler.ensures_bind, Handler.ensures_state, Handler.ensures_modify, Handler.then_ok]
  have hwaits : claims ⊆ (setShares { conn.shares with
      verifier := (conn.shares.verifier.verify H s conn.v3 now).2 } conn).waiting := h.claims
  split
  · rename_i refusal _
    exact ⟨⟨.error refusal, rfl, hwaits⟩, rfl, h.parents.setShares rfl⟩
  · rename_i rebuilt _
    simp only [Handler.ensures_bind, Handler.ensures_call, Handler.then_ok]
    refine ⟨⟨hwaits, trivial⟩, fun claimed _ => ?_⟩
    cases claimed with
    | false => exact ⟨⟨_, rfl, hwaits⟩, rfl, h.parents.setShares rfl⟩
    | true => exact ⟨⟨_, rfl, List.cons_subset_cons _ hwaits⟩, rfl, h.parents.setShares rfl⟩

theorem onShare_spec {H : Hashing} (h : conn.Rests claims) :
    (onShare H addressScript s).Ensures (monitor addressScript strict) conn claims
      fun _ conn' claims' => conn'.released = conn.released ∧ conn'.Rests claims' := by
  unfold onShare
  rw [Handler.ensures_bind, Handler.ensures_call]
  refine ⟨⟨h.claims, trivial⟩, fun now _ => ?_⟩
  rw [Handler.then_ok]
  refine (verifyAndClaim_spec h).bind ?_ ?_
  · rintro verified conn₁ claims₁ ⟨⟨_, hok, hclaims⟩, hreleased, hparents⟩
    obtain rfl := Except.ok.inj hok
    rw [Handler.ensures_bind, Handler.ensures_call]
    refine ⟨⟨hclaims, trivial⟩, fun instant _ => ?_⟩
    rw [Handler.then_ok]
    refine (settle_spec hclaims hparents).mono ?_
    rintro result conn₂ claims₂ ⟨hsame, hrests⟩
    exact ⟨hsame.trans hreleased, hrests⟩
  · rintro e conn₁ claims₁ ⟨⟨_, hok, -⟩, -⟩
    cases hok

/-! ### Releasing -/

theorem resettle_spec {H : Hashing} {share : HeldShare}
    (hclaims : claims ⊆ (claimedHash share.verified).toList ++ conn.waiting) (hparents : conn.ParentsUnclaimed)
    (hparent : share.awaiting ≠ .txns → claimedHash share.verified = none) :
    (resettle H addressScript share).Ensures (monitor addressScript strict) conn claims
      fun _ conn' claims' => conn'.released = conn.released ∧ conn'.Rests claims' := by
  unfold resettle
  split
  · exact settle_spec hclaims hparents
  · rename_i until_ hawaiting
    rw [hparent (by rw [hawaiting]; exact fun h => by cases h)] at hclaims
    rw [Handler.ensures_bind, Handler.ensures_call]
    refine ⟨⟨hclaims, trivial⟩, fun now _ => ?_⟩
    rw [Handler.then_ok]
    refine (verifyAndClaim_spec ⟨hclaims, hparents⟩).bind ?_ ?_
    · rintro verified conn₁ claims₁ ⟨⟨_, hok, hclaims⟩, hreleased, hparents⟩
      obtain rfl := Except.ok.inj hok
      refine (settle_spec hclaims hparents).mono ?_
      rintro result conn₂ claims₂ ⟨hsame, hrests⟩
      exact ⟨hsame.trans hreleased, hrests⟩
    · rintro e conn₁ claims₁ ⟨⟨_, hok, -⟩, -⟩
      cases hok

theorem resettleAll_spec {H : Hashing} {released : List HeldShare} (hreleased : conn.released = released)
    (h : conn.Rests claims) :
    (resettleAll H addressScript released).Ensures (monitor addressScript strict) conn claims
      fun result conn' claims' => (result = .ok () → conn'.released = []) ∧ conn'.Rests claims' := by
  induction released generalizing conn claims with
  | nil => exact ⟨fun _ => hreleased, h⟩
  | cons share released ih =>
      unfold resettleAll
      rw [Handler.ensures_bind, Handler.ensures_modify, Handler.then_ok]
      have hshare : share ∈ conn.shares.held ++ conn.released := by
        rw [hreleased]
        exact List.mem_append_right _ List.mem_cons_self
      have hclaims : claims ⊆ (claimedHash share.verified).toList ++ (setReleased released conn).waiting := by
        intro hash hmem
        have hwaits := h.claims hmem
        rw [waiting, hreleased, List.filterMap_append, List.mem_append, List.mem_filterMap,
          List.mem_filterMap] at hwaits
        rw [List.mem_append, Option.mem_toList, waiting, setReleased, List.filterMap_append, List.mem_append,
          List.mem_filterMap, List.mem_filterMap]
        obtain hheld | ⟨other, hother, hclaimed⟩ := hwaits
        · exact .inr (.inl hheld)
        · obtain rfl | hother := List.mem_cons.mp hother
          · exact .inl hclaimed
          · exact .inr (.inr ⟨other, hother, hclaimed⟩)
      have hparents : (setReleased released conn).ParentsUnclaimed := by
        intro other hother hawaits
        refine h.parents other ?_ hawaits
        rw [hreleased]
        exact (List.mem_append.mp hother).elim (List.mem_append_left _) fun hother =>
          List.mem_append_right _ (List.mem_cons_of_mem _ hother)
      refine (resettle_spec hclaims hparents (h.parents share hshare)).bind ?_ ?_
      · rintro - conn₁ claims₁ ⟨hsame, hrests⟩
        exact ih hsame hrests
      · rintro e conn₁ claims₁ ⟨-, hrests⟩
        exact ⟨(fun hok => by cases hok), hrests⟩

theorem mem_takeHeld {selected : HeldShare → Bool} {share : HeldShare} (hnone : conn.released = []) :
    share ∈ (takeHeld selected conn).shares.held ++ (takeHeld selected conn).released ↔
      share ∈ conn.shares.held ++ conn.released := by
  rw [hnone, List.append_nil, takeHeld, List.mem_append, List.mem_filter, List.mem_filter, ← and_or_left]
  cases selected share <;> simp

theorem releaseHeld_spec {H : Hashing} {selected : HeldShare → Bool} (hnone : conn.released = [])
    (h : conn.Rests claims) :
    (releaseHeld H addressScript selected).Ensures (monitor addressScript strict) conn claims
      fun result conn' claims' => (result = .ok () → conn'.released = []) ∧ conn'.Rests claims' := by
  unfold releaseHeld
  simp only [Handler.ensures_bind, Handler.ensures_modify, Handler.ensures_state, Handler.then_ok]
  refine resettleAll_spec rfl ⟨fun hash hmem => ?_, fun share hshare => ?_⟩
  · obtain ⟨share, hshare, hclaimed⟩ := List.mem_filterMap.mp (h.claims hmem)
    exact List.mem_filterMap.mpr ⟨share, (mem_takeHeld hnone).mpr hshare, hclaimed⟩
  · exact h.parents share ((mem_takeHeld hnone).mp hshare)

/-! ### Dropping -/

/-- Dropping a connection ends the claims of the shares held: those left are of shares released and not
settled again. -/
theorem releaseClaims_spec {held : List HeldShare} (hheld : conn.shares.held = held) (h : conn.Rests claims) :
    (releaseClaims held).Ensures (monitor addressScript strict) conn claims
      fun result conn' claims' => result = .ok () ∧ conn'.shares.held = [] ∧
        conn'.released = conn.released ∧ conn'.Rests claims' := by
  induction held generalizing conn claims with
  | nil => exact ⟨rfl, hheld, rfl, h⟩
  | cons share held ih =>
      unfold releaseClaims
      refine (releaseUnanswered_spec (List.Subset.trans h.claims (List.subset_append_right _ _))).bind ?_
        (fun e conn' claims' h => by cases h.1)
      rintro - conn' _ ⟨-, hsame, rfl⟩
      rw [hsame, Handler.ensures_bind, Handler.ensures_modify, Handler.then_ok]
      have hclaims : claims ⊆ (claimedHash share.verified).toList ++ (setHeld held conn).waiting := by
        intro hash hmem
        have hwaits := h.claims hmem
        rw [waiting, hheld, List.cons_append, List.filterMap_cons] at hwaits
        cases hclaimed : claimedHash share.verified with
        | none =>
            rw [hclaimed] at hwaits
            exact hwaits
        | some claimed =>
            rw [hclaimed] at hwaits
            exact hwaits
      refine (ih rfl ⟨filter_subset_waiting hclaims, ?_⟩).mono ?_
      · intro other hother
        refine h.parents other ?_
        rw [hheld]
        exact List.mem_cons_of_mem _ hother
      · rintro result conn' claims' ⟨hok, hempty, hreleased, hrests⟩
        exact ⟨hok, hempty, hreleased, hrests⟩

theorem drop_spec (h : conn.Rests claims) :
    drop.Ensures (monitor addressScript strict) conn claims fun result conn' claims' =>
      result = .ok () ∧ conn'.shares.held = [] ∧ conn'.released = conn.released ∧ conn'.Rests claims' := by
  unfold drop
  rw [Handler.ensures_bind, Handler.ensures_state, Handler.then_ok]
  exact releaseClaims_spec rfl h

end Connection

end Ratum
