import Ratum.Abw.Slots
import Ratum.Verify.Jobs
import Ratum.Verify.Username

/-!
# Verifying a share

`prime/src/verify.rs`: a share rebuilt on the sections it carries or the ones installed, and checked
against the connection's jobs, splits and tip.
-/

namespace Ratum

def SPLIT_GRACE_SECS : Nat := 10

def allowsMinDifficultyBlocks (chain : Option Chain) : Bool :=
  chain = some .test || chain = some .testnet4

/-- Whether the share's hash meets the target its target byte names. -/
def meetsShareTarget (s : PowSubmit) (rebuilt : RebuiltShare) : Bool :=
  meetsTarget rebuilt.rawPowHash (targetForExponent s.targetByte)

def checkCoinbaseId (s : PowSubmit) : Except RejectReason Unit :=
  if if s.subsidyOnly then s.coinbaseId = COINBASE_ID_SUBSIDY_ONLY else s.coinbaseId < MAX_COINBASE_TYPES
  then .ok ()
  else .error .badCoinbaseId

/-- The slot key of the share's assignment; no connection state is no assignment. -/
def PowSubmit.slotKey (s : PowSubmit) : Option AbwSlotState → Except RejectReason (Option (XorKey × SlotKeyStatus))
  | none => .ok none
  | some abw =>
      match s.abwSlot.bind abw.keyFor with
      | some key => .ok (some key)
      | none => .error .badAbwSlot

namespace Verifier

variable (H : Hashing) (v : Verifier)

def nextTarget : Option Target := v.next.bind fun n => bitsToTarget n.bits

/-- The template, when it describes the block a job on `prevHash` builds. -/
def nextOn (prevHash : Hash) : Option NextBlock :=
  v.next.filter fun n => n.prevHash.elim (v.tip = some prevHash) (· = prevHash)

/-- Rebuilds the share. The eviction of the job and the reveal of the slot key come before any later
reason. -/
def rebuild (s : PowSubmit) (abw : Option AbwSlotState) : Except Refusal RebuiltShare := do
  let refuse (first : Option RejectReason) (reason : RejectReason) : Refusal :=
    .unreferenced (first.getD reason)
  (checkCoinbaseId s).mapError .unreferenced
  let stale := if v.namesEvictedJob s then some RejectReason.staleBlock else none
  let (job, cb) ← (v.resolve s).mapError (refuse stale)
  let slotKey ← (s.slotKey abw).mapError (refuse stale)
  let revealed := slotKey.any fun (_, status) => status = .revealed
  let first := stale <|> if revealed then some .badAbwSlot else none
  let rebuilt ← (rebuildShare H v.policy.config v.splits v.nextTarget job cb s
    (slotKey.map Prod.fst)).mapError (refuse first)
  match first with
  | some reason => throw ⟨reason, some rebuilt⟩
  | none => pure rebuilt

def checkJobHeader (s : PowSubmit) (rebuilt : RebuiltShare) : Except RejectReason Unit :=
  match v.nextOn rebuilt.prevHash with
  | none => .ok ()
  | some next =>
      if !allowsMinDifficultyBlocks v.policy.chain && rebuilt.jobBits ≠ next.bits then .error .badTarget
      else if next.height.any (· ≠ rebuilt.height) then .error .headerFieldMismatch
      else if next.mintime.any (s.blockTime.toNat < ·) then .error .badNtime
      else .ok ()

def checkSplit (s : PowSubmit) (rebuilt : RebuiltShare) (now : Nat) : Except RejectReason Unit :=
  if s.subsidyOnly || rebuilt.paidToSplit ≠ 0 || rebuilt.coinbaserId = 0 || rebuilt.isBlock then .ok ()
  else if (v.splits.get rebuilt.coinbaserId).any fun split =>
      !split.outputs.isEmpty && SPLIT_GRACE_SECS < now - split.sentAt then
    .error .noSplit
  else .ok ()

def checkShare (s : PowSubmit) (rebuilt : RebuiltShare) (now : Nat) : Except RejectReason Unit := do
  if v.tip.any (rebuilt.prevHash ≠ ·) && !v.withinTipGrace rebuilt.prevHash now &&
      (!rebuilt.isBlock || v.parentUnseen s rebuilt.prevHash) then
    throw .staleBlock
  v.checkSplit s rebuilt now
  checkUsernameAndTime s now

/-- The sections are installed before the share is checked, and stay installed when it is refused. -/
def checkRebuilt (s : PowSubmit) (rebuilt : RebuiltShare) (now : Nat) (meets : Bool) :
    Except RejectReason Unit × Verifier :=
  match v.checkJobHeader s rebuilt with
  | .error reason => (.error reason, v)
  | .ok () =>
      let installed := if meets || rebuilt.isBlock then v.installSections s rebuilt.rawPowHash now
        else .ok v
      match installed with
      | .error reason => (.error reason, v)
      | .ok v' =>
          match v'.checkShare s rebuilt now with
          | .error reason => (.error reason, v')
          | .ok () => (if meets then .ok () else .error .highHash, v')

def verify (s : PowSubmit) (abw : Option AbwSlotState) (now : Nat) :
    Except Refusal RebuiltShare × Verifier :=
  match v.rebuild H s abw with
  | .error refusal =>
      (.error { refusal with
        rebuilt := refusal.rebuilt.map fun r => { r with jobGeneration := v.installedGeneration s } }, v)
  | .ok rebuilt =>
      let (checked, v') := v.checkRebuilt s rebuilt now (meetsShareTarget s rebuilt)
      let rebuilt := { rebuilt with jobGeneration := v'.installedGeneration s }
      match checked with
      | .ok () => (.ok rebuilt, v')
      | .error reason => (.error ⟨reason, some rebuilt⟩, v')

/-- Whether the share's sections are installed when it is verified. -/
def installs (s : PowSubmit) (abw : Option AbwSlotState) (now : Nat) : Bool :=
  match v.rebuild H s abw with
  | .error _ => false
  | .ok rebuilt =>
      (v.checkJobHeader s rebuilt).isOk && (meetsShareTarget s rebuilt || rebuilt.isBlock) &&
        (v.installSections s rebuilt.rawPowHash now).isOk

/-! ### The splits -/

def nextCoinbaserId : UInt8 := v.splits.nextId

def recordDictated (coinbaserId : UInt8) (value : Nat) (prevHash : Hash) (outputs : List DictatedOutput)
    (now : Nat) : Verifier :=
  { v with splits := v.splits.record coinbaserId value prevHash outputs now }

/-- Whether a hash is a tip replaced recently enough to be among those kept. -/
def recentTip (prevHash : Hash) : Bool := v.recentTips.any fun t => t.hash = prevHash

/-- The splits to save with a session: the newest of those on the tip or a tip replaced recently. -/
def takeSplits : DictatedSplits × Verifier :=
  let splits := if v.tip.isSome
    then v.splits.retainPrev fun prev => v.tip = some prev || v.recentTip prev
    else v.splits
  (splits.keepNewest SAVED_SPLITS, { v with splits := .empty })

def restoreSplits (splits : DictatedSplits) : Verifier := { v with splits }

/-! ### What verifying a share installs -/

variable {H} {v} {s : PowSubmit} {abw : Option AbwSlotState} {now : Nat} {rebuilt : RebuiltShare}
  {refusal : Refusal}

theorem snd_verify_of_error (hrebuild : v.rebuild H s abw = .error refusal) :
    (v.verify H s abw now).2 = v := by
  rw [verify, hrebuild]

theorem snd_verify_of_ok (hrebuild : v.rebuild H s abw = .ok rebuilt) :
    (v.verify H s abw now).2 = (v.checkRebuilt s rebuilt now (meetsShareTarget s rebuilt)).2 := by
  rw [verify, hrebuild]
  dsimp only
  cases (v.checkRebuilt s rebuilt now (meetsShareTarget s rebuilt)).1 <;> rfl

theorem snd_checkRebuilt_of_ok {meets : Bool} {v' : Verifier} (hheader : v.checkJobHeader s rebuilt = .ok ())
    (hinstalled : (if meets || rebuilt.isBlock then v.installSections s rebuilt.rawPowHash now
      else .ok v) = .ok v') : (v.checkRebuilt s rebuilt now meets).2 = v' := by
  rw [checkRebuilt, hheader]
  dsimp only
  rw [hinstalled]
  dsimp only
  cases v'.checkShare s rebuilt now <;> rfl

theorem snd_checkRebuilt_of_error {meets : Bool}
    (herror : ∀ v', v.checkJobHeader s rebuilt = .ok () →
      (if meets || rebuilt.isBlock then v.installSections s rebuilt.rawPowHash now else .ok v) ≠ .ok v') :
    (v.checkRebuilt s rebuilt now meets).2 = v := by
  rw [checkRebuilt]
  cases hheader : v.checkJobHeader s rebuilt with
  | error reason => rfl
  | ok _ =>
      dsimp only
      cases hinstalled : (if meets || rebuilt.isBlock then v.installSections s rebuilt.rawPowHash now
        else .ok v) with
      | error reason => rfl
      | ok v' => exact absurd hinstalled (herror v' hheader)

/-- A share whose sections are installed leaves the verifier they were installed in. -/
theorem verify_installs (hinstalls : v.installs H s abw now = true) :
    ∃ rawPowHash, v.installSections s rawPowHash now = .ok (v.verify H s abw now).2 := by
  rw [installs] at hinstalls
  split at hinstalls
  · cases hinstalls
  · rename_i rebuilt hrebuild
    rw [Bool.and_eq_true, Bool.and_eq_true] at hinstalls
    obtain ⟨⟨hheader, hmeets⟩, hinstall⟩ := hinstalls
    refine ⟨rebuilt.rawPowHash, ?_⟩
    cases hsections : v.installSections s rebuilt.rawPowHash now with
    | error reason =>
        rw [hsections] at hinstall
        cases hinstall
    | ok v' =>
        cases hchecked : v.checkJobHeader s rebuilt with
        | error reason =>
            rw [hchecked] at hheader
            cases hheader
        | ok _ =>
            rw [snd_verify_of_ok hrebuild, snd_checkRebuilt_of_ok hchecked]
            rw [hmeets, if_pos rfl, hsections]

/-- A share whose sections are not installed changes nothing. -/
theorem verify_not_installs (hinstalls : v.installs H s abw now = false) :
    (v.verify H s abw now).2 = v := by
  rw [installs] at hinstalls
  cases hrebuild : v.rebuild H s abw with
  | error refusal => exact snd_verify_of_error hrebuild
  | ok rebuilt =>
      rw [hrebuild] at hinstalls
      dsimp only at hinstalls
      rw [snd_verify_of_ok hrebuild]
      cases hchecked : v.checkJobHeader s rebuilt with
      | error reason =>
          apply snd_checkRebuilt_of_error
          intro v' hheader
          rw [hchecked] at hheader
          cases hheader
      | ok _ =>
          cases hmeets : meetsShareTarget s rebuilt || rebuilt.isBlock with
          | false =>
              refine snd_checkRebuilt_of_ok hchecked ?_
              rw [hmeets, if_neg Bool.false_ne_true]
          | true =>
              cases hsections : v.installSections s rebuilt.rawPowHash now with
              | error reason =>
                  apply snd_checkRebuilt_of_error
                  intro v' _ hinstalled
                  rw [hmeets, if_pos rfl, hsections] at hinstalled
                  cases hinstalled
              | ok v' =>
                  rw [hchecked, hmeets, hsections] at hinstalls
                  cases hinstalls

/-! ### What a resolved share is rebuilt on -/

theorem checkJobHeader_failsIn : FailsIn (fun reason => reason.unresolved = false)
    (v.checkJobHeader s rebuilt) := by
  rw [checkJobHeader]
  split
  · exact .ok _
  · exact .ite (fun _ => .error rfl) fun _ => .ite (fun _ => .error rfl) fun _ =>
      .ite (fun _ => .error rfl) fun _ => .ok _

theorem installSections_failsIn {rawPowHash : Hash} : FailsIn (fun reason => reason.unresolved = false)
    (v.installSections s rawPowHash now) :=
  .ite (fun _ => .error rfl) fun _ => .ite (fun _ => .error rfl) fun _ => .ok _

theorem checkShare_failsIn : FailsIn (fun reason => reason.unresolved = false)
    (v.checkShare s rebuilt now) := by
  rw [checkShare]
  refine .ite (fun _ => .error rfl) fun _ => .bind ?_ fun _ _ => ?_
  · exact .ite (fun _ => .ok _) fun _ => .ite (fun _ => .error rfl) fun _ => .ok _
  · exact .ite (fun _ => .error rfl) fun _ => .ite (fun _ => .error rfl) fun _ => .ok _

theorem checkRebuilt_failsIn {meets : Bool} : FailsIn (fun reason => reason.unresolved = false)
    (v.checkRebuilt s rebuilt now meets).1 := by
  intro reason herror
  rw [checkRebuilt] at herror
  cases hheader : v.checkJobHeader s rebuilt with
  | error reason' =>
      rw [hheader] at herror
      obtain rfl := Except.error.inj herror
      exact checkJobHeader_failsIn _ hheader
  | ok _ =>
      rw [hheader] at herror
      dsimp only at herror
      split at herror
      · rename_i reason' hinstalled
        obtain rfl := Except.error.inj herror
        split at hinstalled
        · exact installSections_failsIn _ hinstalled
        · cases hinstalled
      · rename_i v' hinstalled
        cases hshare : v'.checkShare s rebuilt now with
        | error reason' =>
            rw [hshare] at herror
            obtain rfl := Except.error.inj herror
            exact checkShare_failsIn _ hshare
        | ok _ =>
            rw [hshare] at herror
            cases meets
            · obtain rfl := Except.error.inj herror
              rfl
            · cases herror

/-- The share of an answer, as rebuilt. -/
def answeredShare : Except Refusal RebuiltShare → Option RebuiltShare
  | .ok rebuilt => some rebuilt
  | .error refusal => refusal.rebuilt

/-- An answer given on the sections a share resolved to. -/
structure RebuiltOn (H : Hashing) (v : Verifier) (s : PowSubmit) (job : JobSection)
    (cb : CoinbaseSection) (answer : Except Refusal RebuiltShare) : Prop where
  resolved : FailsIn (fun refusal => refusal.reason.unresolved = false) answer
  rebuilt : ∀ share, answeredShare answer = some share → ∃ abwKey generation share',
    rebuildShare H v.policy.config v.splits v.nextTarget job cb s abwKey = .ok share' ∧
      share = { share' with jobGeneration := generation }

theorem RebuiltOn.unreferenced {job : JobSection} {cb : CoinbaseSection} {reason : RejectReason}
    (hreason : reason.unresolved = false) : RebuiltOn H v s job cb (.error (.unreferenced reason)) where
  resolved := .error hreason
  rebuilt share hshare := by cases hshare

theorem RebuiltOn.accepted {job : JobSection} {cb : CoinbaseSection} {abwKey : Option XorKey}
    {share : RebuiltShare}
    (hrebuild : rebuildShare H v.policy.config v.splits v.nextTarget job cb s abwKey = .ok share)
    (generation : Option Nat) :
    RebuiltOn H v s job cb (.ok { share with jobGeneration := generation }) where
  resolved := .ok _
  rebuilt share' hshare := by
    obtain rfl := Option.some.inj hshare
    exact ⟨abwKey, generation, share, hrebuild, rfl⟩

theorem RebuiltOn.refused {job : JobSection} {cb : CoinbaseSection} {abwKey : Option XorKey}
    {share : RebuiltShare} {reason : RejectReason} (hreason : reason.unresolved = false)
    (hrebuild : rebuildShare H v.policy.config v.splits v.nextTarget job cb s abwKey = .ok share)
    (generation : Option Nat) :
    RebuiltOn H v s job cb (.error ⟨reason, some { share with jobGeneration := generation }⟩) where
  resolved := .error hreason
  rebuilt share' hshare := by
    obtain rfl := Option.some.inj hshare
    exact ⟨abwKey, generation, share, hrebuild, rfl⟩

theorem checkCoinbaseId_failsIn : FailsIn (fun reason => reason.unresolved = false) (checkCoinbaseId s) :=
  .ite (fun _ => .ok _) fun _ => .error rfl

theorem slotKey_failsIn : FailsIn (fun reason => reason.unresolved = false) (s.slotKey abw) := by
  cases abw with
  | none => exact .ok _
  | some abw =>
      rw [PowSubmit.slotKey]
      split
      · exact .ok _
      · exact .error rfl

theorem rebuild_rebuiltOn {job : JobSection} {cb : CoinbaseSection} (hresolve : v.resolve s = .ok (job, cb)) :
    RebuiltOn H v s job cb (v.rebuild H s abw) := by
  have hgetD {first : Option RejectReason} {reason : RejectReason} (hfirst : first.all (!·.unresolved))
      (hreason : reason.unresolved = false) : (first.getD reason).unresolved = false := by
    cases first with
    | none => exact hreason
    | some first => simpa using hfirst
  rw [rebuild]
  cases hid : checkCoinbaseId s with
  | error reason => exact .unreferenced (checkCoinbaseId_failsIn _ hid)
  | ok _ =>
      dsimp only
      rw [hresolve]
      generalize hstale : (if v.namesEvictedJob s then some RejectReason.staleBlock else none) = stale
      have hstale : stale.all (!·.unresolved) := by
        subst hstale
        split <;> rfl
      cases hkey : s.slotKey abw with
      | error reason => exact .unreferenced (hgetD hstale (slotKey_failsIn _ hkey))
      | ok key =>
          dsimp only [Except.mapError, bind, Except.bind]
          generalize hfirst : (stale <|> if key.any _ then some RejectReason.badAbwSlot else none) = first
          have hfirst : first.all (!·.unresolved) := by
            subst hfirst
            cases stale with
            | some reason => exact hstale
            | none =>
                show Option.all _ (if _ then _ else _) = true
                split <;> rfl
          cases hrebuild : rebuildShare H v.policy.config v.splits v.nextTarget job cb s (key.map Prod.fst) with
          | error reason =>
              have hreason := rebuildShare_ofRebuild job cb s _ reason hrebuild
              exact .unreferenced (hgetD hfirst (RejectReason.ofRebuild_unresolved hreason))
          | ok share =>
              cases first with
              | none => exact .accepted hrebuild share.jobGeneration
              | some reason => exact .refused (by simpa using hfirst) hrebuild share.jobGeneration

/-- A share that resolves is rebuilt on the sections it resolves to, and not refused for missing ones. -/
theorem verify_rebuiltOn {job : JobSection} {cb : CoinbaseSection} (hresolve : v.resolve s = .ok (job, cb)) :
    RebuiltOn H v s job cb (v.verify H s abw now).1 := by
  have hrebuilt : RebuiltOn H v s job cb (v.rebuild H s abw) := rebuild_rebuiltOn hresolve
  rw [verify]
  cases hrebuild : v.rebuild H s abw with
  | error refusal =>
      rw [hrebuild] at hrebuilt
      refine ⟨.error (hrebuilt.resolved refusal rfl), ?_⟩
      intro share hshare
      obtain ⟨share', hshare', rfl⟩ := Option.map_eq_some_iff.mp hshare
      obtain ⟨abwKey, generation, share₀, hok, rfl⟩ := hrebuilt.rebuilt share' hshare'
      exact ⟨abwKey, _, share₀, hok, rfl⟩
  | ok rebuilt =>
      rw [hrebuild] at hrebuilt
      obtain ⟨abwKey, generation, share, hok, rfl⟩ := hrebuilt.rebuilt rebuilt rfl
      dsimp only
      cases hchecked : (v.checkRebuilt s _ now (meetsShareTarget s _)).1 with
      | ok _ => exact .accepted hok _
      | error reason => exact .refused (checkRebuilt_failsIn reason hchecked) hok _

end Verifier
end Ratum
