import Ratum.Verify.Runs

/-!
# When a share on the tip is stale

A job is evicted while another hash is the tip, and an eviction is final, so a tip that comes back finds
the jobs evicted meanwhile stale. No other share on the tip is refused as stale.
-/

namespace Ratum

/-- The reasons that neither a share's tip nor its hash decides. -/
def RejectReason.ofContents : RejectReason → Bool
  | staleBlock | highHash => false
  | _ => true

theorem RejectReason.ofContents_ne_stale {reason : RejectReason} (h : reason.ofContents) :
    reason ≠ .staleBlock := by
  rintro rfl
  cases h

namespace Verifier

variable {H : Hashing} {v : Verifier} {s : PowSubmit} {abw : Option AbwSlotState} {now : Nat}
  {rebuilt : RebuiltShare}

/-- A share refused as stale. -/
def Stale (answer : Except Refusal RebuiltShare) : Prop :=
  ∃ refusal, answer = .error refusal ∧ refusal.reason = .staleBlock

/-! ### One verdict -/

theorem rebuildShare_prevHash {config : ClientConfig} {splits : DictatedSplits} {nextTarget : Option Target}
    {job : JobSection} {cb : CoinbaseSection} {abwKey : Option XorKey} :
    Gives (fun rebuilt => rebuilt.prevHash = job.prevHash)
      (rebuildShare H config splits nextTarget job cb s abwKey) := by
  rw [rebuildShare]
  refine .ite (fun _ => .error _) fun _ => .bind fun parsed _ => .ite (fun _ => .error _) fun _ => ?_
  split
  · refine .ite (fun _ => .error _) fun _ => .bind fun payments _ => ?_
    split
    · exact .ok rfl
    · exact .error _
  · exact .error _

/-- A share rebuilt is on the job it resolves to. -/
theorem rebuild_prevHash {job : JobSection} (hjob : v.resolveJob s = .ok job) :
    Gives (fun rebuilt => rebuilt.prevHash = job.prevHash) (v.rebuild H s abw) := by
  rw [rebuild]
  refine .bind fun _ _ => .bind fun sections hresolve => .bind fun key _ => .bind fun rebuilt hrebuilt => ?_
  have hsections : sections.1 = job := by
    rw [resolve, hjob] at hresolve
    cases hcoinbase : v.resolveCoinbase s with
    | error reason =>
        rw [hcoinbase] at hresolve
        cases hresolve
    | ok cb =>
        rw [hcoinbase] at hresolve
        cases hresolve
        rfl
  have hprev : rebuilt.prevHash = job.prevHash := by
    cases hshare : rebuildShare H v.policy.config v.splits v.nextTarget sections.1 sections.2 s
        (key.map Prod.fst) with
    | error reason =>
        rw [hshare] at hrebuilt
        cases hrebuilt
    | ok share =>
        rw [hshare] at hrebuilt
        cases hrebuilt
        rw [← hsections]
        exact rebuildShare_prevHash rebuilt hshare
  split
  · exact .error _
  · exact .ok hprev

theorem resolve_ofContents : FailsIn (·.ofContents) (v.resolve s) := by
  rw [resolve]
  refine .bind ?_ fun job _ => .bind ?_ fun cb _ => .ok _
  · rw [resolveJob]
    split
    · exact .ok _
    · exact .ok _
    · exact .error rfl
  · rw [resolveCoinbase]
    split
    · exact .ite (fun _ => .error rfl) fun _ =>
        .ite (fun _ => .error rfl) fun _ => .ok _
    · split
      · exact .ok _
      · exact .error rfl

theorem slotKey_ofContents : FailsIn (·.ofContents) (s.slotKey abw) := by
  cases abw with
  | none => exact .ok _
  | some abw =>
      rw [PowSubmit.slotKey]
      split
      · exact .ok _
      · exact .error rfl

theorem rebuildShare_ofContents {job : JobSection} {cb : CoinbaseSection} {abwKey : Option XorKey} :
    FailsIn (·.ofContents)
      (rebuildShare H v.policy.config v.splits v.nextTarget job cb s abwKey) := by
  intro reason herror
  have hreason := rebuildShare_ofRebuild job cb s abwKey reason herror
  cases reason <;> first | rfl | cases hreason

/-- Whatever else is wrong with a share, one that names an evicted job is refused as stale when its
coinbase id is one its work can carry. -/
theorem rebuild_stale (hid : checkCoinbaseId s = .ok ()) (hevicted : v.namesEvictedJob s = true) :
    Stale (v.rebuild H s abw) := by
  rw [rebuild, hid, hevicted]
  cases hresolve : v.resolve s with
  | error reason => exact ⟨_, rfl, rfl⟩
  | ok sections =>
      cases hkey : s.slotKey abw with
      | error reason => exact ⟨_, rfl, rfl⟩
      | ok key =>
          cases hshare : rebuildShare H v.policy.config v.splits v.nextTarget sections.1 sections.2 s
              (key.map Prod.fst) with
          | error reason =>
              simp only [if_true, Except.mapError, bind, Except.bind, hshare]
              exact ⟨_, rfl, rfl⟩
          | ok share =>
              simp only [if_true, Except.mapError, bind, Except.bind, hshare]
              exact ⟨_, rfl, rfl⟩

theorem checkCoinbaseId_ofContents : FailsIn (·.ofContents) (checkCoinbaseId s) :=
  .ite (fun _ => .ok _) fun _ => .error rfl

/-- A share that names no evicted job is refused for its contents before its tip is looked at. -/
theorem rebuild_failsIn {P : RejectReason → Prop}
    (hcontents : ∀ reason : RejectReason, reason.ofContents → P reason)
    (hstale : v.namesEvictedJob s = true → P .staleBlock) :
    FailsIn (fun refusal => P refusal.reason) (v.rebuild H s abw) := by
  rw [rebuild]
  generalize hfirst : (if v.namesEvictedJob s then some RejectReason.staleBlock else none) = stale
  have hfirst : ∀ reason, stale = some reason → P reason := by
    subst hfirst
    intro reason hreason
    split at hreason
    · cases hreason
      exact hstale ‹_›
    · cases hreason
  have hgetD {first : Option RejectReason} (hfirst : ∀ reason, first = some reason → P reason)
      {reason : RejectReason} (hreason : reason.ofContents) : P (first.getD reason) := by
    cases first with
    | none => exact hcontents reason hreason
    | some first => exact hfirst first rfl
  refine .bind (.mapError_of checkCoinbaseId_ofContents hcontents) fun _ _ => ?_
  refine .bind (.mapError_of resolve_ofContents fun _ => hgetD hfirst) fun sections _ => ?_
  refine .bind (.mapError_of slotKey_ofContents fun _ => hgetD hfirst) fun key _ => ?_
  -- A revealed key comes before a later reason, and after an evicted job.
  dsimp only
  generalize hfirst' : (stale <|> if key.any _ then some RejectReason.badAbwSlot else none) = first
  have hfirst' : ∀ reason, first = some reason → P reason := by
    subst hfirst'
    intro reason hreason
    cases stale with
    | some reason' => exact hfirst reason hreason
    | none =>
        change (if _ then some RejectReason.badAbwSlot else none) = some reason at hreason
        split at hreason
        · cases hreason
          exact hcontents _ rfl
        · cases hreason
  refine .bind (.mapError_of rebuildShare_ofContents fun _ => hgetD hfirst') fun rebuilt _ => ?_
  cases first with
  | none => exact .ok _
  | some first => exact .error (hfirst' first rfl)

theorem rebuild_not_stale (hlive : v.namesEvictedJob s = false) :
    FailsIn (fun refusal => refusal.reason ≠ .staleBlock) (v.rebuild H s abw) :=
  rebuild_failsIn (fun _ => RejectReason.ofContents_ne_stale) fun hevicted => by
    rw [hlive] at hevicted
    cases hevicted

theorem rebuild_of_bad_id {reason : RejectReason} (hid : checkCoinbaseId s = .error reason) :
    v.rebuild H s abw = .error (.unreferenced reason) := by
  rw [rebuild, hid]
  rfl

theorem checkShare_contents : FailsIn (·.ofContents) (do
    v.checkSplit s rebuilt now
    checkUsernameAndTime s now) := by
  refine .bind ?_ fun _ _ => ?_
  · exact .ite (fun _ => .ok _) fun _ => .ite (fun _ => .error rfl) fun _ => .ok _
  · exact .ite (fun _ => .error rfl) fun _ => .ite (fun _ => .error rfl) fun _ => .ok _

theorem checkJobHeader_ofContents :
    FailsIn (·.ofContents) (v.checkJobHeader s rebuilt) := by
  rw [checkJobHeader]
  split
  · exact .ok _
  · exact .ite (fun _ => .error rfl) fun _ =>
      .ite (fun _ => .error rfl) fun _ =>
      .ite (fun _ => .error rfl) fun _ => .ok _

theorem installSections_ofContents {rawPowHash : Hash} :
    FailsIn (·.ofContents) (v.installSections s rawPowHash now) :=
  .ite (fun _ => .error rfl) fun _ =>
    .ite (fun _ => .error rfl) fun _ => .ok _

/-- A rebuilt share is refused for its contents, or as its tip and its hash decide. -/
theorem checkRebuilt_failsIn_of {P : RejectReason → Prop}
    (hcontents : ∀ reason : RejectReason, reason.ofContents → P reason)
    (hstale : v.tip ≠ some rebuilt.prevHash → P .staleBlock) {meets : Bool}
    (hhigh : meets = false → P .highHash) : FailsIn P (v.checkRebuilt s rebuilt now meets).1 := by
  rw [checkRebuilt]
  cases hheader : v.checkJobHeader s rebuilt with
  | error reason => exact .error (hcontents _ (checkJobHeader_ofContents reason hheader))
  | ok _ =>
      dsimp only
      cases hinstalled : (if meets || rebuilt.isBlock then v.installSections s rebuilt.rawPowHash now
        else .ok v) with
      | error reason =>
          split at hinstalled
          · exact .error (hcontents _ (installSections_ofContents reason hinstalled))
          · cases hinstalled
      | ok v' =>
          have htip' : v'.tip = v.tip := by
            split at hinstalled
            · exact tip_installSections hinstalled
            · cases hinstalled
              rfl
          dsimp only
          cases hshare : v'.checkShare s rebuilt now with
          | error reason =>
              have hfails : FailsIn P (v'.checkShare s rebuilt now) := by
                refine .ite (fun hoff => .error (hstale fun htip => ?_)) fun _ reason' herror =>
                  hcontents _ (checkShare_contents reason' herror)
                rw [htip', htip] at hoff
                simp at hoff
              exact .error (hfails reason hshare)
          | ok _ =>
              refine .ite (fun _ => .ok _) fun hmeets => .error (hhigh ?_)
              simpa using hmeets

/-- A share rebuilt on the tip is not stale. -/
theorem checkRebuilt_not_stale (htip : v.tip = some rebuilt.prevHash) {meets : Bool} :
    FailsIn (· ≠ RejectReason.staleBlock) (v.checkRebuilt s rebuilt now meets).1 :=
  checkRebuilt_failsIn_of (fun _ => RejectReason.ofContents_ne_stale) (fun hoff => absurd htip hoff)
    fun _ => RejectReason.noConfusion

/-- A share on the tip is refused as stale exactly when it names an evicted job. -/
theorem verify_stale_iff {job : JobSection} (hjob : v.resolveJob s = .ok job)
    (htip : v.tip = some job.prevHash) :
    Stale (v.verify H s abw now).1 ↔ checkCoinbaseId s = .ok () ∧ v.namesEvictedJob s = true := by
  constructor
  · rintro ⟨refusal, herror, hreason⟩
    rw [verify] at herror
    cases hrebuild : v.rebuild H s abw with
    | error refused =>
        rw [hrebuild] at herror
        cases herror
        cases hid : checkCoinbaseId s with
        | error reason =>
            rw [rebuild_of_bad_id hid] at hrebuild
            cases hrebuild
            exact absurd hreason (RejectReason.ofContents_ne_stale (checkCoinbaseId_ofContents reason hid))
        | ok _ =>
            cases hnamed : v.namesEvictedJob s with
            | true => exact ⟨rfl, rfl⟩
            | false => exact absurd hreason (rebuild_not_stale hnamed refused hrebuild)
    | ok rebuilt =>
        rw [hrebuild] at herror
        have hprev : v.tip = some rebuilt.prevHash := by
          rw [htip, rebuild_prevHash hjob rebuilt hrebuild]
        dsimp only at herror
        cases hchecked : (v.checkRebuilt s rebuilt now (meetsShareTarget s rebuilt)).1 with
        | ok _ =>
            rw [hchecked] at herror
            cases herror
        | error reason =>
            rw [hchecked] at herror
            cases herror
            exact absurd hreason (checkRebuilt_not_stale hprev reason hchecked)
  · rintro ⟨hid, hnamed⟩
    have hstale : Stale (v.rebuild H s abw) := rebuild_stale hid hnamed
    obtain ⟨refusal, hrebuild, hreason⟩ := hstale
    rw [verify, hrebuild]
    exact ⟨_, rfl, hreason⟩

/-! ### Every run -/

/-- Every evicted job was evicted while a hash other than its parent was the tip. -/
theorem evicted_off_tip {policy : SharePolicy} (events : List VerifierEvent) :
    ∀ slot st, (run H policy events).jobs slot = some st → st.evicted = true →
      ∃ before tip, before <+: events ∧ (run H policy before).tip = some tip ∧ tip ≠ st.job.prevHash := by
  refine run_invariant H (I := fun events v => ∀ slot st, v.jobs slot = some st → st.evicted = true →
    ∃ before tip, before <+: events ∧ (run H policy before).tip = some tip ∧ tip ≠ st.job.prevHash)
    (fun slot st hst => ?_) (fun events event ih slot st' hst' hevicted => ?_) events
  · cases hst
  · have hnow {tip : Hash} (htip : ((run H policy events).after H event).tip = some tip) :
        (run H policy (events ++ [event])).tip = some tip := by rwa [run_append]
    obtain ⟨st, hst, hbecomes⟩ | hinstalls := (after_steps H (run H policy events) event).slots slot st' hst'
    · rw [hbecomes.job]
      obtain hbefore | ⟨tip, htip, hoff⟩ := hbecomes.evicted hevicted
      · obtain ⟨before, tip, hearlier, htip, hoff⟩ := ih slot st hst hbefore
        exact ⟨before, tip, hearlier.trans (List.prefix_append _ _), htip, hoff⟩
      · exact ⟨_, tip, List.prefix_refl _, hnow htip, hoff⟩
    · obtain ⟨tip, htip, hoff⟩ := hinstalls.evicted hevicted
      exact ⟨_, tip, List.prefix_refl _, hnow htip, hoff⟩

/-- The job a share names is on the parent of the evicted one. -/
theorem prevHash_of_namesEvictedJob {job : JobSection} (hjob : v.resolveJob s = .ok job)
    (hnamed : v.namesEvictedJob s = true) :
    ∃ st, v.jobs s.jobId = some st ∧ st.evicted = true ∧ st.job.prevHash = job.prevHash := by
  obtain ⟨st, hst, hnames⟩ := (Option.any_eq_true _ _).mp hnamed
  rw [Bool.and_eq_true] at hnames
  obtain ⟨hevicted, hprev⟩ := hnames
  refine ⟨st, hst, hevicted, ?_⟩
  rw [resolveJob, hst] at hjob
  split at hjob
  · rename_i job' _ hbrings
    cases hjob
    obtain ⟨hjob', -⟩ := Option.filter_eq_some_iff.mp hbrings
    rw [hjob', Option.all_some, decide_eq_true_eq] at hprev
    exact hprev.symm
  · rename_i st' _ hslot
    cases hslot
    cases hjob
    rfl
  · rename_i hslot
    cases hslot

def blankHashing : Hashing := ⟨fun _ => Vector.replicate _ 0, fun _ => Vector.replicate _ 0⟩

def repeatedHash (byte : UInt8) : Hash := Vector.replicate _ byte

def untaggedPolicy : SharePolicy where
  config := { payoutScript := [0x51], primeId := 0, coinbaseTag := "", minDifficulty := 1, v3 := none }
  chain := none

/-- A coinbase that pays nothing, with a unique id and the extranonce in its scriptSig. -/
def plainCoinbase : CoinbaseSection where
  coinbaseId := 0
  coinb1 := leBytes 4 1 ++ [1] ++ List.replicate 32 0 ++ List.replicate 4 0xff ++ [23] ++
    [7, 0xff, 0, 0, 0, 0, 0, 0] ++ [0x0e, 0, 0]
  coinb2 := List.replicate 4 0xff ++ [1] ++ List.replicate 8 0 ++ [0] ++ List.replicate 4 0

def plainJob (prevHash : Hash) : JobSection where
  prevHash
  targetByteIndex := 43
  nbits := Vector.replicate _ 0
  coinbaserId := 0
  height := 1
  coinbaseValue := 0
  txnCount := 0
  txnTotalWeight := 0
  txnTotalSize := 0
  txnTotalSigops := 0
  merkleBranches := []

def plainShare (prevHash : Hash) : PowSubmit where
  jobId := 0
  coinbaseId := 0
  isBlock := false
  subsidyOnly := false
  quickdiff := false
  targetByte := 0
  ntime := 0
  nonce := 0
  version := 0
  extranonce := Vector.replicate _ 0
  username := "m"
  useTimeOffset := false
  job := some (plainJob prevHash)
  coinbase := some plainCoinbase
  blake2b := ⟨Vector.replicate _ 0, Vector.replicate _ 0, 0⟩
  abwSlot := none

/-- A job is installed on a tip, which two others replace before it comes back. -/
def returningTip : List VerifierEvent :=
  [.setTip (some (repeatedHash 1)) 0, .verify (plainShare (repeatedHash 1)) none 0,
    .setTip (some (repeatedHash 2)) 0, .setTip (some (repeatedHash 3)) 2,
    .setTip (some (repeatedHash 1)) 2]

theorem returningTip_evicts :
    (run blankHashing untaggedPolicy returningTip).namesEvictedJob (plainShare (repeatedHash 1)) = true := by
  decide +kernel

theorem returningTip_resolves : (run blankHashing untaggedPolicy returningTip).resolveJob
    (plainShare (repeatedHash 1)) = .ok (plainJob (repeatedHash 1)) := by
  have hresolves : (match (run blankHashing untaggedPolicy returningTip).resolveJob
      (plainShare (repeatedHash 1)) with
    | .ok job => decide (job = plainJob (repeatedHash 1))
    | .error _ => false) = true := by decide +kernel
  split at hresolves
  · rename_i hjob
    rw [hjob, of_decide_eq_true hresolves]
  · cases hresolves

end Verifier
end Ratum
