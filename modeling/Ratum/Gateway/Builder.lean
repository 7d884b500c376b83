import Ratum.Datum.Config
import Ratum.Gateway.NotifyId

/-!
# Building a job

`gateway/src/job/builder.rs`: the two coinbases and the job section of a template, under the pool's
configuration and the split it dictated.
-/

namespace Ratum

def ENPREFIX_XOR : UInt16 := 0xb10c

/-- What the gateway's own configuration says of jobs. -/
structure JobConfig where
  protocolJobSlots : Nat
  coinbaseTagPrimary : String
  coinbaseTagSecondary : String
  coinbaseUniqueId : UInt16
  poolOutputScript : Bytes

def JobConfig.payoutScript (c : JobConfig) (pool : Option ClientConfig) : Bytes :=
  pool.elim c.poolOutputScript ClientConfig.payoutScript

inductive BuildError
  | payoutScriptSize (length : Nat)
  | tagsDoNotFit
  | tooManyBranches (count : Nat)
  | badBits
  deriving DecidableEq

structure JobInputs where
  serial : Nat
  template : Template
  poolConfig : Option ClientConfig
  coinbaser : Option CoinbaserResponse
  abw : Option AbwAssignment

/-- The split with the outputs the template's rules refuse removed; no split is id 0. -/
def filterCoinbaser (template : Template) : Option CoinbaserResponse → CoinbaserResponse
  | none => { value := template.coinbaseValue, coinbaserId := 0, outputs := [] }
  | some r =>
      { r with
        outputs := r.outputs.filter fun o =>
          !template.reducedData || outputScriptSizeIsValid o.scriptPubkey }

/-- What a coinbase of the template is assembled from. -/
def coinbaseSpec (template : Template) (script : Bytes) (targetByteIndexInScript : Nat)
    (enPrefix : UInt16) (poolPayoutScript : Bytes) (outputs : List TxOut) (sigopBudget : Nat)
    (kind : CoinbaseKind) : CoinbaseSpec where
  coinbaseId := kind.wireId
  scriptSig := script
  targetByteIndexInScript := targetByteIndexInScript
  enPrefix := enPrefix
  witnessCommitment := match kind with
    | .pooled => some template.witnessCommitment
    | .subsidyOnly => none
  poolPayoutScript := poolPayoutScript
  coinbaseValue := match kind with
    | .pooled => template.coinbaseValue
    | .subsidyOnly => template.coinbaseValue - template.totals.fee
  outputs := outputs
  limits :=
    { sizelimit := template.sizelimit
      weightlimit := template.weightlimit
      txnTotalSize := template.totals.size.toNat
      txnTotalWeight := template.totals.weight.toNat }
  sigopBudget := sigopBudget

/-- The pooled coinbase, the subsidy-only one and the dictated outputs the first carries. -/
def buildCoinbases (template : Template) (script : Bytes) (targetByteIndexInScript : Nat)
    (enPrefix : UInt16) (poolPayoutScript : Bytes) (outputs : List TxOut) :
    BuiltCoinbase × BuiltCoinbase × List TxOut :=
  let spec := coinbaseSpec template script targetByteIndexInScript enPrefix poolPayoutScript
  let subsidyOnly := (spec [] 0 .subsidyOnly).build.1
  let sigops := template.sigoplimit - template.totals.sigops.toNat - outputSigopCost poolPayoutScript
  let pooled := (spec outputs sigops .pooled).build
  (pooled.1, subsidyOnly, pooled.2)

/-- What the scriptSig of the template's coinbases carries. -/
def JobConfig.scriptSigInputs (c : JobConfig) (template : Template) (poolConfig : Option ClientConfig) :
    ScriptSigInputs where
  height := template.height
  tagPrimary := poolConfig.elim c.coinbaseTagPrimary ClientConfig.coinbaseTag
  tagSecondary := c.coinbaseTagSecondary
  uniqueId := c.coinbaseUniqueId
  primeId := poolConfig.elim 0 ClientConfig.primeId
  widePrime := poolConfig.any fun p => p.v3.isSome
  datumActive := poolConfig.isSome

/-- Builds a job. The clocks are read once: `unixNow` the system's, `now` the monotonic one. -/
def build (H : Hashing) (c : JobConfig) (j : JobInputs) (unixNow : Nat) (now : Instant) :
    Except BuildError Job := do
  let template := j.template
  let slot := UInt8.ofNat (j.serial % c.protocolJobSlots)
  let enPrefix := UInt16.ofNat j.serial ^^^ ENPREFIX_XOR
  let poolPayoutScript := c.payoutScript j.poolConfig
  if poolPayoutScript.isEmpty || MAX_PAYOUT_SCRIPT_LEN < poolPayoutScript.length then
    throw (.payoutScriptSize poolPayoutScript.length)
  let inputs := c.scriptSigInputs template j.poolConfig
  let some (script, targetByteIndexInScript) := inputs.scriptSig | throw .tagsDoNotFit
  let split := filterCoinbaser template j.coinbaser
  let (pooledCoinbase, subsidyOnlyCoinbase, coinbaserOutputs) :=
    buildCoinbases template script targetByteIndexInScript enPrefix poolPayoutScript split.outputs
  let merkleBranches := H.merkleBranches template.txids
  if MAX_MERKLE_BRANCHES < merkleBranches.length then throw (.tooManyBranches merkleBranches.length)
  let jobSection : JobSection :=
    { prevHash := template.prevHash
      targetByteIndex := UInt16.ofNat pooledCoinbase.targetByteIndex
      nbits := ⟨(leBytes 4 template.nbits.toNat).toArray, by simp⟩
      coinbaserId := split.coinbaserId
      height := template.height
      coinbaseValue := template.coinbaseValue
      txnCount := UInt32.ofNat template.txids.length
      txnTotalWeight := template.totals.weight
      txnTotalSize := template.totals.size
      txnTotalSigops := template.totals.sigops
      merkleBranches }
  let some blockTarget := bitsToTarget template.nbits | throw .badBits
  pure
    { serial := j.serial
      slot
      stratumJobId := stratumJobId (UInt32.ofNat unixNow) slot
      template
      blockTarget
      prevblockHidden := H.prevblockHidden template.prevHash
      jobSection
      pooledCoinbase
      subsidyOnlyCoinbase
      coinbaserOutputs
      poolPayoutScript
      isDatumJob := j.poolConfig.isSome
      abw := j.abw
      createdAt := now }

/-- What a job carries of what it was built from. -/
structure BuiltFrom (H : Hashing) (j : JobInputs) (job : Job) : Prop where
  serial_eq : job.serial = j.serial
  template_eq : job.template = j.template
  abw_eq : job.abw = j.abw
  isDatumJob_eq : job.isDatumJob = j.poolConfig.isSome
  prevHash_eq : job.jobSection.prevHash = j.template.prevHash
  coinbaseValue_eq : job.jobSection.coinbaseValue = j.template.coinbaseValue
  coinbaserId_eq : job.jobSection.coinbaserId = (filterCoinbaser j.template j.coinbaser).coinbaserId

theorem build_eq_ok {H : Hashing} {c : JobConfig} {j : JobInputs} {unixNow : Nat} {now : Instant}
    {job : Job} (hbuild : build H c j unixNow now = .ok job) : BuiltFrom H j job := by
  simp only [build] at hbuild
  split at hbuild
  · cases hbuild
  split at hbuild
  · split at hbuild
    · cases hbuild
    split at hbuild
    · obtain rfl := Except.ok.inj hbuild
      constructor <;> rfl
    · cases hbuild
  · cases hbuild

/-- What the builder decides of a job besides. -/
structure WellBuilt (c : JobConfig) (job : Job) : Prop where
  slot_eq : job.slot = UInt8.ofNat (job.serial % c.protocolJobSlots)
  coinbaseId_eq : ∀ kind, (job.coinbase kind).section.coinbaseId = kind.wireId

theorem build_wellBuilt {H : Hashing} {c : JobConfig} {j : JobInputs} {unixNow : Nat} {now : Instant}
    {job : Job} (hbuild : build H c j unixNow now = .ok job) : WellBuilt c job := by
  simp only [build] at hbuild
  split at hbuild
  · cases hbuild
  split at hbuild
  · split at hbuild
    · cases hbuild
    split at hbuild
    · obtain rfl := Except.ok.inj hbuild
      refine ⟨rfl, ?_⟩
      intro kind
      cases kind <;> rfl
    · cases hbuild
  · cases hbuild

/-! ### The slots -/

def EXTRA_JOBS_PER_TIP : Nat := 1

/-- `validate_datum`'s check of the job slots: they hold the jobs of the stale window, whose seconds and
the seconds between updates are in their ranges. -/
def JobConfig.acceptsSlots (c : JobConfig) (shareStaleSeconds workUpdateSeconds : Nat) : Bool :=
  60 ≤ shareStaleSeconds && shareStaleSeconds ≤ 150 && 5 ≤ workUpdateSeconds && workUpdateSeconds ≤ 120 &&
    1 ≤ c.protocolJobSlots && c.protocolJobSlots ≤ MAX_JOBS &&
    EXTRA_JOBS_PER_TIP +
        (shareStaleSeconds + workUpdateSeconds + (workUpdateSeconds - 1)) / workUpdateSeconds ≤
      c.protocolJobSlots

theorem JobConfig.slots_of_accepts {c : JobConfig} {shareStaleSeconds workUpdateSeconds : Nat}
    (haccepts : c.acceptsSlots shareStaleSeconds workUpdateSeconds = true) :
    3 ≤ c.protocolJobSlots ∧ c.protocolJobSlots ≤ 256 := by
  simp only [acceptsSlots, Bool.and_eq_true, decide_eq_true_eq] at haccepts
  obtain ⟨⟨⟨⟨⟨⟨hstale, -⟩, hupdate⟩, -⟩, -⟩, hmax⟩, hslots⟩ := haccepts
  have htwo : 2 ≤ (shareStaleSeconds + workUpdateSeconds + (workUpdateSeconds - 1)) / workUpdateSeconds := by
    rw [Nat.le_div_iff_mul_le (by omega)]
    omega
  rw [EXTRA_JOBS_PER_TIP] at hslots
  exact ⟨by omega, hmax⟩

theorem exists_build {H : Hashing} {c : JobConfig} {j : JobInputs}
    (hnonempty : c.payoutScript j.poolConfig ≠ [])
    (hlength : (c.payoutScript j.poolConfig).length ≤ MAX_PAYOUT_SCRIPT_LEN)
    (hscript : ((c.scriptSigInputs j.template j.poolConfig).scriptSig).isSome)
    (hbranches : (H.merkleBranches j.template.txids).length ≤ MAX_MERKLE_BRANCHES)
    (hbits : (bitsToTarget j.template.nbits).isSome) (unixNow : Nat) (now : Instant) :
    ∃ job, build H c j unixNow now = .ok job := by
  obtain ⟨script, hscript⟩ := Option.isSome_iff_exists.mp hscript
  obtain ⟨target, hbits⟩ := Option.isSome_iff_exists.mp hbits
  have hpayout : ((c.payoutScript j.poolConfig).isEmpty ||
      decide (MAX_PAYOUT_SCRIPT_LEN < (c.payoutScript j.poolConfig).length)) = false := by
    rw [Bool.or_eq_false_iff, List.isEmpty_eq_false_iff, decide_eq_false_iff_not, not_lt]
    exact ⟨hnonempty, hlength⟩
  simp only [build, hpayout, hscript, hbits, not_lt.mpr hbranches, if_false, Bool.false_eq_true]
  exact ⟨_, rfl⟩

end Ratum
