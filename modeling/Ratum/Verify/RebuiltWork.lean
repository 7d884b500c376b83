import Ratum.Core.HeaderWire
import Ratum.Datum.CoinbaseFits
import Ratum.Datum.ScriptSigRead
import Ratum.Datum.ShareWire
import Ratum.Gateway.Builder
import Ratum.Gateway.NotifiedWork
import Ratum.Gateway.Sections
import Ratum.Verify.BuiltAccepted
import Ratum.Verify.MaskedBlocks

/-!
# The pool rebuilds the work it was sent

A share of a job built under the pool's configuration, encoded and decoded, is rebuilt to the header the
gateway hashed, with the slot key in place of none. The one share that is not is on a coinbase whose tag push
passes for the unique id's.
-/

namespace Ratum

/-! ### The coinbases of a job -/

/-- What a coinbase of the job is assembled from. -/
def JobConfig.specFor (c : JobConfig) (j : JobInputs) (script : Bytes) (at_ : Nat) (kind : CoinbaseKind) :
    CoinbaseSpec :=
  let poolPayoutScript := c.payoutScript j.poolConfig
  let split := filterCoinbaser j.template j.coinbaser
  let sigops := j.template.sigoplimit - j.template.totals.sigops.toNat - outputSigopCost poolPayoutScript
  coinbaseSpec j.template script at_ (UInt16.ofNat j.serial ^^^ ENPREFIX_XOR) poolPayoutScript
    (match kind with
      | .pooled => split.outputs
      | .subsidyOnly => [])
    (match kind with
      | .pooled => sigops
      | .subsidyOnly => 0) kind

/-- What the builder makes of the scriptSig, and what it checks. -/
structure Assembled (H : Hashing) (c : JobConfig) (j : JobInputs) (job : Job) (script : Bytes) (at_ : Nat) :
    Prop where
  scriptSig_eq : (c.scriptSigInputs j.template j.poolConfig).scriptSig = some (script, at_)
  coinbase_eq : ∀ kind, job.coinbase kind = (c.specFor j script at_ kind).build.1
  targetByteIndex_eq : job.jobSection.targetByteIndex = UInt16.ofNat (job.coinbase .pooled).targetByteIndex
  prevblockHidden_eq : job.prevblockHidden = H.prevblockHidden job.jobSection.prevHash
  payoutScript_le : (c.payoutScript j.poolConfig).length ≤ MAX_PAYOUT_SCRIPT_LEN
  branches_le : job.jobSection.merkleBranches.length ≤ MAX_MERKLE_BRANCHES

theorem build_assembled {H : Hashing} {c : JobConfig} {j : JobInputs} {unixNow : Nat} {now : Instant} {job : Job}
    (hbuild : build H c j unixNow now = .ok job) : ∃ script at_, Assembled H c j job script at_ := by
  simp only [build] at hbuild
  split at hbuild
  · cases hbuild
  rename_i hpayout
  split at hbuild
  · rename_i script at_ hscript
    split at hbuild
    · cases hbuild
    rename_i hbranches
    split at hbuild
    · obtain rfl := Except.ok.inj hbuild
      simp only [Bool.or_eq_true, decide_eq_true_eq, not_or, not_lt] at hpayout
      refine ⟨script, at_, hscript, ?_, rfl, rfl, hpayout.2, not_lt.mp hbranches⟩
      intro kind
      cases kind <;> rfl
    · cases hbuild
  · cases hbuild

/-- What decoding promises of the configuration, the template and the split a job is built from. -/
structure JobInputs.Decoded (j : JobInputs) (config : ClientConfig) : Prop where
  poolConfig_eq : j.poolConfig = some config
  primeId_lt : config.v3 = none → config.primeId.toNat < 2 ^ 32
  coinbaseValue_lt : j.template.coinbaseValue < 2 ^ 64
  commitment_le : j.template.witnessCommitment.length ≤ 47
  value_lt : ∀ r, j.coinbaser = some r → ∀ o ∈ r.outputs, o.value < 2 ^ 64

namespace JobInputs.Decoded

variable {j : JobInputs} {config : ClientConfig} (hj : j.Decoded config)

include hj

theorem datumActive (c : JobConfig) : (c.scriptSigInputs j.template j.poolConfig).datumActive = true := by
  rw [JobConfig.scriptSigInputs, hj.poolConfig_eq]
  rfl

theorem primeId_narrow (c : JobConfig) (hnarrow : (c.scriptSigInputs j.template j.poolConfig).widePrime = false) :
    (c.scriptSigInputs j.template j.poolConfig).primeId.toNat < 2 ^ 32 := by
  rw [JobConfig.scriptSigInputs, hj.poolConfig_eq] at hnarrow ⊢
  exact hj.primeId_lt (Option.isNone_iff_eq_none.mp (by simpa using hnarrow))

theorem scriptSigInputs_primeId (c : JobConfig) :
    (c.scriptSigInputs j.template j.poolConfig).primeId = config.primeId := by
  rw [JobConfig.scriptSigInputs, hj.poolConfig_eq]
  rfl

theorem scriptSigInputs_tagPrimary (c : JobConfig) :
    (c.scriptSigInputs j.template j.poolConfig).tagPrimary = config.coinbaseTag := by
  rw [JobConfig.scriptSigInputs, hj.poolConfig_eq]
  rfl

theorem output_values (c : JobConfig) (script : Bytes) (at_ : Nat) (kind : CoinbaseKind) :
    ∀ o ∈ (c.specFor j script at_ kind).outputs, o.value ≤ U64_MAX := by
  intro o ho
  cases kind with
  | subsidyOnly => exact absurd ho List.not_mem_nil
  | pooled =>
      change o ∈ (filterCoinbaser j.template j.coinbaser).outputs at ho
      cases hr : j.coinbaser with
      | none =>
          rw [hr] at ho
          exact absurd ho List.not_mem_nil
      | some r =>
          rw [hr] at ho
          exact Nat.le_pred_of_lt (hj.value_lt r hr o (List.mem_filter.mp ho).1)

end JobInputs.Decoded

namespace Assembled

variable {H : Hashing} {c : JobConfig} {j : JobInputs} {job : Job} {script : Bytes} {at_ : Nat}
  {config : ClientConfig}

/-- The two coinbases differ in their outputs alone. -/
theorem fullScript_eq (c : JobConfig) (j : JobInputs) (script : Bytes) (at_ : Nat) (kind : CoinbaseKind)
    (extranonce : Bytes) :
    (c.specFor j script at_ kind).fullScript extranonce = (c.specFor j script at_ .pooled).fullScript extranonce := by
  cases kind <;> rfl

variable (h : Assembled H c j job script at_) (hj : j.Decoded config)

include h hj

theorem length_script : script.length < 253 ∧ at_ < script.length :=
  ScriptSigInputs.length_scriptSig_lt (hj.datumActive c) (hj.primeId_narrow c) h.scriptSig_eq

/-- The section names the target byte where the scriptSig has it, in either coinbase. -/
theorem toNat_targetByteIndex (kind : CoinbaseKind) {extranonce : Bytes}
    (hlength : extranonce.length = EXTRANONCE_SIZE) :
    job.jobSection.targetByteIndex.toNat =
      41 + (encodeCompactSize ((c.specFor j script at_ kind).fullScript extranonce).length).length + at_ := by
  obtain ⟨hscript, hat⟩ := h.length_script hj
  have hfull := CoinbaseSpec.length_fullScript_le (p := c.specFor j script at_ .pooled) hlength
  have hpush : EXTRANONCE_PUSH_SIZE = 15 := rfl
  have hspec : (c.specFor j script at_ .pooled).scriptSig = script := rfl
  rw [hspec] at hfull
  have hsize := length_encodeCompactSize_mono (show ((c.specFor j script at_ .pooled).fullScript extranonce).length ≤
    267 by omega)
  have hthree : (encodeCompactSize 267).length = 3 := rfl
  have hindex : (c.specFor j script at_ .pooled).build.1.targetByteIndex =
      41 + (encodeCompactSize ((c.specFor j script at_ .pooled).fullScript extranonce).length).length + at_ := by
    rw [CoinbaseSpec.targetByteIndex_build, CoinbaseSpec.length_head hlength]
    rfl
  rw [h.targetByteIndex_eq, h.coinbase_eq, hindex, fullScript_eq c j script at_ kind, UInt16.toNat_ofNat_of_lt']
  show _ < 65536
  omega

theorem typed (kind : CoinbaseKind) : (c.specFor j script at_ kind).Typed := by
  obtain ⟨hscript, -⟩ := h.length_script hj
  have hpayout := h.payoutScript_le
  have hvalue := hj.coinbaseValue_lt
  have hcommitment := hj.commitment_le
  rw [MAX_PAYOUT_SCRIPT_LEN] at hpayout
  refine ⟨?_, ?_, ?_, ?_⟩
  · rw [U64_MAX]
    cases kind with
    | pooled => show j.template.coinbaseValue ≤ _; omega
    | subsidyOnly => show j.template.coinbaseValue - _ ≤ _; omega
  · show script.length < _
    omega
  · show (c.payoutScript j.poolConfig).length < _
    omega
  · intro wc hwc
    cases kind with
    | pooled => obtain rfl := Option.some.inj hwc; omega
    | subsidyOnly => cases hwc

/-- Either coinbase is read back from its section. -/
theorem parses (kind : CoinbaseKind) :
    ∃ tx, parseCoinbase ((job.coinbase kind).section.assemble (List.replicate EXTRANONCE_SIZE 0)) = .ok tx ∧
      tx.hasWitness = false ∧ (∃ rest, tx.scriptSig = script ++ rest) ∧
      job.jobSection.targetByteIndex.toNat = tx.scriptSigOffset + at_ := by
  have hlength : (List.replicate EXTRANONCE_SIZE (0 : UInt8)).length = EXTRANONCE_SIZE := List.length_replicate
  rw [h.coinbase_eq]
  exact ⟨_, CoinbaseSpec.parseCoinbase_build (h.typed hj kind) (.inr (hj.output_values c script at_ kind)) hlength, rfl,
    ⟨_, rfl⟩, h.toNat_targetByteIndex hj kind hlength⟩

/-- Either coinbase's section is within the wire's lengths. -/
theorem section_fitsWire (kind : CoinbaseKind) : (job.coinbase kind).section.FitsWire := by
  obtain ⟨hscript, -⟩ := h.length_script hj
  have hpayout := h.payoutScript_le
  have hcommitment := hj.commitment_le
  rw [MAX_PAYOUT_SCRIPT_LEN] at hpayout
  have hbuilt := @CoinbaseSpec.length_build_lt (c.specFor j script at_ kind) (List.replicate EXTRANONCE_SIZE 0)
    hscript (by show (c.payoutScript j.poolConfig).length < _; omega) ?_ List.length_replicate
  · rw [h.coinbase_eq]
    rw [CoinbaseSection.assemble, List.length_append, List.length_append] at hbuilt
    exact ⟨by omega, by omega⟩
  · intro wc hwc
    cases kind with
    | pooled => obtain rfl := Option.some.inj hwc; omega
    | subsidyOnly => cases hwc

end Assembled

/-! ### The pool's header -/

/-- The slot key the pool holds for the job's work: one its assignment commits to, or none when it has none. -/
def Job.KeyedBy (H : Hashing) (job : Job) : Option XorKey → Prop
  | some key => ∃ a, job.abw = some a ∧ a.keyHash = H.xorKeyHash key
  | none => job.abw = none

/-- The key a header carries: zeros when there is none. -/
def headerKey (key : Option XorKey) : XorKey := key.getD (Vector.replicate _ 0)

theorem Job.KeyedBy.isSome_eq {H : Hashing} {job : Job} {key : Option XorKey} (hkey : job.KeyedBy H key) :
    key.isSome = job.abw.isSome := by
  cases key with
  | none =>
      rw [show job.abw = none from hkey]
      rfl
  | some key =>
      obtain ⟨a, ha, -⟩ := hkey
      rw [ha]
      rfl

theorem Job.KeyedBy.keyIs {H : Hashing} {job : Job} {key : Option XorKey} (hkey : job.KeyedBy H key) :
    job.KeyIs H (headerKey key) := by
  cases key with
  | none =>
      rw [KeyIs, show job.abw = none from hkey]
      rfl
  | some key =>
      obtain ⟨a, ha, hhash⟩ := hkey
      rw [KeyIs, ha]
      exact hhash

theorem JobSection.header_version (job : JobSection) (version version' time : UInt32) (merkleRoot : Hash)
    (subsidyOnly : Bool) (targetByte : UInt8) (abw : Bool) :
    job.header version' time merkleRoot subsidyOnly targetByte abw =
      (job.header version time merkleRoot subsidyOnly targetByte abw).map fun h => { h with version := version' } := by
  unfold header
  dsimp only
  generalize (if subsidyOnly = true then 1 else job.txnCount.toNat + 1) = count
  split <;> rfl

theorem subsidyOnly_powSubmit (share : QueuedShare) (extranonce : Vector UInt8 EXTRANONCE_SIZE) (username : String)
    (job : Option JobSection) (coinbase : Option CoinbaseSection) :
    (powSubmit share extranonce username job coinbase).subsidyOnly = decide (share.kind = .subsidyOnly) := by
  rw [powSubmit, QueuedShare.kind]
  cases share.notifyPrefix <;> rfl

section Header

variable {H : Hashing} {share : QueuedShare} {extranonce : Vector UInt8 EXTRANONCE_SIZE}
  {siaNtime siaNonce : Vector UInt8 SIA_WORDS_LEN} {key : Option XorKey}

/-- What the pool makes of a header the gateway hashed: the version without the flag, and the slot key. -/
def poolHeader (h : BlockHeaderV2) (key : Option XorKey) : BlockHeaderV2 :=
  { h with
    version := h.version &&& ~~~V2_FLAG
    xorKey := headerKey key }

/-- **The pool's header of a share is the gateway's**, on the coinbase the gateway hashed. -/
theorem powSubmit_header
    (hheader : share.job.header H share.kind share.targetByte (headerExtranonce extranonce) siaNtime siaNonce =
      some share.header)
    (hkey : share.job.KeyedBy H key) (username : String) (job : Option JobSection)
    (coinbase : Option CoinbaseSection) :
    ∃ tx, share.job.fullCoinbase share.kind share.targetByte = some tx ∧
      (powSubmit share extranonce username job coinbase).header share.job.jobSection
        (share.job.jobSection.merkleRoot H tx (powSubmit share extranonce username job coinbase).subsidyOnly) key =
          some (poolHeader share.header key) := by
  obtain ⟨tx, shared, htx, hshared, -, hmade⟩ := Job.header_eq_some hheader
  refine ⟨tx, htx, ?_⟩
  obtain ⟨txcount, hfields⟩ := JobSection.header_eq_some hshared
  have hflags : share.header.flags = 0 := by rw [hmade, hfields]; rfl
  have htime : share.header.timeOnWire = UInt32.ofNat share.job.template.curtime := by
    rw [BlockHeaderV2.timeOnWire, hflags, if_pos (by decide), hmade, hfields]
    rfl
  have hoffset : (powSubmit share extranonce username job coinbase).useTimeOffset = false := by
    show decide (share.header.flags &&& FLAG_USE_TIME_OFFSET ≠ 0) = false
    rw [hflags]
    decide
  have hblockTime : (powSubmit share extranonce username job coinbase).blockTime =
      UInt32.ofNat share.job.template.curtime := by
    rw [PowSubmit.blockTime, hoffset, ← htime]
    rfl
  have hmasked : (powSubmit share extranonce username job coinbase).version &&& ~~~V2_FLAG =
      share.header.version &&& ~~~V2_FLAG := BlockHeaderV2.flag_or_and_not_flag V2_FLAG share.header.version
  have htarget : (powSubmit share extranonce username job coinbase).targetByte = share.targetByte := rfl
  have hntime : siaHalves (powSubmit share extranonce username job coinbase).blake2b.siaNtime =
      (share.header.timeOffset, share.header.nonce3) := siaHalves_siaWords (Vector.toList_mk ..)
  have hnonce : siaHalves (powSubmit share extranonce username job coinbase).blake2b.siaNonce =
      (share.header.nonce, share.header.nonce2) := siaHalves_siaWords (Vector.toList_mk ..)
  rw [PowSubmit.header, hoffset, hblockTime, hmasked, subsidyOnly_powSubmit, hkey.isSome_eq, htarget,
    share.job.jobSection.header_version share.job.template.version, hshared, Option.map_some, Option.map_some,
    Option.some_inj, BlockHeaderV2.setSiaFields, hntime, hnonce]
  rw [hmade, hfields]
  rfl

theorem version_of_header
    (hheader : share.job.header H share.kind share.targetByte (headerExtranonce extranonce) siaNtime siaNonce =
      some share.header) : share.header.version = share.job.template.version := by
  obtain ⟨tx, shared, -, hshared, -, hmade⟩ := Job.header_eq_some hheader
  obtain ⟨txcount, hfields⟩ := JobSection.header_eq_some hshared
  rw [hmade, hfields]
  rfl

theorem rawPowHash_poolHeader
    (hheader : share.job.header H share.kind share.targetByte (headerExtranonce extranonce) siaNtime siaNonce =
      some share.header)
    (hkey : share.job.KeyedBy H key) :
    ((poolHeader share.header key).powHashes H).rawPowHash = share.job.rawPowHash H share.header := by
  obtain ⟨hzero, -⟩ := Job.header_xorKey H hheader
  rw [Job.rawPowHash_eq H hkey.keyIs share.header hzero]
  exact congrArg PowHashes.rawPowHash (BlockHeaderV2.powHashes_unflagged H { share.header with xorKey := headerKey key })

end Header

/-! ### The pool's steps -/

section Rebuild

variable {H : Hashing} {config : ClientConfig} {splits : DictatedSplits} {nextTarget : Option Target}
  {job : JobSection} {cb : CoinbaseSection} {s : PowSubmit} {key : Option XorKey} {tx : CoinbaseTx}

/-- A share whose coinbase parses is rebuilt when its scriptSig names the job's target byte and its outputs
pass the check. -/
theorem rebuildShare_eq_ok (nextTarget : Option Target) {tagSecondary : String} {payments : Payments}
    {h : BlockHeaderV2}
    (htarget : s.targetByte ≤ MAX_TARGET_EXPONENT)
    (hfloor : floorLog2 config.minDifficulty.toNat ≤ s.targetByte.toNat)
    (hparses : parseCoinbase (cb.assemble (List.replicate EXTRANONCE_SIZE 0)) = .ok tx)
    (hwitness : tx.hasWitness = false)
    (hscript : parseScriptSig tx config.primeId config.coinbaseTag =
      some { targetByteIndex := job.targetByteIndex.toNat, tagSecondary })
    (hpaid : checkOutputs config.payoutScript splits job tx s = .ok payments)
    (hheader : s.header job (job.merkleRoot H ((cb.assemble (List.replicate EXTRANONCE_SIZE 0)).set
      job.targetByteIndex.toNat s.targetByte) s.subsidyOnly) key = some h) :
    ∃ rebuilt, rebuildShare H config splits nextTarget job cb s key = .ok rebuilt ∧
      rebuilt.coinbaseTx = (cb.assemble (List.replicate EXTRANONCE_SIZE 0)).set job.targetByteIndex.toNat
        s.targetByte ∧
      rebuilt.header = h.serialize ∧ rebuilt.rawPowHash = (h.powHashes H).rawPowHash := by
  have hbound : (MAX_TARGET_EXPONENT < s.targetByte || s.targetByte.toNat < floorLog2 config.minDifficulty.toNat) =
      false := by
    rw [Bool.or_eq_false_iff, decide_eq_false_iff_not, decide_eq_false_iff_not]
    exact ⟨UInt8.not_lt.mpr htarget, not_lt.mpr hfloor⟩
  rw [rebuildShare]
  simp only [hbound, hparses, hwitness, hscript, hpaid, hheader, Bool.false_eq_true, if_false, ne_eq,
    not_true_eq_false, Except.mapError, bind, Except.bind, pure, Except.pure]
  exact ⟨_, rfl, rfl, rfl, rfl⟩

/-- A share whose scriptSig names another byte is refused. -/
theorem rebuildShare_misread (hparses : parseCoinbase (cb.assemble (List.replicate EXTRANONCE_SIZE 0)) = .ok tx)
    (hscript : ∀ parsed, parseScriptSig tx config.primeId config.coinbaseTag = some parsed →
      parsed.targetByteIndex ≠ job.targetByteIndex.toNat) (rebuilt : RebuiltShare) :
    rebuildShare H config splits nextTarget job cb s key ≠ .ok rebuilt := by
  intro hok
  rw [rebuildShare] at hok
  split at hok
  · cases hok
  simp only [hparses, Except.mapError, bind, Except.bind] at hok
  cases hwitness : tx.hasWitness with
  | true =>
      rw [hwitness] at hok
      cases hok
  | false =>
      rw [hwitness] at hok
      cases hread : parseScriptSig tx config.primeId config.coinbaseTag with
      | none =>
          rw [hread] at hok
          cases hok
      | some script =>
          rw [hread] at hok
          simp only [Bool.false_eq_true, if_false, if_pos (hscript script hread).symm] at hok
          cases hok

end Rebuild
/-! ### The work of a share -/

/-- The message of the share with its job's own sections. -/
def QueuedShare.submit (share : QueuedShare) (extranonce : Vector UInt8 EXTRANONCE_SIZE) (username : String) :
    PowSubmit :=
  powSubmit share extranonce username (some share.job.jobSection) (some (share.job.coinbase share.kind).section)

/-- The outputs of the share's coinbase pass the pool's check. -/
def QueuedShare.OutputsPass (share : QueuedShare) (config : ClientConfig) (splits : DictatedSplits)
    (s : PowSubmit) : Prop :=
  ∀ tx, parseCoinbase ((share.job.coinbase share.kind).section.assemble (List.replicate EXTRANONCE_SIZE 0)) = .ok tx →
    ∃ payments, checkOutputs config.payoutScript splits share.job.jobSection tx s = .ok payments

/-- The miner, the gateway and the pool come to one raw hash: the miner from the notify's fields, the pool from
the message decoded, on a header that differs from the gateway's in the slot key alone. -/
structure SameWork (H : Hashing) (config : ClientConfig) (splits : DictatedSplits) (nextTarget : Option Target)
    (share : QueuedShare) (extranonce : Vector UInt8 EXTRANONCE_SIZE)
    (siaNtime siaNonce : Vector UInt8 SIA_WORDS_LEN) (username : String) (key : Option XorKey) : Prop where
  miner : ∃ work, share.job.notifiedWork H share.kind share.targetByte = some work ∧
    work.rawHash H (headerExtranonce extranonce) siaNtime siaNonce = some (share.job.rawPowHash H share.header)
  pool : ∃ s rebuilt, PowSubmit.decode (share.submit extranonce username).encode = .ok s ∧
    rebuildShare H config splits nextTarget share.job.jobSection (share.job.coinbase share.kind).section s key =
      .ok rebuilt ∧
    rebuilt.rawPowHash = share.job.rawPowHash H share.header ∧
    rebuilt.header = { share.header with xorKey := headerKey key }.serialize ∧
    s.header share.job.jobSection (share.job.jobSection.merkleRoot H rebuilt.coinbaseTx s.subsidyOnly) key =
      some { share.header with xorKey := headerKey key }

/-- The coinbase of subsidy-only work pays the pool's script alone, which passes whatever was dictated. -/
theorem outputsPass_subsidyOnly {H : Hashing} {c : JobConfig} {j : JobInputs} {share : QueuedShare} {script : Bytes}
    {at_ : Nat} {config : ClientConfig} (h : Assembled H c j share.job script at_) (hj : j.Decoded config)
    (hkind : share.kind = .subsidyOnly) (splits : DictatedSplits) {s : PowSubmit} (hs : s.subsidyOnly = true) :
    share.OutputsPass config splits s := by
  intro tx hparses
  have hlength : (List.replicate EXTRANONCE_SIZE (0 : UInt8)).length = EXTRANONCE_SIZE := List.length_replicate
  rw [hkind, h.coinbase_eq, CoinbaseSpec.parseCoinbase_build (h.typed hj _) (.inr (hj.output_values c script at_ _))
    hlength] at hparses
  obtain rfl := Except.ok.inj hparses
  have hnone : (c.specFor j script at_ .subsidyOnly).build.2 = [] := rfl
  have hscript : (c.specFor j script at_ .subsidyOnly).poolPayoutScript = config.payoutScript := by
    show c.payoutScript j.poolConfig = _
    rw [hj.poolConfig_eq]
    rfl
  have hfold : ∃ m, ((c.specFor j script at_ .subsidyOnly).allOutputs
      (c.specFor j script at_ .subsidyOnly).build.2
      (Suffix.total TxOut.value (c.specFor j script at_ .subsidyOnly).build.2)
      (List.replicate EXTRANONCE_SIZE 0)).foldlM (matchOutput config.payoutScript []) (.start []) = .ok m := by
    rw [foldlM_matchOutput_nonzero, CoinbaseSpec.nonzero_allOutputs _ (by rw [hnone]; simp), hnone, List.nil_append,
      CoinbaseSpec.poolOutputs, hscript]
    split
    · rename_i hleft
      rw [List.foldlM_cons, matchOutput, if_neg (Nat.sub_ne_zero_of_lt hleft)]
      exact ⟨_, by rw [if_pos rfl]; rfl⟩
    · exact ⟨_, rfl⟩
  obtain ⟨m, hfold⟩ := hfold
  rw [checkOutputs, hs]
  simp only [if_true, Option.any_none, Bool.false_eq_true, if_false, Option.elim_none, Bool.not_true, Bool.false_and,
    hfold, bind, Except.bind, pure, Except.pure]
  exact ⟨_, rfl⟩

section Work

variable {H : Hashing} {c : JobConfig} {j : JobInputs} {config : ClientConfig} {share : QueuedShare}
  {splits : DictatedSplits} {nextTarget : Option Target} {extranonce : Vector UInt8 EXTRANONCE_SIZE}
  {siaNtime siaNonce : Vector UInt8 SIA_WORDS_LEN} {username : String} {key : Option XorKey}

/-- The share's message is read back. -/
theorem decode_submit {script : Bytes} {at_ : Nat} (h : Assembled H c j share.job script at_)
    (hbuilt : BuiltFrom H j share.job) (hj : j.Decoded config) (hnul : 0 ∉ stringBytes username)
    (hle : (stringBytes username).length ≤ MAX_USERNAME_LEN) :
    PowSubmit.decode (share.submit extranonce username).encode = .ok (share.submit extranonce username) := by
  have hfits : (share.submit extranonce username).FitsWire := by
    refine ⟨hnul, hle, ?_, ?_⟩
    · intro section_ hsection
      obtain rfl := Option.some.inj hsection
      exact ⟨hbuilt.coinbaseValue_eq ▸ hj.coinbaseValue_lt, h.branches_le⟩
    · intro cb hcb
      obtain rfl := Option.some.inj hcb
      exact h.section_fitsWire hj share.kind
  have hread := PowSubmit.decode_encode hfits []
  rwa [List.append_nil] at hread

variable (hj : j.Decoded config) (hfloor : floorLog2 config.minDifficulty.toNat ≤ share.targetByte.toNat)
  (htarget : share.targetByte ≤ MAX_TARGET_EXPONENT) (hkey : share.job.KeyedBy H key)
  (hheader : share.job.header H share.kind share.targetByte (headerExtranonce extranonce) siaNtime siaNonce =
    some share.header)

include hj hfloor htarget hkey hheader

/-- The share is rebuilt when its tag push does not pass for the unique id's. -/
theorem rebuildShare_submit (nextTarget : Option Target) {script : Bytes} {at_ : Nat} (h : Assembled H c j share.job script at_)
    {push : Bytes} (hpush : (c.scriptSigInputs j.template j.poolConfig).tagPushDataThatFits = some push)
    (hends : ¬ EndsInPrimeId config.primeId push)
    (hpaid : share.OutputsPass config splits (share.submit extranonce username)) :
    ∃ rebuilt, rebuildShare H config splits nextTarget share.job.jobSection (share.job.coinbase share.kind).section
        (share.submit extranonce username) key = .ok rebuilt ∧
      rebuilt.rawPowHash = share.job.rawPowHash H share.header ∧
      rebuilt.header = (poolHeader share.header key).serialize ∧
      (share.submit extranonce username).header share.job.jobSection (share.job.jobSection.merkleRoot H
        rebuilt.coinbaseTx (share.submit extranonce username).subsidyOnly) key = some (poolHeader share.header key) := by
  obtain ⟨tx, hparses, hwitness, ⟨rest, hscript⟩, hindex⟩ := h.parses hj share.kind
  obtain ⟨payments, hpaid⟩ := hpaid tx hparses
  have hparsed := ScriptSigInputs.parseScriptSig_isSome (hj.datumActive c) (hj.primeId_narrow c) h.scriptSig_eq
    hpush hscript (by rwa [hj.scriptSigInputs_primeId c])
  rw [hj.scriptSigInputs_primeId c, hj.scriptSigInputs_tagPrimary c, ← hindex] at hparsed
  obtain ⟨tagSecondary, hparsed⟩ := hparsed
  obtain ⟨full, hfull, hpool⟩ := powSubmit_header hheader hkey username (some share.job.jobSection)
    (some (share.job.coinbase share.kind).section)
  have hset : full = ((share.job.coinbase share.kind).section.assemble (List.replicate EXTRANONCE_SIZE 0)).set
      share.job.jobSection.targetByteIndex.toNat share.targetByte := by
    rw [Job.fullCoinbase, JobSection.coinbaseTx] at hfull
    split at hfull
    · exact (Option.some.inj hfull).symm
    · cases hfull
  obtain ⟨rebuilt, hrebuilt, htx, hserialized, hraw⟩ := rebuildShare_eq_ok nextTarget htarget hfloor
    hparses hwitness hparsed hpaid (hset ▸ hpool)
  refine ⟨rebuilt, hrebuilt, hraw.trans (rawPowHash_poolHeader hheader hkey), hserialized, ?_⟩
  rw [htx]
  exact hset ▸ hpool

end Work

/-- A share whose tag push passes for the unique id's is refused. -/
theorem rebuildShare_tag_push {H : Hashing} {c : JobConfig} {j : JobInputs} {config : ClientConfig} {job : Job}
    {script push : Bytes} {at_ : Nat} (h : Assembled H c j job script at_) (hj : j.Decoded config)
    (hpush : (c.scriptSigInputs j.template j.poolConfig).tagPushDataThatFits = some push)
    (hends : EndsInPrimeId config.primeId push) (kind : CoinbaseKind) (splits : DictatedSplits)
    (nextTarget : Option Target) (s : PowSubmit) (key : Option XorKey) (rebuilt : RebuiltShare) :
    rebuildShare H config splits nextTarget job.jobSection (job.coinbase kind).section s key ≠ .ok rebuilt := by
  obtain ⟨tx, hparses, -, ⟨rest, hscript⟩, hindex⟩ := h.parses hj kind
  refine rebuildShare_misread hparses (fun parsed hparsed => ?_) rebuilt
  rw [← hj.scriptSigInputs_primeId c] at hends
  rw [← hj.scriptSigInputs_primeId c, ← hj.scriptSigInputs_tagPrimary c] at hparsed
  have hbefore := ScriptSigInputs.parseScriptSig_of_ends (hj.datumActive c) (hj.primeId_narrow c) h.scriptSig_eq
    hpush hscript hends hparsed
  omega

theorem version_of_poolHeader {s : PowSubmit} {job : JobSection} {merkleRoot : Hash} {key : Option XorKey}
    {h : BlockHeaderV2} (hheader : s.header job merkleRoot key = some h) : h.version = s.version &&& ~~~V2_FLAG := by
  obtain ⟨shared, hshared, rfl⟩ := Option.map_eq_some_iff.mp hheader
  obtain ⟨txcount, rfl⟩ := JobSection.header_eq_some hshared
  rfl

theorem unflagged_iff (v : UInt32) : v &&& ~~~V2_FLAG = v ↔ v &&& V2_FLAG = 0 := by
  have hsplit := BlockHeaderV2.and_or_and_not v V2_FLAG
  constructor
  · intro hmasked
    rw [← hmasked, UInt32.and_assoc]
    have hzero : ~~~V2_FLAG &&& V2_FLAG = 0 := by decide
    rw [hzero, UInt32.and_zero]
  · intro hflag
    rw [hflag, UInt32.zero_or] at hsplit
    exact hsplit

/-- **The pool rebuilds the work it was sent** if and only if the tag push does not pass for the unique id's and
the template's version has no flag. -/
theorem pool_rebuilds_served_work {H : Hashing} {c : JobConfig} {j : JobInputs} {unixNow : Nat} {now : Instant}
    {config : ClientConfig} {share : QueuedShare} {splits : DictatedSplits} {nextTarget : Option Target}
    {extranonce : Vector UInt8 EXTRANONCE_SIZE} {siaNtime siaNonce : Vector UInt8 SIA_WORDS_LEN}
    {username : String} {key : Option XorKey} (hbuild : build H c j unixNow now = .ok share.job)
    (hj : j.Decoded config) (hfloor : floorLog2 config.minDifficulty.toNat ≤ share.targetByte.toNat)
    (htarget : share.targetByte ≤ MAX_TARGET_EXPONENT) (hkey : share.job.KeyedBy H key)
    (hheader : share.job.header H share.kind share.targetByte (headerExtranonce extranonce) siaNtime siaNonce =
      some share.header)
    (hnul : 0 ∉ stringBytes username) (hle : (stringBytes username).length ≤ MAX_USERNAME_LEN)
    (hpaid : share.kind = .pooled → share.OutputsPass config splits (share.submit extranonce username)) :
    SameWork H config splits nextTarget share extranonce siaNtime siaNonce username key ↔
      (∀ push, (c.scriptSigInputs j.template j.poolConfig).tagPushDataThatFits = some push →
        ¬ EndsInPrimeId config.primeId push) ∧ j.template.version &&& V2_FLAG = 0 := by
  obtain ⟨script, at_, h⟩ := build_assembled hbuild
  have hbuilt := build_eq_ok hbuild
  obtain ⟨push, hpush, -⟩ := ScriptSigInputs.of_scriptSig h.scriptSig_eq
  have hdecode : PowSubmit.decode (share.submit extranonce username).encode = .ok (share.submit extranonce username) :=
    decode_submit h hbuilt hj hnul hle
  have hversion : share.header.version = j.template.version := by
    rw [version_of_header hheader, hbuilt.template_eq]
  constructor
  · rintro ⟨-, s, rebuilt, hs, hrebuilt, -, -, hpool⟩
    obtain rfl := Except.ok.inj (hdecode.symm.trans hs)
    refine ⟨fun push' hpush' hends => ?_, ?_⟩
    · exact rebuildShare_tag_push h hj hpush' hends share.kind splits nextTarget _ key rebuilt hrebuilt
    · have hmasked := version_of_poolHeader hpool
      rw [← unflagged_iff, ← hversion]
      exact (BlockHeaderV2.flag_or_and_not_flag V2_FLAG share.header.version).symm.trans hmasked.symm
  · rintro ⟨htag, hflag⟩
    have hsame : poolHeader share.header key = { share.header with xorKey := headerKey key } := by
      rw [poolHeader, (unflagged_iff _).mpr (hversion ▸ hflag)]
    have hpass : share.OutputsPass config splits (share.submit extranonce username) := by
      cases hkind : share.kind with
      | pooled => exact hpaid hkind
      | subsidyOnly =>
          refine outputsPass_subsidyOnly h hj hkind splits ?_
          rw [QueuedShare.submit, subsidyOnly_powSubmit, hkind]
          rfl
    obtain ⟨rebuilt, hrebuilt, hraw, hserialized, hpool⟩ := rebuildShare_submit hj hfloor htarget hkey hheader nextTarget
      h hpush (htag push hpush) hpass
    rw [hsame] at hserialized hpool
    exact ⟨Job.rawHash_of_header h.prevblockHidden_eq hheader, _, rebuilt, hdecode, hrebuilt, hraw, hserialized, hpool⟩

/-! ### Subsidy-only work on an empty block -/

/-- A job of the configuration and its header at the lowest target byte, with no nonces. -/
def emptyWork (c : JobConfig) : Option (Job × BlockHeaderV2) := do
  let job ← (build constantHashing c taggedInputs 0 0).toOption
  let h ← job.header constantHashing .subsidyOnly 0 (headerExtranonce (Vector.replicate _ 0))
    (Vector.replicate _ 0) (Vector.replicate _ 0)
  pure (job, h)

def emptyWorkShare (job : Job) (h : BlockHeaderV2) : QueuedShare where
  job
  notifyPrefix := .emptyWork
  isBlock := false
  targetByte := 0
  header := h
  username := ""

theorem taggedInputs_decoded : taggedInputs.Decoded taggedPool := by
  refine ⟨rfl, fun _ => by decide, by decide, by decide, ?_⟩
  intro r hr
  cases hr

/-- The job is built, and its header is a share's. -/
theorem of_emptyWork {c : JobConfig} {job : Job} {h : BlockHeaderV2} (hwork : emptyWork c = some (job, h)) :
    build constantHashing c taggedInputs 0 0 = .ok (emptyWorkShare job h).job ∧
      (emptyWorkShare job h).job.KeyedBy constantHashing none ∧
      (emptyWorkShare job h).job.header constantHashing (emptyWorkShare job h).kind (emptyWorkShare job h).targetByte
        (headerExtranonce (Vector.replicate _ 0)) (Vector.replicate _ 0) (Vector.replicate _ 0) =
          some (emptyWorkShare job h).header := by
  obtain ⟨job', hjob, hwork⟩ := Option.bind_eq_some_iff.mp hwork
  obtain ⟨h', hheader, hwork⟩ := Option.bind_eq_some_iff.mp hwork
  obtain ⟨rfl, rfl⟩ := Prod.mk.inj (Option.some.inj hwork)
  have hbuild : build constantHashing c taggedInputs 0 0 = .ok job' := by
    cases hbuilt : build constantHashing c taggedInputs 0 0 with
    | error e =>
        rw [hbuilt] at hjob
        cases hjob
    | ok job =>
        rw [hbuilt] at hjob
        exact congrArg _ (Option.some.inj hjob)
  exact ⟨hbuild, (build_eq_ok hbuild).abw_eq, hheader⟩

theorem pool_rebuilds_served_work_untagged :
    ∃ job h, emptyWork untaggedConfig = some (job, h) ∧ ∀ splits nextTarget,
      SameWork constantHashing taggedPool splits nextTarget (emptyWorkShare job h) (Vector.replicate _ 0)
        (Vector.replicate _ 0) (Vector.replicate _ 0) "" none := by
  have hsome : (emptyWork untaggedConfig).isSome = true := by decide +kernel
  obtain ⟨⟨job, h⟩, hwork⟩ := Option.isSome_iff_exists.mp hsome
  obtain ⟨hbuild, hkey, hheader⟩ := of_emptyWork hwork
  refine ⟨job, h, hwork, fun splits nextTarget => (pool_rebuilds_served_work hbuild taggedInputs_decoded
    (show floorLog2 1 ≤ 0 by decide) (show (0 : UInt8) ≤ 63 by decide) hkey hheader (by decide) (by decide)
    (fun hkind => by cases hkind)).mpr ⟨?_, by decide⟩⟩
  intro push hpush
  have hfits : (untaggedConfig.scriptSigInputs taggedInputs.template taggedInputs.poolConfig).tagPushDataThatFits =
      some [0x50, 0x00] := by decide +kernel
  obtain rfl := Option.some.inj (hfits.symm.trans hpush)
  rw [← carriesPrimeId_iff]
  decide

/-- A gateway whose secondary tag ends as the prime id does. -/
def controlTagConfig : JobConfig := { untaggedConfig with coinbaseTagSecondary := "x\x01\x00\x00" }

/-- Not every share of a job is rebuilt: the tag push of this job is seven bytes and ends in the prime id, and the
pool takes it for the unique id's. -/
theorem tag_push_not_rebuilt :
    ¬ ∀ (H : Hashing) (c : JobConfig) (j : JobInputs) (unixNow : Nat) (now : Instant) (config : ClientConfig)
      (share : QueuedShare) (splits : DictatedSplits) (nextTarget : Option Target)
      (extranonce : Vector UInt8 EXTRANONCE_SIZE) (siaNtime siaNonce : Vector UInt8 SIA_WORDS_LEN)
      (username : String) (key : Option XorKey), build H c j unixNow now = .ok share.job → j.Decoded config →
      floorLog2 config.minDifficulty.toNat ≤ share.targetByte.toNat → share.targetByte ≤ MAX_TARGET_EXPONENT →
      share.job.KeyedBy H key →
      share.job.header H share.kind share.targetByte (headerExtranonce extranonce) siaNtime siaNonce =
        some share.header →
      0 ∉ stringBytes username → (stringBytes username).length ≤ MAX_USERNAME_LEN →
      (share.kind = .pooled → share.OutputsPass config splits (share.submit extranonce username)) →
        SameWork H config splits nextTarget share extranonce siaNtime siaNonce username key := by
  intro hall
  have hsome : (emptyWork controlTagConfig).isSome = true := by decide +kernel
  obtain ⟨⟨job, h⟩, hwork⟩ := Option.isSome_iff_exists.mp hsome
  obtain ⟨hbuild, hkey, hheader⟩ := of_emptyWork hwork
  obtain ⟨-, s, rebuilt, -, hrebuilt, -⟩ := hall constantHashing controlTagConfig taggedInputs 0 0 taggedPool
    (emptyWorkShare job h) ⟨0, fun _ => none, []⟩ none (Vector.replicate _ 0) (Vector.replicate _ 0)
    (Vector.replicate _ 0) "" none hbuild taggedInputs_decoded (show floorLog2 1 ≤ 0 by decide)
    (show (0 : UInt8) ≤ 63 by decide) hkey hheader (by decide) (by decide) (fun hkind => by cases hkind)
  obtain ⟨script, at_, hassembled⟩ := build_assembled hbuild
  have hfits : (controlTagConfig.scriptSigInputs taggedInputs.template taggedInputs.poolConfig).tagPushDataThatFits =
      some [0x50, 0x0f, 0x78, 0x01, 0x00, 0x00, 0x00] := by decide +kernel
  refine rebuildShare_tag_push hassembled taggedInputs_decoded hfits ?_ _ _ _ s none rebuilt hrebuilt
  rw [← carriesPrimeId_iff]
  decide

end Ratum
