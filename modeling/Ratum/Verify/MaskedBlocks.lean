import Ratum.Datum.XorMask
import Ratum.Gateway.Submissions
import Ratum.Verify.StaleVerdict

/-!
# No block is lost to the mask

The pool refuses a share as a high hash only for its raw hash, which a share that is a block meets its target
with. The gateway, which sees no other hash, checks the same one.
-/

namespace Ratum

/-! ### The hashes of a header -/

theorem BlockHeaderV2.powHashes_blockHash (H : Hashing) (h : BlockHeaderV2) :
    (h.powHashes H).blockHash =
      masked (h.powHashes H).rawPowHash (H.xorKeyMask h.xorKey h.xorKeyMaskClearBits) := rfl

/-- The header has no slot key, or its mask clears the bits the target byte names. -/
def BlockHeaderV2.MaskedFor (h : BlockHeaderV2) (targetByte : UInt8) : Prop :=
  h.xorKey = Vector.replicate _ 0 ∨ h.xorKeyMaskClearBits = clearBits targetByte

/-- A header's block hash that meets a block target below the share target has a raw hash that meets the share
target. -/
theorem BlockHeaderV2.meetsTarget_raw (H : Hashing) {h : BlockHeaderV2} {targetByte : UInt8}
    (hmasked : h.MaskedFor targetByte) (htarget : targetByte ≤ 223) {target : Target}
    (hbelow : target < targetForExponent targetByte)
    (hblock : meetsTarget (h.powHashes H).blockHash target = true) :
    meetsTarget (h.powHashes H).rawPowHash (targetForExponent targetByte) = true := by
  rw [powHashes_blockHash] at hblock
  rcases hmasked with hkey | hclear
  · rw [hkey, H.xorKeyMask_zero, ← H.xorKeyMask_zero (clearBits targetByte)] at hblock
    exact meetsTarget_of_masked H _ htarget hbelow hblock
  · rw [hclear] at hblock
    exact meetsTarget_of_masked H _ htarget hbelow hblock

theorem PowSubmit.header_maskedFor {s : PowSubmit} {job : JobSection} {merkleRoot : Hash}
    {abwKey : Option XorKey} {h : BlockHeaderV2} (hheader : s.header job merkleRoot abwKey = some h) :
    h.MaskedFor s.targetByte := by
  obtain ⟨shared, hshared, rfl⟩ := Option.map_eq_some_iff.mp hheader
  cases abwKey with
  | none => exact .inl rfl
  | some key =>
      right
      rw [JobSection.header] at hshared
      dsimp only at hshared
      generalize (if s.subsidyOnly = true then 1 else job.txnCount.toNat + 1) = count at hshared
      split at hshared
      · obtain rfl := Option.some.inj hshared
        rfl
      · cases hshared

/-! ### The pool -/

namespace Verifier

variable {H : Hashing} {v : Verifier} {s : PowSubmit} {abw : Option AbwSlotState} {now : Nat}

/-- A block below the share target meets it. -/
def BlockMeets (s : PowSubmit) (rebuilt : RebuiltShare) : Prop :=
  ∀ target < targetForExponent s.targetByte, meetsTarget rebuilt.blockHash target = true →
    meetsShareTarget s rebuilt = true

theorem rebuild_blockMeets : Gives (BlockMeets s) (v.rebuild H s abw) := by
  rw [rebuild]
  refine .bind fun _ _ => .bind fun sections _ => .bind fun key _ => .bind fun rebuilt hrebuilt => ?_
  have hmeets : BlockMeets s rebuilt := by
    intro target hbelow hblock
    cases hshare : rebuildShare H v.policy.config v.splits v.nextTarget sections.1 sections.2 s
        (key.map Prod.fst) with
    | error reason =>
        rw [hshare] at hrebuilt
        cases hrebuilt
    | ok share =>
        rw [hshare] at hrebuilt
        cases hrebuilt
        obtain ⟨htarget, h, hheader, -, hraw, hhash⟩ := rebuildShare_of_header rebuilt hshare
        rw [← hhash] at hblock
        rw [meetsShareTarget, ← hraw]
        exact h.meetsTarget_raw H (PowSubmit.header_maskedFor hheader) (UInt8.le_trans htarget (by decide))
          hbelow hblock
  split
  · exact .error _
  · exact .ok hmeets

theorem ofContents_ne_high {reason : RejectReason} (h : reason.ofContents) : reason ≠ .highHash := by
  rintro rfl
  cases h

/-- A share is refused as a high hash only when no block target below its share target is met by its block
hash. -/
theorem verify_high_hash {refusal : Refusal} (hrefused : (v.verify H s abw now).1 = .error refusal)
    (hhigh : refusal.reason = .highHash) :
    ∃ rebuilt, refusal.rebuilt = some rebuilt ∧ ∀ target < targetForExponent s.targetByte,
      meetsTarget rebuilt.blockHash target = false := by
  rw [verify] at hrefused
  cases hrebuild : v.rebuild H s abw with
  | error refused =>
      rw [hrebuild] at hrefused
      cases hrefused
      exact absurd hhigh (rebuild_failsIn (P := (· ≠ .highHash)) (fun _ => ofContents_ne_high)
        (fun _ => RejectReason.noConfusion) refused hrebuild)
  | ok rebuilt =>
      rw [hrebuild] at hrefused
      dsimp only at hrefused
      cases hchecked : (v.checkRebuilt s rebuilt now (meetsShareTarget s rebuilt)).1 with
      | ok _ =>
          rw [hchecked] at hrefused
          cases hrefused
      | error reason =>
          rw [hchecked] at hrefused
          cases hrefused
          refine ⟨_, rfl, fun target hbelow => ?_⟩
          by_contra hblock
          have hmeets := rebuild_blockMeets rebuilt hrebuild target hbelow
            (Bool.eq_true_of_not_eq_false hblock)
          refine absurd hhigh (checkRebuilt_failsIn_of (P := (· ≠ .highHash)) (fun _ => ofContents_ne_high)
            (fun _ => RejectReason.noConfusion) (fun hnot => ?_) reason hchecked)
          rw [hmeets] at hnot
          cases hnot

end Verifier

/-! ### The gateway -/

/-- The key the job's work is hashed under: the one its assignment commits to, or none. -/
def Job.KeyIs (H : Hashing) (job : Job) (key : XorKey) : Prop :=
  match job.abw with
  | some a => a.keyHash = H.xorKeyHash key
  | none => key = Vector.replicate _ 0

/-- What the gateway hashes is the header under the key, before its mask. -/
theorem Job.rawPowHash_eq (H : Hashing) {job : Job} {key : XorKey} (hkey : job.KeyIs H key)
    (h : BlockHeaderV2) (hzero : h.xorKey = Vector.replicate _ 0) :
    job.rawPowHash H h = ({ h with xorKey := key }.powHashes H).rawPowHash := by
  rw [rawPowHash, hashStages]
  rw [KeyIs] at hkey
  split
  · rename_i a hassigned
    rw [hassigned] at hkey
    dsimp only at hkey
    rw [hkey]
    rfl
  · rename_i hnone
    rw [hnone] at hkey
    dsimp only at hkey
    subst hkey
    rw [← hzero]
    rfl

theorem JobSection.header_xorKey (job : JobSection) {version time : UInt32} {merkleRoot : Hash}
    {subsidyOnly : Bool} {targetByte : UInt8} {abw : Bool} {h : BlockHeaderV2}
    (hheader : job.header version time merkleRoot subsidyOnly targetByte abw = some h) :
    h.xorKey = Vector.replicate _ 0 ∧ (abw = true → h.xorKeyMaskClearBits = clearBits targetByte) := by
  rw [header] at hheader
  dsimp only at hheader
  generalize (if subsidyOnly = true then 1 else job.txnCount.toNat + 1) = count at hheader
  split at hheader
  · obtain rfl := Option.some.inj hheader
    refine ⟨rfl, ?_⟩
    rintro rfl
    rfl
  · cases hheader

theorem Job.header_xorKey (H : Hashing) {job : Job} {kind : CoinbaseKind} {targetByte : UInt8}
    {extranonce : Vector UInt8 HEADER_EXTRANONCE_SIZE} {siaNtime siaNonce : Vector UInt8 SIA_WORDS_LEN}
    {h : BlockHeaderV2} (hheader : job.header H kind targetByte extranonce siaNtime siaNonce = some h) :
    h.xorKey = Vector.replicate _ 0 ∧
      (job.abw.isSome = true → h.xorKeyMaskClearBits = clearBits targetByte) := by
  obtain ⟨commitment, hcommitment, rfl⟩ := Option.map_eq_some_iff.mp hheader
  rw [Job.commitment] at hcommitment
  obtain ⟨tx, -, hcommitment⟩ := Option.bind_eq_some_iff.mp hcommitment
  obtain ⟨shared, hshared, hcommitment⟩ := Option.bind_eq_some_iff.mp hcommitment
  obtain rfl := Option.some.inj hcommitment
  have hfields := job.jobSection.header_xorKey hshared
  exact hfields

section Gateway

variable {F : Type} (H : Hashing) (ops : FloatOps F) (decoding : AddressDecoding) (cfg : ShareConfig F)

theorem checkShare_not_high (s : SubmitState) (job : Job) {hash : Hash} {targetByte : UInt8}
    (hmeets : meetsTarget hash (targetForExponent targetByte) = true) (username : String) :
    (checkShare decoding cfg s job hash targetByte username).1 ≠ .error .highHash := by
  rw [checkShare, hmeets]
  split
  · exact fun h => by cases h
  · simp only [Bool.not_true, Bool.false_eq_true, if_false]
    split
    · exact fun h => by cases h
    · split
      · exact fun h => by cases h
      · split <;> exact fun h => by cases h

/-- A share that is a block under the job's key is not refused as a high hash, and is queued for the pool once
it is accepted. -/
theorem evaluate_of_block (s : SubmitState) {req : SubmitRequest} {header : BlockHeaderV2} {key : XorKey}
    (hheader : req.header H = some header) (hkey : req.job.KeyIs H key) (hdiff : req.jobDiff < 2 ^ 64)
    {target : Target} (hbelow : target < targetForExponent req.targetByte)
    (hblock : meetsTarget ({ header with xorKey := key }.powHashes H).blockHash target = true) :
    (evaluate H ops decoding cfg s req).1.answer ≠ .error .highHash ∧
      ((evaluate H ops decoding cfg s req).1.answer.isOk → req.job.isDatumJob = true →
        s.pool.full = false → ∃ share, (evaluate H ops decoding cfg s req).1.queued = some share ∧
          share.header = header) := by
  obtain ⟨hzero, hclear⟩ := Job.header_xorKey H hheader
  have htarget : req.targetByte ≤ 223 := by
    have hlog : floorLog2 req.jobDiff ≤ 63 := by
      rw [floorLog2]
      rcases Nat.eq_zero_or_pos req.jobDiff with h | h
      · rw [h]
        decide
      · exact Nat.le_of_lt_succ ((Nat.log2_lt h.ne').mpr hdiff)
    rw [UInt8.le_iff_toNat_le, SubmitRequest.targetByte, UInt8.toNat_ofNat']
    exact (Nat.mod_le _ _).trans (hlog.trans (by decide))
  have hmasked : { header with xorKey := key }.MaskedFor req.targetByte := by
    cases habw : req.job.abw with
    | none =>
        rw [Job.KeyIs, habw] at hkey
        exact .inl hkey
    | some a => exact .inr (hclear (by rw [habw]; rfl))
  have hmeets : meetsTarget (req.job.rawPowHash H header) (targetForExponent req.targetByte) = true := by
    rw [Job.rawPowHash_eq H hkey header hzero]
    exact BlockHeaderV2.meetsTarget_raw H hmasked htarget hbelow hblock
  rw [evaluate, hheader]
  refine ⟨checkShare_not_high decoding cfg s req.job hmeets _, fun hok hdatum hroom => ?_⟩
  dsimp only at hok ⊢
  rw [hok, hdatum, hroom, Bool.or_true, Bool.and_true, Bool.not_false, Bool.and_true, if_pos rfl]
  exact ⟨_, rfl, rfl⟩

end Gateway

/-- **The XOR mask loses no block.** Whatever the slot key, the mask is below the share target and moves no
hash across it, and no key has no mask; so a share that is a block, for any block target below its share
target, is refused as a high hash neither by the pool nor by the gateway, which sees only the raw hash. -/
theorem xor_mask_loses_no_block (H : Hashing) :
    (∀ key targetByte raw, targetByte ≤ 223 →
      let T := exponentTarget targetByte
      let mask := H.xorKeyMask key (clearBits targetByte)
      mask.toList < T.toList ∧ beNat mask < targetForExponent targetByte ∧
        (raw.toList < T.toList ↔ (masked raw mask).toList < T.toList) ∧
        ∀ target : Hash, target.toList < T.toList → meetsTargetBytes (masked raw mask) target = true →
          meetsTargetBytes raw T = true) ∧
    (∀ clearBits, H.xorKeyMask (Vector.replicate _ 0) clearBits = Vector.replicate _ 0) ∧
    (∀ v : Verifier, ∀ s abw now refusal, (v.verify H s abw now).1 = .error refusal →
      refusal.reason = .highHash → ∃ rebuilt, refusal.rebuilt = some rebuilt ∧
        ∀ target < targetForExponent s.targetByte, meetsTarget rebuilt.blockHash target = false) ∧
    ∀ {F : Type} (ops : FloatOps F) (decoding : AddressDecoding) (cfg : ShareConfig F) s
      (req : SubmitRequest) header key, req.header H = some header → req.job.KeyIs H key →
        req.jobDiff < 2 ^ 64 → ∀ target < targetForExponent req.targetByte,
          meetsTarget ({ header with xorKey := key }.powHashes H).blockHash target = true →
            (evaluate H ops decoding cfg s req).1.answer ≠ .error .highHash ∧
              ((evaluate H ops decoding cfg s req).1.answer.isOk → req.job.isDatumJob = true →
                s.pool.full = false → ∃ share,
                  (evaluate H ops decoding cfg s req).1.queued = some share ∧ share.header = header) := by
  refine ⟨?_, H.xorKeyMask_zero, fun v s abw now refusal => Verifier.verify_high_hash, ?_⟩
  · intro key targetByte raw htarget T mask
    have hmask := H.xorKeyMask_lt key htarget
    have hacross := masked_lt_iff H key htarget raw
    rw [← beNat_lt_iff, ← beNat_lt_iff, ← beNat_lt_iff, beNat_exponentTarget]
    refine ⟨hmask, hmask, hacross.symm, fun target hbelow hblock => ?_⟩
    rw [← beNat_lt_iff, beNat_exponentTarget] at hbelow
    rw [meetsTargetBytes_eq] at hblock ⊢
    rw [beNat_exponentTarget]
    exact meetsTarget_of_masked H key htarget hbelow hblock
  · intro F ops decoding cfg s req header key hheader hkey hdiff target hbelow hblock
    exact evaluate_of_block H ops decoding cfg s hheader hkey hdiff hbelow hblock

end Ratum
