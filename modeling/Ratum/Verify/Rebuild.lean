import Ratum.Base.FailsIn
import Ratum.Core.Target
import Ratum.Datum.Coinbase
import Ratum.Datum.Config
import Ratum.Datum.Work
import Ratum.Verify.CheckOutputs
import Ratum.Verify.Rebuilt

/-!
# Rebuilding a share

`rebuild_share` of `prime/src/verify/rebuild.rs`: the block a share claims, from the sections it was mined
on. The next block's target is an argument.
-/

namespace Ratum

inductive Chain
  | main
  | test
  | testnet4
  | signet
  | regtest
  | other
  deriving DecidableEq

/-- What a share is checked against: the configuration every gateway was sent, and the node's chain. -/
structure SharePolicy where
  config : ClientConfig
  chain : Option Chain

/-- The reasons a share is refused for when it is rebuilt. -/
def RejectReason.ofRebuild : RejectReason → Bool
  | badTarget | badCoinbase | missingPoolTag | targetMismatch | badCoinbaserId | badCoinbaseOutputs => true
  | _ => false

theorem RejectReason.ofRebuild_unresolved {reason : RejectReason} (hrebuild : reason.ofRebuild = true) :
    reason.unresolved = false := by
  cases reason <;> first | rfl | cases hrebuild

section

variable (H : Hashing) (config : ClientConfig) (splits : DictatedSplits) (nextTarget : Option Target)

/-- The digest that keys the node's verdict on the job's block with the coinbase. -/
def coinbaseDigest (cb : CoinbaseSection) (subsidyOnly : Bool) : Hash :=
  H.sha256d (cb.coinb1 ++ cb.coinb2 ++ [if subsidyOnly then 1 else 0])

def rebuildShare (job : JobSection) (cb : CoinbaseSection) (s : PowSubmit) (abwKey : Option XorKey) :
    Except RejectReason RebuiltShare := do
  if MAX_TARGET_EXPONENT < s.targetByte || s.targetByte.toNat < floorLog2 config.minDifficulty.toNat then
    throw .badTarget
  let tx := cb.assemble (List.replicate EXTRANONCE_SIZE 0)
  let parsed ← (parseCoinbase tx).mapError fun _ => .badCoinbase
  if parsed.hasWitness then throw .badCoinbase
  let some script := parseScriptSig parsed config.primeId config.coinbaseTag | throw .missingPoolTag
  if job.targetByteIndex.toNat ≠ script.targetByteIndex then throw .targetMismatch
  let coinbaseTx := tx.set script.targetByteIndex s.targetByte
  let payments ← checkOutputs config.payoutScript splits job parsed s
  let some h := s.header job (job.merkleRoot H coinbaseTx s.subsidyOnly) abwKey | throw .badCoinbase
  let hashes := h.powHashes H
  pure
    { isBlock := nextTarget.any (meetsTarget hashes.blockHash)
      difficulty := s.difficulty
      blockHash := hashes.blockHash
      rawPowHash := hashes.rawPowHash
      prevHash := job.prevHash
      jobBits := UInt32.ofNat (leNat job.nbits.toList)
      header := h.serialize
      coinbaseTx
      height := job.height
      txnCount := job.txnCount
      coinbaserId := job.coinbaserId
      paidToSplit := payments.paidToSplit
      paidToPool := payments.paidToPool
      unpaidOutputs := payments.unpaidOutputs
      tagSecondary := script.tagSecondary
      version := s.version &&& ~~~V2_FLAG
      coinbaseDigest := coinbaseDigest H cb s.subsidyOnly
      jobGeneration := none }

end

variable {H : Hashing} {config : ClientConfig} {splits : DictatedSplits} {nextTarget : Option Target}

theorem checkOutputs_ofRebuild (job : JobSection) (tx : CoinbaseTx) (s : PowSubmit) :
    FailsIn (·.ofRebuild) (checkOutputs config.payoutScript splits job tx s) := by
  rw [checkOutputs]
  refine .ite (fun _ => .error rfl) fun _ => .bind ?_ fun m _ => .ite (fun _ => .error rfl) fun _ => .ok _
  intro reason hfold
  rw [foldlM_matchOutput_error hfold]
  rfl

/-- A share is refused for one of few reasons when it is rebuilt. -/
theorem rebuildShare_ofRebuild (job : JobSection) (cb : CoinbaseSection) (s : PowSubmit)
    (abwKey : Option XorKey) :
    FailsIn (·.ofRebuild) (rebuildShare H config splits nextTarget job cb s abwKey) := by
  rw [rebuildShare]
  refine .ite (fun _ => .error rfl) fun _ => .bind ?_ fun parsed _ =>
    .ite (fun _ => .error rfl) fun _ => ?_
  · exact .mapError fun _ => rfl
  · split
    · refine .ite (fun _ => .error rfl) fun _ => .bind (checkOutputs_ofRebuild job parsed s) fun _ _ => ?_
      split
      · exact .ok _
      · exact .error rfl
    · exact .error rfl

/-- A rebuilt share is its header's: written as that, and hashed as that. -/
theorem rebuildShare_of_header {job : JobSection} {cb : CoinbaseSection} {s : PowSubmit}
    {abwKey : Option XorKey} :
    Gives (fun rebuilt => s.targetByte ≤ MAX_TARGET_EXPONENT ∧
      ∃ h, s.header job (job.merkleRoot H rebuilt.coinbaseTx s.subsidyOnly) abwKey = some h ∧
        rebuilt.header = h.serialize ∧ (h.powHashes H).rawPowHash = rebuilt.rawPowHash ∧
        (h.powHashes H).blockHash = rebuilt.blockHash)
      (rebuildShare H config splits nextTarget job cb s abwKey) := by
  rw [rebuildShare]
  refine .ite (fun _ => .error _) fun htarget => .bind fun parsed _ => .ite (fun _ => .error _) fun _ => ?_
  split
  · refine .ite (fun _ => .error _) fun _ => .bind fun payments _ => ?_
    split
    · rename_i h hheader
      refine .ok ⟨?_, h, hheader, rfl, rfl, rfl⟩
      simp only [Bool.or_eq_true, decide_eq_true_eq, not_or] at htarget
      exact UInt8.not_lt.mp htarget.1
    · exact .error _
  · exact .error _

end Ratum
