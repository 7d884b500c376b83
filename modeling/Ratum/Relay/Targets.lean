import Ratum.Core.TargetBytes
import Ratum.Relay.Shares

/-!
# The targets a relayed block is measured by

A refused share on a parent that is not the template's is relayed when it is a block by its job's bits and
those are no easier than the template's by more than a shift, both read as the numbers their bytes write.
-/

namespace Ratum

variable {v : Verifier} {rebuilt : RebuiltShare} {next : NextBlock} {template own : Hash}

/-- On another parent, a share is relayed for the numbers its targets are. -/
theorem Verifier.relayable_iff (hchain : allowsMinDifficultyBlocks v.policy.chain = false)
    (hnext : v.next = some next) (hparent : v.nextOn rebuilt.prevHash = none)
    (htemplate : bitsToTargetBytes next.bits = some template)
    (hown : bitsToTargetBytes rebuilt.jobBits = some own) :
    v.relayable rebuilt = true ↔
      beNat rebuilt.blockHash ≤ beNat own ∧ beNat own ≤ shlSaturating (beNat template) MAX_RELAY_TARGET_SHIFT := by
  have hownNumber : bitsToTarget rebuilt.jobBits = some (beNat own) := by
    rw [← map_beNat_bitsToTargetBytes, hown, Option.map_some]
  have hnextNumber : v.nextTarget = some (beNat template) := by
    rw [nextTarget, hnext, Option.bind_some, ← map_beNat_bitsToTargetBytes, htemplate, Option.map_some]
  have hmeets : rebuilt.meetsOwnBits = decide (beNat rebuilt.blockHash ≤ beNat own) := by
    rw [RebuiltShare.meetsOwnBits, hownNumber]
    rfl
  rw [relayable, hmeets, hchain, hparent, hnextNumber, hownNumber]
  by_cases hblock : beNat rebuilt.blockHash ≤ beNat own
  · simp [hblock]
  · simp [hblock]

/-- **Targets are the numbers they encode**: compact bits decode to theirs, unless it is negative, zero, or of
more than 256 bits; a shift multiplies, up to the largest target; a hash meets a target by the numbers. So a
refused share on another parent than the template's is relayed, where blocks of the minimum difficulty are
not allowed, exactly when it meets its own target and that is at most the template's shifted. -/
theorem targets_are_numbers :
    (∀ bits, (∀ t, bitsToTargetBytes bits = some t → beNat t = compactValue bits) ∧
      (bitsToTargetBytes bits = none ↔
        bits &&& 0x00800000 ≠ 0 ∨ 2 ^ 256 ≤ compactValue bits ∨ MAX_COMPACT_TARGET_SIZE < (bits >>> 24).toNat ∨
          compactValue bits = 0)) ∧
    (∀ t bits, beNat (shlSaturatingBytes t bits) = min (beNat t * 2 ^ bits.toNat) (2 ^ 256 - 1)) ∧
    (∀ hash t, meetsTargetBytes hash t = true ↔ beNat hash ≤ beNat t) ∧
    ∀ (v : Verifier) rebuilt next template own, allowsMinDifficultyBlocks v.policy.chain = false →
      v.next = some next → v.nextOn rebuilt.prevHash = none → bitsToTargetBytes next.bits = some template →
      bitsToTargetBytes rebuilt.jobBits = some own →
      (v.relayable rebuilt = true ↔
        beNat rebuilt.blockHash ≤ beNat own ∧
          beNat own ≤ min (beNat template * 2 ^ MAX_RELAY_TARGET_SHIFT) (2 ^ 256 - 1)) ∧
      v.relayable rebuilt = (meetsTargetBytes rebuilt.blockHash own &&
        decide (own.toList ≤ (shlSaturatingBytes template (UInt32.ofNat MAX_RELAY_TARGET_SHIFT)).toList)) := by
  have hshift (t : Hash) (bits : UInt32) :
      beNat (shlSaturatingBytes t bits) = min (beNat t * 2 ^ bits.toNat) (2 ^ 256 - 1) := by
    rw [beNat_shlSaturatingBytes, shlSaturating, Nat.shiftLeft_eq]
    rfl
  have hmeets (hash t : Hash) : meetsTargetBytes hash t = true ↔ beNat hash ≤ beNat t := by
    rw [meetsTargetBytes_eq, meetsTarget, decide_eq_true_iff]
  refine ⟨bitsToTargetBytes_spec, hshift, hmeets, ?_⟩
  intro v rebuilt next template own hchain hnext hparent htemplate hown
  have hrelayable := Verifier.relayable_iff hchain hnext hparent htemplate hown
  rw [shlSaturating, Nat.shiftLeft_eq] at hrelayable
  refine ⟨hrelayable, ?_⟩
  rw [Bool.eq_iff_iff, hrelayable, Bool.and_eq_true, hmeets, decide_eq_true_iff, ← beNat_le_iff, hshift]
  rfl

end Ratum
