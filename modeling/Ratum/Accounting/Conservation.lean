import Ratum.Accounting.Owed
import Ratum.Verify.CheckOutputs

/-!
# The value of a pooled block

A coinbase accepted on a split the pool dictated pays the split and the pool's script the whole value
between them, and what it leaves unpaid the pool's script received, beyond the operator fee.
-/

namespace Ratum

/-- What a coinbase pays, and what it leaves, of a split. -/
structure Conserved (payoutScript : Bytes) (policy : SplitPolicy) (split : DictatedSplit)
    (tx : CoinbaseTx) (p : Payments) (used : List (Option Nat)) : Prop where
  /-- Each nonzero output is a dictated one, or pays the pool's script. -/
  covered : List.Forall₂ (Covers payoutScript split.outputs) (nonzero tx.outputs) used
  /-- Each dictated output is used at most once, in order. -/
  increasing : used.reduceOption.Pairwise (· < ·)
  value : p.paidToSplit + p.paidToPool = split.value
  paid : p.paidToSplit + p.paidToPool = Suffix.total TxOut.value tx.outputs
  /-- What is unpaid is exactly the dictated outputs not used and not paying the pool's script. -/
  unpaid : p.unpaidOutputs =
    (split.outputs.zipIdx.filter fun (d, i) =>
      i ∉ used.reduceOption && d.scriptPubkey ≠ payoutScript).map fun (d, _) => d.payout
  owed : Suffix.total Payout.sats p.unpaidOutputs + policy.feeOn split.value ≤ p.paidToPool

variable {payoutScript : Bytes} {policy : SplitPolicy} {addressScript : AddressScript}
  {splits : DictatedSplits} {split : DictatedSplit} {job : JobSection} {tx : CoinbaseTx}
  {s : PowSubmit} {p : Payments}

/-- What an accepted coinbase of a pooled share passed. -/
theorem checkOutputs_ok (hpooled : s.subsidyOnly = false)
    (hnamed : splits.get job.coinbaserId = some split)
    (hcheck : checkOutputs payoutScript splits job tx s = .ok p) :
    split.value = job.coinbaseValue ∧ ∃ m,
      tx.outputs.foldlM (matchOutput payoutScript split.outputs) (.start split.outputs) = .ok m ∧
      satAdd64 m.paidToSplit m.paidToPool = job.coinbaseValue ∧
      p = ⟨m.paidToSplit, m.paidToPool, unpaid payoutScript split.outputs m.paid⟩ := by
  unfold checkOutputs at hcheck
  simp only [hpooled, hnamed, Option.any_some, Option.elim_some, Bool.not_false, Bool.true_and,
    Bool.false_eq_true, if_false] at hcheck
  by_cases hjob : (split.prevHash ≠ job.prevHash || split.value ≠ job.coinbaseValue) = true
  · rw [if_pos hjob] at hcheck
    cases hcheck
  · rw [if_neg hjob] at hcheck
    simp only [Bool.or_eq_true, decide_eq_true_eq, not_or, not_not] at hjob
    cases hfold : tx.outputs.foldlM (matchOutput payoutScript split.outputs) (.start split.outputs) with
    | error reason => simp [hfold, bind, Except.bind] at hcheck
    | ok m =>
        simp only [hfold, bind, Except.bind, pure, Except.pure] at hcheck
        by_cases hvalue : satAdd64 m.paidToSplit m.paidToPool = job.coinbaseValue
        · simp only [hvalue, ne_eq, not_true_eq_false, decide_false, Bool.false_eq_true, if_false,
            Except.ok.injEq] at hcheck
          exact ⟨hjob.2, m, rfl, hvalue, hcheck.symm⟩
        · simp [hvalue, throw, throwThe, MonadExceptOf.throw] at hcheck

/-- A coinbase accepted on dictated outputs conserves their value. -/
theorem checkOutputs_conserved (hdictated : split.Dictated addressScript policy)
    (hpooled : s.subsidyOnly = false) (hnamed : splits.get job.coinbaserId = some split)
    (hvalue : split.value < U64_MAX) (hcheck : checkOutputs payoutScript splits job tx s = .ok p) :
    (∃ used, Conserved payoutScript policy split tx p used) ∧
      ∀ payout ∈ p.unpaidOutputs, 0 < payout.sats := by
  obtain ⟨F, l, hpolicy, houtputs⟩ := hdictated
  obtain ⟨hjob, m, hfold, hsum, rfl⟩ := checkOutputs_ok hpooled hnamed hcheck
  obtain ⟨used, hof⟩ := foldlM_matchOutput_of .start hfold
  rw [List.nil_append] at hof
  obtain ⟨hdictated, hpos⟩ := dictatedOutputs_spec addressScript l split.value (by omega)
  rw [← houtputs, hpolicy] at hdictated
  rw [← houtputs] at hpos
  obtain ⟨pool, hsplit, hpool, htotal⟩ := hof.amounts
  have hlength : m.paid.length = split.outputs.length := by
    rw [hof.paid, List.length_map, List.length_range]
  have hmarked := Marks.total_flagged_add (fun d : DictatedOutput => d.payout.sats) hlength
  have hunpaid := total_unpaid_le payoutScript split.outputs m.paid
  unfold satAdd64 at hsum
  -- The sums stay below the bound they saturate at, since they make up the job's value.
  have hexact : m.paidToSplit + m.paidToPool = split.value := by omega
  constructor
  · refine ⟨used, hof.covered, hof.increasing, hexact, ?_, hof.unpaid, ?_⟩
    · show m.paidToSplit + m.paidToPool = _
      omega
    · show Suffix.total Payout.sats (unpaid payoutScript split.outputs m.paid) + _ ≤ m.paidToPool
      omega
  · intro payout hpayout
    obtain ⟨entry, hentry, rfl⟩ := List.mem_map.mp hpayout
    exact hpos entry.1 (List.of_mem_zip (List.mem_filter.mp hentry).1).1

/-- **The value of a pooled block is conserved and never over-owed.** For every split of a session's
table, and every coinbase accepted on it for a share that is not subsidy-only: the coinbase conserves the
split's value, and a block of it is recorded as owing exactly the outputs it left unpaid. -/
theorem pooled_block_conserved (job : JobSection) (s : PowSubmit) {trace : List SplitsEvent}
    (hrun : (splitsRuns addressScript policy).Run trace splits) (hpooled : s.subsidyOnly = false)
    (hnamed : splits.get job.coinbaserId = some split) (hvalue : split.value < U64_MAX)
    (hcheck : checkOutputs payoutScript splits job tx s = .ok p) :
    (∃ used, Conserved payoutScript policy split tx p used) ∧
      ∀ (F : Type) (l : Ledger F) (records : BlockRecords F) (rebuilt : RebuiltShare) (now : Nat),
        l.splitPolicy = policy →
        p = ⟨rebuilt.paidToSplit, rebuilt.paidToPool, rebuilt.unpaidOutputs⟩ →
        (∀ o ∈ records.owed, o.blockHash ≠ rebuilt.blockHash) →
        owedEntries p.unpaidOutputs (p.paidToPool - policy.feeOn split.value) = p.unpaidOutputs ∧
        recordUnpaidOutputs l records rebuilt now (.ok ()) =
          { records with owed := records.owed ++ owedOf rebuilt now } := by
  obtain ⟨⟨used, hconserved⟩, hpos⟩ :=
    checkOutputs_conserved (splitsRuns_dictated hrun _ _ hnamed) hpooled hnamed hvalue hcheck
  refine ⟨⟨used, hconserved⟩, ?_⟩
  rintro F l records rebuilt now hpolicy rfl hnew
  have howed := hconserved.owed
  have hsum : rebuilt.paidToSplit + rebuilt.paidToPool = split.value := hconserved.value
  have hfee := policy.feeOn_le split.value
  simp only at howed hpos
  refine ⟨owedEntries_eq (by simp only; omega) (by simp only; omega), ?_⟩
  apply recordUnpaidOutputs_eq hpos (by omega) _ hnew
  rw [hpolicy, hsum]
  exact howed

/-- A window of two miners, one with twice the work of the other, at a fee of 1%. -/
def twoMiners : Ledger Nat where
  contents :=
    (Contents.empty.push ⟨10, "a", 2, Vector.replicate 32 1, ""⟩).push
      ⟨11, "b", 1, Vector.replicate 32 2, ""⟩
  windowRule := ⟨fun _ => 3, fun _ => by decide, fun _ => by decide⟩
  splitPolicy := ⟨100, one_percent_le⟩
  window := 3
  store := none
  cumulativeWork := 3
  maxShares := MAX_SHARES
  countCapped := false
  networkDifficulty := none
  rereadDue := false
  recordedDuringReread := none

/-- A coinbase paying the first miner and the pool. -/
def oneUnpaid : CoinbaseTx where
  version := 1
  scriptSigOffset := 42
  scriptSig := []
  sequence := 0xffffffff
  outputs := [⟨6600, [1]⟩, ⟨0, [0x6a]⟩, ⟨3400, [2]⟩]
  lockTime := 0
  hasWitness := false

/-- The addresses of the two miners. -/
def twoAddresses : AddressScript := fun identity => if identity = "a" then some [1] else some [3]

theorem twoMiners_dictated :
    dictatedOutputs twoAddresses twoMiners 10000 = [⟨⟨"a", 6600⟩, [1]⟩, ⟨⟨"b", 3300⟩, [3]⟩] := by
  have hweights : twoMiners.weights.entries = [("a", 2), ("b", 1)] := rfl
  have hsorted : List.mergeSort [("a", 2), ("b", 1)] mostWorkFirst = [("a", 2), ("b", 1)] :=
    List.mergeSort_of_pairwise (by decide)
  simp only [dictatedOutputs, Ledger.weightsFor, Weights.split, Weights.splitWith, hweights, hsorted]
  rfl

theorem pooled_block_conserved_one_unpaid :
    ∃ used, Conserved [2] twoMiners.splitPolicy
      ⟨dictatedOutputs twoAddresses twoMiners 10000, 10000, Vector.replicate 32 7, 5⟩ oneUnpaid
      ⟨6600, 3400, [⟨"b", 3300⟩]⟩ used := by
  have hrun := Lts.Run.next (S := splitsRuns twoAddresses twoMiners.splitPolicy) (.start rfl)
    (.dictate twoMiners rfl 10000 (Vector.replicate 32 7) 5)
  let job : JobSection :=
    { prevHash := Vector.replicate 32 7, targetByteIndex := 0, nbits := Vector.replicate 4 0
      coinbaserId := 1, height := 1, coinbaseValue := 10000, txnCount := 0, txnTotalWeight := 0
      txnTotalSize := 0, txnTotalSigops := 0, merkleBranches := [] }
  let share : PowSubmit :=
    { jobId := 0, coinbaseId := 0, isBlock := false, subsidyOnly := false, quickdiff := false
      targetByte := 0, ntime := 0, nonce := 0, version := 0, extranonce := Vector.replicate 12 0
      username := "a", useTimeOffset := false, job := none, coinbase := none
      blake2b := ⟨Vector.replicate 8 0, Vector.replicate 8 0, 0⟩, abwSlot := none }
  refine (pooled_block_conserved job share hrun rfl rfl (by decide) ?_).1
  change checkOutputs _ (DictatedSplits.empty.record 1 10000 (Vector.replicate 32 7)
      (dictatedOutputs twoAddresses twoMiners 10000) 5) _ _ _ = _
  rw [twoMiners_dictated]
  decide +kernel

end Ratum
