import Ratum.Accounting.Owed
import Ratum.Base.FailsIn
import Ratum.Bitcoin.Address
import Ratum.Ledger.RecordRows
import Ratum.Verify.CheckOutputs

/-!
# What is owed is within what the pool received

What a found block is recorded as owing, from the outputs its coinbase left unpaid or from the split of what
the pool's script received, totals at most what that script received, and its row holds all of it.
-/

namespace Ratum

/-- Entries an owed record keeps whole: their total is a `u64`, and the row has room for their count and for
the length of each name. -/
structure EntriesFit (entries : List Payout) : Prop where
  total : Suffix.total Payout.sats entries ≤ U64_MAX
  count : entries.length < 2 ^ 16
  identities : ∀ payout ∈ entries, (stringBytes payout.identity).length < 2 ^ 16

namespace EntriesFit

variable {entries entries' : List Payout}

theorem nil : EntriesFit [] := ⟨Nat.zero_le _, by decide, fun _ h => absurd h List.not_mem_nil⟩

theorem sublist (h : EntriesFit entries) (hsub : entries'.Sublist entries) : EntriesFit entries' where
  total := (Marks.total_sublist Payout.sats hsub).trans h.total
  count := hsub.length_le.trans_lt h.count
  identities := fun payout hpayout => h.identities payout (hsub.subset hpayout)

theorem packable (h : EntriesFit entries) : ∀ payout ∈ entries, payout.Packable := by
  intro payout hpayout
  have hsats : payout.sats ≤ U64_MAX := (Marks.le_total_of_mem Payout.sats hpayout).trans h.total
  exact ⟨h.identities payout hpayout, Nat.lt_of_le_of_lt hsats (by decide)⟩

end EntriesFit

/-! ### The split of a value -/

/-- `payout::address_script` on a chain. -/
def addressScript (decoding : AddressDecoding) (chain : Option Prefixes) : AddressScript :=
  fun identity => toOutputScript decoding identity chain

variable {F : Type} {decoding : AddressDecoding} {chain : Option Prefixes}

theorem dictated_fits (l : Ledger F) {value : Nat} (hvalue : value ≤ U64_MAX) :
    EntriesFit ((dictatedOutputs (addressScript decoding chain) l value).map DictatedOutput.payout) ∧
      Suffix.total Payout.sats
        ((dictatedOutputs (addressScript decoding chain) l value).map DictatedOutput.payout) ≤ value := by
  have hspec := (dictatedOutputs_spec (addressScript decoding chain) l value hvalue).1
  have htotal : Suffix.total Payout.sats
      ((dictatedOutputs (addressScript decoding chain) l value).map DictatedOutput.payout) ≤ value := by
    rw [Suffix.total, List.map_map]
    exact (Nat.le_add_right _ _).trans hspec
  refine ⟨⟨htotal.trans hvalue, ?_, ?_⟩, htotal⟩
  · have hsub := outputsFor_payouts (addressScript decoding chain)
      (l.weights.split (l.splitPolicy.minersShare value))
    exact (hsub.length_le.trans (l.weights.length_split_le _)).trans_lt (by decide)
  · intro payout hpayout
    obtain ⟨d, hd, rfl⟩ := List.mem_map.mp hpayout
    obtain ⟨payout, -, hpays⟩ := List.mem_filterMap.mp hd
    obtain ⟨script, hscript, rfl⟩ := Option.map_eq_some_iff.mp hpays
    exact (length_lt_of_toOutputScript hscript).trans (by decide)

/-! ### What an accepted coinbase leaves unpaid -/

variable {payoutScript : Bytes} {splits : DictatedSplits} {job : JobSection} {tx : CoinbaseTx}
  {s : PowSubmit} {p : Payments}

/-- What was checked of an accepted coinbase, on the split its job names or on none. -/
theorem checkOutputs_payments (hcheck : checkOutputs payoutScript splits job tx s = .ok p) :
    ∃ dictated m, (dictated = [] ∨ ∃ split, splits.get job.coinbaserId = some split ∧
        split.value = job.coinbaseValue ∧ dictated = split.outputs) ∧
      tx.outputs.foldlM (matchOutput payoutScript dictated) (.start dictated) = .ok m ∧
      p = ⟨m.paidToSplit, m.paidToPool, unpaid payoutScript dictated m.paid⟩ := by
  rw [checkOutputs] at hcheck
  obtain ⟨hnamed, hcheck⟩ := FailsIn.ok_of_guard hcheck
  obtain ⟨m, hfold, hcheck⟩ := Gives.exists_of_bind hcheck
  obtain ⟨-, hp⟩ := FailsIn.ok_of_guard hcheck
  refine ⟨_, m, ?_, hfold, (Except.ok.inj hp).symm⟩
  cases hrecorded : (if s.subsidyOnly then none else splits.get job.coinbaserId) with
  | none => exact .inl rfl
  | some split =>
      rw [hrecorded] at hnamed
      simp only [Option.any_some, Bool.or_eq_true, decide_eq_true_iff, not_or, not_not] at hnamed
      refine .inr ⟨split, ?_, hnamed.2, rfl⟩
      split at hrecorded
      · cases hrecorded
      · exact hrecorded

theorem map_fst_zip_sublist {A B : Type} (as : List A) (bs : List B) :
    ((as.zip bs).map Prod.fst).Sublist as := by
  induction as generalizing bs with
  | nil => exact List.Sublist.refl _
  | cons a as ih =>
      cases bs with
      | nil => exact List.nil_sublist _
      | cons b bs => exact (ih bs).cons_cons a

theorem unpaid_sublist (payoutScript : Bytes) (dictated : List DictatedOutput) (paid : List Bool) :
    (unpaid payoutScript dictated paid).Sublist (dictated.map DictatedOutput.payout) := by
  have hzip := (map_fst_zip_sublist dictated paid).map DictatedOutput.payout
  rw [List.map_map] at hzip
  exact (List.filter_sublist.map _).trans hzip

/-- A rebuilt share whose coinbase was accepted on a session's splits, of a job of a `u64` value. -/
def RebuiltShare.PaysAsChecked (decoding : AddressDecoding) (chain : Option Prefixes) (payoutScript : Bytes)
    (rebuilt : RebuiltShare) : Prop :=
  ∃ policy trace splits job tx s, (splitsRuns (addressScript decoding chain) policy).Run trace splits ∧
    job.coinbaseValue ≤ U64_MAX ∧
    checkOutputs payoutScript splits job tx s =
      .ok ⟨rebuilt.paidToSplit, rebuilt.paidToPool, rebuilt.unpaidOutputs⟩

variable {rebuilt : RebuiltShare}

theorem RebuiltShare.PaysAsChecked.spec (hpays : rebuilt.PaysAsChecked decoding chain payoutScript) :
    rebuilt.paidToSplit ≤ U64_MAX ∧ rebuilt.paidToPool ≤ U64_MAX ∧ EntriesFit rebuilt.unpaidOutputs := by
  obtain ⟨policy, trace, splits, job, tx, s, hrun, hvalue, hcheck⟩ := hpays
  obtain ⟨dictated, m, hdictated, hfold, hp⟩ := checkOutputs_payments hcheck
  obtain ⟨hsplit, hpool, hunpaid⟩ := Payments.mk.inj hp
  obtain ⟨used, hof⟩ := foldlM_matchOutput_of .start hfold
  obtain ⟨pool, hpaid, hpaidPool, -⟩ := hof.amounts
  refine ⟨hsplit ▸ hpaid ▸ Nat.min_le_right _ _, hpool ▸ hpaidPool ▸ Nat.min_le_right _ _, ?_⟩
  rw [hunpaid]
  refine EntriesFit.sublist ?_ (unpaid_sublist payoutScript dictated m.paid)
  rcases hdictated with rfl | ⟨split, hget, hsplitValue, rfl⟩
  · exact .nil
  · obtain ⟨F, l, -, houtputs⟩ := splitsRuns_dictated hrun _ _ hget
    rw [houtputs]
    exact (dictated_fits l (hsplitValue.le.trans hvalue)).1

/-! ### What a block is recorded as owing -/

theorem total_scaled_le (payouts : List Payout) (available dictated : Nat) :
    Suffix.total Payout.sats
        (payouts.map fun p => { p with sats := asU64 (p.sats * available / dictated) }) ≤
      Suffix.total Payout.sats payouts * available / dictated := by
  induction payouts with
  | nil => simp
  | cons p payouts ih =>
      have hword : asU64 (p.sats * available / dictated) ≤ p.sats * available / dictated := Nat.mod_le _ _
      rw [List.map_cons, Suffix.total_cons, Suffix.total_cons, Nat.add_mul]
      calc asU64 (p.sats * available / dictated) + _
          ≤ p.sats * available / dictated + Suffix.total Payout.sats payouts * available / dictated :=
            Nat.add_le_add hword ih
        _ ≤ _ := Nat.div_add_div_le_add_div

/-- The unpaid outputs, scaled down where they have to be, total at most what is available for them. -/
theorem owedEntries_fit {payouts : List Payout} (hfit : EntriesFit payouts) {available : Nat} :
    EntriesFit (owedEntries payouts available) ∧
      Suffix.total Payout.sats (owedEntries payouts available) ≤ available := by
  rw [owedEntries, sumSats_eq payouts hfit.total]
  split
  · rename_i hless
    have hscaled := total_scaled_le payouts available (Suffix.total Payout.sats payouts)
    rw [Nat.mul_comm, Nat.mul_div_cancel _ (Nat.zero_lt_of_lt hless)] at hscaled
    have hfits : EntriesFit (payouts.map fun p =>
        { p with sats := asU64 (p.sats * available / Suffix.total Payout.sats payouts) }) := by
      refine ⟨(hscaled.trans hless.le).trans hfit.total, ?_, ?_⟩
      · rw [List.length_map]
        exact hfit.count
      · intro payout hpayout
        obtain ⟨p, hp, rfl⟩ := List.mem_map.mp hpayout
        exact hfit.identities p hp
    exact ⟨hfits.sublist List.filter_sublist, (Marks.total_sublist _ List.filter_sublist).trans hscaled⟩
  · exact ⟨hfit, Nat.le_of_not_lt ‹_›⟩

/-- The record of what a found block owes, if it owes anything. -/
def owedAgainst (addressScript : AddressScript) (l : Ledger F) (rebuilt : RebuiltShare) (now : Nat) :
    Option OwedBlock :=
  if rebuilt.unpaidOutputs ≠ [] then
    owedBlock rebuilt now (owedEntries rebuilt.unpaidOutputs
      (rebuilt.paidToPool - l.splitPolicy.feeOn (satAdd64 rebuilt.paidToSplit rebuilt.paidToPool)))
  else if rebuilt.paidToSplit = 0 then
    owedBlock rebuilt now ((dictatedOutputs addressScript l rebuilt.paidToPool).map DictatedOutput.payout)
  else none

theorem recordBlock_eq_owedAgainst [Zero F] (addressScript : AddressScript) (canonical : String → String) (l : Ledger F)
    (tipDifficulty : Option F) (records : BlockRecords F) (username : String) (now : Nat)
    (block owed : IoAnswer) :
    recordBlock addressScript canonical l tipDifficulty records username rebuilt now block owed =
      logAndRecordOwed (recordFoundBlock canonical l tipDifficulty records username rebuilt now block)
        (owedAgainst addressScript l rebuilt now) owed := by
  rw [recordBlock, owedAgainst]
  split
  · rfl
  · split <;> rfl

/-- **A found block owes at most what the pool's script received**, in a record its row holds whole. -/
theorem owedAgainst_spec (hpays : rebuilt.PaysAsChecked decoding chain payoutScript) {l : Ledger F}
    {now : UInt64} {owed : OwedBlock}
    (howed : owedAgainst (addressScript decoding chain) l rebuilt now.toNat = some owed) :
    owed.blockHash = rebuilt.blockHash ∧ owed.settledAt = none ∧ owed.Packable ∧
      Suffix.total Payout.sats owed.entries ≤ rebuilt.paidToPool := by
  obtain ⟨-, hpool, hunpaid⟩ := hpays.spec
  have hrecord : ∀ {entries : List Payout}, EntriesFit entries →
      Suffix.total Payout.sats entries ≤ rebuilt.paidToPool →
      owedBlock rebuilt now.toNat entries = some owed →
      owed.blockHash = rebuilt.blockHash ∧ owed.settledAt = none ∧ owed.Packable ∧
        Suffix.total Payout.sats owed.entries ≤ rebuilt.paidToPool := by
    intro entries hfit htotal hblock
    rw [owedBlock] at hblock
    split at hblock
    · obtain rfl := Option.some.inj hblock
      exact ⟨rfl, rfl, ⟨now.toNat_lt, OwedBlock.settledAt_of_open rfl, hfit.count, hfit.packable⟩, htotal⟩
    · cases hblock
  rw [owedAgainst] at howed
  split at howed
  · obtain ⟨hfit, htotal⟩ := owedEntries_fit hunpaid
    exact hrecord hfit (htotal.trans (Nat.sub_le _ _)) howed
  · split at howed
    · obtain ⟨hfit, htotal⟩ := dictated_fits l hpool
      exact hrecord hfit htotal howed
    · cases howed

end Ratum
