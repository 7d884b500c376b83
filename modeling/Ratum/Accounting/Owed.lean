import Ratum.Ledger.Blocks
import Ratum.Ledger.Share
import Ratum.Payout
import Ratum.Verify.Rebuilt

/-!
# What a found block owes

The block half of `prime/src/accounting.rs`: a block is recorded with whatever its coinbase failed to
pay. The lines logged are left out.
-/

namespace Ratum

variable {F : Type}

/-- The record of what is owed against the block; none when it totals nothing. -/
def owedBlock (rebuilt : RebuiltShare) (foundAt : Nat) (entries : List Payout) : Option OwedBlock :=
  let owed : OwedBlock :=
    { foundAt, height := rebuilt.height, blockHash := rebuilt.blockHash, settledAt := none, entries }
  if owed.total ≠ 0 then some owed else none

/-- `log_and_record_owed`, of what is owed. -/
def logAndRecordOwed (records : BlockRecords F) (owed : Option OwedBlock) (answer : IoAnswer) :
    BlockRecords F :=
  match owed with
  | none => records
  | some owed =>
      match records.recordOwed owed answer with
      | .ok records => records
      | .error _ => records

/-- A coinbase that paid the window nothing owes the split of what the pool's script received. -/
def recordOwedBlock (addressScript : AddressScript) (l : Ledger F) (records : BlockRecords F)
    (rebuilt : RebuiltShare) (now : Nat) (answer : IoAnswer) : BlockRecords F :=
  let entries := (dictatedOutputs addressScript l rebuilt.paidToPool).map DictatedOutput.payout
  logAndRecordOwed records (owedBlock rebuilt now entries) answer

/-- The unpaid outputs, scaled down in proportion when they total more than is available for them. -/
def owedEntries (unpaidOutputs : List Payout) (available : Nat) : List Payout :=
  let dictated := sumSats unpaidOutputs
  if available < dictated then
    (unpaidOutputs.map fun p => { p with sats := asU64 (p.sats * available / dictated) }).filter
      fun p => 0 < p.sats
  else unpaidOutputs

/-- A coinbase that left dictated outputs out owes them. -/
def recordUnpaidOutputs (l : Ledger F) (records : BlockRecords F) (rebuilt : RebuiltShare) (now : Nat)
    (answer : IoAnswer) : BlockRecords F :=
  let value := satAdd64 rebuilt.paidToSplit rebuilt.paidToPool
  let fee := l.splitPolicy.feeOn value
  let available := rebuilt.paidToPool - fee
  let entries := owedEntries rebuilt.unpaidOutputs available
  logAndRecordOwed records (owedBlock rebuilt now entries) answer

/-- `canonical` gives an address its canonical form; the tip's difficulty stands in for a window not
sized yet. -/
def recordFoundBlock [Zero F] (canonical : String → String) (l : Ledger F) (tipDifficulty : Option F)
    (records : BlockRecords F) (username : String) (rebuilt : RebuiltShare) (now : Nat)
    (answer : IoAnswer) : BlockRecords F :=
  let block : FoundBlock F :=
    { foundAt := now
      height := rebuilt.height
      blockHash := rebuilt.blockHash
      paidToSplit := rebuilt.paidToSplit
      paidToPool := rebuilt.paidToPool
      finder := identityOf canonical username
      tagSecondary := rebuilt.tagSecondary
      networkDifficulty := (l.networkDifficulty.or tipDifficulty).getD 0
      cumulativeWork := l.cumulativeWork }
  match records.recordBlock block answer with
  | .ok records => records
  | .error _ => records

def recordBlock [Zero F] (addressScript : AddressScript) (canonical : String → String) (l : Ledger F)
    (tipDifficulty : Option F) (records : BlockRecords F) (username : String) (rebuilt : RebuiltShare)
    (now : Nat) (block owed : IoAnswer) : BlockRecords F :=
  let records := recordFoundBlock canonical l tipDifficulty records username rebuilt now block
  if rebuilt.unpaidOutputs ≠ [] then recordUnpaidOutputs l records rebuilt now owed
  else if rebuilt.paidToSplit = 0 then recordOwedBlock addressScript l records rebuilt now owed
  else records

/-! ### Unpaid outputs within what is available are owed as they are -/

variable {records : BlockRecords F} {rebuilt : RebuiltShare} {now : Nat} {payouts : List Payout}

/-- What the unpaid outputs of a block are recorded as. -/
def owedOf (rebuilt : RebuiltShare) (now : Nat) : List OwedBlock :=
  if rebuilt.unpaidOutputs = [] then []
  else
    [{ foundAt := now, height := rebuilt.height, blockHash := rebuilt.blockHash, settledAt := none
       entries := rebuilt.unpaidOutputs }]

theorem total_pos (hpos : ∀ p ∈ payouts, 0 < p.sats) (hne : payouts ≠ []) :
    0 < Suffix.total Payout.sats payouts := by
  obtain ⟨p, payouts, rfl⟩ := List.exists_cons_of_ne_nil hne
  rw [Suffix.total_cons]
  have := hpos p (List.mem_cons_self ..)
  omega

theorem sumSats_eq (payouts : List Payout) (h : Suffix.total Payout.sats payouts ≤ U64_MAX) :
    sumSats payouts = Suffix.total Payout.sats payouts := asU64_of_le h

theorem owedEntries_eq {available : Nat} (h : Suffix.total Payout.sats payouts ≤ available)
    (hword : available ≤ U64_MAX) : owedEntries payouts available = payouts := by
  unfold owedEntries
  rw [sumSats_eq _ (h.trans hword), if_neg (Nat.not_lt.mpr h)]

/-- **Unpaid outputs that total no more than is left beyond the fee are owed exactly**, unless the block
is recorded already. -/
theorem recordUnpaidOutputs_eq {l : Ledger F} (hpos : ∀ p ∈ rebuilt.unpaidOutputs, 0 < p.sats)
    (hword : rebuilt.paidToSplit + rebuilt.paidToPool ≤ U64_MAX)
    (howed : Suffix.total Payout.sats rebuilt.unpaidOutputs +
      l.splitPolicy.feeOn (rebuilt.paidToSplit + rebuilt.paidToPool) ≤ rebuilt.paidToPool)
    (hnew : ∀ o ∈ records.owed, o.blockHash ≠ rebuilt.blockHash) :
    recordUnpaidOutputs l records rebuilt now (.ok ()) =
      { records with owed := records.owed ++ owedOf rebuilt now } := by
  have hvalue : satAdd64 rebuilt.paidToSplit rebuilt.paidToPool =
      rebuilt.paidToSplit + rebuilt.paidToPool := Nat.min_eq_left hword
  have hentries : owedEntries rebuilt.unpaidOutputs
      (rebuilt.paidToPool - l.splitPolicy.feeOn (rebuilt.paidToSplit + rebuilt.paidToPool)) =
        rebuilt.unpaidOutputs :=
    owedEntries_eq (by omega) (by omega)
  have htotal := sumSats_eq rebuilt.unpaidOutputs (by omega)
  unfold recordUnpaidOutputs
  simp only [hvalue, hentries, owedBlock, OwedBlock.total, htotal]
  by_cases hnil : rebuilt.unpaidOutputs = []
  · simp [hnil, owedOf, logAndRecordOwed]
  · have := total_pos hpos hnil
    have hfresh : (records.owed.any fun o => o.blockHash = rebuilt.blockHash) = false := by
      simpa using hnew
    rw [if_pos (by omega)]
    simp [logAndRecordOwed, BlockRecords.recordOwed, hfresh, owedOf, hnil, Except.map]

end Ratum
