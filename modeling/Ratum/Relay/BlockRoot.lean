import Ratum.Bitcoin.MerkleTree
import Ratum.Core.HeaderWire
import Ratum.Verify.StaleVerdict

/-!
# The header and the transactions of a relayed block

`txns_match_job` and `block_matches_header` of `prime/src/relay.rs`: the transactions are the job's, and
they form the merkle root the header commits to. The header is relayed as its bytes, which determine it.
-/

namespace Ratum

/-- The ids of transactions, the first of them at an index; the index of one that does not decode. -/
def txnIds (H : Hashing) : Nat → List Bytes → Except (Nat × TxError) (List Hash)
  | _, [] => .ok []
  | i, raw :: txns => do
      let id ← (txid H raw).mapError fun e => (i, e)
      let ids ← txnIds H (i + 1) txns
      pure (id :: ids)

inductive TxnsMismatch
  | count (txns : Nat) (txnCount : UInt32)
  | undecodable (i : Nat) (e : TxError)
  | branches
  deriving DecidableEq

/-- Checks that the transactions are the job's: their count and their branches on the coinbase's path. -/
def txnsMatchJob (H : Hashing) (txns : List Bytes) (txnCount : UInt32) (merkleBranches : List Hash) :
    Except TxnsMismatch Unit := do
  if txns.length ≠ txnCount.toNat then throw (.count txns.length txnCount)
  let ids ← (txnIds H 0 txns).mapError fun e => .undecodable e.1 e.2
  if H.merkleBranches ids ≠ merkleBranches then throw .branches

inductive BlockMismatch
  | undecodableHeader
  | undecodable (i : Nat) (e : TxError)
  | noTransactions
  | mutated (count : Nat)
  | wrongRoot (count : Nat) (root committed : Hash)
  deriving DecidableEq

def blockMatchesHeader (H : Hashing) (rebuilt : RebuiltShare) (txns : List Bytes) :
    Except BlockMismatch Unit := do
  let some header := BlockHeaderV2.deserialize rebuilt.header | throw .undecodableHeader
  let committed := header.merkleRoot
  let txids ← (txnIds H 0 txns).mapError fun e => .undecodable e.1 e.2
  let ids := H.sha256d rebuilt.coinbaseTx :: txids
  let count := ids.length
  let some tree := H.merkleTreeRoot ids | throw .noTransactions
  if tree.mutated then throw (.mutated count)
  if tree.root ≠ committed then throw (.wrongRoot count tree.root committed)

variable {H : Hashing} {config : ClientConfig} {splits : DictatedSplits} {nextTarget : Option Target}
  {job : JobSection} {cb : CoinbaseSection} {s : PowSubmit} {abwKey : Option XorKey}
  {rebuilt : RebuiltShare} {txns : List Bytes}

theorem length_txnIds {i : Nat} {ids : List Hash} (hids : txnIds H i txns = .ok ids) :
    ids.length = txns.length := by
  induction txns generalizing i ids with
  | nil =>
      obtain rfl := Except.ok.inj hids
      rfl
  | cons raw txns ih =>
      rw [txnIds] at hids
      cases hid : txid H raw with
      | error e =>
          rw [hid] at hids
          cases hids
      | ok id =>
          cases hrest : txnIds H (i + 1) txns with
          | error e =>
              rw [hid, hrest] at hids
              cases hids
          | ok rest =>
              rw [hid, hrest] at hids
              obtain rfl := Except.ok.inj hids
              exact congrArg Nat.succ (ih hrest)

/-- What `txns_match_job` lets through. -/
theorem txnsMatchJob_ok {txnCount : UInt32} {merkleBranches : List Hash}
    (hmatch : txnsMatchJob H txns txnCount merkleBranches = .ok ()) :
    ∃ ids, txnIds H 0 txns = .ok ids ∧ H.merkleBranches ids = merkleBranches := by
  rw [txnsMatchJob] at hmatch
  obtain ⟨-, hmatch⟩ := FailsIn.ok_of_guard hmatch
  cases hids : txnIds H 0 txns with
  | error e =>
      rw [hids] at hmatch
      cases hmatch
  | ok ids =>
      rw [hids] at hmatch
      exact ⟨ids, rfl, not_not.mp (FailsIn.ok_of_guard hmatch).1⟩

/-- The header of a share commits to the root its coinbase leads to. -/
theorem PowSubmit.header_merkleRoot {merkleRoot : Hash} {h : BlockHeaderV2}
    (hheader : s.header job merkleRoot abwKey = some h) : h.merkleRoot = merkleRoot := by
  obtain ⟨base, hbase, rfl⟩ := Option.map_eq_some_iff.mp hheader
  rw [JobSection.header] at hbase
  obtain ⟨-, hbase⟩ := Option.ite_none_right_eq_some.mp hbase
  obtain rfl := Option.some.inj hbase
  rfl

/-- The header of a rebuilt share commits to the share's coinbase and the job's branches. -/
theorem rebuildShare_header :
    Gives (fun rebuilt => ∃ h : BlockHeaderV2, rebuilt.header = h.serialize ∧
        h.merkleRoot = job.merkleRoot H rebuilt.coinbaseTx s.subsidyOnly)
      (rebuildShare H config splits nextTarget job cb s abwKey) := by
  intro rebuilt hrebuild
  obtain ⟨-, h, hheader, hbytes, -, -⟩ := rebuildShare_of_header rebuilt hrebuild
  exact ⟨h, hbytes, PowSubmit.header_merkleRoot hheader⟩

/-- **The merkle path a share commits to is the block's tree**: the branches lead from any coinbase to the
root of the tree over it and the transactions, no sibling on the way is unknown, and the header of a pooled
share on a job commits to the root of the transactions that match the job. -/
theorem merkle_path_root (H : Hashing) :
    (∀ txids, H.knownMerkleBranches txids = some (H.merkleBranches txids)) ∧
      (∀ coinbaseId txids, (H.merkleTreeRoot (coinbaseId :: txids)).map MerkleTreeRoot.root =
        some (H.merkleRootFromBranches coinbaseId (H.merkleBranches txids))) ∧
      ∀ config splits nextTarget job cb s abwKey rebuilt txns,
        rebuildShare H config splits nextTarget job cb s abwKey = .ok rebuilt → s.subsidyOnly = false →
        txnsMatchJob H txns job.txnCount job.merkleBranches = .ok () →
        ∃ header ids tree, BlockHeaderV2.deserialize rebuilt.header = some header ∧
          txnIds H 0 txns = .ok ids ∧
          H.merkleTreeRoot (H.sha256d rebuilt.coinbaseTx :: ids) = some tree ∧
          tree.root = header.merkleRoot ∧
          blockMatchesHeader H rebuilt txns =
            if tree.mutated then .error (.mutated (txns.length + 1)) else .ok () := by
  refine ⟨H.knownMerkleBranches_eq, ?_, ?_⟩
  · intro coinbaseId txids
    obtain ⟨mutated, htree⟩ := H.merkleTreeRoot_eq coinbaseId txids
    rw [htree]
    rfl
  · intro config splits nextTarget job cb s abwKey rebuilt txns hrebuild hpooled hmatch
    obtain ⟨ids, hids, hbranches⟩ := txnsMatchJob_ok hmatch
    obtain ⟨h, hheader, hroot⟩ := rebuildShare_header rebuilt hrebuild
    obtain ⟨mutated, htree⟩ := H.merkleTreeRoot_eq (H.sha256d rebuilt.coinbaseTx) ids
    have hdeserialize := h.deserialize_serialize
    rw [← hheader] at hdeserialize
    have hcommitted : H.merkleRootFromBranches (H.sha256d rebuilt.coinbaseTx) (H.merkleBranches ids) =
        h.merkleRoot := by
      rw [hroot, JobSection.merkleRoot, hpooled, hbranches]
      rfl
    refine ⟨_, ids, _, hdeserialize, hids, htree, hcommitted, ?_⟩
    rw [blockMatchesHeader, hdeserialize, hids]
    dsimp only [Except.mapError, bind, Except.bind]
    rw [htree, List.length_cons, length_txnIds hids]
    dsimp only
    rw [hcommitted]
    cases mutated <;> simp [throw, throwThe, MonadExceptOf.throw, pure, Except.pure]

/-- **A header and its bytes determine each other**: a header of a version that is not negative is read back
from its bytes, the bytes a header is read from are those it is written as, headers of the same bytes hash the
same at every stage, and the header of a rebuilt share, read from the bytes the block is relayed with, has the
hashes the share was checked by. -/
theorem header_bytes_determine (H : Hashing) :
    (∀ h : BlockHeaderV2, 0 ≤ h.version.toInt32 → BlockHeaderV2.deserialize h.serialize = some h) ∧
      (∀ b h, BlockHeaderV2.deserialize b = some h → h.serialize = b) ∧
      (∀ h h' : BlockHeaderV2, h.serialize = h'.serialize →
        h.hashStages H = h'.hashStages H ∧ h.powHashes H = h'.powHashes H) ∧
      ∀ config splits nextTarget job cb s abwKey rebuilt,
        rebuildShare H config splits nextTarget job cb s abwKey = .ok rebuilt →
        ∃ h, BlockHeaderV2.deserialize rebuilt.header = some h ∧
          (h.powHashes H).rawPowHash = rebuilt.rawPowHash ∧ (h.powHashes H).blockHash = rebuilt.blockHash := by
  refine ⟨?_, fun b h => BlockHeaderV2.serialize_deserialize, ?_, ?_⟩
  · intro h hversion
    rw [h.deserialize_serialize, BlockHeaderV2.unflagged_of_nonneg hversion]
  · intro h h' hbytes
    have heq := BlockHeaderV2.unflagged_eq_of_serialize hbytes
    exact ⟨by rw [← h.hashStages_unflagged H, heq, h'.hashStages_unflagged H],
      by rw [← h.powHashes_unflagged H, heq, h'.powHashes_unflagged H]⟩
  · intro config splits nextTarget job cb s abwKey rebuilt hrebuild
    obtain ⟨-, h, -, hbytes, hraw, hhash⟩ := rebuildShare_of_header rebuilt hrebuild
    refine ⟨_, hbytes ▸ h.deserialize_serialize, ?_, ?_⟩
    · rw [h.powHashes_unflagged H, hraw]
    · rw [h.powHashes_unflagged H, hhash]

/-- Hashes that keep the first bytes, for the examples. -/
def prefixHashing : Hashing where
  sha256 data := Vector.ofFn fun i => data.getD i 0
  blake2b256 data := Vector.ofFn fun i => data.getD i 0

def oneTxnConfig : ClientConfig := { Verifier.untaggedPolicy.config with primeId := 7 }

def oneTxn : Bytes :=
  leBytes 4 2 ++ [1] ++ List.replicate 36 7 ++ [0] ++ List.replicate 4 0xff ++ [0] ++ List.replicate 4 0

def oneTxnJob : JobSection :=
  { Verifier.plainJob (Verifier.repeatedHash 0) with
    targetByteIndex := 45
    coinbaseValue := 50
    txnCount := 1
    merkleBranches := prefixHashing.merkleBranches [Vector.ofFn fun i => oneTxn.getD i 0] }

def oneTxnSpec : CoinbaseSpec where
  coinbaseId := 0
  scriptSig := encodePush [0] ++ uniqueIdPush 0 (leBytes 4 7)
  targetByteIndexInScript := 3
  enPrefix := 0
  witnessCommitment := none
  poolPayoutScript := [0x51]
  coinbaseValue := 50
  outputs := []
  limits := ⟨0, 0, 0, 0⟩
  sigopBudget := 0

def oneTxnShare : PowSubmit := Verifier.plainShare (Verifier.repeatedHash 0)

theorem oneTxnJob_rebuilt : ∃ rebuilt, rebuildShare prefixHashing oneTxnConfig .empty none oneTxnJob
    oneTxnSpec.build.1.section oneTxnShare none = .ok rebuilt := by
  have hok : (rebuildShare prefixHashing oneTxnConfig .empty none oneTxnJob oneTxnSpec.build.1.section
    oneTxnShare none).isOk = true := by decide +kernel
  revert hok
  cases rebuildShare prefixHashing oneTxnConfig .empty none oneTxnJob oneTxnSpec.build.1.section
    oneTxnShare none with
  | ok rebuilt => exact fun _ => ⟨rebuilt, rfl⟩
  | error reason => exact fun hok => by cases hok

theorem merkle_path_root_one_txn : ∃ (rebuilt : RebuiltShare) (tree : MerkleTreeRoot),
    rebuildShare prefixHashing oneTxnConfig .empty none oneTxnJob oneTxnSpec.build.1.section oneTxnShare
      none = .ok rebuilt ∧
    blockMatchesHeader prefixHashing rebuilt [oneTxn] =
      if tree.mutated then .error (.mutated 2) else .ok () := by
  obtain ⟨rebuilt, hrebuild⟩ := oneTxnJob_rebuilt
  obtain ⟨-, -, tree, -, -, -, -, hmatches⟩ := (merkle_path_root prefixHashing).2.2 oneTxnConfig .empty none
    oneTxnJob oneTxnSpec.build.1.section oneTxnShare none rebuilt [oneTxn] hrebuild rfl (by decide +kernel)
  exact ⟨rebuilt, tree, hrebuild, hmatches⟩

end Ratum
