import Ratum.Gateway.Builder
import Ratum.Gateway.ValidationReplies
import Ratum.Relay.BlockRoot

/-!
# The transactions sent are the job's

What the gateway answers the pool's requests for a job's transactions with, as the pool reads it: all of the
template's, which match the job section it sends, or those named.
-/

namespace Ratum

/-- What the job section carries of the template's transactions. -/
theorem build_txns_eq {H : Hashing} {c : JobConfig} {inputs : JobInputs} {unixNow : Nat} {now : Instant} {job : Job}
    (hbuild : build H c inputs unixNow now = .ok job) :
    job.jobSection.txnCount = UInt32.ofNat job.template.txids.length ∧
      job.jobSection.merkleBranches = H.merkleBranches job.template.txids := by
  simp only [build] at hbuild
  split at hbuild
  · cases hbuild
  split at hbuild
  · split at hbuild
    · cases hbuild
    split at hbuild
    · obtain rfl := Except.ok.inj hbuild
      exact ⟨rfl, rfl⟩
    · cases hbuild
  · cases hbuild

theorem txnIds_of_txids {H : Hashing} {txns : List Txn} (hids : ∀ t ∈ txns, txid H t.raw = .ok t.txid) (i : Nat) :
    txnIds H i (txns.map Txn.raw) = .ok (txns.map Txn.txid) := by
  induction txns generalizing i with
  | nil => rfl
  | cons t txns ih =>
      rw [List.map_cons, txnIds, hids t List.mem_cons_self, ih fun t' ht' => hids t' (List.mem_cons_of_mem t ht')]
      rfl

/-- All of a job's transactions match its job section. -/
theorem txnsMatchJob_all {H : Hashing} {c : JobConfig} {inputs : JobInputs} {unixNow : Nat} {now : Instant}
    {j : JobWithTxns} (hbuild : build H c inputs unixNow now = .ok j.job) (hcount : j.txns.length < 2 ^ 32)
    (hids : ∀ t ∈ j.txns, txid H t.raw = .ok t.txid) :
    txnsMatchJob H (j.txns.map Txn.raw) j.job.jobSection.txnCount j.job.jobSection.merkleBranches = .ok () := by
  obtain ⟨hcountEq, hbranches⟩ := build_txns_eq hbuild
  rw [← j.txids_eq] at hcountEq hbranches
  have hlength : (j.txns.map Txn.raw).length = j.job.jobSection.txnCount.toNat := by
    rw [hcountEq, List.length_map, List.length_map, UInt32.toNat_ofNat_of_lt' hcount]
  rw [txnsMatchJob]
  simp only [hlength, ne_eq, not_true_eq_false, if_false, txnIds_of_txids hids, hbranches, Except.mapError, bind,
    Except.bind, pure, Except.pure]

/-- A request for named transactions, after its header and before any padding. -/
def Names (plain : Bytes) (ids : List Nat) : Prop :=
  ∃ header tail, header.length = REQUEST_HEADER_LEN ∧ plain = header ++ indexBytes ids tail

/-- The transactions of indexes in range, one for each in its order. -/
theorem filterMap_map_some {txns : List Txn} {ids : List Nat} (hrange : ∀ i ∈ ids, i < txns.length) :
    (ids.filterMap fun i => txns[i]?.map Txn.raw).map some = ids.map fun i => txns[i]?.map Txn.raw := by
  induction ids with
  | nil => rfl
  | cons i ids ih =>
      have hi := List.getElem?_eq_getElem (hrange i List.mem_cons_self)
      rw [List.filterMap_cons, hi, Option.map_some, List.map_cons, List.map_cons,
        ih fun i' hi' => hrange i' (List.mem_cons_of_mem i hi'), hi, Option.map_some]

theorem txnsResponse_eq {protocolJobSlots : Nat} {jobs : UInt8 → Option JobWithTxns} {index : UInt8} {j : JobWithTxns}
    (hslot : index.toNat < protocolJobSlots) (hheld : jobs index = some j) {plain : Bytes}
    (hindex : plain[JOB_INDEX_AT]? = some index) (all : Bool) :
    txnsResponse protocolJobSlots jobs plain all = (txnList (.ok j) plain all).encode := by
  rw [txnsResponse, hindex]
  simp only [jobSlot, if_neg (not_le.mpr hslot), hheld]

/-- **The transactions sent are the job's.** A request that names a job of the table is answered, in one frame
with any padding and with no count or size truncated, with a reply that is read back: all of the template's
transactions in their order, which match the job section, or those the request names in its order, unless
these take more bytes than a frame has for them; a request that names none, an index twice, or one past the
end is refused. -/
theorem job_transactions_sent (H : Hashing) {c : JobConfig} {inputs : JobInputs} {unixNow : Nat} {now : Instant}
    {j : JobWithTxns} (hbuild : build H c inputs unixNow now = .ok j.job) (hcount : j.txns.length ≤ 65534)
    (hids : ∀ t ∈ j.txns, txid H t.raw = .ok t.txid) {protocolJobSlots : Nat} {jobs : UInt8 → Option JobWithTxns}
    {index : UInt8} (hslot : index.toNat < protocolJobSlots) (hheld : jobs index = some j) {plain : Bytes}
    (hindex : plain[JOB_INDEX_AT]? = some index) :
    (∃ reply : TxnList, reply.FitsWire ∧
      (∀ pad : Bytes, pad.length ≤ MAX_MINING_PAD_LEN →
        (txnsResponse protocolJobSlots jobs plain true ++ pad).length ≤ MAX_PLAINTEXT_LEN ∧
        TxnList.decode (txnsResponse protocolJobSlots jobs plain true ++ pad) ValidationResponse.BLOCK_TXNS =
          .ok reply) ∧
      (reply.status = .ok ∧ reply.txns = j.txns.map Txn.raw ∧
          txnsMatchJob H reply.txns j.job.jobSection.txnCount j.job.jobSection.merkleBranches = .ok () ∨
        reply.status = .tooManyTxns ∧ MAX_TXN_LIST_TXN_BYTES < TxnList.txnBytes (j.txns.map Txn.raw))) ∧
    ∃ reply : TxnList, reply.FitsWire ∧
      (∀ pad : Bytes, pad.length ≤ MAX_MINING_PAD_LEN →
        (txnsResponse protocolJobSlots jobs plain false ++ pad).length ≤ MAX_PLAINTEXT_LEN ∧
        TxnList.decode (txnsResponse protocolJobSlots jobs plain false ++ pad) ValidationResponse.TXNS = .ok reply) ∧
      ((∃ ids txns, Names plain ids ∧ ids ≠ [] ∧ ids.Nodup ∧ (∀ i ∈ ids, i < j.txns.length) ∧
          txns.map some = ids.map (fun i => j.txns[i]?.map Txn.raw) ∧
          (reply.status = .ok ∧ reply.txns = txns ∨
            reply.status = .tooManyTxns ∧ MAX_TXN_LIST_TXN_BYTES < TxnList.txnBytes txns)) ∨
        reply = .empty ValidationResponse.TXNS j.job.slot .badRequest ∧
          ∀ ids, Names plain ids → ids = [] ∨ ¬ ids.Nodup ∨ ∃ i ∈ ids, j.txns.length ≤ i) := by
  have hcount' : j.txns.length < 256 ^ 2 := by omega
  constructor
  · obtain ⟨hfits, hreads⟩ := txnList_replies j plain true hcount'
    refine ⟨_, hfits, fun pad hpad => ?_, ?_⟩
    · have hread := hreads pad hpad
      rw [txnList_selector] at hread
      rw [txnsResponse_eq hslot hheld hindex]
      exact hread
    · have hall := txnList_of_ids j plain true rfl
      rw [filterMap_range] at hall
      rcases hall with ⟨hok, htxns, -⟩ | ⟨hmany, -, hover⟩
      · refine .inl ⟨hok, htxns, ?_⟩
        rw [htxns]
        exact txnsMatchJob_all hbuild (by omega) hids
      · exact .inr ⟨hmany, hover⟩
  · obtain ⟨hfits, hreads⟩ := txnList_replies j plain false hcount'
    refine ⟨_, hfits, fun pad hpad => ?_, ?_⟩
    · have hread := hreads pad hpad
      rw [txnList_selector] at hread
      rw [txnsResponse_eq hslot hheld hindex]
      exact hread
    · cases hrequest : requestedIds plain j.txns.length with
      | none =>
          refine .inr ⟨txnList_badRequest j plain hrequest, fun ids hnames => ?_⟩
          by_contra hvalid
          simp only [not_or, not_not, not_exists, not_and, not_le] at hvalid
          have hsome := (requestedIds_eq_some_iff hcount').mpr ⟨hnames, hvalid⟩
          rw [hrequest] at hsome
          cases hsome
      | some ids =>
          obtain ⟨hnames, hne, hnodup, hrange⟩ := (requestedIds_eq_some_iff hcount').mp hrequest
          refine .inl ⟨ids, _, hnames, hne, hnodup, hrange, filterMap_map_some hrange, ?_⟩
          exact (txnList_of_ids j plain false hrequest).imp (fun h => ⟨h.1, h.2.1⟩) fun h => ⟨h.1, h.2.2⟩

def oneTxnTemplate : Template where
  height := 1
  coinbaseValue := 50
  curtime := 0
  sizelimit := 4000000
  weightlimit := 4000000
  sigoplimit := 80000
  version := 0
  nbits := 0x1d00ffff
  prevHash := Vector.replicate 32 0
  witnessCommitment := []
  blake2bRule := true
  reducedData := false
  txids := [Vector.ofFn fun i => oneTxn.getD i 0]
  totals := ⟨1, 0, 0, 0⟩

def oneTxnJobConfig : JobConfig where
  protocolJobSlots := 8
  coinbaseTagPrimary := ""
  coinbaseTagSecondary := ""
  coinbaseUniqueId := 0
  poolOutputScript := [0x51]

theorem oneTxnTemplate_built : ∃ j : JobWithTxns,
    build prefixHashing oneTxnJobConfig
      { serial := 0, template := oneTxnTemplate, poolConfig := none, coinbaser := none, abw := none }
      0 0 = .ok j.job ∧
    j.txns = [⟨oneTxn, Vector.ofFn fun i => oneTxn.getD i 0⟩] := by
  have hbuild : ∃ job, build prefixHashing oneTxnJobConfig
      { serial := 0, template := oneTxnTemplate, poolConfig := none, coinbaser := none, abw := none }
      0 0 = .ok job := by
    apply exists_build
    · exact List.cons_ne_nil _ _
    · show 1 ≤ 83
      decide
    · show (ScriptSigInputs.scriptSig ⟨1, "", "", 0, 0, false, false⟩).isSome = true
      decide +kernel
    · decide +kernel
    · show (bitsToTarget 0x1d00ffff).isSome
      decide
  obtain ⟨job, hbuild⟩ := hbuild
  exact ⟨⟨job, [⟨oneTxn, _⟩], by rw [(build_eq_ok hbuild).template_eq]; rfl⟩, hbuild, rfl⟩

theorem job_transactions_sent_one_txn : ∃ (j : JobWithTxns) (reply : TxnList),
    j.txns = [⟨oneTxn, Vector.ofFn fun i => oneTxn.getD i 0⟩] ∧
    TxnList.decode (txnsResponse 8 (fun _ => some j) (List.replicate 8 0) true)
      ValidationResponse.BLOCK_TXNS = .ok reply ∧ reply.status = .ok ∧ reply.txns = [oneTxn] := by
  obtain ⟨j, hbuild, htxns⟩ := oneTxnTemplate_built
  have hids : ∀ t ∈ j.txns, txid prefixHashing t.raw = .ok t.txid := by
    rw [htxns]
    decide +kernel
  have hindex : (List.replicate 8 (0 : UInt8))[JOB_INDEX_AT]? = some 0 := by decide
  have hslot : (0 : UInt8).toNat < 8 := by decide
  let jobs : UInt8 → Option JobWithTxns := fun _ => some j
  have hheld : jobs 0 = some j := rfl
  obtain ⟨⟨reply, -, hreads, hsent⟩, -⟩ := job_transactions_sent prefixHashing hbuild (by rw [htxns]; decide)
    hids hslot hheld hindex
  have hread := (hreads [] (Nat.zero_le _)).2
  rw [List.append_nil] at hread
  rw [htxns] at hsent
  rcases hsent with ⟨hok, heq, -⟩ | ⟨-, hover⟩
  · exact ⟨j, reply, htxns, hread, hok, heq⟩
  · exact absurd hover (by decide +kernel)

end Ratum
