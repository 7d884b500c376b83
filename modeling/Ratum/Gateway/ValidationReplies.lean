import Ratum.Datum.TxnList
import Ratum.Gateway.Job
import Mathlib.Data.List.Induction
import Mathlib.Data.List.Nodup
import Mathlib.Data.List.Perm.Subperm

/-!
# Replying with a job's transactions

`gateway/src/datum/validation_replies.rs`: the transactions the pool asks for, all of a job's or those it
names, from the template the job was built on.
-/

namespace Ratum

structure Txn where
  raw : Bytes
  txid : Hash

/-- A job with the transactions of its template. -/
structure JobWithTxns where
  job : Job
  txns : List Txn
  txids_eq : txns.map Txn.txid = job.template.txids

structure SlotLookupFailure where
  jobIndex : UInt8
  status : TxnListStatus

/-- The job in a slot, of those the table has. -/
def jobSlot (protocolJobSlots : Nat) (jobs : UInt8 → Option JobWithTxns) (index : UInt8) :
    Except SlotLookupFailure JobWithTxns :=
  if protocolJobSlots ≤ index.toNat then .error ⟨JOB_INDEX_INVALID, .badJobIndex⟩
  else
    match jobs index with
    | some j => .ok j
    | none => .error ⟨index, .jobEmpty⟩

/-- The 16-bit numbers in the bytes. -/
def u16Chunks : Bytes → List Nat
  | a :: b :: rest => leNat [a, b] :: u16Chunks rest
  | _ => []

/-- Marks the indexes as listed; none for one past the end, or listed before. -/
def markListed : List Nat → List Bool → Option (List Bool)
  | [], listed => some listed
  | i :: ids, listed =>
      match listed[i]? with
      | some false => markListed ids (listed.set i true)
      | _ => none

/-- The indexes a request names; none when it is malformed. -/
def requestedIds (plain : Bytes) (txnCount : Nat) : Option (List Nat) :=
  if plain.length < REQUEST_HEADER_LEN then none
  else do
    let (count, c) ← ((ByteReader.new (plain.drop REQUEST_HEADER_LEN)).u16 "index count").toOption
    if count.toNat = 0 || txnCount < count.toNat then none
    let (bytes, _) ← (c.take (count.toNat * 2) "indexes").toOption
    let ids := u16Chunks bytes
    let _ ← markListed ids (List.replicate txnCount false)
    pure ids

def txnList (lookup : Except SlotLookupFailure JobWithTxns) (plain : Bytes) (all : Bool) : TxnList :=
  let selector := if all then ValidationResponse.BLOCK_TXNS else ValidationResponse.TXNS
  match lookup with
  | .error failure => .empty selector failure.jobIndex failure.status
  | .ok j =>
      match if all then some (List.range j.txns.length) else requestedIds plain j.txns.length with
      | none => .empty selector j.job.slot .badRequest
      | some ids =>
          let txns := ids.filterMap fun i => j.txns[i]?.map Txn.raw
          if MAX_TXN_LIST_TXN_BYTES < TxnList.txnBytes txns then .empty selector j.job.slot .tooManyTxns
          else { selector, jobIndex := j.job.slot, status := .ok, txns }

/-- The reply to a request of the pool for transactions. -/
def txnsResponse (protocolJobSlots : Nat) (jobs : UInt8 → Option JobWithTxns) (plain : Bytes) (all : Bool) : Bytes :=
  let lookup :=
    match plain[JOB_INDEX_AT]? with
    | some index => jobSlot protocolJobSlots jobs index
    | none => .error ⟨JOB_INDEX_INVALID, .badRequest⟩
  (txnList lookup plain all).encode

/-! ### The indexes a request names -/

theorem u16Chunks_flatMap {ids : List Nat} (hids : ∀ i ∈ ids, i < 256 ^ 2) :
    u16Chunks (ids.flatMap (leBytes 2)) = ids := by
  induction ids with
  | nil => rfl
  | cons i ids ih =>
      rw [List.flatMap_cons]
      show leNat (leBytes 2 i) :: u16Chunks (ids.flatMap (leBytes 2)) = _
      rw [leNat_leBytes, Nat.mod_eq_of_lt (hids i List.mem_cons_self),
        ih fun i' hi' => hids i' (List.mem_cons_of_mem i hi')]

theorem flatMap_u16Chunks {n : Nat} {bytes : Bytes} (hlength : bytes.length = n * 2) :
    (u16Chunks bytes).flatMap (leBytes 2) = bytes ∧ (u16Chunks bytes).length = n ∧
      ∀ i ∈ u16Chunks bytes, i < 256 ^ 2 := by
  induction n generalizing bytes with
  | zero =>
      obtain rfl := List.length_eq_zero_iff.mp (hlength.trans (Nat.zero_mul 2))
      exact ⟨rfl, rfl, nofun⟩
  | succ n ih =>
      match bytes with
      | [] => simp at hlength
      | [_] => simp at hlength; omega
      | a :: b :: rest =>
          have hrest : rest.length = n * 2 := by
            rw [List.length_cons, List.length_cons] at hlength
            omega
          obtain ⟨hbytes, hcount, hlt⟩ := ih hrest
          refine ⟨?_, congrArg Nat.succ hcount, ?_⟩
          · rw [u16Chunks, List.flatMap_cons, hbytes]
            exact congrArg (· ++ rest) (leBytes_leNat [a, b])
          · intro i hi
            rcases List.mem_cons.mp hi with rfl | hi
            · exact leNat_lt [a, b]
            · exact hlt i hi

/-- The indexes are marked when each is in range, and not listed before. -/
theorem markListed_isSome_iff {ids : List Nat} {listed : List Bool} :
    (markListed ids listed).isSome ↔ ids.Nodup ∧ ∀ i ∈ ids, listed[i]? = some false := by
  induction ids generalizing listed with
  | nil => simp [markListed]
  | cons i ids ih =>
      rw [markListed, List.nodup_cons, List.forall_mem_cons]
      split
      · rename_i hfree
        rw [ih]
        have hset (i' : Nat) (hne : i ≠ i') : (listed.set i true)[i']? = listed[i']? := List.getElem?_set_ne hne
        constructor
        · rintro ⟨hnodup, hall⟩
          have hnotMem : i ∉ ids := by
            intro hmem
            have hagain := hall i hmem
            rw [List.getElem?_set_self'] at hagain
            simp [hfree] at hagain
          refine ⟨⟨hnotMem, hnodup⟩, hfree, fun i' hi' => ?_⟩
          rw [← hset i' fun heq => hnotMem (heq ▸ hi')]
          exact hall i' hi'
        · rintro ⟨⟨hnotMem, hnodup⟩, -, hall⟩
          refine ⟨hnodup, fun i' hi' => ?_⟩
          rw [hset i' fun heq => hnotMem (heq ▸ hi')]
          exact hall i' hi'
      · rename_i hnot
        simp only [Option.isSome_none, Bool.false_eq_true, false_iff, not_and]
        exact fun _ hfree => absurd hfree hnot

/-- The bytes of a request that names indexes, after its header, with any bytes after. -/
def indexBytes (ids : List Nat) (tail : Bytes) : Bytes :=
  leBytes 2 ids.length ++ (ids.flatMap (leBytes 2) ++ tail)

/-- As many indexes are listed as there are, when each is listed once and in range. -/
theorem length_le_of_nodup {ids : List Nat} {n : Nat} (hnodup : ids.Nodup) (hrange : ∀ i ∈ ids, i < n) :
    ids.length ≤ n := by
  have hsubset : ids ⊆ List.range n := fun i hi => List.mem_range.mpr (hrange i hi)
  simpa using (hnodup.subperm hsubset).length_le

/-- **A request names the indexes it lists**, each once and in range, of which there is one at least. -/
theorem requestedIds_eq_some_iff {plain : Bytes} {txnCount : Nat} (htxns : txnCount < 256 ^ 2) {ids : List Nat} :
    requestedIds plain txnCount = some ids ↔
      (∃ header tail, header.length = REQUEST_HEADER_LEN ∧ plain = header ++ indexBytes ids tail) ∧
        ids ≠ [] ∧ ids.Nodup ∧ ∀ i ∈ ids, i < txnCount := by
  have hmarked (ids : List Nat) : (markListed ids (List.replicate txnCount false)).isSome ↔
      ids.Nodup ∧ ∀ i ∈ ids, i < txnCount := by
    rw [markListed_isSome_iff]
    refine and_congr_right fun _ => forall₂_congr fun i _ => ?_
    rw [List.getElem?_replicate]
    simp
  rw [requestedIds]
  constructor
  · intro h
    obtain ⟨hheader, h⟩ := Option.ite_none_left_eq_some.mp h
    obtain ⟨⟨count, c⟩, hcount, h⟩ := Option.bind_eq_some_iff.mp h
    obtain ⟨hrange, h⟩ := Option.ite_none_left_eq_some.mp h
    obtain ⟨⟨bytes, c'⟩, hbytes, h⟩ := Option.bind_eq_some_iff.mp h
    obtain ⟨listed, hlisted, h⟩ := Option.bind_eq_some_iff.mp h
    obtain rfl := Option.some.inj h
    have hread := ByteReader.ok_of_toOption hbytes
    obtain ⟨hflat, hlength, -⟩ := flatMap_u16Chunks (ByteReader.take_ok hread).2.1
    simp only [Bool.or_eq_true, decide_eq_true_eq, not_or, not_lt] at hrange
    refine ⟨⟨plain.take REQUEST_HEADER_LEN, c'.rest, ?_, ?_⟩, ?_, (hmarked _).mp (by rw [hlisted]; rfl)⟩
    · rw [List.length_take]
      omega
    · have hafter : plain.drop REQUEST_HEADER_LEN = leBytes 2 count.toNat ++ (bytes ++ c'.rest) := by
        rw [← ByteReader.rest_of_take hread, ← ByteReader.rest_of_u16 (ByteReader.ok_of_toOption hcount)]
        rfl
      rw [indexBytes, hlength, hflat, ← hafter, List.take_append_drop]
    · rintro hnil
      rw [hnil] at hlength
      exact hrange.1 hlength.symm
  · rintro ⟨⟨header, tail, hheader, rfl⟩, hne, hnodup, hrange⟩
    have hle := length_le_of_nodup hnodup hrange
    have hcount : (UInt16.ofNat ids.length).toNat = ids.length :=
      UInt16.toNat_ofNat_of_lt' (Nat.lt_of_le_of_lt hle htxns)
    have hcountRead (full rest : Bytes) := ByteReader.u16_leBytes full rest "index count" (UInt16.ofNat ids.length)
    rw [hcount] at hcountRead
    have hlength : (ids.flatMap (leBytes 2)).length = ids.length * 2 := by
      rw [List.length_flatMap]
      simp
    have hnotEmpty : ¬ ((decide (ids.length = 0) || decide (txnCount < ids.length)) = true) := by
      have hpos := mt List.length_eq_zero_iff.mp hne
      simp only [Bool.or_eq_true, decide_eq_true_eq]
      omega
    obtain ⟨listed, hlisted⟩ := Option.isSome_iff_exists.mp ((hmarked ids).mpr ⟨hnodup, hrange⟩)
    have hchunks := u16Chunks_flatMap fun i hi => Nat.lt_trans (hrange i hi) htxns
    rw [if_neg (by rw [List.length_append]; omega), List.drop_left' hheader, indexBytes, ByteReader.new]
    simp only [hcountRead, Except.toOption, bind, Option.bind, hcount, if_neg hnotEmpty,
      ByteReader.take_append _ _ hlength, hchunks, hlisted, pure]

/-! ### The replies -/

section Replies

variable (j : JobWithTxns) (plain : Bytes) (all : Bool)

/-- The reply for the indexes asked for: their transactions, unless these take too many bytes. -/
theorem txnList_of_ids {ids : List Nat}
    (hids : (if all then some (List.range j.txns.length) else requestedIds plain j.txns.length) = some ids) :
    let reply := txnList (.ok j) plain all
    let txns := ids.filterMap fun i => j.txns[i]?.map Txn.raw
    reply.status = .ok ∧ reply.txns = txns ∧ TxnList.txnBytes txns ≤ MAX_TXN_LIST_TXN_BYTES ∨
      reply.status = .tooManyTxns ∧ reply.txns = [] ∧ MAX_TXN_LIST_TXN_BYTES < TxnList.txnBytes txns := by
  intro reply txns
  simp only [reply, txnList, hids]
  split
  · rename_i hover
    exact .inr ⟨rfl, rfl, hover⟩
  · rename_i hfits
    exact .inl ⟨rfl, rfl, not_lt.mp hfits⟩

theorem txnList_badRequest (h : requestedIds plain j.txns.length = none) :
    txnList (.ok j) plain false = .empty ValidationResponse.TXNS j.job.slot .badRequest := by
  simp only [txnList, Bool.false_eq_true, if_false, h]

theorem filterMap_range (txns : List Txn) :
    ((List.range txns.length).filterMap fun i => txns[i]?.map Txn.raw) = txns.map Txn.raw := by
  induction txns using List.reverseRecOn with
  | nil => rfl
  | append_singleton txns t ih =>
      have hsame : ((List.range txns.length).filterMap fun i => (txns ++ [t])[i]?.map Txn.raw) =
          (List.range txns.length).filterMap fun i => txns[i]?.map Txn.raw := by
        apply List.filterMap_congr
        intro i hi
        rw [List.getElem?_append_left (List.mem_range.mp hi)]
      rw [List.length_append, List.length_singleton, List.range_succ, List.filterMap_append, hsame, ih,
        List.map_append]
      simp

theorem txnList_selector :
    (txnList (.ok j) plain all).selector =
      if all then ValidationResponse.BLOCK_TXNS else ValidationResponse.TXNS := by
  simp only [txnList]
  split
  · rfl
  · split <;> rfl

/-- No more transactions are sent than there are. -/
theorem length_reply_le (hcount : j.txns.length < 256 ^ 2) {ids : List Nat}
    (hids : (if all then some (List.range j.txns.length) else requestedIds plain j.txns.length) = some ids) :
    (ids.filterMap fun i => j.txns[i]?.map Txn.raw).length ≤ j.txns.length := by
  refine (List.length_filterMap_le _ _).trans ?_
  cases all with
  | true =>
      obtain rfl := Option.some.inj hids
      rw [List.length_range]
  | false =>
      obtain ⟨-, -, hnodup, hrange⟩ := (requestedIds_eq_some_iff hcount).mp hids
      exact length_le_of_nodup hnodup hrange

/-- **The reply fits a frame with its padding, and is read back whole.** -/
theorem txnList_replies (hcount : j.txns.length < 256 ^ 2) :
    let reply := txnList (.ok j) plain all
    reply.FitsWire ∧ ∀ pad : Bytes, pad.length ≤ MAX_MINING_PAD_LEN →
      (reply.encode ++ pad).length ≤ MAX_PLAINTEXT_LEN ∧
        TxnList.decode (reply.encode ++ pad) reply.selector = .ok reply := by
  intro reply
  have hempty {status : TxnListStatus} (hnamed : status.Named) (hnot : status ≠ .ok)
      (heq : reply = .empty reply.selector j.job.slot status) :
      reply.FitsWire ∧ ∀ pad : Bytes, pad.length ≤ MAX_MINING_PAD_LEN →
        (reply.encode ++ pad).length ≤ MAX_PLAINTEXT_LEN ∧
          TxnList.decode (reply.encode ++ pad) reply.selector = .ok reply := by
    have hfits : reply.FitsWire := by
      rw [heq]
      exact ⟨Nat.two_pow_pos 16, fun tx htx => absurd htx List.not_mem_nil⟩
    refine ⟨hfits, fun pad hpad => ⟨?_, ?_⟩⟩
    · rw [heq, List.length_append, TxnList.length_encode_empty hnot]
      have hmax : 4 + MAX_MINING_PAD_LEN ≤ MAX_PLAINTEXT_LEN := by decide
      omega
    · exact TxnList.decode_encode hfits (by rw [heq]; exact hnamed) (fun _ => by rw [heq]; rfl) pad
  cases hids : if all then some (List.range j.txns.length) else requestedIds plain j.txns.length with
  | none =>
      exact hempty (show TxnListStatus.badRequest.Named from trivial) (by decide)
        (by simp only [reply, txnList, hids, TxnList.empty])
  | some ids =>
      have hlength := length_reply_le j plain all hcount hids
      by_cases hover : MAX_TXN_LIST_TXN_BYTES < TxnList.txnBytes (ids.filterMap fun i => j.txns[i]?.map Txn.raw)
      · exact hempty (show TxnListStatus.tooManyTxns.Named from trivial) (by decide)
          (by simp only [reply, txnList, hids, if_pos hover, TxnList.empty])
      · have hok : reply.status = .ok := by simp only [reply, txnList, hids, if_neg hover]
        have htxns : reply.txns = ids.filterMap fun i => j.txns[i]?.map Txn.raw := by
          simp only [reply, txnList, hids, if_neg hover]
        have hfits : reply.FitsWire :=
          TxnList.fits_of_txnBytes_le (by rw [htxns]; omega) (by rw [htxns]; exact not_lt.mp hover)
        refine ⟨hfits, fun pad hpad => ⟨?_, ?_⟩⟩
        · rw [List.length_append, TxnList.length_encode hok, htxns]
          have hmax : TXN_LIST_REPLY_OVERHEAD + MAX_TXN_LIST_TXN_BYTES + MAX_MINING_PAD_LEN ≤ MAX_PLAINTEXT_LEN := by
            decide
          omega
        · exact TxnList.decode_encode hfits (by rw [hok]; trivial) (fun hnot => absurd hok hnot) pad

end Replies

end Ratum
