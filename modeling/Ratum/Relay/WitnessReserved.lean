import Ratum.Bitcoin.CoinbaseRead

/-!
# The witness reserved value

`with_witness_reserved_value` of `prime/src/relay.rs`: a coinbase that commits to witnesses is proposed to the
node with a witness of its own, and is the same coinbase.
-/

namespace Ratum

def TX_VERSION_LEN : Nat := 4

def TX_LOCK_TIME_LEN : Nat := 4

/-- The start of a segwit coinbase's witness commitment output script. -/
def WITNESS_COMMITMENT_PREFIX : Bytes := [0x6a, 0x24, 0xaa, 0x21, 0xa9, 0xed]

def SEGWIT_MARKER_AND_FLAG : Bytes := [0x00, 0x01]

/-- The coinbase input's witness: one stack item, 32 zeros. -/
def WITNESS_RESERVED_VALUE_STACK : Bytes := [1, 32] ++ List.replicate 32 0

/-- Whether a coinbase has no witness and an output that commits to witnesses. -/
def CoinbaseTx.awaitsWitness (cb : CoinbaseTx) : Bool :=
  !cb.hasWitness && cb.outputs.any fun out => WITNESS_COMMITMENT_PREFIX.isPrefixOf out.scriptPubkey

def withWitnessReservedValue (coinbase : Bytes) : Bytes :=
  let commits := (parseCoinbase coinbase).toOption.any CoinbaseTx.awaitsWitness
  if !commits || decide (coinbase.length < TX_VERSION_LEN + TX_LOCK_TIME_LEN) then coinbase
  else
    let lockTimeAt := coinbase.length - TX_LOCK_TIME_LEN
    coinbase.take TX_VERSION_LEN ++ SEGWIT_MARKER_AND_FLAG ++
      (coinbase.take lockTimeAt).drop TX_VERSION_LEN ++ WITNESS_RESERVED_VALUE_STACK ++ coinbase.drop lockTimeAt

variable {H : Hashing} {tx : Bytes} {cb : CoinbaseTx}

/-- The serialization of a coinbase with the reserved value for its witness. -/
def CoinbaseTx.withWitness (cb : CoinbaseTx) : Bytes :=
  leBytes 4 cb.version.toNat ++ (SEGWIT_MARKER_AND_FLAG ++ (cb.body ++ (WITNESS_RESERVED_VALUE_STACK ++
    leBytes 4 cb.lockTime.toNat)))

/-- A coinbase without a witness is written as it was read. -/
theorem stripped_of_parseCoinbase (h : parseCoinbase tx = .ok cb) (hwitness : cb.hasWitness = false) :
    tx = cb.stripped := by
  obtain ⟨rest, hversion, hend, -⟩ := parseCoinbase_ok h
  rw [hwitness] at hversion hend
  obtain ⟨c', c'', hnone, hlockTime⟩ := hend
  obtain rfl := Except.ok.inj hnone
  have hlockTime : rest = leBytes 4 cb.lockTime.toNat := rest_of_readLockTime hlockTime
  have hbytes : tx = leBytes 4 cb.version.toNat ++ (cb.body ++ rest) := ((readVersionAndMarker_ok hversion).2 rfl).1
  rw [hbytes, hlockTime, CoinbaseTx.stripped, List.append_assoc]

/-- What is spliced into a coinbase that awaits its witness. -/
theorem withWitnessReservedValue_of_awaits (h : parseCoinbase tx = .ok cb) (hawaits : cb.awaitsWitness = true) :
    withWitnessReservedValue tx = cb.withWitness := by
  have hwitness : cb.hasWitness = false := by
    rw [CoinbaseTx.awaitsWitness, Bool.and_eq_true, Bool.not_eq_true'] at hawaits
    exact hawaits.1
  have hbytes := stripped_of_parseCoinbase h hwitness
  have hversion : (leBytes 4 cb.version.toNat).length = TX_VERSION_LEN := length_leBytes ..
  have hlockTime : (leBytes 4 cb.lockTime.toNat).length = TX_LOCK_TIME_LEN := length_leBytes ..
  rw [CoinbaseTx.stripped] at hbytes
  have hat : tx.length - TX_LOCK_TIME_LEN = (leBytes 4 cb.version.toNat ++ cb.body).length := by
    rw [hbytes, List.length_append, hlockTime, Nat.add_sub_cancel]
  have hlong : ¬ tx.length < TX_VERSION_LEN + TX_LOCK_TIME_LEN := by
    rw [hbytes, List.length_append, List.length_append, hversion, hlockTime]
    omega
  have hcommits : (parseCoinbase tx).toOption.any CoinbaseTx.awaitsWitness = true := by
    rw [h]
    exact hawaits
  have htake : tx.take TX_VERSION_LEN = leBytes 4 cb.version.toNat := by
    rw [hbytes, List.append_assoc, List.take_left' hversion]
  have hbefore : tx.take (tx.length - TX_LOCK_TIME_LEN) = leBytes 4 cb.version.toNat ++ cb.body := by
    rw [hat, hbytes, List.take_left]
  have hafter : tx.drop (tx.length - TX_LOCK_TIME_LEN) = leBytes 4 cb.lockTime.toNat := by
    rw [hat, hbytes, List.drop_left]
  unfold withWitnessReservedValue
  simp only [hcommits, decide_eq_false hlong, Bool.not_true, Bool.or_self, Bool.false_eq_true, if_false, htake,
    hbefore, hafter, List.drop_left' hversion, CoinbaseTx.withWitness, List.append_assoc]

theorem withWitnessReservedValue_of_not
    (h : ∀ cb, parseCoinbase tx = .ok cb → cb.awaitsWitness = false) : withWitnessReservedValue tx = tx := by
  unfold withWitnessReservedValue
  cases hparsed : parseCoinbase tx with
  | error e => rfl
  | ok cb =>
      have hcommits : (Except.ok cb : Except TxError CoinbaseTx).toOption.any CoinbaseTx.awaitsWitness = false :=
        h cb hparsed
      rw [hcommits]
      rfl

/-! ### The coinbase with its witness -/

open ByteReader

theorem readVersionAndMarker_withWitness (cb : CoinbaseTx) :
    readVersionAndMarker (.new cb.withWitness) = .ok (cb.version, true,
      ⟨cb.withWitness, cb.body ++ (WITNESS_RESERVED_VALUE_STACK ++ leBytes 4 cb.lockTime.toNat)⟩) := by
  have hmarker (full rest : Bytes) : (ByteReader.mk full (SEGWIT_MARKER_AND_FLAG ++ rest)).peek2 = some (0x00, 0x01) :=
    rfl
  have hflag (full rest : Bytes) := @advance_append 2 SEGWIT_MARKER_AND_FLAG full rest "segwit marker and flag" rfl
  rw [ByteReader.new, CoinbaseTx.withWitness]
  simp only [readVersionAndMarker, u32_leBytes, TxError.ofRead_ok, bind, Except.bind, hmarker, if_true, hflag, pure,
    Except.pure]

theorem readsEnd_withWitness (full : Bytes) (lockTime : UInt32) :
    readsEnd true ⟨full, WITNESS_RESERVED_VALUE_STACK ++ leBytes 4 lockTime.toNat⟩ lockTime := by
  refine ⟨⟨full, leBytes 4 lockTime.toNat⟩, ⟨full, []⟩, ?_, ?_⟩
  · have hstack (rest : Bytes) : WITNESS_RESERVED_VALUE_STACK ++ rest =
        encodeCompactSize 1 ++ (encodeCompactSize 32 ++ (List.replicate 32 0 ++ rest)) := rfl
    have hzeros (rest : Bytes) := @advance_append 32 (List.replicate 32 0) full rest "witness item" rfl
    rw [if_pos rfl, hstack]
    simp only [skipWitnesses, skipItems, bind, Except.bind, decodeCompactSize_encode _ _ (show 1 < 2 ^ 64 by decide),
      decodeCompactSize_encode _ _ (show 32 < 2 ^ 64 by decide), hzeros, TxError.ofRead_ok, pure, Except.pure]
  · have hread := u32_leBytes full [] "lock time" lockTime
    rw [List.append_nil] at hread
    rw [readLockTime, hread]
    rfl

/-- **A coinbase given its witness is the same coinbase.** -/
theorem parseCoinbase_withWitness (hcb : cb.Writable) :
    (∃ scriptSigOffset, parseCoinbase cb.withWitness = .ok { cb with scriptSigOffset, hasWitness := true }) ∧
      txid H cb.withWitness = .ok (H.sha256d cb.stripped) :=
  ⟨parseCoinbase_of_body (readVersionAndMarker_withWitness cb) (readsEnd_withWitness _ _) hcb,
    txid_of_body (readVersionAndMarker_withWitness cb) (readsEnd_withWitness _ _) hcb⟩

theorem not_awaitsWitness_of_hasWitness (hwitness : cb.hasWitness = true) : cb.awaitsWitness = false := by
  rw [CoinbaseTx.awaitsWitness, hwitness]
  rfl

/-- What `with_witness_reserved_value` keeps of a coinbase. -/
structure SameCoinbase (H : Hashing) (tx tx' : Bytes) (cb cb' : CoinbaseTx) : Prop where
  parsed : parseCoinbase tx' = .ok cb'
  version : cb'.version = cb.version
  scriptSig : cb'.scriptSig = cb.scriptSig
  sequence : cb'.sequence = cb.sequence
  outputs : cb'.outputs = cb.outputs
  lockTime : cb'.lockTime = cb.lockTime
  txid : txid H tx' = .ok (H.sha256d cb.stripped) ∧ txid H tx = .ok (H.sha256d cb.stripped)

theorem sameCoinbase_of_parseCoinbase (h : parseCoinbase tx = .ok cb) :
    (∃ cb', SameCoinbase H tx (withWitnessReservedValue tx) cb cb') ∧
      withWitnessReservedValue (withWitnessReservedValue tx) = withWitnessReservedValue tx := by
  obtain ⟨rest, hversion, hend, hcb⟩ := parseCoinbase_ok h
  have htxid : txid H tx = .ok (H.sha256d cb.stripped) := txid_of_body hversion hend hcb
  cases hawaits : cb.awaitsWitness with
  | false =>
      have hsame : withWitnessReservedValue tx = tx := withWitnessReservedValue_of_not fun cb' h' => by
        obtain rfl := Except.ok.inj (h.symm.trans h')
        exact hawaits
      rw [hsame, hsame]
      exact ⟨⟨cb, h, rfl, rfl, rfl, rfl, rfl, htxid, htxid⟩, rfl⟩
  | true =>
      rw [withWitnessReservedValue_of_awaits h hawaits]
      obtain ⟨⟨scriptSigOffset, hparsed⟩, hid⟩ := parseCoinbase_withWitness (H := H) hcb
      refine ⟨⟨_, hparsed, rfl, rfl, rfl, rfl, rfl, hid, htxid⟩, withWitnessReservedValue_of_not fun cb' h' => ?_⟩
      obtain rfl := Except.ok.inj (hparsed.symm.trans h')
      exact not_awaitsWitness_of_hasWitness rfl

/-- Whether an output commits to witnesses. -/
def TxOut.Commits (out : TxOut) : Prop := WITNESS_COMMITMENT_PREFIX <+: out.scriptPubkey

theorem awaitsWitness_iff : cb.awaitsWitness = true ↔ cb.hasWitness = false ∧ ∃ out ∈ cb.outputs, out.Commits := by
  simp [CoinbaseTx.awaitsWitness, TxOut.Commits, List.isPrefixOf_iff_prefix]

/-- Only a coinbase that awaits its witness is changed. -/
theorem withWitnessReservedValue_ne_iff : withWitnessReservedValue tx ≠ tx ↔
    ∃ cb, parseCoinbase tx = .ok cb ∧ cb.hasWitness = false ∧ ∃ out ∈ cb.outputs, out.Commits := by
  constructor
  · intro hchanged
    by_contra hnone
    refine hchanged (withWitnessReservedValue_of_not fun cb h => Bool.eq_false_iff.mpr fun hawaits => hnone ?_)
    exact ⟨cb, h, awaitsWitness_iff.mp hawaits⟩
  · rintro ⟨cb, h, hawaits⟩ hsame
    have hbytes := stripped_of_parseCoinbase h hawaits.1
    rw [withWitnessReservedValue_of_awaits h (awaitsWitness_iff.mpr hawaits)] at hsame
    have hlength := congrArg List.length (hsame.trans hbytes)
    simp only [CoinbaseTx.withWitness, CoinbaseTx.stripped, List.length_append, WITNESS_RESERVED_VALUE_STACK,
      SEGWIT_MARKER_AND_FLAG, List.length_cons, List.length_nil, List.length_replicate] at hlength
    omega

/-- **A coinbase given its witness reserved value is the same coinbase**, and a transaction without a witness has
the double hash of its bytes as its id. -/
theorem witness_reserved_value_same_coinbase (H : Hashing) :
    (∀ tx cb, parseCoinbase tx = .ok cb →
      (∃ cb', SameCoinbase H tx (withWitnessReservedValue tx) cb cb') ∧
        withWitnessReservedValue (withWitnessReservedValue tx) = withWitnessReservedValue tx) ∧
    (∀ tx, withWitnessReservedValue tx ≠ tx ↔
      ∃ cb, parseCoinbase tx = .ok cb ∧ cb.hasWitness = false ∧ ∃ out ∈ cb.outputs, out.Commits) ∧
    ∀ tx id, Witnessless tx → txid H tx = .ok id → id = H.sha256d tx :=
  ⟨fun _ _ => sameCoinbase_of_parseCoinbase, fun _ => withWitnessReservedValue_ne_iff,
    fun _ _ => txid_of_witnessless⟩

/-- A coinbase whose one output commits to no witnesses but its own. -/
def committingCoinbase : Bytes := coinbaseBytes [] [⟨0, WITNESS_COMMITMENT_PREFIX ++ List.replicate 32 0⟩]

theorem witness_reserved_value_same_coinbase_committing (H : Hashing) :
    withWitnessReservedValue committingCoinbase ≠ committingCoinbase ∧
      txid H (withWitnessReservedValue committingCoinbase) = .ok (H.sha256d committingCoinbase) := by
  have hwritable : ∀ o ∈ [(⟨0, WITNESS_COMMITMENT_PREFIX ++ List.replicate 32 0⟩ : TxOut)], o.Writable := by
    intro o hmem
    obtain rfl := List.mem_singleton.mp hmem
    exact ⟨by decide, by decide⟩
  have hparsed : parseCoinbase committingCoinbase = .ok _ :=
    parseCoinbase_coinbaseBytes (by decide) (by decide) hwritable
  obtain ⟨hsame, hchanged, -⟩ := witness_reserved_value_same_coinbase H
  refine ⟨(hchanged _).mpr ⟨_, hparsed, rfl, _, List.mem_singleton_self _, List.prefix_append _ _⟩, ?_⟩
  obtain ⟨⟨cb', hgiven⟩, -⟩ := hsame _ _ hparsed
  rw [hgiven.txid.1, ← stripped_of_parseCoinbase hparsed rfl]

end Ratum
