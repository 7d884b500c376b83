import Ratum.Datum.BuiltCoinbase

/-!
# A built coinbase fits the block

The dictated outputs are taken out of a budget measured on the coinbase without any, which covers the bytes
the output count grows by. The coinbase with them stays within the template's limits when the one without
does.
-/

namespace Ratum

/-- The block of the template with the coinbase stays within the template's size and weight limits: the
header, the transaction count, the coinbase with its witness and the template's transactions. -/
structure BlockLimits.Admits (limits : BlockLimits) (tx : Bytes) : Prop where
  size_le : HEADER_V2_SIZE + MAX_TXN_COUNT_SIZE + (tx.length + COINBASE_WITNESS_BYTES) + limits.txnTotalSize ≤
    limits.sizelimit
  weight_le : WITNESS_SCALE_FACTOR * (HEADER_V2_SIZE + MAX_TXN_COUNT_SIZE) +
    (WITNESS_SCALE_FACTOR * tx.length + COINBASE_WITNESS_BYTES) + limits.txnTotalWeight ≤ limits.weightlimit

/-! ### Lengths -/

theorem length_encodeCompactSize_mono {m n : Nat} (hle : m ≤ n) :
    (encodeCompactSize m).length ≤ (encodeCompactSize n).length := by
  rw [encodeCompactSize, encodeCompactSize]
  split_ifs <;> simp only [List.length_cons, List.length_nil, length_leBytes] <;> omega

theorem length_encodeCompactSize_small {n : Nat} (hsmall : n < 253) : (encodeCompactSize n).length = 1 := by
  rw [encodeCompactSize, if_pos (by omega)]
  rfl

theorem TxOut.length_encode (o : TxOut) :
    o.encode.length = VALUE_SIZE + (encodeCompactSize o.scriptPubkey.length).length + o.scriptPubkey.length := by
  rw [encode, encodeOutput, List.length_append, List.length_append, length_leBytes]

theorem TxOut.length_encode_small {o : TxOut} (hsmall : o.scriptPubkey.length < 253) :
    o.encode.length = o.scriptPubkey.length + MIN_OUTPUT_SIZE := by
  rw [length_encode, length_encodeCompactSize_small hsmall, MIN_OUTPUT_SIZE]
  omega

theorem TxOut.length_encode_mono {o o' : TxOut} (hle : o.scriptPubkey.length ≤ o'.scriptPubkey.length) :
    o.encode.length ≤ o'.encode.length := by
  have hcount := length_encodeCompactSize_mono hle
  rw [length_encode, length_encode]
  omega

theorem length_flatMap_encode_eq (outputs : List TxOut) :
    (outputs.flatMap TxOut.encode).length = Suffix.total (fun o => o.encode.length) outputs := by
  rw [List.length_flatMap, Suffix.total]

theorem length_coinbaseBytes (scriptSig : Bytes) (outputs : List TxOut) :
    (coinbaseBytes scriptSig outputs).length =
      49 + (encodeCompactSize scriptSig.length).length + scriptSig.length +
        (encodeCompactSize outputs.length).length + Suffix.total (fun o => o.encode.length) outputs := by
  have houtpoint : nullOutpoint.length = 36 := by decide
  simp only [coinbaseBytes, List.length_append, length_leBytes, houtpoint, length_flatMap_encode_eq,
    length_encodeCompactSize_small (show 1 < 253 by decide)]
  omega

/-- What an output takes, of what it is counted as: its length takes two bytes more at most. -/
theorem TxOut.length_encode_le {o : TxOut} (hlength : o.scriptPubkey.length < 2 ^ 16) :
    o.encode.length ≤ o.scriptPubkey.length + MIN_OUTPUT_SIZE + 2 := by
  have hcount : (encodeCompactSize o.scriptPubkey.length).length ≤ 3 :=
    (length_encodeCompactSize_mono (Nat.le_pred_of_lt hlength)).trans (by decide)
  rw [length_encode, MIN_OUTPUT_SIZE]
  omega

/-- Outputs within a section take an eleventh for every ninth they are counted as. -/
theorem total_encode_le {outputs : List TxOut}
    (hcost : Suffix.total (fun o => o.scriptPubkey.length + MIN_OUTPUT_SIZE) outputs ≤ MAX_COINBASE_SECTION_LEN) :
    9 * Suffix.total (fun o => o.encode.length) outputs ≤
      11 * Suffix.total (fun o => o.scriptPubkey.length + MIN_OUTPUT_SIZE) outputs := by
  induction outputs with
  | nil => exact Nat.zero_le _
  | cons o outputs ih =>
      rw [Suffix.total_cons, MIN_OUTPUT_SIZE, VALUE_SIZE, MAX_COINBASE_SECTION_LEN] at *
      have hencode := TxOut.length_encode_le (show o.scriptPubkey.length < 2 ^ 16 by omega)
      rw [MIN_OUTPUT_SIZE, VALUE_SIZE] at hencode
      have ih := ih (by omega)
      rw [Suffix.total_cons]
      omega

theorem total_encode_small {outputs : List TxOut} (hsmall : ∀ o ∈ outputs, o.scriptPubkey.length < 253) :
    Suffix.total (fun o => o.encode.length) outputs =
      Suffix.total (fun o => o.scriptPubkey.length + MIN_OUTPUT_SIZE) outputs :=
  congrArg List.sum (List.map_congr_left fun o ho => TxOut.length_encode_small (hsmall o ho))

/-! ### The budget -/

namespace CoinbaseSpec

variable {p : CoinbaseSpec} {extranonce : Bytes}

theorem length_allOutputs (included : List TxOut) (paid : Nat) :
    (p.allOutputs included paid extranonce).length =
      (p.extranonceOutputs extranonce).length + included.length + 1 + p.commitmentOutputs.length := by
  rw [allOutputs, List.length_append, List.length_append, List.length_cons]
  omega

theorem length_extranonceOutputs_le : (p.extranonceOutputs extranonce).length ≤ 1 := by
  rw [extranonceOutputs]
  split
  · exact Nat.zero_le _
  · exact le_rfl

theorem length_commitmentOutputs_le : p.commitmentOutputs.length ≤ 1 := by
  rw [length_commitmentOutputs]
  exact Bool.toNat_le _

/-- What the last output takes with outputs before it is no more than without. -/
theorem length_lastOutput_le (hpayout : 3 ≤ p.poolPayoutScript.length) (paid : Nat) :
    (p.lastOutput paid).encode.length ≤ (p.lastOutput 0).encode.length := by
  refine TxOut.length_encode_mono ?_
  rw [lastOutput, lastOutput]
  split
  · rw [if_pos (by omega)]
  · split
    · exact hpayout
    · exact le_rfl

/-- The assembled coinbase with outputs, against the one without. -/
theorem length_assemble_le (hpayout : 3 ≤ p.poolPayoutScript.length) {included : List TxOut}
    (hsmall : ∀ o ∈ included, o.scriptPubkey.length < 253) (hincluded : included.length ≤ p.outputs.length)
    (paid : Nat) (hlength : extranonce.length = EXTRANONCE_SIZE) :
    ((p.assemble included paid).section.assemble extranonce).length ≤
      p.fixedBytes + Suffix.total (fun o => o.scriptPubkey.length + MIN_OUTPUT_SIZE) included := by
  have hfixed : p.fixedBytes = ((p.assemble [] 0).section.assemble extranonce).length +
      ((encodeCompactSize (p.outputs.length + 3)).length - (encodeCompactSize 3).length) := by
    rw [fixedBytes, CoinbaseSection.assemble, List.length_append, List.length_append, hlength]
  have hextranonce : (p.extranonceOutputs extranonce).length ≤ 1 := length_extranonceOutputs_le
  have hcommitment := length_commitmentOutputs_le (p := p)
  have htotal : Suffix.total (fun o => o.encode.length) (p.allOutputs included paid extranonce) ≤
      Suffix.total (fun o => o.encode.length) (p.allOutputs [] 0 extranonce) +
        Suffix.total (fun o => o.encode.length) included := by
    have hlast := p.length_lastOutput_le hpayout paid
    simp only [allOutputs, Suffix.total_append, Suffix.total_cons, List.nil_append]
    omega
  have hcount := length_encodeCompactSize_mono (show (p.allOutputs included paid extranonce).length ≤
    p.outputs.length + 3 by rw [length_allOutputs]; omega)
  have hcount0 : (encodeCompactSize (p.allOutputs [] 0 extranonce).length).length = 1 := by
    refine length_encodeCompactSize_small ?_
    rw [length_allOutputs, List.length_nil]
    omega
  have hthree := length_encodeCompactSize_small (show 3 < 253 by decide)
  have hgrowth := length_encodeCompactSize_mono (Nat.le_add_left 3 p.outputs.length)
  rw [hfixed, assemble_eq _ _ hlength, assemble_eq _ _ hlength, length_coinbaseBytes, length_coinbaseBytes,
    hcount0, ← total_encode_small hsmall]
  omega

/-- The scripts are shorter than 253 bytes, whose lengths take one byte. -/
structure ScriptsSmall (p : CoinbaseSpec) : Prop where
  scriptSig_lt : p.scriptSig.length < 253
  payoutScript_lt : p.poolPayoutScript.length < 253
  commitment_lt : ∀ wc, p.witnessCommitment = some wc → wc.length < 253
  outputs_lt : ∀ o ∈ p.outputs, o.scriptPubkey.length < 253

/-- The coinbase without dictated outputs is far from the largest section. -/
theorem length_assemble_nil_le (hsmall : p.ScriptsSmall) (hlength : extranonce.length = EXTRANONCE_SIZE) :
    ((p.assemble [] 0).section.assemble extranonce).length ≤ MAX_COINBASE_SECTION_LEN := by
  have hscript := length_fullScript_le (p := p) hlength
  have hscriptSig := hsmall.scriptSig_lt
  have hextranonce : (p.extranonceOutputs extranonce).length ≤ 1 := length_extranonceOutputs_le
  have hcommitment := length_commitmentOutputs_le (p := p)
  have hcount : (p.allOutputs [] 0 extranonce).length ≤ 3 := by
    rw [length_allOutputs, List.length_nil]
    omega
  have hcountSize := length_encodeCompactSize_small (hcount.trans_lt (by decide))
  have hpush : EXTRANONCE_PUSH_SIZE = 15 := rfl
  have hscriptSize := length_encodeCompactSize_mono (show (p.fullScript extranonce).length ≤ 267 by omega)
  have hsize : (encodeCompactSize 267).length = 3 := rfl
  have hscripts : ∀ o ∈ p.allOutputs [] 0 extranonce, o.scriptPubkey.length < 253 := by
    intro o ho
    rw [allOutputs, List.mem_append, List.nil_append, List.mem_cons] at ho
    obtain ho | rfl | ho := ho
    · rw [extranonceOutputs] at ho
      split at ho
      · exact absurd ho List.not_mem_nil
      · obtain rfl := List.mem_singleton.mp ho
        rw [List.length_cons, length_extranoncePush hlength]
        decide
    · rw [lastOutput]
      split
      · exact hsmall.payoutScript_lt
      · show PRUNABLE_OP_RETURN.length < 253
        decide
    · rw [commitmentOutputs, Option.mem_toList, Option.map_eq_some_iff] at ho
      obtain ⟨wc, hwc, rfl⟩ := ho
      exact hsmall.commitment_lt wc hwc
  have htotal : Suffix.total (fun o => o.encode.length) (p.allOutputs [] 0 extranonce) ≤
      (p.allOutputs [] 0 extranonce).length * 261 := by
    rw [total_encode_small hscripts]
    refine (List.sum_le_card_nsmul _ 261 ?_).trans_eq (by rw [List.length_map]; rfl)
    intro size hsize
    obtain ⟨o, ho, rfl⟩ := List.mem_map.mp hsize
    have hscript := hscripts o ho
    rw [MIN_OUTPUT_SIZE, VALUE_SIZE]
    omega
  rw [assemble_eq _ _ hlength, length_coinbaseBytes, MAX_COINBASE_SECTION_LEN]
  omega

/-- The coinbase built is within what the wire's lengths can say, however long the scripts of the outputs. -/
theorem length_build_lt (hscript : p.scriptSig.length < 253) (hpayout : p.poolPayoutScript.length < 253)
    (hcommitment : ∀ wc, p.witnessCommitment = some wc → wc.length < 253)
    (hlength : extranonce.length = EXTRANONCE_SIZE) :
    (p.build.1.section.assemble extranonce).length < 2 ^ 16 := by
  have hfullScript := length_fullScript_le (p := p) hlength
  have hpush : EXTRANONCE_PUSH_SIZE = 15 := rfl
  have hscriptSize := length_encodeCompactSize_mono (show (p.fullScript extranonce).length ≤ 267 by omega)
  have hsize : (encodeCompactSize 267).length = 3 := rfl
  have hincluded := p.length_build_le
  have hextranonce : (p.extranonceOutputs extranonce).length ≤ 1 := length_extranonceOutputs_le
  have hcommitments := length_commitmentOutputs_le (p := p)
  have hcount : (p.allOutputs p.build.2 (Suffix.total TxOut.value p.build.2) extranonce).length = _ :=
    length_allOutputs p.build.2 (Suffix.total TxOut.value p.build.2)
  rw [MIN_OUTPUT_SIZE, VALUE_SIZE, MAX_COINBASE_SECTION_LEN] at hincluded
  have hcountSize := length_encodeCompactSize_mono (show (p.allOutputs p.build.2
    (Suffix.total TxOut.value p.build.2) extranonce).length ≤ 65535 by omega)
  have hcountBytes : (encodeCompactSize 65535).length = 3 := rfl
  have hcost := p.build_cost_le.trans ((outputBudget_le _ _).trans (Nat.sub_le _ _))
  have htaken := total_encode_le hcost
  rw [MAX_COINBASE_SECTION_LEN] at hcost
  have hsmall {o : TxOut} (hscript : o.scriptPubkey.length < 253) : o.encode.length ≤ 261 := by
    rw [TxOut.length_encode_small hscript, MIN_OUTPUT_SIZE, VALUE_SIZE]
    omega
  have hlast : (p.lastOutput (Suffix.total TxOut.value p.build.2)).encode.length ≤ 261 := by
    refine hsmall ?_
    rw [lastOutput]
    split
    · exact hpayout
    · show PRUNABLE_OP_RETURN.length < 253
      decide
  have hone {o : TxOut} (hscript : o.scriptPubkey.length < 253) :
      Suffix.total (fun o => o.encode.length) [o] ≤ 261 := by
    rw [Suffix.total_cons, Suffix.total_nil]
    exact hsmall hscript
  have hextranonceBytes : Suffix.total (fun o => o.encode.length) (p.extranonceOutputs extranonce) ≤ 261 := by
    rw [extranonceOutputs]
    split
    · exact Nat.zero_le _
    · refine hone ?_
      rw [List.length_cons, length_extranoncePush hlength]
      decide
  have hcommitmentBytes : Suffix.total (fun o => o.encode.length) p.commitmentOutputs ≤ 261 := by
    rw [commitmentOutputs]
    cases hwc : p.witnessCommitment with
    | none => exact Nat.zero_le _
    | some wc => exact hone (hcommitment wc hwc)
  have htotal : Suffix.total (fun o => o.encode.length) (p.allOutputs p.build.2
      (Suffix.total TxOut.value p.build.2) extranonce) ≤ 783 + Suffix.total (fun o => o.encode.length) p.build.2 := by
    rw [allOutputs, Suffix.total_append, Suffix.total_append, Suffix.total_cons]
    omega
  rw [build_eq, assemble_eq _ _ hlength, length_coinbaseBytes]
  omega

theorem typed_of_scriptsSmall (hsmall : p.ScriptsSmall) (hvalue : p.coinbaseValue ≤ U64_MAX) : p.Typed := by
  refine ⟨hvalue, hsmall.scriptSig_lt.trans (by decide), hsmall.payoutScript_lt.trans (by decide), ?_⟩
  exact fun wc hwc => (hsmall.commitment_lt wc hwc).trans (by decide)

/-- **The coinbase built fits the block when the one without dictated outputs does**: the limits of the
template and of a section, the sigops and the value. -/
theorem built_coinbase_fits (hpayout : 3 ≤ p.poolPayoutScript.length) (hsmall : p.ScriptsSmall)
    (hvalue : p.coinbaseValue ≤ U64_MAX) (hsum : Suffix.total TxOut.value p.outputs ≤ U64_MAX)
    (hlength : extranonce.length = EXTRANONCE_SIZE)
    (hempty : p.limits.Admits ({ p with outputs := [] }.build.1.section.assemble extranonce)) :
    p.limits.Admits (p.build.1.section.assemble extranonce) ∧
      (p.build.1.section.assemble extranonce).length ≤ MAX_COINBASE_SECTION_LEN ∧
      Suffix.total (fun o => outputSigopCost o.scriptPubkey) p.build.2 ≤ p.sigopBudget ∧
      Suffix.total TxOut.value p.build.2 ≤ p.coinbaseValue := by
  have hpaid := p.build_paid_le (typed_of_scriptsSmall hsmall hvalue) (.inr hsum)
  obtain ⟨flags, hpicks⟩ := p.build_picks
  have hsublist := hpicks.sublist
  rw [List.map_id] at hsublist
  have htx := length_assemble_le hpayout (fun o ho => hsmall.outputs_lt o (hsublist.subset ho))
    hsublist.length_le (Suffix.total TxOut.value p.build.2) hlength
  have hcost := p.build_cost_le
  change p.limits.Admits ((p.assemble [] 0).section.assemble extranonce) at hempty
  cases hincluded : p.build.2 with
  | nil =>
      have hbuild : p.build.1 = p.assemble [] 0 := by
        rw [build_eq, hincluded]
        rfl
      rw [hbuild]
      exact ⟨hempty, length_assemble_nil_le hsmall hlength, Nat.zero_le _, Nat.zero_le _⟩
  | cons o included =>
      have hbuild : p.build.1 = p.assemble p.build.2 (Suffix.total TxOut.value p.build.2) := by
        rw [build_eq]
      rw [← hincluded, hbuild]
      have hpos : 0 < Suffix.total (fun o => o.scriptPubkey.length + MIN_OUTPUT_SIZE) p.build.2 := by
        rw [hincluded, Suffix.total_cons, MIN_OUTPUT_SIZE]
        omega
      generalize (p.assemble p.build.2 (Suffix.total TxOut.value p.build.2)).section.assemble extranonce = tx
        at htx ⊢
      rw [outputBudget] at hcost
      simp only [WITNESS_SCALE_FACTOR] at hcost
      refine ⟨⟨?_, ?_⟩, ?_, p.build_sigops_le, hpaid⟩
      · omega
      · rw [WITNESS_SCALE_FACTOR]
        omega
      · omega

/-- A coinbase of 50 with two dictated outputs. -/
def twoOutputsSpec : CoinbaseSpec where
  coinbaseId := 1
  scriptSig := [0x51]
  targetByteIndexInScript := 0
  enPrefix := 0
  witnessCommitment := none
  poolPayoutScript := [0x51, 0x51, 0x51]
  coinbaseValue := 50
  outputs := [⟨20, [0x51]⟩, ⟨30, [0x52]⟩]
  limits := ⟨4000, 4000, 0, 0⟩
  sigopBudget := 0

theorem twoOutputsSpec_scriptsSmall : twoOutputsSpec.ScriptsSmall := by
  refine ⟨by decide, by decide, ?_, by decide⟩
  intro wc hwc
  cases hwc

theorem built_coinbase_fits_two_outputs :
    twoOutputsSpec.limits.Admits
        (twoOutputsSpec.build.1.section.assemble (List.replicate EXTRANONCE_SIZE 0)) ∧
      Suffix.total TxOut.value twoOutputsSpec.build.2 ≤ 50 := by
  have hempty : twoOutputsSpec.limits.Admits
      ({ twoOutputsSpec with outputs := [] }.build.1.section.assemble (List.replicate EXTRANONCE_SIZE 0)) :=
    ⟨by decide +kernel, by decide +kernel⟩
  obtain ⟨hadmits, -, -, hpaid⟩ := @built_coinbase_fits twoOutputsSpec (List.replicate EXTRANONCE_SIZE 0)
    (by decide) twoOutputsSpec_scriptsSmall (by decide) (by decide) (List.length_replicate ..) hempty
  exact ⟨hadmits, hpaid⟩

end CoinbaseSpec
end Ratum
