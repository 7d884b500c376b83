import Ratum.Base.Picks
import Ratum.Bitcoin.CoinbaseTx
import Ratum.Datum.Coinbase

/-!
# What a built coinbase is

The transaction `build` assembles, whichever way the extranonce is placed, and the dictated outputs it takes.
-/

namespace Ratum

/-! ### The transaction -/

namespace CoinbaseSpec

variable (p : CoinbaseSpec)

/-- The push the extranonce is spliced into. -/
def extranoncePush (extranonce : Bytes) : Bytes := EXTRANONCE_PUSH_OPCODE :: (p.enPrefixBytes ++ extranonce)

def fullScript (extranonce : Bytes) : Bytes :=
  p.scriptSig ++ if p.inScript then p.extranoncePush extranonce else []

/-- The output that pays what the included ones leave; one that pays nothing when they leave nothing. -/
def lastOutput (paid : Nat) : TxOut :=
  if paid < p.coinbaseValue then ⟨p.coinbaseValue - paid, p.poolPayoutScript⟩ else ⟨0, PRUNABLE_OP_RETURN⟩

/-- The output that carries the extranonce when the scriptSig has no room for it. -/
def extranonceOutputs (extranonce : Bytes) : List TxOut :=
  if p.inScript then [] else [⟨0, OP_RETURN :: p.extranoncePush extranonce⟩]

def commitmentOutputs : List TxOut := (p.witnessCommitment.map (TxOut.mk 0)).toList

def allOutputs (included : List TxOut) (paid : Nat) (extranonce : Bytes) : List TxOut :=
  p.extranonceOutputs extranonce ++ (included ++ p.lastOutput paid :: p.commitmentOutputs)

variable {p} {extranonce : Bytes}

theorem length_extranoncePush (hlength : extranonce.length = EXTRANONCE_SIZE) :
    (p.extranoncePush extranonce).length = EXTRANONCE_PUSH_SIZE := by
  rw [extranoncePush, List.length_cons, List.length_append, enPrefixBytes, List.length_reverse,
    length_leBytes, hlength]
  rfl

theorem length_commitmentOutputs :
    p.commitmentOutputs.length = p.witnessCommitment.isSome.toNat := by
  rw [commitmentOutputs]
  cases p.witnessCommitment <;> rfl

theorem tail_eq (included : List TxOut) (paid : Nat) :
    p.tail included paid =
      (included ++ p.lastOutput paid :: p.commitmentOutputs).flatMap TxOut.encode ++ leBytes 4 0 := by
  have hlast : (if paid < p.coinbaseValue then encodeOutput (p.coinbaseValue - paid) p.poolPayoutScript
      else encodeOutput 0 PRUNABLE_OP_RETURN) = (p.lastOutput paid).encode := by
    rw [lastOutput]
    split <;> rfl
  have hcommitment : p.witnessCommitment.elim [] (encodeOutput 0) =
      p.commitmentOutputs.flatMap TxOut.encode := by
    rw [commitmentOutputs]
    cases p.witnessCommitment with
    | none => rfl
    | some wc => exact (List.append_nil _).symm
  rw [tail, hlast, hcommitment, List.flatMap_append, List.flatMap_cons, List.flatMap_def,
    List.append_assoc, List.append_assoc, List.append_assoc, List.append_assoc]
  rfl

/-- **The assembled coinbase is a coinbase transaction**, with the extranonce in its scriptSig or in an
output that pays nothing. -/
theorem assemble_eq (included : List TxOut) (paid : Nat) (hlength : extranonce.length = EXTRANONCE_SIZE) :
    (p.assemble included paid).section.assemble extranonce =
      coinbaseBytes (p.fullScript extranonce) (p.allOutputs included paid extranonce) := by
  have hpush := length_extranoncePush (p := p) hlength
  have hcount : (included ++ p.lastOutput paid :: p.commitmentOutputs).length =
      included.length + 1 + p.witnessCommitment.isSome.toNat := by
    rw [List.length_append, List.length_cons, length_commitmentOutputs]
    omega
  rw [assemble, CoinbaseSection.assemble, coinbaseBytes, fullScript, allOutputs, extranonceOutputs, head]
  cases hplace : p.inScript with
  | true =>
      simp only [if_true, List.nil_append, List.length_append, hpush, tail_eq]
      rw [List.length_append] at hcount
      rw [hcount, extranoncePush]
      simp only [List.append_assoc, List.cons_append]
      rfl
  | false =>
      simp only [Bool.false_eq_true, if_false, List.append_nil, List.cons_append, List.nil_append,
        List.flatMap_cons, List.length_cons, tail_eq, hcount]
      rw [TxOut.encode, encodeOutput, List.length_cons, hpush, extranoncePush]
      simp only [List.append_assoc, List.cons_append, List.nil_append]
      rfl

end CoinbaseSpec

/-! ### The outputs taken -/

/-- The output fits what is left of the size, the sigops and the value. -/
structure TxOut.Fits (o : TxOut) (coinbaseValue remaining sigopsLeft paid : Nat) : Prop where
  value_le : satAdd64 paid o.value ≤ coinbaseValue
  cost_le : o.scriptPubkey.length + MIN_OUTPUT_SIZE ≤ remaining
  sigops_le : outputSigopCost o.scriptPubkey ≤ sigopsLeft

section Select

variable {coinbaseValue remaining sigopsLeft paid : Nat} {o : TxOut} {outputs : List TxOut}

/-- What the loop does with an output: it ends, goes on without it, or takes it. -/
theorem selectFrom_cons (coinbaseValue remaining sigopsLeft paid : Nat) (o : TxOut) (outputs : List TxOut) :
    selectFrom coinbaseValue (o :: outputs) remaining sigopsLeft paid = ([], paid) ∨
      ¬ o.Fits coinbaseValue remaining sigopsLeft paid ∧
        selectFrom coinbaseValue (o :: outputs) remaining sigopsLeft paid =
          selectFrom coinbaseValue outputs remaining sigopsLeft paid ∨
      o.Fits coinbaseValue remaining sigopsLeft paid ∧ ∃ rest, rest =
        selectFrom coinbaseValue outputs (remaining - (o.scriptPubkey.length + MIN_OUTPUT_SIZE))
          (sigopsLeft - outputSigopCost o.scriptPubkey) (paid + o.value) ∧
        selectFrom coinbaseValue (o :: outputs) remaining sigopsLeft paid = (o :: rest.1, rest.2) := by
  rw [selectFrom]
  split
  · exact .inl rfl
  · refine .inr ?_
    dsimp only
    split
    · rename_i hout
      simp only [Bool.or_eq_true, decide_eq_true_eq] at hout
      refine .inl ⟨fun hfits => ?_, rfl⟩
      obtain ⟨hvalue, hcost, hsigops⟩ := hfits
      omega
    · rename_i hin
      simp only [Bool.or_eq_true, decide_eq_true_eq, not_or, not_lt] at hin
      exact .inr ⟨⟨hin.1.1, hin.1.2, hin.2⟩, _, rfl, rfl⟩

theorem satAdd64_mono {a a' b : Nat} (hle : a ≤ a') : satAdd64 a b ≤ satAdd64 a' b := by
  unfold satAdd64
  omega

/-- What is taken fits what was left before. -/
theorem fits_of_mem_selectFrom (htaken : o ∈ (selectFrom coinbaseValue outputs remaining sigopsLeft paid).1) :
    o.Fits coinbaseValue remaining sigopsLeft paid := by
  induction outputs generalizing remaining sigopsLeft paid with
  | nil => exact absurd htaken List.not_mem_nil
  | cons head outputs ih =>
      obtain hend | ⟨-, hskip⟩ | ⟨hfits, rest, hrest, htake⟩ :=
        selectFrom_cons coinbaseValue remaining sigopsLeft paid head outputs
      · rw [hend] at htaken
        exact absurd htaken List.not_mem_nil
      · rw [hskip] at htaken
        exact ih htaken
      · rw [htake] at htaken
        obtain rfl | htaken := List.mem_cons.mp htaken
        · exact hfits
        · rw [hrest] at htaken
          obtain ⟨hvalue, hcost, hsigops⟩ := ih htaken
          exact ⟨(satAdd64_mono (Nat.le_add_right _ _)).trans hvalue, hcost.trans (Nat.sub_le _ _),
            hsigops.trans (Nat.sub_le _ _)⟩

/-- **An output skipped is none of those taken later**: what is left only shrinks. -/
theorem selectFrom_picks (coinbaseValue remaining sigopsLeft paid : Nat) (outputs : List TxOut) :
    ∃ flags, Picks id outputs (selectFrom coinbaseValue outputs remaining sigopsLeft paid).1 flags := by
  induction outputs generalizing remaining sigopsLeft paid with
  | nil => exact ⟨[], .nil⟩
  | cons o outputs ih =>
      obtain hend | ⟨hout, hskip⟩ | ⟨-, rest, hrest, htake⟩ :=
        selectFrom_cons coinbaseValue remaining sigopsLeft paid o outputs
      · rw [hend]
        exact ⟨_, .none _⟩
      · obtain ⟨flags, hpicks⟩ := ih remaining sigopsLeft paid
        rw [hskip]
        exact ⟨_, .skip (fun htaken => hout (fits_of_mem_selectFrom htaken)) hpicks⟩
      · rw [htake, hrest]
        obtain ⟨flags, hpicks⟩ := ih _ _ _
        exact ⟨_, .take hpicks⟩

/-- The value paid, and what the outputs taken use of the size and the sigops. -/
theorem selectFrom_totals (coinbaseValue remaining sigopsLeft paid : Nat) (outputs : List TxOut) :
    (selectFrom coinbaseValue outputs remaining sigopsLeft paid).2 =
        paid + Suffix.total TxOut.value (selectFrom coinbaseValue outputs remaining sigopsLeft paid).1 ∧
      Suffix.total (fun o => o.scriptPubkey.length + MIN_OUTPUT_SIZE)
        (selectFrom coinbaseValue outputs remaining sigopsLeft paid).1 ≤ remaining ∧
      Suffix.total (fun o => outputSigopCost o.scriptPubkey)
        (selectFrom coinbaseValue outputs remaining sigopsLeft paid).1 ≤ sigopsLeft := by
  induction outputs generalizing remaining sigopsLeft paid with
  | nil => exact ⟨rfl, Nat.zero_le _, Nat.zero_le _⟩
  | cons o outputs ih =>
      obtain hend | ⟨-, hskip⟩ | ⟨hfits, rest, hrest, htake⟩ :=
        selectFrom_cons coinbaseValue remaining sigopsLeft paid o outputs
      · rw [hend]
        exact ⟨rfl, Nat.zero_le _, Nat.zero_le _⟩
      · rw [hskip]
        exact ih remaining sigopsLeft paid
      · obtain ⟨hpaid, hcost, hsigops⟩ := ih (remaining - (o.scriptPubkey.length + MIN_OUTPUT_SIZE))
          (sigopsLeft - outputSigopCost o.scriptPubkey) (paid + o.value)
        rw [htake, hrest]
        simp only [Suffix.total_cons]
        have hroom := hfits.cost_le
        have hsigopsLeft := hfits.sigops_le
        refine ⟨by omega, by omega, by omega⟩

/-- The outputs taken pay no more than the coinbase's value, unless their values overflow. -/
theorem selectFrom_paid_le (hpaid : paid ≤ coinbaseValue)
    (hfits : coinbaseValue < U64_MAX ∨ paid + Suffix.total TxOut.value outputs ≤ coinbaseValue) :
    (selectFrom coinbaseValue outputs remaining sigopsLeft paid).2 ≤ coinbaseValue := by
  induction outputs generalizing remaining sigopsLeft paid with
  | nil => exact hpaid
  | cons o outputs ih =>
      rw [Suffix.total_cons] at hfits
      obtain hend | ⟨-, hskip⟩ | ⟨hone, rest, hrest, htake⟩ :=
        selectFrom_cons coinbaseValue remaining sigopsLeft paid o outputs
      · rw [hend]
        exact hpaid
      · rw [hskip]
        exact ih hpaid (by omega)
      · have hvalue := hone.value_le
        rw [satAdd64] at hvalue
        rw [htake, hrest]
        exact ih (by omega) (by omega)

end Select

/-! ### The coinbase built -/

/-- The lengths and values are those of the source's types. -/
structure CoinbaseSpec.Typed (p : CoinbaseSpec) : Prop where
  value_le : p.coinbaseValue ≤ U64_MAX
  scriptSig_lt : p.scriptSig.length < 2 ^ 63
  payoutScript_lt : p.poolPayoutScript.length < 2 ^ 63
  commitment_lt : ∀ wc, p.witnessCommitment = some wc → wc.length < 2 ^ 63

namespace CoinbaseSpec

variable {p : CoinbaseSpec}

/-- The output paying the pool's script, when the included ones leave it anything. -/
def poolOutputs (p : CoinbaseSpec) (paid : Nat) : List TxOut :=
  if paid < p.coinbaseValue then [⟨p.coinbaseValue - paid, p.poolPayoutScript⟩] else []

theorem build_eq (p : CoinbaseSpec) :
    p.build = (p.assemble p.build.2 (Suffix.total TxOut.value p.build.2), p.build.2) := by
  have htotals := (selectFrom_totals p.coinbaseValue (outputBudget p.fixedBytes p.limits) p.sigopBudget 0
    p.outputs).1
  rw [Nat.zero_add] at htotals
  exact congrArg (fun paid => (p.assemble _ paid, _)) htotals

theorem build_picks (p : CoinbaseSpec) : ∃ flags, Picks id p.outputs p.build.2 flags :=
  selectFrom_picks _ _ _ _ _

theorem mem_outputs_of_mem_build {o : TxOut} (ho : o ∈ p.build.2) : o ∈ p.outputs := by
  obtain ⟨flags, hpicks⟩ := p.build_picks
  have hsublist := hpicks.sublist
  rw [List.map_id] at hsublist
  exact hsublist.subset ho

theorem build_paid_le (htyped : p.Typed)
    (hfits : p.coinbaseValue < U64_MAX ∨ Suffix.total TxOut.value p.outputs ≤ U64_MAX) :
    Suffix.total TxOut.value p.build.2 ≤ p.coinbaseValue := by
  have hvalue := htyped.value_le
  have hfits' : p.coinbaseValue < U64_MAX ∨ 0 + Suffix.total TxOut.value p.outputs ≤ p.coinbaseValue := by
    omega
  obtain ⟨htotals, -⟩ := selectFrom_totals p.coinbaseValue (outputBudget p.fixedBytes p.limits)
    p.sigopBudget 0 p.outputs
  rw [Nat.zero_add] at htotals
  have hpaid : (selectFrom p.coinbaseValue p.outputs (outputBudget p.fixedBytes p.limits) p.sigopBudget 0).2 ≤
      p.coinbaseValue := selectFrom_paid_le p.coinbaseValue.zero_le hfits'
  rw [htotals] at hpaid
  exact hpaid

theorem outputBudget_le (fixedBytes : Nat) (limits : BlockLimits) :
    outputBudget fixedBytes limits ≤ MAX_COINBASE_SECTION_LEN - fixedBytes := by
  rw [outputBudget]
  exact Nat.sub_le_sub_right (min_le_right _ _) _

/-- What the outputs built in cost is within the budget. -/
theorem build_cost_le (p : CoinbaseSpec) :
    Suffix.total (fun o => o.scriptPubkey.length + MIN_OUTPUT_SIZE) p.build.2 ≤
      outputBudget p.fixedBytes p.limits := (selectFrom_totals _ _ _ _ _).2.1

theorem build_sigops_le (p : CoinbaseSpec) :
    Suffix.total (fun o => outputSigopCost o.scriptPubkey) p.build.2 ≤ p.sigopBudget :=
  (selectFrom_totals _ _ _ _ _).2.2

theorem build_writable (htyped : p.Typed)
    (hvalues : p.coinbaseValue < U64_MAX ∨ ∀ o ∈ p.outputs, o.value ≤ U64_MAX) (extranonce : Bytes)
    (hlength : extranonce.length = EXTRANONCE_SIZE) :
    ∀ o ∈ p.allOutputs p.build.2 (Suffix.total TxOut.value p.build.2) extranonce, o.Writable := by
  have hvalue := htyped.value_le
  have hpayout := htyped.payoutScript_lt
  have hmax : U64_MAX < 2 ^ 64 := by decide
  have hzero : 0 < 2 ^ 64 := by decide
  intro o ho
  rw [allOutputs, List.mem_append, List.mem_append, List.mem_cons] at ho
  obtain ho | ho | rfl | ho := ho
  · rw [extranonceOutputs] at ho
    split at ho
    · exact absurd ho List.not_mem_nil
    · obtain rfl := List.mem_singleton.mp ho
      refine ⟨hzero, ?_⟩
      rw [List.length_cons, length_extranoncePush hlength]
      decide
  · have htaken := (fits_of_mem_selectFrom ho).value_le
    rw [satAdd64, Nat.zero_add] at htaken
    have hmem := mem_outputs_of_mem_build ho
    have hpaid : o.value ≤ U64_MAX := by
      obtain hsmall | hvalues := hvalues
      · omega
      · exact hvalues o hmem
    have hcost := ((Marks.le_total_of_mem (fun o => o.scriptPubkey.length + MIN_OUTPUT_SIZE) ho).trans
      p.build_cost_le).trans ((outputBudget_le _ _).trans (Nat.sub_le _ _))
    have hsection : MAX_COINBASE_SECTION_LEN < 2 ^ 64 := by decide
    exact ⟨by omega, by omega⟩
  · rw [lastOutput]
    split
    · exact ⟨show p.coinbaseValue - _ < _ by omega, by show p.poolPayoutScript.length < _; omega⟩
    · exact ⟨hzero, by decide⟩
  · rw [commitmentOutputs, Option.mem_toList, Option.map_eq_some_iff] at ho
    obtain ⟨wc, hwc, rfl⟩ := ho
    have hcommitment := htyped.commitment_lt wc hwc
    exact ⟨hzero, by show wc.length < _; omega⟩

theorem length_fullScript_le (hlength : extranonce.length = EXTRANONCE_SIZE) :
    (p.fullScript extranonce).length ≤ p.scriptSig.length + EXTRANONCE_PUSH_SIZE := by
  rw [fullScript, List.length_append]
  split
  · rw [length_extranoncePush hlength]
  · exact Nat.add_le_add_left (Nat.zero_le _) _

theorem length_build_le (p : CoinbaseSpec) :
    p.build.2.length * MIN_OUTPUT_SIZE ≤ MAX_COINBASE_SECTION_LEN := by
  have hcost := p.build_cost_le.trans ((outputBudget_le _ _).trans (Nat.sub_le _ _))
  refine le_trans ?_ hcost
  generalize p.build.2 = outputs
  induction outputs with
  | nil => exact Nat.zero_le _
  | cons o outputs ih =>
      rw [List.length_cons, Suffix.total_cons, Nat.succ_mul]
      omega

/-- **The coinbase built parses**, whatever the extranonce. -/
theorem parseCoinbase_build (htyped : p.Typed)
    (hvalues : p.coinbaseValue < U64_MAX ∨ ∀ o ∈ p.outputs, o.value ≤ U64_MAX)
    (hlength : extranonce.length = EXTRANONCE_SIZE) :
    parseCoinbase (p.build.1.section.assemble extranonce) =
      .ok
        { version := 1
          scriptSigOffset := 41 + (encodeCompactSize (p.fullScript extranonce).length).length
          scriptSig := p.fullScript extranonce
          sequence := 0xffffffff
          outputs := p.allOutputs p.build.2 (Suffix.total TxOut.value p.build.2) extranonce
          lockTime := 0
          hasWitness := false } := by
  have hscript := length_fullScript_le (p := p) hlength
  have hscriptSig := htyped.scriptSig_lt
  have hpush : EXTRANONCE_PUSH_SIZE = 15 := rfl
  have hcount : (p.allOutputs p.build.2 (Suffix.total TxOut.value p.build.2) extranonce).length < 2 ^ 64 := by
    have hincluded := p.length_build_le
    have hcommitment := length_commitmentOutputs (p := p)
    have hbool := Bool.toNat_le p.witnessCommitment.isSome
    have hextranonce : (p.extranonceOutputs extranonce).length ≤ 1 := by
      rw [extranonceOutputs]
      split
      · exact Nat.zero_le _
      · exact le_rfl
    rw [MIN_OUTPUT_SIZE, VALUE_SIZE, MAX_COINBASE_SECTION_LEN] at hincluded
    rw [allOutputs, List.length_append, List.length_append, List.length_cons, hcommitment]
    omega
  rw [build_eq, assemble_eq _ _ hlength]
  exact parseCoinbase_coinbaseBytes (by omega) hcount (p.build_writable htyped hvalues extranonce hlength)

end CoinbaseSpec
end Ratum
