import Ratum.Datum.Share
import Ratum.Datum.ShareResponse
import Ratum.Verify.Splits
import Mathlib.Data.List.ReduceOption

/-!
# Checking what a coinbase pays

`check_outputs` of `prime/src/verify/rebuild.rs`: each nonzero output of the coinbase is the next
dictated output that equals it, or pays the pool's script. `Matching.Of` is what the loop over the
outputs keeps.
-/

namespace Ratum

structure Payments where
  paidToSplit : Nat
  paidToPool : Nat
  unpaidOutputs : List Payout
  deriving DecidableEq

/-- The loop's variables. -/
structure Matching where
  next : Nat
  paid : List Bool
  paidToSplit : Nat
  paidToPool : Nat

def Matching.start (dictated : List DictatedOutput) : Matching :=
  ⟨0, List.replicate dictated.length false, 0, 0⟩

def DictatedOutput.matches (out : TxOut) (d : DictatedOutput) : Bool :=
  d.payout.sats = out.value && d.scriptPubkey = out.scriptPubkey

def matchOutput (payoutScript : Bytes) (dictated : List DictatedOutput) (m : Matching) (out : TxOut) :
    Except RejectReason Matching :=
  if out.value = 0 then .ok m
  else
    match (dictated.drop m.next).findIdx? (DictatedOutput.matches out) with
    | some pos =>
        .ok { m with
          paidToSplit := satAdd64 m.paidToSplit out.value
          paid := m.paid.set (m.next + pos) true
          next := m.next + (pos + 1) }
    | none =>
        if out.scriptPubkey = payoutScript then
          .ok { m with paidToPool := satAdd64 m.paidToPool out.value }
        else .error .badCoinbaseOutputs

/-- The dictated outputs the coinbase left out, other than those paying the pool's script. -/
def unpaid (payoutScript : Bytes) (dictated : List DictatedOutput) (paid : List Bool) : List Payout :=
  ((dictated.zip paid).filter fun (d, paid) => !paid && d.scriptPubkey ≠ payoutScript).map
    fun (d, _) => d.payout

def checkOutputs (payoutScript : Bytes) (splits : DictatedSplits) (job : JobSection) (tx : CoinbaseTx)
    (s : PowSubmit) : Except RejectReason Payments := do
  let recorded := if s.subsidyOnly then none else splits.get job.coinbaserId
  if recorded.any fun d => d.prevHash ≠ job.prevHash || d.value ≠ job.coinbaseValue then
    throw .badCoinbaserId
  let dictated := recorded.elim [] DictatedSplit.outputs
  let m ← tx.outputs.foldlM (matchOutput payoutScript dictated) (.start dictated)
  if !s.subsidyOnly && satAdd64 m.paidToSplit m.paidToPool ≠ job.coinbaseValue then
    throw .badCoinbase
  pure ⟨m.paidToSplit, m.paidToPool, unpaid payoutScript dictated m.paid⟩

/-! ### What the outputs are used as -/

/-- An output is the dictated one at an index, or pays the pool's script. -/
def Covers (payoutScript : Bytes) (dictated : List DictatedOutput) (out : TxOut) :
    Option Nat → Prop
  | some i => dictated[i]?.map DictatedOutput.output = some out
  | none => out.scriptPubkey = payoutScript

/-- The outputs of a coinbase that pay something. -/
def nonzero (outs : List TxOut) : List TxOut := outs.filter fun out => out.value ≠ 0

/-- What each nonzero output is used as, with the loop's variables after them. -/
structure Matching.Of (payoutScript : Bytes) (dictated : List DictatedOutput) (outs : List TxOut)
    (used : List (Option Nat)) (m : Matching) : Prop where
  covered : List.Forall₂ (Covers payoutScript dictated) (nonzero outs) used
  increasing : used.reduceOption.Pairwise (· < ·)
  below : ∀ i ∈ used.reduceOption, i < m.next
  paid : m.paid = (List.range dictated.length).map fun i => decide (i ∈ used.reduceOption)
  amounts : ∃ pool,
    m.paidToSplit = min (Suffix.total (fun d => d.payout.sats) (Marks.flagged true dictated m.paid))
      U64_MAX ∧
    m.paidToPool = min pool U64_MAX ∧
    Suffix.total (fun d => d.payout.sats) (Marks.flagged true dictated m.paid) + pool =
      Suffix.total TxOut.value outs

variable {payoutScript : Bytes} {dictated : List DictatedOutput} {outs : List TxOut}
  {used : List (Option Nat)} {m m' : Matching} {out : TxOut}

theorem Matching.Of.start : Matching.Of payoutScript dictated [] [] (.start dictated) where
  covered := .nil
  increasing := .nil
  below := fun i hi => absurd hi List.not_mem_nil
  paid := by
    have hnone : (fun i : Nat => decide (i ∈ ([] : List (Option Nat)).reduceOption)) =
        fun _ => false := by
      funext i
      rw [List.reduceOption_nil]
      rfl
    rw [hnone, Matching.start, List.map_const', List.length_range]
  amounts := ⟨0, by simp [Matching.start, Marks.flagged_replicate]⟩

theorem nonzero_append_zero {outs : List TxOut} (h : out.value = 0) :
    nonzero (outs ++ [out]) = nonzero outs := by
  simp [nonzero, h]

theorem nonzero_append (h : out.value ≠ 0) : nonzero (outs ++ [out]) = nonzero outs ++ [out] := by
  simp [nonzero, h]

theorem total_outs_append :
    Suffix.total TxOut.value (outs ++ [out]) = Suffix.total TxOut.value outs + out.value := by
  rw [Suffix.total_append, Suffix.total_cons, Suffix.total_nil]
  omega

theorem Covers.append {used' : List (Option Nat)} (use : Option Nat)
    (h : List.Forall₂ (Covers payoutScript dictated) outs used)
    (huse : Covers payoutScript dictated out use) (hused : used' = used ++ [use]) :
    List.Forall₂ (Covers payoutScript dictated) (outs ++ [out]) used' := by
  subst hused
  exact List.rel_append h (.cons huse .nil)

theorem min_satAdd64 (a b c : Nat) (h : a = min b U64_MAX) :
    satAdd64 a c = min (b + c) U64_MAX := by
  unfold satAdd64
  omega

/-- The next dictated output equal to one of the coinbase, marked. -/
theorem Matching.Of.split (h : Matching.Of payoutScript dictated outs used m)
    (hvalue : out.value ≠ 0) {pos : Nat}
    (hpos : (dictated.drop m.next).findIdx? (DictatedOutput.matches out) = some pos) :
    Matching.Of payoutScript dictated (outs ++ [out]) (used ++ [some (m.next + pos)])
      { m with
        paidToSplit := satAdd64 m.paidToSplit out.value
        paid := m.paid.set (m.next + pos) true
        next := m.next + (pos + 1) } := by
  obtain ⟨hlt, hmatches, -⟩ := List.findIdx?_eq_some_iff_getElem.mp hpos
  rw [List.length_drop] at hlt
  have hin : m.next + pos < dictated.length := by omega
  rw [List.getElem_drop] at hmatches
  set d := dictated[m.next + pos] with hd
  have hentry : dictated[m.next + pos]? = some d := by rw [List.getElem?_eq_getElem hin]
  obtain ⟨hsats, hscript⟩ : d.payout.sats = out.value ∧ d.scriptPubkey = out.scriptPubkey := by
    simpa [DictatedOutput.matches] using hmatches
  have hout : d.output = out := by
    rw [DictatedOutput.output, hsats, hscript]
  have hunused : m.next + pos ∉ used.reduceOption := fun hmem => by
    have := h.below _ hmem
    omega
  have hflag : m.paid[m.next + pos]? = some false := by
    rw [h.paid, List.getElem?_map, List.getElem?_range hin]
    simp [hunused]
  have hset := Marks.total_flagged_set (fun d : DictatedOutput => d.payout.sats) hentry hflag
  have hreduce : (used ++ [some (m.next + pos)]).reduceOption =
      used.reduceOption ++ [m.next + pos] := by
    rw [List.reduceOption_append, List.reduceOption_singleton, Option.toList_some]
  obtain ⟨pool, hsplit, hpool, htotal⟩ := h.amounts
  refine ⟨?_, ?_, ?_, ?_, pool, ?_, hpool, ?_⟩
  · rw [nonzero_append hvalue]
    refine Covers.append (some (m.next + pos)) h.covered ?_ rfl
    rw [Covers, hentry, Option.map_some, hout]
  · rw [hreduce, List.pairwise_append]
    refine ⟨h.increasing, List.pairwise_singleton _ _, fun i hi j hj => ?_⟩
    rw [List.mem_singleton.mp hj]
    have := h.below i hi
    omega
  · intro i hi
    rw [hreduce, List.mem_append, List.mem_singleton] at hi
    show i < m.next + (pos + 1)
    rcases hi with hi | rfl
    · have := h.below i hi
      omega
    · omega
  · rw [hreduce, h.paid]
    apply List.ext_getElem
    · simp
    · intro i hi hi'
      by_cases heq : m.next + pos = i
      · simp [heq]
      · have hne : ¬ i = m.next + pos := fun h => heq h.symm
        simp [heq, hne]
  · rw [hset, hsats]
    exact min_satAdd64 _ _ _ hsplit
  · rw [hset, total_outs_append, hsats]
    omega

/-- An output paying the pool's script. -/
theorem Matching.Of.pool (h : Matching.Of payoutScript dictated outs used m) (hvalue : out.value ≠ 0)
    (hscript : out.scriptPubkey = payoutScript) :
    Matching.Of payoutScript dictated (outs ++ [out]) (used ++ [none])
      { m with paidToPool := satAdd64 m.paidToPool out.value } := by
  have hreduce : (used ++ [none]).reduceOption = used.reduceOption := by
    rw [List.reduceOption_append, List.reduceOption_singleton, Option.toList_none, List.append_nil]
  obtain ⟨pool, hsplit, hpool, htotal⟩ := h.amounts
  refine ⟨?_, hreduce ▸ h.increasing, hreduce ▸ h.below, hreduce ▸ h.paid, pool + out.value, hsplit,
    min_satAdd64 _ _ _ hpool, ?_⟩
  · rw [nonzero_append hvalue]
    exact Covers.append none h.covered hscript rfl
  · rw [total_outs_append, ← htotal]
    exact (Nat.add_assoc _ _ _).symm

theorem matchOutput_of (h : Matching.Of payoutScript dictated outs used m)
    (hmatch : matchOutput payoutScript dictated m out = .ok m') :
    ∃ used', Matching.Of payoutScript dictated (outs ++ [out]) used' m' := by
  unfold matchOutput at hmatch
  split at hmatch
  · next hzero =>
    cases hmatch
    refine ⟨used, (nonzero_append_zero hzero).symm ▸ h.covered, h.increasing, h.below, h.paid, ?_⟩
    simpa [total_outs_append, hzero] using h.amounts
  · next hvalue =>
    split at hmatch
    · next pos hpos =>
      cases hmatch
      exact ⟨_, h.split hvalue hpos⟩
    · split at hmatch
      · next hscript =>
        cases hmatch
        exact ⟨_, h.pool hvalue hscript⟩
      · cases hmatch

/-- The loop over the outputs. -/
theorem foldlM_matchOutput_of {rest : List TxOut} (h : Matching.Of payoutScript dictated outs used m)
    (hfold : rest.foldlM (matchOutput payoutScript dictated) m = .ok m') :
    ∃ used', Matching.Of payoutScript dictated (outs ++ rest) used' m' := by
  induction rest generalizing outs used m with
  | nil =>
      cases hfold
      exact ⟨used, by simpa using h⟩
  | cons out rest ih =>
      rw [List.foldlM_cons] at hfold
      cases hone : matchOutput payoutScript dictated m out with
      | error reason => simp [hone, bind, Except.bind] at hfold
      | ok next =>
          obtain ⟨used', h'⟩ := matchOutput_of h hone
          simp only [hone, bind, Except.bind] at hfold
          obtain ⟨used'', h''⟩ := ih h' hfold
          exact ⟨used'', by simpa using h''⟩

/-- The unpaid outputs are those no output of the coinbase was used as. -/
theorem Matching.Of.unpaid (h : Matching.Of payoutScript dictated outs used m) :
    unpaid payoutScript dictated m.paid =
      (dictated.zipIdx.filter fun (d, i) =>
        i ∉ used.reduceOption && d.scriptPubkey ≠ payoutScript).map fun (d, _) => d.payout := by
  rw [Ratum.unpaid, h.paid, List.zipIdx_eq_zip_range', ← List.range_eq_range',
    List.zip_map_right, List.filter_map,
    List.map_map]
  congr 1
  apply List.filter_congr
  rintro ⟨d, i⟩ -
  simp

/-- What is unpaid weighs no more than what is not marked. -/
theorem total_unpaid_le (payoutScript : Bytes) (dictated : List DictatedOutput) (paid : List Bool) :
    Suffix.total Payout.sats (Ratum.unpaid payoutScript dictated paid) ≤
      Suffix.total (fun d => d.payout.sats) (Marks.flagged false dictated paid) := by
  have hsub : ((dictated.zip paid).filter fun (d, paid) =>
        !paid && d.scriptPubkey ≠ payoutScript).Sublist
      ((dictated.zip paid).filter fun entry => entry.2 == false) := by
    refine List.monotone_filter_right _ fun entry hentry => ?_
    simp only [Bool.and_eq_true, Bool.not_eq_true'] at hentry
    simp [hentry.1]
  calc Suffix.total Payout.sats (Ratum.unpaid payoutScript dictated paid)
      = Suffix.total (fun entry => entry.1.payout.sats) ((dictated.zip paid).filter
          fun (d, paid) => !paid && d.scriptPubkey ≠ payoutScript) := by
        simp only [Suffix.total, Ratum.unpaid, List.map_map]
        rfl
    _ ≤ Suffix.total (fun entry => entry.1.payout.sats)
          ((dictated.zip paid).filter fun entry => entry.2 == false) :=
        Marks.total_sublist _ hsub
    _ = Suffix.total (fun d => d.payout.sats) (Marks.flagged false dictated paid) := by
        simp only [Suffix.total, Marks.flagged, List.map_map]
        rfl

/-! ### The split named -/

theorem foldlM_matchOutput_error {outs : List TxOut} {m : Matching} {reason : RejectReason}
    (hfold : outs.foldlM (matchOutput payoutScript dictated) m = .error reason) :
    reason = .badCoinbaseOutputs := by
  induction outs generalizing m with
  | nil => cases hfold
  | cons out outs ih =>
      rw [List.foldlM_cons] at hfold
      cases hmatch : matchOutput payoutScript dictated m out with
      | ok m' =>
          rw [hmatch] at hfold
          exact ih hfold
      | error e =>
          rw [hmatch] at hfold
          obtain rfl : e = reason := Except.error.inj hfold
          rw [matchOutput] at hmatch
          split at hmatch
          · cases hmatch
          · split at hmatch
            · cases hmatch
            · split at hmatch
              · cases hmatch
              · exact (Except.error.inj hmatch).symm

/-- A job whose value and previous block are those of the split it names is not refused for it. -/
theorem checkOutputs_ne_badCoinbaserId {splits : DictatedSplits} {job : JobSection} {d : DictatedSplit}
    (hget : splits.get job.coinbaserId = some d) (hvalue : d.value = job.coinbaseValue)
    (hprev : d.prevHash = job.prevHash) (tx : CoinbaseTx) (s : PowSubmit) :
    checkOutputs payoutScript splits job tx s ≠ .error .badCoinbaserId := by
  intro hcheck
  have hmatches : ((if s.subsidyOnly then none else splits.get job.coinbaserId).any fun d =>
      d.prevHash ≠ job.prevHash || d.value ≠ job.coinbaseValue) = false := by
    split
    · rfl
    · rw [hget, Option.any_some, hvalue, hprev]
      simp
  rw [checkOutputs] at hcheck
  dsimp only at hcheck
  rw [hmatches] at hcheck
  simp only [Bool.false_eq_true, if_false] at hcheck
  cases hfold : tx.outputs.foldlM (matchOutput payoutScript _) (.start _) with
  | error reason =>
      rw [hfold] at hcheck
      obtain rfl : reason = _ := Except.error.inj hcheck
      cases foldlM_matchOutput_error hfold
  | ok m =>
      rw [hfold] at hcheck
      change (if _ then _ else _) = _ at hcheck
      split at hcheck <;> cases hcheck

/-- A job naming a split of another value or previous block is refused. -/
theorem checkOutputs_badCoinbaserId {splits : DictatedSplits} {job : JobSection} {d : DictatedSplit}
    (hget : splits.get job.coinbaserId = some d)
    (hother : d.prevHash ≠ job.prevHash ∨ d.value ≠ job.coinbaseValue) (tx : CoinbaseTx)
    {s : PowSubmit} (hpooled : s.subsidyOnly = false) :
    checkOutputs payoutScript splits job tx s = .error .badCoinbaserId := by
  have hdiffers : ((if s.subsidyOnly then none else splits.get job.coinbaserId).any fun d =>
      d.prevHash ≠ job.prevHash || d.value ≠ job.coinbaseValue) = true := by
    rw [hpooled, if_neg Bool.false_ne_true, hget, Option.any_some]
    simpa using hother
  rw [checkOutputs]
  dsimp only
  rw [hdiffers]
  rfl
end Ratum
