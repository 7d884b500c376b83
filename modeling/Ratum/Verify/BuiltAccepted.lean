import Ratum.Datum.BuiltCoinbase
import Ratum.Verify.StaleVerdict

/-!
# A built coinbase is accepted as built

What `parse_coinbase` and `check_outputs` make of the transaction `build` assembles, when the split the
gateway was dictated is the one the pool recorded.
-/

namespace Ratum

variable {payoutScript : Bytes} {dictated : List DictatedOutput}

theorem nonzero_cons_of_eq {out : TxOut} (hzero : out.value = 0) (outs : List TxOut) :
    nonzero (out :: outs) = nonzero outs := List.filter_cons_of_neg (by simp [hzero])

theorem nonzero_cons_of_ne {out : TxOut} (hvalue : out.value ≠ 0) (outs : List TxOut) :
    nonzero (out :: outs) = out :: nonzero outs := List.filter_cons_of_pos (by simp [hvalue])

/-- An output that pays nothing is not looked at. -/
theorem foldlM_matchOutput_nonzero (outs : List TxOut) (m : Matching) :
    outs.foldlM (matchOutput payoutScript dictated) m =
      (nonzero outs).foldlM (matchOutput payoutScript dictated) m := by
  induction outs generalizing m with
  | nil => rfl
  | cons out outs ih =>
      by_cases hzero : out.value = 0
      · have hskip : matchOutput payoutScript dictated m out = .ok m := if_pos hzero
        rw [nonzero_cons_of_eq hzero, ← ih, List.foldlM_cons, hskip]
        rfl
      · rw [nonzero_cons_of_ne hzero, List.foldlM_cons, List.foldlM_cons]
        exact congrArg (matchOutput payoutScript dictated m out >>= ·) (funext ih)

theorem matches_iff {out : TxOut} {d : DictatedOutput} :
    DictatedOutput.matches out d = true ↔ d.output = out := by
  obtain ⟨value, script⟩ := out
  simp [DictatedOutput.matches, DictatedOutput.output]

/-- **The outputs taken of the dictated ones are found where they were taken**: `pre` is behind the loop,
`pend` was skipped since, and the search has reached `entries`, of which `taken` were taken. -/
theorem foldlM_matchOutput_picks {pre pend entries back : List DictatedOutput} {taken : List TxOut}
    {flags marks : List Bool} {toSplit toPool : Nat}
    (hpicks : Picks DictatedOutput.output entries taken flags) (hlast : flags.getLast? ≠ some false)
    (hpend : ∀ d ∈ pend, d.output ∉ taken) (hreached : flags = [] → pend = [])
    (hmarks : marks.length = pre.length) (hvalue : ∀ out ∈ taken, out.value ≠ 0)
    (htotal : toSplit + Suffix.total TxOut.value taken ≤ U64_MAX) :
    taken.foldlM (matchOutput payoutScript (pre ++ (pend ++ (entries ++ back))))
        { next := pre.length
          paid := marks ++ List.replicate (pend.length + (entries.length + back.length)) false
          paidToSplit := toSplit
          paidToPool := toPool } =
      .ok
        { next := (pre ++ (pend ++ entries)).length
          paid := marks ++ (List.replicate pend.length false ++ (flags ++ List.replicate back.length false))
          paidToSplit := toSplit + Suffix.total TxOut.value taken
          paidToPool := toPool } := by
  induction hpicks generalizing pre pend marks toSplit with
  | nil =>
      rw [hreached rfl]
      simp [pure, Except.pure]
  | @skip d entries taken flags hnew hrest ih =>
      have hflags : flags ≠ [] := by
        rintro rfl
        exact hlast rfl
      have hlast' : flags.getLast? ≠ some false := by
        obtain ⟨flag, flags', rfl⟩ := List.exists_cons_of_ne_nil hflags
        rwa [List.getLast?_cons_cons] at hlast
      have hpend' : ∀ d' ∈ pend ++ [d], d'.output ∉ taken := by
        intro d' hd'
        obtain hd' | hd' := List.mem_append.mp hd'
        · exact hpend d' hd'
        · rw [List.mem_singleton.mp hd']
          exact hnew
      have hlists (back : List DictatedOutput) :
          pend ++ [d] ++ (entries ++ back) = pend ++ (d :: entries ++ back) := by simp
      have hends : pend ++ [d] ++ entries = pend ++ d :: entries := by simp
      have hcount : (pend ++ [d]).length + (entries.length + back.length) =
          pend.length + ((d :: entries).length + back.length) := by
        simp only [List.length_append, List.length_cons, List.length_nil]
        omega
      have hmarked (flags : List Bool) : List.replicate (pend ++ [d]).length false ++ flags =
          List.replicate pend.length false ++ false :: flags := by
        rw [List.length_append, List.length_singleton, List.replicate_succ', List.append_assoc]
        rfl
      have h := ih hlast' hpend' (fun hnil => absurd hnil hflags) hmarks hvalue htotal
      rw [hlists, hends, hcount, hmarked] at h
      exact h
  | @take d entries taken flags hrest ih =>
      have hvalueOut : d.output.value ≠ 0 := hvalue _ List.mem_cons_self
      rw [Suffix.total_cons] at htotal
      -- The search passes what is pending, none of which is the output, and stops at the entry.
      have hfind : ((pre ++ (pend ++ (d :: entries ++ back))).drop pre.length).findIdx?
          (DictatedOutput.matches d.output) = some pend.length := by
        rw [List.drop_left, List.findIdx?_append, List.findIdx?_eq_none_iff.mpr]
        · rw [List.cons_append, List.findIdx?_cons, matches_iff.mpr rfl]
          simp
        · intro d' hd'
          rw [Bool.eq_false_iff, ne_eq, matches_iff]
          exact fun heq => hpend d' hd' (heq ▸ List.mem_cons_self)
      have hmark : (marks ++ List.replicate (pend.length + ((d :: entries).length + back.length)) false).set
          (pre.length + pend.length) true =
            marks ++ List.replicate pend.length false ++ [true] ++
              List.replicate (([] : List DictatedOutput).length + (entries.length + back.length)) false := by
        have hcount : (d :: entries).length + back.length = entries.length + back.length + 1 := by
          rw [List.length_cons]
          omega
        rw [List.replicate_add, hcount, List.replicate_succ, ← List.append_assoc,
          List.set_append_right _ _ (by simp [hmarks])]
        simp [hmarks]
      have hone : matchOutput payoutScript (pre ++ (pend ++ (d :: entries ++ back)))
          { next := pre.length
            paid := marks ++ List.replicate (pend.length + ((d :: entries).length + back.length)) false
            paidToSplit := toSplit
            paidToPool := toPool } d.output =
          .ok
            { next := (pre ++ pend ++ [d]).length
              paid := marks ++ List.replicate pend.length false ++ [true] ++
                List.replicate (([] : List DictatedOutput).length + (entries.length + back.length)) false
              paidToSplit := toSplit + d.output.value
              paidToPool := toPool } := by
        have hnext : pre.length + (pend.length + 1) = (pre ++ pend ++ [d]).length := by
          simp only [List.length_append, List.length_singleton]
          omega
        have hsum : satAdd64 toSplit d.output.value = toSplit + d.output.value := by
          rw [satAdd64]
          omega
        rw [matchOutput, if_neg hvalueOut]
        dsimp only
        rw [hfind]
        dsimp only
        rw [hmark, hnext, hsum]
      have hlast' : flags.getLast? ≠ some false := by
        cases flags with
        | nil => exact (Option.some_ne_none false).symm
        | cons flag flags => rwa [List.getLast?_cons_cons] at hlast
      have hlists : pre ++ pend ++ [d] ++ ([] ++ (entries ++ back)) =
          pre ++ (pend ++ (d :: entries ++ back)) := by simp
      have hends : pre ++ pend ++ [d] ++ ([] ++ entries) = pre ++ (pend ++ d :: entries) := by simp
      have hmarked : marks ++ List.replicate pend.length false ++ [true] ++
          (List.replicate ([] : List DictatedOutput).length false ++
            (flags ++ List.replicate back.length false)) =
          marks ++ (List.replicate pend.length false ++
            (true :: flags ++ List.replicate back.length false)) := by
        simp
      have h := @ih (pre ++ pend ++ [d]) [] (marks ++ List.replicate pend.length false ++ [true])
        (toSplit + d.output.value) hlast' (fun d' hd' => absurd hd' List.not_mem_nil) (fun _ => rfl)
        (by simp only [List.length_append, List.length_replicate, List.length_singleton, hmarks])
        (fun out hout => hvalue out (List.mem_cons_of_mem _ hout)) (by omega)
      rw [hlists, hends, hmarked] at h
      rw [List.foldlM_cons, hone, Suffix.total_cons, ← Nat.add_assoc toSplit]
      exact h

/-! ### The transaction and its check -/

namespace CoinbaseSpec

variable {p : CoinbaseSpec}

theorem nonzero_allOutputs {included : List TxOut} {paid : Nat} (extranonce : Bytes)
    (hvalue : ∀ o ∈ included, o.value ≠ 0) :
    nonzero (p.allOutputs included paid extranonce) = included ++ p.poolOutputs paid := by
  have hextranonce : nonzero (p.extranonceOutputs extranonce) = [] := by
    rw [extranonceOutputs]
    split <;> rfl
  have hcommitment : nonzero p.commitmentOutputs = [] := by
    rw [commitmentOutputs]
    cases p.witnessCommitment <;> rfl
  have hincluded : nonzero included = included :=
    List.filter_eq_self.mpr fun o ho => decide_eq_true (hvalue o ho)
  have hlast : nonzero (p.lastOutput paid :: p.commitmentOutputs) = p.poolOutputs paid := by
    rw [lastOutput, poolOutputs]
    split
    · rename_i hleft
      rw [nonzero_cons_of_ne (show p.coinbaseValue - paid ≠ 0 by omega), hcommitment]
    · rw [nonzero_cons_of_eq rfl, hcommitment]
  rw [allOutputs, nonzero, List.filter_append, List.filter_append]
  change nonzero _ ++ (nonzero _ ++ nonzero _) = _
  rw [hextranonce, hincluded, hlast, List.nil_append]

end CoinbaseSpec

/-! ### What is left unpaid -/

theorem unpaid_eq (payoutScript : Bytes) (dictated : List DictatedOutput) (paid : List Bool) :
    unpaid payoutScript dictated paid =
      ((Marks.flagged false dictated paid).filter (·.scriptPubkey ≠ payoutScript)).map
        DictatedOutput.payout := by
  rw [unpaid, Marks.flagged, List.filter_map, List.map_map, List.filter_filter]
  refine congrArg (List.map _) (List.filter_congr ?_)
  rintro ⟨d, paid⟩ -
  cases paid <;> simp

/-- Marking an output that pays the pool's script leaves what is unpaid. -/
theorem unpaid_set {dictated : List DictatedOutput} {i : Nat} {d : DictatedOutput}
    (hentry : dictated[i]? = some d) (hpool : d.scriptPubkey = payoutScript) (paid : List Bool) :
    unpaid payoutScript dictated (paid.set i true) = unpaid payoutScript dictated paid := by
  induction dictated generalizing i paid with
  | nil => simp at hentry
  | cons head dictated ih =>
      cases paid with
      | nil => rfl
      | cons flag paid =>
          cases i with
          | zero =>
              obtain rfl := Option.some.inj hentry
              simp [unpaid, hpool]
          | succ i =>
              have h := ih hentry paid
              rw [unpaid_eq, unpaid_eq] at h ⊢
              rw [List.set_cons_succ, Marks.flagged_cons, Marks.flagged_cons]
              split
              · rw [List.filter_cons, List.filter_cons]
                split
                · exact congrArg (List.cons _) h
                · exact h
              · exact h

theorem flagged_append {front back : List DictatedOutput} {flags : List Bool}
    (hlength : flags.length = front.length) :
    Marks.flagged false (front ++ back) (flags ++ List.replicate back.length false) =
      Marks.flagged false front flags ++ back := by
  have hback : Marks.flagged false back (List.replicate back.length false) = back := by
    induction back with
    | nil => rfl
    | cons d back ih => rw [List.length_cons, List.replicate_succ, Marks.flagged_cons, if_pos rfl, ih]
  rw [Marks.flagged, List.zip_append hlength.symm, List.filter_append, List.map_append]
  exact congrArg (_ ++ ·) hback

/-! ### The output paying the pool -/

/-- What the output paying the pool's script is counted as paying to the split: its value when it equals a
dictated output after those taken. -/
def CoinbaseSpec.poolToSplit (p : CoinbaseSpec) (paid : Nat) (back : List DictatedOutput) : Nat :=
  if back.any fun d => d.output ∈ p.poolOutputs paid then p.coinbaseValue - paid else 0

theorem foldlM_poolOutputs {p : CoinbaseSpec} {front back : List DictatedOutput} {flags : List Bool}
    {paid : Nat} (hlength : flags.length = front.length) (hpaid : paid ≤ p.coinbaseValue)
    (hvalue : p.coinbaseValue ≤ U64_MAX) :
    ∃ m, (p.poolOutputs paid).foldlM (matchOutput p.poolPayoutScript (front ++ back))
        { next := front.length
          paid := flags ++ List.replicate back.length false
          paidToSplit := paid
          paidToPool := 0 } = .ok m ∧
      m.paidToSplit = paid + p.poolToSplit paid back ∧
      m.paidToPool = p.coinbaseValue - m.paidToSplit ∧
      unpaid p.poolPayoutScript (front ++ back) m.paid =
        ((Marks.flagged false front flags ++ back).filter (·.scriptPubkey ≠ p.poolPayoutScript)).map
          DictatedOutput.payout := by
  have hunpaid := unpaid_eq p.poolPayoutScript (front ++ back) (flags ++ List.replicate back.length false)
  rw [flagged_append hlength] at hunpaid
  by_cases hleft : paid < p.coinbaseValue
  · have hpool : p.poolOutputs paid = [⟨p.coinbaseValue - paid, p.poolPayoutScript⟩] := if_pos hleft
    have hnonzero : p.coinbaseValue - paid ≠ 0 := by omega
    have hsum : satAdd64 paid (p.coinbaseValue - paid) = p.coinbaseValue := by
      rw [satAdd64]
      omega
    rw [CoinbaseSpec.poolToSplit, hpool]
    simp only [List.mem_singleton, ← matches_iff, List.foldlM_cons, List.foldlM_nil, matchOutput,
      if_neg hnonzero, List.drop_left, Bool.decide_eq_true]
    cases hfind : back.findIdx? (DictatedOutput.matches ⟨p.coinbaseValue - paid, p.poolPayoutScript⟩) with
    | some pos =>
        obtain ⟨hpos, hmatches, -⟩ := List.findIdx?_eq_some_iff_getElem.mp hfind
        have hany : back.any (DictatedOutput.matches ⟨p.coinbaseValue - paid, p.poolPayoutScript⟩) = true :=
          List.any_eq_true.mpr ⟨_, List.getElem_mem hpos, hmatches⟩
        have hentry : (front ++ back)[front.length + pos]? = some back[pos] := by
          rw [List.getElem?_append_right (Nat.le_add_right _ _), Nat.add_sub_cancel_left,
            List.getElem?_eq_getElem hpos]
        have hscript : back[pos].scriptPubkey = p.poolPayoutScript :=
          congrArg TxOut.scriptPubkey (matches_iff.mp hmatches)
        refine ⟨_, rfl, ?_, ?_, (unpaid_set hentry hscript _).trans hunpaid⟩
        · rw [if_pos hany]
          show satAdd64 paid (p.coinbaseValue - paid) = _
          omega
        · show 0 = p.coinbaseValue - satAdd64 paid (p.coinbaseValue - paid)
          omega
    | none =>
        have hany :
            back.any (DictatedOutput.matches ⟨p.coinbaseValue - paid, p.poolPayoutScript⟩) = false := by
          rw [Bool.eq_false_iff, ne_eq, List.any_eq_true]
          rintro ⟨d, hd, hmatches⟩
          rw [List.findIdx?_eq_none_iff.mp hfind d hd] at hmatches
          cases hmatches
        refine ⟨_, rfl, ?_, ?_, hunpaid⟩
        · rw [hany]
          rfl
        · show satAdd64 0 (p.coinbaseValue - paid) = p.coinbaseValue - paid
          rw [satAdd64]
          omega
  · have hpool : p.poolOutputs paid = [] := if_neg hleft
    have hsplit : p.poolToSplit paid back = 0 := by
      rw [CoinbaseSpec.poolToSplit, hpool]
      simp
    rw [hpool, hsplit]
    exact ⟨_, rfl, rfl, by show 0 = p.coinbaseValue - paid; omega, hunpaid⟩

/-! ### The whole coinbase -/

/-- What the pool makes of a coinbase built: it parses, and its outputs that pay something are dictated ones
and at most one paying the pool's script, which pay the coinbase's value together and pass the check. -/
structure BuiltAs (p : CoinbaseSpec) (splits : DictatedSplits) (job : JobSection) (s : PowSubmit)
    (tx : CoinbaseTx) (payments : Payments) : Prop where
  parses : parseCoinbase (p.build.1.section.assemble (List.replicate EXTRANONCE_SIZE 0)) = .ok tx
  sublist : p.build.2.Sublist p.outputs
  outputs : ∃ pool, nonzero tx.outputs = p.build.2 ++ pool ∧ pool.length ≤ 1 ∧
    ∀ o ∈ pool, o.scriptPubkey = p.poolPayoutScript
  total_eq : Suffix.total TxOut.value (nonzero tx.outputs) = p.coinbaseValue
  checks : checkOutputs p.poolPayoutScript splits job tx s = .ok payments

/-- The check, of a coinbase whose outputs that pay something are matched. -/
theorem checkOutputs_eq_ok {d : DictatedSplit} {splits : DictatedSplits} {job : JobSection} {s : PowSubmit}
    {tx : CoinbaseTx} {m : Matching} (hget : splits.get job.coinbaserId = some d)
    (hprev : d.prevHash = job.prevHash) (hvalue : d.value = job.coinbaseValue)
    (hpooled : s.subsidyOnly = false)
    (hfold : (nonzero tx.outputs).foldlM (matchOutput payoutScript d.outputs) (.start d.outputs) = .ok m)
    (htotal : satAdd64 m.paidToSplit m.paidToPool = job.coinbaseValue) :
    checkOutputs payoutScript splits job tx s =
      .ok ⟨m.paidToSplit, m.paidToPool, unpaid payoutScript d.outputs m.paid⟩ := by
  have hmatches : ((some d).any fun d =>
      d.prevHash ≠ job.prevHash || d.value ≠ job.coinbaseValue) = false := by
    rw [Option.any_some, hprev, hvalue]
    simp
  rw [checkOutputs, hpooled, if_neg Bool.false_ne_true, hget]
  dsimp only
  rw [hmatches, if_neg Bool.false_ne_true]
  dsimp only [Option.elim]
  rw [foldlM_matchOutput_nonzero, hfold]
  dsimp only [bind, Except.bind]
  rw [htotal]
  simp [pure, Except.pure]

/-- The split of 40 of which the second output pays the pool's script. -/
def poolPaidSplit : DictatedSplit where
  outputs := [⟨⟨"a", 10⟩, [0x51]⟩, ⟨⟨"b", 30⟩, [OP_CHECKSIG]⟩]
  value := 40
  prevHash := Verifier.repeatedHash 0
  sentAt := 0

/-- A coinbase of 40 with room for the first output alone, by its sigops. -/
def noSigopsSpec : CoinbaseSpec where
  coinbaseId := 1
  scriptSig := [0x51]
  targetByteIndexInScript := 0
  enPrefix := 0
  witnessCommitment := none
  poolPayoutScript := [OP_CHECKSIG]
  coinbaseValue := 40
  outputs := poolPaidSplit.outputs.map DictatedOutput.output
  limits := ⟨4000000, 4000000, 0, 0⟩
  sigopBudget := 0

def poolPaidSplits : DictatedSplits := ⟨1, fun _ => some poolPaidSplit, [1]⟩

def poolPaidShare : PowSubmit := Verifier.plainShare (Verifier.repeatedHash 0)

def poolPaidJob : JobSection :=
  { Verifier.plainJob (Verifier.repeatedHash 0) with coinbaserId := 1, coinbaseValue := 40 }

theorem noSigopsSpec_typed : noSigopsSpec.Typed := by
  refine ⟨by decide, by decide, by decide, ?_⟩
  intro wc hwc
  cases hwc

theorem poolPaid_checked {tx : CoinbaseTx} {payments : Payments}
    (hbuilt : BuiltAs noSigopsSpec poolPaidSplits poolPaidJob poolPaidShare tx payments) :
    noSigopsSpec.build.2 = [⟨10, [0x51]⟩] ∧ payments = ⟨40, 0, []⟩ := by
  have hread : (parseCoinbase (noSigopsSpec.build.1.section.assemble
      (List.replicate EXTRANONCE_SIZE 0))).toOption.bind
        (fun tx => (checkOutputs noSigopsSpec.poolPayoutScript poolPaidSplits poolPaidJob tx
          poolPaidShare).toOption) = some ⟨40, 0, []⟩ := by decide +kernel
  rw [hbuilt.parses] at hread
  dsimp only [Except.toOption, Option.bind] at hread
  rw [hbuilt.checks] at hread
  exact ⟨by decide +kernel, Option.some.inj hread⟩

end Ratum
