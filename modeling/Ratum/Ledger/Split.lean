import Ratum.Base.Suffix
import Ratum.Core.Word
import Mathlib.Data.List.Sort

/-!
# Dividing a block's value over the window

`prime/src/ledger/split.rs`: the operator fee, and the amounts the weights give, subject to a minimum and
an output count. A split never totals more than the value it divides.
-/

namespace Ratum

def BASIS_POINTS_PER_UNIT : Nat := 10000

def MAX_FEE_BPS : Nat := 10000

theorem one_percent_le : 100 ≤ MAX_FEE_BPS := by decide

def MAX_COINBASER_OUTPUTS : Nat := 1024

def MIN_PAYOUT : Nat := 546

structure Payout where
  identity : String
  sats : Nat
  deriving DecidableEq

/-- `--fee-bps`, as the settings admit it. -/
structure SplitPolicy where
  feeBps : Nat
  feeBps_le : feeBps ≤ MAX_FEE_BPS

def basisPointsOf (work bps : Nat) : Nat := satMul128 work bps / BASIS_POINTS_PER_UNIT

namespace SplitPolicy

def feeOn (policy : SplitPolicy) (value : Nat) : Nat := asU64 (basisPointsOf value policy.feeBps)

def minersShare (policy : SplitPolicy) (value : Nat) : Nat := value - policy.feeOn value

theorem feeOn_le (policy : SplitPolicy) (value : Nat) : policy.feeOn value ≤ value := by
  calc policy.feeOn value ≤ basisPointsOf value policy.feeBps := Nat.mod_le _ _
    _ ≤ value := satMul128_div_le policy.feeBps_le (by decide)

end SplitPolicy

/-- Most work first; identities with equal work in name order. -/
def mostWorkFirst (a b : String × Nat) : Bool := b.2 < a.2 || (a.2 = b.2 && a.1 ≤ b.1)

/-- Each identity with work in the window and its weight. -/
structure Weights where
  entries : List (String × Nat)

namespace Weights

def work (entries : List (String × Nat)) : Nat := Suffix.total Prod.snd entries

/-- The loop that drops the identities paid under the minimum, from the least work; the entries are
given least work first. -/
def dropUnder (value minPayout : Nat) : List (String × Nat) → Nat → List (String × Nat) × Nat
  | [], work => ([], work)
  | (identity, w) :: larger, work =>
      if work = 0 then ([], work)
      else if minPayout ≤ satMul128 value w / work then ((identity, w) :: larger, work)
      else dropUnder value minPayout larger (work - w)

/-- The loop that takes each identity's part of what is left. -/
def amounts : List (String × Nat) → Nat → Nat → List Payout
  | [], _, _ => []
  | (identity, w) :: rest, work, left =>
      if work = 0 then []
      else
        let amount := asU64 (satMul128 left w / work)
        let out := amounts rest (work - w) (left - amount)
        if amount = 0 then out else { identity, sats := amount } :: out

def splitWith (weights : Weights) (value minPayout maxOutputs : Nat) : List Payout :=
  let total := work weights.entries
  if total = 0 || value = 0 || maxOutputs = 0 then []
  else
    let entries := (weights.entries.mergeSort mostWorkFirst).take maxOutputs
    let (kept, left) := dropUnder value minPayout entries.reverse (work entries)
    amounts kept.reverse left value

/-- The split of `value`, already less the operator fee. -/
def split (weights : Weights) (value : Nat) : List Payout :=
  weights.splitWith value MIN_PAYOUT MAX_COINBASER_OUTPUTS

/-! ### A split is of the value -/

theorem work_reverse (entries : List (String × Nat)) : work entries.reverse = work entries :=
  Suffix.total_reverse _ _

theorem dropUnder_work (value minPayout : Nat) {entries : List (String × Nat)} {left : Nat}
    (h : left = work entries) :
    (dropUnder value minPayout entries left).1 = [] ∨
      (dropUnder value minPayout entries left).2 =
        work (dropUnder value minPayout entries left).1 := by
  induction entries generalizing left with
  | nil => exact .inl rfl
  | cons entry larger ih =>
      obtain ⟨identity, w⟩ := entry
      rw [dropUnder]
      split
      · exact .inl rfl
      · split
        · exact .inr h
        · refine ih ?_
          rw [h, work, work, Suffix.total_cons]
          omega

/-- Each amount is taken from what is left, and none is zero. -/
theorem amounts_spec {entries : List (String × Nat)} {left : Nat} (hleft : left ≤ U64_MAX) :
    Suffix.total Payout.sats (amounts entries (work entries) left) ≤ left ∧
      ∀ payout ∈ amounts entries (work entries) left, 0 < payout.sats := by
  induction entries generalizing left with
  | nil => exact ⟨Nat.zero_le _, fun payout hpayout => absurd hpayout List.not_mem_nil⟩
  | cons entry rest ih =>
      obtain ⟨identity, w⟩ := entry
      have hwork : work ((identity, w) :: rest) = w + work rest := Suffix.total_cons _ _ _
      rw [amounts, hwork, Nat.add_sub_cancel_left]
      split
      · exact ⟨Nat.zero_le _, fun payout hpayout => absurd hpayout List.not_mem_nil⟩
      · next hpos =>
        have hamount : satMul128 left w / (w + work rest) ≤ left :=
          satMul128_div_le (Nat.le_add_right _ _) (Nat.pos_of_ne_zero hpos)
        rw [asU64_of_le (hamount.trans hleft)]
        obtain ⟨htotal, hsats⟩ := ih ((Nat.sub_le left (satMul128 left w / (w + work rest))).trans hleft)
        dsimp only
        split
        · exact ⟨htotal.trans (Nat.sub_le _ _), hsats⟩
        · next hne =>
          refine ⟨?_, fun payout hpayout => ?_⟩
          · rw [Suffix.total_cons]
            simp only
            omega
          · rcases List.mem_cons.mp hpayout with rfl | hrest
            · exact Nat.pos_of_ne_zero hne
            · exact hsats payout hrest

/-- **A split totals at most the value it divides**, and each identity of it is paid something. -/
theorem split_spec (weights : Weights) {value : Nat} (hvalue : value ≤ U64_MAX) :
    Suffix.total Payout.sats (weights.split value) ≤ value ∧
      ∀ payout ∈ weights.split value, 0 < payout.sats := by
  unfold split splitWith
  dsimp only
  split
  · exact ⟨Nat.zero_le _, fun payout hpayout => absurd hpayout List.not_mem_nil⟩
  · set entries := (weights.entries.mergeSort mostWorkFirst).take MAX_COINBASER_OUTPUTS
    have hstart : work entries = work entries.reverse := (work_reverse _).symm
    rcases dropUnder_work value MIN_PAYOUT hstart with hnone | hkept
    · rw [hnone]
      exact ⟨Nat.zero_le _, fun payout hpayout => absurd hpayout List.not_mem_nil⟩
    · generalize dropUnder value MIN_PAYOUT entries.reverse (work entries) = kept at hkept ⊢
      rw [hkept, ← work_reverse]
      exact amounts_spec hvalue

theorem length_dropUnder_le (value minPayout : Nat) (entries : List (String × Nat)) (work : Nat) :
    (dropUnder value minPayout entries work).1.length ≤ entries.length := by
  induction entries generalizing work with
  | nil => exact le_rfl
  | cons entry larger ih =>
      obtain ⟨identity, w⟩ := entry
      rw [dropUnder]
      split
      · exact Nat.zero_le _
      · split
        · exact le_rfl
        · exact (ih _).trans (Nat.le_succ _)

theorem length_amounts_le (entries : List (String × Nat)) (work left : Nat) :
    (amounts entries work left).length ≤ entries.length := by
  induction entries generalizing work left with
  | nil => exact le_rfl
  | cons entry rest ih =>
      obtain ⟨identity, w⟩ := entry
      rw [amounts]
      split
      · exact Nat.zero_le _
      · have hrest := ih (work - w) (left - asU64 (satMul128 left w / work))
        dsimp only
        split
        · exact hrest.trans (Nat.le_succ _)
        · exact Nat.succ_le_succ hrest

/-- A split has no more outputs than a coinbaser response carries. -/
theorem length_split_le (weights : Weights) (value : Nat) :
    (weights.split value).length ≤ MAX_COINBASER_OUTPUTS := by
  unfold split splitWith
  dsimp only
  split
  · exact Nat.zero_le _
  · refine (length_amounts_le _ _ _).trans ?_
    rw [List.length_reverse]
    refine (length_dropUnder_le _ _ _ _).trans ?_
    rw [List.length_reverse]
    exact List.length_take_le _ _

end Weights
end Ratum
