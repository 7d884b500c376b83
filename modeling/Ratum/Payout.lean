import Ratum.Base.Marks
import Ratum.Datum.Coinbase
import Ratum.Ledger.Basic

/-!
# The split as outputs

`prime/src/payout.rs`: each identity's address decoded to the script that pays it. An identity that no
address decodes is left to the pool. The decoding of addresses of the node's chain is a parameter.
-/

namespace Ratum

structure DictatedOutput where
  payout : Payout
  scriptPubkey : Bytes
  deriving DecidableEq

def DictatedOutput.output (d : DictatedOutput) : TxOut := ⟨d.payout.sats, d.scriptPubkey⟩

/-- `address_script` on the chain the node reported. -/
abbrev AddressScript := String → Option Bytes

/-- The identities a script pays, with it. -/
def outputsFor (addressScript : AddressScript) (split : List Payout) : List DictatedOutput :=
  split.filterMap fun payout =>
    (addressScript payout.identity).map fun script => { payout, scriptPubkey := script }

variable {F : Type}

def dictatedOutputs (addressScript : AddressScript) (l : Ledger F) (value : Nat) :
    List DictatedOutput :=
  let (weights, value) := l.weightsFor value
  outputsFor addressScript (weights.split value)

/-- The outputs dictated for `value` and the coinbaser response carrying them. -/
def dictate (addressScript : AddressScript) (l : Ledger F) (value : Nat) (coinbaserId : UInt8) :
    List DictatedOutput × CoinbaserResponse :=
  let (weights, minersValue) := l.weightsFor value
  let dictated := outputsFor addressScript (weights.split minersValue)
  (dictated, { value, coinbaserId, outputs := dictated.map DictatedOutput.output })

theorem outputsFor_payouts (addressScript : AddressScript) (split : List Payout) :
    ((outputsFor addressScript split).map DictatedOutput.payout).Sublist split := by
  induction split with
  | nil => exact List.Sublist.refl _
  | cons payout split ih =>
      unfold outputsFor at ih ⊢
      rw [List.filterMap_cons]
      cases addressScript payout.identity with
      | none => exact ih.cons payout
      | some script => exact ih.cons_cons payout

/-- **What the pool dictates for a value is less than it by the operator fee at least**, and each
output pays something. -/
theorem dictatedOutputs_spec (addressScript : AddressScript) (l : Ledger F) (value : Nat)
    (hvalue : value ≤ U64_MAX) :
    Suffix.total (fun d => d.payout.sats) (dictatedOutputs addressScript l value) +
        l.splitPolicy.feeOn value ≤ value ∧
      ∀ d ∈ dictatedOutputs addressScript l value, 0 < d.payout.sats := by
  have hfee := l.splitPolicy.feeOn_le value
  have hshare : l.splitPolicy.minersShare value ≤ U64_MAX := (Nat.sub_le _ _).trans hvalue
  obtain ⟨htotal, hpos⟩ := l.weights.split_spec hshare
  have hsub := outputsFor_payouts addressScript
    (l.weights.split (l.splitPolicy.minersShare value))
  constructor
  · have hle : Suffix.total (fun d => d.payout.sats) (dictatedOutputs addressScript l value) ≤
        Suffix.total Payout.sats (l.weights.split (l.splitPolicy.minersShare value)) := by
      calc Suffix.total (fun d => d.payout.sats) (dictatedOutputs addressScript l value)
          = Suffix.total Payout.sats
              ((dictatedOutputs addressScript l value).map DictatedOutput.payout) := by
            simp only [Suffix.total, List.map_map]
            rfl
        _ ≤ _ := Marks.total_sublist Payout.sats hsub
    rw [SplitPolicy.minersShare] at htotal hle
    omega
  · intro d hd
    exact hpos d.payout (hsub.subset (List.mem_map_of_mem hd))

end Ratum
