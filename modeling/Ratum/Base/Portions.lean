import Mathlib.Algebra.BigOperators.Group.List.Basic
import Mathlib.Tactic.Ring

/-!
# Dividing an amount by weights

Each weight in turn takes its part of what is left, in proportion to the weights not served yet, rounded
down. Nothing is left over, and no part is under the weight's own proportion of the whole.
-/

/-- The parts of `left`, in the order of the weights. -/
def portions : List Nat → Nat → List Nat
  | [], _ => []
  | w :: weights, left =>
      let part := left * w / (w + weights.sum)
      part :: portions weights (left - part)

namespace Portions

@[simp] theorem length_portions (weights : List Nat) (left : Nat) :
    (portions weights left).length = weights.length := by
  induction weights generalizing left with
  | nil => rfl
  | cons w weights ih => rw [portions, List.length_cons, List.length_cons, ih]

theorem part_le (left w rest : Nat) : left * w / (w + rest) ≤ left := by
  apply Nat.div_le_of_le_mul
  calc left * w ≤ left * (w + rest) := Nat.mul_le_mul_left left (Nat.le_add_right w rest)
    _ = (w + rest) * left := Nat.mul_comm _ _

theorem sum_portions_le (weights : List Nat) (left : Nat) : (portions weights left).sum ≤ left := by
  induction weights generalizing left with
  | nil => exact Nat.zero_le left
  | cons w weights ih =>
      have hpart := part_le left w weights.sum
      have hrest := ih (left - left * w / (w + weights.sum))
      rw [portions, List.sum_cons]
      omega

/-- Nothing is left over. -/
theorem sum_portions {weights : List Nat} (hweights : 0 < weights.sum) (left : Nat) :
    (portions weights left).sum = left := by
  induction weights generalizing left with
  | nil => cases hweights
  | cons w weights ih =>
      have hpart := part_le left w weights.sum
      rw [portions, List.sum_cons]
      obtain hzero | hpos := Nat.eq_zero_or_pos weights.sum
      · rw [List.sum_cons, hzero, Nat.add_zero] at hweights
        have hrest := sum_portions_le weights (left - left * w / (w + 0))
        rw [hzero]
        rw [Nat.add_zero, Nat.mul_div_cancel left hweights] at hrest ⊢
        omega
      · rw [ih hpos]
        omega

/-- What is left keeps at least its proportion of the whole. -/
theorem left_ge {whole total left w rest : Nat} (hleft : whole * (w + rest) ≤ left * total) :
    whole * rest ≤ (left - left * w / (w + rest)) * total := by
  obtain hzero | hpos := Nat.eq_zero_or_pos (w + rest)
  · rw [(Nat.add_eq_zero_iff.mp hzero).2]
    exact Nat.zero_le _
  · have hpart : left * w / (w + rest) * (w + rest) ≤ left * w := Nat.div_mul_le_self _ _
    have hkept : left * rest ≤ (left - left * w / (w + rest)) * (w + rest) := by
      rw [Nat.sub_mul, Nat.mul_add]
      omega
    apply Nat.le_of_mul_le_mul_right _ hpos
    calc whole * rest * (w + rest) = whole * (w + rest) * rest := by ring
      _ ≤ left * total * rest := Nat.mul_le_mul_right rest hleft
      _ = left * rest * total := by ring
      _ ≤ (left - left * w / (w + rest)) * (w + rest) * total := Nat.mul_le_mul_right total hkept
      _ = (left - left * w / (w + rest)) * total * (w + rest) := by ring

/-- A part is at least the weight's proportion of the whole. -/
theorem part_ge {whole total left w rest : Nat} (hleft : whole * (w + rest) ≤ left * total) :
    whole * w / total ≤ left * w / (w + rest) := by
  obtain hzero | hpos := Nat.eq_zero_or_pos (w + rest)
  · rw [(Nat.add_eq_zero_iff.mp hzero).1, Nat.mul_zero, Nat.zero_div]
    exact Nat.zero_le _
  · rw [Nat.le_div_iff_mul_le hpos]
    obtain rfl | htotal := Nat.eq_zero_or_pos total
    · rw [Nat.div_zero, Nat.zero_mul]
      exact Nat.zero_le _
    · apply Nat.le_of_mul_le_mul_right _ htotal
      calc whole * w / total * (w + rest) * total
          = whole * w / total * total * (w + rest) := by ring
        _ ≤ whole * w * (w + rest) := Nat.mul_le_mul_right _ (Nat.div_mul_le_self _ _)
        _ = whole * (w + rest) * w := by ring
        _ ≤ left * total * w := Nat.mul_le_mul_right w hleft
        _ = left * w * total := by ring

theorem portions_ge {whole total : Nat} {weights : List Nat} {left : Nat}
    (hleft : whole * weights.sum ≤ left * total) :
    List.Forall₂ (fun w part => whole * w / total ≤ part) weights (portions weights left) := by
  induction weights generalizing left with
  | nil => exact .nil
  | cons w weights ih =>
      rw [List.sum_cons] at hleft
      exact .cons (part_ge hleft) (ih (left_ge hleft))

/-- Weights of nothing take nothing. -/
theorem portions_of_sum_zero {weights : List Nat} (hweights : weights.sum = 0) (left : Nat) :
    portions weights left = List.replicate weights.length 0 := by
  induction weights generalizing left with
  | nil => rfl
  | cons w weights ih =>
      rw [List.sum_cons, Nat.add_eq_zero_iff] at hweights
      rw [portions, hweights.1, hweights.2, Nat.mul_zero, Nat.zero_div, ih hweights.2]
      rfl

end Portions
