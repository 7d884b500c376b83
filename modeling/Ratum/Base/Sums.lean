import Mathlib.Algebra.BigOperators.Group.List.Basic
import Mathlib.Algebra.GroupWithZero.Nat
import Mathlib.Data.List.Sigma

/-!
# Sums where one term changes

A sum over the entries of a list of pairs, the entry of a key apart, and a sum over distinct indices when
the value at one of them is replaced.
-/

theorem List.sum_kerase {K V : Type} [DecidableEq K] (f : (Σ _ : K, V) → Nat) (k : K)
    (l : List (Σ _ : K, V)) :
    (l.map f).sum = (l.dlookup k).elim 0 (fun value => f ⟨k, value⟩) + ((l.kerase k).map f).sum := by
  induction l with
  | nil => rfl
  | cons entry l ih =>
      obtain rfl | hne := eq_or_ne k entry.1
      · rw [List.dlookup_cons_eq, List.kerase_cons_eq rfl]
        rfl
      · obtain ⟨key, value⟩ := entry
        rw [List.dlookup_cons_ne _ _ hne, List.kerase_cons_ne hne, List.map_cons, List.sum_cons,
          List.map_cons, List.sum_cons, ih]
        omega

theorem List.sum_map_update {A : Type} [DecidableEq A] {l : List A} (hnodup : l.Nodup) {a : A} (ha : a ∈ l)
    (f : A → Nat) (n : Nat) : (l.map (Function.update f a n)).sum + f a = (l.map f).sum + n := by
  rw [← List.sum_map_erase f ha, ← List.sum_map_erase (Function.update f a n) ha, Function.update_self]
  have hrest : (l.erase a).map (Function.update f a n) = (l.erase a).map f := by
    apply List.map_congr_left
    intro b hb
    exact Function.update_of_ne (fun hsame => hnodup.not_mem_erase (hsame ▸ hb)) _ _
  rw [hrest]
  omega
