import Ratum.Base.Suffix
import Mathlib.Algebra.Order.BigOperators.Group.List

/-!
# Marking entries of a list

A list of flags beside a list of entries marks some of them. What is marked and what is not make up the
whole list, and marking one more entry adds its weight to the marked ones.
-/

namespace Marks

open Suffix

variable {α : Type*} (weight : α → Nat)

/-- The entries whose flag is a given one, in order. -/
def flagged (flag : Bool) (entries : List α) (flags : List Bool) : List α :=
  ((entries.zip flags).filter fun entry => entry.2 == flag).map Prod.fst

@[simp] theorem flagged_nil (flag : Bool) (flags : List Bool) :
    flagged flag ([] : List α) flags = [] := by
  simp [flagged]

theorem flagged_cons (flag : Bool) (a : α) (entries : List α) (b : Bool) (flags : List Bool) :
    flagged flag (a :: entries) (b :: flags) =
      if b = flag then a :: flagged flag entries flags else flagged flag entries flags := by
  by_cases h : b = flag <;> simp [flagged, h]

theorem flagged_replicate (entries : List α) :
    flagged true entries (List.replicate entries.length false) = [] := by
  induction entries with
  | nil => rfl
  | cons a entries ih => simpa [List.replicate_succ, flagged_cons] using ih

/-- **Marked and unmarked entries weigh what all of them weigh.** -/
theorem total_flagged_add {entries : List α} {flags : List Bool}
    (hlength : flags.length = entries.length) :
    total weight (flagged true entries flags) + total weight (flagged false entries flags) =
      total weight entries := by
  induction entries generalizing flags with
  | nil => simp
  | cons a entries ih =>
      obtain ⟨b, flags, rfl⟩ := List.exists_cons_of_length_eq_add_one hlength
      have := ih (by simpa using hlength)
      cases b <;> simp [flagged_cons] <;> omega

/-- Marking an entry adds its weight. -/
theorem total_flagged_set {entries : List α} {flags : List Bool} {i : Nat} {a : α}
    (hentry : entries[i]? = some a) (hflag : flags[i]? = some false) :
    total weight (flagged true entries (flags.set i true)) =
      total weight (flagged true entries flags) + weight a := by
  induction entries generalizing flags i with
  | nil => simp at hentry
  | cons b entries ih =>
      cases flags with
      | nil => simp at hflag
      | cons flag flags =>
          cases i with
          | zero =>
              simp only [List.getElem?_cons_zero, Option.some.injEq] at hentry hflag
              subst hentry hflag
              simp only [List.set_cons_zero, flagged_cons, if_pos, total_cons]
              simp
              omega
          | succ i =>
              rw [List.getElem?_cons_succ] at hentry hflag
              have := ih hentry hflag
              simp only [List.set_cons_succ, flagged_cons]
              split
              · rw [total_cons, total_cons, this]
                omega
              · exact this

theorem total_sublist {entries entries' : List α} (h : entries.Sublist entries') :
    total weight entries ≤ total weight entries' :=
  (h.map weight).sum_le_sum (fun _ _ => Nat.zero_le _)

theorem le_total_of_mem {a : α} {entries : List α} (ha : a ∈ entries) : weight a ≤ total weight entries := by
  have hle := total_sublist weight (List.singleton_sublist.mpr ha)
  rwa [total_cons, total_nil, Nat.add_zero] at hle

end Marks
