import Mathlib.Data.List.Perm.Subperm

/-!
# The earliest entries of a list

The first so many entries of a list once it is sorted. An entry left out has that many others before it.
-/

namespace Earliest

variable {α : Type*} (before : α → α → Bool) (limit : Nat)

def earliest (entries : List α) : List α := (entries.mergeSort before).take limit

variable {before limit} {entries : List α} {a : α}

theorem length_earliest_le (entries : List α) : (earliest before limit entries).length ≤ limit :=
  List.length_take_le _ _

theorem earliest_subperm (entries : List α) :
    List.Subperm (earliest before limit entries) entries :=
  (List.take_sublist _ _).subperm.trans (List.mergeSort_perm entries before).subperm

theorem mem_of_mem_earliest (h : a ∈ earliest before limit entries) : a ∈ entries :=
  (earliest_subperm entries).subset h

/-- An entry that is left out comes after as many entries as are taken. -/
theorem of_left_out (htrans : ∀ a b c, before a b → before b c → before a c)
    (htotal : ∀ a b, before a b || before b a) (hmem : a ∈ entries)
    (hout : a ∉ earliest before limit entries) :
    (earliest before limit entries).length = limit ∧
      ∀ b ∈ earliest before limit entries, before b a := by
  have hsorted := List.pairwise_mergeSort htrans htotal entries
  rw [← List.take_append_drop limit (entries.mergeSort before), List.pairwise_append] at hsorted
  have hrest : a ∈ (entries.mergeSort before).drop limit := by
    have ha : a ∈ entries.mergeSort before := (List.mergeSort_perm entries before).mem_iff.mpr hmem
    rw [← List.take_append_drop limit (entries.mergeSort before), List.mem_append] at ha
    exact ha.resolve_left hout
  refine ⟨?_, fun b hb => hsorted.2.2 b hb a hrest⟩
  have hlen := List.length_pos_of_mem hrest
  rw [List.length_drop] at hlen
  rw [earliest, List.length_take]
  omega

end Earliest
