import Mathlib.Data.List.Infix
import Mathlib.Data.Nat.Find
import Mathlib.Data.List.TakeDrop

/-!
# Where a pattern first occurs

A pattern occurs in a list at the index from which on the list begins with it. The first occurrence is that of
every longer list, and a search that found none in a list may resume, when the list has grown, at the last
index an occurrence in it did not reach.
-/

namespace Occurrence

variable {α : Type*}

/-- The list goes on with the pattern from an index. -/
def At (pattern l : List α) (i : Nat) : Prop := pattern <+: l.drop i

/-- The first index the pattern occurs at. -/
structure First (pattern l : List α) (i : Nat) : Prop where
  occurs : At pattern l i
  before : ∀ j < i, ¬ At pattern l j

section

variable {pattern l : List α} {i : Nat}

theorem At.le_length (hat : At pattern l i) (hpattern : pattern ≠ []) : i + pattern.length ≤ l.length := by
  have hle := hat.length_le
  have hpos := List.length_pos_iff.mpr hpattern
  rw [List.length_drop] at hle
  omega

theorem at_iff_take : At pattern l i ↔ (l.drop i).take pattern.length = pattern := by
  rw [At, List.prefix_iff_eq_take]
  exact eq_comm

/-- Whether the pattern occurs depends on the bytes it takes only. -/
theorem at_append_iff (hle : i + pattern.length ≤ l.length) (more : List α) :
    At pattern (l ++ more) i ↔ At pattern l i := by
  rw [at_iff_take, at_iff_take, List.drop_append_of_le_length (by omega),
    List.take_append_of_le_length (by rw [List.length_drop]; omega)]

theorem at_take_iff (hpattern : pattern ≠ []) (k : Nat) :
    At pattern (l.take k) i ↔ At pattern l i ∧ i + pattern.length ≤ k := by
  have hgrow (hle : i + pattern.length ≤ (l.take k).length) := at_append_iff hle (l.drop k)
  rw [List.take_append_drop] at hgrow
  constructor
  · intro hat
    have hle := hat.le_length hpattern
    exact ⟨(hgrow hle).mpr hat, hle.trans (List.length_take_le k l)⟩
  · rintro ⟨hat, hk⟩
    refine (hgrow ?_).mp hat
    rw [List.length_take]
    exact le_min hk (hat.le_length hpattern)

theorem at_drop (start : Nat) : At pattern (l.drop start) i ↔ At pattern l (start + i) := by
  rw [At, At, List.drop_drop]

/-- A pattern that occurs has a first occurrence. -/
theorem exists_first (hat : At pattern l i) : ∃ j, First pattern l j := by
  classical
  have hexists : ∃ j, At pattern l j := ⟨i, hat⟩
  exact ⟨Nat.find hexists, Nat.find_spec hexists, fun j hj => Nat.find_min hexists hj⟩

theorem First.unique {j : Nat} (hi : First pattern l i) (hj : First pattern l j) : i = j := by
  rcases Nat.lt_trichotomy i j with hlt | heq | hlt
  · exact absurd hi.occurs (hj.before i hlt)
  · exact heq
  · exact absurd hj.occurs (hi.before j hlt)

/-- The first occurrence in the first bytes is the list's, if it lies within them. -/
theorem first_take_iff (hpattern : pattern ≠ []) (k : Nat) :
    First pattern (l.take k) i ↔ First pattern l i ∧ i + pattern.length ≤ k := by
  constructor
  · rintro ⟨hat, hbefore⟩
    obtain ⟨hat, hk⟩ := (at_take_iff hpattern k).mp hat
    refine ⟨⟨hat, fun j hj hatj => ?_⟩, hk⟩
    exact hbefore j hj ((at_take_iff hpattern k).mpr ⟨hatj, by omega⟩)
  · rintro ⟨⟨hat, hbefore⟩, hk⟩
    refine ⟨(at_take_iff hpattern k).mpr ⟨hat, hk⟩, fun j hj hatj => ?_⟩
    exact hbefore j hj ((at_take_iff hpattern k).mp hatj).1

end

/-! ### The search -/

/-- The runs of a size, from the first on. -/
def windows (size : Nat) (l : List α) : List (List α) :=
  (List.range (l.length + 1 - size)).map fun i => (l.drop i).take size

variable [DecidableEq α]

/-- The index of the first occurrence from an index on. -/
def find (l pattern : List α) (start : Nat) : Option Nat :=
  if l.length < start then none
  else ((windows pattern.length (l.drop start)).findIdx? (· = pattern)).map (start + ·)

variable {pattern l : List α} {start i : Nat}

theorem findIdx_windows (hpattern : pattern ≠ []) :
    (windows pattern.length l).findIdx? (· = pattern) = some i ↔ First pattern l i := by
  have hget (j : Nat) (hj : j < (windows pattern.length l).length) :
      (windows pattern.length l)[j] = (l.drop j).take pattern.length := by
    simp [windows]
  have hlength : (windows pattern.length l).length = l.length + 1 - pattern.length := by
    rw [windows, List.length_map, List.length_range]
  rw [List.findIdx?_eq_some_iff_getElem]
  constructor
  · rintro ⟨hi, hmatches, hbefore⟩
    rw [decide_eq_true_iff, hget i hi] at hmatches
    refine ⟨at_iff_take.mpr hmatches, fun j hj hat => ?_⟩
    have hnot := hbefore j hj
    rw [decide_eq_true_iff, hget j (hj.trans hi)] at hnot
    exact hnot (at_iff_take.mp hat)
  · rintro ⟨hat, hbefore⟩
    have hle := hat.le_length hpattern
    have hi : i < (windows pattern.length l).length := by omega
    refine ⟨hi, ?_, fun j hj => ?_⟩
    · rw [decide_eq_true_iff, hget i hi]
      exact at_iff_take.mp hat
    · rw [decide_eq_true_iff, hget j (hj.trans hi)]
      exact fun hmatches => hbefore j hj (at_iff_take.mpr hmatches)

/-- The search finds the first occurrence of those not before where it starts. -/
theorem find_eq_some_iff (hpattern : pattern ≠ []) :
    find l pattern start = some i ↔
      At pattern l i ∧ start ≤ i ∧ ∀ j, start ≤ j → j < i → ¬ At pattern l j := by
  rw [find]
  split
  · rename_i hlong
    constructor
    · intro hnone
      cases hnone
    · rintro ⟨hat, hle, -⟩
      have hlength := hat.le_length hpattern
      omega
  · rw [Option.map_eq_some_iff]
    constructor
    · rintro ⟨k, hk, rfl⟩
      obtain ⟨hat, hbefore⟩ := (findIdx_windows hpattern).mp hk
      refine ⟨(at_drop start).mp hat, Nat.le_add_right _ _, fun j hstart hj hatj => ?_⟩
      refine hbefore (j - start) (by omega) ((at_drop start).mpr ?_)
      rwa [Nat.add_sub_cancel' hstart]
    · rintro ⟨hat, hstart, hbefore⟩
      refine ⟨i - start, (findIdx_windows hpattern).mpr ⟨(at_drop start).mpr ?_, fun j hj hatj => ?_⟩,
        Nat.add_sub_cancel' hstart⟩
      · rwa [Nat.add_sub_cancel' hstart]
      · exact hbefore (start + j) (Nat.le_add_right _ _) (by omega) ((at_drop start).mp hatj)

theorem find_zero_eq_some_iff (hpattern : pattern ≠ []) :
    find l pattern 0 = some i ↔ First pattern l i := by
  rw [find_eq_some_iff hpattern]
  constructor
  · rintro ⟨hat, -, hbefore⟩
    exact ⟨hat, fun j hj => hbefore j (Nat.zero_le j) hj⟩
  · rintro ⟨hat, hbefore⟩
    exact ⟨hat, Nat.zero_le i, fun j _ hj => hbefore j hj⟩

theorem find_zero_eq_none_iff (hpattern : pattern ≠ []) :
    find l pattern 0 = none ↔ ∀ i, ¬ At pattern l i := by
  constructor
  · intro hnone i hat
    obtain ⟨j, hfirst⟩ := exists_first hat
    rw [(find_zero_eq_some_iff hpattern).mpr hfirst] at hnone
    cases hnone
  · intro hnone
    rw [Option.eq_none_iff_forall_ne_some]
    intro i hfound
    exact hnone i ((find_zero_eq_some_iff hpattern).mp hfound).occurs

/-- **A search resumed** over the last of what held no occurrence finds what a search from the start does. -/
theorem find_resume (hpattern : pattern ≠ []) (hnone : ∀ i, ¬ At pattern l i) (more : List α) :
    find (l ++ more) pattern (l.length - (pattern.length - 1)) = find (l ++ more) pattern 0 := by
  have hpos := List.length_pos_iff.mpr hpattern
  have hlate {j : Nat} (hat : At pattern (l ++ more) j) : l.length - (pattern.length - 1) ≤ j := by
    by_contra hearly
    exact hnone j ((at_append_iff (by omega) more).mp hat)
  refine Option.ext fun i => ?_
  rw [find_eq_some_iff hpattern, find_zero_eq_some_iff hpattern]
  constructor
  · rintro ⟨hat, -, hbefore⟩
    exact ⟨hat, fun j hj hatj => hbefore j (hlate hatj) hj hatj⟩
  · rintro ⟨hat, hbefore⟩
    exact ⟨hat, hlate hat, fun j _ hj => hbefore j hj⟩

end Occurrence
