import Mathlib.Data.Finset.Card
import Mathlib.Data.List.Nodup
import Ratum.Core.Maps

/-!
# When a bounded set forgets

A bounded set forgets a member only when as many others as its capacity have been inserted since: the
members newer than it are among those, and it is the oldest when it goes.
-/

namespace Ratum

variable {T : Type}

namespace BoundedSet

/-- The order lists the members, each once, and no more than the capacity. -/
structure Ordered (set : BoundedSet T) : Prop where
  nodup : set.order.Nodup
  mem : ∀ k, k ∈ set.order ↔ k ∈ set.entries
  fits : set.order.length ≤ set.capacity
  positive : 0 < set.capacity

theorem ordered_new (capacity : Nat) : Ordered (BoundedMap.new capacity : BoundedSet T) where
  nodup := List.nodup_nil
  mem k := by simp [BoundedMap.new]
  fits := Nat.zero_le _
  positive := Nat.lt_of_lt_of_le Nat.zero_lt_one (Nat.le_max_right ..)

theorem Ordered.length_keys {set : BoundedSet T} (h : Ordered set) :
    set.entries.keys.length = set.order.length := by
  refine List.Perm.length_eq ((List.perm_ext_iff_of_nodup set.entries.keys_nodup h.nodup).mpr ?_)
  intro k
  rw [h.mem]
  rfl

variable [DecidableEq T] {set : BoundedSet T} {k : T}

theorem Ordered.contains_iff (h : Ordered set) : contains set k = true ↔ k ∈ set.order := by
  rw [h.mem]
  exact AList.lookup_isSome

theorem insert_of_contains (hold : contains set k = true) : insert set k = (false, set) := if_pos hold

theorem shed_of_fits {capacity : Nat} {entries : HashMap T Unit} (order : List T)
    (hfits : entries.keys.length ≤ capacity) :
    BoundedMap.shed capacity entries order = (entries, order) := by
  cases order with
  | nil => rfl
  | cons oldest order => rw [BoundedMap.shed, if_neg (by omega)]

/-- What a new member leaves of the order before it: all of it, or all but the oldest. -/
theorem Ordered.after_insert (h : Ordered set) (hnew : contains set k = false) :
    (insert set k).1 = true ∧ Ordered (insert set k).2 ∧
      (insert set k).2.capacity = set.capacity ∧
      (insert set k).2.order =
        (if set.order.length < set.capacity then set.order else set.order.tail) ++ [k] := by
  have horder : k ∉ set.order := by
    intro hmem
    rw [h.contains_iff.mpr hmem] at hnew
    cases hnew
  have hfresh : k ∉ set.entries := fun hmem => horder ((h.mem k).mpr hmem)
  have hlookup : set.entries.lookup k = none := AList.lookup_eq_none.mpr hfresh
  have hkeys : (set.entries.insert k ()).keys.length = set.order.length + 1 := by
    rw [AList.keys_insert, List.length_cons, List.erase_of_not_mem hfresh, h.length_keys]
  have hinsert : insert set k =
      (true,
        { set with
          entries := (BoundedMap.shed set.capacity (set.entries.insert k ()) (set.order ++ [k])).1
          order := (BoundedMap.shed set.capacity (set.entries.insert k ()) (set.order ++ [k])).2 }) := by
    unfold insert BoundedMap.get BoundedMap.insert
    rw [hlookup]
    rfl
  rw [hinsert]
  refine ⟨rfl, ?_⟩
  by_cases hroom : set.order.length < set.capacity
  · rw [shed_of_fits _ (by omega), if_pos hroom]
    refine ⟨⟨?_, ?_, ?_, h.positive⟩, rfl, rfl⟩
    · exact List.nodup_append.mpr ⟨h.nodup, List.nodup_singleton k, by
        intro a ha b hb
        rw [List.mem_singleton.mp hb]
        exact fun heq => horder (heq ▸ ha)⟩
    · intro a
      rw [List.mem_append, List.mem_singleton, AList.mem_insert, h.mem, or_comm]
    · show (set.order ++ [k]).length ≤ set.capacity
      rw [List.length_append, List.length_singleton]
      omega
  · cases hold : set.order with
    | nil =>
        have hpositive := h.positive
        rw [hold] at hroom
        exact absurd hpositive hroom
    | cons oldest rest =>
        have hnodup := h.nodup
        have hfits := h.fits
        rw [hold, List.nodup_cons] at hnodup
        rw [hold, List.length_cons] at hkeys hroom hfits
        have holdest : oldest ∈ set.entries := (h.mem oldest).mp (by simp [hold])
        have herased : ((set.entries.insert k ()).erase oldest).keys.length = rest.length + 1 := by
          rw [AList.keys_erase, List.length_erase_of_mem
            (show oldest ∈ (set.entries.insert k ()).keys from (AList.mem_insert _).mpr (.inr holdest)), hkeys]
          rfl
        rw [List.cons_append, BoundedMap.shed, if_pos (by omega), shed_of_fits _ (by omega),
          if_neg (by rw [List.length_cons]; omega)]
        have hother : k ≠ oldest := fun heq => horder (by simp [hold, heq])
        refine ⟨⟨?_, ?_, ?_, h.positive⟩, rfl, rfl⟩
        · exact List.nodup_append.mpr ⟨hnodup.2, List.nodup_singleton k, by
            intro a ha b hb
            rw [List.mem_singleton.mp hb]
            exact fun heq => horder (by simp [hold, heq ▸ ha])⟩
        · intro a
          have hmem := h.mem a
          rw [hold, List.mem_cons] at hmem
          rw [List.mem_append, List.mem_singleton, AList.mem_erase, AList.mem_insert, ← hmem]
          by_cases ha : a = oldest
          · subst ha
            simp [hnodup.1, hother.symm]
          · simp [ha, or_comm]
        · show (rest ++ [k]).length ≤ set.capacity
          rw [List.length_append, List.length_singleton]
          omega

theorem Ordered.after_remove (h : Ordered set) (k : T) :
    Ordered (remove set k).2 ∧ (remove set k).2.capacity = set.capacity ∧
      (remove set k).2.order = set.order.erase k := by
  have hremove : (remove set k).2 = (BoundedMap.remove set k).2 := rfl
  rw [hremove]
  unfold BoundedMap.remove
  cases hlookup : set.entries.lookup k with
  | none =>
      have hfresh : k ∉ set.order := fun hmem => AList.lookup_eq_none.mp hlookup ((h.mem k).mp hmem)
      exact ⟨h, rfl, (List.erase_of_not_mem hfresh).symm⟩
  | some _ =>
      refine ⟨⟨h.nodup.erase k, ?_, ?_, h.positive⟩, rfl, rfl⟩
      · intro a
        rw [h.nodup.mem_erase_iff, AList.mem_erase, h.mem]
      · exact (List.length_erase_le).trans h.fits

/-! ### What a member is behind -/

/-- `h` is a member and the newer ones are among `since`, or `since` has as many members as the capacity. -/
def Claimed (set : BoundedSet T) (h : T) (since : List T) : Prop :=
  (∃ older newer, set.order = older ++ h :: newer ∧ newer ⊆ since) ∨ set.capacity ≤ since.toFinset.card

variable {h : T} {since : List T}

/-- A member claimed is held while fewer others than the capacity have come since. -/
theorem Claimed.contains (hclaimed : Claimed set h since) (hordered : Ordered set)
    (hfew : since.toFinset.card < set.capacity) : contains set h = true := by
  obtain ⟨older, newer, horder, _⟩ | hmany := hclaimed
  · exact hordered.contains_iff.mpr (by simp [horder])
  · omega

theorem claimed_insert_self (hordered : Ordered set) (hnew : contains set h = false) (since : List T) :
    Claimed (insert set h).2 h since := by
  obtain ⟨_, _, _, horder⟩ := hordered.after_insert hnew
  exact .inl ⟨_, [], horder, List.nil_subset _⟩

theorem Claimed.after_insert (hclaimed : Claimed set h since) (hordered : Ordered set)
    (hnew : BoundedSet.contains set k = false) : Claimed (insert set k).2 h (k :: since) := by
  obtain ⟨_, _, hcapacity, horder⟩ := hordered.after_insert hnew
  obtain ⟨older, newer, hold, hnewer⟩ | hmany := hclaimed
  · by_cases hroom : set.order.length < set.capacity
    · rw [if_pos hroom, hold, List.append_assoc, List.cons_append] at horder
      refine .inl ⟨older, newer ++ [k], horder, ?_⟩
      exact List.append_subset.mpr ⟨List.subset_cons_of_subset k hnewer, by simp⟩
    · rw [if_neg hroom, hold] at horder
      cases older with
      | nil =>
          -- the member is the oldest and goes: all that is left is newer
          have hnodup := hordered.nodup
          have hfresh : k ∉ set.order := by
            intro hmem
            rw [hordered.contains_iff.mpr hmem] at hnew
            cases hnew
          rw [hold, List.nil_append] at hnodup hfresh hroom
          have hcount : (k :: newer).toFinset.card = newer.length + 1 := by
            refine List.toFinset_card_of_nodup (List.nodup_cons.mpr ⟨?_, (List.nodup_cons.mp hnodup).2⟩)
            exact fun hmem => hfresh (List.mem_cons_of_mem h hmem)
          have hsubset : (k :: newer).toFinset ⊆ (k :: since).toFinset := by
            intro a ha
            rw [List.mem_toFinset] at ha ⊢
            exact List.cons_subset_cons k hnewer ha
          have hcard := Finset.card_le_card hsubset
          rw [List.length_cons] at hroom
          exact .inr (by omega)
      | cons oldest older =>
          refine .inl ⟨older, newer ++ [k], by simpa using horder, ?_⟩
          exact List.append_subset.mpr ⟨List.subset_cons_of_subset k hnewer, by simp⟩
  · refine .inr (hcapacity ▸ hmany.trans (Finset.card_le_card ?_))
    rw [List.toFinset_cons]
    exact Finset.subset_insert ..

theorem Claimed.after_remove (hclaimed : Claimed set h since) (hordered : Ordered set) (hne : k ≠ h) :
    Claimed (remove set k).2 h since := by
  obtain ⟨_, hcapacity, horder⟩ := hordered.after_remove k
  obtain ⟨older, newer, hold, hnewer⟩ | hmany := hclaimed
  · rw [hold, List.erase_append] at horder
    by_cases hmem : k ∈ older
    · rw [if_pos hmem] at horder
      exact .inl ⟨older.erase k, newer, horder, hnewer⟩
    · rw [if_neg hmem, List.erase_cons_tail (by simpa using hne.symm)] at horder
      exact .inl ⟨older, newer.erase k, horder, fun a ha => hnewer (List.mem_of_mem_erase ha)⟩
  · exact .inr (hcapacity ▸ hmany)

end BoundedSet
end Ratum
