import Ratum.Base.Marks

/-!
# Taking some entries of a list, none that was skipped before

A loop over a list takes some of its entries in order, and an entry it skips is none of those it takes
later. Searching the list for what was taken, each entry from after the one found before, then finds exactly
the entries taken.
-/

variable {α β : Type*}

/-- The images of the entries taken, and which entries they are the images of. -/
inductive Picks (f : α → β) : List α → List β → List Bool → Prop
  | nil : Picks f [] [] []
  | skip {a : α} {entries : List α} {taken : List β} {flags : List Bool} (hnew : f a ∉ taken)
      (hrest : Picks f entries taken flags) : Picks f (a :: entries) taken (false :: flags)
  | take {a : α} {entries : List α} {taken : List β} {flags : List Bool}
      (hrest : Picks f entries taken flags) : Picks f (a :: entries) (f a :: taken) (true :: flags)

namespace Picks

variable {f : α → β} {entries : List α} {taken : List β} {flags : List Bool}

theorem none (entries : List α) : Picks f entries [] (List.replicate entries.length false) := by
  induction entries with
  | nil => exact .nil
  | cons a entries ih => exact .skip List.not_mem_nil ih

theorem length_flags (h : Picks f entries taken flags) : flags.length = entries.length := by
  induction h with
  | nil => rfl
  | skip _ _ ih => rw [List.length_cons, List.length_cons, ih]
  | take _ ih => rw [List.length_cons, List.length_cons, ih]

theorem sublist (h : Picks f entries taken flags) : taken.Sublist (entries.map f) := by
  induction h with
  | nil => exact .slnil
  | skip _ _ ih => exact ih.cons _
  | take _ ih => exact ih.cons_cons _

theorem of_map {γ : Type*} {g : β → γ} {taken : List γ} (h : Picks g (entries.map f) taken flags) :
    Picks (g ∘ f) entries taken flags := by
  induction entries generalizing taken flags with
  | nil =>
      cases h
      exact .nil
  | cons a entries ih =>
      cases h with
      | skip hnew hrest => exact .skip hnew (ih hrest)
      | take hrest => exact .take (ih hrest)

/-- The entries up to the last one taken, and those after it. -/
theorem exists_last (h : Picks f entries taken flags) :
    ∃ front back frontFlags, entries = front ++ back ∧ Picks f front taken frontFlags ∧
      frontFlags.getLast? ≠ some false := by
  induction h with
  | nil => exact ⟨[], [], [], rfl, .nil, nofun⟩
  | @skip a entries taken flags hnew hrest ih =>
      obtain ⟨front, back, frontFlags, rfl, hfront, hlast⟩ := ih
      cases frontFlags with
      | nil =>
          cases hfront
          exact ⟨[], a :: back, [], rfl, .nil, nofun⟩
      | cons flag frontFlags =>
          exact ⟨a :: front, back, false :: flag :: frontFlags, rfl, .skip hnew hfront, by
            rwa [List.getLast?_cons_cons]⟩
  | @take a entries taken flags hrest ih =>
      obtain ⟨front, back, frontFlags, rfl, hfront, hlast⟩ := ih
      refine ⟨a :: front, back, true :: frontFlags, rfl, .take hfront, ?_⟩
      cases frontFlags with
      | nil => nofun
      | cons flag frontFlags => rwa [List.getLast?_cons_cons]

end Picks
