import Mathlib.Algebra.Order.BigOperators.Group.List
import Ratum.Base.Portions
import Ratum.Ledger.Split

/-!
# The split is exact

What `split_with` of `prime/src/ledger/split.rs` pays while its arithmetic fits: the longest paying prefix
of the identities, most work first, is paid all of the value, whatever order the weights come in.
-/

namespace Ratum

/-! ### The order of the weights -/

theorem mostWorkFirst_trans (a b c : String × Nat) (hab : mostWorkFirst a b = true)
    (hbc : mostWorkFirst b c = true) : mostWorkFirst a c = true := by
  simp only [mostWorkFirst, Bool.or_eq_true, Bool.and_eq_true, decide_eq_true_eq] at *
  obtain hab | ⟨hab, hname⟩ := hab <;> obtain hbc | ⟨hbc, hname'⟩ := hbc
  · exact .inl (hbc.trans hab)
  · exact .inl (hbc ▸ hab)
  · exact .inl (hab ▸ hbc)
  · exact .inr ⟨hab.trans hbc, String.le_trans hname hname'⟩

theorem mostWorkFirst_total (a b : String × Nat) : (mostWorkFirst a b || mostWorkFirst b a) = true := by
  simp only [mostWorkFirst, Bool.or_eq_true, Bool.and_eq_true, decide_eq_true_eq]
  obtain hlt | heq | hgt := Nat.lt_trichotomy a.2 b.2
  · exact .inr (.inl hlt)
  · exact (String.le_total a.1 b.1).imp (fun h => .inr ⟨heq, h⟩) fun h => .inr ⟨heq.symm, h⟩
  · exact .inl (.inl hgt)

theorem mostWorkFirst_antisymm {a b : String × Nat} (hab : mostWorkFirst a b = true)
    (hba : mostWorkFirst b a = true) : a = b := by
  simp only [mostWorkFirst, Bool.or_eq_true, Bool.and_eq_true, decide_eq_true_eq] at *
  have hwork : a.2 = b.2 := by omega
  obtain hab | ⟨-, hname⟩ := hab
  · omega
  · obtain hba | ⟨-, hname'⟩ := hba
    · omega
    · exact Prod.ext (String.le_antisymm hname hname') hwork

/-- The weights, most work first. -/
def Weights.sorted (entries : List (String × Nat)) : List (String × Nat) := entries.mergeSort mostWorkFirst

namespace Weights

theorem sorted_pairwise (entries : List (String × Nat)) :
    (sorted entries).Pairwise fun a b => mostWorkFirst a b = true :=
  List.pairwise_mergeSort mostWorkFirst_trans mostWorkFirst_total entries

/-- The order the weights come in decides nothing. -/
theorem sorted_eq_of_perm {entries entries' : List (String × Nat)} (hperm : entries.Perm entries') :
    sorted entries = sorted entries' := by
  have hsorted : (sorted entries).Perm (sorted entries') :=
    (List.mergeSort_perm _ _).trans (hperm.trans (List.mergeSort_perm _ _).symm)
  exact hsorted.eq_of_pairwise (fun _ _ _ _ => mostWorkFirst_antisymm) (sorted_pairwise entries)
    (sorted_pairwise entries')

theorem work_perm {entries entries' : List (String × Nat)} (hperm : entries.Perm entries') :
    work entries = work entries' := (hperm.map Prod.snd).sum_eq

theorem splitWith_perm {entries entries' : List (String × Nat)} (hperm : entries.Perm entries')
    (value minPayout maxOutputs : Nat) :
    splitWith ⟨entries⟩ value minPayout maxOutputs = splitWith ⟨entries'⟩ value minPayout maxOutputs := by
  have hsorted := sorted_eq_of_perm hperm
  rw [sorted, sorted] at hsorted
  rw [splitWith, splitWith, work_perm hperm, hsorted]

/-! ### The prefix paid -/

/-- The part of the value the last of the entries takes by its work. -/
def lastPays (value minPayout : Nat) (entries : List (String × Nat)) : Prop :=
  ∀ entry ∈ entries.getLast?, minPayout ≤ value * entry.2 / work entries

/-- The longest of the starts of the weights, most work first, whose last identity is paid the minimum. -/
structure Kept (entries : List (String × Nat)) (value minPayout maxOutputs : Nat)
    (kept : List (String × Nat)) : Prop where
  start : kept <+: sorted entries
  length_le : kept.length ≤ maxOutputs
  pays : lastPays value minPayout kept
  longest : ∀ longer, longer <+: sorted entries → longer.length ≤ maxOutputs →
    lastPays value minPayout longer → longer.length ≤ kept.length

/-- What an entry is paid, unless it is nothing. -/
def payouts (entries : List (String × Nat)) (amounts : List Nat) : List Payout :=
  ((entries.zip amounts).filter fun (_, amount) => amount ≠ 0).map fun ((identity, _), sats) =>
    { identity, sats }

/-- The value divided over the entries kept. -/
structure Divides (kept : List (String × Nat)) (value minPayout : Nat) (split : List Payout) : Prop where
  amounts : ∃ amounts, split = payouts kept amounts ∧ List.Forall₂
    (fun entry amount => value * entry.2 / work kept ≤ amount ∧ minPayout ≤ amount) kept amounts
  total : (∃ entry ∈ kept, 0 < entry.2) → Suffix.total Payout.sats split = value
  minimum : ∀ payout ∈ split, minPayout ≤ payout.sats

/-! ### The loop that drops -/

/-- While the entries that pay most have work, the loop keeps the longest paying rest. -/
theorem dropUnder_spec (value minPayout : Nat) {entries : List (String × Nat)}
    (hworked : ∀ entry ∈ entries.getLast?, 0 < entry.2)
    (hfits : value * work entries ≤ U128_MAX) :
    ∃ kept, dropUnder value minPayout entries (work entries) = (kept, work kept) ∧
      kept <:+ entries ∧ lastPays value minPayout kept.reverse ∧
      ∀ longer, longer <:+ entries → lastPays value minPayout longer.reverse →
        longer.length ≤ kept.length := by
  induction entries with
  | nil =>
      refine ⟨[], rfl, List.suffix_refl _, nofun, ?_⟩
      intro longer hlonger _
      rw [List.suffix_nil.mp hlonger]
  | cons entry larger ih =>
      obtain ⟨identity, w⟩ := entry
      have hwork : work ((identity, w) :: larger) = w + work larger := Suffix.total_cons _ _ _
      have hpos : w + work larger ≠ 0 := by
        intro hzero
        obtain ⟨hw, hlarger⟩ := Nat.add_eq_zero_iff.mp hzero
        obtain ⟨last, hlast⟩ := List.getLast?_isSome.mpr (List.cons_ne_nil (identity, w) larger) |>
          Option.isSome_iff_exists.mp
        have hle : last.2 ≤ work ((identity, w) :: larger) :=
          List.le_sum_of_mem (List.mem_map_of_mem (f := Prod.snd) (List.mem_of_getLast? hlast))
        have := hworked last hlast
        omega
      have hpart : satMul128 value w = value * w := by
        apply Nat.min_eq_left
        exact (Nat.mul_le_mul_left value (Nat.le_add_right w _)).trans (hwork ▸ hfits)
      have hlast : lastPays value minPayout ((identity, w) :: larger).reverse ↔
          minPayout ≤ value * w / (w + work larger) := by
        rw [lastPays, work_reverse, hwork, List.reverse_cons, List.getLast?_concat]
        simp
      rw [dropUnder, hwork, if_neg hpos, hpart]
      split
      · rename_i hpays
        exact ⟨_, by rw [hwork], List.suffix_refl _, hlast.mpr hpays, fun longer hlonger _ => hlonger.length_le⟩
      · rename_i hunder
        rw [Nat.add_sub_cancel_left]
        have hworked' : ∀ entry ∈ larger.getLast?, 0 < entry.2 := by
          intro entry hentry
          cases larger with
          | nil => cases hentry
          | cons next larger =>
              apply hworked entry
              rwa [List.getLast?_cons_cons]
        have hfits' : value * work larger ≤ U128_MAX :=
          (Nat.mul_le_mul_left value (Nat.le_add_left _ w)).trans (hwork ▸ hfits)
        obtain ⟨kept, heq, hsuffix, hpays, hlongest⟩ := ih hworked' hfits'
        refine ⟨kept, heq, hsuffix.trans (List.suffix_cons _ _), hpays, ?_⟩
        intro longer hlonger hlongerPays
        obtain rfl | hlonger := List.suffix_cons_iff.mp hlonger
        · exact absurd (hlast.mp hlongerPays) hunder
        · exact hlongest longer hlonger hlongerPays

/-! ### The loop that pays -/

theorem payouts_cons (entry : String × Nat) (entries : List (String × Nat)) (amount : Nat)
    (amounts : List Nat) : payouts (entry :: entries) (amount :: amounts) =
      if amount = 0 then payouts entries amounts
      else { identity := entry.1, sats := amount } :: payouts entries amounts := by
  rw [payouts, List.zip_cons_cons]
  split
  · rename_i hzero
    rw [List.filter_cons_of_neg (by simpa using hzero)]
    rfl
  · rename_i hpos
    rw [List.filter_cons_of_pos (by simpa using hpos)]
    rfl

theorem payouts_zero (entries : List (String × Nat)) (n : Nat) :
    payouts entries (List.replicate n 0) = [] := by
  rw [payouts, List.map_eq_nil_iff, List.filter_eq_nil_iff]
  intro pair hpair
  have hzero := List.eq_of_mem_replicate (List.of_mem_zip hpair).2
  simp [hzero]

/-- Each entry takes its portion of what is left. -/
theorem amounts_eq {entries : List (String × Nat)} {left : Nat} (hleft : left ≤ U64_MAX)
    (hfits : left * work entries ≤ U128_MAX) :
    amounts entries (work entries) left = payouts entries (portions (entries.map Prod.snd) left) := by
  induction entries generalizing left with
  | nil => rfl
  | cons entry rest ih =>
      obtain ⟨identity, w⟩ := entry
      have hwork : work ((identity, w) :: rest) = w + work rest := Suffix.total_cons _ _ _
      rw [hwork] at hfits
      rw [amounts, hwork, Nat.add_sub_cancel_left, List.map_cons, portions, payouts_cons]
      have hsum : (rest.map Prod.snd).sum = work rest := rfl
      rw [hsum]
      split
      · rename_i hzero
        have hw := (Nat.add_eq_zero_iff.mp hzero).1
        have hrest := (Nat.add_eq_zero_iff.mp hzero).2
        dsimp only
        rw [hw, Nat.mul_zero, Nat.zero_div, if_pos rfl, Portions.portions_of_sum_zero hrest, payouts_zero]
      · have hpart : satMul128 left w = left * w :=
          Nat.min_eq_left ((Nat.mul_le_mul_left left (Nat.le_add_right w _)).trans hfits)
        have hle : left * w / (w + work rest) ≤ left := Portions.part_le left w (work rest)
        rw [hpart, asU64_of_le (hle.trans hleft)]
        dsimp only
        rw [ih ((Nat.sub_le _ _).trans hleft)]
        exact (Nat.mul_le_mul (Nat.sub_le _ _) (Nat.le_add_left _ w)).trans hfits

theorem total_payouts {entries : List (String × Nat)} {amounts : List Nat}
    (hlength : amounts.length = entries.length) :
    Suffix.total Payout.sats (payouts entries amounts) = amounts.sum := by
  induction entries generalizing amounts with
  | nil =>
      rw [List.length_eq_zero_iff.mp hlength]
      rfl
  | cons entry rest ih =>
      cases amounts with
      | nil => cases hlength
      | cons amount amounts =>
          have hrest := ih (Nat.succ.inj hlength)
          rw [payouts_cons, List.sum_cons, ← hrest]
          split
          · rename_i hzero
            rw [hzero, Nat.zero_add]
          · exact Suffix.total_cons _ _ _

theorem mem_payouts {entries : List (String × Nat)} {amounts : List Nat} {payout : Payout}
    (hpayout : payout ∈ payouts entries amounts) : payout.sats ∈ amounts := by
  obtain ⟨⟨entry, amount⟩, hmem, rfl⟩ := List.mem_map.mp hpayout
  exact (List.of_mem_zip (List.mem_filter.mp hmem).1).2

/-! ### What is paid -/

theorem last_le {entries : List (String × Nat)}
    (hsorted : entries.Pairwise fun a b => mostWorkFirst a b = true) {last : String × Nat}
    (hlast : last ∈ entries.getLast?) {entry : String × Nat} (hentry : entry ∈ entries) :
    last.2 ≤ entry.2 := by
  obtain ⟨init, rfl⟩ := List.getLast?_eq_some_iff.mp hlast
  rw [List.mem_append, List.mem_singleton] at hentry
  obtain hentry | rfl := hentry
  · have hfirst := (List.pairwise_append.mp hsorted).2.2 entry hentry last (List.mem_singleton_self _)
    simp only [mostWorkFirst, Bool.or_eq_true, Bool.and_eq_true, decide_eq_true_eq] at hfirst
    omega
  · exact le_rfl

theorem work_sorted (entries : List (String × Nat)) : work (sorted entries) = work entries :=
  work_perm (List.mergeSort_perm _ _)

/-- The entries kept are paid what the loop gives them. -/
theorem divides_amounts {entries kept : List (String × Nat)} {value minPayout maxOutputs : Nat}
    (hkept : Kept entries value minPayout maxOutputs kept) (hvalue : value ≤ U64_MAX)
    (hfits : value * work kept ≤ U128_MAX) :
    Divides kept value minPayout (amounts kept (work kept) value) := by
  rw [amounts_eq hvalue hfits]
  have hlength : (portions (kept.map Prod.snd) value).length = kept.length := by simp
  have hsorted : kept.Pairwise fun a b => mostWorkFirst a b = true :=
    (sorted_pairwise entries).sublist hkept.start.sublist
  have hparts : List.Forall₂ (fun entry amount => value * entry.2 / work kept ≤ amount) kept
      (portions (kept.map Prod.snd) value) := by
    have hportions : List.Forall₂ (fun w part => value * w / work kept ≤ part) (kept.map Prod.snd)
        (portions (kept.map Prod.snd) value) := Portions.portions_ge le_rfl
    rwa [List.forall₂_map_left_iff] at hportions
  have hminimum : ∀ entry ∈ kept, minPayout ≤ value * entry.2 / work kept := by
    intro entry hentry
    obtain ⟨last, hlast⟩ := Option.isSome_iff_exists.mp
      (List.getLast?_isSome.mpr (List.ne_nil_of_mem hentry))
    exact (hkept.pays last hlast).trans
      (Nat.div_le_div_right (Nat.mul_le_mul_left value (last_le hsorted hlast hentry)))
  have hamounts : List.Forall₂
      (fun entry amount => value * entry.2 / work kept ≤ amount ∧ minPayout ≤ amount) kept
      (portions (kept.map Prod.snd) value) := by
    rw [List.forall₂_iff_zip]
    refine ⟨hlength.symm, fun {entry amount} hmem => ?_⟩
    have hpart := (List.forall₂_iff_zip.mp hparts).2 hmem
    exact ⟨hpart, (hminimum entry (List.of_mem_zip hmem).1).trans hpart⟩
  refine ⟨⟨_, rfl, hamounts⟩, ?_, ?_⟩
  · rintro ⟨entry, hentry, hpos⟩
    rw [total_payouts hlength]
    apply Portions.sum_portions
    exact hpos.trans_le (List.le_sum_of_mem (List.mem_map_of_mem (f := Prod.snd) hentry))
  · intro payout hpayout
    obtain ⟨i, hi, hget⟩ := List.getElem_of_mem (mem_payouts hpayout)
    rw [← hget]
    exact ((List.forall₂_iff_get.mp hamounts).2 i (hlength ▸ hi) hi).2

/-- Where no part is worth anything nothing is paid. -/
theorem divides_nothing {entries : List (String × Nat)} {value : Nat}
    (hnothing : value = 0 ∨ ∀ entry ∈ sorted entries, entry.2 = 0) (minPayout maxOutputs : Nat) :
    ∃ kept, Kept entries value minPayout maxOutputs kept ∧ Divides kept value minPayout [] := by
  have hpart : ∀ kept, kept <+: sorted entries → ∀ entry ∈ kept,
      value * entry.2 / work kept = 0 := by
    intro kept hkept entry hentry
    obtain rfl | hzero := hnothing
    · rw [Nat.zero_mul, Nat.zero_div]
    · rw [hzero entry (hkept.subset hentry), Nat.mul_zero, Nat.zero_div]
  have htotal : ∀ kept, kept <+: sorted entries → (∃ entry ∈ kept, 0 < entry.2) →
      Suffix.total Payout.sats [] = value := by
    rintro kept hkept ⟨entry, hentry, hpos⟩
    obtain rfl | hzero := hnothing
    · rfl
    · rw [hzero entry (hkept.subset hentry)] at hpos
      cases hpos
  obtain rfl | hminimum := Nat.eq_zero_or_pos minPayout
  · have hstart := List.take_prefix maxOutputs (sorted entries)
    refine ⟨(sorted entries).take maxOutputs, ⟨hstart, List.length_take_le _ _, ?_, ?_⟩, ⟨?_, ?_, nofun⟩⟩
    · exact fun entry _ => Nat.zero_le _
    · intro longer hlonger hle _
      rw [List.length_take]
      exact le_min hle hlonger.length_le
    · refine ⟨List.replicate ((sorted entries).take maxOutputs).length 0, (payouts_zero _ _).symm, ?_⟩
      rw [List.forall₂_iff_zip]
      refine ⟨List.length_replicate.symm, fun {entry amount} hmem => ?_⟩
      rw [hpart _ hstart entry (List.of_mem_zip hmem).1]
      exact ⟨Nat.zero_le _, Nat.zero_le _⟩
    · exact htotal _ hstart
  · refine ⟨[], ⟨List.nil_prefix, Nat.zero_le _, nofun, ?_⟩, ⟨⟨[], rfl, .nil⟩, nofun, nofun⟩⟩
    intro longer hlonger _ hpays
    by_contra hlength
    obtain ⟨last, hlast⟩ := Option.isSome_iff_exists.mp
      (List.getLast?_isSome.mpr (List.length_pos_iff.mp (Nat.lt_of_not_le hlength)))
    have hle := hpays last hlast
    rw [hpart longer hlonger last (List.mem_of_getLast? hlast)] at hle
    omega

/-- The identity with the most work has some. -/
theorem head_worked {entries : List (String × Nat)} (htotal : work entries ≠ 0) {first : String × Nat}
    (hfirst : first ∈ (sorted entries).head?) : 0 < first.2 := by
  by_contra hzero
  apply htotal
  rw [← work_sorted]
  obtain ⟨rest, hrest⟩ := List.head?_eq_some_iff.mp hfirst
  have hsorted := sorted_pairwise entries
  rw [hrest] at hsorted ⊢
  rw [work, Suffix.total_cons, Suffix.total, List.sum_eq_zero]
  · omega
  · intro w hw
    obtain ⟨entry, hentry, rfl⟩ := List.mem_map.mp hw
    have hafter := (List.pairwise_cons.mp hsorted).1 entry hentry
    simp only [mostWorkFirst, Bool.or_eq_true, Bool.and_eq_true, decide_eq_true_eq] at hafter
    omega

theorem work_take_le (entries : List (String × Nat)) (n : Nat) :
    work ((sorted entries).take n) ≤ work entries := by
  rw [← work_sorted entries]
  exact ((List.take_sublist n _).map Prod.snd).sum_le_sum fun _ _ => Nat.zero_le _

theorem Kept.work_le {entries kept : List (String × Nat)} {value minPayout maxOutputs : Nat}
    (hkept : Kept entries value minPayout maxOutputs kept) : work kept ≤ work entries := by
  rw [← work_sorted entries]
  exact (hkept.start.sublist.map Prod.snd).sum_le_sum fun _ _ => Nat.zero_le _

/-- The loop keeps the longest paying start of the weights. -/
theorem dropUnder_kept {entries : List (String × Nat)} {value maxOutputs : Nat}
    (htotal : work entries ≠ 0) (hmax : maxOutputs ≠ 0) (hfits : value * work entries ≤ U128_MAX)
    (minPayout : Nat) : ∃ kept, dropUnder value minPayout ((sorted entries).take maxOutputs).reverse
      (work ((sorted entries).take maxOutputs)) = (kept.reverse, work kept) ∧
      Kept entries value minPayout maxOutputs kept := by
  have hworked : ∀ entry ∈ ((sorted entries).take maxOutputs).reverse.getLast?, 0 < entry.2 := by
    intro entry hentry
    rw [List.getLast?_reverse, List.head?_take, if_neg hmax] at hentry
    exact head_worked htotal hentry
  have hfits' := (Nat.mul_le_mul_left value (work_take_le entries maxOutputs)).trans hfits
  obtain ⟨rest, heq, hsuffix, hpays, hlongest⟩ :=
    dropUnder_spec value minPayout hworked (by rwa [work_reverse])
  rw [work_reverse] at heq
  have hstart : rest.reverse <+: (sorted entries).take maxOutputs := by
    rwa [← List.reverse_suffix, List.reverse_reverse]
  refine ⟨rest.reverse, by rw [heq, List.reverse_reverse, work_reverse],
    hstart.trans (List.take_prefix _ _), ?_, hpays, ?_⟩
  · exact hstart.length_le.trans (List.length_take_le _ _)
  · intro longer hlonger hle hlongerPays
    have hsuffix' : longer.reverse <:+ ((sorted entries).take maxOutputs).reverse := by
      rw [List.reverse_suffix]
      exact List.prefix_take_iff.mpr ⟨hlonger, hle⟩
    have hlength := hlongest longer.reverse hsuffix' (by rwa [List.reverse_reverse])
    rw [List.length_reverse] at hlength ⊢
    exact hlength

/-- The longest paying start of the weights is divided over. -/
theorem splitWith_divides (weights : Weights) {value : Nat} (hvalue : value ≤ U64_MAX)
    (hfits : value * work weights.entries ≤ U128_MAX) (minPayout maxOutputs : Nat) :
    ∃ kept, Kept weights.entries value minPayout maxOutputs kept ∧
      Divides kept value minPayout (weights.splitWith value minPayout maxOutputs) := by
  rw [splitWith]
  dsimp only
  split
  · rename_i hnone
    rw [Bool.or_eq_true, Bool.or_eq_true, decide_eq_true_eq, decide_eq_true_eq, decide_eq_true_eq] at hnone
    obtain (htotal | hzero) | rfl := hnone
    · apply divides_nothing (.inr ?_)
      intro entry hentry
      have hle : entry.2 ≤ work (sorted weights.entries) :=
        List.le_sum_of_mem (List.mem_map_of_mem (f := Prod.snd) hentry)
      rw [work_sorted, htotal] at hle
      exact Nat.le_zero.mp hle
    · exact divides_nothing (.inl hzero) minPayout maxOutputs
    · exact ⟨[], ⟨List.nil_prefix, le_rfl, nofun, fun longer _ hle _ => hle⟩, ⟨[], rfl, .nil⟩, nofun, nofun⟩
  · rename_i hsome
    rw [Bool.or_eq_true, Bool.or_eq_true, decide_eq_true_eq, decide_eq_true_eq, decide_eq_true_eq,
      not_or, not_or] at hsome
    obtain ⟨kept, heq, hkept⟩ := dropUnder_kept hsome.1.1 hsome.2 hfits minPayout
    rw [sorted] at heq
    rw [heq]
    refine ⟨kept, hkept, ?_⟩
    dsimp only
    rw [List.reverse_reverse]
    exact divides_amounts hkept hvalue ((Nat.mul_le_mul_left value hkept.work_le).trans hfits)

/-! ### The arithmetic fits -/

/-- A number that must fit a `u128`. -/
def fit128 (n : Nat) : Option Nat := if n ≤ U128_MAX then some n else none

/-- A number that must fit a `u64`. -/
def fit64 (n : Nat) : Option Nat := if n ≤ U64_MAX then some n else none

def checkedSub (a b : Nat) : Option Nat := if b ≤ a then some (a - b) else none

def checkedDiv (a b : Nat) : Option Nat := if b = 0 then none else some (a / b)

def sumChecked (entries : List (String × Nat)) : Option Nat :=
  entries.foldlM (fun sum entry => fit128 (sum + entry.2)) 0

/-- The part of an amount a work out of the rest takes. -/
def partChecked (amount w work : Nat) : Option Nat := do checkedDiv (← fit128 (amount * w)) work

/-- `dropUnder`, none when its arithmetic saturates, underflows or divides by zero. -/
def dropUnderChecked (value minPayout : Nat) :
    List (String × Nat) → Nat → Option (List (String × Nat) × Nat)
  | [], work => some ([], work)
  | (identity, w) :: larger, work =>
      if work = 0 then some ([], work)
      else do
        if minPayout ≤ (← partChecked value w work) then some ((identity, w) :: larger, work)
        else dropUnderChecked value minPayout larger (← checkedSub work w)

/-- `amounts`, none when its arithmetic saturates, truncates, underflows or divides by zero. -/
def amountsChecked : List (String × Nat) → Nat → Nat → Option (List Payout)
  | [], _, _ => some []
  | (identity, w) :: rest, work, left =>
      if work = 0 then some []
      else do
        let amount ← fit64 (← partChecked left w work)
        let out ← amountsChecked rest (← checkedSub work w) (← checkedSub left amount)
        some (if amount = 0 then out else { identity, sats := amount } :: out)

/-- `splitWith`, none when its arithmetic does not fit. -/
def splitWithChecked (weights : Weights) (value minPayout maxOutputs : Nat) : Option (List Payout) := do
  let total ← sumChecked weights.entries
  if total = 0 || value = 0 || maxOutputs = 0 then some []
  else
    let entries := (sorted weights.entries).take maxOutputs
    let (kept, left) ← dropUnderChecked value minPayout entries.reverse (← sumChecked entries)
    amountsChecked kept.reverse left value

theorem foldlM_fit128 {entries : List (String × Nat)} {sum : Nat} (hfits : sum + work entries ≤ U128_MAX) :
    entries.foldlM (fun sum entry => fit128 (sum + entry.2)) sum = some (sum + work entries) := by
  induction entries generalizing sum with
  | nil => rfl
  | cons entry rest ih =>
      have hwork : work (entry :: rest) = entry.2 + work rest := Suffix.total_cons _ _ _
      rw [hwork] at hfits ⊢
      rw [List.foldlM_cons, fit128, if_pos (by omega), Option.bind_eq_bind, Option.bind_some,
        ih (by omega), Nat.add_assoc]

theorem sumChecked_eq {entries : List (String × Nat)} (hfits : work entries ≤ U128_MAX) :
    sumChecked entries = some (work entries) := by
  rw [sumChecked, foldlM_fit128 (by rwa [Nat.zero_add]), Nat.zero_add]

theorem partChecked_eq {amount w work : Nat} (hfits : amount * w ≤ U128_MAX) (hwork : work ≠ 0) :
    partChecked amount w work = some (satMul128 amount w / work) := by
  rw [partChecked, fit128, if_pos hfits, Option.bind_eq_bind, Option.bind_some, checkedDiv, if_neg hwork,
    satMul128, Nat.min_eq_left hfits]

theorem dropUnderChecked_eq {value : Nat} (minPayout : Nat) {entries : List (String × Nat)}
    (hfits : value * work entries ≤ U128_MAX) :
    dropUnderChecked value minPayout entries (work entries) =
      some (dropUnder value minPayout entries (work entries)) := by
  induction entries with
  | nil => rfl
  | cons entry larger ih =>
      obtain ⟨identity, w⟩ := entry
      have hwork : work ((identity, w) :: larger) = w + work larger := Suffix.total_cons _ _ _
      rw [hwork] at hfits
      rw [dropUnderChecked, dropUnder, hwork]
      split
      · rfl
      · rename_i hpos
        rw [partChecked_eq ((Nat.mul_le_mul_left value (Nat.le_add_right w _)).trans hfits) hpos,
          Option.bind_eq_bind, Option.bind_some]
        split
        · rfl
        · rw [checkedSub, if_pos (Nat.le_add_right w _), Option.bind_some, Nat.add_sub_cancel_left]
          exact ih ((Nat.mul_le_mul_left value (Nat.le_add_left _ w)).trans hfits)

theorem amountsChecked_eq {entries : List (String × Nat)} {left : Nat} (hleft : left ≤ U64_MAX)
    (hfits : left * work entries ≤ U128_MAX) :
    amountsChecked entries (work entries) left = some (amounts entries (work entries) left) := by
  induction entries generalizing left with
  | nil => rfl
  | cons entry rest ih =>
      obtain ⟨identity, w⟩ := entry
      have hwork : work ((identity, w) :: rest) = w + work rest := Suffix.total_cons _ _ _
      rw [hwork] at hfits
      rw [amountsChecked, amounts, hwork]
      split
      · rfl
      · rename_i hpos
        have hpart : satMul128 left w / (w + work rest) ≤ left :=
          satMul128_div_le (Nat.le_add_right w _) (Nat.pos_of_ne_zero hpos)
        rw [partChecked_eq ((Nat.mul_le_mul_left left (Nat.le_add_right w _)).trans hfits) hpos,
          asU64_of_le (hpart.trans hleft)]
        simp only [Option.bind_eq_bind, Option.bind_some, fit64, checkedSub, if_pos (hpart.trans hleft),
          if_pos hpart, if_pos (Nat.le_add_right w (work rest)), Nat.add_sub_cancel_left]
        rw [ih ((Nat.sub_le _ _).trans hleft)]
        · rfl
        · exact (Nat.mul_le_mul (Nat.sub_le _ _) (Nat.le_add_left _ w)).trans hfits

theorem splitWithChecked_eq (weights : Weights) {value : Nat} (hvalue : value ≤ U64_MAX)
    (htotal : work weights.entries ≤ U128_MAX) (hfits : value * work weights.entries ≤ U128_MAX)
    (minPayout maxOutputs : Nat) : weights.splitWithChecked value minPayout maxOutputs =
      some (weights.splitWith value minPayout maxOutputs) := by
  have htake := work_take_le weights.entries maxOutputs
  have hfits' := (Nat.mul_le_mul_left value htake).trans hfits
  rw [splitWithChecked, splitWith, sumChecked_eq htotal, Option.bind_eq_bind, Option.bind_some]
  dsimp only
  split
  · rfl
  · rename_i hsome
    rw [Bool.or_eq_true, Bool.or_eq_true, decide_eq_true_eq, decide_eq_true_eq, decide_eq_true_eq,
      not_or, not_or] at hsome
    obtain ⟨kept, heq, hkept⟩ := dropUnder_kept hsome.1.1 hsome.2 hfits minPayout
    have hreverse := work_reverse ((sorted weights.entries).take maxOutputs)
    have hdrops := dropUnderChecked_eq minPayout (hreverse ▸ hfits')
    rw [hreverse, heq] at hdrops
    rw [sumChecked_eq (htake.trans htotal), Option.bind_some, hdrops, Option.bind_eq_bind, Option.bind_some]
    rw [sorted] at heq
    rw [heq]
    dsimp only
    rw [List.reverse_reverse]
    exact amountsChecked_eq hvalue ((Nat.mul_le_mul_left value hkept.work_le).trans hfits)

end Weights

/-- **The split is exact, fair and order-free.** While the value times the total work fits a `u128`, the
order the weights come in decides nothing, the longest paying start of them is paid the whole value, and
nothing overflows or divides by zero. -/
theorem split_exact (weights : Weights) {value : Nat} (minPayout maxOutputs : Nat)
    (hvalue : value ≤ U64_MAX) (htotal : Weights.work weights.entries ≤ U128_MAX)
    (hfits : value * Weights.work weights.entries ≤ U128_MAX) :
    (∀ entries, entries.Perm weights.entries →
      Weights.splitWith ⟨entries⟩ value minPayout maxOutputs =
        weights.splitWith value minPayout maxOutputs) ∧
    (∃ kept, Weights.Kept weights.entries value minPayout maxOutputs kept ∧
      Weights.Divides kept value minPayout (weights.splitWith value minPayout maxOutputs)) ∧
    weights.splitWithChecked value minPayout maxOutputs =
      some (weights.splitWith value minPayout maxOutputs) := by
  refine ⟨?_, ?_, ?_⟩
  · exact fun entries hperm => Weights.splitWith_perm hperm value minPayout maxOutputs
  · exact weights.splitWith_divides hvalue hfits minPayout maxOutputs
  · exact weights.splitWithChecked_eq hvalue htotal hfits minPayout maxOutputs

/-- A value divided over two identities, the larger one served first. -/
theorem split_exact_pair :
    (∃ kept, Weights.Kept [("b", 1), ("a", 2)] 100 0 2 kept ∧
      Weights.Divides kept 100 0 (Weights.splitWith ⟨[("b", 1), ("a", 2)]⟩ 100 0 2)) ∧
    Weights.splitWithChecked ⟨[("b", 1), ("a", 2)]⟩ 100 0 2 =
      some (Weights.splitWith ⟨[("b", 1), ("a", 2)]⟩ 100 0 2) :=
  (split_exact ⟨[("b", 1), ("a", 2)]⟩ 0 2 (by decide) (by decide) (by decide)).2

end Ratum
