import Ratum.Accounting.HeldHashes
import Mathlib.Data.List.Perm.Subperm

/-!
# Recent hashes are kept

`AcceptedShareHashes` with an insertion at any time up to the clock, whatever order they come in. As long as
fewer hashes than its capacity were inserted within the retention, a hash whose time is within it, by more than
the times of the entries go back, is kept by every insertion; and what was restored is what was read.
-/

namespace Ratum

namespace AcceptedShareHashes

variable {slack clock t : Nat} {order order' taken : List (Nat × Hash)} {hashes : AcceptedShareHashes}
  {hash h : Hash} {at_ now : Nat} {acceptedAt : HashMap Hash Nat} {due : Nat × Hash → List (Nat × Hash) → Bool}

/-! ### Entries and insertions -/

/-- From every entry of the order on there are no more entries than insertions, the earliest of them so much
before the entry's time. -/
def Backed (slack : Nat) (order taken : List (Nat × Hash)) : Prop :=
  ∀ entry later, entry :: later <:+ order → later.length < taken.countP fun insertion => entry.1 ≤ insertion.1 + slack

theorem Backed.of_suffix (h : Backed slack order taken) (hsuffix : order' <:+ order) : Backed slack order' taken :=
  fun entry later hlater => h entry later (hlater.trans hsuffix)

/-- One more is inserted. -/
theorem Backed.push (h : Backed slack order taken) (hpast : ∀ entry ∈ order, entry.1 ≤ clock) (hat : at_ ≤ clock) :
    Backed slack (order ++ [(at_, hash)]) (taken ++ [(clock, hash)]) := by
  rintro entry later ⟨before, horder⟩
  rw [List.countP_append]
  obtain rfl | ⟨later, last, rfl⟩ := List.eq_nil_or_concat later
  · obtain ⟨-, hentry⟩ := List.append_inj' horder rfl
    cases hentry
    have hnew : [(clock, hash)].countP (fun insertion => at_ ≤ insertion.1 + slack) = 1 := by
      rw [List.countP_singleton, if_pos (decide_eq_true (hat.trans (Nat.le_add_right _ _)))]
    rw [List.length_nil, hnew]
    exact Nat.succ_pos _
  · rw [List.concat_eq_append, ← List.cons_append, ← List.append_assoc] at horder
    obtain ⟨horder, -⟩ := List.append_inj' horder rfl
    have hentry : entry ∈ order := horder ▸ List.mem_append_right before List.mem_cons_self
    have hlater := h entry later ⟨before, horder⟩
    have hnew : [(clock, hash)].countP (fun insertion => entry.1 ≤ insertion.1 + slack) = 1 := by
      rw [List.countP_singleton, if_pos (decide_eq_true ((hpast entry hentry).trans (Nat.le_add_right _ _)))]
    rw [List.concat_eq_append, List.length_append, List.length_singleton, hnew]
    exact Nat.succ_lt_succ hlater

theorem suffix_forgetWhile : (forgetWhile due acceptedAt order).2 <:+ order := by
  induction order generalizing acceptedAt with
  | nil => exact List.suffix_refl _
  | cons oldest order ih =>
      rw [forgetWhile]
      split
      · exact ih.trans (List.suffix_cons oldest order)
      · exact List.suffix_refl _

/-- Rows recorded, each of a hash of its own, none so much before one after it or after its insertion. -/
theorem backed_rows {early late : Nat} {rows : List (Nat × Hash)} (hnodup : (rows.map Prod.snd).Nodup)
    (hsteady : rows.Pairwise fun row later => row.1 ≤ later.1 + early)
    (htaken : ∀ row ∈ rows, ∃ since, (since, row.2) ∈ taken ∧ row.1 ≤ since + late) :
    Backed (early + late) rows taken := by
  intro entry later hsuffix
  have hfrom : ∀ row ∈ entry :: later, entry.1 ≤ row.1 + early := by
    intro row hrow
    obtain rfl | hrow := List.mem_cons.mp hrow
    · exact Nat.le_add_right _ _
    · exact (List.pairwise_cons.mp (hsteady.sublist hsuffix.sublist)).1 row hrow
  have hsubset : (entry :: later).map Prod.snd ⊆
      (taken.filter fun insertion => entry.1 ≤ insertion.1 + (early + late)).map Prod.snd := by
    intro hash hmem
    obtain ⟨row, hrow, rfl⟩ := List.mem_map.mp hmem
    obtain ⟨since, hin, hsince⟩ := htaken row (hsuffix.subset hrow)
    refine List.mem_map.mpr ⟨(since, row.2), List.mem_filter.mpr ⟨hin, decide_eq_true ?_⟩, rfl⟩
    have hrow := hfrom row hrow
    show entry.1 ≤ since + (early + late)
    omega
  have hlength := ((hnodup.sublist (hsuffix.sublist.map _)).subperm hsubset).length_le
  rwa [List.length_map, List.length_map, List.length_cons, Nat.succ_le_iff, ← List.countP_eq_length_filter] at hlength

/-! ### What an insertion keeps -/

/-- The container after insertions, each stamped with the clock it was made at. -/
structure Filled (slack clock : Nat) (taken : List (Nat × Hash)) (hashes : AcceptedShareHashes) : Prop where
  backed : Backed slack hashes.order taken
  past : ∀ entry ∈ hashes.order, entry.1 ≤ clock

theorem Filled.later (h : Filled slack clock taken hashes) {clock' : Nat} (hclock : clock ≤ clock') :
    Filled slack clock' taken hashes := ⟨h.backed, fun entry hentry => (h.past entry hentry).trans hclock⟩

theorem Filled.remove (h : Filled slack clock taken hashes) : Filled slack clock taken (hashes.remove hash) :=
  ⟨h.backed, h.past⟩

/-- The container has the order's last entries. -/
theorem Filled.of_suffix (h : Filled slack clock taken hashes) {hashes' : AcceptedShareHashes}
    (hsuffix : hashes'.order <:+ hashes.order) : Filled slack clock taken hashes' :=
  ⟨h.backed.of_suffix hsuffix, fun entry hentry => h.past entry (hsuffix.subset hentry)⟩

theorem Filled.hold (h : Filled slack clock taken hashes) (hat : at_ ≤ clock) :
    Filled slack clock (taken ++ addsTaking (hashes.hold hash at_ now).1 (some (clock, hash)))
      (hashes.hold hash at_ now).2 := by
  have hexpired : Filled slack clock taken (hashes.expire now) := h.of_suffix suffix_forgetWhile
  unfold AcceptedShareHashes.hold
  dsimp only
  split
  · rw [addsTaking, if_neg Bool.false_ne_true, List.append_nil]
    exact hexpired
  · rw [addsTaking, if_pos rfl]
    have hroom : Filled slack clock taken (hashes.expire now).makeRoom := hexpired.of_suffix suffix_forgetWhile
    refine ⟨hroom.backed.push hroom.past hat, fun entry hentry => ?_⟩
    obtain hentry | hentry := List.mem_append.mp hentry
    · exact hroom.past entry hentry
    · obtain rfl := List.mem_singleton.mp hentry
      exact hat

/-- Fewer hashes than the capacity were inserted within the retention. -/
def Few (clock capacity : Nat) (taken : List (Nat × Hash)) : Prop :=
  taken.countP (fun insertion => clock ≤ insertion.1 + ACCEPTED_HASH_RETENTION_SECS) < capacity

/-- Making room takes out no hash of a time within the retention. -/
theorem lookup_makeRoom (hbacked : Backed slack hashes.order taken) (hfew : Few clock hashes.capacity taken)
    (hheld : hashes.acceptedAt.lookup h = some t) (hrecent : clock + slack ≤ t + ACCEPTED_HASH_RETENTION_SECS) :
    hashes.makeRoom.acceptedAt.lookup h = some t := by
  have hroom : ∀ (order : List (Nat × Hash)) (acceptedAt : HashMap Hash Nat), Backed slack order taken →
      acceptedAt.lookup h = some t →
        (forgetWhile (fun _ order => decide (hashes.capacity ≤ order.length + 1)) acceptedAt order).1.lookup h =
          some t := by
    intro order
    induction order with
    | nil => exact fun _ _ hheld => hheld
    | cons oldest order ih =>
        intro acceptedAt hbacked hheld
        rw [forgetWhile]
        split
        · rename_i hfull
          refine ih _ (hbacked.of_suffix (List.suffix_cons oldest order)) (lookup_forget_of_ne ?_ hheld)
          rintro rfl
          have hlater : order.length < taken.countP fun insertion => t ≤ insertion.1 + slack :=
            hbacked (t, h) order (List.suffix_refl _)
          have hwithin : taken.countP (fun insertion => t ≤ insertion.1 + slack) ≤
              taken.countP fun insertion => clock ≤ insertion.1 + ACCEPTED_HASH_RETENTION_SECS := by
            refine List.countP_mono_left fun insertion _ hsince => decide_eq_true ?_
            have hsince : t ≤ insertion.1 + slack := of_decide_eq_true hsince
            omega
          have hfull : hashes.capacity ≤ order.length + 1 := of_decide_eq_true hfull
          unfold Few at hfew
          omega
        · exact hheld
  exact hroom _ _ hbacked hheld

/-- **A recent hash is kept** by every insertion, and is not inserted again. -/
theorem Filled.kept (hfilled : Filled slack clock taken hashes) (hfew : Few clock hashes.capacity taken)
    (hnow : now ≤ clock) (hmax : now ≤ U64_MAX) (hheld : hashes.acceptedAt.lookup h = some t)
    (hrecent : clock + slack ≤ t + ACCEPTED_HASH_RETENTION_SECS) :
    (hashes.hold hash at_ now).2.acceptedAt.lookup h = some t ∧
      (hash = h → (hashes.hold hash at_ now).1 = false) := by
  have hexpired : (hashes.expire now).acceptedAt.lookup h = some t :=
    lookup_expire hheld (le_min (by omega) hmax)
  unfold AcceptedShareHashes.hold
  dsimp only
  split
  · exact ⟨hexpired, fun _ => rfl⟩
  · rename_i hnone
    have hne : h ≠ hash := by
      rintro rfl
      exact hnone (by rw [contains, hexpired]; rfl)
    have hroom : (hashes.expire now).makeRoom.acceptedAt.lookup h = some t :=
      lookup_makeRoom (hfilled.backed.of_suffix suffix_forgetWhile) hfew hexpired hrecent
    exact ⟨(AList.lookup_insert_ne hne).trans hroom, fun heq => absurd heq.symm hne⟩

theorem capacity_hold : (hashes.hold hash at_ now).2.capacity = hashes.capacity := by
  unfold AcceptedShareHashes.hold
  dsimp only
  split <;> rfl

/-! ### What is restored -/

/-- A row restored where nothing has expired, its hash is not held and there is room. -/
theorem restore_eq (hrecent : ∀ entry ∈ hashes.order, now ≤ satAdd64 entry.1 ACCEPTED_HASH_RETENTION_SECS)
    (hnone : hashes.contains hash = false) (hroom : hashes.order.length < hashes.capacity) :
    (hashes.restore hash at_ now).2 =
      { hashes with acceptedAt := hashes.acceptedAt.insert hash at_, order := hashes.order ++ [(at_, hash)] } := by
  have hkeep : ∀ {due : Nat × Hash → List (Nat × Hash) → Bool} {acceptedAt : HashMap Hash Nat}
      {order : List (Nat × Hash)}, (∀ entry later, order = entry :: later → due entry later = false) →
        forgetWhile due acceptedAt order = (acceptedAt, order) := by
    intro due acceptedAt order hdue
    cases order with
    | nil => rfl
    | cons oldest order => rw [forgetWhile, hdue oldest order rfl, if_neg Bool.false_ne_true]
  have hexpire : hashes.expire now = hashes := by
    unfold expire
    rw [hkeep]
    intro entry later horder
    exact decide_eq_false (Nat.not_lt.mpr (hrecent entry (horder ▸ List.mem_cons_self)))
  have hmake : hashes.makeRoom = hashes := by
    unfold makeRoom
    rw [hkeep]
    intro entry later horder
    rw [horder] at hroom
    exact decide_eq_false (Nat.not_le.mpr hroom)
  unfold restore AcceptedShareHashes.hold
  rw [hexpire, if_neg (by rw [hnone]; exact Bool.false_ne_true), hmake]

/-- **What is read back is held**: rows within the retention, no more than there is room for. -/
theorem fromRows_spec {rows : List (Nat × Hash)} (hnodup : (rows.map Prod.snd).Nodup)
    (hrecent : ∀ row ∈ rows, now ≤ satAdd64 row.1 ACCEPTED_HASH_RETENTION_SECS)
    (hroom : rows.length ≤ MAX_ACCEPTED_HASHES) :
    (fromRows rows now).order = rows ∧ (fromRows rows now).capacity = MAX_ACCEPTED_HASHES ∧
      ∀ row ∈ rows, (fromRows rows now).acceptedAt.lookup row.2 = some row.1 := by
  have hfold : ∀ (rows done : List (Nat × Hash)) (hashes : AcceptedShareHashes), ((done ++ rows).map Prod.snd).Nodup →
      (∀ row ∈ done ++ rows, now ≤ satAdd64 row.1 ACCEPTED_HASH_RETENTION_SECS) →
      (done ++ rows).length ≤ hashes.capacity → hashes.order = done →
      (∀ h, hashes.contains h = true ↔ h ∈ done.map Prod.snd) →
      (∀ row ∈ done, hashes.acceptedAt.lookup row.2 = some row.1) →
      (rows.foldl (fun hashes row => (hashes.restore row.2 row.1 now).2) hashes).order = done ++ rows ∧
        (rows.foldl (fun hashes row => (hashes.restore row.2 row.1 now).2) hashes).capacity = hashes.capacity ∧
        ∀ row ∈ done ++ rows, (rows.foldl (fun hashes row => (hashes.restore row.2 row.1 now).2)
          hashes).acceptedAt.lookup row.2 = some row.1 := by
    intro rows
    induction rows with
    | nil =>
        intro done hashes _ _ _ horder _ hheld
        rw [List.append_nil]
        exact ⟨horder, rfl, hheld⟩
    | cons row rows ih =>
        intro done hashes hnodup hrecent hroom horder hcontains hheld
        have hfresh : row.2 ∉ done.map Prod.snd := by
          rw [List.map_append, List.map_cons] at hnodup
          exact fun hmem => (List.nodup_append.mp hnodup).2.2 _ hmem _ List.mem_cons_self rfl
        have hspace : hashes.order.length < hashes.capacity := by
          rw [List.length_append, List.length_cons] at hroom
          rw [horder]
          omega
        have hrestored : (hashes.restore row.2 row.1 now).2 = _ := restore_eq
          (fun entry hentry => hrecent entry (List.mem_append_left _ (horder ▸ hentry)))
          (Bool.eq_false_iff.mpr fun hheld => hfresh ((hcontains _).mp hheld)) hspace
        rw [List.foldl_cons, ← List.singleton_append, ← List.append_assoc, hrestored]
        refine ih (done ++ [row]) _ ?_ ?_ ?_ (by rw [horder]) ?_ ?_
        · rwa [List.append_assoc, List.singleton_append]
        · rwa [List.append_assoc, List.singleton_append]
        · rwa [List.append_assoc, List.singleton_append]
        · intro h
          rw [List.map_append, List.map_singleton, List.mem_append, List.mem_singleton, ← hcontains, contains,
            contains]
          by_cases heq : h = row.2
          · subst heq
            simp [AList.lookup_insert]
          · simp [AList.lookup_insert_ne heq, heq]
        · intro other hother
          obtain hother | hother := List.mem_append.mp hother
          · rw [AList.lookup_insert_ne]
            · exact hheld other hother
            · exact fun heq => hfresh (heq ▸ List.mem_map_of_mem hother)
          · obtain rfl := List.mem_singleton.mp hother
            exact AList.lookup_insert ..
  have hstart := hfold rows [] (.new MAX_ACCEPTED_HASHES) hnodup hrecent (hroom.trans (Nat.le_max_left _ _)) rfl
    (fun h => by rw [contains, new, AList.lookup_empty]; simp) (fun row hrow => by cases hrow)
  exact hstart

end AcceptedShareHashes

end Ratum
