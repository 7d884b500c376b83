import Ratum.Abw.History

/-!
# A slot key is revealed on time and never early

What a slot holds agrees with the life of its keys: a retired slot's reveal is due when the delay has
passed since the first close after its retirement, or since the retirement itself, and a key that was
revealed was due.
-/

namespace Ratum

/-- Every key of the list was revealed. -/
def AllRevealed (lives : List KeyLife) : Prop := ∀ life ∈ lives, life.revealedAt.isSome

/-- What a slot holds and the life of its keys agree. -/
def Slot.Agrees (clock : Instant) : Slot → List KeyLife → Prop
  | .empty, lives => lives = []
  | .seeded key, lives => ∃ past, lives = .fresh key :: past ∧ AllRevealed past
  | .retired key revealAt onOpen, lives =>
      ∃ retiredAt closedAt past, lives = ⟨key, some retiredAt, closedAt, none⟩ :: past ∧
        AllRevealed past ∧ revealAt = closedAt.getD retiredAt + REVEAL_AFTER ∧
        onOpen = closedAt.isNone ∧ retiredAt ≤ closedAt.getD retiredAt ∧ retiredAt ≤ clock
  | .revealed key _, lives =>
      ∃ life past, lives = life :: past ∧ life.key = key ∧ life.revealedAt.isSome ∧
        life.Due clock ∧ AllRevealed past

/-- The session's slots agree with their history, and the slot seeded last is the one active. -/
structure AbwSlotState.Over (clock : Instant) (abw : AbwSlotState) (history : History) : Prop where
  slots : ∀ slot, (abw.slots slot).Agrees clock (history.lives slot)
  newest : history.newest = abw.active
  seeded : ∀ slot, (∃ key, abw.slots slot = .seeded key) ↔ slot = abw.active

/-- A reveal discloses the newest key of its slot, which is due. -/
def PendingReveal.OnTime (history : History) (now : Instant) (reveal : PendingReveal) : Prop :=
  ∃ life past, history.lives reveal.slot = life :: past ∧
    reveal.payload = ⟨reveal.slot, life.key⟩ ∧ life.Due now

variable {clock now : Instant} {abw : AbwSlotState} {history : History} {slot : SlotId}
  {entry : Slot} {lives : List KeyLife}

theorem KeyLife.Due.mono {life : KeyLife} (h : life.Due clock) (hnow : clock ≤ now) :
    life.Due now := by
  obtain ⟨retiredAt, hretired, hdelay, hclosed⟩ := h
  exact ⟨retiredAt, hretired, hdelay.trans hnow, fun c hc => (hclosed c hc).trans hnow⟩

theorem Slot.Agrees.mono (h : entry.Agrees clock lives) (hnow : clock ≤ now) :
    entry.Agrees now lives := by
  cases entry with
  | empty => exact h
  | seeded key => exact h
  | retired key revealAt onOpen =>
      obtain ⟨retiredAt, closedAt, past, hlives, hpast, hat, hopen, hle, hclock⟩ := h
      exact ⟨retiredAt, closedAt, past, hlives, hpast, hat, hopen, hle, hclock.trans hnow⟩
  | revealed key resendAt =>
      obtain ⟨life, past, hlives, hkey, hrevealed, hdue, hpast⟩ := h
      exact ⟨life, past, hlives, hkey, hrevealed, hdue.mono hnow, hpast⟩

theorem AbwSlotState.Over.mono (h : abw.Over clock history) (hnow : clock ≤ now) :
    abw.Over now history :=
  ⟨fun slot => (h.slots slot).mono hnow, h.newest, h.seeded⟩

/-! ### Closing -/

theorem AllRevealed.close (h : AllRevealed lives) (closedAt : Instant) :
    lives.map (KeyLife.close closedAt) = lives := by
  conv_rhs => rw [← List.map_id lives]
  apply List.map_congr_left
  intro life hlife
  obtain ⟨revealedAt, hrevealed⟩ := Option.isSome_iff_exists.mp (h life hlife)
  simp [KeyLife.close, hrevealed]

theorem Slot.Agrees.close (h : entry.Agrees clock lives) {closedAt : Instant}
    (hnow : clock ≤ closedAt) :
    (entry.resume closedAt).Agrees closedAt (lives.map (KeyLife.close closedAt)) := by
  replace h := h.mono hnow
  cases entry with
  | empty =>
      rw [show lives = [] from h]
      rfl
  | seeded key =>
      obtain ⟨past, rfl, hpast⟩ := h
      exact ⟨past, by rw [List.map_cons, hpast.close]; rfl, hpast⟩
  | retired key revealAt onOpen =>
      obtain ⟨retiredAt, first, past, rfl, hpast, rfl, rfl, hle, hclock⟩ := h
      rw [List.map_cons, hpast.close]
      cases first with
      | none =>
          exact ⟨retiredAt, some closedAt, past, rfl, hpast, rfl, rfl, hclock, hclock⟩
      | some first => exact ⟨retiredAt, some first, past, rfl, hpast, rfl, rfl, hle, hclock⟩
  | revealed key resendAt =>
      obtain ⟨life, past, rfl, hkey, hrevealed, hdue, hpast⟩ := h
      have hsame : (life :: past).map (KeyLife.close closedAt) = life :: past := by
        refine AllRevealed.close (fun l hl => ?_) closedAt
        rcases List.mem_cons.mp hl with rfl | hl
        · exact hrevealed
        · exact hpast l hl
      rw [hsame]
      cases resendAt <;> exact ⟨life, past, rfl, hkey, hrevealed, hdue, hpast⟩

theorem Slot.seeded_resume {closedAt : Instant} {key : XorKey} :
    entry.resume closedAt = .seeded key ↔ entry = .seeded key := by
  unfold Slot.resume
  split <;> simp

theorem AbwSlotState.Over.close (h : abw.Over clock history) {closedAt : Instant}
    (hnow : clock ≤ closedAt) : (abw.resume closedAt).Over closedAt (history.close closedAt) where
  slots slot := (h.slots slot).close hnow
  newest := h.newest
  seeded slot := by
    simp only [AbwSlotState.resume, Slot.seeded_resume]
    exact h.seeded slot

/-! ### Revealing -/

theorem Slot.Agrees.retired_due {key : XorKey} {revealAt : Instant} {onOpen : Bool}
    (h : (Slot.retired key revealAt onOpen).Agrees now lives) (hdue : revealAt ≤ now) :
    ∃ life past, lives = life :: past ∧ life.key = key ∧ life.Due now ∧ AllRevealed past := by
  obtain ⟨retiredAt, closedAt, past, rfl, hpast, rfl, -, hle, -⟩ := h
  have hdelay : retiredAt + REVEAL_AFTER ≤ now := (Nat.add_le_add_right hle _).trans hdue
  refine ⟨_, past, rfl, rfl, ⟨retiredAt, rfl, hdelay, ?_⟩, hpast⟩
  rintro c rfl
  exact hdue

/-- A slot that is not retired before its reveal is due reveals its newest key, if any, on time. -/
theorem AbwSlotState.Over.reveal (h : abw.Over now history)
    (hdue : ∀ key revealAt onOpen, abw.slots slot = .retired key revealAt onOpen → revealAt ≤ now) :
    (abw.reveal slot).2.Over now (history.revealAll now (abw.reveal slot).1.toList) ∧
      ∀ reveal ∈ (abw.reveal slot).1, reveal.OnTime history now := by
  have hslot := h.slots slot
  -- Both kinds of reveal leave the slot's key revealed, under a life that was due.
  have hreveals : ∀ key resend, (∀ k, abw.slots slot ≠ .seeded k) →
      (∃ life past, history.lives slot = life :: past ∧ life.key = key ∧ life.Due now ∧
        AllRevealed past) →
      (abw.setSlot slot (.revealed key none)).Over now (history.reveal now slot) ∧
        PendingReveal.OnTime history now ⟨slot, resend, ⟨slot, key⟩⟩ := by
    rintro key resend hne ⟨life, past, hlives, rfl, hlife, hpast⟩
    refine ⟨⟨fun i => ?_, h.newest, fun i => ?_⟩, life, past, hlives, rfl, hlife⟩
    · by_cases hi : i = slot
      · subst hi
        rw [AbwSlotState.slots_setSlot_self, History.reveal, History.lives_modify_self, hlives]
        refine ⟨life.reveal now, past, rfl, rfl, ?_, hlife, hpast⟩
        show (life.revealedAt.or (some now)).isSome
        cases life.revealedAt <;> rfl
      · rw [AbwSlotState.slots_setSlot_of_ne hi, History.reveal, History.lives_modify_of_ne hi]
        exact h.slots i
    · rw [AbwSlotState.active_setSlot, ← h.seeded i]
      by_cases hi : i = slot
      · subst hi
        simp [hne]
      · rw [AbwSlotState.slots_setSlot_of_ne hi]
  unfold AbwSlotState.reveal
  split
  · next key revealAt onOpen hentry =>
    rw [hentry] at hslot
    obtain ⟨hover, htime⟩ := hreveals key false (by simp [hentry])
      (hslot.retired_due (hdue key revealAt onOpen hentry))
    refine ⟨hover, ?_⟩
    rintro _ ⟨⟩
    exact htime
  · next key resendAt hentry =>
    rw [hentry] at hslot
    obtain ⟨life, past, hlives, hkey, -, hlife, hpast⟩ := hslot
    obtain ⟨hover, htime⟩ := hreveals key true (by simp [hentry])
      ⟨life, past, hlives, hkey, hlife, hpast⟩
    refine ⟨hover, ?_⟩
    rintro _ ⟨⟩
    exact htime
  · refine ⟨h, ?_⟩
    rintro _ ⟨⟩

theorem PendingReveal.OnTime.of_reveal {reveal : PendingReveal}
    (h : reveal.OnTime (history.reveal now slot) now) : reveal.OnTime history now := by
  obtain ⟨life, past, hlives, hpayload, hdue⟩ := h
  by_cases hi : reveal.slot = slot
  · rw [← hi, History.reveal, History.lives_modify_self] at hlives
    cases hall : history.lives reveal.slot with
    | nil =>
        rw [hall] at hlives
        cases hlives
    | cons first rest =>
        rw [hall] at hlives
        obtain ⟨rfl, rfl⟩ := List.cons.inj hlives
        exact ⟨first, rest, hall, hpayload, hdue⟩
  · rw [History.reveal, History.lives_modify_of_ne hi] at hlives
    exact ⟨life, past, hlives, hpayload, hdue⟩

theorem AbwSlotState.reveal_retired_of_ne {i : SlotId} {key : XorKey} {revealAt : Instant}
    {onOpen : Bool} (h : (abw.reveal slot).2.slots i = .retired key revealAt onOpen) :
    abw.slots i = .retired key revealAt onOpen := by
  by_cases hi : i = slot
  · subst hi
    unfold AbwSlotState.reveal at h
    split at h
    · rw [AbwSlotState.slots_setSlot_self] at h
      cases h
    · rw [AbwSlotState.slots_setSlot_self] at h
      cases h
    · exact h
  · rwa [AbwSlotState.slots_reveal_of_ne hi] at h

/-- The reveals of slots that are due are on time. -/
theorem AbwSlotState.Over.revealAll {slots : List SlotId} (h : abw.Over now history)
    (hdue : ∀ slot ∈ slots, ∀ key revealAt onOpen,
      abw.slots slot = .retired key revealAt onOpen → revealAt ≤ now) :
    (abw.revealAll slots).2.Over now (history.revealAll now (abw.revealAll slots).1) ∧
      ∀ reveal ∈ (abw.revealAll slots).1, reveal.OnTime history now := by
  induction slots generalizing abw history with
  | nil => exact ⟨h, fun reveal hreveal => absurd hreveal List.not_mem_nil⟩
  | cons slot slots ih =>
      obtain ⟨hover, htime⟩ := h.reveal (hdue slot (List.mem_cons_self ..))
      obtain ⟨hover', htime'⟩ := ih hover fun i hi key revealAt onOpen hentry =>
        hdue i (List.mem_cons_of_mem _ hi) key revealAt onOpen
          (AbwSlotState.reveal_retired_of_ne hentry)
      rw [AbwSlotState.revealAll]
      refine ⟨?_, fun reveal hreveal => ?_⟩
      · rw [History.revealAll, List.foldl_append]
        exact hover'
      · rcases List.mem_append.mp hreveal with hhead | htail
        · exact htime reveal (Option.mem_toList.mp hhead)
        · have hlater := htime' reveal htail
          cases hone : (abw.reveal slot).1 with
          | none =>
              rw [hone] at hlater
              exact hlater
          | some first =>
              rw [hone] at hlater
              exact hlater.of_reveal

theorem AbwSlotState.Over.revealsDue (h : abw.Over now history) :
    (abw.revealsDue now).2.Over now (history.revealAll now (abw.revealsDue now).1) ∧
      ∀ reveal ∈ (abw.revealsDue now).1, reveal.OnTime history now := by
  unfold AbwSlotState.revealsDue
  split
  · exact ⟨h, fun reveal hreveal => absurd hreveal List.not_mem_nil⟩
  · refine h.revealAll fun slot hslot key revealAt onOpen hentry => ?_
    have hdue := (List.mem_filter.mp hslot).2
    rw [AbwSlotState.isDue, hentry] at hdue
    simpa [Slot.dueAt] using hdue

theorem AbwSlotState.revealAll_retired {slots : List SlotId} {i : SlotId} {key : XorKey}
    {revealAt : Instant} {onOpen : Bool}
    (h : (abw.revealAll slots).2.slots i = .retired key revealAt onOpen) :
    i ∉ slots ∧ abw.slots i = .retired key revealAt onOpen := by
  induction slots generalizing abw with
  | nil => exact ⟨List.not_mem_nil, h⟩
  | cons slot slots ih =>
      obtain ⟨hnot, hentry⟩ := ih h
      have hbefore := AbwSlotState.reveal_retired_of_ne hentry
      refine ⟨fun hmem => ?_, hbefore⟩
      rcases List.mem_cons.mp hmem with rfl | hmem
      · simp [hbefore] at hentry
      · exact hnot hmem

/-- Once the hold has ended, no key that is due stays unrevealed. -/
theorem AbwSlotState.revealsDue_done (hheld : abw.held now = false) {key : XorKey}
    {revealAt : Instant} {onOpen : Bool}
    (h : (abw.revealsDue now).2.slots slot = .retired key revealAt onOpen) : now < revealAt := by
  rw [AbwSlotState.revealsDue, hheld, if_neg Bool.false_ne_true] at h
  obtain ⟨hnot, hentry⟩ := AbwSlotState.revealAll_retired h
  by_contra hdue
  apply hnot
  rw [List.mem_filter, AbwSlotState.isDue, hentry]
  refine ⟨List.mem_finRange slot, ?_⟩
  simpa [Slot.dueAt] using hdue

/-! ### Rotating -/

theorem AbwSlotState.Over.retire (h : abw.Over now history) {key : XorKey}
    (hactive : abw.slots abw.active = .seeded key) (i : SlotId) :
    ((abw.retire abw.active now).slots i).Agrees now ((history.retire now).lives i) := by
  by_cases hi : i = abw.active
  · subst hi
    have hslot := h.slots abw.active
    rw [hactive] at hslot
    obtain ⟨past, hlives, hpast⟩ := hslot
    rw [AbwSlotState.slots_retire_self hactive, History.retire, h.newest, History.lives_modify_self,
      hlives]
    exact ⟨now, none, past, rfl, hpast, rfl, rfl, le_rfl, le_rfl⟩
  · rw [AbwSlotState.slots_retire_of_ne hi, History.retire, h.newest, History.lives_modify_of_ne hi]
    exact h.slots i

theorem AbwSlotState.Over.seed (h : ∀ i, (abw.slots i).Agrees now (history.lives i))
    (hseeded : ∀ i key, abw.slots i ≠ .seeded key) (hpast : AllRevealed (history.lives slot))
    (key : XorKey) : (abw.seed slot key).Over now (history.seed slot key) where
  slots i := by
    by_cases hi : i = slot
    · subst hi
      rw [AbwSlotState.slots_seed_self]
      exact ⟨history.lives i, History.lives_modify_self .., hpast⟩
    · rw [AbwSlotState.slots_seed_of_ne hi]
      have hlives : (history.seed slot key).lives i = history.lives i :=
        History.lives_modify_of_ne hi _
      rw [hlives]
      exact h i
  newest := rfl
  seeded i := by
    rw [AbwSlotState.active_seed]
    constructor
    · rintro ⟨k, hk⟩
      by_contra hi
      rw [AbwSlotState.slots_seed_of_ne hi] at hk
      exact hseeded i k hk
    · rintro rfl
      exact ⟨key, AbwSlotState.slots_seed_self ..⟩

/-- A slot a rotation may activate holds no key, or one that was revealed. -/
theorem AbwSlotState.Over.next_revealed (h : abw.Over now history)
    (hnext : abw.nextSlotRevealAt = none) : AllRevealed (history.lives abw.nextSlot) := by
  have hslot := h.slots abw.nextSlot
  unfold AbwSlotState.nextSlotRevealAt at hnext
  cases hentry : abw.slots abw.nextSlot with
  | empty =>
      rw [hentry] at hslot
      rw [show history.lives abw.nextSlot = [] from hslot]
      exact fun life hlife => absurd hlife List.not_mem_nil
  | seeded key => exact absurd ((h.seeded _).mp ⟨key, hentry⟩) abw.nextSlot_ne_active
  | retired key revealAt onOpen =>
      rw [hentry] at hnext
      cases hnext
  | revealed key resendAt =>
      rw [hentry] at hslot
      obtain ⟨life, past, hlives, -, hrevealed, -, hpast⟩ := hslot
      rw [hlives]
      intro l hl
      rcases List.mem_cons.mp hl with rfl | hl
      · exact hrevealed
      · exact hpast l hl

theorem AllRevealed.revealAll (h : AllRevealed (history.lives slot)) (reveals : List PendingReveal) :
    AllRevealed ((history.revealAll now reveals).lives slot) := by
  induction reveals generalizing history with
  | nil => exact h
  | cons reveal reveals ih =>
      apply ih
      show AllRevealed ((history.reveal now reveal.slot).lives slot)
      by_cases hi : slot = reveal.slot
      · subst hi
        rw [History.reveal, History.lives_modify_self]
        cases hlives : history.lives reveal.slot with
        | nil => exact fun life hlife => absurd hlife List.not_mem_nil
        | cons first past =>
            rw [hlives] at h
            intro life hlife
            rcases List.mem_cons.mp hlife with rfl | hlife
            · show (first.revealedAt.or (some now)).isSome
              cases first.revealedAt <;> rfl
            · exact h life (List.mem_cons_of_mem _ hlife)
      · rw [History.reveal, History.lives_modify_of_ne hi]
        exact h

theorem AbwSlotState.nextSlotRevealAt_of_due {why : String} (h : abw.rotationDue now = some why) :
    abw.nextSlotRevealAt = none := by
  unfold AbwSlotState.rotationDue at h
  split at h
  · cases h
  · next hnot =>
    simp only [Bool.or_eq_true, not_or, Bool.not_eq_true, Option.isSome_eq_false_iff,
      Option.isNone_iff_eq_none] at hnot
    exact hnot.2

/-- A rotation that finds the next slot's key revealed keeps the session in step with its history, and
what it sends again is on time. -/
theorem AbwSlotState.Over.rotate (h : abw.Over now history)
    (hnext : abw.nextSlotRevealAt = none) (xorKeyHash : XorKey → Hash) (key : XorKey) :
    let rotated := abw.rotate xorKeyHash now key
    rotated.2.Over now
        (((history.revealAll now rotated.1.reveals).retire now).seed abw.nextSlot key) ∧
      ∀ reveal ∈ rotated.1.reveals, reveal.OnTime history now := by
  have hnone : ∀ k revealAt onOpen,
      abw.slots abw.nextSlot = .retired k revealAt onOpen → revealAt ≤ now := by
    intro k revealAt onOpen hentry
    simp [AbwSlotState.nextSlotRevealAt, hentry] at hnext
  obtain ⟨hover, htime⟩ := h.reveal hnone
  obtain ⟨active, hactive⟩ := (hover.seeded _).mpr rfl
  have hretired := hover.retire hactive
  have hsame : (abw.reveal abw.nextSlot).2.active = abw.active := AbwSlotState.active_reveal ..
  rw [hsame] at hactive hretired
  have hpast : AllRevealed (((history.revealAll now
      (abw.reveal abw.nextSlot).1.toList).retire now).lives abw.nextSlot) := by
    rw [History.retire, History.lives_modify_of_ne]
    · exact (h.next_revealed hnext).revealAll _
    · rw [hover.newest, hsame]
      exact abw.nextSlot_ne_active
  have hseeded : ∀ i k, ((abw.reveal abw.nextSlot).2.retire abw.active now).slots i ≠ .seeded k := by
    intro i k hk
    by_cases hi : i = abw.active
    · subst hi
      rw [AbwSlotState.slots_retire_self hactive] at hk
      cases hk
    · rw [AbwSlotState.slots_retire_of_ne hi] at hk
      exact hi (hsame ▸ (hover.seeded i).mp ⟨k, hk⟩)
  have hseed := AbwSlotState.Over.seed hretired hseeded hpast key
  exact ⟨⟨hseed.slots, hseed.newest, hseed.seeded⟩,
    fun reveal hreveal => htime reveal (Option.mem_toList.mp hreveal)⟩

/-! ### One step, and every run -/

theorem AbwSlotState.notePublished_slots (abw : AbwSlotState) (slot : UInt8) :
    (abw.notePublished slot).2.slots = abw.slots ∧
      (abw.notePublished slot).2.active = abw.active := by
  unfold AbwSlotState.notePublished
  split
  · split
    · exact ⟨rfl, rfl⟩
    · dsimp only
      split <;> exact ⟨rfl, rfl⟩
  · exact ⟨rfl, rfl⟩

theorem AbwSlotState.Over.of_same {abw' : AbwSlotState} (h : abw.Over clock history)
    (hslots : abw'.slots = abw.slots) (hactive : abw'.active = abw.active) :
    abw'.Over clock history := by
  refine ⟨fun i => ?_, h.newest.trans hactive.symm, fun i => ?_⟩
  · rw [hslots]
    exact h.slots i
  · rw [hslots, hactive]
    exact h.seeded i

/-- What a step sends is on time, and it seeds a slot only once the slot's keys were all revealed. -/
theorem AbwStep.spec {xorKeyHash : XorKey → Hash} {r r' : AbwRun} {event : AbwEvent}
    (h : r.abw.Over r.clock r.history) (hstep : AbwStep xorKeyHash r event r') :
    r'.abw.Over r'.clock r'.history ∧
      (∀ reveal ∈ event.reveals, reveal.OnTime r.history r'.clock) ∧
      ∀ now slot key reveals, event = .rotated now slot key reveals →
        AllRevealed (r.history.lives slot) := by
  cases hstep with
  | connect openedAt => exact ⟨h.of_same rfl rfl, by rintro _ ⟨⟩, by rintro _ _ _ _ ⟨⟩⟩
  | noteShare => exact ⟨h.of_same rfl rfl, by rintro _ ⟨⟩, by rintro _ _ _ _ ⟨⟩⟩
  | noteTip hnow => exact ⟨(h.mono hnow).of_same rfl rfl, by rintro _ ⟨⟩, by rintro _ _ _ _ ⟨⟩⟩
  | notePublished slot =>
      obtain ⟨hslots, hactive⟩ := r.abw.notePublished_slots slot
      exact ⟨h.of_same hslots hactive, by rintro _ ⟨⟩, by rintro _ _ _ _ ⟨⟩⟩
  | rotate key hdueAt hdue hnow =>
      have hnext := AbwSlotState.nextSlotRevealAt_of_due hdue
      have hnow' := h.mono (hdueAt.trans hnow)
      obtain ⟨hover, htime⟩ := hnow'.rotate hnext xorKeyHash key
      refine ⟨hover, htime, ?_⟩
      rintro _ _ _ _ ⟨⟩
      exact h.next_revealed hnext
  | revealsDue hnow =>
      obtain ⟨hover, htime⟩ := (h.mono hnow).revealsDue
      exact ⟨hover, htime, by rintro _ _ _ _ ⟨⟩⟩
  | close hnow => exact ⟨h.close hnow, by rintro _ ⟨⟩, by rintro _ _ _ _ ⟨⟩⟩

theorem AbwSlotState.start_over (now : Instant) (key : XorKey) :
    (AbwSlotState.start now key).Over now (.start key) := by
  have hempty : AbwSlotState.Over now
      ((AbwSlotState.mk (fun _ => .empty) 0 0 now now false fun _ => false).seed 0 key)
      ((History.mk (fun _ => []) 0).seed 0 key) := by
    apply AbwSlotState.Over.seed
    · intro i
      rfl
    · rintro i k ⟨⟩
    · exact fun life h => absurd h List.not_mem_nil
  exact hempty

theorem abwRuns_over {xorKeyHash : XorKey → Hash} {trace : List AbwEvent} {r : AbwRun}
    (hrun : (abwRuns xorKeyHash).Run trace r) : r.abw.Over r.clock r.history := by
  refine hrun.invariant (I := fun _ r => r.abw.Over r.clock r.history) ?_ ?_
  · rintro _ ⟨now, key, rfl⟩
    exact AbwSlotState.start_over now key
  · intro trace r event r' h hstep
    exact (hstep.spec h).1

/-- **A slot key is revealed on time and never early.** In every state a run of a session reaches, one
slot is seeded, the active one, with the newest key; the reveal of a retired key is due when the delay
has passed since the first close after its retirement, or since the retirement; and every step from there
sends only reveals that are due, and seeds a slot again only once its keys were revealed. -/
theorem slot_key_revealed_on_time {xorKeyHash : XorKey → Hash} {trace : List AbwEvent} {r : AbwRun}
    (hrun : (abwRuns xorKeyHash).Run trace r) :
    (∀ slot, (∃ key, r.abw.slots slot = .seeded key) ↔ slot = r.abw.active) ∧
    r.abw.active = r.history.newest ∧
    (∃ past, ∃ key, r.abw.slots r.abw.active = .seeded key ∧
      r.history.lives r.history.newest = .fresh key :: past) ∧
    (∀ slot key revealAt onOpen, r.abw.slots slot = .retired key revealAt onOpen →
      ∃ retiredAt closedAt past,
        r.history.lives slot = ⟨key, some retiredAt, closedAt, none⟩ :: past ∧
        revealAt = closedAt.getD retiredAt + REVEAL_AFTER) ∧
    ∀ event r', AbwStep xorKeyHash r event r' →
      (∀ reveal ∈ event.reveals, reveal.OnTime r.history r'.clock) ∧
      ∀ now slot key reveals, event = .rotated now slot key reveals →
        AllRevealed (r.history.lives slot) := by
  have hover := abwRuns_over hrun
  refine ⟨hover.seeded, hover.newest.symm, ?_, ?_, fun event r' hstep => (hstep.spec hover).2⟩
  · obtain ⟨key, hkey⟩ := (hover.seeded _).mpr rfl
    have hslot := hover.slots r.abw.active
    rw [hkey] at hslot
    obtain ⟨past, hlives, -⟩ := hslot
    exact ⟨past, key, hkey, hover.newest ▸ hlives⟩
  · intro slot key revealAt onOpen hentry
    have hslot := hover.slots slot
    rw [hentry] at hslot
    obtain ⟨retiredAt, closedAt, past, hlives, -, hat, -⟩ := hslot
    exact ⟨retiredAt, closedAt, past, hlives, hat⟩

theorem slot_key_revealed_on_time_after_close :
    ∃ r : AbwRun,
      r.abw.slots 0 = .retired (Vector.replicate 16 1) (Duration.fromSecs 910) false ∧
      (∀ slot, (∃ key, r.abw.slots slot = .seeded key) ↔ slot = r.abw.active) ∧
      ∀ event r', AbwStep (fun _ => Vector.replicate 32 0) r event r' →
        ∀ reveal ∈ event.reveals, reveal.OnTime r.history r'.clock := by
  have hstart : (abwRuns fun _ => Vector.replicate 32 0).Run [] _ :=
    .start ⟨0, Vector.replicate 16 1, rfl⟩
  have hrotated := hstart.next (.rotate (Vector.replicate 16 2)
    (show 0 ≤ Duration.fromSecs 600 by decide) rfl
    (show Duration.fromSecs 600 ≤ Duration.fromSecs 601 by decide))
  have hclosed := hrotated.next
    (.close (show Duration.fromSecs 601 ≤ Duration.fromSecs 610 by decide))
  have hagain := hclosed.next
    (.close (show Duration.fromSecs 610 ≤ Duration.fromSecs 700 by decide))
  obtain ⟨hseeded, -, -, -, hsteps⟩ := slot_key_revealed_on_time hagain
  exact ⟨_, rfl, hseeded, fun event r' hstep => (hsteps event r' hstep).1⟩

end Ratum
