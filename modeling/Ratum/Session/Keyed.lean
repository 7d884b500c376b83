import Ratum.Session.Runs

/-!
# The keys the slots of a session hold

Distinct keys, each drawn before it is seeded. A key leaves the secrets of the slots when it is revealed,
and nothing puts it back.
-/

namespace Ratum

/-- The key of a slot, secret or not. -/
def Slot.key? : Slot → Option XorKey
  | .empty => none
  | .seeded key => some key
  | .retired key _ _ => some key
  | .revealed key _ => some key

theorem Slot.key?_of_secretKey {entry : Slot} {key : XorKey} (h : entry.secretKey = some key) :
    entry.key? = some key := by
  cases entry <;> first | exact h | cases h

theorem Slot.key?_resume (closedAt : Instant) (entry : Slot) :
    (entry.resume closedAt).key? = entry.key? := by
  unfold Slot.resume
  split <;> rfl

theorem Slot.secretKey_resume (closedAt : Instant) (entry : Slot) :
    (entry.resume closedAt).secretKey = entry.secretKey := by
  unfold Slot.resume
  split <;> rfl

namespace AbwSlotState

/-- The slots hold distinct keys, all drawn. -/
structure Keyed (drawn : List XorKey) (abw : AbwSlotState) : Prop where
  distinct : ∀ i j key, (abw.slots i).key? = some key → (abw.slots j).key? = some key → i = j
  drawn : ∀ i key, (abw.slots i).key? = some key → key ∈ drawn

/-- Each slot holds a key, or a secret, only if it did before. -/
structure Within (abw' abw : AbwSlotState) : Prop where
  key : ∀ i key, (abw'.slots i).key? = some key → (abw.slots i).key? = some key
  secret : ∀ i key, (abw'.slots i).secretKey = some key → (abw.slots i).secretKey = some key

variable {abw abw' abw'' : AbwSlotState} {drawn : List XorKey} {slot : SlotId} {key : XorKey}

theorem Within.of_slots (h : abw'.slots = abw.slots) : abw'.Within abw := by
  constructor <;> intro i key hkey <;> rwa [h] at hkey

theorem Within.trans (h' : abw''.Within abw') (h : abw'.Within abw) : abw''.Within abw :=
  ⟨fun i key hkey => h.key i key (h'.key i key hkey),
    fun i key hkey => h.secret i key (h'.secret i key hkey)⟩

theorem Within.keyed (h : abw'.Within abw) (hkeyed : abw.Keyed drawn) : abw'.Keyed drawn :=
  ⟨fun i j key hi hj => hkeyed.distinct i j key (h.key i key hi) (h.key j key hj),
    fun i key hi => hkeyed.drawn i key (h.key i key hi)⟩

theorem Within.hides (h : abw'.Within abw) (hhides : abw'.Hides key) : abw.Hides key :=
  ⟨hhides.choose, h.secret _ key hhides.choose_spec⟩

theorem Keyed.mono {drawn' : List XorKey} (h : abw.Keyed drawn) (hsub : drawn ⊆ drawn') :
    abw.Keyed drawn' := ⟨h.distinct, fun i key hi => hsub (h.drawn i key hi)⟩

theorem within_resume (abw : AbwSlotState) (closedAt : Instant) : (abw.resume closedAt).Within abw := by
  constructor
  · intro i key hkey
    rwa [resume, Slot.key?_resume] at hkey
  · intro i key hkey
    rwa [resume, Slot.secretKey_resume] at hkey

theorem within_setSlot {entry : Slot} (hkey : entry.key? = (abw.slots slot).key?)
    (hsecret : ∀ key, entry.secretKey = some key → (abw.slots slot).secretKey = some key) :
    (abw.setSlot slot entry).Within abw := by
  constructor
  · intro i key h
    by_cases hi : i = slot
    · subst hi
      rwa [slots_setSlot_self, hkey] at h
    · rwa [slots_setSlot_of_ne hi] at h
  · intro i key h
    by_cases hi : i = slot
    · subst hi
      rw [slots_setSlot_self] at h
      exact hsecret key h
    · rwa [slots_setSlot_of_ne hi] at h

theorem within_reveal (abw : AbwSlotState) (slot : SlotId) : (abw.reveal slot).2.Within abw := by
  unfold reveal
  split
  · next hentry =>
    apply within_setSlot
    · rw [hentry]
      rfl
    · rintro _ ⟨⟩
  · next hentry =>
    apply within_setSlot
    · rw [hentry]
      rfl
    · rintro _ ⟨⟩
  · exact .of_slots rfl

theorem within_revealAll (abw : AbwSlotState) (slots : List SlotId) :
    (abw.revealAll slots).2.Within abw := by
  induction slots generalizing abw with
  | nil => exact .of_slots rfl
  | cons slot slots ih => exact (ih _).trans (within_reveal abw slot)

theorem within_retire (abw : AbwSlotState) (slot : SlotId) (now : Instant) :
    (abw.retire slot now).Within abw := by
  unfold retire
  split
  · next hentry =>
    apply within_setSlot
    · rw [hentry]
      rfl
    · intro key hkey
      rw [hentry]
      exact hkey
  · exact .of_slots rfl

/-- A key revealed was its slot's, and is its slot's secret no more. -/
theorem reveal_spec {reveal : PendingReveal} (h : (abw.reveal slot).1 = some reveal) :
    (abw.slots slot).key? = some reveal.payload.xorKey ∧
      ((abw.reveal slot).2.slots slot).secretKey = none := by
  unfold AbwSlotState.reveal at h ⊢
  split at h
  · next hentry =>
    cases h
    simp [hentry, Slot.key?, Slot.secretKey]
  · next hentry =>
    cases h
    simp [hentry, Slot.key?, Slot.secretKey]
  · cases h

theorem reveal_not_hides (hkeyed : abw.Keyed drawn) {reveal : PendingReveal}
    (h : (abw.reveal slot).1 = some reveal) :
    reveal.payload.xorKey ∈ drawn ∧ ¬ (abw.reveal slot).2.Hides reveal.payload.xorKey := by
  obtain ⟨hkey, hnone⟩ := reveal_spec h
  refine ⟨hkeyed.drawn slot _ hkey, ?_⟩
  rintro ⟨i, hi⟩
  have hbefore := Slot.key?_of_secretKey ((within_reveal abw slot).secret i _ hi)
  obtain rfl := hkeyed.distinct i slot _ hbefore hkey
  rw [hnone] at hi
  cases hi

/-- The keys revealed are no more secrets of the slots. -/
theorem revealAll_not_hides {slots : List SlotId} (hkeyed : abw.Keyed drawn) {reveal : PendingReveal}
    (h : reveal ∈ (abw.revealAll slots).1) :
    reveal.payload.xorKey ∈ drawn ∧ ¬ (abw.revealAll slots).2.Hides reveal.payload.xorKey := by
  induction slots generalizing abw with
  | nil => exact absurd h List.not_mem_nil
  | cons slot slots ih =>
      rw [revealAll] at h ⊢
      rcases List.mem_append.mp h with hhead | htail
      · obtain ⟨hdrawn, hnot⟩ := reveal_not_hides hkeyed (Option.mem_toList.mp hhead)
        exact ⟨hdrawn, fun hhides => hnot ((within_revealAll _ slots).hides hhides)⟩
      · exact ih ((within_reveal abw slot).keyed hkeyed) htail

theorem revealsDue_spec (hkeyed : abw.Keyed drawn) (now : Instant) :
    (abw.revealsDue now).2.Within abw ∧
      ∀ reveal ∈ (abw.revealsDue now).1, reveal.payload.xorKey ∈ drawn ∧
        ¬ (abw.revealsDue now).2.Hides reveal.payload.xorKey := by
  unfold revealsDue
  split
  · exact ⟨.of_slots rfl, fun reveal h => absurd h List.not_mem_nil⟩
  · exact ⟨within_revealAll _ _, fun reveal h => revealAll_not_hides hkeyed h⟩

/-! ### Seeding -/

theorem seed_keyed (hkeyed : abw.Keyed drawn) (hfresh : key ∉ drawn) (slot : SlotId) :
    (abw.seed slot key).Keyed (key :: drawn) := by
  have hslot : ∀ i k, ((abw.seed slot key).slots i).key? = some k →
      (i = slot ∧ k = key) ∨ (i ≠ slot ∧ (abw.slots i).key? = some k) := by
    intro i k hk
    by_cases hi : i = slot
    · subst hi
      rw [slots_seed_self] at hk
      exact .inl ⟨rfl, (Option.some.inj hk).symm⟩
    · rw [slots_seed_of_ne hi] at hk
      exact .inr ⟨hi, hk⟩
  constructor
  · intro i j k hi hj
    rcases hslot i k hi with ⟨hislot, hik⟩ | ⟨-, hi⟩
    · rcases hslot j k hj with ⟨hjslot, -⟩ | ⟨-, hj⟩
      · rw [hislot, hjslot]
      · rw [hik] at hj
        exact absurd (hkeyed.drawn j _ hj) hfresh
    · rcases hslot j k hj with ⟨-, hjk⟩ | ⟨-, hj⟩
      · rw [hjk] at hi
        exact absurd (hkeyed.drawn i _ hi) hfresh
      · exact hkeyed.distinct i j k hi hj
  · intro i k hi
    rcases hslot i k hi with ⟨-, rfl⟩ | ⟨-, hi⟩
    · exact List.mem_cons_self ..
    · exact List.mem_cons_of_mem _ (hkeyed.drawn i k hi)

theorem hides_seed {k : XorKey} (h : (abw.seed slot key).Hides k) : k = key ∨ abw.Hides k := by
  obtain ⟨i, hi⟩ := h
  by_cases heq : i = slot
  · subst heq
    rw [slots_seed_self] at hi
    exact .inl (Option.some.inj hi).symm
  · rw [slots_seed_of_ne heq] at hi
    exact .inr ⟨i, hi⟩

theorem start_keyed (now : Instant) (key : XorKey) : (start now key).Keyed [key] := by
  unfold start
  apply seed_keyed _ List.not_mem_nil
  constructor
  · rintro i j k ⟨⟩
  · rintro i k ⟨⟩

theorem hides_start {now : Instant} {k : XorKey} (h : (start now key).Hides k) : k = key := by
  rcases hides_seed h with rfl | ⟨i, ⟨⟩⟩
  rfl

/-- A rotation draws one key, and what it reveals is no more a secret. -/
theorem rotate_spec (xorKeyHash : XorKey → Hash) (hkeyed : abw.Keyed drawn) (hfresh : key ∉ drawn)
    (now : Instant) :
    (abw.rotate xorKeyHash now key).2.Keyed (key :: drawn) ∧
      (∀ k, (abw.rotate xorKeyHash now key).2.Hides k → k = key ∨ abw.Hides k) ∧
      ∀ reveal ∈ (abw.rotate xorKeyHash now key).1.reveals, reveal.payload.xorKey ∈ drawn ∧
        ¬ (abw.rotate xorKeyHash now key).2.Hides reveal.payload.xorKey := by
  have hretired := within_retire (abw.reveal abw.nextSlot).2 abw.active now
  have hwithin := hretired.trans (within_reveal abw abw.nextSlot)
  have hhides : ∀ k, (abw.rotate xorKeyHash now key).2.Hides k →
      k = key ∨ ((abw.reveal abw.nextSlot).2.retire abw.active now).Hides k := by
    rintro k ⟨i, hi⟩
    exact hides_seed ⟨i, hi⟩
  refine ⟨?_, fun k hk => (hhides k hk).imp_right hwithin.hides, fun reveal hreveal => ?_⟩
  · have hseed := seed_keyed (hwithin.keyed hkeyed) hfresh abw.nextSlot
    exact ⟨hseed.distinct, hseed.drawn⟩
  · obtain ⟨hdrawn, hnot⟩ := reveal_not_hides hkeyed (Option.mem_toList.mp hreveal)
    refine ⟨hdrawn, fun hk => ?_⟩
    rcases hhides _ hk with rfl | hk
    · exact hfresh hdrawn
    · exact hnot (hretired.hides hk)

theorem keyFor_hides {slot : UInt8} (h : abw.keyFor slot = some (key, .secret)) : abw.Hides key := by
  unfold keyFor at h
  split at h
  · next hlt =>
    refine ⟨⟨slot.toNat, hlt⟩, ?_⟩
    dsimp only at h
    split at h
    · next hentry =>
      obtain ⟨rfl, -⟩ := Prod.mk.inj (Option.some.inj h)
      rw [hentry]
      rfl
    · next hentry =>
      obtain ⟨rfl, -⟩ := Prod.mk.inj (Option.some.inj h)
      rw [hentry]
      rfl
    · cases h
    · cases h
  · cases h

theorem slots_notePublished (abw : AbwSlotState) (slot : UInt8) :
    (abw.notePublished slot).2.slots = abw.slots := by
  unfold notePublished
  split
  · split
    · rfl
    · dsimp only
      split <;> rfl
  · rfl

end AbwSlotState
end Ratum
