import Ratum.Session.Keyed
import Ratum.Session.Runs

/-!
# A disclosed key credits no share

Where no other copy of the session holds a key as a secret when it is revealed, none does afterwards, and
no share is credited under it. Two live copies of one session are otherwise possible: `note_proven`
ignores that the saved session it claims was claimed before.
-/

namespace Ratum

/-- The session of an open connection: its shares held were verified under keys that are still secret,
and no disclosed key is. -/
structure OpenConn.Sound (drawn disclosed : List XorKey) (conn : OpenConn) : Prop where
  keyed : conn.abw.Keyed drawn
  held : ∀ key ∈ conn.held, conn.abw.Hides key
  closed : ∀ key ∈ disclosed, ¬ conn.abw.Hides key

/-- No disclosed key is a secret of a saved session that can be resumed. -/
structure SavedSession.Sound (drawn disclosed : List XorKey) (clock : Instant)
    (saved : SavedSession) : Prop where
  keyed : saved.v3.abw.Keyed drawn
  closed : saved.expired clock = false → ∀ key ∈ disclosed, ¬ saved.v3.abw.Hides key

theorem SavedSession.expired_mono {saved : SavedSession} {clock now : Instant} (h : clock ≤ now)
    (hnow : saved.expired now = false) : saved.expired clock = false := by
  unfold expired at hnow ⊢
  rw [decide_eq_false_iff_not, not_lt] at hnow ⊢
  exact (Nat.sub_le_sub_right h _).trans hnow

namespace PoolSessions

structure Sound (st : PoolSessions) : Prop where
  conns : ∀ i conn, st.conns i = some conn → conn.Sound st.drawn st.disclosed
  saved : ∀ clientSignPk saved, st.store.saved.get clientSignPk = some saved →
    saved.Sound st.drawn st.disclosed st.clock
  drawn : st.disclosed ⊆ st.drawn

variable {st : PoolSessions} {i : Nat} {conn : OpenConn} {now : Instant} {key : XorKey}

theorem sound_empty : empty.Sound where
  conns i conn h := by cases h
  saved clientSignPk saved h := by cases h
  drawn := List.nil_subset _

theorem Sound.setConn (h : st.Sound) {conn : Option OpenConn}
    (hconn : ∀ c, conn = some c → c.Sound st.drawn st.disclosed) (i : Nat) :
    (st.setConn i conn).Sound := by
  refine ⟨fun j c hc => ?_, h.saved, h.drawn⟩
  by_cases heq : j = i
  · subst heq
    exact hconn c (by rwa [conns_setConn_self] at hc)
  · exact h.conns j c (by rwa [conns_setConn_of_ne heq] at hc)

theorem Sound.tick (h : st.Sound) (hnow : st.clock ≤ now) : { st with clock := now }.Sound :=
  ⟨h.conns, fun _ _ hsaved =>
    ⟨(h.saved _ _ hsaved).keyed, fun hnot =>
      (h.saved _ _ hsaved).closed (SavedSession.expired_mono hnow hnot)⟩, h.drawn⟩

theorem Sound.draw (h : st.Sound) (key : XorKey) : { st with drawn := key :: st.drawn }.Sound :=
  ⟨fun i conn hconn =>
    ⟨(h.conns i conn hconn).keyed.mono (List.subset_cons_self ..), (h.conns i conn hconn).held,
      (h.conns i conn hconn).closed⟩,
    fun _ _ hsaved =>
      ⟨(h.saved _ _ hsaved).keyed.mono (List.subset_cons_self ..), (h.saved _ _ hsaved).closed⟩,
    fun _ hkey => List.mem_cons_of_mem _ (h.drawn hkey)⟩

/-- A store that holds no other sessions, or ones saved from a sound connection. -/
theorem Sound.setStore {store : SessionStore} (h : st.Sound)
    (hstore : ∀ clientSignPk saved, store.saved.get clientSignPk = some saved →
      st.store.saved.get clientSignPk = some saved ∨
        ∃ conn : OpenConn, conn.Sound st.drawn st.disclosed ∧ saved.v3.abw = conn.abw) :
    { st with store }.Sound := by
  refine ⟨h.conns, fun clientSignPk saved hsaved => ?_, h.drawn⟩
  rcases hstore clientSignPk saved hsaved with hbefore | ⟨conn, hconn, habw⟩
  · exact h.saved clientSignPk saved hbefore
  · refine ⟨?_, fun _ key hkey => ?_⟩
    · rw [habw]
      exact hconn.keyed
    · rw [habw]
      exact hconn.closed key hkey

end PoolSessions

/-! ### One connection's session -/

variable {drawn disclosed : List XorKey} {conn : OpenConn} {key : XorKey}

/-- A step that leaves the slots as they are. -/
theorem OpenConn.Sound.setAbw (h : conn.Sound drawn disclosed) {abw : AbwSlotState}
    (hslots : abw.slots = conn.abw.slots) : (conn.setAbw abw).Sound drawn disclosed where
  keyed := (AbwSlotState.Within.of_slots hslots).keyed h.keyed
  held key hkey := (AbwSlotState.Within.of_slots hslots.symm).hides (h.held key hkey)
  closed key hkey hhides := h.closed key hkey ((AbwSlotState.Within.of_slots hslots).hides hhides)

theorem OpenConn.Sound.erase (h : conn.Sound drawn disclosed) (key : XorKey) :
    { conn with held := conn.held.erase key }.Sound drawn disclosed :=
  ⟨h.keyed, fun k hk => h.held k (List.mem_of_mem_erase hk), h.closed⟩

theorem OpenConn.Sound.hold (h : conn.Sound drawn disclosed) (hkey : conn.abw.Hides key) :
    { conn with held := key :: conn.held }.Sound drawn disclosed := by
  refine ⟨h.keyed, fun k hk => ?_, h.closed⟩
  rcases List.mem_cons.mp hk with rfl | hk
  · exact hkey
  · exact h.held k hk

/-- A connection whose key was just drawn, or that resumed a session with no disclosed key secret. -/
theorem OpenConn.Sound.start {st : PoolSessions} (h : st.Sound) {now : Instant}
    (hnow : st.clock ≤ now) (hdrawn : key ∉ st.drawn) (clientSignPk : PublicKey) (openedAt : Instant)
    (resume : Option ResumeToken) (token : ResumeToken) :
    OpenConn.Sound (key :: st.drawn) st.disclosed
      ⟨(SessionConn.start st.store clientSignPk openedAt resume now token key).1, []⟩ := by
  have hsound : ∀ abw : AbwSlotState, abw.Keyed (key :: st.drawn) →
      (∀ k ∈ st.disclosed, ¬ abw.Hides k) →
        ∀ session : SessionConn, session.v3.abw = abw.connect openedAt →
          OpenConn.Sound (key :: st.drawn) st.disclosed ⟨session, []⟩ := by
    intro abw hkeyed hclosed session habw
    have hwithin : session.v3.abw.Within abw := .of_slots (by rw [habw]; rfl)
    exact ⟨hwithin.keyed hkeyed, fun k hk => absurd hk List.not_mem_nil,
      fun k hk hhides => hclosed k hk (hwithin.hides hhides)⟩
  cases hresumed : st.store.resumed clientSignPk resume now with
  | some saved =>
      obtain ⟨hget, hlive⟩ := SessionStore.resumed_spec hresumed
      have hsaved := h.saved clientSignPk saved hget
      have hwithin := AbwSlotState.within_resume saved.v3.abw saved.savedAt
      apply hsound (saved.v3.abw.resume saved.savedAt)
      · exact (hwithin.keyed hsaved.keyed).mono (List.subset_cons_self ..)
      · intro k hk hhides
        exact hsaved.closed (SavedSession.expired_mono hnow hlive) k hk (hwithin.hides hhides)
      · simp [SessionConn.start, SessionStore.resumeOrStart, hresumed]
  | none =>
      apply hsound (.start now key)
      · exact (AbwSlotState.start_keyed now key).mono (List.cons_subset_cons _ (List.nil_subset _))
      · intro k hk hhides
        rw [AbwSlotState.hides_start hhides] at hk
        exact hdrawn (h.drawn hk)
      · simp [SessionConn.start, SessionStore.resumeOrStart, hresumed]

/-- The keys one connection discloses, with no other copy holding them, are secrets of none. -/
theorem PoolSessions.Sound.disclose {st : PoolSessions} (h : st.Sound) {i : Nat} {now : Instant}
    (hconn : st.conns i = some conn) (hheld : conn.held = []) (hnow : st.clock ≤ now)
    {reveals : List PendingReveal} {abw : AbwSlotState} {drawn : List XorKey}
    (hsub : st.drawn ⊆ drawn) (hkeyed : abw.Keyed drawn)
    (hhides : ∀ k ∈ st.disclosed, ¬ abw.Hides k)
    (hreveals : ∀ reveal ∈ reveals, reveal.payload.xorKey ∈ st.drawn ∧
      ¬ abw.Hides reveal.payload.xorKey)
    (halone : ∀ reveal ∈ reveals, st.Alone i now reveal.payload.xorKey) :
    (({ st with clock := now, drawn }.disclose reveals).setConn i
      (some (conn.setAbw abw))).Sound := by
  have hmem : ∀ k, k ∈ ({ st with clock := now, drawn }.disclose reveals).disclosed →
      (∃ reveal ∈ reveals, reveal.payload.xorKey = k) ∨ k ∈ st.disclosed := by
    intro k hk
    exact (List.mem_append.mp hk).imp_left List.mem_map.mp
  refine ⟨fun j c hc => ?_, fun clientSignPk saved hsaved => ?_, fun k hk => ?_⟩
  · by_cases heq : j = i
    · subst heq
      rw [PoolSessions.conns_setConn_self] at hc
      obtain rfl := Option.some.inj hc
      refine ⟨hkeyed, fun k hk => ?_, fun k hk => ?_⟩
      · rw [show (conn.setAbw abw).held = [] from hheld] at hk
        exact absurd hk List.not_mem_nil
      · rcases hmem k hk with ⟨reveal, hreveal, rfl⟩ | hk
        · exact (hreveals reveal hreveal).2
        · exact hhides k hk
    · rw [PoolSessions.conns_setConn_of_ne heq] at hc
      have hsound := h.conns j c hc
      refine ⟨hsound.keyed.mono hsub, hsound.held, fun k hk => ?_⟩
      rcases hmem k hk with ⟨reveal, hreveal, rfl⟩ | hk
      · exact (halone reveal hreveal).1 j c heq hc
      · exact hsound.closed k hk
  · have hsound := h.saved clientSignPk saved hsaved
    refine ⟨hsound.keyed.mono hsub, fun hlive k hk => ?_⟩
    rcases hmem k hk with ⟨reveal, hreveal, rfl⟩ | hk
    · exact (halone reveal hreveal).2 clientSignPk saved hsaved hlive
    · exact hsound.closed (SavedSession.expired_mono hnow hlive) k hk
  · rcases hmem k hk with ⟨reveal, hreveal, rfl⟩ | hk
    · exact hsub (hreveals reveal hreveal).1
    · exact hsub (h.drawn hk)

/-! ### Every run -/

section

variable {xorKeyHash : XorKey → Hash} {st st' : PoolSessions} {event : SessionEvent}

/-- **A step that reveals keys of no other copy keeps the sessions sound.** -/
theorem PoolSessions.Sound.step (h : st.Sound) (halone : RevealsAlone st event)
    (hstep : SessionStep xorKeyHash st event st') : st'.Sound := by
  cases hstep with
  | hello clientSignPk openedAt now resume token key hfree hnow hdrawn =>
      apply ((h.tick hnow).draw _).setConn
      intro c hc
      obtain rfl := Option.some.inj hc
      exact OpenConn.Sound.start h hnow hdrawn clientSignPk openedAt resume token
  | @frame i conn hconn =>
      have hsession : (conn.session.noteProven st.store).1.v3 = conn.session.v3 := by
        unfold SessionConn.noteProven
        split <;> rfl
      have hstore : { st with store := (conn.session.noteProven st.store).2 }.Sound := by
        apply h.setStore
        intro clientSignPk saved hsaved
        unfold SessionConn.noteProven at hsaved
        split at hsaved
        · exact .inl hsaved
        · dsimp only at hsaved
          split at hsaved
          · exact .inl (SessionStore.get_claim hsaved)
          · exact .inl hsaved
      apply hstore.setConn
      intro c hc
      obtain rfl := Option.some.inj hc
      have hsound := h.conns i conn hconn
      have habw : OpenConn.abw { conn with session := (conn.session.noteProven st.store).1 } =
          conn.abw := congrArg V3Session.abw hsession
      constructor
      · rw [habw]
        exact hsound.keyed
      · rw [habw]
        exact hsound.held
      · rw [habw]
        exact hsound.closed
  | hold slot hconn hproven hkey =>
      apply h.setConn
      intro c hc
      obtain rfl := Option.some.inj hc
      exact (h.conns _ _ hconn).hold (AbwSlotState.keyFor_hides hkey)
  | credit slot hconn hproven hkey =>
      apply h.setConn
      intro c hc
      obtain rfl := Option.some.inj hc
      exact (h.conns _ _ hconn).setAbw rfl
  | creditHeld hconn hheld =>
      apply h.setConn
      intro c hc
      obtain rfl := Option.some.inj hc
      exact ((h.conns _ _ hconn).erase _).setAbw rfl
  | refuseHeld key hconn =>
      apply h.setConn
      intro c hc
      obtain rfl := Option.some.inj hc
      exact (h.conns _ _ hconn).erase key
  | noteTip now hconn hnow =>
      apply (h.tick hnow).setConn
      intro c hc
      obtain rfl := Option.some.inj hc
      exact (h.conns _ _ hconn).setAbw rfl
  | notePublished slot hconn =>
      apply h.setConn
      intro c hc
      obtain rfl := Option.some.inj hc
      exact (h.conns _ _ hconn).setAbw (AbwSlotState.slots_notePublished _ slot)
  | @rotate i conn why dueAt now key hconn hheld hdueAt hdue hnow hdrawn =>
      have hsound := h.conns i conn hconn
      obtain ⟨hkeyed, hhides, hreveals⟩ :=
        AbwSlotState.rotate_spec xorKeyHash hsound.keyed hdrawn now
      apply h.disclose hconn hheld (hdueAt.trans hnow) (List.subset_cons_self ..) hkeyed
      · intro k hk hnew
        rcases hhides k hnew with rfl | hold
        · exact hdrawn (h.drawn hk)
        · exact hsound.closed k hk hold
      · exact hreveals
      · exact halone
  | @revealsDue i conn now hconn hheld hnow =>
      have hsound := h.conns i conn hconn
      obtain ⟨hwithin, hreveals⟩ := AbwSlotState.revealsDue_spec hsound.keyed now
      apply h.disclose hconn hheld hnow (List.Subset.refl _) (hwithin.keyed hsound.keyed)
      · exact fun k hk hnew => hsound.closed k hk (hwithin.hides hnew)
      · exact hreveals
      · exact halone
  | @close i conn now splits hconn hnow =>
      have hstore : { st with clock := now, store := conn.session.drop splits now st.store }.Sound := by
        apply (h.tick hnow).setStore
        intro clientSignPk saved hsaved
        unfold SessionConn.drop at hsaved
        split at hsaved
        · rcases SessionStore.get_save hsaved with rfl | hbefore
          · exact .inr ⟨conn, h.conns i conn hconn, rfl⟩
          · exact .inl hbefore
        · exact .inl hsaved
      exact hstore.setConn (fun c hc => by cases hc) i

/-- A share credited was verified under a key that is still a secret of its connection. -/
theorem SessionStep.credited_hides (h : st.Sound) {i : Nat} {key : XorKey}
    (hstep : SessionStep xorKeyHash st (.credited i key) st') :
    ∃ conn, st.conns i = some conn ∧ conn.abw.Hides key := by
  cases hstep with
  | credit _ hconn _ hkey => exact ⟨_, hconn, AbwSlotState.keyFor_hides hkey⟩
  | creditHeld hconn hheld => exact ⟨_, hconn, (h.conns _ _ hconn).held key hheld⟩

/-- **A disclosed key credits no share.** In a run in which every key, when it is revealed, is a secret of
no other open connection and of no saved session that can be resumed, a share credited next was not
verified under a key revealed before. -/
theorem disclosed_key_credits_no_share {trace : List SessionEvent} {i : Nat} {key : XorKey}
    (hrun : ((sessionRuns xorKeyHash).restrict RevealsAlone).Run trace st)
    (hcredited : SessionStep xorKeyHash st (.credited i key) st') : key ∉ st.disclosed := by
  have hsound : st.Sound := by
    apply hrun.invariant (I := fun _ s => s.Sound)
    · rintro s rfl
      exact PoolSessions.sound_empty
    · exact fun _ _ _ _ hs hnext => hs.step hnext.1 hnext.2
  obtain ⟨conn, hconn, hhides⟩ := hcredited.credited_hides hsound
  exact fun hkey => (hsound.conns i conn hconn).closed key hkey hhides

end

/-! ### Two live copies of one session -/

section

open Duration SessionStep

/-- A key of one byte repeated. -/
def byteKey (byte : UInt8) : XorKey := Vector.replicate 16 byte

def byteToken (byte : UInt8) : ResumeToken := Vector.replicate RESUME_TOKEN_LEN byte

def zeroKeyHash (_ : XorKey) : Hash := Vector.replicate 32 0

/-- A connection rotates off its first key and reveals it five minutes later, then credits a share under
the second. -/
theorem disclosed_key_credits_no_share_after_reveal :
    ∃ trace st st', (sessionRuns zeroKeyHash).Run trace st ∧
      SessionStep zeroKeyHash st (.credited 0 (byteKey 1)) st' ∧
      byteKey 0 ∈ st.disclosed ∧ byteKey 1 ∉ st.disclosed := by
  have start : ((sessionRuns zeroKeyHash).restrict RevealsAlone).Run [] .empty := .start rfl
  have opened := start.next_allowed (hello (i := 0) (Vector.replicate 32 0) 0 0 none (byteToken 0)
    (byteKey 0) rfl le_rfl List.not_mem_nil) trivial
  have proven := opened.next_allowed (frame (i := 0) rfl) trivial
  have rotated := proven.next_allowed (rotate (i := 0) (fromSecs 600) (fromSecs 600) (byteKey 1) rfl rfl
    (Nat.zero_le _) rfl le_rfl (by decide)) (fun reveal h => absurd h List.not_mem_nil)
  have revealed := rotated.next_allowed (revealsDue (i := 0) (fromSecs 900) rfl rfl (by decide)) (by
    refine fun reveal _ => ⟨fun j conn hj hconn => ?_, fun clientSignPk saved hsaved => ?_⟩
    · simp [PoolSessions.setConn, PoolSessions.disclose, PoolSessions.empty, hj] at hconn
    · cases hsaved)
  refine ⟨_, _, _, revealed.of_restrict, credit (i := 0) 1 rfl rfl rfl, by decide +kernel, ?_⟩
  exact disclosed_key_credits_no_share revealed (credit (i := 0) 1 rfl rfl rfl)

/-- Two connections present one token before either is proven. The first reveals the first key, and the
second credits a share under it. -/
theorem disclosed_key_credits_share :
    ¬ ∀ (xorKeyHash : XorKey → Hash) (trace : List SessionEvent) (st st' : PoolSessions) (i : Nat)
      (key : XorKey), (sessionRuns xorKeyHash).Run trace st →
        SessionStep xorKeyHash st (.credited i key) st' → key ∉ st.disclosed := by
  intro h
  have start : (sessionRuns zeroKeyHash).Run [] .empty := .start rfl
  have opened := start.next (hello (i := 0) (Vector.replicate 32 0) 0 0 none (byteToken 0) (byteKey 0)
    rfl le_rfl List.not_mem_nil)
  have proven := opened.next (frame (i := 0) rfl)
  have rotated := proven.next (rotate (i := 0) (fromSecs 600) (fromSecs 600) (byteKey 1) rfl rfl
    (Nat.zero_le _) rfl le_rfl (by decide))
  have closed := rotated.next (close (i := 0) (fromSecs 610) .empty rfl (by decide))
  have opened₁ := closed.next (hello (i := 1) (Vector.replicate 32 0) (fromSecs 611) (fromSecs 611)
    (some (byteToken 0)) (byteToken 1) (byteKey 2) rfl (by decide) (by decide))
  have opened₂ := opened₁.next (hello (i := 2) (Vector.replicate 32 0) (fromSecs 611) (fromSecs 611)
    (some (byteToken 0)) (byteToken 2) (byteKey 3) rfl (by decide) (by decide))
  have proven₁ := opened₂.next (frame (i := 1) rfl)
  have proven₂ := proven₁.next (frame (i := 2) rfl)
  have revealed := proven₂.next (revealsDue (i := 1) (fromSecs 910) rfl rfl (by decide))
  exact h _ _ _ _ 2 (byteKey 0) revealed (credit 0 rfl rfl rfl) (by decide +kernel)

end

end Ratum
