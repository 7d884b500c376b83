import Ratum.Base.Lts
import Ratum.Gateway.Assignments
import Ratum.Session.Store

/-!
# The gateway's view of the slots

Any number of connections of version 3 sessions, each with the assignment messages the pool sent on it
that its gateway has still to process, and what the gateway holds. A view that has processed them all
holds what the pool's slots hide.
-/

namespace Ratum

/-- A connection: the pool's end of it, the messages on their way, what the gateway made of those before
them, and what it holds. -/
structure LinkedConn where
  session : SessionConn
  queue : List Bytes
  view : AbwAssignments
  handled : List Handling

namespace LinkedConn

def abw (conn : LinkedConn) : AbwSlotState := conn.session.v3.abw

def setAbw (conn : LinkedConn) (abw : AbwSlotState) : LinkedConn :=
  { conn with session := { conn.session with v3 := { conn.session.v3 with abw } } }

def send (conn : LinkedConn) (payloads : List Bytes) : LinkedConn :=
  { conn with queue := conn.queue ++ payloads }

/-- A connection opens with the notices of its session. -/
def «open» (xorKeyHash : XorKey → Hash) (session : SessionConn) : LinkedConn where
  session := session
  queue := (session.v3.abw.notices xorKeyHash).map AssignmentNotice.encode
  view := .default
  handled := []

/-- `rotate_abw`: the reveals are sent before the notice. -/
def rotateAbw (xorKeyHash : XorKey → Hash) (conn : LinkedConn) (now : Instant) (key : XorKey) :
    LinkedConn :=
  let (rotation, abw) := conn.abw.rotate xorKeyHash now key
  (conn.setAbw abw).send ((rotation.reveals.map fun reveal => reveal.payload.encode) ++
    (rotation.notice.map AssignmentNotice.encode).toList)

def sendDueReveals (conn : LinkedConn) (now : Instant) : LinkedConn :=
  let (reveals, abw) := conn.abw.revealsDue now
  (conn.setAbw abw).send (reveals.map fun reveal => reveal.payload.encode)

/-- The gateway processes the next message. -/
def process (xorKeyHash : XorKey → Hash) (conn : LinkedConn) : LinkedConn :=
  match conn.queue with
  | [] => conn
  | plain :: queue =>
      let (handling, view) := onMining xorKeyHash conn.view plain
      { conn with queue, view, handled := conn.handled ++ [handling] }

end LinkedConn

structure LinkedSessions where
  store : SessionStore
  conns : Nat → Option LinkedConn

def LinkedSessions.setConn (st : LinkedSessions) (i : Nat) (conn : Option LinkedConn) :
    LinkedSessions :=
  { st with conns := Function.update st.conns i conn }

/-- A step of the pool's end of one connection, or of its gateway's. -/
inductive LinkStep (xorKeyHash : XorKey → Hash) : LinkedSessions → Nat → LinkedSessions → Prop
  | opened {st : LinkedSessions} {i : Nat} (clientSignPk : PublicKey) (openedAt now : Instant)
      (resume : Option ResumeToken) (token : ResumeToken) (key : XorKey) (hfree : st.conns i = none) :
      LinkStep xorKeyHash st i (st.setConn i (some (.open xorKeyHash
        (SessionConn.start st.store clientSignPk openedAt resume now token key).1)))
  | frame {st : LinkedSessions} {i : Nat} {conn : LinkedConn} (hconn : st.conns i = some conn) :
      LinkStep xorKeyHash st i
        ({ st with store := (conn.session.noteProven st.store).2 }.setConn i
          (some { conn with session := (conn.session.noteProven st.store).1 }))
  | share {st : LinkedSessions} {i : Nat} {conn : LinkedConn} (hconn : st.conns i = some conn) :
      LinkStep xorKeyHash st i (st.setConn i (some (conn.setAbw conn.abw.noteShare)))
  | tip {st : LinkedSessions} {i : Nat} {conn : LinkedConn} (now : Instant)
      (hconn : st.conns i = some conn) :
      LinkStep xorKeyHash st i (st.setConn i (some (conn.setAbw (conn.abw.noteTip now).2)))
  | published {st : LinkedSessions} {i : Nat} {conn : LinkedConn} (slot : UInt8)
      (hconn : st.conns i = some conn) :
      LinkStep xorKeyHash st i (st.setConn i (some (conn.setAbw (conn.abw.notePublished slot).2)))
  | rotated {st : LinkedSessions} {i : Nat} {conn : LinkedConn} (now : Instant) (key : XorKey)
      (hconn : st.conns i = some conn) :
      LinkStep xorKeyHash st i (st.setConn i (some (conn.rotateAbw xorKeyHash now key)))
  | revealed {st : LinkedSessions} {i : Nat} {conn : LinkedConn} (now : Instant)
      (hconn : st.conns i = some conn) :
      LinkStep xorKeyHash st i (st.setConn i (some (conn.sendDueReveals now)))
  | processed {st : LinkedSessions} {i : Nat} {conn : LinkedConn} (hconn : st.conns i = some conn) :
      LinkStep xorKeyHash st i (st.setConn i (some (conn.process xorKeyHash)))
  | closed {st : LinkedSessions} {i : Nat} {conn : LinkedConn} (now : Instant)
      (splits : DictatedSplits) (hconn : st.conns i = some conn) :
      LinkStep xorKeyHash st i
        ({ st with store := conn.session.drop splits now st.store }.setConn i none)

def linkRuns (xorKeyHash : XorKey → Hash) : Lts LinkedSessions Nat where
  init st := st = ⟨.new, fun _ => none⟩
  step := LinkStep xorKeyHash

/-! ### What the pool's slots and a view agree on -/

/-- The seeded slot is the active one, and no other. -/
def AbwSlotState.ActiveSeeded (abw : AbwSlotState) : Prop :=
  ∀ slot, (∃ key, abw.slots slot = .seeded key) ↔ slot = abw.active

/-- The view holds the hashes of the secret keys, and the active slot. -/
structure AbwAssignments.Agrees (xorKeyHash : XorKey → Hash) (view : AbwAssignments)
    (abw : AbwSlotState) : Prop where
  keyHashes : ∀ slot, view.keyHashes slot = (abw.slots slot).secretKey.map xorKeyHash
  active : view.active = some abw.active

/-- Processing the messages in order applies each of them and leads from one view to the other. -/
inductive Applies (xorKeyHash : XorKey → Hash) : AbwAssignments → List Bytes → AbwAssignments → Prop
  | done (view : AbwAssignments) : Applies xorKeyHash view [] view
  | next {view view' view'' : AbwAssignments} {plain : Bytes} {queue : List Bytes}
      (happlied : onMining xorKeyHash view plain = (.applied, view'))
      (hrest : Applies xorKeyHash view' queue view'') : Applies xorKeyHash view (plain :: queue) view''

theorem Applies.append {xorKeyHash : XorKey → Hash} {view view' view'' : AbwAssignments}
    {queue queue' : List Bytes} (h : Applies xorKeyHash view queue view')
    (h' : Applies xorKeyHash view' queue' view'') :
    Applies xorKeyHash view (queue ++ queue') view'' := by
  induction h with
  | done => exact h'
  | next happlied _ ih => exact .next happlied (ih h')

/-! ### The active slot is the seeded one -/

namespace AbwSlotState.ActiveSeeded

variable {abw : AbwSlotState}

theorem of_setSlot (h : abw.ActiveSeeded) {slot : SlotId} (hslot : slot ≠ abw.active) {entry : Slot}
    (hentry : ∀ key, entry ≠ .seeded key) : (abw.setSlot slot entry).ActiveSeeded := by
  intro i
  by_cases hi : i = slot
  · subst hi
    rw [slots_setSlot_self]
    exact iff_of_false (fun ⟨key, hkey⟩ => hentry key hkey) hslot
  · rw [slots_setSlot_of_ne hi]
    exact h i

theorem start (now : Instant) (key : XorKey) : (AbwSlotState.start now key).ActiveSeeded := by
  intro slot
  by_cases hslot : slot = 0
  · subst hslot
    exact iff_of_true ⟨key, slots_seed_self ..⟩ rfl
  · rw [AbwSlotState.start, slots_seed_of_ne hslot]
    exact iff_of_false (fun ⟨_, hkey⟩ => by cases hkey) hslot

theorem resume (h : abw.ActiveSeeded) (closedAt : Instant) : (abw.resume closedAt).ActiveSeeded := by
  intro slot
  refine Iff.trans ?_ (h slot)
  change (∃ key, (abw.slots slot).resume closedAt = .seeded key) ↔ _
  unfold Slot.resume
  split
  · next heq => simp [heq]
  · next heq => simp [heq]
  · rfl

theorem notePublished (h : abw.ActiveSeeded) (slot : UInt8) :
    (abw.notePublished slot).2.ActiveSeeded := by
  unfold AbwSlotState.notePublished
  split
  · split
    · exact h
    · dsimp only
      split <;> exact h
  · exact h

/-- A slot that is not seeded is not the active one. -/
theorem ne_active (h : abw.ActiveSeeded) {slot : SlotId} {entry : Slot}
    (hslot : abw.slots slot = entry) (hentry : ∀ key, entry ≠ .seeded key) : slot ≠ abw.active := by
  intro hactive
  obtain ⟨key, hkey⟩ := (h slot).mpr hactive
  exact hentry key (hslot.symm.trans hkey)

theorem reveal (h : abw.ActiveSeeded) (slot : SlotId) : (abw.reveal slot).2.ActiveSeeded := by
  unfold AbwSlotState.reveal
  split
  · next heq => exact h.of_setSlot (h.ne_active heq fun _ => by simp) fun _ => by simp
  · next heq => exact h.of_setSlot (h.ne_active heq fun _ => by simp) fun _ => by simp
  · exact h

/-- Retiring the active slot and seeding another leaves that one alone seeded. -/
theorem retire_seed (h : abw.ActiveSeeded) {next : SlotId} (hnext : next ≠ abw.active) (now : Instant)
    (key : XorKey) : ((abw.retire abw.active now).seed next key).ActiveSeeded := by
  obtain ⟨old, hold⟩ := (h abw.active).mpr rfl
  intro slot
  by_cases hslot : slot = next
  · subst hslot
    exact iff_of_true ⟨key, slots_seed_self ..⟩ rfl
  · rw [slots_seed_of_ne hslot]
    refine iff_of_false ?_ hslot
    by_cases hactive : slot = abw.active
    · rw [hactive, slots_retire_self hold]
      exact fun ⟨_, hkey⟩ => by cases hkey
    · rw [slots_retire_of_ne hactive]
      exact fun hseeded => hactive ((h slot).mp hseeded)

end AbwSlotState.ActiveSeeded

/-! ### What the pool sends takes the view along -/

section Views

variable {xorKeyHash : XorKey → Hash} {view : AbwAssignments} {abw : AbwSlotState}

/-- The view follows the pool's slots over the messages sent. -/
def Follows (xorKeyHash : XorKey → Hash) (view : AbwAssignments) (queue : List Bytes)
    (abw : AbwSlotState) : Prop :=
  ∃ view', Applies xorKeyHash view queue view' ∧ view'.Agrees xorKeyHash abw

/-- Forgetting the key hash of a slot whose key was revealed. -/
theorem AbwAssignments.Agrees.reveal (h : view.Agrees xorKeyHash abw) {slot : SlotId} {key : XorKey}
    (hslot : slot ≠ abw.active)
    (hkey : ∀ hash, view.keyHashes slot = some hash → xorKeyHash key = hash)
    (resendAt : Option Instant) :
    Follows xorKeyHash view [(Reveal.mk slot key).encode]
      (abw.setSlot slot (.revealed key resendAt)) := by
  have hmatch : ¬ ((view.keyHashes slot).any fun hash => xorKeyHash key ≠ hash) = true := by
    rw [Option.any_eq_true]
    intro ⟨hash, hhash, hne⟩
    exact of_decide_eq_true hne (hkey hash hhash)
  have hview : view.reveal xorKeyHash slot key = some
      { keyHashes := Function.update view.keyHashes slot none, active := view.active } := by
    rw [AbwAssignments.reveal, if_neg hmatch, h.active, if_neg]
    intro heq
    exact hslot (Option.some.inj heq).symm
  refine ⟨_, .next (onMining_reveal hview) (.done _), ?_, h.active⟩
  intro i
  change Function.update view.keyHashes slot none i = _
  by_cases hi : i = slot
  · subst hi
    rw [AbwSlotState.slots_setSlot_self, Function.update_self]
    rfl
  · rw [AbwSlotState.slots_setSlot_of_ne hi, Function.update_of_ne hi]
    exact h.keyHashes i

theorem Follows.reveal (hseeded : abw.ActiveSeeded) (h : view.Agrees xorKeyHash abw)
    (slot : SlotId) :
    Follows xorKeyHash view ((abw.reveal slot).1.toList.map fun reveal => reveal.payload.encode)
      (abw.reveal slot).2 := by
  have hheld := h.keyHashes slot
  unfold AbwSlotState.reveal
  split
  · next key _ _ heq =>
      refine h.reveal (hseeded.ne_active heq fun _ => by simp) ?_ none
      intro hash hhash
      rw [hheld, heq] at hhash
      exact Option.some.inj hhash
  · next key _ heq =>
      refine h.reveal (hseeded.ne_active heq fun _ => by simp) ?_ none
      intro hash hhash
      rw [hheld, heq] at hhash
      cases hhash
  · exact ⟨view, .done view, h⟩

theorem Follows.append {queue queue' : List Bytes} {abw' : AbwSlotState}
    (h : Follows xorKeyHash view queue abw)
    (h' : ∀ view, view.Agrees xorKeyHash abw → Follows xorKeyHash view queue' abw') :
    Follows xorKeyHash view (queue ++ queue') abw' := by
  obtain ⟨view', happlies, hagrees⟩ := h
  obtain ⟨view'', happlies', hagrees'⟩ := h' view' hagrees
  exact ⟨view'', happlies.append happlies', hagrees'⟩

theorem Follows.revealAll (slots : List SlotId) (hseeded : abw.ActiveSeeded)
    (h : view.Agrees xorKeyHash abw) :
    (abw.revealAll slots).2.ActiveSeeded ∧
      Follows xorKeyHash view ((abw.revealAll slots).1.map fun reveal => reveal.payload.encode)
        (abw.revealAll slots).2 := by
  induction slots generalizing abw view with
  | nil => exact ⟨hseeded, view, .done view, h⟩
  | cons slot slots ih =>
      have hseeded' := hseeded.reveal slot
      obtain ⟨view', happlies, hagrees⟩ := Follows.reveal hseeded h slot
      obtain ⟨hseeded'', view'', happlies', hagrees'⟩ := ih hseeded' hagrees
      refine ⟨hseeded'', view'', ?_, hagrees'⟩
      change Applies xorKeyHash view
        (((abw.reveal slot).1.toList ++ ((abw.reveal slot).2.revealAll slots).1).map _) view''
      rw [List.map_append]
      exact happlies.append happlies'

theorem slots_retire_active (hseeded : abw.ActiveSeeded) (now : Instant) (slot : SlotId) :
    ((abw.retire abw.active now).slots slot).secretKey = (abw.slots slot).secretKey := by
  obtain ⟨key, hkey⟩ := (hseeded abw.active).mpr rfl
  by_cases hslot : slot = abw.active
  · rw [hslot, AbwSlotState.slots_retire_self hkey, hkey]
    rfl
  · rw [AbwSlotState.slots_retire_of_ne hslot]

theorem Follows.install (hseeded : abw.ActiveSeeded) (h : view.Agrees xorKeyHash abw)
    (next : SlotId) (now : Instant) (key : XorKey) :
    Follows xorKeyHash view [(AssignmentNotice.mk true next (xorKeyHash key)).encode]
      ((abw.retire abw.active now).seed next key) := by
  refine ⟨_, .next (onMining_notice view _) (.done _), ?_, rfl⟩
  intro slot
  change Function.update view.keyHashes next (some (xorKeyHash key)) slot = _
  by_cases hslot : slot = next
  · subst hslot
    rw [Function.update_self, AbwSlotState.slots_seed_self]
    rfl
  · rw [Function.update_of_ne hslot, AbwSlotState.slots_seed_of_ne hslot,
      slots_retire_active hseeded, h.keyHashes]

/-- A rotation sends what it reveals, and then the notice of the slot it seeds. -/
theorem Follows.rotate (hseeded : abw.ActiveSeeded) (h : view.Agrees xorKeyHash abw) (now : Instant)
    (key : XorKey) :
    (abw.rotate xorKeyHash now key).2.ActiveSeeded ∧
      Follows xorKeyHash view
        (((abw.rotate xorKeyHash now key).1.reveals.map fun reveal => reveal.payload.encode) ++
          ((abw.rotate xorKeyHash now key).1.notice.map AssignmentNotice.encode).toList)
        (abw.rotate xorKeyHash now key).2 := by
  have hactive : (abw.reveal abw.nextSlot).2.active = abw.active := AbwSlotState.active_reveal ..
  have hnotice : (abw.rotate xorKeyHash now key).1.notice =
      some ⟨true, abw.nextSlot, xorKeyHash key⟩ := by
    simp [AbwSlotState.rotate, AbwSlotState.notice, Slot.secretKey]
  have hseeded' := hseeded.reveal abw.nextSlot
  have hseeds := hseeded'.retire_seed (hactive.symm ▸ abw.nextSlot_ne_active) now key
  have hfollows := (Follows.reveal hseeded h abw.nextSlot).append
    fun view' h' => Follows.install hseeded' h' abw.nextSlot now key
  rw [hactive] at hseeds hfollows
  obtain ⟨view', happlies, hagrees⟩ := hfollows
  rw [hnotice]
  exact ⟨hseeds, view', happlies, hagrees.keyHashes, hagrees.active⟩

/-- The notices of slots that hold a key install the keys' hashes. -/
theorem applies_notices (view : AbwAssignments) (slots : List SlotId)
    (hsecret : ∀ slot ∈ slots, (abw.slots slot).secretKey.isSome) :
    ∃ view', Applies xorKeyHash view
        ((slots.filterMap (abw.notice xorKeyHash · false)).map AssignmentNotice.encode) view' ∧
      view'.active = view.active ∧ ∀ slot, view'.keyHashes slot =
        if slot ∈ slots then (abw.slots slot).secretKey.map xorKeyHash else view.keyHashes slot := by
  induction slots generalizing view with
  | nil => exact ⟨view, .done view, rfl, fun _ => rfl⟩
  | cons next slots ih =>
      rw [List.forall_mem_cons] at hsecret
      obtain ⟨key, hkey⟩ := Option.isSome_iff_exists.mp hsecret.1
      have hnotice : abw.notice xorKeyHash next false = some ⟨false, next, xorKeyHash key⟩ := by
        rw [AbwSlotState.notice, hkey]
        rfl
      obtain ⟨view', happlies, hactive, hkeys⟩ :=
        ih (view.install next (xorKeyHash key) false) hsecret.2
      refine ⟨view', ?_, hactive, ?_⟩
      · rw [List.filterMap_cons, hnotice]
        exact .next (onMining_notice view _) happlies
      · intro slot
        rw [hkeys slot]
        by_cases hslot : slot = next
        · subst hslot
          simp [AbwAssignments.install, hkey]
        · simp [AbwAssignments.install, hslot]

/-- The opening notices give an empty view what the slots hide. -/
theorem Follows.notices (hseeded : abw.ActiveSeeded) :
    Follows xorKeyHash .default ((abw.notices xorKeyHash).map AssignmentNotice.encode) abw := by
  obtain ⟨key, hkey⟩ := (hseeded abw.active).mpr rfl
  have hnotice : abw.notice xorKeyHash abw.active true =
      some ⟨true, abw.active, xorKeyHash key⟩ := by
    rw [AbwSlotState.notice, hkey]
    rfl
  unfold AbwSlotState.notices
  dsimp only
  generalize hretired : (List.finRange SLOTS).filter _ = retired
  have hmem : ∀ slot, slot ∈ retired ↔ ∃ key revealAt onOpen,
      abw.slots slot = .retired key revealAt onOpen := by
    intro slot
    rw [← hretired, List.mem_filter]
    cases abw.slots slot <;> simp
  have hsecret : ∀ slot ∈ retired, (abw.slots slot).secretKey.isSome := by
    intro slot hslot
    obtain ⟨key, _, _, heq⟩ := (hmem slot).mp hslot
    rw [heq]
    rfl
  obtain ⟨view', happlies, -, hkeys⟩ := applies_notices .default retired hsecret
  rw [hnotice, List.map_append]
  refine ⟨_, happlies.append (.next (onMining_notice view' _) (.done _)), ?_, rfl⟩
  intro slot
  change Function.update view'.keyHashes abw.active (some (xorKeyHash key)) slot = _
  by_cases hslot : slot = abw.active
  · rw [hslot, Function.update_self, hkey]
    rfl
  · rw [Function.update_of_ne hslot, hkeys slot]
    split
    · rfl
    · next hnot =>
        have hnever : (abw.slots slot).secretKey = none := by
          cases heq : abw.slots slot with
          | empty => rfl
          | seeded key => exact absurd ((hseeded slot).mp ⟨key, heq⟩) hslot
          | retired key revealAt onOpen => exact absurd ((hmem slot).mpr ⟨_, _, _, heq⟩) hnot
          | revealed key resendAt => rfl
        rw [hnever]
        rfl

end Views

/-! ### Every run -/

variable {xorKeyHash : XorKey → Hash}

/-- The view of a connection follows its slots, and every message so far was applied. -/
structure LinkedConn.Sound (xorKeyHash : XorKey → Hash) (conn : LinkedConn) : Prop where
  seeded : conn.abw.ActiveSeeded
  follows : Follows xorKeyHash conn.view conn.queue conn.abw
  applied : ∀ handling ∈ conn.handled, handling = .applied

structure LinkedSessions.Sound (xorKeyHash : XorKey → Hash) (st : LinkedSessions) : Prop where
  saved : ∀ clientSignPk saved, st.store.saved.get clientSignPk = some saved →
    saved.v3.abw.ActiveSeeded
  conns : ∀ i conn, st.conns i = some conn → conn.Sound xorKeyHash

namespace LinkedConn.Sound

variable {conn : LinkedConn}

/-- Messages are added behind those still to be processed. -/
theorem send (h : conn.Sound xorKeyHash) {abw : AbwSlotState} {payloads : List Bytes}
    (hnext : ∀ view, view.Agrees xorKeyHash conn.abw →
      abw.ActiveSeeded ∧ Follows xorKeyHash view payloads abw) :
    ((conn.setAbw abw).send payloads).Sound xorKeyHash := by
  obtain ⟨view', -, hagrees⟩ := h.follows
  exact ⟨(hnext view' hagrees).1, h.follows.append fun view hview => (hnext view hview).2, h.applied⟩

/-- The pool's end changes nothing a message is about. -/
theorem setAbw (h : conn.Sound xorKeyHash) {abw : AbwSlotState} (hslots : abw.slots = conn.abw.slots)
    (hactive : abw.active = conn.abw.active) : (conn.setAbw abw).Sound xorKeyHash := by
  obtain ⟨view', happlies, hkeys, hview⟩ := h.follows
  refine ⟨?_, ⟨view', happlies, ?_, ?_⟩, h.applied⟩
  · intro slot
    change (∃ key, abw.slots slot = .seeded key) ↔ slot = abw.active
    rw [hslots, hactive]
    exact h.seeded slot
  · intro slot
    change view'.keyHashes slot = (abw.slots slot).secretKey.map xorKeyHash
    rw [hslots]
    exact hkeys slot
  · exact hview.trans (congrArg some hactive.symm)

theorem rotateAbw (h : conn.Sound xorKeyHash) (now : Instant) (key : XorKey) :
    (conn.rotateAbw xorKeyHash now key).Sound xorKeyHash :=
  h.send fun _ hview => Follows.rotate h.seeded hview now key

theorem sendDueReveals (h : conn.Sound xorKeyHash) (now : Instant) :
    (conn.sendDueReveals now).Sound xorKeyHash := by
  have hnext : ∀ view, view.Agrees xorKeyHash conn.abw →
      (conn.abw.revealsDue now).2.ActiveSeeded ∧ Follows xorKeyHash view
        ((conn.abw.revealsDue now).1.map fun reveal => reveal.payload.encode)
        (conn.abw.revealsDue now).2 := ?_
  · exact h.send hnext
  intro view hview
  unfold AbwSlotState.revealsDue
  split
  · exact ⟨h.seeded, view, .done view, hview⟩
  · exact Follows.revealAll _ h.seeded hview

theorem process (h : conn.Sound xorKeyHash) : (conn.process xorKeyHash).Sound xorKeyHash := by
  obtain ⟨view', happlies, hagrees⟩ := h.follows
  unfold LinkedConn.process
  generalize hqueue : conn.queue = queue at happlies
  cases happlies with
  | done => exact h
  | next happlied hrest =>
      dsimp only
      rw [happlied]
      refine ⟨h.seeded, ⟨view', hrest, hagrees⟩, ?_⟩
      intro handling hmem
      rcases List.mem_append.mp hmem with hmem | hmem
      · exact h.applied handling hmem
      · exact List.mem_singleton.mp hmem

theorem «open» {session : SessionConn} (h : session.v3.abw.ActiveSeeded) :
    (LinkedConn.open xorKeyHash session).Sound xorKeyHash :=
  ⟨h, Follows.notices h, fun _ hmem => absurd hmem List.not_mem_nil⟩

end LinkedConn.Sound

namespace LinkedSessions.Sound

variable {st : LinkedSessions} {i : Nat}

theorem setConn (h : st.Sound xorKeyHash) {conn : Option LinkedConn}
    (hconn : ∀ c, conn = some c → c.Sound xorKeyHash) : (st.setConn i conn).Sound xorKeyHash := by
  refine ⟨h.saved, fun j c hc => ?_⟩
  change Function.update st.conns i conn j = some c at hc
  by_cases hj : j = i
  · subst hj
    rw [Function.update_self] at hc
    exact hconn c hc
  · rw [Function.update_of_ne hj] at hc
    exact h.conns j c hc

theorem setOpen (h : st.Sound xorKeyHash) {conn : LinkedConn} (hconn : conn.Sound xorKeyHash) :
    (st.setConn i (some conn)).Sound xorKeyHash :=
  h.setConn fun _ hc => Option.some.inj hc ▸ hconn

/-- A session started or resumed has one slot seeded. -/
theorem start (h : st.Sound xorKeyHash) (clientSignPk : PublicKey) (openedAt : Instant)
    (resume : Option ResumeToken) (now : Instant) (token : ResumeToken) (key : XorKey) :
    (SessionConn.start st.store clientSignPk openedAt resume now token
      key).1.v3.abw.ActiveSeeded := by
  unfold SessionConn.start SessionStore.resumeOrStart
  cases hresumed : st.store.resumed clientSignPk resume now with
  | none => exact AbwSlotState.ActiveSeeded.start now key
  | some saved =>
      have hget := (SessionStore.resumed_spec hresumed).1
      exact (h.saved _ saved hget).resume saved.savedAt

theorem withStore (h : st.Sound xorKeyHash) {store : SessionStore}
    (hstore : ∀ clientSignPk saved, store.saved.get clientSignPk = some saved →
      saved.v3.abw.ActiveSeeded) : ({ st with store } : LinkedSessions).Sound xorKeyHash :=
  ⟨hstore, h.conns⟩

theorem noteProven (h : st.Sound xorKeyHash) (session : SessionConn) (clientSignPk : PublicKey)
    (saved : SavedSession)
    (hget : (session.noteProven st.store).2.saved.get clientSignPk = some saved) :
    saved.v3.abw.ActiveSeeded := by
  unfold SessionConn.noteProven at hget
  split at hget
  · exact h.saved _ _ hget
  · dsimp only at hget
    split at hget
    · exact h.saved _ _ (SessionStore.get_claim hget)
    · exact h.saved _ _ hget

theorem drop (h : st.Sound xorKeyHash) {session : SessionConn}
    (hsession : session.v3.abw.ActiveSeeded) (splits : DictatedSplits) (now : Instant)
    (clientSignPk : PublicKey) (saved : SavedSession)
    (hget : (session.drop splits now st.store).saved.get clientSignPk = some saved) :
    saved.v3.abw.ActiveSeeded := by
  unfold SessionConn.drop at hget
  split at hget
  · rcases SessionStore.get_save hget with rfl | hkept
    · exact hsession
    · exact h.saved _ _ hkept
  · exact h.saved _ _ hget

theorem step (h : st.Sound xorKeyHash) {st' : LinkedSessions}
    (hstep : LinkStep xorKeyHash st i st') : st'.Sound xorKeyHash := by
  cases hstep with
  | opened clientSignPk openedAt now resume token key _ =>
      exact h.setOpen (.open (h.start clientSignPk openedAt resume now token key))
  | @frame conn hconn =>
      have hsound := h.conns i conn hconn
      refine (h.withStore (h.noteProven conn.session)).setOpen ?_
      have habw : (conn.session.noteProven st.store).1.v3 = conn.session.v3 := by
        unfold SessionConn.noteProven
        split <;> rfl
      refine ⟨?_, ?_, hsound.applied⟩
      · change (conn.session.noteProven st.store).1.v3.abw.ActiveSeeded
        rw [habw]
        exact hsound.seeded
      · change Follows xorKeyHash conn.view conn.queue (conn.session.noteProven st.store).1.v3.abw
        rw [habw]
        exact hsound.follows
  | @share conn hconn => exact h.setOpen ((h.conns i conn hconn).setAbw rfl rfl)
  | @tip conn now hconn => exact h.setOpen ((h.conns i conn hconn).setAbw rfl rfl)
  | @published conn slot hconn =>
      refine h.setOpen ((h.conns i conn hconn).setAbw ?_ ?_)
      · unfold AbwSlotState.notePublished
        split
        · split
          · rfl
          · dsimp only
            split <;> rfl
        · rfl
      · unfold AbwSlotState.notePublished
        split
        · split
          · rfl
          · dsimp only
            split <;> rfl
        · rfl
  | @rotated conn now key hconn => exact h.setOpen ((h.conns i conn hconn).rotateAbw now key)
  | @revealed conn now hconn => exact h.setOpen ((h.conns i conn hconn).sendDueReveals now)
  | @processed conn hconn => exact h.setOpen (h.conns i conn hconn).process
  | @closed conn now splits hconn =>
      refine (h.withStore (h.drop (h.conns i conn hconn).seeded splits now)).setConn ?_
      intro c hc
      cases hc

end LinkedSessions.Sound

theorem linkRuns_sound {trace : List Nat} {st : LinkedSessions}
    (hrun : (linkRuns xorKeyHash).Run trace st) : st.Sound xorKeyHash := by
  refine hrun.invariant (I := fun _ st => st.Sound xorKeyHash) ?_ ?_
  · intro st hinit
    subst hinit
    constructor
    · intro _ _ hget
      cases hget
    · intro _ _ hconn
      cases hconn
  · intro _ _ _ _ h hstep
    exact h.step hstep

/-- **The gateway's view agrees with the pool's slots.** In every reachable state, every notice and reveal
the gateway processed was applied; and a gateway that has processed all that was sent on its connection
holds the hash of each key the pool seeded or retired and has not revealed, no other, and the pool's
active slot. -/
theorem view_agrees_with_slots {trace : List Nat} {st : LinkedSessions}
    (hrun : (linkRuns xorKeyHash).Run trace st) {i : Nat} {conn : LinkedConn}
    (hconn : st.conns i = some conn) :
    (∀ handling ∈ conn.handled, handling = .applied) ∧
      (conn.queue = [] →
        (∀ slot, conn.view.keyHashes slot = (conn.abw.slots slot).secretKey.map xorKeyHash) ∧
          conn.view.active = some conn.abw.active) := by
  have hsound := (linkRuns_sound hrun).conns i conn hconn
  refine ⟨hsound.applied, fun hqueue => ?_⟩
  obtain ⟨view', happlies, hagrees⟩ := hsound.follows
  rw [hqueue] at happlies
  cases happlies
  exact ⟨hagrees.keyHashes, hagrees.active⟩

/-- A key hash told from another by its first byte. -/
def firstByteHash (key : XorKey) : Hash := Vector.replicate 32 (key.get 0)

theorem view_agrees_with_slots_rotated :
    ∃ conn : LinkedConn, conn.abw.active = 1 ∧ conn.view.active = some 1 ∧
      conn.view.keyHashes 0 = some (Vector.replicate 32 5) ∧
      conn.view.keyHashes 1 = some (Vector.replicate 32 6) := by
  have hopened := Lts.Run.next (S := linkRuns firstByteHash) (i := 0) (.start rfl)
    (.opened (Vector.replicate 32 0) 0 0 none (Vector.replicate RESUME_TOKEN_LEN 0)
      (Vector.replicate 16 5) rfl)
  have hnoticed := hopened.next (i := 0) (.processed rfl)
  have hrotated := hnoticed.next (i := 0) (.rotated 0 (Vector.replicate 16 6) rfl)
  have hdone := hrotated.next (i := 0) (.processed rfl)
  obtain ⟨-, hview⟩ := view_agrees_with_slots hdone (i := 0) rfl
  obtain ⟨hkeys, hactive⟩ := hview rfl
  exact ⟨_, rfl, hactive, hkeys 0, hkeys 1⟩

end Ratum
