import Ratum.Abw.Slots
import Ratum.Base.Lts

/-!
# The life of a slot's keys

The events of one session, and what they say of each key: when its slot was retired, when the connection
it was retired on closed, and when it was first revealed. The history is read off the events alone; the
runs pair it with the session's slots.
-/

namespace Ratum

/-- A key a slot was seeded with. -/
structure KeyLife where
  key : XorKey
  retiredAt : Option Instant
  /-- The first close of a connection after the retirement and before the reveal. -/
  closedAt : Option Instant
  /-- The first reveal. -/
  revealedAt : Option Instant
  deriving DecidableEq

namespace KeyLife

def fresh (key : XorKey) : KeyLife := ⟨key, none, none, none⟩

def retire (now : Instant) (life : KeyLife) : KeyLife := { life with retiredAt := some now }

def close (closedAt : Instant) (life : KeyLife) : KeyLife :=
  if life.retiredAt.isSome && life.revealedAt.isNone && life.closedAt.isNone then
    { life with closedAt := some closedAt }
  else life

def reveal (now : Instant) (life : KeyLife) : KeyLife :=
  { life with revealedAt := life.revealedAt.or (some now) }

/-- The reveal delay has passed since the retirement and since the first close. -/
def Due (life : KeyLife) (now : Instant) : Prop :=
  ∃ retiredAt, life.retiredAt = some retiredAt ∧ retiredAt + REVEAL_AFTER ≤ now ∧
    ∀ closedAt, life.closedAt = some closedAt → closedAt + REVEAL_AFTER ≤ now

end KeyLife

/-- The keys each slot was seeded with, newest first, and the slot seeded last. -/
structure History where
  lives : SlotId → List KeyLife
  newest : SlotId

inductive AbwEvent
  | connected (openedAt : Instant)
  | share
  | tip (now : Instant)
  | published (slot : UInt8)
  | rotated (now : Instant) (slot : SlotId) (key : XorKey) (reveals : List PendingReveal)
  | revealed (now : Instant) (reveals : List PendingReveal)
  | closed (closedAt : Instant)

/-- The reveals an event sends. -/
def AbwEvent.reveals : AbwEvent → List PendingReveal
  | .rotated _ _ _ reveals => reveals
  | .revealed _ reveals => reveals
  | _ => []

namespace History

def modify (history : History) (slot : SlotId) (f : List KeyLife → List KeyLife) : History :=
  { history with lives := Function.update history.lives slot (f (history.lives slot)) }

def start (key : XorKey) : History :=
  { lives := Function.update (fun _ => []) 0 [.fresh key], newest := 0 }

def reveal (history : History) (now : Instant) (slot : SlotId) : History :=
  history.modify slot (List.modifyHead (KeyLife.reveal now))

def revealAll (history : History) (now : Instant) (reveals : List PendingReveal) : History :=
  reveals.foldl (fun history reveal => history.reveal now reveal.slot) history

def retire (history : History) (now : Instant) : History :=
  history.modify history.newest (List.modifyHead (KeyLife.retire now))

def seed (history : History) (slot : SlotId) (key : XorKey) : History :=
  { history.modify slot (.fresh key :: ·) with newest := slot }

def close (history : History) (closedAt : Instant) : History :=
  { history with lives := fun slot => (history.lives slot).map (KeyLife.close closedAt) }

def after (history : History) : AbwEvent → History
  | .rotated now slot key reveals => ((history.revealAll now reveals).retire now).seed slot key
  | .revealed now reveals => history.revealAll now reveals
  | .closed closedAt => history.close closedAt
  | _ => history

@[simp] theorem lives_modify_self (history : History) (slot : SlotId)
    (f : List KeyLife → List KeyLife) :
    (history.modify slot f).lives slot = f (history.lives slot) := Function.update_self ..

theorem lives_modify_of_ne {history : History} {slot i : SlotId} (h : i ≠ slot)
    (f : List KeyLife → List KeyLife) :
    (history.modify slot f).lives i = history.lives i := Function.update_of_ne h ..

@[simp] theorem newest_modify (history : History) (slot : SlotId)
    (f : List KeyLife → List KeyLife) : (history.modify slot f).newest = history.newest := rfl

end History

/-! ### Runs of one session -/

/-- A session, the latest time it was given, and the history of its keys. -/
structure AbwRun where
  abw : AbwSlotState
  clock : Instant
  history : History

/-- A step of one session: times do not decrease, a rotation is made once it was found due, and a close
is followed by the resume of what was saved. -/
inductive AbwStep (xorKeyHash : XorKey → Hash) : AbwRun → AbwEvent → AbwRun → Prop
  | connect {r : AbwRun} (openedAt : Instant) :
      AbwStep xorKeyHash r (.connected openedAt)
        ⟨r.abw.connect openedAt, r.clock, r.history.after (.connected openedAt)⟩
  | noteShare {r : AbwRun} :
      AbwStep xorKeyHash r .share ⟨r.abw.noteShare, r.clock, r.history.after .share⟩
  | noteTip {r : AbwRun} {now : Instant} (hnow : r.clock ≤ now) :
      AbwStep xorKeyHash r (.tip now) ⟨(r.abw.noteTip now).2, now, r.history.after (.tip now)⟩
  | notePublished {r : AbwRun} (slot : UInt8) :
      AbwStep xorKeyHash r (.published slot)
        ⟨(r.abw.notePublished slot).2, r.clock, r.history.after (.published slot)⟩
  | rotate {r : AbwRun} {dueAt now : Instant} {why : String} (key : XorKey)
      (hdueAt : r.clock ≤ dueAt) (hdue : r.abw.rotationDue dueAt = some why) (hnow : dueAt ≤ now) :
      AbwStep xorKeyHash r
        (.rotated now r.abw.nextSlot key (r.abw.rotate xorKeyHash now key).1.reveals)
        ⟨(r.abw.rotate xorKeyHash now key).2, now, r.history.after
          (.rotated now r.abw.nextSlot key (r.abw.rotate xorKeyHash now key).1.reveals)⟩
  | revealsDue {r : AbwRun} {now : Instant} (hnow : r.clock ≤ now) :
      AbwStep xorKeyHash r (.revealed now (r.abw.revealsDue now).1)
        ⟨(r.abw.revealsDue now).2, now,
          r.history.after (.revealed now (r.abw.revealsDue now).1)⟩
  | close {r : AbwRun} {closedAt : Instant} (hnow : r.clock ≤ closedAt) :
      AbwStep xorKeyHash r (.closed closedAt)
        ⟨r.abw.resume closedAt, closedAt, r.history.after (.closed closedAt)⟩

def abwRuns (xorKeyHash : XorKey → Hash) : Lts AbwRun AbwEvent where
  init r := ∃ now key, r = ⟨.start now key, now, .start key⟩
  step := AbwStep xorKeyHash

end Ratum
