import Ratum.Core.Clock
import Ratum.Core.Header
import Ratum.Core.Word
import Mathlib.Logic.Function.Basic

/-!
# The anti-block-withholding slots of a session

`prime/src/abw.rs`: a slot is seeded with a secret key, retired with the reveal of its key pending, and
revealed. A new key is random bytes, which the functions that seed a slot take as an argument; the hash
of a key that a notice commits to is a parameter, and the encoding of the messages is left out.
-/

namespace Ratum

def ROTATE_AFTER_SHARES : Nat := 16384

def ROTATE_AFTER : Duration := .fromSecs 600

/-- How long after a slot's retirement its key is revealed. -/
def REVEAL_AFTER : Duration := .fromSecs 300

def MAX_TIP_ROTATIONS_PER_REVEAL : Nat := 4

/-- How long after a connection opens its rotations and reveals wait. -/
def REPLAY_GRACE : Duration := .fromSecs 10

abbrev SLOTS : Nat := 16

/-- A slot's number, in range. -/
abbrev SlotId := Fin SLOTS

instance : NeZero SLOTS := ⟨by decide⟩

inductive SlotKeyStatus
  | secret
  | revealed
  deriving DecidableEq, Repr

/-- One slot through its life. -/
inductive Slot
  | empty
  | seeded (key : XorKey)
  | retired (key : XorKey) (revealAt : Instant) (retiredOnOpenConnection : Bool)
  | revealed (key : XorKey) (resendAt : Option Instant)
  deriving DecidableEq

namespace Slot

def secretKey : Slot → Option XorKey
  | seeded key => some key
  | retired key _ _ => some key
  | empty => none
  | revealed _ _ => none

def dueAt : Slot → Option Instant
  | retired _ revealAt _ => some revealAt
  | revealed _ resendAt => resendAt
  | empty => none
  | seeded _ => none

/-- What a resume does to a slot: the reveal delay of one retired while the gateway was connected
restarts from the close, and a reveal sent on the closed connection is sent again. -/
def resume (closedAt : Instant) : Slot → Slot
  | retired key _ true => retired key (closedAt + REVEAL_AFTER) false
  | revealed key none => revealed key (some closedAt)
  | slot => slot

end Slot

/-- The body of a `Reveal` message. -/
structure Reveal where
  slot : SlotId
  xorKey : XorKey
  deriving DecidableEq

structure PendingReveal where
  slot : SlotId
  resend : Bool
  payload : Reveal
  deriving DecidableEq

/-- The body of an `AssignmentNotice` message. -/
structure AssignmentNotice where
  active : Bool
  slot : SlotId
  keyHash : Hash
  deriving DecidableEq

structure Rotation where
  reveals : List PendingReveal
  notice : Option AssignmentNotice
  deriving DecidableEq

structure AbwSlotState where
  slots : SlotId → Slot
  active : SlotId
  sharesSinceActivation : Nat
  activatedAt : Instant
  /-- Rotations and reveals are not due before this instant. -/
  heldUntil : Instant
  /-- A new tip asked for a rotation that the hold has not yet let through. -/
  tipRotationPending : Bool
  /-- The slots whose key a relayed block's header published. -/
  published : SlotId → Bool

namespace AbwSlotState

def setSlot (abw : AbwSlotState) (slot : SlotId) (entry : Slot) : AbwSlotState :=
  { abw with slots := Function.update abw.slots slot entry }

def seed (abw : AbwSlotState) (slot : SlotId) (key : XorKey) : AbwSlotState :=
  { abw.setSlot slot (.seeded key) with
    published := Function.update abw.published slot false
    active := slot }

def start (now : Instant) (key : XorKey) : AbwSlotState :=
  seed
    { slots := fun _ => .empty
      active := 0
      sharesSinceActivation := 0
      activatedAt := now
      heldUntil := now
      tipRotationPending := false
      published := fun _ => false }
    0 key

/-- The key a share on `slot` is verified with, and whether it is still secret. -/
def keyFor (abw : AbwSlotState) (slot : UInt8) : Option (XorKey × SlotKeyStatus) :=
  if h : slot.toNat < SLOTS then
    let entry := abw.slots ⟨slot.toNat, h⟩
    let published := abw.published ⟨slot.toNat, h⟩
    match entry with
    | .seeded key => some (key, if published then .revealed else .secret)
    | .retired key _ _ => some (key, if published then .revealed else .secret)
    | .revealed key _ => some (key, .revealed)
    | .empty => none
  else none

/-- Marks the slot's key public; returns whether the slot was active, or none if its key was not
secret. -/
def notePublished (abw : AbwSlotState) (slot : UInt8) : Option Bool × AbwSlotState :=
  if h : slot.toNat < SLOTS then
    if (abw.slots ⟨slot.toNat, h⟩).secretKey.isNone then (none, abw)
    else
      let published := { abw with published := Function.update abw.published ⟨slot.toNat, h⟩ true }
      if abw.published ⟨slot.toNat, h⟩ then (none, published)
      else (some (⟨slot.toNat, h⟩ = abw.active), published)
  else (none, abw)

def activePublished (abw : AbwSlotState) : Bool := abw.published abw.active

def notice (xorKeyHash : XorKey → Hash) (abw : AbwSlotState) (slot : SlotId) (active : Bool) :
    Option AssignmentNotice :=
  (abw.slots slot).secretKey.map fun key => { active, slot, keyHash := xorKeyHash key }

/-- The notices a connection opens with. -/
def notices (xorKeyHash : XorKey → Hash) (abw : AbwSlotState) : List AssignmentNotice :=
  let retired := (List.finRange SLOTS).filter fun slot =>
    match abw.slots slot with
    | .retired _ _ _ => true
    | _ => false
  retired.filterMap (abw.notice xorKeyHash · false) ++ (abw.notice xorKeyHash abw.active true).toList

def connect (abw : AbwSlotState) (openedAt : Instant) : AbwSlotState :=
  { abw with heldUntil := openedAt + REPLAY_GRACE }

def held (abw : AbwSlotState) (now : Instant) : Bool := now < abw.heldUntil

def resume (abw : AbwSlotState) (closedAt : Instant) : AbwSlotState :=
  { abw with slots := fun slot => (abw.slots slot).resume closedAt }

/-- Sends the slot's key: the reveal of a retired slot, or of a revealed one again where a resume asked
for it. -/
def reveal (abw : AbwSlotState) (slot : SlotId) : Option PendingReveal × AbwSlotState :=
  match abw.slots slot with
  | .retired key _ _ =>
      (some ⟨slot, false, ⟨slot, key⟩⟩, abw.setSlot slot (.revealed key none))
  | .revealed key (some _) =>
      (some ⟨slot, true, ⟨slot, key⟩⟩, abw.setSlot slot (.revealed key none))
  | _ => (none, abw)

/-- The reveals of several slots, in order. -/
def revealAll (abw : AbwSlotState) : List SlotId → List PendingReveal × AbwSlotState
  | [] => ([], abw)
  | slot :: slots =>
      let (reveal, abw) := abw.reveal slot
      let (reveals, abw) := abw.revealAll slots
      (reveal.toList ++ reveals, abw)

/-- The slot a rotation activates next. -/
def nextSlot (abw : AbwSlotState) : SlotId := abw.active + 1

/-- When the slot a rotation activates next is still retired, the instant its key is revealed. -/
def nextSlotRevealAt (abw : AbwSlotState) : Option Instant :=
  match abw.slots abw.nextSlot with
  | .retired _ revealAt _ => some revealAt
  | _ => none

def isDue (abw : AbwSlotState) (now : Instant) (slot : SlotId) : Bool :=
  (abw.slots slot).dueAt.any fun dueAt => dueAt ≤ now

def revealDue (abw : AbwSlotState) (now : Instant) : Bool :=
  !abw.held now && (List.finRange SLOTS).any (abw.isDue now)

def revealsDue (abw : AbwSlotState) (now : Instant) : List PendingReveal × AbwSlotState :=
  if abw.held now then ([], abw) else abw.revealAll ((List.finRange SLOTS).filter (abw.isDue now))

/-- Retires the slot if it is seeded. -/
def retire (abw : AbwSlotState) (slot : SlotId) (now : Instant) : AbwSlotState :=
  match abw.slots slot with
  | .seeded key => abw.setSlot slot (.retired key (now + REVEAL_AFTER) true)
  | _ => abw

/-- Retires the active slot and activates the next, under a new key. -/
def rotate (xorKeyHash : XorKey → Hash) (abw : AbwSlotState) (now : Instant) (key : XorKey) :
    Rotation × AbwSlotState :=
  let old := abw.active
  let next := abw.nextSlot
  let (reveal, abw) := abw.reveal next
  let abw := (abw.retire old now).seed next key
  let abw :=
    { abw with sharesSinceActivation := 0, activatedAt := now, tipRotationPending := false }
  (⟨reveal.toList, abw.notice xorKeyHash next true⟩, abw)

def noteShare (abw : AbwSlotState) : AbwSlotState :=
  { abw with sharesSinceActivation := satAdd64 abw.sharesSinceActivation 1 }

/-- Why a rotation is due, if one is. -/
def rotationDue (abw : AbwSlotState) (now : Instant) : Option String :=
  if abw.held now || abw.nextSlotRevealAt.isSome then none
  else if abw.activePublished then some "a relayed block published its key"
  else if abw.tipRotationPending then some "new tip"
  else if ROTATE_AFTER_SHARES ≤ abw.sharesSinceActivation then some "share count"
  else if ROTATE_AFTER ≤ now - abw.activatedAt then some "slot age"
  else none

/-- Records a new tip; returns whether the active slot is old enough to rotate on it. -/
def noteTip (abw : AbwSlotState) (now : Instant) : Bool × AbwSlotState :=
  let oldEnough := REVEAL_AFTER / MAX_TIP_ROTATIONS_PER_REVEAL ≤ now - abw.activatedAt
  (oldEnough, { abw with tipRotationPending := abw.tipRotationPending || oldEnough })

/-! ### What each function does to a slot -/

@[simp] theorem slots_setSlot_self (abw : AbwSlotState) (slot : SlotId) (entry : Slot) :
    (abw.setSlot slot entry).slots slot = entry := Function.update_self ..

theorem slots_setSlot_of_ne {abw : AbwSlotState} {slot i : SlotId} (h : i ≠ slot) (entry : Slot) :
    (abw.setSlot slot entry).slots i = abw.slots i := Function.update_of_ne h ..

@[simp] theorem active_setSlot (abw : AbwSlotState) (slot : SlotId) (entry : Slot) :
    (abw.setSlot slot entry).active = abw.active := rfl

@[simp] theorem active_seed (abw : AbwSlotState) (slot : SlotId) (key : XorKey) :
    (abw.seed slot key).active = slot := rfl

@[simp] theorem slots_seed_self (abw : AbwSlotState) (slot : SlotId) (key : XorKey) :
    (abw.seed slot key).slots slot = .seeded key := slots_setSlot_self ..

theorem slots_seed_of_ne {abw : AbwSlotState} {slot i : SlotId} (h : i ≠ slot) (key : XorKey) :
    (abw.seed slot key).slots i = abw.slots i := slots_setSlot_of_ne h _

theorem slots_reveal_of_ne {abw : AbwSlotState} {slot i : SlotId} (h : i ≠ slot) :
    (abw.reveal slot).2.slots i = abw.slots i := by
  unfold reveal
  split
  · exact slots_setSlot_of_ne h _
  · exact slots_setSlot_of_ne h _
  · rfl

@[simp] theorem active_reveal (abw : AbwSlotState) (slot : SlotId) :
    (abw.reveal slot).2.active = abw.active := by
  unfold reveal
  split <;> rfl

theorem slots_retire_of_ne {abw : AbwSlotState} {slot i : SlotId} (h : i ≠ slot) (now : Instant) :
    (abw.retire slot now).slots i = abw.slots i := by
  unfold retire
  split
  · exact slots_setSlot_of_ne h _
  · rfl

theorem slots_retire_self {abw : AbwSlotState} {slot : SlotId} {key : XorKey}
    (h : abw.slots slot = .seeded key) (now : Instant) :
    (abw.retire slot now).slots slot = .retired key (now + REVEAL_AFTER) true := by
  unfold retire
  rw [h]
  exact slots_setSlot_self ..

theorem nextSlot_ne_active (abw : AbwSlotState) : abw.nextSlot ≠ abw.active := by
  unfold nextSlot
  generalize abw.active = slot
  revert slot
  decide

end AbwSlotState
end Ratum
