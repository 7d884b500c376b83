import Ratum.Datum.Abw

/-!
# The commitments a gateway holds

`gateway/src/datum/abw.rs` and `gateway/src/datum/session/assignments.rs`: one key hash for each slot and
which slot is active, as the pool's messages set them. The work refreshed on an active notice is left
out.
-/

namespace Ratum

structure AbwAssignment where
  slot : SlotId
  keyHash : Hash
  deriving DecidableEq

structure AbwAssignments where
  keyHashes : SlotId → Option Hash
  active : Option SlotId

namespace AbwAssignments

/-- The view a connection starts with. -/
def default : AbwAssignments := ⟨fun _ => none, none⟩

def assignment (view : AbwAssignments) : Option AbwAssignment := do
  let slot ← view.active
  let keyHash ← view.keyHashes slot
  pure { slot, keyHash }

def holds (view : AbwAssignments) (a : AbwAssignment) : Bool :=
  view.keyHashes a.slot = some a.keyHash

def install (view : AbwAssignments) (slot : SlotId) (keyHash : Hash) (active : Bool) :
    AbwAssignments where
  keyHashes := Function.update view.keyHashes slot (some keyHash)
  active := if active then some slot else view.active

/-- Makes the slot active; none when it holds no key hash. -/
def activate (view : AbwAssignments) (slot : SlotId) : Option AbwAssignments :=
  if (view.keyHashes slot).isNone then none else some { view with active := some slot }

/-- Forgets the slot's key hash; none when the key does not match it. -/
def reveal (xorKeyHash : XorKey → Hash) (view : AbwAssignments) (slot : SlotId) (xorKey : XorKey) :
    Option AbwAssignments :=
  if (view.keyHashes slot).any fun hash => xorKeyHash xorKey ≠ hash then none
  else some {
    keyHashes := Function.update view.keyHashes slot none
    active := if view.active = some slot then none else view.active }

end AbwAssignments

/-- What became of a message. -/
inductive Handling
  | applied
  | malformed (what : String) (e : MessageError)
  | notHeld (slot : SlotId)
  | mismatch (slot : SlotId)
  | other
  deriving DecidableEq

section Session

variable (xorKeyHash : XorKey → Hash) (view : AbwAssignments) (plain : Bytes)

def onAbwNotice : Handling × AbwAssignments :=
  match AssignmentNotice.decode plain with
  | .error e => (.malformed "assignment notice" e, view)
  | .ok notice => (.applied, view.install notice.slot notice.keyHash notice.active)

def onAbwActivation : Handling × AbwAssignments :=
  match Activation.decode plain with
  | .error e => (.malformed "activation" e, view)
  | .ok activation =>
      match view.activate activation.slot with
      | none => (.notHeld activation.slot, view)
      | some view => (.applied, view)

def onAbwReveal : Handling × AbwAssignments :=
  match Reveal.decode plain with
  | .error e => (.malformed "reveal" e, view)
  | .ok reveal =>
      match view.reveal xorKeyHash reveal.slot reveal.xorKey with
      | none => (.mismatch reveal.slot, view)
      | some view => (.applied, view)

/-- `on_mining`, as far as it changes the view. -/
def onMining : Handling × AbwAssignments :=
  match plain.head? with
  | some subcmd =>
      if subcmd = Subcmd.ASSIGNMENT_NOTICE then onAbwNotice view plain
      else if subcmd = Subcmd.ACTIVATION then onAbwActivation view plain
      else if subcmd = Subcmd.REVEAL then onAbwReveal xorKeyHash view plain
      else (.other, view)
  | none => (.other, view)

end Session

/-! ### A notice or a reveal the pool encoded -/

variable {xorKeyHash : XorKey → Hash}

theorem onMining_notice (view : AbwAssignments) (notice : AssignmentNotice) :
    onMining xorKeyHash view notice.encode =
      (.applied, view.install notice.slot notice.keyHash notice.active) := by
  change onAbwNotice view notice.encode = _
  rw [onAbwNotice, AssignmentNotice.decode_encode]

theorem onMining_reveal {view view' : AbwAssignments} {reveal : Reveal}
    (h : view.reveal xorKeyHash reveal.slot reveal.xorKey = some view') :
    onMining xorKeyHash view reveal.encode = (.applied, view') := by
  change onAbwReveal xorKeyHash view reveal.encode = _
  rw [onAbwReveal, Reveal.decode_encode]
  dsimp only
  rw [h]

end Ratum
