import Ratum.Abw.Slots
import Ratum.Datum.Messages

/-!
# The anti-block-withholding messages

`core/src/datum/messages/abw.rs`: the notice that assigns a slot and commits to its key, the activation of
a slot, and the reveal of its key, each of which decodes to what was encoded.
-/

namespace Ratum

def DRAFT_REVISION : UInt8 := 0

def ASSIGNMENT_ACTIVE : UInt8 := 0x01

namespace Subcmd

def ACTIVATION : UInt8 := 0xa6

def ASSIGNMENT_NOTICE : UInt8 := 0xa8

def REVEAL : UInt8 := 0xa9

end Subcmd

structure Activation where
  slot : SlotId
  deriving DecidableEq

def message (subcmd : UInt8) (body : Bytes) : Bytes :=
  subcmd :: DRAFT_REVISION :: (body ++ [STRUCT_END])

def openRevision (data : Bytes) (subcmd : UInt8) : Except MessageError ByteReader := do
  let c ← openMessage data subcmd
  let (rev, c) ← orTruncated (c.u8 "revision")
  if rev ≠ DRAFT_REVISION then .error (.badVersion rev) else pure c

def slotChecked (slot : UInt8) : Except MessageError SlotId :=
  if h : slot.toNat < SLOTS then .ok ⟨slot.toNat, h⟩ else .error (.badSlot slot)

/-- The byte a slot is written as. -/
def slotByte (slot : SlotId) : UInt8 := UInt8.ofNat slot.val

@[simp] theorem slotChecked_slotByte (slot : SlotId) : slotChecked (slotByte slot) = .ok slot := by
  revert slot
  decide

namespace AssignmentNotice

def encode (notice : AssignmentNotice) : Bytes :=
  message Subcmd.ASSIGNMENT_NOTICE
    ((if notice.active then ASSIGNMENT_ACTIVE else 0) :: slotByte notice.slot ::
      notice.keyHash.toList)

def decode (data : Bytes) : Except MessageError AssignmentNotice := do
  let c ← openRevision data Subcmd.ASSIGNMENT_NOTICE
  let (flags, c) ← orTruncated (c.u8 "flags")
  if flags &&& ~~~ASSIGNMENT_ACTIVE ≠ 0 then .error (.badFlags flags)
  else
    let (slot, c) ← orTruncated (c.u8 "slot")
    let slot ← slotChecked slot
    let (keyHash, c) ← orTruncated (c.arr HASH_SIZE "key hash")
    readFinalTerminator c
    pure { active := flags &&& ASSIGNMENT_ACTIVE ≠ 0, slot, keyHash }

end AssignmentNotice

namespace Activation

def encode (activation : Activation) : Bytes :=
  message Subcmd.ACTIVATION [slotByte activation.slot]

def decode (data : Bytes) : Except MessageError Activation := do
  let c ← openRevision data Subcmd.ACTIVATION
  let (slot, c) ← orTruncated (c.u8 "slot")
  let slot ← slotChecked slot
  readFinalTerminator c
  pure { slot }

end Activation

namespace Reveal

def encode (reveal : Reveal) : Bytes :=
  message Subcmd.REVEAL (slotByte reveal.slot :: reveal.xorKey.toList)

def decode (data : Bytes) : Except MessageError Reveal := do
  let c ← openRevision data Subcmd.REVEAL
  let (slot, c) ← orTruncated (c.u8 "slot")
  let slot ← slotChecked slot
  let (xorKey, c) ← orTruncated (c.arr 16 "xor key")
  readFinalTerminator c
  pure { slot, xorKey }

end Reveal

/-! ### What is encoded decodes -/

theorem openRevision_message (subcmd : UInt8) (body : Bytes) :
    openRevision (message subcmd body) subcmd =
      .ok ⟨message subcmd body, body ++ [STRUCT_END]⟩ := by
  simp only [openRevision, message, openMessage_cons, ByteReader.u8_cons, orTruncated, Except.mapError, bind,
    Except.bind]
  rfl

theorem AssignmentNotice.decode_encode (notice : AssignmentNotice) :
    AssignmentNotice.decode notice.encode = .ok notice := by
  obtain ⟨active, slot, keyHash⟩ := notice
  have hread := fun full =>
    ByteReader.arr_append HASH_SIZE full [STRUCT_END] "key hash" keyHash
  have hflag : (if active then ASSIGNMENT_ACTIVE else 0) &&& ~~~ASSIGNMENT_ACTIVE = 0 ∧
      decide ((if active then ASSIGNMENT_ACTIVE else 0) &&& ASSIGNMENT_ACTIVE ≠ 0) = active := by
    cases active <;> decide
  simp only [AssignmentNotice.decode, AssignmentNotice.encode, openRevision_message,
    List.cons_append, ByteReader.u8_cons, orTruncated, Except.mapError, bind, Except.bind, hflag.1, hflag.2,
    slotChecked_slotByte, hread, readFinalTerminator_end, ne_eq, not_true_eq_false, if_false]
  rfl

theorem Activation.decode_encode (activation : Activation) :
    Activation.decode activation.encode = .ok activation := by
  simp only [Activation.decode, Activation.encode, openRevision_message, List.cons_append,
    List.nil_append, ByteReader.u8_cons, orTruncated, Except.mapError, bind, Except.bind, slotChecked_slotByte,
    readFinalTerminator_end]
  rfl

theorem Reveal.decode_encode (reveal : Reveal) : Reveal.decode reveal.encode = .ok reveal := by
  have hread := fun full => ByteReader.arr_append 16 full [STRUCT_END] "xor key" reveal.xorKey
  simp only [Reveal.decode, Reveal.encode, openRevision_message, List.cons_append, ByteReader.u8_cons,
    orTruncated, Except.mapError, bind, Except.bind, slotChecked_slotByte, hread,
    readFinalTerminator_end]
  rfl

end Ratum
