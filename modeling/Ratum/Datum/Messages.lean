import Ratum.Base.FailsIn
import Ratum.Core.Bytes

/-!
# The pieces every DATUM message is built from

`core/src/datum/messages.rs`: the subcommand a message opens with, the terminator it ends with, and what
a decoder refuses one for.
-/

namespace Ratum

def STRUCT_END : UInt8 := 0xfe

/-- What refuses a message. -/
inductive MessageError
  | truncated (at_ : Truncated)
  | badVersion (version : UInt8)
  | badFlags (flags : UInt8)
  | badStatus (status : UInt8)
  | badSlot (slot : UInt8)
  | wrongMessage (want got : UInt8)
  | badTerminator
  | malformed (what : String)
  | tooLong (field : String) (len : Nat)
  | outOfRange (field : String) (len : Nat)
  | splitExceedsValue (total value : Nat)
  | badExtranonceSize (size : UInt8)
  | badUsername
  | badMerkleCount (count : UInt8)
  | unknownSection (marker : UInt8)
  | badBlake2bSection
  | missingBlake2bSection
  deriving DecidableEq

/-- The `?` that turns a short read into a message error. -/
def orTruncated {α : Type} (read : Except Truncated α) : Except MessageError α :=
  read.mapError .truncated

theorem orTruncated_ok {α : Type} (a : α) : orTruncated (.ok a) = .ok a := rfl

theorem of_orTruncated {α : Type} {x : Except Truncated α} {a : α} (h : orTruncated x = .ok a) :
    x = .ok a := by
  cases x with
  | error e => cases h
  | ok b => exact congrArg Except.ok (Except.ok.inj h)

def openMessage (data : Bytes) (subcmd : UInt8) : Except MessageError ByteReader := do
  let (got, c) ← orTruncated ((ByteReader.new data).u8 "subcommand")
  if got ≠ subcmd then .error (.wrongMessage subcmd got) else pure c

/-- Reads the terminator that ends a message; the bytes after it are not read. -/
def readTerminator (c : ByteReader) : Except MessageError ByteReader := do
  let (last, c) ← orTruncated (c.u8 "terminator")
  if last ≠ STRUCT_END then .error .badTerminator else pure c

/-- Reads the terminator and refuses a message with bytes after it. -/
def readFinalTerminator (c : ByteReader) : Except MessageError Unit := do
  let c ← readTerminator c
  if !c.atEnd then .error (.malformed "bytes after the terminator") else pure ()

theorem openMessage_cons (subcmd : UInt8) (rest : Bytes) :
    openMessage (subcmd :: rest) subcmd = .ok ⟨subcmd :: rest, rest⟩ := by
  simp [openMessage, ByteReader.new, orTruncated, Except.mapError, bind, Except.bind, pure,
    Except.pure]

theorem openMessage_ok {data : Bytes} {subcmd : UInt8} {c : ByteReader} (h : openMessage data subcmd = .ok c) :
    data = subcmd :: c.rest := by
  obtain ⟨⟨got, c'⟩, hgot, h⟩ := Gives.exists_of_bind h
  obtain ⟨hsame, h⟩ := FailsIn.ok_of_guard h
  obtain rfl := Except.ok.inj h
  have hread := ByteReader.rest_of_u8 (of_orTruncated hgot)
  rwa [not_not.mp hsame] at hread

theorem readFinalTerminator_end (full : Bytes) :
    readFinalTerminator ⟨full, [STRUCT_END]⟩ = .ok () := by
  simp [readFinalTerminator, readTerminator, orTruncated, Except.mapError, bind, Except.bind, pure,
    Except.pure, ByteReader.atEnd]

end Ratum
