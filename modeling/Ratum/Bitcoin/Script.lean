import Ratum.Core.Bytes

/-!
# The pushes of a script

`core/src/bitcoin/script.rs`: what a scriptSig pushes, and where.
-/

namespace Ratum

structure ScriptPush where
  dataAt : Nat
  data : Bytes
  deriving DecidableEq, Repr

/-- How many bytes of length follow an opcode; none for one that pushes no bytes after it. -/
def lengthBytes (opcode : UInt8) : Option Nat :=
  if 0x01 ≤ opcode && opcode ≤ 0x4b then some 0
  else if opcode = 0x4c then some 1
  else if opcode = 0x4d then some 2
  else if opcode = 0x4e then some 4
  else none

/-- The pushes from an offset on; a script that ends within a push has none after it. -/
def pushesFrom : Nat → Nat → Bytes → List ScriptPush
  | 0, _, _ => []
  | _, _, [] => []
  | fuel + 1, at_, opcode :: rest =>
      match lengthBytes opcode with
      | none => pushesFrom fuel (at_ + 1) rest
      | some n =>
          if rest.length < n then []
          else
            let len := if n = 0 then opcode.toNat else leNat (rest.take n)
            let after := rest.drop n
            if after.length < len then []
            else
              ⟨at_ + 1 + n, after.take len⟩ ::
                pushesFrom fuel (at_ + 1 + n + len) (after.drop len)

def scriptPushes (script : Bytes) : List ScriptPush := pushesFrom script.length 0 script

/-- The opcodes of a script, the pushes' among them. -/
def opcodesFrom : Nat → Bytes → List UInt8
  | 0, _ => []
  | _, [] => []
  | fuel + 1, opcode :: rest =>
      match lengthBytes opcode with
      | none => opcode :: opcodesFrom fuel rest
      | some n =>
          if rest.length < n then []
          else
            let len := if n = 0 then opcode.toNat else leNat (rest.take n)
            let after := rest.drop n
            if after.length < len then [] else opcode :: opcodesFrom fuel (after.drop len)

def scriptOpcodes (script : Bytes) : List UInt8 := opcodesFrom script.length script

def OP_RETURN : UInt8 := 0x6a

def MAX_OUTPUT_SCRIPT_SIZE : Nat := 34

def MAX_OUTPUT_DATA_SIZE : Nat := 83

def outputScriptSizeIsValid (script : Bytes) : Bool :=
  match script with
  | [] => true
  | first :: _ =>
      script.length ≤ if first = OP_RETURN then MAX_OUTPUT_DATA_SIZE else MAX_OUTPUT_SCRIPT_SIZE

/-- The little-endian bytes of a number, none of them a leading zero. -/
def minimalBytes : Nat → Nat → Bytes
  | 0, _ => []
  | fuel + 1, v => if v = 0 then [] else UInt8.ofNat v :: minimalBytes fuel (v / 256)

/-- The BIP34 push of a height. -/
def heightPush (height : UInt32) : Bytes :=
  if height = 0 then [0x00]
  else if height ≤ 16 then [0x50 + height.toUInt8]
  else
    let bytes := minimalBytes 4 height.toNat
    let bytes := if bytes.getLast?.any (· &&& 0x80 ≠ 0) then bytes ++ [0] else bytes
    UInt8.ofNat bytes.length :: bytes

def MAX_DIRECT_PUSH : Nat := 75

def encodePush (data : Bytes) : Bytes :=
  (if MAX_DIRECT_PUSH < data.length then [0x4c] else []) ++ UInt8.ofNat data.length :: data

example : scriptPushes [0x02, 0xaa, 0xbb, 0x51, 0x4c, 0x01, 0xcc, 0x05] =
    [⟨1, [0xaa, 0xbb]⟩, ⟨6, [0xcc]⟩] := by decide

end Ratum
