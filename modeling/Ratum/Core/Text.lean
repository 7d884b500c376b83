import Mathlib.Data.List.DropRight
import Ratum.Core.Bytes
import Ratum.Core.Word

/-!
# Text

The standard library's text functions the programs read their inputs with: UTF-8, cutting at a character,
trimming, and numbers in decimal and in hexadecimal.
-/

namespace Ratum

/-- `str::from_utf8`. -/
def fromUtf8 (bytes : Bytes) : Option String :=
  if h : (ByteArray.mk bytes.toArray).IsValidUTF8 then some (String.ofByteArray _ h) else none

/-- `str::split_once` at a character. -/
def splitOnce (sep : Char) (text : List Char) : Option (List Char × List Char) :=
  match text.dropWhile (· ≠ sep) with
  | [] => none
  | _ :: after => some (text.takeWhile (· ≠ sep), after)

/-- `char::is_whitespace`. -/
def isWhitespace (c : Char) : Bool :=
  (0x9 ≤ c.toNat && c.toNat ≤ 0xd) || (0x2000 ≤ c.toNat && c.toNat ≤ 0x200a) ||
    [0x20, 0x85, 0xa0, 0x1680, 0x2028, 0x2029, 0x202f, 0x205f, 0x3000].contains c.toNat

/-- `str::trim`. -/
def trim (text : List Char) : List Char := (text.dropWhile isWhitespace).rdropWhile isWhitespace

/-! ### Numbers -/

def isAsciiDigit (b : UInt8) : Bool := 0x30 ≤ b && b ≤ 0x39

/-- The number some decimal digits spell. -/
def decimal (digits : Bytes) : Nat := digits.foldl (fun n b => n * 10 + (b.toNat - 0x30)) 0

/-- `str::parse` as a `u64`. -/
def parseU64 (text : Bytes) : Option Nat :=
  let digits := if text.head? = some 0x2b then text.tail else text
  if digits.isEmpty || !digits.all isAsciiDigit then none
  else if decimal digits ≤ U64_MAX then some (decimal digits)
  else none

/-- Digits alone are the number they spell, when it is a `u64`. -/
theorem parseU64_digits {text : Bytes} (hne : text ≠ []) (hdigits : text.all isAsciiDigit = true) :
    parseU64 text = if decimal text ≤ U64_MAX then some (decimal text) else none := by
  have hsign : text.head? ≠ some 0x2b := by
    intro hhead
    obtain ⟨b, rest, rfl⟩ := List.exists_cons_of_ne_nil hne
    obtain rfl := Option.some.inj hhead
    exact absurd (List.all_eq_true.mp hdigits 0x2b List.mem_cons_self) (by decide)
  have hempty : text.isEmpty = false := List.isEmpty_eq_false_iff.mpr hne
  rw [parseU64, if_neg hsign]
  simp only [hempty, hdigits, Bool.not_true, Bool.or_false, Bool.false_eq_true, if_false]

def hexValue (b : UInt8) : Option Nat :=
  if 0x30 ≤ b && b ≤ 0x39 then some (b.toNat - 0x30)
  else if 0x61 ≤ b && b ≤ 0x66 then some (b.toNat - 0x57)
  else if 0x41 ≤ b && b ≤ 0x46 then some (b.toNat - 0x37)
  else none

/-- `hex::decode`. -/
def hexDecode : Bytes → Option Bytes
  | [] => some []
  | [_] => none
  | high :: low :: rest => do
      let high ← hexValue high
      let low ← hexValue low
      let bytes ← hexDecode rest
      pure (UInt8.ofNat (16 * high + low) :: bytes)

end Ratum
