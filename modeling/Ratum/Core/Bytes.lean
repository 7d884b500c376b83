import Mathlib.Data.List.Basic
import Mathlib.Data.Nat.Basic
import Mathlib.Tactic.Ring

/-!
# Bytes, the cursor that reads them, and the strings they hold

The wire and disk formats are lists of bytes. `ByteReader` is the cursor of `core/src/reader.rs`, and
`fromUtf8Lossy` is the standard library's lossy decoding, with the maximal invalid prefix of each
ill-formed sequence replaced by one `U+FFFD`.
-/

namespace Ratum

abbrev Bytes := List UInt8

def HASH_SIZE : Nat := 32

/-- A `[u8; 32]`. -/
abbrev Hash := Vector UInt8 HASH_SIZE

instance : LawfulBEq Hash := inferInstance

/-! ### Little-endian integers -/

/-- The `k` low bytes of `n`, least significant first. -/
def leBytes : Nat → Nat → Bytes
  | 0, _ => []
  | k + 1, n => UInt8.ofNat n :: leBytes k (n / 256)

def leNat : Bytes → Nat
  | [] => 0
  | b :: bs => b.toNat + 256 * leNat bs

@[simp] theorem length_leBytes (k n : Nat) : (leBytes k n).length = k := by
  induction k generalizing n with
  | zero => rfl
  | succ k ih => simp [leBytes, ih]

theorem leNat_lt (bytes : Bytes) : leNat bytes < 256 ^ bytes.length := by
  induction bytes with
  | nil => decide
  | cons b bs ih =>
      have hb := b.toNat_lt
      rw [leNat, List.length_cons, pow_succ']
      omega

theorem take_leBytes (k j n : Nat) : (leBytes (k + j) n).take k = leBytes k n := by
  induction k generalizing n with
  | zero => rfl
  | succ k ih => rw [Nat.succ_add, leBytes, leBytes, List.take_succ_cons, ih]

@[simp] theorem leNat_leBytes (k n : Nat) : leNat (leBytes k n) = n % 256 ^ k := by
  induction k generalizing n with
  | zero => simp [leBytes, leNat, Nat.mod_one]
  | succ k ih =>
      rw [leBytes, leNat, ih, pow_succ']
      rw [Nat.mod_mul]
      congr 1

theorem leBytes_leNat (bytes : Bytes) : leBytes bytes.length (leNat bytes) = bytes := by
  induction bytes with
  | nil => rfl
  | cons b bs ih =>
      have hb := b.toNat_lt
      have hdiv : (b.toNat + 256 * leNat bs) / 256 = leNat bs := by omega
      rw [leNat, List.length_cons, leBytes, hdiv, ih]
      congr 1
      apply UInt8.toNat_inj.mp
      rw [UInt8.toNat_ofNat']
      omega

/-! ### The cursor -/

/-- The field a message ran out of bytes in. -/
structure Truncated where
  what : String
  deriving DecidableEq, Repr

structure ByteReader where
  full : Bytes
  rest : Bytes
  deriving DecidableEq, Repr

namespace ByteReader

def new (data : Bytes) : ByteReader := ⟨data, data⟩

def pos (r : ByteReader) : Nat := r.full.length - r.rest.length

def atEnd (r : ByteReader) : Bool := r.rest.isEmpty

def peek2 (r : ByteReader) : Option (UInt8 × UInt8) :=
  match r.rest with
  | a :: b :: _ => some (a, b)
  | _ => none

def take (r : ByteReader) (n : Nat) (what : String) : Except Truncated (Bytes × ByteReader) :=
  if r.rest.length < n then .error ⟨what⟩
  else .ok (r.rest.take n, { r with rest := r.rest.drop n })

def advance (r : ByteReader) (n : Nat) (what : String) : Except Truncated ByteReader :=
  (r.take n what).map Prod.snd

def arr (N : Nat) (r : ByteReader) (what : String) :
    Except Truncated (Vector UInt8 N × ByteReader) :=
  if h : r.rest.length < N then .error ⟨what⟩
  else .ok (⟨(r.rest.take N).toArray, by simp; omega⟩, { r with rest := r.rest.drop N })

/-- The little-endian integer in the next `n` bytes. -/
def uint (n : Nat) (r : ByteReader) (what : String) : Except Truncated (Nat × ByteReader) :=
  (r.take n what).map fun (bytes, r) => (leNat bytes, r)

def u8 (r : ByteReader) (what : String) : Except Truncated (UInt8 × ByteReader) :=
  (r.uint 1 what).map fun (n, r) => (UInt8.ofNat n, r)

def u16 (r : ByteReader) (what : String) : Except Truncated (UInt16 × ByteReader) :=
  (r.uint 2 what).map fun (n, r) => (UInt16.ofNat n, r)

def u32 (r : ByteReader) (what : String) : Except Truncated (UInt32 × ByteReader) :=
  (r.uint 4 what).map fun (n, r) => (UInt32.ofNat n, r)

def u64 (r : ByteReader) (what : String) : Except Truncated (UInt64 × ByteReader) :=
  (r.uint 8 what).map fun (n, r) => (UInt64.ofNat n, r)

theorem take_append {field rest : Bytes} (full : Bytes) (what : String) {n : Nat}
    (hn : field.length = n) :
    (ByteReader.mk full (field ++ rest)).take n what = .ok (field, ⟨full, rest⟩) := by
  subst hn
  simp [take]

theorem uint_leBytes (full rest : Bytes) (what : String) {k n : Nat} (hn : n < 256 ^ k) :
    (ByteReader.mk full (leBytes k n ++ rest)).uint k what = .ok (n, ⟨full, rest⟩) := by
  rw [uint, take_append full what (length_leBytes k _)]
  simp only [Except.map, leNat_leBytes, Nat.mod_eq_of_lt hn]

/-- Reading back a `u64` written little-endian. -/
theorem u64_leBytes (full rest : Bytes) (what : String) (n : UInt64) :
    (ByteReader.mk full (leBytes 8 n.toNat ++ rest)).u64 what = .ok (n, ⟨full, rest⟩) := by
  rw [u64, uint_leBytes full rest what n.toNat_lt]
  simp only [Except.map, UInt64.ofNat_toNat]

theorem u32_leBytes (full rest : Bytes) (what : String) (n : UInt32) :
    (ByteReader.mk full (leBytes 4 n.toNat ++ rest)).u32 what = .ok (n, ⟨full, rest⟩) := by
  rw [u32, uint_leBytes full rest what n.toNat_lt]
  simp only [Except.map, UInt32.ofNat_toNat]

theorem u16_leBytes (full rest : Bytes) (what : String) (n : UInt16) :
    (ByteReader.mk full (leBytes 2 n.toNat ++ rest)).u16 what = .ok (n, ⟨full, rest⟩) := by
  rw [u16, uint_leBytes full rest what n.toNat_lt]
  simp only [Except.map, UInt16.ofNat_toNat]

@[simp] theorem u8_cons (full rest : Bytes) (what : String) (b : UInt8) :
    (ByteReader.mk full (b :: rest)).u8 what = .ok (b, ⟨full, rest⟩) := by
  simp [u8, uint, take, Except.map, leNat]

section Rest

variable {r r' : ByteReader} {what : String} {n : Nat}

/-- What is read comes off the front of the rest. -/
theorem take_ok {bytes : Bytes} (h : r.take n what = .ok (bytes, r')) :
    bytes = r.rest.take n ∧ bytes.length = n ∧ r'.rest = r.rest.drop n := by
  unfold take at h
  split at h
  · cases h
  · obtain ⟨rfl, rfl⟩ := Prod.mk.inj (Except.ok.inj h)
    exact ⟨rfl, by rw [List.length_take]; omega, rfl⟩

theorem map_ok {ε α β : Type} {f : α → β} {x : Except ε α} {b : β} (h : x.map f = .ok b) :
    ∃ a, x = .ok a ∧ f a = b := by
  cases x with
  | error e => cases h
  | ok a => exact ⟨a, rfl, Except.ok.inj h⟩

theorem uint_ok {value : Nat} (h : r.uint n what = .ok (value, r')) :
    value < 256 ^ n ∧ r'.rest = r.rest.drop n := by
  obtain ⟨⟨bytes, r''⟩, htake, heq⟩ := map_ok h
  obtain ⟨rfl, rfl⟩ := Prod.mk.inj heq
  obtain ⟨-, hlength, hrest⟩ := take_ok htake
  exact ⟨hlength ▸ leNat_lt bytes, hrest⟩

theorem u8_ok {value : UInt8} (h : r.u8 what = .ok (value, r')) : r'.rest = r.rest.drop 1 := by
  obtain ⟨⟨n, r''⟩, huint, heq⟩ := map_ok h
  obtain ⟨-, rfl⟩ := Prod.mk.inj heq
  exact (uint_ok huint).2

theorem u32_ok {value : UInt32} (h : r.u32 what = .ok (value, r')) : r'.rest = r.rest.drop 4 := by
  obtain ⟨⟨n, r''⟩, huint, heq⟩ := map_ok h
  obtain ⟨-, rfl⟩ := Prod.mk.inj heq
  exact (uint_ok huint).2

theorem arr_ok {bytes : Vector UInt8 n} (h : r.arr n what = .ok (bytes, r')) :
    r'.rest = r.rest.drop n := by
  unfold arr at h
  split at h
  · cases h
  · obtain ⟨-, rfl⟩ := Prod.mk.inj (Except.ok.inj h)
    rfl

theorem ok_of_toOption {ε α : Type} {x : Except ε α} {a : α} (h : x.toOption = some a) : x = .ok a := by
  cases x with
  | error e => cases h
  | ok b => exact congrArg _ (Option.some.inj h)

/-- What was read, and what is left, are the bytes there were. -/
theorem rest_of_take {bytes : Bytes} (h : r.take n what = .ok (bytes, r')) : r.rest = bytes ++ r'.rest := by
  obtain ⟨hbytes, -, hrest⟩ := take_ok h
  rw [hbytes, hrest, List.take_append_drop]

theorem rest_of_uint {value : Nat} (h : r.uint n what = .ok (value, r')) :
    r.rest = leBytes n value ++ r'.rest := by
  obtain ⟨⟨bytes, r''⟩, htake, heq⟩ := map_ok h
  obtain ⟨rfl, rfl⟩ := Prod.mk.inj heq
  rw [rest_of_take htake, ← (take_ok htake).2.1, leBytes_leNat]

theorem rest_of_u8 {value : UInt8} (h : r.u8 what = .ok (value, r')) : r.rest = value :: r'.rest := by
  obtain ⟨⟨n, r''⟩, huint, heq⟩ := map_ok h
  obtain ⟨rfl, rfl⟩ := Prod.mk.inj heq
  rw [rest_of_uint huint]
  rfl

theorem rest_of_u16 {value : UInt16} (h : r.u16 what = .ok (value, r')) :
    r.rest = leBytes 2 value.toNat ++ r'.rest := by
  obtain ⟨⟨n, r''⟩, huint, heq⟩ := map_ok h
  obtain ⟨rfl, rfl⟩ := Prod.mk.inj heq
  rw [rest_of_uint huint, UInt16.toNat_ofNat_of_lt' (uint_ok huint).1]

theorem rest_of_u32 {value : UInt32} (h : r.u32 what = .ok (value, r')) :
    r.rest = leBytes 4 value.toNat ++ r'.rest := by
  obtain ⟨⟨n, r''⟩, huint, heq⟩ := map_ok h
  obtain ⟨rfl, rfl⟩ := Prod.mk.inj heq
  rw [rest_of_uint huint, UInt32.toNat_ofNat_of_lt' (uint_ok huint).1]

theorem rest_of_arr {bytes : Vector UInt8 n} (h : r.arr n what = .ok (bytes, r')) :
    r.rest = bytes.toList ++ r'.rest := by
  unfold arr at h
  split at h
  · cases h
  · obtain ⟨rfl, rfl⟩ := Prod.mk.inj (Except.ok.inj h)
    simp [Vector.toList]

end Rest

theorem arr_append (N : Nat) (full rest : Bytes) (what : String) (v : Vector UInt8 N) :
    (ByteReader.mk full (v.toList ++ rest)).arr N what = .ok (v, ⟨full, rest⟩) := by
  have hlen : ¬ (v.toList ++ rest).length < N := by simp
  rw [arr, dif_neg hlen]
  simp [Vector.toList]

end ByteReader

/-! ### Strings -/

def asciiLower (b : UInt8) : UInt8 := if 0x41 ≤ b && b ≤ 0x5a then b + 0x20 else b

/-- The UTF-8 bytes of a string. -/
def stringBytes (s : String) : Bytes := s.toByteArray.data.toList

/-- Whether `b` continues a UTF-8 sequence. -/
def isContinuation (b : UInt8) : Bool := 0x80 ≤ b && b ≤ 0xbf

/-- Whether `b1` may follow the lead byte `b0` of a sequence of three or four bytes. -/
def secondByteFollows (b0 b1 : UInt8) : Bool :=
  if b0 == 0xe0 then 0xa0 ≤ b1 && b1 ≤ 0xbf
  else if b0 == 0xed then 0x80 ≤ b1 && b1 ≤ 0x9f
  else if b0 == 0xf0 then 0x90 ≤ b1 && b1 ≤ 0xbf
  else if b0 == 0xf4 then 0x80 ≤ b1 && b1 ≤ 0x8f
  else isContinuation b1

/-- Whether the bytes start with a whole UTF-8 sequence, and how many bytes it has; else how many
bytes the replacement character stands for. -/
def utf8Head : Bytes → Bool × Nat
  | [] => (false, 0)
  | b0 :: rest =>
      let at_ (i : Nat) := rest.getD i 0
      if b0 < 0x80 then (true, 1)
      else if 0xc2 ≤ b0 && b0 ≤ 0xdf then
        if isContinuation (at_ 0) then (true, 2) else (false, 1)
      else if 0xe0 ≤ b0 && b0 ≤ 0xef then
        if !secondByteFollows b0 (at_ 0) then (false, 1)
        else if !isContinuation (at_ 1) then (false, 2)
        else (true, 3)
      else if 0xf0 ≤ b0 && b0 ≤ 0xf4 then
        if !secondByteFollows b0 (at_ 0) then (false, 1)
        else if !isContinuation (at_ 1) then (false, 2)
        else if !isContinuation (at_ 2) then (false, 3)
        else (true, 4)
      else (false, 1)

/-- The code point of a whole UTF-8 sequence. -/
def codePoint : Bytes → Nat
  | [a] => a.toNat
  | [a, b] => a.toNat % 32 * 64 + b.toNat % 64
  | [a, b, c] => a.toNat % 16 * 4096 + b.toNat % 64 * 64 + c.toNat % 64
  | [a, b, c, d] => a.toNat % 8 * 262144 + b.toNat % 64 * 4096 + c.toNat % 64 * 64 + d.toNat % 64
  | _ => 0xfffd

def lossyChars : Nat → Bytes → List Char
  | 0, _ => []
  | _, [] => []
  | n + 1, bytes =>
      let (whole, len) := utf8Head bytes
      (if whole then Char.ofNat (codePoint (bytes.take len)) else Char.ofNat 0xfffd) ::
        lossyChars n (bytes.drop len)

/-- `String::from_utf8_lossy`. -/
def fromUtf8Lossy (bytes : Bytes) : String :=
  if h : (ByteArray.mk bytes.toArray).IsValidUTF8 then String.ofByteArray _ h
  else String.ofList (lossyChars bytes.length bytes)

@[simp] theorem fromUtf8Lossy_stringBytes (s : String) : fromUtf8Lossy (stringBytes s) = s := by
  have h : ByteArray.mk (stringBytes s).toArray = s.toByteArray := by
    simp [stringBytes]
  rw [fromUtf8Lossy, dif_pos (h ▸ s.isValidUTF8)]
  apply String.toByteArray_inj.mp
  exact h

example : fromUtf8Lossy [0x61, 0xe2, 0x82, 0x62] = "a\uFFFDb" := by decide

theorem stringBytes_ofList (text : List Char) :
    stringBytes (String.ofList text) = text.flatMap String.utf8EncodeChar := by
  rw [stringBytes, String.toByteArray_ofList, List.utf8Encode]
  simp

theorem stringBytes_eq (s : String) : stringBytes s = s.toList.flatMap String.utf8EncodeChar := by
  rw [← stringBytes_ofList, String.ofList_toList]

theorem stringBytes_append (s t : String) : stringBytes (s ++ t) = stringBytes s ++ stringBytes t := by
  rw [stringBytes_eq, String.toList_append, List.flatMap_append, ← stringBytes_eq, ← stringBytes_eq]

/-- The bytes of a character of the ASCII range. -/
theorem utf8EncodeChar_ascii {c : Char} (hc : c.toNat < 128) :
    String.utf8EncodeChar c = [UInt8.ofNat c.toNat] := by
  have hsize : c.utf8Size = 1 := by
    rw [Char.utf8Size_eq_one_iff, UInt32.le_iff_toNat_le]
    show c.toNat ≤ 127
    omega
  rw [String.utf8EncodeChar_eq_singleton hsize]
  rfl
end Ratum
