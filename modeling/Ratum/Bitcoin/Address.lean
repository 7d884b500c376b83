import Ratum.Core.Bytes

/-!
# Addresses and the scripts they pay

`core/src/bitcoin/address.rs`. The decoders of the segwit and the base58 text are parameters.
-/

namespace Ratum

/-- What a chain's addresses carry. -/
structure Prefixes where
  hrp : String
  pubkeyHash : UInt8
  scriptHash : UInt8
  deriving DecidableEq

namespace Prefixes

def MAIN : Prefixes := ⟨"bc", 0, 5⟩

def TEST : Prefixes := ⟨"tb", 111, 196⟩

def REGTEST : Prefixes := ⟨"bcrt", 111, 196⟩

def EVERY_CHAIN : List Prefixes := [MAIN, TEST, REGTEST]

end Prefixes

/-- The decoders the node software takes from other packages. -/
structure AddressDecoding where
  /-- The human-readable part in lowercase, the witness version and the program. -/
  segwit : String → Option (String × UInt8 × Bytes)
  /-- The payload of a base58 text whose checksum is right. -/
  base58Check : String → Option Bytes

def noAddresses : AddressDecoding := ⟨fun _ => none, fun _ => none⟩

def HASH160_SIZE : Nat := 20

def BASE58_PAYLOAD_SIZE : Nat := 1 + HASH160_SIZE

def WITNESS_V1_PROGRAM_SIZE : Nat := 32

def WITNESS_V0_PROGRAM_SIZES : List Nat := [HASH160_SIZE, WITNESS_V1_PROGRAM_SIZE]

/-- The byte of the separator after the human-readable part, `1`. -/
def HRP_SEPARATOR : UInt8 := 0x31

/-- The prefixes of the chain whose segwit human-readable part and separator the text begins with, in
either case. -/
def segwitPrefixes (addr : String) : Option Prefixes :=
  Prefixes.EVERY_CHAIN.find? fun p =>
    let hrp := stringBytes p.hrp
    ((stringBytes addr).take hrp.length).map asciiLower = hrp.map asciiLower ∧
      (stringBytes addr)[hrp.length]? = some HRP_SEPARATOR

def witnessVersionOpcode (version : UInt8) : UInt8 := if version = 0 then 0x00 else 0x50 + version

/-- Whether a chain given, or any, carries the prefixes. -/
def chainAccepts (chain : Option Prefixes) (p : Prefixes) : Bool :=
  match chain with
  | none => true
  | some c => c = p

def toOutputScript (decoding : AddressDecoding) (addr : String) (chain : Option Prefixes) :
    Option Bytes :=
  let length := (stringBytes addr).length
  if length < 16 ∨ 128 ≤ length then none
  else
    match segwitPrefixes addr with
    | some prefixes =>
        if !chainAccepts chain prefixes then none
        else
          match decoding.segwit addr with
          | none => none
          | some (hrp, version, program) =>
              if hrp ≠ prefixes.hrp then none
              else if (version = 0 ∧ program.length ∈ WITNESS_V0_PROGRAM_SIZES) ∨
                  (version = 1 ∧ program.length = WITNESS_V1_PROGRAM_SIZE) then
                some (witnessVersionOpcode version :: UInt8.ofNat program.length :: program)
              else none
    | none =>
        match decoding.base58Check addr with
        | some (version :: hash) =>
            let carried (byte : Prefixes → UInt8) : Bool :=
              Prefixes.EVERY_CHAIN.any fun p => chainAccepts chain p && byte p = version
            if hash.length + 1 ≠ BASE58_PAYLOAD_SIZE then none
            else if carried Prefixes.pubkeyHash then
              some ([0x76, 0xa9, UInt8.ofNat HASH160_SIZE] ++ hash ++ [0x88, 0xac])
            else if carried Prefixes.scriptHash then
              some ([0xa9, UInt8.ofNat HASH160_SIZE] ++ hash ++ [0x87])
            else none
        | _ => none

/-- An address that pays a script is under 128 bytes. -/
theorem length_lt_of_toOutputScript {decoding : AddressDecoding} {addr : String} {chain : Option Prefixes}
    {script : Bytes} (hscript : toOutputScript decoding addr chain = some script) :
    (stringBytes addr).length < 128 := by
  by_contra hlong
  rw [toOutputScript] at hscript
  dsimp only at hscript
  rw [if_pos (.inr (Nat.le_of_not_lt hlong))] at hscript
  cases hscript

def isValidAddress (decoding : AddressDecoding) (addr : String) (chain : Option Prefixes) : Bool :=
  (toOutputScript decoding addr chain).isSome

def isAsciiUpper (b : UInt8) : Bool := 0x41 ≤ b && b ≤ 0x5a

def isAsciiLower (b : UInt8) : Bool := 0x61 ≤ b && b ≤ 0x7a

/-- The form of an address the pool credits a miner under. -/
def canonicalAddress (addr : String) : String :=
  if (segwitPrefixes addr).isSome ∧ (stringBytes addr).any isAsciiUpper ∧
      !(stringBytes addr).any isAsciiLower then
    addr.map Char.toLower
  else addr

/-! ### The text of an address -/

def BECH32_CHARSET : List Char := "qpzry9x8gf2tvdw0s3jn54khce6mua7l".toList

def BASE58_ALPHABET : List Char := "123456789ABCDEFGHJKLMNPQRSTUVWXYZabcdefghijkmnopqrstuvwxyz".toList

/-- The decoders read only text of their alphabets: the human-readable part, the separator and data
characters, in either case, or base58 characters. -/
structure AddressDecoding.ReadsAlphabets (decoding : AddressDecoding) : Prop where
  segwit : ∀ {addr hrp version program}, decoding.segwit addr = some (hrp, version, program) →
    ∃ data, addr.toList.map Char.toLower = hrp.toList ++ '1' :: data ∧ ∀ c ∈ data, c ∈ BECH32_CHARSET
  base58Check : ∀ {addr payload}, decoding.base58Check addr = some payload →
    ∀ c ∈ addr.toList, c ∈ BASE58_ALPHABET

theorem isAlphanum_of_toLower {c : Char} (hc : c.toLower.isAlphanum = true) : c.isAlphanum = true := by
  by_cases hupper : c.isUpper = true
  · change ((c.isUpper || c.isLower) || c.isDigit) = true
    rw [hupper]
    rfl
  · have hsame : c.toLower = c := dif_neg fun hbounds => hupper (decide_eq_true hbounds)
    rwa [hsame] at hc

/-- An address that pays a script is short and made of letters and digits. -/
theorem alphanumeric_of_toOutputScript {decoding : AddressDecoding} (hreads : decoding.ReadsAlphabets)
    {addr : String} {chain : Option Prefixes} (hpays : (toOutputScript decoding addr chain).isSome) :
    (∀ c ∈ addr.toList, c.isAlphanum = true) ∧
      0 < (stringBytes addr).length ∧ (stringBytes addr).length < 128 := by
  obtain ⟨script, hscript⟩ := Option.isSome_iff_exists.mp hpays
  rw [toOutputScript] at hscript
  dsimp only at hscript
  split at hscript
  · cases hscript
  · rename_i hlength
    refine ⟨?_, by omega, by omega⟩
    split at hscript
    · rename_i prefixes hprefixes
      have hhrps : ∀ p ∈ Prefixes.EVERY_CHAIN, p.hrp.toList.all Char.isAlphanum = true := by decide
      have hhrp := List.all_eq_true.mp (hhrps prefixes (List.mem_of_find?_eq_some hprefixes))
      split at hscript
      · cases hscript
      · split at hscript
        · cases hscript
        · rename_i hrp version program hdecode
          split at hscript
          · cases hscript
          · rename_i heq
            obtain ⟨data, htext, hdata⟩ := hreads.segwit hdecode
            intro c hc
            apply isAlphanum_of_toLower
            have hmem : c.toLower ∈ hrp.toList ++ '1' :: data := htext ▸ List.mem_map_of_mem hc
            rw [List.mem_append, List.mem_cons] at hmem
            obtain hmem | heq' | hmem := hmem
            · rw [not_not.mp heq] at hmem
              exact hhrp _ hmem
            · rw [heq']
              rfl
            · have hcharset : BECH32_CHARSET.all Char.isAlphanum = true := by decide
              exact List.all_eq_true.mp hcharset _ (hdata _ hmem)
    · split at hscript
      · rename_i hdecode
        intro c hc
        have halphabet : BASE58_ALPHABET.all Char.isAlphanum = true := by decide
        exact List.all_eq_true.mp halphabet c (hreads.base58Check hdecode c hc)
      · cases hscript

end Ratum
