import Ratum.Bitcoin.Address
import Ratum.Core.Username
import Ratum.Ledger.Share

/-!
# One script, one identity

The identity a username is credited under (`core/src/username.rs`, `canonical` of `core/src/bitcoin/address.rs`)
and the script its address pays: two usernames share the one exactly when they share the other.
-/

namespace Ratum

/-! ### The text in lowercase -/

/-- A character outside ASCII is encoded in bytes outside it. -/
theorem le_of_mem_utf8EncodeChar {c : Char} (hc : 128 ≤ c.toNat) {b : UInt8} (hb : b ∈ String.utf8EncodeChar c) :
    0x80 ≤ b.toNat := by
  change 128 ≤ c.val.toNat at hc
  rw [String.utf8EncodeChar] at hb
  generalize c.val.toNat = v at hb hc
  split at hb
  · omega
  · split at hb
    · simp only [List.mem_cons, List.not_mem_nil, or_false] at hb
      rcases hb with rfl | rfl <;> simp only [UInt8.toNat_ofNat', Nat.reducePow] <;> omega
    · split at hb <;> simp only [List.mem_cons, List.not_mem_nil, or_false] at hb
      · rcases hb with rfl | rfl | rfl <;> simp only [UInt8.toNat_ofNat', Nat.reducePow] <;> omega
      · rcases hb with rfl | rfl | rfl | rfl <;> simp only [UInt8.toNat_ofNat', Nat.reducePow] <;> omega

theorem asciiLower_of_not_upper {b : UInt8} (hb : isAsciiUpper b = false) : asciiLower b = b := by
  rw [isAsciiUpper] at hb
  rw [asciiLower, hb, if_neg Bool.false_ne_true]

theorem isAsciiUpper_iff {b : UInt8} : isAsciiUpper b = true ↔ 0x41 ≤ b.toNat ∧ b.toNat ≤ 0x5a := by
  rw [isAsciiUpper, Bool.and_eq_true, decide_eq_true_iff, decide_eq_true_iff, UInt8.le_iff_toNat_le,
    UInt8.le_iff_toNat_le]
  rfl

theorem toNat_asciiLower_of_upper {b : UInt8} (hb : isAsciiUpper b = true) :
    (asciiLower b).toNat = b.toNat + 0x20 := by
  have hbounds := isAsciiUpper_iff.mp hb
  rw [isAsciiUpper] at hb
  rw [asciiLower, hb, if_pos rfl, UInt8.toNat_add]
  show (b.toNat + 0x20) % 256 = b.toNat + 0x20
  omega

theorem isAsciiUpper_asciiLower (b : UInt8) : isAsciiUpper (asciiLower b) = false := by
  cases hb : isAsciiUpper b with
  | false => rwa [asciiLower_of_not_upper hb]
  | true =>
      have hlower := toNat_asciiLower_of_upper hb
      have hbounds := isAsciiUpper_iff.mp hb
      rw [Bool.eq_false_iff, ne_eq, isAsciiUpper_iff]
      omega

theorem asciiLower_asciiLower (b : UInt8) : asciiLower (asciiLower b) = asciiLower b :=
  asciiLower_of_not_upper (isAsciiUpper_asciiLower b)

theorem asciiLower_eq_separator (b : UInt8) : asciiLower b = HRP_SEPARATOR ↔ b = HRP_SEPARATOR := by
  cases hb : isAsciiUpper b with
  | false => rw [asciiLower_of_not_upper hb]
  | true =>
      have hlower := toNat_asciiLower_of_upper hb
      have hbounds := isAsciiUpper_iff.mp hb
      have hseparator : HRP_SEPARATOR.toNat = 0x31 := rfl
      rw [← UInt8.toNat_inj, ← UInt8.toNat_inj]
      omega

theorem ascii_toLower : ∀ n : Fin 128, (Char.ofNat n.val).toLower.toNat < 128 ∧
    UInt8.ofNat (Char.ofNat n.val).toLower.toNat = asciiLower (UInt8.ofNat n.val) := by decide

/-- A character in lowercase is encoded as its bytes are in lowercase. -/
theorem utf8EncodeChar_toLower (c : Char) :
    String.utf8EncodeChar c.toLower = (String.utf8EncodeChar c).map asciiLower := by
  by_cases hascii : c.toNat < 128
  · obtain ⟨hlower, hbyte⟩ := ascii_toLower ⟨c.toNat, hascii⟩
    simp only [Char.ofNat_toNat] at hlower hbyte
    rw [utf8EncodeChar_ascii hascii, utf8EncodeChar_ascii hlower, hbyte]
    rfl
  · have hsame : c.toLower = c := by
      apply dif_neg
      rintro ⟨-, hle⟩
      have hle : c.toNat ≤ 90 := hle
      omega
    have hbytes : (String.utf8EncodeChar c).map asciiLower = (String.utf8EncodeChar c).map id := by
      refine List.map_congr_left fun b hb => asciiLower_of_not_upper ?_
      have hle := le_of_mem_utf8EncodeChar (not_lt.mp hascii) hb
      rw [Bool.eq_false_iff, ne_eq, isAsciiUpper_iff]
      omega
    rw [hsame, hbytes, List.map_id]

theorem stringBytes_lower (s : String) : stringBytes (s.map Char.toLower) = (stringBytes s).map asciiLower := by
  rw [stringBytes_eq, stringBytes_eq, String.toList_map, List.flatMap_map, List.map_flatMap]
  exact congrArg (List.flatMap · s.toList) (funext utf8EncodeChar_toLower)

theorem stringBytes_inj {s t : String} (h : stringBytes s = stringBytes t) : s = t := by
  rw [← fromUtf8Lossy_stringBytes s, h, fromUtf8Lossy_stringBytes]

def HasUpper (addr : String) : Prop := (stringBytes addr).any isAsciiUpper = true

def HasLower (addr : String) : Prop := (stringBytes addr).any isAsciiLower = true

/-- `str::to_ascii_lowercase`. -/
def lowercase (addr : String) : String := addr.map Char.toLower

theorem not_hasUpper_lowercase (addr : String) : ¬ HasUpper (lowercase addr) := by
  rw [HasUpper, lowercase, stringBytes_lower, List.any_map, Bool.not_eq_true, List.any_eq_false]
  intro b _
  rw [Function.comp_apply, isAsciiUpper_asciiLower]
  exact Bool.false_ne_true

theorem lowercase_eq_self {addr : String} (hupper : ¬ HasUpper addr) : lowercase addr = addr := by
  apply stringBytes_inj
  rw [HasUpper, Bool.not_eq_true, List.any_eq_false] at hupper
  rw [lowercase, stringBytes_lower]
  refine (List.map_congr_left fun b hb => asciiLower_of_not_upper ?_).trans (List.map_id _)
  exact Bool.eq_false_iff.mpr (hupper b hb)

theorem length_lowercase (addr : String) : (stringBytes (lowercase addr)).length = (stringBytes addr).length := by
  rw [lowercase, stringBytes_lower, List.length_map]

theorem segwitPrefixes_lowercase (addr : String) : segwitPrefixes (lowercase addr) = segwitPrefixes addr := by
  rw [segwitPrefixes, segwitPrefixes, lowercase, stringBytes_lower]
  refine congrArg (List.find? · Prefixes.EVERY_CHAIN) (funext fun p => ?_)
  have hhrp : (((stringBytes addr).map asciiLower).take (stringBytes p.hrp).length).map asciiLower =
      ((stringBytes addr).take (stringBytes p.hrp).length).map asciiLower := by
    rw [← List.map_take, List.map_map]
    exact List.map_congr_left fun b _ => asciiLower_asciiLower b
  have hseparator : ((stringBytes addr).map asciiLower)[(stringBytes p.hrp).length]? = some HRP_SEPARATOR ↔
      (stringBytes addr)[(stringBytes p.hrp).length]? = some HRP_SEPARATOR := by
    rw [List.getElem?_map]
    cases (stringBytes addr)[(stringBytes p.hrp).length]? with
    | none => simp
    | some b => simp only [Option.map_some, Option.some.injEq, asciiLower_eq_separator]
  simp only [hhrp, hseparator]

/-! ### The canonical form -/

theorem canonicalAddress_eq (addr : String) :
    canonicalAddress addr = lowercase addr ∧ (segwitPrefixes addr).isSome ∧ HasUpper addr ∧ ¬ HasLower addr ∨
      canonicalAddress addr = addr ∧ ¬ ((segwitPrefixes addr).isSome ∧ HasUpper addr ∧ ¬ HasLower addr) := by
  rw [canonicalAddress, HasUpper, HasLower]
  split
  · rename_i h
    rw [Bool.not_eq_true'] at h
    exact .inl ⟨rfl, h.1, h.2.1, by rw [h.2.2]; exact Bool.false_ne_true⟩
  · rename_i h
    rw [Bool.not_eq_true', ← Bool.not_eq_true] at h
    exact .inr ⟨rfl, h⟩

theorem canonicalAddress_of_not_hasUpper {addr : String} (hupper : ¬ HasUpper addr) : canonicalAddress addr = addr := by
  obtain ⟨-, -, hhas, -⟩ | ⟨heq, -⟩ := canonicalAddress_eq addr
  · exact absurd hhas hupper
  · exact heq

/-- **The canonical form is its own.** -/
theorem canonicalAddress_idempotent (addr : String) :
    canonicalAddress (canonicalAddress addr) = canonicalAddress addr := by
  obtain ⟨heq, -⟩ | ⟨heq, -⟩ := canonicalAddress_eq addr
  · rw [heq, canonicalAddress_of_not_hasUpper (not_hasUpper_lowercase addr)]
  · rw [heq, heq]

/-! ### The script -/

/-- What the decoders' packages document. A segwit text is the encoding of what it decodes to, all in one case:
one that mixes the cases is refused, and one in uppercase decodes as it does in lowercase. Base58 texts that
decode alike are alike. -/
structure AddressDecoding.Documented (decoding : AddressDecoding) (encode : String → UInt8 → Bytes → String) :
    Prop where
  segwit_encoding : ∀ {addr hrp version program}, decoding.segwit addr = some (hrp, version, program) →
    lowercase addr = encode hrp version program
  segwit_oneCase : ∀ {addr decoded}, decoding.segwit addr = some decoded → ¬ (HasUpper addr ∧ HasLower addr)
  segwit_uppercase : ∀ {addr}, HasUpper addr → ¬ HasLower addr → decoding.segwit addr = decoding.segwit (lowercase addr)
  base58Check_injective : ∀ {addr addr' payload}, decoding.base58Check addr = some payload →
    decoding.base58Check addr' = some payload → addr = addr'

/-- How an address accepted for a chain is decoded, and what it pays. -/
inductive DecodesTo (decoding : AddressDecoding) (chain : Prefixes) (addr : String) (script : Bytes) : Prop
  | segwit (version : UInt8) (program : Bytes) (hprefixes : (segwitPrefixes addr).isSome)
      (hdecode : decoding.segwit addr = some (chain.hrp, version, program))
      (hversion : version = 0 ∨ version = 1)
      (hscript : script = witnessVersionOpcode version :: UInt8.ofNat program.length :: program)
  | pubkeyHash (hash : Bytes) (hprefixes : ¬ (segwitPrefixes addr).isSome)
      (hdecode : decoding.base58Check addr = some (chain.pubkeyHash :: hash))
      (hscript : script = [0x76, 0xa9, UInt8.ofNat HASH160_SIZE] ++ hash ++ [0x88, 0xac])
  | scriptHash (hash : Bytes) (hprefixes : ¬ (segwitPrefixes addr).isSome)
      (hdecode : decoding.base58Check addr = some (chain.scriptHash :: hash))
      (hscript : script = [0xa9, UInt8.ofNat HASH160_SIZE] ++ hash ++ [0x87])

section

variable {decoding : AddressDecoding} {chain : Prefixes} {addr : String} {script : Bytes}

theorem chainAccepts_iff {p : Prefixes} : chainAccepts (some chain) p = true ↔ chain = p := decide_eq_true_iff

theorem decodesTo_of_toOutputScript (hscript : toOutputScript decoding addr (some chain) = some script) :
    DecodesTo decoding chain addr script := by
  have hcarried {byte : Prefixes → UInt8} {version : UInt8}
      (hany : (Prefixes.EVERY_CHAIN.any fun p => chainAccepts (some chain) p && byte p = version) = true) :
      version = byte chain := by
    obtain ⟨p, -, hp⟩ := List.any_eq_true.mp hany
    rw [Bool.and_eq_true, chainAccepts_iff, decide_eq_true_iff] at hp
    rw [hp.1, hp.2]
  rw [toOutputScript] at hscript
  dsimp only at hscript
  split at hscript
  · cases hscript
  · split at hscript
    · rename_i prefixes hprefixes
      split at hscript
      · cases hscript
      · rename_i haccepts
        rw [Bool.not_eq_true', Bool.not_eq_false, chainAccepts_iff] at haccepts
        subst haccepts
        split at hscript
        · cases hscript
        · rename_i hrp version program hdecode
          split at hscript
          · cases hscript
          · rename_i hhrp
            split at hscript
            · rename_i hversion
              obtain rfl := not_not.mp hhrp
              exact .segwit version program (by rw [hprefixes]; rfl) hdecode (hversion.imp And.left And.left)
                (Option.some.inj hscript).symm
            · cases hscript
    · rename_i hnone
      have hprefixes : ¬ (segwitPrefixes addr).isSome := by
        rw [hnone]
        exact Bool.false_ne_true
      split at hscript
      · rename_i version hash hdecode
        split at hscript
        · cases hscript
        · split at hscript
          · rename_i hany
            rw [hcarried hany] at hdecode
            exact .pubkeyHash hash hprefixes hdecode (Option.some.inj hscript).symm
          · split at hscript
            · rename_i hany
              rw [hcarried hany] at hdecode
              exact .scriptHash hash hprefixes hdecode (Option.some.inj hscript).symm
            · cases hscript
      · cases hscript

/-- **The canonical form pays the same script.** -/
theorem toOutputScript_canonicalAddress {encode : String → UInt8 → Bytes → String} (hdecoding : decoding.Documented encode)
    (addr : String) (chain : Option Prefixes) :
    toOutputScript decoding (canonicalAddress addr) chain = toOutputScript decoding addr chain := by
  obtain ⟨heq, hprefixes, hupper, hlower⟩ | ⟨heq, -⟩ := canonicalAddress_eq addr
  · obtain ⟨prefixes, hprefixes⟩ := Option.isSome_iff_exists.mp hprefixes
    rw [heq, toOutputScript, toOutputScript, length_lowercase, segwitPrefixes_lowercase, hprefixes,
      ← hdecoding.segwit_uppercase hupper hlower]
  · rw [heq]

/-- An address that decodes as segwit is credited under its lowercase form. -/
theorem canonicalAddress_of_segwit {encode : String → UInt8 → Bytes → String} (hdecoding : decoding.Documented encode)
    {decoded : String × UInt8 × Bytes} (hprefixes : (segwitPrefixes addr).isSome)
    (hdecode : decoding.segwit addr = some decoded) : canonicalAddress addr = lowercase addr := by
  obtain ⟨heq, -⟩ | ⟨heq, hnot⟩ := canonicalAddress_eq addr
  · exact heq
  · have hupper : ¬ HasUpper addr := fun hupper =>
      hnot ⟨hprefixes, hupper, fun hlower => hdecoding.segwit_oneCase hdecode ⟨hupper, hlower⟩⟩
    rw [heq, lowercase_eq_self hupper]

theorem canonicalAddress_of_not_segwit (hprefixes : ¬ (segwitPrefixes addr).isSome) : canonicalAddress addr = addr := by
  obtain ⟨-, hsome, -⟩ | ⟨heq, -⟩ := canonicalAddress_eq addr
  · exact absurd hsome hprefixes
  · exact heq

/-- The script tells how the address is decoded, and to what. -/
theorem DecodesTo.canonicalAddress_eq {encode : String → UInt8 → Bytes → String} (hdecoding : decoding.Documented encode)
    {addr' : String} (hpays : DecodesTo decoding chain addr script) (hpays' : DecodesTo decoding chain addr' script) :
    canonicalAddress addr = canonicalAddress addr' := by
  have hopcode {version : UInt8} (hversion : version = 0 ∨ version = 1) :
      witnessVersionOpcode version ≠ 0x76 ∧ witnessVersionOpcode version ≠ 0xa9 := by
    rcases hversion with rfl | rfl <;> decide
  cases hpays with
  | segwit version program hprefixes hdecode hversion hscript =>
      cases hpays' with
      | segwit version' program' hprefixes' hdecode' hversion' hscript' =>
          rw [hscript] at hscript'
          obtain ⟨hop, htail⟩ := List.cons.inj hscript'
          obtain ⟨-, rfl⟩ := List.cons.inj htail
          have hsame : version = version' := by
            rcases hversion with rfl | rfl <;> rcases hversion' with rfl | rfl <;> first | rfl | cases hop
          subst hsame
          rw [canonicalAddress_of_segwit hdecoding hprefixes hdecode,
            canonicalAddress_of_segwit hdecoding hprefixes' hdecode', hdecoding.segwit_encoding hdecode,
            hdecoding.segwit_encoding hdecode']
      | pubkeyHash hash _ _ hscript' =>
          rw [hscript] at hscript'
          exact absurd (List.cons.inj hscript').1 (hopcode hversion).1
      | scriptHash hash _ _ hscript' =>
          rw [hscript] at hscript'
          exact absurd (List.cons.inj hscript').1 (hopcode hversion).2
  | pubkeyHash hash hprefixes hdecode hscript =>
      cases hpays' with
      | segwit version' program' _ _ hversion' hscript' =>
          rw [hscript] at hscript'
          exact absurd (List.cons.inj hscript').1.symm (hopcode hversion').1
      | pubkeyHash hash' hprefixes' hdecode' hscript' =>
          rw [hscript] at hscript'
          obtain rfl := List.append_cancel_left (List.append_cancel_right hscript')
          rw [canonicalAddress_of_not_segwit hprefixes, canonicalAddress_of_not_segwit hprefixes',
            hdecoding.base58Check_injective hdecode hdecode']
      | scriptHash hash' _ _ hscript' =>
          rw [hscript] at hscript'
          cases (List.cons.inj hscript').1
  | scriptHash hash hprefixes hdecode hscript =>
      cases hpays' with
      | segwit version' program' _ _ hversion' hscript' =>
          rw [hscript] at hscript'
          exact absurd (List.cons.inj hscript').1.symm (hopcode hversion').2
      | pubkeyHash hash' _ _ hscript' =>
          rw [hscript] at hscript'
          cases (List.cons.inj hscript').1
      | scriptHash hash' hprefixes' hdecode' hscript' =>
          rw [hscript] at hscript'
          obtain rfl := List.append_cancel_left (List.append_cancel_right hscript')
          rw [canonicalAddress_of_not_segwit hprefixes, canonicalAddress_of_not_segwit hprefixes',
            hdecoding.base58Check_injective hdecode hdecode']

end

/-- **One script, one identity.** The canonical form of an address is its own and pays the same script, and of
usernames whose addresses are accepted for a chain, two are one identity exactly when they pay one script. -/
theorem one_script_one_identity {decoding : AddressDecoding} {encode : String → UInt8 → Bytes → String}
    (hdecoding : decoding.Documented encode) (chain : Prefixes) :
    (∀ addr, canonicalAddress (canonicalAddress addr) = canonicalAddress addr) ∧
    (∀ addr, toOutputScript decoding (canonicalAddress addr) (some chain) =
      toOutputScript decoding addr (some chain)) ∧
    ∀ username username' script script',
      toOutputScript decoding (addressOf username) (some chain) = some script →
      toOutputScript decoding (addressOf username') (some chain) = some script' →
      (identityOf canonicalAddress username = identityOf canonicalAddress username' ↔ script = script') := by
  refine ⟨canonicalAddress_idempotent, fun addr => toOutputScript_canonicalAddress hdecoding addr _, ?_⟩
  intro username username' script script' hscript hscript'
  show canonicalAddress (addressOf username) = canonicalAddress (addressOf username') ↔ _
  constructor
  · intro hidentity
    have hpaid := toOutputScript_canonicalAddress hdecoding (addressOf username) (some chain)
    rw [hidentity, toOutputScript_canonicalAddress hdecoding, hscript, hscript'] at hpaid
    exact (Option.some.inj hpaid).symm
  · rintro rfl
    exact (decodesTo_of_toOutputScript hscript).canonicalAddress_eq hdecoding (decodesTo_of_toOutputScript hscript')

/-! ### An address in both cases, and another -/

def lowerAddress : String := "bc1qw508d6qejxtdg4y5r3zarvary0c5xw7kv8f3t4"

def upperAddress : String := "BC1QW508D6QEJXTDG4Y5R3ZARVARY0C5XW7KV8F3T4"

def keyHashAddress : String := "1BvBMSEYstWetqTFn5Au4m4GFg7xJaNVN2"

/-- The decoders, as far as they read these. -/
def threeAddresses : AddressDecoding where
  segwit addr :=
    if (stringBytes addr).any isAsciiUpper && (stringBytes addr).any isAsciiLower then none
    else if lowercase addr = lowerAddress then
      some ("bc", 0, [0x75, 0x1e, 0x76, 0xe8, 0x19, 0x91, 0x96, 0xd4, 0x54, 0x94, 0x1c, 0x45, 0xd1, 0xb3,
        0xa3, 0x23, 0xf1, 0x43, 0x3b, 0xd6])
    else none
  base58Check addr :=
    if addr = keyHashAddress then
      some [0x00, 0x77, 0xbf, 0xf2, 0x0c, 0x60, 0xe5, 0x22, 0xdf, 0xaa, 0x33, 0x50, 0xc3, 0x9b, 0x03, 0x0a,
        0x5d, 0x00, 0x4e, 0x83, 0x9a]
    else none

theorem threeAddresses_documented : threeAddresses.Documented fun _ _ _ => lowerAddress := by
  have hsegwit {addr : String} {decoded : String × UInt8 × Bytes}
      (hdecode : threeAddresses.segwit addr = some decoded) :
      ¬ (HasUpper addr ∧ HasLower addr) ∧ lowercase addr = lowerAddress := by
    rw [threeAddresses] at hdecode
    dsimp only at hdecode
    split at hdecode
    · cases hdecode
    · rename_i hmixed
      rw [Bool.and_eq_true] at hmixed
      split at hdecode
      · exact ⟨hmixed, ‹_›⟩
      · cases hdecode
  have hbase58 {addr : String} {payload : Bytes} (hdecode : threeAddresses.base58Check addr = some payload) :
      addr = keyHashAddress := by
    rw [threeAddresses] at hdecode
    dsimp only at hdecode
    split at hdecode
    · assumption
    · cases hdecode
  refine ⟨fun hdecode => (hsegwit hdecode).2, fun hdecode => (hsegwit hdecode).1, fun {addr} _ hlower => ?_,
    fun hdecode hdecode' => (hbase58 hdecode).trans (hbase58 hdecode').symm⟩
  have hupper := not_hasUpper_lowercase addr
  have htwice := lowercase_eq_self hupper
  rw [HasUpper, Bool.not_eq_true] at hupper
  rw [HasLower, Bool.not_eq_true] at hlower
  rw [threeAddresses]
  simp only [hupper, hlower, htwice, Bool.and_false, Bool.false_and]

theorem one_script_one_identity_upper :
    identityOf canonicalAddress (upperAddress ++ ".rig1") = identityOf canonicalAddress (lowerAddress ++ ".rig2") ∧
      identityOf canonicalAddress lowerAddress ≠ identityOf canonicalAddress keyHashAddress := by
  obtain ⟨-, -, hsame⟩ := one_script_one_identity threeAddresses_documented .MAIN
  have hscript (username : String) (hpays : (toOutputScript threeAddresses (addressOf username) (some .MAIN)).isSome) :
      ∃ script, toOutputScript threeAddresses (addressOf username) (some .MAIN) = some script :=
    Option.isSome_iff_exists.mp hpays
  constructor
  · obtain ⟨script, hupper⟩ := hscript (upperAddress ++ ".rig1") (by decide +kernel)
    obtain ⟨script', hlower⟩ := hscript (lowerAddress ++ ".rig2") (by decide +kernel)
    refine (hsame _ _ _ _ hupper hlower).mpr ?_
    have hpaid : toOutputScript threeAddresses (addressOf (upperAddress ++ ".rig1")) (some .MAIN) =
        toOutputScript threeAddresses (addressOf (lowerAddress ++ ".rig2")) (some .MAIN) := by decide +kernel
    rw [hupper, hlower] at hpaid
    exact Option.some.inj hpaid
  · obtain ⟨script, hlower⟩ := hscript lowerAddress (by decide +kernel)
    obtain ⟨script', hkeyHash⟩ := hscript keyHashAddress (by decide +kernel)
    refine fun hidentity => absurd ((hsame _ _ _ _ hlower hkeyHash).mp hidentity) ?_
    rintro rfl
    have hpaid : toOutputScript threeAddresses (addressOf lowerAddress) (some .MAIN) ≠
        toOutputScript threeAddresses (addressOf keyHashAddress) (some .MAIN) := by decide +kernel
    exact hpaid (hlower.trans hkeyHash.symm)

end Ratum
