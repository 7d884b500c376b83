import Ratum.Bitcoin.Pushes
import Ratum.Datum.BuiltCoinbase

/-!
# The scriptSig read back

`parse_script_sig` of what `script_sig` writes, in the coinbase `build` makes of it: the scanner walks past the
height and the tag to the unique id, whose push carries the prime id.
-/

namespace Ratum

/-- `core/src/datum/messages/config.rs`: the longest tag a pool may send. -/
def MAX_COINBASE_TAG_LEN : Nat := 81

def TAG_MARKER_BYTES : Nat := 2

/-- The most tag bytes carried without shortening the secondary tag. -/
def maxTagBytes (widePrime : Bool) : Nat := tagSpace widePrime - TAG_MARKER_BYTES

def PrintableAscii (s : String) : Prop := ∀ c ∈ s.toList, 0x20 ≤ c.toNat ∧ c.toNat ≤ 0x7e

/-- A push as long as one of the unique-id pushes, which ends in the prime id as that one carries it. -/
def EndsInPrimeId (primeId : UInt64) (push : Bytes) : Prop :=
  push.length = UNIQUE_ID_PUSH_DATA_SIZE_V1 ∧ primeId.toNat < 2 ^ 32 ∧ leBytes 4 primeId.toNat <:+ push ∨
    push.length = UNIQUE_ID_PUSH_DATA_SIZE_V3 ∧ leBytes 8 primeId.toNat <:+ push

/-! ### Printable text -/

theorem stringBytes_printable {text : List Char} (htext : ∀ c ∈ text, c.toNat < 128) :
    stringBytes (String.ofList text) = text.map fun c => UInt8.ofNat c.toNat := by
  rw [stringBytes_ofList]
  induction text with
  | nil => rfl
  | cons c text ih =>
      rw [List.flatMap_cons, utf8EncodeChar_ascii (htext c List.mem_cons_self),
        ih fun c' hc' => htext c' (List.mem_cons_of_mem c hc')]
      rfl

/-- Shortening printable text to some bytes keeps that many of its characters. -/
theorem PrintableAscii.take_stringBytes {s : String} (hprintable : PrintableAscii s) (n : Nat) :
    (stringBytes s).take n = stringBytes (String.ofList (s.toList.take n)) := by
  have hascii (c : Char) (hc : c ∈ s.toList) : c.toNat < 128 := by
    have hbounds := hprintable c hc
    omega
  have hwhole := stringBytes_printable hascii
  rw [String.ofList_toList] at hwhole
  rw [hwhole, ← List.map_take, stringBytes_printable fun c hc => hascii c (List.mem_of_mem_take hc)]

theorem PrintableAscii.not_isControl {s : String} (hprintable : PrintableAscii s) {c : Char} (hc : c ∈ s.toList) :
    isControl c = false := by
  obtain ⟨hlow, hhigh⟩ := hprintable c hc
  simp only [isControl, Bool.or_eq_false_iff, Bool.and_eq_false_iff, decide_eq_false_iff_not]
  omega

theorem PrintableAscii.ofList_take {s : String} (hprintable : PrintableAscii s) (n : Nat) :
    PrintableAscii (String.ofList (s.toList.take n)) := by
  intro c hc
  rw [String.toList_ofList] at hc
  exact hprintable c (List.mem_of_mem_take hc)

/-- Printable text is read back from its bytes and the terminator. -/
theorem decodeTag_printable {s : String} (hprintable : PrintableAscii s) :
    decodeTag (stringBytes s ++ [TAG_END]) = s := by
  have hfilter : s.toList.filter (!isControl ·) = s.toList := by
    rw [List.filter_eq_self]
    intro c hc
    rw [hprintable.not_isControl hc]
    rfl
  rw [decodeTag, List.getLast?_append, List.dropLast_concat]
  simp only [List.getLast?_singleton, Option.some_or, if_true, fromUtf8Lossy_stringBytes, hfilter,
    String.ofList_toList]

/-! ### The tag push -/

/-- The secondary tag as the tag push carries it: all of it, or what the primary tag leaves room for. -/
def ScriptSigInputs.fittingSecondary (t : ScriptSigInputs) : String :=
  String.ofList (t.tagSecondary.toList.take (maxTagBytes t.widePrime - (stringBytes t.tagPrimary).length))

theorem length_tagPushData (primary secondary : Bytes) :
    (tagPushData primary secondary).length =
      primary.length + (if secondary = [] then 0 else 1 + secondary.length) + 1 := by
  rw [tagPushData]
  cases secondary <;> simp [Nat.add_comm, Nat.add_left_comm]

theorem tagSpace_bounds (widePrime : Bool) : 82 ≤ tagSpace widePrime ∧ tagSpace widePrime ≤ 86 := by
  cases widePrime <;> decide

namespace ScriptSigInputs

variable {t : ScriptSigInputs} {script : Bytes} {at_ : Nat}

/-- The tag push carries the primary tag, and of the secondary one what it leaves room for. -/
theorem tagPushDataThatFits_eq (hsecondary : PrintableAscii t.tagSecondary) :
    t.tagPushDataThatFits =
      if (stringBytes t.tagPrimary).length < tagSpace t.widePrime then
        some (tagPushData (stringBytes t.tagPrimary) (stringBytes t.fittingSecondary))
      else none := by
  have hspace := tagSpace_bounds t.widePrime
  have hlength := length_tagPushData (stringBytes t.tagPrimary)
  have hfitting : stringBytes t.fittingSecondary =
      (stringBytes t.tagSecondary).take (maxTagBytes t.widePrime - (stringBytes t.tagPrimary).length) :=
    (hsecondary.take_stringBytes _).symm
  rw [tagPushDataThatFits, hfitting, maxTagBytes, TAG_MARKER_BYTES]
  generalize stringBytes t.tagPrimary = primary at *
  generalize stringBytes t.tagSecondary = secondary
  generalize tagSpace t.widePrime = space at *
  dsimp only
  by_cases hlong : space < (tagPushData primary secondary).length
  · rw [if_pos hlong]
    rw [hlength] at hlong
    by_cases hexcess : (tagPushData primary secondary).length - space < secondary.length
    · have hne : secondary ≠ [] := List.ne_nil_of_length_pos (by omega)
      rw [if_pos hexcess]
      rw [hlength, if_neg hne] at hexcess
      rw [if_neg hne] at hlong
      have hkept : secondary.length - ((tagPushData primary secondary).length - space) =
          space - 2 - primary.length := by
        rw [hlength, if_neg hne]
        omega
      rw [hkept]
      have htake : secondary.take (space - 2 - primary.length) ≠ [] := by
        rw [← List.length_pos_iff, List.length_take]
        omega
      rw [if_pos, if_pos (by omega)]
      rw [hlength, if_neg htake, List.length_take]
      omega
    · have hnone : secondary.take (space - 2 - primary.length) = [] := by
        rw [hlength] at hexcess
        by_cases hempty : secondary = []
        · rw [hempty, List.take_nil]
        · rw [if_neg hempty] at hexcess hlong
          rw [List.take_eq_nil_iff]
          omega
      rw [if_neg hexcess, hnone, hlength, if_pos rfl]
      exact if_congr (by omega) rfl rfl
  · rw [if_neg hlong, if_pos (not_lt.mp hlong)]
    rw [hlength] at hlong
    have hall : secondary.take (space - 2 - primary.length) = secondary := by
      split at hlong
      · rename_i hempty
        rw [hempty, List.take_nil]
      · exact List.take_of_length_le (by omega)
    rw [hall, if_pos (by omega)]

/-! ### The prime id -/

theorem primeIdBytes_eq (hactive : t.datumActive = true) (hprime : t.widePrime = false → t.primeId.toNat < 2 ^ 32) :
    t.primeIdBytes = leBytes (if t.widePrime then 8 else 4) t.primeId.toNat := by
  rw [primeIdBytes, hactive, Bool.not_true, Bool.and_false, if_neg Bool.false_ne_true]
  cases hwide : t.widePrime with
  | true => rfl
  | false =>
      have hlow : t.primeId.toUInt32.toNat = t.primeId.toNat := by
        rw [UInt64.toNat_toUInt32, Nat.mod_eq_of_lt (hprime hwide)]
      simp only [Bool.false_eq_true, if_false, hlow]

end ScriptSigInputs

/-- A push is taken for the unique id's if and only if it ends in the prime id. -/
theorem carriesPrimeId_iff {primeId : UInt64} {push : Bytes} :
    carriesPrimeId primeId push = true ↔ EndsInPrimeId primeId push := by
  have hsuffix {k : Nat} (hlength : push.length = UNIQUE_ID_PUSH_DATA_SIZE_NO_PRIME + k) :
      leBytes k primeId.toNat <:+ push ↔ push.drop UNIQUE_ID_PUSH_DATA_SIZE_NO_PRIME = leBytes k primeId.toNat := by
    rw [List.suffix_iff_eq_drop, length_leBytes, hlength, Nat.add_sub_cancel]
    exact eq_comm
  have hsizes : UNIQUE_ID_PUSH_DATA_SIZE_V3 ≠ UNIQUE_ID_PUSH_DATA_SIZE_V1 := by decide
  have htake : (leBytes 8 primeId.toNat).take 4 = leBytes 4 primeId.toNat := take_leBytes 4 4 _
  rw [carriesPrimeId, EndsInPrimeId, htake]
  by_cases hnarrow : push.length = UNIQUE_ID_PUSH_DATA_SIZE_V1
  · have hwide : push.length ≠ UNIQUE_ID_PUSH_DATA_SIZE_V3 := fun h => hsizes (h.symm.trans hnarrow)
    simp only [hnarrow, if_true, Bool.and_eq_true, decide_eq_true_iff, true_and, hsuffix hnarrow, hsizes.symm,
      false_and, or_false]
  · by_cases hwide : push.length = UNIQUE_ID_PUSH_DATA_SIZE_V3
    · simp only [hwide, hsizes, if_false, if_true, decide_eq_true_iff, false_and, false_or, true_and, hsuffix hwide]
    · simp only [hnarrow, hwide, if_false, false_and, or_false, Bool.false_eq_true]

/-! ### The pushes -/

/-- What the unique-id push carries. -/
def uniqueIdData (uniqueId : UInt16) (primeId : Bytes) : Bytes :=
  TARGET_BYTE_PLACEHOLDER :: (leBytes 2 uniqueId.toNat ++ primeId)

theorem length_uniqueIdData (uniqueId : UInt16) (primeId : Bytes) :
    (uniqueIdData uniqueId primeId).length = UNIQUE_ID_PUSH_DATA_SIZE_NO_PRIME + primeId.length := by
  rw [uniqueIdData, List.length_cons, List.length_append, length_leBytes, UNIQUE_ID_PUSH_DATA_SIZE_NO_PRIME]
  omega

theorem uniqueIdPush_eq {uniqueId : UInt16} {primeId : Bytes} (hlength : primeId.length ≤ 8) :
    uniqueIdPush uniqueId primeId = encodePush (uniqueIdData uniqueId primeId) := by
  have hdata := length_uniqueIdData uniqueId primeId
  rw [UNIQUE_ID_PUSH_DATA_SIZE_NO_PRIME] at hdata
  rw [encodePush_short (by rw [hdata, MAX_DIRECT_PUSH]; omega), hdata]
  rfl

theorem stripPrefix_append (start rest : Bytes) : stripPrefix start (start ++ rest) = some rest := by
  rw [stripPrefix, List.take_left, if_pos rfl, List.drop_left]

/-- What follows the primary tag: the terminator, or the secondary tag marked and terminated. -/
theorem tagPushData_eq (primary secondary : Bytes) :
    tagPushData primary secondary =
      primary ++ if secondary = [] then [TAG_END] else TAG_SEPARATOR :: (secondary ++ [TAG_END]) := by
  rw [tagPushData, List.append_assoc]
  cases secondary <;> rfl

/-- The secondary tag is read after the pool's own. -/
theorem secondaryTag_tagPushData {primary secondary : String} (hsecondary : PrintableAscii secondary) :
    secondaryTag primary (some (tagPushData (stringBytes primary) (stringBytes secondary))) = some secondary := by
  have hmarker : TAG_SEPARATOR ≠ TAG_END := by decide
  rw [secondaryTag, tagPushData_eq]
  by_cases hempty : stringBytes secondary = []
  · have hnone : secondary = "" := by
      rw [← fromUtf8Lossy_stringBytes secondary, hempty]
      rfl
    rw [if_pos hempty, hnone, Option.bind_some, Option.bind_some, stripPrefix_append]
    cases hprimary : primary.isEmpty with
    | true =>
        rw [String.isEmpty_iff.mp hprimary]
        rfl
    | false => rfl
  · rw [if_neg hempty, Option.bind_some, Option.bind_some, stripPrefix_append]
    cases hprimary : primary.isEmpty with
    | true =>
        have hstrip := stripPrefix_append [TAG_SEPARATOR] (stringBytes secondary ++ [TAG_END])
        rw [List.singleton_append] at hstrip
        rw [String.isEmpty_iff.mp hprimary, if_pos rfl]
        show some ((stripPrefix [TAG_SEPARATOR] (TAG_SEPARATOR :: (stringBytes secondary ++ [TAG_END]))).elim ""
          decodeTag) = some secondary
        rw [hstrip, Option.elim_some, decodeTag_printable hsecondary]
    | false =>
        simp only [Bool.false_eq_true, if_false, hmarker, if_true, decodeTag_printable hsecondary]

/-- Whatever the secondary tag is, one is read after the pool's own. -/
theorem secondaryTag_isSome (primary : String) (secondary : Bytes) :
    (secondaryTag primary (some (tagPushData (stringBytes primary) secondary))).isSome = true := by
  rw [secondaryTag]
  split
  · rfl
  · rw [tagPushData_eq, Option.bind_some, stripPrefix_append]
    by_cases hempty : secondary = []
    · rw [if_pos hempty]
      rfl
    · rw [if_neg hempty]
      rfl

namespace ScriptSigInputs

variable {t : ScriptSigInputs} {script : Bytes} {at_ : Nat}

theorem of_scriptSig (hscript : t.scriptSig = some (script, at_)) :
    ∃ data, t.tagPushDataThatFits = some data ∧
      script = heightPush t.height ++ (encodePush data ++ uniqueIdPush t.uniqueId t.primeIdBytes) ∧
      at_ = (heightPush t.height).length + (encodePush data).length + 1 := by
  rw [scriptSig] at hscript
  cases hfits : t.tagPushDataThatFits with
  | none =>
      rw [hfits] at hscript
      cases hscript
  | some data =>
      rw [hfits] at hscript
      obtain ⟨rfl, rfl⟩ := Prod.mk.inj (Option.some.inj hscript)
      exact ⟨data, rfl, List.append_assoc _ _ _, by rw [List.length_append]⟩

/-- The scanner finds the tag and the unique id after the height, whatever follows. -/
theorem scriptPushes_scriptSig (hscript : t.scriptSig = some (script, at_)) {data : Bytes}
    (hdata : t.tagPushDataThatFits = some data) (hlength : t.primeIdBytes.length ≤ 8)
    (hpush : 0 < data.length ∧ data.length ≤ 255) (rest : Bytes) :
    ∃ before tagAt after, (∀ push ∈ before, push.data.length ≤ 5) ∧ tagAt < at_ ∧
      scriptPushes (script ++ rest) =
        before ++ ⟨tagAt, data⟩ :: ⟨at_, uniqueIdData t.uniqueId t.primeIdBytes⟩ :: after := by
  obtain ⟨data', hdata', rfl, rfl⟩ := of_scriptSig hscript
  obtain rfl := Option.some.inj (hdata.symm.trans hdata')
  have hid := length_uniqueIdData t.uniqueId t.primeIdBytes
  rw [UNIQUE_ID_PUSH_DATA_SIZE_NO_PRIME] at hid
  have hdataAt : pushDataAt (uniqueIdData t.uniqueId t.primeIdBytes) = 1 :=
    if_neg (by rw [hid, MAX_DIRECT_PUSH]; omega)
  obtain ⟨before, -, hshort, hheight⟩ := pushesAt_heightPush t.height
    (encodePush data ++ (uniqueIdPush t.uniqueId t.primeIdBytes ++ rest))
  rw [pushesAt_encodePush hpush.1 hpush.2, uniqueIdPush_eq hlength,
    pushesAt_encodePush (by omega) (by omega), hdataAt] at hheight
  rw [uniqueIdPush_eq hlength, List.append_assoc, List.append_assoc]
  refine ⟨before, _, _, hshort, ?_, hheight⟩
  rw [length_encodePush]
  omega

theorem length_primeIdBytes (hactive : t.datumActive = true)
    (hprime : t.widePrime = false → t.primeId.toNat < 2 ^ 32) :
    t.primeIdBytes.length = if t.widePrime then 8 else 4 := by
  rw [primeIdBytes_eq hactive hprime, length_leBytes]

/-- The unique id's push carries the prime id. -/
theorem endsInPrimeId_uniqueIdData (hactive : t.datumActive = true)
    (hprime : t.widePrime = false → t.primeId.toNat < 2 ^ 32) :
    EndsInPrimeId t.primeId (uniqueIdData t.uniqueId t.primeIdBytes) := by
  rw [EndsInPrimeId, length_uniqueIdData, length_primeIdBytes hactive hprime, primeIdBytes_eq hactive hprime]
  have hsuffix (k : Nat) : leBytes k t.primeId.toNat <:+ uniqueIdData t.uniqueId (leBytes k t.primeId.toNat) :=
    (List.suffix_append _ _).trans (List.suffix_cons _ _)
  cases hwide : t.widePrime with
  | true => exact .inr ⟨rfl, hsuffix 8⟩
  | false => exact .inl ⟨rfl, hprime hwide, hsuffix 4⟩

/-- The tag push begins with the primary tag, whatever it carries of the secondary one, and fits its space. -/
theorem exists_tagPushData {data : Bytes} (hdata : t.tagPushDataThatFits = some data) :
    (∃ secondary, data = tagPushData (stringBytes t.tagPrimary) secondary) ∧
      data.length ≤ tagSpace t.widePrime := by
  have hthen {pushed : Bytes}
      (hpushed : (if pushed.length ≤ tagSpace t.widePrime then some pushed else none) = some data) :
      data = pushed ∧ data.length ≤ tagSpace t.widePrime := by
    split at hpushed
    · rename_i hfits
      obtain rfl := Option.some.inj hpushed
      exact ⟨rfl, hfits⟩
    · cases hpushed
  obtain ⟨rfl, hfits⟩ := hthen hdata
  refine ⟨?_, hfits⟩
  split <;> exact ⟨_, rfl⟩

theorem length_tagPushDataThatFits {data : Bytes} (hdata : t.tagPushDataThatFits = some data) :
    0 < data.length ∧ data.length ≤ tagSpace t.widePrime := by
  obtain ⟨⟨secondary, rfl⟩, hfits⟩ := exists_tagPushData hdata
  refine ⟨?_, hfits⟩
  rw [length_tagPushData]
  omega

theorem eq_tagPushData (hsecondary : PrintableAscii t.tagSecondary) {data : Bytes}
    (hdata : t.tagPushDataThatFits = some data) :
    data = tagPushData (stringBytes t.tagPrimary) (stringBytes t.fittingSecondary) := by
  rw [tagPushDataThatFits_eq hsecondary] at hdata
  split at hdata
  · exact (Option.some.inj hdata).symm
  · cases hdata

/-- The pushes before the tag's are too short to carry a prime id. -/
theorem findIdx_short {primeId : UInt64} {before : List ScriptPush}
    (hshort : ∀ push ∈ before, push.data.length ≤ 5) :
    before.findIdx? (fun push => carriesPrimeId primeId push.data) = none := by
  rw [List.findIdx?_eq_none_iff]
  intro push hpush
  have hlength := hshort push hpush
  rw [Bool.eq_false_iff, ne_eq, carriesPrimeId_iff]
  rintro (⟨hseven, -⟩ | ⟨heleven, -⟩)
  · rw [hseven] at hlength
    exact absurd hlength (by decide)
  · rw [heleven] at hlength
    exact absurd hlength (by decide)

section Read

variable {data rest : Bytes} {tx : CoinbaseTx} (hactive : t.datumActive = true)
  (hprime : t.widePrime = false → t.primeId.toNat < 2 ^ 32) (hscript : t.scriptSig = some (script, at_))
  (hdata : t.tagPushDataThatFits = some data) (htx : tx.scriptSig = script ++ rest)

include hactive hprime hscript hdata htx

/-- The tag's push and the unique id's, which comes after it. -/
theorem scriptPushes_tx : ∃ before tagAt after, (∀ push ∈ before, push.data.length ≤ 5) ∧ tagAt < at_ ∧
    scriptPushes tx.scriptSig =
      before ++ ⟨tagAt, data⟩ :: ⟨at_, uniqueIdData t.uniqueId t.primeIdBytes⟩ :: after := by
  have hspace := tagSpace_bounds t.widePrime
  have hbounds := length_tagPushDataThatFits hdata
  have hid : t.primeIdBytes.length ≤ 8 := by
    rw [length_primeIdBytes hactive hprime]
    split <;> decide
  rw [htx]
  exact scriptPushes_scriptSig hscript hdata hid ⟨hbounds.1, by omega⟩ rest

/-- The target byte is the unique id push's, and the tag is read from the push before it. -/
theorem parseScriptSig_eq (hends : ¬ EndsInPrimeId t.primeId data) :
    parseScriptSig tx t.primeId t.tagPrimary = (secondaryTag t.tagPrimary (some data)).map fun tagSecondary =>
      { targetByteIndex := tx.scriptSigOffset + at_, tagSecondary } := by
  obtain ⟨before, tagAt, after, hshort, -, hpushes⟩ := scriptPushes_tx hactive hprime hscript hdata htx
  have hskip : carriesPrimeId t.primeId data = false := by rwa [Bool.eq_false_iff, ne_eq, carriesPrimeId_iff]
  have hfind : carriesPrimeId t.primeId (uniqueIdData t.uniqueId t.primeIdBytes) = true :=
    carriesPrimeId_iff.mpr (endsInPrimeId_uniqueIdData hactive hprime)
  have hat : (scriptPushes tx.scriptSig).findIdx? (fun push => carriesPrimeId t.primeId push.data) =
      some (before.length + 1) := by
    rw [hpushes, List.findIdx?_append, findIdx_short hshort, List.findIdx?_cons, List.findIdx?_cons, hskip, hfind]
    simp [Nat.add_comm]
  have hpushAt : (scriptPushes tx.scriptSig)[before.length + 1]? =
      some ⟨at_, uniqueIdData t.uniqueId t.primeIdBytes⟩ := by
    rw [hpushes, List.getElem?_append_right (Nat.le_add_right _ _), Nat.add_sub_cancel_left]
    rfl
  have htagAt : (scriptPushes tx.scriptSig)[before.length + 1 - 1]? = some ⟨tagAt, data⟩ := by
    rw [hpushes, Nat.add_sub_cancel, List.getElem?_append_right le_rfl, Nat.sub_self]
    rfl
  rw [parseScriptSig]
  simp only [hat, hpushAt, htagAt, Nat.succ_ne_zero, if_false, Option.map_some, bind, Option.bind]
  cases secondaryTag t.tagPrimary (some data) <;> rfl

theorem parseScriptSig_isSome (hends : ¬ EndsInPrimeId t.primeId data) :
    ∃ tagSecondary, parseScriptSig tx t.primeId t.tagPrimary =
      some { targetByteIndex := tx.scriptSigOffset + at_, tagSecondary } := by
  obtain ⟨⟨secondary, htag⟩, -⟩ := exists_tagPushData hdata
  have hsome := secondaryTag_isSome t.tagPrimary secondary
  rw [← htag] at hsome
  obtain ⟨tagSecondary, hread⟩ := Option.isSome_iff_exists.mp hsome
  exact ⟨tagSecondary, by rw [parseScriptSig_eq hactive hprime hscript hdata htx hends, hread, Option.map_some]⟩

/-- A tag push that passes for the unique id's is taken for it. -/
theorem parseScriptSig_of_ends (hends : EndsInPrimeId t.primeId data) {parsed : ParsedScriptSig}
    (hparsed : parseScriptSig tx t.primeId t.tagPrimary = some parsed) :
    parsed.targetByteIndex < tx.scriptSigOffset + at_ := by
  obtain ⟨before, tagAt, after, hshort, hbefore, hpushes⟩ := scriptPushes_tx hactive hprime hscript hdata htx
  have hat : (scriptPushes tx.scriptSig).findIdx? (fun push => carriesPrimeId t.primeId push.data) =
      some before.length := by
    rw [hpushes, List.findIdx?_append, findIdx_short hshort, List.findIdx?_cons, carriesPrimeId_iff.mpr hends]
    simp
  have hpushAt : (scriptPushes tx.scriptSig)[before.length]? = some ⟨tagAt, data⟩ := by
    rw [hpushes, List.getElem?_append_right le_rfl, Nat.sub_self]
    rfl
  rw [parseScriptSig] at hparsed
  simp only [hat, hpushAt, bind, Option.bind] at hparsed
  split at hparsed
  · cases hparsed
  · obtain rfl := Option.some.inj hparsed
    exact Nat.add_lt_add_left hbefore _

/-- **The scriptSig is read back**, unless the tag's push passes for the unique id's. -/
theorem parseScriptSig_scriptSig (hsecondary : PrintableAscii t.tagSecondary)
    (hends : ¬ EndsInPrimeId t.primeId data) :
    parseScriptSig tx t.primeId t.tagPrimary =
      some { targetByteIndex := tx.scriptSigOffset + at_, tagSecondary := t.fittingSecondary } := by
  have hread := @secondaryTag_tagPushData t.tagPrimary _ (hsecondary.ofList_take
    (maxTagBytes t.widePrime - (stringBytes t.tagPrimary).length))
  rw [parseScriptSig_eq hactive hprime hscript hdata htx hends, eq_tagPushData hsecondary hdata, fittingSecondary,
    hread, Option.map_some]

end Read

/-! ### Its length -/

/-- Whenever there is a script, it is no longer than a coinbase may have. -/
theorem length_scriptSig_le (hheight : t.height.toNat < 2 ^ 23) (hactive : t.datumActive = true)
    (hprime : t.widePrime = false → t.primeId.toNat < 2 ^ 32) (hscript : t.scriptSig = some (script, at_)) :
    script.length ≤ MAX_COINBASE_SCRIPT_SIG_LEN := by
  have hid := length_primeIdBytes hactive hprime
  obtain ⟨data, hdata, rfl, -⟩ := of_scriptSig hscript
  obtain ⟨-, hfits⟩ := length_tagPushDataThatFits hdata
  have hheightPush := length_heightPush hheight
  have hdataAt : pushDataAt data ≤ 2 := by
    rw [pushDataAt]
    split <;> decide
  rw [uniqueIdPush, List.length_append, List.length_append, length_encodePush, List.length_cons, List.length_cons,
    List.length_append, length_leBytes, hid, MAX_COINBASE_SCRIPT_SIG_LEN]
  rw [tagSpace, MAX_COINBASE_TAG_SPACE, WIDE_PRIME_PUSH_EXTRA_BYTES] at hfits
  cases hwide : t.widePrime <;> rw [hwide] at hfits <;>
    simp only [if_true, if_false, Bool.false_eq_true] at hfits ⊢ <;> omega

/-- Whatever the height, the script's length takes one byte, and the target byte is in it. -/
theorem length_scriptSig_lt (hactive : t.datumActive = true)
    (hprime : t.widePrime = false → t.primeId.toNat < 2 ^ 32) (hscript : t.scriptSig = some (script, at_)) :
    script.length < 253 ∧ at_ < script.length := by
  have hid := length_primeIdBytes hactive hprime
  have hidLe : t.primeIdBytes.length ≤ 8 := by
    rw [hid]
    split <;> decide
  obtain ⟨data, hdata, rfl, rfl⟩ := of_scriptSig hscript
  obtain ⟨-, hfits⟩ := length_tagPushDataThatFits hdata
  have hspace := tagSpace_bounds t.widePrime
  have hdataAt : ∀ data, pushDataAt data ≤ 2 := by
    intro data
    rw [pushDataAt]
    split <;> decide
  have hheight : (heightPush t.height).length ≤ 7 := by
    obtain ⟨opcode, hpush, -⟩ | ⟨pushed, hpush, -, hle⟩ := heightPush_cases t.height
    · rw [hpush]
      exact Nat.succ_le_succ (Nat.zero_le _)
    · have hpushedAt := hdataAt pushed
      rw [hpush, length_encodePush]
      omega
  have htagAt := hdataAt data
  rw [uniqueIdPush, List.length_append, List.length_append, length_encodePush, List.length_cons, List.length_cons,
    List.length_append, length_leBytes]
  omega

theorem scriptSig_isSome (hsecondary : PrintableAscii t.tagSecondary)
    (hlength : (stringBytes t.tagPrimary).length ≤ MAX_COINBASE_TAG_LEN) : t.scriptSig.isSome = true := by
  have hspace := tagSpace_bounds t.widePrime
  rw [MAX_COINBASE_TAG_LEN] at hlength
  rw [scriptSig, tagPushDataThatFits_eq hsecondary, if_pos (by omega)]
  rfl

end ScriptSigInputs

/-! ### The coinbase -/

namespace CoinbaseSpec

variable {p : CoinbaseSpec} {extranonce : Bytes}

theorem targetByteIndex_build (p : CoinbaseSpec) :
    p.build.1.targetByteIndex = p.head.length + p.targetByteIndexInScript := by
  rw [build_eq]
  rfl

/-- The scriptSig begins where the head ends. -/
theorem length_head (hlength : extranonce.length = EXTRANONCE_SIZE) :
    p.head.length = 41 + (encodeCompactSize (p.fullScript extranonce).length).length := by
  have hscript : (p.fullScript extranonce).length =
      p.scriptSig.length + if p.inScript then EXTRANONCE_PUSH_SIZE else 0 := by
    rw [fullScript, List.length_append]
    split
    · rw [length_extranoncePush hlength]
    · rfl
  have hnull : nullOutpoint.length = 36 := by decide
  have hcount : (encodeCompactSize 1).length = 1 := rfl
  rw [head, hscript, List.length_append, List.length_append, List.length_append, length_leBytes, hnull, hcount]

end CoinbaseSpec

/-- **The pool reads back the scriptSig the gateway wrote**, in the coinbase built from it wherever the
extranonce goes: the index of the target byte, and the secondary tag as far as it fits. The one exception is a
tag push that passes for the unique id's. -/
theorem scriptSig_read_back (t : ScriptSigInputs) (hheight : t.height.toNat < 2 ^ 23)
    (hsecondary : PrintableAscii t.tagSecondary) (hactive : t.datumActive = true)
    (hprime : t.widePrime = false → t.primeId.toNat < 2 ^ 32) :
    ((stringBytes t.tagPrimary).length ≤ MAX_COINBASE_TAG_LEN → t.scriptSig.isSome = true) ∧
    ∀ script at_, t.scriptSig = some (script, at_) → script.length ≤ MAX_COINBASE_SCRIPT_SIG_LEN ∧
      ∃ tagPush, t.tagPushDataThatFits = some tagPush ∧
        tagPush = tagPushData (stringBytes t.tagPrimary) (stringBytes t.fittingSecondary) ∧
        (¬ EndsInPrimeId t.primeId tagPush →
        ∀ p : CoinbaseSpec, p.Typed → (∀ o ∈ p.outputs, o.value ≤ U64_MAX) → p.scriptSig = script →
          p.targetByteIndexInScript = at_ → ∀ extranonce : Bytes, extranonce.length = EXTRANONCE_SIZE →
          ∃ tx, parseCoinbase (p.build.1.section.assemble extranonce) = .ok tx ∧
            parseScriptSig tx t.primeId t.tagPrimary =
              some { targetByteIndex := p.build.1.targetByteIndex, tagSecondary := t.fittingSecondary }) := by
  refine ⟨ScriptSigInputs.scriptSig_isSome hsecondary, fun script at_ hscript => ⟨?_, ?_⟩⟩
  · exact ScriptSigInputs.length_scriptSig_le hheight hactive hprime hscript
  · obtain ⟨data, hdata, -, -⟩ := ScriptSigInputs.of_scriptSig hscript
    refine ⟨data, hdata, ScriptSigInputs.eq_tagPushData hsecondary hdata, ?_⟩
    rintro hends p htyped hvalues rfl rfl extranonce hlength
    obtain ⟨rest, hrest⟩ : ∃ rest, p.fullScript extranonce = p.scriptSig ++ rest := ⟨_, rfl⟩
    refine ⟨_, CoinbaseSpec.parseCoinbase_build htyped (.inr hvalues) hlength, ?_⟩
    rw [ScriptSigInputs.parseScriptSig_scriptSig hactive hprime hscript hdata hrest hsecondary hends,
      CoinbaseSpec.targetByteIndex_build, CoinbaseSpec.length_head hlength]

def minerTagInputs : ScriptSigInputs := ⟨1000000, "Pool", "miner", 5, 7, false, true⟩

def minerTagSpec (script : Bytes) (at_ : Nat) : CoinbaseSpec where
  coinbaseId := 0
  scriptSig := script
  targetByteIndexInScript := at_
  enPrefix := 0
  witnessCommitment := none
  poolPayoutScript := [0x51]
  coinbaseValue := 50
  outputs := []
  limits := ⟨0, 0, 0, 0⟩
  sigopBudget := 0

theorem scriptSig_read_back_miner_tag : ∃ script at_ tx, minerTagInputs.scriptSig = some (script, at_) ∧
    parseCoinbase ((minerTagSpec script at_).build.1.section.assemble (List.replicate 12 0)) = .ok tx ∧
    parseScriptSig tx 7 "Pool" =
      some { targetByteIndex := (minerTagSpec script at_).build.1.targetByteIndex, tagSecondary := "miner" } := by
  have hprintable : PrintableAscii "miner" := by
    have hall : ("miner".toList.all fun c => 0x20 ≤ c.toNat && c.toNat ≤ 0x7e) = true := by decide
    intro c hc
    simpa using List.all_eq_true.mp hall c hc
  obtain ⟨hsome, hread⟩ := scriptSig_read_back minerTagInputs (by decide) hprintable rfl (fun _ => by decide)
  obtain ⟨⟨script, at_⟩, hscript⟩ := Option.isSome_iff_exists.mp (hsome (by decide))
  obtain ⟨hlength, tagPush, -, rfl, hbuilt⟩ := hread script at_ hscript
  have hends : ¬ EndsInPrimeId minerTagInputs.primeId
      (tagPushData (stringBytes minerTagInputs.tagPrimary) (stringBytes minerTagInputs.fittingSecondary)) := by
    rw [← carriesPrimeId_iff]
    decide +kernel
  have hshort : script.length < 2 ^ 63 := hlength.trans_lt (by decide)
  have htyped : (minerTagSpec script at_).Typed :=
    ⟨show 50 ≤ U64_MAX by decide, hshort, show 1 < 2 ^ 63 by decide, fun _ h => by cases h⟩
  obtain ⟨tx, htx, hparsed⟩ := hbuilt hends (minerTagSpec script at_) htyped
    (fun _ ho => absurd ho List.not_mem_nil) rfl rfl (List.replicate 12 0) (List.length_replicate ..)
  exact ⟨script, at_, tx, hscript, htx, hparsed⟩

end Ratum
