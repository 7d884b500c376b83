import Ratum.Ledger.Share
import Ratum.Verify.Username

/-!
# The usernames the pool credits

A username the gateway finds payable, credited with its modifier applied and cut for the wire, passes the
pool's checks exactly when the part of its worker name that is sent is printable.
-/

namespace Ratum

/-! ### Text cut at a number of bytes -/

def utf8Length (text : List Char) : Nat := (text.map Char.utf8Size).sum

theorem length_stringBytes (s : String) : (stringBytes s).length = utf8Length s.toList := by
  rw [stringBytes_eq, List.length_flatMap, utf8Length]
  congr 1
  apply List.map_congr_left
  intro c _
  exact String.length_utf8EncodeChar c

theorem cutBytes_append {start : List Char} {limit : Nat} (hfits : utf8Length start ≤ limit)
    (rest : List Char) :
    cutBytes limit (start ++ rest) = start ++ cutBytes (limit - utf8Length start) rest := by
  induction start generalizing limit with
  | nil => rfl
  | cons c start ih =>
      rw [utf8Length, List.map_cons, List.sum_cons, ← utf8Length] at hfits
      rw [List.cons_append, cutBytes, if_pos (by omega), ih (by omega), List.cons_append, utf8Length,
        utf8Length, List.map_cons, List.sum_cons, Nat.sub_sub]

theorem utf8Length_cutBytes (limit : Nat) (text : List Char) :
    utf8Length (cutBytes limit text) ≤ limit := by
  induction text generalizing limit with
  | nil => exact Nat.zero_le _
  | cons c text ih =>
      rw [cutBytes]
      split
      · rw [utf8Length, List.map_cons, List.sum_cons, ← utf8Length]
        have := ih (limit - c.utf8Size)
        omega
      · exact Nat.zero_le _

theorem head?_cutBytes {limit : Nat} {text : List Char} {c : Char}
    (hhead : (cutBytes limit text).head? = some c) : text.head? = some c := by
  cases text with
  | nil => cases hhead
  | cons d text =>
      rw [cutBytes] at hhead
      split at hhead
      · exact hhead
      · cases hhead

/-! ### Printable text -/

theorem printable_of_isAlphanum {c : Char} (hc : c.isAlphanum = true) :
    (String.utf8EncodeChar c).all isPrintable = true ∧ c ≠ '.' := by
  change ((decide ('A'.val ≤ c.val ∧ c.val ≤ 'Z'.val) || ('a'.val ≤ c.val && c.val ≤ 'z'.val)) ||
    ('0'.val ≤ c.val && c.val ≤ '9'.val)) = true at hc
  simp only [Bool.or_eq_true, Bool.and_eq_true, decide_eq_true_eq, UInt32.le_iff_toNat_le] at hc
  change ((65 ≤ c.toNat ∧ c.toNat ≤ 90) ∨ (97 ≤ c.toNat ∧ c.toNat ≤ 122)) ∨
    (48 ≤ c.toNat ∧ c.toNat ≤ 57) at hc
  refine ⟨?_, ?_⟩
  · rw [utf8EncodeChar_ascii (by omega), List.all_cons, List.all_nil, Bool.and_true, isPrintable,
      Bool.and_eq_true, decide_eq_true_eq, decide_eq_true_eq, UInt8.le_iff_toNat_le,
      UInt8.le_iff_toNat_le, UInt8.toNat_ofNat_of_lt' (show c.toNat < 256 by omega)]
    show 33 ≤ c.toNat ∧ c.toNat ≤ 126
    omega
  · rintro rfl
    revert hc
    decide

theorem all_printable_of_isAlphanum {s : String} (hs : ∀ c ∈ s.toList, c.isAlphanum = true) :
    (stringBytes s).all isPrintable = true := by
  rw [stringBytes_eq, List.all_flatMap, List.all_eq_true]
  exact fun c hc => (printable_of_isAlphanum (hs c hc)).1

/-! ### What is sent -/

/-- The part of a worker name sent after an address. -/
def sentWorker (address worker : String) : String :=
  String.ofList (cutBytes (MAX_USERNAME_LEN - (stringBytes address).length) worker.toList)

/-- An address that pays a script, in front of a worker name. -/
structure Pays (decoding : AddressDecoding) (chain : Option Prefixes) (address worker : String) :
    Prop where
  pays : (toOutputScript decoding address chain).isSome
  worker_dot : ∀ c, worker.toList.head? = some c → c = '.'

section Sent

variable {decoding : AddressDecoding} {chain : Option Prefixes} {address worker : String}

theorem Pays.no_dot (hreads : decoding.ReadsAlphabets) (hpays : Pays decoding chain address worker) :
    '.' ∉ address.toList := by
  intro hdot
  have halphanum := (alphanumeric_of_toOutputScript hreads hpays.pays).1 _ hdot
  revert halphanum
  decide

theorem Pays.address_ne_nil (hreads : decoding.ReadsAlphabets)
    (hpays : Pays decoding chain address worker) : address.toList ≠ [] := by
  intro hnil
  have hlength := (alphanumeric_of_toOutputScript hreads hpays.pays).2.1
  rw [length_stringBytes, hnil] at hlength
  cases hlength

/-- The username of an address is sent with the part of the worker name that fits. -/
theorem Pays.forWire (hreads : decoding.ReadsAlphabets) (hpays : Pays decoding chain address worker)
    {d : DatumConfig} (hfull : d.poolPassFullUsers = true) (poolAddress : String) :
    forWire d poolAddress (address ++ worker) = address ++ sentWorker address worker := by
  have hlength := (alphanumeric_of_toOutputScript hreads hpays.pays).2.2
  obtain ⟨c, text, htext⟩ := List.exists_cons_of_ne_nil (hpays.address_ne_nil hreads)
  have hempty : (address ++ worker).isEmpty = false := by
    rw [String.isEmpty_eq_false_iff]
    intro heq
    have := congrArg String.toList heq
    rw [String.toList_append, htext] at this
    cases this
  have hdot : ((address ++ worker).toList.head? = some '.') = False := by
    rw [String.toList_append, htext, eq_iff_iff, iff_false]
    intro heq
    apply hpays.no_dot hreads
    rw [htext, Option.some.inj heq]
    exact List.mem_cons_self
  have hcut := @cutBytes_append address.toList MAX_USERNAME_LEN
    (by rw [← length_stringBytes, MAX_USERNAME_LEN]; omega) worker.toList
  simp only [Ratum.forWire, hfull, hempty, hdot, Bool.not_true, Bool.false_and, Bool.or_self,
    Bool.false_eq_true, if_false, decide_false, Bool.not_false, Bool.and_self, if_true]
  rw [String.toList_append, hcut, ← length_stringBytes, String.ofList_append, String.ofList_toList]
  rfl

/-- The pool reads the address back from what is sent. -/
theorem Pays.addressOf (hreads : decoding.ReadsAlphabets) (hpays : Pays decoding chain address worker) :
    addressOf (address ++ sentWorker address worker) = address := by
  have hworker : ∀ c, (sentWorker address worker).toList.head? = some c → c = '.' := by
    intro c hc
    rw [sentWorker, String.toList_ofList] at hc
    exact hpays.worker_dot c (head?_cutBytes hc)
  rw [Ratum.addressOf, splitAddressWorker_append (hpays.no_dot hreads) hworker]

theorem Pays.usernamePasses_iff (hreads : decoding.ReadsAlphabets)
    (hpays : Pays decoding chain address worker) :
    usernamePasses (address ++ sentWorker address worker) = true ↔
      (stringBytes (sentWorker address worker)).all isPrintable = true := by
  obtain ⟨halphanum, -, hlength⟩ := alphanumeric_of_toOutputScript hreads hpays.pays
  obtain ⟨c, text, htext⟩ := List.exists_cons_of_ne_nil (hpays.address_ne_nil hreads)
  have hempty : (address ++ sentWorker address worker).isEmpty = false := by
    rw [String.isEmpty_eq_false_iff]
    intro heq
    have := congrArg String.toList heq
    rw [String.toList_append, htext] at this
    cases this
  have hdot : (address ++ sentWorker address worker).toList.head? ≠ some '.' := by
    rw [String.toList_append, htext]
    intro heq
    apply hpays.no_dot hreads
    rw [htext, Option.some.inj heq]
    exact List.mem_cons_self
  have hfits : (stringBytes (address ++ sentWorker address worker)).length ≤ MAX_USERNAME_LEN := by
    have hcut := utf8Length_cutBytes (MAX_USERNAME_LEN - (stringBytes address).length) worker.toList
    rw [stringBytes_append, List.length_append, length_stringBytes (sentWorker _ _), sentWorker,
      String.toList_ofList]
    rw [MAX_USERNAME_LEN] at hcut ⊢
    omega
  have hprintable := all_printable_of_isAlphanum halphanum
  simp only [usernamePasses, hempty, hfits, hdot, ne_eq, not_false_eq_true, decide_true, Bool.not_false,
    Bool.true_and, Bool.and_true]
  rw [stringBytes_append, List.all_append, hprintable, Bool.true_and]

end Sent

/-! ### The username credited -/

section Credited

variable {F : Type} (ops : FloatOps F) (decoding : AddressDecoding) (chain : Option Prefixes)
  (modifiers : List (UsernameModifier F)) (poolAddress username : String) (hash : Hash)

/-- The address a share is credited to and the worker name behind it: the pool's address alone where the
selector falls past the ranges of the modifier named. -/
def creditedParts : String × String :=
  let parsed := parse username modifiers
  match parsed.modifier with
  | none => (parsed.address, parsed.worker)
  | some modifier =>
      match selectRange ops (selectorOf hash) ops.zero modifier.ranges with
      | none => (poolAddress, "")
      | some range =>
          (if range.address = "" then parsed.address else range.address, parsed.worker)

/-- The pool credits shares sent under the text. -/
structure CreditedAs (wire : String) : Prop where
  checked : ∀ s now, s.username = wire → checkUsernameAndTime s now ≠ .error .badUsername
  paid : (toOutputScript decoding (addressOf wire) chain).isSome
  identity : (parse username modifiers).modifier = none →
    identityOf canonicalAddress wire = canonicalAddress (parse username modifiers).address

/-- A share sent under the text. -/
def submitOf (username : String) : PowSubmit where
  jobId := 0
  coinbaseId := 0
  isBlock := false
  subsidyOnly := false
  quickdiff := false
  targetByte := 0
  ntime := 0
  nonce := 0
  version := 0
  extranonce := Vector.replicate _ 0
  username
  useTimeOffset := false
  job := none
  coinbase := none
  blake2b := ⟨Vector.replicate _ 0, Vector.replicate _ 0, 0⟩
  abwSlot := none

/-- What of the worker name is sent behind the address credited is printable. -/
def SentWorkerPrintable : Prop :=
  let parts := creditedParts ops modifiers poolAddress username hash
  (stringBytes (sentWorker parts.1 parts.2)).all isPrintable = true

end Credited

theorem splitAddressWorker_parts (username : String) :
    (splitAddressWorker username).1 ++ (splitAddressWorker username).2 = username ∧
      ∀ c, (splitAddressWorker username).2.toList.head? = some c → c = '.' := by
  refine ⟨?_, ?_⟩
  · rw [splitAddressWorker, ← String.ofList_append, List.takeWhile_append_dropWhile, String.ofList_toList]
  · intro c hc
    rw [splitAddressWorker, String.toList_ofList] at hc
    by_contra hne
    have hhead := List.head?_dropWhile_not (fun c => decide (c ≠ '.')) username.toList
    rw [hc] at hhead
    simp [hne] at hhead

section Theorem

variable {F : Type} {ops : FloatOps F} {decoding : AddressDecoding} {chain : Option Prefixes}
  {modifiers : List (UsernameModifier F)} {poolAddress username : String}

theorem parse_worker (username : String) (modifiers : List (UsernameModifier F)) :
    ∀ c, (parse username modifiers).worker.toList.head? = some c → c = '.' := by
  rw [parse]
  exact (splitAddressWorker_parts _).2

theorem selectRange_mem {selector : Int} {sum : F} {ranges : List (ModifierRange F)}
    {range : ModifierRange F} (hselect : selectRange ops selector sum ranges = some range) :
    range ∈ ranges := by
  induction ranges generalizing sum with
  | nil => cases hselect
  | cons first ranges ih =>
      rw [selectRange] at hselect
      split at hselect
      · obtain rfl := Option.some.inj hselect
        exact List.mem_cons_self
      · exact List.mem_cons_of_mem _ (ih hselect)

theorem parse_named {base : String} {modifier : UsernameModifier F}
    (hnamed : namedModifier username modifiers = some (base, modifier)) :
    parse username modifiers =
      ⟨(splitAddressWorker base).1, (splitAddressWorker base).2, some modifier⟩ := by
  rw [parse, hnamed]

theorem parse_unnamed (hnamed : namedModifier username modifiers = none) :
    parse username modifiers =
      ⟨(splitAddressWorker username).1, (splitAddressWorker username).2, none⟩ := by
  rw [parse, hnamed]

theorem parse_modifier_mem {modifier : UsernameModifier F}
    (hmodifier : (parse username modifiers).modifier = some modifier) : modifier ∈ modifiers := by
  cases hnamed : namedModifier username modifiers with
  | none =>
      rw [parse_unnamed hnamed] at hmodifier
      cases hmodifier
  | some named =>
      rw [parse_named hnamed] at hmodifier
      obtain rfl := Option.some.inj hmodifier
      rw [namedModifier, Option.bind_eq_bind, Option.bind_eq_some_iff] at hnamed
      obtain ⟨⟨base, name⟩, -, hfind⟩ := hnamed
      rw [Option.bind_eq_bind, Option.bind_eq_some_iff] at hfind
      obtain ⟨found, hfound, heq⟩ := hfind
      obtain rfl := Option.some.inj heq
      exact List.mem_of_find?_eq_some hfound

theorem parse_parts (hmodifier : (parse username modifiers).modifier = none) :
    (parse username modifiers).address ++ (parse username modifiers).worker = username := by
  cases hnamed : namedModifier username modifiers with
  | none =>
      rw [parse_unnamed hnamed]
      exact (splitAddressWorker_parts username).1
  | some named =>
      rw [parse_named hnamed] at hmodifier
      cases hmodifier

theorem creditedUsername_parts (hash : Hash) :
    creditedUsername ops modifiers poolAddress username hash =
      (creditedParts ops modifiers poolAddress username hash).1 ++
        (creditedParts ops modifiers poolAddress username hash).2 := by
  rw [creditedUsername, applyModifier, creditedParts]
  dsimp only
  cases hmodifier : (parse username modifiers).modifier with
  | none => exact (parse_parts hmodifier).symm
  | some modifier =>
      dsimp only
      cases hselect : selectRange ops (selectorOf hash) ops.zero modifier.ranges with
      | none => exact String.append_empty.symm
      | some range => rfl

/-- The address credited pays a script. -/
theorem creditedParts_pays
    (hpayable : isValidAddress decoding (parse username modifiers).address chain = true)
    (hmodifiers : ∀ m ∈ modifiers, ∀ range ∈ m.ranges, range.address ≠ "" →
      isValidAddress decoding range.address chain = true)
    (hpool : isValidAddress decoding poolAddress chain = true) (hash : Hash) :
    Pays decoding chain (creditedParts ops modifiers poolAddress username hash).1
      (creditedParts ops modifiers poolAddress username hash).2 := by
  rw [creditedParts]
  cases hmodifier : (parse username modifiers).modifier with
  | none => exact ⟨hpayable, parse_worker username modifiers⟩
  | some modifier =>
      dsimp only
      cases hselect : selectRange ops (selectorOf hash) ops.zero modifier.ranges with
      | none => exact ⟨hpool, nofun⟩
      | some range =>
          have haddress : isValidAddress decoding
              (if range.address = "" then (parse username modifiers).address else range.address)
              chain = true := by
            by_cases hown : range.address = ""
            · rw [if_pos hown]
              exact hpayable
            · rw [if_neg hown]
              exact hmodifiers modifier (parse_modifier_mem hmodifier) range (selectRange_mem hselect)
                hown
          exact ⟨haddress, parse_worker username modifiers⟩

end Theorem

/-- **A payable username is credited by the pool exactly when what is sent of its worker name is
printable.** -/
theorem credited_iff_sentWorkerPrintable {F : Type} {ops : FloatOps F} {decoding : AddressDecoding}
    {chain : Option Prefixes} {modifiers : List (UsernameModifier F)} {poolAddress username : String}
    {d : DatumConfig} (hreads : decoding.ReadsAlphabets)
    (hpayable : isValidAddress decoding (parse username modifiers).address chain = true)
    (hmodifiers : ∀ m ∈ modifiers, ∀ range ∈ m.ranges, range.address ≠ "" →
      isValidAddress decoding range.address chain = true)
    (hpool : isValidAddress decoding poolAddress chain = true) (hfull : d.poolPassFullUsers = true)
    (hash : Hash) :
    CreditedAs decoding chain modifiers username
        (forWire d poolAddress (creditedUsername ops modifiers poolAddress username hash)) ↔
      SentWorkerPrintable ops modifiers poolAddress username hash := by
  have hpays := @creditedParts_pays _ ops _ _ _ _ _ hpayable hmodifiers hpool hash
  rw [creditedUsername_parts, hpays.forWire hreads hfull, SentWorkerPrintable,
    ← hpays.usernamePasses_iff hreads]
  have haddress := hpays.addressOf hreads
  constructor
  · intro hcredited
    by_contra hfails
    rw [Bool.not_eq_true] at hfails
    exact hcredited.checked (submitOf _) 0 rfl (checkUsernameAndTime_eq_badUsername.mpr hfails)
  · intro hpasses
    refine ⟨?_, ?_, ?_⟩
    · rintro s now heq hbad
      rw [checkUsernameAndTime_eq_badUsername, heq, hpasses] at hbad
      cases hbad
    · rw [haddress]
      exact hpays.pays
    · intro hmodifier
      show canonicalAddress (addressOf _) = _
      rw [haddress, creditedParts, hmodifier]

/-! ### A worker name with a space -/

def exampleAddress : String := "bc1qw508d6qejxtdg4y5r3zarvary0c5xw7kv8f3t4"

/-- The decoders, as far as they read the example. -/
def exampleDecoding : AddressDecoding where
  segwit addr :=
    if addr = exampleAddress then
      some ("bc", 0, [0x75, 0x1e, 0x76, 0xe8, 0x19, 0x91, 0x96, 0xd4, 0x54, 0x94, 0x1c, 0x45, 0xd1, 0xb3,
        0xa3, 0x23, 0xf1, 0x43, 0x3b, 0xd6])
    else none
  base58Check _ := none

theorem exampleDecoding_readsAlphabets : exampleDecoding.ReadsAlphabets := by
  refine ⟨?_, nofun⟩
  intro addr hrp version program hdecode
  rw [exampleDecoding] at hdecode
  dsimp only at hdecode
  split at hdecode
  · rename_i heq
    obtain ⟨rfl, -⟩ := Prod.mk.inj (Option.some.inj hdecode)
    have hdata : ("qw508d6qejxtdg4y5r3zarvary0c5xw7kv8f3t4".toList.all fun c =>
        BECH32_CHARSET.contains c) = true := by decide
    refine ⟨"qw508d6qejxtdg4y5r3zarvary0c5xw7kv8f3t4".toList, ?_, ?_⟩
    · rw [heq]
      decide
    · intro c hc
      exact List.contains_iff_mem.mp (List.all_eq_true.mp hdata c hc)
  · cases hdecode

def noProportions : FloatOps Unit := ⟨(), fun _ _ => (), fun _ _ => (), fun _ _ => 0⟩

theorem example_credited :
    CreditedAs exampleDecoding (some .MAIN) ([] : List (UsernameModifier Unit)) (exampleAddress ++ ".rig")
      (forWire ⟨true, true⟩ exampleAddress
        (creditedUsername noProportions [] exampleAddress (exampleAddress ++ ".rig")
          (Vector.replicate _ 0))) := by
  refine (credited_iff_sentWorkerPrintable exampleDecoding_readsAlphabets ?_ ?_ ?_ rfl _).mpr ?_
  · decide +kernel
  · exact fun m hm => absurd hm List.not_mem_nil
  · decide +kernel
  · show (stringBytes _).all isPrintable = true
    decide +kernel

/-- The gateway accepts the username, and the pool refuses every share sent under it. -/
theorem worker_with_space_refused :
    isPayable exampleDecoding (exampleAddress ++ ".my rig") ([] : List (UsernameModifier Unit)) = true ∧
      isValidAddress exampleDecoding
        (parse (exampleAddress ++ ".my rig") ([] : List (UsernameModifier Unit))).address (some .MAIN) =
          true ∧
      isValidAddress exampleDecoding exampleAddress (some .MAIN) = true ∧
      ∀ hash, ¬ CreditedAs exampleDecoding (some .MAIN) ([] : List (UsernameModifier Unit))
        (exampleAddress ++ ".my rig")
        (forWire ⟨true, true⟩ exampleAddress
          (creditedUsername noProportions [] exampleAddress (exampleAddress ++ ".my rig") hash)) := by
  refine ⟨by decide +kernel, by decide +kernel, by decide +kernel, ?_⟩
  intro hash hcredits
  refine hcredits.checked (submitOf _) 0 rfl (checkUsernameAndTime_eq_badUsername.mpr ?_)
  show usernamePasses (forWire _ _ _) = false
  have hcredited : creditedUsername noProportions [] exampleAddress (exampleAddress ++ ".my rig") hash =
      exampleAddress ++ ".my rig" := by
    rw [creditedUsername, applyModifier]
    rfl
  rw [hcredited]
  decide +kernel

end Ratum
