import Ratum.Base.FailsIn
import Ratum.Core.Text

/-!
# The head of a request

`parse_head` and `content_length` of `core/src/http.rs`: the request line and the headers, and the length of
the body they state.
-/

namespace Ratum.Http

def MAX_HEADERS : Nat := 100

inductive Method
  | get
  | head
  | post
  | other (name : String)
  deriving DecidableEq

def Method.parse (s : String) : Method :=
  if s = "GET" then .get else if s = "HEAD" then .head else if s = "POST" then .post else .other s

/-- Why no request was read: the connection closed or failed, or the request broke a rule. -/
inductive Refusal
  | closed
  | status (code : Nat) (why : String)
  deriving DecidableEq

structure Head where
  method : Method
  url : String
  headers : List (String × String)
  deriving DecidableEq

def MALFORMED : Refusal := .status 400 "malformed request"

/-! ### Text -/

/-- `str::split` at the line ends. -/
def splitLines : List Char → List (List Char)
  | [] => [[]]
  | '\r' :: '\n' :: rest => [] :: splitLines rest
  | c :: rest => (splitLines rest).modifyHead (c :: ·)

def isBlank (c : Char) : Bool := c = ' ' || c = '\t'

/-- `str::trim_matches` of blanks. -/
def trimBlanks (text : List Char) : List Char := (text.dropWhile isBlank).rdropWhile isBlank

/-- `u8::is_ascii_whitespace` or `u8::is_ascii_control`. -/
def isSpaceOrControl (b : UInt8) : Bool := b ≤ 0x20 || b = 0x7f

def eqIgnoreAsciiCase (a b : String) : Bool :=
  (stringBytes a).map asciiLower = (stringBytes b).map asciiLower

/-! ### The head -/

/-- The loop over the header lines, with the headers read before. -/
def parseHeaders : List (List Char) → List (String × String) → Except Refusal (List (String × String))
  | [], headers => .ok headers
  | line :: lines, headers =>
      if headers.length = MAX_HEADERS then .error (.status 431 "too many headers")
      else
        match splitOnce ':' line with
        | none => .error MALFORMED
        | some (name, value) =>
            if name.isEmpty || (stringBytes (String.ofList name)).any isSpaceOrControl then .error MALFORMED
            else parseHeaders lines (headers ++ [(String.ofList name, String.ofList (trimBlanks value))])

def parseHead (head : Bytes) : Except Refusal Head := do
  let some head := fromUtf8 head | throw MALFORMED
  let requestLine :: lines := splitLines head.toList | throw MALFORMED
  let [method, url, version] := requestLine.splitOn ' ' | throw MALFORMED
  if method.isEmpty || url.isEmpty then throw MALFORMED
  if !"HTTP/".toList.isPrefixOf version then throw MALFORMED
  if !"HTTP/1.".toList.isPrefixOf version then throw (.status 505 "only HTTP/1.0 and HTTP/1.1 are served")
  let headers ← parseHeaders lines []
  pure { method := .parse (String.ofList method), url := String.ofList url, headers }

/-- The values of the headers of a name, in either case. -/
def headerValues (headers : List (String × String)) (name : String) : List String :=
  (headers.filter fun h => eqIgnoreAsciiCase h.1 name).map Prod.snd

/-- The loop over the lengths stated, with the one stated before. -/
def statedLength : List String → Option Nat → Except Refusal (Option Nat)
  | [], length => .ok length
  | value :: values, length =>
      if (stringBytes value).isEmpty || !(stringBytes value).all isAsciiDigit then
        .error (.status 400 "malformed Content-Length")
      else
        let parsed := (parseU64 (stringBytes value)).getD U64_MAX
        if length.any (· ≠ parsed) then .error (.status 400 "conflicting Content-Length headers")
        else statedLength values (some parsed)

def contentLength (headers : List (String × String)) (maxBody : Nat) : Except Refusal Nat := do
  if headers.any fun h => eqIgnoreAsciiCase h.1 "Transfer-Encoding" then
    throw (.status 501 "Transfer-Encoding is not supported; send Content-Length")
  let length ← statedLength (headerValues headers "Content-Length") none
  let length := length.getD 0
  if maxBody < length then throw (.status 413 "the request body is too large")
  pure length

/-! ### What is accepted -/

theorem length_parseHeaders {lines : List (List Char)} {before headers : List (String × String)}
    (hparse : parseHeaders lines before = .ok headers) (hbefore : before.length ≤ MAX_HEADERS) :
    headers.length ≤ MAX_HEADERS := by
  induction lines generalizing before with
  | nil =>
      obtain rfl := Except.ok.inj hparse
      exact hbefore
  | cons line lines ih =>
      rw [parseHeaders] at hparse
      split at hparse
      · cases hparse
      · rename_i hroom
        split at hparse
        · cases hparse
        · split at hparse
          · cases hparse
          · refine ih hparse ?_
            rw [List.length_append, List.length_singleton]
            omega

/-- A head is accepted with no more headers than the limit. -/
theorem length_headers_of_parseHead {bytes : Bytes} {head : Head} (hparse : parseHead bytes = .ok head) :
    head.headers.length ≤ MAX_HEADERS := by
  rw [parseHead] at hparse
  split at hparse
  · split at hparse
    · split at hparse
      · obtain ⟨-, hparse⟩ := FailsIn.ok_of_guard hparse
        obtain ⟨-, hparse⟩ := FailsIn.ok_of_guard hparse
        obtain ⟨-, hparse⟩ := FailsIn.ok_of_guard hparse
        obtain ⟨headers, hheaders, hhead⟩ := Gives.exists_of_bind hparse
        obtain rfl := Except.ok.inj hhead
        exact length_parseHeaders hheaders (Nat.zero_le _)
      · cases hparse
    · cases hparse
  · cases hparse

/-- The lengths stated are all digits and all one number. -/
def StatesLength (values : List String) (n : Nat) : Prop :=
  ∀ value ∈ values, stringBytes value ≠ [] ∧ (stringBytes value).all isAsciiDigit = true ∧
    decimal (stringBytes value) = n

/-- The lengths are read as one number when they are all digits and all that number. -/
theorem statedLength_of_statesLength {values : List String} {n : Nat} (hstates : StatesLength values n)
    (hn : n ≤ U64_MAX) {before : Option Nat} (hbefore : before = none ∨ before = some n) :
    statedLength values before = .ok (if values = [] then before else some n) := by
  induction values generalizing before with
  | nil => rfl
  | cons value values ih =>
      obtain ⟨hne, hdigits, hdecimal⟩ := hstates value List.mem_cons_self
      have hempty : (stringBytes value).isEmpty = false := List.isEmpty_eq_false_iff.mpr hne
      have hparsed : (parseU64 (stringBytes value)).getD U64_MAX = n := by
        rw [parseU64_digits hne hdigits, hdecimal, if_pos hn]
        rfl
      have hsame : before.any (· ≠ n) = false := by
        obtain rfl | rfl := hbefore
        · rfl
        · simp
      have hrest := ih (fun value' hvalue' => hstates value' (List.mem_cons_of_mem value hvalue')) (.inr rfl)
      rw [statedLength, hempty, hdigits, Bool.not_true, Bool.or_false, if_neg Bool.false_ne_true]
      simp only [hparsed, hsame, Bool.false_eq_true, if_false, hrest]
      split <;> rfl

/-- One number is read of the lengths, or none of none. -/
theorem statesLength_of_statedLength {values : List String} {before stated : Option Nat}
    (hstated : statedLength values before = .ok stated) (hfits : stated.getD 0 < U64_MAX) :
    (values = [] → stated = before) ∧ (values ≠ [] → ∃ n, stated = some n ∧ StatesLength values n) ∧
      (∀ n, before = some n → stated = some n) := by
  induction values generalizing before with
  | nil =>
      obtain rfl := Except.ok.inj hstated
      exact ⟨fun _ => rfl, fun hne => absurd rfl hne, fun n hn => hn⟩
  | cons value values ih =>
      rw [statedLength] at hstated
      split at hstated
      · cases hstated
      · rename_i hdigits
        rw [Bool.or_eq_true, not_or, Bool.not_eq_true, List.isEmpty_eq_false_iff, Bool.not_eq_true', Bool.not_eq_false]
          at hdigits
        dsimp only at hstated
        split at hstated
        · cases hstated
        · rename_i hsame
          obtain ⟨hnil, hcons, hkept⟩ := ih hstated
          have hparsed := hkept _ rfl
          rw [hparsed, Option.getD_some] at hfits
          have hdecimal : (parseU64 (stringBytes value)).getD U64_MAX = decimal (stringBytes value) := by
            rw [parseU64_digits hdigits.1 hdigits.2] at hfits ⊢
            split at hfits
            · rename_i hle
              rw [if_pos hle]
              rfl
            · exact absurd hfits (Nat.lt_irrefl _)
          refine ⟨fun h => absurd h (List.cons_ne_nil _ _), fun _ => ⟨_, hparsed, ?_⟩, fun n hn => ?_⟩
          · intro value' hvalue'
            obtain rfl | hvalue' := List.mem_cons.mp hvalue'
            · exact ⟨hdigits.1, hdigits.2, hdecimal.symm⟩
            · obtain ⟨n, hn, hstates⟩ := hcons (List.ne_nil_of_mem hvalue')
              obtain rfl := Option.some.inj (hparsed.symm.trans hn)
              exact hstates value' hvalue'
          · rw [hn, Option.any_some, decide_eq_true_iff, not_not] at hsame
            rw [hparsed, hsame]

/-- The length is that the headers state, which is none without any: a limit below the largest `u64` refuses
what is over that. -/
theorem contentLength_eq_ok_iff {headers : List (String × String)} {maxBody n : Nat} (hmax : maxBody < U64_MAX) :
    contentLength headers maxBody = .ok n ↔
      headerValues headers "Transfer-Encoding" = [] ∧ StatesLength (headerValues headers "Content-Length") n ∧
        (headerValues headers "Content-Length" = [] → n = 0) ∧ n ≤ maxBody := by
  have hcoded : headers.any (fun h => eqIgnoreAsciiCase h.1 "Transfer-Encoding") = false ↔
      headerValues headers "Transfer-Encoding" = [] := by
    rw [headerValues, List.map_eq_nil_iff, List.filter_eq_nil_iff, List.any_eq_false]
  rw [contentLength, ← hcoded]
  constructor
  · intro hlength
    obtain ⟨hcoded, hlength⟩ := FailsIn.ok_of_guard hlength
    obtain ⟨stated, hstated, hlength⟩ := Gives.exists_of_bind hlength
    obtain ⟨hle, hlength⟩ := FailsIn.ok_of_guard hlength
    obtain rfl := Except.ok.inj hlength
    obtain ⟨hnil, hcons, -⟩ := statesLength_of_statedLength hstated (by omega)
    refine ⟨Bool.eq_false_iff.mpr hcoded, ?_, fun hempty => ?_, not_lt.mp hle⟩
    · by_cases hempty : headerValues headers "Content-Length" = []
      · intro value hvalue
        rw [hempty] at hvalue
        exact absurd hvalue List.not_mem_nil
      · obtain ⟨n, rfl, hstates⟩ := hcons hempty
        exact hstates
    · rw [hnil hempty]
      rfl
  · rintro ⟨hcoded, hstates, hnone, hle⟩
    have hstated := statedLength_of_statesLength hstates (by omega) (.inl rfl)
    have hgiven : (if headerValues headers "Content-Length" = [] then none else some n).getD 0 = n := by
      split
      · rename_i hempty
        exact (hnone hempty).symm
      · rfl
    rw [hcoded, if_neg Bool.false_ne_true]
    show (statedLength (headerValues headers "Content-Length") none >>= _) = _
    rw [hstated]
    show (if maxBody < _ then _ else _) = _
    rw [hgiven, if_neg (not_lt.mpr hle)]
    rfl

end Ratum.Http
