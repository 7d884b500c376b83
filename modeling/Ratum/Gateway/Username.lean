import Ratum.Bitcoin.Address
import Ratum.Core.Username
import Ratum.Datum.Share

/-!
# The stratum username

`gateway/src/username.rs`: the address a username's shares are credited to, the suffix that sends a
proportion of them to other addresses, and what is sent to the pool. The proportions are floats, whose
arithmetic is a parameter.
-/

namespace Ratum

/-- The operations on the proportions. -/
structure FloatOps (F : Type) where
  zero : F
  add : F → F → F
  max : F → F → F
  /-- The product with a number of selector values, rounded up. -/
  ceilScaled : F → Nat → Int

structure ModifierRange (F : Type) where
  address : String
  proportion : F

structure UsernameModifier (F : Type) where
  name : String
  ranges : List (ModifierRange F)

structure ParsedUsername (F : Type) where
  address : String
  worker : String
  modifier : Option (UsernameModifier F)

section Modifiers

variable {F : Type}

/-- The text before the first `~` and the text after it. -/
def splitTilde (username : String) : Option (String × String) :=
  match username.toList.dropWhile (· ≠ '~') with
  | [] => none
  | _ :: name => some (String.ofList (username.toList.takeWhile (· ≠ '~')), String.ofList name)

/-- The modifier a `~name` suffix names, with the text before the suffix. -/
def namedModifier (username : String) (modifiers : List (UsernameModifier F)) :
    Option (String × UsernameModifier F) := do
  let (base, name) ← splitTilde username
  let modifier ← modifiers.find? (·.name = name)
  pure (base, modifier)

def parse (username : String) (modifiers : List (UsernameModifier F)) : ParsedUsername F :=
  let (base, modifier) := match namedModifier username modifiers with
    | some (base, m) => (base, some m)
    | none => (username, none)
  let (address, worker) := splitAddressWorker base
  { address, worker, modifier }

/-- Whether the username's address is one a coinbase output can pay, with any chain's prefixes. -/
def isPayable (decoding : AddressDecoding) (username : String)
    (modifiers : List (UsernameModifier F)) : Bool :=
  isValidAddress decoding (parse username modifiers).address none

def SELECTOR_SPACE : Nat := 65536

def SELECTOR_MAX : Int := 65535

variable (ops : FloatOps F)

/-- The highest selector value a range reaches. -/
def rangeEnd (cumulative : F) : Int :=
  min (ops.ceilScaled cumulative SELECTOR_SPACE - 1) SELECTOR_MAX

/-- The range a selector falls in, none past the last one's end. -/
def selectRange (selector : Int) : F → List (ModifierRange F) → Option (ModifierRange F)
  | _, [] => none
  | sum, range :: ranges =>
      let sum := ops.add sum (ops.max range.proportion ops.zero)
      if selector ≤ rangeEnd ops sum then some range else selectRange selector sum ranges

/-- The low word of the hash. -/
def selectorOf (hash : Hash) : Int :=
  leNat [hash.toList.getD 31 0, hash.toList.getD 30 0]

def applyModifier (modifiers : List (UsernameModifier F)) (poolAddress username : String)
    (hash : Hash) : Option String :=
  let parsed := parse username modifiers
  match parsed.modifier with
  | none => none
  | some modifier =>
      match selectRange ops (selectorOf hash) ops.zero modifier.ranges with
      | none => some poolAddress
      | some range =>
          let paid := if range.address = "" then parsed.address else range.address
          some (paid ++ parsed.worker)

/-- `credited_username`. -/
def creditedUsername (modifiers : List (UsernameModifier F)) (poolAddress username : String)
    (hash : Hash) : String :=
  (applyModifier ops modifiers poolAddress username hash).getD username

end Modifiers

structure DatumConfig where
  poolPassFullUsers : Bool
  poolPassWorkers : Bool

/-- The longest start of the text of at most `limit` bytes that ends on a character boundary. -/
def cutBytes : Nat → List Char → List Char
  | _, [] => []
  | limit, c :: text => if c.utf8Size ≤ limit then c :: cutBytes (limit - c.utf8Size) text else []

def forWire (d : DatumConfig) (poolAddress username : String) : String :=
  let startsWithDot : Bool := username.toList.head? = some '.'
  let full :=
    if (!d.poolPassFullUsers && !d.poolPassWorkers) || username.isEmpty then poolAddress
    else if d.poolPassFullUsers && !startsWithDot then username
    else poolAddress ++ (if startsWithDot then "" else ".") ++ username
  String.ofList (cutBytes MAX_USERNAME_LEN full.toList)

end Ratum
