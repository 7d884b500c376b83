import Ratum.Core.Text
import Ratum.Gateway.Job
import Mathlib.Tactic.IntervalCases

/-!
# The id of a piece of work

`gateway/src/stratum/notify_id.rs`: the id a mining.notify carries and a mining.submit names, the job's
creation time and slot, the slot again masked, and the coinbase the work commits to. An id is the bytes of
its text.
-/

namespace Ratum

/-! ### Hexadecimal text -/

def hexDigit (n : Nat) : UInt8 := UInt8.ofNat (if n < 10 then 0x30 + n else 0x57 + n)

/-- `{:0width$x}` of a number that fits the width. -/
def hexFixed : Nat → Nat → Bytes
  | 0, _ => []
  | width + 1, n => hexFixed width (n / 16) ++ [hexDigit (n % 16)]

/-- The number hexadecimal digits write. -/
def hexNumber (text : Bytes) : Option Nat :=
  text.foldlM (fun n b => (hexValue b).map (16 * n + ·)) 0

/-- `from_str_radix` with radix 16, for a type of the given bound. -/
def fromHex (bound : Nat) (text : Bytes) : Option Nat :=
  let digits := if text.head? = some 0x2b then text.tail else text
  if digits.isEmpty then none else (hexNumber digits).filter (· < bound)

/-! ### Ids -/

def JOB_INDEX_XOR : UInt16 := 0xc0de

/-- The leading characters of a stratum job id: the job's creation time. -/
def JOB_ID_TIME_CHARS : Nat := 8

def JOB_ID_CHARS : Nat := 14

def NOTIFY_ID_CHARS : Nat := JOB_ID_CHARS + 2

def QUICKDIFF_PREFIX : UInt8 := 0x51

def EMPTY_WORK_PREFIX : UInt8 := 0x4e

def stratumJobId (createdAt : UInt32) (slot : UInt8) : Bytes :=
  hexFixed 8 createdAt.toNat ++ hexFixed 2 slot.toNat ++
    hexFixed 4 (slot.toUInt16 ^^^ JOB_INDEX_XOR).toNat

def slotOf (stratumJobId : Bytes) : Option UInt8 :=
  if stratumJobId.length < JOB_ID_CHARS then none
  else
    match fromHex (2 ^ 16) ((stratumJobId.drop 10).take 4) with
    | none => none
    | some raw =>
        let index := (UInt16.ofNat raw ^^^ JOB_INDEX_XOR).toNat
        if MAX_JOBS ≤ index then none else some (UInt8.ofNat index)

inductive NotifyPrefix
  | plain
  | quickdiff
  | emptyWork
  deriving DecidableEq

namespace NotifyPrefix

/-- The prefix a job is first served under. -/
def ofKind : CoinbaseKind → NotifyPrefix
  | .subsidyOnly => emptyWork
  | .pooled => plain

def coinbase : NotifyPrefix → CoinbaseKind
  | plain | quickdiff => .pooled
  | emptyWork => .subsidyOnly

/-- The characters before the stratum job id. -/
def chars : NotifyPrefix → Bytes
  | plain => []
  | quickdiff => [QUICKDIFF_PREFIX]
  | emptyWork => [EMPTY_WORK_PREFIX]

/-- The id a mining.notify of the job with this prefix carries. -/
def notifyId (notifyPrefix : NotifyPrefix) (job : Job) : Bytes :=
  notifyPrefix.chars ++ job.stratumJobId ++ hexFixed 2 notifyPrefix.coinbase.wireId.toNat

end NotifyPrefix

/-- A submitted id read back. -/
structure NotifyId where
  slot : UInt8
  notifyPrefix : NotifyPrefix
  deriving DecidableEq

namespace NotifyId

def prefixOf (text : Bytes) : Option (NotifyPrefix × Bytes) :=
  if text.length = NOTIFY_ID_CHARS then some (.plain, text)
  else if text.length = NOTIFY_ID_CHARS + 1 then
    if text.head? = some QUICKDIFF_PREFIX then some (.quickdiff, text.tail)
    else if text.head? = some EMPTY_WORK_PREFIX then some (.emptyWork, text.tail)
    else none
  else none

/-- The notify id and the stratum job id inside it. -/
def parse (text : Bytes) : Option (NotifyId × Bytes) := do
  let (notifyPrefix, rest) ← prefixOf text
  let stratumJobId := rest.take JOB_ID_CHARS
  let slot ← slotOf stratumJobId
  let coinbaseId ← fromHex (2 ^ 8) (rest.drop JOB_ID_CHARS)
  if coinbaseId ≠ notifyPrefix.coinbase.wireId.toNat then none
  else pure ({ slot, notifyPrefix }, stratumJobId)

end NotifyId

/-! ### Ids read back -/

@[simp] theorem length_hexFixed (width n : Nat) : (hexFixed width n).length = width := by
  induction width generalizing n with
  | zero => rfl
  | succ width ih => rw [hexFixed, List.length_append, ih, List.length_singleton]

theorem hexValue_hexDigit {n : Nat} (hn : n < 16) : hexValue (hexDigit n) = some n := by
  interval_cases n <;> rfl

theorem hexNumber_append_hexDigit {text : Bytes} {high n : Nat} (htext : hexNumber text = some high) (hn : n < 16) :
    hexNumber (text ++ [hexDigit n]) = some (16 * high + n) := by
  unfold hexNumber at htext ⊢
  rw [List.foldlM_append, htext, Option.bind_eq_bind, Option.bind_some, List.foldlM_cons, hexValue_hexDigit hn]
  rfl

theorem hexNumber_hexFixed {width n : Nat} (hn : n < 16 ^ width) : hexNumber (hexFixed width n) = some n := by
  induction width generalizing n with
  | zero =>
      obtain rfl : n = 0 := by simpa using hn
      rfl
  | succ width ih =>
      rw [Nat.pow_succ] at hn
      rw [hexFixed, hexNumber_append_hexDigit (ih (by omega)) (Nat.mod_lt _ (by decide)), Nat.div_add_mod]

theorem hexDigit_ne_plus (n : Nat) (hn : n < 16) : hexDigit n ≠ 0x2b := by
  interval_cases n <;> decide

theorem head_hexFixed_ne_plus (width n : Nat) : (hexFixed width n).head? ≠ some 0x2b := by
  induction width generalizing n with
  | zero => exact fun h => by cases h
  | succ width ih =>
      rw [hexFixed, List.head?_append]
      cases hhead : (hexFixed width (n / 16)).head? with
      | none =>
          exact fun h => hexDigit_ne_plus _ (Nat.mod_lt _ (by decide)) (Option.some.inj h)
      | some b =>
          have hne := ih (n / 16)
          rw [hhead] at hne
          exact hne

/-- A number written in hexadecimal is read back. -/
theorem fromHex_hexFixed {bound width n : Nat} (hwidth : 0 < width) (hn : n < 16 ^ width) (hbound : n < bound) :
    fromHex bound (hexFixed width n) = some n := by
  have hne : (hexFixed width n).isEmpty = false := by
    rw [List.isEmpty_eq_false_iff, ← List.length_pos_iff, length_hexFixed]
    exact hwidth
  unfold fromHex
  rw [if_neg (head_hexFixed_ne_plus width n)]
  simp [hne, hexNumber_hexFixed hn, hbound]

theorem length_stratumJobId (createdAt : UInt32) (slot : UInt8) :
    (stratumJobId createdAt slot).length = JOB_ID_CHARS := by
  simp [stratumJobId, JOB_ID_CHARS]

theorem slotOf_stratumJobId (createdAt : UInt32) (slot : UInt8) :
    slotOf (stratumJobId createdAt slot) = some slot := by
  have hraw : ((stratumJobId createdAt slot).drop 10).take 4 =
      hexFixed 4 (slot.toUInt16 ^^^ JOB_INDEX_XOR).toNat := by
    rw [stratumJobId, List.drop_left' (by simp), List.take_of_length_le (by simp)]
  have hlt := (slot.toUInt16 ^^^ JOB_INDEX_XOR).toNat_lt
  have hindex : (UInt16.ofNat (slot.toUInt16 ^^^ JOB_INDEX_XOR).toNat ^^^ JOB_INDEX_XOR).toNat = slot.toNat := by
    rw [UInt16.ofNat_toNat, UInt16.xor_assoc, UInt16.xor_self, UInt16.xor_zero, UInt8.toNat_toUInt16]
  have hslot := slot.toNat_lt
  rw [slotOf, if_neg (by rw [length_stratumJobId]; exact Nat.lt_irrefl _), hraw,
    fromHex_hexFixed (by decide) hlt hlt]
  dsimp only
  rw [hindex, if_neg (show ¬ MAX_JOBS ≤ slot.toNat from Nat.not_le.mpr hslot), UInt8.ofNat_toNat]

theorem prefixOf_append {notifyPrefix : NotifyPrefix} {rest : Bytes} (hrest : rest.length = NOTIFY_ID_CHARS) :
    NotifyId.prefixOf (notifyPrefix.chars ++ rest) = some (notifyPrefix, rest) := by
  cases notifyPrefix with
  | plain => exact if_pos hrest
  | quickdiff => simp [NotifyId.prefixOf, NotifyPrefix.chars, hrest]
  | emptyWork => simp [NotifyId.prefixOf, NotifyPrefix.chars, hrest, QUICKDIFF_PREFIX, EMPTY_WORK_PREFIX]

/-- **The id of a notify names its slot and its prefix.** -/
theorem parse_notifyId (notifyPrefix : NotifyPrefix) {job : Job} {createdAt : UInt32}
    (hid : job.stratumJobId = stratumJobId createdAt job.slot) :
    NotifyId.parse (notifyPrefix.notifyId job) = some (⟨job.slot, notifyPrefix⟩, job.stratumJobId) := by
  have hlength : job.stratumJobId.length = JOB_ID_CHARS := by rw [hid, length_stratumJobId]
  have hcoinbase : (hexFixed 2 notifyPrefix.coinbase.wireId.toNat).length = 2 := length_hexFixed _ _
  have hlt := notifyPrefix.coinbase.wireId.toNat_lt
  unfold NotifyId.parse NotifyPrefix.notifyId
  rw [List.append_assoc, prefixOf_append (by rw [List.length_append, hlength, hcoinbase]; rfl)]
  simp only [Option.bind_eq_bind, Option.bind_some]
  rw [List.take_left' hlength, List.drop_left' hlength, hid, slotOf_stratumJobId,
    fromHex_hexFixed (by decide) hlt hlt]
  simp

end Ratum
