import Ratum.Base.PowerOfTwo
import Ratum.Core.Clock
import Ratum.Core.Target
import Ratum.Datum.Config

/-!
# Variable difficulty

`gateway/src/vardiff.rs`: the difficulty of one connection. A division fails on a zero divisor, and the
functions that divide return none when one does; the arithmetic of words wraps.
-/

namespace Ratum

def MS_PER_MINUTE : UInt64 := 60000

def MIN_SAMPLE_MS : UInt64 := 1000

def RATE_TOLERANCE : UInt64 := 2

def MIN_QUICKDIFF_SHIFT : UInt64 := 2

def MIN_SHARES_TO_DOUBLE : UInt64 := 16

/-- The division of words; none for a zero divisor. -/
def checkedDiv (dividend divisor : UInt64) : Option UInt64 :=
  if divisor = 0 then none else some (dividend / divisor)

/-- The multiplication of words, at most the greatest. -/
def saturatingMul (left right : UInt64) : UInt64 :=
  UInt64.ofNat (min (left.toNat * right.toNat) (2 ^ 64 - 1))

def pow2Floor (v : UInt64) : UInt64 := if v = 0 then 0 else 1 <<< UInt64.ofNat (floorLog2 v.toNat)

/-- The difficulty to announce, when it changed, and the one the job is recorded at. -/
structure NotifyDifficulty where
  announce : Option UInt64
  diff : UInt64
  deriving DecidableEq

structure VardiffParams where
  min : UInt64
  targetSharesMin : UInt64
  quickdiffCount : UInt64
  quickdiffDelta : UInt64
  deriving DecidableEq

structure Vardiff where
  params : VardiffParams
  current : UInt64
  lastSent : UInt64
  quickdiffActive : Bool
  quickdiffValue : UInt64
  sharesSinceSnapshot : UInt64
  snapshotAt : Instant
  deriving DecidableEq

namespace Vardiff

def new (params : VardiffParams) (now : Instant) : Vardiff where
  params
  current := params.min
  lastSent := 0
  quickdiffActive := false
  quickdiffValue := 0
  sharesSinceSnapshot := 0
  snapshotAt := now

variable (v : Vardiff)

def resetSnapshot (now : Instant) : Vardiff := { v with sharesSinceSnapshot := 0, snapshotAt := now }

def markSent : UInt64 × Vardiff :=
  let current := if v.current = 0 then v.params.min else v.current
  (current, { v with current, lastSent := current })

def targetMs : Option UInt64 := checkedDiv MS_PER_MINUTE (max v.params.targetSharesMin 1)

def changePending : Bool := v.current ≠ v.lastSent

def elapsedMs (now : Instant) : UInt64 := UInt64.ofNat ((now - v.snapshotAt) / 1000000)

/-- The milliseconds per share over the window; none while no rate is measured. -/
def msPerShare (now : Instant) : Option (Option UInt64) :=
  let n := v.sharesSinceSnapshot
  let delta := v.elapsedMs now
  if n = 0 || delta < MIN_SAMPLE_MS then some none
  else (checkedDiv delta n).map fun ms => some (max ms 1)

def halve (now : Instant) : Vardiff :=
  { v with current := max (v.current >>> 1) v.params.min }.resetSnapshot now

def adjustToRate (msPerShare : UInt64) (now : Instant) : Option Vardiff := do
  let targetMs ← v.targetMs
  if targetMs * RATE_TOLERANCE < msPerShare then pure (v.halve now)
  else
    let fast ← checkedDiv targetMs RATE_TOLERANCE
    if MIN_SHARES_TO_DOUBLE ≤ v.sharesSinceSnapshot ∧ msPerShare < fast then
      pure ({ v with current := v.current <<< 1 }.resetSnapshot now)
    else pure v

/-- The adjustment a notify makes. -/
def adjustOnNotify (now : Instant) : Option Vardiff :=
  if v.changePending then some v
  else if v.sharesSinceSnapshot = 0 then
    if MS_PER_MINUTE < v.elapsedMs now then some (v.halve now) else some v
  else do
    match ← v.msPerShare now with
    | some msPerShare => v.adjustToRate msPerShare now
    | none => pure v

/-- Raises by the factor the measured rate runs over the target. -/
def quickRaise (msPerShare : UInt64) (now : Instant) : Option Vardiff := do
  let factor ← checkedDiv (← v.targetMs) msPerShare
  let raw := saturatingMul factor v.current
  let current := max (max (pow2Floor raw) 1) (v.current <<< MIN_QUICKDIFF_SHIFT)
  pure ({ v with current }.resetSnapshot now)

/-- The adjustment an accepted share makes, and whether it is a raise to announce at once. -/
def adjustOnShare (now : Instant) : Option (Bool × Vardiff) :=
  if v.changePending || v.sharesSinceSnapshot < v.params.quickdiffCount then some (false, v)
  else do
    match ← v.msPerShare now with
    | none => pure (false, v)
    | some msPerShare =>
        let quick ← checkedDiv (← v.targetMs) (max v.params.quickdiffDelta 1)
        if !v.quickdiffActive && msPerShare < quick then
          pure (true, ← v.quickRaise msPerShare now)
        else pure (false, ← v.adjustToRate msPerShare now)

def onShareAccepted (now : Instant) : Option (Bool × Vardiff) :=
  { v with sharesSinceSnapshot := v.sharesSinceSnapshot + 1 }.adjustOnShare now

/-- The notify after its adjustment: holds the difficulty at the floor and announces a change. -/
def announced (floor : UInt64) (quickdiff : Bool) : NotifyDifficulty × Vardiff :=
  let v := { v with current := max v.current floor }
  let changed := v.lastSent ≠ v.current
  let announce := if changed then some v.markSent.1 else none
  let v := if changed then v.markSent.2 else v
  ({ announce, diff := v.lastSent },
    { v with
      quickdiffActive := quickdiff
      quickdiffValue := if quickdiff then v.lastSent else v.quickdiffValue })

def onNotify (floor : UInt64) (quickdiff : Bool) (now : Instant) :
    Option (NotifyDifficulty × Vardiff) := do
  let v ← if quickdiff then some v else v.adjustOnNotify now
  pure (v.announced floor quickdiff)

end Vardiff

/-- The floor of a notify of a job: the pool's minimum difficulty for pooled work. -/
def notifyFloor (isDatumJob : Bool) (config : Option ClientConfig) : UInt64 :=
  if isDatumJob then config.elim 0 ClientConfig.minDifficulty else 0

/-- The target byte of the work a notify carries. -/
def notifyTargetByte (diff : UInt64) : UInt8 := UInt8.ofNat (floorLog2 (max diff 1).toNat)

/-! ### Every order of calls -/

inductive VardiffEvent
  | notify (floor : UInt64) (quickdiff : Bool) (now : Instant) (sent : NotifyDifficulty)
  | share (now : Instant) (raised : Bool)
  | markSent (difficulty : UInt64)
  | reset (now : Instant)

namespace VardiffEvent

/-- The difficulty an event announces to the miner. -/
def announces : VardiffEvent → Option UInt64
  | notify _ _ _ sent => sent.announce
  | markSent difficulty => some difficulty
  | _ => none

/-- The shares accepted since a raise or a reset, an event later. -/
def countShares (count : Nat) : VardiffEvent → Nat
  | share _ raised => if raised then 0 else count + 1
  | reset _ => 0
  | _ => count

/-- Whether the last notify was a quickdiff, an event later. -/
def outstanding (quickdiff : Bool) : VardiffEvent → Bool
  | notify _ quickdiff' _ _ => quickdiff'
  | _ => quickdiff

end VardiffEvent

/-- The difficulty announced last; none before the first. -/
def lastAnnounced (trace : List VardiffEvent) : Option UInt64 :=
  (trace.filterMap VardiffEvent.announces).getLast?

def sharesCounted (trace : List VardiffEvent) : Nat := trace.foldl VardiffEvent.countShares 0

def quickdiffOutstanding (trace : List VardiffEvent) : Bool := trace.foldl VardiffEvent.outstanding false

end Ratum
