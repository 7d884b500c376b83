import Mathlib.Data.Nat.Basic

/-!
# Instants and durations

An `Instant` of the monotonic clock and a `Duration` are natural numbers of nanoseconds, so the
subtraction of instants saturates as `duration_since` does. Times of the system clock are natural numbers
of seconds.
-/

namespace Ratum

abbrev Instant := Nat

abbrev Duration := Nat

def Duration.fromSecs (secs : Nat) : Duration := secs * 1000000000

end Ratum
