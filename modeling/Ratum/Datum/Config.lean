import Ratum.Core.Bytes

/-!
# The pool's configuration

`core/src/datum/messages/config.rs`: what every gateway builds work under. The resume token is left out.
-/

namespace Ratum

def MAX_PAYOUT_SCRIPT_LEN : Nat := 83

/-- What a version 3 configuration carries beyond the version 1 fields. -/
structure V3Config where
  bulkFraming : Bool
  abwDisabled : Bool
  deriving DecidableEq

/-- The pool's configuration. -/
structure ClientConfig where
  payoutScript : Bytes
  primeId : UInt64
  coinbaseTag : String
  minDifficulty : UInt64
  v3 : Option V3Config
  deriving DecidableEq

end Ratum
