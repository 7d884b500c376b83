import Mathlib.Init

/-!
# The answer to a share

The verdict on a share and the reasons for a refusal, as in
`core/src/datum/messages/share_response.rs`. The reasons' wire codes are left out.
-/

namespace Ratum

inductive RejectReason
  | badJobId
  | badCoinbaseId
  | badExtranonceSize
  | badTarget
  | badUsername
  | badCoinbaserId
  | badMerkleCount
  | coinbaseTooLarge
  | coinbaseMissing
  | targetMismatch
  | hashNotZero
  | highHash
  | coinbaseIdMismatch
  | badNtime
  | badVersion
  | staleBlock
  | badCoinbase
  | badCoinbaseOutputs
  | missingPoolTag
  | duplicateWork
  | other
  | badBlake2bSection
  | headerFieldMismatch
  | headerMerkleMismatch
  | noSplit
  | badAbwSlot
  deriving DecidableEq, Repr

/-- Whether a share is refused because no section it can be rebuilt on is installed. -/
def RejectReason.unresolved : RejectReason → Bool
  | badJobId | coinbaseMissing => true
  | _ => false

inductive ShareVerdict
  | accepted
  | acceptedTentatively
  | rejected (reason : RejectReason)
  deriving DecidableEq, Repr

end Ratum
