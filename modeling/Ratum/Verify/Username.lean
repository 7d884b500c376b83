import Ratum.Datum.Share
import Ratum.Datum.ShareResponse
import Ratum.Gateway.Username
import Ratum.Ledger.Basic

/-!
# The username and the time of a share

`check_username_and_time` of `prime/src/verify.rs`.
-/

namespace Ratum

/-- `PRINTABLE_ASCII`. -/
def isPrintable (b : UInt8) : Bool := 0x21 ≤ b && b ≤ 0x7e

/-- The checks made of the username. -/
def usernamePasses (username : String) : Bool :=
  !username.isEmpty && (stringBytes username).length ≤ MAX_USERNAME_LEN &&
    (stringBytes username).all isPrintable && username.toList.head? ≠ some '.'

def checkUsernameAndTime (s : PowSubmit) (now : Nat) : Except RejectReason Unit :=
  if !usernamePasses s.username then .error .badUsername
  else if NTIME_WINDOW_SECS < max s.blockTime.toNat now - min s.blockTime.toNat now then
    .error .badNtime
  else .ok ()

theorem checkUsernameAndTime_eq_badUsername {s : PowSubmit} {now : Nat} :
    checkUsernameAndTime s now = .error .badUsername ↔ usernamePasses s.username = false := by
  rw [checkUsernameAndTime]
  cases usernamePasses s.username with
  | false => simp
  | true =>
      simp only [Bool.not_true, Bool.false_eq_true, if_false, Bool.true_eq_false, iff_false]
      split <;> simp

end Ratum
