import Mathlib.Data.List.TakeWhile

/-!
# The username both sides read

`core/src/username.rs`: the address of a username, and the worker name after it.
-/

namespace Ratum

/-- The address at the start of a username, and the worker name with its leading dot. -/
def splitAddressWorker (username : String) : String × String :=
  (String.ofList (username.toList.takeWhile (· ≠ '.')),
    String.ofList (username.toList.dropWhile (· ≠ '.')))

def addressOf (username : String) : String := (splitAddressWorker username).1

/-- Text without a dot is the address of what it is put in front of, unless that starts an address
itself. -/
theorem splitAddressWorker_append {address worker : String} (haddress : '.' ∉ address.toList)
    (hworker : ∀ c, worker.toList.head? = some c → c = '.') :
    splitAddressWorker (address ++ worker) = (address, worker) := by
  have hall : ∀ c ∈ address.toList, decide (c ≠ '.') = true := by
    intro c hc
    exact decide_eq_true fun heq => haddress (heq ▸ hc)
  have htake : worker.toList.takeWhile (· ≠ '.') = [] := by
    cases hlist : worker.toList with
    | nil => rfl
    | cons c cs =>
        obtain rfl := hworker c (by rw [hlist]; rfl)
        rfl
  have hdrop : worker.toList.dropWhile (· ≠ '.') = worker.toList := by
    cases hlist : worker.toList with
    | nil => rfl
    | cons c cs =>
        obtain rfl := hworker c (by rw [hlist]; rfl)
        rfl
  rw [splitAddressWorker, String.toList_append, List.takeWhile_append_of_pos hall,
    List.dropWhile_append_of_pos hall, htake, hdrop, List.append_nil]
  simp

end Ratum
