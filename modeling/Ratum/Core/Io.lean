import Mathlib.Init

/-!
# Errors of the operating system, the network and the database

What a call outside the process answers is an input of the model: a function that makes such a call
takes the answer as an argument, `.ok ()` or the error it fails with.
-/

namespace Ratum

inductive IoErrorKind
  | connectionAborted
  | invalidData
  | invalidInput
  | timedOut
  | other
  deriving DecidableEq, Repr

structure IoError where
  kind : IoErrorKind
  message : String
  deriving DecidableEq, Repr

def IoError.invalidData (message : String) : IoError := ⟨.invalidData, message⟩

/-- The answer of a call outside the process that returns nothing. -/
abbrev IoAnswer := Except IoError Unit

end Ratum
