import Mathlib.Init

/-!
# Computations that fail in known ways

A computation in `Except` fails in a set of errors when every error it ends with is one of them. What a
computation does after another fails in the set when both do. It gives a property when every value it ends
with has it, which is decided by what it does last.
-/

/-- Every error the computation ends with satisfies a property. -/
def FailsIn {ε α : Type} (P : ε → Prop) (x : Except ε α) : Prop := ∀ e, x = .error e → P e

namespace FailsIn

variable {ε α β : Type} {P : ε → Prop}

theorem ok (a : α) : FailsIn P (.ok a : Except ε α) := by
  intro e herror
  cases herror

theorem error {e : ε} (hfails : P e) : FailsIn P (.error e : Except ε α) := by
  intro e' herror
  obtain rfl := Except.error.inj herror
  exact hfails

theorem bind {x : Except ε α} {f : α → Except ε β} (hx : FailsIn P x)
    (hf : ∀ a, x = .ok a → FailsIn P (f a)) : FailsIn P (x >>= f) := by
  cases x with
  | error e =>
      intro e' herror
      obtain rfl := Except.error.inj herror
      exact hx e rfl
  | ok a => exact hf a rfl

theorem ite {p : Prop} [Decidable p] {x y : Except ε α} (hx : p → FailsIn P x) (hy : ¬ p → FailsIn P y) :
    FailsIn P (if p then x else y) := by
  split
  · exact hx ‹_›
  · exact hy ‹_›

theorem mapError_of {δ : Type} {R : δ → Prop} {x : Except δ α} {f : δ → ε} (hx : FailsIn R x)
    (hf : ∀ e, R e → P (f e)) : FailsIn P (x.mapError f) := by
  cases x with
  | error e => exact error (hf e (hx e rfl))
  | ok a => exact ok a

theorem mapError {δ : Type} {x : Except δ α} {f : δ → ε} (hf : ∀ e, P (f e)) :
    FailsIn P (x.mapError f) := mapError_of (R := fun _ => True) (fun _ _ => trivial) fun e _ => hf e

/-- What a guard let through. -/
theorem ok_of_guard {p : Prop} [Decidable p] {e : ε} {x : Except ε α} {a : α}
    (h : (if p then .error e else x) = .ok a) : ¬ p ∧ x = .ok a := by
  split at h
  · cases h
  · exact ⟨‹_›, h⟩

end FailsIn

/-- Every value the computation ends with satisfies a property. -/
def Gives {ε α : Type} (Q : α → Prop) (x : Except ε α) : Prop := ∀ a, x = .ok a → Q a

namespace Gives

variable {ε α β : Type} {Q : α → Prop}

theorem ok {a : α} (hgives : Q a) : Gives Q (.ok a : Except ε α) := by
  intro a' hok
  obtain rfl := Except.ok.inj hok
  exact hgives

theorem error (e : ε) : Gives Q (.error e : Except ε α) := by
  intro a hok
  cases hok

theorem bind {x : Except ε β} {f : β → Except ε α} (hf : ∀ b, x = .ok b → Gives Q (f b)) :
    Gives Q (x >>= f) := by
  cases x with
  | error e => exact error e
  | ok b => exact hf b rfl

/-- What a computation that succeeds did first has succeeded. -/
theorem exists_of_bind {x : Except ε β} {f : β → Except ε α} {a : α} (h : x >>= f = .ok a) :
    ∃ b, x = .ok b ∧ f b = .ok a := by
  cases x with
  | error e => cases h
  | ok b => exact ⟨b, rfl, h⟩

theorem ite {p : Prop} [Decidable p] {x y : Except ε α} (hx : p → Gives Q x) (hy : ¬ p → Gives Q y) :
    Gives Q (if p then x else y) := by
  split
  · exact hx ‹_›
  · exact hy ‹_›

end Gives
