import Mathlib.Data.List.Induction

/-!
# Runs of a labelled transition system

A system has initial states and labelled steps. A run is the list of labels of the steps taken, with the
state it ends in; what holds at the start and is kept by every step holds at the end of every run.
-/

structure Lts (σ : Type*) (ι : Type*) where
  init : σ → Prop
  step : σ → ι → σ → Prop

namespace Lts

variable {σ ι : Type*} (S : Lts σ ι)

/-- The labels of a run, the last one at the end, and the state it ends in. -/
inductive Run : List ι → σ → Prop
  | start {s : σ} (hinit : S.init s) : Run [] s
  | next {trace : List ι} {s s' : σ} {i : ι} (hrun : Run trace s) (hstep : S.step s i s') :
      Run (trace ++ [i]) s'

/-- The system that takes only the steps a condition on the state and the label allows. -/
def restrict (allowed : σ → ι → Prop) : Lts σ ι where
  init := S.init
  step s i s' := allowed s i ∧ S.step s i s'

/-- The system that takes only the steps a condition on the label and the states before and after allows. -/
def constrain (allowed : σ → ι → σ → Prop) : Lts σ ι where
  init := S.init
  step s i s' := allowed s i s' ∧ S.step s i s'

variable {S}

/-- What holds of the initial states and is kept by every step holds at the end of every run. -/
theorem Run.invariant {I : List ι → σ → Prop} (hinit : ∀ s, S.init s → I [] s)
    (hstep : ∀ trace s i s', I trace s → S.step s i s' → I (trace ++ [i]) s')
    {trace : List ι} {s : σ} (hrun : S.Run trace s) : I trace s := by
  induction hrun with
  | start hs => exact hinit _ hs
  | next _ hnext ih => exact hstep _ _ _ _ ih hnext

/-- The step a label of a run stands for, and the run before it. -/
theorem Run.exists_step {before after : List ι} {i : ι} {s : σ} (hrun : S.Run (before ++ i :: after) s) :
    ∃ s₁ s₂, S.Run before s₁ ∧ S.step s₁ i s₂ := by
  generalize htrace : before ++ i :: after = trace at hrun
  induction hrun generalizing after with
  | start _ => simp at htrace
  | next hbefore hstep ih =>
      cases after using List.reverseRecOn with
      | nil =>
          obtain ⟨rfl, heq⟩ := List.append_inj' htrace rfl
          cases heq
          exact ⟨_, _, hbefore, hstep⟩
      | append_singleton after last _ =>
          rw [← List.cons_append, ← List.append_assoc] at htrace
          exact ih (List.append_inj' htrace rfl).1

theorem Run.next_allowed {allowed : σ → ι → Prop} {trace : List ι} {s s' : σ} {i : ι}
    (hrun : (S.restrict allowed).Run trace s) (hstep : S.step s i s') (hallowed : allowed s i) :
    (S.restrict allowed).Run (trace ++ [i]) s' := .next hrun ⟨hallowed, hstep⟩

/-- A run of a restricted system is one of a system restricted less. -/
theorem Run.mono {allowed allowed' : σ → ι → Prop} {trace : List ι} {s : σ}
    (hrun : (S.restrict allowed).Run trace s) (himp : ∀ s i, allowed s i → allowed' s i) :
    (S.restrict allowed').Run trace s := by
  induction hrun with
  | start hs => exact .start hs
  | next _ hnext ih => exact .next ih ⟨himp _ _ hnext.1, hnext.2⟩

/-- A run of a restricted system is a run of the system. -/
theorem Run.of_restrict {allowed : σ → ι → Prop} {trace : List ι} {s : σ}
    (hrun : (S.restrict allowed).Run trace s) : S.Run trace s := by
  induction hrun with
  | start hs => exact .start hs
  | next _ hnext ih => exact .next ih hnext.2

end Lts
