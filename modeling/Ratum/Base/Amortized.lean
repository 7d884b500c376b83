import Ratum.Base.Lts

/-!
# Amortised bounds on runs

A potential of the states pays for what the steps cost: where each step costs at most what it takes off the
potential and what it is granted, a stretch of a run costs at most the potential it starts with and what its
steps are granted.
-/

variable {σ ι : Type*}

/-- A measure of labels in a row that adds up. -/
structure AddsUp (measure : List ι → Nat) : Prop where
  nil : measure [] = 0
  append : ∀ labels labels', measure (labels ++ labels') = measure labels + measure labels'

theorem AddsUp.length : AddsUp (List.length : List ι → Nat) := ⟨rfl, fun _ _ => List.length_append⟩

theorem AddsUp.countP (p : ι → Bool) : AddsUp (List.countP p) := ⟨rfl, fun _ _ => List.countP_append⟩

theorem AddsUp.zero : AddsUp fun _ : List ι => 0 := ⟨rfl, fun _ _ => rfl⟩

theorem AddsUp.const_mul {measure : List ι → Nat} (h : AddsUp measure) (n : Nat) :
    AddsUp fun labels => n * measure labels :=
  ⟨by rw [h.nil, Nat.mul_zero], fun labels labels' => by rw [h.append, Nat.mul_add]⟩

namespace Lts

variable {S : Lts σ ι}

theorem Run.of_append_singleton {trace : List ι} {i : ι} {s' : σ} (hrun : S.Run (trace ++ [i]) s') :
    ∃ s, S.Run trace s ∧ S.step s i s' := by
  generalize htrace : trace ++ [i] = labels at hrun
  cases hrun with
  | start _ => simp at htrace
  | next hbefore hstep =>
      obtain ⟨rfl, heq⟩ := List.append_inj' htrace rfl
      cases heq
      exact ⟨_, hbefore, hstep⟩

/-- **The amortised bound.** -/
theorem Run.amortized {cost grant : List ι → Nat} (hcost : AddsUp cost) (hgrant : AddsUp grant)
    (potential : σ → Nat) {before block : List ι} {s : σ} (hrun : S.Run (before ++ block) s)
    (hstep : ∀ trace s i s', S.Run trace s → i ∈ block → S.step s i s' →
      cost [i] + potential s' ≤ potential s + grant [i]) :
    ∃ s₀, S.Run before s₀ ∧ cost block + potential s ≤ potential s₀ + grant block := by
  induction block using List.reverseRecOn generalizing s with
  | nil =>
      rw [List.append_nil] at hrun
      refine ⟨s, hrun, ?_⟩
      rw [hcost.nil, hgrant.nil]
      omega
  | append_singleton block i ih =>
      rw [← List.append_assoc] at hrun
      obtain ⟨s₁, hrun₁, hlast⟩ := hrun.of_append_singleton
      obtain ⟨s₀, hrun₀, hle⟩ := ih hrun₁ fun trace s j s' hr hj => hstep trace s j s' hr (by simp [hj])
      have hnext := hstep _ _ _ _ hrun₁ (by simp) hlast
      refine ⟨s₀, hrun₀, ?_⟩
      rw [hcost.append, hgrant.append]
      omega

end Lts
