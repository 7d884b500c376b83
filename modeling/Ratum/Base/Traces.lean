import Ratum.Base.Lts

/-!
# What a trace owes

An event may ask for another one. A trace owes the answer while the last event that asks has not been
followed by one, and it answers in time when no event of a third kind comes while the answer is owed.
-/

namespace Traces

variable {ι : Type*}

/-- An event of the trace asks and no answer has followed it. -/
def Owes (asks answers : ι → Prop) (trace : List ι) : Prop :=
  ∃ earlier event later, trace = earlier ++ event :: later ∧ asks event ∧ ∀ e ∈ later, ¬ answers e

/-- Between an event that asks and a later `due` event there is an answer. -/
def AnswersBefore (asks answers due : ι → Prop) (trace : List ι) : Prop :=
  ∀ earlier event between last later,
    trace = earlier ++ event :: (between ++ last :: later) → asks event → due last →
      ∃ e ∈ between, answers e

variable {asks answers due : ι → Prop}

theorem not_owes_nil : ¬ Owes asks answers [] := by
  intro ⟨earlier, event, later, heq, _⟩
  simp at heq

theorem owes_append {trace : List ι} {i : ι} (howes : Owes asks answers (trace ++ [i])) :
    asks i ∨ Owes asks answers trace ∧ ¬ answers i := by
  obtain ⟨earlier, event, later, heq, hasks, hlater⟩ := howes
  obtain rfl | ⟨later', last, rfl⟩ := later.eq_nil_or_concat
  · have hlast := List.append_inj_right' heq rfl
    rw [List.singleton_inj.mp hlast]
    exact .inl hasks
  · simp only [List.concat_eq_append] at heq hlater
    rw [← List.cons_append, ← List.append_assoc] at heq
    obtain ⟨htrace, hlast⟩ := List.append_inj' heq rfl
    obtain rfl := List.singleton_inj.mp hlast
    refine .inr ⟨⟨earlier, event, later', htrace, hasks, ?_⟩, hlater i (by simp)⟩
    intro e he
    exact hlater e (by simp [he])

theorem answersBefore_nil : AnswersBefore asks answers due [] := by
  intro earlier event between last later heq
  simp at heq

theorem AnswersBefore.append {trace : List ι} {i : ι} (h : AnswersBefore asks answers due trace)
    (hdue : due i → ¬ Owes asks answers trace) : AnswersBefore asks answers due (trace ++ [i]) := by
  intro earlier event between last later heq hasks hlast
  obtain rfl | ⟨later', final, rfl⟩ := later.eq_nil_or_concat
  · have hsplit : trace ++ [i] = (earlier ++ event :: between) ++ [last] := by
      simp [heq]
    obtain ⟨htrace, hi⟩ := List.append_inj' hsplit rfl
    obtain rfl := List.singleton_inj.mp hi
    refine Classical.byContradiction fun hnone =>
      hdue hlast ⟨earlier, event, between, htrace, hasks, ?_⟩
    intro e he hanswers
    exact hnone ⟨e, he, hanswers⟩
  · have hsplit : trace ++ [i] = (earlier ++ event :: (between ++ last :: later')) ++ [final] := by
      simp [heq]
    exact h earlier event between last later' (List.append_inj' hsplit rfl).1 hasks hlast

theorem not_answersBefore {earlier between : List ι} {event last : ι} (hasks : asks event)
    (hdue : due last) (hnone : ∀ e ∈ between, ¬ answers e) :
    ¬ AnswersBefore asks answers due (earlier ++ event :: (between ++ [last])) := by
  intro hbefore
  obtain ⟨e, he, hanswers⟩ := hbefore earlier event between last [] rfl hasks hdue
  exact hnone e he hanswers

end Traces

namespace Lts

variable {σ ι : Type*} {S : Lts σ ι}

/-- A sequence of steps that a function takes is a run. -/
theorem exists_run_of_exec (exec : σ → ι → Option σ) (first : σ)
    (hexec : ∀ {s i s'}, exec s i = some s' → S.step s i s') (hinit : S.init first)
    {trace : List ι} (htaken : (trace.foldlM exec first).isSome) : ∃ s, S.Run trace s := by
  have hruns : ∀ {later earlier : List ι} {s : σ}, S.Run earlier s → (later.foldlM exec s).isSome →
      ∃ s', S.Run (earlier ++ later) s' := by
    intro later
    induction later with
    | nil =>
        intro earlier s hrun _
        exact ⟨s, by rwa [List.append_nil]⟩
    | cons i later ih =>
        intro earlier s hrun htaken
        rw [List.foldlM_cons] at htaken
        cases hstep : exec s i with
        | none => simp [hstep] at htaken
        | some s' =>
            rw [hstep] at htaken
            obtain ⟨last, hlast⟩ := ih (hrun.next (hexec hstep)) htaken
            exact ⟨last, by rwa [List.append_assoc] at hlast⟩
  exact hruns (.start hinit) htaken

variable {asks answers due : ι → Prop}

/-- A system answers in time when a step that asks leads to a debt, a debt lasts until the answer, and no
due step is taken in debt. -/
theorem Run.answersBefore {reachable : σ → Prop} (debt : σ → Prop)
    (hreachable : ∀ {trace s}, S.Run trace s → reachable s)
    (hasks : ∀ {s i s'}, reachable s → S.step s i s' → asks i → debt s')
    (hkept : ∀ {s i s'}, reachable s → S.step s i s' → debt s → answers i ∨ debt s')
    (hdue : ∀ {s i s'}, reachable s → S.step s i s' → due i → ¬ debt s)
    {trace : List ι} {s : σ} (hrun : S.Run trace s) :
    Traces.AnswersBefore asks answers due trace := by
  have hboth : Traces.AnswersBefore asks answers due trace ∧
      (Traces.Owes asks answers trace → debt s) := by
    induction hrun with
    | start hs => exact ⟨Traces.answersBefore_nil, fun h => absurd h Traces.not_owes_nil⟩
    | next hrun hstep ih =>
        obtain ⟨hbefore, howes⟩ := ih
        refine ⟨hbefore.append fun hlast h => hdue (hreachable hrun) hstep hlast (howes h), ?_⟩
        intro h
        obtain hi | ⟨hpast, hopen⟩ := Traces.owes_append h
        · exact hasks (hreachable hrun) hstep hi
        · exact (hkept (hreachable hrun) hstep (howes hpast)).resolve_left hopen
  exact hboth.1

end Lts
