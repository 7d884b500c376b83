import Mathlib.Logic.Basic
import Mathlib.Data.List.Basic

/-!
# Programs that call their environment

A program ends with a value or makes a call and goes on with the answer, whatever it is. A monitor
follows the calls of a program: it may assume something of an answer, and may require something of a
call. A program meets a monitor when every call it makes is one the monitor requires, as long as the
answers are ones the monitor allows.
-/

inductive Prog (Op : Type) (Answer : Op → Type) (α : Type)
  | done (value : α)
  | call (op : Op) (next : Answer op → Prog Op Answer α)

/-- A call that was answered. -/
abbrev Called (Op : Type) (Answer : Op → Type) := (op : Op) × Answer op

structure Monitor (Op : Type) (Answer : Op → Type) (G : Type) where
  allows : G → Called Op Answer → Prop
  requires : G → Op → Prop
  after : G → Called Op Answer → G

namespace Monitor

variable {Op : Type} {Answer : Op → Type} {G : Type} (M : Monitor Op Answer G)

/-- The monitor's state after a trace of calls. -/
def state (g : G) (trace : List (Called Op Answer)) : G := trace.foldl M.after g

/-- The monitor allows every answer of a trace. -/
def Allowed : G → List (Called Op Answer) → Prop
  | _, [] => True
  | g, called :: trace => M.allows g called ∧ Allowed (M.after g called) trace

theorem state_append (g : G) (trace trace' : List (Called Op Answer)) :
    M.state g (trace ++ trace') = M.state (M.state g trace) trace' := List.foldl_append

/-- What a call brings about, and every call keeps, holds after a trace with that call in it. -/
theorem state_of_mem {P : G → Prop} {called : Called Op Answer} {trace : List (Called Op Answer)}
    (hbrings : ∀ g, P (M.after g called)) (hkeeps : ∀ g called, P g → P (M.after g called))
    (hmem : called ∈ trace) (g : G) : P (M.state g trace) := by
  have hrest : ∀ (trace : List (Called Op Answer)) (g : G), P g → P (M.state g trace) := by
    intro trace
    induction trace with
    | nil => exact fun _ hg => hg
    | cons called trace ih => exact fun g hg => ih _ (hkeeps g called hg)
  induction trace generalizing g with
  | nil => cases hmem
  | cons other trace ih =>
      obtain rfl | hmem := List.mem_cons.mp hmem
      · exact hrest trace _ (hbrings g)
      · exact ih hmem _

theorem allowed_append {g : G} {trace trace' : List (Called Op Answer)} :
    M.Allowed g (trace ++ trace') ↔ M.Allowed g trace ∧ M.Allowed (M.state g trace) trace' := by
  induction trace generalizing g with
  | nil => simp [Allowed, state]
  | cons called trace ih =>
      rw [List.cons_append, Allowed, Allowed, ih, and_assoc]
      rfl

theorem allowed_of_allows (hallows : ∀ g called, M.allows g called) {g : G} {trace : List (Called Op Answer)} :
    M.Allowed g trace := by
  induction trace generalizing g with
  | nil => trivial
  | cons called trace ih => exact ⟨hallows g called, ih⟩

end Monitor

namespace Prog

variable {Op : Type} {Answer : Op → Type} {α β G : Type}

def bind : Prog Op Answer α → (α → Prog Op Answer β) → Prog Op Answer β
  | .done value, f => f value
  | .call op next, f => .call op fun answer => (next answer).bind f

/-- The calls a program made up to where it goes on as another. -/
inductive Path : Prog Op Answer α → List (Called Op Answer) → Prog Op Answer α → Prop
  | start {p : Prog Op Answer α} : Path p [] p
  | next {p : Prog Op Answer α} {trace : List (Called Op Answer)} {op : Op}
      {next : Answer op → Prog Op Answer α} (hpath : Path p trace (.call op next))
      (answer : Answer op) : Path p (trace ++ [⟨op, answer⟩]) (next answer)

/-- The program meets the monitor and ends as the postcondition says. -/
def Meets (M : Monitor Op Answer G) (post : α → G → Prop) : Prog Op Answer α → G → Prop
  | .done value, g => post value g
  | .call op next, g =>
      M.requires g op ∧ ∀ answer, M.allows g ⟨op, answer⟩ →
        (next answer).Meets M post (M.after g ⟨op, answer⟩)

variable {M : Monitor Op Answer G} {post : α → G → Prop}

theorem Meets.mono {post' : α → G → Prop} {p : Prog Op Answer α} {g : G} (h : p.Meets M post g)
    (himp : ∀ value g, post value g → post' value g) : p.Meets M post' g := by
  induction p generalizing g with
  | done value => exact himp value g h
  | call op next ih => exact ⟨h.1, fun answer hallows => ih answer (h.2 answer hallows)⟩

/-- A program that meets a monitor meets one that requires less and assumes no less, their states followed
beside each other. -/
theorem Meets.simulate {G' : Type} {M' : Monitor Op Answer G'} {post' : α → G' → Prop} (R : G → G' → Prop)
    (hrequires : ∀ g g' op, R g g' → M.requires g op → M'.requires g' op)
    (hafter : ∀ g g' called, R g g' → M.requires g called.1 → M'.allows g' called →
      M.allows g called ∧ R (M.after g called) (M'.after g' called))
    (hpost : ∀ value g g', R g g' → post value g → post' value g')
    {p : Prog Op Answer α} {g : G} {g' : G'} (h : p.Meets M post g) (hR : R g g') : p.Meets M' post' g' := by
  induction p generalizing g g' with
  | done value => exact hpost value g g' hR h
  | call op next ih =>
      refine ⟨hrequires g g' op hR h.1, fun answer hallows => ?_⟩
      obtain ⟨hallowed, hnext⟩ := hafter g g' ⟨op, answer⟩ hR h.1 hallows
      exact ih answer (h.2 answer hallowed) hnext

theorem meets_bind {post : β → G → Prop} {p : Prog Op Answer α} {f : α → Prog Op Answer β} {g : G} :
    (p.bind f).Meets M post g ↔ p.Meets M (fun value g => (f value).Meets M post g) g := by
  induction p generalizing g with
  | done value => rfl
  | call op next ih =>
      apply and_congr_right
      intro _
      apply forall_congr'
      intro answer
      apply imp_congr_right
      intro _
      exact ih answer

/-- Where a program that meets a monitor has come to, it still does. -/
theorem Meets.path {p q : Prog Op Answer α} {trace : List (Called Op Answer)} {g : G}
    (h : p.Meets M post g) (hpath : Path p trace q) (hallowed : M.Allowed g trace) :
    q.Meets M post (M.state g trace) := by
  induction hpath with
  | start => exact h
  | next _ answer ih =>
      rw [M.allowed_append] at hallowed
      rw [M.state_append]
      exact (ih hallowed.1).2 answer hallowed.2.1

/-- A call made is one the monitor requires. -/
theorem Meets.requires {p : Prog Op Answer α} {trace : List (Called Op Answer)} {op : Op}
    {next : Answer op → Prog Op Answer α} {g : G} (h : p.Meets M post g)
    (hpath : Path p trace (.call op next)) (hallowed : M.Allowed g trace) :
    M.requires (M.state g trace) op := (h.path hpath hallowed).1

end Prog
