import Mathlib.Data.List.DropRight
import Mathlib.Algebra.BigOperators.Group.List.Basic
import Mathlib.Tactic.Linarith

/-!
# The newest entries that reach a total

A log is a list, oldest entry first, and each entry has a weight. `newest weight target bound log` is
the shortest suffix of the log whose weights total at least `target`, or the whole log when they total
less, cut to its last `bound` entries. Everything a sliding window needs of it follows from one fact:
`newest` reads no further back than a suffix that already decides it (`newest_of_decides`).
-/

namespace Suffix

variable {α : Type*} (weight : α → Nat)

/-- The total weight of a log. -/
def total (log : List α) : Nat := (log.map weight).sum

@[simp] theorem total_nil : total weight [] = 0 := rfl

@[simp] theorem total_cons (a : α) (log : List α) :
    total weight (a :: log) = weight a + total weight log := by
  simp [total]

@[simp] theorem total_append (log more : List α) :
    total weight (log ++ more) = total weight log + total weight more := by
  simp [total]

@[simp] theorem total_reverse (log : List α) : total weight log.reverse = total weight log := by
  simp [total, List.map_reverse]

/-- The entries a walk from the newest one visits, newest first, until their weights reach `target`. -/
def walk : Nat → List α → List α
  | _, [] => []
  | target, a :: older => if target = 0 then [] else a :: walk (target - weight a) older

/-- The shortest suffix that totals at least `target`, or the whole log, cut to its last `bound`. -/
def newest (target bound : Nat) (log : List α) : List α :=
  ((walk weight target log.reverse).take bound).reverse

@[simp] theorem walk_zero (log : List α) : walk weight 0 log = [] := by
  cases log <;> simp [walk]

theorem walk_cons_pos {target : Nat} (htarget : 0 < target) (a : α) (older : List α) :
    walk weight target (a :: older) = a :: walk weight (target - weight a) older := by
  simp [walk, htarget.ne']

theorem walk_initial (target : Nat) (log : List α) : walk weight target log <+: log := by
  induction log generalizing target with
  | nil => simp [walk]
  | cons a older ih =>
      rcases Nat.eq_zero_or_pos target with rfl | htarget
      · simp
      · rw [walk_cons_pos weight htarget]
        exact List.prefix_cons_inj a |>.mpr (ih _)

/-- A walk past entries that total the target stops before what is older. -/
theorem walk_append_of_le_total {target : Nat} {log : List α} (h : target ≤ total weight log)
    (older : List α) : walk weight target (log ++ older) = walk weight target log := by
  induction log generalizing target with
  | nil =>
      have : target = 0 := by simpa using h
      simp [this]
  | cons a log ih =>
      rcases Nat.eq_zero_or_pos target with rfl | htarget
      · simp
      · rw [List.cons_append, walk_cons_pos weight htarget, walk_cons_pos weight htarget]
        rw [ih (by rw [total_cons] at h; omega)]

/-- The first `bound` entries of a walk depend on the first `bound` entries of the log. -/
theorem take_walk_append_of_le_length {bound : Nat} {log : List α} (h : bound ≤ log.length)
    (target : Nat) (older : List α) :
    (walk weight target (log ++ older)).take bound = (walk weight target log).take bound := by
  induction log generalizing target bound with
  | nil =>
      have : bound = 0 := by simpa using h
      simp [this]
  | cons a log ih =>
      rcases Nat.eq_zero_or_pos target with rfl | htarget
      · simp
      · rw [List.cons_append, walk_cons_pos weight htarget, walk_cons_pos weight htarget]
        cases bound with
        | zero => simp
        | succ bound =>
            rw [List.take_succ_cons, List.take_succ_cons]
            rw [ih (by simpa using h)]

/-- Whether a suffix is enough to know `newest` of any log it ends: it reaches the target, or it
reaches the bound. -/
def Decides (target bound : Nat) (log : List α) : Prop :=
  target ≤ total weight log ∨ bound ≤ log.length

theorem newest_append_of_decides {target bound : Nat} {log : List α}
    (h : Decides weight target bound log) (older : List α) :
    newest weight target bound (older ++ log) = newest weight target bound log := by
  unfold newest
  rw [List.reverse_append]
  rcases h with h | h
  · rw [walk_append_of_le_total weight (by simpa using h)]
  · rw [take_walk_append_of_le_length weight (by simpa using h)]

/-- **A deciding suffix decides.** The newest entries of a log are those of any suffix that is the
whole log or that reaches the target or the bound. -/
theorem newest_of_decides {target bound : Nat} {older log : List α}
    (h : older = [] ∨ Decides weight target bound log) :
    newest weight target bound (older ++ log) = newest weight target bound log := by
  rcases h with rfl | h
  · rfl
  · exact newest_append_of_decides weight h older

theorem newest_suffix (target bound : Nat) (log : List α) :
    newest weight target bound log <:+ log := by
  have h : (walk weight target log.reverse).take bound <+: log.reverse :=
    (List.take_prefix _ _).trans (walk_initial weight _ _)
  rw [newest, ← List.reverse_prefix, List.reverse_reverse]
  exact h

/-- A walk that leaves something behind has reached its target. -/
theorem le_total_walk {target : Nat} {log : List α} (h : walk weight target log ≠ log) :
    target ≤ total weight (walk weight target log) := by
  induction log generalizing target with
  | nil => simp [walk] at h
  | cons a older ih =>
      rcases Nat.eq_zero_or_pos target with rfl | htarget
      · simp
      · rw [walk_cons_pos weight htarget] at h ⊢
        have hrest : walk weight (target - weight a) older ≠ older := by
          intro heq
          rw [heq] at h
          exact h rfl
        have := ih hrest
        rw [total_cons]
        omega

/-- **The newest entries decide.** They are the whole log, or they reach the target or the bound. -/
theorem newest_decides (target bound : Nat) (log : List α) :
    newest weight target bound log = log ∨
      Decides weight target bound (newest weight target bound log) := by
  by_cases hall : walk weight target log.reverse = log.reverse
  · by_cases hbound : log.length ≤ bound
    · left
      rw [newest, hall, List.take_of_length_le (by simpa using hbound), List.reverse_reverse]
    · right; right
      rw [newest, hall]
      simp only [List.length_reverse, List.length_take]
      omega
  · right
    by_cases hbound : (walk weight target log.reverse).length ≤ bound
    · left
      rw [newest, List.take_of_length_le hbound, total_reverse]
      exact le_total_walk weight hall
    · right
      simp only [newest, List.length_reverse, List.length_take]
      omega

/-- The newest entries of a log that grows are found from the newest entries it had. -/
theorem newest_newest_append {target target' bound : Nat} (htarget : target' ≤ target)
    (log more : List α) :
    newest weight target' bound (newest weight target bound log ++ more) =
      newest weight target' bound (log ++ more) := by
  obtain ⟨older, holder⟩ := newest_suffix weight target bound log
  have hdecides : older = [] ∨
      Decides weight target' bound (newest weight target bound log ++ more) := by
    rcases newest_decides weight target bound log with hall | hreach | hbound
    · left
      rw [hall] at holder
      simpa using holder
    · right; left
      rw [total_append]
      omega
    · right; right
      rw [List.length_append]
      omega
  conv_rhs => rw [← holder, List.append_assoc]
  rw [newest_of_decides weight hdecides]

theorem newest_newest {target target' bound : Nat} (htarget : target' ≤ target) (log : List α) :
    newest weight target' bound (newest weight target bound log) =
      newest weight target' bound log := by
  have h : newest weight target' bound (newest weight target bound log ++ []) =
      newest weight target' bound (log ++ []) := newest_newest_append weight htarget log []
  simpa using h

/-- Removing older entries than the newest ones changes nothing, as long as as many are kept. -/
theorem newest_of_length_le {target bound : Nat} {older log : List α}
    (h : (newest weight target bound (older ++ log)).length ≤ log.length) :
    newest weight target bound (older ++ log) = newest weight target bound log := by
  apply newest_of_decides
  have hsuffix : newest weight target bound (older ++ log) <:+ log :=
    List.suffix_of_suffix_length_le (newest_suffix weight _ _ _) (List.suffix_append _ _) h
  rcases newest_decides weight target bound (older ++ log) with hall | hreach | hbound
  · left
    rw [hall] at h
    have : older.length = 0 := by rw [List.length_append] at h; omega
    exact List.length_eq_zero_iff.mp this
  · right; left
    obtain ⟨rest, hrest⟩ := hsuffix
    rw [← hrest, total_append]
    omega
  · right; right
    omega

/-- A log no suffix of which reaches the target needs all of it. -/
theorem walk_eq_self {target : Nat} {log : List α} (h : ∀ a older, log = older ++ [a] →
    total weight older < target) : walk weight target log = log := by
  induction log generalizing target with
  | nil => rfl
  | cons a older ih =>
      have htarget : 0 < target := by
        rcases List.eq_nil_or_concat older with rfl | ⟨front, b, rfl⟩
        · have := h a [] rfl
          omega
        · have := h b (a :: front) (by simp)
          omega
      rw [walk_cons_pos weight htarget, ih]
      intro b front hfront
      have := h b (a :: front) (by simp [hfront])
      rw [total_cons] at this
      omega

/-- A log that falls short of the target without its oldest entry keeps all of it, up to the bound. -/
theorem newest_eq_rtake {target bound : Nat} {log : List α}
    (h : ∀ a rest, log = a :: rest → total weight rest < target) :
    newest weight target bound log = log.rtake bound := by
  rw [newest, walk_eq_self weight, List.rtake_eq_reverse_take_reverse]
  intro a older hlog
  have hrev : log = a :: older.reverse := by
    have := congrArg List.reverse hlog
    simpa using this
  simpa using h a older.reverse hrev

end Suffix
