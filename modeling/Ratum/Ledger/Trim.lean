import Ratum.Ledger.ContentsHolds

/-!
# Trimming keeps the newest shares

Trimming a compact window that holds a log leaves the newest shares of the log whose work reaches the
window, cut to the count bound; a window read share by share, trimmed after each, holds the newest
shares of everything read.
-/

namespace Ratum

/-- Every share of a log is worth something, so no share of no work stands at its oldest end. -/
def Worked (log : List Share) : Prop := ∀ share ∈ log, 0 < share.work

theorem worked_nil : Worked [] := fun _ hshare => by cases hshare

theorem worked_singleton {share : Share} (h : 0 < share.work) : Worked [share] := by
  intro s hs
  rw [List.mem_singleton.mp hs]
  exact h

theorem Worked.append {log more : List Share} (hlog : Worked log) (hmore : Worked more) :
    Worked (log ++ more) := by
  intro share hshare
  rcases List.mem_append.mp hshare with h | h
  · exact hlog share h
  · exact hmore share h

theorem Worked.of_suffix {log log' : List Share} (h : Worked log) (hsuffix : log' <:+ log) :
    Worked log' := fun share hshare => h share (hsuffix.subset hshare)

theorem Worked.newest {log : List Share} (h : Worked log) (window maxShares : Nat) :
    Worked (Suffix.newest Share.work window maxShares log) :=
  h.of_suffix (Suffix.newest_suffix _ _ _ _)

/-- A log with no share the newest ones can do without. -/
def Tight (window : Nat) (log : List Share) : Prop :=
  ∀ share rest, log = share :: rest → Suffix.total Share.work rest < window

theorem tight_nil (window : Nat) : Tight window [] := fun _ _ hnil => by cases hnil

namespace Contents

variable {c : Contents} {log : List Share} {window maxShares : Nat}

theorem Holds.oldest_work {share : Share} {rest : List Share} (h : c.Holds (share :: rest)) :
    ∃ w ws, c.shares = w :: ws ∧ w.work = share.work ∧ ws.length = rest.length := by
  obtain ⟨w, ws, hnames, hrest, hshares⟩ := List.forall₂_cons_right_iff.mp h.shares
  refine ⟨w, ws, hshares, ?_, hrest.length_eq⟩
  rw [WindowShare.work, Share.work, hnames.difficulty]

/-- The first loop drops the oldest shares until the log is tight. -/
theorem trimWork_holds (hwindow : 0 < window) (h : c.Holds log) (hworked : Worked log)
    {turns : Nat} (hturns : log.length ≤ turns) :
    ∃ older tight, log = older ++ tight ∧ (trimWork window turns c).Holds tight ∧
      Tight window tight ∧ (older = [] ∨ window ≤ Suffix.total Share.work tight) := by
  induction turns generalizing c log with
  | zero =>
      have hnil : log = [] := List.length_eq_zero_iff.mp (by omega)
      subst hnil
      exact ⟨[], [], rfl, h, tight_nil window, .inl rfl⟩
  | succ turns ih =>
      cases log with
      | nil =>
          have hshares : c.shares = [] := List.length_eq_zero_iff.mp h.length
          refine ⟨[], [], rfl, ?_, tight_nil window, .inl rfl⟩
          simpa [trimWork, hshares] using h
      | cons share rest =>
          obtain ⟨w, ws, hshares, hwork, hlength⟩ := h.oldest_work
          have htotal : c.totalWork = share.work + Suffix.total Share.work rest := by
            rw [h.totalWork, Suffix.total_cons]
          have hpos : 0 < share.work := hworked share List.mem_cons_self
          -- The loop ends here unless the rest reaches the window on its own.
          have hstop (hstays : trimWork window (turns + 1) c = c)
              (hshort : Suffix.total Share.work rest < window) :
              ∃ older tight, share :: rest = older ++ tight ∧
                (trimWork window (turns + 1) c).Holds tight ∧ Tight window tight ∧
                (older = [] ∨ window ≤ Suffix.total Share.work tight) := by
            refine ⟨[], share :: rest, rfl, by rw [hstays]; exact h, ?_, .inl rfl⟩
            intro share' rest' heq
            cases heq
            exact hshort
          cases hws : ws with
          | nil =>
              have hrest : rest = [] := List.length_eq_zero_iff.mp (by rw [← hlength, hws]; rfl)
              refine hstop ?_ (by simpa [hrest] using hwindow)
              simp [trimWork, hshares, hws]
          | cons next ws' =>
              have hturn : trimWork window (turns + 1) c =
                  if c.totalWork ≤ window then c
                  else if c.totalWork - window < w.work then c
                  else trimWork window turns c.dropOldest := by
                simp [trimWork, hshares, hws]
              by_cases hreach : window ≤ Suffix.total Share.work rest
              · have hnext : trimWork window (turns + 1) c = trimWork window turns c.dropOldest := by
                  rw [hturn, if_neg (by omega), if_neg (by omega)]
                rw [hnext]
                obtain ⟨older, tight, heq, hholds, htight, hover⟩ :=
                  ih (dropOldest_holds h) (hworked.of_suffix (List.suffix_cons _ _))
                    (by simpa using hturns)
                refine ⟨share :: older, tight, by rw [heq]; rfl, hholds, htight, .inr ?_⟩
                rcases hover with rfl | hover
                · rw [← List.nil_append tight, ← heq]
                  exact hreach
                · exact hover
              · refine hstop ?_ (by omega)
                rw [hturn]
                split
                · rfl
                · rw [if_pos (by omega)]

/-- The second loop drops the shares past the count bound. -/
theorem trimCount_holds (h : c.Holds log) {turns : Nat} (hturns : log.length ≤ turns) :
    (trimCount maxShares turns c).Holds (log.rtake maxShares) := by
  induction turns generalizing c log with
  | zero =>
      have hnil : log = [] := List.length_eq_zero_iff.mp (by omega)
      subst hnil
      simpa [trimCount, List.rtake] using h
  | succ turns ih =>
      by_cases hlong : maxShares < c.shares.length
      · have hlog : maxShares < log.length := h.length ▸ hlong
        rw [trimCount, if_pos hlong]
        cases log with
        | nil => simp at hlog
        | cons share rest =>
            have hdrop : (share :: rest).rtake maxShares = rest.rtake maxShares := by
              rw [List.length_cons] at hlog
              rw [List.rtake, List.rtake, List.length_cons,
                show rest.length + 1 - maxShares = rest.length - maxShares + 1 by omega,
                List.drop_succ_cons]
            rw [hdrop]
            exact ih (dropOldest_holds h) (by simpa using hturns)
      · rw [trimCount, if_neg hlong, List.rtake, Nat.sub_eq_zero_of_le, List.drop_zero]
        · exact h
        · rw [← h.length]
          omega

/-- **Trimming keeps the newest shares that reach the window**, up to the count bound. -/
theorem trim_holds (hwindow : 0 < window) (maxShares : Nat) (h : c.Holds log)
    (hworked : Worked log) :
    (c.trim window maxShares).Holds (Suffix.newest Share.work window maxShares log) := by
  obtain ⟨older, tight, rfl, hholds, htight, hover⟩ :=
    trimWork_holds hwindow h hworked h.length.ge
  have hnewest : Suffix.newest Share.work window maxShares (older ++ tight) =
      tight.rtake maxShares := by
    rw [Suffix.newest_of_decides _ (hover.imp_right .inl), Suffix.newest_eq_rtake _ htight]
  rw [hnewest]
  exact trimCount_holds hholds hholds.length.ge

/-- Pushing a share onto a window and trimming it takes the newest shares of the log it stood for. -/
theorem push_trim_holds (hwindow : 0 < window) {log : List Share} {share : Share}
    (h : c.Holds (Suffix.newest Share.work window maxShares log)) (hlog : Worked log)
    (hshare : 0 < share.work) :
    ((c.push share).trim window maxShares).Holds
      (Suffix.newest Share.work window maxShares (log ++ [share])) := by
  rw [← Suffix.newest_newest_append Share.work le_rfl log [share]]
  refine trim_holds hwindow maxShares (push_holds h share) ?_
  exact (hlog.newest _ _).append (worked_singleton hshare)

/-- Recording shares one by one onto a window. -/
theorem foldl_push_trim_holds (hwindow : 0 < window) {more : List Share} {log : List Share}
    (h : c.Holds (Suffix.newest Share.work window maxShares log)) (hlog : Worked log)
    (hmore : Worked more) :
    (more.foldl (fun c share => (c.push share).trim window maxShares) c).Holds
      (Suffix.newest Share.work window maxShares (log ++ more)) := by
  induction more generalizing c log with
  | nil => simpa using h
  | cons share more ih =>
      have hshare : 0 < share.work := hmore share List.mem_cons_self
      rw [List.foldl_cons, List.append_cons]
      refine ih (push_trim_holds hwindow h hlog hshare) ?_ ?_
      · exact hlog.append (worked_singleton hshare)
      · exact fun s hs => hmore s (List.mem_cons_of_mem _ hs)

/-- A window that holds some log goes on to hold one. -/
theorem foldl_push_trim_held (hwindow : 0 < window) {more : List Share}
    (h : ∃ log, c.Holds log ∧ Worked log) (hmore : Worked more) :
    ∃ log, (more.foldl (fun c share => (c.push share).trim window maxShares) c).Holds log ∧
      Worked log := by
  induction more generalizing c with
  | nil => exact h
  | cons share more ih =>
      obtain ⟨log, hholds, hworked⟩ := h
      have hworked := hworked.append (worked_singleton (hmore share List.mem_cons_self))
      exact ih ⟨_, trim_holds hwindow _ (push_holds hholds share) hworked, hworked.newest _ _⟩
        fun s hs => hmore s (List.mem_cons_of_mem _ hs)

/-- **Reading a log share by share** gives a window of its newest shares. -/
theorem read_holds (hwindow : 0 < window) {log : List Share} (hlog : Worked log) :
    (read window maxShares log).Holds (Suffix.newest Share.work window maxShares log) := by
  have hempty : empty.Holds (Suffix.newest Share.work window maxShares []) := by
    simpa [Suffix.newest, Suffix.walk] using empty_holds
  exact foldl_push_trim_holds hwindow hempty worked_nil hlog

end Contents
end Ratum
