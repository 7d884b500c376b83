import Ratum.Base.Lts
import Ratum.Ledger.Basic
import Ratum.Ledger.ReadWindow
import Ratum.Ledger.Trim

/-!
# The window over runs of the ledger

Shares are recorded, the window resized, re-reads begun, read off the lock and installed, and the pool
stopped and started again, in any order and with any call to the database failing. Whenever no re-read
is due, the window holds the newest stored rows that reach it.
-/

namespace Ratum

variable {F : Type}

namespace Ledger

/-! ### What leaves the rest of the ledger alone -/

theorem trim_eq (l : Ledger F) :
    ∃ capped, l.trim = { l with
      contents := l.contents.trim l.window l.maxShares
      countCapped := capped } := ⟨_, rfl⟩

theorem foldl_pushShare_eq (l : Ledger F) (shares : List Share) :
    ∃ capped, shares.foldl pushShare l = { l with
      contents := shares.foldl (fun c share => (c.push share).trim l.window l.maxShares) l.contents
      countCapped := capped } := by
  induction shares generalizing l with
  | nil => exact ⟨l.countCapped, rfl⟩
  | cons share shares ih =>
      obtain ⟨capped, hpush⟩ := ih (l.pushShare share)
      exact ⟨capped, by rw [List.foldl_cons, hpush]; rfl⟩

/-! ### The invariant -/

/-- The ledger stands over its store: unless a re-read is due, its window holds the newest stored
shares that reach it. -/
structure Over (l : Ledger F) (s : Store) : Prop where
  store : l.store = some s
  sound : s.Sound
  window_pos : 0 < l.window
  window_le : l.window ≤ U128_MAX
  held : ∃ log, l.contents.Holds log ∧ Worked log
  due : l.recordedDuringReread.isSome → l.rereadDue = true
  current : l.rereadDue = false →
    l.contents.Holds (Suffix.newest Share.work l.window l.maxShares s.log)

variable {l l' : Ledger F} {s : Store}

theorem worked_log (h : s.Sound) : Worked s.log := h.committed_readable.worked

/-- Resizing the window keeps the newest shares of a narrower one, and leaves a re-read due for a
wider one. -/
theorem Over.setWindow (h : l.Over s) {window : Nat} (hwindow : window ≤ U128_MAX) :
    (l.setWindow window).2.Over s := by
  have hpos : 0 < max window 1 := by omega
  have hle : max window 1 ≤ U128_MAX := max_le hwindow (by decide)
  obtain ⟨log, hholds, hworked⟩ := h.held
  refine ⟨h.store, h.sound, hpos, hle, ?_, ?_, ?_⟩
  · exact ⟨_, Contents.trim_holds hpos _ hholds hworked, hworked.newest _ _⟩
  · intro hrunning
    simp [Ledger.setWindow, trim, h.due hrunning]
  · intro hdue
    have hdue : l.rereadDue = false ∧ max window 1 ≤ l.window := by
      simp only [Ledger.setWindow, trim, h.store, Option.isSome_some, Bool.and_true,
        Bool.or_eq_false_iff, decide_eq_false_iff_not] at hdue
      exact ⟨hdue.1, by omega⟩
    have hcurrent := h.current hdue.1
    have htrim := Contents.trim_holds hpos l.maxShares hcurrent
      ((worked_log h.sound).newest _ _)
    rw [Suffix.newest_newest Share.work hdue.2] at htrim
    exact htrim

theorem Over.setNetworkDifficulty (h : l.Over s) (networkDifficulty : F) :
    (l.setNetworkDifficulty networkDifficulty).2.Over s := by
  refine Over.setWindow (l := { l with networkDifficulty := some networkDifficulty }) ?_
    (l.windowRule.le_max _)
  exact ⟨h.store, h.sound, h.window_pos, h.window_le, h.held, h.due, h.current⟩

/-- Shares on disk are taken by the window in order. -/
theorem Over.pushShares (h : l.Over s) {shares : List Share} (hshares : Worked shares)
    {s' : Store} (hsound : s'.Sound) (hlog : s'.log = s.log ++ shares) :
    (shares.foldl pushShare { l with store := some s' }).Over s' := by
  obtain ⟨capped, hpush⟩ := foldl_pushShare_eq { l with store := some s' } shares
  rw [hpush]
  refine ⟨rfl, hsound, h.window_pos, h.window_le, ?_, h.due, ?_⟩
  · exact Contents.foldl_push_trim_held h.window_pos h.held hshares
  · intro hdue
    rw [hlog]
    exact Contents.foldl_push_trim_holds h.window_pos (h.current hdue) (worked_log h.sound) hshares

/-- What recording a batch does, besides keeping the invariant. -/
structure Recorded (l l' : Ledger F) (s s' : Store) (shares : List Share) : Prop where
  window : l'.window = l.window
  maxShares : l'.maxShares = l.maxShares
  durable : s'.db.durable.shares.log <:+ s.db.durable.shares.log ++ shares
  idle : l.recordedDuringReread = none → l'.recordedDuringReread = none
  running : ∀ recorded, l.recordedDuringReread = some recorded →
    l'.recordedDuringReread = some (recorded ++ shares) ∧ s'.log = s.log ++ shares

/-- Retention removes no row the window holds. -/
theorem Over.retention (h : l.Over s) (hidle : l.recordedDuringReread = none) (keepAfter : Nat)
    (read write : IoAnswer) :
    ∃ s', (l.retention keepAfter read write).2.Over s' ∧
      s'.db.durable = s.db.durable ∧
      (∃ store, (l.retention keepAfter read write).2 = { l with store := store }) := by
  unfold Ledger.retention
  simp only [h.store]
  cases hretain : s.retain l.len keepAfter MAX_ACCEPTED_HASHES read write with
  | error e => exact ⟨s, h, rfl, l.store, rfl⟩
  | ok retained =>
      obtain ⟨n, s'⟩ := retained
      obtain ⟨hsound, hdurable, -, -, hshares, hremovable⟩ := Store.retain_spec h.sound hretain
      refine ⟨s', ⟨rfl, hsound, h.window_pos, h.window_le, h.held, ?_, ?_⟩, hdurable, _, rfl⟩
      · intro hrunning
        rw [show l.recordedDuringReread = none from hidle] at hrunning
        cases hrunning
      · intro hdue
        have hcurrent := h.current hdue
        have hlog : s.log = ShareTable.log (s.db.committed.shares.take n) ++ s'.log := by
          rw [Store.log, Store.log, hshares, ← ShareTable.log_append, List.take_append_drop]
        have hlen : (Suffix.newest Share.work l.window l.maxShares s.log).length ≤ s'.log.length := by
          have hcount : s.log.length = s.db.committed.shares.length :=
            h.sound.committed_readable.length_log
          have hcount' : s'.log.length = s.db.committed.shares.length - n := by
            rw [← List.length_drop, ← hshares]
            exact hsound.committed_readable.length_log
          have hsuffix := (Suffix.newest_suffix Share.work l.window l.maxShares s.log).length_le
          have hheld : l.len = _ := hcurrent.length
          have hfloor := hremovable.floor
          omega
        rw [hlog] at hlen
        rw [hlog, Suffix.newest_of_length_le Share.work hlen] at hcurrent
        exact hcurrent

/-- **Recording a batch** keeps the invariant, and adds its shares to what a running re-read is owed. -/
theorem Over.recordBatch (h : l.Over s) {shares : List Share}
    (hshares : ∀ share ∈ shares, share.Recordable) {answers : RecordAnswers} {n : Nat}
    (hrecord : l.recordBatch shares answers = .ok (n, l')) :
    ∃ s', l'.Over s' ∧ Recorded l l' s s' shares := by
  unfold Ledger.recordBatch at hrecord
  split at hrecord
  · next hmax =>
    have hempty : shares = [] := by simpa using List.max?_eq_none_iff.mp hmax
    cases hrecord
    refine ⟨s, h, rfl, rfl, by simp [hempty], id, fun recorded hrunning => ?_⟩
    simp [hempty, hrunning]
  · next newest _ =>
    have hworked : Worked shares := fun share hshare => (hshares share hshare).work_pos
    simp only [Ledger.insertBatch, h.store] at hrecord
    cases hinsert : s.insertBatch shares
        (shares.foldl (fun work share => work + share.work) l.cumulativeWork) answers.insert with
    | error e =>
        rw [hinsert] at hrecord
        cases hrecord
    | ok s₁ =>
        obtain ⟨hsound, -, hrows, hlog⟩ := Store.insertBatch_spec h.sound hshares hinsert
        have hdurable : s₁.db.durable.shares.log <:+ s.db.durable.shares.log ++ shares := by
          have hsame : s₁.db.durable = s₁.db.committed := by
            cases hanswer : answers.insert with
            | error e => rw [hanswer] at hinsert; cases hinsert
            | ok _ => rw [hanswer] at hinsert; cases hinsert; rfl
          rw [hsame]
          obtain ⟨older, holder⟩ := h.sound.committed
          refine ⟨ShareTable.log older, ?_⟩
          change _ ++ s₁.log = _
          rw [hlog, ← List.append_assoc, Store.log, ← ShareTable.log_append, holder]
        rw [hinsert] at hrecord
        simp only [bind, Except.bind, pure, Except.pure] at hrecord
        have hcounted : Over { l with
            cumulativeWork := shares.foldl (fun work share => work + share.work) l.cumulativeWork }
            s := ⟨h.store, h.sound, h.window_pos, h.window_le, h.held, h.due, h.current⟩
        have hpushed := hcounted.pushShares hworked hsound hlog
        obtain ⟨capped, hpush⟩ := foldl_pushShare_eq { l with
          store := some s₁
          cumulativeWork := shares.foldl (fun work share => work + share.work) l.cumulativeWork }
          shares
        rw [hpush] at hrecord hpushed
        cases hrunning : l.recordedDuringReread with
        | some recorded =>
            simp only [hrunning] at hrecord
            cases hrecord
            refine ⟨s₁, ⟨hpushed.store, hsound, h.window_pos, h.window_le, hpushed.held, ?_,
              hpushed.current⟩, rfl, rfl, hdurable, ?_, ?_⟩
            · intro _
              exact h.due (by rw [hrunning]; rfl)
            · intro hidle
              rw [hrunning] at hidle
              cases hidle
            · intro recorded' hrecorded'
              rw [hrunning] at hrecorded'
              cases hrecorded'
              exact ⟨rfl, hlog⟩
        | none =>
            simp only [hrunning] at hrecord hpushed
            obtain ⟨s₂, hretained, hsame, store, hl⟩ := hpushed.retention rfl
              (newest - ACCEPTED_HASH_RETENTION_SECS) answers.retainRead answers.retainWrite
            have hl' := congrArg Prod.snd (Except.ok.inj hrecord)
            simp only at hl'
            rw [hl'] at hretained hl
            subst hl
            refine ⟨s₂, hretained, rfl, rfl, by rw [hsame]; exact hdurable, fun _ => rfl, ?_⟩
            intro recorded hrecorded
            rw [hrunning] at hrecorded
            cases hrecorded

/-! ### Re-reads -/

/-- A re-read's snapshot and the shares recorded since it make up the stored log. -/
structure Tracked (r : Reread) (l : Ledger F) (s : Store) (recorded : List Share) : Prop where
  ordered : r.snapshot.shares.Ordered
  readable : r.snapshot.shares.Readable
  window_pos : 0 < r.window
  window_le : r.window ≤ U128_MAX
  maxShares : r.maxShares = l.maxShares
  log : s.log = r.snapshot.shares.log ++ recorded

/-- A read that succeeds gives the newest shares of its snapshot. -/
theorem readContents_holds {snapshot : Tables} (hordered : snapshot.shares.Ordered)
    (hreadable : snapshot.shares.Readable) {window : Nat} (hpos : 0 < window)
    (hle : window ≤ U128_MAX) {maxShares : Nat} {answer : IoAnswer} {read : Contents × ReadBack}
    (hread : readContents snapshot window maxShares answer = .ok read) :
    read.1.Holds (Suffix.newest Share.work window maxShares snapshot.shares.log) := by
  cases answer with
  | error e => cases hread
  | ok _ =>
      cases hread
      obtain ⟨older, hlog, -⟩ := readWindow_spec hordered hreadable hle maxShares
      have hworked : Worked (readWindow snapshot.shares window maxShares).1 :=
        Worked.of_suffix hreadable.worked ⟨older, hlog.symm⟩
      rw [← newest_readWindow hordered hreadable hle maxShares]
      exact Contents.read_holds hpos hworked

theorem Over.beginReread (h : l.Over s) {answer : IoAnswer} {r : Reread}
    (hbegin : l.beginReread answer = (some r, l')) :
    l'.Over s ∧ l.recordedDuringReread = none ∧ l'.recordedDuringReread = some [] ∧
      Tracked r l' s [] := by
  unfold Ledger.beginReread at hbegin
  split at hbegin
  · cases hbegin
  · next hgo =>
    simp only [Bool.or_eq_true, Bool.not_eq_eq_eq_not, Bool.not_true, not_or, Bool.not_eq_false,
      Option.not_isSome_iff_eq_none] at hgo
    cases answer with
    | error e => simp [h.store, Store.beginRead, Database.beginRead, Except.map] at hbegin
    | ok _ =>
        simp only [h.store, Store.beginRead, Database.beginRead, Except.map, Prod.mk.injEq,
          Option.some.injEq] at hbegin
        obtain ⟨rfl, rfl⟩ := hbegin
        refine ⟨⟨rfl, h.sound, h.window_pos, h.window_le, h.held, fun _ => hgo.1, ?_⟩, hgo.2,
          rfl, ⟨h.sound.committed_ordered, h.sound.committed_readable, h.window_pos, h.window_le,
            rfl, ?_⟩⟩
        · exact h.current
        · simp [Store.log]

theorem beginReread_none {answer : IoAnswer} (hbegin : l.beginReread answer = (none, l')) :
    l' = l := by
  unfold Ledger.beginReread at hbegin
  split at hbegin
  · cases hbegin; rfl
  · split at hbegin
    · cases hbegin; rfl
    · split at hbegin <;> cases hbegin
      rfl

/-- **Installing a re-read** brings in every share recorded since its snapshot once, and leaves it due
only if the window widened again. -/
theorem Over.finishReread (h : l.Over s) {r : Reread} {recorded : List Share}
    (hrecorded : l.recordedDuringReread = some recorded) (htracks : Tracked r l s recorded)
    (answer : IoAnswer) : (l.finishReread r.window (r.read answer)).2.Over s ∧
      (l.finishReread r.window (r.read answer)).2.recordedDuringReread = none := by
  have hworked := worked_log h.sound
  rw [htracks.log] at hworked
  have hsnapshot : Worked r.snapshot.shares.log := htracks.readable.worked
  have hmore : Worked recorded := hworked.of_suffix (List.suffix_append _ _)
  unfold Ledger.finishReread
  cases hread : r.read answer with
  | error e =>
      refine ⟨⟨h.store, h.sound, h.window_pos, h.window_le, h.held, ?_, h.current⟩, rfl⟩
      intro hrunning
      cases hrunning
  | ok read =>
      have hheld := readContents_holds htracks.ordered htracks.readable htracks.window_pos
        htracks.window_le hread
      rw [htracks.maxShares] at hheld
      have htrim := Contents.trim_holds h.window_pos l.maxShares hheld
        (hsnapshot.newest _ _)
      simp only [hrecorded, Option.getD_some]
      obtain ⟨capped, hcapped⟩ := trim_eq { l with
        recordedDuringReread := none
        contents := read.1
        rereadDue := decide (r.window < l.window) }
      obtain ⟨capped', hpush⟩ := foldl_pushShare_eq { l with
        recordedDuringReread := none
        contents := read.1.trim l.window l.maxShares
        rereadDue := decide (r.window < l.window)
        countCapped := capped } recorded
      rw [hcapped, hpush]
      refine ⟨⟨h.store, h.sound, h.window_pos, h.window_le, ?_, ?_, ?_⟩, rfl⟩
      · exact Contents.foldl_push_trim_held h.window_pos
          ⟨_, htrim, (hsnapshot.newest _ _).newest _ _⟩ hmore
      · intro hrunning
        cases hrunning
      · intro hdue
        have hle : l.window ≤ r.window := by simpa using hdue
        rw [Suffix.newest_newest Share.work hle] at htrim
        rw [htracks.log]
        exact Contents.foldl_push_trim_holds h.window_pos htrim hsnapshot hmore

end Ledger
end Ratum
