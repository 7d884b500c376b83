import Ratum.Ledger.WholeShares
import Ratum.Ledger.Widening

/-!
# Retention removes what nobody needs

What a call of `Store::retain` removes, whatever the store holds, and that over every run the shares the
window holds stay in the store.
-/

namespace Ratum

/-! ### One call -/

/-- What a call of retention that removes `n` rows does. -/
structure Store.Retained (s s' : Store) (floor keepAfter keepNewest n : Nat) : Prop where
  rows_eq : s'.db.committed.shares = s.db.committed.shares.drop n
  bounded : n ≤ MAX_RETAINED_PER_CALL
  leaves : 0 < n → ∃ configured, s.retainBound = some configured ∧
    max configured floor ≤ s'.db.committed.shares.length
  unread : ∀ i row, i < n → s.db.committed.shares[i]? = some row →
    s.db.committed.shares.length - keepNewest ≤ i →
    ∀ head, unpackHead row.2 = some head → head.acceptedAt.toNat < keepAfter

theorem Store.Retained.nothing {s : Store} {floor keepAfter keepNewest : Nat} :
    s.Retained s floor keepAfter keepNewest 0 where
  rows_eq := List.drop_zero.symm
  bounded := Nat.zero_le _
  leaves hpos := absurd hpos (Nat.lt_irrefl 0)
  unread _ _ hi := absurd hi (Nat.not_lt_zero _)

/-- Retention finds its rows in any store whose rows are in the order of their keys. -/
theorem Store.retain_retained {s s' : Store} (hordered : s.db.committed.shares.Ordered)
    {floor keepAfter keepNewest n : Nat} {read write : IoAnswer}
    (hretain : s.retain floor keepAfter keepNewest read write = .ok (n, s')) :
    s.Retained s' floor keepAfter keepNewest n := by
  rw [Store.retain] at hretain
  split at hretain
  · cases hretain
    exact .nothing
  · rename_i configured hbound
    cases read with
    | error e => cases hretain
    | ok _ =>
        obtain ⟨k, hkeys, hleaves, hbounded, hunread⟩ :=
          surplusKeys_spec configured floor keepAfter keepNewest s.db.committed.shares
        simp only [Store.beginRead, Database.beginRead, Except.map, bind, Except.bind, pure,
          Except.pure] at hretain
        split at hretain
        · cases hretain
          exact .nothing
        · cases write with
          | error e => cases hretain
          | ok _ =>
              rw [hkeys] at hretain
              simp only [Database.writeDeferred, Except.map, foldl_remove_take hordered,
                Except.ok.injEq, Prod.mk.injEq] at hretain
              obtain ⟨hn, rfl⟩ := hretain
              rw [List.length_map, List.length_take, Nat.min_eq_left (by omega)] at hn
              obtain rfl := hn
              refine ⟨rfl, hbounded, fun hpos => ⟨configured, hbound, ?_⟩, ?_⟩
              · show max configured floor ≤ (s.db.committed.shares.drop k).length
                rw [List.length_drop]
                omega
              · intro i row hi hrow hrecent head hhead
                obtain ⟨hlt, rfl⟩ := List.getElem?_eq_some_iff.mp hrow
                have hread := hunread i hlt hi
                rw [readBack, decide_eq_true hrecent, Bool.true_and, hhead, Option.any_some,
                  decide_eq_false_iff_not, Nat.not_le] at hread
                exact hread

/-! ### The shares the window holds -/

namespace Contents

variable {c : Contents} {log : List Share}

theorem trimWork_suffix (window : Nat) (log : List Share) : WholeShares.trimWork window log <:+ log := by
  induction log with
  | nil => exact List.suffix_refl _
  | cons oldest newer ih =>
      cases newer with
      | nil => exact List.suffix_refl _
      | cons next newer =>
          rw [WholeShares.trimWork]
          split
          · exact List.suffix_refl _
          · exact ih.trans (List.suffix_cons _ _)

/-- A trimmed window holds the newest of the shares it held. -/
theorem trim_held (h : c.Holds log) (window maxShares : Nat) :
    ∃ log', (c.trim window maxShares).Holds log' ∧ log' <:+ log :=
  ⟨_, apply_holds h (.trim window maxShares),
    (List.drop_suffix _ _).trans (trimWork_suffix window log)⟩

theorem foldl_push_trim_suffix {window maxShares : Nat} (h : c.Holds log) (more : List Share) :
    ∃ log', (more.foldl (fun c share => (c.push share).trim window maxShares) c).Holds log' ∧
      log' <:+ log ++ more := by
  induction more generalizing c log with
  | nil => exact ⟨log, h, (List.append_nil log).symm ▸ List.suffix_refl log⟩
  | cons share more ih =>
      obtain ⟨log', hholds, hsuffix⟩ := trim_held (push_holds h share) window maxShares
      obtain ⟨log'', hholds', hsuffix'⟩ := ih hholds
      obtain ⟨older, holder⟩ := hsuffix
      refine ⟨log'', hholds', hsuffix'.trans ⟨older, ?_⟩⟩
      rw [List.append_cons, ← List.append_assoc, holder]

end Contents
/-! ### What recording a batch does -/

namespace Ledger

variable {F : Type} {l l' : Ledger F} {s : Store}

/-- The ledger's counter as it stands with a batch. -/
def countedWith (l : Ledger F) (shares : List Share) : Nat :=
  shares.foldl (fun work share => work + share.work) l.cumulativeWork

/-- The ledger once the window took a batch that is on disk. -/
def taken (l : Ledger F) (shares : List Share) (store : Store) : Ledger F :=
  shares.foldl pushShare { l with store := some store, cumulativeWork := l.countedWith shares }

/-- The ways a batch is recorded over a store. -/
inductive Records (l : Ledger F) (s : Store) (shares : List Share) (answers : RecordAnswers) :
    Nat → Ledger F → Prop
  | nothing (hshares : shares = []) : Records l s shares answers 0 l
  | duringReread {s₁ : Store} {recorded : List Share}
      (hinsert : s.insertBatch shares (l.countedWith shares) answers.insert = .ok s₁)
      (hrunning : l.recordedDuringReread = some recorded) :
      Records l s shares answers 0
        { l.taken shares s₁ with recordedDuringReread := some (recorded ++ shares) }
  | retaining {s₁ : Store} (newest : Nat)
      (hinsert : s.insertBatch shares (l.countedWith shares) answers.insert = .ok s₁)
      (hidle : l.recordedDuringReread = none) :
      Records l s shares answers
        ((l.taken shares s₁).retention (newest - ACCEPTED_HASH_RETENTION_SECS) answers.retainRead
          answers.retainWrite).1
        ((l.taken shares s₁).retention (newest - ACCEPTED_HASH_RETENTION_SECS) answers.retainRead
          answers.retainWrite).2

theorem taken_eq (l : Ledger F) (shares : List Share) (store : Store) : ∃ capped,
    l.taken shares store =
      { l with
        store := some store
        cumulativeWork := l.countedWith shares
        contents := shares.foldl (fun c share => (c.push share).trim l.window l.maxShares) l.contents
        countCapped := capped } :=
  foldl_pushShare_eq _ shares

theorem recordBatch_records (hstore : l.store = some s) {shares : List Share} {answers : RecordAnswers}
    {n : Nat} (hrecord : l.recordBatch shares answers = .ok (n, l')) : l.Records s shares answers n l' := by
  rw [Ledger.recordBatch] at hrecord
  split at hrecord
  · rename_i hmax
    cases hrecord
    exact .nothing (by simpa using List.max?_eq_none_iff.mp hmax)
  · rename_i newest _
    simp only [Ledger.insertBatch, hstore] at hrecord
    cases hinsert : s.insertBatch shares (l.countedWith shares) answers.insert with
    | error e =>
        rw [countedWith] at hinsert
        simp only [hinsert] at hrecord
        cases hrecord
    | ok s₁ =>
        have hinsert' := hinsert
        rw [countedWith] at hinsert'
        simp only [hinsert', bind, Except.bind, pure, Except.pure] at hrecord
        obtain ⟨capped, htaken⟩ := l.taken_eq shares s₁
        have hsame : l.recordedDuringReread = (l.taken shares s₁).recordedDuringReread := by rw [htaken]
        split at hrecord
        · rename_i recorded hrunning
          cases hrecord
          exact .duringReread hinsert (hsame.trans hrunning)
        · rename_i hidle
          have hpair := Except.ok.inj hrecord
          have hretains : l.Records s shares answers _ _ := .retaining newest hinsert (hsame.trans hidle)
          rw [taken, countedWith, hpair] at hretains
          exact hretains

/-! ### Every run -/

/-- Every share the window holds is stored. -/
def Stored (l : Ledger F) (s : Store) : Prop := ∃ log, l.contents.Holds log ∧ log <:+ s.log

theorem Stored.taken (h : l.Stored s) {shares : List Share} {s₁ : Store}
    (hlog : s₁.log = s.log ++ shares) : (l.taken shares s₁).Stored s₁ := by
  obtain ⟨log, hholds, hstored⟩ := h
  obtain ⟨capped, htaken⟩ := l.taken_eq shares s₁
  obtain ⟨log', hholds', hsuffix⟩ := Contents.foldl_push_trim_suffix hholds shares
  obtain ⟨older, holder⟩ := hstored
  rw [Ledger.Stored, htaken]
  refine ⟨log', hholds', hsuffix.trans ⟨older, ?_⟩⟩
  rw [hlog, ← holder, List.append_assoc]

/-- Retention removes no row the window holds. -/
theorem Stored.retention (h : l.Stored s) (hstore : l.store = some s) (hsound : s.Sound) (keepAfter : Nat)
    (read write : IoAnswer) :
    ∃ s', (l.retention keepAfter read write).2.store = some s' ∧
      (l.retention keepAfter read write).2.Stored s' := by
  rw [Ledger.retention, hstore]
  dsimp only
  cases hretain : s.retain l.len keepAfter MAX_ACCEPTED_HASHES read write with
  | error e => exact ⟨s, hstore, h⟩
  | ok retained =>
      obtain ⟨n, s'⟩ := retained
      obtain ⟨hsound', -, -, -, hrows, hremovable⟩ := Store.retain_spec hsound hretain
      obtain ⟨log, hholds, hstored⟩ := h
      refine ⟨s', rfl, log, hholds, ?_⟩
      have hlog : s.log = ShareTable.log (s.db.committed.shares.take n) ++ s'.log := by
        rw [Store.log, Store.log, hrows, ← ShareTable.log_append, List.take_append_drop]
      have hcount : s.log.length = s.db.committed.shares.length := hsound.committed_readable.length_log
      have hcount' : s'.log.length = s.db.committed.shares.length - n := by
        rw [← List.length_drop, ← hrows]
        exact hsound'.committed_readable.length_log
      have hlen : l.len = log.length := hholds.length
      have hfloor := hremovable.floor
      have hle := hstored.length_le
      apply List.suffix_of_suffix_length_le hstored ⟨_, hlog.symm⟩
      omega

theorem Over.stored_recordBatch (h : l.Over s) (hstored : l.Stored s) {shares : List Share}
    (hshares : ∀ share ∈ shares, share.Recordable) {answers : RecordAnswers} {n : Nat}
    (hrecord : l.recordBatch shares answers = .ok (n, l')) : ∃ s', l'.store = some s' ∧ l'.Stored s' := by
  have hinserted {s₁ : Store}
      (hinsert : s.insertBatch shares (l.countedWith shares) answers.insert = .ok s₁) :
      s₁.Sound ∧ (l.taken shares s₁).store = some s₁ ∧ (l.taken shares s₁).Stored s₁ := by
    obtain ⟨hsound, -, -, hlog⟩ := Store.insertBatch_spec h.sound hshares hinsert
    obtain ⟨capped, htaken⟩ := l.taken_eq shares s₁
    exact ⟨hsound, by rw [htaken], hstored.taken hlog⟩
  cases recordBatch_records h.store hrecord with
  | nothing hempty => exact ⟨s, h.store, hstored⟩
  | duringReread hinsert hrunning =>
      obtain ⟨-, hstore, hstored'⟩ := hinserted hinsert
      exact ⟨_, hstore, hstored'⟩
  | retaining newest hinsert hidle =>
      obtain ⟨hsound, hstore, hstored'⟩ := hinserted hinsert
      exact hstored'.retention hstore hsound _ _ _

theorem Stored.finishReread (h : l.Stored s) {r : Reread} {recorded : List Share}
    (hrecorded : l.recordedDuringReread = some recorded) (htracks : Tracked r l s recorded)
    (answer : IoAnswer) : (l.finishReread r.window (r.read answer)).2.Stored s := by
  unfold Ledger.finishReread
  cases hread : r.read answer with
  | error e => exact h
  | ok read =>
      have hheld := readContents_holds htracks.ordered htracks.readable htracks.window_pos
        htracks.window_le hread
      obtain ⟨log, hholds, hsuffix⟩ := Contents.trim_held hheld l.window l.maxShares
      obtain ⟨capped, hcapped⟩ := trim_eq { l with
        recordedDuringReread := none
        contents := read.1
        rereadDue := decide (r.window < l.window) }
      obtain ⟨capped', hpush⟩ := foldl_pushShare_eq { l with
        recordedDuringReread := none
        contents := read.1.trim l.window l.maxShares
        rereadDue := decide (r.window < l.window)
        countCapped := capped } recorded
      simp only [hrecorded, Option.getD_some]
      rw [hcapped, hpush]
      obtain ⟨log', hholds', hsuffix'⟩ := Contents.foldl_push_trim_suffix hholds recorded
      obtain ⟨older, holder⟩ := hsuffix.trans (Suffix.newest_suffix Share.work _ _ _)
      refine ⟨log', hholds', hsuffix'.trans ⟨older, ?_⟩⟩
      rw [htracks.log, ← holder, List.append_assoc]

end Ledger

/-- A pool that found its window on disk owes no re-read. -/
theorem attach_rereadDue {F : Type} [One F] {settings : OpenSettings F} {s : Store} {l : Ledger F}
    {snapshot read : IoAnswer} {readBack : ReadBack}
    (hattach : settings.ledger.attach s snapshot read = .ok (readBack, l)) : l.rereadDue = false := by
  obtain ⟨-, -, hdue, -⟩ := openLedger_spec settings
  unfold Ledger.attach Ledger.load at hattach
  cases snapshot with
  | error e => cases hattach
  | ok _ =>
      simp only [Store.beginRead, Database.beginRead, Except.map, bind, Except.bind] at hattach
      cases hread : readContents s.db.committed settings.ledger.window settings.ledger.maxShares
          read with
      | error e =>
          rw [hread] at hattach
          cases hattach
      | ok contents =>
          rw [hread] at hattach
          cases hattach
          exact hdue

/-- Every share the window of a running pool holds is stored. -/
def LedgerState.Stored {F : Type} : LedgerState F → Prop
  | .stopped _ => True
  | .running l _ => ∃ s, l.store = some s ∧ l.Stored s

theorem LedgerState.Stored.step {F : Type} [One F] {history : List Share} {state state' : LedgerState F}
    {event : LedgerEvent} (h : state.Stored) (hsound : state.Sound history)
    (hstep : LedgerStep state event state') : state'.Stored := by
  cases hstep with
  | record answers hshares hrecord =>
      obtain ⟨s, hover, -⟩ := hsound
      obtain ⟨s', hstore, hstored⟩ := h
      obtain rfl := Option.some.inj (hover.store.symm.trans hstore)
      exact hover.stored_recordBatch hstored hshares hrecord
  | recordFailed => exact h
  | @setNetworkDifficulty l held networkDifficulty =>
      obtain ⟨s, hstore, log, hholds, hsuffix⟩ := h
      obtain ⟨log', hholds', hsuffix'⟩ :=
        Contents.trim_held hholds (max (l.windowRule.windowFor networkDifficulty) 1) l.maxShares
      exact ⟨s, hstore, log', hholds', hsuffix'.trans hsuffix⟩
  | beginReread answer hbegin =>
      obtain ⟨s, hover, -⟩ := hsound
      obtain ⟨s', hstore, log, hholds, hsuffix⟩ := h
      obtain rfl := Option.some.inj (hover.store.symm.trans hstore)
      obtain ⟨recorded, rfl⟩ := Ledger.beginReread_eq hbegin
      exact ⟨s, hover.store, log, hholds, hsuffix⟩
  | beginNone answer hbegin =>
      rw [Ledger.beginReread_none hbegin]
      exact h
  | read answer => exact h
  | finishReread =>
      obtain ⟨s, hover, -, recorded, hrunning, htracked, houtcome⟩ := hsound
      obtain ⟨s', hstore, hstored⟩ := h
      obtain rfl := Option.some.inj (hover.store.symm.trans hstore)
      obtain ⟨answer, rfl⟩ := houtcome _ rfl
      exact ⟨s, (hover.finishReread hrunning htracked answer).1.store,
        hstored.finishReread hrunning htracked answer⟩
  | close hstore crashed => trivial
  | «open» settings answer snapshot read hopen hattach =>
      obtain ⟨hsound', -, -⟩ := Store.open_sound hsound.1 hopen
      obtain ⟨hover, hidle⟩ := attach_over hsound' hattach
      exact ⟨_, hover.store, _, hover.current (attach_rereadDue hattach),
        Suffix.newest_suffix Share.work _ _ _⟩
  | openFailed settings answer snapshot read hopen hattach => trivial

theorem ledgerRuns_stored {F : Type} [One F] {db : Database} (hdb : db.Sound) {trace : List LedgerEvent}
    {state : LedgerState F} (hrun : (ledgerRuns db).Run trace state) :
    state.Sound (db.durable.shares.log ++ trace.flatMap LedgerEvent.shares) ∧ state.Stored := by
  induction hrun with
  | start hinit =>
      obtain rfl := hinit
      exact ⟨ledgerRuns_sound hdb (.start rfl), trivial⟩
  | next hrun hstep ih =>
      obtain ⟨hsound, hstored⟩ := ih
      exact ⟨ledgerRuns_sound hdb (hrun.next hstep), hstored.step hsound hstep⟩

/-- **Retention removes what nobody needs.** In any store whose rows are in the order of their keys, with
whatever acceptance times, a call removes a bounded run of the oldest rows, leaves what is configured and
the floor, and removes no row the duplicate check reads back; and over every run the shares the window
holds are the newest of those stored. -/
theorem retention_removes_unneeded {F : Type} [One F] {s s' : Store}
    (hordered : s.db.committed.shares.Ordered) {floor keepAfter keepNewest n : Nat} {read write : IoAnswer}
    (hretain : s.retain floor keepAfter keepNewest read write = .ok (n, s'))
    {db : Database} (hdb : db.Sound) {trace : List LedgerEvent} {l : Ledger F} {held}
    (hrun : (ledgerRuns db).Run trace (.running l held)) :
    s.Retained s' floor keepAfter keepNewest n ∧
    ∃ stored log, l.store = some stored ∧ l.contents.Holds log ∧ log <:+ stored.log := by
  obtain ⟨-, stored, hstore, log, hholds, hsuffix⟩ := ledgerRuns_stored hdb hrun
  exact ⟨Store.retain_retained hordered hretain, stored, log, hstore, hholds, hsuffix⟩

/-- The oldest of three rows is removed where two are kept, and the window's shares are stored. -/
theorem retention_removes_oldest :
    ∃ (s s' : Store) (l : Ledger Nat) (stored : Store) (log : List Share),
      s.Retained s' 2 15000 MAX_ACCEPTED_HASHES 1 ∧
      l.store = some stored ∧ l.contents.Holds log ∧ log <:+ stored.log := by
  have hopened := Lts.Run.next (S := ledgerRuns emptyDatabase) (.start rfl)
    (.open smallPool (.ok ()) (.ok ()) (.ok ()) rfl rfl)
  have hone := hopened.next (.record ⟨.ok (), .ok (), .ok ()⟩ (smallShares_recordable 1) rfl)
  have htwo := hone.next (.record ⟨.ok (), .ok (), .ok ()⟩ (smallShares_recordable 2) rfl)
  have hthree := htwo.next (.record ⟨.ok (), .ok (), .ok ()⟩ (smallShares_recordable 3) rfl)
  obtain ⟨s, hover, -⟩ := ledgerRuns_sound emptyDatabase_sound hthree
  have hretain : ∃ s', s.retain 2 15000 MAX_ACCEPTED_HASHES (.ok ()) (.ok ()) = .ok (1, s') := by
    obtain rfl := Option.some.inj hover.store
    exact ⟨_, rfl⟩
  obtain ⟨s', hretain⟩ := hretain
  obtain ⟨hretained, stored, log, hstore, hholds, hsuffix⟩ :=
    retention_removes_unneeded hover.sound.committed_ordered hretain emptyDatabase_sound hthree
  exact ⟨s, s', _, stored, log, hretained, hstore, hholds, hsuffix⟩

end Ratum
