import Ratum.Ledger.Retention

/-!
# A batch is recorded whole or not at all

`record_batch` and the store's `insert_batch` as they update what they are called on, in the order they
do. A batch the database refuses leaves the ledger as it was; one it takes is appended under fresh
sequence numbers, and over every run the counter is the work of every share recorded.
-/

namespace Ratum

variable {F : Type}

/-! ### In place -/

/-- `insert_batch` on a store: the sequence counter moves once the rows and the counter are on disk. -/
def Store.insertBatchInPlace (s : Store) (shares : List Share) (cumulativeWork : Nat) (answer : IoAnswer) :
    Except IoError Unit × Store :=
  match s.db.write answer fun tables =>
    { tables with
      shares := Store.insertRows tables.shares s.nextSeq shares
      cumulativeWork := some cumulativeWork } with
  | .error e => (.error e, s)
  | .ok db => (.ok (), { s with db := db, nextSeq := s.nextSeq + shares.length })

namespace Ledger

def insertBatchInPlace (l : Ledger F) (shares : List Share) (cumulativeWork : Nat) (answer : IoAnswer) :
    Except IoError Unit × Ledger F :=
  match l.store with
  | none => (.ok (), l)
  | some store =>
      let (inserted, store) := store.insertBatchInPlace shares cumulativeWork answer
      (inserted, { l with store := some store })

/-- `record_batch` on a ledger, its answer beside what it leaves. -/
def recordBatchInPlace (l : Ledger F) (shares : List Share) (answers : RecordAnswers) :
    Except IoError Nat × Ledger F :=
  match (shares.map fun share => share.acceptedAt.toNat).max? with
  | none => (.ok 0, l)
  | some newest =>
      let keepAfter := newest - ACCEPTED_HASH_RETENTION_SECS
      let cumulativeWork := shares.foldl (fun work share => work + share.work) l.cumulativeWork
      match l.insertBatchInPlace shares cumulativeWork answers.insert with
      | (.error e, l) => (.error e, l)
      | (.ok _, l) =>
          let l := { l with cumulativeWork := cumulativeWork }
          let l := shares.foldl pushShare l
          match l.recordedDuringReread with
          | some recorded => (.ok 0, { l with recordedDuringReread := some (recorded ++ shares) })
          | none =>
              let (removed, l) := l.retention keepAfter answers.retainRead answers.retainWrite
              (.ok removed, l)

variable {l l' : Ledger F} {s s' : Store} {shares : List Share}

theorem insertBatchInPlace_eq (l : Ledger F) (shares : List Share) (cumulativeWork : Nat)
    (answer : IoAnswer) :
    l.insertBatchInPlace shares cumulativeWork answer =
      match l.insertBatch shares cumulativeWork answer with
      | .error e => (.error e, l)
      | .ok l' => (.ok (), l') := by
  unfold insertBatchInPlace insertBatch
  cases hstore : l.store with
  | none => rfl
  | some store =>
      cases answer with
      | error e =>
          have hsame : { l with store := some store } = l := by rw [← hstore]
          exact congrArg (Prod.mk _) hsame
      | ok _ => rfl

/-- A call in place answers what the ledger's next value is read from, and leaves a refused one alone. -/
theorem recordBatchInPlace_eq (l : Ledger F) (shares : List Share) (answers : RecordAnswers) :
    l.recordBatchInPlace shares answers =
      match l.recordBatch shares answers with
      | .error e => (.error e, l)
      | .ok (removed, l') => (.ok removed, l') := by
  unfold recordBatchInPlace recordBatch
  cases hnewest : (shares.map fun share => share.acceptedAt.toNat).max? with
  | none => rfl
  | some newest =>
      simp only [insertBatchInPlace_eq]
      cases l.insertBatch shares (shares.foldl (fun work share => work + share.work) l.cumulativeWork)
          answers.insert with
      | error e => rfl
      | ok l₁ =>
          simp only [bind, Except.bind, pure, Except.pure]
          generalize shares.foldl pushShare _ = l₂
          cases l₂.recordedDuringReread with
          | some recorded => rfl
          | none => rfl

/-! ### One batch -/

end Ledger

/-- What holds of a store whose counter stands at a total: its rows are in the order of their keys, every
key is below the next one, and the total is the counter stored. -/
structure Store.Counts (s : Store) (total : Nat) : Prop where
  ordered : s.db.committed.shares.Ordered
  fresh : s.db.committed.shares.Below s.nextSeq
  freshOnDisk : s.db.durable.shares.Below s.nextSeq
  counter : s.db.committed.cumulativeWork.getD 0 = total
  counterOnDisk : s.db.durable.cumulativeWork.getD 0 = total

def batchWork (shares : List Share) : Nat := (shares.map Share.work).sum

/-- What a batch that is recorded does to a store: its rows are appended under the next sequence numbers,
which retention then removes the oldest rows from. -/
structure Store.Appends (s s' : Store) (shares : List Share) (removed : Nat) : Prop where
  rows : s'.db.committed.shares =
    (s.db.committed.shares ++ ShareTable.packed s.nextSeq shares).drop removed
  nextSeq : s'.nextSeq = s.nextSeq + shares.length
  above : ∀ entry ∈ ShareTable.packed s.nextSeq shares,
    s.db.committed.shares.Below entry.1 ∧ s.db.durable.shares.Below entry.1

/-- A call that errs leaves the ledger as it was; one that succeeds adds the batch's work to the counter
and appends its rows. -/
def Ledger.WholeOrNothing (l : Ledger F) (shares : List Share) : Except IoError Nat × Ledger F → Prop
  | (.error _, l') => l' = l
  | (.ok removed, l') =>
      l'.cumulativeWork = l.cumulativeWork + batchWork shares ∧
      (l.store = none → l'.store = none) ∧
      ∀ s, l.store = some s → s.Counts l.cumulativeWork →
        ∃ s', l'.store = some s' ∧ s.Appends s' shares removed ∧ s'.Counts l'.cumulativeWork

namespace Store

variable {s s' : Store} {total : Nat} {shares : List Share}

theorem Counts.insertBatch (h : s.Counts total) {cumulativeWork : Nat} {answer : IoAnswer}
    (hinsert : s.insertBatch shares cumulativeWork answer = .ok s') :
    s'.Counts cumulativeWork ∧ s.Appends s' shares 0 := by
  cases answer with
  | error e => cases hinsert
  | ok _ =>
      cases hinsert
      have hrows := insertRows_below h.fresh shares
      have hbelow : (s.db.committed.shares ++ ShareTable.packed s.nextSeq shares).Below
          (s.nextSeq + shares.length) := by
        intro entry hentry
        rcases List.mem_append.mp hentry with hold | hnew
        · exact (h.fresh entry hold).trans_le (Nat.le_add_right _ _)
        · exact (ShareTable.packed_from _ _ entry hnew).2
      refine ⟨⟨?_, ?_, ?_, rfl, rfl⟩, ⟨hrows, rfl, ?_⟩⟩
      · show (insertRows _ _ _).Ordered
        rw [hrows]
        refine List.pairwise_append.mpr ⟨h.ordered, ShareTable.packed_ordered _ _, ?_⟩
        intro entry hentry later hlater
        exact (h.fresh entry hentry).trans_le (ShareTable.packed_from _ _ later hlater).1
      · show (insertRows _ _ _).Below _
        rw [hrows]
        exact hbelow
      · show (insertRows _ _ _).Below _
        rw [hrows]
        exact hbelow
      · intro entry hentry
        have hfrom := (ShareTable.packed_from _ _ entry hentry).1
        exact ⟨fun old hold => (h.fresh old hold).trans_le hfrom,
          fun old hold => (h.freshOnDisk old hold).trans_le hfrom⟩

/-- Retention touches neither the counter nor the next sequence number. -/
theorem Counts.retain (h : s.Counts total) {floor keepAfter keepNewest n : Nat} {read write : IoAnswer}
    (hretain : s.retain floor keepAfter keepNewest read write = .ok (n, s')) :
    s'.Counts total ∧ s'.nextSeq = s.nextSeq ∧
      s'.db.committed.shares = s.db.committed.shares.drop n := by
  have hrows := (retain_retained h.ordered hretain).rows_eq
  have hkept : s'.db.durable = s.db.durable ∧ s'.nextSeq = s.nextSeq ∧
      s'.db.committed.cumulativeWork = s.db.committed.cumulativeWork := by
    unfold Store.retain at hretain
    split at hretain
    · cases hretain
      exact ⟨rfl, rfl, rfl⟩
    · cases read with
      | error e => cases hretain
      | ok _ =>
          simp only [Store.beginRead, Database.beginRead, Except.map, bind, Except.bind, pure,
            Except.pure] at hretain
          split at hretain
          · cases hretain
            exact ⟨rfl, rfl, rfl⟩
          · cases write with
            | error e => cases hretain
            | ok _ =>
                cases hretain
                exact ⟨rfl, rfl, rfl⟩
  obtain ⟨hdurable, hnext, hcounter⟩ := hkept
  have hsuffix : s'.db.committed.shares <:+ s.db.committed.shares := hrows ▸ List.drop_suffix _ _
  refine ⟨⟨h.ordered.of_suffix hsuffix, ?_, ?_, hcounter ▸ h.counter, hdurable ▸ h.counterOnDisk⟩,
    hnext, hrows⟩
  · rw [hnext]
    exact h.fresh.of_suffix hsuffix
  · rw [hnext, hdurable]
    exact h.freshOnDisk

end Store

namespace Ledger

variable {l l' : Ledger F} {s : Store} {shares : List Share}

theorem countedWith_eq (l : Ledger F) (shares : List Share) :
    l.countedWith shares = l.cumulativeWork + batchWork shares := by
  rw [countedWith, batchWork, List.sum_eq_foldl, List.foldl_map]
  generalize l.cumulativeWork = work
  induction shares generalizing work with
  | nil => rfl
  | cons share shares ih =>
      have hstart := ih share.work
      rw [List.foldl_cons, List.foldl_cons, ih, Nat.zero_add, hstart, Nat.add_assoc]

theorem cumulativeWork_retention (l : Ledger F) (keepAfter : Nat) (read write : IoAnswer) :
    (l.retention keepAfter read write).2.cumulativeWork = l.cumulativeWork := by
  unfold retention
  split
  · rfl
  · split
    · rfl
    · rfl

theorem cumulativeWork_taken (l : Ledger F) (shares : List Share) (store : Store) :
    (l.taken shares store).cumulativeWork = l.countedWith shares := by
  obtain ⟨capped, htaken⟩ := l.taken_eq shares store
  rw [htaken]

theorem store_taken (l : Ledger F) (shares : List Share) (store : Store) :
    (l.taken shares store).store = some store := by
  obtain ⟨capped, htaken⟩ := l.taken_eq shares store
  rw [htaken]

theorem retention_counts (h : s.Counts l.cumulativeWork) (hstore : l.store = some s) (keepAfter : Nat)
    (read write : IoAnswer) :
    ∃ s', (l.retention keepAfter read write).2.store = some s' ∧ s'.Counts l.cumulativeWork ∧
      s'.nextSeq = s.nextSeq ∧
      s'.db.committed.shares = s.db.committed.shares.drop (l.retention keepAfter read write).1 := by
  rw [retention, hstore]
  dsimp only
  cases hretain : s.retain l.len keepAfter MAX_ACCEPTED_HASHES read write with
  | error e => exact ⟨s, hstore, h, rfl, rfl⟩
  | ok retained =>
      obtain ⟨n, s'⟩ := retained
      obtain ⟨hcounts, hnext, hrows⟩ := h.retain hretain
      exact ⟨s', rfl, hcounts, hnext, hrows⟩

/-- The counter of a ledger over a store. -/
theorem Records.counter {answers : RecordAnswers} {removed : Nat}
    (h : l.Records s shares answers removed l') :
    l'.cumulativeWork = l.cumulativeWork + batchWork shares := by
  rw [← countedWith_eq]
  cases h with
  | nothing hempty =>
      rw [hempty]
      rfl
  | duringReread hinsert hrunning => exact l.cumulativeWork_taken shares _
  | retaining newest hinsert hidle =>
      rw [cumulativeWork_retention]
      exact l.cumulativeWork_taken shares _

/-- A batch recorded over a store is appended to its rows. -/
theorem Records.appends {answers : RecordAnswers} {removed : Nat}
    (hrecords : l.Records s shares answers removed l') (hstore : l.store = some s)
    (h : s.Counts l.cumulativeWork) :
    ∃ s', l'.store = some s' ∧ s.Appends s' shares removed ∧ s'.Counts l'.cumulativeWork := by
  cases hrecords with
  | nothing hempty =>
      refine ⟨s, hstore, ⟨?_, by rw [hempty]; rfl, ?_⟩, h⟩
      · rw [hempty, List.drop_zero]
        exact (List.append_nil _).symm
      · intro entry hentry
        rw [hempty] at hentry
        exact absurd hentry List.not_mem_nil
  | @duringReread s₁ recorded hinsert hrunning =>
      obtain ⟨hcounts, happends⟩ := h.insertBatch hinsert
      rw [← l.cumulativeWork_taken shares s₁] at hcounts
      exact ⟨s₁, l.store_taken shares s₁, happends, hcounts⟩
  | @retaining s₁ newest hinsert hidle =>
      obtain ⟨hcounts, happends⟩ := h.insertBatch hinsert
      rw [← l.cumulativeWork_taken shares s₁] at hcounts
      obtain ⟨s', hstore', hcounts', hnext, hrows⟩ :=
        retention_counts hcounts (l.store_taken shares s₁) (newest - ACCEPTED_HASH_RETENTION_SECS)
          answers.retainRead answers.retainWrite
      refine ⟨s', hstore', ⟨?_, hnext.trans happends.nextSeq, happends.above⟩, ?_⟩
      · rw [hrows, happends.rows, List.drop_zero]
      · rw [cumulativeWork_retention]
        exact hcounts'

/-- A batch recorded by a ledger that has no file. -/
theorem recordBatch_fileless (hstore : l.store = none) {answers : RecordAnswers} {removed : Nat}
    (hrecord : l.recordBatch shares answers = .ok (removed, l')) :
    l'.cumulativeWork = l.cumulativeWork + batchWork shares ∧ l'.store = none := by
  rw [← countedWith_eq]
  unfold recordBatch at hrecord
  split at hrecord
  · rename_i hmax
    cases hrecord
    rw [show shares = [] by simpa using List.max?_eq_none_iff.mp hmax]
    exact ⟨rfl, hstore⟩
  · simp only [insertBatch, hstore, bind, Except.bind, pure, Except.pure] at hrecord
    obtain ⟨capped, hpush⟩ := foldl_pushShare_eq { l with
      store := none
      cumulativeWork := shares.foldl (fun work share => work + share.work) l.cumulativeWork } shares
    rw [hpush] at hrecord
    dsimp only at hrecord
    split at hrecord
    · cases hrecord
      exact ⟨rfl, rfl⟩
    · cases hrecord
      exact ⟨rfl, rfl⟩

theorem recordBatchInPlace_whole (l : Ledger F) (shares : List Share) (answers : RecordAnswers) :
    l.WholeOrNothing shares (l.recordBatchInPlace shares answers) := by
  rw [recordBatchInPlace_eq]
  cases hrecord : l.recordBatch shares answers with
  | error e => exact rfl
  | ok recorded =>
      obtain ⟨removed, l'⟩ := recorded
      cases hstore : l.store with
      | none =>
          obtain ⟨hcounter, hstore'⟩ := recordBatch_fileless hstore hrecord
          refine ⟨hcounter, fun _ => hstore', fun s hs => ?_⟩
          rw [hstore] at hs
          cases hs
      | some s =>
          have hrecords := recordBatch_records hstore hrecord
          refine ⟨hrecords.counter, fun hnone => ?_, fun s' hs hcounts => ?_⟩
          · rw [hstore] at hnone
            cases hnone
          · obtain rfl := Option.some.inj (hstore.symm.trans hs)
            exact hrecords.appends hstore hcounts

end Ledger

/-! ### Every run -/

/-- The counter of a pool, in memory and on disk, stands at a total. -/
def LedgerState.Counts (total : Nat) : LedgerState F → Prop
  | .stopped db => db.committed.cumulativeWork.getD 0 = total ∧ db.durable.cumulativeWork.getD 0 = total
  | .running l _ => l.cumulativeWork = total ∧ ∃ s, l.store = some s ∧ s.Counts total

/-- What a file opened again counts. -/
theorem Store.open_counts {db : Database} (h : db.Sound) {total : Nat}
    (hcounts : LedgerState.Counts (F := F) total (.stopped db)) {path : String} {keep : Option Nat}
    {chain : Option String} {answer : IoAnswer} {s : Store}
    (hopen : Store.open db path keep chain answer = .ok s) :
    s.Counts total ∧ s.cumulativeWork = total := by
  obtain ⟨hsound, -, -⟩ := Store.open_sound h hopen
  have hcounter : s.db.committed.cumulativeWork = db.committed.cumulativeWork ∧
      s.db.durable.cumulativeWork = db.committed.cumulativeWork ∧
      s.cumulativeWork = db.committed.cumulativeWork.getD 0 := by
    unfold Store.open at hopen
    cases hstamp : Store.stampChain path chain db.committed with
    | error e => simp [hstamp, bind, Except.bind] at hopen
    | ok stamped =>
        obtain ⟨tables, stamped⟩ := stamped
        have htables : tables.cumulativeWork = db.committed.cumulativeWork := by
          unfold Store.stampChain at hstamp
          split at hstamp
          · cases hstamp
            rfl
          · split at hstamp
            · cases hstamp
            · cases hstamp
              rfl
          · cases hstamp
            rfl
        cases answer with
        | error e => simp [hstamp, bind, Except.bind, Database.write, Except.map] at hopen
        | ok _ =>
            simp only [hstamp, bind, Except.bind, Database.write, Except.map, pure, Except.pure] at hopen
            cases hopen
            exact ⟨htables, htables, congrArg (·.getD 0) htables⟩
  obtain ⟨hcommitted, hdurable, hstarts⟩ := hcounter
  exact ⟨⟨hsound.committed_ordered, hsound.committed_below, hsound.below, hcommitted ▸ hcounts.1,
    hdurable ▸ hcounts.1⟩, hstarts.trans hcounts.1⟩

theorem Ledger.finishReread_kept (l : Ledger F) (window : Nat)
    (read : Except IoError (Contents × ReadBack)) :
    (l.finishReread window read).2.store = l.store ∧
      (l.finishReread window read).2.cumulativeWork = l.cumulativeWork := by
  unfold finishReread
  cases read with
  | error e => exact ⟨rfl, rfl⟩
  | ok read =>
      obtain ⟨capped, hpush⟩ := foldl_pushShare_eq ({ l with
        recordedDuringReread := none
        contents := read.1
        rereadDue := decide (window < l.window) } : Ledger F).trim (l.recordedDuringReread.getD [])
      dsimp only
      rw [hpush]
      exact ⟨rfl, rfl⟩

/-- A pool starts from the counter its file holds. -/
theorem attach_counts [One F] {settings : OpenSettings F} {s : Store} {l : Ledger F}
    {snapshot read : IoAnswer} {readBack : ReadBack}
    (hattach : settings.ledger.attach s snapshot read = .ok (readBack, l)) :
    l.cumulativeWork = s.cumulativeWork ∧ l.store = some s := by
  unfold Ledger.attach at hattach
  cases hload : settings.ledger.load s snapshot read with
  | error e =>
      rw [hload] at hattach
      cases hattach
  | ok loaded =>
      rw [hload] at hattach
      cases hattach
      exact ⟨rfl, rfl⟩

theorem LedgerState.Counts.step [One F] {total : Nat} {history : List Share} {state state' : LedgerState F}
    {event : LedgerEvent} (h : state.Counts total) (hsound : state.Sound history)
    (hstep : LedgerStep state event state') : state'.Counts (total + batchWork event.shares) := by
  cases hstep with
  | record answers hshares hrecord =>
      obtain ⟨rfl, s, hstore, hcounts⟩ := h
      have hrecords := Ledger.recordBatch_records hstore hrecord
      obtain ⟨s', hstore', -, hcounts'⟩ := hrecords.appends hstore hcounts
      exact ⟨hrecords.counter, s', hstore', hrecords.counter ▸ hcounts'⟩
  | recordFailed => exact h
  | setNetworkDifficulty networkDifficulty => exact h
  | beginReread answer hbegin =>
      obtain ⟨recorded, rfl⟩ := Ledger.beginReread_eq hbegin
      exact h
  | beginNone answer hbegin =>
      obtain ⟨recorded, rfl⟩ := Ledger.beginReread_eq hbegin
      exact h
  | read answer => exact h
  | @finishReread l r read =>
      obtain ⟨hcounter, s, hstore, hcounts⟩ := h
      obtain ⟨hstore', hcounter'⟩ := l.finishReread_kept r.window read
      exact ⟨hcounter'.trans hcounter, s, hstore'.trans hstore, hcounts⟩
  | close hstore crashed =>
      obtain ⟨hcounter, s, hs, hcounts⟩ := h
      obtain rfl := Option.some.inj (hs.symm.trans hstore)
      cases crashed with
      | true => exact ⟨hcounts.counterOnDisk, hcounts.counterOnDisk⟩
      | false => exact ⟨hcounts.counter, hcounts.counter⟩
  | «open» settings answer snapshot read hopen hattach =>
      obtain ⟨hcounts, hstarts⟩ := Store.open_counts hsound.1 h hopen
      obtain ⟨hcounter, hstore⟩ := attach_counts hattach
      exact ⟨hcounter.trans hstarts, _, hstore, hcounts⟩
  | openFailed settings answer snapshot read hopen hattach =>
      obtain ⟨hcounts, -⟩ := Store.open_counts hsound.1 h hopen
      exact ⟨hcounts.counter, hcounts.counterOnDisk⟩

theorem batchWork_append (shares more : List Share) :
    batchWork (shares ++ more) = batchWork shares + batchWork more := by
  rw [batchWork, List.map_append, List.sum_append, batchWork, batchWork]

/-- What a file holds. -/
structure Tables.Sound (tables : Tables) : Prop where
  ordered : tables.shares.Ordered
  readable : tables.shares.Readable

theorem ledgerRuns_counts [One F] {tables : Tables} (h : tables.Sound) {trace : List LedgerEvent}
    {state : LedgerState F} (hrun : (ledgerRuns ⟨tables, tables⟩).Run trace state) :
    state.Counts (tables.cumulativeWork.getD 0 + batchWork (trace.flatMap LedgerEvent.shares)) := by
  have hdb : Database.Sound ⟨tables, tables⟩ := ⟨h.ordered, h.readable, List.suffix_refl _⟩
  induction hrun with
  | start hinit =>
      obtain rfl := hinit
      exact ⟨rfl, rfl⟩
  | next hrun hstep ih =>
      have hnext := ih.step (ledgerRuns_sound hdb hrun) hstep
      rw [List.flatMap_append, batchWork_append, ← Nat.add_assoc]
      simpa using hnext

/-- **A batch is recorded whole or not at all.** Whatever the ledger and the batch, a call the store
refuses leaves the ledger as it was, and one that succeeds adds the batch's work to the counter and
appends its rows under fresh sequence numbers, as every ledger a run reaches has them; over every run,
however often the pool stopped, the counter in memory and on disk is what the file began with and the
work of every share recorded. -/
theorem batch_recorded_whole [One F] {tables : Tables} (htables : tables.Sound)
    {trace : List LedgerEvent} {l : Ledger F} {held}
    (hrun : (ledgerRuns ⟨tables, tables⟩).Run trace (.running l held)) :
    (∀ (l : Ledger F) shares answers, l.WholeOrNothing shares (l.recordBatchInPlace shares answers)) ∧
    ∃ s, l.store = some s ∧ s.Counts l.cumulativeWork ∧
      l.cumulativeWork =
        tables.cumulativeWork.getD 0 + batchWork (trace.flatMap LedgerEvent.shares) := by
  obtain ⟨hcounter, s, hstore, hcounts⟩ := ledgerRuns_counts htables hrun
  exact ⟨fun l => l.recordBatchInPlace_whole, s, hstore, hcounter ▸ hcounts, hcounter⟩

/-- A pool that crashes after a share counts on from it. -/
theorem batch_recorded_after_crash :
    ∃ (l : Ledger Nat) (s : Store), l.store = some s ∧ s.Counts 4 ∧ l.cumulativeWork = 4 := by
  have hempty : Tables.Sound ⟨[], none, none⟩ := ⟨List.Pairwise.nil, fun _ h => absurd h List.not_mem_nil⟩
  have hopened := Lts.Run.next (S := ledgerRuns emptyDatabase) (.start rfl)
    (.open smallPool (.ok ()) (.ok ()) (.ok ()) rfl rfl)
  have hone := hopened.next (.record ⟨.ok (), .ok (), .ok ()⟩ (smallShares_recordable 1) rfl)
  have hcrashed := hone.next (.close rfl true)
  have hback := hcrashed.next (.open smallPool (.ok ()) (.ok ()) (.ok ()) rfl rfl)
  have htwo := hback.next (.record ⟨.ok (), .ok (), .ok ()⟩ (smallShares_recordable 2) rfl)
  obtain ⟨-, s, hstore, hcounts, hcounter⟩ := batch_recorded_whole hempty htwo
  rw [hcounter] at hcounts
  exact ⟨_, s, hstore, hcounts, hcounter⟩

end Ratum
