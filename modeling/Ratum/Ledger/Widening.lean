import Mathlib.Logic.Relation
import Ratum.Ledger.Runs

/-!
# Retention while a widening waits

A re-read stays due from the resize that widens the window until `finish_reread` installs one that
reaches it. Recording keeps every row while a re-read runs, and where retention finds none to remove.
`record_batch` asks only whether a re-read runs, so a batch recorded while one is due and not begun can
lose rows.
-/

namespace Ratum

variable {F : Type}

namespace Ledger

/-- The rows retention finds to remove after a batch, when no re-read runs. -/
def surplusAfter (l : Ledger F) (shares : List Share) : List Nat :=
  match l.store, (shares.map fun share => share.acceptedAt.toNat).max? with
  | some store, some newest =>
      store.retainBound.elim [] fun configured =>
        Store.surplusKeys configured (shares.foldl pushShare l).len
          (newest - ACCEPTED_HASH_RETENTION_SECS) MAX_ACCEPTED_HASHES
          (Store.insertRows store.db.committed.shares store.nextSeq shares)
  | _, _ => []

/-- While a re-read is due, a batch is recorded while it runs, or with no row past what retention
keeps. -/
def KeepsRows (l : Ledger F) (shares : List Share) : Prop :=
  l.rereadDue = true → l.recordedDuringReread.isSome ∨ l.surplusAfter shares = []

variable {l l' : Ledger F} {s : Store}

theorem rereadDue_foldl_pushShare (l : Ledger F) (shares : List Share) :
    (shares.foldl pushShare l).rereadDue = l.rereadDue := by
  obtain ⟨capped, hpush⟩ := foldl_pushShare_eq l shares
  rw [hpush]

/-- The shares a window holds after a batch depend on the window alone. -/
theorem len_foldl_pushShare (l : Ledger F) (shares : List Share) :
    (shares.foldl pushShare l).len =
      (shares.foldl (fun c share => (c.push share).trim l.window l.maxShares) l.contents).shares.length := by
  obtain ⟨capped, hpush⟩ := foldl_pushShare_eq l shares
  rw [hpush, len]

theorem rereadDue_retention (l : Ledger F) (keepAfter : Nat) (read write : IoAnswer) :
    (l.retention keepAfter read write).2.rereadDue = l.rereadDue := by
  unfold retention
  split
  · rfl
  · split <;> rfl

theorem rereadDue_insertBatch {shares : List Share} {cumulativeWork : Nat} {answer : IoAnswer}
    (h : l.insertBatch shares cumulativeWork answer = .ok l') : l'.rereadDue = l.rereadDue := by
  unfold insertBatch at h
  split at h
  · cases h
    rfl
  · next store _ =>
    cases hinsert : store.insertBatch shares cumulativeWork answer with
    | error e =>
        rw [hinsert] at h
        cases h
    | ok store =>
        rw [hinsert] at h
        cases h
        rfl

/-- Recording a batch leaves a due re-read due. -/
theorem rereadDue_recordBatch {shares : List Share} {answers : RecordAnswers} {n : Nat}
    (h : l.recordBatch shares answers = .ok (n, l')) : l'.rereadDue = l.rereadDue := by
  unfold recordBatch at h
  split at h
  · cases h
    rfl
  · next newest _ =>
    dsimp only at h
    cases hinsert : l.insertBatch shares
        (shares.foldl (fun work share => work + share.work) l.cumulativeWork) answers.insert with
    | error e =>
        rw [hinsert] at h
        cases h
    | ok l₁ =>
        have hsame := rereadDue_insertBatch hinsert
        rw [hinsert] at h
        simp only [bind, Except.bind, pure, Except.pure] at h
        split at h
        · cases h
          exact (rereadDue_foldl_pushShare _ _).trans hsame
        · have hl' := congrArg Prod.snd (Except.ok.inj h)
          dsimp only at hl'
          rw [← hl', rereadDue_retention]
          exact (rereadDue_foldl_pushShare _ _).trans hsame

/-- Retention that finds no row to remove leaves the store as it is. -/
theorem retain_of_no_surplus {floor keepAfter keepNewest : Nat} {read write : IoAnswer}
    {n : Nat} {s' : Store}
    (hsurplus : s.retainBound.elim [] (fun configured =>
      Store.surplusKeys configured floor keepAfter keepNewest s.db.committed.shares) = [])
    (hretain : s.retain floor keepAfter keepNewest read write = .ok (n, s')) : n = 0 ∧ s' = s := by
  unfold Store.retain at hretain
  split at hretain
  · cases hretain
    exact ⟨rfl, rfl⟩
  · next configured hconfigured =>
    rw [hconfigured, Option.elim_some] at hsurplus
    cases read with
    | error e => cases hretain
    | ok _ =>
        simp only [Store.beginRead, Database.beginRead, Except.map, bind, Except.bind, hsurplus,
          List.isEmpty_nil, if_true] at hretain
        cases hretain
        exact ⟨rfl, rfl⟩

theorem retain_answered {floor keepAfter keepNewest : Nat} (s : Store) (e : IoError) :
    s.retain floor keepAfter keepNewest (.ok ()) (.ok ()) ≠ .error e := by
  intro herror
  unfold Store.retain at herror
  split at herror
  · cases herror
  · simp only [Store.beginRead, Database.beginRead, Except.map, bind, Except.bind] at herror
    split at herror <;> cases herror

theorem retain_zero {floor keepAfter keepNewest : Nat} {s' : Store}
    (hretain : s.retain floor keepAfter keepNewest (.ok ()) (.ok ()) = .ok (0, s')) :
    s.retainBound.elim [] (fun configured =>
      Store.surplusKeys configured floor keepAfter keepNewest s.db.committed.shares) = [] := by
  unfold Store.retain at hretain
  split at hretain
  · next hconfigured =>
    rw [hconfigured]
    rfl
  · next configured hconfigured =>
    rw [hconfigured, Option.elim_some]
    simp only [Store.beginRead, Database.beginRead, Except.map, bind, Except.bind] at hretain
    split at hretain
    · next hempty => exact List.isEmpty_iff.mp hempty
    · simp only [Database.writeDeferred, Except.map, pure, Except.pure, Except.ok.injEq,
        Prod.mk.injEq] at hretain
      exact List.length_eq_zero_iff.mp hretain.1

/-- **A batch recorded while a re-read is due** removes none of the rows stored if it keeps rows, and only
then if the database answers. -/
theorem Over.recordBatch_rows (h : l.Over s) (hdue : l.rereadDue = true) {shares : List Share}
    (hshares : ∀ share ∈ shares, share.Recordable)
    {answers : RecordAnswers} {n : Nat} (hrecord : l.recordBatch shares answers = .ok (n, l')) :
    (l.KeepsRows shares →
      n = 0 ∧ ∃ s', l'.store = some s' ∧ s.db.committed.shares <+: s'.db.committed.shares) ∧
    (answers.retainRead = .ok () → answers.retainWrite = .ok () → n = 0 → l.KeepsRows shares) := by
  unfold Ledger.recordBatch at hrecord
  split at hrecord
  · next hmax =>
    cases hrecord
    refine ⟨fun _ => ⟨rfl, s, h.store, List.prefix_refl _⟩, fun _ _ _ _ => .inr ?_⟩
    simp only [surplusAfter, h.store, hmax]
  · next newest hnewest =>
    simp only [Ledger.insertBatch, h.store] at hrecord
    cases hinsert : s.insertBatch shares
        (shares.foldl (fun work share => work + share.work) l.cumulativeWork) answers.insert with
    | error e =>
        rw [hinsert] at hrecord
        cases hrecord
    | ok s₁ =>
        obtain ⟨-, hbound, hrows, -⟩ := Store.insertBatch_spec h.sound hshares hinsert
        have hprefix : s.db.committed.shares <+: s₁.db.committed.shares :=
          ⟨_, hrows.symm⟩
        rw [hinsert] at hrecord
        simp only [bind, Except.bind, pure, Except.pure] at hrecord
        obtain ⟨capped, hpush⟩ := foldl_pushShare_eq { l with
          store := some s₁
          cumulativeWork := shares.foldl (fun work share => work + share.work) l.cumulativeWork }
          shares
        rw [hpush] at hrecord
        cases hreread : l.recordedDuringReread with
        | some recorded =>
            simp only [hreread] at hrecord
            cases hrecord
            refine ⟨fun _ => ⟨rfl, s₁, rfl, hprefix⟩, fun _ _ _ _ => .inl ?_⟩
            rw [hreread]
            rfl
        | none =>
            simp only [hreread] at hrecord
            have hkeeps : l.KeepsRows shares ↔ l.surplusAfter shares = [] := by
              simp [KeepsRows, hdue, hreread]
            rw [hkeeps]
            have hcommitted : s₁.db.committed.shares =
                Store.insertRows s.db.committed.shares s.nextSeq shares := by
              cases hanswer : answers.insert with
              | error e =>
                  rw [hanswer] at hinsert
                  cases hinsert
              | ok _ =>
                  rw [hanswer] at hinsert
                  cases hinsert
                  rfl
            simp only [surplusAfter, h.store, hnewest, len_foldl_pushShare]
            rw [← hcommitted, ← hbound]
            have hpair := Except.ok.inj hrecord
            unfold Ledger.retention at hpair
            dsimp only at hpair
            split at hpair
            · next removed store hretain =>
              cases hpair
              refine ⟨fun hnone => ?_, fun hread hwrite hzero => ?_⟩
              · obtain ⟨rfl, rfl⟩ := retain_of_no_surplus hnone hretain
                exact ⟨rfl, _, rfl, hprefix⟩
              · rw [hread, hwrite, hzero] at hretain
                exact retain_zero hretain
            · next e hretain =>
              cases hpair
              refine ⟨fun _ => ⟨rfl, s₁, rfl, hprefix⟩, fun hread hwrite _ => ?_⟩
              rw [hread, hwrite] at hretain
              exact absurd hretain (retain_answered _ _)

theorem rereadDue_setNetworkDifficulty (l : Ledger F) (networkDifficulty : F) :
    (l.setNetworkDifficulty networkDifficulty).2.rereadDue =
      (l.rereadDue || (l.window < (l.setNetworkDifficulty networkDifficulty).2.window &&
        l.store.isSome)) := rfl

theorem beginReread_eq {answer : IoAnswer} {reread : Option Reread}
    (hbegin : l.beginReread answer = (reread, l')) :
    ∃ recorded, l' = { l with recordedDuringReread := recorded } := by
  unfold beginReread at hbegin
  split at hbegin
  · cases hbegin
    exact ⟨l.recordedDuringReread, rfl⟩
  · split at hbegin
    · cases hbegin
      exact ⟨l.recordedDuringReread, rfl⟩
    · split at hbegin
      · cases hbegin
        exact ⟨l.recordedDuringReread, rfl⟩
      · cases hbegin
        exact ⟨some [], rfl⟩

theorem rereadDue_beginReread {answer : IoAnswer} {reread : Option Reread}
    (h : l.beginReread answer = (reread, l')) : l'.rereadDue = l.rereadDue := by
  obtain ⟨recorded, rfl⟩ := beginReread_eq h
  rfl

/-- A re-read that installs nothing, or a window narrower than the ledger's, leaves one due. -/
theorem rereadDue_finishReread {window : Nat} {read : Except IoError (Contents × ReadBack)}
    (hdue : l.rereadDue = true) (h : ∀ contents, read = .ok contents → window < l.window) :
    (l.finishReread window read).2.rereadDue = true := by
  unfold finishReread
  cases read with
  | error e => exact hdue
  | ok contents =>
      have hnarrow := h contents rfl
      refine (rereadDue_foldl_pushShare _ _).trans ?_
      exact decide_eq_true hnarrow

end Ledger

/-! ### From a widening to the window it asks for -/

/-- A step that installs a re-read reaching the ledger's window. -/
def LedgerState.Installs : LedgerState F → LedgerState F → Prop
  | .running l (some (r, some (.ok _))), .running _ none => l.window ≤ r.window
  | _, _ => False

/-- A step of a running pool that installs no re-read reaching its window. -/
def LedgerState.Waits [One F] (state state' : LedgerState F) : Prop :=
  (∃ event, event ≠ .restarted ∧ LedgerStep state event state') ∧ ¬ state.Installs state'

def LedgerState.Due : LedgerState F → Prop
  | .running l _ => l.rereadDue = true
  | .stopped _ => False

theorem LedgerState.waits_begin [One F] {l l' : Ledger F} {held} {r : Reread} (answer : IoAnswer)
    (hbegin : l.beginReread answer = (some r, l')) :
    LedgerState.Waits (.running l held) (.running l' (some (r, none))) := by
  refine ⟨⟨.reread, nofun, .beginReread answer hbegin⟩, fun h => ?_⟩
  unfold Installs at h
  split at h
  · next heq => cases heq
  · exact h

theorem LedgerState.Waits.due [One F] {state state' : LedgerState F} (h : state.Waits state')
    (hdue : state.Due) : state'.Due := by
  obtain ⟨⟨event, hevent, hstep⟩, hnot⟩ := h
  cases hstep with
  | record answers hshares hrecord => exact (Ledger.rereadDue_recordBatch hrecord).trans hdue
  | recordFailed => exact hdue
  | @setNetworkDifficulty l held networkDifficulty =>
      show (l.setNetworkDifficulty networkDifficulty).2.rereadDue = true
      rw [Ledger.rereadDue_setNetworkDifficulty, show l.rereadDue = true from hdue, Bool.true_or]
  | beginReread answer hbegin => exact (Ledger.rereadDue_beginReread hbegin).trans hdue
  | beginNone answer hbegin => exact (Ledger.rereadDue_beginReread hbegin).trans hdue
  | read answer => exact hdue
  | @finishReread l r read =>
      apply Ledger.rereadDue_finishReread hdue
      intro contents hread
      subst hread
      exact not_le.mp hnot
  | close hstore crashed => exact absurd rfl hevent
  | «open» settings answer snapshot read hopen hattach => exact absurd rfl hevent
  | openFailed settings answer snapshot read hopen hattach => exact hdue

theorem LedgerState.waits_run [One F] {db : Database} {trace : List LedgerEvent}
    {state state' : LedgerState F} (hrun : (ledgerRuns db).Run trace state)
    (h : Relation.ReflTransGen Waits state state') :
    ∃ trace', (ledgerRuns db).Run trace' state' := by
  induction h with
  | refl => exact ⟨trace, hrun⟩
  | tail _ hnext ih =>
      obtain ⟨trace', hrun'⟩ := ih
      obtain ⟨⟨event, -, hstep⟩, -⟩ := hnext
      exact ⟨_, hrun'.next hstep⟩

theorem LedgerState.waits_due [One F] {state state' : LedgerState F}
    (h : Relation.ReflTransGen Waits state state') (hdue : state.Due) : state'.Due := by
  induction h with
  | refl => exact hdue
  | tail _ hnext ih => exact hnext.due ih

theorem smallShares_recordable (t : UInt64) : ∀ share ∈ [smallShare t], share.Recordable := by
  intro share hshare
  rw [List.mem_singleton.mp hshare]
  exact smallShare_recordable t

end Ratum
