import Ratum.Base.Suffix
import Ratum.Ledger.Store

/-!
# What the store's operations do to its rows

Rows are appended under growing keys and removed from the oldest end, so the tables stay ordered and
the log they hold grows at one end and shrinks at the other. `readWindow` passes on a suffix of it that
decides the window.
-/

namespace Ratum

namespace ShareTable

variable {table : ShareTable}

def Ordered (table : ShareTable) : Prop := table.Pairwise fun entry later => entry.1 < later.1

/-- Every key of the table is below the next one. -/
def Below (table : ShareTable) (nextSeq : Nat) : Prop := ∀ entry ∈ table, entry.1 < nextSeq

/-- Every row unpacks, to a share worth something. -/
def Readable (table : ShareTable) : Prop :=
  ∀ entry ∈ table, ∃ share, unpack entry.2 = some share ∧ 0 < share.work

@[simp] theorem log_append (table more : ShareTable) : log (table ++ more) = table.log ++ more.log := by
  simp [log]

theorem log_cons {entry : Nat × Bytes} {share : Share} (h : unpack entry.2 = some share)
    (table : ShareTable) : log (entry :: table) = share :: table.log := by
  simp [log, h]

theorem Readable.of_suffix (h : table.Readable) {table' : ShareTable} (hsuffix : table' <:+ table) :
    table'.Readable := fun entry hentry => h entry (hsuffix.subset hentry)

theorem Ordered.of_suffix (h : table.Ordered) {table' : ShareTable} (hsuffix : table' <:+ table) :
    table'.Ordered := h.sublist hsuffix.sublist

theorem Below.of_suffix {nextSeq : Nat} (h : table.Below nextSeq) {table' : ShareTable}
    (hsuffix : table' <:+ table) : table'.Below nextSeq :=
  fun entry hentry => h entry (hsuffix.subset hentry)

theorem Readable.length_log (h : table.Readable) : table.log.length = table.length := by
  induction table with
  | nil => rfl
  | cons entry table ih =>
      obtain ⟨share, hshare, -⟩ := h entry List.mem_cons_self
      rw [log_cons hshare, List.length_cons, List.length_cons,
        ih fun entry hentry => h entry (List.mem_cons_of_mem _ hentry)]

theorem Readable.worked (h : table.Readable) : ∀ share ∈ table.log, 0 < share.work := by
  intro share hshare
  obtain ⟨entry, hentry, hunpack⟩ := List.mem_filterMap.mp hshare
  obtain ⟨share', hshare', hwork⟩ := h entry hentry
  rw [hunpack] at hshare'
  cases hshare'
  exact hwork

/-! ### Appending -/

theorem insert_below {nextSeq : Nat} (h : table.Below nextSeq) (row : Bytes) :
    table.insert nextSeq row = table ++ [(nextSeq, row)] := by
  have hbefore : table.filter (fun entry => entry.1 < nextSeq) = table :=
    List.filter_eq_self.mpr fun entry hentry => by simpa using h entry hentry
  have hafter : table.filter (fun entry => nextSeq < entry.1) = [] :=
    List.filter_eq_nil_iff.mpr fun entry hentry => by simpa using (h entry hentry).le
  rw [insert, hbefore, hafter]

/-- The rows of shares recorded under the keys from one on. -/
def packed (nextSeq : Nat) (shares : List Share) : ShareTable :=
  (shares.zipIdx nextSeq).map fun (share, seq) => (seq, pack share)

theorem packed_cons (nextSeq : Nat) (share : Share) (shares : List Share) :
    packed nextSeq (share :: shares) = (nextSeq, pack share) :: packed (nextSeq + 1) shares := rfl

theorem packed_from (nextSeq : Nat) (shares : List Share) :
    ∀ entry ∈ packed nextSeq shares, nextSeq ≤ entry.1 ∧ entry.1 < nextSeq + shares.length := by
  intro entry hentry
  obtain ⟨⟨share, seq⟩, hmem, rfl⟩ := List.mem_map.mp hentry
  have hle := List.le_snd_of_mem_zipIdx hmem
  have hlt := List.snd_lt_of_mem_zipIdx hmem
  change nextSeq ≤ seq ∧ seq < nextSeq + shares.length
  omega

theorem packed_ordered (nextSeq : Nat) (shares : List Share) : (packed nextSeq shares).Ordered := by
  induction shares generalizing nextSeq with
  | nil => exact List.Pairwise.nil
  | cons share shares ih =>
      rw [packed_cons]
      refine List.Pairwise.cons ?_ (ih _)
      intro entry hentry
      have := (packed_from _ _ entry hentry).1
      exact this

theorem log_packed {shares : List Share} (h : ∀ share ∈ shares, share.Recordable) (nextSeq : Nat) :
    (packed nextSeq shares).log = shares := by
  induction shares generalizing nextSeq with
  | nil => rfl
  | cons share shares ih =>
      have hshare := h share List.mem_cons_self
      rw [packed_cons, log_cons (unpack_pack hshare.no_separator),
        ih fun s hs => h s (List.mem_cons_of_mem _ hs)]

theorem packed_readable {shares : List Share} (h : ∀ share ∈ shares, share.Recordable)
    (nextSeq : Nat) : (packed nextSeq shares).Readable := by
  intro entry hentry
  obtain ⟨⟨share, seq⟩, hmem, rfl⟩ := List.mem_map.mp hentry
  have hshare := h share (List.fst_mem_of_mem_zipIdx hmem)
  exact ⟨share, unpack_pack hshare.no_separator, hshare.work_pos⟩

end ShareTable

namespace Store

open ShareTable

variable {table : ShareTable}

theorem insertRows_below {nextSeq : Nat} (h : table.Below nextSeq) (shares : List Share) :
    insertRows table nextSeq shares = table ++ packed nextSeq shares := by
  unfold insertRows
  induction shares generalizing table nextSeq with
  | nil => simp [packed]
  | cons share shares ih =>
      have hnext : (table ++ [(nextSeq, pack share)]).Below (nextSeq + 1) := by
        intro entry hentry
        rcases List.mem_append.mp hentry with hold | hnew
        · have := h entry hold
          omega
        · rw [List.mem_singleton.mp hnew]
          exact Nat.lt_succ_self nextSeq
      have hrow := insert_below h (pack share)
      rw [List.zipIdx_cons, List.foldl_cons]
      change List.foldl _ (table.insert nextSeq (pack share)) _ = _
      rw [hrow, ih hnext, packed_cons, List.append_assoc]
      rfl

/-! ### Opening -/

/-- The key after the last is above every key. -/
theorem below_last (h : table.Ordered) : table.Below (table.last.elim 0 (· + 1)) := by
  intro entry hentry
  obtain ⟨front, last, rfl⟩ := (List.eq_nil_or_concat' table).resolve_left (List.ne_nil_of_mem hentry)
  have hlast : (ShareTable.last (front ++ [last])).elim 0 (· + 1) = last.1 + 1 := by simp [ShareTable.last]
  rw [hlast]
  obtain hfront | hend := List.mem_append.mp hentry
  · have := (List.pairwise_append.mp h).2.2 entry hfront last (List.mem_singleton_self _)
    omega
  · rw [List.mem_singleton.mp hend]
    exact Nat.lt_succ_self _

/-- A store opened has the rows committed before, on disk too. -/
theorem opened_shares {db : Database} {path : String} {keep : Option Nat} {chain : Option String}
    {answer : IoAnswer} {s : Store} (hopen : Store.open db path keep chain answer = .ok s) :
    s.db.committed.shares = db.committed.shares ∧ s.db.durable.shares = db.committed.shares ∧
      s.nextSeq = (db.committed.shares.last).elim 0 (· + 1) := by
  have hstamp : ∀ tables stamped, Store.stampChain path chain db.committed = .ok (tables, stamped) →
      tables.shares = db.committed.shares := by
    intro tables stamped hstamp
    unfold Store.stampChain at hstamp
    split at hstamp
    · cases hstamp; rfl
    · split at hstamp <;> cases hstamp
      rfl
    · cases hstamp; rfl
  unfold Store.open at hopen
  cases hchain : Store.stampChain path chain db.committed with
  | error e => simp [hchain, bind, Except.bind] at hopen
  | ok stamped =>
      obtain ⟨tables, stamped⟩ := stamped
      have hshares := hstamp tables stamped hchain
      cases answer with
      | error e => simp [hchain, bind, Except.bind, Database.write, Except.map] at hopen
      | ok _ =>
          simp only [hchain, bind, Except.bind, Database.write, Except.map, pure, Except.pure,
            Except.ok.injEq] at hopen
          subst hopen
          exact ⟨hshares, hshares, congrArg (fun shares => (ShareTable.last shares).elim 0 (· + 1)) hshares⟩

/-! ### Retention -/

theorem foldl_remove_take (h : table.Ordered) (k : Nat) :
    ((table.take k).map Prod.fst).foldl ShareTable.remove table = table.drop k := by
  induction table generalizing k with
  | nil => simp
  | cons entry table ih =>
      cases k with
      | zero => simp
      | succ k =>
          obtain ⟨hfirst, hrest⟩ := List.pairwise_cons.mp h
          have hremove : ShareTable.remove (entry :: table) entry.1 = table := by
            rw [ShareTable.remove, List.filter_cons_of_neg (by simp)]
            exact List.filter_eq_self.mpr fun later hlater => by
              simpa using (hfirst later hlater).ne'
          rw [List.take_succ_cons, List.map_cons, List.foldl_cons, hremove, List.drop_succ_cons]
          exact ih hrest k

/-- Retention removes oldest rows only, leaves as many as its floor and the configured figure, and none
that the duplicate check reads back. -/
theorem surplusKeys_spec (configured floor keepAfter keepNewest : Nat) (table : ShareTable) :
    ∃ k, surplusKeys configured floor keepAfter keepNewest table = (table.take k).map Prod.fst ∧
      k ≤ table.length - max configured floor ∧ k ≤ MAX_RETAINED_PER_CALL ∧
      ∀ i (hi : i < table.length), i < k →
        readBack (table.length - keepNewest) keepAfter i table[i].2 = false := by
  set surplus := min (table.length - max configured floor) MAX_RETAINED_PER_CALL with hsurplus
  set kept := fun entry : (Nat × Bytes) × Nat =>
    readBack (table.length - keepNewest) keepAfter entry.2 entry.1.2 with hkept
  set removed := (table.take surplus).zipIdx.takeWhile fun entry => !kept entry with hremoved
  have hprefix : removed <+: (table.take surplus).zipIdx := List.takeWhile_prefix _
  have htake : removed = ((table.take surplus).zipIdx).take removed.length :=
    List.prefix_iff_eq_take.mp hprefix
  have hlength : removed.length ≤ surplus := by
    have := hprefix.length_le
    rw [List.length_zipIdx, List.length_take] at this
    omega
  have htable : removed.map Prod.fst = table.take removed.length := by
    conv_lhs => rw [htake]
    rw [List.map_take, List.zipIdx_map_fst, List.take_take, Nat.min_eq_left hlength]
  refine ⟨removed.length, ?_, hlength.trans (Nat.min_le_left _ _), hlength.trans (Nat.min_le_right _ _), ?_⟩
  · have : surplusKeys configured floor keepAfter keepNewest table =
        removed.map fun entry => entry.1.1 := rfl
    rw [this, ← htable, List.map_map]
    rfl
  · intro i hi hik
    have hget : removed[i] = (table[i], i) := by
      have := hprefix.getElem hik
      rw [this, List.getElem_zipIdx]
      simp
    have hmem : removed[i] ∈ removed := List.getElem_mem hik
    have := List.mem_takeWhile_imp hmem
    rw [hget] at this
    simpa [hkept] using this

/-! ### The operations of the store -/

/-- Retention has removed from what is committed the oldest rows of what is on disk. -/
structure Sound (s : Store) : Prop where
  ordered : s.db.durable.shares.Ordered
  readable : s.db.durable.shares.Readable
  committed : s.db.committed.shares <:+ s.db.durable.shares
  below : s.db.durable.shares.Below s.nextSeq

/-- The rows the store holds, as shares. -/
def log (s : Store) : List Share := s.db.committed.shares.log

variable {s s' : Store}

theorem Sound.committed_readable (h : s.Sound) : s.db.committed.shares.Readable :=
  h.readable.of_suffix h.committed

theorem Sound.committed_ordered (h : s.Sound) : s.db.committed.shares.Ordered :=
  h.ordered.of_suffix h.committed

theorem Sound.committed_below (h : s.Sound) : s.db.committed.shares.Below s.nextSeq :=
  h.below.of_suffix h.committed

theorem insertBatch_spec (h : s.Sound) {shares : List Share}
    (hshares : ∀ share ∈ shares, share.Recordable) {cumulativeWork : Nat} {answer : IoAnswer}
    (hinsert : s.insertBatch shares cumulativeWork answer = .ok s') :
    s'.Sound ∧ s'.retainBound = s.retainBound ∧
      s'.db.committed.shares = s.db.committed.shares ++ packed s.nextSeq shares ∧
      s'.log = s.log ++ shares := by
  cases answer with
  | error e => cases hinsert
  | ok _ =>
      cases hinsert
      have hrows := insertRows_below h.committed_below shares
      refine ⟨⟨?_, ?_, List.suffix_refl _, ?_⟩, rfl, hrows, ?_⟩
      · change (insertRows _ _ _).Pairwise _
        rw [hrows]
        refine List.pairwise_append.mpr ⟨h.committed_ordered, packed_ordered _ _, ?_⟩
        intro entry hentry later hlater
        exact (h.committed_below entry hentry).trans_le (packed_from _ _ later hlater).1
      · change (insertRows _ _ _).Readable
        rw [hrows]
        intro entry hentry
        rcases List.mem_append.mp hentry with hold | hnew
        · exact h.committed_readable entry hold
        · exact packed_readable hshares _ entry hnew
      · change (insertRows _ _ _).Below _
        rw [hrows]
        intro entry hentry
        rcases List.mem_append.mp hentry with hold | hnew
        · exact (h.committed_below entry hold).trans_le (Nat.le_add_right _ _)
        · exact (packed_from _ _ entry hnew).2
      · change (insertRows _ _ _).log = _
        rw [hrows, log_append, log_packed hshares]
        rfl

/-- A row retention may remove: past the floor and the configured figure, and not one the duplicate
check reads back. -/
structure Removable (s : Store) (floor keepAfter keepNewest k : Nat) : Prop where
  floor : k ≤ s.db.committed.shares.length - floor
  unread : ∀ i (hi : i < s.db.committed.shares.length), i < k →
    readBack (s.db.committed.shares.length - keepNewest) keepAfter i
      s.db.committed.shares[i].2 = false

theorem retain_spec (h : s.Sound) {floor keepAfter keepNewest n : Nat} {read write : IoAnswer}
    (hretain : s.retain floor keepAfter keepNewest read write = .ok (n, s')) :
    s'.Sound ∧ s'.db.durable = s.db.durable ∧ s'.nextSeq = s.nextSeq ∧
      s'.retainBound = s.retainBound ∧
      s'.db.committed.shares = s.db.committed.shares.drop n ∧
      Removable s floor keepAfter keepNewest n := by
  have hnone : s'.db.committed.shares = s.db.committed.shares → n = 0 →
      s'.db.committed.shares = s.db.committed.shares.drop n ∧
        Removable s floor keepAfter keepNewest n := by
    rintro hsame rfl
    exact ⟨by simpa using hsame, Nat.zero_le _, fun _ _ hi => absurd hi (Nat.not_lt_zero _)⟩
  unfold retain at hretain
  split at hretain
  · cases hretain
    exact ⟨h, rfl, rfl, rfl, hnone rfl rfl⟩
  · next configured _ =>
    cases read with
    | error e => cases hretain
    | ok _ =>
        obtain ⟨k, hkeys, hfloor, -, hunread⟩ := surplusKeys_spec configured floor keepAfter
          keepNewest s.db.committed.shares
        simp only [Store.beginRead, Database.beginRead, Except.map, bind, Except.bind, pure,
          Except.pure] at hretain
        split at hretain
        · cases hretain
          exact ⟨h, rfl, rfl, rfl, hnone rfl rfl⟩
        · cases write with
          | error e => cases hretain
          | ok _ =>
              rw [hkeys] at hretain
              simp only [Database.writeDeferred, Except.map, foldl_remove_take h.committed_ordered,
                Except.ok.injEq, Prod.mk.injEq] at hretain
              obtain ⟨hn, rfl⟩ := hretain
              have hk : k = n := by
                rw [← hn, List.length_map, List.length_take]
                omega
              subst hk
              refine ⟨⟨h.ordered, h.readable, ?_, h.below⟩, rfl, rfl, rfl, rfl, ?_, hunread⟩
              · exact (List.drop_suffix _ _).trans h.committed
              · exact hfloor.trans (Nat.sub_le_sub_left (Nat.le_max_right _ _) _)

end Store
end Ratum
