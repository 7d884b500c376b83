import Ratum.Ledger.Retention

/-!
# The rows a restart reads back

The rows of a table as the last of the shares ever recorded, through what is recorded, what retention removes
and what is opened again, and what the scan for the shares accepted since a cutoff finds of them.
-/

namespace Ratum

/-- The time a share was accepted at and its hash, as the scan gives them. -/
def Share.acceptance (share : Share) : UInt64 × Hash := (share.acceptedAt, share.blockHash)

namespace ShareTable

variable {table : ShareTable} {nextSeq : Nat} {recorded kept : List Share} {spent spent' : Share → Prop}

/-- The rows are those of these shares. -/
def RowsOf (table : ShareTable) (kept : List Share) : Prop :=
  (table.map fun entry => unpackHead entry.2) = kept.map fun share => some share.head

/-- The rows, in order, are of the last of the shares recorded, and the shares that have none are spent. -/
structure Backs (table : ShareTable) (nextSeq : Nat) (recorded : List Share) (spent : Share → Prop) : Prop where
  ordered : table.Ordered
  below : table.Below nextSeq
  rows : ∃ gone kept, recorded = gone ++ kept ∧ table.RowsOf kept ∧ ∀ share ∈ gone, spent share

theorem Backs.mono (h : table.Backs nextSeq recorded spent) (himp : ∀ share ∈ recorded, spent share → spent' share) :
    table.Backs nextSeq recorded spent' := by
  obtain ⟨gone, kept, rfl, hrows, hspent⟩ := h.rows
  exact ⟨h.ordered, h.below, gone, kept, rfl, hrows, fun share hgone =>
    himp share (List.mem_append_left _ hgone) (hspent share hgone)⟩

theorem Backs.nil : Backs [] nextSeq [] spent where
  ordered := List.Pairwise.nil
  below entry hentry := by cases hentry
  rows := ⟨[], [], rfl, rfl, fun share hgone => by cases hgone⟩

theorem unpackHead_pack (share : Share) : unpackHead (pack share) = some share.head := by
  rw [unpackHead, readHead_pack]
  rfl

theorem rowsOf_packed (nextSeq : Nat) (shares : List Share) : (packed nextSeq shares).RowsOf shares := by
  induction shares generalizing nextSeq with
  | nil => rfl
  | cons share shares ih =>
      have hrest : (packed (nextSeq + 1) shares).map (fun entry => unpackHead entry.2) = _ := ih (nextSeq + 1)
      rw [RowsOf, packed_cons, List.map_cons, List.map_cons, unpackHead_pack, hrest]

/-- What is recorded is backed too. -/
theorem Backs.insert (h : table.Backs nextSeq recorded spent) (shares : List Share) :
    (Store.insertRows table nextSeq shares).Backs (nextSeq + shares.length) (recorded ++ shares) spent := by
  rw [Store.insertRows_below h.below]
  obtain ⟨gone, kept, rfl, hrows, hspent⟩ := h.rows
  refine ⟨?_, ?_, gone, kept ++ shares, List.append_assoc _ _ _, ?_, hspent⟩
  · refine List.pairwise_append.mpr ⟨h.ordered, packed_ordered _ _, fun entry hentry later hlater => ?_⟩
    exact (h.below entry hentry).trans_le (packed_from _ _ later hlater).1
  · intro entry hentry
    obtain hold | hnew := List.mem_append.mp hentry
    · exact (h.below entry hold).trans_le (Nat.le_add_right _ _)
    · exact (packed_from _ _ entry hnew).2
  · have hpacked : (packed nextSeq shares).map (fun entry => unpackHead entry.2) = _ := rowsOf_packed nextSeq shares
    have hkept : table.map (fun entry => unpackHead entry.2) = _ := hrows
    rw [RowsOf, List.map_append, List.map_append, hkept, hpacked]

/-- The share a row is of, by its position. -/
theorem RowsOf.getElem? (h : table.RowsOf kept) {i : Nat} {share : Share} (hshare : kept[i]? = some share) :
    ∃ row, table[i]? = some row ∧ unpackHead row.2 = some share.head := by
  have hat := congrArg (·[i]?) h
  simp only [List.getElem?_map, hshare, Option.map_some] at hat
  obtain ⟨row, hrow, hhead⟩ := Option.map_eq_some_iff.mp hat
  exact ⟨row, hrow, hhead⟩

theorem RowsOf.length (h : table.RowsOf kept) : table.length = kept.length := by
  have hlength := congrArg List.length h
  rwa [List.length_map, List.length_map] at hlength

/-- The oldest rows are removed, of shares that are spent. -/
theorem Backs.drop (h : table.Backs nextSeq recorded spent) {n : Nat}
    (hspent : ∀ kept, kept <:+ recorded → table.RowsOf kept → ∀ share ∈ kept.take n, spent share) :
    ShareTable.Backs (table.drop n) nextSeq recorded spent := by
  obtain ⟨gone, kept, rfl, hrows, hgone⟩ := h.rows
  refine ⟨h.ordered.of_suffix (List.drop_suffix _ _), h.below.of_suffix (List.drop_suffix _ _),
    gone ++ kept.take n, kept.drop n, ?_, ?_, fun share hmem => ?_⟩
  · rw [List.append_assoc, List.take_append_drop]
  · rw [RowsOf, List.map_drop, List.map_drop, show table.map (fun entry => unpackHead entry.2) = _ from hrows]
  · obtain hmem | hmem := List.mem_append.mp hmem
    · exact hgone share hmem
    · exact hspent kept (List.suffix_append _ _) hrows share hmem

/-! ### The scan -/

/-- The scan of the rows is of the shares as far back as they are no older than the cutoff. -/
theorem acceptedBack_eq {cutoff : Nat} (h : table.RowsOf kept) (max : Nat) :
    Store.acceptedBack cutoff max table =
      ((kept.takeWhile fun share => cutoff ≤ share.acceptedAt.toNat).take max).map Share.acceptance := by
  induction table generalizing kept max with
  | nil =>
      obtain rfl : kept = [] := List.length_eq_zero_iff.mp h.length.symm
      cases max <;> rfl
  | cons entry table ih =>
      obtain ⟨seq, row⟩ := entry
      cases max with
      | zero => rw [Store.acceptedBack, List.take_zero, List.map_nil]
      | succ max =>
          cases kept with
          | nil => cases h
          | cons share kept =>
              obtain ⟨hhead, hrest⟩ := List.cons.inj h
              rw [Store.acceptedBack, show unpackHead row = some share.head from hhead, List.takeWhile_cons]
              dsimp only
              by_cases hold : share.acceptedAt.toNat < cutoff
              · rw [if_pos (show share.head.acceptedAt.toNat < cutoff from hold),
                  if_neg (by rw [decide_eq_true_eq]; exact Nat.not_le.mpr hold)]
                rfl
              · rw [if_neg (show ¬share.head.acceptedAt.toNat < cutoff from hold),
                  if_pos (decide_eq_true (Nat.not_lt.mp hold)), List.take_succ_cons, List.map_cons, ih hrest max]
                rfl

end ShareTable

namespace Store

open ShareTable

variable {s s' : Store} {recorded kept : List Share} {spent : Share → Prop} {rows : List (UInt64 × Hash)}

/-- What the scan for the shares accepted since a cutoff finds. -/
structure Seeds (kept : List Share) (cutoff max : Nat) (rows : List (UInt64 × Hash)) : Prop where
  suffix : rows <:+ kept.map Share.acceptance
  since : ∀ row ∈ rows, cutoff ≤ row.1.toNat
  length : rows.length ≤ max
  /-- A share is found when it and every later one are recent enough, and no more than are asked for. -/
  found : ∀ share later, share :: later <:+ kept → later.length < max →
    (∀ newer ∈ share :: later, cutoff ≤ newer.acceptedAt.toNat) → share.acceptance ∈ rows

/-- **What the scan finds**, of rows that are of these shares. -/
theorem acceptedSince_seeds (h : s.db.committed.shares.RowsOf kept) {cutoff max : Nat} {answer : IoAnswer}
    (hrows : s.acceptedSince cutoff max answer = .ok rows) : Seeds kept cutoff max rows := by
  cases answer with
  | error e => cases hrows
  | ok _ =>
      have hreverse : ShareTable.RowsOf s.db.committed.shares.reverse kept.reverse := by
        rw [RowsOf, List.map_reverse, List.map_reverse, show s.db.committed.shares.map _ = _ from h]
      have heq : rows = (((kept.reverse.takeWhile fun share => cutoff ≤ share.acceptedAt.toNat).take max).map
          Share.acceptance).reverse := by
        rw [← acceptedBack_eq hreverse]
        exact (Except.ok.inj hrows).symm
      have hprefix := (List.take_prefix max _).trans
        (List.takeWhile_prefix (fun share : Share => decide (cutoff ≤ share.acceptedAt.toNat)) (l := kept.reverse))
      refine ⟨?_, fun row hrow => ?_, ?_, fun share later hlater hlength hrecent => ?_⟩
      · rw [heq, ← List.reverse_prefix, List.reverse_reverse, ← List.map_reverse]
        exact hprefix.map _
      · rw [heq, List.mem_reverse] at hrow
        obtain ⟨share, hshare, rfl⟩ := List.mem_map.mp hrow
        have hrecent := List.mem_takeWhile_imp (List.mem_of_mem_take hshare)
        exact of_decide_eq_true hrecent
      · rw [heq, List.length_reverse, List.length_map]
        exact List.length_take_le _ _
      · -- newest first, the share is the last of a prefix the scan goes through
        obtain ⟨older, hkept⟩ := hlater
        have hnewest : kept.reverse = (share :: later).reverse ++ older.reverse := by
          rw [← List.reverse_append, hkept]
        have hscanned : ∀ newer ∈ (share :: later).reverse, decide (cutoff ≤ newer.acceptedAt.toNat) = true :=
          fun newer hnewer => decide_eq_true (hrecent newer (List.mem_reverse.mp hnewer))
        rw [heq, List.mem_reverse, hnewest, List.takeWhile_append_of_pos hscanned]
        refine List.mem_map_of_mem ?_
        rw [List.take_append]
        refine List.mem_append_left _ ?_
        rw [List.take_of_length_le (by rw [List.length_reverse, List.length_cons]; omega), List.mem_reverse]
        exact List.mem_cons_self

/-! ### The store's operations -/

/-- What is committed and what is on disk are both backed by the shares recorded. -/
structure Backs (s : Store) (recorded : List Share) (spent : Share → Prop) : Prop where
  committed : s.db.committed.shares.Backs s.nextSeq recorded spent
  durable : s.db.durable.shares.Backs s.nextSeq recorded spent

theorem Backs.mono (h : s.Backs recorded spent) {spent' : Share → Prop}
    (himp : ∀ share ∈ recorded, spent share → spent' share) : s.Backs recorded spent' :=
  ⟨h.committed.mono himp, h.durable.mono himp⟩

theorem Backs.insertBatch (h : s.Backs recorded spent) {shares : List Share} {cumulativeWork : Nat}
    {answer : IoAnswer} (hinsert : s.insertBatch shares cumulativeWork answer = .ok s') :
    s'.Backs (recorded ++ shares) spent := by
  cases answer with
  | error e => cases hinsert
  | ok _ =>
      cases hinsert
      exact ⟨h.committed.insert shares, h.committed.insert shares⟩

/-- Retention changes what is committed only, by removing oldest rows that are not read back. -/
theorem retain_rows (hordered : s.db.committed.shares.Ordered) {floor keepAfter keepNewest n : Nat}
    {read write : IoAnswer} (hretain : s.retain floor keepAfter keepNewest read write = .ok (n, s')) :
    s'.db.committed.shares = s.db.committed.shares.drop n ∧ s'.db.durable = s.db.durable ∧ s'.nextSeq = s.nextSeq ∧
      ∀ i row, i < n → s.db.committed.shares[i]? = some row → s.db.committed.shares.length - keepNewest ≤ i →
        ∀ head, unpackHead row.2 = some head → head.acceptedAt.toNat < keepAfter := by
  have hretained := retain_retained hordered hretain
  refine ⟨hretained.rows_eq, and_assoc.mp ⟨?_, hretained.unread⟩⟩
  unfold retain at hretain
  split at hretain
  · cases hretain
    exact ⟨rfl, rfl⟩
  · cases read with
    | error e => cases hretain
    | ok _ =>
        simp only [beginRead, Database.beginRead, Except.map, bind, Except.bind, pure, Except.pure] at hretain
        split at hretain
        · cases hretain
          exact ⟨rfl, rfl⟩
        · cases write with
          | error e => cases hretain
          | ok _ =>
              cases hretain
              exact ⟨rfl, rfl⟩

/-- A database opened has its rows, and the next of their keys. -/
theorem backs_open {db : Database} {nextSeq : Nat} (h : db.committed.shares.Backs nextSeq recorded spent)
    {path : String} {keep : Option Nat} {chain : Option String} {answer : IoAnswer}
    (hopen : Store.open db path keep chain answer = .ok s) : s.Backs recorded spent := by
  have hshares : s.db.committed.shares = db.committed.shares ∧ s.db.durable.shares = db.committed.shares ∧
      s.nextSeq = (db.committed.shares.last).elim 0 (· + 1) := opened_shares hopen
  have hbelow : db.committed.shares.Below ((db.committed.shares.last).elim 0 (· + 1)) := below_last h.ordered
  obtain ⟨hcommitted, hdurable, hnext⟩ := hshares
  refine ⟨?_, ?_⟩
  · rw [hcommitted, hnext]
    exact ⟨h.ordered, hbelow, h.rows⟩
  · rw [hdurable, hnext]
    exact ⟨h.ordered, hbelow, h.rows⟩

end Store

end Ratum
