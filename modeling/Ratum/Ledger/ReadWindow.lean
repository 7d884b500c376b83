import Ratum.Ledger.StoreSpec

/-!
# What a read of the window passes on

The first pass of `read_window` walks back to the row the window starts at, the second passes on every
row from there. What it passes on is a suffix of the stored log that decides the window.
-/

namespace Ratum

open ShareTable

namespace WindowScan

/-- The scan has passed these rows, newest first. -/
structure Passed (scan : WindowScan) (rows : ShareTable) : Prop where
  work : scan.work = min (Suffix.total Share.work rows.log) U128_MAX
  counted : scan.counted = rows.length
  start : scan.start = rows.getLast?.map Prod.fst

theorem new_passed : new.Passed [] := ⟨by simp [new, ShareTable.log], rfl, rfl⟩

theorem Passed.count {scan : WindowScan} {rows : ShareTable} (h : scan.Passed rows)
    {seq : Nat} {row : Bytes} {share : Share} (hrow : unpack row = some share) :
    (scan.count seq share.head).Passed (rows ++ [(seq, row)]) := by
  have hlog : ShareTable.log [(seq, row)] = [share] := log_cons hrow []
  refine ⟨?_, ?_, ?_⟩
  · rw [log_append, hlog, Suffix.total_append, Suffix.total_cons, Suffix.total_nil]
    change min (scan.work + share.work) U128_MAX = _
    rw [h.work]
    omega
  · rw [List.length_append, ← h.counted]
    rfl
  · rw [List.getLast?_append]
    rfl

/-- The first pass stops at the window, at the count bound or at the oldest row. -/
theorem back_spec (window maxShares : Nat) (scan : WindowScan) {passed rows : ShareTable} (h : scan.Passed passed)
    (hrows : rows.Readable) :
    ∃ more older, rows = more ++ older ∧ (back window maxShares scan rows).Passed (passed ++ more) ∧
      (older = [] ∨ window ≤ (back window maxShares scan rows).work ∨
        maxShares ≤ (back window maxShares scan rows).counted) := by
  induction rows generalizing scan passed with
  | nil =>
      refine ⟨[], [], rfl, ?_, .inl rfl⟩
      rw [List.append_nil, back]
      split
      · split
        · exact ⟨h.work, h.counted, h.start⟩
        · exact h
      · exact h
  | cons entry rows ih =>
      obtain ⟨seq, row⟩ := entry
      by_cases hwork : scan.work < window
      · by_cases hcount : maxShares ≤ scan.counted
        · have hback : back window maxShares scan ((seq, row) :: rows) =
              { scan with hitCountCap := true } := by
            rw [back, if_pos hwork, if_pos hcount]
          rw [hback]
          exact ⟨[], _, rfl, by simpa using ⟨h.work, h.counted, h.start⟩, .inr (.inr hcount)⟩
        · obtain ⟨share, hshare, -⟩ := hrows (seq, row) List.mem_cons_self
          have hhead : unpackHead row = some share.head := by
            rw [unpackHead_eq_map_unpack, hshare]
            rfl
          have hback : back window maxShares scan ((seq, row) :: rows) =
              back window maxShares (scan.count seq share.head) rows := by
            rw [back, if_pos hwork, if_neg hcount]
            simp only [hhead]
          obtain ⟨more, older, hsplit, hpassed, hstop⟩ := ih (scan.count seq share.head)
            (h.count hshare) fun entry hentry => hrows entry (List.mem_cons_of_mem _ hentry)
          rw [hback]
          refine ⟨(seq, row) :: more, older, by rw [hsplit]; rfl, ?_, hstop⟩
          rw [List.append_cons]
          exact hpassed
      · have hback : back window maxShares scan ((seq, row) :: rows) = scan := by
          rw [back, if_neg hwork]
        rw [hback]
        exact ⟨[], _, rfl, by simpa using h, .inr (.inl (by omega))⟩

end WindowScan

/-- The rows from the key of a table's entry on. -/
theorem range_append_cons {older : ShareTable} {entry : Nat × Bytes} {newer : ShareTable}
    (h : Ordered (older ++ entry :: newer)) :
    ShareTable.range (older ++ entry :: newer) entry.1 = entry :: newer := by
  obtain ⟨-, hnewer, hbefore⟩ := List.pairwise_append.mp h
  rw [ShareTable.range, List.filter_append]
  have hnone : older.filter (fun e => decide (entry.1 ≤ e.1)) = [] :=
    List.filter_eq_nil_iff.mpr fun e he => by
      simpa using hbefore e he entry List.mem_cons_self
  have hall : (entry :: newer).filter (fun e => decide (entry.1 ≤ e.1)) = entry :: newer := by
    refine List.filter_eq_self.mpr fun e he => ?_
    rcases List.mem_cons.mp he with rfl | he
    · simp
    · simpa using ((List.pairwise_cons.mp hnewer).1 e he).le
  rw [hnone, hall, List.nil_append]

/-- **What a read passes on decides the window**: a suffix of the log that is all of it, reaches the
window or reaches the count bound. -/
theorem readWindow_spec {table : ShareTable} (hordered : table.Ordered) (hreadable : table.Readable)
    {window : Nat} (hwindow : window ≤ U128_MAX) (maxShares : Nat) :
    ∃ older, table.log = older ++ (readWindow table window maxShares).1 ∧
      (older = [] ∨
        Suffix.Decides Share.work window maxShares (readWindow table window maxShares).1) := by
  have hreverse : Readable table.reverse := fun entry hentry =>
    hreadable entry (List.mem_reverse.mp hentry)
  obtain ⟨passed, older, hsplit, hpassed, hstop⟩ :=
    WindowScan.back_spec window maxShares _ WindowScan.new_passed hreverse
  rw [List.nil_append] at hpassed
  set scan := WindowScan.back window maxShares .new table.reverse with hscan
  have htable : table = older.reverse ++ passed.reverse := by
    rw [← List.reverse_append, ← hsplit, List.reverse_reverse]
  have hread : (readWindow table window maxShares).1 = ShareTable.log passed.reverse := by
    unfold readWindow
    rw [← hscan]
    rcases List.eq_nil_or_concat passed with rfl | ⟨front, oldest, rfl⟩
    · have hstart : scan.start = none := hpassed.start
      simp [hstart, ShareTable.log]
    · have hstart : scan.start = some oldest.1 := by
        rw [hpassed.start]
        simp
      rw [List.concat_eq_append, List.reverse_append] at htable ⊢
      simp only [hstart]
      rw [htable, List.reverse_singleton, List.singleton_append,
        range_append_cons (by simpa using htable ▸ hordered)]
  have hlogReverse : ShareTable.log passed.reverse = passed.log.reverse := by
    simp [ShareTable.log, List.filterMap_reverse]
  have hlength : (ShareTable.log passed.reverse).length = passed.length := by
    have hsuffix : passed.reverse <:+ table := htable ▸ List.suffix_append _ _
    rw [(hreadable.of_suffix hsuffix).length_log, List.length_reverse]
  refine ⟨ShareTable.log older.reverse, ?_, ?_⟩
  · rw [hread, ← log_append, ← htable]
  · rcases hstop with rfl | hwork | hcount
    · exact .inl rfl
    · refine .inr (.inl ?_)
      rw [hpassed.work] at hwork
      rw [hread, hlogReverse, Suffix.total_reverse]
      omega
    · refine .inr (.inr ?_)
      rw [hread, hlength, ← hpassed.counted]
      exact hcount

/-- The newest shares of what a read passes on are those of the stored log. -/
theorem newest_readWindow {table : ShareTable} (hordered : table.Ordered)
    (hreadable : table.Readable) {window : Nat} (hwindow : window ≤ U128_MAX) (maxShares : Nat) :
    Suffix.newest Share.work window maxShares (readWindow table window maxShares).1 =
      Suffix.newest Share.work window maxShares table.log := by
  obtain ⟨older, hlog, hdecides⟩ := readWindow_spec hordered hreadable hwindow maxShares
  rw [hlog, Suffix.newest_of_decides Share.work hdecides]

end Ratum
