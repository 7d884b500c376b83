import Ratum.Ledger.Confirmations

/-!
# No block waits for its confirmations forever

While no block is recorded, the blocks a pass leaves out are ahead of those it read, and only fewer. A block
that is left out has as many blocks read before it as a pass reads, so its turn comes.
-/

namespace Ratum

/-! ### The records under another thread's operation -/

/-- The blocks that stay, with their readings. -/
structure StoredRecords.Leaves (records records' : StoredRecords) : Prop where
  blocks : records'.blocks.Sublist records.blocks
  lookup : ∀ block ∈ records'.blocks, records'.confirmations.lookup block.blockHash =
    records.confirmations.lookup block.blockHash
  lookup_none : ∀ hash, records.confirmations.lookup hash = none →
    records'.confirmations.lookup hash = none

namespace StoredRecords

variable {records records' : StoredRecords}

theorem Leaves.of_eq (hblocks : records'.blocks = records.blocks)
    (hconfirmations : records'.confirmations = records.confirmations) : records.Leaves records' :=
  ⟨hblocks ▸ .refl _, fun _ _ => by rw [hconfirmations], fun _ h => by rwa [hconfirmations]⟩

/-- A row is written, and nothing else changes, or nothing does. -/
theorem put_cases (records : StoredRecords) (table : RecordTable) (key value : Bytes)
    (answer : IoAnswer) :
    (∃ db, records.put table key value answer = (.ok (), { records with db })) ∨
      ∃ e, records.put table key value answer = (.error e, records) ∧ answer = .error e := by
  unfold put
  split
  · exact .inl ⟨records.db, rfl⟩
  · exact .inr ⟨_, rfl, rfl⟩
  · exact .inl ⟨_, rfl⟩

theorem recordOwed_leaves (owed : OwedBlock) (answer : IoAnswer) :
    records.Leaves (records.recordOwed owed answer).2 := by
  unfold recordOwed writeOwed
  split
  · exact .of_eq rfl rfl
  · rcases records.put_cases .owed owed.blockHash.toList (packOwed owed) answer with
      ⟨db, hput⟩ | ⟨e, hput, -⟩ <;> rw [hput] <;> exact .of_eq rfl rfl

theorem settleOwed_leaves (hash : Hash) (settledAt : UInt64) (answer : IoAnswer) :
    records.Leaves (records.settleOwed hash settledAt answer).2 := by
  unfold settleOwed writeOwed
  split
  · exact .of_eq rfl rfl
  split
  · exact .of_eq rfl rfl
  split
  · exact .of_eq rfl rfl
  rename_i owed _ _
  dsimp only
  rcases records.put_cases .owed owed.blockHash.toList
      (packOwed { owed with settledAt := some (max settledAt.toNat 1) }) answer with
    ⟨db, hput⟩ | ⟨e, hput, -⟩ <;> rw [hput] <;> exact .of_eq rfl rfl

/-- A void that succeeds removes the block and its reading. -/
theorem voidBlock_ok (hnodup : (records.blocks.map (·.blockHash)).Nodup) {hash : Hash}
    {answer : IoAnswer} {voided : Voided} (hok : (records.voidBlock hash answer).1 = .ok voided) :
    (records.voidBlock hash answer).2.blocks = records.blocks.filter (·.blockHash ≠ hash) ∧
      (records.voidBlock hash answer).2.confirmations = records.confirmations.erase hash := by
  have hblocks := List.eraseIdx_findIdx? hnodup hash
  unfold voidBlock at hok ⊢
  dsimp only at hok ⊢
  split
  · rename_i hnothing
    obtain ⟨hblock, -, hread⟩ := hnothing
    rw [Option.isNone_iff_eq_none] at hblock
    rw [hblock] at hblocks
    exact ⟨hblocks, (RowFormat.Keeps.erase_of_notMem hread).symm⟩
  · rename_i hsome
    rw [if_neg hsome] at hok
    cases hdb : records.db with
    | none => exact ⟨hblocks, rfl⟩
    | some db =>
        cases answer with
        | error e => simp only [hdb, reduceCtorEq] at hok
        | ok _ => exact ⟨hblocks, rfl⟩

theorem voidBlock_error {hash : Hash} {answer : IoAnswer} {e : IoError}
    (herror : (records.voidBlock hash answer).1 = .error e) :
    (records.voidBlock hash answer).2 = records := by
  unfold voidBlock at herror ⊢
  dsimp only at herror ⊢
  split
  · rfl
  · rename_i hsome
    rw [if_neg hsome] at herror
    cases hdb : records.db with
    | none => simp only [hdb, reduceCtorEq] at herror
    | some db =>
        cases answer with
        | error e => rfl
        | ok _ => simp only [hdb, reduceCtorEq] at herror

theorem voidBlock_leaves (hnodup : (records.blocks.map (·.blockHash)).Nodup) (hash : Hash)
    (answer : IoAnswer) : records.Leaves (records.voidBlock hash answer).2 := by
  cases hresult : (records.voidBlock hash answer).1 with
  | error e => rw [voidBlock_error hresult]; exact .of_eq rfl rfl
  | ok voided =>
      obtain ⟨hblocks, hconfirmations⟩ := voidBlock_ok hnodup hresult
      refine ⟨hblocks ▸ List.filter_sublist, ?_, ?_⟩
      · intro block hblock
        rw [hblocks, List.mem_filter] at hblock
        rw [hconfirmations, AList.lookup_erase_ne (by simpa using hblock.2)]
      · intro h hnone
        rw [hconfirmations]
        by_cases heq : h = hash
        · rw [heq, AList.lookup_erase]
        · rw [AList.lookup_erase_ne heq, hnone]

end StoredRecords

theorem RecordOp.leaves {records : StoredRecords} (hnodup : (records.blocks.map (·.blockHash)).Nodup)
    {op : RecordOp} {answer : IoAnswer} (hnone : op.RecordsNone records answer) :
    records.Leaves (op.apply records answer).2 := by
  cases op with
  | recordBlock block =>
      rw [show (RecordOp.apply records answer (.recordBlock block)).2 = records from hnone]
      exact .of_eq rfl rfl
  | recordOwed owed => exact StoredRecords.recordOwed_leaves owed answer
  | settleOwed hash settledAt => exact StoredRecords.settleOwed_leaves hash settledAt answer
  | recordConfirmations hash reading => exact hnone.elim
  | voidBlock hash => exact StoredRecords.voidBlock_leaves hnodup hash answer

/-! ### What a step leaves -/

variable {E : Type} {s s' : Passes} {event : PassEvent E}

theorem mem_of_block {records : StoredRecords} {hash : Hash}
    (h : ¬ (records.block hash).isNone) : ∃ block ∈ records.blocks, block.blockHash = hash := by
  have hsome : (records.block hash).isSome := by
    cases hblock : records.block hash with
    | none => rw [hblock] at h; exact absurd rfl h
    | some _ => rfl
  rw [StoredRecords.block, List.find?_isSome] at hsome
  simpa using hsome

theorem recordBlock_new {records : StoredRecords} {block : FoundBlock F64} {answer : IoAnswer}
    (hnew : (records.recordBlock block answer).2 ≠ records) :
    (records.recordBlock block answer).2.blocks = records.blocks ++ [block] ∧
      (records.recordBlock block answer).2.confirmations = records.confirmations ∧
      ∀ held ∈ records.blocks, held.blockHash ≠ block.blockHash := by
  unfold StoredRecords.recordBlock at hnew ⊢
  split at hnew
  · exact absurd rfl hnew
  · rename_i hnone
    rw [if_neg hnone]
    rcases records.put_cases .blocks block.blockHash.toList (packBlock block) answer with
      ⟨db, hput⟩ | ⟨e, hput, -⟩
    · rw [hput]
      refine ⟨rfl, rfl, fun held hheld heq => hnone ?_⟩
      rw [StoredRecords.block, List.find?_isSome]
      exact ⟨held, hheld, by simpa using heq⟩
    · rw [hput] at hnew
      exact absurd rfl hnew

/-- A block's turn leaves the blocks and the other blocks' readings as they are. -/
theorem checkBlock_frame (records : StoredRecords) (now : UInt64) (hash : Hash)
    (answer : Except E (Option Int64)) (write : IoAnswer) :
    (checkBlock records now hash answer write).blocks = records.blocks ∧
      ∀ h, h ≠ hash → (checkBlock records now hash answer write).confirmations.lookup h =
        records.confirmations.lookup h := by
  unfold checkBlock StoredRecords.recordConfirmations
  split
  · exact ⟨rfl, fun _ _ => rfl⟩
  dsimp only
  split
  · exact ⟨rfl, fun _ _ => rfl⟩
  · rename_i found _
    rcases records.put_cases .chainState hash.toList
        (packConfirmations ⟨now, found.getD ConfirmationReading.NOT_STORED⟩) write with
      ⟨db, hput⟩ | ⟨e, hput, -⟩ <;> rw [hput]
    · exact ⟨rfl, fun h hne => AList.lookup_insert_ne hne⟩
    · exact ⟨rfl, fun _ _ => rfl⟩

/-- A block that is read and not voided has its reading dated as the pass. -/
theorem checkBlock_reads {records : StoredRecords} {block : FoundBlock F64}
    (hheld : block ∈ records.blocks) (now : UInt64) (found : Option Int64) :
    ∃ confirmations, (checkBlock (E := E) records now block.blockHash (.ok found)
      (.ok ())).confirmations.lookup block.blockHash = some ⟨now, confirmations⟩ := by
  have hblock : ¬ (records.block block.blockHash).isNone := by
    have hsome : (records.block block.blockHash).isSome := by
      rw [StoredRecords.block, List.find?_isSome]
      exact ⟨block, hheld, by simp⟩
    rw [Option.isNone_iff_eq_none]
    exact Option.isSome_iff_ne_none.mp hsome
  refine ⟨found.getD ConfirmationReading.NOT_STORED, ?_⟩
  unfold checkBlock StoredRecords.recordConfirmations
  dsimp only
  rw [if_neg hblock]
  rcases records.put_cases .chainState block.blockHash.toList
      (packConfirmations ⟨now, found.getD ConfirmationReading.NOT_STORED⟩) (.ok ()) with
    ⟨db, hput⟩ | ⟨e, -, herror⟩
  · rw [hput]
    exact AList.lookup_insert records.confirmations
  · cases herror

theorem PassStep.nodup (hstep : PassStep s event s')
    (hnodup : (s.records.blocks.map (·.blockHash)).Nodup) :
    (s'.records.blocks.map (·.blockHash)).Nodup := by
  cases hstep with
  | began now hdone => exact hnodup
  | read answer write hnext => rw [(checkBlock_frame _ _ _ answer write).1]; exact hnodup
  | recorded block answer hnew =>
      obtain ⟨hblocks, -, hother⟩ := recordBlock_new hnew
      rw [hblocks, List.map_append, List.nodup_append]
      refine ⟨hnodup, by simp, ?_⟩
      intro a ha b hb heq
      obtain ⟨held, hheld, rfl⟩ := List.mem_map.mp ha
      exact hother held hheld (heq.trans (List.mem_singleton.mp hb))
  | changed op answer hnone => exact hnodup.sublist ((RecordOp.leaves hnodup hnone).blocks.map _)

/-- A hash without a block or a reading gains none unless its block is recorded. -/
theorem PassStep.none_kept (hstep : PassStep s event s')
    (hnodup : (s.records.blocks.map (·.blockHash)).Nodup) {hash : Hash}
    (hevent : ∀ block, event = .recorded block → block.blockHash ≠ hash)
    (hblock : ∀ block ∈ s.records.blocks, block.blockHash ≠ hash)
    (hreading : s.records.confirmations.lookup hash = none) :
    (∀ block ∈ s'.records.blocks, block.blockHash ≠ hash) ∧
      s'.records.confirmations.lookup hash = none := by
  cases hstep with
  | began now hdone => exact ⟨hblock, hreading⟩
  | @read read rest answer write hnext =>
      obtain ⟨hblocks, hother⟩ := checkBlock_frame s.records s.now read answer write
      refine ⟨by rw [hblocks]; exact hblock, ?_⟩
      by_cases heq : hash = read
      · subst heq
        have hvoided : (s.records.block hash).isNone := by
          by_contra hheld
          obtain ⟨block, hmem, hhash⟩ := mem_of_block hheld
          exact hblock block hmem hhash
        have hsame : checkBlock s.records s.now hash answer write = s.records := by
          unfold checkBlock
          split
          · rfl
          · exact if_pos hvoided
        rw [hsame]
        exact hreading
      · rw [hother hash heq, hreading]
  | recorded block answer hnew =>
      obtain ⟨hblocks, hconfirmations, -⟩ := recordBlock_new hnew
      refine ⟨?_, by rw [hconfirmations]; exact hreading⟩
      intro held hheld
      rw [hblocks, List.mem_append, List.mem_singleton] at hheld
      rcases hheld with hheld | rfl
      · exact hblock held hheld
      · exact hevent _ rfl
  | changed op answer hnone =>
      have hleaves := RecordOp.leaves hnodup hnone
      exact ⟨fun block hmem => hblock block (hleaves.blocks.subset hmem),
        hleaves.lookup_none hash hreading⟩

/-! ### The blocks ahead of one that waits -/

theorem readBefore_trans {a b c : Option UInt64} (hab : readBefore a b) (hbc : readBefore b c) :
    readBefore a c := by
  cases a <;> cases b <;> cases c <;> simp_all [readBefore]
  exact UInt64.le_trans hab hbc

theorem readBefore_total (a b : Option UInt64) : readBefore a b || readBefore b a := by
  cases a <;> cases b <;> simp [readBefore]
  exact UInt64.le_total _ _

/-- The block is under the depth, was last read no later than the one that waits, and is not about to be
read. -/
def isAhead (s : Passes) (hash : Hash) (last : Option UInt64) (block : FoundBlock F64) : Bool :=
  block.blockHash ≠ hash && block.blockHash ∉ s.pending &&
    (underDepthAt s.records block).any fun entry => readBefore entry.1 last

def ahead (s : Passes) (hash : Hash) (last : Option UInt64) : Nat :=
  s.records.blocks.countP (isAhead s hash last)

theorem underDepthAt_congr {records records' : StoredRecords} {block : FoundBlock F64}
    (hlookup : records'.confirmations.lookup block.blockHash =
      records.confirmations.lookup block.blockHash) :
    underDepthAt records' block = underDepthAt records block := by
  rw [underDepthAt, underDepthAt, hlookup]

theorem underDepthAt_eq_some {records : StoredRecords} {block : FoundBlock F64}
    {entry : Option UInt64 × Hash} (h : underDepthAt records block = some entry) :
    entry = ((records.confirmations.lookup block.blockHash).map (·.checkedAt), block.blockHash) := by
  unfold underDepthAt at h
  split at h
  · rename_i hnone
    rw [hnone]
    exact (Option.some.inj h).symm
  · rename_i reading hsome
    split at h
    · rw [hsome]
      exact (Option.some.inj h).symm
    · cases h

/-- An entry of a block that is under the depth. -/
theorem mem_underDepth {records : StoredRecords} {entry : Option UInt64 × Hash}
    (h : entry ∈ underDepth records) :
    ∃ block ∈ records.blocks, block.blockHash = entry.2 ∧ underDepthAt records block = some entry ∧
      entry.1 = (records.confirmations.lookup entry.2).map (·.checkedAt) := by
  obtain ⟨block, hblock, hentry⟩ := List.mem_filterMap.mp h
  have heq := underDepthAt_eq_some hentry
  subst heq
  exact ⟨block, hblock, rfl, hentry, rfl⟩

theorem mem_underDepth_iff {records : StoredRecords} {hash : Hash} :
    hash ∈ (underDepth records).map Prod.snd ↔ UnderDepth records hash := by
  constructor
  · intro hmem
    obtain ⟨entry, hentry, rfl⟩ := List.mem_map.mp hmem
    obtain ⟨block, hblock, hhash, hat, -⟩ := mem_underDepth hentry
    refine ⟨⟨block, hblock, hhash⟩, ?_⟩
    intro reading hreading
    rw [← hhash] at hreading
    by_contra hdeep
    rw [underDepthAt, Option.mem_def.mp hreading] at hat
    simp only [hdeep, if_false, reduceCtorEq] at hat
  · rintro ⟨⟨block, hblock, rfl⟩, hunder⟩
    have hsome : (underDepthAt records block).isSome := by
      rw [underDepthAt]
      split
      · rfl
      · rename_i reading hreading
        rw [if_pos (hunder reading hreading)]
        rfl
    obtain ⟨entry, hentry⟩ := Option.isSome_iff_exists.mp hsome
    refine List.mem_map.mpr ⟨entry, List.mem_filterMap.mpr ⟨block, hblock, hentry⟩, ?_⟩
    rw [underDepthAt_eq_some hentry]

theorem ahead_of_leaves {records' : StoredRecords} (hleaves : s.records.Leaves records') (hash : Hash)
    (last : Option UInt64) : ahead { s with records := records' } hash last ≤ ahead s hash last := by
  refine le_trans (le_of_eq ?_) (hleaves.blocks.countP_le (p := isAhead s hash last))
  apply List.countP_congr
  intro block hblock
  rw [isAhead, isAhead, underDepthAt_congr (hleaves.lookup block hblock)]

/-- A block that is read is dated after the one that waits, if it stays, so it is not ahead of it. -/
theorem ahead_of_read {hash read : Hash} {last : Option UInt64} {rest : List Hash}
    (hnext : s.pending = read :: rest) (hlater : readBefore (some s.now) last = false)
    (found : Option Int64) :
    ahead ⟨checkBlock (E := E) s.records s.now read (.ok found) (.ok ()), s.now, rest⟩ hash last ≤
      ahead s hash last := by
  obtain ⟨hblocks, hother⟩ := checkBlock_frame (E := E) s.records s.now read (.ok found) (.ok ())
  rw [ahead, ahead]
  dsimp only
  rw [hblocks]
  apply List.countP_mono_left
  intro block hblock hahead
  rw [isAhead, Bool.and_eq_true, Bool.and_eq_true] at hahead ⊢
  obtain ⟨⟨hne, hrest⟩, hbefore⟩ := hahead
  have hunread : block.blockHash ≠ read := by
    rintro rfl
    obtain ⟨confirmations, hreading⟩ := checkBlock_reads (E := E) hblock s.now found
    cases hentry : underDepthAt (checkBlock (E := E) s.records s.now block.blockHash (.ok found)
        (.ok ())) block with
    | none => rw [hentry] at hbefore; cases hbefore
    | some entry =>
        rw [hentry, underDepthAt_eq_some hentry, hreading] at hbefore
        exact absurd hbefore (by simp [hlater])
  rw [underDepthAt_congr (hother _ hunread)] at hbefore
  refine ⟨⟨hne, ?_⟩, hbefore⟩
  rw [hnext]
  simpa [hunread] using hrest

theorem underDepth_sublist (records : StoredRecords) :
    ((underDepth records).map Prod.snd).Sublist (records.blocks.map (·.blockHash)) := by
  rw [underDepth]
  induction records.blocks with
  | nil => exact .slnil
  | cons block blocks ih =>
      cases hentry : underDepthAt records block with
      | none => rw [List.filterMap_cons_none hentry]; exact ih.cons _
      | some entry =>
          rw [List.filterMap_cons_some hentry, List.map_cons, List.map_cons,
            underDepthAt_eq_some hentry]
          exact ih.cons_cons _

theorem due_nodup {records : StoredRecords} (hnodup : (records.blocks.map (·.blockHash)).Nodup) :
    (due records).Nodup := by
  obtain ⟨taken, hperm, hsub⟩ := @Earliest.earliest_subperm _ (fun a b => readBefore a.1 b.1)
    MAX_PER_PASS (underDepth records)
  exact (hperm.map Prod.snd).nodup_iff.mp
    ((hnodup.sublist (underDepth_sublist records)).sublist (hsub.map Prod.snd))

theorem mem_due {records : StoredRecords} {hash : Hash} (h : hash ∈ due records) :
    UnderDepth records hash := by
  obtain ⟨entry, hentry, rfl⟩ := List.mem_map.mp h
  exact mem_underDepth_iff.mp (List.mem_map_of_mem (Earliest.mem_of_mem_earliest hentry))

theorem length_due_le (records : StoredRecords) : (due records).length ≤ MAX_PER_PASS := by
  rw [due, List.length_map]
  exact Earliest.length_earliest_le _

section Began

variable {hash : Hash} {last : Option UInt64}

/-- A block under the depth has fewer blocks ahead of it than there are under the depth. -/
theorem ahead_lt (hnodup : (s.records.blocks.map (·.blockHash)).Nodup)
    (hdue : hash ∈ (underDepth s.records).map Prod.snd) :
    ahead s hash last < (underDepth s.records).length := by
  have hsub : hash :: (s.records.blocks.filter (isAhead s hash last)).map (·.blockHash) ⊆
      (underDepth s.records).map Prod.snd := by
    intro h hmem
    rcases List.mem_cons.mp hmem with rfl | hmem
    · exact hdue
    · obtain ⟨block, hblock, rfl⟩ := List.mem_map.mp hmem
      rw [List.mem_filter, isAhead, Bool.and_eq_true] at hblock
      cases hentry : underDepthAt s.records block with
      | none => rw [hentry] at hblock; exact absurd hblock.2.2 (by simp)
      | some entry =>
          refine List.mem_map.mpr ⟨entry, List.mem_filterMap.mpr ⟨block, hblock.1, hentry⟩, ?_⟩
          rw [underDepthAt_eq_some hentry]
  have hnodup' : (hash :: (s.records.blocks.filter (isAhead s hash last)).map
      (·.blockHash)).Nodup := by
    refine List.nodup_cons.mpr ⟨?_, hnodup.sublist (List.filter_sublist.map _)⟩
    intro hmem
    obtain ⟨block, hblock, hhash⟩ := List.mem_map.mp hmem
    simp [isAhead, hhash] at hblock
  have hlen := (List.subperm_of_subset hnodup' hsub).length_le
  rw [List.length_cons, List.length_map, List.length_map] at hlen
  rw [ahead, List.countP_eq_length_filter]
  exact hlen

/-- A pass that leaves a block out takes as many as it reads from those ahead of it. -/
theorem ahead_of_began (hnodup : (s.records.blocks.map (·.blockHash)).Nodup) (now : UInt64)
    (hdone : s.pending = []) (hdue : (last, hash) ∈ underDepth s.records)
    (hout : hash ∉ due s.records) :
    ahead ⟨s.records, now, due s.records⟩ hash last + MAX_PER_PASS ≤ ahead s hash last := by
  obtain ⟨hfull, hbefore⟩ := @Earliest.of_left_out _ (fun a b => readBefore a.1 b.1) MAX_PER_PASS _ _
    (fun _ _ _ => readBefore_trans) (fun _ _ => readBefore_total _ _) hdue
    (fun hmem => hout (List.mem_map.mpr ⟨_, hmem, rfl⟩))
  have htaken : due s.records ⊆ (s.records.blocks.filter fun block =>
      isAhead s hash last block && decide (block.blockHash ∈ due s.records)).map (·.blockHash) := by
    intro h hmem
    obtain ⟨entry, hentry, rfl⟩ := List.mem_map.mp hmem
    obtain ⟨block, hblock, hhash, hat, -⟩ := mem_underDepth (Earliest.mem_of_mem_earliest hentry)
    refine List.mem_map.mpr ⟨block, List.mem_filter.mpr ⟨hblock, ?_⟩, hhash⟩
    have hne : entry.2 ≠ hash := fun heq => hout (heq ▸ hmem)
    simp [isAhead, hhash, hne, hdone, hat, hmem, hbefore entry hentry]
  have hlen := (List.subperm_of_subset (due_nodup hnodup) htaken).length_le
  rw [List.length_map, ← List.countP_eq_length_filter] at hlen
  have hlimit : (due s.records).length = MAX_PER_PASS := by
    rw [due, List.length_map]
    exact hfull
  have hrest : ahead ⟨s.records, now, due s.records⟩ hash last ≤ s.records.blocks.countP fun block =>
      isAhead s hash last block && decide ¬ (block.blockHash ∈ due s.records) := by
    apply List.countP_mono_left
    intro block _ hahead
    simp only [isAhead, Bool.and_eq_true, decide_eq_true_eq] at hahead ⊢
    exact ⟨⟨⟨hahead.1.1, by simp [hdone]⟩, hahead.2⟩, hahead.1.2⟩
  have hsplit := List.length_eq_countP_add_countP (fun block => decide (block.blockHash ∈ due s.records))
    (l := s.records.blocks.filter (isAhead s hash last))
  rw [List.countP_filter, List.countP_filter, ← List.countP_eq_length_filter] at hsplit
  simp only [Bool.and_comm, decide_eq_true_eq] at hsplit hlen hrest
  rw [← ahead] at hsplit
  omega

end Began

/-! ### Every run -/

/-- Nothing is recorded, every read is answered, and at each pass the block is under the depth, as are at
most `n` blocks. -/
structure DueThroughout (hash : Hash) (n : Nat) (window : List (PassEvent E)) : Prop where
  due : ∀ now records, .began now records ∈ window → UnderDepth records hash
  few : ∀ now records, .began now records ∈ window → (underDepth records).length ≤ n
  noneRecorded : ∀ block, .recorded block ∉ window
  answered : ∀ read answer write, .read read answer write ∈ window → ∃ found, answer = .ok found

/-- Every reading is written, and each pass is later than the given last reading of the block. -/
structure DatedAfter (last : Option UInt64) (window : List (PassEvent E)) : Prop where
  later : ∀ now records, .began now records ∈ window → ∀ checkedAt ∈ last, checkedAt < now
  written : ∀ read answer write, .read read answer write ∈ window → write = .ok ()

/-- The block was read or is about to be, or every pass took its number from those ahead of it. -/
structure InTurn (hash : Hash) (last : Option UInt64) (n : Nat) (trace : List (PassEvent E))
    (s : Passes) : Prop where
  nodup : (s.records.blocks.map (·.blockHash)).Nodup
  later : s.pending ≠ [] → readBefore (some s.now) last = false
  turn : hash ∈ readHashes trace ∨
    (∀ block ∈ s.records.blocks, block.blockHash = hash →
      (s.records.confirmations.lookup hash).map (·.checkedAt) = last) ∧
    (hash ∈ s.pending ∨
      (0 < passesBegun trace → ahead s hash last + MAX_PER_PASS * passesBegun trace < n))

@[simp] theorem readHashes_append (trace later : List (PassEvent E)) :
    readHashes (trace ++ later) = readHashes trace ++ readHashes later := List.filterMap_append

@[simp] theorem passesBegun_append (trace later : List (PassEvent E)) :
    passesBegun (trace ++ later) = passesBegun trace + passesBegun later := by
  rw [passesBegun, passTimes, List.filterMap_append, List.length_append]
  rfl

theorem readBefore_of_lt {last : Option UInt64} {now : UInt64}
    (hlater : ∀ checkedAt ∈ last, checkedAt < now) : readBefore (some now) last = false := by
  cases last with
  | none => rfl
  | some checkedAt =>
      have hlt := hlater checkedAt rfl
      rw [readBefore, decide_eq_false_iff_not]
      exact UInt64.not_le.mpr hlt

theorem InTurn.step {hash : Hash} {last : Option UInt64} {n : Nat} {trace : List (PassEvent E)}
    (h : InTurn hash last n trace s) (hstep : PassStep s event s')
    (hdue : DueThroughout hash n (trace ++ [event])) (hdated : DatedAfter last (trace ++ [event])) :
    InTurn hash last n (trace ++ [event]) s' := by
  have hnodup := hstep.nodup h.nodup
  have hlast : event ∈ trace ++ [event] := List.mem_append_right _ (List.mem_singleton.mpr rfl)
  cases hstep with
  | began now hdone =>
      refine ⟨hnodup, fun _ => readBefore_of_lt (hdated.later _ _ hlast), ?_⟩
      rw [readHashes_append, passesBegun_append]
      refine h.turn.imp (List.mem_append_left _) fun ⟨hreading, hahead⟩ => ⟨hreading, ?_⟩
      by_cases hout : hash ∈ due s.records
      · exact .inl hout
      · refine .inr fun _ => ?_
        have hunder := mem_underDepth_iff.mpr (hdue.due _ _ hlast)
        have hlt : ahead s hash last + MAX_PER_PASS * passesBegun trace < n := by
          rcases Nat.eq_zero_or_pos (passesBegun trace) with hfirst | hpos
          · rw [hfirst]
            exact lt_of_lt_of_le (ahead_lt h.nodup hunder) (hdue.few _ _ hlast)
          · exact hahead.resolve_left (by rw [hdone]; exact List.not_mem_nil) hpos
        have hentry : (last, hash) ∈ underDepth s.records := by
          obtain ⟨entry, hentry, rfl⟩ := List.mem_map.mp hunder
          obtain ⟨block, hblock, hhash, -, hkey⟩ := mem_underDepth hentry
          rw [hreading block hblock hhash] at hkey
          rw [← hkey]
          exact hentry
        have hfewer := ahead_of_began h.nodup now hdone hentry hout
        rw [show passesBegun [PassEvent.began (E := E) now s.records] = 1 from rfl, Nat.mul_add_one]
        omega
  | @read read rest answer write hnext =>
      have hlater := h.later (by rw [hnext]; exact List.cons_ne_nil _ _)
      obtain ⟨found, rfl⟩ := hdue.answered _ _ _ hlast
      obtain rfl := hdated.written _ _ _ hlast
      refine ⟨hnodup, fun _ => hlater, ?_⟩
      rw [readHashes_append, passesBegun_append]
      by_cases heq : hash = read
      · exact .inl (List.mem_append_right _ (List.mem_singleton.mpr heq))
      · refine h.turn.imp (List.mem_append_left _) fun ⟨hreading, hahead⟩ => ⟨?_, ?_⟩
        · obtain ⟨hblocks, hother⟩ := checkBlock_frame (E := E) s.records s.now read (.ok found) (.ok ())
          intro block hblock hhash
          rw [hother hash heq]
          exact hreading block (hblocks ▸ hblock) hhash
        · refine hahead.imp ?_ ?_
          · intro hmem
            rw [hnext, List.mem_cons] at hmem
            exact hmem.resolve_left heq
          · intro hfewer hpos
            have hcount := hfewer hpos
            exact lt_of_le_of_lt (Nat.add_le_add_right (ahead_of_read hnext hlater found) _) hcount
  | recorded block answer hnew => exact absurd hlast (hdue.noneRecorded block)
  | changed op answer hnone =>
      have hleaves := RecordOp.leaves h.nodup hnone
      refine ⟨hnodup, h.later, ?_⟩
      rw [readHashes_append, passesBegun_append]
      refine h.turn.imp (List.mem_append_left _) fun ⟨hreading, hahead⟩ => ⟨?_, ?_⟩
      · intro block hblock hhash
        rw [← hreading block (hleaves.blocks.subset hblock) hhash, ← hhash,
          hleaves.lookup block hblock]
      · refine hahead.imp_right fun hfewer hpos => ?_
        exact lt_of_le_of_lt (Nat.add_le_add_right (ahead_of_leaves hleaves hash last) _)
          (hfewer hpos)

theorem DueThroughout.of_append {hash : Hash} {n : Nat} {window later : List (PassEvent E)}
    (h : DueThroughout hash n (window ++ later)) : DueThroughout hash n window where
  due now records hmem := h.due now records (List.mem_append_left _ hmem)
  few now records hmem := h.few now records (List.mem_append_left _ hmem)
  noneRecorded block hmem := h.noneRecorded block (List.mem_append_left _ hmem)
  answered read answer write hmem := h.answered read answer write (List.mem_append_left _ hmem)

theorem DatedAfter.of_append {last : Option UInt64} {window later : List (PassEvent E)}
    (h : DatedAfter last (window ++ later)) : DatedAfter last window where
  later now records hmem := h.later now records (List.mem_append_left _ hmem)
  written read answer write hmem := h.written read answer write (List.mem_append_left _ hmem)

section Run

variable {start state : Passes}

/-- A block that waits through enough passes is read in one of them. -/
theorem read_in_window (hnodup : (start.records.blocks.map (·.blockHash)).Nodup)
    (hidle : start.pending = []) {window : List (PassEvent E)}
    (hrun : (passRuns E start).Run window state) (hdone : state.pending = []) {hash : Hash} {n : Nat}
    (hn : 0 < n) (henough : n ≤ MAX_PER_PASS * passesBegun window)
    (hdue : DueThroughout hash n window)
    (hdated : DatedAfter ((start.records.confirmations.lookup hash).map (·.checkedAt)) window) :
    hash ∈ readHashes window := by
  have hinTurn := hrun.invariant (I := fun trace s => DueThroughout hash n trace →
    DatedAfter ((start.records.confirmations.lookup hash).map (·.checkedAt)) trace →
    InTurn hash ((start.records.confirmations.lookup hash).map (·.checkedAt)) n trace s) ?_ ?_
  · rcases (hinTurn hdue hdated).turn with hread | ⟨-, hpending | hfewer⟩
    · exact hread
    · rw [hdone] at hpending
      exact absurd hpending List.not_mem_nil
    · have hpos : 0 < passesBegun window := by
        rcases Nat.eq_zero_or_pos (passesBegun window) with hzero | hpos
        · rw [hzero] at henough
          omega
        · exact hpos
      have hlt := hfewer hpos
      omega
  · rintro s rfl - -
    exact ⟨hnodup, fun h => absurd hidle h, .inr ⟨fun _ _ _ => rfl, .inr fun h => absurd h (lt_irrefl 0)⟩⟩
  · intro trace s event s' ih hstep hdue' hdated'
    exact (ih hdue'.of_append hdated'.of_append).step hstep hdue' hdated'

/-- The blocks a pass has read and has still to read are those it listed. -/
theorem pass_reads {pass : List (PassEvent E)} (hrun : (passRuns E start).Run pass state)
    (hone : passesBegun pass = 0) : readHashes pass ++ state.pending = start.pending := by
  refine hrun.invariant (I := fun pass s => passesBegun pass = 0 →
    readHashes pass ++ s.pending = start.pending) ?_ ?_ hone
  · rintro s rfl -
    rfl
  · intro trace s event s' ih hstep hnone
    rw [passesBegun_append, Nat.add_eq_zero_iff] at hnone
    have hsame := ih hnone.1
    cases hstep with
    | began now hdone => exact absurd hnone.2 one_ne_zero
    | read answer write hnext =>
        rw [hnext] at hsame
        rw [readHashes_append, List.append_assoc]
        exact hsame
    | recorded block answer hnew => rw [readHashes_append, List.append_assoc]; exact hsame
    | changed op answer hnone => rw [readHashes_append, List.append_assoc]; exact hsame

/-- A hash without a block or a reading has none until its block is recorded. -/
theorem no_reading (hnodup : (start.records.blocks.map (·.blockHash)).Nodup) {hash : Hash}
    (hblock : ∀ block ∈ start.records.blocks, block.blockHash ≠ hash)
    (hreading : start.records.confirmations.lookup hash = none) {trace : List (PassEvent E)}
    (hrun : (passRuns E start).Run trace state)
    (hrecorded : ∀ block, .recorded block ∈ trace → block.blockHash ≠ hash) :
    state.records.confirmations.lookup hash = none := by
  have hkept := hrun.invariant (I := fun trace s => (s.records.blocks.map (·.blockHash)).Nodup ∧
    ((∀ block, .recorded block ∈ trace → block.blockHash ≠ hash) →
      (∀ block ∈ s.records.blocks, block.blockHash ≠ hash) ∧
        s.records.confirmations.lookup hash = none)) ?_ ?_
  · exact (hkept.2 hrecorded).2
  · rintro s rfl
    exact ⟨hnodup, fun _ => ⟨hblock, hreading⟩⟩
  · intro trace s event s' ⟨hnodup', ih⟩ hstep
    refine ⟨hstep.nodup hnodup', fun hnone => ?_⟩
    obtain ⟨hblock', hreading'⟩ := ih fun block hmem => hnone block (List.mem_append_left _ hmem)
    refine hstep.none_kept hnodup' ?_ hblock' hreading'
    rintro block rfl
    exact hnone block (List.mem_append_right _ (List.mem_singleton.mpr rfl))

end Run

/-- The reads of a pass that nothing interrupts, each answered alike. -/
def answeredReads (found : Option Int64) (pending : List Hash) : List (PassEvent E) :=
  pending.map fun hash => .read hash (.ok found) (.ok ())

def afterReads (E : Type) (records : StoredRecords) (now : UInt64) (found : Option Int64)
    (pending : List Hash) : StoredRecords :=
  pending.foldl (fun records hash => checkBlock (E := E) records now hash (.ok found) (.ok ())) records

theorem run_reads {start : Passes} {trace : List (PassEvent E)} {records : StoredRecords} {now : UInt64}
    {pending : List Hash} (hrun : (passRuns E start).Run trace ⟨records, now, pending⟩)
    (found : Option Int64) : (passRuns E start).Run (trace ++ answeredReads found pending)
      ⟨afterReads E records now found pending, now, []⟩ := by
  induction pending generalizing trace records with
  | nil => rw [answeredReads, List.map_nil, List.append_nil]; exact hrun
  | cons hash pending ih =>
      have hread := ih (hrun.next (.read (.ok found) (.ok ()) rfl))
      rw [List.append_assoc] at hread
      exact hread

/-- A pass from records that are in the order of their readings. -/
theorem run_pass {start : Passes} {trace : List (PassEvent E)} {records : StoredRecords} {now : UInt64}
    (hrun : (passRuns E start).Run trace ⟨records, now, []⟩) (now' : UInt64) (found : Option Int64)
    (entries : List (Option UInt64 × Hash)) (hentries : underDepth records = entries)
    (hsorted : entries.Pairwise fun a b => readBefore a.1 b.1) :
    (passRuns E start).Run (trace ++ .began now' records ::
        answeredReads found ((entries.take MAX_PER_PASS).map Prod.snd))
      ⟨afterReads E records now' found ((entries.take MAX_PER_PASS).map Prod.snd), now', []⟩ := by
  have hdue : due records = (entries.take MAX_PER_PASS).map Prod.snd := by
    rw [due, hentries, List.mergeSort_of_pairwise hsorted]
  have hread := run_reads (hrun.next (.began now' rfl)) found
  rw [hdue, List.append_assoc] at hread
  exact hread

theorem DueThroughout.append {hash : Hash} {n : Nat} {window later : List (PassEvent E)}
    (h : DueThroughout hash n window) (hlater : DueThroughout hash n later) :
    DueThroughout hash n (window ++ later) where
  due now records hmem := (List.mem_append.mp hmem).elim (h.due now records) (hlater.due now records)
  few now records hmem := (List.mem_append.mp hmem).elim (h.few now records) (hlater.few now records)
  noneRecorded block hmem :=
    (List.mem_append.mp hmem).elim (h.noneRecorded block) (hlater.noneRecorded block)
  answered read answer write hmem :=
    (List.mem_append.mp hmem).elim (h.answered read answer write) (hlater.answered read answer write)

theorem mem_pass {event : PassEvent E} {now : UInt64} {records : StoredRecords} {found : Option Int64}
    {pending : List Hash} (h : event ∈ .began now records :: answeredReads found pending) :
    event = .began now records ∨ ∃ read ∈ pending, event = .read read (.ok found) (.ok ()) := by
  refine (List.mem_cons.mp h).imp_right fun hmem => ?_
  obtain ⟨read, hread, rfl⟩ := List.mem_map.mp hmem
  exact ⟨read, hread, rfl⟩

theorem dueThroughout_pass {hash : Hash} {n : Nat} {records : StoredRecords}
    {entries : List (Option UInt64 × Hash)} (hentries : underDepth records = entries)
    (hdue : hash ∈ entries.map Prod.snd) (hfew : entries.length ≤ n) (now : UInt64)
    (found : Option Int64) (pending : List Hash) :
    DueThroughout (E := E) hash n (.began now records :: answeredReads found pending) where
  due _ _ hmem := by
    rcases mem_pass hmem with heq | ⟨_, _, heq⟩ <;> cases heq
    rw [← hentries] at hdue
    exact mem_underDepth_iff.mp hdue
  few _ _ hmem := by
    rcases mem_pass hmem with heq | ⟨_, _, heq⟩ <;> cases heq
    rw [hentries]
    exact hfew
  noneRecorded _ hmem := by
    rcases mem_pass hmem with heq | ⟨_, _, heq⟩ <;> cases heq
  answered _ _ _ hmem := by
    rcases mem_pass hmem with heq | ⟨_, _, heq⟩ <;> cases heq
    exact ⟨found, rfl⟩

theorem readHashes_pass (now : UInt64) (records : StoredRecords) (found : Option Int64)
    (pending : List Hash) :
    readHashes (E := E) (.began now records :: answeredReads found pending) = pending := by
  rw [readHashes, answeredReads, List.filterMap_cons_none rfl, List.filterMap_map]
  exact List.filterMap_some

def numberedHash (n : Nat) : Hash := Vector.replicate HASH_SIZE (UInt8.ofNat n)

def numberedBlock (n : Nat) : FoundBlock F64 where
  foundAt := 1000 + n
  height := 100
  blockHash := numberedHash n
  paidToSplit := 1
  paidToPool := 1
  finder := "alice"
  tagSecondary := ""
  networkDifficulty := ⟨0⟩
  cumulativeWork := 1

/-- Records with no file of numbered blocks, with the given reading of one of them. -/
def numberedRecords (count : Nat) (confirmations : HashMap Hash ConfirmationReading) : StoredRecords :=
  ⟨⟨(List.range count).map numberedBlock, []⟩, confirmations, none⟩

/-- The records of 33 blocks, all never read but the last, which a clock set back since dated later than the
passes. -/
def readAhead : StoredRecords :=
  numberedRecords 33 ((∅ : HashMap Hash ConfirmationReading).insert (numberedHash 32) ⟨5000, 3⟩)

def readAheadEntries (last : Option UInt64) : List (Option UInt64 × Hash) :=
  (List.range 32).map (fun n => (last, numberedHash n)) ++ [(some 5000, numberedHash 32)]

end Ratum
