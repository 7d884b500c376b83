import Ratum.Base.Lts
import Ratum.Ledger.Records

/-!
# The block records in memory and on disk agree

Every run of the records over their file: operations that succeed, operations whose write fails, and
reopenings. What is in memory is what the tables hold, so reopening gives it back.
-/

namespace Ratum

/-- The five operations. -/
inductive RecordOp
  | recordBlock (block : FoundBlock F64)
  | recordOwed (owed : OwedBlock)
  | settleOwed (hash : Hash) (settledAt : UInt64)
  | recordConfirmations (hash : Hash) (reading : ConfirmationReading)
  | voidBlock (hash : Hash)

namespace RecordOp

/-- Whether the operation succeeded, and the records after it. -/
def apply (records : StoredRecords) (answer : IoAnswer) : RecordOp → IoAnswer × StoredRecords
  | recordBlock block => records.recordBlock block answer
  | recordOwed owed => records.recordOwed owed answer
  | settleOwed hash settledAt =>
      (records.settleOwed hash settledAt answer).map (·.map fun _ => ()) id
  | recordConfirmations hash reading =>
      (records.recordConfirmations hash reading answer).map (·.map fun _ => ()) id
  | voidBlock hash => (records.voidBlock hash answer).map (·.map fun _ => ()) id

/-- The bounds of the fields' types and of the rows. -/
def Packable : RecordOp → Prop
  | recordBlock block => block.Packable
  | recordOwed owed => owed.Packable
  | _ => True

end RecordOp

/-- The readings held, each with its hash. -/
def readingsOf (confirmations : HashMap Hash ConfirmationReading) :
    List (Hash × ConfirmationReading) :=
  confirmations.entries.map fun entry => (entry.1, entry.2)

theorem filter_toList_ne {R : Type} (records : List R) (blockHash : R → Hash) (hash : Hash) :
    records.filter (fun r => (blockHash r).toList ≠ hash.toList) =
      records.filter (fun r => blockHash r ≠ hash) := by
  apply List.filter_congr
  intro r _
  rw [decide_eq_decide]
  exact not_congr Vector.toList_inj

theorem readingsOf_erase (confirmations : HashMap Hash ConfirmationReading) (hash : Hash) :
    readingsOf (confirmations.erase hash) =
      (readingsOf confirmations).filter (confirmationsFormat.key · ≠ hash.toList) := by
  refine Eq.trans ?_ (filter_toList_ne (readingsOf confirmations) Prod.fst hash).symm
  rw [readingsOf, RowFormat.Keeps.entries_erase, readingsOf, List.filter_map]
  rfl

theorem readingsOf_insert (confirmations : HashMap Hash ConfirmationReading) (hash : Hash)
    (reading : ConfirmationReading) :
    readingsOf (confirmations.insert hash reading) =
      (hash, reading) ::
        (readingsOf confirmations).filter (confirmationsFormat.key · ≠ hash.toList) := by
  rw [← readingsOf_erase]
  rfl

/-- The in-memory records are what the tables' rows hold. -/
structure StoredRecords.Agrees (records : StoredRecords) (db : RecordTables) : Prop where
  file : records.db = some db
  blocks : blockFormat.Keeps (db .blocks) records.blocks
  owed : owedFormat.Keeps (db .owed) records.owed
  confirmations : confirmationsFormat.Keeps (db .chainState) (readingsOf records.confirmations)
  packable : ∀ owed ∈ records.owed, owed.Packable

/-- The records with a row written. -/
def StoredRecords.written (records : StoredRecords) (db : RecordTables) (table : RecordTable)
    (key value : Bytes) : StoredRecords :=
  { records with db := some (Function.update db table ((db table).insert key value)) }

/-- What a successful operation does to records that agree with their tables. -/
inductive RecordEffect (records : StoredRecords) (db : RecordTables) :
    RecordOp → StoredRecords → Prop
  | recorded (block : FoundBlock F64)
      (hnew : ∀ held ∈ records.blocks, held.blockHash ≠ block.blockHash) :
      RecordEffect records db (.recordBlock block)
        { records.written db .blocks block.blockHash.toList (packBlock block) with
          blocks := records.blocks ++ [block] }
  | owing (owed : OwedBlock) (hnew : ∀ held ∈ records.owed, held.blockHash ≠ owed.blockHash) :
      RecordEffect records db (.recordOwed owed)
        { records.written db .owed owed.blockHash.toList (packOwed owed) with
          owed := records.owed ++ [owed] }
  | settled {owed owed' : OwedBlock} {before after : List OwedBlock} (settledAt : UInt64)
      (hheld : records.owed = before ++ owed :: after) (hopen : owed.settledAt = none)
      (howed' : owed' = { owed with settledAt := some (max settledAt.toNat 1) }) :
      RecordEffect records db (.settleOwed owed.blockHash settledAt)
        { records.written db .owed owed.blockHash.toList (packOwed owed') with
          owed := before ++ owed' :: after }
  | read (hash : Hash) (reading : ConfirmationReading) :
      RecordEffect records db (.recordConfirmations hash reading)
        { records.written db .chainState hash.toList (packConfirmations reading) with
          confirmations := records.confirmations.insert hash reading }
  | voided (hash : Hash) :
      RecordEffect records db (.voidBlock hash)
        { records with
          blocks := records.blocks.filter (·.blockHash ≠ hash)
          owed := records.owed.filter (·.blockHash ≠ hash)
          confirmations := records.confirmations.erase hash
          db := some fun table => (db table).erase hash.toList }

namespace StoredRecords

variable {records : StoredRecords} {db : RecordTables}

theorem put_ok (hfile : records.db = some db) (table : RecordTable) (key value : Bytes) :
    records.put table key value (.ok ()) = (.ok (), records.written db table key value) := by
  unfold put
  rw [hfile]
  rfl

theorem put_error (hfile : records.db = some db) (table : RecordTable) (key value : Bytes)
    (e : IoError) : records.put table key value (.error e) = (.error e, records) := by
  unfold put
  rw [hfile]

/-- With a file, a block is recorded in memory as the records without one record it. -/
theorem recordBlock_toBlockRecords (hfile : records.db = some db) (block : FoundBlock F64)
    (answer : IoAnswer) :
    (records.recordBlock block answer).1.map
        (fun _ => (records.recordBlock block answer).2.toBlockRecords) =
      records.toBlockRecords.recordBlock block answer := by
  have hany : (records.block block.blockHash).isSome =
      records.blocks.any fun b => b.blockHash = block.blockHash := by
    rw [Bool.eq_iff_iff, StoredRecords.block, List.find?_isSome, List.any_eq_true]
  unfold recordBlock BlockRecords.recordBlock
  rw [hany]
  split
  · rfl
  · cases answer with
    | error e => rw [put_error hfile]; rfl
    | ok _ => rw [put_ok hfile]; rfl

theorem recordOwed_toBlockRecords (hfile : records.db = some db) (owed : OwedBlock)
    (answer : IoAnswer) :
    (records.recordOwed owed answer).1.map
        (fun _ => (records.recordOwed owed answer).2.toBlockRecords) =
      records.toBlockRecords.recordOwed owed answer := by
  unfold recordOwed BlockRecords.recordOwed
  split
  · rfl
  · cases answer with
    | error e => rw [writeOwed, put_error hfile]; rfl
    | ok _ => rw [writeOwed, put_ok hfile]; rfl

namespace Agrees

theorem blocks_nodup (h : records.Agrees db) : (records.blocks.map (·.blockHash)).Nodup := by
  have hkeys := h.blocks.nodup
  refine List.Nodup.of_map (fun hash : Hash => hash.toList) ?_
  rw [List.map_map]
  exact hkeys

theorem owed_nodup (h : records.Agrees db) : (records.owed.map (·.blockHash)).Nodup := by
  have hkeys := h.owed.nodup
  refine List.Nodup.of_map (fun hash : Hash => hash.toList) ?_
  rw [List.map_map]
  exact hkeys

theorem recordBlock (h : records.Agrees db) (block : FoundBlock F64) (answer : IoAnswer) :
    (records.recordBlock block answer).2 = records ∨
      (records.recordBlock block answer).1 = .ok () ∧
        RecordEffect records db (.recordBlock block) (records.recordBlock block answer).2 := by
  unfold StoredRecords.recordBlock
  split
  · exact .inl rfl
  · rename_i hnone
    cases answer with
    | error e => exact .inl (by rw [put_error h.file])
    | ok _ =>
        rw [put_ok h.file]
        refine .inr ⟨rfl, .recorded block ?_⟩
        intro held hheld heq
        apply hnone
        rw [StoredRecords.block, List.find?_isSome]
        exact ⟨held, hheld, by simpa using heq⟩

theorem recordOwed (h : records.Agrees db) (owed : OwedBlock) (answer : IoAnswer) :
    (records.recordOwed owed answer).2 = records ∨
      (records.recordOwed owed answer).1 = .ok () ∧
        RecordEffect records db (.recordOwed owed) (records.recordOwed owed answer).2 := by
  unfold StoredRecords.recordOwed
  split
  · exact .inl rfl
  · rename_i hnone
    cases answer with
    | error e => exact .inl (by rw [writeOwed, put_error h.file])
    | ok _ =>
        rw [writeOwed, put_ok h.file]
        refine .inr ⟨rfl, .owing owed ?_⟩
        intro held hheld heq
        apply hnone
        rw [List.any_eq_true]
        exact ⟨held, hheld, by simpa using heq⟩

theorem settleOwed (h : records.Agrees db) (hash : Hash) (settledAt : UInt64)
    (answer : IoAnswer) :
    (records.settleOwed hash settledAt answer).2 = records ∨
      (records.settleOwed hash settledAt answer).1.isOk ∧
        RecordEffect records db (.settleOwed hash settledAt)
          (records.settleOwed hash settledAt answer).2 := by
  unfold StoredRecords.settleOwed
  cases hindex : records.owed.findIdx? (·.blockHash = hash) with
  | none => exact .inl rfl
  | some index =>
      obtain ⟨before, owed, after, hheld, hlen, hhash⟩ := List.append_cons_of_findIdx? hindex
      have hget : records.owed[index]? = some owed := by
        rw [hheld, ← hlen, List.getElem?_append_right le_rfl, Nat.sub_self]
        rfl
      obtain rfl : owed.blockHash = hash := by simpa using hhash
      simp only [hget]
      split
      · exact .inl rfl
      · rename_i hopen
        cases answer with
        | error e => exact .inl (by rw [writeOwed, put_error h.file])
        | ok _ =>
            rw [writeOwed, put_ok h.file]
            have hset : ∀ owed', records.owed.set index owed' = before ++ owed' :: after := by
              intro owed'
              rw [hheld, ← hlen, List.set_append_right _ _ le_rfl, Nat.sub_self]
              rfl
            have heffect : RecordEffect records db _ _ :=
              .settled settledAt hheld (by simpa using hopen) rfl
            rw [← hset] at heffect
            exact .inr ⟨rfl, heffect⟩

theorem recordConfirmations (h : records.Agrees db) (hash : Hash) (reading : ConfirmationReading)
    (answer : IoAnswer) :
    (records.recordConfirmations hash reading answer).2 = records ∨
      (records.recordConfirmations hash reading answer).1.isOk ∧
        RecordEffect records db (.recordConfirmations hash reading)
          (records.recordConfirmations hash reading answer).2 := by
  unfold StoredRecords.recordConfirmations
  cases answer with
  | error e => exact .inl (by rw [put_error h.file])
  | ok _ =>
      rw [put_ok h.file]
      exact .inr ⟨rfl, .read hash reading⟩

/-- Where no record stands under the hash, no table has a row under it. -/
theorem notMem_tables (h : records.Agrees db) {hash : Hash}
    (hblock : ∀ held ∈ records.blocks, held.blockHash ≠ hash)
    (howed : ∀ held ∈ records.owed, held.blockHash ≠ hash)
    (hread : hash ∉ records.confirmations) (table : RecordTable) : hash.toList ∉ db table := by
  cases table with
  | blocks =>
      rw [h.blocks.mem_table]
      exact fun ⟨held, hheld, heq⟩ => hblock held hheld (toList_injective heq)
  | owed =>
      rw [h.owed.mem_table]
      exact fun ⟨held, hheld, heq⟩ => howed held hheld (toList_injective heq)
  | chainState =>
      rw [h.confirmations.mem_table]
      intro ⟨entry, hentry, heq⟩
      obtain ⟨held, hheld, rfl⟩ := List.mem_map.mp hentry
      obtain rfl : held.1 = hash := toList_injective heq
      exact hread (List.mem_keys_of_mem hheld)

/-- A void that succeeds takes effect; where nothing stands under the hash, the effect is none. -/
theorem voidBlock (h : records.Agrees db) (hash : Hash) (answer : IoAnswer) :
    ((records.voidBlock hash answer).1.isOk = false ∧
        (records.voidBlock hash answer).2 = records) ∨
      (records.voidBlock hash answer).1.isOk ∧
        RecordEffect records db (.voidBlock hash) (records.voidBlock hash answer).2 := by
  have hblocks := List.eraseIdx_findIdx? h.blocks_nodup hash
  have howed := List.eraseIdx_findIdx? h.owed_nodup hash
  unfold StoredRecords.voidBlock
  dsimp only
  split
  · rename_i hnothing
    obtain ⟨hblock, howes, hread⟩ := hnothing
    rw [Option.isNone_iff_eq_none] at hblock howes
    rw [hblock] at hblocks
    rw [howes] at howed
    have htables : ∀ table, (db table).erase hash.toList = db table := by
      intro table
      apply RowFormat.Keeps.erase_of_notMem
      apply h.notMem_tables _ _ hread table
      · simpa using List.findIdx?_eq_none_iff.mp hblock
      · simpa using List.findIdx?_eq_none_iff.mp howes
    have heffect : RecordEffect records db _ _ := .voided hash
    rw [← hblocks, ← howed, RowFormat.Keeps.erase_of_notMem hread, funext htables] at heffect
    simp only [Option.elim_none, ← h.file] at heffect
    exact .inr ⟨rfl, heffect⟩
  · rw [h.file]
    cases answer with
    | error e => exact .inl ⟨rfl, rfl⟩
    | ok _ =>
        rw [hblocks, howed]
        exact .inr ⟨rfl, .voided hash⟩

theorem apply (h : records.Agrees db) (op : RecordOp) (answer : IoAnswer) :
    (op.apply records answer).2 = records ∨
      (op.apply records answer).1 = .ok () ∧
        RecordEffect records db op (op.apply records answer).2 := by
  have hresult : ∀ {α : Type} {result : Except IoError α}, result.isOk →
      result.map (fun _ => ()) = .ok () := by
    intro α result hok
    cases result with
    | error e => cases hok
    | ok _ => rfl
  cases op with
  | recordBlock block => exact h.recordBlock block answer
  | recordOwed owed => exact h.recordOwed owed answer
  | settleOwed hash settledAt =>
      exact (h.settleOwed hash settledAt answer).imp_right (And.imp_left hresult)
  | recordConfirmations hash reading =>
      exact (h.recordConfirmations hash reading answer).imp_right (And.imp_left hresult)
  | voidBlock hash =>
      exact (h.voidBlock hash answer).imp And.right (And.imp_left hresult)

/-- **Every operation keeps memory and tables in agreement.** -/
theorem effect (h : records.Agrees db) {op : RecordOp} {records' : StoredRecords}
    (hop : op.Packable) (heffect : RecordEffect records db op records') :
    ∃ db', records'.Agrees db' := by
  cases heffect with
  | recorded block hnew =>
      refine ⟨_, rfl, ?_, h.owed, h.confirmations, h.packable⟩
      exact h.blocks.push (FoundBlock.Packable.reads hop)
        fun held hheld heq => hnew held hheld (toList_injective heq)
  | owing owed hnew =>
      refine ⟨_, rfl, h.blocks, ?_, h.confirmations, ?_⟩
      · exact h.owed.push (OwedBlock.Packable.reads hop)
          fun held hheld heq => hnew held hheld (toList_injective heq)
      · intro held hheld
        rcases List.mem_append.mp hheld with hheld | hheld
        · exact h.packable held hheld
        · rw [List.mem_singleton.mp hheld]
          exact hop
  | @settled owed owed' before after settledAt hheld hopen howed' =>
      have hpackable : owed'.Packable := by
        have howed := h.packable owed (hheld ▸ List.mem_append_cons_self)
        subst howed'
        refine ⟨howed.foundAt, ?_, howed.count, howed.entries⟩
        intro t ht
        have hlt := settledAt.toNat_lt
        simp only [Option.some.injEq] at ht
        omega
      have hkeeps := h.owed
      rw [hheld] at hkeeps
      have hhash : owed'.blockHash = owed.blockHash := by rw [howed']
      have hreplaced := hkeeps.replace hpackable.reads (congrArg Vector.toList hhash)
      refine ⟨_, rfl, h.blocks, ?_, h.confirmations, ?_⟩
      · rw [← hhash]
        exact hreplaced
      · intro held hmem
        rcases List.mem_append.mp hmem with hmem | hmem
        · exact h.packable held (hheld ▸ List.mem_append_left _ hmem)
        · rcases List.mem_cons.mp hmem with rfl | hmem
          · exact hpackable
          · exact h.packable held (hheld ▸ List.mem_append_right _ (List.mem_cons_of_mem _ hmem))
  | read hash reading =>
      refine ⟨_, rfl, h.blocks, h.owed, ?_, h.packable⟩
      rw [readingsOf_insert]
      exact h.confirmations.insert (confirmationsFormat_reads (hash, reading))
  | voided hash =>
      refine ⟨_, rfl, ?_, ?_, ?_, fun owed howed => h.packable owed (List.mem_of_mem_filter howed)⟩
      · exact (h.blocks.erase hash.toList).perm
          (List.Perm.of_eq (filter_toList_ne records.blocks (·.blockHash) hash))
      · exact (h.owed.erase hash.toList).perm
          (List.Perm.of_eq (filter_toList_ne records.owed (·.blockHash) hash))
      · rw [readingsOf_erase]
        exact h.confirmations.erase hash.toList

end Agrees

/-! ### Reopening -/

/-- The same blocks, owed records and readings. -/
structure SameAs (records records' : StoredRecords) : Prop where
  blocks : records.blocks.Perm records'.blocks
  owed : records.owed.Perm records'.owed
  confirmations : (readingsOf records.confirmations).Perm (readingsOf records'.confirmations)

theorem readingsOf_collect (entries : List (Hash × ConfirmationReading))
    (confirmations : HashMap Hash ConfirmationReading)
    (hnodup : ((readingsOf confirmations ++ entries).map Prod.fst).Nodup) :
    (readingsOf (entries.foldl (fun map entry => map.insert entry.1 entry.2) confirmations)).Perm
      (readingsOf confirmations ++ entries) := by
  induction entries generalizing confirmations with
  | nil => simp
  | cons entry entries ih =>
      have hnew : ∀ held ∈ readingsOf confirmations, held.1.toList ≠ entry.1.toList := by
        intro held hheld heq
        rw [List.map_append, List.nodup_append] at hnodup
        exact hnodup.2.2 held.1 (List.mem_map_of_mem hheld) entry.1
          (List.mem_map_of_mem List.mem_cons_self) (toList_injective heq)
      have hinsert : readingsOf (confirmations.insert entry.1 entry.2) =
          entry :: readingsOf confirmations := by
        rw [readingsOf_insert]
        exact congrArg (entry :: ·) (RowFormat.Keeps.filter_key_ne hnew)
      have hperm : (readingsOf (confirmations.insert entry.1 entry.2) ++ entries).Perm
          (readingsOf confirmations ++ entry :: entries) := by
        rw [hinsert]
        exact List.perm_middle.symm
      exact (ih _ ((hperm.map Prod.fst).nodup_iff.mpr hnodup)).trans hperm

theorem readAll_rows {R : Type} {format : RowFormat R Bytes Bytes} {table : HashMap Bytes Bytes}
    {held : List R} (h : format.Keeps table held) : (format.readAll table.rows).Perm held :=
  ((List.mergeSort_perm table.entries _).filterMap _).trans h.readAll

/-- **Reopening gives back what is held.** -/
theorem Agrees.reopen (h : records.Agrees db) {created read : IoAnswer} {reopened : StoredRecords}
    (hopen : StoredRecords.open db created read = .ok reopened) :
    reopened.Agrees db ∧ reopened.SameAs records := by
  cases created with
  | error e => cases hopen
  | ok _ =>
      cases read with
      | error e => cases hopen
      | ok _ =>
          have hblocks := (List.mergeSort_perm _
            fun a b : FoundBlock F64 => foundBefore a.foundAt a.height b.foundAt b.height).trans
            (readAll_rows h.blocks)
          have howed := (List.mergeSort_perm _
            fun a b : OwedBlock => foundBefore a.foundAt a.height b.foundAt b.height).trans
            (readAll_rows h.owed)
          have hrows := readAll_rows h.confirmations
          have hnodup : (([] ++ confirmationsFormat.readAll (db .chainState).rows).map
              Prod.fst).Nodup := by
            refine List.Nodup.of_map (fun hash : Hash => hash.toList) ?_
            rw [List.nil_append, List.map_map]
            exact (hrows.map _).nodup_iff.mpr h.confirmations.nodup
          have hreadings := (readingsOf_collect _ ∅ hnodup).trans hrows
          cases hopen
          exact ⟨⟨rfl, h.blocks.perm hblocks.symm, h.owed.perm howed.symm,
            h.confirmations.perm hreadings.symm,
            fun owed hmem => h.packable owed (howed.mem_iff.mp hmem)⟩,
            ⟨hblocks, howed, hreadings⟩⟩

theorem open_ok (db : RecordTables) :
    ∃ reopened, StoredRecords.open db (.ok ()) (.ok ()) = .ok reopened := ⟨_, rfl⟩

end StoredRecords

/-! ### Every run -/

inductive RecordEvent
  | ran (op : RecordOp)
  | failed (op : RecordOp)
  | reopened

inductive RecordStep : StoredRecords → RecordEvent → StoredRecords → Prop
  | ran {records : StoredRecords} {op : RecordOp} {answer : IoAnswer} (hop : op.Packable)
      (hok : (op.apply records answer).1 = .ok ()) :
      RecordStep records (.ran op) (op.apply records answer).2
  | failed {records : StoredRecords} {op : RecordOp} {answer : IoAnswer} {e : IoError}
      (herror : (op.apply records answer).1 = .error e) :
      RecordStep records (.failed op) (op.apply records answer).2
  | reopened {records reopened : StoredRecords} {db : RecordTables} {created read : IoAnswer}
      (hfile : records.db = some db) (hopen : StoredRecords.open db created read = .ok reopened) :
      RecordStep records .reopened reopened

/-- The runs that start from the given records. -/
def recordRuns (start : StoredRecords) : Lts StoredRecords RecordEvent where
  init records := records = start
  step := RecordStep

/-- The records of a file no record was written to. -/
def freshRecords : StoredRecords := ⟨⟨[], []⟩, ∅, some fun _ => ∅⟩

theorem freshRecords_agrees : freshRecords.Agrees fun _ => ∅ :=
  ⟨rfl, .empty, .empty, .empty, fun _ h => absurd h List.not_mem_nil⟩

namespace StoredRecords.Agrees

variable {records records' : StoredRecords} {db : RecordTables} {event : RecordEvent}

theorem step (h : records.Agrees db) (hstep : RecordStep records event records') :
    ∃ db', records'.Agrees db' := by
  cases hstep with
  | @ran op answer hop hok =>
      rcases h.apply op answer with hsame | ⟨-, heffect⟩
      · exact ⟨db, hsame.symm ▸ h⟩
      · exact h.effect hop heffect
  | @failed op answer e herror =>
      rcases h.apply op answer with hsame | ⟨hok, -⟩
      · exact ⟨db, hsame.symm ▸ h⟩
      · rw [herror] at hok
        cases hok
  | reopened hfile hopen =>
      rw [h.file] at hfile
      cases hfile
      exact ⟨db, (h.reopen hopen).1⟩

end StoredRecords.Agrees

theorem recordRuns_agrees {start : StoredRecords} {db : RecordTables} (hstart : start.Agrees db)
    {trace : List RecordEvent} {records : StoredRecords}
    (hrun : (recordRuns start).Run trace records) : ∃ db', records.Agrees db' := by
  refine hrun.invariant (I := fun _ records => ∃ db', records.Agrees db') ?_ ?_
  · intro _ hinit
    exact ⟨db, hinit ▸ hstart⟩
  · intro _ _ _ _ ⟨db', h⟩ hstep
    exact h.step hstep

/-- A settled record stays as it is through every step that does not void its block. -/
theorem settled_step {records records' : StoredRecords} {db : RecordTables} {event : RecordEvent}
    (h : records.Agrees db) (hstep : RecordStep records event records') {owed : OwedBlock}
    (howed : owed ∈ records.owed) (hsettled : owed.settledAt.isSome)
    (hvoid : event ≠ .ran (.voidBlock owed.blockHash)) : owed ∈ records'.owed := by
  cases hstep with
  | @ran op answer hop hok =>
      rcases h.apply op answer with hsame | ⟨-, heffect⟩
      · exact hsame.symm ▸ howed
      · generalize (op.apply records answer).2 = records' at heffect ⊢
        cases heffect with
        | recorded => exact howed
        | owing => exact List.mem_append_left _ howed
        | @settled settling _ before after _ hheld hopen _ =>
            rw [hheld] at howed
            have hne : owed ≠ settling := by
              intro heq
              rw [heq, hopen] at hsettled
              cases hsettled
            simp only [List.mem_append, List.mem_cons, hne, false_or] at howed ⊢
            exact howed.imp_right .inr
        | read => exact howed
        | voided hash =>
            have hne : owed.blockHash ≠ hash := fun heq => hvoid (heq ▸ rfl)
            exact List.mem_filter.mpr ⟨howed, by simpa using hne⟩
  | @failed op answer e herror =>
      rcases h.apply op answer with hsame | ⟨hok, -⟩
      · exact hsame.symm ▸ howed
      · rw [herror] at hok
        cases hok
  | reopened hfile hopen =>
      rw [h.file] at hfile
      cases hfile
      exact (h.reopen hopen).2.owed.mem_iff.mpr howed

/-- What a voided hash leaves: nothing under it, and everything else as it was. -/
structure StoredRecords.VoidedAt (records records' : StoredRecords) (hash : Hash) : Prop where
  blocks : records'.blocks = records.blocks.filter (·.blockHash ≠ hash)
  owed : records'.owed = records.owed.filter (·.blockHash ≠ hash)
  confirmations : records'.confirmations = records.confirmations.erase hash
  tables : ∃ db db', records.db = some db ∧ records'.db = some db' ∧
    ∀ table key, (db' table).lookup key =
      if key = hash.toList then none else (db table).lookup key

theorem voided_step {records records' : StoredRecords} {db : RecordTables} {hash : Hash}
    (h : records.Agrees db) (hstep : RecordStep records (.ran (.voidBlock hash)) records') :
    records.VoidedAt records' hash := by
  cases hstep with
  | @ran _ answer _ hok =>
      rcases h.voidBlock hash answer with ⟨herror, -⟩ | ⟨-, heffect⟩
      · change ((records.voidBlock hash answer).1.map fun _ => ()) = .ok () at hok
        cases hresult : (records.voidBlock hash answer).1 with
        | error e => rw [hresult] at hok; cases hok
        | ok _ => rw [hresult] at herror; cases herror
      · change records.VoidedAt (records.voidBlock hash answer).2 hash
        generalize (records.voidBlock hash answer).2 = records' at heffect ⊢
        cases heffect
        refine ⟨rfl, rfl, rfl, db, _, h.file, rfl, ?_⟩
        intro table key
        split
        · next heq => rw [heq, AList.lookup_erase]
        · next hne => exact AList.lookup_erase_ne hne

/-- **Memory and file agree over every run.** Reopening gives the same records, each kept once; a failed
operation changes nothing; a settled record stays as it is until its block is voided; and a void removes
what is under its hash and nothing else. -/
theorem records_agree_with_file {trace : List RecordEvent} {records : StoredRecords}
    (hrun : (recordRuns freshRecords).Run trace records) :
    (∃ db, records.db = some db ∧
      (∃ reopened, StoredRecords.open db (.ok ()) (.ok ()) = .ok reopened) ∧
      ∀ created read reopened, StoredRecords.open db created read = .ok reopened →
        reopened.SameAs records) ∧
    (records.blocks.map (·.blockHash)).Nodup ∧ (records.owed.map (·.blockHash)).Nodup ∧
    ((readingsOf records.confirmations).map Prod.fst).Nodup ∧
    (∀ op records', RecordStep records (.failed op) records' → records' = records) ∧
    (∀ later records', (recordRuns records).Run later records' → ∀ owed ∈ records.owed,
      owed.settledAt.isSome → RecordEvent.ran (.voidBlock owed.blockHash) ∉ later →
        owed ∈ records'.owed) ∧
    ∀ hash records', RecordStep records (.ran (.voidBlock hash)) records' →
      records.VoidedAt records' hash := by
  obtain ⟨db, h⟩ := recordRuns_agrees freshRecords_agrees hrun
  refine ⟨⟨db, h.file, StoredRecords.open_ok db, fun _ _ _ hopen => (h.reopen hopen).2⟩,
    h.blocks_nodup, h.owed_nodup, ?_, ?_, ?_, fun hash records' hstep => voided_step h hstep⟩
  · rw [readingsOf, List.map_map]
    exact records.confirmations.keys_nodup
  · intro op records' hstep
    cases hstep with
    | @failed _ answer e herror =>
        rcases h.apply op answer with hsame | ⟨hok, -⟩
        · exact hsame
        · rw [herror] at hok
          cases hok
  · intro later records' hlater owed howed hsettled
    have hboth := hlater.invariant
      (I := fun later records' => (∃ db', StoredRecords.Agrees records' db') ∧
        (RecordEvent.ran (.voidBlock owed.blockHash) ∉ later → owed ∈ records'.owed)) ?_ ?_
    · exact hboth.2
    · intro records' hinit
      exact ⟨⟨db, hinit ▸ h⟩, fun _ => hinit ▸ howed⟩
    · intro later records' event records'' ⟨⟨db', h'⟩, hkept⟩ hstep
      refine ⟨h'.step hstep, fun hvoid => ?_⟩
      rw [List.mem_append, List.mem_singleton, not_or] at hvoid
      exact settled_step h' hstep (hkept hvoid.1) hsettled (Ne.symm hvoid.2)

/-- A record of two payouts, before it is settled. -/
def smallOwed : OwedBlock where
  foundAt := 1000
  height := 2
  blockHash := Vector.replicate 32 7
  settledAt := none
  entries := [⟨"a", 201⟩, ⟨"b", 100⟩]

theorem smallOwed_packable : smallOwed.Packable where
  foundAt := by decide
  settledAt := fun t ht => by cases ht
  count := by decide
  entries := by
    intro payout hpayout
    simp only [smallOwed, List.mem_cons, List.not_mem_nil, or_false] at hpayout
    rcases hpayout with rfl | rfl <;> exact ⟨by decide, by decide⟩

theorem records_agree_with_file_settled :
    ∃ (records : StoredRecords) (db : RecordTables), records.db = some db ∧
      records.owed = [{ smallOwed with settledAt := some 5000 }] ∧
      ∃ reopened, StoredRecords.open db (.ok ()) (.ok ()) = .ok reopened ∧
        reopened.SameAs records := by
  have howing := Lts.Run.next (S := recordRuns freshRecords) (.start rfl)
    (@RecordStep.ran _ (.recordOwed smallOwed) (.ok ()) smallOwed_packable rfl)
  have hfailed := howing.next
    (@RecordStep.failed _ (.settleOwed smallOwed.blockHash 4000) (.error ⟨.other, "full"⟩) _ rfl)
  have hsettled := hfailed.next
    (@RecordStep.ran _ (.settleOwed smallOwed.blockHash 5000) (.ok ()) trivial rfl)
  obtain ⟨⟨db, hfile, ⟨reopened, hopen⟩, hsame⟩, -⟩ := records_agree_with_file hsettled
  exact ⟨_, db, hfile, rfl, reopened, hopen, hsame _ _ _ hopen⟩

end Ratum
