import Ratum.Base.FailsIn
import Ratum.Bitcoin.Address
import Ratum.Core.Text
import Ratum.Ledger.RecordRuns

/-!
# The ledger commands

The commands of `prime/src/admin.rs` that change the block records: recording what a block owes by hand,
settling it, and voiding a block. What they print is left out, and a refusal carries what its text says.
-/

namespace Ratum

/-- `ratum::rpc::on_best_chain` of the count read. -/
def ConfirmationReading.onBestChain (reading : ConfirmationReading) : Bool := 0 ≤ reading.confirmations

def ConfirmationReading.nodeStoresBlock (reading : ConfirmationReading) : Bool :=
  reading.confirmations ≠ NOT_STORED

namespace Admin

/-- Why a command was refused as given. -/
inductive CommandRefusal
  | badHash (flag arg : String)
  | badEntry (entry : String)
  | noEntries
  | noBlock (arg : String)
  | alreadyOwed (arg : String)
  | overPaid (total paidToPool : Nat)
  | notRead (arg : String)
  | notStored (arg : String) (checkedAt : UInt64)
  | offBestChain (arg : String) (checkedAt : UInt64) (confirmations : Int64)
  | noOwed (arg : String)
  | nothingRecorded (arg : String)
  deriving DecidableEq

inductive Failure
  | usage (refusal : CommandRefusal)
  | io (e : IoError)
  deriving DecidableEq

inductive Command
  | settleBlock (arg : String)
  | voidBlock (arg : String)
  | recordOwed (arg : String) (owed : List String)
  deriving DecidableEq

def blockHashArg (flag arg : String) : Except Failure Hash :=
  match (hexDecode (stringBytes arg)).bind blockHashOf with
  | some hash => .ok hash
  | none => .error (.usage (.badHash flag arg))

/-- One `--owed identity=sats`. -/
def owedEntry (entry : String) : Option Payout := do
  let (id, sats) ← splitOnce '=' entry.toList
  let id := trim id
  let sats ← parseU64 (stringBytes (String.ofList (trim sats)))
  if id.isEmpty || sats = 0 then none else some ⟨canonicalAddress (String.ofList id), sats⟩

def owedEntries (entries : List String) : Except Failure (List Payout) := do
  let parsed ← entries.mapM fun entry =>
    match owedEntry entry with
    | some payout => .ok payout
    | none => .error (.usage (.badEntry entry))
  if parsed.isEmpty then throw (.usage .noEntries)
  pure parsed

variable (records : StoredRecords)

/-- The record `record_owed` writes. -/
def owedRecord (arg : String) (entries : List String) : Except Failure OwedBlock := do
  let hash ← blockHashArg "--record-owed" arg
  match records.block hash with
  | none => throw (.usage (.noBlock arg))
  | some block =>
      if records.owed.any (·.blockHash = hash) then throw (.usage (.alreadyOwed arg))
      let entries ← owedEntries entries
      let owed : OwedBlock :=
        { foundAt := block.foundAt, height := block.height, blockHash := hash, settledAt := none, entries }
      if block.paidToPool < owed.total then throw (.usage (.overPaid owed.total block.paidToPool))
      pure owed

def recordOwed (arg : String) (entries : List String) (answer : IoAnswer) :
    Except Failure Unit × StoredRecords :=
  match owedRecord records arg entries with
  | .error failure => (.error failure, records)
  | .ok owed => (records.recordOwed owed answer).map (·.mapError .io) id

/-- Why the owed record of a block may not be settled at its last reading, or none when it may. -/
def settleRefusal (arg : String) : Option ConfirmationReading → Option CommandRefusal
  | none => some (.notRead arg)
  | some reading =>
      if !reading.nodeStoresBlock then some (.notStored arg reading.checkedAt)
      else if !reading.onBestChain then some (.offBestChain arg reading.checkedAt reading.confirmations)
      else none

def settleBlock (arg : String) (now : UInt64) (answer : IoAnswer) : Except Failure Unit × StoredRecords :=
  if arg = "list" then (.ok (), records)
  else
    match blockHashArg "--settle-block" arg with
    | .error failure => (.error failure, records)
    | .ok hash =>
        let refusal := if records.owed.any (·.blockHash = hash) then
          settleRefusal arg (records.confirmations.lookup hash) else none
        match refusal with
        | some refusal => (.error (.usage refusal), records)
        | none =>
            match records.settleOwed hash now answer with
            | (.error e, records) => (.error (.io e), records)
            | (.ok none, records) => (.error (.usage (.noOwed arg)), records)
            | (.ok (some _), records) => (.ok (), records)

def voidBlock (arg : String) (answer : IoAnswer) : Except Failure Unit × StoredRecords :=
  match blockHashArg "--void-block" arg with
  | .error failure => (.error failure, records)
  | .ok hash =>
      match records.voidBlock hash answer with
      | (.error e, records) => (.error (.io e), records)
      | (.ok ⟨none, none⟩, records) => (.error (.usage (.nothingRecorded arg)), records)
      | (.ok _, records) => (.ok (), records)

/-- `execute`: whether the command succeeded, and the records after it. -/
def execute (now : UInt64) (answer : IoAnswer) : Command → Except Failure Unit × StoredRecords
  | .settleBlock arg => settleBlock records arg now answer
  | .voidBlock arg => voidBlock records arg answer
  | .recordOwed arg owed => recordOwed records arg owed answer

/-! ### What a command does -/

/-- The operation a command carries out on the records, when it does not refuse. -/
inductive Writes (now : UInt64) : Command → IoAnswer → RecordOp → Prop
  | settled {arg : String} {hash : Hash} {reading : ConfirmationReading} {answer : IoAnswer}
      (hhash : blockHashArg "--settle-block" arg = .ok hash)
      (hread : records.confirmations.lookup hash = some reading) (hchain : reading.onBestChain = true) :
      Writes now (.settleBlock arg) answer (.settleOwed hash now)
  | voided {arg : String} {hash : Hash} {answer : IoAnswer}
      (hhash : blockHashArg "--void-block" arg = .ok hash) :
      Writes now (.voidBlock arg) answer (.voidBlock hash)
  | owing {arg : String} {entries : List String} {owed : OwedBlock}
      (howed : owedRecord records arg entries = .ok owed) :
      Writes now (.recordOwed arg entries) (.ok ()) (.recordOwed owed)

variable {records} {db : RecordTables}

theorem onBestChain_of_not_refused {arg : String} {state : Option ConfirmationReading}
    (hrefusal : settleRefusal arg state = none) :
    ∃ reading, state = some reading ∧ reading.onBestChain = true := by
  cases state with
  | none => cases hrefusal
  | some reading =>
      refine ⟨reading, rfl, ?_⟩
      rw [settleRefusal] at hrefusal
      by_contra hoff
      rw [Bool.not_eq_true] at hoff
      rw [hoff] at hrefusal
      split at hrefusal
      · cases hrefusal
      · cases hrefusal

theorem recordOwed_cases (h : records.Agrees db) (arg : String) (entries : List String) (answer : IoAnswer) :
    (recordOwed records arg entries answer).2 = records ∨
      (recordOwed records arg entries answer).1 = .ok () ∧ answer = .ok () ∧
        ∃ owed, owedRecord records arg entries = .ok owed ∧
          RecordEffect records db (.recordOwed owed) (recordOwed records arg entries answer).2 := by
  unfold recordOwed
  cases howed : owedRecord records arg entries with
  | error failure => exact .inl rfl
  | ok owed =>
      cases answer with
      | error e =>
          left
          show (records.recordOwed owed (.error e)).2 = records
          unfold StoredRecords.recordOwed
          split
          · rfl
          · rw [StoredRecords.writeOwed, StoredRecords.put_error h.file]
      | ok _ =>
          obtain hsame | ⟨hok, heffect⟩ := h.recordOwed owed (.ok ())
          · exact .inl hsame
          · refine .inr ⟨?_, rfl, owed, rfl, heffect⟩
            show (records.recordOwed owed (.ok ())).1.mapError Failure.io = .ok ()
            rw [hok]
            rfl

theorem settleOwed_none {hash : Hash} {now : UInt64} {answer : IoAnswer} {records' : StoredRecords}
    (hnone : records.settleOwed hash now answer = (.ok none, records')) : records' = records := by
  unfold StoredRecords.settleOwed at hnone
  split at hnone
  · exact (Prod.mk.inj hnone).2.symm
  · split at hnone
    · exact (Prod.mk.inj hnone).2.symm
    · split at hnone
      · cases (Prod.mk.inj hnone).1
      · dsimp only at hnone
        split at hnone <;> cases (Prod.mk.inj hnone).1

/-- A settlement that takes effect is of a record held. -/
theorem any_owed_of_settled {hash : Hash} {now : UInt64} {records' : StoredRecords}
    (heffect : RecordEffect records db (.settleOwed hash now) records') :
    records.owed.any (·.blockHash = hash) = true := by
  cases heffect with
  | settled _ hheld _ _ =>
      rw [hheld]
      simp

theorem settleBlock_cases (h : records.Agrees db) (arg : String) (now : UInt64) (answer : IoAnswer) :
    (settleBlock records arg now answer).2 = records ∨
      (settleBlock records arg now answer).1 = .ok () ∧
        ∃ hash reading, blockHashArg "--settle-block" arg = .ok hash ∧
          records.confirmations.lookup hash = some reading ∧ reading.onBestChain = true ∧
          RecordEffect records db (.settleOwed hash now) (settleBlock records arg now answer).2 := by
  unfold settleBlock
  split
  · exact .inl rfl
  · cases hhash : blockHashArg "--settle-block" arg with
    | error failure => exact .inl rfl
    | ok hash =>
        dsimp only
        split
        · exact .inl rfl
        · rename_i hrefusal
          have hcases := h.settleOwed hash now answer
          generalize hsettle : records.settleOwed hash now answer = result at hcases ⊢
          obtain ⟨_ | _ | _, records'⟩ := result
          · exact .inl (hcases.resolve_right fun heffect => nomatch heffect.1)
          · exact .inl (settleOwed_none hsettle)
          · refine hcases.imp_right fun ⟨_, heffect⟩ => ⟨rfl, hash, ?_⟩
            rw [if_pos (any_owed_of_settled heffect)] at hrefusal
            obtain ⟨reading, hread, hchain⟩ := onBestChain_of_not_refused hrefusal
            exact ⟨reading, rfl, hread, hchain, heffect⟩

/-- With a reading only of recorded blocks, a void that finds neither record changes nothing. -/
theorem voidBlock_nothing {hash : Hash} {answer : IoAnswer} {records' : StoredRecords}
    (hread : ∀ hash ∈ records.confirmations, ∃ block ∈ records.blocks, block.blockHash = hash)
    (hnothing : records.voidBlock hash answer = (.ok ⟨none, none⟩, records')) : records' = records := by
  unfold StoredRecords.voidBlock at hnothing
  dsimp only at hnothing
  split at hnothing
  · exact (Prod.mk.inj hnothing).2.symm
  · rename_i hsome
    have hfound : records.blocks.find? (·.blockHash = hash) = none ∧
        records.owed.find? (·.blockHash = hash) = none := by
      rw [List.find?_eq_bind_findIdx?_getElem?, List.find?_eq_bind_findIdx?_getElem?]
      split at hnothing
      · exact Voided.mk.inj (Except.ok.inj (Prod.mk.inj hnothing).1)
      · cases (Prod.mk.inj hnothing).1
      · exact Voided.mk.inj (Except.ok.inj (Prod.mk.inj hnothing).1)
    rw [List.find?_eq_none, List.find?_eq_none] at hfound
    refine absurd ⟨?_, ?_, fun hmem => ?_⟩ hsome
    · rw [Option.isNone_iff_eq_none, List.findIdx?_eq_none_iff]
      exact fun block hblock => Bool.eq_false_iff.mpr (hfound.1 block hblock)
    · rw [Option.isNone_iff_eq_none, List.findIdx?_eq_none_iff]
      exact fun owed howed => Bool.eq_false_iff.mpr (hfound.2 owed howed)
    · obtain ⟨block, hblock, hhash⟩ := hread hash hmem
      exact hfound.1 block hblock (decide_eq_true hhash)

theorem voidBlock_cases (h : records.Agrees db)
    (hread : ∀ hash ∈ records.confirmations, ∃ block ∈ records.blocks, block.blockHash = hash) (arg : String)
    (answer : IoAnswer) :
    (voidBlock records arg answer).2 = records ∨
      (voidBlock records arg answer).1 = .ok () ∧
        ∃ hash, blockHashArg "--void-block" arg = .ok hash ∧
          RecordEffect records db (.voidBlock hash) (voidBlock records arg answer).2 := by
  unfold voidBlock
  cases hhash : blockHashArg "--void-block" arg with
  | error failure => exact .inl rfl
  | ok hash =>
      have hcases := h.voidBlock hash answer
      dsimp only
      generalize hvoid : records.voidBlock hash answer = result at hcases ⊢
      obtain ⟨e | ⟨_ | block, _ | owed⟩, records'⟩ := result
      · exact .inl (hcases.resolve_right fun heffect => nomatch heffect.1).2
      · exact .inl (voidBlock_nothing hread hvoid)
      all_goals exact hcases.imp And.right fun heffect => ⟨rfl, hash, rfl, heffect.2⟩

/-- **A command that fails changes nothing; one that succeeds changes at most what it carries out.** -/
theorem execute_cases (h : records.Agrees db)
    (hread : ∀ hash ∈ records.confirmations, ∃ block ∈ records.blocks, block.blockHash = hash) (now : UInt64)
    (answer : IoAnswer) (command : Command) :
    (execute records now answer command).2 = records ∨
      (execute records now answer command).1 = .ok () ∧ ∃ op, Writes records now command answer op ∧
        RecordEffect records db op (execute records now answer command).2 := by
  cases command with
  | settleBlock arg =>
      refine (settleBlock_cases h arg now answer).imp_right ?_
      rintro ⟨hok, hash, reading, hhash, hlookup, hchain, heffect⟩
      exact ⟨hok, _, .settled hhash hlookup hchain, heffect⟩
  | voidBlock arg =>
      refine (voidBlock_cases h hread arg answer).imp_right ?_
      rintro ⟨hok, hash, hhash, heffect⟩
      exact ⟨hok, _, .voided hhash, heffect⟩
  | recordOwed arg entries =>
      refine (recordOwed_cases h arg entries answer).imp_right ?_
      rintro ⟨hok, rfl, owed, howed, heffect⟩
      exact ⟨hok, _, .owing howed, heffect⟩

/-- What the record a hand-entered list becomes was checked for. -/
theorem owedRecord_spec {arg : String} {entries : List String} {owed : OwedBlock}
    (howed : owedRecord records arg entries = .ok owed) :
    ∃ block, blockHashArg "--record-owed" arg = .ok owed.blockHash ∧
      records.block owed.blockHash = some block ∧ (∀ held ∈ records.owed, held.blockHash ≠ owed.blockHash) ∧
      owedEntries entries = .ok owed.entries ∧ sumSats owed.entries ≤ block.paidToPool ∧
      owed.foundAt = block.foundAt ∧ owed.settledAt = none := by
  rw [owedRecord] at howed
  obtain ⟨hash, hhash, howed⟩ := Gives.exists_of_bind howed
  split at howed
  · cases howed
  · rename_i block hblock
    obtain ⟨hnew, howed⟩ := FailsIn.ok_of_guard howed
    obtain ⟨payouts, hentries, howed⟩ := Gives.exists_of_bind howed
    obtain ⟨hfits, howed⟩ := FailsIn.ok_of_guard howed
    obtain rfl := Except.ok.inj howed
    refine ⟨block, hhash, hblock, ?_, hentries, Nat.le_of_not_lt hfits, rfl, rfl⟩
    simpa using hnew

end Admin
end Ratum
