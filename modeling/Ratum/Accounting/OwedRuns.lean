import Ratum.Accounting.Admin
import Ratum.Accounting.OwedBounds
import Ratum.Bitcoin.OneIdentity

/-!
# What the pool owes, over its runs

Runs over the block records: found blocks and what they owe recorded after their relay, the ledger commands,
confirmation readings, writes that fail and restarts. A command run against the file is a restart before it.
What is owed stays within what the pool's script received as long as the entries given by hand fit their
record.
-/

namespace Ratum

open Admin

instance : Zero F64 := ⟨⟨0⟩⟩

/-! ### A found block, recorded -/

/-- The block `record_found_block` records. -/
def foundBlockOf (l : Ledger F64) (tipDifficulty : Option F64) (username : String) (rebuilt : RebuiltShare)
    (now : UInt64) : FoundBlock F64 where
  foundAt := now.toNat
  height := rebuilt.height
  blockHash := rebuilt.blockHash
  paidToSplit := rebuilt.paidToSplit
  paidToPool := rebuilt.paidToPool
  finder := identityOf canonicalAddress username
  tagSecondary := rebuilt.tagSecondary
  networkDifficulty := (l.networkDifficulty.or tipDifficulty).getD 0
  cumulativeWork := l.cumulativeWork

namespace StoredRecords

variable (decoding : AddressDecoding) (chain : Option Prefixes) (records : StoredRecords)

def recordFound (l : Ledger F64) (tipDifficulty : Option F64) (username : String) (rebuilt : RebuiltShare)
    (now : UInt64) (answer : IoAnswer) : StoredRecords :=
  (records.recordBlock (foundBlockOf l tipDifficulty username rebuilt now) answer).2

def recordOwing (l : Ledger F64) (rebuilt : RebuiltShare) (now : UInt64) (answer : IoAnswer) : StoredRecords :=
  match owedAgainst (addressScript decoding chain) l rebuilt now.toNat with
  | none => records
  | some owed => (records.recordOwed owed answer).2

variable {records} {db : RecordTables}

/-- An operation that succeeded gives the records it answers; one that failed leaves them. -/
theorem toBlockRecords_eq {result : IoAnswer × StoredRecords} {answered : Except IoError (BlockRecords F64)}
    (hanswered : result.1.map (fun _ => result.2.toBlockRecords) = answered)
    (hfailed : result.2 = records ∨ result.1 = .ok ()) :
    (∃ e, answered = .error e) ∧ result.2.toBlockRecords = records.toBlockRecords ∨
      answered = .ok result.2.toBlockRecords := by
  subst hanswered
  obtain ⟨e | _, records'⟩ := result
  · rw [hfailed.resolve_right fun hok => nomatch hok]
    exact .inl ⟨⟨e, rfl⟩, rfl⟩
  · exact .inr rfl

theorem recordFound_toBlockRecords (h : records.Agrees db) (l : Ledger F64) (tipDifficulty : Option F64)
    (username : String) (rebuilt : RebuiltShare) (now : UInt64) (answer : IoAnswer) :
    (records.recordFound l tipDifficulty username rebuilt now answer).toBlockRecords =
      recordFoundBlock canonicalAddress l tipDifficulty records.toBlockRecords username rebuilt now.toNat
        answer := by
  have hcases := h.recordBlock (foundBlockOf l tipDifficulty username rebuilt now) answer
  have hresult := toBlockRecords_eq (recordBlock_toBlockRecords h.file _ answer) (hcases.imp_right And.left)
  unfold foundBlockOf at hresult
  unfold recordFoundBlock recordFound foundBlockOf
  dsimp only
  obtain ⟨⟨e, herror⟩, hsame⟩ | hok := hresult
  · rw [herror, hsame]
  · rw [hok]

theorem recordOwing_toBlockRecords (h : records.Agrees db) (l : Ledger F64) (rebuilt : RebuiltShare)
    (now : UInt64) (answer : IoAnswer) :
    (records.recordOwing decoding chain l rebuilt now answer).toBlockRecords =
      logAndRecordOwed records.toBlockRecords (owedAgainst (addressScript decoding chain) l rebuilt now.toNat)
        answer := by
  unfold recordOwing logAndRecordOwed
  cases owedAgainst (addressScript decoding chain) l rebuilt now.toNat with
  | none => rfl
  | some owed =>
      have hcases := h.recordOwed owed answer
      have hresult := toBlockRecords_eq (recordOwed_toBlockRecords h.file owed answer) (hcases.imp_right And.left)
      dsimp only
      obtain ⟨⟨e, herror⟩, hsame⟩ | hok := hresult
      · rw [herror, hsame]
      · rw [hok]

/-- A found block is recorded as `accounting::record_block` records it. -/
theorem recordBlock_steps (h : records.Agrees db) (l : Ledger F64) (tipDifficulty : Option F64)
    (username : String) (rebuilt : RebuiltShare) (now : UInt64) (block owed : IoAnswer)
    {db' : RecordTables} (h' : (records.recordFound l tipDifficulty username rebuilt now block).Agrees db') :
    ((records.recordFound l tipDifficulty username rebuilt now block).recordOwing decoding chain l rebuilt now
        owed).toBlockRecords =
      Ratum.recordBlock (addressScript decoding chain) canonicalAddress l tipDifficulty records.toBlockRecords
        username rebuilt now.toNat block owed := by
  rw [recordOwing_toBlockRecords decoding chain h', recordFound_toBlockRecords h, recordBlock_eq_owedAgainst]

end StoredRecords

theorem mem_stringBytes_identityOf {b : UInt8} {username : String}
    (hb : b ∈ stringBytes (identityOf canonicalAddress username)) :
    ∃ b' ∈ stringBytes username, b = b' ∨ b = asciiLower b' := by
  have hprefix : ∀ b ∈ stringBytes (String.ofList (username.toList.takeWhile (· ≠ '.'))),
      b ∈ stringBytes username := by
    intro b hb
    rw [stringBytes_ofList, List.mem_flatMap] at hb
    rw [stringBytes_eq, List.mem_flatMap]
    obtain ⟨c, hc, hb⟩ := hb
    exact ⟨c, List.takeWhile_subset _ hc, hb⟩
  rw [identityOf] at hb
  obtain ⟨heq, -⟩ | ⟨heq, -⟩ :=
    canonicalAddress_eq (String.ofList (username.toList.takeWhile (· ≠ '.')))
  · rw [heq, lowercase, stringBytes_lower, List.mem_map] at hb
    obtain ⟨b', hb', rfl⟩ := hb
    exact ⟨b', hprefix b' hb', .inr rfl⟩
  · rw [heq] at hb
    exact ⟨b, hprefix b hb, .inl rfl⟩

theorem foundBlockOf_packable {decoding : AddressDecoding} {chain : Option Prefixes} {payoutScript : Bytes}
    {rebuilt : RebuiltShare} (hpays : rebuilt.PaysAsChecked decoding chain payoutScript) {l : Ledger F64}
    (hwork : l.cumulativeWork ≤ U128_MAX) {username : String}
    (husername : NAME_SEPARATOR ∉ stringBytes username) (tipDifficulty : Option F64) (now : UInt64) :
    (foundBlockOf l tipDifficulty username rebuilt now).Packable := by
  obtain ⟨hsplit, hpool, -⟩ := hpays.spec
  refine ⟨now.toNat_lt, Nat.lt_of_le_of_lt hsplit (by decide), Nat.lt_of_le_of_lt hpool (by decide),
    Nat.lt_of_le_of_lt hwork (by decide), fun hseparator => ?_⟩
  obtain ⟨b, hb, hzero | hzero⟩ := mem_stringBytes_identityOf hseparator
  · exact husername (hzero ▸ hb)
  · cases hupper : isAsciiUpper b with
    | true =>
        have hbyte := congrArg UInt8.toNat hzero
        rw [toNat_asciiLower_of_upper hupper, NAME_SEPARATOR] at hbyte
        simp at hbyte
    | false =>
        rw [asciiLower_of_not_upper hupper] at hzero
        exact husername (hzero ▸ hb)

/-! ### Runs -/

inductive OwedEvent
  | recorded
  | owing
  | command (command : Command) (answer : IoAnswer) (result : Except Failure Unit)
  | read
  | reopened

section

variable (decoding : AddressDecoding) (chain : Option Prefixes) (payoutScript : Bytes) (paidToPool : Hash → Nat)

/-- The steps. The records are locked for each alone, so a command may run between a block's record and the
record of what it owes. A username, as a share carries it, ends before its first zero byte. -/
inductive OwedStep : StoredRecords → OwedEvent → StoredRecords → Prop
  | recorded {records : StoredRecords} {rebuilt : RebuiltShare}
      (hpays : rebuilt.PaysAsChecked decoding chain payoutScript)
      (hpaid : rebuilt.paidToPool = paidToPool rebuilt.blockHash) {l : Ledger F64}
      (hwork : l.cumulativeWork ≤ U128_MAX) (tipDifficulty : Option F64) {username : String}
      (husername : NAME_SEPARATOR ∉ stringBytes username) (now : UInt64) (answer : IoAnswer) :
      OwedStep records .recorded (records.recordFound l tipDifficulty username rebuilt now answer)
  | owing {records : StoredRecords} {rebuilt : RebuiltShare}
      (hpays : rebuilt.PaysAsChecked decoding chain payoutScript)
      (hpaid : rebuilt.paidToPool = paidToPool rebuilt.blockHash) (l : Ledger F64) (now : UInt64)
      (answer : IoAnswer) :
      OwedStep records .owing (records.recordOwing decoding chain l rebuilt now answer)
  | command {records : StoredRecords} (command : Command) (now : UInt64) (answer : IoAnswer) :
      OwedStep records (.command command answer (execute records now answer command).1)
        (execute records now answer command).2
  | read {records : StoredRecords} {hash : Hash} (hblock : (records.block hash).isSome)
      (reading : ConfirmationReading) (answer : IoAnswer) :
      OwedStep records .read (records.recordConfirmations hash reading answer).2
  | reopened {records reopened : StoredRecords} {db : RecordTables} {created read : IoAnswer}
      (hfile : records.db = some db) (hopen : StoredRecords.open db created read = .ok reopened) :
      OwedStep records .reopened reopened

/-- The runs over the records from the given ones. -/
def owedRuns (start : StoredRecords) : Lts StoredRecords OwedEvent where
  init records := records = start
  step := OwedStep decoding chain payoutScript paidToPool

end

/-- The entries a `--record-owed` that is not refused gives fit their record. -/
def GivenFit (records : StoredRecords) : OwedEvent → Prop
  | .command (.recordOwed arg entries) (.ok ()) _ => ∀ hash block payouts,
      blockHashArg "--record-owed" arg = .ok hash → records.block hash = some block →
      (∀ held ∈ records.owed, held.blockHash ≠ hash) → Admin.owedEntries entries = .ok payouts →
      sumSats payouts ≤ block.paidToPool → EntriesFit payouts
  | _ => True

/-- What is owed for a recorded block is within what the pool's script received of it, and only recorded
blocks were read. -/
structure OwedWithin (paidToPool : Hash → Nat) (records : StoredRecords) : Prop where
  agrees : ∃ db, records.Agrees db
  blocks : ∀ block ∈ records.blocks, block.paidToPool = paidToPool block.blockHash ∧ block.Packable
  owed : ∀ owed ∈ records.owed, Suffix.total Payout.sats owed.entries ≤ paidToPool owed.blockHash
  read : ∀ hash ∈ records.confirmations, ∃ block ∈ records.blocks, block.blockHash = hash

/-- What an operation an event carries out was checked for. -/
inductive OwedChange (paidToPool : Hash → Nat) (records : StoredRecords) : OwedEvent → RecordOp → Prop
  | recorded {block : FoundBlock F64} (hpaid : block.paidToPool = paidToPool block.blockHash)
      (hpackable : block.Packable) : OwedChange paidToPool records .recorded (.recordBlock block)
  | owing {owed : OwedBlock} (hopen : owed.settledAt = none) (hpackable : owed.Packable)
      (htotal : Suffix.total Payout.sats owed.entries ≤ paidToPool owed.blockHash) :
      OwedChange paidToPool records .owing (.recordOwed owed)
  | command {command : Command} {now : UInt64} {answer : IoAnswer} {op : RecordOp}
      (hwrites : Writes records now command answer op) :
      OwedChange paidToPool records (.command command answer (.ok ())) op
  | read {hash : Hash} (hblock : ∃ block ∈ records.blocks, block.blockHash = hash)
      (reading : ConfirmationReading) :
      OwedChange paidToPool records .read (.recordConfirmations hash reading)

section

variable {decoding : AddressDecoding} {chain : Option Prefixes} {payoutScript : Bytes} {paidToPool : Hash → Nat}
  {records records' : StoredRecords} {db : RecordTables} {event : OwedEvent}

/-- A step changes nothing, carries out one operation, or reads the records back. -/
theorem OwedStep.cases (h : records.Agrees db)
    (hread : ∀ hash ∈ records.confirmations, ∃ block ∈ records.blocks, block.blockHash = hash)
    (hstep : OwedStep decoding chain payoutScript paidToPool records event records') :
    records' = records ∨
      (∃ op, OwedChange paidToPool records event op ∧ RecordEffect records db op records') ∨
      event = .reopened ∧ records'.Agrees db ∧ records'.SameAs records := by
  cases hstep with
  | recorded hpays hpaid hwork tipDifficulty husername now answer =>
      refine (h.recordBlock _ answer).imp_right fun heffect => .inl ⟨_, ?_, heffect.2⟩
      exact .recorded hpaid (foundBlockOf_packable hpays hwork husername tipDifficulty now)
  | @owing rebuilt hpays hpaid l now answer =>
      rw [StoredRecords.recordOwing]
      cases howed : owedAgainst (addressScript decoding chain) l rebuilt now.toNat with
      | none => exact .inl rfl
      | some owed =>
          obtain ⟨hhash, hopen, hpackable, htotal⟩ := owedAgainst_spec hpays howed
          refine (h.recordOwed owed answer).imp_right fun heffect => .inl ⟨_, ?_, heffect.2⟩
          exact .owing hopen hpackable (hhash ▸ hpaid ▸ htotal)
  | command command now answer =>
      refine (execute_cases h hread now answer command).imp_right ?_
      rintro ⟨hok, op, hwrites, heffect⟩
      rw [hok]
      exact .inl ⟨op, .command hwrites, heffect⟩
  | read hblock reading answer =>
      refine (h.recordConfirmations _ reading answer).imp_right fun heffect => .inl ⟨_, ?_, heffect.2⟩
      obtain ⟨block, hmem, hhash⟩ := List.find?_isSome.mp hblock
      exact .read ⟨block, hmem, of_decide_eq_true hhash⟩ reading
  | reopened hfile hopen =>
      rw [h.file] at hfile
      cases hfile
      exact .inr (.inr ⟨rfl, h.reopen hopen⟩)

/-! ### What every step keeps -/

/-- What an operation writes that keeps what is owed within what was paid. -/
def RecordOp.Within (paidToPool : Hash → Nat) (records : StoredRecords) : RecordOp → Prop
  | .recordBlock block => block.paidToPool = paidToPool block.blockHash ∧ block.Packable
  | .recordOwed owed =>
      owed.Packable ∧ Suffix.total Payout.sats owed.entries ≤ paidToPool owed.blockHash
  | .recordConfirmations hash _ => ∃ block ∈ records.blocks, block.blockHash = hash
  | .settleOwed _ _ => True
  | .voidBlock _ => True

theorem RecordOp.Within.packable {op : RecordOp} (hop : op.Within paidToPool records) : op.Packable := by
  cases op with
  | recordBlock block => exact hop.2
  | recordOwed owed => exact hop.1
  | settleOwed hash settledAt => trivial
  | recordConfirmations hash reading => trivial
  | voidBlock hash => trivial

namespace OwedWithin

/-- A list given by hand that fits is within what the block paid. -/
theorem given (h : OwedWithin paidToPool records) {arg : String} {entries : List String} {owed : OwedBlock}
    {result : Except Failure Unit}
    (hfit : GivenFit records (.command (.recordOwed arg entries) (.ok ()) result))
    (howed : owedRecord records arg entries = .ok owed) :
    (RecordOp.recordOwed owed).Within paidToPool records := by
  obtain ⟨block, hhash, hblock, hnew, hentries, hsum, hfound, hopen⟩ := owedRecord_spec howed
  have hfits := hfit _ block _ hhash hblock hnew hentries hsum
  obtain ⟨hpaid, hpackable⟩ := h.blocks block (List.mem_of_find?_eq_some hblock)
  have hblockHash : block.blockHash = owed.blockHash := by
    rw [StoredRecords.block] at hblock
    simpa using List.find?_some hblock
  rw [sumSats_eq _ hfits.total, hpaid, hblockHash] at hsum
  exact ⟨⟨hfound ▸ hpackable.foundAt, OwedBlock.settledAt_of_open hopen, hfits.count, hfits.packable⟩, hsum⟩

theorem change (h : OwedWithin paidToPool records) (hfit : GivenFit records event) {op : RecordOp}
    (hchange : OwedChange paidToPool records event op) : op.Within paidToPool records := by
  cases hchange with
  | recorded hpaid hpackable => exact ⟨hpaid, hpackable⟩
  | owing hopen hpackable htotal => exact ⟨hpackable, htotal⟩
  | command hwrites =>
      cases hwrites with
      | settled => trivial
      | voided => trivial
      | owing howed => exact h.given hfit howed
  | read hblock reading => exact hblock

theorem effect (h : OwedWithin paidToPool records) (hagrees : records.Agrees db) {op : RecordOp}
    (hop : op.Within paidToPool records) (heffect : RecordEffect records db op records') :
    OwedWithin paidToPool records' := by
  have hagrees' := hagrees.effect hop.packable heffect
  cases heffect with
  | recorded block hnew =>
      refine ⟨hagrees', ?_, h.owed, ?_⟩
      · intro held hheld
        obtain hheld | hheld := List.mem_append.mp hheld
        · exact h.blocks held hheld
        · exact List.mem_singleton.mp hheld ▸ hop
      · intro hash hhash
        obtain ⟨held, hheld, heq⟩ := h.read hash hhash
        exact ⟨held, List.mem_append_left _ hheld, heq⟩
  | owing owed hnew =>
      refine ⟨hagrees', h.blocks, ?_, h.read⟩
      intro held hheld
      obtain hheld | hheld := List.mem_append.mp hheld
      · exact h.owed held hheld
      · exact List.mem_singleton.mp hheld ▸ hop.2
  | @settled owed owed' before after settledAt hheld hopen howed' =>
      refine ⟨hagrees', h.blocks, ?_, h.read⟩
      have hbefore : ∀ held ∈ before ++ owed :: after,
          Suffix.total Payout.sats held.entries ≤ paidToPool held.blockHash := hheld ▸ h.owed
      intro held hmem
      obtain hmem | hmem := List.mem_append.mp hmem
      · exact hbefore held (List.mem_append_left _ hmem)
      · obtain rfl | hmem := List.mem_cons.mp hmem
        · subst howed'
          exact hbefore owed List.mem_append_cons_self
        · exact hbefore held (List.mem_append_right _ (List.mem_cons_of_mem _ hmem))
  | read hash reading =>
      refine ⟨hagrees', h.blocks, h.owed, ?_⟩
      intro held hheld
      rw [AList.mem_insert] at hheld
      obtain rfl | hheld := hheld
      · exact hop
      · exact h.read held hheld
  | voided hash =>
      refine ⟨hagrees', fun held hheld => h.blocks held (List.mem_of_mem_filter hheld),
        fun held hheld => h.owed held (List.mem_of_mem_filter hheld), ?_⟩
      intro held hheld
      rw [AList.mem_erase] at hheld
      obtain ⟨block, hblock, rfl⟩ := h.read held hheld.2
      exact ⟨block, List.mem_filter.mpr ⟨hblock, by simpa using hheld.1⟩, rfl⟩

theorem reopened (h : OwedWithin paidToPool records) (hagrees' : records'.Agrees db)
    (hsame : records'.SameAs records) : OwedWithin paidToPool records' where
  agrees := ⟨db, hagrees'⟩
  blocks := fun block hblock => h.blocks block (hsame.blocks.mem_iff.mp hblock)
  owed := fun owed howed => h.owed owed (hsame.owed.mem_iff.mp howed)
  read := by
    intro hash hhash
    have hreadings := (hsame.confirmations.map Prod.fst).mem_iff (a := hash)
    rw [readingsOf, readingsOf, List.map_map, List.map_map] at hreadings
    obtain ⟨block, hblock, heq⟩ := h.read hash (hreadings.mp hhash)
    exact ⟨block, hsame.blocks.mem_iff.mpr hblock, heq⟩

/-- **A step keeps what is owed within what was paid**, when the entries it gives by hand fit. -/
theorem step (h : OwedWithin paidToPool records) (hfit : GivenFit records event)
    (hstep : OwedStep decoding chain payoutScript paidToPool records event records') :
    OwedWithin paidToPool records' := by
  obtain ⟨db, hagrees⟩ := h.agrees
  obtain rfl | ⟨op, hchange, heffect⟩ | ⟨-, hagrees', hsame⟩ := hstep.cases hagrees h.read
  · exact h
  · exact h.effect hagrees (h.change hfit hchange) heffect
  · exact h.reopened hagrees' hsame

end OwedWithin

/-! ### Settling -/

/-- An owed record is settled, its entries as they are, by a command and at a reading that places its block on
the best chain. -/
structure SettledBy (records : StoredRecords) (event : OwedEvent) (owed owed' : OwedBlock) : Prop where
  unsettled : owed.settledAt = none
  becomes : ∃ settledAt, owed' = { owed with settledAt := some settledAt }
  command : ∃ arg answer reading, event = .command (.settleBlock arg) answer (.ok ()) ∧
    blockHashArg "--settle-block" arg = .ok owed.blockHash ∧
    records.confirmations.lookup owed.blockHash = some reading ∧ reading.onBestChain = true

/-- The event is a command to void the block. -/
def OwedEvent.Voids (hash : Hash) : OwedEvent → Prop
  | .command (.voidBlock arg) _ _ => blockHashArg "--void-block" arg = .ok hash
  | _ => False

/-- What a step does to the owed records: each stays, is settled, or is voided with its block; and each it
leaves was there, is settled by it, or is new and unsettled. -/
structure OwedKept (records : StoredRecords) (event : OwedEvent) (records' : StoredRecords) : Prop where
  before : ∀ owed ∈ records.owed, owed ∈ records'.owed ∨
    (∃ owed' ∈ records'.owed, SettledBy records event owed owed') ∨ event.Voids owed.blockHash
  after : ∀ owed' ∈ records'.owed, owed' ∈ records.owed ∨
    (∃ owed ∈ records.owed, SettledBy records event owed owed') ∨
    owed'.settledAt = none ∧ ∀ owed ∈ records.owed, owed.blockHash ≠ owed'.blockHash

namespace OwedKept

theorem of_owed_eq (hsame : records'.owed = records.owed) : OwedKept records event records' where
  before := fun _ howed => .inl (hsame ▸ howed)
  after := fun _ howed => .inl (hsame ▸ howed)

theorem of_appended {owed : OwedBlock} (hopen : owed.settledAt = none)
    (hnew : ∀ held ∈ records.owed, held.blockHash ≠ owed.blockHash)
    (happended : records'.owed = records.owed ++ [owed]) : OwedKept records event records' where
  before := fun _ howed => .inl (happended ▸ List.mem_append_left _ howed)
  after := by
    intro owed' howed'
    rw [happended] at howed'
    obtain howed' | howed' := List.mem_append.mp howed'
    · exact .inl howed'
    · rw [List.mem_singleton.mp howed']
      exact .inr (.inr ⟨hopen, hnew⟩)

theorem of_replaced {owed owed' : OwedBlock} {before after : List OwedBlock}
    (hheld : records.owed = before ++ owed :: after) (hreplaced : records'.owed = before ++ owed' :: after)
    (hsettled : SettledBy records event owed owed') : OwedKept records event records' where
  before := by
    intro held hmem
    rw [hheld, List.mem_append, List.mem_cons] at hmem
    rw [hreplaced]
    obtain hmem | rfl | hmem := hmem
    · exact .inl (List.mem_append_left _ hmem)
    · exact .inr (.inl ⟨owed', List.mem_append_cons_self, hsettled⟩)
    · exact .inl (List.mem_append_right _ (List.mem_cons_of_mem _ hmem))
  after := by
    intro held hmem
    rw [hreplaced, List.mem_append, List.mem_cons] at hmem
    rw [hheld]
    obtain hmem | rfl | hmem := hmem
    · exact .inl (List.mem_append_left _ hmem)
    · exact .inr (.inl ⟨owed, List.mem_append_cons_self, hsettled⟩)
    · exact .inl (List.mem_append_right _ (List.mem_cons_of_mem _ hmem))

theorem of_voided {hash : Hash} (hvoids : event.Voids hash)
    (hvoided : records'.owed = records.owed.filter (·.blockHash ≠ hash)) :
    OwedKept records event records' where
  before := by
    intro owed howed
    by_cases hhash : owed.blockHash = hash
    · exact .inr (.inr (hhash ▸ hvoids))
    · exact .inl (hvoided ▸ List.mem_filter.mpr ⟨howed, by simpa using hhash⟩)
  after := fun _ howed' => .inl (List.mem_of_mem_filter (hvoided ▸ howed'))

end OwedKept

namespace OwedWithin

theorem kept (h : OwedWithin paidToPool records)
    (hstep : OwedStep decoding chain payoutScript paidToPool records event records') :
    OwedKept records event records' := by
  obtain ⟨db, hagrees⟩ := h.agrees
  obtain rfl | ⟨op, hchange, heffect⟩ | ⟨-, -, hsame⟩ := hstep.cases hagrees h.read
  · exact .of_owed_eq rfl
  · cases hchange with
    | recorded hpaid hpackable =>
        cases heffect with
        | recorded => exact .of_owed_eq rfl
    | owing hopen hpackable htotal =>
        cases heffect with
        | owing _ hnew => exact .of_appended hopen hnew rfl
    | read hblock reading =>
        cases heffect with
        | read => exact .of_owed_eq rfl
    | command hwrites =>
        cases hwrites with
        | settled hhash hread hchain =>
            cases heffect with
            | settled _ hheld hopen howed' =>
                exact .of_replaced hheld rfl ⟨hopen, ⟨_, howed'⟩, _, _, _, rfl, hhash, hread, hchain⟩
        | voided hhash =>
            cases heffect with
            | voided => exact .of_voided hhash rfl
        | owing howed =>
            obtain ⟨block, -, -, hnew, -, -, -, hopen⟩ := owedRecord_spec howed
            cases heffect with
            | owing => exact .of_appended hopen hnew rfl
  · exact ⟨fun _ howed => .inl (hsame.owed.mem_iff.mpr howed), fun _ howed => .inl (hsame.owed.mem_iff.mp howed)⟩

theorem refused (h : OwedWithin paidToPool records) {command : Command} {answer : IoAnswer} {failure : Failure}
    (hstep : OwedStep decoding chain payoutScript paidToPool records (.command command answer (.error failure))
      records') : records' = records := by
  obtain ⟨db, hagrees⟩ := h.agrees
  obtain hsame | ⟨op, hchange, -⟩ | ⟨hevent, -⟩ := hstep.cases hagrees h.read
  · exact hsame
  · cases hchange
  · cases hevent

end OwedWithin

theorem freshRecords_within (paidToPool : Hash → Nat) : OwedWithin paidToPool freshRecords where
  agrees := ⟨_, freshRecords_agrees⟩
  blocks := fun _ h => absurd h List.not_mem_nil
  owed := fun _ h => absurd h List.not_mem_nil
  read := fun _ h => absurd h List.not_mem_nil

theorem owedRuns_within {start : StoredRecords} (hstart : OwedWithin paidToPool start) {trace : List OwedEvent}
    (hrun : ((owedRuns decoding chain payoutScript paidToPool start).restrict GivenFit).Run trace records) :
    OwedWithin paidToPool records := by
  refine hrun.invariant (I := fun _ records => OwedWithin paidToPool records) ?_ ?_
  · rintro _ rfl
    exact hstart
  · intro _ _ _ _ h hstep
    exact h.step hstep.1 hstep.2

/-- Over a run that does not void its block, an owed record keeps its entries and is settled at most once. -/
theorem owedRuns_kept {start : StoredRecords} (hstart : OwedWithin paidToPool start) {owed : OwedBlock}
    (howed : owed ∈ start.owed) {trace : List OwedEvent}
    (hrun : ((owedRuns decoding chain payoutScript paidToPool start).restrict GivenFit).Run trace records)
    (hvoid : ∀ event ∈ trace, ¬ event.Voids owed.blockHash) :
    owed ∈ records.owed ∨
      owed.settledAt = none ∧ ∃ settledAt, { owed with settledAt := some settledAt } ∈ records.owed := by
  have hboth := hrun.invariant
    (I := fun trace records => OwedWithin paidToPool records ∧
      ((∀ event ∈ trace, ¬ event.Voids owed.blockHash) → owed ∈ records.owed ∨
        owed.settledAt = none ∧ ∃ settledAt, { owed with settledAt := some settledAt } ∈ records.owed)) ?_ ?_
  · exact hboth.2 hvoid
  · rintro _ rfl
    exact ⟨hstart, fun _ => .inl howed⟩
  · intro trace records event records' ⟨h, hkept⟩ ⟨hfit, hstep⟩
    refine ⟨h.step hfit hstep, fun hvoid => ?_⟩
    have hevent := hvoid event (List.mem_append_right _ List.mem_cons_self)
    have hbefore := (h.kept hstep).before
    obtain hheld | ⟨hopen, settledAt, hheld⟩ := hkept fun _ h => hvoid _ (List.mem_append_left _ h)
    · obtain hmem | ⟨owed', hmem, hsettled⟩ | hvoids := hbefore owed hheld
      · exact .inl hmem
      · obtain ⟨settledAt, rfl⟩ := hsettled.becomes
        exact .inr ⟨hsettled.unsettled, settledAt, hmem⟩
      · exact absurd hvoids hevent
    · obtain hmem | ⟨owed', -, hsettled⟩ | hvoids := hbefore _ hheld
      · exact .inr ⟨hopen, settledAt, hmem⟩
      · cases hsettled.unsettled
      · exact absurd hvoids hevent

/-- **An owed record promises no more than the pool received**, in every run whose lists given by hand fit
their records. It becomes settled by a settlement alone, at a reading on the best chain, once and with its
entries; and a command refused changes nothing. -/
theorem owed_within_paid {trace : List OwedEvent}
    (hrun : ((owedRuns decoding chain payoutScript paidToPool freshRecords).restrict GivenFit).Run trace
      records) :
    (∀ owed ∈ records.owed, ∀ block ∈ records.blocks, block.blockHash = owed.blockHash →
      Suffix.total Payout.sats owed.entries ≤ block.paidToPool) ∧
    (∀ event records', OwedStep decoding chain payoutScript paidToPool records event records' →
      OwedKept records event records') ∧
    (∀ later records',
      ((owedRuns decoding chain payoutScript paidToPool records).restrict GivenFit).Run later records' →
      ∀ owed ∈ records.owed, (∀ event ∈ later, ¬ event.Voids owed.blockHash) →
        owed ∈ records'.owed ∨
          owed.settledAt = none ∧ ∃ settledAt, { owed with settledAt := some settledAt } ∈ records'.owed) ∧
    ∀ command answer failure records',
      OwedStep decoding chain payoutScript paidToPool records (.command command answer (.error failure))
        records' → records' = records := by
  have h := owedRuns_within (freshRecords_within paidToPool) hrun
  refine ⟨?_, fun _ _ hstep => h.kept hstep, fun _ _ hlater owed howed hvoid => owedRuns_kept h howed hlater hvoid,
    fun _ _ _ _ hstep => h.refused hstep⟩
  intro owed howed block hblock hhash
  rw [(h.blocks block hblock).1, hhash]
  exact h.owed owed howed

end

/-! ### A block of the subsidy alone -/

/-- A share whose coinbase paid the pool's script 3400. -/
def poolBlock : RebuiltShare where
  isBlock := true
  difficulty := 1
  blockHash := Vector.replicate 32 7
  rawPowHash := Vector.replicate 32 0
  prevHash := Vector.replicate 32 0
  jobBits := 0
  header := []
  coinbaseTx := []
  height := 1
  txnCount := 0
  coinbaserId := 0
  paidToSplit := 0
  paidToPool := 3400
  unpaidOutputs := []
  tagSecondary := ""
  version := 0
  coinbaseDigest := Vector.replicate 32 0
  jobGeneration := none

theorem poolBlock_pays : poolBlock.PaysAsChecked noAddresses none [2] := by
  let job : JobSection :=
    { prevHash := Vector.replicate 32 0, targetByteIndex := 0, nbits := Vector.replicate 4 0
      coinbaserId := 0, height := 1, coinbaseValue := 3400, txnCount := 0, txnTotalWeight := 0
      txnTotalSize := 0, txnTotalSigops := 0, merkleBranches := [] }
  let share : PowSubmit :=
    { jobId := 0, coinbaseId := 0, isBlock := true, subsidyOnly := true, quickdiff := false
      targetByte := 0, ntime := 0, nonce := 0, version := 0, extranonce := Vector.replicate 12 0
      username := "a", useTimeOffset := false, job := none, coinbase := none
      blake2b := ⟨Vector.replicate 8 0, Vector.replicate 8 0, 0⟩, abwSlot := none }
  let tx : CoinbaseTx :=
    { version := 1, scriptSigOffset := 42, scriptSig := [], sequence := 0xffffffff
      outputs := [⟨3400, [2]⟩], lockTime := 0, hasWitness := false }
  exact ⟨⟨0, by decide⟩, [], .empty, job, tx, share, .start rfl, by decide, by decide +kernel⟩

def blankLedger : Ledger F64 where
  contents := .empty
  windowRule := ⟨fun _ => 3, fun _ => by decide, fun _ => by decide⟩
  splitPolicy := ⟨0, by decide⟩
  window := 3
  store := none
  cumulativeWork := 0
  maxShares := MAX_SHARES
  countCapped := false
  networkDifficulty := none
  rereadDue := false
  recordedDuringReread := none

/-- The records with the block. -/
def poolBlockRecorded : StoredRecords := freshRecords.recordFound blankLedger none "a" poolBlock 1000 (.ok ())

theorem poolBlockRecorded_step :
    OwedStep noAddresses none [2] (fun _ => 3400) freshRecords .recorded poolBlockRecorded :=
  .recorded poolBlock_pays rfl (by decide) none (by decide +kernel) 1000 (.ok ())

def poolBlockArg : String := "0707070707070707070707070707070707070707070707070707070707070707"

theorem owed_within_paid_settled : ∃ records : StoredRecords,
    records.owed = [⟨1000, 1, Vector.replicate 32 7, some 3000, [⟨"a", 3399⟩]⟩] ∧
    ∀ owed ∈ records.owed, ∀ block ∈ records.blocks, block.blockHash = owed.blockHash →
      Suffix.total Payout.sats owed.entries ≤ block.paidToPool := by
  have hentries : Admin.owedEntries ["a=3399"] = .ok [⟨"a", 3399⟩] := by decide +kernel
  have hfit : ∀ result, GivenFit poolBlockRecorded (.command (.recordOwed poolBlockArg ["a=3399"]) (.ok ()) result) := by
    intro result hash block payouts _ _ _ hpayouts _
    obtain rfl := Except.ok.inj (hentries.symm.trans hpayouts)
    refine ⟨by decide, by decide, fun payout hpayout => ?_⟩
    rw [List.mem_singleton.mp hpayout]
    decide
  have hstart : ((owedRuns noAddresses none [2] (fun _ => 3400) freshRecords).restrict GivenFit).Run []
    freshRecords := .start rfl
  have hrecorded := hstart.next_allowed poolBlockRecorded_step trivial
  have howed := hrecorded.next_allowed (.command (.recordOwed poolBlockArg ["a=3399"]) 2000 (.ok ())) (hfit _)
  have hread := howed.next_allowed
    (@OwedStep.read _ _ _ _ _ poolBlock.blockHash (by decide +kernel) ⟨2500, 3⟩ (.ok ())) trivial
  have hsettled := hread.next_allowed (.command (.settleBlock poolBlockArg) 3000 (.ok ())) trivial
  exact ⟨_, by decide +kernel, (owed_within_paid hsettled).1⟩

/-- Two amounts of `2^63`, whose sum as a `u64` is 0. -/
def wrappingEntries : List String := ["a=9223372036854775808", "b=9223372036854775808"]

/-- The records after the command that gives them. -/
def wrappingRecorded : StoredRecords :=
  (execute poolBlockRecorded 2000 (.ok ()) (.recordOwed poolBlockArg wrappingEntries)).2

theorem wrapping_total_recorded :
    (owedRuns noAddresses none [2] (fun _ => 3400) freshRecords).Run
      [.recorded, .command (.recordOwed poolBlockArg wrappingEntries) (.ok ()) (.ok ())] wrappingRecorded ∧
    ∃ owed ∈ wrappingRecorded.owed, ∃ block ∈ wrappingRecorded.blocks, block.blockHash = owed.blockHash ∧
      block.paidToPool < Suffix.total Payout.sats owed.entries := by
  have hok : (execute poolBlockRecorded 2000 (.ok ()) (.recordOwed poolBlockArg wrappingEntries)).1 = .ok () := by
    decide +kernel
  have hrecorded := Lts.Run.next (S := owedRuns noAddresses none [2] (fun _ => 3400) freshRecords) (.start rfl)
    poolBlockRecorded_step
  have howed := hrecorded.next (.command (.recordOwed poolBlockArg wrappingEntries) 2000 (.ok ()))
  rw [hok] at howed
  refine ⟨howed, ⟨1000, 1, Vector.replicate 32 7, none, [⟨"a", 2 ^ 63⟩, ⟨"b", 2 ^ 63⟩]⟩, by decide +kernel,
    foundBlockOf blankLedger none "a" poolBlock 1000, List.mem_singleton.mpr rfl, rfl, by decide⟩

end Ratum
