import Ratum.Base.Rows
import Ratum.Ledger.Blocks
import Ratum.Ledger.Share

/-!
# The rows of the block records

A found block, an owed record and a confirmation reading as `prime/src/ledger/blocks.rs` packs them, each
under its block hash. The difficulty of a found block is a float the rows only carry, so it is its bits.
-/

namespace Ratum

/-- An `f64`, by its bits. -/
structure F64 where
  bits : UInt64
  deriving DecidableEq

/-- The node's answer for one block: the confirmation count it gave, and when. -/
structure ConfirmationReading where
  checkedAt : UInt64
  confirmations : Int64
  deriving DecidableEq

/-- The count recorded when the node stores no block under the hash: `i64::MIN`. -/
def ConfirmationReading.NOT_STORED : Int64 := Int64.minValue

def blockHashOf (key : Bytes) : Option Hash :=
  if h : key.length = HASH_SIZE then some ⟨key.toArray, h⟩ else none

@[simp] theorem blockHashOf_toList (hash : Hash) : blockHashOf hash.toList = some hash := by
  have hlen : hash.toList.length = HASH_SIZE := by simp
  rw [blockHashOf, dif_pos hlen]
  rfl

/-! ### Owed records -/

def packEntry (payout : Payout) : Bytes :=
  leBytes 2 (stringBytes payout.identity).length ++
    (stringBytes payout.identity ++ leBytes 8 payout.sats)

def packOwed (owed : OwedBlock) : Bytes :=
  leBytes 8 owed.foundAt ++ (leBytes 4 owed.height.toNat ++ (leBytes 8 owed.total ++
    (leBytes 8 (owed.settledAt.getD 0) ++ (leBytes 2 owed.entries.length ++
      owed.entries.flatMap packEntry))))

def unpackEntries : Nat → ByteReader → Option (List Payout × ByteReader)
  | 0, c => some ([], c)
  | count + 1, c => do
      let (len, c) ← (c.uint 2 "identity length").toOption
      let (identity, c) ← (c.take len "identity").toOption
      let (sats, c) ← (c.uint 8 "sats").toOption
      let (entries, c) ← unpackEntries count c
      pure (⟨fromUtf8Lossy identity, sats⟩ :: entries, c)

def unpackOwed (hash bytes : Bytes) : Option OwedBlock := do
  let blockHash ← blockHashOf hash
  let (foundAt, c) ← ((ByteReader.new bytes).uint 8 "found_at").toOption
  let (height, c) ← (c.u32 "height").toOption
  let c ← (c.advance 8 "total").toOption
  let (settled, c) ← (c.uint 8 "settled_at").toOption
  let (count, c) ← (c.uint 2 "entry count").toOption
  let (entries, _) ← unpackEntries count c
  let settledAt := if settled ≠ 0 then some settled else none
  pure { foundAt, height, blockHash, settledAt, entries }

structure Payout.Packable (payout : Payout) : Prop where
  identity : (stringBytes payout.identity).length < 2 ^ 16
  sats : payout.sats < 2 ^ 64

/-- What an owed record has to be for its row to hold all of it. Every record the pool makes is
unsettled; one settled at time 0 would read back as unsettled. -/
structure OwedBlock.Packable (owed : OwedBlock) : Prop where
  foundAt : owed.foundAt < 2 ^ 64
  settledAt : ∀ t, owed.settledAt = some t → 0 < t ∧ t < 2 ^ 64
  count : owed.entries.length < 2 ^ 16
  entries : ∀ payout ∈ owed.entries, payout.Packable

theorem OwedBlock.settledAt_of_open {owed : OwedBlock} (hopen : owed.settledAt = none) (t : Nat)
    (h : owed.settledAt = some t) : 0 < t ∧ t < 2 ^ 64 := by
  rw [hopen] at h
  cases h

theorem unpackEntries_packEntry {entries : List Payout} (h : ∀ payout ∈ entries, payout.Packable)
    (full rest : Bytes) :
    unpackEntries entries.length ⟨full, entries.flatMap packEntry ++ rest⟩ =
      some (entries, ⟨full, rest⟩) := by
  induction entries with
  | nil => rfl
  | cons payout entries ih =>
      rw [List.forall_mem_cons] at h
      obtain ⟨hpayout, hentries⟩ := h
      simp only [List.flatMap_cons, packEntry, List.append_assoc, List.length_cons, unpackEntries,
        ByteReader.uint_leBytes _ _ _ (k := 2) hpayout.identity, ByteReader.take_append _ _ rfl,
        ByteReader.uint_leBytes _ _ _ (k := 8) hpayout.sats, Except.toOption, ih hentries,
        Option.bind_eq_bind, Option.bind_some, fromUtf8Lossy_stringBytes]
      rfl

theorem unpackOwed_packOwed {owed : OwedBlock} (h : owed.Packable) :
    unpackOwed owed.blockHash.toList (packOwed owed) = some owed := by
  have hsettled : owed.settledAt.getD 0 < 256 ^ 8 := by
    cases hcase : owed.settledAt with
    | none => exact Nat.zero_lt_succ _
    | some t => exact (h.settledAt t hcase).2
  have hentries : ∀ full, unpackEntries owed.entries.length ⟨full, owed.entries.flatMap packEntry⟩ =
      some (owed.entries, ⟨full, []⟩) := by
    intro full
    have hrest := unpackEntries_packEntry h.entries full []
    rwa [List.append_nil] at hrest
  have hback : (if owed.settledAt.getD 0 ≠ 0 then some (owed.settledAt.getD 0) else none) =
      owed.settledAt := by
    cases hcase : owed.settledAt with
    | none => rfl
    | some t => exact if_pos (Nat.ne_of_gt (h.settledAt t hcase).1)
  simp only [unpackOwed, packOwed, blockHashOf_toList, ByteReader.new, Option.bind_eq_bind,
    Option.bind_some, ByteReader.uint_leBytes _ _ _ (k := 8) h.foundAt, Except.toOption,
    ByteReader.u32_leBytes, ByteReader.advance, ByteReader.take_append _ _ (length_leBytes 8 _),
    Except.map, ByteReader.uint_leBytes _ _ _ (k := 8) hsettled,
    ByteReader.uint_leBytes _ _ _ (k := 2) h.count, hentries, hback]
  rfl

/-! ### Found blocks -/

def packBlock (block : FoundBlock F64) : Bytes :=
  leBytes 8 block.foundAt ++ (leBytes 4 block.height.toNat ++ (leBytes 8 block.paidToSplit ++
    (leBytes 8 block.paidToPool ++ (leBytes 8 block.networkDifficulty.bits.toNat ++
      (leBytes 16 block.cumulativeWork ++
        (stringBytes block.finder ++ NAME_SEPARATOR :: stringBytes block.tagSecondary))))))

def unpackBlock (hash bytes : Bytes) : Option (FoundBlock F64) := do
  let blockHash ← blockHashOf hash
  let (foundAt, c) ← ((ByteReader.new bytes).uint 8 "found_at").toOption
  let (height, c) ← (c.u32 "height").toOption
  let (paidToSplit, c) ← (c.uint 8 "paid_to_split").toOption
  let (paidToPool, c) ← (c.uint 8 "paid_to_pool").toOption
  let (bits, c) ← (c.u64 "network difficulty").toOption
  let (cumulativeWork, c) ← (c.uint 16 "cumulative work").toOption
  let (finder, tag) := splitAtSeparator c.rest
  pure {
    foundAt, height, blockHash, paidToSplit, paidToPool, cumulativeWork
    networkDifficulty := ⟨bits⟩
    finder := fromUtf8Lossy finder
    tagSecondary := fromUtf8Lossy tag }

structure FoundBlock.Packable (block : FoundBlock F64) : Prop where
  foundAt : block.foundAt < 2 ^ 64
  paidToSplit : block.paidToSplit < 2 ^ 64
  paidToPool : block.paidToPool < 2 ^ 64
  cumulativeWork : block.cumulativeWork < 2 ^ 128
  finder : NAME_SEPARATOR ∉ stringBytes block.finder

theorem unpackBlock_packBlock {block : FoundBlock F64} (h : block.Packable) :
    unpackBlock block.blockHash.toList (packBlock block) = some block := by
  simp only [unpackBlock, packBlock, blockHashOf_toList, ByteReader.new, Option.bind_eq_bind,
    Option.bind_some, ByteReader.uint_leBytes _ _ _ (k := 8) h.foundAt, Except.toOption,
    ByteReader.u32_leBytes, ByteReader.uint_leBytes _ _ _ (k := 8) h.paidToSplit,
    ByteReader.uint_leBytes _ _ _ (k := 8) h.paidToPool, ByteReader.u64_leBytes,
    ByteReader.uint_leBytes _ _ _ (k := 16) h.cumulativeWork, splitAtSeparator_append h.finder,
    fromUtf8Lossy_stringBytes]
  rfl

/-! ### Confirmation readings -/

def packConfirmations (reading : ConfirmationReading) : Bytes :=
  leBytes 8 reading.checkedAt.toNat ++ leBytes 8 reading.confirmations.toUInt64.toNat

def unpackConfirmations (hash bytes : Bytes) : Option (Hash × ConfirmationReading) := do
  let blockHash ← blockHashOf hash
  let (checkedAt, c) ← ((ByteReader.new bytes).u64 "checked_at").toOption
  let (confirmations, _) ← (c.u64 "confirmations").toOption
  pure (blockHash, ⟨checkedAt, confirmations.toInt64⟩)

theorem unpackConfirmations_packConfirmations (hash : Hash) (reading : ConfirmationReading) :
    unpackConfirmations hash.toList (packConfirmations reading) = some (hash, reading) := by
  have hlast : ∀ full, (ByteReader.mk full (leBytes 8 reading.confirmations.toUInt64.toNat)).u64
      "confirmations" = .ok (reading.confirmations.toUInt64, ⟨full, []⟩) := by
    intro full
    have hrest := ByteReader.u64_leBytes full [] "confirmations" reading.confirmations.toUInt64
    rwa [List.append_nil] at hrest
  simp only [unpackConfirmations, packConfirmations, blockHashOf_toList, ByteReader.new,
    Option.bind_eq_bind, Option.bind_some, ByteReader.u64_leBytes, Except.toOption, hlast,
    Int64.toInt64_toUInt64]
  rfl

/-! ### The three tables -/

def blockFormat : RowFormat (FoundBlock F64) Bytes Bytes where
  key block := block.blockHash.toList
  pack := packBlock
  unpack := unpackBlock

def owedFormat : RowFormat OwedBlock Bytes Bytes where
  key owed := owed.blockHash.toList
  pack := packOwed
  unpack := unpackOwed

def confirmationsFormat : RowFormat (Hash × ConfirmationReading) Bytes Bytes where
  key entry := entry.1.toList
  pack entry := packConfirmations entry.2
  unpack := unpackConfirmations

theorem FoundBlock.Packable.reads {block : FoundBlock F64} (h : block.Packable) :
    blockFormat.Reads block := unpackBlock_packBlock h

theorem OwedBlock.Packable.reads {owed : OwedBlock} (h : owed.Packable) : owedFormat.Reads owed :=
  unpackOwed_packOwed h

theorem confirmationsFormat_reads (entry : Hash × ConfirmationReading) :
    confirmationsFormat.Reads entry := unpackConfirmations_packConfirmations entry.1 entry.2

theorem toList_injective {left right : Hash} (h : left.toList = right.toList) : left = right :=
  Vector.toList_inj.mp h

end Ratum
