import Ratum.Datum.Messages
import Ratum.Datum.Share

/-!
# A share on the wire

`core/src/datum/messages/share.rs`: how a share and the sections it carries are written and read back.
-/

namespace Ratum

def SUBMIT_POW : UInt8 := 0x27

def SECTION_JOB : UInt8 := 0x01

def SECTION_COINBASE : UInt8 := 0x02

def SECTION_BLAKE2B : UInt8 := 0x03

def SECTION_ABW_SLOT : UInt8 := 0x05

def BLAKE2B_ALGORITHM : UInt8 := 0x01

def BLAKE2B_TIME : UInt8 := 0x04

def FLAG_IS_BLOCK : UInt8 := 0x01

def FLAG_SUBSIDY_ONLY : UInt8 := 0x02

def FLAG_QUICKDIFF : UInt8 := 0x04

def FLAG_BLAKE2B : UInt8 := 0x08

def RESERVED_USE_TIME_OFFSET : UInt8 := 0x01

def RESERVED_SIZE : Nat := 4

/-! ### The sections -/

namespace JobSection

def readBranches : Nat → ByteReader → Except MessageError (List Hash × ByteReader)
  | 0, c => pure ([], c)
  | n + 1, c => do
      let (branch, c) ← orTruncated (c.arr HASH_SIZE "merkle branch")
      let (branches, c) ← readBranches n c
      pure (branch :: branches, c)

def decode (c : ByteReader) : Except MessageError (JobSection × ByteReader) := do
  let (prevHash, c) ← orTruncated (c.arr HASH_SIZE "prev hash")
  let (targetByteIndex, c) ← orTruncated (c.u16 "target byte index")
  let (nbits, c) ← orTruncated (c.arr 4 "nbits")
  let (coinbaserId, c) ← orTruncated (c.u8 "coinbaser id")
  let (height, c) ← orTruncated (c.u32 "height")
  let (coinbaseValue, c) ← orTruncated (c.uint 8 "coinbase value")
  let (txnCount, c) ← orTruncated (c.u32 "txn count")
  let (txnTotalWeight, c) ← orTruncated (c.u32 "txn weight")
  let (txnTotalSize, c) ← orTruncated (c.u32 "txn size")
  let (txnTotalSigops, c) ← orTruncated (c.u32 "txn sigops")
  let (n, c) ← orTruncated (c.u8 "merkle count")
  if MAX_MERKLE_BRANCHES < n.toNat then throw (.badMerkleCount n)
  let (merkleBranches, c) ← readBranches n.toNat c
  pure
    ({ prevHash, targetByteIndex, nbits, coinbaserId, height, coinbaseValue, txnCount, txnTotalWeight
       txnTotalSize, txnTotalSigops, merkleBranches }, c)

def encode (j : JobSection) : Bytes :=
  SECTION_JOB :: (j.prevHash.toList ++ (leBytes 2 j.targetByteIndex.toNat ++ (j.nbits.toList ++
    (j.coinbaserId :: (leBytes 4 j.height.toNat ++ (leBytes 8 j.coinbaseValue ++
      (leBytes 4 j.txnCount.toNat ++ (leBytes 4 j.txnTotalWeight.toNat ++
        (leBytes 4 j.txnTotalSize.toNat ++ (leBytes 4 j.txnTotalSigops.toNat ++
          (UInt8.ofNat j.merkleBranches.length :: j.merkleBranches.flatMap (·.toList))))))))))))

end JobSection

namespace CoinbaseSection

def decode (c : ByteReader) : Except MessageError (CoinbaseSection × ByteReader) := do
  let (coinbaseId, c) ← orTruncated (c.u8 "coinbase section id")
  let (len1, c) ← orTruncated (c.uint 2 "coinb1 len")
  let (len2, c) ← orTruncated (c.uint 2 "coinb2 len")
  let (coinb1, c) ← orTruncated (c.take len1 "coinb1")
  let (coinb2, c) ← orTruncated (c.take len2 "coinb2")
  pure ({ coinbaseId, coinb1, coinb2 }, c)

/-- A part longer than a `u16` says is written with its length truncated. -/
def encode (cb : CoinbaseSection) : Bytes :=
  SECTION_COINBASE :: cb.coinbaseId :: (leBytes 2 cb.coinb1.length ++ (leBytes 2 cb.coinb2.length ++
    (cb.coinb1 ++ cb.coinb2)))

end CoinbaseSection

namespace Blake2bSection

def decode (c : ByteReader) : Except MessageError (Blake2bSection × ByteReader) := do
  let (algorithm, c) ← orTruncated (c.u8 "algorithm")
  if algorithm ≠ BLAKE2B_ALGORITHM then throw .badBlake2bSection
  let (siaNtime, c) ← orTruncated (c.arr SIA_WORDS_LEN "sia ntime")
  let (siaNonce, c) ← orTruncated (c.arr SIA_WORDS_LEN "sia nonce")
  let (marker, c) ← orTruncated (c.u8 "time marker")
  if marker ≠ BLAKE2B_TIME then throw .badBlake2bSection
  let (timeOnWire, c) ← orTruncated (c.u32 "time on wire")
  pure ({ siaNtime, siaNonce, timeOnWire }, c)

def encode (b : Blake2bSection) : Bytes :=
  SECTION_BLAKE2B :: BLAKE2B_ALGORITHM :: (b.siaNtime.toList ++ (b.siaNonce.toList ++
    (BLAKE2B_TIME :: leBytes 4 b.timeOnWire.toNat)))

end Blake2bSection

/-! ### The message -/

/-- The sections read so far; one that comes again replaces the one before. -/
structure ReadSections where
  job : Option JobSection
  coinbase : Option CoinbaseSection
  blake2b : Option Blake2bSection
  abwSlot : Option UInt8

def ReadSections.none : ReadSections := ⟨Option.none, Option.none, Option.none, Option.none⟩

/-- The sections up to the terminator. A section takes a byte or more, so as many rounds as there are
bytes reach the end. -/
def readSections : Nat → ByteReader → ReadSections → Except MessageError ReadSections
  | 0, _, _ => throw (.truncated ⟨"section marker"⟩)
  | n + 1, c, read => do
      let (marker, c) ← orTruncated (c.u8 "section marker")
      if marker = STRUCT_END then pure read
      else if marker = SECTION_JOB then
        let (job, c) ← JobSection.decode c
        readSections n c { read with job := some job }
      else if marker = SECTION_COINBASE then
        let (coinbase, c) ← CoinbaseSection.decode c
        readSections n c { read with coinbase := some coinbase }
      else if marker = SECTION_ABW_SLOT then
        let (slot, c) ← orTruncated (c.u8 "abw slot")
        readSections n c { read with abwSlot := some slot }
      else if marker = SECTION_BLAKE2B then
        let (blake2b, c) ← Blake2bSection.decode c
        readSections n c { read with blake2b := some blake2b }
      else throw (.unknownSection marker)

structure SharePrefix where
  jobId : UInt8
  coinbaseId : UInt8
  flags : UInt8
  targetByte : UInt8
  ntime : UInt32
  nonce : UInt32
  deriving DecidableEq

def SharePrefix.read (data : Bytes) : Except MessageError (SharePrefix × ByteReader) := do
  let c ← openMessage data SUBMIT_POW
  let (jobId, c) ← orTruncated (c.u8 "job id")
  let (coinbaseId, c) ← orTruncated (c.u8 "coinbase id")
  let (flags, c) ← orTruncated (c.u8 "flags")
  let (targetByte, c) ← orTruncated (c.u8 "target byte")
  let (ntime, c) ← orTruncated (c.u32 "ntime")
  let (nonce, c) ← orTruncated (c.u32 "nonce")
  pure ({ jobId, coinbaseId, flags, targetByte, ntime, nonce }, c)

/-- The username ends at the first zero byte, which is among the first bytes. -/
def readUsername (c : ByteReader) : Except MessageError (String × ByteReader) := do
  let some nul := (c.rest.take (MAX_USERNAME_LEN + 1)).findIdx? (· = 0) | throw .badUsername
  let username := fromUtf8Lossy (c.rest.take nul)
  let c ← orTruncated (c.advance (nul + 1) "username")
  pure (username, c)

namespace PowSubmit

def decode (data : Bytes) : Except MessageError PowSubmit := do
  let (start, c) ← SharePrefix.read data
  let (version, c) ← orTruncated (c.u32 "version")
  let (enSize, c) ← orTruncated (c.u8 "extranonce size")
  if enSize.toNat ≠ EXTRANONCE_SIZE then throw (.badExtranonceSize enSize)
  let (extranonce, c) ← orTruncated (c.arr EXTRANONCE_SIZE "extranonce")
  let (username, c) ← readUsername c
  let (reserved, c) ← orTruncated (c.take RESERVED_SIZE "reserved")
  let read ← readSections c.rest.length c .none
  let some blake2b := read.blake2b | throw .missingBlake2bSection
  pure
    { jobId := start.jobId
      coinbaseId := start.coinbaseId
      isBlock := start.flags &&& FLAG_IS_BLOCK ≠ 0
      subsidyOnly := start.flags &&& FLAG_SUBSIDY_ONLY ≠ 0
      quickdiff := start.flags &&& FLAG_QUICKDIFF ≠ 0
      targetByte := start.targetByte
      ntime := start.ntime
      nonce := start.nonce
      version
      extranonce
      username
      useTimeOffset := reserved.headD 0 &&& RESERVED_USE_TIME_OFFSET ≠ 0
      job := read.job
      coinbase := read.coinbase
      blake2b
      abwSlot := read.abwSlot }

def flag (set : Bool) (bit : UInt8) : UInt8 := if set then bit else 0

variable (s : PowSubmit)

def flags : UInt8 :=
  flag s.isBlock FLAG_IS_BLOCK ||| flag s.subsidyOnly FLAG_SUBSIDY_ONLY |||
    flag s.quickdiff FLAG_QUICKDIFF ||| FLAG_BLAKE2B

def reserved : Bytes := [flag s.useTimeOffset RESERVED_USE_TIME_OFFSET, 0, 0, 0]

/-- The sections in the order they are written. -/
def encodeSections : Bytes :=
  s.blake2b.encode ++ ((s.abwSlot.elim [] fun slot => [SECTION_ABW_SLOT, slot]) ++
    (s.job.elim [] JobSection.encode ++ (s.coinbase.elim [] CoinbaseSection.encode ++ [STRUCT_END])))

/-- The message with the sections given. -/
def encodeWith (sections : Bytes) : Bytes :=
  SUBMIT_POW :: s.jobId :: s.coinbaseId :: s.flags :: s.targetByte :: (leBytes 4 s.ntime.toNat ++
    (leBytes 4 s.nonce.toNat ++ (leBytes 4 s.version.toNat ++ (UInt8.ofNat EXTRANONCE_SIZE ::
      (s.extranonce.toList ++ (stringBytes s.username ++ (0 :: (s.reserved ++ sections))))))))

def encode : Bytes := s.encodeWith s.encodeSections

end PowSubmit

/-! ### Sections in any order -/

/-- One section of the message. -/
inductive ShareSection
  | blake2b (b : Blake2bSection)
  | abwSlot (slot : UInt8)
  | job (j : JobSection)
  | coinbase (cb : CoinbaseSection)

namespace ShareSection

def encode : ShareSection → Bytes
  | blake2b b => b.encode
  | abwSlot slot => [SECTION_ABW_SLOT, slot]
  | job j => j.encode
  | coinbase cb => cb.encode

/-- What the section leaves of the ones read before it. -/
def set : ShareSection → ReadSections → ReadSections
  | blake2b b, read => { read with blake2b := some b }
  | abwSlot slot, read => { read with abwSlot := some slot }
  | job j, read => { read with job := some j }
  | coinbase cb, read => { read with coinbase := some cb }

end ShareSection

namespace PowSubmit

variable (s : PowSubmit)

/-- The sections the share has. -/
def sections : List ShareSection :=
  .blake2b s.blake2b :: ((s.abwSlot.map ShareSection.abwSlot).toList ++
    ((s.job.map ShareSection.job).toList ++ (s.coinbase.map ShareSection.coinbase).toList))

/-- The message with its sections in the order given. -/
def encodeOrdered (order : List ShareSection) : Bytes :=
  s.encodeWith (order.flatMap ShareSection.encode ++ [STRUCT_END])

end PowSubmit

/-! ### What is encoded decodes -/

/-- The section's lengths and counts are written whole. -/
structure JobSection.FitsWire (j : JobSection) : Prop where
  coinbaseValue_lt : j.coinbaseValue < 2 ^ 64
  branches_le : j.merkleBranches.length ≤ MAX_MERKLE_BRANCHES

structure CoinbaseSection.FitsWire (cb : CoinbaseSection) : Prop where
  coinb1_lt : cb.coinb1.length < 2 ^ 16
  coinb2_lt : cb.coinb2.length < 2 ^ 16

structure PowSubmit.FitsWire (s : PowSubmit) : Prop where
  username_nul : 0 ∉ stringBytes s.username
  username_le : (stringBytes s.username).length ≤ MAX_USERNAME_LEN
  job : ∀ j, s.job = some j → j.FitsWire
  coinbase : ∀ cb, s.coinbase = some cb → cb.FitsWire

def ShareSection.FitsWire : ShareSection → Prop
  | .job j => j.FitsWire
  | .coinbase cb => cb.FitsWire
  | .blake2b _ | .abwSlot _ => True

theorem PowSubmit.encode_eq (s : PowSubmit) : s.encode = s.encodeOrdered s.sections := by
  rw [encode, encodeOrdered, encodeSections, sections]
  cases s.abwSlot <;> cases s.job <;> cases s.coinbase <;>
    simp [ShareSection.encode]

theorem ShareSection.length_le_flatMap (order : List ShareSection) :
    order.length ≤ (order.flatMap ShareSection.encode).length := by
  have hone (x : ShareSection) : 1 ≤ x.encode.length := by
    cases x <;> simp [ShareSection.encode, Blake2bSection.encode, JobSection.encode, CoinbaseSection.encode]
  induction order with
  | nil => exact Nat.le_refl 0
  | cons x order ih =>
      have := hone x
      rw [List.flatMap_cons, List.length_append, List.length_cons]
      omega

theorem PowSubmit.FitsWire.sections {s : PowSubmit} (hs : s.FitsWire) : ∀ x ∈ s.sections, x.FitsWire := by
  intro x hx
  simp only [PowSubmit.sections, List.mem_cons, List.mem_append, Option.mem_toList, Option.map_eq_some_iff]
    at hx
  obtain rfl | ⟨slot, -, rfl⟩ | ⟨j, hj, rfl⟩ | ⟨cb, hcb, rfl⟩ := hx
  · exact trivial
  · exact trivial
  · exact hs.job j hj
  · exact hs.coinbase cb hcb

/-- The sections of one share are read into different places. -/
theorem PowSubmit.set_comm {s : PowSubmit} {x y : ShareSection} (hx : x ∈ s.sections) (hy : y ∈ s.sections)
    (read : ReadSections) : y.set (x.set read) = x.set (y.set read) := by
  simp only [PowSubmit.sections, List.mem_cons, List.mem_append, Option.mem_toList, Option.map_eq_some_iff]
    at hx hy
  obtain rfl | ⟨slot, hslot, rfl⟩ | ⟨j, hj, rfl⟩ | ⟨cb, hcb, rfl⟩ := hx <;>
    obtain rfl | ⟨slot', hslot', rfl⟩ | ⟨j', hj', rfl⟩ | ⟨cb', hcb', rfl⟩ := hy <;>
    simp only [ShareSection.set] <;> simp_all

theorem PowSubmit.foldl_set (s : PowSubmit) :
    s.sections.foldl (fun read x => x.set read) .none =
      ⟨s.job, s.coinbase, some s.blake2b, s.abwSlot⟩ := by
  rw [sections]
  cases s.abwSlot <;> cases s.job <;> cases s.coinbase <;> rfl

section Sections

variable (full rest : Bytes) (n : Nat) (read : ReadSections)

theorem readBranches_flatMap (branches : List Hash) :
    JobSection.readBranches branches.length ⟨full, branches.flatMap (·.toList) ++ rest⟩ =
      .ok (branches, ⟨full, rest⟩) := by
  induction branches with
  | nil => rfl
  | cons branch branches ih =>
      rw [List.length_cons, JobSection.readBranches, List.flatMap_cons, List.append_assoc,
        ByteReader.arr_append, orTruncated_ok]
      simp only [bind, Except.bind, ih, pure, Except.pure]

theorem readSections_job {j : JobSection} (hj : j.FitsWire) :
    readSections (n + 1) ⟨full, j.encode ++ rest⟩ read =
      readSections n ⟨full, rest⟩ { read with job := some j } := by
  have hvalue (rest : Bytes) (what : String) :=
    ByteReader.uint_leBytes full rest what (show j.coinbaseValue < 256 ^ 8 from hj.coinbaseValue_lt)
  have hcount : (UInt8.ofNat j.merkleBranches.length).toNat = j.merkleBranches.length := by
    have hle : j.merkleBranches.length ≤ 24 := hj.branches_le
    exact UInt8.toNat_ofNat_of_lt' (by show _ < 256; omega)
  have hbranches : ¬ MAX_MERKLE_BRANCHES < j.merkleBranches.length := not_lt.mpr hj.branches_le
  simp only [readSections, JobSection.encode, JobSection.decode, List.cons_append, List.append_assoc, ByteReader.u8_cons,
    orTruncated_ok, bind, Except.bind, ByteReader.arr_append, ByteReader.u16_leBytes,
    ByteReader.u32_leBytes, hvalue, if_neg hbranches, hcount, readBranches_flatMap,
    pure, Except.pure]
  rfl

theorem readSections_coinbase {cb : CoinbaseSection} (hcb : cb.FitsWire) :
    readSections (n + 1) ⟨full, cb.encode ++ rest⟩ read =
      readSections n ⟨full, rest⟩ { read with coinbase := some cb } := by
  have hlen1 (rest : Bytes) (what : String) :=
    ByteReader.uint_leBytes full rest what (show cb.coinb1.length < 256 ^ 2 from hcb.coinb1_lt)
  have hlen2 (rest : Bytes) (what : String) :=
    ByteReader.uint_leBytes full rest what (show cb.coinb2.length < 256 ^ 2 from hcb.coinb2_lt)
  simp only [readSections, CoinbaseSection.encode, CoinbaseSection.decode, List.cons_append,
    List.append_assoc, ByteReader.u8_cons, orTruncated_ok, bind, Except.bind, hlen1, hlen2, ByteReader.take_append,
    pure, Except.pure]
  rfl

theorem readSections_abwSlot (slot : UInt8) :
    readSections (n + 1) ⟨full, SECTION_ABW_SLOT :: slot :: rest⟩ read =
      readSections n ⟨full, rest⟩ { read with abwSlot := some slot } := by
  simp only [readSections, ByteReader.u8_cons, orTruncated_ok, bind, Except.bind]
  rfl

theorem readSections_blake2b (b : Blake2bSection) :
    readSections (n + 1) ⟨full, b.encode ++ rest⟩ read =
      readSections n ⟨full, rest⟩ { read with blake2b := some b } := by
  simp only [readSections, Blake2bSection.encode, Blake2bSection.decode, List.cons_append,
    List.append_assoc, ByteReader.u8_cons, orTruncated_ok, bind, Except.bind, ByteReader.arr_append,
    ByteReader.u32_leBytes, pure, Except.pure]
  rfl

theorem readSections_end :
    readSections (n + 1) ⟨full, STRUCT_END :: rest⟩ read = .ok read := by
  simp only [readSections, ByteReader.u8_cons, orTruncated_ok, bind, Except.bind, if_true]
  rfl

theorem readSections_section {x : ShareSection} (hx : x.FitsWire) :
    readSections (n + 1) ⟨full, x.encode ++ rest⟩ read = readSections n ⟨full, rest⟩ (x.set read) := by
  cases x with
  | blake2b b => exact readSections_blake2b full rest n read b
  | abwSlot slot => exact readSections_abwSlot full rest n read slot
  | job j => exact readSections_job full rest n read hx
  | coinbase cb => exact readSections_coinbase full rest n read hx

/-- Sections are read one after the other, each into its own place. -/
theorem readSections_flatMap {order : List ShareSection} (hfits : ∀ x ∈ order, x.FitsWire) :
    readSections (n + 1 + order.length) ⟨full, order.flatMap ShareSection.encode ++ STRUCT_END :: rest⟩ read =
      .ok (order.foldl (fun read x => x.set read) read) := by
  induction order generalizing read with
  | nil => exact readSections_end full rest n read
  | cons x order ih =>
      rw [List.flatMap_cons, List.append_assoc, List.length_cons, ← Nat.add_assoc,
        readSections_section _ _ _ _ (hfits x List.mem_cons_self)]
      exact ih _ fun y hy => hfits y (List.mem_cons_of_mem _ hy)

theorem readUsername_append {username : String} (hnul : 0 ∉ stringBytes username)
    (hle : (stringBytes username).length ≤ MAX_USERNAME_LEN) :
    readUsername ⟨full, stringBytes username ++ 0 :: rest⟩ = .ok (username, ⟨full, rest⟩) := by
  have hfind : ((stringBytes username ++ 0 :: rest).take (MAX_USERNAME_LEN + 1)).findIdx? (· = 0) =
      some (stringBytes username).length := by
    obtain ⟨room, hroom⟩ := Nat.exists_eq_add_of_le hle
    rw [hroom, Nat.add_assoc, List.take_length_add_append, List.take_succ_cons, List.findIdx?_append,
      List.findIdx?_eq_none_iff.mpr]
    · simp [List.findIdx?_cons]
    · intro b hb
      refine decide_eq_false ?_
      rintro rfl
      exact hnul hb
  have hadvance : (ByteReader.mk full (stringBytes username ++ 0 :: rest)).advance
      ((stringBytes username).length + 1) "username" = .ok ⟨full, rest⟩ := by
    have htake := @ByteReader.take_append (stringBytes username ++ [0]) rest full "username" _
      List.length_append
    rw [List.append_assoc] at htake
    rw [ByteReader.advance]
    exact congrArg (Except.map Prod.snd) htake
  simp only [readUsername, hfind, hadvance, orTruncated_ok, bind, Except.bind, pure, Except.pure,
    List.take_left', fromUtf8Lossy_stringBytes]

end Sections

/-- The share is read back from its sections in any order, whatever the message is padded with. -/
theorem PowSubmit.decode_encodeOrdered {s : PowSubmit} (hs : s.FitsWire) {order : List ShareSection}
    (horder : order.Perm s.sections) (pad : Bytes) :
    PowSubmit.decode (s.encodeOrdered order ++ pad) = .ok s := by
  have hflags : (decide (s.flags &&& FLAG_IS_BLOCK ≠ 0) = s.isBlock ∧
      decide (s.flags &&& FLAG_SUBSIDY_ONLY ≠ 0) = s.subsidyOnly) ∧
      decide (s.flags &&& FLAG_QUICKDIFF ≠ 0) = s.quickdiff := by
    rw [PowSubmit.flags]
    generalize s.isBlock = isBlock, s.subsidyOnly = subsidyOnly, s.quickdiff = quickdiff
    cases isBlock <;> cases subsidyOnly <;> cases quickdiff <;> decide
  have hoffset : decide (s.reserved.headD 0 &&& RESERVED_USE_TIME_OFFSET ≠ 0) = s.useTimeOffset := by
    rw [PowSubmit.reserved]
    cases s.useTimeOffset <;> decide
  have hsize : ¬ (UInt8.ofNat EXTRANONCE_SIZE).toNat ≠ EXTRANONCE_SIZE := by decide
  have hreserved (full rest : Bytes) :=
    @ByteReader.take_append _ rest full "reserved" _ (show s.reserved.length = RESERVED_SIZE from rfl)
  have hread : order.foldl (fun read x => x.set read) .none =
      ⟨s.job, s.coinbase, some s.blake2b, s.abwSlot⟩ := by
    rw [← s.foldl_set]
    exact horder.foldl_eq' (fun x hx y hy read =>
      set_comm (horder.subset hx) (horder.subset hy) read) _
  have hsections (full : Bytes) :
      readSections (order.flatMap ShareSection.encode ++ STRUCT_END :: pad).length
          ⟨full, order.flatMap ShareSection.encode ++ STRUCT_END :: pad⟩ .none =
        .ok ⟨s.job, s.coinbase, some s.blake2b, s.abwSlot⟩ := by
    obtain ⟨n, hn⟩ : ∃ n, (order.flatMap ShareSection.encode ++ STRUCT_END :: pad).length =
        n + 1 + order.length := by
      have hle := ShareSection.length_le_flatMap order
      refine ⟨(order.flatMap ShareSection.encode).length + pad.length - order.length, ?_⟩
      rw [List.length_append, List.length_cons]
      omega
    rw [hn, readSections_flatMap full pad n .none fun x hx => hs.sections x (horder.subset hx), hread]
  simp only [PowSubmit.decode, SharePrefix.read, encodeOrdered, encodeWith, List.cons_append,
    List.append_assoc, List.nil_append, openMessage_cons, ByteReader.u8_cons, orTruncated_ok, bind,
    Except.bind, ByteReader.u32_leBytes, ByteReader.arr_append,
    readUsername_append _ _ hs.username_nul hs.username_le, pure, Except.pure, if_neg hsize, hreserved,
    hsections, hflags.1.1, hflags.1.2, hflags.2, hoffset]

theorem PowSubmit.decode_encode {s : PowSubmit} (hs : s.FitsWire) (pad : Bytes) :
    PowSubmit.decode (s.encode ++ pad) = .ok s := by
  rw [s.encode_eq]
  exact decode_encodeOrdered hs (List.Perm.refl _) pad

end Ratum
