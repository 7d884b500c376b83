import Ratum.Gateway.Job

/-!
# The work a miner hashes

`work_root_from_stratum` and `asic_input_body` of `core/src/header.rs`, on the fields of a mining.notify: what
a miner hashes without a header is what the gateway hashes with one.
-/

namespace Ratum

def WORK_ROOT_LEAF_SIZE : Nat := 52

def WORK_ROOT_H2_OFFSET : Nat := 4

def COINB1_LEADING_ZEROS : Nat := WORK_ROOT_H2_OFFSET - 1

/-- The zeros a miner puts before `coinb1`. -/
def STRATUM_LEAF_PREFIX_LEN : Nat := WORK_ROOT_H2_OFFSET - COINB1_LEADING_ZEROS

/-- The work root of a stratum job; none unless its parts total a whole leaf. -/
def Hashing.workRootFromStratum (H : Hashing) (coinb1 extranonce coinb2 : Bytes) : Option Hash :=
  let leaf := List.replicate STRATUM_LEAF_PREFIX_LEN 0 ++ coinb1 ++ extranonce ++ coinb2
  if leaf.length = WORK_ROOT_LEAF_SIZE then some (H.blake2b256 leaf) else none

/-- What the hardware hashes after the head, from the stratum fields. -/
def asicInputBody (head : Bytes) (siaNonce siaNtime : Vector UInt8 SIA_WORDS_LEN) (workRoot : Hash) : Bytes :=
  head ++ siaNonce.toList ++ siaNtime.toList ++ workRoot.toList

/-- What a mining.notify carries for the hash. -/
structure NotifiedWork where
  prevblockHidden : Bytes
  coinb1 : Bytes
  coinb2 : Bytes

/-- The fields of a mining.notify of the job's coinbase at a target byte. -/
def Job.notifiedWork (H : Hashing) (job : Job) (kind : CoinbaseKind) (targetByte : UInt8) :
    Option NotifiedWork :=
  (job.commitment H kind targetByte).map fun commitment =>
    { prevblockHidden := job.prevblockHidden
      coinb1 := List.replicate COINB1_LEADING_ZEROS 0 ++ commitment.h2.toList
      coinb2 := [] }

/-- The hash a miner computes from the fields, its extranonce, nonce and time. -/
def NotifiedWork.rawHash (H : Hashing) (work : NotifiedWork) (extranonce : Vector UInt8 HEADER_EXTRANONCE_SIZE)
    (siaNtime siaNonce : Vector UInt8 SIA_WORDS_LEN) : Option Hash :=
  (H.workRootFromStratum work.coinb1 extranonce.toList work.coinb2).map fun workRoot =>
    H.blake2b256 (asicInputBody work.prevblockHidden siaNonce siaNtime workRoot)

/-! ### The sia fields -/

/-- The words of a sia field write it back. -/
theorem siaWords_siaHalves (field : Vector UInt8 SIA_WORDS_LEN) :
    siaWords (siaHalves field).1 (siaHalves field).2 = field.toList := by
  have hword {half : Bytes} (hlength : half.length = 4) : word (UInt32.ofNat (leNat half)) = half := by
    have hlt := leNat_lt half
    rw [hlength] at hlt
    rw [word, UInt32.toNat_ofNat_of_lt' hlt, ← hlength, leBytes_leNat]
  have hfield : field.toList.length = 8 := field.length_toList
  rw [siaWords, siaHalves, hword (by rw [List.length_take, hfield]; rfl),
    hword (by rw [List.length_drop, hfield]), List.take_append_drop]

/-- The words a sia field is written from are read back. -/
theorem siaHalves_siaWords {low high : UInt32} {field : Vector UInt8 SIA_WORDS_LEN}
    (hfield : field.toList = siaWords low high) : siaHalves field = (low, high) := by
  have hword (n : UInt32) : UInt32.ofNat (leNat (word n)) = n := by
    rw [word, leNat_leBytes, Nat.mod_eq_of_lt (show n.toNat < 256 ^ 4 from n.toNat_lt), UInt32.ofNat_toNat]
  have hlength : (word low).length = 4 := length_leBytes _ _
  rw [siaHalves, hfield, siaWords, List.take_left' hlength, List.drop_left' hlength, hword, hword]

/-- The nonces and the extranonce are not part of the second stage. -/
theorem BlockHeaderV2.h2_setSiaFields (H : Hashing) {h : BlockHeaderV2} (hflags : h.flags = 0) (keyHash : Hash)
    (extranonce : Vector UInt8 16) (siaNtime siaNonce : Vector UInt8 SIA_WORDS_LEN) :
    (({ h with extranonce }.setSiaFields siaNtime siaNonce).hashStagesWithKeyHash H keyHash).h2 =
      (h.hashStagesWithKeyHash H keyHash).h2 := by
  have htime : ∀ h : BlockHeaderV2, h.flags = 0 → h.timeOnWire = h.time := by
    intro h hflags
    rw [timeOnWire, hflags, if_pos (by decide)]
  have hset : ({ h with extranonce }.setSiaFields siaNtime siaNonce).timeOnWire = h.time := htime _ hflags
  rw [hashStagesWithKeyHash, hashStagesWithKeyHash, h1PreimageWith, h1PreimageWith, hset, htime h hflags]
  rfl

/-! ### The job's header -/

namespace Job

variable {H : Hashing} {job : Job} {kind : CoinbaseKind} {targetByte : UInt8}
  {extranonce : Vector UInt8 HEADER_EXTRANONCE_SIZE} {siaNtime siaNonce : Vector UInt8 SIA_WORDS_LEN}
  {h : BlockHeaderV2}

/-- What a header of the job is made of. -/
theorem header_eq_some (hheader : job.header H kind targetByte extranonce siaNtime siaNonce = some h) :
    ∃ tx shared, job.fullCoinbase kind targetByte = some tx ∧
      job.jobSection.header job.template.version (UInt32.ofNat job.template.curtime)
        (job.jobSection.merkleRoot H tx (decide (kind = .subsidyOnly))) (decide (kind = .subsidyOnly)) targetByte
        job.abw.isSome = some shared ∧
      job.commitment H kind targetByte = some ⟨shared, (job.hashStages H shared).h2⟩ ∧
      h = { shared with extranonce }.setSiaFields siaNtime siaNonce := by
  obtain ⟨commitment, hcommitment, rfl⟩ := Option.map_eq_some_iff.mp hheader
  have hmade := hcommitment
  rw [Job.commitment] at hmade
  obtain ⟨tx, htx, hmade⟩ := Option.bind_eq_some_iff.mp hmade
  obtain ⟨shared, hshared, hmade⟩ := Option.bind_eq_some_iff.mp hmade
  obtain rfl := Option.some.inj hmade
  exact ⟨tx, shared, htx, hshared, hcommitment, rfl⟩

end Job

/-- The fields of a section's header that its work does not set. -/
theorem JobSection.header_eq_some {job : JobSection} {version time : UInt32} {merkleRoot : Hash}
    {subsidyOnly abw : Bool} {targetByte : UInt8} {h : BlockHeaderV2}
    (hheader : job.header version time merkleRoot subsidyOnly targetByte abw = some h) :
    ∃ txcount, h = { BlockHeaderV2.zero with
      version
      prevBlock := job.prevHash
      merkleRoot
      time
      bits := UInt32.ofNat (leNat job.nbits.toList)
      txcount
      xorKeyMaskClearBits := if abw then clearBits targetByte else 0
      height := job.height } := by
  rw [JobSection.header] at hheader
  dsimp only at hheader
  generalize (if subsidyOnly = true then 1 else job.txnCount.toNat + 1) = count at hheader
  split at hheader
  · exact ⟨_, (Option.some.inj hheader).symm⟩
  · cases hheader

/-! ### The two hashes -/

namespace Job

variable {H : Hashing} {job : Job} {kind : CoinbaseKind} {targetByte : UInt8}
  {extranonce : Vector UInt8 HEADER_EXTRANONCE_SIZE} {siaNtime siaNonce : Vector UInt8 SIA_WORDS_LEN}
  {h : BlockHeaderV2}

/-- The hash of a header of the job, whose profile is the one the notify is for. -/
theorem rawPowHash_of_header (hheader : job.header H kind targetByte extranonce siaNtime siaNonce = some h) :
    job.rawPowHash H h = H.blake2b256 (asicInputBody (H.prevblockHidden job.jobSection.prevHash) siaNonce siaNtime
      (H.workRoot (job.hashStages H h).h2 extranonce)) := by
  obtain ⟨tx, shared, -, hshared, -, rfl⟩ := header_eq_some hheader
  obtain ⟨txcount, rfl⟩ := JobSection.header_eq_some hshared
  have hroot : ∀ h : BlockHeaderV2, (job.hashStages H h).workRoot = H.workRoot (job.hashStages H h).h2 h.extranonce := by
    intro h
    unfold hashStages
    cases job.abw with
    | none => rfl
    | some a => rfl
  rw [rawPowHash, BlockHeaderV2.rawPowHash, BlockHeaderV2.asicInputWith, if_neg, if_pos, hroot]
  · rw [asicInputBody, ← siaWords_siaHalves siaNonce, ← siaWords_siaHalves siaNtime]
    rfl
  · show (0 : UInt8) &&& FLAG_PROFILE_MASK = 0
    decide
  · show (0 : UInt8) &&& FLAG_PROFILE_MASK ≠ 1
    decide

theorem h2_of_header (hheader : job.header H kind targetByte extranonce siaNtime siaNonce = some h) :
    ∃ commitment, job.commitment H kind targetByte = some commitment ∧
      commitment.h2 = (job.hashStages H h).h2 := by
  obtain ⟨tx, shared, -, hshared, hcommitment, rfl⟩ := header_eq_some hheader
  obtain ⟨txcount, rfl⟩ := JobSection.header_eq_some hshared
  refine ⟨_, hcommitment, ?_⟩
  show (job.hashStages H _).h2 = (job.hashStages H _).h2
  unfold hashStages
  split
  · exact (BlockHeaderV2.h2_setSiaFields H rfl _ _ _ _).symm
  · rw [BlockHeaderV2.hashStages_eq, BlockHeaderV2.hashStages_eq]
    exact (BlockHeaderV2.h2_setSiaFields H rfl _ _ _ _).symm

/-- **A miner hashes what the gateway hashes**: the fields of the notify are the header's. -/
theorem rawHash_of_header (hhidden : job.prevblockHidden = H.prevblockHidden job.jobSection.prevHash)
    (hheader : job.header H kind targetByte extranonce siaNtime siaNonce = some h) :
    ∃ work, job.notifiedWork H kind targetByte = some work ∧
      work.rawHash H extranonce siaNtime siaNonce = some (job.rawPowHash H h) := by
  obtain ⟨commitment, hcommitment, hh2⟩ := h2_of_header hheader
  refine ⟨_, by rw [notifiedWork, hcommitment, Option.map_some], ?_⟩
  have hleaf : (List.replicate STRATUM_LEAF_PREFIX_LEN 0 ++ (List.replicate COINB1_LEADING_ZEROS 0 ++
      commitment.h2.toList) ++ extranonce.toList ++ []).length = WORK_ROOT_LEAF_SIZE := by
    simp only [List.length_append, List.length_replicate, Vector.length_toList, List.length_nil]
    rfl
  rw [NotifiedWork.rawHash, Hashing.workRootFromStratum, if_pos hleaf, Option.map_some,
    rawPowHash_of_header hheader, ← hh2, ← hhidden]
  refine congrArg (fun leaf => some (H.blake2b256 (asicInputBody _ siaNonce siaNtime (H.blake2b256 leaf)))) ?_
  rw [List.append_nil, ← List.append_assoc]
  rfl

end Job
end Ratum
