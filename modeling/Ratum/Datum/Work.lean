import Ratum.Core.Header
import Ratum.Datum.Share

/-!
# What a share on a job commits to

`core/src/datum/messages/share.rs`: the coinbase transaction, the merkle root and the header of a job
section, computed the same way by the gateway that builds the work and the pool that verifies it.
-/

namespace Ratum

def HEADER_EXTRANONCE_SIZE : Nat := 16

def HEADER_EXTRANONCE_PAD : Nat := HEADER_EXTRANONCE_SIZE - EXTRANONCE_SIZE

def SHARE_TARGET_BASE_BITS : Nat := 32

def clearBits (targetByte : UInt8) : UInt8 :=
  UInt8.ofNat (min (SHARE_TARGET_BASE_BITS + targetByte.toNat) 255)

def BlockHeaderV2.zero : BlockHeaderV2 where
  version := 0
  prevBlock := Vector.replicate _ 0
  merkleRoot := Vector.replicate _ 0
  time := 0
  bits := 0
  nonce := 0
  nonce2 := 0
  nonce3 := 0
  extranonce := Vector.replicate _ 0
  timeOffset := 0
  txcount := 0
  flags := 0
  xorKeyMaskClearBits := 0
  xorKey := Vector.replicate _ 0
  height := 0
  mmRhs := Vector.replicate _ 0

/-- Writes the sia fields into the header fields they carry. -/
def BlockHeaderV2.setSiaFields (h : BlockHeaderV2) (siaNtime siaNonce : Vector UInt8 SIA_WORDS_LEN) :
    BlockHeaderV2 :=
  { h with
    nonce := (siaHalves siaNonce).1
    nonce2 := (siaHalves siaNonce).2
    timeOffset := (siaHalves siaNtime).1
    nonce3 := (siaHalves siaNtime).2 }

/-- The sia fields of a header and its time, the inverse of `setSiaFields`. -/
def Blake2bSection.fromHeader (h : BlockHeaderV2) : Blake2bSection where
  siaNtime := ⟨(siaWords h.timeOffset h.nonce3).toArray, by simp [siaWords, word, SIA_WORDS_LEN]⟩
  siaNonce := ⟨(siaWords h.nonce h.nonce2).toArray, by simp [siaWords, word, SIA_WORDS_LEN]⟩
  timeOnWire := h.timeOnWire

/-- The header's extranonce field for a share's. -/
def headerExtranonce (extranonce : Vector UInt8 EXTRANONCE_SIZE) : Vector UInt8 HEADER_EXTRANONCE_SIZE :=
  ⟨(List.replicate HEADER_EXTRANONCE_PAD 0 ++ extranonce.toList).toArray, by
    rw [List.size_toArray, List.length_append, List.length_replicate, Vector.length_toList]
    rfl⟩

/-- The share's extranonce in a header's field; none when the field does not begin with zeros. -/
def shareExtranonce (field : Vector UInt8 HEADER_EXTRANONCE_SIZE) :
    Option (Vector UInt8 EXTRANONCE_SIZE) :=
  if field.toList.take HEADER_EXTRANONCE_PAD = List.replicate HEADER_EXTRANONCE_PAD 0 then
    some ⟨(field.toList.drop HEADER_EXTRANONCE_PAD).toArray, by
      rw [List.size_toArray, List.length_drop, Vector.length_toList]
      rfl⟩
  else none

namespace JobSection

variable (H : Hashing) (job : JobSection)

/-- The coinbase transaction with a zero extranonce and the target byte written at the job's index; none
when the index is outside the transaction. -/
def coinbaseTx (cb : CoinbaseSection) (targetByte : UInt8) : Option Bytes :=
  let tx := cb.assemble (List.replicate EXTRANONCE_SIZE 0)
  if job.targetByteIndex.toNat < tx.length then some (tx.set job.targetByteIndex.toNat targetByte)
  else none

def merkleRoot (coinbaseTx : Bytes) (subsidyOnly : Bool) : Hash :=
  H.merkleRootFromBranches (H.sha256d coinbaseTx) (if subsidyOnly then [] else job.merkleBranches)

/-- The header fields the job and its coinbase decide; none when the transaction count does not fit. -/
def header (version time : UInt32) (merkleRoot : Hash) (subsidyOnly : Bool) (targetByte : UInt8)
    (abw : Bool) : Option BlockHeaderV2 :=
  let txCount := if subsidyOnly then 1 else job.txnCount.toNat + 1
  if txCount < 2 ^ 16 then
    some { BlockHeaderV2.zero with
      version
      prevBlock := job.prevHash
      merkleRoot
      time
      bits := UInt32.ofNat (leNat job.nbits.toList)
      txcount := UInt16.ofNat txCount
      xorKeyMaskClearBits := if abw then clearBits targetByte else 0
      height := job.height }
  else none

theorem coinbaseTx_get {cb : CoinbaseSection} {targetByte : UInt8} {tx : Bytes}
    (h : job.coinbaseTx cb targetByte = some tx) :
    tx[job.targetByteIndex.toNat]? = some targetByte := by
  unfold coinbaseTx at h
  dsimp only at h
  split at h
  · next hlt =>
      rw [← Option.some.inj h]
      exact List.getElem?_set_self hlt
  · cases h

/-- A transaction names the target byte written into it. -/
theorem coinbaseTx_injective {cb cb' : CoinbaseSection} {targetByte targetByte' : UInt8} {tx : Bytes}
    (h : job.coinbaseTx cb targetByte = some tx) (h' : job.coinbaseTx cb' targetByte' = some tx) :
    targetByte = targetByte' :=
  Option.some.inj ((job.coinbaseTx_get h).symm.trans (job.coinbaseTx_get h'))

end JobSection

/-- The header the share was mined on, on a job whose merkle root is given and under the slot key of its
assignment. -/
def PowSubmit.header (s : PowSubmit) (job : JobSection) (merkleRoot : Hash) (abwKey : Option XorKey) :
    Option BlockHeaderV2 :=
  (job.header (s.version &&& ~~~V2_FLAG) s.blockTime merkleRoot s.subsidyOnly s.targetByte
    abwKey.isSome).map fun h =>
      { h.setSiaFields s.blake2b.siaNtime s.blake2b.siaNonce with
        extranonce := headerExtranonce s.extranonce
        flags := if s.useTimeOffset then FLAG_USE_TIME_OFFSET else h.flags
        xorKey := abwKey.getD (Vector.replicate _ 0) }

end Ratum
