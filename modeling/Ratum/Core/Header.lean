import Ratum.Bitcoin.Hashing

/-!
# The version 2 block header

`core/src/header.rs`: the serialized header, and the stages that take it to the proof-of-work hash and,
under the XOR key's mask, the block hash. The signed fields are kept as the words written.
-/

namespace Ratum

def HEADER_V2_SIZE : Nat := 164

def V2_FLAG : UInt32 := 0x80000000

def FLAG_USE_TIME_OFFSET : UInt8 := 4

def FLAG_PROFILE_MASK : UInt8 := 3

abbrev XorKey := Vector UInt8 16

structure BlockHeaderV2 where
  version : UInt32
  prevBlock : Hash
  merkleRoot : Hash
  time : UInt32
  bits : UInt32
  nonce : UInt32
  nonce2 : UInt32
  nonce3 : UInt32
  extranonce : Vector UInt8 16
  timeOffset : UInt32
  txcount : UInt16
  flags : UInt8
  xorKeyMaskClearBits : UInt8
  xorKey : XorKey
  height : UInt32
  mmRhs : Hash
  deriving DecidableEq

structure PowHashes where
  rawPowHash : Hash
  blockHash : Hash
  deriving DecidableEq

structure HashStages where
  h1 : Hash
  h2 : Hash
  workRoot : Hash
  xorKeyMask : Hash
  deriving DecidableEq

def word (n : UInt32) : Bytes := leBytes 4 n.toNat

/-- The two words a sia field packs. -/
def siaWords (low high : UInt32) : Bytes := word low ++ word high

namespace Hashing

variable (H : Hashing)

def workRoot (h2 : Hash) (extranonce : Vector UInt8 16) : Hash :=
  H.blake2b256 (List.replicate 4 0 ++ h2.toList ++ extranonce.toList)

def xorKeyHash (key : XorKey) : Hash :=
  H.taggedSha256 "Bitcoin block hash PoW XOR key" key.toList

def prevblockHidden (prevBlock : Hash) : Bytes :=
  List.replicate 6 0 ++
    (H.taggedSha256 "Bitcoin prevblock header, hashed" (reversed prevBlock).toList).toList.drop 6

/-- The byte of a mask at an index, with the bits cleared from the left. -/
def clearedAt (clearBits : UInt8) (i : Nat) (b : UInt8) : UInt8 :=
  if i < clearBits.toNat / 8 then 0
  else if i = clearBits.toNat / 8 then b &&& (0xff >>> (clearBits % 8))
  else b

def xorKeyMask (key : XorKey) (clearBits : UInt8) : Hash :=
  if key.all (· == 0) then Vector.replicate _ 0
  else (H.taggedSha256 "Bitcoin block hash PoW XOR mask" key.toList).mapIdx (clearedAt clearBits)

end Hashing

namespace BlockHeaderV2

variable (H : Hashing) (h : BlockHeaderV2)

def timeOnWire : UInt32 :=
  if h.flags &&& FLAG_USE_TIME_OFFSET = 0 then h.time else h.time - h.timeOffset

def asicProfile : UInt8 := h.flags &&& FLAG_PROFILE_MASK

def serialize : Bytes :=
  word (V2_FLAG ||| (h.version &&& ~~~V2_FLAG)) ++ h.prevBlock.toList ++ h.merkleRoot.toList ++
    word h.timeOnWire ++ word h.bits ++ word h.nonce ++ word h.nonce2 ++ word h.nonce3 ++
    h.extranonce.toList ++ word h.timeOffset ++ leBytes 2 h.txcount.toNat ++
    [h.flags, h.xorKeyMaskClearBits] ++ h.xorKey.toList ++ word h.height ++ h.mmRhs.toList

theorem length_serialize : h.serialize.length = HEADER_V2_SIZE := by
  simp only [serialize, word, List.length_append, Vector.length_toList, length_leBytes,
    List.length_cons, List.length_nil]
  rfl

def asicInputBody (head : Bytes) (workRoot : Hash) : Bytes :=
  head ++ siaWords h.nonce h.nonce2 ++ siaWords h.timeOffset h.nonce3 ++ workRoot.toList

/-- What the hardware hashes under the header's profile. -/
def asicInputWith (workRoot h2 : Hash) : Bytes :=
  if h.asicProfile = 1 then
    word h.nonce ++ word h.nonce2 ++ word h.nonce3 ++ word h.timeOffset ++ workRoot.toList ++ h2.toList
  else if h.asicProfile = 0 then h.asicInputBody (H.prevblockHidden h.prevBlock) workRoot
  else if h.asicProfile = 2 then List.replicate 48 0 ++ h.asicInputBody h2.toList workRoot
  else List.replicate 80 0 ++ h.asicInputBody h2.toList workRoot

def h1Preimage : Bytes :=
  word (h.version ||| V2_FLAG) ++ (reversed h.prevBlock).toList ++ word h.height ++
    h.merkleRoot.toList ++ word h.timeOnWire ++ [0] ++ word h.bits ++
    leBytes 4 h.txcount.toNat ++ [h.flags, h.xorKeyMaskClearBits] ++ (H.xorKeyHash h.xorKey).toList

def hashStages : HashStages :=
  let h1 := H.taggedSha256 "Bitcoin block header 1" (h.h1Preimage H)
  let h2 := H.taggedSha256 "Merge-mining hook" (h1.toList ++ List.replicate 32 0 ++ h.mmRhs.toList)
  { h1, h2
    workRoot := H.workRoot h2 h.extranonce
    xorKeyMask := H.xorKeyMask h.xorKey h.xorKeyMaskClearBits }

/-- The preimage of the first stage, for a holder of the XOR key's hash. -/
def h1PreimageWith (keyHash : Hash) : Bytes :=
  word (h.version ||| V2_FLAG) ++ (reversed h.prevBlock).toList ++ word h.height ++
    h.merkleRoot.toList ++ word h.timeOnWire ++ [0] ++ word h.bits ++
    leBytes 4 h.txcount.toNat ++ [h.flags, h.xorKeyMaskClearBits] ++ keyHash.toList

def hashStagesWithKeyHash (keyHash : Hash) : HashStages :=
  let h1 := H.taggedSha256 "Bitcoin block header 1" (h.h1PreimageWith keyHash)
  let h2 := H.taggedSha256 "Merge-mining hook" (h1.toList ++ List.replicate 32 0 ++ h.mmRhs.toList)
  { h1, h2
    workRoot := H.workRoot h2 h.extranonce
    xorKeyMask := H.xorKeyMask h.xorKey h.xorKeyMaskClearBits }

/-- The hash of the input the stages give, before the XOR mask is applied. -/
def rawPowHash (stages : HashStages) : Hash :=
  H.blake2b256 (h.asicInputWith H stages.workRoot stages.h2)

theorem hashStages_eq : h.hashStages H = h.hashStagesWithKeyHash H (H.xorKeyHash h.xorKey) := rfl

def powHashes : PowHashes :=
  let stages := h.hashStages H
  let rawPowHash := H.blake2b256 (h.asicInputWith H stages.workRoot stages.h2)
  { rawPowHash, blockHash := rawPowHash.zipWith (· ^^^ ·) stages.xorKeyMask }

theorem powHashes_rawPowHash : (h.powHashes H).rawPowHash = h.rawPowHash H (h.hashStages H) := rfl

end BlockHeaderV2
end Ratum
