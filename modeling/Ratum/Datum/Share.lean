import Ratum.Core.Bytes

/-!
# The share a gateway submits

`core/src/datum/messages/share.rs`: the job and coinbase sections a share carries, and its own fields.
-/

namespace Ratum

def EXTRANONCE_SIZE : Nat := 12

def SIA_WORDS_LEN : Nat := 8

def MAX_MERKLE_BRANCHES : Nat := 24

def MAX_USERNAME_LEN : Nat := 384

def COINBASE_ID_SUBSIDY_ONLY : UInt8 := 0xff

def MAX_JOBS : Nat := 256

structure JobSection where
  prevHash : Hash
  targetByteIndex : UInt16
  nbits : Vector UInt8 4
  coinbaserId : UInt8
  height : UInt32
  coinbaseValue : Nat
  txnCount : UInt32
  txnTotalWeight : UInt32
  txnTotalSize : UInt32
  txnTotalSigops : UInt32
  merkleBranches : List Hash
  deriving DecidableEq

structure CoinbaseSection where
  coinbaseId : UInt8
  coinb1 : Bytes
  coinb2 : Bytes
  deriving DecidableEq

def CoinbaseSection.assemble (cb : CoinbaseSection) (extranonce : Bytes) : Bytes :=
  cb.coinb1 ++ extranonce ++ cb.coinb2

structure Blake2bSection where
  siaNtime : Vector UInt8 SIA_WORDS_LEN
  siaNonce : Vector UInt8 SIA_WORDS_LEN
  timeOnWire : UInt32
  deriving DecidableEq

/-- The two words a sia field packs. -/
def siaHalves (field : Vector UInt8 SIA_WORDS_LEN) : UInt32 × UInt32 :=
  (UInt32.ofNat (leNat (field.toList.take 4)), UInt32.ofNat (leNat (field.toList.drop 4)))

namespace Blake2bSection

def nonceFields (b : Blake2bSection) : UInt32 × UInt32 := siaHalves b.siaNonce

def timeFields (b : Blake2bSection) : UInt32 × UInt32 := siaHalves b.siaNtime

end Blake2bSection

structure PowSubmit where
  jobId : UInt8
  coinbaseId : UInt8
  isBlock : Bool
  subsidyOnly : Bool
  quickdiff : Bool
  targetByte : UInt8
  ntime : UInt32
  nonce : UInt32
  version : UInt32
  extranonce : Vector UInt8 EXTRANONCE_SIZE
  username : String
  useTimeOffset : Bool
  job : Option JobSection
  coinbase : Option CoinbaseSection
  blake2b : Blake2bSection
  abwSlot : Option UInt8
  deriving DecidableEq

namespace PowSubmit

/-- The block time the header carries. -/
def blockTime (s : PowSubmit) : UInt32 :=
  if s.useTimeOffset then s.blake2b.timeOnWire + s.blake2b.timeFields.1 else s.blake2b.timeOnWire

/-- `difficulty_for_exponent` of the target byte. -/
def difficulty (s : PowSubmit) : UInt64 := 1 <<< (s.targetByte.toUInt64 &&& 63)

end PowSubmit
end Ratum
