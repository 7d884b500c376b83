import Ratum.Bitcoin.Hashing

/-!
# Transactions

`core/src/bitcoin/transaction.rs`, with the compact size of `core/src/bitcoin.rs`: the id of a
transaction, over its serialization without witnesses, and the coinbase the pool rebuilds a share from.
Values are natural numbers.
-/

namespace Ratum

def OUTPOINT_SIZE : Nat := HASH_SIZE + 4

def SEQUENCE_SIZE : Nat := 4

def VALUE_SIZE : Nat := 8

def MIN_OUTPUT_SIZE : Nat := VALUE_SIZE + 1

structure TxOut where
  value : Nat
  scriptPubkey : Bytes
  deriving DecidableEq, Repr

structure CoinbaseTx where
  version : UInt32
  scriptSigOffset : Nat
  scriptSig : Bytes
  sequence : UInt32
  outputs : List TxOut
  lockTime : UInt32
  hasWitness : Bool
  deriving DecidableEq, Repr

inductive TxError
  | truncated (at_ : Truncated)
  | badCompactSize
  | notCoinbase
  | inputNotNull
  | lengthOverflow (what : String)
  | trailingBytes (count : Nat)
  | noInputs
  deriving DecidableEq, Repr

/-- The `?` operator on a read. -/
def TxError.ofRead {α : Type} (read : Except Truncated α) : Except TxError α :=
  read.mapError .truncated

open TxError

/-- A compact size of more than one byte, which must not fit in fewer. -/
def compactSizeOf (read : Except Truncated (Nat × ByteReader)) (minimum : Nat) :
    Except TxError (Nat × ByteReader) := do
  let (n, c) ← ofRead read
  if n < minimum then throw .badCompactSize
  pure (n, c)

def decodeCompactSize (c : ByteReader) : Except TxError (Nat × ByteReader) := do
  let (first, c) ← ofRead (c.u8 "compact size")
  if first = 0xfd then compactSizeOf (c.uint 2 "compact size") 0xfd
  else if first = 0xfe then compactSizeOf (c.uint 4 "compact size") 0x10000
  else if first = 0xff then compactSizeOf (c.uint 8 "compact size") 0x100000000
  else pure (first.toNat, c)

def readVersionAndMarker (c : ByteReader) : Except TxError (UInt32 × Bool × ByteReader) := do
  let (version, c) ← ofRead (c.u32 "version")
  if c.peek2 = some (0x00, 0x01) then
    let c ← ofRead (c.advance 2 "segwit marker and flag")
    pure (version, true, c)
  else pure (version, false, c)

/-- Skips `n` fields of a length and that many bytes. -/
def skipItems (what : String) : Nat → ByteReader → Except TxError ByteReader
  | 0, c => pure c
  | n + 1, c => do
      let (len, c) ← decodeCompactSize c
      let c ← ofRead (c.advance len what)
      skipItems what n c

def skipWitnesses : Nat → ByteReader → Except TxError ByteReader
  | 0, c => pure c
  | inputs + 1, c => do
      let (items, c) ← decodeCompactSize c
      let c ← skipItems "witness item" items c
      skipWitnesses inputs c

def readLockTime (c : ByteReader) : Except TxError (UInt32 × ByteReader) := do
  let (lockTime, c) ← ofRead (c.u32 "lock time")
  if !c.atEnd then throw (.trailingBytes c.rest.length)
  pure (lockTime, c)

def readOutputs : Nat → ByteReader → Except TxError (List TxOut × ByteReader)
  | 0, c => pure ([], c)
  | n + 1, c => do
      let (value, c) ← ofRead (c.uint VALUE_SIZE "value")
      let (len, c) ← decodeCompactSize c
      let (script, c) ← ofRead (c.take len "scriptPubKey")
      let (outputs, c) ← readOutputs n c
      pure (⟨value, script⟩ :: outputs, c)

/-- The outpoint a coinbase spends. -/
def nullOutpoint : Bytes := List.replicate HASH_SIZE 0 ++ List.replicate 4 0xff

def parseCoinbase (tx : Bytes) : Except TxError CoinbaseTx := do
  let (version, hasWitness, c) ← readVersionAndMarker (.new tx)
  let (inputs, c) ← decodeCompactSize c
  if inputs ≠ 1 then throw .notCoinbase
  let (prevout, c) ← ofRead (c.take OUTPOINT_SIZE "outpoint")
  if prevout ≠ nullOutpoint then throw .inputNotNull
  let (scriptLen, c) ← decodeCompactSize c
  let scriptSigOffset := c.pos
  let (scriptSig, c) ← ofRead (c.take scriptLen "scriptSig")
  let (sequence, c) ← ofRead (c.u32 "sequence")
  let (nOut, c) ← decodeCompactSize c
  if c.rest.length < nOut * MIN_OUTPUT_SIZE then throw (.lengthOverflow "output count")
  let (outputs, c) ← readOutputs nOut c
  let c ← if hasWitness then skipWitnesses 1 c else pure c
  let (lockTime, _) ← readLockTime c
  pure { version, scriptSigOffset, scriptSig, sequence, outputs, lockTime, hasWitness }

def skipInputs : Nat → ByteReader → Except TxError ByteReader
  | 0, c => pure c
  | n + 1, c => do
      let c ← ofRead (c.advance OUTPOINT_SIZE "outpoint")
      let (len, c) ← decodeCompactSize c
      let c ← ofRead (c.advance len "scriptSig")
      let c ← ofRead (c.advance SEQUENCE_SIZE "sequence")
      skipInputs n c

def skipOutputs : Nat → ByteReader → Except TxError ByteReader
  | 0, c => pure c
  | n + 1, c => do
      let c ← ofRead (c.advance VALUE_SIZE "value")
      let (len, c) ← decodeCompactSize c
      let c ← ofRead (c.advance len "scriptPubKey")
      skipOutputs n c

def txid (H : Hashing) (tx : Bytes) : Except TxError Hash := do
  let (version, hasWitness, body) ← readVersionAndMarker (.new tx)
  let (inputs, c) ← decodeCompactSize body
  if inputs = 0 then throw .noInputs
  let c ← skipInputs inputs c
  let (outputs, c) ← decodeCompactSize c
  let c ← skipOutputs outputs c
  let bodyLen := c.pos - body.pos
  let c ← if hasWitness then skipWitnesses inputs c else pure c
  let (lockTime, _) ← readLockTime c
  pure (H.sha256d (leBytes 4 version.toNat ++ body.rest.take bodyLen ++ leBytes 4 lockTime.toNat))

/-! ### Writing a transaction -/

def encodeCompactSize (n : Nat) : Bytes :=
  if n ≤ 0xfc then [UInt8.ofNat n]
  else if n ≤ 0xffff then 0xfd :: leBytes 2 n
  else if n ≤ 0xffffffff then 0xfe :: leBytes 4 n
  else 0xff :: leBytes 8 n

def encodeOutput (value : Nat) (script : Bytes) : Bytes :=
  leBytes VALUE_SIZE value ++ encodeCompactSize script.length ++ script

end Ratum
