import Ratum.Base.FailsIn
import Ratum.Datum.Framing

/-!
# The encrypted channel

`core/src/datum/channel.rs`: what both sides hold after the handshake, and the sealing and signing the
handshake itself uses. The cryptography of `dryoc` is outside the repository and a parameter here.
-/

namespace Ratum

def CRYPTO_BOX_MACBYTES : Nat := 16

def CRYPTO_BOX_SEALBYTES : Nat := 48

def CRYPTO_SIGN_BYTES : Nat := 64

abbrev SignPublicKey := Vector UInt8 32

abbrev SignSecretKey := Vector UInt8 64

abbrev BoxPublicKey := Vector UInt8 32

abbrev BoxSecretKey := Vector UInt8 32

abbrev PrecompKey := Vector UInt8 32

abbrev Signature := Vector UInt8 CRYPTO_SIGN_BYTES

/-- The calls into `dryoc`. The key pair that a sealed box is made with is drawn inside `crypto_box_seal`
and given to it here. -/
structure Dryoc where
  cryptoSignDetached : Bytes → SignSecretKey → Option Signature
  cryptoSignVerifyDetached : Signature → Bytes → SignPublicKey → Bool
  cryptoBoxSeal : BoxSecretKey → Bytes → BoxPublicKey → Option Bytes
  cryptoBoxSealOpen : Bytes → BoxPublicKey → BoxSecretKey → Option Bytes
  cryptoBoxBeforenm : BoxPublicKey → BoxSecretKey → Option PrecompKey
  cryptoBoxEasyAfternm : Bytes → Nonce → PrecompKey → Option Bytes
  cryptoBoxOpenEasyAfternm : Bytes → Nonce → PrecompKey → Option Bytes

/-- Boxes and signatures of the overheads the real ones have, around a body they do not hide. -/
def Dryoc.transparent : Dryoc where
  cryptoSignDetached _ _ := some (Vector.replicate _ 0)
  cryptoSignVerifyDetached sig _ _ := sig == Vector.replicate _ 0
  cryptoBoxSeal _ body _ := some (List.replicate CRYPTO_BOX_SEALBYTES 0 ++ body)
  cryptoBoxSealOpen sealed _ _ := some (sealed.drop CRYPTO_BOX_SEALBYTES)
  cryptoBoxBeforenm _ _ := some (Vector.replicate _ 0)
  cryptoBoxEasyAfternm plain _ _ := some (List.replicate CRYPTO_BOX_MACBYTES 0 ++ plain)
  cryptoBoxOpenEasyAfternm ciphertext _ _ := some (ciphertext.drop CRYPTO_BOX_MACBYTES)

def MAX_PLAINTEXT_LEN : Nat := MAX_CMD_LEN - CRYPTO_BOX_MACBYTES

inductive ChannelError
  | badHeader (header : FrameHeader)
  | truncated
  | unseal
  | seal
  | badSignature
  | sign
  | malformed (what : String)
  | decrypt
  | encrypt
  | noChannel
  | noVerifyKey
  | tooLarge (len : Nat)
  deriving DecidableEq

/-! ### Signing and sealing -/

section Sealing

variable (D : Dryoc)

/-- The body with its detached signature after it. -/
def signAppend (sk : SignSecretKey) (body : Bytes) : Except ChannelError Bytes :=
  match D.cryptoSignDetached body sk with
  | some sig => .ok (body ++ sig.toList)
  | none => .error .sign

/-- The signed bytes and the detached signature that follows them. -/
def splitSigned (plain : Bytes) : Except ChannelError (Bytes × Signature) :=
  if h : plain.length < CRYPTO_SIGN_BYTES then .error .truncated
  else
    let at_ := plain.length - CRYPTO_SIGN_BYTES
    .ok (plain.take at_, ⟨(plain.drop at_).toArray, by
      rw [List.size_toArray, List.length_drop]
      omega⟩)

def verify (sig : Signature) (signed : Bytes) (pk : SignPublicKey) : Except ChannelError Unit :=
  if D.cryptoSignVerifyDetached sig signed pk then .ok () else .error .badSignature

def sealTo (ephemeral : BoxSecretKey) (pk : BoxPublicKey) (body : Bytes) : Except ChannelError Bytes :=
  match D.cryptoBoxSeal ephemeral body pk with
  | some sealed => .ok sealed
  | none => .error .seal

def sealSigned (ephemeral : BoxSecretKey) (sk : SignSecretKey) (pk : BoxPublicKey) (body : Bytes) :
    Except ChannelError Bytes := do
  sealTo D ephemeral pk (← signAppend D sk body)

def openSealed (pk : BoxPublicKey) (sk : BoxSecretKey) (sealed : Bytes) : Except ChannelError Bytes :=
  if sealed.length < CRYPTO_BOX_SEALBYTES then .error .truncated
  else
    match D.cryptoBoxSealOpen sealed pk sk with
    | some plain => .ok plain
    | none => .error .unseal

def stripSignature (plain : Bytes) (header : FrameHeader) (verifyWith : Option SignPublicKey) :
    Except ChannelError Bytes := do
  if header.isSigned then
    let (signed, sig) ← splitSigned plain
    let some pk := verifyWith | throw .noVerifyKey
    verify D sig signed pk
    pure signed
  else
    pure plain

end Sealing

/-! ### The channel -/

structure Channel where
  precomp : Option PrecompKey
  txNonce : Nonce
  rxNonce : Nonce
  txHeaderKey : HeaderKeyRatchet
  rxHeaderKey : HeaderKeyRatchet
  deriving DecidableEq

namespace Channel

def beforeHandshake : Channel where
  precomp := none
  txNonce := Vector.replicate NONCE_LEN 0
  rxNonce := Vector.replicate NONCE_LEN 0
  txHeaderKey := .initial
  rxHeaderKey := .initial

def client (keys : HeaderKeys) (nonces : SessionNonces) : Channel where
  precomp := none
  txNonce := nonces.clientSender
  rxNonce := nonces.clientReceiver
  txHeaderKey := ⟨keys.clientToServer⟩
  rxHeaderKey := ⟨keys.serverToClient⟩

def server (keys : HeaderKeys) (nonces : SessionNonces) (precomp : PrecompKey) : Channel where
  precomp := some precomp
  txNonce := nonces.clientReceiver
  rxNonce := nonces.clientSender
  txHeaderKey := ⟨keys.serverToClient⟩
  rxHeaderKey := ⟨keys.clientToServer⟩

def setPrecomp (c : Channel) (precomp : PrecompKey) : Channel := { c with precomp := some precomp }

/-- The frame carrying a body, its header masked with the next key. -/
def frame (c : Channel) (header : FrameHeader) (body : Bytes) : Channel × Bytes :=
  let masked := c.txHeaderKey.mask { header with cmdLen := UInt32.ofNat body.length }
  ({ c with txHeaderKey := masked.1 }, masked.2 ++ body)

def unmaskHeader (c : Channel) (bytes : Bytes) : Channel × FrameHeader :=
  let read := c.rxHeaderKey.unmask bytes
  ({ c with rxHeaderKey := read.1 }, read.2)

variable (D : Dryoc)

/-- The header of a channel message. -/
def messageHeader (protoCmd : UInt8) (signed : Bool) : FrameHeader :=
  { FrameHeader.default with isSigned := signed, isEncryptedChannel := true, protoCmd }

/-- The body of a message: its payload, signed when it is sent with a key. -/
def plainBody (payload : Bytes) : Option SignSecretKey → Except ChannelError Bytes
  | some sk => signAppend D sk payload
  | none => pure payload

/-- The channel after the message, and its frame. A message that is refused leaves the channel as it was. -/
def encrypt (c : Channel) (protoCmd : UInt8) (payload : Bytes) (signWith : Option SignSecretKey) :
    Except ChannelError (Channel × Bytes) := do
  let some precomp := c.precomp | throw .noChannel
  let plain ← plainBody D payload signWith
  if MAX_PLAINTEXT_LEN < plain.length then throw (.tooLarge (plain.length + CRYPTO_BOX_MACBYTES))
  let some ct := D.cryptoBoxEasyAfternm plain c.txNonce precomp | throw .encrypt
  pure ({ c with txNonce := incrementNonce c.txNonce }.frame (messageHeader protoCmd signWith.isSome) ct)

/-- The channel once a message is sent. -/
def sent (c : Channel) : Channel :=
  { c with txNonce := incrementNonce c.txNonce, txHeaderKey := c.txHeaderKey.advance }

/-- The bytes of a frame. -/
def frameBytes (c : Channel) (header : FrameHeader) (body : Bytes) : Bytes :=
  (c.txHeaderKey.mask { header with cmdLen := UInt32.ofNat body.length }).2 ++ body

theorem frame_eq (c : Channel) (header : FrameHeader) (body : Bytes) :
    c.frame header body = ({ c with txHeaderKey := c.txHeaderKey.advance }, c.frameBytes header body) := rfl

/-- What a message that is sent went through. -/
theorem encrypt_ok {c c' : Channel} {protoCmd : UInt8} {payload bytes : Bytes}
    {signWith : Option SignSecretKey} (h : c.encrypt D protoCmd payload signWith = .ok (c', bytes)) :
    ∃ precomp plain ct, c.precomp = some precomp ∧ plainBody D payload signWith = .ok plain ∧
      plain.length ≤ MAX_PLAINTEXT_LEN ∧ D.cryptoBoxEasyAfternm plain c.txNonce precomp = some ct ∧
        c' = c.sent ∧ bytes = c.frameBytes (messageHeader protoCmd signWith.isSome) ct := by
  unfold encrypt at h
  split at h
  next precomp hprecomp =>
    obtain ⟨plain, hplain, h⟩ := Gives.exists_of_bind h
    obtain ⟨hlen, h⟩ := FailsIn.ok_of_guard (e := ChannelError.tooLarge (plain.length + CRYPTO_BOX_MACBYTES)) h
    split at h
    next ct hct =>
      rw [frame_eq] at h
      obtain ⟨rfl, rfl⟩ := Prod.mk.inj (Except.ok.inj h)
      exact ⟨precomp, plain, ct, hprecomp, hplain, not_lt.mp hlen, hct, rfl, rfl⟩
    next => cases h
  next => cases h

/-- The channel counts a message that opens, also when its signature is then refused. -/
def decrypt (c : Channel) (header : FrameHeader) (ciphertext : Bytes) (verifyWith : Option SignPublicKey) :
    Channel × Except ChannelError Bytes :=
  match c.precomp with
  | none => (c, .error .noChannel)
  | some precomp =>
    if ciphertext.length < CRYPTO_BOX_MACBYTES then (c, .error .truncated)
    else
      match D.cryptoBoxOpenEasyAfternm ciphertext c.rxNonce precomp with
      | none => (c, .error .decrypt)
      | some plain =>
        ({ c with rxNonce := incrementNonce c.rxNonce }, stripSignature D plain header verifyWith)

end Channel
end Ratum
