import Ratum.Datum.Channel
import Ratum.Datum.Messages

/-!
# The handshake

`core/src/datum/keys.rs`, `handshake.rs`, `client.rs` and `server.rs`: the hello the gateway seals to the
pool's box key, the response the pool signs, and the channel each end holds after it. The keys a side
generates and the bytes it draws are arguments.
-/

namespace Ratum

/-! ### Keys -/

def PUBKEY_LEN : Nat := 32

def PUBLIC_KEYS_LEN : Nat := 2 * PUBKEY_LEN

structure PublicKeys where
  signPk : SignPublicKey
  boxPk : BoxPublicKey
  deriving DecidableEq

namespace PublicKeys

def toBytes (keys : PublicKeys) : Bytes := keys.signPk.toList ++ keys.boxPk.toList

/-- The keys at the start of the bytes, and the bytes after them. -/
def splitFrom (bytes : Bytes) : Option (PublicKeys × Bytes) :=
  if h : PUBLIC_KEYS_LEN ≤ bytes.length then
    some
      (⟨⟨(bytes.take PUBKEY_LEN).toArray, by
          simp only [PUBLIC_KEYS_LEN, PUBKEY_LEN] at h
          simp [PUBKEY_LEN]
          omega⟩,
        ⟨((bytes.drop PUBKEY_LEN).take PUBKEY_LEN).toArray, by
          simp only [PUBLIC_KEYS_LEN, PUBKEY_LEN] at h
          simp [PUBKEY_LEN]
          omega⟩⟩,
        bytes.drop PUBLIC_KEYS_LEN)
  else none

end PublicKeys

structure KeyPairs where
  signPk : SignPublicKey
  signSk : SignSecretKey
  boxPk : BoxPublicKey
  boxSk : BoxSecretKey

def KeyPairs.public (keys : KeyPairs) : PublicKeys := ⟨keys.signPk, keys.boxPk⟩

/-! ### The extension of a version 3 hello -/

/-- `DRS` and a one. -/
def DRS_MARKER : Bytes := [0x44, 0x52, 0x53, 0x01]

def DRS_RESUME_PRESENT : UInt8 := 1

def DRS_FLAG_AT : Nat := DRS_MARKER.length

def DRS_TOKEN_AT : Nat := DRS_FLAG_AT + 1

def RESUME_TOKEN_LEN : Nat := 40

abbrev ResumeToken := Vector UInt8 RESUME_TOKEN_LEN

inductive ProtocolVersion
  | v1
  | v3 (resume : Option ResumeToken)
  deriving DecidableEq

/-! ### The gateway's end -/

def MAX_HELLO_PAD_LEN : Nat := 200

structure ClientChannel where
  longTermKeys : KeyPairs
  sessionKeys : KeyPairs
  nk : UInt32
  channel : Channel
  poolSessionSignPk : Option SignPublicKey
  motd : String

/-- The header of either handshake frame. -/
def handshakeHeader (protoCmd : UInt8) : FrameHeader :=
  { FrameHeader.default with isSigned := true, isEncryptedPubkey := true, protoCmd }

namespace ClientChannel

def withKeyPairs (longTermKeys sessionKeys : KeyPairs) (nk : UInt32) : ClientChannel where
  longTermKeys := longTermKeys
  sessionKeys := sessionKeys
  nk := nk
  channel := .beforeHandshake
  poolSessionSignPk := none
  motd := ""

/-- The extension, as a hello of the version carries it. -/
def drs : ProtocolVersion → Bytes
  | .v1 => []
  | .v3 (some token) => DRS_MARKER ++ DRS_RESUME_PRESENT :: token.toList
  | .v3 none => DRS_MARKER ++ [0]

/-- The padding: a byte again and again, as often as another says. -/
def pad (r : UInt8 × UInt8) : Bytes := List.replicate (1 + r.1.toNat % MAX_HELLO_PAD_LEN) r.2

def helloBody (c : ClientChannel) (userAgent : String) (protocolVersion : ProtocolVersion) (r : UInt8 × UInt8) :
    Bytes :=
  c.longTermKeys.public.toBytes ++ (c.sessionKeys.public.toBytes ++ (stringBytes userAgent ++
    (0 :: STRUCT_END :: (leBytes 4 c.nk.toNat ++ (drs protocolVersion ++ pad r)))))

variable (D : Dryoc)

/-- The gateway after its hello, and the frame; it stops where the hello cannot be signed or sealed. -/
def hello (c : ClientChannel) (ephemeral : BoxSecretKey) (r : UInt8 × UInt8) (poolBoxPk : BoxPublicKey)
    (userAgent : String) (protocolVersion : ProtocolVersion) : Except ChannelError (ClientChannel × Bytes) := do
  let sealed ← sealSigned D ephemeral c.longTermKeys.signSk poolBoxPk (c.helloBody userAgent protocolVersion r)
  let out := (c.channel.frame (handshakeHeader HELLO_OR_PING) sealed).2
  let keys := HeaderKeys.fromNk c.nk
  let nonces := SessionNonces.derive c.nk c.sessionKeys.signPk
  pure ({ c with channel := Channel.client keys nonces }, out)

/-- What a response holds: the client's keys, its session keys, the pool's session keys and the message of
the day, all signed by the pool. -/
def readResponse (c : ClientChannel) (header : FrameHeader) (body : Bytes) (poolSignPk : SignPublicKey) :
    Except ChannelError (PublicKeys × Bytes) := do
  if header.protoCmd ≠ HANDSHAKE_RESPONSE ∨ header.isSigned = false ∨ header.isEncryptedPubkey = false then
    throw (.badHeader header)
  let plain ← openSealed D c.sessionKeys.boxPk c.sessionKeys.boxSk body
  let (signed, sig) ← splitSigned plain
  let some (client, rest) := PublicKeys.splitFrom signed | throw .truncated
  let some (session, rest) := PublicKeys.splitFrom rest | throw .truncated
  let some (poolSession, motd) := PublicKeys.splitFrom rest | throw .truncated
  verify D sig signed poolSignPk
  if client ≠ c.longTermKeys.public ∨ session ≠ c.sessionKeys.public then
    throw (.malformed "response does not echo the client's keys")
  pure (poolSession, motd)

/-- The message of the day and the pool's key stay where the pool's box key is then refused. -/
def readHandshakeResponse (c : ClientChannel) (header : FrameHeader) (body : Bytes) (poolSignPk : SignPublicKey) :
    ClientChannel × Except ChannelError Unit :=
  match c.readResponse D header body poolSignPk with
  | .error e => (c, .error e)
  | .ok (poolSession, motd) =>
      let c := { c with
        motd := fromUtf8Lossy (motd.takeWhile (· ≠ 0))
        poolSessionSignPk := some poolSession.signPk }
      match D.cryptoBoxBeforenm poolSession.boxPk c.sessionKeys.boxSk with
      | some precomp => ({ c with channel := c.channel.setPrecomp precomp }, .ok ())
      | none => (c, .error (.malformed "bad pool session key"))

def encrypt (c : ClientChannel) (protoCmd : UInt8) (payload : Bytes) :
    Except ChannelError (ClientChannel × Bytes) := do
  let (channel, bytes) ← c.channel.encrypt D protoCmd payload none
  pure ({ c with channel }, bytes)

def unmaskHeader (c : ClientChannel) (bytes : Bytes) : ClientChannel × FrameHeader :=
  let read := c.channel.unmaskHeader bytes
  ({ c with channel := read.1 }, read.2)

def decrypt (c : ClientChannel) (header : FrameHeader) (ciphertext : Bytes) :
    ClientChannel × Except ChannelError Bytes :=
  match header.isEncryptedChannel, header.isEncryptedPubkey with
  | true, false =>
      let read := c.channel.decrypt D header ciphertext c.poolSessionSignPk
      ({ c with channel := read.1 }, read.2)
  | false, true =>
      (c, do
        let plain ← openSealed D c.sessionKeys.boxPk c.sessionKeys.boxSk ciphertext
        stripSignature D plain header c.poolSessionSignPk)
  | false, false =>
      -- a keepalive carries nothing, and nothing else comes unsealed
      if header.protoCmd = HELLO_OR_PING ∧ header.isSigned = false ∧ ciphertext.isEmpty then (c, .ok [])
      else (c, .error (.malformed
        "pool message is not a channel-encrypted or sealed frame (plain or both flags)"))
  | true, true =>
      (c, .error (.malformed "pool message is not a channel-encrypted or sealed frame (plain or both flags)"))

end ClientChannel

/-! ### The pool's end -/

def MAX_USER_AGENT_LEN : Nat := 256

def AFTER_UA_LEN : Nat := 1 + 4

def MAX_MOTD_LEN : Nat := 511

structure Hello where
  client : PublicKeys
  session : PublicKeys
  userAgent : String
  nk : UInt32
  protocolVersion : ProtocolVersion
  deriving DecidableEq

/-- The protocol version the bytes after the `nk` ask for. -/
def readProtocolVersion (tail : Bytes) : Except ChannelError ProtocolVersion :=
  if DRS_FLAG_AT < tail.length ∧ tail.take DRS_FLAG_AT = DRS_MARKER then
    if (tail.getD DRS_FLAG_AT 0) &&& DRS_RESUME_PRESENT ≠ 0 then
      if h : DRS_TOKEN_AT + RESUME_TOKEN_LEN ≤ tail.length then
        .ok (.v3 (some ⟨((tail.drop DRS_TOKEN_AT).take RESUME_TOKEN_LEN).toArray, by
          simp
          omega⟩))
      else .error (.malformed "DRS flag set without a token")
    else .ok (.v3 none)
  else .ok .v1

def openHello (D : Dryoc) (header : FrameHeader) (payload : Bytes) (pool : KeyPairs) :
    Except ChannelError Hello := do
  if header.protoCmd ≠ HELLO_OR_PING ∨ header.isSigned = false ∨ header.isEncryptedPubkey = false ∨
      header.isEncryptedChannel = true then
    throw (.badHeader header)
  let plain ← openSealed D pool.boxPk pool.boxSk payload
  let (signed, sig) ← splitSigned plain
  let some (client, rest) := PublicKeys.splitFrom signed | throw .truncated
  let some (session, rest) := PublicKeys.splitFrom rest | throw .truncated
  verify D sig signed client.signPk
  let some nul := rest.findIdx? (· = 0) | throw (.malformed "no UA terminator")
  let userAgent := fromUtf8Lossy (rest.take (min nul MAX_USER_AGENT_LEN))
  let after := rest.drop (nul + 1)
  if after.length < AFTER_UA_LEN then throw .truncated
  if after.headD 0 ≠ STRUCT_END then throw (.malformed "no 0xFE after user agent")
  let nk := UInt32.ofNat (leNat ((after.drop 1).take 4))
  let protocolVersion ← readProtocolVersion (after.drop AFTER_UA_LEN)
  pure { client, session, userAgent, nk, protocolVersion }

structure ServerChannel where
  channel : Channel
  sessionSignSk : SignSecretKey
  hello : Hello

namespace ServerChannel

variable (D : Dryoc)

def encrypt (s : ServerChannel) (protoCmd : UInt8) (payload : Bytes) (sign : Bool) :
    Except ChannelError (ServerChannel × Bytes) := do
  let (channel, bytes) ← s.channel.encrypt D protoCmd payload (if sign then some s.sessionSignSk else none)
  pure ({ s with channel }, bytes)

def unmaskHeader (s : ServerChannel) (bytes : Bytes) : ServerChannel × FrameHeader :=
  let read := s.channel.unmaskHeader bytes
  ({ s with channel := read.1 }, read.2)

def decrypt (s : ServerChannel) (header : FrameHeader) (ciphertext : Bytes) :
    ServerChannel × Except ChannelError Bytes :=
  if header.isEncryptedChannel = false ∨ header.isEncryptedPubkey = true then
    (s, .error (.malformed "client message is not a channel-encrypted frame (sealed or plain)"))
  else
    let read := s.channel.decrypt D header ciphertext (some s.hello.session.signPk)
    ({ s with channel := read.1 }, read.2)

end ServerChannel

def responseBody (hello : Hello) (session : PublicKeys) (motd : String) : Bytes :=
  hello.client.toBytes ++ (hello.session.toBytes ++ (session.toBytes ++
    ((stringBytes motd).take MAX_MOTD_LEN ++ [0])))

/-- The response to a hello, and the channel of its session. -/
def accept (D : Dryoc) (ephemeral : BoxSecretKey) (sessionKeys : KeyPairs) (hello : Hello) (pool : KeyPairs)
    (motd : String) : Except ChannelError (Bytes × ServerChannel) := do
  let sealed ← sealSigned D ephemeral pool.signSk hello.session.boxPk
    (responseBody hello sessionKeys.public motd)
  if MAX_CMD_LEN < sealed.length then throw (.tooLarge sealed.length)
  let some precomp := D.cryptoBoxBeforenm hello.session.boxPk sessionKeys.boxSk
    | throw (.malformed "bad session key")
  let keys := HeaderKeys.fromNk hello.nk
  let nonces := SessionNonces.derive hello.nk hello.session.signPk
  let framed := (Channel.server keys nonces precomp).frame (handshakeHeader HANDSHAKE_RESPONSE) sealed
  pure (framed.2, ⟨framed.1, sessionKeys.signSk, hello⟩)

end Ratum
