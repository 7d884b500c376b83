import Ratum.Datum.Handshaken

/-!
# What the channel delivers

The two ends of a session over two links, each a queue of bytes. However sends, refusals and receives are
interleaved, each end reads what the other sent, in order.
-/

namespace Ratum

/-- What a message comes out as. -/
structure Message where
  protoCmd : UInt8
  payload : Bytes
  signed : Bool
  deriving DecidableEq

/-! ### One direction -/

/-- Where one end of a direction stands. -/
structure Turn where
  nonce : Nonce
  headerKey : HeaderKeyRatchet

def Turn.next (t : Turn) : Turn := ⟨incrementNonce t.nonce, t.headerKey.advance⟩

namespace Channel

def tx (c : Channel) : Turn := ⟨c.txNonce, c.txHeaderKey⟩

def rx (c : Channel) : Turn := ⟨c.rxNonce, c.rxHeaderKey⟩

/-- The channel once a message is received. -/
def received (c : Channel) : Channel :=
  { c with rxNonce := incrementNonce c.rxNonce, rxHeaderKey := c.rxHeaderKey.advance }

section Fields

variable (c : Channel)

theorem sent_fields : c.sent.precomp = c.precomp ∧ c.sent.tx = c.tx.next ∧ c.sent.rx = c.rx := by
  have hset (nonce : Nonce) (key : HeaderKeyRatchet) :
      { c with txNonce := nonce, txHeaderKey := key }.precomp = c.precomp ∧
        { c with txNonce := nonce, txHeaderKey := key }.tx = ⟨nonce, key⟩ ∧
          { c with txNonce := nonce, txHeaderKey := key }.rx = c.rx := ⟨rfl, rfl, rfl⟩
  exact hset _ _

theorem received_fields :
    c.received.precomp = c.precomp ∧ c.received.tx = c.tx ∧ c.received.rx = c.rx.next := by
  have hset (nonce : Nonce) (key : HeaderKeyRatchet) :
      { c with rxNonce := nonce, rxHeaderKey := key }.precomp = c.precomp ∧
        { c with rxNonce := nonce, rxHeaderKey := key }.tx = c.tx ∧
          { c with rxNonce := nonce, rxHeaderKey := key }.rx = ⟨nonce, key⟩ := ⟨rfl, rfl, rfl⟩
  exact hset _ _

end Fields

end Channel

section Direction

variable (D : Dryoc) (precomp : PrecompKey) (verifyWith : Option SignPublicKey)

/-- The bytes are the frame of the message, for an end at the turn. -/
structure Opens (t : Turn) (bytes : Bytes) (m : Message) (body : Bytes) : Prop where
  cmd : m.protoCmd.toNat < 32
  body_le : body.length ≤ MAX_CMD_LEN
  mac_le : CRYPTO_BOX_MACBYTES ≤ body.length
  frame : bytes = (t.headerKey.mask
    { Channel.messageHeader m.protoCmd m.signed with cmdLen := UInt32.ofNat body.length }).2 ++ body
  plain : ∃ plain, D.cryptoBoxOpenEasyAfternm body t.nonce precomp = some plain ∧
    ∀ cmdLen, stripSignature D plain { Channel.messageHeader m.protoCmd m.signed with cmdLen } verifyWith =
      .ok m.payload

/-- The link holds the frames of the messages, from the turn of the end that reads to the turn of the end
that sends. -/
inductive Carries : Turn → Bytes → List Message → Turn → Prop
  | nil (t : Turn) : Carries t [] [] t
  | cons {t last : Turn} {bytes body link : Bytes} {m : Message} {rest : List Message}
      (hopens : Opens D precomp verifyWith t bytes m body) (hrest : Carries t.next link rest last) :
      Carries t (bytes ++ link) (m :: rest) last

variable {D precomp verifyWith}

theorem Carries.concat {t last : Turn} {link bytes body : Bytes} {ms : List Message} {m : Message}
    (hlink : Carries D precomp verifyWith t link ms last) (hopens : Opens D precomp verifyWith last bytes m body) :
    Carries D precomp verifyWith t (link ++ bytes) (ms ++ [m]) last.next := by
  induction hlink with
  | nil t =>
      have hone := Carries.cons hopens (Carries.nil t.next)
      rwa [List.append_nil] at hone
  | cons hfirst _ ih =>
      rw [List.append_assoc, List.cons_append]
      exact .cons hfirst (ih hopens)

/-- An empty link carries no message. -/
theorem Carries.eq_nil {t last : Turn} {ms : List Message} (hlink : Carries D precomp verifyWith t [] ms last) :
    ms = [] := by
  generalize hnil : ([] : Bytes) = link at hlink
  cases hlink with
  | nil t => rfl
  | cons hopens hrest =>
      have hlength := congrArg List.length hnil
      rw [hopens.frame] at hlength
      simp only [List.length_append, HeaderKeyRatchet.length_mask, List.length_nil, HEADER_LEN] at hlength
      omega

/-- A link that is not empty starts with the frame of its first message. -/
theorem Carries.exists_of_ne_nil {t last : Turn} {link : Bytes} {ms : List Message}
    (hlink : Carries D precomp verifyWith t link ms last) (hne : link ≠ []) :
    ∃ bytes body after m rest, link = bytes ++ after ∧ ms = m :: rest ∧
      Opens D precomp verifyWith t bytes m body ∧ Carries D precomp verifyWith t.next after rest last := by
  cases hlink with
  | nil t => exact absurd rfl hne
  | cons hopens hrest => exact ⟨_, _, _, _, _, rfl, rfl, hopens, hrest⟩

/-! ### Sending and receiving -/

variable {signPair : SignPublicKey → SignSecretKey → Prop} {boxPair : BoxPublicKey → BoxSecretKey → Prop}

/-- What a signature adds. -/
def signatureLen (signed : Bool) : Nat := if signed then CRYPTO_SIGN_BYTES else 0

theorem plainBody_strip (hD : D.Behaves signPair boxPair) (protoCmd : UInt8) (payload : Bytes)
    {signWith : Option SignSecretKey}
    (hsign : ∀ sk, signWith = some sk → ∃ pk, verifyWith = some pk ∧ signPair pk sk) :
    ∃ plain, Channel.plainBody D payload signWith = .ok plain ∧
      plain.length = payload.length + signatureLen signWith.isSome ∧
      ∀ cmdLen, stripSignature D plain { Channel.messageHeader protoCmd signWith.isSome with cmdLen } verifyWith =
        .ok payload := by
  cases signWith with
  | none => exact ⟨payload, rfl, rfl, fun _ => rfl⟩
  | some sk =>
      obtain ⟨pk, rfl, hpair⟩ := hsign sk rfl
      obtain ⟨sig, hsig, hverify⟩ := hD.sign pk sk hpair payload
      have hverified : verify D sig payload pk = .ok () := by
        rw [verify, hverify]
        rfl
      refine ⟨payload ++ sig.toList, ?_, ?_, fun cmdLen => ?_⟩
      · rw [Channel.plainBody, signAppend, hsig]
      · rw [List.length_append, Vector.length_toList]
        rfl
      · simp only [stripSignature, Channel.messageHeader, Option.isSome_some, if_true, bind, Except.bind,
          splitSigned_append, hverified, pure, Except.pure]

/-- A message that fits is sent, and its frame opens to it. -/
theorem Channel.encrypt_fits (hD : D.Behaves signPair boxPair) {c : Channel} (hprecomp : c.precomp = some precomp)
    {protoCmd : UInt8} (hcmd : protoCmd.toNat < 32) {payload : Bytes} {signWith : Option SignSecretKey}
    (hsign : ∀ sk, signWith = some sk → ∃ pk, verifyWith = some pk ∧ signPair pk sk)
    (hfits : payload.length + signatureLen signWith.isSome ≤ MAX_PLAINTEXT_LEN) :
    ∃ bytes body, c.encrypt D protoCmd payload signWith = .ok (c.sent, bytes) ∧
      Opens D precomp verifyWith c.tx bytes ⟨protoCmd, payload, signWith.isSome⟩ body := by
  obtain ⟨plain, hplain, hlength, hstrip⟩ := plainBody_strip hD protoCmd payload hsign
  rw [← hlength] at hfits
  obtain ⟨ct, hct, hctLength, hopen⟩ := hD.boxEasy plain c.txNonce precomp hfits
  have hmax : MAX_PLAINTEXT_LEN + CRYPTO_BOX_MACBYTES = MAX_CMD_LEN := by decide
  refine ⟨c.frameBytes (messageHeader protoCmd signWith.isSome) ct, ct, ?_, hcmd, by omega, by omega, rfl,
    plain, hopen, hstrip⟩
  simp only [encrypt, hprecomp, hplain, if_neg (not_lt.mpr hfits), hct, frame_eq, sent, bind, Except.bind, pure,
    Except.pure]
  rfl

/-- A message that does not fit is refused. -/
theorem Channel.encrypt_tooLarge (hD : D.Behaves signPair boxPair) {c : Channel}
    (hprecomp : c.precomp = some precomp) (protoCmd : UInt8) {payload : Bytes} {signWith : Option SignSecretKey}
    (hsign : ∀ sk, signWith = some sk → ∃ pk, verifyWith = some pk ∧ signPair pk sk)
    (hlarge : MAX_PLAINTEXT_LEN < payload.length + signatureLen signWith.isSome) :
    ∃ len, c.encrypt D protoCmd payload signWith = .error (.tooLarge len) := by
  obtain ⟨plain, hplain, hlength, -⟩ := plainBody_strip hD protoCmd payload hsign
  rw [← hlength] at hlarge
  refine ⟨plain.length + CRYPTO_BOX_MACBYTES, ?_⟩
  simp only [encrypt, hprecomp, hplain, if_pos hlarge, bind, Except.bind, throw, throwThe,
    MonadExceptOf.throw]

/-- The end that stands where the frame was made reads the message and the bytes after it. -/
theorem Channel.receive_opens {c : Channel} (hprecomp : c.precomp = some precomp) {bytes body : Bytes} {m : Message}
    (hopens : Opens D precomp verifyWith c.rx bytes m body) (link : Bytes) :
    let header := { messageHeader m.protoCmd m.signed with cmdLen := UInt32.ofNat body.length }
    c.unmaskHeader ((bytes ++ link).take HEADER_LEN) =
        ({ c with rxHeaderKey := c.rxHeaderKey.advance }, header) ∧
      ((bytes ++ link).drop HEADER_LEN).take header.cmdLen.toNat = body ∧
      ((bytes ++ link).drop HEADER_LEN).drop header.cmdLen.toNat = link ∧
      Channel.decrypt D { c with rxHeaderKey := c.rxHeaderKey.advance } header body verifyWith =
        (c.received, .ok m.payload) := by
  obtain ⟨hcmd, hle, hmac, hframe, plain, hopen, hstrip⟩ := hopens
  intro header
  have hfits : header.Fits := ⟨(toNat_cmdLen hle).trans_le hle, by show (0 : UInt8).toNat < 4; decide, hcmd⟩
  have hsplit : bytes ++ link = (c.rxHeaderKey.mask header).2 ++ (body ++ link) := by
    rw [hframe, List.append_assoc]
    rfl
  have hdrop : (bytes ++ link).drop HEADER_LEN = body ++ link := by
    rw [hsplit]
    exact List.drop_left' (HeaderKeyRatchet.length_mask _ _)
  have hlen : header.cmdLen.toNat = body.length := toNat_cmdLen hle
  refine ⟨?_, ?_, ?_, ?_⟩
  · have htake : (bytes ++ link).take HEADER_LEN = (c.rxHeaderKey.mask header).2 := by
      rw [hsplit]
      exact List.take_left' (HeaderKeyRatchet.length_mask _ _)
    simp only [unmaskHeader, htake, HeaderKeyRatchet.unmask_mask _ hfits]
  · rw [hdrop, hlen, List.take_left' rfl]
  · rw [hdrop, hlen, List.drop_left' rfl]
  · have hopen' : D.cryptoBoxOpenEasyAfternm body c.rxNonce precomp = some plain := hopen
    have hlong : ¬ body.length < CRYPTO_BOX_MACBYTES := not_lt.mpr hmac
    have hstripped : stripSignature D plain header verifyWith = .ok m.payload := hstrip header.cmdLen
    simp only [decrypt, hprecomp, if_neg hlong, hopen', hstripped, received]

end Direction

/-! ### The two ends -/

/-- The message that comes of a frame. -/
def FrameHeader.message (header : FrameHeader) (payload : Bytes) : Message :=
  ⟨header.protoCmd, payload, header.isSigned⟩

/-- The next frame off the link, read and decrypted. -/
def ServerChannel.receive (D : Dryoc) (s : ServerChannel) (link : Bytes) :
    ServerChannel × Bytes × Except ChannelError Message :=
  let read := s.unmaskHeader (link.take HEADER_LEN)
  let len := read.2.cmdLen.toNat
  let opened := read.1.decrypt D read.2 ((link.drop HEADER_LEN).take len)
  (opened.1, (link.drop HEADER_LEN).drop len, opened.2.map read.2.message)

def ClientChannel.receive (D : Dryoc) (c : ClientChannel) (link : Bytes) :
    ClientChannel × Bytes × Except ChannelError Message :=
  let read := c.unmaskHeader (link.take HEADER_LEN)
  let len := read.2.cmdLen.toNat
  let opened := read.1.decrypt D read.2 ((link.drop HEADER_LEN).take len)
  (opened.1, (link.drop HEADER_LEN).drop len, opened.2.map read.2.message)

theorem ServerChannel.receive_opens {D : Dryoc} {s : ServerChannel} {precomp : PrecompKey}
    (hprecomp : s.channel.precomp = some precomp) {bytes body : Bytes} {m : Message}
    (hopens : Opens D precomp (some s.hello.session.signPk) s.channel.rx bytes m body) (link : Bytes) :
    s.receive D (bytes ++ link) = ({ s with channel := s.channel.received }, link, .ok m) := by
  obtain ⟨hunmask, hbody, hrest, hdecrypt⟩ := Channel.receive_opens hprecomp hopens link
  have hflags : ¬ (true = false ∨ false = true) := by decide
  simp only [receive, unmaskHeader, hunmask, decrypt, Channel.messageHeader, FrameHeader.default, if_neg hflags]
  simp only [Channel.messageHeader, FrameHeader.default] at hbody hrest hdecrypt
  rw [hbody, hrest, hdecrypt]
  rfl

theorem ClientChannel.receive_opens {D : Dryoc} {c : ClientChannel} {precomp : PrecompKey}
    (hprecomp : c.channel.precomp = some precomp) {bytes body : Bytes} {m : Message}
    (hopens : Opens D precomp c.poolSessionSignPk c.channel.rx bytes m body) (link : Bytes) :
    c.receive D (bytes ++ link) = ({ c with channel := c.channel.received }, link, .ok m) := by
  obtain ⟨hunmask, hbody, hrest, hdecrypt⟩ := Channel.receive_opens hprecomp hopens link
  simp only [receive, unmaskHeader, hunmask, decrypt, Channel.messageHeader, FrameHeader.default]
  simp only [Channel.messageHeader, FrameHeader.default] at hbody hrest hdecrypt
  rw [hbody, hrest, hdecrypt]
  rfl

/-- A session: its two ends, what is on the links between them, and what each end has read. -/
structure Links where
  client : ClientChannel
  server : ServerChannel
  toServer : Bytes
  toClient : Bytes
  atServer : List (Except ChannelError Message)
  atClient : List (Except ChannelError Message)

inductive LinkOp
  | clientSend (protoCmd : UInt8) (payload : Bytes)
  | serverSend (protoCmd : UInt8) (payload : Bytes) (sign : Bool)
  | serverReceive
  | clientReceive

namespace LinkOp

/-- Every command sent fits the header's bits. -/
def Fits : LinkOp → Prop
  | clientSend protoCmd _ => protoCmd.toNat < 32
  | serverSend protoCmd _ _ => protoCmd.toNat < 32
  | serverReceive | clientReceive => True

/-- The message the client sends, when it is not too large. -/
def fromClient : LinkOp → List Message
  | clientSend protoCmd payload =>
      if payload.length ≤ MAX_PLAINTEXT_LEN then [⟨protoCmd, payload, false⟩] else []
  | _ => []

/-- The message the pool sends, when it is not too large. -/
def fromServer : LinkOp → List Message
  | serverSend protoCmd payload sign =>
      if payload.length + signatureLen sign ≤ MAX_PLAINTEXT_LEN then [⟨protoCmd, payload, sign⟩] else []
  | _ => []

end LinkOp

namespace Links

variable (D : Dryoc)

/-- A frame that is refused is not sent, and an end finds nothing on an empty link. -/
def step (s : Links) : LinkOp → Links
  | .clientSend protoCmd payload =>
      match s.client.encrypt D protoCmd payload with
      | .ok (client, bytes) => { s with client, toServer := s.toServer ++ bytes }
      | .error _ => s
  | .serverSend protoCmd payload sign =>
      match s.server.encrypt D protoCmd payload sign with
      | .ok (server, bytes) => { s with server, toClient := s.toClient ++ bytes }
      | .error _ => s
  | .serverReceive =>
      if s.toServer = [] then s
      else
        let read := s.server.receive D s.toServer
        { s with server := read.1, toServer := read.2.1, atServer := s.atServer ++ [read.2.2] }
  | .clientReceive =>
      if s.toClient = [] then s
      else
        let read := s.client.receive D s.toClient
        { s with client := read.1, toClient := read.2.1, atClient := s.atClient ++ [read.2.2] }

def run (s : Links) (ops : List LinkOp) : Links := ops.foldl (step D) s

/-- The ends as the handshake leaves them, and empty links. -/
def start (client : ClientChannel) (server : ServerChannel) : Links := ⟨client, server, [], [], [], []⟩

/-- What is on the links is what was sent and is not read yet. -/
structure Delivering (signPair : SignPublicKey → SignSecretKey → Prop) (precomp : PrecompKey)
    (fromClient fromServer : List Message) (s : Links) : Prop where
  clientPrecomp : s.client.channel.precomp = some precomp
  serverPrecomp : s.server.channel.precomp = some precomp
  signing : ∃ pk, s.client.poolSessionSignPk = some pk ∧ signPair pk s.server.sessionSignSk
  up : ∃ pending, Carries D precomp (some s.server.hello.session.signPk) s.server.channel.rx s.toServer pending
    s.client.channel.tx ∧ fromClient.map .ok = s.atServer ++ pending.map .ok
  down : ∃ pending, Carries D precomp s.client.poolSessionSignPk s.client.channel.rx s.toClient pending
    s.server.channel.tx ∧ fromServer.map .ok = s.atClient ++ pending.map .ok

variable {D} {signPair : SignPublicKey → SignSecretKey → Prop} {boxPair : BoxPublicKey → BoxSecretKey → Prop}
  {precomp : PrecompKey} {fromClient fromServer : List Message} {s : Links}

/-- The pool's end reads the first message on its link. -/
theorem Delivering.serverReceive (hs : Delivering D signPair precomp fromClient fromServer s) :
    Delivering D signPair precomp fromClient fromServer (s.step D .serverReceive) := by
  obtain ⟨hc, hp, hsigning, ⟨pending, hup, hread⟩, hdown⟩ := hs
  rw [step]
  split
  next => exact ⟨hc, hp, hsigning, ⟨pending, hup, hread⟩, hdown⟩
  next hne =>
    obtain ⟨client, server, toServer, toClient, atServer, atClient⟩ := s
    obtain ⟨bytes, body, link, m, rest, rfl, rfl, hopens, hrest⟩ := hup.exists_of_ne_nil hne
    rw [server.receive_opens hp hopens link]
    obtain ⟨hprecomp, htx, hrx⟩ := server.channel.received_fields
    refine ⟨hc, hprecomp.trans hp, hsigning, ⟨rest, ?_, ?_⟩, ?_⟩
    · show Carries D precomp (some server.hello.session.signPk) server.channel.received.rx link rest _
      rw [hrx]
      exact hrest
    · rw [hread, List.append_assoc]
      rfl
    · obtain ⟨pending, hlink, hsent⟩ := hdown
      refine ⟨pending, ?_, hsent⟩
      show Carries D precomp client.poolSessionSignPk client.channel.rx toClient pending
        server.channel.received.tx
      rw [htx]
      exact hlink

/-- The gateway's end reads the first message on its link. -/
theorem Delivering.clientReceive (hs : Delivering D signPair precomp fromClient fromServer s) :
    Delivering D signPair precomp fromClient fromServer (s.step D .clientReceive) := by
  obtain ⟨hc, hp, hsigning, hup, pending, hdown, hread⟩ := hs
  rw [step]
  split
  next => exact ⟨hc, hp, hsigning, hup, pending, hdown, hread⟩
  next hne =>
    obtain ⟨client, server, toServer, toClient, atServer, atClient⟩ := s
    obtain ⟨bytes, body, link, m, rest, rfl, rfl, hopens, hrest⟩ := hdown.exists_of_ne_nil hne
    rw [client.receive_opens hc hopens link]
    obtain ⟨hprecomp, htx, hrx⟩ := client.channel.received_fields
    refine ⟨hprecomp.trans hc, hp, hsigning, ?_, ⟨rest, ?_, ?_⟩⟩
    · obtain ⟨pending, hlink, hsent⟩ := hup
      refine ⟨pending, ?_, hsent⟩
      show Carries D precomp (some server.hello.session.signPk) server.channel.rx toServer pending
        client.channel.received.tx
      rw [htx]
      exact hlink
    · show Carries D precomp client.poolSessionSignPk client.channel.received.rx link rest _
      rw [hrx]
      exact hrest
    · rw [hread, List.append_assoc]
      rfl

/-- What the gateway sends is added to its link when it fits, and is refused when it does not. -/
theorem Delivering.clientSend (hD : D.Behaves signPair boxPair)
    (hs : Delivering D signPair precomp fromClient fromServer s) {protoCmd : UInt8} (hcmd : protoCmd.toNat < 32)
    (payload : Bytes) :
    Delivering D signPair precomp (fromClient ++ LinkOp.fromClient (.clientSend protoCmd payload)) fromServer
      (s.step D (.clientSend protoCmd payload)) := by
  obtain ⟨hc, hp, hsigning, ⟨pending, hup, hread⟩, hdown⟩ := hs
  obtain ⟨client, server, toServer, toClient, atServer, atClient⟩ := s
  rw [LinkOp.fromClient, step]
  by_cases hfits : payload.length ≤ MAX_PLAINTEXT_LEN
  · obtain ⟨bytes, body, hencrypt, hopens⟩ := @Channel.encrypt_fits D precomp
      (some server.hello.session.signPk) signPair boxPair hD client.channel hc protoCmd hcmd payload none nofun hfits
    obtain ⟨hprecomp, htx, hrx⟩ := client.channel.sent_fields
    have hsent : client.encrypt D protoCmd payload = .ok ({ client with channel := client.channel.sent }, bytes) := by
      simp only [ClientChannel.encrypt, hencrypt, bind, Except.bind, pure, Except.pure]
    rw [if_pos hfits, hsent]
    refine ⟨hprecomp.trans hc, hp, hsigning, ⟨pending ++ [⟨protoCmd, payload, false⟩], ?_, ?_⟩, ?_⟩
    · show Carries D precomp (some server.hello.session.signPk) server.channel.rx (toServer ++ bytes) _
        client.channel.sent.tx
      rw [htx]
      exact hup.concat hopens
    · rw [List.map_append, List.map_append, hread, List.append_assoc]
    · obtain ⟨pending, hlink, hsent⟩ := hdown
      refine ⟨pending, ?_, hsent⟩
      show Carries D precomp client.poolSessionSignPk client.channel.sent.rx toClient pending _
      rw [hrx]
      exact hlink
  · obtain ⟨len, hencrypt⟩ := @Channel.encrypt_tooLarge D precomp
      (some server.hello.session.signPk) signPair boxPair hD client.channel hc protoCmd payload none nofun
      (not_le.mp hfits)
    have hrefused : client.encrypt D protoCmd payload = .error (.tooLarge len) := by
      simp only [ClientChannel.encrypt, hencrypt, bind, Except.bind]
    rw [if_neg hfits, hrefused, List.append_nil]
    exact ⟨hc, hp, hsigning, ⟨pending, hup, hread⟩, hdown⟩

theorem Delivering.serverSend (hD : D.Behaves signPair boxPair)
    (hs : Delivering D signPair precomp fromClient fromServer s) {protoCmd : UInt8} (hcmd : protoCmd.toNat < 32)
    (payload : Bytes) (sign : Bool) :
    Delivering D signPair precomp fromClient
      (fromServer ++ LinkOp.fromServer (.serverSend protoCmd payload sign))
      (s.step D (.serverSend protoCmd payload sign)) := by
  obtain ⟨hc, hp, ⟨pk, hpk, hpair⟩, hup, pending, hdown, hread⟩ := hs
  obtain ⟨client, server, toServer, toClient, atServer, atClient⟩ := s
  have hsome : (if sign then some server.sessionSignSk else none).isSome = sign := by
    cases sign <;> rfl
  have hkey : ∀ sk, (if sign then some server.sessionSignSk else none) = some sk →
      ∃ pk, client.poolSessionSignPk = some pk ∧ signPair pk sk := by
    intro sk hsk
    cases sign with
    | false => cases hsk
    | true =>
        obtain rfl := Option.some.inj hsk
        exact ⟨pk, hpk, hpair⟩
  rw [LinkOp.fromServer, step]
  by_cases hfits : payload.length + signatureLen sign ≤ MAX_PLAINTEXT_LEN
  · obtain ⟨bytes, body, hencrypt, hopens⟩ := @Channel.encrypt_fits D precomp client.poolSessionSignPk signPair
      boxPair hD server.channel hp protoCmd hcmd payload _ hkey (by rw [hsome]; exact hfits)
    rw [hsome] at hopens
    obtain ⟨hprecomp, htx, hrx⟩ := server.channel.sent_fields
    have hsent : server.encrypt D protoCmd payload sign =
        .ok ({ server with channel := server.channel.sent }, bytes) := by
      simp only [ServerChannel.encrypt, hencrypt, bind, Except.bind, pure, Except.pure]
    rw [if_pos hfits, hsent]
    refine ⟨hc, hprecomp.trans hp, ⟨pk, hpk, hpair⟩, ?_, ⟨pending ++ [⟨protoCmd, payload, sign⟩], ?_, ?_⟩⟩
    · obtain ⟨pending, hlink, hsent⟩ := hup
      refine ⟨pending, ?_, hsent⟩
      show Carries D precomp (some server.hello.session.signPk) server.channel.sent.rx toServer pending _
      rw [hrx]
      exact hlink
    · show Carries D precomp client.poolSessionSignPk client.channel.rx (toClient ++ bytes) _
        server.channel.sent.tx
      rw [htx]
      exact hdown.concat hopens
    · rw [List.map_append, List.map_append, hread, List.append_assoc]
  · obtain ⟨len, hencrypt⟩ := @Channel.encrypt_tooLarge D precomp client.poolSessionSignPk signPair boxPair hD
      server.channel hp protoCmd payload _ hkey (by rw [hsome]; exact not_le.mp hfits)
    have hrefused : server.encrypt D protoCmd payload sign = .error (.tooLarge len) := by
      simp only [ServerChannel.encrypt, hencrypt, bind, Except.bind]
    rw [if_neg hfits, hrefused, List.append_nil]
    exact ⟨hc, hp, ⟨pk, hpk, hpair⟩, hup, pending, hdown, hread⟩

/-- **One step keeps the links carrying what was sent.** -/
theorem Delivering.step (hD : D.Behaves signPair boxPair)
    (hs : Delivering D signPair precomp fromClient fromServer s) {op : LinkOp} (hop : op.Fits) :
    Delivering D signPair precomp (fromClient ++ op.fromClient) (fromServer ++ op.fromServer) (s.step D op) := by
  cases op with
  | clientSend protoCmd payload =>
      rw [LinkOp.fromServer, List.append_nil]
      · exact hs.clientSend hD hop payload
      · nofun
  | serverSend protoCmd payload sign =>
      rw [LinkOp.fromClient, List.append_nil]
      · exact hs.serverSend hD hop payload sign
      · nofun
  | serverReceive =>
      show Delivering D signPair precomp (fromClient ++ []) (fromServer ++ []) _
      rw [List.append_nil, List.append_nil]
      exact hs.serverReceive
  | clientReceive =>
      show Delivering D signPair precomp (fromClient ++ []) (fromServer ++ []) _
      rw [List.append_nil, List.append_nil]
      exact hs.clientReceive

theorem Delivering.run (hD : D.Behaves signPair boxPair)
    (hs : Delivering D signPair precomp fromClient fromServer s) {ops : List LinkOp} (hops : ∀ op ∈ ops, op.Fits) :
    Delivering D signPair precomp (fromClient ++ ops.flatMap LinkOp.fromClient)
      (fromServer ++ ops.flatMap LinkOp.fromServer) (s.run D ops) := by
  induction ops generalizing fromClient fromServer s with
  | nil =>
      rw [List.flatMap_nil, List.flatMap_nil, List.append_nil, List.append_nil]
      exact hs
  | cons op ops ih =>
      rw [List.flatMap_cons, List.flatMap_cons, ← List.append_assoc, ← List.append_assoc]
      exact ih (hs.step hD (hops op List.mem_cons_self)) fun op hop => hops op (List.mem_cons_of_mem _ hop)

/-- Reading goes on until everything is read. -/
theorem Delivering.drain_server (hs : Delivering D signPair precomp fromClient fromServer s) {n : Nat}
    (hn : fromClient.length ≤ s.atServer.length + n) :
    (s.run D (List.replicate n .serverReceive)).atServer = fromClient.map .ok := by
  induction n generalizing s with
  | zero =>
      obtain ⟨-, -, -, ⟨pending, -, hsent⟩, -⟩ := hs
      have hlength := congrArg List.length hsent
      rw [List.length_append, List.length_map, List.length_map] at hlength
      obtain rfl : pending = [] := List.length_eq_zero_iff.mp (by omega)
      rw [hsent, List.map_nil, List.append_nil]
      rfl
  | succ n ih =>
      refine ih hs.serverReceive ?_
      rw [Links.step]
      split
      next hempty =>
        obtain ⟨-, -, -, ⟨pending, hup, hsent⟩, -⟩ := hs
        rw [hempty] at hup
        rw [hup.eq_nil, List.map_nil, List.append_nil] at hsent
        rw [← hsent, List.length_map]
        exact Nat.le_add_right _ _
      next =>
        rw [List.length_append]
        exact hn.trans_eq (by rw [List.length_singleton, Nat.add_assoc, Nat.add_comm 1])

theorem Delivering.drain_client (hs : Delivering D signPair precomp fromClient fromServer s) {n : Nat}
    (hn : fromServer.length ≤ s.atClient.length + n) :
    (s.run D (List.replicate n .clientReceive)).atClient = fromServer.map .ok := by
  induction n generalizing s with
  | zero =>
      obtain ⟨-, -, -, -, pending, -, hsent⟩ := hs
      have hlength := congrArg List.length hsent
      rw [List.length_append, List.length_map, List.length_map] at hlength
      obtain rfl : pending = [] := List.length_eq_zero_iff.mp (by omega)
      rw [hsent, List.map_nil, List.append_nil]
      rfl
  | succ n ih =>
      refine ih hs.clientReceive ?_
      rw [Links.step]
      split
      next hempty =>
        obtain ⟨-, -, -, -, pending, hdown, hsent⟩ := hs
        rw [hempty] at hdown
        rw [hdown.eq_nil, List.map_nil, List.append_nil] at hsent
        rw [← hsent, List.length_map]
        exact Nat.le_add_right _ _
      next =>
        rw [List.length_append]
        exact hn.trans_eq (by rw [List.length_singleton, Nat.add_assoc, Nat.add_comm 1])

theorem delivering_start {client : ClientChannel} {server : ServerChannel}
    (hstep : InStep signPair client server precomp) :
    Delivering D signPair precomp [] [] (start client server) := by
  obtain ⟨hc, hp, ⟨hupNonce, hupKey⟩, ⟨hdownNonce, hdownKey⟩, hsigning⟩ := hstep
  refine ⟨hc, hp, hsigning, ⟨[], ?_, rfl⟩, ⟨[], ?_, rfl⟩⟩
  · have hturn : client.channel.tx = server.channel.rx := by
      rw [Channel.tx, Channel.rx, hupNonce, hupKey]
    show Carries D precomp _ server.channel.rx [] [] client.channel.tx
    rw [hturn]
    exact .nil _
  · have hturn : server.channel.tx = client.channel.rx := by
      rw [Channel.tx, Channel.rx, hdownNonce, hdownKey]
    show Carries D precomp _ client.channel.rx [] [] server.channel.tx
    rw [hturn]
    exact .nil _

/-- What each end has read is the start of what was sent to it, and it comes to read all of it. -/
structure Delivered (D : Dryoc) (ops : List LinkOp) (s : Links) : Prop where
  atServer : s.atServer <+: (ops.flatMap LinkOp.fromClient).map .ok
  atServer_all : ∀ n, (ops.flatMap LinkOp.fromClient).length ≤ n →
    (s.run D (List.replicate n .serverReceive)).atServer = (ops.flatMap LinkOp.fromClient).map .ok
  atClient : s.atClient <+: (ops.flatMap LinkOp.fromServer).map .ok
  atClient_all : ∀ n, (ops.flatMap LinkOp.fromServer).length ≤ n →
    (s.run D (List.replicate n .clientReceive)).atClient = (ops.flatMap LinkOp.fromServer).map .ok

theorem Delivering.delivered {ops : List LinkOp}
    (hs : Delivering D signPair precomp (ops.flatMap LinkOp.fromClient) (ops.flatMap LinkOp.fromServer) s) :
    Delivered D ops s := by
  refine ⟨?_, fun n hn => hs.drain_server (hn.trans (Nat.le_add_left _ _)), ?_,
    fun n hn => hs.drain_client (hn.trans (Nat.le_add_left _ _))⟩
  · obtain ⟨pending, -, hsent⟩ := hs.up
    exact ⟨pending.map .ok, hsent.symm⟩
  · obtain ⟨pending, -, hsent⟩ := hs.down
    exact ⟨pending.map .ok, hsent.symm⟩

end Links

/-- **The handshake and the channel deliver what was sent**: the hello opens to the gateway's keys, `nk`, user
agent and version, the response to the message of the day, and from then on each end reads, in order, what
the other sent and was not too large. -/
theorem handshake_and_channel_deliver {D : Dryoc} {signPair : SignPublicKey → SignSecretKey → Prop}
    {boxPair : BoxPublicKey → BoxSecretKey → Prop} (hD : D.Behaves signPair boxPair)
    {longTerm session pool poolSession : KeyPairs} (hlongTerm : longTerm.Generated signPair boxPair)
    (hsession : session.Generated signPair boxPair) (hpool : pool.Generated signPair boxPair)
    (hpoolSession : poolSession.Generated signPair boxPair) (nk : UInt32) (ephemeral ephemeral' : BoxSecretKey)
    (r : UInt8 × UInt8) (protocolVersion : ProtocolVersion) {userAgent motd : String}
    (hagent : 0 ∉ stringBytes userAgent) (hagentLen : (stringBytes userAgent).length ≤ MAX_USER_AGENT_LEN)
    (hmotd : 0 ∉ stringBytes motd) (hmotdLen : (stringBytes motd).length ≤ MAX_MOTD_LEN) :
    let fresh := ClientChannel.withKeyPairs longTerm session nk
    let hello : Hello :=
      { client := longTerm.public, session := session.public, userAgent, nk, protocolVersion }
    ∃ (greeted : ClientChannel) (helloWire : Bytes) (server : ServerChannel) (responseWire : Bytes)
      (client : ClientChannel),
      fresh.hello D ephemeral r pool.boxPk userAgent protocolVersion = .ok (greeted, helloWire) ∧
      (let header := (HeaderKeyRatchet.initial.unmask (helloWire.take HEADER_LEN)).2;
        header.cmdLen.toNat = (helloWire.drop HEADER_LEN).length ∧
          openHello D header (helloWire.drop HEADER_LEN) pool = .ok hello) ∧
      accept D ephemeral' poolSession hello pool motd = .ok (responseWire, server) ∧
      (let read := greeted.unmaskHeader (responseWire.take HEADER_LEN);
        read.2.cmdLen.toNat = (responseWire.drop HEADER_LEN).length ∧
          read.1.readHandshakeResponse D read.2 (responseWire.drop HEADER_LEN) pool.signPk = (client, .ok ())) ∧
      client.motd = motd ∧
      ∀ ops : List LinkOp, (∀ op ∈ ops, op.Fits) →
        Links.Delivered D ops ((Links.start client server).run D ops) := by
  intro fresh hello
  obtain ⟨helloWire, hhello, hheader, hopen⟩ := @openHello_hello D signPair boxPair hD longTerm session pool nk
    hlongTerm.sign hpool.box ephemeral r userAgent hagent hagentLen protocolVersion
  obtain ⟨responseWire, server, client, precomp, haccept, -, hlen, hread, hclientMotd, hstep⟩ :=
    @readHandshakeResponse_accept D signPair boxPair hD longTerm session pool poolSession hello rfl rfl hsession.box
      hpool.sign hpoolSession ephemeral' motd hmotd hmotdLen
  refine ⟨_, helloWire, server, responseWire, client, hhello, ⟨hheader, hopen⟩, haccept, ⟨hlen, hread⟩,
    hclientMotd, fun ops hops => ?_⟩
  exact ((Links.delivering_start hstep).run hD hops).delivered

theorem Dryoc.transparent_behaves : Dryoc.transparent.Behaves (fun _ _ => True) (fun _ _ => True) where
  sign _ _ _ _ := ⟨_, rfl, beq_self_eq_true _⟩
  boxSeal _ _ _ _ body := by
    refine ⟨_, rfl, ?_, ?_⟩
    · rw [List.length_append, List.length_replicate, Nat.add_comm]
    · show some (List.drop CRYPTO_BOX_SEALBYTES (List.replicate CRYPTO_BOX_SEALBYTES 0 ++ body)) = some body
      rw [List.drop_left' List.length_replicate]
  beforenm _ _ _ _ _ _ := ⟨_, rfl, rfl⟩
  boxEasy plain _ _ _ := by
    refine ⟨_, rfl, ?_, ?_⟩
    · rw [List.length_append, List.length_replicate, Nat.add_comm]
    · show some (List.drop CRYPTO_BOX_MACBYTES (List.replicate CRYPTO_BOX_MACBYTES 0 ++ plain)) = some plain
      rw [List.drop_left' List.length_replicate]

/-- A message each way, and the pool's is signed. -/
theorem handshake_and_channel_deliver_each_way :
    ∃ client server, client.motd = "welcome" ∧
      let s := (Links.start client server).run .transparent [.clientSend 5 [1], .serverSend 7 [2, 3] true]
      (s.run .transparent [.serverReceive]).atServer = [.ok ⟨5, [1], false⟩] ∧
        (s.run .transparent [.clientReceive]).atClient = [.ok ⟨7, [2, 3], true⟩] := by
  let keys (byte : UInt8) : KeyPairs :=
    ⟨Vector.replicate _ byte, Vector.replicate _ byte, Vector.replicate _ byte, Vector.replicate _ byte⟩
  have hkeys (byte : UInt8) : (keys byte).Generated (fun _ _ => True) (fun _ _ => True) := ⟨trivial, trivial⟩
  obtain ⟨-, -, server, -, client, -, -, -, -, hmotd, hrun⟩ :=
    @handshake_and_channel_deliver .transparent _ _ Dryoc.transparent_behaves (keys 1) (keys 2) (keys 3) (keys 4)
      (hkeys 1) (hkeys 2) (hkeys 3) (hkeys 4) 7 (Vector.replicate _ 5) (Vector.replicate _ 6) (8, 9) (.v3 none)
      "agent" "welcome" (by decide) (by decide) (by decide) (by decide)
  refine ⟨client, server, hmotd, ?_⟩
  have hdelivered := hrun [.clientSend 5 [1], .serverSend 7 [2, 3] true] (by
    intro op hop
    simp only [List.mem_cons, List.not_mem_nil, or_false] at hop
    obtain rfl | rfl := hop
    · show (5 : UInt8).toNat < 32
      decide
    · show (7 : UInt8).toNat < 32
      decide)
  exact ⟨hdelivered.atServer_all 1 (by decide), hdelivered.atClient_all 1 (by decide)⟩

end Ratum
