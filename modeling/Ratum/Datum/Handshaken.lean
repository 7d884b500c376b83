import Ratum.Datum.Handshake

/-!
# What the handshake delivers

The hello is opened to what was put in it, and the response to the keys and the message of the day, where
the boxes and signatures of the keys in use behave as `dryoc` documents.
-/

namespace Ratum

/-- What `dryoc` documents of the keys it generates: a box opens to what was put in it, a signature is
verified, two parties agree on a key, and each adds the bytes it says. -/
structure Dryoc.Behaves (D : Dryoc) (signPair : SignPublicKey → SignSecretKey → Prop)
    (boxPair : BoxPublicKey → BoxSecretKey → Prop) : Prop where
  sign : ∀ pk sk, signPair pk sk → ∀ body, ∃ sig, D.cryptoSignDetached body sk = some sig ∧
    D.cryptoSignVerifyDetached sig body pk = true
  boxSeal : ∀ pk sk, boxPair pk sk → ∀ ephemeral body, ∃ sealed,
    D.cryptoBoxSeal ephemeral body pk = some sealed ∧ sealed.length = body.length + CRYPTO_BOX_SEALBYTES ∧
      D.cryptoBoxSealOpen sealed pk sk = some body
  beforenm : ∀ pk sk pk' sk', boxPair pk sk → boxPair pk' sk' → ∃ precomp,
    D.cryptoBoxBeforenm pk sk' = some precomp ∧ D.cryptoBoxBeforenm pk' sk = some precomp
  boxEasy : ∀ plain nonce precomp, plain.length ≤ MAX_PLAINTEXT_LEN → ∃ ct,
    D.cryptoBoxEasyAfternm plain nonce precomp = some ct ∧ ct.length = plain.length + CRYPTO_BOX_MACBYTES ∧
      D.cryptoBoxOpenEasyAfternm ct nonce precomp = some plain

/-- Both pairs are pairs that were generated. -/
structure KeyPairs.Generated (signPair : SignPublicKey → SignSecretKey → Prop)
    (boxPair : BoxPublicKey → BoxSecretKey → Prop) (keys : KeyPairs) : Prop where
  sign : signPair keys.signPk keys.signSk
  box : boxPair keys.boxPk keys.boxSk

/-! ### Pieces -/

theorem PublicKeys.length_toBytes (keys : PublicKeys) : keys.toBytes.length = PUBLIC_KEYS_LEN := by
  rw [toBytes, List.length_append, Vector.length_toList, Vector.length_toList]
  rfl

theorem PublicKeys.splitFrom_append (keys : PublicKeys) (rest : Bytes) :
    splitFrom (keys.toBytes ++ rest) = some (keys, rest) := by
  have hle : PUBLIC_KEYS_LEN ≤ (keys.toBytes ++ rest).length := by
    rw [List.length_append, length_toBytes]
    exact Nat.le_add_right _ _
  have hsign : (keys.toBytes ++ rest).take PUBKEY_LEN = keys.signPk.toList := by
    rw [toBytes, List.append_assoc]
    exact List.take_left' Vector.length_toList
  have hdrop : (keys.toBytes ++ rest).drop PUBKEY_LEN = keys.boxPk.toList ++ rest := by
    rw [toBytes, List.append_assoc]
    exact List.drop_left' Vector.length_toList
  have hbox : ((keys.toBytes ++ rest).drop PUBKEY_LEN).take PUBKEY_LEN = keys.boxPk.toList := by
    rw [hdrop]
    exact List.take_left' Vector.length_toList
  rw [splitFrom, dif_pos hle]
  simp only [hsign, hbox]
  rw [List.drop_left' keys.length_toBytes]
  rfl

theorem splitSigned_append (body : Bytes) (sig : Signature) :
    splitSigned (body ++ sig.toList) = .ok (body, sig) := by
  have hlength : (body ++ sig.toList).length = body.length + CRYPTO_SIGN_BYTES := by
    rw [List.length_append, Vector.length_toList]
  have hat : (body ++ sig.toList).length - CRYPTO_SIGN_BYTES = body.length := by omega
  rw [splitSigned, dif_neg (by omega)]
  simp only [hat, List.take_left', List.drop_left']
  rfl

/-- A body that is signed and sealed opens to itself, with a signature that is verified. -/
theorem openSealed_sealSigned {D : Dryoc} {signPair : SignPublicKey → SignSecretKey → Prop}
    {boxPair : BoxPublicKey → BoxSecretKey → Prop} (hD : D.Behaves signPair boxPair)
    {signPk : SignPublicKey} {signSk : SignSecretKey} (hsign : signPair signPk signSk)
    {boxPk : BoxPublicKey} {boxSk : BoxSecretKey} (hbox : boxPair boxPk boxSk) (ephemeral : BoxSecretKey)
    (body : Bytes) :
    ∃ (sealed : Bytes) (sig : Signature), sealSigned D ephemeral signSk boxPk body = .ok sealed ∧
      sealed.length = body.length + (CRYPTO_SIGN_BYTES + CRYPTO_BOX_SEALBYTES) ∧
      openSealed D boxPk boxSk sealed = .ok (body ++ sig.toList) ∧ verify D sig body signPk = .ok () := by
  obtain ⟨sig, hsig, hverify⟩ := hD.sign signPk signSk hsign body
  obtain ⟨sealed, hsealed, hlength, hopen⟩ := hD.boxSeal boxPk boxSk hbox ephemeral (body ++ sig.toList)
  rw [List.length_append, Vector.length_toList, Nat.add_assoc] at hlength
  refine ⟨sealed, sig, ?_, hlength, ?_, ?_⟩
  · simp only [sealSigned, signAppend, hsig, sealTo, hsealed, bind, Except.bind]
  · rw [openSealed, if_neg (by omega), hopen]
  · rw [verify, hverify]
    rfl

namespace Channel

theorem take_frameBytes (c : Channel) (header : FrameHeader) (body : Bytes) :
    (c.frameBytes header body).take HEADER_LEN =
      (c.txHeaderKey.mask { header with cmdLen := UInt32.ofNat body.length }).2 :=
  List.take_left' (HeaderKeyRatchet.length_mask _ _)

theorem drop_frameBytes (c : Channel) (header : FrameHeader) (body : Bytes) :
    (c.frameBytes header body).drop HEADER_LEN = body :=
  List.drop_left' (HeaderKeyRatchet.length_mask _ _)

/-- The other end of the ratchet reads the header. -/
theorem unmaskHeader_frameBytes {tx rx : Channel} (hkey : tx.txHeaderKey = rx.rxHeaderKey) {header : FrameHeader}
    {body : Bytes} (hfits : ({ header with cmdLen := UInt32.ofNat body.length } : FrameHeader).Fits) :
    rx.unmaskHeader ((tx.frameBytes header body).take HEADER_LEN) =
      ({ rx with rxHeaderKey := rx.rxHeaderKey.advance },
        { header with cmdLen := UInt32.ofNat body.length }) := by
  simp only [unmaskHeader, take_frameBytes, hkey, HeaderKeyRatchet.unmask_mask _ hfits]

end Channel

theorem toNat_cmdLen {body : Bytes} (hle : body.length ≤ MAX_CMD_LEN) :
    (UInt32.ofNat body.length).toNat = body.length := by
  have hmax : MAX_CMD_LEN = 2 ^ 22 - 1 := by decide
  exact UInt32.toNat_ofNat_of_lt' (by show _ < 2 ^ 32; omega)

/-! ### The hello -/

/-- Padding is one byte again and again and the marker is not, so no padding is read as the extension. -/
theorem readProtocolVersion_drs (protocolVersion : ProtocolVersion) (r : UInt8 × UInt8) :
    readProtocolVersion (ClientChannel.drs protocolVersion ++ ClientChannel.pad r) = .ok protocolVersion := by
  cases protocolVersion with
  | v1 =>
      have hmarker : ¬ (DRS_FLAG_AT < (ClientChannel.pad r).length ∧
          (ClientChannel.pad r).take DRS_FLAG_AT = DRS_MARKER) := by
        rintro ⟨hlength, hmarker⟩
        rw [ClientChannel.pad, List.length_replicate] at hlength
        rw [ClientChannel.pad, List.take_replicate, Nat.min_eq_left hlength.le] at hmarker
        have hfirst : r.2 = 0x44 := (List.cons.inj hmarker).1
        have hsecond : r.2 = 0x52 := (List.cons.inj (List.cons.inj hmarker).2).1
        rw [hfirst] at hsecond
        exact absurd hsecond (by decide)
      rw [ClientChannel.drs, List.nil_append, readProtocolVersion, if_neg hmarker]
  | v3 resume =>
      cases resume with
      | none =>
          have hmarker : DRS_FLAG_AT < (DRS_MARKER ++ ([0] ++ ClientChannel.pad r)).length ∧
              (DRS_MARKER ++ ([0] ++ ClientChannel.pad r)).take DRS_FLAG_AT = DRS_MARKER := by
            refine ⟨?_, List.take_left' rfl⟩
            simp only [List.length_append, List.length_cons]
            show 4 < 4 + _
            omega
          have hflag : ¬ ((DRS_MARKER ++ ([0] ++ ClientChannel.pad r)).getD DRS_FLAG_AT 0) &&&
              DRS_RESUME_PRESENT ≠ 0 := by
            show ¬ (0 : UInt8) &&& DRS_RESUME_PRESENT ≠ 0
            decide
          rw [ClientChannel.drs, List.append_assoc, readProtocolVersion, if_pos hmarker, if_neg hflag]
      | some token =>
          have hmarker : DRS_FLAG_AT <
                (DRS_MARKER ++ (DRS_RESUME_PRESENT :: (token.toList ++ ClientChannel.pad r))).length ∧
              (DRS_MARKER ++ (DRS_RESUME_PRESENT :: (token.toList ++ ClientChannel.pad r))).take DRS_FLAG_AT =
                DRS_MARKER := by
            refine ⟨?_, List.take_left' rfl⟩
            simp only [List.length_append, List.length_cons]
            show 4 < 4 + _
            omega
          have htoken : ((DRS_MARKER ++ (DRS_RESUME_PRESENT :: (token.toList ++ ClientChannel.pad r))).drop
              DRS_TOKEN_AT).take RESUME_TOKEN_LEN = token.toList :=
            List.take_left' Vector.length_toList
          have hlength : DRS_TOKEN_AT + RESUME_TOKEN_LEN ≤
              (DRS_MARKER ++ (DRS_RESUME_PRESENT :: (token.toList ++ ClientChannel.pad r))).length := by
            simp only [List.length_append, List.length_cons, Vector.length_toList]
            show 5 + 40 ≤ 4 + _
            show 5 + 40 ≤ 4 + (40 + _ + 1)
            omega
          have hflag : ((DRS_MARKER ++ (DRS_RESUME_PRESENT :: (token.toList ++ ClientChannel.pad r))).getD
              DRS_FLAG_AT 0) &&& DRS_RESUME_PRESENT ≠ 0 := by
            show DRS_RESUME_PRESENT &&& DRS_RESUME_PRESENT ≠ 0
            decide
          rw [ClientChannel.drs, List.append_assoc, List.cons_append, readProtocolVersion, if_pos hmarker,
            if_pos hflag, dif_pos hlength]
          simp only [htoken]
          rfl

/-- The user agent ends at the first zero byte, and is whole when it is no longer than the longest. -/
theorem findIdx_append_zero {text rest : Bytes} (hnul : 0 ∉ text) :
    (text ++ 0 :: rest).findIdx? (· = 0) = some text.length := by
  rw [List.findIdx?_append, List.findIdx?_eq_none_iff.mpr]
  · simp [List.findIdx?_cons]
  · intro b hb
    refine decide_eq_false ?_
    rintro rfl
    exact hnul hb

theorem length_drs_le (protocolVersion : ProtocolVersion) :
    (ClientChannel.drs protocolVersion).length ≤ DRS_TOKEN_AT + RESUME_TOKEN_LEN := by
  cases protocolVersion with
  | v1 => exact Nat.zero_le _
  | v3 resume =>
      cases resume with
      | none => decide
      | some token =>
          rw [ClientChannel.drs, List.length_append, List.length_cons, Vector.length_toList]
          decide

theorem length_pad_le (r : UInt8 × UInt8) : (ClientChannel.pad r).length ≤ MAX_HELLO_PAD_LEN := by
  rw [ClientChannel.pad, List.length_replicate]
  have hlt : r.1.toNat % MAX_HELLO_PAD_LEN < 200 := Nat.mod_lt _ (by decide)
  show _ ≤ 200
  omega

/-- The header of a handshake frame fits when its body does. -/
theorem handshakeHeader_fits {protoCmd : UInt8} (hcmd : protoCmd.toNat < 32) {body : Bytes}
    (hle : body.length ≤ MAX_CMD_LEN) :
    ({ handshakeHeader protoCmd with cmdLen := UInt32.ofNat body.length } : FrameHeader).Fits :=
  ⟨(toNat_cmdLen hle).trans_le hle, by show (0 : UInt8).toNat < 4; decide, hcmd⟩

section Hello

variable {D : Dryoc} {signPair : SignPublicKey → SignSecretKey → Prop}
  {boxPair : BoxPublicKey → BoxSecretKey → Prop}

/-- The gateway once its hello is sent. -/
def ClientChannel.afterHello (longTerm session : KeyPairs) (nk : UInt32) : ClientChannel :=
  { withKeyPairs longTerm session nk with channel := .client (.fromNk nk) (.derive nk session.signPk) }

/-- **The hello is opened to what was put in it.** -/
theorem openHello_hello (hD : D.Behaves signPair boxPair) {longTerm session pool : KeyPairs} (nk : UInt32)
    (hsign : signPair longTerm.signPk longTerm.signSk) (hbox : boxPair pool.boxPk pool.boxSk)
    (ephemeral : BoxSecretKey) (r : UInt8 × UInt8) {userAgent : String} (hnul : 0 ∉ stringBytes userAgent)
    (hle : (stringBytes userAgent).length ≤ MAX_USER_AGENT_LEN) (protocolVersion : ProtocolVersion) :
    ∃ wire : Bytes,
      (ClientChannel.withKeyPairs longTerm session nk).hello D ephemeral r pool.boxPk userAgent protocolVersion =
        .ok (ClientChannel.afterHello longTerm session nk, wire) ∧
      (HeaderKeyRatchet.initial.unmask (wire.take HEADER_LEN)).2.cmdLen.toNat = (wire.drop HEADER_LEN).length ∧
      openHello D (HeaderKeyRatchet.initial.unmask (wire.take HEADER_LEN)).2 (wire.drop HEADER_LEN) pool =
        .ok { client := longTerm.public, session := session.public, userAgent, nk, protocolVersion } := by
  obtain ⟨sealed, sig, hsealed, hlength, hopen, hverify⟩ := openSealed_sealSigned hD hsign hbox ephemeral
    ((ClientChannel.withKeyPairs longTerm session nk).helloBody userAgent protocolVersion r)
  have hbody : (ClientChannel.withKeyPairs longTerm session nk).helloBody userAgent protocolVersion r =
      longTerm.public.toBytes ++ (session.public.toBytes ++ (stringBytes userAgent ++ (0 :: STRUCT_END ::
        (leBytes 4 nk.toNat ++ (ClientChannel.drs protocolVersion ++ ClientChannel.pad r))))) := rfl
  change verify D sig _ longTerm.public.signPk = .ok () at hverify
  have hfits : sealed.length ≤ MAX_CMD_LEN := by
    have hdrs : _ ≤ 45 := length_drs_le protocolVersion
    have hpad : _ ≤ 200 := length_pad_le r
    have hagent : _ ≤ 256 := hle
    have hkeys (keys : PublicKeys) : keys.toBytes.length = 64 := keys.length_toBytes
    have hmax : MAX_CMD_LEN = 4194303 := by decide
    simp only [hbody, List.length_append, List.length_cons, length_leBytes, hkeys,
      CRYPTO_SIGN_BYTES, CRYPTO_BOX_SEALBYTES] at hlength
    omega
  have hheader := @handshakeHeader_fits HELLO_OR_PING (by decide) sealed hfits
  have hunmask : (HeaderKeyRatchet.initial.unmask ((Channel.beforeHandshake.frameBytes
      (handshakeHeader HELLO_OR_PING) sealed).take HEADER_LEN)).2 =
        { handshakeHeader HELLO_OR_PING with cmdLen := UInt32.ofNat sealed.length } := by
    rw [Channel.take_frameBytes]
    exact congrArg Prod.snd (HeaderKeyRatchet.unmask_mask .initial hheader)
  refine ⟨Channel.beforeHandshake.frameBytes (handshakeHeader HELLO_OR_PING) sealed, ?_, ?_, ?_⟩
  · have hsk : (ClientChannel.withKeyPairs longTerm session nk).longTermKeys.signSk = longTerm.signSk := rfl
    simp only [ClientChannel.hello, hsk, hsealed, Channel.frame_eq, bind, Except.bind, pure, Except.pure]
    rfl
  · rw [hunmask, Channel.drop_frameBytes]
    exact toNat_cmdLen hfits
  · have hguard : ¬ (HELLO_OR_PING ≠ HELLO_OR_PING ∨ true = false ∨ true = false ∨ false = true) := by decide
    have hfind := @findIdx_append_zero (stringBytes userAgent)
      (STRUCT_END :: (leBytes 4 nk.toNat ++ (ClientChannel.drs protocolVersion ++ ClientChannel.pad r))) hnul
    have hagent : fromUtf8Lossy ((stringBytes userAgent ++ 0 :: STRUCT_END :: (leBytes 4 nk.toNat ++
        (ClientChannel.drs protocolVersion ++ ClientChannel.pad r))).take
          (min (stringBytes userAgent).length MAX_USER_AGENT_LEN)) = userAgent := by
      rw [Nat.min_eq_left hle, List.take_left' rfl, fromUtf8Lossy_stringBytes]
    have hafter : (stringBytes userAgent ++ 0 :: STRUCT_END :: (leBytes 4 nk.toNat ++
        (ClientChannel.drs protocolVersion ++ ClientChannel.pad r))).drop ((stringBytes userAgent).length + 1) =
          STRUCT_END :: (leBytes 4 nk.toNat ++ (ClientChannel.drs protocolVersion ++ ClientChannel.pad r)) := by
      rw [← List.drop_drop, List.drop_left' rfl]
      rfl
    have hlong : ¬ (STRUCT_END :: (leBytes 4 nk.toNat ++ (ClientChannel.drs protocolVersion ++
        ClientChannel.pad r))).length < AFTER_UA_LEN := by
      simp only [List.length_cons, List.length_append, length_leBytes, AFTER_UA_LEN]
      omega
    have hend : ¬ (STRUCT_END :: (leBytes 4 nk.toNat ++ (ClientChannel.drs protocolVersion ++
        ClientChannel.pad r))).headD 0 ≠ STRUCT_END := not_not.mpr rfl
    have hnk : UInt32.ofNat (leNat (((STRUCT_END :: (leBytes 4 nk.toNat ++ (ClientChannel.drs protocolVersion ++
        ClientChannel.pad r))).drop 1).take 4)) = nk := by
      rw [List.drop_succ_cons, List.drop_zero, List.take_left' (length_leBytes _ _)]
      exact ofNat_leNat_leBytes nk
    have htail : (STRUCT_END :: (leBytes 4 nk.toNat ++ (ClientChannel.drs protocolVersion ++
        ClientChannel.pad r))).drop AFTER_UA_LEN = ClientChannel.drs protocolVersion ++ ClientChannel.pad r :=
      List.drop_left' (length_leBytes _ _)
    rw [hbody] at hopen hverify
    rw [hunmask, Channel.drop_frameBytes]
    simp only [openHello, handshakeHeader, FrameHeader.default, hopen, bind, Except.bind, if_neg hguard,
      splitSigned_append, PublicKeys.splitFrom_append, hverify, hfind, hagent, hafter, if_neg hlong, if_neg hend,
      hnk, htail, readProtocolVersion_drs, pure, Except.pure]

/-- The keys the two ends hold once the handshake is done. -/
structure InStep (signPair : SignPublicKey → SignSecretKey → Prop) (client : ClientChannel)
    (server : ServerChannel) (precomp : PrecompKey) : Prop where
  clientPrecomp : client.channel.precomp = some precomp
  serverPrecomp : server.channel.precomp = some precomp
  up : client.channel.txNonce = server.channel.rxNonce ∧ client.channel.txHeaderKey = server.channel.rxHeaderKey
  down : server.channel.txNonce = client.channel.rxNonce ∧ server.channel.txHeaderKey = client.channel.rxHeaderKey
  signing : ∃ pk, client.poolSessionSignPk = some pk ∧ signPair pk server.sessionSignSk

theorem takeWhile_append_zero {text : Bytes} (hnul : 0 ∉ text) :
    (text ++ [0]).takeWhile (· ≠ 0) = text := by
  have hall : ∀ b ∈ text, decide (b ≠ 0) = true := fun b hb => decide_eq_true fun heq => hnul (heq ▸ hb)
  rw [List.takeWhile_append_of_pos hall]
  simp

/-- A response signed and sealed with the client's keys in it is read to what follows them. -/
theorem readResponse_eq {c : ClientChannel} {cmdLen : UInt32} {sealed : Bytes} {poolSession : PublicKeys}
    {motd : Bytes} {sig : Signature} {poolSignPk : SignPublicKey}
    (hopen : openSealed D c.sessionKeys.boxPk c.sessionKeys.boxSk sealed =
      .ok (c.longTermKeys.public.toBytes ++ (c.sessionKeys.public.toBytes ++ (poolSession.toBytes ++ motd)) ++
        sig.toList))
    (hverify : verify D sig (c.longTermKeys.public.toBytes ++ (c.sessionKeys.public.toBytes ++
      (poolSession.toBytes ++ motd))) poolSignPk = .ok ()) :
    c.readResponse D { handshakeHeader HANDSHAKE_RESPONSE with cmdLen } sealed poolSignPk =
      .ok (poolSession, motd) := by
  have hguard : ¬ (HANDSHAKE_RESPONSE ≠ HANDSHAKE_RESPONSE ∨ true = false ∨ true = false) := by decide
  have hecho : ¬ (c.longTermKeys.public ≠ c.longTermKeys.public ∨ c.sessionKeys.public ≠ c.sessionKeys.public) := by
    rintro (h | h)
    · exact h rfl
    · exact h rfl
  simp only [ClientChannel.readResponse, handshakeHeader, FrameHeader.default, if_neg hguard, bind, Except.bind,
    hopen, splitSigned_append, PublicKeys.splitFrom_append, hverify, if_neg hecho, pure, Except.pure]

/-- **The response is read to the message of the day**, and leaves the two ends in step. -/
theorem readHandshakeResponse_accept (hD : D.Behaves signPair boxPair)
    {longTerm session pool poolSession : KeyPairs} {hello : Hello} (hclient : hello.client = longTerm.public)
    (hsession : hello.session = session.public) (hsessionBox : boxPair session.boxPk session.boxSk)
    (hpool : signPair pool.signPk pool.signSk) (hpoolSession : poolSession.Generated signPair boxPair)
    (ephemeral : BoxSecretKey) {motd : String} (hnul : 0 ∉ stringBytes motd)
    (hle : (stringBytes motd).length ≤ MAX_MOTD_LEN) :
    ∃ (wire : Bytes) (server : ServerChannel) (client : ClientChannel) (precomp : PrecompKey),
      accept D ephemeral poolSession hello pool motd = .ok (wire, server) ∧ server.hello = hello ∧
      ((ClientChannel.afterHello longTerm session hello.nk).unmaskHeader (wire.take HEADER_LEN)).2.cmdLen.toNat =
        (wire.drop HEADER_LEN).length ∧
      ((ClientChannel.afterHello longTerm session hello.nk).unmaskHeader (wire.take HEADER_LEN)).1.readHandshakeResponse
          D ((ClientChannel.afterHello longTerm session hello.nk).unmaskHeader (wire.take HEADER_LEN)).2
          (wire.drop HEADER_LEN) pool.signPk = (client, .ok ()) ∧
      client.motd = motd ∧ InStep signPair client server precomp := by
  have hbody : responseBody hello poolSession.public motd = longTerm.public.toBytes ++
      (session.public.toBytes ++ (poolSession.public.toBytes ++ (stringBytes motd ++ [0]))) := by
    rw [responseBody, hclient, hsession, List.take_of_length_le hle]
  obtain ⟨sealed, sig, hsealed, hlength, hopen, hverify⟩ := openSealed_sealSigned hD hpool hsessionBox ephemeral
    (responseBody hello poolSession.public motd)
  obtain ⟨precomp, hprecomp, hprecomp'⟩ := hD.beforenm _ _ _ _ hsessionBox hpoolSession.box
  have hfits : sealed.length ≤ MAX_CMD_LEN := by
    have hkeys (keys : PublicKeys) : keys.toBytes.length = 64 := keys.length_toBytes
    have hmax : MAX_CMD_LEN = 4194303 := by decide
    change _ ≤ 511 at hle
    simp only [hbody, List.length_append, List.length_cons, List.length_nil, hkeys, CRYPTO_SIGN_BYTES,
      CRYPTO_BOX_SEALBYTES] at hlength
    omega
  have hheader := @handshakeHeader_fits HANDSHAKE_RESPONSE (by decide) sealed hfits
  have hboxPk : hello.session.boxPk = session.boxPk := congrArg PublicKeys.boxPk hsession
  have hsignPk : hello.session.signPk = session.signPk := congrArg PublicKeys.signPk hsession
  generalize hkeys : HeaderKeys.fromNk hello.nk = keys
  generalize hnonces : SessionNonces.derive hello.nk session.signPk = nonces
  have hafter : (ClientChannel.afterHello longTerm session hello.nk).channel = Channel.client keys nonces := by
    rw [← hkeys, ← hnonces]
    rfl
  have hunmask : (ClientChannel.afterHello longTerm session hello.nk).unmaskHeader
      (((Channel.server keys nonces precomp).frameBytes (handshakeHeader HANDSHAKE_RESPONSE) sealed).take HEADER_LEN) =
        ({ ClientChannel.afterHello longTerm session hello.nk with
            channel := { Channel.client keys nonces with
              rxHeaderKey := HeaderKeyRatchet.advance ⟨keys.serverToClient⟩ } },
          { handshakeHeader HANDSHAKE_RESPONSE with cmdLen := UInt32.ofNat sealed.length }) := by
    have hkey : (Channel.server keys nonces precomp).txHeaderKey = (Channel.client keys nonces).rxHeaderKey := rfl
    simp only [ClientChannel.unmaskHeader, hafter, Channel.unmaskHeader_frameBytes hkey hheader]
    rfl
  rw [hbody] at hopen hverify
  refine ⟨(Channel.server keys nonces precomp).frameBytes (handshakeHeader HANDSHAKE_RESPONSE) sealed,
    ⟨{ Channel.server keys nonces precomp with txHeaderKey := HeaderKeyRatchet.advance ⟨keys.serverToClient⟩ },
      poolSession.signSk, hello⟩,
    { ClientChannel.afterHello longTerm session hello.nk with
      channel := Channel.setPrecomp { Channel.client keys nonces with
        rxHeaderKey := HeaderKeyRatchet.advance ⟨keys.serverToClient⟩ } precomp
      poolSessionSignPk := some poolSession.signPk
      motd }, precomp, ?_, rfl, ?_, ?_, rfl, ?_⟩
  · have hsmall : ¬ MAX_CMD_LEN < sealed.length := not_lt.mpr hfits
    rw [← hboxPk] at hsealed hprecomp
    simp only [accept, hsealed, bind, Except.bind, if_neg hsmall, hprecomp, hkeys, hsignPk, hnonces, Channel.frame_eq]
    rfl
  · rw [hunmask, Channel.drop_frameBytes]
    exact toNat_cmdLen hfits
  · rw [hunmask, Channel.drop_frameBytes]
    have htext : fromUtf8Lossy ((stringBytes motd ++ [0]).takeWhile (· ≠ 0)) = motd := by
      rw [takeWhile_append_zero hnul, fromUtf8Lossy_stringBytes]
    have hread := @readResponse_eq D { ClientChannel.afterHello longTerm session hello.nk with
      channel := { Channel.client keys nonces with
        rxHeaderKey := HeaderKeyRatchet.advance ⟨keys.serverToClient⟩ } } (UInt32.ofNat sealed.length) sealed
      poolSession.public _ sig pool.signPk hopen hverify
    have hbox : D.cryptoBoxBeforenm poolSession.public.boxPk
      (ClientChannel.afterHello longTerm session hello.nk).sessionKeys.boxSk = some precomp := hprecomp'
    simp only [ClientChannel.readHandshakeResponse, hread, htext, hbox]
    rfl
  · exact ⟨rfl, rfl, ⟨rfl, rfl⟩, ⟨rfl, rfl⟩, _, rfl, hpoolSession.sign⟩

end Hello

end Ratum
