import Ratum.Datum.Channel
import Ratum.Datum.Nonces

/-!
# No nonce is used twice

The two sides of a session encrypt under one key, each from its own start. Whatever is sent, refused and
received on either side, no two messages are encrypted under one nonce.
-/

namespace Ratum

/-- What is done to one side's channel. -/
inductive ChannelOp
  | setPrecomp (precomp : PrecompKey)
  | encrypt (protoCmd : UInt8) (payload : Bytes) (signWith : Option SignSecretKey)
  | unmaskHeader (bytes : Bytes)
  | decrypt (header : FrameHeader) (ciphertext : Bytes) (verifyWith : Option SignPublicKey)

/-- One side, and the nonces it has encrypted under. -/
structure ChannelSide where
  channel : Channel
  used : List Nonce

namespace ChannelSide

variable (D : Dryoc)

def step (s : ChannelSide) : ChannelOp → ChannelSide
  | .setPrecomp precomp => { s with channel := s.channel.setPrecomp precomp }
  | .encrypt protoCmd payload signWith =>
      match s.channel.encrypt D protoCmd payload signWith with
      | .ok (channel, _) => ⟨channel, s.used ++ [s.channel.txNonce]⟩
      | .error _ => s
  | .unmaskHeader bytes => { s with channel := (s.channel.unmaskHeader bytes).1 }
  | .decrypt header ciphertext verifyWith =>
      { s with channel := (s.channel.decrypt D header ciphertext verifyWith).1 }

/-- The side has used the nonces from its start up to the next one. -/
structure Counts (start : Nonce) (s : ChannelSide) : Prop where
  used : s.used = (List.range s.used.length).map start.after
  txNonce : s.channel.txNonce = start.after s.used.length

variable {D}

theorem unmaskHeader_txNonce (c : Channel) (bytes : Bytes) : (c.unmaskHeader bytes).1.txNonce = c.txNonce := by
  have hset (ratchet : HeaderKeyRatchet) : { c with rxHeaderKey := ratchet }.txNonce = c.txNonce := rfl
  exact hset (c.rxHeaderKey.unmask bytes).1

theorem decrypt_txNonce (c : Channel) (header : FrameHeader) (ciphertext : Bytes)
    (verifyWith : Option SignPublicKey) : (c.decrypt D header ciphertext verifyWith).1.txNonce = c.txNonce := by
  unfold Channel.decrypt
  split
  · rfl
  · split
    · rfl
    · split
      · rfl
      · have hset (nonce : Nonce) : { c with rxNonce := nonce }.txNonce = c.txNonce := rfl
        exact hset (incrementNonce c.rxNonce)

theorem Counts.of_txNonce {start : Nonce} {s : ChannelSide} (hs : Counts start s) {channel : Channel}
    (htx : channel.txNonce = s.channel.txNonce) : Counts start { s with channel } :=
  ⟨hs.used, htx.trans hs.txNonce⟩

/-- A message takes the next nonce, and nothing else takes one. -/
theorem Counts.step {start : Nonce} {s : ChannelSide} (hs : Counts start s) (op : ChannelOp) :
    Counts start (s.step D op) := by
  cases op with
  | setPrecomp precomp => exact hs.of_txNonce rfl
  | unmaskHeader bytes => exact hs.of_txNonce (unmaskHeader_txNonce s.channel bytes)
  | decrypt header ciphertext verifyWith =>
      exact hs.of_txNonce (decrypt_txNonce s.channel header ciphertext verifyWith)
  | encrypt protoCmd payload signWith =>
      unfold ChannelSide.step
      dsimp only
      split
      next channel bytes hencrypt =>
        obtain ⟨precomp, plain, ct, -, -, -, -, rfl, -⟩ := Channel.encrypt_ok D hencrypt
        have hlength : (s.used ++ [s.channel.txNonce]).length = s.used.length + 1 := List.length_append
        refine ⟨?_, ?_⟩
        · show s.used ++ [s.channel.txNonce] = _
          rw [hlength, List.range_succ, List.map_append, List.map_singleton, ← hs.used, hs.txNonce]
        · show incrementNonce s.channel.txNonce = _
          rw [hlength, hs.txNonce, Nonce.after_succ]
      next => exact hs

theorem Counts.nodup {start : Nonce} {s : ChannelSide} (hs : Counts start s)
    (hshort : s.used.length ≤ Nonce.RANGE) : s.used.Nodup := by
  rw [hs.used]
  refine List.Nodup.map_on ?_ List.nodup_range
  intro i hi j hj heq
  exact Nonce.after_inj (lt_of_lt_of_le (List.mem_range.mp hi) hshort)
    (lt_of_lt_of_le (List.mem_range.mp hj) hshort) heq

end ChannelSide

/-! ### The two sides -/

inductive Side
  | client
  | server
  deriving DecidableEq

structure ChannelPair where
  client : ChannelSide
  server : ChannelSide

namespace ChannelPair

variable (D : Dryoc)

def step (s : ChannelPair) : Side × ChannelOp → ChannelPair
  | (.client, op) => { s with client := s.client.step D op }
  | (.server, op) => { s with server := s.server.step D op }

def run (s : ChannelPair) (ops : List (Side × ChannelOp)) : ChannelPair := ops.foldl (step D) s

/-- The channels both sides derive from one `nk` and one session signing key. -/
def start (nk : UInt32) (sessionSignPk : SignPublicKey) (precomp : PrecompKey) : ChannelPair :=
  let keys := HeaderKeys.fromNk nk
  let nonces := SessionNonces.derive nk sessionSignPk
  ⟨⟨Channel.client keys nonces, []⟩, ⟨Channel.server keys nonces precomp, []⟩⟩

variable {D}

theorem run_counts (nk : UInt32) (sessionSignPk : SignPublicKey) {s : ChannelPair}
    (hclient : s.client.Counts (SessionNonces.derive nk sessionSignPk).clientSender)
    (hserver : s.server.Counts (SessionNonces.derive nk sessionSignPk).clientReceiver)
    (ops : List (Side × ChannelOp)) :
    (s.run D ops).client.Counts (SessionNonces.derive nk sessionSignPk).clientSender ∧
      (s.run D ops).server.Counts (SessionNonces.derive nk sessionSignPk).clientReceiver := by
  induction ops generalizing s with
  | nil => exact ⟨hclient, hserver⟩
  | cons op ops ih =>
      obtain ⟨side, op⟩ := op
      cases side with
      | client => exact ih (hclient.step op) hserver
      | server => exact ih hclient (hserver.step op)

end ChannelPair

/-- **No nonce is used twice** on a session, within a side or between the two, while each side has sent
fewer than `2 ^ 160` messages. -/
theorem channel_nonces_distinct (D : Dryoc) (nk : UInt32) (sessionSignPk : SignPublicKey)
    (precomp : PrecompKey) (ops : List (Side × ChannelOp))
    (hclient : ((ChannelPair.start nk sessionSignPk precomp).run D ops).client.used.length < 2 ^ 160)
    (hserver : ((ChannelPair.start nk sessionSignPk precomp).run D ops).server.used.length < 2 ^ 160) :
    (((ChannelPair.start nk sessionSignPk precomp).run D ops).client.used ++
      ((ChannelPair.start nk sessionSignPk precomp).run D ops).server.used).Nodup := by
  obtain ⟨hc, hs⟩ := @ChannelPair.run_counts D nk sessionSignPk (ChannelPair.start nk sessionSignPk precomp)
    ⟨rfl, rfl⟩ ⟨rfl, rfl⟩ ops
  generalize (ChannelPair.start nk sessionSignPk precomp).run D ops = s at *
  have hrange : 2 ^ 160 ≤ Nonce.RANGE := Nat.pow_le_pow_right (by decide) (by decide)
  refine List.nodup_append.mpr ⟨hc.nodup (hclient.le.trans hrange), hs.nodup (hserver.le.trans hrange), ?_⟩
  intro a ha b hb
  rw [hc.used] at ha
  rw [hs.used] at hb
  obtain ⟨i, hi, rfl⟩ := List.mem_map.mp ha
  obtain ⟨j, hj, rfl⟩ := List.mem_map.mp hb
  exact SessionNonces.after_ne nk sessionSignPk ((List.mem_range.mp hi).trans hclient)
    ((List.mem_range.mp hj).trans hserver)

/-- A message before the channel is refused, and the three sent after it have a nonce each. -/
theorem channel_nonces_distinct_three :
    let key : PrecompKey := Vector.replicate _ 0
    let s := (ChannelPair.start 7 (Vector.replicate _ 1) key).run Dryoc.transparent
      [(.client, .encrypt 5 [1] none), (.client, .setPrecomp key), (.client, .encrypt 5 [1] none),
        (.server, .encrypt 5 [] (some (Vector.replicate _ 0))), (.client, .encrypt 5 [1] none)]
    (s.client.used.length = 2 ∧ s.server.used.length = 1) ∧ (s.client.used ++ s.server.used).Nodup := by
  intro key s
  have hclient : s.client.used.length = 2 := by decide +kernel
  have hserver : s.server.used.length = 1 := by decide +kernel
  exact ⟨⟨hclient, hserver⟩, channel_nonces_distinct _ _ _ _ _ (hclient ▸ by decide) (hserver ▸ by decide)⟩

end Ratum
