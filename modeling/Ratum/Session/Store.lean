import Ratum.Abw.Slots
import Ratum.Core.Maps
import Ratum.Datum.Handshake
import Ratum.Verify.Splits

/-!
# The sessions kept between connections

`prime/src/sessions.rs`: the version 3 sessions saved for resume, by the gateway's signing key, and the
parts of `prime/src/connection.rs` that start, prove and save one. A resume receives a copy of the saved
session under a new token; the random bytes of a token and of a key are arguments.
-/

namespace Ratum

def SESSION_KEEP : Duration := .fromSecs 3600

def MAX_SAVED_SESSIONS : Nat := 4096

abbrev PublicKey := Vector UInt8 32

/-- What a version 3 connection holds while it is open. -/
structure V3Session where
  token : ResumeToken
  abw : AbwSlotState

structure SavedSession where
  v3 : V3Session
  splits : DictatedSplits
  savedAt : Instant
  connectionOpenedAt : Instant

def SavedSession.expired (session : SavedSession) (now : Instant) : Bool :=
  SESSION_KEEP < now - session.savedAt

structure SessionStore where
  saved : BoundedMap PublicKey SavedSession

namespace SessionStore

def new : SessionStore := ⟨.new MAX_SAVED_SESSIONS⟩

def save (store : SessionStore) (key : PublicKey) (session : SavedSession) : SessionStore :=
  let saved := store.saved.retain fun _ s => !s.expired session.savedAt
  if (saved.get key).any fun kept => session.connectionOpenedAt < kept.connectionOpenedAt then ⟨saved⟩
  else ⟨(saved.insert key session).2⟩

/-- The saved session a token resumes. -/
def resumed (store : SessionStore) (clientSignPk : PublicKey) (presented : Option ResumeToken)
    (now : Instant) : Option SavedSession :=
  presented.bind fun presented =>
    (store.saved.get clientSignPk).filter fun saved =>
      !saved.expired now && saved.v3.token = presented

/-- The session and splits for a hello, and whether they resumed a saved session. -/
def resumeOrStart (store : SessionStore) (clientSignPk : PublicKey) (presented : Option ResumeToken)
    (now : Instant) (token : ResumeToken) (key : XorKey) : V3Session × DictatedSplits × Bool :=
  match store.resumed clientSignPk presented now with
  | some saved => (⟨token, saved.v3.abw.resume saved.savedAt⟩, saved.splits, true)
  | none => (⟨token, .start now key⟩, .empty, false)

/-- Removes the saved session the token resumed; false when none carries the token. -/
def claim (store : SessionStore) (clientSignPk : PublicKey) (presented : ResumeToken) :
    Bool × SessionStore :=
  let claimed := (store.saved.get clientSignPk).any fun s => s.v3.token = presented
  (claimed, if claimed then ⟨(store.saved.remove clientSignPk).2⟩ else store)

/-- A session held after a save is the one saved, or was held before. -/
theorem get_save {store : SessionStore} {key k : PublicKey} {session s : SavedSession}
    (h : (store.save key session).saved.get k = some s) :
    s = session ∨ store.saved.get k = some s := by
  unfold save at h
  dsimp only at h
  split at h
  · exact .inr (BoundedMap.get_retain h)
  · rcases BoundedMap.get_insert h with ⟨-, rfl⟩ | hkept
    · exact .inl rfl
    · exact .inr (BoundedMap.get_retain hkept)

theorem get_claim {store : SessionStore} {key k : PublicKey} {presented : ResumeToken}
    {s : SavedSession} (h : (store.claim key presented).2.saved.get k = some s) :
    store.saved.get k = some s := by
  unfold claim at h
  dsimp only at h
  split at h
  · exact BoundedMap.get_remove h
  · exact h

theorem resumed_spec {store : SessionStore} {clientSignPk : PublicKey}
    {presented : Option ResumeToken} {now : Instant} {s : SavedSession}
    (h : store.resumed clientSignPk presented now = some s) :
    store.saved.get clientSignPk = some s ∧ s.expired now = false := by
  unfold resumed at h
  obtain ⟨token, -, hfilter⟩ := Option.bind_eq_some_iff.mp h
  obtain ⟨hget, hkeep⟩ := Option.filter_eq_some_iff.mp hfilter
  simp only [Bool.and_eq_true, Bool.not_eq_true'] at hkeep
  exact ⟨hget, hkeep.1⟩

end SessionStore

/-! ### The session of a connection -/

/-- The fields of a `Connection` its version 3 session is kept in. -/
structure SessionConn where
  clientSignPk : PublicKey
  openedAt : Instant
  v3 : V3Session
  /-- The token of the saved session this connection holds a copy of, until `proven`. -/
  resumedFrom : Option ResumeToken
  /-- Whether a frame from the gateway has decrypted under the session keys. -/
  proven : Bool

namespace SessionConn

/-- `start_v3_session`: the connection's session and the splits restored with it. -/
def start (store : SessionStore) (clientSignPk : PublicKey) (openedAt : Instant)
    (resume : Option ResumeToken) (now : Instant) (token : ResumeToken) (key : XorKey) :
    SessionConn × DictatedSplits :=
  let (v3, splits, resumed) := store.resumeOrStart clientSignPk resume now token key
  let v3 := { v3 with abw := v3.abw.connect openedAt }
  ({ clientSignPk, openedAt, v3, resumedFrom := resume.filter fun _ => resumed, proven := false },
    splits)

def noteProven (conn : SessionConn) (store : SessionStore) : SessionConn × SessionStore :=
  if conn.proven then (conn, store)
  else
    ({ conn with proven := true, resumedFrom := none },
      match conn.resumedFrom with
      | some token => (store.claim conn.clientSignPk token).2
      | none => store)

/-- What dropping the connection does to the store. -/
def drop (conn : SessionConn) (splits : DictatedSplits) (now : Instant) (store : SessionStore) :
    SessionStore :=
  if conn.proven then
    store.save conn.clientSignPk
      { v3 := conn.v3, splits, savedAt := now, connectionOpenedAt := conn.openedAt }
  else store

end SessionConn
end Ratum
