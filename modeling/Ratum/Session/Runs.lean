import Ratum.Base.Lts
import Ratum.Session.Store

/-!
# Runs of the pool's sessions

Any number of version 3 connections over one session store: hellos presenting any token, frames that
prove a connection, shares verified under a slot's key and credited at once or after being held,
rotations, reveals and closes, in any order. A key drawn is one not drawn before.
-/

namespace Ratum

/-- An open connection: its session, and the keys the shares it holds were verified under. -/
structure OpenConn where
  session : SessionConn
  held : List XorKey

def OpenConn.abw (conn : OpenConn) : AbwSlotState := conn.session.v3.abw

def OpenConn.setAbw (conn : OpenConn) (abw : AbwSlotState) : OpenConn :=
  { conn with session := { conn.session with v3 := { conn.session.v3 with abw } } }

structure PoolSessions where
  store : SessionStore
  clock : Instant
  conns : Nat → Option OpenConn
  /-- The keys sent in a reveal. -/
  disclosed : List XorKey
  /-- The keys drawn. -/
  drawn : List XorKey

namespace PoolSessions

def setConn (st : PoolSessions) (i : Nat) (conn : Option OpenConn) : PoolSessions :=
  { st with conns := Function.update st.conns i conn }

@[simp] theorem conns_setConn_self (st : PoolSessions) (i : Nat) (conn : Option OpenConn) :
    (st.setConn i conn).conns i = conn := Function.update_self ..

theorem conns_setConn_of_ne {st : PoolSessions} {i j : Nat} (h : j ≠ i) (conn : Option OpenConn) :
    (st.setConn i conn).conns j = st.conns j := Function.update_of_ne h ..

def disclose (st : PoolSessions) (reveals : List PendingReveal) : PoolSessions :=
  { st with disclosed := (reveals.map fun reveal => reveal.payload.xorKey) ++ st.disclosed }

def empty : PoolSessions := ⟨.new, 0, fun _ => none, [], []⟩

end PoolSessions

inductive SessionEvent
  | opened (i : Nat)
  | frame (i : Nat)
  /-- A share verified under a secret key is credited. -/
  | credited (i : Nat) (key : XorKey)
  | share (i : Nat)
  | noted (i : Nat)
  | revealed (i : Nat) (now : Instant) (reveals : List PendingReveal)
  | closed (i : Nat)

/-- A step of one connection. A share comes in a frame, so on a proven connection; a rotation or a reveal
is made while no share is held. -/
inductive SessionStep (xorKeyHash : XorKey → Hash) :
    PoolSessions → SessionEvent → PoolSessions → Prop
  | hello {st : PoolSessions} {i : Nat} (clientSignPk : PublicKey) (openedAt now : Instant)
      (resume : Option ResumeToken) (token : ResumeToken) (key : XorKey) (hfree : st.conns i = none)
      (hnow : st.clock ≤ now) (hdrawn : key ∉ st.drawn) :
      SessionStep xorKeyHash st (.opened i)
        ({ st with clock := now, drawn := key :: st.drawn }.setConn i
          (some ⟨(SessionConn.start st.store clientSignPk openedAt resume now token key).1, []⟩))
  | frame {st : PoolSessions} {i : Nat} {conn : OpenConn} (hconn : st.conns i = some conn) :
      SessionStep xorKeyHash st (.frame i)
        ({ st with store := (conn.session.noteProven st.store).2 }.setConn i
          (some { conn with session := (conn.session.noteProven st.store).1 }))
  | hold {st : PoolSessions} {i : Nat} {conn : OpenConn} {key : XorKey} (slot : UInt8)
      (hconn : st.conns i = some conn) (hproven : conn.session.proven = true)
      (hkey : conn.abw.keyFor slot = some (key, .secret)) :
      SessionStep xorKeyHash st (.share i) (st.setConn i (some { conn with held := key :: conn.held }))
  | credit {st : PoolSessions} {i : Nat} {conn : OpenConn} {key : XorKey} (slot : UInt8)
      (hconn : st.conns i = some conn) (hproven : conn.session.proven = true)
      (hkey : conn.abw.keyFor slot = some (key, .secret)) :
      SessionStep xorKeyHash st (.credited i key)
        (st.setConn i (some (conn.setAbw conn.abw.noteShare)))
  | creditHeld {st : PoolSessions} {i : Nat} {conn : OpenConn} {key : XorKey}
      (hconn : st.conns i = some conn) (hheld : key ∈ conn.held) :
      SessionStep xorKeyHash st (.credited i key)
        (st.setConn i (some ({ conn with held := conn.held.erase key }.setAbw conn.abw.noteShare)))
  | refuseHeld {st : PoolSessions} {i : Nat} {conn : OpenConn} (key : XorKey)
      (hconn : st.conns i = some conn) :
      SessionStep xorKeyHash st (.share i)
        (st.setConn i (some { conn with held := conn.held.erase key }))
  | noteTip {st : PoolSessions} {i : Nat} {conn : OpenConn} (now : Instant)
      (hconn : st.conns i = some conn) (hnow : st.clock ≤ now) :
      SessionStep xorKeyHash st (.noted i)
        ({ st with clock := now }.setConn i (some (conn.setAbw (conn.abw.noteTip now).2)))
  | notePublished {st : PoolSessions} {i : Nat} {conn : OpenConn} (slot : UInt8)
      (hconn : st.conns i = some conn) :
      SessionStep xorKeyHash st (.noted i)
        (st.setConn i (some (conn.setAbw (conn.abw.notePublished slot).2)))
  | rotate {st : PoolSessions} {i : Nat} {conn : OpenConn} {why : String} (dueAt now : Instant)
      (key : XorKey) (hconn : st.conns i = some conn) (hheld : conn.held = []) (hdueAt : st.clock ≤ dueAt)
      (hdue : conn.abw.rotationDue dueAt = some why) (hnow : dueAt ≤ now) (hdrawn : key ∉ st.drawn) :
      SessionStep xorKeyHash st (.revealed i now (conn.abw.rotate xorKeyHash now key).1.reveals)
        (({ st with clock := now, drawn := key :: st.drawn }.disclose
          (conn.abw.rotate xorKeyHash now key).1.reveals).setConn i
            (some (conn.setAbw (conn.abw.rotate xorKeyHash now key).2)))
  | revealsDue {st : PoolSessions} {i : Nat} {conn : OpenConn} (now : Instant)
      (hconn : st.conns i = some conn) (hheld : conn.held = []) (hnow : st.clock ≤ now) :
      SessionStep xorKeyHash st (.revealed i now (conn.abw.revealsDue now).1)
        (({ st with clock := now }.disclose (conn.abw.revealsDue now).1).setConn i
          (some (conn.setAbw (conn.abw.revealsDue now).2)))
  | close {st : PoolSessions} {i : Nat} {conn : OpenConn} (now : Instant) (splits : DictatedSplits)
      (hconn : st.conns i = some conn) (hnow : st.clock ≤ now) :
      SessionStep xorKeyHash st (.closed i)
        ({ st with clock := now, store := conn.session.drop splits now st.store }.setConn i none)

def sessionRuns (xorKeyHash : XorKey → Hash) : Lts PoolSessions SessionEvent where
  init st := st = .empty
  step := SessionStep xorKeyHash

/-- A slot holds the key as the pool's secret. -/
def AbwSlotState.Hides (abw : AbwSlotState) (key : XorKey) : Prop :=
  ∃ slot, (abw.slots slot).secretKey = some key

/-- No open connection but one holds the key as a secret, and no saved session that can be resumed. -/
def PoolSessions.Alone (st : PoolSessions) (i : Nat) (now : Instant) (key : XorKey) : Prop :=
  (∀ j conn, j ≠ i → st.conns j = some conn → ¬ conn.abw.Hides key) ∧
    ∀ clientSignPk saved, st.store.saved.get clientSignPk = some saved →
      saved.expired now = false → ¬ saved.v3.abw.Hides key

/-- Each key a step reveals is a secret of the revealing connection alone. -/
def RevealsAlone (st : PoolSessions) : SessionEvent → Prop
  | .revealed i now reveals => ∀ reveal ∈ reveals, st.Alone i now reveal.payload.xorKey
  | _ => True

end Ratum
