import Ratum.Connection.Released

/-!
# A connection dropped

Dropping a connection releases the claims of the shares it holds. The shares `release_held` moved out of them
are not among these: when a write fails while it settles one of them, those after it lose their claims. Where
no such share claimed its hash, nothing a dropped connection claimed stays held unanswered.
-/

namespace Ratum

section Runs

variable {ι : Type} {addressScript : AddressScript} {server : ShareServer ι}

/-- What holds of the connections that were dropped, wherever a run has come to. -/
structure ShareServer.DropsClaims (server : ShareServer ι) : Prop where
  /-- A connection gone has no claim open. -/
  dropped : ∀ c ended, (server.threads c).program = .done ended → (server.threads c).closing = true →
    (server.threads c).claims = []
  /-- A hash is held for a share recorded, for one whose answer was decided, or for one of a connection that is
  not gone. -/
  held : ∀ hash, server.accepted.contains hash → hash ∈ server.ends.recorded ∨ hash ∈ server.ends.assigned ∨
    hash ∈ server.ends.left ∨ ∃ c, hash ∈ (server.threads c).claims ∧ hash ∈ (server.threads c).program.unanswered

theorem ShareServer.Accounted.dropsClaims {strict : Prop} (h : server.Accounted addressScript strict True) :
    server.DropsClaims := by
  refine ⟨fun c ended hat hclosed => ?_, fun hash hheld => ?_⟩
  · exact ((ShareThread.ends_of_keeps (h.threads c) hat).closed hclosed).2 trivial
  · obtain (hrecorded | hassigned | hleft | hlost) | ⟨c, hclaim⟩ := h.held hash hheld
    · exact .inl hrecorded
    · exact .inr (.inl hassigned)
    · exact .inr (.inr (.inl hleft))
    · rw [h.lost trivial] at hlost
      cases hlost
    · exact .inr (.inr (.inr ⟨c, hclaim, ShareThread.claims_subset_unanswered (h.threads c) hclaim⟩))

/-- **A dropped connection leaves no claim of a share unanswered**, in every run that drops none with a share
released that claimed its hash. -/
theorem dropped_connection_leaves_no_claim [DecidableEq ι] {H : Hashing} {trace : List (ShareEvent ι)}
    (hrun : ((sharing H addressScript).restrict
      fun (server : ShareServer ι) event => event.DropsSettled server).Run trace server) :
    server.DropsClaims := by
  have hfits : ((sharing H addressScript).restrict fun (server : ShareServer ι) event =>
      event.Fits addressScript False True server).Run trace server :=
    hrun.mono fun _ _ hsettled => ⟨False.elim, fun _ => hsettled⟩
  exact (accounted_of_run hfits).dropsClaims

end Runs

/-! ### A write that fails while shares are released -/

namespace ShareServer

variable {ι : Type} {server : ShareServer ι} {c : ι} {H : Hashing} {addressScript : AddressScript}
  {allowed : ShareServer ι → ShareEvent ι → Prop} {trace : List (ShareEvent ι)}

/-- Whether the connection is between two handlers, the last of which did not fail. -/
def resting (server : ShareServer ι) (c : ι) : Bool :=
  match (server.threads c).program with
  | .done (.ok _, _) => !(server.threads c).closing
  | _ => false

/-- Whether a handler of the connection has ended. -/
def ended (server : ShareServer ι) (c : ι) : Bool :=
  match (server.threads c).program with
  | .done _ => true
  | .call .. => false

theorem conn_of_resting (hrests : server.resting c = true) :
    ∃ conn, (server.threads c).program = .done (.ok (), conn) ∧ (server.threads c).closing = false := by
  unfold resting at hrests
  split at hrests
  · rename_i conn hat
    exact ⟨conn, hat, by simpa using hrests⟩
  · cases hrests

theorem ended_of_ended (hended : server.ended c = true) : ∃ ended, (server.threads c).program = .done ended := by
  unfold ended at hended
  split at hended
  · exact ⟨_, ‹_›⟩
  · cases hended

variable [DecidableEq ι]

/-- The connection's thread goes on with another handler. -/
def handle (server : ShareServer ι) (c : ι) (handler : ShareHandler Unit) : ShareServer ι :=
  match (server.threads c).program with
  | .done (_, conn) => server.move c (handler conn)
  | .call .. => server

/-- The connection is dropped. -/
def dropConnection (server : ShareServer ι) (c : ι) : ShareServer ι :=
  match (server.threads c).program with
  | .done (_, conn) =>
      server.setThread c { server.threads c with program := Connection.drop conn, closing := true }
  | .call .. => server

theorem run_handle (hrun : ((sharing H addressScript).restrict allowed).Run trace server)
    (c : ι) (hrests : server.resting c = true) (hquiet : ∀ server, allowed server .quiet) (handler : ShareHandler Unit)
    (hstep : ∀ conn, (server.threads c).program = .done (.ok (), conn) → (server.threads c).closing = false →
      ShareStep H addressScript server .quiet (server.move c (handler conn))) :
    ∃ trace, ((sharing H addressScript).restrict allowed).Run trace (server.handle c handler) := by
  obtain ⟨conn, hat, hopen⟩ := conn_of_resting hrests
  refine ⟨_, hrun.next ⟨hquiet server, ?_⟩⟩
  rw [handle, hat]
  exact hstep conn hat hopen

theorem run_dropConnection (hrun : ((sharing H addressScript).restrict allowed).Run trace server) (c : ι)
    (hended : server.ended c = true) (hopen : (server.threads c).closing = false)
    (hdropped : allowed server (.dropped c)) :
    ∃ trace, ((sharing H addressScript).restrict allowed).Run trace (server.dropConnection c) := by
  obtain ⟨ended, hat⟩ := ended_of_ended hended
  refine ⟨_, hrun.next ⟨hdropped, ?_⟩⟩
  rw [dropConnection, hat]
  exact .drop hat hopen

/-- A connection between two handlers, the last of which did not fail, has no share released. -/
theorem dropsSettled_of_resting (hrun : ((sharing H addressScript).restrict allowed).Run trace server)
    (hrests : server.resting c = true) : (ShareEvent.dropped c).DropsSettled server := by
  have haccounted : server.Accounted addressScript False False :=
    accounted_of_run (hrun.mono fun _ _ _ => ⟨False.elim, False.elim⟩)
  obtain ⟨conn, hat, hopen⟩ := conn_of_resting hrests
  intro ended hended share hshare
  obtain rfl : (.ok (), conn) = ended := Prog.done.inj (hat.symm.trans hended)
  rw [(ShareThread.ends_of_keeps (haccounted.threads c) hat).released hopen rfl] at hshare
  cases hshare

end ShareServer

/-- Hashes whose last byte is the low byte of the header's nonce. -/
def nonceByteHashing : Hashing where
  sha256 _ := Vector.replicate _ 0
  blake2b256 data := Vector.ofFn fun i => if i.val = 31 then data.getD 32 0 else 0

/-- A share on a job with a transaction, the job's sections with it or not. -/
def awaitingShare (n : UInt8) (sections : Bool) : PowSubmit :=
  { Verifier.plainShare (Verifier.repeatedHash 0) with
    job := if sections then
        some { Verifier.plainJob (Verifier.repeatedHash 0) with
          txnCount := 1, merkleBranches := [Verifier.repeatedHash 0] }
      else none
    coinbase := if sections then some Verifier.plainCoinbase else none
    blake2b := ⟨Vector.replicate _ 0, Vector.ofFn fun i => if i.val = 0 then n else 0, 0⟩ }

/-- Every write of an answer fails. -/
def failingAnswers : (op : ShareOp) → op.Answer
  | .respond .. => .error (.invalidData "")
  | op => quietAnswers (.ok none) op

def noAddress : AddressScript := fun _ => none

/-- A share is held for its job's transactions. -/
def oneHeld : ShareServer Unit :=
  (newServer.handle () (Connection.onShare nonceByteHashing noAddress (awaitingShare 1 true))).runOn
    failingAnswers () 6

/-- And another, before the gateway sends none. -/
def twoHeld : ShareServer Unit :=
  (oneHeld.handle () (Connection.onShare nonceByteHashing noAddress (awaitingShare 2 false))).runOn failingAnswers () 6

def refuseTxns (conn : Connection) : Connection :=
  { conn with shares.verifier := (conn.shares.verifier.setJobTxns 0 1 (.refused .other)).2 }

/-- They are released, and the write of the first one's answer fails. -/
def firstAnswered : ShareServer Unit :=
  ((twoHeld.handle () (Handler.modify refuseTxns)).handle ()
    (Connection.releaseHeld nonceByteHashing noAddress fun _ => true)).runOn failingAnswers () 6

theorem run_oneHeld (allowed : ShareServer Unit → ShareEvent Unit → Prop) (hquiet : ∀ server, allowed server .quiet)
    (hcalled : ∀ server call, allowed server (.called () call)) :
    ∃ trace, ((sharing nonceByteHashing noAddress).restrict allowed).Run trace oneHeld := by
  have hstart : ((sharing nonceByteHashing noAddress).restrict allowed).Run [] newServer :=
    .start ⟨[], 0, fun _ => .new Verifier.untaggedPolicy, fun _ => none, rfl⟩
  obtain ⟨trace, hrun⟩ := ShareServer.run_handle hstart () rfl hquiet _ fun conn hat hopen =>
    .share _ hat hopen
  exact run_runOn hrun () hcalled _ _

theorem dropped_connection_leaves_no_claim_held : ∃ trace, ∃ server : ShareServer Unit,
    ((sharing nonceByteHashing noAddress).restrict
      fun (server : ShareServer Unit) event => event.DropsSettled server).Run trace server ∧
    (server.threads ()).closing = true ∧ server.DropsClaims := by
  obtain ⟨trace, hrun⟩ := run_oneHeld (fun server event => event.DropsSettled server)
    (fun _ => trivial) (fun _ _ => trivial)
  have hrests : oneHeld.resting () = true := by decide +kernel
  obtain ⟨trace, hrun⟩ := ShareServer.run_dropConnection hrun () (by decide +kernel) (by decide +kernel)
    (ShareServer.dropsSettled_of_resting hrun hrests)
  obtain ⟨trace, hrun⟩ := run_runOn hrun () (fun _ _ => trivial) failingAnswers 6
  exact ⟨trace, _, hrun, by decide +kernel, dropped_connection_leaves_no_claim hrun⟩

/-- The second of two shares released stays claimed when the write of the first one's answer fails: sent again, it
is duplicate work. -/
theorem released_share_loses_claim : ∃ trace, ∃ server : ShareServer Unit,
    (sharing nonceByteHashing noAddress).Run trace server ∧ (server.threads ()).closing = true ∧
    (∃ hash, ¬ server.ends.Has hash ∧ (server.accepted.insert hash 0).1 = false) ∧ ¬ server.DropsClaims := by
  have hquiet : ∀ server : ShareServer Unit, (fun _ _ => True : ShareServer Unit → ShareEvent Unit → Prop)
      server .quiet := fun _ => trivial
  obtain ⟨trace, hrun⟩ := run_oneHeld (fun _ _ => True) hquiet fun _ _ => trivial
  obtain ⟨trace, hrun⟩ := ShareServer.run_handle hrun () (by decide +kernel) hquiet
    (Connection.onShare nonceByteHashing noAddress (awaitingShare 2 false))
    fun conn hat hopen => .share _ hat hopen
  obtain ⟨trace, hrun⟩ := run_runOn hrun () (fun _ _ => trivial) failingAnswers 6
  obtain ⟨trace, hrun⟩ := ShareServer.run_handle hrun () (by decide +kernel) hquiet (.modify refuseTxns)
    fun conn hat hopen => .turn _ _ _ rfl hat hopen
  obtain ⟨trace, hrun⟩ := ShareServer.run_handle hrun () (by decide +kernel) hquiet
    (Connection.releaseHeld nonceByteHashing noAddress fun _ => true)
    fun conn hat hopen => .release _ hat hopen
  obtain ⟨trace, hrun⟩ := run_runOn hrun () (fun _ _ => trivial) failingAnswers 6
  have hfirst : firstAnswered.ended () = true ∧ (firstAnswered.threads ()).closing = false := by decide +kernel
  obtain ⟨trace, hrun⟩ := ShareServer.run_dropConnection hrun () hfirst.1 hfirst.2 trivial
  obtain ⟨trace, hrun⟩ := run_runOn hrun () (fun _ _ => trivial) failingAnswers 6
  refine ⟨trace, _, hrun.of_restrict, by decide +kernel,
    ⟨nonceByteHashing.blake2b256 (List.replicate 32 0 ++ [2]), ?_, by decide +kernel⟩, fun hdrops => ?_⟩
  · unfold ClaimEnds.Has
    decide +kernel
  · have hended : ((firstAnswered.dropConnection ()).runOn failingAnswers () 6).ended () = true := by decide +kernel
    obtain ⟨ended, hat⟩ := ShareServer.ended_of_ended hended
    have hnone := hdrops.dropped () ended hat (by decide +kernel)
    exact absurd hnone (by decide +kernel)

end Ratum
