import Ratum.Accounting.AcceptedHashes
import Ratum.Base.Lts
import Ratum.Connection.Claims

/-!
# The connections of a pool and the hashes they share

The threads of the connections, each between two calls of its handlers, over the one `AcceptedShareHashes`
they claim from. A call of one thread is a step, so the calls of different connections come in any order.
Beside each thread stand its open claims, and beside the hashes accepted what became of the claims that ended,
neither of which the source keeps.
-/

namespace Ratum

abbrev ShareProgram :=
  Prog (ShareOp × Connection) (fun call => ShareOp.Answer call.1) (Except IoError Unit × Connection)

/-- The hashes claimed for the shares not answered where a handler has come to. -/
def ShareProgram.unanswered : ShareProgram → List Hash
  | .done ended => ended.2.waiting
  | .call call _ => Connection.unanswered call

/-- The thread of a connection. -/
structure ShareThread where
  program : ShareProgram
  claims : List Hash
  /-- Whether the connection is dropped. -/
  closing : Bool

/-- The thread between two handlers, the last of which did not fail. -/
def ShareThread.rests (conn : Connection) : ShareThread := ⟨.done (.ok (), conn), [], false⟩

/-- What became of the hashes claimed. -/
structure ClaimEnds where
  /-- Of shares the ledger recorded. -/
  recorded : List Hash
  /-- Held on for a share under an assignment, by its answer or a receipt. -/
  assigned : List Hash
  /-- Still claimed by a share without an assignment when it was answered. -/
  left : List Hash
  /-- Still claimed by a connection when it was gone. -/
  lost : List Hash

namespace ClaimEnds

open Connection

def Has (ends : ClaimEnds) (hash : Hash) : Prop :=
  hash ∈ ends.recorded ∨ hash ∈ ends.assigned ∨ hash ∈ ends.left ∨ hash ∈ ends.lost

/-- Hashes that an answer leaves held. -/
def keep (ends : ClaimEnds) (assigns : Bool) (hashes : List Hash) : ClaimEnds :=
  if assigns then { ends with assigned := hashes ++ ends.assigned } else { ends with left := hashes ++ ends.left }

/-- After a call of a thread with these claims open. -/
def after (claims : List Hash) (ends : ClaimEnds) : ShareCall → ClaimEnds
  | ⟨(.record share, _), .ok _⟩ => { ends with recorded := share.blockHash :: ends.recorded }
  | ⟨(.hold s hash _, conn), _⟩ => ends.keep (conn.assigns s) [hash]
  | ⟨(.receipt s rebuilt _, conn), _⟩ => if conn.assigns s then ends.keep true [rebuilt.blockHash] else ends
  | ⟨(.respond s verified _, conn), _⟩ =>
      ends.keep (conn.assigns s) (claims.filter (claimedHash verified = some ·))
  | _ => ends

end ClaimEnds

namespace AcceptedShareHashes

/-- After a call of a connection. -/
def after (accepted : AcceptedShareHashes) : ShareCall → AcceptedShareHashes
  | ⟨(.claim hash now, _), _⟩ => (accepted.insert hash now).2
  | ⟨(.hold _ hash receivedAt, _), _⟩ => (accepted.insert hash receivedAt).2
  | ⟨(.remove hash, _), _⟩ => accepted.remove hash
  | _ => accepted

/-- The answer to a claim is whether the hash was not held. -/
def Answers (accepted : AcceptedShareHashes) : ShareCall → Prop
  | ⟨(.claim hash now, _), claimed⟩ => claimed = (accepted.insert hash now).1
  | _ => True

end AcceptedShareHashes

structure ShareServer (ι : Type) where
  accepted : AcceptedShareHashes
  ends : ClaimEnds
  threads : ι → ShareThread

inductive ShareEvent (ι : Type)
  | quiet
  | called (c : ι) (call : ShareCall)
  | dropped (c : ι)

namespace ShareServer

variable {ι : Type} [DecidableEq ι]

def setThread (server : ShareServer ι) (c : ι) (thread : ShareThread) : ShareServer ι :=
  { server with threads := Function.update server.threads c thread }

@[simp] theorem thread_setThread {server : ShareServer ι} {c : ι} {thread : ShareThread} :
    (server.setThread c thread).threads c = thread := Function.update_self ..

@[simp] theorem thread_setThread_ne {server : ShareServer ι} {c c' : ι} {thread : ShareThread} (hne : c' ≠ c) :
    (server.setThread c thread).threads c' = server.threads c' := Function.update_of_ne hne ..

/-- The thread of `c` called and goes on as `program`. -/
def called (server : ShareServer ι) (c : ι) (call : ShareCall) (program : ShareProgram) : ShareServer ι :=
  let thread := server.threads c
  { server with
    accepted := server.accepted.after call
    ends := server.ends.after thread.claims call }.setThread c
      { thread with program, claims := Connection.claimsAfter thread.claims call }

/-- The thread of `c` goes on as `program`. -/
def move (server : ShareServer ι) (c : ι) (program : ShareProgram) : ShareServer ι :=
  server.setThread c { server.threads c with program }

end ShareServer

section Steps

variable {ι : Type} [DecidableEq ι] (H : Hashing) (addressScript : AddressScript)

inductive ShareStep : ShareServer ι → ShareEvent ι → ShareServer ι → Prop
  | call {server : ShareServer ι} {c : ι} {call : ShareOp × Connection}
      {next : ShareOp.Answer call.1 → ShareProgram} (answer : ShareOp.Answer call.1)
      (hat : (server.threads c).program = .call call next)
      (hanswer : server.accepted.Answers ⟨call, answer⟩) :
      ShareStep server (.called c ⟨call, answer⟩) (server.called c ⟨call, answer⟩ (next answer))
  | share {server : ShareServer ι} {c : ι} {conn : Connection} (s : PowSubmit)
      (hat : (server.threads c).program = .done (.ok (), conn)) (hopen : (server.threads c).closing = false) :
      ShareStep server .quiet (server.move c (conn.onShare H addressScript s))
  | release {server : ShareServer ι} {c : ι} {conn : Connection} (selected : HeldShare → Bool)
      (hat : (server.threads c).program = .done (.ok (), conn)) (hopen : (server.threads c).closing = false) :
      ShareStep server .quiet (server.move c (Connection.releaseHeld H addressScript selected conn))
  /-- The rest of a connection's work between two shares. -/
  | turn {server : ShareServer ι} {c : ι} {conn : Connection} (verifier : Verifier)
      (txnRequests : List TxnRequest) (v3 : Option AbwSlotState) (hv3 : v3.isSome = conn.v3.isSome)
      (hat : (server.threads c).program = .done (.ok (), conn)) (hopen : (server.threads c).closing = false) :
      ShareStep server .quiet
        (server.move c (.done (.ok (), { conn with shares := ⟨verifier, conn.shares.held, txnRequests⟩, v3 })))
  /-- A connection closes, or a handler failed. -/
  | drop {server : ShareServer ι} {c : ι} {result : Except IoError Unit} {conn : Connection}
      (hat : (server.threads c).program = .done (result, conn)) (hopen : (server.threads c).closing = false) :
      ShareStep server (.dropped c)
        (server.setThread c { server.threads c with program := Connection.drop conn, closing := true })
  | reconnect {server : ShareServer ι} {c : ι} {ended : Except IoError Unit × Connection}
      (verifier : Verifier) (v3 : Option AbwSlotState)
      (hat : (server.threads c).program = .done ended) (hclosed : (server.threads c).closing = true) :
      ShareStep server .quiet
        ({ server with ends.lost := (server.threads c).claims ++ server.ends.lost }.setThread c
          (.rests ⟨⟨verifier, [], []⟩, v3, []⟩))

/-- The connections of a pool started over the rows of its ledger, in every order of their calls. -/
def sharing : Lts (ShareServer ι) (ShareEvent ι) where
  init server := ∃ (rows : List (Nat × Hash)) (now : Nat) (verifiers : ι → Verifier)
    (v3 : ι → Option AbwSlotState), server =
      { accepted := .fromRows rows now
        ends := ⟨rows.map Prod.snd, [], [], []⟩
        threads := fun c => .rests ⟨⟨verifiers c, [], []⟩, v3 c, []⟩ }
  step := ShareStep H addressScript

end Steps

/-! ### A thread run on -/

namespace ShareServer

variable {ι : Type} [DecidableEq ι]

/-- The answers of an environment, and those the hashes accepted give. -/
def answer (env : (op : ShareOp) → op.Answer) (accepted : AcceptedShareHashes) : (op : ShareOp) → op.Answer
  | .claim hash now => (accepted.insert hash now).1
  | op => env op

/-- After the calls of the thread of `c`, `n` of them at most. -/
def runOn (env : (op : ShareOp) → op.Answer) (c : ι) : Nat → ShareServer ι → ShareServer ι
  | 0, server => server
  | n + 1, server =>
      match (server.threads c).program with
      | .done _ => server
      | .call call next =>
          let answer := answer env server.accepted call.1
          runOn env c n (server.called c ⟨call, answer⟩ (next answer))

/-- The next call of the thread of `c`, answered. -/
def nextCall (server : ShareServer ι) (env : (op : ShareOp) → op.Answer) (c : ι) : Option ShareCall :=
  match (server.threads c).program with
  | .done _ => none
  | .call call _ => some ⟨call, answer env server.accepted call.1⟩

theorem answers_answer (env : (op : ShareOp) → op.Answer) (accepted : AcceptedShareHashes)
    (call : ShareOp × Connection) : accepted.Answers ⟨call, answer env accepted call.1⟩ := by
  obtain ⟨op, conn⟩ := call
  cases op <;> trivial

end ShareServer

/-- A thread runs on as long as its calls are allowed. -/
theorem run_runOn_of_calls {ι : Type} [DecidableEq ι] {H : Hashing} {addressScript : AddressScript}
    {allowed : ShareServer ι → ShareEvent ι → Prop} {trace : List (ShareEvent ι)} {server : ShareServer ι}
    (hrun : ((sharing H addressScript).restrict allowed).Run trace server) (c : ι)
    (env : (op : ShareOp) → op.Answer) (n : Nat)
    (hallowed : ∀ k < n, ∀ call ∈ (server.runOn env c k).nextCall env c,
      allowed (server.runOn env c k) (.called c call)) :
    ∃ trace', ((sharing H addressScript).restrict allowed).Run trace' (server.runOn env c n) := by
  induction n generalizing trace server with
  | zero => exact ⟨trace, hrun⟩
  | succ n ih =>
      have hnext := hallowed 0 (Nat.succ_pos n)
      rw [ShareServer.runOn, ShareServer.nextCall] at hnext
      rw [ShareServer.runOn]
      split
      · exact ⟨trace, hrun⟩
      · rename_i call next hat
        rw [hat] at hnext
        refine ih (hrun.next ⟨hnext _ rfl, .call _ hat (ShareServer.answers_answer env _ call)⟩) fun k hk => ?_
        have hrest := hallowed (k + 1) (Nat.succ_lt_succ hk)
        rw [ShareServer.runOn, hat] at hrest
        exact hrest

theorem run_runOn {ι : Type} [DecidableEq ι] {H : Hashing} {addressScript : AddressScript}
    {allowed : ShareServer ι → ShareEvent ι → Prop} {trace : List (ShareEvent ι)} {server : ShareServer ι}
    (hrun : ((sharing H addressScript).restrict allowed).Run trace server) (c : ι)
    (hallowed : ∀ server call, allowed server (.called c call)) (env : (op : ShareOp) → op.Answer) (n : Nat) :
    ∃ trace', ((sharing H addressScript).restrict allowed).Run trace' (server.runOn env c n) :=
  run_runOn_of_calls hrun c env n fun _ _ call _ => hallowed _ call

/-! ### What holds of a thread -/

/-- What the thread's handlers leave where they end: with `lossless`, a dropped connection leaves no claim. -/
structure ShareThread.Ends (lossless : Prop) (closing : Bool) (ended : Except IoError Unit × Connection)
    (claims : List Hash) : Prop where
  rests : ended.2.Rests claims
  released : closing = false → ended.1 = .ok () → ended.2.released = []
  closed : closing = true → ended.2.shares.held = [] ∧ (lossless → claims = [])

/-- What is left of the thread's program keeps its claims. -/
def ShareThread.Keeps (addressScript : AddressScript) (strict lossless : Prop) (thread : ShareThread) : Prop :=
  thread.program.Meets (Connection.monitor addressScript strict) (ShareThread.Ends lossless thread.closing)
    thread.claims

/-- A share without an assignment that its job's verdict would credit can be paid. -/
def ShareEvent.Pays {ι : Type} (addressScript : AddressScript) : ShareEvent ι → Prop
  | .called _ call => Connection.PaysIfValid addressScript call
  | .dropped _ | .quiet => True

/-- No connection is dropped with a share released that claimed its hash and is not settled again. -/
def ShareEvent.DropsSettled {ι : Type} (server : ShareServer ι) : ShareEvent ι → Prop
  | .dropped c => ∀ ended, (server.threads c).program = .done ended →
      ∀ share ∈ ended.2.released, Connection.claimedHash share.verified = none
  | .called _ _ | .quiet => True

/-- The conditions on a step, each where it is asked for. -/
structure ShareEvent.Fits {ι : Type} (addressScript : AddressScript) (strict lossless : Prop)
    (server : ShareServer ι) (event : ShareEvent ι) : Prop where
  pays : strict → event.Pays addressScript
  settled : lossless → event.DropsSettled server

/-- What every step keeps: each thread its claims, and each hash held has a claim open for it or one that
ended. -/
structure ShareServer.Accounted {ι : Type} (addressScript : AddressScript) (strict lossless : Prop)
    (server : ShareServer ι) : Prop where
  threads : ∀ c, (server.threads c).Keeps addressScript strict lossless
  held : ∀ hash, server.accepted.contains hash →
    server.ends.Has hash ∨ ∃ c, hash ∈ (server.threads c).claims
  left : strict → server.ends.left = []
  lost : lossless → server.ends.lost = []

/-! ### Claims and the hashes held, after a call -/

section Calls

open Connection

variable {ends : ClaimEnds} {accepted : AcceptedShareHashes} {claims hashes : List Hash} {hash : Hash}
  {call : ShareCall} {addressScript : AddressScript} {strict : Prop}

theorem ClaimEnds.has_keep (assigns : Bool) :
    (ends.keep assigns hashes).Has hash ↔ hash ∈ hashes ∨ ends.Has hash := by
  unfold keep
  cases assigns <;> simp only [Has, List.mem_append, if_true, Bool.false_eq_true, if_false] <;> tauto

/-- A claim that ended stays so. -/
theorem ClaimEnds.has_after (hends : ends.Has hash) : (ends.after claims call).Has hash := by
  unfold ClaimEnds.after
  split
  · exact hends.imp_left (List.mem_cons_of_mem _)
  · exact (has_keep _).mpr (.inr hends)
  · split
    · exact (has_keep _).mpr (.inr hends)
    · exact hends
  · exact (has_keep _).mpr (.inr hends)
  · exact hends

theorem ClaimEnds.lost_after : (ends.after claims call).lost = ends.lost := by
  unfold ClaimEnds.after keep
  repeat' first | rfl | split

/-- A claim stays open, ends with a reason, or has its hash taken out. -/
theorem claim_after (ends : ClaimEnds) (accepted : AcceptedShareHashes) (call : ShareCall) (hclaim : hash ∈ claims) :
    hash ∈ claimsAfter claims call ∨ (ends.after claims call).Has hash ∨
      (accepted.after call).contains hash = false := by
  obtain ⟨⟨op, conn⟩, answer⟩ := call
  cases op with
  | unixNow | instantNow | hold | settle | relay => exact .inl hclaim
  | claim claimed now =>
      cases answer with
      | true => exact .inl (List.mem_cons_of_mem _ hclaim)
      | false => exact .inl hclaim
  | remove removed =>
      by_cases heq : hash = removed
      · subst heq
        exact .inr (.inr AcceptedShareHashes.contains_remove_self)
      · exact .inl (List.mem_filter.mpr ⟨hclaim, decide_eq_true heq⟩)
  | record share =>
      cases answer with
      | error e => exact .inl hclaim
      | ok _ =>
          by_cases heq : hash = share.blockHash
          · exact .inr (.inl (.inl (heq ▸ List.mem_cons_self)))
          · exact .inl (List.mem_filter.mpr ⟨hclaim, decide_eq_true heq⟩)
  | receipt s rebuilt candidate =>
      by_cases hassigns : conn.assigns s = true
      · by_cases heq : hash = rebuilt.blockHash
        · refine .inr (.inl ?_)
          simp only [ClaimEnds.after, hassigns, if_true]
          exact (ClaimEnds.has_keep true).mpr (.inl (List.mem_singleton.mpr heq))
        · refine .inl ?_
          simp only [claimsAfter, hassigns, if_true]
          exact List.mem_filter.mpr ⟨hclaim, decide_eq_true heq⟩
      · refine .inl ?_
        simp only [claimsAfter, if_neg hassigns]
        exact hclaim
  | respond s verified response =>
      by_cases hclaimed : claimedHash verified = some hash
      · exact .inr (.inl ((ClaimEnds.has_keep _).mpr
          (.inl (List.mem_filter.mpr ⟨hclaim, decide_eq_true hclaimed⟩))))
      · exact .inl (List.mem_filter.mpr ⟨hclaim, decide_eq_true hclaimed⟩)

/-- A hash held after a call was held before, is claimed by the call, or is held on by it. -/
theorem held_after (ends : ClaimEnds) (claims : List Hash) (hanswer : accepted.Answers call) (hheld : (accepted.after call).contains hash) :
    accepted.contains hash ∨ hash ∈ claimsAfter claims call ∨ (ends.after claims call).Has hash := by
  obtain ⟨⟨op, conn⟩, answer⟩ := call
  cases op with
  | unixNow | instantNow | settle | relay | record | receipt | respond => exact .inl hheld
  | claim claimed now =>
      obtain rfl | hheld := AcceptedShareHashes.contains_hold hheld
      · cases answer with
        | true => exact .inr (.inl List.mem_cons_self)
        | false => exact .inl (AcceptedShareHashes.contains_of_refused hanswer.symm)
      · exact .inl hheld
  | remove removed => exact .inl (AcceptedShareHashes.contains_remove hheld).2
  | hold s held receivedAt =>
      obtain rfl | hheld := AcceptedShareHashes.contains_hold hheld
      · exact .inr (.inr ((ClaimEnds.has_keep _).mpr (.inl (List.mem_singleton_self _))))
      · exact .inl hheld

/-- No call leaves a claim open that nothing answers for, as long as each is one the monitor requires. -/
theorem ClaimEnds.left_after (hstrict : strict) (hrequires : (monitor addressScript strict).requires claims call.1) :
    (ends.after claims call).left = ends.left := by
  obtain ⟨⟨op, conn⟩, answer⟩ := call
  cases op with
  | unixNow | instantNow | settle | relay | claim | remove => rfl
  | record share => cases answer <;> rfl
  | hold s held receivedAt =>
      have hassigns : conn.assigns s = true := hrequires.2
      simp only [ClaimEnds.after, keep, hassigns, if_true]
  | receipt s rebuilt candidate =>
      simp only [ClaimEnds.after]
      split <;> rfl
  | respond s verified response =>
      simp only [ClaimEnds.after, keep]
      split
      · rfl
      · rename_i hassigns
        have hfree := hrequires.2 hstrict (Bool.not_eq_true _ ▸ hassigns)
        rw [List.filter_eq_nil_iff.mpr]
        · rfl
        · exact fun claimed hmem hclaimed => hfree claimed (of_decide_eq_true hclaimed) hmem

end Calls

/-! ### Every run -/

section Runs

open Connection ShareServer ShareThread

variable {ι : Type} [DecidableEq ι] {H : Hashing} {addressScript : AddressScript} {strict lossless : Prop}
  {server server' : ShareServer ι} {c : ι} {thread : ShareThread} {event : ShareEvent ι}

theorem ShareThread.ends_of_keeps {ended : Except IoError Unit × Connection}
    (hkeeps : thread.Keeps addressScript strict lossless) (hat : thread.program = .done ended) :
    ShareThread.Ends lossless thread.closing ended thread.claims := by
  rw [Keeps, hat] at hkeeps
  exact hkeeps

/-- A thread between two handlers, none of its held shares released. -/
theorem ShareThread.Ends.of_open {ended : Except IoError Unit × Connection} {claims : List Hash}
    (hrests : ended.2.Rests claims) (hreleased : ended.1 = .ok () → ended.2.released = []) :
    ShareThread.Ends lossless false ended claims :=
  ⟨hrests, fun _ => hreleased, fun hclosing => by cases hclosing⟩

theorem ShareThread.keeps_rests (verifier : Verifier) (v3 : Option AbwSlotState) :
    (rests ⟨⟨verifier, [], []⟩, v3, []⟩).Keeps addressScript strict lossless :=
  Ends.of_open ⟨List.Subset.refl _, fun _ hmem => by cases hmem⟩ fun _ => rfl

theorem ShareServer.Accounted.of_setThread (h : server.Accounted addressScript strict lossless)
    (hthread : thread.Keeps addressScript strict lossless) (hclaims : (server.threads c).claims ⊆ thread.claims) :
    (server.setThread c thread).Accounted addressScript strict lossless where
  threads c' := by
    by_cases heq : c' = c
    · subst heq
      rw [thread_setThread]
      exact hthread
    · rw [thread_setThread_ne heq]
      exact h.threads c'
  held hash hheld := by
    refine (h.held hash hheld).imp_right ?_
    rintro ⟨c', hclaim⟩
    refine ⟨c', ?_⟩
    by_cases heq : c' = c
    · subst heq
      rw [thread_setThread]
      exact hclaims hclaim
    · rwa [thread_setThread_ne heq]
  left := h.left
  lost := h.lost

/-- A call of a thread keeps the hashes accounted for. -/
theorem ShareServer.Accounted.called (h : server.Accounted addressScript strict lossless)
    {call : ShareOp × Connection} {next : ShareOp.Answer call.1 → ShareProgram} {answer : ShareOp.Answer call.1}
    (hat : (server.threads c).program = .call call next) (hanswer : server.accepted.Answers ⟨call, answer⟩)
    (hfits : strict → PaysIfValid addressScript ⟨call, answer⟩) :
    (server.called c ⟨call, answer⟩ (next answer)).Accounted addressScript strict lossless := by
  have hkeeps := h.threads c
  rw [ShareThread.Keeps, hat] at hkeeps
  refine ⟨fun c' => ?_, fun hash hheld => ?_, fun hstrict => ?_, fun hlossless => ?_⟩
  · by_cases heq : c' = c
    · subst heq
      simp only [ShareServer.called, thread_setThread]
      exact hkeeps.2 answer hfits
    · simp only [ShareServer.called, thread_setThread_ne heq]
      exact h.threads c'
  · -- the claims of the other threads are as they were
    have hclaimed : ∀ {c'}, hash ∈ (server.threads c').claims →
        (server.called c ⟨call, answer⟩ (next answer)).ends.Has hash ∨
          ∃ c', hash ∈ ((server.called c ⟨call, answer⟩ (next answer)).threads c').claims := by
      intro c' hclaim
      by_cases heq : c' = c
      · subst heq
        obtain hopen | hended | hout := claim_after server.ends server.accepted ⟨call, answer⟩ hclaim
        · exact .inr ⟨c', by simpa only [ShareServer.called, thread_setThread] using hopen⟩
        · exact .inl hended
        · exact absurd (hheld.symm.trans hout) (by decide)
      · exact .inr ⟨c', by simpa only [ShareServer.called, thread_setThread_ne heq] using hclaim⟩
    obtain hbefore | hopen | hended := held_after server.ends (server.threads c).claims hanswer
      hheld
    · obtain hends | ⟨c', hclaim⟩ := h.held hash hbefore
      · exact .inl (ClaimEnds.has_after hends)
      · exact hclaimed hclaim
    · exact .inr ⟨c, by simpa only [ShareServer.called, thread_setThread] using hopen⟩
    · exact .inl hended
  · exact (ClaimEnds.left_after hstrict hkeeps.1).trans (h.left hstrict)
  · exact ClaimEnds.lost_after.trans (h.lost hlossless)

/-- A thread goes on to handle something. -/
theorem ShareServer.Accounted.handle (h : server.Accounted addressScript strict lossless)
    {handler : ShareHandler Unit} {conn : Connection}
    (hhandler : handler.Ensures (monitor addressScript strict) conn (server.threads c).claims
      fun result conn claims => ShareThread.Ends lossless (server.threads c).closing (result, conn) claims) :
    (server.move c (handler conn)).Accounted addressScript strict lossless :=
  h.of_setThread hhandler (List.Subset.refl _)

/-- **Every hash held is accounted for**, in every order of the connections' calls. -/
theorem ShareStep.accounted (hstep : ShareStep H addressScript server event server')
    (hfits : event.Fits addressScript strict lossless server)
    (h : server.Accounted addressScript strict lossless) : server'.Accounted addressScript strict lossless := by
  cases hstep with
  | call answer hat hanswer => exact h.called hat hanswer hfits.pays
  | share s hat hopen =>
      have hends := ShareThread.ends_of_keeps (h.threads _) hat
      refine h.handle ((onShare_spec hends.rests).mono ?_)
      rintro result conn claims ⟨hreleased, hrests⟩
      rw [hopen]
      exact .of_open hrests fun _ => hreleased.trans (hends.released hopen rfl)
  | release selected hat hopen =>
      have hends := ShareThread.ends_of_keeps (h.threads _) hat
      refine h.handle ((releaseHeld_spec (hends.released hopen rfl) hends.rests).mono ?_)
      rintro result conn claims ⟨hreleased, hrests⟩
      rw [hopen]
      exact .of_open hrests hreleased
  | turn verifier txnRequests v3 hv3 hat hopen =>
      have hends := ShareThread.ends_of_keeps (h.threads _) hat
      refine h.of_setThread ?_ (List.Subset.refl _)
      rw [ShareThread.Keeps, hopen]
      exact Ends.of_open ⟨hends.rests.claims, hends.rests.parents⟩ (hends.released hopen)
  | drop hat hopen =>
      have hends := ShareThread.ends_of_keeps (h.threads _) hat
      rename_i c _ conn
      have hdrop : Connection.drop.Ensures (monitor addressScript strict) conn (server.threads c).claims
          fun result conn claims => ShareThread.Ends lossless true (result, conn) claims := ?_
      exact h.of_setThread hdrop (List.Subset.refl _)
      refine (drop_spec hends.rests).mono ?_
      rintro result conn' claims' ⟨-, hempty, hreleased, hrests⟩
      refine ⟨hrests, (fun hopen => by cases hopen), fun _ => ⟨hempty, fun hlossless => ?_⟩⟩
      refine List.eq_nil_iff_forall_not_mem.mpr fun hash hmem => ?_
      obtain ⟨share, hshare, hclaimed⟩ := List.mem_filterMap.mp (hrests.claims hmem)
      rw [hempty, List.nil_append, hreleased] at hshare
      rw [hfits.settled hlossless _ hat share hshare] at hclaimed
      cases hclaimed
  | reconnect verifier v3 hat hclosed =>
      have hends := ShareThread.ends_of_keeps (h.threads _) hat
      rename_i c ended
      refine ⟨fun c' => ?_, fun hash hheld => ?_, h.left, fun hlossless => ?_⟩
      · by_cases heq : c' = c
        · subst heq
          rw [thread_setThread]
          exact ShareThread.keeps_rests verifier v3
        · rw [thread_setThread_ne heq]
          exact h.threads c'
      · obtain hends | ⟨c', hclaim⟩ := h.held hash hheld
        · exact .inl (hends.imp_right (.imp_right (.imp_right (List.mem_append_right _))))
        · by_cases heq : c' = c
          · subst heq
            exact .inl (.inr (.inr (.inr (List.mem_append_left _ hclaim))))
          · exact .inr ⟨c', by rwa [thread_setThread_ne heq]⟩
      · show (server.threads c).claims ++ server.ends.lost = []
        rw [(hends.closed hclosed).2 hlossless, h.lost hlossless]
        rfl

theorem accounted_of_run {trace : List (ShareEvent ι)}
    (hrun : ((sharing H addressScript).restrict
      fun (server : ShareServer ι) event => event.Fits addressScript strict lossless server).Run trace server) :
    server.Accounted addressScript strict lossless := by
  refine hrun.invariant (I := fun _ server => server.Accounted addressScript strict lossless) ?_ ?_
  · rintro server ⟨rows, now, verifiers, v3, rfl⟩
    exact ⟨fun c => ShareThread.keeps_rests (verifiers c) (v3 c),
      fun hash hheld => .inl (.inl (AcceptedShareHashes.contains_fromRows hheld)), fun _ => rfl, fun _ => rfl⟩
  · intro trace server event server' h hstep
    exact hstep.2.accounted hstep.1 h

end Runs

end Ratum
