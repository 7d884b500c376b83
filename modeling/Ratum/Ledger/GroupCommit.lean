import Ratum.Ledger.Runs

/-!
# Shares recorded in shared commits

`prime/src/ledger/group_commit.rs`. Every section that holds the state's lock is one step of a call:
what `record` does from taking the lock to waiting, to leaving it for a commit or to returning is
`turn`. The commit itself runs under the ledger's lock alone, and what the `Finish` guard publishes,
also when the commit panicked, is two steps, since it wakes the waiting calls without the lock.
-/

namespace Ratum

def MAX_BATCH : Nat := 4096

namespace GroupCommit

/-- What a commit gave: the rows retention removed, or the error's text. -/
abbrev CommitResult := Except String Nat

structure State where
  nextTicket : Nat
  queued : List (Nat × Share)
  /-- Whether a caller is recording a batch. -/
  committing : Bool
  results : HashMap Nat CommitResult

def State.new : State := { nextTicket := 0, queued := [], committing := false, results := ∅ }

structure Finish where
  tickets : List Nat
  result : Option CommitResult

/-- Where a call of `record` stands. -/
inductive Phase
  /-- In `done.wait`; whether it was notified since. -/
  | waiting (notified : Bool)
  /-- In `record_batch`, with the batch it took. -/
  | committing (finish : Finish) (shares : List Share)
  /-- Dropping `Finish`, whose result is missing while the call unwinds. -/
  | finishing (finish : Finish)
  /-- The result is published and the waiting calls not yet notified. -/
  | notifying (unwinding : Bool)
  /-- Past the commit it led, about to take the lock again. -/
  | resuming
  | returned (result : Except IoError Nat)
  | unwound

/-- `io::Error::other` of the error's text. -/
def returnedOf (result : CommitResult) : Except IoError Nat := result.mapError fun e => ⟨.other, e⟩

/-- One turn of the loop of `record` under the state's lock, for the call with a ticket. -/
def turn (st : State) (ticket : Nat) : State × Phase :=
  match st.results.lookup ticket with
  | some result =>
      ({ st with results := st.results.erase ticket },
        .returned (returnedOf result))
  | none =>
      if st.committing then (st, .waiting false)
      else
        let take := min st.queued.length MAX_BATCH
        let (tickets, shares) := (st.queued.take take).unzip
        ({ st with committing := true, queued := st.queued.drop take },
          .committing { tickets, result := none } shares)

/-- The start of `record`, up to its first turn. -/
def enqueue (st : State) (share : Share) : Nat × State :=
  (st.nextTicket, { st with
    nextTicket := st.nextTicket + 1
    queued := st.queued ++ [(st.nextTicket, share)] })

/-- The result of the ticket at a position of the batch. -/
def resultAt (result : CommitResult) (i : Nat) : CommitResult :=
  match result with
  | .ok removed => if i = 0 then .ok removed else .ok 0
  | .error e => .error e

/-- The text of a commit that panicked. -/
def PANICKED : String := "the ledger commit panicked"

/-- `Finish::drop`, under the lock. -/
def Finish.publish (finish : Finish) (st : State) : State :=
  let result := finish.result.getD (.error PANICKED)
  { st with
    committing := false
    results := finish.tickets.zipIdx.foldl
      (fun results (ticket, i) => results.insert ticket (resultAt result i)) st.results }

/-- `notify_all`, for one call. -/
def Phase.notify : Phase → Phase
  | .waiting _ => .waiting true
  | phase => phase

end GroupCommit

open GroupCommit

/-- A call of `record`; its ticket is its place among the calls. -/
structure RecordCall where
  share : Share
  phase : Phase

inductive CommitOutcome
  | recorded (removed : Nat)
  | failed (error : String)
  /-- The commit panicked, the first so many of its shares recorded. -/
  | panicked (recorded : Nat)
  deriving DecidableEq

/-- A commit that ran, with the call that led it and the batch it took. -/
structure Commit where
  leader : Nat
  batch : List (Nat × Share)
  outcome : CommitOutcome

namespace Commit

/-- What the ledger recorded of the batch. -/
def recorded (c : Commit) : List (Nat × Share) :=
  match c.outcome with
  | .recorded _ => c.batch
  | .failed _ => []
  | .panicked k => c.batch.take k

def result (c : Commit) : CommitResult :=
  match c.outcome with
  | .recorded removed => .ok removed
  | .failed e => .error e
  | .panicked _ => .error PANICKED

/-- What its tickets are answered. -/
def results (c : Commit) : List (Nat × CommitResult) :=
  (c.batch.map Prod.fst).zipIdx.map fun (ticket, i) => (ticket, resultAt c.result i)

end Commit

/-- The calls of `record` over a ledger, with the commits that ran, in order. -/
structure GroupState (F : Type) where
  state : State
  calls : List RecordCall
  ledger : LedgerState F
  commits : List Commit

namespace GroupState

variable {F : Type}

/-- What the ledger recorded, in order. -/
def recorded (s : GroupState F) : List (Nat × Share) := s.commits.flatMap Commit.recorded

def phase (s : GroupState F) (i : Nat) : Option Phase := (s.calls[i]?).map RecordCall.phase

def At (s : GroupState F) (i : Nat) (phase : Phase) : Prop := s.phase i = some phase

def setPhase (s : GroupState F) (i : Nat) (phase : Phase) : GroupState F :=
  { s with calls := s.calls.modify i fun call => { call with phase } }

/-- A call takes its ticket and its first turn. -/
def called (s : GroupState F) (share : Share) : GroupState F :=
  let (ticket, st) := enqueue s.state share
  let (st, phase) := turn st ticket
  { s with state := st, calls := s.calls ++ [⟨share, phase⟩] }

def turned (s : GroupState F) (i : Nat) : GroupState F :=
  let (st, phase) := turn s.state i
  setPhase { s with state := st } i phase

/-- The commit a call led has ended. -/
def ended (s : GroupState F) (i : Nat) (finish : Finish) (shares : List Share)
    (ledger : LedgerState F) (outcome : CommitOutcome) : GroupState F :=
  setPhase { s with
    ledger := ledger
    commits := s.commits ++ [⟨i, finish.tickets.zip shares, outcome⟩] } i (.finishing finish)

def published (s : GroupState F) (i : Nat) (finish : Finish) : GroupState F :=
  setPhase { s with state := finish.publish s.state } i (.notifying finish.result.isNone)

def notified (s : GroupState F) (i : Nat) (unwinding : Bool) : GroupState F :=
  setPhase { s with calls := s.calls.map fun call => { call with phase := call.phase.notify } } i
    (if unwinding then .unwound else .resuming)

end GroupState

inductive GroupEvent
  | called
  | turned
  | ended
  | elsewhere
  deriving DecidableEq

inductive GroupStep {F : Type} [One F] : GroupState F → GroupEvent → GroupState F → Prop
  | call {s : GroupState F} (share : Share) : GroupStep s .called (s.called share)
  /-- Notified or not: a wait may end on its own. -/
  | wake {s : GroupState F} {i : Nat} {notified : Bool} (hat : s.At i (.waiting notified)) :
      GroupStep s .turned (s.turned i)
  | commit {s : GroupState F} {i : Nat} {finish : Finish} {shares : List Share} {l l' : Ledger F}
      {held} {removed : Nat} (hat : s.At i (.committing finish shares))
      (hledger : s.ledger = .running l held) (answers : RecordAnswers)
      (hrecord : l.recordBatch shares answers = .ok (removed, l')) :
      GroupStep s .ended (s.ended i { finish with result := some (.ok removed) } shares
        (.running l' held) (.recorded removed))
  | commitFailed {s : GroupState F} {i : Nat} {finish : Finish} {shares : List Share} {l : Ledger F}
      {held} {e : IoError} (hat : s.At i (.committing finish shares))
      (hledger : s.ledger = .running l held) (answers : RecordAnswers)
      (hrecord : l.recordBatch shares answers = .error e) :
      GroupStep s .ended (s.ended i { finish with result := some (.error e.message) } shares
        s.ledger (.failed e.message))
  /-- Nothing is known of the ledger after a panic, besides that it recorded in order. -/
  | panic {s : GroupState F} {i : Nat} {finish : Finish} {shares : List Share}
      (hat : s.At i (.committing finish shares)) (k : Nat) (ledger : LedgerState F) :
      GroupStep s .ended (s.ended i finish shares ledger (.panicked k))
  | publish {s : GroupState F} {i : Nat} {finish : Finish} (hat : s.At i (.finishing finish)) :
      GroupStep s .turned (s.published i finish)
  | notify {s : GroupState F} {i : Nat} {unwinding : Bool} (hat : s.At i (.notifying unwinding)) :
      GroupStep s .turned (s.notified i unwinding)
  | resume {s : GroupState F} {i : Nat} (hat : s.At i .resuming) : GroupStep s .turned (s.turned i)
  /-- The window is resized or re-read between two commits. -/
  | elsewhere {s : GroupState F} {event : LedgerEvent} {ledger : LedgerState F}
      (hevent : event.shares = []) (hledger : LedgerStep s.ledger event ledger) :
      GroupStep s .elsewhere { s with ledger := ledger }

/-- A group commit nothing was recorded through yet. -/
def groupRuns {F : Type} [One F] (ledger : LedgerState F) : Lts (GroupState F) GroupEvent where
  init s := s = { state := .new, calls := [], ledger := ledger, commits := [] }
  step := GroupStep

end Ratum
