import Ratum.Core.Bytes
import Ratum.Core.Clock
import Ratum.Core.Io

/-!
# A polled socket

`core/src/poll.rs`: the loops of `read_exact` and `write_all`, a turn at a time. What the system calls of a
turn answer, and what the clock reads at each of its readings, is an argument of the turn. How long a poll
waits for is left out.
-/

namespace Ratum

def WRITE_TIMEOUT : Duration := .fromSecs 30

inductive SocketError
  | timedOut (message : String)
  | unexpectedEof
  | writeZero
  | invalidData (message : String)
  | io (e : IoError)

namespace PolledSocket

inductive ReadAnswer
  | bytes (got : Bytes)
  | wouldBlock
  | interrupted
  | failed (e : IoError)

/-- What a poll answers: whether it found the socket readable. -/
inductive PollAnswer
  | events (readable : Bool)
  | interrupted
  | failed (e : IoError)

inductive WriteAnswer
  | wrote (n : Nat)
  | wouldBlock
  | interrupted
  | failed (e : IoError)

/-- The bytes read, if any were waiting, and whether the socket is still readable. -/
def read (readable : Bool) : ReadAnswer → Except SocketError (Option Bytes) × Bool
  | .bytes got => (.ok (some got), readable)
  | .wouldBlock => (.ok none, false)
  | .interrupted => (.ok none, readable)
  | .failed e => (.error (.io e), readable)

def wait (readable : Bool) : PollAnswer → Except SocketError Bool
  | .events found => .ok (readable || found)
  | .interrupted => .ok readable
  | .failed e => .error (.io e)

/-! ### Reading a buffer full -/

/-- The variables of the loop of `read_exact`: the bytes read of a buffer of `size`, and two instants. -/
structure ReadExact where
  size : Nat
  got : Bytes
  started : Instant
  idleSince : Instant

def ReadExact.start (size : Nat) (got : Bytes) (now : Instant) : ReadExact := ⟨size, got, now, now⟩

/-- What a turn of the loop is answered, call by call. -/
structure ReadTurn where
  now : Instant
  idleNow : Instant
  poll : PollAnswer
  read : ReadAnswer
  readAt : Instant

/-- The loop goes on, with the socket readable or not, or ends early. -/
inductive ReadOutcome
  | goesOn (loop : ReadExact) (readable : Bool)
  | fails (e : SocketError)

/-- One turn of the loop, taken while the buffer is not full. -/
def ReadExact.turn (idle total : Duration) (loop : ReadExact) (readable : Bool) (a : ReadTurn) : ReadOutcome :=
  if total ≤ a.now - loop.started then .fails (.timedOut "read exceeded its deadline")
  else if !readable then
    if idle - (a.idleNow - loop.idleSince) = 0 then .fails (.timedOut "read stalled")
    else
      match wait readable a.poll with
      | .error e => .fails e
      | .ok readable => .goesOn loop readable
  else
    match PolledSocket.read readable a.read with
    | (.error e, _) => .fails e
    | (.ok none, readable) => .goesOn loop readable
    | (.ok (some []), _) => .fails .unexpectedEof
    | (.ok (some got), readable) => .goesOn { loop with got := loop.got ++ got, idleSince := a.readAt } readable

def ReadExact.room (loop : ReadExact) : Nat := loop.size - loop.got.length

/-- A turn goes on with the bytes a read gave, if it made one and it gave any. -/
theorem ReadExact.goesOn_cases {idle total : Duration} {loop loop' : ReadExact} {readable readable' : Bool}
    {a : ReadTurn} (h : loop.turn idle total readable a = .goesOn loop' readable') :
    loop' = loop ∨ ∃ got, readable = true ∧ a.read = .bytes got ∧ loop'.size = loop.size ∧
      loop'.got = loop.got ++ got := by
  unfold turn at h
  split at h
  · cases h
  · split at h
    · split at h
      · cases h
      · split at h
        · cases h
        · cases h
          exact .inl rfl
    case isFalse hreadable =>
      have hreadable : readable = true := by simpa using hreadable
      cases hanswer : a.read with
      | bytes got =>
          rw [hanswer] at h
          cases got with
          | nil => cases h
          | cons b got =>
              cases h
              exact .inr ⟨b :: got, hreadable, rfl, rfl, rfl⟩
      | wouldBlock =>
          rw [hanswer] at h
          cases h
          exact .inl rfl
      | interrupted =>
          rw [hanswer] at h
          cases h
          exact .inl rfl
      | failed e =>
          rw [hanswer] at h
          cases h

/-- A turn that ends for the end of the stream read no byte. -/
theorem ReadExact.read_of_unexpectedEof {idle total : Duration} {loop : ReadExact} {readable : Bool} {a : ReadTurn}
    (h : loop.turn idle total readable a = .fails .unexpectedEof) : readable = true ∧ a.read = .bytes [] := by
  unfold turn at h
  split at h
  · cases h
  · split at h
    · split at h
      · cases h
      · split at h
        case h_1 e herror =>
          cases hpoll : a.poll with
          | events found => rw [hpoll] at herror; cases herror
          | interrupted => rw [hpoll] at herror; cases herror
          | failed e' => rw [hpoll] at herror; cases herror; cases h
        · cases h
    case isFalse hreadable =>
      have hreadable : readable = true := by simpa using hreadable
      cases hanswer : a.read with
      | bytes got =>
          rw [hanswer] at h
          cases got with
          | nil => exact ⟨hreadable, rfl⟩
          | cons b got => cases h
      | wouldBlock => rw [hanswer] at h; cases h
      | interrupted => rw [hanswer] at h; cases h
      | failed e => rw [hanswer] at h; cases h

/-! ### Writing all of a buffer -/

structure WriteTurn where
  write : WriteAnswer
  now : Instant
  poll : PollAnswer

inductive WriteOutcome
  | goesOn (rest : Bytes)
  | fails (e : SocketError)

/-- One turn of the loop of `write_all`, taken while bytes are left. -/
def writeTurn (deadline : Instant) (rest : Bytes) (a : WriteTurn) : WriteOutcome :=
  match a.write with
  | .wrote 0 => .fails .writeZero
  | .wrote n => .goesOn (rest.drop n)
  | .interrupted => .goesOn rest
  | .wouldBlock =>
      if deadline - a.now = 0 then .fails (.timedOut "timed out")
      else
        match wait false a.poll with
        | .error e => .fails e
        | .ok _ => .goesOn rest
  | .failed e => .fails (.io e)

/-- What a turn hands to the system. -/
def WriteTurn.written (a : WriteTurn) (rest : Bytes) : Bytes :=
  match a.write with
  | .wrote n => rest.take n
  | _ => []

theorem written_append_of_goesOn {deadline : Instant} {rest rest' : Bytes} {a : WriteTurn}
    (h : writeTurn deadline rest a = .goesOn rest') : a.written rest ++ rest' = rest := by
  unfold writeTurn at h
  unfold WriteTurn.written
  cases hanswer : a.write with
  | wrote n =>
      rw [hanswer] at h
      cases n with
      | zero => cases h
      | succ n =>
          cases h
          exact List.take_append_drop _ _
  | interrupted =>
      rw [hanswer] at h
      cases h
      rfl
  | wouldBlock =>
      rw [hanswer] at h
      dsimp only at h
      split at h
      · cases h
      · split at h
        · cases h
        · cases h
          rfl
  | failed e =>
      rw [hanswer] at h
      cases h

end PolledSocket

end Ratum
