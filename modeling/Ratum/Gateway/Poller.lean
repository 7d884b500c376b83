import Ratum.Base.Traces
import Ratum.Gateway.Job

/-!
# The template thread's wait

`gateway/src/template/waker.rs` and `gateway/src/template/poller.rs`. What interrupts the wait is pending
until the wait takes it, several requests as one wake, and the poller turns a wake and the next template
into work. The template a node answers with and the best block it reports are inputs; what is only logged
is left out, `no_blake2b_rule_reported` with it, and so is the work done with a template.
-/

namespace Ratum

def NOTIFY_PATIENCE : Duration := Duration.fromSecs 4

def NOTIFY_RETRY_DELAY : Duration := 250000000

def REPEAT_WINDOW : Duration := 2500000000

def POLL_RETRY_DELAY : Duration := Duration.fromSecs 1

/-! ### The waker -/

inductive PendingBlock
  | anyBlock
  | hash (h : String)
  deriving DecidableEq

def PendingBlock.hash? : PendingBlock → Option String
  | anyBlock => none
  | hash h => some h

structure PendingWakes where
  block : Option PendingBlock
  rebuildRequested : Bool
  refreshRequested : Bool
  deriving DecidableEq

inductive Wake
  /-- The tip the notification names, none when any pending one named no tip, and whether a rebuild was
  requested with it. -/
  | block (hash : Option String) (rebuild : Bool)
  | rebuild
  | refresh
  | timeout
  deriving DecidableEq

namespace PendingWakes

def default : PendingWakes := ⟨none, false, false⟩

variable (p : PendingWakes)

def raiseBlock (hash : Option String) : PendingWakes :=
  { p with
    block := some (match hash with
      | some h => if p.block = some .anyBlock then .anyBlock else .hash h
      | none => .anyBlock) }

def rebuild : PendingWakes := { p with rebuildRequested := true }

def refresh : PendingWakes := { p with refreshRequested := true }

/-- What ends a wait before its deadline. -/
def any : Bool := p.block.isSome || p.rebuildRequested || p.refreshRequested

/-- What a wait that takes them reports. -/
def wake : Wake :=
  match p.block with
  | some pending => .block pending.hash? p.rebuildRequested
  | none => if p.rebuildRequested then .rebuild else if p.refreshRequested then .refresh else .timeout

end PendingWakes

/-! ### The poller -/

inductive Action
  | build (newBlock : Bool)
  | skip
  deriving DecidableEq

inductive Wanted
  | fetch
  | awaitTip
  | nothing
  deriving DecidableEq

/-- What the poller carries between templates. -/
structure Poller where
  lastPrevHash : Option Hash
  lastBlockChangeAt : Option Instant
  forceClean : Bool
  deriving DecidableEq

namespace Poller

def new : Poller := ⟨none, none, false⟩

variable (p : Poller)

def classify (now : Instant) (template : Template) : Action × Poller :=
  let tipChanged := p.lastPrevHash ≠ some template.prevHash
  let newBlock := tipChanged || p.forceClean
  let p := { p with forceClean := false }
  if !template.blake2bRule then (.skip, { p with lastPrevHash := some template.prevHash })
  else if tipChanged then
    (.build newBlock,
      { p with lastPrevHash := some template.prevHash, lastBlockChangeAt := some now })
  else (.build newBlock, p)

def onRebuild : Poller := { p with forceClean := true }

def served : Option String := p.lastPrevHash.map hashToDisplayHex

/-- Whether the notification has the node's best block awaited. -/
def onBlockNotification (now : Instant) : Option String → Bool
  | some hash => p.served ≠ some hash
  | none => !p.lastBlockChangeAt.any fun t => now - t < REPEAT_WINDOW

def onWake (now : Instant) : Wake → Wanted × Poller
  | .block hash rebuild =>
      let p := if rebuild then p.onRebuild else p
      if p.onBlockNotification now hash then (.awaitTip, p)
      else if rebuild then (.fetch, p)
      else (.nothing, p)
  | .rebuild => (.fetch, p.onRebuild)
  | .refresh | .timeout => (.fetch, p)

/-- One reading of the node's best block in `await_new_tip`: whether a template is to be fetched, none when
the best block is to be read again. -/
def awaitNewTip (elapsed : Duration) : Option String → Option Bool
  | none => some true
  | some hash =>
      if p.served ≠ some hash then some true
      else if NOTIFY_PATIENCE ≤ elapsed then some p.forceClean
      else none

end Poller

/-! ### The loop -/

/-- Where the thread stands in `run`. -/
inductive PollerAt
  /-- At the top of the loop, with the local `fetch`. -/
  | top (fetch : Bool)
  /-- In the sleep after a failed request. -/
  | retrying (wakesAt : Instant)
  /-- Past the template, before the next update is set. -/
  | updated
  /-- Before the wait. -/
  | scheduled
  | waiting (deadline : Instant)
  /-- With what the wait took, and the notifications it was raised by. -/
  | woken (taken : PendingWakes) (notified : List (Option String))
  /-- In `await_new_tip`, before the best block is read at `readsAt`. -/
  | awaiting (taken : PendingWakes) (started readsAt : Instant)
  deriving DecidableEq

namespace PollerAt

/-- Where a wake leads. -/
def onWanted (taken : PendingWakes) (now : Instant) : Wanted → PollerAt
  | .fetch => top true
  | .awaitTip => awaiting taken now now
  | .nothing => top false

/-- Where a reading of the best block leads. -/
def onRead (taken : PendingWakes) (started now : Instant) : Option Bool → PollerAt
  | some fetch => top fetch
  | none => awaiting taken started (now + NOTIFY_RETRY_DELAY)

end PollerAt

/-- The template thread and the requests of the other threads. `notified` records the block notifications
pending requests were raised by, which the source does not keep. -/
structure PollerState where
  poller : Poller
  pending : PendingWakes
  notified : List (Option String)
  position : PollerAt
  nextUpdate : Instant
  now : Instant
  deriving DecidableEq

inductive PollEvent
  | elapsed (d : Duration)
  | raised (hash : Option String)
  | rebuildRequested
  | refreshRequested
  | fetchFailed
  | retried
  /-- A template was answered; `current` is the tip of the current job, and `action` what was done. -/
  | fetched (template : Template) (current : Option Hash) (action : Action)
  /-- No template is due. -/
  | passed
  | scheduled
  | waits
  | woke (taken : PendingWakes) (notified : List (Option String)) (served : Option String)
  | onWake
  | bestRead (best : Option String)

/-- A tip no job was served on is announced as a new block. -/
def Action.orUnserved (template : Template) (current : Option Hash) : Action → Action
  | build newBlock => build (newBlock || decide (current ≠ some template.prevHash))
  | skip => skip

namespace PollerState

/-- The next update is due at once. -/
def start (now : Instant) : PollerState := ⟨.new, .default, [], .top true, now, now⟩

variable (interval : Duration) (s : PollerState)

/-- Whether the top of the loop asks the node for a template. -/
def fetchDue (fetch : Bool) : Bool := fetch || decide (s.nextUpdate ≤ s.now)

/-- A step of a thread, none when it cannot be taken or does something else than the event says. -/
def step : PollEvent → Option PollerState
  | .elapsed d => some { s with now := s.now + d }
  | .raised hash =>
      some { s with pending := s.pending.raiseBlock hash, notified := s.notified ++ [hash] }
  | .rebuildRequested => some { s with pending := s.pending.rebuild }
  | .refreshRequested => some { s with pending := s.pending.refresh }
  | .fetchFailed =>
      match s.position with
      | .top fetch =>
          if s.fetchDue fetch then
            some { s with position := .retrying (s.now + POLL_RETRY_DELAY) }
          else none
      | _ => none
  | .retried =>
      match s.position with
      | .retrying wakesAt => if wakesAt ≤ s.now then some { s with position := .top true } else none
      | _ => none
  | .fetched template current action =>
      match s.position with
      | .top fetch =>
          let (classified, poller) := s.poller.classify s.now template
          if s.fetchDue fetch && decide (action = classified.orUnserved template current) then
            some { s with poller, position := .updated }
          else none
      | _ => none
  | .passed =>
      match s.position with
      | .top fetch => if s.fetchDue fetch then none else some { s with position := .scheduled }
      | _ => none
  | .scheduled =>
      match s.position with
      | .updated => some { s with nextUpdate := s.now + interval, position := .scheduled }
      | _ => none
  | .waits =>
      match s.position with
      | .scheduled => some { s with position := .waiting (s.now + (s.nextUpdate - s.now)) }
      | _ => none
  | .woke taken notified served =>
      match s.position with
      | .waiting deadline =>
          if (s.pending.any || decide (deadline ≤ s.now)) && decide (taken = s.pending) &&
              decide (notified = s.notified) && decide (served = s.poller.served) then
            some { s with pending := .default, notified := [], position := .woken taken notified }
          else none
      | _ => none
  | .onWake =>
      match s.position with
      | .woken taken _ =>
          let (wanted, poller) := s.poller.onWake s.now taken.wake
          some { s with poller, position := .onWanted taken s.now wanted }
      | _ => none
  | .bestRead best =>
      match s.position with
      | .awaiting taken started readsAt =>
          if readsAt ≤ s.now then
            let read := s.poller.awaitNewTip (s.now - started) best
            some { s with position := .onRead taken started s.now read }
          else none
      | _ => none

end PollerState

/-- The interleavings of the template thread with the threads that wake it. -/
def polling (interval : Duration) : Lts PollerState PollEvent where
  init s := ∃ now, s = .start now
  step s event s' := s.step interval event = some s'

end Ratum
