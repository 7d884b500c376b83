import Ratum.Base.Lts
import Ratum.Gateway.Builder
import Ratum.Gateway.JobTable

/-!
# Publishing work

`gateway/src/publish.rs` and the parts of `gateway/src/datum.rs` and `gateway/src/datum/session.rs` it
rests on. The template thread runs `on_template`, the session thread sends the coinbaser requests left for
it and runs `on_coinbaser`. Each takes one lock at a time, so a thread is where it stands between two
locks, and a step is one of its locked regions. What is only logged or shown is left out.
-/

namespace Ratum

/-! ### The connection's view -/

/-- The value under which the pool dictates no split. -/
def MIN_COINBASER_VALUE : Nat := 31250000

def COINBASER_WAIT : Duration := Duration.fromSecs 5

/-- A coinbaser request left for the session thread, with the template whose job the answer is for. -/
structure PendingCoinbaser where
  value : Nat
  prevHash : Hash
  template : Template
  newBlock : Bool
  requestedAt : Instant

/-- What one connection has told the gateway. -/
structure SessionView where
  config : Option ClientConfig
  abw : AbwAssignments
  coinbaserRequest : Option PendingCoinbaser

/-- Whether new work commits to an assignment, and to which. -/
inductive AbwState
  | notRequired
  | awaiting
  | assigned (a : AbwAssignment)
  deriving DecidableEq

def abwDisabled (c : ClientConfig) : Bool := c.v3.any V3Config.abwDisabled

def withRoundedMinDifficulty (c : ClientConfig) : ClientConfig :=
  { c with minDifficulty := pow2Ceil c.minDifficulty }

namespace SessionView

/-- The view while no connection has said anything. -/
def default : SessionView where
  config := none
  abw := .default
  coinbaserRequest := none

variable (view : SessionView)

def abwState : AbwState :=
  if !(view.config.any fun c => c.v3.isSome && !abwDisabled c) then .notRequired
  else view.abw.assignment.elim .awaiting .assigned

/-- Leaves a request, replacing the one an older template left; false when the pool dictates no split for
the value or there is no pool to ask. -/
def requestCoinbaser (now : Instant) (template : Template) (newBlock : Bool) : Bool × SessionView :=
  if template.coinbaseValue < MIN_COINBASER_VALUE then (false, view)
  else if view.config.isNone then (false, view)
  else
    (true,
      { view with
        coinbaserRequest := some
          { value := template.coinbaseValue
            prevHash := template.prevHash
            template
            newBlock
            requestedAt := now } })

/-- A configuration the pool sent. Version 3 in answer to the version 1 hello is ignored. -/
def onConfig (protocolV3 : Bool) (c : ClientConfig) : SessionView :=
  if c.v3.isSome && !protocolV3 then view
  else
    let config := withRoundedMinDifficulty c
    { view with
      config := some config
      abw := if view.config.any fun p => abwDisabled p ≠ abwDisabled config then .default else view.abw }

theorem onConfig_coinbaserRequest (protocolV3 : Bool) (config : ClientConfig) :
    (view.onConfig protocolV3 config).coinbaserRequest = view.coinbaserRequest := by
  rw [onConfig]
  split <;> rfl

end SessionView

/-! ### One job served -/

/-- What the two threads share. -/
structure Gateway where
  pool : SessionView
  jobs : JobTable
  nextJobSerial : Nat

/-- Which build of a template is served. -/
inductive Build
  | priority
  | full (newBlock : Bool)
  deriving DecidableEq

def Build.announcesTip : Build → Bool
  | priority => true
  | full newBlock => newBlock

/-- The arguments of `build_and_publish`. -/
structure Work where
  template : Template
  what : Build
  poolConfig : Option ClientConfig
  coinbaser : Option CoinbaserResponse

/-- Where a thread stands in `build_and_publish`. -/
inductive Serving
  /-- Before it reads the assignment. -/
  | starting
  /-- Before it marks the jobs off the tip it can build nothing on. -/
  | staleMarking
  /-- Before it takes the serial and builds. -/
  | committing (abw : Option AbwAssignment)
  /-- Before it publishes the job as empty work. -/
  | announcing (job : Job)
  /-- Before it publishes the job as pooled work. -/
  | publishing (job : Job)

/-- What a step did that others can observe. -/
inductive PublishEvent
  | tipSet (prevHash : Hash)
  | published (job : Job) (kind : CoinbaseKind)
  | staleMarked (prevHash : Hash)
  | built (job : Job) (coinbaser : Option CoinbaserResponse)
  | requested (p : PendingCoinbaser)
  | answered (r : CoinbaserResponse)
  | malformed
  | disconnected
  | quiet

/-- What the clocks read in a step. -/
structure Clocks where
  unixNow : Nat
  now : Instant

namespace Gateway

variable (H : Hashing) (c : JobConfig) (clocks : Clocks) (g : Gateway) (work : Work)

/-- Publishes the job and goes on to `next`, or returns when the table refuses the job. -/
def publish (job : Job) (kind : CoinbaseKind) (next : Option Serving) :
    PublishEvent × Gateway × Option Serving :=
  match g.jobs.publish clocks.now job kind with
  | (true, jobs) => (.published job kind, { g with jobs }, next)
  | (false, _) => (.quiet, g, none)

/-- The next step of `build_and_publish`, and where it leaves the thread; none when it returns. -/
def serve : Serving → PublishEvent × Gateway × Option Serving
  | .starting =>
      if work.poolConfig.isNone then (.quiet, g, some (.committing none))
      else
        match g.pool.abwState with
        | .notRequired => (.quiet, g, some (.committing none))
        | .assigned a => (.quiet, g, some (.committing (some a)))
        | .awaiting => (.quiet, g, some .staleMarking)
  | .staleMarking =>
      (.staleMarked work.template.prevHash,
        { g with jobs := g.jobs.markStaleOff work.template.prevHash }, none)
  | .committing abw =>
      let g' := { g with nextJobSerial := g.nextJobSerial + 1 }
      let inputs : JobInputs :=
        { serial := g.nextJobSerial
          template := work.template
          poolConfig := work.poolConfig
          coinbaser := work.coinbaser
          abw }
      match build H c inputs clocks.unixNow clocks.now with
      | .error _ => (.quiet, g', none)
      | .ok job =>
          (.built job work.coinbaser, g',
            some (if work.what.announcesTip then .announcing job else .publishing job))
  | .announcing job => g.publish clocks job .subsidyOnly (some (.publishing job))
  | .publishing job => g.publish clocks job .pooled none

end Gateway

/-! ### The two threads -/

/-- Where the template thread stands. -/
inductive TemplateThread
  | idle
  /-- It has read the pool's configuration and waits for the node's template. -/
  | fetching (poolConfig : Option ClientConfig)
  | serving (work : Work) (at_ : Serving) (next : Option (Template × Bool × ClientConfig))
  /-- Before it leaves the coinbaser request. -/
  | requesting (template : Template) (newBlock : Bool) (config : ClientConfig)

/-- Where the session thread stands. -/
inductive SessionThread
  | idle
  /-- In `on_coinbaser`, before it reads the tip. -/
  | completing (pending : PendingCoinbaser) (split : Option CoinbaserResponse)
  /-- In `on_coinbaser`, before it reads the configuration. -/
  | configuring (pending : PendingCoinbaser) (split : Option CoinbaserResponse)
  | serving (work : Work) (at_ : Serving)

structure Publishing where
  gateway : Gateway
  templateThread : TemplateThread
  sessionThread : SessionThread
  /-- The request sent and not yet answered. -/
  awaitingCoinbaser : Option PendingCoinbaser

namespace TemplateThread

/-- `on_template` after it recorded the tip. -/
def onTemplate (template : Template) (newBlock : Bool) : Option ClientConfig → TemplateThread
  | none =>
      serving { template, what := .full newBlock, poolConfig := none, coinbaser := none } .starting none
  | some config =>
      if newBlock then
        serving { template, what := .priority, poolConfig := some config, coinbaser := none } .starting
          (some (template, newBlock, config))
      else requesting template newBlock config

/-- What follows the job served first. -/
def resume : Option (Template × Bool × ClientConfig) → TemplateThread
  | none => idle
  | some (template, newBlock, config) => requesting template newBlock config

/-- What follows the request, which was left or not. -/
def afterRequest (template : Template) (newBlock : Bool) (config : ClientConfig) (left : Bool) :
    TemplateThread :=
  if !left && !newBlock then
    serving { template, what := .full false, poolConfig := some config, coinbaser := none } .starting none
  else idle

end TemplateThread

namespace SessionThread

/-- `on_coinbaser` after it read the tip. -/
def afterTip (tip : Option Hash) (pending : PendingCoinbaser) (split : Option CoinbaserResponse) :
    SessionThread :=
  if tip ≠ some pending.template.prevHash then idle else configuring pending split

/-- `on_coinbaser` after it read the configuration. -/
def afterConfig (poolConfig : Option ClientConfig) (pending : PendingCoinbaser)
    (split : Option CoinbaserResponse) : SessionThread :=
  if split.isNone && pending.newBlock && poolConfig.isSome then idle
  else
    serving { template := pending.template, what := .full false, poolConfig, coinbaser := split } .starting

end SessionThread

namespace Publishing

def start (slots : Nat) (keep : Duration) : Publishing where
  gateway := { pool := .default, jobs := .new slots keep, nextJobSerial := 0 }
  templateThread := .idle
  sessionThread := .idle
  awaitingCoinbaser := none

variable (s : Publishing)

/-- A response is paired with the request awaited by its value. -/
def onCoinbaserResponse (r : CoinbaserResponse) : Publishing :=
  match s.awaitingCoinbaser with
  | none => s
  | some pending =>
      if pending.value = r.value then
        { s with sessionThread := .completing pending (some r), awaitingCoinbaser := none }
      else s

/-- A malformed response takes the request awaited, whose job then pays the pool's script alone. -/
def onMalformedResponse : Publishing :=
  match s.awaitingCoinbaser with
  | none => s
  | some pending =>
      let empty : CoinbaserResponse := { value := pending.value, coinbaserId := 0, outputs := [] }
      { s with sessionThread := .completing pending (some empty), awaitingCoinbaser := none }

end Publishing

section Steps

variable (H : Hashing) (c : JobConfig) (protocolV3 : Bool) (xorKeyHash : XorKey → Hash)

inductive PublishStep : Publishing → PublishEvent → Publishing → Prop
  | fetch {s : Publishing} (hat : s.templateThread = .idle) :
      PublishStep s .quiet { s with templateThread := .fetching s.gateway.pool.config }
  | onTemplate {s : Publishing} {poolConfig : Option ClientConfig} (template : Template)
      (newBlock : Bool) (hat : s.templateThread = .fetching poolConfig) :
      PublishStep s (.tipSet template.prevHash)
        { s with
          gateway.jobs := s.gateway.jobs.setTip template.prevHash
          templateThread := .onTemplate template newBlock poolConfig }
  | templateServes {s : Publishing} {work : Work} {at_ : Serving}
      {next : Option (Template × Bool × ClientConfig)} {event : PublishEvent} {g' : Gateway}
      {then_ : Option Serving} (clocks : Clocks) (hat : s.templateThread = .serving work at_ next)
      (hserve : s.gateway.serve H c clocks work at_ = (event, g', then_)) :
      PublishStep s event
        { s with
          gateway := g'
          templateThread := then_.elim (.resume next) fun at_ => .serving work at_ next }
  | requestCoinbaser {s : Publishing} {template : Template} {newBlock : Bool} {config : ClientConfig}
      (now : Instant) (hat : s.templateThread = .requesting template newBlock config) :
      PublishStep s .quiet
        { s with
          gateway.pool := (s.gateway.pool.requestCoinbaser now template newBlock).2
          templateThread := .afterRequest template newBlock config
            (s.gateway.pool.requestCoinbaser now template newBlock).1 }
  | send {s : Publishing} {pending : PendingCoinbaser} (hidle : s.sessionThread = .idle)
      (hpending : s.gateway.pool.coinbaserRequest = some pending) :
      PublishStep s (.requested pending)
        { s with
          gateway.pool.coinbaserRequest := none
          awaitingCoinbaser := some pending }
  | expire {s : Publishing} {pending : PendingCoinbaser} (now : Instant)
      (hidle : s.sessionThread = .idle) (hawaiting : s.awaitingCoinbaser = some pending)
      (hdue : COINBASER_WAIT ≤ now - pending.requestedAt) :
      PublishStep s .quiet
        { s with sessionThread := .completing pending none, awaitingCoinbaser := none }
  | answer {s : Publishing} (r : CoinbaserResponse) (hidle : s.sessionThread = .idle) :
      PublishStep s (.answered r) (s.onCoinbaserResponse r)
  | malformed {s : Publishing} (hidle : s.sessionThread = .idle) :
      PublishStep s .malformed s.onMalformedResponse
  | configure {s : Publishing} (config : ClientConfig) (hidle : s.sessionThread = .idle) :
      PublishStep s .quiet { s with gateway.pool := s.gateway.pool.onConfig protocolV3 config }
  | assignment {s : Publishing} (plain : Bytes) (hidle : s.sessionThread = .idle) :
      PublishStep s .quiet
        { s with gateway.pool.abw := (onMining xorKeyHash s.gateway.pool.abw plain).2 }
  | disconnect {s : Publishing} (hidle : s.sessionThread = .idle) :
      PublishStep s .disconnected { s with gateway.pool := .default, awaitingCoinbaser := none }
  | checkTip {s : Publishing} {pending : PendingCoinbaser} {split : Option CoinbaserResponse}
      (hat : s.sessionThread = .completing pending split) :
      PublishStep s .quiet
        { s with sessionThread := .afterTip s.gateway.jobs.tip pending split }
  | readConfig {s : Publishing} {pending : PendingCoinbaser} {split : Option CoinbaserResponse}
      (hat : s.sessionThread = .configuring pending split) :
      PublishStep s .quiet
        { s with sessionThread := .afterConfig s.gateway.pool.config pending split }
  | sessionServes {s : Publishing} {work : Work} {at_ : Serving} {event : PublishEvent}
      {g' : Gateway} {then_ : Option Serving} (clocks : Clocks)
      (hat : s.sessionThread = .serving work at_)
      (hserve : s.gateway.serve H c clocks work at_ = (event, g', then_)) :
      PublishStep s event
        { s with
          gateway := g'
          sessionThread := then_.elim .idle fun at_ => .serving work at_ }

/-- The interleavings of the two threads over a table of `slots` slots. -/
def publishing (slots : Nat) (keep : Duration) : Lts Publishing PublishEvent where
  init s := s = .start slots keep
  step := PublishStep H c protocolV3 xorKeyHash

end Steps

/-! ### What a step of `build_and_publish` does -/

/-- The steps of `build_and_publish`. -/
inductive Served (H : Hashing) (g : Gateway) (work : Work) :
    Serving → PublishEvent → Gateway → Option Serving → Prop
  | commits (abw : Option AbwAssignment)
      (hstate : work.poolConfig = none ∨ g.pool.abwState ≠ .awaiting) :
      Served H g work .starting .quiet g (some (.committing abw))
  | awaits (hconfig : work.poolConfig ≠ none) (hawaiting : g.pool.abwState = .awaiting) :
      Served H g work .starting .quiet g (some .staleMarking)
  | marks :
      Served H g work .staleMarking (.staleMarked work.template.prevHash)
        { g with jobs := g.jobs.markStaleOff work.template.prevHash } none
  | fails (abw : Option AbwAssignment) :
      Served H g work (.committing abw) .quiet { g with nextJobSerial := g.nextJobSerial + 1 } none
  | builds {abw : Option AbwAssignment} {job : Job}
      (hbuilt : BuiltFrom H
        { serial := g.nextJobSerial, template := work.template, poolConfig := work.poolConfig
          coinbaser := work.coinbaser, abw } job) :
      Served H g work (.committing abw) (.built job work.coinbaser)
        { g with nextJobSerial := g.nextJobSerial + 1 }
        (some (if work.what.announcesTip then .announcing job else .publishing job))
  | refusesEmpty (job : Job) : Served H g work (.announcing job) .quiet g none
  | refuses (job : Job) : Served H g work (.publishing job) .quiet g none
  | announces {job : Job} {jobs : JobTable}
      (hpublished : JobTable.Published g.jobs job .subsidyOnly jobs) :
      Served H g work (.announcing job) (.published job .subsidyOnly) { g with jobs }
        (some (.publishing job))
  | publishes {job : Job} {jobs : JobTable}
      (hpublished : JobTable.Published g.jobs job .pooled jobs) :
      Served H g work (.publishing job) (.published job .pooled) { g with jobs } none

variable {H : Hashing} {c : JobConfig}

theorem Gateway.serve_cases {clocks : Clocks} {g g' : Gateway} {work : Work} {at_ : Serving}
    {event : PublishEvent} {then_ : Option Serving}
    (hserve : g.serve H c clocks work at_ = (event, g', then_)) : Served H g work at_ event g' then_ := by
  cases at_ with
  | starting =>
      simp only [Gateway.serve] at hserve
      split at hserve
      · rename_i hconfig
        cases hserve
        exact .commits none (.inl (Option.isNone_iff_eq_none.mp hconfig))
      · rename_i hconfig
        split at hserve
        · rename_i hstate
          cases hserve
          exact .commits none (.inr (by simp [hstate]))
        · rename_i a hstate
          cases hserve
          exact .commits (some a) (.inr (by simp [hstate]))
        · rename_i hstate
          cases hserve
          exact .awaits (fun hnone => hconfig (by simp [hnone])) hstate
  | staleMarking =>
      cases hserve
      exact .marks
  | committing abw =>
      simp only [Gateway.serve] at hserve
      split at hserve
      · cases hserve
        exact .fails abw
      · rename_i job hbuild
        cases hserve
        exact .builds (build_eq_ok hbuild)
  | announcing job =>
      simp only [Gateway.serve, Gateway.publish] at hserve
      split at hserve
      · rename_i jobs hpublish
        cases hserve
        exact .announces (JobTable.publish_eq_true hpublish)
      · cases hserve
        exact .refusesEmpty job
  | publishing job =>
      simp only [Gateway.serve, Gateway.publish] at hserve
      split at hserve
      · rename_i jobs hpublish
        cases hserve
        exact .publishes (JobTable.publish_eq_true hpublish)
      · cases hserve
        exact .refuses job

theorem Served.pool_eq {g g' : Gateway} {work : Work} {at_ : Serving} {event : PublishEvent}
    {then_ : Option Serving} (hserved : Served H g work at_ event g' then_) : g'.pool = g.pool := by
  cases hserved <;> rfl

theorem Served.abwState_awaiting {g g' : Gateway} {work : Work} {at_ : Serving} {event : PublishEvent}
    {then_ : Option Serving} (hserved : Served H g work at_ event g' then_)
    (hthen : then_ = some .staleMarking) : g.pool.abwState = .awaiting := by
  cases hserved with
  | awaits _ hawaiting => exact hawaiting
  | builds _ =>
      rw [Option.some.injEq] at hthen
      split at hthen <;> cases hthen
  | _ => cases hthen

/-! ### Steps that succeed -/

theorem Gateway.serve_committing {clocks : Clocks} {g : Gateway} {work : Work}
    {abw : Option AbwAssignment} {job : Job}
    (hbuild : build H c
      { serial := g.nextJobSerial, template := work.template, poolConfig := work.poolConfig
        coinbaser := work.coinbaser, abw } clocks.unixNow clocks.now = .ok job) :
    g.serve H c clocks work (.committing abw) =
      (.built job work.coinbaser, { g with nextJobSerial := g.nextJobSerial + 1 },
        some (if work.what.announcesTip then .announcing job else .publishing job)) := by
  simp only [Gateway.serve, hbuild]

theorem Gateway.publish_eq {clocks : Clocks} {g : Gateway} {job : Job} {kind : CoinbaseKind}
    {jobs : JobTable} (hpublish : g.jobs.publish clocks.now job kind = (true, jobs))
    (next : Option Serving) :
    g.publish clocks job kind next = (.published job kind, { g with jobs }, next) := by
  simp only [Gateway.publish, hpublish]

end Ratum
