import Ratum.Gateway.Publications
import Ratum.Gateway.SendShare

/-!
# Shares across sessions

The gateway over the sessions of its pools: the two threads that publish jobs, the miners' connections,
which queue shares on the jobs they read at any time, and the part of `gateway/src/datum.rs` and
`gateway/src/datum/session/shares.rs` that ends a session, discards the queue and sends what is queued. A
template request that fails leaves nothing behind, so a fetch is one that was answered.
-/

namespace Ratum

/-! ### The configuration a job is built with -/

/-- Two configurations put the same in the work built with them. -/
structure SameTerms (a b : ClientConfig) : Prop where
  payoutScript_eq : a.payoutScript = b.payoutScript
  primeId_eq : a.primeId = b.primeId
  coinbaseTag_eq : a.coinbaseTag = b.coinbaseTag

/-- The job is what is built with the configuration's payout script, prime id and tag. -/
def BuiltFor (H : Hashing) (c : JobConfig) (config : ClientConfig) (job : Job) : Prop :=
  ∃ (inputs : JobInputs) (used : ClientConfig) (clocks : Clocks), inputs.poolConfig = some used ∧
    SameTerms used config ∧ build H c inputs clocks.unixNow clocks.now = .ok job

/-- Whether work under the configuration commits to an assignment. -/
def requiresAssignment (config : ClientConfig) : Bool := config.v3.isSome && !abwDisabled config

theorem SameTerms.refl (config : ClientConfig) : SameTerms config config := ⟨rfl, rfl, rfl⟩

theorem build_poolPayoutScript {H : Hashing} {c : JobConfig} {j : JobInputs} {unixNow : Nat}
    {now : Instant} {job : Job} (hbuild : build H c j unixNow now = .ok job) :
    job.poolPayoutScript = c.payoutScript j.poolConfig := by
  simp only [build] at hbuild
  split at hbuild
  · cases hbuild
  split at hbuild
  · split at hbuild
    · cases hbuild
    split at hbuild
    · obtain rfl := Except.ok.inj hbuild
      rfl
    · cases hbuild
  · cases hbuild

/-- A job pays the pool whose configuration it was built for. -/
theorem BuiltFor.poolPayoutScript_eq {H : Hashing} {c : JobConfig} {config : ClientConfig} {job : Job}
    (hbuilt : BuiltFor H c config job) : job.poolPayoutScript = config.payoutScript := by
  obtain ⟨inputs, used, clocks, hused, hterms, hbuild⟩ := hbuilt
  rw [build_poolPayoutScript hbuild, hused]
  exact hterms.payoutScript_eq

theorem SessionView.abwState_eq_notRequired {view : SessionView} :
    view.abwState = .notRequired ↔ view.config.any requiresAssignment = false := by
  show (if !(view.config.any requiresAssignment) then AbwState.notRequired
    else view.abw.assignment.elim .awaiting .assigned) = .notRequired ↔ _
  cases view.config.any requiresAssignment <;> cases view.abw.assignment <;> simp

/-! ### The system -/

/-- The gateway with what its sessions left. The last four fields record what happened, and no step depends
on them. -/
structure SessionShares where
  publishing : Publishing
  /-- The jobs the miners' connections read from the slots. -/
  read : List Job
  queue : ShareQueue
  /-- The shares taken from the queue and not yet looked at. -/
  batch : List QueuedShare
  sentSections : SentTable
  /-- The session's view is reset and the queue not yet discarded. -/
  clearing : Bool
  session : Nat
  /-- The configurations received in the session, the last one first. -/
  received : List ClientConfig
  /-- The session in which the template thread last read a configuration. -/
  configRead : Nat
  /-- The jobs built, each with the session whose configuration it was built with. -/
  builtIn : List (Job × Nat)

inductive SharesEvent
  | publishing (event : PublishEvent)
  | configured (config : ClientConfig)
  | ended
  | took
  | sent (share : QueuedShare) (submit : PowSubmit)
  | quiet

namespace SessionShares

def recordBuilt (session : Nat) (builtIn : List (Job × Nat)) : PublishEvent → List (Job × Nat)
  | .built job _ => (job, session) :: builtIn
  | _ => builtIn

variable (s : SessionShares)

/-- The session the template thread's configuration is of after its next step: an idle thread reads it. -/
def configReadNext : Nat :=
  match s.publishing.templateThread with
  | .idle => s.session
  | _ => s.configRead

end SessionShares

section Steps

variable (H : Hashing) (c : JobConfig) (protocolV3 : Bool) (xorKeyHash : XorKey → Hash) (d : DatumConfig)
  (poolAddress : String)

inductive SharesStep : SessionShares → SharesEvent → SessionShares → Prop
  | template {s : SessionShares} {event : PublishEvent} {p : Publishing}
      (hstep : PublishStep H c protocolV3 xorKeyHash s.publishing event p)
      (hthread : p.templateThread ≠ s.publishing.templateThread) :
      SharesStep s (.publishing event)
        { s with
          publishing := p
          configRead := s.configReadNext
          builtIn := SessionShares.recordBuilt s.configRead s.builtIn event }
  /-- The session thread, but for what the two steps after this one do. -/
  | session {s : SessionShares} {event : PublishEvent} {p : Publishing} (hopen : s.clearing = false)
      (hdone : s.batch = []) (hstep : PublishStep H c protocolV3 xorKeyHash s.publishing event p)
      (hthread : p.templateThread = s.publishing.templateThread)
      (hconfig : p.gateway.pool.config = s.publishing.gateway.pool.config)
      (hevent : event ≠ .disconnected) :
      SharesStep s (.publishing event)
        { s with
          publishing := p
          builtIn := SessionShares.recordBuilt s.session s.builtIn event }
  | configure {s : SessionShares} (config : ClientConfig) (hopen : s.clearing = false)
      (hdone : s.batch = []) (hidle : s.publishing.sessionThread = .idle)
      (haccepted : config.v3.isSome = true → protocolV3 = true) :
      SharesStep s (.configured config)
        { s with
          publishing.gateway.pool := s.publishing.gateway.pool.onConfig protocolV3 config
          received := withRoundedMinDifficulty config :: s.received }
  /-- The session ends, whatever shares it took: the first half of `clear_after_disconnect`. -/
  | disconnect {s : SessionShares} (hopen : s.clearing = false)
      (hidle : s.publishing.sessionThread = .idle) :
      SharesStep s .ended
        { s with
          publishing.gateway.pool := .default
          publishing.awaitingCoinbaser := none
          batch := []
          sentSections := fun _ => none
          clearing := true
          session := s.session + 1
          received := [] }
  | clear {s : SessionShares} (hclearing : s.clearing = true) :
      SharesStep s .quiet { s with queue := { s.queue with queue := [] }, clearing := false }
  | read {s : SessionShares} {slot : UInt8} {job : Job}
      (hat : s.publishing.gateway.jobs.at? slot = some job) :
      SharesStep s .quiet { s with read := job :: s.read }
  | queueShare {s : SessionShares} {share : QueuedShare} (hread : share.job ∈ s.read)
      (hdatum : share.job.isDatumJob = true) :
      SharesStep s .quiet { s with queue := s.queue.queueShare share }
  | takeQueued {s : SessionShares} (hopen : s.clearing = false) (hdone : s.batch = [])
      (hidle : s.publishing.sessionThread = .idle)
      (hready : protocolV3 = true → s.publishing.gateway.pool.config.isSome ∧
        s.publishing.gateway.pool.abwState ≠ .awaiting) :
      SharesStep s .took { s with queue := { s.queue with queue := [] }, batch := s.queue.queue }
  | send {s : SessionShares} {share : QueuedShare} {rest : List QueuedShare} {submit : PowSubmit}
      {sentSections : SentTable} (hbatch : s.batch = share :: rest)
      (hsend : sendShare d poolAddress s.publishing.gateway.jobs s.publishing.gateway.pool.abw s.sentSections
        share = (some submit, sentSections)) :
      SharesStep s (.sent share submit) { s with batch := rest, sentSections }
  | withhold {s : SessionShares} {share : QueuedShare} {rest : List QueuedShare} {sentSections : SentTable}
      (hbatch : s.batch = share :: rest)
      (hsend : sendShare d poolAddress s.publishing.gateway.jobs s.publishing.gateway.pool.abw s.sentSections
        share = (none, sentSections)) :
      SharesStep s .quiet { s with batch := rest, sentSections }

def sessionShares (slots queueCapacity : Nat) (keep : Duration) : Lts SessionShares SharesEvent where
  init s := s = ⟨.start slots keep, [], .new queueCapacity, [], fun _ => none, false, 0, [], 0, []⟩
  step := SharesStep H c protocolV3 xorKeyHash d poolAddress

end Steps

end Ratum
