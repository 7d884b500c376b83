import Ratum.Gateway.Sections
import Ratum.Gateway.SessionShares

/-!
# Shares sent on their own session

A job built with a configuration its session received has that configuration's terms, and commits to an
assignment when every configuration the session received requires one. Both threads keep this for the
session they work for; a share taken from the queue keeps it unless its job is of an earlier session.
-/

namespace Ratum

/-! ### Work for a session -/

/-- Where a thread stands for a session that received the configurations. -/
def Serving.CommitsFor (received : List ClientConfig) (work : Work) : Serving → Prop
  | .committing abw => work.poolConfig.isSome → (∀ config ∈ received, requiresAssignment config = true) →
      abw.isSome = true
  | _ => True

/-- The work is of one of the configurations. -/
def Work.Of (received : List ClientConfig) (work : Work) : Prop :=
  ∀ config, work.poolConfig = some config → config ∈ received

def TemplateThread.WorksFor (received : List ClientConfig) : TemplateThread → Prop
  | idle => True
  | fetching poolConfig => ∀ config, poolConfig = some config → config ∈ received
  | serving work at_ next => work.Of received ∧ at_.CommitsFor received work ∧
      ∀ template newBlock config, next = some (template, newBlock, config) → config ∈ received
  | requesting _ _ config => config ∈ received

def SessionThread.WorksFor (received : List ClientConfig) : SessionThread → Prop
  | serving work at_ => work.Of received ∧ at_.CommitsFor received work
  | _ => True

/-- What a job built for the session is. -/
structure BuiltIn (H : Hashing) (c : JobConfig) (received : List ClientConfig) (job : Job) : Prop where
  terms : ∃ config ∈ received, BuiltFor H c config job
  commits : (∀ config ∈ received, requiresAssignment config = true) → job.abw.isSome = true

section Receives

variable {received : List ClientConfig} (config : ClientConfig)

theorem Serving.CommitsFor.receive {work : Work} {at_ : Serving} (hcommits : at_.CommitsFor received work) :
    at_.CommitsFor (config :: received) work := by
  cases at_ with
  | committing abw =>
      intro hconfig hall
      exact hcommits hconfig fun earlier hearlier => hall earlier (List.mem_cons_of_mem _ hearlier)
  | _ => trivial

theorem TemplateThread.WorksFor.receive {t : TemplateThread} (hworks : t.WorksFor received) :
    t.WorksFor (config :: received) := by
  cases t with
  | idle => trivial
  | fetching poolConfig => exact fun used hused => List.mem_cons_of_mem _ (hworks used hused)
  | serving work at_ next =>
      obtain ⟨hwork, hcommits, hnext⟩ := hworks
      refine ⟨fun used hused => List.mem_cons_of_mem _ (hwork used hused), hcommits.receive config, ?_⟩
      exact fun template newBlock used hused => List.mem_cons_of_mem _ (hnext template newBlock used hused)
  | requesting template newBlock used => exact List.mem_cons_of_mem _ hworks

theorem BuiltIn.receive {H : Hashing} {c : JobConfig} {job : Job} (hbuilt : BuiltIn H c received job) :
    BuiltIn H c (config :: received) job where
  terms := by
    obtain ⟨used, hused, hterms⟩ := hbuilt.terms
    exact ⟨used, List.mem_cons_of_mem _ hused, hterms⟩
  commits hall := hbuilt.commits fun earlier hearlier => hall earlier (List.mem_cons_of_mem _ hearlier)

end Receives

/-! ### What a step does for a session -/

variable {H : Hashing} {c : JobConfig} {protocolV3 : Bool} {xorKeyHash : XorKey → Hash}

/-- The configuration held requires an assignment when all those received do. -/
theorem SessionView.requires_of_received {view : SessionView} {received : List ClientConfig}
    {config : ClientConfig} (hpool : view.config = received.head?) (hconfig : config ∈ received)
    (hall : ∀ config ∈ received, requiresAssignment config = true) : view.abwState ≠ .notRequired := by
  rw [ne_eq, SessionView.abwState_eq_notRequired, hpool]
  cases received with
  | nil => cases hconfig
  | cons last received => simp [hall last List.mem_cons_self]

/-- A step of `build_and_publish` keeps the work the session's. -/
theorem Gateway.serve_commitsFor {clocks : Clocks} {g g' : Gateway} {work : Work} {at_ next : Serving}
    {event : PublishEvent} {received : List ClientConfig}
    (hserve : g.serve H c clocks work at_ = (event, g', some next)) (hwork : work.Of received)
    (hpool : g.pool.config = received.head?) : next.CommitsFor received work := by
  cases at_ with
  | starting =>
      simp only [Gateway.serve] at hserve
      split at hserve
      · rename_i hconfig
        cases hserve
        intro hsome
        rw [Option.isNone_iff_eq_none.mp hconfig] at hsome
        cases hsome
      · split at hserve
        · rename_i hstate
          cases hserve
          intro hsome hall
          obtain ⟨config, hconfig⟩ := Option.isSome_iff_exists.mp hsome
          exact absurd hstate (SessionView.requires_of_received hpool (hwork config hconfig) hall)
        · cases hserve
          exact fun _ _ => rfl
        · cases hserve
          trivial
  | staleMarking => cases hserve
  | committing abw =>
      simp only [Gateway.serve] at hserve
      split at hserve
      · cases hserve
      · cases hserve
        split <;> trivial
  | announcing job =>
      simp only [Gateway.serve, Gateway.publish] at hserve
      split at hserve <;> cases hserve
      trivial
  | publishing job =>
      simp only [Gateway.serve, Gateway.publish] at hserve
      split at hserve <;> cases hserve

/-- A pooled job built from the session's work is the session's. -/
theorem Gateway.serve_builtIn {clocks : Clocks} {g g' : Gateway} {work : Work} {at_ : Serving}
    {then_ : Option Serving} {job : Job} {coinbaser : Option CoinbaserResponse}
    {received : List ClientConfig}
    (hserve : g.serve H c clocks work at_ = (.built job coinbaser, g', then_)) (hwork : work.Of received)
    (hcommits : at_.CommitsFor received work) (hdatum : job.isDatumJob = true) :
    BuiltIn H c received job := by
  cases at_ with
  | starting =>
      simp only [Gateway.serve] at hserve
      split at hserve
      · cases hserve
      · split at hserve <;> cases hserve
  | staleMarking => cases hserve
  | committing abw =>
      simp only [Gateway.serve] at hserve
      split at hserve
      · cases hserve
      · rename_i hbuild
        cases hserve
        have hfrom := build_eq_ok hbuild
        rw [hfrom.isDatumJob_eq] at hdatum
        obtain ⟨config, hconfig⟩ := Option.isSome_iff_exists.mp hdatum
        refine ⟨⟨config, hwork config hconfig, _, config, clocks, hconfig, .refl config, hbuild⟩, ?_⟩
        intro hall
        rw [hfrom.abw_eq]
        exact hcommits hdatum hall
  | announcing job | publishing job =>
      simp only [Gateway.serve, Gateway.publish] at hserve
      split at hserve <;> cases hserve

/-! ### What a step of the threads does for a session -/

section Threads

variable {s s' : Publishing} {event : PublishEvent} {received : List ClientConfig}

theorem worksFor_resume {next : Option (Template × Bool × ClientConfig)}
    (hnext : ∀ template newBlock config, next = some (template, newBlock, config) → config ∈ received) :
    (TemplateThread.resume next).WorksFor received := by
  cases next with
  | none => trivial
  | some next => exact hnext _ _ _ rfl

theorem worksFor_onTemplate {poolConfig : Option ClientConfig} (template : Template) (newBlock : Bool)
    (hconfig : ∀ config, poolConfig = some config → config ∈ received) :
    (TemplateThread.onTemplate template newBlock poolConfig).WorksFor received := by
  cases poolConfig with
  | none => exact ⟨nofun, trivial, nofun⟩
  | some config =>
      cases newBlock with
      | false => exact hconfig config rfl
      | true =>
          refine ⟨hconfig, trivial, ?_⟩
          rintro _ _ _ ⟨⟩
          exact hconfig config rfl

theorem worksFor_afterRequest {config : ClientConfig} (template : Template) (newBlock left : Bool)
    (hconfig : config ∈ received) :
    (TemplateThread.afterRequest template newBlock config left).WorksFor received := by
  rw [TemplateThread.afterRequest]
  split
  · refine ⟨?_, trivial, ?_⟩
    · rintro _ ⟨⟩
      exact hconfig
    · rintro _ ⟨⟩ _ ⟨⟩
  · trivial

theorem worksFor_afterConfig {poolConfig : Option ClientConfig} (pending : PendingCoinbaser)
    (split : Option CoinbaserResponse) (hconfig : ∀ config, poolConfig = some config → config ∈ received) :
    (SessionThread.afterConfig poolConfig pending split).WorksFor received := by
  rw [SessionThread.afterConfig]
  split
  · trivial
  · exact ⟨hconfig, trivial⟩

/-- The template thread keeps to the session it read a configuration in. -/
theorem PublishStep.template_worksFor (hstep : PublishStep H c protocolV3 xorKeyHash s event s')
    (hworks : s.templateThread.WorksFor received) (hpool : s.gateway.pool.config = received.head?) :
    s'.templateThread.WorksFor received := by
  cases hstep with
  | fetch hat => exact fun config hconfig => List.mem_of_head? (hpool.symm.trans hconfig)
  | onTemplate template newBlock hat =>
      rw [hat] at hworks
      exact worksFor_onTemplate template newBlock hworks
  | @templateServes work at_ next event g' then_ clocks hat hserve =>
      rw [hat] at hworks
      obtain ⟨hwork, hcommits, hnext⟩ := hworks
      cases then_ with
      | none => exact worksFor_resume hnext
      | some at_ => exact ⟨hwork, Gateway.serve_commitsFor hserve hwork hpool, hnext⟩
  | requestCoinbaser now hat =>
      rw [hat] at hworks
      exact worksFor_afterRequest _ _ _ hworks
  | answer r hidle =>
      rw [Publishing.onCoinbaserResponse]
      split
      · exact hworks
      · split <;> exact hworks
  | malformed hidle =>
      rw [Publishing.onMalformedResponse]
      split <;> exact hworks
  | _ => exact hworks

theorem PublishStep.session_worksFor (hstep : PublishStep H c protocolV3 xorKeyHash s event s')
    (hworks : s.sessionThread.WorksFor received) (hpool : s.gateway.pool.config = received.head?) :
    s'.sessionThread.WorksFor received := by
  cases hstep with
  | expire now hidle hawaiting hdue => trivial
  | answer r hidle =>
      rw [Publishing.onCoinbaserResponse]
      split
      · exact hworks
      · split
        · trivial
        · exact hworks
  | malformed hidle =>
      rw [Publishing.onMalformedResponse]
      split
      · exact hworks
      · trivial
  | checkTip hat =>
      rw [SessionThread.afterTip]
      split <;> trivial
  | readConfig hat =>
      exact worksFor_afterConfig _ _ fun config hconfig => List.mem_of_head? (hpool.symm.trans hconfig)
  | @sessionServes work at_ event g' then_ clocks hat hserve =>
      rw [hat] at hworks
      cases then_ with
      | none => trivial
      | some at_ => exact ⟨hworks.1, Gateway.serve_commitsFor hserve hworks.1 hpool⟩
  | _ => exact hworks

variable {job : Job} {coinbaser : Option CoinbaserResponse}

theorem PublishStep.template_builtIn
    (hstep : PublishStep H c protocolV3 xorKeyHash s (.built job coinbaser) s')
    (hthread : s'.templateThread ≠ s.templateThread) (hworks : s.templateThread.WorksFor received)
    (hdatum : job.isDatumJob = true) : BuiltIn H c received job := by
  cases hstep with
  | templateServes clocks hat hserve =>
      rw [hat] at hworks
      exact Gateway.serve_builtIn hserve hworks.1 hworks.2.1 hdatum
  | sessionServes clocks hat hserve => exact absurd rfl hthread

theorem PublishStep.session_builtIn
    (hstep : PublishStep H c protocolV3 xorKeyHash s (.built job coinbaser) s')
    (hthread : s'.templateThread = s.templateThread) (hworks : s.sessionThread.WorksFor received)
    (hdatum : job.isDatumJob = true) : BuiltIn H c received job := by
  cases hstep with
  | templateServes clocks hat hserve =>
      -- A build moves the template thread on to a publication.
      rw [hat] at hthread
      cases Gateway.serve_cases hserve with
      | builds hbuilt =>
          have hat := (TemplateThread.serving.inj hthread).2.1
          split at hat <;> cases hat
  | sessionServes clocks hat hserve =>
      rw [hat] at hworks
      exact Gateway.serve_builtIn hserve hworks.1 hworks.2 hdatum

/-- A step of the template thread leaves the session thread and the configuration as they are. -/
theorem PublishStep.template_frame (hstep : PublishStep H c protocolV3 xorKeyHash s event s')
    (hthread : s'.templateThread ≠ s.templateThread) :
    s'.sessionThread = s.sessionThread ∧ s'.gateway.pool.config = s.gateway.pool.config := by
  cases hstep with
  | fetch hat => exact ⟨rfl, rfl⟩
  | onTemplate template newBlock hat => exact ⟨rfl, rfl⟩
  | templateServes clocks hat hserve =>
      exact ⟨rfl, congrArg SessionView.config (Gateway.serve_cases hserve).pool_eq⟩
  | requestCoinbaser now hat => exact ⟨rfl, (requestCoinbaser_view _ now _ _).1⟩
  | answer r hidle =>
      refine absurd ?_ hthread
      rw [Publishing.onCoinbaserResponse]
      split
      · rfl
      · split <;> rfl
  | malformed hidle =>
      refine absurd ?_ hthread
      rw [Publishing.onMalformedResponse]
      split <;> rfl
  | _ => exact absurd rfl hthread

end Threads

/-! ### Every run -/

/-- What a job is that a session sends shares on. -/
structure FitFor (H : Hashing) (c : JobConfig) (received : List ClientConfig) (job : Job) : Prop where
  terms : ∃ config ∈ received, BuiltFor H c config job
  commits : received.head?.any requiresAssignment = true → job.abw.isSome = true

/-- Of the shares taken from the queue, those on a job of another session's configuration are on one with
the terms of this session's. While an assignment is required, they and those of a session that did not
always require one are on a job with a commitment. -/
def SessionShares.TakesFit (H : Hashing) (c : JobConfig) (s : SessionShares) : SharesEvent → Prop
  | .took => ∀ share ∈ s.queue.queue, ∀ n, (share.job, n) ∈ s.builtIn →
      (n ≠ s.session → ∃ config ∈ s.received, BuiltFor H c config share.job) ∧
        (n ≠ s.session ∨ (∃ config ∈ s.received, requiresAssignment config = false) →
          s.received.head?.any requiresAssignment = true → share.job.abw.isSome = true)
  | _ => True

/-- What the jobs built, held and queued are to the session. -/
structure Kept (H : Hashing) (c : JobConfig) (s : SessionShares) : Prop where
  issued : ∃ trace, Publications c trace s.publishing ∧ ∀ job, Built trace job → ∃ n, (job, n) ∈ s.builtIn
  pool : s.publishing.gateway.pool.config = s.received.head?
  configRead_le : s.configRead ≤ s.session
  template : s.configRead = s.session → s.publishing.templateThread.WorksFor s.received
  session : s.publishing.sessionThread.WorksFor s.received
  builtIn_le : ∀ job n, (job, n) ∈ s.builtIn → n ≤ s.session
  builtIn : ∀ job, (job, s.session) ∈ s.builtIn → job.isDatumJob = true → BuiltIn H c s.received job
  read : ∀ job ∈ s.read, ∃ n, (job, n) ∈ s.builtIn
  queued : ∀ share ∈ s.queue.queue, share.job.isDatumJob = true ∧ ∃ n, (share.job, n) ∈ s.builtIn
  batched : ∀ share ∈ s.batch, FitFor H c s.received share.job

theorem SessionShares.mem_recordBuilt {session n : Nat} {builtIn : List (Job × Nat)} {event : PublishEvent}
    {job : Job} : (job, n) ∈ recordBuilt session builtIn event ↔
      (job, n) ∈ builtIn ∨ (∃ coinbaser, event = .built job coinbaser) ∧ n = session := by
  cases event with
  | built other coinbaser =>
      rw [recordBuilt, List.mem_cons, Prod.mk.injEq, or_comm]
      refine or_congr_right (and_congr_left' ⟨?_, ?_⟩)
      · rintro rfl
        exact ⟨coinbaser, rfl⟩
      · rintro ⟨_, heq⟩
        exact (PublishEvent.built.inj heq).1.symm
  | _ => simp [recordBuilt]

namespace Kept

variable {s s' : SessionShares} {event : PublishEvent} {p : Publishing}

/-- The threads that publish take a step, whose job is recorded under `n`. -/
theorem publishes (hkept : Kept H c s) (hstep : PublishStep H c protocolV3 xorKeyHash s.publishing event p)
    {n configRead : Nat} (hn : n ≤ s.session) (hconfigRead : configRead ≤ s.session)
    (hpool : p.gateway.pool.config = s.publishing.gateway.pool.config)
    (htemplate : configRead = s.session → p.templateThread.WorksFor s.received)
    (hbuilt : n = s.session → ∀ job coinbaser, event = .built job coinbaser → job.isDatumJob = true →
      BuiltIn H c s.received job) :
    Kept H c
      { s with publishing := p, configRead, builtIn := SessionShares.recordBuilt n s.builtIn event } := by
  have hkeeps {job : Job} (hjob : ∃ m, (job, m) ∈ s.builtIn) :
      ∃ m, (job, m) ∈ SessionShares.recordBuilt n s.builtIn event := by
    obtain ⟨m, hm⟩ := hjob
    exact ⟨m, SessionShares.mem_recordBuilt.mpr (.inl hm)⟩
  refine
    { issued := ?_, pool := hpool.trans hkept.pool, configRead_le := hconfigRead, template := htemplate
      session := hstep.session_worksFor hkept.session hkept.pool, builtIn_le := ?_, builtIn := ?_
      read := fun job hjob => hkeeps (hkept.read job hjob), queued := ?_, batched := hkept.batched }
  · obtain ⟨trace, hpublications, htrace⟩ := hkept.issued
    refine ⟨trace ++ [event], hpublications.step hstep, ?_⟩
    intro job hjob
    obtain hjob | hjob := built_append.mp hjob
    · exact hkeeps (htrace job hjob)
    · exact ⟨n, SessionShares.mem_recordBuilt.mpr (.inr ⟨hjob, rfl⟩)⟩
  · intro job m hm
    obtain hm | ⟨-, rfl⟩ := SessionShares.mem_recordBuilt.mp hm
    · exact hkept.builtIn_le job m hm
    · exact hn
  · intro job hjob hdatum
    obtain hjob | ⟨⟨coinbaser, heq⟩, hsession⟩ := SessionShares.mem_recordBuilt.mp hjob
    · exact hkept.builtIn job hjob hdatum
    · exact hbuilt hsession.symm job coinbaser heq hdatum
  · exact fun share hshare => ⟨(hkept.queued share hshare).1, hkeeps (hkept.queued share hshare).2⟩

theorem template_step (hkept : Kept H c s)
    (hstep : PublishStep H c protocolV3 xorKeyHash s.publishing event p)
    (hthread : p.templateThread ≠ s.publishing.templateThread) :
    Kept H c
      { s with
        publishing := p
        configRead := s.configReadNext
        builtIn := SessionShares.recordBuilt s.configRead s.builtIn event } := by
  refine hkept.publishes hstep hkept.configRead_le ?_ (hstep.template_frame hthread).2 ?_ ?_
  · rw [SessionShares.configReadNext]
    split
    · exact le_rfl
    · exact hkept.configRead_le
  · intro hread
    refine hstep.template_worksFor ?_ hkept.pool
    rw [SessionShares.configReadNext] at hread
    split at hread
    · rename_i hidle
      rw [hidle]
      trivial
    · exact hkept.template hread
  · rintro hread job coinbaser rfl hdatum
    exact hstep.template_builtIn hthread (hkept.template hread) hdatum

theorem session_step (hkept : Kept H c s)
    (hstep : PublishStep H c protocolV3 xorKeyHash s.publishing event p)
    (hthread : p.templateThread = s.publishing.templateThread)
    (hconfig : p.gateway.pool.config = s.publishing.gateway.pool.config) :
    Kept H c
      { s with publishing := p, builtIn := SessionShares.recordBuilt s.session s.builtIn event } := by
  refine hkept.publishes hstep le_rfl hkept.configRead_le hconfig ?_ ?_
  · rw [hthread]
    exact hkept.template
  · rintro - job coinbaser rfl hdatum
    exact hstep.session_builtIn hthread hkept.session hdatum

/-- A step that builds nothing. -/
theorem issued_step (hkept : Kept H c s)
    (hstep : PublishStep H c protocolV3 xorKeyHash s.publishing event p) (hevent : event.job = none) :
    ∃ trace, Publications c trace p ∧ ∀ job, Built trace job → ∃ n, (job, n) ∈ s.builtIn := by
  obtain ⟨trace, hpublications, htrace⟩ := hkept.issued
  refine ⟨trace ++ [event], hpublications.step hstep, ?_⟩
  exact fun job hjob => htrace job ((built_quiet hevent).mp hjob)

theorem configures (hkept : Kept H c s) (config : ClientConfig) (hdone : s.batch = [])
    (hidle : s.publishing.sessionThread = .idle) (haccepted : config.v3.isSome = true → protocolV3 = true) :
    Kept H c
      { s with
        publishing.gateway.pool := s.publishing.gateway.pool.onConfig protocolV3 config
        received := withRoundedMinDifficulty config :: s.received } where
  issued := by
    have hstep : PublishStep H c protocolV3 (fun _ => zeroHash) s.publishing .quiet _ :=
      .configure config hidle
    exact hkept.issued_step hstep rfl
  pool := by
    have hkeeps : (config.v3.isSome && !protocolV3) = false := by
      cases hv3 : config.v3.isSome with
      | false => rfl
      | true => rw [haccepted hv3]; rfl
    rw [SessionView.onConfig, hkeeps]
    rfl
  configRead_le := hkept.configRead_le
  template hread := (hkept.template hread).receive _
  session := by
    rw [hidle]
    trivial
  builtIn_le := hkept.builtIn_le
  builtIn job hjob hdatum := (hkept.builtIn job hjob hdatum).receive _
  read := hkept.read
  queued := hkept.queued
  batched := by
    rw [hdone]
    exact fun share hshare => absurd hshare List.not_mem_nil

/-- Nothing built or being built is of the next session. -/
theorem disconnects (hkept : Kept H c s) (hidle : s.publishing.sessionThread = .idle) :
    Kept H c
      { s with
        publishing.gateway.pool := .default
        publishing.awaitingCoinbaser := none
        batch := []
        sentSections := fun _ => none
        clearing := true
        session := s.session + 1
        received := [] } where
  issued := by
    have hstep : PublishStep H c true (fun _ => zeroHash) s.publishing .disconnected _ := .disconnect hidle
    exact hkept.issued_step hstep rfl
  pool := rfl
  configRead_le := hkept.configRead_le.trans (Nat.le_succ _)
  template hread := absurd hread (Nat.lt_succ_of_le hkept.configRead_le).ne
  session := by
    rw [hidle]
    trivial
  builtIn_le job n hjob := (hkept.builtIn_le job n hjob).trans (Nat.le_succ _)
  builtIn job hjob := absurd (hkept.builtIn_le job _ hjob) (Nat.not_succ_le_self _)
  read := hkept.read
  queued := hkept.queued
  batched _ hshare := absurd hshare List.not_mem_nil

/-- A step of neither thread that publishes. -/
theorem shares (hkept : Kept H c s) (hpublishing : s'.publishing = s.publishing)
    (hsession : s'.session = s.session) (hreceived : s'.received = s.received)
    (hconfigRead : s'.configRead = s.configRead) (hbuiltIn : s'.builtIn = s.builtIn)
    (hread : ∀ job ∈ s'.read, ∃ n, (job, n) ∈ s.builtIn)
    (hqueued : ∀ share ∈ s'.queue.queue, share.job.isDatumJob = true ∧ ∃ n, (share.job, n) ∈ s.builtIn)
    (hbatched : ∀ share ∈ s'.batch, FitFor H c s.received share.job) : Kept H c s' where
  issued := by
    rw [hpublishing, hbuiltIn]
    exact hkept.issued
  pool := by
    rw [hpublishing, hreceived]
    exact hkept.pool
  configRead_le := by
    rw [hconfigRead, hsession]
    exact hkept.configRead_le
  template := by
    rw [hconfigRead, hsession, hpublishing, hreceived]
    exact hkept.template
  session := by
    rw [hpublishing, hreceived]
    exact hkept.session
  builtIn_le := by
    rw [hbuiltIn, hsession]
    exact hkept.builtIn_le
  builtIn := by
    rw [hbuiltIn, hsession, hreceived]
    exact hkept.builtIn
  read := by
    rw [hbuiltIn]
    exact hread
  queued := by
    rw [hbuiltIn]
    exact hqueued
  batched := by
    rw [hreceived]
    exact hbatched

/-- A job held was built. -/
theorem held (hkept : Kept H c s) {slot : UInt8} {job : Job}
    (hat : s.publishing.gateway.jobs.at? slot = some job) : ∃ n, (job, n) ∈ s.builtIn := by
  obtain ⟨trace, hpublications, htrace⟩ := hkept.issued
  have hjobs := hpublications.issued.jobs
  exact htrace job (hjobs.published_built job (hjobs.installed job (JobTable.mem_installed_of_at hat)))

/-- The shares taken are on jobs fit for the session. -/
theorem takes (hkept : Kept H c s) (hfit : s.TakesFit H c .took) :
    ∀ share ∈ s.queue.queue, FitFor H c s.received share.job := by
  intro share hshare
  obtain ⟨hdatum, n, hn⟩ := hkept.queued share hshare
  obtain ⟨hterms, hcommits⟩ := hfit share hshare n hn
  by_cases hsession : n = s.session
  · have hbuilt := hkept.builtIn share.job (hsession ▸ hn) hdatum
    refine ⟨hbuilt.terms, fun hrequired => ?_⟩
    by_cases hall : ∀ config ∈ s.received, requiresAssignment config = true
    · exact hbuilt.commits hall
    · simp only [not_forall, Bool.not_eq_true] at hall
      obtain ⟨config, hconfig, hnone⟩ := hall
      exact hcommits (.inr ⟨config, hconfig, hnone⟩) hrequired
  · exact ⟨hterms hsession, hcommits (.inl hsession)⟩

theorem step {d : DatumConfig} {poolAddress : String} {event : SharesEvent} (hkept : Kept H c s)
    (hfit : s.TakesFit H c event)
    (hstep : SharesStep H c protocolV3 xorKeyHash d poolAddress s event s') : Kept H c s' := by
  cases hstep with
  | template hstep hthread => exact hkept.template_step hstep hthread
  | session hopen hdone hstep hthread hconfig hevent => exact hkept.session_step hstep hthread hconfig
  | configure config hopen hdone hidle haccepted => exact hkept.configures config hdone hidle haccepted
  | disconnect hopen hidle => exact hkept.disconnects hidle
  | clear hclearing =>
      exact hkept.shares rfl rfl rfl rfl rfl hkept.read (fun _ hshare => absurd hshare List.not_mem_nil)
        hkept.batched
  | @read slot job hat =>
      refine hkept.shares rfl rfl rfl rfl rfl ?_ hkept.queued hkept.batched
      intro other hother
      obtain rfl | hother := List.mem_cons.mp hother
      · exact hkept.held hat
      · exact hkept.read other hother
  | @queueShare share hread hdatum =>
      refine hkept.shares rfl rfl rfl rfl rfl hkept.read ?_ hkept.batched
      intro other hother
      obtain rfl | hother := ShareQueue.mem_queueShare hother
      · exact ⟨hdatum, hkept.read _ hread⟩
      · exact hkept.queued other hother
  | takeQueued hopen hdone hidle hready =>
      exact hkept.shares rfl rfl rfl rfl rfl hkept.read (fun _ hshare => absurd hshare List.not_mem_nil)
        (hkept.takes hfit)
  | send hbatch hsend | withhold hbatch hsend =>
      refine hkept.shares rfl rfl rfl rfl rfl hkept.read hkept.queued ?_
      exact fun share hshare => hkept.batched share (hbatch ▸ List.mem_cons_of_mem _ hshare)

end Kept

theorem Kept.start (slots queueCapacity : Nat) (keep : Duration) :
    Kept H c
      ⟨.start slots keep, [], .new queueCapacity, [], fun _ => none, false, 0, [], 0, []⟩ where
  issued := ⟨[], .start slots keep, fun _ ⟨_, hmem⟩ => absurd hmem List.not_mem_nil⟩
  pool := rfl
  configRead_le := le_rfl
  template _ := trivial
  session := trivial
  builtIn_le _ _ hmem := absurd hmem List.not_mem_nil
  builtIn _ hmem := absurd hmem List.not_mem_nil
  read _ hmem := absurd hmem List.not_mem_nil
  queued _ hmem := absurd hmem List.not_mem_nil
  batched _ hmem := absurd hmem List.not_mem_nil

/-- **A share is sent on its own session.** When the shares a session takes from the queue are fit for it,
every share sent is on a job built with the terms of a configuration the session received and, while it
requires an assignment, on one whose commitment it holds. -/
theorem share_sent_on_own_session {d : DatumConfig} {poolAddress : String} {slots queueCapacity : Nat}
    {keep : Duration} {trace : List SharesEvent} {s s' : SessionShares} {share : QueuedShare}
    {submit : PowSubmit}
    (hrun : ((sessionShares H c protocolV3 xorKeyHash d poolAddress slots queueCapacity keep).restrict
      (SessionShares.TakesFit H c)).Run trace s)
    (hstep : SharesStep H c protocolV3 xorKeyHash d poolAddress s (.sent share submit) s') :
    (∃ config ∈ s.received, BuiltFor H c config share.job) ∧
      (s.publishing.gateway.pool.abwState ≠ .notRequired →
        ∃ a, share.job.abw = some a ∧ s.publishing.gateway.pool.abw.holds a = true) := by
  have hkept : Kept H c s := by
    refine hrun.invariant (I := fun _ => Kept H c) ?_ ?_
    · rintro _ rfl
      exact .start slots queueCapacity keep
    · rintro _ _ _ _ hkept ⟨hfit, hstep⟩
      exact hkept.step hfit hstep
  cases hstep with
  | send hbatch hsend =>
      have hfit := hkept.batched share (hbatch ▸ List.mem_cons_self)
      refine ⟨hfit.terms, fun hrequired => ?_⟩
      rw [ne_eq, SessionView.abwState_eq_notRequired, hkept.pool, Bool.not_eq_false] at hrequired
      obtain ⟨a, ha⟩ := Option.isSome_iff_exists.mp (hfit.commits hrequired)
      exact ⟨a, ha, sendShare_holds hsend ha⟩

/-! ### A share sent on another pool's session -/

/-- A pool whose work commits to no assignment. -/
def openPool : ClientConfig := { taggedPool with v3 := some ⟨false, true⟩ }

def openInputs : JobInputs := { taggedInputs with poolConfig := some openPool }

/-- Another pool, whose work commits to one. -/
def sealedPool : ClientConfig where
  payoutScript := [0x52]
  primeId := 2
  coinbaseTag := "Q"
  minDifficulty := 1
  v3 := some ⟨false, false⟩

theorem PublishStep.assigned {s : Publishing} (notice : AssignmentNotice) (hidle : s.sessionThread = .idle) :
    PublishStep H c protocolV3 xorKeyHash s .quiet
      { s with
        gateway.pool.abw := s.gateway.pool.abw.install notice.slot notice.keyHash notice.active } := by
  have hstep : PublishStep H c protocolV3 xorKeyHash s _ _ := .assignment notice.encode hidle
  rwa [onMining_notice] at hstep

theorem exists_build_open : ∃ job, build constantHashing untaggedConfig openInputs 0 0 = .ok job := by
  apply exists_build
  · exact List.cons_ne_nil _ _
  · show 1 ≤ 83
    decide
  · show (ScriptSigInputs.scriptSig ⟨1, "P", "", 0, 1, true, true⟩).isSome = true
    decide +kernel
  · exact Nat.zero_le _
  · show (bitsToTarget 0x1d00ffff).isSome
    decide

/-- A miner's connection has read the job, which is of the first session. -/
structure JobRead (s : SessionShares) (job : Job) : Prop where
  hat : s.publishing.gateway.jobs.at? job.slot = some job
  idle : s.publishing.sessionThread = .idle
  config : s.publishing.gateway.pool.config = some (withRoundedMinDifficulty openPool)
  read : s.read = [job]
  queue : s.queue = .new 64
  batch : s.batch = []
  open_ : s.clearing = false
  session : s.session = 0
  received : s.received = [withRoundedMinDifficulty openPool]
  builtIn : s.builtIn = [(job, 0)]

abbrev openShares : Lts SessionShares SharesEvent :=
  (sessionShares constantHashing untaggedConfig true (fun _ => zeroHash) fullUsers "" 8 64 0).restrict
    (SessionShares.TakesFit constantHashing untaggedConfig)

theorem exists_jobRead : ∃ (trace : List SharesEvent) (s : SessionShares) (job : Job),
    build constantHashing untaggedConfig openInputs 0 0 = .ok job ∧ JobRead s job ∧ openShares.Run trace s := by
  obtain ⟨job, hbuild⟩ := exists_build_open
  have hfrom := build_eq_ok hbuild
  have hslot : job.slot = 0 := by
    rw [(build_wellBuilt hbuild).slot_eq, hfrom.serial_eq]
    rfl
  have htip : ((JobTable.new 8 0).setTip zeroHash).tip = some job.template.prevHash := by
    rw [hfrom.template_eq]
    rfl
  obtain ⟨announced, hannounce⟩ := JobTable.publish_of_tip htip 0 .subsidyOnly
  have htip' : announced.tip = some job.template.prevHash :=
    (JobTable.publish_eq_true hannounce).tip_eq.trans htip
  obtain ⟨published, hpublish⟩ := JobTable.publish_of_tip htip' 0 .pooled
  have hroom : job.slot.toNat < ((JobTable.new 8 0).setTip zeroHash).slots.length := by
    rw [hslot]
    decide
  have hroom' : job.slot.toNat < announced.slots.length := by
    rwa [(JobTable.at?_of_publish hannounce hroom).2]
  have hat : published.at? job.slot = some job := (JobTable.at?_of_publish hpublish hroom').1
  have hrun : openShares.Run [] _ := .start rfl
  have hconfigures := hrun.next_allowed (.configure openPool rfl rfl rfl fun _ => rfl) trivial
  have hfetches := hconfigures.next_allowed (.template (.fetch rfl) nofun) trivial
  have htemplates := hfetches.next_allowed
    (.template (.onTemplate (emptyTemplate zeroHash) true rfl) nofun) trivial
  have hcommits := htemplates.next_allowed (.template (.templateServes ⟨0, 0⟩ rfl rfl) nofun) trivial
  have hbuilds := hcommits.next_allowed
    (.template (.templateServes ⟨0, 0⟩ rfl (Gateway.serve_committing hbuild)) nofun) trivial
  have hannounces := hbuilds.next_allowed
    (.template (.templateServes ⟨0, 0⟩ rfl (Gateway.publish_eq hannounce _)) nofun) trivial
  have hpublishes := hannounces.next_allowed
    (.template (.templateServes ⟨0, 0⟩ rfl (Gateway.publish_eq hpublish none)) nofun) trivial
  have hreads := hpublishes.next_allowed (.read hat) trivial
  exact ⟨_, _, job, hbuild, ⟨hat, rfl, rfl, rfl, rfl, rfl, rfl, rfl, rfl, rfl⟩, hreads⟩

theorem zeroShare_extranonce (job : Job) :
    shareExtranonce (zeroShare job).header.extranonce = some (Vector.replicate _ 0) := by
  show shareExtranonce BlockHeaderV2.zero.extranonce = _
  decide +kernel

/-- A share on the job is sent on the session it was built for. -/
theorem share_sent_once : ∃ (trace : List SharesEvent) (s s' : SessionShares) (share : QueuedShare)
    (submit : PowSubmit), openShares.Run trace s ∧
    SharesStep constantHashing untaggedConfig true (fun _ => zeroHash) fullUsers "" s (.sent share submit) s' ∧
    (∃ config ∈ s.received, BuiltFor constantHashing untaggedConfig config share.job) ∧
    (s.publishing.gateway.pool.abwState ≠ .notRequired →
      ∃ a, share.job.abw = some a ∧ s.publishing.gateway.pool.abw.holds a = true) := by
  obtain ⟨trace, s, job, hbuild, hread, hrun⟩ := exists_jobRead
  have hfrom := build_eq_ok hbuild
  have hshare : (zeroShare job).job ∈ s.read := by
    rw [hread.read]
    exact List.mem_singleton_self job
  have hqueues := hrun.next_allowed (.queueShare hshare hfrom.isDatumJob_eq) trivial
  have hqueue : (s.queue.queueShare (zeroShare job)).queue = [zeroShare job] := by
    rw [hread.queue]
    rfl
  have hnone : s.publishing.gateway.pool.abwState = .notRequired := by
    rw [SessionView.abwState_eq_notRequired, hread.config]
    rfl
  have htakes := hqueues.next_allowed (.takeQueued hread.open_ hread.batch hread.idle fun _ =>
    ⟨by rw [hread.config]; rfl, by rw [hnone]; nofun⟩) (by
      intro share hshare n hn
      rw [hread.builtIn, List.mem_singleton, Prod.mk.injEq] at hn
      refine ⟨fun hother => absurd (hn.2.trans hread.session.symm) hother, fun _ hrequired => ?_⟩
      rw [hread.received] at hrequired
      cases hrequired)
  have hextranonce := zeroShare_extranonce job
  refine ⟨_, _, _, _, _, htakes, .send hqueue (sendShare_of_held hread.hat hfrom.abw_eq hextranonce), ?_⟩
  exact share_sent_on_own_session htakes
    (.send hqueue (sendShare_of_held hread.hat hfrom.abw_eq hextranonce))

/-- The session ends, and a miner's share on its job is queued before another pool is reached. -/
theorem foreign_share_sent : ∃ (trace : List SharesEvent) (s s' : SessionShares) (share : QueuedShare)
    (submit : PowSubmit),
    (sessionShares constantHashing untaggedConfig true (fun _ => zeroHash) fullUsers "" 8 64 0).Run trace s ∧
    SharesStep constantHashing untaggedConfig true (fun _ => zeroHash) fullUsers "" s (.sent share submit) s' ∧
    (¬ ∃ config ∈ s.received, BuiltFor constantHashing untaggedConfig config share.job) ∧
    s.publishing.gateway.pool.abwState ≠ .notRequired ∧ share.job.abw = none := by
  obtain ⟨trace, s, job, hbuild, hread, hrun⟩ := exists_jobRead
  have hfrom := build_eq_ok hbuild
  have hshare : (zeroShare job).job ∈ s.read := by
    rw [hread.read]
    exact List.mem_singleton_self job
  have hdisconnects := hrun.of_restrict.next (.disconnect hread.open_ hread.idle)
  have hclears := hdisconnects.next (.clear rfl)
  have hqueues := hclears.next (.queueShare hshare hfrom.isDatumJob_eq)
  have hconfigures := hqueues.next (.configure sealedPool rfl rfl hread.idle fun _ => rfl)
  have hassigns := hconfigures.next (.session rfl rfl (.assigned ⟨true, 0, zeroHash⟩ hread.idle) rfl rfl nofun)
  have htakes := hassigns.next (.takeQueued rfl rfl hread.idle fun _ => ⟨rfl, nofun⟩)
  have hqueue : ({ s.queue with queue := [] }.queueShare (zeroShare job)).queue = [zeroShare job] := by
    rw [hread.queue]
    rfl
  have hextranonce := zeroShare_extranonce job
  refine ⟨_, _, _, _, _, htakes, .send hqueue (sendShare_of_held hread.hat hfrom.abw_eq hextranonce), ?_,
    nofun, hfrom.abw_eq⟩
  rintro ⟨config, hconfig, hbuilt⟩
  obtain rfl := List.mem_singleton.mp hconfig
  have hscript := hbuilt.poolPayoutScript_eq.symm.trans (build_poolPayoutScript hbuild)
  cases hscript

end Ratum
