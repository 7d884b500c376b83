import Ratum.Gateway.ServedTip

/-!
# The jobs built and published

What a step of the two threads does to the jobs, and what follows over their interleavings: a serial names
one job, a job held was published, and a job the template thread has announced is the work of its slot
until the thread publishes it again, since the session thread has at most two jobs to build in between.
-/

namespace Ratum

/-! ### What a step does to the jobs -/

/-- The job an event is about. -/
def PublishEvent.job : PublishEvent → Option Job
  | built job _ | published job _ => some job
  | _ => none

/-- The job the template thread is about to publish. -/
def Publishing.templateJob (s : Publishing) : Option Job := s.templateThread.at?.bind Serving.job

def Publishing.sessionJob (s : Publishing) : Option Job := s.sessionThread.at?.bind Serving.job

/-- What a step does to the jobs built, held and about to be published. -/
inductive JobMoves (s s' : Publishing) : PublishEvent → Prop
  | moves {event : PublishEvent} (hevent : event.job = none)
      (hslots : s'.gateway.jobs.slots = s.gateway.jobs.slots)
      (hnext : s.gateway.nextJobSerial ≤ s'.gateway.nextJobSerial)
      (htemplate : s'.templateThread.at? = s.templateThread.at? ∨ s'.templateJob = none)
      (hsession : s'.sessionThread.at? = s.sessionThread.at? ∨ s'.sessionJob = none) :
      JobMoves s s' event
  | templateBuilds {job : Job} {coinbaser : Option CoinbaserResponse}
      (hserial : job.serial = s.gateway.nextJobSerial)
      (hslots : s'.gateway.jobs.slots = s.gateway.jobs.slots)
      (hnext : s'.gateway.nextJobSerial = s.gateway.nextJobSerial + 1)
      (htemplate : s'.templateJob = some job) (hsession : s'.sessionThread = s.sessionThread) :
      JobMoves s s' (.built job coinbaser)
  | sessionBuilds {job : Job} {coinbaser : Option CoinbaserResponse}
      (hserial : job.serial = s.gateway.nextJobSerial)
      (hslots : s'.gateway.jobs.slots = s.gateway.jobs.slots)
      (hnext : s'.gateway.nextJobSerial = s.gateway.nextJobSerial + 1)
      (htemplate : s'.templateThread = s.templateThread) (hsession : s'.sessionJob = some job) :
      JobMoves s s' (.built job coinbaser)
  | templatePublishes {job : Job} {kind : CoinbaseKind} (hjob : s.templateJob = some job)
      (hpublished : s.gateway.jobs.Published job kind s'.gateway.jobs)
      (hnext : s'.gateway.nextJobSerial = s.gateway.nextJobSerial)
      (htemplate : s'.templateJob = none ∨ s.templateThread.at? = some (.announcing job) ∧
        s'.templateThread.at? = some (.publishing job))
      (hsession : s'.sessionThread = s.sessionThread) : JobMoves s s' (.published job kind)
  | sessionPublishes {job : Job} {kind : CoinbaseKind} (hjob : s.sessionJob = some job)
      (hpublished : s.gateway.jobs.Published job kind s'.gateway.jobs)
      (hnext : s'.gateway.nextJobSerial = s.gateway.nextJobSerial)
      (htemplate : s'.templateThread = s.templateThread) (hsession : s'.sessionThread = .idle) :
      JobMoves s s' (.published job kind)

variable {H : Hashing} {c : JobConfig} {protocolV3 : Bool} {xorKeyHash : XorKey → Hash}

theorem PublishStep.jobMoves {s s' : Publishing} {event : PublishEvent} (hpooled : Pooled s)
    (hstep : PublishStep H c protocolV3 xorKeyHash s event s') : JobMoves s s' event := by
  cases hstep with
  | fetch hat => exact .moves rfl rfl le_rfl (.inr rfl) (.inl rfl)
  | onTemplate template newBlock hat =>
      exact .moves rfl rfl le_rfl (.inr (at?_onTemplate _ _ _)) (.inl rfl)
  | @templateServes work at_ next event g' then_ clocks hat hserve =>
      have hjob : s.templateJob = at_.job := by rw [Publishing.templateJob, hat]; rfl
      have hresume : (TemplateThread.resume next).at?.bind Serving.job = none := by rw [at?_resume]; rfl
      cases Gateway.serve_cases hserve with
      | commits abw hstate => exact .moves rfl rfl le_rfl (.inr rfl) (.inl rfl)
      | awaits hconfig hawaiting => exact .moves rfl rfl le_rfl (.inr rfl) (.inl rfl)
      | marks => exact .moves rfl rfl le_rfl (.inr hresume) (.inl rfl)
      | fails abw => exact .moves rfl rfl (Nat.le_succ _) (.inr hresume) (.inl rfl)
      | @builds abw job hbuilt =>
          refine .templateBuilds hbuilt.serial_eq rfl rfl ?_ rfl
          cases work.what.announcesTip <;> rfl
      | refusesEmpty job => exact .moves rfl rfl le_rfl (.inr hresume) (.inl rfl)
      | refuses job => exact .moves rfl rfl le_rfl (.inr hresume) (.inl rfl)
      | announces hpublished =>
          exact .templatePublishes hjob hpublished rfl (.inr ⟨by rw [hat]; rfl, rfl⟩) rfl
      | publishes hpublished => exact .templatePublishes hjob hpublished rfl (.inl hresume) rfl
  | requestCoinbaser now hat =>
      exact .moves rfl rfl le_rfl (.inr (at?_afterRequest _ _ _ _)) (.inl rfl)
  | send hidle hpending => exact .moves rfl rfl le_rfl (.inl rfl) (.inl rfl)
  | expire now hidle hawaiting hdue => exact .moves rfl rfl le_rfl (.inl rfl) (.inr rfl)
  | answer r hidle =>
      rw [Publishing.onCoinbaserResponse]
      split
      · exact .moves rfl rfl le_rfl (.inl rfl) (.inl rfl)
      · split
        · exact .moves rfl rfl le_rfl (.inl rfl) (.inr rfl)
        · exact .moves rfl rfl le_rfl (.inl rfl) (.inl rfl)
  | malformed hidle =>
      rw [Publishing.onMalformedResponse]
      split
      · exact .moves rfl rfl le_rfl (.inl rfl) (.inl rfl)
      · exact .moves rfl rfl le_rfl (.inl rfl) (.inr rfl)
  | configure config hidle => exact .moves rfl rfl le_rfl (.inl rfl) (.inl rfl)
  | assignment plain hidle => exact .moves rfl rfl le_rfl (.inl rfl) (.inl rfl)
  | disconnect hidle => exact .moves rfl rfl le_rfl (.inl rfl) (.inl rfl)
  | checkTip hat =>
      exact .moves rfl rfl le_rfl (.inl rfl) (.inr (by rw [Publishing.sessionJob, at?_afterTip]; rfl))
  | readConfig hat => exact .moves rfl rfl le_rfl (.inl rfl) (.inr (at?_afterConfig _ _ _))
  | @sessionServes work at_ event g' then_ clocks hat hserve =>
      have hjob : s.sessionJob = at_.job := by rw [Publishing.sessionJob, hat]; rfl
      cases Gateway.serve_cases hserve with
      | commits abw hstate => exact .moves rfl rfl le_rfl (.inl rfl) (.inr rfl)
      | awaits hconfig hawaiting => exact .moves rfl rfl le_rfl (.inl rfl) (.inr rfl)
      | marks => exact .moves rfl rfl le_rfl (.inl rfl) (.inr rfl)
      | fails abw => exact .moves rfl rfl (Nat.le_succ _) (.inl rfl) (.inr rfl)
      | @builds abw job hbuilt =>
          refine .sessionBuilds hbuilt.serial_eq rfl rfl rfl ?_
          cases work.what.announcesTip <;> rfl
      | refusesEmpty job => exact .moves rfl rfl le_rfl (.inl rfl) (.inr rfl)
      | refuses job => exact .moves rfl rfl le_rfl (.inl rfl) (.inr rfl)
      | announces hpublished => exact absurd rfl ((hpooled.full work _ hat).2 _)
      | publishes hpublished => exact .sessionPublishes hjob hpublished rfl rfl rfl

theorem Gateway.serve_built {clocks : Clocks} {g g' : Gateway} {work : Work} {at_ : Serving} {job : Job}
    {coinbaser : Option CoinbaserResponse} {then_ : Option Serving}
    (hserve : g.serve H c clocks work at_ = (.built job coinbaser, g', then_)) : WellBuilt c job := by
  cases at_ with
  | starting =>
      rw [Gateway.serve] at hserve
      split at hserve
      · cases hserve
      · split at hserve <;> cases hserve
  | staleMarking => cases hserve
  | committing abw =>
      simp only [Gateway.serve] at hserve
      split at hserve
      · cases hserve
      · rename_i hbuild
        cases hserve
        exact build_wellBuilt hbuild
  | announcing job | publishing job =>
      rw [Gateway.serve, Gateway.publish] at hserve
      split at hserve <;> cases hserve

theorem PublishStep.wellBuilt {s s' : Publishing} {job : Job} {coinbaser : Option CoinbaserResponse}
    (hstep : PublishStep H c protocolV3 xorKeyHash s (.built job coinbaser) s') : WellBuilt c job := by
  cases hstep with
  | templateServes clocks hat hserve | sessionServes clocks hat hserve => exact Gateway.serve_built hserve

/-! ### The jobs of a run -/

def Built (trace : List PublishEvent) (job : Job) : Prop := ∃ coinbaser, .built job coinbaser ∈ trace

def WasPublished (trace : List PublishEvent) (job : Job) : Prop := ∃ kind, .published job kind ∈ trace

theorem built_append {trace : List PublishEvent} {event : PublishEvent} {job : Job} :
    Built (trace ++ [event]) job ↔ Built trace job ∨ ∃ coinbaser, event = .built job coinbaser := by
  simp only [Built, List.mem_append, List.mem_singleton, exists_or, eq_comm]

theorem wasPublished_append {trace : List PublishEvent} {event : PublishEvent} {job : Job} :
    WasPublished (trace ++ [event]) job ↔
      WasPublished trace job ∨ ∃ kind, event = .published job kind := by
  simp only [WasPublished, List.mem_append, List.mem_singleton, exists_or, eq_comm]

theorem JobTable.mem_installed_of_slots {t : JobTable} {i : Nat} {job : Job}
    (hslot : t.slots[i]? = some (some job)) : job ∈ t.installed :=
  JobTable.mem_installed.mpr (List.mem_of_getElem? hslot)

/-- What the jobs built and published are to the table and the next serial. -/
structure IssuedJobs (trace : List PublishEvent) (t : JobTable) (next : Nat) : Prop where
  built_below : ∀ job, Built trace job → job.serial < next
  built_unique : ∀ a b, Built trace a → Built trace b → a.serial = b.serial → a = b
  published_built : ∀ job, WasPublished trace job → Built trace job
  installed : ∀ job ∈ t.installed, WasPublished trace job
  in_slot : ∀ (i : Nat) (job : Job), t.slots[i]? = some (some job) → job.slot.toNat = i

/-- What they are to the threads as well. -/
structure Issued (trace : List PublishEvent) (s : Publishing) : Prop where
  jobs : IssuedJobs trace s.gateway.jobs s.gateway.nextJobSerial
  template_built : ∀ job, s.templateJob = some job → Built trace job
  session_built : ∀ job, s.sessionJob = some job → Built trace job ∧ ¬ WasPublished trace job
  announcing : ∀ job, s.templateThread.at? = some (.announcing job) → ¬ WasPublished trace job
  apart : ∀ job, s.templateJob = some job → s.sessionJob ≠ some job

section Append

variable {trace : List PublishEvent} {event : PublishEvent} {job other : Job}
  {coinbaser : Option CoinbaserResponse} {kind : CoinbaseKind}

theorem built_quiet (hevent : event.job = none) : Built (trace ++ [event]) job ↔ Built trace job := by
  rw [built_append]
  refine or_iff_left ?_
  rintro ⟨coinbaser, rfl⟩
  cases hevent

theorem wasPublished_quiet (hevent : event.job = none) :
    WasPublished (trace ++ [event]) job ↔ WasPublished trace job := by
  rw [wasPublished_append]
  refine or_iff_left ?_
  rintro ⟨kind, rfl⟩
  cases hevent

theorem built_build :
    Built (trace ++ [.built job coinbaser]) other ↔ Built trace other ∨ other = job := by
  rw [built_append]
  refine or_congr_right ⟨?_, ?_⟩
  · rintro ⟨_, heq⟩
    exact (PublishEvent.built.inj heq).1.symm
  · rintro rfl
    exact ⟨_, rfl⟩

theorem wasPublished_build :
    WasPublished (trace ++ [.built job coinbaser]) other ↔ WasPublished trace other := by
  rw [wasPublished_append]
  refine or_iff_left ?_
  rintro ⟨kind, heq⟩
  cases heq

theorem built_publish : Built (trace ++ [.published job kind]) other ↔ Built trace other := by
  rw [built_append]
  refine or_iff_left ?_
  rintro ⟨coinbaser, heq⟩
  cases heq

theorem wasPublished_publish :
    WasPublished (trace ++ [.published job kind]) other ↔ WasPublished trace other ∨ other = job := by
  rw [wasPublished_append]
  refine or_congr_right ⟨?_, ?_⟩
  · rintro ⟨_, heq⟩
    exact (PublishEvent.published.inj heq).1.symm
  · rintro rfl
    exact ⟨_, rfl⟩

end Append

namespace IssuedJobs

variable {trace : List PublishEvent} {t t' : JobTable} {next next' : Nat}

theorem moves (hjobs : IssuedJobs trace t next) {event : PublishEvent} (hevent : event.job = none)
    (hslots : t'.slots = t.slots) (hnext : next ≤ next') : IssuedJobs (trace ++ [event]) t' next' where
  built_below job hjob := (hjobs.built_below job ((built_quiet hevent).mp hjob)).trans_le hnext
  built_unique a b ha hb :=
    hjobs.built_unique a b ((built_quiet hevent).mp ha) ((built_quiet hevent).mp hb)
  published_built job hjob :=
    (built_quiet hevent).mpr (hjobs.published_built job ((wasPublished_quiet hevent).mp hjob))
  installed job hjob := by
    rw [wasPublished_quiet hevent]
    apply hjobs.installed
    rwa [JobTable.installed, ← hslots]
  in_slot i job hslot := hjobs.in_slot i job (hslots ▸ hslot)

theorem builds (hjobs : IssuedJobs trace t next) {job : Job} {coinbaser : Option CoinbaserResponse}
    (hserial : job.serial = next) (hslots : t'.slots = t.slots) (hnext : next' = next + 1) :
    IssuedJobs (trace ++ [.built job coinbaser]) t' next' where
  built_below other hother := by
    obtain hother | rfl := built_build.mp hother
    · have := hjobs.built_below other hother
      omega
    · omega
  built_unique a b ha hb heq := by
    obtain hold | hnew := built_build.mp ha <;> obtain hold' | hnew' := built_build.mp hb
    · exact hjobs.built_unique a b hold hold' heq
    · have := hjobs.built_below a hold
      rw [hnew'] at heq
      omega
    · have := hjobs.built_below b hold'
      rw [hnew] at heq
      omega
    · rw [hnew, hnew']
  published_built other hother :=
    built_build.mpr (.inl (hjobs.published_built other (wasPublished_build.mp hother)))
  installed other hother := by
    rw [wasPublished_build]
    apply hjobs.installed
    rwa [JobTable.installed, ← hslots]
  in_slot i other hslot := hjobs.in_slot i other (hslots ▸ hslot)

theorem publishes (hjobs : IssuedJobs trace t next) {job : Job} {kind : CoinbaseKind}
    (hbuilt : Built trace job) (hpublished : t.Published job kind t') :
    IssuedJobs (trace ++ [.published job kind]) t' next where
  built_below other hother := hjobs.built_below other (built_publish.mp hother)
  built_unique a b ha hb := hjobs.built_unique a b (built_publish.mp ha) (built_publish.mp hb)
  published_built other hother := by
    rw [built_publish]
    obtain hother | rfl := wasPublished_publish.mp hother
    · exact hjobs.published_built other hother
    · exact hbuilt
  installed other hother := by
    rw [wasPublished_publish]
    obtain rfl | hother := hpublished.installed_of other hother
    · exact .inr rfl
    · exact .inl (hjobs.installed other hother)
  in_slot i other hslot := by
    obtain ⟨rfl, rfl⟩ | ⟨_, hslot⟩ := hpublished.slots_of i other hslot
    · rfl
    · exact hjobs.in_slot i other hslot

/-- A serial held or built names one job. -/
theorem eq_of_serial (hjobs : IssuedJobs trace t next) {a b : Job} (ha : WasPublished trace a)
    (hb : WasPublished trace b) (heq : a.serial = b.serial) : a = b :=
  hjobs.built_unique a b (hjobs.published_built a ha) (hjobs.published_built b hb) heq

/-- The jobs in a slot are one. -/
theorem eq_of_slot (hjobs : IssuedJobs trace t next) {job other : Job} (hat : t.at? job.slot = some job)
    (hother : other ∈ t.installed) (hslot : other.slot = job.slot) : other = job := by
  obtain ⟨i, hi⟩ := List.mem_iff_getElem?.mp (JobTable.mem_installed.mp hother)
  obtain rfl := hjobs.in_slot i other hi
  rw [JobTable.at?, Option.join_eq_some_iff, ← hslot, hi] at hat
  exact Option.some.inj (Option.some.inj hat)

end IssuedJobs

namespace Issued

variable {trace : List PublishEvent} {s s' : Publishing} {event : PublishEvent}

theorem step (hissued : Issued trace s) (hmoves : JobMoves s s' event) : Issued (trace ++ [event]) s' := by
  cases hmoves with
  | moves hevent hslots hnext htemplate hsession =>
      have htemplate' {job : Job} (hjob : s'.templateJob = some job) :
          s'.templateThread.at? = s.templateThread.at? := by
        refine htemplate.resolve_right fun hnone => ?_
        rw [hnone] at hjob
        cases hjob
      have hjob' {job : Job} (hjob : s'.templateJob = some job) : s.templateJob = some job := by
        rwa [Publishing.templateJob, htemplate' hjob] at hjob
      have hsession' {job : Job} (hjob : s'.sessionJob = some job) : s.sessionJob = some job := by
        obtain hsame | hnone := hsession
        · rwa [Publishing.sessionJob, hsame] at hjob
        · rw [hnone] at hjob
          cases hjob
      refine ⟨hissued.jobs.moves hevent hslots hnext, ?_, ?_, ?_, ?_⟩
      · intro job hjob
        exact (built_quiet hevent).mpr (hissued.template_built job (hjob' hjob))
      · intro job hjob
        rw [built_quiet hevent, wasPublished_quiet hevent]
        exact hissued.session_built job (hsession' hjob)
      · intro job hat
        rw [wasPublished_quiet hevent]
        apply hissued.announcing
        rw [← htemplate' (by rw [Publishing.templateJob, hat]; rfl), hat]
      · intro job hjob hsession
        exact hissued.apart job (hjob' hjob) (hsession' hsession)
  | @templateBuilds job coinbaser hserial hslots hnext htemplate hsession =>
      have hfresh : ¬ Built trace job := fun hbuilt => by
        have := hissued.jobs.built_below job hbuilt
        omega
      refine ⟨hissued.jobs.builds hserial hslots hnext, ?_, ?_, ?_, ?_⟩
      · intro other hother
        rw [htemplate, Option.some.injEq] at hother
        exact built_build.mpr (.inr hother.symm)
      · intro other hother
        rw [built_build, wasPublished_build]
        rw [Publishing.sessionJob, hsession] at hother
        obtain ⟨hbuilt, hnot⟩ := hissued.session_built other hother
        exact ⟨.inl hbuilt, hnot⟩
      · intro other hat
        have hother : s'.templateJob = some other := by rw [Publishing.templateJob, hat]; rfl
        rw [htemplate, Option.some.injEq] at hother
        rw [wasPublished_build, ← hother]
        exact fun hpublished => hfresh (hissued.jobs.published_built job hpublished)
      · intro other hother hsame
        rw [htemplate, Option.some.injEq] at hother
        rw [Publishing.sessionJob, hsession, ← hother] at hsame
        exact hfresh (hissued.session_built job hsame).1
  | @sessionBuilds job coinbaser hserial hslots hnext htemplate hsession =>
      have hfresh : ¬ Built trace job := fun hbuilt => by
        have := hissued.jobs.built_below job hbuilt
        omega
      refine ⟨hissued.jobs.builds hserial hslots hnext, ?_, ?_, ?_, ?_⟩
      · intro other hother
        rw [Publishing.templateJob, htemplate] at hother
        exact built_build.mpr (.inl (hissued.template_built other hother))
      · intro other hother
        rw [hsession, Option.some.injEq] at hother
        rw [built_build, wasPublished_build, ← hother]
        exact ⟨.inr rfl, fun hpublished => hfresh (hissued.jobs.published_built job hpublished)⟩
      · intro other hat
        rw [wasPublished_build]
        exact hissued.announcing other (htemplate ▸ hat)
      · intro other hother hsame
        rw [hsession, Option.some.injEq] at hsame
        rw [Publishing.templateJob, htemplate, ← hsame] at hother
        exact hfresh (hissued.template_built job hother)
  | @templatePublishes job kind hjob hpublished hnext htemplate hsession =>
      have hbuilt := hissued.template_built job hjob
      have hother {other : Job} (hother : s'.templateJob = some other) : other = job := by
        obtain hnone | ⟨_, hat⟩ := htemplate
        · rw [hnone] at hother
          cases hother
        · rw [Publishing.templateJob, hat] at hother
          exact (Option.some.inj hother).symm
      refine ⟨hnext ▸ hissued.jobs.publishes hbuilt hpublished, ?_, ?_, ?_, ?_⟩
      · intro other hjob'
        rw [built_publish, hother hjob']
        exact hbuilt
      · intro other hsame
        rw [Publishing.sessionJob, hsession] at hsame
        obtain ⟨hbuilt', hnot⟩ := hissued.session_built other hsame
        rw [built_publish, wasPublished_publish, not_or]
        refine ⟨hbuilt', hnot, ?_⟩
        rintro rfl
        exact hissued.apart other hjob hsame
      · intro other hat
        obtain hnone | ⟨_, hat'⟩ := htemplate
        · rw [Publishing.templateJob, hat] at hnone
          cases hnone
        · rw [hat'] at hat
          cases hat
      · intro other hjob' hsame
        rw [hother hjob', Publishing.sessionJob, hsession] at hsame
        exact hissued.apart job hjob hsame
  | @sessionPublishes job kind hjob hpublished hnext htemplate hsession =>
      have hbuilt := (hissued.session_built job hjob).1
      have hidle : s'.sessionJob = none := by rw [Publishing.sessionJob, hsession]; rfl
      refine ⟨hnext ▸ hissued.jobs.publishes hbuilt hpublished, ?_, ?_, ?_, ?_⟩
      · intro other hother
        rw [Publishing.templateJob, htemplate] at hother
        exact built_publish.mpr (hissued.template_built other hother)
      · intro other hother
        rw [hidle] at hother
        cases hother
      · intro other hat
        rw [htemplate] at hat
        rw [wasPublished_publish, not_or]
        refine ⟨hissued.announcing other hat, ?_⟩
        rintro rfl
        exact hissued.apart other (by rw [Publishing.templateJob, hat]; rfl) hjob
      · intro other _ hsame
        rw [hidle] at hsame
        cases hsame

end Issued

/-! ### What the session thread can build in between -/

/-- The jobs the session thread builds before it needs another request answered. -/
def SessionThread.toBuild : SessionThread → Nat
  | idle => 0
  | completing _ _ | configuring _ _ => 1
  | serving _ at_ => if at_.job.isSome then 0 else 1

/-- The jobs the session thread can build before another request is left. -/
def Publishing.toBuild (s : Publishing) : Nat :=
  s.gateway.pool.coinbaserRequest.isSome.toNat + s.awaitingCoinbaser.isSome.toNat +
    s.sessionThread.toBuild

/-- Between the announcement of a job and its second publication the session thread builds at most the two
jobs that follow it. -/
structure Paced (trace : List PublishEvent) (s : Publishing) : Prop where
  awaits : s.sessionThread ≠ .idle → s.awaitingCoinbaser = none
  paced : ∀ job, s.templateJob = some job →
    s.templateThread.at? = some (.announcing job) ∨ WasPublished trace job →
      s.gateway.nextJobSerial + s.toBuild ≤ job.serial + 3

namespace Paced

variable {trace : List PublishEvent} {s s' : Publishing} {event : PublishEvent}

theorem toBuild_le (hpaced : Paced trace s) : s.toBuild ≤ 2 := by
  have hbool (b : Bool) : b.toNat ≤ 1 := by cases b <;> decide
  have hrequest := hbool s.gateway.pool.coinbaserRequest.isSome
  have hawaiting := hbool s.awaitingCoinbaser.isSome
  rw [Publishing.toBuild]
  by_cases hidle : s.sessionThread = .idle
  · rw [hidle, SessionThread.toBuild]
    omega
  · have hsession : s.sessionThread.toBuild ≤ 1 := by
      cases s.sessionThread with
      | idle => exact Nat.zero_le _
      | completing pending split => exact le_rfl
      | configuring pending split => exact le_rfl
      | serving work at_ =>
          rw [SessionThread.toBuild]
          split <;> omega
    rw [hpaced.awaits hidle, Option.isSome_none, Bool.toNat_false]
    omega

theorem leave (hawaits : s'.sessionThread ≠ .idle → s'.awaitingCoinbaser = none)
    (hnone : s'.templateJob = none) : Paced (trace ++ [event]) s' where
  awaits := hawaits
  paced job hjob _ := by
    rw [hnone] at hjob
    cases hjob

/-- The template thread keeps its job, and no more jobs are to build. -/
theorem keep (hpaced : Paced trace s) (hawaits : s'.sessionThread ≠ .idle → s'.awaitingCoinbaser = none)
    (htemplate : s'.templateThread = s.templateThread)
    (hpublished : ∀ job, s.templateJob = some job → WasPublished (trace ++ [event]) job →
      WasPublished trace job)
    (hle : s'.gateway.nextJobSerial + s'.toBuild ≤ s.gateway.nextJobSerial + s.toBuild) :
    Paced (trace ++ [event]) s' where
  awaits := hawaits
  paced job hjob hserved := by
    rw [Publishing.templateJob, htemplate] at hjob
    rw [htemplate] at hserved
    exact hle.trans (hpaced.paced job hjob (hserved.imp_right (hpublished job hjob)))

theorem step (hpaced : Paced trace s) (hissued : Issued trace s) (hpooled : Pooled s)
    (hstep : PublishStep H c protocolV3 xorKeyHash s event s') : Paced (trace ++ [event]) s' := by
  have hquiet {event : PublishEvent} (hevent : event.job = none) (job : Job)
      (_ : s.templateJob = some job) (hpublished : WasPublished (trace ++ [event]) job) :
      WasPublished trace job := (wasPublished_quiet hevent).mp hpublished
  have hidles {s' : Publishing} (hidle : s'.sessionThread = .idle) :
      s'.sessionThread ≠ .idle → s'.awaitingCoinbaser = none := fun h => absurd hidle h
  have hcompletes {pending : PendingCoinbaser} (hawaiting : s.awaitingCoinbaser = some pending)
      (split : Option CoinbaserResponse) :
      s.gateway.nextJobSerial + Publishing.toBuild
        { s with sessionThread := .completing pending split, awaitingCoinbaser := none } ≤
      s.gateway.nextJobSerial + s.toBuild := by
    show s.gateway.nextJobSerial + (s.gateway.pool.coinbaserRequest.isSome.toNat + 0 + 1) ≤ _
    rw [Publishing.toBuild, hawaiting, Option.isSome_some, Bool.toNat_true]
    omega
  have hsessionMoves {g' : Gateway} {session : SessionThread} (hpool : g'.pool = s.gateway.pool)
      (hle : g'.nextJobSerial + session.toBuild ≤ s.gateway.nextJobSerial + s.sessionThread.toBuild) :
      g'.nextJobSerial + Publishing.toBuild { s with gateway := g', sessionThread := session } ≤
        s.gateway.nextJobSerial + s.toBuild := by
    simp only [Publishing.toBuild, hpool]
    omega
  cases hstep with
  | fetch hat => exact .leave hpaced.awaits rfl
  | onTemplate template newBlock hat => exact .leave hpaced.awaits (at?_onTemplate _ _ _)
  | @templateServes work at_ next event g' then_ clocks hat hserve =>
      have hresume : (TemplateThread.resume next).at?.bind Serving.job = none := by rw [at?_resume]; rfl
      cases Gateway.serve_cases hserve with
      | commits abw hstate => exact .leave hpaced.awaits rfl
      | awaits hconfig hawaiting => exact .leave hpaced.awaits rfl
      | marks => exact .leave hpaced.awaits hresume
      | fails abw => exact .leave hpaced.awaits hresume
      | @builds abw job hbuilt =>
          have hle := hpaced.toBuild_le
          have hserial : job.serial = s.gateway.nextJobSerial := hbuilt.serial_eq
          have hjob {other : Job} : (some (if work.what.announcesTip then Serving.announcing job
              else .publishing job)).bind Serving.job = some other → other = job := by
            cases work.what.announcesTip <;> exact fun h => (Option.some.inj h).symm
          refine ⟨hpaced.awaits, ?_⟩
          intro other hother _
          show s.gateway.nextJobSerial + 1 + s.toBuild ≤ _
          rw [hjob hother]
          omega
      | refusesEmpty job => exact .leave hpaced.awaits hresume
      | refuses job => exact .leave hpaced.awaits hresume
      | @announces job jobs hpublished =>
          refine ⟨hpaced.awaits, ?_⟩
          intro other hother _
          obtain rfl : job = other := Option.some.inj hother
          exact hpaced.paced job (by rw [Publishing.templateJob, hat]; rfl) (.inl (by rw [hat]; rfl))
      | publishes hpublished => exact .leave hpaced.awaits hresume
  | requestCoinbaser now hat => exact .leave hpaced.awaits (at?_afterRequest _ _ _ _)
  | @send pending hidle hpending =>
      refine hpaced.keep (hidles hidle) rfl (hquiet rfl) ?_
      show s.gateway.nextJobSerial + (0 + 1 + s.sessionThread.toBuild) ≤ _
      rw [Publishing.toBuild, hpending, Option.isSome_some, Bool.toNat_true]
      omega
  | @expire pending now hidle hawaiting hdue =>
      exact hpaced.keep (fun _ => rfl) rfl (hquiet rfl) (hcompletes hawaiting _)
  | answer r hidle =>
      rw [Publishing.onCoinbaserResponse]
      split
      · exact hpaced.keep hpaced.awaits rfl (hquiet rfl) le_rfl
      · rename_i pending hawaiting
        split
        · exact hpaced.keep (fun _ => rfl) rfl (hquiet rfl) (hcompletes hawaiting _)
        · exact hpaced.keep hpaced.awaits rfl (hquiet rfl) le_rfl
  | malformed hidle =>
      rw [Publishing.onMalformedResponse]
      split
      · exact hpaced.keep hpaced.awaits rfl (hquiet rfl) le_rfl
      · rename_i pending hawaiting
        exact hpaced.keep (fun _ => rfl) rfl (hquiet rfl) (hcompletes hawaiting _)
  | configure config hidle =>
      refine hpaced.keep hpaced.awaits rfl (hquiet rfl) ?_
      rw [Publishing.toBuild, SessionView.onConfig_coinbaserRequest]
      exact le_rfl
  | assignment plain hidle => exact hpaced.keep hpaced.awaits rfl (hquiet rfl) le_rfl
  | disconnect hidle =>
      refine hpaced.keep (hidles hidle) rfl (hquiet rfl) ?_
      show s.gateway.nextJobSerial + (0 + 0 + s.sessionThread.toBuild) ≤ _
      rw [Publishing.toBuild]
      omega
  | @checkTip pending split hat =>
      have hbusy : s.awaitingCoinbaser = none := hpaced.awaits fun hidle => by
        rw [hat] at hidle
        cases hidle
      have hle : (SessionThread.afterTip s.gateway.jobs.tip pending split).toBuild ≤
          s.sessionThread.toBuild := by
        rw [hat, SessionThread.afterTip]
        split
        · exact Nat.zero_le _
        · exact le_rfl
      exact hpaced.keep (fun _ => hbusy) rfl (hquiet rfl)
        (hsessionMoves rfl (Nat.add_le_add_left hle _))
  | @readConfig pending split hat =>
      have hbusy : s.awaitingCoinbaser = none := hpaced.awaits fun hidle => by
        rw [hat] at hidle
        cases hidle
      have hle : (SessionThread.afterConfig s.gateway.pool.config pending split).toBuild ≤
          s.sessionThread.toBuild := by
        rw [hat, SessionThread.afterConfig]
        split
        · exact Nat.zero_le _
        · exact le_rfl
      exact hpaced.keep (fun _ => hbusy) rfl (hquiet rfl)
        (hsessionMoves rfl (Nat.add_le_add_left hle _))
  | @sessionServes work at_ event g' then_ clocks hat hserve =>
      have hbusy : s.awaitingCoinbaser = none := hpaced.awaits fun hidle => by
        rw [hat] at hidle
        cases hidle
      have hbuild (hnone : at_.job = none) : s.sessionThread.toBuild = 1 := by
        rw [hat, SessionThread.toBuild, hnone]
        rfl
      cases Gateway.serve_cases hserve with
      | commits abw hstate =>
          exact hpaced.keep (fun _ => hbusy) rfl (hquiet rfl) (hsessionMoves rfl (by rw [hbuild rfl]; rfl))
      | awaits hconfig hawaiting =>
          exact hpaced.keep (fun _ => hbusy) rfl (hquiet rfl) (hsessionMoves rfl (by rw [hbuild rfl]; rfl))
      | marks => exact hpaced.keep (fun _ => hbusy) rfl (hquiet rfl) (hsessionMoves rfl (Nat.le_add_right _ _))
      | fails abw =>
          exact hpaced.keep (fun _ => hbusy) rfl (hquiet rfl) (hsessionMoves rfl (by rw [hbuild rfl]; rfl))
      | @builds abw job hbuilt =>
          refine hpaced.keep (fun _ => hbusy) rfl (fun other _ => wasPublished_build.mp)
            (hsessionMoves rfl ?_)
          rw [hbuild rfl]
          cases work.what.announcesTip <;> rfl
      | refusesEmpty job =>
          exact hpaced.keep (fun _ => hbusy) rfl (hquiet rfl) (hsessionMoves rfl (Nat.le_add_right _ _))
      | refuses job =>
          exact hpaced.keep (fun _ => hbusy) rfl (hquiet rfl) (hsessionMoves rfl (Nat.le_add_right _ _))
      | announces hpublished => exact absurd rfl ((hpooled.full work _ hat).2 _)
      | @publishes job jobs hpublished =>
          refine hpaced.keep (fun _ => hbusy) rfl ?_ (hsessionMoves rfl (Nat.le_add_right _ _))
          intro other hother hwas
          refine (wasPublished_publish.mp hwas).resolve_right ?_
          rintro rfl
          exact hissued.apart other hother (by rw [Publishing.sessionJob, hat]; rfl)

end Paced

/-! ### The work of a slot -/

/-- The job is in no slot and the template thread does not come to publish it. -/
def Publishing.Gone (s : Publishing) (job : Job) : Prop :=
  job ∉ s.gateway.jobs.installed ∧ s.templateJob ≠ some job

/-- While the template thread is about to publish the job again, no other job is in its slot or comes to
it. -/
def Publishing.Unrivalled (s : Publishing) (job : Job) : Prop :=
  s.templateThread.at? = some (.publishing job) →
    (∀ other ∈ s.gateway.jobs.installed, other.slot = job.slot → other = job) ∧
      ∀ other, s.sessionJob = some other → other.slot ≠ job.slot

section Slot

variable {trace : List PublishEvent} {s s' : Publishing} {event : PublishEvent} {job : Job}

theorem Issued.ne_new (hissued : Issued trace s) (hpublished : WasPublished trace job) {new : Job}
    (hserial : new.serial = s.gateway.nextJobSerial) : new ≠ job := by
  rintro rfl
  have := hissued.jobs.built_below new (hissued.jobs.published_built new hpublished)
  omega

theorem Issued.ne_session (hissued : Issued trace s) (hpublished : WasPublished trace job) {other : Job}
    (hother : s.sessionJob = some other) : other ≠ job := by
  rintro rfl
  exact (hissued.session_built other hother).2 hpublished

/-- A job that left its slot and the template thread does not return. -/
theorem Publishing.Gone.step (hgone : s.Gone job) (hissued : Issued trace s)
    (hpublished : WasPublished trace job) (hmoves : JobMoves s s' event) : s'.Gone job := by
  obtain ⟨hinstalled, htemplate⟩ := hgone
  cases hmoves with
  | moves hevent hslots hnext hkeeps hsession =>
      refine ⟨by rwa [JobTable.installed, hslots], ?_⟩
      obtain hsame | hnone := hkeeps
      · rwa [Publishing.templateJob, hsame]
      · rw [hnone]
        exact Option.some_ne_none job ∘ Eq.symm
  | templateBuilds hserial hslots hnext hbuilds hsession =>
      refine ⟨by rwa [JobTable.installed, hslots], ?_⟩
      rw [hbuilds, ne_eq, Option.some.injEq]
      exact hissued.ne_new hpublished hserial
  | sessionBuilds hserial hslots hnext hsame hbuilds =>
      exact ⟨by rwa [JobTable.installed, hslots], by rwa [Publishing.templateJob, hsame]⟩
  | @templatePublishes other kind hjob htable hnext hthen hsession =>
      have hne : other ≠ job := fun heq => htemplate (heq ▸ hjob)
      refine ⟨?_, ?_⟩
      · intro hmem
        exact (htable.installed_of job hmem).elim (fun heq => hne heq.symm) hinstalled
      · obtain hnone | ⟨_, hat⟩ := hthen
        · rw [hnone]
          exact Option.some_ne_none job ∘ Eq.symm
        · rw [Publishing.templateJob, hat]
          exact fun heq => hne (Option.some.inj heq)
  | @sessionPublishes other kind hjob htable hnext hsame hidle =>
      refine ⟨?_, by rwa [Publishing.templateJob, hsame]⟩
      intro hmem
      exact (htable.installed_of job hmem).elim
        (fun heq => hissued.ne_session hpublished hjob heq.symm) hinstalled

/-- Two serials less than three apart are not of one slot. -/
theorem slot_ne_of_near {slots : Nat} (hslots : 3 ≤ slots ∧ slots ≤ 256) {a b : Nat} (hlt : a < b)
    (hnear : b ≤ a + 2) : UInt8.ofNat (b % slots) ≠ UInt8.ofNat (a % slots) := by
  intro heq
  have hbound (n : Nat) : n % slots < 256 := (Nat.mod_lt n (by omega)).trans_le hslots.2
  have hmod : b % slots = a % slots := by
    have := congrArg UInt8.toNat heq
    rwa [UInt8.toNat_ofNat_of_lt' (hbound b), UInt8.toNat_ofNat_of_lt' (hbound a)] at this
  have hdvd : slots ∣ b - a := Nat.dvd_of_mod_eq_zero (Nat.sub_mod_eq_zero_of_mod_eq hmod)
  have := Nat.le_of_dvd (by omega) hdvd
  omega

theorem Publishing.Unrivalled.step (hunrivalled : s.Unrivalled job) (hissued : Issued trace s)
    (hpaced : Paced (trace ++ [event]) s') (hpublished : WasPublished trace job)
    (hslots : 3 ≤ c.protocolJobSlots ∧ c.protocolJobSlots ≤ 256)
    (hbuilt : ∀ job, Built (trace ++ [event]) job → WellBuilt c job) (hmoves : JobMoves s s' event) :
    s'.Unrivalled job := by
  intro hat
  have hjob : s'.templateJob = some job := by rw [Publishing.templateJob, hat]; rfl
  cases hmoves with
  | moves hevent hsame hnext hkeeps hsession =>
      have hkept := hkeeps.resolve_right (by rw [hjob]; nofun)
      obtain ⟨hslot, hother⟩ := hunrivalled (hkept ▸ hat)
      refine ⟨by rwa [JobTable.installed, hsame], ?_⟩
      intro other hsome
      obtain hsession | hnone := hsession
      · rw [Publishing.sessionJob, hsession] at hsome
        exact hother other hsome
      · rw [hnone] at hsome
        cases hsome
  | templateBuilds hserial hsame hnext hbuilds hsession =>
      rw [hjob, Option.some.injEq] at hbuilds
      exact absurd hbuilds.symm (hissued.ne_new hpublished (hbuilds ▸ hserial))
  | @sessionBuilds new coinbaser hserial hsame hnext hkeeps hbuilds =>
      refine ⟨?_, ?_⟩
      · rw [JobTable.installed, hsame]
        exact (hunrivalled (hkeeps ▸ hat)).1
      · intro other hother
        obtain rfl := Option.some.inj (hbuilds.symm.trans hother)
        have hjobBuilt := hissued.jobs.published_built job hpublished
        have hlt := hissued.jobs.built_below job hjobBuilt
        have hnear := hpaced.paced job hjob (.inr (wasPublished_build.mpr hpublished))
        rw [(hbuilt new (built_build.mpr (.inr rfl))).slot_eq,
          (hbuilt job (built_build.mpr (.inl hjobBuilt))).slot_eq]
        exact slot_ne_of_near hslots (by omega) (by omega)
  | @templatePublishes other kind hother htable hnext hthen hsession =>
      obtain hnone | ⟨hannouncing, hat'⟩ := hthen
      · rw [hnone] at hjob
        cases hjob
      · rw [hat', Option.some.injEq, Serving.publishing.injEq] at hat
        rw [hat] at hannouncing
        exact absurd hpublished (hissued.announcing job hannouncing)
  | @sessionPublishes other kind hother htable hnext hsame hidle =>
      obtain ⟨hslot, hsession⟩ := hunrivalled (hsame ▸ hat)
      refine ⟨?_, ?_⟩
      · intro held hheld heq
        obtain rfl | hheld := htable.installed_of held hheld
        · exact absurd heq (hsession held hother)
        · exact hslot held hheld heq
      · intro held hheld
        rw [Publishing.sessionJob, hidle] at hheld
        cases hheld

end Slot

/-! ### Every run -/

/-- What holds of the jobs in every run. -/
structure Publications (c : JobConfig) (trace : List PublishEvent) (s : Publishing) : Prop where
  pooled : Pooled s
  issued : Issued trace s
  paced : Paced trace s
  wellBuilt : ∀ job, Built trace job → WellBuilt c job

theorem Publications.step {trace : List PublishEvent} {s s' : Publishing} {event : PublishEvent}
    (hpublications : Publications c trace s) (hstep : PublishStep H c protocolV3 xorKeyHash s event s') :
    Publications c (trace ++ [event]) s' where
  pooled := hpublications.pooled.step hstep
  issued := hpublications.issued.step (hstep.jobMoves hpublications.pooled)
  paced := hpublications.paced.step hpublications.issued hpublications.pooled hstep
  wellBuilt job hbuilt := by
    obtain hbuilt | ⟨coinbaser, rfl⟩ := built_append.mp hbuilt
    · exact hpublications.wellBuilt job hbuilt
    · exact hstep.wellBuilt

theorem Publications.start (slots : Nat) (keep : Duration) :
    Publications c [] (.start slots keep) where
  pooled := pooled_start slots keep
  issued := by
    have hbuilt (job : Job) : ¬ Built [] job := fun ⟨_, hmem⟩ => List.not_mem_nil hmem
    have hpublished (job : Job) : ¬ WasPublished [] job := fun ⟨_, hmem⟩ => List.not_mem_nil hmem
    refine ⟨⟨?_, ?_, ?_, ?_, ?_⟩, nofun, nofun, nofun, nofun⟩
    · exact fun job hjob => absurd hjob (hbuilt job)
    · exact fun job _ hjob => absurd hjob (hbuilt job)
    · exact fun job hjob => absurd hjob (hpublished job)
    · intro job hjob
      rw [Publishing.start, JobTable.installed_new] at hjob
      cases hjob
    · intro i job hslot
      have hmem : job ∈ (JobTable.new slots keep).installed := JobTable.mem_installed_of_slots hslot
      rw [JobTable.installed_new] at hmem
      cases hmem
  paced := ⟨fun hidle => absurd rfl hidle, nofun⟩
  wellBuilt _ hbuilt := by
    obtain ⟨_, hmem⟩ := hbuilt
    cases hmem

end Ratum
