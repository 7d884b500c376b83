import Mathlib.Data.List.DropRight
import Ratum.Gateway.Publish

/-!
# The work served is on the tip

What holds in every interleaving of the two threads that publish work: the jobs not marked stale are on
the block of the work served, nothing is published off the tip, and the work served is marked stale only
once the tip has moved from under it.
-/

namespace Ratum

/-! ### Requests and the pool's configuration -/

/-- Whether the template thread works from a fetch that found no pool. -/
def TemplateThread.Unpooled : TemplateThread → Prop
  | fetching poolConfig => poolConfig = none
  | serving work _ _ => work.poolConfig = none
  | _ => False

/-- Whether a request is left, awaited or being completed. -/
def Publishing.Requests (s : Publishing) : Prop :=
  s.gateway.pool.coinbaserRequest ≠ none ∨ s.awaitingCoinbaser ≠ none ∨ s.sessionThread ≠ .idle

/-- While there is a request there is a pool, for both threads. -/
structure Pooled (s : Publishing) : Prop where
  config_ne : s.Requests → s.gateway.pool.config ≠ none
  pooled : s.Requests → ¬ s.templateThread.Unpooled
  full : ∀ work at_, s.sessionThread = .serving work at_ →
    work.what = .full false ∧ ∀ job, at_ ≠ .announcing job
  awaiting : ∀ work, s.sessionThread = .serving work .staleMarking →
    s.gateway.pool.abwState = .awaiting

variable {H : Hashing} {c : JobConfig} {protocolV3 : Bool} {xorKeyHash : XorKey → Hash}

theorem onConfig_config_ne {view : SessionView} {config : ClientConfig}
    (hconfig : view.config ≠ none) : (view.onConfig protocolV3 config).config ≠ none := by
  rw [SessionView.onConfig]
  split
  · exact hconfig
  · exact Option.some_ne_none _

theorem requestCoinbaser_view (view : SessionView) (now : Instant) (template : Template)
    (newBlock : Bool) : (view.requestCoinbaser now template newBlock).2.config = view.config ∧
      (view.requestCoinbaser now template newBlock).2.abw = view.abw := by
  rw [SessionView.requestCoinbaser]
  split_ifs <;> exact ⟨rfl, rfl⟩

theorem not_unpooled_resume (next : Option (Template × Bool × ClientConfig)) :
    ¬ (TemplateThread.resume next).Unpooled := by
  cases next <;> exact id

/-- The session thread starts `on_coinbaser` for a request it awaited. -/
theorem Pooled.completing {s : Publishing} (hpooled : Pooled s) (hawaiting : s.awaitingCoinbaser ≠ none)
    (pending : PendingCoinbaser) (split : Option CoinbaserResponse) :
    Pooled { s with sessionThread := .completing pending split, awaitingCoinbaser := none } := by
  have hrequests : s.Requests := .inr (.inl hawaiting)
  refine ⟨fun _ => hpooled.config_ne hrequests, fun _ => hpooled.pooled hrequests, ?_, ?_⟩
  · intro work at_ hat
    cases hat
  · intro work hat
    cases hat

theorem Pooled.step {s s' : Publishing} {event : PublishEvent} (hpooled : Pooled s)
    (hstep : PublishStep H c protocolV3 xorKeyHash s event s') : Pooled s' := by
  cases hstep with
  | fetch hat => exact ⟨hpooled.config_ne, hpooled.config_ne, hpooled.full, hpooled.awaiting⟩
  | @onTemplate poolConfig template newBlock hat =>
      refine ⟨hpooled.config_ne, ?_, hpooled.full, hpooled.awaiting⟩
      intro hrequests
      have hconfig := hpooled.pooled hrequests
      rw [hat] at hconfig
      cases poolConfig with
      | none => exact absurd rfl hconfig
      | some config => cases newBlock <;> simp [TemplateThread.onTemplate, TemplateThread.Unpooled]
  | @templateServes work at_ next event g' then_ clocks hat hserve =>
      have hpool := (Gateway.serve_cases hserve).pool_eq
      have hrequests {t : TemplateThread}
          (h : Publishing.Requests { s with gateway := g', templateThread := t }) : s.Requests := by
        rwa [Publishing.Requests, hpool] at h
      refine ⟨?_, ?_, hpooled.full, ?_⟩
      · intro h
        rw [hpool]
        exact hpooled.config_ne (hrequests h)
      · intro h
        have hconfig := hpooled.pooled (hrequests h)
        rw [hat] at hconfig
        cases then_ with
        | none => exact not_unpooled_resume next
        | some at_ => exact hconfig
      · intro work hat
        rw [hpool]
        exact hpooled.awaiting work hat
  | @requestCoinbaser template newBlock config now hat =>
      have hview (view : SessionView) := requestCoinbaser_view view now template newBlock
      refine ⟨?_, ?_, hpooled.full, ?_⟩
      · intro hrequests hnone
        rw [(hview _).1] at hnone
        refine hpooled.config_ne ?_ hnone
        rwa [Publishing.Requests, SessionView.requestCoinbaser, hnone, Option.isNone_none, if_pos rfl,
          ite_self] at hrequests
      · intro _
        rw [TemplateThread.afterRequest]
        split <;> simp [TemplateThread.Unpooled]
      · intro work hat
        have hawaiting := hpooled.awaiting work hat
        rwa [SessionView.abwState, ← (hview _).1, ← (hview _).2] at hawaiting
  | send hidle hpending =>
      have hrequests : s.Requests := .inl (by simp [hpending])
      refine ⟨fun _ => hpooled.config_ne hrequests, fun _ => hpooled.pooled hrequests, ?_, ?_⟩
      · exact hpooled.full
      · exact hpooled.awaiting
  | expire now hidle hawaiting hdue =>
      clear hdue
      exact hpooled.completing (by simp [hawaiting]) _ _
  | answer r hidle =>
      rw [Publishing.onCoinbaserResponse]
      split
      · exact hpooled
      · rename_i pending hawaiting
        split
        · exact hpooled.completing (by simp [hawaiting]) _ _
        · exact hpooled
  | malformed hidle =>
      rw [Publishing.onMalformedResponse]
      split
      · exact hpooled
      · rename_i pending hawaiting
        exact hpooled.completing (by simp [hawaiting]) _ _
  | configure config hidle =>
      have hrequests {view : SessionView} (hview : view.coinbaserRequest = s.gateway.pool.coinbaserRequest)
          (h : Publishing.Requests { s with gateway.pool := view }) : s.Requests := by
        rwa [Publishing.Requests, hview] at h
      have hview := s.gateway.pool.onConfig_coinbaserRequest protocolV3 config
      refine ⟨?_, ?_, hpooled.full, ?_⟩
      · exact fun h => onConfig_config_ne (hpooled.config_ne (hrequests hview h))
      · exact fun h => hpooled.pooled (hrequests hview h)
      · intro work hat
        rw [hidle] at hat
        cases hat
  | assignment plain hidle =>
      refine ⟨hpooled.config_ne, hpooled.pooled, hpooled.full, ?_⟩
      intro work hat
      rw [hidle] at hat
      cases hat
  | disconnect hidle =>
      have hrequests {t : Publishing} (hrequest : t.gateway.pool.coinbaserRequest = none)
          (hawaiting : t.awaitingCoinbaser = none) (hidle : t.sessionThread = .idle) :
          ¬ t.Requests := by
        simp [Publishing.Requests, hrequest, hawaiting, hidle]
      refine ⟨fun h => ?_, fun h => ?_, hpooled.full, ?_⟩
      · exact absurd h (hrequests rfl rfl hidle)
      · exact absurd h (hrequests rfl rfl hidle)
      · intro work hat
        rw [hidle] at hat
        cases hat
  | @checkTip pending split hat =>
      have hrequests : s.Requests := .inr (.inr (by simp [hat]))
      refine ⟨fun _ => hpooled.config_ne hrequests, fun _ => hpooled.pooled hrequests, ?_, ?_⟩
      · intro work at_ h
        simp only [SessionThread.afterTip] at h
        split at h <;> cases h
      · intro work h
        simp only [SessionThread.afterTip] at h
        split at h <;> cases h
  | @readConfig pending split hat =>
      have hrequests : s.Requests := .inr (.inr (by simp [hat]))
      refine ⟨fun _ => hpooled.config_ne hrequests, fun _ => hpooled.pooled hrequests, ?_, ?_⟩
      · intro work at_ h
        simp only [SessionThread.afterConfig] at h
        split at h <;> cases h
        exact ⟨rfl, nofun⟩
      · intro work h
        simp only [SessionThread.afterConfig] at h
        split at h <;> cases h
  | @sessionServes work at_ event g' then_ clocks hat hserve =>
      have hrequests : s.Requests := .inr (.inr (by simp [hat]))
      have hserved := Gateway.serve_cases hserve
      obtain ⟨hfull, hnot⟩ := hpooled.full work at_ hat
      refine ⟨fun _ => ?_, fun _ => hpooled.pooled hrequests, ?_, ?_⟩
      · rw [hserved.pool_eq]
        exact hpooled.config_ne hrequests
      · intro work' at' h
        cases then_ with
        | none => cases h
        | some then_ =>
            cases h
            refine ⟨hfull, ?_⟩
            cases hserved <;> simp [hfull, Build.announcesTip]
      · intro work' h
        rw [hserved.pool_eq]
        cases then_ with
        | none => cases h
        | some then_ =>
            cases h
            exact hserved.abwState_awaiting rfl

/-! ### Serials -/

/-- The job a thread is about to publish. -/
def Serving.job : Serving → Option Job
  | announcing job | publishing job => some job
  | _ => none

/-- Where the template thread stands in `build_and_publish`. -/
def TemplateThread.at? : TemplateThread → Option Serving
  | serving _ at_ _ => some at_
  | _ => none

def SessionThread.at? : SessionThread → Option Serving
  | serving _ at_ => some at_
  | _ => none

def JobTable.Held (t : JobTable) (job : Job) : Prop :=
  job ∈ t.installed ∨ ∃ p, t.current = some p ∧ p.job = job

/-- The jobs of the table and of the template thread. -/
def Known (t : JobTable) (template : Option Serving) (job : Job) : Prop :=
  t.Held job ∨ template.bind Serving.job = some job

/-- A serial names one job, and the job the session thread is about to publish is not held yet. -/
structure Serials (t : JobTable) (next : Nat) (template session : Option Serving) : Prop where
  below : ∀ job, Known t template job → job.serial < next
  session_below : ∀ job, session.bind Serving.job = some job → job.serial < next
  stale_below : ∀ serial, t.stalePrevblock serial = true → serial < next
  unique : ∀ a b, Known t template a → Known t template b → a.serial = b.serial → a = b
  session_fresh : ∀ job, session.bind Serving.job = some job →
    ∀ a, Known t template a → a.serial ≠ job.serial
  session_live : ∀ job, session.bind Serving.job = some job → t.stalePrevblock job.serial = false
  announcing_fresh : ∀ job, template = some (.announcing job) →
    ∀ a, t.Held a → a.serial ≠ job.serial

theorem JobTable.Published.held {t t' : JobTable} {job other : Job} {kind : CoinbaseKind}
    (hpublished : t.Published job kind t') (hheld : t'.Held other) : other = job ∨ t.Held other := by
  obtain hinstalled | ⟨p, hcurrent, rfl⟩ := hheld
  · exact (hpublished.installed_of other hinstalled).imp_right .inl
  · obtain ⟨sequence, heq⟩ := hpublished.current_eq
    rw [hcurrent, Option.some.injEq] at heq
    exact .inl (by rw [heq])

theorem JobTable.Published.stale {t t' : JobTable} {job : Job} {kind : CoinbaseKind} {serial : Nat}
    (hpublished : t.Published job kind t') (hstale : t'.stalePrevblock serial = true) :
    t.stalePrevblock serial = true ∨ ∃ other ∈ t.installed, other.serial = serial ∧
      (kind = .subsidyOnly ∨ other.template.prevHash ≠ job.template.prevHash) := by
  rw [hpublished.stale_eq, JobTable.stale_mark] at hstale
  simpa using hstale

namespace Serials

variable {t t' : JobTable} {next next' : Nat} {template template' session session' : Option Serving}

/-- No job comes in, and only held jobs are marked. -/
theorem mono (hserials : Serials t next template session) (hnext : next ≤ next')
    (hknown : ∀ a, Known t' template' a → Known t template a)
    (hstale : ∀ serial, t'.stalePrevblock serial = true →
      t.stalePrevblock serial = true ∨ ∃ other ∈ t.installed, other.serial = serial)
    (hsession : ∀ job, session'.bind Serving.job = some job → session.bind Serving.job = some job)
    (hannouncing : ∀ job, template' = some (.announcing job) →
      template = some (.announcing job) ∧ ∀ a, t'.Held a → t.Held a) :
    Serials t' next' template' session' where
  below job hjob := (hserials.below job (hknown job hjob)).trans_le hnext
  session_below job hjob := (hserials.session_below job (hsession job hjob)).trans_le hnext
  stale_below serial h := by
    apply Nat.lt_of_lt_of_le _ hnext
    obtain h | ⟨other, hother, rfl⟩ := hstale serial h
    · exact hserials.stale_below serial h
    · exact hserials.below other (.inl (.inl hother))
  unique a b ha hb := hserials.unique a b (hknown a ha) (hknown b hb)
  session_fresh job hjob a ha := hserials.session_fresh job (hsession job hjob) a (hknown a ha)
  session_live job hjob := by
    rw [Bool.eq_false_iff]
    intro h
    obtain h | ⟨other, hother, heq⟩ := hstale _ h
    · rw [hserials.session_live job (hsession job hjob)] at h
      cases h
    · exact hserials.session_fresh job (hsession job hjob) other (.inl (.inl hother)) heq
  announcing_fresh job hjob a ha := by
    obtain ⟨htemplate, hheld⟩ := hannouncing job hjob
    exact hserials.announcing_fresh job htemplate a (hheld a ha)

/-- The template thread built a job. -/
theorem templateBuilds (hserials : Serials t next none session) {at_ : Serving} {job : Job}
    (hat : at_.job = some job) (hserial : job.serial = next) :
    Serials t (next + 1) (some at_) session := by
  have hknown : ∀ a, Known t (some at_) a → a = job ∨ Known t none a := by
    rintro a (ha | ha)
    · exact .inr (.inl ha)
    · rw [Option.bind_some, hat, Option.some.injEq] at ha
      exact .inl ha.symm
  refine
    { below := ?_, session_below := ?_, stale_below := ?_, unique := ?_, session_fresh := ?_
      session_live := hserials.session_live, announcing_fresh := ?_ }
  · intro a ha
    obtain rfl | ha := hknown a ha
    · omega
    · have := hserials.below a ha
      omega
  · intro a ha
    have := hserials.session_below a ha
    omega
  · intro serial h
    have := hserials.stale_below serial h
    omega
  · intro a b ha hb heq
    obtain rfl | ha := hknown a ha <;> obtain rfl | hb := hknown b hb
    · rfl
    · have := hserials.below b hb
      omega
    · have := hserials.below a ha
      omega
    · exact hserials.unique a b ha hb heq
  · intro k hk a ha
    obtain rfl | ha := hknown a ha
    · have := hserials.session_below k hk
      omega
    · exact hserials.session_fresh k hk a ha
  · intro j hj a ha
    obtain rfl := Option.some.inj hj
    obtain rfl : j = job := Option.some.inj hat
    have := hserials.below a (.inl ha)
    omega

/-- The session thread built a job. -/
theorem sessionBuilds (hserials : Serials t next template none) {at_ : Serving} {job : Job}
    (hat : at_.job = some job) (hserial : job.serial = next) :
    Serials t (next + 1) template (some at_) := by
  have hjob : ∀ k, (some at_).bind Serving.job = some k → k = job := by
    intro k hk
    rw [Option.bind_some, hat, Option.some.injEq] at hk
    exact hk.symm
  refine
    { below := ?_, session_below := ?_, stale_below := ?_, unique := hserials.unique
      session_fresh := ?_, session_live := ?_, announcing_fresh := hserials.announcing_fresh }
  · intro a ha
    have := hserials.below a ha
    omega
  · intro k hk
    rw [hjob k hk]
    omega
  · intro serial h
    have := hserials.stale_below serial h
    omega
  · intro k hk a ha
    have := hserials.below a ha
    rw [hjob k hk]
    omega
  · intro k hk
    rw [hjob k hk, Bool.eq_false_iff]
    intro h
    have := hserials.stale_below _ h
    omega

/-- The session thread published its job. -/
theorem sessionPublishes (hserials : Serials t next template session) {job : Job} {kind : CoinbaseKind}
    (hsession : session.bind Serving.job = some job) (hpublished : t.Published job kind t') :
    Serials t' next template none := by
  have hknown : ∀ a, Known t' template a → a = job ∨ Known t template a := by
    rintro a (ha | ha)
    · exact (hpublished.held ha).imp_right .inl
    · exact .inr (.inr ha)
  have hfresh := hserials.session_fresh job hsession
  refine
    { below := ?_, session_below := nofun, stale_below := ?_, unique := ?_, session_fresh := nofun
      session_live := nofun, announcing_fresh := ?_ }
  · intro a ha
    obtain rfl | ha := hknown a ha
    · exact hserials.session_below _ hsession
    · exact hserials.below a ha
  · intro serial h
    obtain h | ⟨other, hother, rfl, _⟩ := hpublished.stale h
    · exact hserials.stale_below serial h
    · exact hserials.below other (.inl (.inl hother))
  · intro a b ha hb heq
    obtain rfl | ha := hknown a ha <;> obtain rfl | hb := hknown b hb
    · rfl
    · exact absurd heq.symm (hfresh b hb)
    · exact absurd heq (hfresh a ha)
    · exact hserials.unique a b ha hb heq
  · intro j hj a ha
    obtain rfl | ha := hpublished.held ha
    · exact (hfresh j (.inr (by rw [hj]; rfl))).symm
    · exact hserials.announcing_fresh j hj a ha

/-- A thread that leaves its job or keeps it, over a table that only marks. -/
theorem leave (hserials : Serials t next template session) (hnext : next ≤ next')
    (hheld : ∀ a, t'.Held a → t.Held a)
    (hstale : ∀ serial, t'.stalePrevblock serial = true →
      t.stalePrevblock serial = true ∨ ∃ other ∈ t.installed, other.serial = serial)
    (htemplate : template' = template ∨ template'.bind Serving.job = none)
    (hsession : session' = session ∨ session'.bind Serving.job = none) :
    Serials t' next' template' session' := by
  apply hserials.mono hnext _ hstale
  · intro job hjob
    obtain rfl | hnone := hsession
    · exact hjob
    · rw [hnone] at hjob
      cases hjob
  · intro job hjob
    obtain rfl | hnone := htemplate
    · exact ⟨hjob, hheld⟩
    · rw [hjob] at hnone
      cases hnone
  · rintro a (ha | ha)
    · exact .inl (hheld a ha)
    · obtain rfl | hnone := htemplate
      · exact .inr ha
      · rw [hnone] at ha
        cases ha

theorem mark (hserials : Serials t next template session) (selected : Job → Bool)
    (htemplate : template' = template ∨ template'.bind Serving.job = none)
    (hsession : session' = session ∨ session'.bind Serving.job = none) :
    Serials (t.mark selected) next template' session' := by
  have hstale : ∀ serial, (t.mark selected).stalePrevblock serial = true →
      t.stalePrevblock serial = true ∨ ∃ other ∈ t.installed, other.serial = serial := by
    intro serial h
    obtain h | ⟨other, hother, heq, _⟩ := JobTable.stale_mark.mp h
    · exact .inl h
    · exact .inr ⟨other, hother, heq⟩
  exact hserials.leave le_rfl (fun _ h => h) hstale htemplate hsession

/-- The template thread published its job, and keeps it or returns. -/
theorem templatePublishes (hserials : Serials t next template session) {job : Job}
    {kind : CoinbaseKind} (hjob : template.bind Serving.job = some job)
    (hpublished : t.Published job kind t')
    (htemplate : template' = some (.publishing job) ∨ template' = none) :
    Serials t' next template' session := by
  have hheld : ∀ a, t'.Held a → Known t template a := by
    intro a ha
    obtain rfl | ha := hpublished.held ha
    · exact .inr hjob
    · exact .inl ha
  apply hserials.mono le_rfl
  · rintro a (ha | ha)
    · exact hheld a ha
    · obtain rfl | rfl := htemplate
      · exact .inr (hjob.trans ha)
      · cases ha
  · intro serial h
    obtain h | ⟨other, hother, heq, _⟩ := hpublished.stale h
    · exact .inl h
    · exact .inr ⟨other, hother, heq⟩
  · exact fun _ h => h
  · intro j hj
    obtain rfl | rfl := htemplate <;> cases hj

end Serials

theorem at?_onTemplate (template : Template) (newBlock : Bool) (poolConfig : Option ClientConfig) :
    (TemplateThread.onTemplate template newBlock poolConfig).at?.bind Serving.job = none := by
  cases poolConfig <;> cases newBlock <;> rfl

theorem at?_resume (next : Option (Template × Bool × ClientConfig)) :
    (TemplateThread.resume next).at? = none := by
  cases next <;> rfl

theorem at?_afterRequest (template : Template) (newBlock : Bool) (config : ClientConfig) (left : Bool) :
    (TemplateThread.afterRequest template newBlock config left).at?.bind Serving.job = none := by
  cases newBlock <;> cases left <;> rfl

theorem at?_afterTip (tip : Option Hash) (pending : PendingCoinbaser)
    (split : Option CoinbaserResponse) : (SessionThread.afterTip tip pending split).at? = none := by
  rw [SessionThread.afterTip]
  split <;> rfl

theorem at?_afterConfig (poolConfig : Option ClientConfig) (pending : PendingCoinbaser)
    (split : Option CoinbaserResponse) :
    (SessionThread.afterConfig poolConfig pending split).at?.bind Serving.job = none := by
  rw [SessionThread.afterConfig]
  split <;> rfl

/-- The serials, in a state of the two threads. -/
def Publishing.Serials (s : Publishing) : Prop :=
  Ratum.Serials s.gateway.jobs s.gateway.nextJobSerial s.templateThread.at? s.sessionThread.at?

theorem Publishing.Serials.step {s s' : Publishing} {event : PublishEvent} (hserials : s.Serials)
    (hpooled : Pooled s) (hstep : PublishStep H c protocolV3 xorKeyHash s event s') : s'.Serials := by
  have hkeep {template session : Option Serving} (htemplate : template = s.templateThread.at? ∨
      template.bind Serving.job = none) (hsession : session = s.sessionThread.at? ∨
      session.bind Serving.job = none) :
      Ratum.Serials s.gateway.jobs s.gateway.nextJobSerial template session :=
    hserials.leave le_rfl (fun _ h => h) (fun _ h => .inl h) htemplate hsession
  cases hstep with
  | fetch hat => exact hkeep (.inr rfl) (.inl rfl)
  | onTemplate template newBlock hat =>
      exact hserials.leave le_rfl (fun _ h => h) (fun _ h => .inl h) (.inr (at?_onTemplate _ _ _))
        (.inl rfl)
  | @templateServes work at_ next event g' then_ clocks hat hserve =>
      have hat' : s.templateThread.at? = some at_ := by rw [hat]; rfl
      cases Gateway.serve_cases hserve with
      | commits abw hstate => exact hkeep (.inr rfl) (.inl rfl)
      | awaits hconfig hawaiting => exact hkeep (.inr rfl) (.inl rfl)
      | marks => exact hserials.mark _ (.inr (by rw [Option.elim_none, at?_resume]; rfl)) (.inl rfl)
      | fails abw =>
          exact hserials.leave (Nat.le_succ _) (fun _ h => h) (fun _ h => .inl h)
            (.inr (by rw [Option.elim_none, at?_resume]; rfl)) (.inl rfl)
      | @builds abw job hbuilt =>
          have hnone := hkeep (.inr (Option.bind_none _)) (.inl rfl)
          apply hnone.templateBuilds _ hbuilt.serial_eq
          split <;> rfl
      | refusesEmpty job =>
          exact hkeep (.inr (by rw [Option.elim_none, at?_resume]; rfl)) (.inl rfl)
      | refuses job => exact hkeep (.inr (by rw [Option.elim_none, at?_resume]; rfl)) (.inl rfl)
      | announces hpublished =>
          exact hserials.templatePublishes (by rw [hat']; rfl) hpublished (.inl rfl)
      | publishes hpublished =>
          exact hserials.templatePublishes (by rw [hat']; rfl) hpublished (.inr (at?_resume next))
  | requestCoinbaser now hat => exact hkeep (.inr (at?_afterRequest _ _ _ _)) (.inl rfl)
  | send hidle hpending => exact hserials
  | expire now hidle hawaiting hdue => exact hkeep (.inl rfl) (.inr rfl)
  | answer r hidle =>
      rw [Publishing.onCoinbaserResponse]
      split
      · exact hserials
      · split
        · exact hkeep (.inl rfl) (.inr rfl)
        · exact hserials
  | malformed hidle =>
      rw [Publishing.onMalformedResponse]
      split
      · exact hserials
      · exact hkeep (.inl rfl) (.inr rfl)
  | configure config hidle => exact hserials
  | assignment plain hidle => exact hserials
  | disconnect hidle => exact hserials
  | checkTip hat => exact hkeep (.inl rfl) (.inr (by rw [at?_afterTip]; rfl))
  | readConfig hat => exact hkeep (.inl rfl) (.inr (at?_afterConfig _ _ _))
  | @sessionServes work at_ event g' then_ clocks hat hserve =>
      have hat' : s.sessionThread.at? = some at_ := by rw [hat]; rfl
      cases Gateway.serve_cases hserve with
      | commits abw hstate => exact hkeep (.inl rfl) (.inr rfl)
      | awaits hconfig hawaiting => exact hkeep (.inl rfl) (.inr rfl)
      | marks => exact hserials.mark _ (.inl rfl) (.inr rfl)
      | fails abw =>
          exact hserials.leave (Nat.le_succ _) (fun _ h => h) (fun _ h => .inl h) (.inl rfl) (.inr rfl)
      | @builds abw job hbuilt =>
          have hnone := hkeep (.inl rfl) (.inr (Option.bind_none _))
          apply hnone.sessionBuilds _ hbuilt.serial_eq
          split <;> rfl
      | refusesEmpty job => exact hkeep (.inl rfl) (.inr rfl)
      | refuses job => exact hkeep (.inl rfl) (.inr rfl)
      | announces hpublished => exact absurd rfl ((hpooled.full work _ hat).2 _)
      | publishes hpublished => exact hserials.sessionPublishes (by rw [hat']; rfl) hpublished

/-! ### The tip the work served was published on -/

def PublishEvent.isPublished : PublishEvent → Bool
  | published _ _ => true
  | _ => false

/-- The events after the last publication. -/
def sincePublished (trace : List PublishEvent) : List PublishEvent :=
  trace.rtakeWhile fun event => !event.isPublished

/-- Since the last publication a tip on another block was recorded. -/
def MovedOff (trace : List PublishEvent) (prevHash : Hash) : Prop :=
  ∃ tip, .tipSet tip ∈ sincePublished trace ∧ tip ≠ prevHash

theorem sincePublished_append {event : PublishEvent} (hevent : event.isPublished = false)
    (trace : List PublishEvent) : sincePublished (trace ++ [event]) = sincePublished trace ++ [event] :=
  List.rtakeWhile_concat_pos _ _ _ (by rw [hevent]; rfl)

theorem sincePublished_published (trace : List PublishEvent) (job : Job) (kind : CoinbaseKind) :
    sincePublished (trace ++ [.published job kind]) = [] :=
  List.rtakeWhile_concat_neg _ _ _ (by simp [PublishEvent.isPublished])

theorem MovedOff.append {trace : List PublishEvent} {prevHash : Hash} (hmoved : MovedOff trace prevHash)
    {event : PublishEvent} (hevent : event.isPublished = false) :
    MovedOff (trace ++ [event]) prevHash := by
  obtain ⟨tip, htip, hne⟩ := hmoved
  refine ⟨tip, ?_, hne⟩
  rw [sincePublished_append hevent]
  exact List.mem_append_left _ htip

/-- What the table shows of the publications and the tips recorded. -/
structure TableFollows (trace : List PublishEvent) (t : JobTable) : Prop where
  served : ∀ p, t.current = some p →
    ∃ before, trace = before ++ .published p.job p.kind :: sincePublished trace
  one_block : ∀ job ∈ t.installed, t.isStale job = false →
    ∃ p, t.current = some p ∧ job.template.prevHash = p.job.template.prevHash
  moved : ∀ p, t.current = some p → t.tip ≠ some p.job.template.prevHash →
    MovedOff trace p.job.template.prevHash
  stale_moved : ∀ p, t.current = some p → t.isStale p.job = true →
    MovedOff trace p.job.template.prevHash

namespace TableFollows

variable {trace : List PublishEvent} {t t' : JobTable}

theorem append_served {event : PublishEvent} (hevent : event.isPublished = false)
    (hfollows : TableFollows trace t) (p : Publication) (hcurrent : t.current = some p) :
    ∃ before, trace ++ [event] =
      before ++ .published p.job p.kind :: sincePublished (trace ++ [event]) := by
  obtain ⟨before, heq⟩ := hfollows.served p hcurrent
  refine ⟨before, ?_⟩
  rw [sincePublished_append hevent, ← List.cons_append, ← List.append_assoc, ← heq]

theorem quiet (hfollows : TableFollows trace t) {event : PublishEvent} (hevent : event.isPublished = false) :
    TableFollows (trace ++ [event]) t where
  served p hcurrent := hfollows.append_served hevent p hcurrent
  one_block := hfollows.one_block
  moved p hcurrent htip := (hfollows.moved p hcurrent htip).append hevent
  stale_moved p hcurrent hstale := (hfollows.stale_moved p hcurrent hstale).append hevent

theorem setTip (hfollows : TableFollows trace t) (prevHash : Hash) :
    TableFollows (trace ++ [.tipSet prevHash]) (t.setTip prevHash) where
  served p hcurrent := hfollows.append_served rfl p hcurrent
  one_block := hfollows.one_block
  moved p _ htip := by
    refine ⟨prevHash, ?_, fun heq => htip (congrArg some heq)⟩
    rw [sincePublished_append rfl]
    exact List.mem_append_right _ (List.mem_singleton_self _)
  stale_moved p hcurrent hstale := (hfollows.stale_moved p hcurrent hstale).append rfl

/-- The jobs off a block are marked when the tip has moved from under the work served, or that work is
on the block. -/
theorem mark (hfollows : TableFollows trace t) {prevHash : Hash}
    (hunique : ∀ p, t.current = some p → ∀ other ∈ t.installed, other.serial = p.job.serial →
      other = p.job)
    (hmoved : ∀ p, t.current = some p → p.job.template.prevHash ≠ prevHash →
      MovedOff trace p.job.template.prevHash) :
    TableFollows (trace ++ [.staleMarked prevHash]) (t.markStaleOff prevHash) where
  served p hcurrent := hfollows.append_served rfl p hcurrent
  one_block job hjob hstale := by
    apply hfollows.one_block job hjob
    rw [JobTable.isStale, Bool.eq_false_iff]
    intro h
    rw [JobTable.isStale, JobTable.markStaleOff, JobTable.stale_mark.mpr (.inl h)] at hstale
    cases hstale
  moved p hcurrent htip := (hfollows.moved p hcurrent htip).append rfl
  stale_moved p hcurrent hstale := by
    apply MovedOff.append _ rfl
    rw [JobTable.isStale, JobTable.markStaleOff, JobTable.stale_mark] at hstale
    obtain hstale | ⟨other, hother, hserial, hselected⟩ := hstale
    · exact hfollows.stale_moved p hcurrent hstale
    · rw [decide_eq_true_eq, hunique p hcurrent other hother hserial] at hselected
      exact hmoved p hcurrent hselected

theorem published {job : Job} {kind : CoinbaseKind} (hpublished : t.Published job kind t')
    (htip : t.tip ≠ none) (hlive : t.isStale job = false)
    (hunique : ∀ other ∈ t.installed, other.serial = job.serial → other = job ∧ kind = .pooled) :
    TableFollows (trace ++ [.published job kind]) t' := by
  obtain ⟨sequence, hcurrent'⟩ := hpublished.current_eq
  have hcurrent : ∀ p, t'.current = some p → p = { job, kind, sequence } := fun p hp =>
    (Option.some.inj (hcurrent'.symm.trans hp)).symm
  obtain ⟨tip, htip⟩ := Option.ne_none_iff_exists'.mp htip
  refine ⟨?_, ?_, ?_, ?_⟩
  · intro p hp
    rw [hcurrent p hp, sincePublished_published]
    exact ⟨trace, rfl⟩
  · intro other hother hstale
    refine ⟨_, hcurrent', ?_⟩
    obtain rfl | hother := hpublished.installed_of other hother
    · rfl
    · by_contra hne
      rw [JobTable.isStale, hpublished.stale_eq, Bool.eq_false_iff] at hstale
      apply hstale
      rw [JobTable.stale_mark]
      exact .inr ⟨other, hother, rfl, by simp [hne]⟩
  · intro p hp hne
    rw [hcurrent p hp, hpublished.tip_eq, htip, hpublished.on_tip tip htip] at hne
    exact absurd rfl hne
  · intro p hp hstale
    rw [hcurrent p hp] at hstale
    obtain hstale | ⟨other, hother, hserial, hselected⟩ := hpublished.stale hstale
    · rw [JobTable.isStale] at hlive
      rw [hlive] at hstale
      cases hstale
    · obtain ⟨rfl, rfl⟩ := hunique other hother hserial
      simp at hselected

end TableFollows

/-! ### What each thread relies on -/

/-- The template thread serves work for the tip it recorded. -/
def TemplateThread.OnTip (tip : Option Hash) : TemplateThread → Prop
  | serving work at_ next => tip = some work.template.prevHash ∧
      (∀ job, at_.job = some job → job.template = work.template) ∧
      ∀ r, next = some r → tip = some r.1.prevHash
  | requesting template _ _ => tip = some template.prevHash
  | _ => True

/-- Whether the assignment has been read. -/
def Serving.Committed : Serving → Prop
  | starting | staleMarking => False
  | _ => True

/-- Whether the session thread has found the tip it needs. -/
def SessionThread.PastTip : SessionThread → Prop
  | configuring _ _ | serving _ _ => True
  | _ => False

/-- Whether the session thread can come to mark the jobs off the block. -/
def SessionThread.MayMark (prevHash : Hash) : SessionThread → Prop
  | configuring pending _ => pending.template.prevHash = prevHash
  | serving work .starting | serving work .staleMarking => work.template.prevHash = prevHash
  | _ => False

/-- What holds while the session thread can come to mark the jobs off a block: the template thread
publishes nothing on another one. -/
structure MayMark (trace : List PublishEvent) (s : Publishing) (prevHash : Hash) : Prop where
  template : ∀ work at_ next, s.templateThread = .serving work at_ next → at_.Committed →
    work.template.prevHash = prevHash
  current : ∀ p, s.gateway.jobs.current = some p → p.job.template.prevHash ≠ prevHash →
    MovedOff trace p.job.template.prevHash

structure OnTip (trace : List PublishEvent) (s : Publishing) : Prop where
  follows : TableFollows trace s.gateway.jobs
  template : s.templateThread.OnTip s.gateway.jobs.tip
  live : ∀ job, s.templateThread.at?.bind Serving.job = some job →
    s.gateway.jobs.isStale job = false
  session : s.sessionThread.PastTip → s.gateway.jobs.tip ≠ none
  may_mark : ∀ prevHash, s.sessionThread.MayMark prevHash → s.gateway.pool.abwState = .awaiting →
    MayMark trace s prevHash

theorem MayMark.append {trace : List PublishEvent} {s s' : Publishing} {prevHash : Hash}
    (hmay : MayMark trace s prevHash) {event : PublishEvent} (hevent : event.isPublished = false)
    (hcurrent : s'.gateway.jobs.current = s.gateway.jobs.current)
    (htemplate : ∀ work at_ next, s'.templateThread = .serving work at_ next → at_.Committed →
      work.template.prevHash = prevHash) : MayMark (trace ++ [event]) s' prevHash where
  template := htemplate
  current p hp hne := (hmay.current p (hcurrent ▸ hp) hne).append hevent

/-- A job on the block is published. -/
theorem MayMark.published {trace : List PublishEvent} {t : JobTable} {s' : Publishing} {job : Job}
    {kind : CoinbaseKind} {prevHash : Hash} (hpublished : t.Published job kind s'.gateway.jobs)
    (hjob : job.template.prevHash = prevHash)
    (htemplate : ∀ work at_ next, s'.templateThread = .serving work at_ next → at_.Committed →
      work.template.prevHash = prevHash) : MayMark trace s' prevHash where
  template := htemplate
  current p hp hne := by
    obtain ⟨sequence, hcurrent⟩ := hpublished.current_eq
    obtain rfl := Option.some.inj (hcurrent.symm.trans hp)
    exact absurd hjob hne

namespace OnTip

variable {trace : List PublishEvent} {s s' : Publishing}

/-- The session thread takes a step outside `build_and_publish` that needs no tip. -/
theorem sessionIdle (hon : OnTip trace s) {event : PublishEvent} (hevent : event.isPublished = false)
    (hjobs : s'.gateway.jobs = s.gateway.jobs) (htemplate : s'.templateThread = s.templateThread)
    (hsession : ¬ s'.sessionThread.PastTip) : OnTip (trace ++ [event]) s' where
  follows := hjobs ▸ hon.follows.quiet hevent
  template := by rw [htemplate, hjobs]; exact hon.template
  live := by rw [htemplate, hjobs]; exact hon.live
  session h := absurd h hsession
  may_mark prevHash h := by
    apply absurd _ hsession
    revert h
    cases s'.sessionThread with
    | configuring => exact fun _ => trivial
    | serving => exact fun _ => trivial
    | _ => exact False.elim

/-- The template thread takes a step that leaves the table, the assignment and no job of its own. -/
theorem templateQuiet (hon : OnTip trace s) {event : PublishEvent} (hevent : event.isPublished = false)
    (hjobs : s'.gateway.jobs = s.gateway.jobs)
    (habw : s'.gateway.pool.abwState = s.gateway.pool.abwState)
    (hsession : s'.sessionThread = s.sessionThread)
    (htemplate : s'.templateThread.OnTip s.gateway.jobs.tip)
    (hlive : ∀ job, s'.templateThread.at?.bind Serving.job = some job →
      s.gateway.jobs.isStale job = false)
    (hcommitted : ∀ prevHash, s.sessionThread.MayMark prevHash → s.gateway.pool.abwState = .awaiting →
      ∀ work at_ next, s'.templateThread = .serving work at_ next → at_.Committed →
        work.template.prevHash = prevHash) : OnTip (trace ++ [event]) s' where
  follows := hjobs ▸ hon.follows.quiet hevent
  template := hjobs ▸ htemplate
  live := hjobs ▸ hlive
  session := by rw [hsession, hjobs]; exact hon.session
  may_mark prevHash h hawaiting := by
    rw [hsession] at h
    rw [habw] at hawaiting
    exact (hon.may_mark prevHash h hawaiting).append hevent (by rw [hjobs])
      (hcommitted prevHash h hawaiting)

theorem resume_onTip {tip : Option Hash} {next : Option (Template × Bool × ClientConfig)}
    (hnext : ∀ r, next = some r → tip = some r.1.prevHash) :
    (TemplateThread.resume next).OnTip tip := by
  cases next with
  | none => trivial
  | some r => exact hnext r rfl

theorem resume_ne_serving (next : Option (Template × Bool × ClientConfig)) {work : Work} {at_ : Serving}
    {next' : Option (Template × Bool × ClientConfig)} :
    TemplateThread.resume next ≠ .serving work at_ next' := by
  cases next <;> nofun

theorem requests_of_mayMark {prevHash : Hash} (hmay : s.sessionThread.MayMark prevHash) : s.Requests := by
  refine .inr (.inr fun hidle => ?_)
  rw [hidle] at hmay
  exact hmay

/-- The template thread returns from `build_and_publish` without a publication. -/
theorem templateReturns (hon : OnTip trace s) {g' : Gateway} {event : PublishEvent}
    {next : Option (Template × Bool × ClientConfig)} (hevent : event.isPublished = false)
    (hjobs : g'.jobs = s.gateway.jobs) (hpool : g'.pool = s.gateway.pool)
    (hnext : ∀ r, next = some r → s.gateway.jobs.tip = some r.1.prevHash) :
    OnTip (trace ++ [event]) { s with gateway := g', templateThread := .resume next } := by
  refine hon.templateQuiet hevent hjobs (congrArg SessionView.abwState hpool) rfl (resume_onTip hnext)
    ?_ ?_
  · intro job hjob
    simp only [at?_resume] at hjob
    cases hjob
  · intro prevHash _ _ work at_ next' hserving
    exact absurd hserving (resume_ne_serving next)

theorem templateServes (hon : OnTip trace s) (hserials : s.Serials) (hpooled : Pooled s) {work : Work}
    {at_ : Serving} {next : Option (Template × Bool × ClientConfig)} {event : PublishEvent}
    {g' : Gateway} {then_ : Option Serving} (hat : s.templateThread = .serving work at_ next)
    (hserved : Served H s.gateway work at_ event g' then_) :
    OnTip (trace ++ [event])
      { s with
        gateway := g'
        templateThread := then_.elim (.resume next) fun at_ => .serving work at_ next } := by
  have htemplate := hon.template
  rw [hat] at htemplate
  obtain ⟨htip, hjob, hnext⟩ := htemplate
  have hat' : s.templateThread.at? = some at_ := by rw [hat]; rfl
  cases hserved with
  | commits abw hstate =>
      refine hon.templateQuiet rfl rfl rfl rfl ⟨htip, nofun, hnext⟩ nofun ?_
      intro prevHash hmay hawaiting
      obtain hconfig | hstate := hstate
      · have hunpooled := hpooled.pooled (requests_of_mayMark hmay)
        rw [hat] at hunpooled
        exact absurd hconfig hunpooled
      · exact absurd hawaiting hstate
  | awaits hconfig hawaiting =>
      refine hon.templateQuiet rfl rfl rfl rfl ⟨htip, nofun, hnext⟩ nofun ?_
      intro prevHash _ _ work' at' next' hserving hcommitted
      cases hserving
      exact hcommitted.elim
  | marks =>
      have hmoved : ∀ p, s.gateway.jobs.current = some p →
          p.job.template.prevHash ≠ work.template.prevHash →
            MovedOff trace p.job.template.prevHash := by
        intro p hp hne
        apply hon.follows.moved p hp
        rw [htip]
        exact fun heq => hne (Option.some.inj heq).symm
      refine ⟨hon.follows.mark ?_ hmoved, resume_onTip hnext, ?_, hon.session, ?_⟩
      · intro p hp other hother heq
        exact hserials.unique _ _ (.inl (.inl hother)) (.inl (.inr ⟨p, hp, rfl⟩)) heq
      · intro job hjob
        simp only [Option.elim_none, at?_resume] at hjob
        cases hjob
      · intro prevHash hmay hawaiting
        refine (hon.may_mark prevHash hmay hawaiting).append rfl rfl ?_
        intro work' at' next' hserving
        exact absurd hserving (resume_ne_serving next)
  | fails abw => exact hon.templateReturns rfl rfl rfl hnext
  | @builds abw job hbuilt =>
      have hjob' : ∀ k, (if work.what.announcesTip then Serving.announcing job
          else Serving.publishing job).job = some k → k = job := by
        intro k hk
        split at hk <;> exact (Option.some.inj hk).symm
      refine hon.templateQuiet rfl rfl rfl rfl ⟨htip, ?_, hnext⟩ ?_ ?_
      · intro k hk
        rw [hjob' k hk]
        exact hbuilt.template_eq
      · intro k hk
        rw [hjob' k hk, JobTable.isStale, Bool.eq_false_iff, hbuilt.serial_eq]
        intro hstale
        exact absurd (hserials.stale_below _ hstale) (Nat.lt_irrefl _)
      · intro prevHash hmay hawaiting work' at' next' hserving _
        cases hserving
        exact (hon.may_mark prevHash hmay hawaiting).template work _ next hat trivial
  | refusesEmpty job => exact hon.templateReturns rfl rfl rfl hnext
  | refuses job => exact hon.templateReturns rfl rfl rfl hnext
  | @announces job jobs hpublished =>
      have hlive := hon.live job (by rw [hat']; rfl)
      have hfresh : ∀ other ∈ s.gateway.jobs.installed, other.serial ≠ job.serial := fun other hother =>
        hserials.announcing_fresh job hat' other (.inl hother)
      refine ⟨?_, ⟨?_, ?_, ?_⟩, ?_, ?_, ?_⟩
      · apply TableFollows.published hpublished (by rw [htip]; exact Option.some_ne_none _) hlive
        intro other hother heq
        exact absurd heq (hfresh other hother)
      · rw [hpublished.tip_eq, htip]
      · intro k hk
        exact hjob k hk
      · intro r hr
        rw [hpublished.tip_eq, hnext r hr]
      · intro k hk
        obtain rfl : job = k := Option.some.inj hk
        rw [JobTable.isStale, Bool.eq_false_iff]
        intro hstale
        obtain hstale | ⟨other, hother, heq, _⟩ := hpublished.stale hstale
        · rw [JobTable.isStale] at hlive
          rw [hlive] at hstale
          cases hstale
        · exact hfresh other hother heq
      · intro hpast
        rw [hpublished.tip_eq]
        exact hon.session hpast
      · intro prevHash hmay hawaiting
        have hwork := (hon.may_mark prevHash hmay hawaiting).template work _ next hat trivial
        apply MayMark.published hpublished (by rw [hjob job rfl, hwork])
        intro work' at' next' hserving _
        cases hserving
        exact hwork
  | @publishes job jobs hpublished =>
      have hlive := hon.live job (by rw [hat']; rfl)
      refine ⟨?_, ?_, ?_, ?_, ?_⟩
      · apply TableFollows.published hpublished (by rw [htip]; exact Option.some_ne_none _) hlive
        intro other hother heq
        exact ⟨hserials.unique _ _ (.inl (.inl hother)) (.inr (by rw [hat']; rfl)) heq, rfl⟩
      · rw [hpublished.tip_eq]
        exact resume_onTip hnext
      · intro k hk
        simp only [Option.elim_none, at?_resume] at hk
        cases hk
      · intro hpast
        rw [hpublished.tip_eq]
        exact hon.session hpast
      · intro prevHash hmay hawaiting
        have hwork := (hon.may_mark prevHash hmay hawaiting).template work _ next hat trivial
        apply MayMark.published hpublished (by rw [hjob job rfl, hwork])
        intro work' at' next' hserving _
        exact absurd hserving (resume_ne_serving next)

theorem exists_serving_of_job {t : TemplateThread} {job : Job} (hjob : t.at?.bind Serving.job = some job) :
    ∃ work at_ next, t = .serving work at_ next ∧ at_.job = some job ∧ at_.Committed := by
  cases t with
  | serving work at_ next =>
      refine ⟨work, at_, next, rfl, hjob, ?_⟩
      cases at_ with
      | announcing | publishing | committing => trivial
      | _ => cases hjob
  | _ => cases hjob

/-- The job of the template thread is on the tip. -/
theorem job_on_tip (hon : OnTip trace s) {job : Job}
    (hjob : s.templateThread.at?.bind Serving.job = some job) :
    s.gateway.jobs.tip = some job.template.prevHash := by
  obtain ⟨work, at_, next, hat, hjob, _⟩ := exists_serving_of_job hjob
  have htemplate := hon.template
  rw [hat] at htemplate
  rw [htemplate.1, htemplate.2.1 job hjob]

theorem sessionServes (hon : OnTip trace s) (hserials : s.Serials) (hpooled : Pooled s) {work : Work}
    {at_ : Serving} {event : PublishEvent} {g' : Gateway} {then_ : Option Serving}
    (hat : s.sessionThread = .serving work at_) (hserved : Served H s.gateway work at_ event g' then_) :
    OnTip (trace ++ [event])
      { s with
        gateway := g'
        sessionThread := then_.elim .idle fun at_ => .serving work at_ } := by
  have hat' : s.sessionThread.at? = some at_ := by rw [hat]; rfl
  have htip : s.gateway.jobs.tip ≠ none := hon.session (by rw [hat]; trivial)
  cases hserved with
  | commits abw hstate => exact ⟨hon.follows.quiet rfl, hon.template, hon.live, fun _ => htip, nofun⟩
  | awaits hconfig hawaiting =>
      refine ⟨hon.follows.quiet rfl, hon.template, hon.live, fun _ => htip, ?_⟩
      intro prevHash hmay _
      have hmay := hon.may_mark prevHash (by rw [hat]; exact hmay) hawaiting
      exact hmay.append rfl rfl hmay.template
  | marks =>
      have hmay := hon.may_mark work.template.prevHash (by rw [hat]; rfl) (hpooled.awaiting work hat)
      refine ⟨hon.follows.mark ?_ hmay.current, hon.template, ?_, nofun, nofun⟩
      · intro p hp other hother heq
        exact hserials.unique _ _ (.inl (.inl hother)) (.inl (.inr ⟨p, hp, rfl⟩)) heq
      · intro job hjob
        rw [JobTable.isStale, Bool.eq_false_iff]
        intro hstale
        obtain hstale | ⟨other, hother, heq, hselected⟩ := JobTable.stale_mark.mp hstale
        · have hlive := hon.live job hjob
          rw [JobTable.isStale] at hlive
          rw [hlive] at hstale
          cases hstale
        · obtain rfl := hserials.unique _ _ (.inl (.inl hother)) (.inr hjob) heq
          obtain ⟨work', at', next, hserving, hjob', hcommitted⟩ := exists_serving_of_job hjob
          have htemplate := hon.template
          rw [hserving] at htemplate
          rw [decide_eq_true_eq, htemplate.2.1 _ hjob'] at hselected
          exact hselected (hmay.template work' at' next hserving hcommitted)
  | fails abw => exact ⟨hon.follows.quiet rfl, hon.template, hon.live, nofun, nofun⟩
  | builds hbuilt =>
      refine ⟨hon.follows.quiet rfl, hon.template, hon.live, fun _ => htip, ?_⟩
      intro prevHash hmay
      simp only [Option.elim_some] at hmay
      split at hmay <;> exact hmay.elim
  | refusesEmpty job => exact ⟨hon.follows.quiet rfl, hon.template, hon.live, nofun, nofun⟩
  | refuses job => exact ⟨hon.follows.quiet rfl, hon.template, hon.live, nofun, nofun⟩
  | announces hpublished => exact absurd rfl ((hpooled.full work _ hat).2 _)
  | @publishes job jobs hpublished =>
      have hsession : s.sessionThread.at?.bind Serving.job = some job := by rw [hat']; rfl
      refine ⟨?_, ?_, ?_, nofun, nofun⟩
      · apply TableFollows.published hpublished htip (hserials.session_live job hsession)
        intro other hother heq
        exact absurd heq (hserials.session_fresh job hsession other (.inl (.inl hother)))
      · rw [hpublished.tip_eq]
        exact hon.template
      · intro k hk
        rw [JobTable.isStale, Bool.eq_false_iff]
        intro hstale
        obtain hstale | ⟨other, hother, heq, hselected⟩ := hpublished.stale hstale
        · have hlive := hon.live k hk
          rw [JobTable.isStale] at hlive
          rw [hlive] at hstale
          cases hstale
        · obtain rfl := hserials.unique _ _ (.inl (.inl hother)) (.inr hk) heq
          obtain hkind | hne := hselected
          · cases hkind
          · exact hne (hpublished.on_tip _ (hon.job_on_tip hk)).symm

theorem step (hon : OnTip trace s) (hserials : s.Serials) (hpooled : Pooled s) {event : PublishEvent}
    (hstep : PublishStep H c protocolV3 xorKeyHash s event s') : OnTip (trace ++ [event]) s' := by
  cases hstep with
  | fetch hat =>
      exact hon.templateQuiet rfl rfl rfl rfl trivial nofun fun _ _ _ _ _ _ h => nomatch h
  | @onTemplate poolConfig template newBlock hat =>
      refine ⟨hon.follows.setTip template.prevHash, ?_, ?_, ?_, ?_⟩
      · cases poolConfig <;> cases newBlock <;> simp [TemplateThread.onTemplate, TemplateThread.OnTip,
          JobTable.setTip, Serving.job]
      · intro job hjob
        rw [at?_onTemplate] at hjob
        cases hjob
      · exact fun _ => Option.some_ne_none _
      · intro prevHash hmay hawaiting
        refine (hon.may_mark prevHash hmay hawaiting).append rfl rfl ?_
        intro work at_ next hserving hcommitted
        cases poolConfig <;> cases newBlock <;> cases hserving <;> exact hcommitted.elim
  | templateServes clocks hat hserve =>
      exact hon.templateServes hserials hpooled hat (Gateway.serve_cases hserve)
  | @requestCoinbaser template newBlock config now hat =>
      have htip := hon.template
      rw [hat] at htip
      refine hon.templateQuiet rfl rfl ?_ rfl ?_ ?_ ?_
      · rw [SessionView.abwState, SessionView.abwState, (requestCoinbaser_view _ _ _ _).1,
          (requestCoinbaser_view _ _ _ _).2]
      · rw [TemplateThread.afterRequest]
        split
        · exact ⟨htip, nofun, nofun⟩
        · trivial
      · intro job hjob
        rw [at?_afterRequest] at hjob
        cases hjob
      · intro prevHash _ _ work at_ next hserving hcommitted
        simp only [TemplateThread.afterRequest] at hserving
        split at hserving <;> cases hserving
        exact hcommitted.elim
  | send hidle hpending => exact hon.sessionIdle rfl rfl rfl (by rw [hidle]; exact id)
  | expire now hidle hawaiting hdue => exact hon.sessionIdle rfl rfl rfl id
  | answer r hidle =>
      rw [Publishing.onCoinbaserResponse]
      split
      · exact hon.sessionIdle rfl rfl rfl (by rw [hidle]; exact id)
      · split
        · exact hon.sessionIdle rfl rfl rfl id
        · exact hon.sessionIdle rfl rfl rfl (by rw [hidle]; exact id)
  | malformed hidle =>
      rw [Publishing.onMalformedResponse]
      split
      · exact hon.sessionIdle rfl rfl rfl (by rw [hidle]; exact id)
      · exact hon.sessionIdle rfl rfl rfl id
  | configure config hidle => exact hon.sessionIdle rfl rfl rfl (by rw [hidle]; exact id)
  | assignment plain hidle => exact hon.sessionIdle rfl rfl rfl (by rw [hidle]; exact id)
  | disconnect hidle => exact hon.sessionIdle rfl rfl rfl (by rw [hidle]; exact id)
  | @checkTip pending split hat =>
      by_cases htip : s.gateway.jobs.tip = some pending.template.prevHash
      · refine ⟨hon.follows.quiet rfl, hon.template, hon.live, fun _ => ?_, ?_⟩
        · rw [htip]
          exact Option.some_ne_none _
        · intro prevHash hmay _
          simp only [SessionThread.afterTip, htip, ne_eq, not_true_eq_false, if_false] at hmay
          obtain rfl : pending.template.prevHash = prevHash := hmay
          refine ⟨?_, ?_⟩
          · intro work at_ next hserving _
            have htemplate := hon.template
            rw [show s.templateThread = _ from hserving, htip] at htemplate
            exact (Option.some.inj htemplate.1).symm
          · intro p hp hne
            apply (hon.follows.moved p hp _).append rfl
            rw [htip]
            exact fun heq => hne (Option.some.inj heq).symm
      · refine hon.sessionIdle rfl rfl rfl ?_
        simp only [SessionThread.afterTip, htip, ne_eq, not_false_eq_true, if_true]
        exact id
  | @readConfig pending split hat =>
      have htip : s.gateway.jobs.tip ≠ none := hon.session (by rw [hat]; trivial)
      refine ⟨hon.follows.quiet rfl, hon.template, hon.live, fun _ => htip, ?_⟩
      intro prevHash hmay hawaiting
      have hmay : MayMark trace s prevHash := by
        apply hon.may_mark prevHash _ hawaiting
        rw [hat]
        simp only [SessionThread.afterConfig] at hmay
        split at hmay
        · exact hmay.elim
        · exact hmay
      exact hmay.append rfl rfl hmay.template
  | sessionServes clocks hat hserve =>
      exact hon.sessionServes hserials hpooled hat (Gateway.serve_cases hserve)

end OnTip

/-! ### Every interleaving -/

theorem serials_new (slots : Nat) (keep : Duration) : Serials (.new slots keep) 0 none none := by
  have hknown : ∀ a, ¬ Known (.new slots keep) none a := by
    rintro a ((ha | ⟨p, hp, _⟩) | ha)
    · rw [JobTable.installed_new] at ha
      cases ha
    · cases hp
    · cases ha
  refine
    { below := ?_, session_below := nofun, stale_below := nofun, unique := ?_, session_fresh := nofun
      session_live := nofun, announcing_fresh := nofun }
  · intro a ha
    exact absurd ha (hknown a)
  · intro a _ ha
    exact absurd ha (hknown a)

theorem follows_new (slots : Nat) (keep : Duration) : TableFollows [] (.new slots keep) := by
  refine ⟨nofun, ?_, nofun, nofun⟩
  intro job hjob
  rw [JobTable.installed_new] at hjob
  cases hjob

theorem pooled_start (slots : Nat) (keep : Duration) : Pooled (.start slots keep) := by
  have hrequests : ¬ (Publishing.start slots keep).Requests := by
    rintro (h | h | h) <;> exact h rfl
  refine ⟨fun h => absurd h hrequests, fun h => absurd h hrequests, ?_, ?_⟩
  · intro work at_ hat
    cases hat
  · intro work hat
    cases hat

theorem onTip_of_run {slots : Nat} {keep : Duration} {trace : List PublishEvent} {s : Publishing}
    (hrun : (publishing H c protocolV3 xorKeyHash slots keep).Run trace s) :
    OnTip trace s ∧ s.Serials ∧ Pooled s := by
  apply hrun.invariant (I := fun trace s => OnTip trace s ∧ s.Serials ∧ Pooled s)
  · rintro s rfl
    refine ⟨?_, serials_new slots keep, pooled_start slots keep⟩
    exact ⟨follows_new slots keep, trivial, nofun, nofun, nofun⟩
  · rintro trace s event s' ⟨hon, hserials, hpooled⟩ hstep
    exact ⟨hon.step hserials hpooled hstep, hserials.step hpooled hstep, hpooled.step hstep⟩

/-- What an event did to the tip and to the work served. -/
def PublishEvent.Effect (t t' : JobTable) : PublishEvent → Prop
  | tipSet tip => t'.tip = some tip ∧ t'.current = t.current
  | published job kind => t.Published job kind t'
  | _ => t'.tip = t.tip ∧ t'.current = t.current

theorem Served.effect {g g' : Gateway} {work : Work} {at_ : Serving} {event : PublishEvent}
    {then_ : Option Serving} (hserved : Served H g work at_ event g' then_) :
    event.Effect g.jobs g'.jobs := by
  cases hserved with
  | announces hpublished => exact hpublished
  | publishes hpublished => exact hpublished
  | _ => exact ⟨rfl, rfl⟩

theorem PublishStep.effect {s s' : Publishing} {event : PublishEvent}
    (hstep : PublishStep H c protocolV3 xorKeyHash s event s') :
    event.Effect s.gateway.jobs s'.gateway.jobs := by
  cases hstep with
  | templateServes clocks hat hserve => exact (Gateway.serve_cases hserve).effect
  | sessionServes clocks hat hserve => exact (Gateway.serve_cases hserve).effect
  | answer r hidle =>
      rw [Publishing.onCoinbaserResponse]
      split
      · exact ⟨rfl, rfl⟩
      · split <;> exact ⟨rfl, rfl⟩
  | malformed hidle =>
      rw [Publishing.onMalformedResponse]
      split <;> exact ⟨rfl, rfl⟩
  | _ => exact ⟨rfl, rfl⟩

/-- What holds from a tip on, until another is recorded. -/
structure SinceTip (tip : Hash) (after : List PublishEvent) (t : JobTable) : Prop where
  tip_eq : t.tip = some tip
  published : ∀ job kind, .published job kind ∈ after → job.template.prevHash = tip
  current : (∃ job kind, .published job kind ∈ after) →
    ∃ p, t.current = some p ∧ p.job.template.prevHash = tip

theorem SinceTip.append {tip : Hash} {after : List PublishEvent} {t t' : JobTable}
    (hsince : SinceTip tip after t) {event : PublishEvent} (heffect : event.Effect t t')
    (hevent : ∀ tip', event = .tipSet tip' → tip' = tip) : SinceTip tip (after ++ [event]) t' := by
  have hkeep (hunpublished : event.isPublished = false) (htip : t'.tip = some tip)
      (hcurrent : t'.current = t.current) : SinceTip tip (after ++ [event]) t' := by
    have hmem : ∀ job kind, .published job kind ∈ after ++ [event] → .published job kind ∈ after := by
      intro job kind h
      rw [List.mem_append, List.mem_singleton] at h
      obtain h | rfl := h
      · exact h
      · cases hunpublished
    refine ⟨htip, fun job kind h => hsince.published job kind (hmem job kind h), ?_⟩
    rintro ⟨job, kind, h⟩
    rw [hcurrent]
    exact hsince.current ⟨job, kind, hmem job kind h⟩
  cases event with
  | published job kind =>
      have hjob := JobTable.Published.on_tip heffect tip hsince.tip_eq
      refine ⟨heffect.tip_eq.trans hsince.tip_eq, ?_, fun _ => ?_⟩
      · intro other kind' h
        rw [List.mem_append, List.mem_singleton] at h
        obtain h | h := h
        · exact hsince.published other kind' h
        · cases h
          exact hjob
      · obtain ⟨sequence, hcurrent⟩ := heffect.current_eq
        exact ⟨_, hcurrent, hjob⟩
  | tipSet tip' =>
      obtain rfl := hevent tip' rfl
      exact hkeep rfl heffect.1 heffect.2
  | _ => exact hkeep rfl (heffect.1.trans hsince.tip_eq) heffect.2

theorem sinceTip_of_run {slots : Nat} {keep : Duration} {trace : List PublishEvent} {s : Publishing}
    (hrun : (publishing H c protocolV3 xorKeyHash slots keep).Run trace s) :
    ∀ tip before after, trace = before ++ .tipSet tip :: after →
      (∀ tip', .tipSet tip' ∈ after → tip' = tip) → SinceTip tip after s.gateway.jobs := by
  induction hrun with
  | start hinit => simp
  | next hrun hstep ih =>
      rename_i trace s s' event
      have heffect := hstep.effect
      intro tip before after htrace honly
      obtain rfl | ⟨after, last, rfl⟩ := List.eq_nil_or_concat after
      · obtain ⟨-, hevent⟩ := List.append_inj' htrace rfl
        obtain rfl := List.singleton_inj.mp hevent
        exact ⟨heffect.1, nofun, fun ⟨_, _, h⟩ => nomatch h⟩
      · rw [List.concat_eq_append] at honly ⊢
        rw [List.concat_eq_append, ← List.cons_append, ← List.append_assoc] at htrace
        obtain ⟨rfl, hevent⟩ := List.append_inj' htrace rfl
        obtain rfl := List.singleton_inj.mp hevent
        have hsince := ih tip before after rfl fun tip' h => honly tip' (List.mem_append_left _ h)
        apply hsince.append heffect
        rintro tip' rfl
        exact honly tip' (List.mem_append_right _ (List.mem_singleton_self _))

/-- The work of a table follows the tips of a trace. -/
structure FollowsTip (trace : List PublishEvent) (t : JobTable) : Prop where
  /-- The installed jobs not marked stale are on the block of the job served. -/
  one_block : ∀ job ∈ t.installed, t.isStale job = false →
    ∃ p, t.current = some p ∧ job.template.prevHash = p.job.template.prevHash
  /-- From a tip on, until another is recorded, only jobs on it are published; once one is, the job served
  is on it and the jobs installed on other blocks are stale. -/
  on_tip : ∀ tip before after, trace = before ++ .tipSet tip :: after →
    (∀ tip', .tipSet tip' ∈ after → tip' = tip) →
      (∀ job kind, .published job kind ∈ after → job.template.prevHash = tip) ∧
      ((∃ job kind, .published job kind ∈ after) →
        (∃ p, t.current = some p ∧ p.job.template.prevHash = tip) ∧
        ∀ job ∈ t.installed, job.template.prevHash ≠ tip → t.isStale job = true)
  /-- The job served is marked stale only after a tip on another block was recorded since. -/
  stale_moved : ∀ p, t.current = some p → t.isStale p.job = true →
    ∃ before after, trace = before ++ .published p.job p.kind :: after ∧
      (∀ event ∈ after, event.isPublished = false) ∧
      ∃ tip, .tipSet tip ∈ after ∧ tip ≠ p.job.template.prevHash

/-- **In every interleaving of the two threads the work served follows the tip.** -/
theorem work_follows_tip {H : Hashing} {c : JobConfig} {protocolV3 : Bool} {xorKeyHash : XorKey → Hash}
    {slots : Nat} {keep : Duration} {trace : List PublishEvent} {s : Publishing}
    (hrun : (publishing H c protocolV3 xorKeyHash slots keep).Run trace s) :
    FollowsTip trace s.gateway.jobs := by
  obtain ⟨hon, -, -⟩ := onTip_of_run hrun
  have hfollows := hon.follows
  refine ⟨hfollows.one_block, ?_, ?_⟩
  · intro tip before after htrace honly
    have hsince := sinceTip_of_run hrun tip before after htrace honly
    refine ⟨hsince.published, fun hpublished => ⟨hsince.current hpublished, ?_⟩⟩
    intro job hjob hne
    by_contra hlive
    rw [Bool.not_eq_true] at hlive
    obtain ⟨p, hp, heq⟩ := hfollows.one_block job hjob hlive
    obtain ⟨p', hp', htip⟩ := hsince.current hpublished
    obtain rfl := Option.some.inj (hp.symm.trans hp')
    exact hne (heq.trans htip)
  · intro p hp hstale
    obtain ⟨before, htrace⟩ := hfollows.served p hp
    refine ⟨before, sincePublished trace, htrace, ?_, hfollows.stale_moved p hp hstale⟩
    intro event hevent
    simpa using List.mem_rtakeWhile_imp hevent

/-! ### A template served without a pool -/

def zeroHash : Hash := Vector.replicate _ 0

def constantHashing : Hashing where
  sha256 _ := zeroHash
  blake2b256 _ := zeroHash

def emptyTemplate (prevHash : Hash) : Template where
  height := 1
  coinbaseValue := 5000000000
  curtime := 0
  sizelimit := 4000000
  weightlimit := 4000000
  sigoplimit := 80000
  version := 0
  nbits := 0x1d00ffff
  prevHash
  witnessCommitment := []
  blake2bRule := true
  reducedData := false
  txids := []
  totals := ⟨0, 0, 0, 0⟩

def untaggedConfig : JobConfig where
  protocolJobSlots := 8
  coinbaseTagPrimary := ""
  coinbaseTagSecondary := ""
  coinbaseUniqueId := 0
  poolOutputScript := [0x51]

theorem untagged_scriptSig (prevHash : Hash) :
    ((untaggedConfig.scriptSigInputs (emptyTemplate prevHash) none).scriptSig).isSome = true := by
  show (ScriptSigInputs.scriptSig ⟨1, "", "", 0, 0, false, false⟩).isSome = true
  decide +kernel

theorem exists_build_empty (prevHash : Hash) (serial : Nat) : ∃ job,
    build constantHashing untaggedConfig
      { serial, template := emptyTemplate prevHash, poolConfig := none, coinbaser := none, abw := none }
      0 0 = .ok job := by
  apply exists_build
  · exact List.cons_ne_nil _ _
  · show 1 ≤ 83
    decide
  · exact untagged_scriptSig prevHash
  · exact Nat.zero_le _
  · show (bitsToTarget 0x1d00ffff).isSome
    decide

/-- A template served as empty work and then as pooled work, while there is no pool. -/
theorem serves_empty {trace : List PublishEvent} {s : Publishing} {slots : Nat} {keep : Duration}
    (hrun : (publishing constantHashing untaggedConfig protocolV3 xorKeyHash slots keep).Run trace s)
    (hidle : s.templateThread = .idle) (hconfig : s.gateway.pool.config = none) (prevHash : Hash) :
    ∃ job s', (publishing constantHashing untaggedConfig protocolV3 xorKeyHash slots keep).Run
        (trace ++ [.quiet, .tipSet prevHash, .quiet, .built job none, .published job .subsidyOnly,
          .published job .pooled]) s' ∧
      s'.templateThread = .idle ∧ s'.gateway.pool.config = none ∧ job.template.prevHash = prevHash := by
  obtain ⟨job, hbuild⟩ := exists_build_empty prevHash s.gateway.nextJobSerial
  have hjob : job.template = emptyTemplate prevHash := (build_eq_ok hbuild).template_eq
  have htip : (s.gateway.jobs.setTip prevHash).tip = some job.template.prevHash := by rw [hjob]; rfl
  obtain ⟨announced, hannounce⟩ := JobTable.publish_of_tip htip 0 .subsidyOnly
  have htip' : announced.tip = some job.template.prevHash :=
    (JobTable.publish_eq_true hannounce).tip_eq.trans htip
  obtain ⟨published, hpublish⟩ := JobTable.publish_of_tip htip' 0 .pooled
  have hfetch := hrun.next (.fetch hidle)
  have honTemplate := hfetch.next (.onTemplate (emptyTemplate prevHash) true (by rw [hconfig]))
  have hcommits := honTemplate.next (.templateServes ⟨0, 0⟩ rfl rfl)
  have hbuilds := hcommits.next (.templateServes ⟨0, 0⟩ rfl (Gateway.serve_committing hbuild))
  have hannounces := hbuilds.next (.templateServes ⟨0, 0⟩ rfl (Gateway.publish_eq hannounce _))
  have hpublishes := hannounces.next (.templateServes ⟨0, 0⟩ rfl (Gateway.publish_eq hpublish none))
  simp only [List.append_assoc, List.cons_append, List.nil_append] at hpublishes
  exact ⟨job, _, hpublishes, rfl, hconfig, by rw [hjob]; rfl⟩

/-- The work follows two tips, one after the other. -/
theorem work_follows_tip_twice : ∃ trace s,
    (publishing constantHashing untaggedConfig false (fun _ => zeroHash) 8 0).Run trace s ∧
      PublishEvent.tipSet zeroHash ∈ trace ∧ PublishEvent.tipSet (Vector.replicate _ 1) ∈ trace ∧
      FollowsTip trace s.gateway.jobs := by
  obtain ⟨_, _, hrun, hidle, hconfig, -⟩ := serves_empty
    (@Lts.Run.start _ _ (publishing constantHashing untaggedConfig false (fun _ => zeroHash) 8 0) _ rfl)
    rfl rfl zeroHash
  obtain ⟨_, s, hrun, -⟩ := serves_empty hrun hidle hconfig (Vector.replicate _ 1)
  exact ⟨_, s, hrun, by simp, by simp, work_follows_tip hrun⟩

end Ratum
