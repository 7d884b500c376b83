import Ratum.Gateway.ServedTip
import Ratum.Verify.CheckOutputs

/-!
# Splits asked for and dictated

The gateway's two threads, the connection and the pool's `on_coinbaser_request`. The connection delivers
in order each way; a response carries the value and the split, and what request it answers is kept beside
it. The pool answers a request or skips it. A connection that ends takes the messages on it with it, and
the next one starts with the splits the pool saved or with none.
-/

namespace Ratum

def PendingCoinbaser.request (p : PendingCoinbaser) : CoinbaserRequest := ⟨p.value, p.prevHash⟩

/-- Whether the event takes no message. -/
def PublishEvent.isLocal : PublishEvent → Bool
  | requested _ | answered _ | malformed | disconnected => false
  | _ => true

structure Dictating where
  publishing : Publishing
  toPool : List CoinbaserRequest
  toGateway : List (CoinbaserRequest × CoinbaserResponse)
  splits : DictatedSplits
  /-- Every split dictated, with its id. -/
  dictated : List (UInt8 × DictatedSplit)

inductive DictateEvent
  | gateway (event : PublishEvent)
  | dictated (req : CoinbaserRequest) (r : CoinbaserResponse)
  | skipped (req : CoinbaserRequest)
  | answered (req : CoinbaserRequest) (r : CoinbaserResponse)

section Steps

variable (H : Hashing) (c : JobConfig) (protocolV3 : Bool) (xorKeyHash : XorKey → Hash)
  (addressScript : AddressScript)

inductive DictateStep : Dictating → DictateEvent → Dictating → Prop
  | gateway {s : Dictating} {event : PublishEvent} {publishing : Publishing}
      (hlocal : event.isLocal = true)
      (hstep : PublishStep H c protocolV3 xorKeyHash s.publishing event publishing) :
      DictateStep s (.gateway event) { s with publishing }
  | request {s : Dictating} {pending : PendingCoinbaser} {publishing : Publishing}
      (hstep : PublishStep H c protocolV3 xorKeyHash s.publishing (.requested pending) publishing) :
      DictateStep s (.gateway (.requested pending))
        { s with publishing, toPool := s.toPool ++ [pending.request] }
  | dictate {s : Dictating} {req : CoinbaserRequest} {rest : List CoinbaserRequest} {F : Type}
      (l : Ledger F) (now : Nat) (hreq : s.toPool = req :: rest) :
      DictateStep s (.dictated req (dictate addressScript l req.value s.splits.nextId).2)
        { s with
          toPool := rest
          toGateway := s.toGateway ++ [(req, (dictate addressScript l req.value s.splits.nextId).2)]
          splits := s.splits.record s.splits.nextId req.value req.prevHash
            (dictate addressScript l req.value s.splits.nextId).1 now
          dictated := s.dictated ++ [(s.splits.nextId,
            { outputs := (dictate addressScript l req.value s.splits.nextId).1
              value := req.value, prevHash := req.prevHash, sentAt := now })] }
  | skip {s : Dictating} {req : CoinbaserRequest} {rest : List CoinbaserRequest}
      (hreq : s.toPool = req :: rest) : DictateStep s (.skipped req) { s with toPool := rest }
  | answer {s : Dictating} {req : CoinbaserRequest} {r : CoinbaserResponse}
      {rest : List (CoinbaserRequest × CoinbaserResponse)} {publishing : Publishing}
      (hanswer : s.toGateway = (req, r) :: rest)
      (hstep : PublishStep H c protocolV3 xorKeyHash s.publishing (.answered r) publishing) :
      DictateStep s (.answered req r) { s with publishing, toGateway := rest }
  | disconnect {s : Dictating} {publishing : Publishing} (splits : DictatedSplits)
      (hsplits : splits = .empty ∨
        ∃ keep, splits = (s.splits.retainPrev keep).keepNewest SAVED_SPLITS)
      (hstep : PublishStep H c protocolV3 xorKeyHash s.publishing .disconnected publishing) :
      DictateStep s (.gateway .disconnected) { s with publishing, toPool := [], toGateway := [], splits }

def dictating (slots : Nat) (keep : Duration) : Lts Dictating DictateEvent where
  init s := s = ⟨.start slots keep, [], [], .empty, []⟩
  step := DictateStep H c protocolV3 xorKeyHash addressScript

end Steps

/-- A response that arrives finds no request waiting of its value for another previous block than that of
the request it answers. -/
def AnswersParent (s : Dictating) : DictateEvent → Prop
  | .answered req r => ∀ pending, s.publishing.awaitingCoinbaser = some pending →
      pending.value = r.value → pending.prevHash = req.prevHash
  | _ => True

/-! ### Splits on the way to a job -/

/-- The response carries a split dictated for the value and the previous block. -/
def CarriesSplit (dictated : List (UInt8 × DictatedSplit)) (value : Nat) (prevHash : Hash)
    (r : CoinbaserResponse) : Prop :=
  ∃ d, (r.coinbaserId, d) ∈ dictated ∧ d.value = value ∧ d.prevHash = prevHash ∧ r.value = value ∧
    r.outputs = d.outputs.map DictatedOutput.output

theorem CarriesSplit.mono {dictated dictated' : List (UInt8 × DictatedSplit)} {value : Nat}
    {prevHash : Hash} {r : CoinbaserResponse} (hcarries : CarriesSplit dictated value prevHash r)
    (hsub : dictated ⊆ dictated') : CarriesSplit dictated' value prevHash r := by
  obtain ⟨d, hmem, hrest⟩ := hcarries
  exact ⟨d, hsub hmem, hrest⟩

def PendingCoinbaser.OfTemplate (p : PendingCoinbaser) : Prop :=
  p.value = p.template.coinbaseValue ∧ p.prevHash = p.template.prevHash

/-- A property of a value, a previous block and the split of a job built on them. -/
abbrev SplitFor := Nat → Hash → CoinbaserResponse → Prop

def SplitFor.OfTemplate (P : SplitFor) (template : Template) (split : Option CoinbaserResponse) : Prop :=
  ∀ r, split = some r → P template.coinbaseValue template.prevHash r

/-- The splits the session thread holds are for their templates. -/
def SessionThread.Splits (P : SplitFor) : SessionThread → Prop
  | idle => True
  | completing pending split | configuring pending split => P.OfTemplate pending.template split
  | serving work _ => P.OfTemplate work.template work.coinbaser

/-- The template thread builds without a split. -/
def TemplateThread.Unsplit : TemplateThread → Prop
  | serving work _ _ => work.coinbaser = none
  | _ => True

structure Splits (P : SplitFor) (s : Publishing) : Prop where
  left : ∀ pending, s.gateway.pool.coinbaserRequest = some pending → pending.OfTemplate
  awaited : ∀ pending, s.awaitingCoinbaser = some pending → pending.OfTemplate
  template : s.templateThread.Unsplit
  session : s.sessionThread.Splits P

theorem SessionThread.Splits.mono {P Q : SplitFor} (h : ∀ value prevHash r, P value prevHash r →
    Q value prevHash r) {t : SessionThread} (hsplits : t.Splits P) : t.Splits Q := by
  cases t with
  | idle => trivial
  | _ => exact fun r hr => h _ _ r (hsplits r hr)

theorem Splits.mono {P Q : SplitFor} (h : ∀ value prevHash r, P value prevHash r → Q value prevHash r)
    {s : Publishing} (hsplits : Splits P s) : Splits Q s :=
  ⟨hsplits.left, hsplits.awaited, hsplits.template, hsplits.session.mono h⟩

variable {H : Hashing} {c : JobConfig} {protocolV3 : Bool} {xorKeyHash : XorKey → Hash}
  {addressScript : AddressScript} {P : SplitFor}

theorem onTemplate_unsplit (template : Template) (newBlock : Bool) (poolConfig : Option ClientConfig) :
    (TemplateThread.onTemplate template newBlock poolConfig).Unsplit := by
  cases poolConfig <;> cases newBlock <;> trivial

theorem resume_unsplit (next : Option (Template × Bool × ClientConfig)) :
    (TemplateThread.resume next).Unsplit := by
  cases next <;> trivial

theorem afterRequest_unsplit (template : Template) (newBlock : Bool) (config : ClientConfig)
    (left : Bool) : (TemplateThread.afterRequest template newBlock config left).Unsplit := by
  cases newBlock <;> cases left <;> trivial

theorem requestCoinbaser_ofTemplate {view : SessionView} {now : Instant} {template : Template}
    {newBlock : Bool}
    (hleft : ∀ pending, view.coinbaserRequest = some pending → pending.OfTemplate) :
    ∀ pending, (view.requestCoinbaser now template newBlock).2.coinbaserRequest = some pending →
      pending.OfTemplate := by
  intro pending hpending
  rw [SessionView.requestCoinbaser] at hpending
  split_ifs at hpending
  · exact hleft pending hpending
  · exact hleft pending hpending
  · obtain rfl := Option.some.inj hpending
    exact ⟨rfl, rfl⟩

theorem afterTip_splits {tip : Option Hash} {pending : PendingCoinbaser}
    {split : Option CoinbaserResponse} (hsplit : P.OfTemplate pending.template split) :
    (SessionThread.afterTip tip pending split).Splits P := by
  rw [SessionThread.afterTip]
  split
  · trivial
  · exact hsplit

theorem afterConfig_splits {poolConfig : Option ClientConfig} {pending : PendingCoinbaser}
    {split : Option CoinbaserResponse} (hsplit : P.OfTemplate pending.template split) :
    (SessionThread.afterConfig poolConfig pending split).Splits P := by
  rw [SessionThread.afterConfig]
  split
  · trivial
  · exact hsplit

/-- A step keeps the splits the two threads hold, given that a response taken is for the template
waiting. -/
theorem of_none_eq_some {A : Type} {p : A → Prop} (a : A) (h : none = some a) : p a :=
  absurd h.symm (Option.some_ne_none a)

theorem Splits.step {s s' : Publishing} {event : PublishEvent} (hsplits : Splits P s)
    (hstep : PublishStep H c protocolV3 xorKeyHash s event s') (hmalformed : event ≠ .malformed)
    (hanswered : ∀ r pending, event = .answered r → s.awaitingCoinbaser = some pending →
      pending.value = r.value → P pending.template.coinbaseValue pending.template.prevHash r) :
    Splits P s' := by
  cases hstep with
  | fetch hat => exact ⟨hsplits.left, hsplits.awaited, trivial, hsplits.session⟩
  | onTemplate template newBlock hat =>
      exact ⟨hsplits.left, hsplits.awaited, onTemplate_unsplit _ _ _, hsplits.session⟩
  | @templateServes work at_ next event g' then_ clocks hat hserve =>
      have htemplate := hsplits.template
      rw [hat] at htemplate
      refine ⟨?_, hsplits.awaited, ?_, hsplits.session⟩
      · rw [(Gateway.serve_cases hserve).pool_eq]
        exact hsplits.left
      · cases then_ with
        | none => exact resume_unsplit next
        | some at_ => exact htemplate
  | requestCoinbaser now hat =>
      exact ⟨requestCoinbaser_ofTemplate hsplits.left, hsplits.awaited, afterRequest_unsplit _ _ _ _,
        hsplits.session⟩
  | @send pending hidle hpending =>
      refine ⟨of_none_eq_some, ?_, hsplits.template, hsplits.session⟩
      intro awaited hawaited
      obtain rfl := Option.some.inj hawaited
      exact hsplits.left pending hpending
  | expire now hidle hawaiting hdue => exact ⟨hsplits.left, of_none_eq_some, hsplits.template, of_none_eq_some⟩
  | answer r hidle =>
      rw [Publishing.onCoinbaserResponse]
      split
      · exact hsplits
      · rename_i pending hawaiting
        split
        · rename_i hvalue
          refine ⟨hsplits.left, of_none_eq_some, hsplits.template, ?_⟩
          intro split hsplit
          obtain rfl := Option.some.inj hsplit
          exact hanswered r pending rfl hawaiting hvalue
        · exact hsplits
  | malformed hidle => exact absurd rfl hmalformed
  | configure config hidle =>
      refine ⟨?_, hsplits.awaited, hsplits.template, hsplits.session⟩
      rw [SessionView.onConfig_coinbaserRequest]
      exact hsplits.left
  | assignment plain hidle => exact ⟨hsplits.left, hsplits.awaited, hsplits.template, hsplits.session⟩
  | disconnect hidle => exact ⟨of_none_eq_some, of_none_eq_some, hsplits.template, hsplits.session⟩
  | checkTip hat =>
      have hsession := hsplits.session
      rw [hat] at hsession
      exact ⟨hsplits.left, hsplits.awaited, hsplits.template, afterTip_splits hsession⟩
  | readConfig hat =>
      have hsession := hsplits.session
      rw [hat] at hsession
      exact ⟨hsplits.left, hsplits.awaited, hsplits.template, afterConfig_splits hsession⟩
  | @sessionServes work at_ event g' then_ clocks hat hserve =>
      have hsession := hsplits.session
      rw [hat] at hsession
      refine ⟨?_, hsplits.awaited, hsplits.template, ?_⟩
      · rw [(Gateway.serve_cases hserve).pool_eq]
        exact hsplits.left
      · cases then_ with
        | none => trivial
        | some at_ => exact hsession

theorem Served.built {g g' : Gateway} {work : Work} {at_ : Serving} {job : Job}
    {coinbaser : Option CoinbaserResponse} {then_ : Option Serving}
    (hserved : Served H g work at_ (.built job coinbaser) g' then_) :
    coinbaser = work.coinbaser ∧ ∃ abw, BuiltFrom H
      { serial := g.nextJobSerial, template := work.template, poolConfig := work.poolConfig
        coinbaser := work.coinbaser, abw } job := by
  cases hserved with
  | builds hbuilt => exact ⟨rfl, _, hbuilt⟩

/-- The job built with a split names it, and is for its value and previous block. -/
theorem Splits.built {s s' : Publishing} {job : Job} {r : CoinbaserResponse} (hsplits : Splits P s)
    (hstep : PublishStep H c protocolV3 xorKeyHash s (.built job (some r)) s') :
    P job.jobSection.coinbaseValue job.jobSection.prevHash r ∧
      job.jobSection.coinbaserId = r.coinbaserId := by
  generalize hevent : PublishEvent.built job (some r) = event at hstep
  cases hstep with
  | templateServes clocks hat hserve =>
      subst hevent
      have htemplate := hsplits.template
      rw [hat] at htemplate
      obtain ⟨hcoinbaser, -⟩ := (Gateway.serve_cases hserve).built
      rw [show _ = none from htemplate] at hcoinbaser
      cases hcoinbaser
  | sessionServes clocks hat hserve =>
      subst hevent
      have hsession := hsplits.session
      rw [hat] at hsession
      obtain ⟨hcoinbaser, abw, hbuilt⟩ := (Gateway.serve_cases hserve).built
      rw [hbuilt.coinbaseValue_eq, hbuilt.prevHash_eq, hbuilt.coinbaserId_eq]
      dsimp only
      rw [← hcoinbaser]
      exact ⟨hsession r hcoinbaser.symm, rfl⟩
  | _ => cases hevent

/-! ### Every interleaving -/

/-- What the pool dictated, on its way to the jobs. -/
structure AllCarried (trace : List DictateEvent) (s : Dictating) : Prop where
  splits : Splits (CarriesSplit s.dictated) s.publishing
  inflight : ∀ answer ∈ s.toGateway,
    CarriesSplit s.dictated answer.1.value answer.1.prevHash answer.2
  built : ∀ job r, .gateway (.built job (some r)) ∈ trace →
    CarriesSplit s.dictated job.jobSection.coinbaseValue job.jobSection.prevHash r ∧
      job.jobSection.coinbaserId = r.coinbaserId

namespace AllCarried

variable {trace : List DictateEvent} {s : Dictating}

theorem append_built (hall : AllCarried trace s) {event : DictateEvent}
    {dictated : List (UInt8 × DictatedSplit)} (hsub : s.dictated ⊆ dictated)
    (hevent : ∀ job r, event = .gateway (.built job (some r)) →
      CarriesSplit dictated job.jobSection.coinbaseValue job.jobSection.prevHash r ∧
        job.jobSection.coinbaserId = r.coinbaserId) (job : Job) (r : CoinbaserResponse)
    (hmem : .gateway (.built job (some r)) ∈ trace ++ [event]) :
    CarriesSplit dictated job.jobSection.coinbaseValue job.jobSection.prevHash r ∧
      job.jobSection.coinbaserId = r.coinbaserId := by
  rw [List.mem_append, List.mem_singleton] at hmem
  obtain hmem | heq := hmem
  · obtain ⟨hcarries, hid⟩ := hall.built job r hmem
    exact ⟨hcarries.mono hsub, hid⟩
  · exact hevent job r heq.symm

/-- The gateway takes a step, and the messages to it are some of those before. -/
theorem gateway (hall : AllCarried trace s) {s' : Dictating} {event : PublishEvent}
    (hstep : PublishStep H c protocolV3 xorKeyHash s.publishing event s'.publishing)
    (hdictated : s'.dictated = s.dictated) (hinflight : s'.toGateway ⊆ s.toGateway)
    (hmalformed : event ≠ .malformed) (hanswered : ∀ r, event ≠ .answered r) :
    AllCarried (trace ++ [.gateway event]) s' where
  splits := by
    rw [hdictated]
    exact hall.splits.step hstep hmalformed fun r _ heq => absurd heq (hanswered r)
  inflight answer hmem := by
    rw [hdictated]
    exact hall.inflight answer (hinflight hmem)
  built := by
    rw [hdictated]
    apply hall.append_built (List.Subset.refl _)
    intro job r heq
    obtain rfl : event = .built job (some r) := DictateEvent.gateway.inj heq
    exact hall.splits.built hstep

theorem step (hall : AllCarried trace s) {s' : Dictating} {event : DictateEvent}
    (hparent : AnswersParent s event)
    (hstep : DictateStep H c protocolV3 xorKeyHash addressScript s event s') :
    AllCarried (trace ++ [event]) s' := by
  cases hstep with
  | gateway hlocal hstep =>
      refine hall.gateway hstep rfl (List.Subset.refl _) ?_ ?_
      · rintro rfl
        cases hlocal
      · rintro r rfl
        cases hlocal
  | request hstep => exact hall.gateway hstep rfl (List.Subset.refl _) nofun nofun
  | @dictate req rest F l now hreq =>
      have hsub : s.dictated ⊆ s.dictated ++ [(s.splits.nextId,
          { outputs := (Ratum.dictate addressScript l req.value s.splits.nextId).1
            value := req.value, prevHash := req.prevHash, sentAt := now })] :=
        List.subset_append_left _ _
      refine ⟨hall.splits.mono fun _ _ _ h => h.mono hsub, ?_, hall.append_built hsub nofun⟩
      intro answer hmem
      rw [List.mem_append, List.mem_singleton] at hmem
      obtain hmem | rfl := hmem
      · exact (hall.inflight answer hmem).mono hsub
      · refine ⟨_, List.mem_append_right _ (List.mem_singleton_self _), rfl, rfl, rfl, rfl⟩
  | skip hreq => exact ⟨hall.splits, hall.inflight, hall.append_built (List.Subset.refl _) nofun⟩
  | @answer req r rest publishing hanswer hstep =>
      have hcarries := hall.inflight (req, r) (by rw [hanswer]; exact List.mem_cons_self)
      refine ⟨hall.splits.step hstep nofun ?_, ?_, hall.append_built (List.Subset.refl _) nofun⟩
      · intro r' pending hevent hawaiting hvalue
        obtain rfl := PublishEvent.answered.inj hevent
        obtain ⟨hof, hprev⟩ := hall.splits.awaited pending hawaiting
        rw [← hof, ← hprev, hvalue, hparent pending hawaiting hvalue]
        obtain ⟨d, hmem, hd, hprevHash, hr, houtputs⟩ := hcarries
        exact ⟨d, hmem, hd.trans hr.symm, hprevHash, rfl, houtputs⟩
      · intro answer hmem
        exact hall.inflight answer (by rw [hanswer]; exact List.mem_cons_of_mem _ hmem)
  | disconnect splits hsplits hstep =>
      exact hall.gateway hstep rfl (List.nil_subset _) nofun nofun

end AllCarried

/-- The job names a split the pool dictated for its value and previous block, and is not refused for the
split it names while the pool holds that one. -/
def NamesItsSplit (s : Dictating) (job : Job) (r : CoinbaserResponse) : Prop :=
  ∃ d, (job.jobSection.coinbaserId, d) ∈ s.dictated ∧
    d.value = job.jobSection.coinbaseValue ∧ d.prevHash = job.jobSection.prevHash ∧
    r.coinbaserId = job.jobSection.coinbaserId ∧ r.outputs = d.outputs.map DictatedOutput.output ∧
    ∀ payoutScript (splits : DictatedSplits) tx share,
      splits.get job.jobSection.coinbaserId = some d →
        checkOutputs payoutScript splits job.jobSection tx share ≠ .error .badCoinbaserId

/-- **While no response meets a waiting request of its value for another previous block, every job built
with a split names one dictated for the job's own value and previous block.** -/
theorem split_built_for_its_request {slots : Nat} {keep : Duration} {trace : List DictateEvent}
    {s : Dictating}
    (hrun : ((dictating H c protocolV3 xorKeyHash addressScript slots keep).restrict AnswersParent).Run
      trace s) {job : Job} {r : CoinbaserResponse} (hbuilt : .gateway (.built job (some r)) ∈ trace) :
    NamesItsSplit s job r := by
  have hall : AllCarried trace s := by
    apply hrun.invariant (I := AllCarried)
    · rintro s rfl
      exact ⟨⟨nofun, nofun, trivial, trivial⟩, nofun, nofun⟩
    · intro trace s event s' hall hstep
      exact hall.step hstep.1 hstep.2
  obtain ⟨⟨d, hmem, hvalue, hprev, -, houtputs⟩, hid⟩ := hall.built job r hbuilt
  refine ⟨d, hid ▸ hmem, hvalue, hprev, hid.symm, houtputs, ?_⟩
  intro payoutScript splits tx share hget
  exact checkOutputs_ne_badCoinbaserId hget hvalue hprev tx share

/-! ### Two requests of one value -/

def untaggedPool : ClientConfig :=
  withRoundedMinDifficulty
    { payoutScript := [0x51], primeId := 0, coinbaseTag := "", minDifficulty := 1, v3 := none }

theorem exists_build_pooled (prevHash : Hash) (serial : Nat) (coinbaser : Option CoinbaserResponse) :
    ∃ job, build constantHashing untaggedConfig
      { serial, template := emptyTemplate prevHash, poolConfig := some untaggedPool, coinbaser
        abw := none } 0 0 = .ok job := by
  apply exists_build
  · exact List.cons_ne_nil _ _
  · show 1 ≤ 83
    decide
  · show (ScriptSigInputs.scriptSig ⟨1, "", "", 0, 0, false, true⟩).isSome = true
    decide +kernel
  · exact Nat.zero_le _
  · show (bitsToTarget 0x1d00ffff).isSome
    decide

/-- The request left for an empty template of a new block. -/
def emptyRequest (prevHash : Hash) : PendingCoinbaser where
  value := 5000000000
  prevHash
  template := emptyTemplate prevHash
  newBlock := true
  requestedAt := 0

/-- The system under the version 1 pool, with the template thread idle. -/
def pooledState (jobs : JobTable) (serial : Nat) (request awaiting : Option PendingCoinbaser)
    (sessionThread : SessionThread) (toPool : List CoinbaserRequest)
    (toGateway : List (CoinbaserRequest × CoinbaserResponse)) (splits : DictatedSplits)
    (dictated : List (UInt8 × DictatedSplit)) : Dictating where
  publishing :=
    { gateway :=
        { pool := { config := some untaggedPool, abw := .default, coinbaserRequest := request }
          jobs
          nextJobSerial := serial }
      templateThread := .idle
      sessionThread
      awaitingCoinbaser := awaiting }
  toPool
  toGateway
  splits
  dictated

/-- The system with no address paid, whose steps are the allowed ones. -/
def emptyDictating (allowed : Dictating → DictateEvent → Prop) : Lts Dictating DictateEvent :=
  (dictating constantHashing untaggedConfig false (fun _ => zeroHash) (fun _ => none) 8 0).restrict
    allowed

section Toy

variable {allowed : Dictating → DictateEvent → Prop}
  (hallowed : ∀ s event, (∀ req r, event ≠ .answered req r) → allowed s event)
  {trace : List DictateEvent} {jobs : JobTable} {serial : Nat}
  {request awaiting : Option PendingCoinbaser} {sessionThread : SessionThread}
  {toPool : List CoinbaserRequest} {toGateway : List (CoinbaserRequest × CoinbaserResponse)}
  {splits : DictatedSplits} {dictated : List (UInt8 × DictatedSplit)}

include hallowed

theorem emptyDictating_configured :
    (emptyDictating allowed).Run [.gateway .quiet] (pooledState (.new 8 0) 0 none none .idle [] [] .empty []) :=
  .next (.start rfl) ⟨hallowed _ _ nofun, .gateway rfl (.configure ⟨[0x51], 0, "", 1, none⟩ rfl)⟩

theorem emptyDictating_acts {trace : List DictateEvent} {s : Dictating} {event : PublishEvent}
    {p : Publishing} (hrun : (emptyDictating allowed).Run trace s) (hlocal : event.isLocal = true)
    (hstep : PublishStep constantHashing untaggedConfig false (fun _ => zeroHash) s.publishing event p) :
    (emptyDictating allowed).Run (trace ++ [.gateway event]) { s with publishing := p } :=
  hrun.next ⟨hallowed _ _ nofun, .gateway hlocal hstep⟩

/-- The template of a new block is served, and its request left. -/
theorem emptyDictating_requests
    (hrun : (emptyDictating allowed).Run trace
      (pooledState jobs serial request awaiting sessionThread toPool toGateway splits dictated))
    (prevHash : Hash) :
    ∃ trace jobs, (emptyDictating allowed).Run trace
        (pooledState jobs (serial + 1) (some (emptyRequest prevHash)) awaiting sessionThread toPool
          toGateway splits dictated) ∧
      jobs.tip = some prevHash := by
  obtain ⟨job, hbuild⟩ := exists_build_pooled prevHash serial none
  have hjob : job.template = emptyTemplate prevHash := (build_eq_ok hbuild).template_eq
  have htip : (jobs.setTip prevHash).tip = some job.template.prevHash := by rw [hjob]; rfl
  obtain ⟨announced, hannounce⟩ := JobTable.publish_of_tip htip 0 .subsidyOnly
  have htip' : announced.tip = some job.template.prevHash :=
    (JobTable.publish_eq_true hannounce).tip_eq.trans htip
  obtain ⟨published, hpublish⟩ := JobTable.publish_of_tip htip' 0 .pooled
  have hstep := @emptyDictating_acts _ hallowed
  have hfetch := hstep hrun rfl (.fetch rfl)
  have honTemplate := hstep hfetch rfl (.onTemplate (emptyTemplate prevHash) true rfl)
  have hcommits := hstep honTemplate rfl (.templateServes ⟨0, 0⟩ rfl rfl)
  have hbuilds := hstep hcommits rfl (.templateServes ⟨0, 0⟩ rfl (Gateway.serve_committing hbuild))
  have hannounces := hstep hbuilds rfl (.templateServes ⟨0, 0⟩ rfl (Gateway.publish_eq hannounce _))
  have hpublishes := hstep hannounces rfl (.templateServes ⟨0, 0⟩ rfl (Gateway.publish_eq hpublish none))
  have hrequests := hstep hpublishes rfl (.requestCoinbaser 0 rfl)
  refine ⟨_, published, hrequests, ?_⟩
  rw [(JobTable.publish_eq_true hpublish).tip_eq, htip', hjob]
  rfl

theorem emptyDictating_sends {prevHash : Hash}
    (hrun : (emptyDictating allowed).Run trace
      (pooledState jobs serial (some (emptyRequest prevHash)) awaiting .idle toPool toGateway splits
        dictated)) :
    ∃ trace, (emptyDictating allowed).Run trace
      (pooledState jobs serial none (some (emptyRequest prevHash)) .idle
        (toPool ++ [⟨5000000000, prevHash⟩]) toGateway splits dictated) :=
  ⟨_, hrun.next ⟨hallowed _ (.gateway (.requested (emptyRequest prevHash))) nofun,
    .request (.send rfl rfl)⟩⟩

theorem emptyDictating_dictates {req : CoinbaserRequest} {rest : List CoinbaserRequest}
    (hrun : (emptyDictating allowed).Run trace
      (pooledState jobs serial request awaiting sessionThread (req :: rest) toGateway splits dictated)) :
    ∃ trace, (emptyDictating allowed).Run trace
      (pooledState jobs serial request awaiting sessionThread rest
        (toGateway ++ [(req, ⟨req.value, splits.nextId, []⟩)])
        (splits.record splits.nextId req.value req.prevHash [] 0)
        (dictated ++ [(splits.nextId, ⟨[], req.value, req.prevHash, 0⟩)])) := by
  let l : Ledger Nat := .new ⟨fun _ => 3, fun _ => by decide, fun _ => by decide⟩ ⟨0, by decide⟩
  have hdictate : dictate (fun _ => none) l req.value splits.nextId =
      ([], ⟨req.value, splits.nextId, []⟩) := by
    simp [dictate, outputsFor]
  have hstep := hrun.next
    ⟨hallowed _ (.dictated req (dictate (fun _ => none) l req.value splits.nextId).2) nofun,
      .dictate l 0 rfl⟩
  dsimp only [pooledState] at hstep
  rw [hdictate] at hstep
  exact ⟨_, hstep⟩

/-- The answer taken for the request waiting becomes the split of a job on that request's block. -/
theorem emptyDictating_answered {prevHash : Hash} {req : CoinbaserRequest} {r : CoinbaserResponse}
    {rest : List (CoinbaserRequest × CoinbaserResponse)}
    (hrun : (emptyDictating allowed).Run trace
      (pooledState jobs serial request (some (emptyRequest prevHash)) .idle toPool ((req, r) :: rest)
        splits dictated)) (hvalue : r.value = 5000000000) (htip : jobs.tip = some prevHash)
    (hanswer : allowed
      (pooledState jobs serial request (some (emptyRequest prevHash)) .idle toPool ((req, r) :: rest)
        splits dictated) (.answered req r)) :
    ∃ trace s job, (emptyDictating allowed).Run trace s ∧ .gateway (.built job (some r)) ∈ trace ∧
      s.splits = splits ∧ s.dictated = dictated ∧ job.jobSection.prevHash = prevHash ∧
      job.jobSection.coinbaserId = r.coinbaserId := by
  obtain ⟨job, hbuild⟩ := exists_build_pooled prevHash serial (some r)
  have htakes : (pooledState jobs serial request (some (emptyRequest prevHash)) .idle toPool
      ((req, r) :: rest) splits dictated).publishing.onCoinbaserResponse r =
      (pooledState jobs serial request none (.completing (emptyRequest prevHash) (some r)) toPool rest
        splits dictated).publishing := by
    rw [Publishing.onCoinbaserResponse]
    exact if_pos hvalue.symm
  have htip' : SessionThread.afterTip jobs.tip (emptyRequest prevHash) (some r) =
      .configuring (emptyRequest prevHash) (some r) := by
    rw [SessionThread.afterTip, htip]
    exact if_neg (not_not.mpr rfl)
  have hanswers := hrun.next ⟨hanswer, DictateStep.answer rfl (PublishStep.answer r rfl)⟩
  rw [htakes] at hanswers
  have hstep := @emptyDictating_acts _ hallowed
  have hchecks := hstep hanswers rfl (.checkTip rfl)
  have hreads := hstep hchecks rfl (.readConfig htip')
  have hcommits := hstep hreads rfl (.sessionServes ⟨0, 0⟩ rfl rfl)
  have hbuilds := hstep hcommits rfl (.sessionServes ⟨0, 0⟩ rfl (Gateway.serve_committing hbuild))
  refine ⟨_, _, job, hbuilds, by simp, rfl, rfl, ?_, ?_⟩
  · exact (build_eq_ok hbuild).prevHash_eq
  · exact (build_eq_ok hbuild).coinbaserId_eq

end Toy

/-- A job built with the split dictated for its request. -/
theorem split_built_for_its_request_once : ∃ trace s job r,
    .gateway (.built job (some r)) ∈ trace ∧ NamesItsSplit s job r ∧
      ((dictating constantHashing untaggedConfig false (fun _ => zeroHash) (fun _ => none) 8
        0).restrict AnswersParent).Run trace s := by
  have hallowed : ∀ s event, (∀ req r, event ≠ .answered req r) → AnswersParent s event := by
    intro s event hevent
    cases event with
    | answered req r => exact absurd rfl (hevent req r)
    | _ => trivial
  obtain ⟨_, jobs, hrun, htip⟩ := emptyDictating_requests hallowed (emptyDictating_configured hallowed)
    zeroHash
  obtain ⟨_, hrun⟩ := emptyDictating_sends hallowed hrun
  obtain ⟨_, hrun⟩ := emptyDictating_dictates hallowed hrun
  obtain ⟨trace, s, job, hrun, hbuilt, -⟩ := emptyDictating_answered hallowed hrun rfl htip (by
    intro pending hpending _
    obtain rfl := Option.some.inj hpending
    rfl)
  exact ⟨trace, s, job, _, hbuilt, split_built_for_its_request hrun hbuilt, hrun⟩

/-- Two templates of one value on two blocks: the answer to the first request comes while the second
waits, and the job on the second block names the split of the first. -/
theorem split_built_for_another_request : ∃ trace s job r d,
    (dictating constantHashing untaggedConfig false (fun _ => zeroHash) (fun _ => none) 8 0).Run trace s ∧
      .gateway (.built job (some r)) ∈ trace ∧ ¬ NamesItsSplit s job r ∧
      (r.coinbaserId, d) ∈ s.dictated ∧ s.splits.get job.jobSection.coinbaserId = some d ∧
      ∀ payoutScript tx share, share.subsidyOnly = false →
        checkOutputs payoutScript s.splits job.jobSection tx share = .error .badCoinbaserId := by
  have hallowed : ∀ (s : Dictating) (event : DictateEvent),
      (∀ req r, event ≠ .answered req r) → True := fun _ _ _ => trivial
  have hne : (zeroHash : Hash) ≠ Vector.replicate _ 1 := by decide
  obtain ⟨_, jobs, hrun, -⟩ := emptyDictating_requests hallowed (emptyDictating_configured hallowed)
    zeroHash
  obtain ⟨_, hrun⟩ := emptyDictating_sends hallowed hrun
  obtain ⟨_, hrun⟩ := emptyDictating_dictates hallowed hrun
  obtain ⟨_, jobs, hrun, htip⟩ := emptyDictating_requests hallowed hrun (Vector.replicate _ 1)
  obtain ⟨_, hrun⟩ := emptyDictating_sends hallowed hrun
  obtain ⟨trace, s, job, hrun, hbuilt, hsplits, hdictated, hprev, hid⟩ :=
    emptyDictating_answered hallowed hrun rfl htip trivial
  have hget : s.splits.get job.jobSection.coinbaserId = some ⟨[], 5000000000, zeroHash, 0⟩ := by
    rw [hsplits, hid]
    rfl
  refine ⟨trace, s, job, _, _, hrun.of_restrict, hbuilt, ?_, ?_, hget, ?_⟩
  · rintro ⟨d, hmem, -, hprev', -⟩
    rw [hdictated] at hmem
    obtain rfl := (Prod.mk.inj (List.mem_singleton.mp hmem)).2
    exact hne (hprev'.trans hprev)
  · rw [hdictated]
    exact List.mem_singleton_self _
  · intro payoutScript tx share hpooled
    apply checkOutputs_badCoinbaserId hget _ tx hpooled
    rw [hprev]
    exact .inl hne

end Ratum
