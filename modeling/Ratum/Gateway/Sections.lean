import Ratum.Gateway.Publications
import Ratum.Gateway.SendShare
import Ratum.Verify.Verify

/-!
# Sections sent once

A connection to the pool: the two threads that publish jobs, the shares of the miners queued and sent, the
messages in flight in the order sent, and the pool's verifier, whose tip, template and splits change at any
time. A message decodes to the share sent.
-/

namespace Ratum

/-- A queued share and the message it was sent in. -/
structure ShareMessage where
  share : QueuedShare
  submit : PowSubmit

structure PoolConnection where
  publishing : Publishing
  /-- The jobs the miners' connections read from the slots. -/
  read : List Job
  queue : ShareQueue
  /-- The shares taken from the queue and not yet looked at. -/
  batch : List QueuedShare
  sentSections : SentTable
  toPool : List ShareMessage
  verifier : Verifier

inductive PoolEvent
  | gateway (event : PublishEvent)
  | sent (m : ShareMessage)
  | verified (m : ShareMessage) (installs : Bool) (answer : Except Refusal RebuiltShare)
  | quiet

section Steps

variable (H : Hashing) (c : JobConfig) (protocolV3 : Bool) (xorKeyHash : XorKey → Hash) (d : DatumConfig)
  (poolAddress : String) (policy : SharePolicy)

inductive PoolStep : PoolConnection → PoolEvent → PoolConnection → Prop
  | gateway {s : PoolConnection} {event : PublishEvent} {p : Publishing} (hevent : event ≠ .disconnected)
      (hstep : PublishStep H c protocolV3 xorKeyHash s.publishing event p) :
      PoolStep s (.gateway event) { s with publishing := p }
  /-- The connection ends, and the next one starts with the splits saved for it. -/
  | reconnect {s : PoolConnection} {p : Publishing} (splits : DictatedSplits)
      (hstep : PublishStep H c protocolV3 xorKeyHash s.publishing .disconnected p) :
      PoolStep s (.gateway .disconnected)
        { s with
          publishing := p
          batch := []
          sentSections := fun _ => none
          toPool := []
          verifier := { Verifier.new policy with splits } }
  | read {s : PoolConnection} {slot : UInt8} {job : Job}
      (hat : s.publishing.gateway.jobs.at? slot = some job) :
      PoolStep s .quiet { s with read := job :: s.read }
  | queueShare {s : PoolConnection} {share : QueuedShare} (hread : share.job ∈ s.read) :
      PoolStep s .quiet { s with queue := s.queue.queueShare share }
  | takeQueued {s : PoolConnection} (hidle : s.publishing.sessionThread = .idle) (hdone : s.batch = [])
      (hready : protocolV3 = true → s.publishing.gateway.pool.config.isSome ∧
        s.publishing.gateway.pool.abwState ≠ .awaiting) :
      PoolStep s .quiet { s with queue := { s.queue with queue := [] }, batch := s.queue.queue }
  | send {s : PoolConnection} {share : QueuedShare} {rest : List QueuedShare} {submit : PowSubmit}
      {sentSections : SentTable} (hidle : s.publishing.sessionThread = .idle)
      (hbatch : s.batch = share :: rest)
      (hsend : sendShare d poolAddress s.publishing.gateway.jobs s.publishing.gateway.pool.abw s.sentSections
        share = (some submit, sentSections)) :
      PoolStep s (.sent ⟨share, submit⟩)
        { s with batch := rest, sentSections, toPool := s.toPool ++ [⟨share, submit⟩] }
  | withhold {s : PoolConnection} {share : QueuedShare} {rest : List QueuedShare} {sentSections : SentTable}
      (hidle : s.publishing.sessionThread = .idle) (hbatch : s.batch = share :: rest)
      (hsend : sendShare d poolAddress s.publishing.gateway.jobs s.publishing.gateway.pool.abw s.sentSections
        share = (none, sentSections)) :
      PoolStep s .quiet { s with batch := rest, sentSections }
  | verify {s : PoolConnection} {m : ShareMessage} {rest : List ShareMessage} (abw : Option AbwSlotState)
      (now : Nat) (hhead : s.toPool = m :: rest) :
      PoolStep s
        (.verified m (s.verifier.installs H m.submit abw now) (s.verifier.verify H m.submit abw now).1)
        { s with toPool := rest, verifier := (s.verifier.verify H m.submit abw now).2 }
  | setTip {s : PoolConnection} (tip : Option Hash) (now : Nat) :
      PoolStep s .quiet { s with verifier := s.verifier.setTip tip now }
  | setTemplate {s : PoolConnection} (next : Option NextBlock) :
      PoolStep s .quiet { s with verifier := { s.verifier with next } }
  | dictate {s : PoolConnection} (splits : DictatedSplits) :
      PoolStep s .quiet { s with verifier := { s.verifier with splits } }

def poolConnection (slots : Nat) (keep : Duration) : Lts PoolConnection PoolEvent where
  init s := s.publishing = .start slots keep ∧ s.read = [] ∧ s.queue.queue = [] ∧ s.batch = [] ∧
    s.sentSections = (fun _ => none) ∧ s.toPool = [] ∧ ∃ splits, s.verifier = { Verifier.new policy with splits }
  step := PoolStep H c protocolV3 xorKeyHash d poolAddress policy

end Steps

/-! ### What a run sent and verified -/

/-- What the threads that publish did. -/
def publishEvents (trace : List PoolEvent) : List PublishEvent :=
  trace.filterMap fun
    | .gateway event => some event
    | _ => none

def logSent (log : List ShareMessage) : PoolEvent → List ShareMessage
  | .gateway .disconnected => []
  | .sent m => log ++ [m]
  | _ => log

/-- The messages sent on the connection, the last one at the end. -/
def sentMessages (trace : List PoolEvent) : List ShareMessage := trace.foldl logSent []

def logVerified (log : List (ShareMessage × Bool)) : PoolEvent → List (ShareMessage × Bool)
  | .gateway .disconnected => []
  | .verified m installs _ => log ++ [(m, installs)]
  | _ => log

/-- The messages verified on the connection, and whether their sections were installed. -/
def verifiedMessages (trace : List PoolEvent) : List (ShareMessage × Bool) := trace.foldl logVerified []

/-- A share that carries the job's section had it installed. -/
def JobInstalled (trace : List PoolEvent) (job : Job) : Prop :=
  ∃ m, (m, true) ∈ verifiedMessages trace ∧ m.share.job = job ∧ m.submit.job.isSome

/-- A share on the job that carries its coinbase section of the kind had it installed. -/
def CoinbaseInstalled (trace : List PoolEvent) (job : Job) (kind : CoinbaseKind) : Prop :=
  ∃ m, (m, true) ∈ verifiedMessages trace ∧ m.share.job = job ∧ m.share.kind = kind ∧
    m.submit.coinbase.isSome

@[simp] theorem publishEvents_append (trace : List PoolEvent) (event : PoolEvent) :
    publishEvents (trace ++ [event]) = publishEvents trace ++ publishEvents [event] :=
  List.filterMap_append ..

@[simp] theorem sentMessages_append (trace : List PoolEvent) (event : PoolEvent) :
    sentMessages (trace ++ [event]) = logSent (sentMessages trace) event := by
  rw [sentMessages, List.foldl_append]
  rfl

@[simp] theorem verifiedMessages_append (trace : List PoolEvent) (event : PoolEvent) :
    verifiedMessages (trace ++ [event]) = logVerified (verifiedMessages trace) event := by
  rw [verifiedMessages, List.foldl_append]
  rfl

/-! ### The order of the messages -/

/-- The job of the last message of a slot. -/
def lastOn (slot : UInt8) (log : List ShareMessage) : Option Job :=
  ((log.filter fun m => m.share.job.slot = slot).getLast?).map fun m => m.share.job

theorem lastOn_append_self (log : List ShareMessage) (m : ShareMessage) :
    lastOn m.share.job.slot (log ++ [m]) = some m.share.job := by
  rw [lastOn, List.filter_append, List.filter_cons_of_pos (by simp), List.filter_nil,
    List.getLast?_append_cons]
  rfl

theorem lastOn_append_of_ne {slot : UInt8} (log : List ShareMessage) {m : ShareMessage}
    (hslot : m.share.job.slot ≠ slot) : lastOn slot (log ++ [m]) = lastOn slot log := by
  rw [lastOn, List.filter_append, List.filter_cons_of_neg (by simpa using hslot), List.filter_nil,
    List.append_nil]
  rfl

theorem slot_of_lastOn {slot : UInt8} {log : List ShareMessage} {job : Job}
    (hlast : lastOn slot log = some job) : job.slot = slot := by
  obtain ⟨m, hm, rfl⟩ := Option.map_eq_some_iff.mp hlast
  have hmem := List.mem_filter.mp (List.mem_of_getLast? hm)
  exact of_decide_eq_true hmem.2

/-- What a message sent after others is to them: the messages of its job are the last of its slot, and it
carries a section none of them did. -/
structure Continues (before : List ShareMessage) (m : ShareMessage) : Prop where
  unbroken : ∀ m' ∈ before, m'.share.job = m.share.job → lastOn m.share.job.slot before = some m.share.job
  job_first : m.submit.job.isSome → ∀ m' ∈ before, m'.share.job ≠ m.share.job
  coinbase_first : m.submit.coinbase.isSome → ∀ m' ∈ before, m'.share.job = m.share.job →
    m'.share.kind ≠ m.share.kind

def Ordered (log : List ShareMessage) : Prop :=
  ∀ before m after, log = before ++ m :: after → Continues before m

theorem ordered_nil : Ordered [] := by
  intro before m after heq
  cases before <;> cases heq

theorem Ordered.append {log : List ShareMessage} {m : ShareMessage} (hordered : Ordered log)
    (hcontinues : Continues log m) : Ordered (log ++ [m]) := by
  intro before m' after heq
  obtain rfl | ⟨after, last, rfl⟩ := List.eq_nil_or_concat after
  · obtain ⟨rfl, hlast⟩ := List.append_inj' heq rfl
    obtain rfl := List.singleton_inj.mp hlast
    exact hcontinues
  · rw [List.concat_eq_append, ← List.cons_append, ← List.append_assoc] at heq
    exact hordered before m' after (List.append_inj' heq rfl).1

/-- A message names its share's job and coinbase, and the sections it carries are theirs. -/
structure Faithful (m : ShareMessage) : Prop where
  jobId_eq : m.submit.jobId = m.share.job.slot
  coinbaseId_eq : m.submit.coinbaseId = m.share.kind.wireId
  job_eq : ∀ job, m.submit.job = some job → job = m.share.job.jobSection
  coinbase_eq : ∀ cb, m.submit.coinbase = some cb → cb = (m.share.job.coinbase m.share.kind).section

/-! ### What the gateway sent -/

/-- The record of a slot names the sections sent for the job of its last message. -/
def Recorded (log : List ShareMessage) (slot : UInt8) : Option SentSections → Prop
  | none => lastOn slot log = none
  | some record => ∃ job, lastOn slot log = some job ∧ job.serial = record.jobSerial ∧
      record.jobSectionSent = true ∧
      ∀ m ∈ log, m.share.job = job → record.coinbaseSent m.share.kind = true

/-- What the messages sent on the connection are to the jobs published. -/
structure Sending (trace : List PublishEvent) (log : List ShareMessage) (s : PoolConnection) : Prop where
  ordered : Ordered log
  faithful : ∀ m ∈ log, Faithful m
  published : ∀ m ∈ log, WasPublished trace m.share.job
  unrivalled : ∀ m ∈ log, s.publishing.Unrivalled m.share.job
  superseded : ∀ m ∈ log, lastOn m.share.job.slot log ≠ some m.share.job → s.publishing.Gone m.share.job
  recorded : ∀ slot, Recorded log slot (s.sentSections slot)
  read : ∀ job ∈ s.read, WasPublished trace job
  queued : ∀ share ∈ s.queue.queue, WasPublished trace share.job
  batched : ∀ share ∈ s.batch, WasPublished trace share.job

theorem WasPublished.append {trace : List PublishEvent} {job : Job} (hpublished : WasPublished trace job)
    (event : PublishEvent) : WasPublished (trace ++ [event]) job :=
  wasPublished_append.mpr (.inl hpublished)

namespace Sending

variable {H : Hashing} {c : JobConfig} {protocolV3 : Bool} {xorKeyHash : XorKey → Hash} {d : DatumConfig}
  {poolAddress : String} {policy : SharePolicy} {trace : List PublishEvent} {log : List ShareMessage}
  {s : PoolConnection}

/-- The threads that publish take a step. -/
theorem publishes (hsending : Sending trace log s) (hpublications : Publications c trace s.publishing)
    (hslots : 3 ≤ c.protocolJobSlots ∧ c.protocolJobSlots ≤ 256) {event : PublishEvent} {p : Publishing}
    (hstep : PublishStep H c protocolV3 xorKeyHash s.publishing event p) :
    Sending (trace ++ [event]) log { s with publishing := p } := by
  have hmoves := hstep.jobMoves hpublications.pooled
  have hnext := hpublications.step hstep
  refine
    { ordered := hsending.ordered, faithful := hsending.faithful, recorded := hsending.recorded
      published := ?_, unrivalled := ?_, superseded := ?_, read := ?_, queued := ?_, batched := ?_ }
  · exact fun m hm => (hsending.published m hm).append event
  · intro m hm
    exact (hsending.unrivalled m hm).step hpublications.issued hnext.paced (hsending.published m hm) hslots
      hnext.wellBuilt hmoves
  · intro m hm hlast
    exact (hsending.superseded m hm hlast).step hpublications.issued (hsending.published m hm) hmoves
  · exact fun job hjob => (hsending.read job hjob).append event
  · exact fun share hshare => (hsending.queued share hshare).append event
  · exact fun share hshare => (hsending.batched share hshare).append event

theorem reconnects (hsending : Sending trace log s) (toPool : List ShareMessage) (v : Verifier) :
    Sending trace []
      { s with batch := [], sentSections := fun _ => none, toPool, verifier := v } where
  ordered := ordered_nil
  faithful _ hm := absurd hm List.not_mem_nil
  published _ hm := absurd hm List.not_mem_nil
  unrivalled _ hm := absurd hm List.not_mem_nil
  superseded _ hm := absurd hm List.not_mem_nil
  recorded _ := rfl
  read := hsending.read
  queued := hsending.queued
  batched _ hshare := absurd hshare List.not_mem_nil

/-- The job of a share sent is the one in its slot. -/
theorem at_slot (hpublications : Publications c trace s.publishing) {share : QueuedShare}
    (hshare : WasPublished trace share.job) {submit : PowSubmit} {sentSections : SentTable}
    (hsent : SentOn s.publishing.gateway.jobs s.sentSections share submit sentSections) :
    s.publishing.gateway.jobs.at? share.job.slot = some share.job := by
  obtain ⟨held, hat, hserial⟩ := hsent.held
  have hjobs := hpublications.issued.jobs
  have hheld := hjobs.installed held (JobTable.mem_installed_of_at hat)
  rwa [hjobs.eq_of_serial hheld hshare hserial] at hat

theorem unbroken (hsending : Sending trace log s) {job : Job}
    (hat : s.publishing.gateway.jobs.at? job.slot = some job) {m : ShareMessage} (hm : m ∈ log)
    (hjob : m.share.job = job) : lastOn job.slot log = some job := by
  by_contra hlast
  rw [← hjob] at hlast
  have hgone := (hsending.superseded m hm hlast).1
  rw [hjob] at hgone
  exact hgone (JobTable.mem_installed_of_at hat)

/-- Once a message on the job in its slot was sent, the record names the sections sent. -/
theorem current_sent (hsending : Sending trace log s) {job : Job}
    (hat : s.publishing.gateway.jobs.at? job.slot = some job) {m : ShareMessage} (hm : m ∈ log)
    (hjob : m.share.job = job) : (s.sentSections.current job).jobSectionSent = true ∧
      (s.sentSections.current job).coinbaseSent m.share.kind = true := by
  have hlast := hsending.unbroken hat hm hjob
  have hrecorded := hsending.recorded job.slot
  rw [SentTable.current]
  cases hslot : s.sentSections job.slot with
  | none =>
      rw [hslot, Recorded, hlast] at hrecorded
      cases hrecorded
  | some record =>
      rw [hslot, Recorded, hlast] at hrecorded
      obtain ⟨last, hlast', hserial, hsection, hcoinbase⟩ := hrecorded
      obtain rfl := Option.some.inj hlast'
      dsimp only
      rw [if_neg (by rw [not_not]; exact hserial.symm)]
      exact ⟨hsection, hcoinbase m hm hjob⟩

/-- A message sent continues the log. -/
theorem continues (hsending : Sending trace log s) {share : QueuedShare}
    (hat : s.publishing.gateway.jobs.at? share.job.slot = some share.job) {submit : PowSubmit}
    {sentSections : SentTable}
    (hsent : SentOn s.publishing.gateway.jobs s.sentSections share submit sentSections) :
    Continues log ⟨share, submit⟩ := by
  refine ⟨fun m hm hjob => hsending.unbroken hat hm hjob, ?_, ?_⟩
  · intro hcarries m hm hjob
    dsimp only at hcarries
    rw [hsent.job_eq, if_pos (hsending.current_sent hat hm hjob).1] at hcarries
    cases hcarries
  · intro hcarries m hm hjob hkind
    have hcoinbase := (hsending.current_sent hat hm hjob).2
    dsimp only at hcarries hkind
    rw [hkind] at hcoinbase
    rw [hsent.coinbase_eq, if_pos hcoinbase] at hcarries
    cases hcarries

theorem faithful_of_sent {jobs : JobTable} {share : QueuedShare} {submit : PowSubmit}
    {sent sent' : SentTable} (hsent : SentOn jobs sent share submit sent') : Faithful ⟨share, submit⟩ := by
  refine ⟨hsent.jobId_eq, hsent.coinbaseId_eq, ?_, ?_⟩
  · intro job hjob
    dsimp only at hjob
    rw [hsent.job_eq] at hjob
    split at hjob
    · cases hjob
    · exact (Option.some.inj hjob).symm
  · intro cb hcb
    dsimp only at hcb
    rw [hsent.coinbase_eq] at hcb
    split at hcb
    · cases hcb
    · exact (Option.some.inj hcb).symm

/-- The job sent on is alone in its slot, whatever the template thread is about to publish. -/
theorem unrivalled_at (hpublications : Publications c trace s.publishing) {job : Job}
    (hat : s.publishing.gateway.jobs.at? job.slot = some job)
    (hidle : s.publishing.sessionThread = .idle) : s.publishing.Unrivalled job := by
  intro _
  refine ⟨fun other hother hslot => hpublications.issued.jobs.eq_of_slot hat hother hslot, ?_⟩
  intro other hother
  rw [Publishing.sessionJob, hidle] at hother
  cases hother

/-- A job published before is gone once a share on another job of its slot is sent. -/
theorem gone_of_other (hpublications : Publications c trace s.publishing) {job old : Job}
    (hat : s.publishing.gateway.jobs.at? job.slot = some job) (hold : WasPublished trace old)
    (hunrivalled : s.publishing.Unrivalled old) (hslot : old.slot = job.slot) (hne : old ≠ job) :
    s.publishing.Gone old := by
  refine ⟨?_, ?_⟩
  · intro hinstalled
    exact hne (hpublications.issued.jobs.eq_of_slot hat hinstalled hslot)
  · intro htemplate
    rw [Publishing.templateJob, Option.bind_eq_some_iff] at htemplate
    obtain ⟨at_, hthread, hjob⟩ := htemplate
    cases at_ with
    | announcing other =>
        obtain rfl := Option.some.inj hjob
        exact hpublications.issued.announcing other hthread hold
    | publishing other =>
        obtain rfl := Option.some.inj hjob
        exact hne ((hunrivalled hthread).1 job (JobTable.mem_installed_of_at hat) hslot.symm).symm
    | _ => cases hjob

theorem sends (hsending : Sending trace log s) (hpublications : Publications c trace s.publishing)
    (hidle : s.publishing.sessionThread = .idle) {share : QueuedShare} {rest : List QueuedShare}
    (hbatch : s.batch = share :: rest) {submit : PowSubmit} {sentSections : SentTable}
    (hsent : SentOn s.publishing.gateway.jobs s.sentSections share submit sentSections)
    (toPool : List ShareMessage) :
    Sending trace (log ++ [⟨share, submit⟩]) { s with batch := rest, sentSections, toPool } := by
  have hshare : WasPublished trace share.job := hsending.batched share (hbatch ▸ List.mem_cons_self)
  have hat := at_slot hpublications hshare hsent
  have hmem {P : ShareMessage → Prop} (hlog : ∀ m ∈ log, P m) (hnew : P ⟨share, submit⟩) :
      ∀ m ∈ log ++ [⟨share, submit⟩], P m := by
    intro m hm
    rw [List.mem_append, List.mem_singleton] at hm
    obtain hm | rfl := hm
    · exact hlog m hm
    · exact hnew
  have hself : lastOn share.job.slot (log ++ [⟨share, submit⟩]) = some share.job :=
    lastOn_append_self log ⟨share, submit⟩
  refine
    { ordered := hsending.ordered.append (hsending.continues hat hsent)
      faithful := hmem hsending.faithful (faithful_of_sent hsent)
      published := hmem hsending.published hshare
      unrivalled := hmem hsending.unrivalled (unrivalled_at hpublications hat hidle)
      superseded := hmem ?_ fun hlast => absurd hself hlast
      recorded := ?_
      read := hsending.read
      queued := hsending.queued
      batched := fun other hother => hsending.batched other (hbatch ▸ List.mem_cons_of_mem _ hother) }
  · intro m hm hlast
    by_cases hslot : share.job.slot = m.share.job.slot
    · apply gone_of_other hpublications hat (hsending.published m hm) (hsending.unrivalled m hm) hslot.symm
      intro hjob
      rw [hjob] at hlast
      exact hlast hself
    · rw [lastOn_append_of_ne log hslot] at hlast
      exact hsending.superseded m hm hlast
  · intro slot
    dsimp only
    rw [hsent.sent_eq]
    obtain rfl | hslot := eq_or_ne slot share.job.slot
    · rw [Function.update_self]
      refine ⟨share.job, hself, by simp, by simp, hmem ?_ ?_⟩
      · intro m hm hjob
        rw [SentSections.after_coinbaseSent, (hsending.current_sent hat hm hjob).2, Bool.true_or]
      · intro _
        rw [SentSections.after_coinbaseSent, decide_eq_true rfl, Bool.or_true]
    · rw [Function.update_of_ne hslot]
      have hlast := lastOn_append_of_ne log (m := ⟨share, submit⟩) hslot.symm
      have hrecorded := hsending.recorded slot
      cases hrecord : s.sentSections slot with
      | none =>
          rw [hrecord] at hrecorded
          exact hlast.trans hrecorded
      | some record =>
          rw [hrecord] at hrecorded
          obtain ⟨job, hjob, hserial, hsection, hcoinbase⟩ := hrecorded
          refine ⟨job, hlast.trans hjob, hserial, hsection, hmem hcoinbase ?_⟩
          rintro rfl
          exact absurd (slot_of_lastOn hjob).symm hslot

end Sending

/-! ### What the pool holds -/

/-- While a job whose section was installed is the last of its slot among the messages verified, the slot
holds its section and the coinbase sections installed on it. -/
def Received (done : List (ShareMessage × Bool)) (v : Verifier) : Prop :=
  ∀ m, (m, true) ∈ done → m.submit.job.isSome →
    lastOn m.share.job.slot (done.map Prod.fst) = some m.share.job →
    ∃ coinbases, v.sections m.share.job.slot = some (m.share.job.jobSection, coinbases) ∧
      ∀ m', (m', true) ∈ done → m'.share.job = m.share.job → m'.submit.coinbase.isSome →
        coinbases.lookup m'.share.kind.wireId = some (m.share.job.coinbase m'.share.kind).section

theorem CoinbaseKind.wireId_inj {kind kind' : CoinbaseKind} (hid : kind.wireId = kind'.wireId) :
    kind = kind' := by
  cases kind <;> cases kind' <;> first | rfl | exact absurd hid (by decide)

theorem Received.of_sections {done : List (ShareMessage × Bool)} {v v' : Verifier}
    (hreceived : Received done v) (hsections : v'.sections = v.sections) : Received done v' := by
  rw [Received, hsections]
  exact hreceived

section Receiving

variable {done : List (ShareMessage × Bool)} {v : Verifier} {m : ShareMessage}

theorem map_fst_append (installs : Bool) :
    (done ++ [(m, installs)]).map Prod.fst = done.map Prod.fst ++ [m] := by
  rw [List.map_append]
  rfl

theorem Continues.unbroken_done (hcontinues : Continues (done.map Prod.fst) m) {m' : ShareMessage}
    {installs : Bool} (hm' : (m', installs) ∈ done) (hjob : m'.share.job = m.share.job) :
    lastOn m.share.job.slot (done.map Prod.fst) = some m.share.job :=
  hcontinues.unbroken m' (List.mem_map_of_mem (f := Prod.fst) hm') hjob

theorem Continues.job_none (hcontinues : Continues (done.map Prod.fst) m) {m' : ShareMessage}
    {installs : Bool} (hm' : (m', installs) ∈ done) (hjob : m'.share.job = m.share.job) :
    m.submit.job = none := by
  by_contra hsome
  have hfirst := hcontinues.job_first (Option.isSome_iff_ne_none.mpr hsome)
  exact hfirst m' (List.mem_map_of_mem (f := Prod.fst) hm') hjob

theorem Continues.coinbase_none (hcontinues : Continues (done.map Prod.fst) m) {m' : ShareMessage}
    {installs : Bool} (hm' : (m', installs) ∈ done) (hjob : m'.share.job = m.share.job)
    (hkind : m'.share.kind = m.share.kind) : m.submit.coinbase = none := by
  by_contra hsome
  have hfirst := hcontinues.coinbase_first (Option.isSome_iff_ne_none.mpr hsome)
  exact hfirst m' (List.mem_map_of_mem (f := Prod.fst) hm') hjob hkind

/-- A share whose sections are not installed changes nothing, and the log goes on. -/
theorem Received.refused (hreceived : Received done v) (hcontinues : Continues (done.map Prod.fst) m) :
    Received (done ++ [(m, false)]) v := by
  have hmem {m' : ShareMessage} (hm' : (m', true) ∈ done ++ [(m, false)]) : (m', true) ∈ done := by
    rw [List.mem_append, List.mem_singleton] at hm'
    obtain hm' | hm' := hm'
    · exact hm'
    · cases hm'
  intro m' hm' hcarries hlast
  have hbefore : lastOn m'.share.job.slot (done.map Prod.fst) = some m'.share.job := by
    rw [map_fst_append] at hlast
    by_cases hslot : m.share.job.slot = m'.share.job.slot
    · rw [← hslot, lastOn_append_self, Option.some.injEq] at hlast
      rw [← hlast]
      exact hcontinues.unbroken_done (hmem hm') hlast.symm
    · rwa [lastOn_append_of_ne _ hslot] at hlast
  obtain ⟨coinbases, hsections, hcoinbases⟩ := hreceived m' (hmem hm') hcarries hbefore
  exact ⟨coinbases, hsections, fun m'' hm'' => hcoinbases m'' (hmem hm'')⟩

/-- The coinbase a share carries is the one of its kind, under the id of the kind. -/
theorem lookup_withCoinbase (hfaithful : Faithful m)
    (hid : (m.share.job.coinbase m.share.kind).section.coinbaseId = m.share.kind.wireId) (st : JobState)
    (kind : CoinbaseKind) : (st.withCoinbase m.submit).coinbases.lookup kind.wireId =
      if m.submit.coinbase.isSome ∧ kind = m.share.kind then
        some (m.share.job.coinbase kind).section
      else st.coinbases.lookup kind.wireId := by
  rw [JobState.withCoinbase]
  cases hcb : m.submit.coinbase with
  | none =>
      rw [if_neg]
      rintro ⟨hsome, _⟩
      cases hsome
  | some cb =>
      obtain rfl := hfaithful.coinbase_eq cb hcb
      dsimp only
      rw [hid]
      by_cases hkind : kind = m.share.kind
      · rw [if_pos ⟨rfl, hkind⟩, hkind, AList.lookup_insert]
      · rw [if_neg fun h => hkind h.2, AList.lookup_insert_ne]
        exact fun h => hkind (CoinbaseKind.wireId_inj h)

/-- A share's sections installed are those of its job, with what was installed on it before. -/
theorem Received.installed (hreceived : Received done v) (hcontinues : Continues (done.map Prod.fst) m)
    (hfaithful : Faithful m)
    (hid : (m.share.job.coinbase m.share.kind).section.coinbaseId = m.share.kind.wireId)
    {rawPowHash : Hash} {now : Nat} {v' : Verifier}
    (hinstall : v.installSections m.submit rawPowHash now = .ok v') :
    Received (done ++ [(m, true)]) v' := by
  have hslots : v'.sections = Function.update v.sections m.share.job.slot
      ((v.installedIn m.submit now).map fun st => (st.job, st.coinbases)) := by
    rw [Verifier.sections_installSections hinstall, hfaithful.jobId_eq]
  intro m' hm' hcarries hlast
  rw [map_fst_append] at hlast
  rw [hslots]
  rw [List.mem_append, List.mem_singleton] at hm'
  by_cases hslot : m.share.job.slot = m'.share.job.slot
  · rw [← hslot, lastOn_append_self, Option.some.injEq] at hlast
    -- The state the coinbase is added to holds the job's section and what was installed on it before.
    have hstate : ∃ st : JobState, v.installedIn m.submit now = some (st.withCoinbase m.submit) ∧
        st.job = m.share.job.jobSection ∧
        ∀ m'', (m'', true) ∈ done → m''.share.job = m.share.job → m''.submit.coinbase.isSome →
          st.coinbases.lookup m''.share.kind.wireId =
            some (m.share.job.coinbase m''.share.kind).section := by
      obtain hbefore | hnew := hm'
      · have hnone := hcontinues.job_none hbefore hlast.symm
        have hknown : v.bringsNewJob m.submit = false := by rw [Verifier.bringsNewJob, hnone]; rfl
        obtain ⟨coinbases, hsections, hcoinbases⟩ := hreceived m' hbefore hcarries
          (hlast ▸ hcontinues.unbroken_done hbefore hlast.symm)
        obtain ⟨st, hst, heq⟩ := Option.map_eq_some_iff.mp hsections
        obtain ⟨hjob, rfl⟩ := Prod.mk.inj heq
        rw [← hlast] at hst hjob hcoinbases
        refine ⟨st, ?_, hjob, hcoinbases⟩
        rw [Verifier.installedIn_known hknown, hfaithful.jobId_eq, hst]
        rfl
      · obtain ⟨rfl, -⟩ := Prod.mk.inj hnew
        obtain ⟨job, hjob⟩ := Option.isSome_iff_exists.mp hcarries
        obtain rfl := hfaithful.job_eq job hjob
        have hfirst : ∀ m'', (m'', true) ∈ done → m''.share.job ≠ m'.share.job := by
          intro m'' hm'' heq
          rw [hcontinues.job_none hm'' heq] at hjob
          cases hjob
        cases hbrings : v.bringsNewJob m'.submit with
        | true =>
            refine ⟨_, Verifier.installedIn_new hjob hbrings now, rfl, ?_⟩
            exact fun m'' hm'' heq => absurd heq (hfirst m'' hm'')
        | false =>
            rw [Verifier.bringsNewJob, hjob, Option.any_some] at hbrings
            cases hst : v.jobs m'.submit.jobId with
            | none =>
                rw [hst] at hbrings
                cases hbrings
            | some st =>
                rw [hst, Option.all_some, decide_eq_false_iff_not, not_not] at hbrings
                refine ⟨st, ?_, hbrings, fun m'' hm'' heq => absurd heq (hfirst m'' hm'')⟩
                rw [Verifier.installedIn_known, hst]
                · rfl
                · rw [Verifier.bringsNewJob, hjob, hst]
                  simpa using hbrings
    obtain ⟨st, hinstalled, hjob, hcoinbases⟩ := hstate
    rw [← hslot, Function.update_self, hinstalled, ← hlast]
    refine ⟨_, by rw [Option.map_some, JobState.withCoinbase_job, hjob], ?_⟩
    intro m'' hm'' hsame hsome
    rw [lookup_withCoinbase hfaithful hid]
    split
    · rfl
    · rename_i hother
      rw [List.mem_append, List.mem_singleton] at hm''
      obtain hm'' | hm'' := hm''
      · exact hcoinbases m'' hm'' hsame hsome
      · obtain ⟨rfl, -⟩ := Prod.mk.inj hm''
        exact absurd ⟨hsome, rfl⟩ hother
  · have hbefore : (m', true) ∈ done := by
      obtain hm' | hm' := hm'
      · exact hm'
      · obtain ⟨rfl, -⟩ := Prod.mk.inj hm'
        exact absurd rfl hslot
    rw [lastOn_append_of_ne _ hslot] at hlast
    obtain ⟨coinbases, hsections, hcoinbases⟩ := hreceived m' hbefore hcarries hlast
    refine ⟨coinbases, by rwa [Function.update_of_ne (Ne.symm hslot)], ?_⟩
    intro m'' hm'' hsame
    rw [List.mem_append, List.mem_singleton] at hm''
    obtain hm'' | hm'' := hm''
    · exact hcoinbases m'' hm'' hsame
    · obtain ⟨rfl, -⟩ := Prod.mk.inj hm''
      exact absurd (congrArg Job.slot hsame) hslot

end Receiving

/-! ### Every run -/

/-- What holds on a connection after every run. -/
structure Connected (c : JobConfig) (trace : List PoolEvent) (s : PoolConnection) : Prop where
  publications : Publications c (publishEvents trace) s.publishing
  sending : Sending (publishEvents trace) (sentMessages trace) s
  fifo : (verifiedMessages trace).map Prod.fst ++ s.toPool = sentMessages trace
  received : Received (verifiedMessages trace) s.verifier

section Runs

variable {H : Hashing} {c : JobConfig} {protocolV3 : Bool} {xorKeyHash : XorKey → Hash} {d : DatumConfig}
  {poolAddress : String} {policy : SharePolicy} {trace : List PoolEvent} {s s' : PoolConnection}
  {event : PoolEvent}

/-- The jobs published do not change, and the shares queued are on published jobs. -/
theorem Sending.keep {trace : List PublishEvent} {log : List ShareMessage} (hsending : Sending trace log s)
    (hpublishing : s'.publishing = s.publishing) (hsections : s'.sentSections = s.sentSections)
    (hread : ∀ job ∈ s'.read, WasPublished trace job)
    (hqueued : ∀ share ∈ s'.queue.queue, WasPublished trace share.job)
    (hbatched : ∀ share ∈ s'.batch, WasPublished trace share.job) : Sending trace log s' where
  ordered := hsending.ordered
  faithful := hsending.faithful
  published := hsending.published
  unrivalled := hpublishing ▸ hsending.unrivalled
  superseded := hpublishing ▸ hsending.superseded
  recorded := hsections ▸ hsending.recorded
  read := hread
  queued := hqueued
  batched := hbatched

theorem Connected.quiet (hconnected : Connected c trace s) (hpublishing : s'.publishing = s.publishing)
    (hsending : Sending (publishEvents trace) (sentMessages trace) s') (htoPool : s'.toPool = s.toPool)
    (hsections : s'.verifier.sections = s.verifier.sections) : Connected c (trace ++ [.quiet]) s' := by
  refine ⟨?_, ?_, ?_, ?_⟩
  · rw [publishEvents_append, hpublishing]
    exact (List.append_nil _).symm ▸ hconnected.publications
  · rw [publishEvents_append, sentMessages_append]
    exact (List.append_nil _).symm ▸ hsending
  · rw [verifiedMessages_append, sentMessages_append, htoPool]
    exact hconnected.fifo
  · rw [verifiedMessages_append]
    exact hconnected.received.of_sections hsections

theorem Connected.verifies (hconnected : Connected c trace s) {m : ShareMessage} {rest : List ShareMessage}
    (hhead : s.toPool = m :: rest) (abw : Option AbwSlotState) (now : Nat) :
    Received (verifiedMessages trace ++ [(m, s.verifier.installs H m.submit abw now)])
      (s.verifier.verify H m.submit abw now).2 := by
  have hfifo := hconnected.fifo
  rw [hhead] at hfifo
  have hcontinues := hconnected.sending.ordered _ _ _ hfifo.symm
  have hmem : m ∈ sentMessages trace := by
    rw [← hfifo]
    exact List.mem_append_right _ List.mem_cons_self
  have hbuilt := hconnected.publications.issued.jobs.published_built _ (hconnected.sending.published m hmem)
  cases hinstalls : s.verifier.installs H m.submit abw now with
  | false =>
      rw [Verifier.verify_not_installs hinstalls]
      exact hconnected.received.refused hcontinues
  | true =>
      obtain ⟨rawPowHash, hinstall⟩ := Verifier.verify_installs hinstalls
      exact hconnected.received.installed hcontinues (hconnected.sending.faithful m hmem)
        ((hconnected.publications.wellBuilt _ hbuilt).coinbaseId_eq _) hinstall

theorem Connected.step (hconnected : Connected c trace s)
    (hslots : 3 ≤ c.protocolJobSlots ∧ c.protocolJobSlots ≤ 256)
    (hstep : PoolStep H c protocolV3 xorKeyHash d poolAddress policy s event s') :
    Connected c (trace ++ [event]) s' := by
  have hsending := hconnected.sending
  cases hstep with
  | @gateway event p hevent hstep =>
      have hlog : sentMessages (trace ++ [.gateway event]) = sentMessages trace ∧
          verifiedMessages (trace ++ [.gateway event]) = verifiedMessages trace := by
        rw [sentMessages_append, verifiedMessages_append]
        cases event <;> first | exact ⟨rfl, rfl⟩ | exact absurd rfl hevent
      refine ⟨?_, ?_, ?_, ?_⟩
      · rw [publishEvents_append]
        exact hconnected.publications.step hstep
      · rw [publishEvents_append, hlog.1]
        exact hsending.publishes hconnected.publications hslots hstep
      · rw [hlog.1, hlog.2]
        exact hconnected.fifo
      · rw [hlog.2]
        exact hconnected.received
  | reconnect splits hstep =>
      refine ⟨?_, ?_, ?_, ?_⟩
      · rw [publishEvents_append]
        exact hconnected.publications.step hstep
      · rw [publishEvents_append, sentMessages_append]
        exact (hsending.publishes hconnected.publications hslots hstep).reconnects _ _
      · rw [sentMessages_append, verifiedMessages_append]
        rfl
      · rw [verifiedMessages_append]
        exact fun m hm => absurd hm List.not_mem_nil
  | @read slot job hat =>
      refine hconnected.quiet rfl (hsending.keep rfl rfl ?_ hsending.queued hsending.batched) rfl rfl
      intro other hother
      obtain rfl | hother := List.mem_cons.mp hother
      · exact hconnected.publications.issued.jobs.installed other (JobTable.mem_installed_of_at hat)
      · exact hsending.read other hother
  | @queueShare share hread =>
      refine hconnected.quiet rfl (hsending.keep rfl rfl hsending.read ?_ hsending.batched) rfl rfl
      intro other hother
      obtain rfl | hother := ShareQueue.mem_queueShare hother
      · exact hsending.read _ hread
      · exact hsending.queued other hother
  | takeQueued hidle hdone hready =>
      refine hconnected.quiet rfl (hsending.keep rfl rfl hsending.read ?_ hsending.queued) rfl rfl
      exact fun share hshare => absurd hshare List.not_mem_nil
  | send hidle hbatch hsend =>
      refine ⟨?_, ?_, ?_, ?_⟩
      · rw [publishEvents_append]
        exact (List.append_nil _).symm ▸ hconnected.publications
      · rw [publishEvents_append, sentMessages_append]
        exact (List.append_nil _).symm ▸
          hsending.sends hconnected.publications hidle hbatch (sendShare_eq_some hsend) _
      · rw [sentMessages_append, verifiedMessages_append, logSent, ← hconnected.fifo, List.append_assoc]
        rfl
      · rw [verifiedMessages_append]
        exact hconnected.received
  | withhold hidle hbatch hsend =>
      refine hconnected.quiet rfl (hsending.keep rfl (sendShare_eq_none hsend) hsending.read hsending.queued ?_)
        rfl rfl
      exact fun share hshare => hsending.batched share (hbatch ▸ List.mem_cons_of_mem _ hshare)
  | verify abw now hhead =>
      refine ⟨?_, ?_, ?_, ?_⟩
      · rw [publishEvents_append]
        exact (List.append_nil _).symm ▸ hconnected.publications
      · rw [publishEvents_append, sentMessages_append]
        exact (List.append_nil _).symm ▸ hsending.keep rfl rfl hsending.read hsending.queued hsending.batched
      · rw [verifiedMessages_append, sentMessages_append]
        show (verifiedMessages trace ++ [(_, _)]).map Prod.fst ++ _ = sentMessages trace
        rw [map_fst_append, List.append_assoc, List.singleton_append, ← hhead]
        exact hconnected.fifo
      · rw [verifiedMessages_append]
        exact hconnected.verifies hhead abw now
  | setTip tip now =>
      exact hconnected.quiet rfl (hsending.keep rfl rfl hsending.read hsending.queued hsending.batched) rfl
        (Verifier.sections_setTip tip now)
  | setTemplate next =>
      exact hconnected.quiet rfl (hsending.keep rfl rfl hsending.read hsending.queued hsending.batched) rfl rfl
  | dictate splits =>
      exact hconnected.quiet rfl (hsending.keep rfl rfl hsending.read hsending.queued hsending.batched) rfl rfl

theorem Connected.start {slots : Nat} {keep : Duration}
    (hinit : (poolConnection H c protocolV3 xorKeyHash d poolAddress policy slots keep).init s) :
    Connected c [] s := by
  obtain ⟨hpublishing, hread, hqueue, hbatch, hsections, htoPool, splits, hverifier⟩ := hinit
  refine ⟨?_, ?_, ?_, ?_⟩
  · rw [hpublishing]
    exact Publications.start slots keep
  · exact
      { ordered := ordered_nil
        faithful := fun _ hm => absurd hm List.not_mem_nil
        published := fun _ hm => absurd hm List.not_mem_nil
        unrivalled := fun _ hm => absurd hm List.not_mem_nil
        superseded := fun _ hm => absurd hm List.not_mem_nil
        recorded := fun slot => by rw [hsections]; rfl
        read := fun _ hjob => absurd (hread ▸ hjob) List.not_mem_nil
        queued := fun _ hshare => absurd (hqueue ▸ hshare) List.not_mem_nil
        batched := fun _ hshare => absurd (hbatch ▸ hshare) List.not_mem_nil }
  · rw [htoPool]
    rfl
  · exact fun m hm => absurd hm List.not_mem_nil

end Runs

/-- **Sections sent once suffice.** A share reaching the pool after its job's section and its coinbase's
were installed resolves to them, whatever was reused, evicted or refused in between: it is not refused for
a missing section, and it is rebuilt on no other. -/
theorem sections_suffice {H : Hashing} {c : JobConfig} {protocolV3 : Bool} {xorKeyHash : XorKey → Hash}
    {d : DatumConfig} {poolAddress : String} {policy : SharePolicy} {slots : Nat} {keep : Duration}
    {shareStaleSeconds workUpdateSeconds : Nat}
    (haccepts : c.acceptsSlots shareStaleSeconds workUpdateSeconds = true) {trace : List PoolEvent}
    {s : PoolConnection}
    (hrun : (poolConnection H c protocolV3 xorKeyHash d poolAddress policy slots keep).Run trace s)
    {m : ShareMessage} {rest : List ShareMessage} (hhead : s.toPool = m :: rest)
    (hjob : JobInstalled trace m.share.job)
    (hcoinbase : CoinbaseInstalled trace m.share.job m.share.kind) :
    s.verifier.resolve m.submit =
        .ok (m.share.job.jobSection, (m.share.job.coinbase m.share.kind).section) ∧
      ∀ abw now, Verifier.RebuiltOn H s.verifier m.submit m.share.job.jobSection
        (m.share.job.coinbase m.share.kind).section (s.verifier.verify H m.submit abw now).1 := by
  have hconnected : Connected c trace s :=
    hrun.invariant (I := Connected c) (fun _ => Connected.start)
      fun _ _ _ _ hconnected => hconnected.step (JobConfig.slots_of_accepts haccepts)
  have hresolve : s.verifier.resolve m.submit =
      .ok (m.share.job.jobSection, (m.share.job.coinbase m.share.kind).section) := by
    have hfifo := hconnected.fifo
    rw [hhead] at hfifo
    have hcontinues := hconnected.sending.ordered _ _ _ hfifo.symm
    have hmem : m ∈ sentMessages trace := by
      rw [← hfifo]
      exact List.mem_append_right _ List.mem_cons_self
    have hfaithful := hconnected.sending.faithful m hmem
    obtain ⟨first, hfirst, hsame, hcarries⟩ := hjob
    obtain ⟨other, hother, hsame', hkind, hcarries'⟩ := hcoinbase
    have hlast := hcontinues.unbroken_done hfirst hsame
    rw [← hsame] at hlast
    obtain ⟨coinbases, hsections, hcoinbases⟩ := hconnected.received first hfirst hcarries hlast
    have hlookup := hcoinbases other hother (hsame'.trans hsame.symm) hcarries'
    rw [hkind, hsame] at hlookup
    rw [hsame] at hsections
    obtain ⟨st, hst, heq⟩ := Option.map_eq_some_iff.mp hsections
    obtain ⟨hsection, rfl⟩ := Prod.mk.inj heq
    have hnoJob := hcontinues.job_none hfirst hsame
    have hnoCoinbase := hcontinues.coinbase_none hother hsame' hkind
    have hknown : s.verifier.bringsNewJob m.submit = false := by rw [Verifier.bringsNewJob, hnoJob]; rfl
    rw [Verifier.resolve, Verifier.resolveJob, Verifier.resolveCoinbase, hknown, hnoJob, hnoCoinbase,
      hfaithful.jobId_eq, hfaithful.coinbaseId_eq, hst]
    simp only [Option.filter_none, Option.filter_some, Bool.not_false, if_true, Option.bind_some, hlookup]
    rw [hsection]
    rfl
  exact ⟨hresolve, fun abw now => Verifier.verify_rebuiltOn hresolve⟩

/-! ### A section sent and installed -/

def taggedPool : ClientConfig where
  payoutScript := [0x51]
  primeId := 1
  coinbaseTag := "P"
  minDifficulty := 1
  v3 := none

def taggedInputs : JobInputs where
  serial := 0
  template := emptyTemplate zeroHash
  poolConfig := some taggedPool
  coinbaser := none
  abw := none

def zeroShare (job : Job) : QueuedShare where
  job
  notifyPrefix := .plain
  isBlock := false
  targetByte := 0
  header := .zero
  username := ""

def fullUsers : DatumConfig := ⟨true, true⟩

theorem exists_build_tagged : ∃ job, build constantHashing untaggedConfig taggedInputs 0 0 = .ok job := by
  apply exists_build
  · exact List.cons_ne_nil _ _
  · show 1 ≤ 83
    decide
  · show (ScriptSigInputs.scriptSig ⟨1, "P", "", 0, 1, false, true⟩).isSome = true
    decide +kernel
  · exact Nat.zero_le _
  · show (bitsToTarget 0x1d00ffff).isSome
    decide

/-- The first share on the job has its sections installed. -/
theorem zeroShare_installs {job : Job}
    (hbuild : build constantHashing untaggedConfig taggedInputs 0 0 = .ok job) :
    (Verifier.new ⟨taggedPool, none⟩).installs constantHashing
      (powSubmit (zeroShare job) (Vector.replicate _ 0) (forWire fullUsers "" "") (some job.jobSection)
        (some job.pooledCoinbase.section)) none 0 = true := by
  have hinstalls : (build constantHashing untaggedConfig taggedInputs 0 0).toOption.all (fun job =>
      (Verifier.new ⟨taggedPool, none⟩).installs constantHashing
        (powSubmit (zeroShare job) (Vector.replicate _ 0) (forWire fullUsers "" "") (some job.jobSection)
          (some job.pooledCoinbase.section)) none 0) = true := by
    decide +kernel
  rwa [hbuild] at hinstalls

theorem run_publishes {H : Hashing} {c : JobConfig} {protocolV3 : Bool} {xorKeyHash : XorKey → Hash}
    {d : DatumConfig} {poolAddress : String} {policy : SharePolicy} {slots : Nat} {keep : Duration}
    {trace : List PoolEvent} {s : PoolConnection} {event : PublishEvent} {p : Publishing}
    (hrun : (poolConnection H c protocolV3 xorKeyHash d poolAddress policy slots keep).Run trace s)
    (hstep : PublishStep H c protocolV3 xorKeyHash s.publishing event p) (hevent : event ≠ .disconnected) :
    (poolConnection H c protocolV3 xorKeyHash d poolAddress policy slots keep).Run
      (trace ++ [.gateway event]) { s with publishing := p } :=
  hrun.next (.gateway hevent hstep)

/-- The sections of a job are installed, and a share on it is in flight. -/
theorem sections_suffice_once : ∃ (trace : List PoolEvent) (s : PoolConnection) (m : ShareMessage),
    (poolConnection constantHashing untaggedConfig false (fun _ => zeroHash) fullUsers ""
      ⟨taggedPool, none⟩ 8 0).Run trace s ∧
    s.toPool = [m] ∧ JobInstalled trace m.share.job ∧
    CoinbaseInstalled trace m.share.job m.share.kind ∧
    s.verifier.resolve m.submit =
      .ok (m.share.job.jobSection, (m.share.job.coinbase m.share.kind).section) := by
  obtain ⟨job, hbuild⟩ := exists_build_tagged
  have hfrom := build_eq_ok hbuild
  have hslot : job.slot = 0 := by
    rw [(build_wellBuilt hbuild).slot_eq, hfrom.serial_eq]
    rfl
  have htip : ((JobTable.new 8 0).setTip zeroHash).tip = some job.template.prevHash := by
    rw [hfrom.template_eq]
    rfl
  obtain ⟨announced, hannounce⟩ := JobTable.publish_of_tip htip 0 .subsidyOnly
  have htip' : announced.tip = some job.template.prevHash :=
    (JobTable.publish_eq_true hannounce).tip_eq.trans htip
  obtain ⟨published, hpublish⟩ := JobTable.publish_of_tip htip' 0 .pooled
  have hroom : job.slot.toNat < ((JobTable.new 8 0).setTip zeroHash).slots.length := by
    rw [hslot]
    decide
  have hroom' : job.slot.toNat < announced.slots.length := by
    rwa [(JobTable.at?_of_publish hannounce hroom).2]
  have hat : published.at? job.slot = some job := (JobTable.at?_of_publish hpublish hroom').1
  have hrun : (poolConnection constantHashing untaggedConfig false (fun _ => zeroHash) fullUsers ""
      ⟨taggedPool, none⟩ 8 0).Run [] ⟨.start 8 0, [], .new 64, [], fun _ => none, [],
        { Verifier.new ⟨taggedPool, none⟩ with splits := .empty }⟩ :=
    .start ⟨rfl, rfl, rfl, rfl, rfl, rfl, _, rfl⟩
  have hconfigures := run_publishes hrun (.configure taggedPool rfl) nofun
  have hfetches := run_publishes hconfigures (.fetch rfl) nofun
  have htemplates := run_publishes hfetches (.onTemplate (emptyTemplate zeroHash) true rfl) nofun
  have hcommits := run_publishes htemplates (.templateServes ⟨0, 0⟩ rfl rfl) nofun
  have hbuilds := run_publishes hcommits (.templateServes ⟨0, 0⟩ rfl (Gateway.serve_committing hbuild)) nofun
  have hannounces := run_publishes hbuilds
    (.templateServes ⟨0, 0⟩ rfl (Gateway.publish_eq hannounce _)) nofun
  have hpublishes := run_publishes hannounces
    (.templateServes ⟨0, 0⟩ rfl (Gateway.publish_eq hpublish none)) nofun
  have hreads := hpublishes.next (.read hat)
  have hextranonce : shareExtranonce (zeroShare job).header.extranonce = some (Vector.replicate _ 0) := by
    show shareExtranonce BlockHeaderV2.zero.extranonce = _
    decide +kernel
  have hshare : (zeroShare job).job ∈ [job] := List.mem_singleton_self job
  have hqueues := hreads.next (.queueShare hshare)
  have htakes := hqueues.next (.takeQueued rfl rfl nofun)
  have hsends := htakes.next (.send rfl rfl (sendShare_of_held hat hfrom.abw_eq hextranonce))
  have hverifies := hsends.next (.verify none 0 rfl)
  have hqueues' := hverifies.next (.queueShare hshare)
  have htakes' := hqueues'.next (.takeQueued rfl rfl nofun)
  have hsends' := htakes'.next (.send rfl rfl (sendShare_of_held hat hfrom.abw_eq hextranonce))
  have hinstalls := zeroShare_installs hbuild
  have haccepts : untaggedConfig.acceptsSlots 60 60 = true := by decide
  refine ⟨_, _, _, hsends', rfl, ?_⟩
  suffices hinstalled : JobInstalled _ job ∧ CoinbaseInstalled _ job .pooled from
    ⟨hinstalled.1, hinstalled.2, (sections_suffice haccepts hsends' rfl hinstalled.1 hinstalled.2).1⟩
  exact ⟨⟨_, List.mem_singleton.mpr (Prod.ext rfl hinstalls.symm), rfl, rfl⟩,
    ⟨_, List.mem_singleton.mpr (Prod.ext rfl hinstalls.symm), rfl, rfl, rfl⟩⟩

end Ratum
