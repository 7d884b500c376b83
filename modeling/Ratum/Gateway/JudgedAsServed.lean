import Ratum.Base.Lts
import Ratum.Gateway.Builder
import Ratum.Gateway.OneDifficulty
import Ratum.Gateway.ServedTip
import Ratum.Gateway.StratumConnection
import Ratum.Gateway.SubmittedOnce

/-!
# Work is judged by the last notify of its kind

A submission names a notify by its id, which does not carry the difficulty: that is the slot's, or the
connection's for a quickdiff. Over every order of publications, notifies and submissions, the difficulty looked up
is the one of the last notify of the slot, or of the last quickdiff.
-/

namespace Ratum

/-- Whether a later submission of the id is judged at the notify's difficulty, until another does. -/
def SentNotify.serves (n : SentNotify) (id : NotifyId) : Bool :=
  if id.notifyPrefix = .quickdiff then n.notifyPrefix = .quickdiff
  else n.notifyPrefix ≠ .quickdiff && n.job.slot = id.slot

/-- The notify a submission of the id is judged by. -/
def lastServed (sent : List SentNotify) (id : NotifyId) : Option SentNotify :=
  (sent.filter fun n => n.serves id).getLast?

theorem lastServed_append (sent : List SentNotify) (n : SentNotify) (id : NotifyId) :
    lastServed (sent ++ [n]) id = if n.serves id then some n else lastServed sent id := by
  rw [lastServed, lastServed, List.filter_append]
  cases hserves : n.serves id <;> simp [hserves]

theorem mem_of_lastServed {sent : List SentNotify} {n : SentNotify} {id : NotifyId}
    (hlast : lastServed sent id = some n) : n ∈ sent :=
  (List.mem_filter.mp (List.mem_of_getLast? hlast)).1

/-- A notify sent serves its own id, so a notify of the id was sent last. -/
theorem exists_lastServed {sent : List SentNotify} {n : SentNotify} (hn : n ∈ sent) :
    ∃ m, lastServed sent ⟨n.job.slot, n.notifyPrefix⟩ = some m := by
  have hserves : n.serves ⟨n.job.slot, n.notifyPrefix⟩ = true := by
    unfold SentNotify.serves
    split
    · rename_i hquickdiff
      exact decide_eq_true hquickdiff
    · rename_i hquickdiff
      simp [hquickdiff]
  have hmem : n ∈ sent.filter fun m => m.serves ⟨n.job.slot, n.notifyPrefix⟩ := List.mem_filter.mpr ⟨hn, hserves⟩
  exact ⟨_, List.getLast?_eq_some_getLast (List.ne_nil_of_mem hmem)⟩

/-! ### What the difficulty keeps -/

namespace Vardiff

variable {v v' : Vardiff} {now : Instant}

theorem Adjusts.quickdiffValue (h : Adjusts v v') : v'.quickdiffValue = v.quickdiffValue := by
  cases h <;> rfl

theorem announced_spec (v : Vardiff) (floor : UInt64) (quickdiff : Bool) :
    (v.announced floor quickdiff).2.quickdiffValue =
      if quickdiff then (v.announced floor quickdiff).1.diff else v.quickdiffValue := by
  unfold announced
  dsimp only
  split <;> split <;> rfl

theorem onNotify_quickdiffValue {floor : UInt64} {quickdiff : Bool} {sent : NotifyDifficulty}
    (hok : v.onNotify floor quickdiff now = some (sent, v')) :
    v'.quickdiffValue = if quickdiff then sent.diff else v.quickdiffValue := by
  obtain ⟨adjusted, hadjusts, -, hannounced⟩ := onNotify_cases hok
  have hspec := adjusted.announced_spec floor quickdiff
  rw [← hannounced, hadjusts.quickdiffValue] at hspec
  exact hspec

/-- A quickdiff is of no difficulty that is zero. -/
theorem onNotify_quickdiff_ne_zero {floor : UInt64} {sent : NotifyDifficulty} (hne : v.current ≠ 0)
    (hok : v.onNotify floor true now = some (sent, v')) : sent.diff ≠ 0 := by
  have heq : v.announced floor true = (sent, v') := Option.some.inj hok
  rw [announced_eq hne] at heq
  obtain ⟨rfl, -⟩ := Prod.mk.inj heq
  intro hzero
  have hmax : (max v.current floor).toNat = 0 := congrArg UInt64.toNat hzero
  rw [UInt64.toNat_max] at hmax
  exact hne (UInt64.toNat_inj.mp (by rw [UInt64.toNat_zero]; omega))

theorem onShareAccepted_spec {raised : Bool} (hok : v.onShareAccepted now = some (raised, v')) :
    v'.quickdiffValue = v.quickdiffValue ∧ (raised = true → v'.current ≠ 0) := by
  obtain ⟨raised', v'', hshare, hshares⟩ := adjustOnShare_sharesTo
    { v with sharesSinceSnapshot := v.sharesSinceSnapshot + 1 } now
  rw [onShareAccepted, hshare] at hok
  obtain ⟨rfl, rfl⟩ := Prod.mk.inj (Option.some.inj hok)
  cases hshares with
  | adjusted hadjusts hpending => exact ⟨hadjusts.quickdiffValue, fun h => by cases h⟩
  | raised raw now hsettled hactive hcount =>
      refine ⟨rfl, fun _ hzero => ?_⟩
      have hmax := congrArg UInt64.toNat hzero
      change (max (max (pow2Floor raw) 1) (v.current <<< MIN_QUICKDIFF_SHIFT)).toNat = 0 at hmax
      rw [UInt64.toNat_max, UInt64.toNat_max, UInt64.toNat_one] at hmax
      omega

end Vardiff

/-! ### What a notify sends and records -/

/-- What the builder decides of a job that its notifies and submissions rest on. -/
structure Job.Wired (H : Hashing) (job : Job) : Prop where
  id : ∃ createdAt, job.stratumJobId = Ratum.stratumJobId createdAt job.slot
  hidden : job.prevblockHidden = H.prevblockHidden job.jobSection.prevHash

theorem build_wired {H : Hashing} {c : JobConfig} {j : JobInputs} {unixNow : Nat} {now : Instant} {job : Job}
    (hbuild : build H c j unixNow now = .ok job) : job.Wired H := by
  simp only [build] at hbuild
  split at hbuild
  · cases hbuild
  split at hbuild
  · split at hbuild
    · cases hbuild
    split at hbuild
    · obtain rfl := Except.ok.inj hbuild
      exact ⟨⟨_, rfl⟩, rfl⟩
    · cases hbuild
  · cases hbuild

/-- The line of a notify is made of its job, its prefix and its target byte. -/
structure SentNotify.Made (H : Hashing) (n : SentNotify) : Prop where
  wired : n.job.Wired H
  id : n.line.id = n.notifyPrefix.notifyId n.job
  work : n.job.notifiedWork H n.notifyPrefix.coinbase n.targetByte = some n.line.work
  nbits : n.line.nbits = shareNbits n.targetByte

namespace StratumConnection

variable {H : Hashing} {conn conn' : StratumConnection} {config : Option ClientConfig} {now : Instant} {job : Job}
  {notifyPrefix : NotifyPrefix} {clean : Bool} {n : SentNotify} {id : NotifyId}

/-- What a notify records of the difficulty it was sent at. -/
structure Records (conn : StratumConnection) (n : SentNotify) (conn' : StratumConnection) : Prop where
  sid : conn'.sid = conn.sid
  quickdiffValue : conn'.vardiff.quickdiffValue =
    if n.notifyPrefix = .quickdiff then n.diff else conn.vardiff.quickdiffValue
  jobDiffs : ∀ slot, conn'.jobDiffs slot =
    if n.notifyPrefix ≠ .quickdiff ∧ slot = n.job.slot then some n.diff else conn.jobDiffs slot

theorem notify_spec (hwired : job.Wired H)
    (hnotify : conn.notify H config now job notifyPrefix clean = some (n, conn')) :
    n.Made H ∧ n.job = job ∧ n.notifyPrefix = notifyPrefix ∧ conn.Records n conn' ∧
      (notifyPrefix = .quickdiff → conn.vardiff.current ≠ 0 → n.diff ≠ 0) := by
  rw [notify] at hnotify
  obtain ⟨⟨⟨announce, diff⟩, vardiff⟩, hvardiff, hnotify⟩ := Option.bind_eq_some_iff.mp hnotify
  obtain ⟨work, hwork, hnotify⟩ := Option.bind_eq_some_iff.mp hnotify
  obtain ⟨rfl, rfl⟩ := Prod.mk.inj (Option.some.inj hnotify)
  have hvalue := Vardiff.onNotify_quickdiffValue hvardiff
  refine ⟨⟨hwired, rfl, hwork, ?_⟩, rfl, rfl, ⟨rfl, ?_, fun slot => ?_⟩, fun hquickdiff hne => ?_⟩
  · rw [SentNotify.targetByte]
  · simpa only [decide_eq_true_eq] using hvalue
  · by_cases hquickdiff : notifyPrefix = .quickdiff <;> simp [hquickdiff]
  · subst hquickdiff
    exact Vardiff.onNotify_quickdiff_ne_zero hne hvardiff

theorem Records.servedDiff (h : conn.Records n conn') (hpositive : n.notifyPrefix = .quickdiff → n.diff ≠ 0) :
    conn'.servedDiff id = if n.serves id then some n.diff else conn.servedDiff id := by
  unfold StratumConnection.servedDiff SentNotify.serves
  by_cases hid : id.notifyPrefix = .quickdiff
  · rw [if_pos hid, if_pos hid, if_pos hid, h.quickdiffValue]
    by_cases hn : n.notifyPrefix = .quickdiff
    · have hlt : 0 < n.diff := UInt64.pos_iff_ne_zero.mpr (hpositive hn)
      simp [hn, Option.filter, hlt]
    · simp [hn]
  · rw [if_neg hid, if_neg hid, if_neg hid, h.jobDiffs]
    simp only [ne_eq, decide_not, Bool.and_eq_true, Bool.not_eq_true', decide_eq_false_iff_not, decide_eq_true_eq,
      eq_comm (a := id.slot)]

end StratumConnection

/-! ### Every run -/

/-- A stratum connection, the job table, and the notifies sent, oldest first. -/
structure StratumSystem where
  conn : StratumConnection
  jobs : JobTable
  sent : List SentNotify

inductive StratumEvent
  | table
  | subscribe
  | serve
  | submit (params : SubmitParams) (answer : Except StratumError Unit)

section Runs

variable {F : Type} (H : Hashing) (c : JobConfig) (ops : FloatOps F) (decoding : AddressDecoding)
  (cfg : ShareConfig F)

/-- The job table is the whole gateway's: jobs are published and go stale at any time. What the submissions of
every connection share is any, and so is the configuration the pool last sent. -/
inductive StratumStep (s : StratumSystem) : StratumEvent → StratumSystem → Prop
  | setTip (prevHash : Hash) : StratumStep s .table { s with jobs := s.jobs.setTip prevHash }
  | markStaleOff (prevHash : Hash) : StratumStep s .table { s with jobs := s.jobs.markStaleOff prevHash }
  | publish {inputs : JobInputs} {unixNow : Nat} {createdAt now : Instant} {job : Job} {kind : CoinbaseKind}
      (hbuild : build H c inputs unixNow createdAt = .ok job) :
      StratumStep s .table { s with jobs := (s.jobs.publish now job kind).2 }
  | subscribe {config : Option ClientConfig} {now : Instant} {difficulty : Option UInt64} {sent : Option SentNotify}
      {conn : StratumConnection} (hok : s.conn.onSubscribe H s.jobs config now = some (difficulty, sent, conn)) :
      StratumStep s .subscribe { s with conn, sent := s.sent ++ sent.toList }
  | serve {config : Option ClientConfig} {now : Instant} {sent : Option SentNotify} {conn : StratumConnection}
      (hok : s.conn.sendDue H s.jobs config now = some (sent, conn)) :
      StratumStep s .serve { s with conn, sent := s.sent ++ sent.toList }
  | submit {config : Option ClientConfig} {now : Instant} {submits submits' : SubmitState} {params : SubmitParams}
      {answer : Except StratumError Unit} {sent : Option SentNotify} {conn : StratumConnection}
      (hok : s.conn.onSubmit H ops decoding cfg s.jobs config now submits params =
        (answer, submits', some (sent, conn))) :
      StratumStep s (.submit params answer) { s with conn, sent := s.sent ++ sent.toList }

/-- The runs of a connection of the session, over a table of some slots. -/
def stratumRuns (sid : UInt32) (slots : Nat) : Lts StratumSystem StratumEvent where
  init s := ∃ params start keep, s = ⟨.new sid params start, .new slots keep, []⟩
  step := StratumStep H c ops decoding cfg

end Runs

/-- What the notifies sent say of the connection. -/
structure StratumSystem.Served (H : Hashing) (sid : UInt32) (s : StratumSystem) : Prop where
  sid_eq : s.conn.sid = sid
  current : ∀ published ∈ s.jobs.current, published.job.Wired H
  made : ∀ n ∈ s.sent, n.Made H
  served : ∀ id, s.conn.servedDiff id = (lastServed s.sent id).map SentNotify.diff

namespace StratumSystem

variable {F : Type} {H : Hashing} {c : JobConfig} {ops : FloatOps F} {decoding : AddressDecoding}
  {cfg : ShareConfig F} {sid : UInt32} {slots : Nat} {s s' : StratumSystem} {event : StratumEvent}

theorem Served.start (params : VardiffParams) (start : Instant) (keep : Duration) :
    Served H sid ⟨.new sid params start, .new slots keep, []⟩ where
  sid_eq := rfl
  current _ h := by cases h
  made _ h := by cases h
  served id := by
    show StratumConnection.servedDiff _ id = none
    unfold StratumConnection.servedDiff
    split <;> rfl

/-- Nothing is sent, and nothing recorded of a difficulty changes. -/
theorem Served.unsent (h : s.Served H sid) {conn : StratumConnection} (hsid : conn.sid = s.conn.sid)
    (hdiffs : conn.jobDiffs = s.conn.jobDiffs)
    (hvalue : conn.vardiff.quickdiffValue = s.conn.vardiff.quickdiffValue) :
    Served H sid { s with conn, sent := s.sent ++ (none : Option SentNotify).toList } where
  sid_eq := hsid.trans h.sid_eq
  current := h.current
  made n hn := h.made n (by simpa using hn)
  served id := by
    show conn.servedDiff id = _
    rw [Option.toList_none, List.append_nil, ← h.served]
    unfold StratumConnection.servedDiff
    rw [hdiffs, hvalue]

/-- A notify is sent, and its difficulty is what a submission it serves is judged by. -/
theorem Served.notified (h : s.Served H sid) {conn conn' : StratumConnection} (hsid : conn.sid = s.conn.sid)
    (hdiffs : conn.jobDiffs = s.conn.jobDiffs)
    (hvalue : conn.vardiff.quickdiffValue = s.conn.vardiff.quickdiffValue) {n : SentNotify}
    (hmade : n.Made H) (hrecords : conn.Records n conn') (hpositive : n.notifyPrefix = .quickdiff → n.diff ≠ 0) :
    Served H sid { s with conn := conn', sent := s.sent ++ (some n).toList } where
  sid_eq := by rw [hrecords.sid, hsid, h.sid_eq]
  current := h.current
  made m hm := by
    rw [Option.toList_some, List.mem_append, List.mem_singleton] at hm
    obtain hm | rfl := hm
    · exact h.made m hm
    · exact hmade
  served id := by
    have hconn : conn.servedDiff id = s.conn.servedDiff id := by
      unfold StratumConnection.servedDiff
      rw [hdiffs, hvalue]
    show conn'.servedDiff id = _
    rw [hrecords.servedDiff hpositive, hconn, h.served, Option.toList_some, lastServed_append]
    split <;> rfl

theorem current_wired_publish (h : s.Served H sid) {inputs : JobInputs} {unixNow : Nat} {createdAt now : Instant}
    {job : Job} {kind : CoinbaseKind} (hbuild : build H c inputs unixNow createdAt = .ok job) :
    ∀ published ∈ (s.jobs.publish now job kind).2.current, published.job.Wired H := by
  cases hpublish : s.jobs.publish now job kind with
  | mk accepted jobs =>
      cases accepted with
      | false =>
          obtain rfl : jobs = s.jobs := by
            rw [JobTable.publish] at hpublish
            dsimp only at hpublish
            split at hpublish
            · exact (Prod.mk.inj hpublish).2.symm
            · cases hpublish
          exact h.current
      | true =>
          obtain ⟨sequence, hcurrent⟩ := (JobTable.publish_eq_true hpublish).current_eq
          intro published hpublished
          rw [hcurrent] at hpublished
          cases hpublished
          exact build_wired hbuild

theorem Served.sendJob (h : s.Served H sid) {conn conn' : StratumConnection} (hsid : conn.sid = s.conn.sid)
    (hdiffs : conn.jobDiffs = s.conn.jobDiffs)
    (hvalue : conn.vardiff.quickdiffValue = s.conn.vardiff.quickdiffValue) {published : Publication}
    (hcurrent : s.jobs.current = some published) {config : Option ClientConfig} {now : Instant} {n : SentNotify}
    (hsend : conn.sendJob H config now published = some (n, conn')) :
    Served H sid { s with conn := conn', sent := s.sent ++ (some n).toList } := by
  obtain ⟨hmade, -, hnamed, hrecords, -⟩ := StratumConnection.notify_spec (h.current _ hcurrent) hsend
  have hconn : ({ conn with sentSequence := some published.sequence } : StratumConnection).sid = s.conn.sid := hsid
  refine h.notified hconn hdiffs hvalue hmade hrecords fun hquickdiff => ?_
  rw [hnamed] at hquickdiff
  cases hkind : published.kind <;> rw [hkind] at hquickdiff <;> cases hquickdiff

theorem Served.subscribe (h : s.Served H sid) {config : Option ClientConfig} {now : Instant}
    {difficulty : Option UInt64} {sent : Option SentNotify} {conn : StratumConnection}
    (hok : s.conn.onSubscribe H s.jobs config now = some (difficulty, sent, conn)) :
    Served H sid { s with conn, sent := s.sent ++ sent.toList } := by
  have hvalue : s.conn.vardiff.markSent.2.quickdiffValue = s.conn.vardiff.quickdiffValue := rfl
  rw [StratumConnection.onSubscribe] at hok
  split at hok
  · cases hok
    exact h.unsent rfl rfl rfl
  · dsimp only at hok
    split at hok
    · rename_i published hcurrent
      obtain ⟨⟨n, conn'⟩, hsend, hok⟩ := Option.map_eq_some_iff.mp hok
      cases hok
      refine h.sendJob ?_ ?_ ?_ hcurrent hsend <;> rfl
    · cases hok
      exact h.unsent rfl rfl hvalue

theorem Served.serve (h : s.Served H sid) {config : Option ClientConfig} {now : Instant}
    {sent : Option SentNotify} {conn : StratumConnection}
    (hok : s.conn.sendDue H s.jobs config now = some (sent, conn)) :
    Served H sid { s with conn, sent := s.sent ++ sent.toList } := by
  rw [StratumConnection.sendDue] at hok
  split at hok
  · rename_i published hcurrent
    split at hok
    · obtain ⟨⟨n, conn'⟩, hsend, hok⟩ := Option.map_eq_some_iff.mp hok
      cases hok
      exact h.sendJob rfl rfl rfl hcurrent hsend
    · cases hok
      exact h.unsent rfl rfl rfl
  · cases hok
    exact h.unsent rfl rfl rfl

theorem Served.countAccepted (h : s.Served H sid) {config : Option ClientConfig} {now : Instant}
    {sent : Option SentNotify} {conn : StratumConnection}
    (hok : s.conn.countAccepted H s.jobs config now = some (sent, conn)) :
    Served H sid { s with conn, sent := s.sent ++ sent.toList } := by
  obtain ⟨⟨raised, vardiff⟩, hshare, hok⟩ := Option.bind_eq_some_iff.mp hok
  obtain ⟨hvalue, hraised⟩ := Vardiff.onShareAccepted_spec hshare
  dsimp only at hok
  split at hok
  · rename_i published hcurrent
    obtain ⟨⟨n, conn'⟩, hnotify, hok⟩ := Option.map_eq_some_iff.mp hok
    cases hok
    obtain ⟨hmade, -, -, hrecords, hpositive⟩ := StratumConnection.notify_spec (h.current _ hcurrent) hnotify
    have hconn : ({ s.conn with vardiff } : StratumConnection).sid = s.conn.sid := rfl
    exact h.notified hconn rfl hvalue hmade hrecords fun _ => hpositive rfl (hraised rfl)
  · cases hok
    exact h.unsent rfl rfl hvalue

theorem Served.submit (h : s.Served H sid) {config : Option ClientConfig} {now : Instant}
    {submits submits' : SubmitState} {params : SubmitParams} {answer : Except StratumError Unit}
    {sent : Option SentNotify} {conn : StratumConnection}
    (hok : s.conn.onSubmit H ops decoding cfg s.jobs config now submits params =
      (answer, submits', some (sent, conn))) :
    Served H sid { s with conn, sent := s.sent ++ sent.toList } := by
  rw [StratumConnection.onSubmit] at hok
  split at hok
  · cases hok
    exact h.unsent rfl rfl rfl
  · dsimp only at hok
    split at hok
    · exact h.countAccepted (Prod.mk.inj (Prod.mk.inj hok).2).2
    · cases hok
      exact h.unsent rfl rfl rfl

theorem Served.step (h : s.Served H sid) (hstep : StratumStep H c ops decoding cfg s event s') :
    s'.Served H sid := by
  cases hstep with
  | setTip prevHash => exact ⟨h.sid_eq, h.current, h.made, h.served⟩
  | markStaleOff prevHash => exact ⟨h.sid_eq, h.current, h.made, h.served⟩
  | publish hbuild => exact ⟨h.sid_eq, current_wired_publish h hbuild, h.made, h.served⟩
  | subscribe hok => exact h.subscribe hok
  | serve hok => exact h.serve hok
  | submit hok => exact h.submit hok

theorem served_of_run {trace : List StratumEvent}
    (hrun : (stratumRuns H c ops decoding cfg sid slots).Run trace s) : s.Served H sid := by
  refine hrun.invariant (I := fun _ s => s.Served H sid) ?_ fun _ _ _ _ h hstep => h.step hstep
  rintro s ⟨params, start, keep, rfl⟩
  exact .start params start keep

end StratumSystem

/-! ### What a submission is judged by -/

theorem targetByte_lt (diff : UInt64) : (notifyTargetByte diff).toNat < DIFF1_EXPONENT := by
  have hlog : Nat.log2 (max diff 1).toNat < 64 := by
    rw [Nat.log2_lt]
    · exact (max diff 1).toNat_lt
    · rw [UInt64.toNat_max, UInt64.toNat_one]
      omega
  rw [notifyTargetByte, floorLog2, UInt8.toNat_ofNat', DIFF1_EXPONENT, Nat.mod_eq_of_lt (by omega)]
  omega

/-- The target byte of a submission is that of the notify whose difficulty it is judged at. -/
theorem targetByte_of_diff (diff : UInt64) : UInt8.ofNat (floorLog2 diff.toNat) = notifyTargetByte diff := by
  rw [notifyTargetByte, UInt64.toNat_max, UInt64.toNat_one]
  by_cases hzero : diff.toNat = 0
  · rw [hzero]
    rfl
  · rw [Nat.max_eq_left (by omega)]

namespace StratumConnection

/-- A submission of a notify's id, while the notify's job is in its slot. -/
theorem parseSubmit_of_held {H : Hashing} {conn : StratumConnection} {jobs : JobTable} {n : SentNotify} {diff : UInt64}
    {params : SubmitParams} (hmade : n.Made H) (hid : params.id = some n.line.id)
    (hheld : jobs.at? n.job.slot = some n.job) (hdiff : conn.servedDiff ⟨n.job.slot, n.notifyPrefix⟩ = some diff) :
    conn.parseSubmit jobs params =
      (params.fields conn.sid).elim (.error diff) fun (extranonce, siaNtime, siaNonce) => .ok
        { job := n.job
          jobDiff := diff.toNat
          notifyPrefix := n.notifyPrefix
          extranonce
          siaNtime
          siaNonce
          minerUsername := params.usernameParam } := by
  obtain ⟨createdAt, hstratum⟩ := hmade.wired.id
  rw [parseSubmit, hid, hmade.id, Option.bind_some, parse_notifyId _ hstratum]
  dsimp only
  rw [hheld]
  dsimp only
  rw [if_neg (not_not.mpr rfl), hdiff]
  cases params.fields conn.sid <;> rfl

end StratumConnection

theorem checkShare_answer_ne {F : Type} {decoding : AddressDecoding} {cfg : ShareConfig F} {s : SubmitState}
    {job : Job} {hash : Hash} {targetByte : UInt8} {username : String} :
    (checkShare decoding cfg s job hash targetByte username).1 ≠ .error .unknownWork ∧
      (meetsTarget hash (targetForExponent targetByte) = true →
        (checkShare decoding cfg s job hash targetByte username).1 ≠ .error .highHash) := by
  rw [checkShare]
  split
  · exact ⟨by simp, by simp⟩
  · split
    · rename_i hhigh
      rw [Bool.not_eq_true'] at hhigh
      exact ⟨by simp, fun hmeets => absurd hmeets (by rw [hhigh]; exact Bool.false_ne_true)⟩
    · split
      · exact ⟨by simp, by simp⟩
      · split
        · exact ⟨by simp, by simp⟩
        · split <;> exact ⟨by simp, by simp⟩

section Judged

variable {F : Type} (H : Hashing) (ops : FloatOps F) (decoding : AddressDecoding) (cfg : ShareConfig F)

/-- A submission is judged by what its notify carried: the hash is the one the miner computed from the line, a hash
that meets the line's bits is not refused as high, and a block on the line's work is handed to the nodes. -/
def SubmitRequest.JudgedAs (n : SentNotify) (request : SubmitRequest) : Prop :=
  ∃ hash target,
    n.line.work.rawHash H request.extranonce request.siaNtime request.siaNonce = some hash ∧
    request.hash H = some hash ∧ bitsToTarget n.line.nbits = some target ∧
    ∀ submits, let evaluation := (evaluate H ops decoding cfg submits request).1
      evaluation.answer ≠ .error .unknownWork ∧
      (meetsTarget hash target = true → evaluation.answer ≠ .error .highHash) ∧
      (n.job.isBlock hash = true → hash ∉ submits.foundBlocks → evaluation.block.isSome)

variable {H ops decoding cfg}

theorem SentNotify.Made.judgedAs {n : SentNotify} (hmade : n.Made H) {request : SubmitRequest}
    (hjob : request.job = n.job) (hnamed : request.notifyPrefix = n.notifyPrefix)
    (hbyte : request.targetByte = n.targetByte) : request.JudgedAs H ops decoding cfg n := by
  obtain ⟨commitment, hcommitment, hwork⟩ := Option.map_eq_some_iff.mp hmade.work
  obtain ⟨header, hheader⟩ : ∃ header, request.header H = some header := by
    rw [SubmitRequest.header, hjob, hnamed, hbyte, Job.header, hcommitment]
    exact ⟨_, rfl⟩
  have hjobHeader := hheader
  rw [SubmitRequest.header, hjob, hnamed, hbyte] at hjobHeader
  obtain ⟨work, hwork', hraw⟩ := Job.rawHash_of_header hmade.wired.hidden hjobHeader
  obtain rfl : n.line.work = work := Option.some.inj (hmade.work.symm.trans hwork')
  obtain ⟨target, hbits, hlt⟩ := target_shareNbits (targetByte_lt n.diff)
  refine ⟨_, target, hraw, ?_, by rw [hmade.nbits]; exact hbits, fun submits => ?_⟩
  · rw [SubmitRequest.hash, hheader, hjob]
    rfl
  obtain ⟨hunknown, hhigh⟩ := @checkShare_answer_ne F decoding cfg submits request.job
    (request.job.rawPowHash H header) request.targetByte request.minerUsername
  simp only [evaluate, hheader]
  rw [← hjob]
  refine ⟨hunknown, fun hmeets => hhigh ?_, fun hblock hnew => ?_⟩
  · rw [hbyte]
    exact decide_eq_true (le_of_lt (lt_of_le_of_lt (of_decide_eq_true hmeets) hlt))
  · obtain ⟨tx, -, htx, -⟩ := Job.header_eq_some hjobHeader
    rw [hblock, if_pos rfl, firstFind, if_neg hnew, if_pos rfl, foundBlock, hjob, hnamed, hbyte, htx]
    rfl

variable {c : JobConfig} {sid : UInt32} {slots : Nat}

/-- **A submission is judged by the last notify of its kind.** In every order of publications, notifies, raises and
submissions, a submission that names a notify sent on the connection, whose job is still in its slot, is of that
job and its coinbase, and at the target byte of the last notify `m` of that slot, or of the last quickdiff for
the id of one. While that is the target byte of the notify named, the submission is judged as the notify says. -/
theorem judging_served {trace : List StratumEvent} {s : StratumSystem}
    (hrun : (stratumRuns H c ops decoding cfg sid slots).Run trace s) {n : SentNotify} (hsent : n ∈ s.sent)
    {params : SubmitParams} (hid : params.id = some n.line.id) (hheld : s.jobs.at? n.job.slot = some n.job) :
    ∃ m ∈ s.sent, lastServed s.sent ⟨n.job.slot, n.notifyPrefix⟩ = some m ∧
      (params.fields sid = none → s.conn.parseSubmit s.jobs params = .error m.diff) ∧
      ∀ extranonce siaNtime siaNonce, params.fields sid = some (extranonce, siaNtime, siaNonce) →
        ∃ request, s.conn.parseSubmit s.jobs params = .ok request ∧ request.job = n.job ∧
          request.notifyPrefix = n.notifyPrefix ∧ request.extranonce = extranonce ∧
          request.siaNtime = siaNtime ∧ request.siaNonce = siaNonce ∧ request.targetByte = m.targetByte ∧
          (m.targetByte = n.targetByte → request.JudgedAs H ops decoding cfg n) := by
  have h := StratumSystem.served_of_run hrun
  obtain ⟨m, hm⟩ := exists_lastServed hsent
  have hdiff := h.served ⟨n.job.slot, n.notifyPrefix⟩
  rw [hm, Option.map_some] at hdiff
  have hparse := StratumConnection.parseSubmit_of_held (h.made n hsent) hid hheld hdiff
  rw [h.sid_eq] at hparse
  refine ⟨m, mem_of_lastServed hm, hm, fun hfields => ?_, fun extranonce siaNtime siaNonce hfields => ?_⟩
  · rw [hparse, hfields]
    rfl
  · rw [hfields] at hparse
    have hbyte := targetByte_of_diff m.diff
    exact ⟨_, hparse, rfl, rfl, rfl, rfl, rfl, hbyte, fun heq =>
      (h.made n hsent).judgedAs rfl rfl (hbyte.trans heq)⟩

end Judged

def emptyInputs : JobInputs where
  serial := 0
  template := emptyTemplate zeroHash
  poolConfig := none
  coinbaser := none
  abw := none

/-- The table once a job is published. -/
def publishedTable (job : Job) : JobTable := ((JobTable.new 8 100).publish 0 job .pooled).2

/-- The notify a subscription to the first work is sent. -/
def firstNotify (job : Job) : Option (SentNotify × Option UInt64 × StratumConnection) := do
  let (difficulty, sent, conn) ←
    (StratumConnection.new 1 eagerParams 0).onSubscribe constantHashing (publishedTable job) none 0
  (sent.map fun n => (n, difficulty, conn))

/-- A submission of zeros. -/
def zeroSubmit (id : Bytes) : SubmitParams where
  username := none
  id := some id
  extranonce2 := some (List.replicate 16 0x30)
  ntime := some (List.replicate 16 0x30)
  nonce := some (List.replicate 8 0x30)

theorem judging_served_first : ∃ (n : SentNotify) (conn : StratumConnection) (jobs : JobTable)
    (request : SubmitRequest), conn.parseSubmit jobs (zeroSubmit n.line.id) = .ok request ∧ request.job = n.job ∧
      request.JudgedAs constantHashing unitOps noAddresses smallShareConfig n := by
  obtain ⟨first, hfirst⟩ : ∃ first, ((build constantHashing untaggedConfig emptyInputs 0 0).toOption.bind
      firstNotify) = some first := Option.isSome_iff_exists.mp (by decide +kernel)
  obtain ⟨job, hbuild, hfirst⟩ := Option.bind_eq_some_iff.mp hfirst
  obtain ⟨⟨difficulty, sent, conn⟩, hsubscribe, hfirst⟩ := Option.bind_eq_some_iff.mp hfirst
  obtain ⟨n, rfl, -⟩ := Option.map_eq_some_iff.mp hfirst
  have hbuilt : build constantHashing untaggedConfig emptyInputs 0 0 = .ok job := by
    cases hresult : build constantHashing untaggedConfig emptyInputs 0 0 with
    | error e =>
        rw [hresult] at hbuild
        cases hbuild
    | ok built =>
        rw [hresult] at hbuild
        exact congrArg Except.ok (Option.some.inj hbuild)
  have hpublished : (stratumRuns constantHashing untaggedConfig unitOps noAddresses smallShareConfig 1 8).Run
      ([] ++ [.table]) ⟨.new 1 eagerParams 0, publishedTable job, []⟩ :=
    .next (.start ⟨eagerParams, 0, 100, rfl⟩) (.publish hbuilt)
  have hrun := hpublished.next (.subscribe hsubscribe)
  have hpublish : (JobTable.new 8 100).publish 0 job .pooled = (true, publishedTable job) := rfl
  have hslot : job.slot = 0 := (build_wellBuilt hbuilt).slot_eq.trans (by rw [(build_eq_ok hbuilt).serial_eq]; rfl)
  obtain ⟨hat, -⟩ := JobTable.at?_of_publish hpublish (by rw [hslot]; decide)
  have hjob : n.job = job := by
    have hsend := hsubscribe
    rw [StratumConnection.onSubscribe, if_neg (by decide)] at hsend
    change Option.map _ (StratumConnection.sendJob constantHashing _ none 0 ⟨job, .pooled, 1⟩) = _ at hsend
    obtain ⟨⟨n', conn'⟩, hsend, heq⟩ := Option.map_eq_some_iff.mp hsend
    cases heq
    exact (StratumConnection.notify_spec (build_wired hbuilt) hsend).2.1
  obtain ⟨m, hm, -, -, hjudged⟩ := @judging_served Unit constantHashing unitOps noAddresses smallShareConfig
    untaggedConfig 1 8 _ _ hrun n (by simp) (zeroSubmit n.line.id) rfl (by rw [hjob]; exact hat)
  have hmn : m = n := by simpa using hm
  obtain ⟨fields, hfields⟩ : ∃ fields, (zeroSubmit n.line.id).fields 1 = some fields :=
    Option.isSome_iff_exists.mp rfl
  obtain ⟨request, hparse, hof, -, -, -, -, -, has⟩ := hjudged _ _ _ hfields
  exact ⟨n, conn, _, request, hparse, hof, has (by rw [hmn])⟩

end Ratum
