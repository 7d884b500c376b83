import Ratum.Gateway.JobTable
import Ratum.Gateway.Submissions

/-!
# Sending a queued share

`gateway/src/datum/session/shares.rs`: which sections of a job the pool has received on the connection,
the share message, and the shares that are not sent.
-/

namespace Ratum

/-- Which sections of a job the pool has received on a connection. -/
structure SentSections where
  jobSerial : Nat
  jobSectionSent : Bool
  pooledCoinbaseSent : Bool
  subsidyOnlyCoinbaseSent : Bool

namespace SentSections

def new (jobSerial : Nat) : SentSections := ⟨jobSerial, false, false, false⟩

variable (sent : SentSections)

def coinbaseSent : CoinbaseKind → Bool
  | .pooled => sent.pooledCoinbaseSent
  | .subsidyOnly => sent.subsidyOnlyCoinbaseSent

/-- Whether the coinbase of the kind was sent, and the record with it sent. -/
def markCoinbaseSent (kind : CoinbaseKind) : Bool × SentSections :=
  (sent.coinbaseSent kind,
    match kind with
    | .pooled => { sent with pooledCoinbaseSent := true }
    | .subsidyOnly => { sent with subsidyOnlyCoinbaseSent := true })

end SentSections

/-- The sections sent for the job in each slot. -/
abbrev SentTable := UInt8 → Option SentSections

/-- The record of the share's job; a slot reused by another job starts again. -/
def SentTable.current (sent : SentTable) (job : Job) : SentSections :=
  match sent job.slot with
  | some record => if record.jobSerial ≠ job.serial then .new job.serial else record
  | none => .new job.serial

/-- The coinbase a share's work commits to. -/
def QueuedShare.kind (share : QueuedShare) : CoinbaseKind := share.notifyPrefix.coinbase

/-- The job and coinbase sections the pool has not received, and the record with them sent. -/
def sectionsFor (sent : SentTable) (share : QueuedShare) :
    Option JobSection × Option CoinbaseSection × SentTable :=
  let job := share.job
  let record := sent.current job
  let jobSection := if !record.jobSectionSent then some job.jobSection else none
  let (coinbaseSent, record) := { record with jobSectionSent := true }.markCoinbaseSent share.kind
  let coinbaseSection := if !coinbaseSent then some (job.coinbase share.kind).section else none
  (jobSection, coinbaseSection, Function.update sent job.slot (some record))

/-- The share message for a queued share. -/
def powSubmit (share : QueuedShare) (extranonce : Vector UInt8 EXTRANONCE_SIZE) (username : String)
    (job : Option JobSection) (coinbase : Option CoinbaseSection) : PowSubmit :=
  let h := share.header
  let blake2b := Blake2bSection.fromHeader h
  { jobId := share.job.slot
    coinbaseId := share.notifyPrefix.coinbase.wireId
    isBlock := share.isBlock
    subsidyOnly := share.notifyPrefix = .emptyWork
    quickdiff := share.notifyPrefix = .quickdiff
    targetByte := share.targetByte
    ntime := blake2b.timeFields.1
    nonce := h.nonce
    version := V2_FLAG ||| h.version
    extranonce
    username
    useTimeOffset := h.flags &&& FLAG_USE_TIME_OFFSET ≠ 0
    job
    coinbase
    blake2b
    abwSlot := share.job.abw.map fun a => UInt8.ofNat a.slot.val }

/-- The message for a queued share; none when the table holds another job in its slot, the connection does
not hold its assignment, or its extranonce is not a share's. -/
def sendShare (d : DatumConfig) (poolAddress : String) (jobs : JobTable) (abw : AbwAssignments)
    (sent : SentTable) (share : QueuedShare) : Option PowSubmit × SentTable :=
  let job := share.job
  if (jobs.at? job.slot).all (·.serial ≠ job.serial) then (none, sent)
  else if job.abw.any (!abw.holds ·) then (none, sent)
  else
    match shareExtranonce share.header.extranonce with
    | none => (none, sent)
    | some extranonce =>
        let (jobSection, coinbaseSection, sent) := sectionsFor sent share
        let username := forWire d poolAddress share.username
        (some (powSubmit share extranonce username jobSection coinbaseSection), sent)

/-! ### What is sent -/

/-- The record of a job once a share on it was sent. -/
def SentSections.after (record : SentSections) (kind : CoinbaseKind) : SentSections :=
  ({ record with jobSectionSent := true }.markCoinbaseSent kind).2

@[simp] theorem SentSections.after_jobSerial (record : SentSections) (kind : CoinbaseKind) :
    (record.after kind).jobSerial = record.jobSerial := by
  cases kind <;> rfl

@[simp] theorem SentSections.after_jobSectionSent (record : SentSections) (kind : CoinbaseKind) :
    (record.after kind).jobSectionSent = true := by
  cases kind <;> rfl

theorem SentSections.after_coinbaseSent (record : SentSections) (kind kind' : CoinbaseKind) :
    (record.after kind).coinbaseSent kind' = (record.coinbaseSent kind' || kind' = kind) := by
  cases kind <;> cases kind' <;> simp [after, markCoinbaseSent, coinbaseSent]

@[simp] theorem SentTable.current_jobSerial (sent : SentTable) (job : Job) :
    (sent.current job).jobSerial = job.serial := by
  rw [current]
  split
  · split
    · rfl
    · exact not_not.mp ‹_›
  · rfl

theorem sectionsFor_eq (sent : SentTable) (share : QueuedShare) :
    sectionsFor sent share =
      (if (sent.current share.job).jobSectionSent then none else some share.job.jobSection,
        if (sent.current share.job).coinbaseSent share.kind then none
          else some (share.job.coinbase share.kind).section,
        Function.update sent share.job.slot (some ((sent.current share.job).after share.kind))) := by
  have hkind : ({ sent.current share.job with jobSectionSent := true }.markCoinbaseSent share.kind).1 =
      (sent.current share.job).coinbaseSent share.kind := by
    cases share.kind <;> rfl
  rw [sectionsFor]
  dsimp only
  rw [hkind]
  refine congrArg₂ Prod.mk ?_ (congrArg₂ Prod.mk ?_ rfl)
  · cases (sent.current share.job).jobSectionSent <;> rfl
  · cases (sent.current share.job).coinbaseSent share.kind <;> rfl

/-- A share sent: the table holds its job's serial in its slot, and it carries the sections not sent. -/
structure SentOn (jobs : JobTable) (sent : SentTable) (share : QueuedShare) (s : PowSubmit)
    (sent' : SentTable) : Prop where
  held : ∃ held, jobs.at? share.job.slot = some held ∧ held.serial = share.job.serial
  jobId_eq : s.jobId = share.job.slot
  coinbaseId_eq : s.coinbaseId = share.kind.wireId
  job_eq : s.job =
    if (sent.current share.job).jobSectionSent then none else some share.job.jobSection
  coinbase_eq : s.coinbase =
    if (sent.current share.job).coinbaseSent share.kind then none
    else some (share.job.coinbase share.kind).section
  sent_eq : sent' = Function.update sent share.job.slot
    (some ((sent.current share.job).after share.kind))

theorem sendShare_eq_some {d : DatumConfig} {poolAddress : String} {jobs : JobTable}
    {abw : AbwAssignments} {sent sent' : SentTable} {share : QueuedShare} {s : PowSubmit}
    (hsend : sendShare d poolAddress jobs abw sent share = (some s, sent')) :
    SentOn jobs sent share s sent' := by
  rw [sendShare] at hsend
  dsimp only at hsend
  split at hsend
  · cases hsend
  · rename_i hheld
    split at hsend
    · cases hsend
    · split at hsend
      · cases hsend
      · rw [sectionsFor_eq] at hsend
        obtain ⟨hs, hsent⟩ := Prod.mk.inj hsend
        obtain rfl := Option.some.inj hs
        refine ⟨?_, rfl, rfl, rfl, rfl, hsent.symm⟩
        cases hat : jobs.at? share.job.slot with
        | none =>
            rw [hat] at hheld
            exact absurd rfl hheld
        | some held =>
            rw [hat, Option.all_some, decide_eq_true_eq, not_not] at hheld
            exact ⟨held, rfl, hheld⟩

/-- A share not sent changes no record. -/
theorem sendShare_eq_none {d : DatumConfig} {poolAddress : String} {jobs : JobTable}
    {abw : AbwAssignments} {sent sent' : SentTable} {share : QueuedShare}
    (hsend : sendShare d poolAddress jobs abw sent share = (none, sent')) : sent' = sent := by
  rw [sendShare] at hsend
  dsimp only at hsend
  split at hsend
  · exact (Prod.mk.inj hsend).2.symm
  · split at hsend
    · exact (Prod.mk.inj hsend).2.symm
    · split at hsend
      · exact (Prod.mk.inj hsend).2.symm
      · cases hsend

/-- The assignment of a share sent is held. -/
theorem sendShare_holds {d : DatumConfig} {poolAddress : String} {jobs : JobTable}
    {abw : AbwAssignments} {sent sent' : SentTable} {share : QueuedShare} {s : PowSubmit}
    (hsend : sendShare d poolAddress jobs abw sent share = (some s, sent')) {a : AbwAssignment}
    (ha : share.job.abw = some a) : abw.holds a = true := by
  rw [sendShare] at hsend
  dsimp only at hsend
  split at hsend
  · cases hsend
  · split at hsend
    · cases hsend
    · rename_i hholds
      rw [ha, Option.any_some, Bool.not_eq_true, Bool.not_eq_false'] at hholds
      exact hholds

/-- A share on the job in its slot that needs no assignment is sent. -/
theorem sendShare_of_held {d : DatumConfig} {poolAddress : String} {jobs : JobTable}
    {abw : AbwAssignments} {sent : SentTable} {share : QueuedShare}
    {extranonce : Vector UInt8 EXTRANONCE_SIZE} (hat : jobs.at? share.job.slot = some share.job)
    (habw : share.job.abw = none) (hextranonce : shareExtranonce share.header.extranonce = some extranonce) :
    sendShare d poolAddress jobs abw sent share =
      (some (powSubmit share extranonce (forWire d poolAddress share.username) (sectionsFor sent share).1
        (sectionsFor sent share).2.1), (sectionsFor sent share).2.2) := by
  rw [sendShare]
  simp [hat, habw, hextranonce]

end Ratum
