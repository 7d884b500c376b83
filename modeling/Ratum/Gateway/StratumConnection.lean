import Ratum.Core.TargetBytes
import Ratum.Gateway.JobTable
import Ratum.Gateway.NotifiedWork
import Ratum.Gateway.Submissions
import Ratum.Gateway.Vardiff

/-!
# A stratum connection

`gateway/src/stratum/connection.rs` and `connection/shares.rs`: the work a connection is sent, and the job, the
difficulty and the header a submission names. A JSON parameter is its text, none when it is not a string.
-/

namespace Ratum

def EXTRANONCE1_SIZE : Nat := HEADER_EXTRANONCE_PAD + 4

def EXTRANONCE2_SIZE : Nat := HEADER_EXTRANONCE_SIZE - EXTRANONCE1_SIZE

def SIA_WORD_LEN : Nat := 4

/-- The sia ntime field of every job. -/
def Job.ntimeField : Bytes := siaWords 0 0

/-- What a mining.notify carries. -/
structure MiningNotify where
  id : Bytes
  work : NotifiedWork
  nbits : UInt32
  ntime : Bytes
  clean : Bool

/-- A mining.notify sent, what it is of, and the difficulty announced before it. -/
structure SentNotify where
  job : Job
  notifyPrefix : NotifyPrefix
  announce : Option UInt64
  diff : UInt64
  line : MiningNotify

def SentNotify.targetByte (n : SentNotify) : UInt8 := notifyTargetByte n.diff

/-- The parameters of a mining.submit. -/
structure SubmitParams where
  username : Option String
  id : Option Bytes
  extranonce2 : Option Bytes
  ntime : Option Bytes
  nonce : Option Bytes

/-- A sia field in either of its widths. -/
def parseSiaField (text : Bytes) : Option (Vector UInt8 SIA_WORDS_LEN) :=
  if text.length = 2 * SIA_WORDS_LEN then
    (hexDecode text).bind fun bytes => if h : bytes.toArray.size = SIA_WORDS_LEN then some ⟨bytes.toArray, h⟩ else none
  else if text.length = 2 * SIA_WORD_LEN then
    (fromHex (2 ^ 32) text).map fun n =>
      ⟨(siaWords (UInt32.ofNat n) 0).toArray, by simp [siaWords, word, SIA_WORDS_LEN]⟩
  else none

namespace SubmitParams

variable (params : SubmitParams)

/-- `params[0]` cut at its first NUL. -/
def usernameParam : String :=
  String.ofList ((params.username.getD "NULL").toList.takeWhile (· ≠ '\x00'))

/-- The extranonce of a miner of the session: zeros, the session's id and what the miner chose. -/
def extranonceParam (sid : UInt32) : Option (Vector UInt8 HEADER_EXTRANONCE_SIZE) := do
  let text ← params.extranonce2
  if text.length ≠ 2 * EXTRANONCE2_SIZE then none
  let extranonce2 ← hexDecode text
  let extranonce := List.replicate HEADER_EXTRANONCE_PAD 0 ++ (leBytes 4 sid.toNat).reverse ++ extranonce2
  if h : extranonce.toArray.size = HEADER_EXTRANONCE_SIZE then some ⟨extranonce.toArray, h⟩ else none

/-- The fields of the header a miner chooses: its extranonce, the sia ntime and the sia nonce. -/
def fields (sid : UInt32) :
    Option (Vector UInt8 HEADER_EXTRANONCE_SIZE × Vector UInt8 SIA_WORDS_LEN × Vector UInt8 SIA_WORDS_LEN) := do
  let extranonce ← params.extranonceParam sid
  let siaNtime ← params.ntime.bind parseSiaField
  let siaNonce ← params.nonce.bind parseSiaField
  pure (extranonce, siaNtime, siaNonce)

end SubmitParams

structure StratumConnection where
  sid : UInt32
  subscribed : Bool
  vardiff : Vardiff
  /-- The difficulty each job slot was last served at. -/
  jobDiffs : UInt8 → Option UInt64
  /-- The publication last sent. -/
  sentSequence : Option Nat
  /-- The previous block of the last job notified. -/
  notifiedPrevHash : Option Hash

namespace StratumConnection

def new (sid : UInt32) (params : VardiffParams) (now : Instant) : StratumConnection where
  sid
  subscribed := false
  vardiff := .new params now
  jobDiffs := fun _ => none
  sentSequence := none
  notifiedPrevHash := none

variable (H : Hashing) (conn : StratumConnection)

/-! ### Work sent -/

/-- Sends a mining.notify of the job; none when the job has no coinbase for the selection. -/
def notify (config : Option ClientConfig) (now : Instant) (job : Job) (notifyPrefix : NotifyPrefix) (clean : Bool) :
    Option (SentNotify × StratumConnection) := do
  let prevHash := job.template.prevHash
  let clean := clean || conn.notifiedPrevHash ≠ some prevHash
  let quickdiff := decide (notifyPrefix = .quickdiff)
  let ({ announce, diff }, vardiff) ← conn.vardiff.onNotify (notifyFloor job.isDatumJob config) quickdiff now
  let jobDiffs := if quickdiff then conn.jobDiffs
    else fun slot => if slot = job.slot then some diff else conn.jobDiffs slot
  let targetByte := notifyTargetByte diff
  let work ← job.notifiedWork H notifyPrefix.coinbase targetByte
  let line : MiningNotify :=
    { id := notifyPrefix.notifyId job, work, nbits := shareNbits targetByte, ntime := Job.ntimeField, clean }
  pure ({ job, notifyPrefix, announce, diff, line },
    { conn with vardiff, jobDiffs, notifiedPrevHash := some prevHash })

def sendJob (config : Option ClientConfig) (now : Instant) (published : Publication) :
    Option (SentNotify × StratumConnection) :=
  let notifyPrefix := NotifyPrefix.ofKind published.kind
  { conn with sentSequence := some published.sequence }.notify H config now published.job notifyPrefix
    (decide (notifyPrefix = NotifyPrefix.emptyWork))

/-- The work served, sent to a miner that has not been sent it. -/
def sendDue (jobs : JobTable) (config : Option ClientConfig) (now : Instant) :
    Option (Option SentNotify × StratumConnection) :=
  match jobs.current with
  | some published =>
      if conn.subscribed ∧ conn.sentSequence ≠ some published.sequence then
        (conn.sendJob H config now published).map fun (sent, conn) => (some sent, conn)
      else some (none, conn)
  | none => some (none, conn)

/-- The first mining.subscribe announces the difficulty and sends the work served. -/
def onSubscribe (jobs : JobTable) (config : Option ClientConfig) (now : Instant) :
    Option (Option UInt64 × Option SentNotify × StratumConnection) :=
  if conn.subscribed then some (none, none, conn)
  else
    let difficulty := conn.vardiff.markSent.1
    let conn := { conn with subscribed := true, vardiff := conn.vardiff.markSent.2.resetSnapshot now }
    match jobs.current with
    | some published =>
        (conn.sendJob H config now published).map fun (sent, conn) => (some difficulty, some sent, conn)
    | none => some (some difficulty, none, conn)

/-! ### Work submitted -/

/-- The difficulty the job an id names was served at. -/
def servedDiff (id : NotifyId) : Option UInt64 :=
  if id.notifyPrefix = .quickdiff then some conn.vardiff.quickdiffValue |>.filter (0 < ·)
  else conn.jobDiffs id.slot

/-- A refusal is unknown work; it carries the difficulty the refused share is tallied at. -/
def parseSubmit (jobs : JobTable) (params : SubmitParams) : Except UInt64 SubmitRequest := do
  let unknown := conn.vardiff.lastSent
  let some (id, stratumJobId) := params.id.bind NotifyId.parse | throw unknown
  let some job := jobs.at? id.slot | throw unknown
  if job.stratumJobId.take JOB_ID_TIME_CHARS ≠ stratumJobId.take JOB_ID_TIME_CHARS then throw unknown
  let some jobDiff := conn.servedDiff id | throw unknown
  let some (extranonce, siaNtime, siaNonce) := params.fields conn.sid | throw jobDiff
  pure
    { job
      jobDiff := jobDiff.toNat
      notifyPrefix := id.notifyPrefix
      extranonce
      siaNtime
      siaNonce
      minerUsername := params.usernameParam }

/-- Counts an accepted share; a raise resends the work served as a quickdiff. -/
def countAccepted (jobs : JobTable) (config : Option ClientConfig) (now : Instant) :
    Option (Option SentNotify × StratumConnection) := do
  let (raised, vardiff) ← conn.vardiff.onShareAccepted now
  let conn := { conn with vardiff }
  match raised, jobs.current with
  | true, some published =>
      (conn.notify H config now published.job .quickdiff true).map fun (sent, conn) => (some sent, conn)
  | _, _ => some (none, conn)

section Submit

variable {F : Type} (ops : FloatOps F) (decoding : AddressDecoding) (cfg : ShareConfig F)

/-- The reply to a mining.submit, and the work sent after it. -/
def onSubmit (jobs : JobTable) (config : Option ClientConfig) (now : Instant) (s : SubmitState)
    (params : SubmitParams) : Except StratumError Unit × SubmitState × Option (Option SentNotify × StratumConnection) :=
  match conn.parseSubmit jobs params with
  | .error _ => (.error .unknownWork, s, some (none, conn))
  | .ok request =>
      let (evaluation, s) := evaluate H ops decoding cfg s request
      match evaluation.answer with
      | .ok () => (.ok (), s, conn.countAccepted H jobs config now)
      | .error refusal => (.error refusal, s, some (none, conn))

end Submit
end StratumConnection
end Ratum
