import Ratum.Core.Maps
import Ratum.Verify.Rebuild

/-!
# The sections a connection installed

`prime/src/verify/jobs.rs` and the state of the verifier it is part of: which job and coinbase sections a
share is rebuilt on, when a new job replaces them, the eviction of the jobs off the recent tips, and the
transactions and the node's verdicts a job keeps.
-/

namespace Ratum

def MAX_COINBASE_TYPES : UInt8 := 6

def TIP_GRACE_SECS : Nat := 1

def MAX_RECENT_TIPS : Nat := 3

def UNSEEN_PARENT_SECS : Nat := 120

def MAX_INSTALLING_SHARES : Nat := 4096

/-- The jobs one connection holds transactions for. -/
def MAX_JOBS_HOLDING_TXNS : Nat := 4

/-- The node's verdicts one job keeps, one per coinbase its shares were rebuilt on. -/
def MAX_BLOCK_CHECKS : Nat := 64

def MAX_INSTALLED_COINBASE_BYTES : Nat := 2 * MAX_JOBS * MAX_COINBASE_SECTION_LEN

def CoinbaseSection.bytes (cb : CoinbaseSection) : Nat := cb.coinb1.length + cb.coinb2.length

structure ReplacedTip where
  hash : Hash
  replacedAt : Nat

/-- The transactions of a job, which the pool holds to validate the job's block with the node. -/
inductive JobTxns
  | unrequested
  | requested
  | held (txns : List Bytes)
  | refused (reason : RejectReason)
  deriving DecidableEq

def JobTxns.isHeld : JobTxns → Bool
  | held _ => true
  | _ => false

/-- The node's verdict on a job's block with one coinbase. -/
inductive BlockCheck
  | valid (version : UInt32)
  | invalid (reason : RejectReason)
  | unavailable (retryAt : Nat)
  deriving DecidableEq

structure JobState where
  job : JobSection
  coinbases : HashMap UInt8 CoinbaseSection
  parentSeen : Bool
  evicted : Bool
  installedAt : Nat
  generation : Nat
  txns : JobTxns
  checks : HashMap Hash BlockCheck

/-- The job without the transactions held and the node's verdicts on them. -/
def JobState.releaseTxns (st : JobState) : JobState := { st with txns := .unrequested, checks := ∅ }

def JobState.evict (st : JobState) : JobState := { st.releaseTxns with evicted := true }

def JobState.coinbaseBytes (st : JobState) : Nat :=
  (st.coinbases.entries.map fun entry => CoinbaseSection.bytes entry.2).sum

/-- The job state with the coinbase section the share carries, which replaces the one of its id. -/
def JobState.withCoinbase (st : JobState) (s : PowSubmit) : JobState :=
  match s.coinbase with
  | some cb => { st with coinbases := st.coinbases.insert cb.coinbaseId cb }
  | none => st

@[simp] theorem JobState.withCoinbase_job (st : JobState) (s : PowSubmit) :
    (st.withCoinbase s).job = st.job := by
  rw [JobState.withCoinbase]
  split <;> rfl

/-- What the node's template says of the next block. -/
structure NextBlock where
  prevHash : Option Hash
  bits : UInt32
  height : Option UInt32
  mintime : Option Nat

structure Verifier where
  policy : SharePolicy
  jobs : UInt8 → Option JobState
  splits : DictatedSplits
  tip : Option Hash
  next : Option NextBlock
  recentTips : List ReplacedTip
  nextGeneration : Nat
  installedBy : BoundedSet Hash
  installedCoinbaseBytes : Nat
  installedCoinbaseBytesCap : Nat

namespace Verifier

def new (policy : SharePolicy) : Verifier where
  policy
  jobs _ := none
  splits := .empty
  tip := none
  next := none
  recentTips := []
  nextGeneration := 1
  installedBy := BoundedMap.new MAX_INSTALLING_SHARES
  installedCoinbaseBytes := 0
  installedCoinbaseBytesCap := MAX_INSTALLED_COINBASE_BYTES

variable (v : Verifier)

/-! ### Tips -/

/-- Whether the tip is `prevHash`, or a tip replaced recently was. -/
def parentKept (prevHash : Hash) : Bool :=
  v.tip = some prevHash || v.recentTips.any fun t => t.hash = prevHash

/-- What the tip decides about an installed job. -/
def evictOff (now : Nat) (st : JobState) : JobState :=
  if st.evicted then st
  else if v.parentKept st.job.prevHash then { st with parentSeen := true }
  else if st.parentSeen || UNSEEN_PARENT_SECS < now - st.installedAt then st.evict
  else st

def evictJobsOffRecentTips (now : Nat) : Verifier :=
  { v with jobs := fun slot => (v.jobs slot).map (v.evictOff now) }

/-- The tips kept once the tip is replaced. -/
def replaceTip (now : Nat) : List ReplacedTip :=
  let tips := v.recentTips ++ v.tip.toList.map fun hash => ⟨hash, now⟩
  let tips := tips.dropWhile fun t => TIP_GRACE_SECS < now - t.replacedAt
  tips.drop (tips.length - MAX_RECENT_TIPS)

def setTip (tip : Option Hash) (now : Nat) : Verifier :=
  let v' := { v with recentTips := if v.tip ≠ tip then v.replaceTip now else v.recentTips, tip }
  if tip.isSome then v'.evictJobsOffRecentTips now else v'

def withinTipGrace (prevHash : Hash) (now : Nat) : Bool :=
  v.recentTips.any fun t => t.hash = prevHash && now - t.replacedAt ≤ TIP_GRACE_SECS

/-! ### Sections -/

/-- The generation of the job installed in the share's slot, when the share was rebuilt on it. -/
def installedGeneration (s : PowSubmit) : Option Nat :=
  (v.jobs s.jobId).bind fun st => if s.job.all (· = st.job) then some st.generation else none

def bringsNewJob (s : PowSubmit) : Bool :=
  s.job.any fun job => (v.jobs s.jobId).all (·.job ≠ job)

/-- Whether the share's job builds on a block the node has not reported. -/
def parentUnseen (s : PowSubmit) (prevHash : Hash) : Bool :=
  (v.jobs s.jobId).any fun st => !st.evicted && !st.parentSeen && st.job.prevHash = prevHash

/-- Whether the share names an evicted job, rather than bringing one on another tip. -/
def namesEvictedJob (s : PowSubmit) : Bool :=
  (v.jobs s.jobId).any fun st => st.evicted && s.job.all (·.prevHash = st.job.prevHash)

/-- The job the share is rebuilt on: the new one it brings, or the one installed in its slot. -/
def resolveJob (s : PowSubmit) : Except RejectReason JobSection :=
  match s.job.filter fun _ => v.bringsNewJob s, v.jobs s.jobId with
  | some job, _ => .ok job
  | none, some st => .ok st.job
  | none, none => .error .badJobId

/-- The coinbase the share is rebuilt on: the one it carries, or the one installed in its slot. -/
def resolveCoinbase (s : PowSubmit) : Except RejectReason CoinbaseSection :=
  match s.coinbase with
  | some cb =>
      if cb.coinbaseId ≠ s.coinbaseId then .error .coinbaseIdMismatch
      else if MAX_COINBASE_SECTION_LEN < cb.bytes then .error .coinbaseTooLarge
      else .ok cb
  | none =>
      match ((v.jobs s.jobId).filter fun _ => !v.bringsNewJob s).bind fun st =>
          st.coinbases.lookup s.coinbaseId with
      | some cb => .ok cb
      | none => .error .coinbaseMissing

def resolve (s : PowSubmit) : Except RejectReason (JobSection × CoinbaseSection) := do
  let job ← v.resolveJob s
  let cb ← v.resolveCoinbase s
  pure (job, cb)

/-- The state of a job just installed. -/
def newJobState (job : JobSection) (now : Nat) : JobState where
  job
  coinbases := ∅
  parentSeen := v.parentKept job.prevHash
  evicted := false
  installedAt := now
  generation := v.nextGeneration
  txns := .unrequested
  checks := ∅

/-- What the share's slot holds once its sections are installed. -/
def installedIn (s : PowSubmit) (now : Nat) : Option JobState :=
  let slot := match s.job.filter fun _ => v.bringsNewJob s with
    | some job => some (v.newJobState job now)
    | none => v.jobs s.jobId
  slot.map (·.withCoinbase s)

/-- Installs the share's job and coinbase sections into its slot; nothing is installed by a share that
installed before, or past the bytes a connection may hold. -/
def installSections (s : PowSubmit) (rawPowHash : Hash) (now : Nat) : Except RejectReason Verifier :=
  let newJob := v.bringsNewJob s
  let held (cb : CoinbaseSection) : Option CoinbaseSection :=
    (v.jobs s.jobId).bind fun st => st.coinbases.lookup cb.coinbaseId
  let newCoinbase := s.coinbase.any fun cb => newJob || held cb ≠ some cb
  let changesSlot := newJob || newCoinbase
  if changesSlot && v.installedBy.contains rawPowHash then .error .duplicateWork
  else
    let released := if newJob then (v.jobs s.jobId).elim 0 JobState.coinbaseBytes else 0
    let replaced := if newJob then 0 else ((s.coinbase.bind held).map CoinbaseSection.bytes).getD 0
    let added := s.coinbase.elim 0 CoinbaseSection.bytes
    let projected := v.installedCoinbaseBytes - (released + replaced) + added
    if s.coinbase.isSome && v.installedCoinbaseBytesCap < projected then .error .coinbaseTooLarge
    else
      let v' :=
        { v with
          jobs := Function.update v.jobs s.jobId (v.installedIn s now)
          nextGeneration := if newJob then v.nextGeneration + 1 else v.nextGeneration
          installedCoinbaseBytes := projected
          installedBy :=
            if changesSlot then (BoundedSet.insert v.installedBy rawPowHash).2 else v.installedBy }
      .ok (if v.tip.isSome then v'.evictJobsOffRecentTips now else v')

/-! ### The transactions jobs hold -/

/-- The job of a generation in a slot, while it is installed there and not evicted. -/
def liveJob (jobId : UInt8) (generation : Nat) : Option JobState :=
  (v.jobs jobId).filter fun st => st.generation = generation && !st.evicted

def slots : List UInt8 := (List.range MAX_JOBS).map UInt8.ofNat

/-- The generations and slots of the jobs holding transactions, by generation. -/
def holding : List (Nat × UInt8) :=
  (slots.filterMap fun slot =>
    ((v.jobs slot).filter (·.txns.isHeld)).map fun st => (st.generation, slot)).mergeSort
    fun a b => a.1 < b.1 || a.1 = b.1 && a.2 ≤ b.2

def releaseOldestHeldTxns : Verifier :=
  let oldest := (v.holding.take (v.holding.length - MAX_JOBS_HOLDING_TXNS)).map Prod.snd
  { v with jobs := fun slot =>
      if slot ∈ oldest then (v.jobs slot).map JobState.releaseTxns else v.jobs slot }

/-- Sets the job's transactions; false when the job is no longer installed. -/
def setJobTxns (jobId : UInt8) (generation : Nat) (txns : JobTxns) : Bool × Verifier :=
  match v.liveJob jobId generation with
  | none => (false, v)
  | some st =>
      let v' := { v with jobs := Function.update v.jobs jobId (some { st with txns }) }
      (true, if txns.isHeld then v'.releaseOldestHeldTxns else v')

def recordBlockCheck (jobId : UInt8) (generation : Nat) (digest : Hash) (check : BlockCheck) : Verifier :=
  match v.liveJob jobId generation with
  | none => v
  | some st =>
      let checks := if MAX_BLOCK_CHECKS ≤ st.checks.keys.length then ∅ else st.checks
      let st' := { st with checks := checks.insert digest check }
      { v with jobs := Function.update v.jobs jobId (some st') }

/-! ### What is installed in a slot -/

/-- The sections installed in a slot. -/
def sections (slot : UInt8) : Option (JobSection × HashMap UInt8 CoinbaseSection) :=
  (v.jobs slot).map fun st => (st.job, st.coinbases)

variable {v}

@[simp] theorem sections_evictJobsOffRecentTips (now : Nat) :
    (v.evictJobsOffRecentTips now).sections = v.sections := by
  funext slot
  rw [sections, sections, evictJobsOffRecentTips, Option.map_map]
  congr 1
  funext st
  simp only [Function.comp, evictOff]
  split_ifs <;> rfl

@[simp] theorem sections_setTip (tip : Option Hash) (now : Nat) : (v.setTip tip now).sections = v.sections := by
  rw [setTip]
  split
  · rw [sections_evictJobsOffRecentTips]
    rfl
  · rfl

theorem sections_installSections {v' : Verifier} {s : PowSubmit} {rawPowHash : Hash} {now : Nat}
    (hinstall : v.installSections s rawPowHash now = .ok v') :
    v'.sections = Function.update v.sections s.jobId
      ((v.installedIn s now).map fun st => (st.job, st.coinbases)) := by
  have hupdate (w : Verifier) (hjobs : w.jobs = Function.update v.jobs s.jobId (v.installedIn s now)) :
      w.sections = Function.update v.sections s.jobId
        ((v.installedIn s now).map fun st => (st.job, st.coinbases)) := by
    funext slot
    rw [sections, hjobs]
    obtain rfl | hne := eq_or_ne slot s.jobId
    · rw [Function.update_self, Function.update_self]
    · rw [Function.update_of_ne hne, Function.update_of_ne hne]
      rfl
  obtain ⟨-, hfits⟩ := FailsIn.ok_of_guard hinstall
  obtain ⟨-, hinstalled⟩ := FailsIn.ok_of_guard hfits
  obtain rfl := Except.ok.inj hinstalled
  split
  · rw [sections_evictJobsOffRecentTips]
    exact hupdate _ rfl
  · exact hupdate _ rfl

/-- A new job is installed with the coinbase the share carries alone. -/
theorem installedIn_new {s : PowSubmit} {job : JobSection} (hjob : s.job = some job)
    (hnew : v.bringsNewJob s = true) (now : Nat) :
    v.installedIn s now = some ((v.newJobState job now).withCoinbase s) := by
  rw [installedIn, hjob, hnew, Option.filter_some_pos rfl]
  rfl

/-- A share that brings no job adds the coinbase it carries to the job installed. -/
theorem installedIn_known {s : PowSubmit} (hknown : v.bringsNewJob s = false) (now : Nat) :
    v.installedIn s now = (v.jobs s.jobId).map (·.withCoinbase s) := by
  have hnone : (s.job.filter fun _ => v.bringsNewJob s) = none := by
    rw [hknown, Option.filter_eq_none_iff]
    exact fun _ _ => Bool.false_ne_true
  rw [installedIn, hnone]

end Verifier
end Ratum
