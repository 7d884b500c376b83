import Ratum.Relay.Shares
import Ratum.Verify.JobVerdicts

/-!
# The blocks proposed to the node, and the verdicts kept of them

`job_verdict` of `prime/src/connection/shares.rs` proposes a job's block to the node, or takes the verdict kept of
one proposed before. A verdict is kept with the job, under the digest of the coinbase: it is of a block of that job
with the transactions the job still holds.
-/

namespace Ratum

/-- A block proposed to the node, as a share rebuilt it, and the answer. -/
structure Proposal where
  s : PowSubmit
  rebuilt : RebuiltShare
  txns : List Bytes
  answer : NodeAnswer

/-- The node takes the block, or has it. -/
def Proposal.taken (p : Proposal) : Prop := p.answer = .ok none ∨ p.answer = .ok (some "duplicate")

/-- The bytes the digest of a coinbase is of. -/
def CoinbaseSection.digested (cb : CoinbaseSection) (subsidyOnly : Bool) : Bytes :=
  cb.coinb1 ++ cb.coinb2 ++ [if subsidyOnly then 1 else 0]

/-- Rebuilt on a coinbase section, whose digest it carries. -/
structure RebuiltShare.OnCoinbase (H : Hashing) (s : PowSubmit) (cb : CoinbaseSection) (rebuilt : RebuiltShare) :
    Prop where
  tx : ∃ i, rebuilt.coinbaseTx = (cb.assemble (List.replicate EXTRANONCE_SIZE 0)).set i s.targetByte
  digest : rebuilt.coinbaseDigest = H.sha256d (cb.digested s.subsidyOnly)

/-- The verdict on a job's block with a coinbase: the node took a proposal of the job, with that coinbase and the
transactions of the job. -/
structure Proposal.Validates (H : Hashing) (slot : UInt8) (st : JobState) (digest : Hash) (version : UInt32)
    (p : Proposal) : Prop where
  slot : p.s.jobId = slot
  generation : p.rebuilt.jobGeneration = some st.generation
  digest : p.rebuilt.coinbaseDigest = digest
  version : p.rebuilt.version = version
  txns : st.blockTxns p.s.subsidyOnly = some p.txns
  taken : p.taken
  coinbase : ∃ cb, p.rebuilt.OnCoinbase H p.s cb

def TxnRequest.isFor (request : TxnRequest) (jobId : UInt8) (generation : Nat) : Prop :=
  request.jobId = jobId ∧ request.generation = generation

variable {H : Hashing} {proposals proposals' : List Proposal} {conn conn' : ShareConnection} {v' : Verifier}
  {io : SettleInputs} {relayedBlocks : BoundedSet Hash} {s : PowSubmit} {verified : Verified}
  {rebuilt : RebuiltShare} {jobId slot : UInt8} {generation now : Nat} {st st' : JobState} {txns : JobTxns}

theorem Verifier.liveJob_eq_some {v : Verifier} (hlive : v.liveJob jobId generation = some st) :
    v.jobs jobId = some st ∧ st.generation = generation ∧ st.evicted = false := by
  obtain ⟨hst, hgen⟩ := Option.filter_eq_some_iff.mp hlive
  simp only [Bool.and_eq_true, decide_eq_true_eq, Bool.not_eq_true'] at hgen
  exact ⟨hst, hgen⟩

theorem Verifier.liveJob_of_jobs {v : Verifier} (hst : v.jobs jobId = some st)
    (hgeneration : st.generation = generation) (hevicted : st.evicted = false) :
    v.liveJob jobId generation = some st :=
  Option.filter_eq_some_iff.mpr ⟨hst, by
    simp only [hgeneration, hevicted, decide_true, Bool.not_false, Bool.and_self]⟩

theorem Verifier.jobs_setJobTxns_requested {v : Verifier} (hlive : v.liveJob jobId generation = some st) :
    (v.setJobTxns jobId generation .requested).2.jobs jobId = some { st with txns := .requested } := by
  rw [setJobTxns, hlive]
  exact Function.update_self ..

theorem Proposal.Validates.of_same {p : Proposal} {digest : Hash} {version : UInt32}
    (h : p.Validates H slot st digest version) (hgeneration : st'.generation = st.generation)
    (htxns : ∀ txns, st.blockTxns p.s.subsidyOnly = some txns → st'.blockTxns p.s.subsidyOnly = some txns) :
    p.Validates H slot st' digest version where
  slot := h.slot
  generation := hgeneration ▸ h.generation
  digest := h.digest
  version := h.version
  txns := htxns _ h.txns
  taken := h.taken
  coinbase := h.coinbase

/-- Transactions change nothing of a block that has none. -/
theorem JobState.blockTxns_setTxns (hnone : st.txns.isHeld = false) (txns : JobTxns) {subsidyOnly : Bool}
    {list : List Bytes} (hlist : st.blockTxns subsidyOnly = some list) :
    { st with txns }.blockTxns subsidyOnly = some list := by
  unfold JobState.blockTxns at hlist ⊢
  split at hlist
  · rename_i hempty
    rw [if_pos hempty]
    exact hlist
  · split at hlist
    · rename_i held hheld
      rw [hheld] at hnone
      cases hnone
    · cases hlist

namespace ShareConnection

/-- What settling a share proposes to the node, when the share would be credited and no verdict is kept. -/
def proposes (conn : ShareConnection) (io : SettleInputs) (s : PowSubmit) (verified : Verified) (now : Nat) :
    Option Proposal :=
  match verified with
  | .error _ => none
  | .ok rebuilt => do
      let generation ← rebuilt.jobGeneration
      let st ← conn.verifier.liveJob s.jobId generation
      let txns ← st.blockTxns s.subsidyOnly
      match st.checks.lookup rebuilt.coinbaseDigest with
      | some (.unavailable retryAt) => if retryAt ≤ now then some ⟨s, rebuilt, txns, io.proposal⟩ else none
      | some _ => none
      | none => some ⟨s, rebuilt, txns, io.proposal⟩

/-- Every verdict kept that credits shares is of a block proposed, with the transactions the job still holds; and
a request for a job's transactions is the only one for them, while they are awaited. -/
structure Sound (H : Hashing) (proposals : List Proposal) (conn : ShareConnection) : Prop where
  generated : conn.verifier.Generated
  validated : ∀ slot st, conn.verifier.jobs slot = some st → ∀ digest version,
    st.checks.lookup digest = some (.valid version) → ∃ p ∈ proposals, p.Validates H slot st digest version
  awaited : ∀ request ∈ conn.txnRequests, request.generation < conn.verifier.nextGeneration ∧
    ∀ st, conn.verifier.liveJob request.jobId request.generation = some st → st.txns = .requested
  unrepeated : conn.txnRequests.Pairwise fun request request' => ¬ request.isFor request'.jobId request'.generation

/-- The block of a share credited: its job is installed, and the node took a proposal of that job, with the
transactions it holds, whose coinbase and version are the share's. -/
structure Validated (H : Hashing) (proposals : List Proposal) (conn : ShareConnection) (s : PowSubmit)
    (rebuilt : RebuiltShare) (txns : List Bytes) (p : Proposal) : Prop where
  mem : p ∈ proposals
  job : ∃ generation st, rebuilt.jobGeneration = some generation ∧
    conn.verifier.liveJob s.jobId generation = some st ∧ st.blockTxns s.subsidyOnly = some txns ∧
    p.Validates H s.jobId st rebuilt.coinbaseDigest p.rebuilt.version
  version : (p.rebuilt.version ^^^ rebuilt.version) &&& ~~~VERSION_ROLLING_MASK = 0
  coinbase : ∃ cb, rebuilt.OnCoinbase H s cb

theorem Sound.mono (h : conn.Sound H proposals) (hsub : proposals ⊆ proposals') : conn.Sound H proposals' where
  generated := h.generated
  validated slot st hst digest version hcheck := by
    obtain ⟨p, hp, hvalidates⟩ := h.validated slot st hst digest version hcheck
    exact ⟨p, hsub hp, hvalidates⟩
  awaited := h.awaited
  unrepeated := h.unrepeated

theorem Validated.mono {txns : List Bytes} {p : Proposal} (h : conn.Validated H proposals s rebuilt txns p)
    (hsub : proposals ⊆ proposals') : conn.Validated H proposals' s rebuilt txns p :=
  ⟨hsub h.mem, h.job, h.version, h.coinbase⟩

theorem Sound.new (policy : SharePolicy) (splits : DictatedSplits) :
    (⟨(Verifier.new policy).restoreSplits splits, [], []⟩ : ShareConnection).Sound H proposals where
  generated := ⟨(Verifier.Generated.new policy).below, (Verifier.Generated.new policy).distinct⟩
  validated slot st hst := by cases hst
  awaited request hmem := by cases hmem
  unrepeated := .nil

/-- The shares held change nothing. -/
theorem Sound.withHeld (h : conn.Sound H proposals) (held : List HeldShare) :
    { conn with held }.Sound H proposals := ⟨h.generated, h.validated, h.awaited, h.unrepeated⟩

/-- A step of the verifier that carries its verdicts. -/
theorem Sound.carries (h : conn.Sound H proposals) (hcarries : conn.verifier.Carries v') (hgenerated : v'.Generated) :
    { conn with verifier := v' }.Sound H proposals where
  generated := hgenerated
  unrepeated := h.unrepeated
  validated slot st' hst' digest version hcheck := by
    have hempty (hchecks : st'.checks = ∅) : False := by
      rw [hchecks, AList.lookup_empty] at hcheck
      cases hcheck
    cases hcarries.slots slot st' hst' with
    | kept st hst hjob hgeneration hevicted htxns hchecks =>
        obtain ⟨p, hp, hvalidates⟩ := h.validated slot st hst digest version (hchecks ▸ hcheck)
        refine ⟨p, hp, hvalidates.of_same hgeneration fun txns htaken => ?_⟩
        rw [JobState.blockTxns, hjob, htxns]
        exact htaken
    | released st hst hheld hgeneration hevicted hchecks => exact (hempty hchecks).elim
    | evicted hevicted hchecks => exact (hempty hchecks).elim
    | installed hgeneration hchecks => exact (hempty hchecks).elim
  awaited request hmem := by
    obtain ⟨hbelow, hawaited⟩ := h.awaited request hmem
    refine ⟨hbelow.trans_le hcarries.next, fun st' hlive => ?_⟩
    obtain ⟨hst', hgeneration', hlive'⟩ := Verifier.liveJob_eq_some hlive
    cases hcarries.slots request.jobId st' hst' with
    | kept st hst hjob hgeneration hevicted htxns hchecks =>
        exact htxns.trans (hawaited st
          (Verifier.liveJob_of_jobs hst (hgeneration.symm.trans hgeneration') (hevicted.symm.trans hlive')))
    | released st hst hheld hgeneration hevicted hchecks =>
        have hrequested := hawaited st
          (Verifier.liveJob_of_jobs hst (hgeneration.symm.trans hgeneration') (hevicted.symm.trans hlive'))
        rw [hrequested] at hheld
        cases hheld
    | evicted hevicted hchecks =>
        rw [hevicted] at hlive'
        cases hlive'
    | installed hgeneration hchecks => omega

/-- The transactions of a job that holds none are set, and no request for them is left. -/
theorem Sound.setJobTxns (h : conn.Sound H proposals) (jobId : UInt8) (generation : Nat)
    (hnone : ∀ st, conn.verifier.liveJob jobId generation = some st → st.txns.isHeld = false)
    (hother : ∀ request ∈ conn.txnRequests, ¬ request.isFor jobId generation) (txns : JobTxns) :
    { conn with verifier := (conn.verifier.setJobTxns jobId generation txns).2 }.Sound H proposals := by
  rw [Verifier.setJobTxns]
  cases hlive : conn.verifier.liveJob jobId generation with
  | none => exact h
  | some st =>
      obtain ⟨hst, hgeneration, hevicted⟩ := Verifier.liveJob_eq_some hlive
      have hsame : st.Becomes conn.verifier.tip { st with txns } := ⟨rfl, rfl, .inl⟩
      have hset : { conn with
          verifier := { conn.verifier with
            jobs := Function.update conn.verifier.jobs jobId (some { st with txns }) } }.Sound H proposals := by
        refine ⟨h.generated.keeps (Verifier.updateLive_keeps hlive hsame rfl), ?_, ?_, h.unrepeated⟩
        · intro slot st' hst' digest version hcheck
          dsimp only at hst'
          obtain rfl | hne := eq_or_ne slot jobId
          · rw [Function.update_self] at hst'
            obtain rfl := Option.some.inj hst'
            obtain ⟨p, hp, hvalidates⟩ := h.validated slot st hst digest version hcheck
            exact ⟨p, hp, hvalidates.of_same rfl fun list => JobState.blockTxns_setTxns (hnone st hlive) txns⟩
          · rw [Function.update_of_ne hne] at hst'
            exact h.validated slot st' hst' digest version hcheck
        · intro request hmem
          obtain ⟨hbelow, hawaited⟩ := h.awaited request hmem
          refine ⟨hbelow, fun st' hlive' => ?_⟩
          obtain ⟨hst', hgeneration', hevicted'⟩ := Verifier.liveJob_eq_some hlive'
          dsimp only at hst'
          by_cases hslot : request.jobId = jobId
          · rw [hslot, Function.update_self] at hst'
            obtain rfl := Option.some.inj hst'
            exact absurd ⟨hslot, hgeneration'.symm.trans hgeneration⟩ (hother request hmem)
          · rw [Function.update_of_ne hslot] at hst'
            exact hawaited st' (Verifier.liveJob_of_jobs hst' hgeneration' hevicted')
      dsimp only
      split
      · exact hset.carries (Verifier.releaseOldestHeldTxns_carries _)
          (hset.generated.keeps (Verifier.releaseOldestHeldTxns_keeps _))
      · exact hset

/-- A request for the transactions of a job that are awaited. -/
theorem Sound.addRequest (h : conn.Sound H proposals) (request : TxnRequest)
    (hother : ∀ request' ∈ conn.txnRequests, ¬ request'.isFor request.jobId request.generation)
    (hbelow : request.generation < conn.verifier.nextGeneration)
    (hawaited : ∀ st, conn.verifier.liveJob request.jobId request.generation = some st → st.txns = .requested) :
    { conn with txnRequests := conn.txnRequests ++ [request] }.Sound H proposals where
  generated := h.generated
  validated := h.validated
  awaited request' hmem := by
    obtain hmem | hmem := List.mem_append.mp hmem
    · exact h.awaited request' hmem
    · obtain rfl := List.mem_singleton.mp hmem
      exact ⟨hbelow, hawaited⟩
  unrepeated := by
    refine List.pairwise_append.mpr ⟨h.unrepeated, List.pairwise_singleton .., fun request' hmem last hlast => ?_⟩
    obtain rfl := List.mem_singleton.mp hlast
    exact hother request' hmem

/-- The transactions of a job that holds them are those of its block. -/
theorem Sound.jobTxns (h : conn.Sound H proposals) {answer : Txns}
    (htxns : conn.jobTxns io s generation = .ok (answer, conn')) :
    conn'.Sound H proposals ∧ ∀ list, answer = .ready list → conn' = conn ∧
      ∃ st, conn.verifier.liveJob s.jobId generation = some st ∧ st.blockTxns s.subsidyOnly = some list := by
  unfold ShareConnection.jobTxns at htxns
  cases hlive : conn.verifier.liveJob s.jobId generation with
  | none =>
      rw [hlive] at htxns
      cases htxns
      exact ⟨h, fun list hready => by cases hready⟩
  | some st =>
      rw [hlive] at htxns
      dsimp only at htxns
      split at htxns
      · rename_i hempty
        cases htxns
        refine ⟨h, fun list hready => ⟨rfl, st, rfl, ?_⟩⟩
        obtain rfl := Txns.ready.inj hready
        exact if_pos hempty
      · rename_i hfull
        split at htxns
        · rename_i held hheld
          cases htxns
          refine ⟨h, fun list hready => ⟨rfl, st, rfl, ?_⟩⟩
          obtain rfl := Txns.ready.inj hready
          rw [JobState.blockTxns, if_neg hfull, hheld]
        · cases htxns
          exact ⟨h, fun list hready => by cases hready⟩
        · cases htxns
          exact ⟨h, fun list hready => by cases hready⟩
        · rename_i hunrequested
          split at htxns
          · cases htxns
            exact ⟨h, fun list hready => by cases hready⟩
          · cases hsent : io.sent with
            | error e =>
                rw [hsent] at htxns
                cases htxns
            | ok _ =>
                rw [hsent] at htxns
                cases htxns
                refine ⟨?_, fun list hready => by cases hready⟩
                -- No request for these transactions stands while they are not requested.
                have hother : ∀ request ∈ conn.txnRequests, ¬ request.isFor s.jobId generation := by
                  rintro request hmem ⟨hslot, hgeneration⟩
                  have hrequested := (h.awaited request hmem).2 st (by rw [hslot, hgeneration, hlive])
                  rw [hunrequested] at hrequested
                  cases hrequested
                have hset := h.setJobTxns s.jobId generation (fun st' hlive' => by
                  rw [hlive] at hlive'
                  obtain rfl := Option.some.inj hlive'
                  rw [hunrequested]
                  rfl) hother .requested
                obtain ⟨hst, hgeneration, hevicted⟩ := Verifier.liveJob_eq_some hlive
                refine hset.addRequest ⟨s.jobId, generation, io.now⟩ hother ?_ fun st' hlive' => ?_
                · have hnext : (conn.verifier.setJobTxns s.jobId generation .requested).2.nextGeneration =
                      conn.verifier.nextGeneration :=
                    (conn.verifier.setJobTxns_keeps s.jobId generation .requested).next
                  have hbelow := h.generated.below s.jobId st hst
                  dsimp only
                  omega
                · obtain ⟨hst', -⟩ := Verifier.liveJob_eq_some hlive'
                  obtain rfl := Option.some.inj ((Verifier.jobs_setJobTxns_requested hlive).symm.trans hst')
                  rfl

/-! ### The node's verdict -/

/-- The node's verdict on a job's block, kept with the job. -/
theorem Sound.recordBlockCheck (h : conn.Sound H proposals) {digest : Hash} {check : BlockCheck}
    (hvalid : ∀ version st, check = .valid version → conn.verifier.liveJob jobId generation = some st →
      ∃ p ∈ proposals, p.Validates H jobId st digest version) :
    { conn with verifier := conn.verifier.recordBlockCheck jobId generation digest check }.Sound H proposals := by
  have hkeeps := conn.verifier.recordBlockCheck_keeps jobId generation digest check
  rw [Verifier.recordBlockCheck] at hkeeps ⊢
  cases hlive : conn.verifier.liveJob jobId generation with
  | none => exact h
  | some st =>
      rw [hlive] at hkeeps
      obtain ⟨hst, hgeneration, hevicted⟩ := Verifier.liveJob_eq_some hlive
      refine ⟨h.generated.keeps hkeeps, ?_, ?_, h.unrepeated⟩
      · intro slot st' hst' digest' version hcheck
        dsimp only at hst'
        obtain rfl | hne := eq_or_ne slot jobId
        · rw [Function.update_self] at hst'
          obtain rfl := Option.some.inj hst'
          dsimp only at hcheck
          obtain rfl | hother := eq_or_ne digest' digest
          · rw [AList.lookup_insert] at hcheck
            obtain ⟨p, hp, hvalidates⟩ := hvalid version st (Option.some.inj hcheck) hlive
            exact ⟨p, hp, hvalidates.of_same rfl fun _ => id⟩
          · rw [AList.lookup_insert_ne hother] at hcheck
            split at hcheck
            · rw [AList.lookup_empty] at hcheck
              cases hcheck
            · obtain ⟨p, hp, hvalidates⟩ := h.validated slot st hst digest' version hcheck
              exact ⟨p, hp, hvalidates.of_same rfl fun _ => id⟩
        · rw [Function.update_of_ne hne] at hst'
          exact h.validated slot st' hst' digest' version hcheck
      · intro request hmem
        obtain ⟨hbelow, hawaited⟩ := h.awaited request hmem
        refine ⟨hbelow, fun st' hlive' => ?_⟩
        obtain ⟨hst', hgeneration', hevicted'⟩ := Verifier.liveJob_eq_some hlive'
        dsimp only at hst'
        by_cases hslot : request.jobId = jobId
        · rw [hslot, Function.update_self] at hst'
          obtain rfl := Option.some.inj hst'
          exact hawaited st (Verifier.liveJob_of_jobs (hslot ▸ hst) hgeneration' hevicted')
        · rw [Function.update_of_ne hslot] at hst'
          exact hawaited st' (Verifier.liveJob_of_jobs hst' hgeneration' hevicted')

/-- A block is found valid when the node takes it, and by its own version. -/
theorem blockCheckFrom_valid {proposal : NodeAnswer} {version version' : UInt32} {wholeJob : Bool}
    (hcheck : blockCheckFrom proposal version now = (.valid version', wholeJob)) :
    version' = version ∧ (proposal = .ok none ∨ proposal = .ok (some "duplicate")) := by
  unfold blockCheckFrom at hcheck
  split at hcheck
  · cases hcheck
    exact ⟨rfl, .inl rfl⟩
  · cases hcheck
    exact ⟨rfl, .inr rfl⟩
  · cases hcheck
  · cases hcheck
  · cases hcheck
  · cases hcheck
  · cases hcheck
  · cases hcheck
  · cases hcheck
  · cases hcheck
  · split at hcheck
    · cases hcheck
    · split at hcheck
      · cases hcheck
      · split at hcheck <;> cases hcheck

/-- The job a verdict is kept with is the one it was, its verdicts apart. -/
theorem liveJob_recordBlockCheck (v : Verifier) (hlive : v.liveJob jobId generation = some st) (digest : Hash)
    (check : BlockCheck) : ∃ checks,
      (v.recordBlockCheck jobId generation digest check).liveJob jobId generation = some { st with checks } := by
  obtain ⟨hst, hgeneration, hevicted⟩ := Verifier.liveJob_eq_some hlive
  rw [Verifier.recordBlockCheck, hlive]
  exact ⟨_, Verifier.liveJob_of_jobs (Function.update_self ..) hgeneration hevicted⟩

section Proposed

variable {list : List Bytes}

/-- What settling a share on a job proposes, by the verdict kept. -/
theorem proposes_eq (hgeneration : rebuilt.jobGeneration = some generation)
    (hlive : conn.verifier.liveJob s.jobId generation = some st)
    (hlist : st.blockTxns s.subsidyOnly = some list) :
    conn.proposes io s (.ok rebuilt) now = match st.checks.lookup rebuilt.coinbaseDigest with
      | some (.unavailable retryAt) => if retryAt ≤ now then some ⟨s, rebuilt, list, io.proposal⟩ else none
      | some _ => none
      | none => some ⟨s, rebuilt, list, io.proposal⟩ := by
  simp only [proposes, hgeneration, hlive, hlist, Option.bind_eq_bind, Option.bind_some]

/-- A block proposed now: its verdict is of the proposal, and is kept. -/
theorem Sound.checkBlock (h : conn.Sound H proposals) (hgeneration : rebuilt.jobGeneration = some generation)
    (hlive : conn.verifier.liveJob s.jobId generation = some st)
    (hlist : st.blockTxns s.subsidyOnly = some list) (hcoinbase : ∃ cb, rebuilt.OnCoinbase H s cb) :
    (conn.checkBlock io s rebuilt generation now).2.Sound H (proposals ++ [⟨s, rebuilt, list, io.proposal⟩]) ∧
    (∃ checks, (conn.checkBlock io s rebuilt generation now).2.verifier.liveJob s.jobId generation =
      some { st with checks }) ∧
    ∀ version, (conn.checkBlock io s rebuilt generation now).1 = .valid version →
      ∃ p ∈ proposals ++ [⟨s, rebuilt, list, io.proposal⟩],
        p.Validates H s.jobId st rebuilt.coinbaseDigest version := by
  have hgeneration' := (Verifier.liveJob_eq_some hlive).2.1
  have hvalid (version : UInt32) (hcheck : (blockCheckFrom io.proposal rebuilt.version now).1 = .valid version) :
      ∃ p ∈ proposals ++ [⟨s, rebuilt, list, io.proposal⟩],
        p.Validates H s.jobId st rebuilt.coinbaseDigest version := by
    obtain ⟨rfl, htaken⟩ := blockCheckFrom_valid (Prod.ext hcheck rfl :
      blockCheckFrom io.proposal rebuilt.version now = (.valid version, _))
    refine ⟨_, List.mem_append_right _ (List.mem_singleton_self _), rfl, ?_, rfl, rfl, hlist, htaken, hcoinbase⟩
    rw [hgeneration']
    exact hgeneration
  have h' := h.mono (List.subset_append_left proposals [⟨s, rebuilt, list, io.proposal⟩])
  rw [ShareConnection.checkBlock]
  refine ⟨?_, ?_, hvalid⟩
  · dsimp only
    split
    · refine h'.recordBlockCheck fun version st' hcheck hlive' => ?_
      rw [hlive] at hlive'
      obtain rfl := Option.some.inj hlive'
      exact hvalid version hcheck
    · exact h'
  · dsimp only
    split
    · exact liveJob_recordBlockCheck _ hlive _ _
    · exact ⟨st.checks, hlive⟩

/-- The verdict on a share's block is of a proposal, made now or before. -/
theorem Sound.blockCheck (h : conn.Sound H proposals) (io : SettleInputs) (now : Instant)
    (hgeneration : rebuilt.jobGeneration = some generation)
    (hlive : conn.verifier.liveJob s.jobId generation = some st)
    (hlist : st.blockTxns s.subsidyOnly = some list) (hcoinbase : ∃ cb, rebuilt.OnCoinbase H s cb) :
    (conn.blockCheck io s rebuilt generation now).2.Sound H
      (proposals ++ (conn.proposes io s (.ok rebuilt) now).toList) ∧
    (∃ checks, (conn.blockCheck io s rebuilt generation now).2.verifier.liveJob s.jobId generation =
      some { st with checks }) ∧
    ∀ version, (conn.blockCheck io s rebuilt generation now).1 = .valid version →
      ∃ p ∈ proposals ++ (conn.proposes io s (.ok rebuilt) now).toList,
        p.Validates H s.jobId st rebuilt.coinbaseDigest version := by
  rw [proposes_eq hgeneration hlive hlist, ShareConnection.blockCheck, hlive, Option.bind_some]
  cases hkept : st.checks.lookup rebuilt.coinbaseDigest with
  | none => exact h.checkBlock hgeneration hlive hlist hcoinbase
  | some check =>
      cases check with
      | valid version =>
          refine ⟨h.mono (List.subset_append_left _ _), ⟨st.checks, hlive⟩, fun version' hvalid => ?_⟩
          obtain rfl := BlockCheck.valid.inj hvalid
          obtain ⟨p, hp, hvalidates⟩ :=
            h.validated s.jobId st (Verifier.liveJob_eq_some hlive).1 rebuilt.coinbaseDigest version hkept
          exact ⟨p, List.mem_append_left _ hp, hvalidates⟩
      | invalid reason =>
          exact ⟨h.mono (List.subset_append_left _ _), ⟨st.checks, hlive⟩,
            fun version' hvalid => by cases hvalid⟩
      | unavailable retryAt =>
          dsimp only
          split
          · exact h.checkBlock hgeneration hlive hlist hcoinbase
          · exact ⟨h.mono (List.subset_append_left _ _), ⟨st.checks, hlive⟩,
              fun version' hvalid => by cases hvalid⟩

/-- A verdict that credits a share is of a block of its version. -/
theorem verdictOf_valid {check : BlockCheck} {list' : List Bytes}
    (hvalid : verdictOf rebuilt list check = .valid list') : list' = list ∧ ∃ version, check = .valid version ∧
      (version ^^^ rebuilt.version) &&& ~~~VERSION_ROLLING_MASK = 0 := by
  unfold verdictOf at hvalid
  split at hvalid
  · rename_i version
    split at hvalid
    · cases hvalid
    · rename_i hversion
      exact ⟨(JobVerdict.valid.inj hvalid).symm, version, rfl, not_not.mp hversion⟩
  · cases hvalid
  · cases hvalid
  · cases hvalid

/-- A share judged for credit is one that verified. -/
theorem judged_credited (hjudged : conn.judged relayedBlocks verified = some (rebuilt, true)) :
    verified = .ok rebuilt := by
  unfold judged at hjudged
  split at hjudged
  · cases hjudged
    rfl
  · split at hjudged <;> cases hjudged
  · cases hjudged

/-- A share that would be credited has its block validated. -/
theorem Sound.jobVerdict (h : conn.Sound H proposals)
    (hcoinbase : ∀ rebuilt, verified = .ok rebuilt → ∃ cb, rebuilt.OnCoinbase H s cb) {verdict : JobVerdict}
    (hverdict : conn.jobVerdict io relayedBlocks s verified now = .ok (verdict, conn')) :
    conn'.Sound H (proposals ++ (conn.proposes io s verified now).toList) ∧
    ∀ rebuilt list, verified = .ok rebuilt → verdict = .valid list →
      ∃ p, conn'.Validated H (proposals ++ (conn.proposes io s verified now).toList) s rebuilt list p := by
  have hsame := h.mono (List.subset_append_left proposals (conn.proposes io s verified now).toList)
  unfold ShareConnection.jobVerdict at hverdict
  split at hverdict
  · cases hverdict
    exact ⟨hsame, fun rebuilt list hverified hvalid => by cases hvalid⟩
  · rename_i rebuilt credited hjudged
    dsimp only at hverdict
    cases hgeneration : rebuilt.jobGeneration with
    | none =>
        rw [hgeneration] at hverdict
        cases hverdict
        exact ⟨hsame, fun rebuilt' list hverified hvalid => by cases credited <;> cases hvalid⟩
    | some generation =>
        rw [hgeneration] at hverdict
        dsimp only at hverdict
        cases htxns : conn.jobTxns io s generation with
        | error e =>
            rw [htxns] at hverdict
            cases hverdict
        | ok asked =>
            obtain ⟨answer, conn₁⟩ := asked
            rw [htxns] at hverdict
            obtain ⟨hasked, hready⟩ := h.jobTxns htxns
            have hasked' := hasked.mono
              (List.subset_append_left proposals (conn.proposes io s verified now).toList)
            cases answer with
            | pending =>
                cases hverdict
                exact ⟨hasked', fun rebuilt' list hverified hvalid => by cases hvalid⟩
            | refused reason =>
                cases hverdict
                exact ⟨hasked', fun rebuilt' list hverified hvalid => by cases credited <;> cases hvalid⟩
            | ready list =>
                cases credited with
                | false =>
                    cases hverdict
                    exact ⟨hasked', fun rebuilt' list' hverified hvalid => by cases hvalid⟩
                | true =>
                    obtain rfl : verified = .ok rebuilt := judged_credited hjudged
                    obtain ⟨rfl, st, hlive, hlist⟩ := hready list rfl
                    obtain ⟨hsound, ⟨checks, hlive'⟩, hvalidated⟩ :=
                      h.blockCheck io now hgeneration hlive hlist (hcoinbase rebuilt rfl)
                    cases hverdict
                    refine ⟨hsound, fun rebuilt' list' hverified hvalid => ?_⟩
                    obtain rfl := Except.ok.inj hverified
                    obtain ⟨rfl, version, hcheck, hversion⟩ := verdictOf_valid hvalid
                    obtain ⟨p, hp, hvalidates⟩ := hvalidated version hcheck
                    obtain rfl := hvalidates.version
                    exact ⟨p, hp, ⟨generation, _, hgeneration, hlive', hlist, hvalidates.of_same rfl fun _ => id⟩,
                      hversion, hcoinbase rebuilt rfl⟩

theorem Sound.settleVerified (h : conn.Sound H proposals)
    (hcoinbase : ∀ rebuilt, verified = .ok rebuilt → ∃ cb, rebuilt.OnCoinbase H s cb) {settled : Settled}
    (hsettled : conn.settleVerified io relayedBlocks s verified now = .ok (settled, conn')) :
    conn'.Sound H (proposals ++ (conn.proposes io s verified now).toList) ∧
    ∀ rebuilt list, settled = .answered (.ok rebuilt) (.valid list) → verified = .ok rebuilt ∧
      ∃ p, conn'.Validated H (proposals ++ (conn.proposes io s verified now).toList) s rebuilt list p := by
  unfold ShareConnection.settleVerified at hsettled
  cases hverdict : conn.jobVerdict io relayedBlocks s verified now with
  | error e =>
      rw [hverdict] at hsettled
      cases hsettled
  | ok answered =>
      obtain ⟨verdict, conn₁⟩ := answered
      rw [hverdict] at hsettled
      obtain ⟨hsound, hvalidated⟩ := h.jobVerdict hcoinbase hverdict
      cases verdict with
      | pending generation =>
          simp only [bind, Except.bind] at hsettled
          split at hsettled
          · cases hsettled
            exact ⟨hsound.withHeld _, fun rebuilt list hanswered => by cases hanswered⟩
          · cases hsettled
            exact ⟨hsound, fun rebuilt list hanswered => by cases hanswered⟩
      | valid list =>
          cases hsettled
          refine ⟨hsound, fun rebuilt list' hanswered => ?_⟩
          cases hanswered
          exact ⟨rfl, hvalidated rebuilt list rfl rfl⟩
      | _ =>
          cases hsettled
          exact ⟨hsound, fun rebuilt list hanswered => by cases hanswered⟩

/-- **A share settled is credited on a validated block only**, and the verdicts kept stay of blocks proposed. -/
theorem Sound.settle (h : conn.Sound H proposals)
    (hcoinbase : ∀ rebuilt, verified = .ok rebuilt → ∃ cb, rebuilt.OnCoinbase H s cb) {settled : Settled}
    {parentHold : Option Instant}
    (hsettled : conn.settle io relayedBlocks s verified now parentHold = .ok (settled, conn')) :
    conn'.Sound H (proposals ++ (conn.proposes io s verified now).toList) ∧
    ∀ rebuilt list, settled = .answered (.ok rebuilt) (.valid list) → verified = .ok rebuilt ∧
      ∃ p, conn'.Validated H (proposals ++ (conn.proposes io s verified now).toList) s rebuilt list p := by
  unfold ShareConnection.settle at hsettled
  split at hsettled
  · -- a refused share proposes nothing
    have hrefused {refusal : Refusal}
        (hsettled : conn.settleVerified io relayedBlocks s (.error refusal) now = .ok (settled, conn')) :
        conn'.Sound H (proposals ++ []) ∧ ∀ rebuilt list, settled ≠ .answered (.ok rebuilt) (.valid list) := by
      obtain ⟨hsound, hanswered⟩ := h.settleVerified (fun rebuilt hverified => by cases hverified) hsettled
      refine ⟨hsound, fun rebuilt list hvalid => ?_⟩
      obtain ⟨hverified, -⟩ := hanswered rebuilt list hvalid
      cases hverified
    have hsound : conn'.Sound H (proposals ++ []) ∧
        ∀ rebuilt list, settled ≠ .answered (.ok rebuilt) (.valid list) := by
      split at hsettled
      · exact hrefused hsettled
      · split at hsettled
        · split at hsettled
          · cases hsettled
            exact ⟨(h.mono (List.subset_append_left _ _)).withHeld _, fun rebuilt list hvalid => by cases hvalid⟩
          · exact hrefused hsettled
        · exact hrefused hsettled
    exact ⟨hsound.1, fun rebuilt list hvalid => absurd hvalid (hsound.2 rebuilt list)⟩
  · exact h.settleVerified hcoinbase hsettled

end Proposed

/-! ### The shares held -/

/-- A share held was held before, or is the one settled, as it verified. -/
theorem held_settleVerified {settled : Settled}
    (hsettled : conn.settleVerified io relayedBlocks s verified now = .ok (settled, conn')) {share : HeldShare}
    (hmem : share ∈ conn'.held) : share ∈ conn.held ∨ share.s = s ∧ share.verified = verified := by
  unfold settleVerified at hsettled
  cases hverdict : conn.jobVerdict io relayedBlocks s verified now with
  | error e =>
      rw [hverdict] at hsettled
      cases hsettled
  | ok answered =>
      obtain ⟨verdict, conn₁⟩ := answered
      rw [hverdict] at hsettled
      have hheld := held_jobVerdict hverdict
      cases verdict with
      | pending generation =>
          simp only [bind, Except.bind] at hsettled
          split at hsettled
          · cases hsettled
            obtain hmem | hmem := List.mem_append.mp hmem
            · exact .inl (hheld ▸ hmem)
            · obtain rfl := List.mem_singleton.mp hmem
              exact .inr ⟨rfl, rfl⟩
          · cases hsettled
            exact .inl (hheld ▸ hmem)
      | _ =>
          cases hsettled
          exact .inl (hheld ▸ hmem)

/-- A share held that verified was held before, or is the one settled. -/
theorem held_settle {settled : Settled} {parentHold : Option Instant}
    (hsettled : conn.settle io relayedBlocks s verified now parentHold = .ok (settled, conn')) {share : HeldShare}
    (hmem : share ∈ conn'.held) (hverified : share.verified = .ok rebuilt) :
    share ∈ conn.held ∨ share.s = s ∧ verified = .ok rebuilt := by
  unfold settle at hsettled
  split at hsettled
  · have hrefused {refusal : Refusal}
        (hsettled : conn.settleVerified io relayedBlocks s (.error refusal) now = .ok (settled, conn')) :
        share ∈ conn.held := by
      obtain hmem | ⟨-, hsame⟩ := held_settleVerified hsettled hmem
      · exact hmem
      · rw [hsame] at hverified
        cases hverified
    split at hsettled
    · exact .inl (hrefused hsettled)
    · split at hsettled
      · split at hsettled
        · cases hsettled
          obtain hmem | hmem := List.mem_append.mp hmem
          · exact .inl hmem
          · obtain rfl := List.mem_singleton.mp hmem
            cases hverified
        · exact .inl (hrefused hsettled)
      · exact .inl (hrefused hsettled)
  · obtain hmem | ⟨hs, hsame⟩ := held_settleVerified hsettled hmem
    · exact .inl hmem
    · exact .inr ⟨hs, hsame ▸ hverified⟩

/-! ### The requests -/

theorem Sound.withRequests (h : conn.Sound H proposals) {txnRequests : List TxnRequest}
    (hsub : txnRequests.Sublist conn.txnRequests) : { conn with txnRequests }.Sound H proposals where
  generated := h.generated
  validated := h.validated
  awaited request hmem := h.awaited request (hsub.subset hmem)
  unrepeated := h.unrepeated.sublist hsub

/-- A request answered, or given up: the transactions of its job are set. -/
theorem Sound.answerRequest (h : conn.Sound H proposals) {due : TxnRequest → Bool} {request : TxnRequest}
    (hfound : conn.txnRequests.find? due = some request) (txns : JobTxns) :
    ({ conn with
      txnRequests := conn.txnRequests.eraseP due
      verifier := (conn.verifier.setJobTxns request.jobId request.generation txns).2 } :
        ShareConnection).Sound H proposals := by
  refine (h.withRequests List.eraseP_sublist).setJobTxns _ _ (fun st hlive => ?_) (fun request' hmem => ?_) txns
  · rw [(h.awaited request (List.mem_of_find?_eq_some hfound)).2 st hlive]
    rfl
  · obtain ⟨hdue, before, after, hsplit, hbefore⟩ := List.find?_eq_some_iff_append.mp hfound
    have hrest : conn.txnRequests.eraseP due = before ++ after := by
      rw [hsplit, List.eraseP_append_right _ fun request hmem => by simpa using hbefore request hmem,
        List.eraseP_cons_of_pos hdue]
    have hunrepeated := h.unrepeated
    rw [hsplit, List.pairwise_append, List.pairwise_cons] at hunrepeated
    obtain ⟨-, ⟨hafter, -⟩, hacross⟩ := hunrepeated
    dsimp only at hmem
    rw [hrest] at hmem
    obtain hmem | hmem := List.mem_append.mp hmem
    · exact hacross request' hmem request List.mem_cons_self
    · rintro ⟨hslot, hgeneration⟩
      exact hafter request' hmem ⟨hslot.symm, hgeneration.symm⟩

end ShareConnection
end Ratum
