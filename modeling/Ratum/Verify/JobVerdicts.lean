import Ratum.Verify.HeldTxns

/-!
# What a step leaves of a job's verdicts

The node's verdicts are kept by the job, beside the transactions they were asked with. A step of the verifier keeps
both, or clears the verdicts: of a job evicted, of one whose transactions are released, and of one just installed.
-/

namespace Ratum

/-- The transactions of a block on the job: none of subsidy-only work, else those held. -/
def JobState.blockTxns (st : JobState) (subsidyOnly : Bool) : Option (List Bytes) :=
  if subsidyOnly || st.job.txnCount = 0 then some []
  else
    match st.txns with
    | .held txns => some txns
    | _ => none

namespace Verifier

variable {H : Hashing} {v v' v'' : Verifier} {slot : UInt8} {st st' : JobState} {s : PowSubmit} {now : Nat}

/-- What a job in a slot comes from: from the same job with its transactions and its verdicts, or it has no
verdicts. -/
inductive Carried (v : Verifier) (slot : UInt8) (st' : JobState) : Prop
  | kept (st : JobState) (hst : v.jobs slot = some st) (hjob : st'.job = st.job)
      (hgeneration : st'.generation = st.generation) (hevicted : st'.evicted = st.evicted)
      (htxns : st'.txns = st.txns) (hchecks : st'.checks = st.checks)
  | released (st : JobState) (hst : v.jobs slot = some st) (hheld : st.txns.isHeld = true)
      (hgeneration : st'.generation = st.generation) (hevicted : st'.evicted = st.evicted)
      (hchecks : st'.checks = ∅)
  | evicted (hevicted : st'.evicted = true) (hchecks : st'.checks = ∅)
  | installed (hgeneration : v.nextGeneration ≤ st'.generation) (hchecks : st'.checks = ∅)

theorem Carried.refl (hst : v.jobs slot = some st) : v.Carried slot st := .kept st hst rfl rfl rfl rfl rfl

/-- A step that carries the verdicts of every slot. -/
structure Carries (v v' : Verifier) : Prop where
  slots : ∀ slot st', v'.jobs slot = some st' → v.Carried slot st'
  next : v.nextGeneration ≤ v'.nextGeneration

theorem Carries.of_jobs (hjobs : v'.jobs = v.jobs) (hnext : v'.nextGeneration = v.nextGeneration) : v.Carries v' where
  slots _ _ hst' := .refl (hjobs ▸ hst')
  next := hnext.ge

theorem Carries.trans (h : v.Carries v') (h' : v'.Carries v'') : v.Carries v'' where
  next := h.next.trans h'.next
  slots slot st'' hst'' := by
    cases h'.slots slot st'' hst'' with
    | evicted hevicted hchecks => exact .evicted hevicted hchecks
    | installed hgeneration hchecks => exact .installed (h.next.trans hgeneration) hchecks
    | kept st' hst' hjob hgeneration hevicted htxns hchecks =>
        cases h.slots slot st' hst' with
        | kept st hst hjob₀ hgeneration₀ hevicted₀ htxns₀ hchecks₀ =>
            exact .kept st hst (hjob.trans hjob₀) (hgeneration.trans hgeneration₀) (hevicted.trans hevicted₀)
              (htxns.trans htxns₀) (hchecks.trans hchecks₀)
        | released st hst hheld hgeneration₀ hevicted₀ hchecks₀ =>
            exact .released st hst hheld (hgeneration.trans hgeneration₀) (hevicted.trans hevicted₀)
              (hchecks.trans hchecks₀)
        | evicted hevicted₀ hchecks₀ => exact .evicted (hevicted.trans hevicted₀) (hchecks.trans hchecks₀)
        | installed hgeneration₀ hchecks₀ =>
            exact .installed (hgeneration₀.trans hgeneration.ge) (hchecks.trans hchecks₀)
    | released st' hst' hheld hgeneration hevicted hchecks =>
        cases h.slots slot st' hst' with
        | kept st hst hjob₀ hgeneration₀ hevicted₀ htxns₀ hchecks₀ =>
            exact .released st hst (htxns₀ ▸ hheld) (hgeneration.trans hgeneration₀) (hevicted.trans hevicted₀)
              hchecks
        | released st hst hheld₀ hgeneration₀ hevicted₀ hchecks₀ =>
            exact .released st hst hheld₀ (hgeneration.trans hgeneration₀) (hevicted.trans hevicted₀) hchecks
        | evicted hevicted₀ hchecks₀ => exact .evicted (hevicted.trans hevicted₀) hchecks
        | installed hgeneration₀ hchecks₀ => exact .installed (hgeneration₀.trans hgeneration.ge) hchecks

/-! ### The steps that carry them -/

theorem evictJobsOffRecentTips_carries (v : Verifier) (now : Nat) : v.Carries (v.evictJobsOffRecentTips now) where
  next := le_rfl
  slots slot st' hst' := by
    obtain ⟨st, hst, rfl⟩ := Option.map_eq_some_iff.mp hst'
    rw [evictOff]
    split
    · exact .refl hst
    · split
      · exact .kept st hst rfl rfl rfl rfl rfl
      · split
        · exact .evicted rfl rfl
        · exact .refl hst

theorem setTip_carries (v : Verifier) (tip : Option Hash) (now : Nat) : v.Carries (v.setTip tip now) := by
  have hset : v.Carries { v with
      recentTips := if v.tip ≠ tip then v.replaceTip now else v.recentTips
      tip := tip } := .of_jobs rfl rfl
  rw [setTip]
  split
  · exact hset.trans (evictJobsOffRecentTips_carries _ now)
  · exact hset

theorem withCoinbase_eq (st : JobState) (s : PowSubmit) :
    (st.withCoinbase s).job = st.job ∧ (st.withCoinbase s).generation = st.generation ∧
      (st.withCoinbase s).evicted = st.evicted ∧ (st.withCoinbase s).txns = st.txns ∧
      (st.withCoinbase s).checks = st.checks := by
  rw [JobState.withCoinbase]
  split <;> exact ⟨rfl, rfl, rfl, rfl, rfl⟩

theorem withSections_carries (v : Verifier) (s : PowSubmit) (rawPowHash : Hash) (now : Nat) :
    v.Carries (v.withSections s rawPowHash now) where
  next := (withSections_steps rawPowHash).next
  slots slot st' hst' := by
    obtain rfl | hne := eq_or_ne slot s.jobId
    · rw [withSections_jobs_self] at hst'
      cases hnew : v.bringsNewJob s with
      | true =>
          obtain ⟨job, hjob, -⟩ := bringsNewJob_eq_true hnew
          rw [installedIn_new hjob hnew] at hst'
          obtain rfl := Option.some.inj hst'
          obtain ⟨-, hgeneration, -, -, hchecks⟩ := withCoinbase_eq (v.newJobState job now) s
          exact .installed hgeneration.ge hchecks
      | false =>
          rw [installedIn_known hnew] at hst'
          obtain ⟨st, hst, rfl⟩ := Option.map_eq_some_iff.mp hst'
          obtain ⟨hjob, hgeneration, hevicted, htxns, hchecks⟩ := withCoinbase_eq st s
          exact .kept st hst hjob hgeneration hevicted htxns hchecks
    · rw [withSections_jobs_of_ne hne] at hst'
      exact .refl hst'

theorem installSections_carries {rawPowHash : Hash} (hinstall : v.installSections s rawPowHash now = .ok v') :
    v.Carries v' := by
  obtain ⟨-, rfl⟩ := installSections_eq hinstall
  split
  · exact (v.withSections_carries s rawPowHash now).trans (evictJobsOffRecentTips_carries _ now)
  · exact v.withSections_carries s rawPowHash now

theorem verify_carries (H : Hashing) (v : Verifier) (s : PowSubmit) (abw : Option AbwSlotState) (now : Nat) :
    v.Carries (v.verify H s abw now).2 := by
  obtain hsame | ⟨rawPowHash, job, cb, -, hinstall⟩ := verify_cases H v s abw now
  · rw [hsame]
    exact .of_jobs rfl rfl
  · exact installSections_carries hinstall

theorem releaseOldestHeldTxns_carries (v : Verifier) : v.Carries v.releaseOldestHeldTxns where
  next := le_rfl
  slots slot st' hst' := by
    by_cases holdest : slot ∈ v.oldestHolding
    · have hrelease : v.releaseOldestHeldTxns.jobs slot = (v.jobs slot).map JobState.releaseTxns := if_pos holdest
      rw [hrelease] at hst'
      obtain ⟨st, hst, rfl⟩ := Option.map_eq_some_iff.mp hst'
      obtain ⟨⟨generation, slot'⟩, hmem, rfl⟩ := List.mem_map.mp holdest
      obtain ⟨st₀, hst₀, hheld, -⟩ := mem_holding.mp (List.mem_of_mem_take hmem)
      obtain rfl := Option.some.inj (hst.symm.trans hst₀)
      exact .released st hst hheld rfl rfl rfl
    · have hkeep : v.releaseOldestHeldTxns.jobs slot = v.jobs slot := if_neg holdest
      rw [hkeep] at hst'
      exact .refl hst'

end Verifier
end Ratum
