import Ratum.Verify.Verify

/-!
# Runs of a connection's verifier

What a connection does to its verifier, in any order: the tip and the template set, splits dictated, saved
and restored, shares verified, and the transactions and the node's verdicts of the jobs they installed
set. One step leaves the job of a slot or installs another.
-/

namespace Ratum

inductive VerifierEvent
  | setTip (tip : Option Hash) (now : Nat)
  | setTemplate (next : Option NextBlock)
  | recordDictated (value : Nat) (prevHash : Hash) (outputs : List DictatedOutput) (now : Nat)
  | takeSplits
  | restoreSplits (splits : DictatedSplits)
  | setJobTxns (jobId : UInt8) (generation : Nat) (txns : JobTxns)
  | recordBlockCheck (jobId : UInt8) (generation : Nat) (digest : Hash) (check : BlockCheck)
  | verify (s : PowSubmit) (abw : Option AbwSlotState) (now : Nat)

namespace Verifier

variable (H : Hashing) (v : Verifier)

/-- The verifier after a step. -/
def after : VerifierEvent → Verifier
  | .setTip tip now => v.setTip tip now
  | .setTemplate next => { v with next }
  | .recordDictated value prevHash outputs now =>
      v.recordDictated v.nextCoinbaserId value prevHash outputs now
  | .takeSplits => v.takeSplits.2
  | .restoreSplits splits => v.restoreSplits splits
  | .setJobTxns jobId generation txns => (v.setJobTxns jobId generation txns).2
  | .recordBlockCheck jobId generation digest check => v.recordBlockCheck jobId generation digest check
  | .verify s abw now => (v.verify H s abw now).2

/-- The verifier of a connection after a run. -/
def run (policy : SharePolicy) (events : List VerifierEvent) : Verifier :=
  events.foldl (after H) (.new policy)

theorem run_append (policy : SharePolicy) (events more : List VerifierEvent) :
    run H policy (events ++ more) = more.foldl (after H) (run H policy events) := List.foldl_append

/-- What holds at the start and is kept by every step holds after every run. -/
theorem run_invariant {policy : SharePolicy} {I : List VerifierEvent → Verifier → Prop}
    (hinit : I [] (.new policy))
    (hstep : ∀ events event, I events (run H policy events) →
      I (events ++ [event]) ((run H policy events).after H event))
    (events : List VerifierEvent) : I events (run H policy events) := by
  induction events using List.reverseRecOn with
  | nil => exact hinit
  | append_singleton events event ih =>
      rw [run_append]
      exact hstep events event ih

/-! ### What a share's sections are installed as -/

/-- The coinbase of an id installed in the share's slot. -/
def heldCoinbase (s : PowSubmit) (coinbaseId : UInt8) : Option CoinbaseSection :=
  (v.jobs s.jobId).bind fun st => st.coinbases.lookup coinbaseId

/-- The bytes a share's coinbase takes the place of. -/
def replacedBytes (s : PowSubmit) : Nat :=
  if v.bringsNewJob s then (v.jobs s.jobId).elim 0 JobState.coinbaseBytes
  else ((s.coinbase.bind fun cb => v.heldCoinbase s cb.coinbaseId).map CoinbaseSection.bytes).getD 0

/-- The bytes installed once the share's sections are. -/
def projectedBytes (s : PowSubmit) : Nat :=
  v.installedCoinbaseBytes - v.replacedBytes s + s.coinbase.elim 0 CoinbaseSection.bytes

/-- Whether the share brings a section the slot does not hold. -/
def changesSlot (s : PowSubmit) : Bool :=
  v.bringsNewJob s || s.coinbase.any fun cb =>
    v.bringsNewJob s || v.heldCoinbase s cb.coinbaseId ≠ some cb

/-- The verifier with the share's sections, before jobs are evicted. -/
def withSections (s : PowSubmit) (rawPowHash : Hash) (now : Nat) : Verifier :=
  { v with
    jobs := Function.update v.jobs s.jobId (v.installedIn s now)
    nextGeneration := if v.bringsNewJob s then v.nextGeneration + 1 else v.nextGeneration
    installedCoinbaseBytes := v.projectedBytes s
    installedBy :=
      if v.changesSlot s then (BoundedSet.insert v.installedBy rawPowHash).2 else v.installedBy }

variable {H v} {v' : Verifier} {s : PowSubmit} {abw : Option AbwSlotState} {now : Nat}

theorem installSections_guards (v : Verifier) (s : PowSubmit) (rawPowHash : Hash) (now : Nat) :
    v.installSections s rawPowHash now =
      if v.changesSlot s && v.installedBy.contains rawPowHash then .error .duplicateWork
      else if s.coinbase.isSome && v.installedCoinbaseBytesCap < v.projectedBytes s then
        .error .coinbaseTooLarge
      else
        .ok (if v.tip.isSome then (v.withSections s rawPowHash now).evictJobsOffRecentTips now
          else v.withSections s rawPowHash now) := by
  have hprojected : v.installedCoinbaseBytes -
        ((if v.bringsNewJob s then (v.jobs s.jobId).elim 0 JobState.coinbaseBytes else 0) +
          if v.bringsNewJob s then 0
          else ((s.coinbase.bind fun cb => v.heldCoinbase s cb.coinbaseId).map
            CoinbaseSection.bytes).getD 0) +
        s.coinbase.elim 0 CoinbaseSection.bytes = v.projectedBytes s := by
    rw [projectedBytes, replacedBytes]
    split
    · rfl
    · rw [Nat.zero_add]
  simp only [heldCoinbase] at hprojected
  rw [installSections]
  dsimp only
  rw [hprojected]
  rfl

theorem installSections_eq {rawPowHash : Hash} (hinstall : v.installSections s rawPowHash now = .ok v') :
    (s.coinbase.isSome → v.projectedBytes s ≤ v.installedCoinbaseBytesCap) ∧
    v' = if v.tip.isSome then (v.withSections s rawPowHash now).evictJobsOffRecentTips now
      else v.withSections s rawPowHash now := by
  rw [installSections_guards] at hinstall
  obtain ⟨-, hfits⟩ := FailsIn.ok_of_guard hinstall
  obtain ⟨hcap, hinstalled⟩ := FailsIn.ok_of_guard hfits
  refine ⟨fun hcoinbase => ?_, (Except.ok.inj hinstalled).symm⟩
  rw [hcoinbase, Bool.true_and, decide_eq_true_eq, not_lt] at hcap
  exact hcap

theorem tip_installSections {rawPowHash : Hash} (hinstall : v.installSections s rawPowHash now = .ok v') :
    v'.tip = v.tip := by
  obtain ⟨-, rfl⟩ := installSections_eq hinstall
  split
  · rfl
  · rfl

theorem resolve_of_rebuild {rebuilt : RebuiltShare} (hrebuild : v.rebuild H s abw = .ok rebuilt) :
    ∃ job cb, v.resolve s = .ok (job, cb) := by
  rw [rebuild] at hrebuild
  cases hid : checkCoinbaseId s with
  | error reason =>
      rw [hid] at hrebuild
      cases hrebuild
  | ok _ =>
      cases hresolve : v.resolve s with
      | error reason =>
          rw [hid, hresolve] at hrebuild
          cases hrebuild
      | ok sections => exact ⟨sections.1, sections.2, rfl⟩

/-- A share verified changes nothing, or installs the sections it resolves to. -/
theorem verify_cases (H : Hashing) (v : Verifier) (s : PowSubmit) (abw : Option AbwSlotState) (now : Nat) :
    (v.verify H s abw now).2 = v ∨
    ∃ rawPowHash job cb, v.resolve s = .ok (job, cb) ∧
      v.installSections s rawPowHash now = .ok (v.verify H s abw now).2 := by
  cases hinstalls : v.installs H s abw now with
  | false => exact .inl (verify_not_installs hinstalls)
  | true =>
      obtain ⟨rawPowHash, hinstall⟩ := verify_installs hinstalls
      cases hrebuild : v.rebuild H s abw with
      | error refusal =>
          rw [installs, hrebuild] at hinstalls
          cases hinstalls
      | ok rebuilt =>
          obtain ⟨job, cb, hresolve⟩ := resolve_of_rebuild hrebuild
          exact .inr ⟨rawPowHash, job, cb, hresolve, hinstall⟩

end Verifier

/-! ### What a step makes of a slot -/

/-- What a step after which the tip is `tip` makes of an installed job: its section and generation stay, and
it is evicted only off the tip. -/
structure JobState.Becomes (tip : Option Hash) (st st' : JobState) : Prop where
  job : st'.job = st.job
  generation : st'.generation = st.generation
  evicted : st'.evicted = true → st.evicted = true ∨ ∃ hash, tip = some hash ∧ hash ≠ st.job.prevHash

theorem JobState.Becomes.refl (tip : Option Hash) (st : JobState) : st.Becomes tip st := ⟨rfl, rfl, .inl⟩

theorem JobState.Becomes.trans {tip : Option Hash} {st st' st'' : JobState} (h : st.Becomes tip st')
    (h' : st'.Becomes tip st'') : st.Becomes tip st'' := by
  refine ⟨h'.job.trans h.job, h'.generation.trans h.generation, fun hevicted => ?_⟩
  obtain hbefore | hoff := h'.evicted hevicted
  · exact h.evicted hbefore
  · rw [h.job] at hoff
    exact .inr hoff

namespace Verifier

/-- A step installs a job in a slot, under the next generation. -/
structure Installs (v v' : Verifier) (slot : UInt8) (st : JobState) : Prop where
  replaces : ∀ st', v.jobs slot = some st' → st'.job ≠ st.job
  generation : st.generation = v.nextGeneration
  next : v'.nextGeneration = v.nextGeneration + 1
  evicted : st.evicted = true → ∃ hash, v'.tip = some hash ∧ hash ≠ st.job.prevHash

/-- A step that keeps the sections of every slot, and what is counted of them. -/
structure Keeps (v v' : Verifier) : Prop where
  slots : ∀ slot st', v'.jobs slot = some st' → ∃ st, v.jobs slot = some st ∧ st.Becomes v'.tip st'
  sections_eq : v'.sections = v.sections
  next : v'.nextGeneration = v.nextGeneration
  bytes : v'.installedCoinbaseBytes = v.installedCoinbaseBytes
  cap : v'.installedCoinbaseBytesCap = v.installedCoinbaseBytesCap

/-- What a step does to the slots: each keeps its job, or has one installed. -/
structure Steps (v v' : Verifier) : Prop where
  slots : ∀ slot st', v'.jobs slot = some st' →
    (∃ st, v.jobs slot = some st ∧ st.Becomes v'.tip st') ∨ v.Installs v' slot st'
  next : v.nextGeneration ≤ v'.nextGeneration

variable {v v' v'' : Verifier}

theorem Keeps.steps (h : v.Keeps v') : v.Steps v' where
  slots slot st' hst' := .inl (h.slots slot st' hst')
  next := h.next.ge

theorem Keeps.refl (v : Verifier) : v.Keeps v where
  slots _ st hst := ⟨st, hst, .refl _ _⟩
  sections_eq := rfl
  next := rfl
  bytes := rfl
  cap := rfl

theorem Keeps.trans (h : v.Keeps v') (h' : v'.Keeps v'') (htip : v''.tip = v'.tip) : v.Keeps v'' where
  slots slot st'' hst'' := by
    obtain ⟨st', hst', hbecomes'⟩ := h'.slots slot st'' hst''
    obtain ⟨st, hst, hbecomes⟩ := h.slots slot st' hst'
    rw [← htip] at hbecomes
    exact ⟨st, hst, hbecomes.trans hbecomes'⟩
  sections_eq := h'.sections_eq.trans h.sections_eq
  next := h'.next.trans h.next
  bytes := h'.bytes.trans h.bytes
  cap := h'.cap.trans h.cap

/-- What a step did is kept by one that keeps every job. -/
theorem Steps.keeping (h : v.Steps v') (h' : v'.Keeps v'') (htip : v''.tip = v'.tip) : v.Steps v'' where
  slots slot st' hst' := by
    obtain ⟨st, hst, hbecomes⟩ := h'.slots slot st' hst'
    obtain ⟨st₀, hst₀, hbefore⟩ | hinstalls := h.slots slot st hst
    · rw [← htip] at hbefore
      exact .inl ⟨st₀, hst₀, hbefore.trans hbecomes⟩
    · refine .inr ⟨fun st₀ hst₀ => ?_, ?_, h'.next.trans hinstalls.next, fun hevicted => ?_⟩
      · rw [hbecomes.job]
        exact hinstalls.replaces st₀ hst₀
      · rw [hbecomes.generation]
        exact hinstalls.generation
      · rw [hbecomes.job]
        obtain hbefore | hoff := hbecomes.evicted hevicted
        · rw [htip]
          exact hinstalls.evicted hbefore
        · exact hoff
  next := h'.next ▸ h.next

variable {H : Hashing} {s : PowSubmit} {now : Nat}

theorem evictOff_becomes (v : Verifier) (htip : v.tip.isSome) (now : Nat) (st : JobState) :
    st.Becomes v.tip (v.evictOff now st) := by
  obtain ⟨tip, htip⟩ := Option.isSome_iff_exists.mp htip
  rw [evictOff]
  split
  · exact .refl _ _
  · split
    · exact ⟨rfl, rfl, .inl⟩
    · rename_i hkept
      split
      · refine ⟨rfl, rfl, fun _ => .inr ⟨tip, htip, fun hsame => hkept ?_⟩⟩
        rw [parentKept, htip, hsame, decide_eq_true rfl, Bool.true_or]
      · exact .refl _ _

theorem evictJobsOffRecentTips_keeps (htip : v.tip.isSome) (now : Nat) :
    v.Keeps (v.evictJobsOffRecentTips now) where
  slots slot st' hst' := by
    obtain ⟨st, hst, rfl⟩ := Option.map_eq_some_iff.mp hst'
    exact ⟨st, hst, v.evictOff_becomes htip now st⟩
  sections_eq := v.sections_evictJobsOffRecentTips now
  next := rfl
  bytes := rfl
  cap := rfl

theorem setTip_keeps (v : Verifier) (tip : Option Hash) (now : Nat) : v.Keeps (v.setTip tip now) := by
  have hset : v.Keeps { v with
      recentTips := if v.tip ≠ tip then v.replaceTip now else v.recentTips
      tip := tip } := ⟨fun _ st hst => ⟨st, hst, .refl _ _⟩, rfl, rfl, rfl, rfl⟩
  rw [setTip]
  split
  · rename_i htip
    exact hset.trans (evictJobsOffRecentTips_keeps htip now) rfl
  · exact hset

theorem withCoinbase_becomes (tip : Option Hash) (st : JobState) (s : PowSubmit) :
    st.Becomes tip (st.withCoinbase s) := by
  rw [JobState.withCoinbase]
  split
  · exact ⟨rfl, rfl, .inl⟩
  · exact .refl _ _

/-- Whether a share brings a job is whether the slot holds another. -/
theorem bringsNewJob_eq_true (hnew : v.bringsNewJob s = true) :
    ∃ job, s.job = some job ∧ ∀ st, v.jobs s.jobId = some st → st.job ≠ job := by
  obtain ⟨job, hjob, hreplaces⟩ := (Option.any_eq_true _ _).mp hnew
  refine ⟨job, hjob, fun st hst => ?_⟩
  rw [hst, Option.all_some, decide_eq_true_eq] at hreplaces
  exact hreplaces

@[simp] theorem withSections_jobs_self (v : Verifier) (s : PowSubmit) (rawPowHash : Hash) (now : Nat) :
    (v.withSections s rawPowHash now).jobs s.jobId = v.installedIn s now := Function.update_self _ _ _

theorem withSections_jobs_of_ne {slot : UInt8} (hne : slot ≠ s.jobId) (rawPowHash : Hash) :
    (v.withSections s rawPowHash now).jobs slot = v.jobs slot := Function.update_of_ne hne _ _

theorem withSections_steps (rawPowHash : Hash) : v.Steps (v.withSections s rawPowHash now) where
  slots slot st' hst' := by
    obtain rfl | hne := eq_or_ne slot s.jobId
    · rw [withSections_jobs_self] at hst'
      cases hnew : v.bringsNewJob s with
      | true =>
          obtain ⟨job, hjob, hreplaces⟩ := bringsNewJob_eq_true hnew
          rw [installedIn_new hjob hnew] at hst'
          obtain rfl := Option.some.inj hst'
          have hbecomes := withCoinbase_becomes (v.withSections s rawPowHash now).tip
            (v.newJobState job now) s
          refine .inr ⟨fun st hst => ?_, hbecomes.generation, if_pos hnew, fun hevicted => ?_⟩
          · rw [hbecomes.job]
            exact hreplaces st hst
          · rw [hbecomes.job]
            exact (hbecomes.evicted hevicted).resolve_left Bool.false_ne_true
      | false =>
          rw [installedIn_known hnew] at hst'
          obtain ⟨st, hst, rfl⟩ := Option.map_eq_some_iff.mp hst'
          exact .inl ⟨st, hst, withCoinbase_becomes _ st s⟩
    · rw [withSections_jobs_of_ne hne] at hst'
      exact .inl ⟨st', hst', .refl _ _⟩
  next := by
    show v.nextGeneration ≤ if v.bringsNewJob s then _ else _
    split
    · exact Nat.le_succ _
    · exact Nat.le_refl _

theorem installSections_keeps {rawPowHash : Hash} (hinstall : v.installSections s rawPowHash now = .ok v') :
    (v.withSections s rawPowHash now).Keeps v' := by
  obtain ⟨-, rfl⟩ := installSections_eq hinstall
  split
  · rename_i htip
    have htip' : (v.withSections s rawPowHash now).tip.isSome := htip
    exact evictJobsOffRecentTips_keeps htip' now
  · exact .refl _

/-- Setting what else a live job holds. -/
theorem updateLive_keeps {jobId : UInt8} {generation : Nat} {st st' : JobState}
    (hlive : v.liveJob jobId generation = some st) (hsame : st.Becomes v.tip st')
    (hcoinbases : st'.coinbases = st.coinbases) :
    v.Keeps { v with jobs := Function.update v.jobs jobId (some st') } where
  slots slot st₁ hst₁ := by
    obtain ⟨hst, -⟩ := Option.filter_eq_some_iff.mp hlive
    obtain rfl | hne := eq_or_ne slot jobId
    · obtain rfl := Option.some.inj ((Function.update_self slot (some st') v.jobs).symm.trans hst₁)
      exact ⟨st, hst, hsame⟩
    · exact ⟨st₁, (Function.update_of_ne hne (some st') v.jobs).symm.trans hst₁, .refl _ _⟩
  sections_eq := by
    obtain ⟨hst, -⟩ := Option.filter_eq_some_iff.mp hlive
    funext slot
    rw [sections, sections]
    dsimp only
    obtain rfl | hne := eq_or_ne slot jobId
    · rw [Function.update_self, hst, Option.map_some, Option.map_some, hsame.job, hcoinbases]
    · rw [Function.update_of_ne hne]
  next := rfl
  bytes := rfl
  cap := rfl

theorem releaseOldestHeldTxns_keeps (v : Verifier) : v.Keeps v.releaseOldestHeldTxns where
  slots slot st' hst' := by
    change (if _ then (v.jobs slot).map JobState.releaseTxns else v.jobs slot) = some st' at hst'
    split at hst'
    · obtain ⟨st, hst, rfl⟩ := Option.map_eq_some_iff.mp hst'
      exact ⟨st, hst, rfl, rfl, .inl⟩
    · exact ⟨st', hst', .refl _ _⟩
  sections_eq := by
    funext slot
    show (if _ then (v.jobs slot).map JobState.releaseTxns else v.jobs slot).map _ = (v.jobs slot).map _
    split
    · rw [Option.map_map]
      rfl
    · rfl
  next := rfl
  bytes := rfl
  cap := rfl

theorem setJobTxns_keeps (v : Verifier) (jobId : UInt8) (generation : Nat) (txns : JobTxns) :
    v.Keeps (v.setJobTxns jobId generation txns).2 := by
  rw [setJobTxns]
  cases hlive : v.liveJob jobId generation with
  | none => exact .refl v
  | some st =>
      have hsame : st.Becomes v.tip { st with txns } := ⟨rfl, rfl, .inl⟩
      have hset := updateLive_keeps hlive hsame rfl
      dsimp only
      split
      · exact hset.trans (releaseOldestHeldTxns_keeps _) rfl
      · exact hset

theorem recordBlockCheck_keeps (v : Verifier) (jobId : UInt8) (generation : Nat) (digest : Hash)
    (check : BlockCheck) : v.Keeps (v.recordBlockCheck jobId generation digest check) := by
  rw [recordBlockCheck]
  cases hlive : v.liveJob jobId generation with
  | none => exact .refl v
  | some st =>
      have hsame (checks : HashMap Hash BlockCheck) : st.Becomes v.tip { st with checks } :=
        ⟨rfl, rfl, .inl⟩
      exact updateLive_keeps hlive (hsame _) rfl

/-- A step keeps the sections of every slot, or is a share that resolves and whose sections fit. -/
theorem after_cases (H : Hashing) (v : Verifier) (event : VerifierEvent) :
    v.Keeps (v.after H event) ∨
    ∃ s rawPowHash now job cb, v.resolve s = .ok (job, cb) ∧
      (s.coinbase.isSome → v.projectedBytes s ≤ v.installedCoinbaseBytesCap) ∧
      (v.withSections s rawPowHash now).Keeps (v.after H event) ∧ (v.after H event).tip = v.tip := by
  cases event with
  | setTip tip now => exact .inl (v.setTip_keeps tip now)
  | setTemplate next => exact .inl ⟨(Keeps.refl v).slots, rfl, rfl, rfl, rfl⟩
  | recordDictated value prevHash outputs now => exact .inl ⟨(Keeps.refl v).slots, rfl, rfl, rfl, rfl⟩
  | takeSplits => exact .inl ⟨(Keeps.refl v).slots, rfl, rfl, rfl, rfl⟩
  | restoreSplits splits => exact .inl ⟨(Keeps.refl v).slots, rfl, rfl, rfl, rfl⟩
  | setJobTxns jobId generation txns => exact .inl (v.setJobTxns_keeps jobId generation txns)
  | recordBlockCheck jobId generation digest check =>
      exact .inl (v.recordBlockCheck_keeps jobId generation digest check)
  | verify s abw now =>
      obtain hsame | ⟨rawPowHash, job, cb, hresolve, hinstall⟩ := verify_cases H v s abw now
      · exact .inl (show v.Keeps (v.verify H s abw now).2 by rw [hsame]; exact .refl v)
      · exact .inr ⟨s, rawPowHash, now, job, cb, hresolve, (installSections_eq hinstall).1,
          installSections_keeps hinstall, tip_installSections hinstall⟩

/-- **What a step does to the slots**, whatever it is. -/
theorem after_steps (H : Hashing) (v : Verifier) (event : VerifierEvent) : v.Steps (v.after H event) := by
  obtain hkeeps | ⟨s, rawPowHash, now, job, cb, -, -, hkeeps, htip⟩ := after_cases H v event
  · exact hkeeps.steps
  · have hsteps : v.Steps (v.withSections s rawPowHash now) := withSections_steps rawPowHash
    exact hsteps.keeping hkeeps htip

end Verifier
end Ratum
