import Ratum.Verify.InstalledBytes

/-!
# The jobs that hold transactions

Every job installed has a generation of its own, above every earlier one. When a job is given
transactions past the most that may hold them, the jobs released are of the oldest generations.
-/

namespace Ratum
namespace Verifier

variable {H : Hashing} {v v' : Verifier} {s : PowSubmit} {now : Nat}

/-! ### Generations -/

/-- Every installed job has a generation of its own, below the next one. -/
structure Generated (v : Verifier) : Prop where
  below : ∀ slot st, v.jobs slot = some st → st.generation < v.nextGeneration
  distinct : ∀ a b st st', v.jobs a = some st → v.jobs b = some st' → st.generation = st'.generation → a = b

theorem Generated.new (policy : SharePolicy) : (Verifier.new policy).Generated where
  below slot st hst := by cases hst
  distinct a b st st' hst hst' := by cases hst

theorem Generated.keeps (h : v.Generated) (hkeeps : v.Keeps v') : v'.Generated where
  below slot st hst := by
    obtain ⟨st₀, hst₀, hbecomes⟩ := hkeeps.slots slot st hst
    rw [hbecomes.generation, hkeeps.next]
    exact h.below slot st₀ hst₀
  distinct a b st st' hst hst' hsame := by
    obtain ⟨st₀, hst₀, hbecomes⟩ := hkeeps.slots a st hst
    obtain ⟨st₁, hst₁, hbecomes'⟩ := hkeeps.slots b st' hst'
    rw [hbecomes.generation, hbecomes'.generation] at hsame
    exact h.distinct a b st₀ st₁ hst₀ hst₁ hsame

/-- The generation of what a share's sections are installed as: the next one, or the one its slot had. -/
theorem installedIn_generation {st : JobState} (hinstalled : v.installedIn s now = some st) :
    (v.bringsNewJob s = true ∧ st.generation = v.nextGeneration) ∨
    ∃ st', v.jobs s.jobId = some st' ∧ st.generation = st'.generation := by
  cases hnew : v.bringsNewJob s with
  | true =>
      obtain ⟨job, hjob, -⟩ := bringsNewJob_eq_true hnew
      rw [installedIn_new hjob hnew] at hinstalled
      obtain rfl := Option.some.inj hinstalled
      exact .inl ⟨rfl, (withCoinbase_becomes none _ s).generation⟩
  | false =>
      rw [installedIn_known hnew] at hinstalled
      obtain ⟨st', hst', rfl⟩ := Option.map_eq_some_iff.mp hinstalled
      exact .inr ⟨st', hst', (withCoinbase_becomes none _ s).generation⟩

theorem Generated.withSections (h : v.Generated) (rawPowHash : Hash) :
    (v.withSections s rawPowHash now).Generated := by
  -- A job in another slot is an earlier one; the share's slot has the next generation or the one it had.
  have hslot {slot : UInt8} {st : JobState} (hst : (v.withSections s rawPowHash now).jobs slot = some st) :
      (slot = s.jobId ∧ v.bringsNewJob s = true ∧ st.generation = v.nextGeneration) ∨
      ∃ st', v.jobs slot = some st' ∧ st.generation = st'.generation := by
    obtain rfl | hne := eq_or_ne slot s.jobId
    · rw [withSections_jobs_self] at hst
      obtain hnext | hheld := installedIn_generation hst
      · exact .inl ⟨rfl, hnext⟩
      · exact .inr hheld
    · rw [withSections_jobs_of_ne hne] at hst
      exact .inr ⟨st, hst, rfl⟩
  refine ⟨fun slot st hst => ?_, fun a b st st' hst hst' hsame => ?_⟩
  · obtain ⟨rfl, hnew, hnext⟩ | ⟨st', hst', heq⟩ := hslot hst
    · show st.generation < if v.bringsNewJob s then _ else _
      rw [if_pos hnew, hnext]
      exact Nat.lt_succ_self _
    · have hbelow := h.below slot st' hst'
      have hnext : v.nextGeneration ≤ (v.withSections s rawPowHash now).nextGeneration :=
        (withSections_steps rawPowHash).next
      omega
  · obtain ⟨rfl, -, hnext⟩ | ⟨st₀, hst₀, heq⟩ := hslot hst
    · obtain ⟨rfl, -, -⟩ | ⟨st₁, hst₁, heq'⟩ := hslot hst'
      · rfl
      · have hbelow := h.below b st₁ hst₁
        omega
    · obtain ⟨rfl, -, hnext⟩ | ⟨st₁, hst₁, heq'⟩ := hslot hst'
      · have hbelow := h.below a st₀ hst₀
        omega
      · exact h.distinct a b st₀ st₁ hst₀ hst₁ (by rw [← heq, ← heq', hsame])

/-! ### Who holds transactions -/

def holds (v : Verifier) (slot : UInt8) : Bool := (v.jobs slot).any fun st => st.txns.isHeld

theorem mem_holding {generation : Nat} {slot : UInt8} :
    (generation, slot) ∈ v.holding ↔
      ∃ st, v.jobs slot = some st ∧ st.txns.isHeld = true ∧ st.generation = generation := by
  rw [holding, List.mem_mergeSort, List.mem_filterMap]
  constructor
  · rintro ⟨slot', -, hentry⟩
    obtain ⟨st, hst, hpair⟩ := Option.map_eq_some_iff.mp hentry
    obtain ⟨hjob, hheld⟩ := Option.filter_eq_some_iff.mp hst
    cases hpair
    exact ⟨st, hjob, hheld, rfl⟩
  · rintro ⟨st, hjob, hheld, rfl⟩
    refine ⟨slot, mem_slots slot, ?_⟩
    rw [hjob, Option.filter_some, if_pos hheld]
    rfl

/-- The slots on the list, in some order. -/
theorem holding_perm (v : Verifier) : (v.holding.map Prod.snd).Perm (slots.filter v.holds) := by
  have hslots (l : List UInt8) : ((l.filterMap fun slot =>
      ((v.jobs slot).filter (·.txns.isHeld)).map fun st => (st.generation, slot)).map Prod.snd) =
      l.filter v.holds := by
    induction l with
    | nil => rfl
    | cons slot l ih =>
        cases hjob : v.jobs slot with
        | none =>
            have hnone : v.holds slot = false := by rw [holds, hjob]; rfl
            rw [List.filterMap_cons_none (by rw [hjob]; rfl), List.filter_cons_of_neg (by simp [hnone]), ih]
        | some st =>
            cases hheld : st.txns.isHeld with
            | true =>
                have hholds : v.holds slot = true := by rw [holds, hjob]; exact hheld
                rw [List.filterMap_cons_some (by rw [hjob, Option.filter_some, if_pos hheld]; rfl),
                  List.filter_cons_of_pos hholds, List.map_cons, ih]
            | false =>
                have hholds : v.holds slot = false := by rw [holds, hjob]; exact hheld
                rw [List.filterMap_cons_none (by rw [hjob, Option.filter_some, if_neg (by simp [hheld])]; rfl),
                  List.filter_cons_of_neg (by simp [hholds]), ih]
  rw [← hslots slots, holding]
  exact (List.mergeSort_perm _ _).map Prod.snd

theorem holding_length (v : Verifier) : v.holding.length = (slots.filter v.holds).length := by
  rw [← (v.holding_perm).length_eq, List.length_map]

/-- The list is by generation. -/
theorem holding_ordered (v : Verifier) : v.holding.Pairwise fun older newer => older.1 ≤ newer.1 := by
  refine (List.pairwise_mergeSort ?_ ?_ _).imp ?_
  · intro a b c hab hbc
    simp only [Bool.or_eq_true, Bool.and_eq_true, decide_eq_true_eq] at hab hbc ⊢
    obtain hlt | ⟨heq, hle⟩ := hab
    · obtain hlt' | ⟨heq', -⟩ := hbc
      · exact .inl (hlt.trans hlt')
      · exact .inl (heq' ▸ hlt)
    · obtain hlt' | ⟨heq', hle'⟩ := hbc
      · exact .inl (heq ▸ hlt')
      · exact .inr ⟨heq.trans heq', UInt8.le_trans hle hle'⟩
  · intro a b
    simp only [Bool.or_eq_true, Bool.and_eq_true, decide_eq_true_eq]
    obtain hlt | heq | hgt := Nat.lt_trichotomy a.1 b.1
    · exact .inl (.inl hlt)
    · exact (UInt8.le_total a.2 b.2).imp (fun hle => .inr ⟨heq, hle⟩) fun hle => .inr ⟨heq.symm, hle⟩
    · exact .inr (.inl hgt)
  · intro a b hle
    simp only [Bool.or_eq_true, Bool.and_eq_true, decide_eq_true_eq] at hle
    omega

/-! ### Releasing the oldest -/

/-- The slots whose transactions are released. -/
def oldestHolding (v : Verifier) : List UInt8 :=
  (v.holding.take (v.holding.length - MAX_JOBS_HOLDING_TXNS)).map Prod.snd

theorem holds_releaseOldestHeldTxns (v : Verifier) (slot : UInt8) :
    v.releaseOldestHeldTxns.holds slot = (v.holds slot && slot ∉ v.oldestHolding) := by
  have hjobs : v.releaseOldestHeldTxns.jobs slot =
      if slot ∈ v.oldestHolding then (v.jobs slot).map JobState.releaseTxns else v.jobs slot := rfl
  rw [holds, hjobs]
  split
  · rename_i hreleased
    rw [Option.any_map, decide_eq_false (fun hkept => hkept hreleased), Bool.and_false]
    cases v.jobs slot with
    | none => rfl
    | some st => rfl
  · rename_i hkept
    rw [decide_eq_true hkept, Bool.and_true]
    rfl

theorem releaseOldestHeldTxns_bounded (v : Verifier) :
    v.releaseOldestHeldTxns.holding.length ≤ MAX_JOBS_HOLDING_TXNS := by
  set k := v.holding.length - MAX_JOBS_HOLDING_TXNS with hk
  have hfilter : slots.filter v.releaseOldestHeldTxns.holds =
      (slots.filter v.holds).filter (· ∉ v.oldestHolding) := by
    rw [List.filter_filter]
    exact List.filter_congr fun slot _ => (v.holds_releaseOldestHeldTxns slot).trans (Bool.and_comm _ _)
  have hsplit : v.holding.map Prod.snd = v.oldestHolding ++ (v.holding.drop k).map Prod.snd := by
    rw [oldestHolding, ← List.map_append, List.take_append_drop]
  have hperm := (v.holding_perm).filter (· ∉ v.oldestHolding)
  rw [holding_length, hfilter, ← hperm.length_eq, hsplit, List.filter_append,
    List.filter_eq_nil_iff.mpr (by simp), List.nil_append]
  refine (List.length_filter_le _ _).trans ?_
  rw [List.length_map, List.length_drop]
  omega

/-- A job released is of an older generation than one that still holds. -/
theorem Generated.released_older (h : v.Generated) {a b : UInt8} {st st' : JobState}
    (hst : v.jobs a = some st) (hst' : v.jobs b = some st') (hreleased : a ∈ v.oldestHolding)
    (hholds : v.holds b = true) (hkept : b ∉ v.oldestHolding) : st.generation < st'.generation := by
  obtain ⟨⟨generation, slot⟩, hmem, rfl⟩ := List.mem_map.mp hreleased
  have hentry : (st'.generation, b) ∈ v.holding := by
    rw [holds, hst'] at hholds
    exact mem_holding.mpr ⟨st', hst', hholds, rfl⟩
  obtain ⟨st₀, hst₀, -, rfl⟩ := mem_holding.mp (List.mem_of_mem_take hmem)
  obtain rfl := Option.some.inj (hst.symm.trans hst₀)
  have hordered := v.holding_ordered
  rw [← List.take_append_drop (v.holding.length - MAX_JOBS_HOLDING_TXNS) v.holding] at hentry hordered
  rcases List.mem_append.mp hentry with htaken | hrest
  · exact absurd (List.mem_map_of_mem htaken) hkept
  · refine lt_of_le_of_ne ((List.pairwise_append.mp hordered).2.2 _ hmem _ hrest) fun hsame => hkept ?_
    obtain rfl := h.distinct slot b st st' hst hst' hsame
    exact hreleased

/-! ### Every step -/

/-- A step that gives no job transactions leaves no more holding them. -/
theorem holding_length_le (hholds : ∀ slot, v'.holds slot = true → v.holds slot = true) :
    v'.holding.length ≤ v.holding.length := by
  rw [holding_length, holding_length]
  exact (List.monotone_filter_right slots hholds).length_le

theorem holds_evictJobsOffRecentTips (now : Nat) (slot : UInt8)
    (hholds : (v.evictJobsOffRecentTips now).holds slot = true) : v.holds slot = true := by
  have hjobs : (v.evictJobsOffRecentTips now).jobs slot = (v.jobs slot).map (v.evictOff now) := rfl
  rw [holds, hjobs] at hholds
  rw [holds]
  cases hjob : v.jobs slot with
  | none =>
      rw [hjob] at hholds
      cases hholds
  | some st =>
      rw [hjob, Option.map_some, Option.any_some, evictOff] at hholds
      rw [Option.any_some]
      split at hholds
      · exact hholds
      · split at hholds
        · exact hholds
        · split at hholds
          · cases hholds
          · exact hholds

theorem holds_withSections (rawPowHash : Hash) (slot : UInt8)
    (hholds : (v.withSections s rawPowHash now).holds slot = true) : v.holds slot = true := by
  have hwithCoinbase (st : JobState) : (st.withCoinbase s).txns = st.txns := by
    rw [JobState.withCoinbase]
    split
    · rfl
    · rfl
  rw [holds] at hholds
  obtain rfl | hne := eq_or_ne slot s.jobId
  · rw [withSections_jobs_self] at hholds
    cases hnew : v.bringsNewJob s with
    | true =>
        obtain ⟨job, hjob, -⟩ := bringsNewJob_eq_true hnew
        rw [installedIn_new hjob hnew, Option.any_some, hwithCoinbase] at hholds
        cases hholds
    | false =>
        rw [installedIn_known hnew, Option.any_map] at hholds
        rw [holds]
        cases hjob : v.jobs s.jobId with
        | none =>
            rw [hjob] at hholds
            cases hholds
        | some st =>
            rw [hjob, Option.any_some] at hholds
            rw [Option.any_some, ← hwithCoinbase]
            exact hholds
  · rwa [withSections_jobs_of_ne hne] at hholds

theorem holding_evictJobsOffRecentTips (v : Verifier) (now : Nat) :
    (v.evictJobsOffRecentTips now).holding.length ≤ v.holding.length :=
  holding_length_le (holds_evictJobsOffRecentTips now)

theorem holding_installSections {rawPowHash : Hash} (hinstall : v.installSections s rawPowHash now = .ok v') :
    v'.holding.length ≤ v.holding.length := by
  obtain ⟨-, rfl⟩ := installSections_eq hinstall
  split
  · exact (holding_evictJobsOffRecentTips _ now).trans (holding_length_le (holds_withSections rawPowHash))
  · exact holding_length_le (holds_withSections rawPowHash)

theorem holding_setTip (v : Verifier) (tip : Option Hash) (now : Nat) :
    (v.setTip tip now).holding.length ≤ v.holding.length := by
  rw [setTip]
  split
  · exact holding_evictJobsOffRecentTips _ now
  · exact Nat.le_refl _

theorem holding_updateLive {jobId : UInt8} {generation : Nat} {st st' : JobState}
    (hlive : v.liveJob jobId generation = some st)
    (htxns : st'.txns.isHeld = true → st.txns.isHeld = true) :
    ({ v with jobs := Function.update v.jobs jobId (some st') } : Verifier).holding.length ≤
      v.holding.length := by
  obtain ⟨hst, -⟩ := Option.filter_eq_some_iff.mp hlive
  refine holding_length_le fun slot hholds => ?_
  rw [holds] at hholds
  dsimp only at hholds
  obtain rfl | hne := eq_or_ne slot jobId
  · rw [Function.update_self] at hholds
    rw [holds, hst]
    exact htxns hholds
  · rwa [Function.update_of_ne hne] at hholds

theorem holding_setJobTxns (h : v.holding.length ≤ MAX_JOBS_HOLDING_TXNS) (jobId : UInt8) (generation : Nat)
    (txns : JobTxns) : (v.setJobTxns jobId generation txns).2.holding.length ≤ MAX_JOBS_HOLDING_TXNS := by
  rw [setJobTxns]
  cases hlive : v.liveJob jobId generation with
  | none => exact h
  | some st =>
      dsimp only
      split
      · exact releaseOldestHeldTxns_bounded _
      · rename_i hheld
        exact (holding_updateLive hlive fun htxns => absurd htxns hheld).trans h

theorem holding_recordBlockCheck (v : Verifier) (jobId : UInt8) (generation : Nat) (digest : Hash)
    (check : BlockCheck) : (v.recordBlockCheck jobId generation digest check).holding.length ≤
      v.holding.length := by
  rw [recordBlockCheck]
  cases hlive : v.liveJob jobId generation with
  | none => exact Nat.le_refl _
  | some st => exact holding_updateLive hlive id

theorem holding_after (H : Hashing) (h : v.holding.length ≤ MAX_JOBS_HOLDING_TXNS) (event : VerifierEvent) :
    (v.after H event).holding.length ≤ MAX_JOBS_HOLDING_TXNS := by
  cases event with
  | setTip tip now => exact (v.holding_setTip tip now).trans h
  | setTemplate next => exact h
  | recordDictated value prevHash outputs now => exact h
  | takeSplits => exact h
  | restoreSplits splits => exact h
  | setJobTxns jobId generation txns => exact holding_setJobTxns h jobId generation txns
  | recordBlockCheck jobId generation digest check =>
      exact (v.holding_recordBlockCheck jobId generation digest check).trans h
  | verify s abw now =>
      obtain hsame | ⟨rawPowHash, job, cb, -, hinstall⟩ := verify_cases H v s abw now
      · show (v.verify H s abw now).2.holding.length ≤ _
        rwa [hsame]
      · exact (holding_installSections hinstall).trans h

/-- Giving a job transactions releases older jobs than those that hold them after. -/
theorem Generated.setJobTxns_newest (h : v.Generated) {jobId : UInt8} {generation : Nat} {txns : JobTxns}
    (hheld : txns.isHeld = true) (hset : (v.setJobTxns jobId generation txns).1 = true) {a b : UInt8}
    {st st' : JobState} (hst : (v.setJobTxns jobId generation txns).2.jobs a = some st)
    (hst' : (v.setJobTxns jobId generation txns).2.jobs b = some st')
    (hgiven : v.holds a = true ∨ a = jobId) (hreleased : st.txns.isHeld = false)
    (hholds : st'.txns.isHeld = true) : st.generation < st'.generation := by
  rw [setJobTxns] at hset hst hst'
  cases hlive : v.liveJob jobId generation with
  | none =>
      rw [hlive] at hset
      cases hset
  | some live =>
      rw [hlive] at hst hst'
      dsimp only at hst hst'
      rw [if_pos hheld] at hst hst'
      have hsame : live.Becomes v.tip { live with txns } := ⟨rfl, rfl, .inl⟩
      have hkeeps := updateLive_keeps hlive hsame rfl
      generalize hgives : ({ v with
        jobs := Function.update v.jobs jobId (some { live with txns }) } : Verifier) = w at hst hst' hkeeps
      have hjobs : w.jobs = Function.update v.jobs jobId (some { live with txns }) := by rw [← hgives]
      have hgivenw : w.holds a = true := by
        rw [holds, hjobs]
        obtain rfl | hne := eq_or_ne a jobId
        · rw [Function.update_self]
          exact hheld
        · rw [Function.update_of_ne hne]
          exact hgiven.resolve_right hne
      -- A job given transactions holds none only where they are released.
      have ha := w.holds_releaseOldestHeldTxns a
      have hb := w.holds_releaseOldestHeldTxns b
      rw [holds, hst, Option.any_some, hreleased, hgivenw, Bool.true_and, eq_comm,
        decide_eq_false_iff_not, not_not] at ha
      rw [holds, hst', Option.any_some, hholds, eq_comm, Bool.and_eq_true, decide_eq_true_eq] at hb
      obtain ⟨st₀, hst₀, hbecomes⟩ := (w.releaseOldestHeldTxns_keeps).slots a st hst
      obtain ⟨st₁, hst₁, hbecomes'⟩ := (w.releaseOldestHeldTxns_keeps).slots b st' hst'
      rw [hbecomes.generation, hbecomes'.generation]
      exact (h.keeps hkeeps).released_older hst₀ hst₁ ha hb.1 hb.2

/-! ### Every run -/

/-- What holds of a verifier in every run. -/
structure WellCounted (v : Verifier) : Prop where
  counted : v.Counted
  generated : v.Generated
  holding : v.holding.length ≤ MAX_JOBS_HOLDING_TXNS

theorem run_wellCounted (H : Hashing) (policy : SharePolicy) (events : List VerifierEvent) :
    (run H policy events).WellCounted := by
  refine run_invariant H (I := fun _ v => v.WellCounted) ?_ (fun events event h => ?_) events
  · refine ⟨.new policy, .new policy, ?_⟩
    have hnone : slots.filter (Verifier.new policy).holds = [] :=
      List.filter_eq_nil_iff.mpr fun _ _ => Bool.false_ne_true
    rw [holding_length, hnone]
    exact Nat.zero_le _
  · have hholding := holding_after H h.holding event
    obtain hkeeps | ⟨s, rawPowHash, now, job, cb, hresolve, hfits, hkeeps, -⟩ :=
      after_cases H (run H policy events) event
    · exact ⟨h.counted.keeps hkeeps, h.generated.keeps hkeeps, hholding⟩
    · exact ⟨(h.counted.withSections hresolve hfits rawPowHash).keeps hkeeps,
        (h.generated.withSections rawPowHash).keeps hkeeps, hholding⟩

theorem run_next (H : Hashing) (policy : SharePolicy) {before events : List VerifierEvent}
    (hearlier : before <+: events) :
    (run H policy before).nextGeneration ≤ (run H policy events).nextGeneration := by
  obtain ⟨more, rfl⟩ := hearlier
  induction more using List.reverseRecOn with
  | nil => rw [List.append_nil]
  | append_singleton more event ih =>
      rw [← List.append_assoc, run_append]
      exact ih.trans (after_steps H _ event).next

/-- A job a step installs is newer than every job installed before. -/
theorem installed_newer (H : Hashing) (policy : SharePolicy) {before events : List VerifierEvent}
    (hearlier : before <+: events) {event : VerifierEvent} {slot : UInt8} {st : JobState}
    (hst : ((run H policy events).after H event).jobs slot = some st)
    (hnew : ∀ st', (run H policy events).jobs slot = some st' → st'.job ≠ st.job) {slot' : UInt8}
    {st' : JobState} (hst' : (run H policy before).jobs slot' = some st') :
    st'.generation < st.generation := by
  have hbelow := (run_wellCounted H policy before).generated.below slot' st' hst'
  have hnext := run_next H policy hearlier
  obtain ⟨st₀, hst₀, hbecomes⟩ | hinstalls := (after_steps H (run H policy events) event).slots slot st hst
  · exact absurd hbecomes.job.symm (hnew st₀ hst₀)
  · have hgeneration := hinstalls.generation
    omega

/-- **The installed coinbase bytes are counted exactly.** After every run the count is the bytes of every
coinbase of every slot and within the cap; a share whose sections are refused leaves the verifier as it was;
every job a step installs has a generation above every earlier one's; and at most
`MAX_JOBS_HOLDING_TXNS` jobs hold transactions, those released being older than those that hold them. -/
theorem installed_bytes_exact (H : Hashing) (policy : SharePolicy) (events : List VerifierEvent) :
    let v := run H policy events
    (v.installedCoinbaseBytes = v.heldBytes ∧ v.installedCoinbaseBytes ≤ v.installedCoinbaseBytesCap) ∧
    (∀ s rawPowHash now, v.installSectionsInPlace s rawPowHash now =
      match v.installSections s rawPowHash now with
      | .error reason => (.error reason, v)
      | .ok v' => (.ok (), v')) ∧
    (∀ event slot st, (v.after H event).jobs slot = some st →
      (∀ st', v.jobs slot = some st' → st'.job ≠ st.job) →
      ∀ before, before <+: events → ∀ slot' st', (run H policy before).jobs slot' = some st' →
        st'.generation < st.generation) ∧
    v.holding.length ≤ MAX_JOBS_HOLDING_TXNS ∧
    (∀ jobId generation txns, txns.isHeld = true → (v.setJobTxns jobId generation txns).1 = true →
      ∀ a b st st', (v.setJobTxns jobId generation txns).2.jobs a = some st →
        (v.setJobTxns jobId generation txns).2.jobs b = some st' →
        (v.holds a = true ∨ a = jobId) → st.txns.isHeld = false → st'.txns.isHeld = true →
        st.generation < st'.generation) := by
  have h := run_wellCounted H policy events
  refine ⟨⟨h.counted.exact_, h.counted.capped⟩, installSectionsInPlace_eq _, ?_, h.holding, ?_⟩
  · intro event slot st hst hnew before hearlier slot' st' hst'
    exact installed_newer H policy hearlier hst hnew hst'
  · intro jobId generation txns hheld hset a b st st' hst hst' hgiven hreleased hholds
    exact h.generated.setJobTxns_newest hheld hset hst hst' hgiven hreleased hholds

end Verifier
end Ratum
