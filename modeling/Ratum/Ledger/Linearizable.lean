import Ratum.Ledger.GroupCommitRuns

/-!
# Group commit is linearizable

In every state of every schedule the shares recorded are in the order of their tickets, each call that
returns was answered by the commit that took its share, and the rows a commit removed are answered once.
A call unwound by a commit that it led and that panicked returns nothing, and its result stays.
-/

namespace Ratum

open GroupCommit

variable {F : Type}

namespace GroupState

variable {s : GroupState F} {done pending : List Commit} {inflight : List (Nat × Share)}

/-- A call that has not returned and was not unwound. -/
def InProgress (s : GroupState F) (i : Nat) : Prop :=
  ∃ p, s.At i p ∧ (∀ x, p ≠ .returned x) ∧ p ≠ .unwound

/-- What group commit promises of a state. -/
structure Linearizable (s : GroupState F) : Prop where
  /-- At most one batch is recorded at a time. -/
  one_commit : ∀ i j finish finish' shares shares', s.At i (.committing finish shares) →
    s.At j (.committing finish' shares') → i = j
  /-- The shares recorded are in the order of their tickets, so each at most once. -/
  ticket_order : s.recorded.Pairwise fun a b => a.1 < b.1
  own_share : ∀ t share, (t, share) ∈ s.recorded →
    (s.calls[t]?).map RecordCall.share = some share
  recorded_of_ok : ∀ t removed, s.At t (.returned (.ok removed)) → ∃ share, (t, share) ∈ s.recorded
  /-- A call answered an error was not recorded, a commit that panicked aside. -/
  unrecorded_of_error : ∀ t e, s.At t (.returned (.error e)) →
    (∃ share, (t, share) ∈ s.recorded) →
      ∃ c ∈ s.commits, (∃ share, (t, share) ∈ c.batch) ∧ ∃ k, c.outcome = .panicked k
  /-- A call returns what its commit published for its ticket, and takes it. -/
  own_result : ∀ t x, s.At t (.returned x) → s.state.results.lookup t = none ∧
    ∃ c ∈ s.commits, ∃ r, (t, r) ∈ c.results ∧ x = returnedOf r
  /-- A finished ticket's result is its own call's, unless a commit it led panicked. -/
  taken : ∀ c ∈ s.commits, ∀ t r, (t, r) ∈ c.results →
    s.At t (.returned (returnedOf r)) ∨ s.InProgress t ∨ s.At t .unwound ∧ s.LedPanic t
  /-- The rows a commit removed are the first ticket's result, and none the others'. -/
  removed_once : ∀ c ∈ s.commits, ∀ removed, c.outcome = .recorded removed →
    ∃ t rest, c.results = (t, .ok removed) :: rest ∧ ∀ r ∈ rest, r.2 = .ok 0
  /-- Some call in progress can move, so no call sleeps for ever. -/
  progress : (∃ t, s.InProgress t) → ∃ i p, s.At i p ∧ p ≠ .waiting false ∧
    (∀ x, p ≠ .returned x) ∧ p ≠ .unwound

theorem recorded_initial (c : Commit) : c.recorded.Sublist c.batch := by
  unfold Commit.recorded
  split
  · exact List.Sublist.refl _
  · exact List.nil_sublist _
  · exact List.take_sublist _ _

theorem recorded_sublist (commits : List Commit) :
    (commits.flatMap Commit.recorded).Sublist (commits.flatMap Commit.batch) := by
  induction commits with
  | nil => exact List.Sublist.refl _
  | cons c commits ih => exact (recorded_initial c).append ih

theorem Stands.recorded_sublist (h : s.Stands done pending inflight) :
    s.recorded.Sublist s.tickets := by
  rw [← h.order]
  exact (GroupState.recorded_sublist _).trans (List.sublist_append_left _ _)

/-- A ticket is in one commit only. -/
theorem Stands.commit_unique (h : s.Stands done pending inflight) {c c' : Commit}
    (hc : c ∈ s.commits) (hc' : c' ∈ s.commits) {t : Nat} {share share' : Share}
    (ht : (t, share) ∈ c.batch) (ht' : (t, share') ∈ c'.batch) : c = c' := by
  by_contra hne
  have hpair := (List.nodup_flatMap.mp h.batch_nodup).2
  have : Std.Symm (Function.onFun List.Disjoint fun c : Commit => c.batch.map Prod.fst) :=
    ⟨fun _ _ hab _ ha hb => hab hb ha⟩
  have hdisjoint := hpair.forall hc hc' hne
  exact hdisjoint (List.mem_map.mpr ⟨_, ht, rfl⟩) (List.mem_map.mpr ⟨_, ht', rfl⟩)

theorem exists_resultAt {c : Commit} {t : Nat} {r : CommitResult} (h : (t, r) ∈ c.results) :
    ∃ i, r = resultAt c.result i := by
  obtain ⟨⟨ticket, i⟩, -, heq⟩ := List.mem_map.mp h
  cases heq
  exact ⟨i, rfl⟩

theorem recorded_of_result_ok {c : Commit} {t : Nat} {n : Nat} (h : (t, .ok n) ∈ c.results) :
    c.recorded = c.batch := by
  obtain ⟨i, hr⟩ := exists_resultAt h
  unfold Commit.recorded
  unfold Commit.result at hr
  split at hr
  · rfl
  · cases hr
  · cases hr

theorem recorded_of_result_error {c : Commit} {t : Nat} {e : String}
    (h : (t, .error e) ∈ c.results) : c.recorded = [] ∨ ∃ k, c.outcome = .panicked k := by
  obtain ⟨i, hr⟩ := exists_resultAt h
  cases houtcome : c.outcome with
  | recorded n =>
      simp only [Commit.result, houtcome, resultAt] at hr
      split at hr <;> cases hr
  | failed e => exact .inl (by rw [Commit.recorded, houtcome])
  | panicked k => exact .inr ⟨k, rfl⟩

theorem results_recorded {c : Commit} (hne : c.batch ≠ []) {n : Nat}
    (houtcome : c.outcome = .recorded n) :
    ∃ t rest, c.results = (t, .ok n) :: rest ∧ ∀ r ∈ rest, r.2 = .ok 0 := by
  obtain ⟨⟨t, share⟩, batch, hbatch⟩ := List.exists_cons_of_ne_nil hne
  have hresult : c.result = .ok n := by rw [Commit.result, houtcome]
  refine ⟨t, ((batch.map Prod.fst).zipIdx 1).map fun entry => (entry.1, resultAt (.ok n) entry.2),
    by rw [Commit.results, hbatch, hresult]; rfl, ?_⟩
  intro r hr
  obtain ⟨⟨ticket, i⟩, hmem, rfl⟩ := List.mem_map.mp hr
  have hpos := List.le_snd_of_mem_zipIdx hmem
  exact if_neg (by simp only at hpos; omega)

theorem Stands.in_progress (h : s.Stands done pending inflight) {t : Nat} {share : Share}
    (ht : (t, share) ∈ s.tickets) (hreturned : ∀ x, ¬ s.At t (.returned x)) :
    s.InProgress t ∨ s.At t .unwound ∧ s.LedPanic t := by
  rw [mem_tickets] at ht
  obtain ⟨call, hcall, -⟩ := Option.map_eq_some_iff.mp ht
  have hat : s.At t call.phase := by rw [At, phase, hcall]; rfl
  by_cases hunwound : call.phase = .unwound
  · rw [hunwound] at hat
    exact .inr ⟨hat, h.unwinding t (.inl hat)⟩
  · refine .inl ⟨_, hat, fun x hx => ?_, hunwound⟩
    rw [hx] at hat
    exact hreturned x hat

theorem Stands.progress (h : s.Stands done pending inflight) {t : Nat} (ht : s.InProgress t) :
    ∃ i p, s.At i p ∧ p ≠ .waiting false ∧ (∀ x, p ≠ .returned x) ∧ p ≠ .unwound := by
  obtain ⟨p, hat, hreturned, hunwound⟩ := ht
  by_cases hasleep : p = .waiting false
  · subst hasleep
    rcases h.awake t hat with hbusy | ⟨j, u, hj⟩
    · cases h.lead with
      | idle hidle => rw [hidle] at hbusy; cases hbusy
      | committing _ hi => exact ⟨_, _, hi, by simp, by simp, by simp⟩
      | finishing _ hi => exact ⟨_, _, hi, by simp, by simp, by simp⟩
    · exact ⟨j, _, hj, by simp, by simp, by simp⟩
  · exact ⟨t, p, hat, hasleep, hreturned, hunwound⟩

theorem Stands.linearizable (h : s.Stands done pending inflight) : s.Linearizable where
  one_commit i j _ _ _ _ hi hj := by
    cases h.lead with
    | idle _ hnone => cases hnone i _ hi
    | committing _ _ hone => rw [hone i _ hi rfl, hone j _ hj rfl]
    | finishing _ _ hone => rw [hone i _ hi rfl, hone j _ hj rfl]
  ticket_order := (tickets_pairwise s).sublist h.recorded_sublist
  own_share t share hmem := mem_tickets.mp (h.recorded_sublist.subset hmem)
  recorded_of_ok t removed hat := by
    obtain ⟨-, r, hr, hx⟩ := h.taken t _ hat
    obtain ⟨c, hc, hr⟩ := mem_answers.mp hr
    cases r with
    | error e => cases hx
    | ok n =>
        obtain ⟨share, hshare⟩ := ticket_of_mem_results hr
        refine ⟨share, List.mem_flatMap.mpr ⟨c, ?_, ?_⟩⟩
        · rw [h.commits]
          exact List.mem_append_left _ hc
        · rw [recorded_of_result_ok hr]
          exact hshare
  unrecorded_of_error t e hat := by
    rintro ⟨share, hrecorded⟩
    obtain ⟨-, r, hr, hx⟩ := h.taken t _ hat
    obtain ⟨c, hc, hr⟩ := mem_answers.mp hr
    have hc : c ∈ s.commits := by rw [h.commits]; exact List.mem_append_left _ hc
    obtain ⟨c', hc', hmem⟩ := List.mem_flatMap.mp hrecorded
    obtain ⟨share', hshare'⟩ := ticket_of_mem_results hr
    obtain rfl := h.commit_unique hc hc' hshare' ((recorded_initial c').subset hmem)
    cases r with
    | ok n => cases hx
    | error e' =>
        rcases recorded_of_result_error hr with hnone | hpanicked
        · rw [hnone] at hmem
          cases hmem
        · exact ⟨c, hc, ⟨share', hshare'⟩, hpanicked⟩
  own_result t x hat := by
    obtain ⟨hnone, r, hr, hx⟩ := h.taken t x hat
    obtain ⟨c, hc, hr⟩ := mem_answers.mp hr
    exact ⟨hnone, c, by rw [h.commits]; exact List.mem_append_left _ hc, r, hr, hx⟩
  taken c hc t r hr := by
    obtain ⟨share, hshare⟩ := ticket_of_mem_results hr
    have hticket : (t, share) ∈ s.tickets := by
      rw [← h.order]
      exact List.mem_append_left _ (List.mem_flatMap.mpr ⟨c, hc, hshare⟩)
    by_cases hreturned : ∃ x, s.At t (.returned x)
    · obtain ⟨x, hx⟩ := hreturned
      obtain ⟨-, r', hr', rfl⟩ := h.taken t x hx
      obtain ⟨c', hc', hr'⟩ := mem_answers.mp hr'
      obtain ⟨share', hshare'⟩ := ticket_of_mem_results hr'
      obtain rfl := h.commit_unique hc (by rw [h.commits]; exact List.mem_append_left _ hc') hshare
        hshare'
      have hkeys : (c.results.map Prod.fst).Nodup := by
        rw [Commit.results, List.map_map]
        change ((c.batch.map Prod.fst).zipIdx.map Prod.fst).Nodup
        rw [List.zipIdx_map_fst]
        exact (List.nodup_flatMap.mp h.batch_nodup).1 c hc
      have hsame : (t, r) = (t, r') := List.inj_on_of_nodup_map hkeys hr hr' rfl
      cases hsame
      exact .inl hx
    · exact .inr (h.in_progress hticket fun x hx => hreturned ⟨x, hx⟩)
  removed_once c hc removed houtcome := results_recorded (h.nonempty c hc) houtcome
  progress := fun ⟨_, ht⟩ => h.progress ht

/-- While no commit panics, the ledger stores what it recorded, in order. -/
def Stored (history : List Share) (s : GroupState F) : Prop :=
  (∀ call ∈ s.calls, call.share.Recordable) → (∀ c ∈ s.commits, ∀ k, c.outcome ≠ .panicked k) →
    s.ledger.Sound (history ++ s.recorded.map Prod.snd)

/-- The batch being committed is the shares of the calls that queued them. -/
theorem Stands.batch_shares (h : s.Stands done pending inflight) {i : Nat} {finish : Finish}
    {shares : List Share} (hi : s.At i (.committing finish shares)) :
    (finish.tickets.zip shares).map Prod.snd = shares ∧
      ∀ share ∈ shares, ∃ call ∈ s.calls, call.share = share := by
  cases h.lead with
  | idle _ hnone => cases hnone i _ hi
  | finishing _ hat hone =>
      obtain rfl := hone i _ hi rfl
      cases hi.unique hat
  | committing _ hat hone _ hbatch _ hshares =>
      obtain rfl := hone i _ hi rfl
      cases hi.unique hat
      refine ⟨by rw [hbatch, ← hshares], fun share hshare => ?_⟩
      rw [hshares] at hshare
      obtain ⟨⟨t, share'⟩, hmem, rfl⟩ := List.mem_map.mp hshare
      have hticket : (t, share') ∈ s.tickets := by
        rw [← h.order]
        exact List.mem_append_right _ (List.mem_append_left _ hmem)
      obtain ⟨call, hcall, hsame⟩ := Option.map_eq_some_iff.mp (mem_tickets.mp hticket)
      exact ⟨call, List.mem_of_getElem? hcall, hsame⟩

theorem calls_setPhase {i : Nat} {p : Phase} (h : ∀ call ∈ (s.setPhase i p).calls,
    call.share.Recordable) : ∀ call ∈ s.calls, call.share.Recordable := by
  intro call hcall
  obtain ⟨j, hj, rfl⟩ := List.mem_iff_getElem.mp hcall
  have hj' : j < (s.setPhase i p).calls.length := by simpa [setPhase] using hj
  have := h _ (List.getElem_mem hj')
  simp only [setPhase, List.getElem_modify] at this
  split at this <;> exact this

theorem Stored.setPhase {history : List Share} (h : Stored history s) (i : Nat) (p : Phase) :
    Stored history (s.setPhase i p) := fun hcalls => h (calls_setPhase hcalls)

theorem Stored.step [One F] {history : List Share} (h : Stored history s) (hsound : s.Sound)
    {s' : GroupState F} {event : GroupEvent} (hstep : GroupStep s event s') :
    Stored history s' := by
  obtain ⟨done, pending, inflight, hstands⟩ := hsound
  cases hstep with
  | call share =>
      intro hcalls
      exact h fun call hcall => hcalls call (List.mem_append_left _ hcall)
  | wake hat => exact Stored.setPhase (s := { s with state := _ }) h _ _
  | resume hat => exact Stored.setPhase (s := { s with state := _ }) h _ _
  | publish hat => exact Stored.setPhase (s := { s with state := _ }) h _ _
  | notify hat =>
      refine Stored.setPhase (s := { s with
        calls := s.calls.map fun call => { call with phase := call.phase.notify } })
        (fun hcalls => h fun call hcall => ?_) _ _
      exact hcalls { call with phase := call.phase.notify } (List.mem_map.mpr ⟨call, hcall, rfl⟩)
  | @commit i finish shares l l' held removed hat hledger answers hrecord =>
      refine Stored.setPhase (s := { s with ledger := _, commits := _ }) (fun hcalls hpanic => ?_) _ _
      obtain ⟨hbatch, hqueued⟩ := hstands.batch_shares hat
      have hbefore := h hcalls fun c hc => hpanic c (List.mem_append_left _ hc)
      rw [hledger] at hbefore
      have hshares : ∀ share ∈ shares, share.Recordable := by
        intro share hshare
        obtain ⟨call, hcall, rfl⟩ := hqueued share hshare
        exact hcalls call hcall
      have hafter := hbefore.step (LedgerStep.record answers hshares hrecord)
      simpa [recorded, Commit.recorded, hbatch, LedgerEvent.shares, List.append_assoc] using hafter
  | commitFailed hat hledger answers hrecord =>
      refine Stored.setPhase (s := { s with commits := _ }) (fun hcalls hpanic => ?_) _ _
      simpa [recorded, Commit.recorded] using
        h hcalls fun c hc => hpanic c (List.mem_append_left _ hc)
  | panic hat k ledger =>
      refine Stored.setPhase (s := { s with ledger := _, commits := _ }) (fun _ hpanic => ?_) _ _
      exact absurd rfl (hpanic _ (List.mem_append_right _ (List.mem_singleton_self _)) k)
  | elsewhere hevent hledger =>
      intro hcalls hpanic
      have hafter := (h hcalls hpanic).step hledger
      rw [hevent, List.append_nil] at hafter
      exact hafter

end GroupState

/-- **Group commit is linearizable over every schedule**, with commits that succeed, fail or panic; and
while none panics, the ledger stores the shares recorded, in the order of their tickets. -/
theorem group_commit_linearizable [One F] {ledger : LedgerState F} {trace : List GroupEvent}
    {s : GroupState F} (hrun : (groupRuns ledger).Run trace s) :
    s.Linearizable ∧ ∀ history, ledger.Sound history → GroupState.Stored history s := by
  obtain ⟨_, _, _, hstands⟩ := groupRuns_sound hrun
  refine ⟨hstands.linearizable, fun history hledger => ?_⟩
  have h := hrun.invariant (I := fun _ s => s.Sound ∧ GroupState.Stored history s) ?_ ?_
  · exact h.2
  · rintro s rfl
    exact ⟨GroupState.new_sound ledger, fun _ _ => by simpa [GroupState.recorded] using hledger⟩
  · exact fun _ _ _ _ h hstep => ⟨h.1.step hstep, h.2.step h.1 hstep⟩

/-- A pool without a ledger file. -/
def memoryLedger : LedgerState Nat := .running smallPool.ledger none

theorem group_commit_records_one : ∃ s : GroupState Nat, s.Linearizable ∧
    s.At 0 (.returned (.ok 0)) ∧ s.recorded = [(0, smallShare 10)] := by
  have hcalled := Lts.Run.next (S := groupRuns memoryLedger) (.start rfl) (.call (smallShare 10))
  have hcommitted := hcalled.next (.commit (i := 0) rfl rfl ⟨.ok (), .ok (), .ok ()⟩ rfl)
  have hpublished := hcommitted.next (.publish (i := 0) rfl)
  have hnotified := hpublished.next (.notify (i := 0) rfl)
  have hresumed := hnotified.next (.resume (i := 0) rfl)
  exact ⟨_, (group_commit_linearizable hresumed).1, rfl, rfl⟩

/-- A commit that panics unwinds the call that led it, and that call's result is never taken: every call
has ended, and the result is still in the table. -/
theorem panicked_result_not_taken : ∃ (trace : List GroupEvent) (s : GroupState Nat),
    (groupRuns memoryLedger).Run trace s ∧ (∀ t, ¬ s.InProgress t) ∧
      s.state.results.lookup 0 = some (.error PANICKED) ∧ ∀ x, ¬ s.At 0 (.returned x) := by
  have hcalled := Lts.Run.next (S := groupRuns memoryLedger) (.start rfl) (.call (smallShare 10))
  have hat : GroupState.At (.called ⟨.new, [], memoryLedger, []⟩ (smallShare 10)) 0
      (.committing ⟨[0], none⟩ [smallShare 10]) := rfl
  have hpanicked := hcalled.next (.panic hat 0 memoryLedger)
  have hpublished := hpanicked.next (.publish (i := 0) rfl)
  have hnotified := hpublished.next (.notify (i := 0) rfl)
  refine ⟨_, _, hnotified, ?_, rfl, ?_⟩
  · rintro t ⟨p, hat, -, hunwound⟩
    cases t with
    | zero => exact hunwound (Option.some.inj hat).symm
    | succ t => cases hat
  · intro x hx
    cases hx

end Ratum
