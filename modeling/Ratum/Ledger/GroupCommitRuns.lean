import Ratum.Ledger.GroupCommit

/-!
# Group commit over every schedule

Every ticket is in one place: in a commit that ran, in the batch a call is committing, or queued, and
in that order. A result is in the table from the commit that published it until its own call takes it.
-/

namespace Ratum

open GroupCommit

variable {F : Type}

namespace GroupState

/-! ### Phases -/

theorem phase_setPhase (s : GroupState F) (i j : Nat) (p : Phase) :
    (s.setPhase i p).phase j = if i = j then (s.phase j).map (fun _ => p) else s.phase j := by
  simp only [phase, setPhase, List.getElem?_modify]
  by_cases h : i = j
  · subst h
    cases s.calls[i]? <;> simp
  · cases s.calls[j]? <;> simp [h]

theorem at_setPhase_self {s : GroupState F} {i : Nat} {p q : Phase} (h : s.At i p) :
    (s.setPhase i q).At i q := by
  rw [At, phase_setPhase, if_pos rfl, h]
  rfl

theorem at_setPhase_ne {s : GroupState F} {i j : Nat} {p q : Phase} (h : i ≠ j) :
    (s.setPhase i q).At j p ↔ s.At j p := by
  rw [At, phase_setPhase, if_neg h, At]

theorem at_setPhase_iff {s : GroupState F} {i j : Nat} {p q r : Phase} (h : s.At i p) :
    (s.setPhase i q).At j r ↔ (j = i ∧ r = q) ∨ (j ≠ i ∧ s.At j r) := by
  by_cases hij : i = j
  · subst hij
    have hself := at_setPhase_self (q := q) h
    constructor
    · intro hr
      rw [At, hself] at hr
      exact .inl ⟨rfl, (Option.some.inj hr).symm⟩
    · rintro (⟨-, rfl⟩ | ⟨hne, -⟩)
      · exact hself
      · exact absurd rfl hne
  · rw [at_setPhase_ne hij]
    constructor
    · exact fun hr => .inr ⟨Ne.symm hij, hr⟩
    · rintro (⟨rfl, -⟩ | ⟨-, hr⟩)
      · exact absurd rfl hij
      · exact hr

theorem At.unique {s : GroupState F} {i : Nat} {p q : Phase} (hp : s.At i p) (hq : s.At i q) :
    p = q := Option.some.inj (hp.symm.trans hq)

theorem At.lt {s : GroupState F} {i : Nat} {p : Phase} (h : s.At i p) : i < s.calls.length := by
  by_contra hge
  rw [At, phase, List.getElem?_eq_none (by omega)] at h
  cases h

theorem phase_notified (s : GroupState F) (j : Nat) :
    GroupState.phase { s with calls := s.calls.map fun call => { call with phase := call.phase.notify } } j =
      (s.phase j).map Phase.notify := by
  simp only [phase, List.getElem?_map, Option.map_map]
  rfl

/-! ### The invariant -/

/-- Every call's ticket and share, in the order of the tickets. -/
def tickets (s : GroupState F) : List (Nat × Share) := s.calls.mapIdx fun i call => (i, call.share)

/-- Whether a call holds a batch, or its result to publish. -/
def leads : Phase → Bool
  | .committing _ _ | .finishing _ => true
  | _ => false

/-- Who leads a commit, the commit whose result is not yet published, and the batch being committed. -/
inductive Lead (s : GroupState F) : List Commit → List (Nat × Share) → Prop
  | idle (hidle : s.state.committing = false) (hnone : ∀ j p, s.At j p → leads p = false) :
      Lead s [] []
  | committing {i : Nat} {finish : Finish} {shares : List Share} {batch : List (Nat × Share)}
      (hbusy : s.state.committing = true) (hat : s.At i (.committing finish shares))
      (hone : ∀ j p, s.At j p → leads p = true → j = i) (hresult : finish.result = none)
      (hbatch : finish.tickets.zip shares = batch) (htickets : finish.tickets = batch.map Prod.fst)
      (hshares : shares = batch.map Prod.snd) (hne : batch ≠ []) : Lead s [] batch
  | finishing {i : Nat} {finish : Finish} {c : Commit} (hbusy : s.state.committing = true)
      (hat : s.At i (.finishing finish)) (hone : ∀ j p, s.At j p → leads p = true → j = i)
      (htickets : finish.tickets = c.batch.map Prod.fst)
      (hresult : finish.result.getD (.error PANICKED) = c.result)
      (hpanic : finish.result = none → c.leader = i ∧ ∃ k, c.outcome = .panicked k) :
      Lead s [c] []

/-- The results published, each under its ticket. -/
def answers (commits : List Commit) : List (Nat × CommitResult) := commits.flatMap Commit.results

/-- A call that unwinds led a commit that panicked. -/
def LedPanic (s : GroupState F) (i : Nat) : Prop :=
  ∃ c ∈ s.commits, c.leader = i ∧ ∃ k, c.outcome = .panicked k

structure Stands (s : GroupState F) (done pending : List Commit) (inflight : List (Nat × Share)) :
    Prop where
  ticket : s.state.nextTicket = s.calls.length
  commits : s.commits = done ++ pending
  order : s.commits.flatMap Commit.batch ++ (inflight ++ s.state.queued) = s.tickets
  nonempty : ∀ c ∈ s.commits, c.batch ≠ []
  published : ∀ t r, s.state.results.lookup t = some r → (t, r) ∈ answers done
  taken : ∀ t x, s.At t (.returned x) →
    s.state.results.lookup t = none ∧ ∃ r, (t, r) ∈ answers done ∧ x = returnedOf r
  answered : ∀ t r, (t, r) ∈ answers done →
    s.state.results.lookup t = some r ∨ s.At t (.returned (returnedOf r))
  lead : Lead s pending inflight
  awake : ∀ i, s.At i (.waiting false) →
    s.state.committing = true ∨ ∃ j unwinding, s.At j (.notifying unwinding)
  unwinding : ∀ i, s.At i .unwound ∨ s.At i (.notifying true) → s.LedPanic i

variable {s : GroupState F} {done pending : List Commit} {inflight : List (Nat × Share)}

@[simp] theorem tickets_setPhase (s : GroupState F) (i : Nat) (p : Phase) :
    (s.setPhase i p).tickets = s.tickets := by
  apply List.ext_getElem?
  intro k
  simp only [tickets, setPhase, List.getElem?_mapIdx, List.getElem?_modify]
  by_cases h : i = k <;> cases s.calls[k]? <;> simp [h]

theorem mem_tickets {t : Nat} {share : Share} :
    (t, share) ∈ s.tickets ↔ (s.calls[t]?).map RecordCall.share = some share := by
  simp only [tickets, List.mem_mapIdx, Prod.mk.injEq, Option.map_eq_some_iff]
  constructor
  · rintro ⟨i, hi, rfl, rfl⟩
    exact ⟨_, List.getElem?_eq_getElem hi, rfl⟩
  · rintro ⟨call, hcall, rfl⟩
    obtain ⟨hi, rfl⟩ := List.getElem?_eq_some_iff.mp hcall
    exact ⟨t, hi, rfl, rfl⟩

theorem tickets_pairwise (s : GroupState F) : s.tickets.Pairwise fun a b => a.1 < b.1 := by
  rw [List.pairwise_iff_getElem]
  intro i j hi hj hij
  simpa [tickets] using hij

theorem mem_answers {commits : List Commit} {t : Nat} {r : CommitResult} :
    (t, r) ∈ answers commits ↔ ∃ c ∈ commits, (t, r) ∈ c.results := List.mem_flatMap

theorem ticket_of_mem_results {c : Commit} {t : Nat} {r : CommitResult} (h : (t, r) ∈ c.results) :
    ∃ share, (t, share) ∈ c.batch := by
  obtain ⟨⟨ticket, i⟩, hmem, heq⟩ := List.mem_map.mp h
  cases heq
  obtain ⟨⟨_, share⟩, hbatch, rfl⟩ := List.mem_map.mp (List.fst_mem_of_mem_zipIdx hmem)
  exact ⟨share, hbatch⟩

theorem mem_results_of_ticket {c : Commit} {t : Nat} {share : Share} (h : (t, share) ∈ c.batch) :
    ∃ r, (t, r) ∈ c.results := by
  obtain ⟨i, hi, hget⟩ := List.mem_iff_getElem.mp h
  refine ⟨resultAt c.result i, List.mem_map.mpr ⟨(t, i), ?_, rfl⟩⟩
  rw [List.mem_zipIdx_iff_getElem?]
  simp [List.getElem?_eq_getElem hi, hget]

/-- A ticket that is not answered yet is not in a commit whose results are published. -/
theorem Stands.in_queue (h : s.Stands done [] []) {i : Nat} {p : Phase} (hat : s.At i p)
    (hnone : s.state.results.lookup i = none) (hp : ∀ x, p ≠ .returned x) :
    s.state.queued ≠ [] := by
  intro hempty
  have hlt := hat.lt
  have hmem : (i, (s.calls.get ⟨i, hlt⟩).share) ∈ s.tickets := by
    rw [mem_tickets, List.getElem?_eq_getElem hlt]
    rfl
  rw [← h.order, hempty, List.append_nil, List.append_nil, h.commits, List.append_nil] at hmem
  obtain ⟨c, hc, hbatch⟩ := List.mem_flatMap.mp hmem
  obtain ⟨r, hr⟩ := mem_results_of_ticket hbatch
  rcases h.answered i r (mem_answers.mpr ⟨c, hc, hr⟩) with hlookup | hreturned
  · rw [hnone] at hlookup
    cases hlookup
  · exact hp _ (hat.unique hreturned)

/-- Steps of calls that do not lead keep the lead. -/
theorem Lead.congr {s' : GroupState F} (h : Lead s pending inflight)
    (hcommitting : s'.state.committing = s.state.committing)
    (hat : ∀ j p, leads p = true → (s'.At j p ↔ s.At j p)) : Lead s' pending inflight := by
  cases h with
  | idle hidle hnone =>
      refine .idle (hcommitting.trans hidle) fun j p hp => ?_
      by_contra hleads
      have hleads : leads p = true := by simpa using hleads
      have := hnone j p ((hat j p hleads).mp hp)
      rw [hleads] at this
      cases this
  | committing hbusy hi hone hresult hbatch htickets hshares hne =>
      exact .committing (hcommitting.trans hbusy) ((hat _ _ rfl).mpr hi)
        (fun j p hp hleads => hone j p ((hat j p hleads).mp hp) hleads) hresult hbatch htickets hshares
        hne
  | finishing hbusy hi hone htickets hresult hpanic =>
      exact .finishing (hcommitting.trans hbusy) ((hat _ _ rfl).mpr hi)
        (fun j p hp hleads => hone j p ((hat j p hleads).mp hp) hleads) htickets hresult hpanic

/-- One call moves from a phase to another; the others stay. -/
structure Moves (s s' : GroupState F) (i : Nat) (p q : Phase) : Prop where
  before : s.At i p
  after : ∀ j r, s'.At j r ↔ (j = i ∧ r = q) ∨ (j ≠ i ∧ s.At j r)

theorem moves_setPhase {s : GroupState F} {i : Nat} {p : Phase} (h : s.At i p) (q : Phase) :
    Moves s (s.setPhase i q) i p q := ⟨h, fun _ _ => at_setPhase_iff h⟩

theorem At.congr {s s' : GroupState F} (h : s'.calls = s.calls) {i : Nat} {p : Phase} :
    s'.At i p ↔ s.At i p := by rw [At, At, phase, phase, h]

namespace Moves

variable {s' : GroupState F} {i : Nat} {p q : Phase}

theorem at_self (h : Moves s s' i p q) : s'.At i q := (h.after i q).mpr (.inl ⟨rfl, rfl⟩)

/-- A phase the moving call is not in before or after is held by the same calls. -/
theorem at_iff (h : Moves s s' i p q) {r : Phase} (hp : p ≠ r) (hq : q ≠ r) (j : Nat) :
    s'.At j r ↔ s.At j r := by
  rw [h.after]
  constructor
  · rintro (⟨-, rfl⟩ | ⟨-, hj⟩)
    · exact absurd rfl hq
    · exact hj
  · intro hj
    refine .inr ⟨?_, hj⟩
    rintro rfl
    exact hp (h.before.unique hj)

theorem lead (h : Moves s s' i p q) (hlead : Lead s pending inflight)
    (hcommitting : s'.state.committing = s.state.committing) (hp : leads p = false)
    (hq : leads q = false) : Lead s' pending inflight := by
  refine hlead.congr hcommitting fun j r hr => h.at_iff ?_ ?_ j
  · rintro rfl
    rw [hp] at hr
    cases hr
  · rintro rfl
    rw [hq] at hr
    cases hr

theorem unwinding (h : Moves s s' i p q) (hstands : s.Stands done pending inflight)
    (hcommits : s.commits ⊆ s'.commits) (hq : q = .unwound ∨ q = .notifying true → s'.LedPanic i) :
    ∀ j, s'.At j .unwound ∨ s'.At j (.notifying true) → s'.LedPanic j := by
  have hkept : ∀ j, s.LedPanic j → s'.LedPanic j := fun j ⟨c, hc, hled⟩ => ⟨c, hcommits hc, hled⟩
  rintro j (hj | hj)
  · rcases (h.after j _).mp hj with ⟨rfl, rfl⟩ | ⟨-, hj⟩
    · exact hq (.inl rfl)
    · exact hkept j (hstands.unwinding j (.inl hj))
  · rcases (h.after j _).mp hj with ⟨rfl, rfl⟩ | ⟨-, hj⟩
    · exact hq (.inr rfl)
    · exact hkept j (hstands.unwinding j (.inr hj))

/-- A wait goes on being about to end while a commit runs or a notification is due. -/
theorem awake (h : Moves s s' i p q) (hstands : s.Stands done pending inflight)
    (hcommitting : s.state.committing = true → s'.state.committing = true)
    (hp : ∀ u, p ≠ .notifying u) (hq : q = .waiting false → s'.state.committing = true) :
    ∀ j, s'.At j (.waiting false) →
      s'.state.committing = true ∨ ∃ k u, s'.At k (.notifying u) := by
  intro j hj
  rcases (h.after j _).mp hj with ⟨-, rfl⟩ | ⟨-, hj⟩
  · exact .inl (hq rfl)
  · rcases hstands.awake j hj with hbusy | ⟨k, u, hk⟩
    · exact .inl (hcommitting hbusy)
    · refine .inr ⟨k, u, (h.after k _).mpr (.inr ⟨?_, hk⟩)⟩
      rintro rfl
      exact hp u (h.before.unique hk)

end Moves

/-- A call that may take a turn: it waits, or is past the commit it led. -/
def Running (s : GroupState F) (i : Nat) : Prop :=
  (∃ notified, s.At i (.waiting notified)) ∨ s.At i .resuming

theorem Running.at (h : s.Running i) : ∃ p, s.At i p ∧ leads p = false ∧ (∀ x, p ≠ .returned x) ∧
    ∀ u, p ≠ .notifying u := by
  rcases h with ⟨notified, h⟩ | h
  · exact ⟨_, h, rfl, by simp, by simp⟩
  · exact ⟨_, h, rfl, by simp, by simp⟩

/-- A turn that finds its result takes it. -/
theorem Stands.turned_returned (h : s.Stands done pending inflight) {i : Nat} (hi : s.Running i)
    {r : CommitResult} (hr : s.state.results.lookup i = some r) :
    (s.turned i).Stands done pending inflight := by
  obtain ⟨p, hp, hleads, hreturned, hnotifying⟩ := hi.at
  have hturned : s.turned i = setPhase { s with state := { s.state with
      results := s.state.results.erase i } } i (.returned (returnedOf r)) := by
    simp [turned, turn, hr]
  have hmoves : Moves s (s.turned i) i p (.returned (returnedOf r)) := by
    rw [hturned]
    exact ⟨hp, fun _ _ => at_setPhase_iff (s := { s with state := _ }) hp⟩
  have hlookup : ∀ t, (s.turned i).state.results.lookup t =
      if t = i then none else s.state.results.lookup t := by
    intro t
    rw [hturned]
    change (s.state.results.erase i).lookup t = _
    split
    · next hti => rw [hti, AList.lookup_erase]
    · next hti => rw [AList.lookup_erase_ne hti]
  have hcommits : (s.turned i).commits = s.commits := by rw [hturned]; rfl
  have hcommitting : (s.turned i).state.committing = s.state.committing := by rw [hturned]; rfl
  refine ⟨?_, hcommits.trans h.commits, ?_, hcommits ▸ h.nonempty, ?_, ?_, ?_,
    hmoves.lead h.lead hcommitting hleads rfl,
    hmoves.awake h (hcommitting.trans ·) hnotifying (by simp),
    hmoves.unwinding h (by rw [hcommits]; exact List.Subset.refl _) (by simp)⟩
  · rw [hturned]
    simpa [setPhase] using h.ticket
  · rw [hturned, tickets_setPhase]
    exact h.order
  · intro t r' ht
    rw [hlookup] at ht
    split at ht
    · cases ht
    · exact h.published t r' ht
  · intro t x ht
    rw [hlookup]
    rcases (hmoves.after t _).mp ht with ⟨rfl, hx⟩ | ⟨hne, ht⟩
    · cases hx
      exact ⟨if_pos rfl, r, h.published _ r hr, rfl⟩
    · rw [if_neg hne]
      exact h.taken t x ht
  · intro t r' ht
    rw [hlookup, hmoves.after]
    by_cases hti : t = i
    · subst hti
      rcases h.answered t r' ht with hlook | hret
      · rw [hr] at hlook
        cases hlook
        exact .inr (.inl ⟨rfl, rfl⟩)
      · exact absurd (hp.unique hret) (hreturned _)
    · rw [if_neg hti]
      exact (h.answered t r' ht).imp_right fun hret => .inr ⟨hti, hret⟩

/-- Fields of the invariant that stand when no result is published or taken. -/
theorem Stands.unanswered {s' : GroupState F} (h : s.Stands done pending inflight) {i : Nat}
    {p q : Phase} (hmoves : Moves s s' i p q) (hp : ∀ x, p ≠ .returned x)
    (hq : ∀ x, q ≠ .returned x) (hresults : s'.state.results = s.state.results) :
    (∀ t r, s'.state.results.lookup t = some r → (t, r) ∈ answers done) ∧
    (∀ t x, s'.At t (.returned x) →
      s'.state.results.lookup t = none ∧ ∃ r, (t, r) ∈ answers done ∧ x = returnedOf r) ∧
    (∀ t r, (t, r) ∈ answers done →
      s'.state.results.lookup t = some r ∨ s'.At t (.returned (returnedOf r))) := by
  rw [hresults]
  refine ⟨h.published, fun t x ht => ?_, fun t r ht => ?_⟩
  · exact h.taken t x ((hmoves.at_iff (hp x) (hq x) t).mp ht)
  · exact (h.answered t r ht).imp_right (hmoves.at_iff (hp _) (hq _) t).mpr

/-- A turn during a commit waits for it. -/
theorem Stands.turned_waiting (h : s.Stands done pending inflight) {i : Nat} (hi : s.Running i)
    (hr : s.state.results.lookup i = none) (hbusy : s.state.committing = true) :
    (s.turned i).Stands done pending inflight := by
  obtain ⟨p, hp, hleads, hreturned, hnotifying⟩ := hi.at
  have hturned : s.turned i = setPhase s i (.waiting false) := by simp [turned, turn, hr, hbusy]
  rw [hturned]
  have hmoves := moves_setPhase hp (.waiting false)
  obtain ⟨hpublished, htaken, hanswered⟩ := h.unanswered hmoves hreturned (by simp) rfl
  refine ⟨?_, h.commits, ?_, h.nonempty, hpublished, htaken, hanswered,
    hmoves.lead h.lead rfl hleads rfl, hmoves.awake h id hnotifying (fun _ => hbusy),
    hmoves.unwinding h (List.Subset.refl _) (by simp)⟩
  · simpa [setPhase] using h.ticket
  · rw [tickets_setPhase]
    exact h.order

/-- A turn that finds no commit running leads one, with the oldest queued shares. -/
theorem Stands.turned_leading (h : s.Stands done pending inflight) {i : Nat} (hi : s.Running i)
    (hr : s.state.results.lookup i = none) (hidle : s.state.committing = false) :
    (s.turned i).Stands done [] (s.state.queued.take (min s.state.queued.length MAX_BATCH)) := by
  obtain ⟨p, hp, hleads, hreturned, hnotifying⟩ := hi.at
  set take := min s.state.queued.length MAX_BATCH with htake
  have hturned : s.turned i = setPhase { s with state := { s.state with
      committing := true, queued := s.state.queued.drop take } } i
      (.committing { tickets := (s.state.queued.take take).unzip.1, result := none }
        (s.state.queued.take take).unzip.2) := by
    simp [turned, turn, hr, hidle, htake]
  obtain ⟨rfl, rfl, hnone⟩ : pending = [] ∧ inflight = [] ∧ ∀ j p, s.At j p → leads p = false := by
    cases h.lead with
    | idle _ hnone => exact ⟨rfl, rfl, hnone⟩
    | committing hbusy => rw [hidle] at hbusy; cases hbusy
    | finishing hbusy => rw [hidle] at hbusy; cases hbusy
  have hqueued := h.in_queue hp hr hreturned
  have hmoves : Moves s (s.turned i) i p (.committing
      { tickets := (s.state.queued.take take).unzip.1, result := none }
      (s.state.queued.take take).unzip.2) := by
    rw [hturned]
    exact ⟨hp, fun _ _ => at_setPhase_iff (s := { s with state := _ }) hp⟩
  have hcommits : (s.turned i).commits = s.commits := by rw [hturned]; rfl
  have hbusy : (s.turned i).state.committing = true := by rw [hturned]; rfl
  obtain ⟨hpublished, htaken, hanswered⟩ := h.unanswered hmoves hreturned (by simp)
    (by rw [hturned]; rfl)
  refine ⟨?_, hcommits.trans h.commits, ?_, hcommits ▸ h.nonempty, hpublished, htaken, hanswered,
    ?_, fun _ _ => .inl hbusy, hmoves.unwinding h (by rw [hcommits]; exact List.Subset.refl _) (by simp)⟩
  · rw [hturned]
    simpa [setPhase] using h.ticket
  · rw [hturned, tickets_setPhase]
    change s.commits.flatMap Commit.batch ++
      (s.state.queued.take take ++ s.state.queued.drop take) = s.tickets
    rw [List.take_append_drop, ← h.order, List.nil_append]
  · refine .committing hbusy hmoves.at_self ?_ rfl (List.zip_unzip _) (by simp [List.unzip_eq_map])
      (by simp [List.unzip_eq_map]) ?_
    · intro j r hj hr
      rcases (hmoves.after j r).mp hj with ⟨hji, -⟩ | ⟨-, hj⟩
      · exact hji
      · rw [hnone j r hj] at hr
        cases hr
    · have hpos := List.length_pos_of_ne_nil hqueued
      rw [Ne, List.take_eq_nil_iff, not_or]
      refine ⟨?_, hqueued⟩
      rw [htake, MAX_BATCH]
      omega

/-- A batch being committed has no result yet. -/
theorem Stands.lead_result (h : s.Stands done pending inflight) {i : Nat} {finish : Finish}
    {shares : List Share} (hi : s.At i (.committing finish shares)) : finish.result = none := by
  cases h.lead with
  | idle _ hnone =>
      have := hnone i _ hi
      cases this
  | committing _ hat hone hresult =>
      obtain rfl := hone i _ hi rfl
      cases hi.unique hat
      exact hresult
  | finishing _ hat hone =>
      obtain rfl := hone i _ hi rfl
      cases hi.unique hat

/-- **A turn keeps every ticket in its place.** -/
theorem Stands.turned (h : s.Stands done pending inflight) {i : Nat} (hi : s.Running i) :
    ∃ pending' inflight', (s.turned i).Stands done pending' inflight' := by
  cases hr : s.state.results.lookup i with
  | some r => exact ⟨_, _, h.turned_returned hi hr⟩
  | none =>
      cases hbusy : s.state.committing with
      | true => exact ⟨_, _, h.turned_waiting hi hr hbusy⟩
      | false => exact ⟨_, _, h.turned_leading hi hr hbusy⟩

/-! ### A new call -/

/-- A call that took its ticket, before its first turn. -/
def enqueued (s : GroupState F) (share : Share) : GroupState F :=
  { s with
    state := (enqueue s.state share).2
    calls := s.calls ++ [⟨share, .resuming⟩] }

theorem modify_concat {α : Type*} (f : α → α) (a : α) (l : List α) :
    (l ++ [a]).modify l.length f = l ++ [f a] := by
  induction l with
  | nil => rfl
  | cons b l ih => simp [ih]

theorem called_eq (h : s.Stands done pending inflight) (share : Share) :
    s.called share = (s.enqueued share).turned s.calls.length := by
  have hticket : (enqueue s.state share).1 = s.calls.length := h.ticket
  simp [called, turned, enqueued, setPhase, hticket, modify_concat]

theorem at_enqueued (s : GroupState F) (share : Share) (j : Nat) (p : Phase) :
    (s.enqueued share).At j p ↔ s.At j p ∨ (j = s.calls.length ∧ p = .resuming) := by
  simp only [At, phase, enqueued, List.getElem?_append]
  rcases Nat.lt_trichotomy j s.calls.length with hlt | rfl | hgt
  · simp [hlt, hlt.ne]
  · simp [eq_comm]
  · have hne : j - s.calls.length ≠ 0 := by omega
    rw [if_neg (by omega), List.getElem?_singleton, if_neg hne, List.getElem?_eq_none (by omega)]
    simp [hgt.ne']

theorem Stands.enqueued (h : s.Stands done pending inflight) (share : Share) :
    (s.enqueued share).Stands done pending inflight := by
  have hat : ∀ j p, p ≠ .resuming → ((s.enqueued share).At j p ↔ s.At j p) := by
    intro j p hp
    rw [at_enqueued]
    simp [hp]
  refine ⟨?_, h.commits, ?_, h.nonempty, h.published, ?_, ?_, ?_, ?_, ?_⟩
  · simp [GroupState.enqueued, enqueue, h.ticket]
  · simp only [GroupState.enqueued, enqueue, tickets, List.mapIdx_append]
    rw [← List.append_assoc inflight, ← List.append_assoc (s.commits.flatMap Commit.batch), h.order,
      h.ticket]
    simp [tickets]
  · exact fun t x ht => h.taken t x ((hat t _ (by simp)).mp ht)
  · exact fun t r ht => (h.answered t r ht).imp_right (hat t _ (by simp)).mpr
  · exact h.lead.congr rfl fun j p hp => hat j p (by rintro rfl; cases hp)
  · intro j hj
    rcases h.awake j ((hat j _ (by simp)).mp hj) with hbusy | ⟨k, u, hk⟩
    · exact .inl hbusy
    · exact .inr ⟨k, u, (hat k _ (by simp)).mpr hk⟩
  · intro j hj
    rw [hat j _ (by simp), hat j _ (by simp)] at hj
    exact h.unwinding j hj

theorem Stands.called (h : s.Stands done pending inflight) (share : Share) :
    ∃ pending' inflight', (s.called share).Stands done pending' inflight' := by
  rw [called_eq h]
  refine (h.enqueued share).turned (.inr ?_)
  rw [at_enqueued]
  exact .inr ⟨rfl, rfl⟩

/-! ### A commit, its publication and its notification -/

/-- A commit that ends is the next one. -/
theorem Stands.ended (h : s.Stands done pending inflight) {i : Nat} {finish : Finish}
    {shares : List Share} (hi : s.At i (.committing finish shares)) {finish' : Finish}
    (htickets' : finish'.tickets = finish.tickets) {outcome : CommitOutcome}
    (hresult' : finish'.result.getD (.error PANICKED) =
      Commit.result ⟨i, finish.tickets.zip shares, outcome⟩)
    (hpanic : finish'.result = none → ∃ k, outcome = .panicked k) (ledger : LedgerState F) :
    (s.ended i finish' shares ledger outcome).Stands done
      [⟨i, finish.tickets.zip shares, outcome⟩] [] := by
  have hzip : finish'.tickets.zip shares = finish.tickets.zip shares := by rw [htickets']
  cases h.lead with
  | idle _ hnone =>
      have := hnone i _ hi
      cases this
  | finishing _ hat hone =>
      obtain rfl := hone i _ hi rfl
      cases hi.unique hat
  | @committing i' finish₀ shares₀ _ hbusy hat hone hresult hbatch htickets hshares hne =>
      obtain rfl := hone i _ hi rfl
      cases hi.unique hat
      have hmoves : Moves s (s.ended i finish' shares ledger outcome) i
          (.committing finish shares) (.finishing finish') :=
        ⟨hi, fun _ _ => at_setPhase_iff (s := { s with ledger := _, commits := _ }) hi⟩
      have hcommits : (s.ended i finish' shares ledger outcome).commits =
          s.commits ++ [⟨i, finish.tickets.zip shares, outcome⟩] := by
        rw [← hzip]
        rfl
      obtain ⟨hpublished, htaken, hanswered⟩ := h.unanswered hmoves (by simp) (by simp) rfl
      refine ⟨?_, ?_, ?_, ?_, hpublished, htaken, hanswered, ?_, fun _ _ => .inl hbusy, ?_⟩
      · simpa [GroupState.ended, setPhase] using h.ticket
      · rw [hcommits, h.commits, List.append_nil]
      · rw [hcommits]
        change _ = (setPhase _ _ _).tickets
        rw [tickets_setPhase]
        change _ = s.tickets
        rw [← h.order, hbatch]
        simp only [List.flatMap_append, List.flatMap_cons, List.flatMap_nil, List.append_nil,
          List.nil_append, List.append_assoc]
        rfl
      · rw [hcommits]
        intro c hc
        rcases List.mem_append.mp hc with hold | hnew
        · exact h.nonempty c hold
        · rw [List.mem_singleton.mp hnew, hbatch]
          exact hne
      · refine .finishing hbusy hmoves.at_self ?_ ?_ hresult' fun hnone => ⟨rfl, hpanic hnone⟩
        · intro j r hj hr
          rcases (hmoves.after j r).mp hj with ⟨hji, -⟩ | ⟨-, hj⟩
          · exact hji
          · exact hone j r hj hr
        · exact htickets'.trans (htickets.trans (congrArg _ hbatch.symm))
      · exact hmoves.unwinding h (by rw [hcommits]; exact List.subset_append_left _ _) (by simp)

/-- A table after the entries of a list were inserted, each under a key of its own. -/
theorem lookup_foldl_insert {K V : Type} [DecidableEq K] {entries : List (K × V)}
    (hnodup : (entries.map Prod.fst).Nodup) (table : HashMap K V) (k : K) (v : V) :
    (entries.foldl (fun table entry => table.insert entry.1 entry.2) table).lookup k = some v ↔
      (k, v) ∈ entries ∨ k ∉ entries.map Prod.fst ∧ table.lookup k = some v := by
  induction entries generalizing table with
  | nil => simp
  | cons entry entries ih =>
      obtain ⟨hfirst, hrest⟩ := List.nodup_cons.mp hnodup
      rw [List.foldl_cons, ih hrest, List.map_cons, List.mem_cons, List.mem_cons, not_or]
      by_cases hk : k = entry.1
      · subst hk
        have hnot : ∀ w, (entry.1, w) ∉ entries := fun w hw =>
          hfirst (List.mem_map.mpr ⟨_, hw, rfl⟩)
        rw [AList.lookup_insert]
        simp only [hnot, hfirst, Prod.ext_iff]
        simp [eq_comm]
      · rw [AList.lookup_insert_ne hk]
        simp [hk, Prod.ext_iff]

theorem lookup_publish {finish : Finish} {c : Commit}
    (htickets : finish.tickets = c.batch.map Prod.fst)
    (hresult : finish.result.getD (.error PANICKED) = c.result)
    (hnodup : (c.batch.map Prod.fst).Nodup) (st : State) (t : Nat) (r : CommitResult) :
    (finish.publish st).results.lookup t = some r ↔
      (t, r) ∈ c.results ∨ t ∉ c.batch.map Prod.fst ∧ st.results.lookup t = some r := by
  have hpublish : (finish.publish st).results =
      c.results.foldl (fun table entry => table.insert entry.1 entry.2) st.results := by
    rw [Commit.results, List.foldl_map, ← htickets, ← hresult]
    rfl
  have hkeys : c.results.map Prod.fst = c.batch.map Prod.fst := by
    rw [Commit.results, List.map_map]
    exact List.zipIdx_map_fst _ _
  rw [hpublish, lookup_foldl_insert (hkeys ▸ hnodup), hkeys]

theorem Stands.batch_nodup (h : s.Stands done pending inflight) :
    (s.commits.flatMap fun c => c.batch.map Prod.fst).Nodup := by
  have hsub : (s.commits.flatMap Commit.batch).Sublist s.tickets := by
    rw [← h.order]
    exact List.sublist_append_left _ _
  have hpair := ((tickets_pairwise s).sublist hsub).imp fun {a b} hab => hab.ne
  rw [← List.map_flatMap]
  exact List.pairwise_map.mpr hpair

/-- Publishing answers every ticket of the batch, and lets the next commit start. -/
theorem Stands.published_step (h : s.Stands done pending inflight) {i : Nat} {finish : Finish}
    (hi : s.At i (.finishing finish)) :
    (s.published i finish).Stands (done ++ pending) [] inflight := by
  cases h.lead with
  | idle _ hnone =>
      have := hnone i _ hi
      cases this
  | committing _ hat hone =>
      obtain rfl := hone i _ hi rfl
      cases hi.unique hat
  | @finishing i' finish₀ c hbusy hat hone htickets hresult hpanic =>
      obtain rfl := hone i _ hi rfl
      cases hi.unique hat
      have hmoves : Moves s (s.published i finish) i (.finishing finish)
          (.notifying finish.result.isNone) :=
        ⟨hi, fun _ _ => at_setPhase_iff (s := { s with state := _ }) hi⟩
      have hnodup := h.batch_nodup
      rw [h.commits, List.flatMap_append, List.nodup_append] at hnodup
      obtain ⟨-, hbatch, hdisjoint⟩ := hnodup
      have hbatch : (c.batch.map Prod.fst).Nodup := by simpa using hbatch
      have hlookup := lookup_publish htickets hresult hbatch s.state
      have hfresh : ∀ t ∈ c.batch.map Prod.fst, ∀ r, (t, r) ∉ answers done := by
        intro t ht r hr
        obtain ⟨c', hc', hr⟩ := mem_answers.mp hr
        obtain ⟨share, hshare⟩ := ticket_of_mem_results hr
        exact hdisjoint t (List.mem_flatMap.mpr ⟨c', hc', List.mem_map.mpr ⟨_, hshare, rfl⟩⟩) t
          (by simpa using ht) rfl
      have hanswers : ∀ t r, (t, r) ∈ answers (done ++ [c]) ↔
          (t, r) ∈ answers done ∨ (t, r) ∈ c.results := by
        intro t r
        simp [answers]
      have hat' : ∀ t x, (s.published i finish).At t (.returned x) ↔ s.At t (.returned x) :=
        fun t x => hmoves.at_iff (by simp) (by simp) t
      have hunanswered : ∀ t, (∀ r, (t, r) ∉ answers done) → s.state.results.lookup t = none := by
        intro t ht
        cases hr : s.state.results.lookup t with
        | none => rfl
        | some r => exact absurd (h.published t r hr) (ht r)
      refine ⟨?_, by rw [List.append_nil]; exact h.commits, ?_, h.nonempty, ?_, ?_, ?_, ?_, ?_, ?_⟩
      · simpa [GroupState.published, setPhase, Finish.publish] using h.ticket
      · change _ = (setPhase _ _ _).tickets
        rw [tickets_setPhase]
        exact h.order
      · intro t r ht
        rw [hanswers]
        rcases (hlookup t r).mp ht with hnew | ⟨-, hold⟩
        · exact .inr hnew
        · exact .inl (h.published t r hold)
      · intro t x ht
        obtain ⟨hnone, r, hr, hx⟩ := h.taken t x ((hat' t x).mp ht)
        refine ⟨?_, r, (hanswers t r).mpr (.inl hr), hx⟩
        cases hr' : (s.published i finish).state.results.lookup t with
        | none => rfl
        | some r' =>
            rcases (hlookup t r').mp hr' with hnew | ⟨-, hold⟩
            · obtain ⟨share, hshare⟩ := ticket_of_mem_results hnew
              exact absurd hr (hfresh t (List.mem_map.mpr ⟨_, hshare, rfl⟩) r)
            · rw [hnone] at hold
              cases hold
      · intro t r ht
        rw [hat']
        rcases (hanswers t r).mp ht with hold | hnew
        · refine (h.answered t r hold).imp_left fun hlook => (hlookup t r).mpr (.inr ⟨?_, hlook⟩)
          exact fun hmem => hfresh t hmem r hold
        · exact .inl ((hlookup t r).mpr (.inl hnew))
      · refine .idle rfl fun j p hj => ?_
        rcases (hmoves.after j p).mp hj with ⟨-, rfl⟩ | ⟨hne, hj⟩
        · rfl
        · by_contra hleads
          exact hne (hone j p hj (by simpa using hleads))
      · intro j _
        exact .inr ⟨i, _, hmoves.at_self⟩
      · refine hmoves.unwinding h (List.Subset.refl _) ?_
        rintro (hq | hq)
        · cases hq
        · have hnone : finish.result = none := by simpa using hq
          obtain ⟨hleader, hpanicked⟩ := hpanic hnone
          exact ⟨c, by rw [show (s.published i finish).commits = s.commits from rfl, h.commits]; simp,
            hleader, hpanicked⟩

/-- A notification wakes every waiting call. -/
theorem Stands.notified_step (h : s.Stands done pending inflight) {i : Nat} {unwinding : Bool}
    (hi : s.At i (.notifying unwinding)) : (s.notified i unwinding).Stands done pending inflight := by
  set woken : GroupState F :=
    { s with calls := s.calls.map fun call => { call with phase := call.phase.notify } } with hwoken
  have hwoke : ∀ j p, (∀ u, p ≠ .waiting u) → (woken.At j p ↔ s.At j p) := by
    intro j p hp
    rw [At, hwoken, phase_notified, At]
    cases hphase : s.phase j with
    | none => simp
    | some q =>
        cases q <;> simp [Phase.notify]
        exact iff_of_false (Ne.symm (hp _)) (Ne.symm (hp _))
  have hasleep : ∀ j, ¬ woken.At j (.waiting false) := by
    intro j hj
    rw [At, hwoken, phase_notified] at hj
    cases hphase : s.phase j with
    | none => simp [hphase] at hj
    | some q => cases q <;> simp [hphase, Phase.notify] at hj
  have hi' : woken.At i (.notifying unwinding) := (hwoke i _ (by simp)).mpr hi
  have hmoves := moves_setPhase hi' (if unwinding then .unwound else .resuming)
  have hend : ∀ r, (∀ u, r ≠ .waiting u) → (∀ u, r ≠ .notifying u) → r ≠ .unwound → r ≠ .resuming →
      ∀ j, (s.notified i unwinding).At j r ↔ s.At j r := by
    intro r hw hn hu hr j
    refine (hmoves.at_iff (Ne.symm (hn _)) ?_ j).trans (hwoke j r hw)
    cases unwinding
    · exact Ne.symm hr
    · exact Ne.symm hu
  have htickets : (s.notified i unwinding).tickets = s.tickets := by
    change (setPhase woken _ _).tickets = _
    rw [tickets_setPhase]
    apply List.ext_getElem?
    intro k
    simp only [tickets, hwoken, List.getElem?_mapIdx, List.getElem?_map, Option.map_map]
    rfl
  refine ⟨?_, h.commits, htickets ▸ h.order, h.nonempty, h.published, ?_, ?_, ?_, ?_, ?_⟩
  · simpa [GroupState.notified, setPhase] using h.ticket
  · intro t x ht
    exact h.taken t x ((hend _ (by simp) (by simp) (by simp) (by simp) t).mp ht)
  · intro t r ht
    exact (h.answered t r ht).imp_right (hend _ (by simp) (by simp) (by simp) (by simp) t).mpr
  · refine h.lead.congr rfl fun j p hp => hend p ?_ ?_ ?_ ?_ j <;> cases p <;> simp [leads] at hp ⊢
  · intro j hj
    exfalso
    rcases (hmoves.after j _).mp hj with ⟨-, hq⟩ | ⟨-, hj⟩
    · cases unwinding <;> cases hq
    · exact hasleep j hj
  · intro j hj
    have hj : s.At j .unwound ∨ s.At j (.notifying true) := by
      rcases hj with hj | hj
      · rcases (hmoves.after j _).mp hj with ⟨rfl, hq⟩ | ⟨-, hj⟩
        · cases unwinding
          · cases hq
          · exact .inr hi
        · exact .inl ((hwoke j _ (by simp)).mp hj)
      · rcases (hmoves.after j _).mp hj with ⟨-, hq⟩ | ⟨-, hj⟩
        · cases unwinding <;> cases hq
        · exact .inr ((hwoke j _ (by simp)).mp hj)
    exact h.unwinding j hj

/-- Every ticket is in its place. -/
def Sound (s : GroupState F) : Prop := ∃ done pending inflight, s.Stands done pending inflight

theorem Sound.step [One F] {s' : GroupState F} (h : s.Sound) {event : GroupEvent}
    (hstep : GroupStep s event s') : s'.Sound := by
  obtain ⟨done, pending, inflight, h⟩ := h
  cases hstep with
  | call share => exact ⟨_, h.called share⟩
  | wake hat => exact ⟨_, h.turned (.inl ⟨_, hat⟩)⟩
  | resume hat => exact ⟨_, h.turned (.inr hat)⟩
  | commit hat =>
      refine ⟨_, _, _, h.ended hat ?_ ?_ ?_ _⟩
      exacts [rfl, rfl, fun hnone => by cases hnone]
  | commitFailed hat =>
      refine ⟨_, _, _, h.ended hat ?_ ?_ ?_ _⟩
      exacts [rfl, rfl, fun hnone => by cases hnone]
  | panic hat k ledger =>
      have hresult := h.lead_result hat
      exact ⟨_, _, _, h.ended hat rfl (by rw [hresult]; rfl) (fun _ => ⟨k, rfl⟩) ledger⟩
  | publish hat => exact ⟨_, _, _, h.published_step hat⟩
  | notify hat => exact ⟨_, _, _, h.notified_step hat⟩
  | elsewhere =>
      exact ⟨_, _, _, h.ticket, h.commits, h.order, h.nonempty, h.published, h.taken, h.answered,
        h.lead.congr rfl fun _ _ _ => Iff.rfl, h.awake, h.unwinding⟩

theorem new_sound (ledger : LedgerState F) : Sound ⟨.new, [], ledger, []⟩ := by
  have hnone : ∀ t p, ¬ At (⟨.new, [], ledger, []⟩ : GroupState F) t p := by
    intro t p ht
    simp [At, phase] at ht
  refine ⟨[], [], [], rfl, rfl, rfl, ?_, ?_, ?_, ?_, ?_, ?_, ?_⟩
  · exact fun c hc => absurd hc List.not_mem_nil
  · exact fun t r hr => by cases hr
  · exact fun t x ht => absurd ht (hnone t _)
  · exact fun t r hr => absurd hr List.not_mem_nil
  · exact .idle rfl fun j p hj => absurd hj (hnone j p)
  · exact fun i hi => absurd hi (hnone i _)
  · exact fun i hi => hi.elim (absurd · (hnone i _)) (absurd · (hnone i _))

end GroupState

/-- Every state a run reaches has each ticket in its place. -/
theorem groupRuns_sound [One F] {ledger : LedgerState F} {trace : List GroupEvent}
    {s : GroupState F} (hrun : (groupRuns ledger).Run trace s) : s.Sound := by
  refine hrun.invariant (I := fun _ s => s.Sound) ?_ fun _ _ _ _ h hstep => h.step hstep
  rintro s rfl
  exact GroupState.new_sound ledger

end Ratum
