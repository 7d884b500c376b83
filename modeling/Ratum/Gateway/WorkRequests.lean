import Ratum.Gateway.Poller
import Ratum.Gateway.ServedTip

/-!
# Requests for work

What a wait takes from the waker, followed through the poller to the next wait: a refresh or a rebuild to
a template, a rebuild to a new block, and the name of another block to a reading of the node's best one.
-/

namespace Ratum

/-! ### What the loop does in a step -/

namespace Poller

variable (p : Poller) (now : Instant)

@[simp] theorem served_onRebuild : p.onRebuild.served = p.served := rfl

@[simp] theorem onBlockNotification_onRebuild (hash : Option String) :
    p.onRebuild.onBlockNotification now hash = p.onBlockNotification now hash := by
  cases hash <;> rfl

theorem classify_action (template : Template) :
    (p.classify now template).1 =
      if template.blake2bRule then
        .build (decide (p.lastPrevHash ≠ some template.prevHash) || p.forceClean)
      else .skip := by
  simp only [classify]
  cases template.blake2bRule with
  | false => rfl
  | true =>
      simp only [Bool.not_true, Bool.false_eq_true, if_false, if_true]
      split <;> rfl

/-- The poller after a wake has the rebuild it carried recorded. -/
theorem onWake_poller (taken : PendingWakes) :
    (p.onWake now taken.wake).2 = if taken.rebuildRequested then p.onRebuild else p := by
  obtain ⟨block, rebuild, refresh⟩ := taken
  cases block with
  | none => cases rebuild <;> cases refresh <;> rfl
  | some pending =>
      cases hasked : p.onBlockNotification now pending.hash? <;> cases rebuild <;>
        simp [PendingWakes.wake, onWake, hasked]

end Poller

namespace PollerState

variable (s : PollerState)

/-- What was taken holds a block notification that asks for nothing. -/
def ignores (taken : PendingWakes) : Bool :=
  taken.block.any fun pending => !s.poller.onBlockNotification s.now pending.hash?

/-- Where a wake leads: to the best block when it holds a notification that is not ignored, else to the
top of the loop, without a fetch when nothing but ignored notifications and a refresh was taken. -/
theorem onWake_wanted (taken : PendingWakes) :
    PollerAt.onWanted taken s.now (s.poller.onWake s.now taken.wake).1 =
      if taken.block.isSome && !s.ignores taken then .awaiting taken s.now s.now
      else .top (!s.ignores taken || taken.rebuildRequested) := by
  obtain ⟨block, rebuild, refresh⟩ := taken
  cases block with
  | none => cases rebuild <;> cases refresh <;> rfl
  | some pending =>
      cases hasked : s.poller.onBlockNotification s.now pending.hash? <;> cases rebuild <;>
        simp [PendingWakes.wake, Poller.onWake, ignores, hasked, PollerAt.onWanted]

end PollerState

/-- The steps of the template thread's loop and of the threads that wake it. -/
inductive PollStep (interval : Duration) (s : PollerState) : PollEvent → PollerState → Prop
  | elapses (d : Duration) : PollStep interval s (.elapsed d) { s with now := s.now + d }
  | raises (hash : Option String) :
      PollStep interval s (.raised hash)
        { s with pending := s.pending.raiseBlock hash, notified := s.notified ++ [hash] }
  | rebuilds : PollStep interval s .rebuildRequested { s with pending := s.pending.rebuild }
  | refreshes : PollStep interval s .refreshRequested { s with pending := s.pending.refresh }
  | fails {fetch : Bool} {wakesAt : Instant} (hat : s.position = .top fetch) :
      PollStep interval s .fetchFailed { s with position := .retrying wakesAt }
  | retries {wakesAt : Instant} (hat : s.position = .retrying wakesAt) :
      PollStep interval s .retried { s with position := .top true }
  | fetches {fetch : Bool} (template : Template) (current : Option Hash) (hat : s.position = .top fetch) :
      PollStep interval s
        (.fetched template current ((s.poller.classify s.now template).1.orUnserved template current))
        { s with poller := (s.poller.classify s.now template).2, position := .updated }
  | passes (hat : s.position = .top false) : PollStep interval s .passed { s with position := .scheduled }
  | schedules (hat : s.position = .updated) :
      PollStep interval s .scheduled { s with nextUpdate := s.now + interval, position := .scheduled }
  | waits {deadline : Instant} (hat : s.position = .scheduled) :
      PollStep interval s .waits { s with position := .waiting deadline }
  | wakes {deadline : Instant} (hat : s.position = .waiting deadline) :
      PollStep interval s (.woke s.pending s.notified s.poller.served)
        { s with pending := .default, notified := [], position := .woken s.pending s.notified }
  | handles {taken : PendingWakes} {notified : List (Option String)}
      (hat : s.position = .woken taken notified) :
      PollStep interval s .onWake
        { s with
          poller := if taken.rebuildRequested then s.poller.onRebuild else s.poller
          position :=
            if taken.block.isSome && !s.ignores taken then .awaiting taken s.now s.now
            else .top (!s.ignores taken || taken.rebuildRequested) }
  | reads {taken : PendingWakes} {started readsAt : Instant} (best : Option String)
      (hat : s.position = .awaiting taken started readsAt) :
      PollStep interval s (.bestRead best)
        { s with
          position := .onRead taken started s.now (s.poller.awaitNewTip (s.now - started) best) }

theorem pollStep_of_step {interval : Duration} {s s' : PollerState} {event : PollEvent}
    (hstep : s.step interval event = some s') : PollStep interval s event s' := by
  cases event with
  | elapsed d =>
      obtain rfl := Option.some.inj hstep
      exact .elapses d
  | raised hash =>
      obtain rfl := Option.some.inj hstep
      exact .raises hash
  | rebuildRequested =>
      obtain rfl := Option.some.inj hstep
      exact .rebuilds
  | refreshRequested =>
      obtain rfl := Option.some.inj hstep
      exact .refreshes
  | fetchFailed =>
      simp only [PollerState.step] at hstep
      split at hstep
      · rename_i fetch hat
        split at hstep
        · obtain rfl := Option.some.inj hstep
          exact .fails hat
        · cases hstep
      · cases hstep
  | retried =>
      simp only [PollerState.step] at hstep
      split at hstep
      · rename_i wakesAt hat
        split at hstep
        · obtain rfl := Option.some.inj hstep
          exact .retries hat
        · cases hstep
      · cases hstep
  | fetched template current action =>
      simp only [PollerState.step] at hstep
      split at hstep
      · rename_i fetch hat
        split at hstep
        · rename_i hdone
          obtain rfl := Option.some.inj hstep
          simp only [Bool.and_eq_true, decide_eq_true_eq] at hdone
          rw [hdone.2]
          exact .fetches template current hat
        · cases hstep
      · cases hstep
  | passed =>
      simp only [PollerState.step] at hstep
      split at hstep
      · rename_i fetch hat
        split at hstep
        · cases hstep
        · rename_i hdue
          obtain rfl := Option.some.inj hstep
          cases fetch with
          | true => simp [PollerState.fetchDue] at hdue
          | false => exact .passes hat
      · cases hstep
  | scheduled =>
      simp only [PollerState.step] at hstep
      split at hstep
      · rename_i hat
        obtain rfl := Option.some.inj hstep
        exact .schedules hat
      · cases hstep
  | waits =>
      simp only [PollerState.step] at hstep
      split at hstep
      · rename_i hat
        obtain rfl := Option.some.inj hstep
        exact .waits hat
      · cases hstep
  | woke taken notified served =>
      simp only [PollerState.step] at hstep
      split at hstep
      · rename_i deadline hat
        split at hstep
        · rename_i hdone
          obtain rfl := Option.some.inj hstep
          simp only [Bool.and_eq_true, decide_eq_true_eq] at hdone
          rw [hdone.1.1.2, hdone.1.2, hdone.2]
          exact .wakes hat
        · cases hstep
      · cases hstep
  | onWake =>
      simp only [PollerState.step] at hstep
      split at hstep
      · rename_i taken notified hat
        obtain rfl := Option.some.inj hstep
        rw [s.onWake_wanted taken, Poller.onWake_poller]
        exact .handles hat
      · cases hstep
  | bestRead best =>
      simp only [PollerState.step] at hstep
      split at hstep
      · rename_i taken started readsAt hat
        split at hstep
        · obtain rfl := Option.some.inj hstep
          exact .reads best hat
        · cases hstep
      · cases hstep

/-! ### What a trace asks for -/

/-- What the thread woke with, while it has not handled it. -/
def PollerAt.woken? : PollerAt → Option (PendingWakes × List (Option String))
  | woken taken notified => some (taken, notified)
  | _ => none

/-- What the thread woke with before it awaits the best block, and since when. -/
def PollerAt.awaiting? : PollerAt → Option (PendingWakes × Instant)
  | awaiting taken started _ => some (taken, started)
  | _ => none

namespace PollEvent

def TakesRequest : PollEvent → Prop
  | woke taken _ _ => taken.refreshRequested ∨ taken.rebuildRequested
  | _ => False

def TakesRebuild : PollEvent → Prop
  | woke taken _ _ => taken.rebuildRequested
  | _ => False

/-- The wait took a notification that named a block other than the tip served. -/
def TakesOther : PollEvent → Prop
  | woke _ notified served => ∃ hash, some hash ∈ notified ∧ served ≠ some hash
  | _ => False

def IsFetched : PollEvent → Prop
  | fetched _ _ _ => True
  | _ => False

def IsBuilt : PollEvent → Prop
  | fetched _ _ (.build _) => True
  | _ => False

def IsBuiltAsUpdate : PollEvent → Prop
  | fetched _ _ (.build newBlock) => newBlock = false
  | _ => False

def IsBestRead : PollEvent → Prop
  | bestRead _ => True
  | _ => False

def IsWait : PollEvent → Prop
  | waits => True
  | _ => False

end PollEvent

open Traces PollEvent

/-- No request for work is lost. That the first template built from after a rebuild is a new block is said
of job updates: between the rebuild and a job update there is another template built from. -/
structure WorkKept (trace : List PollEvent) : Prop where
  fetched : AnswersBefore TakesRequest IsFetched IsWait trace
  rebuilt : AnswersBefore TakesRebuild IsBuilt IsBuiltAsUpdate trace
  read : AnswersBefore TakesOther IsBestRead IsWait trace

/-- The steps that lose no request. A block notification that asks for nothing is taken with no refresh
but one a rebuild came with, and with no name but the tip's; the patience ends on no such refresh; and no
template without the rule is answered while a rebuild is recorded. -/
def PollerState.Heeds (s : PollerState) : PollEvent → Prop
  | .onWake =>
      ∀ taken ∈ s.position.woken?, s.ignores taken.1 →
        (taken.1.refreshRequested → taken.1.rebuildRequested) ∧
          ∀ hash ∈ taken.2, hash.isSome → hash = s.poller.served
  | .bestRead best =>
      ∀ awaited ∈ s.position.awaiting?, best.isSome → best = s.poller.served →
        NOTIFY_PATIENCE ≤ s.now - awaited.2 → awaited.1.refreshRequested → s.poller.forceClean
  | .fetched template _ _ => s.poller.forceClean → template.blake2bRule
  | _ => True

instance (s : PollerState) : DecidablePred s.Heeds
  | .onWake => inferInstanceAs (Decidable (∀ taken ∈ s.position.woken?, _))
  | .bestRead _ => inferInstanceAs (Decidable (∀ awaited ∈ s.position.awaiting?, _))
  | .fetched _ _ _ => inferInstanceAs (Decidable (_ → _))
  | .elapsed _ | .raised _ | .rebuildRequested | .refreshRequested | .fetchFailed | .retried | .passed
  | .scheduled | .waits | .woke _ _ _ => inferInstanceAs (Decidable True)

/-! ### What the thread owes -/

namespace PollerState

/-- A notification raised is pending, and one taken was pending. -/
structure Notified (s : PollerState) : Prop where
  pending : s.notified ≠ [] → s.pending.block.isSome
  taken : ∀ taken notified, s.position = .woken taken notified → notified ≠ [] → taken.block.isSome

/-- A template is to be fetched before the next wait. -/
def OwesFetch (s : PollerState) : Prop :=
  match s.position with
  | .woken taken _ => taken.refreshRequested ∨ taken.rebuildRequested
  | .awaiting taken _ _ => taken.refreshRequested ∨ s.poller.forceClean
  | .top fetch => fetch
  | .retrying _ => True
  | _ => False

/-- The next template built from is to be a new block. -/
def OwesNewBlock (s : PollerState) : Prop :=
  s.poller.forceClean ∨
    ∃ taken notified, s.position = .woken taken notified ∧ taken.rebuildRequested

/-- The node's best block is to be read before the next wait. -/
def OwesRead (s : PollerState) : Prop :=
  match s.position with
  | .woken _ notified => ∃ hash, some hash ∈ notified ∧ s.poller.served ≠ some hash
  | .awaiting _ _ _ => True
  | _ => False

end PollerState

section Debts

variable {interval : Duration} {s s' : PollerState} {event : PollEvent}

theorem PollStep.notified (hstep : PollStep interval s event s') (hnotified : s.Notified) :
    s'.Notified := by
  cases hstep with
  | raises hash =>
      refine ⟨fun _ => ?_, hnotified.taken⟩
      simp [PendingWakes.raiseBlock]
  | elapses _ | rebuilds | refreshes => exact ⟨hnotified.pending, hnotified.taken⟩
  | wakes hat =>
      refine ⟨fun h => absurd rfl h, ?_⟩
      intro taken notified hwoken hraised
      obtain ⟨rfl, rfl⟩ := PollerAt.woken.inj hwoken
      exact hnotified.pending hraised
  | handles hat =>
      refine ⟨hnotified.pending, ?_⟩
      intro taken notified hwoken
      dsimp only at hwoken
      split at hwoken <;> cases hwoken
  | reads best hat =>
      refine ⟨hnotified.pending, ?_⟩
      intro taken notified hwoken
      dsimp only [PollerAt.onRead] at hwoken
      split at hwoken <;> cases hwoken
  | _ => exact ⟨hnotified.pending, fun _ _ hwoken => by cases hwoken⟩

theorem polling_notified {trace : List PollEvent} (hrun : (polling interval).Run trace s) :
    s.Notified := by
  refine Lts.Run.invariant (I := fun _ s => s.Notified) ?_ ?_ hrun
  · intro s hstart
    obtain ⟨now, rfl⟩ := hstart
    exact ⟨fun h => absurd rfl h, fun _ _ hwoken => by cases hwoken⟩
  · intro trace s event s' hnotified hstep
    exact (pollStep_of_step hstep).notified hnotified

theorem PollStep.owesFetch_of_takes (hstep : PollStep interval s event s')
    (htakes : event.TakesRequest) : s'.OwesFetch := by
  cases hstep with
  | wakes hat => exact htakes
  | _ => exact htakes.elim

theorem PollStep.owesFetch (hstep : PollStep interval s event s') (hheeds : s.Heeds event)
    (howes : s.OwesFetch) : event.IsFetched ∨ s'.OwesFetch := by
  cases hstep with
  | fetches => exact .inl trivial
  | elapses | raises | rebuilds | refreshes => exact .inr howes
  | fails => exact .inr trivial
  | retries => exact .inr rfl
  | passes hat | schedules hat | waits hat | wakes hat =>
      simp [PollerState.OwesFetch, hat] at howes
  | handles hat =>
      rename_i taken notified
      simp only [PollerState.OwesFetch, hat] at howes
      refine .inr ?_
      have hrebuild := fun hignores => (hheeds (taken, notified) (by rw [hat]; rfl) hignores).1
      cases hblock : taken.block.isSome <;> cases hignores : s.ignores taken <;>
        cases hforce : taken.rebuildRequested <;>
        simp_all [PollerState.OwesFetch, Poller.onRebuild]
  | reads best hat =>
      rename_i taken started readsAt
      simp only [PollerState.OwesFetch, hat] at howes
      refine .inr ?_
      have hpatience := hheeds (taken, started) (by rw [hat]; rfl)
      cases best with
      | none => rfl
      | some hash =>
          by_cases hserved : s.poller.served = some hash
          · by_cases hover : NOTIFY_PATIENCE ≤ s.now - started
            · have hclean : s.poller.forceClean = true :=
                howes.elim (hpatience rfl hserved.symm hover) id
              simp [PollerState.OwesFetch, Poller.awaitNewTip, PollerAt.onRead, hserved, hover, hclean]
            · simpa [PollerState.OwesFetch, Poller.awaitNewTip, PollerAt.onRead, hserved, hover] using howes
          · simp [PollerState.OwesFetch, Poller.awaitNewTip, PollerAt.onRead, hserved]

theorem PollStep.not_owesFetch_of_wait (hstep : PollStep interval s event s') (hwait : event.IsWait) :
    ¬ s.OwesFetch := by
  cases hstep with
  | waits hat => simp [PollerState.OwesFetch, hat]
  | _ => exact hwait.elim

theorem PollStep.owesNewBlock_of_takes (hstep : PollStep interval s event s')
    (htakes : event.TakesRebuild) : s'.OwesNewBlock := by
  cases hstep with
  | wakes hat => exact .inr ⟨_, _, rfl, htakes⟩
  | _ => exact htakes.elim

theorem PollStep.owesNewBlock (hstep : PollStep interval s event s') (hheeds : s.Heeds event)
    (howes : s.OwesNewBlock) : event.IsBuilt ∨ s'.OwesNewBlock := by
  have hrecorded : ∀ {p : PollerAt}, s.position = p →
      (∀ taken notified, p ≠ .woken taken notified) → s.poller.forceClean = true := by
    intro p hat hnot
    obtain hclean | ⟨taken, notified, hwoken, _⟩ := howes
    · exact hclean
    · exact absurd (hat.symm.trans hwoken) (hnot taken notified)
  cases hstep with
  | elapses | raises | rebuilds | refreshes => exact .inr howes
  | fails hat | retries hat | passes hat | schedules hat | waits hat | wakes hat | reads _ hat =>
      exact .inr (.inl (hrecorded hat fun _ _ h => by cases h))
  | fetches template current hat =>
      have hclean := hrecorded hat fun _ _ h => by cases h
      have hrule : template.blake2bRule = true := hheeds hclean
      refine .inl ?_
      rw [Poller.classify_action, hrule]
      trivial
  | handles hat =>
      rename_i taken notified
      refine .inr (.inl ?_)
      cases hrebuild : taken.rebuildRequested with
      | true => rfl
      | false =>
          obtain hclean | ⟨_, _, hwoken, htaken⟩ := howes
          · exact hclean
          · obtain ⟨rfl, rfl⟩ := PollerAt.woken.inj (hat.symm.trans hwoken)
            rw [hrebuild] at htaken
            cases htaken

theorem PollStep.not_owesNewBlock_of_update (hstep : PollStep interval s event s')
    (hupdate : event.IsBuiltAsUpdate) : ¬ s.OwesNewBlock := by
  cases hstep with
  | fetches template current hat =>
      intro howes
      obtain hclean | ⟨_, _, hwoken, _⟩ := howes
      · rw [Poller.classify_action, hclean, Bool.or_true] at hupdate
        cases hrule : template.blake2bRule with
        | false =>
            rw [hrule] at hupdate
            exact hupdate
        | true =>
            rw [hrule] at hupdate
            cases hupdate
      · cases hat.symm.trans hwoken
  | _ => exact hupdate.elim

theorem PollStep.owesRead_of_takes (hstep : PollStep interval s event s')
    (htakes : event.TakesOther) : s'.OwesRead := by
  cases hstep with
  | wakes hat => exact htakes
  | _ => exact htakes.elim

theorem PollStep.owesRead (hstep : PollStep interval s event s') (hheeds : s.Heeds event)
    (hnotified : s.Notified) (howes : s.OwesRead) : event.IsBestRead ∨ s'.OwesRead := by
  cases hstep with
  | reads => exact .inl trivial
  | elapses | raises | rebuilds | refreshes => exact .inr howes
  | fails hat | retries hat | fetches _ _ hat | passes hat | schedules hat | waits hat | wakes hat =>
      simp [PollerState.OwesRead, hat] at howes
  | handles hat =>
      rename_i taken notified
      simp only [PollerState.OwesRead, hat] at howes
      obtain ⟨hash, hraised, hother⟩ := howes
      have htaken := hnotified.taken taken notified hat (List.ne_nil_of_mem hraised)
      have hheard : s.ignores taken = false := by
        cases hignores : s.ignores taken with
        | false => rfl
        | true =>
            have hnamed := (hheeds (taken, notified) (by rw [hat]; rfl) hignores).2
            exact absurd (hnamed _ hraised rfl).symm hother
      refine .inr ?_
      simp [PollerState.OwesRead, htaken, hheard]

theorem PollStep.not_owesRead_of_wait (hstep : PollStep interval s event s') (hwait : event.IsWait) :
    ¬ s.OwesRead := by
  cases hstep with
  | waits hat => simp [PollerState.OwesRead, hat]
  | _ => exact hwait.elim

end Debts

/-! ### Requests kept -/

/-- **Requests for work kept**: while every step heeds what was asked, a template follows every refresh and
rebuild taken, the first template built from after a rebuild is a new block, and the best block is read
after every name of another block. -/
theorem requests_for_work_kept {interval : Duration} {trace : List PollEvent} {s : PollerState}
    (hrun : ((polling interval).restrict PollerState.Heeds).Run trace s) : WorkKept trace := by
  have hnotified : ∀ {trace : List PollEvent} {s : PollerState},
      ((polling interval).restrict PollerState.Heeds).Run trace s → s.Notified :=
    fun hrun => polling_notified hrun.of_restrict
  refine ⟨?_, ?_, ?_⟩
  · exact hrun.answersBefore PollerState.OwesFetch hnotified
      (fun _ hstep => (pollStep_of_step hstep.2).owesFetch_of_takes)
      (fun _ hstep => (pollStep_of_step hstep.2).owesFetch hstep.1)
      (fun _ hstep => (pollStep_of_step hstep.2).not_owesFetch_of_wait)
  · exact hrun.answersBefore PollerState.OwesNewBlock hnotified
      (fun _ hstep => (pollStep_of_step hstep.2).owesNewBlock_of_takes)
      (fun _ hstep => (pollStep_of_step hstep.2).owesNewBlock hstep.1)
      (fun _ hstep => (pollStep_of_step hstep.2).not_owesNewBlock_of_update)
  · exact hrun.answersBefore PollerState.OwesRead hnotified
      (fun _ hstep => (pollStep_of_step hstep.2).owesRead_of_takes)
      (fun hreachable hstep => (pollStep_of_step hstep.2).owesRead hstep.1 hreachable)
      (fun _ hstep => (pollStep_of_step hstep.2).not_owesRead_of_wait)

/-- The thread takes a rebuild with a notification of the tip served, then waits for a tip it was told
of. -/
def wokenTwice : List PollEvent :=
  let tip := hashToDisplayHex zeroHash
  let next : Hash := Vector.replicate _ 1
  [.fetched (emptyTemplate zeroHash) none (.build true), .scheduled, .waits,
    .rebuildRequested, .refreshRequested, .raised (some tip),
    .woke ⟨some (.hash tip), true, true⟩ [some tip] (some tip), .onWake, .fetchFailed,
    .elapsed POLL_RETRY_DELAY, .retried,
    .fetched (emptyTemplate zeroHash) (some zeroHash) (.build true), .scheduled, .waits,
    .raised (some (hashToDisplayHex next)),
    .woke ⟨some (.hash (hashToDisplayHex next)), false, false⟩ [some (hashToDisplayHex next)] (some tip),
    .onWake, .bestRead (some tip), .elapsed NOTIFY_RETRY_DELAY, .bestRead (some (hashToDisplayHex next)),
    .fetched (emptyTemplate next) (some zeroHash) (.build true), .scheduled, .waits]

theorem wokenTwice_kept : WorkKept wokenTwice := by
  have hheeds : ∃ s, ((polling (.fromSecs 40)).restrict PollerState.Heeds).Run wokenTwice s := by
    refine Lts.exists_run_of_exec (S := (polling (.fromSecs 40)).restrict PollerState.Heeds)
      (fun s e => if s.Heeds e then s.step (.fromSecs 40) e else none) (.start 0) ?_ ⟨0, rfl⟩
      (by decide +kernel)
    intro s e s' hexec
    split at hexec
    · rename_i hheeds
      exact ⟨hheeds, hexec⟩
    · cases hexec
  obtain ⟨s, hrun⟩ := hheeds
  exact requests_for_work_kept hrun

section Runs

private abbrev onTip : Template := emptyTemplate zeroHash

private abbrev tip : Option String := some (hashToDisplayHex zeroHash)

/-- The first tip is served and the thread waits. -/
private abbrev serving : List PollEvent := [.fetched onTip none (.build true), .scheduled, .waits]

private theorem polls (trace : List PollEvent)
    (htaken : (trace.foldlM (PollerState.step (.fromSecs 40)) (PollerState.start 0)).isSome) :
    ∃ s, (polling (.fromSecs 40)).Run trace s :=
  Lts.exists_run_of_exec (S := polling _) _ _ (fun h => h) ⟨0, rfl⟩ htaken

/-- A notification of the tip served answers the refresh it came with; a template without the rule clears
the rebuild recorded; and a notification without a name hides the name raised before it. -/
theorem request_for_work_lost :
    (∃ trace s, (polling (.fromSecs 40)).Run trace s ∧
      ¬ AnswersBefore TakesRequest IsFetched IsWait trace) ∧
    (∃ trace s, (polling (.fromSecs 40)).Run trace s ∧
      ¬ AnswersBefore TakesRebuild IsBuilt IsBuiltAsUpdate trace) ∧
    ∃ trace s, (polling (.fromSecs 40)).Run trace s ∧
      ¬ AnswersBefore TakesOther IsBestRead IsWait trace := by
  refine ⟨?_, ?_, ?_⟩
  · obtain ⟨s, hrun⟩ := polls ((serving ++ [.refreshRequested, .raised tip]) ++
      .woke ⟨some (.hash (hashToDisplayHex zeroHash)), false, true⟩ [tip] tip ::
        ([.onWake, .passed] ++ [.waits])) (by decide +kernel)
    exact ⟨_, s, hrun, not_answersBefore (.inl rfl) trivial (by simp [IsFetched])⟩
  · let unruled : Template := { onTip with blake2bRule := false }
    obtain ⟨s, hrun⟩ := polls ((serving ++ [.rebuildRequested]) ++
      .woke ⟨none, true, false⟩ [] tip ::
        ([.onWake, .fetched unruled (some zeroHash) .skip, .scheduled, .waits, .refreshRequested,
          .woke ⟨none, false, true⟩ [] tip, .onWake] ++
        [.fetched onTip (some zeroHash) (.build false)])) (by decide +kernel)
    exact ⟨_, s, hrun, not_answersBefore rfl rfl (by simp [IsBuilt])⟩
  · obtain ⟨s, hrun⟩ := polls ((serving ++ [.raised (some "11"), .raised none]) ++
      .woke ⟨some .anyBlock, false, false⟩ [some "11", none] tip ::
        ([.onWake, .passed] ++ [.waits])) (by decide +kernel)
    exact ⟨_, s, hrun, not_answersBefore ⟨"11", by decide, by decide +kernel⟩ trivial
      (by simp [IsBestRead])⟩

end Runs

end Ratum
