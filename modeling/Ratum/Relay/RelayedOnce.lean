import Ratum.Accounting.Conservation
import Ratum.Core.Forgetting
import Ratum.Relay.Relay
import Ratum.Verify.StaleVerdict

/-!
# A block is relayed and recorded at most once

A connection that submits a block has entered it among those relayed, and the block stays claimed until it
is taken out of them, which only a submission without an answer leads to.
-/

namespace Ratum

/-! ### The records -/

section Rows

variable {α : Type} (key : α → Hash)

def rowsAt (rows : List α) (hash : Hash) : List α := rows.filter (key · = hash)

/-- At most one row was added, of a hash that had none. -/
def AddsRow (hash : Hash) (rows rows' : List α) : Prop :=
  rows' = rows ∨ rowsAt key rows hash = [] ∧ ∃ row, key row = hash ∧ rows' = rows ++ [row]

variable {key} {hash h : Hash} {rows rows' : List α}

theorem AddsRow.length_le (hadds : AddsRow key hash rows rows') (honce : (rowsAt key rows h).length ≤ 1) :
    (rowsAt key rows' h).length ≤ 1 := by
  obtain rfl | ⟨hnone, row, hrow, rfl⟩ := hadds
  · exact honce
  · rw [rowsAt, List.filter_append, List.length_append]
    by_cases hsame : hash = h
    · subst hsame
      rw [show rows.filter (key · = hash) = [] from hnone]
      simp [hrow]
    · have hother : [row].filter (key · = h) = [] := by simp [hrow, hsame]
      rw [hother, List.length_nil, Nat.add_zero]
      exact honce

theorem AddsRow.of_ne (hadds : AddsRow key hash rows rows') (hne : hash ≠ h) :
    rowsAt key rows' h = rowsAt key rows h := by
  obtain rfl | ⟨_, row, hrow, rfl⟩ := hadds
  · rfl
  · simp [rowsAt, hrow, hne]

end Rows

namespace BlockRecords

variable {F : Type} {records records' : BlockRecords F} {hash h : Hash}

def blocksAt (records : BlockRecords F) : Hash → List (FoundBlock F) :=
  rowsAt FoundBlock.blockHash records.blocks

def owedAt (records : BlockRecords F) : Hash → List OwedBlock :=
  rowsAt OwedBlock.blockHash records.owed

/-- The block is in the history at most once, with at most one owed record. -/
structure RecordedOnce (records : BlockRecords F) (hash : Hash) : Prop where
  block : (records.blocksAt hash).length ≤ 1
  owed : (records.owedAt hash).length ≤ 1

/-- At most one block and one owed record were added, of a hash that had none. -/
structure Adds (hash : Hash) (records records' : BlockRecords F) : Prop where
  blocks : AddsRow FoundBlock.blockHash hash records.blocks records'.blocks
  owed : AddsRow OwedBlock.blockHash hash records.owed records'.owed

theorem Adds.refl (hash : Hash) (records : BlockRecords F) : Adds hash records records :=
  ⟨.inl rfl, .inl rfl⟩

theorem Adds.recordedOnce (hadds : Adds hash records records') (honce : records.RecordedOnce h) :
    records'.RecordedOnce h :=
  ⟨hadds.blocks.length_le honce.block, hadds.owed.length_le honce.owed⟩

theorem Adds.of_ne (hadds : Adds hash records records') (hne : hash ≠ h) :
    records'.blocksAt h = records.blocksAt h ∧ records'.owedAt h = records.owedAt h :=
  ⟨hadds.blocks.of_ne hne, hadds.owed.of_ne hne⟩

theorem recordBlock_adds {block : FoundBlock F} {answer : IoAnswer}
    (hok : records.recordBlock block answer = .ok records') : Adds block.blockHash records records' := by
  unfold recordBlock at hok
  split at hok
  · obtain rfl := Except.ok.inj hok
    exact .refl _ _
  · rename_i hnone
    cases answer with
    | error e => cases hok
    | ok _ =>
        obtain rfl := Except.ok.inj hok
        refine ⟨.inr ⟨?_, block, rfl, rfl⟩, .inl rfl⟩
        simpa [rowsAt, List.filter_eq_nil_iff] using hnone

theorem recordOwed_adds {owed : OwedBlock} {answer : IoAnswer}
    (hok : records.recordOwed owed answer = .ok records') : Adds owed.blockHash records records' := by
  unfold recordOwed at hok
  split at hok
  · obtain rfl := Except.ok.inj hok
    exact .refl _ _
  · rename_i hnone
    cases answer with
    | error e => cases hok
    | ok _ =>
        obtain rfl := Except.ok.inj hok
        refine ⟨.inl rfl, .inr ⟨?_, owed, rfl, rfl⟩⟩
        simpa [rowsAt, List.filter_eq_nil_iff] using hnone

end BlockRecords

section Records

variable {F : Type} (records : BlockRecords F) (l : Ledger F) (rebuilt : RebuiltShare) (now : Nat)
  (answer : IoAnswer)

theorem logAndRecordOwed_adds (entries : List Payout) :
    BlockRecords.Adds rebuilt.blockHash records
      (logAndRecordOwed records (owedBlock rebuilt now entries) answer) := by
  simp only [owedBlock]
  split
  · simp only [logAndRecordOwed]
    split
    · rename_i hok
      exact BlockRecords.recordOwed_adds hok
    · exact .refl _ _
  · exact .refl _ _

theorem recordFoundBlock_adds [Zero F] (canonical : String → String) (tipDifficulty : Option F)
    (username : String) :
    BlockRecords.Adds rebuilt.blockHash records
      (recordFoundBlock canonical l tipDifficulty records username rebuilt now answer) := by
  simp only [recordFoundBlock]
  split
  · rename_i hok
    exact BlockRecords.recordBlock_adds hok
  · exact .refl _ _

theorem recordOwing_adds (addressScript : AddressScript) :
    BlockRecords.Adds rebuilt.blockHash records
      (recordOwing addressScript l records rebuilt now answer) := by
  unfold recordOwing
  split
  · exact logAndRecordOwed_adds records rebuilt now answer _
  · split
    · exact logAndRecordOwed_adds records rebuilt now answer _
    · exact .refl _ _

/-- The two steps are `record_block`. -/
theorem recordBlock_eq [Zero F] (addressScript : AddressScript) (canonical : String → String)
    (tipDifficulty : Option F) (username : String) (block owed : IoAnswer) :
    recordBlock addressScript canonical l tipDifficulty records username rebuilt now block owed =
      recordOwing addressScript l
        (recordFoundBlock canonical l tipDifficulty records username rebuilt now block) rebuilt now owed :=
  rfl

end Records

/-! ### The blocks relayed -/

namespace RelayAt

/-- A submission of the block is in progress, or has ended without an answer. -/
def InProgress (h : Hash) : RelayAt → Prop
  | submitting share _ | inFlight share _ | leaving share => share.rebuilt.blockHash = h
  | _ => False

/-- A submission of the block is in progress and not in the node's hands. -/
def Unanswered (h : Hash) : RelayAt → Prop
  | submitting share _ | leaving share => share.rebuilt.blockHash = h
  | _ => False

/-- The block is taken out of those relayed, or recorded, next. -/
def Records (h : Hash) : RelayAt → Prop
  | leaving share | recording share | owing share => share.rebuilt.blockHash = h
  | _ => False

variable {h : Hash}

theorem Unanswered.inProgress {position : RelayAt} (hunanswered : position.Unanswered h) :
    position.InProgress h := by
  cases position <;> first | exact hunanswered | exact hunanswered.elim

theorem not_inProgress_onSettled (s : PowSubmit) (receivedAt : Nat) (settled : ShareConnection.Settled) :
    ¬ (onSettled s receivedAt settled).InProgress h := by
  unfold onSettled
  cases settled.relays <;> exact id

theorem inProgress_onEntered {share : FoundShare} {new formsRoot : Bool}
    (hin : (onEntered share new formsRoot).InProgress h) : new = true ∧ share.rebuilt.blockHash = h := by
  unfold onEntered at hin
  cases new
  · exact hin.elim
  · cases formsRoot
    · exact hin.elim
    · exact ⟨rfl, hin⟩

theorem inProgress_onAnswered {share : FoundShare} {attempt : Nat} {relayed : Option Relayed}
    (hin : (onAnswered share attempt relayed).InProgress h) : share.rebuilt.blockHash = h := by
  obtain _ | _ | _ | _ := relayed <;> first | exact hin | exact hin.elim

end RelayAt

namespace RelayServer

variable {ι F : Type} (server : RelayServer ι F) (h : Hash)

/-- The blocks entered since `h` was, the latest first. -/
def since : List Hash := server.entered.takeWhile (· ≠ h)

/-- A block relayed again comes before as many others as the capacity have been entered. -/
def FewBetween : RelayEvent → Prop
  | .relays hash => hash = h → h ∈ server.entered → (server.since h).toFinset.card < MAX_RELAYED_BLOCKS
  | _ => True

def Claims : Prop := h ∈ server.entered ∧ server.relayedBlocks.Claimed h (server.since h)

structure Guarded : Prop where
  ordered : server.relayedBlocks.Ordered
  capacity : server.relayedBlocks.capacity = MAX_RELAYED_BLOCKS
  claimed : ∀ c, (server.threads c).position.InProgress h → server.Claims h
  single : ∀ c c', (server.threads c).position.InProgress h → (server.threads c').position.InProgress h →
    c = c'

/-- The block was submitted and only an answer is to come for it. -/
structure Settles : Prop where
  claims : server.Claims h
  answered : ∀ c, ¬ (server.threads c).position.Unanswered h

variable {server h}

theorem guarded_start (records : BlockRecords F) (threads : ι → ShareConnection) :
    (start records threads).Guarded h where
  ordered := BoundedSet.ordered_new _
  capacity := rfl
  claimed _ hin := hin.elim
  single _ _ hin := hin.elim

/-- A block claimed with few others since is held, so it is not entered again. -/
theorem Claims.held (hclaims : server.Claims h) (hguarded : server.Guarded h)
    (hfew : server.FewBetween h (.relays h)) : server.relayedBlocks.contains h = true := by
  have hcard := hfew rfl hclaims.1
  rw [← hguarded.capacity] at hcard
  exact hclaims.2.contains hguarded.ordered hcard

theorem since_cons {k : Hash} (hne : k ≠ h) {entered : List Hash} :
    (k :: entered).takeWhile (fun a => decide (a ≠ h)) = k :: entered.takeWhile fun a => decide (a ≠ h) := by
  simp [hne]

/-- A claim outlives the entry of another block. -/
theorem Claims.after_enter {k : Hash} (hclaims : server.Claims h) (hordered : server.relayedBlocks.Ordered)
    (hnew : server.relayedBlocks.contains k = false) (hne : k ≠ h) (threads : ι → RelayThread) :
    ({ server with
      relayedBlocks := (server.relayedBlocks.insert k).2
      entered := k :: server.entered
      threads } : RelayServer ι F).Claims h := by
  refine ⟨List.mem_cons_of_mem k hclaims.1, ?_⟩
  show BoundedSet.Claimed _ h ((k :: server.entered).takeWhile _)
  rw [since_cons hne]
  exact hclaims.2.after_insert hordered hnew

/-- A claim outlives the removal of another block. -/
theorem Claims.after_remove {k : Hash} (hclaims : server.Claims h) (hordered : server.relayedBlocks.Ordered)
    (hne : k ≠ h) (threads : ι → RelayThread) :
    ({ server with relayedBlocks := (server.relayedBlocks.remove k).2, threads } :
      RelayServer ι F).Claims h :=
  ⟨hclaims.1, hclaims.2.after_remove hordered hne⟩

variable [DecidableEq ι] {c : ι} {thread : RelayThread}

theorem position_setThread (c' : ι) :
    ((server.setThread c thread).threads c').position =
      if c' = c then thread.position else (server.threads c').position := by
  by_cases hc : c' = c
  · subst hc
    simp [setThread]
  · simp [setThread, hc]

theorem Guarded.setThread (hguarded : server.Guarded h)
    (hin : thread.position.InProgress h → (server.threads c).position.InProgress h) :
    (server.setThread c thread).Guarded h := by
  have hbefore : ∀ c', ((server.setThread c thread).threads c').position.InProgress h →
      (server.threads c').position.InProgress h := by
    intro c' hafter
    rw [position_setThread] at hafter
    split at hafter
    · rename_i hc
      exact hc ▸ hin hafter
    · exact hafter
  exact
    { ordered := hguarded.ordered
      capacity := hguarded.capacity
      claimed := fun c' hafter => hguarded.claimed c' (hbefore c' hafter)
      single := fun c₁ c₂ h₁ h₂ => hguarded.single c₁ c₂ (hbefore c₁ h₁) (hbefore c₂ h₂) }

theorem Settles.setThread (hsettles : server.Settles h) (hnot : ¬ thread.position.Unanswered h) :
    (server.setThread c thread).Settles h := by
  refine ⟨hsettles.claims, ?_⟩
  intro c'
  rw [position_setThread]
  split
  · exact hnot
  · exact hsettles.answered c'

/-- What entering a block does. -/
theorem enter_cases (share : FoundShare) (formsRoot : Bool) :
    server.relayedBlocks.contains share.rebuilt.blockHash = true ∧
        server.enter c share formsRoot = server.move c .idle ∨
      server.relayedBlocks.contains share.rebuilt.blockHash = false ∧
        server.enter c share formsRoot =
          { server with
            relayedBlocks := (server.relayedBlocks.insert share.rebuilt.blockHash).2
            entered := share.rebuilt.blockHash :: server.entered }.move c
              (.onEntered share true formsRoot) := by
  cases hcontains : server.relayedBlocks.contains share.rebuilt.blockHash with
  | true =>
      refine .inl ⟨rfl, ?_⟩
      simp only [enter, BoundedSet.insert_of_contains hcontains, Bool.false_eq_true, if_false]
      rfl
  | false =>
      have hnew : server.relayedBlocks.insert share.rebuilt.blockHash =
          (true, (server.relayedBlocks.insert share.rebuilt.blockHash).2) := by
        have hlookup : (BoundedMap.get server.relayedBlocks share.rebuilt.blockHash).isSome = false :=
          hcontains
        simp [BoundedSet.insert, hlookup]
      refine .inr ⟨rfl, ?_⟩
      rw [enter, hnew]
      rfl

theorem Guarded.enter (hguarded : server.Guarded h) {share : FoundShare}
    (hfew : server.FewBetween h (.relays share.rebuilt.blockHash)) (formsRoot : Bool) :
    (server.enter c share formsRoot).Guarded h := by
  obtain ⟨_, heq⟩ | ⟨hnew, heq⟩ := server.enter_cases (c := c) share formsRoot
  · rw [heq]
    exact hguarded.setThread fun hin => hin.elim
  · rw [heq]
    obtain ⟨_, hordered, hcapacity, _⟩ := hguarded.ordered.after_insert hnew
    by_cases hsame : share.rebuilt.blockHash = h
    · -- the block was not claimed, so no connection was at it
      rw [hsame] at hnew hfew hordered hcapacity heq ⊢
      have hnone : ∀ c', ¬ (server.threads c').position.InProgress h := by
        intro c' hin
        rw [(hguarded.claimed c' hin).held hguarded hfew] at hnew
        cases hnew
      refine ⟨hordered, hcapacity.trans hguarded.capacity, ?_, ?_⟩
      · intro c' _
        exact ⟨List.mem_cons_self .., BoundedSet.claimed_insert_self hguarded.ordered hnew _⟩
      · intro c₁ c₂ h₁ h₂
        rw [move, position_setThread] at h₁ h₂
        split at h₁
        · split at h₂
          · simp_all
          · exact absurd h₂ (hnone c₂)
        · exact absurd h₁ (hnone c₁)
    · refine Guarded.setThread ⟨hordered, hcapacity.trans hguarded.capacity, ?_, hguarded.single⟩ ?_
      · intro c' hin
        exact (hguarded.claimed c' hin).after_enter hguarded.ordered hnew hsame _
      · intro hin
        exact absurd (RelayAt.inProgress_onEntered hin).2 hsame

theorem Settles.enter (hsettles : server.Settles h) (hguarded : server.Guarded h) {share : FoundShare}
    (hfew : server.FewBetween h (.relays share.rebuilt.blockHash)) (formsRoot : Bool) :
    (server.enter c share formsRoot).Settles h := by
  obtain ⟨_, heq⟩ | ⟨hnew, heq⟩ := server.enter_cases (c := c) share formsRoot
  · rw [heq]
    exact hsettles.setThread fun hunanswered => hunanswered.elim
  · rw [heq]
    by_cases hsame : share.rebuilt.blockHash = h
    · rw [hsame] at hnew hfew
      rw [hsettles.claims.held hguarded hfew] at hnew
      cases hnew
    · refine Settles.setThread ⟨?_, hsettles.answered⟩ ?_
      · exact hsettles.claims.after_enter hguarded.ordered hnew hsame _
      · intro hunanswered
        exact hsame (RelayAt.inProgress_onEntered hunanswered.inProgress).2

theorem Guarded.leave (hguarded : server.Guarded h) {share : FoundShare}
    (hat : (server.threads c).position = .leaving share) :
    ({ server with
        relayedBlocks := (server.relayedBlocks.remove share.rebuilt.blockHash).2 }.move c
      (.recording share)).Guarded h := by
  obtain ⟨hordered, hcapacity, _⟩ := hguarded.ordered.after_remove share.rebuilt.blockHash
  by_cases hsame : share.rebuilt.blockHash = h
  · -- the one connection at the block leaves it
    have hnone : ∀ c', ¬ (({ server with
        relayedBlocks := (server.relayedBlocks.remove share.rebuilt.blockHash).2 }.move c
      (.recording share) : RelayServer ι F).threads c').position.InProgress h := by
      intro c' hin
      rw [move, position_setThread] at hin
      split at hin
      · exact hin
      · rename_i hne
        have hthis : (server.threads c).position.InProgress h := by
          rw [hat]
          exact hsame
        exact hne (hguarded.single c' c hin hthis)
    exact ⟨hordered, hcapacity.trans hguarded.capacity, fun c' hin => absurd hin (hnone c'),
      fun c' _ hin => absurd hin (hnone c')⟩
  · refine Guarded.setThread ⟨hordered, hcapacity.trans hguarded.capacity, ?_, hguarded.single⟩ ?_
    · intro c' hin
      exact (hguarded.claimed c' hin).after_remove hguarded.ordered hsame _
    · exact fun hin => hin.elim

theorem Settles.leave (hsettles : server.Settles h) (hguarded : server.Guarded h) {share : FoundShare}
    (hat : (server.threads c).position = .leaving share) :
    ({ server with
        relayedBlocks := (server.relayedBlocks.remove share.rebuilt.blockHash).2 }.move c
      (.recording share)).Settles h := by
  have hother : share.rebuilt.blockHash ≠ h := by
    intro hsame
    have hnot := hsettles.answered c
    rw [hat] at hnot
    exact hnot hsame
  refine Settles.setThread ⟨?_, hsettles.answered⟩ fun hunanswered => hunanswered.elim
  exact hsettles.claims.after_remove hguarded.ordered hother _

end RelayServer

/-! ### Runs -/

/-- The node refused the block. -/
def NodeAnswer.Rejects (answer : NodeAnswer) : Prop :=
  ∃ reason, answer = .ok (some reason) ∧ reason ≠ "duplicate" ∧ reason ≠ "inconclusive"

namespace RelayEvent

def Submits (h : Hash) : RelayEvent → Prop
  | submitted hash => hash = h
  | _ => False

/-- The node did not answer a submission of the block. -/
def Unanswered (h : Hash) : RelayEvent → Prop
  | answered hash answer => hash = h ∧ ∃ e, answer = .error e
  | _ => False

end RelayEvent

open RelayEvent

section Runs

variable {ι F : Type} [DecidableEq ι] [Zero F] {addressScript : AddressScript}
  {canonical : String → String} {formsRoot : RebuiltShare → List Bytes → Bool} {h : Hash}
  {server server' : RelayServer ι F} {event : RelayEvent}

theorem RelayStep.guarded (hstep : RelayStep addressScript canonical formsRoot server event server')
    (hfew : server.FewBetween h event) (hguarded : server.Guarded h) : server'.Guarded h := by
  cases hstep with
  | receive => exact hguarded.setThread fun hin => (RelayAt.not_inProgress_onSettled _ _ _ hin).elim
  | resettle => exact hguarded.setThread fun hin => (RelayAt.not_inProgress_onSettled _ _ _ hin).elim
  | release | turn => exact hguarded.setThread id
  | reconnect => exact hguarded.setThread fun hin => hin.elim
  | enter => exact hguarded.enter hfew _
  | submit hat =>
      refine hguarded.setThread fun hin => ?_
      rw [hat]
      exact hin
  | answer answer hat =>
      refine hguarded.setThread fun hin => ?_
      rw [hat]
      exact RelayAt.inProgress_onAnswered hin
  | leave hat => exact hguarded.leave hat
  | record | owe =>
      exact RelayServer.Guarded.setThread ⟨hguarded.ordered, hguarded.capacity, hguarded.claimed,
        hguarded.single⟩ fun hin => hin.elim

/-- A submission leads to a state in which only an answer is to come for the block. -/
theorem RelayStep.settles_of_submits
    (hstep : RelayStep addressScript canonical formsRoot server event server')
    (hguarded : server.Guarded h) (hsubmits : event.Submits h) : server'.Settles h := by
  cases hstep with
  | submit hat =>
      rename_i c share attempt
      have hthis : (server.threads c).position.InProgress h := by
        rw [hat]
        exact hsubmits
      refine ⟨hguarded.claimed c hthis, ?_⟩
      intro c' hunanswered
      rw [RelayServer.move, RelayServer.position_setThread] at hunanswered
      split at hunanswered
      · exact hunanswered
      · rename_i hne
        exact hne (hguarded.single c' c hunanswered.inProgress hthis)
  | _ => exact hsubmits.elim

theorem RelayStep.settles (hstep : RelayStep addressScript canonical formsRoot server event server')
    (hfew : server.FewBetween h event) (hguarded : server.Guarded h) (hsettles : server.Settles h) :
    event.Unanswered h ∨ server'.Settles h := by
  cases hstep with
  | receive =>
      exact .inr (hsettles.setThread fun hin =>
        RelayAt.not_inProgress_onSettled _ _ _ hin.inProgress)
  | resettle =>
      exact .inr (hsettles.setThread fun hin =>
        RelayAt.not_inProgress_onSettled _ _ _ hin.inProgress)
  | release | turn => exact .inr (hsettles.setThread (hsettles.answered _))
  | reconnect => exact .inr (hsettles.setThread fun hin => hin.elim)
  | enter => exact .inr (hsettles.enter hguarded hfew _)
  | submit hat => exact .inr (hsettles.setThread fun hin => hin.elim)
  | answer answer hat =>
      rename_i c share attempt
      by_cases hsame : share.rebuilt.blockHash = h
      · cases answer with
        | error e => exact .inl ⟨hsame, e, rfl⟩
        | ok reason =>
            refine .inr (hsettles.setThread ?_)
            cases reason with
            | none => exact id
            | some reason =>
                simp only [submitted]
                split <;> exact id
      · refine .inr (hsettles.setThread fun hin => hsame ?_)
        exact RelayAt.inProgress_onAnswered hin.inProgress
  | leave hat => exact .inr (hsettles.leave hguarded hat)
  | record | owe =>
      exact .inr (RelayServer.Settles.setThread ⟨hsettles.claims, hsettles.answered⟩ fun hin => hin.elim)

theorem RelayStep.not_settles (hstep : RelayStep addressScript canonical formsRoot server event server')
    (hsubmits : event.Submits h) : ¬ server.Settles h := by
  cases hstep with
  | submit hat =>
      rename_i c share attempt
      intro hsettles
      have hnot := hsettles.answered c
      rw [hat] at hnot
      exact hnot hsubmits
  | _ => exact hsubmits.elim

/-- What was recorded of the block was recorded once, and after an answer that does not refuse it. -/
structure RelayServer.Recorded (records : BlockRecords F) (h : Hash) (trace : List RelayEvent)
    (server : RelayServer ι F) : Prop where
  once : server.records.RecordedOnce h
  /-- A connection about to record the block had such an answer. -/
  heard : ∀ c, (server.threads c).position.Records h →
    ∃ answer, .answered h answer ∈ trace ∧ ¬ answer.Rejects
  kept : (∀ answer, .answered h answer ∈ trace → answer.Rejects) →
    server.records.blocksAt h = records.blocksAt h ∧ server.records.owedAt h = records.owedAt h

variable {records : BlockRecords F} {trace : List RelayEvent} {c : ι}

theorem submitted_of_rejects {answer : NodeAnswer} (hrejects : answer.Rejects) (attempt : Nat) :
    submitted attempt answer = some .rejected := by
  obtain ⟨reason, rfl, hduplicate, hinconclusive⟩ := hrejects
  simp [submitted, hduplicate, hinconclusive]

theorem records_onAnswered {share : FoundShare} {attempt : Nat} {answer : NodeAnswer}
    (hrecords : (RelayAt.onAnswered share attempt (submitted attempt answer)).Records h) :
    share.rebuilt.blockHash = h ∧ ¬ answer.Rejects := by
  refine ⟨?_, ?_⟩
  · cases hsubmitted : submitted attempt answer with
    | none =>
        rw [hsubmitted] at hrecords
        exact hrecords.elim
    | some relayed =>
        rw [hsubmitted] at hrecords
        cases relayed <;> first | exact hrecords | exact hrecords.elim
  · intro hrejects
    rw [submitted_of_rejects hrejects] at hrecords
    exact hrecords

omit [Zero F] in
/-- The connections' part of a step, with no record written. -/
theorem RelayServer.Recorded.setThread (hrecorded : server.Recorded records h trace)
    {thread : RelayThread}
    (hheard : thread.position.Records h →
      ∃ answer, .answered h answer ∈ trace ++ [event] ∧ ¬ answer.Rejects) :
    (server.setThread c thread).Recorded records h (trace ++ [event]) := by
  refine ⟨hrecorded.once, ?_, ?_⟩
  · intro c' hin
    rw [position_setThread] at hin
    split at hin
    · exact hheard hin
    · obtain ⟨answer, hanswer, hnot⟩ := hrecorded.heard c' hin
      exact ⟨answer, List.mem_append_left _ hanswer, hnot⟩
  · intro hrefused
    exact hrecorded.kept fun answer hanswer => hrefused answer (List.mem_append_left _ hanswer)

omit [DecidableEq ι] [Zero F] in
/-- A record written for a block a connection was about to record. -/
theorem RelayServer.Recorded.adds (hrecorded : server.Recorded records h trace) {share : FoundShare}
    {records' : BlockRecords F} (hadds : BlockRecords.Adds share.rebuilt.blockHash server.records records')
    (hat : (server.threads c).position.Records share.rebuilt.blockHash) :
    ({ server with records := records' } : RelayServer ι F).Recorded records h trace := by
  refine ⟨hadds.recordedOnce hrecorded.once, hrecorded.heard, ?_⟩
  intro hrefused
  by_cases hsame : share.rebuilt.blockHash = h
  · rw [hsame] at hat
    obtain ⟨answer, hanswer, hnot⟩ := hrecorded.heard c hat
    exact absurd (hrefused answer hanswer) hnot
  · obtain ⟨hblocks, howed⟩ := hadds.of_ne hsame
    rw [hblocks, howed]
    exact hrecorded.kept hrefused

theorem RelayStep.recorded (hstep : RelayStep addressScript canonical formsRoot server event server')
    (hrecorded : server.Recorded records h trace) : server'.Recorded records h (trace ++ [event]) := by
  have hsettled : ∀ (s : PowSubmit) (receivedAt : Nat) (settled : ShareConnection.Settled),
      ¬ (RelayAt.onSettled s receivedAt settled).Records h := by
    intro s receivedAt settled
    unfold RelayAt.onSettled
    cases settled.relays <;> exact id
  cases hstep with
  | receive => exact hrecorded.setThread fun hin => absurd hin (hsettled _ _ _)
  | resettle => exact hrecorded.setThread fun hin => absurd hin (hsettled _ _ _)
  | release _ hat | turn _ _ hat =>
      refine hrecorded.setThread fun hin => ?_
      rw [hat] at hin
      exact hin.elim
  | reconnect | submit => exact hrecorded.setThread fun hin => hin.elim
  | enter hat =>
      rename_i c share txns
      obtain ⟨_, heq⟩ | ⟨_, heq⟩ := server.enter_cases (c := c) share (formsRoot share.rebuilt txns)
      · rw [heq]
        exact hrecorded.setThread fun hin => hin.elim
      · have hentered : ({ server with
            relayedBlocks := (server.relayedBlocks.insert share.rebuilt.blockHash).2
            entered := share.rebuilt.blockHash :: server.entered } :
              RelayServer ι F).Recorded records h trace :=
          ⟨hrecorded.once, hrecorded.heard, hrecorded.kept⟩
        rw [heq]
        refine hentered.setThread fun hin => ?_
        unfold RelayAt.onEntered at hin
        split at hin <;> exact hin.elim
  | answer answer hat =>
      refine hrecorded.setThread fun hin => ?_
      obtain ⟨rfl, hnot⟩ := records_onAnswered hin
      exact ⟨answer, by simp, hnot⟩
  | leave hat =>
      rename_i c share
      have hleft : ({ server with
          relayedBlocks := (server.relayedBlocks.remove share.rebuilt.blockHash).2 } :
            RelayServer ι F).Recorded records h trace :=
        ⟨hrecorded.once, hrecorded.heard, hrecorded.kept⟩
      refine hleft.setThread fun hin => ?_
      obtain ⟨answer, hanswer, hnot⟩ := hrecorded.heard c (by rw [hat]; exact hin)
      exact ⟨answer, List.mem_append_left _ hanswer, hnot⟩
  | record l tipDifficulty answer hat =>
      rename_i c share
      refine (hrecorded.adds (c := c) (recordFoundBlock_adds _ l _ _ answer canonical tipDifficulty
        share.s.username) (by rw [hat]; rfl)).setThread ?_
      intro hin
      obtain ⟨answer, hanswer, hnot⟩ := hrecorded.heard c (by rw [hat]; exact hin)
      exact ⟨answer, List.mem_append_left _ hanswer, hnot⟩
  | owe l answer hat =>
      rename_i c share
      refine (hrecorded.adds (c := c) (recordOwing_adds _ l _ _ answer addressScript)
        (by rw [hat]; rfl)).setThread ?_
      exact fun hin => hin.elim

/-- What a run of the connections did with a block, over the records the server started with. -/
structure RelayedOnce (records : BlockRecords F) (h : Hash) (trace : List RelayEvent)
    (server : RelayServer ι F) : Prop where
  /-- The block is submitted again only when the submission before had no answer. -/
  resubmitted : Traces.AnswersBefore (Submits h) (RelayEvent.Unanswered h) (Submits h) trace
  /-- One connection at most has a submission in progress. -/
  single : ∀ c c', (server.threads c).position.InProgress h → (server.threads c').position.InProgress h →
    c = c'
  once : server.records.RecordedOnce h
  /-- A block refused at every submission is not recorded. -/
  refused : (∀ answer, .answered h answer ∈ trace → answer.Rejects) →
    server.records.blocksAt h = records.blocksAt h ∧ server.records.owedAt h = records.owedAt h

/-- **A block is relayed and recorded at most once**, in every run with fewer other blocks than are kept
between two relays of it. -/
theorem block_relayed_once (hrecords : records.RecordedOnce h)
    (hrun : ((relaying addressScript canonical formsRoot records).restrict
      fun (server : RelayServer ι F) event => server.FewBetween h event).Run trace server) :
    RelayedOnce records h trace server := by
  have hguarded : ∀ {trace : List RelayEvent} {server : RelayServer ι F},
      ((relaying addressScript canonical formsRoot records).restrict
        fun (server : RelayServer ι F) event => server.FewBetween h event).Run trace server →
      server.Guarded h := by
    intro trace server hrun
    refine hrun.invariant (I := fun _ server => server.Guarded h) ?_ ?_
    · intro server hstart
      obtain ⟨threads, rfl⟩ := hstart
      exact RelayServer.guarded_start records threads
    · intro trace server event server' hguarded hstep
      exact hstep.2.guarded hstep.1 hguarded
  have hrecorded : server.Recorded records h trace := by
    refine hrun.invariant (I := fun trace server => server.Recorded records h trace) ?_ ?_
    · intro server hstart
      obtain ⟨threads, rfl⟩ := hstart
      exact ⟨hrecords, fun _ hin => hin.elim, fun _ => ⟨rfl, rfl⟩⟩
    · intro trace server event server' hrecorded hstep
      exact hstep.2.recorded hrecorded
  have hresubmitted : Traces.AnswersBefore (Submits h) (RelayEvent.Unanswered h) (Submits h) trace :=
    hrun.answersBefore (fun server => server.Settles h) hguarded
      (fun hguarded hstep => hstep.2.settles_of_submits hguarded)
      (fun hguarded hstep => hstep.2.settles hstep.1 hguarded)
      (fun _ hstep => hstep.2.not_settles)
  exact ⟨hresubmitted, (hguarded hrun).single, hrecorded.once, hrecorded.kept⟩

end Runs

/-! ### A block sent on two connections -/

def blockShare : RebuiltShare where
  isBlock := true
  difficulty := 1
  blockHash := Verifier.repeatedHash 0
  rawPowHash := Verifier.repeatedHash 0
  prevHash := Verifier.repeatedHash 1
  jobBits := 0x1d00ffff
  header := []
  coinbaseTx := []
  height := 1
  txnCount := 0
  coinbaserId := 0
  paidToSplit := 0
  paidToPool := 100
  unpaidOutputs := [⟨"a", 5⟩]
  tagSecondary := ""
  version := 0
  coinbaseDigest := Verifier.repeatedHash 2
  jobGeneration := some 0

def servingConnection : ShareConnection where
  verifier :=
    { Verifier.new Verifier.untaggedPolicy with
      jobs := fun _ => some
        { job := Verifier.plainJob (Verifier.repeatedHash 1), coinbases := ∅, parentSeen := true
          evicted := false, installedAt := 0, generation := 0, txns := .unrequested, checks := ∅ } }
  held := []
  txnRequests := []

/-- The node does not answer the first connection's submission and takes the second's. -/
def resentBlock : List RelayEvent :=
  let h := blockShare.blockHash
  [.quiet, .quiet, .relays h, .submitted h, .answered h (.error .unauthorized), .quiet, .quiet, .quiet,
    .relays h, .submitted h, .answered h (.ok none), .quiet, .quiet]

theorem resentBlock_relayed_once : ∃ server : RelayServer Bool Nat,
    RelayedOnce ⟨[], []⟩ blockShare.blockHash resentBlock server := by
  let io : SettleInputs := ⟨0, .ok (), .ok none⟩
  let sent : PowSubmit := Verifier.plainShare (Verifier.repeatedHash 1)
  have h0 : ((relaying (F := Nat) (fun _ => none) id (fun _ _ => true) ⟨[], []⟩).restrict
      fun (server : RelayServer Bool Nat) event => server.FewBetween blockShare.blockHash event).Run []
        (.start ⟨[], []⟩ fun _ => servingConnection) := .start ⟨_, rfl⟩
  -- both connections rebuild the block
  have h1 := h0.next (i := RelayEvent.quiet)
    ⟨trivial, .receive (c := true) sent (.ok blockShare) 0 none io rfl rfl rfl⟩
  have h2 := h1.next (i := RelayEvent.quiet)
    ⟨trivial, .receive (c := false) sent (.ok blockShare) 0 none io rfl rfl rfl⟩
  -- the first submits it, without an answer
  have h3 := h2.next (i := RelayEvent.relays _) ⟨(fun _ h => by cases h), .enter (c := true) rfl⟩
  have h4 := h3.next (i := RelayEvent.submitted _) ⟨trivial, .submit (c := true) rfl⟩
  have h5 := h4.next (i := RelayEvent.answered _ _)
    ⟨trivial, .answer (c := true) (.error .unauthorized) rfl⟩
  have h6 := h5.next (i := RelayEvent.quiet) ⟨trivial, .leave (c := true) rfl⟩
  have h7 := h6.next (i := RelayEvent.quiet)
    ⟨trivial, .record (c := true) twoMiners none (.ok ()) rfl⟩
  have h8 := h7.next (i := RelayEvent.quiet) ⟨trivial, .owe (c := true) twoMiners (.ok ()) rfl⟩
  -- the second submits it again
  have h9 := h8.next (i := RelayEvent.relays _)
    ⟨(fun _ _ => by decide +kernel), .enter (c := false) rfl⟩
  have h10 := h9.next (i := RelayEvent.submitted _) ⟨trivial, .submit (c := false) rfl⟩
  have h11 := h10.next (i := RelayEvent.answered _ _) ⟨trivial, .answer (c := false) (.ok none) rfl⟩
  have h12 := h11.next (i := RelayEvent.quiet)
    ⟨trivial, .record (c := false) twoMiners none (.ok ()) rfl⟩
  have h13 := h12.next (i := RelayEvent.quiet) ⟨trivial, .owe (c := false) twoMiners (.ok ()) rfl⟩
  exact ⟨_, block_relayed_once ⟨by decide, by decide⟩ h13⟩

end Ratum
