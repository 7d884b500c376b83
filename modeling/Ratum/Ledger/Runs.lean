import Ratum.Ledger.Window

/-!
# Every run of the ledger

The steps of a pool as its ledger sees them. One thread at a time holds a re-read, and reads it without
the lock while the others go on.
-/

namespace Ratum

variable {F : Type}

/-- The pool running over its ledger, with the re-read a thread holds and what it has read of it, or
stopped. -/
inductive LedgerState (F : Type)
  | running (ledger : Ledger F)
      (held : Option (Reread × Option (Except IoError (Contents × ReadBack))))
  | stopped (db : Database)

inductive LedgerEvent
  | recorded (shares : List Share)
  | resized
  | reread
  | restarted
  | failed
  deriving DecidableEq

/-- How a pool opens its ledger file. -/
structure OpenSettings (F : Type) where
  windowRule : WindowRule F
  splitPolicy : SplitPolicy
  path : String
  keep : Option Nat
  chain : Option String
  /-- The tip's difficulty, when a node answered. -/
  networkDifficulty : Option F

/-- The ledger `main` attaches the store to. -/
def OpenSettings.ledger [One F] (settings : OpenSettings F) : Ledger F :=
  let ledger := Ledger.new settings.windowRule settings.splitPolicy
  match settings.networkDifficulty with
  | some networkDifficulty => (ledger.setNetworkDifficulty networkDifficulty).2
  | none => ledger

inductive LedgerStep [One F] : LedgerState F → LedgerEvent → LedgerState F → Prop
  | record {l l' : Ledger F} {held} {shares : List Share} {removed : Nat} (answers : RecordAnswers)
      (hshares : ∀ share ∈ shares, share.Recordable)
      (hrecord : l.recordBatch shares answers = .ok (removed, l')) :
      LedgerStep (.running l held) (.recorded shares) (.running l' held)
  | recordFailed {l : Ledger F} {held} {shares : List Share} {answers : RecordAnswers} {e : IoError}
      (hrecord : l.recordBatch shares answers = .error e) :
      LedgerStep (.running l held) .failed (.running l held)
  | setNetworkDifficulty {l : Ledger F} {held} (networkDifficulty : F) :
      LedgerStep (.running l held) .resized
        (.running (l.setNetworkDifficulty networkDifficulty).2 held)
  | beginReread {l l' : Ledger F} {held} {r : Reread} (answer : IoAnswer)
      (hbegin : l.beginReread answer = (some r, l')) :
      LedgerStep (.running l held) .reread (.running l' (some (r, none)))
  | beginNone {l l' : Ledger F} {held} (answer : IoAnswer)
      (hbegin : l.beginReread answer = (none, l')) :
      LedgerStep (.running l held) .reread (.running l' held)
  | read {l : Ledger F} {r : Reread} (answer : IoAnswer) :
      LedgerStep (.running l (some (r, none))) .reread
        (.running l (some (r, some (r.read answer))))
  | finishReread {l : Ledger F} {r : Reread} {read : Except IoError (Contents × ReadBack)} :
      LedgerStep (.running l (some (r, some read))) .reread
        (.running (l.finishReread r.window read).2 none)
  | close {l : Ledger F} {held} {s : Store} (hstore : l.store = some s) (crashed : Bool) :
      LedgerStep (.running l held) .restarted (.stopped (s.db.reopened crashed))
  | «open» {db : Database} {s : Store} {l : Ledger F} {readBack : ReadBack}
      (settings : OpenSettings F) (answer snapshot read : IoAnswer)
      (hopen : Store.open db settings.path settings.keep settings.chain answer = .ok s)
      (hattach : settings.ledger.attach s snapshot read = .ok (readBack, l)) :
      LedgerStep (.stopped db) .restarted (.running l none)
  | openFailed {db : Database} {s : Store} {e : IoError}
      (settings : OpenSettings F) (answer snapshot read : IoAnswer)
      (hopen : Store.open db settings.path settings.keep settings.chain answer = .ok s)
      (hattach : settings.ledger.attach s snapshot read = .error e) :
      LedgerStep (.stopped db) .failed (.stopped s.db)

/-- The rows of a database unpack and are in order, and what is committed of them is what retention
left of what is on disk. -/
structure Database.Sound (db : Database) : Prop where
  ordered : db.durable.shares.Ordered
  readable : db.durable.shares.Readable
  committed : db.committed.shares <:+ db.durable.shares

/-- A pool over a database it found. -/
def ledgerRuns [One F] (db : Database) : Lts (LedgerState F) LedgerEvent where
  init state := state = .stopped db
  step := LedgerStep

/-- The shares recorded over a run, in order. -/
def LedgerEvent.shares : LedgerEvent → List Share
  | .recorded shares => shares
  | _ => []

/-- What holds in every state, the shares recorded so far given. -/
def LedgerState.Sound (history : List Share) : LedgerState F → Prop
  | .stopped db => db.Sound ∧ db.durable.shares.log <:+ history
  | .running l held =>
      ∃ s, l.Over s ∧ s.db.durable.shares.log <:+ history ∧
        match held with
        | none => l.recordedDuringReread = none
        | some (r, read) =>
            ∃ recorded, l.recordedDuringReread = some recorded ∧ Ledger.Tracked r l s recorded ∧
              ∀ outcome, read = some outcome → ∃ answer, outcome = r.read answer

/-! ### Opening and closing -/

theorem openLedger_spec [One F] (settings : OpenSettings F) :
    0 < settings.ledger.window ∧ settings.ledger.window ≤ U128_MAX ∧
      settings.ledger.rereadDue = false ∧ settings.ledger.recordedDuringReread = none := by
  unfold OpenSettings.ledger
  cases settings.networkDifficulty with
  | none => exact ⟨settings.windowRule.one_le 1, settings.windowRule.le_max 1, rfl, rfl⟩
  | some networkDifficulty =>
      refine ⟨?_, ?_, ?_, rfl⟩
      · change 0 < max _ 1
        omega
      · exact max_le (settings.windowRule.le_max _) (by decide)
      · simp [Ledger.setNetworkDifficulty, Ledger.setWindow, Ledger.trim, Ledger.new]

theorem Store.open_sound {db : Database} (h : db.Sound) {path : String} {keep : Option Nat}
    {chain : Option String} {answer : IoAnswer} {s : Store}
    (hopen : Store.open db path keep chain answer = .ok s) :
    s.Sound ∧ s.db.Sound ∧ s.db.durable.shares = db.committed.shares := by
  obtain ⟨hcommitted, hdurable, hnext⟩ := Store.opened_shares hopen
  have hordered : db.committed.shares.Ordered := h.ordered.of_suffix h.committed
  have hreadable : db.committed.shares.Readable := h.readable.of_suffix h.committed
  have hsound : s.db.Sound :=
    ⟨hdurable ▸ hordered, hdurable ▸ hreadable, hcommitted ▸ hdurable ▸ List.suffix_refl _⟩
  refine ⟨⟨hsound.ordered, hsound.readable, hsound.committed, ?_⟩, hsound, hdurable⟩
  rw [hdurable, hnext]
  exact Store.below_last hordered

/-- Attaching a store fills the window with its newest shares. -/
theorem attach_over [One F] {settings : OpenSettings F} {s : Store} (h : s.Sound)
    {snapshot read : IoAnswer} {readBack : ReadBack} {l : Ledger F}
    (hattach : settings.ledger.attach s snapshot read = .ok (readBack, l)) :
    l.Over s ∧ l.recordedDuringReread = none := by
  obtain ⟨hpos, hle, hdue, hidle⟩ := openLedger_spec settings
  unfold Ledger.attach Ledger.load at hattach
  cases snapshot with
  | error e => simp [Store.beginRead, Database.beginRead, Except.map, bind, Except.bind] at hattach
  | ok _ =>
      simp only [Store.beginRead, Database.beginRead, Except.map, bind, Except.bind] at hattach
      cases hread : readContents s.db.committed settings.ledger.window settings.ledger.maxShares
          read with
      | error e => simp [hread] at hattach
      | ok contents =>
          have hheld := Ledger.readContents_holds h.committed_ordered h.committed_readable hpos hle
            hread
          have hworked := (Ledger.worked_log h).newest settings.ledger.window
            settings.ledger.maxShares
          have htrim := Contents.trim_holds hpos settings.ledger.maxShares hheld
            hworked
          rw [Suffix.newest_newest Share.work le_rfl] at htrim
          simp only [hread, pure, Except.pure, Except.ok.injEq, Prod.mk.injEq] at hattach
          obtain ⟨-, rfl⟩ := hattach
          refine ⟨⟨rfl, h, hpos, hle, ⟨_, htrim, hworked⟩, ?_, fun _ => htrim⟩, hidle⟩
          intro hrunning
          change settings.ledger.recordedDuringReread.isSome at hrunning
          rw [hidle] at hrunning
          cases hrunning

theorem Database.Sound.reopened {db : Database} (h : db.Sound) (crashed : Bool) :
    (db.reopened crashed).Sound ∧ (db.reopened crashed).durable.shares <:+ db.durable.shares := by
  cases crashed with
  | true => exact ⟨⟨h.ordered, h.readable, List.suffix_refl _⟩, List.suffix_refl _⟩
  | false =>
      exact ⟨⟨h.ordered.of_suffix h.committed, h.readable.of_suffix h.committed,
        List.suffix_refl _⟩, h.committed⟩

theorem ShareTable.log_suffix {table table' : ShareTable} (h : table' <:+ table) :
    table'.log <:+ table.log := by
  obtain ⟨older, rfl⟩ := h
  exact ⟨ShareTable.log older, (ShareTable.log_append _ _).symm⟩

/-! ### One step, and every run -/

theorem LedgerState.Sound.step [One F] {history : List Share} {state state' : LedgerState F}
    {event : LedgerEvent} (h : state.Sound history) (hstep : LedgerStep state event state') :
    state'.Sound (history ++ event.shares) := by
  cases hstep with
  | @record l l' held shares removed answers hshares hrecord =>
      obtain ⟨s, hover, hhistory, hheld⟩ := h
      obtain ⟨s', hover', hrecorded⟩ := hover.recordBatch hshares hrecord
      refine ⟨s', hover', ?_, ?_⟩
      · obtain ⟨older, rfl⟩ := hhistory
        refine hrecorded.durable.trans ⟨older, ?_⟩
        rw [LedgerEvent.shares, List.append_assoc]
      · cases held with
        | none => exact hrecorded.idle hheld
        | some held =>
            obtain ⟨recorded, hrunning, htracked, houtcome⟩ := hheld
            obtain ⟨hrunning', hlog⟩ := hrecorded.running recorded hrunning
            refine ⟨_, hrunning', ⟨htracked.ordered, htracked.readable, htracked.window_pos,
              htracked.window_le, htracked.maxShares.trans hrecorded.maxShares.symm, ?_⟩, houtcome⟩
            rw [hlog, htracked.log, List.append_assoc]
  | recordFailed => simpa [LedgerEvent.shares] using h
  | @setNetworkDifficulty l held networkDifficulty =>
      obtain ⟨s, hover, hhistory, hheld⟩ := h
      refine ⟨s, hover.setNetworkDifficulty networkDifficulty,
        by simpa [LedgerEvent.shares] using hhistory, ?_⟩
      cases held with
      | none => exact hheld
      | some held =>
          obtain ⟨recorded, hrunning, htracked, houtcome⟩ := hheld
          exact ⟨recorded, hrunning, ⟨htracked.ordered, htracked.readable, htracked.window_pos,
            htracked.window_le, htracked.maxShares, htracked.log⟩, houtcome⟩
  | beginReread answer hbegin =>
      obtain ⟨s, hover, hhistory, -⟩ := h
      obtain ⟨hover', -, hrunning, htracked⟩ := hover.beginReread hbegin
      refine ⟨s, hover', by simpa [LedgerEvent.shares] using hhistory, [], hrunning, htracked, ?_⟩
      intro outcome houtcome
      cases houtcome
  | beginNone answer hbegin =>
      have hsame := Ledger.beginReread_none hbegin
      rw [hsame]
      simpa [LedgerEvent.shares] using h
  | @read l r answer =>
      obtain ⟨s, hover, hhistory, recorded, hrunning, htracked, -⟩ := h
      refine ⟨s, hover, by simpa [LedgerEvent.shares] using hhistory, recorded, hrunning, htracked,
        ?_⟩
      intro outcome houtcome
      cases houtcome
      exact ⟨answer, rfl⟩
  | @finishReread l r read =>
      obtain ⟨s, hover, hhistory, recorded, hrunning, htracked, houtcome⟩ := h
      obtain ⟨answer, rfl⟩ := houtcome read rfl
      obtain ⟨hover', hidle⟩ := hover.finishReread hrunning htracked answer
      exact ⟨s, hover', by simpa [LedgerEvent.shares] using hhistory, hidle⟩
  | @close l held s hstore crashed =>
      obtain ⟨s', hover, hhistory, -⟩ := h
      rw [hover.store] at hstore
      obtain rfl := Option.some.inj hstore
      have hsound : s'.db.Sound := ⟨hover.sound.ordered, hover.sound.readable, hover.sound.committed⟩
      obtain ⟨hsound', hsuffix⟩ := hsound.reopened crashed
      refine ⟨hsound', ?_⟩
      simp only [LedgerEvent.shares, List.append_nil]
      exact (ShareTable.log_suffix hsuffix).trans hhistory
  | «open» settings answer snapshot read hopen hattach =>
      obtain ⟨hsound, -, hshares⟩ := Store.open_sound h.1 hopen
      obtain ⟨hover, hidle⟩ := attach_over hsound hattach
      refine ⟨_, hover, ?_, hidle⟩
      simp only [LedgerEvent.shares, List.append_nil, hshares]
      exact (ShareTable.log_suffix h.1.committed).trans h.2
  | openFailed settings answer snapshot read hopen hattach =>
      obtain ⟨-, hsound, hshares⟩ := Store.open_sound h.1 hopen
      refine ⟨hsound, ?_⟩
      simp only [LedgerEvent.shares, List.append_nil, hshares]
      exact (ShareTable.log_suffix h.1.committed).trans h.2

/-- Every state a run reaches is sound for the shares recorded over it. -/
theorem ledgerRuns_sound [One F] {db : Database} (hdb : db.Sound) {trace : List LedgerEvent}
    {state : LedgerState F} (hrun : (ledgerRuns db).Run trace state) :
    state.Sound (db.durable.shares.log ++ trace.flatMap LedgerEvent.shares) := by
  refine hrun.invariant
    (I := fun trace state => state.Sound (db.durable.shares.log ++ trace.flatMap LedgerEvent.shares))
    ?_ ?_
  · rintro _ rfl
    exact ⟨hdb, by simp⟩
  · intro trace state event state' hsound hstep
    rw [List.flatMap_append, ← List.append_assoc]
    simpa using hsound.step hstep

/-- **The window over every run.** In every state a run reaches in which no re-read is due, the window
holds the newest stored shares that reach it, up to the count bound; the stored shares are the newest of
those found and those recorded, in order. -/
theorem window_holds_newest [One F] {db : Database} (hdb : db.Sound) {trace : List LedgerEvent}
    {l : Ledger F} {held} (hrun : (ledgerRuns db).Run trace (.running l held)) :
    ∃ s, l.store = some s ∧
      s.log <:+ db.durable.shares.log ++ trace.flatMap LedgerEvent.shares ∧
      (l.rereadDue = false →
        l.contents.Holds (Suffix.newest Share.work l.window l.maxShares s.log)) := by
  obtain ⟨s, hover, hhistory, -⟩ := ledgerRuns_sound hdb hrun
  exact ⟨s, hover.store, (ShareTable.log_suffix hover.sound.committed).trans hhistory, hover.current⟩

/-- A database nothing was recorded in. -/
def emptyDatabase : Database := ⟨⟨[], none, none⟩, ⟨[], none, none⟩⟩

theorem emptyDatabase_sound : emptyDatabase.Sound :=
  ⟨List.Pairwise.nil, fun _ h => absurd h List.not_mem_nil, List.suffix_refl _⟩

/-- A pool whose window is the network difficulty, on a chain of difficulty 3. -/
def smallPool : OpenSettings Nat where
  windowRule := {
    windowFor := fun networkDifficulty => min (networkDifficulty + 1) U128_MAX
    one_le := fun _ => le_min (Nat.le_add_left 1 _) (by decide)
    le_max := fun _ => min_le_right _ _ }
  splitPolicy := ⟨100, one_percent_le⟩
  path := "regtest.redb"
  keep := some 0
  chain := some "regtest"
  networkDifficulty := some 3

def smallShare (acceptedAt : UInt64) : Share where
  acceptedAt := acceptedAt
  identity := "m"
  difficulty := 2
  blockHash := Vector.replicate 32 7
  tagSecondary := ""

theorem smallShare_recordable (acceptedAt : UInt64) : (smallShare acceptedAt).Recordable :=
  ⟨show 0 ∉ stringBytes "m" by decide, show 0 < (2 : UInt64).toNat by decide⟩

theorem window_holds_newest_after_widening :
    ∃ (l : Ledger Nat) (s : Store), l.store = some s ∧ s.log.length = 2 ∧ l.rereadDue = false ∧
      l.contents.Holds (Suffix.newest Share.work l.window l.maxShares s.log) := by
  have hrecord : ∀ t, ∀ share ∈ [smallShare t], share.Recordable := by
    intro t share hshare
    rw [List.mem_singleton.mp hshare]
    exact smallShare_recordable t
  have hopened := Lts.Run.next (S := ledgerRuns emptyDatabase) (.start rfl)
    (.open smallPool (.ok ()) (.ok ()) (.ok ()) rfl rfl)
  have hone := hopened.next (.record ⟨.ok (), .ok (), .ok ()⟩ (hrecord 10) rfl)
  have hwide := hone.next (.setNetworkDifficulty 9)
  have hbegun := hwide.next (.beginReread (.ok ()) rfl)
  have htwo := hbegun.next (.record ⟨.ok (), .ok (), .ok ()⟩ (hrecord 11) rfl)
  have hread := htwo.next (.read (.ok ()))
  have hdone := hread.next .finishReread
  obtain ⟨s, hstore, -, hcurrent⟩ := window_holds_newest emptyDatabase_sound hdone
  refine ⟨_, s, hstore, ?_, rfl, hcurrent rfl⟩
  cases hstore
  rfl

end Ratum
