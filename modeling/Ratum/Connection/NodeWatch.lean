import Ratum.Base.Lts
import Ratum.Verify.StaleVerdict

/-!
# The node's view and the connections that wait on it

`prime/src/node.rs`: the thread of `watch_node`, which reads the node's tip and template, sizes the share window and
writes the view; and a connection of `prime/src/connection.rs` as far as it looks at the view, polls its socket and
waits. A wake, taken not to fail, stands until the poll that takes it, which is not always the one the connection
waits in. The difficulties, floats in the source, are of any type, and what the node derives from bits is a parameter.
-/

namespace Ratum

def TIP_HISTORY_CAP : Nat := 64

structure Tip (D : Type) where
  hash : Hash
  height : UInt32
  difficulty : D
  deriving DecidableEq

structure TemplateSummary where
  prevHash : Hash
  height : UInt32
  coinbaseValue : Nat
  bits : UInt32
  mintime : Nat
  deriving DecidableEq

def TemplateSummary.nextBlock (template : TemplateSummary) : NextBlock where
  prevHash := some template.prevHash
  bits := template.bits
  height := some template.height
  mintime := some template.mintime

structure TipObservation where
  height : UInt32
  observedAt : Nat

structure NodeView (D : Type) where
  tip : Option (Tip D)
  template : Option TemplateSummary
  tipHistory : List TipObservation

variable {D : Type}

namespace NodeView

variable (view : NodeView D)

def isNewTip (hash : Hash) : Bool := view.tip.map Tip.hash ≠ some hash

/-- Writes the tip and, when one was read for it, the template: whether the tip or the next block's bits changed. -/
def update (t : Tip D) (template : Option (Option TemplateSummary)) (now : Nat) : Bool × NodeView D :=
  let tipChanged := view.isNewTip t.hash
  let history := view.tipHistory ++ [⟨t.height, now⟩]
  let view' := {
    tip := some t
    template := template.getD view.template
    tipHistory := if tipChanged then history.drop (history.length - TIP_HISTORY_CAP) else view.tipHistory }
  (tipChanged || view'.template.map TemplateSummary.bits ≠ view.template.map TemplateSummary.bits, view')

end NodeView

/-- The difficulty the share window is sized to, with the node's difficulty of bits. -/
def windowDifficulty (nodeDifficultyFromBits : UInt32 → Option D) (tip : Tip D)
    (template : Option TemplateSummary) : D :=
  (template.bind fun t => nodeDifficultyFromBits t.bits).getD tip.difficulty

/-- Where the loop of `watch_node` stands. -/
inductive WatchAt (D : Type)
  | asking
  | checking (t : Tip D)
  | reading (t : Tip D) (tipChanged : Bool)
  | sizing (t : Tip D) (tipChanged : Bool) (template : Option (Option TemplateSummary))
  | updating (t : Tip D) (template : Option (Option TemplateSummary))
  | waking

inductive ReaderAt
  | absent
  /-- Before it reads the view. -/
  | looking
  | working
  | waiting
  deriving DecidableEq

/-- A connection: its waker is registered while it is there. -/
structure NodeReader where
  position : ReaderAt
  verifier : Verifier
  /-- A wake that no poll has taken. -/
  event : Bool
  /-- Whether a poll has taken a wake since the connection looked, which nothing in the source keeps. -/
  polledAway : Bool

namespace NodeReader

variable (reader : NodeReader)

/-- `notify_tip_change` as far as the view goes. -/
def look (view : NodeView D) (now : Nat) : NodeReader :=
  let tip := view.tip.map Tip.hash
  let verifier := if tip ≠ reader.verifier.tip then reader.verifier.setTip tip now else reader.verifier
  { reader with
    position := .working
    verifier := { verifier with next := view.template.map TemplateSummary.nextBlock }
    polledAway := false }

/-- A poll before the connection waits: of a socket it drains, or of one it writes to. -/
def poll : NodeReader := { reader with event := false, polledAway := reader.polledAway || reader.event }

def wake : NodeReader := { reader with event := reader.event || reader.position ≠ .absent }

end NodeReader

structure NodeServer (ι D : Type) where
  view : NodeView D
  /-- Of the ledger. -/
  networkDifficulty : Option D
  haveTemplate : Bool
  watch : WatchAt D
  readers : ι → NodeReader

namespace NodeServer

variable {ι : Type} (server : NodeServer ι D)

def check (t : Tip D) : NodeServer ι D :=
  let tipChanged := server.view.isNewTip t.hash
  { server with
    watch := if tipChanged || !server.haveTemplate then .reading t tipChanged else .sizing t tipChanged none }

def size (nodeDifficultyFromBits : UInt32 → Option D) (t : Tip D) (tipChanged : Bool)
    (template : Option (Option TemplateSummary)) : NodeServer ι D :=
  let next := template.join
  { server with
    networkDifficulty :=
      if tipChanged || next.isSome then some (windowDifficulty nodeDifficultyFromBits t next)
      else server.networkDifficulty
    watch := .updating t template }

def update (t : Tip D) (template : Option (Option TemplateSummary)) (now : Nat) : NodeServer ι D :=
  { server with
    view := (server.view.update t template now).2
    watch := if (server.view.update t template now).1 then .waking else .asking }

variable [DecidableEq ι]

def setReader (c : ι) (reader : NodeReader) : NodeServer ι D :=
  { server with readers := Function.update server.readers c reader }

@[simp] theorem readers_setReader_self (server : NodeServer ι D) (c : ι) (reader : NodeReader) :
    (server.setReader c reader).readers c = reader := Function.update_self ..

theorem readers_setReader_of_ne {c c' : ι} (hne : c' ≠ c) (reader : NodeReader) :
    (server.setReader c reader).readers c' = server.readers c' := Function.update_of_ne hne _ _

end NodeServer

/-- What a connection does to its verifier besides looking at the view. -/
def VerifierEvent.isWork : VerifierEvent → Bool
  | .setTip .. | .setTemplate _ => false
  | _ => true

section Steps

variable {ι : Type} [DecidableEq ι] (H : Hashing) (policy : SharePolicy)
  (nodeDifficultyFromBits : UInt32 → Option D) (difficulty : Hash → D)

/-- A step of the thread that watches the node, or of a connection. A tip that could not be read leaves all as it
is, and a wait may end without a wake. -/
inductive NodeStep : NodeServer ι D → Option ι → NodeServer ι D → Prop
  | readTip {server : NodeServer ι D} (t : Tip D) (hat : server.watch = .asking)
      (hdifficulty : t.difficulty = difficulty t.hash) :
      NodeStep server none { server with watch := .checking t }
  | check {server : NodeServer ι D} {t : Tip D} (hat : server.watch = .checking t) :
      NodeStep server none (server.check t)
  | readTemplate {server : NodeServer ι D} {t : Tip D} {tipChanged : Bool} (read : Option TemplateSummary)
      (hat : server.watch = .reading t tipChanged) :
      NodeStep server none
        { server with haveTemplate := read.isSome, watch := .sizing t tipChanged (some read) }
  | size {server : NodeServer ι D} {t : Tip D} {tipChanged : Bool} {template : Option (Option TemplateSummary)}
      (hat : server.watch = .sizing t tipChanged template) :
      NodeStep server none (server.size nodeDifficultyFromBits t tipChanged template)
  | update {server : NodeServer ι D} {t : Tip D} {template : Option (Option TemplateSummary)} (now : Nat)
      (hat : server.watch = .updating t template) :
      NodeStep server none (server.update t template now)
  | wake {server : NodeServer ι D} (hat : server.watch = .waking) :
      NodeStep server none { server with readers := fun c => (server.readers c).wake, watch := .asking }
  | connect {server : NodeServer ι D} (c : ι) (splits : DictatedSplits)
      (hat : (server.readers c).position = .absent) :
      NodeStep server (some c)
        (server.setReader c ⟨.looking, (Verifier.new policy).restoreSplits splits, false, false⟩)
  | look {server : NodeServer ι D} (c : ι) (now : Nat) (hat : (server.readers c).position = .looking) :
      NodeStep server (some c) (server.setReader c ((server.readers c).look server.view now))
  | work {server : NodeServer ι D} (c : ι) (event : VerifierEvent) (hwork : event.isWork = true)
      (hat : (server.readers c).position = .working) :
      NodeStep server (some c)
        (server.setReader c
          { server.readers c with verifier := (server.readers c).verifier.after H event })
  | poll {server : NodeServer ι D} (c : ι) (hat : (server.readers c).position = .working) :
      NodeStep server (some c) (server.setReader c (server.readers c).poll)
  | next {server : NodeServer ι D} (c : ι) (hat : (server.readers c).position = .working) :
      NodeStep server (some c) (server.setReader c { server.readers c with position := .looking })
  | wait {server : NodeServer ι D} (c : ι) (hat : (server.readers c).position = .working) :
      NodeStep server (some c) (server.setReader c { server.readers c with position := .waiting })
  | resume {server : NodeServer ι D} (c : ι) (hat : (server.readers c).position = .waiting) :
      NodeStep server (some c)
        (server.setReader c { server.readers c with position := .looking, event := false })
  | close {server : NodeServer ι D} (c : ι) :
      NodeStep server (some c) (server.setReader c { server.readers c with position := .absent })

/-- The pool from its start on. -/
def watchingNode : Lts (NodeServer ι D) (Option ι) where
  init server := server.view = ⟨none, none, []⟩ ∧ server.networkDifficulty = none ∧
    server.haveTemplate = false ∧ server.watch = .asking ∧ ∀ c, (server.readers c).position = .absent
  step := NodeStep H policy nodeDifficultyFromBits difficulty

end Steps

/-! ### What is written -/

variable {view : NodeView D} {t : Tip D} {template : Option (Option TemplateSummary)} {now : Nat}

namespace NodeView

theorem isNewTip_eq_false {hash : Hash} : view.isNewTip hash = false ↔ view.tip.map Tip.hash = some hash := by
  rw [isNewTip, decide_eq_false_iff_not, not_not]

/-- A template is read for the view when the tip is new or the view has none. -/
def ReadFor (view : NodeView D) (haveTemplate : Bool) (t : Tip D) : Option (Option TemplateSummary) → Prop
  | none => view.isNewTip t.hash = false ∧ haveTemplate = view.template.isSome
  | some read => haveTemplate = read.isSome ∧ (view.isNewTip t.hash = true ∨ view.template = none)

variable {haveTemplate : Bool}

theorem ReadFor.update (h : view.ReadFor haveTemplate t template) :
    haveTemplate = (view.update t template now).2.template.isSome := by
  cases template with
  | none => exact h.2
  | some read => exact h.1

/-- What changes nothing a connection reads is not said to change it. -/
theorem ReadFor.update_unchanged (h : view.ReadFor haveTemplate t template)
    (hunchanged : (view.update t template now).1 = false) :
    (view.update t template now).2.tip.map Tip.hash = view.tip.map Tip.hash ∧
      (view.update t template now).2.template = view.template := by
  rw [NodeView.update, Bool.or_eq_false_iff, decide_eq_false_iff_not, not_not] at hunchanged
  obtain ⟨hold, hbits⟩ := hunchanged
  refine ⟨(isNewTip_eq_false.mp hold).symm, ?_⟩
  cases template with
  | none => rfl
  | some read =>
      have hnone : view.template = none := h.2.resolve_left (by rw [hold]; decide)
      rw [hnone] at hbits
      rw [hnone]
      exact Option.map_eq_none_iff.mp hbits

end NodeView

variable {nodeDifficultyFromBits : UInt32 → Option D} {difficulty : Hash → D} {networkDifficulty : Option D}

/-- The window is sized to the next block of the view. -/
def NodeView.Sized (nodeDifficultyFromBits : UInt32 → Option D) (view : NodeView D)
    (networkDifficulty : Option D) : Prop :=
  ∀ t, view.tip = some t → networkDifficulty = some (windowDifficulty nodeDifficultyFromBits t view.template)

/-- The tip in the view has the difficulty of its block. -/
def NodeView.Measured (difficulty : Hash → D) (view : NodeView D) : Prop :=
  ∀ t, view.tip = some t → t.difficulty = difficulty t.hash

/-- The window is sized before the view is written. -/
theorem NodeView.ReadFor.sized {haveTemplate : Bool} (h : view.ReadFor haveTemplate t template)
    (hsized : view.Sized nodeDifficultyFromBits networkDifficulty) (hmeasured : view.Measured difficulty)
    (ht : t.difficulty = difficulty t.hash) :
    (view.update t template now).2.Sized nodeDifficultyFromBits
      (if view.isNewTip t.hash || template.join.isSome
        then some (windowDifficulty nodeDifficultyFromBits t template.join) else networkDifficulty) := by
  rintro _ ⟨⟩
  cases template with
  | none =>
      have hsame := NodeView.isNewTip_eq_false.mp h.1
      obtain ⟨held, hheld, hhash⟩ := Option.map_eq_some_iff.mp hsame
      have hdifficulty : held.difficulty = t.difficulty := by rw [hmeasured held hheld, hhash, ht]
      rw [h.1]
      refine (hsized held hheld).trans ?_
      rw [windowDifficulty, windowDifficulty, hdifficulty]
      rfl
  | some read =>
      cases hnew : view.isNewTip t.hash with
      | true => rfl
      | false =>
          cases read with
          | some summary => rfl
          | none =>
              have hnone : view.template = none := h.2.resolve_left (by rw [hnew]; decide)
              obtain ⟨held, hheld, hhash⟩ := Option.map_eq_some_iff.mp (NodeView.isNewTip_eq_false.mp hnew)
              have hdifficulty : held.difficulty = t.difficulty := by rw [hmeasured held hheld, hhash, ht]
              refine (hsized held hheld).trans ?_
              rw [hnone, windowDifficulty, hdifficulty]
              rfl

/-! ### What the threads keep -/

/-- The connection's verifier builds on the view. -/
structure NodeReader.Current (reader : NodeReader) (view : NodeView D) : Prop where
  tip : reader.verifier.tip = view.tip.map Tip.hash
  next : reader.verifier.next = view.template.map TemplateSummary.nextBlock

/-- What the watching thread has found of the view, which no other thread writes. -/
def WatchAt.Sound (nodeDifficultyFromBits : UInt32 → Option D) (difficulty : Hash → D) (view : NodeView D)
    (haveTemplate : Bool) (networkDifficulty : Option D) : WatchAt D → Prop
  | .asking | .waking => haveTemplate = view.template.isSome ∧ view.Sized nodeDifficultyFromBits networkDifficulty
  | .checking t => haveTemplate = view.template.isSome ∧ view.Sized nodeDifficultyFromBits networkDifficulty ∧
      t.difficulty = difficulty t.hash
  | .reading t tipChanged =>
      (tipChanged = view.isNewTip t.hash ∧ (tipChanged = true ∨ view.template = none)) ∧
        view.Sized nodeDifficultyFromBits networkDifficulty ∧ t.difficulty = difficulty t.hash
  | .sizing t tipChanged template =>
      (tipChanged = view.isNewTip t.hash ∧ view.ReadFor haveTemplate t template) ∧
        view.Sized nodeDifficultyFromBits networkDifficulty ∧ t.difficulty = difficulty t.hash
  | .updating t template => view.ReadFor haveTemplate t template ∧ t.difficulty = difficulty t.hash ∧
      ∀ now, (view.update t template now).2.Sized nodeDifficultyFromBits networkDifficulty

theorem tip_setTip (v : Verifier) (tip : Option Hash) (now : Nat) : (v.setTip tip now).tip = tip := by
  rw [Verifier.setTip]
  split <;> rfl

theorem NodeReader.current_look (reader : NodeReader) (view : NodeView D) (now : Nat) :
    (reader.look view now).Current view := by
  refine ⟨?_, rfl⟩
  unfold NodeReader.look
  dsimp only
  split
  · exact tip_setTip ..
  · rename_i hsame
    exact (not_not.mp hsame).symm

namespace Verifier

/-- Only the view changes what a connection takes for the tip and the next block. -/
theorem after_work (H : Hashing) (v : Verifier) {event : VerifierEvent} (hwork : event.isWork = true) :
    (v.after H event).tip = v.tip ∧ (v.after H event).next = v.next := by
  cases event with
  | setTip tip now => cases hwork
  | setTemplate next => cases hwork
  | recordDictated value prevHash outputs now => exact ⟨rfl, rfl⟩
  | takeSplits => exact ⟨rfl, rfl⟩
  | restoreSplits splits => exact ⟨rfl, rfl⟩
  | setJobTxns jobId generation txns =>
      rw [after, setJobTxns]
      split
      · exact ⟨rfl, rfl⟩
      · dsimp only
        split <;> exact ⟨rfl, rfl⟩
  | recordBlockCheck jobId generation digest check =>
      rw [after, recordBlockCheck]
      split <;> exact ⟨rfl, rfl⟩
  | verify s abw now =>
      rw [after]
      obtain hsame | ⟨rawPowHash, job, cb, -, hinstall⟩ := verify_cases H v s abw now
      · rw [hsame]
        exact ⟨rfl, rfl⟩
      · obtain ⟨-, hinstalled⟩ := installSections_eq hinstall
        rw [hinstalled]
        split <;> exact ⟨rfl, rfl⟩

end Verifier

section Runs

variable {ι : Type} {H : Hashing} {policy : SharePolicy} {server server' : NodeServer ι D}
  {who : Option ι} {trace : List (Option ι)}

/-- The connection knows of the view, a wake will tell it, or a poll of its own took the wake that did. -/
def NodeReader.Told (reader : NodeReader) (view : NodeView D) : Prop :=
  reader.Current view ∨ reader.event = true ∨ reader.polledAway = true

structure NodeServer.Sound (nodeDifficultyFromBits : UInt32 → Option D) (difficulty : Hash → D)
    (server : NodeServer ι D) : Prop where
  watch : server.watch.Sound nodeDifficultyFromBits difficulty server.view server.haveTemplate
    server.networkDifficulty
  measured : server.view.Measured difficulty
  told : ∀ c, (server.readers c).position = .working ∨ (server.readers c).position = .waiting →
    server.watch = .waking ∨ (server.readers c).Told server.view

namespace NodeServer.Sound

/-- The watching thread went on, and the view is as it was. -/
theorem setWatch (h : server.Sound nodeDifficultyFromBits difficulty) (hawake : server.watch ≠ .waking)
    {watch : WatchAt D} {haveTemplate : Bool} {networkDifficulty : Option D}
    (hwatch : watch.Sound nodeDifficultyFromBits difficulty server.view haveTemplate networkDifficulty) :
    ({ server with watch, haveTemplate, networkDifficulty } : NodeServer ι D).Sound nodeDifficultyFromBits
      difficulty where
  watch := hwatch
  measured := h.measured
  told c hbusy := .inr ((h.told c hbusy).resolve_left hawake)

theorem check (h : server.Sound nodeDifficultyFromBits difficulty) (hat : server.watch = .checking t) :
    (server.check t).Sound nodeDifficultyFromBits difficulty := by
  have hwatch := h.watch
  rw [hat] at hwatch
  obtain ⟨hhave, hsized, ht⟩ := hwatch
  refine h.setWatch (by rw [hat]; simp) ?_
  split
  · rename_i hread
    refine ⟨⟨rfl, ?_⟩, hsized, ht⟩
    rw [hhave] at hread
    simpa using hread
  · rename_i hkept
    rw [Bool.or_eq_true, not_or, Bool.not_eq_true] at hkept
    exact ⟨⟨rfl, hkept.1, hhave⟩, hsized, ht⟩

theorem readTemplate (h : server.Sound nodeDifficultyFromBits difficulty) {tipChanged : Bool}
    (hat : server.watch = .reading t tipChanged) (read : Option TemplateSummary) :
    ({ server with haveTemplate := read.isSome, watch := .sizing t tipChanged (some read) } :
      NodeServer ι D).Sound nodeDifficultyFromBits difficulty := by
  have hwatch := h.watch
  rw [hat] at hwatch
  obtain ⟨⟨hchanged, hdue⟩, hsized, ht⟩ := hwatch
  exact h.setWatch (by rw [hat]; simp) ⟨⟨hchanged, rfl, hchanged ▸ hdue⟩, hsized, ht⟩

theorem size (h : server.Sound nodeDifficultyFromBits difficulty) {tipChanged : Bool}
    (hat : server.watch = .sizing t tipChanged template) :
    (server.size nodeDifficultyFromBits t tipChanged template).Sound nodeDifficultyFromBits difficulty := by
  have hwatch := h.watch
  rw [hat] at hwatch
  obtain ⟨⟨rfl, hread⟩, hsized, ht⟩ := hwatch
  exact h.setWatch (by rw [hat]; simp) ⟨hread, ht, fun now => hread.sized hsized h.measured ht⟩

/-- The view written: a change leaves a wake due, and without one every connection's is as current as it was. -/
theorem update (h : server.Sound nodeDifficultyFromBits difficulty) (hat : server.watch = .updating t template)
    (now : Nat) : (server.update t template now).Sound nodeDifficultyFromBits difficulty := by
  have hwatch := h.watch
  rw [hat] at hwatch
  obtain ⟨hread, ht, hsized⟩ := hwatch
  refine ⟨?_, ?_, fun c hbusy => ?_⟩
  · unfold NodeServer.update
    dsimp only
    split <;> exact ⟨hread.update, hsized now⟩
  · rintro _ ⟨⟩
    exact ht
  · unfold NodeServer.update
    dsimp only
    split
    · exact .inl rfl
    · rename_i hunchanged
      obtain ⟨htip, htemplate⟩ := hread.update_unchanged (Bool.not_eq_true _ ▸ hunchanged)
      refine .inr ((h.told c hbusy).resolve_left (by rw [hat]; simp) |>.imp_left fun hcurrent => ?_)
      exact ⟨hcurrent.tip.trans htip.symm, hcurrent.next.trans (by rw [htemplate])⟩

/-- A wake reaches every connection there is. -/
theorem wake (h : server.Sound nodeDifficultyFromBits difficulty) (hat : server.watch = .waking) :
    ({ server with readers := fun c => (server.readers c).wake, watch := .asking } :
      NodeServer ι D).Sound nodeDifficultyFromBits difficulty where
  watch := by
    have hwatch := h.watch
    rw [hat] at hwatch
    exact hwatch
  measured := h.measured
  told c hbusy := by
    refine .inr (.inr (.inl ?_))
    have hthere : (server.readers c).position ≠ .absent := by
      rintro habsent
      have hposition : (server.readers c).wake.position = .absent := habsent
      dsimp only at hbusy
      rw [hposition] at hbusy
      obtain hbusy | hbusy := hbusy <;> cases hbusy
    show ((server.readers c).event || decide ((server.readers c).position ≠ .absent)) = true
    rw [decide_eq_true hthere, Bool.or_true]

variable [DecidableEq ι]

theorem setReader (h : server.Sound nodeDifficultyFromBits difficulty) (c : ι) {reader : NodeReader}
    (hreader : reader.position = .working ∨ reader.position = .waiting →
      server.watch = .waking ∨ reader.Told server.view) :
    (server.setReader c reader).Sound nodeDifficultyFromBits difficulty where
  watch := h.watch
  measured := h.measured
  told c' hbusy := by
    obtain rfl | hne := eq_or_ne c' c
    · rw [NodeServer.readers_setReader_self] at hbusy ⊢
      exact hreader hbusy
    · rw [server.readers_setReader_of_ne hne] at hbusy ⊢
      exact h.told c' hbusy

end NodeServer.Sound

variable [DecidableEq ι]

theorem NodeStep.sound (hstep : NodeStep H policy nodeDifficultyFromBits difficulty server who server')
    (h : server.Sound nodeDifficultyFromBits difficulty) : server'.Sound nodeDifficultyFromBits difficulty := by
  cases hstep with
  | readTip t hat hdifficulty =>
      have hwatch := h.watch
      rw [hat] at hwatch
      exact h.setWatch (by rw [hat]; simp) ⟨hwatch.1, hwatch.2, hdifficulty⟩
  | check hat => exact h.check hat
  | readTemplate read hat => exact h.readTemplate hat read
  | size hat => exact h.size hat
  | update now hat => exact h.update hat now
  | wake hat => exact h.wake hat
  | connect c splits hat => exact h.setReader c fun hbusy => by obtain hbusy | hbusy := hbusy <;> cases hbusy
  | look c now hat => exact h.setReader c fun _ => .inr (.inl (NodeReader.current_look ..))
  | work c event hwork hat =>
      obtain ⟨htip, hnext⟩ := (server.readers c).verifier.after_work H hwork
      refine h.setReader c fun hbusy => (h.told c hbusy).imp_right fun htold => htold.imp_left fun hcurrent => ?_
      exact ⟨htip.trans hcurrent.tip, hnext.trans hcurrent.next⟩
  | poll c hat =>
      refine h.setReader c fun hbusy => (h.told c hbusy).imp_right ?_
      rintro (hcurrent | hevent | haway)
      · exact .inl ⟨hcurrent.tip, hcurrent.next⟩
      · exact .inr (.inr (by rw [NodeReader.poll, hevent, Bool.or_true]))
      · exact .inr (.inr (by rw [NodeReader.poll, haway, Bool.true_or]))
  | next c hat => exact h.setReader c fun hbusy => by obtain hbusy | hbusy := hbusy <;> cases hbusy
  | wait c hat =>
      exact h.setReader c fun _ => (h.told c (.inl hat)).imp_right fun htold =>
        htold.imp_left fun hcurrent => ⟨hcurrent.tip, hcurrent.next⟩
  | resume c hat => exact h.setReader c fun hbusy => by obtain hbusy | hbusy := hbusy <;> cases hbusy
  | close c => exact h.setReader c fun hbusy => by obtain hbusy | hbusy := hbusy <;> cases hbusy

theorem NodeServer.sound_of_run
    (hrun : (watchingNode H policy nodeDifficultyFromBits difficulty).Run trace server) :
    server.Sound nodeDifficultyFromBits difficulty := by
  refine hrun.invariant (I := fun _ server => server.Sound nodeDifficultyFromBits difficulty) ?_
    fun _ _ _ _ h hstep => NodeStep.sound hstep h
  rintro server ⟨hview, hnetwork, hhave, hwatch, habsent⟩
  have hnone : server.view.tip = none := by rw [hview]
  refine ⟨?_, fun t ht => ?_, fun c hbusy => ?_⟩
  · rw [hwatch]
    refine ⟨by rw [hhave, hview]; rfl, fun t ht => ?_⟩
    rw [hnone] at ht
    cases ht
  · rw [hnone] at ht
    cases ht
  · rw [habsent c] at hbusy
    obtain hbusy | hbusy := hbusy <;> cases hbusy

/-- **No connection waits on work of the past unawares.** However the steps of the thread that watches the node fall
between those of the connections: a connection that waits with no wake due has the tip and the next block the node's
view has, unless the watching thread is about to wake it or a poll of its own, since it last looked, took the wake.
And the share window is sized to the next block of the view, before the view is written. -/
theorem waiting_on_current_work
    (hrun : (watchingNode H policy nodeDifficultyFromBits difficulty).Run trace server) :
    (∀ c, (server.readers c).position = .waiting → (server.readers c).event = false →
      (server.readers c).polledAway = false → server.watch ≠ .waking →
      (server.readers c).Current server.view) ∧
    ((∀ t template, server.watch ≠ .updating t template) →
      server.view.Sized nodeDifficultyFromBits server.networkDifficulty) ∧
    ∀ t template now, server.watch = .updating t template →
      (server.view.update t template now).2.Sized nodeDifficultyFromBits server.networkDifficulty := by
  have hsound := NodeServer.sound_of_run hrun
  have hwatch := hsound.watch
  refine ⟨fun c hwaiting hevent haway hawake => ?_, fun hwritten => ?_, fun t template now hat => ?_⟩
  · obtain hcurrent | htaken | htaken := (hsound.told c (.inr hwaiting)).resolve_left hawake
    · exact hcurrent
    · rw [hevent] at htaken
      cases htaken
    · rw [haway] at htaken
      cases htaken
  · cases hat : server.watch with
    | asking => rw [hat] at hwatch; exact hwatch.2
    | checking t => rw [hat] at hwatch; exact hwatch.2.1
    | reading t tipChanged => rw [hat] at hwatch; exact hwatch.2.1
    | sizing t tipChanged template => rw [hat] at hwatch; exact hwatch.2.1
    | updating t template => exact absurd hat (hwritten t template)
    | waking => rw [hat] at hwatch; exact hwatch.2
  · rw [hat] at hwatch
    exact hwatch.2.2 now

/-- A connection that drains its socket between the view and its wait takes the wake, and waits on. -/
theorem waiting_on_current_work_drained : ∃ (trace : List (Option Unit)) (server : NodeServer Unit Nat),
    (watchingNode Verifier.blankHashing Verifier.untaggedPolicy (fun _ => none) (fun _ => 1)).Run trace server ∧
      (server.readers ()).position = .waiting ∧ (server.readers ()).event = false ∧ server.watch = .asking ∧
      ¬ (server.readers ()).Current server.view ∧ server.view.Sized (fun _ => none) server.networkDifficulty := by
  have start : (watchingNode Verifier.blankHashing Verifier.untaggedPolicy (fun _ => none) (fun _ => 1)).Run []
      (⟨⟨none, none, []⟩, none, false, .asking,
        fun _ => ⟨.absent, .new Verifier.untaggedPolicy, false, false⟩⟩ : NodeServer Unit Nat) :=
    .start ⟨rfl, rfl, rfl, rfl, fun _ => rfl⟩
  have connected := start.next (.connect () .empty rfl)
  have looked := connected.next (.look () 0 rfl)
  have asked := looked.next (.readTip ⟨Verifier.repeatedHash 1, 1, 1⟩ rfl rfl)
  have checked := asked.next (.check rfl)
  have read := checked.next (.readTemplate none rfl)
  have sized := read.next (.size rfl)
  have written := sized.next (.update 0 rfl)
  have woken := written.next (.wake rfl)
  have drained := woken.next (.poll () rfl)
  have waiting := drained.next (.wait () rfl)
  have hcurrent := waiting_on_current_work waiting
  refine ⟨_, _, waiting, rfl, rfl, rfl, fun hsame => Option.some_ne_none _ hsame.tip.symm, ?_⟩
  exact hcurrent.2.1 fun t template hwatch => by cases hwatch

end Runs

end Ratum
