import Ratum.Base.Lts
import Ratum.Payout

/-!
# The splits a session dictated

`DictatedSplits` of `prime/src/verify.rs`: the splits by coinbaser id, the newest `MAX_SPLITS` of them.
The sharing of equal outputs between consecutive splits is left out. Over every run of a session's table,
each split it holds is one the ledger dictated for the split's value.
-/

namespace Ratum

def MAX_SPLITS : Nat := 64

def SAVED_SPLITS : Nat := 8

structure DictatedSplit where
  outputs : List DictatedOutput
  value : Nat
  prevHash : Hash
  sentAt : Nat
  deriving DecidableEq

structure DictatedSplits where
  lastId : UInt8
  byId : UInt8 → Option DictatedSplit
  /-- The ids held, oldest first. -/
  order : List UInt8

namespace DictatedSplits

def empty : DictatedSplits := ⟨0, fun _ => none, []⟩

/-- The id the next split takes, skipping 0, which names no coinbaser. -/
def nextId (splits : DictatedSplits) : UInt8 :=
  if splits.lastId + 1 = 0 then 1 else splits.lastId + 1

def get (splits : DictatedSplits) (id : UInt8) : Option DictatedSplit := splits.byId id

def dropOldest (splits : DictatedSplits) : DictatedSplits :=
  match splits.order with
  | [] => splits
  | oldest :: order =>
      { splits with byId := fun id => if id = oldest then none else splits.byId id, order }

/-- Drops the oldest splits until at most `n` remain. -/
def keepNewest (splits : DictatedSplits) (n : Nat) : DictatedSplits :=
  dropOldest^[splits.order.length - n] splits

def record (splits : DictatedSplits) (id : UInt8) (value : Nat) (prevHash : Hash)
    (outputs : List DictatedOutput) (sentAt : Nat) : DictatedSplits :=
  keepNewest
    { lastId := id
      byId := fun held =>
        if held = id then some { outputs, value, prevHash, sentAt } else splits.byId held
      order := splits.order.filter (· ≠ id) ++ [id] }
    MAX_SPLITS

/-- Drops the splits dictated for a previous block hash `keep` refuses. -/
def retainPrev (splits : DictatedSplits) (keep : Hash → Bool) : DictatedSplits :=
  let byId := fun id => (splits.byId id).filter fun split => keep split.prevHash
  { splits with byId, order := splits.order.filter fun id => (byId id).isSome }

/-! ### What a table holds was dictated -/

/-- Every split held satisfies a property. -/
def All (P : DictatedSplit → Prop) (splits : DictatedSplits) : Prop :=
  ∀ id split, splits.get id = some split → P split

variable {P : DictatedSplit → Prop} {splits : DictatedSplits}

theorem All.empty : All P .empty := fun _ _ h => by cases h

theorem All.dropOldest (h : All P splits) : All P splits.dropOldest := by
  intro id split hget
  unfold DictatedSplits.dropOldest at hget
  split at hget
  · exact h id split hget
  · change (if _ then none else splits.byId id) = some split at hget
    split at hget
    · cases hget
    · exact h id split hget

theorem All.keepNewest (h : All P splits) (n : Nat) : All P (splits.keepNewest n) := by
  unfold DictatedSplits.keepNewest
  generalize splits.order.length - n = excess
  induction excess generalizing splits with
  | zero => exact h
  | succ excess ih => exact ih h.dropOldest

theorem All.record (h : All P splits) {id : UInt8} {value : Nat} {prevHash : Hash}
    {outputs : List DictatedOutput} {sentAt : Nat}
    (hnew : P { outputs, value, prevHash, sentAt }) :
    All P (splits.record id value prevHash outputs sentAt) := by
  refine All.keepNewest (fun held split hget => ?_) _
  change (if held = id then some _ else splits.byId held) = some split at hget
  split at hget
  · cases hget
    exact hnew
  · exact h held split hget

theorem All.retainPrev (h : All P splits) (keep : Hash → Bool) : All P (splits.retainPrev keep) := by
  intro id split hget
  exact h id split (Option.filter_eq_some_iff.mp hget).1

end DictatedSplits

/-! ### Runs -/

/-- The outputs are those dictated for the split's value by a ledger with this fee. -/
def DictatedSplit.Dictated (addressScript : AddressScript) (policy : SplitPolicy)
    (split : DictatedSplit) : Prop :=
  ∃ (F : Type) (l : Ledger F), l.splitPolicy = policy ∧
    split.outputs = dictatedOutputs addressScript l split.value

inductive SplitsEvent
  | dictated (id : UInt8) (value : Nat)
  | dropped
  deriving DecidableEq

/-- What is done to a session's table: a coinbaser request answered, and the splits on other parents and
the oldest dropped when the session is saved. -/
inductive SplitsStep (addressScript : AddressScript) (policy : SplitPolicy) :
    DictatedSplits → SplitsEvent → DictatedSplits → Prop
  | dictate {splits : DictatedSplits} {F : Type} (l : Ledger F) (hpolicy : l.splitPolicy = policy)
      (value : Nat) (prevHash : Hash) (now : Nat) :
      SplitsStep addressScript policy splits (.dictated splits.nextId value)
        (splits.record splits.nextId value prevHash
          (dictate addressScript l value splits.nextId).1 now)
  | retainPrev {splits : DictatedSplits} (keep : Hash → Bool) :
      SplitsStep addressScript policy splits .dropped (splits.retainPrev keep)
  | keepNewest {splits : DictatedSplits} (n : Nat) :
      SplitsStep addressScript policy splits .dropped (splits.keepNewest n)

def splitsRuns (addressScript : AddressScript) (policy : SplitPolicy) :
    Lts DictatedSplits SplitsEvent where
  init splits := splits = .empty
  step := SplitsStep addressScript policy

/-- A split held in a reachable table was dictated for its value. -/
theorem splitsRuns_dictated {addressScript : AddressScript} {policy : SplitPolicy}
    {trace : List SplitsEvent} {splits : DictatedSplits}
    (hrun : (splitsRuns addressScript policy).Run trace splits) :
    splits.All (DictatedSplit.Dictated addressScript policy) := by
  refine hrun.invariant
    (I := fun _ splits => splits.All (DictatedSplit.Dictated addressScript policy)) ?_ ?_
  · rintro _ rfl
    exact .empty
  · intro trace splits event splits' hall hstep
    cases hstep with
    | dictate l hpolicy value prevHash now => exact hall.record ⟨_, l, hpolicy, rfl⟩
    | retainPrev keep => exact hall.retainPrev keep
    | keepNewest n => exact hall.keepNewest n

end Ratum
