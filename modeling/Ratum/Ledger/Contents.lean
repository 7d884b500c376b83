import Ratum.Base.Suffix
import Ratum.Core.Maps
import Ratum.Ledger.Share

/-!
# The shares in the window

The compact window of `prime/src/ledger.rs`: a share is its work, its time and an index into a table of
the identities with a share in the window, whose indexes are released and reused. Memory reservations
are left out; every `expect` of the source reads an entry that `Contents.Holds` provides.
-/

namespace Ratum

structure IdentityState where
  work : Nat
  tagSecondary : String
  deriving DecidableEq

/-- Seconds since the epoch as a `u32`, at its maximum when they do not fit. -/
def clampSeconds (seconds : UInt64) : UInt32 :=
  if seconds.toNat < UInt32.size then UInt32.ofNat seconds.toNat else UInt32.ofNat (UInt32.size - 1)

structure WindowShare where
  difficulty : UInt64
  acceptedAt : UInt32
  /-- The identity's index in `Identities`. -/
  credit : Nat
  deriving DecidableEq

namespace WindowShare

def new (share : Share) (identity : Nat) : WindowShare :=
  { difficulty := share.difficulty, acceptedAt := clampSeconds share.acceptedAt, credit := identity }

def identity (share : WindowShare) : Nat := share.credit

def work (share : WindowShare) : Nat := share.difficulty.toNat

end WindowShare

structure IdentityEntry where
  name : String
  state : IdentityState
  shares : Nat
  deriving DecidableEq

/-- The entry an identity not held yet is given. -/
def IdentityEntry.fresh (name : String) : IdentityEntry :=
  { name, state := { work := 0, tagSecondary := "" }, shares := 0 }

/-- What `push` does to the entry of the identity a share credits. -/
def IdentityEntry.credit (share : Share) (e : IdentityEntry) : IdentityEntry :=
  { e with
    state := { work := e.state.work + share.work, tagSecondary := share.tagSecondary }
    shares := e.shares + 1 }

/-- What `drop_oldest` does to the entry of the identity the oldest share credits. -/
def IdentityEntry.debit (work : Nat) (e : IdentityEntry) : IdentityEntry :=
  { e with state := { e.state with work := e.state.work - work }, shares := e.shares - 1 }

@[simp] theorem IdentityEntry.name_credit (share : Share) (e : IdentityEntry) :
    (e.credit share).name = e.name := rfl

@[simp] theorem IdentityEntry.name_debit (work : Nat) (e : IdentityEntry) :
    (e.debit work).name = e.name := rfl

structure Identities where
  byName : HashMap String Nat
  entries : List (Option IdentityEntry)
  /-- The released indexes, the last one released first. -/
  free : List Nat

namespace Identities

def empty : Identities := { byName := ∅, entries := [], free := [] }

def entry (t : Identities) (i : Nat) : Option IdentityEntry := t.entries[i]?.join

/-- The index of `name`, taking a released one or a new one for an identity not held. -/
def indexOf (t : Identities) (name : String) : Nat × Identities :=
  match t.byName.lookup name with
  | some i => (i, t)
  | none =>
      let entry := IdentityEntry.fresh name
      match t.free with
      | i :: free =>
          (i, { byName := t.byName.insert name i, entries := t.entries.set i (some entry), free })
      | [] =>
          (t.entries.length,
            { byName := t.byName.insert name t.entries.length
              entries := t.entries ++ [some entry]
              free := [] })

/-- `entry_mut`, with what its caller does to the entry. -/
def modifyEntry (t : Identities) (i : Nat) (f : IdentityEntry → IdentityEntry) : Identities :=
  { t with entries := t.entries.modify i (Option.map f) }

def name (t : Identities) (i : Nat) : Option String := (t.entry i).map IdentityEntry.name

def release (t : Identities) (i : Nat) : Identities :=
  match t.entry i with
  | some entry =>
      { byName := t.byName.erase entry.name, entries := t.entries.set i none, free := i :: t.free }
  | none => t

def iter (t : Identities) : List (String × IdentityState) :=
  t.entries.reduceOption.map fun e => (e.name, e.state)

end Identities

structure Contents where
  /-- Oldest first. -/
  shares : List WindowShare
  identities : Identities
  totalWork : Nat

namespace Contents

def empty : Contents := { shares := [], identities := .empty, totalWork := 0 }

def push (c : Contents) (share : Share) : Contents :=
  let (index, identities) := c.identities.indexOf share.identity
  { shares := c.shares ++ [WindowShare.new share index]
    identities := identities.modifyEntry index (IdentityEntry.credit share)
    totalWork := c.totalWork + share.work }

def dropOldest (c : Contents) : Contents :=
  match c.shares with
  | [] => c
  | oldest :: rest =>
      let work := oldest.work
      let index := oldest.identity
      let identities := c.identities.modifyEntry index (IdentityEntry.debit work)
      let identities :=
        match identities.entry index with
        | some entry => if entry.shares = 0 then identities.release index else identities
        | none => identities
      { shares := rest, identities, totalWork := c.totalWork - work }

/-- The first loop of `trim`; each turn drops a share, so `shares.length` turns are enough. -/
def trimWork (window : Nat) : Nat → Contents → Contents
  | 0, c => c
  | turns + 1, c =>
      match c.shares with
      | oldest :: _ :: _ =>
          if c.totalWork ≤ window then c
          else if c.totalWork - window < oldest.work then c
          else trimWork window turns c.dropOldest
      | _ => c

/-- The second loop of `trim`. -/
def trimCount (maxShares : Nat) : Nat → Contents → Contents
  | 0, c => c
  | turns + 1, c =>
      if maxShares < c.shares.length then trimCount maxShares turns c.dropOldest else c

def trim (c : Contents) (window maxShares : Nat) : Contents :=
  let c := trimWork window c.shares.length c
  trimCount maxShares c.shares.length c

/-- `read`, given the shares its argument passes on. -/
def read (window maxShares : Nat) (shares : List Share) : Contents :=
  shares.foldl (fun contents share => (contents.push share).trim window maxShares) empty

end Contents

/-! ### What the table says of a log of whole shares -/

/-- The shares of a log that credit an identity. -/
def credited (name : String) (log : List Share) : List Share :=
  log.filter fun share => share.identity = name

theorem credited_append (name : String) (log more : List Share) :
    credited name (log ++ more) = credited name log ++ credited name more := by
  simp [credited]

theorem credited_cons_self (share : Share) (log : List Share) :
    credited share.identity (share :: log) = share :: credited share.identity log := by
  simp [credited]

theorem credited_cons_ne {name : String} {share : Share} (h : share.identity ≠ name)
    (log : List Share) : credited name (share :: log) = credited name log := by
  simp [credited, h]

/-- An entry counts the shares crediting its identity, their work, and keeps the newest one's tag. -/
structure IdentityEntry.Counts (e : IdentityEntry) (log : List Share) : Prop where
  shares : e.shares = (credited e.name log).length
  work : e.state.work = Suffix.total Share.work (credited e.name log)
  tag : e.state.tagSecondary =
    ((credited e.name log).getLast?.map Share.tagSecondary).getD ""

/-- The table of identities is consistent, and each entry counts its shares of the log. -/
structure Identities.Tallies (t : Identities) (log : List Share) : Prop where
  byName : ∀ name i, t.byName.lookup name = some i ↔ ∃ e, t.entry i = some e ∧ e.name = name
  counts : ∀ i e, t.entry i = some e → e.Counts log
  free_nodup : t.free.Nodup
  mem_free : ∀ i, i ∈ t.free ↔ i < t.entries.length ∧ t.entry i = none

/-- A window share is a share of the log, its identity looked up in the table. -/
structure Identities.Names (t : Identities) (w : WindowShare) (share : Share) : Prop where
  difficulty : w.difficulty = share.difficulty
  acceptedAt : w.acceptedAt = clampSeconds share.acceptedAt
  identity : t.name w.credit = some share.identity

/-- **The compact window holds the shares of a log**, and nothing else. -/
structure Contents.Holds (c : Contents) (log : List Share) : Prop where
  shares : List.Forall₂ c.identities.Names c.shares log
  tallies : c.identities.Tallies log
  occupied : ∀ i e, c.identities.entry i = some e → credited e.name log ≠ []
  totalWork : c.totalWork = Suffix.total Share.work log

end Ratum
