import Ratum.Core.Maps
import Ratum.Ledger.Basic

/-!
# The hashes of accepted shares

`AcceptedShareHashes` of `prime/src/accounting.rs`: the block hashes of the shares accepted on any
connection, each with the time it was accepted at, beside every hash held in the order it was, the ones
removed since included. The warning when the oldest are forgotten early is left out.
-/

namespace Ratum

structure AcceptedShareHashes where
  /-- Each held hash and the time it was accepted at. -/
  acceptedAt : HashMap Hash Nat
  order : List (Nat × Hash)
  capacity : Nat

namespace AcceptedShareHashes

def new (capacity : Nat) : AcceptedShareHashes := ⟨∅, [], max capacity 1⟩

/-- Whether `hash` is held. -/
def contains (hashes : AcceptedShareHashes) (hash : Hash) : Bool := (hashes.acceptedAt.lookup hash).isSome

/-- Takes the entry's hash out if it is held at the entry's time. -/
def forget (acceptedAt : HashMap Hash Nat) (entry : Nat × Hash) : HashMap Hash Nat :=
  if acceptedAt.lookup entry.2 = some entry.1 then acceptedAt.erase entry.2 else acceptedAt

/-- Forgets the oldest entries as long as `due` says of what is left. -/
def forgetWhile (due : Nat × Hash → List (Nat × Hash) → Bool) (acceptedAt : HashMap Hash Nat) :
    List (Nat × Hash) → HashMap Hash Nat × List (Nat × Hash)
  | [] => (acceptedAt, [])
  | oldest :: order =>
      if due oldest order then forgetWhile due (forget acceptedAt oldest) order
      else (acceptedAt, oldest :: order)

def expire (hashes : AcceptedShareHashes) (now : Nat) : AcceptedShareHashes :=
  let (acceptedAt, order) := forgetWhile
    (fun oldest _ => satAdd64 oldest.1 ACCEPTED_HASH_RETENTION_SECS < now) hashes.acceptedAt hashes.order
  { hashes with acceptedAt, order }

/-- The loop that makes room for one more entry. -/
def makeRoom (hashes : AcceptedShareHashes) : AcceptedShareHashes :=
  let (acceptedAt, order) := forgetWhile
    (fun _ order => hashes.capacity ≤ order.length + 1) hashes.acceptedAt hashes.order
  { hashes with acceptedAt, order }

def hold (hashes : AcceptedShareHashes) (hash : Hash) (at_ now : Nat) : Bool × AcceptedShareHashes :=
  let hashes := hashes.expire now
  if hashes.contains hash then (false, hashes)
  else
    let hashes := hashes.makeRoom
    (true, { hashes with acceptedAt := hashes.acceptedAt.insert hash at_, order := hashes.order ++ [(at_, hash)] })

/-- Holds `hash` as accepted at `now`; false when it is already held. -/
def insert (hashes : AcceptedShareHashes) (hash : Hash) (now : Nat) : Bool × AcceptedShareHashes :=
  hashes.hold hash now now

/-- Holds `hash` as accepted at a time read back from the ledger. -/
def restore (hashes : AcceptedShareHashes) (hash : Hash) (at_ now : Nat) : Bool × AcceptedShareHashes :=
  hashes.hold hash at_ now

def remove (hashes : AcceptedShareHashes) (hash : Hash) : AcceptedShareHashes :=
  { hashes with acceptedAt := hashes.acceptedAt.erase hash }

/-- `accepted_hashes_from`: the hashes of the rows the ledger recorded since the cutoff, oldest first. -/
def fromRows (rows : List (Nat × Hash)) (now : Nat) : AcceptedShareHashes :=
  rows.foldl (fun hashes row => (hashes.restore row.2 row.1 now).2) (.new MAX_ACCEPTED_HASHES)

/-! ### What is held after an operation -/

variable {hashes : AcceptedShareHashes} {hash h : Hash} {at_ now : Nat}

theorem lookup_forget {acceptedAt : HashMap Hash Nat} {entry : Nat × Hash}
    (hheld : ((forget acceptedAt entry).lookup h).isSome) : (acceptedAt.lookup h).isSome := by
  unfold forget at hheld
  split at hheld
  · by_cases heq : h = entry.2
    · subst heq
      rw [AList.lookup_erase] at hheld
      cases hheld
    · rwa [AList.lookup_erase_ne heq] at hheld
  · exact hheld

theorem lookup_forgetWhile {due : Nat × Hash → List (Nat × Hash) → Bool} {order : List (Nat × Hash)}
    {acceptedAt : HashMap Hash Nat} (hheld : ((forgetWhile due acceptedAt order).1.lookup h).isSome) :
    (acceptedAt.lookup h).isSome := by
  induction order generalizing acceptedAt with
  | nil => exact hheld
  | cons oldest order ih =>
      rw [forgetWhile] at hheld
      split at hheld
      · exact lookup_forget (ih hheld)
      · exact hheld

theorem contains_expire (hheld : (hashes.expire now).contains h) : hashes.contains h :=
  lookup_forgetWhile hheld

/-- What is held after a hash was is the hash, or was held before. -/
theorem contains_hold (hheld : (hashes.hold hash at_ now).2.contains h) : h = hash ∨ hashes.contains h := by
  unfold hold at hheld
  dsimp only at hheld
  split at hheld
  · exact .inr (contains_expire hheld)
  · by_cases heq : h = hash
    · exact .inl heq
    · have hlookup : ((hashes.expire now).makeRoom.acceptedAt.lookup h).isSome := by
        rw [← AList.lookup_insert_ne heq]
        exact hheld
      exact .inr (contains_expire (lookup_forgetWhile hlookup))

/-- A hash is refused only when it is held already. -/
theorem contains_of_refused (hrefused : (hashes.hold hash at_ now).1 = false) : hashes.contains hash := by
  unfold hold at hrefused
  dsimp only at hrefused
  split at hrefused
  · rename_i hheld
    exact contains_expire hheld
  · cases hrefused

theorem contains_remove_self : (hashes.remove hash).contains hash = false := by
  rw [contains, remove, AList.lookup_erase]
  rfl

theorem contains_remove (hheld : (hashes.remove hash).contains h) : h ≠ hash ∧ hashes.contains h := by
  by_cases heq : h = hash
  · rw [heq, contains_remove_self] at hheld
    cases hheld
  · refine ⟨heq, ?_⟩
    rwa [contains, remove, AList.lookup_erase_ne heq] at hheld

theorem contains_fromRows {rows : List (Nat × Hash)} (hheld : (fromRows rows now).contains h) :
    h ∈ rows.map Prod.snd := by
  have hfold : ∀ (rows : List (Nat × Hash)) (hashes : AcceptedShareHashes),
      (rows.foldl (fun hashes row => (hashes.restore row.2 row.1 now).2) hashes).contains h →
        h ∈ rows.map Prod.snd ∨ hashes.contains h := by
    intro rows
    induction rows with
    | nil => exact fun hashes hheld => .inr hheld
    | cons row rows ih =>
        intro hashes hheld
        rw [List.map_cons, List.mem_cons]
        obtain hrest | hheld := ih _ hheld
        · exact .inl (.inr hrest)
        · exact (contains_hold hheld).imp .inl id
  refine (hfold rows _ hheld).resolve_right fun hnew => ?_
  rw [contains, new, AList.lookup_empty] at hnew
  cases hnew

end AcceptedShareHashes

end Ratum
