import Mathlib.Data.List.AList

/-!
# Maps, and the map that forgets its oldest entry

`BoundedMap` and `BoundedSet` of `prime/src/bounded.rs`, over maps whose iteration order nothing depends
on.
-/

namespace Ratum

/-- A `HashMap` whose iteration order nothing depends on. -/
abbrev HashMap (K V : Type) := AList fun _ : K => V

variable {K V : Type} [DecidableEq K]

/-- `HashMap::retain`. -/
def HashMap.retain (map : HashMap K V) (keep : K → V → Bool) : HashMap K V :=
  ⟨map.entries.filter fun entry => keep entry.1 entry.2,
    map.nodupKeys.sublist List.filter_sublist⟩

theorem HashMap.lookup_retain (map : HashMap K V) (keep : K → V → Bool) (k : K) :
    AList.lookup k (map.retain keep) = (map.lookup k).filter (keep k) := by
  ext v
  have hleft : AList.lookup k (map.retain keep) = some v ↔
      Sigma.mk k v ∈ (map.retain keep).entries := List.mem_dlookup_iff (map.retain keep).nodupKeys
  have hright : map.lookup k = some v ↔ Sigma.mk k v ∈ map.entries :=
    List.mem_dlookup_iff map.nodupKeys
  rw [hleft, Option.filter_eq_some_iff, hright]
  exact List.mem_filter

structure BoundedMap (K V : Type) where
  entries : HashMap K V
  /-- The keys held, oldest first. -/
  order : List K
  capacity : Nat

namespace BoundedMap

def new (capacity : Nat) : BoundedMap K V := ⟨∅, [], max capacity 1⟩

def get (map : BoundedMap K V) (key : K) : Option V := map.entries.lookup key

/-- The loop that removes the oldest entries past the capacity. -/
def shed (capacity : Nat) (entries : HashMap K V) : List K → HashMap K V × List K
  | [] => (entries, [])
  | oldest :: order =>
      if capacity < entries.keys.length then shed capacity (entries.erase oldest) order
      else (entries, oldest :: order)

def insert (map : BoundedMap K V) (key : K) (value : V) : Option V × BoundedMap K V :=
  let replaced := map.entries.lookup key
  let order := if replaced.isSome then map.order.erase key else map.order
  let (entries, order) := shed map.capacity (map.entries.insert key value) (order ++ [key])
  (replaced, { map with entries, order })

def remove (map : BoundedMap K V) (key : K) : Option V × BoundedMap K V :=
  match map.entries.lookup key with
  | none => (none, map)
  | some removed =>
      (some removed, { map with entries := map.entries.erase key, order := map.order.erase key })

def retain (map : BoundedMap K V) (keep : K → V → Bool) : BoundedMap K V :=
  let entries := map.entries.retain keep
  { map with entries, order := map.order.filter fun key => (entries.lookup key).isSome }

theorem lookup_shed {capacity : Nat} {entries : HashMap K V} {order : List K} {key : K} {value : V}
    (h : (shed capacity entries order).1.lookup key = some value) :
    entries.lookup key = some value := by
  induction order generalizing entries with
  | nil => exact h
  | cons oldest order ih =>
      rw [shed] at h
      split at h
      · have hlookup := ih h
        by_cases heq : key = oldest
        · subst heq
          rw [AList.lookup_erase] at hlookup
          cases hlookup
        · rwa [AList.lookup_erase_ne heq] at hlookup
      · exact h

/-- What is held after an insertion is what was inserted, or was held before. -/
theorem get_insert {map : BoundedMap K V} {key k : K} {value v : V}
    (h : (map.insert key value).2.get k = some v) :
    k = key ∧ v = value ∨ map.get k = some v := by
  have hlookup : (map.entries.insert key value).lookup k = some v := lookup_shed h
  by_cases heq : k = key
  · subst heq
    rw [AList.lookup_insert] at hlookup
    exact .inl ⟨rfl, (Option.some.inj hlookup).symm⟩
  · rw [AList.lookup_insert_ne heq] at hlookup
    exact .inr hlookup

theorem get_remove {map : BoundedMap K V} {key k : K} {v : V}
    (h : (map.remove key).2.get k = some v) : map.get k = some v := by
  unfold remove at h
  split at h
  · exact h
  · by_cases heq : k = key
    · subst heq
      rw [get, AList.lookup_erase] at h
      cases h
    · rwa [get, AList.lookup_erase_ne heq] at h

theorem get_retain {map : BoundedMap K V} {keep : K → V → Bool} {k : K} {v : V}
    (h : (map.retain keep).get k = some v) : map.get k = some v := by
  have hlookup : (map.entries.lookup k).filter (keep k) = some v := by
    rw [← HashMap.lookup_retain]
    exact h
  exact (Option.filter_eq_some_iff.mp hlookup).1

end BoundedMap

/-- A set that forgets its oldest member. -/
abbrev BoundedSet (T : Type) := BoundedMap T Unit

namespace BoundedSet

variable {T : Type} [DecidableEq T]

def contains (set : BoundedSet T) (value : T) : Bool := (BoundedMap.get set value).isSome

def insert (set : BoundedSet T) (value : T) : Bool × BoundedSet T :=
  if (BoundedMap.get set value).isSome then (false, set)
  else (true, (BoundedMap.insert set value ()).2)

def remove (set : BoundedSet T) (value : T) : Bool × BoundedSet T :=
  let (removed, set) := BoundedMap.remove set value
  (removed.isSome, set)

end BoundedSet
end Ratum
