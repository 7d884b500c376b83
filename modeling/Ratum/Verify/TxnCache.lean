import Ratum.Base.Lts
import Ratum.Bitcoin.Hashing
import Ratum.Core.Maps
import Mathlib.Algebra.Group.Nat.Defs
import Mathlib.Data.List.Dedup
import Mathlib.Data.List.Forall2

/-!
# Transactions shared between jobs

`prime/src/txns.rs`: the serializations the jobs of all connections hold, each once, found again by its hash through
a reference that does not keep it. Serializations are numbered as they are allocated, and one is held while a job
names it. Jobs are given their transactions under the lock of the cache, one after the other, and dropped without it.
-/

namespace Ratum

def SWEEP_EVERY : Nat := 2 ^ 16

/-- The serializations by their hashes, as weak references. -/
structure TxnCache where
  held : HashMap Hash Nat
  addedSinceSweep : Nat

namespace TxnCache

/-- A new serialization entered, where `holds` are those a job names and the new one. -/
def add (cache : TxnCache) (key : Hash) (txn : Nat) (holds : Nat → Bool) : TxnCache :=
  let held := cache.held.insert key txn
  if SWEEP_EVERY ≤ cache.addedSinceSweep + 1 then ⟨HashMap.retain held fun _ txn => holds txn, 0⟩
  else ⟨held, cache.addedSinceSweep + 1⟩

end TxnCache

/-- The transactions of a job: the serializations it names, and, which nothing in the source keeps, what it was
given for them. -/
structure InternedTxns where
  txns : List Nat
  given : List Bytes

/-- The serializations allocated, the jobs that name them, and the most that were held at once, which nothing in the
source keeps. -/
structure TxnHeap where
  cache : TxnCache
  serializations : List Bytes
  jobs : List InternedTxns
  peak : Nat

namespace TxnHeap

variable (H : Hashing) (heap : TxnHeap)

def named : List Nat := heap.jobs.flatMap InternedTxns.txns

/-- How many serializations are held. -/
def size : Nat := heap.named.dedup.length

/-- Whose jobs are others. -/
def setJobs (jobs : List InternedTxns) : TxnHeap :=
  { heap with jobs, peak := max heap.peak { heap with jobs }.size }

/-- The serialization held of a key, if a job names it still. -/
def upgrade (key : Hash) : Option Nat := (heap.cache.held.lookup key).filter (· ∈ heap.named)

/-- `TxnCache::intern`: the serialization a transaction is held as. -/
def intern (raw : Bytes) : Nat × TxnHeap :=
  match heap.upgrade (H.sha256d raw) with
  | some txn => (txn, heap)
  | none =>
      let txn := heap.serializations.length
      (txn, { heap with
        serializations := heap.serializations ++ [raw]
        cache := heap.cache.add (H.sha256d raw) txn fun held => held ∈ heap.named || held = txn })

end TxnHeap

/-- A job begins to be given its transactions, is given one, or is dropped. -/
inductive TxnStep (H : Hashing) : TxnHeap → Option Bytes → TxnHeap → Prop
  | start {heap : TxnHeap} : TxnStep H heap none (heap.setJobs (heap.jobs ++ [⟨[], []⟩]))
  | intern {heap : TxnHeap} {before after : List InternedTxns} {job : InternedTxns} (raw : Bytes)
      (hjobs : heap.jobs = before ++ job :: after) :
      TxnStep H heap (some raw)
        ((heap.intern H raw).2.setJobs
          (before ++ ⟨job.txns ++ [(heap.intern H raw).1], job.given ++ [raw]⟩ :: after))
  | drop {heap : TxnHeap} {before after : List InternedTxns} {job : InternedTxns}
      (hjobs : heap.jobs = before ++ job :: after) : TxnStep H heap none (heap.setJobs (before ++ after))

/-- The pool from its start on. -/
def sharingTxns (H : Hashing) : Lts TxnHeap (Option Bytes) where
  init heap := heap = ⟨⟨∅, 0⟩, [], [], 0⟩
  step := TxnStep H

variable {H : Hashing} {heap heap' : TxnHeap} {before after : List InternedTxns} {job : InternedTxns}
  {event : Option Bytes} {trace : List (Option Bytes)}

namespace TxnCache

variable {cache : TxnCache} {key k : Hash} {txn t : Nat} {holds : Nat → Bool}

theorem lookup_of_add (h : (cache.add key txn holds).held.lookup k = some t) :
    k = key ∧ t = txn ∨ cache.held.lookup k = some t := by
  have hinsert : (cache.held.insert key txn).lookup k = some t := by
    unfold add at h
    split at h
    · rw [HashMap.lookup_retain] at h
      exact (Option.filter_eq_some_iff.mp h).1
    · exact h
  obtain rfl | hne := eq_or_ne k key
  · rw [AList.lookup_insert] at hinsert
    exact .inl ⟨rfl, (Option.some.inj hinsert).symm⟩
  · rw [AList.lookup_insert_ne hne] at hinsert
    exact .inr hinsert

/-- A sweep keeps what a job names. -/
theorem lookup_add (h : (cache.held.insert key txn).lookup k = some t) (hholds : holds t = true) :
    (cache.add key txn holds).held.lookup k = some t := by
  unfold add
  split
  · rw [HashMap.lookup_retain]
    exact Option.filter_eq_some_iff.mpr ⟨h, hholds⟩
  · exact h

theorem add_swept : (cache.add key txn holds).addedSinceSweep < SWEEP_EVERY := by
  unfold add
  split
  · exact Nat.two_pow_pos 16
  · rename_i hfew
    exact Nat.lt_of_not_le hfew

/-- After a sweep every entry is of a serialization held; without one there is one more. -/
theorem length_add :
    (cache.add key txn holds).held.keys.length ≤ cache.held.keys.length + 1 ∧
        (cache.add key txn holds).addedSinceSweep = cache.addedSinceSweep + 1 ∨
      ∀ k t, (cache.add key txn holds).held.lookup k = some t → holds t = true := by
  unfold add
  split
  · right
    intro k t hlookup
    rw [HashMap.lookup_retain] at hlookup
    exact (Option.filter_eq_some_iff.mp hlookup).2
  · refine .inl ⟨?_, rfl⟩
    rw [AList.keys_insert, List.length_cons]
    exact Nat.succ_le_succ (@List.length_erase_le _ instBEqOfDecidableEq _ _)

end TxnCache

namespace TxnHeap

/-- A serialization a job names, which hashes as the transaction the job was given. -/
def Holds (H : Hashing) (heap : TxnHeap) (txn : Nat) (raw : Bytes) : Prop :=
  ∃ held, heap.serializations[txn]? = some held ∧ H.sha256d held = H.sha256d raw

/-- What a job names is found by its hash, and the entries are few. -/
structure Sound (H : Hashing) (heap : TxnHeap) : Prop where
  keyed : ∀ key txn, heap.cache.held.lookup key = some txn →
    ∃ raw, heap.serializations[txn]? = some raw ∧ H.sha256d raw = key
  found : ∀ txn ∈ heap.named, ∃ raw, heap.serializations[txn]? = some raw ∧
    heap.cache.held.lookup (H.sha256d raw) = some txn
  given : ∀ job ∈ heap.jobs, List.Forall₂ (heap.Holds H) job.txns job.given
  swept : heap.cache.addedSinceSweep < SWEEP_EVERY
  bounded : heap.cache.held.keys.length ≤ heap.peak + heap.cache.addedSinceSweep

theorem upgrade_eq_some {key : Hash} {txn : Nat} :
    heap.upgrade key = some txn ↔ heap.cache.held.lookup key = some txn ∧ txn ∈ heap.named := by
  rw [upgrade, Option.filter_eq_some_iff, decide_eq_true_iff]

theorem mem_named_middle {txn txn' : Nat} {given : List Bytes} :
    txn' ∈ (before ++ ⟨job.txns ++ [txn], given⟩ :: after).flatMap InternedTxns.txns ↔
      txn' ∈ (before ++ job :: after).flatMap InternedTxns.txns ∨ txn' = txn := by
  simp only [List.flatMap_append, List.flatMap_cons, List.mem_append, List.mem_singleton]
  tauto

/-- Jobs that name no serialization the jobs before did not. -/
theorem Sound.setJobs (h : heap.Sound H) {jobs : List InternedTxns}
    (hnamed : jobs.flatMap InternedTxns.txns ⊆ heap.named)
    (hgiven : ∀ job ∈ jobs, List.Forall₂ (heap.Holds H) job.txns job.given) : (heap.setJobs jobs).Sound H where
  keyed := h.keyed
  found txn hmem := h.found txn (hnamed hmem)
  given := hgiven
  swept := h.swept
  bounded := h.bounded.trans (Nat.add_le_add_right (Nat.le_max_left ..) _)

/-- The entries of a cache that are all of serializations named are no more than these. -/
theorem length_keys_le (hkeyed : ∀ key txn, heap.cache.held.lookup key = some txn →
      ∃ raw, heap.serializations[txn]? = some raw ∧ H.sha256d raw = key)
    (hnamed : ∀ key txn, heap.cache.held.lookup key = some txn → txn ∈ heap.named) :
    heap.cache.held.keys.length ≤ heap.size := by
  have hlookup (entry : Sigma fun _ : Hash => Nat) (hmem : entry ∈ heap.cache.held.entries) :
      heap.cache.held.lookup entry.1 = some entry.2 := AList.mem_lookup_iff.mpr hmem
  have hnodup : (heap.cache.held.entries.map Sigma.snd).Nodup := by
    refine List.Nodup.map_on ?_ (List.Nodup.of_map _ heap.cache.held.nodupKeys)
    rintro ⟨key, txn⟩ hmem ⟨key', txn'⟩ hmem' ⟨⟩
    obtain ⟨raw, hraw, rfl⟩ := hkeyed _ _ (hlookup _ hmem)
    obtain ⟨raw', hraw', rfl⟩ := hkeyed _ _ (hlookup _ hmem')
    obtain rfl := Option.some.inj (hraw.symm.trans hraw')
    rfl
  have hsubset : heap.cache.held.entries.map Sigma.snd ⊆ heap.named.dedup := by
    intro txn hmem
    obtain ⟨entry, hentry, rfl⟩ := List.mem_map.mp hmem
    exact List.mem_dedup.mpr (hnamed entry.1 entry.2 (hlookup entry hentry))
  have hlength := (List.subperm_of_subset hnodup hsubset).length_le
  rw [List.length_map] at hlength
  rw [AList.keys, List.keys, List.length_map]
  exact hlength

/-- A job given one more transaction. -/
theorem given_middle (hjobs : heap.jobs = before ++ job :: after) {txn : Nat} {raw : Bytes}
    (hgiven : ∀ job ∈ heap.jobs, List.Forall₂ (heap'.Holds H) job.txns job.given) (htxn : heap'.Holds H txn raw) :
    ∀ job' ∈ before ++ ⟨job.txns ++ [txn], job.given ++ [raw]⟩ :: after,
      List.Forall₂ (heap'.Holds H) job'.txns job'.given := by
  rw [hjobs] at hgiven
  intro job' hmem
  obtain hbefore | hmem := List.mem_append.mp hmem
  · exact hgiven job' (List.mem_append_left _ hbefore)
  obtain rfl | hafter := List.mem_cons.mp hmem
  · exact List.rel_append (hgiven job (by simp)) (.cons htxn .nil)
  · exact hgiven job' (List.mem_append_right _ (List.mem_cons_of_mem _ hafter))

theorem Sound.intern (h : heap.Sound H) (hjobs : heap.jobs = before ++ job :: after) (raw : Bytes) :
    ((heap.intern H raw).2.setJobs
      (before ++ ⟨job.txns ++ [(heap.intern H raw).1], job.given ++ [raw]⟩ :: after)).Sound H := by
  have hnamed : heap.named = (before ++ job :: after).flatMap InternedTxns.txns := by rw [named, hjobs]
  cases hupgrade : heap.upgrade (H.sha256d raw) with
  | some txn =>
      have hintern : heap.intern H raw = (txn, heap) := by rw [TxnHeap.intern, hupgrade]
      rw [hintern]
      obtain ⟨hlookup, htxn⟩ := upgrade_eq_some.mp hupgrade
      refine h.setJobs (fun txn' hmem => ?_) (given_middle hjobs h.given (h.keyed _ _ hlookup))
      obtain hmem | rfl := mem_named_middle.mp hmem
      · rw [hnamed]
        exact hmem
      · exact htxn
  | none =>
      have hintern : heap.intern H raw = (heap.serializations.length, { heap with
          serializations := heap.serializations ++ [raw]
          cache := heap.cache.add (H.sha256d raw) heap.serializations.length
            fun held => held ∈ heap.named || held = heap.serializations.length }) := by
        rw [TxnHeap.intern, hupgrade]
      rw [hintern]
      have hold {txn : Nat} {held : Bytes} (hheld : heap.serializations[txn]? = some held) :
          (heap.serializations ++ [raw])[txn]? = some held :=
        (List.getElem?_append_left (List.getElem?_eq_some_iff.mp hheld).1).trans hheld
      have hnew : (heap.serializations ++ [raw])[heap.serializations.length]? = some raw :=
        List.getElem?_concat_length
      have hkeyed (key : Hash) (txn : Nat)
          (hlookup : (heap.cache.add (H.sha256d raw) heap.serializations.length
            fun held => held ∈ heap.named || held = heap.serializations.length).held.lookup key = some txn) :
          ∃ held, (heap.serializations ++ [raw])[txn]? = some held ∧ H.sha256d held = key := by
        obtain ⟨rfl, rfl⟩ | hlookup := TxnCache.lookup_of_add hlookup
        · exact ⟨raw, hnew, rfl⟩
        · obtain ⟨held, hheld, hkey⟩ := h.keyed key txn hlookup
          exact ⟨held, hold hheld, hkey⟩
      refine ⟨hkeyed, fun txn hmem => ?_, given_middle hjobs (fun job' hmem => ?_) ⟨raw, hnew, rfl⟩,
        TxnCache.add_swept, ?_⟩
      · obtain hmem | rfl := mem_named_middle.mp hmem
        · rw [← hnamed] at hmem
          obtain ⟨held, hheld, hlookup⟩ := h.found txn hmem
          have hother : H.sha256d held ≠ H.sha256d raw := by
            intro hsame
            rw [hsame] at hlookup
            rw [upgrade_eq_some.mpr ⟨hlookup, hmem⟩] at hupgrade
            cases hupgrade
          refine ⟨held, hold hheld, TxnCache.lookup_add ?_ (by simp [hmem])⟩
          rw [AList.lookup_insert_ne hother, hlookup]
        · exact ⟨raw, hnew, TxnCache.lookup_add (AList.lookup_insert _) (by simp)⟩
      · refine (h.given job' hmem).imp ?_
        rintro txn given ⟨held, hheld, hkey⟩
        exact ⟨held, hold hheld, hkey⟩
      · obtain ⟨hlength, hadded⟩ | hholds := TxnCache.length_add
        · have hroom : heap.cache.held.keys.length + 1 ≤ heap.peak + (heap.cache.addedSinceSweep + 1) :=
            Nat.add_le_add_right h.bounded 1
          rw [← hadded] at hroom
          exact (hlength.trans hroom).trans (Nat.add_le_add_right (Nat.le_max_left ..) _)
        · refine (length_keys_le hkeyed fun key txn hlookup => ?_).trans
            ((Nat.le_max_right ..).trans (Nat.le_add_right ..))
          have hheld := hholds key txn hlookup
          rw [Bool.or_eq_true, decide_eq_true_iff, decide_eq_true_iff, hnamed] at hheld
          exact mem_named_middle.mpr hheld

end TxnHeap

open TxnHeap

theorem TxnStep.sound (hstep : TxnStep H heap event heap') (h : heap.Sound H) : heap'.Sound H := by
  cases hstep with
  | start =>
      refine h.setJobs (fun txn hmem => ?_) fun job hmem => ?_
      · rwa [List.flatMap_append, List.flatMap_singleton, List.append_nil] at hmem
      · obtain hmem | hnew := List.mem_append.mp hmem
        · exact h.given job hmem
        · rw [List.mem_singleton.mp hnew]
          exact .nil
  | intern raw hjobs => exact h.intern hjobs raw
  | drop hjobs =>
      refine h.setJobs (fun txn hmem => ?_) fun job hmem => ?_
      · rw [named, hjobs]
        simp only [List.flatMap_append, List.flatMap_cons, List.mem_append] at hmem ⊢
        tauto
      · refine h.given job ?_
        rw [hjobs]
        simp only [List.mem_append, List.mem_cons] at hmem ⊢
        tauto

theorem sound_of_sharing (hrun : (sharingTxns H).Run trace heap) : heap.Sound H := by
  refine hrun.invariant (I := fun _ heap => heap.Sound H) ?_ fun _ _ _ _ h hstep => TxnStep.sound hstep h
  rintro _ rfl
  exact ⟨fun key txn h => (by cases h), fun txn h => (by cases h), fun job h => (by cases h), Nat.two_pow_pos 16,
    le_rfl⟩

/-- What is held, and what the jobs were given, was given in the run. -/
structure TxnHeap.Given (trace : List (Option Bytes)) (heap : TxnHeap) : Prop where
  serializations : ∀ raw ∈ heap.serializations, some raw ∈ trace
  jobs : ∀ job ∈ heap.jobs, ∀ raw ∈ job.given, some raw ∈ trace

theorem TxnStep.given (hstep : TxnStep H heap event heap') (h : heap.Given trace) :
    heap'.Given (trace ++ [event]) := by
  have hearlier {raw : Bytes} (hmem : some raw ∈ trace) : some raw ∈ trace ++ [event] := List.mem_append_left _ hmem
  cases hstep with
  | start =>
      refine ⟨fun raw hmem => hearlier (h.serializations raw hmem), fun job hmem raw hraw => ?_⟩
      obtain hmem | hnew := List.mem_append.mp hmem
      · exact hearlier (h.jobs job hmem raw hraw)
      · rw [List.mem_singleton.mp hnew] at hraw
        cases hraw
  | @intern before after job raw hjobs =>
      have hlast : some raw ∈ trace ++ [some raw] := List.mem_append_right _ (List.mem_singleton_self _)
      refine ⟨fun raw' hmem => ?_, fun job' hmem raw' hraw => ?_⟩
      · have hserializations : raw' ∈ heap.serializations ++ [raw] := by
          unfold TxnHeap.intern at hmem
          dsimp only [TxnHeap.setJobs] at hmem
          split at hmem
          · exact List.mem_append_left _ hmem
          · exact hmem
        obtain hmem | hnew := List.mem_append.mp hserializations
        · exact hearlier (h.serializations raw' hmem)
        · rw [List.mem_singleton.mp hnew]
          exact hlast
      · have hjob := h.jobs
        rw [hjobs] at hjob
        obtain hbefore | hmem := List.mem_append.mp hmem
        · exact hearlier (hjob job' (List.mem_append_left _ hbefore) raw' hraw)
        obtain rfl | hafter := List.mem_cons.mp hmem
        · obtain hraw | hnew := List.mem_append.mp hraw
          · exact hearlier (hjob job (by simp) raw' hraw)
          · rw [List.mem_singleton.mp hnew]
            exact hlast
        · exact hearlier (hjob job' (List.mem_append_right _ (List.mem_cons_of_mem _ hafter)) raw' hraw)
  | drop hjobs =>
      refine ⟨fun raw hmem => hearlier (h.serializations raw hmem), fun job hmem raw hraw => ?_⟩
      refine hearlier (h.jobs job ?_ raw hraw)
      have hkept := List.mem_append.mp hmem
      rw [hjobs, List.mem_append, List.mem_cons]
      tauto

theorem given_of_sharing (hrun : (sharingTxns H).Run trace heap) : heap.Given trace := by
  refine hrun.invariant (I := TxnHeap.Given) ?_ fun _ _ _ _ h hstep => TxnStep.given hstep h
  rintro _ rfl
  exact ⟨fun raw h => (by cases h), fun job h => (by cases h)⟩

/-- **Each transaction is held once, and every job has its own.** Whatever jobs are given and dropped, on however many
connections: no two serializations that jobs name have one hash; each job names, for the transactions it was given
and in their order, serializations of their hashes, the very transactions unless two of one hash were given; and the
cache has fewer entries than the most serializations held at once and those added between two sweeps. -/
theorem txns_held_once (hrun : (sharingTxns H).Run trace heap) :
    (∀ txn ∈ heap.named, ∀ txn' ∈ heap.named, ∀ raw raw', heap.serializations[txn]? = some raw →
      heap.serializations[txn']? = some raw' → H.sha256d raw = H.sha256d raw' → txn = txn') ∧
    (∀ job ∈ heap.jobs, List.Forall₂ (heap.Holds H) job.txns job.given) ∧
    ((∀ raw raw', some raw ∈ trace → some raw' ∈ trace → H.sha256d raw = H.sha256d raw' → raw = raw') →
      ∀ job ∈ heap.jobs, job.txns.map (heap.serializations[·]?) = job.given.map some) ∧
    heap.cache.held.keys.length < heap.peak + SWEEP_EVERY := by
  have hsound := sound_of_sharing hrun
  refine ⟨fun txn hmem txn' hmem' raw raw' hraw hraw' hsame => ?_, hsound.given, fun hcollision job hjob => ?_, ?_⟩
  · obtain ⟨held, hheld, hlookup⟩ := hsound.found txn hmem
    obtain ⟨held', hheld', hlookup'⟩ := hsound.found txn' hmem'
    obtain rfl := Option.some.inj (hheld.symm.trans hraw)
    obtain rfl := Option.some.inj (hheld'.symm.trans hraw')
    rw [hsame] at hlookup
    exact Option.some.inj (hlookup.symm.trans hlookup')
  · have hgiven := given_of_sharing hrun
    have hjobs := hgiven.jobs job hjob
    have hheld := hsound.given job hjob
    generalize job.txns = txns at hheld
    generalize job.given = raws at hheld hjobs
    induction hheld with
    | nil => rfl
    | @cons txn raw txns raws hhead htail ih =>
        obtain ⟨held, hheld, hsame⟩ := hhead
        have hmem := hgiven.serializations held (List.mem_of_getElem? hheld)
        have hraw := hcollision held raw hmem (hjobs raw List.mem_cons_self) hsame
        rw [List.map_cons, List.map_cons, hheld, hraw, ih fun raw hmem => hjobs raw (List.mem_cons_of_mem _ hmem)]
  · exact hsound.bounded.trans_lt (Nat.add_lt_add_left hsound.swept _)

/-- A transaction given to two jobs, of which the first is dropped. -/
theorem txns_held_once_for_two : ∃ (trace : List (Option Bytes)) (heap : TxnHeap),
    (sharingTxns ⟨fun _ => Vector.replicate _ 0, fun _ => Vector.replicate _ 0⟩).Run trace heap ∧
      heap.jobs = [⟨[0], [[1]]⟩] ∧ heap.serializations = [[1]] ∧
      heap.cache.held.keys.length < heap.peak + SWEEP_EVERY := by
  have start : (sharingTxns ⟨fun _ => Vector.replicate _ 0, fun _ => Vector.replicate _ 0⟩).Run [] _ := .start rfl
  have first := (start.next .start).next (@TxnStep.intern _ _ [] [] ⟨[], []⟩ [1] rfl)
  have second := (first.next .start).next (@TxnStep.intern _ _ [⟨[0], [[1]]⟩] [] ⟨[], []⟩ [1] rfl)
  have dropped := second.next (@TxnStep.drop _ _ [] [⟨[0], [[1]]⟩] ⟨[0], [[1]]⟩ rfl)
  exact ⟨_, _, dropped, rfl, rfl, (txns_held_once dropped).2.2.2⟩

end Ratum
