import Mathlib.Data.List.AList

/-!
# Records kept as the rows of a table

A table holds one row for each key. A format says under which key a record goes, how it is packed, and
what a row reads back as. A table keeps a list of records when its rows are theirs, in any order; then
the rows read back as the records, and one record stands under each key.
-/

structure RowFormat (R K V : Type*) where
  key : R → K
  pack : R → V
  unpack : K → V → Option R

namespace RowFormat

variable {R K V : Type*} (format : RowFormat R K V)

def row (r : R) : Σ _ : K, V := ⟨format.key r, format.pack r⟩

/-- The record is what its row reads back as. -/
def Reads (r : R) : Prop := format.unpack (format.key r) (format.pack r) = some r

/-- The records the rows read back as; a row that does not unpack is skipped. -/
def readAll (rows : List (Σ _ : K, V)) : List R :=
  rows.filterMap fun entry => format.unpack entry.1 entry.2

theorem readAll_map_row {records : List R} (hreads : ∀ r ∈ records, format.Reads r) :
    format.readAll (records.map format.row) = records := by
  induction records with
  | nil => rfl
  | cons r records ih =>
      rw [List.forall_mem_cons] at hreads
      have hrow : format.unpack (format.row r).1 (format.row r).2 = some r := hreads.1
      rw [List.map_cons, readAll, List.filterMap_cons, hrow]
      exact congrArg (r :: ·) (ih hreads.2)

/-- The table's rows are the rows of the records. -/
structure Keeps (table : AList fun _ : K => V) (records : List R) : Prop where
  rows : table.entries.Perm (records.map format.row)
  reads : ∀ r ∈ records, format.Reads r

namespace Keeps

variable {format} {table : AList fun _ : K => V} {records : List R}

theorem empty : format.Keeps (∅ : AList fun _ : K => V) [] :=
  ⟨List.Perm.refl _, fun _ h => absurd h List.not_mem_nil⟩

theorem perm {records' : List R} (h : format.Keeps table records) (hperm : records.Perm records') :
    format.Keeps table records' :=
  ⟨h.rows.trans (hperm.map _), fun r hr => h.reads r (hperm.mem_iff.mpr hr)⟩

/-- What is read back is what is kept. -/
theorem readAll (h : format.Keeps table records) : (format.readAll table.entries).Perm records := by
  have hperm := h.rows.filterMap fun entry => format.unpack entry.1 entry.2
  exact hperm.trans (List.Perm.of_eq (format.readAll_map_row h.reads))

theorem keys (h : format.Keeps table records) : table.keys.Perm (records.map format.key) := by
  have hkeys := h.rows.map Sigma.fst
  rw [List.map_map] at hkeys
  exact hkeys

theorem nodup (h : format.Keeps table records) : (records.map format.key).Nodup :=
  h.keys.nodup_iff.mp table.keys_nodup

theorem mem_table (h : format.Keeps table records) {k : K} :
    k ∈ table ↔ ∃ r ∈ records, format.key r = k := by
  rw [AList.mem_keys, h.keys.mem_iff, List.mem_map]

variable [DecidableEq K]

theorem erase_of_notMem {table : AList fun _ : K => V} {k : K} (h : k ∉ table) :
    table.erase k = table :=
  AList.ext (List.kerase_of_notMem_keys h)

theorem entries_erase (table : AList fun _ : K => V) (k : K) :
    (table.erase k).entries = table.entries.filter (·.1 ≠ k) := by
  change table.entries.kerase k = _
  obtain ⟨entries, hnodup⟩ := table
  induction entries with
  | nil => rfl
  | cons entry entries ih =>
      obtain ⟨hkey, hentries⟩ := List.nodupKeys_cons.mp hnodup
      change List.kerase k (entry :: entries) = (entry :: entries).filter (·.1 ≠ k)
      by_cases heq : k = entry.1
      · rw [List.kerase_cons_eq heq, List.filter_cons_of_neg (by simp [heq])]
        symm
        apply List.filter_eq_self.mpr
        intro other hother
        have hne : other.1 ≠ entry.1 := fun hsame => hkey (hsame ▸ List.mem_keys_of_mem hother)
        simpa [heq] using hne
      · rw [List.kerase_cons_ne heq, List.filter_cons_of_pos (by simpa using Ne.symm heq),
          ih hentries]

/-- Removing a row removes the record under its key. -/
theorem erase (h : format.Keeps table records) (k : K) :
    format.Keeps (table.erase k) (records.filter (format.key · ≠ k)) := by
  refine ⟨?_, fun r hr => h.reads r (List.mem_of_mem_filter hr)⟩
  rw [entries_erase]
  have hfilter := h.rows.filter (·.1 ≠ k)
  rw [List.filter_map] at hfilter
  exact hfilter

/-- Writing a row replaces the record under its key. -/
theorem insert (h : format.Keeps table records) {r : R} (hr : format.Reads r) :
    format.Keeps (table.insert (format.key r) (format.pack r))
      (r :: records.filter (format.key · ≠ format.key r)) := by
  have herase := h.erase (format.key r)
  exact ⟨herase.rows.cons (format.row r), List.forall_mem_cons.mpr ⟨hr, herase.reads⟩⟩

theorem filter_key_ne {k : K} (hnew : ∀ r ∈ records, format.key r ≠ k) :
    records.filter (format.key · ≠ k) = records :=
  List.filter_eq_self.mpr fun r hr => by simpa using hnew r hr

/-- Writing a row under a key no record has. -/
theorem push (h : format.Keeps table records) {r : R} (hr : format.Reads r)
    (hnew : ∀ held ∈ records, format.key held ≠ format.key r) :
    format.Keeps (table.insert (format.key r) (format.pack r)) (records ++ [r]) := by
  have hinsert := h.insert hr
  rw [filter_key_ne hnew] at hinsert
  exact hinsert.perm (List.perm_append_singleton r records).symm

/-- Writing a row under the key of a record it takes the place of. -/
theorem replace {before after : List R} {r r' : R}
    (h : format.Keeps table (before ++ r :: after)) (hr' : format.Reads r')
    (hkey : format.key r' = format.key r) :
    format.Keeps (table.insert (format.key r') (format.pack r')) (before ++ r' :: after) := by
  have hfirst := h.perm List.perm_middle
  have hnodup := hfirst.nodup
  rw [List.map_cons, List.nodup_cons] at hnodup
  have hrest : ∀ held ∈ before ++ after, format.key held ≠ format.key r' := by
    intro held hheld heq
    apply hnodup.1
    rw [← hkey, ← heq]
    exact List.mem_map_of_mem hheld
  have hinsert := hfirst.insert hr'
  rw [List.filter_cons_of_neg (by simp [hkey]), filter_key_ne hrest] at hinsert
  exact hinsert.perm List.perm_middle.symm

end Keeps
end RowFormat

/-! ### The position of a record in a list -/

namespace List

variable {α κ : Type*}

/-- The first element a predicate finds, with what is before and after it. -/
theorem append_cons_of_findIdx? {p : α → Bool} {l : List α} {i : Nat} (h : l.findIdx? p = some i) :
    ∃ before x after, l = before ++ x :: after ∧ before.length = i ∧ p x := by
  induction l generalizing i with
  | nil => cases h
  | cons y l ih =>
      rw [findIdx?_cons] at h
      by_cases hy : p y
      · rw [if_pos hy] at h
        exact ⟨[], y, l, rfl, Option.some.inj h, hy⟩
      · rw [if_neg hy, Option.map_eq_some_iff] at h
        obtain ⟨j, hj, rfl⟩ := h
        obtain ⟨before, x, after, rfl, hlen, hx⟩ := ih hj
        exact ⟨y :: before, x, after, rfl, congrArg (· + 1) hlen, hx⟩

/-- Removing the element at the position of a key, where each key stands once. -/
theorem eraseIdx_findIdx? [DecidableEq κ] {f : α → κ} {l : List α} (hnodup : (l.map f).Nodup)
    (k : κ) : (l.findIdx? (f · = k)).elim l l.eraseIdx = l.filter (f · ≠ k) := by
  induction l with
  | nil => rfl
  | cons y l ih =>
      rw [map_cons, nodup_cons] at hnodup
      obtain ⟨hnew, hnodup⟩ := hnodup
      rw [findIdx?_cons]
      by_cases hy : f y = k
      · have hrest : l.filter (f · ≠ k) = l := by
          apply filter_eq_self.mpr
          intro x hx
          have hne : f x ≠ f y := fun hsame => hnew (hsame ▸ mem_map_of_mem hx)
          simpa [hy] using hne
        rw [if_pos (by simpa using hy), filter_cons_of_neg (by simpa using hy), hrest]
        rfl
      · rw [if_neg (by simpa using hy), filter_cons_of_pos (by simpa using hy), ← ih hnodup]
        cases l.findIdx? (f · = k) <;> rfl

end List
