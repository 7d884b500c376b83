import Ratum.Ledger.Contents

/-!
# The compact window refines a log of whole shares

Pushing a share onto a compact window that holds a log gives one that holds the log with the share
added, and dropping the oldest gives one that holds the rest of the log, whatever indexes are released
and taken again on the way.
-/

namespace Ratum

namespace Identities

variable {t : Identities} {log : List Share}

@[simp] theorem entry_modifyEntry (t : Identities) (i j : Nat) (f : IdentityEntry → IdentityEntry) :
    (t.modifyEntry i f).entry j = if i = j then (t.entry j).map f else t.entry j := by
  simp only [entry, modifyEntry, List.getElem?_modify]
  cases t.entries[j]? with
  | none => simp
  | some o => by_cases h : i = j <;> simp [h]

@[simp] theorem byName_modifyEntry (t : Identities) (i : Nat) (f : IdentityEntry → IdentityEntry) :
    (t.modifyEntry i f).byName = t.byName := rfl

@[simp] theorem free_modifyEntry (t : Identities) (i : Nat) (f : IdentityEntry → IdentityEntry) :
    (t.modifyEntry i f).free = t.free := rfl

@[simp] theorem length_entries_modifyEntry (t : Identities) (i : Nat)
    (f : IdentityEntry → IdentityEntry) :
    (t.modifyEntry i f).entries.length = t.entries.length := by
  simp [modifyEntry]

theorem lt_of_entry {i : Nat} {e : IdentityEntry} (h : t.entry i = some e) :
    i < t.entries.length := by
  by_contra hge
  rw [entry, List.getElem?_eq_none (by omega)] at h
  simp at h

theorem name_eq_some {i : Nat} {name : String} :
    t.name i = some name ↔ ∃ e, t.entry i = some e ∧ e.name = name := by
  simp [Identities.name]

theorem Tallies.index_unique (h : t.Tallies log) {i j : Nat} {e e' : IdentityEntry}
    (hi : t.entry i = some e) (hj : t.entry j = some e') (hname : e.name = e'.name) : i = j := by
  have hlookup := (h.byName e'.name i).mpr ⟨e, hi, hname⟩
  rw [(h.byName e'.name j).mpr ⟨e', hj, rfl⟩] at hlookup
  exact (Option.some.inj hlookup).symm

theorem fresh_counts {name : String} (hnone : credited name log = []) :
    (IdentityEntry.fresh name).Counts log := by
  constructor <;> simp [IdentityEntry.fresh, hnone]

theorem entry_append (byName byName' : HashMap String Nat) (entries : List (Option IdentityEntry))
    (free free' : List Nat) (e : IdentityEntry) (j : Nat) :
    entry ⟨byName, entries ++ [some e], free⟩ j =
      if j = entries.length then some e else entry ⟨byName', entries, free'⟩ j := by
  simp only [entry, List.getElem?_append, List.getElem?_singleton]
  by_cases hj : j < entries.length
  · simp [hj, hj.ne]
  · by_cases heq : j = entries.length
    · simp [heq]
    · have : j - entries.length ≠ 0 := by omega
      simp [hj, heq, this]

theorem entry_set (byName byName' : HashMap String Nat) {entries : List (Option IdentityEntry)}
    (free free' : List Nat) (o : Option IdentityEntry) {i : Nat} (hi : i < entries.length) (j : Nat) :
    entry ⟨byName, entries.set i o, free⟩ j = if j = i then o else entry ⟨byName', entries, free'⟩ j := by
  simp only [entry, List.getElem?_set]
  by_cases hj : i = j
  · subst hj
    simp [hi]
  · simp [hj, Ne.symm hj]

/-- What taking the index `i` for a name not held does to a table. -/
structure Takes (t : Identities) (name : String) (i : Nat) (t' : Identities) : Prop where
  entry_none : t.entry i = none
  entry_self : t'.entry i = some (.fresh name)
  entry_ne : ∀ j, j ≠ i → t'.entry j = t.entry j
  byName : t'.byName = t.byName.insert name i
  free_nodup : t'.free.Nodup
  mem_free : ∀ j, j ∈ t'.free ↔ j < t'.entries.length ∧ t'.entry j = none

theorem indexOf_takes (h : t.Tallies log) {name : String} (hnone : t.byName.lookup name = none) :
    Takes t name (t.indexOf name).1 (t.indexOf name).2 := by
  cases hfree : t.free with
  | nil =>
      have hfull : ∀ j, j < t.entries.length → t.entry j ≠ none := by
        intro j hj hnone
        have := (h.mem_free j).mpr ⟨hj, hnone⟩
        simp [hfree] at this
      have hentry : ∀ j, (t.indexOf name).2.entry j =
          if j = t.entries.length then some (.fresh name) else t.entry j := by
        intro j
        simp only [indexOf, hnone, hfree]
        exact entry_append _ t.byName _ _ t.free _ j
      have hindex : (t.indexOf name).1 = t.entries.length := by simp [indexOf, hnone, hfree]
      have hfree' : (t.indexOf name).2.free = [] := by simp [indexOf, hnone, hfree]
      have hlength : (t.indexOf name).2.entries.length = t.entries.length + 1 := by
        simp [indexOf, hnone, hfree]
      refine ⟨?_, ?_, ?_, by simp [indexOf, hnone, hfree], by simp [hfree'], ?_⟩
      · simp [hindex, entry]
      · simp [hentry, hindex]
      · intro j hj
        rw [hentry, if_neg (hindex ▸ hj)]
      · intro j
        rw [hfree', hlength, hentry]
        simp only [List.not_mem_nil, false_iff, not_and]
        intro hj
        split
        · simp
        · exact hfull j (by omega)
  | cons i free =>
      obtain ⟨hi, hinone⟩ := (h.mem_free i).mp (by simp [hfree])
      have hentry : ∀ j, (t.indexOf name).2.entry j =
          if j = i then some (.fresh name) else t.entry j := by
        intro j
        simp only [indexOf, hnone, hfree]
        exact entry_set _ t.byName _ t.free _ hi j
      have hindex : (t.indexOf name).1 = i := by simp [indexOf, hnone, hfree]
      have hfree' : (t.indexOf name).2.free = free := by simp [indexOf, hnone, hfree]
      have hlength : (t.indexOf name).2.entries.length = t.entries.length := by
        simp [indexOf, hnone, hfree]
      have hnodup := h.free_nodup
      rw [hfree, List.nodup_cons] at hnodup
      refine ⟨by rw [hindex]; exact hinone, by simp [hentry, hindex], ?_,
        by simp [indexOf, hnone, hfree], by rw [hfree']; exact hnodup.2, ?_⟩
      · intro j hj
        rw [hentry, if_neg (hindex ▸ hj)]
      · intro j
        rw [hfree', hlength, hentry]
        have hmem := h.mem_free j
        rw [hfree, List.mem_cons] at hmem
        by_cases hj : j = i
        · subst hj
          simp [hnodup.1]
        · simpa [hj] using hmem

theorem Takes.tallies {name : String} {i : Nat} {t' : Identities} (htakes : Takes t name i t')
    (h : t.Tallies log) (hnone : t.byName.lookup name = none) (hcredited : credited name log = []) :
    t'.Tallies log := by
  refine ⟨?_, ?_, htakes.free_nodup, htakes.mem_free⟩
  · intro name' j
    rw [htakes.byName]
    by_cases hname : name' = name
    · subst hname
      rw [AList.lookup_insert]
      constructor
      · intro hij
        cases hij
        exact ⟨_, htakes.entry_self, rfl⟩
      · rintro ⟨e, he, hename⟩
        by_cases hj : j = i
        · rw [hj]
        · rw [htakes.entry_ne j hj] at he
          have := (h.byName name' j).mpr ⟨e, he, hename⟩
          rw [hnone] at this
          cases this
    · rw [AList.lookup_insert_ne hname, h.byName]
      by_cases hj : j = i
      · subst hj
        rw [htakes.entry_none, htakes.entry_self]
        constructor
        · rintro ⟨_, he, _⟩
          cases he
        · rintro ⟨e, he, hename⟩
          cases he
          exact absurd hename.symm hname
      · rw [htakes.entry_ne j hj]
  · intro j e he
    by_cases hj : j = i
    · rw [hj, htakes.entry_self] at he
      cases he
      exact fresh_counts hcredited
    · rw [htakes.entry_ne j hj] at he
      exact h.counts j e he

/-- Taking the index of a name leaves every name held under its index. -/
theorem indexOf_spec (h : t.Tallies log) (name : String)
    (hheld : credited name log ≠ [] → ∃ i, t.name i = some name) :
    (t.indexOf name).2.Tallies log ∧ (t.indexOf name).2.name (t.indexOf name).1 = some name ∧
      (∀ j n, t.name j = some n → (t.indexOf name).2.name j = some n) ∧
      (∀ j, j ≠ (t.indexOf name).1 → (t.indexOf name).2.entry j = t.entry j) := by
  cases hlookup : t.byName.lookup name with
  | some i =>
      have hindex : t.indexOf name = (i, t) := by simp [indexOf, hlookup]
      rw [hindex]
      exact ⟨h, name_eq_some.mpr ((h.byName name i).mp hlookup), fun _ _ hj => hj, fun _ _ => rfl⟩
  | none =>
      have hcredited : credited name log = [] := by
        by_contra hne
        obtain ⟨i, hi⟩ := hheld hne
        rw [(h.byName name i).mpr (name_eq_some.mp hi)] at hlookup
        cases hlookup
      have htakes := indexOf_takes h hlookup
      refine ⟨htakes.tallies h hlookup hcredited, ?_, ?_, htakes.entry_ne⟩
      · exact name_eq_some.mpr ⟨_, htakes.entry_self, rfl⟩
      · intro j n hj
        have hne : j ≠ (t.indexOf name).1 := by
          rintro rfl
          rw [Identities.name, htakes.entry_none] at hj
          cases hj
        rw [Identities.name, htakes.entry_ne j hne]
        exact hj

/-- Updating one entry's counts to another log, when the others' stand. -/
theorem Tallies.modifyEntry (h : t.Tallies log) {i : Nat} {f : IdentityEntry → IdentityEntry}
    {log' : List Share} (hname : ∀ e, (f e).name = e.name)
    (hself : ∀ e, t.entry i = some e → (f e).Counts log')
    (hother : ∀ j e, j ≠ i → t.entry j = some e → e.Counts log') :
    (t.modifyEntry i f).Tallies log' := by
  refine ⟨?_, ?_, h.free_nodup, ?_⟩
  · intro name j
    rw [byName_modifyEntry, h.byName, entry_modifyEntry]
    split
    · simp [hname]
    · rfl
  · intro j e he
    rw [entry_modifyEntry] at he
    split at he
    · next hij =>
        subst hij
        obtain ⟨e', he', rfl⟩ := Option.map_eq_some_iff.mp he
        exact hself e' he'
    · next hij => exact hother j e (Ne.symm hij) he
  · intro j
    rw [free_modifyEntry, h.mem_free, length_entries_modifyEntry, entry_modifyEntry]
    split <;> simp

theorem name_modifyEntry {i : Nat} {f : IdentityEntry → IdentityEntry}
    (hname : ∀ e, (f e).name = e.name) (j : Nat) : (t.modifyEntry i f).name j = t.name j := by
  rw [Identities.name, Identities.name, entry_modifyEntry]
  split
  · cases t.entry j <;> simp [hname]
  · rfl

/-- Releasing the index of an identity the log does not credit. -/
theorem Tallies.release (h : t.Tallies log) {i : Nat} {e : IdentityEntry}
    (he : t.entry i = some e) :
    (t.release i).Tallies log ∧ (t.release i).entry i = none ∧
      ∀ j, j ≠ i → (t.release i).entry j = t.entry j := by
  have hi := lt_of_entry he
  have hentry : ∀ j, (t.release i).entry j = if j = i then none else t.entry j := by
    intro j
    simp only [Identities.release, he]
    exact entry_set _ t.byName _ t.free _ hi j
  have hbyName : (t.release i).byName = t.byName.erase e.name := by simp [Identities.release, he]
  have hfree : (t.release i).free = i :: t.free := by simp [Identities.release, he]
  have hlength : (t.release i).entries.length = t.entries.length := by
    simp [Identities.release, he]
  refine ⟨⟨?_, ?_, ?_, ?_⟩, by simp [hentry], fun j hj => by simp [hentry, hj]⟩
  · intro name j
    rw [hbyName, hentry]
    by_cases hname : name = e.name
    · subst hname
      rw [AList.lookup_erase]
      constructor
      · intro hnone
        cases hnone
      · rintro ⟨e', he', hname⟩
        split at he'
        · cases he'
        · next hj => exact absurd (h.index_unique he' he hname) hj
    · rw [AList.lookup_erase_ne hname, h.byName]
      by_cases hj : j = i
      · subst hj
        simp [he, Ne.symm hname]
      · simp [hj]
  · intro j e' he'
    rw [hentry] at he'
    split at he'
    · cases he'
    · exact h.counts j e' he'
  · rw [hfree, List.nodup_cons]
    refine ⟨fun hmem => ?_, h.free_nodup⟩
    have := ((h.mem_free i).mp hmem).2
    rw [he] at this
    cases this
  · intro j
    rw [hfree, hlength, hentry, List.mem_cons, h.mem_free]
    by_cases hj : j = i
    · subst hj
      simp [hi]
    · simp [hj]

/-- Releasing an entry forgets what was done to it. -/
theorem release_modifyEntry {i : Nat} {e : IdentityEntry} (he : t.entry i = some e)
    {f : IdentityEntry → IdentityEntry} (hname : ∀ e, (f e).name = e.name) :
    (t.modifyEntry i f).release i = t.release i := by
  have he' : (t.modifyEntry i f).entry i = some (f e) := by simp [he]
  simp only [Identities.release, he, he', hname]
  simp only [Identities.modifyEntry, Identities.mk.injEq, and_true, true_and]
  apply List.ext_getElem?
  intro j
  simp only [List.getElem?_set, List.getElem?_modify, List.length_modify]
  by_cases hj : i = j <;> simp [hj]

theorem Tallies.of_counts (h : t.Tallies log) {log' : List Share}
    (hcounts : ∀ i e, t.entry i = some e → e.Counts log') : t.Tallies log' :=
  ⟨h.byName, hcounts, h.free_nodup, h.mem_free⟩

end Identities

theorem IdentityEntry.Counts.of_credited {e : IdentityEntry} {log log' : List Share}
    (h : e.Counts log) (heq : credited e.name log' = credited e.name log) : e.Counts log' := by
  constructor
  · rw [heq, h.shares]
  · rw [heq, h.work]
  · rw [heq, h.tag]

namespace Contents

variable {c : Contents} {log : List Share}

theorem empty_holds : empty.Holds [] := by
  refine ⟨.nil, ⟨?_, ?_, by simp [empty, Identities.empty], ?_⟩, ?_, rfl⟩
  all_goals simp [empty, Identities.empty, Identities.entry]

theorem Holds.length (h : c.Holds log) : c.shares.length = log.length := h.shares.length_eq

/-- Every share of the log is named in the table. -/
theorem Holds.named (h : c.Holds log) {name : String} (hcredited : credited name log ≠ []) :
    ∃ i, c.identities.name i = some name := by
  obtain ⟨share, hshare⟩ := List.exists_mem_of_ne_nil _ hcredited
  obtain ⟨hmem, hname⟩ := List.mem_filter.mp hshare
  have hname : share.identity = name := by simpa using hname
  obtain ⟨i, hi, rfl⟩ := List.mem_iff_getElem.mp hmem
  have hnames := h.shares.get (h.shares.length_eq ▸ hi) hi
  exact ⟨_, hname ▸ hnames.identity⟩

theorem Counts.push {e : IdentityEntry} (h : e.Counts log) {share : Share}
    (hname : e.name = share.identity) :
    (e.credit share).Counts (log ++ [share]) := by
  have hcredited : credited e.name (log ++ [share]) = credited e.name log ++ [share] := by
    rw [credited_append, hname, credited_cons_self]
    rfl
  constructor
  · simp [IdentityEntry.credit, hcredited, h.shares]
  · simp [IdentityEntry.credit, hcredited, h.work]
  · simp [IdentityEntry.credit, hcredited]

/-- **Pushing a share** adds it to the log held. -/
theorem push_holds (h : c.Holds log) (share : Share) : (c.push share).Holds (log ++ [share]) := by
  obtain ⟨htallies, hname, hnames, hentry⟩ :=
    Identities.indexOf_spec h.tallies share.identity h.named
  obtain ⟨e, he, hename⟩ := Identities.name_eq_some.mp hname
  have hother : ∀ j e', j ≠ (c.identities.indexOf share.identity).1 →
      (c.identities.indexOf share.identity).2.entry j = some e' → e'.name ≠ share.identity := by
    intro j e' hj he' hname'
    exact hj (htallies.index_unique he' he (hname'.trans hename.symm))
  have hpush : c.push share = ⟨c.shares ++ [.new share (c.identities.indexOf share.identity).1],
      (c.identities.indexOf share.identity).2.modifyEntry (c.identities.indexOf share.identity).1
        (IdentityEntry.credit share), c.totalWork + share.work⟩ := rfl
  have hnamed := fun j => Identities.name_modifyEntry
    (t := (c.identities.indexOf share.identity).2) (i := (c.identities.indexOf share.identity).1)
    (IdentityEntry.name_credit share) j
  rw [hpush]
  refine ⟨?_, ?_, ?_, ?_⟩
  · refine List.rel_append ?_ (.cons ⟨rfl, rfl, (hnamed _).trans hname⟩ .nil)
    exact h.shares.imp fun w s hw =>
      ⟨hw.difficulty, hw.acceptedAt, (hnamed _).trans (hnames _ _ hw.identity)⟩
  · refine htallies.modifyEntry (IdentityEntry.name_credit share) ?_ ?_
    · intro e' he'
      rw [he] at he'
      cases he'
      exact Counts.push (htallies.counts _ _ he) hename
    · intro j e' hj he'
      refine (htallies.counts j e' he').of_credited ?_
      rw [credited_append, credited_cons_ne (Ne.symm (hother j e' hj he'))]
      simp [credited]
  · intro j e' he'
    rw [Identities.entry_modifyEntry] at he'
    rw [credited_append]
    split at he'
    · next hij =>
        obtain ⟨e'', he'', rfl⟩ := Option.map_eq_some_iff.mp he'
        rw [← hij, he] at he''
        cases he''
        simp [hename, credited_cons_self]
    · next hij =>
        rw [hentry j (Ne.symm hij)] at he'
        have := h.occupied j e' he'
        simp [this]
  · simp [h.totalWork]

theorem Counts.drop {e : IdentityEntry} {share : Share} (h : e.Counts (share :: log))
    (hname : e.name = share.identity) (hmore : credited e.name log ≠ []) :
    (e.debit share.work).Counts log := by
  have hcredited : credited e.name (share :: log) = share :: credited e.name log := by
    rw [hname, credited_cons_self]
  have hshares := h.shares
  have hwork := h.work
  have htag := h.tag
  rw [hcredited] at hshares hwork htag
  constructor
  · simp [IdentityEntry.debit, hshares]
  · simp [IdentityEntry.debit, hwork]
  · obtain ⟨first, rest, hrest⟩ := List.exists_cons_of_ne_nil hmore
    rw [hrest] at htag
    simpa [IdentityEntry.debit, hrest] using htag

/-- **Dropping the oldest share** leaves the rest of the log held; its index is released with the
last share of its identity. -/
theorem dropOldest_holds {share : Share} (h : c.Holds (share :: log)) :
    c.dropOldest.Holds log := by
  obtain ⟨w, rest, hnames, hrest, hshares⟩ := List.forall₂_cons_right_iff.mp h.shares
  obtain ⟨e, he, hename⟩ := Identities.name_eq_some.mp hnames.identity
  have hcounts := h.tallies.counts _ _ he
  have hwork : w.work = share.work := by rw [WindowShare.work, Share.work, hnames.difficulty]
  have hcredited : credited e.name (share :: log) = share :: credited e.name log := by
    rw [hename, credited_cons_self]
  have hother : ∀ j e', j ≠ w.credit → c.identities.entry j = some e' →
      credited e'.name (share :: log) = credited e'.name log := by
    intro j e' hj he'
    apply credited_cons_ne
    intro hname
    exact hj (h.tallies.index_unique he' he (by rw [hename, hname]))
  have htotal : c.totalWork - w.work = Suffix.total Share.work log := by
    rw [h.totalWork, hwork, Suffix.total_cons]
    omega
  by_cases hlast : credited e.name log = []
  · have hone : e.shares = 1 := by rw [hcounts.shares, hcredited, hlast]; rfl
    have hdrop : c.dropOldest = ⟨rest, c.identities.release w.credit, c.totalWork - w.work⟩ := by
      have hzero : (e.debit w.work).shares = 0 := by simp [IdentityEntry.debit, hone]
      simp only [dropOldest, hshares, WindowShare.identity, Identities.entry_modifyEntry, if_pos, he,
        Option.map_some, hzero]
      rw [Identities.release_modifyEntry he (IdentityEntry.name_debit _)]
    obtain ⟨htallies, hnone, hentry⟩ := h.tallies.release he
    rw [hdrop]
    refine ⟨?_, ?_, ?_, htotal⟩
    · have hlog : ∀ s ∈ log, s.identity ≠ e.name := by
        intro s hs hname
        have : s ∈ credited e.name log := List.mem_filter.mpr ⟨hs, by simpa using hname⟩
        rw [hlast] at this
        cases this
      refine (List.forall₂_iff_get.mpr ⟨hrest.length_eq, fun i hi hi' => ?_⟩)
      have hw := hrest.get hi hi'
      refine ⟨hw.difficulty, hw.acceptedAt, ?_⟩
      obtain ⟨e', he', hename'⟩ := Identities.name_eq_some.mp hw.identity
      refine Identities.name_eq_some.mpr ⟨e', ?_, hename'⟩
      rw [hentry, he']
      rintro hij
      rw [hij, he] at he'
      cases he'
      exact hlog _ (List.get_mem _ _) hename'.symm
    · refine htallies.of_counts fun j e' he' => ?_
      by_cases hj : j = w.credit
      · rw [hj, hnone] at he'
        cases he'
      · have he'' := he'
        rw [hentry j hj] at he''
        exact (htallies.counts j e' he').of_credited (hother j e' hj he'').symm
    · intro j e' he'
      by_cases hj : j = w.credit
      · rw [hj, hnone] at he'
        cases he'
      · rw [hentry j hj] at he'
        rw [← hother j e' hj he']
        exact h.occupied j e' he'
  · have hmore : (e.debit w.work).shares ≠ 0 := by
      have := List.length_pos_of_ne_nil hlast
      change e.shares - 1 ≠ 0
      rw [hcounts.shares, hcredited, List.length_cons]
      omega
    have hdrop : c.dropOldest = ⟨rest, c.identities.modifyEntry w.credit (IdentityEntry.debit w.work),
        c.totalWork - w.work⟩ := by
      simp only [dropOldest, hshares, WindowShare.identity, Identities.entry_modifyEntry, if_pos, he,
        Option.map_some]
      rw [if_neg hmore]
    rw [hdrop]
    refine ⟨?_, ?_, ?_, htotal⟩
    · refine hrest.imp fun v s hv => ⟨hv.difficulty, hv.acceptedAt, ?_⟩
      exact (Identities.name_modifyEntry (IdentityEntry.name_debit _) _).trans hv.identity
    · refine h.tallies.modifyEntry (IdentityEntry.name_debit _) ?_ ?_
      · intro e' he'
        rw [he] at he'
        cases he'
        rw [hwork]
        exact Counts.drop hcounts hename hlast
      · intro j e' hj he'
        exact (h.tallies.counts j e' he').of_credited (hother j e' hj he').symm
    · intro j e' he'
      simp only [Identities.entry_modifyEntry] at he'
      split at he'
      · next hij =>
          obtain ⟨e'', he'', rfl⟩ := Option.map_eq_some_iff.mp he'
          rw [← hij, he] at he''
          cases he''
          exact hlast
      · next hij =>
          rw [← hother j e' (Ne.symm hij) he']
          exact h.occupied j e' he'

end Contents
end Ratum
