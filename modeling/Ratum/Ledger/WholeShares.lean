import Mathlib.Data.List.ReduceOption
import Ratum.Ledger.ContentsHolds
import Ratum.Ledger.Trim

/-!
# The window of whole shares

The window as a queue of whole shares, with what callers read of it computed from the shares. The compact
window reads the same after every sequence of pushes, trims and drops.
-/

namespace Ratum

inductive WindowOp
  | push (share : Share)
  | trim (window maxShares : Nat)
  | dropOldest

def Contents.apply (c : Contents) : WindowOp → Contents
  | .push share => c.push share
  | .trim window maxShares => c.trim window maxShares
  | .dropOldest => c.dropOldest

/-! ### The queue -/

namespace WholeShares

/-- Drops the oldest shares the newest do not need to reach the window. -/
def trimWork (window : Nat) : List Share → List Share
  | oldest :: next :: newer =>
      let total := Suffix.total Share.work (oldest :: next :: newer)
      if total ≤ window || total - window < oldest.work then oldest :: next :: newer
      else trimWork window (next :: newer)
  | log => log

def trim (log : List Share) (window maxShares : Nat) : List Share := (trimWork window log).rtake maxShares

def apply (log : List Share) : WindowOp → List Share
  | .push share => log ++ [share]
  | .trim window maxShares => trim log window maxShares
  | .dropOldest => log.tail

/-- What the queue says of an identity: the work of its shares and the tag of the newest one; none when it
has no share. -/
def identity (log : List Share) (name : String) : Option IdentityState :=
  (credited name log).getLast?.map fun newest =>
    { work := Suffix.total Share.work (credited name log), tagSecondary := newest.tagSecondary }

end WholeShares

/-! ### What callers read -/

/-- The table of identities is consistent. -/
structure Contents.Consistent (c : Contents) : Prop where
  byName : ∀ name i, c.identities.byName.lookup name = some i ↔
    ∃ e, c.identities.entry i = some e ∧ e.name = name
  free_nodup : c.identities.free.Nodup
  mem_free : ∀ i, i ∈ c.identities.free ↔
    i < c.identities.entries.length ∧ c.identities.entry i = none
  occupied : ∀ w ∈ c.shares, ∃ e, c.identities.entry w.identity = some e

/-- Callers read of the compact window what the queue says. -/
structure Contents.Reads (c : Contents) (log : List Share) : Prop where
  identities : ∀ name state, (name, state) ∈ c.identities.iter ↔
    WholeShares.identity log name = some state
  once : (c.identities.iter.map Prod.fst).Nodup
  totalWork : c.totalWork = Suffix.total Share.work log
  shares : List.Forall₂ c.identities.Names c.shares log

namespace Contents

variable {c : Contents} {log : List Share}

theorem Holds.consistent (h : c.Holds log) : c.Consistent where
  byName := h.tallies.byName
  free_nodup := h.tallies.free_nodup
  mem_free := h.tallies.mem_free
  occupied w hw := by
    obtain ⟨i, hi, rfl⟩ := List.mem_iff_getElem.mp hw
    have hnames := h.shares.get hi (h.shares.length_eq ▸ hi)
    obtain ⟨e, he, -⟩ := Identities.name_eq_some.mp hnames.identity
    exact ⟨e, he⟩

theorem mem_iter {t : Identities} {name : String} {state : IdentityState} :
    (name, state) ∈ t.iter ↔ ∃ i e, t.entry i = some e ∧ e.name = name ∧ e.state = state := by
  simp only [Identities.iter, List.mem_map, List.reduceOption_mem_iff, Prod.mk.injEq, Identities.entry,
    Option.join_eq_some_iff]
  constructor
  · rintro ⟨e, he, hname, hstate⟩
    obtain ⟨i, hi⟩ := List.mem_iff_getElem?.mp he
    exact ⟨i, e, hi, hname, hstate⟩
  · rintro ⟨i, e, hi, hname, hstate⟩
    exact ⟨e, List.mem_of_getElem? hi, hname, hstate⟩

/-- An entry says of its identity what the queue does. -/
theorem Holds.identity_eq (h : c.Holds log) {i : Nat} {e : IdentityEntry}
    (he : c.identities.entry i = some e) : WholeShares.identity log e.name = some e.state := by
  have hcounts := h.tallies.counts i e he
  have hwork := hcounts.work
  have htag := hcounts.tag
  obtain ⟨newest, hnewest⟩ := Option.isSome_iff_exists.mp
    (List.getLast?_isSome.mpr (h.occupied i e he))
  rw [hnewest, Option.map_some, Option.getD_some] at htag
  rw [WholeShares.identity, hnewest, Option.map_some, ← hwork, ← htag]

theorem Holds.reads (h : c.Holds log) : c.Reads log where
  identities name state := by
    rw [mem_iter]
    constructor
    · rintro ⟨i, e, he, rfl, rfl⟩
      exact h.identity_eq he
    · intro hidentity
      have hcredited : credited name log ≠ [] := by
        intro hnil
        rw [WholeShares.identity, hnil] at hidentity
        cases hidentity
      obtain ⟨i, hi⟩ := h.named hcredited
      obtain ⟨e, he, rfl⟩ := Identities.name_eq_some.mp hi
      rw [h.identity_eq he, Option.some.injEq] at hidentity
      exact ⟨i, e, he, rfl, hidentity⟩
  once := by
    rw [Identities.iter, List.map_map, List.Nodup, List.pairwise_map, List.reduceOption,
      List.pairwise_filterMap, List.pairwise_iff_getElem]
    intro i j hi hj hlt e he e' he' hname
    have hentry {k : Nat} (hk : k < c.identities.entries.length) {e : IdentityEntry}
        (he : c.identities.entries[k] = some e) : c.identities.entry k = some e := by
      rw [Identities.entry, List.getElem?_eq_getElem hk, he]
      rfl
    have heq := h.tallies.index_unique (hentry hi he) (hentry hj he') hname
    omega
  totalWork := h.totalWork
  shares := h.shares

/-! ### Every sequence -/

theorem trimWork_refines (window : Nat) {turns : Nat} (hturns : log.length ≤ turns) (h : c.Holds log) :
    (trimWork window turns c).Holds (WholeShares.trimWork window log) := by
  induction turns generalizing c log with
  | zero =>
      obtain rfl := List.length_eq_zero_iff.mp (Nat.le_zero.mp hturns)
      exact h
  | succ turns ih =>
      have hlength := h.length
      rw [trimWork]
      split
      · rename_i w next rest hshares
        rw [hshares, List.length_cons, List.length_cons] at hlength
        rcases log with _ | ⟨oldest, _ | ⟨second, newer⟩⟩
        · cases hlength
        · cases hlength
        · have hwork : w.work = oldest.work := by
            have hfirst := h.shares
            rw [hshares] at hfirst
            have hnames := (List.forall₂_cons.mp hfirst).1
            rw [WindowShare.work, Share.work, hnames.difficulty]
          rw [WholeShares.trimWork, ← h.totalWork, hwork]
          simp only [Bool.or_eq_true, decide_eq_true_eq]
          split
          · rename_i hunder
            rw [if_pos (.inl hunder)]
            exact h
          · rename_i hover
            split
            · rename_i hneeded
              rw [if_pos (.inr hneeded)]
              exact h
            · rename_i hsurplus
              rw [if_neg (not_or.mpr ⟨hover, hsurplus⟩)]
              exact ih (Nat.le_of_succ_le_succ hturns) (dropOldest_holds h)
      · rename_i hshort
        have hlog : WholeShares.trimWork window log = log := by
          rcases log with _ | ⟨oldest, _ | ⟨second, newer⟩⟩
          · rfl
          · rfl
          · rcases hshares : c.shares with _ | ⟨w, _ | ⟨next, rest⟩⟩
            · rw [hshares] at hlength
              cases hlength
            · rw [hshares] at hlength
              cases hlength
            · exact absurd hshares (hshort w next rest)
        rwa [hlog]

theorem apply_holds (h : c.Holds log) (op : WindowOp) : (c.apply op).Holds (WholeShares.apply log op) := by
  cases op with
  | push share => exact push_holds h share
  | trim window maxShares =>
      have htrimmed := trimWork_refines window h.length.ge h
      exact trimCount_holds htrimmed htrimmed.length.ge
  | dropOldest =>
      cases log with
      | nil =>
          have hshares : c.shares = [] := List.length_eq_zero_iff.mp h.length
          rwa [apply, dropOldest, hshares]
      | cons share rest => exact dropOldest_holds h

end Contents

/-- **The compact window refines the queue of whole shares**: after every sequence of pushes, trims and drops
its table is consistent and callers read of it what the queue says, whatever indexes were released and
taken again. -/
theorem compact_window_refines (ops : List WindowOp) :
    (ops.foldl Contents.apply .empty).Consistent ∧
      (ops.foldl Contents.apply .empty).Reads (ops.foldl WholeShares.apply []) := by
  have hholds : (ops.foldl Contents.apply .empty).Holds (ops.foldl WholeShares.apply []) := by
    induction ops using List.reverseRecOn with
    | nil => exact Contents.empty_holds
    | append_singleton ops op ih =>
        rw [List.foldl_append, List.foldl_append]
        exact Contents.apply_holds ih op
  exact ⟨hholds.consistent, hholds.reads⟩

end Ratum
