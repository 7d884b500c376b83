import Ratum.Verify.Verify

/-!
# The ids of a session's splits

Splits are recorded under ids that go round, dropped by parent and by age, and saved and restored with a
session. A table of them is the list of the splits it kept, oldest first, each the last recorded under its
id. The next id is held only by a split that outlived a whole round of ids.
-/

namespace Ratum

/-! ### A table as a list -/

namespace DictatedSplits

/-- A table holds the splits of a list, oldest first, each under an id of its own. -/
structure Lists (splits : DictatedSplits) (kept : List (UInt8 × DictatedSplit)) : Prop where
  order_eq : splits.order = kept.map Prod.fst
  nodup : (kept.map Prod.fst).Nodup
  get_eq : ∀ id split, splits.get id = some split ↔ (id, split) ∈ kept

variable {splits : DictatedSplits} {kept : List (UInt8 × DictatedSplit)}

theorem Lists.empty : Lists .empty [] where
  order_eq := rfl
  nodup := List.nodup_nil
  get_eq id split := by
    constructor
    · intro hget
      cases hget
    · exact fun hmem => absurd hmem List.not_mem_nil

theorem Lists.mem_order (h : splits.Lists kept) (id : UInt8) :
    id ∈ splits.order ↔ (splits.get id).isSome := by
  rw [h.order_eq, List.mem_map, Option.isSome_iff_exists]
  constructor
  · rintro ⟨⟨id, split⟩, hmem, rfl⟩
    exact ⟨split, (h.get_eq id split).mpr hmem⟩
  · rintro ⟨split, hget⟩
    exact ⟨(id, split), (h.get_eq id split).mp hget, rfl⟩

theorem iterate_dropOldest (splits : DictatedSplits) (k : Nat) :
    (dropOldest^[k] splits).order = splits.order.drop k ∧
    ∀ id, (dropOldest^[k] splits).get id = if id ∈ splits.order.take k then none else splits.get id := by
  induction k generalizing splits with
  | zero => exact ⟨rfl, fun id => (if_neg List.not_mem_nil).symm⟩
  | succ k ih =>
      rw [Function.iterate_succ_apply]
      obtain ⟨horder, hget⟩ := ih splits.dropOldest
      rw [horder]
      cases hheld : splits.order with
      | nil =>
          have hsame : splits.dropOldest = splits := by rw [dropOldest, hheld]
          rw [hsame] at hget ⊢
          refine ⟨by rw [hheld, List.drop_nil, List.drop_nil], fun id => ?_⟩
          rw [hget, hheld, List.take_nil, List.take_nil]
      | cons oldest order =>
          have hdropped : splits.dropOldest =
              { splits with
                byId := fun id => if id = oldest then none else splits.byId id
                order := order } := by rw [dropOldest, hheld]
          rw [hdropped] at hget ⊢
          refine ⟨rfl, fun id => ?_⟩
          rw [hget]
          show (if id ∈ order.take k then none else if id = oldest then none else splits.byId id) =
            if id ∈ (oldest :: order).take (k + 1) then none else splits.byId id
          simp only [List.take_succ_cons, List.mem_cons]
          by_cases hlater : id ∈ order.take k
          · rw [if_pos hlater, if_pos (.inr hlater)]
          · by_cases hfirst : id = oldest
            · rw [if_neg hlater, if_pos hfirst, if_pos (.inl hfirst)]
            · rw [if_neg hlater, if_neg hfirst, if_neg (not_or_intro hfirst hlater)]

theorem Lists.keepNewest (h : splits.Lists kept) (n : Nat) :
    (splits.keepNewest n).Lists (kept.drop (kept.length - n)) := by
  have hlength : splits.order.length = kept.length := by rw [h.order_eq, List.length_map]
  obtain ⟨horder, hget⟩ := splits.iterate_dropOldest (kept.length - n)
  rw [DictatedSplits.keepNewest, hlength]
  refine ⟨?_, ?_, fun id split => ?_⟩
  · rw [horder, h.order_eq, List.map_drop]
  · rw [List.map_drop]
    exact h.nodup.sublist (List.drop_sublist _ _)
  · have hnodup := h.nodup
    rw [← List.take_append_drop (kept.length - n) kept, List.map_append] at hnodup
    rw [hget, h.order_eq, ← List.map_take]
    split
    · rename_i hdropped
      constructor
      · intro hnone
        cases hnone
      · intro hmem
        exact absurd (List.mem_map_of_mem hmem) (List.disjoint_of_nodup_append hnodup hdropped)
    · rename_i hkept
      rw [h.get_eq]
      refine ⟨fun hmem => ?_, List.mem_of_mem_drop⟩
      rw [← List.take_append_drop (kept.length - n) kept] at hmem
      exact (List.mem_append.mp hmem).resolve_left fun hold => hkept (List.mem_map_of_mem hold)

theorem Lists.retainPrev (h : splits.Lists kept) (keep : Hash → Bool) :
    (splits.retainPrev keep).Lists (kept.filter fun entry => keep entry.2.prevHash) := by
  have hget (id : UInt8) (split : DictatedSplit) : (splits.retainPrev keep).get id = some split ↔
      (id, split) ∈ kept.filter fun entry => keep entry.2.prevHash := by
    rw [List.mem_filter, ← h.get_eq]
    exact Option.filter_eq_some_iff
  refine ⟨?_, h.nodup.sublist (List.filter_sublist.map _), hget⟩
  show splits.order.filter (fun id => ((splits.retainPrev keep).get id).isSome) = _
  rw [h.order_eq, List.filter_map]
  refine congrArg _ (List.filter_congr fun entry hentry => ?_)
  rw [Function.comp_apply]
  cases hkeep : keep entry.2.prevHash with
  | true =>
      have hkept := (hget entry.1 entry.2).mpr (List.mem_filter.mpr ⟨hentry, hkeep⟩)
      rw [hkept]
      rfl
  | false =>
      cases hheld : (splits.retainPrev keep).get entry.1 with
      | none => rfl
      | some split =>
          obtain ⟨hmem, hkept⟩ := List.mem_filter.mp ((hget entry.1 split).mp hheld)
          have hsame := (h.get_eq entry.1 split).mpr hmem
          rw [(h.get_eq entry.1 entry.2).mpr hentry] at hsame
          obtain rfl := Option.some.inj hsame
          rw [hkeep] at hkept
          cases hkept

/-- The list a split is recorded into, before the oldest are dropped. -/
def recordedInto (kept : List (UInt8 × DictatedSplit)) (id : UInt8) (split : DictatedSplit) :
    List (UInt8 × DictatedSplit) :=
  kept.filter (fun entry => entry.1 ≠ id) ++ [(id, split)]

theorem Lists.record (h : splits.Lists kept) (id : UInt8) (value : Nat) (prevHash : Hash)
    (outputs : List DictatedOutput) (sentAt : Nat) :
    (splits.record id value prevHash outputs sentAt).Lists
      ((recordedInto kept id ⟨outputs, value, prevHash, sentAt⟩).drop
        ((recordedInto kept id ⟨outputs, value, prevHash, sentAt⟩).length - MAX_SPLITS)) := by
  refine Lists.keepNewest ⟨?_, ?_, fun held split => ?_⟩ MAX_SPLITS
  · show splits.order.filter (· ≠ id) ++ [id] = _
    rw [h.order_eq, List.filter_map, recordedInto, List.map_append]
    rfl
  · rw [recordedInto, List.map_append]
    refine List.Nodup.append (h.nodup.sublist (List.filter_sublist.map _)) (List.nodup_singleton id) ?_
    intro held hheld hid
    obtain ⟨entry, hentry, rfl⟩ := List.mem_map.mp hheld
    obtain ⟨-, hother⟩ := List.mem_filter.mp hentry
    rw [decide_eq_true_eq] at hother
    exact hother (List.mem_singleton.mp hid)
  · rw [recordedInto, List.mem_append, List.mem_filter, List.mem_singleton, ← h.get_eq, decide_eq_true_eq]
    show (if held = id then some _ else splits.get held) = some split ↔ _
    split
    · rename_i hsame
      rw [Option.some.injEq, Prod.mk.injEq]
      exact ⟨fun hsplit => .inr ⟨hsame, hsplit.symm⟩, fun hor => (hor.resolve_left fun hold => hold.2 hsame).2.symm⟩
    · rename_i hother
      exact ⟨fun hget => .inl ⟨hget, hother⟩, fun hor =>
        (hor.resolve_right fun hnew => hother (congrArg Prod.fst hnew)).1⟩

/-- A split just recorded is found under its id. -/
theorem Lists.get_record (h : splits.Lists kept) (id : UInt8) (value : Nat) (prevHash : Hash)
    (outputs : List DictatedOutput) (sentAt : Nat) :
    (splits.record id value prevHash outputs sentAt).get id = some ⟨outputs, value, prevHash, sentAt⟩ := by
  rw [(h.record id value prevHash outputs sentAt).get_eq, recordedInto, List.length_append,
    List.length_singleton]
  set older := kept.filter fun entry => entry.1 ≠ id
  have hdrop : older.length + 1 - MAX_SPLITS ≤ older.length := by
    have hpos : 1 ≤ MAX_SPLITS := by decide
    omega
  rw [List.drop_append_of_le_length hdrop]
  exact List.mem_append_right _ (List.mem_singleton_self _)

@[simp] theorem lastId_keepNewest (splits : DictatedSplits) (n : Nat) :
    (splits.keepNewest n).lastId = splits.lastId := by
  rw [DictatedSplits.keepNewest]
  generalize splits.order.length - n = k
  induction k generalizing splits with
  | zero => rfl
  | succ k ih =>
      rw [Function.iterate_succ_apply, ih, dropOldest]
      split
      · rfl
      · rfl

/-- What is saved of a table with a session: the newest of its splits on the tip or a recent one. -/
def saved (splits : DictatedSplits) (tip : Option Hash) (recentTip : Hash → Bool) : DictatedSplits :=
  (if tip.isSome then splits.retainPrev fun prev => tip = some prev || recentTip prev
    else splits).keepNewest SAVED_SPLITS

end DictatedSplits

/-! ### The ids -/

/-- The id of the split recorded after a number of others: 1 to 255, round and round. -/
def splitIdAt (count : Nat) : UInt8 := UInt8.ofNat (count % 255 + 1)

theorem toNat_splitIdAt (count : Nat) : (splitIdAt count).toNat = count % 255 + 1 := by
  rw [splitIdAt, UInt8.toNat_ofNat']
  omega

theorem splitIdAt_ne_zero (count : Nat) : splitIdAt count ≠ 0 := by
  intro hzero
  have hnat := congrArg UInt8.toNat hzero
  rw [toNat_splitIdAt] at hnat
  exact absurd hnat (Nat.succ_ne_zero _)

theorem splitIdAt_eq_iff (i j : Nat) : splitIdAt i = splitIdAt j ↔ i % 255 = j % 255 := by
  rw [← UInt8.toNat_inj, toNat_splitIdAt, toNat_splitIdAt]
  omega

/-- The newest id after a number of splits. -/
def lastSplitId : Nat → UInt8
  | 0 => 0
  | count + 1 => splitIdAt count

theorem nextId_of_lastId {splits : DictatedSplits} {count : Nat} (hlast : splits.lastId = lastSplitId count) :
    splits.nextId = splitIdAt count := by
  rw [DictatedSplits.nextId, hlast]
  cases count with
  | zero => rfl
  | succ count =>
      have hnat : (lastSplitId (count + 1) + 1).toNat = (count % 255 + 2) % 256 := by
        rw [UInt8.toNat_add, lastSplitId, toNat_splitIdAt]
        rfl
      split
      · rename_i hzero
        rw [hzero] at hnat
        have hnat' : (0 : Nat) = (count % 255 + 2) % 256 := hnat
        rw [← UInt8.toNat_inj, toNat_splitIdAt]
        show 1 = _
        omega
      · rename_i hnonzero
        rw [← UInt8.toNat_inj, hnat, toNat_splitIdAt]
        have hsmall : count % 255 + 2 ≠ 256 := by
          intro hwrap
          rw [hwrap] at hnat
          exact hnonzero (UInt8.toNat_inj.mp hnat)
        omega

/-! ### Runs of tables -/

/-- A table, beside every split recorded into it, oldest first. -/
structure SplitsTable where
  splits : DictatedSplits
  recorded : List (UInt8 × DictatedSplit)

namespace SplitsTable

def empty : SplitsTable := ⟨.empty, []⟩

/-- A split recorded under the next id. -/
def record (t : SplitsTable) (value : Nat) (prevHash : Hash) (outputs : List DictatedOutput)
    (sentAt : Nat) : SplitsTable where
  splits := t.splits.record t.splits.nextId value prevHash outputs sentAt
  recorded := t.recorded ++ [(t.splits.nextId, ⟨outputs, value, prevHash, sentAt⟩)]

/-- A table holds the splits of a list: some of those recorded, each the last under its id. -/
structure Keeps (t : SplitsTable) (kept : List (UInt8 × DictatedSplit)) : Prop where
  lists : t.splits.Lists kept
  sublist : kept.Sublist t.recorded
  last : ∀ entry ∈ kept, (t.recorded.filter (·.1 = entry.1)).getLast? = some entry
  bounded : kept.length ≤ MAX_SPLITS
  ids : t.recorded.map Prod.fst = (List.range t.recorded.length).map splitIdAt
  lastId : t.splits.lastId = lastSplitId t.recorded.length

variable {t t' : SplitsTable} {kept kept' : List (UInt8 × DictatedSplit)}

theorem Keeps.empty : Keeps .empty [] where
  lists := .empty
  sublist := List.Sublist.slnil
  last _ hentry := absurd hentry List.not_mem_nil
  bounded := Nat.zero_le _
  ids := rfl
  lastId := rfl

/-- Dropping splits from a table. -/
theorem Keeps.drops (h : t.Keeps kept) {splits : DictatedSplits} (hlists : splits.Lists kept')
    (hsublist : kept'.Sublist kept) (hlast : splits.lastId = t.splits.lastId) :
    Keeps ⟨splits, t.recorded⟩ kept' where
  lists := hlists
  sublist := hsublist.trans h.sublist
  last entry hentry := h.last entry (hsublist.subset hentry)
  bounded := hsublist.length_le.trans h.bounded
  ids := h.ids
  lastId := hlast.trans h.lastId

theorem Keeps.retainPrev (h : t.Keeps kept) (keep : Hash → Bool) :
    ∃ kept', Keeps ⟨t.splits.retainPrev keep, t.recorded⟩ kept' :=
  ⟨_, h.drops (h.lists.retainPrev keep) List.filter_sublist rfl⟩

theorem Keeps.keepNewest (h : t.Keeps kept) (n : Nat) :
    ∃ kept', Keeps ⟨t.splits.keepNewest n, t.recorded⟩ kept' :=
  ⟨_, h.drops (h.lists.keepNewest n) (List.drop_sublist _ _) (t.splits.lastId_keepNewest n)⟩

theorem Keeps.saved (h : t.Keeps kept) (tip : Option Hash) (recentTip : Hash → Bool) :
    ∃ kept', Keeps ⟨t.splits.saved tip recentTip, t.recorded⟩ kept' := by
  rw [DictatedSplits.saved]
  split
  · obtain ⟨kept', h'⟩ := h.retainPrev fun prev => tip = some prev || recentTip prev
    exact h'.keepNewest SAVED_SPLITS
  · exact h.keepNewest SAVED_SPLITS

theorem Keeps.nextId_eq (h : t.Keeps kept) : t.splits.nextId = splitIdAt t.recorded.length :=
  nextId_of_lastId h.lastId

theorem Keeps.record (h : t.Keeps kept) (value : Nat) (prevHash : Hash) (outputs : List DictatedOutput)
    (sentAt : Nat) : ∃ kept', (t.record value prevHash outputs sentAt).Keeps kept' := by
  set split : DictatedSplit := ⟨outputs, value, prevHash, sentAt⟩ with hsplit
  set kept₁ := DictatedSplits.recordedInto kept t.splits.nextId split with hkept₁
  refine ⟨_, h.lists.record t.splits.nextId value prevHash outputs sentAt, ?_, ?_, ?_, ?_, ?_⟩
  · refine (List.drop_sublist _ _).trans ?_
    exact (List.filter_sublist.trans h.sublist).append (List.Sublist.refl _)
  · intro entry hentry
    show ((t.recorded ++ [(t.splits.nextId, split)]).filter (·.1 = entry.1)).getLast? = some entry
    obtain hold | hnew := List.mem_append.mp (List.mem_of_mem_drop hentry)
    · obtain ⟨hmem, hother⟩ := List.mem_filter.mp hold
      rw [decide_eq_true_eq] at hother
      rw [List.filter_append, List.filter_cons_of_neg (by simpa using Ne.symm hother), List.filter_nil,
        List.append_nil]
      exact h.last entry hmem
    · obtain rfl := List.mem_singleton.mp hnew
      rw [List.filter_append, List.filter_cons_of_pos (by simp), List.filter_nil, List.getLast?_concat]
  · rw [List.length_drop]
    omega
  · show (t.recorded ++ [(t.splits.nextId, split)]).map Prod.fst =
      (List.range (t.recorded ++ [(t.splits.nextId, split)]).length).map splitIdAt
    rw [List.map_append, h.ids, List.length_append, List.length_singleton, List.range_succ,
      List.map_append, List.map_singleton, List.map_singleton, h.nextId_eq]
  · show (t.splits.record _ value prevHash outputs sentAt).lastId =
      lastSplitId (t.recorded ++ [(t.splits.nextId, split)]).length
    rw [DictatedSplits.record, DictatedSplits.lastId_keepNewest, List.length_append, List.length_singleton,
      lastSplitId]
    exact h.nextId_eq

/-- The split recorded last under an id. -/
def lastUnder (t : SplitsTable) (id : UInt8) : Option DictatedSplit :=
  ((t.recorded.filter fun entry => entry.1 = id).getLast?).map Prod.snd

theorem Keeps.get_eq (h : t.Keeps kept) (id : UInt8) :
    t.splits.get id = none ∨ t.splits.get id = t.lastUnder id := by
  cases hget : t.splits.get id with
  | none => exact .inl rfl
  | some split =>
      have hlast := h.last (id, split) ((h.lists.get_eq id split).mp hget)
      right
      rw [lastUnder, hlast]
      rfl

theorem Keeps.recorded_id (h : t.Keeps kept) {i : Nat} (hi : i < t.recorded.length) :
    t.recorded[i].1 = splitIdAt i := by
  have hmap : (t.recorded.map Prod.fst)[i]? = some t.recorded[i].1 := by
    rw [List.getElem?_map, List.getElem?_eq_getElem hi, Option.map_some]
  rw [h.ids, List.getElem?_map, List.getElem?_range hi, Option.map_some] at hmap
  exact (Option.some.inj hmap).symm

/-- The next id is held only by the split recorded a whole round of ids before. -/
theorem Keeps.nextId_held (h : t.Keeps kept) {split : DictatedSplit}
    (hheld : t.splits.get t.splits.nextId = some split) :
    255 ≤ t.recorded.length ∧
      t.recorded[t.recorded.length - 255]? = some (t.splits.nextId, split) := by
  set n := t.recorded.length with hn
  have hmem := (h.lists.get_eq _ split).mp hheld
  obtain ⟨i, hi, hentry⟩ := List.mem_iff_getElem.mp (h.sublist.subset hmem)
  have hround : i % 255 = n % 255 := by
    rw [← splitIdAt_eq_iff, ← h.recorded_id hi, hentry]
    exact h.nextId_eq
  refine ⟨by omega, ?_⟩
  -- The last split under the id is the one a round before: the later ones have other ids.
  have hlt : n - 255 < n := by omega
  have hid : t.recorded[n - 255].1 = t.splits.nextId := by
    rw [h.recorded_id hlt, h.nextId_eq, splitIdAt_eq_iff]
    omega
  have hlater : (t.recorded.drop (n - 255 + 1)).filter (fun entry => entry.1 = t.splits.nextId) = [] := by
    rw [List.filter_eq_nil_iff]
    intro entry hdropped hsame
    obtain ⟨j, hj, rfl⟩ := List.mem_iff_getElem.mp hdropped
    rw [List.length_drop] at hj
    rw [decide_eq_true_eq, List.getElem_drop, h.recorded_id (by omega), h.nextId_eq, splitIdAt_eq_iff] at hsame
    omega
  have hsplit : t.recorded = t.recorded.take (n - 255) ++
      t.recorded[n - 255] :: t.recorded.drop (n - 255 + 1) := by
    rw [List.getElem_cons_drop, List.take_append_drop]
  have hlast := h.last _ hmem
  rw [hsplit, List.filter_append, List.filter_cons_of_pos (by simpa using hid), hlater,
    List.getLast?_concat] at hlast
  rw [List.getElem?_eq_getElem hlt, ← hlast]

end SplitsTable

inductive SplitsOp
  | record (value : Nat) (prevHash : Hash) (outputs : List DictatedOutput) (sentAt : Nat)
  | retainPrev (keep : Hash → Bool)
  | keepNewest (n : Nat)
  | save (tip : Option Hash) (recentTip : Hash → Bool)
  | restore (i : Nat)

/-- The table of a session, and the tables saved. -/
structure SplitsState where
  current : SplitsTable
  saved : List SplitsTable

namespace SplitsState

def start : SplitsState := ⟨.empty, []⟩

/-- The tables after an operation: a save leaves none, and a restore brings back one that was saved. -/
def after (state : SplitsState) : SplitsOp → SplitsState
  | .record value prevHash outputs sentAt =>
      { state with current := state.current.record value prevHash outputs sentAt }
  | .retainPrev keep =>
      { state with current := { state.current with splits := state.current.splits.retainPrev keep } }
  | .keepNewest n =>
      { state with current := { state.current with splits := state.current.splits.keepNewest n } }
  | .save tip recentTip =>
      { current := .empty
        saved := state.saved ++ [{ state.current with splits := state.current.splits.saved tip recentTip }] }
  | .restore i => { state with current := state.saved[i]?.getD state.current }

def run (ops : List SplitsOp) : SplitsState := ops.foldl after start

theorem run_keeps (ops : List SplitsOp) :
    (∃ kept, (run ops).current.Keeps kept) ∧ ∀ t ∈ (run ops).saved, ∃ kept, t.Keeps kept := by
  induction ops using List.reverseRecOn with
  | nil => exact ⟨⟨[], .empty⟩, fun t ht => absurd ht List.not_mem_nil⟩
  | append_singleton ops op ih =>
      obtain ⟨⟨kept, h⟩, hsaved⟩ := ih
      rw [run, List.foldl_append]
      change (∃ kept, ((run ops).after op).current.Keeps kept) ∧
        ∀ t ∈ ((run ops).after op).saved, ∃ kept, t.Keeps kept
      cases op with
      | record value prevHash outputs sentAt => exact ⟨h.record value prevHash outputs sentAt, hsaved⟩
      | retainPrev keep => exact ⟨h.retainPrev keep, hsaved⟩
      | keepNewest n => exact ⟨h.keepNewest n, hsaved⟩
      | save tip recentTip =>
          refine ⟨⟨[], .empty⟩, fun t ht => ?_⟩
          obtain hold | hnew := List.mem_append.mp ht
          · exact hsaved t hold
          · rw [List.mem_singleton.mp hnew]
            exact h.saved tip recentTip
      | restore i =>
          refine ⟨?_, hsaved⟩
          show ∃ kept, ((run ops).saved[i]?.getD (run ops).current).Keeps kept
          cases hi : (run ops).saved[i]? with
          | none => exact ⟨kept, h⟩
          | some t => exact hsaved t (List.mem_of_getElem? hi)

end SplitsState

/-- A split kept by its parent while those recorded after it are dropped for theirs. -/
def outlivingRound : List SplitsOp :=
  .record 1 (Vector.replicate _ 1) [] 0 ::
    (List.replicate 254 [.record 1 (Vector.replicate _ 2) [] 0,
      .retainPrev fun prev => prev = Vector.replicate _ 1]).flatten

end Ratum
