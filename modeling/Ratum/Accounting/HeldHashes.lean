import Ratum.Accounting.AcceptedHashes

/-!
# A held hash stays held

`AcceptedShareHashes` over every sequence of its operations on a clock that does not go back. The order holds
the last of the hashes taken, so an entry leaves it once it has expired or after `capacity` takings more; and
what leaves the map for a time has an entry of that time that left the order.
-/

namespace Ratum

namespace AcceptedShareHashes

/-- An operation, with the pool's clock. -/
inductive HashOp
  | insert (hash : Hash) (now : UInt64)
  | restore (hash : Hash) (at_ now : UInt64)
  | remove (hash : Hash)

namespace HashOp

/-- Whether the operation took a hash, and the hashes after it. -/
def apply (hashes : AcceptedShareHashes) : HashOp → Bool × AcceptedShareHashes
  | insert hash now => hashes.insert hash now.toNat
  | restore hash at_ now => hashes.restore hash at_.toNat now.toNat
  | remove hash => (false, hashes.remove hash)

/-- What the operation takes: a hash at a time. -/
def taking : HashOp → Option (Nat × Hash)
  | insert hash now => some (now.toNat, hash)
  | restore hash at_ _ => some (at_.toNat, hash)
  | remove _ => none

def clock : HashOp → Option Nat
  | insert _ now | restore _ _ now => some now.toNat
  | remove _ => none

end HashOp

def applyAll (hashes : AcceptedShareHashes) (ops : List HashOp) : AcceptedShareHashes :=
  ops.foldl (fun hashes op => (op.apply hashes).2) hashes

/-- What an operation took, if it did. -/
def addsTaking (took : Bool) (taking : Option (Nat × Hash)) : List (Nat × Hash) :=
  if took then taking.toList else []

/-- What the operations took, the first one first. -/
def takings (hashes : AcceptedShareHashes) : List HashOp → List (Nat × Hash)
  | [] => []
  | op :: ops => addsTaking (op.apply hashes).1 op.taking ++ takings (op.apply hashes).2 ops

theorem applyAll_append (hashes : AcceptedShareHashes) (ops ops' : List HashOp) :
    applyAll hashes (ops ++ ops') = applyAll (applyAll hashes ops) ops' := List.foldl_append

theorem takings_append (hashes : AcceptedShareHashes) (ops ops' : List HashOp) :
    takings hashes (ops ++ ops') = takings hashes ops ++ takings (applyAll hashes ops) ops' := by
  induction ops generalizing hashes with
  | nil => rfl
  | cons op ops ih =>
      rw [List.cons_append, takings, takings, ih, List.append_assoc]
      rfl

/-- The clock of each operation that reads it. -/
def clocks (ops : List HashOp) : List Nat := ops.filterMap HashOp.clock

theorem clocks_cons (op : HashOp) (ops : List HashOp) : clocks (op :: ops) = op.clock.toList ++ clocks ops := by
  cases op <;> rfl

/-! ### What leaves the order -/

variable {capacity clock : Nat} {order pending taken : List (Nat × Hash)} {entry : Nat × Hash}
  {acceptedAt : HashMap Hash Nat} {due : Nat × Hash → List (Nat × Hash) → Bool} {h : Hash} {t : Nat}

/-- Whether an entry with these taken after it has left the order by the clock: it expired, or as many as the
capacity were taken after it. -/
def Spent (capacity clock : Nat) (entry : Nat × Hash) (later : List (Nat × Hash)) : Prop :=
  satAdd64 entry.1 ACCEPTED_HASH_RETENTION_SECS < clock ∨ capacity ≤ later.length

/-- An entry taken that left the order, with those taken after it. -/
def Left (order taken : List (Nat × Hash)) (entry : Nat × Hash) (later : List (Nat × Hash)) : Prop :=
  (∃ earlier, taken = earlier ++ entry :: later) ∧ order.length ≤ later.length

/-- The order is the last of what was taken, and only what is spent has left it. -/
structure Follows (capacity clock : Nat) (order taken : List (Nat × Hash)) : Prop where
  suffix : order <:+ taken
  spent : ∀ entry later, Left order taken entry later → Spent capacity clock entry later

theorem Follows.later (h : Follows capacity clock order taken) {clock' : Nat} (hclock : clock ≤ clock') :
    Follows capacity clock' order taken :=
  ⟨h.suffix, fun entry later hleft => (h.spent entry later hleft).imp_left fun hexpired => hexpired.trans_le hclock⟩

/-- One more is taken. -/
theorem Follows.push (h : Follows capacity clock order taken) (entry : Nat × Hash) :
    Follows capacity clock (order ++ [entry]) (taken ++ [entry]) := by
  obtain ⟨before, hbefore⟩ := h.suffix
  refine ⟨⟨before, by rw [← hbefore, List.append_assoc]⟩, ?_⟩
  rintro left later ⟨⟨earlier, htaken⟩, hlength⟩
  rw [List.length_append, List.length_singleton] at hlength
  obtain rfl | ⟨later, last, rfl⟩ := List.eq_nil_or_concat later
  · cases hlength
  · rw [List.concat_eq_append, ← List.cons_append, ← List.append_assoc] at htaken
    obtain ⟨htaken, -⟩ := List.append_inj' htaken rfl
    rw [List.concat_eq_append, List.length_append, List.length_singleton] at hlength
    refine (h.spent left later ⟨⟨earlier, htaken⟩, by omega⟩).imp_right fun hcapacity => ?_
    rw [List.concat_eq_append, List.length_append]
    omega

/-- The oldest leaves the order, spent. -/
theorem Follows.pop (h : Follows capacity clock (entry :: order) taken) (hspent : Spent capacity clock entry order) :
    Follows capacity clock order taken := by
  refine ⟨(List.suffix_cons entry order).trans h.suffix, ?_⟩
  rintro left later ⟨⟨earlier, htaken⟩, hlength⟩
  obtain hlt | hge := Nat.lt_or_ge later.length (order.length + 1)
  · -- it is the one that leaves
    obtain ⟨before, hbefore⟩ := h.suffix
    obtain ⟨-, hsame⟩ := List.append_inj' (hbefore.trans htaken) (by simp only [List.length_cons]; omega)
    cases hsame
    exact hspent
  · exact h.spent left later ⟨⟨earlier, htaken⟩, hge⟩

theorem Follows.forgetWhile (h : Follows capacity clock (order ++ pending) taken)
    (hdue : ∀ oldest order, due oldest order → Spent capacity clock oldest (order ++ pending)) :
    Follows capacity clock ((forgetWhile due acceptedAt order).2 ++ pending) taken := by
  induction order generalizing acceptedAt with
  | nil => exact h
  | cons oldest order ih =>
      rw [AcceptedShareHashes.forgetWhile]
      split
      · rename_i hoverdue
        exact ih (h.pop (hdue oldest order hoverdue))
      · exact h

/-! ### What leaves the map -/

/-- Every held hash has an entry of its time. -/
def Ordered (acceptedAt : HashMap Hash Nat) (order : List (Nat × Hash)) : Prop :=
  ∀ h t, acceptedAt.lookup h = some t → (t, h) ∈ order

/-- A hash is forgotten with an entry of the time it is held at. -/
theorem lookup_forget_of_ne (hne : entry ≠ (t, h)) (hheld : acceptedAt.lookup h = some t) :
    (forget acceptedAt entry).lookup h = some t := by
  unfold forget
  split
  · rename_i hentry
    have hother : h ≠ entry.2 := by
      rintro rfl
      exact hne (Prod.ext (Option.some.inj (hentry.symm.trans hheld)) rfl)
    rwa [AList.lookup_erase_ne hother]
  · exact hheld

theorem lookup_of_forget (hheld : (forget acceptedAt entry).lookup h = some t) :
    acceptedAt.lookup h = some t ∧ entry ≠ (t, h) := by
  unfold forget at hheld
  split at hheld
  · rename_i hentry
    by_cases heq : h = entry.2
    · subst heq
      rw [AList.lookup_erase] at hheld
      cases hheld
    · rw [AList.lookup_erase_ne heq] at hheld
      exact ⟨hheld, fun hsame => heq (by rw [hsame])⟩
  · rename_i hentry
    exact ⟨hheld, fun hsame => hentry (by rw [hsame]; exact hheld)⟩

theorem Ordered.forgetWhile (hordered : Ordered acceptedAt order) :
    Ordered (forgetWhile due acceptedAt order).1 (forgetWhile due acceptedAt order).2 := by
  induction order generalizing acceptedAt with
  | nil => exact hordered
  | cons oldest order ih =>
      rw [AcceptedShareHashes.forgetWhile]
      split
      · refine ih fun h t hheld => ?_
        obtain ⟨hbefore, hne⟩ := lookup_of_forget hheld
        exact (List.mem_cons.mp (hordered h t hbefore)).resolve_left fun heq => hne heq.symm
      · exact hordered

/-- A hash held is kept, unless an entry of its time leaves the order. -/
def Kept (acceptedAt : HashMap Hash Nat) (order taken : List (Nat × Hash)) (t : Nat) (h : Hash) : Prop :=
  acceptedAt.lookup h = some t ∨ ∃ later, Left order taken (t, h) later

theorem Kept.forgetWhile (hsuffix : order ++ pending <:+ taken) (hkept : Kept acceptedAt (order ++ pending) taken t h) :
    Kept (forgetWhile due acceptedAt order).1 ((forgetWhile due acceptedAt order).2 ++ pending) taken t h := by
  induction order generalizing acceptedAt with
  | nil => exact hkept
  | cons oldest order ih =>
      rw [AcceptedShareHashes.forgetWhile]
      split
      · refine ih ((List.suffix_cons oldest _).trans hsuffix) ?_
        obtain hheld | ⟨later, hin, hlength⟩ := hkept
        · by_cases heq : oldest = (t, h)
          · obtain ⟨earlier, htaken⟩ := hsuffix
            exact .inr ⟨order ++ pending, ⟨earlier, by rw [← htaken, heq]; rfl⟩, Nat.le_refl _⟩
          · exact .inl (lookup_forget_of_ne heq hheld)
        · exact .inr ⟨later, hin, (Nat.le_succ _).trans hlength⟩
      · exact hkept

theorem Kept.push (hkept : Kept acceptedAt order taken t h) (entry : Nat × Hash) :
    Kept acceptedAt (order ++ [entry]) (taken ++ [entry]) t h := by
  obtain hheld | ⟨later, ⟨earlier, htaken⟩, hlength⟩ := hkept
  · exact .inl hheld
  · refine .inr ⟨later ++ [entry], ⟨earlier, by rw [htaken, List.append_assoc]; rfl⟩, ?_⟩
    rw [List.length_append, List.length_append]
    exact Nat.add_le_add_right hlength _

/-! ### The operations -/

variable {hashes : AcceptedShareHashes} {hash : Hash} {at_ now : Nat}

theorem length_forgetWhile : (forgetWhile due acceptedAt order).2.length ≤ order.length := by
  induction order generalizing acceptedAt with
  | nil => exact Nat.le_refl _
  | cons oldest order ih =>
      rw [forgetWhile]
      split
      · exact ih.trans (Nat.le_succ _)
      · exact Nat.le_refl _

/-- There is room for one more entry. -/
theorem length_makeRoom (hpositive : 0 < hashes.capacity) :
    hashes.makeRoom.order.length + 1 ≤ hashes.capacity := by
  have hroom : ∀ (order : List (Nat × Hash)) (acceptedAt : HashMap Hash Nat),
      (forgetWhile (fun _ order => decide (hashes.capacity ≤ order.length + 1)) acceptedAt order).2.length + 1
        ≤ hashes.capacity := by
    intro order
    induction order with
    | nil => exact fun _ => hpositive
    | cons oldest order ih =>
        intro acceptedAt
        rw [forgetWhile]
        split
        · exact ih _
        · rename_i hroom
          rw [decide_eq_true_eq, Nat.not_le] at hroom
          exact hroom
  exact hroom _ _

/-- The hashes after what was taken, by the clock. -/
structure Tracks (hashes : AcceptedShareHashes) (taken : List (Nat × Hash)) (clock : Nat) : Prop where
  positive : 0 < hashes.capacity
  follows : Follows hashes.capacity clock hashes.order taken
  ordered : Ordered hashes.acceptedAt hashes.order
  length : hashes.order.length ≤ hashes.capacity

theorem tracks_new (capacity clock : Nat) : Tracks (new capacity) [] clock where
  positive := Nat.lt_of_lt_of_le Nat.one_pos (Nat.le_max_right _ _)
  follows := ⟨List.suffix_refl [], fun _ _ hleft => by
    obtain ⟨⟨earlier, htaken⟩, -⟩ := hleft
    exact absurd htaken.symm (by simp)⟩
  ordered h t hheld := by
    rw [new, AList.lookup_empty] at hheld
    cases hheld
  length := Nat.zero_le _

theorem Tracks.expire (h : Tracks hashes taken clock) (hclock : clock ≤ now) :
    Tracks (hashes.expire now) taken now where
  positive := h.positive
  follows := by
    have hfollows : Follows hashes.capacity now (hashes.order ++ []) taken := by
      rw [List.append_nil]
      exact h.follows.later hclock
    rw [← List.append_nil (hashes.expire now).order]
    exact hfollows.forgetWhile fun oldest order hexpired => .inl (of_decide_eq_true hexpired)
  ordered := h.ordered.forgetWhile
  length := length_forgetWhile.trans h.length

theorem Kept.expire (h : Tracks hashes taken clock) (now : Nat) {t : Nat} {held : Hash}
    (hkept : Kept hashes.acceptedAt hashes.order taken t held) :
    Kept (hashes.expire now).acceptedAt (hashes.expire now).order taken t held := by
  rw [← List.append_nil hashes.order] at hkept
  rw [← List.append_nil (hashes.expire now).order]
  refine Kept.forgetWhile ?_ hkept
  rw [List.append_nil]
  exact h.follows.suffix

/-- A hash held until later than the clock is not expired. -/
theorem lookup_expire (hheld : hashes.acceptedAt.lookup hash = some t)
    (hnow : now ≤ satAdd64 t ACCEPTED_HASH_RETENTION_SECS) : (hashes.expire now).acceptedAt.lookup hash = some t := by
  have hforget : ∀ (order : List (Nat × Hash)) (acceptedAt : HashMap Hash Nat), acceptedAt.lookup hash = some t →
      (forgetWhile (fun oldest _ => decide (satAdd64 oldest.1 ACCEPTED_HASH_RETENTION_SECS < now)) acceptedAt
        order).1.lookup hash = some t := by
    intro order
    induction order with
    | nil => exact fun _ hheld => hheld
    | cons oldest order ih =>
        intro acceptedAt hheld
        rw [forgetWhile]
        split
        · rename_i hexpired
          refine ih _ (lookup_forget_of_ne (fun heq => ?_) hheld)
          rw [heq, decide_eq_true_eq] at hexpired
          exact absurd hnow (Nat.not_le.mpr hexpired)
        · exact hheld
  exact hforget _ _ hheld

theorem Tracks.hold (h : Tracks hashes taken clock) (hclock : clock ≤ now) :
    Tracks (hashes.hold hash at_ now).2
      (taken ++ addsTaking (hashes.hold hash at_ now).1 (some (at_, hash))) now := by
  have hexpired := h.expire hclock
  unfold AcceptedShareHashes.hold
  dsimp only
  split
  · rw [addsTaking, if_neg Bool.false_ne_true, List.append_nil]
    exact hexpired
  · rw [addsTaking, if_pos rfl]
    refine ⟨h.positive, ?_, fun held t hheld => ?_, ?_⟩
    · refine (hexpired.follows.push (at_, hash)).forgetWhile fun oldest order hfull => .inr ?_
      rw [List.length_append]
      exact of_decide_eq_true hfull
    · by_cases heq : held = hash
      · subst heq
        rw [AList.lookup_insert] at hheld
        cases hheld
        exact List.mem_append_right _ (List.mem_singleton_self _)
      · rw [AList.lookup_insert_ne heq] at hheld
        exact List.mem_append_left _ (hexpired.ordered.forgetWhile held t hheld)
    · rw [List.length_append]
      exact length_makeRoom hexpired.positive

theorem Kept.hold (h : Tracks hashes taken clock) (hclock : clock ≤ now) {held : Hash}
    (hkept : Kept hashes.acceptedAt hashes.order taken t held) :
    Kept (hashes.hold hash at_ now).2.acceptedAt (hashes.hold hash at_ now).2.order
      (taken ++ addsTaking (hashes.hold hash at_ now).1 (some (at_, hash))) t held := by
  have hexpired := h.expire hclock
  have hkept := hkept.expire h now
  unfold AcceptedShareHashes.hold
  dsimp only
  split
  · rw [addsTaking, if_neg Bool.false_ne_true, List.append_nil]
    exact hkept
  · rename_i hnone
    rw [addsTaking, if_pos rfl]
    obtain hheld | hleft := (hkept.push (at_, hash)).forgetWhile (hexpired.follows.push (at_, hash)).suffix
    · refine .inl ((AList.lookup_insert_ne ?_).trans hheld)
      rintro rfl
      exact hnone (lookup_forgetWhile (by rw [hheld]; rfl))
    · exact .inr hleft

theorem lookup_hold (htook : (hashes.hold hash at_ now).1 = true) :
    (hashes.hold hash at_ now).2.acceptedAt.lookup hash = some at_ := by
  unfold AcceptedShareHashes.hold at htook ⊢
  dsimp only at htook ⊢
  split
  · rename_i hheld
    rw [if_pos hheld] at htook
    cases htook
  · exact AList.lookup_insert ..

/-! ### Every sequence of operations -/

theorem Tracks.remove (h : Tracks hashes taken clock) (hash : Hash) : Tracks (hashes.remove hash) taken clock := by
  refine ⟨h.positive, h.follows, fun held t hheld => ?_, h.length⟩
  by_cases heq : held = hash
  · subst heq
    rw [AcceptedShareHashes.remove, AList.lookup_erase] at hheld
    cases hheld
  · rw [AcceptedShareHashes.remove, AList.lookup_erase_ne heq] at hheld
    exact h.ordered held t hheld

theorem Tracks.apply (h : Tracks hashes taken clock) (op : HashOp) (hclock : ∀ now ∈ op.clock, clock ≤ now) :
    Tracks (op.apply hashes).2 (taken ++ addsTaking (op.apply hashes).1 op.taking) (op.clock.getD clock) := by
  cases op with
  | insert hash now => exact h.hold (hclock _ rfl)
  | restore hash at_ now => exact h.hold (hclock _ rfl)
  | remove hash =>
      show Tracks (hashes.remove hash) (taken ++ []) clock
      rw [List.append_nil]
      exact h.remove hash

theorem Kept.apply (h : Tracks hashes taken clock) (op : HashOp) (hclock : ∀ now ∈ op.clock, clock ≤ now)
    {held : Hash} (hop : op ≠ .remove held) (hkept : Kept hashes.acceptedAt hashes.order taken t held) :
    Kept (op.apply hashes).2.acceptedAt (op.apply hashes).2.order
      (taken ++ addsTaking (op.apply hashes).1 op.taking) t held := by
  cases op with
  | insert hash now => exact hkept.hold h (hclock _ rfl)
  | restore hash at_ now => exact hkept.hold h (hclock _ rfl)
  | remove hash =>
      show Kept (hashes.acceptedAt.erase hash) hashes.order (taken ++ []) t held
      rw [List.append_nil]
      refine hkept.imp_left fun hheld => ?_
      rwa [AList.lookup_erase_ne fun heq => hop (congrArg HashOp.remove heq.symm)]

/-- **What every sequence of operations keeps**, as long as the clock does not go back. -/
theorem Tracks.applyAll {ops : List HashOp} (h : Tracks hashes taken clock)
    (hclocks : (clock :: clocks ops).Pairwise (· ≤ ·)) :
    ∃ last ∈ clock :: clocks ops, Tracks (applyAll hashes ops) (taken ++ takings hashes ops) last ∧
      ∀ t held, .remove held ∉ ops → Kept hashes.acceptedAt hashes.order taken t held →
        Kept (applyAll hashes ops).acceptedAt (applyAll hashes ops).order (taken ++ takings hashes ops) t held := by
  induction ops generalizing hashes taken clock with
  | nil =>
      rw [takings, List.append_nil]
      exact ⟨clock, List.mem_cons_self, h, fun _ _ _ hkept => hkept⟩
  | cons op ops ih =>
      obtain ⟨hclock, hrest, hlast⟩ : (∀ now ∈ op.clock, clock ≤ now) ∧
          (op.clock.getD clock :: clocks ops).Pairwise (· ≤ ·) ∧
            ∀ last ∈ op.clock.getD clock :: clocks ops, last ∈ clock :: clocks (op :: ops) := by
        rw [clocks_cons] at hclocks ⊢
        cases hnow : op.clock with
        | none =>
            rw [hnow] at hclocks
            exact ⟨fun _ hmem => (by cases hmem), hclocks, fun _ hmem => hmem⟩
        | some now =>
            rw [hnow] at hclocks
            obtain ⟨hle, hrest⟩ := List.pairwise_cons.mp hclocks
            exact ⟨fun _ hmem => Option.some.inj hmem ▸ hle _ List.mem_cons_self, hrest,
              fun _ hmem => List.mem_cons_of_mem _ hmem⟩
      obtain ⟨last, hmem, htracks, hkeeps⟩ := ih (h.apply op hclock) hrest
      rw [List.append_assoc] at htracks
      refine ⟨last, hlast last hmem, htracks, fun t held hremove hkept => ?_⟩
      rw [takings, ← List.append_assoc]
      refine hkeeps t held (fun hin => hremove (List.mem_cons_of_mem _ hin)) (hkept.apply h op hclock ?_)
      rintro rfl
      exact hremove List.mem_cons_self

theorem capacity_forgetting (op : HashOp) : (op.apply hashes).2.capacity = hashes.capacity := by
  cases op with
  | remove hash => rfl
  | insert hash now | restore hash at_ now =>
      show (hashes.hold _ _ _).2.capacity = _
      unfold AcceptedShareHashes.hold
      dsimp only
      split <;> rfl

theorem capacity_applyAll (ops : List HashOp) : (applyAll hashes ops).capacity = hashes.capacity := by
  induction ops generalizing hashes with
  | nil => rfl
  | cons op ops ih => exact ih.trans (capacity_forgetting op)

/-- At every time it was taken at `t`, fewer hashes than the capacity were taken after it. -/
def FewAfter (capacity : Nat) (taken : List (Nat × Hash)) (t : Nat) (hash : Hash) : Prop :=
  ∀ earlier later, taken = earlier ++ (t, hash) :: later → later.length < capacity

/-- What holds after operations on a new `AcceptedShareHashes`. -/
structure HoldsHashes (capacity : Nat) (ops : List HashOp) : Prop where
  /-- A hash taken and not removed since is refused until its time has passed. -/
  held : ∀ before op after t hash (now : UInt64), ops = before ++ op :: after →
    op.taking = some (t, hash) → (op.apply (applyAll (new capacity) before)).1 = true → .remove hash ∉ after →
    FewAfter (max capacity 1) (takings (new capacity) ops) t hash → (∀ clock ∈ clocks ops, clock ≤ now.toNat) →
    now.toNat ≤ t + ACCEPTED_HASH_RETENTION_SECS →
      ∀ at_, ((applyAll (new capacity) ops).hold hash at_ now.toNat).1 = false
  ordered : Ordered (applyAll (new capacity) ops).acceptedAt (applyAll (new capacity) ops).order
  length : (applyAll (new capacity) ops).order.length ≤ max capacity 1
  /-- No entry that expires before its own takes a hash out. -/
  expire : ∀ t hash (now : UInt64), (applyAll (new capacity) ops).acceptedAt.lookup hash = some t →
    now.toNat ≤ t + ACCEPTED_HASH_RETENTION_SECS →
      ((applyAll (new capacity) ops).expire now.toNat).acceptedAt.lookup hash = some t

theorem le_satAdd64 {now : UInt64} (hnow : now.toNat ≤ t + ACCEPTED_HASH_RETENTION_SECS) :
    now.toNat ≤ satAdd64 t ACCEPTED_HASH_RETENTION_SECS :=
  le_min hnow (Nat.le_sub_one_of_lt now.toNat_lt)

/-- A hash kept by few takings is refused. -/
theorem Tracks.refused (h : Tracks hashes taken clock) {now : Nat} (hclock : clock ≤ now)
    (hkept : Kept hashes.acceptedAt hashes.order taken t hash) (hfew : FewAfter hashes.capacity taken t hash)
    (hnow : now ≤ satAdd64 t ACCEPTED_HASH_RETENTION_SECS) (at_ : Nat) : (hashes.hold hash at_ now).1 = false := by
  have hheld : hashes.acceptedAt.lookup hash = some t := by
    refine hkept.resolve_right ?_
    rintro ⟨later, hleft⟩
    obtain ⟨earlier, htaken⟩ := hleft.1
    obtain hexpired | hcapacity := h.follows.spent _ _ hleft
    · exact absurd (hexpired.trans_le hclock) (Nat.not_lt.mpr hnow)
    · exact absurd (hfew earlier later htaken) (Nat.not_lt.mpr hcapacity)
  have hcontains : (hashes.expire now).contains hash = true := by
    rw [contains, lookup_expire hheld hnow]
    rfl
  unfold AcceptedShareHashes.hold
  dsimp only
  rw [if_pos hcontains]

theorem lookup_apply {op : HashOp} (htaking : op.taking = some (t, hash)) (htook : (op.apply hashes).1 = true) :
    (op.apply hashes).2.acceptedAt.lookup hash = some t ∧ ∃ now, op.clock = some now := by
  cases op with
  | insert hash' now =>
      cases htaking
      exact ⟨lookup_hold htook, _, rfl⟩
  | restore hash' at_ now =>
      cases htaking
      exact ⟨lookup_hold htook, _, rfl⟩
  | remove hash' => cases htaking

/-- **A held hash stays held**, unless as many hashes as the capacity are taken after it or after it was taken
before in the same second. -/
theorem accepted_hashes_hold (capacity : Nat) (ops : List HashOp) (hclocks : (clocks ops).Pairwise (· ≤ ·)) :
    HoldsHashes capacity ops := by
  have hstart : (0 :: clocks ops).Pairwise (· ≤ ·) :=
    List.pairwise_cons.mpr ⟨fun _ _ => Nat.zero_le _, hclocks⟩
  obtain ⟨_, -, htracks, -⟩ := (tracks_new capacity 0).applyAll hstart
  have hcapacity : (applyAll (new capacity) ops).capacity = max capacity 1 := capacity_applyAll ops
  refine ⟨?_, htracks.ordered, hcapacity ▸ htracks.length, fun t hash now hheld hnow =>
    lookup_expire hheld (le_satAdd64 hnow)⟩
  rintro before op after t hash now rfl htaking htook hremoved hfew hlater hnow at_
  obtain ⟨hheld, clock, hclock⟩ := lookup_apply htaking htook
  have hsplit : clocks (before ++ op :: after) = clocks before ++ (clock :: clocks after) := by
    rw [clocks, List.filterMap_append]
    exact congrArg (clocks before ++ ·) ((clocks_cons op after).trans (by rw [hclock]; rfl))
  rw [hsplit, ← List.cons_append] at hstart
  obtain ⟨hbefore, hafter, hbetween⟩ := List.pairwise_append.mp hstart
  obtain ⟨last, hlast, htaken, -⟩ := (tracks_new capacity 0).applyAll hbefore
  have htakes := htaken.apply op fun now hmem => by
    obtain rfl := Option.some.inj (hclock.symm.trans hmem)
    exact hbetween last hlast clock List.mem_cons_self
  rw [hclock] at htakes
  obtain ⟨final, hfinal, htracks, hkeeps⟩ := htakes.applyAll hafter
  have hkept := hkeeps t hash hremoved (.inl hheld)
  have happlied : applyAll (new capacity) (before ++ op :: after) =
      applyAll (op.apply (applyAll (new capacity) before)).2 after := applyAll_append _ _ _
  have htakings : takings (new capacity) (before ++ op :: after) = [] ++ takings (new capacity) before ++
      addsTaking (op.apply (applyAll (new capacity) before)).1 op.taking ++
        takings (op.apply (applyAll (new capacity) before)).2 after := by
    rw [takings_append, takings, List.nil_append, List.append_assoc]
  rw [← htakings, ← happlied] at htracks hkept
  refine htracks.refused (hlater final ?_) hkept ?_ (le_satAdd64 hnow) at_
  · rw [hsplit]
    exact List.mem_append_right _ hfinal
  · rwa [hcapacity]

/-! ### A hash taken again in the same second -/

def hashOf (byte : UInt8) : Hash := Vector.replicate _ byte

/-- Two hashes where there is room for two: the first is refused at the last second of its time. -/
theorem accepted_hashes_hold_two :
    ((applyAll (new 2) [.insert (hashOf 0) 5, .insert (hashOf 1) 6]).hold (hashOf 0) 15005 15005).1 = false := by
  refine (accepted_hashes_hold 2 [.insert (hashOf 0) 5, .insert (hashOf 1) 6] (by decide)).held []
    (.insert (hashOf 0) 5) [.insert (hashOf 1) 6] 5 (hashOf 0) 15005 rfl rfl (by decide)
    (fun hmem => by cases List.mem_singleton.mp hmem) ?_ (by decide) (by decide) 15005
  intro earlier later htaken
  have hlength := congrArg List.length htaken
  rw [List.length_append, List.length_cons] at hlength
  have htwo : (takings (new 2) [.insert (hashOf 0) 5, .insert (hashOf 1) 6]).length = 2 := by decide
  show later.length < 2
  omega

/-- A hash removed and taken again in the same second leaves with the first of its entries. -/
theorem retaken_hash_forgotten : ¬ ∀ (capacity : Nat) (before : List HashOp) (op : HashOp) (after : List HashOp)
    (t : Nat) (hash : Hash) (now : UInt64), (clocks (before ++ op :: after)).Pairwise (· ≤ ·) →
      op.taking = some (t, hash) → (op.apply (applyAll (new capacity) before)).1 = true → .remove hash ∉ after →
      (takings (op.apply (applyAll (new capacity) before)).2 after).length < max capacity 1 →
      (∀ clock ∈ clocks (before ++ op :: after), clock ≤ now.toNat) →
      now.toNat ≤ t + ACCEPTED_HASH_RETENTION_SECS →
        ((applyAll (new capacity) (before ++ op :: after)).insert hash now.toNat).1 = false := by
  intro hholds
  have hrefused := hholds 2 [.insert (hashOf 0) 5, .remove (hashOf 0)] (.insert (hashOf 0) 5)
    [.insert (hashOf 1) 5] 5 (hashOf 0) 5 (by decide) rfl (by decide)
    (fun hmem => by cases List.mem_singleton.mp hmem) (by decide) (by decide) (by decide)
  exact absurd hrefused (by decide)

end AcceptedShareHashes

end Ratum
