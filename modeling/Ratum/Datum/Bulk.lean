import Mathlib.Data.List.Infix
import Ratum.Base.FailsIn
import Ratum.Core.Bytes

/-!
# Bulk transfers

`core/src/datum/bulk.rs`: a payload too large for one frame is sent as fragments at increasing offsets and
reassembled in order. A fragment that does not continue the transfer in progress is refused.
-/

namespace Ratum

def FRAGMENT_DATA_SIZE : Nat := 16 * 1024

def MAX_TRANSFER_SIZE : Nat := 2 ^ 22

inductive BulkError
  | badChunk (len : Nat)
  | zeroId
  | badSize (size : UInt32)
  | wrongTransfer (want got : UInt32)
  | wrongOffset (want got : UInt32)
  | sizeChanged (want got : UInt32)
  | notAtStart
  deriving DecidableEq

structure Fragment where
  id : UInt32
  totalSize : UInt32
  offset : UInt32
  data : Bytes
  deriving DecidableEq

structure Ack where
  id : UInt32
  nextOffset : UInt32
  deriving DecidableEq

structure Transfer where
  id : UInt32
  totalSize : UInt32
  buf : Bytes
  deriving DecidableEq

structure Reassembler where
  transfer : Option Transfer
  deriving DecidableEq

namespace Reassembler

def new : Reassembler := ⟨none⟩

/-- How many bytes are held, when the fragment goes on from them. -/
def received (r : Reassembler) (f : Fragment) : Except BulkError Nat :=
  match r.transfer with
  | none => if f.offset ≠ 0 then .error .notAtStart else .ok 0
  | some t =>
      if t.id ≠ f.id then .error (.wrongTransfer t.id f.id)
      else if t.totalSize ≠ f.totalSize then .error (.sizeChanged t.totalSize f.totalSize)
      else if UInt32.ofNat t.buf.length ≠ f.offset then
        .error (.wrongOffset (UInt32.ofNat t.buf.length) f.offset)
      else .ok t.buf.length

/-- The reassembler after the fragment, its acknowledgement and the payload it completes. A fragment that is
refused leaves the reassembler as it was. -/
def accept (r : Reassembler) (f : Fragment) : Except BulkError (Reassembler × Ack × Option Bytes) := do
  if f.id = 0 then throw .zeroId
  if f.totalSize = 0 ∨ MAX_TRANSFER_SIZE < f.totalSize.toNat then throw (.badSize f.totalSize)
  let received ← r.received f
  if f.totalSize.toNat < received + f.data.length then throw (.badChunk f.data.length)
  let t := r.transfer.getD ⟨f.id, f.totalSize, []⟩
  let t := { t with buf := t.buf ++ f.data }
  let ack : Ack := ⟨t.id, UInt32.ofNat t.buf.length⟩
  if UInt32.ofNat t.buf.length = t.totalSize then pure (⟨none⟩, ack, some t.buf)
  else pure (⟨some t⟩, ack, none)

def reset (_ : Reassembler) : Reassembler := ⟨none⟩

end Reassembler

/-! ### What is held -/

/-- The fragments follow each other from the offset, without gap or overlap. -/
def FollowsFrom : Nat → List Fragment → Prop
  | _, [] => True
  | offset, f :: rest => f.offset.toNat = offset ∧ FollowsFrom (offset + f.data.length) rest

/-- What the fragments hold, one after the other. -/
def joined (fs : List Fragment) : Bytes := fs.flatMap Fragment.data

theorem FollowsFrom.concat {offset : Nat} {fs : List Fragment} (hfs : FollowsFrom offset fs) {f : Fragment}
    (hf : f.offset.toNat = offset + (joined fs).length) : FollowsFrom offset (fs ++ [f]) := by
  induction fs generalizing offset with
  | nil => exact ⟨hf, trivial⟩
  | cons g fs ih =>
      refine ⟨hfs.1, ih hfs.2 ?_⟩
      rw [hf, joined, List.flatMap_cons, List.length_append, Nat.add_assoc]
      rfl

/-- The fragments are of one transfer, from its start. -/
structure OfTransfer (id totalSize : UInt32) (fs : List Fragment) : Prop where
  same : ∀ f ∈ fs, f.id = id ∧ f.totalSize = totalSize
  continues : FollowsFrom 0 fs
  size_le : totalSize.toNat ≤ MAX_TRANSFER_SIZE
  joined_le : (joined fs).length ≤ totalSize.toNat

/-- The transfer in progress holds the last fragments accepted. -/
def Reassembler.Holds (r : Reassembler) (accepted : List Fragment) : Prop :=
  ∀ t, r.transfer = some t → ∃ fs, fs <:+ accepted ∧ OfTransfer t.id t.totalSize fs ∧
    t.buf = joined fs ∧ t.buf.length < t.totalSize.toNat

namespace Reassembler

variable {r r' : Reassembler} {f : Fragment} {accepted : List Fragment}

/-- What an accepted fragment went through. -/
theorem accept_ok {ack : Ack} {payload : Option Bytes} (h : r.accept f = .ok (r', ack, payload)) :
    f.totalSize.toNat ≤ MAX_TRANSFER_SIZE ∧
    (∃ received, r.received f = .ok received ∧ received + f.data.length ≤ f.totalSize.toNat) ∧
    let t := r.transfer.getD ⟨f.id, f.totalSize, []⟩
    ack = ⟨t.id, UInt32.ofNat (t.buf ++ f.data).length⟩ ∧
      ((UInt32.ofNat (t.buf ++ f.data).length = t.totalSize ∧ r' = ⟨none⟩ ∧ payload = some (t.buf ++ f.data)) ∨
        (UInt32.ofNat (t.buf ++ f.data).length ≠ t.totalSize ∧
          r' = ⟨some { t with buf := t.buf ++ f.data }⟩ ∧ payload = none)) := by
  unfold accept at h
  obtain ⟨-, h⟩ := FailsIn.ok_of_guard (e := BulkError.zeroId) h
  obtain ⟨hsize, h⟩ := FailsIn.ok_of_guard (e := BulkError.badSize f.totalSize) h
  obtain ⟨received, hreceived, h⟩ := Gives.exists_of_bind h
  obtain ⟨hlen, h⟩ := FailsIn.ok_of_guard (e := BulkError.badChunk f.data.length) h
  refine ⟨not_lt.mp fun hlt => hsize (.inr hlt), ⟨received, hreceived, not_lt.mp hlen⟩, ?_⟩
  dsimp only at h
  split at h
  next hdone =>
    obtain ⟨rfl, houtcome⟩ := Prod.mk.inj (Except.ok.inj h)
    obtain ⟨rfl, rfl⟩ := Prod.mk.inj houtcome
    exact ⟨rfl, .inl ⟨hdone, rfl, rfl⟩⟩
  next hmore =>
    obtain ⟨rfl, houtcome⟩ := Prod.mk.inj (Except.ok.inj h)
    obtain ⟨rfl, rfl⟩ := Prod.mk.inj houtcome
    exact ⟨rfl, .inr ⟨hmore, rfl, rfl⟩⟩

/-- The bytes held end where the fragment starts. -/
theorem received_ok {received : Nat} (h : r.received f = .ok received) :
    let t := r.transfer.getD ⟨f.id, f.totalSize, []⟩
    t.id = f.id ∧ t.totalSize = f.totalSize ∧ received = t.buf.length ∧
      UInt32.ofNat t.buf.length = f.offset := by
  unfold Reassembler.received at h
  split at h
  next hnone =>
    obtain ⟨hoffset, h⟩ := FailsIn.ok_of_guard h
    obtain rfl := Except.ok.inj h
    rw [hnone]
    exact ⟨rfl, rfl, rfl, (not_not.mp hoffset).symm⟩
  next t hsome =>
    obtain ⟨hid, h⟩ := FailsIn.ok_of_guard h
    obtain ⟨hsize, h⟩ := FailsIn.ok_of_guard h
    obtain ⟨hoffset, h⟩ := FailsIn.ok_of_guard h
    obtain rfl := Except.ok.inj h
    rw [hsome]
    exact ⟨not_not.mp hid, not_not.mp hsize, rfl, not_not.mp hoffset⟩

/-- What an accepted fragment makes of what is held. -/
structure Extends (accepted : List Fragment) (f : Fragment) (r' : Reassembler) (ack : Ack)
    (payload : Option Bytes) (fs : List Fragment) : Prop where
  suffix : fs <:+ accepted ++ [f]
  ofTransfer : OfTransfer f.id f.totalSize fs
  ack_id : ack.id = f.id
  ack_offset : ack.nextOffset.toNat = (joined fs).length
  held : (∃ p, payload = some p ∧ p = joined fs ∧ p.length = f.totalSize.toNat ∧ r'.transfer = none) ∨
    (payload = none ∧ r'.transfer = some ⟨f.id, f.totalSize, joined fs⟩ ∧
      (joined fs).length < f.totalSize.toNat)

theorem toNat_ofNat_held {held : Bytes} {totalSize : UInt32} (hle : held.length ≤ totalSize.toNat) :
    (UInt32.ofNat held.length).toNat = held.length :=
  UInt32.toNat_ofNat_of_lt' (lt_of_le_of_lt hle totalSize.toNat_lt)

/-- **An accepted fragment goes on where the fragments held end**, and what it completes is all of them. -/
theorem Holds.accept {ack : Ack} {payload : Option Bytes} (hr : r.Holds accepted)
    (h : r.accept f = .ok (r', ack, payload)) : ∃ fs, Extends accepted f r' ack payload fs := by
  obtain ⟨hsize, ⟨received, hreceived, hlen⟩, hack, hheld⟩ := accept_ok h
  obtain ⟨hid, htotal, rfl, hoffset⟩ := received_ok hreceived
  -- the fragments held before this one, from the start of the transfer
  obtain ⟨fs, hsuffix, hfs, hbuf⟩ : ∃ fs, fs <:+ accepted ∧ OfTransfer f.id f.totalSize fs ∧
      (r.transfer.getD ⟨f.id, f.totalSize, []⟩).buf = joined fs := by
    cases htransfer : r.transfer with
    | none => exact ⟨[], List.nil_suffix, ⟨nofun, trivial, hsize, Nat.zero_le _⟩, rfl⟩
    | some t =>
        obtain ⟨fs, hsuffix, hfs, hbuf, -⟩ := hr t htransfer
        rw [htransfer, Option.getD_some] at hid htotal
        rw [hid, htotal] at hfs
        exact ⟨fs, hsuffix, hfs, hbuf⟩
  rw [hid, htotal, hbuf] at hheld
  rw [hid, hbuf] at hack
  rw [hbuf] at hlen hoffset
  have hjoined : joined (fs ++ [f]) = joined fs ++ f.data := by
    rw [joined, List.flatMap_append, List.flatMap_singleton]
    rfl
  have hle : (joined (fs ++ [f])).length ≤ f.totalSize.toNat := by
    rw [hjoined, List.length_append]
    exact hlen
  have hat : f.offset.toNat = (joined fs).length := by
    rw [← hoffset, toNat_ofNat_held (hfs.joined_le)]
  rw [← hjoined] at hack hheld
  refine ⟨fs ++ [f], ?_, ⟨?_, hfs.continues.concat (by rw [hat, Nat.zero_add]), hsize, hle⟩, ?_, ?_, ?_⟩
  · obtain ⟨earlier, rfl⟩ := hsuffix
    exact ⟨earlier, (List.append_assoc _ _ _).symm⟩
  · intro g hg
    obtain hg | hg := List.mem_append.mp hg
    · exact hfs.same g hg
    · obtain rfl := List.mem_singleton.mp hg
      exact ⟨rfl, rfl⟩
  · rw [hack]
  · rw [hack]
    exact toNat_ofNat_held hle
  · obtain ⟨hdone, rfl, rfl⟩ | ⟨hmore, rfl, rfl⟩ := hheld
    · left
      refine ⟨_, rfl, rfl, ?_, rfl⟩
      rw [← hdone, toNat_ofNat_held hle]
    · right
      refine ⟨rfl, rfl, lt_of_le_of_ne hle fun heq => hmore ?_⟩
      rw [heq, UInt32.ofNat_toNat]

theorem Extends.holds {ack : Ack} {payload : Option Bytes} {fs : List Fragment}
    (h : Extends accepted f r' ack payload fs) : r'.Holds (accepted ++ [f]) := by
  intro t ht
  obtain ⟨p, -, -, -, hnone⟩ | ⟨-, hsome, hlt⟩ := h.held
  · rw [hnone] at ht
    cases ht
  · rw [hsome] at ht
    obtain rfl := Option.some.inj ht
    exact ⟨fs, h.suffix, h.ofTransfer, rfl, hlt⟩

end Reassembler

/-! ### Every history -/

/-- What the other side and the session do to the reassembler. -/
inductive BulkOp
  | accept (f : Fragment)
  | reset

/-- The reassembler and every fragment it has accepted. -/
structure BulkHistory where
  reassembler : Reassembler
  accepted : List Fragment

namespace BulkHistory

def step (s : BulkHistory) : BulkOp → BulkHistory
  | .accept f =>
      match s.reassembler.accept f with
      | .ok (r, _) => ⟨r, s.accepted ++ [f]⟩
      | .error _ => s
  | .reset => { s with reassembler := s.reassembler.reset }

def run (ops : List BulkOp) : BulkHistory := ops.foldl step ⟨.new, []⟩

theorem holds_step {s : BulkHistory} (hs : s.reassembler.Holds s.accepted) (op : BulkOp) :
    (s.step op).reassembler.Holds (s.step op).accepted := by
  cases op with
  | reset => exact nofun
  | accept f =>
      rw [step]
      split
      next r outcome haccept =>
        obtain ⟨fs, hfs⟩ := hs.accept haccept
        exact hfs.holds
      next => exact hs

theorem holds_run (ops : List BulkOp) : (run ops).reassembler.Holds (run ops).accepted := by
  have hfold (s : BulkHistory) (hs : s.reassembler.Holds s.accepted) :
      (ops.foldl step s).reassembler.Holds (ops.foldl step s).accepted := by
    induction ops generalizing s with
    | nil => exact hs
    | cons op ops ih => exact ih _ (holds_step hs op)
  exact hfold _ nofun

end BulkHistory

/-! ### A payload split and sent in order -/

/-- How many fragments a payload takes. -/
def fragmentCount (payload : Bytes) : Nat := (payload.length + (FRAGMENT_DATA_SIZE - 1)) / FRAGMENT_DATA_SIZE

/-- One of the fragments a payload is split into. -/
def fragmentAt (id : UInt32) (payload : Bytes) (i : Nat) : Fragment where
  id := id
  totalSize := UInt32.ofNat payload.length
  offset := UInt32.ofNat (i * FRAGMENT_DATA_SIZE)
  data := (payload.drop (i * FRAGMENT_DATA_SIZE)).take FRAGMENT_DATA_SIZE

def fragments (id : UInt32) (payload : Bytes) : List Fragment :=
  (List.range (fragmentCount payload)).map (fragmentAt id payload)

namespace Reassembler

/-- What each fragment is answered with. -/
def acceptAll (r : Reassembler) : List Fragment → List (Except BulkError (Ack × Option Bytes))
  | [] => []
  | f :: fs =>
      match r.accept f with
      | .ok (r, outcome) => .ok outcome :: r.acceptAll fs
      | .error e => .error e :: r.acceptAll fs

/-- The reassembler holding the first bytes of a payload. -/
def holding (id : UInt32) (payload : Bytes) (i : Nat) : Reassembler :=
  ⟨if i = 0 then none
    else some ⟨id, UInt32.ofNat payload.length, payload.take (i * FRAGMENT_DATA_SIZE)⟩⟩

/-- The answer to a fragment that is not the last, and to the one that is. -/
def answer (id : UInt32) (payload : Bytes) (i : Nat) : Ack × Option Bytes :=
  if i + 1 = fragmentCount payload then (⟨id, UInt32.ofNat payload.length⟩, some payload)
  else (⟨id, UInt32.ofNat ((i + 1) * FRAGMENT_DATA_SIZE)⟩, none)

section Split

variable {id : UInt32} {payload : Bytes} {i : Nat}

theorem lt_fragmentCount_iff : i < fragmentCount payload ↔ i * FRAGMENT_DATA_SIZE < payload.length := by
  rw [fragmentCount, FRAGMENT_DATA_SIZE]
  omega

theorem holding_getD : (holding id payload i).transfer.getD ⟨id, UInt32.ofNat payload.length, []⟩ =
    ⟨id, UInt32.ofNat payload.length, payload.take (i * FRAGMENT_DATA_SIZE)⟩ := by
  by_cases hi : i = 0
  · rw [holding, if_pos hi, hi, Nat.zero_mul, List.take_zero]
    rfl
  · rw [holding, if_neg hi]
    rfl

theorem received_holding (hi : i < fragmentCount payload) :
    (holding id payload i).received (fragmentAt id payload i) = .ok (i * FRAGMENT_DATA_SIZE) := by
  have hlt := lt_fragmentCount_iff.mp hi
  by_cases hzero : i = 0
  · rw [holding, if_pos hzero, received, fragmentAt, hzero, Nat.zero_mul]
    rfl
  · have hlength : (payload.take (i * FRAGMENT_DATA_SIZE)).length = i * FRAGMENT_DATA_SIZE := by
      rw [List.length_take, Nat.min_eq_left hlt.le]
    rw [holding, if_neg hzero, received, fragmentAt]
    simp only [ne_eq, not_true_eq_false, if_false, hlength]

/-- A payload's fragment is accepted by a reassembler that holds those before it. -/
theorem accept_fragmentAt (hid : id ≠ 0) (hle : payload.length ≤ MAX_TRANSFER_SIZE)
    (hi : i < fragmentCount payload) :
    (holding id payload i).accept (fragmentAt id payload i) =
      .ok (if i + 1 = fragmentCount payload then .new else holding id payload (i + 1),
        answer id payload i) := by
  have hlt := lt_fragmentCount_iff.mp hi
  have hmax : payload.length ≤ 2 ^ 22 := hle
  have htotal : (UInt32.ofNat payload.length).toNat = payload.length :=
    UInt32.toNat_ofNat_of_lt' (by show _ < 2 ^ 32; omega)
  have hsize : ¬ (UInt32.ofNat payload.length = 0 ∨ MAX_TRANSFER_SIZE < payload.length) := by
    rw [← UInt32.toNat_inj, htotal]
    rintro (hzero | hlarge)
    · change payload.length = 0 at hzero
      omega
    · exact absurd hle (not_le.mpr hlarge)
  have hdata : ¬ payload.length < i * FRAGMENT_DATA_SIZE +
      ((payload.drop (i * FRAGMENT_DATA_SIZE)).take FRAGMENT_DATA_SIZE).length := by
    rw [List.length_take, List.length_drop]
    omega
  have hbuf : payload.take (i * FRAGMENT_DATA_SIZE) ++
      (payload.drop (i * FRAGMENT_DATA_SIZE)).take FRAGMENT_DATA_SIZE =
        payload.take ((i + 1) * FRAGMENT_DATA_SIZE) := by
    rw [Nat.succ_mul, List.take_add]
  have hreceived := @received_holding id payload i hi
  have hgetD := @holding_getD id payload i
  have haccept : (holding id payload i).accept (fragmentAt id payload i) =
      (if UInt32.ofNat (payload.take ((i + 1) * FRAGMENT_DATA_SIZE)).length = UInt32.ofNat payload.length then
        .ok (⟨none⟩, ⟨id, UInt32.ofNat (payload.take ((i + 1) * FRAGMENT_DATA_SIZE)).length⟩,
          some (payload.take ((i + 1) * FRAGMENT_DATA_SIZE)))
      else
        .ok (⟨some ⟨id, UInt32.ofNat payload.length, payload.take ((i + 1) * FRAGMENT_DATA_SIZE)⟩⟩,
          ⟨id, UInt32.ofNat (payload.take ((i + 1) * FRAGMENT_DATA_SIZE)).length⟩, none)) := by
    simp only [accept, hreceived, bind, Except.bind]
    simp only [fragmentAt, if_neg hid, if_neg hsize, htotal, if_neg hdata, hgetD, hbuf, pure, Except.pure]
  rw [haccept, answer]
  by_cases hlast : i + 1 = fragmentCount payload
  · have hwhole : payload.take ((i + 1) * FRAGMENT_DATA_SIZE) = payload := by
      refine List.take_of_length_le ?_
      have hnot : ¬ i + 1 < fragmentCount payload := by omega
      rw [lt_fragmentCount_iff] at hnot
      omega
    rw [hwhole, if_pos rfl, if_pos hlast, if_pos hlast]
    rfl
  · have hmore : (i + 1) * FRAGMENT_DATA_SIZE < payload.length :=
      lt_fragmentCount_iff.mp (by omega)
    have hlength : (payload.take ((i + 1) * FRAGMENT_DATA_SIZE)).length = (i + 1) * FRAGMENT_DATA_SIZE := by
      rw [List.length_take, Nat.min_eq_left hmore.le]
    have hne : UInt32.ofNat ((i + 1) * FRAGMENT_DATA_SIZE) ≠ UInt32.ofNat payload.length := by
      rw [ne_eq, ← UInt32.toNat_inj, htotal, UInt32.toNat_ofNat_of_lt' (by show _ < 2 ^ 32; omega)]
      omega
    rw [hlength, if_neg hne, if_neg hlast, if_neg hlast, holding, if_neg (Nat.succ_ne_zero i)]

/-- The fragments from one on, accepted by a reassembler that holds those before. -/
theorem acceptAll_from (hid : id ≠ 0) (hle : payload.length ≤ MAX_TRANSFER_SIZE) {k : Nat}
    (hk : i + k = fragmentCount payload) :
    acceptAll (holding id payload i) ((List.range' i k).map (fragmentAt id payload)) =
      (List.range' i k).map fun i => .ok (answer id payload i) := by
  induction k generalizing i with
  | zero => rfl
  | succ k ih =>
      rw [List.range'_succ, List.map_cons, List.map_cons, acceptAll, accept_fragmentAt hid hle (by omega)]
      cases k with
      | zero => rfl
      | succ k =>
          rw [if_neg (by omega)]
          show Except.ok _ :: acceptAll (holding id payload (i + 1)) _ = _
          rw [ih (by omega)]

end Split

/-- **A payload split and sent in order comes back at the last fragment**, and only there. -/
theorem acceptAll_split {id : UInt32} (hid : id ≠ 0) {payload : Bytes} (hle : payload.length ≤ MAX_TRANSFER_SIZE) :
    acceptAll .new (fragments id payload) =
      (List.range (fragmentCount payload)).map fun i => .ok (answer id payload i) := by
  rw [fragments, List.range_eq_range']
  exact @acceptAll_from id payload 0 hid hle _ (Nat.zero_add _)

end Reassembler

/-- The fragments of a payload hold it. -/
theorem joined_split (id : UInt32) (payload : Bytes) : joined (fragments id payload) = payload := by
  have hjoined (n : Nat) : joined ((List.range n).map (fragmentAt id payload)) =
      payload.take (n * FRAGMENT_DATA_SIZE) := by
    induction n with
    | zero => rw [Nat.zero_mul, List.take_zero, List.range_zero]; rfl
    | succ n ih =>
        rw [List.range_succ, List.map_append, joined, List.flatMap_append, ← joined, ih, Nat.succ_mul,
          List.take_add]
        congr 1
        exact List.append_nil _
  rw [fragments, hjoined]
  refine List.take_of_length_le ?_
  rw [fragmentCount, FRAGMENT_DATA_SIZE]
  omega

/-- **A bulk transfer delivers exactly what was sent**: in every history an accepted fragment extends the
last fragments accepted, a payload is all of them and a refused one changes nothing; and the fragments of a
payload, accepted in order, bring it back at the last. -/
theorem bulk_transfer_delivers :
    (∀ ops f, let s := BulkHistory.run ops
      (∀ r ack payload, s.reassembler.accept f = .ok (r, ack, payload) →
        ∃ fs, Reassembler.Extends s.accepted f r ack payload fs) ∧
      (∀ e, s.reassembler.accept f = .error e → s.step (.accept f) = s) ∧
      ∀ t, s.reassembler.transfer = some t → t.buf.length ≤ t.totalSize.toNat) ∧
    ∀ id payload, id ≠ 0 → 1 ≤ payload.length → payload.length ≤ MAX_TRANSFER_SIZE →
      joined (fragments id payload) = payload ∧
      ∃ earlier, Reassembler.new.acceptAll (fragments id payload) =
          earlier ++ [.ok (⟨id, UInt32.ofNat payload.length⟩, some payload)] ∧
        ∀ outcome ∈ earlier, ∃ ack, outcome = .ok (ack, none) := by
  constructor
  · intro ops f s
    have hs := BulkHistory.holds_run ops
    refine ⟨fun r ack payload haccept => hs.accept haccept, fun e herror => ?_, fun t ht => ?_⟩
    · rw [BulkHistory.step, herror]
    · obtain ⟨-, -, -, -, hlt⟩ := hs t ht
      exact hlt.le
  · intro id payload hid hne hle
    refine ⟨joined_split id payload, ?_⟩
    obtain ⟨n, hn⟩ : ∃ n, fragmentCount payload = n + 1 := by
      refine Nat.exists_eq_add_of_le' ?_
      rw [fragmentCount, FRAGMENT_DATA_SIZE]
      omega
    refine ⟨(List.range n).map fun i => .ok (Reassembler.answer id payload i), ?_, ?_⟩
    · rw [Reassembler.acceptAll_split hid hle, hn, List.range_succ, List.map_append, List.map_singleton,
        Reassembler.answer, if_pos hn.symm]
    · intro outcome hmem
      obtain ⟨i, hi, rfl⟩ := List.mem_map.mp hmem
      have hnot : ¬ i + 1 = fragmentCount payload := by
        have := List.mem_range.mp hi
        omega
      rw [Reassembler.answer, if_neg hnot]
      exact ⟨_, rfl⟩

/-- A refused fragment between the two of a payload changes nothing. -/
theorem bulk_transfer_delivers_two :
    let f : Fragment := ⟨1, 3, 0, [7, 8]⟩
    let g : Fragment := ⟨1, 3, 2, [9]⟩
    (BulkHistory.run [.accept f]).step (.accept f) = BulkHistory.run [.accept f] ∧
      (∃ fs, Reassembler.Extends (BulkHistory.run [.accept f]).accepted g .new ⟨1, 3⟩ (some [7, 8, 9]) fs) ∧
      Reassembler.new.acceptAll (fragments 1 [7, 8, 9]) = [.ok (⟨1, 3⟩, some [7, 8, 9])] := by
  intro f g
  obtain ⟨hrun, hsplit⟩ := bulk_transfer_delivers
  refine ⟨(hrun [.accept f] f).2.1 (.wrongOffset 2 0) (by decide), (hrun [.accept f] g).1 _ _ _ (by decide), ?_⟩
  obtain ⟨-, earlier, hall, -⟩ := hsplit 1 [7, 8, 9] (by decide) (by decide) (by decide)
  have hone : earlier = [] := by
    have hlength := congrArg List.length hall
    rw [List.length_append, show (Reassembler.new.acceptAll (fragments 1 [7, 8, 9])).length = 1 by decide] at hlength
    exact List.length_eq_zero_iff.mp (Nat.succ.inj hlength).symm
  rw [hall, hone]
  rfl

end Ratum
