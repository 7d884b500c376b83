import Mathlib.Data.List.TakeWhile
import Ratum.Base.FailsIn
import Ratum.Core.Lossy
import Ratum.Datum.ShareWire

/-!
# What decodes, encoded again

A share that was decoded is decoded again from its encoding, unless the username it came with was
ill-formed and has grown past the longest one by the replacement characters.
-/

namespace Ratum

/-- Where the username starts. -/
def USERNAME_OFFSET : Nat := 30

/-- The bytes of the username, as they came. -/
def sentUsername (data : Bytes) : Bytes := (data.drop USERNAME_OFFSET).takeWhile (· ≠ 0)

/-! ### The sections fit -/

theorem readBranches_length {n : Nat} {c c' : ByteReader} {branches : List Hash}
    (h : JobSection.readBranches n c = .ok (branches, c')) : branches.length = n := by
  induction n generalizing c c' branches with
  | zero =>
      obtain ⟨rfl, -⟩ := Prod.mk.inj (Except.ok.inj h)
      rfl
  | succ n ih =>
      obtain ⟨⟨branch, c₁⟩, -, h⟩ := Gives.exists_of_bind h
      obtain ⟨⟨rest, c₂⟩, hrest, h⟩ := Gives.exists_of_bind h
      obtain ⟨rfl, -⟩ := Prod.mk.inj (Except.ok.inj h)
      rw [List.length_cons, ih hrest]

theorem JobSection.decode_fits (c : ByteReader) :
    Gives (fun read : JobSection × ByteReader => read.1.FitsWire) (JobSection.decode c) := by
  iterate 5 refine Gives.bind fun _ _ => ?_
  refine Gives.bind fun value hvalue => ?_
  iterate 4 refine Gives.bind fun _ _ => ?_
  refine Gives.bind fun n _ => ?_
  refine Gives.ite (fun _ => Gives.bind fun _ hthrow => by cases hthrow) fun hcount => ?_
  refine Gives.bind fun branches hbranches => Gives.ok ⟨?_, ?_⟩
  · exact (ByteReader.uint_ok (of_orTruncated hvalue)).1
  · show branches.1.length ≤ _
    rw [readBranches_length hbranches]
    exact not_lt.mp hcount

theorem CoinbaseSection.decode_fits (c : ByteReader) :
    Gives (fun read : CoinbaseSection × ByteReader => read.1.FitsWire) (CoinbaseSection.decode c) := by
  refine Gives.bind fun _ _ => ?_
  refine Gives.bind fun len1 hlen1 => ?_
  refine Gives.bind fun len2 hlen2 => ?_
  refine Gives.bind fun coinb1 hcoinb1 => ?_
  refine Gives.bind fun coinb2 hcoinb2 => Gives.ok ⟨?_, ?_⟩
  · show coinb1.1.length < _
    rw [(ByteReader.take_ok (of_orTruncated hcoinb1)).2.1]
    exact (ByteReader.uint_ok (of_orTruncated hlen1)).1
  · show coinb2.1.length < _
    rw [(ByteReader.take_ok (of_orTruncated hcoinb2)).2.1]
    exact (ByteReader.uint_ok (of_orTruncated hlen2)).1

structure ReadSections.FitsWire (read : ReadSections) : Prop where
  job : ∀ j, read.job = some j → j.FitsWire
  coinbase : ∀ cb, read.coinbase = some cb → cb.FitsWire

theorem ReadSections.fits_none : ReadSections.none.FitsWire :=
  ⟨fun _ hj => (Option.some_ne_none _ hj.symm).elim, fun _ hcb => (Option.some_ne_none _ hcb.symm).elim⟩

theorem readSections_fits (n : Nat) (c : ByteReader) {read : ReadSections} (hread : read.FitsWire) :
    Gives ReadSections.FitsWire (readSections n c read) := by
  induction n generalizing c read with
  | zero => exact Gives.error _
  | succ n ih =>
      refine Gives.bind fun marker _ => ?_
      refine Gives.ite (fun _ => Gives.ok hread) fun _ => ?_
      refine Gives.ite (fun _ => ?_) fun _ => ?_
      · refine Gives.bind fun job hjob => ih job.2 ⟨?_, hread.coinbase⟩
        rintro j ⟨rfl⟩
        exact JobSection.decode_fits _ _ hjob
      refine Gives.ite (fun _ => ?_) fun _ => ?_
      · refine Gives.bind fun coinbase hcoinbase => ih coinbase.2 ⟨hread.job, ?_⟩
        rintro cb ⟨rfl⟩
        exact CoinbaseSection.decode_fits _ _ hcoinbase
      refine Gives.ite (fun _ => ?_) fun _ => ?_
      · exact Gives.bind fun slot _ => ih slot.2 ⟨hread.job, hread.coinbase⟩
      refine Gives.ite (fun _ => ?_) fun _ => Gives.error _
      exact Gives.bind fun blake2b _ => ih blake2b.2 ⟨hread.job, hread.coinbase⟩

/-! ### The username -/

theorem SharePrefix.read_ok {data : Bytes} {start : SharePrefix} {c : ByteReader}
    (h : SharePrefix.read data = .ok (start, c)) : c.rest = data.drop 13 := by
  obtain ⟨c₀, hopen, h⟩ := Gives.exists_of_bind h
  obtain ⟨⟨_, c₁⟩, h₁, h⟩ := Gives.exists_of_bind h
  obtain ⟨⟨_, c₂⟩, h₂, h⟩ := Gives.exists_of_bind h
  obtain ⟨⟨_, c₃⟩, h₃, h⟩ := Gives.exists_of_bind h
  obtain ⟨⟨_, c₄⟩, h₄, h⟩ := Gives.exists_of_bind h
  obtain ⟨⟨_, c₅⟩, h₅, h⟩ := Gives.exists_of_bind h
  obtain ⟨⟨_, c₆⟩, h₆, h⟩ := Gives.exists_of_bind h
  obtain ⟨-, rfl⟩ := Prod.mk.inj (Except.ok.inj h)
  obtain ⟨⟨got, c⟩, hgot, hopen⟩ := Gives.exists_of_bind hopen
  obtain ⟨-, hopen⟩ := FailsIn.ok_of_guard hopen
  obtain rfl := Except.ok.inj hopen
  rw [ByteReader.u32_ok (of_orTruncated h₆), ByteReader.u32_ok (of_orTruncated h₅),
    ByteReader.u8_ok (of_orTruncated h₄), ByteReader.u8_ok (of_orTruncated h₃),
    ByteReader.u8_ok (of_orTruncated h₂), ByteReader.u8_ok (of_orTruncated h₁),
    ByteReader.u8_ok (of_orTruncated hgot)]
  simp only [ByteReader.new, List.drop_drop]

theorem readUsername_ok {c c' : ByteReader} {username : String} (h : readUsername c = .ok (username, c')) :
    username = fromUtf8Lossy (c.rest.takeWhile (· ≠ 0)) := by
  unfold readUsername at h
  split at h
  next nul hnul =>
    obtain ⟨c₁, -, h⟩ := Gives.exists_of_bind h
    obtain ⟨rfl, -⟩ := Prod.mk.inj (Except.ok.inj h)
    have hfound := (List.findIdx?_eq_some_iff_findIdx_eq.mp
      ((List.take_prefix _ _).findIdx?_eq_some hnul)).2
    rw [List.takeWhile_eq_take_findIdx_not, ← hfound]
    simp only [ne_eq, decide_not, Bool.not_not]
  next => cases h

/-- A username over the longest one has no zero byte among the first bytes. -/
theorem readUsername_long {full rest : Bytes} {username : String} (hnul : 0 ∉ stringBytes username)
    (hlong : MAX_USERNAME_LEN < (stringBytes username).length) :
    readUsername ⟨full, stringBytes username ++ rest⟩ = .error .badUsername := by
  have hfind : ((stringBytes username ++ rest).take (MAX_USERNAME_LEN + 1)).findIdx? (· = 0) = none := by
    rw [List.findIdx?_eq_none_iff, List.take_append_of_le_length hlong]
    intro b hb
    refine decide_eq_false ?_
    rintro rfl
    exact hnul (List.mem_of_mem_take hb)
  rw [readUsername, hfind]
  rfl

/-! ### What decodes -/

/-- What every decoded share has. -/
structure Decoded (data : Bytes) (s : PowSubmit) : Prop where
  username : s.username = fromUtf8Lossy (sentUsername data)
  job : ∀ j, s.job = some j → j.FitsWire
  coinbase : ∀ cb, s.coinbase = some cb → cb.FitsWire

theorem PowSubmit.decode_ok {data : Bytes} {s : PowSubmit} (h : PowSubmit.decode data = .ok s) :
    Decoded data s := by
  obtain ⟨⟨start, c₁⟩, hstart, h⟩ := Gives.exists_of_bind h
  obtain ⟨⟨version, c₂⟩, hversion, h⟩ := Gives.exists_of_bind h
  obtain ⟨⟨enSize, c₃⟩, hsize, h⟩ := Gives.exists_of_bind h
  obtain ⟨-, h⟩ := FailsIn.ok_of_guard (e := MessageError.badExtranonceSize enSize) h
  obtain ⟨⟨extranonce, c₄⟩, hextranonce, h⟩ := Gives.exists_of_bind h
  obtain ⟨⟨username, c₅⟩, husername, h⟩ := Gives.exists_of_bind h
  obtain ⟨⟨reserved, c₆⟩, hreserved, h⟩ := Gives.exists_of_bind h
  obtain ⟨read, hread, h⟩ := Gives.exists_of_bind h
  obtain ⟨hjob, hcoinbase⟩ := readSections_fits _ _ ReadSections.fits_none _ hread
  have hrest : c₄.rest = data.drop USERNAME_OFFSET := by
    rw [ByteReader.arr_ok (of_orTruncated hextranonce), ByteReader.u8_ok (of_orTruncated hsize),
      ByteReader.u32_ok (of_orTruncated hversion), SharePrefix.read_ok hstart, List.drop_drop, List.drop_drop,
      List.drop_drop]
    rfl
  cases hblake2b : read.blake2b with
  | none =>
      rw [hblake2b] at h
      cases h
  | some blake2b =>
      rw [hblake2b] at h
      obtain rfl := Except.ok.inj h
      refine ⟨?_, hjob, hcoinbase⟩
      rw [sentUsername, ← hrest]
      exact readUsername_ok husername

/-- A share with a longer username is not decoded from its encoding. -/
theorem PowSubmit.decode_encode_long {s : PowSubmit} (hnul : 0 ∉ stringBytes s.username)
    (hlong : MAX_USERNAME_LEN < (stringBytes s.username).length) :
    PowSubmit.decode s.encode = .error .badUsername := by
  have hsize : ¬ (UInt8.ofNat EXTRANONCE_SIZE).toNat ≠ EXTRANONCE_SIZE := by decide
  simp only [decode, SharePrefix.read, encode, encodeWith, openMessage_cons, ByteReader.u8_cons,
    orTruncated_ok, bind, Except.bind, ByteReader.u32_leBytes, ByteReader.arr_append, pure, Except.pure,
    if_neg hsize, readUsername_long hnul hlong]

/-- What decodes is decoded again from its encoding exactly when its username still fits. -/
theorem PowSubmit.decode_encode_iff {data : Bytes} {s : PowSubmit} (h : PowSubmit.decode data = .ok s) :
    PowSubmit.decode s.encode = .ok s ↔
      (stringBytes (fromUtf8Lossy (sentUsername data))).length ≤ MAX_USERNAME_LEN := by
  obtain ⟨husername, hjob, hcoinbase⟩ := decode_ok h
  have hsent : 0 ∉ sentUsername data := fun hmem => by
    simpa using List.mem_takeWhile_imp hmem
  have hnul : 0 ∉ stringBytes s.username := by
    rw [husername]
    exact zero_notMem_fromUtf8Lossy hsent
  rw [← husername]
  constructor
  · intro hdecode
    by_contra hlong
    rw [decode_encode_long hnul (not_le.mp hlong)] at hdecode
    cases hdecode
  · intro hle
    have hround := decode_encode ⟨hnul, hle, hjob, hcoinbase⟩ []
    rwa [List.append_nil] at hround

/-- **A share survives the wire**: encoded, padded, or with its sections in another order, and a share that
was decoded does so exactly when its username, decoded, still fits. -/
theorem share_survives_wire (s : PowSubmit) (data : Bytes) :
    (s.FitsWire → ∀ pad, PowSubmit.decode (s.encode ++ pad) = .ok s) ∧
    (s.FitsWire → ∀ order : List ShareSection, order.Perm s.sections → ∀ pad,
      PowSubmit.decode (s.encodeOrdered order ++ pad) = .ok s) ∧
    (PowSubmit.decode data = .ok s →
      (PowSubmit.decode s.encode = .ok s ↔
        (stringBytes (fromUtf8Lossy (sentUsername data))).length ≤ MAX_USERNAME_LEN)) :=
  ⟨fun hs pad => PowSubmit.decode_encode hs pad,
    fun hs _ horder pad => PowSubmit.decode_encodeOrdered hs horder pad,
    fun h => PowSubmit.decode_encode_iff h⟩

/-- A share whose username is ill-formed bytes, each of which becomes three. -/
def illFormedShare (bytes : Nat) : Bytes :=
  [SUBMIT_POW, 0, 0, FLAG_BLAKE2B, 0] ++ List.replicate 12 0 ++ UInt8.ofNat EXTRANONCE_SIZE ::
    List.replicate EXTRANONCE_SIZE 0 ++ List.replicate bytes 0xff ++ List.replicate 5 0 ++
    [SECTION_BLAKE2B, BLAKE2B_ALGORITHM] ++ List.replicate 16 0 ++ [BLAKE2B_TIME, 0, 0, 0, 0, STRUCT_END]

def illFormedSubmit (bytes : Nat) : PowSubmit :=
  { jobId := 0, coinbaseId := 0, isBlock := false, subsidyOnly := false, quickdiff := false, targetByte := 0
    ntime := 0, nonce := 0, version := 0, extranonce := Vector.replicate _ 0
    username := String.ofList (List.replicate bytes (Char.ofNat 0xfffd)), useTimeOffset := false
    job := none, coinbase := none
    blake2b := { siaNtime := Vector.replicate _ 0, siaNonce := Vector.replicate _ 0, timeOnWire := 0 }
    abwSlot := none }

/-- **A username of 129 ill-formed bytes does not survive**: decoded it has 387, which are refused. -/
theorem ill_formed_username_refused :
    PowSubmit.decode (illFormedShare 129) = .ok (illFormedSubmit 129) ∧
      PowSubmit.decode (illFormedSubmit 129).encode = .error .badUsername := by
  decide +kernel

theorem share_survives_wire_replaced :
    let s := { illFormedSubmit 2 with abwSlot := some 3 }
    PowSubmit.decode (s.encode ++ [7]) = .ok s ∧
      PowSubmit.decode (s.encodeOrdered s.sections.reverse ++ [7]) = .ok s ∧
      PowSubmit.decode (illFormedSubmit 2).encode = .ok (illFormedSubmit 2) := by
  intro s
  have hs : s.FitsWire := by
    refine ⟨by decide, by decide, fun j hj => ?_, fun cb hcb => ?_⟩
    · cases hj
    · cases hcb
  obtain ⟨hpad, horder, -⟩ := share_survives_wire s []
  obtain ⟨-, -, hagain⟩ := share_survives_wire (illFormedSubmit 2) (illFormedShare 2)
  exact ⟨hpad hs [7], horder hs _ (List.reverse_perm _) [7], (hagain (by decide +kernel)).mpr (by decide)⟩

end Ratum
