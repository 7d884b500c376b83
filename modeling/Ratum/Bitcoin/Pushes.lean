import Ratum.Bitcoin.Script

/-!
# The pushes read back

What `script_pushes` reads of a script that begins with what `height_push` and `encode_push` write, whatever
follows.
-/

namespace Ratum

/-- Any fuel that covers the script reads the same pushes. -/
theorem pushesFrom_fuel (fuel fuel' at_ : Nat) (script : Bytes) (hfuel : script.length ≤ fuel)
    (hfuel' : script.length ≤ fuel') : pushesFrom fuel at_ script = pushesFrom fuel' at_ script := by
  induction fuel generalizing fuel' at_ script with
  | zero =>
      obtain rfl := List.length_eq_zero_iff.mp (Nat.le_zero.mp hfuel)
      cases fuel' <;> rfl
  | succ fuel ih =>
      cases script with
      | nil => cases fuel' <;> rfl
      | cons opcode rest =>
          obtain ⟨fuel', rfl⟩ := Nat.exists_eq_add_of_le' (Nat.le_trans (Nat.succ_pos _) hfuel')
          rw [List.length_cons] at hfuel hfuel'
          rw [pushesFrom, pushesFrom]
          cases lengthBytes opcode with
          | none => exact ih _ _ _ (by omega) (by omega)
          | some n =>
              dsimp only
              rw [ih fuel' _ _ (by simp only [List.length_drop]; omega)
                (by simp only [List.length_drop]; omega)]

/-- The pushes of a script that begins at an offset. -/
def pushesAt (at_ : Nat) (script : Bytes) : List ScriptPush := pushesFrom script.length at_ script

theorem pushesAt_skip {opcode : UInt8} (hopcode : lengthBytes opcode = none) (at_ : Nat) (rest : Bytes) :
    pushesAt at_ (opcode :: rest) = pushesAt (at_ + 1) rest := by
  rw [pushesAt, List.length_cons, pushesFrom, hopcode]
  rfl

theorem lengthBytes_direct {n : Nat} (hpos : 0 < n) (hle : n ≤ MAX_DIRECT_PUSH) :
    lengthBytes (UInt8.ofNat n) = some 0 := by
  have hdirect : ∀ n : Fin 76, 0 < n.val → lengthBytes (UInt8.ofNat n.val) = some 0 := by decide
  exact hdirect ⟨n, Nat.lt_succ_of_le hle⟩ hpos

/-- A push is read whole, and what follows it from where it ends. -/
theorem pushesAt_push {opcode : UInt8} {lenBytes data : Bytes}
    (hopcode : lengthBytes opcode = some lenBytes.length)
    (hlen : (if lenBytes.length = 0 then opcode.toNat else leNat lenBytes) = data.length) (at_ : Nat)
    (rest : Bytes) :
    pushesAt at_ (opcode :: (lenBytes ++ (data ++ rest))) =
      ⟨at_ + 1 + lenBytes.length, data⟩ :: pushesAt (at_ + 1 + lenBytes.length + data.length) rest := by
  have hroom : ¬ (lenBytes ++ (data ++ rest)).length < lenBytes.length := by
    rw [List.length_append]
    omega
  have hroom' : ¬ (data ++ rest).length < data.length := by
    rw [List.length_append]
    omega
  rw [pushesAt, List.length_cons, pushesFrom, hopcode]
  dsimp only
  rw [if_neg hroom, List.take_left, List.drop_left, hlen, if_neg hroom', List.take_left, List.drop_left]
  refine congrArg (List.cons _) (pushesFrom_fuel _ _ _ _ ?_ le_rfl)
  simp only [List.length_append]
  omega

/-- Where a push holds its data. -/
def pushDataAt (data : Bytes) : Nat := if MAX_DIRECT_PUSH < data.length then 2 else 1

theorem length_encodePush (data : Bytes) : (encodePush data).length = pushDataAt data + data.length := by
  rw [encodePush, pushDataAt]
  split <;> simp only [List.length_append, List.length_cons, List.length_nil] <;> omega

theorem pushesAt_encodePush {data : Bytes} (hpos : 0 < data.length) (hle : data.length ≤ 255) (at_ : Nat)
    (rest : Bytes) :
    pushesAt at_ (encodePush data ++ rest) =
      ⟨at_ + pushDataAt data, data⟩ :: pushesAt (at_ + (encodePush data).length) rest := by
  have hbyte : (UInt8.ofNat data.length).toNat = data.length :=
    UInt8.toNat_ofNat_of_lt' (by show data.length < 256; omega)
  rw [length_encodePush, pushDataAt]
  by_cases hlong : MAX_DIRECT_PUSH < data.length
  · have hscript : encodePush data ++ rest = 0x4c :: ([UInt8.ofNat data.length] ++ (data ++ rest)) := by
      rw [encodePush, if_pos hlong]
      rfl
    have hlen : (if [UInt8.ofNat data.length].length = 0 then (0x4c : UInt8).toNat
        else leNat [UInt8.ofNat data.length]) = data.length := hbyte
    rw [hscript, pushesAt_push rfl hlen, if_pos hlong, ← Nat.add_assoc]
    rfl
  · have hscript : encodePush data ++ rest =
        UInt8.ofNat data.length :: (([] : Bytes) ++ (data ++ rest)) := by
      rw [encodePush, if_neg hlong]
      rfl
    have hopcode : lengthBytes (UInt8.ofNat data.length) = some ([] : Bytes).length :=
      lengthBytes_direct hpos (not_lt.mp hlong)
    rw [hscript, pushesAt_push hopcode hbyte, if_neg hlong, ← Nat.add_assoc]
    rfl

/-! ### The height -/

theorem length_minimalBytes {k v : Nat} (hv : v < 256 ^ k) (fuel : Nat) : (minimalBytes fuel v).length ≤ k := by
  induction fuel generalizing k v with
  | zero => exact Nat.zero_le _
  | succ fuel ih =>
      rw [minimalBytes]
      split
      · exact Nat.zero_le _
      · cases k with
        | zero => omega
        | succ k => exact Nat.succ_le_succ (ih (Nat.div_lt_of_lt_mul (by rwa [Nat.pow_succ, Nat.mul_comm] at hv)))

theorem encodePush_short {data : Bytes} (hle : data.length ≤ MAX_DIRECT_PUSH) :
    encodePush data = UInt8.ofNat data.length :: data := by
  rw [encodePush, if_neg (not_lt.mpr hle)]
  rfl

/-- A height is an opcode that pushes no bytes after it, or a push of a few bytes. -/
theorem heightPush_cases (height : UInt32) :
    (∃ opcode, heightPush height = [opcode] ∧ lengthBytes opcode = none) ∨
      ∃ data : Bytes, heightPush height = encodePush data ∧ 0 < data.length ∧ data.length ≤ 5 := by
  rw [heightPush]
  split
  · exact .inl ⟨0x00, rfl, by decide⟩
  · rename_i hzero
    have hzero : height.toNat ≠ 0 := fun hnat => hzero (UInt32.toNat_inj.mp hnat)
    split
    · rename_i hsmall
      have hop : ∀ n : Fin 17, n.val ≠ 0 → lengthBytes (0x50 + UInt8.ofNat n.val) = none := by decide
      have hle : height.toNat ≤ 16 := UInt32.le_iff_toNat_le.mp hsmall
      exact .inl ⟨_, rfl, hop ⟨height.toNat, Nat.lt_succ_of_le hle⟩ hzero⟩
    · have hlength := length_minimalBytes (show height.toNat < 256 ^ 4 from height.toNat_lt) 4
      have hpos : 0 < (minimalBytes 4 height.toNat).length := by
        rw [minimalBytes, if_neg hzero]
        exact Nat.succ_pos _
      refine .inr ?_
      dsimp only
      generalize minimalBytes 4 height.toNat = bytes at hlength hpos
      split
      · have hle : (bytes ++ [0]).length ≤ 5 := by
          rw [List.length_append]
          exact Nat.succ_le_succ hlength
        exact ⟨bytes ++ [0], (encodePush_short (hle.trans (by decide))).symm,
          by rw [List.length_append]; omega, hle⟩
      · exact ⟨bytes, (encodePush_short (hlength.trans (by decide))).symm, hpos, by omega⟩

/-- A height below the first that takes a sign byte after three. -/
theorem length_heightPush {height : UInt32} (hheight : height.toNat < 2 ^ 23) : (heightPush height).length ≤ 4 := by
  rw [heightPush]
  split
  · decide
  · split
    · exact Nat.succ_le_succ (Nat.zero_le _)
    · dsimp only
      rw [List.length_cons]
      refine Nat.succ_le_succ ?_
      by_cases hshort : height.toNat < 256 ^ 2
      · have hlength := length_minimalBytes hshort 4
        split
        · rw [List.length_append]
          exact Nat.succ_le_succ hlength
        · omega
      · have hbytes : minimalBytes 4 height.toNat = [UInt8.ofNat height.toNat, UInt8.ofNat (height.toNat / 256),
            UInt8.ofNat (height.toNat / 256 / 256)] := by
          rw [minimalBytes, if_neg (by omega), minimalBytes, if_neg (by omega), minimalBytes, if_neg (by omega),
            minimalBytes, if_pos (by omega)]
        have hsign : ∀ n : Fin 128, UInt8.ofNat n.val &&& 0x80 = 0 := by decide
        have hlast : UInt8.ofNat (height.toNat / 256 / 256) &&& 0x80 = 0 :=
          hsign ⟨height.toNat / 256 / 256, by omega⟩
        rw [hbytes]
        simp [hlast]

/-- The pushes of what follows a height begin at its end, after one short push or none. -/
theorem pushesAt_heightPush (height : UInt32) (rest : Bytes) :
    ∃ before : List ScriptPush, before.length ≤ 1 ∧ (∀ push ∈ before, push.data.length ≤ 5) ∧
      pushesAt 0 (heightPush height ++ rest) = before ++ pushesAt (heightPush height).length rest := by
  obtain ⟨opcode, hheight, hopcode⟩ | ⟨data, hheight, hpos, hle⟩ := heightPush_cases height
  · refine ⟨[], Nat.zero_le _, fun push hpush => (List.not_mem_nil hpush).elim, ?_⟩
    rw [hheight]
    exact pushesAt_skip hopcode 0 rest
  · refine ⟨[⟨0 + pushDataAt data, data⟩], le_rfl, ?_, ?_⟩
    · intro push hpush
      rw [List.mem_singleton.mp hpush]
      exact hle
    · rw [hheight, pushesAt_encodePush hpos (by omega), Nat.zero_add (encodePush data).length]
      rfl

end Ratum
