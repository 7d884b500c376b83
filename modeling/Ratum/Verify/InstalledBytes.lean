import Ratum.Base.Sums
import Ratum.Verify.Runs

/-!
# The coinbase bytes installed

The count a verifier keeps of the coinbase bytes it installed, which each share moves by what its coinbase
adds and what it takes the place of, is the bytes its slots hold.
-/

namespace Ratum
namespace Verifier

variable {H : Hashing} {v v' : Verifier} {s : PowSubmit} {now : Nat}

theorem mem_slots (slot : UInt8) : slot ∈ slots :=
  List.mem_map.mpr ⟨slot.toNat, List.mem_range.mpr slot.toNat_lt, UInt8.ofNat_toNat⟩

theorem slots_nodup : slots.Nodup := by
  refine List.Nodup.map_on (fun a ha b hb hsame => ?_) List.nodup_range
  have hnat := congrArg UInt8.toNat hsame
  rwa [UInt8.toNat_ofNat_of_lt' (List.mem_range.mp ha), UInt8.toNat_ofNat_of_lt' (List.mem_range.mp hb)]
    at hnat

/-! ### In place -/

/-- The first updates of `install_sections`: a new job in the share's slot. -/
def installJob (v : Verifier) (s : PowSubmit) (now : Nat) : Verifier :=
  match s.job.filter fun _ => v.bringsNewJob s with
  | some job =>
      { v with
        nextGeneration := v.nextGeneration + 1
        jobs := Function.update v.jobs s.jobId (some (v.newJobState job now)) }
  | none => v

/-- The share's coinbase, in the job its slot holds. -/
def installCoinbase (v : Verifier) (s : PowSubmit) : Verifier :=
  match s.coinbase with
  | some _ => { v with jobs := Function.update v.jobs s.jobId ((v.jobs s.jobId).map (·.withCoinbase s)) }
  | none => v

/-- `install_sections` as it updates the verifier, its answer beside what it leaves. -/
def installSectionsInPlace (v : Verifier) (s : PowSubmit) (rawPowHash : Hash) (now : Nat) :
    Except RejectReason Unit × Verifier :=
  let changesSlot := v.changesSlot s
  if changesSlot && v.installedBy.contains rawPowHash then (.error .duplicateWork, v)
  else
    let projected := v.projectedBytes s
    if s.coinbase.isSome && v.installedCoinbaseBytesCap < projected then (.error .coinbaseTooLarge, v)
    else
      let v := v.installJob s now
      let v := v.installCoinbase s
      let v := { v with installedCoinbaseBytes := projected }
      let v := { v with installedBy :=
                   if changesSlot then (BoundedSet.insert v.installedBy rawPowHash).2 else v.installedBy }
      (.ok (), if v.tip.isSome then v.evictJobsOffRecentTips now else v)

theorem installJob_eq (v : Verifier) (s : PowSubmit) (now : Nat) :
    v.installJob s now =
      { v with
        nextGeneration := if v.bringsNewJob s then v.nextGeneration + 1 else v.nextGeneration
        jobs := if v.bringsNewJob s
          then Function.update v.jobs s.jobId (s.job.map (v.newJobState · now)) else v.jobs } := by
  rw [installJob]
  cases hnew : v.bringsNewJob s with
  | true =>
      obtain ⟨job, hjob, -⟩ := bringsNewJob_eq_true hnew
      rw [hjob, Option.filter_some, if_pos rfl, if_pos rfl, if_pos rfl]
      rfl
  | false =>
      rw [Option.filter_eq_none_iff.mpr fun _ _ => Bool.false_ne_true, if_neg Bool.false_ne_true,
        if_neg Bool.false_ne_true]

theorem installCoinbase_eq (v : Verifier) (s : PowSubmit) :
    v.installCoinbase s =
      { v with jobs := Function.update v.jobs s.jobId ((v.jobs s.jobId).map (·.withCoinbase s)) } := by
  rw [installCoinbase]
  cases hcoinbase : s.coinbase with
  | some cb => rfl
  | none =>
      have hsame : (v.jobs s.jobId).map (·.withCoinbase s) = v.jobs s.jobId := by
        have hid (st : JobState) : st.withCoinbase s = st := by rw [JobState.withCoinbase, hcoinbase]
        rw [funext hid, Option.map_id']
      rw [hsame, Function.update_eq_self]

/-- The updates made in place are those of the verifier with the sections. -/
theorem installCoinbase_installJob (v : Verifier) (s : PowSubmit) (now : Nat) :
    (v.installJob s now).installCoinbase s =
      { v with
        nextGeneration := if v.bringsNewJob s then v.nextGeneration + 1 else v.nextGeneration
        jobs := Function.update v.jobs s.jobId (v.installedIn s now) } := by
  rw [installCoinbase_eq, installJob_eq]
  cases hnew : v.bringsNewJob s with
  | true =>
      obtain ⟨job, hjob, -⟩ := bringsNewJob_eq_true hnew
      rw [installedIn_new hjob hnew, hjob]
      simp only [if_true, Option.map_some, Function.update_self, Function.update_idem]
  | false =>
      rw [installedIn_known hnew]
      rfl

/-- The sections a share is installed with in place are those of the verifier it leaves. -/
theorem installSectionsInPlace_eq (v : Verifier) (s : PowSubmit) (rawPowHash : Hash) (now : Nat) :
    v.installSectionsInPlace s rawPowHash now =
      match v.installSections s rawPowHash now with
      | .error reason => (.error reason, v)
      | .ok v' => (.ok (), v') := by
  rw [installSections_guards, installSectionsInPlace]
  dsimp only
  rw [installCoinbase_installJob]
  split
  · rfl
  · split
    · rfl
    · rfl

/-! ### One slot -/

/-- The coinbase bytes of a slot. -/
def slotBytes (v : Verifier) (slot : UInt8) : Nat := (v.jobs slot).elim 0 JobState.coinbaseBytes

/-- The bytes of every coinbase of every slot. -/
def heldBytes (v : Verifier) : Nat := (slots.map v.slotBytes).sum

theorem slotBytes_of_sections (hsections : v'.sections = v.sections) : v'.slotBytes = v.slotBytes := by
  have hbytes (w : Verifier) : w.slotBytes = fun slot =>
      (w.sections slot).elim 0 fun held => (held.2.entries.map fun entry => entry.2.bytes).sum := by
    funext slot
    rw [slotBytes, sections]
    cases w.jobs slot with
    | none => rfl
    | some st => rfl
  rw [hbytes, hbytes, hsections]

theorem withCoinbase_bytes (st : JobState) (s : PowSubmit) :
    (st.withCoinbase s).coinbaseBytes +
        ((s.coinbase.bind fun cb => st.coinbases.lookup cb.coinbaseId).map CoinbaseSection.bytes).getD 0 =
      st.coinbaseBytes + s.coinbase.elim 0 CoinbaseSection.bytes := by
  cases hcoinbase : s.coinbase with
  | none =>
      rw [JobState.withCoinbase, hcoinbase]
      rfl
  | some cb =>
      have hinserted : (st.withCoinbase s).coinbaseBytes =
          cb.bytes + ((st.coinbases.entries.kerase cb.coinbaseId).map fun entry =>
            CoinbaseSection.bytes entry.2).sum := by
        rw [JobState.withCoinbase, hcoinbase]
        show ((st.coinbases.insert cb.coinbaseId cb).entries.map _).sum = _
        rw [AList.entries_insert, List.map_cons, List.sum_cons]
      have hheld := List.sum_kerase (fun entry => CoinbaseSection.bytes entry.2) cb.coinbaseId
        st.coinbases.entries
      rw [hinserted, JobState.coinbaseBytes, hheld, Option.bind_some, Option.elim_some]
      show _ + ((st.coinbases.entries.dlookup cb.coinbaseId).map _).getD 0 = _
      cases st.coinbases.entries.dlookup cb.coinbaseId with
      | none =>
          simp only [Option.map_none, Option.getD_none, Option.elim_none]
          omega
      | some held =>
          simp only [Option.map_some, Option.getD_some, Option.elim_some]
          omega

/-- A share that resolves and brings no job names one. -/
theorem job_of_resolve {job : JobSection} {cb : CoinbaseSection} (hresolve : v.resolve s = .ok (job, cb))
    (hknown : v.bringsNewJob s = false) : ∃ st, v.jobs s.jobId = some st := by
  cases hslot : v.jobs s.jobId with
  | some st => exact ⟨st, rfl⟩
  | none =>
      have hnone : (s.job.filter fun _ => v.bringsNewJob s) = none := by
        rw [hknown, Option.filter_eq_none_iff]
        exact fun _ _ => Bool.false_ne_true
      rw [resolve, resolveJob, hnone, hslot] at hresolve
      cases hresolve

/-- What a share that resolves makes of its slot's bytes. -/
theorem installedIn_bytes {job : JobSection} {cb : CoinbaseSection} (hresolve : v.resolve s = .ok (job, cb)) :
    ((v.installedIn s now).elim 0 JobState.coinbaseBytes) + v.replacedBytes s =
      v.slotBytes s.jobId + s.coinbase.elim 0 CoinbaseSection.bytes := by
  rw [replacedBytes]
  cases hnew : v.bringsNewJob s with
  | true =>
      obtain ⟨job', hjob, -⟩ := bringsNewJob_eq_true hnew
      rw [installedIn_new hjob hnew, if_pos rfl, Option.elim_some]
      have hbytes := withCoinbase_bytes (v.newJobState job' now) s
      have hempty : ((s.coinbase.bind fun cb => (v.newJobState job' now).coinbases.lookup cb.coinbaseId).map
          CoinbaseSection.bytes).getD 0 = 0 := by
        cases s.coinbase with
        | none => rfl
        | some cb => rfl
      have hnone : (v.newJobState job' now).coinbaseBytes = 0 := rfl
      rw [slotBytes]
      omega
  | false =>
      rw [installedIn_known hnew, if_neg Bool.false_ne_true]
      obtain ⟨st, hslot⟩ := job_of_resolve hresolve hnew
      simp only [heldCoinbase, slotBytes, hslot, Option.map_some, Option.elim_some, Option.bind_some]
      exact withCoinbase_bytes st s

/-- What a share takes the place of was in its slot. -/
theorem replacedBytes_le (v : Verifier) (s : PowSubmit) : v.replacedBytes s ≤ v.slotBytes s.jobId := by
  rw [replacedBytes, slotBytes]
  split
  · exact Nat.le_refl _
  · cases hslot : v.jobs s.jobId with
    | none =>
        simp only [heldCoinbase, hslot, Option.bind_none, Option.bind_fun_none, Option.map_none,
          Option.getD_none, Option.elim_none]
        exact Nat.le_refl _
    | some st =>
        cases s.coinbase with
        | none => exact Nat.zero_le _
        | some cb =>
            simp only [heldCoinbase, hslot, Option.bind_some, Option.elim_some]
            rw [JobState.coinbaseBytes, List.sum_kerase _ cb.coinbaseId]
            show ((st.coinbases.entries.dlookup cb.coinbaseId).map _).getD 0 ≤ _
            cases st.coinbases.entries.dlookup cb.coinbaseId with
            | none => exact Nat.zero_le _
            | some held => exact Nat.le_add_right _ _

/-! ### Every slot -/

/-- The bytes counted are the bytes held, and within the cap. -/
structure Counted (v : Verifier) : Prop where
  exact_ : v.installedCoinbaseBytes = v.heldBytes
  capped : v.installedCoinbaseBytes ≤ v.installedCoinbaseBytesCap

theorem Counted.new (policy : SharePolicy) : (Verifier.new policy).Counted where
  exact_ := by
    have hzero : (Verifier.new policy).slotBytes = fun _ => 0 := rfl
    rw [heldBytes, hzero, List.map_const', List.sum_replicate, nsmul_zero]
    rfl
  capped := Nat.zero_le _

theorem Counted.keeps (h : v.Counted) (hkeeps : v.Keeps v') : v'.Counted where
  exact_ := by
    rw [hkeeps.bytes, h.exact_, heldBytes, heldBytes, slotBytes_of_sections hkeeps.sections_eq]
  capped := by
    rw [hkeeps.bytes, hkeeps.cap]
    exact h.capped

/-- A share's sections are counted exactly: what is released was counted. -/
theorem Counted.withSections (h : v.Counted) {job : JobSection} {cb : CoinbaseSection}
    (hresolve : v.resolve s = .ok (job, cb))
    (hfits : s.coinbase.isSome → v.projectedBytes s ≤ v.installedCoinbaseBytesCap) (rawPowHash : Hash) :
    (v.withSections s rawPowHash now).Counted where
  exact_ := by
    have hslot : (v.installedIn s now).elim 0 JobState.coinbaseBytes + v.replacedBytes s = _ :=
      installedIn_bytes hresolve
    have hslots : (v.withSections s rawPowHash now).slotBytes =
        Function.update v.slotBytes s.jobId ((v.installedIn s now).elim 0 JobState.coinbaseBytes) := by
      funext slot
      obtain rfl | hne := eq_or_ne slot s.jobId
      · rw [slotBytes, withSections_jobs_self, Function.update_self]
      · rw [slotBytes, withSections_jobs_of_ne hne, Function.update_of_ne hne]
        rfl
    have hsum := List.sum_map_update slots_nodup (mem_slots s.jobId) v.slotBytes
      ((v.installedIn s now).elim 0 JobState.coinbaseBytes)
    have hheld : v.slotBytes s.jobId ≤ v.heldBytes :=
      List.single_le_sum (fun _ _ => Nat.zero_le _) _ (List.mem_map_of_mem (mem_slots s.jobId))
    have hreplaced := v.replacedBytes_le s
    show v.projectedBytes s = (slots.map (v.withSections s rawPowHash now).slotBytes).sum
    rw [hslots, projectedBytes, h.exact_]
    rw [heldBytes] at hheld ⊢
    omega
  capped := by
    show v.projectedBytes s ≤ v.installedCoinbaseBytesCap
    cases hcoinbase : s.coinbase with
    | some cb => exact hfits (by rw [hcoinbase]; rfl)
    | none =>
        rw [projectedBytes, hcoinbase, Option.elim_none, Nat.add_zero]
        exact (Nat.sub_le _ _).trans h.capped

end Verifier
end Ratum
