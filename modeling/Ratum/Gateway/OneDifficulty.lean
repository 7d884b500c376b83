import Ratum.Base.Lts
import Ratum.Gateway.Publish
import Ratum.Gateway.Vardiff

/-!
# The miner and the gateway are on one difficulty

What an adjustment can do to a difficulty, and from it what every order of notifies, shares and announcements
leaves: a power of two, at most halved since it was announced.
-/

namespace Ratum
namespace Vardiff

variable {v v' : Vardiff} {now : Instant}

/-! ### What divides -/

theorem checkedDiv_max_one (dividend divisor : UInt64) :
    checkedDiv dividend (max divisor 1) = some (dividend / max divisor 1) := by
  refine if_neg fun hzero => ?_
  have hle : 1 ≤ (max divisor 1).toNat := by
    rw [UInt64.toNat_max]
    exact Nat.le_max_right _ _
  rw [hzero] at hle
  exact absurd hle (by decide)

theorem targetMs_isSome (v : Vardiff) : ∃ targetMs, v.targetMs = some targetMs :=
  ⟨_, checkedDiv_max_one _ _⟩

/-- A rate that is measured is not zero. -/
theorem msPerShare_isSome (v : Vardiff) (now : Instant) :
    ∃ measured, v.msPerShare now = some measured ∧ ∀ ms ∈ measured, ms ≠ 0 := by
  rw [msPerShare]
  split
  · exact ⟨none, rfl, fun ms hms => by cases hms⟩
  · rename_i hmeasured
    have hn : v.sharesSinceSnapshot ≠ 0 := fun hzero => hmeasured (by rw [hzero]; rfl)
    rw [checkedDiv, if_neg hn]
    refine ⟨_, rfl, ?_⟩
    rintro ms ⟨⟩ hzero
    have hle : 1 ≤ (max (v.elapsedMs now / v.sharesSinceSnapshot) 1).toNat := by
      rw [UInt64.toNat_max]
      exact Nat.le_max_right _ _
    rw [hzero] at hle
    exact absurd hle (by decide)

/-! ### What an adjustment does -/

/-- The difficulty is left alone, halved or doubled, and only the window changes besides. -/
inductive Adjusts (v : Vardiff) : Vardiff → Prop
  | kept : Adjusts v v
  | halved (now : Instant) : Adjusts v (v.halve now)
  | doubled (now : Instant) : Adjusts v ({ v with current := v.current <<< 1 }.resetSnapshot now)

theorem adjustToRate_adjusts (v : Vardiff) (ms : UInt64) (now : Instant) :
    ∃ v', v.adjustToRate ms now = some v' ∧ Adjusts v v' := by
  obtain ⟨targetMs, htarget⟩ := v.targetMs_isSome
  have hfast : checkedDiv targetMs RATE_TOLERANCE = some (targetMs / RATE_TOLERANCE) := if_neg (by decide)
  rw [adjustToRate, htarget]
  simp only [hfast, Option.bind_eq_bind, Option.bind_some, Option.pure_def]
  split
  · exact ⟨_, rfl, .halved now⟩
  · split
    · exact ⟨_, rfl, .doubled now⟩
    · exact ⟨_, rfl, .kept⟩

theorem adjustOnNotify_adjusts (v : Vardiff) (now : Instant) :
    ∃ v', v.adjustOnNotify now = some v' ∧ Adjusts v v' ∧ (v.changePending = true → v' = v) := by
  rw [adjustOnNotify]
  split
  · exact ⟨v, rfl, .kept, fun _ => rfl⟩
  · rename_i hpending
    have hnone {v' : Vardiff} : v.changePending = true → v' = v := fun h => absurd h hpending
    split
    · split
      · exact ⟨_, rfl, .halved now, hnone⟩
      · exact ⟨_, rfl, .kept, hnone⟩
    · obtain ⟨measured, hmeasured, -⟩ := v.msPerShare_isSome now
      rw [hmeasured]
      cases measured with
      | none => exact ⟨v, rfl, .kept, hnone⟩
      | some ms =>
          obtain ⟨v', hadjust, hadjusts⟩ := v.adjustToRate_adjusts ms now
          exact ⟨v', hadjust, hadjusts, hnone⟩

/-- What an accepted share does: it raises, or adjusts as a notify does, and neither while a change is not
announced. -/
inductive SharesTo (v : Vardiff) : Bool → Vardiff → Prop
  | adjusted {v' : Vardiff} (hadjusts : Adjusts v v') (hpending : v.changePending = true → v' = v) :
      SharesTo v false v'
  | raised (raw : UInt64) (now : Instant) (hsettled : v.changePending = false)
      (hactive : v.quickdiffActive = false)
      (hcount : v.params.quickdiffCount ≤ v.sharesSinceSnapshot) :
      SharesTo v true ({ v with
        current := max (max (pow2Floor raw) 1) (v.current <<< MIN_QUICKDIFF_SHIFT) }.resetSnapshot now)

theorem quickRaise_eq (v : Vardiff) {ms : UInt64} (hms : ms ≠ 0) (now : Instant) :
    ∃ raw, v.quickRaise ms now = some ({ v with
      current := max (max (pow2Floor raw) 1) (v.current <<< MIN_QUICKDIFF_SHIFT) }.resetSnapshot now) := by
  obtain ⟨targetMs, htarget⟩ := v.targetMs_isSome
  have hfactor : checkedDiv targetMs ms = some (targetMs / ms) := if_neg hms
  rw [quickRaise, htarget]
  simp only [hfactor, Option.bind_eq_bind, Option.bind_some, Option.pure_def]
  exact ⟨_, rfl⟩

theorem adjustOnShare_sharesTo (v : Vardiff) (now : Instant) :
    ∃ raised v', v.adjustOnShare now = some (raised, v') ∧ SharesTo v raised v' := by
  rw [adjustOnShare]
  split
  · exact ⟨false, v, rfl, .adjusted .kept fun _ => rfl⟩
  · rename_i hready
    rw [Bool.or_eq_true, not_or, Bool.not_eq_true, decide_eq_true_eq, UInt64.not_lt] at hready
    obtain ⟨hsettled, hcount⟩ := hready
    have hnone {v' : Vardiff} : v.changePending = true → v' = v := by
      rw [hsettled]
      exact fun h => by cases h
    obtain ⟨measured, hmeasured, hpositive⟩ := v.msPerShare_isSome now
    obtain ⟨targetMs, htarget⟩ := v.targetMs_isSome
    rw [hmeasured]
    cases measured with
    | none => exact ⟨false, v, rfl, .adjusted .kept hnone⟩
    | some ms =>
        obtain ⟨raw, hraise⟩ := v.quickRaise_eq (hpositive ms rfl) now
        obtain ⟨v', hadjust, hadjusts⟩ := v.adjustToRate_adjusts ms now
        simp only [htarget, checkedDiv_max_one, hraise, hadjust, Option.bind_eq_bind, Option.bind_some,
          Option.pure_def]
        split
        · rename_i hquick
          rw [Bool.and_eq_true, Bool.not_eq_true'] at hquick
          exact ⟨true, _, rfl, .raised raw now hsettled hquick.1 hcount⟩
        · exact ⟨false, v', rfl, .adjusted hadjusts hnone⟩

/-! ### What stays true of the difficulty -/

/-- A power of two, not under the minimum, and no less than half the difficulty announced. -/
structure Sound (v : Vardiff) : Prop where
  min : v.params.min.IsPowerOfTwo
  current : v.current.IsPowerOfTwo
  above : v.params.min.toNat ≤ v.current.toNat
  half : v.lastSent.toNat ≤ 2 * v.current.toNat

theorem current_eq (hsettled : v.changePending = false) : v.lastSent = v.current := by
  rw [changePending, decide_eq_false_iff_not, not_not] at hsettled
  exact hsettled.symm

theorem pow2Floor_isPowerOfTwo (raw : UInt64) : pow2Floor raw = 0 ∨ (pow2Floor raw).IsPowerOfTwo := by
  rw [pow2Floor]
  split
  · exact .inl rfl
  · rename_i hraw
    have hne : raw.toNat ≠ 0 := fun hzero => hraw (UInt64.toNat_inj.mp hzero)
    have hlog : Nat.log2 raw.toNat < 64 := (Nat.log2_lt hne).mpr raw.toNat_lt
    have hexp : (UInt64.ofNat (floorLog2 raw.toNat)).toNat = Nat.log2 raw.toNat := by
      rw [floorLog2, UInt64.toNat_ofNat', Nat.mod_eq_of_lt (by omega)]
    refine .inr (UInt64.IsPowerOfTwo.one.shiftLeft (hexp ▸ hlog) ?_)
    rw [hexp, UInt64.toNat_one, Nat.one_mul]
    exact Nat.pow_lt_pow_right (by decide) hlog

/-- An adjustment that waits for the announced difficulty keeps it sound. -/
theorem Adjusts.sound (h : Adjusts v v') (hpending : v.changePending = true → v' = v) (hv : v.Sound)
    (hbelow : v.current.toNat < 2 ^ 61) : v'.Sound := by
  cases hchange : v.changePending with
  | true => rw [hpending hchange]; exact hv
  | false =>
      have hsent := current_eq hchange
      cases h with
      | kept => exact hv
      | halved now =>
          have hpos := hv.min.pos
          have hle : v.current.toNat ≤ 2 * (max (v.current >>> 1) v.params.min).toNat := by
            obtain ⟨k, hk⟩ := hv.current
            rw [UInt64.toNat_max, UInt64.toNat_shiftRight_one, hk]
            cases k with
            | zero => omega
            | succ k =>
                rw [Nat.pow_succ]
                omega
          refine ⟨hv.min, UInt64.IsPowerOfTwo.max_right hv.current.half hv.min, ?_, ?_⟩
          · show v.params.min.toNat ≤ (max (v.current >>> 1) v.params.min).toNat
            rw [UInt64.toNat_max]
            exact Nat.le_max_right _ _
          · show v.lastSent.toNat ≤ _
            rw [hsent]
            exact hle
      | doubled now =>
          have htwice : (v.current <<< 1).toNat = v.current.toNat * 2 :=
            UInt64.toNat_shiftLeft_of_lt (by decide) (by rw [UInt64.toNat_one]; omega)
          have habove := hv.above
          refine ⟨hv.min, hv.current.shiftLeft (by decide) (by rw [UInt64.toNat_one]; omega), ?_, ?_⟩
          · show v.params.min.toNat ≤ (v.current <<< 1).toNat
            omega
          · show v.lastSent.toNat ≤ 2 * (v.current <<< 1).toNat
            rw [hsent]
            omega

/-- A raise is to four times the announced difficulty at least. -/
theorem raised_sound (hv : v.Sound) (hsettled : v.changePending = false)
    (hbelow : v.current.toNat < 2 ^ 61) (raw : UInt64) (now : Instant) :
    let v' := { v with
      current := max (max (pow2Floor raw) 1) (v.current <<< MIN_QUICKDIFF_SHIFT) }.resetSnapshot now
    v'.Sound ∧ 4 * v.lastSent.toNat ≤ v'.current.toNat := by
  intro v'
  have hsent := current_eq hsettled
  have hshift : (v.current <<< MIN_QUICKDIFF_SHIFT).toNat = v.current.toNat * 4 :=
    UInt64.toNat_shiftLeft_of_lt (by decide) (by
      rw [show MIN_QUICKDIFF_SHIFT.toNat = 2 from rfl]
      omega)
  have hpower : (max (pow2Floor raw) 1).IsPowerOfTwo :=
    UInt64.IsPowerOfTwo.max_right (pow2Floor_isPowerOfTwo raw) .one
  have hfour : 4 * v.current.toNat ≤ v'.current.toNat := by
    show _ ≤ (max (max (pow2Floor raw) 1) (v.current <<< MIN_QUICKDIFF_SHIFT)).toNat
    rw [UInt64.toNat_max, hshift]
    exact (Nat.mul_comm _ _).le.trans (Nat.le_max_right _ _)
  have habove := hv.above
  refine ⟨⟨hv.min, hpower.max_left (.inr (hv.current.shiftLeft (by decide) ?_)), ?_, ?_⟩, hsent ▸ hfour⟩
  · rw [show MIN_QUICKDIFF_SHIFT.toNat = 2 from rfl]
    omega
  · show v.params.min.toNat ≤ v'.current.toNat
    omega
  · show v.lastSent.toNat ≤ 2 * v'.current.toNat
    rw [hsent]
    omega

/-- A notify announces and records the difficulty it holds at the floor. -/
theorem announced_eq (hne : v.current ≠ 0) (floor : UInt64) (quickdiff : Bool) :
    let diff := max v.current floor
    v.announced floor quickdiff =
      ({ announce := if v.lastSent ≠ diff then some diff else none, diff },
        { v with
          current := diff
          lastSent := diff
          quickdiffActive := quickdiff
          quickdiffValue := if quickdiff then diff else v.quickdiffValue }) := by
  intro diff
  have hdiff : diff ≠ 0 := by
    intro hzero
    have hmax := congrArg UInt64.toNat hzero
    rw [UInt64.toNat_max, UInt64.toNat_zero] at hmax
    exact hne (UInt64.toNat_inj.mp (by rw [UInt64.toNat_zero]; omega))
  rw [announced]
  simp only [markSent]
  change max v.current floor ≠ 0 at hdiff
  by_cases hchanged : v.lastSent = max v.current floor
  · simp [hchanged, diff]
  · simp [hchanged, hdiff, diff]

end Vardiff

/-! ### Every run -/

inductive VardiffStep : Vardiff → VardiffEvent → Vardiff → Prop
  | notify {v v' : Vardiff} {floor : UInt64} {quickdiff : Bool} {now : Instant} {sent : NotifyDifficulty}
      (hfloor : floor = 0 ∨ floor.IsPowerOfTwo)
      (hok : v.onNotify floor quickdiff now = some (sent, v')) :
      VardiffStep v (.notify floor quickdiff now sent) v'
  | share {v v' : Vardiff} {now : Instant} {raised : Bool}
      (hok : v.onShareAccepted now = some (raised, v')) : VardiffStep v (.share now raised) v'
  | markSent (v : Vardiff) : VardiffStep v (.markSent v.markSent.1) v.markSent.2
  | reset (v : Vardiff) (now : Instant) : VardiffStep v (.reset now) (v.resetSnapshot now)

/-- The runs of a connection's difficulty while it stays below `2 ^ 61`. -/
def vardiffRuns (params : VardiffParams) (start : Instant) : Lts Vardiff VardiffEvent :=
  Lts.restrict
    { init := fun v => v = .new params start, step := VardiffStep }
    fun v _ => v.current.toNat < 2 ^ 61

@[simp] theorem lastAnnounced_append (trace : List VardiffEvent) (event : VardiffEvent) :
    lastAnnounced (trace ++ [event]) = event.announces.or (lastAnnounced trace) := by
  rw [lastAnnounced, lastAnnounced, List.filterMap_append, List.getLast?_append]
  cases h : event.announces <;> simp [h]

@[simp] theorem sharesCounted_append (trace : List VardiffEvent) (event : VardiffEvent) :
    sharesCounted (trace ++ [event]) = VardiffEvent.countShares (sharesCounted trace) event :=
  List.foldl_concat ..

@[simp] theorem quickdiffOutstanding_append (trace : List VardiffEvent) (event : VardiffEvent) :
    quickdiffOutstanding (trace ++ [event]) =
      VardiffEvent.outstanding (quickdiffOutstanding trace) event :=
  List.foldl_concat ..

/-- What the history of a run says of the difficulty it ends with. -/
structure Vardiff.Follows (params : VardiffParams) (trace : List VardiffEvent) (v : Vardiff) : Prop where
  params : v.params = params
  sound : v.Sound
  announced : lastAnnounced trace = if v.lastSent = 0 then none else some v.lastSent
  outstanding : quickdiffOutstanding trace = v.quickdiffActive
  counted : v.sharesSinceSnapshot.toNat ≤ sharesCounted trace

namespace Vardiff

variable {params : VardiffParams} {trace : List VardiffEvent} {v v' : Vardiff}

/-- What an adjustment leaves besides the difficulty and the window. -/
theorem Adjusts.frame (h : Adjusts v v') :
    v'.params = v.params ∧ v'.lastSent = v.lastSent ∧ v'.quickdiffActive = v.quickdiffActive ∧
      v'.sharesSinceSnapshot.toNat ≤ v.sharesSinceSnapshot.toNat := by
  cases h with
  | kept => exact ⟨rfl, rfl, rfl, le_rfl⟩
  | halved now => exact ⟨rfl, rfl, rfl, Nat.zero_le _⟩
  | doubled now => exact ⟨rfl, rfl, rfl, Nat.zero_le _⟩

/-- A notify adjusts the difficulty, and then announces it. -/
theorem onNotify_cases {floor : UInt64} {quickdiff : Bool} {now : Instant} {sent : NotifyDifficulty}
    (hok : v.onNotify floor quickdiff now = some (sent, v')) :
    ∃ adjusted, Adjusts v adjusted ∧ (v.changePending = true → adjusted = v) ∧
      (sent, v') = adjusted.announced floor quickdiff := by
  rw [onNotify] at hok
  cases quickdiff with
  | true => exact ⟨v, .kept, fun _ => rfl, (Option.some.inj hok).symm⟩
  | false =>
      obtain ⟨adjusted, hadjust, hadjusts, hpending⟩ := v.adjustOnNotify_adjusts now
      rw [if_neg Bool.false_ne_true, hadjust] at hok
      exact ⟨adjusted, hadjusts, hpending, (Option.some.inj hok).symm⟩

theorem onNotify_isSome (v : Vardiff) (floor : UInt64) (quickdiff : Bool) (now : Instant) :
    (v.onNotify floor quickdiff now).isSome := by
  rw [onNotify]
  cases quickdiff with
  | true => rfl
  | false =>
      obtain ⟨adjusted, hadjust, -⟩ := v.adjustOnNotify_adjusts now
      rw [if_neg Bool.false_ne_true, hadjust]
      rfl

theorem onShareAccepted_isSome (v : Vardiff) (now : Instant) : (v.onShareAccepted now).isSome := by
  obtain ⟨raised, v', hshare, -⟩ := adjustOnShare_sharesTo
    { v with sharesSinceSnapshot := v.sharesSinceSnapshot + 1 } now
  rw [onShareAccepted, hshare]
  rfl

theorem onShareAccepted_cases {now : Instant} {raised : Bool}
    (hok : v.onShareAccepted now = some (raised, v')) :
    SharesTo { v with sharesSinceSnapshot := v.sharesSinceSnapshot + 1 } raised v' := by
  obtain ⟨raised', v'', hshare, hto⟩ := adjustOnShare_sharesTo
    { v with sharesSinceSnapshot := v.sharesSinceSnapshot + 1 } now
  rw [onShareAccepted, hshare] at hok
  obtain ⟨rfl, rfl⟩ := Prod.mk.inj (Option.some.inj hok)
  exact hto

theorem toNat_add_one_le (x : UInt64) : (x + 1).toNat ≤ x.toNat + 1 := by
  rw [UInt64.toNat_add, UInt64.toNat_one]
  exact Nat.mod_le _ _

theorem Follows.start (hmin : params.min.IsPowerOfTwo) (start : Instant) :
    Follows params [] (new params start) where
  params := rfl
  sound := ⟨hmin, hmin, le_rfl, Nat.zero_le _⟩
  announced := rfl
  outstanding := rfl
  counted := le_rfl

theorem Follows.lastAnnounced_of_settled (h : Follows params trace v) (hsettled : v.changePending = false) :
    lastAnnounced trace = some v.lastSent := by
  have hne : v.lastSent ≠ 0 := current_eq hsettled ▸ h.sound.current.ne_zero
  rw [h.announced, if_neg hne]

/-- What a notify records is announced, sound, and at the floor. -/
theorem Follows.notify (h : Follows params trace v) (hbelow : v.current.toNat < 2 ^ 61) {floor : UInt64}
    {quickdiff : Bool} {now : Instant} {sent : NotifyDifficulty}
    (hfloor : floor = 0 ∨ floor.IsPowerOfTwo)
    (hok : v.onNotify floor quickdiff now = some (sent, v')) :
    Follows params (trace ++ [.notify floor quickdiff now sent]) v' ∧
      sent.diff = v'.current ∧ v'.lastSent = v'.current ∧ floor.toNat ≤ v'.current.toNat ∧
      v.lastSent.toNat ≤ 2 * v'.current.toNat ∧
      (v.changePending = true → v'.current = max v.current floor) := by
  obtain ⟨adjusted, hadjusts, hpending, hannounced⟩ := onNotify_cases hok
  have hsound := hadjusts.sound hpending h.sound hbelow
  obtain ⟨hparams, hsent, hactive, hshares⟩ := hadjusts.frame
  rw [announced_eq hsound.current.ne_zero] at hannounced
  obtain ⟨rfl, rfl⟩ := Prod.mk.inj hannounced
  have hmax := UInt64.toNat_max adjusted.current floor
  have hhalf := hsound.half
  have habove := hsound.above
  have hpower := hsound.current.max_left hfloor
  refine ⟨⟨hparams.trans h.params, ⟨hsound.min, hpower, ?_, ?_⟩, ?_, ?_, ?_⟩, rfl, rfl, ?_, ?_, ?_⟩
  · show adjusted.params.min.toNat ≤ (max adjusted.current floor).toNat
    omega
  · show (max adjusted.current floor).toNat ≤ 2 * (max adjusted.current floor).toNat
    omega
  · rw [lastAnnounced_append, h.announced, ← hsent]
    show Option.or (if _ then _ else _) _ = if max adjusted.current floor = 0 then _ else _
    rw [if_neg hpower.ne_zero]
    by_cases hsame : adjusted.lastSent = max adjusted.current floor
    · rw [if_neg (not_not.mpr hsame), Option.none_or, hsame, if_neg hpower.ne_zero]
    · rw [if_pos hsame, Option.some_or]
  · rw [quickdiffOutstanding_append]
    rfl
  · rw [sharesCounted_append]
    exact hshares.trans h.counted
  · show floor.toNat ≤ (max adjusted.current floor).toNat
    omega
  · show v.lastSent.toNat ≤ 2 * (max adjusted.current floor).toNat
    rw [← hsent]
    omega
  · intro hchange
    show max adjusted.current floor = _
    rw [hpending hchange]

/-- What an accepted share does, and that it raises by four only when nothing is pending. -/
theorem Follows.share (h : Follows params trace v) (hbelow : v.current.toNat < 2 ^ 61) {now : Instant}
    {raised : Bool} (hok : v.onShareAccepted now = some (raised, v')) :
    Follows params (trace ++ [.share now raised]) v' ∧
      (v.changePending = true → raised = false ∧ v'.current = v.current) ∧
      (raised = true → params.quickdiffCount.toNat ≤ sharesCounted trace + 1 ∧
        quickdiffOutstanding trace = false ∧ v.changePending = false ∧
        4 * v.lastSent.toNat ≤ v'.current.toNat) := by
  have hcounted := (toNat_add_one_le v.sharesSinceSnapshot).trans (Nat.succ_le_succ h.counted)
  have hsound : Sound { v with sharesSinceSnapshot := v.sharesSinceSnapshot + 1 } :=
    ⟨h.sound.min, h.sound.current, h.sound.above, h.sound.half⟩
  cases onShareAccepted_cases hok with
  | adjusted hadjusts hpending =>
      obtain ⟨hparams, hsent, hactive, hshares⟩ := hadjusts.frame
      refine ⟨⟨hparams.trans h.params, hadjusts.sound hpending hsound hbelow, ?_, ?_, ?_⟩, ?_, ?_⟩
      · rw [lastAnnounced_append, hsent]
        exact h.announced
      · rw [quickdiffOutstanding_append, hactive]
        exact h.outstanding
      · rw [sharesCounted_append]
        exact hshares.trans hcounted
      · intro hchange
        rw [hpending hchange]
        exact ⟨rfl, rfl⟩
      · exact fun hraised => by cases hraised
  | raised raw now hsettled hactive hcount =>
      obtain ⟨hsound', hfour⟩ := raised_sound hsound hsettled hbelow raw now
      refine ⟨⟨h.params, hsound', ?_, ?_, ?_⟩, ?_, fun _ => ⟨?_, ?_, hsettled, hfour⟩⟩
      · rw [lastAnnounced_append]
        exact h.announced
      · rw [quickdiffOutstanding_append]
        exact h.outstanding
      · exact Nat.zero_le _
      · intro hchange
        exact absurd (hchange.symm.trans hsettled) Bool.true_eq_false.mp
      · have hle := UInt64.le_iff_toNat_le.mp hcount
        rw [h.params] at hle
        exact hle.trans hcounted
      · rw [h.outstanding]
        exact hactive

theorem Follows.step (h : Follows params trace v) (hbelow : v.current.toNat < 2 ^ 61)
    {event : VardiffEvent} (hstep : VardiffStep v event v') : Follows params (trace ++ [event]) v' := by
  cases hstep with
  | notify hfloor hok => exact (h.notify hbelow hfloor hok).1
  | share hok => exact (h.share hbelow hok).1
  | markSent =>
      have hne := h.sound.current.ne_zero
      have hmark : v.markSent = (v.current, { v with lastSent := v.current }) := by
        rw [markSent, if_neg hne]
      rw [hmark]
      refine ⟨h.params, ⟨h.sound.min, h.sound.current, h.sound.above, ?_⟩, ?_, ?_, ?_⟩
      · show v.current.toNat ≤ 2 * v.current.toNat
        omega
      · rw [lastAnnounced_append, if_neg hne]
        rfl
      · rw [quickdiffOutstanding_append]
        exact h.outstanding
      · rw [sharesCounted_append]
        exact h.counted
  | reset now =>
      refine ⟨h.params, ⟨h.sound.min, h.sound.current, h.sound.above, h.sound.half⟩, ?_, ?_, ?_⟩
      · rw [lastAnnounced_append]
        exact h.announced
      · rw [quickdiffOutstanding_append]
        exact h.outstanding
      · exact Nat.zero_le _

theorem follows_of_run {start : Instant} (hmin : params.min.IsPowerOfTwo)
    (hrun : (vardiffRuns params start).Run trace v) : Follows params trace v := by
  refine hrun.invariant (I := Follows params) ?_ ?_
  · rintro v rfl
    exact .start hmin start
  · intro trace v event v' h hstep
    exact h.step hstep.1 hstep.2

end Vardiff

/-! ### The difficulty named to the miner -/

theorem pow2Ceil_isPowerOfTwo (v : UInt64) : pow2Ceil v = 0 ∨ (pow2Ceil v).IsPowerOfTwo := by
  rw [pow2Ceil]
  split
  · exact .inl rfl
  · right
    obtain ⟨k, hk⟩ := Nat.isPowerOfTwo_nextPowerOfTwo v.toNat
    have hmin : min (2 ^ k) (2 ^ 63) = 2 ^ min k 63 := by
      rcases Nat.le_total k 63 with hle | hle
      · rw [Nat.min_eq_left hle, Nat.min_eq_left (Nat.pow_le_pow_right Nat.two_pos hle)]
      · rw [Nat.min_eq_right hle, Nat.min_eq_right (Nat.pow_le_pow_right Nat.two_pos hle)]
    have hlt : 2 ^ min k 63 < 2 ^ 64 := Nat.pow_lt_pow_right (by decide) (by omega)
    exact ⟨min k 63, by rw [hk, hmin, UInt64.toNat_ofNat', Nat.mod_eq_of_lt hlt]⟩

theorem notifyFloor_isPowerOfTwo (isDatumJob : Bool) (config : Option ClientConfig) :
    notifyFloor isDatumJob (config.map withRoundedMinDifficulty) = 0 ∨
      (notifyFloor isDatumJob (config.map withRoundedMinDifficulty)).IsPowerOfTwo := by
  cases isDatumJob with
  | false => exact .inl rfl
  | true =>
      cases config with
      | none => exact .inl rfl
      | some c => exact pow2Ceil_isPowerOfTwo c.minDifficulty

/-- The target byte of a notify names its difficulty. -/
theorem two_pow_notifyTargetByte {diff : UInt64} (hdiff : diff.IsPowerOfTwo) :
    2 ^ (notifyTargetByte diff).toNat = diff.toNat := by
  have hmax : (max diff 1).toNat = diff.toNat := by
    rw [UInt64.toNat_max, Nat.max_eq_left]
    exact hdiff.pos
  have hlog : Nat.log2 diff.toNat < 64 := (Nat.log2_lt hdiff.pos.ne').mpr diff.toNat_lt
  rw [notifyTargetByte, hmax, floorLog2, UInt8.toNat_ofNat', Nat.mod_eq_of_lt (by omega), hdiff.two_pow_log2]

/-- **The miner and the gateway are on one difficulty.** In every order of notifies, shares and announcements
while the difficulty is below `2 ^ 61`: what a notify records is a power of two, at the minimum and the floor,
announced last, named exactly by its target byte, and no less than half of what was announced before; nothing
but the floor moves a difficulty that is not announced; and a raise a share asks for comes after enough shares,
with no quickdiff outstanding, to four times the announced difficulty at least. Nothing is divided by zero. -/
theorem one_difficulty {params : VardiffParams} {start : Instant} (hmin : params.min.IsPowerOfTwo)
    {trace : List VardiffEvent} {v : Vardiff} (hrun : (vardiffRuns params start).Run trace v)
    (hbelow : v.current.toNat < 2 ^ 61) :
    (∀ floor quickdiff now sent v', VardiffStep v (.notify floor quickdiff now sent) v' →
      sent.diff.IsPowerOfTwo ∧ params.min ≤ sent.diff ∧ floor ≤ sent.diff ∧
      lastAnnounced (trace ++ [.notify floor quickdiff now sent]) = some sent.diff ∧
      2 ^ (notifyTargetByte sent.diff).toNat = sent.diff.toNat ∧
      ∀ announced ∈ lastAnnounced trace, announced.toNat ≤ 2 * sent.diff.toNat) ∧
    (lastAnnounced trace ≠ some v.current →
      (∀ floor quickdiff now sent v', VardiffStep v (.notify floor quickdiff now sent) v' →
        v'.current = max v.current floor) ∧
      ∀ now raised v', VardiffStep v (.share now raised) v' → raised = false ∧ v'.current = v.current) ∧
    (∀ now v', VardiffStep v (.share now true) v' →
      params.quickdiffCount.toNat ≤ sharesCounted trace + 1 ∧ quickdiffOutstanding trace = false ∧
      ∃ announced ∈ lastAnnounced trace, 4 * announced.toNat ≤ v'.current.toNat) ∧
    (∀ isDatumJob (config : Option ClientConfig),
      notifyFloor isDatumJob (config.map withRoundedMinDifficulty) = 0 ∨
        (notifyFloor isDatumJob (config.map withRoundedMinDifficulty)).IsPowerOfTwo) ∧
    ∀ (u : Vardiff) floor quickdiff now,
      (u.onNotify floor quickdiff now).isSome ∧ (u.onShareAccepted now).isSome := by
  have h := Vardiff.follows_of_run hmin hrun
  have hpending (hne : lastAnnounced trace ≠ some v.current) : v.changePending = true := by
    cases hchange : v.changePending with
    | true => rfl
    | false => exact absurd (Vardiff.current_eq hchange ▸ h.lastAnnounced_of_settled hchange) hne
  refine ⟨?_, fun hne => ⟨?_, ?_⟩, ?_, notifyFloor_isPowerOfTwo, fun u floor quickdiff now =>
    ⟨u.onNotify_isSome floor quickdiff now, u.onShareAccepted_isSome now⟩⟩
  · rintro floor quickdiff now sent v' (⟨hfloor, hok⟩ | _ | _ | _)
    obtain ⟨hfollows, hdiff, hsent, hheld, hhalf, -⟩ := h.notify hbelow hfloor hok
    have hpower := hfollows.sound.current
    rw [hdiff]
    refine ⟨hpower, ?_, hheld, ?_, two_pow_notifyTargetByte hpower, ?_⟩
    · rw [← hfollows.params]
      exact hfollows.sound.above
    · rw [hfollows.announced, hsent, if_neg hpower.ne_zero]
    · intro announced hannounced
      rw [h.announced] at hannounced
      split at hannounced
      · cases hannounced
      · cases hannounced
        exact hhalf
  · rintro floor quickdiff now sent v' (⟨hfloor, hok⟩ | _ | _ | _)
    exact (h.notify hbelow hfloor hok).2.2.2.2.2 (hpending hne)
  · rintro now raised v' (_ | hok | _ | _)
    exact (h.share hbelow hok).2.1 (hpending hne)
  · rintro now v' (_ | hok | _ | _)
    obtain ⟨hcount, houtstanding, hsettled, hfour⟩ := (h.share hbelow hok).2.2 rfl
    exact ⟨hcount, houtstanding, _, h.lastAnnounced_of_settled hsettled, hfour⟩

/-- A minute is the time of a share, and one raises. -/
def eagerParams : VardiffParams := ⟨16384, 1, 1, 8⟩

theorem one_difficulty_raised :
    ∃ v v', VardiffStep v (.share (Duration.fromSecs 1) true) v' ∧ v'.current = 524288 ∧
      ∃ announced ∈ lastAnnounced [.markSent 16384], 4 * announced.toNat ≤ v'.current.toNat := by
  have hmarked : (vardiffRuns eagerParams 0).Run ([] ++ [.markSent 16384]) (Vardiff.new eagerParams 0).markSent.2 :=
    .next (.start rfl) ⟨by decide, .markSent _⟩
  have hshare : VardiffStep (Vardiff.new eagerParams 0).markSent.2 (.share (Duration.fromSecs 1) true)
      { Vardiff.new eagerParams 0 with
        current := 524288, lastSent := 16384, snapshotAt := Duration.fromSecs 1 } := .share (by decide)
  exact ⟨_, _, hshare, rfl, ((one_difficulty ⟨14, rfl⟩ hmarked (by decide)).2.2.1 _ _ hshare).2.2⟩

end Ratum
