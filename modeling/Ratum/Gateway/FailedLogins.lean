import Ratum.Base.Amortized
import Ratum.Base.Traces
import Ratum.Core.Clock
import Ratum.Core.Maps
import Mathlib.Data.List.Dedup

/-!
# The failed logins of the admin pages

`FailedLogins` of `gateway/src/api/auth.rs`, and `limit_key` of `core/src/net.rs`. A check holds the lock of
the table throughout, but reads the clock before it takes it, so the times of successive checks need not
ascend. Which of the windows that started first is dropped depends on the table's order, and is an argument.
-/

namespace Ratum

inductive IpAddr
  | v4 (addr : BitVec 32)
  | v6 (addr : BitVec 128)
  deriving DecidableEq

/-- `Ipv6Addr::to_canonical`: the address a mapped one stands for. -/
def IpAddr.toCanonical : IpAddr → IpAddr
  | .v4 addr => .v4 addr
  | .v6 addr => if addr >>> 32 = 0xffff#128 then .v4 (addr.setWidth 32) else .v6 addr

/-- The address a limit counts a peer under. -/
def limitKey (ip : IpAddr) : IpAddr :=
  match ip.toCanonical with
  | .v6 addr => .v6 (addr &&& ~~~((1#128 <<< 64) - 1))
  | v4 => v4

def MAX_FAILURES : Nat := 10

def FAILURE_WINDOW : Duration := .fromSecs 60

def MAX_TRACKED_ADDRESSES : Nat := 1024

structure Failures where
  windowStart : Instant
  count : Nat

abbrev FailedLogins := HashMap IpAddr Failures

def Failures.ended (now : Instant) (f : Failures) : Bool := FAILURE_WINDOW ≤ now - f.windowStart

namespace FailedLogins

/-- Without the windows that have ended, if the table is full. -/
def shed (now : Instant) (held : FailedLogins) : FailedLogins :=
  if MAX_TRACKED_ADDRESSES ≤ held.keys.length then held.retain fun _ f => !f.ended now else held

/-- Whether the window that started first is dropped too. -/
def isFull (held : FailedLogins) : Bool := MAX_TRACKED_ADDRESSES ≤ held.keys.length

/-- An address whose window is one of those that started first. -/
def Oldest (held : FailedLogins) (oldest : IpAddr) : Prop :=
  ∃ f, held.lookup oldest = some f ∧ ∀ ip g, held.lookup ip = some g → f.windowStart ≤ g.windowStart

/-- A first failure of an address, with room made for it. -/
def track (ip : IpAddr) (now : Instant) (oldest : IpAddr) (held : FailedLogins) : FailedLogins :=
  let held := held.shed now
  let held : FailedLogins := if held.isFull then held.erase oldest else held
  held.insert ip ⟨now, 1⟩

/-- The part of `check` past the limit, with the result of `valid`. -/
def compare (ip : IpAddr) (now : Instant) (valid : Bool) (oldest : IpAddr) (held : FailedLogins) :
    Except Duration Bool × FailedLogins :=
  if valid then (.ok true, held)
  else
    match held.lookup ip with
    | some f => (.ok false, held.insert ip { f with count := f.count + 1 })
    | none => (.ok false, held.track ip now oldest)

def check (ip : IpAddr) (now : Instant) (valid : Bool) (oldest : IpAddr) (held : FailedLogins) :
    Except Duration Bool × FailedLogins :=
  match held.lookup ip with
  | none => held.compare ip now valid oldest
  | some f =>
      if f.ended now then compare ip now valid oldest (held.erase ip)
      else if MAX_FAILURES ≤ f.count then (.error (FAILURE_WINDOW - (now - f.windowStart)), held)
      else held.compare ip now valid oldest

end FailedLogins

/-- A check, its answer, and the address whose window was dropped for it while it had not ended. -/
structure LoginCheck where
  ip : IpAddr
  now : Instant
  answer : Except Duration Bool
  evicted : Option IpAddr

/-- A password was compared, and did not match. -/
def LoginCheck.failed (e : LoginCheck) : Bool :=
  match e.answer with
  | .ok false => true
  | _ => false

namespace FailedLogins

/-- Whether a failure of an address drops another one's window that has not ended. -/
def evicts (ip : IpAddr) (now : Instant) (held : FailedLogins) : Bool :=
  (held.lookup ip).isNone && (held.shed now).isFull

inductive Step : FailedLogins → LoginCheck → FailedLogins → Prop
  | check {held : FailedLogins} {ip oldest : IpAddr} {now : Instant} {valid : Bool}
      (holdest : held.evicts ip now → (held.shed now).Oldest oldest) :
      Step held
        ⟨ip, now, (held.check ip now valid oldest).1, if !valid && held.evicts ip now then some oldest else none⟩
        (held.check ip now valid oldest).2

/-- The checks of a table, in the order they take its lock. -/
def checking : Lts FailedLogins LoginCheck where
  init held := held = ∅
  step := Step

/-- The wrong passwords compared for an address. -/
def failures (ip : IpAddr) (trace : List LoginCheck) : Nat := trace.countP fun e => e.failed && e.ip = ip

def evictions (ip : IpAddr) (trace : List LoginCheck) : Nat := trace.countP fun e => e.evicted = some ip

/-- The addresses a wrong password was compared for. -/
def failing (trace : List LoginCheck) : List IpAddr := (trace.filter (·.failed)).map (·.ip)

/-! ### What one check does -/

/-- What a check leaves, and its answer. -/
inductive Checked (held : FailedLogins) (ip : IpAddr) (now : Instant) (valid : Bool) (oldest : IpAddr) :
    Except Duration Bool → FailedLogins → Prop
  | refused {f : Failures} (hheld : held.lookup ip = some f) (hopen : now - f.windowStart < FAILURE_WINDOW)
      (hover : MAX_FAILURES ≤ f.count) :
      Checked held ip now valid oldest (.error (FAILURE_WINDOW - (now - f.windowStart))) held
  | matched (hvalid : valid = true) (hkept : ∀ f, held.lookup ip = some f → f.count < MAX_FAILURES) :
      Checked held ip now valid oldest (.ok true) held
  | matchedAfter {f : Failures} (hvalid : valid = true) (hheld : held.lookup ip = some f)
      (hended : FAILURE_WINDOW ≤ now - f.windowStart) :
      Checked held ip now valid oldest (.ok true) (held.erase ip)
  | counted {f : Failures} (hvalid : valid = false) (hheld : held.lookup ip = some f)
      (hunder : f.count < MAX_FAILURES) :
      Checked held ip now valid oldest (.ok false) (held.insert ip { f with count := f.count + 1 })
  | restarted {f : Failures} (hvalid : valid = false) (hheld : held.lookup ip = some f)
      (hended : FAILURE_WINDOW ≤ now - f.windowStart) :
      Checked held ip now valid oldest (.ok false) (track ip now oldest (held.erase ip))
  | tracked (hvalid : valid = false) (hnone : held.lookup ip = none) :
      Checked held ip now valid oldest (.ok false) (held.track ip now oldest)

variable {held : FailedLogins} {ip oldest : IpAddr} {now : Instant} {valid : Bool}

theorem checked (held : FailedLogins) (ip : IpAddr) (now : Instant) (valid : Bool) (oldest : IpAddr) :
    Checked held ip now valid oldest (held.check ip now valid oldest).1 (held.check ip now valid oldest).2 := by
  unfold check compare Failures.ended
  cases hheld : held.lookup ip with
  | none =>
    cases hvalid : valid with
    | true => exact .matched rfl fun f hf => by cases hheld.symm.trans hf
    | false => exact .tracked rfl hheld
  | some f =>
    dsimp only
    split
    case isTrue hended =>
      have hended := of_decide_eq_true hended
      cases hvalid : valid with
      | true => exact .matchedAfter rfl hheld hended
      | false =>
        have hnone : AList.lookup ip (AList.erase ip held) = none := AList.lookup_erase ip held
        simp only [hnone, Bool.false_eq_true, if_false]
        exact .restarted rfl hheld hended
    case isFalse hopen =>
      have hopen : ¬ FAILURE_WINDOW ≤ now - f.windowStart := of_decide_eq_false (Bool.not_eq_true _ ▸ hopen)
      split
      case isTrue hover => exact .refused hheld (Nat.lt_of_not_le hopen) hover
      case isFalse hunder =>
        cases hvalid : valid with
        | true =>
          refine .matched rfl fun g hg => ?_
          cases hheld.symm.trans hg
          omega
        | false =>
          simp only [Bool.false_eq_true, if_false]
          exact .counted rfl hheld (by omega)

/-! ### What the table holds -/

/-- A window of a table counts failures of its address, at most as many as the limit. -/
structure Sound (trace : List LoginCheck) (held : FailedLogins) : Prop where
  bounded : held.keys.length ≤ MAX_TRACKED_ADDRESSES
  counted : ∀ ip f, held.lookup ip = some f →
    0 < f.count ∧ f.count ≤ MAX_FAILURES ∧ f.count ≤ failures ip trace

theorem lookup_shed {f : Failures} (h : (held.shed now).lookup ip = some f) : held.lookup ip = some f := by
  unfold shed at h
  split at h
  · rw [HashMap.lookup_retain] at h
    exact (Option.filter_eq_some_iff.mp h).1
  · exact h

/-- A window shed has ended. -/
theorem lookup_shed_of_open {f : Failures} (h : held.lookup ip = some f)
    (hopen : now - f.windowStart < FAILURE_WINDOW) : (held.shed now).lookup ip = some f := by
  unfold shed
  split
  · rw [HashMap.lookup_retain, Option.filter_eq_some_iff]
    refine ⟨h, ?_⟩
    simp [Failures.ended]
    omega
  · exact h

theorem length_retain_le (held : FailedLogins) (keep : IpAddr → Failures → Bool) :
    (held.retain keep).keys.length ≤ held.keys.length := by
  simp only [AList.keys, List.keys, List.length_map, HashMap.retain]
  exact List.length_filter_le _ _

theorem length_shed_le (now : Instant) (held : FailedLogins) : (held.shed now).keys.length ≤ held.keys.length := by
  unfold shed
  split
  · exact length_retain_le held _
  · exact le_rfl

theorem length_insert_le (held : FailedLogins) (ip : IpAddr) (f : Failures) :
    (AList.insert ip f held).keys.length ≤ held.keys.length + 1 := by
  rw [AList.keys_insert, List.length_cons]
  exact Nat.add_le_add_right (List.length_erase_le) 1

theorem length_insert_of_lookup {f g : Failures} (hheld : held.lookup ip = some f) :
    (AList.insert ip g held).keys.length = held.keys.length := by
  have hmem : ip ∈ held.keys := AList.mem_keys.mp (AList.lookup_isSome.mp (by rw [hheld]; rfl))
  have hpos := List.length_pos_of_mem hmem
  rw [AList.keys_insert, List.length_cons, List.length_erase_of_mem hmem]
  omega

theorem length_erase_of_lookup {f : Failures} (hheld : held.lookup ip = some f) :
    (AList.erase ip held).keys.length = held.keys.length - 1 := by
  have hmem : ip ∈ held.keys := AList.mem_keys.mp (AList.lookup_isSome.mp (by rw [hheld]; rfl))
  rw [AList.keys_erase, List.length_erase_of_mem hmem]

theorem isFull_iff (held : FailedLogins) : held.isFull = true ↔ MAX_TRACKED_ADDRESSES ≤ held.keys.length :=
  decide_eq_true_iff

/-- Room is made for one more window. -/
theorem length_track_le (hbounded : held.keys.length ≤ MAX_TRACKED_ADDRESSES)
    (holdest : (held.shed now).isFull → (held.shed now).Oldest oldest) :
    (held.track ip now oldest).keys.length ≤ MAX_TRACKED_ADDRESSES := by
  have hshed := length_shed_le now held
  unfold track
  dsimp only
  refine Nat.le_trans (length_insert_le _ _ _) ?_
  split
  case isTrue hfull =>
    obtain ⟨f, hf, -⟩ := holdest hfull
    rw [length_erase_of_lookup hf]
    have hpos : 0 < MAX_TRACKED_ADDRESSES := by decide
    omega
  case isFalse hroom =>
    rw [isFull_iff] at hroom
    omega

theorem lookup_track_self : AList.lookup ip (held.track ip now oldest) = some ⟨now, 1⟩ := AList.lookup_insert _

/-- Another address keeps its window, unless it has ended or is the one dropped. -/
theorem lookup_track_of_ne {other : IpAddr} (hne : other ≠ ip) {f : Failures}
    (h : AList.lookup other (held.track ip now oldest) = some f) : held.lookup other = some f := by
  unfold track at h
  rw [AList.lookup_insert_ne hne] at h
  split at h
  · by_cases heq : other = oldest
    · rw [heq, AList.lookup_erase] at h
      cases h
    · rw [AList.lookup_erase_ne heq] at h
      exact lookup_shed h
  · exact lookup_shed h

theorem lookup_track {other : IpAddr} (hne : other ≠ ip) {f : Failures} (h : held.lookup other = some f)
    (hopen : now - f.windowStart < FAILURE_WINDOW) (hkept : (held.shed now).isFull → other ≠ oldest) :
    AList.lookup other (held.track ip now oldest) = some f := by
  unfold track
  rw [AList.lookup_insert_ne hne]
  split
  case isTrue hfull => rw [AList.lookup_erase_ne (hkept hfull)]; exact lookup_shed_of_open h hopen
  case isFalse => exact lookup_shed_of_open h hopen

/-- A table without a window it held has room for another. -/
theorem not_isFull_erase {f : Failures} (hheld : held.lookup ip = some f)
    (hbounded : held.keys.length ≤ MAX_TRACKED_ADDRESSES) (now : Instant) :
    ¬ (shed now (AList.erase ip held)).isFull := by
  have hpos : 0 < held.keys.length :=
    List.length_pos_of_mem (AList.mem_keys.mp (AList.lookup_isSome.mp (by rw [hheld]; rfl)))
  have hshed := length_shed_le now (AList.erase ip held)
  rw [length_erase_of_lookup hheld] at hshed
  rw [isFull_iff]
  omega

theorem failures_singleton (a : IpAddr) (e : LoginCheck) :
    failures a [e] = if e.failed ∧ e.ip = a then 1 else 0 := by
  simp [failures, List.countP_singleton]

theorem evictions_singleton (a : IpAddr) (e : LoginCheck) :
    evictions a [e] = if e.evicted = some a then 1 else 0 := by
  simp [evictions, List.countP_singleton]

theorem failures_append (a : IpAddr) (trace trace' : List LoginCheck) :
    failures a (trace ++ trace') = failures a trace + failures a trace' := List.countP_append

theorem mem_failing {a : IpAddr} {trace : List LoginCheck} (h : 0 < failures a trace) : a ∈ failing trace := by
  obtain ⟨e, he, hfailed⟩ := List.countP_pos_iff.mp h
  obtain ⟨hfailed, hip⟩ := Bool.and_eq_true_iff.mp hfailed
  exact List.mem_map.mpr ⟨e, List.mem_filter.mpr ⟨he, hfailed⟩, of_decide_eq_true hip⟩

theorem failing_append (trace : List LoginCheck) (e : LoginCheck) :
    failing (trace ++ [e]) = failing trace ++ if e.failed then [e.ip] else [] := by
  rw [failing, List.filter_append, List.map_append, ← failing]
  cases hfailed : e.failed with
  | true => simp [hfailed]
  | false => simp [hfailed]

theorem Sound.step {trace : List LoginCheck} {held held' : FailedLogins} {e : LoginCheck}
    (hsound : Sound trace held) (hstep : checking.step held e held') : Sound (trace ++ [e]) held' := by
  obtain @⟨ip, oldest, now, valid, holdest⟩ := hstep
  have hchecked := checked held ip now valid oldest
  generalize (held.check ip now valid oldest).1 = answer, (held.check ip now valid oldest).2 = held'
    at hchecked
  have hkept {a : IpAddr} {f : Failures} (hf : held.lookup a = some f) (e : LoginCheck) :
      0 < f.count ∧ f.count ≤ MAX_FAILURES ∧ f.count ≤ failures a (trace ++ [e]) := by
    obtain ⟨hpos, hle, hcount⟩ := hsound.counted a f hf
    rw [failures_append]
    exact ⟨hpos, hle, Nat.le_add_right_of_le hcount⟩
  have hself {n : Nat} (hn : n ≤ failures ip trace) (evicted : Option IpAddr) :
      n + 1 ≤ failures ip (trace ++ [⟨ip, now, .ok false, evicted⟩]) := by
    rw [failures_append, failures_singleton, if_pos ⟨rfl, rfl⟩]
    exact Nat.succ_le_succ hn
  cases hchecked with
  | refused => exact ⟨hsound.bounded, fun a f hf => hkept hf _⟩
  | matched => exact ⟨hsound.bounded, fun a f hf => hkept hf _⟩
  | matchedAfter _ hheld =>
    refine ⟨?_, fun a f hf => ?_⟩
    · rw [length_erase_of_lookup hheld]
      exact Nat.le_trans (Nat.sub_le _ _) hsound.bounded
    · have hne : a ≠ ip := by
        rintro rfl
        rw [AList.lookup_erase] at hf
        cases hf
      rw [AList.lookup_erase_ne hne] at hf
      exact hkept hf _
  | counted _ hheld hunder =>
    refine ⟨by rw [length_insert_of_lookup hheld]; exact hsound.bounded, fun a f hf => ?_⟩
    by_cases hne : a = ip
    · rw [hne, AList.lookup_insert] at hf
      cases hf
      rw [hne]
      exact ⟨Nat.succ_pos _, hunder, hself (hsound.counted ip _ hheld).2.2 _⟩
    · rw [AList.lookup_insert_ne hne] at hf
      exact hkept hf _
  | restarted _ hheld =>
    have hroom := not_isFull_erase hheld hsound.bounded now
    refine ⟨length_track_le ?_ fun hfull => absurd hfull hroom, fun a f hf => ?_⟩
    · rw [length_erase_of_lookup hheld]
      exact Nat.le_trans (Nat.sub_le _ _) hsound.bounded
    · by_cases hne : a = ip
      · rw [hne, lookup_track_self] at hf
        cases hf
        rw [hne]
        exact ⟨Nat.one_pos, Nat.succ_le_of_lt (by decide), hself (Nat.zero_le _) _⟩
      · have hbefore := lookup_track_of_ne hne hf
        rw [AList.lookup_erase_ne hne] at hbefore
        exact hkept hbefore _
  | tracked _ hnone =>
    refine ⟨length_track_le hsound.bounded fun hfull => holdest (by simp [evicts, hnone, hfull]), fun a f hf => ?_⟩
    by_cases hne : a = ip
    · rw [hne, lookup_track_self] at hf
      cases hf
      rw [hne]
      exact ⟨Nat.one_pos, Nat.succ_le_of_lt (by decide), hself (Nat.zero_le _) _⟩
    · exact hkept (lookup_track_of_ne hne hf) _

theorem Sound.of_run {trace : List LoginCheck} (hrun : checking.Run trace held) : Sound trace held := by
  refine hrun.invariant (fun s hs => ?_) fun _ _ _ _ hsound hstep => hsound.step hstep
  rw [show s = ∅ from hs]
  exact ⟨Nat.zero_le _, fun ip f hf => by cases hf⟩

/-! ### What an address may still fail -/

/-- The wrong passwords an address may send from now on within a window's time from `start`. -/
def budget (start : Instant) (ip : IpAddr) (held : FailedLogins) : Nat :=
  match held.lookup ip with
  | none => MAX_FAILURES
  | some f => (MAX_FAILURES - f.count) + if f.windowStart < start then MAX_FAILURES else 0

theorem budget_le (start : Instant) (held : FailedLogins) : budget start ip held ≤ 2 * MAX_FAILURES := by
  unfold budget
  split
  · omega
  · split <;> omega

theorem budget_of_lookup {start : Instant} {f : Failures} (h : held.lookup ip = some f) :
    budget start ip held = (MAX_FAILURES - f.count) + if f.windowStart < start then MAX_FAILURES else 0 := by
  rw [budget, h]

theorem budget_of_none {start : Instant} (h : held.lookup ip = none) : budget start ip held = MAX_FAILURES := by
  rw [budget, h]

theorem budget_congr {start : Instant} {held' : FailedLogins} (h : held'.lookup ip = held.lookup ip) :
    budget start ip held' = budget start ip held := by
  rw [budget, budget, h]

theorem start_lt_of_ended {windowStart now start window : Nat} (hwindow : 0 < window)
    (hended : window ≤ now - windowStart) (hnow : now < start + window) : windowStart < start := by
  omega

/-- A window that ends before the time's end began before its start, and leaves as much as no window. -/
theorem le_budget_of_ended {start : Instant} {f : Failures} (h : held.lookup ip = some f)
    (hended : FAILURE_WINDOW ≤ now - f.windowStart) (hnow : now < start + FAILURE_WINDOW) :
    MAX_FAILURES ≤ budget start ip held := by
  have hbefore : f.windowStart < start := start_lt_of_ended (by decide) hended hnow
  rw [budget_of_lookup h, if_pos hbefore]
  omega

/-- A failure of one address costs another nothing, unless its window is the one dropped. -/
theorem budget_track_le (held : FailedLogins) (oldest : IpAddr) {start : Instant} {other : IpAddr} (hne : other ≠ ip)
    (hnow : now < start + FAILURE_WINDOW) :
    budget start other (held.track ip now oldest) ≤
      budget start other held + if (held.shed now).isFull ∧ oldest = other then MAX_FAILURES else 0 := by
  cases hheld : held.lookup other with
  | none =>
    have hnone : AList.lookup other (held.track ip now oldest) = none := by
      cases htrack : AList.lookup other (held.track ip now oldest) with
      | none => rfl
      | some f => cases hheld.symm.trans (lookup_track_of_ne hne htrack)
    rw [budget_of_none hnone, budget_of_none hheld]
    omega
  | some f =>
    by_cases hended : FAILURE_WINDOW ≤ now - f.windowStart
    · have hle := le_budget_of_ended hheld hended hnow
      cases htrack : AList.lookup other (held.track ip now oldest) with
      | none =>
        rw [budget_of_none htrack]
        omega
      | some g =>
        rw [budget_congr (htrack.trans (lookup_track_of_ne hne htrack).symm)]
        omega
    · by_cases hdropped : (held.shed now).isFull ∧ oldest = other
      · rw [if_pos hdropped]
        cases htrack : AList.lookup other (held.track ip now oldest) with
        | none =>
          rw [budget_of_none htrack]
          omega
        | some g =>
          rw [budget_congr (htrack.trans (lookup_track_of_ne hne htrack).symm)]
          omega
      · have htrack := lookup_track hne hheld (Nat.lt_of_not_le hended)
          fun hfull heq => hdropped ⟨hfull, heq.symm⟩
        rw [budget_congr (htrack.trans hheld.symm)]
        omega

/-- A check costs an address what it fails, and a window dropped early gives it all again. -/
theorem budget_step_le {trace : List LoginCheck} {held held' : FailedLogins} {e : LoginCheck} {start : Instant}
    (hsound : Sound trace held) (hstep : checking.step held e held') (hstart : start ≤ e.now)
    (hend : e.now < start + FAILURE_WINDOW) (a : IpAddr) :
    failures a [e] + budget start a held' ≤ budget start a held + MAX_FAILURES * evictions a [e] := by
  obtain @⟨ip, oldest, now, valid, holdest⟩ := hstep
  change start ≤ now at hstart
  change now < start + FAILURE_WINDOW at hend
  have hmax : 0 < MAX_FAILURES := by decide
  have hchecked := checked held ip now valid oldest
  generalize (held.check ip now valid oldest).1 = answer, (held.check ip now valid oldest).2 = held'
    at hchecked
  rw [failures_singleton, evictions_singleton]
  cases hchecked with
  | refused =>
    rw [if_neg (by simp [LoginCheck.failed])]
    omega
  | matched =>
    rw [if_neg (by simp [LoginCheck.failed])]
    omega
  | matchedAfter _ hheld hended =>
    rw [if_neg (by simp [LoginCheck.failed])]
    by_cases hne : a = ip
    · have hle := le_budget_of_ended hheld hended hend
      rw [hne, budget_of_none (AList.lookup_erase ip held)]
      omega
    · rw [budget_congr (AList.lookup_erase_ne hne)]
      omega
  | counted _ hheld hunder =>
    by_cases hne : a = ip
    · rw [hne, budget_of_lookup (AList.lookup_insert _), budget_of_lookup hheld, if_pos ⟨rfl, rfl⟩]
      dsimp only
      omega
    · rw [budget_congr (AList.lookup_insert_ne hne), if_neg fun h => hne h.2.symm]
      omega
  | restarted _ hheld hended =>
    by_cases hne : a = ip
    · have hle := le_budget_of_ended hheld hended hend
      rw [hne, budget_of_lookup lookup_track_self, if_neg (Nat.not_lt.mpr hstart), if_pos ⟨rfl, rfl⟩]
      dsimp only
      omega
    · have htrack := budget_track_le (AList.erase ip held) oldest hne hend
      rw [if_neg fun h => not_isFull_erase hheld hsound.bounded now h.1,
        budget_congr (AList.lookup_erase_ne hne)] at htrack
      rw [if_neg fun h => hne h.2.symm]
      omega
  | tracked hvalid hnone =>
    by_cases hne : a = ip
    · rw [hne, budget_of_lookup lookup_track_self, if_neg (Nat.not_lt.mpr hstart), budget_of_none hnone,
        if_pos ⟨rfl, rfl⟩]
      dsimp only
      omega
    · have htrack := budget_track_le held oldest hne hend
      have hevicted : evicts ip now held = (held.shed now).isFull := by
        rw [evicts, hnone]
        rfl
      rw [if_neg fun h => hne h.2.symm, hvalid, hevicted]
      split at htrack
      case isTrue hdropped =>
        rw [if_pos (by rw [hdropped.1, hdropped.2]; rfl)]
        omega
      case isFalse => omega

/-! ### Runs of checks -/

/-- The wrong passwords of an address within the time of a window. -/
theorem failures_le {before block : List LoginCheck} {held : FailedLogins} {start : Instant}
    (hrun : checking.Run (before ++ block) held)
    (hblock : ∀ e ∈ block, start ≤ e.now ∧ e.now < start + FAILURE_WINDOW) (a : IpAddr) :
    failures a block ≤ 2 * MAX_FAILURES - 1 + MAX_FAILURES * evictions a block := by
  have hcost : AddsUp (failures a) := .countP _
  have hgrant : AddsUp fun block => MAX_FAILURES * evictions a block := .const_mul (.countP _) _
  obtain ⟨held₀, hrun₀, hle⟩ := hrun.amortized hcost hgrant (budget start a)
    fun trace s e s' hr he hstep => budget_step_le (.of_run hr) hstep (hblock e he).1 (hblock e he).2 a
  have hbudget : budget start a held₀ ≤ 2 * MAX_FAILURES - 1 := by
    have hmax : 1 < MAX_FAILURES := by decide
    cases hheld : held₀.lookup a with
    | none =>
      rw [budget_of_none hheld]
      omega
    | some f =>
      have hpos := ((Sound.of_run hrun₀).counted a f hheld).1
      rw [budget_of_lookup hheld]
      split <;> omega
  omega

/-- A window is dropped early only past the addresses the table has room for. -/
theorem lt_length_failing_of_evicted {trace : List LoginCheck} {held held' : FailedLogins} {e : LoginCheck}
    (hsound : Sound trace held) (hstep : checking.step held e held') (hevicted : e.evicted ≠ none) :
    MAX_TRACKED_ADDRESSES < (failing (trace ++ [e])).dedup.length := by
  obtain @⟨ip, oldest, now, valid, holdest⟩ := hstep
  dsimp only at hevicted
  split at hevicted
  case isFalse => exact absurd rfl hevicted
  case isTrue hdrops =>
    obtain ⟨hvalid, hdrops⟩ := Bool.and_eq_true_iff.mp hdrops
    obtain ⟨hnone, hfull⟩ := Bool.and_eq_true_iff.mp hdrops
    have hvalid : valid = false := by simpa using hvalid
    have hnone : held.lookup ip = none := by simpa using hnone
    have hanswer : (held.check ip now valid oldest).1 = .ok false := by
      rw [check, hnone]
      simp [compare, hvalid, hnone]
    have hlen := (isFull_iff _).mp hfull
    have hle := length_shed_le now held
    -- the addresses held are failing ones, and this one is another
    have hnodup : (ip :: held.keys).Nodup := by
      refine List.nodup_cons.mpr ⟨fun hmem => ?_, held.nodupKeys⟩
      have hheld := AList.lookup_isSome.mpr (AList.mem_keys.mpr hmem)
      rw [hnone] at hheld
      cases hheld
    have hsub : ip :: held.keys ⊆ (failing (trace ++ [⟨ip, now, (held.check ip now valid oldest).1,
        if !valid && held.evicts ip now then some oldest else none⟩])).dedup := by
      intro a ha
      rw [List.mem_dedup, failing_append, if_pos (by simp [LoginCheck.failed, hanswer])]
      rcases List.mem_cons.mp ha with rfl | hmem
      · simp
      · obtain ⟨f, hf⟩ := Option.isSome_iff_exists.mp (AList.lookup_isSome.mpr (AList.mem_keys.mpr hmem))
        exact List.mem_append_left _ (mem_failing (Nat.lt_of_lt_of_le (hsound.counted a f hf).1 (hsound.counted a f hf).2.2))
    have hlength := (List.subperm_of_subset hnodup hsub).length_le
    rw [List.length_cons] at hlength
    omega

theorem evictions_eq_zero {before block : List LoginCheck} {held : FailedLogins}
    (hrun : checking.Run (before ++ block) held)
    (hfew : (failing (before ++ block)).dedup.length ≤ MAX_TRACKED_ADDRESSES) (a : IpAddr) :
    evictions a block = 0 := by
  refine List.countP_eq_zero.mpr fun e he hevicted => ?_
  obtain ⟨earlier, later, rfl⟩ := List.append_of_mem he
  rw [← List.append_assoc] at hrun
  obtain ⟨held₁, held₂, hrun₁, hstep⟩ := hrun.exists_step
  have hmany := lt_length_failing_of_evicted (.of_run hrun₁) hstep
    (by rw [of_decide_eq_true hevicted]; exact Option.some_ne_none a)
  have hsub : failing (before ++ earlier ++ [e]) ⊆ failing (before ++ (earlier ++ e :: later)) := by
    rw [show before ++ (earlier ++ e :: later) = before ++ earlier ++ [e] ++ later by simp]
    unfold failing
    rw [List.filter_append _ later, List.map_append]
    exact List.subset_append_left _ _
  have hdedup : (failing (before ++ earlier ++ [e])).dedup ⊆
      (failing (before ++ (earlier ++ e :: later))).dedup := fun ip hip =>
    List.mem_dedup.mpr (hsub (List.mem_dedup.mp hip))
  have hle := (List.subperm_of_subset (List.nodup_dedup _) hdedup).length_le
  omega

theorem refused_of_step {trace : List LoginCheck} {held held' : FailedLogins} {e : LoginCheck} {left : Duration}
    (hsound : Sound trace held) (hstep : checking.step held e held') (hrefused : e.answer = .error left) :
    0 < left ∧ left ≤ FAILURE_WINDOW ∧ MAX_FAILURES ≤ failures e.ip trace := by
  obtain @⟨ip, oldest, now, valid, holdest⟩ := hstep
  have hchecked := checked held ip now valid oldest
  rw [show (held.check ip now valid oldest).1 = .error left from hrefused] at hchecked
  generalize (held.check ip now valid oldest).2 = held' at hchecked
  cases hchecked with
  | refused hheld hopen hover =>
    exact ⟨Nat.sub_pos_of_lt hopen, Nat.sub_le _ _, Nat.le_trans hover (hsound.counted ip _ hheld).2.2⟩

/-- **Guesses at the admin password are limited**: however the checks of an address fall, and whatever those of
other addresses do, fewer than twice the limit fail within a window's time, unless the table has to drop
windows early. -/
theorem checking_guesses {before block : List LoginCheck} {held : FailedLogins} {start : Instant}
    (hrun : checking.Run (before ++ block) held)
    (hblock : ∀ e ∈ block, start ≤ e.now ∧ e.now < start + FAILURE_WINDOW) (a : IpAddr) :
    failures a block ≤ 2 * MAX_FAILURES - 1 + MAX_FAILURES * evictions a block ∧
      ((failing (before ++ block)).dedup.length ≤ MAX_TRACKED_ADDRESSES → evictions a block = 0) ∧
      (∀ earlier e later left, before ++ block = earlier ++ e :: later → e.answer = .error left →
        0 < left ∧ left ≤ FAILURE_WINDOW ∧ MAX_FAILURES ≤ failures e.ip earlier) ∧
      held.keys.length ≤ MAX_TRACKED_ADDRESSES := by
  refine ⟨failures_le hrun hblock a, fun hfew => evictions_eq_zero hrun hfew a, ?_, (Sound.of_run hrun).bounded⟩
  intro earlier e later left htrace hrefused
  rw [htrace] at hrun
  obtain ⟨held₁, held₂, hrun₁, hstep⟩ := hrun.exists_step
  exact refused_of_step (.of_run hrun₁) hstep hrefused

/-- A check whose result is the one an event states, no window being dropped for it. -/
def replay (held : FailedLogins) (e : LoginCheck) : Option FailedLogins :=
  let checked := held.check e.ip e.now (!e.failed) e.ip
  if held.evicts e.ip e.now = false ∧ checked.1 = e.answer ∧ e.evicted = none then some checked.2 else none

theorem step_of_replay {held held' : FailedLogins} {e : LoginCheck} (h : held.replay e = some held') :
    checking.step held e held' := by
  unfold replay at h
  dsimp only at h
  split at h
  case isFalse => cases h
  case isTrue hreplay =>
    obtain ⟨hkept, hanswer, hevicted⟩ := hreplay
    cases h
    have hstep := @Step.check held e.ip e.ip e.now (!e.failed) fun hevicts => by
      rw [hkept] at hevicts
      cases hevicts
    rw [hanswer, hkept, Bool.and_false, if_neg (by decide), ← hevicted] at hstep
    exact hstep

/-- As many wrong passwords at one time. -/
def guesses (ip : IpAddr) (n : Nat) (now : Instant) : List LoginCheck :=
  List.replicate n ⟨ip, now, .ok false, none⟩

/-- One wrong password, nine more just before its window ends, ten when it does, and then a check is refused. -/
theorem checking_guesses_tight : ∃ block : List LoginCheck, failures (.v4 1) block = 2 * MAX_FAILURES - 1 ∧
    failures (.v4 1) block ≤ 2 * MAX_FAILURES - 1 + MAX_FAILURES * evictions (.v4 1) block ∧
    evictions (.v4 1) block = 0 := by
  let before := guesses (.v4 1) 1 0
  let block := guesses (.v4 1) 9 (Duration.fromSecs 59) ++ guesses (.v4 1) 10 (Duration.fromSecs 60) ++
    [⟨.v4 1, Duration.fromSecs 61, .error (Duration.fromSecs 59), none⟩]
  have hruns : ∃ held, checking.Run (before ++ block) held :=
    Lts.exists_run_of_exec replay ∅ step_of_replay rfl (by decide +kernel)
  obtain ⟨held, hrun⟩ := hruns
  have hblock : ∀ e ∈ block, Duration.fromSecs 59 ≤ e.now ∧ e.now < Duration.fromSecs 59 + FAILURE_WINDOW := by
    decide +kernel
  obtain ⟨hle, hnone, -, -⟩ := checking_guesses hrun hblock (.v4 1)
  exact ⟨block, by decide +kernel, hle, hnone (by decide +kernel)⟩

end FailedLogins

end Ratum
