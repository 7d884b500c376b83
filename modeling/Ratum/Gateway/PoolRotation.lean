import Ratum.Base.Lts
import Ratum.Core.Word
import Mathlib.Data.List.Count
import Mathlib.Data.List.Induction

/-!
# The rotation of the pools

`PoolRotation` of `gateway/src/datum.rs`: which pool the next session opens on, and when the stratum clients
are shut out. A session is a label of the system: it opens on the pool the rotation is at, and a probe that
ends it found an earlier one.
-/

namespace Ratum

/-- The most elements a `Vec` holds. -/
def MAX_VEC_LEN : Nat := 2 ^ 63 - 1

/-- `failures` counts the sessions since the last active one, that one included. -/
structure PoolRotation where
  count : Nat
  index : Nat
  failures : Nat
  deriving DecidableEq

/-- Where the next session opens, whether after a delay, and whether the clients are shut out before it. -/
structure NextPool where
  index : Nat
  delay : Bool
  shutdown : Bool
  deriving DecidableEq

/-- A session of the gateway: its pool, whether it received a configuration, the earlier pool a probe found,
and whether the clients were shut out on its end. -/
structure PoolSession where
  pool : Nat
  wasActive : Bool
  returnTo : Option Nat
  shutdown : Bool
  deriving DecidableEq

namespace PoolRotation

def new (count : Nat) : PoolRotation := { count, index := 0, failures := 0 }

def next (r : PoolRotation) (wasActive : Bool) (returnTo : Option Nat) : NextPool × PoolRotation :=
  let failures := if wasActive then 1 else satAdd64 r.failures 1
  let index :=
    match returnTo with
    | some i => i
    | none => if wasActive then r.index else (r.index + 1) % r.count
  ({ index, delay := returnTo.isNone && index ≤ r.index, shutdown := failures == r.count + 1 },
    { r with index, failures })

end PoolRotation

/-- The sessions a gateway of so many pools opens one after the other. -/
def poolSessions (count : Nat) : Lts PoolRotation PoolSession where
  init r := r = .new count
  step r s r' := s.pool = r.index ∧ (∀ i ∈ s.returnTo, i < r.index) ∧
    ∃ next, r.next s.wasActive s.returnTo = (next, r') ∧ s.shutdown = next.shutdown

/-- A session that a probe ended had received its configuration. -/
def ReturnsFromActive (_ : PoolRotation) (s : PoolSession) : Prop := s.returnTo.isSome → s.wasActive

/-- The sessions since the last active one, that one included, or since startup. -/
def sinceActive (trace : List PoolSession) : List PoolSession :=
  trace.foldl (fun since s => if s.wasActive then [s] else since ++ [s]) []

/-- The inactive sessions since the last active one, or since startup. -/
def triedSince (trace : List PoolSession) : List PoolSession :=
  trace.foldl (fun tried s => if s.wasActive then [] else tried ++ [s]) []

section Since

variable (trace : List PoolSession) (s : PoolSession)

theorem sinceActive_concat :
    sinceActive (trace ++ [s]) = if s.wasActive then [s] else sinceActive trace ++ [s] := by
  rw [sinceActive, List.foldl_append]
  rfl

theorem triedSince_concat :
    triedSince (trace ++ [s]) = if s.wasActive then [] else triedSince trace ++ [s] := by
  rw [triedSince, List.foldl_append]
  rfl

/-- The sessions tried are all but the active one. -/
theorem sinceActive_eq :
    sinceActive trace = triedSince trace ∨ ∃ a, sinceActive trace = a :: triedSince trace := by
  induction trace using List.reverseRecOn with
  | nil => exact .inl rfl
  | append_singleton trace s ih =>
      rw [sinceActive_concat, triedSince_concat]
      split
      · exact .inr ⟨s, rfl⟩
      · rcases ih with heq | ⟨a, heq⟩
        · exact .inl (by rw [heq])
        · exact .inr ⟨a, by rw [heq, List.cons_append]⟩

/-- Inactive sessions are added to those since the last active one. -/
theorem sinceActive_append {stretch : List PoolSession} (hinactive : ∀ s ∈ stretch, s.wasActive = false) :
    sinceActive (trace ++ stretch) = sinceActive trace ++ stretch := by
  induction stretch using List.reverseRecOn with
  | nil => rw [List.append_nil, List.append_nil]
  | append_singleton stretch s ih =>
      rw [← List.append_assoc, sinceActive_concat, hinactive s (by simp), if_neg Bool.false_ne_true,
        ih fun t ht => hinactive t (List.mem_append_left _ ht), List.append_assoc]

/-- A trace no inactive session ends, so that a stretch of them may start after it. -/
def OpensStretch : Prop := trace = [] ∨ ∃ before a, trace = before ++ [a] ∧ a.wasActive

theorem length_sinceActive_of_opens (hopens : OpensStretch trace) : (sinceActive trace).length ≤ 1 := by
  rcases hopens with rfl | ⟨before, a, rfl, ha⟩
  · exact Nat.zero_le 1
  · rw [sinceActive_concat, if_pos ha, List.length_singleton]

end Since

/-- A walk of as many steps as there are pools comes past each. -/
theorem exists_walked (start : Nat) {n p k : Nat} (hp : p < n) (hk : n ≤ k) : ∃ j < k, (start + j) % n = p := by
  have hn : 0 < n := Nat.zero_lt_of_lt hp
  have hstart := Nat.mod_lt start hn
  refine ⟨(p + (n - start % n)) % n, Nat.lt_of_lt_of_le (Nat.mod_lt _ hn) hk, ?_⟩
  calc (start + (p + (n - start % n)) % n) % n = (start % n + (p + (n - start % n))) % n := by
        rw [Nat.add_mod_mod, Nat.mod_add_mod]
    _ = (p + n) % n := by congr 1; omega
    _ = p := by rw [Nat.add_mod_right, Nat.mod_eq_of_lt hp]

section Runs

variable {n : Nat} {trace : List PoolSession} {r r' : PoolRotation} {s : PoolSession}

/-- What a session leaves of the rotation. -/
theorem poolSessions_step (hstep : (poolSessions n).step r s r') :
    s.pool = r.index ∧ r'.count = r.count ∧
      r'.failures = (if s.wasActive then 1 else satAdd64 r.failures 1) ∧
      s.shutdown = (r'.failures == r.count + 1) ∧
      ((∃ i < r.index, s.returnTo = some i ∧ r'.index = i) ∨
        s.returnTo = none ∧ r'.index = if s.wasActive then r.index else (r.index + 1) % r.count) := by
  obtain ⟨hpool, hearlier, next, hnext, hshutdown⟩ := hstep
  obtain ⟨rfl, rfl⟩ := Prod.mk.inj hnext
  refine ⟨hpool, rfl, rfl, hshutdown, ?_⟩
  cases hreturn : s.returnTo with
  | none => exact .inr ⟨rfl, rfl⟩
  | some i => exact .inl ⟨i, hearlier i (by rw [hreturn]; rfl), rfl, rfl⟩

/-- The rotation is at one of the pools, as every session was. -/
theorem index_lt_count (hn : 0 < n) (hrun : (poolSessions n).Run trace r) :
    r.index < n ∧ ∀ s ∈ trace, s.pool < n := by
  have hall : r.count = n ∧ r.index < n ∧ ∀ s ∈ trace, s.pool < n := by
    refine hrun.invariant (I := fun trace r => r.count = n ∧ r.index < n ∧ ∀ s ∈ trace, s.pool < n) ?_ ?_
    · rintro _ rfl
      exact ⟨rfl, hn, fun _ hs => nomatch hs⟩
    · rintro trace r s r' ⟨hcount, hindex, htrace⟩ hstep
      obtain ⟨hpool, hcount', -, -, hmoves⟩ := poolSessions_step hstep
      refine ⟨hcount'.trans hcount, ?_, ?_⟩
      · rcases hmoves with ⟨i, hi, -, heq⟩ | ⟨-, heq⟩
        · omega
        · rw [heq, hcount]
          split
          · exact hindex
          · exact Nat.mod_lt _ hn
      · intro t ht
        rcases List.mem_append.mp ht with ht | ht
        · exact htrace t ht
        · rw [List.mem_singleton.mp ht, hpool]
          exact hindex
  exact hall.2

/-- The counter is the number of sessions since the last active one, and the inactive ones among them were on
pools in a row, up to the next. -/
structure PoolRotation.Walked (n : Nat) (trace : List PoolSession) (r : PoolRotation) : Prop where
  count : r.count = n
  failures : r.failures = min (sinceActive trace).length U64_MAX
  walks : ∃ start, (triedSince trace).map (·.pool) =
      (List.range (triedSince trace).length).map (fun j => (start + j) % n) ∧
    r.index = (start + (triedSince trace).length) % n

theorem PoolRotation.Walked.step (hindex : r'.index < n) (hwalked : r.Walked n trace)
    (hallowed : ReturnsFromActive r s) (hstep : (poolSessions n).step r s r') :
    r'.Walked n (trace ++ [s]) := by
  obtain ⟨hpool, hcount, hfailures, -, hmoves⟩ := poolSessions_step hstep
  refine ⟨hcount.trans hwalked.count, ?_, ?_⟩
  · rw [hfailures, sinceActive_concat, hwalked.failures, satAdd64]
    split
    · rfl
    · rw [List.length_append, List.length_singleton]
      omega
  · rw [triedSince_concat]
    cases hactive : s.wasActive with
    | true => exact ⟨r'.index, rfl, (Nat.mod_eq_of_lt hindex).symm⟩
    | false =>
        obtain ⟨start, htried, hat⟩ := hwalked.walks
        -- No probe ended the session, so the next pool follows the one it was on.
        rcases hmoves with ⟨i, -, hreturn, -⟩ | ⟨-, heq⟩
        · rw [hallowed (by rw [hreturn]; rfl)] at hactive
          cases hactive
        · rw [hactive, if_neg Bool.false_ne_true, hwalked.count, hat, Nat.mod_add_mod] at heq
          refine ⟨start, ?_, ?_⟩
          · rw [if_neg Bool.false_ne_true, List.map_append, List.length_append, List.length_singleton,
              List.range_succ, List.map_append, htried, List.map_singleton, List.map_singleton, hpool, hat]
          · rw [if_neg Bool.false_ne_true, List.length_append, List.length_singleton, heq, Nat.add_assoc]

theorem run_walked (hn : 0 < n) (hrun : ((poolSessions n).restrict ReturnsFromActive).Run trace r) :
    r.Walked n trace := by
  induction hrun with
  | start hinit =>
      obtain rfl := hinit
      exact ⟨rfl, rfl, 0, rfl, (Nat.zero_mod n).symm⟩
  | next hbefore hstep ih =>
      have hindex := (index_lt_count hn (Lts.Run.of_restrict (.next hbefore hstep))).1
      exact ih.step hindex hstep.1 hstep.2

/-- The clients are shut out on a session's end when the sessions since the last active one are one more than
the pools. -/
theorem shutdown_iff (hn : 0 < n) (hvec : n ≤ MAX_VEC_LEN) {before after : List PoolSession}
    (hrun : ((poolSessions n).restrict ReturnsFromActive).Run (before ++ s :: after) r) :
    s.shutdown ↔ (sinceActive (before ++ [s])).length = n + 1 := by
  obtain ⟨r₁, r₂, hbefore, hstep⟩ := hrun.exists_step
  have hwalked := run_walked hn (.next hbefore hstep)
  obtain ⟨-, hcount, -, hshutdown, -⟩ := poolSessions_step hstep.2
  rw [hshutdown, ← hcount, hwalked.count, hwalked.failures, beq_iff_eq]
  simp only [U64_MAX, MAX_VEC_LEN] at hvec ⊢
  omega

/-- When the clients are shut out, every pool has had a session since the last active one. -/
theorem all_tried_of_shutdown (hn : 0 < n) (hvec : n ≤ MAX_VEC_LEN) {before after : List PoolSession}
    (hrun : ((poolSessions n).restrict ReturnsFromActive).Run (before ++ s :: after) r)
    (hshutdown : s.shutdown) {p : Nat} (hp : p < n) : ∃ t ∈ sinceActive (before ++ [s]), t.pool = p := by
  have hlength := (shutdown_iff hn hvec hrun).mp hshutdown
  obtain ⟨r₁, r₂, hbefore, hstep⟩ := hrun.exists_step
  obtain ⟨start, htried, -⟩ := (run_walked hn (.next hbefore hstep)).walks
  have hsince := sinceActive_eq (before ++ [s])
  have hall : n ≤ (triedSince (before ++ [s])).length := by
    rcases hsince with heq | ⟨a, heq⟩
    · rw [heq] at hlength
      omega
    · rw [heq, List.length_cons] at hlength
      omega
  obtain ⟨j, hj, rfl⟩ := exists_walked start hp hall
  have hmem : (start + j) % n ∈ (triedSince (before ++ [s])).map (·.pool) := by
    rw [htried]
    exact List.mem_map.mpr ⟨j, List.mem_range.mpr hj, rfl⟩
  obtain ⟨t, ht, hpool⟩ := List.mem_map.mp hmem
  refine ⟨t, ?_, hpool⟩
  rcases hsince with heq | ⟨a, heq⟩
  · rwa [heq]
  · rw [heq]
    exact List.mem_cons_of_mem a ht

/-- A stretch of inactive sessions shuts the clients out once, when it is long enough to. -/
theorem countP_shutdown (hn : 0 < n) (hvec : n ≤ MAX_VEC_LEN) {before stretch after : List PoolSession}
    (hrun : ((poolSessions n).restrict ReturnsFromActive).Run (before ++ stretch ++ after) r)
    (hopens : OpensStretch before) (hinactive : ∀ s ∈ stretch, s.wasActive = false) :
    stretch.countP (·.shutdown) = if n < (sinceActive (before ++ stretch)).length then 1 else 0 := by
  have hone := length_sinceActive_of_opens before hopens
  rw [sinceActive_append before hinactive, List.length_append]
  induction stretch using List.reverseRecOn generalizing after with
  | nil =>
      rw [List.countP_nil, List.length_nil, if_neg (by omega)]
  | append_singleton stretch s ih =>
      have hrun' : ((poolSessions n).restrict ReturnsFromActive).Run (before ++ stretch ++ (s :: after)) r := by
        simpa only [List.append_assoc, List.singleton_append] using hrun
      have hrest : ∀ t ∈ stretch, t.wasActive = false := fun t ht => hinactive t (List.mem_append_left _ ht)
      have hshutdown := shutdown_iff hn hvec hrun'
      rw [List.append_assoc, sinceActive_append before hinactive] at hshutdown
      rw [List.countP_append, ih hrun' hrest, List.countP_singleton]
      simp only [List.length_append, List.length_singleton, hshutdown]
      split <;> split <;> split <;> omega

end Runs

/-- **Clients are shut out only after every pool failed**, when each session that a probe ended had received
its configuration: every pool has had a session since the last active one, and a stretch of inactive sessions
shuts them out once, on the failure after every pool was tried. The index is below the count in any case. -/
theorem shut_out_after_every_pool {n : Nat} (hn : 0 < n) (hvec : n ≤ MAX_VEC_LEN) :
    (∀ trace r, (poolSessions n).Run trace r → r.index < n ∧ ∀ s ∈ trace, s.pool < n) ∧
    ∀ trace r, ((poolSessions n).restrict ReturnsFromActive).Run trace r →
      (∀ before s after, trace = before ++ s :: after → s.shutdown →
        ∀ p < n, ∃ t ∈ sinceActive (before ++ [s]), t.pool = p) ∧
      ∀ before stretch after, trace = before ++ stretch ++ after → OpensStretch before →
        (∀ s ∈ stretch, s.wasActive = false) →
        stretch.countP (·.shutdown) = if n < (sinceActive (before ++ stretch)).length then 1 else 0 := by
  refine ⟨fun trace r => index_lt_count hn, fun trace r hrun => ⟨?_, ?_⟩⟩
  · rintro before s after rfl hshutdown p hp
    exact all_tried_of_shutdown hn hvec hrun hshutdown hp
  · rintro before stretch after rfl hopens hinactive
    exact countP_shutdown hn hvec hrun hopens hinactive

/-- The session a rotation opens next, ended so. -/
theorem PoolRotation.session (n : Nat) (r : PoolRotation) (wasActive : Bool) (returnTo : Option Nat)
    (hearlier : ∀ i ∈ returnTo, i < r.index) :
    (poolSessions n).step r ⟨r.index, wasActive, returnTo, (r.next wasActive returnTo).1.shutdown⟩
      (r.next wasActive returnTo).2 :=
  ⟨rfl, hearlier, _, rfl, rfl⟩

/-- Two pools: the second answers, a probe finds the first again, and then neither answers. -/
theorem shut_out_after_every_pool_returning :
    let before : List PoolSession := [⟨0, false, none, false⟩, ⟨1, true, some 0, false⟩, ⟨0, false, none, false⟩]
    let last : PoolSession := ⟨1, false, none, true⟩
    ((poolSessions 2).restrict ReturnsFromActive).Run (before ++ [last]) ⟨2, 0, 3⟩ ∧
      (∀ p < 2, ∃ t ∈ sinceActive (before ++ [last]), t.pool = p) ∧
      [⟨0, false, none, false⟩, last].countP (·.shutdown) = 1 := by
  intro before last
  have hfirst := Lts.Run.next (S := (poolSessions 2).restrict ReturnsFromActive) (.start rfl)
    ⟨Bool.noConfusion, PoolRotation.session 2 _ false none nofun⟩
  have hactive := hfirst.next ⟨fun _ => rfl, PoolRotation.session 2 _ true (some 0) (by decide)⟩
  have hfailed := hactive.next ⟨Bool.noConfusion, PoolRotation.session 2 _ false none nofun⟩
  have hrun := hfailed.next ⟨Bool.noConfusion, PoolRotation.session 2 _ false none nofun⟩
  obtain ⟨htried, honce⟩ := (shut_out_after_every_pool (by decide) (by decide)).2 _ _ hrun
  exact ⟨hrun, htried before last [] rfl rfl,
    honce [⟨0, false, none, false⟩, ⟨1, true, some 0, false⟩] [⟨0, false, none, false⟩, last] [] rfl
      (.inr ⟨[_], _, rfl, rfl⟩) (by decide)⟩

/-- **Three pools: the clients are shut out and the last pool had no session**, after one on the second that
received no configuration and that a probe ended. -/
theorem untried_pool_shut_out :
    let before : List PoolSession := [⟨0, false, none, false⟩, ⟨1, false, some 0, false⟩, ⟨0, false, none, false⟩]
    let last : PoolSession := ⟨1, false, none, true⟩
    (poolSessions 3).Run (before ++ [last]) ⟨3, 2, 4⟩ ∧ last.shutdown ∧
      ¬ ∀ p < 3, ∃ t ∈ sinceActive (before ++ [last]), t.pool = p := by
  intro before last
  have hfirst := Lts.Run.next (S := poolSessions 3) (.start rfl) (PoolRotation.session 3 _ false none nofun)
  have hprobed := hfirst.next (PoolRotation.session 3 _ false (some 0) (by decide))
  have hfailed := hprobed.next (PoolRotation.session 3 _ false none nofun)
  exact ⟨hfailed.next (PoolRotation.session 3 _ false none nofun), rfl, by decide⟩

end Ratum
