import Ratum.Base.Lts
import Ratum.Core.Target
import Mathlib.Algebra.Order.BigOperators.Group.Finset

/-!
# A nonce search across threads

`search` of `core/src/nonce.rs`. Each thread walks the nonces of one remainder modulo the number of threads,
and `found` holds the least nonce a thread stored in it. The accesses to `found` are `Relaxed`, so a load may
read any value `found` has held.
-/

namespace Ratum

namespace NonceSearch

def CHECK_INTERVAL : Nat := 2 ^ 22

def NONCE_SIZE : Nat := 4

/-- What `found` starts with, `u64::MAX`. -/
def NOT_FOUND : Nat := 2 ^ 64 - 1

/-- The bytes a nonce overwrites in place. -/
def splice (buf : Bytes) (spliceAt nonce : Nat) : Bytes :=
  buf.take spliceAt ++ leBytes NONCE_SIZE nonce ++ buf.drop (spliceAt + NONCE_SIZE)

theorem length_splice {buf : Bytes} {spliceAt : Nat} (hfits : spliceAt + NONCE_SIZE ≤ buf.length) (nonce : Nat) :
    (splice buf spliceAt nonce).length = buf.length := by
  simp only [splice, List.length_append, List.length_take, List.length_drop, length_leBytes]
  omega

/-- A nonce overwrites the one spliced before it. -/
theorem splice_splice {buf : Bytes} {spliceAt : Nat} (hfits : spliceAt + NONCE_SIZE ≤ buf.length)
    (first second : Nat) : splice (splice buf spliceAt first) spliceAt second = splice buf spliceAt second := by
  have hfront : (splice buf spliceAt first).take spliceAt = buf.take spliceAt := by
    rw [splice, List.append_assoc]
    exact List.take_left' (by rw [List.length_take]; omega)
  have hback : (splice buf spliceAt first).drop (spliceAt + NONCE_SIZE) = buf.drop (spliceAt + NONCE_SIZE) := by
    rw [splice]
    exact List.drop_left' (by rw [List.length_append, List.length_take, length_leBytes]; omega)
  unfold splice at hfront hback ⊢
  rw [hfront, hback]

end NonceSearch

/-- The arguments of `search`, and the number of threads it finds. -/
structure NonceSearch where
  input : Bytes
  spliceAt : Nat
  hash : Bytes → Hash
  target : Target
  threads : Nat

namespace NonceSearch

/-- Where a thread stands in its loop. -/
inductive Phase
  | looping
  /-- About to store its nonce in `found`. -/
  | storing
  /-- About to load `found`. -/
  | checking
  /-- About to call `abort`. -/
  | asking
  | returned
  deriving DecidableEq

structure Worker where
  buf : Bytes
  nonce : Nat
  phase : Phase

structure State where
  /-- The values `found` has held, the present one first. -/
  found : List Nat
  workers : Nat → Worker

inductive Event
  | turn
  | stored
  | loaded (value : Nat)
  | asked (abort : Bool)
  deriving DecidableEq

variable (S : NonceSearch)

/-- A turn of a thread's loop, up to its next access of what the threads share. -/
def turn (w : Worker) : Worker :=
  if 2 ^ 32 ≤ w.nonce then { w with phase := .returned }
  else
    let buf := splice w.buf S.spliceAt w.nonce
    if meetsTarget (S.hash buf) S.target then { w with buf, phase := .storing }
    else if w.nonce % CHECK_INTERVAL < S.threads then { w with buf, phase := .checking }
    else { w with buf, nonce := w.nonce + S.threads }

/-- The loop's next turn, on the next nonce of the thread. -/
def advance (w : Worker) : Worker := { w with nonce := w.nonce + S.threads, phase := .looping }

/-- `found`. -/
def State.current (st : State) : Nat := st.found.headD NOT_FOUND

def State.setWorker (st : State) (t : Nat) (w : Worker) : State :=
  { st with workers := fun u => if u = t then w else st.workers u }

inductive Step : State → Event → State → Prop
  | turn {st : State} {t : Nat} (ht : t < S.threads) (hphase : (st.workers t).phase = .looping) :
      Step st .turn (st.setWorker t (S.turn (st.workers t)))
  | store {st : State} {t : Nat} (ht : t < S.threads) (hphase : (st.workers t).phase = .storing) :
      Step st .stored
        { st.setWorker t { st.workers t with phase := .returned } with
          found := min st.current (st.workers t).nonce :: st.found }
  | load {st : State} {t value : Nat} (ht : t < S.threads) (hphase : (st.workers t).phase = .checking)
      (hvalue : value ∈ st.found) :
      Step st (.loaded value)
        (st.setWorker t { st.workers t with phase := if value ≠ NOT_FOUND then .returned else .asking })
  | ask {st : State} {t : Nat} (abort : Bool) (ht : t < S.threads) (hphase : (st.workers t).phase = .asking) :
      Step st (.asked abort)
        (st.setWorker t (if abort then { st.workers t with phase := .returned } else S.advance (st.workers t)))

def start : State :=
  { found := [NOT_FOUND], workers := fun t => { buf := S.input, nonce := t, phase := .looping } }

/-- The threads of a search, in any order of their steps. -/
def searching : Lts State Event where
  init st := st = S.start
  step := Step S

/-- Every thread is joined. -/
def Joined (st : State) : Prop := ∀ t < S.threads, (st.workers t).phase = .returned

/-- What `search` returns once every thread is joined. -/
def State.result (st : State) : Option Nat := if st.current = NOT_FOUND then none else some st.current

/-- The input with a nonce spliced meets the target. -/
def Meets (nonce : Nat) : Prop := meetsTarget (S.hash (splice S.input S.spliceAt nonce)) S.target = true

/-- A nonce of 32 bits that meets the target, the first of its thread's. -/
structure FirstOfThread (nonce : Nat) : Prop where
  lt : nonce < 2 ^ 32
  meets : S.Meets nonce
  first : ∀ earlier < nonce, earlier % S.threads = nonce % S.threads → ¬ S.Meets earlier

variable {S}

/-! ### What a thread has tried -/

/-- Where a thread stands says what it found of its nonce, or why it returned. -/
def Stands (S : NonceSearch) (trace : List Event) (current : Nat) (w : Worker) : Prop :=
  match w.phase with
  | .looping => True
  | .storing => w.nonce < 2 ^ 32 ∧ S.Meets w.nonce
  | .checking | .asking => w.nonce < 2 ^ 32 ∧ ¬ S.Meets w.nonce
  | .returned => 2 ^ 32 ≤ w.nonce ∨ current ≠ NOT_FOUND ∨ .asked true ∈ trace

structure Walked (S : NonceSearch) (trace : List Event) (current t : Nat) (w : Worker) : Prop where
  ownNonce : w.nonce % S.threads = t
  length : w.buf.length = S.input.length
  buf : ∀ nonce, splice w.buf S.spliceAt nonce = splice S.input S.spliceAt nonce
  tried : ∀ nonce < w.nonce, nonce % S.threads = t → ¬ S.Meets nonce
  stands : Stands S trace current w

/-- The next nonce of a thread is the first of its own past the present one. -/
theorem lt_or_eq_of_sameThread {nonce later threads : Nat} (hlater : later < nonce + threads)
    (hsame : later % threads = nonce % threads) : later < nonce ∨ later = nonce := by
  by_contra hnot
  have hmod : (later - nonce) % threads = 0 := Nat.sub_mod_eq_zero_of_mod_eq hsame
  rw [Nat.mod_eq_of_lt (by omega)] at hmod
  omega

namespace Walked

variable {trace : List Event} {current t : Nat} {w : Worker}

/-- A thread past a nonce of its own that does not meet the target. -/
theorem tried_next (hwalked : Walked S trace current t w) (hfails : ¬ S.Meets w.nonce) :
    ∀ nonce < w.nonce + S.threads, nonce % S.threads = t → ¬ S.Meets nonce := by
  intro nonce hlt hthread
  obtain hbefore | rfl := lt_or_eq_of_sameThread hlt (hthread.trans hwalked.ownNonce.symm)
  · exact hwalked.tried nonce hbefore hthread
  · exact hfails

theorem advance (hwalked : Walked S trace current t w) (hfails : ¬ S.Meets w.nonce) :
    Walked S trace current t (S.advance w) where
  ownNonce := by rw [NonceSearch.advance, Nat.add_mod_right]; exact hwalked.ownNonce
  length := hwalked.length
  buf := hwalked.buf
  tried := hwalked.tried_next hfails
  stands := trivial

theorem turn (hwalked : Walked S trace current t w) (hlooping : w.phase = .looping)
    (hfits : S.spliceAt + NONCE_SIZE ≤ S.input.length) : Walked S trace current t (S.turn w) := by
  have hbuf := hwalked.buf w.nonce
  have hwbuf : S.spliceAt + NONCE_SIZE ≤ w.buf.length := by rw [hwalked.length]; exact hfits
  have hlength : (splice w.buf S.spliceAt w.nonce).length = S.input.length :=
    (length_splice hwbuf _).trans hwalked.length
  have hsplice (nonce : Nat) :
      splice (splice w.buf S.spliceAt w.nonce) S.spliceAt nonce = splice S.input S.spliceAt nonce :=
    (splice_splice hwbuf _ _).trans (hwalked.buf nonce)
  unfold NonceSearch.turn
  dsimp only
  split
  case isTrue hend => exact ⟨hwalked.ownNonce, hwalked.length, hwalked.buf, hwalked.tried, .inl hend⟩
  case isFalse hmore =>
    have hlt : w.nonce < 2 ^ 32 := by omega
    split
    case isTrue hmeets =>
      rw [hbuf] at hmeets
      exact ⟨hwalked.ownNonce, hlength, hsplice, hwalked.tried, hlt, hmeets⟩
    case isFalse hfails =>
      rw [hbuf] at hfails
      split
      · exact ⟨hwalked.ownNonce, hlength, hsplice, hwalked.tried, hlt, hfails⟩
      · refine ⟨?_, hlength, hsplice, hwalked.tried_next hfails, ?_⟩
        · rw [Nat.add_mod_right]
          exact hwalked.ownNonce
        · rw [Stands, hlooping]
          trivial

theorem mono (hwalked : Walked S trace current t w) {trace' : List Event} {current' : Nat}
    (htrace : trace ⊆ trace') (hcurrent : current' ≤ current) (hbelow : current ≤ NOT_FOUND) :
    Walked S trace' current' t w := by
  refine ⟨hwalked.ownNonce, hwalked.length, hwalked.buf, hwalked.tried, ?_⟩
  have hstands := hwalked.stands
  unfold Stands at hstands ⊢
  cases hphase : w.phase <;> rw [hphase] at hstands
  case returned =>
    obtain hend | hfound | hasked := hstands
    · exact .inl hend
    · exact .inr (.inl (by omega))
    · exact .inr (.inr (htrace hasked))
  all_goals exact hstands

theorem firstOfThread (hwalked : Walked S trace current t w) (hstoring : w.phase = .storing) :
    S.FirstOfThread w.nonce := by
  have hstands := hwalked.stands
  rw [Stands, hstoring] at hstands
  exact ⟨hstands.1, hstands.2, fun earlier hlt hsame => hwalked.tried earlier hlt (hsame.trans hwalked.ownNonce)⟩

end Walked

/-! ### What every run keeps -/

structure Sound (S : NonceSearch) (trace : List Event) (st : State) : Prop where
  held : st.current ∈ st.found
  values : ∀ value ∈ st.found, st.current ≤ value ∧ (value = NOT_FOUND ∨ S.FirstOfThread value)
  workers : ∀ t < S.threads, Walked S trace st.current t (st.workers t)

namespace Sound

variable {trace : List Event} {st : State}

theorem current_le (hsound : Sound S trace st) : st.current ≤ NOT_FOUND := by
  obtain heq | hfirst := (hsound.values _ hsound.held).2
  · omega
  · have := hfirst.lt
    unfold NOT_FOUND
    omega

theorem start (S : NonceSearch) : Sound S [] S.start where
  held := by simp [State.current, NonceSearch.start]
  values := by simp [State.current, NonceSearch.start]
  workers t ht := ⟨Nat.mod_eq_of_lt ht, rfl, fun _ => rfl, fun nonce hlt hown => by
    have hown' : nonce % S.threads = nonce := Nat.mod_eq_of_lt (hlt.trans ht)
    change nonce < t at hlt
    omega, trivial⟩

/-- Another step of one thread. -/
theorem setWorker (hsound : Sound S trace st) {t : Nat} {w : Worker} {e : Event}
    (hw : Walked S (trace ++ [e]) st.current t w) : Sound S (trace ++ [e]) (st.setWorker t w) where
  held := hsound.held
  values := hsound.values
  workers u hu := by
    change Walked S (trace ++ [e]) st.current u (if u = t then w else st.workers u)
    split
    case isTrue heq => rw [heq]; exact hw
    case isFalse =>
      exact (hsound.workers u hu).mono (List.subset_append_left _ _) le_rfl hsound.current_le

/-- The least of `found` and a nonce that meets the target, stored. -/
theorem store (hsound : Sound S trace st) {t : Nat} (ht : t < S.threads)
    (hphase : (st.workers t).phase = .storing) :
    Sound S (trace ++ [.stored])
      { st.setWorker t { st.workers t with phase := .returned } with
        found := min st.current (st.workers t).nonce :: st.found } := by
  have hwalked := hsound.workers t ht
  have hfirst := hwalked.firstOfThread hphase
  have hlt : (st.workers t).nonce < NOT_FOUND := hfirst.lt.trans (by decide)
  refine ⟨List.mem_cons_self, ?_, ?_⟩
  · intro value hvalue
    change min st.current _ ≤ value ∧ _
    rcases List.mem_cons.mp hvalue with rfl | hvalue
    · refine ⟨le_rfl, ?_⟩
      rcases Nat.le_total st.current (st.workers t).nonce with hle | hle
      · rw [min_eq_left hle]
        exact (hsound.values _ hsound.held).2
      · rw [min_eq_right hle]
        exact .inr hfirst
    · exact ⟨(min_le_left _ _).trans (hsound.values value hvalue).1, (hsound.values value hvalue).2⟩
  · intro u hu
    change Walked S _ (min st.current (st.workers t).nonce) u (if u = t then _ else st.workers u)
    split
    case isTrue heq =>
      rw [heq]
      exact ⟨hwalked.ownNonce, hwalked.length, hwalked.buf, hwalked.tried, .inr (.inl (by omega))⟩
    case isFalse =>
      exact (hsound.workers u hu).mono (List.subset_append_left _ _) (min_le_left _ _) hsound.current_le

theorem load (hsound : Sound S trace st) {t value : Nat} (ht : t < S.threads)
    (hphase : (st.workers t).phase = .checking) (hvalue : value ∈ st.found) :
    Walked S (trace ++ [.loaded value]) st.current t
      { st.workers t with phase := if value ≠ NOT_FOUND then .returned else .asking } := by
  have hwalked := hsound.workers t ht
  have hstands := hwalked.stands
  rw [Stands, hphase] at hstands
  refine ⟨hwalked.ownNonce, hwalked.length, hwalked.buf, hwalked.tried, ?_⟩
  split
  case isTrue hfound =>
    -- a value it held is one of 32 bits, and what it holds now is at most that
    have hle := (hsound.values value hvalue).1
    have hlt := ((hsound.values value hvalue).2.resolve_left hfound).lt
    refine .inr (.inl ?_)
    unfold NOT_FOUND
    omega
  case isFalse => exact hstands

theorem ask (hsound : Sound S trace st) {t : Nat} (abort : Bool) (ht : t < S.threads)
    (hphase : (st.workers t).phase = .asking) :
    Walked S (trace ++ [.asked abort]) st.current t
      (if abort then { st.workers t with phase := .returned } else S.advance (st.workers t)) := by
  have hwalked := (hsound.workers t ht).mono (List.subset_append_left _ [.asked abort]) le_rfl hsound.current_le
  have hstands := hwalked.stands
  rw [Stands, hphase] at hstands
  cases abort with
  | false => exact hwalked.advance hstands.2
  | true =>
    exact ⟨hwalked.ownNonce, hwalked.length, hwalked.buf, hwalked.tried, .inr (.inr (by simp))⟩

theorem step (hfits : S.spliceAt + NONCE_SIZE ≤ S.input.length) {st' : State} {e : Event}
    (hsound : Sound S trace st) (hstep : S.searching.step st e st') : Sound S (trace ++ [e]) st' := by
  cases hstep with
  | turn ht hphase =>
    have hwalked := (hsound.workers _ ht).turn hphase hfits
    exact hsound.setWorker (hwalked.mono (List.subset_append_left _ _) le_rfl hsound.current_le)
  | store ht hphase => exact hsound.store ht hphase
  | load ht hphase hvalue => exact hsound.setWorker (hsound.load ht hphase hvalue)
  | ask abort ht hphase => exact hsound.setWorker (hsound.ask abort ht hphase)

theorem of_run (hfits : S.spliceAt + NONCE_SIZE ≤ S.input.length) (hrun : S.searching.Run trace st) :
    Sound S trace st := by
  refine hrun.invariant (fun s hs => ?_) fun _ _ _ _ hsound hstep => hsound.step hfits hstep
  rw [show s = S.start from hs]
  exact start S

end Sound

/-! ### What is left of a search -/

/-- A bound on the steps a thread has left. -/
def Worker.left (w : Worker) : Nat :=
  match w.phase with
  | .looping => 4 * (2 ^ 32 - w.nonce) + 1
  | .storing | .checking => 4 * (2 ^ 32 - w.nonce)
  | .asking => 4 * (2 ^ 32 - w.nonce) - 1
  | .returned => 0

def left (S : NonceSearch) (st : State) : Nat := ∑ t ∈ Finset.range S.threads, (st.workers t).left

theorem left_turn_lt {w : Worker} (hlooping : w.phase = .looping) (hthreads : 0 < S.threads) :
    (S.turn w).left < w.left := by
  unfold turn
  dsimp only
  split
  · simp only [Worker.left, hlooping]
    omega
  · split
    · simp only [Worker.left, hlooping]
      omega
    · split
      · simp only [Worker.left, hlooping]
        omega
      · simp only [Worker.left, hlooping]
        omega

theorem left_setWorker_lt {st : State} {t : Nat} {w : Worker} (ht : t < S.threads)
    (hlt : w.left < (st.workers t).left) : left S (st.setWorker t w) < left S st := by
  refine Finset.sum_lt_sum (fun u _ => ?_) ⟨t, Finset.mem_range.mpr ht, ?_⟩
  · change (if u = t then w else st.workers u).left ≤ _
    split
    case isTrue heq => rw [heq]; exact hlt.le
    case isFalse => exact le_rfl
  · change (if t = t then w else st.workers t).left < _
    rw [if_pos rfl]
    exact hlt

/-- Each step of a search leaves less of it. -/
theorem left_step_lt {trace : List Event} {st st' : State} {e : Event} (hsound : Sound S trace st)
    (hstep : S.searching.step st e st') : left S st' < left S st := by
  cases hstep with
  | turn ht hphase => exact left_setWorker_lt ht (left_turn_lt hphase (by omega))
  | @store t ht hphase =>
    have hstands := (hsound.workers _ ht).stands
    rw [Stands, hphase] at hstands
    refine left_setWorker_lt (S := S) (w := { st.workers t with phase := .returned }) ht ?_
    simp only [Worker.left, hphase]
    omega
  | load ht hphase hvalue =>
    have hstands := (hsound.workers _ ht).stands
    rw [Stands, hphase] at hstands
    refine left_setWorker_lt ht ?_
    split
    · simp only [Worker.left, hphase]
      omega
    · simp only [Worker.left, hphase]
      omega
  | ask abort ht hphase =>
    have hstands := (hsound.workers _ ht).stands
    rw [Stands, hphase] at hstands
    refine left_setWorker_lt ht ?_
    cases abort with
    | false =>
      simp only [Worker.left, hphase, advance, Bool.false_eq_true, if_false]
      omega
    | true =>
      simp only [Worker.left, hphase, if_true]
      omega

theorem length_add_left_le (hfits : S.spliceAt + NONCE_SIZE ≤ S.input.length) {trace : List Event}
    {st : State} (hrun : S.searching.Run trace st) : trace.length + left S st ≤ left S S.start := by
  have hkept := hrun.invariant (I := fun trace st => Sound S trace st ∧ trace.length + left S st ≤ left S S.start)
    (fun s hs => ?_) ?_
  · exact hkept.2
  · rw [show s = S.start from hs]
    exact ⟨.start S, by simp⟩
  · rintro trace s e s' ⟨hsound, hle⟩ hstep
    have hlt := left_step_lt hsound hstep
    refine ⟨hsound.step hfits hstep, ?_⟩
    rw [List.length_append, List.length_singleton]
    omega

theorem left_start_le (S : NonceSearch) : left S S.start ≤ S.threads * (2 ^ 34 + 1) := by
  have hle := Finset.sum_le_card_nsmul (Finset.range S.threads) (fun t => (S.start.workers t).left) (2 ^ 34 + 1)
    fun t _ => by
      change 4 * (2 ^ 32 - t) + 1 ≤ _
      omega
  rw [Finset.card_range] at hle
  exact hle

/-- A thread that has not returned can take a step. -/
theorem exists_step {trace : List Event} {st : State} (hsound : Sound S trace st) (hopen : ¬ Joined S st) :
    ∃ e st', S.searching.step st e st' := by
  obtain ⟨t, hopen⟩ := not_forall.mp hopen
  obtain ⟨ht, hopen⟩ := Classical.not_imp.mp hopen
  cases hphase : (st.workers t).phase with
  | looping => exact ⟨_, _, .turn ht hphase⟩
  | storing => exact ⟨_, _, .store ht hphase⟩
  | checking => exact ⟨_, _, .load ht hphase hsound.held⟩
  | asking => exact ⟨_, _, .ask true ht hphase⟩
  | returned => exact absurd hphase hopen

/-! ### The result of a search -/

theorem firstOfThread_of_result {trace : List Event} {st : State} {nonce : Nat} (hsound : Sound S trace st)
    (hresult : st.result = some nonce) : S.FirstOfThread nonce := by
  unfold State.result at hresult
  split at hresult
  · cases hresult
  case isFalse hfound =>
    cases hresult
    exact (hsound.values _ hsound.held).2.resolve_left hfound

/-- Without an abort a search that found nothing tried every nonce. -/
theorem not_meets_of_result {trace : List Event} {st : State} (hsound : Sound S trace st)
    (hjoined : Joined S st) (hasked : .asked true ∉ trace) (hresult : st.result = none)
    (hthreads : 0 < S.threads) {nonce : Nat} (hlt : nonce < 2 ^ 32) : ¬ S.Meets nonce := by
  have hnone : st.current = NOT_FOUND := by
    by_contra hfound
    rw [State.result, if_neg hfound] at hresult
    cases hresult
  have hthread := Nat.mod_lt nonce hthreads
  have hwalked := hsound.workers _ hthread
  have hstands := hwalked.stands
  rw [Stands, hjoined _ hthread] at hstands
  obtain hend | hfound | habort := hstands
  · exact hwalked.tried nonce (by omega) rfl
  · exact absurd hnone hfound
  · exact absurd habort hasked

/-- **A search ends, and finds the first nonce of a thread.** -/
theorem searching_result (S : NonceSearch) (hthreads : 0 < S.threads)
    (hfits : S.spliceAt + NONCE_SIZE ≤ S.input.length) {trace : List Event} {st : State}
    (hrun : S.searching.Run trace st) :
    trace.length ≤ S.threads * (2 ^ 34 + 1) ∧ (¬ Joined S st → ∃ e st', S.searching.step st e st') ∧
      (Joined S st →
        (∀ nonce, st.result = some nonce → S.FirstOfThread nonce) ∧
        (.asked true ∉ trace → (st.result = none ↔ ∀ nonce < 2 ^ 32, ¬ S.Meets nonce))) := by
  have hsound := Sound.of_run hfits hrun
  have hleft := length_add_left_le hfits hrun
  have hstart := left_start_le S
  refine ⟨by omega, exists_step hsound, fun hjoined => ⟨fun nonce => firstOfThread_of_result hsound, ?_⟩⟩
  intro hasked
  constructor
  · intro hresult nonce hlt
    exact not_meets_of_result hsound hjoined hasked hresult hthreads hlt
  · intro hnone
    cases hresult : st.result with
    | none => rfl
    | some nonce =>
      have hfirst := firstOfThread_of_result hsound hresult
      exact absurd hfirst.meets (hnone nonce hfirst.lt)

/-- Two threads, and a hash that meets the target for every nonce that is not a multiple of 256. -/
def twoThreads : NonceSearch where
  input := [0xaa, 0xaa, 0, 0, 0, 0]
  spliceAt := 2
  hash buf := if buf[2]? = some 0 then Vector.replicate HASH_SIZE 0xff else Vector.replicate HASH_SIZE 0
  target := 2 ^ 255 - 1
  threads := 2

/-- The second thread stores its first nonce, and the first thread its second, having read `found` late. -/
theorem twoThreads_run : ∃ trace st, twoThreads.searching.Run trace st ∧ Joined twoThreads st ∧
    st.result = some 1 ∧ .asked true ∉ trace := by
  have start : twoThreads.searching.Run [] twoThreads.start := .start rfl
  have second := start.next (.turn (t := 1) (by decide) rfl)
  have first := second.next (.turn (t := 0) (by decide) rfl)
  have stored := first.next (.store (t := 1) (by decide) (by decide +kernel))
  have loaded := stored.next (@Step.load twoThreads _ 0 NOT_FOUND (by decide) (by decide +kernel) (by decide +kernel))
  have asked := loaded.next (.ask (t := 0) false (by decide) (by decide +kernel))
  have turned := asked.next (.turn (t := 0) (by decide) (by decide +kernel))
  have joined := turned.next (.store (t := 0) (by decide) (by decide +kernel))
  refine ⟨_, _, joined, ?_, by decide +kernel, by decide +kernel⟩
  intro t ht
  have hthread : t = 0 ∨ t = 1 := by
    change t < 2 at ht
    omega
  rcases hthread with rfl | rfl
  · decide +kernel
  · decide +kernel

theorem searching_result_twoThreads : ∃ (trace : List Event) (st : State), Joined twoThreads st ∧ st.result = some 1 ∧
    trace.length ≤ 2 * (2 ^ 34 + 1) ∧ .asked true ∉ trace ∧ twoThreads.FirstOfThread 1 := by
  obtain ⟨trace, st, hrun, hjoined, hresult, hasked⟩ := twoThreads_run
  obtain ⟨hlength, -, hdone⟩ := searching_result twoThreads (by decide) (by decide) hrun
  exact ⟨trace, st, hjoined, hresult, hlength, hasked, (hdone hjoined).1 1 hresult⟩

end NonceSearch

end Ratum
