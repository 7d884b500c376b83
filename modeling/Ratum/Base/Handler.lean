import Ratum.Base.Prog

/-!
# Handlers: programs with a state, that may fail

A handler reads and changes a state, calls its environment, and ends with a value or an error. Each call
is recorded with the state it was made in.
-/

def Handler (Op : Type) (Answer : Op → Type) (σ ε α : Type) :=
  σ → Prog (Op × σ) (fun called => Answer called.1) (Except ε α × σ)

namespace Handler

variable {Op : Type} {Answer : Op → Type} {σ ε α β G : Type}

/-- What follows a handler that ended with a value, in the state it left. -/
def andThen (f : α → Handler Op Answer σ ε β) :
    Except ε α × σ → Prog (Op × σ) (fun called => Answer called.1) (Except ε β × σ)
  | (.ok value, s) => f value s
  | (.error e, s) => .done (.error e, s)

instance : Monad (Handler Op Answer σ ε) where
  pure value := fun s => .done (.ok value, s)
  bind x f := fun s => (x s).bind (andThen f)

def call (op : Op) : Handler Op Answer σ ε (Answer op) :=
  fun s => .call (op, s) fun answer => .done (.ok answer, s)

def state : Handler Op Answer σ ε σ := fun s => .done (.ok s, s)

def modify (f : σ → σ) : Handler Op Answer σ ε Unit := fun s => .done (.ok (), f s)

def fail (e : ε) : Handler Op Answer σ ε α := fun s => .done (.error e, s)

/-- The `?` operator on an answer. -/
def orFail (result : Except ε α) : Handler Op Answer σ ε α :=
  match result with
  | .ok value => pure value
  | .error e => fail e

/-- A handler whose error is its value. -/
def caught (x : Handler Op Answer σ ε α) : Handler Op Answer σ ε (Except ε α) :=
  fun s => (x s).bind fun ended => .done (.ok ended.1, ended.2)

/-- The handler meets the monitor from a state, and ends as the postcondition says. -/
def Ensures (M : Monitor (Op × σ) (fun called => Answer called.1) G) (x : Handler Op Answer σ ε α)
    (s : σ) (g : G) (post : Except ε α → σ → G → Prop) : Prop :=
  (x s).Meets M (fun ended g => post ended.1 ended.2 g) g

/-- The postcondition of a handler that another follows. -/
def Then (M : Monitor (Op × σ) (fun called => Answer called.1) G) (f : α → Handler Op Answer σ ε β)
    (post : Except ε β → σ → G → Prop) : Except ε α → σ → G → Prop
  | .ok value, s, g => (f value).Ensures M s g post
  | .error e, s, g => post (.error e) s g

variable {M : Monitor (Op × σ) (fun called => Answer called.1) G} {s : σ} {g : G}
  {post : Except ε α → σ → G → Prop}

theorem Ensures.mono {x : Handler Op Answer σ ε α} {post' : Except ε α → σ → G → Prop}
    (h : x.Ensures M s g post) (himp : ∀ result s g, post result s g → post' result s g) :
    x.Ensures M s g post' := Prog.Meets.mono h fun _ _ => himp _ _ _

@[simp] theorem ensures_pure {value : α} :
    (pure value : Handler Op Answer σ ε α).Ensures M s g post ↔ post (.ok value) s g := Iff.rfl

@[simp] theorem ensures_fail {e : ε} :
    (fail e : Handler Op Answer σ ε α).Ensures M s g post ↔ post (.error e) s g := Iff.rfl

@[simp] theorem ensures_state {post : Except ε σ → σ → G → Prop} :
    (state : Handler Op Answer σ ε σ).Ensures M s g post ↔ post (.ok s) s g := Iff.rfl

@[simp] theorem ensures_modify {f : σ → σ} {post : Except ε Unit → σ → G → Prop} :
    (modify f : Handler Op Answer σ ε Unit).Ensures M s g post ↔ post (.ok ()) (f s) g := Iff.rfl

@[simp] theorem ensures_call {op : Op} {post : Except ε (Answer op) → σ → G → Prop} :
    (call op : Handler Op Answer σ ε (Answer op)).Ensures M s g post ↔
      M.requires g (op, s) ∧ ∀ answer, M.allows g ⟨(op, s), answer⟩ →
        post (.ok answer) s (M.after g ⟨(op, s), answer⟩) := Iff.rfl

theorem ensures_bind {x : Handler Op Answer σ ε α} {f : α → Handler Op Answer σ ε β}
    {post : Except ε β → σ → G → Prop} :
    (x >>= f).Ensures M s g post ↔ x.Ensures M s g (Then M f post) := by
  refine Prog.meets_bind.trans ⟨fun h => Prog.Meets.mono h ?_, fun h => Prog.Meets.mono h ?_⟩
  · rintro ⟨result, s⟩ g hnext
    cases result with
    | ok value => exact hnext
    | error e => exact hnext
  · rintro ⟨result, s⟩ g hnext
    cases result with
    | ok value => exact hnext
    | error e => exact hnext

@[simp] theorem then_ok {f : α → Handler Op Answer σ ε β} {post : Except ε β → σ → G → Prop}
    {value : α} : Then M f post (.ok value) s g ↔ (f value).Ensures M s g post := Iff.rfl

@[simp] theorem then_error {f : α → Handler Op Answer σ ε β} {post : Except ε β → σ → G → Prop}
    {e : ε} : Then M f post (.error e) s g ↔ post (.error e) s g := Iff.rfl

/-- A handler and the one that follows it. -/
theorem Ensures.bind {x : Handler Op Answer σ ε α} {f : α → Handler Op Answer σ ε β}
    {mid : Except ε α → σ → G → Prop} {post : Except ε β → σ → G → Prop} (h : x.Ensures M s g mid)
    (hok : ∀ value s g, mid (.ok value) s g → (f value).Ensures M s g post)
    (herror : ∀ e s g, mid (.error e) s g → post (.error e) s g) :
    (x >>= f).Ensures M s g post := by
  apply ensures_bind.mpr
  apply h.mono
  intro result s g hmid
  cases result with
  | ok value => exact hok value s g hmid
  | error e => exact herror e s g hmid

@[simp] theorem ensures_caught {x : Handler Op Answer σ ε α} {post : Except ε (Except ε α) → σ → G → Prop} :
    (caught x).Ensures M s g post ↔ x.Ensures M s g fun result => post (.ok result) := Prog.meets_bind

@[simp] theorem ensures_orFail {result : Except ε α} :
    (orFail result : Handler Op Answer σ ε α).Ensures M s g post ↔ post result s g := by
  cases result <;> rfl

end Handler
