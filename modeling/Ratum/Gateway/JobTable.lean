import Mathlib.Data.List.ReduceOption
import Ratum.Gateway.Job

/-!
# The job table

`gateway/src/job.rs`: the jobs a share may name by slot and the work served to new connections. The flag
that marks a job as building on a stale previous block is part of the job and shared by everything that
holds it; no two jobs share a serial, so the table keeps the flags by serial.
-/

namespace Ratum

structure Publication where
  job : Job
  kind : CoinbaseKind
  sequence : Nat

structure JobTable where
  slots : List (Option Job)
  current : Option Publication
  published : Nat
  keep : Duration
  tip : Option Hash
  stalePrevblock : Nat → Bool

namespace JobTable

def new (slots : Nat) (keep : Duration) : JobTable where
  slots := List.replicate slots none
  current := none
  published := 0
  keep
  tip := none
  stalePrevblock _ := false

variable (t : JobTable)

/-- The jobs in the slots. -/
def installed : List Job := t.slots.reduceOption

def isStale (job : Job) : Bool := t.stalePrevblock job.serial

def setTip (prevHash : Hash) : JobTable := { t with tip := some prevHash }

/-- Marks the installed jobs the condition selects. -/
def mark (selected : Job → Bool) : JobTable :=
  { t with
    stalePrevblock := fun serial =>
      t.stalePrevblock serial || t.installed.any fun other => other.serial = serial && selected other }

/-- Installs the job and makes it the work served; false, and no change, when it builds on another
previous block than the tip recorded. -/
def publish (now : Instant) (job : Job) (kind : CoinbaseKind) : Bool × JobTable :=
  let prevHash := job.template.prevHash
  if t.tip.any fun tip => tip ≠ prevHash then (false, t)
  else
    let marked := t.mark fun other => kind = .subsidyOnly || other.template.prevHash ≠ prevHash
    let slots := t.slots.map fun slot => slot.filter fun held => ¬ t.keep < now - held.createdAt
    (true,
      { marked with
        slots := slots.set job.slot.toNat (some job)
        published := t.published + 1
        current := some { job, kind, sequence := t.published + 1 } })

def markStaleOff (prevHash : Hash) : JobTable :=
  t.mark fun other => other.template.prevHash ≠ prevHash

/-- The job in the slot; none while the slot is empty or out of range. -/
def at? (slot : UInt8) : Option Job := t.slots[slot.toNat]?.join

variable {t}

@[simp] theorem installed_setTip (prevHash : Hash) : (t.setTip prevHash).installed = t.installed := rfl

@[simp] theorem installed_mark (selected : Job → Bool) : (t.mark selected).installed = t.installed :=
  rfl

@[simp] theorem installed_new (slots : Nat) (keep : Duration) : (new slots keep).installed = [] := by
  rw [installed, new, List.reduceOption_replicate_none]

theorem mem_installed {job : Job} : job ∈ t.installed ↔ some job ∈ t.slots := by
  rw [installed, List.reduceOption_mem_iff]

theorem mem_installed_of_at {slot : UInt8} {job : Job} (hheld : t.at? slot = some job) :
    job ∈ t.installed := by
  rw [at?, Option.join_eq_some_iff] at hheld
  exact mem_installed.mpr (List.mem_of_getElem? hheld)

theorem stale_mark {selected : Job → Bool} {serial : Nat} :
    (t.mark selected).stalePrevblock serial = true ↔
      t.stalePrevblock serial = true ∨
        ∃ other ∈ t.installed, other.serial = serial ∧ selected other = true := by
  simp [mark]

/-- What a publication that is not refused does. -/
structure Published (t : JobTable) (job : Job) (kind : CoinbaseKind) (t' : JobTable) : Prop where
  tip_eq : t'.tip = t.tip
  on_tip : ∀ tip, t.tip = some tip → job.template.prevHash = tip
  current_eq : ∃ sequence, t'.current = some { job, kind, sequence }
  installed_of : ∀ other ∈ t'.installed, other = job ∨ other ∈ t.installed
  slots_of : ∀ (i : Nat) (other : Job), t'.slots[i]? = some (some other) →
    i = job.slot.toNat ∧ other = job ∨ i ≠ job.slot.toNat ∧ t.slots[i]? = some (some other)
  stale_eq : t'.stalePrevblock =
    (t.mark fun other =>
      kind = .subsidyOnly || other.template.prevHash ≠ job.template.prevHash).stalePrevblock

theorem publish_eq_true {now : Instant} {job : Job} {kind : CoinbaseKind} {t' : JobTable}
    (hpublish : t.publish now job kind = (true, t')) : Published t job kind t' := by
  rw [publish] at hpublish
  dsimp only at hpublish
  split at hpublish
  · cases hpublish
  · rename_i htip
    obtain rfl := (Prod.mk.inj hpublish).2
    refine ⟨rfl, ?_, ⟨_, rfl⟩, ?_, ?_, rfl⟩
    · intro tip heq
      rw [heq, Option.any_some, decide_eq_true_eq, not_not] at htip
      exact htip.symm
    · intro other hother
      rw [mem_installed] at hother ⊢
      obtain hmem | heq := List.mem_or_eq_of_mem_set hother
      · right
        obtain ⟨slot, hslot, hfilter⟩ := List.mem_map.mp hmem
        rwa [← (Option.filter_eq_some_iff.mp hfilter).1]
      · exact .inl (Option.some.inj heq)
    · intro i other hother
      rw [List.getElem?_set] at hother
      split at hother
      · rename_i hslot
        split at hother
        · exact .inl ⟨hslot.symm, (Option.some.inj (Option.some.inj hother)).symm⟩
        · cases hother
      · rename_i hslot
        rw [List.getElem?_map, Option.map_eq_some_iff] at hother
        obtain ⟨slot, hslot', hfilter⟩ := hother
        rw [(Option.filter_eq_some_iff.mp hfilter).1] at hslot'
        exact .inr ⟨fun heq => hslot heq.symm, hslot'⟩

theorem publish_of_tip {job : Job} (htip : t.tip = some job.template.prevHash) (now : Instant)
    (kind : CoinbaseKind) : ∃ t', t.publish now job kind = (true, t') := by
  rw [publish]
  dsimp only
  rw [if_neg (by simp [htip])]
  exact ⟨_, rfl⟩

/-- The job published is the one in its slot. -/
theorem at?_of_publish {now : Instant} {job : Job} {kind : CoinbaseKind} {t' : JobTable}
    (hpublish : t.publish now job kind = (true, t')) (hslot : job.slot.toNat < t.slots.length) :
    t'.at? job.slot = some job ∧ t'.slots.length = t.slots.length := by
  rw [publish] at hpublish
  dsimp only at hpublish
  split at hpublish
  · cases hpublish
  · obtain rfl := (Prod.mk.inj hpublish).2
    refine ⟨?_, by simp⟩
    rw [at?, List.getElem?_set_self (by rwa [List.length_map])]
    rfl

end JobTable
end Ratum
