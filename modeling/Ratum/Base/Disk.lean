import Mathlib.Data.List.Basic
import Mathlib.Order.Basic
import Mathlib.Data.Nat.Basic

/-!
# A directory of files on a disk that may lose power

What a file holds is on the disk once the file is synced, and a change of the directory once the directory is.
When power is lost before, the file may hold anything, and the directory may be any it was since it was last synced.
A name keeps a property when, whichever of these the directory turns out to be, a synced file with that property
stands under the name: then a loss of power cannot take it away.
-/

structure DiskFile (C : Type*) where
  content : C
  synced : Bool

structure Disk (N C : Type*) where
  /-- The files by their inodes. -/
  files : Nat → DiskFile C
  entries : N → Option Nat
  /-- What the directory was before, since it was last synced. -/
  earlier : List (N → Option Nat)
  /-- The inodes from this one on are free. -/
  next : Nat

namespace Disk

variable {N C : Type*} (d : Disk N C)

/-- What the disk may hold as the directory. -/
def directories : List (N → Option Nat) := d.entries :: d.earlier

def content (name : N) : Option C := (d.entries name).map fun inode => (d.files inode).content

/-! ### The calls -/

def relink (entries : N → Option Nat) : Disk N C := { d with entries, earlier := d.directories }

/-- The file holds something else, which is not on the disk. -/
def write (inode : Nat) (content : C) : Disk N C :=
  { d with files := Function.update d.files inode ⟨content, false⟩ }

def sync (inode : Nat) : Disk N C :=
  { d with files := Function.update d.files inode { d.files inode with synced := true } }

def syncDir : Disk N C := { d with earlier := [] }

section Names

variable [DecidableEq N]

/-- A new file under a name. -/
def create (name : N) (content : C) : Disk N C :=
  { (d.write d.next content).relink (Function.update d.entries name (some d.next)) with next := d.next + 1 }

def remove (name : N) : Disk N C := d.relink (Function.update d.entries name none)

/-- The file under the first name stands under the second. -/
def rename (old new : N) : Disk N C :=
  d.relink (Function.update (Function.update d.entries new (d.entries old)) old none)

end Names

/-! ### What is left -/

/-- The program stops: what is not synced may be written in part. -/
structure Stops (d d' : Disk N C) : Prop where
  entries : d'.entries = d.entries
  earlier : d'.earlier = d.earlier
  next : d'.next = d.next
  files : ∀ inode, (d.files inode).synced = true → d'.files inode = d.files inode

/-- Power is lost. -/
structure LosesPower (d d' : Disk N C) : Prop where
  entries : d'.entries ∈ d.directories
  earlier : d'.earlier = []
  next : d'.next = d.next
  files : ∀ inode, (d.files inode).synced = true → d'.files inode = d.files inode

/-- Under a directory, the name stands for a synced file with the property. -/
def Stands (entries : N → Option Nat) (name : N) (P : C → Prop) : Prop :=
  ∃ inode, entries name = some inode ∧ inode < d.next ∧ (d.files inode).synced = true ∧
    P (d.files inode).content

/-- The name stands for a synced file with the property, whatever the disk holds as the directory. -/
def Keeps (name : N) (P : C → Prop) : Prop := ∀ entries ∈ d.directories, d.Stands entries name P

/-- The name stands for a synced file that holds the content. -/
def Shows (name : N) (content : C) : Prop := d.Stands d.entries name (· = content)

/-- The files synced are as they were. -/
structure Retains (d d' : Disk N C) : Prop where
  next : d.next ≤ d'.next
  files : ∀ inode < d.next, (d.files inode).synced = true → d'.files inode = d.files inode

variable {d} {d' : Disk N C} {name other : N} {entries : N → Option Nat} {P Q : C → Prop} {inode : Nat} {c : C}

theorem Stands.mono (h : d.Stands entries name P) (himp : ∀ content, P content → Q content) :
    d.Stands entries name Q := by
  obtain ⟨inode, hentry, hnext, hsynced, hP⟩ := h
  exact ⟨inode, hentry, hnext, hsynced, himp _ hP⟩

theorem Stands.retains (h : d.Stands entries name P) (hretains : d.Retains d') : d'.Stands entries name P := by
  obtain ⟨inode, hentry, hnext, hsynced, hP⟩ := h
  have hfile := hretains.files inode hnext hsynced
  exact ⟨inode, hentry, hnext.trans_le hretains.next, hfile ▸ hsynced, hfile ▸ hP⟩

theorem Shows.content (h : d.Shows name c) : d.content name = some c := by
  obtain ⟨inode, hentry, -, -, rfl⟩ := h
  rw [Disk.content, hentry]
  rfl

theorem Keeps.mono (h : d.Keeps name P) (himp : ∀ content, P content → Q content) : d.Keeps name Q :=
  fun entries hmem => (h entries hmem).mono himp

/-- Some content the name shows. -/
theorem Keeps.shows (h : d.Keeps name P) : ∃ content, d.Shows name content ∧ P content := by
  obtain ⟨inode, hentry, hnext, hsynced, hP⟩ := h d.entries List.mem_cons_self
  exact ⟨_, ⟨inode, hentry, hnext, hsynced, rfl⟩, hP⟩

theorem Keeps.retains (h : d.Keeps name P) (hretains : d.Retains d')
    (hdirectories : ∀ entries ∈ d'.directories, entries ∈ d.directories) : d'.Keeps name P :=
  fun entries hmem => (h entries (hdirectories entries hmem)).retains hretains

/-! ### The files -/

@[simp] theorem files_write (d : Disk N C) (inode : Nat) (content : C) :
    (d.write inode content).files inode = ⟨content, false⟩ := Function.update_self ..

@[simp] theorem files_sync (d : Disk N C) (inode : Nat) :
    (d.sync inode).files inode = { d.files inode with synced := true } := Function.update_self ..

theorem Retains.of_files (hfiles : d'.files = d.files) (hnext : d'.next = d.next) : d.Retains d' :=
  ⟨hnext.ge, fun inode _ _ => congrFun hfiles inode⟩

/-- The file written is one that was not synced. -/
theorem retains_write (hunsynced : (d.files inode).synced = false) (content : C) :
    d.Retains (d.write inode content) := by
  refine ⟨le_rfl, fun inode' _ hsynced => Function.update_of_ne (fun hsame => ?_) _ _⟩
  rw [hsame, hunsynced] at hsynced
  cases hsynced

theorem retains_sync (d : Disk N C) (inode : Nat) : d.Retains (d.sync inode) := by
  refine ⟨le_rfl, fun inode' _ hsynced => ?_⟩
  obtain rfl | hne := eq_or_ne inode' inode
  · refine (Function.update_self ..).trans ?_
    rw [← hsynced]
  · exact Function.update_of_ne hne _ _

theorem LosesPower.retains (h : d.LosesPower d') : d.Retains d' := ⟨h.next.ge, fun inode _ => h.files inode⟩

theorem Stops.retains (h : d.Stops d') : d.Retains d' := ⟨h.next.ge, fun inode _ => h.files inode⟩

/-- A loss of power leaves what the name keeps. -/
theorem Keeps.losesPower (h : d.Keeps name P) (hlost : d.LosesPower d') : d'.Keeps name P := by
  refine h.retains hlost.retains fun entries hmem => ?_
  rw [directories, hlost.earlier, List.mem_singleton] at hmem
  exact hmem ▸ hlost.entries

theorem Keeps.stops (h : d.Keeps name P) (hstops : d.Stops d') : d'.Keeps name P := by
  refine h.retains hstops.retains fun entries hmem => ?_
  rwa [directories, hstops.earlier, hstops.entries] at hmem

/-! ### The directory -/

theorem Keeps.syncDir (h : d.Keeps name P) : d.syncDir.Keeps name P :=
  h.retains (.of_files rfl rfl) fun _ hmem => List.mem_cons.mpr (.inl (List.mem_singleton.mp hmem))

/-- The directory is another, under which the name stands for what it may. -/
theorem Keeps.relink (h : d.Keeps name P) (hstands : d.Stands entries name P) : (d.relink entries).Keeps name P := by
  intro entries' hmem
  obtain rfl | hmem := List.mem_cons.mp hmem
  · exact hstands.retains (.of_files rfl rfl)
  · exact (h entries' hmem).retains (.of_files rfl rfl)

variable [DecidableEq N]

theorem Stands.update (h : d.Stands entries name P) (hne : name ≠ other) (entry : Option Nat) :
    d.Stands (Function.update entries other entry) name P := by
  obtain ⟨inode, hentry, hrest⟩ := h
  exact ⟨inode, (Function.update_of_ne hne _ _).trans hentry, hrest⟩

@[simp] theorem entries_create (d : Disk N C) (name : N) (content : C) :
    (d.create name content).entries name = some d.next := Function.update_self ..

@[simp] theorem files_create (d : Disk N C) (name : N) (content : C) :
    (d.create name content).files d.next = ⟨content, false⟩ := Function.update_self ..

theorem retains_create (d : Disk N C) (name : N) (content : C) : d.Retains (d.create name content) :=
  ⟨Nat.le_succ _, fun _ hbelow _ => Function.update_of_ne hbelow.ne _ _⟩

theorem Keeps.remove (h : d.Keeps name P) (hne : name ≠ other) : (d.remove other).Keeps name P :=
  h.relink ((h d.entries List.mem_cons_self).update hne none)

theorem Shows.remove (h : d.Shows name c) (hne : name ≠ other) : (d.remove other).Shows name c :=
  (Stands.update h hne none).retains (.of_files rfl rfl)

theorem Keeps.create (h : d.Keeps name P) (hne : name ≠ other) (content : C) :
    (d.create other content).Keeps name P := by
  intro entries hmem
  obtain rfl | hmem := List.mem_cons.mp hmem
  · exact ((h d.entries List.mem_cons_self).update hne _).retains (retains_create d other content)
  · exact (h entries hmem).retains (retains_create d other content)

theorem Shows.create (h : d.Shows name c) (hne : name ≠ other) (content : C) :
    (d.create other content).Shows name c :=
  (Stands.update h hne _).retains (retains_create d other content)

/-- A whole file, synced, that stands under another name takes this one. -/
theorem stands_renamed (hne : name ≠ other) (h : d.Stands d.entries other P) :
    d.Stands (Function.update (Function.update d.entries name (d.entries other)) other none) name P := by
  obtain ⟨inode, hentry, hrest⟩ := h
  refine ⟨inode, ?_, hrest⟩
  rw [Function.update_of_ne hne, Function.update_self, hentry]

theorem Keeps.rename (h : d.Keeps name P) (hne : name ≠ other) (hnew : d.Stands d.entries other P) :
    (d.rename other name).Keeps name P := h.relink (stands_renamed hne hnew)

theorem Shows.rename (hne : name ≠ other) (hnew : d.Shows other c) : (d.rename other name).Shows name c :=
  (stands_renamed hne hnew).retains (.of_files rfl rfl)

end Disk
