import Ratum.Base.Disk
import Ratum.Base.Handler
import Ratum.Base.Lts
import Ratum.Core.Bytes
import Ratum.Core.Io
import Mathlib.Data.List.Chain
import Mathlib.Data.List.TakeWhile
import Mathlib.Data.Nat.Bitwise

/-!
# Saving the settings

`save_settings` of `gateway/src/api.rs` and `write_file` of `gateway/src/api/config_form.rs`, on the threads that
serve the admin port, each save under the lock of `Context::settings_save`; and what a stop of the gateway or a loss
of power leaves of the file. The edit `apply` makes of the text is a parameter, and so is the path resolved: nothing
but a save writes the file. A warning is not modelled, and a refused change of owner shows in its mode alone.
-/

namespace Ratum

/-- A file by its text and its permission bits. -/
structure SettingsFile where
  text : Bytes
  mode : Nat
  deriving DecidableEq

/-- Compares all bytes, whatever the first difference. -/
def secureEq (a b : Bytes) : Bool :=
  (List.range (max a.length b.length)).foldl
    (fun acc i => acc ||| (a.getD i 0 ^^^ b.getD i 0).toNat) (a.length ^^^ b.length) = 0

theorem foldl_or_eq_zero {f : Nat → Nat} {is : List Nat} {acc : Nat} :
    is.foldl (fun acc i => acc ||| f i) acc = 0 ↔ acc = 0 ∧ ∀ i ∈ is, f i = 0 := by
  induction is generalizing acc with
  | nil => simp
  | cons i is ih => simp [ih, Nat.or_eq_zero_iff, and_assoc]

theorem secureEq_iff {a b : Bytes} : secureEq a b = true ↔ a = b := by
  rw [secureEq, decide_eq_true_iff, foldl_or_eq_zero, Nat.xor_eq_zero_iff]
  constructor
  · rintro ⟨hlength, hbytes⟩
    refine List.ext_getElem hlength fun i hi hi' => ?_
    have hbyte := hbytes i (List.mem_range.mpr (lt_max_of_lt_left hi))
    rw [List.getD_eq_getElem _ _ hi, List.getD_eq_getElem _ _ hi', UInt8.toNat_xor, Nat.xor_eq_zero_iff] at hbyte
    exact UInt8.toNat_inj.mp hbyte
  · rintro rfl
    exact ⟨rfl, fun i _ => by rw [UInt8.xor_self, UInt8.toNat_zero]⟩

/-- The fields of a form, in the order they were sent. -/
abbrev SettingsForm := List (String × String)

def SettingsForm.carries (form : SettingsForm) (token : String) : Bool :=
  form.any fun field => field.1 = "csrf" && secureEq (stringBytes field.2) (stringBytes token)

theorem SettingsForm.carries_iff {form : SettingsForm} {token : String} :
    form.carries token = true ↔ ("csrf", token) ∈ form := by
  have hfield (field : String × String) : (field.1 = "csrf" && secureEq (stringBytes field.2) (stringBytes token)) =
      true ↔ field = ("csrf", token) := by
    rw [Bool.and_eq_true, decide_eq_true_iff, secureEq_iff, Prod.ext_iff]
    refine and_congr_right' ⟨fun h => ?_, fun h => congrArg stringBytes h⟩
    exact String.toByteArray_inj.mp (ByteArray.ext (Array.toList_inj.mp h))
  simp only [carries, List.any_eq_true, hfield, exists_eq_right]

inductive RemoveAnswer
  | removed
  | notFound
  | failed (e : IoError)

/-- The calls of a save. -/
inductive SaveOp
  | readToString
  /-- `canonicalize` of the path and `metadata` of the file. -/
  | metadata
  | removeTmp
  | createNew (mode : Nat)
  | fchown (inode : Nat)
  | setPermissions (inode mode : Nat)
  | writeAll (inode : Nat) (text : Bytes)
  | syncAll (inode : Nat)
  | rename
  | syncDir

@[reducible] def SaveOp.Answer : SaveOp → Type
  | readToString => Except IoError Bytes
  | metadata | createNew _ => Except IoError Nat
  | removeTmp => RemoveAnswer
  -- with the mode a change of owner leaves
  | fchown _ => IoAnswer × Nat
  -- with the bytes a failed write wrote
  | writeAll .. => IoAnswer × Nat
  | setPermissions .. | syncAll _ | rename | syncDir => IoAnswer

abbrev SaveHandler (α : Type) := Handler SaveOp SaveOp.Answer Unit IoError α

inductive SettingsReply
  | errors (code : Nat) (errors : List String)
  | ok (restart : Bool)
  deriving DecidableEq

/-- What `apply` makes of the file's text for a form: errors, no change, or a new text. -/
abbrev SettingsEdit (Config : Type) := Config → Bytes → SettingsForm → Except (List String) (Option Bytes)

/-! ### A save -/

namespace SaveHandler

open Handler

abbrev io (op : SaveOp) : SaveHandler op.Answer := Handler.call op

/-- The new file with its owner, permissions and text, synced. -/
def writeNew (permissions : Nat) (text : Bytes) : SaveHandler Unit := do
  let created ← io (.createNew (permissions &&& 0o7777))
  let inode ← orFail created
  let _ ← io (.fchown inode)
  let set ← io (.setPermissions inode permissions)
  orFail set
  let written ← io (.writeAll inode text)
  orFail written.1
  let synced ← io (.syncAll inode)
  orFail synced

def removeOld : RemoveAnswer → SaveHandler Unit
  | .failed e => fail e
  | .removed | .notFound => pure ()

def writeFile (text : Bytes) : SaveHandler Unit := do
  let metadata ← io .metadata
  let permissions ← orFail metadata
  let answer ← io .removeTmp
  removeOld answer
  let written ← caught (writeNew permissions text)
  match written with
  | .error e => do
      let _ ← io .removeTmp
      fail e
  | .ok _ => do
      let renamed ← io .rename
      orFail renamed
      let synced ← io .syncDir
      orFail synced

variable {Config : Type} (edit : SettingsEdit Config)

/-- The text of an error with the path it is about, as the page shows it. -/
def pathError (what path : String) (e : IoError) : String := what ++ path ++ ": " ++ e.message

def saveSettings (path : String) (config : Config) (token : String) (form : SettingsForm) :
    SaveHandler SettingsReply :=
  if !form.carries token then pure (.errors 403 ["Missing or stale form token."])
  else do
    let text ← io .readToString
    match text with
    | .error e => pure (.errors 500 [pathError "could not read " path e])
    | .ok text =>
        match edit config text form with
        | .error errors => pure (.errors 400 errors)
        | .ok none => pure (.ok false)
        | .ok (some newText) => do
            let written ← caught (writeFile newText)
            match written with
            | .ok _ => pure (.ok true)
            | .error e => pure (.errors 500 [pathError "could not write " path e])

end SaveHandler

/-! ### The file and its versions -/

/-- The directory of the configuration file: the file, and the new one beside it. -/
inductive SettingsName
  | target
  | tmp
  deriving DecidableEq

/-- The disk, and what the file held, which nothing in the source keeps: its versions, the latest last, and the
index of the last one a save reported. -/
structure SettingsWorld where
  disk : Disk SettingsName SettingsFile
  versions : List SettingsFile
  reported : Nat

namespace SettingsWorld

variable (w : SettingsWorld)

def setDisk (disk : Disk SettingsName SettingsFile) : SettingsWorld := { w with disk }

/-- The file written is changed. -/
def change (inode : Nat) (f : SettingsFile → SettingsFile) : SettingsWorld :=
  w.setDisk (w.disk.write inode (f (w.disk.files inode).content))

/-- After a call. A new file has the permission bits asked for that the umask leaves. -/
def after (unmasked : Nat) : Called SaveOp SaveOp.Answer → SettingsWorld
  | ⟨.readToString, _⟩ | ⟨.metadata, _⟩ => w
  | ⟨.removeTmp, .removed⟩ => w.setDisk (w.disk.remove .tmp)
  | ⟨.removeTmp, _⟩ => w
  | ⟨.createNew mode, .ok _⟩ => w.setDisk (w.disk.create .tmp ⟨[], mode &&& unmasked⟩)
  | ⟨.createNew _, .error _⟩ => w
  | ⟨.fchown inode, (_, mode)⟩ => w.change inode fun file => { file with mode }
  | ⟨.setPermissions inode mode, .ok _⟩ => w.change inode fun file => { file with mode }
  | ⟨.setPermissions .., .error _⟩ => w
  | ⟨.writeAll inode text, (.ok _, _)⟩ => w.change inode fun file => { file with text := file.text ++ text }
  | ⟨.writeAll inode text, (.error _, n)⟩ =>
      w.change inode fun file => { file with text := file.text ++ text.take n }
  | ⟨.syncAll inode, .ok _⟩ => w.setDisk (w.disk.sync inode)
  | ⟨.syncAll _, .error _⟩ => w
  | ⟨.rename, .ok _⟩ =>
      { w with disk := w.disk.rename .tmp .target, versions := w.versions ++ (w.disk.content .tmp).toList }
  | ⟨.rename, .error _⟩ => w
  | ⟨.syncDir, .ok _⟩ => w.setDisk w.disk.syncDir
  | ⟨.syncDir, .error _⟩ => w

/-- The answers a file system gives: what is read is what is there, and a new file has an inode of its own. -/
def Answers : Called SaveOp SaveOp.Answer → Prop
  | ⟨.readToString, .ok text⟩ => (w.disk.content .target).map SettingsFile.text = some text
  | ⟨.metadata, .ok mode⟩ => (w.disk.content .target).map SettingsFile.mode = some mode
  | ⟨.createNew _, .ok inode⟩ => w.disk.entries .tmp = none ∧ inode = w.disk.next
  | _ => True

/-- A save that reports a new file written. -/
def finished : SettingsReply → SettingsWorld
  | .ok true => { w with reported := w.versions.length - 1 }
  | _ => w

/-- The versions left when the file holds one of them. -/
def rewound (file : SettingsFile) : List SettingsFile := (w.versions.reverse.dropWhile (· ≠ file)).reverse

/-- After a loss of power left the disk so. -/
def lostPower (disk : Disk SettingsName SettingsFile) : SettingsWorld :=
  { w with disk, versions := (disk.content .target).elim [] w.rewound }

end SettingsWorld

/-! ### What a save keeps -/

variable {Config : Type} {edit : SettingsEdit Config} {unmasked : Nat} {w : SettingsWorld} {inode : Nat}
  {file : SettingsFile}

/-- A version a save makes of the one before: an edit of its text for a form with the token, its mode kept. -/
def SettingsFile.Edited (edit : SettingsEdit Config) (file file' : SettingsFile) : Prop :=
  file'.mode = file.mode ∧ ∃ config token form, ("csrf", token) ∈ form ∧
    edit config file.text form = .ok (some file'.text)

namespace SettingsWorld

/-- The file holds the latest version, each an edit of the one before, and whatever the disk holds as its directory,
one of those since the last that was reported. -/
structure Sound (edit : SettingsEdit Config) (w : SettingsWorld) : Prop where
  shown : ∃ file, w.disk.Shows .target file ∧ w.versions.getLast? = some file
  kept : w.disk.Keeps .target fun file => ∃ k, w.reported ≤ k ∧ w.versions[k]? = some file
  chain : w.versions.IsChain (SettingsFile.Edited edit)

/-- The new file of a save, not synced yet. -/
structure Drafts (w : SettingsWorld) (inode : Nat) (file : SettingsFile) : Prop where
  entry : w.disk.entries .tmp = some inode
  next : inode < w.disk.next
  unsynced : (w.disk.files inode).synced = false
  content : (w.disk.files inode).content = file

theorem Sound.setDisk (h : w.Sound edit) {disk : Disk SettingsName SettingsFile}
    (hshows : ∀ file, w.disk.Shows .target file → disk.Shows .target file)
    (hkeeps : ∀ P, w.disk.Keeps .target P → disk.Keeps .target P) : (w.setDisk disk).Sound edit where
  shown := by
    obtain ⟨file, hfile, hlast⟩ := h.shown
    exact ⟨file, hshows file hfile, hlast⟩
  kept := hkeeps _ h.kept
  chain := h.chain

theorem Sound.reported_lt (h : w.Sound edit) : w.reported < w.versions.length := by
  obtain ⟨file, -, k, hreported, hk⟩ := h.kept.shows
  exact hreported.trans_lt (List.getElem?_eq_some_iff.mp hk).1

theorem Sound.change (h : w.Sound edit) (hdraft : w.Drafts inode file) (f : SettingsFile → SettingsFile) :
    (w.change inode f).Sound edit :=
  h.setDisk (fun _ hfile => Disk.Stands.retains hfile (Disk.retains_write hdraft.unsynced _))
    fun _ hP => hP.retains (Disk.retains_write hdraft.unsynced _) fun _ => id

theorem Drafts.change (h : w.Drafts inode file) (f : SettingsFile → SettingsFile) :
    (w.change inode f).Drafts inode (f file) where
  entry := h.entry
  next := h.next
  unsynced := by simp only [SettingsWorld.change, setDisk, Disk.files_write]
  content := by simp only [SettingsWorld.change, setDisk, Disk.files_write, h.content]

theorem Sound.remove (h : w.Sound edit) : (w.setDisk (w.disk.remove .tmp)).Sound edit :=
  h.setDisk (fun _ hfile => hfile.remove (by decide)) fun _ hP => hP.remove (by decide)

theorem Sound.create (h : w.Sound edit) (mode : Nat) :
    (w.setDisk (w.disk.create .tmp ⟨[], mode⟩)).Sound edit :=
  h.setDisk (fun _ hfile => hfile.create (by decide) _) fun _ hP => hP.create (by decide) _

theorem drafts_create (w : SettingsWorld) (mode : Nat) :
    (w.setDisk (w.disk.create .tmp ⟨[], mode⟩)).Drafts w.disk.next ⟨[], mode⟩ where
  entry := Disk.entries_create ..
  next := Nat.lt_succ_self _
  unsynced := by simp only [setDisk, Disk.files_create]
  content := by simp only [setDisk, Disk.files_create]

theorem Sound.sync (h : w.Sound edit) (inode : Nat) : (w.setDisk (w.disk.sync inode)).Sound edit :=
  h.setDisk (fun _ hfile => Disk.Stands.retains hfile (Disk.retains_sync w.disk inode))
    fun _ hP => hP.retains (Disk.retains_sync w.disk inode) fun _ => id

theorem Drafts.sync (h : w.Drafts inode file) : (w.setDisk (w.disk.sync inode)).disk.Shows .tmp file := by
  refine ⟨inode, h.entry, h.next, ?_, ?_⟩
  · simp only [setDisk, Disk.files_sync]
  · simp only [setDisk, Disk.files_sync, h.content]

theorem Sound.syncDir (h : w.Sound edit) : (w.setDisk w.disk.syncDir).Sound edit :=
  h.setDisk (fun _ hfile => Disk.Stands.retains hfile (.of_files rfl rfl)) fun _ hP => hP.syncDir

/-- The new file, whole and synced, takes the place of the old one. -/
theorem Sound.rename (unmasked : Nat) (h : w.Sound edit) {last : SettingsFile}
    (hlast : w.versions.getLast? = some last) (hnew : w.disk.Shows .tmp file) (hedited : last.Edited edit file) :
    (w.after unmasked ⟨.rename, .ok ()⟩).Sound edit := by
  have hversions : w.versions ++ (w.disk.content .tmp).toList = w.versions ++ [file] := by
    rw [hnew.content]
    rfl
  refine ⟨⟨file, hnew.rename (by decide), ?_⟩, ?_, ?_⟩
  · show (w.versions ++ (w.disk.content .tmp).toList).getLast? = some file
    rw [hversions, List.getLast?_concat]
  · show Disk.Keeps _ _ fun file => ∃ k, w.reported ≤ k ∧
      (w.versions ++ (w.disk.content .tmp).toList)[k]? = some file
    rw [hversions]
    refine (h.kept.mono ?_).rename (by decide) (hnew.mono ?_)
    · rintro file' ⟨k, hreported, hk⟩
      exact ⟨k, hreported, (List.getElem?_append_left (List.getElem?_eq_some_iff.mp hk).1).trans hk⟩
    · rintro _ rfl
      exact ⟨w.versions.length, h.reported_lt.le, List.getElem?_concat_length⟩
  · show (w.versions ++ (w.disk.content .tmp).toList).IsChain _
    rw [hversions]
    refine List.isChain_append.mpr ⟨h.chain, .singleton _, fun file₁ hfile₁ file₂ hfile₂ => ?_⟩
    obtain rfl := Option.some.inj (hlast.symm.trans hfile₁)
    obtain rfl := Option.some.inj hfile₂
    exact hedited

/-- A save reported: what the file holds is on the disk. -/
theorem Sound.finished (h : w.Sound edit) {reply : SettingsReply}
    (hsynced : reply = .ok true → w.disk.earlier = []) : (w.finished reply).Sound edit := by
  unfold SettingsWorld.finished
  split
  · refine ⟨h.shown, fun entries hmem => ?_, h.chain⟩
    rw [Disk.directories, hsynced rfl, List.mem_singleton] at hmem
    obtain ⟨file, hfile, hlast⟩ := h.shown
    rw [hmem]
    refine hfile.mono ?_
    rintro _ rfl
    exact ⟨w.versions.length - 1, le_rfl, List.getLast?_eq_getElem?.symm.trans hlast⟩
  · exact h

end SettingsWorld

/-- Follows the file over the calls of a save, which is sound at each of them. -/
def saveMonitor (edit : SettingsEdit Config) (unmasked : Nat) :
    Monitor (SaveOp × Unit) (fun call => SaveOp.Answer call.1) SettingsWorld where
  allows w called := w.Answers ⟨called.1.1, called.2⟩
  requires w _ := w.Sound edit
  after w called := w.after unmasked ⟨called.1.1, called.2⟩

namespace SaveHandler

open Handler SettingsWorld

/-- The new file holds the whole text under the permissions given, when nothing fails. -/
theorem writeNew_spec (h : w.Sound edit) (permissions : Nat) (text : Bytes) :
    (writeNew permissions text).Ensures (saveMonitor edit unmasked) () w fun result _ w' =>
      w'.Sound edit ∧ w'.versions = w.versions ∧ (result = .ok () → w'.disk.Shows .tmp ⟨text, permissions⟩) := by
  unfold writeNew
  rw [ensures_bind, ensures_call]
  refine ⟨h, fun created hcreated => ?_⟩
  rw [then_ok, ensures_bind, ensures_orFail]
  cases created with
  | error e => exact ⟨h, rfl, fun hok => by cases hok⟩
  | ok inode =>
      obtain ⟨-, rfl⟩ : w.disk.entries .tmp = none ∧ inode = w.disk.next := hcreated
      have h₁ := h.create (permissions &&& 0o7777 &&& unmasked)
      have hdraft₁ := drafts_create w (permissions &&& 0o7777 &&& unmasked)
      rw [then_ok, ensures_bind, ensures_call]
      refine ⟨h₁, fun owner _ => ?_⟩
      have h₂ := h₁.change hdraft₁ fun file => { file with mode := owner.2 }
      have hdraft₂ := hdraft₁.change fun file => { file with mode := owner.2 }
      rw [then_ok, ensures_bind, ensures_call]
      refine ⟨h₂, fun set _ => ?_⟩
      rw [then_ok, ensures_bind, ensures_orFail]
      cases set with
      | error e => exact ⟨h₂, rfl, fun hok => by cases hok⟩
      | ok _ =>
          have h₃ := h₂.change hdraft₂ fun file => { file with mode := permissions }
          have hdraft₃ := hdraft₂.change fun file => { file with mode := permissions }
          rw [then_ok, ensures_bind, ensures_call]
          refine ⟨h₃, fun written _ => ?_⟩
          rw [then_ok, ensures_bind, ensures_orFail]
          obtain ⟨written, n⟩ := written
          cases written with
          | error e =>
              exact ⟨h₃.change hdraft₃ fun file => { file with text := file.text ++ text.take n }, rfl,
                fun hok => by cases hok⟩
          | ok _ =>
              have h₄ := h₃.change hdraft₃ fun file => { file with text := file.text ++ text }
              have hdraft₄ := hdraft₃.change fun file => { file with text := file.text ++ text }
              rw [then_ok, ensures_bind, ensures_call]
              refine ⟨h₄, fun synced _ => ?_⟩
              rw [then_ok, ensures_orFail]
              cases synced with
              | error e => exact ⟨h₄, rfl, fun hok => by cases hok⟩
              | ok _ => exact ⟨h₄.sync _, rfl, fun _ => hdraft₄.sync⟩

/-- The new file removed, or not there. -/
theorem after_removeTmp (unmasked : Nat) (h : w.Sound edit) (answer : RemoveAnswer) :
    (w.after unmasked ⟨.removeTmp, answer⟩).Sound edit ∧
      (w.after unmasked ⟨.removeTmp, answer⟩).versions = w.versions := by
  cases answer with
  | removed => exact ⟨h.remove, rfl⟩
  | notFound => exact ⟨h, rfl⟩
  | failed e => exact ⟨h, rfl⟩

theorem removeOld_spec (answer : RemoveAnswer) :
    (removeOld answer).Ensures (saveMonitor edit unmasked) () w fun _ _ w' => w' = w := by
  cases answer <;> rfl

/-- The file is replaced by one with the text and the mode it had, or not at all. -/
theorem writeFile_spec (h : w.Sound edit) {last : SettingsFile} (hlast : w.versions.getLast? = some last)
    {text : Bytes} (hedited : last.Edited edit ⟨text, last.mode⟩) :
    (writeFile text).Ensures (saveMonitor edit unmasked) () w fun result _ w' =>
      w'.Sound edit ∧ (result = .ok () → w'.disk.earlier = []) := by
  unfold writeFile
  rw [ensures_bind, ensures_call]
  refine ⟨h, fun metadata hmetadata => ?_⟩
  rw [then_ok, ensures_bind, ensures_orFail]
  cases metadata with
  | error e => exact ⟨h, fun hok => by cases hok⟩
  | ok permissions =>
      obtain rfl : permissions = last.mode := by
        obtain ⟨file, hfile, hshown⟩ := h.shown
        obtain rfl := Option.some.inj (hlast.symm.trans hshown)
        have hmode : (w.disk.content .target).map SettingsFile.mode = some permissions := hmetadata
        rw [hfile.content] at hmode
        exact (Option.some.inj hmode).symm
      rw [then_ok, ensures_bind, ensures_call]
      refine ⟨h, fun answer _ => ?_⟩
      obtain ⟨h₁, hversions₁⟩ := after_removeTmp unmasked h answer
      rw [then_ok]
      refine (removeOld_spec answer).bind ?_ ?_
      · rintro - - _ rfl
        rw [ensures_bind, ensures_caught]
        refine (writeNew_spec h₁ last.mode text).mono ?_
        rintro written ⟨⟩ w₂ ⟨h₂, hversions₂, hwritten⟩
        cases written with
        | error e =>
            rw [then_ok, ensures_bind, ensures_call]
            refine ⟨h₂, fun answer _ => ⟨(after_removeTmp unmasked h₂ answer).1, fun hok => by cases hok⟩⟩
        | ok _ =>
            rw [then_ok, ensures_bind, ensures_call]
            refine ⟨h₂, fun renamed _ => ?_⟩
            rw [then_ok, ensures_bind, ensures_orFail]
            cases renamed with
            | error e => exact ⟨h₂, fun hok => by cases hok⟩
            | ok _ =>
                have hlast₂ : w₂.versions.getLast? = some last := by rw [hversions₂, hversions₁, hlast]
                have h₃ := h₂.rename unmasked hlast₂ (hwritten rfl) hedited
                rw [then_ok, ensures_bind, ensures_call]
                refine ⟨h₃, fun synced _ => ?_⟩
                rw [then_ok, ensures_orFail]
                cases synced with
                | error e => exact ⟨h₃, fun hok => by cases hok⟩
                | ok _ => exact ⟨h₃.syncDir, fun _ => rfl⟩
      · rintro e - _ rfl
        exact ⟨h₁, fun hok => by cases hok⟩

/-- **A save replaces the file by an edit of what it held, or leaves it**; one that reports a new file has it on the
disk. -/
theorem saveSettings_spec (h : w.Sound edit) (path : String) (config : Config) (token : String)
    (form : SettingsForm) :
    (saveSettings edit path config token form).Ensures (saveMonitor edit unmasked) () w fun result _ w' =>
      w'.Sound edit ∧ (result = .ok (.ok true) → w'.disk.earlier = []) := by
  unfold saveSettings
  split
  · exact ⟨h, fun hok => by cases hok⟩
  · rename_i hcarries
    rw [ensures_bind, ensures_call]
    refine ⟨h, fun text htext => ?_⟩
    rw [then_ok]
    cases text with
    | error e => exact ⟨h, fun hok => by cases hok⟩
    | ok text =>
        dsimp only
        cases hedit : edit config text form with
        | error errors => exact ⟨h, fun hok => by cases hok⟩
        | ok edited =>
            cases edited with
            | none => exact ⟨h, fun hok => by cases hok⟩
            | some newText =>
                obtain ⟨file, hfile, hlast⟩ := h.shown
                obtain rfl : file.text = text := by
                  have hread : (w.disk.content .target).map SettingsFile.text = some text := htext
                  rw [hfile.content] at hread
                  exact Option.some.inj hread
                dsimp only
                rw [ensures_bind, ensures_caught]
                have hedited : file.Edited edit ⟨newText, file.mode⟩ :=
                  ⟨rfl, config, token, form, SettingsForm.carries_iff.mp (by simpa using hcarries), hedit⟩
                refine (writeFile_spec h hlast hedited).mono ?_
                rintro written ⟨⟩ w' ⟨h', hsynced⟩
                cases written with
                | error e => exact ⟨h', fun hok => by cases hok⟩
                | ok _ => exact ⟨h', fun _ => hsynced rfl⟩

end SaveHandler

/-! ### The threads that save -/

abbrev SaveProgram :=
  Prog (SaveOp × Unit) (fun call => SaveOp.Answer call.1) (Except IoError SettingsReply × Unit)

inductive SaveAt
  | idle
  /-- Before it holds the lock. -/
  | waiting (form : SettingsForm)
  | saving (program : SaveProgram)

structure SettingsServer (ι Config : Type) where
  world : SettingsWorld
  config : Config
  token : String
  locked : Bool
  threads : ι → SaveAt

namespace SettingsServer

variable {ι : Type} [DecidableEq ι] (server : SettingsServer ι Config)

def move (c : ι) (position : SaveAt) : SettingsServer ι Config :=
  { server with threads := Function.update server.threads c position }

@[simp] theorem threads_move_self (server : SettingsServer ι Config) (c : ι) (position : SaveAt) :
    (server.move c position).threads c = position := Function.update_self ..

theorem threads_move_of_ne {c c' : ι} (hne : c' ≠ c) (position : SaveAt) :
    (server.move c position).threads c' = server.threads c' := Function.update_of_ne hne _ _

/-- The gateway started anew on a disk. -/
def restarted (world : SettingsWorld) (config : Config) (token : String) : SettingsServer ι Config :=
  ⟨world, config, token, false, fun _ => .idle⟩

end SettingsServer

section Steps

variable {ι : Type} [DecidableEq ι] (edit : SettingsEdit Config) (unmasked : Nat) (path : String)

inductive SettingsStep : SettingsServer ι Config → Option SettingsReply → SettingsServer ι Config → Prop
  | post {server : SettingsServer ι Config} (c : ι) (form : SettingsForm) (hat : server.threads c = .idle) :
      SettingsStep server none (server.move c (.waiting form))
  | acquire {server : SettingsServer ι Config} (c : ι) {form : SettingsForm}
      (hat : server.threads c = .waiting form) (hfree : server.locked = false) :
      SettingsStep server none
        ({ server with locked := true }.move c
          (.saving (SaveHandler.saveSettings edit path server.config server.token form ())))
  | call {server : SettingsServer ι Config} (c : ι) (op : SaveOp) {next : op.Answer → SaveProgram}
      (answer : op.Answer) (hat : server.threads c = .saving (.call (op, ()) next))
      (hanswer : server.world.Answers ⟨op, answer⟩) :
      SettingsStep server none
        ({ server with world := server.world.after unmasked ⟨op, answer⟩ }.move c (.saving (next answer)))
  | finish {server : SettingsServer ι Config} (c : ι) {reply : SettingsReply}
      (hat : server.threads c = .saving (.done (.ok reply, ()))) :
      SettingsStep server (some reply)
        ({ server with world := server.world.finished reply, locked := false }.move c .idle)
  | stop {server : SettingsServer ι Config} (config : Config) (token : String)
      {disk : Disk SettingsName SettingsFile} (hstops : server.world.disk.Stops disk) :
      SettingsStep server none (.restarted (server.world.setDisk disk) config token)
  | losePower {server : SettingsServer ι Config} (config : Config) (token : String)
      {disk : Disk SettingsName SettingsFile} (hlost : server.world.disk.LosesPower disk) :
      SettingsStep server none (.restarted (server.world.lostPower disk) config token)

/-- The gateways that run on a disk, one after the other, from one that holds a file. -/
def savingSettings : Lts (SettingsServer ι Config) (Option SettingsReply) where
  init server := ∃ disk file config token, disk.Shows .target file ∧ disk.earlier = [] ∧
    server = .restarted ⟨disk, [file], 0⟩ config token
  step := SettingsStep edit unmasked path

end Steps

section Runs

variable {ι : Type} {path : String} {server server' : SettingsServer ι Config} {event : Option SettingsReply}
  {trace : List (Option SettingsReply)}

namespace SettingsWorld

/-- The versions up to the last one that is the file. -/
theorem rewound_eq {k : Nat} (hk : w.versions[k]? = some file) : ∃ rest,
    w.versions = w.rewound file ++ rest ∧ (w.rewound file).getLast? = some file ∧
      k < (w.rewound file).length := by
  have hsplit : w.versions = w.rewound file ++ (w.versions.reverse.takeWhile (· ≠ file)).reverse := by
    rw [rewound, ← List.reverse_append, List.takeWhile_append_dropWhile, List.reverse_reverse]
  refine ⟨_, hsplit, ?_, ?_⟩
  · rw [rewound, List.getLast?_reverse]
    cases hrest : w.versions.reverse.dropWhile (· ≠ file) with
    | nil =>
        have hnone := List.dropWhile_eq_nil_iff.mp hrest file
          (List.mem_reverse.mpr (List.mem_of_getElem? hk))
        simp at hnone
    | cons last rest =>
        have hlast := List.head?_dropWhile_not (· ≠ file) w.versions.reverse
        rw [hrest] at hlast
        simpa using hlast
  · by_contra hlong
    rw [hsplit, List.getElem?_append_right (Nat.not_lt.mp hlong)] at hk
    have hmem := List.mem_reverse.mp (List.mem_of_getElem? hk)
    simpa using List.mem_takeWhile_imp hmem

theorem Sound.stops (h : w.Sound edit) {disk : Disk SettingsName SettingsFile} (hstops : w.disk.Stops disk) :
    (w.setDisk disk).Sound edit := by
  refine h.setDisk (fun file hfile => ?_) fun P hP => hP.stops hstops
  rw [Disk.Shows, hstops.entries]
  exact Disk.Stands.retains hfile hstops.retains

/-- A loss of power leaves a version no older than the last one reported. -/
theorem Sound.lostPower (h : w.Sound edit) {disk : Disk SettingsName SettingsFile}
    (hlost : w.disk.LosesPower disk) : (w.lostPower disk).Sound edit := by
  obtain ⟨file, hfile, k, hreported, hk⟩ := (h.kept.losesPower hlost).shows
  obtain ⟨rest, hversions, hlast, hlong⟩ := rewound_eq hk
  have hrewound : (w.lostPower disk).versions = w.rewound file := by
    rw [SettingsWorld.lostPower, hfile.content]
    rfl
  refine ⟨⟨file, hfile, hrewound ▸ hlast⟩, fun entries hmem => ?_, ?_⟩
  · obtain rfl : entries = disk.entries := by
      rw [Disk.directories, show (w.lostPower disk).disk.earlier = [] from hlost.earlier, List.mem_singleton] at hmem
      exact hmem
    refine hfile.mono fun file' hsame => ⟨(w.rewound file).length - 1, ?_, ?_⟩
    · show w.reported ≤ _
      omega
    · rw [hsame, hrewound, ← List.getLast?_eq_getElem?, hlast]
  · rw [hrewound]
    have hchain := h.chain
    rw [hversions] at hchain
    exact (List.isChain_append.mp hchain).1

end SettingsWorld

theorem sound_of_meets {program : SaveProgram}
    (hmeets : program.Meets (saveMonitor edit unmasked)
      (fun ended w => w.Sound edit ∧ (ended.1 = .ok (.ok true) → w.disk.earlier = [])) w) : w.Sound edit := by
  cases program with
  | done ended => exact hmeets.1
  | call op next => exact hmeets.1

/-- What holds of the gateway: a thread that saves holds the lock, alone, and its save meets the monitor. -/
structure SettingsServer.Kept (edit : SettingsEdit Config) (unmasked : Nat) (server : SettingsServer ι Config) :
    Prop where
  sound : server.world.Sound edit
  saves : ∀ c program, server.threads c = .saving program → server.locked = true ∧
    (∀ c' program', server.threads c' = .saving program' → c' = c) ∧
    program.Meets (saveMonitor edit unmasked)
      (fun ended w => w.Sound edit ∧ (ended.1 = .ok (.ok true) → w.disk.earlier = [])) server.world

theorem SettingsServer.Kept.restarted {world : SettingsWorld} (h : world.Sound edit) (config : Config)
    (token : String) :
    (SettingsServer.restarted world config token : SettingsServer ι Config).Kept edit unmasked where
  sound := h
  saves c program hat := by cases hat

variable [DecidableEq ι]

namespace SettingsServer

/-- A thread that saves after another moved did so before, or is the one that moved. -/
theorem saving_move {c c' : ι} {position : SaveAt} {program : SaveProgram}
    (hat : (server.move c position).threads c' = .saving program) :
    c' = c ∧ position = .saving program ∨ c' ≠ c ∧ server.threads c' = .saving program := by
  obtain rfl | hne := eq_or_ne c' c
  · rw [threads_move_self] at hat
    exact .inl ⟨rfl, hat⟩
  · rw [server.threads_move_of_ne hne] at hat
    exact .inr ⟨hne, hat⟩

/-- The one thread that saves takes a step of its save. -/
theorem Kept.saves_on (server : SettingsServer ι Config) {world : SettingsWorld} (c : ι) {program : SaveProgram}
    (hlocked : server.locked = true) (halone : ∀ c' program', server.threads c' = .saving program' → c' = c)
    (hmeets : program.Meets (saveMonitor edit unmasked)
      (fun ended w => w.Sound edit ∧ (ended.1 = .ok (.ok true) → w.disk.earlier = [])) world) :
    ({ server with world }.move c (.saving program)).Kept edit unmasked where
  sound := sound_of_meets hmeets
  saves c' program' hat := by
    have hsame (c' : ι) (program' : SaveProgram)
        (hat : ({ server with world }.move c (.saving program)).threads c' = .saving program') :
        c' = c ∧ program = program' := by
      obtain ⟨rfl, hprogram⟩ | ⟨hne, hother⟩ := saving_move hat
      · exact ⟨rfl, SaveAt.saving.inj hprogram⟩
      · exact absurd (halone c' program' hother) hne
    obtain ⟨rfl, rfl⟩ := hsame c' program' hat
    exact ⟨hlocked, fun c'' program'' hat'' => (hsame c'' program'' hat'').1, hmeets⟩

/-- A thread that does not save moves, or the one that saved has done so. -/
theorem Kept.rests (h : server.Kept edit unmasked) {world : SettingsWorld} (hsound : world.Sound edit) (c : ι)
    (position : SaveAt) (hposition : ∀ program, position ≠ .saving program) {locked : Bool}
    (hothers : ∀ c' program, c' ≠ c → server.threads c' = .saving program →
      locked = true ∧ world = server.world) :
    ({ server with world, locked }.move c position).Kept edit unmasked where
  sound := hsound
  saves c' program hat := by
    obtain ⟨-, hsaving⟩ | ⟨hne, hother⟩ := saving_move hat
    · exact absurd hsaving (hposition program)
    · obtain ⟨hlocked, rfl⟩ := hothers c' program hne hother
      obtain ⟨-, halone, hmeets⟩ := h.saves c' program hother
      refine ⟨hlocked, fun c'' program'' hat'' => ?_, hmeets⟩
      obtain ⟨-, hsaving⟩ | ⟨-, hother''⟩ := saving_move hat''
      · exact absurd hsaving (hposition program'')
      · exact halone c'' program'' hother''

end SettingsServer

open SettingsServer

/-- Every step keeps it: a save is made alone, and every other step leaves the file. -/
theorem SettingsStep.kept (hstep : SettingsStep edit unmasked path server event server')
    (h : server.Kept edit unmasked) : server'.Kept edit unmasked := by
  cases hstep with
  | post c form hat =>
      refine h.rests h.sound c (.waiting form) (fun _ hsaving => by cases hsaving) fun c' program _ hother => ?_
      exact ⟨(h.saves c' program hother).1, rfl⟩
  | @acquire c form hat hfree =>
      have hnone (c' : ι) (program : SaveProgram) : server.threads c' ≠ .saving program := by
        intro hother
        rw [(h.saves c' program hother).1] at hfree
        cases hfree
      exact Kept.saves_on { server with locked := true } c rfl
        (fun c' program hother => absurd hother (hnone c' program))
        (SaveHandler.saveSettings_spec h.sound path server.config server.token form)
  | @call c op next answer hat hanswer =>
      obtain ⟨hlocked, halone, hmeets⟩ := h.saves c _ hat
      exact Kept.saves_on server c hlocked halone (hmeets.2 answer hanswer)
  | @finish c reply hat =>
      obtain ⟨-, halone, hsound, hsynced⟩ := h.saves c _ hat
      refine h.rests (hsound.finished fun hreply => hsynced (by rw [hreply])) c .idle
        (fun _ hsaving => by cases hsaving) fun c' program hne hother => ?_
      exact absurd (halone c' program hother) hne
  | stop config token hstops => exact .restarted (h.sound.stops hstops) config token
  | losePower config token hlost => exact .restarted (h.sound.lostPower hlost) config token

theorem SettingsServer.kept (hrun : (savingSettings edit unmasked path).Run trace server) :
    server.Kept edit unmasked := by
  refine hrun.invariant (I := fun _ server => server.Kept edit unmasked) (fun server hinit => ?_)
    fun _ _ _ _ h hstep => SettingsStep.kept hstep h
  obtain ⟨disk, file, config, token, hfile, hsynced, rfl⟩ := hinit
  refine .restarted ⟨⟨file, hfile, rfl⟩, fun entries hmem => ?_, .singleton _⟩ config token
  rw [Disk.directories, hsynced, List.mem_singleton] at hmem
  rw [hmem]
  exact hfile.mono fun file' hsame => ⟨0, le_rfl, hsame ▸ rfl⟩

/-- **A save is made whole or not at all.** Whatever the threads save, whichever call fails and wherever the gateway
stops or power is lost: the configuration file holds a version that is there, each version is an edit of the one
before under its mode, made for a form that carried the token, one thread saves at a time; and a loss of power now
leaves one of these versions, whole, and none before the last that a save reported. -/
theorem saving_settings (hrun : (savingSettings edit unmasked path).Run trace server) :
    (∃ file, server.world.disk.content .target = some file ∧ server.world.versions.getLast? = some file) ∧
      server.world.versions.IsChain (SettingsFile.Edited edit) ∧
      (∀ c c' program program', server.threads c = .saving program → server.threads c' = .saving program' →
        c' = c) ∧
      ∀ disk, server.world.disk.LosesPower disk → ∃ file k, disk.content .target = some file ∧
        server.world.reported ≤ k ∧ server.world.versions[k]? = some file := by
  have hkept := SettingsServer.kept hrun
  refine ⟨?_, hkept.sound.chain, fun c c' program program' hat hat' => ?_, fun disk hlost => ?_⟩
  · obtain ⟨file, hfile, hlast⟩ := hkept.sound.shown
    exact ⟨file, hfile.content, hlast⟩
  · exact (hkept.saves c program hat).2.1 c' program' hat'
  · obtain ⟨file, hfile, k, hreported, hk⟩ := (hkept.sound.kept.losesPower hlost).shows
    exact ⟨file, k, hfile.content, hreported, hk⟩

/-- One file, on the disk. -/
def oneFile : Disk SettingsName SettingsFile where
  files _ := ⟨⟨[0], 0o600⟩, true⟩
  entries
    | .target => some 0
    | .tmp => none
  earlier := []
  next := 1

/-- A save that replaces the file, and reports it. -/
theorem saving_settings_once : ∃ (trace : List (Option SettingsReply)) (server : SettingsServer Unit Unit),
    (savingSettings (fun _ _ _ => .ok (some [1])) 0o755 "conf").Run trace server ∧
      trace.getLast? = some (some (.ok true)) ∧ server.world.reported = 1 ∧
      ∃ file, server.world.disk.content .target = some file ∧ server.world.versions.getLast? = some file := by
  have start : (savingSettings (fun _ _ _ => .ok (some [1])) 0o755 "conf").Run []
      (.restarted ⟨oneFile, [⟨[0], 0o600⟩], 0⟩ () "" : SettingsServer Unit Unit) :=
    .start ⟨oneFile, ⟨[0], 0o600⟩, (), "", ⟨0, rfl, Nat.zero_lt_one, rfl, rfl⟩, rfl, rfl⟩
  have posted := start.next (.post () [("csrf", "")] rfl)
  have acquired := posted.next (.acquire () rfl rfl)
  have read := acquired.next (.call () .readToString (.ok [0]) rfl rfl)
  have described := read.next (.call () .metadata (.ok 0o600) rfl rfl)
  have removed := described.next (.call () .removeTmp .notFound rfl trivial)
  have created := removed.next (.call () (.createNew _) (.ok 1) rfl ⟨rfl, rfl⟩)
  have owned := created.next (.call () (.fchown _) (.ok (), 0o600) rfl trivial)
  have permitted := owned.next (.call () (.setPermissions ..) (.ok ()) rfl trivial)
  have written := permitted.next (.call () (.writeAll ..) (.ok (), 1) rfl trivial)
  have synced := written.next (.call () (.syncAll _) (.ok ()) rfl trivial)
  have renamed := synced.next (.call () .rename (.ok ()) rfl trivial)
  have kept := renamed.next (.call () .syncDir (.ok ()) rfl trivial)
  have saved := kept.next (.finish () rfl)
  exact ⟨_, _, saved, rfl, rfl, (saving_settings saved).1⟩

end Runs

end Ratum
