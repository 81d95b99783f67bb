import BubbleOs.Construction.Process.Files
import BubbleOs.Proof.Fat.Path
import BubbleOs.Proof.Process.Machine

namespace BubbleOs

open Attempt Fat Fs SystemCall

namespace Fat.FATFileSystem

section Volume

/-- Handles stay live unless they name the removed entry. -/
structure HandlesKept (before after : Volume) (gone : Option Slot) : Prop where
  directories : ∀ dir : DirectoryEntry, LiveDirectory before (before.directoryCluster dir) →
    ¬ Names gone (before.directoryCluster dir) → LiveDirectory after (after.directoryCluster dir)
  files : ∀ location, (∃ entry, LiveEntry before (entry, location)) → (∀ slot, gone = some slot → slot.2 ≠ location) →
    ∃ entry, LiveEntry after (entry, location)

/-- Every entry but the removed one and every directory but the edited one keeps its clusters and its contents. -/
structure EntriesKept (before after : Volume) (dir : Option Nat) (gone : Option Slot) : Prop where
  files : ∀ slot, LiveEntry before slot → some slot ≠ gone → LiveEntry after slot ∧
    (slot.1.isRegularFile = true →
      after.entryClusters slot.1 = before.entryClusters slot.1 ∧ after.content slot.1 = before.content slot.1)
  directories : ∀ other clusters, LiveDirectory before other → ¬ Names gone other →
    FatBuffer.FileChain before.fat other clusters → LiveDirectory after other ∧
      (some other ≠ dir → FatBuffer.FileChain after.fat other clusters ∧
        after.dirSlots clusters = before.dirSlots clusters)

theorem HandlesKept.refl (fs : Volume) (gone : Option Slot) : HandlesKept fs fs gone :=
  ⟨fun _ live _ => live, fun _ live _ => live⟩

theorem EntriesKept.refl (fs : Volume) (dir : Option Nat) (gone : Option Slot) : EntriesKept fs fs dir gone :=
  ⟨fun _ live _ => ⟨live, fun _ => ⟨rfl, rfl⟩⟩, fun _ _ live _ chain => ⟨live, fun _ => ⟨chain, rfl⟩⟩⟩

variable {reserved : Nat → UInt32 → Prop} {before after : Volume} {dir : Nat} {old new : Option Slot}

section Well

variable (well : WellFormed reserved before) (live : LiveDirectory before dir)
  (edited : Edited before after dir old new)

include well live edited

/-- An edit keeps the handles of every entry that is not removed. -/
theorem Edited.handlesKept {gone : Option Slot}
    (covers : ∀ slot, old = some slot →
      gone = some slot ∨ (slot.1.isDirectory = false ∧ ∃ entry, new = some (entry, slot.2))) :
    HandlesKept before after gone := by
  obtain ⟨clusters, fresh, oldClusters, newClusters, chain, edit⟩ := edited
  constructor
  · intro handle handleLive kept
    rw [edit.frame.directoryCluster_eq]
    refine (edit.liveDirectory_iff well live chain _).mpr (.inl ⟨handleLive, ?_⟩)
    rintro ⟨slot, same, directory, names⟩
    rcases covers slot same with removed | ⟨file, _⟩
    · exact kept ⟨slot, removed, directory, names⟩
    · rw [file] at directory
      contradiction
  · rintro location ⟨entry, entryLive⟩ elsewhere
    by_cases same : some (entry, location) = old
    · rcases covers _ same.symm with removed | ⟨_, newEntry, added⟩
      · exact absurd rfl (elsewhere _ removed)
      · exact ⟨newEntry, (edit.liveEntry_iff well live chain _).mpr (.inr added.symm)⟩
    · exact ⟨entry, (edit.liveEntry_iff well live chain _).mpr (.inl ⟨entryLive, same⟩)⟩

/-- An edit keeps every entry but the old one. -/
theorem Edited.entriesKept : EntriesKept before after (some dir) old := by
  refine ⟨fun slot => edited.file_kept well live, ?_⟩
  obtain ⟨clusters, fresh, oldClusters, newClusters, chain, edit⟩ := edited
  intro other others otherLive kept otherChain
  refine ⟨(edit.liveDirectory_iff well live chain other).mpr (.inl ⟨otherLive, kept⟩), fun elsewhere => ?_⟩
  exact edit.directory_kept well live chain otherLive otherChain (fun same => elsewhere (by rw [same])) kept

/-- An edit without a new directory keeps the dot directories. -/
theorem Edited.dotsLead (dots : DotsLead before)
    (newDots : ∀ slot, new = some slot → slot.1.isDirectory = true → OwnDots after slot.1.getCluster dir) :
    DotsLead after := by
  obtain ⟨clusters, fresh, oldClusters, newClusters, chain, edit⟩ := edited
  exact edit.dotsLead well live chain dots newDots

end Well

/-- An edit of a directory keeps the volume well formed, the handles and every other entry. -/
structure PathEdit (reserved : Nat → UInt32 → Prop) (before after : Volume) (dir : Nat) (gone : Option Slot) :
    Prop where
  well : WellFormed reserved after
  dots : DotsLead after
  handles : HandlesKept before after gone
  entries : EntriesKept before after (some dir) gone

theorem Edited.pathEdit (well : WellFormed reserved before) (dots : DotsLead before) (live : LiveDirectory before dir)
    (edited : Edited before after dir old new)
    (newDots : ∀ slot, new = some slot → slot.1.isDirectory = true → OwnDots after slot.1.getCluster dir) :
    PathEdit reserved before after dir old :=
  ⟨edited.wellFormed well live, edited.dotsLead well live dots newDots,
    edited.handlesKept well live fun _ same => .inl same, edited.entriesKept well live⟩

section Directory

variable [Unicode] {fs : Volume} {parent : DirectoryEntry} (well : WellFormed reserved fs) (dots : DotsLead fs)
  (live : LiveDirectory fs (fs.directoryCluster parent))

include well dots live

/-- A created file is a live entry. -/
theorem createFile_pathEdit (name : List Char) :
    (∃ after, createFile parent name fs = (.missing, after) ∧
        PathEdit reserved fs after (fs.directoryCluster parent) none) ∨
      ∃ located after, createFile parent name fs = (.value located, after) ∧
        PathEdit reserved fs after (fs.directoryCluster parent) none ∧
        LiveEntry after (located.entry, located.location) := by
  rcases createFile_edited well live name with ⟨after, missing, edited⟩ | ⟨located, after, created, file, edited⟩
  · exact .inl ⟨after, missing, edited.pathEdit well dots live (by simp)⟩
  · refine .inr ⟨located, after, created, edited.pathEdit well dots live ?_, ?_⟩
    · intro slot same directory
      rw [Option.some.injEq] at same
      rw [← same, file] at directory
      contradiction
    · exact edited.liveEntry well live rfl

/-- A created directory is an edit of its parent. -/
theorem createDirectory_pathEdit (name : List Char) :
    ∃ outcome after, createDirectory parent name fs = (outcome, after) ∧ outcome ≠ .hang ∧
      PathEdit reserved fs after (fs.directoryCluster parent) none := by
  rcases createDirectory_edited well live name with
    ⟨after, missing, edited⟩ | ⟨slot, after, created, _, edited, inner⟩
  · exact ⟨_, after, missing, by simp, edited.pathEdit well dots live (by simp)⟩
  · refine ⟨_, after, created, by simp, edited.pathEdit well dots live ?_⟩
    intro other same _
    rw [Option.some.injEq] at same
    rw [← same]
    exact inner

/-- A removed entry is the one that is found by its name. -/
theorem removal_pathEdit {remove : DirectoryEntry → List Char → FsM SectorArray Unit} {name : List Char}
    {kind : LocatedDirectoryEntry → Prop}
    (edits : remove parent name fs = (.missing, fs) ∨
      ∃ located after, remove parent name fs = (.value (), after) ∧
        findEntryByName parent name fs = (.value located, fs) ∧ kind located ∧
        Edited fs after (fs.directoryCluster parent) (some (located.entry, located.location)) none) :
    remove parent name fs = (.missing, fs) ∨
      ∃ located after, remove parent name fs = (.value (), after) ∧
        findEntryByName parent name fs = (.value located, fs) ∧
        PathEdit reserved fs after (fs.directoryCluster parent) (some (located.entry, located.location)) := by
  rcases edits with missing | ⟨located, after, removed, found, _, edited⟩
  · exact .inl missing
  · exact .inr ⟨located, after, removed, found, edited.pathEdit well dots live (by simp)⟩

end Directory

variable {location : DirectoryEntryLocation}

/-- A step of one file keeps the volume well formed, the handles and everything else. -/
structure FileStep (reserved : Nat → UInt32 → Prop) (before after : Volume) (location : DirectoryEntryLocation) :
    Prop where
  well : WellFormed reserved after
  dots : DotsLead after
  handles : HandlesKept before after none
  others : OthersKept before after location
  size : after.clusterSize = before.clusterSize

theorem FileStep.refl (well : WellFormed reserved before) (dots : DotsLead before)
    (location : DirectoryEntryLocation) : FileStep reserved before before location :=
  ⟨well, dots, .refl _ _, .refl _ _, rfl⟩

theorem FileStep.trans {between : Volume} (first : FileStep reserved before between location)
    (second : FileStep reserved between after location) : FileStep reserved before after location := by
  have nothing (dir : Nat) : ¬ Names none dir := by
    rintro ⟨slot, same, _⟩
    contradiction
  refine ⟨second.well, second.dots, ⟨?_, ?_⟩, first.others.trans first.size second.others,
    second.size.trans first.size⟩
  · exact fun dir live _ => second.handles.directories dir (first.handles.directories dir live (nothing _)) (nothing _)
  · exact fun place live away => second.handles.files place (first.handles.files place live away) away

/-- An edit of the entry of one file is a step of that file. -/
theorem Edited.fileStep (well : WellFormed reserved before) (dots : DotsLead before) (live : LiveDirectory before dir)
    {entry newEntry : DirectoryEntry} (file : entry.isDirectory = false) (others : OthersKept before after location)
    (edited : Edited before after dir (some (entry, location)) (some (newEntry, location)))
    (newFile : newEntry.isDirectory = false) : FileStep reserved before after location := by
  refine ⟨edited.wellFormed well live, edited.dotsLead well live dots ?_, edited.handlesKept well live ?_, others, ?_⟩
  · intro slot same directory
    rw [Option.some.injEq] at same
    subst same
    rw [newFile] at directory
    contradiction
  · intro slot same
    rw [Option.some.injEq] at same
    subst same
    exact .inr ⟨file, newEntry, rfl⟩
  · obtain ⟨_, _, _, _, _, edit⟩ := edited
    exact edit.frame.clusterSize_eq

section File

variable {fs : Volume} {file : FATFile} (well : WellFormed reserved fs) (dots : DotsLead fs)
  (live : ∃ entry, LiveEntry fs (entry, file.location))

include well dots live

/-- A write through a current handle is a step of its file. -/
theorem write_fileStep (offset : Nat) (bytes : List UInt8) :
    FileStep reserved fs (file.write offset bytes fs).2 file.location := by
  obtain ⟨entry, entryLive⟩ := live
  rcases write_edited well entryLive offset bytes with
    ⟨missing, _⟩ | ⟨dir, after, returned, dirLive, isFile, others, edited, _⟩
  · rw [missing]
    exact .refl well dots _
  · rw [returned]
    exact edited.fileStep well dots dirLive isFile others isFile

/-- A truncation through a current handle is a step of its file. -/
theorem truncate_fileStep (size : Nat) : FileStep reserved fs (file.truncate size fs).2 file.location := by
  obtain ⟨entry, entryLive⟩ := live
  rcases truncate_edited well entryLive size with
    missing | ⟨dir, newEntry, after, returned, dirLive, isFile, newFile, others, edited, _⟩
  · rw [missing]
    exact .refl well dots _
  · rw [returned]
    exact edited.fileStep well dots dirLive isFile others newFile

omit dots in
/-- The size of a current handle is read without a change. -/
theorem size_current : (file.size fs).2 = fs := by
  obtain ⟨entry, dir, _, listed⟩ := live
  rw [FATFile.size, bind_value (orNone_value (readDirectoryEntry_live well listed))]
  rfl

omit dots in
/-- A read through a current handle changes nothing. -/
theorem read_current : (file.read fs).2 = fs := by
  obtain ⟨entry, entryLive⟩ := live
  by_cases archive : entry.attributes = 32
  · rw [read_content well entryLive archive]
  · obtain ⟨dir, _, listed⟩ := entryLive
    rw [FATFile.read, bind_value (readDirectoryEntry_live well listed), readFile, get_bind,
      if_pos (by simpa using archive)]
    rfl

end File

end Volume

end Fat.FATFileSystem

open FATFileSystem

abbrev FatKernel := Kernel SectorArray

/-- The marks of a process say which of its handles name a removed entry. -/
structure Marks where
  cwdRemoved : Bool
  stale : Nat → Bool

namespace Marks

def clean : Marks := ⟨false, fun _ => false⟩

/-- A removal marks the handles of the removed entry. -/
def remove (marks : Marks) (volume : Volume) (gone : Option Slot) (process : FatProcess) : Marks :=
  match gone with
  | none => marks
  | some slot =>
    { cwdRemoved := marks.cwdRemoved ||
        (slot.1.isDirectory && volume.directoryCluster process.currWorkingDir.entry == slot.1.getCluster)
      stale := fun fd => marks.stale fd ||
        match process.getFd fd with
        | some (.file openFile) => openFile.file.location == slot.2
        | _ => false }

/-- A descriptor that is opened again is current. -/
def reopen (marks : Marks) (fd : Nat) : Marks := { marks with stale := Function.update marks.stale fd false }

/-- A new working directory is current. -/
def enter (marks : Marks) : Marks := { marks with cwdRemoved := false }

end Marks

/-- The handles of a process that are not marked are live. -/
structure ProcessLive (volume : Volume) (process : FatProcess) (marks : Marks) : Prop where
  cwd : marks.cwdRemoved = false → process.currWorkingDir.Live volume
  files : ∀ fd openFile, process.getFd fd = some (.file openFile) → marks.stale fd = false →
    ∃ entry, LiveEntry volume (entry, openFile.file.location)

/-- A removal keeps the handles that it does not mark. -/
theorem ProcessLive.remove {before after : Volume} {process : FatProcess} {marks : Marks}
    (live : ProcessLive before process marks) {gone : Option Slot} (kept : HandlesKept before after gone) :
    ProcessLive after process (marks.remove before gone process) := by
  cases gone with
  | none =>
    refine ⟨fun current => kept.directories _ (live.cwd current) ?_, fun fd openFile opened current => ?_⟩
    · rintro ⟨slot, same, _⟩
      contradiction
    · exact kept.files _ (live.files fd openFile opened current) (by simp)
  | some slot =>
    constructor
    · intro current
      rw [Marks.remove, Bool.or_eq_false_iff] at current
      refine kept.directories _ (live.cwd current.1) ?_
      rintro ⟨inner, same, directory, names⟩
      rw [Option.some.injEq] at same
      subst same
      simp [directory, names] at current
    · intro fd openFile opened current
      rw [Marks.remove, Bool.or_eq_false_iff, opened] at current
      refine kept.files _ (live.files fd openFile opened current.1) ?_
      intro inner same
      rw [Option.some.injEq] at same
      subst same
      have different := current.2
      simp only [beq_eq_false_iff_ne, ne_eq] at different
      exact fun equal => different equal.symm

/-- The volume is well formed, and the unmarked handles of every process are live. -/
structure SoundSystem (reserved : Nat → UInt32 → Prop) (system : FatKernel) (marks : Nat → Marks) : Prop where
  well : WellFormed reserved system.volume
  dots : DotsLead system.volume
  processes : ∀ index process, system.processes[index]? = some process →
    ProcessLive system.volume process (marks index)

namespace Kernel

/-- A removal marks the handles of every process. -/
def removeMarks (system : FatKernel) (gone : Option Slot) (marks : Nat → Marks) (index : Nat) : Marks :=
  match system.processes[index]? with
  | some process => (marks index).remove system.volume gone process
  | none => marks index

@[simp] theorem removeMarks_none (system : FatKernel) (marks : Nat → Marks) :
    system.removeMarks none marks = marks := by
  funext index
  rw [removeMarks]
  split <;> rfl

end Kernel

namespace SoundSystem

variable {reserved : Nat → UInt32 → Prop} {system : FatKernel} {marks : Nat → Marks} {process : FatProcess}

variable (sound : SoundSystem reserved system marks)

include sound

/-- A change of the volume keeps the handles that it does not mark. -/
theorem changeVolume {after : Volume} (well : WellFormed reserved after)
    (dots : DotsLead after) {gone : Option Slot} (kept : HandlesKept system.volume after gone) :
    SoundSystem reserved { system with volume := after } (system.removeMarks gone marks) := by
  refine ⟨well, dots, fun index process found => ?_⟩
  rw [Kernel.removeMarks, show system.processes[index]? = some process from found]
  exact (sound.processes index process found).remove kept

/-- The running process may be replaced by one with live handles. -/
theorem putCurrent {mark : Marks} (live : ProcessLive system.volume process mark) :
    SoundSystem reserved { system with processes := system.processes.set system.currentIndex process }
      (Function.update marks system.currentIndex mark) := by
  refine ⟨sound.well, sound.dots, fun index other found => ?_⟩
  change (system.processes.set system.currentIndex process)[index]? = some other at found
  by_cases here : index = system.currentIndex
  · rw [here] at found ⊢
    rw [Function.update_self]
    rw [List.getElem?_set_self'] at found
    cases old : system.processes[system.currentIndex]? with
    | none =>
      rw [old] at found
      contradiction
    | some _ =>
      rw [old] at found
      obtain rfl : process = other := by simpa using found
      exact live
  · rw [List.getElem?_set_ne (fun same => here same.symm)] at found
    rw [Function.update_of_ne here]
    exact sound.processes index other found

/-- A replacement under the same marks keeps them. -/
theorem putCurrent_same (live : ProcessLive system.volume process (marks system.currentIndex)) :
    SoundSystem reserved { system with processes := system.processes.set system.currentIndex process } marks := by
  have result := sound.putCurrent live
  rw [Function.update_eq_self] at result
  exact result

end SoundSystem

namespace ProcessLive

variable {volume : Volume} {process : FatProcess} {marks : Marks}

variable (live : ProcessLive volume process marks)

include live

theorem moveOffset {fd : Nat} {openFile : OpenFile FATFile}
    (opened : process.getFd fd = some (.file openFile)) (offset : Nat) :
    ProcessLive volume (process.moveOffset fd openFile offset) marks := by
  refine ⟨live.cwd, fun other moved found current => ?_⟩
  rw [Process.getFd_moveOffset opened] at found
  by_cases here : other = fd
  · rw [if_pos here, Option.some.injEq, FileDescriptor.file.injEq] at found
    rw [← found]
    exact live.files fd openFile opened (here ▸ current)
  · rw [if_neg here] at found
    exact live.files other moved found current

theorem closeFd (fd : Nat) : ProcessLive volume (process.closeFd fd).2 marks := by
  constructor
  · rw [Process.currWorkingDir_closeFd]
    exact live.cwd
  · intro other openFile found current
    rw [Process.getFd_closeFd] at found
    by_cases closed : other = fd ∧ 3 ≤ fd
    · rw [if_pos closed] at found
      contradiction
    · rw [if_neg closed] at found
      exact live.files other openFile found current

/-- A live file is opened at a current descriptor. -/
theorem openFile {file : FATFile}
    (entry : ∃ entry, LiveEntry volume (entry, file.location)) (readable writable : Bool) :
    ProcessLive volume (process.openFile file readable writable).2
      (marks.reopen (process.openFile file readable writable).1) := by
  constructor
  · rw [Process.currWorkingDir_openFile]
    exact live.cwd
  · intro other opened found current
    rw [Process.getFd_openFile] at found
    by_cases here : other = (process.openFile file readable writable).1
    · rw [if_pos here, Option.some.injEq, FileDescriptor.file.injEq] at found
      rw [← found]
      exact entry
    · rw [if_neg here] at found
      change Function.update marks.stale _ false other = false at current
      rw [Function.update_of_ne here] at current
      exact live.files other opened found current

end ProcessLive

namespace Kernel

/-- This file stands behind a descriptor of the running process. -/
def openedFile {P : Type} (system : Kernel P) (fd : Nat) : Option FATFile :=
  match system.currentProcess.bind (·.getFd fd) with
  | some (.file openFile) => some openFile.file
  | _ => none

end Kernel

namespace SystemCall

open Kernel

variable [Unicode] {before after : FatKernel}

/-- A call that creates or removes an entry edits this directory. -/
def editedDirectory (call : SystemCall) (system : FatKernel) : Option Nat :=
  match call with
  | .create path | .mkdir path | .unlink path | .rmdir path =>
    match (resolveParentDirectoryAndName path system).1 with
    | .value resolved => some (system.volume.directoryCluster resolved.1.entry)
    | _ => none
  | _ => none

/-- A call that removes an entry removes the one that it finds by its name. -/
def removedSlot (call : SystemCall) (system : FatKernel) : Option Slot :=
  match call with
  | .unlink path | .rmdir path =>
    match (resolveParentDirectoryAndName path system).1 with
    | .value resolved =>
      match (findEntryByName resolved.1.entry resolved.2 system.volume).1 with
      | .value located => some (located.entry, located.location)
      | _ => none
    | _ => none
  | _ => none

/-- A successful removal marks handles, and a successful opening or entering clears a mark. -/
def nextMarks (call : SystemCall) (system : FatKernel) (outcome : Outcome (Option Nat)) (marks : Nat → Marks) :
    Nat → Marks :=
  match outcome with
  | .value fd =>
    match call with
    | .unlink _ | .rmdir _ => system.removeMarks (call.removedSlot system) marks
    | .openPath _ | .create _ =>
      match fd with
      | some fd => Function.update marks system.currentIndex ((marks system.currentIndex).reopen fd)
      | none => marks
    | .cd _ => Function.update marks system.currentIndex (marks system.currentIndex).enter
    | .execute => Function.update marks system.processes.length
        (if system.processes.length = 0 then .clean else marks system.currentIndex)
    | .exit => fun index =>
      if system.currentIndex < system.processes.length ∧ system.currentIndex ≤ index then marks (index + 1)
      else marks index
    | _ => marks
  | _ => marks

omit [Unicode] in
/-- The call uses no marked handle. -/
def Current (call : SystemCall) (marks : Marks) : Prop :=
  match call with
  | .read fd _ | .write fd _ | .truncate fd _ => marks.stale fd = false
  | .openPath path | .create path | .unlink path | .mkdir path | .rmdir path =>
    (splitBase path).1 = false → marks.cwdRemoved = false
  | .cd path => (splitBase path).1 = false → path ≠ ['~'] → marks.cwdRemoved = false
  | _ => True

/-- A descriptor call changes only its file, and any other call changes only the directory and the entry it names. -/
def Confined (call : SystemCall) (before after : FatKernel) : Prop :=
  match call with
  | .read fd _ | .write fd _ | .truncate fd _ =>
    match before.openedFile fd with
    | some file => OthersKept before.volume after.volume file.location
    | none => after.volume = before.volume
  | _ => EntriesKept before.volume after.volume (call.editedDirectory before) (call.removedSlot before)

/-- A call that keeps the volume is confined. -/
theorem confined_of_same (call : SystemCall) (same : after.volume = before.volume) : call.Confined before after := by
  unfold Confined
  split
  all_goals
    first
    | (rw [same]; exact .refl _ _ _)
    | (split
       · rw [same]
         exact .refl _ _
       · exact same)

/-- A write that changes the contents of another live file is not confined. -/
theorem not_confined_of_content {fd : Nat} {bytes : List UInt8} {place : DirectoryEntryLocation} {slot : Slot}
    (opened : (before.openedFile fd).map FATFile.location = some place) (live : LiveEntry before.volume slot)
    (elsewhere : slot.2 ≠ place) (regular : slot.1.isRegularFile = true)
    (changed : after.volume.content slot.1 ≠ before.volume.content slot.1) :
    ¬ (write fd bytes).Confined before after := by
  intro confined
  obtain ⟨file, found, here⟩ := Option.map_eq_some_iff.mp opened
  unfold Confined at confined
  simp only [found] at confined
  exact changed ((confined.files slot live (here ▸ elsewhere)).2 regular).2

end SystemCall

section Resolve

open Kernel

variable [Unicode] {reserved : Nat → UInt32 → Prop} {system : FatKernel} {marks : Nat → Marks}

omit [Unicode] in
theorem onVolume_reads {A : Type} {call : FsM SectorArray A} {good : A → Prop}
    (reads : Reads call system.volume good) : Reads (onVolume call) system good := by
  refine ⟨?_, reads.2⟩
  change { system with volume := (call system.volume).2 } = system
  rw [reads.1]

variable (sound : SoundSystem reserved system marks)

include sound

variable {path : List Char}

omit [Unicode] in
/-- A path starts in a live directory. -/
theorem baseDirectory_reads (absolute : Bool)
    (current : absolute = false → (marks system.currentIndex).cwdRemoved = false) :
    Reads (baseDirectory absolute) system (·.Live system.volume) := by
  cases absolute with
  | true => exact .of_value rfl (rootDir_live _)
  | false =>
    change Reads getCurrentCwd system _
    by_cases empty : system.processes.length = 0
    · refine .of_value ?_ (rootDir_live _)
      rw [getCurrentCwd, get_bind, if_pos empty]
      rfl
    · cases running : system.currentProcess with
      | none =>
        refine .of_hang ?_
        rw [getCurrentCwd, get_bind, if_neg empty, running]
        rfl
      | some process =>
        refine .of_value ?_ ((sound.processes _ process running).cwd (current rfl))
        rw [getCurrentCwd, get_bind, if_neg empty, running]
        rfl

theorem findDirectoryComponents_reads {dir : FATDirectory} (live : dir.Live system.volume)
    (components : List Component) :
    Reads (onVolume (dir.findDirectoryComponents components)) system (·.Live system.volume) := by
  rcases FATDirectory.findDirectoryComponents_live sound.well sound.dots components live with
    missing | ⟨child, found, childLive⟩
  · exact onVolume_reads (.of_missing missing)
  · exact onVolume_reads (.of_value found childLive)

theorem findFileFromPath_reads (current : (splitBase path).1 = false → (marks system.currentIndex).cwdRemoved = false) :
    Reads (findFileFromPath path) system fun file => LiveEntry system.volume (file.entry, file.location) := by
  refine (baseDirectory_reads sound _ current).bind fun base live => ?_
  rcases FATDirectory.findFileComponents_live sound.well sound.dots (normalizePathComponents (splitBase path).2) live with
    missing | ⟨file, found, fileLive⟩
  · exact onVolume_reads (.of_missing missing)
  · exact onVolume_reads (.of_value found fileLive)

theorem findDirectoryFromPath_reads
    (current : (splitBase path).1 = false → path ≠ ['~'] → (marks system.currentIndex).cwdRemoved = false) :
    Reads (findDirectoryFromPath path) system (·.Live system.volume) := by
  rw [findDirectoryFromPath]
  by_cases home : path = ['/'] ∨ path = ['~']
  · rw [if_pos home]
    exact baseDirectory_reads sound true (by simp)
  · rw [if_neg home]
    have relative := fun isRelative => current isRelative fun tilde => home (.inr tilde)
    refine (baseDirectory_reads sound _ relative).bind fun base live => ?_
    by_cases empty : (normalizePathComponents (splitBase path).2).isEmpty = true
    · rw [if_pos empty]
      exact .of_value rfl live
    · rw [if_neg empty]
      exact findDirectoryComponents_reads sound live _

/-- The parent of a path is live. -/
theorem resolve_reads (current : (splitBase path).1 = false → (marks system.currentIndex).cwdRemoved = false) :
    Reads (resolveParentDirectoryAndName path) system fun resolved => resolved.1.Live system.volume := by
  rw [resolveParentDirectoryAndName]
  by_cases refused : path.isEmpty = true ∨ path.getLast? = some '/'
  · rw [if_pos refused]
    exact .of_missing rfl
  · rw [if_neg refused]
    refine (baseDirectory_reads sound _ current).bind fun base live => ?_
    refine (Reads.ofOption (normalizePathComponents (splitBase path).2).getLast? system).bind fun filename _ => ?_
    by_cases parent : filename = parentComponent
    · rw [if_pos parent]
      exact .of_missing rfl
    · rw [if_neg parent]
      by_cases direct : (normalizePathComponents (splitBase path).2).dropLast.isEmpty = true
      · rw [if_pos direct]
        exact .of_value rfl live
      · rw [if_neg direct]
        refine (findDirectoryComponents_reads sound live _).bind fun parentDir parentLive => ?_
        exact .of_value rfl parentLive

end Resolve

section Handled

open Kernel

variable [Unicode] {reserved : Nat → UInt32 → Prop} {system : FatKernel} {marks : Nat → Marks} {call : SystemCall}

/-- This result of the call keeps the system sound and stays confined. -/
structure Handled (reserved : Nat → UInt32 → Prop) (system : FatKernel) (marks : Nat → Marks) (call : SystemCall)
    (result : Outcome (Option Nat) × FatKernel) : Prop where
  sound : SoundSystem reserved result.2 (call.nextMarks system result.1 marks)
  confined : call.Confined system result.2

/-- A call that keeps the volume is handled as far as the processes are sound. -/
theorem Handled.of_same {outcome : Outcome (Option Nat)} {after : FatKernel} (same : after.volume = system.volume)
    (sound : SoundSystem reserved after (call.nextMarks system outcome marks)) :
    Handled reserved system marks call (outcome, after) :=
  ⟨sound, call.confined_of_same same⟩

variable (sound : SoundSystem reserved system marks)

include sound

variable {after : Volume}

theorem Handled.missing : Handled reserved system marks call (.missing, system) := .of_same rfl sound

theorem Handled.hang : Handled reserved system marks call (.hang, system) := .of_same rfl sound

/-- A call that first reads the system is handled when what follows is. -/
theorem Handled.read {A : Type} {first : SysM SectorArray A} {good : A → Prop}
    {next : A → SysM SectorArray (Option Nat)} (reads : Reads first system good)
    (later : ∀ result, first system = (.value result, system) → good result →
      Handled reserved system marks call (next result system)) :
    Handled reserved system marks call ((first >>= next) system) :=
  reads.after (.missing sound) (.hang sound) later

omit [Unicode] in
/-- The running process opens a live file at a current descriptor. -/
theorem openForCurrent_sound {file : FATFile} (entry : ∃ entry, LiveEntry system.volume (entry, file.location)) :
    openForCurrent file true true system = (.missing, system) ∨
      ∃ fd after, openForCurrent file true true system = (.value fd, after) ∧ after.volume = system.volume ∧
        SoundSystem reserved after (Function.update marks system.currentIndex
          ((marks system.currentIndex).reopen fd)) := by
  rw [openForCurrent, get_bind]
  cases running : system.currentProcess with
  | none => exact .inl rfl
  | some process =>
    exact .inr ⟨_, _, rfl, rfl, sound.putCurrent ((sound.processes _ process running).openFile entry true true)⟩

theorem openPath_handled (path : List Char)
    (current : (openPath path).Current (marks system.currentIndex)) :
    Handled reserved system marks (.openPath path) ((openPath path).run system) := by
  rw [run, currProcessOpenFile, bind_group]
  refine .read sound (findFileFromPath_reads sound current) fun file _ live => ?_
  rcases openForCurrent_sound sound ⟨_, live⟩ with missing | ⟨fd, after, opened, same, afterSound⟩
  · rw [bind_missing missing]
    exact .missing sound
  · rw [bind_value opened]
    exact .of_same same afterSound

omit [Unicode] in
/-- An edit of the resolved parent keeps the system sound. -/
theorem SoundSystem.pathEdit {dir : Nat} {gone : Option Slot} (edit : PathEdit reserved system.volume after dir gone) :
    SoundSystem reserved { system with volume := after } (system.removeMarks gone marks) :=
  sound.changeVolume edit.well edit.dots edit.handles

omit [Unicode] in
/-- An edit without a removal marks nothing. -/
theorem SoundSystem.pathEdit_none {dir : Nat} (edit : PathEdit reserved system.volume after dir none) :
    SoundSystem reserved { system with volume := after } marks := by
  have edited := sound.pathEdit edit
  rw [removeMarks_none] at edited
  exact edited

omit [Unicode] sound in
theorem onVolume_apply {A : Type} {edit : FsM SectorArray A} {outcome : Outcome A}
    (returned : edit system.volume = (outcome, after)) :
    onVolume edit system = (outcome, { system with volume := after }) := by
  rw [onVolume, returned]

/-- A created file is opened for the running process. -/
theorem create_handled (path : List Char)
    (current : (create path).Current (marks system.currentIndex)) :
    Handled reserved system marks (.create path) ((create path).run system) := by
  rw [run, currProcessCreateFile, createFileFromPath, bind_group, bind_group]
  refine .read sound (resolve_reads sound current) ?_
  rintro ⟨parent, name⟩ resolved live
  have confined {after : FatKernel} (edit : PathEdit reserved system.volume after.volume
      (system.volume.directoryCluster parent.entry) none) : (create path).Confined system after := by
    change EntriesKept _ _ ((create path).editedDirectory system) none
    rw [editedDirectory, resolved]
    exact edit.entries
  rcases createFile_pathEdit sound.well sound.dots live name with
    ⟨after, missing, edit⟩ | ⟨located, after, created, edit, entry⟩
  · have refused : parent.createFile name system.volume = (.missing, after) := bind_missing missing _
    rw [bind_missing (onVolume_apply refused)]
    exact ⟨sound.pathEdit_none edit, confined edit⟩
  · have made : parent.createFile name system.volume =
        (.value ⟨located.entry, located.name, located.location⟩, after) := bind_value created _
    rw [bind_value (onVolume_apply made)]
    have between := sound.pathEdit_none edit
    have opens := @openForCurrent_sound _ _ _ between ⟨located.entry, located.name, located.location⟩ ⟨_, entry⟩
    rcases opens with missing | ⟨fd, last, opened, same, lastSound⟩
    · rw [bind_missing missing]
      exact ⟨between, confined edit⟩
    · rw [bind_value opened]
      refine ⟨lastSound, confined ?_⟩
      change PathEdit reserved system.volume last.volume _ none
      rw [same]
      exact edit

theorem mkdir_handled (path : List Char)
    (current : (mkdir path).Current (marks system.currentIndex)) :
    Handled reserved system marks (.mkdir path) ((mkdir path).run system) := by
  rw [run, currProcessCreateDirectory, bind_group]
  refine .read sound (resolve_reads sound current) ?_
  rintro ⟨parent, name⟩ resolved live
  obtain ⟨outcome, after, returned, returns, edit⟩ := createDirectory_pathEdit sound.well sound.dots live name
  have made : parent.createDirectory name system.volume = (outcome, after) := returned
  have confined : EntriesKept system.volume after ((mkdir path).editedDirectory system) none := by
    rw [editedDirectory, resolved]
    exact edit.entries
  cases outcome with
  | value =>
    rw [bind_value (onVolume_apply made)]
    exact ⟨sound.pathEdit_none edit, confined⟩
  | missing =>
    rw [bind_missing (onVolume_apply made)]
    exact ⟨sound.pathEdit_none edit, confined⟩
  | hang => exact absurd rfl returns

/-- A removal marks the handles of the entry that it removes. -/
theorem removal_handled {path : List Char} (kind : call = .unlink path ∨ call = .rmdir path)
    (current : call.Current (marks system.currentIndex)) {remove : FATDirectory → Component → FsM SectorArray Unit}
    (edits : ∀ parent name, parent.Live system.volume → remove parent name system.volume = (.missing, system.volume) ∨
      ∃ located after, remove parent name system.volume = (.value (), after) ∧
        findEntryByName parent.entry name system.volume = (.value located, system.volume) ∧
        PathEdit reserved system.volume after (system.volume.directoryCluster parent.entry)
          (some (located.entry, located.location))) :
    Handled reserved system marks call ((do
      (do let found ← resolveParentDirectoryAndName path; onVolume (remove found.1 found.2))
      pure none : SysM SectorArray (Option Nat)) system) := by
  have relative : (splitBase path).1 = false → (marks system.currentIndex).cwdRemoved = false := by
    rcases kind with rfl | rfl <;> exact current
  rw [bind_group]
  refine .read sound (resolve_reads sound relative) ?_
  rintro ⟨parent, name⟩ resolved live
  rcases edits parent name live with missing | ⟨located, after, removed, found, edit⟩
  · rw [bind_missing (onVolume_apply missing)]
    exact .missing sound
  · rw [bind_value (onVolume_apply removed)]
    have kept := sound.pathEdit edit
    rcases kind with rfl | rfl
    all_goals
      constructor
      · simp only [nextMarks, removedSlot, resolved, found]
        exact kept
      · simp only [SystemCall.Confined, editedDirectory, removedSlot, resolved, found]
        exact edit.entries

/-- A process enters a live directory. -/
theorem cd_handled (path : List Char) (current : (SystemCall.cd path).Current (marks system.currentIndex)) :
    Handled reserved system marks (.cd path) ((SystemCall.cd path).run system) := by
  rw [run]
  by_cases empty : path.isEmpty = true
  · rw [if_pos empty]
    exact .missing sound
  rw [if_neg empty]
  refine .read sound (findDirectoryFromPath_reads sound current) fun dir _ live => ?_
  rw [changeCwd, bind_group, get_bind]
  by_cases idle : system.processes.length = 0
  · rw [if_pos idle]
    refine .of_same rfl ⟨sound.well, sound.dots, fun index process member => ?_⟩
    rw [List.length_eq_zero_iff.mp idle] at member
    contradiction
  · rw [if_neg idle]
    cases running : system.currentProcess with
    | none => exact .hang sound
    | some process =>
      exact .of_same rfl (sound.putCurrent ⟨fun _ => live, (sound.processes _ process running).files⟩)

end Handled

section Descriptor

open Kernel

variable {reserved : Nat → UInt32 → Prop} {system : FatKernel} {marks : Nat → Marks}

/-- The body of a descriptor call is a step of its file and moves its offset. -/
structure DescriptorBody (reserved : Nat → UInt32 → Prop) (volume : Volume) (process : FatProcess) (fd : Nat)
    (openFile : OpenFile FATFile) {A : Type} (result : Outcome (A × FatProcess) × Volume) : Prop where
  step : FileStep reserved volume result.2 openFile.file.location
  moves : ∀ value, result.1 = .value value → ∃ offset, value.2 = process.moveOffset fd openFile offset

namespace DescriptorBody

variable {volume : Volume} {process : FatProcess} {fd : Nat} {openFile : OpenFile FATFile} {A B : Type}
  {after : Volume}

theorem refused (step : FileStep reserved volume after openFile.file.location) :
    @DescriptorBody reserved volume process fd openFile A (.missing, after) :=
  ⟨step, fun _ absent => by cases absent⟩

theorem moved (step : FileStep reserved volume after openFile.file.location) (value : A) (offset : Nat) :
    DescriptorBody reserved volume process fd openFile
      (.value (value, process.moveOffset fd openFile offset), after) :=
  ⟨step, fun _ same => ⟨offset, by cases same; rfl⟩⟩

/-- A step of the file leads to the rest of the body. -/
theorem bind {first : FsM SectorArray B} {next : B → FsM SectorArray (A × FatProcess)} {before : Volume}
    (step : FileStep reserved volume (first before).2 openFile.file.location)
    (later : ∀ value after, first before = (.value value, after) →
      FileStep reserved volume after openFile.file.location →
      DescriptorBody reserved volume process fd openFile (next value after)) :
    DescriptorBody reserved volume process fd openFile ((first >>= next) before) := by
  cases returned : first before with
  | mk outcome after =>
    rw [returned] at step
    cases outcome with
    | value value =>
      rw [bind_value returned]
      exact later value after returned step
    | missing =>
      rw [bind_missing returned]
      exact .refused step
    | hang =>
      rw [bind_hang returned]
      exact ⟨step, fun _ absent => by cases absent⟩

end DescriptorBody

/-- The opened file stands behind an open descriptor of the running process. -/
theorem openedFile_of_file {process : FatProcess} (running : system.currentProcess = some process) {fd : Nat}
    {openFile : OpenFile FATFile} (opened : process.getFd fd = some (.file openFile)) :
    system.openedFile fd = some openFile.file := by
  rw [openedFile, running]
  simp only [Option.bind_some, opened]

theorem openedFile_of_other {process : FatProcess} (running : system.currentProcess = some process) {fd : Nat}
    (other : ∀ openFile, process.getFd fd ≠ some (.file openFile)) : system.openedFile fd = none := by
  rw [openedFile, running, Option.bind_some]
  cases found : process.getFd fd with
  | none => rfl
  | some descriptor =>
    cases descriptor with
    | file openFile => exact absurd found (other openFile)
    | stdin | stdout | stderr => rfl

/-- A descriptor call keeps the system sound and changes only its file. -/
theorem onDescriptor_sound (sound : SoundSystem reserved system marks) {fd : Nat} {A : Type}
    {body : FatProcess → FsM SectorArray (A × FatProcess)}
    (refused : ∀ process, (∀ openFile, process.getFd fd ≠ some (.file openFile)) →
      body process system.volume = (.missing, system.volume))
    (bodies : ∀ process openFile, system.currentProcess = some process → process.getFd fd = some (.file openFile) →
      DescriptorBody reserved system.volume process fd openFile (body process system.volume)) :
    SoundSystem reserved (onDescriptor body system).2 marks ∧
      match system.openedFile fd with
      | some file => OthersKept system.volume (onDescriptor body system).2.volume file.location
      | none => (onDescriptor body system).2.volume = system.volume := by
  rw [onDescriptor, get_bind]
  cases running : system.currentProcess with
  | none =>
    rw [openedFile, running]
    exact ⟨sound, rfl⟩
  | some process =>
    rw [ofOption_some, pure_bind_apply]
    rcases process.isFile_or fd with ⟨openFile, opened⟩ | other
    · rw [openedFile_of_file running opened]
      obtain ⟨step, moves⟩ := bodies process openFile running opened
      have between := sound.changeVolume step.well step.dots step.handles
      rw [removeMarks_none] at between
      cases returned : body process system.volume with
      | mk outcome after =>
        rw [returned] at step moves between
        have through := onVolume_apply returned
        cases outcome with
        | missing =>
          rw [bind_missing through]
          exact ⟨between, step.others⟩
        | hang =>
          rw [bind_hang through]
          exact ⟨between, step.others⟩
        | value result =>
          obtain ⟨offset, same⟩ := moves result rfl
          rw [bind_value through]
          refine ⟨between.putCurrent_same ?_, step.others⟩
          rw [same]
          exact (between.processes _ process running).moveOffset opened offset
    · rw [openedFile_of_other running other, bind_missing (onVolume_apply (refused process other))]
      exact ⟨sound, rfl⟩

section Bodies

variable (sound : SoundSystem reserved system marks) {process : FatProcess}
  (running : system.currentProcess = some process) {fd : Nat}
  (current : (marks system.currentIndex).stale fd = false) {openFile : OpenFile FATFile}
  (opened : process.getFd fd = some (.file openFile))

include sound running current opened

/-- The file of a current descriptor is live. -/
theorem current_live : ∃ entry, LiveEntry system.volume (entry, openFile.file.location) :=
  (sound.processes _ process running).files fd openFile opened current

theorem readFd_body (size : Nat) :
    DescriptorBody reserved system.volume process fd openFile (process.readFd fd size system.volume) := by
  have start := FileStep.refl sound.well sound.dots openFile.file.location
  have kept : (Fs.File.read openFile.file system.volume).2 = system.volume :=
    read_current sound.well (current_live sound running current opened)
  rw [Process.readFd, Process.withFile_found opened]
  split
  · exact .refused start
  · refine .bind (by rw [kept]; exact start) fun bytes after _ step => ?_
    split
    · exact ⟨step, fun _ same => ⟨openFile.offset, by cases same; exact (Process.moveOffset_self opened).symm⟩⟩
    · exact .moved step _ _

omit sound running current opened in
/-- A write after earlier steps of a file moves its descriptor. -/
theorem write_body {between : Volume} (earlier : FileStep reserved system.volume between openFile.file.location)
    (live : ∃ entry, LiveEntry system.volume (entry, openFile.file.location)) (bytes : List UInt8) :
    DescriptorBody reserved system.volume process fd openFile ((do
      let count ← Fs.File.write openFile.file openFile.offset bytes
      pure (count, process.moveOffset fd openFile (openFile.offset + count)) : FsM SectorArray (Nat × FatProcess))
        between) := by
  have still := earlier.handles.files _ live (by simp)
  refine .bind (earlier.trans (write_fileStep earlier.well earlier.dots still _ bytes)) fun count after _ step => ?_
  exact .moved step _ _

theorem writeFd_body (bytes : List UInt8) :
    DescriptorBody reserved system.volume process fd openFile (process.writeFd fd bytes system.volume) := by
  have live := current_live sound running current opened
  have start := FileStep.refl sound.well sound.dots openFile.file.location
  have kept : (Fs.File.size openFile.file system.volume).2 = system.volume := size_current sound.well live
  rw [Process.writeFd, Process.withFile_found opened]
  split
  · exact .refused start
  · split
    · exact ⟨start, fun _ absent => by cases absent⟩
    · refine .bind (by rw [kept]; exact start) fun size sized returned step => ?_
      rw [returned] at kept
      obtain rfl : sized = system.volume := kept
      split
      · have grown := truncate_fileStep sound.well sound.dots live (openFile.offset + bytes.length)
        exact .bind grown fun _ _ _ step => write_body step live bytes
      · exact write_body start live bytes

theorem truncateFd_body (size : Nat) :
    DescriptorBody reserved system.volume process fd openFile ((do
      let changed ← process.truncateFd fd size
      pure ((), changed) : FsM SectorArray (Unit × FatProcess)) system.volume) := by
  have live := current_live sound running current opened
  rw [Process.truncateFd, Process.withFile_found opened]
  split
  · exact .refused (.refl sound.well sound.dots _)
  · rw [bind_group]
    exact .bind (truncate_fileStep sound.well sound.dots live size) fun _ _ _ step => .moved step _ _

end Bodies

end Descriptor

section Calls

open Kernel

variable [Unicode] {reserved : Nat → UInt32 → Prop} {system : FatKernel} {marks : Nat → Marks}
  (sound : SoundSystem reserved system marks)

include sound

/-- A call of the descriptor layer is handled when its body is. -/
theorem descriptor_handled {call : SystemCall} {fd : Nat} {A : Type} {body : FatProcess → FsM SectorArray (A × FatProcess)}
    (marked : ∀ outcome, call.nextMarks system outcome marks = marks)
    (confined : ∀ after : FatKernel, (match system.openedFile fd with
      | some file => OthersKept system.volume after.volume file.location
      | none => after.volume = system.volume) → call.Confined system after)
    (state : (call.run system).2 = (onDescriptor body system).2)
    (refused : ∀ process : FatProcess, (∀ openFile, process.getFd fd ≠ some (.file openFile)) →
      body process system.volume = (.missing, system.volume))
    (bodies : ∀ process openFile, system.currentProcess = some process → process.getFd fd = some (.file openFile) →
      DescriptorBody reserved system.volume process fd openFile (body process system.volume)) :
    Handled reserved system marks call (call.run system) := by
  obtain ⟨after, kept⟩ := onDescriptor_sound sound refused bodies
  rw [← state] at after kept
  exact ⟨by rw [marked]; exact after, confined _ kept⟩

theorem read_handled (fd size : Nat) (current : (read fd size).Current (marks system.currentIndex)) :
    Handled reserved system marks (.read fd size) ((read fd size).run system) := by
  by_cases file : fd ≥ 3
  · refine descriptor_handled sound (fun outcome => by cases outcome <;> rfl) (fun _ kept => kept) ?_
      (fun process other => congrFun (Process.withFile_other other _) _)
      fun process openFile running opened => readFd_body sound running current opened size
    rw [run, if_pos file]
    exact state_bind_pure _ _ system
  · rw [run, if_neg file]
    exact .of_same rfl sound

theorem write_handled (fd : Nat) (bytes : List UInt8)
    (current : (write fd bytes).Current (marks system.currentIndex)) :
    Handled reserved system marks (.write fd bytes) ((write fd bytes).run system) := by
  have file : ((write fd bytes).run system).2 = (writeCurrentFileDescriptor fd bytes system).2 →
      Handled reserved system marks (.write fd bytes) ((write fd bytes).run system) := fun state =>
    descriptor_handled sound (fun outcome => by cases outcome <;> rfl) (fun _ kept => kept) state
      (fun process other => congrFun (Process.withFile_other other _) _)
      fun process openFile running opened => writeFd_body sound running current opened bytes
  rw [run, get_bind] at file ⊢
  cases found : system.currentProcess.bind (·.getFd fd) with
  | none => exact .of_same rfl sound
  | some descriptor =>
    rw [found] at file
    cases descriptor with
    | file openFile => exact file (state_bind_pure _ _ system)
    | stdin | stdout | stderr => exact .of_same rfl sound

theorem truncate_handled (fd size : Nat)
    (current : (truncate fd size).Current (marks system.currentIndex)) :
    Handled reserved system marks (.truncate fd size) ((truncate fd size).run system) :=
  descriptor_handled sound (fun outcome => by cases outcome <;> rfl) (fun _ kept => kept)
    (state_bind_pure _ _ system) (fun process other => bind_missing (congrFun (Process.withFile_other other _) _) _)
    fun process openFile running opened => truncateFd_body sound running current opened size

theorem close_handled (fd : Nat) :
    Handled reserved system marks (.close fd) ((close fd).run system) := by
  rw [run, closeCurrentFileDescriptor, onDescriptor, bind_group, get_bind]
  cases running : system.currentProcess with
  | none => exact .missing sound
  | some process => exact .of_same rfl (sound.putCurrent_same ((sound.processes _ process running).closeFd fd))

omit [Unicode] in
/-- A new process at the end of the list has live handles. -/
theorem SoundSystem.push {process : FatProcess} {mark : Marks} (live : ProcessLive system.volume process mark) :
    SoundSystem reserved { system with processes := system.processes ++ [process] }
      (Function.update marks system.processes.length mark) := by
  refine ⟨sound.well, sound.dots, fun index other found => ?_⟩
  change (system.processes ++ [process])[index]? = some other at found
  by_cases last : index = system.processes.length
  · rw [last, List.getElem?_append_right (Nat.le_refl _), Nat.sub_self] at found
    obtain rfl : process = other := by simpa using found
    rw [last, Function.update_self]
    exact live
  · rw [Function.update_of_ne last]
    by_cases inside : index < system.processes.length
    · rw [List.getElem?_append_left inside] at found
      exact sound.processes index other found
    · rw [List.getElem?_eq_none (by rw [List.length_append, List.length_singleton]; omega)] at found
      contradiction

/-- A new process starts at the root or with the handles of its parent. -/
theorem execute_handled : Handled reserved system marks .execute (execute.run system) := by
  have marked : execute.nextMarks system (.value none) marks = Function.update marks system.processes.length
      (if system.processes.length = 0 then .clean else marks system.currentIndex) := rfl
  rw [run, deploy, bind_group, get_bind]
  by_cases forks : system.processes.length ≠ 0
  · rw [if_pos ⟨rfl, forks⟩]
    cases running : system.currentProcess with
    | none => exact .missing sound
    | some process =>
      refine .of_same rfl ?_
      rw [marked, if_neg forks]
      exact sound.push (sound.processes _ process running)
  · rw [if_neg fun both => forks both.2]
    refine .of_same rfl ?_
    rw [marked, if_pos (not_not.mp forks)]
    refine sound.push ⟨fun _ => (rootDir_live _), fun fd openFile opened => ?_⟩
    match fd with
    | 0 => cases opened
    | 1 => cases opened
    | 2 => cases opened
    | fd + 3 => cases opened

/-- An exit moves the later processes and their marks. -/
theorem exit_handled : Handled reserved system marks .exit (exit.run system) := by
  rw [run, exitCurrent, bind_group, get_bind]
  by_cases outside : system.currentIndex ≥ system.processes.length
  · rw [if_pos outside]
    refine .of_same rfl ⟨sound.well, sound.dots, fun index process found => ?_⟩
    change ProcessLive _ _ (if _ then _ else _)
    rw [if_neg (by omega)]
    exact sound.processes index process found
  · rw [if_neg outside]
    refine .of_same rfl ⟨sound.well, sound.dots, fun index process found => ?_⟩
    change (system.processes.eraseIdx system.currentIndex)[index]? = some process at found
    change ProcessLive _ _ (if _ then _ else _)
    rw [List.getElem?_eraseIdx] at found
    by_cases later : system.currentIndex ≤ index
    · rw [if_neg (by omega)] at found
      rw [if_pos ⟨by omega, later⟩]
      exact sound.processes (index + 1) process found
    · rw [if_pos (by omega)] at found
      rw [if_neg (by omega)]
      exact sound.processes index process found

/-- Every call with current handles is handled. -/
theorem SystemCall.handled (call : SystemCall) (current : call.Current (marks system.currentIndex)) :
    Handled reserved system marks call (call.run system) := by
  cases call with
  | openPath path => exact openPath_handled sound path current
  | create path => exact create_handled sound path current
  | read fd size => exact read_handled sound fd size current
  | write fd bytes => exact write_handled sound fd bytes current
  | truncate fd size => exact truncate_handled sound fd size current
  | close fd => exact close_handled sound fd
  | unlink path =>
    exact removal_handled sound (.inl rfl) current fun parent name live =>
      removal_pathEdit sound.well sound.dots live (unlinkFile_edited sound.well live name)
  | mkdir path => exact mkdir_handled sound path current
  | rmdir path =>
    exact removal_handled sound (.inr rfl) current fun parent name live =>
      removal_pathEdit sound.well sound.dots live (removeDirectory_edited sound.well live name)
  | cd path => exact cd_handled sound path current
  | execute => exact execute_handled sound
  | exit => exact exit_handled sound

end Calls

section Run

variable [Unicode] {reserved : Nat → UInt32 → Prop}

/-- A run records which handles name a removed entry. -/
structure Tracked where
  system : FatKernel
  marks : Nat → Marks

/-- The scheduler chooses the process that makes the next call. -/
structure Action where
  process : Nat
  call : SystemCall

namespace Action

omit [Unicode] in
/-- The process of the action is running. -/
def scheduled (action : Action) (tracked : Tracked) : FatKernel :=
  { tracked.system with currentIndex := action.process }

def step (action : Action) (tracked : Tracked) : Tracked :=
  let result := action.call.run (action.scheduled tracked)
  ⟨result.2, action.call.nextMarks (action.scheduled tracked) result.1 tracked.marks⟩

omit [Unicode] in
/-- The action uses no handle of a removed entry. -/
def Current (action : Action) (tracked : Tracked) : Prop := action.call.Current (tracked.marks action.process)

end Action

omit [Unicode] in
/-- The kernel starts without processes. -/
def Tracked.boot (volume : Volume) : Tracked := ⟨⟨volume, [], 0⟩, fun _ => .clean⟩

/-- In every run with current handles the volume stays well formed and every call is confined to what it names. -/
theorem handles_isolated (reserved : Nat → UInt32 → Prop) (volume : Volume) (well : WellFormed reserved volume)
    (dots : DotsLead volume) (tracked : Tracked)
    (reached : Reached Action.step Action.Current (Tracked.boot volume) tracked) :
    WellFormed reserved tracked.system.volume ∧
      ∀ action : Action, action.Current tracked →
        action.call.Confined (action.scheduled tracked) (action.step tracked).system := by
  have boot : SoundSystem reserved (Tracked.boot volume).system (Tracked.boot volume).marks :=
    ⟨well, dots, fun index process found => by cases found⟩
  have schedules (action : Action) (state : Tracked) (sound : SoundSystem reserved state.system state.marks) :
      SoundSystem reserved (action.scheduled state) state.marks := ⟨sound.well, sound.dots, sound.processes⟩
  have sound := @Reached.invariant _ _ _ _ _ _ (fun state => SoundSystem reserved state.system state.marks) boot
    (fun action state sound current => (SystemCall.handled (schedules action state sound) action.call current).sound) reached
  exact ⟨sound.well, fun action current => (SystemCall.handled (schedules action tracked sound) action.call current).confined⟩

end Run

section Stale

open Text

/-- The first process creates a file in the root directory. -/
theorem handles_isolated_create :
    ∃ tracked, Reached (@Action.step asciiTables) Action.Current (Tracked.boot freshVolume) tracked ∧
      WellFormed (fun _ _ => False) tracked.system.volume := by
  have first := Reached.step (@Reached.start _ _ (@Action.step asciiTables) Action.Current (Tracked.boot freshVolume))
    ⟨0, .execute⟩ trivial
  have second := first.step ⟨0, .create ['/', 'a']⟩ (fun relative => by cases relative)
  exact ⟨_, second, (@handles_isolated asciiTables _ _ wellFormed_freshVolume dotsLead_freshVolume _ second).1⟩

/-- The last of these calls gives the cluster of the unlinked file to the other file. -/
def staleCalls : List Action :=
  [⟨0, .execute⟩, ⟨0, .create ['/', 'a']⟩, ⟨0, .create ['/', 'b']⟩, ⟨0, .openPath ['/', 'a']⟩, ⟨0, .write 3 [1]⟩,
    ⟨0, .unlink ['/', 'a']⟩, ⟨0, .write 4 [2]⟩]

/-- This state is the result of the calls. -/
def staleTracked : Tracked :=
  staleCalls.foldl (fun tracked action => @Action.step asciiTables action tracked) (Tracked.boot freshVolume)

/-- The next write uses the second descriptor of the unlinked file. -/
def staleWrite : Action := ⟨0, .write 5 [9]⟩

/-- The process is about to write. -/
def staleBefore : FatKernel := staleWrite.scheduled staleTracked

/-- The process has written. -/
def staleAfter : FatKernel := (@Action.step asciiTables staleWrite staleTracked).system

/-- A write through the descriptor of an unlinked file changes the contents of another live file. -/
theorem stale_write_changes :
    WellFormed (fun _ _ => False) freshVolume ∧ DotsLead freshVolume ∧
      ¬ @SystemCall.Confined asciiTables (.write 5 [9]) staleBefore staleAfter := by
  refine ⟨wellFormed_freshVolume, dotsLead_freshVolume, ?_⟩
  obtain ⟨opened, root, ends, inside, used, listed, named, regular, content⟩ :
      (staleBefore.openedFile 5).map FATFile.location = some oneFile.location ∧
      staleBefore.volume.root.getCluster = 2 ∧ staleBefore.volume.fat.nextCluster 2 = none ∧
      2 < staleBefore.volume.fat.entries ∧ staleBefore.volume.fat.word 2 ≠ 0 ∧
      (staleBefore.volume.entryAt secondFile.location, secondFile.location) ∈
        liveSlots (staleBefore.volume.dirSlots [2]) ∧
      isDotName (staleBefore.volume.entryAt secondFile.location).name = false ∧
      (staleBefore.volume.entryAt secondFile.location).isRegularFile = true ∧
      staleAfter.volume.content (staleBefore.volume.entryAt secondFile.location) ≠
        staleBefore.volume.content (staleBefore.volume.entryAt secondFile.location) := by
    decide +kernel
  have chain : FatBuffer.FileChain staleBefore.volume.fat 2 [2] :=
    ⟨.last ends, by simpa using inside, by simpa using used⟩
  have live : LiveEntry staleBefore.volume
      (staleBefore.volume.entryAt secondFile.location, secondFile.location) :=
    ⟨2, root ▸ .refl, [2], chain, listed, named⟩
  exact @SystemCall.not_confined_of_content asciiTables _ _ 5 [9] _ _ opened live (by decide) regular content

end Stale

end BubbleOs
