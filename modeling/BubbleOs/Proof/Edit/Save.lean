import BubbleOs.Proof.Edit.Editor
import BubbleOs.Proof.Fat.Run
import BubbleOs.Proof.Process.Machine

namespace BubbleOs.Edit

open Machine

variable {S D F : Type} [Fs.File S F] [Fs.Lookup S D F]

def Message.isError : Message → Bool
  | .couldNotTruncateFile => true
  | .couldNotWriteFile => true
  | _ => false

/-- A save with an error message leaves the contents of the file. -/
def SaveKeeps (session : Session (Machine S D F)) (file : F) (contents : List UInt8) : Prop :=
  ∀ saved, session.save = some saved → saved.editor.message.isError = true →
    (Fs.File.read file saved.world.files).1 = .value contents

/-- The file is emptied and does not take the text. -/
def SaveLoses (session : Session (Machine S D F)) (contents : List UInt8) : Prop :=
  let truncated := Ulib.truncate session.editor.fd 0 session.world
  contents ≠ [] ∧ truncated.1 = true ∧
    (Ulib.write session.editor.fd (session.buffer.take session.editor.len) truncated.2).1 ≠ session.editor.len

/-- A failed replacement leaves the contents of the file. -/
def ReplacementKeeps (machine : Machine S D F) (path bytes : List UInt8) (file : F) (contents : List UInt8) : Prop :=
  (Ulib.writeExistingFile path bytes machine).1 = false →
    (Fs.File.read file (Ulib.writeExistingFile path bytes machine).2.files).1 = .value contents

/-- The file is emptied after a refused write, or it is overwritten and not cut. -/
def ReplacementLoses (machine : Machine S D F) (path bytes contents : List UInt8) : Prop :=
  let opened := Ulib.openFile path machine
  let written := Ulib.write opened.1 bytes opened.2
  let truncated := Ulib.truncate opened.1 written.1 written.2
  opened.1 ≠ 0 ∧
    (written.1 ≠ bytes.length ∧ truncated.1 = true ∧ contents ≠ [] ∨
      written.1 = bytes.length ∧ truncated.1 = false ∧ contents.take bytes.length ≠ bytes)

section Keeps

variable {laws : ByteFile S F} {contents : List UInt8}

theorem saveKeeps_iff {session : Session (Machine S D F)} {openFile : OpenFile F}
    (fits : session.editor.len ≤ session.buffer.length)
    (opens : Opens laws session.world session.editor.fd openFile contents) :
    SaveKeeps session openFile.file contents ↔ ¬ SaveLoses session contents := by
  have length : (session.buffer.take session.editor.len).length = session.editor.len := by
    rw [List.length_take]
    omega
  unfold SaveKeeps SaveLoses Session.save
  dsimp only
  obtain ⟨emptied, ⟨refused, still⟩ | ⟨granted, still⟩⟩ := opens.truncate 0
  · rw [refused]
    refine iff_of_true ?_ (fun lost => Bool.false_ne_true lost.2.1)
    intro saved done _
    rw [Bool.not_false, if_pos rfl, Option.some.injEq] at done
    rw [← done, laws.read still.holds]
  · rw [granted, Bool.not_true, if_neg Bool.false_ne_true, if_neg (by omega)]
    obtain ⟨after, ⟨refused, filled, empty⟩ | ⟨taken, _⟩⟩ :=
      still.write (Nat.min_zero _) (session.buffer.take session.editor.len)
    · have short : 0 ≠ session.editor.len := by
        intro none
        rw [← none] at filled
        exact filled rfl
      have read : (Fs.File.read openFile.file after.files).1 = .value [] := by
        rw [laws.read empty.holds]
        rfl
      rw [refused, if_pos short]
      constructor
      · intro kept lost
        exact lost.1 (Outcome.value.inj ((kept _ rfl rfl).symm.trans read))
      · intro unlost saved done _
        have old : contents = [] := by
          by_contra filled
          exact unlost ⟨filled, rfl, short⟩
        rw [Option.some.injEq] at done
        rw [← done, old]
        exact read
    · rw [taken, length, if_neg (not_not.mpr rfl)]
      refine iff_of_true ?_ (fun lost => lost.2.2 rfl)
      intro saved done error
      rw [Option.some.injEq] at done
      rw [← done] at error
      cases error

variable {machine opened : Machine S D F} {path bytes : List UInt8} {file : F} {fd : Nat} {after : Machine S D F}

/-- A refused write is followed by a cut to nothing. -/
theorem replacementKeeps_refused (start : Ulib.openFile path machine = (fd, opened)) (positive : fd ≠ 0)
    (refused : Ulib.write fd bytes opened = (0, after)) (filled : bytes ≠ [])
    (opens : Opens laws after fd ⟨file, 0, true, true⟩ contents) :
    ReplacementKeeps machine path bytes file contents ↔ ¬ ReplacementLoses machine path bytes contents := by
  have short : 0 ≠ bytes.length := fun none => filled (List.length_eq_zero_iff.mp none.symm)
  unfold ReplacementKeeps ReplacementLoses Ulib.writeExistingFile
  dsimp only
  rw [start, if_neg positive, refused]
  obtain ⟨cut, ⟨stays, kept⟩ | ⟨granted, empty⟩⟩ := opens.truncate 0
  · rw [stays]
    refine iff_of_true (fun _ => ?_) ?_
    · change (Fs.File.read file cut.files).1 = _
      rw [laws.read kept.holds]
    · rintro ⟨_, ⟨_, truncated, _⟩ | ⟨complete, _⟩⟩
      · cases truncated
      · exact short complete
  · rw [granted]
    have failed : ((0 == bytes.length) && true) = false := by
      rw [Bool.and_true]
      exact beq_false_of_ne short
    have read : (Fs.File.read file cut.files).1 = .value [] := by
      rw [laws.read empty.holds]
      rfl
    constructor
    · rintro kept ⟨_, ⟨_, _, old⟩ | ⟨complete, _⟩⟩
      · exact old (Outcome.value.inj ((kept failed).symm.trans read))
      · exact short complete
    · intro unlost _
      have old : contents = [] := by
        by_contra old
        exact unlost ⟨positive, .inl ⟨short, rfl, old⟩⟩
      rw [old]
      exact read

/-- A complete write is followed by a cut to its length. -/
theorem replacementKeeps_taken (start : Ulib.openFile path machine = (fd, opened)) (positive : fd ≠ 0)
    (taken : Ulib.write fd bytes opened = (bytes.length, after))
    (opens : Opens laws after fd ⟨file, bytes.length, true, true⟩ (bytes ++ contents.drop bytes.length)) :
    ReplacementKeeps machine path bytes file contents ↔ ¬ ReplacementLoses machine path bytes contents := by
  unfold ReplacementKeeps ReplacementLoses Ulib.writeExistingFile
  dsimp only
  rw [start, if_neg positive, taken]
  obtain ⟨cut, ⟨stays, kept⟩ | ⟨granted, _⟩⟩ := opens.truncate bytes.length
  · rw [stays]
    have read : (Fs.File.read file cut.files).1 = .value (bytes ++ contents.drop bytes.length) := by
      rw [laws.read kept.holds]
    constructor
    · rintro kept ⟨_, ⟨incomplete, _⟩ | ⟨_, _, changed⟩⟩
      · exact incomplete rfl
      · apply changed
        rw [Outcome.value.inj ((kept (Bool.and_false _)).symm.trans read), List.take_left]
    · intro unlost _
      have same : contents.take bytes.length = bytes := by
        by_contra changed
        exact unlost ⟨positive, .inr ⟨rfl, rfl, changed⟩⟩
      refine read.trans (congrArg Outcome.value ?_)
      nth_rewrite 1 [← same]
      exact List.take_append_drop _ _
  · rw [granted]
    refine iff_of_true ?_ ?_
    · intro failed
      simp at failed
    · rintro ⟨_, ⟨incomplete, _⟩ | ⟨_, truncated, _⟩⟩
      · exact incomplete rfl
      · cases truncated

theorem replacementKeeps_iff (standard : 3 ≤ machine.process.fdTable.length) (leads : machine.LeadsTo path file)
    (holds : laws.Holds machine.files file contents) (bytes : List UInt8) :
    ReplacementKeeps machine path bytes file contents ↔ ¬ ReplacementLoses machine path bytes contents := by
  rcases leads.opened standard holds with closed | ⟨fd, opened, start, positive, opens⟩
  · unfold ReplacementKeeps ReplacementLoses Ulib.writeExistingFile
    dsimp only
    rw [closed, if_pos rfl]
    refine iff_of_true (fun _ => ?_) (fun lost => lost.1 rfl)
    rw [laws.read holds]
  · obtain ⟨after, ⟨refused, filled, still⟩ | ⟨taken, still⟩⟩ := opens.write rfl bytes
    · exact replacementKeeps_refused start positive refused filled still
    · exact replacementKeeps_taken start positive taken still

end Keeps

/-- A failed save keeps the old contents unless the file was emptied or overwritten before the failure. -/
theorem failed_save_keeps_iff (laws : ByteFile S F) (file : F) (contents : List UInt8) :
    (∀ (session : Session (Machine S D F)) (openFile : OpenFile F), session.editor.len ≤ session.buffer.length →
      Opens laws session.world session.editor.fd openFile contents →
      (∃ saved, session.save = some saved) ∧
        (SaveKeeps session openFile.file contents ↔ ¬ SaveLoses session contents)) ∧
    ∀ (machine : Machine S D F) (path bytes : List UInt8), 3 ≤ machine.process.fdTable.length →
      machine.LeadsTo path file → laws.Holds machine.files file contents →
      (ReplacementKeeps machine path bytes file contents ↔ ¬ ReplacementLoses machine path bytes contents) := by
  constructor
  · intro session openFile fits opens
    refine ⟨?_, saveKeeps_iff fits opens⟩
    unfold Session.save
    dsimp only
    rw [if_neg (Nat.not_lt_of_le fits)]
    split
    · exact ⟨_, rfl⟩
    · split <;> exact ⟨_, rfl⟩
  · intro machine path bytes standard leads holds
    exact replacementKeeps_iff standard leads holds bytes

/-- One file keeps its contents and the answers to the resizes that follow. -/
structure Ledger where
  contents : List UInt8
  grants : List Bool

instance : Fs.File Ledger Unit where
  size _ ledger := (.value ledger.contents.length, ledger)
  read _ ledger := (.value ledger.contents, ledger)
  write _ offset bytes ledger :=
    if offset + bytes.length ≤ ledger.contents.length then
      (.value bytes.length, { ledger with contents := overwrite ledger.contents offset bytes })
    else (.missing, ledger)
  truncate _ size ledger :=
    if ledger.grants.headD false then
      (.value (), ⟨(ledger.contents ++ List.replicate size 0).take size, ledger.grants.tail⟩)
    else (.missing, ⟨ledger.contents, ledger.grants.tail⟩)

instance : Fs.Lookup Ledger Unit Unit where
  findFileFromPath _ _ := pure ()

def ledgerFile : ByteFile Ledger Unit where
  Holds ledger _ contents := ledger.contents = contents
  read := by
    rintro ledger _ _ rfl
    rfl
  size := by
    rintro ledger _ _ rfl
    rfl
  write := by
    rintro ledger _ _ rfl offset bytes inside
    exact ⟨_, if_pos inside, rfl⟩
  truncate := by
    rintro ledger _ _ rfl size
    by_cases granted : ledger.grants.headD false = true
    · exact ⟨_, .inr ⟨if_pos granted, rfl⟩⟩
    · exact ⟨_, .inl ⟨if_neg granted, rfl⟩⟩

/-- The process of this machine has opened the file. -/
def ledgerMachine (contents : List UInt8) (grants : List Bool) : Machine Ledger Unit Unit :=
  ⟨⟨(), [some .stdin, some .stdout, some .stderr, some (.file ⟨(), 0, true, true⟩)]⟩, contents, grants⟩

/-- A file that refuses every resize keeps its letter. -/
theorem failed_save_keeps_refused :
    SaveKeeps (Session.load 3 [0x62] (ledgerMachine [0x61] [])) () [0x61] ∧
      ReplacementKeeps (ledgerMachine [0x61] []) [0x66] [0x62, 0x63] () [0x61] := by
  obtain ⟨saves, replaces⟩ := @failed_save_keeps_iff Ledger Unit Unit _ _ ledgerFile () [0x61]
  have opens : Opens ledgerFile (ledgerMachine [0x61] []) 3 ⟨(), 0, true, true⟩ [0x61] := ⟨rfl, rfl, rfl⟩
  constructor
  · let session := Session.load 3 [0x62] (ledgerMachine [0x61] [])
    have fits : session.editor.len ≤ session.buffer.length := by decide +kernel
    refine (saves session ⟨(), 0, true, true⟩ fits opens).2.mpr ?_
    rintro ⟨_, granted, _⟩
    cases granted
  · refine (replaces (ledgerMachine [0x61] []) [0x66] [0x62, 0x63] (by decide)
      (fun _ _ => ⟨rfl, fun _ _ => rfl⟩) opens.holds).mpr ?_
    rintro ⟨_, ⟨_, granted, _⟩ | ⟨complete, _⟩⟩
    · exact absurd granted (by decide +kernel)
    · exact absurd complete (by decide +kernel)

/-- A typed letter is saved to a file that cannot grow again, and two letters replace one on a full volume. -/
theorem failed_save_empties :
    ((Session.load 3 [0x61] (ledgerMachine [0x61] [true])).handleInputs [0x62, 0x1B, 0x77]).map
        (fun saved => (saved.editor.message, saved.world.files.contents)) = some (.couldNotWriteFile, []) ∧
      (Ulib.writeExistingFile [0x66] [0x62, 0x63] (ledgerMachine [0x61] [false, true])).1 = false ∧
      (Ulib.writeExistingFile [0x66] [0x62, 0x63] (ledgerMachine [0x61] [false, true])).2.files.contents = [] := by
  decide +kernel

section Volume

open Attempt Fat FATFileSystem

/-- The regular files of a well-formed volume hold their contents. -/
def volumeFile (reserved : Nat → UInt32 → Prop) : ByteFile Volume FATFile where
  Holds fs file contents := WellFormed reserved fs ∧
    ∃ entry, LiveEntry fs (entry, file.location) ∧ entry.attributes = 32 ∧ fs.content entry = contents
  read := by
    rintro fs file _ ⟨well, entry, live, archive, rfl⟩
    exact read_content well live archive
  size := by
    rintro fs file _ ⟨well, entry, live, archive, rfl⟩
    rw [length_content well live archive]
    obtain ⟨dir, dirLive, listed⟩ := live
    exact bind_value (orNone_value (readDirectoryEntry_live well listed)) _
  write := by
    rintro fs file _ ⟨well, entry, live, archive, rfl⟩ offset bytes inside
    rw [length_content well live archive] at inside
    rcases write_edited well live offset bytes with
      ⟨_, outside⟩ | ⟨dir, after, returned, dirLive, _, _, edited, _, written⟩
    · exact absurd (outside archive) (Nat.not_lt.mpr inside)
    · exact ⟨after, returned, edited.wellFormed well dirLive, entry, edited.liveEntry well dirLive rfl, archive, written⟩
  truncate := by
    rintro fs file _ ⟨well, entry, live, archive, rfl⟩ size
    rcases truncate_edited well live size with
      missing | ⟨dir, newEntry, after, returned, dirLive, _, _, _, edited, stillArchive, _, resized⟩
    · exact ⟨fs, .inl ⟨missing, well, entry, live, archive, rfl⟩⟩
    · exact ⟨after, .inr ⟨returned, edited.wellFormed well dirLive, newEntry, edited.liveEntry well dirLive rfl,
        stillArchive, resized⟩⟩

/-- The same condition decides for the files of a well-formed volume. -/
theorem volume_saveKeeps_iff [Fs.Lookup Volume D FATFile] {reserved : Nat → UInt32 → Prop}
    {session : Session (Machine Volume D FATFile)} {openFile : OpenFile FATFile} {entry : DirectoryEntry}
    (fits : session.editor.len ≤ session.buffer.length) (writable : openFile.writable = true)
    (opened : session.world.process.getFd session.editor.fd = some (.file openFile))
    (well : WellFormed reserved session.world.files)
    (live : LiveEntry session.world.files (entry, openFile.file.location)) (archive : entry.attributes = 32) :
    SaveKeeps session openFile.file (session.world.files.content entry) ↔
      ¬ SaveLoses session (session.world.files.content entry) :=
  @saveKeeps_iff _ _ _ _ _ (volumeFile reserved) _ _ _ fits ⟨writable, opened, well, entry, live, archive, rfl⟩

end Volume

end BubbleOs.Edit
