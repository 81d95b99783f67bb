import BubbleOs.Proof.Fat.Run
import BubbleOs.Proof.Process.Machine

namespace BubbleOs

open Attempt

/-- A shorter array is cut and a longer one ends in zeros. -/
def resize (bytes : List UInt8) (size : Nat) : List UInt8 := (bytes ++ List.replicate size 0).take size

/-- The bytes lie over the old ones from an offset on, and zeros fill the gap before it. -/
def overlay (bytes : List UInt8) (offset : Nat) (data : List UInt8) : List UInt8 :=
  overwrite (bytes ++ List.replicate (offset - bytes.length) 0) offset data

section Overlay

variable (bytes data : List UInt8) (offset : Nat)

/-- Inside the array nothing is filled. -/
theorem overlay_inside (fits : offset + data.length ≤ bytes.length) :
    overlay bytes offset data = overwrite bytes offset data := by
  rw [overlay, Nat.sub_eq_zero_of_le (by omega), List.replicate_zero, List.append_nil]

/-- A write past the end lies over the grown array. -/
theorem overlay_outside (grows : bytes.length < offset + data.length) :
    overwrite (resize bytes (offset + data.length)) offset data = overlay bytes offset data := by
  have cut : (resize bytes (offset + data.length)).drop (offset + data.length) = [] := by
    rw [List.drop_eq_nil_iff, resize, List.length_take]
    exact Nat.min_le_left _ _
  have filled : (bytes ++ List.replicate (offset - bytes.length) 0).drop (offset + data.length) = [] := by
    rw [List.drop_eq_nil_iff, List.length_append, List.length_replicate]
    omega
  have shorter : min offset (offset + data.length) = offset := by omega
  rw [overlay, overwrite, overwrite, cut, filled, resize, List.take_take, shorter, List.take_append, List.take_append,
    List.take_replicate, List.take_replicate, Nat.min_self, Nat.min_eq_left (by omega)]

end Overlay

/-- Files behave as byte arrays when their calls read and change stored contents. -/
structure ByteFiles (S F K : Type) [Fs.File S F] [DecidableEq K] where
  key : F → K
  member : F → Prop
  /-- The state stores these contents. -/
  holds : S → (K → List UInt8) → Prop
  read : ∀ {state content file}, holds state content → member file →
    Fs.File.read file state = (.value (content (key file)), state)
  size : ∀ {state content file}, holds state content → member file →
    Fs.File.size file state = (.value (content (key file)).length, state)
  write : ∀ {state content file}, holds state content → member file → ∀ offset bytes,
    offset + bytes.length ≤ (content (key file)).length →
    ∃ after, Fs.File.write file offset bytes state = (.value bytes.length, after) ∧
      holds after (Function.update content (key file) (overwrite (content (key file)) offset bytes))
  truncate : ∀ {state content file}, holds state content → member file → ∀ size,
    Fs.File.truncate file size state = (.missing, state) ∨
      ∃ after, Fs.File.truncate file size state = (.value (), after) ∧
        holds after (Function.update content (key file) (resize (content (key file)) size))
  bounded : ∀ {state content file}, holds state content → member file →
    (content (key file)).length < Process.usizeLimit

section FatFiles

open Fat FATFileSystem

/-- The files at these places are archive files with known contents. -/
structure StoresFiles (reserved : Nat → UInt32 → Prop) (places : DirectoryEntryLocation → Prop) (fs : Volume)
    (content : DirectoryEntryLocation → List UInt8) : Prop where
  well : WellFormed reserved fs
  files : ∀ place, places place →
    ∃ entry, LiveEntry fs (entry, place) ∧ entry.attributes = 32 ∧ content place = fs.content entry

/-- A change of one file changes the contents at its place only. -/
theorem StoresFiles.update {reserved : Nat → UInt32 → Prop} {places : DirectoryEntryLocation → Prop}
    {fs after : Volume} {content : DirectoryEntryLocation → List UInt8}
    (stores : StoresFiles reserved places fs content) {place : DirectoryEntryLocation} {entry : DirectoryEntry}
    (well : WellFormed reserved after) (others : OthersKept fs after place) (live : LiveEntry after (entry, place))
    (archive : entry.attributes = 32) :
    StoresFiles reserved places after (Function.update content place (after.content entry)) := by
  refine ⟨well, fun other member => ?_⟩
  by_cases same : other = place
  · rw [same, Function.update_self]
    exact ⟨entry, live, archive, rfl⟩
  · obtain ⟨kept, keptLive, keptArchive, stored⟩ := stores.files other member
    obtain ⟨stays, contents⟩ := others.files (kept, other) keptLive same
    obtain ⟨dir, dirLive, listed⟩ := keptLive
    obtain ⟨regular, _⟩ := stores.well.storedFile dirLive listed keptArchive
    rw [Function.update_of_ne same, stored]
    exact ⟨kept, stays, keptArchive, (contents regular).2.symm⟩

/-- The archive files of a well-formed volume are byte arrays. -/
def fatFiles (reserved : Nat → UInt32 → Prop) (places : DirectoryEntryLocation → Prop) :
    ByteFiles Volume FATFile DirectoryEntryLocation where
  key := FATFile.location
  member file := places file.location
  holds := StoresFiles reserved places
  read {fs content file} stores member := by
    obtain ⟨entry, live, archive, stored⟩ := stores.files _ member
    rw [stored]
    exact read_content stores.well live archive
  size {fs content file} stores member := by
    obtain ⟨entry, live, archive, stored⟩ := stores.files _ member
    rw [stored, length_content stores.well live archive]
    obtain ⟨dir, _, listed⟩ := live
    exact bind_value (orNone_value (readDirectoryEntry_live stores.well listed)) _
  write {fs content file} stores member offset bytes fits := by
    obtain ⟨entry, live, archive, stored⟩ := stores.files _ member
    rw [stored, length_content stores.well live archive] at fits
    rcases write_edited stores.well live offset bytes with
      ⟨_, outside⟩ | ⟨dir, after, returned, dirLive, _, others, edited, _, written⟩
    · exact absurd (outside archive) (Nat.not_lt.mpr fits)
    · refine ⟨after, returned, ?_⟩
      rw [stored, ← written]
      exact stores.update (edited.wellFormed stores.well dirLive) others (edited.liveEntry stores.well dirLive rfl) archive
  truncate {fs content file} stores member size := by
    obtain ⟨entry, live, archive, stored⟩ := stores.files _ member
    rcases truncate_edited stores.well live size with
      missing | ⟨dir, newEntry, after, returned, dirLive, _, _, others, edited, newArchive, _, resized⟩
    · exact .inl missing
    · refine .inr ⟨after, returned, ?_⟩
      rw [stored, resize, ← resized]
      exact stores.update (edited.wellFormed stores.well dirLive) others (edited.liveEntry stores.well dirLive rfl)
        newArchive
  bounded {fs content file} stores member := by
    obtain ⟨entry, live, archive, stored⟩ := stores.files _ member
    rw [stored, length_content stores.well live archive]
    exact Nat.lt_trans entry.size.toNat_lt (by decide)

end FatFiles

inductive FileOperation (F : Type) where
  | openFile (file : F) (readable writable : Bool)
  | closeFd (fd : Nat)
  | readFd (fd size : Nat)
  | writeFd (fd : Nat) (bytes : List UInt8)
  | truncateFd (fd size : Nat)

/-- A call that never returns has no result. -/
inductive FileReply where
  | descriptor (fd : Nat)
  | closed (done : Bool)
  | bytes (read : Option (List UInt8))
  | written (count : Option Nat)
  | truncated (done : Bool)
  | stuck

namespace FileOperation

variable {D F S K : Type} [Fs.File S F] [DecidableEq K]

def run : FileOperation F → S × Process D F → FileReply × (S × Process D F)
  | .openFile file readable writable, (state, process) =>
    let opened := process.openFile file readable writable
    (.descriptor opened.1, (state, opened.2))
  | .closeFd fd, (state, process) =>
    let closed := process.closeFd fd
    (.closed closed.1, (state, closed.2))
  | .readFd fd size, (state, process) =>
    match process.readFd fd size state with
    | (.value (read, changed), after) => (.bytes (some read), (after, changed))
    | (.missing, after) => (.bytes none, (after, process))
    | (.hang, after) => (.stuck, (after, process))
  | .writeFd fd bytes, (state, process) =>
    match process.writeFd fd bytes state with
    | (.value (count, changed), after) => (.written (some count), (after, changed))
    | (.missing, after) => (.written none, (after, process))
    | (.hang, after) => (.stuck, (after, process))
  | .truncateFd fd size, (state, process) =>
    match process.truncateFd fd size state with
    | (.value changed, after) => (.truncated true, (after, changed))
    | (.missing, after) => (.truncated false, (after, process))
    | (.hang, after) => (.stuck, (after, process))

/-- The opened files are byte arrays. -/
def Allowed (files : ByteFiles S F K) : FileOperation F → Prop
  | .openFile file _ _ => files.member file
  | _ => True

/-- An allowed operation runs. -/
def Runs (files : ByteFiles S F K) (before : S × Process D F) (operation : FileOperation F) (reply : FileReply)
    (after : S × Process D F) : Prop :=
  operation.Allowed files ∧ operation.run before = (reply, after)

end FileOperation

/-- The abstract table stores the contents of each file and what each descriptor refers to. -/
structure FileTable (K : Type) where
  content : K → List UInt8
  descriptor : Nat → Option (FileDescriptor K)

namespace FileTable

variable {F K : Type} [DecidableEq K]

def setDescriptor (table : FileTable K) (fd : Nat) (entry : Option (FileDescriptor K)) : FileTable K :=
  { table with descriptor := Function.update table.descriptor fd entry }

def setContent (table : FileTable K) (file : K) (bytes : List UInt8) : FileTable K :=
  { table with content := Function.update table.content file bytes }

def moveOffset (table : FileTable K) (fd : Nat) (openFile : OpenFile K) (offset : Nat) : FileTable K :=
  table.setDescriptor fd (some (.file { openFile with offset := offset }))

omit [DecidableEq K] in
/-- An offset that stays changes nothing. -/
theorem moveOffset_self {table : FileTable K} {fd : Nat} {openFile : OpenFile K}
    (found : table.descriptor fd = some (.file openFile)) : table.moveOffset fd openFile openFile.offset = table := by
  have same : Function.update table.descriptor fd (some (.file openFile)) = table.descriptor := by
    rw [← found, Function.update_eq_self]
  exact congrArg (FileTable.mk table.content) same

/-- A read returns the bytes between the offset and the requested end or the end of the file. -/
def slice (table : FileTable K) (openFile : OpenFile K) (size : Nat) : List UInt8 :=
  let bytes := table.content openFile.file
  (bytes.take (min (openFile.offset + size) bytes.length)).drop openFile.offset

/-- Each operation of the table has one effect, and growing a file may fail. -/
inductive Step (key : F → K) (table : FileTable K) : FileOperation F → FileReply → FileTable K → Prop where
  | opened {file : F} {readable writable : Bool} {fd : Nat} (low : 3 ≤ fd) (closed : table.descriptor fd = none)
      (least : ∀ other, 3 ≤ other → other < fd → table.descriptor other ≠ none) :
      Step key table (.openFile file readable writable) (.descriptor fd)
        (table.setDescriptor fd (some (.file ⟨key file, 0, readable, writable⟩)))
  | closed {fd : Nat} {done : Bool} (low : 3 ≤ fd) (closes : table.descriptor fd ≠ none → done = true) :
      Step key table (.closeFd fd) (.closed done) (table.setDescriptor fd none)
  | standard {fd : Nat} (stream : fd < 3) : Step key table (.closeFd fd) (.closed false) table
  | read {fd size : Nat} {openFile : OpenFile K} (found : table.descriptor fd = some (.file openFile))
      (permitted : openFile.readable = true) :
      Step key table (.readFd fd size) (.bytes (some (table.slice openFile size)))
        (table.moveOffset fd openFile (openFile.offset + (table.slice openFile size).length))
  | readRefused {fd size : Nat}
      (refused : ∀ openFile, table.descriptor fd = some (.file openFile) → openFile.readable = false) :
      Step key table (.readFd fd size) (.bytes none) table
  | written {fd : Nat} {bytes : List UInt8} {openFile : OpenFile K}
      (found : table.descriptor fd = some (.file openFile)) (permitted : openFile.writable = true) :
      Step key table (.writeFd fd bytes) (.written (some bytes.length))
        ((table.setContent openFile.file (overlay (table.content openFile.file) openFile.offset bytes)).moveOffset fd
          openFile (openFile.offset + bytes.length))
  | writeFailed {fd : Nat} {bytes : List UInt8} {openFile : OpenFile K}
      (found : table.descriptor fd = some (.file openFile))
      (large : (table.content openFile.file).length < openFile.offset + bytes.length) :
      Step key table (.writeFd fd bytes) (.written none) table
  | writeRefused {fd : Nat} {bytes : List UInt8}
      (refused : ∀ openFile, table.descriptor fd = some (.file openFile) → openFile.writable = false) :
      Step key table (.writeFd fd bytes) (.written none) table
  | truncated {fd size : Nat} {openFile : OpenFile K} (found : table.descriptor fd = some (.file openFile))
      (permitted : openFile.writable = true) :
      Step key table (.truncateFd fd size) (.truncated true)
        ((table.setContent openFile.file (resize (table.content openFile.file) size)).moveOffset fd openFile
          (min openFile.offset size))
  | truncateFailed {fd size : Nat} {openFile : OpenFile K} (found : table.descriptor fd = some (.file openFile))
      (permitted : openFile.writable = true) : Step key table (.truncateFd fd size) (.truncated false) table
  | truncateRefused {fd size : Nat}
      (refused : ∀ openFile, table.descriptor fd = some (.file openFile) → openFile.writable = false) :
      Step key table (.truncateFd fd size) (.truncated false) table

end FileTable

/-- A descriptor refers to the key of its file. -/
def FileDescriptor.map {F K : Type} (key : F → K) : FileDescriptor F → FileDescriptor K
  | .stdin => .stdin
  | .stdout => .stdout
  | .stderr => .stderr
  | .file openFile => .file ⟨key openFile.file, openFile.offset, openFile.readable, openFile.writable⟩

section Refine

variable {D F S K : Type} [Fs.File S F] [DecidableEq K] {files : ByteFiles S F K}

/-- The table shows the stored contents and the descriptors of the process. -/
structure Represents (files : ByteFiles S F K) (current : S × Process D F) (table : FileTable K) : Prop where
  stored : files.holds current.1 table.content
  descriptors : ∀ fd, table.descriptor fd = (current.2.getFd fd).map (FileDescriptor.map files.key)
  members : ∀ fd openFile, current.2.getFd fd = some (.file openFile) → files.member openFile.file
  standard : table.descriptor 0 = some .stdin ∧ table.descriptor 1 = some .stdout ∧
    table.descriptor 2 = some .stderr

/-- The table of a new process has the standard streams only. -/
def FileTable.standard (content : K → List UInt8) : FileTable K where
  content := content
  descriptor
    | 0 => some .stdin
    | 1 => some .stdout
    | 2 => some .stderr
    | _ => none

namespace Represents

/-- A new process starts with the standard streams. -/
theorem standardProcess {state : S} {content : K → List UInt8} (stored : files.holds state content) (dir : D) :
    Represents files (state, (⟨dir, Process.standardFdTable⟩ : Process D F)) (.standard content) := by
  refine ⟨stored, ?_, ?_, rfl, rfl, rfl⟩
  · intro fd
    match fd with
    | 0 => rfl
    | 1 => rfl
    | 2 => rfl
    | fd + 3 => rfl
  · intro fd openFile opened
    match fd with
    | 0 => cases opened
    | 1 => cases opened
    | 2 => cases opened
    | fd + 3 => cases opened

variable {state : S} {process : Process D F} {table : FileTable K} {fd : Nat} {openFile : OpenFile F}
  {content : K → List UInt8}

/-- The key of an open file with its offset and permissions. -/
def viewed (files : ByteFiles S F K) (openFile : OpenFile F) : OpenFile K :=
  ⟨files.key openFile.file, openFile.offset, openFile.readable, openFile.writable⟩

variable (related : Represents files (state, process) table)

include related

theorem found (opened : process.getFd fd = some (.file openFile)) :
    table.descriptor fd = some (.file (viewed files openFile)) := by
  rw [related.descriptors, opened]
  rfl

/-- A descriptor that is no open file of the process is none of the table. -/
theorem notFile (other : ∀ openFile, process.getFd fd ≠ some (.file openFile)) (view : OpenFile K) :
    table.descriptor fd ≠ some (.file view) := by
  rw [related.descriptors]
  cases opened : process.getFd fd with
  | none => simp
  | some descriptor =>
    cases descriptor with
    | file openFile => exact absurd opened (other openFile)
    | stdin | stdout | stderr => simp [FileDescriptor.map]

theorem three_le : 3 ≤ process.fdTable.length := by
  have third := related.standard.2.2
  rw [related.descriptors] at third
  cases opened : process.getFd 2 with
  | none =>
    rw [opened] at third
    contradiction
  | some descriptor => exact Process.lt_of_getFd opened

/-- Replacing one descriptor after the standard streams keeps the rest of the table. -/
theorem replace {after : S} (stored : files.holds after content) {changed : Process D F} (low : 3 ≤ fd)
    {entry : Option (FileDescriptor F)}
    (same : ∀ other, changed.getFd other = if other = fd then entry else process.getFd other)
    (member : ∀ openFile, entry = some (.file openFile) → files.member openFile.file) :
    Represents files (after, changed)
      (FileTable.setDescriptor ⟨content, table.descriptor⟩ fd (entry.map (FileDescriptor.map files.key))) := by
  constructor
  · exact stored
  · intro other
    change Function.update table.descriptor fd _ other = _
    rw [same other]
    by_cases here : other = fd
    · rw [if_pos here, here, Function.update_self]
    · rw [if_neg here, Function.update_of_ne here]
      exact related.descriptors other
  · intro other openFile opened
    rw [same other] at opened
    by_cases here : other = fd
    · rw [if_pos here] at opened
      exact member openFile opened
    · rw [if_neg here] at opened
      exact related.members other openFile opened
  · change Function.update table.descriptor fd _ 0 = _ ∧ Function.update table.descriptor fd _ 1 = _ ∧
      Function.update table.descriptor fd _ 2 = _
    rw [Function.update_of_ne (by omega), Function.update_of_ne (by omega), Function.update_of_ne (by omega)]
    exact related.standard

/-- An open file lies after the standard streams. -/
theorem low (opened : process.getFd fd = some (.file openFile)) : 3 ≤ fd := by
  have here := related.found opened
  obtain ⟨zero, one, two⟩ := related.standard
  match fd with
  | 0 => simp [zero] at here
  | 1 => simp [one] at here
  | 2 => simp [two] at here
  | fd + 3 => omega

/-- Moving an offset keeps the rest of the table. -/
theorem move {after : S} (stored : files.holds after content) (opened : process.getFd fd = some (.file openFile))
    (offset : Nat) :
    Represents files (after, process.moveOffset fd openFile offset)
      (FileTable.moveOffset ⟨content, table.descriptor⟩ fd (viewed files openFile) offset) := by
  refine related.replace stored (related.low opened) (Process.getFd_moveOffset opened offset) ?_
  intro moved same
  rw [Option.some.injEq, FileDescriptor.file.injEq] at same
  rw [← same]
  exact related.members fd openFile opened

end Represents

variable {state : S} {process : Process D F} {table : FileTable K}

/-- An operation refines the table when one of its steps explains the reply. -/
def Refines (files : ByteFiles S F K) (table : FileTable K) (current : S × Process D F)
    (operation : FileOperation F) : Prop :=
  ∃ reply after next, operation.run current = (reply, after) ∧
    FileTable.Step files.key table operation reply next ∧ Represents files after next

section Related

variable (related : Represents files (state, process) table)

include related

/-- A call is refused by the process and by the table, or it runs on an open file with the permission. -/
theorem Represents.permits {fd : Nat} {A : Type} {call : Attempt S A} {body : OpenFile F → Attempt S A}
    {permission : OpenFile F → Bool}
    (calls : call = process.withFile fd fun openFile => if !permission openFile then fail else body openFile)
    (shown : OpenFile K → Bool) (agrees : ∀ openFile, shown (viewed files openFile) = permission openFile) :
    (call state = (.missing, state) ∧ ∀ view, table.descriptor fd = some (.file view) → shown view = false) ∨
      ∃ openFile, process.getFd fd = some (.file openFile) ∧ permission openFile = true ∧
        call state = body openFile state := by
  rw [calls]
  rcases process.isFile_or fd with ⟨openFile, opened⟩ | other
  · rw [Process.withFile_found opened]
    cases permitted : permission openFile with
    | false =>
      refine .inl ⟨rfl, fun view same => ?_⟩
      rw [related.found opened, Option.some.injEq, FileDescriptor.file.injEq] at same
      rw [← same, agrees, permitted]
    | true => exact .inr ⟨openFile, opened, permitted, rfl⟩
  · rw [Process.withFile_other other]
    exact .inl ⟨rfl, fun view same => absurd same (related.notFile other view)⟩

/-- A read returns the slice of its file and moves its own offset. -/
theorem readFd_refines (fd size : Nat) : Refines files table (state, process) (.readFd fd size) := by
  rcases related.permits (show process.readFd fd size = _ from rfl) OpenFile.readable fun _ => rfl with
    ⟨refused, lacking⟩ | ⟨openFile, opened, permitted, body⟩
  · exact ⟨.bytes none, (state, process), table, by rw [FileOperation.run, refused], .readRefused lacking, related⟩
  · have member := related.members fd openFile opened
    have seen := related.found opened
    obtain ⟨bytes, contents⟩ : ∃ bytes, bytes = table.content (files.key openFile.file) := ⟨_, rfl⟩
    have read : Fs.File.read openFile.file state = (.value bytes, state) := by
      rw [contents]
      exact files.read related.stored member
    have short : bytes.length < Process.usizeLimit := by
      rw [contents]
      exact files.bounded related.stored member
    have slice : table.slice (Represents.viewed files openFile) size =
        (bytes.take (min (openFile.offset + size) bytes.length)).drop openFile.offset := by
      rw [contents]
      rfl
    have step : FileTable.Step files.key table (.readFd fd size)
        (.bytes (some (table.slice (Represents.viewed files openFile) size)))
        (table.moveOffset fd (Represents.viewed files openFile)
          (openFile.offset + (table.slice (Represents.viewed files openFile) size).length)) := .read seen permitted
    rw [slice, List.length_drop, List.length_take] at step
    by_cases atEnd : openFile.offset ≥ bytes.length
    · have reads : process.readFd fd size state = (.value ([], process), state) := by
        rw [body, bind_value read, if_pos atEnd]
        rfl
      have empty : (bytes.take (min (openFile.offset + size) bytes.length)).drop openFile.offset = [] := by
        rw [List.drop_eq_nil_iff, List.length_take]
        omega
      have stays : openFile.offset + (min (min (openFile.offset + size) bytes.length) bytes.length -
          openFile.offset) = openFile.offset := by omega
      have same := FileTable.moveOffset_self seen
      change table.moveOffset fd _ openFile.offset = table at same
      rw [empty, stays, same] at step
      exact ⟨.bytes (some []), (state, process), table, by rw [FileOperation.run, reads], step, related⟩
    · -- the sum of the offset and the size overflows only past the end of the file
      have last : min (if openFile.offset + size < Process.usizeLimit then openFile.offset + size
          else bytes.length) bytes.length = min (openFile.offset + size) bytes.length := by
        split <;> omega
      have reads : process.readFd fd size state =
          (.value ((bytes.take (min (openFile.offset + size) bytes.length)).drop openFile.offset,
            process.moveOffset fd openFile (min (openFile.offset + size) bytes.length)), state) := by
        rw [body, bind_value read, if_neg atEnd]
        simp only [last]
        rfl
      have moved : openFile.offset + (min (min (openFile.offset + size) bytes.length) bytes.length -
          openFile.offset) = min (openFile.offset + size) bytes.length := by omega
      rw [moved] at step
      exact ⟨_, _, _, by rw [FileOperation.run, reads], step, related.move related.stored opened _⟩

/-- A write lays its bytes over the file and moves its own offset. -/
theorem writeFd_refines (fd : Nat) (bytes : List UInt8) :
    Refines files table (state, process) (.writeFd fd bytes) := by
  have missed (refused : process.writeFd fd bytes state = (.missing, state))
      (step : FileTable.Step files.key table (.writeFd fd bytes) (.written none) table) :
      Refines files table (state, process) (.writeFd fd bytes) :=
    ⟨.written none, (state, process), table, by rw [FileOperation.run, refused], step, related⟩
  rcases related.permits (show process.writeFd fd bytes = _ from rfl) OpenFile.writable fun _ => rfl with
    ⟨refused, lacking⟩ | ⟨openFile, opened, permitted, body⟩
  · exact missed refused (.writeRefused lacking)
  · have member := related.members fd openFile opened
    have seen := related.found opened
    have short := files.bounded related.stored member
    have sized : Fs.File.size openFile.file state =
        (.value (table.content (files.key openFile.file)).length, state) := files.size related.stored member
    have step : FileTable.Step files.key table (.writeFd fd bytes) (.written (some bytes.length))
        ((table.setContent (files.key openFile.file)
          (overlay (table.content (files.key openFile.file)) openFile.offset bytes)).moveOffset fd
            (Represents.viewed files openFile) (openFile.offset + bytes.length)) := .written seen permitted
    have failed (large : (table.content (files.key openFile.file)).length < openFile.offset + bytes.length) :
        FileTable.Step files.key table (.writeFd fd bytes) (.written none) table := .writeFailed seen large
    by_cases overflow : openFile.offset + bytes.length ≥ Process.usizeLimit
    · rw [if_pos overflow] at body
      exact missed body (failed (Nat.lt_of_lt_of_le short overflow))
    · by_cases fits : openFile.offset + bytes.length ≤ (table.content (files.key openFile.file)).length
      · obtain ⟨after, wrote, stored⟩ := files.write related.stored member openFile.offset bytes fits
        have writes := Process.writeFd_inside opened permitted (Nat.lt_of_not_le overflow) sized fits wrote
        rw [overlay_inside _ _ _ fits] at step
        exact ⟨_, _, _, by rw [FileOperation.run, writes], step, related.move stored opened _⟩
      · have grows := Nat.lt_of_not_le fits
        have outside := Process.writeFd_outside opened permitted (Nat.lt_of_not_le overflow) sized grows
        rcases files.truncate related.stored member (openFile.offset + bytes.length) with
          missing | ⟨between, grown, kept⟩
        · rw [bind_missing missing] at outside
          exact missed outside (failed grows)
        · have room : openFile.offset + bytes.length ≤ (Function.update table.content (files.key openFile.file)
              (resize (table.content (files.key openFile.file)) (openFile.offset + bytes.length))
              (files.key openFile.file)).length := by
            rw [Function.update_self, resize, List.length_take, List.length_append, List.length_replicate]
            omega
          obtain ⟨after, wrote, stored⟩ := files.write kept member openFile.offset bytes room
          rw [bind_value grown, bind_value wrote] at outside
          rw [Function.update_self, Function.update_idem, overlay_outside _ _ _ grows] at stored
          exact ⟨_, _, _, by rw [FileOperation.run, outside]; rfl, step, related.move stored opened _⟩

/-- A truncation resizes the file and clamps its own offset. -/
theorem truncateFd_refines (fd size : Nat) : Refines files table (state, process) (.truncateFd fd size) := by
  have missed (refused : process.truncateFd fd size state = (.missing, state))
      (step : FileTable.Step files.key table (.truncateFd fd size) (.truncated false) table) :
      Refines files table (state, process) (.truncateFd fd size) :=
    ⟨.truncated false, (state, process), table, by rw [FileOperation.run, refused], step, related⟩
  rcases related.permits (show process.truncateFd fd size = _ from rfl) OpenFile.writable fun _ => rfl with
    ⟨refused, lacking⟩ | ⟨openFile, opened, permitted, body⟩
  · exact missed refused (.truncateRefused lacking)
  · have seen := related.found opened
    rcases files.truncate related.stored (related.members fd openFile opened) size with
      missing | ⟨after, resized, stored⟩
    · rw [bind_missing missing] at body
      exact missed body (.truncateFailed seen permitted)
    · rw [bind_value resized] at body
      exact ⟨.truncated true, (after, process.moveOffset fd openFile (min openFile.offset size)), _,
        by rw [FileOperation.run, body]; rfl, .truncated seen permitted, related.move stored opened _⟩

/-- Every allowed operation of the descriptors is a step of the table. -/
theorem FileOperation.refines (operation : FileOperation F) (allowed : operation.Allowed files) :
    Refines files table (state, process) operation := by
  cases operation with
  | readFd fd size => exact readFd_refines related fd size
  | writeFd fd bytes => exact writeFd_refines related fd bytes
  | truncateFd fd size => exact truncateFd_refines related fd size
  | openFile file readable writable =>
    obtain ⟨low, closed, least⟩ := Process.openFile_least related.three_le file readable writable
    have isClosed (fd : Nat) : table.descriptor fd = none ↔ process.getFd fd = none := by
      rw [related.descriptors, Option.map_eq_none_iff]
    refine ⟨_, _, _, rfl, .opened low ((isClosed _).mpr closed)
      (fun other above below => (isClosed other).not.mpr (least other above below)),
      related.replace related.stored low (Process.getFd_openFile file readable writable) ?_⟩
    intro openFile opened
    rw [Option.some.injEq, FileDescriptor.file.injEq] at opened
    rw [← opened]
    exact allowed
  | closeFd fd =>
    by_cases low : 3 ≤ fd
    · have same (other : Nat) : (process.closeFd fd).2.getFd other =
          if other = fd then none else process.getFd other := by
        rw [Process.getFd_closeFd]
        simp only [low, and_true]
      have shown : Represents files (state, (process.closeFd fd).2) (table.setDescriptor fd none) :=
        related.replace related.stored low same (by simp)
      refine ⟨_, _, _, rfl, .closed low ?_, shown⟩
      intro isOpen
      rw [related.descriptors, ne_eq, Option.map_eq_none_iff] at isOpen
      obtain ⟨descriptor, found⟩ := Option.ne_none_iff_exists'.mp isOpen
      have inside : fd < process.fdTable.length := Process.lt_of_getFd found
      rw [Process.closeFd, if_neg (by omega)]
    · have kept : process.closeFd fd = (false, process) := if_pos (.inl (by omega))
      exact ⟨.closed false, (state, process), table, by rw [FileOperation.run, kept], .standard (by omega), related⟩

end Related

/-- Every run of the descriptors is a run of the abstract table with the same replies. -/
theorem descriptors_refine (files : ByteFiles S F K) (start final : S × Process D F) (table : FileTable K)
    (related : Represents files start table) (trace : List (FileOperation F × FileReply))
    (run : Trace (FileOperation.Runs files) start trace final) :
    ∃ last, Trace (FileTable.Step files.key) table trace last ∧ Represents files final last := by
  refine run.simulate ?_ related
  rintro ⟨state, process⟩ operation reply after view shown ⟨allowed, ran⟩
  obtain ⟨explained, reached, next, result, step, kept⟩ := operation.refines shown allowed
  rw [ran, Prod.mk.injEq] at result
  obtain ⟨rfl, rfl⟩ := result
  exact ⟨next, step, kept⟩

end Refine

section OneFile

open Fat FATFileSystem

/-- The only file of the volume is opened at the first descriptor after the standard streams. -/
theorem descriptors_refine_one_file :
    ∃ last, Trace (FileTable.Step FATFile.location)
      (.standard fun _ => oneFileVolume.content oneFile.entry) [(.openFile oneFile true true, .descriptor 3)] last := by
  obtain ⟨well, live⟩ := wellFormed_oneFileVolume
  have stores : StoresFiles (fun _ _ => False) (· = oneFile.location) oneFileVolume
      (fun _ => oneFileVolume.content oneFile.entry) :=
    ⟨well, fun place here => ⟨oneFile.entry, here ▸ live, rfl, rfl⟩⟩
  have ran (fs : Volume) (dir : FATDirectory) :
      (FileOperation.openFile oneFile true true).run (fs, (⟨dir, Process.standardFdTable⟩ : Process _ _)) =
        (.descriptor 3, (fs, (Process.openFile ⟨dir, Process.standardFdTable⟩ oneFile true true).2)) := rfl
  obtain ⟨last, run, _⟩ := descriptors_refine (fatFiles (fun _ _ => False) (· = oneFile.location)) _ _ _
    (Represents.standardProcess stores oneFileVolume.rootDir) [(.openFile oneFile true true, .descriptor 3)]
    (.next ⟨rfl, ran _ _⟩ (.done _))
  exact ⟨last, run⟩

end OneFile

end BubbleOs
