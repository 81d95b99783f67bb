/-
This file models the system calls that name files by paths and descriptors.
-/

import BubbleOs.Construction.Process.Descriptors

namespace BubbleOs

open Attempt Fat Fs

abbrev FatProcess := Process FATDirectory FATFile

/-- The processes share one volume, and one of them is running. -/
structure Kernel (P : Type) where
  volume : FATFileSystem P
  processes : List FatProcess
  currentIndex : Nat

abbrev SysM (P : Type) := Attempt (Kernel P)

namespace Kernel

variable {P : Type} [Port P]

/-- A call of the file system keeps the processes. -/
def onVolume {A : Type} (call : FsM P A) : SysM P A := fun system =>
  let result := call system.volume
  (result.1, { system with volume := result.2 })

/-- This process is running. -/
def currentProcess (system : Kernel P) : Option FatProcess := system.processes[system.currentIndex]?

/-- The running process is replaced. -/
def putCurrent (process : FatProcess) : SysM P Unit := fun system =>
  (.value (), { system with processes := system.processes.set system.currentIndex process })

/-- An index outside the list stops the kernel. -/
def getCurrentCwd : SysM P FATDirectory := do
  let system ← get
  if system.processes.length = 0 then pure system.volume.rootDir
  else
    match system.currentProcess with
    | some process => pure process.currWorkingDir
    | none => halt

def changeCwd (dir : FATDirectory) : SysM P Unit := do
  let system ← get
  if system.processes.length = 0 then pure ()
  else
    match system.currentProcess with
    | some process => putCurrent { process with currWorkingDir := dir }
    | none => halt

/-- The root starts a path with a slash or with a tilde and a slash, and the working directory starts the others. -/
def splitBase : List Char → Bool × List Char
  | '~' :: '/' :: rest => (true, rest)
  | '/' :: rest => (true, rest)
  | path => (false, path)

def baseDirectory (absolute : Bool) : SysM P FATDirectory := do
  if absolute then
    let system ← get
    pure system.volume.rootDir
  else getCurrentCwd

variable [Unicode]

def findFileFromPath (path : List Char) : SysM P FATFile := do
  let base ← baseDirectory (splitBase path).1
  onVolume (base.findFileComponents (normalizePathComponents (splitBase path).2))

/-- The call refuses the program of the shell by the name behind the last slash. -/
def executeFile (path : List Char) : SysM P FATFile :=
  if (path.splitOn '/').getLast? = some "shell.elf".toList then fail else findFileFromPath path

def findDirectoryFromPath (path : List Char) : SysM P FATDirectory := do
  if path = ['/'] ∨ path = ['~'] then baseDirectory true
  else
    let base ← baseDirectory (splitBase path).1
    let components := normalizePathComponents (splitBase path).2
    if components.isEmpty then pure base
    else onVolume (base.findDirectoryComponents components)

def resolveParentDirectoryAndName (path : List Char) : SysM P (FATDirectory × Component) := do
  if path.isEmpty ∨ path.getLast? = some '/' then fail
  else
    let base ← baseDirectory (splitBase path).1
    let components := normalizePathComponents (splitBase path).2
    let filename ← ofOption components.getLast?
    if filename = parentComponent then fail
    else if components.dropLast.isEmpty then pure (base, filename)
    else
      let parent ← onVolume (base.findDirectoryComponents components.dropLast)
      pure (parent, filename)

/-- The running process opens a file, and a missing process ends the call. -/
def openForCurrent (file : FATFile) (readable writable : Bool) : SysM P Nat := do
  let system ← get
  let process ← ofOption system.currentProcess
  let opened := process.openFile file readable writable
  putCurrent opened.2
  pure opened.1

def currProcessOpenFile (path : List Char) (readable writable : Bool) : SysM P Nat := do
  let file ← findFileFromPath path
  openForCurrent file readable writable

def createFileFromPath (path : List Char) : SysM P FATFile := do
  let resolved ← resolveParentDirectoryAndName path
  onVolume (resolved.1.createFile resolved.2)

def currProcessCreateFile (path : List Char) (readable writable : Bool) : SysM P Nat := do
  let file ← createFileFromPath path
  openForCurrent file readable writable

def currProcessCreateDirectory (path : List Char) : SysM P Unit := do
  let resolved ← resolveParentDirectoryAndName path
  onVolume (resolved.1.createDirectory resolved.2)

def currProcessUnlinkFile (path : List Char) : SysM P Unit := do
  let resolved ← resolveParentDirectoryAndName path
  onVolume (resolved.1.unlinkFile resolved.2)

def currProcessRemoveDirectory (path : List Char) : SysM P Unit := do
  let resolved ← resolveParentDirectoryAndName path
  onVolume (resolved.1.removeDirectory resolved.2)

omit [Unicode] in
/-- A descriptor call works on the running process and keeps its changes. -/
def onDescriptor {A : Type} (call : FatProcess → FsM P (A × FatProcess)) : SysM P A := do
  let system ← get
  let process ← ofOption system.currentProcess
  let result ← onVolume (call process)
  putCurrent result.2
  pure result.1

omit [Unicode] in
def readCurrentFileDescriptor (fd size : Nat) : SysM P (List UInt8) :=
  onDescriptor fun process => process.readFd fd size

omit [Unicode] in
def writeCurrentFileDescriptor (fd : Nat) (bytes : List UInt8) : SysM P Nat :=
  onDescriptor fun process => process.writeFd fd bytes

omit [Unicode] in
def truncateCurrentFileDescriptor (fd size : Nat) : SysM P Unit :=
  onDescriptor fun process => do
    let changed ← process.truncateFd fd size
    pure ((), changed)

omit [Unicode] in
def closeCurrentFileDescriptor (fd : Nat) : SysM P Bool :=
  onDescriptor fun process => pure (process.closeFd fd)

omit [Unicode] in
/-- A forked process takes the working directory and the descriptors of the running process. -/
def deploy (forkCurrent : Bool) : SysM P Unit := do
  let system ← get
  if forkCurrent ∧ system.processes.length ≠ 0 then
    let current ← ofOption system.currentProcess
    put { system with processes := system.processes ++ [current] }
  else
    put { system with processes := system.processes ++ [⟨system.volume.rootDir, Process.standardFdTable⟩] }

omit [Unicode] in
def exitCurrent : SysM P Unit := do
  let system ← get
  if system.currentIndex ≥ system.processes.length then pure ()
  else put { system with
    processes := system.processes.eraseIdx system.currentIndex
    currentIndex := system.currentIndex - 1 }

end Kernel

/-- A process makes these calls with data that was copied from its memory. -/
inductive SystemCall where
  | openPath (path : List Char)
  | create (path : List Char)
  | read (fd size : Nat)
  | write (fd : Nat) (bytes : List UInt8)
  | truncate (fd size : Nat)
  | close (fd : Nat)
  | unlink (path : List Char)
  | mkdir (path : List Char)
  | rmdir (path : List Char)
  | cd (path : List Char)
  | execute
  | exit

namespace SystemCall

open Kernel

variable {P : Type} [Port P] [Unicode]

/-- An opening call returns its descriptor. -/
def run : SystemCall → SysM P (Option Nat)
  | .openPath path => do
    let fd ← currProcessOpenFile path true true
    pure (some fd)
  | .create path => do
    let fd ← currProcessCreateFile path true true
    pure (some fd)
  -- a read below the third descriptor waits for the keyboard
  | .read fd size => do
    if fd ≥ 3 then
      let _ ← readCurrentFileDescriptor fd size
      pure none
    else pure none
  -- the standard streams print the bytes
  | .write fd bytes => do
    let system ← get
    match system.currentProcess.bind (·.getFd fd) with
    | some (.file _) =>
      let _ ← writeCurrentFileDescriptor fd bytes
      pure none
    | _ => pure none
  | .truncate fd size => do
    truncateCurrentFileDescriptor fd size
    pure none
  | .close fd => do
    let _ ← closeCurrentFileDescriptor fd
    pure none
  | .unlink path => do
    currProcessUnlinkFile path
    pure none
  | .mkdir path => do
    currProcessCreateDirectory path
    pure none
  | .rmdir path => do
    currProcessRemoveDirectory path
    pure none
  | .cd path => do
    if path.isEmpty then fail
    else
      let dir ← findDirectoryFromPath path
      changeCwd dir
      pure none
  | .execute => do
    deploy true
    pure none
  | .exit => do
    exitCurrent
    pure none

end SystemCall

def dirEntryNameCapacity : Nat := 256

structure SyscallDirEntry where
  name : Bytes dirEntryNameCapacity
  attr : UInt8
  size : UInt32
  deriving DecidableEq

namespace SyscallDirEntry

/-- The C layout has three bytes between the attribute and the size. -/
def byteSize : Nat := 264

/-- A name ends at the capacity of the record. -/
def ofName (name : List Char) (attr : UInt8) : SyscallDirEntry :=
  let bytes := utf8Bytes name
  let nameLen := min bytes.length dirEntryNameCapacity
  ⟨Bytes.fill 0 (bytes.take nameLen), attr, 0⟩

def toBytes (padding : Bytes 3) (entry : SyscallDirEntry) : List UInt8 :=
  entry.name.toList ++ [entry.attr] ++ padding.toList ++ le32 entry.size

/-- The padding of each record is arbitrary. -/
def layout (padding : Nat → Bytes 3) : Nat → List SyscallDirEntry → List UInt8
  | _, [] => []
  | index, entry :: rest => entry.toBytes (padding index) ++ layout padding (index + 1) rest

/-- The subdirectories come before the files. -/
def collect (directories files : List (List Char)) (maxItems : Nat) : List SyscallDirEntry :=
  let directoryEntries := (directories.map fun name => ofName name 0x10).take maxItems
  let remainingItems := maxItems - directoryEntries.length
  directoryEntries ++ (files.map fun name => ofName name 0).take remainingItems

end SyscallDirEntry

namespace Kernel

variable {P : Type} [Port P] [Unicode]

/-- The call returns the number of records and the user buffer, and it asks whether a size may be written there. -/
def readDir (maxItems : Nat) (writable : Nat → Bool) (padding : Nat → Bytes 3) (buffer : List UInt8) :
    SysM P (Nat × List UInt8) := do
  if maxItems * SyscallDirEntry.byteSize ≥ Process.usizeLimit then pure (0, buffer)
  else if !writable (maxItems * SyscallDirEntry.byteSize) then pure (0, buffer)
  else
    let cwd ← getCurrentCwd
    let entries ← onVolume cwd.listDir
    let directoryEntries := SyscallDirEntry.collect (entries.1.map (·.name)) (entries.2.map (·.name)) maxItems
    if !writable (SyscallDirEntry.byteSize * directoryEntries.length) then pure (0, buffer)
    else pure (directoryEntries.length, overwrite buffer 0 (SyscallDirEntry.layout padding 0 directoryEntries))

end Kernel

end BubbleOs
