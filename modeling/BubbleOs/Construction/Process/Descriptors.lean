/-
This file models the file descriptors of a process and its system calls on any file system.
-/

import BubbleOs.Construction.Fat.Path
import BubbleOs.Construction.Ulib.Lib
import BubbleOs.Library.Utf8

namespace BubbleOs

open Attempt

structure OpenFile (F : Type) where
  file : F
  offset : Nat
  readable : Bool
  writable : Bool
  deriving DecidableEq

inductive FileDescriptor (F : Type) where
  | stdin
  | stdout
  | stderr
  | file (openFile : OpenFile F)
  deriving DecidableEq

/-- A process keeps a working directory and a table of descriptors. -/
structure Process (D F : Type) where
  currWorkingDir : D
  fdTable : List (Option (FileDescriptor F))
  deriving DecidableEq

namespace Process

variable {D F : Type}

/-- Checked additions stay below the pointer size. -/
def usizeLimit : Nat := 18446744073709551616

def standardFdTable : List (Option (FileDescriptor F)) := [some .stdin, some .stdout, some .stderr]

/-- The first closed descriptor after the standard streams is used again. -/
def freeFd (process : Process D F) : Option Nat :=
  (List.range' 3 (process.fdTable.length - 3)).find? fun fd => (process.fdTable[fd]?.getD none).isNone

def openFile (process : Process D F) (file : F) (readable writable : Bool) : Nat × Process D F :=
  let descriptor := some (.file ⟨file, 0, readable, writable⟩)
  match process.freeFd with
  | some fd => (fd, { process with fdTable := process.fdTable.set fd descriptor })
  | none => (process.fdTable.length, { process with fdTable := process.fdTable ++ [descriptor] })

def closeFd (process : Process D F) (fd : Nat) : Bool × Process D F :=
  if fd < 3 ∨ fd ≥ process.fdTable.length then (false, process)
  else (true, { process with fdTable := process.fdTable.set fd none })

def getFd (process : Process D F) (fd : Nat) : Option (FileDescriptor F) := (process.fdTable[fd]?).join

/-- The call moves the offset of one open descriptor. -/
def moveOffset (process : Process D F) (fd : Nat) (openFile : OpenFile F) (offset : Nat) : Process D F :=
  { process with fdTable := process.fdTable.set fd (some (.file { openFile with offset := offset })) }

section Calls

variable {S A : Type}

/-- A call needs an open file behind its descriptor. -/
def withFile (process : Process D F) (fd : Nat) (call : OpenFile F → Attempt S A) : Attempt S A :=
  match process.getFd fd with
  | some (.file openFile) => call openFile
  | _ => fail

variable [Fs.File S F]

def readFd (process : Process D F) (fd size : Nat) : Attempt S (List UInt8 × Process D F) :=
  process.withFile fd fun openFile =>
    if !openFile.readable then fail
    else do
      let fileBytes ← Fs.File.read openFile.file
      if openFile.offset ≥ fileBytes.length then pure ([], process)
      else
        let requestedEnd :=
          if openFile.offset + size < usizeLimit then openFile.offset + size else fileBytes.length
        let last := min requestedEnd fileBytes.length
        pure ((fileBytes.take last).drop openFile.offset, process.moveOffset fd openFile last)

def writeFd (process : Process D F) (fd : Nat) (bytes : List UInt8) : Attempt S (Nat × Process D F) :=
  process.withFile fd fun openFile =>
    if !openFile.writable then fail
    else if openFile.offset + bytes.length ≥ usizeLimit then fail
    else do
      let size ← Fs.File.size openFile.file
      if openFile.offset + bytes.length > size then
        Fs.File.truncate openFile.file (openFile.offset + bytes.length)
      let bytesWritten ← Fs.File.write openFile.file openFile.offset bytes
      pure (bytesWritten, process.moveOffset fd openFile (openFile.offset + bytesWritten))

def truncateFd (process : Process D F) (fd size : Nat) : Attempt S (Process D F) :=
  process.withFile fd fun openFile =>
    if !openFile.writable then fail
    else do
      Fs.File.truncate openFile.file size
      pure (process.moveOffset fd openFile (min openFile.offset size))

end Calls

end Process

open Text

/-- The kernel finds a file from the working directory of a process. -/
class Fs.Lookup (S D F : Type) where
  findFileFromPath : D → List Char → Attempt S F

/-- The running process works on the state of a file system. -/
structure Machine (S D F : Type) where
  process : Process D F
  files : S

namespace Machine

variable {S D F : Type}

/-- A failed call gives its own answer, and a call that never returns has none that a program sees. -/
def answer {A : Type} (failed : A) (call : Attempt S (A × Process D F)) (machine : Machine S D F) :
    A × Machine S D F :=
  match call machine.files with
  | (.value result, files) => (result.1, ⟨result.2, files⟩)
  | (_, files) => (failed, { machine with files := files })

instance [Fs.File S F] [Fs.Lookup S D F] : Ulib (Machine S D F) where
  openFile path machine :=
    match fromUtf8 path with
    | none => (0, machine)
    | some text =>
      machine.answer 0 do
        let file ← Fs.Lookup.findFileFromPath machine.process.currWorkingDir (trim text)
        pure (machine.process.openFile file true true)
  close fd machine :=
    let closed := machine.process.closeFd fd
    (closed.1, { machine with process := closed.2 })
  write fd bytes machine :=
    match machine.process.getFd fd with
    -- the standard streams print a text
    | some .stdout => (if (fromUtf8 bytes).isSome then bytes.length else 0, machine)
    | some .stderr => (if (fromUtf8 bytes).isSome then bytes.length else 0, machine)
    | some (.file _) => machine.answer 0 (machine.process.writeFd fd bytes)
    | _ => (0, machine)
  truncate fd size machine :=
    machine.answer false do
      let changed ← machine.process.truncateFd fd size
      pure (true, changed)

end Machine

end BubbleOs
