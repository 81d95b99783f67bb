/-
This file models the library of the user programs.
-/

import BubbleOs.Library.Attempt
import BubbleOs.Library.Bytes

namespace BubbleOs

/-- A program works on files by system calls, and descriptor zero reports that no file was opened. -/
class Ulib (W : Type) where
  openFile : List UInt8 → W → Nat × W
  close : Nat → W → Bool × W
  write : Nat → List UInt8 → W → Nat × W
  truncate : Nat → Nat → W → Bool × W

namespace Ulib

/-- The file keeps as many bytes as were written. -/
def writeExistingFile {W : Type} [Ulib W] (path bytes : List UInt8) (world : W) : Bool × W :=
  let opened := openFile path world
  if opened.1 = 0 then (false, opened.2)
  else
    let written := write opened.1 bytes opened.2
    let truncated := truncate opened.1 written.1 written.2
    let closed := close opened.1 truncated.2
    (written.1 == bytes.length && truncated.1, closed.2)

def dirEntryNameCapacity : Nat := 256

def dirEntryAttrDirectory : UInt8 := 0x10

structure DirEntry where
  name : Bytes dirEntryNameCapacity
  attr : UInt8
  size : UInt32
  deriving DecidableEq

namespace DirEntry

/-- The C layout has three bytes between the attribute and the size. -/
def byteSize : Nat := 264

def isDirectory (entry : DirEntry) : Bool := entry.attr &&& dirEntryAttrDirectory != 0

/-- The name ends before the first zero byte or fills the array. -/
def nameBytes (entry : DirEntry) : List UInt8 := entry.name.toList.takeWhile (· != 0)

def ofBytes (bytes : List UInt8) : DirEntry where
  name := Bytes.fill 0 (bytes.take dirEntryNameCapacity)
  attr := bytes.getD 256 0
  size := ofLe32 (bytes.getD 260 0) (bytes.getD 261 0) (bytes.getD 262 0) (bytes.getD 263 0)

/-- The records stand one after the other in the buffer. -/
def readAll : Nat → List UInt8 → List DirEntry
  | 0, _ => []
  | count + 1, bytes => ofBytes bytes :: readAll count (bytes.drop byteSize)

end DirEntry

structure Args where
  argc : Nat
  argv : Nat
  index : Nat

/-- The bytes before the first zero byte are read, and a string without one leaves the address space. -/
def readString (memory : FlatMemory) : Nat → Nat → Outcome (List UInt8)
  | 0, _ => .hang
  | fuel + 1, addr =>
    if memory addr = 0 then .value []
    else
      match readString memory fuel (addr + 1) with
      | .value rest => .value (memory addr :: rest)
      | other => other

def addressLimit : Nat := 18446744073709551616

namespace Args

def new (argc argv : Nat) : Args := ⟨argc, argv, 0⟩

def len (args : Args) : Nat := args.argc

def isEmpty (args : Args) : Bool := args.argc == 0

def get (memory : FlatMemory) (args : Args) (index : Nat) : Outcome (List UInt8) :=
  if index ≥ args.argc then .missing
  else
    let arg := memory.loadWord (args.argv + 8 * index)
    if arg = 0 then .missing else readString memory (addressLimit - arg) arg

def next (memory : FlatMemory) (args : Args) : Outcome (List UInt8 × Args) :=
  match args.get memory args.index with
  | .value arg => .value (arg, { args with index := args.index + 1 })
  | .missing => .missing
  | .hang => .hang

/-- The arguments are taken one by one until none is left. -/
def collect (memory : FlatMemory) : Nat → Args → Outcome (List (List UInt8))
  | 0, _ => .hang
  | fuel + 1, args =>
    match args.next memory with
    | .missing => .value []
    | .hang => .hang
    | .value (arg, later) =>
      match collect memory fuel later with
      | .value rest => .value (arg :: rest)
      | other => other

end Args

end Ulib

end BubbleOs
