/-
This file models the argument frame, the parser of ELF files, and the load and the release of a process.
-/

import BubbleOs.Construction.Paging.Table

namespace BubbleOs.Elf

open Attempt Paging

/-- The stack is written through the table of the process. -/
abbrev StackM := Attempt FlatMemory

def addressLimit : Nat := 18446744073709551616

/-- Every string is followed by a zero byte. -/
def stringBytes (argv : List (List UInt8)) : Nat := (argv.map fun arg => arg.length + 1).sum

/-- The pointer and the bytes of each argument are written. -/
def writeArgs (frame : Nat) : Nat → Nat → List (List UInt8) → FlatMemory → FlatMemory
  | _, _, [], memory => memory
  | index, stringAddr, arg :: rest, memory =>
    let pointed := memory.storeWord (frame + 8 * (1 + index)) stringAddr
    let copied := pointed.store stringAddr arg
    let closed := copied.store (stringAddr + arg.length) [0]
    writeArgs frame (index + 1) (stringAddr + (arg.length + 1)) rest closed

/-- A frame that does not fit into the stack is not written, and the sum of the lengths panics on an overflow. -/
def writeArgsFrame (stack : Stack) (argv : List (List UInt8)) : StackM Nat := do
  if addressLimit ≤ stringBytes argv then halt
  else if stack.top < stringBytes argv then fail
  else
    let stringsBase := stack.top - stringBytes argv
    let frameWords := argv.length + 3
    if addressLimit ≤ frameWords then fail
    else
      let frameSize := frameWords * 8
      if addressLimit ≤ frameSize then fail
      else if stringsBase < frameSize then fail
      else
        let frameBase := (stringsBase - frameSize) / 16 * 16
        if frameBase < stack.bottom then fail
        else
          let memory ← get
          let counted := memory.storeWord frameBase argv.length
          let written := writeArgs frameBase 0 stringsBase argv counted
          let closed := written.storeWord (frameBase + 8 * (1 + argv.length)) 0
          put (closed.storeWord (frameBase + 8 * (2 + argv.length)) 0)
          pure frameBase

/-- The loader reads the file buffer. -/
abbrev LoadM := Attempt (List UInt8)

/-- The lowest byte comes first. -/
def littleEndian : List UInt8 → Nat
  | [] => 0
  | byte :: rest => byte.toNat + 256 * littleEndian rest

/-- This is the number in some bytes of the file. -/
def field (file : List UInt8) (offset width : Nat) : Nat := littleEndian ((file.drop offset).take width)

/-- A read behind the end of the buffer is a fault. -/
def readField (offset width : Nat) : LoadM Nat := do
  let file ← get
  if offset + width ≤ file.length then pure (field file offset width) else halt

/-- A copy from behind the end of the buffer is a fault. -/
def readBytes (offset count : Nat) : LoadM (List UInt8) := do
  let file ← get
  if offset + count ≤ file.length then pure ((file.drop offset).take count) else halt

/-- The loader reads these fields of the file header. -/
structure ElfHeader64 where
  entryAddr : Nat
  phOffset : Nat
  phEntrySize : Nat
  phNum : Nat

/-- A region keeps its memory range, its flags and its range in the file. -/
structure ElfRegion where
  addr : Nat
  size : Nat
  flags : Nat
  originOffset : Nat
  originSize : Nat
  deriving DecidableEq

def headerSize : Nat := 64

def elfMagic : Nat := 0x7F454C46

/-- The sixteen-bit product of the index and the entry size must not overflow. -/
def entryLimit : Nat := 65536

/-- Every later region becomes the successor of the first region. -/
def linkRegion (regions : List ElfRegion) (region : ElfRegion) : List ElfRegion :=
  match regions with
  | [] => [region]
  | first :: _ => [first, region]

/-- One turn of the loop reads one program header. -/
def loadPhHeader (header : ElfHeader64) (regions : List ElfRegion) (index : Nat) : LoadM (List ElfRegion) := do
  if entryLimit ≤ index * header.phEntrySize then halt
  else
    let base := header.phOffset + index * header.phEntrySize
    let phType ← readField base 4
    if phType ≠ 1 then pure regions
    else
      let addr ← readField (base + 16) 8
      let size ← readField (base + 40) 8
      if size = 0 then fail
      else
        let fileSize ← readField (base + 32) 8
        if size < fileSize then fail
        else
          let offset ← readField (base + 8) 8
          let file ← get
          if addressLimit ≤ offset + fileSize then fail
          else if file.length < offset + fileSize then fail
          else
            let flags ← readField (base + 4) 4
            pure (linkRegion regions ⟨addr, size, flags, offset, fileSize⟩)

def loadPhLoop (header : ElfHeader64) : List Nat → List ElfRegion → LoadM (List ElfRegion)
  | [], regions => pure regions
  | index :: rest, regions => do
    let regions ← loadPhHeader header regions index
    loadPhLoop header rest regions

def loadPhHeaders (header : ElfHeader64) : LoadM (List ElfRegion) := do
  let file ← get
  let phTableEnd := header.phOffset + header.phNum * header.phEntrySize
  if addressLimit ≤ phTableEnd then fail
  else if file.length < phTableEnd then fail
  else
    let regions ← loadPhLoop header (List.range header.phNum) []
    if regions.isEmpty then fail else pure regions

def readMagic : LoadM Nat := do
  let first ← readField 0 1
  let second ← readField 1 1
  let third ← readField 2 1
  let fourth ← readField 3 1
  pure (16777216 * first + 65536 * second + 256 * third + fourth)

def readHeader : LoadM ElfHeader64 := do
  let entryAddr ← readField 24 8
  let phOffset ← readField 32 8
  let phEntrySize ← readField 54 2
  let phNum ← readField 56 2
  pure ⟨entryAddr, phOffset, phEntrySize, phNum⟩

/-- The result is the entry address and the linked regions. -/
def load : LoadM (Nat × List ElfRegion) := do
  let file ← get
  if file.length < headerSize then fail
  else
    let magic ← readMagic
    if magic ≠ elfMagic then fail
    else
      let header ← readHeader
      let regions ← loadPhHeaders header
      pure (header.entryAddr, regions)

/-- The debug build stops when the last address of the region overflows. -/
def regionPages (region : ElfRegion) : LoadM (Nat × Nat) :=
  if addressLimit ≤ region.addr + region.size then halt
  else pure (region.addr / pageSize, (region.addr + region.size - 1) / pageSize)

/-- A size becomes negative in the signed type when its highest bit is set. -/
def signed (size : Nat) : Int := if size < 9223372036854775808 then size else size - 18446744073709551616

/-- The bytes of the file are followed by zeros, and the debug build stops when the signed difference overflows. -/
def regionBytes (region : ElfRegion) : LoadM (List UInt8) := do
  if region.size < region.originSize then fail
  else
    let bytes ← readBytes region.originOffset region.originSize
    let bssSize := signed region.size - signed region.originSize
    if bssSize < -9223372036854775808 ∨ 9223372036854775807 < bssSize then halt
    else pure (bytes ++ List.replicate bssSize.toNat 0)

/-- The first loop finds the pages of every region. -/
def mapRegions : List ElfRegion → LoadM (List (Nat × Nat))
  | [] => pure []
  | region :: rest => do
    let pages ← regionPages region
    let later ← mapRegions rest
    pure (pages :: later)

/-- The second loop copies every region from the file. -/
def copyRegions : List ElfRegion → LoadM (List (List UInt8))
  | [] => pure []
  | region :: rest => do
    let bytes ← regionBytes region
    let later ← copyRegions rest
    pure (bytes :: later)

/-- The loops of a load run after the parser has accepted the file. -/
def loadRegions : LoadM (List (Nat × Nat) × List (List UInt8)) := do
  let loaded ← load
  let pages ← mapRegions loaded.2
  let images ← copyRegions loaded.2
  pure (pages, images)

open MemoryController

def userStackPages : Nat := 32

/-- The process starts with its own table and stack. -/
structure ProcessEntry where
  entry : Nat
  regions : List ElfRegion
  table : PageTable
  stack : Stack
  initialRsp : Nat

/-- A region without any flag is closed to user code. -/
def toEntryFlags (flags : Nat) : EntryFlags :=
  (if flags ≠ 0 then EntryFlags.ring3Accessible else 0) |||
    (if flags &&& 2 = 2 then EntryFlags.writable else 0) |||
    (if flags &&& 1 = 1 then 0 else EntryFlags.noExecute)

/-- The debug build stops when the last address of a region overflows or does not exist. -/
def mapRegion (table : PageTable) (region : ElfRegion) : McM Unit :=
  if addressLimit ≤ region.addr + region.size ∨ region.addr + region.size = 0 then halt
  else
    table.mapRange PageTableSlotAllocator.alloc (.forAddress region.addr)
      (.forAddress (region.addr + region.size - 1)) (toEntryFlags region.flags)

def mapAll (table : PageTable) : List ElfRegion → McM Unit
  | [] => pure ()
  | region :: rest => do
    mapRegion table region
    mapAll table rest

/-- The bytes of the file are copied, and the rest of the region is cleared. -/
def copyRegion (file : List UInt8) (region : ElfRegion) : McM Unit := do
  if region.size < region.originSize then fail
  else
    writeBytes region.addr region.originSize fun offset => file.getD (region.originOffset + offset) 0
    let bssSize := signed region.size - signed region.originSize
    if bssSize < -9223372036854775808 ∨ 9223372036854775807 < bssSize then halt
    else writeBytes (region.addr + region.originSize) bssSize.toNat fun _ => 0

def copyAll (file : List UInt8) : List ElfRegion → McM Unit
  | [] => pure ()
  | region :: rest => do
    copyRegion file region
    copyAll file rest

/-- A region is cleared before its pages are unmapped. -/
def unmapRegion (region : ElfRegion) : McM Unit := do
  if region.size = 0 then pure ()
  else
    writeBytes region.addr region.size fun _ => 0
    if addressLimit ≤ region.addr + region.size then halt
    else unmap (.forAddress region.addr) (.forAddress (region.addr + region.size - 1))

def unmapRegions : List ElfRegion → McM Unit
  | [] => pure ()
  | region :: rest => do
    unmapRegion region
    unmapRegions rest

def storeWord (addr value : Nat) : McM Unit := writeBytes addr 8 fun index => UInt8.ofNat (value / 256 ^ index)

/-- The pointer and the bytes of each argument are written. -/
def storeArgs (frame : Nat) : Nat → Nat → List (List UInt8) → McM Unit
  | _, _, [] => pure ()
  | index, stringAddr, arg :: rest => do
    storeWord (frame + 8 * (1 + index)) stringAddr
    writeBytes stringAddr arg.length fun offset => arg.getD offset 0
    writeBytes (stringAddr + arg.length) 1 fun _ => 0
    storeArgs frame (index + 1) (stringAddr + (arg.length + 1)) rest

/-- The place of the frame does not depend on the memory, and its words are written through the active table. -/
def storeArgsFrame (stack : Stack) (argv : List (List UInt8)) : McM Nat :=
  match (writeArgsFrame stack argv fun _ => 0).1 with
  | .value frameBase => do
    storeWord frameBase argv.length
    storeArgs frameBase 0 (stack.top - stringBytes argv) argv
    storeWord (frameBase + 8 * (1 + argv.length)) 0
    storeWord (frameBase + 8 * (2 + argv.length)) 0
    pure frameBase
  | .missing => fail
  | .hang => halt

/-- The steps of a failed load that follow the parser are undone by hand. -/
def undoLoad (previous : PageTable) (regions : List ElfRegion) : McM Unit := do
  unmapRegions regions
  let _ ← orNone (switchTable previous)
  pure ()

/-- The regions are mapped and copied, and the process gets a stack with its arguments. -/
def loadInto (file : List UInt8) (argv : List (List UInt8)) (entry : Nat) (regions : List ElfRegion)
    (table previous : PageTable) : McM ProcessEntry := do
  mapAll table regions
  match ← orNone (copyAll file regions) with
  | none =>
    undoLoad previous regions
    fail
  | some () =>
    match ← orNone (StackAllocator.alloc table userStackPages (.writable ||| .ring3Accessible)) with
    | none =>
      undoLoad previous regions
      fail
    | some stack =>
      match ← orNone (storeArgsFrame stack argv) with
      | none =>
        freeStack stack
        undoLoad previous regions
        fail
      | some initialRsp =>
        let _ ← switchTable previous
        pure ⟨entry, regions, table, stack, initialRsp⟩

/-- The file is loaded under a copy of the kernel table. -/
def elfLoad (file : List UInt8) (argv : List (List UInt8)) : McM ProcessEntry :=
  match (load file).1 with
  | .value (entry, regions) => do
    let table ← cloneKernelTable
    let previous ← switchTable table
    loadInto file argv entry regions table previous
  | .missing => fail
  | .hang => halt

/-- The memory of a process is released while its table is active. -/
def releaseProcess (process : ProcessEntry) : McM Unit := do
  unmapRegions process.regions
  freeStack process.stack
  process.table.freeUserSubtables
  PageTableSlotAllocator.free process.table.addr

end BubbleOs.Elf
