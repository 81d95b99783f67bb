/-
This file models page table entries, physical memory and the state of the memory controller.
-/

import BubbleOs.Library.Bytes
import BubbleOs.Library.Attempt

namespace BubbleOs.Paging

def pageSize : Nat := 4096

abbrev EntryFlags := Word

namespace EntryFlags

def present : EntryFlags := 0x1
def writable : EntryFlags := 0x2
def ring3Accessible : EntryFlags := 0x4
def hugePage : EntryFlags := 0x80
def noExecute : EntryFlags := 0x8000000000000000

/-- An entry keeps flags in its low nine bits and in its top bit. -/
def all : EntryFlags := 0x80000000000001FF

def contains (flags required : EntryFlags) : Bool := flags &&& required == required

end EntryFlags

abbrev PageTableEntry := Word

namespace PageTableEntry

def isUnused (entry : PageTableEntry) : Bool := entry == 0

def flags (entry : PageTableEntry) : EntryFlags := entry &&& EntryFlags.all

/-- Only a present entry has a frame. -/
def getFrame (entry : PageTableEntry) : Option Nat :=
  if entry.flags.contains .present then some ((entry &&& 0x000FFFFFFFFFF000).toNat / pageSize) else none

/-- A frame behind the supported physical addresses fails an assertion. -/
def ofFrame (frame : Nat) (flags : EntryFlags) : Option PageTableEntry :=
  if frame * pageSize < 0x10000000000000 then some (BitVec.ofNat 64 (frame * pageSize) ||| flags) else none

end PageTableEntry

/-- A table has five hundred and twelve entries. -/
abbrev TableIndex := Fin 512

structure Page where
  pageNumber : Nat
  deriving DecidableEq

namespace Page

def forAddress (addr : Nat) : Page := ⟨addr / pageSize⟩

def startAddress (page : Page) : Nat := page.pageNumber * pageSize

/-- Every index keeps nine bits of the page number. -/
def indexAt (page : Page) (shift : Nat) : TableIndex :=
  ⟨(page.pageNumber >>> shift) &&& 0o777, Nat.lt_of_le_of_lt Nat.and_le_right (by decide)⟩

def p4Index (page : Page) : TableIndex := page.indexAt 27
def p3Index (page : Page) : TableIndex := page.indexAt 18
def p2Index (page : Page) : TableIndex := page.indexAt 9
def p1Index (page : Page) : TableIndex := page.indexAt 0

end Page

/-- The iterator returns every page up to the last one. -/
structure PageIter where
  start : Page
  last : Page

namespace PageIter

def next (iter : PageIter) : Option (Page × PageIter) :=
  if iter.start.pageNumber > iter.last.pageNumber then none
  else some (iter.start, { iter with start := ⟨iter.start.pageNumber + 1⟩ })

/-- The iterator skips pages before it returns one. -/
def nth (iter : PageIter) : Nat → Option (Page × PageIter)
  | 0 => iter.next
  | count + 1 =>
    match iter.next with
    | none => none
    | some (_, rest) => rest.nth count

/-- These are the pages that the iterator returns. -/
def pages (iter : PageIter) : List Page :=
  (List.range' iter.start.pageNumber (iter.last.pageNumber + 1 - iter.start.pageNumber)).map Page.mk

end PageIter

def Page.range (start last : Page) : PageIter := ⟨start, last⟩

/-- Physical memory holds five hundred and twelve words in each frame. -/
abbrev Memory := Nat → TableIndex → Word

namespace Memory

def write (memory : Memory) (frame : Nat) (index : TableIndex) (word : Word) : Memory := fun otherFrame otherIndex =>
  if otherFrame = frame ∧ otherIndex = index then word else memory otherFrame otherIndex

def copyFrame (memory : Memory) (source target : Nat) : Memory := fun frame index =>
  if frame = target then memory source index else memory frame index

/-- The change gives a new byte for every offset of the frame. -/
def patch (memory : Memory) (target : Nat) (change : Nat → UInt8 → UInt8) : Memory := fun frame index =>
  if frame = target then
    Word.ofBytes fun offset => change (8 * index.val + offset) ((memory frame index).byteAt offset)
  else memory frame index

def byte (memory : Memory) (frame offset : Nat) : UInt8 :=
  (memory frame (Fin.ofNat 512 (offset / 8))).byteAt (offset % 8)

end Memory

/-- The upper bits of a canonical address are equal. -/
def canonical (addr : Nat) : Bool :=
  addr < 0x800000000000 || (0xFFFF800000000000 ≤ addr && addr < 0x10000000000000000)

/-- A walk of the processor ends at a leaf entry and gives the frame of the address. -/
structure Translation where
  entry : PageTableEntry
  frame : Nat
  writable : Bool

def isHuge (entry : PageTableEntry) : Bool := entry.flags.contains .hugePage

def isWritable (entry : PageTableEntry) : Bool := entry.flags.contains .writable

/-- The processor stops at a huge page at level three or two and rejects one at level four. -/
def hardwareWalk (memory : Memory) (pml4 addr : Nat) : Option Translation := do
  guard (canonical addr)
  let page := Page.forAddress addr
  let entry4 : PageTableEntry := memory pml4 page.p4Index
  let pml3 ← entry4.getFrame
  guard (!isHuge entry4)
  let entry3 : PageTableEntry := memory pml3 page.p3Index
  let pml2 ← entry3.getFrame
  if isHuge entry3 then
    some ⟨entry3, pml2 / 262144 * 262144 + page.pageNumber % 262144, isWritable entry4 && isWritable entry3⟩
  else
    let entry2 : PageTableEntry := memory pml2 page.p2Index
    let pml1 ← entry2.getFrame
    let upper := isWritable entry4 && isWritable entry3 && isWritable entry2
    if isHuge entry2 then some ⟨entry2, pml1 / 512 * 512 + page.pageNumber % 512, upper⟩
    else
      let entry1 : PageTableEntry := memory pml1 page.p1Index
      let frame ← entry1.getFrame
      some ⟨entry1, frame, upper && isWritable entry1⟩

open Attempt

def pageTableRegionStart : Nat := 0x6BCF00000000

/-- The kernel names a table by the virtual address of its slot or of the window. -/
structure PageTable where
  addr : Nat
  deriving DecidableEq

/-- The window is one virtual page with a frame that the kernel changes. -/
structure TempMapper where
  tempAddr : Nat
  frame : Nat

/-- The last freed frame is the first of the list. -/
structure SimplePageFrameAllocator where
  frameHead : Nat
  memEnd : Nat
  freeFrames : List Nat

/-- The last freed slot is the first of the list. -/
structure PageTableSlotAllocator where
  regionStart : Nat
  pml1Count : Nat
  lastPml1Slot : Nat
  allocatedPageTables : Nat
  freeSlots : List Nat

structure Stack where
  top : Nat
  bottom : Nat
  deriving DecidableEq

structure FreeStackRange where
  start : Page
  last : Page
  userPages : Nat

structure StackAllocator where
  range : PageIter
  freeRanges : List FreeStackRange

structure MemoryController where
  memory : Memory
  cr3 : Nat
  activeTable : PageTable
  kernelTable : PageTable
  frameAllocator : SimplePageFrameAllocator
  stackAllocator : StackAllocator
  slotAllocator : PageTableSlotAllocator
  tempMapper : TempMapper

abbrev McM := Attempt MemoryController

namespace MemoryController

/-- The processor finds the frame of an address and whether a write to it is permitted. -/
def frameFor (mc : MemoryController) (addr : Nat) : Option (Nat × Bool) :=
  if addr / pageSize = mc.tempMapper.tempAddr / pageSize then some (mc.tempMapper.frame, true)
  else (hardwareWalk mc.memory mc.cr3 addr).map fun translation => (translation.frame, translation.writable)

/-- A page fault ends the run of the kernel. -/
def readEntry (table : PageTable) (index : TableIndex) : McM PageTableEntry := fun mc =>
  match mc.frameFor table.addr with
  | some (frame, _) => (.value (mc.memory frame index), mc)
  | none => (.hang, mc)

def writeEntry (table : PageTable) (index : TableIndex) (entry : PageTableEntry) : McM Unit := fun mc =>
  match mc.frameFor table.addr with
  | some (frame, true) => (.value (), { mc with memory := mc.memory.write frame index entry })
  | _ => (.hang, mc)

def readEntries (table : PageTable) : McM (List PageTableEntry) := fun mc =>
  match mc.frameFor table.addr with
  | some (frame, _) => (.value (List.ofFn (mc.memory frame)), mc)
  | none => (.hang, mc)

/-- The bytes of one page inside the written range come from the source. -/
def writePage (page : Page) (addr size : Nat) (source : Nat → UInt8) : McM Unit := fun mc =>
  match mc.frameFor page.startAddress with
  | some (frame, true) =>
    (.value (), { mc with
      memory := mc.memory.patch frame fun offset old =>
        if addr ≤ page.startAddress + offset ∧ page.startAddress + offset < addr + size then
          source (page.startAddress + offset - addr)
        else old })
  | _ => (.hang, mc)

def writePages (addr size : Nat) (source : Nat → UInt8) : List Page → McM Unit
  | [] => pure ()
  | page :: rest => do
    writePage page addr size source
    writePages addr size source rest

/-- Memory is written page by page through the active table. -/
def writeBytes (addr size : Nat) (source : Nat → UInt8) : McM Unit :=
  if size = 0 then pure ()
  else writePages addr size source (Page.range (.forAddress addr) (.forAddress (addr + size - 1))).pages

/-- The words of one page replace the words of another. -/
def copyPage (source target : Nat) : McM Unit := fun mc =>
  match mc.frameFor source, mc.frameFor target with
  | some (sourceFrame, _), some (targetFrame, true) =>
    (.value (), { mc with memory := mc.memory.copyFrame sourceFrame targetFrame })
  | _, _ => (.hang, mc)

end MemoryController

namespace TempMapper

/-- An unsupported frame fails an assertion. -/
def set (frame : Nat) : McM Nat := fun mc =>
  match PageTableEntry.ofFrame frame (.present ||| .writable) with
  | some _ => (.value mc.tempMapper.tempAddr, { mc with tempMapper := { mc.tempMapper with frame := frame } })
  | none => (.hang, mc)

def getCurrentPhys : McM Nat := fun mc => (.value mc.tempMapper.frame, mc)

end TempMapper

namespace SimplePageFrameAllocator

/-- The frame of the start is not handed out. -/
def new (memStart memEnd : Nat) : SimplePageFrameAllocator := ⟨memStart / pageSize, memEnd / pageSize, []⟩

/-- The subtraction in the bound check panics on an underflow. -/
def falloc : McM Nat := fun mc =>
  let allocator := mc.frameAllocator
  match allocator.freeFrames with
  | frame :: rest => (.value frame, { mc with frameAllocator := { allocator with freeFrames := rest } })
  | [] =>
    let endAddr := allocator.memEnd * pageSize
    let nextAddr := allocator.frameHead * pageSize + pageSize
    if endAddr < nextAddr then (.hang, mc)
    else if endAddr - nextAddr < 4096 then (.missing, mc)
    else
      (.value (nextAddr / pageSize),
        { mc with frameAllocator := { allocator with frameHead := nextAddr / pageSize } })

def free (frame : Nat) : McM Unit := fun mc =>
  (.value (), { mc with
    frameAllocator := { mc.frameAllocator with freeFrames := frame :: mc.frameAllocator.freeFrames } })

end SimplePageFrameAllocator

end BubbleOs.Paging
