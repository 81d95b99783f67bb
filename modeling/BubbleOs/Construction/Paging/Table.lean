/-
This file models the page tables, the allocators of slots and stacks, and the calls of the memory controller.
-/

import BubbleOs.Construction.Paging.Controller

namespace BubbleOs.Paging

open Attempt

namespace PageTable

open MemoryController

/-- The next table is read through the window. -/
def nextTableTemp (table : PageTable) (index : TableIndex) : McM PageTable := do
  let entry ← readEntry table index
  if entry.isUnused then fail
  else
    let frame ← ofOption entry.getFrame
    let addr ← TempMapper.set frame
    pure ⟨addr⟩

/-- The walk ends at the table of the last level. -/
def lastTable (table : PageTable) (page : Page) : McM PageTable := do
  let pml3 ← table.nextTableTemp page.p4Index
  let pml2 ← pml3.nextTableTemp page.p3Index
  pml2.nextTableTemp page.p2Index

def translateToPhys (table : PageTable) (addr : Nat) : McM Nat := do
  let page := Page.forAddress addr
  let pml1 ← table.lastTable page
  let entry ← readEntry pml1 page.p1Index
  ofOption entry.getFrame

/-- An entry without a frame ends in a panic of the assertion. -/
def setEntry (table : PageTable) (index : TableIndex) (frame : Nat) (flags : EntryFlags) : McM Unit :=
  match PageTableEntry.ofFrame frame flags with
  | some entry => writeEntry table index entry
  | none => halt

/-- An existing entry gets the missing flags, and an unused entry gets a table from a new slot. -/
def nextTableCreate (alloc : McM Nat) (table : PageTable) (index : TableIndex) (flags : EntryFlags) :
    McM PageTable := do
  let entry ← readEntry table index
  if entry.isUnused then
    let slot ← unwrap alloc
    let currentPhys ← TempMapper.getCurrentPhys
    let slotPhys ← unwrap (translateToPhys ⟨pageTableRegionStart⟩ slot)
    let _ ← TempMapper.set currentPhys
    table.setEntry index slotPhys flags
    pure ⟨slot⟩
  else
    let existing := entry.flags
    if !existing.contains flags && !existing.contains .hugePage then
      match entry.getFrame with
      | some frame => table.setEntry index frame (existing ||| flags)
      | none => pure ()
    unwrap (table.nextTableTemp index)

/-- Every table on the way to a user page is accessible to user code. -/
def tableFlags (flags : EntryFlags) : EntryFlags :=
  if flags.contains .ring3Accessible then .present ||| .writable ||| .ring3Accessible else .present ||| .writable

def mapTo (alloc : McM Nat) (table : PageTable) (page : Page) (frame : Nat) (flags : EntryFlags) : McM Unit := do
  let pml3 ← table.nextTableCreate alloc page.p4Index (tableFlags flags)
  let pml2 ← pml3.nextTableCreate alloc page.p3Index (tableFlags flags)
  let pml1 ← pml2.nextTableCreate alloc page.p2Index (tableFlags flags)
  pml1.setEntry page.p1Index frame (flags ||| .present)

def map (alloc : McM Nat) (table : PageTable) (page : Page) (flags : EntryFlags) : McM Unit := do
  let frame ← unwrap SimplePageFrameAllocator.falloc
  table.mapTo alloc page frame flags

/-- The pages are mapped one by one. -/
def mapPages (alloc : McM Nat) (table : PageTable) (flags : EntryFlags) : List Page → McM Unit
  | [] => pure ()
  | page :: rest => do
    table.map alloc page flags
    table.mapPages alloc flags rest

def mapRange (alloc : McM Nat) (table : PageTable) (start last : Page) (flags : EntryFlags) : McM Unit :=
  table.mapPages alloc flags (Page.range start last).pages

def unmap (table : PageTable) (page : Page) : McM Nat := do
  let pml1 ← table.lastTable page
  let entry ← readEntry pml1 page.p1Index
  let frame ← ofOption entry.getFrame
  writeEntry pml1 page.p1Index 0
  pure frame

/-- The page is unused when a table is missing or its entry is zero. -/
def isUnused (table : PageTable) (page : Page) : McM Bool := do
  match ← orNone (table.lastTable page) with
  | none => pure true
  | some pml1 =>
    let entry ← readEntry pml1 page.p1Index
    pure entry.isUnused

/-- The callback rejects an entry by a false answer. -/
def walkPages (table : PageTable) (callback : Page → PageTableEntry → Bool) : List Page → McM Unit
  | [] => pure ()
  | page :: rest => do
    let pml1 ← table.lastTable page
    let entry ← readEntry pml1 page.p1Index
    if callback page entry then table.walkPages callback rest else fail

/-- The last address of the range must not overflow. -/
def walkRangeEntries (table : PageTable) (addr size : Nat) (callback : Page → PageTableEntry → Bool) : McM Unit :=
  if size = 0 then pure ()
  else if 0x10000000000000000 ≤ addr + (size - 1) then fail
  else table.walkPages callback (Page.range (.forAddress addr) (.forAddress (addr + (size - 1)))).pages

def isUserTableEntry (entry : PageTableEntry) : Bool :=
  entry.flags.contains .present && entry.flags.contains .ring3Accessible && !entry.flags.contains .hugePage

/-- A user table entry gives the frame of the next table. -/
def userTable (entry : PageTableEntry) : Option Nat := if isUserTableEntry entry then entry.getFrame else none

/-- The tables of level two are visited through the window. -/
def collectPml2 : List PageTableEntry → McM (List Nat)
  | [] => pure []
  | entry :: rest =>
    match userTable entry with
    | none => collectPml2 rest
    | some frame => do
      let addr ← TempMapper.set frame
      let entries ← readEntries ⟨addr⟩
      let others ← collectPml2 rest
      pure (frame :: entries.filterMap userTable ++ others)

def collectPml3 (table : PageTable) : List TableIndex → McM (List Nat)
  | [] => pure []
  | index :: rest => do
    let entry ← readEntry table index
    match userTable entry with
    | none => collectPml3 table rest
    | some frame =>
      let addr ← TempMapper.set frame
      let entries ← readEntries ⟨addr⟩
      let inner ← collectPml2 entries
      let others ← collectPml3 table rest
      pure (frame :: inner ++ others)

end PageTable

namespace PageTableSlotAllocator

open MemoryController

def getPml4 : PageTable := ⟨pageTableRegionStart⟩

/-- A freed slot is cleared before its reuse, and the region is extended behind its second to last slot. -/
def allocWith (extend : McM Unit) : McM Nat := do
  let mc ← get
  match mc.slotAllocator.freeSlots with
  | addr :: rest =>
    put { mc with slotAllocator := { mc.slotAllocator with freeSlots := rest } }
    writeBytes addr pageSize fun _ => 0
    let after ← get
    put { after with
      slotAllocator :=
        { after.slotAllocator with allocatedPageTables := after.slotAllocator.allocatedPageTables + 1 } }
    pure addr
  | [] =>
    let slot := mc.slotAllocator.lastPml1Slot
    put { mc with slotAllocator := { mc.slotAllocator with lastPml1Slot := slot + 1 } }
    if slot + 1 = 510 then extend
    let after ← get
    put { after with
      slotAllocator :=
        { after.slotAllocator with allocatedPageTables := after.slotAllocator.allocatedPageTables + 1 } }
    pure (pageTableRegionStart + slot * pageSize)

/-- The extension maps the pages of one more table and its first successor. -/
def extendRegion (alloc : McM Nat) : McM Unit := do
  let mc ← get
  let start := Page.forAddress (pageTableRegionStart + pageSize * 512 * mc.slotAllocator.pml1Count)
  getPml4.mapPages alloc (.present ||| .writable) (Page.range start ⟨start.pageNumber + 512⟩).pages
  let after ← get
  put { after with slotAllocator := { after.slotAllocator with pml1Count := after.slotAllocator.pml1Count + 1 } }

/-- An extension allocates slots itself, and the fuel bounds the extensions inside extensions. -/
def allocFuel : Nat → McM Nat
  | 0 => allocWith halt
  | fuel + 1 => allocWith (extendRegion (allocFuel fuel))

/-- The slots of an extension lie behind the slot that starts one. -/
def alloc : McM Nat := allocFuel 1

/-- A slot is freed once, and only inside the region. -/
def free (addr : Nat) : McM Unit := do
  let mc ← get
  let allocator := mc.slotAllocator
  if addr < allocator.regionStart ∨ addr % pageSize ≠ 0 then pure ()
  else if allocator.regionStart + allocator.lastPml1Slot * pageSize ≤ addr ∨ addr ∈ allocator.freeSlots then pure ()
  else
    put { mc with
      slotAllocator :=
        { allocator with
          freeSlots := addr :: allocator.freeSlots
          allocatedPageTables := allocator.allocatedPageTables - 1 } }

/-- The first slot with the frame is found. -/
def findSlot (frame : Nat) : List Nat → McM Nat
  | [] => fail
  | slot :: rest => do
    let mc ← get
    let addr := mc.slotAllocator.regionStart + slot * pageSize
    match ← orNone (getPml4.translateToPhys addr) with
    | some slotFrame => if slotFrame = frame then pure addr else findSlot frame rest
    | none => findSlot frame rest

def addrForFrame (frame : Nat) : McM Nat := do
  let mc ← get
  findSlot frame (List.range mc.slotAllocator.lastPml1Slot)

/-- The slots of the frames are freed one by one. -/
def freeFrames : List Nat → McM Unit
  | [] => pure ()
  | frame :: rest => do
    match ← orNone (addrForFrame frame) with
    | some addr => free addr
    | none => pure ()
    freeFrames rest

end PageTableSlotAllocator

/-- The tables below the user entries of the table are freed. -/
def PageTable.freeUserSubtables (table : PageTable) : McM Unit := do
  let frames ← table.collectPml3 (List.finRange 512)
  PageTableSlotAllocator.freeFrames frames

/-- A page of the kernel is present and writable. -/
def kernelEntry (frame : Nat) : PageTableEntry :=
  BitVec.ofNat 64 (frame * pageSize) ||| (EntryFlags.present ||| EntryFlags.writable)

/-- The frames behind the base hold the tables of the slot region, and each slot shows the next frame. -/
def masterTables (base : Nat) : Memory := fun frame index =>
  if frame = base ∧ index = (Page.forAddress pageTableRegionStart).p4Index then kernelEntry (base + 1)
  else if frame = base + 1 ∧ index = (Page.forAddress pageTableRegionStart).p3Index then kernelEntry (base + 2)
  else if frame = base + 2 ∧ index = (Page.forAddress pageTableRegionStart).p2Index then kernelEntry (base + 3)
  else if frame = base + 3 then kernelEntry (base + index.val)
  else 0

/-- The first four slots hold tables, and the fifth slot is the window. -/
def PageTableSlotAllocator.master : PageTableSlotAllocator where
  regionStart := pageTableRegionStart
  pml1Count := 1
  lastPml1Slot := 5
  allocatedPageTables := 5
  freeSlots := []

/-- This is the controller after the master table has been allocated over cleared memory. -/
def MemoryController.boot (base memEnd : Nat) (stackAllocator : StackAllocator) : MemoryController where
  memory := masterTables base
  cr3 := base
  activeTable := ⟨pageTableRegionStart⟩
  kernelTable := ⟨pageTableRegionStart⟩
  frameAllocator := ⟨base + 512, memEnd, []⟩
  stackAllocator := stackAllocator
  slotAllocator := .master
  tempMapper := ⟨pageTableRegionStart + 4 * pageSize, base + 4⟩

/-- The frames behind the four tables keep what the memory held before. -/
def MemoryController.bootOver (ram : Memory) (base memEnd : Nat) (stackAllocator : StackAllocator) : MemoryController :=
  { MemoryController.boot base memEnd stackAllocator with
    memory := fun frame index =>
      if base ≤ frame ∧ frame < base + 4 then masterTables base frame index else ram frame index }

namespace StackAllocator

def new (range : PageIter) : StackAllocator := ⟨range, []⟩

/-- The first free range of the right size is removed. -/
def takeRange (pagesToAlloc : Nat) : List FreeStackRange → Option (FreeStackRange × List FreeStackRange)
  | [] => none
  | range :: rest =>
    if range.userPages = pagesToAlloc then some (range, rest)
    else (takeRange pagesToAlloc rest).map fun (found, others) => (found, range :: others)

/-- A guard page is cut off before the pages of the stack. -/
def cutRange (range : PageIter) (pagesToAlloc : Nat) : Option (Page × Page × PageIter) := do
  let (_, afterGuard) ← range.next
  let (start, afterStart) ← afterGuard.next
  if pagesToAlloc = 1 then some (start, start, afterStart)
  else
    let (last, rest) ← afterStart.nth (pagesToAlloc - 2)
    some (start, last, rest)

/-- The address behind the last page must not overflow. -/
def toStack (start last : Page) : McM Stack :=
  if 0x10000000000000000 ≤ last.startAddress + pageSize then halt
  else pure ⟨last.startAddress + pageSize, start.startAddress⟩

/-- A stack reuses a free range or takes new pages, and the pages are mapped in the table. -/
def alloc (table : PageTable) (pagesToAlloc : Nat) (flags : EntryFlags) : McM Stack := do
  if pagesToAlloc = 0 then fail
  else
    let mc ← get
    match takeRange pagesToAlloc mc.stackAllocator.freeRanges with
    | some (range, others) =>
      put { mc with stackAllocator := { mc.stackAllocator with freeRanges := others } }
      table.mapRange PageTableSlotAllocator.alloc range.start range.last flags
      toStack range.start range.last
    | none =>
      match cutRange mc.stackAllocator.range pagesToAlloc with
      | some (start, last, rest) =>
        put { mc with stackAllocator := { mc.stackAllocator with range := rest } }
        table.mapRange PageTableSlotAllocator.alloc start last flags
        toStack start last
      | none => fail

/-- A range below the first page or without pages is not kept. -/
def free (stack : Stack) : McM Unit := do
  if stack.bottom < pageSize ∨ stack.top ≤ stack.bottom then pure ()
  else
    let mc ← get
    let range : FreeStackRange :=
      ⟨.forAddress stack.bottom, .forAddress (stack.top - 1), (stack.top - stack.bottom) / pageSize⟩
    put { mc with
      stackAllocator := { mc.stackAllocator with freeRanges := mc.stackAllocator.freeRanges ++ [range] } }

end StackAllocator

namespace MemoryController

/-- The new table is a copy of the kernel table and shares its lower tables. -/
def cloneKernelTable : McM PageTable := do
  let slot ← PageTableSlotAllocator.alloc
  let mc ← get
  copyPage mc.kernelTable.addr slot
  pure ⟨slot⟩

/-- The active table translates the slot of the new table. -/
def switchTable (newTable : PageTable) : McM PageTable := do
  if newTable.addr < pageTableRegionStart then fail
  else
    let mc ← get
    let frame ← mc.activeTable.translateToPhys newTable.addr
    let after ← get
    put { after with cr3 := frame, activeTable := newTable }
    pure mc.activeTable

/-- User code may touch a user stack. -/
def allocStack (pagesToAlloc : Nat) (user : Bool) : McM Stack := do
  let mc ← get
  StackAllocator.alloc mc.activeTable pagesToAlloc
    (if user then .writable ||| .ring3Accessible else .writable)

/-- Every frame is mapped at its own address. -/
def mapFrames (table : PageTable) (flags : EntryFlags) : List Nat → McM Unit
  | [] => pure ()
  | frame :: rest => do
    table.mapTo PageTableSlotAllocator.alloc (.forAddress (frame * pageSize)) frame flags
    mapFrames table flags rest

/-- Nothing is mapped when the first page of the range is in use. -/
def identityMap (start last : Nat) (flags : EntryFlags) : McM Unit := do
  let mc ← get
  let unused ← mc.activeTable.isUnused (.forAddress (start * pageSize))
  if !unused then pure () else mapFrames mc.activeTable flags (List.range' start (last + 1 - start))

def translateToPhysical (addr : Nat) : McM Nat := do
  let mc ← get
  mc.activeTable.translateToPhys addr

def map (start last : Page) (flags : EntryFlags) : McM Unit := do
  let mc ← get
  mc.activeTable.mapRange PageTableSlotAllocator.alloc start last flags

/-- The frames of the mapped pages are given back. -/
def unmapPages : List Page → McM Unit
  | [] => pure ()
  | page :: rest => do
    let mc ← get
    match ← orNone (mc.activeTable.unmap page) with
    | some frame => SimplePageFrameAllocator.free frame
    | none => pure ()
    unmapPages rest

def unmap (start last : Page) : McM Unit := unmapPages (Page.range start last).pages

/-- The stack is cleared before it is unmapped. -/
def freeStack (stack : Stack) : McM Unit := do
  if stack.top ≤ stack.bottom then pure ()
  else
    writeBytes stack.bottom (stack.top - stack.bottom) fun _ => 0
    unmap (.forAddress stack.bottom) (.forAddress (stack.top - 1))
    StackAllocator.free stack

end MemoryController

end BubbleOs.Paging

namespace BubbleOs.Process

open Attempt Paging

/-- A user pointer needs a present entry with the requested access. -/
def grantsAccess (writable : Bool) (entry : PageTableEntry) : Bool :=
  entry.flags.contains .present && entry.flags.contains .ring3Accessible &&
    (!writable || entry.flags.contains .writable)

def validateUserPointer (pageTable : PageTable) (addr size : Nat) (writable : Bool) : McM Bool := do
  let walked ← orNone (pageTable.walkRangeEntries addr size fun _ entry => grantsAccess writable entry)
  pure walked.isSome

end BubbleOs.Process
