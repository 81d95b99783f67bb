/-
This file models the kernel heap, whose block list lies in the memory that it hands out.
-/

import BubbleOs.Library.Attempt
import BubbleOs.Library.Bytes

namespace BubbleOs.Heap

open Attempt

def heapStart : Nat := 0o200000000000

def heapSize : Nat := 16 * 1024 * 1024

/-- A block header has four fields. -/
def blockSize : Nat := 32

def blockAlign : Nat := 8

def isizeMax : Nat := 9223372036854775807

/-- The head is not in the list, and its successor is the first block. -/
structure LinkedListHeap where
  heapStart : Nat
  heapEnd : Nat
  size : Nat
  headNext : Nat
  headAddress : Nat

def LinkedListHeap.empty : LinkedListHeap := ⟨0, 0, 0, 0, 0⟩

structure HeapState where
  memory : FlatMemory
  heap : LinkedListHeap

abbrev HeapM := Attempt HeapState

/-- A size rounds up to its alignment without an overflow. -/
def Rounds (size align : Nat) : Prop := size + (align - 1) ≤ isizeMax

instance (size align : Nat) : Decidable (Rounds size align) := inferInstanceAs (Decidable (_ ≤ _))

structure Layout where
  size : Nat
  align : Nat
  power : ∃ exponent, align = 2 ^ exponent
  rounds : Rounds size align

def Layout.padToAlign (size align : Nat) : Nat := (size + (align - 1)) / align * align

/-- The null pointer stands for a missing successor. -/
def blockNext (memory : FlatMemory) (block : Nat) : Nat := memory.loadWord block

def blockLength (memory : FlatMemory) (block : Nat) : Nat := memory.loadWord (block + 8)

def blockAddress (memory : FlatMemory) (block : Nat) : Nat := memory.loadWord (block + 16)

def blockUsed (memory : FlatMemory) (block : Nat) : Bool := memory (block + 24) != 0

def setNext (memory : FlatMemory) (block next : Nat) : FlatMemory := memory.storeWord block next

def setLength (memory : FlatMemory) (block size : Nat) : FlatMemory := memory.storeWord (block + 8) size

def setAddress (memory : FlatMemory) (block address : Nat) : FlatMemory := memory.storeWord (block + 16) address

def setUsed (memory : FlatMemory) (block : Nat) (used : Bool) : FlatMemory :=
  memory.store (block + 24) [if used then 1 else 0]

/-- A new block is free and has no successor. -/
def writeBlock (memory : FlatMemory) (address size : Nat) : FlatMemory :=
  setUsed (setAddress (setLength (setNext memory address 0) address size) address address) address false

def alignDown (addr align : Nat) : Nat := addr / align * align

def alignUp (addr align : Nat) : Nat := alignDown (addr + align - 1) align

/-- A block that cannot hold its header is not created. -/
def createBlock (address size : Nat) : HeapM Nat := fun state =>
  if alignUp address blockAlign = address ∧ blockSize ≤ size then
    (.value address, { state with memory := writeBlock state.memory address size })
  else (.missing, state)

def init (start stop : Nat) : HeapM Unit := do
  let first ← unwrap (createBlock start (stop - start))
  let state ← get
  put { state with heap := { state.heap with heapStart := start, heapEnd := stop, size := stop - start, headNext := first } }

/-- The rest of a split block becomes a free block behind it. -/
def splitBlock (block size : Nat) : HeapM Nat := do
  let state ← get
  let address := blockAddress state.memory block
  let remainder ← createBlock (address + size) (blockLength state.memory block - size)
  let after ← get
  let linked := setNext after.memory remainder (blockNext after.memory block)
  let shortened := setLength (setUsed (setNext linked block remainder) block true) block size
  put { after with memory := shortened }
  pure (blockAddress shortened block + blockSize)

/-- The first free block of the right size is taken, and a larger one is split. -/
def allocateLoop (size : Nat) : Nat → Nat → HeapM Nat
  | 0, _ => halt
  | fuel + 1, block => do
    let state ← get
    if block = 0 then fail
    else if !blockUsed state.memory block ∧ blockLength state.memory block = size then
      put { state with memory := setUsed state.memory block true }
      pure (blockAddress state.memory block + blockSize)
    else if !blockUsed state.memory block ∧ blockLength state.memory block > size then
      match ← orNone (splitBlock block size) with
      | some payload => pure payload
      | none => allocateLoop size fuel (blockNext state.memory block)
    else allocateLoop size fuel (blockNext state.memory block)

/-- The fuel bounds the length of a list of blocks that do not overlap. -/
def allocateInternal (size : Nat) : HeapM Nat := do
  let state ← get
  allocateLoop size (state.heap.size + 1) state.heap.headNext

/-- A free block swallows a free successor. -/
def mergeRight (block : Nat) : HeapM Unit := do
  let state ← get
  let next := blockNext state.memory block
  if next = 0 then pure ()
  else if blockUsed state.memory next then pure ()
  else
    let merged := setLength state.memory block (blockLength state.memory block + blockLength state.memory next)
    let newNext := blockNext merged next
    if newNext = 0 then put { state with memory := setNext merged block 0 }
    else put { state with memory := setNext merged block (blockAddress merged newNext) }

def deallocInternal (addr : Nat) : HeapM Unit := do
  if addr < blockSize then halt
  else
    let block := addr - blockSize
    let state ← get
    put { state with memory := setUsed state.memory block false }
    mergeRight block
    let after ← get
    if blockAddress after.memory block ≥ after.heap.headAddress then pure ()
    else put { after with heap := { after.heap with headNext := block } }

/-- The payload is padded to the alignment and follows a header. -/
def Layout.paddedRequest (layout : Layout) : Nat :=
  Layout.padToAlign layout.size (max layout.align blockAlign) + blockSize

/-- A layout that cannot be aligned panics. -/
def blockAlignSize (layout : Layout) : HeapM Nat :=
  if Rounds layout.size (max layout.align blockAlign) then pure layout.paddedRequest else halt

/-- An allocation that fails returns the null pointer. -/
def alloc (layout : Layout) : HeapM Nat := do
  let size ← blockAlignSize layout
  match ← orNone (allocateInternal size) with
  | some payload => pure payload
  | none => pure 0

def dealloc (ptr : Nat) : HeapM Unit := deallocInternal ptr

def initHeap : HeapM Unit := init heapStart (heapStart + heapSize)

end BubbleOs.Heap
