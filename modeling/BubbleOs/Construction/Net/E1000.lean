/-
This file models how the Ethernet driver starts and polls its receive ring.
-/

import BubbleOs.Construction.Ahci.Port
import BubbleOs.Construction.Pci.Bar

namespace BubbleOs.Net

open Attempt Paging Pci

def dmaRegionStart : Nat := 0x00006DCF00000000

def numRxBuffers : Nat := 32

def bufferSize : Nat := 0x1000

structure RxDesc where
  addr : BitVec 64
  length : BitVec 16
  checksum : BitVec 16
  status : BitVec 8
  errors : BitVec 8
  special : BitVec 16

def rxDescSize : Nat := 16

/-- A pointer counts the descriptors from the start of the DMA region. -/
structure E1000Driver where
  barType : BarType
  registers : Nat → BitVec 32
  memory : Nat → RxDesc
  rxCurr : Nat
  rxDescs : Option Nat

inductive LogLine where
  | null
  | buffer (index : Nat) (status : BitVec 8) (length : BitVec 16) (errors : BitVec 8)
  | chip (status tpr mpc prc64 prc127 : BitVec 32)

namespace E1000Driver

def setDesc (driver : E1000Driver) (ptr : Nat) (desc : RxDesc) : E1000Driver :=
  { driver with memory := fun other => if other = ptr then desc else driver.memory other }

/-- Only the registers of a 32-bit memory bar are implemented. -/
def sendCommand (address : Nat) (value : BitVec 32) : Attempt E1000Driver Unit := do
  let driver ← get
  match driver.barType with
  | .memory32 .. =>
    put { driver with registers := fun other => if other = address then value else driver.registers other }
  | _ => halt

def readCommand (address : Nat) : Attempt E1000Driver (BitVec 32) := do
  let driver ← get
  match driver.barType with
  | .memory32 .. => pure (driver.registers address)
  | _ => halt

section Start

variable (translate : Page → Option Ahci.Frame)

def fillDescs : Nat → Nat → Page → Attempt E1000Driver Nat
  | 0, ptr, _ => pure ptr
  | count + 1, ptr, startPage => do
    let endPage := Page.forAddress (startPage.startAddress + bufferSize - 1)
    let bufferPa ← unwrap (ofOption (Ahci.physicalAddress translate startPage.startAddress))
    let driver ← get
    put (driver.setDesc ptr ⟨.ofNat 64 bufferPa, 0, 9, 0, 0, 0⟩)
    fillDescs count (ptr + 1) ⟨endPage.pageNumber + 1⟩

def startRx : Attempt E1000Driver Bool := do
  let descsSize := rxDescSize * numRxBuffers
  let descsEndPage := Page.forAddress (dmaRegionStart + descsSize - 1)
  let driver ← get
  put { driver with memory := fun other => if other < numRxBuffers then ⟨0, 0, 0, 0, 0, 0⟩ else driver.memory other }
  let ptr ← fillDescs translate numRxBuffers 0 ⟨descsEndPage.pageNumber + 1⟩
  let descsPa ← unwrap (ofOption (Ahci.physicalAddress translate dmaRegionStart))
  sendCommand 0x2800 (.ofNat 32 descsPa)
  sendCommand 0x2804 (.ofNat 32 (descsPa >>> 32))
  sendCommand 0x2808 (.ofNat 32 descsSize)
  sendCommand 0x2810 0
  sendCommand 0x2818 (.ofNat 32 (numRxBuffers - 1))
  let filled ← get
  put { filled with rxCurr := 0, rxDescs := some ptr }
  sendCommand 0x0100 0x0603801E
  pure true

end Start

/-- The loop ends at the first received buffer unless it prints all of them. -/
def pollLoop (printAll : Bool) (memory : Nat → RxDesc) : Nat → Nat → Nat → Bool × List LogLine
  | 0, _, _ => (false, [])
  | count + 1, index, ptr =>
    let desc := memory ptr
    let line := .buffer index desc.status desc.length desc.errors
    let rest := pollLoop printAll memory count (index + 1) (ptr + 1)
    if printAll then (rest.1, line :: rest.2)
    else if desc.status &&& 1 ≠ 0 then (true, [line])
    else rest

def poll (printAll : Bool) : Attempt E1000Driver (Bool × List LogLine) := do
  let driver ← get
  match driver.rxDescs with
  | none => pure (false, [.null])
  | some ptr =>
    let (found, lines) := pollLoop printAll driver.memory numRxBuffers 0 ptr
    if printAll then
      let status ← readCommand 0x0008
      let tpr ← readCommand 0x40D0
      let mpc ← readCommand 0x4010
      let prc64 ← readCommand 0x405C
      let prc127 ← readCommand 0x4060
      pure (false, lines ++ [.chip status tpr mpc prc64 prc127])
    else pure (found, lines)

end E1000Driver

end BubbleOs.Net
