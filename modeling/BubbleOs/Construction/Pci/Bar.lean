/-
This file models the base address registers of a PCI function and the probe of their sizes.
-/

import BubbleOs.Library.Attempt

namespace BubbleOs.Pci

open Attempt

/-- A register keeps the bits that are not writable. -/
structure Register (width : Nat) where
  value : BitVec width
  writable : BitVec width
  deriving DecidableEq

def Register.write {width : Nat} (register : Register width) (value : BitVec width) : Register width :=
  { register with value := (register.value &&& ~~~register.writable) ||| (value &&& register.writable) }

inductive BarType where
  | io (address : BitVec 32)
  | memory32 (address : BitVec 32) (prefetchable : Bool)
  | memory64 (address : BitVec 64) (prefetchable : Bool)
  deriving DecidableEq

/-- The registers from `bar0` on are the six base addresses and the CardBus pointer. -/
structure PciDeviceHeaderType0 where
  command : Register 16
  bars : Nat → Register 32

namespace PciDeviceHeaderType0

def parseBarType (bar : BitVec 32) (nextBar : Option (BitVec 32)) : Option BarType :=
  if bar = 0 then none
  else if bar &&& 0x1 = 1 then some (.io (bar &&& 0xFFFFFFFC))
  else
    let prefetchable := (bar &&& 0x8) != 0
    match (bar >>> 1 &&& 0x3).toNat with
    | 0b00 => some (.memory32 (bar &&& 0xFFFFFFF0) prefetchable)
    | 0b10 => do
      let next ← nextBar
      some (.memory64 ((next.setWidth 64 <<< 32) ||| (bar &&& 0xFFFFFFF0).setWidth 64) prefetchable)
    | _ => none

/-- The last register has no next one. -/
def getBarType (header : PciDeviceHeaderType0) (barIndex : Nat) : Option BarType :=
  if barIndex < 5 then parseBarType (header.bars barIndex).value (some (header.bars (barIndex + 1)).value)
  else if barIndex = 5 then parseBarType (header.bars barIndex).value none
  else none

def readCommand : Attempt PciDeviceHeaderType0 (BitVec 16) := do
  let header ← get
  pure header.command.value

def writeCommand (value : BitVec 16) : Attempt PciDeviceHeaderType0 Unit := do
  let header ← get
  put { header with command := header.command.write value }

def readBar (index : Nat) : Attempt PciDeviceHeaderType0 (BitVec 32) := do
  let header ← get
  pure (header.bars index).value

def writeBar (index : Nat) (value : BitVec 32) : Attempt PciDeviceHeaderType0 Unit := do
  let header ← get
  put { header with bars := fun other => if other = index then (header.bars index).write value else header.bars other }

/-- The probe writes ones, reads the bits that were kept and restores the registers. -/
def probeBarSize (barIndex : Nat) : Attempt PciDeviceHeaderType0 (BitVec 64) := do
  if barIndex ≥ 6 then fail
  else
    let commandOrig ← readCommand
    writeCommand (commandOrig &&& ~~~0x3)
    let original ← readBar barIndex
    if original = 0 then
      writeCommand commandOrig
      fail
    else if original &&& 0x1 ≠ 0 then
      writeBar barIndex 0xFFFFFFFF
      let probed ← readBar barIndex
      writeBar barIndex original
      writeCommand commandOrig
      let mask := probed &&& 0xFFFFFFFC
      if mask = 0 then fail
      else pure (~~~mask.setWidth 64 + 1)
    else
      match (original >>> 1 &&& 0x3).toNat with
      | 0b00 => do
        writeBar barIndex 0xFFFFFFFF
        let probed ← readBar barIndex
        writeBar barIndex original
        writeCommand commandOrig
        let mask := probed &&& 0xFFFFFFF0
        if mask = 0 then fail
        else pure ((~~~mask.setWidth 64 + 1) &&& 0xFFFFFFFF)
      | 0b10 => do
        let originalHi ← readBar (barIndex + 1)
        writeBar barIndex 0xFFFFFFFF
        writeBar (barIndex + 1) 0xFFFFFFFF
        let probedLo ← readBar barIndex
        let probedHi ← readBar (barIndex + 1)
        writeBar barIndex original
        writeBar (barIndex + 1) originalHi
        writeCommand commandOrig
        let probed := (probedHi.setWidth 64 <<< 32) ||| (probedLo &&& 0xFFFFFFF0).setWidth 64
        if probed = 0 then fail
        else pure (~~~probed + 1)
      | _ => do
        writeCommand commandOrig
        fail

end PciDeviceHeaderType0

end BubbleOs.Pci
