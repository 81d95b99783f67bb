/-
This file models the registers of an AHCI controller and the commands that the driver gives to a drive.
-/

import BubbleOs.Construction.Paging.Controller

namespace BubbleOs.Ahci

abbrev Byte := BitVec 8

abbrev Dword := BitVec 32

def hbaPrdtEntryCount : Nat := 128

/-- The driver reads and writes these registers of a port. -/
structure HBAPort where
  clb : Dword
  clbu : Dword
  is : Dword
  cmd : Dword
  sig : Dword
  ssts : Dword
  sact : Dword
  ci : Dword
  deriving DecidableEq

/-- The registers of a controller begin at an address and end with thirty-two port blocks. -/
structure HBAMemory where
  address : Nat
  cap : Dword
  pi : Dword
  ports : Nat → HBAPort

/-- The general registers take two hundred and fifty-six bytes and every port block takes a half of that. -/
def HBAMemory.portAddress (abar : HBAMemory) (index : Nat) : Nat := abar.address + 0x100 + index * 0x80

/-- The first byte merges the length of the command with its direction. -/
structure HBACommandHeader where
  cflAWP : Byte
  prdtl : BitVec 16
  prdbc : BitVec 16
  ctba : Dword
  ctbau : Dword

namespace HBACommandHeader

def setCfl (header : HBACommandHeader) (val : Byte) : HBACommandHeader :=
  { header with cflAWP := (header.cflAWP &&& ~~~0b00011111#8) ||| (val &&& 0b00011111#8) }

def setWriteBit (header : HBACommandHeader) (val : Bool) : HBACommandHeader :=
  { header with
    cflAWP := if val then header.cflAWP ||| 0b01000000#8 else header.cflAWP &&& ~~~0b01000000#8 }

end HBACommandHeader

/-- The last word merges the number of bytes with the interrupt bit. -/
structure HBAPrdtEntry where
  dataBaseAddress : Dword
  dataBaseAddressUpper : Dword
  dbcRsv1I : Dword
  deriving DecidableEq

namespace HBAPrdtEntry

def getDataByteCount (entry : HBAPrdtEntry) : Dword := entry.dbcRsv1I &&& 0x003FFFFF#32

def getInterruptOnCompletion (entry : HBAPrdtEntry) : Bool := entry.dbcRsv1I &&& 0x80000000#32 != 0

def setDataByteCount (entry : HBAPrdtEntry) (val : Dword) : HBAPrdtEntry :=
  { entry with dbcRsv1I := (entry.dbcRsv1I &&& ~~~0x003FFFFF#32) ||| (val &&& 0x003FFFFF#32) }

def setInterruptOnCompletion (entry : HBAPrdtEntry) (val : Bool) : HBAPrdtEntry :=
  { entry with
    dbcRsv1I := if val then entry.dbcRsv1I ||| 0x80000000#32 else entry.dbcRsv1I &&& ~~~0x80000000#32 }

end HBAPrdtEntry

/-- A command reaches the device in this frame. -/
structure FisRegH2D where
  fisType : Byte
  pmportRsv0C : Byte
  command : Byte
  lba0 : Byte
  lba1 : Byte
  lba2 : Byte
  device : Byte
  lba3 : Byte
  lba4 : Byte
  lba5 : Byte
  countLow : Byte
  countHigh : Byte
  control : Byte
  deriving DecidableEq

namespace FisRegH2D

def zeroed : FisRegH2D := ⟨0, 0, 0, 0, 0, 0, 0, 0, 0, 0, 0, 0, 0⟩

def setControlBit (fis : FisRegH2D) (val : Bool) : FisRegH2D :=
  { fis with
    pmportRsv0C := if val then fis.pmportRsv0C ||| 0b10000000#8 else fis.pmportRsv0C &&& ~~~0b10000000#8 }

/-- The device joins the six address bytes in the order of the field comments. -/
def sector (fis : FisRegH2D) : Nat :=
  fis.lba0.toNat + 256 * (fis.lba1.toNat + 256 * (fis.lba2.toNat +
    256 * (fis.lba3.toNat + 256 * (fis.lba4.toNat + 256 * fis.lba5.toNat))))

def count (fis : FisRegH2D) : Nat := fis.countLow.toNat + 256 * fis.countHigh.toNat

end FisRegH2D

structure HBACommandTable where
  commandFis : FisRegH2D
  prdtEntry : Vector HBAPrdtEntry hbaPrdtEntryCount

def HBACommandTable.zeroed : HBACommandTable := ⟨.zeroed, Vector.replicate _ ⟨0, 0, 0⟩⟩

def hbaPortIpmActive : Dword := 1
def hbaPortDetPresent : Dword := 3

def sataSigAtapi : Dword := 0xEB140101
def sataSigSemb : Dword := 0xC33C0101
def sataSigPm : Dword := 0x96690101

inductive AHCIDeviceType where
  | null
  | sata
  | semb
  | pm
  | satapi
  deriving DecidableEq

/-- The block count is the answer of the drive to the identify command, and zero without an answer. -/
structure AHCIPort where
  portAddress : Nat
  maxSlots : Nat
  blockCount : Dword
  deriving DecidableEq

/-- A port without an active device has no type, and an unknown signature is a disk. -/
def checkPortType (port : HBAPort) : AHCIDeviceType :=
  let ipm := (port.ssts >>> 8) &&& 0x0F#32
  let det := port.ssts &&& 0x0F#32
  if det ≠ hbaPortDetPresent ∨ ipm ≠ hbaPortIpmActive then .null
  else if port.sig = sataSigAtapi then .satapi
  else if port.sig = sataSigSemb then .semb
  else if port.sig = sataSigPm then .pm
  else .sata

section Probe

variable (identify : Nat → Option Dword) (abar : HBAMemory)

def HBAMemory.maxSlots : Nat := (abar.cap &&& 0x1F#32).toNat + 1

def AHCIPort.new (index : Nat) : AHCIPort :=
  ⟨abar.portAddress index, abar.maxSlots, (identify (abar.portAddress index)).getD 0⟩

/-- A port that is no drive is passed over before the bitmap moves on. -/
def probePortsLoop : List Nat → Dword → List AHCIPort
  | [], _ => []
  | index :: rest, pi =>
    if pi &&& 1#32 ≠ 0 then
      let portType := checkPortType (abar.ports index)
      if portType ≠ .sata ∧ portType ≠ .satapi then probePortsLoop rest pi
      else AHCIPort.new identify abar index :: probePortsLoop rest (pi >>> 1)
    else probePortsLoop rest (pi >>> 1)

def probePorts : List AHCIPort := probePortsLoop identify abar (List.range 32) abar.pi

end Probe

open Attempt Paging

def hbaPxcmdSt : Dword := 0x0001
def hbaPxcmdFre : Dword := 0x0010

def ataCmdReadDmaEx : Byte := 0x25
def ataCmdWriteDmaEx : Byte := 0x35

def fisTypeRegH2D : Byte := 0x27

/-- The register frame has five words. -/
def fisRegH2DLength : Byte := 5

def hbaPrdtMaxByteCount : Nat := 0x00400000

def usizeLimit : Nat := 0x10000000000000000

structure AHCICommand where
  bufferAddr : Word
  dataByteCount : Dword
  cmd : Byte
  control : Byte
  lba : Word
  count : Word
  write : Bool
  isLbaMode : Bool

/-- A page table entry has room for the address of this frame. -/
structure Frame where
  number : Nat
  supported : number * pageSize < 0x10000000000000

def Frame.startAddress (frame : Frame) : Nat := frame.number * pageSize

section Transfer

/- The active table translates pages to frames. -/
variable (translate : Page → Option Frame)

/-- The physical address is missing where the page is not mapped. -/
def physicalAddress (virtAddr : Nat) : Option Nat :=
  (translate (.forAddress virtAddr)).map fun frame => frame.startAddress + virtAddr % pageSize

/-- Chunks join an entry as long as their frames continue it. -/
def coalesce (bufferPhys virtAddr bytesRemaining entrySize : Nat) :
    Attempt HBACommandTable (Nat × Nat × Nat) := do
  let physicalAddr ← ofOption (physicalAddress translate virtAddr)
  if 0 < entrySize ∧ physicalAddr ≠ bufferPhys + entrySize then pure (virtAddr, bytesRemaining, entrySize)
  else
    let pageBytes := pageSize - virtAddr % pageSize
    if hbaPrdtMaxByteCount < entrySize then halt
    else
      let chunkSize := min bytesRemaining (min pageBytes (hbaPrdtMaxByteCount - entrySize))
      if usizeLimit ≤ virtAddr + chunkSize then halt
      else if bytesRemaining - chunkSize = 0 ∨ entrySize + chunkSize = hbaPrdtMaxByteCount then
        pure (virtAddr + chunkSize, bytesRemaining - chunkSize, entrySize + chunkSize)
      else coalesce bufferPhys (virtAddr + chunkSize) (bytesRemaining - chunkSize) (entrySize + chunkSize)
termination_by bytesRemaining
decreasing_by
  have inside : virtAddr % pageSize < pageSize := Nat.mod_lt _ (by decide)
  omega

def HBAPrdtEntry.describe (entry : HBAPrdtEntry) (bufferPhys entrySize : Nat) (isLast : Bool) : HBAPrdtEntry :=
  (({ entry with
      dataBaseAddress := BitVec.ofNat 32 bufferPhys
      dataBaseAddressUpper := BitVec.ofNat 32 (bufferPhys >>> 32) }).setDataByteCount
    (BitVec.ofNat 32 (entrySize - 1))).setInterruptOnCompletion isLast

/-- Every round describes one entry of the scatter list. -/
def fillPrdtLoop (virtAddr bytesRemaining prdtIndex : Nat) : Attempt HBACommandTable Nat :=
  if bytesRemaining = 0 then pure prdtIndex
  else if inside : prdtIndex < hbaPrdtEntryCount then do
    let bufferPhys ← ofOption (physicalAddress translate virtAddr)
    let (nextAddr, nextRemaining, entrySize) ← coalesce translate bufferPhys virtAddr bytesRemaining 0
    let table ← get
    let entry := (table.prdtEntry.get ⟨prdtIndex, inside⟩).describe bufferPhys entrySize (nextRemaining == 0)
    put { table with prdtEntry := table.prdtEntry.set prdtIndex entry inside }
    fillPrdtLoop nextAddr nextRemaining (prdtIndex + 1)
  else fail
termination_by hbaPrdtEntryCount - prdtIndex

def fillPrdtEntries (bufferAddr dataByteCount : Nat) : Attempt HBACommandTable Nat :=
  if dataByteCount = 0 then fail else fillPrdtLoop translate bufferAddr dataByteCount 0

end Transfer

/-- The driver waits for these answers of the device: whether it is idle in time, whether its engines stop,
and how it ends the command if it ends it. -/
structure Device where
  idle : Bool
  stops : Bool
  finished : Option Bool

/-- The command structures lie in memory at the addresses that the registers hold. -/
structure Channel where
  port : HBAPort
  headers : Nat → HBACommandHeader
  tables : Nat → HBACommandTable

/-- A slot is free when neither register holds its bit. -/
def HBAPort.getFreeSlot (port : HBAPort) (maxSlots : Nat) : Option Nat :=
  (List.range maxSlots).find? fun slot => !port.sact.getLsbD slot && !port.ci.getLsbD slot

def HBAPort.headerAddress (port : HBAPort) (slot : Nat) : Nat :=
  port.clb.toNat + port.clbu.toNat <<< 32 + slot * 32

def HBACommandHeader.tableAddress (header : HBACommandHeader) : Nat :=
  header.ctba.toNat + header.ctbau.toNat <<< 32

def Channel.setPort (channel : Channel) (port : HBAPort) : Channel := { channel with port }

def Channel.setHeader (channel : Channel) (addr : Nat) (header : HBACommandHeader) : Channel :=
  { channel with headers := fun other => if other = addr then header else channel.headers other }

def Channel.setTable (channel : Channel) (addr : Nat) (table : HBACommandTable) : Channel :=
  { channel with tables := fun other => if other = addr then table else channel.tables other }

/-- The address is cut into two halves before its bytes are taken. -/
def AHCICommand.fis (command : AHCICommand) : FisRegH2D :=
  let lbaLow : Dword := command.lba.setWidth 32
  let lbaHigh : Dword := (command.lba >>> 32).setWidth 32
  ({ FisRegH2D.zeroed with
      fisType := fisTypeRegH2D
      control := command.control
      command := command.cmd
      lba0 := lbaLow.setWidth 8
      lba1 := (lbaLow >>> 8).setWidth 8
      lba2 := (lbaLow >>> 16).setWidth 8
      lba3 := lbaHigh.setWidth 8
      lba4 := (lbaHigh >>> 8).setWidth 8
      lba5 := (lbaHigh >>> 16).setWidth 8
      device := if command.isLbaMode then 1 <<< 6 else 0
      countLow := (command.count &&& 0xFF).setWidth 8
      countHigh := ((command.count >>> 8) &&& 0xFF).setWidth 8 }).setControlBit true

section Commands

variable (translate : Page → Option Frame) (device : Device) (maxSlots : Nat)

/-- A full command list is emptied by a reset of the port. -/
def takeSlot : Attempt Channel Nat := do
  let channel ← get
  match channel.port.getFreeSlot maxSlots with
  | some slot => pure slot
  | none =>
    let stopping := { channel.port with cmd := channel.port.cmd &&& ~~~hbaPxcmdSt &&& ~~~hbaPxcmdFre }
    put (channel.setPort stopping)
    if !device.stops then halt
    else
      let started :=
        { stopping with ci := 0, sact := 0, cmd := stopping.cmd ||| hbaPxcmdFre ||| hbaPxcmdSt }
      put (channel.setPort started)
      ofOption (started.getFreeSlot maxSlots)

/-- The table of the slot is cleared and then receives the scatter list and the command. -/
def prepare (slot : Nat) (command : AHCICommand) : Attempt Channel Unit := do
  let channel ← get
  let headerAddr := channel.port.headerAddress slot
  let header := ((channel.headers headerAddr).setCfl fisRegH2DLength).setWriteBit command.write
  let tableAddr := header.tableAddress
  match fillPrdtEntries translate command.bufferAddr.toNat command.dataByteCount.toNat .zeroed with
  | (.value prdtCount, table) =>
    let described := { header with prdtl := BitVec.ofNat 16 prdtCount, prdbc := 0 }
    put ((channel.setHeader headerAddr described).setTable tableAddr { table with commandFis := command.fis })
  | (.missing, table) =>
    put ((channel.setHeader headerAddr header).setTable tableAddr table)
    fail
  | (.hang, _) => halt

def sendCommand (command : AHCICommand) : Attempt Channel Bool := do
  let channel ← get
  put (channel.setPort { channel.port with is := 0xFFFFFFFF })
  if !device.idle then pure false
  else
    match ← orNone (takeSlot device maxSlots) with
    | none => pure false
    | some slot =>
      match ← orNone (prepare translate slot command) with
      | none => pure false
      | some () =>
        let ready ← get
        put (ready.setPort { ready.port with ci := 1#32 <<< slot })
        match device.finished with
        | some succeeded => pure succeeded
        | none => halt

def readCommand (sector sectorCount buffer : Word) : AHCICommand :=
  { bufferAddr := buffer, dataByteCount := (sectorCount <<< 9).setWidth 32, cmd := ataCmdReadDmaEx, control := 1,
    lba := sector, count := sectorCount, write := false, isLbaMode := true }

def writeCommand (sector sectorCount buffer : Word) : AHCICommand :=
  { bufferAddr := buffer, dataByteCount := (sectorCount <<< 9).setWidth 32, cmd := ataCmdWriteDmaEx, control := 1,
    lba := sector, count := sectorCount, write := true, isLbaMode := true }

def read (sector sectorCount buffer : Word) : Attempt Channel Bool :=
  sendCommand translate device maxSlots (readCommand sector sectorCount buffer)

def writeSectors (sector sectorCount buffer : Word) : Attempt Channel Bool :=
  if sectorCount = 0 then pure false
  else sendCommand translate device maxSlots (writeCommand sector sectorCount buffer)

end Commands

end BubbleOs.Ahci
