/-
This file models the allocation table, the access to sectors and clusters, and the directory operations.
-/

import BubbleOs.Library.Attempt
import BubbleOs.Construction.Fat.Entry

namespace BubbleOs.Fat

def fatClusterFree : UInt32 := 0x00000000

def fatClusterEof : UInt32 := 0x0FFFFFFF

/-- The table has one word for each cluster number. -/
structure FatBuffer where
  fat : List UInt32
  deriving DecidableEq

namespace FatBuffer

open Attempt

def entries (buffer : FatBuffer) : Nat := buffer.fat.length

/-- This word is read only below the end of the table. -/
def word (buffer : FatBuffer) (cluster : Nat) : UInt32 := buffer.fat.getD cluster 0

/-- These are the bytes behind the table's pointer. -/
def toBytes (buffer : FatBuffer) : List UInt8 := buffer.fat.flatMap le32

def nextCluster (buffer : FatBuffer) (curr : Nat) : Option Nat :=
  if curr ≥ buffer.entries then none
  else if buffer.word curr ≥ 0x0FFFFFF8 || buffer.word curr == 0 then none
  else some (buffer.word curr).toNat

def set (cluster : Nat) (value : UInt32) : Attempt FatBuffer Unit := do
  let buffer ← get
  if cluster ≥ buffer.entries then fail
  else put { fat := buffer.fat.set cluster value }

/-- The loop runs out of fuel only when it would not end. -/
def freeChainLoop : Nat → Nat → Attempt FatBuffer Unit
  | 0, _ => halt
  | fuel + 1, cluster => do
    let buffer ← get
    if cluster ≥ buffer.entries then fail
    else
      set cluster fatClusterFree
      match buffer.nextCluster cluster with
      | some next => freeChainLoop fuel next
      | none => pure ()

/-- Each turn of the loop frees one more word, so the table bounds the turns. -/
def freeChain (cluster : Nat) : Attempt FatBuffer Unit := do
  let buffer ← get
  freeChainLoop (buffer.entries + 1) cluster

def findFreeCluster (buffer : FatBuffer) : Option Nat :=
  (List.range' 2 (buffer.entries - 2)).find? fun cluster => buffer.word cluster == fatClusterFree

/-- A failure after the first cluster frees the chain that exists so far. -/
def abandonChain (firstCluster : Nat) : Attempt FatBuffer Nat := do
  if firstCluster != 0 then
    let _ ← orNone (freeChain firstCluster)
    fail
  else fail

def allocateChainLoop : Nat → Nat → Option Nat → Attempt FatBuffer Nat
  | 0, firstCluster, _ => pure firstCluster
  | count + 1, firstCluster, prevCluster => do
    let buffer ← get
    match buffer.findFreeCluster with
    | none => abandonChain firstCluster
    | some cluster =>
      match ← orNone (set cluster fatClusterEof) with
      | none => abandonChain firstCluster
      | some () =>
        match prevCluster with
        | none => allocateChainLoop count cluster (some cluster)
        | some prev =>
          match ← orNone (set prev (UInt32.ofNat cluster)) with
          | some () => allocateChainLoop count firstCluster (some cluster)
          | none =>
            let _ ← orNone (freeChain firstCluster)
            let _ ← orNone (set cluster fatClusterFree)
            fail

def allocateChain (count : Nat) : Attempt FatBuffer Nat :=
  if count = 0 then fail else allocateChainLoop count 0 none

end FatBuffer

open Attempt Text

def sectorSize : Nat := 512

abbrev Sector := Bytes 512

/-- A port transfers whole sectors and reports whether the transfer succeeded. -/
class Port (P : Type) where
  read : P → Nat → Nat → Option (List UInt8) × P
  writeSectors : P → Nat → Nat → List UInt8 → Bool × P

/-- This disk is an array of sectors that never fails. -/
structure SectorArray where
  sectors : Nat → Sector

namespace SectorArray

/-- A transfer reads consecutive sectors. -/
def readSectors (disk : SectorArray) (sector count : Nat) : List UInt8 :=
  (List.range' sector count).flatMap fun index => (disk.sectors index).toList

/-- A transfer replaces consecutive sectors by the bytes of a buffer. -/
def replaceSectors (disk : SectorArray) (sector count : Nat) (buffer : List UInt8) : SectorArray where
  sectors index :=
    if sector ≤ index ∧ index < sector + count then
      Bytes.fill 0 ((buffer.drop (sectorSize * (index - sector))).take sectorSize)
    else disk.sectors index

end SectorArray

/-- A command without sectors is rejected. -/
instance : Port SectorArray where
  read disk sector count := (if count = 0 then none else some (disk.readSectors sector count), disk)
  writeSectors disk sector count buffer :=
    if count = 0 then (false, disk) else (true, disk.replaceSectors sector count buffer)

structure FATFileSystem (P : Type) where
  port : P
  fat : FatBuffer
  bs : FatBootSector
  bs32 : Fat32ExtendedBootSector

/-- A directory entry lies in one slot of one cluster. -/
structure DirectoryEntryLocation where
  cluster : Nat
  index : Nat
  offset : Nat
  deriving DecidableEq

abbrev FsM (P : Type) := Attempt (FATFileSystem P)

namespace FATFileSystem

variable {P : Type} [Port P]

/-- A table operation changes only the in-memory table. -/
def onFat {A : Type} (operation : Attempt FatBuffer A) : FsM P A := fun fs =>
  let result := operation fs.fat
  (result.1, { fs with fat := result.2 })

/-- The pointer size bounds checked arithmetic. -/
def usizeLimit : Nat := 18446744073709551616

def clusterSize (fs : FATFileSystem P) : Nat :=
  fs.bs.bytesPerSector.toNat * fs.bs.sectorsPerCluster.toNat

def clustersForSize (fs : FATFileSystem P) (size : Nat) : Nat :=
  if size = 0 then 0 else (size + fs.clusterSize - 1) / fs.clusterSize

def sectorsPerFat (fs : FATFileSystem P) : Nat :=
  if fs.bs.tableSize16 != 0 then fs.bs.tableSize16.toNat else fs.bs32.tableSize.toNat

def fatStartSector (fs : FATFileSystem P) (tableIndex : Nat) : Nat :=
  fs.bs.reservedSectorCount.toNat + tableIndex * fs.sectorsPerFat

def firstDataSector (fs : FATFileSystem P) : Nat :=
  fs.bs.reservedSectorCount.toNat + fs.bs.tableCount.toNat * fs.bs32.tableSize.toNat

/-- The debug build stops at an underflow of the cluster number. -/
def getSector (cluster : Nat) : FsM P Nat := do
  let fs ← get
  if cluster < 2 then halt
  else pure (fs.firstDataSector + (cluster - 2) * fs.bs.sectorsPerCluster.toNat)

/-- The buffer starts as zeros and receives the bytes that were read. -/
def readCluster (cluster : Nat) : FsM P (List UInt8) := do
  let sector ← getSector cluster
  let fs ← get
  let result := Port.read fs.port sector fs.bs.sectorsPerCluster.toNat
  put { fs with port := result.2 }
  match result.1 with
  | none => fail
  | some bytes => pure ((bytes ++ List.replicate fs.clusterSize 0).take fs.clusterSize)

def writeCluster (cluster : Nat) (buffer : List UInt8) : FsM P Bool := do
  let sector ← getSector cluster
  let fs ← get
  let result := Port.writeSectors fs.port sector fs.bs.sectorsPerCluster.toNat buffer
  put { fs with port := result.2 }
  pure result.1

def persistFatLoop : Nat → Nat → FsM P Unit
  | 0, _ => pure ()
  | remaining + 1, tableIndex => do
    let fs ← get
    let result := Port.writeSectors fs.port (fs.fatStartSector tableIndex) fs.sectorsPerFat
      fs.fat.toBytes
    put { fs with port := result.2 }
    if result.1 then persistFatLoop remaining (tableIndex + 1) else fail

def persistFat : FsM P Unit := do
  let fs ← get
  persistFatLoop fs.bs.tableCount.toNat 0

def clearCluster (cluster : Nat) : FsM P Bool := do
  let fs ← get
  writeCluster cluster (List.replicate fs.clusterSize 0)

/-- The location must name the slot at its own offset. -/
def checkLocation (location : DirectoryEntryLocation) : FsM P Unit :=
  if location.index * entrySize ≥ usizeLimit then fail
  else if location.index * entrySize ≠ location.offset then fail
  else if location.offset + entrySize ≥ usizeLimit then fail
  else pure ()

def persistDirectoryEntry (location : DirectoryEntryLocation) (entry : DirectoryEntry) : FsM P Unit := do
  checkLocation location
  let region ← readCluster location.cluster
  if location.offset + entrySize > region.length then fail
  else
    let status ← writeCluster location.cluster (overwrite region location.offset entry.toBytes)
    if status then pure () else fail

def readDirectoryEntry (location : DirectoryEntryLocation) : FsM P DirectoryEntry := do
  checkLocation location
  let region ← readCluster location.cluster
  if location.offset + entrySize > region.length then fail
  else pure (DirectoryEntry.readAt region location.offset)

/-- The walk follows a fixed number of links. -/
def clusterAt (firstCluster : Nat) : Nat → FsM P Nat
  | 0 => pure firstCluster
  | index + 1 => do
    let fs ← get
    let next ← ofOption (fs.fat.nextCluster firstCluster)
    clusterAt next index

end FATFileSystem

/-- The driver reads the whole table once from its first copy. -/
def readFat {P : Type} [Port P] (port : P) (bs : FatBootSector) (bs32 : Fat32ExtendedBootSector) :
    Option FatBuffer × P :=
  let sectorsPerFat := if bs.tableSize16 != 0 then bs.tableSize16.toNat else bs32.tableSize.toNat
  let fatSizeBytes := sectorsPerFat * bs.bytesPerSector.toNat
  let result := Port.read port bs.reservedSectorCount.toNat sectorsPerFat
  (result.1.map fun bytes =>
    let buffer := (bytes ++ List.replicate fatSizeBytes 0).take fatSizeBytes
    { fat := (List.range (fatSizeBytes / 4)).map fun index =>
        ofLe32 (buffer.getD (4 * index) 0) (buffer.getD (4 * index + 1) 0)
          (buffer.getD (4 * index + 2) 0) (buffer.getD (4 * index + 3) 0) }, result.2)

open Attempt Text

abbrev Slot := DirectoryEntry × DirectoryEntryLocation

/-- A live entry keeps its location, its decoded name and its long filename slots. -/
structure LocatedDirectoryEntry where
  entry : DirectoryEntry
  location : DirectoryEntryLocation
  name : List Char
  lfnLocations : List DirectoryEntryLocation
  deriving DecidableEq

/-- The parser collects the chunks of a long filename before their short entry. -/
structure PendingLfn where
  chunks : List (List UInt16)
  locations : List DirectoryEntryLocation
  expectedSequence : UInt8
  checksumValue : UInt8

namespace PendingLfn

def initial : PendingLfn := ⟨[], [], 0, 0⟩

def clear (pending : PendingLfn) : PendingLfn :=
  { pending with chunks := [], locations := [], expectedSequence := 0 }

/-- The first physical chunk starts a new long filename. -/
def start (pending : PendingLfn) (lfn : LongDirectoryEntry) : PendingLfn :=
  if lfn.isLast then
    { chunks := []
      locations := []
      checksumValue := lfn.checksum
      expectedSequence :=
        if lfn.sequence ≥ 1 && lfn.sequence.toNat ≤ lfnMaxEntries then lfn.sequence else 0 }
  else pending

/-- A chunk out of sequence discards the long filename. -/
def accept (pending : PendingLfn) (lfn : LongDirectoryEntry) (location : DirectoryEntryLocation) :
    PendingLfn :=
  let started := pending.start lfn
  if started.expectedSequence == 0 || lfn.sequence != started.expectedSequence ||
      lfn.checksum != started.checksumValue then started.clear
  else
    { started with
      chunks := started.chunks ++ [lfn.nameUnits]
      locations := started.locations ++ [location]
      expectedSequence := started.expectedSequence - 1 }

/-- A complete chain with the right checksum gives the long name. -/
def longName (pending : PendingLfn) (shortName : ShortName) : Option (List Char) :=
  if pending.expectedSequence == 0 && !pending.chunks.isEmpty &&
      pending.checksumValue == lfnChecksum shortName then
    decodeLongFilename pending.chunks.reverse.flatten
  else none

end PendingLfn

/-- The slots of one cluster are its thirty-two-byte records. -/
def clusterSlots (cluster : Nat) (region : List UInt8) : List Slot :=
  (List.range (region.length / entrySize)).map fun index =>
    (DirectoryEntry.readAt region (index * entrySize), ⟨cluster, index, index * entrySize⟩)

def dotName (parent : Bool) : ShortName :=
  Bytes.fill 0x20 (if parent then [0x2E, 0x2E] else [0x2E])

def isDotName (name : ShortName) : Bool := name == dotName false || name == dotName true

/-- This is the short name of the root directory. -/
def rootName : ShortName := Bytes.fill 0x20 [0x52, 0x4F, 0x4F, 0x54]

/-- This entry has the given name and attributes and zeros elsewhere. -/
def blankEntry (name : ShortName) (attributes : UInt8) : DirectoryEntry where
  name := name
  attributes := attributes
  reserved := 0
  creationTimeCentiseconds := 0
  creationTime := 0
  creationDate := 0
  lastAccessedDate := 0
  firstClusterHigh := 0
  modifiedTime := 0
  modifiedDate := 0
  firstClusterLow := 0
  size := 0

def directoryEntry (name : ShortName) (cluster : Nat) : DirectoryEntry :=
  (blankEntry name 0x10).setCluster cluster

section Names

variable [Unicode]

/-- The parser stops at the end marker. -/
def parseFrom (pending : PendingLfn) : List Slot → List LocatedDirectoryEntry
  | [] => []
  | (entry, location) :: rest =>
    if entry.isEndMarker then []
    else if entry.isDeleted then parseFrom pending.clear rest
    else if entry.isLongFilename then
      parseFrom (pending.accept (LongDirectoryEntry.fromDirectoryEntry entry) location) rest
    else if entry.isVolumeLabel then parseFrom pending.clear rest
    else
      let located := match pending.longName entry.name with
        | some name => ⟨entry, location, name, pending.locations⟩
        | none => ⟨entry, location, getFilenameFromFat entry.name, []⟩
      located :: parseFrom pending.clear rest

def parseDirectoryEntries (slots : List Slot) : List LocatedDirectoryEntry :=
  parseFrom PendingLfn.initial slots

/-- Both the decoded name and the decoded short name match. -/
def matchesName (candidate : LocatedDirectoryEntry) (name : List Char) : Bool :=
  eqIgnoreAsciiCase candidate.name name ||
    eqIgnoreAsciiCase (getFilenameFromFat candidate.entry.name) name

def findParsedEntry (parsed : List LocatedDirectoryEntry) (name : List Char) :
    Option LocatedDirectoryEntry :=
  parsed.find? fun candidate => matchesName candidate name

/-- The chunks of a long filename are stored with the last chunk first. -/
def longFilenameEntries (units : List UInt16) (checksum : UInt8) : List LongDirectoryEntry :=
  let chunkCount := (units.length + lfnUnitsPerEntry - 1) / lfnUnitsPerEntry
  (List.range chunkCount).reverse.map fun chunkIndex =>
    LongDirectoryEntry.new (UInt8.ofNat (chunkIndex + 1)) (chunkIndex == chunkCount - 1) checksum
      ((units.drop (chunkIndex * lfnUnitsPerEntry)).take lfnUnitsPerEntry)

def prepareNameEntries (parsed : List LocatedDirectoryEntry) (filename : List Char) :
    Option (ShortName × List LongDirectoryEntry) :=
  match getFatFilename filename with
  | some shortName => some (shortName, [])
  | none => do
    let units ← encodeLongFilename filename
    let shortName ← generateShortAlias filename (parsed.map fun entry => entry.entry.name)
    some (shortName, longFilenameEntries units (lfnChecksum shortName))

end Names

namespace FATFileSystem

variable {P : Type} [Port P]

/-- The boot sector gives the first cluster of the root directory. -/
def root (fs : FATFileSystem P) : DirectoryEntry :=
  { blankEntry rootName 0x10 with
    firstClusterHigh := UInt16.ofNat ((fs.bs32.rootCluster.toNat >>> 16) &&& 0xFFF)
    firstClusterLow := UInt16.ofNat (fs.bs32.rootCluster.toNat &&& 0xFFFF) }

/-- Cluster zero names the root directory. -/
def directoryCluster (fs : FATFileSystem P) (dir : DirectoryEntry) : Nat :=
  if dir.getCluster = 0 then fs.root.getCluster else dir.getCluster

/-- The loop runs out of fuel only on a chain that returns to one of its clusters. -/
def loadDirectorySlotsLoop : Nat → Nat → List Slot → FsM P (List Slot × Nat)
  | 0, _, _ => halt
  | fuel + 1, cluster, slots => do
    let region ← readCluster cluster
    let fs ← get
    match fs.fat.nextCluster cluster with
    | some next => loadDirectorySlotsLoop fuel next (slots ++ clusterSlots cluster region)
    | none => pure (slots ++ clusterSlots cluster region, cluster)

def loadDirectorySlots (firstCluster : Nat) : FsM P (List Slot × Nat) := do
  let fs ← get
  loadDirectorySlotsLoop (fs.fat.entries + 1) firstCluster []

/-- A run is a list of consecutive free slots. -/
def scanSlots (needed : Nat) : List Slot → Bool → List DirectoryEntryLocation →
    List DirectoryEntryLocation ⊕ List DirectoryEntryLocation
  | [], _, run => .inr run
  | (entry, location) :: rest, pastEnd, run =>
    let past := pastEnd || entry.isEndMarker
    if past || entry.isDeleted then
      if (run ++ [location]).length = needed then .inl (run ++ [location])
      else scanSlots needed rest past (run ++ [location])
    else scanSlots needed rest past []

def appendDirectoryCluster (lastCluster : Nat) : FsM P Nat := do
  let newCluster ← onFat (FatBuffer.allocateChain 1)
  match ← orNone (onFat (FatBuffer.set lastCluster (UInt32.ofNat newCluster))) with
  | none =>
    let _ ← orNone (onFat (FatBuffer.freeChain newCluster))
    fail
  | some () =>
    let persisted ← orNone persistFat
    let cleared ← if persisted.isSome then clearCluster newCluster else pure false
    if cleared then pure newCluster
    else
      let _ ← orNone (onFat (FatBuffer.set lastCluster fatClusterEof))
      let _ ← orNone (onFat (FatBuffer.freeChain newCluster))
      let _ ← orNone persistFat
      fail

/-- Each turn appends one cluster of slots. -/
def extendRun (needed : Nat) : Nat → Nat → List DirectoryEntryLocation → FsM P (List DirectoryEntryLocation)
  | 0, _, _ => halt
  | fuel + 1, lastCluster, run => do
    if run.length < needed then
      let newCluster ← appendDirectoryCluster lastCluster
      let fs ← get
      let fresh := (List.range (fs.clusterSize / entrySize)).map fun index =>
        (⟨newCluster, index, index * entrySize⟩ : DirectoryEntryLocation)
      extendRun needed fuel newCluster (run ++ fresh.take (needed - run.length))
    else pure run

def allocateDirectorySlots (dirCluster needed : Nat) : FsM P (List DirectoryEntryLocation) := do
  let loaded ← loadDirectorySlots dirCluster
  match scanSlots needed loaded.1 false [] with
  | .inl run => pure run
  | .inr run =>
    let fs ← get
    extendRun needed (needed + fs.fat.entries + 1) loaded.2 run

def initializeDirectoryCluster (cluster parentCluster : Nat) : FsM P Bool := do
  let fs ← get
  let buffer := List.replicate fs.clusterSize 0
  let withDot := overwrite buffer 0 (directoryEntry (dotName false) cluster).toBytes
  writeCluster cluster
    (overwrite withDot entrySize (directoryEntry (dotName true) parentCluster).toBytes)

def rollbackAllocatedChain (cluster : Nat) : FsM P Unit := do
  let _ ← orNone (onFat (FatBuffer.freeChain cluster))
  let _ ← orNone persistFat
  pure ()

/-- The slots are written one by one. -/
def persistLfnEntries : List (LongDirectoryEntry × DirectoryEntryLocation) → FsM P Unit
  | [] => pure ()
  | (lfn, location) :: rest => do
    persistDirectoryEntry location lfn.toDirectoryEntry
    persistLfnEntries rest

def persistNewEntry (dirCluster : Nat) (lfnEntries : List LongDirectoryEntry) (entry : DirectoryEntry) :
    FsM P (DirectoryEntryLocation × List DirectoryEntryLocation) := do
  let locations ← allocateDirectorySlots dirCluster (lfnEntries.length + 1)
  persistLfnEntries (lfnEntries.zip locations)
  let shortLocation ← ofOption locations.getLast?
  persistDirectoryEntry shortLocation entry
  pure (shortLocation, locations.dropLast)

/-- The long filename slots are marked one by one. -/
def deleteLfnEntries : List DirectoryEntryLocation → FsM P Unit
  | [] => pure ()
  | location :: rest => do
    let entry ← readDirectoryEntry location
    persistDirectoryEntry location entry.markDeleted
    deleteLfnEntries rest

def deleteDirectoryEntry (located : LocatedDirectoryEntry) : FsM P Unit := do
  deleteLfnEntries located.lfnLocations
  persistDirectoryEntry located.location located.entry.markDeleted
  if located.entry.getCluster = 0 then pure ()
  else
    onFat (FatBuffer.freeChain located.entry.getCluster)
    let _ ← orNone persistFat
    pure ()

section Names

variable [Unicode]

/-- The listing keeps regular files and subdirectories apart. -/
def listDirectory (dir : DirectoryEntry) : FsM P (List LocatedDirectoryEntry × List LocatedDirectoryEntry) := do
  let fs ← get
  match ← orNone (loadDirectorySlots (fs.directoryCluster dir)) with
  | none => pure ([], [])
  | some loaded =>
    let parsed := parseDirectoryEntries loaded.1
    pure (parsed.filter (fun located => !located.entry.isDirectory && located.entry.isRegularFile),
      parsed.filter fun located => located.entry.isDirectory)

def findEntryByName (dir : DirectoryEntry) (name : List Char) : FsM P LocatedDirectoryEntry := do
  let fs ← get
  let loaded ← loadDirectorySlots (fs.directoryCluster dir)
  ofOption (findParsedEntry (parseDirectoryEntries loaded.1) name)

def createFile (dir : DirectoryEntry) (filename : List Char) : FsM P LocatedDirectoryEntry := do
  let fs ← get
  let dirCluster := fs.directoryCluster dir
  let loaded ← loadDirectorySlots dirCluster
  let parsed := parseDirectoryEntries loaded.1
  if (findParsedEntry parsed filename).isSome then fail
  else
    let prepared ← ofOption (prepareNameEntries parsed filename)
    let entry := blankEntry prepared.1 0x20
    let stored ← persistNewEntry dirCluster prepared.2 entry
    let name := if prepared.2.isEmpty then getFilenameFromFat prepared.1 else filename
    pure ⟨entry, stored.1, name, stored.2⟩

def createDirectory (parent : DirectoryEntry) (name : List Char) : FsM P Unit := do
  let fs ← get
  let parentCluster := fs.directoryCluster parent
  let loaded ← loadDirectorySlots parentCluster
  let parsed := parseDirectoryEntries loaded.1
  if (findParsedEntry parsed name).isSome then fail
  else
    let prepared ← ofOption (prepareNameEntries parsed name)
    let cluster ← onFat (FatBuffer.allocateChain 1)
    let initialized ← initializeDirectoryCluster cluster parentCluster
    if !initialized then
      let _ ← orNone (onFat (FatBuffer.freeChain cluster))
      fail
    else
      match ← orNone persistFat with
      | none =>
        rollbackAllocatedChain cluster
        fail
      | some () =>
        match ← orNone (persistNewEntry parentCluster prepared.2 (directoryEntry prepared.1 cluster)) with
        | none =>
          rollbackAllocatedChain cluster
          fail
        | some _ => pure ()

def unlinkFile (parent : DirectoryEntry) (name : List Char) : FsM P Unit := do
  let file ← findEntryByName parent name
  if !file.entry.isRegularFile then fail else deleteDirectoryEntry file

def directoryIsEmpty (dir : DirectoryEntry) : FsM P Bool := do
  let fs ← get
  let loaded ← loadDirectorySlots (fs.directoryCluster dir)
  pure ((parseDirectoryEntries loaded.1).all fun located => isDotName located.entry.name)

def removeDirectory (parent : DirectoryEntry) (name : List Char) : FsM P Unit := do
  let directory ← findEntryByName parent name
  if !directory.entry.isDirectory || directory.entry.getCluster == 0 ||
      isDotName directory.entry.name then fail
  else
    let empty ← directoryIsEmpty directory.entry
    if !empty then fail else deleteDirectoryEntry directory

end Names

end FATFileSystem

end BubbleOs.Fat
