/-
This file models the file contents operations of the FAT driver and the files that it gives to the kernel.
-/

import BubbleOs.Construction.Fat.Directory

namespace BubbleOs.Fat

open Attempt

namespace FATFileSystem

variable {P : Type} [Port P]

/-- The loop runs out of fuel only on a chain that returns to one of its clusters. -/
def readFileLoop (filesize : Nat) : Nat → Nat → List UInt8 → FsM P (List UInt8)
  | 0, _, _ => halt
  | fuel + 1, cluster, buffer => do
    if buffer.length < filesize then
      let region ← readCluster cluster
      let extended := buffer ++ region.take (min region.length (filesize - buffer.length))
      if extended.length = filesize then pure extended
      else
        let fs ← get
        let next ← ofOption (fs.fat.nextCluster cluster)
        readFileLoop filesize fuel next extended
    else pure buffer

def readFile (file : DirectoryEntry) : FsM P (List UInt8) := do
  let fs ← get
  if file.attributes != 32 then fail
  else if file.size.toNat = 0 then pure []
  else if file.getCluster = 0 then fail
  else readFileLoop file.size.toNat (file.size.toNat + fs.fat.entries + 2) file.getCluster []

/-- The walk skips whole clusters before an offset. -/
def seekCluster : Nat → Nat → Nat → FsM P (Nat × Nat)
  | 0, _, _ => halt
  | fuel + 1, cluster, clusterOffset => do
    let fs ← get
    if clusterOffset ≥ fs.clusterSize then
      let next ← ofOption (fs.fat.nextCluster cluster)
      seekCluster fuel next (clusterOffset - fs.clusterSize)
    else pure (cluster, clusterOffset)

/-- A failed write after the first cluster reports the bytes already written. -/
def writeFileLoop : Nat → Nat → Nat → List UInt8 → Nat → FsM P Nat
  | 0, _, _, _, _ => halt
  | fuel + 1, cluster, clusterOffset, bytes, bytesWritten => do
    let fs ← get
    if bytes.isEmpty then pure bytesWritten
    else
      let region ← readCluster cluster
      let writableBytes := min bytes.length (fs.clusterSize - clusterOffset)
      let status ← writeCluster cluster (overwrite region clusterOffset (bytes.take writableBytes))
      if !status then
        if bytesWritten = 0 then fail else pure bytesWritten
      else if bytes.length = writableBytes then pure (bytesWritten + writableBytes)
      else
        let fs ← get
        let next ← ofOption (fs.fat.nextCluster cluster)
        writeFileLoop fuel next 0 (bytes.drop writableBytes) (bytesWritten + writableBytes)

def writeExistingFile (file : DirectoryEntry) (offset : Nat) (bytes : List UInt8) : FsM P Nat := do
  let fs ← get
  if file.attributes != 32 then fail
  else if offset + bytes.length ≥ usizeLimit then fail
  else if offset + bytes.length > file.size.toNat then fail
  else if bytes.isEmpty then pure 0
  else if file.getCluster = 0 then fail
  else
    let start ← seekCluster (offset + fs.fat.entries + 2) file.getCluster offset
    writeFileLoop (bytes.length + 1) start.1 start.2 bytes 0

def zeroFileLoop : Nat → Nat → Nat → Nat → FsM P Unit
  | 0, _, _, _ => halt
  | fuel + 1, cluster, clusterOffset, size => do
    let fs ← get
    if size = 0 then pure ()
    else
      let region ← readCluster cluster
      let zeroSize := min size (fs.clusterSize - clusterOffset)
      let status ← writeCluster cluster (overwrite region clusterOffset (List.replicate zeroSize 0))
      if !status then fail
      else if size = zeroSize then pure ()
      else
        let fs ← get
        let next ← ofOption (fs.fat.nextCluster cluster)
        zeroFileLoop fuel next 0 (size - zeroSize)

def zeroFileRange (firstCluster offset size : Nat) : FsM P Unit := do
  let fs ← get
  if size = 0 then pure ()
  else
    let start ← seekCluster (offset + fs.fat.entries + 2) firstCluster offset
    zeroFileLoop (size + 1) start.1 start.2 size

/-- The division by an empty cluster size stops the kernel. -/
def shrinkExistingFile (file : DirectoryEntry) (location : DirectoryEntryLocation) (newSize : Nat) :
    FsM P Unit := do
  let fs ← get
  if newSize = 0 then
    if file.getCluster ≠ 0 then
      onFat (FatBuffer.freeChain file.getCluster)
      persistFat
      persistDirectoryEntry location { file.setCluster 0 with size := 0 }
    else persistDirectoryEntry location { file.setCluster 0 with size := 0 }
  else if file.getCluster = 0 then fail
  else if fs.clusterSize = 0 then halt
  else
    let clustersToKeep := (newSize + fs.clusterSize - 1) / fs.clusterSize
    let lastKeptCluster ← clusterAt file.getCluster (clustersToKeep - 1)
    let fs ← get
    let firstFreedCluster := fs.fat.nextCluster lastKeptCluster
    onFat (FatBuffer.set lastKeptCluster fatClusterEof)
    match firstFreedCluster with
    | some first => onFat (FatBuffer.freeChain first)
    | none => pure ()
    persistFat
    persistDirectoryEntry location { file with size := UInt32.ofNat newSize }

/-- The rollback cuts the new clusters from the old chain and frees them. -/
def rollbackGrowth (oldFirstCluster oldClusterCount : Nat) (newChainStart : Option Nat) : FsM P Unit := do
  if oldClusterCount ≠ 0 then
    match ← orNone (clusterAt oldFirstCluster (oldClusterCount - 1)) with
    | some lastOldCluster =>
      let _ ← orNone (onFat (FatBuffer.set lastOldCluster fatClusterEof))
    | none => pure ()
  match newChainStart with
  | some start =>
    let _ ← orNone (onFat (FatBuffer.freeChain start))
  | none => pure ()

/-- The new clusters follow the old chain or become the first cluster of the file. -/
def linkGrowth (file : DirectoryEntry) (oldClusterCount newClusterCount : Nat) :
    FsM P (DirectoryEntry × Option Nat) := do
  if newClusterCount > oldClusterCount then
    let start ← onFat (FatBuffer.allocateChain (newClusterCount - oldClusterCount))
    if oldClusterCount = 0 then pure (file.setCluster start, some start)
    else
      let lastOldCluster ← clusterAt file.getCluster (oldClusterCount - 1)
      onFat (FatBuffer.set lastOldCluster (UInt32.ofNat start))
      pure (file, some start)
  else pure (file, none)

/-- The division by an empty cluster size stops the kernel. -/
def growExistingFile (file : DirectoryEntry) (location : DirectoryEntryLocation) (oldSize newSize : Nat) :
    FsM P Unit := do
  let fs ← get
  if fs.clusterSize = 0 then halt
  else
    let oldClusterCount := fs.clustersForSize oldSize
    let linked ← linkGrowth file oldClusterCount (fs.clustersForSize newSize)
    match ← orNone (zeroFileRange linked.1.getCluster oldSize (newSize - oldSize)) with
    | none =>
      rollbackGrowth file.getCluster oldClusterCount linked.2
      fail
    | some () =>
      match ← orNone persistFat with
      | none =>
        rollbackGrowth file.getCluster oldClusterCount linked.2
        fail
      | some () => persistDirectoryEntry location { linked.1 with size := UInt32.ofNat newSize }

def truncateExistingFile (location : DirectoryEntryLocation) (newSize : Nat) : FsM P Unit := do
  let file ← readDirectoryEntry location
  if file.attributes != 32 then fail
  else if newSize > 0xFFFFFFFF then fail
  else if newSize = file.size.toNat then pure ()
  else if newSize < file.size.toNat then shrinkExistingFile file location newSize
  else growExistingFile file location file.size.toNat newSize

end FATFileSystem

/-- An open file remembers its slot and the entry that was found there. -/
structure FATFile where
  entry : DirectoryEntry
  name : List Char
  location : DirectoryEntryLocation
  deriving DecidableEq

namespace FATFile

open FATFileSystem

variable {P : Type} [Port P]

def size (file : FATFile) : FsM P Nat := do
  match ← orNone (readDirectoryEntry file.location) with
  | some entry => pure entry.size.toNat
  | none => pure file.entry.size.toNat

def read (file : FATFile) : FsM P (List UInt8) := do
  let entry ← readDirectoryEntry file.location
  readFile entry

def write (file : FATFile) (offset : Nat) (bytes : List UInt8) : FsM P Nat := do
  let entry ← readDirectoryEntry file.location
  let bytesWritten ← writeExistingFile entry offset bytes
  persistDirectoryEntry file.location entry
  pure bytesWritten

def truncate (file : FATFile) (size : Nat) : FsM P Unit := truncateExistingFile file.location size

end FATFile

/-- The pattern tells which accesses fail, and a failed write leaves the disk unchanged. -/
structure FaultyDisk where
  disk : SectorArray
  faults : Nat → Bool
  accesses : Nat

/-- Every transfer is one access. -/
instance : Port FaultyDisk where
  read port sector count :=
    if port.faults port.accesses then (none, { port with accesses := port.accesses + 1 })
    else ((Port.read port.disk sector count).1, { port with accesses := port.accesses + 1 })
  writeSectors port sector count buffer :=
    if port.faults port.accesses then (false, { port with accesses := port.accesses + 1 })
    else
      let result := Port.writeSectors port.disk sector count buffer
      (result.1, { port with disk := result.2, accesses := port.accesses + 1 })

namespace FATFileSystem

/-- The volume on a disk that fails. -/
def faulty (fs : FATFileSystem SectorArray) (faults : Nat → Bool) (accesses : Nat) : FATFileSystem FaultyDisk where
  port := ⟨fs.port, faults, accesses⟩
  fat := fs.fat
  bs := fs.bs
  bs32 := fs.bs32

/-- The volume as it stands on the disk. -/
def standing (fs : FATFileSystem FaultyDisk) : FATFileSystem SectorArray where
  port := fs.port.disk
  fat := fs.fat
  bs := fs.bs
  bs32 := fs.bs32

end FATFileSystem

end BubbleOs.Fat

namespace BubbleOs.Fs

/-- An open file is sized, read, written and resized through the state of its file system. -/
class File (S : Type) (F : Type) where
  size : F → Attempt S Nat
  read : F → Attempt S (List UInt8)
  write : F → Nat → List UInt8 → Attempt S Nat
  truncate : F → Nat → Attempt S Unit

abbrev Component := List Char

def dotComponent : Component := ['.']

def parentComponent : Component := ['.', '.']

/-- A parent component removes the component before it, unless that one is a parent component too. -/
def pushComponent (components : List Component) (component : Component) : List Component :=
  if component = [] ∨ component = dotComponent then components
  else if component = parentComponent then
    match components.getLast? with
    | none => components ++ [component]
    | some last => if last = parentComponent then components ++ [component] else components.dropLast
  else components ++ [component]

def normalizePathComponents (path : List Char) : List Component :=
  (path.splitOn '/').foldl pushComponent []

end BubbleOs.Fs

namespace BubbleOs.Fat

open Attempt Text Fs

instance {P : Type} [Port P] : Fs.File (FATFileSystem P) FATFile where
  size := FATFile.size
  read := FATFile.read
  write := FATFile.write
  truncate := FATFile.truncate

/-- A directory handle remembers the entry that was found for it. -/
structure FATDirectory where
  entry : DirectoryEntry
  name : List Char
  deriving DecidableEq

def FATFileSystem.rootDir {P : Type} [Port P] (fs : FATFileSystem P) : FATDirectory :=
  ⟨fs.root, ['r', 'o', 'o', 't']⟩

namespace FATDirectory

variable {P : Type} [Port P] [Unicode]

def listDir (dir : FATDirectory) : FsM P (List FATDirectory × List FATFile) := do
  let listed ← FATFileSystem.listDirectory dir.entry
  pure (listed.2.map fun located => ⟨located.entry, located.name⟩,
    listed.1.map fun located => ⟨located.entry, located.name, located.location⟩)

def createFile (dir : FATDirectory) (name : List Char) : FsM P FATFile := do
  let located ← FATFileSystem.createFile dir.entry name
  pure ⟨located.entry, located.name, located.location⟩

def createDirectory (dir : FATDirectory) (name : List Char) : FsM P Unit :=
  FATFileSystem.createDirectory dir.entry name

def unlinkFile (dir : FATDirectory) (name : List Char) : FsM P Unit :=
  FATFileSystem.unlinkFile dir.entry name

def removeDirectory (dir : FATDirectory) (name : List Char) : FsM P Unit :=
  FATFileSystem.removeDirectory dir.entry name

def findDirectory (dir : FATDirectory) (name : Component) : FsM P FATDirectory := do
  let items ← dir.listDir
  ofOption (items.1.find? fun child => eqIgnoreAsciiCase child.name name)

def findFile (dir : FATDirectory) (name : Component) : FsM P FATFile := do
  let items ← dir.listDir
  ofOption (items.2.find? fun file => eqIgnoreAsciiCase file.name name)

def findDirectoryComponents : List Component → FATDirectory → FsM P FATDirectory
  | [], _ => fail
  | next :: rest, dir => do
    let child ← dir.findDirectory next
    if rest.isEmpty then pure child else findDirectoryComponents rest child

def findFileComponents : List Component → FATDirectory → FsM P FATFile
  | [], _ => fail
  | next :: rest, dir =>
    if rest.isEmpty then dir.findFile next
    else do
      let child ← dir.findDirectory next
      findFileComponents rest child

end FATDirectory

end BubbleOs.Fat
