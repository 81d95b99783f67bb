import BubbleOs.Proof.Fat.Operations

namespace BubbleOs.Fat

open Attempt

/-- The walk collects a chain, and its fuel bounds the length of the chain. -/
def FatBuffer.clustersFrom (buffer : FatBuffer) : Nat → Nat → List Nat
  | 0, _ => []
  | fuel + 1, cluster =>
    match buffer.nextCluster cluster with
    | some next => cluster :: buffer.clustersFrom fuel next
    | none => [cluster]

theorem FatBuffer.clustersFrom_chain {buffer : FatBuffer} {first : Nat} {clusters : List Nat}
    (chain : Chain buffer.nextCluster first clusters) {fuel : Nat} (enough : clusters.length ≤ fuel) :
    buffer.clustersFrom fuel first = clusters := by
  induction chain generalizing fuel with
  | last ends =>
    obtain ⟨fuel, rfl⟩ : ∃ smaller, fuel = smaller + 1 := ⟨fuel - 1, by simp at enough; omega⟩
    rw [clustersFrom, ends]
  | link linked tail ih =>
    obtain ⟨fuel, rfl⟩ : ∃ smaller, fuel = smaller + 1 := ⟨fuel - 1, by simp at enough; omega⟩
    rw [clustersFrom, linked]
    exact congrArg (List.cons _) (ih (by simpa using enough))

namespace FATFileSystem

/-- These clusters belong to an entry. -/
def entryClusters (fs : Volume) (entry : DirectoryEntry) : List Nat :=
  if entry.getCluster = 0 then [] else fs.fat.clustersFrom fs.fat.entries entry.getCluster

/-- The contents of a file are the first bytes of its clusters. -/
def content (fs : Volume) (entry : DirectoryEntry) : List UInt8 :=
  (fs.chainBytes (fs.entryClusters entry)).take entry.size.toNat

/-- Everything but the file at a location keeps its slot, its chain and its contents. -/
structure OthersKept (before after : Volume) (location : DirectoryEntryLocation) : Prop where
  files : ∀ slot, LiveEntry before slot → slot.2 ≠ location → LiveEntry after slot ∧
    (slot.1.isRegularFile = true →
      after.entryClusters slot.1 = before.entryClusters slot.1 ∧ after.content slot.1 = before.content slot.1)
  directories : ∀ dir clusters, LiveDirectory before dir → FatBuffer.FileChain before.fat dir clusters →
    LiveDirectory after dir ∧ FatBuffer.FileChain after.fat dir clusters ∧
      ∀ place ∈ before.directoryLocations clusters, place ≠ location → after.entryAt place = before.entryAt place

section Content

variable {reserved : Nat → UInt32 → Prop} {fs after : Volume} {entry : DirectoryEntry} {clusters : List Nat}
  {location : DirectoryEntryLocation} {file : FATFile}

theorem Owned.entryClusters_eq (owned : Owned fs entry clusters) : fs.entryClusters entry = clusters := by
  rcases owned with ⟨none, rfl⟩ | chain
  · exact if_pos none
  · rw [entryClusters, if_neg chain.ne_zero, FatBuffer.clustersFrom_chain chain.chain chain.length_le]

theorem Owned.content_eq (owned : Owned fs entry clusters) : fs.content entry = fs.fileBytes entry clusters := by
  rw [content, owned.entryClusters_eq, fileBytes]

theorem OthersKept.refl (fs : Volume) (location : DirectoryEntryLocation) : OthersKept fs fs location :=
  ⟨fun _ live _ => ⟨live, fun _ => ⟨rfl, rfl⟩⟩, fun _ _ live chain => ⟨live, chain, fun _ _ _ => rfl⟩⟩

/-- Two changes of one file keep what each of them keeps. -/
theorem OthersKept.trans {between : Volume} (size : between.clusterSize = fs.clusterSize)
    (first : OthersKept fs between location) (second : OthersKept between after location) :
    OthersKept fs after location := by
  constructor
  · intro slot live elsewhere
    obtain ⟨midLive, midKept⟩ := first.files slot live elsewhere
    obtain ⟨lastLive, lastKept⟩ := second.files slot midLive elsewhere
    refine ⟨lastLive, fun file => ?_⟩
    rw [(lastKept file).1, (lastKept file).2]
    exact midKept file
  · intro dir clusters live chain
    obtain ⟨midLive, midChain, midPlaces⟩ := first.directories dir clusters live chain
    obtain ⟨lastLive, lastChain, lastPlaces⟩ := second.directories dir clusters midLive midChain
    have places : between.directoryLocations clusters = fs.directoryLocations clusters := by
      rw [directoryLocations, directoryLocations, size]
    rw [places] at lastPlaces
    refine ⟨lastLive, lastChain, fun place inside elsewhere => ?_⟩
    rw [lastPlaces place inside elsewhere]
    exact midPlaces place inside elsewhere

/-- An edit keeps the clusters and the contents of every other file. -/
theorem Edited.file_kept (well : WellFormed reserved fs) {dir : Nat} (live : LiveDirectory fs dir) {old new : Option Slot}
    (edited : Edited fs after dir old new) {slot : Slot} (slotLive : LiveEntry fs slot) (different : some slot ≠ old) :
    LiveEntry after slot ∧ (slot.1.isRegularFile = true →
      after.entryClusters slot.1 = fs.entryClusters slot.1 ∧ after.content slot.1 = fs.content slot.1) := by
  obtain ⟨clusters, fresh, oldClusters, newClusters, chain, edit⟩ := edited
  refine ⟨(edit.liveEntry_iff well live chain slot).mpr (.inl ⟨slotLive, different⟩), fun file => ?_⟩
  obtain ⟨others, owned⟩ := well.entry_owned slotLive
  obtain ⟨newOwned, bytes⟩ := edit.file_kept well live chain slotLive different file owned
  rw [newOwned.entryClusters_eq, owned.entryClusters_eq, newOwned.content_eq, owned.content_eq, fileBytes, bytes,
    fileBytes]
  exact ⟨rfl, rfl⟩

/-- A change of one file keeps every other file and every other slot. -/
theorem FileChange.othersKept (well : WellFormed reserved fs) {dir : Nat} (live : LiveDirectory fs dir)
    {entry newEntry : DirectoryEntry} (listed : EntryIn fs dir (entry, location))
    (regular : entry.isRegularFile = true) {clusters newClusters : List Nat}
    (stored : StoredFile fs location entry clusters)
    (change : FileChange fs after location newEntry clusters newClusters)
    (edited : Edited fs after dir (some (entry, location)) (some (newEntry, location))) :
    OthersKept fs after location := by
  have notDirectory := notDirectory_of_regular regular
  constructor
  · intro slot slotLive elsewhere
    apply edited.file_kept well live slotLive
    rw [ne_eq, Option.some.injEq]
    rintro rfl
    exact elsewhere rfl
  · obtain ⟨dirClusters, fresh, oldClusters, _, dirChain, edit⟩ := edited
    intro other others otherLive chain
    have apart := well.entry_apart otherLive chain ⟨dir, live, listed⟩
      (fun directory => absurd directory (by simp [notDirectory])) stored.owned
    have low := chain.low
    have unnamed : ¬ Names (some (entry, location)) other := @not_names_of_file (entry, location) notDirectory other
    have stays := (edit.liveDirectory_iff well live dirChain other).mpr (.inl ⟨otherLive, unnamed⟩)
    refine ⟨stays, chain.congr change.frame.size ?_, ?_⟩
    · intro cluster member
      exact change.frame.word cluster (not_or.mpr ⟨apart cluster member, chain.used cluster member⟩)
    · intro place inside elsewhere
      have member := (mem_directoryLocations.mp inside).1
      rw [change.slots place (validLocation_of_mem low inside) (apart _ member) (chain.used _ member), if_neg elsewhere]

section Handle

variable {file : FATFile} {entry : DirectoryEntry} (well : WellFormed reserved fs)
  (live : LiveEntry fs (entry, file.location))

include well live

/-- The contents have the size of the entry. -/
theorem length_content (archive : entry.attributes = 32) : (fs.content entry).length = entry.size.toNat := by
  obtain ⟨dir, dirLive, listed⟩ := live
  obtain ⟨_, clusters, stored⟩ := well.storedFile dirLive listed archive
  have covered := stored.covered well.geometry
  rw [stored.owned.content_eq, fileBytes, List.length_take_of_le (by rw [well.geometry.length_chainBytes]; exact covered)]

/-- A read returns the contents. -/
theorem read_content (archive : entry.attributes = 32) : file.read fs = (.value (fs.content entry), fs) := by
  obtain ⟨dir, dirLive, listed⟩ := live
  obtain ⟨_, clusters, stored⟩ := well.storedFile dirLive listed archive
  rw [stored.owned.content_eq]
  exact read_stored well.geometry stored

/-- A write inside the file overwrites its contents and keeps everything else, and a refused write changes nothing. -/
theorem write_edited (offset : Nat) (bytes : List UInt8) :
    (file.write offset bytes fs = (.missing, fs) ∧
      (entry.attributes = 32 → entry.size.toNat < offset + bytes.length)) ∨
      ∃ dir after, file.write offset bytes fs = (.value bytes.length, after) ∧ LiveDirectory fs dir ∧
        entry.isDirectory = false ∧ OthersKept fs after file.location ∧
        Edited fs after dir (some (entry, file.location)) (some (entry, file.location)) ∧
        offset + bytes.length ≤ entry.size.toNat ∧
        after.content entry = overwrite (fs.content entry) offset bytes := by
  obtain ⟨dir, dirLive, listed⟩ := live
  by_cases archive : entry.attributes = 32
  · obtain ⟨regular, clusters, stored⟩ := well.storedFile dirLive listed archive
    change StoredFile fs file.location entry clusters at stored
    by_cases fits : offset + bytes.length ≤ entry.size.toNat
    · obtain ⟨after, returned, change, _, written⟩ := write_stored well.geometry stored fits
      have edited := change.edit well dirLive listed regular stored rfl rfl stored.exact
      refine .inr ⟨dir, after, returned, dirLive, notDirectory_of_regular regular,
        change.othersKept well dirLive listed regular stored edited, edited, fits, ?_⟩
      rw [change.owned.content_eq, written, stored.owned.content_eq]
    · have outside := Nat.lt_of_not_le fits
      exact .inl ⟨write_outside well.geometry stored outside, fun _ => outside⟩
  · refine .inl ⟨?_, fun isArchive => absurd isArchive archive⟩
    have refused : writeExistingFile entry offset bytes fs = (.missing, fs) := by
      rw [writeExistingFile, get_bind, if_pos (by simpa using archive)]
      rfl
    rw [FATFile.write, bind_value (readDirectoryEntry_live well listed), bind_missing refused]

/-- A truncation resizes the contents and keeps everything else, or changes nothing. -/
theorem truncate_edited (size : Nat) :
    file.truncate size fs = (.missing, fs) ∨
      ∃ dir newEntry after, file.truncate size fs = (.value (), after) ∧ LiveDirectory fs dir ∧
        entry.isDirectory = false ∧ newEntry.isDirectory = false ∧ OthersKept fs after file.location ∧
        Edited fs after dir (some (entry, file.location)) (some (newEntry, file.location)) ∧
        newEntry.attributes = 32 ∧ newEntry.size.toNat = size ∧
        after.content newEntry = (fs.content entry ++ List.replicate size 0).take size := by
  have length := length_content well live
  obtain ⟨dir, dirLive, listed⟩ := live
  by_cases archive : entry.attributes = 32
  · obtain ⟨regular, clusters, stored⟩ := well.storedFile dirLive listed archive
    change StoredFile fs file.location entry clusters at stored
    rcases truncateExistingFile_stored well.geometry stored size with
      missing | ⟨after, newEntry, newClusters, returned, truncated⟩
    · exact .inl missing
    · have edited := truncated.change.edit well dirLive listed regular stored truncated.name truncated.attributes
        (by rw [truncated.exact, truncated.size])
      have notDirectory := notDirectory_of_regular regular
      have sameKind := (kind_congr truncated.name truncated.attributes).2.2
      refine .inr ⟨dir, newEntry, after, returned, dirLive, notDirectory, sameKind.trans notDirectory,
        truncated.change.othersKept well dirLive listed regular stored edited, edited,
        truncated.attributes.trans archive, truncated.size, ?_⟩
      rw [stored.owned.content_eq] at length ⊢
      rw [truncated.change.owned.content_eq, truncated.bytes, List.take_append, List.take_append, List.take_replicate,
        List.take_replicate, length archive]
      congr 2
      omega
  · refine .inl ?_
    rw [FATFile.truncate, truncateExistingFile, bind_value (readDirectoryEntry_live well listed),
      if_pos (by simpa using archive)]
    rfl

end Handle

end Content

section OneFile

/-- This volume holds one empty file in its root directory. -/
def oneFileVolume : Volume := (@createFile _ _ Text.asciiTables freshVolume.root ['a'] freshVolume).2

/-- This handle names the file of the volume. -/
def oneFile : FATFile := ⟨blankEntry (Bytes.fill 0x20 [0x41]) 0x20, ['a'], ⟨2, 0, 0⟩⟩

theorem createFile_freshVolume : @createFile _ _ Text.asciiTables freshVolume.root ['a'] freshVolume =
    (.value ⟨oneFile.entry, oneFile.location, ['a'], []⟩, oneFileVolume) :=
  eq_of_outcome (by decide +kernel)

theorem wellFormed_oneFileVolume :
    WellFormed (fun _ _ => False) oneFileVolume ∧ LiveEntry oneFileVolume (oneFile.entry, oneFile.location) := by
  have live := liveDirectory_root freshVolume
  rcases @createFile_edited Text.asciiTables _ _ _ wellFormed_freshVolume live ['a'] with
    ⟨after, missing, _⟩ | ⟨located, after, returned, _, edited⟩
  · rw [createFile_freshVolume] at missing
    cases missing
  · rw [createFile_freshVolume, Prod.mk.injEq, Outcome.value.injEq] at returned
    obtain ⟨rfl, rfl⟩ := returned
    exact ⟨edited.wellFormed wellFormed_freshVolume live, edited.liveEntry wellFormed_freshVolume live rfl⟩

end OneFile

end FATFileSystem

namespace FATFileSystem

/-- A caller names a directory by its entry and a file by its handle. -/
inductive Operation where
  | createFile (dir : DirectoryEntry) (name : List Char)
  | createDirectory (parent : DirectoryEntry) (name : List Char)
  | unlinkFile (parent : DirectoryEntry) (name : List Char)
  | removeDirectory (parent : DirectoryEntry) (name : List Char)
  | write (file : FATFile) (offset : Nat) (bytes : List UInt8)
  | truncate (file : FATFile) (size : Nat)

namespace Operation

section Call

variable [Unicode]

/-- The call drops the returned value. -/
def call : Operation → FsM SectorArray Unit
  | .createFile dir name => do
    let _ ← FATFileSystem.createFile dir name
    pure ()
  | .createDirectory parent name => FATFileSystem.createDirectory parent name
  | .unlinkFile parent name => FATFileSystem.unlinkFile parent name
  | .removeDirectory parent name => FATFileSystem.removeDirectory parent name
  | .write file offset bytes => do
    let _ ← file.write offset bytes
    pure ()
  | .truncate file size => file.truncate size

/-- This is the volume after the call, whether it returned a value or not. -/
def apply (operation : Operation) (fs : Volume) : Volume := (operation.call fs).2

theorem apply_createFile {dir : DirectoryEntry} {name : List Char} {fs after : Volume}
    {located : LocatedDirectoryEntry} (returned : FATFileSystem.createFile dir name fs = (.value located, after)) :
    (Operation.createFile dir name).apply fs = after := by
  rw [apply, call, bind_value returned]
  rfl

end Call

/-- A handle is current while its directory or its slot is live. -/
def Current : Operation → Volume → Prop
  | .createFile dir _, fs => LiveDirectory fs (fs.directoryCluster dir)
  | .createDirectory parent _, fs => LiveDirectory fs (fs.directoryCluster parent)
  | .unlinkFile parent _, fs => LiveDirectory fs (fs.directoryCluster parent)
  | .removeDirectory parent _, fs => LiveDirectory fs (fs.directoryCluster parent)
  | .write file _ _, fs => ∃ entry, LiveEntry fs (entry, file.location)
  | .truncate file _, fs => ∃ entry, LiveEntry fs (entry, file.location)

/-- An operation spares the file at a location when it neither changes nor unlinks it. -/
def Spares [Unicode] (location : DirectoryEntryLocation) : Operation → Volume → Prop
  | .unlinkFile parent name, fs =>
    ∀ located, findEntryByName parent name fs = (.value located, fs) → located.location ≠ location
  | .write file _ _, _ => file.location ≠ location
  | .truncate file _, _ => file.location ≠ location
  | _, _ => True

end Operation

section Run

variable [Unicode] {reserved : Nat → UInt32 → Prop} {fs : Volume}

/-- An operation changes nothing or edits one live directory and no file that it spares. -/
theorem Operation.edits (well : WellFormed reserved fs) (operation : Operation) (current : operation.Current fs) :
    (operation.call fs).1 ≠ .hang ∧
      (operation.apply fs = fs ∨
        ∃ dir old new, LiveDirectory fs dir ∧ Edited fs (operation.apply fs) dir old new ∧
          ∀ slot, old = some slot → slot.1.isDirectory = true ∨ ¬ operation.Spares slot.2 fs) := by
  unfold apply
  cases operation with
  | createFile dir name =>
    rcases createFile_edited well current name with ⟨after, missing, edited⟩ | ⟨located, after, returned, _, edited⟩
    · rw [call, bind_missing missing]
      exact ⟨by simp, .inr ⟨_, _, _, current, edited, by simp⟩⟩
    · rw [call, bind_value returned]
      exact ⟨by simp, .inr ⟨_, _, _, current, edited, by simp⟩⟩
  | createDirectory parent name =>
    rcases createDirectory_edited well current name with ⟨after, missing, edited⟩ | ⟨slot, after, returned, _, edited, _⟩
    · rw [call, missing]
      exact ⟨by simp, .inr ⟨_, _, _, current, edited, by simp⟩⟩
    · rw [call, returned]
      exact ⟨by simp, .inr ⟨_, _, _, current, edited, by simp⟩⟩
  | unlinkFile parent name =>
    rcases unlinkFile_edited well current name with missing | ⟨located, after, returned, found, _, edited⟩
    · rw [call, missing]
      exact ⟨by simp, .inl rfl⟩
    · rw [call, returned]
      exact ⟨by simp, .inr ⟨_, _, _, current, edited, by rintro _ ⟨rfl⟩; exact .inr fun spares => spares _ found rfl⟩⟩
  | removeDirectory parent name =>
    rcases removeDirectory_edited well current name with missing | ⟨located, after, returned, _, directory, edited⟩
    · rw [call, missing]
      exact ⟨by simp, .inl rfl⟩
    · rw [call, returned]
      exact ⟨by simp, .inr ⟨_, _, _, current, edited, by rintro _ ⟨rfl⟩; exact .inl directory⟩⟩
  | write file offset bytes =>
    obtain ⟨entry, live⟩ := current
    rcases write_edited well live offset bytes with
      ⟨missing, _⟩ | ⟨dir, after, returned, dirLive, _, _, edited, _⟩
    · rw [call, bind_missing missing]
      exact ⟨by simp, .inl rfl⟩
    · rw [call, bind_value returned]
      exact ⟨by simp, .inr ⟨_, _, _, dirLive, edited, by rintro _ ⟨rfl⟩; exact .inr fun spares => spares rfl⟩⟩
  | truncate file size =>
    obtain ⟨entry, live⟩ := current
    rcases truncate_edited well live size with
      missing | ⟨dir, newEntry, after, returned, dirLive, _, _, _, edited, _⟩
    · rw [call, missing]
      exact ⟨by simp, .inl rfl⟩
    · rw [call, returned]
      exact ⟨by simp, .inr ⟨_, _, _, dirLive, edited, by rintro _ ⟨rfl⟩; exact .inr fun spares => spares rfl⟩⟩

/-- One operation with a current handle keeps the volume well formed. -/
theorem Operation.apply_wellFormed (well : WellFormed reserved fs) (operation : Operation)
    (current : operation.Current fs) : WellFormed reserved (operation.apply fs) := by
  rcases (operation.edits well current).2 with same | ⟨dir, old, new, live, edited, _⟩
  · rw [same]
    exact well
  · exact edited.wellFormed well live

/-- Every volume that a run with current handles reaches is well formed, and its operations return. -/
theorem run_wellFormed (reserved : Nat → UInt32 → Prop) (fs after : Volume) (well : WellFormed reserved fs)
    (reached : Reached Operation.apply Operation.Current fs after) :
    WellFormed reserved after ∧
      ∀ operation : Operation, operation.Current after → (operation.call after).1 ≠ .hang := by
  have result := reached.invariant well fun operation between kept current =>
    operation.apply_wellFormed kept current
  exact ⟨result, fun operation current => (operation.edits result current).1⟩

end Run

/-- The run that creates one file keeps the fresh volume well formed. -/
theorem run_one_file :
    Reached (@Operation.apply Text.asciiTables) Operation.Current freshVolume oneFileVolume ∧
      WellFormed (fun _ _ => False) oneFileVolume := by
  have reached : Reached (@Operation.apply Text.asciiTables) Operation.Current freshVolume
      (@Operation.apply Text.asciiTables (.createFile freshVolume.root ['a']) freshVolume) :=
    .step .start _ (liveDirectory_root freshVolume)
  have same := @Operation.apply_createFile Text.asciiTables _ _ _ _ _ createFile_freshVolume
  rw [same] at reached
  exact ⟨reached, (@run_wellFormed Text.asciiTables _ _ _ wellFormed_freshVolume reached).1⟩

/-- This handle names the second file of a run. -/
def secondFile : FATFile := ⟨blankEntry (Bytes.fill 0x20 [0x42]) 0x20, ['b'], ⟨2, 1, 32⟩⟩

/-- The last call uses the handle of a file whose cluster belongs to another file by then. -/
def staleRun : List Operation :=
  [.createFile freshVolume.root ['a'], .createFile freshVolume.root ['b'], .truncate oneFile 1,
    .unlinkFile freshVolume.root ['a'], .truncate secondFile 1, .truncate oneFile 0]

/-- This volume is the result of the run. -/
def staleVolume : Volume := staleRun.foldl (fun fs operation => @Operation.apply Text.asciiTables operation fs) freshVolume

/-- The stale truncation frees the cluster of the second file, which is still live. -/
theorem stale_truncate_frees :
    WellFormed (fun _ _ => False) freshVolume ∧ ¬ WellFormed (fun _ _ => False) staleVolume := by
  refine ⟨wellFormed_freshVolume, fun well => ?_⟩
  obtain ⟨root, ends, inside, used, listed, named, first, free⟩ : staleVolume.root.getCluster = 2 ∧
      staleVolume.fat.nextCluster 2 = none ∧ 2 < staleVolume.fat.entries ∧ staleVolume.fat.word 2 ≠ 0 ∧
      (staleVolume.entryAt secondFile.location, secondFile.location) ∈ liveSlots (staleVolume.dirSlots [2]) ∧
      isDotName (staleVolume.entryAt secondFile.location).name = false ∧
      (staleVolume.entryAt secondFile.location).getCluster = 3 ∧ staleVolume.fat.word 3 = 0 := by
    decide +kernel
  have chain : FatBuffer.FileChain staleVolume.fat 2 [2] := ⟨.last ends, by simpa using inside, by simpa using used⟩
  have live : LiveEntry staleVolume (staleVolume.entryAt secondFile.location, secondFile.location) :=
    ⟨2, root ▸ .refl, [2], chain, listed, named⟩
  obtain ⟨clusters, fileChain⟩ := well.entry_chain live (by rw [first]; decide)
  rw [first] at fileChain
  exact fileChain.used 3 fileChain.first_mem free

end FATFileSystem

/-- The words of a table are read back from its bytes. -/
theorem words_toBytes (words : List UInt32) :
    (List.range words.length).map (fun index =>
      ofLe32 ((words.flatMap le32).getD (4 * index) 0) ((words.flatMap le32).getD (4 * index + 1) 0)
        ((words.flatMap le32).getD (4 * index + 2) 0) ((words.flatMap le32).getD (4 * index + 3) 0)) = words := by
  induction words with
  | nil => rfl
  | cons word rest ih =>
    rw [List.length_cons, List.range_succ_eq_map, List.map_cons, List.map_map]
    exact congrArg₂ List.cons (ofLe32_le32 word) ih

namespace FATFileSystem

section Run

variable {reserved : Nat → UInt32 → Prop} {fs after : Volume} {location : DirectoryEntryLocation}
  {contents : List UInt8} (well : WellFormed reserved fs)

include well

/-- The driver reads the table of a well-formed volume as it is in memory. -/
theorem WellFormed.readFat (copies : 0 < fs.bs.tableCount.toNat) :
    readFat fs.port fs.bs fs.bs32 = (some fs.fat, fs.port) := by
  have geometry := well.geometry
  have copy := well.synced 0 copies
  rw [fatCopy, fatStartSector, Nat.zero_mul, Nat.add_zero, geometry.sectorsPerFat_eq] at copy
  have length := geometry.length_toBytes
  rw [geometry.sectorsPerFat_eq] at length
  have whole : fs.fat.toBytes.length / 4 = fs.fat.fat.length := by
    rw [length, ← FatBuffer.entries, geometry.table, sectorSize]
    omega
  simp only [Fat.readFat, geometry.fat32, geometry.sectors, Port.read, bne_self_eq_false, Bool.false_eq_true, if_false,
    geometry.populated.ne', copy, Option.map_some, Nat.mul_comm _ sectorSize, ← length, List.take_left', whole]
  simp only [FatBuffer.toBytes, words_toBytes]

/-- After every run a driver that starts again reads the table that the old one keeps in memory. -/
theorem run_remount [Unicode] (copies : 0 < fs.bs.tableCount.toNat)
    (reached : Reached Operation.apply Operation.Current fs after) :
    readFat after.port fs.bs fs.bs32 = (some after.fat, after.port) := by
  have kept : WellFormed reserved after ∧ fs.bs = after.bs ∧ fs.bs32 = after.bs32 := by
    induction reached with
    | start => exact ⟨well, rfl, rfl⟩
    | step _ operation current ih =>
      obtain ⟨still, bs, bs32⟩ := ih
      refine ⟨operation.apply_wellFormed still current, ?_⟩
      rcases (operation.edits still current).2 with same | ⟨_, _, _, _, ⟨_, _, _, _, _, edit⟩, _⟩
      · rw [same]
        exact ⟨bs, bs32⟩
      · rw [edit.frame.bs, edit.frame.bs32]
        exact ⟨bs, bs32⟩
  obtain ⟨still, bs, bs32⟩ := kept
  rw [bs] at copies ⊢
  rw [bs32]
  exact still.readFat copies

/-- A regular file lies at a location and has these contents. -/
def Contains (fs : Volume) (location : DirectoryEntryLocation) (contents : List UInt8) : Prop :=
  ∃ entry, LiveEntry fs (entry, location) ∧ entry.attributes = 32 ∧ fs.content entry = contents

/-- An operation that returns changes the contents of its own file. -/
def Operation.changed [Unicode] (location : DirectoryEntryLocation) (operation : Operation) (fs : Volume)
    (contents : List UInt8) : List UInt8 :=
  match (operation.call fs).1, operation with
  | .value _, .write file offset bytes => if file.location = location then overwrite contents offset bytes else contents
  | .value _, .truncate file size =>
    if file.location = location then (contents ++ List.replicate size 0).take size else contents
  | _, _ => contents

theorem Operation.contains_apply [Unicode] (operation : Operation) (current : operation.Current fs)
    (kept : ∀ parent name, operation = .unlinkFile parent name → operation.Spares location fs)
    (contains : Contains fs location contents) :
    Contains (operation.apply fs) location (operation.changed location fs contents) := by
  obtain ⟨entry, live, archive, rfl⟩ := contains
  by_cases spares : operation.Spares location fs
  · have same : operation.changed location fs (fs.content entry) = fs.content entry := by
      unfold changed
      split
      · exact if_neg spares
      · exact if_neg spares
      · rfl
    rw [same]
    rcases (operation.edits well current).2 with unchanged | ⟨dir, old, new, dirLive, edited, touched⟩
    · rw [unchanged]
      exact ⟨entry, live, archive, rfl⟩
    · obtain ⟨_, own, listed⟩ := live
      have regular := (well.storedFile own listed archive).1
      have different : some (entry, location) ≠ old := by
        intro is
        rcases touched _ is.symm with directory | named
        · rw [notDirectory_of_regular regular] at directory
          contradiction
        · exact named spares
      obtain ⟨still, bytes⟩ := edited.file_kept well dirLive ⟨_, own, listed⟩ different
      exact ⟨entry, still, archive, (bytes regular).2⟩
  · unfold apply changed
    cases operation with
    | write file offset bytes =>
      obtain rfl : file.location = location := not_not.mp spares
      rcases write_edited well live offset bytes with
        ⟨missing, _⟩ | ⟨dir, after, returned, dirLive, _, _, edited, _, written⟩
      · rw [call, bind_missing missing]
        exact ⟨entry, live, archive, rfl⟩
      · rw [call, bind_value returned]
        exact ⟨entry, edited.liveEntry well dirLive rfl, archive, written.trans (if_pos rfl).symm⟩
    | truncate file size =>
      obtain rfl : file.location = location := not_not.mp spares
      rcases truncate_edited well live size with
        missing | ⟨dir, newEntry, after, returned, dirLive, _, _, _, edited, stillArchive, _, resized⟩
      · rw [call, missing]
        exact ⟨entry, live, archive, rfl⟩
      · rw [call, returned]
        exact ⟨newEntry, edited.liveEntry well dirLive rfl, stillArchive, resized.trans (if_pos rfl).symm⟩
    | unlinkFile parent name => exact absurd (kept parent name rfl) spares
    | _ => exact absurd trivial spares

/-- Through every run of operations on any files, a file that is not unlinked is the byte array that its own writes and
truncations leave. -/
theorem run_contents [Unicode] {last : Volume × List UInt8} (contains : Contains fs location contents)
    (reached : Reached (fun (operation : Operation) state =>
        (operation.apply state.1, operation.changed location state.1 state.2))
      (fun operation state => operation.Current state.1 ∧
        ∀ parent name, operation = .unlinkFile parent name → operation.Spares location state.1)
      (fs, contents) last) : Contains last.1 location last.2 := by
  have kept : WellFormed reserved last.1 ∧ Contains last.1 location last.2 := by
    induction reached with
    | start => exact ⟨well, contains⟩
    | step _ operation fits ih =>
      exact ⟨operation.apply_wellFormed ih.1 fits.1, operation.contains_apply ih.1 fits.1 fits.2 ih.2⟩
  exact kept.2

end Run

/-- The table of a volume with one file is read back. -/
theorem run_remount_one_file :
    readFat oneFileVolume.port freshVolume.bs freshVolume.bs32 = (some oneFileVolume.fat, oneFileVolume.port) := by
  rw [← @Operation.apply_createFile Text.asciiTables _ _ _ _ _ createFile_freshVolume]
  exact @run_remount _ _ _ wellFormed_freshVolume Text.asciiTables (by decide)
    (.step .start _ (liveDirectory_root freshVolume))

/-- The empty file grows to one zero. -/
theorem run_contents_one_file :
    Contains (@Operation.apply Text.asciiTables (.truncate oneFile 1) oneFileVolume) oneFile.location
        (@Operation.changed Text.asciiTables oneFile.location (.truncate oneFile 1) oneFileVolume []) ∧
      @Operation.changed Text.asciiTables oneFile.location (.truncate oneFile 1) oneFileVolume [] = [0] := by
  obtain ⟨well, live⟩ := wellFormed_oneFileVolume
  have empty : Contains oneFileVolume oneFile.location [] := ⟨oneFile.entry, live, rfl, List.take_zero⟩
  refine ⟨?_, by decide +kernel⟩
  generalize oneFileVolume = fs at well live empty
  exact @run_contents _ fs _ _ well Text.asciiTables (_, _) empty
    (.step .start (Operation.truncate oneFile 1) ⟨⟨_, live⟩, fun _ _ never => (by cases never)⟩)

end FATFileSystem

end BubbleOs.Fat
