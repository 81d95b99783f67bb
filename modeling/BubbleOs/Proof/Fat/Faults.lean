import BubbleOs.Proof.Fat.Run

namespace BubbleOs.Fat

open Attempt

/-- The call ends without a report: a read fails, the first write fails, or the entry cannot be saved. -/
def Unreported (faults : Nat → Bool) (access total count : Nat) : Prop :=
  if count = total then ¬ Clear faults (access + 2 * count) 2
  else faults (access + 2 * count) = true ∨ count = 0 ∨ ¬ Clear faults (access + 2 * count + 2) 2

namespace FATFileSystem

section Write

variable {fs : Volume} {file : FATFile} {entry : DirectoryEntry} {clusters : List Nat} {offset : Nat}
  {bytes : List UInt8}

/-- The file after a write that has stopped. -/
structure WrittenFile (before after : Volume) (location : DirectoryEntryLocation) (entry : DirectoryEntry)
    (clusters : List Nat) (offset : Nat) (bytes : List UInt8) : Prop where
  stored : after.entryAt location = entry
  fat : after.fat = before.fat
  bytes : after.fileBytes entry clusters = overwrite (before.fileBytes entry clusters) offset bytes

theorem WrittenFile.frame {middle after : Volume} (stored : StoredFile fs file.location entry clusters)
    (written : WrittenFile fs middle file.location entry clusters offset bytes) (fat : after.fat = middle.fat)
    (frame : Frame middle after (fun _ => False) (fun _ => False)) :
    WrittenFile fs after file.location entry clusters offset bytes where
  stored := by rw [entryAt, frame.data _ stored.valid.cluster id, ← entryAt, written.stored]
  fat := fat.trans written.fat
  bytes := by
    have low (cluster : Nat) (member : cluster ∈ clusters) := (stored.owned.inside cluster member).1
    rw [fileBytes, frame.chainBytes_eq low fun _ _ => id, ← fileBytes, written.bytes]

theorem Overwritten.writtenFile (geometry : Geometry fs) {middle : Volume}
    (stored : StoredFile fs file.location entry clusters) (written : Overwritten fs middle clusters offset bytes)
    (fits : offset + bytes.length ≤ entry.size.toNat) :
    WrittenFile fs middle file.location entry clusters offset bytes where
  stored := by rw [entryAt, written.frame.data _ stored.valid.cluster stored.apart, ← entryAt, stored.stored]
  fat := written.fat
  bytes := by
    have covered := stored.covered geometry
    have total := geometry.length_chainBytes clusters
    rw [fileBytes, written.bytes, fileBytes, take_overwrite _ _ _ _ fits (by omega)]

variable {P : Type} [Port P] {place : SectorArray → Nat → P} {faults : Nat → Bool} (disk : Counts place faults)

include disk

/-- Saving the entry that is in the slot changes nothing, and the report is lost when one of the accesses fails. -/
theorem save_same (geometry : Geometry fs) {location : DirectoryEntryLocation} (valid : ValidLocation fs location)
    (reported access : Nat) :
    ∃ (after : Volume) (next : Nat), after.fat = fs.fat ∧ Frame fs after (fun _ => False) (fun _ => False) ∧
      ((¬ Clear faults access 2 ∧
          (persistDirectoryEntry location (fs.entryAt location) >>= fun _ => pure reported) (fs.on place access) =
            (.missing, after.on place next)) ∨
        (Clear faults access 2 ∧
          (persistDirectoryEntry location (fs.entryAt location) >>= fun _ => pure reported) (fs.on place access) =
            (.value reported, after.on place next))) := by
  rcases persistDirectoryEntry_counted disk valid geometry (fs.entryAt location) access with
    ⟨clear, returned⟩ | ⟨fails, next, returned⟩
  · refine ⟨fs.withSlot location (fs.entryAt location), access + 2, rfl, frame_withSlot_stored geometry valid,
      .inr ⟨clear, ?_⟩⟩
    rw [bind_value returned]
    rfl
  · exact ⟨fs, next, rfl, .refl fs _ _, .inl ⟨fails, bind_missing returned _⟩⟩

/-- A write inside the file stops at the first failure, and the call tells how far it came or nothing. -/
theorem write_stored_counted (geometry : Geometry fs)
    (stored : StoredFile fs file.location entry clusters) (more : bytes ≠ [])
    (fits : offset + bytes.length ≤ entry.size.toNat) {access : Nat} (works : faults access = false) :
    ∃ count after next, StopsAfter faults (access + 1) (fs.writePieces offset bytes.length) count ∧
      WrittenFile fs after file.location entry clusters offset (bytes.take (fs.writeReach offset bytes.length count)) ∧
      ((Unreported faults (access + 1) (fs.writePieces offset bytes.length) count ∧
          file.write offset bytes (fs.on place access) = (.missing, after.on place next)) ∨
        (¬ Unreported faults (access + 1) (fs.writePieces offset bytes.length) count ∧
          file.write offset bytes (fs.on place access) =
            (.value (fs.writeReach offset bytes.length count), after.on place next))) := by
  obtain ⟨count, middle, stops, written, inner⟩ := writeExistingFile_chain disk geometry stored.archive
    (stored.chain geometry (by have := List.length_pos_iff.mpr more; omega)) more fits (stored.covered geometry) (access + 1)
  have taken : (bytes.take (fs.writeReach offset bytes.length count)).length ≤ bytes.length := by
    rw [List.length_take]
    exact Nat.min_le_right _ _
  have reached := written.writtenFile geometry stored (by omega)
  have save := save_same disk (written.frame.geometry geometry) (stored.valid.frame written.frame)
  rw [reached.stored] at save
  have opened : file.write offset bytes (fs.on place access) =
      (writeExistingFile entry offset bytes >>= fun bytesWritten => do
        persistDirectoryEntry file.location entry
        pure bytesWritten) (fs.on place (access + 1)) := by
    rw [FATFile.write, bind_value (readDirectoryEntry_works disk stored.valid geometry works), stored.stored]
  rw [opened]
  by_cases all : count = fs.writePieces offset bytes.length
  · have whole : fs.writeReach offset bytes.length count = bytes.length := by
      rw [all]
      exact geometry.writeReach_all _ _
    rw [if_pos all] at inner
    obtain ⟨after, next, fat, frame, outcome⟩ := save bytes.length (access + 1 + 2 * count)
    refine ⟨count, after, next, stops, reached.frame stored fat frame, ?_⟩
    rw [bind_value inner, Unreported, if_pos all, not_not, whole]
    exact outcome
  · rw [if_neg all] at inner
    cases fault : faults (access + 1 + 2 * count) with
    | true =>
      rw [if_pos fault] at inner
      refine ⟨count, middle, _, stops, reached, .inl ⟨?_, bind_missing inner _⟩⟩
      rw [Unreported, if_neg all]
      exact .inl fault
    | false =>
      rw [if_neg (by simp [fault])] at inner
      by_cases none : count = 0
      · rw [if_pos none] at inner
        refine ⟨count, middle, _, stops, reached, .inl ⟨?_, bind_missing inner _⟩⟩
        rw [Unreported, if_neg all]
        exact .inr (.inl none)
      · rw [if_neg none] at inner
        obtain ⟨after, next, fat, frame, outcome⟩ := save (fs.writeReach offset bytes.length count)
          (access + 1 + 2 * count + 2)
        refine ⟨count, after, next, stops, reached.frame stored fat frame, ?_⟩
        rw [bind_value inner, Unreported, if_neg all, fault]
        simpa [none] using outcome

/-- A call that cannot read the entry, or that is refused, keeps the volume. -/
theorem write_refused_counted {reserved : Nat → UInt32 → Prop} (well : WellFormed reserved fs) (live : LiveEntry fs (entry, file.location)) (offset : Nat)
    (bytes : List UInt8) (access : Nat)
    (refused : ¬ (entry.attributes = 32 ∧ offset + bytes.length ≤ entry.size.toNat ∧ faults access = false)) :
    file.write offset bytes (fs.on place access) = (.missing, fs.on place (access + 1)) := by
  obtain ⟨dir, _, listed⟩ := live
  obtain ⟨valid, stored⟩ := listed.stored
  cases works : faults access with
  | true => rw [FATFile.write, bind_missing (readDirectoryEntry_fails disk valid works)]
  | false =>
    rw [FATFile.write, bind_value (readDirectoryEntry_works disk valid well.geometry works), stored]
    refine bind_missing ?_ _
    rw [writeExistingFile, get_bind]
    by_cases archive : entry.attributes = 32
    · rw [if_neg (by simp [archive]), if_pos (Nat.not_le.mp fun fits => refused ⟨archive, fits, works⟩), ite_self]
      rfl
    · rw [if_pos (by simp [archive])]
      rfl

/-- A write of no bytes changes nothing. -/
theorem write_nothing_counted (geometry : Geometry fs) (stored : StoredFile fs file.location entry clusters)
    (fits : offset ≤ entry.size.toNat) {access : Nat} (works : faults access = false) :
    ∃ after next, WrittenFile fs after file.location entry clusters offset [] ∧
      (file.write offset [] (fs.on place access) = (.missing, after.on place next) ∨
        file.write offset [] (fs.on place access) = (.value 0, after.on place next)) := by
  have bound := entry.size.toNat_lt
  obtain ⟨after, next, fat, frame, outcome⟩ := save_same disk geometry stored.valid 0 (access + 1)
  have written := (Overwritten.refl fs clusters offset).writtenFile geometry stored (by simpa using fits)
  have empty : writeExistingFile entry offset [] (fs.on place (access + 1)) =
      (.value 0, fs.on place (access + 1)) := by
    rw [writeExistingFile, get_bind, if_neg (by simp [stored.archive]),
      if_neg (by simp only [List.length_nil, usizeLimit]; omega), if_neg (by simpa using fits), if_pos List.isEmpty_nil]
    rfl
  rw [stored.stored] at outcome
  refine ⟨after, next, written.frame stored fat frame, ?_⟩
  rw [FATFile.write, bind_value (readDirectoryEntry_works disk stored.valid geometry works), stored.stored,
    bind_value empty]
  exact outcome.imp And.right And.right

end Write

/-- These are the contents of the file whose entry stands in a slot. -/
def contentAt (fs : Volume) (location : DirectoryEntryLocation) : List UInt8 := fs.content (fs.entryAt location)

/-- A write reports the bytes that it has written, and without a report it has written none. -/
def ReportsWritten (before after : Volume) (location : DirectoryEntryLocation) (offset : Nat) (bytes : List UInt8) :
    Outcome Nat → Prop
  | .value count => count ≤ bytes.length ∧ offset + count ≤ (before.contentAt location).length ∧
      after.contentAt location = overwrite (before.contentAt location) offset (bytes.take count)
  | .missing => after.contentAt location = before.contentAt location
  | .hang => False

section Report

variable {reserved : Nat → UInt32 → Prop} {fs : Volume} {file : FATFile} {entry : DirectoryEntry} {clusters : List Nat}
  {offset : Nat}

theorem WrittenFile.contentAt (stored : StoredFile fs file.location entry clusters) {after : Volume}
    {bytes : List UInt8} (written : WrittenFile fs after file.location entry clusters offset bytes) :
    after.contentAt file.location = overwrite (fs.contentAt file.location) offset bytes := by
  have owned : Owned after entry clusters := by
    unfold Owned
    rw [written.fat]
    exact stored.owned
  rw [FATFileSystem.contentAt, FATFileSystem.contentAt, written.stored, stored.stored, owned.content_eq, written.bytes,
    stored.owned.content_eq]

/-- A write reports what it did on a failing disk exactly when the bytes of a lost report were in the file already. -/
theorem write_reports_iff (well : WellFormed reserved fs) (file : FATFile) (entry : DirectoryEntry)
    (live : LiveEntry fs (entry, file.location)) (offset : Nat) (bytes : List UInt8) (faults : Nat → Bool)
    (access : Nat) :
    ReportsWritten fs (file.write offset bytes (fs.faulty faults access)).2.standing file.location offset bytes
        (file.write offset bytes (fs.faulty faults access)).1 ↔
      (entry.attributes = 0x20 → offset + bytes.length ≤ entry.size.toNat → faults access = false →
        ∀ count, StopsAfter faults (access + 1) (fs.writePieces offset bytes.length) count →
          Unreported faults (access + 1) (fs.writePieces offset bytes.length) count →
          ((fs.content entry).drop offset).take (fs.writeReach offset bytes.length count) =
            bytes.take (fs.writeReach offset bytes.length count)) := by
  by_cases accepted : entry.attributes = 32 ∧ offset + bytes.length ≤ entry.size.toNat ∧ faults access = false
  · obtain ⟨archive, fits, works⟩ := accepted
    have length := length_content well live archive
    obtain ⟨dir, dirLive, listed⟩ := live
    obtain ⟨_, clusters, stored⟩ := well.storedFile dirLive listed archive
    change StoredFile fs file.location entry clusters at stored
    have size : (fs.contentAt file.location).length = entry.size.toNat := by
      rw [contentAt, stored.stored, length]
    by_cases none : bytes = []
    · subst none
      rw [List.length_nil, Nat.add_zero] at fits
      obtain ⟨after, next, written, outcome⟩ := write_nothing_counted (counts_faulty faults) well.geometry stored fits works
      simp only [on_faulty] at outcome
      have kept := written.contentAt stored
      rw [overwrite_nil] at kept
      refine iff_of_true ?_ ?_
      · rcases outcome with returned | returned
        · rw [returned]
          exact kept
        · rw [returned]
          exact ⟨Nat.le_refl 0, by omega, by rw [standing_faulty, kept, List.take_nil, overwrite_nil]⟩
      · intro _ _ _ count _ _
        simp [writeReach, reached]
    · obtain ⟨count, after, next, stops, written, outcome⟩ := write_stored_counted (counts_faulty faults) well.geometry
        stored none fits works
      simp only [on_faulty] at outcome
      have kept := written.contentAt stored
      have within : fs.writeReach offset bytes.length count ≤ bytes.length := reached_le count
      have taken : (bytes.take (fs.writeReach offset bytes.length count)).length = fs.writeReach offset bytes.length count :=
        List.length_take_of_le within
      rcases outcome with ⟨lost, returned⟩ | ⟨reported, returned⟩
      · rw [returned]
        change after.contentAt file.location = fs.contentAt file.location ↔ _
        rw [kept, overwrite_eq_self_iff _ _ _ (by omega), taken, contentAt, stored.stored]
        refine ⟨fun same _ _ _ other otherStops _ => ?_, fun same => same archive fits works count stops lost⟩
        rw [otherStops.unique stops]
        exact same
      · rw [returned]
        refine iff_of_true ⟨within, by omega, kept⟩ fun _ _ _ other otherStops lost => ?_
        rw [otherStops.unique stops] at lost
        exact absurd lost reported
  · have refused := write_refused_counted (counts_faulty faults) well live offset bytes access accepted
    simp only [on_faulty] at refused
    rw [refused]
    exact iff_of_true rfl fun archive fits works => absurd ⟨archive, fits, works⟩ accepted

end Report

section ThreeBytes

/-- This volume holds one file of three zeros. -/
def threeBytes : Volume := (oneFile.truncate 3 oneFileVolume).2

/-- This handle names the file of three zeros. -/
def threeBytesFile : FATFile := { oneFile with entry := threeBytes.entryAt oneFile.location }

theorem wellFormed_threeBytes : WellFormed (fun _ _ => False) threeBytes ∧
    LiveEntry threeBytes (threeBytesFile.entry, threeBytesFile.location) := by
  obtain ⟨well, live⟩ := wellFormed_oneFileVolume
  have value : (oneFile.truncate 3 oneFileVolume).1 = .value () := by decide +kernel
  rcases truncate_edited well live 3 with missing | ⟨dir, newEntry, after, returned, dirLive, _, _, _, edited, _⟩
  · rw [missing] at value
    cases value
  · have reaches : threeBytes = after := by rw [threeBytes, returned]
    obtain ⟨place, placeLive, listed⟩ := edited.liveEntry well dirLive rfl
    rw [threeBytesFile, reaches, listed.stored.2]
    exact ⟨edited.wellFormed well dirLive, place, placeLive, listed⟩

/-- The write of one byte is reported on a disk that does not fail. -/
theorem write_reports_three_bytes :
    ReportsWritten threeBytes (threeBytesFile.write 1 [7] (threeBytes.faulty (fun _ => false) 0)).2.standing
      threeBytesFile.location 1 [7] (threeBytesFile.write 1 [7] (threeBytes.faulty (fun _ => false) 0)).1 := by
  rw [write_reports_iff wellFormed_threeBytes.1 threeBytesFile threeBytesFile.entry wellFormed_threeBytes.2]
  intro _ _ _ count stops lost
  have clear (start count : Nat) : Clear (fun _ => false) start count := fun _ _ _ => rfl
  have all := stops.stop.resolve_right fun fails => fails (clear _ _)
  rw [Unreported, if_pos all] at lost
  exact absurd (clear _ _) lost

/-- The byte is in the file, but the entry cannot be read again and the call returns without a report. -/
theorem write_unreported_three_bytes : WellFormed (fun _ _ => False) threeBytes ∧
    LiveEntry threeBytes (threeBytesFile.entry, threeBytesFile.location) ∧
    (threeBytesFile.write 1 [7] (threeBytes.faulty (· == 3) 0)).1 = .missing ∧
    threeBytes.contentAt threeBytesFile.location = [0, 0, 0] ∧
    (threeBytesFile.write 1 [7] (threeBytes.faulty (· == 3) 0)).2.standing.contentAt threeBytesFile.location = [0, 7, 0] :=
  ⟨wellFormed_threeBytes.1, wellFormed_threeBytes.2, by decide +kernel, by decide +kernel, by decide +kernel⟩

end ThreeBytes

end FATFileSystem

open FatBuffer

namespace FatBuffer

/-- Freeing a chain changes the table. -/
theorem FileChain.release_ne {buffer : FatBuffer} {first : Nat} {clusters : List Nat}
    (chain : FileChain buffer first clusters) : buffer.release clusters ≠ buffer := by
  intro same
  have member := chain.first_mem
  have word := word_release buffer clusters first
  rw [same, if_pos member] at word
  exact chain.used first member word

/-- A cut keeps the table exactly when it frees nothing and the end mark is there already. -/
theorem FileChain.cut_eq_self_iff {buffer : FatBuffer} {first last : Nat} {kept rest : List Nat}
    (chain : FileChain buffer first (kept ++ last :: rest)) :
    buffer.cut last rest = buffer ↔ rest = [] ∧ buffer.word last = fatClusterEof := by
  have words := word_cut chain
  constructor
  · intro same
    rw [same] at words
    have none : rest = [] := by
      refine List.eq_nil_iff_forall_not_mem.mpr fun cluster member => ?_
      have word := words cluster
      rw [if_pos member] at word
      exact chain.used cluster (by simp [member]) word
    have word := words last
    rw [none, if_neg List.not_mem_nil, if_pos rfl] at word
    exact ⟨none, word⟩
  · rintro ⟨rfl, mark⟩
    apply ext_word (entries_cut _ _ _)
    intro cluster
    rw [words, if_neg List.not_mem_nil]
    split
    · next same => rw [same, mark]
    · rfl

end FatBuffer

namespace FATFileSystem

/-- The chain of an entry ends with the mark that the driver writes. -/
def EndMarked (fs : Volume) (entry : DirectoryEntry) : Prop :=
  ∃ kept last, fs.entryClusters entry = kept ++ [last] ∧ fs.fat.word last = fatClusterEof

section Saves

variable {P : Type} [Port P] {place : SectorArray → Nat → P} {faults : Nat → Bool} (disk : Counts place faults)
  {fs : Volume} {location : DirectoryEntryLocation}

include disk

/-- The table in memory stays, and a failed save keeps the entry in the slot. -/
theorem saveTableAndEntry_counted (geometry : Geometry fs) (valid : ValidLocation fs location) (entry : DirectoryEntry)
    (access : Nat) :
    ∃ (after : Volume) (next : Nat), after.fat = fs.fat ∧
      ((Clear faults access (fs.bs.tableCount.toNat + 2) ∧
          saveTableAndEntry location entry (fs.on place access) = (.value (), after.on place next)) ∨
        (¬ Clear faults access (fs.bs.tableCount.toNat + 2) ∧ after.entryAt location = fs.entryAt location ∧
          saveTableAndEntry location entry (fs.on place access) = (.missing, after.on place next))) := by
  obtain ⟨middle, fat, frame, outcome⟩ := persistFat_counted disk geometry access
  have slot : middle.entryAt location = fs.entryAt location := by
    rw [entryAt, frame.data _ valid.cluster id, ← entryAt]
  rcases outcome with ⟨clear, _, returned⟩ | ⟨fails, next, returned⟩
  · rw [saveTableAndEntry, bind_value returned, clear_add_iff, and_iff_right clear]
    rcases persistDirectoryEntry_counted disk (valid.frame frame) (frame.geometry geometry) entry
      (access + fs.bs.tableCount.toNat) with ⟨saves, wrote⟩ | ⟨fails, next, wrote⟩
    · exact ⟨middle.withSlot location entry, _, fat, .inl ⟨saves, wrote⟩⟩
    · exact ⟨middle, next, fat, .inr ⟨fails, slot, wrote⟩⟩
  · exact ⟨middle, next, fat, .inr ⟨fun clear => fails (clear_add_iff.mp clear).1, slot, bind_missing returned _⟩⟩

/-- A save after a change of the table keeps the changed table in memory. -/
theorem saveNewTable_counted (geometry : Geometry fs) (valid : ValidLocation fs location) {table : FatBuffer}
    (size : table.entries = fs.fat.entries) (entry : DirectoryEntry) (access : Nat) :
    ∃ (after : Volume) (next : Nat), after.fat = table ∧
      ((Clear faults access (fs.bs.tableCount.toNat + 2) ∧
          saveTableAndEntry location entry ((fs.on place access).withTable table) =
            (.value (), after.on place next)) ∨
        (¬ Clear faults access (fs.bs.tableCount.toNat + 2) ∧ after.entryAt location = fs.entryAt location ∧
          saveTableAndEntry location entry ((fs.on place access).withTable table) =
            (.missing, after.on place next))) := by
  have frame : Frame fs (fs.withFat table) (fun _ => True) (fun _ => False) :=
    frame_withFat size (fun _ outside => absurd trivial outside) _
  exact saveTableAndEntry_counted disk (frame.geometry geometry) (valid.frame frame) entry access

end Saves

section Truncate

variable {P : Type} {place : SectorArray → Nat → P} {fs : Volume} {location : DirectoryEntryLocation}
  {entry : DirectoryEntry} {clusters : List Nat} {newSize : Nat} {newEntry : DirectoryEntry} {fresh : List Nat}

/-- A truncation to a larger size makes this many accesses before it saves the entry. -/
def growthAccesses (fs : Volume) (size newSize : Nat) : Nat :=
  2 * fs.writePieces size (newSize - size) + fs.bs.tableCount.toNat

/-- New words for the new clusters change the table. -/
theorem Continued.eq_iff {before after : FatBuffer} {first : Nat} {clusters fresh : List Nat}
    (continued : Continued before after first clusters fresh) (unchanged : fresh = [] → after = before) :
    after = before ↔ fresh = [] := by
  refine ⟨fun same => ?_, unchanged⟩
  refine List.eq_nil_iff_forall_not_mem.mpr fun cluster member => ?_
  refine continued.chain.used cluster (List.mem_append_right _ member) ?_
  rw [same, continued.free cluster member]

/-- The rollback restores the table exactly when the old chain had the end mark of the driver. -/
theorem rolledBack_eq_iff (stored : StoredFile fs location entry clusters) :
    rolledBack fs.fat clusters = fs.fat ↔ (clusters ≠ [] → fs.EndMarked entry) := by
  rw [EndMarked, stored.owned.entryClusters_eq]
  rcases List.eq_nil_or_concat' clusters with rfl | ⟨kept, last, rfl⟩
  · exact iff_of_true rfl fun some_ => absurd rfl some_
  · have inside := (stored.owned.inside last (by simp)).2
    rw [rolledBack_concat]
    constructor
    · intro same _
      have word := word_assign fs.fat last last fatClusterEof inside
      rw [same, if_pos rfl] at word
      exact ⟨kept, last, rfl, word⟩
    · intro marked
      obtain ⟨front, final, split, mark⟩ := marked (by simp)
      obtain ⟨_, equal⟩ := List.append_inj' split rfl
      rw [← List.singleton_injective equal] at mark
      apply FatBuffer.ext_word (entries_assign _ _ _)
      intro cluster
      rw [word_assign _ _ _ _ inside]
      split
      · next same => rw [same, mark]
      · rfl

/-- This is the part of a growth behind the link of the new clusters. -/
def finishGrowth {P : Type} [Port P] (entry newEntry : DirectoryEntry) (location : DirectoryEntryLocation)
    (oldClusterCount : Nat) (newChainStart : Option Nat) (oldSize newSize : Nat) : FsM P Unit := do
  match ← orNone (zeroFileRange newEntry.getCluster oldSize (newSize - oldSize)) with
  | none =>
    rollbackGrowth entry.getCluster oldClusterCount newChainStart
    fail
  | some () =>
    match ← orNone persistFat with
    | none =>
      rollbackGrowth entry.getCluster oldClusterCount newChainStart
      fail
    | some () => persistDirectoryEntry location { newEntry with size := UInt32.ofNat newSize }

/-- The rollback returns the table that the file had before. -/
theorem rollback_and_fail (stored : StoredFile fs location entry clusters) {after : Volume}
    (continued : Continued fs.fat after.fat newEntry.getCluster clusters fresh) (access : Nat) :
    (rollbackGrowth entry.getCluster clusters.length fresh.head? >>= fun _ => fail : FsM P Unit)
        (after.on place access) = (.missing, (after.withFat (rolledBack fs.fat clusters)).on place access) := by
  have placedContinued : Continued fs.fat (after.on place access).fat newEntry.getCluster clusters fresh := continued
  rw [bind_value (rollbackGrowth_continued stored.owned placedContinued)]
  rfl

variable [Port P]

/-- A growth finds too few free clusters, or it fails as its last part does. -/
theorem growExistingFile_link (place : SectorArray → Nat → P) (geometry : Geometry fs)
    (stored : StoredFile fs location entry clusters) (more : entry.size.toNat < newSize) (access : Nat) :
    (fs.fat.freeClusters.length < fs.clustersForSize newSize - fs.clustersForSize entry.size.toNat ∧
        growExistingFile entry location entry.size.toNat newSize (fs.on place access) =
          (.missing, fs.on place access)) ∨
      (fs.clustersForSize newSize - fs.clustersForSize entry.size.toNat ≤ fs.fat.freeClusters.length ∧
        ∃ newEntry fat fresh, Continued fs.fat fat newEntry.getCluster clusters fresh ∧
          (clusters ++ fresh).length = fs.clustersForSize newSize ∧ (fresh = [] → fat = fs.fat) ∧
          growExistingFile entry location entry.size.toNat newSize (fs.on place access) =
            finishGrowth entry newEntry location clusters.length fresh.head? entry.size.toNat newSize
              ((fs.withFat fat).on place access)) := by
  have positive := geometry.clusterSize_pos
  have exact := stored.exact
  have fewer : clusters.length ≤ fs.clustersForSize newSize := by
    rw [exact]
    exact clustersForSize_mono (by omega)
  have size : (fs.on place access).clusterSize = fs.clusterSize := rfl
  have opened : growExistingFile entry location entry.size.toNat newSize (fs.on place access) =
      (linkGrowth entry clusters.length (fs.clustersForSize newSize) >>= fun linked =>
        finishGrowth entry linked.1 location clusters.length linked.2 entry.size.toNat newSize)
          (fs.on place access) := by
    rw [growExistingFile, get_bind, if_neg (by omega), exact]
    rfl
  rw [opened, ← exact]
  rcases linkGrowth_continued (show (fs.on place access).fat.entries ≤ 0x0FFFFFF7 from geometry.limit)
    (show _ ∨ FatBuffer.FileChain (fs.on place access).fat entry.getCluster clusters from stored.owned)
    (geometry.clustersForSize_pos (show 0 < newSize by omega)) fewer with
    ⟨full, few⟩ | ⟨newEntry, fat, fresh, linked, continued, count, room, unchanged, _, _⟩
  · exact .inl ⟨few, bind_missing full _⟩
  · have free : fresh.length ≤ fs.fat.freeClusters.length := room
    have length := List.length_append ▸ count
    exact .inr ⟨by omega, newEntry, fat, fresh, continued, count, unchanged, bind_value linked _⟩

variable {faults : Nat → Bool} (disk : Counts place faults)

include disk

/-- A truncation to a smaller size changes the table in memory before the first access. -/
theorem shrinkExistingFile_counted (geometry : Geometry fs) (stored : StoredFile fs location entry clusters)
    (less : newSize < entry.size.toNat) (access : Nat) :
    ∃ (after : Volume) (next : Nat),
      (after.fat = fs.fat ↔ fs.clustersForSize newSize = fs.clustersForSize entry.size.toNat ∧ fs.EndMarked entry) ∧
      ((Clear faults access (fs.bs.tableCount.toNat + 2) ∧
          shrinkExistingFile entry location newSize (fs.on place access) = (.value (), after.on place next)) ∨
        (¬ Clear faults access (fs.bs.tableCount.toNat + 2) ∧ after.entryAt location = entry ∧
          shrinkExistingFile entry location newSize (fs.on place access) = (.missing, after.on place next))) := by
  have chain := stored.chain geometry (by omega)
  have owner := stored.owned.entryClusters_eq
  have positive := geometry.clusterSize_pos
  by_cases none : newSize = 0
  · subst none
    obtain ⟨after, next, fat, outcome⟩ := saveNewTable_counted disk geometry stored.valid
      (entries_release fs.fat clusters) { entry.setCluster 0 with size := 0 } access
    have placedChain : FatBuffer.FileChain (fs.on place access).fat entry.getCluster clusters := chain
    refine ⟨after, next, ?_, ?_⟩
    · rw [fat, clustersForSize_zero]
      exact iff_of_false chain.release_ne fun same => Nat.ne_of_lt (geometry.clustersForSize_pos less) same.1
    · rw [stored.stored] at outcome
      rw [shrinkExistingFile_release placedChain]
      exact outcome
  · have count : fs.clustersForSize newSize = (newSize + fs.clusterSize - 1) / fs.clusterSize := if_neg (by omega)
    have some_ := geometry.clustersForSize_pos (Nat.pos_of_ne_zero none)
    have fewer : fs.clustersForSize newSize ≤ clusters.length := by
      rw [stored.exact]
      exact clustersForSize_mono (by omega)
    obtain ⟨kept, last, rest, rfl, index⟩ := exists_split (show fs.clustersForSize newSize - 1 < clusters.length by omega)
    obtain ⟨after, next, fat, outcome⟩ := saveNewTable_counted disk geometry stored.valid
      (FatBuffer.entries_cut fs.fat last rest) { entry with size := UInt32.ofNat newSize } access
    have placedChain : FatBuffer.FileChain (fs.on place access).fat entry.getCluster (kept ++ last :: rest) := chain
    have exact := stored.exact
    rw [List.length_append, List.length_cons] at exact
    refine ⟨after, next, ?_, ?_⟩
    · rw [fat, chain.cut_eq_self_iff, EndMarked, owner]
      constructor
      · rintro ⟨rfl, mark⟩
        rw [List.length_nil] at exact
        exact ⟨by omega, kept, last, rfl, mark⟩
      · rintro ⟨same, front, final, split, mark⟩
        have empty : rest = [] := List.length_eq_zero_iff.mp (by omega)
        subst empty
        obtain ⟨_, equal⟩ := List.append_inj' split rfl
        rw [List.singleton_injective equal]
        exact ⟨rfl, mark⟩
    · rw [stored.stored] at outcome
      rw [shrinkExistingFile_cut placedChain positive (Nat.pos_of_ne_zero none) (by rw [index, count]; rfl)]
      exact outcome

/-- The growth is rolled back unless only the entry cannot be saved. -/
theorem finishGrowth_counted (geometry : Geometry fs) (stored : StoredFile fs location entry clusters)
    {fat : FatBuffer} (continued : Continued fs.fat fat newEntry.getCluster clusters fresh)
    (count : (clusters ++ fresh).length = fs.clustersForSize newSize) (more : entry.size.toNat < newSize)
    (access : Nat) :
    ∃ (after : Volume) (next : Nat), after.entryAt location = entry ∧
      ((¬ Clear faults access (fs.growthAccesses entry.size.toNat newSize) ∧ after.fat = rolledBack fs.fat clusters ∧
          finishGrowth entry newEntry location clusters.length fresh.head? entry.size.toNat newSize
            ((fs.withFat fat).on place access) = (.missing, after.on place next)) ∨
        (Clear faults access (fs.growthAccesses entry.size.toNat newSize) ∧
          ¬ Clear faults (access + fs.growthAccesses entry.size.toNat newSize) 2 ∧ after.fat = fat ∧
          finishGrowth entry newEntry location clusters.length fresh.head? entry.size.toNat newSize
            ((fs.withFat fat).on place access) = (.missing, after.on place next))) ∨
      (Clear faults access (fs.growthAccesses entry.size.toNat newSize) ∧
        Clear faults (access + fs.growthAccesses entry.size.toNat newSize) 2 ∧
        finishGrowth entry newEntry location clusters.length fresh.head? entry.size.toNat newSize
          ((fs.withFat fat).on place access) = (.value (), after.on place next)) := by
  have linkFrame : Frame fs (fs.withFat fat) (fun _ => True) (fun _ => False) :=
    frame_withFat continued.size (fun _ outside => absurd trivial outside) _
  have linkGeometry := linkFrame.geometry geometry
  have covered := geometry.size_le newSize
  obtain ⟨middle, middleFat, zeroFrame, zeroed⟩ := zeroFileRange_chain disk linkGeometry continued.chain
    (show 0 < newSize - entry.size.toNat by omega)
    (show entry.size.toNat + (newSize - entry.size.toNat) ≤ (clusters ++ fresh).length * fs.clusterSize by
      rw [count]
      omega) access
  have outside : location.cluster ∉ clusters ++ fresh := by
    rw [List.mem_append, not_or]
    exact ⟨stored.apart, fun inside => stored.used (continued.free _ inside)⟩
  have slot : middle.entryAt location = entry := by
    rw [entryAt, zeroFrame.data _ stored.valid.cluster outside, ← stored.stored]
    rfl
  have total : fs.growthAccesses entry.size.toNat newSize =
      2 * (fs.withFat fat).writePieces entry.size.toNat (newSize - entry.size.toNat) + fs.bs.tableCount.toNat := rfl
  rw [total, clear_add_iff]
  rcases zeroed with ⟨zeroClear, _, zeroed⟩ | ⟨fails, zeroNext, zeroed⟩
  · obtain ⟨saved, savedFat, saveFrame, save⟩ := persistFat_counted disk (zeroFrame.geometry linkGeometry)
      (access + 2 * (fs.withFat fat).writePieces entry.size.toNat (newSize - entry.size.toNat))
    have tables : middle.bs.tableCount = fs.bs.tableCount := by rw [zeroFrame.bs, linkFrame.bs]
    have savedSlot : saved.entryAt location = entry := by
      rw [entryAt, saveFrame.data _ stored.valid.cluster id, ← entryAt, slot]
    rw [tables] at save
    rw [and_iff_right zeroClear, finishGrowth, bind_value (orNone_value zeroed)]
    rcases save with ⟨saveClear, _, returned⟩ | ⟨fails, saveNext, returned⟩
    · rw [← Nat.add_assoc]
      rcases persistDirectoryEntry_counted disk ((stored.valid.frame linkFrame |>.frame zeroFrame).frame saveFrame)
        (saveFrame.geometry (zeroFrame.geometry linkGeometry)) { newEntry with size := UInt32.ofNat newSize }
        (access + 2 * (fs.withFat fat).writePieces entry.size.toNat (newSize - entry.size.toNat) + fs.bs.tableCount.toNat)
        with ⟨clear, wrote⟩ | ⟨fails, next, wrote⟩
      · exact ⟨_, _, .inr ⟨saveClear, clear, (bind_value (orNone_value returned) _).trans wrote⟩⟩
      · exact ⟨saved, next, .inl ⟨savedSlot, .inr ⟨saveClear, fails, savedFat.trans middleFat,
          (bind_value (orNone_value returned) _).trans wrote⟩⟩⟩
    · refine ⟨saved.withFat (rolledBack fs.fat clusters), saveNext, .inl ⟨savedSlot, .inl ⟨fails, rfl, ?_⟩⟩⟩
      have savedContinued : Continued fs.fat saved.fat newEntry.getCluster clusters fresh := by
        rw [savedFat, middleFat]
        exact continued
      exact (bind_value (orNone_missing returned) _).trans (rollback_and_fail stored savedContinued saveNext)
  · refine ⟨middle.withFat (rolledBack fs.fat clusters), zeroNext, .inl ⟨slot, .inl ⟨fun clear => fails clear.1, rfl, ?_⟩⟩⟩
    have middleContinued : Continued fs.fat middle.fat newEntry.getCluster clusters fresh := by
      rw [middleFat]
      exact continued
    exact (bind_value (orNone_missing zeroed) _).trans (rollback_and_fail stored middleContinued zeroNext)

end Truncate

/-- A call without a result keeps the table in memory and the entry in the slot. -/
def KeptOnFailure (before after : Volume) (location : DirectoryEntryLocation) (outcome : Outcome Unit) : Prop :=
  outcome = .missing → after.fat = before.fat ∧ after.entryAt location = before.entryAt location

section Failure

variable {reserved : Nat → UInt32 → Prop} {fs : Volume} {location : DirectoryEntryLocation} {entry : DirectoryEntry}
  {clusters : List Nat} {call : FsM FaultyDisk Unit} {newSize : Nat}

theorem keptOnFailure_value {state after : FATFileSystem FaultyDisk} (returned : call state = (.value (), after)) :
    KeptOnFailure fs (call state).2.standing location (call state).1 := by
  rw [returned]
  intro missing
  cases missing

theorem keptOnFailure_missing_iff {state : FATFileSystem FaultyDisk} {after : Volume} {faults : Nat → Bool}
    {next : Nat} (returned : call state = (.missing, after.faulty faults next))
    (slot : after.entryAt location = fs.entryAt location) :
    KeptOnFailure fs (call state).2.standing location (call state).1 ↔ after.fat = fs.fat := by
  rw [returned]
  exact ⟨fun kept => (kept rfl).1, fun fat _ => ⟨fat, slot⟩⟩

theorem shrink_restores_iff (geometry : Geometry fs) (stored : StoredFile fs location entry clusters)
    (less : newSize < entry.size.toNat) (faults : Nat → Bool) (access : Nat) :
    KeptOnFailure fs (shrinkExistingFile entry location newSize (fs.faulty faults access)).2.standing location
        (shrinkExistingFile entry location newSize (fs.faulty faults access)).1 ↔
      (¬ Clear faults access (fs.bs.tableCount.toNat + 2) →
        fs.clustersForSize newSize = fs.clustersForSize entry.size.toNat ∧ fs.EndMarked entry) := by
  obtain ⟨after, next, fat, ⟨clear, returned⟩ | ⟨fails, slot, returned⟩⟩ :=
    shrinkExistingFile_counted (counts_faulty faults) geometry stored less access
  · exact iff_of_true (keptOnFailure_value returned) fun fails => absurd clear fails
  · rw [on_faulty, on_faulty] at returned
    rw [keptOnFailure_missing_iff returned (slot.trans stored.stored.symm), fat]
    exact ⟨fun same _ => same, fun same => same fails⟩

theorem grow_restores_iff (geometry : Geometry fs) (stored : StoredFile fs location entry clusters)
    (more : entry.size.toNat < newSize) (faults : Nat → Bool) (access : Nat) :
    KeptOnFailure fs (growExistingFile entry location entry.size.toNat newSize (fs.faulty faults access)).2.standing location
        (growExistingFile entry location entry.size.toNat newSize (fs.faulty faults access)).1 ↔
      (fs.clustersForSize newSize - fs.clustersForSize entry.size.toNat ≤ fs.fat.freeClusters.length →
        (¬ Clear faults access (fs.growthAccesses entry.size.toNat newSize) → entry.size.toNat ≠ 0 → fs.EndMarked entry) ∧
        (Clear faults access (fs.growthAccesses entry.size.toNat newSize) →
          ¬ Clear faults (access + fs.growthAccesses entry.size.toNat newSize) 2 →
          fs.clustersForSize newSize = fs.clustersForSize entry.size.toNat)) := by
  have linked := growExistingFile_link (fun disk access => (⟨disk, faults, access⟩ : FaultyDisk)) geometry stored more access
  simp only [on_faulty] at linked
  rcases linked with
    ⟨few, returned⟩ | ⟨room, newEntry, fat, fresh, continued, count, unchanged, opened⟩
  · rw [keptOnFailure_missing_iff returned rfl]
    exact iff_of_true rfl fun room => absurd few (Nat.not_lt.mpr room)
  · have grows : fs.clustersForSize newSize = fs.clustersForSize entry.size.toNat ↔ fresh = [] := by
      rw [← count, ← stored.exact, List.length_append, Nat.add_eq_left, List.length_eq_zero_iff]
    have used : clusters ≠ [] ↔ entry.size.toNat ≠ 0 := by
      refine not_congr ⟨fun none => ?_, fun none => (stored.empty none).2⟩
      by_contra some_
      exact (stored.chain geometry (Nat.pos_of_ne_zero some_)).ne_nil none
    rw [grows]
    have finished := finishGrowth_counted (counts_faulty faults) geometry stored continued count more access
    simp only [on_faulty] at finished
    obtain ⟨after, next, ⟨slot, ⟨fails, fat, returned⟩ | ⟨clear, fails, fat, returned⟩⟩ | ⟨clear, saves, returned⟩⟩ :=
      finished
    · rw [keptOnFailure_missing_iff (opened.trans returned) (slot.trans stored.stored.symm), fat, rolledBack_eq_iff stored,
        used]
      exact ⟨fun marked _ => ⟨fun _ => marked, fun clear => absurd clear fails⟩, fun marked => (marked room).1 fails⟩
    · rw [keptOnFailure_missing_iff (opened.trans returned) (slot.trans stored.stored.symm), fat,
        continued.eq_iff unchanged]
      exact ⟨fun none _ => ⟨fun fails => absurd clear fails, fun _ _ => none⟩, fun none => (none room).2 clear fails⟩
    · exact iff_of_true (keptOnFailure_value (opened.trans returned)) fun _ =>
        ⟨fun fails => absurd clear fails, fun _ fails => absurd saves fails⟩

/-- A truncation that fails leaves the table and the entry exactly when the failure comes before the first change, the
rollback restores the end mark, or there was nothing to change. -/
theorem truncate_restores_iff (well : WellFormed reserved fs) (file : FATFile) (entry : DirectoryEntry)
    (live : LiveEntry fs (entry, file.location)) (newSize : Nat) (faults : Nat → Bool) (access : Nat) :
    KeptOnFailure fs (file.truncate newSize (fs.faulty faults access)).2.standing file.location
        (file.truncate newSize (fs.faulty faults access)).1 ↔
      (entry.attributes = 0x20 → newSize ≤ 0xFFFFFFFF → faults access = false →
        (newSize < entry.size.toNat → ¬ Clear faults (access + 1) (fs.bs.tableCount.toNat + 2) →
          fs.clustersForSize newSize = fs.clustersForSize entry.size.toNat ∧ fs.EndMarked entry) ∧
        (entry.size.toNat < newSize →
          fs.clustersForSize newSize - fs.clustersForSize entry.size.toNat ≤ fs.fat.freeClusters.length →
          (¬ Clear faults (access + 1) (fs.growthAccesses entry.size.toNat newSize) →
            entry.size.toNat ≠ 0 → fs.EndMarked entry) ∧
          (Clear faults (access + 1) (fs.growthAccesses entry.size.toNat newSize) →
            ¬ Clear faults (access + 1 + fs.growthAccesses entry.size.toNat newSize) 2 →
            fs.clustersForSize newSize = fs.clustersForSize entry.size.toNat))) := by
  obtain ⟨dir, dirLive, listed⟩ := live
  obtain ⟨valid, slot⟩ := listed.stored
  change fs.entryAt file.location = entry at slot
  cases works : faults access with
  | true =>
      have returned : file.truncate newSize (fs.faulty faults access) = (.missing, fs.faulty faults (access + 1)) := by
        have read := readDirectoryEntry_fails (counts_faulty faults) valid works
        rw [on_faulty, on_faulty] at read
        rw [FATFile.truncate, truncateExistingFile, bind_missing read]
      rw [keptOnFailure_missing_iff returned rfl]
      simp
  | false =>
      have opened : file.truncate newSize (fs.faulty faults access) =
          (if entry.attributes != 32 then fail
            else if newSize > 0xFFFFFFFF then fail
            else if newSize = entry.size.toNat then pure ()
            else if newSize < entry.size.toNat then shrinkExistingFile entry file.location newSize
            else growExistingFile entry file.location entry.size.toNat newSize : FsM FaultyDisk Unit)
              (fs.faulty faults (access + 1)) := by
        have read := readDirectoryEntry_works (counts_faulty faults) valid well.geometry works
        rw [on_faulty, on_faulty, slot] at read
        rw [FATFile.truncate, truncateExistingFile, bind_value read]
      by_cases archive : entry.attributes = 32
      · obtain ⟨_, clusters, stored⟩ := well.storedFile dirLive listed archive
        by_cases small : newSize ≤ 0xFFFFFFFF
        · rw [if_neg (by simp [archive]), if_neg (Nat.not_lt.mpr small)] at opened
          simp only [archive, small, true_imp_iff]
          rcases Nat.lt_trichotomy newSize entry.size.toNat with less | same | more
          · rw [if_neg (Nat.ne_of_lt less), if_pos less] at opened
            rw [opened, shrink_restores_iff well.geometry stored less]
            exact ⟨fun kept => ⟨fun _ => kept, fun more => absurd more (Nat.not_lt.mpr (Nat.le_of_lt less))⟩,
              fun kept => kept.1 less⟩
          · rw [if_pos same] at opened
            exact iff_of_true (keptOnFailure_value opened)
              ⟨fun less => absurd same (Nat.ne_of_lt less), fun more => absurd same (Nat.ne_of_gt more)⟩
          · rw [if_neg (Nat.ne_of_gt more), if_neg (Nat.not_lt.mpr (Nat.le_of_lt more))] at opened
            rw [opened, grow_restores_iff well.geometry stored more]
            exact ⟨fun kept => ⟨fun less => absurd less (Nat.not_lt.mpr (Nat.le_of_lt more)), fun _ => kept⟩,
              fun kept => kept.2 more⟩
        · rw [if_neg (by simp [archive]), if_pos (Nat.not_le.mp small)] at opened
          rw [keptOnFailure_missing_iff opened rfl]
          exact iff_of_true rfl fun _ fits => absurd fits small
      · rw [if_pos (by simp [archive])] at opened
        rw [keptOnFailure_missing_iff opened rfl]
        exact iff_of_true rfl fun same => absurd same archive

end Failure

section ThreeBytes

/-- The truncation of the three bytes on a disk that does not fail is no failure. -/
theorem truncate_restores_three_bytes :
    KeptOnFailure threeBytes (threeBytesFile.truncate 0 (threeBytes.faulty (fun _ => false) 0)).2.standing
      threeBytesFile.location (threeBytesFile.truncate 0 (threeBytes.faulty (fun _ => false) 0)).1 := by
  have clear (start count : Nat) : Clear (fun _ => false) start count := fun _ _ _ => rfl
  rw [truncate_restores_iff wellFormed_threeBytes.1 threeBytesFile threeBytesFile.entry wellFormed_threeBytes.2]
  exact fun _ _ _ => ⟨fun _ fails => absurd (clear _ _) fails, fun _ _ =>
    ⟨fun fails => absurd (clear _ _) fails, fun _ fails => absurd (clear _ _) fails⟩⟩

/-- The table cannot be saved, the entry still names cluster three, and the driver would give that cluster away. -/
theorem truncate_loses_three_bytes : WellFormed (fun _ _ => False) threeBytes ∧
    LiveEntry threeBytes (threeBytesFile.entry, threeBytesFile.location) ∧
    (threeBytesFile.truncate 0 (threeBytes.faulty (· == 1) 0)).1 = .missing ∧
    ((threeBytesFile.truncate 0 (threeBytes.faulty (· == 1) 0)).2.standing.entryAt threeBytesFile.location).getCluster = 3 ∧
    threeBytes.fat.word 3 = fatClusterEof ∧
    (threeBytesFile.truncate 0 (threeBytes.faulty (· == 1) 0)).2.fat.findFreeCluster = some 3 :=
  ⟨wellFormed_threeBytes.1, wellFormed_threeBytes.2, by decide +kernel, by decide +kernel, by decide +kernel,
    by decide +kernel⟩

end ThreeBytes

end FATFileSystem

end BubbleOs.Fat
