import BubbleOs.Proof.Fat.Directory
import BubbleOs.Proof.Fat.Edit

namespace BubbleOs.Fat

open Attempt DirectoryEntry
open FatBuffer (FileChain)

section Insert

/-- A new group in a free run adds its entry to the live slots. -/
theorem liveSlots_insert {front run back stored : List Slot} {slot : Slot}
    (clean : EndsClean (front ++ run ++ back)) (used : ∀ other ∈ front, other.1.isEndMarker = false)
    (free : ∀ other ∈ run, isFreeSlot other = true) (notEnd : ∀ other ∈ stored, other.1.isEndMarker = false)
    (only : liveSlots stored = [slot]) :
    liveSlots (front ++ run ++ back) = liveSlots front ++ liveSlots back ∧
      liveSlots (front ++ stored ++ back) = liveSlots front ++ slot :: liveSlots back ∧
      EndsClean (front ++ stored ++ back) := by
  rw [List.append_assoc] at clean
  obtain ⟨same, backClean⟩ := liveSlots_free back free ((endsClean_append used).mp clean)
  rw [List.append_assoc, List.append_assoc]
  refine ⟨?_, ?_, ?_⟩
  · rw [liveSlots_append _ used, same]
  · rw [liveSlots_append _ used, liveSlots_append _ notEnd, only]
    rfl
  · rw [endsClean_append used, endsClean_append notEnd]
    exact backClean

end Insert

namespace FATFileSystem

section Extend

variable {fs after : Volume} {dir : Nat} {clusters fresh : List Nat}

/-- An extension of a directory is an edit without an entry. -/
theorem Extended.edit (extended : Extended fs after dir clusters fresh)
    (chain : FileChain fs.fat dir clusters) (clean : EndsClean (fs.dirSlots clusters)) :
    Edit fs after dir clusters fresh none none [] [] := by
  obtain ⟨ends, slots, _, ended⟩ := extended.dirSlots_eq chain
  have same : liveSlots (after.dirSlots (clusters ++ fresh)) = liveSlots (fs.dirSlots clusters) := by
    rw [slots, liveSlots_append_ends _ ended]
  constructor
  case frame =>
    refine extended.frame.mono ?_ fun cluster free => .inr (.inr free)
    rintro cluster (inside | inside)
    · exact .inl inside
    · exact .inr (.inr (extended.free cluster inside))
  case chain => exact extended.chain
  case clean =>
    rw [slots]
    exact clean.append_ends ended
  case live => simp [same]
  case oldOwned => rfl
  case newOwned => rfl
  case oldEntry => simp
  case newEntry => simp
  case unused => exact extended.free
  case taken => simp
  case apart => simp
  case freed =>
    intro cluster free outside _
    have before := free.resolve_left (by simp)
    rw [extended.frame.word cluster, before]
    rintro (inside | inside)
    · exact chain.used cluster inside before
    · exact outside inside
  case synced => exact extended.synced

/-- An insertion behind the preparation of new clusters is an edit with a new entry. -/
theorem Insertion.edit {middle : Volume} {front run back stored : List Slot} {slot : Slot} {newClusters : List Nat}
    (chain : FileChain fs.fat dir clusters) (clean : EndsClean (fs.dirSlots clusters))
    (prepared : Frame fs middle (· ∈ newClusters) (· ∈ newClusters))
    (free : ∀ cluster ∈ newClusters, fs.fat.word cluster = 0)
    (used : ∀ cluster ∈ newClusters, middle.fat.word cluster ≠ 0) (synced : Synced fs → Synced middle)
    (insertion : Insertion middle after dir clusters fresh front run back stored)
    (notEnd : ∀ other ∈ stored, other.1.isEndMarker = false) (only : liveSlots stored = [slot])
    (owned : Owned after slot.1 newClusters) (new : FreshEntry after slot newClusters) :
    Edit fs after dir clusters fresh none (some slot) [] newClusters := by
  have apart (cluster : Nat) (member : cluster ∈ clusters) : cluster ∉ newClusters := fun inside =>
    chain.used cluster member (free cluster inside)
  have same := prepared.dirSlots_eq chain.low apart
  have freeBefore (cluster : Nat) (unused : middle.fat.word cluster = 0) : fs.fat.word cluster = 0 := by
    by_cases inside : cluster ∈ newClusters
    · exact free cluster inside
    · rw [← prepared.word cluster inside, unused]
  obtain ⟨ends, old, ended⟩ := insertion.old
  rw [same] at old
  have wholeClean : EndsClean (front ++ run ++ back) := old ▸ clean.append_ends ended
  obtain ⟨oldLive, newLive, newClean⟩ := liveSlots_insert wholeClean insertion.used insertion.free notEnd only
  rw [← old, liveSlots_append_ends _ ended] at oldLive
  constructor
  case frame =>
    refine (prepared.mono ?_ ?_).trans (insertion.frame.mono ?_ ?_)
    · exact fun cluster inside => .inr (.inr (free cluster inside))
    · exact fun cluster inside => .inr (.inr (free cluster inside))
    · rintro cluster (inside | inside)
      · exact .inl inside
      · exact .inr (.inr (freeBefore cluster (insertion.unused cluster inside)))
    · rintro cluster (inside | unused)
      · exact .inl inside
      · exact .inr (.inr (freeBefore cluster unused))
  case chain => exact insertion.chain
  case clean =>
    rw [insertion.new]
    exact newClean
  case live =>
    intro other
    rw [insertion.new, newLive, oldLive]
    simp only [List.mem_append, List.mem_cons, ne_eq, reduceCtorEq, not_false_eq_true, and_true, Option.some.injEq]
    tauto
  case oldOwned => rfl
  case newOwned => exact owned
  case oldEntry => simp
  case newEntry =>
    rintro other equal
    rw [Option.some.injEq] at equal
    exact equal ▸ new
  case unused => exact fun cluster inside => freeBefore cluster (insertion.unused cluster inside)
  case taken => exact fun cluster inside => .inr (free cluster inside)
  case apart => exact fun cluster inside isFresh => used cluster inside (insertion.unused cluster isFresh)
  case freed =>
    intro cluster unused notFresh notNew
    have before := unused.resolve_left (by simp)
    rw [insertion.frame.word cluster, prepared.word cluster notNew, before]
    rintro (inside | inside)
    · exact chain.used cluster inside before
    · exact notFresh inside
  case synced => exact insertion.synced ∘ synced

/-- The first two slots of a new directory are the dot directories and the other slots are end markers. -/
theorem dirSlots_newDirectory {cluster parent : Nat} (geometry : Geometry fs)
    (bytes : fs.clusterBytes cluster = directoryBytes fs.clusterSize cluster parent) :
    ∃ ends, fs.dirSlots [cluster] = (directoryEntry (dotName false) cluster, slotLocation cluster 0) ::
        (directoryEntry (dotName true) parent, slotLocation cluster 1) :: ends ∧
      ∀ slot ∈ ends, slot.1.isEndMarker = true := by
  have room := geometry.two_slots
  have count : fs.clusterSize / entrySize = fs.clusterSize / entrySize - 2 + 1 + 1 := by
    have two : 2 ≤ fs.clusterSize / entrySize := (Nat.le_div_iff_mul_le (by decide)).mpr room
    omega
  have stored (index : Nat) : fs.entryAt (slotLocation cluster index) =
      readAt (directoryBytes fs.clusterSize cluster parent) (index * entrySize) := by
    rw [entryAt]
    exact congrArg (readAt · _) bytes
  have length : (directoryEntry (dotName false) cluster).toBytes.length = entrySize := length_toBytes _
  have parentLength : (directoryEntry (dotName true) parent).toBytes.length = entrySize :=
    length_toBytes _
  have dotLength : (overwrite (List.replicate fs.clusterSize 0) 0
      (directoryEntry (dotName false) cluster).toBytes).length = fs.clusterSize := by
    rw [length_overwrite _ _ _ (by rw [List.length_replicate]; omega), List.length_replicate]
  refine ⟨((List.range (fs.clusterSize / entrySize - 2)).map fun index => slotLocation cluster (index + 1 + 1)).map
    fun location => (fs.entryAt location, location), ?_, ?_⟩
  · have first : fs.entryAt (slotLocation cluster 0) = directoryEntry (dotName false) cluster := by
      rw [stored, directoryBytes, readAt_overwrite_other _ _ _ _ (by omega) (by omega), Nat.zero_mul,
        readAt_overwrite_same _ _ _ (by rw [List.length_replicate]; omega)]
    have second : fs.entryAt (slotLocation cluster 1) = directoryEntry (dotName true) parent := by
      rw [stored, directoryBytes, Nat.one_mul, readAt_overwrite_same _ _ _ (by omega)]
    rw [dirSlots, directoryLocations, List.flatMap_singleton, count, List.range_succ_eq_map, List.range_succ_eq_map,
      ← first, ← second]
    simp [Function.comp_def]
  · intro slot member
    simp only [List.mem_map, exists_exists_and_eq_and] at member
    obtain ⟨index, _, rfl⟩ := member
    have far : 2 * entrySize ≤ (index + 1 + 1) * entrySize := Nat.mul_le_mul_right _ (by omega)
    rw [stored, directoryBytes, readAt_overwrite_other _ _ _ _ (by omega) (by omega),
      readAt_overwrite_other _ _ _ _ (by rw [List.length_replicate]; omega) (by omega)]
    exact isEndMarker_readAt_zeros _ _

/-- The entry of a dot directory is a directory with a dot name. -/
theorem isDirectory_dot (parent : Bool) (cluster : Nat) :
    isDotName (directoryEntry (dotName parent) cluster).name = true ∧
      (directoryEntry (dotName parent) cluster).isDirectory = true ∧
      (directoryEntry (dotName parent) cluster).isEndMarker = false := by
  cases parent <;> exact ⟨rfl, isDirectory_of_used rfl rfl, rfl⟩

end Extend

/-- A blank entry has no first cluster. -/
theorem getCluster_blankEntry (name : ShortName) (attributes : UInt8) : (blankEntry name attributes).getCluster = 0 := by
  change (0 : UInt16).toNat <<< 16 ||| (0 : UInt16).toNat = 0
  decide

/-- A blank file entry is not a directory. -/
theorem isDirectory_blankEntry (name : ShortName) : (blankEntry name 0x20).isDirectory = false := by
  have flag : ((0x20 : UInt8) &&& 0x10 != 0) = false := by decide
  change ((blankEntry name 0x20).isNormalEntry && ((0x20 : UInt8) &&& 0x10 != 0)) = false
  rw [flag, Bool.and_false]

section Names

variable [Unicode] {live : List LocatedDirectoryEntry} {filename : List Char} {shortName : ShortName}
  {lfns : List LongDirectoryEntry}

/-- A stored short name is not a dot name. -/
theorem isDotName_prepareNameEntries (prepared : prepareNameEntries live filename = some (shortName, lfns)) :
    isDotName shortName = false :=
  isDotName_of_nameByte (isNameByte_prepareNameEntries prepared)

/-- A parsed group holds exactly its entry. -/
theorem liveSlots_of_parsed {stored : List Slot} {located : LocatedDirectoryEntry}
    (parsed : parseDirectoryEntries stored = [located]) : liveSlots stored = [(located.entry, located.location)] := by
  rw [← map_parseDirectoryEntries, parsed]
  rfl

end Names

section Create

variable [Unicode] {reserved : Nat → UInt32 → Prop} {fs : Volume} {dir : DirectoryEntry}

/-- A call edits a live directory. -/
def Edited (before after : Volume) (dir : Nat) (old new : Option Slot) : Prop :=
  ∃ clusters fresh oldClusters newClusters, FatBuffer.FileChain before.fat dir clusters ∧
    Edit before after dir clusters fresh old new oldClusters newClusters

section Edited

variable {after : Volume} {place : Nat} {old new : Option Slot} (well : WellFormed reserved fs)
  (live : LiveDirectory fs place) (edited : Edited fs after place old new)

include well live edited

omit [Unicode] in
theorem Edited.wellFormed : WellFormed reserved after := by
  obtain ⟨clusters, fresh, oldClusters, newClusters, chain, edit⟩ := edited
  exact edit.wellFormed well live chain

omit [Unicode] in
theorem Edited.liveEntry {slot : Slot} (added : new = some slot) : LiveEntry after slot := by
  obtain ⟨clusters, fresh, oldClusters, newClusters, chain, edit⟩ := edited
  exact (edit.liveEntry_iff well live chain slot).mpr (.inr added.symm)

end Edited

/-- The entries of a directory are its own dot directories. -/
def OwnDots (fs : Volume) (self parent : Nat) : Prop :=
  ∀ others, FatBuffer.FileChain fs.fat self others → ∀ inner ∈ liveSlots (fs.dirSlots others),
    (inner.1.name = dotName false ∧ inner.1.getCluster = self) ∨
      (inner.1.name = dotName true ∧ inner.1.getCluster = parent)

/-- A created file is a new entry, and a refused creation changes no entry. -/
theorem createFile_edited (well : WellFormed reserved fs) (live : LiveDirectory fs (fs.directoryCluster dir))
    (name : List Char) :
    (∃ after, createFile dir name fs = (.missing, after) ∧ Edited fs after (fs.directoryCluster dir) none none) ∨
      ∃ located after, createFile dir name fs = (.value located, after) ∧ located.entry.isDirectory = false ∧
        Edited fs after (fs.directoryCluster dir) none (some (located.entry, located.location)) := by
  obtain ⟨clusters, chain, clean, _⟩ := well.directories _ live
  rcases (ensures_createFile shows_volume well.geometry dir chain clean name).cases with
    ⟨after, missing, fresh, _, extended⟩ | ⟨located, after, value, created⟩
  · exact .inl ⟨after, missing, clusters, fresh, [], [], chain, (extended trivial).edit chain clean⟩
  · obtain ⟨entry, fresh, _, ⟨lfns, prepared, _⟩, front, run, back, stored, insertion, groups, parsed⟩ := created trivial
    have file : located.entry.isDirectory = false := by
      rw [entry]
      exact isDirectory_blankEntry _
    have empty : located.entry.getCluster = 0 := by
      rw [entry]
      exact getCluster_blankEntry _ _
    have new : FreshEntry after (located.entry, located.location) [] := by
      refine ⟨isDotName_prepareNameEntries prepared, ?_, ?_⟩
      · intro directory
        rw [file] at directory
        contradiction
      · intro _
        rw [entry]
        exact (clustersForSize_zero after).symm
    have edit : Edit fs after (fs.directoryCluster dir) clusters fresh none (some (located.entry, located.location)) [] [] :=
      insertion.edit chain clean (.refl fs _ _) (by simp) (by simp) id groups.notEnd (liveSlots_of_parsed parsed)
        (.inl ⟨empty, rfl⟩) new
    exact .inr ⟨located, after, value, file, clusters, fresh, [], [], chain, edit⟩

/-- A created directory is a new entry, and a refused creation changes no entry. -/
theorem createDirectory_edited (well : WellFormed reserved fs) (live : LiveDirectory fs (fs.directoryCluster dir))
    (name : List Char) :
    (∃ after, createDirectory dir name fs = (.missing, after) ∧
        Edited fs after (fs.directoryCluster dir) none none) ∨
      ∃ slot after, createDirectory dir name fs = (.value (), after) ∧ slot.1.isDirectory = true ∧
        Edited fs after (fs.directoryCluster dir) none (some slot) ∧
        OwnDots after slot.1.getCluster (fs.directoryCluster dir) := by
  obtain ⟨clusters, chain, clean, _⟩ := well.directories _ live
  rcases (ensures_createDirectory shows_volume well.geometry dir chain clean name).cases with
    ⟨after, missing, fresh, _, extended⟩ | ⟨_, after, value, made⟩
  · exact .inl ⟨after, missing, clusters, fresh, [], [], chain, (extended trivial).edit chain clean⟩
  · obtain ⟨fresh, middle, cluster, located, entry, created, _, ⟨lfns, prepared, _⟩, front, run, back, stored, insertion,
      groups, parsed⟩ := made trivial
    have inside := created.chain.inside cluster created.chain.first_mem
    have usedMiddle := created.chain.used cluster created.chain.first_mem
    have limit := (created.frame.geometry well.geometry).limit
    have first : located.entry.getCluster = cluster := by
      rw [entry]
      exact getCluster_setCluster _ cluster (by omega)
    have directory : located.entry.isDirectory = true := by
      rw [entry]
      exact isDirectory_directoryEntry prepared cluster
    have notOld : cluster ∉ clusters := fun member => chain.used cluster member created.free
    have notFresh : cluster ∉ fresh := fun member => usedMiddle (insertion.unused cluster member)
    have sameWord : after.fat.word cluster = middle.fat.word cluster :=
      insertion.frame.word cluster (by simp [notOld, notFresh])
    have sameBytes : after.clusterBytes cluster = middle.clusterBytes cluster :=
      insertion.frame.data cluster inside.1 (by simp [notOld, usedMiddle])
    have owned : Owned after located.entry [cluster] := by
      refine .inr ?_
      rw [first]
      exact created.chain.congr insertion.frame.size (by simpa using sameWord)
    have size : after.clusterSize = fs.clusterSize :=
      insertion.frame.clusterSize_eq.trans created.frame.clusterSize_eq
    obtain ⟨ends, slots, ended⟩ := dirSlots_newDirectory
      (insertion.frame.geometry (created.frame.geometry well.geometry))
      (by rw [sameBytes, created.bytes, size])
    obtain ⟨dotName_, dotDirectory, dotUsed⟩ := isDirectory_dot false cluster
    obtain ⟨parentName, parentDirectory, parentUsed⟩ := isDirectory_dot true (fs.directoryCluster dir)
    have listed (inner : Slot) (member : inner ∈ liveSlots (after.dirSlots [cluster])) :
        inner.1 = directoryEntry (dotName false) cluster ∨
          inner.1 = directoryEntry (dotName true) (fs.directoryCluster dir) := by
      obtain ⟨inside, ordinary⟩ := mem_of_mem_liveSlots member
      rw [slots] at inside
      rcases List.mem_cons.mp inside with rfl | later
      · exact .inl rfl
      · rcases List.mem_cons.mp later with rfl | last
        · exact .inr rfl
        · have marker := ended inner last
          rw [(isNormalEntry_iff.mp ordinary).1] at marker
          contradiction
    have new : FreshEntry after (located.entry, located.location) [cluster] := by
      refine ⟨isDotName_prepareNameEntries prepared, fun _ => ⟨by simp, ?_, ?_⟩, ?_⟩
      · rw [slots, endsClean_cons dotUsed, endsClean_cons parentUsed]
        exact endsClean_of_all ended
      · intro inner member
        rcases listed inner member with same | same
        · rw [same]
          exact ⟨dotName_, dotDirectory⟩
        · rw [same]
          exact ⟨parentName, parentDirectory⟩
      · intro file
        simp [isRegularFile, directory] at file
    have dots : OwnDots after cluster (fs.directoryCluster dir) := by
      intro others otherChain inner member
      rw [otherChain.unique (created.chain.congr insertion.frame.size (by simpa using sameWord))] at member
      have dirInside := chain.inside _ chain.first_mem
      have sameEntries := created.frame.size
      rcases listed inner member with same | same
      · rw [same]
        exact .inl ⟨rfl, getCluster_setCluster _ cluster (by omega)⟩
      · rw [same]
        exact .inr ⟨rfl, getCluster_setCluster _ _ (by omega)⟩
    refine .inr ⟨(located.entry, located.location), after, value, directory,
      ⟨clusters, fresh, [], [cluster], chain, ?_⟩, by rw [first]; exact dots⟩
    refine insertion.edit chain clean (created.frame.mono ?_ ?_) ?_ ?_ (fun _ => created.synced) groups.notEnd
      (liveSlots_of_parsed parsed) owned new
    · exact fun other same => List.mem_singleton.mpr same
    · exact fun other same => List.mem_singleton.mpr same
    · simpa using created.free
    · simpa using usedMiddle

end Create

section Delete

variable {reserved : Nat → UInt32 → Prop} {fs : Volume}

/-- An intact chain is released on every disk. -/
theorem releaseChain_owned {P : Type} [Port P] {place : SectorArray → Nat → P} {faults : Nat → Bool}
    (disk : Counts place faults) (geometry : Geometry fs) {entry : DirectoryEntry} {oldClusters : List Nat}
    (owned : Owned fs entry oldClusters) (access : Nat) :
    ∃ (after : Volume) (next : Nat),
      releaseChain entry.getCluster (fs.on place access) = (.value (), after.on place next) ∧
      Frame fs after (· ∈ oldClusters) (fun _ => False) ∧ (∀ cluster ∈ oldClusters, after.fat.word cluster = 0) ∧
      (Clear faults access fs.bs.tableCount.toNat → Synced fs → Synced after) := by
  rcases owned with ⟨none, rfl⟩ | chain
  · rw [releaseChain, if_pos none]
    exact ⟨fs, access, rfl, .refl _ _ _, by simp, fun _ => id⟩
  · obtain ⟨after, next, returned, fat, frame, saved⟩ := releaseChain_freed geometry disk chain.ne_zero
      (FatBuffer.freeChain_chain _ _ _ chain) (FatBuffer.entries_release _ _)
      (fun cluster (outside : cluster ∉ oldClusters) => by rw [FatBuffer.word_release, if_neg outside]) access
    refine ⟨after, next, returned, frame, fun cluster member => ?_, fun clear _ => saved clear⟩
    rw [fat, FatBuffer.word_release, if_pos member]

/-- A deletion with an intact chain frees exactly that chain. -/
theorem deleteDirectoryEntry_owned (geometry : Geometry fs) {clusters : List Nat}
    (low : ∀ cluster ∈ clusters, 2 ≤ cluster) (distinct : clusters.Nodup) {located : LocatedDirectoryEntry}
    {front run back : List Slot}
    (split : fs.dirSlots clusters = front ++ (run ++ [(located.entry, located.location)]) ++ back)
    (places : run.map Prod.snd = located.lfnLocations) {oldClusters : List Nat}
    (owned : Owned fs located.entry oldClusters) :
    ∃ after gone, deleteDirectoryEntry located fs = (.value (), after) ∧
      (∀ slot ∈ gone, slot.1.isDeleted = true) ∧ after.dirSlots clusters = front ++ gone ++ back ∧
      Frame fs after (· ∈ oldClusters) (· ∈ clusters) ∧ (∀ cluster ∈ oldClusters, after.fat.word cluster = 0) ∧
      (Synced fs → Synced after) := by
  obtain ⟨gone, deleted, markGeometry, markSynced, effect, kept⟩ :=
    deleteDirectoryEntry_marks geometry low distinct split places
  have stillOwned : Owned (fs.withSlots gone) located.entry oldClusters := by
    rw [Owned, fat_withSlots]
    exact owned
  obtain ⟨after, _, returned, released, zero, synced⟩ := releaseChain_owned counts_reliable markGeometry stillOwned 0
  obtain ⟨frame, slots⟩ := kept released
  exact ⟨after, gone, effect.trans returned, deleted, slots, frame, zero,
    fun before => synced (clear_never _ _) (markSynced before)⟩

variable [Unicode]

/-- The deletion of a parsed entry is an edit without a new entry. -/
theorem deleteDirectoryEntry_edited (well : WellFormed reserved fs) {dir : Nat} (live : LiveDirectory fs dir)
    {clusters : List Nat} (chain : FileChain fs.fat dir clusters) {located : LocatedDirectoryEntry}
    (member : located ∈ parseDirectoryEntries (fs.dirSlots clusters)) (named : isDotName located.entry.name = false)
    (empty : located.entry.isDirectory = true → ∀ inner, ¬ EntryIn fs located.entry.getCluster inner) :
    ∃ after, deleteDirectoryEntry located fs = (.value (), after) ∧
      Edited fs after dir (some (located.entry, located.location)) none := by
  obtain ⟨others, otherChain, clean, _⟩ := well.directories dir live
  rw [otherChain.unique chain] at clean
  obtain ⟨front, lfns, back, split, places, used, long, ordinary, _, _⟩ := parse_split member
  have special (slot : Slot) (inside : slot ∈ lfns) : slot.1.isEndMarker = false ∧ slot.1.isNormalEntry = false := by
    obtain ⟨notEnd, _, isLong⟩ := isLongSlot_iff.mp (long slot inside)
    exact ⟨notEnd, by simp [isNormalEntry, isLong]⟩
  have low := chain.low
  have notEnd : located.entry.isEndMarker = false := (isNormalEntry_iff.mp ordinary).1
  have groupUsed (slot : Slot) (inside : slot ∈ lfns ++ [(located.entry, located.location)]) :
      slot.1.isEndMarker = false := by
    rcases List.mem_append.mp inside with long | last
    · exact (special slot long).1
    · rw [List.mem_singleton.mp last]
      exact notEnd
  have groupLive : liveSlots (lfns ++ [(located.entry, located.location)]) = [(located.entry, located.location)] := by
    rw [liveSlots_append _ fun slot inside => (special slot inside).1,
      liveSlots_eq_nil fun slot inside => (special slot inside).2, liveSlots_cons [] notEnd, if_pos ordinary]
    rfl
  have listed : liveSlots (fs.dirSlots clusters) =
      liveSlots front ++ (located.entry, located.location) :: liveSlots back := by
    rw [split, List.append_assoc, liveSlots_append _ used, liveSlots_append _ groupUsed, groupLive]
    rfl
  have entry : EntryIn fs dir (located.entry, located.location) :=
    ⟨clusters, chain, by rw [listed]; simp, named⟩
  have entryLive : LiveEntry fs (located.entry, located.location) := ⟨dir, live, entry⟩
  obtain ⟨oldClusters, owned⟩ := well.entry_owned entryLive
  obtain ⟨after, gone, returned, deleted, slots, frame, freed, synced⟩ :=
    deleteDirectoryEntry_owned well.geometry low chain.nodup split places owned
  have apart := well.entry_apart live chain entryLive
    (fun directory names => empty directory (located.entry, located.location) (names ▸ entry)) owned
  have newLive : liveSlots (after.dirSlots clusters) = liveSlots front ++ liveSlots back ∧
      EndsClean (after.dirSlots clusters) := by
    have goneUsed (slot : Slot) (inside : slot ∈ gone) := isEndMarker_of_isDeleted (deleted slot inside)
    have goneLive : liveSlots gone = [] :=
      liveSlots_eq_nil fun slot inside => by simp [isNormalEntry, deleted slot inside]
    rw [split, List.append_assoc, endsClean_append used, endsClean_append groupUsed] at clean
    rw [slots, List.append_assoc, liveSlots_append _ used, liveSlots_append _ goneUsed, goneLive,
      endsClean_append used, endsClean_append goneUsed]
    exact ⟨rfl, clean⟩
  have nodup := nodup_directoryLocations fs chain.nodup
  rw [← map_snd_dirSlots, split] at nodup
  simp only [List.map_append, List.map_cons, List.append_assoc, List.singleton_append,
    List.nodup_append, List.nodup_cons, List.mem_append, List.mem_cons] at nodup
  have once (slot : Slot) (inside : slot ∈ liveSlots front ++ liveSlots back) :
      slot ≠ (located.entry, located.location) := by
    rintro rfl
    rcases List.mem_append.mp inside with left | right
    · have place := List.mem_map_of_mem (f := Prod.snd) (mem_of_mem_liveSlots left).1
      exact nodup.2.2 _ place _ (.inr (.inl rfl)) rfl
    · have place := List.mem_map_of_mem (f := Prod.snd) (mem_of_mem_liveSlots right).1
      exact nodup.2.1.2.1.1 place
  refine ⟨after, returned, clusters, [], oldClusters, [], chain, ?_⟩
  constructor
  case frame => exact frame.mono (fun cluster inside => .inr (.inl inside)) fun cluster inside => .inl inside
  case chain =>
    rw [List.append_nil]
    exact chain.congr frame.size fun cluster inside => frame.word cluster (apart cluster inside)
  case clean =>
    rw [List.append_nil]
    exact newLive.2
  case live =>
    intro slot
    rw [List.append_nil, newLive.1, listed]
    constructor
    · intro inside
      refine .inl ⟨?_, ?_⟩
      · simp only [List.mem_append, List.mem_cons] at inside ⊢
        tauto
      · rw [ne_eq, Option.some.injEq]
        exact once slot inside
    · rintro (⟨inside, different⟩ | equal)
      · rw [ne_eq, Option.some.injEq] at different
        simp only [List.mem_append, List.mem_cons] at inside ⊢
        tauto
      · simp at equal
  case oldOwned => exact owned
  case newOwned => rfl
  case oldEntry =>
    intro slot equal
    rw [Option.some.injEq] at equal
    subst equal
    refine ⟨by rw [listed]; simp, named, ?_⟩
    intro directory inner inside
    by_contra notDot
    have oldChain := owned.resolve_left fun none => by
      rw [none.2] at inside
      exact List.not_mem_nil inside
    exact empty directory inner ⟨oldClusters, oldChain, inside, by simpa using notDot⟩
  case newEntry => simp
  case unused => simp
  case taken => simp
  case apart => simp
  case freed =>
    intro cluster free _ _
    by_cases inside : cluster ∈ oldClusters
    · exact freed cluster inside
    · rw [frame.word cluster inside]
      exact free.resolve_left inside
  case synced => exact synced

variable {dir : DirectoryEntry}

/-- An unlinked file loses its entry, and a refused call changes nothing. -/
theorem unlinkFile_edited (well : WellFormed reserved fs) (live : LiveDirectory fs (fs.directoryCluster dir))
    (name : List Char) :
    unlinkFile dir name fs = (.missing, fs) ∨
      ∃ located after, unlinkFile dir name fs = (.value (), after) ∧
        findEntryByName dir name fs = (.value located, fs) ∧ located.entry.isRegularFile = true ∧
        Edited fs after (fs.directoryCluster dir) (some (located.entry, located.location)) none := by
  obtain ⟨clusters, chain, _⟩ := well.directories _ live
  cases found : findParsedEntry (parseDirectoryEntries (fs.dirSlots clusters)) name with
  | none => exact .inl (find_refused well.geometry chain found).1
  | some located =>
    rw [unlinkFile_found well.geometry chain found]
    cases regular : located.entry.isRegularFile with
    | false => exact .inl rfl
    | true =>
      have member := List.mem_of_find?_eq_some found
      have notDirectory := notDirectory_of_regular regular
      obtain ⟨_, _, _, _, _, named⟩ := well.file_live live chain (mem_liveSlots_of_parsed member) notDirectory
      obtain ⟨after, returned, edited⟩ := deleteDirectoryEntry_edited well live chain member named
        (by simp [notDirectory])
      refine .inr ⟨located, after, returned, ?_, regular, edited⟩
      rw [findEntryByName_chain well.geometry chain, found]
      rfl

/-- A removed directory loses its entry, and a refused call changes nothing. -/
theorem removeDirectory_edited (well : WellFormed reserved fs) (live : LiveDirectory fs (fs.directoryCluster dir))
    (name : List Char) :
    removeDirectory dir name fs = (.missing, fs) ∨
      ∃ located after, removeDirectory dir name fs = (.value (), after) ∧
        findEntryByName dir name fs = (.value located, fs) ∧ located.entry.isDirectory = true ∧
        Edited fs after (fs.directoryCluster dir) (some (located.entry, located.location)) none := by
  obtain ⟨clusters, chain, _⟩ := well.directories _ live
  cases found : findParsedEntry (parseDirectoryEntries (fs.dirSlots clusters)) name with
  | none => exact .inl (find_refused well.geometry chain found).2
  | some located =>
    have member := List.mem_of_find?_eq_some found
    have holds (directory : located.entry.isDirectory = true) (_ : located.entry.getCluster ≠ 0)
        (named : isDotName located.entry.name = false) :
        ∃ others, FileChain fs.fat located.entry.getCluster others := by
      have entry : LiveEntry fs (located.entry, located.location) :=
        ⟨_, live, clusters, chain, mem_liveSlots_of_parsed member, named⟩
      obtain ⟨others, otherChain⟩ := well.directory_chain entry directory
      exact ⟨others, otherChain⟩
    rcases removeDirectory_found well.geometry chain found holds with
      missing | ⟨directory, named, ⟨others, otherChain, empty⟩, deletes⟩
    · exact .inl missing
    · have noEntry (inner : Slot) : ¬ EntryIn fs located.entry.getCluster inner := by
        intro inside
        obtain ⟨innerListed, innerNamed⟩ := inside.mem_slots otherChain
        rw [← map_parseDirectoryEntries] at innerListed
        obtain ⟨parsed, parsedMember, rfl⟩ := List.mem_map.mp innerListed
        rw [empty parsed parsedMember] at innerNamed
        contradiction
      obtain ⟨after, returned, edited⟩ := deleteDirectoryEntry_edited well live chain member named
        fun _ => noEntry
      refine .inr ⟨located, after, deletes.trans returned, ?_, directory, edited⟩
      rw [findEntryByName_chain well.geometry chain, found]
      rfl

end Delete

section Change

variable {reserved : Nat → UInt32 → Prop} {fs : Volume} {dir : Nat} {slot : Slot}

/-- A change that keeps the kind of each slot keeps their order. -/
theorem liveSlots_map (slots : List Slot) (change : Slot → Slot)
    (same : ∀ slot ∈ slots, (change slot).1.isEndMarker = slot.1.isEndMarker ∧
      (change slot).1.isNormalEntry = slot.1.isNormalEntry) :
    liveSlots (slots.map change) = (liveSlots slots).map change ∧ (EndsClean slots → EndsClean (slots.map change)) := by
  induction slots with
  | nil => exact ⟨rfl, id⟩
  | cons slot rest ih =>
    obtain ⟨sameEnd, sameNormal⟩ := same slot List.mem_cons_self
    obtain ⟨live, clean⟩ := ih fun later member => same later (List.mem_cons_of_mem _ member)
    rw [List.map_cons]
    cases ended : slot.1.isEndMarker with
    | true =>
      rw [ended] at sameEnd
      rw [liveSlots_end _ ended, liveSlots_end _ sameEnd, endsClean_cons_end ended, endsClean_cons_end sameEnd]
      refine ⟨rfl, ?_⟩
      intro later changed member
      obtain ⟨original, inside, rfl⟩ := List.mem_map.mp member
      rw [(same original (List.mem_cons_of_mem _ inside)).1]
      exact later original inside
    | false =>
      rw [ended] at sameEnd
      rw [liveSlots_cons _ ended, liveSlots_cons _ sameEnd, endsClean_cons ended, endsClean_cons sameEnd, sameNormal,
        live]
      exact ⟨by split <;> rfl, clean⟩

/-- The name and the attributes decide the kind of an entry. -/
theorem kind_congr {entry other : DirectoryEntry} (name : other.name = entry.name)
    (attributes : other.attributes = entry.attributes) :
    other.isEndMarker = entry.isEndMarker ∧ other.isNormalEntry = entry.isNormalEntry ∧
      other.isDirectory = entry.isDirectory := by
  simp only [isDirectory, isNormalEntry, isEndMarker,
    isDeleted, isLongFilename, isVolumeLabel, firstByte,
    name, attributes, and_self]

/-- A live file is a stored file. -/
theorem WellFormed.storedFile (well : WellFormed reserved fs) (live : LiveDirectory fs dir)
    (entry : EntryIn fs dir slot) (archive : slot.1.attributes = 32) :
    slot.1.isRegularFile = true ∧ ∃ clusters, StoredFile fs slot.2 slot.1 clusters := by
  have entryLive : LiveEntry fs slot := ⟨dir, live, entry⟩
  obtain ⟨dirClusters, chain, listed, _⟩ := entry
  have notDirectory : slot.1.isDirectory = false := by
    have flag : ((32 : UInt8) &&& 0x10 != 0) = false := by decide
    rw [isDirectory, archive, flag, Bool.and_false]
  have regular := entryLive.isRegularFile notDirectory
  obtain ⟨clusters, owned, length, _⟩ := well.files slot entryLive regular
  obtain ⟨inDir, place, stored⟩ := cluster_mem_of_live listed
  have low := chain.low
  refine ⟨regular, clusters, validLocation_of_mem low place, stored, archive, owned, length, ?_,
    chain.used _ inDir⟩
  exact well.entry_apart live chain entryLive (by simp [notDirectory]) owned _ inDir

/-- An entry of a directory stands in its slot. -/
theorem EntryIn.stored (entry : EntryIn fs dir slot) : ValidLocation fs slot.2 ∧ fs.entryAt slot.2 = slot.1 := by
  obtain ⟨clusters, chain, listed, _⟩ := entry
  obtain ⟨_, place, stored⟩ := cluster_mem_of_live listed
  exact ⟨validLocation_of_mem chain.low place, stored⟩

/-- The slot of a live entry can be read. -/
theorem readDirectoryEntry_live (well : WellFormed reserved fs) (entry : EntryIn fs dir slot) :
    readDirectoryEntry slot.2 fs = (.value slot.1, fs) := by
  obtain ⟨valid, stored⟩ := entry.stored
  rw [readDirectoryEntry_apply well.geometry valid, stored]

/-- A change of a live file is an edit of its entry. -/
theorem FileChange.edit (well : WellFormed reserved fs) (live : LiveDirectory fs dir)
    {entry newEntry : DirectoryEntry} {location : DirectoryEntryLocation} (listed : EntryIn fs dir (entry, location))
    (regular : entry.isRegularFile = true) {clusters newClusters : List Nat}
    (stored : StoredFile fs location entry clusters) {after : Volume}
    (change : FileChange fs after location newEntry clusters newClusters) (name : newEntry.name = entry.name)
    (attributes : newEntry.attributes = entry.attributes)
    (exact : newClusters.length = fs.clustersForSize newEntry.size.toNat) :
    Edited fs after dir (some (entry, location)) (some (newEntry, location)) := by
  obtain ⟨dirClusters, chain, clean, _⟩ := well.directories dir live
  obtain ⟨member, named⟩ := listed.mem_slots chain
  obtain ⟨inDir, place, _⟩ := cluster_mem_of_live member
  obtain ⟨sameEnd, sameNormal, sameDirectory⟩ := kind_congr name attributes
  have notDirectory := notDirectory_of_regular regular
  have entryLive : LiveEntry fs (entry, location) := ⟨dir, live, listed⟩
  have apart := well.entry_apart live chain entryLive
    (fun directory => absurd directory (by simp [notDirectory])) stored.owned
  -- the directory differs from the old one in the slot of the file
  have slots : after.dirSlots dirClusters = (fs.dirSlots dirClusters).map
      fun slot => if slot.2 = location then (newEntry, location) else slot := by
    rw [dirSlots, dirSlots, List.map_map,
      show after.directoryLocations dirClusters = fs.directoryLocations dirClusters by
        rw [directoryLocations, directoryLocations, change.frame.clusterSize_eq]]
    apply List.map_congr_left
    intro other inside
    have otherCluster := (mem_directoryLocations.mp inside).1
    have valid := validLocation_of_mem chain.low inside
    rw [change.slots other valid (apart _ otherCluster) (chain.used _ otherCluster), Function.comp_apply]
    split
    · next same => rw [same]
    · rfl
  have kinds (slot : Slot) (inside : slot ∈ fs.dirSlots dirClusters) :
      (if slot.2 = location then (newEntry, location) else slot).1.isEndMarker = slot.1.isEndMarker ∧
        (if slot.2 = location then (newEntry, location) else slot).1.isNormalEntry = slot.1.isNormalEntry := by
    obtain ⟨other, _, rfl⟩ := List.mem_map.mp inside
    by_cases same : other = location
    · rw [if_pos same, same, stored.stored]
      exact ⟨sameEnd, sameNormal⟩
    · rw [if_neg same]
      exact ⟨rfl, rfl⟩
  obtain ⟨newLive, newClean⟩ := liveSlots_map (fs.dirSlots dirClusters) _ kinds
  refine ⟨dirClusters, [], clusters, newClusters, chain, ?_⟩
  constructor
  case frame =>
    refine change.frame.mono (fun cluster => Or.inr) ?_
    rintro cluster (rfl | inside)
    · exact .inl inDir
    · exact .inr inside
  case chain =>
    rw [List.append_nil]
    refine chain.congr change.frame.size fun cluster inside => change.frame.word cluster ?_
    rintro (shared | free)
    · exact apart cluster inside shared
    · exact chain.used cluster inside free
  case clean =>
    rw [List.append_nil, slots]
    exact newClean clean
  case live =>
    intro slot
    rw [List.append_nil, slots, newLive, List.mem_map, ne_eq, Option.some.injEq, Option.some.injEq]
    constructor
    · rintro ⟨original, inside, rfl⟩
      by_cases same : original.2 = location
      · rw [if_pos same]
        exact .inr rfl
      · rw [if_neg same]
        exact .inl ⟨inside, fun equal => same (by rw [equal])⟩
    · rintro (⟨inside, different⟩ | rfl)
      · refine ⟨slot, inside, if_neg fun same => different ?_⟩
        have content := (cluster_mem_of_live inside).2.2
        rw [same, stored.stored] at content
        exact Prod.ext content.symm same
      · exact ⟨(entry, location), member, if_pos rfl⟩
  case oldOwned => exact stored.owned
  case newOwned => exact change.owned
  case oldEntry =>
    intro slot equal
    rw [Option.some.injEq] at equal
    subst equal
    refine ⟨member, named, fun directory => ?_⟩
    have contrary : entry.isDirectory = true := directory
    rw [notDirectory] at contrary
    contradiction
  case newEntry =>
    intro slot equal
    rw [Option.some.injEq] at equal
    subst equal
    refine ⟨?_, fun directory => ?_, fun _ => ?_⟩
    · rw [name]
      exact named
    · have contrary : newEntry.isDirectory = true := directory
      rw [sameDirectory, notDirectory] at contrary
      contradiction
    · rw [change.frame.clustersForSize_eq]
      exact exact
  case unused => simp
  case taken => exact change.taken
  case apart => simp
  case freed => exact fun cluster free _ outside => change.freed cluster free outside
  case synced => exact change.synced

end Change

end FATFileSystem

end BubbleOs.Fat
