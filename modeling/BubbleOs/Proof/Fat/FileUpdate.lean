import BubbleOs.Proof.Fat.File

namespace BubbleOs.Fat

open Attempt FatBuffer
open FatBuffer (FileChain)

namespace FATFileSystem

variable {P : Type} {fs : FATFileSystem P}

/-- This driver state differs in the table in memory. -/
def withTable (fs : FATFileSystem P) (fat : FatBuffer) : FATFileSystem P := { fs with fat := fat }

theorem onFat_value {A : Type} {operation : Attempt FatBuffer A} {outcome : Outcome A} {after : FatBuffer}
    (returned : operation fs.fat = (outcome, after)) : onFat operation fs = (outcome, fs.withTable after) := by
  simp only [onFat, returned]
  rfl

/-- The walk finds the cluster with the given position in the chain. -/
theorem clusterAt_value {first cluster : Nat} {before after : List Nat}
    (chain : Chain fs.fat.nextCluster first (before ++ cluster :: after)) :
    clusterAt first before.length fs = (.value cluster, fs) := by
  induction before generalizing first with
  | nil =>
    have head := chain.head?_eq
    rw [List.nil_append, List.head?_cons, Option.some.injEq] at head
    rw [← head]
    rfl
  | cons node before ih =>
    obtain ⟨rfl, following, linked, tail⟩ := chain.tail_of_ne_nil (by simp)
    rw [List.length_cons, clusterAt, get_bind, linked, ofOption_some, pure_bind_apply]
    exact ih tail

section Shrink

variable {entry : DirectoryEntry} {location : DirectoryEntryLocation} {clusters kept rest : List Nat} {last : Nat}

/-- A list splits at each of its positions. -/
theorem exists_split {count : Nat} (inside : count < clusters.length) :
    ∃ kept last rest, clusters = kept ++ last :: rest ∧ kept.length = count := by
  refine ⟨clusters.take count, clusters[count], clusters.drop (count + 1), ?_, ?_⟩
  · rw [← List.drop_eq_getElem_cons inside, List.take_append_drop]
  · rw [List.length_take]
    omega

/-- The clusters behind the last kept one are a chain of their own. -/
theorem freeChain_rest {fat : FatBuffer} {first following : Nat}
    (chain : FileChain fat first (kept ++ last :: following :: rest)) :
    freeChain following (fat.assign last fatClusterEof) = (.value (), fat.cut last (following :: rest)) := by
  have inside := (chain.inside last (by simp)).2
  have distinct := chain.nodup
  rw [List.nodup_append, List.nodup_cons] at distinct
  apply freeChain_chain
  apply chain.suffix.tail.2.congr (entries_assign fat last fatClusterEof)
  intro cluster member
  rw [word_assign _ _ _ _ inside, if_neg]
  rintro rfl
  exact distinct.2.1.1 member

variable [Port P]

/-- The table is saved before the entry. -/
def saveTableAndEntry (location : DirectoryEntryLocation) (entry : DirectoryEntry) : FsM P Unit := do
  persistFat
  persistDirectoryEntry location entry

/-- A truncation to nothing frees the chain before it touches the disk. -/
theorem shrinkExistingFile_release (chain : FileChain fs.fat entry.getCluster clusters) :
    shrinkExistingFile entry location 0 fs =
      saveTableAndEntry location { entry.setCluster 0 with size := 0 } (fs.withTable (fs.fat.release clusters)) := by
  rw [shrinkExistingFile, get_bind, if_pos rfl, if_pos chain.ne_zero,
    bind_value (onFat_value (freeChain_chain fs.fat _ _ chain))]
  rfl

/-- A truncation to a smaller size cuts the chain before it touches the disk. -/
theorem shrinkExistingFile_cut (chain : FileChain fs.fat entry.getCluster (kept ++ last :: rest)) {newSize : Nat}
    (positive : 0 < fs.clusterSize) (more : 0 < newSize)
    (place : kept.length = (newSize + fs.clusterSize - 1) / fs.clusterSize - 1) :
    shrinkExistingFile entry location newSize fs =
      saveTableAndEntry location { entry with size := UInt32.ofNat newSize } (fs.withTable (fs.fat.cut last rest)) := by
  have inside := (chain.inside last (by simp)).2
  rw [shrinkExistingFile, get_bind, if_neg (by omega), if_neg chain.ne_zero, if_neg (by omega),
    ← place, bind_value (clusterAt_value chain.chain), get_bind,
    bind_value (onFat_value (set_apply fs.fat last fatClusterEof inside))]
  cases rest with
  | nil =>
    rw [chain.chain.next_last]
    rfl
  | cons following rest =>
    rw [chain.chain.next_eq]
    exact bind_value (onFat_value (freeChain_rest chain)) _

end Shrink

section Growth

/-- The chain continues in clusters that were free, and only they and the last old cluster have new words. -/
structure Continued (before after : FatBuffer) (first : Nat) (clusters fresh : List Nat) : Prop where
  size : after.entries = before.entries
  chain : FatBuffer.FileChain after first (clusters ++ fresh)
  free : ∀ cluster ∈ fresh, before.word cluster = 0
  rest : ∀ cluster ∉ fresh, (∀ kept, clusters ≠ kept ++ [cluster]) → after.word cluster = before.word cluster

/-- The table after a rollback differs at most in the end mark of the old chain. -/
def rolledBack (fat : FatBuffer) (clusters : List Nat) : FatBuffer :=
  match clusters.getLast? with
  | some last => fat.assign last fatClusterEof
  | none => fat

/-- Linking allocated clusters behind a chain continues it. -/
theorem continued_of_allocated {before fat : FatBuffer} (limit : before.entries ≤ 0x0FFFFFF7) {first last start : Nat}
    {kept fresh : List Nat} (chain : FileChain before first (kept ++ [last]))
    (allocated : FatBuffer.Allocated before fat start fresh) :
    Continued before (fat.assign last (UInt32.ofNat start)) first (kept ++ [last]) fresh := by
  have size := allocated.size
  have apart (cluster : Nat) (member : cluster ∈ kept ++ [last]) : cluster ∉ fresh := fun inside =>
    chain.used cluster member (allocated.fresh cluster inside)
  have same := chain.congr size fun cluster member => allocated.rest cluster (apart cluster member)
  have inside := (same.inside last (by simp)).2
  refine ⟨?_, ?_, allocated.fresh, ?_⟩
  · rw [entries_assign, size]
  · rw [List.append_assoc]
    exact same.join (by omega) allocated.chain apart
  · intro cluster outside elsewhere
    rw [word_assign _ _ _ _ inside, if_neg, allocated.rest cluster outside]
    rintro rfl
    exact elsewhere kept rfl

variable {entry : DirectoryEntry} {clusters : List Nat}

/-- The driver links new clusters behind the old chain, or finds too few free clusters and changes nothing. -/
theorem linkGrowth_continued (limit : fs.fat.entries ≤ 0x0FFFFFF7)
    (owned : (entry.getCluster = 0 ∧ clusters = []) ∨ FileChain fs.fat entry.getCluster clusters)
    {newCount : Nat} (positive : 0 < newCount) (more : clusters.length ≤ newCount) :
    (linkGrowth entry clusters.length newCount fs = (.missing, fs) ∧
        fs.fat.freeClusters.length < newCount - clusters.length) ∨
      ∃ newEntry fat fresh,
        linkGrowth entry clusters.length newCount fs = (.value (newEntry, fresh.head?), fs.withTable fat) ∧
          Continued fs.fat fat newEntry.getCluster clusters fresh ∧ (clusters ++ fresh).length = newCount ∧
          fresh.length ≤ fs.fat.freeClusters.length ∧ (fresh = [] → fat = fs.fat) ∧
          newEntry.name = entry.name ∧ newEntry.attributes = entry.attributes := by
  by_cases enough : newCount ≤ clusters.length
  · have chain : FileChain fs.fat entry.getCluster clusters := by
      rcases owned with ⟨_, rfl⟩ | chain
      · rw [List.length_nil] at enough
        omega
      · exact chain
    refine .inr ⟨entry, fs.fat, [], ?_, ⟨rfl, by simpa using chain, by simp, fun _ _ _ => rfl⟩, ?_, Nat.zero_le _,
      fun _ => rfl, rfl, rfl⟩
    · rw [linkGrowth, if_neg (by omega)]
      rfl
    · rw [List.append_nil]
      omega
  · rcases allocateChain_spec limit (newCount - clusters.length) (by omega) with
      ⟨start, fresh, fat, returned, allocated, length⟩ | ⟨full, few⟩
    · have inside := allocated.chain.inside start allocated.chain.first_mem
      have size := allocated.size
      have count : (clusters ++ fresh).length = newCount := by
        rw [List.length_append]
        omega
      have room := allocated.length_le
      have head : fresh.head? = some start := allocated.chain.chain.head?_eq
      have some_ : fresh ≠ [] := allocated.chain.ne_nil
      refine .inr ?_
      rcases owned with ⟨_, rfl⟩ | chain
      · have first : (entry.setCluster start).getCluster = start :=
          DirectoryEntry.getCluster_setCluster entry start (by omega)
        refine ⟨entry.setCluster start, fat, fresh, ?_, ⟨size, ?_, allocated.fresh, fun cluster outside _ =>
          allocated.rest cluster outside⟩, count, room, fun none => absurd none some_, rfl, rfl⟩
        · rw [linkGrowth, if_pos (by omega), bind_value (onFat_value returned), if_pos List.length_nil, head]
          rfl
        · rw [first]
          exact allocated.chain
      · obtain ⟨kept, last, rfl⟩ := List.eq_nil_or_concat' clusters |>.resolve_left chain.ne_nil
        have same := chain.congr size fun cluster member => allocated.rest cluster fun inside =>
          chain.used cluster member (allocated.fresh cluster inside)
        have lastInside := (same.inside last (by simp)).2
        refine ⟨entry, fat.assign last (UInt32.ofNat start), fresh, ?_, continued_of_allocated limit chain allocated, count,
          room, fun none => absurd none some_, rfl, rfl⟩
        have place : clusterAt entry.getCluster ((kept ++ [last]).length - 1) (fs.withTable fat) =
            (.value last, fs.withTable fat) := by
          rw [List.length_append, List.length_singleton, Nat.add_sub_cancel]
          exact clusterAt_value same.chain
        rw [linkGrowth, if_pos (by omega), bind_value (onFat_value returned), if_neg (by simp), bind_value place,
          bind_value (onFat_value (set_apply fat last (UInt32.ofNat start) lastInside)), head]
        rfl
    · refine .inl ⟨?_, few⟩
      rw [linkGrowth, if_pos (by omega), bind_missing (onFat_value full)]
      rfl

theorem rolledBack_concat (fat : FatBuffer) (kept : List Nat) (last : Nat) :
    rolledBack fat (kept ++ [last]) = fat.assign last fatClusterEof := by
  rw [rolledBack, List.getLast?_concat]

/-- Cutting the new clusters from the chain gives the old table with a new end mark. -/
theorem Continued.cut_eq {before after : FatBuffer} {first last : Nat} {kept fresh : List Nat}
    (continued : Continued before after first (kept ++ [last]) fresh) :
    after.cut last fresh = before.assign last fatClusterEof := by
  have chain := continued.chain
  rw [List.append_assoc, List.singleton_append] at chain
  have inside := (chain.inside last (by simp)).2
  rw [continued.size] at inside
  apply ext_word
  · rw [entries_cut, entries_assign, continued.size]
  · intro cluster
    rw [word_cut chain, word_assign _ _ _ _ inside]
    by_cases new : cluster ∈ fresh
    · rw [if_pos new, if_neg, continued.free cluster new]
      rintro rfl
      have distinct := chain.nodup
      rw [List.nodup_append, List.nodup_cons] at distinct
      exact distinct.2.1.1 new
    · rw [if_neg new]
      by_cases same : cluster = last
      · rw [if_pos same, if_pos same]
      · rw [if_neg same, if_neg same, continued.rest cluster new]
        intro other equal
        exact same (List.append_inj_right' equal rfl |> List.singleton_injective |>.symm)

/-- The rollback frees the new clusters and marks the end of the old chain. -/
theorem rollbackGrowth_continued {before : FatBuffer} {newEntry : DirectoryEntry} {fresh : List Nat}
    (owned : (entry.getCluster = 0 ∧ clusters = []) ∨ FileChain before entry.getCluster clusters)
    (continued : Continued before fs.fat newEntry.getCluster clusters fresh) :
    rollbackGrowth entry.getCluster clusters.length fresh.head? fs =
      (.value (), fs.withTable (rolledBack before clusters)) := by
  have chain := continued.chain
  rcases owned with ⟨_, rfl⟩ | old
  · rw [List.nil_append] at chain
    have released : fs.fat.release fresh = before :=
      FatBuffer.Allocated.release_eq ⟨continued.size, chain, continued.free, fun cluster outside =>
        continued.rest cluster outside (by simp)⟩
    have freed := orNone_value (onFat_value (freeChain_chain fs.fat _ _ chain))
    rw [released] at freed
    have head : fresh.head? = some newEntry.getCluster := chain.chain.head?_eq
    unfold rollbackGrowth
    rw [List.length_nil, if_neg (by decide), head]
    exact bind_value freed _
  · obtain ⟨kept, last, rfl⟩ := List.eq_nil_or_concat' clusters |>.resolve_left old.ne_nil
    have first : newEntry.getCluster = entry.getCluster := by
      have oldHead := old.chain.head?_eq
      have newHead := chain.chain.head?_eq
      rw [List.head?_append, oldHead] at newHead
      exact (Option.some.inj newHead).symm
    rw [first, List.append_assoc, List.singleton_append] at chain
    have inside := (chain.inside last (by simp)).2
    have place := orNone_value (clusterAt_value chain.chain)
    have marked := orNone_value (onFat_value (set_apply fs.fat last fatClusterEof inside))
    unfold rollbackGrowth
    rw [rolledBack_concat, ← continued.cut_eq, List.length_append, List.length_singleton,
      if_pos (Nat.succ_ne_zero _), Nat.add_sub_cancel]
    cases fresh with
    | nil => exact (bind_value place _).trans (bind_value marked _)
    | cons following rest =>
      have freed := orNone_value (onFat_value (show freeChain following
        (fs.withTable (fs.fat.assign last fatClusterEof)).fat = _ from freeChain_rest chain))
      exact (bind_value place _).trans ((bind_value marked _).trans (bind_value freed _))

end Growth

end FATFileSystem

namespace FATFileSystem

/-- An entry without a first cluster owns nothing, and any other entry owns its chain. -/
def Owned (fs : Volume) (entry : DirectoryEntry) (clusters : List Nat) : Prop :=
  (entry.getCluster = 0 ∧ clusters = []) ∨ FatBuffer.FileChain fs.fat entry.getCluster clusters

/-- A slot in a used cluster holds a file whose chain has the length that its size needs. -/
structure StoredFile (fs : Volume) (location : DirectoryEntryLocation) (entry : DirectoryEntry)
    (clusters : List Nat) : Prop where
  valid : ValidLocation fs location
  stored : fs.entryAt location = entry
  archive : entry.attributes = 32
  owned : Owned fs entry clusters
  exact : clusters.length = fs.clustersForSize entry.size.toNat
  apart : location.cluster ∉ clusters
  used : fs.fat.word location.cluster ≠ 0

/-- The file at a location got a new entry and a new chain, taken from its old chain and from free clusters. -/
structure FileChange (before after : Volume) (location : DirectoryEntryLocation) (entry : DirectoryEntry)
    (clusters newClusters : List Nat) : Prop where
  frame : Frame before after (fun cluster => cluster ∈ clusters ∨ before.fat.word cluster = 0)
    (fun cluster => cluster = location.cluster ∨ cluster ∈ clusters ∨ before.fat.word cluster = 0)
  slots : ∀ other, ValidLocation before other → other.cluster ∉ clusters → before.fat.word other.cluster ≠ 0 →
    after.entryAt other = if other = location then entry else before.entryAt other
  owned : Owned after entry newClusters
  taken : ∀ cluster ∈ newClusters, cluster ∈ clusters ∨ before.fat.word cluster = 0
  freed : ∀ cluster, cluster ∈ clusters ∨ before.fat.word cluster = 0 → cluster ∉ newClusters →
    after.fat.word cluster = 0
  synced : Synced before → Synced after

/-- These bytes are the contents of a file with the given clusters. -/
def fileBytes (fs : Volume) (entry : DirectoryEntry) (clusters : List Nat) : List UInt8 :=
  (fs.chainBytes clusters).take entry.size.toNat

section Size

variable {fs : Volume}

theorem clustersForSize_zero (fs : Volume) : fs.clustersForSize 0 = 0 := if_pos rfl

/-- The clusters of a size cover the size. -/
theorem Geometry.size_le (geometry : Geometry fs) (size : Nat) :
    size ≤ fs.clustersForSize size * fs.clusterSize := by
  have positive := geometry.clusterSize_pos
  unfold clustersForSize
  split
  · omega
  · have division := Nat.div_add_mod (size + fs.clusterSize - 1) fs.clusterSize
    have remainder := Nat.mod_lt (size + fs.clusterSize - 1) positive
    rw [Nat.mul_comm] at division
    omega

/-- A nonempty file has a cluster. -/
theorem Geometry.clustersForSize_pos (geometry : Geometry fs) {size : Nat} (more : 0 < size) :
    0 < fs.clustersForSize size := by
  have covered := geometry.size_le size
  by_contra none
  rw [Nat.eq_zero_of_not_pos none, Nat.zero_mul] at covered
  omega

/-- A smaller file has no more clusters. -/
theorem clustersForSize_mono {first second : Nat} (le : first ≤ second) :
    fs.clustersForSize first ≤ fs.clustersForSize second := by
  unfold clustersForSize
  split
  · exact Nat.zero_le _
  · rw [if_neg (by omega)]
    exact Nat.div_le_div_right (by omega)

end Size

section Stored

variable {fs : Volume} {location : DirectoryEntryLocation} {entry : DirectoryEntry} {clusters : List Nat}

theorem Owned.inside (owned : Owned fs entry clusters) : ∀ cluster ∈ clusters, 2 ≤ cluster ∧ cluster < fs.fat.entries := by
  rcases owned with ⟨_, rfl⟩ | chain
  · simp
  · exact chain.inside

section File

variable (file : StoredFile fs location entry clusters)

include file

/-- An empty file has no first cluster. -/
theorem StoredFile.empty (none : entry.size.toNat = 0) : entry.getCluster = 0 ∧ clusters = [] := by
  have length := file.exact
  rw [none, clustersForSize_zero, List.length_eq_zero_iff] at length
  rcases file.owned with owned | chain
  · exact owned
  · exact absurd length chain.ne_nil

/-- A nonempty file has a chain. -/
theorem StoredFile.chain (geometry : Geometry fs) (more : 0 < entry.size.toNat) :
    FatBuffer.FileChain fs.fat entry.getCluster clusters := by
  rcases file.owned with ⟨_, rfl⟩ | chain
  · have positive := geometry.clustersForSize_pos more
    rw [← file.exact, List.length_nil] at positive
    omega
  · exact chain

theorem StoredFile.covered (geometry : Geometry fs) : entry.size.toNat ≤ clusters.length * fs.clusterSize := by
  rw [file.exact]
  exact geometry.size_le _

/-- A call that keeps the volume keeps the file. -/
theorem FileChange.refl :
    FileChange fs fs location entry clusters clusters where
  frame := .refl _ _ _
  slots other _ _ _ := by
    split
    · next same => rw [same, file.stored]
    · rfl
  owned := file.owned
  taken _ member := .inl member
  freed _ free outside := free.resolve_left outside
  synced := id

end File

/-- The driver saves the table and the entry after it has changed the chain. -/
theorem FileChange.of_middle {middle : Volume} (geometry : Geometry fs)
    (file : StoredFile fs location entry clusters) (newEntry : DirectoryEntry) (newClusters : List Nat)
    (frame : Frame fs middle (fun cluster => cluster ∈ clusters ∨ fs.fat.word cluster = 0)
      (fun cluster => cluster ∈ clusters ∨ fs.fat.word cluster = 0))
    (owned : Owned middle newEntry newClusters)
    (taken : ∀ cluster ∈ newClusters, cluster ∈ clusters ∨ fs.fat.word cluster = 0)
    (freed : ∀ cluster, cluster ∈ clusters ∨ fs.fat.word cluster = 0 → cluster ∉ newClusters →
      middle.fat.word cluster = 0) :
    persistFat middle = (.value (), middle.persisted) ∧
      persistDirectoryEntry location newEntry middle.persisted =
        (.value (), middle.persisted.withSlot location newEntry) ∧
      FileChange fs (middle.persisted.withSlot location newEntry) location newEntry clusters newClusters ∧
      (middle.persisted.withSlot location newEntry).chainBytes newClusters = middle.chainBytes newClusters := by
  have middleGeometry := frame.geometry geometry
  obtain ⟨wrote, fat_eq, same, copies⟩ := persistFat_spec middleGeometry
  have saved := frame.trans (frame_persisted middleGeometry _ _)
  have savedGeometry := saved.geometry geometry
  have valid := file.valid.frame saved
  have slotFrame := frame_withSlot savedGeometry valid newEntry
  have all : Frame fs (middle.persisted.withSlot location newEntry)
      (fun cluster => cluster ∈ clusters ∨ fs.fat.word cluster = 0)
      (fun cluster => cluster = location.cluster ∨ cluster ∈ clusters ∨ fs.fat.word cluster = 0) :=
    (saved.mono (fun _ => id) fun _ => Or.inr).trans (slotFrame.mono (fun _ => False.elim) fun _ => Or.inl)
  refine ⟨wrote, persistDirectoryEntry_apply savedGeometry valid newEntry, ⟨all, ?_, ?_, taken, ?_, ?_⟩, ?_⟩
  · intro other otherValid outside used
    rw [entryAt_withSlot savedGeometry valid (otherValid.frame saved)]
    split
    · rfl
    · rw [entryAt, saved.data other.cluster otherValid.cluster (by simp [outside, used]), entryAt]
  · rcases owned with none | chain
    · exact .inl none
    · refine .inr ?_
      rw [fat_withSlot, fat_eq]
      exact chain
  · intro cluster free outside
    rw [fat_withSlot, fat_eq]
    exact freed cluster free outside
  · exact fun _ => synced_withSlot savedGeometry copies newEntry
  · have apart (cluster : Nat) (member : cluster ∈ newClusters) : cluster ≠ location.cluster := by
      rintro rfl
      rcases taken _ member with inside | free
      · exact file.apart inside
      · exact file.used free
    have low (cluster : Nat) (member : cluster ∈ newClusters) := (owned.inside cluster member).1
    rw [slotFrame.chainBytes_eq low apart, same.chainBytes_eq low fun _ _ => id]

end Stored

section Write

variable {fs : Volume} {file : FATFile} {entry : DirectoryEntry} {clusters : List Nat} {offset : Nat}
  {bytes : List UInt8}

/-- A call reads the contents of the file. -/
theorem read_stored (geometry : Geometry fs) (stored : StoredFile fs file.location entry clusters) :
    file.read fs = (.value (fs.fileBytes entry clusters), fs) := by
  rw [FATFile.read, bind_value (readDirectoryEntry_apply geometry stored.valid), stored.stored]
  by_cases none : entry.size.toNat = 0
  · rw [readFile, get_bind, if_neg (by simp [stored.archive]), if_pos none, fileBytes, none, List.take_zero]
    rfl
  · exact readFile_chain geometry stored.archive (stored.chain geometry (by omega)) (by omega)
      (stored.covered geometry)

/-- Saving an entry that is stored already keeps every byte. -/
theorem frame_withSlot_stored (geometry : Geometry fs) {location : DirectoryEntryLocation}
    (valid : ValidLocation fs location) :
    Frame fs (fs.withSlot location (fs.entryAt location)) (fun _ => False) (fun _ => False) where
  bs := rfl
  bs32 := rfl
  size := rfl
  word _ _ := rfl
  data cluster low _ := by
    have length := geometry.length_clusterBytes location.cluster
    have inside := valid.inside
    rw [withSlot, clusterBytes_withCluster geometry valid.cluster low
      (length_withSlot_bytes geometry valid (fs.entryAt location))]
    split
    · next same =>
        rw [same, entryAt, DirectoryEntry.toBytes_readAt _ _ (by omega), overwrite_same _ _ _ (by omega)]
    · rfl

variable (geometry : Geometry fs) (stored : StoredFile fs file.location entry clusters)

include geometry stored

/-- The driver writes every byte of a range inside the file size. -/
theorem writeExistingFile_stored (fits : offset + bytes.length ≤ entry.size.toNat) :
    ∃ after, writeExistingFile entry offset bytes fs = (.value bytes.length, after) ∧
      Overwritten fs after clusters offset bytes := by
  by_cases none : bytes = []
  · subst none
    have bound := entry.size.toNat_lt
    refine ⟨fs, ?_, .refl fs _ _⟩
    rw [writeExistingFile, get_bind, if_neg (by simp [stored.archive]), if_neg (by unfold usizeLimit; omega),
      if_neg (by omega), if_pos List.isEmpty_nil]
    rfl
  · have more := List.length_pos_iff.mpr none
    obtain ⟨count, after, stops, written, returned⟩ := writeExistingFile_chain counts_reliable geometry stored.archive
      (stored.chain geometry (by omega)) none fits (stored.covered geometry) 0
    rw [stops.all, if_pos rfl] at returned
    rw [stops.all, geometry.writeReach_all, List.take_length] at written
    exact ⟨after, returned, written⟩

/-- A write inside the file size replaces a range of the contents and keeps everything else. -/
theorem write_stored (fits : offset + bytes.length ≤ entry.size.toNat) :
    ∃ after, file.write offset bytes fs = (.value bytes.length, after) ∧
      FileChange fs after file.location entry clusters clusters ∧
      Frame fs after (fun _ => False) (· ∈ clusters) ∧
      after.fileBytes entry clusters = overwrite (fs.fileBytes entry clusters) offset bytes := by
  obtain ⟨middle, returned, written⟩ := writeExistingFile_stored geometry stored fits
  have middleGeometry := written.frame.geometry geometry
  have valid := stored.valid.frame written.frame
  have same : middle.entryAt file.location = entry := by
    rw [entryAt, written.frame.data _ stored.valid.cluster stored.apart, ← entryAt, stored.stored]
  have kept := frame_withSlot_stored middleGeometry valid
  rw [same] at kept
  have frame := written.frame.trans (kept.mono (fun _ => id) fun _ => False.elim)
  have fat : (middle.withSlot file.location entry).fat = fs.fat := written.fat
  refine ⟨middle.withSlot file.location entry, ?_, ⟨?_, ?_, ?_, fun _ => Or.inl, ?_, ?_⟩, frame, ?_⟩
  · rw [FATFile.write, bind_value (readDirectoryEntry_apply geometry stored.valid), stored.stored,
      bind_value returned, bind_value (persistDirectoryEntry_apply middleGeometry valid entry)]
    rfl
  · exact frame.mono (fun _ => False.elim) fun _ inside => .inr (.inl inside)
  · intro other otherValid outside _
    split
    · next place => rw [place, entryAt, frame.data _ stored.valid.cluster stored.apart, ← entryAt, stored.stored]
    · rw [entryAt, frame.data _ otherValid.cluster outside, ← entryAt]
  · unfold Owned
    rw [fat]
    exact stored.owned
  · intro cluster free outside
    rw [fat]
    exact free.resolve_left outside
  · exact fun synced => synced_withSlot middleGeometry (written.synced synced) entry
  · have covered := stored.covered geometry
    have length := geometry.length_chainBytes clusters
    have low (cluster : Nat) (member : cluster ∈ clusters) := (stored.owned.inside cluster member).1
    rw [fileBytes, kept.chainBytes_eq low (fun _ _ => id), written.bytes, fileBytes,
      take_overwrite _ _ _ _ fits (by omega)]

/-- A write outside the file size changes nothing. -/
theorem write_outside (outside : entry.size.toNat < offset + bytes.length) :
    file.write offset bytes fs = (.missing, fs) := by
  have refused : writeExistingFile entry offset bytes fs = (.missing, fs) := by
    rw [writeExistingFile, get_bind, if_neg (by simp [stored.archive]), if_pos outside, ite_self]
    rfl
  rw [FATFile.write, bind_value (readDirectoryEntry_apply geometry stored.valid), stored.stored, bind_missing refused]

end Write

/-- The truncated file has the requested size and its contents continue as zeros. -/
structure Truncated (before after : Volume) (location : DirectoryEntryLocation) (entry : DirectoryEntry)
    (clusters : List Nat) (newSize : Nat) (newEntry : DirectoryEntry) (newClusters : List Nat) : Prop where
  change : FileChange before after location newEntry clusters newClusters
  name : newEntry.name = entry.name
  attributes : newEntry.attributes = entry.attributes
  size : newEntry.size.toNat = newSize
  exact : newClusters.length = before.clustersForSize newSize
  bytes : after.fileBytes newEntry newClusters =
    (before.fileBytes entry clusters ++ List.replicate (newSize - entry.size.toNat) 0).take newSize

section Truncate

variable {fs : Volume} {location : DirectoryEntryLocation} {entry : DirectoryEntry} {clusters : List Nat}
  {newSize : Nat}

theorem toNat_ofNat_size {size : Nat} (small : size ≤ 0xFFFFFFFF) : (UInt32.ofNat size).toNat = size := by
  rw [UInt32.toNat_ofNat']
  omega

/-- Truncation to nothing frees the whole chain. -/
theorem shrinkExistingFile_empty (geometry : Geometry fs) (file : StoredFile fs location entry clusters)
    (more : 0 < entry.size.toNat) :
    ∃ after newEntry, shrinkExistingFile entry location 0 fs = (.value (), after) ∧
      Truncated fs after location entry clusters 0 newEntry [] := by
  have chain := file.chain geometry more
  have empty : ({ entry.setCluster 0 with size := 0 } : DirectoryEntry).getCluster = 0 :=
    DirectoryEntry.getCluster_setCluster entry 0 (by decide)
  have frame : Frame fs (fs.withFat (fs.fat.release clusters))
      (fun cluster => cluster ∈ clusters ∨ fs.fat.word cluster = 0)
      (fun cluster => cluster ∈ clusters ∨ fs.fat.word cluster = 0) := by
    refine frame_withFat (entries_release _ _) ?_ _
    intro cluster outside
    rw [not_or] at outside
    rw [word_release, if_neg outside.1]
  have freeAfter (cluster : Nat) (free : cluster ∈ clusters ∨ fs.fat.word cluster = 0) (_ : cluster ∉ []) :
      (fs.withFat (fs.fat.release clusters)).fat.word cluster = 0 := by
    rw [fat_withFat, word_release]
    split
    · rfl
    · next outside => exact free.resolve_left outside
  obtain ⟨wrote, saved, change, -⟩ := FileChange.of_middle geometry file { entry.setCluster 0 with size := 0 } []
    frame (.inl ⟨empty, rfl⟩) (by simp) freeAfter
  refine ⟨_, _, ?_, change, rfl, rfl, rfl, (clustersForSize_zero fs).symm, ?_⟩
  · rw [shrinkExistingFile_release chain]
    exact (bind_value wrote _).trans saved
  · rw [fileBytes, List.take_zero]
    rfl

/-- Truncation to a smaller size cuts the chain behind the last cluster that is kept. -/
theorem shrinkExistingFile_kept (geometry : Geometry fs) (file : StoredFile fs location entry clusters)
    (more : 0 < newSize) (less : newSize < entry.size.toNat) :
    ∃ after newEntry newClusters, shrinkExistingFile entry location newSize fs = (.value (), after) ∧
      Truncated fs after location entry clusters newSize newEntry newClusters := by
  have chain := file.chain geometry (by omega)
  have positive := geometry.clusterSize_pos
  have count : fs.clustersForSize newSize = (newSize + fs.clusterSize - 1) / fs.clusterSize := if_neg (by omega)
  have some_ := geometry.clustersForSize_pos more
  have fewer : fs.clustersForSize newSize ≤ clusters.length := by
    rw [file.exact]
    exact clustersForSize_mono (by omega)
  have inside : fs.clustersForSize newSize - 1 < clusters.length := by omega
  obtain ⟨kept, last, rest, rfl, place⟩ := exists_split inside
  have frame : Frame fs (fs.withFat (fs.fat.cut last rest))
      (fun cluster => cluster ∈ kept ++ last :: rest ∨ fs.fat.word cluster = 0)
      (fun cluster => cluster ∈ kept ++ last :: rest ∨ fs.fat.word cluster = 0) := by
    refine frame_withFat (entries_cut _ _ _) ?_ _
    intro cluster outside
    simp only [List.mem_append, List.mem_cons, not_or] at outside
    rw [word_cut chain, if_neg outside.1.2.2, if_neg outside.1.2.1]
  have freeAfter (cluster : Nat) (free : cluster ∈ kept ++ last :: rest ∨ fs.fat.word cluster = 0)
      (outside : cluster ∉ kept ++ [last]) : (fs.withFat (fs.fat.cut last rest)).fat.word cluster = 0 := by
    simp only [List.mem_append, List.mem_cons, List.not_mem_nil, or_false, not_or] at free outside
    rw [fat_withFat, word_cut chain]
    split
    · rfl
    · rw [if_neg outside.2]
      tauto
  obtain ⟨wrote, saved, change, kept_bytes⟩ := FileChange.of_middle geometry file
    { entry with size := UInt32.ofNat newSize } (kept ++ [last]) frame (.inr chain.cut)
    (fun cluster member => .inl (by simp at member ⊢; tauto)) freeAfter
  have bound := entry.size.toNat_lt
  have small := toNat_ofNat_size (show newSize ≤ 0xFFFFFFFF by omega)
  have length : (kept ++ [last]).length = fs.clustersForSize newSize := by
    rw [List.length_append, List.length_singleton]
    omega
  have covered : newSize ≤ (fs.chainBytes (kept ++ [last])).length := by
    rw [geometry.length_chainBytes, length]
    exact geometry.size_le newSize
  refine ⟨_, _, kept ++ [last], ?_, change, rfl, rfl, small, length, ?_⟩
  · rw [shrinkExistingFile_cut chain positive more (by rw [place, count])]
    exact (bind_value wrote _).trans saved
  · rw [fileBytes, kept_bytes, small, fileBytes, Nat.sub_eq_zero_of_le (by omega), List.replicate_zero,
      List.append_nil, List.take_take, Nat.min_eq_left (by omega),
      show kept ++ last :: rest = (kept ++ [last]) ++ rest by simp, chainBytes_append (kept ++ [last]),
      List.take_append_of_le_length covered]
    rfl

/-- The grown chain keeps the old clusters and continues in clusters that were free. -/
structure Grown (before after : FatBuffer) (first : Nat) (clusters fresh : List Nat) : Prop where
  size : after.entries = before.entries
  chain : FatBuffer.FileChain after first (clusters ++ fresh)
  free : ∀ cluster ∈ fresh, before.word cluster = 0
  rest : ∀ cluster, cluster ∉ clusters ++ fresh → after.word cluster = before.word cluster

theorem Continued.grown {before after : FatBuffer} {first : Nat} {clusters fresh : List Nat}
    (continued : Continued before after first clusters fresh) : Grown before after first clusters fresh where
  size := continued.size
  chain := continued.chain
  free := continued.free
  rest cluster outside := by
    rw [List.mem_append, not_or] at outside
    refine continued.rest cluster outside.2 ?_
    rintro kept rfl
    exact outside.1 (by simp)

/-- Truncation to a larger size appends zeros, or finds too few free clusters and changes nothing. -/
theorem growExistingFile_stored (geometry : Geometry fs) (file : StoredFile fs location entry clusters)
    (more : entry.size.toNat < newSize) (small : newSize ≤ 0xFFFFFFFF) :
    growExistingFile entry location entry.size.toNat newSize fs = (.missing, fs) ∨
      ∃ after newEntry newClusters,
        growExistingFile entry location entry.size.toNat newSize fs = (.value (), after) ∧
          Truncated fs after location entry clusters newSize newEntry newClusters := by
  have positive := geometry.clusterSize_pos
  have fewer : clusters.length ≤ fs.clustersForSize newSize := by
    rw [file.exact]
    exact clustersForSize_mono (by omega)
  rw [growExistingFile, get_bind, if_neg (by omega), ← file.exact]
  rcases linkGrowth_continued geometry.limit file.owned (geometry.clustersForSize_pos (by omega)) fewer with
    ⟨full, _⟩ | ⟨grownEntry, fat, fresh, linked, continued, count, _, _, name, attributes⟩
  · exact .inl (bind_missing full _)
  · refine .inr ?_
    have grown := continued.grown
    have linkFrame : Frame fs (fs.withFat fat) (fun cluster => cluster ∈ clusters ∨ fs.fat.word cluster = 0)
        (fun cluster => cluster ∈ clusters ∨ fs.fat.word cluster = 0) := by
      refine frame_withFat grown.size ?_ _
      intro cluster outside
      rw [not_or] at outside
      refine grown.rest cluster ?_
      rw [List.mem_append, not_or]
      exact ⟨outside.1, fun inside => outside.2 (grown.free cluster inside)⟩
    have linkGeometry := linkFrame.geometry geometry
    have covered := geometry.size_le newSize
    obtain ⟨middle, _, _, outcome⟩ := zeroFileRange_chain counts_reliable linkGeometry grown.chain
      (show 0 < newSize - entry.size.toNat by omega)
      (show entry.size.toNat + (newSize - entry.size.toNat) ≤ (clusters ++ fresh).length * fs.clusterSize by
        rw [count]
        omega) 0
    obtain ⟨written, zeroed⟩ := of_never outcome
    have taken (cluster : Nat) (member : cluster ∈ clusters ++ fresh) :
        cluster ∈ clusters ∨ fs.fat.word cluster = 0 :=
      (List.mem_append.mp member).imp_right (grown.free cluster)
    have frame := linkFrame.trans (written.frame.mono (fun _ => False.elim) taken)
    have middleFat : middle.fat = fat := written.fat
    have freeAfter (cluster : Nat) (free : cluster ∈ clusters ∨ fs.fat.word cluster = 0)
        (outside : cluster ∉ clusters ++ fresh) : middle.fat.word cluster = 0 := by
      rw [middleFat, grown.rest cluster outside]
      exact free.resolve_left fun inside => outside (List.mem_append_left _ inside)
    obtain ⟨wrote, saved, change, bytes⟩ := FileChange.of_middle geometry file
      { grownEntry with size := UInt32.ofNat newSize } (clusters ++ fresh) frame
      (.inr (by rw [middleFat]; exact grown.chain)) taken freeAfter
    have size := toNat_ofNat_size small
    refine ⟨_, _, clusters ++ fresh, ?_, change, name, attributes, size, count, ?_⟩
    · refine (bind_value linked _).trans ((bind_value (orNone_value zeroed) _).trans ?_)
      exact (bind_value (orNone_value wrote) _).trans saved
    · have old := file.covered geometry
      have oldLength := geometry.length_chainBytes clusters
      have newLength := geometry.length_chainBytes (clusters ++ fresh)
      have unchanged : (fs.withFat fat).chainBytes (clusters ++ fresh) = fs.chainBytes (clusters ++ fresh) := rfl
      have zeros : ((fs.chainBytes clusters).take entry.size.toNat ++
          List.replicate (newSize - entry.size.toNat) 0).length = newSize := by
        rw [List.length_append, List.length_take, List.length_replicate]
        omega
      have front : (fs.chainBytes (clusters ++ fresh)).take entry.size.toNat =
          (fs.chainBytes clusters).take entry.size.toNat := by
        rw [chainBytes_append, List.take_append_of_le_length (by omega)]
      rw [fileBytes, bytes, size, written.bytes, unchanged, overwrite, front, List.take_left' zeros, fileBytes,
        List.take_of_length_le (Nat.le_of_eq zeros)]

/-- A truncation refuses the request without a change, or gives the file its new size. -/
theorem truncateExistingFile_stored (geometry : Geometry fs) (file : StoredFile fs location entry clusters)
    (newSize : Nat) :
    truncateExistingFile location newSize fs = (.missing, fs) ∨
      ∃ after newEntry newClusters, truncateExistingFile location newSize fs = (.value (), after) ∧
        Truncated fs after location entry clusters newSize newEntry newClusters := by
  rw [truncateExistingFile, bind_value (readDirectoryEntry_apply geometry file.valid), file.stored,
    if_neg (by simp [file.archive])]
  by_cases large : newSize > 0xFFFFFFFF
  · rw [if_pos large]
    exact .inl rfl
  · rw [if_neg large]
    by_cases same : newSize = entry.size.toNat
    · rw [if_pos same]
      refine .inr ⟨fs, entry, clusters, rfl, .refl file, rfl, rfl, same.symm, by rw [same, file.exact], ?_⟩
      rw [same, Nat.sub_self, List.replicate_zero, List.append_nil, fileBytes, List.take_take, Nat.min_self]
    · rw [if_neg same]
      by_cases less : newSize < entry.size.toNat
      · rw [if_pos less]
        by_cases none : newSize = 0
        · subst none
          obtain ⟨after, newEntry, returned, truncated⟩ := shrinkExistingFile_empty geometry file less
          exact .inr ⟨after, newEntry, [], returned, truncated⟩
        · exact .inr (shrinkExistingFile_kept geometry file (by omega) less)
      · rw [if_neg less]
        exact growExistingFile_stored geometry file (by omega) (by omega)

end Truncate

end FATFileSystem

end BubbleOs.Fat
