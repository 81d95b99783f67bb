import BubbleOs.Proof.Fat.WellFormed

namespace BubbleOs.Fat

namespace FATFileSystem

/-- An absent slot owns no cluster. -/
def OwnedBy (fs : Volume) : Option Slot → List Nat → Prop
  | none, clusters => clusters = []
  | some slot, clusters => Owned fs slot.1 clusters

/-- A new entry names an empty directory or a file of the right length. -/
structure FreshEntry (fs : Volume) (slot : Slot) (clusters : List Nat) : Prop where
  named : isDotName slot.1.name = false
  directory : slot.1.isDirectory = true → clusters ≠ [] ∧ EndsClean (fs.dirSlots clusters) ∧
    ∀ inner ∈ liveSlots (fs.dirSlots clusters), isDotName inner.1.name = true ∧ inner.1.isDirectory = true
  file : slot.1.isRegularFile = true → clusters.length = fs.clustersForSize slot.1.size.toNat

/-- The old entry can be removed. -/
structure SpareEntry (fs : Volume) (slot : Slot) (parent clusters : List Nat) : Prop where
  listed : slot ∈ liveSlots (fs.dirSlots parent)
  named : isDotName slot.1.name = false
  empty : slot.1.isDirectory = true → ∀ inner ∈ liveSlots (fs.dirSlots clusters), isDotName inner.1.name = true

/-- An edit replaces at most one entry of a directory and uses only the clusters of the directory, the clusters of
the old entry and free clusters. -/
structure Edit (before after : Volume) (dir : Nat) (clusters fresh : List Nat) (old new : Option Slot)
    (oldClusters newClusters : List Nat) : Prop where
  frame : Frame before after
    (fun cluster => cluster ∈ clusters ∨ cluster ∈ oldClusters ∨ before.fat.word cluster = 0)
    (fun cluster => cluster ∈ clusters ∨ cluster ∈ oldClusters ∨ before.fat.word cluster = 0)
  chain : FatBuffer.FileChain after.fat dir (clusters ++ fresh)
  clean : EndsClean (after.dirSlots (clusters ++ fresh))
  live : ∀ slot, slot ∈ liveSlots (after.dirSlots (clusters ++ fresh)) ↔
    (slot ∈ liveSlots (before.dirSlots clusters) ∧ some slot ≠ old) ∨ some slot = new
  oldOwned : OwnedBy before old oldClusters
  newOwned : OwnedBy after new newClusters
  oldEntry : ∀ slot, old = some slot → SpareEntry before slot clusters oldClusters
  newEntry : ∀ slot, new = some slot → FreshEntry after slot newClusters
  unused : ∀ cluster ∈ fresh, before.fat.word cluster = 0
  taken : ∀ cluster ∈ newClusters, cluster ∈ oldClusters ∨ before.fat.word cluster = 0
  apart : ∀ cluster ∈ newClusters, cluster ∉ fresh
  freed : ∀ cluster, cluster ∈ oldClusters ∨ before.fat.word cluster = 0 → cluster ∉ fresh →
    cluster ∉ newClusters → after.fat.word cluster = 0
  synced : Synced before → Synced after

/-- A slot holds the entry of the directory that starts at a cluster. -/
def Names (slot : Option Slot) (dir : Nat) : Prop :=
  ∃ inner, slot = some inner ∧ inner.1.isDirectory = true ∧ inner.1.getCluster = dir

section WellFormed

variable {reserved : Nat → UInt32 → Prop} {fs : Volume} {dir : Nat} {slot : Slot} {clusters : List Nat}
  {first second : Nat} {entry : DirectoryEntry} {after : Volume}

/-- The root or the entry of a subdirectory owns the chain of a live directory. -/
theorem LiveDirectory.owner (live : LiveDirectory fs dir) :
    ∃ owner : Owner, owner.Live fs ∧ owner.firstCluster fs = dir ∧
      ∀ slot, owner = .entry slot → slot.1.isDirectory = true := by
  cases live with
  | refl => exact ⟨.root, trivial, rfl, by simp⟩
  | tail parent child =>
    obtain ⟨slot, inside, directory, first⟩ := child
    refine ⟨.entry slot, ⟨_, parent, inside⟩, first, ?_⟩
    intro other same
    injection same with same
    exact same ▸ directory

theorem EntryIn.mem_slots (entry : EntryIn fs dir slot) (chain : FatBuffer.FileChain fs.fat dir clusters) :
    slot ∈ liveSlots (fs.dirSlots clusters) ∧ isDotName slot.1.name = false := by
  obtain ⟨others, otherChain, member, named⟩ := entry
  rw [chain.unique otherChain]
  exact ⟨member, named⟩

/-- A slot of a directory lies in one of its clusters. -/
theorem cluster_mem_of_live (member : slot ∈ liveSlots (fs.dirSlots clusters)) :
    slot.2.cluster ∈ clusters ∧ slot.2 ∈ fs.directoryLocations clusters ∧ fs.entryAt slot.2 = slot.1 := by
  obtain ⟨listed, _⟩ := mem_of_mem_liveSlots member
  obtain ⟨location, inside, rfl⟩ := List.mem_map.mp listed
  exact ⟨(mem_directoryLocations.mp inside).1, inside, rfl⟩

/-- Two live directories that share a cluster are the same. -/
theorem WellFormed.directory_unique (well : WellFormed reserved fs) {clusters others : List Nat}
    (live : LiveDirectory fs first) (otherLive : LiveDirectory fs second)
    (chain : FatBuffer.FileChain fs.fat first clusters) (otherChain : FatBuffer.FileChain fs.fat second others)
    {cluster : Nat} (member : cluster ∈ clusters) (shared : cluster ∈ others) : first = second := by
  obtain ⟨owner, ownerLive, rfl, _⟩ := live.owner
  obtain ⟨other, otherOwnerLive, rfl, _⟩ := otherLive.owner
  rw [well.separate owner other clusters others ⟨ownerLive, chain⟩ ⟨otherOwnerLive, otherChain⟩ cluster member shared]

/-- A live entry lies in one directory only. -/
theorem WellFormed.entryIn_unique (well : WellFormed reserved fs) (live : LiveDirectory fs first)
    (otherLive : LiveDirectory fs second) (entry : EntryIn fs first slot) (other : EntryIn fs second slot) :
    first = second := by
  obtain ⟨clusters, chain, member, _⟩ := entry
  obtain ⟨others, otherChain, otherMember, _⟩ := other
  exact well.directory_unique live otherLive chain otherChain (cluster_mem_of_live member).1
    (cluster_mem_of_live otherMember).1

/-- Two live entries with the same first cluster are the same. -/
theorem WellFormed.entry_unique (well : WellFormed reserved fs) {first second : Slot} (live : LiveEntry fs first)
    (otherLive : LiveEntry fs second) (same : first.1.getCluster = second.1.getCluster)
    (chain : FatBuffer.FileChain fs.fat first.1.getCluster clusters) : first = second := by
  have other : FatBuffer.FileChain fs.fat second.1.getCluster clusters := same ▸ chain
  have equal := well.separate (.entry first) (.entry second) clusters clusters ⟨live, chain⟩ ⟨otherLive, other⟩ _
    chain.first_mem chain.first_mem
  injection equal

/-- The entry of a subdirectory has a chain. -/
theorem WellFormed.directory_chain (well : WellFormed reserved fs) (live : LiveEntry fs slot)
    (directory : slot.1.isDirectory = true) : ∃ clusters, FatBuffer.FileChain fs.fat slot.1.getCluster clusters := by
  obtain ⟨dir, dirLive, entry⟩ := live
  obtain ⟨clusters, chain, _⟩ := well.directories _ (.tail dirLive ⟨slot, entry, directory, rfl⟩)
  exact ⟨clusters, chain⟩

theorem LiveEntry.isNormalEntry (live : LiveEntry fs slot) : slot.1.isNormalEntry = true := by
  obtain ⟨_, _, _, _, listed, _⟩ := live
  exact (mem_of_mem_liveSlots listed).2

/-- A regular file is not a directory. -/
theorem notDirectory_of_regular (regular : entry.isRegularFile = true) : entry.isDirectory = false := by
  simp only [DirectoryEntry.isRegularFile, Bool.and_eq_true, Bool.not_eq_true'] at regular
  exact regular.2

/-- The slot of a file names no directory. -/
theorem not_names_of_file (file : slot.1.isDirectory = false) (dir : Nat) : ¬ Names (some slot) dir := by
  rintro ⟨inner, same, directory, _⟩
  rw [Option.some.injEq] at same
  rw [same, directory] at file
  contradiction

/-- A live entry that is not a directory is a regular file. -/
theorem LiveEntry.isRegularFile (live : LiveEntry fs slot) (file : slot.1.isDirectory = false) :
    slot.1.isRegularFile = true := by
  rw [DirectoryEntry.isRegularFile, live.isNormalEntry, file]
  rfl

/-- An entry with a first cluster has a chain. -/
theorem WellFormed.entry_chain (well : WellFormed reserved fs) (live : LiveEntry fs slot)
    (nonzero : slot.1.getCluster ≠ 0) : ∃ clusters, FatBuffer.FileChain fs.fat slot.1.getCluster clusters := by
  cases directory : slot.1.isDirectory with
  | true => exact well.directory_chain live directory
  | false =>
    obtain ⟨clusters, owned, _⟩ := well.files slot live (live.isRegularFile directory)
    exact ⟨clusters, owned.resolve_left fun none => nonzero none.1⟩

/-- Every live entry owns its clusters. -/
theorem WellFormed.entry_owned (well : WellFormed reserved fs) (live : LiveEntry fs slot) :
    ∃ clusters, Owned fs slot.1 clusters := by
  by_cases none : slot.1.getCluster = 0
  · exact ⟨[], .inl ⟨none, rfl⟩⟩
  · obtain ⟨clusters, chain⟩ := well.entry_chain live none
    exact ⟨clusters, .inr chain⟩

/-- The clusters of an entry lie outside every directory that the entry does not name. -/
theorem WellFormed.entry_apart (well : WellFormed reserved fs) (live : LiveDirectory fs dir)
    (chain : FatBuffer.FileChain fs.fat dir clusters) (entryLive : LiveEntry fs slot)
    (different : slot.1.isDirectory = true → slot.1.getCluster ≠ dir) {others : List Nat}
    (owned : Owned fs slot.1 others) : ∀ cluster ∈ clusters, cluster ∉ others := by
  intro cluster inside shared
  obtain ⟨owner, ownerLive, first, directory⟩ := live.owner
  have entryChain := owned.resolve_left fun none => List.ne_nil_of_mem shared none.2
  have entryHolds : Owner.Holds fs (.entry slot) others := ⟨entryLive, entryChain⟩
  have same := well.separate _ _ _ _ ⟨ownerLive, first ▸ chain⟩ entryHolds cluster inside shared
  refine different (directory slot same) ?_
  rw [← first, same]
  rfl

/-- A file of the right length has no first cluster exactly when it is empty. -/
theorem Owned.size_iff (owned : Owned fs entry clusters) (geometry : Geometry fs)
    (length : clusters.length = fs.clustersForSize entry.size.toNat) : entry.getCluster = 0 ↔ entry.size = 0 := by
  rcases owned with ⟨none, rfl⟩ | chain
  · refine ⟨fun _ => ?_, fun _ => none⟩
    by_contra nonzero
    have positive := geometry.clustersForSize_pos
      (Nat.pos_of_ne_zero fun zero => nonzero (UInt32.toNat_inj.mp zero))
    rw [← length] at positive
    exact Nat.lt_irrefl 0 positive
  · refine ⟨fun zero => absurd zero chain.ne_zero, fun zero => ?_⟩
    rw [zero, UInt32.toNat_zero, clustersForSize_zero, List.length_eq_zero_iff] at length
    exact absurd length chain.ne_nil

variable {words clusters : Nat → Prop} (frame : Frame fs after words clusters)

include frame

theorem Frame.root_eq : after.root = fs.root := by
  rw [root, root, frame.bs32]

theorem Frame.directoryCluster_eq (dir : DirectoryEntry) : after.directoryCluster dir = fs.directoryCluster dir := by
  rw [directoryCluster, directoryCluster, frame.root_eq]

theorem Frame.clustersForSize_eq (size : Nat) : after.clustersForSize size = fs.clustersForSize size := by
  rw [clustersForSize, clustersForSize, frame.clusterSize_eq]

end WellFormed

section Edit

variable {reserved : Nat → UInt32 → Prop} {before after : Volume} {dir : Nat} {clusters fresh : List Nat}
  {old new : Option Slot} {oldClusters newClusters : List Nat} (well : WellFormed reserved before)
  (dirLive : LiveDirectory before dir) (dirChain : FatBuffer.FileChain before.fat dir clusters)
  (edit : Edit before after dir clusters fresh old new oldClusters newClusters)

include well dirLive dirChain edit

namespace Edit

variable {slot : Slot} {cluster : Nat} {others : List Nat} {other : Nat}

omit well in
theorem old_live (same : old = some slot) : LiveEntry before slot :=
  ⟨dir, dirLive, clusters, dirChain, (edit.oldEntry slot same).listed, (edit.oldEntry slot same).named⟩

omit well in
/-- The old entry holds its clusters. -/
theorem old_holds (member : cluster ∈ oldClusters) :
    ∃ slot, old = some slot ∧ Owner.Holds before (.entry slot) oldClusters := by
  have owned := edit.oldOwned
  cases same : old with
  | none =>
    rw [same] at owned
    rw [show oldClusters = [] from owned] at member
    simp at member
  | some slot =>
    rw [same] at owned
    rcases owned with ⟨_, rfl⟩ | chain
    · simp at member
    · exact ⟨slot, rfl, edit.old_live dirLive dirChain same, chain⟩

/-- The old entry does not name the directory itself. -/
theorem old_ne_dir (same : old = some slot) : slot.1.getCluster ≠ dir := by
  intro names
  obtain ⟨owner, ownerLive, first, directory⟩ := dirLive.owner
  have spare := edit.oldEntry slot same
  have chain : FatBuffer.FileChain before.fat slot.1.getCluster clusters := names ▸ dirChain
  have owns : owner = .entry slot := well.separate owner (.entry slot) clusters clusters
    ⟨ownerLive, first ▸ dirChain⟩ ⟨edit.old_live dirLive dirChain same, chain⟩ _ chain.first_mem chain.first_mem
  have owned := edit.oldOwned
  rw [same] at owned
  rcases owned with ⟨zero, _⟩ | oldChain
  · have low := chain.low_first
    omega
  · have dotted := spare.empty (directory slot owns) slot
    rw [← chain.unique oldChain] at dotted
    have named := spare.named
    rw [dotted spare.listed] at named
    contradiction

section Holds

variable {owner : Owner} (holds : Owner.Holds before owner others)
  (notOld : ∀ slot, old = some slot → owner ≠ .entry slot) (notDir : owner.firstCluster before ≠ dir)

include holds notOld notDir

/-- The chain of any other owner lies outside the edit. -/
theorem outside :
    ∀ cluster ∈ others, ¬ (cluster ∈ clusters ∨ cluster ∈ oldClusters ∨ before.fat.word cluster = 0) := by
  rintro cluster member (inDir | inOld | free)
  · obtain ⟨dirOwner, dirOwnerLive, first, _⟩ := dirLive.owner
    have same := well.separate owner dirOwner others clusters holds ⟨dirOwnerLive, first ▸ dirChain⟩ cluster member inDir
    exact notDir (same ▸ first)
  · obtain ⟨slot, same, oldHolds⟩ := edit.old_holds dirLive dirChain inOld
    exact notOld slot same (well.separate _ _ _ _ holds oldHolds cluster member inOld)
  · exact holds.2.used cluster member free

/-- Any other owner keeps its chain. -/
theorem chain_kept :
    FatBuffer.FileChain after.fat (owner.firstCluster before) others ∧
      after.chainBytes others = before.chainBytes others ∧ after.dirSlots others = before.dirSlots others := by
  have away := edit.outside well dirLive dirChain holds notOld notDir
  have low (cluster : Nat) (member : cluster ∈ others) := (holds.2.inside cluster member).1
  exact ⟨holds.2.congr edit.frame.size fun cluster member => edit.frame.word cluster (away cluster member),
    edit.frame.chainBytes_eq low away, edit.frame.dirSlots_eq low away⟩

end Holds

/-- Any other live directory keeps its slots. -/
theorem directory_kept (live : LiveDirectory before other) (chain : FatBuffer.FileChain before.fat other others)
    (notDir : other ≠ dir) (kept : ¬ Names old other) :
    FatBuffer.FileChain after.fat other others ∧ after.dirSlots others = before.dirSlots others := by
  obtain ⟨owner, ownerLive, first, directory⟩ := live.owner
  have notOld (slot : Slot) (same : old = some slot) : owner ≠ .entry slot := by
    rintro rfl
    exact kept ⟨slot, same, directory slot rfl, first⟩
  have result := edit.chain_kept well dirLive dirChain ⟨ownerLive, first ▸ chain⟩ notOld (first ▸ notDir)
  rw [first] at result
  exact ⟨result.1, result.2.2⟩

omit well dirLive in
/-- The directory lists the new entry in place of the old one. -/
theorem entryIn_dir (slot : Slot) :
    EntryIn after dir slot ↔ (EntryIn before dir slot ∧ some slot ≠ old) ∨ some slot = new := by
  constructor
  · intro entry
    obtain ⟨member, named⟩ := entry.mem_slots edit.chain
    rcases (edit.live slot).mp member with ⟨listed, notOld⟩ | added
    · exact .inl ⟨⟨clusters, dirChain, listed, named⟩, notOld⟩
    · exact .inr added
  · rintro (⟨entry, notOld⟩ | added)
    · obtain ⟨listed, named⟩ := entry.mem_slots dirChain
      exact ⟨_, edit.chain, (edit.live slot).mpr (.inl ⟨listed, notOld⟩), named⟩
    · exact ⟨_, edit.chain, (edit.live slot).mpr (.inr added), (edit.newEntry slot added.symm).named⟩

/-- Any other live directory lists the same entries. -/
theorem entryIn_other (live : LiveDirectory before other) (notDir : other ≠ dir) (kept : ¬ Names old other)
    (slot : Slot) : EntryIn after other slot ↔ EntryIn before other slot := by
  obtain ⟨others, chain, _⟩ := well.directories other live
  obtain ⟨newChain, same⟩ := edit.directory_kept well dirLive dirChain live chain notDir kept
  constructor
  · intro entry
    obtain ⟨listed, named⟩ := entry.mem_slots newChain
    exact ⟨others, chain, same ▸ listed, named⟩
  · intro entry
    obtain ⟨listed, named⟩ := entry.mem_slots chain
    exact ⟨others, newChain, by rw [same]; exact listed, named⟩

omit well dirLive dirChain in
/-- A removed directory lists no entry. -/
theorem entryIn_removed (removed : Names old other) (slot : Slot) : ¬ EntryIn before other slot := by
  rintro ⟨others, chain, listed, named⟩
  obtain ⟨oldSlot, same, directory, rfl⟩ := removed
  have owned := edit.oldOwned
  rw [same] at owned
  rcases owned with ⟨zero, _⟩ | oldChain
  · have low := chain.low_first
    omega
  · rw [chain.unique oldChain] at listed
    rw [(edit.oldEntry oldSlot same).empty directory slot listed] at named
    contradiction

omit well dirLive dirChain in
/-- A new directory lists no entry. -/
theorem entryIn_new (added : Names new other) (slot : Slot) : ¬ EntryIn after other slot := by
  rintro ⟨others, chain, listed, named⟩
  obtain ⟨newSlot, same, directory, rfl⟩ := added
  have owned := edit.newOwned
  rw [same] at owned
  rcases owned with ⟨zero, _⟩ | newChain
  · have low := chain.low_first
    omega
  · rw [chain.unique newChain] at listed
    rw [(((edit.newEntry newSlot same).directory directory).2.2 slot listed).1] at named
    contradiction

theorem dir_kept : ¬ Names old dir := by
  rintro ⟨slot, same, _, names⟩
  exact edit.old_ne_dir well dirLive dirChain same names

/-- The root is never removed. -/
theorem root_kept : ¬ Names old before.root.getCluster := by
  rintro ⟨slot, same, _, names⟩
  obtain ⟨clusters, chain, _⟩ := well.directories before.root.getCluster .refl
  have oldChain : FatBuffer.FileChain before.fat slot.1.getCluster clusters := by
    rw [names]
    exact chain
  have rootHolds : Owner.Holds before .root clusters := ⟨trivial, chain⟩
  have oldHolds : Owner.Holds before (.entry slot) clusters := ⟨edit.old_live dirLive dirChain same, oldChain⟩
  have equal := well.separate _ _ _ _ rootHolds oldHolds _ chain.first_mem chain.first_mem
  exact Owner.noConfusion equal

/-- An entry that stays does not name the removed directory. -/
theorem child_kept (live : LiveEntry before slot) (notOld : some slot ≠ old) : ¬ Names old slot.1.getCluster := by
  rintro ⟨oldSlot, same, directory, names⟩
  obtain ⟨clusters, chain⟩ := well.directory_chain (edit.old_live dirLive dirChain same) directory
  exact notOld (by rw [same, well.entry_unique (edit.old_live dirLive dirChain same) live names chain])

/-- The old entry lies in the edited directory only. -/
theorem old_only_dir (live : LiveDirectory before other) (notDir : other ≠ dir) (entry : EntryIn before other slot) :
    some slot ≠ old := by
  intro same
  have spare := edit.oldEntry slot same.symm
  exact notDir (well.entryIn_unique live dirLive entry ⟨clusters, dirChain, spare.listed, spare.named⟩)

/-- The live directories stay live unless they were removed. -/
theorem liveDirectory_iff (other : Nat) :
    LiveDirectory after other ↔ (LiveDirectory before other ∧ ¬ Names old other) ∨ Names new other := by
  constructor
  · intro live
    induction live with
    | refl =>
      rw [edit.frame.root_eq]
      exact .inl ⟨.refl, edit.root_kept well dirLive dirChain⟩
    | @tail parent child _ step ih =>
      obtain ⟨slot, entry, directory, rfl⟩ := step
      rcases ih with ⟨parentLive, parentKept⟩ | added
      · by_cases here : parent = dir
        · subst here
          rcases (edit.entryIn_dir dirChain slot).mp entry with ⟨inside, notOld⟩ | added
          · exact .inl ⟨.tail parentLive ⟨slot, inside, directory, rfl⟩,
              edit.child_kept well dirLive dirChain ⟨parent, parentLive, inside⟩ notOld⟩
          · exact .inr ⟨slot, added.symm, directory, rfl⟩
        · have inside := (edit.entryIn_other well dirLive dirChain parentLive here parentKept slot).mp entry
          exact .inl ⟨.tail parentLive ⟨slot, inside, directory, rfl⟩,
            edit.child_kept well dirLive dirChain ⟨parent, parentLive, inside⟩
              (edit.old_only_dir well dirLive dirChain parentLive here inside)⟩
      · exact absurd entry (edit.entryIn_new added slot)
  · have stays (other : Nat) (live : LiveDirectory before other) (kept : ¬ Names old other) :
        LiveDirectory after other := by
      induction live with
      | refl =>
        rw [← edit.frame.root_eq]
        exact .refl
      | @tail parent child parentLive step ih =>
        obtain ⟨slot, entry, directory, rfl⟩ := step
        have parentKept : ¬ Names old parent := fun removed => edit.entryIn_removed removed slot entry
        refine .tail (ih parentKept) ⟨slot, ?_, directory, rfl⟩
        by_cases here : parent = dir
        · subst here
          refine (edit.entryIn_dir dirChain slot).mpr (.inl ⟨entry, ?_⟩)
          exact fun same => kept ⟨slot, same.symm, directory, rfl⟩
        · exact (edit.entryIn_other well dirLive dirChain parentLive here parentKept slot).mpr entry
    rintro (⟨live, kept⟩ | ⟨slot, added, directory, rfl⟩)
    · exact stays other live kept
    · refine .tail (stays dir dirLive (edit.dir_kept well dirLive dirChain)) ⟨slot, ?_, directory, rfl⟩
      exact (edit.entryIn_dir dirChain slot).mpr (.inr added.symm)

/-- The live entries are the old ones with the new entry in place of the old one. -/
theorem liveEntry_iff (slot : Slot) :
    LiveEntry after slot ↔ (LiveEntry before slot ∧ some slot ≠ old) ∨ some slot = new := by
  constructor
  · rintro ⟨other, live, entry⟩
    rcases (edit.liveDirectory_iff well dirLive dirChain other).mp live with ⟨wasLive, kept⟩ | added
    · by_cases here : other = dir
      · subst here
        exact ((edit.entryIn_dir dirChain slot).mp entry).imp_left fun inside => ⟨⟨other, wasLive, inside.1⟩, inside.2⟩
      · have inside := (edit.entryIn_other well dirLive dirChain wasLive here kept slot).mp entry
        exact .inl ⟨⟨other, wasLive, inside⟩, edit.old_only_dir well dirLive dirChain wasLive here inside⟩
    · exact absurd entry (edit.entryIn_new added slot)
  · have dirAfter := (edit.liveDirectory_iff well dirLive dirChain dir).mpr
      (.inl ⟨dirLive, edit.dir_kept well dirLive dirChain⟩)
    rintro (⟨⟨other, live, entry⟩, notOld⟩ | added)
    · have kept : ¬ Names old other := fun removed => edit.entryIn_removed removed slot entry
      refine ⟨other, (edit.liveDirectory_iff well dirLive dirChain other).mpr (.inl ⟨live, kept⟩), ?_⟩
      by_cases here : other = dir
      · subst here
        exact (edit.entryIn_dir dirChain slot).mpr (.inl ⟨entry, notOld⟩)
      · exact (edit.entryIn_other well dirLive dirChain live here kept slot).mpr entry
    · exact ⟨dir, dirAfter, (edit.entryIn_dir dirChain slot).mpr (.inr added)⟩

/-- A chain of the edited volume belongs to the new entry, to the edited directory or to an owner that stays. -/
theorem holds_after {owner : Owner} (holds : Owner.Holds after owner others) :
    (∃ slot, new = some slot ∧ owner = .entry slot ∧ others = newClusters) ∨
      ∃ kept, Owner.Holds before owner kept ∧ (∀ slot, old = some slot → owner ≠ .entry slot) ∧
        ((kept = clusters ∧ others = clusters ++ fresh) ∨
          (owner.firstCluster before ≠ dir ∧ others = kept)) := by
  have stays (kept : List Nat) (wasHeld : Owner.Holds before owner kept)
      (notOld : ∀ slot, old = some slot → owner ≠ .entry slot)
      (chain : FatBuffer.FileChain after.fat (owner.firstCluster before) others) :
      (kept = clusters ∧ others = clusters ++ fresh) ∨ (owner.firstCluster before ≠ dir ∧ others = kept) := by
    by_cases here : owner.firstCluster before = dir
    · have keptChain := wasHeld.2
      rw [here] at chain keptChain
      exact .inl ⟨keptChain.unique dirChain, chain.unique edit.chain⟩
    · exact .inr ⟨here, chain.unique (edit.chain_kept well dirLive dirChain wasHeld notOld here).1⟩
  cases owner with
  | root =>
    obtain ⟨kept, chain, _⟩ := well.directories before.root.getCluster .refl
    have newChain : FatBuffer.FileChain after.fat before.root.getCluster others := by
      rw [← edit.frame.root_eq]
      exact holds.2
    have notOld (slot : Slot) (_ : old = some slot) : Owner.root ≠ .entry slot := Owner.noConfusion
    exact .inr ⟨kept, ⟨trivial, chain⟩, notOld, stays kept ⟨trivial, chain⟩ notOld newChain⟩
  | entry slot =>
    rcases (edit.liveEntry_iff well dirLive dirChain slot).mp holds.1 with ⟨live, notOld⟩ | added
    · obtain ⟨kept, chain⟩ := well.entry_chain live holds.2.ne_zero
      have away (inner : Slot) (same : old = some inner) : Owner.entry slot ≠ .entry inner := by
        intro equal
        injection equal with equal
        exact notOld (by rw [equal, same])
      exact .inr ⟨kept, ⟨live, chain⟩, away, stays kept ⟨live, chain⟩ away holds.2⟩
    · have owned := edit.newOwned
      rw [← added] at owned
      have chain := owned.resolve_left fun none => holds.2.ne_zero none.1
      exact .inl ⟨slot, added.symm, rfl, holds.2.unique chain⟩

/-- The owner of the edited directory holds the longer chain. -/
theorem dir_holds : ∃ owner, Owner.Holds after owner (clusters ++ fresh) := by
  have live := (edit.liveDirectory_iff well dirLive dirChain dir).mpr
    (.inl ⟨dirLive, edit.dir_kept well dirLive dirChain⟩)
  obtain ⟨owner, ownerLive, first, _⟩ := live.owner
  refine ⟨owner, ownerLive, ?_⟩
  rw [first]
  exact edit.chain

/-- An owner that stays holds the same chain. -/
theorem holds_kept {owner : Owner} (holds : Owner.Holds before owner others)
    (notOld : ∀ slot, old = some slot → owner ≠ .entry slot) (notDir : owner.firstCluster before ≠ dir) :
    Owner.Holds after owner others := by
  have chain := (edit.chain_kept well dirLive dirChain holds notOld notDir).1
  cases owner with
  | root =>
    refine ⟨trivial, ?_⟩
    rw [Owner.firstCluster, edit.frame.root_eq]
    exact chain
  | entry slot =>
    refine ⟨(edit.liveEntry_iff well dirLive dirChain slot).mpr (.inl ⟨holds.1, ?_⟩), chain⟩
    intro same
    exact notOld slot same.symm rfl

/-- The clusters of the new entry belong to no owner that stays. -/
theorem new_away {owner : Owner} {kept : List Nat} (holds : Owner.Holds before owner kept)
    (notOld : ∀ slot, old = some slot → owner ≠ .entry slot) (member : cluster ∈ newClusters) : cluster ∉ kept := by
  intro inside
  rcases edit.taken cluster member with inOld | free
  · obtain ⟨slot, same, oldHolds⟩ := edit.old_holds dirLive dirChain inOld
    exact notOld slot same (well.separate _ _ _ _ holds oldHolds cluster inside inOld)
  · exact holds.2.used cluster inside free

/-- The chains stay separate. -/
theorem separate {first second : Owner} {firstClusters secondClusters : List Nat}
    (holds : Owner.Holds after first firstClusters) (otherHolds : Owner.Holds after second secondClusters)
    (member : cluster ∈ firstClusters) (shared : cluster ∈ secondClusters) : first = second := by
  -- a cluster of an owner that stays was in its old chain, or is one of the fresh clusters of the directory
  have origin {kept others : List Nat} {owner : Owner}
      (form : (kept = clusters ∧ others = clusters ++ fresh) ∨
        (owner.firstCluster before ≠ dir ∧ others = kept)) (inside : cluster ∈ others) :
      cluster ∈ kept ∨ (cluster ∈ fresh ∧ kept = clusters) := by
    rcases form with ⟨rfl, rfl⟩ | ⟨_, rfl⟩
    · exact (List.mem_append.mp inside).imp_right fun isFresh => ⟨isFresh, rfl⟩
    · exact .inl inside
  have fromNew {owner : Owner} {kept others : List Nat} (inNew : cluster ∈ newClusters)
      (wasHeld : Owner.Holds before owner kept) (notOld : ∀ slot, old = some slot → owner ≠ .entry slot)
      (form : (kept = clusters ∧ others = clusters ++ fresh) ∨
        (owner.firstCluster before ≠ dir ∧ others = kept)) (inside : cluster ∈ others) : False := by
    rcases origin form inside with old | ⟨isFresh, _⟩
    · exact edit.new_away well dirLive dirChain wasHeld notOld inNew old
    · exact edit.apart cluster inNew isFresh
  rcases edit.holds_after well dirLive dirChain holds with ⟨slot, added, rfl, rfl⟩ | ⟨kept, wasHeld, notOld, form⟩ <;>
    rcases edit.holds_after well dirLive dirChain otherHolds with
      ⟨other, otherAdded, rfl, rfl⟩ | ⟨others, otherHeld, otherNotOld, otherForm⟩
  · rw [added, Option.some.injEq] at otherAdded
    rw [otherAdded]
  · exact (fromNew member otherHeld otherNotOld otherForm shared).elim
  · exact (fromNew shared wasHeld notOld form member).elim
  · rcases origin form member with inKept | ⟨isFresh, rfl⟩ <;>
      rcases origin otherForm shared with inOthers | ⟨otherFresh, rfl⟩
    · exact well.separate _ _ _ _ wasHeld otherHeld cluster inKept inOthers
    · exact absurd (edit.unused cluster otherFresh) (wasHeld.2.used cluster inKept)
    · exact absurd (edit.unused cluster isFresh) (otherHeld.2.used cluster inOthers)
    · exact well.separate _ _ _ _ wasHeld otherHeld dir dirChain.first_mem dirChain.first_mem

/-- Every directory keeps a chain with clean slots. -/
theorem directories (live : LiveDirectory after other) :
    ∃ others, FatBuffer.FileChain after.fat other others ∧ EndsClean (after.dirSlots others) ∧
      ∀ slot ∈ liveSlots (after.dirSlots others), isDotName slot.1.name = true → slot.1.isDirectory = true := by
  rcases (edit.liveDirectory_iff well dirLive dirChain other).mp live with ⟨wasLive, kept⟩ | ⟨slot, added, directory, rfl⟩
  · obtain ⟨others, chain, clean, dots⟩ := well.directories other wasLive
    by_cases here : other = dir
    · subst here
      rw [chain.unique dirChain] at dots
      refine ⟨_, edit.chain, edit.clean, ?_⟩
      intro slot member dotted
      rcases (edit.live slot).mp member with ⟨listed, _⟩ | added
      · exact dots slot listed dotted
      · rw [(edit.newEntry slot added.symm).named] at dotted
        contradiction
    · obtain ⟨newChain, same⟩ := edit.directory_kept well dirLive dirChain wasLive chain here kept
      rw [← same] at clean dots
      exact ⟨others, newChain, clean, dots⟩
  · obtain ⟨nonempty, clean, dots⟩ := (edit.newEntry slot added).directory directory
    have owned := edit.newOwned
    rw [added] at owned
    exact ⟨newClusters, owned.resolve_left fun none => nonempty none.2, clean, fun inner member _ => (dots inner member).2⟩

/-- A file that stays keeps its chain and its bytes. -/
theorem file_kept (live : LiveEntry before slot) (notOld : some slot ≠ old) (file : slot.1.isRegularFile = true)
    (owned : Owned before slot.1 others) :
    Owned after slot.1 others ∧ after.chainBytes others = before.chainBytes others := by
  rcases owned with ⟨none, rfl⟩ | chain
  · exact ⟨.inl ⟨none, rfl⟩, rfl⟩
  · have away (inner : Slot) (same : old = some inner) : Owner.entry slot ≠ .entry inner := by
      intro equal
      injection equal with equal
      exact notOld (by rw [equal, same])
    have notDir : slot.1.getCluster ≠ dir := by
      rintro rfl
      obtain ⟨owner, ownerLive, first, directory⟩ := dirLive.owner
      have same := well.separate owner (.entry slot) others others ⟨ownerLive, first ▸ chain⟩ ⟨live, chain⟩ _
        chain.first_mem chain.first_mem
      rw [DirectoryEntry.isRegularFile, directory slot same] at file
      simp at file
    have holds : Owner.Holds before (.entry slot) others := ⟨live, chain⟩
    have kept := edit.chain_kept well dirLive dirChain holds away notDir
    exact ⟨.inr kept.1, kept.2.1⟩

/-- An edit keeps the volume well formed. -/
theorem wellFormed : WellFormed reserved after where
  geometry := edit.frame.geometry well.geometry
  directories other live := edit.directories well dirLive dirChain live
  files := by
    intro slot live file
    rcases (edit.liveEntry_iff well dirLive dirChain slot).mp live with ⟨wasLive, notOld⟩ | added
    · obtain ⟨others, owned, length, empty⟩ := well.files slot wasLive file
      refine ⟨others, (edit.file_kept well dirLive dirChain wasLive notOld file owned).1, ?_, empty⟩
      rw [length, edit.frame.clustersForSize_eq]
    · have owned := edit.newOwned
      rw [← added] at owned
      have length := (edit.newEntry slot added.symm).file file
      exact ⟨newClusters, owned, length, owned.size_iff (edit.frame.geometry well.geometry) length⟩
  separate first second firstClusters secondClusters holds otherHolds cluster member shared :=
    edit.separate well dirLive dirChain holds otherHolds member shared
  covered := by
    intro cluster low high
    by_cases inDir : cluster ∈ clusters ++ fresh
    · obtain ⟨owner, holds⟩ := edit.dir_holds well dirLive dirChain
      exact .inr (.inl ⟨owner, _, holds, inDir⟩)
    · rw [List.mem_append, not_or] at inDir
      by_cases inNew : cluster ∈ newClusters
      · have owned := edit.newOwned
        cases added : new with
        | none =>
          rw [added] at owned
          rw [show newClusters = [] from owned] at inNew
          simp at inNew
        | some slot =>
          rw [added] at owned
          have live := (edit.liveEntry_iff well dirLive dirChain slot).mpr (.inr added.symm)
          have chain := owned.resolve_left fun none => List.ne_nil_of_mem inNew none.2
          exact .inr (.inl ⟨.entry slot, newClusters, ⟨live, chain⟩, inNew⟩)
      · by_cases released : cluster ∈ oldClusters ∨ before.fat.word cluster = 0
        · exact .inl (edit.freed cluster released inDir.2 inNew)
        · have same : after.fat.word cluster = before.fat.word cluster :=
            edit.frame.word cluster (by simp only [inDir.1, false_or]; exact released)
          rw [not_or] at released
          rw [same]
          rcases well.covered cluster low (edit.frame.size ▸ high) with free | ⟨owner, others, holds, member⟩ | mark
          · exact absurd free released.2
          · refine .inr (.inl ⟨owner, others, edit.holds_kept well dirLive dirChain holds ?_ ?_, member⟩)
            · rintro slot isOld rfl
              have owned := edit.oldOwned
              rw [isOld] at owned
              have chain := owned.resolve_left fun none => holds.2.ne_zero none.1
              rw [chain.unique holds.2] at released
              exact released.1 member
            · intro here
              have chain := holds.2
              rw [here] at chain
              rw [chain.unique dirChain] at member
              exact inDir.1 member
          · exact .inr (.inr mark)
  synced := edit.synced well.synced

end Edit

end Edit

end FATFileSystem

end BubbleOs.Fat
