import BubbleOs.Proof.Fat.Run

namespace BubbleOs.Fat

open Attempt Fs Text
open FatBuffer (FileChain)

namespace FATFileSystem

/-- The dot directories lead from a live directory to itself and to its parent. -/
def DotsLead (fs : Volume) : Prop :=
  ∀ dir clusters, LiveDirectory fs dir → FatBuffer.FileChain fs.fat dir clusters →
    ∀ slot ∈ liveSlots (fs.dirSlots clusters),
      (slot.1.name = dotName false → fs.directoryCluster slot.1 = dir) ∧
        (slot.1.name = dotName true → LiveDirectory fs (fs.directoryCluster slot.1) ∧
          Child fs (fs.directoryCluster slot.1) dir)

/-- The fresh volume has no dot directories. -/
theorem dotsLead_freshVolume : DotsLead freshVolume := by
  intro dir clusters live chain slot listed
  rw [liveDirectory_freshVolume live] at chain
  rw [chain.unique fileChain_freshVolume, liveSlots_ends ends_freshVolume] at listed
  exact absurd listed List.not_mem_nil

section Dots

variable {reserved : Nat → UInt32 → Prop} {before after : Volume} {dir : Nat} {clusters fresh : List Nat}
  {old new : Option Slot} {oldClusters newClusters : List Nat} (well : WellFormed reserved before)
  (dirLive : LiveDirectory before dir) (dirChain : FileChain before.fat dir clusters)
  (edit : Edit before after dir clusters fresh old new oldClusters newClusters)

include well dirLive dirChain edit

/-- A directory that stays keeps its parent. -/
theorem Edit.parent_kept {parent child : Nat} (live : LiveDirectory before parent) (step : Child before parent child)
    (kept : ¬ Names old child) : LiveDirectory after parent ∧ Child after parent child := by
  obtain ⟨slot, entry, directory, rfl⟩ := step
  have parentKept : ¬ Names old parent := fun removed => edit.entryIn_removed removed slot entry
  refine ⟨(edit.liveDirectory_iff well dirLive dirChain parent).mpr (.inl ⟨live, parentKept⟩),
    slot, ?_, directory, rfl⟩
  by_cases here : parent = dir
  · subst here
    refine (edit.entryIn_dir dirChain slot).mpr (.inl ⟨entry, ?_⟩)
    exact fun same => kept ⟨slot, same.symm, directory, rfl⟩
  · exact (edit.entryIn_other well dirLive dirChain live here parentKept slot).mpr entry

/-- An edit keeps the dot directories when those of a new directory lead to itself and to its parent. -/
theorem Edit.dotsLead (dots : DotsLead before)
    (newDots : ∀ slot, new = some slot → slot.1.isDirectory = true → OwnDots after slot.1.getCluster dir) :
    DotsLead after := by
  intro other others live chain slot listed
  have sameRoot := edit.frame.directoryCluster_eq slot.1
  have nonzero {cluster : Nat} {links : List Nat} {fat : FatBuffer}
      (linked : FileChain fat cluster links) : cluster ≠ 0 := by
    have low := linked.low_first
    omega
  rcases (edit.liveDirectory_iff well dirLive dirChain other).mp live with ⟨wasLive, kept⟩ | added
  · obtain ⟨oldOthers, oldChain, _⟩ := well.directories other wasLive
    have survives (wasListed : slot ∈ liveSlots (before.dirSlots oldOthers)) :
        (slot.1.name = dotName false → after.directoryCluster slot.1 = other) ∧
          (slot.1.name = dotName true → LiveDirectory after (after.directoryCluster slot.1) ∧
            Child after (after.directoryCluster slot.1) other) := by
      rw [sameRoot]
      obtain ⟨self, parent⟩ := dots other oldOthers wasLive oldChain slot wasListed
      refine ⟨self, fun named => ?_⟩
      obtain ⟨parentLive, step⟩ := parent named
      exact edit.parent_kept well dirLive dirChain parentLive step kept
    by_cases here : other = dir
    · subst here
      rw [chain.unique edit.chain] at listed
      rcases (edit.live slot).mp listed with ⟨wasListed, _⟩ | isNew
      · rw [dirChain.unique oldChain] at wasListed
        exact survives wasListed
      · have named := (edit.newEntry slot isNew.symm).named
        rw [isDotName, Bool.or_eq_false_iff, beq_eq_false_iff_ne, beq_eq_false_iff_ne] at named
        exact ⟨fun same => absurd same named.1, fun same => absurd same named.2⟩
    · obtain ⟨newChain, sameSlots⟩ := edit.directory_kept well dirLive dirChain wasLive oldChain here kept
      rw [chain.unique newChain, sameSlots] at listed
      exact survives listed
  · obtain ⟨newSlot, same, directory, rfl⟩ := added
    have step : Child after dir newSlot.1.getCluster :=
      ⟨newSlot, (edit.entryIn_dir dirChain newSlot).mpr (.inr same.symm), directory, rfl⟩
    have stays := (edit.liveDirectory_iff well dirLive dirChain dir).mpr
      (.inl ⟨dirLive, edit.dir_kept well dirLive dirChain⟩)
    have distinct : dotName false ≠ dotName true := by decide
    rcases newDots newSlot same directory others chain slot listed with ⟨named, first⟩ | ⟨named, first⟩
    · refine ⟨fun _ => ?_, fun other => absurd (named.symm.trans other) distinct⟩
      rw [directoryCluster, first, if_neg (nonzero chain)]
    · refine ⟨fun other => absurd (other.symm.trans named) distinct, fun _ => ?_⟩
      rw [directoryCluster, first, if_neg (nonzero dirChain)]
      exact ⟨stays, step⟩

end Dots

section Listing

variable [Unicode] {reserved : Nat → UInt32 → Prop} {fs : Volume} {clusters : List Nat} {slot : Slot}

/-- The listing of a directory parses its slots. -/
theorem listDirectory_chain (geometry : Geometry fs) {dir : DirectoryEntry}
    (chain : FileChain fs.fat (fs.directoryCluster dir) clusters) :
    listDirectory dir fs = (.value
      ((parseDirectoryEntries (fs.dirSlots clusters)).filter
          fun located => !located.entry.isDirectory && located.entry.isRegularFile,
        (parseDirectoryEntries (fs.dirSlots clusters)).filter fun located => located.entry.isDirectory), fs) := by
  rw [listDirectory, get_bind, bind_value (orNone_value (loadDirectorySlots_chain geometry chain))]
  rfl

omit [Unicode] in
/-- Every subdirectory of a live directory is live, the dot directories included. -/
theorem WellFormed.subdirectory_live (well : WellFormed reserved fs) (dots : DotsLead fs) {dir : Nat}
    (live : LiveDirectory fs dir) (chain : FileChain fs.fat dir clusters)
    (listed : slot ∈ liveSlots (fs.dirSlots clusters)) (directory : slot.1.isDirectory = true) :
    LiveDirectory fs (fs.directoryCluster slot.1) := by
  obtain ⟨self, parent⟩ := dots dir clusters live chain slot listed
  by_cases isSelf : slot.1.name = dotName false
  · rw [self isSelf]
    exact live
  · by_cases isParent : slot.1.name = dotName true
    · exact (parent isParent).1
    · have named : isDotName slot.1.name = false := by
        rw [isDotName, Bool.or_eq_false_iff, beq_eq_false_iff_ne, beq_eq_false_iff_ne]
        exact ⟨isSelf, isParent⟩
      have entry : EntryIn fs dir slot := ⟨clusters, chain, listed, named⟩
      obtain ⟨others, otherChain⟩ := well.directory_chain ⟨dir, live, entry⟩ directory
      rw [directoryCluster, if_neg otherChain.ne_zero]
      exact .tail live ⟨slot, entry, directory, rfl⟩

end Listing

end FATFileSystem

namespace FATDirectory

open FATFileSystem

variable [Unicode] {reserved : Nat → UInt32 → Prop} {fs : Volume} {dir : FATDirectory} {clusters : List Nat}

/-- The handle names a live directory. -/
def Live (fs : Volume) (dir : FATDirectory) : Prop := LiveDirectory fs (fs.directoryCluster dir.entry)

/-- The handles of the subdirectories in listing order. -/
def subdirectories (slots : List Slot) : List FATDirectory :=
  ((parseDirectoryEntries slots).filter fun located => located.entry.isDirectory).map
    fun located => ⟨located.entry, located.name⟩

/-- The handles of the files in listing order. -/
def files (slots : List Slot) : List FATFile :=
  ((parseDirectoryEntries slots).filter fun located => !located.entry.isDirectory && located.entry.isRegularFile).map
    fun located => ⟨located.entry, located.name, located.location⟩

section Geometry

variable (geometry : Geometry fs) (chain : FileChain fs.fat (fs.directoryCluster dir.entry) clusters)

include geometry chain

theorem listDir_chain :
    dir.listDir fs = (.value (subdirectories (fs.dirSlots clusters), files (fs.dirSlots clusters)), fs) := by
  rw [listDir, bind_value (listDirectory_chain geometry chain)]
  rfl

/-- A lookup searches the subdirectories. -/
theorem findDirectory_chain (name : Component) :
    dir.findDirectory name fs = ofOption ((subdirectories (fs.dirSlots clusters)).find?
      fun child => eqIgnoreAsciiCase child.name name) fs := by
  rw [findDirectory, bind_value (listDir_chain geometry chain)]

theorem findFile_chain (name : Component) :
    dir.findFile name fs = ofOption ((files (fs.dirSlots clusters)).find?
      fun file => eqIgnoreAsciiCase file.name name) fs := by
  rw [findFile, bind_value (listDir_chain geometry chain)]

end Geometry

section Live

variable (well : WellFormed reserved fs) (dots : DotsLead fs)

include well dots

variable {dir : FATDirectory}

/-- A directory that is found is live, and the lookup changes nothing. -/
theorem findDirectory_live (live : dir.Live fs) (name : Component) :
    dir.findDirectory name fs = (.missing, fs) ∨
      ∃ child, dir.findDirectory name fs = (.value child, fs) ∧ child.Live fs := by
  have here : LiveDirectory fs (fs.directoryCluster dir.entry) := live
  obtain ⟨clusters, chain, _⟩ := well.directories _ here
  rw [findDirectory_chain well.geometry chain]
  cases found : (subdirectories (fs.dirSlots clusters)).find? fun child => eqIgnoreAsciiCase child.name name with
  | none => exact .inl rfl
  | some child =>
    refine .inr ⟨child, rfl, ?_⟩
    obtain ⟨located, member, rfl⟩ := List.mem_map.mp (List.mem_of_find?_eq_some found)
    obtain ⟨parsed, directory⟩ := List.mem_filter.mp member
    have listed := mem_liveSlots_of_parsed parsed
    have child := well.subdirectory_live dots here chain listed directory
    exact child

theorem findDirectoryComponents_live (components : List Component) (live : dir.Live fs) :
    dir.findDirectoryComponents components fs = (.missing, fs) ∨
      ∃ child, dir.findDirectoryComponents components fs = (.value child, fs) ∧ child.Live fs := by
  induction components generalizing dir with
  | nil => exact .inl rfl
  | cons next rest ih =>
    rw [findDirectoryComponents]
    rcases findDirectory_live well dots live next with missing | ⟨child, found, childLive⟩
    · exact .inl (bind_missing missing _)
    · rw [bind_value found]
      cases rest with
      | nil => exact .inr ⟨child, rfl, childLive⟩
      | cons => exact ih childLive

omit dots in
/-- A file that is found is live, and the lookup changes nothing. -/
theorem findFile_live (live : dir.Live fs) (name : Component) :
    dir.findFile name fs = (.missing, fs) ∨
      ∃ file, dir.findFile name fs = (.value file, fs) ∧ LiveEntry fs (file.entry, file.location) := by
  have here : LiveDirectory fs (fs.directoryCluster dir.entry) := live
  obtain ⟨clusters, chain, _⟩ := well.directories _ here
  rw [findFile_chain well.geometry chain]
  cases found : (files (fs.dirSlots clusters)).find? fun file => eqIgnoreAsciiCase file.name name with
  | none => exact .inl rfl
  | some file =>
    refine .inr ⟨file, rfl, ?_⟩
    obtain ⟨located, member, rfl⟩ := List.mem_map.mp (List.mem_of_find?_eq_some found)
    obtain ⟨parsed, kind⟩ := List.mem_filter.mp member
    rw [Bool.and_eq_true, Bool.not_eq_true'] at kind
    have listed := mem_liveSlots_of_parsed parsed
    have entry := well.file_live here chain listed kind.1
    exact entry

theorem findFileComponents_live (components : List Component) (live : dir.Live fs) :
    dir.findFileComponents components fs = (.missing, fs) ∨
      ∃ file, dir.findFileComponents components fs = (.value file, fs) ∧
        LiveEntry fs (file.entry, file.location) := by
  induction components generalizing dir with
  | nil => exact .inl rfl
  | cons next rest ih =>
    cases rest with
    | nil => exact findFile_live well live next
    | cons second later =>
      rw [findFileComponents, if_neg (by simp)]
      rcases findDirectory_live well dots live next with missing | ⟨child, found, childLive⟩
      · exact .inl (bind_missing missing _)
      · rw [bind_value found]
        exact ih childLive

end Live

end FATDirectory

/-- The root handle stands for the first cluster of the root. -/
theorem FATFileSystem.directoryCluster_rootDir (fs : Volume) :
    fs.directoryCluster fs.rootDir.entry = fs.root.getCluster := by
  rw [directoryCluster]
  split <;> rfl

/-- The root handle is live. -/
theorem FATFileSystem.rootDir_live (fs : Volume) : fs.rootDir.Live fs := by
  have cluster := directoryCluster_rootDir fs
  rw [FATDirectory.Live, cluster]
  exact .refl

namespace FATFileSystem

section Shorten

variable {fs : Volume} {location : DirectoryEntryLocation} {entry : DirectoryEntry} {clusters : List Nat}

theorem saveTableAndEntry_value (geometry : Geometry fs) (valid : ValidLocation fs location) (fat : FatBuffer)
    (size : fat.entries = fs.fat.entries) (newEntry : DirectoryEntry) :
    ∃ after, saveTableAndEntry location newEntry (fs.withTable fat) = (.value (), after) := by
  have frame : Frame fs (fs.withFat fat) (fun _ => True) (fun _ => False) :=
    frame_withFat size (fun _ outside => absurd trivial outside) _
  have changed : Geometry (fs.withFat fat) := frame.geometry geometry
  have saved : persistFat (fs.withTable fat) = (.value (), (fs.withFat fat).persisted) := persistFat_apply changed
  have savedFrame := frame.trans (frame_persisted changed _ _)
  have entryAfter := persistDirectoryEntry_apply (savedFrame.geometry geometry) (valid.frame savedFrame) newEntry
  exact ⟨_, (bind_value saved _).trans entryAfter⟩

/-- A file with the archive attribute is shortened to every smaller size. -/
theorem truncateExistingFile_shorter (geometry : Geometry fs) (valid : ValidLocation fs location)
    (stored : fs.entryAt location = entry) (archive : entry.attributes = 32) (owned : Owned fs entry clusters)
    (exact : clusters.length = fs.clustersForSize entry.size.toNat) {newSize : Nat} (less : newSize < entry.size.toNat) :
    ∃ after, truncateExistingFile location newSize fs = (.value (), after) := by
  have bound := entry.size.toNat_lt
  have positive := geometry.clusterSize_pos
  have needed := geometry.clustersForSize_pos (show 0 < entry.size.toNat by omega)
  have chain : FatBuffer.FileChain fs.fat entry.getCluster clusters := by
    rcases owned with ⟨_, rfl⟩ | chain
    · rw [← exact, List.length_nil] at needed
      contradiction
    · exact chain
  rw [truncateExistingFile, bind_value (readDirectoryEntry_apply geometry valid), stored, if_neg (by simp [archive]),
    if_neg (by omega), if_neg (by omega), if_pos less]
  by_cases none : newSize = 0
  · rw [none, shrinkExistingFile_release chain]
    exact saveTableAndEntry_value geometry valid _ (FatBuffer.entries_release _ _) _
  · have more : 0 < newSize := Nat.pos_of_ne_zero none
    have count : fs.clustersForSize newSize = (newSize + fs.clusterSize - 1) / fs.clusterSize := if_neg none
    have fewer : fs.clustersForSize newSize ≤ clusters.length := by
      rw [exact]
      exact clustersForSize_mono (Nat.le_of_lt less)
    have kept := geometry.clustersForSize_pos more
    obtain ⟨front, last, rest, rfl, place⟩ := exists_split (show fs.clustersForSize newSize - 1 < clusters.length by omega)
    rw [shrinkExistingFile_cut chain positive more (by rw [place, count])]
    exact saveTableAndEntry_value geometry valid _ (FatBuffer.entries_cut _ _ _) _

end Shorten

section Listed

variable [Unicode] {fs : Volume}

end Listed

/-- This volume holds one empty file with the read-only attribute. -/
def readOnlyVolume : Volume := freshVolume.withSlot ⟨2, 0, 0⟩ (blankEntry (Bytes.fill 0x20 [0x41]) 0x21)


end FATFileSystem

open FATFileSystem

/-- This handle opens a located file. -/
def LocatedDirectoryEntry.file (located : LocatedDirectoryEntry) : FATFile := ⟨located.entry, located.name, located.location⟩

/-- This handle opens a located directory. -/
def LocatedDirectoryEntry.directory (located : LocatedDirectoryEntry) : FATDirectory := ⟨located.entry, located.name⟩

/-- The search of one kind of entry compares displayed names. -/
def shownAs (directory : Bool) (name : List Char) (located : LocatedDirectoryEntry) : Bool :=
  located.entry.isDirectory == directory && eqIgnoreAsciiCase located.name name

section First

variable {A : Type} {wide narrow : A → Bool} {list : List A} {first : A}

/-- The first element of a wide search is the first element of a narrow search that accepts it. -/
theorem find?_narrow (found : list.find? wide = some first) (accepted : narrow first = true)
    (wider : ∀ element ∈ list, narrow element = true → wide element = true) : list.find? narrow = some first := by
  rw [List.find?_eq_some_iff_append] at found ⊢
  obtain ⟨_, before, after, rfl, earlier⟩ := found
  refine ⟨accepted, before, after, rfl, ?_⟩
  intro element member
  have rejected := earlier element member
  rw [Bool.not_eq_true'] at rejected ⊢
  by_contra taken
  rw [Bool.not_eq_false] at taken
  rw [wider element (List.mem_append_left _ member) taken] at rejected
  contradiction

end First

section Parsed

variable [Unicode] {slots : List Slot} {located : LocatedDirectoryEntry} {name : List Char}

theorem isRegularFile_of_parsed (parsed : located ∈ parseDirectoryEntries slots) :
    located.entry.isRegularFile = !located.entry.isDirectory := by
  have normal := (mem_of_mem_liveSlots (mem_liveSlots_of_parsed parsed)).2
  rw [DirectoryEntry.isRegularFile, show located.entry.isNormalEntry = true from normal, Bool.true_and]

theorem filter_files (slots : List Slot) :
    (parseDirectoryEntries slots).filter (fun located => !located.entry.isDirectory && located.entry.isRegularFile) =
      (parseDirectoryEntries slots).filter fun located => located.entry.isDirectory == false := by
  refine List.filter_congr fun located parsed => ?_
  rw [isRegularFile_of_parsed parsed, Bool.and_self, beq_false]

theorem matchesName_of_shownAs {directory : Bool} (shown : shownAs directory name located = true) :
    matchesName located name = true := by
  rw [matchesName, (Bool.and_eq_true_iff.mp shown).2, Bool.true_or]

theorem shownAs_of_find? {directory : Bool}
    (search : (parseDirectoryEntries slots).find? (shownAs directory name) = some located) :
    located.entry.isDirectory = directory ∧ eqIgnoreAsciiCase located.name name = true := by
  have accepted := List.find?_some search
  rw [shownAs, Bool.and_eq_true_iff, beq_iff_eq] at accepted
  exact accepted

/-- A search of one kind finds an entry when some entry of that kind is shown under the name. -/
theorem find?_shownAs (name : List Char) (parsed : located ∈ parseDirectoryEntries slots)
    (shown : eqIgnoreAsciiCase located.name name = true) : ∃ found,
      (parseDirectoryEntries slots).find? (shownAs located.entry.isDirectory name) = some found ∧
        found.entry.isDirectory = located.entry.isDirectory := by
  have some : ((parseDirectoryEntries slots).find? (shownAs located.entry.isDirectory name)).isSome = true :=
    List.find?_isSome.mpr ⟨located, parsed, by rw [shownAs, beq_self_eq_true, shown, Bool.and_self]⟩
  obtain ⟨found, first⟩ := Option.isSome_iff_exists.mp some
  exact ⟨found, first, (shownAs_of_find? first).1⟩

end Parsed

section Lookup

variable [Unicode] {P : Type} [Port P]

/-- Both lookups find the same entry or none. -/
structure LookupsAgree (dir : FATDirectory) (name : List Char) (fs : FATFileSystem P) : Prop where
  found : ((∃ file, (dir.findFile name fs).1 = .value file) ∨ ∃ child, (dir.findDirectory name fs).1 = .value child) ↔
    ∃ located, (findEntryByName dir.entry name fs).1 = .value located
  file : ∀ file located, (dir.findFile name fs).1 = .value file → (findEntryByName dir.entry name fs).1 = .value located →
    file = located.file
  directory : ∀ child located, (dir.findDirectory name fs).1 = .value child →
    (findEntryByName dir.entry name fs).1 = .value located → child = located.directory

variable {dir : FATDirectory} {fs after : FATFileSystem P} {slots : List Slot} {last : Nat}

theorem listDir_loaded (loaded : loadDirectorySlots (fs.directoryCluster dir.entry) fs = (.value (slots, last), after)) :
    dir.listDir fs = (.value
      (((parseDirectoryEntries slots).filter fun located => located.entry.isDirectory).map LocatedDirectoryEntry.directory,
        ((parseDirectoryEntries slots).filter fun located => !located.entry.isDirectory && located.entry.isRegularFile).map
          LocatedDirectoryEntry.file), after) := by
  have listed : listDirectory dir.entry fs = (.value
      ((parseDirectoryEntries slots).filter fun located => !located.entry.isDirectory && located.entry.isRegularFile,
        (parseDirectoryEntries slots).filter fun located => located.entry.isDirectory), after) := by
    rw [listDirectory, get_bind, bind_value (orNone_value loaded)]
    rfl
  rw [FATDirectory.listDir, bind_value listed]
  rfl

omit [Unicode] in
theorem ofOption_outcome {S A : Type} {option : Option A} {state : S} {result : A} :
    ((ofOption option : Attempt S A) state).1 = .value result ↔ option = some result := by
  cases option with
  | none => exact ⟨nofun, nofun⟩
  | some value => exact ⟨fun same => congrArg some (Outcome.value.inj same), fun same => congrArg Outcome.value (Option.some.inj same)⟩

variable (loaded : loadDirectorySlots (fs.directoryCluster dir.entry) fs = (.value (slots, last), after)) (name : List Char)

include loaded

theorem findFile_loaded (file : FATFile) : (dir.findFile name fs).1 = .value file ↔
    ∃ located, (parseDirectoryEntries slots).find? (shownAs false name) = some located ∧ located.file = file := by
  rw [FATDirectory.findFile, bind_value (listDir_loaded loaded), ofOption_outcome, List.find?_map, Option.map_eq_some_iff,
    filter_files, List.find?_filter]
  simp only [Bool.decide_and, Bool.decide_eq_true]
  rfl

theorem findDirectory_loaded (child : FATDirectory) : (dir.findDirectory name fs).1 = .value child ↔
    ∃ located, (parseDirectoryEntries slots).find? (shownAs true name) = some located ∧ located.directory = child := by
  have kind (located : LocatedDirectoryEntry) : located.entry.isDirectory = (located.entry.isDirectory == true) :=
    (beq_true _).symm
  rw [FATDirectory.findDirectory, bind_value (listDir_loaded loaded), ofOption_outcome, List.find?_map,
    Option.map_eq_some_iff, funext kind, List.find?_filter]
  simp only [Bool.decide_and, Bool.decide_eq_true]
  rfl

theorem findEntryByName_loaded (located : LocatedDirectoryEntry) : (findEntryByName dir.entry name fs).1 = .value located ↔
    (parseDirectoryEntries slots).find? (fun candidate => matchesName candidate name) = some located := by
  rw [findEntryByName, get_bind, bind_value loaded, ofOption_outcome]
  rfl

end Lookup

section Agreement

variable [Unicode] {P : Type} [Port P] {dir : FATDirectory} {fs after : FATFileSystem P} {slots : List Slot} {last : Nat}

/-- The lookups agree exactly when the first match by name or alias matches by name and no match by name has another kind. -/
theorem lookups_agree_iff (loaded : loadDirectorySlots (fs.directoryCluster dir.entry) fs = (.value (slots, last), after))
    (name : List Char) :
    LookupsAgree dir name fs ↔ ∀ first, (findEntryByName dir.entry name fs).1 = .value first →
      eqIgnoreAsciiCase first.name name = true ∧ ∀ other ∈ parseDirectoryEntries slots,
        eqIgnoreAsciiCase other.name name = true → other.entry.isDirectory = first.entry.isDirectory := by
  constructor
  · intro agree first found
    -- A search of either kind that succeeds finds the entry of the first match.
    have same (directory : Bool) (located : LocatedDirectoryEntry)
        (search : (parseDirectoryEntries slots).find? (shownAs directory name) = some located) :
        located.entry = first.entry ∧ located.name = first.name := by
      cases directory with
      | false =>
          have handles := agree.file _ first ((findFile_loaded loaded name _).mpr ⟨located, search, rfl⟩) found
          exact ⟨congrArg FATFile.entry handles, congrArg FATFile.name handles⟩
      | true =>
          have handles := agree.directory _ first ((findDirectory_loaded loaded name _).mpr ⟨located, search, rfl⟩) found
          exact ⟨congrArg FATDirectory.entry handles, congrArg FATDirectory.name handles⟩
    obtain ⟨directory, located, search⟩ : ∃ directory located,
        (parseDirectoryEntries slots).find? (shownAs directory name) = some located := by
      rcases agree.found.mpr ⟨first, found⟩ with ⟨file, opened⟩ | ⟨child, opened⟩
      · obtain ⟨located, search, _⟩ := (findFile_loaded loaded name file).mp opened
        exact ⟨false, located, search⟩
      · obtain ⟨located, search, _⟩ := (findDirectory_loaded loaded name child).mp opened
        exact ⟨true, located, search⟩
    constructor
    · rw [← (same directory located search).2]
      exact (shownAs_of_find? search).2
    · intro other parsed shown
      obtain ⟨shownFirst, otherSearch, kind⟩ := find?_shownAs name parsed shown
      rw [← kind, (same _ _ otherSearch).1]
  · intro shown
    -- The first match is the result of the search of its kind, and the search of the other kind fails.
    have unique (directory : Bool) (located first : LocatedDirectoryEntry)
        (search : (parseDirectoryEntries slots).find? (shownAs directory name) = some located)
        (found : (findEntryByName dir.entry name fs).1 = .value first) : located = first := by
      obtain ⟨kind, named⟩ := shownAs_of_find? search
      obtain ⟨shownFirst, kinds⟩ := shown first found
      have sameKind := kinds located (List.mem_of_find?_eq_some search) named
      have accepted : shownAs directory name first = true := by
        rw [shownAs, ← sameKind, kind, beq_self_eq_true, shownFirst, Bool.and_self]
      have narrow := find?_narrow ((findEntryByName_loaded loaded name first).mp found) accepted
        fun _ _ => matchesName_of_shownAs
      exact Option.some.inj (search.symm.trans narrow)
    have matched (directory : Bool) (located : LocatedDirectoryEntry)
        (search : (parseDirectoryEntries slots).find? (shownAs directory name) = some located) :
        ∃ first, (findEntryByName dir.entry name fs).1 = .value first := by
      have some : ((parseDirectoryEntries slots).find? fun candidate => matchesName candidate name).isSome = true :=
        List.find?_isSome.mpr ⟨located, List.mem_of_find?_eq_some search, matchesName_of_shownAs (List.find?_some search)⟩
      obtain ⟨first, found⟩ := Option.isSome_iff_exists.mp some
      exact ⟨first, (findEntryByName_loaded loaded name first).mpr found⟩
    constructor
    · constructor
      · rintro (⟨file, opened⟩ | ⟨child, opened⟩)
        · obtain ⟨located, search, _⟩ := (findFile_loaded loaded name file).mp opened
          exact matched false located search
        · obtain ⟨located, search, _⟩ := (findDirectory_loaded loaded name child).mp opened
          exact matched true located search
      · rintro ⟨first, found⟩
        have parsed := List.mem_of_find?_eq_some ((findEntryByName_loaded loaded name first).mp found)
        obtain ⟨located, search, _⟩ := find?_shownAs name parsed (shown first found).1
        cases kind : first.entry.isDirectory with
        | false =>
            rw [kind] at search
            exact .inl ⟨_, (findFile_loaded loaded name _).mpr ⟨located, search, rfl⟩⟩
        | true =>
            rw [kind] at search
            exact .inr ⟨_, (findDirectory_loaded loaded name _).mpr ⟨located, search, rfl⟩⟩
    · intro file first opened found
      obtain ⟨located, search, rfl⟩ := (findFile_loaded loaded name file).mp opened
      rw [unique false located first search found]
    · intro child first opened found
      obtain ⟨located, search, rfl⟩ := (findDirectory_loaded loaded name child).mp opened
      rw [unique true located first search found]

end Agreement

/-- The lookups agree on the file of a volume with one file. -/
theorem lookups_agree_one_file :
    (∃ last after, loadDirectorySlots (oneFileVolume.directoryCluster oneFileVolume.root) oneFileVolume =
        (.value (oneFileVolume.dirSlots [2], last), after)) ∧
      @LookupsAgree Text.asciiTables _ _ ⟨oneFileVolume.root, []⟩ ['a'] oneFileVolume := by
  have geometry := wellFormed_oneFileVolume.1.geometry
  have root : oneFileVolume.directoryCluster oneFileVolume.root = 2 := by decide +kernel
  have chain : FatBuffer.FileChain oneFileVolume.fat (oneFileVolume.directoryCluster oneFileVolume.root) [2] := by
    rw [root]
    exact ⟨.last (by decide +kernel), by decide +kernel, by decide +kernel⟩
  have loaded := loadDirectorySlots_chain geometry chain
  refine ⟨⟨_, _, loaded⟩, ?_⟩
  have parsed : @parseDirectoryEntries Text.asciiTables (oneFileVolume.dirSlots [2]) =
      [⟨oneFile.entry, oneFile.location, ['a'], []⟩] := by decide +kernel
  refine (@lookups_agree_iff Text.asciiTables _ _ ⟨oneFileVolume.root, []⟩ _ _ _ _ loaded ['a']).mpr ?_
  intro first found
  rw [@findEntryByName_loaded Text.asciiTables _ _ ⟨oneFileVolume.root, []⟩ _ _ _ _ loaded, parsed] at found
  obtain rfl := List.mem_singleton.mp (List.mem_of_find?_eq_some found)
  refine ⟨by decide, ?_⟩
  rw [parsed]
  intro other member _
  rw [List.mem_singleton.mp member]

/-- This volume holds one file whose name needs an alias. -/
def aliasVolume : Volume := (@createFile _ _ Text.asciiTables freshVolume.root "long name".toList freshVolume).2

/-- This entry is the short slot of the long name. -/
def aliasEntry : DirectoryEntry := blankEntry (Bytes.fill 0x20 [0x4c, 0x4f, 0x4e, 0x47, 0x4e, 0x41, 0x7e, 0x31]) 0x20

/-- The alias of the long name is found by the lookup of the path functions only. -/
theorem lookups_disagree_alias :
    (@findEntryByName _ _ Text.asciiTables aliasVolume.root "longna~1".toList aliasVolume).1 =
        .value ⟨aliasEntry, ⟨2, 1, 32⟩, "long name".toList, [⟨2, 0, 0⟩]⟩ ∧
      (@FATDirectory.findFile _ _ Text.asciiTables ⟨aliasVolume.root, []⟩ "longna~1".toList aliasVolume).1 = .missing ∧
      (@FATDirectory.findDirectory _ _ Text.asciiTables ⟨aliasVolume.root, []⟩ "longna~1".toList aliasVolume).1 = .missing := by
  decide +kernel

end BubbleOs.Fat
