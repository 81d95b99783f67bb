import BubbleOs.Proof.Fat.Path
import BubbleOs.Proof.Fat.NameRun

namespace BubbleOs.Fat

open Attempt
open FatBuffer (FileChain)

section Unnamed

/-- Only the first slot of a complete run starts a name. -/
theorem countsDown_inner {checksum : UInt8} {records : List LongDirectoryEntry}
    (counts : countsDown checksum records = true) : ∀ lfn ∈ records, lfn.isLast = false := by
  induction records with
  | nil => exact fun _ absurd_ => absurd absurd_ List.not_mem_nil
  | cons first rest ih =>
    simp only [countsDown, Bool.and_eq_true, Bool.not_eq_true'] at counts
    exact List.forall_mem_cons.mpr ⟨counts.1.1.1, ih counts.2⟩

theorem NamedBy.inner {run : List Slot} {short : Slot} {name : List Char} (named : NamedBy run short name)
    {count : Nat} (some_ : 0 < count) :
    ∀ slot ∈ run.drop count, (LongDirectoryEntry.fromDirectoryEntry slot.1).isLast = false := by
  cases run with
  | nil => simp
  | cons first rest =>
    have complete := named.complete
    rw [lfnRecords, List.map_cons, isCompleteRun, Bool.and_eq_true] at complete
    intro slot member
    obtain ⟨fewer, rfl⟩ := Nat.exists_eq_add_of_lt some_
    rw [Nat.zero_add, List.drop_succ_cons] at member
    exact countsDown_inner complete.2 _ (List.mem_map_of_mem (List.mem_of_mem_drop member))

variable [Unicode]

/-- Long slots without a start are skipped. -/
theorem parseDirectoryEntries_inner {inner : List Slot} (long : ∀ slot ∈ inner, isLongSlot slot.1 = true)
    (later : ∀ slot ∈ inner, (LongDirectoryEntry.fromDirectoryEntry slot.1).isLast = false) (rest : List Slot) :
    parseDirectoryEntries (inner ++ rest) = parseDirectoryEntries rest := by
  induction inner with
  | nil => rfl
  | cons slot inner ih =>
    rw [List.cons_append, parseDirectoryEntries, parseFrom_long _ _ _ (long slot List.mem_cons_self), accept_idle,
      parseFrom_idle _ 0]
    · exact ih (fun other member => long other (List.mem_cons_of_mem _ member))
        fun other member => later other (List.mem_cons_of_mem _ member)
    · left
      rw [PendingLfn.start, later slot List.mem_cons_self]
      rfl

/-- An entry whose first long filename slots were deleted shows its short name. -/
theorem parse_unnamed {front run back gone : List Slot} {short : Slot} {name : List Char}
    (used : ∀ slot ∈ front, slot.1.isEndMarker = false) (named : NamedBy run short name)
    (normal : short.1.isNormalEntry = true) (deleted : ∀ slot ∈ gone, slot.1.isDeleted = true)
    (some_ : 0 < gone.length) :
    parseDirectoryEntries (front ++ (gone ++ run.drop gone.length ++ [short]) ++ back) =
      parseDirectoryEntries front ++ ⟨short.1, short.2, getFilenameFromFat short.1.name, []⟩ ::
        parseDirectoryEntries back := by
  have rest : parseDirectoryEntries (run.drop gone.length ++ short :: back) =
      ⟨short.1, short.2, getFilenameFromFat short.1.name, []⟩ :: parseDirectoryEntries back := by
    rw [parseDirectoryEntries_inner (fun slot member => named.long slot (List.mem_of_mem_drop member)) (named.inner some_),
      parseDirectoryEntries_short back normal]
  have fixed (pending : PendingLfn) : parseFrom pending (gone ++ (run.drop gone.length ++ short :: back)) =
      ⟨short.1, short.2, getFilenameFromFat short.1.name, []⟩ :: parseDirectoryEntries back := by
    cases gone with
    | nil => cases some_
    | cons slot more =>
      have here := deleted slot List.mem_cons_self
      rw [List.cons_append, parseFrom, isEndMarker_of_isDeleted here, here, if_neg Bool.false_ne_true, if_pos rfl,
        PendingLfn.clear, parseFrom_idle _ 0]
      exact (parseDirectoryEntries_deletedRun _ fun other member => deleted other (List.mem_cons_of_mem _ member)).trans rest
  have whole := parseFrom_append _ _ fixed front used PendingLfn.initial
  simp only [List.append_assoc, List.singleton_append]
  exact whole

end Unnamed

namespace FATFileSystem

section Listing

variable [Unicode] {fs : Volume} {dir : DirectoryEntry} {clusters : List Nat} {located : LocatedDirectoryEntry}

/-- The caller sees the name and the record of an entry. -/
def shown (located : LocatedDirectoryEntry) : List Char × DirectoryEntry := (located.name, located.entry)

/-- The listing shows the files and the directories. -/
def parted (parsed : List LocatedDirectoryEntry) : List (List Char × DirectoryEntry) × List (List Char × DirectoryEntry) :=
  ((parsed.filter fun located => !located.entry.isDirectory && located.entry.isRegularFile).map shown,
    (parsed.filter fun located => located.entry.isDirectory).map shown)

/-- This is what a caller sees of a directory. -/
def visible (fs : Volume) (dir : DirectoryEntry) :
    Option (List (List Char × DirectoryEntry) × List (List Char × DirectoryEntry)) :=
  match (listDirectory dir fs).1 with
  | .value (files, directories) => some (files.map shown, directories.map shown)
  | _ => none

theorem visible_chain (geometry : Geometry fs) (chain : FileChain fs.fat (fs.directoryCluster dir) clusters) :
    fs.visible dir = some (parted (parseDirectoryEntries (fs.dirSlots clusters))) := by
  rw [visible, listDirectory, get_bind, bind_value (orNone_value (loadDirectorySlots_chain geometry chain))]
  rfl

/-- Hidden changes are not seen. -/
theorem Hidden.visible_eq (geometry : Geometry fs) (chain : FileChain fs.fat (fs.directoryCluster dir) clusters)
    {after : Volume} {fresh : List Nat} (hidden : Hidden fs after (fs.directoryCluster dir) clusters fresh) :
    after.visible dir = fs.visible dir := by
  have place := hidden.frame.directoryCluster_eq dir
  rw [visible_chain geometry chain, visible_chain (hidden.frame.geometry geometry) (by rw [place]; exact hidden.chain),
    hidden.parsed]

omit [Unicode] in
/-- An entry that is seen is seen under its name. -/
theorem parted_eq_iff (front back : List LocatedDirectoryEntry) {old new : LocatedDirectoryEntry}
    (same : new.entry = old.entry) (seen : old.entry.isDirectory = true ∨ old.entry.isRegularFile = true) :
    parted (front ++ new :: back) = parted (front ++ old :: back) ↔ new.name = old.name := by
  simp only [parted, List.filter_append, List.filter_cons, same, List.map_append, Prod.mk.injEq,
    List.append_cancel_left_eq]
  cases directory : old.entry.isDirectory with
  | true => simp [shown, same]
  | false =>
    rw [directory] at seen
    simp [shown, same, seen.resolve_left Bool.false_ne_true]

section Geometry

variable (geometry : Geometry fs) (chain : FileChain fs.fat (fs.directoryCluster dir) clusters)
  (member : located ∈ parseDirectoryEntries (fs.dirSlots clusters))

include geometry chain member

/-- An entry that lost its first long filename slots is seen under its short name. -/
theorem visible_unnamed (seen : located.entry.isDirectory = true ∨ located.entry.isRegularFile = true) {done : Nat}
    (some_ : 0 < done) (inside : done ≤ located.lfnLocations.length) :
    (fs.withSlots (fs.marked (located.lfnLocations.take done))).visible dir = fs.visible dir ↔
      getFilenameFromFat located.entry.name = located.name := by
  obtain ⟨front, run, back, split, places, used, _, normal, parsed, naming⟩ := parse_split member
  have low := chain.low
  obtain ⟨_, valid⟩ := group_locations low chain.nodup split places
  generalize goneIs : fs.marked (located.lfnLocations.take done) = gone
  have size : gone.length = done := by
    rw [← goneIs, marked, List.length_map, List.length_take, Nat.min_eq_left inside]
  have goneValid : ∀ slot ∈ gone, ValidLocation fs slot.2 := by
    rw [← goneIs]
    intro slot inGone
    obtain ⟨location, taken, rfl⟩ := List.mem_map.mp inGone
    exact (valid location (List.mem_append_left _ (List.mem_of_mem_take taken))).1
  have deleted : ∀ slot ∈ gone, slot.1.isDeleted = true := by
    rw [← goneIs]
    intro slot inGone
    obtain ⟨location, _, rfl⟩ := List.mem_map.mp inGone
    exact DirectoryEntry.isDeleted_markDeleted _
  have placed : gone.map Prod.snd = (run.take gone.length).map Prod.snd := by
    rw [size, List.map_take, places, ← goneIs, marked, List.map_map]
    exact List.map_id _
  have parts : fs.dirSlots clusters = front ++ run.take gone.length ++
      (run.drop gone.length ++ [(located.entry, located.location)] ++ back) := by
    conv_lhs => rw [split, ← List.take_append_drop gone.length run]
    simp only [List.append_assoc]
  have slots : (fs.withSlots gone).dirSlots clusters =
      front ++ (gone ++ run.drop gone.length ++ [(located.entry, located.location)]) ++ back := by
    rw [dirSlots_withSlots geometry low chain.nodup parts gone placed]
    simp only [List.append_assoc]
  have named : NamedBy run (located.entry, located.location) located.name := by
    refine naming ?_
    rintro rfl
    rw [← places, List.map_nil, List.length_nil] at inside
    omega
  have frame := frame_withSlots geometry gone goneValid
  have stillChain : FileChain (fs.withSlots gone).fat ((fs.withSlots gone).directoryCluster dir) clusters := by
    rw [frame.directoryCluster_eq, fat_withSlots]
    exact chain
  rw [visible_chain geometry chain, visible_chain (frame.geometry geometry) stillChain, slots,
    parse_unnamed used named normal deleted (by omega), parsed, Option.some.injEq]
  exact parted_eq_iff _ _ rfl seen

/-- A deletion that fails is not seen unless it took the long name of an entry. -/
theorem deleteDirectoryEntry_visible_iff {oldClusters : List Nat} (owned : Owned fs located.entry oldClusters)
    (seen : located.entry.isDirectory = true ∨ located.entry.isRegularFile = true) (faults : Nat → Bool)
    (access : Nat) :
    ((deleteDirectoryEntry located (fs.faulty faults access)).1 = .missing →
        (deleteDirectoryEntry located (fs.faulty faults access)).2.standing.visible dir = fs.visible dir) ↔
      (located.lfnLocations ≠ [] → Clear faults access 3 →
        ¬ Clear faults (access + 3) (3 * (located.lfnLocations.length - 1) + 2) →
        located.name = getFilenameFromFat located.entry.name) := by
  obtain ⟨front, run, back, split, places, _⟩ := parse_split member
  have low := chain.low
  obtain ⟨gone, valid, _, _, outcome⟩ :=
    deleteDirectoryEntry_counted geometry low chain.nodup split places (counts_faulty faults) access
  rcases outcome with ⟨clear, marked⟩ | ⟨stopped, done, inside, clear, first, next, returned⟩
  · have frame := frame_withSlots geometry gone fun slot inGone => (valid slot inGone).1
    have stillOwned : Owned (fs.withSlots gone) located.entry oldClusters := by
      rw [Owned, fat_withSlots]
      exact owned
    obtain ⟨after, next, returned, _⟩ := releaseChain_owned (counts_faulty faults) (frame.geometry geometry) stillOwned _
    rw [on_faulty] at marked
    rw [marked, returned]
    refine iff_of_true (fun absurd_ => by cases absurd_) ?_
    intro some_ _ later
    have positive := List.length_pos_of_ne_nil some_
    exact absurd (clear.part (by omega) (by omega)) later
  · rw [on_faulty, on_faulty] at returned
    rw [returned, standing_faulty]
    cases done with
    | zero =>
      refine iff_of_true (fun _ => rfl) ?_
      intro some_ start
      exact absurd start (first (List.length_pos_of_ne_nil some_))
    | succ done =>
      rw [visible_unnamed geometry chain member seen (Nat.succ_pos done) inside]
      have some_ : located.lfnLocations ≠ [] := by
        intro none
        rw [none] at inside
        cases inside
      have later : ¬ Clear faults (access + 3) (3 * (located.lfnLocations.length - 1) + 2) := by
        intro rest
        refine stopped ?_
        rw [show 3 * located.lfnLocations.length + 2 = 3 + (3 * (located.lfnLocations.length - 1) + 2) by omega]
        exact (clear.part (Nat.le_refl _) (by omega)).append rest
      exact ⟨fun same _ _ _ => (same rfl).symm,
        fun same _ => (same some_ (clear.part (Nat.le_refl _) (by omega)) later).symm⟩

end Geometry

/-- The call deletes this entry after so many reads of directory clusters. -/
inductive DirectoryCall.Deletes (fs : Volume) (dir : DirectoryEntry) :
    DirectoryCall → LocatedDirectoryEntry → Nat → Prop where
  | file {name : List Char} {located : LocatedDirectoryEntry} {clusters : List Nat}
      (chain : FatBuffer.FileChain fs.fat (fs.directoryCluster dir) clusters)
      (found : findParsedEntry (parseDirectoryEntries (fs.dirSlots clusters)) name = some located)
      (regular : located.entry.isRegularFile = true) : Deletes fs dir (.unlinkFile name) located clusters.length
  | directory {name : List Char} {located : LocatedDirectoryEntry} {clusters others : List Nat}
      (chain : FatBuffer.FileChain fs.fat (fs.directoryCluster dir) clusters)
      (found : findParsedEntry (parseDirectoryEntries (fs.dirSlots clusters)) name = some located)
      (isDirectory : located.entry.isDirectory = true) (nonzero : located.entry.getCluster ≠ 0)
      (named : isDotName located.entry.name = false)
      (child : FatBuffer.FileChain fs.fat located.entry.getCluster others)
      (empty : ∀ inner ∈ parseDirectoryEntries (fs.dirSlots others), isDotName inner.entry.name = true) :
      Deletes fs dir (.removeDirectory name) located (clusters.length + others.length)

/-- The call took the long name of the entry and stopped before the entry was gone. -/
def DirectoryCall.Unnames (fs : Volume) (dir : DirectoryEntry) (action : DirectoryCall) (faults : Nat → Bool)
    (access : Nat) (located : LocatedDirectoryEntry) : Prop :=
  ∃ reads, action.Deletes fs dir located reads ∧ located.lfnLocations ≠ [] ∧ Clear faults access (reads + 3) ∧
    ¬ Clear faults (access + reads + 3) (3 * (located.lfnLocations.length - 1) + 2)

/-- A call that fails leaves the listing exactly when it does not take the long name of an entry that stays. -/
def DirectoryCall.KeepsListing (fs : Volume) (dir : DirectoryEntry) (action : DirectoryCall) (faults : Nat → Bool)
    (access : Nat) : Prop :=
  ((action.call dir (fs.faulty faults access)).1 = .missing →
      (action.call dir (fs.faulty faults access)).2.standing.visible dir = fs.visible dir) ↔
    ∀ located, action.Unnames fs dir faults access located → located.name = getFilenameFromFat located.entry.name

/-- A lookup reads every cluster of the directory. -/
theorem findEntryByName_faulty (geometry : Geometry fs)
    (chain : FileChain fs.fat (fs.directoryCluster dir) clusters) (name : List Char) (faults : Nat → Bool)
    (access : Nat) :
    (Clear faults access clusters.length ∧ findEntryByName dir name (fs.faulty faults access) =
        ofOption (findParsedEntry (parseDirectoryEntries (fs.dirSlots clusters)) name)
          (fs.faulty faults (access + clusters.length))) ∨
      (¬ Clear faults access clusters.length ∧
        ∃ next, findEntryByName dir name (fs.faulty faults access) = (.missing, fs.faulty faults next)) := by
  have place : (fs.faulty faults access).directoryCluster dir = fs.directoryCluster dir := rfl
  rw [findEntryByName, get_bind, place]
  rcases loadDirectorySlots_counted (counts_faulty faults) geometry chain access with
    ⟨clear, returned⟩ | ⟨stopped, next, returned⟩
  · exact .inl ⟨clear, bind_value returned _⟩
  · exact .inr ⟨stopped, next, bind_missing returned _⟩

/-- The check of a directory reads every cluster of it. -/
theorem directoryIsEmpty_faulty (geometry : Geometry fs) {entry : DirectoryEntry} (nonzero : entry.getCluster ≠ 0)
    {others : List Nat} (chain : FileChain fs.fat entry.getCluster others) (faults : Nat → Bool) (access : Nat) :
    (Clear faults access others.length ∧ directoryIsEmpty entry (fs.faulty faults access) =
        (.value ((parseDirectoryEntries (fs.dirSlots others)).all fun inner => isDotName inner.entry.name),
          fs.faulty faults (access + others.length))) ∨
      (¬ Clear faults access others.length ∧
        ∃ next, directoryIsEmpty entry (fs.faulty faults access) = (.missing, fs.faulty faults next)) := by
  have place : (fs.faulty faults access).directoryCluster entry = entry.getCluster := if_neg nonzero
  rw [directoryIsEmpty, get_bind, place]
  rcases loadDirectorySlots_counted (counts_faulty faults) geometry chain access with
    ⟨clear, returned⟩ | ⟨stopped, next, returned⟩
  · exact .inl ⟨clear, bind_value returned _⟩
  · exact .inr ⟨stopped, next, bind_missing returned _⟩

section Outcomes

variable {action : DirectoryCall} {faults : Nat → Bool} {access : Nat}

/-- A call that stops before a deletion is not seen. -/
theorem refused_visible_iff {next : Nat}
    (returned : action.call dir (fs.faulty faults access) = (.missing, fs.faulty faults next))
    (before : ∀ located reads, action.Deletes fs dir located reads → ¬ Clear faults access reads) :
    action.KeepsListing fs dir faults access := by
  rw [DirectoryCall.KeepsListing, returned]
  refine iff_of_true (fun _ => rfl) ?_
  rintro located ⟨reads, deletes, _, clear, _⟩
  exact absurd (clear.part (Nat.le_refl _) (by omega)) (before located reads deletes)

/-- A call that looks for a name is seen as what follows when the name is found. -/
theorem found_visible_iff (geometry : Geometry fs) (chain : FileChain fs.fat (fs.directoryCluster dir) clusters)
    {name : List Char} {next : LocatedDirectoryEntry → FsM FaultyDisk Unit}
    (call : action.call dir (fs.faulty faults access) = (findEntryByName dir name >>= next) (fs.faulty faults access))
    (target : ∀ located reads, action.Deletes fs dir located reads →
      findParsedEntry (parseDirectoryEntries (fs.dirSlots clusters)) name = some located ∧ clusters.length ≤ reads)
    (later : ∀ located, findParsedEntry (parseDirectoryEntries (fs.dirSlots clusters)) name = some located →
      Clear faults access clusters.length →
      action.call dir (fs.faulty faults access) = next located (fs.faulty faults (access + clusters.length)) →
      action.KeepsListing fs dir faults access) : action.KeepsListing fs dir faults access := by
  rcases findEntryByName_faulty geometry chain name faults access with ⟨clear, find⟩ | ⟨stopped, place, find⟩
  · cases found : findParsedEntry (parseDirectoryEntries (fs.dirSlots clusters)) name with
    | none =>
      rw [found] at find target
      refine refused_visible_iff (call.trans (bind_missing find _)) fun located reads deletes => ?_
      cases (target located reads deletes).1
    | some located =>
      rw [found] at find
      exact later located found clear (call.trans (bind_value find _))
  · refine refused_visible_iff (call.trans (bind_missing find _)) fun located reads deletes whole => ?_
    exact stopped (whole.part (Nat.le_refl _) (Nat.add_le_add_left (target located reads deletes).2 _))

/-- The name and the directory decide what a call deletes. -/
theorem DirectoryCall.Deletes.unique {other : LocatedDirectoryEntry} {reads count : Nat}
    (deletes : action.Deletes fs dir located reads) (others : action.Deletes fs dir other count) :
    other = located ∧ count = reads := by
  cases deletes with
  | file chain found =>
    cases others with
    | file otherChain otherFound =>
      obtain rfl := otherChain.unique chain
      exact ⟨Option.some.inj (otherFound.symm.trans found), rfl⟩
  | directory chain found _ _ _ child =>
    cases others with
    | directory otherChain otherFound _ _ _ otherChild =>
      obtain rfl := otherChain.unique chain
      obtain rfl := Option.some.inj (otherFound.symm.trans found)
      rw [otherChild.unique child]
      exact ⟨rfl, rfl⟩

variable {reserved : Nat → UInt32 → Prop} (well : WellFormed reserved fs)
  (live : LiveDirectory fs (fs.directoryCluster dir))

include well live

/-- A call that reaches a deletion is seen as the deletion is. -/
theorem deleted_visible_iff {reads : Nat} (deletes : action.Deletes fs dir located reads)
    (returned : action.call dir (fs.faulty faults access) =
      deleteDirectoryEntry located (fs.faulty faults (access + reads)))
    (clear : Clear faults access reads) : action.KeepsListing fs dir faults access := by
  obtain ⟨clusters, chain, member, seen, entry⟩ : ∃ clusters, FileChain fs.fat (fs.directoryCluster dir) clusters ∧
      located ∈ parseDirectoryEntries (fs.dirSlots clusters) ∧
      (located.entry.isDirectory = true ∨ located.entry.isRegularFile = true) ∧
      LiveEntry fs (located.entry, located.location) := by
    cases deletes with
    | file chain found regular =>
      have member := List.mem_of_find?_eq_some found
      exact ⟨_, chain, member, .inr regular,
        well.file_live live chain (mem_liveSlots_of_parsed member) (notDirectory_of_regular regular)⟩
    | directory chain found directory _ named =>
      have member := List.mem_of_find?_eq_some found
      exact ⟨_, chain, member, .inl directory, _, live, _, chain, mem_liveSlots_of_parsed member, named⟩
  obtain ⟨oldClusters, owned⟩ := well.entry_owned entry
  rw [DirectoryCall.KeepsListing, returned, deleteDirectoryEntry_visible_iff well.geometry chain member owned seen]
  constructor
  · rintro same other ⟨count, others, some_, start, stopped⟩
    obtain ⟨rfl, rfl⟩ := deletes.unique others
    exact same some_ (start.part (by omega) (by omega)) stopped
  · intro same some_ start stopped
    exact same located ⟨reads, deletes, some_, clear.append start, stopped⟩

end Outcomes

section Removals

variable {reserved : Nat → UInt32 → Prop} (well : WellFormed reserved fs)
  (live : LiveDirectory fs (fs.directoryCluster dir)) (name : List Char) (faults : Nat → Bool) (access : Nat)

include well live

theorem unlinkFile_visible_iff : DirectoryCall.KeepsListing fs dir (.unlinkFile name) faults access := by
  obtain ⟨clusters, chain, _⟩ := well.directories _ live
  -- the name and the directory determine what the call deletes
  have target (other : LocatedDirectoryEntry) (count : Nat) (deletes : DirectoryCall.Deletes fs dir (.unlinkFile name) other count) :
      findParsedEntry (parseDirectoryEntries (fs.dirSlots clusters)) name = some other ∧
        other.entry.isRegularFile = true ∧ count = clusters.length := by
    cases deletes with
    | file otherChain found regular =>
      obtain rfl := otherChain.unique chain
      exact ⟨found, regular, rfl⟩
  refine found_visible_iff well.geometry chain rfl (fun other count deletes => ?_) fun located found clear call => ?_
  · obtain ⟨named, _, size⟩ := target other count deletes
    exact ⟨named, size.ge⟩
  · cases regular : located.entry.isRegularFile with
    | false =>
      rw [regular] at call
      refine refused_visible_iff call fun other count deletes => ?_
      obtain ⟨same, otherRegular, _⟩ := target other count deletes
      rw [← Option.some.inj (found.symm.trans same), regular] at otherRegular
      cases otherRegular
    | true =>
      rw [regular] at call
      exact deleted_visible_iff well live (.file chain found regular) call clear

theorem removeDirectory_visible_iff : DirectoryCall.KeepsListing fs dir (.removeDirectory name) faults access := by
  obtain ⟨clusters, chain, _⟩ := well.directories _ live
  have target (other : LocatedDirectoryEntry) (count : Nat)
      (deletes : DirectoryCall.Deletes fs dir (.removeDirectory name) other count) :
      findParsedEntry (parseDirectoryEntries (fs.dirSlots clusters)) name = some other ∧
        other.entry.isDirectory = true ∧ other.entry.getCluster ≠ 0 ∧ isDotName other.entry.name = false ∧
        ∃ others, FileChain fs.fat other.entry.getCluster others ∧
          (∀ inner ∈ parseDirectoryEntries (fs.dirSlots others), isDotName inner.entry.name = true) ∧
          count = clusters.length + others.length := by
    cases deletes with
    | directory otherChain found directory nonzero named child empty =>
      obtain rfl := otherChain.unique chain
      exact ⟨found, directory, nonzero, named, _, child, empty, rfl⟩
  refine found_visible_iff well.geometry chain rfl (fun other count deletes => ?_) fun located found clear call => ?_
  · obtain ⟨named, _, _, _, others, _, _, size⟩ := target other count deletes
    exact ⟨named, by omega⟩
  rw [found] at target
  cases refused : !located.entry.isDirectory || located.entry.getCluster == 0 || isDotName located.entry.name with
  | true =>
    rw [refused] at call
    refine refused_visible_iff call fun other count deletes => ?_
    obtain ⟨same, directory, nonzero, named, _⟩ := target other count deletes
    obtain rfl := Option.some.inj same
    simp [directory, nonzero, named] at refused
  | false =>
    have accepted := refused
    simp only [Bool.or_eq_false_iff, Bool.not_eq_false', beq_eq_false_iff_ne] at accepted
    obtain ⟨⟨directory, nonzero⟩, named⟩ := accepted
    have entry : LiveEntry fs (located.entry, located.location) :=
      ⟨_, live, clusters, chain, mem_liveSlots_of_parsed (List.mem_of_find?_eq_some found), named⟩
    obtain ⟨others, child⟩ := well.directory_chain entry directory
    have step : removeDirectory dir name (fs.faulty faults access) = (do
        let empty ← directoryIsEmpty located.entry
        if !empty then fail else deleteDirectoryEntry located : FsM FaultyDisk Unit)
          (fs.faulty faults (access + clusters.length)) := by
      rw [refused] at call
      exact call
    rcases directoryIsEmpty_faulty well.geometry nonzero child faults (access + clusters.length) with
      ⟨later, checked⟩ | ⟨stopped, next, checked⟩
    · rw [bind_value checked] at step
      cases empty : (parseDirectoryEntries (fs.dirSlots others)).all fun inner => isDotName inner.entry.name with
      | false =>
        rw [empty] at step
        refine refused_visible_iff step fun other count deletes => ?_
        obtain ⟨same, _, _, _, otherClusters, otherChild, otherEmpty, _⟩ := target other count deletes
        obtain rfl := Option.some.inj same
        obtain rfl := otherChild.unique child
        rw [List.all_eq_true.mpr otherEmpty] at empty
        cases empty
      | true =>
        rw [empty, Nat.add_assoc] at step
        exact deleted_visible_iff well live
          (.directory chain found directory nonzero named child (List.all_eq_true.mp empty)) step
          (clear.append later)
    · rw [bind_missing checked] at step
      refine refused_visible_iff step fun other count deletes => ?_
      obtain ⟨same, _, _, _, otherClusters, otherChild, _, size⟩ := target other count deletes
      obtain rfl := Option.some.inj same
      obtain rfl := otherChild.unique child
      rw [size]
      exact fun whole => stopped (whole.part (by omega) (by omega))

end Removals

/-- A call that fails leaves the listing exactly when it does not take the long name of an entry that stays. -/
theorem failed_call_visible_iff {reserved : Nat → UInt32 → Prop} (well : WellFormed reserved fs) (dir : DirectoryEntry)
    (live : LiveDirectory fs (fs.directoryCluster dir)) (action : DirectoryCall) (faults : Nat → Bool) (access : Nat) :
    ((action.call dir (fs.faulty faults access)).1 = .missing →
        (action.call dir (fs.faulty faults access)).2.standing.visible dir = fs.visible dir) ↔
      ∀ located, action.Unnames fs dir faults access located → located.name = getFilenameFromFat located.entry.name := by
  obtain ⟨clusters, chain, clean, _⟩ := well.directories _ live
  have created (made : Ensures standing (action.call dir) fs fun result after =>
        result = none → Unstored False fs after (fs.directoryCluster dir) clusters)
      (none_ : ∀ located reads, ¬ action.Deletes fs dir located reads) :
      action.KeepsListing fs dir faults access := by
    refine iff_of_true ?_ ?_
    · intro missing
      obtain ⟨fresh, hidden, _⟩ := made.of_missing (standing_faulty fs faults access) missing rfl
      exact hidden.visible_eq well.geometry chain
    · rintro located ⟨reads, deletes, _⟩
      exact absurd deletes (none_ located reads)
  cases action with
  | createFile name =>
      refine created ?_ (by rintro _ _ ⟨⟩)
      refine .bind (ensures_createFile shows_standing well.geometry dir chain clean name) (fun _ hidden _ => hidden) ?_
      exact fun _ _ _ => .pure fun absurd_ => by cases absurd_
  | createDirectory name =>
      refine created ((ensures_createDirectory shows_standing well.geometry dir chain clean name).mono ?_) (by rintro _ _ ⟨⟩)
      rintro _ after hidden rfl
      exact hidden
  | unlinkFile name => exact unlinkFile_visible_iff well live name faults access
  | removeDirectory name => exact removeDirectory_visible_iff well live name faults access

end Listing

section Alias

/-- A file that was not stored is not seen, although its first slot was written. -/
theorem failed_create_visible_long_name :
    (@DirectoryCall.call Text.asciiTables _ _ freshVolume.root (.createFile "long name".toList)
        (freshVolume.faulty (· == 5) 0)).1 = .missing ∧
      @visible Text.asciiTables (@DirectoryCall.call Text.asciiTables _ _ freshVolume.root
        (.createFile "long name".toList) (freshVolume.faulty (· == 5) 0)).2.standing freshVolume.root =
          @visible Text.asciiTables freshVolume freshVolume.root := by
  have missing : (@DirectoryCall.call Text.asciiTables _ _ freshVolume.root (.createFile "long name".toList)
      (freshVolume.faulty (· == 5) 0)).1 = .missing := by decide +kernel
  refine ⟨missing, (@failed_call_visible_iff Text.asciiTables _ _ wellFormed_freshVolume freshVolume.root
    (liveDirectory_root freshVolume) (.createFile "long name".toList) (· == 5) 0).mpr ?_ missing⟩
  rintro located ⟨reads, deletes, _⟩
  cases deletes

theorem wellFormed_aliasVolume : WellFormed (fun _ _ => False) aliasVolume := by
  have live := liveDirectory_root freshVolume
  rcases @createFile_edited Text.asciiTables _ _ _ wellFormed_freshVolume live "long name".toList with
    ⟨after, missing, edited⟩ | ⟨located, after, returned, _, edited⟩
  · rw [aliasVolume, missing]
    exact edited.wellFormed wellFormed_freshVolume live
  · rw [aliasVolume, returned]
    exact edited.wellFormed wellFormed_freshVolume live

/-- The long name is gone, but its file is still listed under the alias. -/
theorem failed_unlink_shows_alias : WellFormed (fun _ _ => False) aliasVolume ∧
    LiveDirectory aliasVolume (aliasVolume.directoryCluster aliasVolume.root) ∧
    (@DirectoryCall.call Text.asciiTables _ _ aliasVolume.root (.unlinkFile "long name".toList)
      (aliasVolume.faulty (· == 4) 0)).1 = .missing ∧
    @visible Text.asciiTables aliasVolume aliasVolume.root = some ([("long name".toList, aliasEntry)], []) ∧
    @visible Text.asciiTables (@DirectoryCall.call Text.asciiTables _ _ aliasVolume.root
      (.unlinkFile "long name".toList) (aliasVolume.faulty (· == 4) 0)).2.standing aliasVolume.root =
        some ([("longna~1".toList, aliasEntry)], []) :=
  ⟨wellFormed_aliasVolume, liveDirectory_root aliasVolume, by decide +kernel, by decide +kernel, by decide +kernel⟩

end Alias

end FATFileSystem

end BubbleOs.Fat
