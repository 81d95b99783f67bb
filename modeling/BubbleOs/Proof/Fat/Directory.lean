import BubbleOs.Proof.Fat.Parse

namespace BubbleOs.Fat

open Attempt FatBuffer LongDirectoryEntry
open FatBuffer (FileChain)

namespace FATFileSystem

variable {fs : Volume}

theorem withSlots_append (fs : Volume) (first second : List Slot) :
    fs.withSlots (first ++ second) = (fs.withSlots first).withSlots second := by
  induction first generalizing fs with
  | nil => rfl
  | cons slot rest ih => rw [List.cons_append, withSlots, withSlots, ih]

/-- A new group took the place of a free run in an extended directory. -/
structure Insertion (before after : Volume) (dir : Nat) (clusters fresh : List Nat)
    (front run back stored : List Slot) : Prop where
  frame : Frame before after (fun cluster => cluster ∈ clusters ∨ cluster ∈ fresh)
    (fun cluster => cluster ∈ clusters ∨ before.fat.word cluster = 0)
  chain : FatBuffer.FileChain after.fat dir (clusters ++ fresh)
  unused : ∀ cluster ∈ fresh, before.fat.word cluster = 0
  synced : Synced before → Synced after
  old : ∃ ends, before.dirSlots clusters ++ ends = front ++ run ++ back ∧
    ∀ slot ∈ ends, slot.1.isEndMarker = true
  new : after.dirSlots (clusters ++ fresh) = front ++ stored ++ back
  occupied : run ≠ []
  used : ∀ slot ∈ front, slot.1.isEndMarker = false
  free : ∀ slot ∈ run, isFreeSlot slot = true

/-- Writes to the first slots of a run in a longer directory replace these slots. -/
theorem Lengthened.write {fs middle : Volume} (geometry : Geometry fs) {dir : Nat} {clusters fresh : List Nat}
    (lengthened : Lengthened fs middle dir clusters fresh) {front run back : List Slot}
    (slots : middle.dirSlots (clusters ++ fresh) = front ++ run ++ back) {written : List Slot}
    (placed : written.map Prod.snd = (run.map Prod.snd).take written.length) :
    (∀ slot ∈ written, ValidLocation middle slot.2) ∧
      Frame fs (middle.withSlots written) (fun cluster => cluster ∈ clusters ∨ cluster ∈ fresh)
        (fun cluster => cluster ∈ clusters ∨ fs.fat.word cluster = 0) ∧
      (middle.withSlots written).dirSlots (clusters ++ fresh) =
        front ++ (written ++ run.drop written.length) ++ back := by
  have middleGeometry := lengthened.frame.geometry geometry
  have low := lengthened.chain.low
  have places (slot : Slot) (member : slot ∈ written) : slot.2 ∈ middle.directoryLocations (clusters ++ fresh) := by
    have inside : slot.2 ∈ run.map Prod.snd := List.mem_of_mem_take (placed ▸ List.mem_map_of_mem member)
    rw [← map_snd_dirSlots, slots, List.map_append, List.map_append]
    simp only [List.mem_append]
    exact .inl (.inr inside)
  have valid (slot : Slot) (member : slot ∈ written) := validLocation_of_mem low (places slot member)
  refine ⟨valid, ?_, ?_⟩
  · refine (lengthened.frame.mono (fun _ => id) (fun _ => .inr)).trans
      ((frame_withSlots middleGeometry written valid).mono (fun _ => False.elim) ?_)
    rintro cluster ⟨slot, member, rfl⟩
    rcases List.mem_append.mp (mem_directoryLocations.mp (places slot member)).1 with left | right
    · exact .inl left
    · exact .inr (lengthened.free _ right)
  · have split : middle.dirSlots (clusters ++ fresh) =
        front ++ run.take written.length ++ (run.drop written.length ++ back) := by
      rw [slots]
      simp only [List.append_assoc, List.append_cancel_left_eq]
      rw [← List.append_assoc, List.take_append_drop]
    rw [dirSlots_withSlots middleGeometry low lengthened.chain.nodup split written (by rw [placed, List.map_take])]
    simp only [List.append_assoc]

section Hidden

variable [Unicode] {fs middle : Volume} {dir : Nat} {clusters fresh : List Nat}

omit [Unicode] in
/-- A part of a directory that ends clean also ends clean behind free slots. -/
theorem endsClean_drop {run back : List Slot} (free : ∀ slot ∈ run, isFreeSlot slot = true)
    (clean : EndsClean (run ++ back)) (count : Nat) : EndsClean (run.drop count ++ back) := by
  rw [← List.take_append_drop count run, List.append_assoc] at clean
  exact (liveSlots_free _ (fun slot member => free slot (List.mem_of_mem_take member)) clean).2

/-- Free slots discard the pending name and hold no entry. -/
theorem parseFrom_free {run : List Slot} (back : List Slot) (some_ : run ≠ [])
    (free : ∀ slot ∈ run, isFreeSlot slot = true) (clean : EndsClean (run ++ back)) (pending : PendingLfn) :
    parseFrom pending (run ++ back) = parseDirectoryEntries back := by
  induction run generalizing pending with
  | nil => exact absurd rfl some_
  | cons slot rest ih =>
    rw [List.cons_append] at clean ⊢
    rw [parseFrom]
    cases ended : slot.1.isEndMarker with
    | true =>
      have later := (endsClean_cons_end ended).mp clean
      exact (parseDirectoryEntries_ends fun other member => later other (List.mem_append_right _ member)).symm
    | false =>
      have deleted : slot.1.isDeleted = true := by
        have state := free slot List.mem_cons_self
        rw [isFreeSlot, ended, Bool.or_false] at state
        exact state
      rw [deleted]
      simp only [Bool.false_eq_true, if_false, if_true]
      cases rest with
      | nil => exact parseFrom_idle _ _ back
      | cons next rest =>
        exact ih (List.cons_ne_nil _ _) (fun other member => free other (List.mem_cons_of_mem _ member))
          ((endsClean_cons ended).mp clean) _

/-- Long slots at the start of a free run hold no entry. -/
theorem parse_partial_run {front run back written : List Slot} (used : ∀ slot ∈ front, slot.1.isEndMarker = false)
    (free : ∀ slot ∈ run, isFreeSlot slot = true) (clean : EndsClean (front ++ run ++ back))
    (long : ∀ slot ∈ written, isLongSlot slot.1 = true) (less : written.length < run.length) :
    parseDirectoryEntries (front ++ (written ++ run.drop written.length) ++ back) =
      parseDirectoryEntries (front ++ run ++ back) := by
  have runClean : EndsClean (run ++ back) := by
    rw [List.append_assoc] at clean
    exact (endsClean_append used).mp clean
  have rest_ : run.drop written.length ≠ [] := by
    intro none
    have length := congrArg List.length none
    rw [List.length_drop, List.length_nil] at length
    omega
  have writtenUsed (slot : Slot) (member : slot ∈ written) : slot.1.isEndMarker = false :=
    (isLongSlot_iff.mp (long slot member)).1
  have dropped (pending : PendingLfn) : parseFrom pending (run.drop written.length ++ back) = parseDirectoryEntries back :=
    parseFrom_free back rest_ (fun slot member => free slot (List.mem_of_mem_drop member))
      (endsClean_drop free runClean _) pending
  have old := parseFrom_append _ _ (fun pending => parseFrom_free back (by rintro rfl; simp at less) free runClean pending)
    front used PendingLfn.initial
  have new := parseFrom_append (written ++ (run.drop written.length ++ back)) (parseDirectoryEntries back)
    (fun pending => by rw [parseFrom_append _ _ dropped written writtenUsed, parseFrom_longs pending long, List.nil_append])
    front used PendingLfn.initial
  rw [List.append_assoc, List.append_assoc, List.append_assoc, parseDirectoryEntries, parseDirectoryEntries, new, old]

/-- A directory shows its old entries, although it may be longer and hold parts of a name. -/
structure Hidden (before after : Volume) (dir : Nat) (clusters fresh : List Nat) : Prop where
  frame : Frame before after (fun cluster => cluster ∈ clusters ∨ cluster ∈ fresh)
    (fun cluster => cluster ∈ clusters ∨ before.fat.word cluster = 0)
  chain : FatBuffer.FileChain after.fat dir (clusters ++ fresh)
  unused : ∀ cluster ∈ fresh, before.fat.word cluster = 0
  parsed : parseDirectoryEntries (after.dirSlots (clusters ++ fresh)) = parseDirectoryEntries (before.dirSlots clusters)

/-- Long slots that were written to a free run stay hidden. -/
theorem Lengthened.hidden (geometry : Geometry fs) (chain : FileChain fs.fat dir clusters)
    (clean : EndsClean (fs.dirSlots clusters)) (lengthened : Lengthened fs middle dir clusters fresh)
    {front run back : List Slot} (slots : middle.dirSlots (clusters ++ fresh) = front ++ run ++ back)
    (used : ∀ slot ∈ front, slot.1.isEndMarker = false) (free : ∀ slot ∈ run, isFreeSlot slot = true)
    {written : List Slot} (placed : written.map Prod.snd = (run.map Prod.snd).take written.length)
    (long : ∀ slot ∈ written, isLongSlot slot.1 = true) (less : written.length < run.length) :
    Hidden fs (middle.withSlots written) dir clusters fresh := by
  obtain ⟨ends, whole, _, ended⟩ := lengthened.dirSlots_eq chain
  obtain ⟨_, frame, stored⟩ := lengthened.write geometry slots placed
  refine ⟨frame, ?_, lengthened.free, ?_⟩
  · rw [fat_withSlots]
    exact lengthened.chain
  · have wide : EndsClean (front ++ run ++ back) := by
      rw [← slots, whole]
      exact clean.append_ends ended
    rw [stored, parse_partial_run used free wide long less, ← slots, whole, parse_append_ends _ ended]

theorem Lengthened.unwritten (chain : FileChain fs.fat dir clusters)
    (lengthened : Lengthened fs middle dir clusters fresh) : Hidden fs middle dir clusters fresh := by
  obtain ⟨ends, whole, _, ended⟩ := lengthened.dirSlots_eq chain
  refine ⟨lengthened.frame.mono (fun _ => id) (fun _ => .inr), lengthened.chain, lengthened.free, ?_⟩
  rw [whole, parse_append_ends _ ended]

/-- The failed creation of an entry leaves the entries, and on a reliable disk it only extends the directory. -/
def Unstored (reliable : Prop) (before after : Volume) (dir : Nat) (clusters : List Nat) : Prop :=
  ∃ fresh, Hidden before after dir clusters fresh ∧ (reliable → Extended before after dir clusters fresh)

theorem Unstored.refl (reliable : Prop) (chain : FileChain fs.fat dir clusters) :
    Unstored reliable fs fs dir clusters :=
  ⟨[], (Lengthened.refl chain).unwritten chain, fun _ => ⟨.refl chain, id⟩⟩

end Hidden

/-- A new group holds the entry. -/
def Stored [Unicode] (before after : Volume) (dir : Nat) (clusters fresh : List Nat) (located : LocatedDirectoryEntry) :
    Prop :=
  ∃ front run back stored, Insertion before after dir clusters fresh front run back stored ∧ Groups stored ∧
    parseDirectoryEntries stored = [located]

/-- A new group holds an entry whose name was free. -/
structure Added [Unicode] (fs middle after : Volume) (dir : Nat) (clusters fresh : List Nat) (name : List Char)
    (located : LocatedDirectoryEntry) : Prop where
  free : findParsedEntry (parseDirectoryEntries (fs.dirSlots clusters)) name = none
  prepared : ∃ lfns, prepareNameEntries (parseDirectoryEntries (fs.dirSlots clusters)) name =
      some (located.entry.name, lfns) ∧
    located.name = if lfns.isEmpty then getFilenameFromFat located.entry.name else name
  stored : Stored middle after dir clusters fresh located

/-- The long filename slots of a prepared name are long slots. -/
theorem isLongSlot_prepared [Unicode] {lfns : List LongDirectoryEntry} {live : List LocatedDirectoryEntry}
    {filename : List Char} {shortName : ShortName}
    (prepared : prepareNameEntries live filename = some (shortName, lfns)) :
    ∀ lfn ∈ lfns, isLongSlot lfn.toDirectoryEntry = true := by
  cases accepted : getFatFilename filename with
  | some short =>
    rw [prepareNameEntries, accepted, Option.some.injEq, Prod.mk.injEq] at prepared
    rw [← prepared.2]
    simp
  | none =>
    -- where the slots are stored does not matter
    let locations : List DirectoryEntryLocation := List.replicate lfns.length ⟨0, 0, 0⟩
    have placed : locations.length = lfns.length := List.length_replicate
    have firsts : ((lfns.map toDirectoryEntry).zip locations).map Prod.fst =
        lfns.map toDirectoryEntry := List.map_fst_zip (by rw [List.length_map, placed])
    obtain ⟨long, _⟩ := prepareNameEntries_run accepted prepared locations placed
    intro lfn member
    have entry := List.mem_map_of_mem (f := toDirectoryEntry) member
    rw [← firsts] at entry
    obtain ⟨slot, inRun, same⟩ := List.mem_map.mp entry
    rw [← same]
    exact long slot inRun

section Store

variable {P : Type} [Port P] {view : FATFileSystem P → Volume} {reliable : Prop} (disk : Shows view reliable)

include disk

/-- The slots are written in order up to the first failure. -/
theorem ensures_persistLfnEntries (geometry : Geometry fs) (lfns : List (LongDirectoryEntry × DirectoryEntryLocation))
    (valid : ∀ lfn ∈ lfns, ValidLocation fs lfn.2) :
    Ensures view (persistLfnEntries lfns) fs fun result after =>
      ∃ count ≤ lfns.length, after = fs.withSlots ((lfns.take count).map fun lfn => (lfn.1.toDirectoryEntry, lfn.2)) ∧
        (result = some () → count = lfns.length) ∧ (reliable → result = some ()) := by
  induction lfns generalizing fs with
  | nil => exact .pure ⟨0, Nat.le_refl 0, rfl, fun _ => rfl, fun _ => rfl⟩
  | cons lfn rest ih =>
    have head := valid lfn List.mem_cons_self
    have first := frame_withSlot geometry head lfn.1.toDirectoryEntry
    refine .bind (disk.persistDirectoryEntry geometry head _) ?_ ?_
    · rintro after (⟨absurd_, _⟩ | ⟨_, rfl, faulty⟩)
      · cases absurd_
      · exact ⟨0, Nat.zero_le _, rfl, fun absurd_ => (by cases absurd_), fun works => absurd works faulty⟩
    · rintro _ after (⟨_, rfl⟩ | ⟨absurd_, _⟩)
      · refine (ih (first.geometry geometry) fun other member =>
          (valid other (List.mem_cons_of_mem _ member)).frame first).mono ?_
        rintro result final ⟨count, inside, rfl, whole, works⟩
        exact ⟨count + 1, Nat.succ_le_succ inside, rfl, fun done => congrArg Nat.succ (whole done), works⟩
      · cases absurd_

/-- The driver stores a new entry behind its long filename, or the entry stays hidden. -/
theorem ensures_persistNewEntry [Unicode] (geometry : Geometry fs) {dir : Nat} {clusters : List Nat}
    (chain : FileChain fs.fat dir clusters) (clean : EndsClean (fs.dirSlots clusters))
    {live : List LocatedDirectoryEntry} {name : List Char} {lfns : List LongDirectoryEntry} {entry : DirectoryEntry}
    (prepared : prepareNameEntries live name = some (entry.name, lfns)) (notLong : entry.isLongFilename = false)
    (notLabel : entry.isVolumeLabel = false) :
    Ensures view (persistNewEntry dir lfns entry) fs fun result after =>
      match result with
      | none => Unstored reliable fs after dir clusters
      | some (location, locations) => reliable → ∃ fresh, Stored fs after dir clusters fresh
          ⟨entry, location, if lfns.isEmpty then getFilenameFromFat entry.name else name, locations⟩ := by
  refine .bind (ensures_allocateDirectorySlots disk geometry chain clean (Nat.succ_pos lfns.length)) ?_ ?_
  · rintro middle ⟨fresh, ⟨lengthened, synced⟩, _⟩
    exact ⟨fresh, lengthened.unwritten chain, fun works => ⟨lengthened, synced works⟩⟩
  rintro places middle ⟨fresh, ⟨lengthened, synced⟩, found⟩
  obtain ⟨front, run, back, rfl, slots, length, used, free⟩ := found places rfl
  have occupied : run ≠ [] := by
    rintro rfl
    simp at length
  obtain ⟨runFront, short, rfl⟩ : ∃ runFront short, run = runFront ++ [short] :=
    ⟨run.dropLast, run.getLast occupied, (List.dropLast_append_getLast occupied).symm⟩
  have runLength : runFront.length = lfns.length := by simpa using length
  have middleGeometry := lengthened.frame.geometry geometry
  let locations := runFront.map Prod.snd
  let lfnSlots := (lfns.map toDirectoryEntry).zip locations
  have zipped : lfns.zip ((runFront ++ [short]).map Prod.snd) = lfns.zip locations := by
    rw [List.map_append, ← List.append_nil lfns, List.zip_append (by simp [runLength])]
    simp [locations]
  have pairs : (lfns.zip locations).map (fun lfn => (lfn.1.toDirectoryEntry, lfn.2)) = lfnSlots := by
    simp only [lfnSlots]
    rw [List.zip_map_left]
    rfl
  have size : lfnSlots.length = runFront.length := by simp [lfnSlots, locations, runLength]
  have lfnPlaces : lfnSlots.map Prod.snd = locations :=
    List.map_snd_zip (by simp only [locations, List.length_map]; omega)
  -- the long filename slots are written before the short one
  have hidden (count : Nat) (inside : count ≤ runFront.length) :
      (∀ slot ∈ lfnSlots.take count, ValidLocation middle slot.2) ∧
        Hidden fs (middle.withSlots (lfnSlots.take count)) dir clusters fresh := by
    have amount : (lfnSlots.take count).length = count := by rw [List.length_take, size, Nat.min_eq_left inside]
    have placed : (lfnSlots.take count).map Prod.snd =
        ((runFront ++ [short]).map Prod.snd).take (lfnSlots.take count).length := by
      rw [amount, List.map_take, lfnPlaces, List.map_append, List.take_append_of_le_length (by simpa using inside)]
    refine ⟨(lengthened.write geometry slots placed).1, ?_⟩
    refine lengthened.hidden geometry chain clean slots used free placed ?_ ?_
    · intro slot member
      obtain ⟨lfn, inLfns, same⟩ := List.mem_map.mp (List.of_mem_zip (List.mem_of_mem_take member)).1
      rw [← same]
      exact isLongSlot_prepared prepared lfn inLfns
    · rw [amount, List.length_append, List.length_singleton]
      omega
  obtain ⟨lfnValid, kept⟩ := hidden runFront.length (Nat.le_refl _)
  rw [List.take_of_length_le (Nat.le_of_eq size)] at lfnValid kept
  let stored := lfnSlots ++ [(entry, short.2)]
  have placed : stored.map Prod.snd = (runFront ++ [short]).map Prod.snd := by
    simp only [stored, List.map_append, lfnPlaces, List.map_cons, List.map_nil, locations]
  have whole : stored.length = (runFront ++ [short]).length := by
    rw [← List.length_map Prod.snd, placed, List.length_map]
  obtain ⟨storedValid, frame, written⟩ := lengthened.write geometry slots
    (show stored.map Prod.snd = _ by rw [placed, List.take_of_length_le (by rw [List.length_map, whole])])
  rw [List.drop_of_length_le (by rw [whole]), List.append_nil] at written
  have shortValid : ValidLocation middle short.2 := storedValid (entry, short.2) (by simp [stored])
  rw [zipped]
  refine .bind (ensures_persistLfnEntries disk middleGeometry (lfns.zip locations) fun lfn member => ?_) ?_ ?_
  · refine lfnValid (lfn.1.toDirectoryEntry, lfn.2) ?_
    rw [← pairs]
    exact List.mem_map_of_mem member
  · rintro after ⟨count, inside, rfl, _, works⟩
    rw [List.map_take, pairs]
    refine ⟨fresh, (hidden count ?_).2, fun reliable => by cases works reliable⟩
    rw [← size, ← pairs, List.length_map]
    exact inside
  · rintro _ after ⟨count, inside, rfl, all, _⟩
    rw [all rfl, List.take_length, pairs]
    have last : ((runFront ++ [short]).map Prod.snd).getLast? = some short.2 := by simp
    have init : ((runFront ++ [short]).map Prod.snd).dropLast = locations := by simp [locations]
    rw [last, init, ofOption_some]
    refine .value_bind (fun state viewed => ⟨state, rfl, viewed⟩) ?_
    refine .bind (disk.persistDirectoryEntry (kept.frame.geometry geometry)
      (shortValid.frame (frame_withSlots middleGeometry lfnSlots lfnValid)) entry) ?_ ?_
    · rintro final (⟨absurd_, _⟩ | ⟨_, rfl, faulty⟩)
      · cases absurd_
      · exact ⟨fresh, kept, fun works => absurd works faulty⟩
    · rintro _ final (⟨_, rfl⟩ | ⟨absurd_, _⟩)
      · obtain ⟨groups, parsed⟩ := groups_stored prepared locations (by simp [locations, runLength]) rfl notLong notLabel
          short.2
        refine .pure fun works => ⟨fresh, front, runFront ++ [short], back, stored, ?_, groups, parsed⟩
        rw [show (middle.withSlots lfnSlots).withSlot short.2 entry = middle.withSlots stored by
          rw [show stored = _ from rfl, withSlots_append]; rfl]
        obtain ⟨ends, old, _, ended⟩ := lengthened.dirSlots_eq chain
        refine ⟨frame, ?_, lengthened.free, ?_, ⟨ends, ?_, ended⟩, written, occupied, used, free⟩
        · rw [fat_withSlots]
          exact lengthened.chain
        · exact fun before => synced_withSlots middleGeometry (synced works before) stored storedValid
        · rw [← old, slots]
      · cases absurd_

end Store

/-- These bytes start a new directory. -/
def directoryBytes (size cluster parentCluster : Nat) : List UInt8 :=
  overwrite (overwrite (List.replicate size 0) 0 (directoryEntry (dotName false) cluster).toBytes) entrySize
    (directoryEntry (dotName true) parentCluster).toBytes

/-- A free cluster became an empty directory that no entry names yet. -/
structure NewDirectory (before after : Volume) (cluster parentCluster : Nat) : Prop where
  frame : Frame before after (· = cluster) (· = cluster)
  chain : FatBuffer.FileChain after.fat cluster [cluster]
  free : before.fat.word cluster = 0
  bytes : after.clusterBytes cluster = directoryBytes before.clusterSize cluster parentCluster
  synced : Synced after

theorem Geometry.two_slots (geometry : Geometry fs) : 2 * entrySize ≤ fs.clusterSize := by
  have positive := geometry.clusters
  rw [geometry.clusterSize_eq, sectorSize, entrySize]
  omega

theorem length_directoryBytes {size : Nat} (room : 2 * entrySize ≤ size) (cluster parentCluster : Nat) :
    (directoryBytes size cluster parentCluster).length = size := by
  have first : (overwrite (List.replicate size 0) 0 (directoryEntry (dotName false) cluster).toBytes).length =
      size := by
    rw [length_overwrite, List.length_replicate]
    rw [List.length_replicate, DirectoryEntry.length_toBytes]
    omega
  rw [directoryBytes, length_overwrite, first]
  rw [first, DirectoryEntry.length_toBytes]
  omega

/-- A free cluster was taken for a chain that no entry names yet. -/
structure Taken (before after : Volume) (cluster : Nat) : Prop where
  frame : Frame before after (· = cluster) (· = cluster)
  chain : FatBuffer.FileChain after.fat cluster [cluster]
  free : before.fat.word cluster = 0

/-- The allocated cluster is taken, whatever is written to it. -/
theorem taken_of_allocated {fat : FatBuffer} {cluster : Nat} {after : Volume}
    (allocated : FatBuffer.Allocated fs.fat fat cluster [cluster])
    (same : after.fat = fat) (frame : Frame (fs.withFat fat) after (fun _ => False) (· = cluster)) :
    Taken fs after cluster where
  frame := by
    have fatFrame : Frame fs (fs.withFat fat) (· = cluster) (· = cluster) :=
      frame_withFat allocated.size (fun other different => allocated.rest other (by simpa using different)) _
    exact fatFrame.trans (frame.mono (fun _ => False.elim) fun _ => id)
  chain := by
    rw [same]
    exact allocated.chain
  free := allocated.fresh cluster List.mem_cons_self

section Release

variable {fs middle after final : Volume} {cluster : Nat} {words changed wider : Nat → Prop}

variable (taken : Taken fs middle cluster)

include taken

theorem Taken.free_of_free (other : Nat) (free : middle.fat.word other = 0) : fs.fat.word other = 0 := by
  by_cases same : other = cluster
  · rw [same, taken.free]
  · rw [← taken.frame.word other same, free]

/-- The taken cluster is neither in an old chain nor free. -/
theorem Taken.apart {dir : Nat} {clusters fresh : List Nat}
    (chain : FileChain fs.fat dir clusters) (unused : ∀ other ∈ fresh, middle.fat.word other = 0) :
    ¬ (cluster ∈ clusters ∨ cluster ∈ fresh) := by
  rintro (old | new)
  · exact chain.used cluster old taken.free
  · exact taken.chain.used cluster List.mem_cons_self (unused cluster new)

theorem Taken.owned (frame : Frame middle after words changed)
    (apart : ¬ words cluster) : FileChain after.fat cluster [cluster] := by
  refine taken.chain.congr frame.size ?_
  intro other member
  rw [List.mem_singleton.mp member]
  exact frame.word cluster apart

/-- A taken cluster that was released is free as before. -/
theorem Taken.release (frame : Frame middle after words changed)
    (apart : ¬ words cluster) (wide : ∀ other, changed other → wider other) (here : wider cluster)
    (released : Frame after final (· = cluster) (fun _ => False)) (fat : final.fat = after.fat.release [cluster]) :
    Frame fs final words wider := by
  have whole : Frame fs final (fun other => words other ∨ other = cluster) wider := by
    refine ((taken.frame.mono (fun _ => .inr) ?_).trans (frame.mono (fun _ => .inl) wide)).trans
      (released.mono (fun _ => .inr) fun _ => False.elim)
    rintro other rfl
    exact here
  refine ⟨whole.bs, whole.bs32, whole.size, ?_, whole.data⟩
  intro other outside
  by_cases same : other = cluster
  · rw [fat, word_release, same, if_pos List.mem_cons_self, taken.free]
  · exact whole.word other (not_or.mpr ⟨outside, same⟩)

end Release

theorem fileChain_release {fat : FatBuffer} {dir cluster : Nat} {clusters : List Nat}
    (chain : FileChain fat dir clusters) (apart : cluster ∉ clusters) :
    FileChain (fat.release [cluster]) dir clusters := by
  refine chain.congr (entries_release _ _) ?_
  intro other member
  rw [word_release, if_neg]
  rintro same
  rw [List.mem_singleton.mp same] at member
  exact apart member

theorem frame_release (fs : Volume) (cluster : Nat) :
    Frame fs (fs.withFat (fs.fat.release [cluster])) (· = cluster) (fun _ => False) := by
  refine frame_withFat (entries_release _ _) ?_ _
  intro other different
  rw [word_release, if_neg (by simpa using different)]

section Rollback

variable {fs middle after final : Volume} {dir cluster : Nat} {clusters fresh : List Nat} {reliable : Prop}
  (chain : FileChain fs.fat dir clusters) (taken : Taken fs middle cluster)
  (fat : final.fat = after.fat.release [cluster]) (released : Frame after final (· = cluster) (fun _ => False))

include chain taken fat released

/-- A rolled back directory cluster leaves the longer parent. -/
theorem Extended.release (extended : Extended middle after dir clusters fresh) (synced : Synced final) :
    Extended fs final dir clusters fresh := by
  have apart := taken.apart chain extended.free
  refine ⟨⟨taken.release extended.frame apart taken.free_of_free taken.free released fat, ?_, ?_, ?_⟩, fun _ => synced⟩
  · rw [fat]
    exact fileChain_release extended.chain fun member => apart (List.mem_append.mp member)
  · exact fun other member => taken.free_of_free other (extended.free other member)
  · intro other member
    rw [released.data other (extended.chain.low other (List.mem_append_right _ member)) id, extended.zero other member,
      taken.frame.clusterSize_eq]

/-- A rolled back directory cluster leaves the hidden changes of its parent. -/
theorem Hidden.release [Unicode] (hidden : Hidden middle after dir clusters fresh) : Hidden fs final dir clusters fresh := by
  have apart := taken.apart chain hidden.unused
  have low := hidden.chain.low
  refine ⟨taken.release hidden.frame apart ?_ (.inr taken.free) released fat, ?_, ?_, ?_⟩
  · exact fun other => Or.imp_right (taken.free_of_free other)
  · rw [fat]
    exact fileChain_release hidden.chain fun member => apart (List.mem_append.mp member)
  · exact fun other member => taken.free_of_free other (hidden.unused other member)
  · rw [released.dirSlots_eq low fun _ _ => id, hidden.parsed,
      taken.frame.dirSlots_eq (fun other member => low other (List.mem_append_left _ member))]
    rintro other member rfl
    exact apart (.inl member)

end Rollback

/-- This is the part of a deletion behind the marks. -/
def releaseChain {P : Type} [Port P] (firstCluster : Nat) : FsM P Unit :=
  if firstCluster = 0 then pure ()
  else do
    onFat (FatBuffer.freeChain firstCluster)
    let _ ← orNone persistFat
    pure ()

section Chain

variable {fs : Volume} (geometry : Geometry fs) {first : Nat}

include geometry

/-- A freed chain is released on every disk. -/
theorem releaseChain_freed {P : Type} [Port P] {place : SectorArray → Nat → P} {faults : Nat → Bool}
    (disk : Counts place faults) {fat : FatBuffer} (nonzero : first ≠ 0)
    (freed : freeChain first fs.fat = (.value (), fat)) {words : Nat → Prop}
    (size : fat.entries = fs.fat.entries) (same : ∀ cluster, ¬ words cluster → fat.word cluster = fs.fat.word cluster)
    (access : Nat) :
    ∃ (after : Volume) (next : Nat), releaseChain first (fs.on place access) = (.value (), after.on place next) ∧
      after.fat = fat ∧ Frame fs after words (fun _ => False) ∧
      (Clear faults access fs.bs.tableCount.toNat → Synced after) := by
  have frame : Frame fs (fs.withFat fat) words (fun _ => False) := frame_withFat size same _
  obtain ⟨after, fat_eq, saveFrame, outcome⟩ := persistFat_counted disk (frame.geometry geometry) access
  have whole := frame.trans (saveFrame.mono (fun _ => False.elim) fun _ => id)
  rw [releaseChain, if_neg nonzero, bind_value (onFat_on freed)]
  rcases outcome with ⟨_, copies, returned⟩ | ⟨stopped, next, returned⟩
  · rw [bind_value (orNone_value returned)]
    exact ⟨after, _, rfl, fat_eq, whole, fun _ => copies⟩
  · rw [bind_value (orNone_missing returned)]
    exact ⟨after, next, rfl, fat_eq, whole, fun clear => absurd clear stopped⟩

/-- A release changes only linked words of the table. -/
theorem releaseChain_frame {after : Volume} (returned : releaseChain first fs = (.value (), after)) :
    Frame fs after (fun cluster => first ≠ 0 ∧ fs.fat.Linked first cluster) (fun _ => False) := by
  by_cases none : first = 0
  · rw [releaseChain, if_pos none] at returned
    obtain rfl : fs = after := (Prod.mk.inj returned).2
    exact .refl _ _ _
  · have calls := returned
    rw [releaseChain, if_neg none, bind_eq_value_iff] at calls
    obtain ⟨_, _, freed, _⟩ := calls
    obtain ⟨size, same⟩ := freeChainLoop_frame (fs.fat.entries + 1) first fs.fat
    obtain ⟨_, _, again, _, frame, _⟩ := releaseChain_freed geometry counts_reliable none
      (Prod.ext (Prod.mk.inj freed).1 rfl) size
      (fun cluster (outside : ¬ (first ≠ 0 ∧ _)) => same cluster fun linked => outside ⟨none, linked⟩) 0
    obtain rfl := (Prod.mk.inj (again.symm.trans returned)).2
    exact frame

end Chain

section Deletion

variable {fs : Volume} {clusters : List Nat} {located : LocatedDirectoryEntry} {front run back : List Slot}

/-- The slots of an entry are distinct slots of its directory. -/
theorem group_locations (low : ∀ cluster ∈ clusters, 2 ≤ cluster) (distinct : clusters.Nodup)
    (split : fs.dirSlots clusters = front ++ (run ++ [(located.entry, located.location)]) ++ back)
    (places : run.map Prod.snd = located.lfnLocations) :
    located.lfnLocations.Nodup ∧ ∀ location ∈ located.lfnLocations ++ [located.location],
      ValidLocation fs location ∧ location.cluster ∈ clusters := by
  have nodup := nodup_directoryLocations fs distinct
  have locations : fs.directoryLocations clusters =
      front.map Prod.snd ++ (located.lfnLocations ++ [located.location]) ++ back.map Prod.snd := by
    rw [← map_snd_dirSlots, split]
    simp [places]
  refine ⟨?_, ?_⟩
  · rw [locations, List.nodup_append, List.nodup_append, List.nodup_append] at nodup
    exact nodup.1.2.1.1
  · intro location member
    have inside : location ∈ fs.directoryLocations clusters := by
      rw [locations]
      simp only [List.mem_append] at member ⊢
      exact .inl (.inr member)
    exact ⟨validLocation_of_mem low inside, (mem_directoryLocations.mp inside).1⟩

variable (geometry : Geometry fs) (low : ∀ cluster ∈ clusters, 2 ≤ cluster) (distinct : clusters.Nodup)
  (split : fs.dirSlots clusters = front ++ (run ++ [(located.entry, located.location)]) ++ back)
  (places : run.map Prod.snd = located.lfnLocations)

include geometry low distinct split places

/-- The slots of an entry are marked in order before its chain is freed. A deletion that fails has marked the first
long filename slots and nothing else. -/
theorem deleteDirectoryEntry_counted {P : Type} [Port P] {place : SectorArray → Nat → P} {faults : Nat → Bool}
    (disk : Counts place faults) (access : Nat) :
    ∃ gone, (∀ slot ∈ gone, ValidLocation fs slot.2 ∧ slot.2.cluster ∈ clusters) ∧
      (∀ slot ∈ gone, slot.1.isDeleted = true) ∧
      (fs.withSlots gone).dirSlots clusters = front ++ gone ++ back ∧
      ((Clear faults access (3 * located.lfnLocations.length + 2) ∧ deleteDirectoryEntry located (fs.on place access) =
          releaseChain located.entry.getCluster
            ((fs.withSlots gone).on place (access + 3 * located.lfnLocations.length + 2))) ∨
        (¬ Clear faults access (3 * located.lfnLocations.length + 2) ∧ ∃ done ≤ located.lfnLocations.length,
          Clear faults access (3 * done) ∧ (done < located.lfnLocations.length → ¬ Clear faults (access + 3 * done) 3) ∧
          ∃ next, deleteDirectoryEntry located (fs.on place access) =
            (.missing, (fs.withSlots (fs.marked (located.lfnLocations.take done))).on place next))) := by
  obtain ⟨lfnNodup, valid⟩ := group_locations low distinct split places
  let gone := fs.marked located.lfnLocations ++ [(located.entry.markDeleted, located.location)]
  have gonePlaces : gone.map Prod.snd = located.lfnLocations ++ [located.location] := by
    simp [gone, marked, Function.comp_def]
  have goneValid : ∀ slot ∈ gone, ValidLocation fs slot.2 ∧ slot.2.cluster ∈ clusters := by
    intro slot member
    refine valid slot.2 ?_
    rw [← gonePlaces]
    exact List.mem_map_of_mem member
  refine ⟨gone, goneValid, ?_, ?_, ?_⟩
  · intro slot member
    rcases List.mem_append.mp member with left | right
    · obtain ⟨location, _, rfl⟩ := List.mem_map.mp left
      exact DirectoryEntry.isDeleted_markDeleted _
    · rw [List.mem_singleton.mp right]
      exact DirectoryEntry.isDeleted_markDeleted _
  · refine dirSlots_withSlots geometry low distinct split gone ?_
    rw [gonePlaces, List.map_append, places]
    rfl
  · have lfnFrame := frame_withSlots geometry _ fun slot member => (goneValid slot (List.mem_append_left _ member)).1
    have shortValid := (valid located.location (List.mem_append_right _ (by simp))).1.frame lfnFrame
    rw [deleteDirectoryEntry]
    rcases deleteLfnEntries_counted disk geometry _ (fun location member => (valid location (List.mem_append_left _ member)).1)
      lfnNodup access with ⟨clear, returned⟩ | ⟨done, less, clear, stopped, next, returned⟩
    · rw [bind_value returned, clear_add_iff, and_iff_right clear]
      rcases persistDirectoryEntry_counted disk shortValid (lfnFrame.geometry geometry) located.entry.markDeleted
        (access + 3 * located.lfnLocations.length) with ⟨saves, wrote⟩ | ⟨stopped, next, failed⟩
      · rw [bind_value wrote, show gone = _ from rfl, withSlots_append]
        exact .inl ⟨saves, rfl⟩
      · refine .inr ⟨stopped, _, Nat.le_refl _, clear, fun less => absurd less (Nat.lt_irrefl _), next, ?_⟩
        rw [bind_missing failed, List.take_length]
    · refine .inr ⟨?_, done, Nat.le_of_lt less, clear, fun _ => stopped, next, bind_missing returned _⟩
      exact fun whole => stopped (whole.part (by omega) (by omega))

/-- On a reliable disk the chain is released behind the marks, and a release keeps the slots. -/
theorem deleteDirectoryEntry_marks :
    ∃ gone, (∀ slot ∈ gone, slot.1.isDeleted = true) ∧ Geometry (fs.withSlots gone) ∧
      (Synced fs → Synced (fs.withSlots gone)) ∧
      deleteDirectoryEntry located fs = releaseChain located.entry.getCluster (fs.withSlots gone) ∧
      ∀ {after : Volume} {words : Nat → Prop}, Frame (fs.withSlots gone) after words (fun _ => False) →
        Frame fs after words (· ∈ clusters) ∧ after.dirSlots clusters = front ++ gone ++ back := by
  obtain ⟨gone, valid, deleted, slots, outcome⟩ :=
    deleteDirectoryEntry_counted geometry low distinct split places counts_reliable 0
  have slotValid (slot : Slot) (member : slot ∈ gone) := (valid slot member).1
  have frame := frame_withSlots geometry gone slotValid
  refine ⟨gone, deleted, frame.geometry geometry, fun synced => synced_withSlots geometry synced gone slotValid,
    of_never outcome, fun released => ⟨?_, ?_⟩⟩
  · refine (frame.mono (fun _ => False.elim) ?_).trans (released.mono (fun _ => id) fun _ => False.elim)
    rintro cluster ⟨slot, member, rfl⟩
    exact (valid slot member).2
  · rw [released.dirSlots_eq low fun _ _ => id, slots]

end Deletion

section Operations

variable [Unicode] {fs : Volume} {lfns : List LongDirectoryEntry} {clusters : List Nat} {P : Type} [Port P]
  {view : FATFileSystem P → Volume} {reliable : Prop} (disk : Shows view reliable)

include disk

variable (geometry : Geometry fs)

include geometry

/-- A creation refuses a known name and prepares a new one. -/
theorem ensures_newName {A : Type} {dir : Nat} (chain : FileChain fs.fat dir clusters)
    (name : List Char) {next : ShortName × List LongDirectoryEntry → FsM P A} {post : Option A → Volume → Prop}
    (same : post none fs)
    (later : ∀ shortName lfns, findParsedEntry (parseDirectoryEntries (fs.dirSlots clusters)) name = none →
      prepareNameEntries (parseDirectoryEntries (fs.dirSlots clusters)) name = some (shortName, lfns) →
      Ensures view (next (shortName, lfns)) fs post) :
    Ensures view (loadDirectorySlots dir >>= fun loaded =>
      if (findParsedEntry (parseDirectoryEntries loaded.1) name).isSome then fail
      else ofOption (prepareNameEntries (parseDirectoryEntries loaded.1) name) >>= next) fs post := by
  refine .bind (disk.loadDirectorySlots geometry chain) ?_ ?_
  · rintro after ⟨rfl, _⟩
    exact same
  · rintro loaded after ⟨rfl, content | ⟨absurd_, _⟩⟩
    · rw [Option.some.inj content]
      cases found : findParsedEntry (parseDirectoryEntries (after.dirSlots clusters)) name with
      | some other => exact .fail same
      | none =>
        cases prepared : prepareNameEntries (parseDirectoryEntries (after.dirSlots clusters)) name with
        | none => exact .fail same
        | some names =>
          exact .value_bind (fun state viewed => ⟨state, rfl, viewed⟩) (later names.1 names.2 found prepared)
    · cases absurd_

/-- A new file appears in a free run, or it stays hidden. -/
theorem ensures_createFile (dir : DirectoryEntry)
    (chain : FileChain fs.fat (fs.directoryCluster dir) clusters) (clean : EndsClean (fs.dirSlots clusters))
    (filename : List Char) :
    Ensures view (createFile dir filename) fs fun result after =>
      match result with
      | none => Unstored reliable fs after (fs.directoryCluster dir) clusters
      | some located => reliable → located.entry = blankEntry located.entry.name 0x20 ∧
          ∃ fresh, Added fs fs after (fs.directoryCluster dir) clusters fresh filename located := by
  have same : Unstored reliable fs fs (fs.directoryCluster dir) clusters := .refl reliable chain
  refine .get_bind fun state viewed => ?_
  dsimp only
  rw [disk.directoryCluster, viewed]
  refine ensures_newName disk geometry chain filename same fun shortName lfns unknown prepared => ?_
  refine .bind (ensures_persistNewEntry disk geometry chain clean prepared (isLongFilename_blankEntry shortName)
    (isVolumeLabel_blankEntry shortName)) (fun _ failed => failed) ?_
  rintro ⟨location, locations⟩ final stored
  refine .pure fun works => ⟨rfl, ?_⟩
  obtain ⟨fresh, added⟩ := stored works
  exact ⟨fresh, unknown, ⟨lfns, prepared, rfl⟩, added⟩

omit [Unicode] in
theorem ensures_rollbackAllocatedChain {cluster : Nat} (chain : FileChain fs.fat cluster [cluster]) :
    Ensures view (rollbackAllocatedChain cluster) fs fun result after => result = some () ∧
      after.fat = fs.fat.release [cluster] ∧ Frame fs after (· = cluster) (fun _ => False) ∧
        (reliable → Synced after) := by
  have freeFrame := frame_release fs cluster
  refine .value_bind (disk.orNone_onFat_returns (freeChain_chain fs.fat cluster [cluster] chain)) ?_
  refine .orNone_bind (disk.persistFat (freeFrame.geometry geometry)) ?_
  rintro _ after ⟨fat, frame, works⟩
  exact .pure ⟨rfl, fat, freeFrame.trans (frame.mono (fun _ => False.elim) fun _ => id), fun reliable => (works reliable).2⟩

/-- An allocated cluster becomes a named directory, or the rollback leaves the parent's entries. -/
theorem ensures_newDirectory {dir cluster : Nat} {fat : FatBuffer}
    (chain : FileChain fs.fat dir clusters) (clean : EndsClean (fs.dirSlots clusters))
    (allocated : FatBuffer.Allocated fs.fat fat cluster [cluster])
    {live : List LocatedDirectoryEntry} {name : List Char} {shortName : ShortName}
    (prepared : prepareNameEntries live name = some (shortName, lfns)) :
    Ensures view (do
      let initialized ← initializeDirectoryCluster cluster dir
      if !initialized then
        let _ ← orNone (onFat (freeChain cluster))
        fail
      else
        match ← orNone persistFat with
        | none =>
          rollbackAllocatedChain cluster
          fail
        | some () =>
          match ← orNone (persistNewEntry dir lfns (directoryEntry shortName cluster)) with
          | none =>
            rollbackAllocatedChain cluster
            fail
          | some _ => pure () : FsM P Unit) (fs.withFat fat) fun result after =>
      match result with
      | none => Unstored reliable fs after dir clusters
      | some _ => reliable → ∃ fresh middle location locations, NewDirectory fs middle cluster dir ∧
          Stored middle after dir clusters fresh ⟨directoryEntry shortName cluster, location,
            if lfns.isEmpty then getFilenameFromFat shortName else name, locations⟩ := by
  have low := allocated.chain.low_first
  have fatGeometry := (taken_of_allocated allocated rfl (.refl _ _ _)).frame.geometry geometry
  -- the parent is untouched as long as only the new cluster changes
  have kept {middle : Volume} (taken : Taken fs middle cluster) : FileChain middle.fat dir clusters ∧
      middle.dirSlots clusters = fs.dirSlots clusters := by
    have apart : ∀ other ∈ clusters, other ≠ cluster := by
      rintro other member rfl
      exact chain.used other member taken.free
    exact ⟨chain.congr taken.frame.size fun other member => taken.frame.word other (apart other member),
      taken.frame.dirSlots_eq chain.low apart⟩
  have rollback {middle after : Volume} (taken : Taken fs middle cluster)
      (unstored : Unstored reliable middle after dir clusters) :
      Ensures view (do rollbackAllocatedChain cluster; fail : FsM P Unit) after fun result final =>
        result = none ∧ Unstored reliable fs final dir clusters := by
    obtain ⟨fresh, hidden, extended⟩ := unstored
    have owned := taken.owned hidden.frame (taken.apart chain hidden.unused)
    refine .bind (ensures_rollbackAllocatedChain disk (hidden.frame.geometry (taken.frame.geometry geometry)) owned) ?_ ?_
    · rintro final ⟨absurd_, _⟩
      cases absurd_
    · rintro _ final ⟨_, same, frame, synced⟩
      exact .fail ⟨rfl, fresh, hidden.release chain taken same frame, fun works =>
        (extended works).release chain taken same frame (synced works)⟩
  refine .bind (ensures_writeWhole disk fatGeometry low fun size => directoryBytes size cluster dir) ?_ ?_
  · rintro _ (⟨absurd_, _⟩ | ⟨absurd_, _⟩) <;> cases absurd_
  rintro initialized written (⟨done, rfl⟩ | ⟨done, rfl, faulty⟩) <;> obtain rfl := Option.some.inj done
  · have length := length_directoryBytes fatGeometry.two_slots cluster dir
    have writtenFrame := frame_withCluster fatGeometry low length
    have taken := taken_of_allocated allocated rfl writtenFrame
    refine .orNone_bind (disk.persistFat (taken.frame.geometry geometry)) ?_
    rintro persisted saved ⟨savedFat, savedFrame, works⟩
    have savedTaken : Taken fs saved cluster := taken_of_allocated allocated savedFat
      (writtenFrame.trans (savedFrame.mono (fun _ => id) fun _ => False.elim))
    obtain ⟨savedChain, savedSlots⟩ := kept savedTaken
    cases persisted with
    | none =>
      refine (rollback savedTaken (.refl reliable savedChain)).mono ?_
      rintro _ final ⟨rfl, unstored⟩
      exact unstored
    | some =>
      refine .orNone_bind (ensures_persistNewEntry disk (savedTaken.frame.geometry geometry) savedChain
        (by rw [savedSlots]; exact clean) prepared (isLongFilename_directoryEntry shortName cluster)
        (isVolumeLabel_directoryEntry shortName cluster)) ?_
      rintro (_ | ⟨location, locations⟩) after outcome
      · refine (rollback savedTaken outcome).mono ?_
        rintro _ final ⟨rfl, unstored⟩
        exact unstored
      · refine .pure fun reliable => ?_
        obtain ⟨fresh, stored⟩ := outcome reliable
        refine ⟨fresh, saved, location, locations, ⟨savedTaken.frame, savedTaken.chain, savedTaken.free, ?_, (works reliable).2⟩, stored⟩
        rw [savedFrame.data cluster low id, clusterBytes_withCluster fatGeometry low low length, if_pos rfl]
        rfl
  · have taken := taken_of_allocated allocated rfl (.refl _ _ _)
    have unwritten := (Lengthened.refl (kept taken).1).unwritten (kept taken).1
    refine .value_bind (disk.orNone_onFat_returns (freeChain_chain fat cluster [cluster] allocated.chain)) ?_
    exact .fail ⟨[], unwritten.release chain taken rfl (frame_release _ cluster), fun works => absurd works faulty⟩

/-- A new directory appears in a free run, or it stays hidden. -/
theorem ensures_createDirectory (parent : DirectoryEntry)
    (chain : FileChain fs.fat (fs.directoryCluster parent) clusters)
    (clean : EndsClean (fs.dirSlots clusters)) (name : List Char) :
    Ensures view (createDirectory parent name) fs fun result after =>
      match result with
      | none => Unstored reliable fs after (fs.directoryCluster parent) clusters
      | some _ => reliable → ∃ fresh middle cluster located,
          located.entry = directoryEntry located.entry.name cluster ∧
          NewDirectory fs middle cluster (fs.directoryCluster parent) ∧
          Added fs middle after (fs.directoryCluster parent) clusters fresh name located := by
  have same : Unstored reliable fs fs (fs.directoryCluster parent) clusters := .refl reliable chain
  refine .get_bind fun state viewed => ?_
  dsimp only
  rw [disk.directoryCluster, viewed]
  refine ensures_newName disk geometry chain name same fun shortName lfns unknown prepared => ?_
  rcases allocateChain_one geometry.limit with ⟨cluster, fat, allocate, allocated⟩ | missing
  · refine .value_bind (disk.onFat_returns allocate) ?_
    refine (ensures_newDirectory disk geometry chain clean allocated prepared).mono ?_
    rintro (_ | _) final outcome
    · exact outcome
    · intro works
      obtain ⟨fresh, middle, location, locations, created, stored⟩ := outcome works
      exact ⟨fresh, middle, cluster, _, rfl, created, unknown, ⟨lfns, prepared, rfl⟩, stored⟩
  · exact disk.onFat_refused missing same

end Operations

/-- These slots are loaded for a directory. -/
def directorySlots (fs : Volume) (cluster : Nat) : Option (List Slot) :=
  match loadDirectorySlots cluster fs with
  | (.value loaded, _) => some loaded.1
  | _ => none

/-- A directory is well formed when its clusters form a chain and its slots form groups. -/
structure WellFormedDirectory (fs : Volume) (cluster : Nat) (slots : List Slot) : Prop where
  chain : ∃ clusters, FatBuffer.FileChain fs.fat cluster clusters
  load : fs.directorySlots cluster = some slots
  slots : WellFormedSlots slots

/-- Only the dot directories may lead back into the clusters of their own directory. -/
def SeparateEntries [Unicode] (fs : Volume) (slots : List Slot) : Prop :=
  ∀ located ∈ parseDirectoryEntries slots, ¬ (located.entry.isDirectory = true ∧ isDotName located.entry.name = true) →
    located.entry.getCluster ≠ 0 → ∀ slot ∈ slots, ¬ fs.fat.Linked located.entry.getCluster slot.2.cluster

/-- The new slots hold one entry more. -/
def Inserted [Unicode] (slots newSlots : List Slot) (located : LocatedDirectoryEntry) : Prop :=
  ∃ before rest, parseDirectoryEntries slots = before ++ rest ∧
    parseDirectoryEntries newSlots = before ++ [located] ++ rest

/-- The new slots hold one entry less. -/
def Removed [Unicode] (slots newSlots : List Slot) (located : LocatedDirectoryEntry) : Prop :=
  Inserted newSlots slots located

section Load

variable {fs : Volume}

theorem directorySlots_chain (geometry : Geometry fs) {cluster : Nat} {clusters : List Nat}
    (chain : FileChain fs.fat cluster clusters) :
    fs.directorySlots cluster = some (fs.dirSlots clusters) := by
  rw [directorySlots, loadDirectorySlots_chain geometry chain]

/-- A read leaves the volume. -/
theorem readCluster_state (cluster : Nat) (fs : Volume) : (readCluster cluster fs).2 = fs := by
  rw [readCluster]
  by_cases low : cluster < 2
  · have stopped : getSector cluster fs = (.hang, fs) := by
      rw [getSector, get_bind, if_pos low]
      rfl
    change (andThen _ _ fs).2 = fs
    simp only [andThen, stopped]
  · have sector : getSector cluster fs = (.value (fs.clusterStart cluster), fs) := by
      rw [getSector, get_bind, if_neg low]
      rfl
    rw [bind_value sector, get_bind, put_bind]
    simp only [Port.read]
    split <;> rfl

/-- A load leaves the volume. -/
theorem loadDirectorySlotsLoop_state (fuel cluster : Nat) (slots : List Slot) (fs : Volume) :
    (loadDirectorySlotsLoop fuel cluster slots fs).2 = fs := by
  induction fuel generalizing cluster slots with
  | zero => rfl
  | succ fuel ih =>
    rw [loadDirectorySlotsLoop]
    have state := readCluster_state cluster fs
    cases read : readCluster cluster fs with
    | mk result after =>
      rw [read] at state
      simp only at state
      subst state
      cases result with
      | value region =>
        rw [bind_value read, get_bind]
        cases after.fat.nextCluster cluster with
        | some next => exact ih _ _
        | none => rfl
      | missing => rw [bind_missing read]
      | hang =>
        change (andThen _ _ after).2 = after
        simp only [andThen, read]

end Load

section Updates

variable [Unicode] {fs : Volume} {dir : DirectoryEntry} {clusters : List Nat} {name : List Char} {after : Volume}
  {cluster : Nat} {located : LocatedDirectoryEntry}

/-- The driver finds a name in the loaded slots. -/
theorem findEntryByName_chain (geometry : Geometry fs)
    (chain : FileChain fs.fat (fs.directoryCluster dir) clusters) :
    findEntryByName dir name fs =
      (ofOption (findParsedEntry (parseDirectoryEntries (fs.dirSlots clusters)) name)) fs := by
  rw [findEntryByName, get_bind, bind_value (loadDirectorySlots_chain geometry chain)]

/-- An insertion into well-formed slots adds one entry. -/
theorem Insertion.wellFormed {before after : Volume} {fresh : List Nat} {front run back stored : List Slot}
    (insertion : Insertion before after cluster clusters fresh front run back stored) (geometry : Geometry before)
    (well : WellFormedSlots (before.dirSlots clusters)) (groups : Groups stored)
    (parsed : parseDirectoryEntries stored = [located]) :
    ∃ newSlots, WellFormedDirectory after cluster newSlots ∧
      Inserted (before.dirSlots clusters) newSlots located := by
  obtain ⟨ends, old, ended⟩ := insertion.old
  have wide := well.append_ends ended
  rw [old] at wide
  obtain ⟨newWell, oldParse, newParse⟩ := wide.insert insertion.occupied insertion.used insertion.free groups parsed
  refine ⟨front ++ stored ++ back, ⟨⟨_, insertion.chain⟩, ?_, newWell⟩, ?_⟩
  · rw [directorySlots_chain (insertion.frame.geometry geometry) insertion.chain, insertion.new]
  · exact ⟨parseDirectoryEntries front, parseDirectoryEntries back, by rw [← parse_append_ends _ ended, old, oldParse],
      newParse⟩

/-- A deletion from well-formed slots removes one entry. -/
theorem deleteDirectoryEntry_removed (geometry : Geometry fs) (chain : FileChain fs.fat cluster clusters)
    (well : WellFormedSlots (fs.dirSlots clusters)) (member : located ∈ parseDirectoryEntries (fs.dirSlots clusters))
    (separate : located.entry.getCluster ≠ 0 → ∀ other ∈ clusters, ¬ fs.fat.Linked located.entry.getCluster other)
    (returned : deleteDirectoryEntry located fs = (.value (), after)) :
    ∃ newSlots, WellFormedDirectory after cluster newSlots ∧ Removed (fs.dirSlots clusters) newSlots located := by
  obtain ⟨front, run, back, split, places, _, parsed, removes⟩ := well.remove member
  obtain ⟨gone, deleted, markGeometry, _, effect, kept⟩ :=
    deleteDirectoryEntry_marks geometry chain.low chain.nodup split places
  obtain ⟨frame, slots⟩ := kept (releaseChain_frame markGeometry (effect.symm.trans returned))
  obtain ⟨newWell, newParse⟩ := removes gone deleted
  have newChain : FileChain after.fat cluster clusters := by
    refine chain.congr frame.size ?_
    intro other inside
    refine frame.word other fun changed => ?_
    rw [fat_withSlots] at changed
    exact separate changed.1 other inside changed.2
  refine ⟨front ++ gone ++ back, ⟨⟨clusters, newChain⟩, ?_, newWell⟩, ?_⟩
  · rw [directorySlots_chain (frame.geometry geometry) newChain, slots]
  · exact ⟨parseDirectoryEntries front, parseDirectoryEntries back, newParse, parsed⟩

section Geometry

variable (geometry : Geometry fs) (chain : FileChain fs.fat (fs.directoryCluster dir) clusters)

include geometry chain

/-- A deletion by name acts on the entry that the name finds. -/
theorem findEntryByName_value {between : Volume} (returned : findEntryByName dir name fs = (.value located, between)) :
    between = fs ∧ findParsedEntry (parseDirectoryEntries (fs.dirSlots clusters)) name = some located := by
  rw [findEntryByName_chain geometry chain] at returned
  cases found : findParsedEntry (parseDirectoryEntries (fs.dirSlots clusters)) name with
  | none =>
    rw [found] at returned
    cases returned
  | some other =>
    rw [found] at returned
    cases returned
    exact ⟨rfl, rfl⟩

/-- A call by an unknown name changes nothing. -/
theorem find_refused (unknown : findParsedEntry (parseDirectoryEntries (fs.dirSlots clusters)) name = none) :
    unlinkFile dir name fs = (.missing, fs) ∧ removeDirectory dir name fs = (.missing, fs) := by
  have find : findEntryByName dir name fs = (.missing, fs) := by
    rw [findEntryByName_chain geometry chain, unknown]
    rfl
  exact ⟨bind_missing find _, bind_missing find _⟩

/-- An unlink deletes the entry that the name finds when it is a regular file. -/
theorem unlinkFile_found (found : findParsedEntry (parseDirectoryEntries (fs.dirSlots clusters)) name = some located) :
    unlinkFile dir name fs =
      if located.entry.isRegularFile then deleteDirectoryEntry located fs else (.missing, fs) := by
  have find : findEntryByName dir name fs = (.value located, fs) := by
    rw [findEntryByName_chain geometry chain, found]
    rfl
  rw [unlinkFile, bind_value find]
  cases located.entry.isRegularFile <;> rfl

/-- A removal deletes the entry that the name finds when it is an empty directory. -/
theorem removeDirectory_found
    (found : findParsedEntry (parseDirectoryEntries (fs.dirSlots clusters)) name = some located)
    (holds : located.entry.isDirectory = true → located.entry.getCluster ≠ 0 → isDotName located.entry.name = false →
      ∃ others, FileChain fs.fat located.entry.getCluster others) :
    removeDirectory dir name fs = (.missing, fs) ∨
      (located.entry.isDirectory = true ∧ isDotName located.entry.name = false ∧
        (∃ others, FileChain fs.fat located.entry.getCluster others ∧
          ∀ inner ∈ parseDirectoryEntries (fs.dirSlots others), isDotName inner.entry.name = true) ∧
        removeDirectory dir name fs = deleteDirectoryEntry located fs) := by
  have find : findEntryByName dir name fs = (.value located, fs) := by
    rw [findEntryByName_chain geometry chain, found]
    rfl
  rw [removeDirectory, bind_value find]
  cases refused : !located.entry.isDirectory || located.entry.getCluster == 0 || isDotName located.entry.name with
  | true => exact .inl rfl
  | false =>
    simp only [Bool.or_eq_false_iff, Bool.not_eq_false', beq_eq_false_iff_ne] at refused
    obtain ⟨⟨directory, nonzero⟩, named⟩ := refused
    obtain ⟨others, otherChain⟩ := holds directory nonzero named
    have own : fs.directoryCluster located.entry = located.entry.getCluster := if_neg nonzero
    have check : directoryIsEmpty located.entry fs = (.value ((parseDirectoryEntries (fs.dirSlots others)).all
        fun inner => isDotName inner.entry.name), fs) := by
      rw [directoryIsEmpty, get_bind, own, bind_value (loadDirectorySlots_chain geometry otherChain)]
      rfl
    cases empty : (parseDirectoryEntries (fs.dirSlots others)).all fun inner => isDotName inner.entry.name with
    | false =>
      refine .inl ((bind_value check _).trans ?_)
      rw [empty]
      rfl
    | true =>
      refine .inr ⟨directory, named, ⟨others, otherChain, List.all_eq_true.mp empty⟩, ?_⟩
      refine (bind_value check _).trans ?_
      rw [empty]
      rfl

/-- A returned unlink deletes the regular file that the name finds. -/
theorem unlinkFile_value (returned : unlinkFile dir name fs = (.value (), after)) :
    ∃ located, findParsedEntry (parseDirectoryEntries (fs.dirSlots clusters)) name = some located ∧
      located.entry.isRegularFile = true ∧ deleteDirectoryEntry located fs = (.value (), after) := by
  rw [unlinkFile, bind_eq_value_iff] at returned
  obtain ⟨located, between, find, rest⟩ := returned
  obtain ⟨rfl, found⟩ := findEntryByName_value geometry chain find
  cases regular : located.entry.isRegularFile with
  | false =>
    rw [regular] at rest
    cases rest
  | true =>
    rw [regular] at rest
    exact ⟨located, found, regular, rest⟩

/-- A returned removal deletes the empty directory that the name finds. -/
theorem removeDirectory_value (returned : removeDirectory dir name fs = (.value (), after)) :
    ∃ located, findParsedEntry (parseDirectoryEntries (fs.dirSlots clusters)) name = some located ∧
      located.entry.isDirectory = true ∧ located.entry.getCluster ≠ 0 ∧ isDotName located.entry.name = false ∧
      directoryIsEmpty located.entry fs = (.value true, fs) ∧
      deleteDirectoryEntry located fs = (.value (), after) := by
  rw [removeDirectory, bind_eq_value_iff] at returned
  obtain ⟨located, between, find, rest⟩ := returned
  obtain ⟨rfl, found⟩ := findEntryByName_value geometry chain find
  split at rest
  · cases rest
  · rename_i accepted
    simp only [Bool.or_eq_true, Bool.not_eq_true', beq_iff_eq, not_or, Bool.not_eq_false, Bool.not_eq_true] at accepted
    rw [bind_eq_value_iff] at rest
    obtain ⟨empty, state, checked, last⟩ := rest
    have same : state = between := by
      rw [directoryIsEmpty, get_bind, bind_eq_value_iff] at checked
      obtain ⟨loaded, inner, load, done⟩ := checked
      have kept := loadDirectorySlotsLoop_state (between.fat.entries + 1) (between.directoryCluster located.entry) []
        between
      rw [loadDirectorySlots, get_bind] at load
      rw [load] at kept
      rw [pure_apply, Prod.mk.injEq] at done
      exact done.2.symm.trans kept
    subst same
    cases empty with
    | false => cases last
    | true => exact ⟨located, found, accepted.1.1, accepted.1.2, accepted.2, checked, last⟩

end Geometry

end Updates

end FATFileSystem

end BubbleOs.Fat
