import BubbleOs.Proof.Fat.FileUpdate

namespace BubbleOs.Fat

open Attempt

namespace FATFileSystem

/-- The driver state shows a volume. Each access of the driver has its effect on the volume or fails without one, and
no access to a reliable disk fails. -/
structure Shows {P : Type} [Port P] (view : FATFileSystem P → Volume) (reliable : Prop) : Prop where
  clusterSize : ∀ state, state.clusterSize = (view state).clusterSize
  directoryCluster : ∀ state dir, state.directoryCluster dir = (view state).directoryCluster dir
  fat : ∀ state, state.fat = (view state).fat
  withTable : ∀ state fat, view (state.withTable fat) = (view state).withFat fat
  persistFat : ∀ {fs}, Geometry fs → Ensures view persistFat fs fun result after =>
    after.fat = fs.fat ∧ Frame fs after (fun _ => False) (fun _ => False) ∧ (reliable → result = some () ∧ Synced after)
  writeCluster : ∀ {fs cluster}, Geometry fs → 2 ≤ cluster → ∀ buffer,
    Ensures view (writeCluster cluster buffer) fs fun result after =>
      result = some true ∧ after = fs.withCluster cluster buffer ∨ result = some false ∧ after = fs ∧ ¬ reliable
  persistDirectoryEntry : ∀ {fs location}, Geometry fs → ValidLocation fs location → ∀ entry,
    Ensures view (persistDirectoryEntry location entry) fs fun result after =>
      result = some () ∧ after = fs.withSlot location entry ∨ result = none ∧ after = fs ∧ ¬ reliable
  loadDirectorySlots : ∀ {fs first clusters}, Geometry fs → ∀ chain : FatBuffer.FileChain fs.fat first clusters,
    Ensures view (loadDirectorySlots first) fs fun result after =>
      after = fs ∧ (result = some (fs.dirSlots clusters, clusters.getLast chain.ne_nil) ∨ result = none ∧ ¬ reliable)

section Counted

variable {P : Type} [Port P] {view : FATFileSystem P → Volume} {reliable : Prop}

/-- Each state is a volume on a disk that counts, and no access to a reliable disk fails. -/
def Counted (view : FATFileSystem P → Volume) (reliable : Prop) : Prop :=
  ∀ state, ∃ (fs : Volume) (place : SectorArray → Nat → P) (faults : Nat → Bool) (access : Nat), Counts place faults ∧
    state = fs.on place access ∧ (∀ after next, view (FATFileSystem.on after place next) = after) ∧
    (reliable → ∀ start count, Clear faults start count)

variable (counted : Counted view reliable)

include counted

/-- It is enough to know the call on every disk that counts. -/
theorem Counted.ensures {fs : Volume} {A : Type} {call : FsM P A} {post : Option A → Volume → Prop}
    (returns : ∀ {place : SectorArray → Nat → P} {faults : Nat → Bool}, Counts place faults →
      (reliable → ∀ start count, Clear faults start count) → ∀ access, ∃ result after next,
        call (fs.on place access) = (.ofOption result, after.on place next) ∧ post result after) :
    Ensures view call fs post := by
  refine .of_eq fun state viewed => ?_
  obtain ⟨start, place, faults, access, disk, rfl, shown, works⟩ := counted state
  obtain rfl : start = fs := (shown start access).symm.trans viewed
  obtain ⟨result, after, next, returned, holds⟩ := returns disk works access
  exact ⟨result, _, returned, by rw [shown]; exact holds⟩

theorem Counted.shows : Shows view reliable where
  clusterSize state := by
    obtain ⟨_, _, _, _, _, rfl, shown, _⟩ := counted state
    rw [shown]
    rfl
  directoryCluster state dir := by
    obtain ⟨_, _, _, _, _, rfl, shown, _⟩ := counted state
    rw [shown]
    rfl
  fat state := by
    obtain ⟨_, _, _, _, _, rfl, shown, _⟩ := counted state
    rw [shown]
    rfl
  withTable state fat := by
    obtain ⟨fs, _, _, access, _, rfl, shown, _⟩ := counted state
    rw [shown]
    exact shown (fs.withFat fat) access
  persistFat geometry := by
    refine counted.ensures fun disk works access => ?_
    obtain ⟨after, fat, frame, ⟨_, synced, returned⟩ | ⟨fails, next, returned⟩⟩ := persistFat_counted disk geometry access
    · exact ⟨some (), after, _, returned, fat, frame, fun _ => ⟨rfl, synced⟩⟩
    · exact ⟨none, after, next, returned, fat, frame, fun sure => absurd (works sure _ _) fails⟩
  writeCluster geometry low buffer := by
    refine counted.ensures fun {_ faults} disk works access => ?_
    cases fault : faults access with
    | false => exact ⟨some true, _, _, writeCluster_works disk geometry low fault buffer, .inl ⟨rfl, rfl⟩⟩
    | true =>
      refine ⟨some false, _, _, writeCluster_fails disk low fault buffer, .inr ⟨rfl, rfl, fun sure => ?_⟩⟩
      exact not_clear Nat.zero_lt_one fault (works sure access 1)
  persistDirectoryEntry geometry valid entry := by
    refine counted.ensures fun disk works access => ?_
    rcases persistDirectoryEntry_counted disk valid geometry entry access with ⟨_, returned⟩ | ⟨fails, next, returned⟩
    · exact ⟨some (), _, _, returned, .inl ⟨rfl, rfl⟩⟩
    · exact ⟨none, _, next, returned, .inr ⟨rfl, rfl, fun sure => fails (works sure _ _)⟩⟩
  loadDirectorySlots geometry chain := by
    refine counted.ensures fun disk works access => ?_
    rcases loadDirectorySlots_counted disk geometry chain access with ⟨_, returned⟩ | ⟨fails, next, returned⟩
    · exact ⟨some _, _, _, returned, rfl, .inl rfl⟩
    · exact ⟨none, _, next, returned, rfl, .inr ⟨rfl, fun sure => fails (works sure _ _)⟩⟩

end Counted

/-- The volume is the driver state over a disk that never fails. -/
theorem shows_volume : Shows (id : Volume → Volume) True :=
  Counted.shows fun state =>
    ⟨state, fun disk _ => disk, never, 0, counts_reliable, rfl, fun _ _ => rfl, fun _ => clear_never⟩

/-- A disk that fails shows the volume as it stands on the disk. -/
theorem shows_standing : Shows standing False :=
  Counted.shows fun state =>
    ⟨state.standing, _, state.port.faults, state.port.accesses, counts_faulty _, rfl, fun _ _ => rfl, False.elim⟩

section Shows

variable {P : Type} [Port P] {view : FATFileSystem P → Volume} {reliable : Prop} (disk : Shows view reliable)
  {fs : Volume} {A B : Type} {operation : Attempt FatBuffer A} {table : FatBuffer}

include disk

theorem Shows.onFat_returns {result : A} (returned : operation fs.fat = (.value result, table))
    (state : FATFileSystem P) (viewed : view state = fs) :
    ∃ reached, onFat operation state = (.value result, reached) ∧ view reached = fs.withFat table := by
  subst viewed
  rw [← disk.fat] at returned
  exact ⟨_, onFat_value returned, disk.withTable state table⟩

theorem Shows.orNone_onFat_returns {result : A} (returned : operation fs.fat = (.value result, table))
    (state : FATFileSystem P) (viewed : view state = fs) :
    ∃ reached, orNone (onFat operation) state = (.value (some result), reached) ∧ view reached = fs.withFat table := by
  obtain ⟨reached, returned, shown⟩ := disk.onFat_returns returned state viewed
  exact ⟨reached, orNone_value returned, shown⟩

/-- A refused operation on the table changes nothing. -/
theorem Shows.onFat_refused {next : A → FsM P B} {post : Option B → Volume → Prop}
    (refused : operation fs.fat = (.missing, fs.fat)) (holds : post none fs) :
    Ensures view (onFat operation >>= next) fs post := by
  rintro state rfl
  rw [← disk.fat] at refused
  rw [bind_missing (onFat_value refused)]
  refine ⟨none, rfl, ?_⟩
  rw [disk.withTable, disk.fat]
  exact holds

end Shows

end FATFileSystem

open FatBuffer DirectoryEntry
open FatBuffer (FileChain)

/-- Every slot after the first end marker is an end marker. -/
def EndsClean (slots : List Slot) : Prop :=
  ∀ slot ∈ slots.dropWhile (fun slot => !slot.1.isEndMarker), slot.1.isEndMarker = true

instance (slots : List Slot) : Decidable (EndsClean slots) := inferInstanceAs (Decidable (∀ slot ∈ _, _))

/-- The driver may overwrite a deleted slot or an end marker. -/
def isFreeSlot (slot : Slot) : Bool := slot.1.isDeleted || slot.1.isEndMarker

/-- A slot before the end marker does not decide how the list ends. -/
theorem endsClean_cons {slot : Slot} {rest : List Slot} (used : slot.1.isEndMarker = false) :
    EndsClean (slot :: rest) ↔ EndsClean rest := by
  simp [EndsClean, used]

/-- Only end markers follow an end marker. -/
theorem endsClean_cons_end {slot : Slot} {rest : List Slot} (ended : slot.1.isEndMarker = true) :
    EndsClean (slot :: rest) ↔ ∀ later ∈ rest, later.1.isEndMarker = true := by
  simp [EndsClean, ended]

theorem endsClean_append {first second : List Slot} (used : ∀ slot ∈ first, slot.1.isEndMarker = false) :
    EndsClean (first ++ second) ↔ EndsClean second := by
  induction first with
  | nil => rfl
  | cons slot rest ih =>
    rw [List.cons_append, endsClean_cons (used slot List.mem_cons_self),
      ih fun other member => used other (List.mem_cons_of_mem _ member)]

/-- A list of end markers ends cleanly. -/
theorem endsClean_of_all {slots : List Slot} (ended : ∀ slot ∈ slots, slot.1.isEndMarker = true) :
    EndsClean slots := by
  intro slot member
  exact ended slot (List.dropWhile_suffix _ |>.subset member)

/-- More end markers keep a clean end. -/
theorem EndsClean.append_ends {slots ends : List Slot} (clean : EndsClean slots)
    (ended : ∀ slot ∈ ends, slot.1.isEndMarker = true) : EndsClean (slots ++ ends) := by
  induction slots with
  | nil => exact endsClean_of_all ended
  | cons slot rest ih =>
    cases here : slot.1.isEndMarker with
    | false =>
      rw [List.cons_append, endsClean_cons here]
      exact ih ((endsClean_cons here).mp clean)
    | true =>
      rw [List.cons_append, endsClean_cons_end here]
      intro later member
      rcases List.mem_append.mp member with left | right
      · exact (endsClean_cons_end here).mp clean later left
      · exact ended later right

namespace FATFileSystem

variable {needed : Nat} {fs : Volume} {dir : Nat} {clusters : List Nat} {before between after : Volume}

/-- The scan returns consecutive free slots behind slots that are no end markers. -/
theorem scanSlots_loop (needed : Nat) (slots : List Slot) (past : Bool) (done run : List Slot)
    (short : run.length < needed) (used : ∀ slot ∈ done, slot.1.isEndMarker = false)
    (free : ∀ slot ∈ run, isFreeSlot slot = true)
    (clean : if past then ∀ slot ∈ slots, slot.1.isEndMarker = true
      else EndsClean slots ∧ ∀ slot ∈ run, slot.1.isEndMarker = false) :
    ∃ before taken after, done ++ run ++ slots = before ++ taken ++ after ∧
      (∀ slot ∈ before, slot.1.isEndMarker = false) ∧ (∀ slot ∈ taken, isFreeSlot slot = true) ∧
      ((scanSlots needed slots past (run.map Prod.snd) = .inl (taken.map Prod.snd) ∧ taken.length = needed) ∨
        (scanSlots needed slots past (run.map Prod.snd) = .inr (taken.map Prod.snd) ∧ taken.length < needed ∧
          after = [])) := by
  induction slots generalizing past done run with
  | nil => exact ⟨done, run, [], rfl, used, free, .inr ⟨rfl, short, rfl⟩⟩
  | cons slot rest ih =>
    have taken : run.map Prod.snd ++ [slot.2] = (run ++ [slot]).map Prod.snd := by simp
    have size : (run.map Prod.snd ++ [slot.2]).length = (run ++ [slot]).length := by simp
    by_cases isFree : (past || slot.1.isEndMarker || slot.1.isDeleted) = true
    · have marked : isFreeSlot slot = true := by
        cases past with
        | true =>
          simp only [if_true] at clean
          simp [isFreeSlot, clean slot List.mem_cons_self]
        | false =>
          simp only [Bool.false_or, Bool.or_eq_true] at isFree
          simpa [isFreeSlot, or_comm] using isFree
      have freeMore : ∀ other ∈ run ++ [slot], isFreeSlot other = true := by
        intro other member
        rcases List.mem_append.mp member with left | right
        · exact free other left
        · rw [List.mem_singleton.mp right]
          exact marked
      by_cases full : (run ++ [slot]).length = needed
      · refine ⟨done, run ++ [slot], rest, by simp, used, freeMore, .inl ⟨?_, full⟩⟩
        rw [scanSlots]
        simp only [isFree, if_true]
        rw [if_pos (size.trans full), taken]
      · have less : (run ++ [slot]).length < needed := by
          rw [List.length_append, List.length_singleton] at full ⊢
          omega
        have step : scanSlots needed (slot :: rest) past (run.map Prod.snd) =
            scanSlots needed rest (past || slot.1.isEndMarker) ((run ++ [slot]).map Prod.snd) := by
          rw [scanSlots]
          simp only [isFree, if_true]
          rw [if_neg (by rw [size]; exact full), taken]
        obtain ⟨before, found, after, split, result⟩ := ih (past || slot.1.isEndMarker) done (run ++ [slot]) less
          used freeMore (by
            cases past with
            | true =>
              simp only [Bool.true_or, if_true] at clean ⊢
              exact fun other member => clean other (List.mem_cons_of_mem _ member)
            | false =>
              cases here : slot.1.isEndMarker with
              | true =>
                simp only [Bool.or_true, if_true]
                exact (endsClean_cons_end here).mp clean.1
              | false =>
                simp only [Bool.or_false, Bool.false_eq_true, if_false] at clean ⊢
                refine ⟨(endsClean_cons here).mp clean.1, ?_⟩
                intro other member
                rcases List.mem_append.mp member with left | right
                · exact clean.2 other left
                · rw [List.mem_singleton.mp right]
                  exact here)
        refine ⟨before, found, after, ?_, ?_⟩
        · rw [← split]
          simp
        · rw [step]
          exact result
    · simp only [Bool.or_eq_true, not_or, Bool.not_eq_true] at isFree
      obtain ⟨⟨rfl, notEnd⟩, notDeleted⟩ := isFree
      simp only [Bool.false_eq_true, if_false] at clean
      have step : scanSlots needed (slot :: rest) false (run.map Prod.snd) = scanSlots needed rest false [] := by
        rw [scanSlots]
        simp [notEnd, notDeleted]
      obtain ⟨before, found, after, split, result⟩ := ih false (done ++ run ++ [slot]) [] (by simp; omega)
        (by
          intro other member
          simp only [List.mem_append, List.mem_singleton] at member
          rcases member with (left | left) | rfl
          · exact used other left
          · exact clean.2 other left
          · exact notEnd)
        (by simp) (by simpa using (endsClean_cons notEnd).mp clean.1)
      refine ⟨before, found, after, ?_, ?_⟩
      · rw [← split]
        simp
      · rw [step]
        exact result

/-- The scan of a directory returns consecutive free slots. -/
theorem scanSlots_spec (positive : 0 < needed) {slots : List Slot} (clean : EndsClean slots) :
    ∃ before taken after, slots = before ++ taken ++ after ∧
      (∀ slot ∈ before, slot.1.isEndMarker = false) ∧ (∀ slot ∈ taken, isFreeSlot slot = true) ∧
      ((scanSlots needed slots false [] = .inl (taken.map Prod.snd) ∧ taken.length = needed) ∨
        (scanSlots needed slots false [] = .inr (taken.map Prod.snd) ∧ taken.length < needed ∧ after = [])) :=
  scanSlots_loop needed slots false [] [] positive (by simp) (by simp) (by simpa using clean)

/-- The directory gained empty clusters at its end, and only free clusters got new bytes. -/
structure Lengthened (before after : Volume) (dir : Nat) (clusters fresh : List Nat) : Prop where
  frame : Frame before after (fun cluster => cluster ∈ clusters ∨ cluster ∈ fresh)
    (fun cluster => before.fat.word cluster = 0)
  chain : FatBuffer.FileChain after.fat dir (clusters ++ fresh)
  free : ∀ cluster ∈ fresh, before.fat.word cluster = 0
  zero : ∀ cluster ∈ fresh, after.clusterBytes cluster = List.replicate before.clusterSize 0

/-- The longer directory is saved in every copy of the table. -/
structure Extended (before after : Volume) (dir : Nat) (clusters fresh : List Nat) : Prop
    extends Lengthened before after dir clusters fresh where
  synced : Synced before → Synced after

theorem Lengthened.refl (chain : FileChain fs.fat dir clusters) : Lengthened fs fs dir clusters [] where
  frame := .refl _ _ _
  chain := by rwa [List.append_nil]
  free _ member := by simp at member
  zero _ member := by simp at member

/-- A slot of zeros is an end marker. -/
theorem isEndMarker_readAt_zeros (size offset : Nat) :
    (readAt (List.replicate size 0) offset).isEndMarker = true := by
  have first : (readAt (List.replicate size 0) offset).firstByte = 0 := by
    simp only [firstByte, readAt, List.drop_replicate, Bytes.fill, List.take_replicate,
      ← List.replicate_add]
    rw [List.getD_eq_getElem?_getD, List.getElem?_replicate]
    split <;> rfl
  rw [isEndMarker, first]
  rfl

/-- A cluster of zeros holds only end markers. -/
theorem isEndMarker_of_zero {location : DirectoryEntryLocation} {size : Nat}
    (zero : fs.clusterBytes location.cluster = List.replicate size 0) : (fs.entryAt location).isEndMarker = true := by
  rw [entryAt, zero]
  exact isEndMarker_readAt_zeros size location.offset

/-- The root directory of the fresh volume is one cluster. -/
theorem fileChain_freshVolume : FileChain freshVolume.fat 2 [2] where
  chain := .last (by decide +kernel)
  inside := by decide +kernel
  used := by decide +kernel

/-- The root directory of the fresh volume holds only end markers. -/
theorem ends_freshVolume : ∀ slot ∈ freshVolume.dirSlots [2], slot.1.isEndMarker = true := by
  have zero : freshVolume.clusterBytes 2 = List.replicate 512 0 := by decide +kernel
  intro slot member
  obtain ⟨location, inside, rfl⟩ := List.mem_map.mp member
  have same : location.cluster = 2 := List.mem_singleton.mp (mem_directoryLocations.mp inside).1
  exact isEndMarker_of_zero (by rw [same, zero])

/-- The new slots of an extended directory are end markers. -/
theorem Lengthened.dirSlots_eq {before after : Volume} {clusters fresh : List Nat}
    (extended : Lengthened before after dir clusters fresh) (chain : FileChain before.fat dir clusters) :
    ∃ ends, after.dirSlots (clusters ++ fresh) = before.dirSlots clusters ++ ends ∧
      ends = after.dirSlots fresh ∧ ∀ slot ∈ ends, slot.1.isEndMarker = true := by
  refine ⟨after.dirSlots fresh, ?_, rfl, ?_⟩
  · rw [dirSlots_append, extended.frame.dirSlots_eq chain.low]
    exact chain.used
  · intro slot member
    obtain ⟨location, inside, rfl⟩ := List.mem_map.mp member
    exact isEndMarker_of_zero (extended.zero _ (mem_directoryLocations.mp inside).1)

/-- A cluster that is free after an extension was free before it. -/
theorem Lengthened.free_of_free {before after : Volume} {clusters fresh : List Nat}
    (extended : Lengthened before after dir clusters fresh) {cluster : Nat} (free : after.fat.word cluster = 0) :
    before.fat.word cluster = 0 := by
  rw [← extended.frame.word cluster, free]
  intro inside
  exact extended.chain.used cluster (List.mem_append.mpr inside) free

/-- Two extensions of a directory are one extension. -/
theorem Lengthened.trans {clusters first second : List Nat} (earlier : Lengthened before between dir clusters first)
    (later : Lengthened between after dir (clusters ++ first) second) :
    Lengthened before after dir clusters (first ++ second) where
  frame := by
    refine (earlier.frame.mono ?_ (fun _ => id)).trans (later.frame.mono ?_ ?_)
    · rintro cluster (inside | inside)
      · exact .inl inside
      · exact .inr (List.mem_append_left _ inside)
    · rintro cluster (inside | inside)
      · rcases List.mem_append.mp inside with left | right
        · exact .inl left
        · exact .inr (List.mem_append_left _ right)
      · exact .inr (List.mem_append_right _ inside)
    · exact fun cluster => earlier.free_of_free
  chain := by
    have chain := later.chain
    rwa [List.append_assoc] at chain
  free cluster member := by
    rcases List.mem_append.mp member with left | right
    · exact earlier.free cluster left
    · exact earlier.free_of_free (later.free cluster right)
  zero cluster member := by
    by_cases right : cluster ∈ second
    · rw [later.zero cluster right, earlier.frame.clusterSize_eq]
    · rcases List.mem_append.mp member with left | absurd_
      · have inFirst : cluster ∈ clusters ++ first := List.mem_append_right _ left
        rw [later.frame.data cluster (earlier.chain.inside cluster inFirst).1 (earlier.chain.used cluster inFirst),
          earlier.zero cluster left]
      · exact absurd absurd_ right

/-- The directory is longer by a cluster of zeros. -/
theorem lengthened_of_continued {table : FatBuffer} {kept : List Nat} {last new : Nat}
    (continued : Continued fs.fat table dir (kept ++ [last]) [new])
    (frame : Frame (fs.withFat table) after (fun _ => False) (· = new)) (fat : after.fat = table)
    (zero : after.clusterBytes new = List.replicate fs.clusterSize 0) :
    Lengthened fs after dir (kept ++ [last]) [new] where
  frame := by
    have linkFrame : Frame fs (fs.withFat table) (fun cluster => cluster ∈ kept ++ [last] ∨ cluster ∈ [new])
        (fun _ => False) := by
      refine frame_withFat continued.size ?_ _
      intro cluster outside
      rw [not_or] at outside
      refine continued.rest cluster outside.2 ?_
      intro front same
      exact outside.1 (by rw [same]; simp)
    refine (linkFrame.mono (fun _ => id) fun _ => False.elim).trans (frame.mono (fun _ => False.elim) ?_)
    rintro cluster rfl
    exact continued.free cluster (by simp)
  chain := by
    rw [fat]
    exact continued.chain
  free := continued.free
  zero cluster member := by
    rw [List.mem_singleton.mp member]
    exact zero

/-- The rolled back directory has its old clusters. -/
theorem lengthened_of_rollback {table : FatBuffer} {kept : List Nat} {last new : Nat}
    (chain : FileChain fs.fat dir (kept ++ [last]))
    (continued : Continued fs.fat table dir (kept ++ [last]) [new])
    (frame : Frame (fs.withFat table) after (fun _ => True) (fun _ => False)) (fat : after.fat = table.cut last [new]) :
    Lengthened fs after dir (kept ++ [last]) [] where
  frame := by
    have inside := (chain.inside last (by simp)).2
    refine ⟨frame.bs, frame.bs32, frame.size.trans continued.size, ?_, fun cluster low _ => frame.data cluster low id⟩
    intro cluster outside
    rw [fat, continued.cut_eq, word_assign _ _ _ _ inside, if_neg]
    rintro rfl
    exact outside (.inl (by simp))
  chain := by
    have grown := continued.chain
    rw [List.append_assoc, List.singleton_append] at grown
    rw [fat, List.append_nil]
    exact grown.cut
  free _ member := absurd member List.not_mem_nil
  zero _ member := absurd member List.not_mem_nil

/-- A cluster holds at least one slot. -/
theorem Geometry.slots_pos (geometry : Geometry fs) : 0 < fs.clusterSize / entrySize := by
  have positive := geometry.clusters
  rw [geometry.clusterSize_eq, sectorSize, entrySize]
  omega

/-- The free slots at the end of a directory continue in its new clusters. -/
theorem Lengthened.freeRun {fs after : Volume} {clusters fresh : List Nat}
    (lengthened : Lengthened fs after dir clusters fresh) (chain : FileChain fs.fat dir clusters)
    {front run : List Slot} (split : fs.dirSlots clusters = front ++ run)
    (free : ∀ slot ∈ run, isFreeSlot slot = true) (short : run.length < needed)
    (room : needed - run.length ≤ (fs.directoryLocations fresh).length) :
    ∃ taken back, run.map Prod.snd ++ (fs.directoryLocations fresh).take (needed - run.length) = taken.map Prod.snd ∧
      after.dirSlots (clusters ++ fresh) = front ++ taken ++ back ∧ taken.length = needed ∧
      ∀ slot ∈ taken, isFreeSlot slot = true := by
  obtain ⟨ends, slots, ends_eq, ended⟩ := lengthened.dirSlots_eq chain
  have places : ends.map Prod.snd = fs.directoryLocations fresh := by
    rw [ends_eq, map_snd_dirSlots, directoryLocations, directoryLocations, lengthened.frame.clusterSize_eq]
  refine ⟨run ++ ends.take (needed - run.length), ends.drop (needed - run.length), ?_, ?_, ?_, ?_⟩
  · rw [List.map_append, List.map_take, places]
  · rw [slots, split, List.append_assoc, List.append_assoc, List.append_assoc, List.take_append_drop]
  · rw [← places, List.length_map] at room
    rw [List.length_append, List.length_take]
    omega
  · intro slot member
    rcases List.mem_append.mp member with left | right
    · exact free slot left
    · simp [isFreeSlot, ended slot (List.mem_of_mem_take right)]

section Shows

variable {P : Type} [Port P] {view : FATFileSystem P → Volume} {reliable : Prop} (disk : Shows view reliable)

include disk

/-- A cluster is overwritten with bytes that depend on its size. -/
theorem ensures_writeWhole (geometry : Geometry fs) {cluster : Nat} (low : 2 ≤ cluster) (buffer : Nat → List UInt8) :
    Ensures view (do
      let state ← get
      writeCluster cluster (buffer state.clusterSize)) fs fun result after =>
        result = some true ∧ after = fs.withCluster cluster (buffer fs.clusterSize) ∨
          result = some false ∧ after = fs ∧ ¬ reliable := by
  refine .get_bind fun state viewed => ?_
  rw [disk.clusterSize, viewed]
  exact disk.writeCluster geometry low _

/-- The rollback of a link cuts the new cluster from the directory. -/
theorem ensures_unlink (geometry : Geometry fs) {kept : List Nat} {last new : Nat}
    (chain : FileChain fs.fat dir (kept ++ last :: [new])) :
    Ensures view (do
      let _ ← orNone (onFat (set last fatClusterEof))
      let _ ← orNone (onFat (freeChain new))
      let _ ← orNone persistFat
      fail : FsM P Nat) fs fun result after =>
        result = none ∧ after.fat = fs.fat.cut last [new] ∧ Frame fs after (fun _ => True) (fun _ => False) := by
  have inside := (chain.inside last (by simp)).2
  have cutFrame : Frame fs (fs.withFat (fs.fat.cut last [new])) (fun _ => True) (fun _ => False) :=
    frame_withFat (entries_cut _ _ _) (fun _ outside => absurd trivial outside) _
  have freed : freeChain new (fs.withFat (fs.fat.assign last fatClusterEof)).fat =
      (.value (), fs.fat.cut last [new]) := freeChain_rest chain
  refine .value_bind (disk.orNone_onFat_returns (set_apply _ _ _ inside))
    (.value_bind (disk.orNone_onFat_returns freed) ?_)
  refine .orNone_bind (disk.persistFat (cutFrame.geometry geometry)) ?_
  rintro _ after ⟨fat, frame, _⟩
  exact .fail ⟨rfl, fat, cutFrame.trans (frame.mono (fun _ => False.elim) fun _ => id)⟩

/-- A failed append leaves the directory as it was, and a successful one adds a cluster of zeros. -/
theorem ensures_appendDirectoryCluster (geometry : Geometry fs) (chain : FileChain fs.fat dir clusters) :
    Ensures view (appendDirectoryCluster (clusters.getLast chain.ne_nil)) fs fun result after =>
      Lengthened fs after dir clusters result.toList ∧ (reliable → Synced fs → Synced after) := by
  have split := List.dropLast_append_getLast chain.ne_nil
  generalize clusters.getLast chain.ne_nil = last at split
  generalize clusters.dropLast = kept at split
  subst split
  rcases allocateChain_one geometry.limit with ⟨only, fat, returned, allocated⟩ | missing
  · have continued := continued_of_allocated geometry.limit chain allocated
    have inside : last < fat.entries := by
      rw [allocated.size]
      exact (chain.inside last (by simp)).2
    have linkFrame : Frame fs (fs.withFat (fat.assign last (UInt32.ofNat only))) (fun _ => True) (fun _ => False) :=
      frame_withFat continued.size (fun _ outside => absurd trivial outside) _
    have linkGeometry := linkFrame.geometry geometry
    have low := allocated.chain.low only (by simp)
    refine .value_bind (disk.onFat_returns returned)
      (.value_bind (disk.orNone_onFat_returns (set_apply _ _ _ inside)) ?_)
    refine .orNone_bind (disk.persistFat linkGeometry) ?_
    rintro persisted saved ⟨savedFat, savedFrame, works⟩
    have savedGeometry := savedFrame.geometry linkGeometry
    have size : saved.clusterSize = fs.clusterSize := savedFrame.clusterSize_eq
    have finish (cleared : Bool) (after : Volume)
        (outcome : (some cleared = some true ∧ after = saved.withCluster only (List.replicate saved.clusterSize 0)) ∨
          (some cleared = some false ∧ after = saved ∧ ¬ reliable)) :
        Ensures view (if cleared = true then pure only
          else do
            let _ ← orNone (onFat (set last fatClusterEof))
            let _ ← orNone (onFat (freeChain only))
            let _ ← orNone persistFat
            fail : FsM P Nat) after fun result after =>
              Lengthened fs after dir (kept ++ [last]) result.toList ∧ (reliable → Synced fs → Synced after) := by
      rcases outcome with ⟨done, rfl⟩ | ⟨done, rfl, faulty⟩
      · obtain rfl := Option.some.inj done
        have zeros : (List.replicate saved.clusterSize (0 : UInt8)).length = saved.clusterSize := List.length_replicate
        refine .pure ⟨lengthened_of_continued continued ?_ savedFat ?_, fun reliable _ => ?_⟩
        · exact (savedFrame.mono (fun _ => id) fun _ => False.elim).trans (frame_withCluster savedGeometry low zeros)
        · rw [clusterBytes_withCluster savedGeometry low low zeros, if_pos rfl, size]
        · exact synced_withCluster savedGeometry (works reliable).2 _ _
      · obtain rfl := Option.some.inj done
        have grown := continued.chain
        rw [List.append_assoc, List.singleton_append] at grown
        refine .mono (ensures_unlink disk savedGeometry (by rw [savedFat]; exact grown)) ?_
        rintro _ final ⟨rfl, finalFat, frame⟩
        refine ⟨lengthened_of_rollback chain continued ?_ (by rw [finalFat, savedFat]; rfl), fun reliable =>
          absurd reliable faulty⟩
        exact (savedFrame.mono (fun _ _ => trivial) fun _ => id).trans frame
    cases persisted with
    | none => exact finish false saved (.inr ⟨rfl, rfl, fun reliable => by cases (works reliable).1⟩)
    | some => exact .bind (ensures_writeWhole disk savedGeometry low fun size => List.replicate size 0) (by simp) finish
  · exact disk.onFat_refused missing ⟨.refl chain, fun _ => id⟩

/-- The loop leaves a longer directory in every case. -/
theorem ensures_extendRun (needed fuel : Nat) (geometry : Geometry fs) (chain : FileChain fs.fat dir clusters)
    (run : List DirectoryEntryLocation) (enough : needed - run.length < fuel) :
    Ensures view (extendRun needed fuel (clusters.getLast chain.ne_nil) run) fs fun result after =>
      ∃ fresh, (Lengthened fs after dir clusters fresh ∧ (reliable → Synced fs → Synced after)) ∧
        ∀ found, result = some found → found = run ++ (fs.directoryLocations fresh).take (needed - run.length) ∧
          needed - run.length ≤ (fs.directoryLocations fresh).length := by
  induction fuel generalizing fs clusters run with
  | zero => omega
  | succ fuel ih =>
    rw [extendRun]
    by_cases short : run.length < needed
    · rw [if_pos short]
      refine .bind (ensures_appendDirectoryCluster disk geometry chain) ?_ ?_
      · exact fun after lengthened => ⟨[], lengthened, fun _ absurd_ => by cases absurd_⟩
      · rintro cluster between ⟨lengthened, synced⟩
        change Lengthened fs between dir clusters [cluster] at lengthened
        refine .get_bind fun state viewed => ?_
        have positive := geometry.slots_pos
        have last : (clusters ++ [cluster]).getLast lengthened.chain.ne_nil = cluster := List.getLast_concat
        have locations : (List.range (state.clusterSize / entrySize)).map (slotLocation cluster) =
            fs.directoryLocations [cluster] := by
          rw [disk.clusterSize, viewed, lengthened.frame.clusterSize_eq, directoryLocations, List.flatMap_singleton]
        have size : (fs.directoryLocations [cluster]).length = fs.clusterSize / entrySize := by
          rw [directoryLocations, List.flatMap_singleton, List.length_map, List.length_range]
        have later := ih (lengthened.frame.geometry geometry) lengthened.chain
          (run ++ (fs.directoryLocations [cluster]).take (needed - run.length))
          (by rw [List.length_append, List.length_take, size]; omega)
        rw [last, ← locations] at later
        refine later.mono ?_
        rintro result after ⟨fresh, ⟨more, moreSynced⟩, found⟩
        refine ⟨[cluster] ++ fresh, ⟨lengthened.trans more, fun works => moreSynced works ∘ synced works⟩, ?_⟩
        intro places same
        obtain ⟨placed, room⟩ := found places same
        have amount : needed - (run ++ (fs.directoryLocations [cluster]).take (needed - run.length)).length =
            needed - run.length - (fs.directoryLocations [cluster]).length := by
          rw [List.length_append, List.length_take]
          omega
        have unchanged : between.directoryLocations fresh = fs.directoryLocations fresh := by
          rw [directoryLocations, directoryLocations, lengthened.frame.clusterSize_eq]
        rw [locations, unchanged, amount] at placed
        rw [locations, unchanged, amount] at room
        refine ⟨?_, ?_⟩
        · rw [placed, directoryLocations_append, List.take_append, List.append_assoc]
        · rw [directoryLocations_append, List.length_append]
          omega
    · rw [if_neg short]
      refine .pure ⟨[], ⟨.refl chain, fun _ => id⟩, ?_⟩
      intro found same
      obtain rfl := Option.some.inj same
      rw [show needed - run.length = 0 by omega, List.take_zero, List.append_nil]
      exact ⟨rfl, Nat.zero_le _⟩

/-- The driver finds free slots, possibly in new clusters, or it leaves a longer directory. -/
theorem ensures_allocateDirectorySlots (geometry : Geometry fs) (chain : FileChain fs.fat dir clusters)
    (clean : EndsClean (fs.dirSlots clusters)) (positive : 0 < needed) :
    Ensures view (allocateDirectorySlots dir needed) fs fun result after =>
      ∃ fresh, (Lengthened fs after dir clusters fresh ∧ (reliable → Synced fs → Synced after)) ∧
        ∀ found, result = some found → ∃ front run back, found = run.map Prod.snd ∧
          after.dirSlots (clusters ++ fresh) = front ++ run ++ back ∧ run.length = needed ∧
          (∀ slot ∈ front, slot.1.isEndMarker = false) ∧ ∀ slot ∈ run, isFreeSlot slot = true := by
  obtain ⟨front, run, back, split, used, free, scan⟩ := scanSlots_spec positive clean
  refine .bind (disk.loadDirectorySlots geometry chain) ?_ ?_
  · rintro after ⟨rfl, _⟩
    exact ⟨[], ⟨.refl chain, fun _ => id⟩, fun _ absurd_ => by cases absurd_⟩
  · rintro loaded after ⟨rfl, content | ⟨absurd_, _⟩⟩
    · rw [Option.some.inj content]
      rcases scan with ⟨found, length⟩ | ⟨found, length, rfl⟩
      · rw [found]
        refine .pure ⟨[], ⟨.refl chain, fun _ => id⟩, ?_⟩
        intro places same
        obtain rfl := Option.some.inj same
        exact ⟨front, run, back, rfl, by rw [List.append_nil, split], length, used, free⟩
      · rw [found]
        refine .get_bind fun state _ => ?_
        refine (ensures_extendRun disk needed _ geometry chain (run.map Prod.snd) (by omega)).mono ?_
        rintro result after ⟨fresh, lengthened, places⟩
        refine ⟨fresh, lengthened, ?_⟩
        intro chosen same
        obtain ⟨placed, room⟩ := places chosen same
        rw [List.append_nil] at split
        rw [List.length_map] at room placed
        obtain ⟨taken, back, taking, slots, count, takenFree⟩ := lengthened.1.freeRun chain split free length room
        exact ⟨front, taken, back, placed.trans taking, slots, count, used, takenFree⟩
    · cases absurd_

end Shows

end FATFileSystem

end BubbleOs.Fat
