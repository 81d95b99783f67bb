import BubbleOs.Proof.Fat.Names
import BubbleOs.Proof.Fat.Operations

namespace BubbleOs.Fat

open Attempt Text FATFileSystem

/-- A plain name is stored as a long filename, or is ASCII text without a final dot. -/
def PlainName [Unicode] (name : List Char) : Prop :=
  getFatFilename name = none ∨ (name.all isAscii = true ∧ endsWith name '.' = false)

instance [Unicode] (name : List Char) : Decidable (PlainName name) := inferInstanceAs (Decidable (_ ∨ _))

theorem eqIgnoreAsciiCase_symm {first second : List Char} (same : eqIgnoreAsciiCase first second = true) :
    eqIgnoreAsciiCase second first = true := by
  rw [eqIgnoreAsciiCase, beq_iff_eq] at same ⊢
  exact same.symm

theorem eqIgnoreAsciiCase_trans {first second third : List Char} (same : eqIgnoreAsciiCase first second = true)
    (next : eqIgnoreAsciiCase second third = true) : eqIgnoreAsciiCase first third = true := by
  rw [eqIgnoreAsciiCase, beq_iff_eq] at same next ⊢
  exact same.trans next

section Unique

variable [Unicode] {made : List (List Char × LocatedDirectoryEntry)} {parsed newParsed : List LocatedDirectoryEntry}
  {name : List Char} {located : LocatedDirectoryEntry}

/-- The parsed list has one entry more, and its name was free. -/
structure Created (parsed newParsed : List LocatedDirectoryEntry) (name : List Char)
    (located : LocatedDirectoryEntry) : Prop where
  free : findParsedEntry parsed name = none
  prepared : ∃ lfns, prepareNameEntries parsed name = some (located.entry.name, lfns) ∧
    located.name = if lfns.isEmpty then getFilenameFromFat located.entry.name else name
  inserted : ∃ before rest, parsed = before ++ rest ∧ newParsed = before ++ [located] ++ rest

/-- Every made entry is the only one that its name finds. -/
structure UniqueNames (parsed : List LocatedDirectoryEntry) (made : List (List Char × LocatedDirectoryEntry)) :
    Prop where
  distinct : (parsed.map fun located => located.entry.name).Nodup
  listed : ∀ record ∈ made, record.2 ∈ parsed
  found : ∀ record ∈ made, matchesName record.2 record.1 = true
  short : ∀ record ∈ made, ∀ shortName, getFatFilename record.1 = some shortName → record.2.entry.name = shortName
  only : ∀ record ∈ made, ∀ other ∈ parsed, other ≠ record.2 → matchesName other record.1 = false

/-- Names that differ only in case match the same entries. -/
theorem matchesName_congr {first second : List Char} (same : eqIgnoreAsciiCase first second = true)
    (candidate : LocatedDirectoryEntry) : matchesName candidate first = matchesName candidate second := by
  rw [eqIgnoreAsciiCase, beq_iff_eq] at same
  rw [matchesName, matchesName, eqIgnoreAsciiCase, eqIgnoreAsciiCase, eqIgnoreAsciiCase, eqIgnoreAsciiCase, same]

/-- A made name finds its entry. -/
theorem UniqueNames.find {parsed : List LocatedDirectoryEntry} (unique : UniqueNames parsed made)
    {record : List Char × LocatedDirectoryEntry} (member : record ∈ made) :
    findParsedEntry parsed record.1 = some record.2 := by
  cases result : findParsedEntry parsed record.1 with
  | none =>
    rw [findParsedEntry, List.find?_eq_none] at result
    exact absurd (unique.found record member) (result record.2 (unique.listed record member))
  | some other =>
    by_contra different
    have listed := List.mem_of_find?_eq_some result
    have matched := List.find?_some result
    rw [unique.only record member other listed fun same => different (by rw [same])] at matched
    contradiction

/-- The new entry of a plain name matches it and has its short name, and its alias matches no made name. -/
theorem Created.facts (created : Created parsed newParsed name located) (plain : PlainName name) :
    matchesName located name = true ∧
      (∀ shortName, getFatFilename name = some shortName → located.entry.name = shortName) ∧
      (∀ other ∈ parsed, other.entry.name ≠ located.entry.name) ∧
      ∀ target, matchesName located target = true → eqIgnoreAsciiCase name target = true ∨
        (getFatFilename target = some located.entry.name) := by
  obtain ⟨lfns, prepared, decoded⟩ := created.prepared
  have free (other : LocatedDirectoryEntry) (member : other ∈ parsed) : matchesName other name = false := by
    have none := created.free
    rw [findParsedEntry, List.find?_eq_none] at none
    simpa using none other member
  cases accepted : getFatFilename name with
  | some shortName =>
    rw [prepareNameEntries, accepted, Option.some.injEq, Prod.mk.injEq] at prepared
    obtain ⟨rfl, rfl⟩ := prepared
    rw [List.isEmpty_nil, if_pos rfl] at decoded
    rw [PlainName, accepted] at plain
    obtain ⟨ascii, noDot⟩ := plain.resolve_left (by simp)
    have same := matches_short accepted ascii noDot
    refine ⟨?_, ?_, ?_, ?_⟩
    · rw [matchesName, same, Bool.or_true]
    · intro other equal
      exact Option.some.inj equal
    · intro other member equal
      have matched := free other member
      rw [matchesName, equal, same, Bool.or_true] at matched
      contradiction
    · intro target matched
      rw [matchesName, decoded, Bool.or_self] at matched
      exact .inl (eqIgnoreAsciiCase_trans (eqIgnoreAsciiCase_symm same) matched)
  | none =>
    have named : located.name = name := by
      rw [decoded, isEmpty_prepareNameEntries accepted prepared, if_neg (by decide)]
    rw [prepareNameEntries, accepted] at prepared
    simp only [Option.bind_eq_bind, Option.bind_eq_some_iff] at prepared
    obtain ⟨units, encoded, chosen, generated, same⟩ := prepared
    rw [Option.some.injEq, Prod.mk.injEq] at same
    obtain ⟨rfl, rfl⟩ := same
    refine ⟨?_, by simp, ?_, ?_⟩
    · rw [matchesName, named, Bool.or_eq_true]
      exact .inl (by rw [eqIgnoreAsciiCase, beq_iff_eq])
    · intro other member equal
      obtain ⟨_, _, _, _, fresh⟩ := findAlias_eq_some generated
      exact fresh (equal ▸ List.mem_map_of_mem member)
    · intro target matched
      rw [matchesName, named, Bool.or_eq_true] at matched
      exact matched.imp_right fun aliased => getFatFilename_of_alias generated aliased

/-- The entries after a creation are the old ones and the new one. -/
theorem Created.mem_iff (created : Created parsed newParsed name located) (other : LocatedDirectoryEntry) :
    other ∈ newParsed ↔ other = located ∨ other ∈ parsed := by
  obtain ⟨before, rest, rfl, rfl⟩ := created.inserted
  simp only [List.mem_append, List.mem_singleton]
  tauto

/-- A plain creation keeps the names unique. -/
theorem UniqueNames.create (unique : UniqueNames parsed made) (created : Created parsed newParsed name located)
    (plain : PlainName name) : UniqueNames newParsed (made ++ [(name, located)]) := by
  obtain ⟨matched, short, fresh, others⟩ := created.facts plain
  have free (other : LocatedDirectoryEntry) (member : other ∈ parsed) : matchesName other name = false := by
    have none := created.free
    rw [findParsedEntry, List.find?_eq_none] at none
    simpa using none other member
  constructor
  case distinct =>
    obtain ⟨before, rest, rfl, rfl⟩ := created.inserted
    have moved : (before ++ [located] ++ rest).Perm (located :: (before ++ rest)) := by
      rw [List.append_assoc]
      exact List.perm_middle
    rw [(moved.map _).nodup_iff, List.map_cons, List.nodup_cons]
    refine ⟨?_, unique.distinct⟩
    intro member
    obtain ⟨other, inside, same⟩ := List.mem_map.mp member
    exact fresh other inside same
  case listed =>
    intro record member
    rw [created.mem_iff]
    rcases List.mem_append.mp member with old | new
    · exact .inr (unique.listed record old)
    · exact .inl (by rw [List.mem_singleton.mp new])
  case found =>
    intro record member
    rcases List.mem_append.mp member with old | new
    · exact unique.found record old
    · rw [List.mem_singleton.mp new]
      exact matched
  case short =>
    intro record member
    rcases List.mem_append.mp member with old | new
    · exact unique.short record old
    · rw [List.mem_singleton.mp new]
      exact short
  case only =>
    intro record member other inside different
    rw [created.mem_iff] at inside
    rcases List.mem_append.mp member with old | new
    · rcases inside with rfl | inside
      · -- the new entry matches no earlier name, else that name was taken or shares its short name
        rw [Bool.eq_false_iff]
        intro same
        have listed := unique.listed record old
        rcases others record.1 same with equal | alias_
        · have taken := free record.2 listed
          rw [matchesName_congr equal, unique.found record old] at taken
          contradiction
        · exact fresh record.2 listed (unique.short record old _ alias_)
      · exact unique.only record old other inside different
    · rw [List.mem_singleton.mp new] at different ⊢
      exact free other (inside.resolve_left different)

theorem Created.fresh (created : Created parsed newParsed name located) (plain : PlainName name) :
    located ∉ parsed := fun member => (created.facts plain).2.2.1 located member rfl

/-- The only new entry is the created one. -/
theorem Created.filter_eq (created : Created parsed newParsed name located) (plain : PlainName name) :
    newParsed.filter (· ∉ parsed) = [located] := by
  have fresh := created.fresh plain
  obtain ⟨before, rest, rfl, rfl⟩ := created.inserted
  have old (slots : List LocatedDirectoryEntry) (part : slots ⊆ before ++ rest) :
      slots.filter (· ∉ before ++ rest) = [] := by
    rw [List.filter_eq_nil_iff]
    intro located member
    rw [decide_eq_true_eq, not_not]
    exact part member
  rw [List.filter_append, List.filter_append, old before (List.subset_append_left _ _),
    old rest (List.subset_append_right _ _), List.filter_singleton]
  simp only [fresh]
  rfl

/-- A removal keeps the names unique. -/
theorem UniqueNames.remove {before rest : List LocatedDirectoryEntry}
    (unique : UniqueNames (before ++ [located] ++ rest) made) :
    UniqueNames (before ++ rest) (made.filter fun record => record.2 ≠ located) := by
  have kept (record : List Char × LocatedDirectoryEntry)
      (member : record ∈ made.filter fun record => record.2 ≠ located) : record ∈ made ∧ record.2 ≠ located := by
    simpa using List.mem_filter.mp member
  have wider (other : LocatedDirectoryEntry) (member : other ∈ before ++ rest) :
      other ∈ before ++ [located] ++ rest := by
    simp only [List.mem_append] at member ⊢
    tauto
  constructor
  case distinct =>
    refine unique.distinct.sublist (List.Sublist.map _ ?_)
    rw [List.append_assoc]
    exact List.Sublist.append_left (List.sublist_append_right _ _) _
  case listed =>
    intro record member
    obtain ⟨old, different⟩ := kept record member
    have listed := unique.listed record old
    simp only [List.mem_append, List.mem_singleton] at listed ⊢
    tauto
  case found => exact fun record member => unique.found record (kept record member).1
  case short => exact fun record member => unique.short record (kept record member).1
  case only => exact fun record member other inside => unique.only record (kept record member).1 other (wider other inside)

end Unique

namespace FATFileSystem

/-- An entry holds no cluster or one cluster outside its directory. -/
def Held (fs : Volume) (entry : DirectoryEntry) (clusters : List Nat) : Prop :=
  entry.getCluster ≠ 0 → FatBuffer.FileChain fs.fat entry.getCluster [entry.getCluster] ∧ entry.getCluster ∉ clusters

/-- An entry keeps its cluster when the directory grows only into free clusters. -/
theorem Held.kept {before after : Volume} {entry : DirectoryEntry} {clusters newClusters : List Nat}
    {words data : Nat → Prop} (held : Held before entry clusters) (frame : Frame before after words data)
    (grown : ∀ cluster ∈ newClusters, cluster ∈ clusters ∨ before.fat.word cluster = 0)
    (away : entry.getCluster ≠ 0 → entry.getCluster ∉ clusters → before.fat.word entry.getCluster ≠ 0 →
      ¬ words entry.getCluster) : Held after entry newClusters := by
  intro nonzero
  obtain ⟨chain, outside⟩ := held nonzero
  have used := chain.used _ chain.first_mem
  refine ⟨chain.congr frame.size ?_, ?_⟩
  · intro cluster member
    rw [List.mem_singleton.mp member]
    exact frame.word _ (away nonzero outside used)
  · intro member
    exact (grown _ member).elim outside used

section Sound

variable [Unicode]

/-- The slots of a directory are well formed and its entries hold different clusters. -/
structure SoundDirectory (fs : Volume) (dir : DirectoryEntry) (clusters : List Nat) : Prop where
  geometry : Geometry fs
  chain : FatBuffer.FileChain fs.fat (fs.directoryCluster dir) clusters
  slots : WellFormedSlots (fs.dirSlots clusters)
  dots : ∀ located ∈ parseDirectoryEntries (fs.dirSlots clusters), isDotName located.entry.name = true →
    located.entry.isDirectory = true
  held : ∀ located ∈ parseDirectoryEntries (fs.dirSlots clusters), isDotName located.entry.name = false →
    Held fs located.entry clusters
  separate : ∀ located ∈ parseDirectoryEntries (fs.dirSlots clusters), isDotName located.entry.name = false →
    located.entry.getCluster ≠ 0 → ∀ other ∈ parseDirectoryEntries (fs.dirSlots clusters),
      isDotName other.entry.name = false → other.entry.getCluster = located.entry.getCluster → other = located

variable {fs after : Volume} {dir : DirectoryEntry} {clusters : List Nat} {located : LocatedDirectoryEntry}
  {name : List Char}

section Sounds

variable (sound : SoundDirectory fs dir clusters)

include sound

/-- A longer directory has the same entries. -/
theorem SoundDirectory.extend {fresh : List Nat}
    (extended : Extended fs after (fs.directoryCluster dir) clusters fresh) :
    SoundDirectory after dir (clusters ++ fresh) ∧
      parseDirectoryEntries (after.dirSlots (clusters ++ fresh)) = parseDirectoryEntries (fs.dirSlots clusters) := by
  obtain ⟨ends, slots, _, ended⟩ := extended.dirSlots_eq sound.chain
  have same : parseDirectoryEntries (after.dirSlots (clusters ++ fresh)) =
      parseDirectoryEntries (fs.dirSlots clusters) := by
    rw [slots, parse_append_ends _ ended]
  refine ⟨⟨extended.frame.geometry sound.geometry, ?_, ?_, ?_, ?_, ?_⟩, same⟩
  · rw [extended.frame.directoryCluster_eq]
    exact extended.chain
  · rw [slots]
    exact sound.slots.append_ends ended
  · rw [same]
    exact sound.dots
  · rw [same]
    intro located member named
    refine (sound.held located member named).kept extended.frame ?_ ?_
    · intro cluster inside
      exact (List.mem_append.mp inside).imp_right (extended.free cluster)
    · rintro _ outside used (inside | inside)
      · exact outside inside
      · exact used (extended.free _ inside)
  · rw [same]
    exact sound.separate

/-- A new group adds its entry to a sound directory. -/
theorem SoundDirectory.insert {middle : Volume} {new fresh : List Nat}
    (prepared : Frame fs middle (· ∈ new) (· ∈ new)) (free : ∀ cluster ∈ new, fs.fat.word cluster = 0)
    (single : ∀ cluster ∈ new, FatBuffer.FileChain middle.fat cluster [cluster]) {front run back stored : List Slot}
    (insertion : Insertion middle after (fs.directoryCluster dir) clusters fresh front run back stored)
    (groups : Groups stored) (parsed : parseDirectoryEntries stored = [located])
    (named : isDotName located.entry.name = false)
    (owns : located.entry.getCluster ≠ 0 → located.entry.getCluster ∈ new) :
    SoundDirectory after dir (clusters ++ fresh) ∧
      ∃ before rest, parseDirectoryEntries (fs.dirSlots clusters) = before ++ rest ∧
        parseDirectoryEntries (after.dirSlots (clusters ++ fresh)) = before ++ [located] ++ rest := by
  have away (cluster : Nat) (used : fs.fat.word cluster ≠ 0) : cluster ∉ new := fun inside =>
    used (free cluster inside)
  have same : middle.dirSlots clusters = fs.dirSlots clusters := by
    refine prepared.dirSlots_eq sound.chain.low ?_
    exact fun cluster member => away cluster (sound.chain.used cluster member)
  have freeMiddle (cluster : Nat) (unused : middle.fat.word cluster = 0) : fs.fat.word cluster = 0 := by
    by_cases inside : cluster ∈ new
    · exact free cluster inside
    · rw [← prepared.word cluster inside, unused]
  have geometry := prepared.geometry sound.geometry
  obtain ⟨newSlots, ⟨_, load, wellSlots⟩, before, rest, old, now⟩ := insertion.wellFormed geometry
    (by rw [same]; exact sound.slots) groups parsed
  have newGeometry := insertion.frame.geometry geometry
  rw [directorySlots_chain newGeometry insertion.chain, Option.some.injEq] at load
  subst load
  rw [same] at old
  have member (other : LocatedDirectoryEntry) :
      other ∈ parseDirectoryEntries (after.dirSlots (clusters ++ fresh)) ↔
        other = located ∨ other ∈ parseDirectoryEntries (fs.dirSlots clusters) := by
    rw [now, old]
    simp only [List.mem_append, List.mem_singleton]
    tauto
  have grown (cluster : Nat) (inside : cluster ∈ clusters ++ fresh) :
      cluster ∈ clusters ∨ middle.fat.word cluster = 0 :=
    (List.mem_append.mp inside).imp_right (insertion.unused cluster)
  have newWords (cluster : Nat) (outside : cluster ∉ clusters) (used : middle.fat.word cluster ≠ 0) :
      ¬ (cluster ∈ clusters ∨ cluster ∈ fresh) := by
    rintro (inside | inside)
    · exact outside inside
    · exact used (insertion.unused _ inside)
  have middleHeld (other : LocatedDirectoryEntry) (inside : other ∈ parseDirectoryEntries (fs.dirSlots clusters))
      (ordinary : isDotName other.entry.name = false) : Held middle other.entry clusters :=
    (sound.held other inside ordinary).kept prepared (fun _ inside => .inl inside) fun _ _ used => away _ used
  have different (other : LocatedDirectoryEntry) (inside : other ∈ parseDirectoryEntries (fs.dirSlots clusters))
      (ordinary : isDotName other.entry.name = false) (nonzero : other.entry.getCluster ≠ 0) :
      other.entry.getCluster ≠ located.entry.getCluster := by
    intro equal
    obtain ⟨chain, _⟩ := sound.held other inside ordinary nonzero
    have used := chain.used _ chain.first_mem
    rw [equal] at nonzero used
    exact away _ used (owns nonzero)
  refine ⟨⟨newGeometry, ?_, wellSlots, ?_, ?_, ?_⟩, before, rest, old, now⟩
  · rw [insertion.frame.directoryCluster_eq, prepared.directoryCluster_eq]
    exact insertion.chain
  · intro other listed dotted
    rcases (member other).mp listed with rfl | inside
    · rw [named] at dotted
      contradiction
    · exact sound.dots other inside dotted
  · intro other listed ordinary
    rcases (member other).mp listed with rfl | inside
    · have start : Held middle other.entry clusters := fun nonzero =>
        ⟨single _ (owns nonzero), fun inside => sound.chain.used _ inside (free _ (owns nonzero))⟩
      exact start.kept insertion.frame grown fun _ => newWords _
    · exact (middleHeld other inside ordinary).kept insertion.frame grown fun _ => newWords _
  · intro first firstListed firstNamed nonzero second secondListed secondNamed equal
    rcases (member first).mp firstListed with rfl | firstInside
    · rcases (member second).mp secondListed with rfl | secondInside
      · rfl
      · rw [← equal] at nonzero
        exact absurd equal (different second secondInside secondNamed nonzero)
    · rcases (member second).mp secondListed with rfl | secondInside
      · exact absurd equal.symm (different first firstInside firstNamed nonzero)
      · exact sound.separate first firstInside firstNamed nonzero second secondInside secondNamed equal

/-- The deletion of a parsed entry returns and removes only that entry. -/
theorem SoundDirectory.delete
    (distinct : ((parseDirectoryEntries (fs.dirSlots clusters)).map fun located => located.entry.name).Nodup)
    (member : located ∈ parseDirectoryEntries (fs.dirSlots clusters)) (named : isDotName located.entry.name = false) :
    ∃ after, deleteDirectoryEntry located fs = (.value (), after) ∧ SoundDirectory after dir clusters ∧
      ∃ before rest, parseDirectoryEntries (fs.dirSlots clusters) = before ++ [located] ++ rest ∧
        parseDirectoryEntries (after.dirSlots clusters) = before ++ rest := by
  obtain ⟨front, run, back, split, places, _, parsed, kept⟩ := sound.slots.remove member
  have held := sound.held located member named
  have low := sound.chain.low
  obtain ⟨oldClusters, owned, only⟩ : ∃ oldClusters, Owned fs located.entry oldClusters ∧
      ∀ cluster ∈ oldClusters, located.entry.getCluster ≠ 0 ∧ cluster = located.entry.getCluster := by
    by_cases zero : located.entry.getCluster = 0
    · exact ⟨[], .inl ⟨zero, rfl⟩, by simp⟩
    · exact ⟨_, .inr (held zero).1, fun cluster inside => ⟨zero, List.mem_singleton.mp inside⟩⟩
  obtain ⟨after, gone, returned, deleted, slots, frame, _, _⟩ :=
    deleteDirectoryEntry_owned sound.geometry low sound.chain.nodup split places owned
  obtain ⟨newWell, newParse⟩ := kept gone deleted
  rw [← slots] at newWell newParse
  have nodup := List.Nodup.of_map _ distinct
  have lost (other : LocatedDirectoryEntry) (inside : other ∈ parseDirectoryEntries (after.dirSlots clusters)) :
      other ∈ parseDirectoryEntries (fs.dirSlots clusters) ∧ other ≠ located := by
    rw [parsed, List.append_assoc, List.singleton_append, List.perm_middle.nodup_iff, List.nodup_cons] at nodup
    rw [newParse] at inside
    refine ⟨?_, fun same => nodup.1 (same ▸ inside)⟩
    rw [parsed]
    simp only [List.mem_append] at inside ⊢
    tauto
  refine ⟨after, returned, ⟨frame.geometry sound.geometry, ?_, newWell, ?_, ?_, ?_⟩, _, _, parsed, newParse⟩
  · rw [frame.directoryCluster_eq]
    refine sound.chain.congr frame.size fun cluster inside => frame.word cluster fun freed => ?_
    obtain ⟨nonzero, rfl⟩ := only cluster freed
    exact (held nonzero).2 inside
  · exact fun other inside => sound.dots other (lost other inside).1
  · intro other inside ordinary
    obtain ⟨old, different⟩ := lost other inside
    refine (sound.held other old ordinary).kept frame (fun _ => .inl) fun _ _ _ freed => ?_
    obtain ⟨some_, equal⟩ := only _ freed
    exact different (sound.separate located member named some_ other old ordinary equal)
  · intro first firstIn firstNamed nonzero second secondIn
    exact sound.separate first (lost first firstIn).1 firstNamed nonzero second (lost second secondIn).1

/-- These are the live entries of a directory. -/
def listing (fs : Volume) (dir : DirectoryEntry) : List LocatedDirectoryEntry :=
  match fs.directorySlots (fs.directoryCluster dir) with
  | some slots => parseDirectoryEntries slots
  | none => []

theorem SoundDirectory.listing_eq : fs.listing dir = parseDirectoryEntries (fs.dirSlots clusters) := by
  rw [listing, directorySlots_chain sound.geometry sound.chain]

/-- A directory stays sound behind a call that returns at most one new entry. -/
theorem SoundDirectory.createFile (name : List Char) : ∃ after newClusters, SoundDirectory after dir newClusters ∧
      ((createFile dir name fs = (.missing, after) ∧ after.listing dir = fs.listing dir) ∨
        ∃ located, createFile dir name fs = (.value located, after) ∧
          Created (fs.listing dir) (after.listing dir) name located) := by
  rcases (ensures_createFile shows_volume sound.geometry dir sound.chain sound.slots.endsClean name).cases with
    ⟨after, missing, fresh, _, extended⟩ | ⟨located, after, value, created⟩
  · obtain ⟨newSound, same⟩ := sound.extend (extended trivial)
    exact ⟨after, _, newSound, .inl ⟨missing, by rw [newSound.listing_eq, sound.listing_eq, same]⟩⟩
  · obtain ⟨entry, fresh, free, prepared, front, run, back, stored, insertion, groups, parsed⟩ := created trivial
    have named := isDotName_prepareNameEntries prepared.choose_spec.1
    obtain ⟨newSound, inserted⟩ := sound.insert (.refl fs (· ∈ []) (· ∈ [])) (by simp) (by simp) insertion groups
      parsed named fun nonzero => absurd (by rw [entry]; exact getCluster_blankEntry _ _) nonzero
    refine ⟨after, _, newSound, .inr ⟨_, value, ?_⟩⟩
    rw [newSound.listing_eq, sound.listing_eq]
    exact ⟨free, prepared, inserted⟩

/-- A directory stays sound behind a call that makes at most one subdirectory. -/
theorem SoundDirectory.createDirectory (name : List Char) :
    ∃ after newClusters, SoundDirectory after dir newClusters ∧
      ((createDirectory dir name fs = (.missing, after) ∧ after.listing dir = fs.listing dir) ∨
        ∃ located, createDirectory dir name fs = (.value (), after) ∧
          located.entry.isDirectory = true ∧ Created (fs.listing dir) (after.listing dir) name located) := by
  rcases (ensures_createDirectory shows_volume sound.geometry dir sound.chain sound.slots.endsClean name).cases with
    ⟨after, missing, fresh, _, extended⟩ | ⟨_, after, value, made⟩
  · obtain ⟨newSound, same⟩ := sound.extend (extended trivial)
    exact ⟨after, _, newSound, .inl ⟨missing, by rw [newSound.listing_eq, sound.listing_eq, same]⟩⟩
  · obtain ⟨fresh, middle, cluster, located, entry, created, free, ⟨lfns, prepared, decoded⟩, front, run, back, stored,
      insertion, groups, parsed⟩ := made trivial
    have inside := created.chain.inside cluster created.chain.first_mem
    have limit := (created.frame.geometry sound.geometry).limit
    have owns : located.entry.getCluster ∈ [cluster] := by
      rw [entry]
      exact List.mem_singleton.mpr (DirectoryEntry.getCluster_setCluster _ cluster (by omega))
    have frame : Frame fs middle (· ∈ [cluster]) (· ∈ [cluster]) :=
      created.frame.mono (fun _ same => List.mem_singleton.mpr same) fun _ same => List.mem_singleton.mpr same
    obtain ⟨newSound, inserted⟩ := sound.insert frame (by simpa using created.free) (by simpa using created.chain)
      insertion groups parsed (isDotName_prepareNameEntries prepared) (fun _ => owns)
    have directory : located.entry.isDirectory = true := by
      rw [entry]
      exact isDirectory_directoryEntry prepared cluster
    refine ⟨after, _, newSound, .inr ⟨located, value, directory, ?_⟩⟩
    rw [newSound.listing_eq, sound.listing_eq]
    exact ⟨free, ⟨lfns, prepared, decoded⟩, inserted⟩

end Sounds

/-- The call removes the entry that the name finds. -/
def RemovesEntry (fs after : Volume) (dir : DirectoryEntry) (name : List Char) (located : LocatedDirectoryEntry) :
    Prop :=
  findParsedEntry (fs.listing dir) name = some located ∧ (∃ clusters, SoundDirectory after dir clusters) ∧
    ∃ before rest, fs.listing dir = before ++ [located] ++ rest ∧ after.listing dir = before ++ rest

variable (sound : SoundDirectory fs dir clusters)
  (distinct : ((fs.listing dir).map fun located => located.entry.name).Nodup)

include sound distinct

/-- The deletion of a found entry removes it from the listing. -/
theorem SoundDirectory.removes (found : findParsedEntry (fs.listing dir) name = some located)
    (named : isDotName located.entry.name = false) :
    ∃ after, deleteDirectoryEntry located fs = (.value (), after) ∧ RemovesEntry fs after dir name located := by
  have listed := sound.listing_eq
  rw [listed] at distinct
  have member := List.mem_of_find?_eq_some found
  rw [listed] at member
  obtain ⟨after, returned, newSound, before, rest, old, now⟩ := sound.delete distinct member named
  refine ⟨after, returned, found, ⟨clusters, newSound⟩, before, rest, ?_, ?_⟩
  · rw [listed, old]
  · rw [newSound.listing_eq, now]

/-- An unlink removes the regular file that the name finds. -/
theorem SoundDirectory.unlink_regular (found : findParsedEntry (fs.listing dir) name = some located)
    (regular : located.entry.isRegularFile = true) :
    ∃ after, unlinkFile dir name fs = (.value (), after) ∧ RemovesEntry fs after dir name located := by
  have member := List.mem_of_find?_eq_some found
  have parsed := found
  rw [sound.listing_eq] at member parsed
  have named : isDotName located.entry.name = false := by
    by_contra dotted
    have directory := sound.dots located member (by simpa using dotted)
    simp [DirectoryEntry.isRegularFile, directory] at regular
  obtain ⟨after, returned, removed⟩ := sound.removes distinct found named
  rw [unlinkFile_found sound.geometry sound.chain parsed, if_pos regular]
  exact ⟨after, returned, removed⟩

/-- An unlink that is refused changes nothing. -/
theorem SoundDirectory.unlinkFile (name : List Char) :
    unlinkFile dir name fs = (.missing, fs) ∨
      ∃ located after, unlinkFile dir name fs = (.value (), after) ∧
        RemovesEntry fs after dir name located := by
  cases found : findParsedEntry (fs.listing dir) name with
  | none =>
    rw [sound.listing_eq] at found
    exact .inl (find_refused sound.geometry sound.chain found).1
  | some located =>
    by_cases regular : located.entry.isRegularFile = true
    · obtain ⟨after, returned, removed⟩ := sound.unlink_regular distinct found regular
      exact .inr ⟨located, after, returned, removed⟩
    · rw [sound.listing_eq] at found
      rw [unlinkFile_found sound.geometry sound.chain found, if_neg regular]
      exact .inl rfl

/-- A removal that is refused changes nothing. -/
theorem SoundDirectory.removeDirectory (name : List Char) :
    removeDirectory dir name fs = (.missing, fs) ∨
      ∃ located after, removeDirectory dir name fs = (.value (), after) ∧
        RemovesEntry fs after dir name located := by
  cases found : findParsedEntry (fs.listing dir) name with
  | none =>
    rw [sound.listing_eq] at found
    exact .inl (find_refused sound.geometry sound.chain found).2
  | some located =>
    have parsed := found
    rw [sound.listing_eq] at parsed
    have member := List.mem_of_find?_eq_some parsed
    have holds (_ : located.entry.isDirectory = true) (nonzero : located.entry.getCluster ≠ 0)
        (named : isDotName located.entry.name = false) :
        ∃ others, FatBuffer.FileChain fs.fat located.entry.getCluster others :=
      ⟨_, (sound.held located member named nonzero).1⟩
    rcases removeDirectory_found sound.geometry sound.chain parsed holds with missing | ⟨_, named, _, deletes⟩
    · exact .inl missing
    · obtain ⟨after, returned, removed⟩ := sound.removes distinct found named
      exact .inr ⟨located, after, deletes.trans returned, removed⟩

end Sound

/-- A caller changes the entries of one directory. -/
inductive DirectoryCall where
  | createFile (name : List Char)
  | createDirectory (name : List Char)
  | unlinkFile (name : List Char)
  | removeDirectory (name : List Char)

/-- The record keeps the entry that each successful creation made until a call removes it. -/
structure NameState where
  volume : Volume
  made : List (List Char × LocatedDirectoryEntry)

section Run

variable [Unicode]

namespace DirectoryCall

variable {dir : DirectoryEntry} {action : DirectoryCall} {state : NameState} {after : Volume}

def call {P : Type} [Port P] (dir : DirectoryEntry) : DirectoryCall → FsM P Unit
  | .createFile name => do
    let _ ← FATFileSystem.createFile dir name
    pure ()
  | .createDirectory name => FATFileSystem.createDirectory dir name
  | .unlinkFile name => FATFileSystem.unlinkFile dir name
  | .removeDirectory name => FATFileSystem.removeDirectory dir name

/-- A creation made the entries that were not listed before, and a removal took the entry that its name found. -/
def record (dir : DirectoryEntry) (before after : Volume) (made : List (List Char × LocatedDirectoryEntry)) :
    DirectoryCall → List (List Char × LocatedDirectoryEntry)
  | .createFile name | .createDirectory name =>
    made ++ ((after.listing dir).filter (· ∉ before.listing dir)).map (Prod.mk name)
  | .unlinkFile name | .removeDirectory name =>
    made.filter fun earlier => findParsedEntry (before.listing dir) name ≠ some earlier.2

/-- A call without a value leaves the record. -/
def step (dir : DirectoryEntry) (action : DirectoryCall) (state : NameState) : NameState :=
  match action.call dir state.volume with
  | (.value (), after) => ⟨after, action.record dir state.volume after state.made⟩
  | (_, after) => ⟨after, state.made⟩

/-- Every created name is plain. -/
def Plain : DirectoryCall → Prop
  | .createFile name | .createDirectory name => PlainName name
  | .unlinkFile _ | .removeDirectory _ => True

theorem step_value (returned : action.call dir state.volume = (.value (), after)) :
    action.step dir state = ⟨after, action.record dir state.volume after state.made⟩ := by
  simp only [step, returned]

theorem step_missing (returned : action.call dir state.volume = (.missing, after)) :
    action.step dir state = ⟨after, state.made⟩ := by
  simp only [step, returned]

end DirectoryCall

/-- The directory is sound and the names of its entries are unique. -/
def NameState.Good (dir : DirectoryEntry) (state : NameState) : Prop :=
  (∃ clusters, SoundDirectory state.volume dir clusters) ∧ UniqueNames (state.volume.listing dir) state.made

variable {dir : DirectoryEntry} {state : NameState} {after : Volume} {name : List Char}
  {located : LocatedDirectoryEntry}

/-- A plain creation keeps the state good. -/
theorem NameState.Good.created (good : state.Good dir) (sound : ∃ clusters, SoundDirectory after dir clusters)
    (created : Created (state.volume.listing dir) (after.listing dir) name located) (plain : PlainName name) :
    NameState.Good dir
      ⟨after, state.made ++ ((after.listing dir).filter (· ∉ state.volume.listing dir)).map (Prod.mk name)⟩ := by
  refine ⟨sound, ?_⟩
  rw [created.filter_eq plain]
  exact good.2.create created plain

/-- A removal keeps the state good. -/
theorem NameState.Good.removed (good : state.Good dir) (removes : RemovesEntry state.volume after dir name located) :
    NameState.Good dir
      ⟨after, state.made.filter fun earlier => findParsedEntry (state.volume.listing dir) name ≠ some earlier.2⟩ := by
  obtain ⟨found, sound, before, rest, old, now⟩ := removes
  refine ⟨sound, ?_⟩
  have unique := good.2
  rw [old] at unique
  rw [found, now]
  simpa [eq_comm] using unique.remove

/-- Every call with a plain name keeps the state good. -/
theorem NameState.Good.step (good : state.Good dir) (action : DirectoryCall) (plain : action.Plain) :
    (action.step dir state).Good dir := by
  obtain ⟨clusters, sound⟩ := good.1
  have distinct := good.2.distinct
  have refused (after : Volume) (newSound : ∃ clusters, SoundDirectory after dir clusters)
      (same : after.listing dir = state.volume.listing dir) : NameState.Good dir ⟨after, state.made⟩ :=
    ⟨newSound, by rw [same]; exact good.2⟩
  cases action with
  | createFile name =>
    obtain ⟨after, newClusters, newSound, ⟨missing, same⟩ | ⟨located, returned, created⟩⟩ := sound.createFile name
    · rw [DirectoryCall.step_missing (bind_missing missing _)]
      exact refused after ⟨_, newSound⟩ same
    · rw [DirectoryCall.step_value (bind_value returned _)]
      exact good.created ⟨_, newSound⟩ created plain
  | createDirectory name =>
    obtain ⟨after, newClusters, newSound, ⟨missing, same⟩ | ⟨located, returned, _, created⟩⟩ :=
      sound.createDirectory name
    · rw [@DirectoryCall.step_missing _ dir (.createDirectory name) state _ missing]
      exact refused after ⟨_, newSound⟩ same
    · rw [@DirectoryCall.step_value _ dir (.createDirectory name) state _ returned]
      exact good.created ⟨_, newSound⟩ created plain
  | unlinkFile name =>
    rcases sound.unlinkFile distinct name with missing | ⟨located, after, returned, removes⟩
    · rw [@DirectoryCall.step_missing _ dir (.unlinkFile name) state _ missing]
      exact good
    · rw [@DirectoryCall.step_value _ dir (.unlinkFile name) state _ returned]
      exact good.removed removes
  | removeDirectory name =>
    rcases sound.removeDirectory distinct name with missing | ⟨located, after, returned, removes⟩
    · rw [@DirectoryCall.step_missing _ dir (.removeDirectory name) state _ missing]
      exact good
    · rw [@DirectoryCall.step_value _ dir (.removeDirectory name) state _ returned]
      exact good.removed removes

/-- An empty directory lists at most its dot directories. -/
structure EmptyDirectory (fs : Volume) (dir : DirectoryEntry) (clusters : List Nat) : Prop where
  geometry : Geometry fs
  chain : FatBuffer.FileChain fs.fat (fs.directoryCluster dir) clusters
  slots : WellFormedSlots (fs.dirSlots clusters)
  dots : ∀ located ∈ parseDirectoryEntries (fs.dirSlots clusters),
    isDotName located.entry.name = true ∧ located.entry.isDirectory = true
  distinct : ((parseDirectoryEntries (fs.dirSlots clusters)).map fun located => located.entry.name).Nodup

/-- An empty directory is a good start. -/
theorem EmptyDirectory.good {fs : Volume} {clusters : List Nat} (empty : EmptyDirectory fs dir clusters) :
    NameState.Good dir ⟨fs, []⟩ := by
  have dotted {located : LocatedDirectoryEntry} (member : located ∈ parseDirectoryEntries (fs.dirSlots clusters))
      (named : isDotName located.entry.name = false) : False := by
    rw [(empty.dots located member).1] at named
    contradiction
  have sound : SoundDirectory fs dir clusters :=
    ⟨empty.geometry, empty.chain, empty.slots, fun located member _ => (empty.dots located member).2,
      fun _ member named => (dotted member named).elim, fun _ member named => (dotted member named).elim⟩
  refine ⟨⟨clusters, sound⟩, ?_, by simp, by simp, by simp, by simp⟩
  rw [sound.listing_eq]
  exact empty.distinct

/-- A name in the record finds its own entry, a second creation is refused and an unlink removes that entry. -/
structure OwnName (fs : Volume) (dir : DirectoryEntry) (name : List Char) (located : LocatedDirectoryEntry) : Prop where
  find : findEntryByName dir name fs = (.value located, fs)
  file : (createFile dir name fs).1 = .missing
  directory : (createDirectory dir name fs).1 = .missing
  unlink : located.entry.isRegularFile = true → ∃ after, unlinkFile dir name fs = (.value (), after) ∧
    ∃ before rest, fs.listing dir = before ++ [located] ++ rest ∧ after.listing dir = before ++ rest

/-- A good state gives every recorded name its own entry. -/
theorem NameState.Good.ownName (good : state.Good dir) (member : (name, located) ∈ state.made) :
    OwnName state.volume dir name located := by
  obtain ⟨clusters, sound⟩ := good.1
  have found := good.2.find member
  constructor
  case find =>
    rw [findEntryByName_chain sound.geometry sound.chain, ← sound.listing_eq, found]
    rfl
  case file =>
    obtain ⟨after, _, _, ⟨missing, _⟩ | ⟨_, _, created⟩⟩ := sound.createFile name
    · rw [missing]
    · rw [created.free] at found
      contradiction
  case directory =>
    obtain ⟨after, _, _, ⟨missing, _⟩ | ⟨_, _, _, created⟩⟩ := sound.createDirectory name
    · rw [missing]
    · rw [created.free] at found
      contradiction
  case unlink =>
    intro regular
    obtain ⟨after, returned, _, _, removed⟩ := sound.unlink_regular good.2.distinct found regular
    exact ⟨after, returned, removed⟩

/-- A successful creation of a plain name adds its one new entry to the record. -/
theorem NameState.Good.recorded (good : state.Good dir) (plain : PlainName name) :
    (∀ located after, createFile dir name state.volume = (.value located, after) →
      ((DirectoryCall.createFile name).step dir state).made = state.made ++ [(name, located)]) ∧
    (∀ after, createDirectory dir name state.volume = (.value (), after) →
      ∃ located, located.entry.isDirectory = true ∧
        ((DirectoryCall.createDirectory name).step dir state).made = state.made ++ [(name, located)]) := by
  obtain ⟨clusters, sound⟩ := good.1
  constructor
  · intro located after returned
    obtain ⟨final, _, _, ⟨missing, _⟩ | ⟨other, value, created⟩⟩ := sound.createFile name
    · rw [missing] at returned
      cases returned
    · rw [value, Prod.mk.injEq, Outcome.value.injEq] at returned
      obtain ⟨rfl, rfl⟩ := returned
      rw [DirectoryCall.step_value (bind_value value _)]
      simp only [DirectoryCall.record, created.filter_eq plain, List.map_cons, List.map_nil]
  · intro after returned
    obtain ⟨final, _, _, ⟨missing, _⟩ | ⟨other, value, isDirectory, created⟩⟩ := sound.createDirectory name
    · rw [missing] at returned
      cases returned
    · refine ⟨other, isDirectory, ?_⟩
      rw [@DirectoryCall.step_value _ dir (.createDirectory name) state _ value]
      simp only [DirectoryCall.record, created.filter_eq plain, List.map_cons, List.map_nil]

/-- A run of calls with plain names in an empty directory keeps the short names distinct and every made name its own
entry. -/
theorem names_unique (fs : Volume) (dir : DirectoryEntry) (clusters : List Nat) (empty : EmptyDirectory fs dir clusters)
    (state : NameState)
    (reached : Reached (DirectoryCall.step dir) (fun action _ => action.Plain) ⟨fs, []⟩ state) :
    ((state.volume.listing dir).map fun located => located.entry.name).Nodup ∧
      (∀ name located, (name, located) ∈ state.made → OwnName state.volume dir name located) ∧
      ∀ name, PlainName name →
        (∀ located after, createFile dir name state.volume = (.value located, after) →
          ((DirectoryCall.createFile name).step dir state).made = state.made ++ [(name, located)]) ∧
        (∀ after, createDirectory dir name state.volume = (.value (), after) →
          ∃ located, located.entry.isDirectory = true ∧
            ((DirectoryCall.createDirectory name).step dir state).made = state.made ++ [(name, located)]) := by
  have good := reached.invariant empty.good fun action between kept plain => kept.step action plain
  exact ⟨good.2.distinct, fun _ _ member => good.ownName member, fun _ plain => good.recorded plain⟩

end Run

/-- The root directory of the fresh volume is empty. -/
theorem emptyDirectory_freshVolume : @EmptyDirectory Text.asciiTables freshVolume freshVolume.root [2] := by
  have empty := @parseDirectoryEntries_ends Text.asciiTables _ ends_freshVolume
  have root : freshVolume.directoryCluster freshVolume.root = 2 := by decide
  refine @EmptyDirectory.mk Text.asciiTables _ _ _ geometry_freshVolume ?_ ⟨[], _, rfl, .nil, ends_freshVolume⟩ ?_ ?_
  · rw [root]
    exact fileChain_freshVolume
  · rw [empty]
    simp
  · rw [empty]
    exact List.nodup_nil

/-- This state follows the creation of one file. -/
def oneNameState : NameState :=
  @DirectoryCall.step Text.asciiTables freshVolume.root (.createFile ['a']) ⟨freshVolume, []⟩

/-- The first file keeps its own name. -/
theorem names_unique_one_file :
    Reached (@DirectoryCall.step Text.asciiTables freshVolume.root)
        (fun action _ => @DirectoryCall.Plain Text.asciiTables action) ⟨freshVolume, []⟩ oneNameState ∧
      (['a'], ⟨blankEntry (Bytes.fill 0x20 [0x41]) 0x20, ⟨2, 0, 0⟩, ['a'], []⟩) ∈ oneNameState.made ∧
      @OwnName Text.asciiTables oneNameState.volume freshVolume.root ['a']
        ⟨blankEntry (Bytes.fill 0x20 [0x41]) 0x20, ⟨2, 0, 0⟩, ['a'], []⟩ := by
  have plain : @DirectoryCall.Plain Text.asciiTables (.createFile ['a']) := by
    change @PlainName Text.asciiTables ['a']
    decide +kernel
  have reached : Reached (@DirectoryCall.step Text.asciiTables freshVolume.root)
      (fun action _ => @DirectoryCall.Plain Text.asciiTables action) ⟨freshVolume, []⟩ oneNameState := by
    have first := Reached.step (@Reached.start _ _ (@DirectoryCall.step Text.asciiTables freshVolume.root)
      (fun action _ => @DirectoryCall.Plain Text.asciiTables action) ⟨freshVolume, []⟩) (.createFile ['a']) plain
    exact first
  have member : (['a'], ⟨blankEntry (Bytes.fill 0x20 [0x41]) 0x20, ⟨2, 0, 0⟩, ['a'], []⟩) ∈ oneNameState.made := by
    decide +kernel
  exact ⟨reached, member,
    (@names_unique Text.asciiTables _ _ _ emptyDirectory_freshVolume _ reached).2.1 _ _ member⟩

/-- This state follows the creation of a name and of the same name with a final dot. -/
def dottedState : NameState :=
  @DirectoryCall.step Text.asciiTables freshVolume.root (.createFile ['a', '.']) oneNameState

/-- The name with the final dot is stored under the short name of the first file and does not find its entry. -/
theorem dotted_name_duplicates :
    @EmptyDirectory Text.asciiTables freshVolume freshVolume.root [2] ∧
      ¬ ((@listing Text.asciiTables dottedState.volume freshVolume.root).map fun located => located.entry.name).Nodup ∧
      (['a', '.'], ⟨blankEntry (Bytes.fill 0x20 [0x41]) 0x20, ⟨2, 1, 32⟩, ['a'], []⟩) ∈ dottedState.made ∧
      (@findEntryByName _ _ Text.asciiTables freshVolume.root ['a', '.'] dottedState.volume).1 = .missing := by
  refine ⟨emptyDirectory_freshVolume, ?_⟩
  decide +kernel

end FATFileSystem

end BubbleOs.Fat
