import BubbleOs.Proof.Fat.LongName
import BubbleOs.Proof.Fat.Allocate

namespace BubbleOs.Fat

open Text

section

variable {entry : DirectoryEntry}

/-- A used slot list consists of deleted slots, volume labels and entries with their complete long filenames. -/
inductive Groups : List Slot → Prop where
  | nil : Groups []
  | deleted {slot : Slot} {rest : List Slot} (isDeleted : slot.1.isDeleted = true) (tail : Groups rest) :
      Groups (slot :: rest)
  | label {slot : Slot} {rest : List Slot} (notEnd : slot.1.isEndMarker = false)
      (notDeleted : slot.1.isDeleted = false) (notLong : slot.1.isLongFilename = false)
      (isLabel : slot.1.isVolumeLabel = true) (tail : Groups rest) : Groups (slot :: rest)
  | short {slot : Slot} {rest : List Slot} (ordinary : slot.1.isNormalEntry = true) (tail : Groups rest) :
      Groups (slot :: rest)
  | named {run : List Slot} {slot : Slot} {rest : List Slot} {name : List Char}
      (long : ∀ chunk ∈ run, isLongSlot chunk.1 = true)
      (complete : isCompleteRun (lfnChecksum slot.1.name) (lfnRecords run) = true)
      (decoded : decodeLongFilename ((lfnRecords run).map LongDirectoryEntry.nameUnits).reverse.flatten = some name)
      (ordinary : slot.1.isNormalEntry = true) (tail : Groups rest) : Groups (run ++ slot :: rest)

/-- A slot list is well formed when end markers alone follow its groups. -/
def WellFormedSlots (slots : List Slot) : Prop :=
  ∃ used ends, slots = used ++ ends ∧ Groups used ∧ ∀ slot ∈ ends, slot.1.isEndMarker = true

theorem isNormalEntry_iff :
    entry.isNormalEntry = true ↔ entry.isEndMarker = false ∧ entry.isDeleted = false ∧
      entry.isLongFilename = false ∧ entry.isVolumeLabel = false := by
  simp [DirectoryEntry.isNormalEntry, and_assoc]

theorem isLongSlot_iff :
    isLongSlot entry = true ↔ entry.isEndMarker = false ∧ entry.isDeleted = false ∧
      entry.isLongFilename = true := by
  simp [isLongSlot, and_assoc]

/-- A deleted slot is no end marker. -/
theorem isEndMarker_of_isDeleted (deleted : entry.isDeleted = true) : entry.isEndMarker = false := by
  simp only [DirectoryEntry.isDeleted, beq_iff_eq] at deleted
  rw [DirectoryEntry.isEndMarker, deleted]
  rfl

namespace Groups

variable {slots : List Slot}

theorem append {first second : List Slot} (groups : Groups first) (more : Groups second) :
    Groups (first ++ second) := by
  induction groups with
  | nil => exact more
  | deleted isDeleted _ ih => exact .deleted isDeleted ih
  | label notEnd notDeleted notLong isLabel _ ih => exact .label notEnd notDeleted notLong isLabel ih
  | short ordinary _ ih => exact .short ordinary ih
  | named long complete decoded ordinary _ ih =>
    rw [List.append_assoc]
    exact .named long complete decoded ordinary ih

theorem of_deleted (deleted : ∀ slot ∈ slots, slot.1.isDeleted = true) : Groups slots := by
  induction slots with
  | nil => exact .nil
  | cons slot rest ih =>
    exact .deleted (deleted slot List.mem_cons_self) (ih fun other member =>
      deleted other (List.mem_cons_of_mem _ member))

theorem notEnd (groups : Groups slots) : ∀ slot ∈ slots, slot.1.isEndMarker = false := by
  induction groups with
  | nil => simp
  | deleted isDeleted _ ih =>
    intro slot member
    rcases List.mem_cons.mp member with rfl | later
    · exact isEndMarker_of_isDeleted isDeleted
    · exact ih slot later
  | label notEnd _ _ _ _ ih =>
    intro slot member
    rcases List.mem_cons.mp member with rfl | later
    · exact notEnd
    · exact ih slot later
  | short ordinary _ ih =>
    intro slot member
    rcases List.mem_cons.mp member with rfl | later
    · exact (isNormalEntry_iff.mp ordinary).1
    · exact ih slot later
  | named long _ _ ordinary _ ih =>
    intro slot member
    rcases List.mem_append.mp member with left | right
    · exact (isLongSlot_iff.mp (long slot left)).1
    · rcases List.mem_cons.mp right with rfl | later
      · exact (isNormalEntry_iff.mp ordinary).1
      · exact ih slot later

/-- A deleted slot splits the groups around it. -/
theorem split_deleted (groups : Groups slots) {before after : List Slot} {slot : Slot}
    (split : slots = before ++ slot :: after) (deleted : slot.1.isDeleted = true) : Groups before ∧ Groups after := by
  induction groups generalizing before with
  | nil => simp at split
  | @deleted first rest isDeleted tail ih =>
    cases before with
    | nil =>
      cases split
      exact ⟨.nil, tail⟩
    | cons head front =>
      rw [List.cons_append, List.cons.injEq] at split
      obtain ⟨rfl, split⟩ := split
      exact ⟨.deleted isDeleted (ih split).1, (ih split).2⟩
  | @label first rest notEnd notDeleted notLong isLabel tail ih =>
    cases before with
    | nil =>
      cases split
      rw [deleted] at notDeleted
      cases notDeleted
    | cons head front =>
      rw [List.cons_append, List.cons.injEq] at split
      obtain ⟨rfl, split⟩ := split
      exact ⟨.label notEnd notDeleted notLong isLabel (ih split).1, (ih split).2⟩
  | @short first rest ordinary tail ih =>
    cases before with
    | nil =>
      cases split
      rw [(isNormalEntry_iff.mp ordinary).2.1] at deleted
      cases deleted
    | cons head front =>
      rw [List.cons_append, List.cons.injEq] at split
      obtain ⟨rfl, split⟩ := split
      exact ⟨.short ordinary (ih split).1, (ih split).2⟩
  | @named run first rest name long complete decoded ordinary tail ih =>
    rw [List.append_cons] at split
    rcases List.append_eq_append_iff.mp split with ⟨front, rfl, inner⟩ | ⟨behind, cut, inner⟩
    · obtain ⟨left, right⟩ := ih inner
      refine ⟨?_, right⟩
      rw [← List.append_cons]
      exact .named long complete decoded ordinary left
    · cases behind with
      | nil =>
        obtain ⟨left, right⟩ := @ih [] inner.symm
        refine ⟨?_, right⟩
        rw [List.append_nil] at cut
        rw [← cut]
        exact .named long complete decoded ordinary .nil
      | cons head behind =>
        rw [List.cons_append, List.cons.injEq] at inner
        have member : slot ∈ run ++ [first] := by
          rw [cut, ← inner.1]
          simp
        exfalso
        rcases List.mem_append.mp member with left | right
        · rw [(isLongSlot_iff.mp (long slot left)).2.1] at deleted
          cases deleted
        · rw [List.mem_singleton.mp right, (isNormalEntry_iff.mp ordinary).2.1] at deleted
          cases deleted

/-- A run of deleted slots splits the groups around it. -/
theorem split_run {before run after : List Slot} (groups : Groups (before ++ run ++ after))
    (deleted : ∀ slot ∈ run, slot.1.isDeleted = true) : run = [] ∨ (Groups before ∧ Groups after) := by
  cases run with
  | nil => exact .inl rfl
  | cons slot rest =>
    right
    rw [List.append_assoc, List.cons_append] at groups
    have first := groups.split_deleted rfl (deleted slot List.mem_cons_self)
    refine ⟨first.1, ?_⟩
    have later := first.2
    clear first groups
    induction rest with
    | nil => exact later
    | cons other rest ih =>
      have inner := later.split_deleted (List.nil_append _).symm
        (deleted other (List.mem_cons_of_mem _ List.mem_cons_self))
      refine ih ?_ inner.2
      intro member inside
      rcases List.mem_cons.mp inside with rfl | further
      · exact deleted member List.mem_cons_self
      · exact deleted member (List.mem_cons_of_mem _ (List.mem_cons_of_mem _ further))

end Groups

theorem isLongFilename_blankEntry (name : ShortName) : (blankEntry name 0x20).isLongFilename = false := by
  change ((0x20 : UInt8) &&& 0x3F == 0x0F) = false
  decide

theorem isVolumeLabel_blankEntry (name : ShortName) : (blankEntry name 0x20).isVolumeLabel = false := by
  change ((0x20 : UInt8) &&& 0x08 != 0) = false
  decide

theorem isLongFilename_directoryEntry (name : ShortName) (cluster : Nat) :
    (directoryEntry name cluster).isLongFilename = false := by
  change ((0x10 : UInt8) &&& 0x3F == 0x0F) = false
  decide

theorem isVolumeLabel_directoryEntry (name : ShortName) (cluster : Nat) :
    (directoryEntry name cluster).isVolumeLabel = false := by
  change ((0x10 : UInt8) &&& 0x08 != 0) = false
  decide

/-- A directory entry with a used name is a directory. -/
theorem isDirectory_of_used {name : ShortName} {cluster : Nat}
    (notEnd : (directoryEntry name cluster).isEndMarker = false)
    (notDeleted : (directoryEntry name cluster).isDeleted = false) :
    (directoryEntry name cluster).isDirectory = true := by
  have ordinary : (directoryEntry name cluster).isNormalEntry = true :=
    isNormalEntry_iff.mpr ⟨notEnd, notDeleted, isLongFilename_directoryEntry _ _, isVolumeLabel_directoryEntry _ _⟩
  have flag : ((0x10 : UInt8) &&& 0x10 != 0) = true := by decide
  simp only [DirectoryEntry.isDirectory, ordinary, Bool.true_and]
  exact flag

/-- The entry of a new directory is a directory. -/
theorem isDirectory_directoryEntry [Unicode] {live : List LocatedDirectoryEntry} {filename : List Char}
    {shortName : ShortName} {lfns : List LongDirectoryEntry}
    (prepared : prepareNameEntries live filename = some (shortName, lfns)) (cluster : Nat) :
    (directoryEntry shortName cluster).isDirectory = true := by
  have ordinary : (directoryEntry shortName cluster).isNormalEntry = true :=
    isNormalEntry_of_name (isNameByte_prepareNameEntries prepared) (isLongFilename_directoryEntry _ _)
      (isVolumeLabel_directoryEntry _ _)
  obtain ⟨notEnd, notDeleted, _⟩ := isNormalEntry_iff.mp ordinary
  exact isDirectory_of_used notEnd notDeleted

section Parser

variable [Unicode] {ends : List Slot} {slot : Slot} {run : List Slot} {used : List Slot}

/-- End markers hold no entry. -/
theorem parseDirectoryEntries_ends {slots : List Slot} (ended : ∀ slot ∈ slots, slot.1.isEndMarker = true) :
    parseDirectoryEntries slots = [] := by
  cases slots with
  | nil => rfl
  | cons slot rest =>
    rw [parseDirectoryEntries, parseFrom]
    simp [ended slot List.mem_cons_self]

/-- End markers at the end hold no parsed entry. -/
theorem parseFrom_append_ends (slots : List Slot) (ended : ∀ slot ∈ ends, slot.1.isEndMarker = true)
    (pending : PendingLfn) : parseFrom pending (slots ++ ends) = parseFrom pending slots := by
  induction slots generalizing pending with
  | nil =>
    cases ends with
    | nil => rfl
    | cons slot rest => simp [parseFrom, ended slot List.mem_cons_self]
  | cons slot rest ih => simp only [List.cons_append, parseFrom, ih]

theorem parse_append_ends (slots : List Slot) (ended : ∀ slot ∈ ends, slot.1.isEndMarker = true) :
    parseDirectoryEntries (slots ++ ends) = parseDirectoryEntries slots :=
  parseFrom_append_ends slots ended _

theorem parseDirectoryEntries_deleted (rest : List Slot) (deleted : slot.1.isDeleted = true) :
    parseDirectoryEntries (slot :: rest) = parseDirectoryEntries rest := by
  rw [parseDirectoryEntries, parseFrom]
  simp only [isEndMarker_of_isDeleted deleted, deleted, Bool.false_eq_true, if_false, if_true]
  rfl

theorem parseDirectoryEntries_label (rest : List Slot) (notEnd : slot.1.isEndMarker = false)
    (notDeleted : slot.1.isDeleted = false) (notLong : slot.1.isLongFilename = false)
    (isLabel : slot.1.isVolumeLabel = true) : parseDirectoryEntries (slot :: rest) = parseDirectoryEntries rest := by
  rw [parseDirectoryEntries, parseFrom]
  simp only [notEnd, notDeleted, notLong, isLabel, Bool.false_eq_true, if_false, if_true]
  rfl

theorem parseDirectoryEntries_short (rest : List Slot) (ordinary : slot.1.isNormalEntry = true) :
    parseDirectoryEntries (slot :: rest) =
      ⟨slot.1, slot.2, getFilenameFromFat slot.1.name, []⟩ :: parseDirectoryEntries rest := by
  obtain ⟨notEnd, notDeleted, notLong, notLabel⟩ := isNormalEntry_iff.mp ordinary
  rw [parseDirectoryEntries, parseFrom]
  simp only [notEnd, notDeleted, notLong, notLabel, Bool.false_eq_true, if_false]
  rfl

theorem parseDirectoryEntries_named {name : List Char} (rest : List Slot)
    (long : ∀ chunk ∈ run, isLongSlot chunk.1 = true)
    (complete : isCompleteRun (lfnChecksum slot.1.name) (lfnRecords run) = true)
    (decoded : decodeLongFilename ((lfnRecords run).map LongDirectoryEntry.nameUnits).reverse.flatten = some name)
    (ordinary : slot.1.isNormalEntry = true) :
    parseDirectoryEntries (run ++ slot :: rest) =
      ⟨slot.1, slot.2, name, run.map Prod.snd⟩ :: parseDirectoryEntries rest :=
  parseFrom_named _ _ _ _ _ long complete decoded ordinary

/-- A run of deleted slots holds no entry. -/
theorem parseDirectoryEntries_deletedRun (rest : List Slot) (deleted : ∀ slot ∈ run, slot.1.isDeleted = true) :
    parseDirectoryEntries (run ++ rest) = parseDirectoryEntries rest := by
  induction run with
  | nil => rfl
  | cons slot run ih =>
    rw [List.cons_append, parseDirectoryEntries_deleted _ (deleted slot List.mem_cons_self),
      ih fun other member => deleted other (List.mem_cons_of_mem _ member)]

/-- The parser reads groups before the slots behind them. -/
theorem Groups.parse_append (groups : Groups used) (rest : List Slot) :
    parseDirectoryEntries (used ++ rest) = parseDirectoryEntries used ++ parseDirectoryEntries rest := by
  induction groups with
  | nil => rfl
  | deleted isDeleted _ ih =>
    rw [List.cons_append, parseDirectoryEntries_deleted _ isDeleted, parseDirectoryEntries_deleted _ isDeleted, ih]
  | label notEnd notDeleted notLong isLabel _ ih =>
    rw [List.cons_append, parseDirectoryEntries_label _ notEnd notDeleted notLong isLabel,
      parseDirectoryEntries_label _ notEnd notDeleted notLong isLabel, ih]
  | short ordinary _ ih =>
    rw [List.cons_append, parseDirectoryEntries_short _ ordinary, parseDirectoryEntries_short _ ordinary, ih,
      List.cons_append]
  | named long complete decoded ordinary _ ih =>
    rw [List.append_assoc, List.cons_append, parseDirectoryEntries_named _ long complete decoded ordinary,
      parseDirectoryEntries_named _ long complete decoded ordinary, ih, List.cons_append]

/-- Every parsed entry is a short slot with its own long filename slots. -/
theorem Groups.locate (groups : Groups used) {located : LocatedDirectoryEntry}
    (member : located ∈ parseDirectoryEntries used) :
    ∃ before run after, used = before ++ (run ++ [(located.entry, located.location)]) ++ after ∧
      Groups before ∧ Groups after ∧ run.map Prod.snd = located.lfnLocations ∧
      located.entry.isNormalEntry = true ∧
      parseDirectoryEntries used = parseDirectoryEntries before ++ [located] ++ parseDirectoryEntries after := by
  induction groups with
  | nil => simp [parseDirectoryEntries, parseFrom] at member
  | @deleted slot rest isDeleted tail ih =>
    rw [parseDirectoryEntries_deleted _ isDeleted] at member
    obtain ⟨before, run, after, rfl, left, right, places, ordinary, parsed⟩ := ih member
    refine ⟨slot :: before, run, after, by simp, .deleted isDeleted left, right, places, ordinary, ?_⟩
    rw [parseDirectoryEntries_deleted _ isDeleted, parseDirectoryEntries_deleted _ isDeleted, parsed]
  | @label slot rest notEnd notDeleted notLong isLabel tail ih =>
    rw [parseDirectoryEntries_label _ notEnd notDeleted notLong isLabel] at member
    obtain ⟨before, run, after, rfl, left, right, places, ordinary, parsed⟩ := ih member
    refine ⟨slot :: before, run, after, by simp, .label notEnd notDeleted notLong isLabel left, right, places,
      ordinary, ?_⟩
    rw [parseDirectoryEntries_label _ notEnd notDeleted notLong isLabel,
      parseDirectoryEntries_label _ notEnd notDeleted notLong isLabel, parsed]
  | @short slot rest ordinary tail ih =>
    rw [parseDirectoryEntries_short _ ordinary] at member ⊢
    rcases List.mem_cons.mp member with rfl | later
    · exact ⟨[], [], rest, by simp, .nil, tail, rfl, ordinary, rfl⟩
    · obtain ⟨before, run, after, rfl, left, right, places, inner, parsed⟩ := ih later
      refine ⟨slot :: before, run, after, by simp, .short ordinary left, right, places, inner, ?_⟩
      rw [parseDirectoryEntries_short _ ordinary, parsed]
      simp
  | @named run slot rest name long complete decoded ordinary tail ih =>
    have whole (others : List Slot) := parseDirectoryEntries_named others long complete decoded ordinary
    rw [whole] at member ⊢
    rcases List.mem_cons.mp member with rfl | later
    · exact ⟨[], run, rest, by simp, .nil, tail, rfl, ordinary, rfl⟩
    · obtain ⟨before, inside, after, rfl, left, right, places, inner, parsed⟩ := ih later
      refine ⟨run ++ slot :: before, inside, after, by simp, .named long complete decoded ordinary left, right,
        places, inner, ?_⟩
      rw [whole, parsed]
      simp

/-- A stored name is one group with one entry. -/
theorem groups_stored {live : List LocatedDirectoryEntry} {filename : List Char} {shortName : ShortName}
    {lfns : List LongDirectoryEntry} (prepared : prepareNameEntries live filename = some (shortName, lfns))
    (locations : List DirectoryEntryLocation) (placed : locations.length = lfns.length) {entry : DirectoryEntry}
    (named : entry.name = shortName) (notLong : entry.isLongFilename = false)
    (notLabel : entry.isVolumeLabel = false) (location : DirectoryEntryLocation) :
    Groups ((lfns.map LongDirectoryEntry.toDirectoryEntry).zip locations ++ [(entry, location)]) ∧
      parseDirectoryEntries ((lfns.map LongDirectoryEntry.toDirectoryEntry).zip locations ++ [(entry, location)]) =
        [⟨entry, location, if lfns.isEmpty then getFilenameFromFat shortName else filename, locations⟩] := by
  subst named
  have ordinary : entry.isNormalEntry = true :=
    isNormalEntry_of_name (isNameByte_prepareNameEntries prepared) notLong notLabel
  cases accepted : getFatFilename filename with
  | some short =>
    rw [prepareNameEntries, accepted, Option.some.injEq, Prod.mk.injEq] at prepared
    obtain ⟨_, rfl⟩ := prepared
    obtain rfl : locations = [] := List.length_eq_zero_iff.mp placed
    refine ⟨.short ordinary .nil, ?_⟩
    exact parseDirectoryEntries_short [] ordinary
  | none =>
    obtain ⟨long, complete, decoded, slots⟩ := prepareNameEntries_run accepted prepared locations placed
    refine ⟨@Groups.named _ (entry, location) [] filename long complete decoded ordinary .nil, ?_⟩
    have parsed := @parseDirectoryEntries_named _ (entry, location) _ filename [] long complete decoded ordinary
    rw [parsed, slots, isEmpty_prepareNameEntries accepted prepared]
    rfl

end Parser

namespace WellFormedSlots

theorem endsClean {slots : List Slot} (well : WellFormedSlots slots) : EndsClean slots := by
  obtain ⟨used, ends, rfl, groups, ended⟩ := well
  rw [endsClean_append groups.notEnd]
  exact endsClean_of_all ended

theorem append_ends {slots more : List Slot} (well : WellFormedSlots slots)
    (ended : ∀ slot ∈ more, slot.1.isEndMarker = true) : WellFormedSlots (slots ++ more) := by
  obtain ⟨used, ends, rfl, groups, earlier⟩ := well
  refine ⟨used, ends ++ more, by rw [List.append_assoc], groups, ?_⟩
  intro slot member
  rcases List.mem_append.mp member with left | right
  · exact earlier slot left
  · exact ended slot right

/-- A free run lies between groups and the rest of the list. -/
theorem split_free {front run back : List Slot} (well : WellFormedSlots (front ++ run ++ back))
    (some_ : run ≠ []) (used : ∀ slot ∈ front, slot.1.isEndMarker = false)
    (free : ∀ slot ∈ run, isFreeSlot slot = true) :
    Groups front ∧ WellFormedSlots back ∧
      ((∀ slot ∈ run, slot.1.isDeleted = true) ∨
        ∃ deleted ends, run = deleted ++ ends ∧ (∀ slot ∈ deleted, slot.1.isDeleted = true) ∧
          ∀ slot ∈ ends ++ back, slot.1.isEndMarker = true) := by
  obtain ⟨kept, ends, split, groups, ended⟩ := well
  have deletedOf (slots : List Slot) (part : ∀ slot ∈ slots, slot ∈ run) (inner : ∀ slot ∈ slots, slot ∈ kept) :
      ∀ slot ∈ slots, slot.1.isDeleted = true := by
    intro slot member
    have marked := free slot (part slot member)
    simpa [isFreeSlot, groups.notEnd slot (inner slot member)] using marked
  rcases List.append_eq_append_iff.mp split with ⟨inner, keptEq, backEq⟩ | ⟨rest, runEq, endsEq⟩
  · subst keptEq
    have deleted := deletedOf run (fun _ member => member) fun slot member => by simp [member]
    rcases groups.split_run deleted with empty | ⟨left, right⟩
    · exact absurd empty some_
    · exact ⟨left, ⟨inner, ends, backEq, right, ended⟩, .inl deleted⟩
  · have backEnded : ∀ slot ∈ rest ++ back, slot.1.isEndMarker = true := by
      rw [← endsEq]
      exact ended
    have wellBack : WellFormedSlots back :=
      ⟨[], back, rfl, .nil, fun slot member => backEnded slot (List.mem_append_right _ member)⟩
    rcases List.append_eq_append_iff.mp runEq with ⟨inner, keptEq, innerEq⟩ | ⟨tail, frontEq, tailEq⟩
    · subst keptEq
      have deleted := deletedOf inner (fun slot member => by rw [innerEq]; simp [member])
        fun slot member => by simp [member]
      have left : Groups front := by
        rw [← List.append_nil (front ++ inner)] at groups
        rcases groups.split_run deleted with empty | both
        · rw [empty, List.append_nil, List.append_nil] at groups
          exact groups
        · exact both.1
      exact ⟨left, wellBack, .inr ⟨inner, rest, innerEq, deleted, backEnded⟩⟩
    · have none : tail = [] := by
        rw [List.eq_nil_iff_forall_not_mem]
        intro slot member
        have isEnd := backEnded slot (by rw [tailEq]; simp [member])
        rw [used slot (by rw [frontEq]; simp [member])] at isEnd
        cases isEnd
      subst none
      rw [List.append_nil] at frontEq
      rw [List.nil_append] at tailEq
      subst frontEq
      exact ⟨groups, wellBack, .inr ⟨[], run, rfl, by simp, by rw [← tailEq]; exact backEnded⟩⟩

section Parser

variable [Unicode] {located : LocatedDirectoryEntry}

/-- A group in place of a free run adds exactly its entry. -/
theorem insert {front run back group : List Slot} (well : WellFormedSlots (front ++ run ++ back)) (some_ : run ≠ [])
    (used : ∀ slot ∈ front, slot.1.isEndMarker = false) (free : ∀ slot ∈ run, isFreeSlot slot = true)
    (groups : Groups group) (parsed : parseDirectoryEntries group = [located]) :
    WellFormedSlots (front ++ group ++ back) ∧
      parseDirectoryEntries (front ++ run ++ back) = parseDirectoryEntries front ++ parseDirectoryEntries back ∧
      parseDirectoryEntries (front ++ group ++ back) =
        parseDirectoryEntries front ++ [located] ++ parseDirectoryEntries back := by
  obtain ⟨left, right, kind⟩ := well.split_free some_ used free
  refine ⟨?_, ?_, ?_⟩
  · obtain ⟨more, ends, rfl, inner, ended⟩ := right
    exact ⟨front ++ group ++ more, ends, by simp, (left.append groups).append inner, ended⟩
  · rw [List.append_assoc, left.parse_append]
    congr 1
    rcases kind with deleted | ⟨deleted, ends, rfl, marked, ended⟩
    · exact parseDirectoryEntries_deletedRun back deleted
    · rw [List.append_assoc, parseDirectoryEntries_deletedRun _ marked, parseDirectoryEntries_ends ended,
        parseDirectoryEntries_ends fun slot member => ended slot (List.mem_append_right _ member)]
  · rw [List.append_assoc, left.parse_append, groups.parse_append, parsed, List.append_assoc]

/-- Deleted slots in place of an entry remove exactly that entry. -/
theorem remove {slots : List Slot} (well : WellFormedSlots slots) (member : located ∈ parseDirectoryEntries slots) :
    ∃ front run back, slots = front ++ (run ++ [(located.entry, located.location)]) ++ back ∧
      run.map Prod.snd = located.lfnLocations ∧ located.entry.isNormalEntry = true ∧
      parseDirectoryEntries slots = parseDirectoryEntries front ++ [located] ++ parseDirectoryEntries back ∧
      ∀ gone : List Slot, (∀ slot ∈ gone, slot.1.isDeleted = true) →
        WellFormedSlots (front ++ gone ++ back) ∧
          parseDirectoryEntries (front ++ gone ++ back) =
            parseDirectoryEntries front ++ parseDirectoryEntries back := by
  obtain ⟨used, ends, rfl, groups, ended⟩ := well
  have empty := parseDirectoryEntries_ends ended
  rw [groups.parse_append, empty, List.append_nil] at member
  obtain ⟨front, run, back, rfl, left, right, places, ordinary, parsed⟩ := groups.locate member
  have tail : parseDirectoryEntries (back ++ ends) = parseDirectoryEntries back := by
    rw [right.parse_append, empty, List.append_nil]
  refine ⟨front, run, back ++ ends, by simp, places, ordinary, ?_, ?_⟩
  · rw [groups.parse_append, empty, List.append_nil, parsed, tail]
  · intro gone deleted
    refine ⟨⟨front ++ gone ++ back, ends, by simp, (left.append (.of_deleted deleted)).append right, ended⟩, ?_⟩
    rw [List.append_assoc, left.parse_append, parseDirectoryEntries_deletedRun _ deleted]

end Parser

end WellFormedSlots

end

open Attempt DirectoryEntry

/-- The parser finds one entry in each of these slots. -/
def liveSlots (slots : List Slot) : List Slot :=
  (slots.takeWhile fun slot => !slot.1.isEndMarker).filter fun slot => slot.1.isNormalEntry

section Slots

variable {slot : Slot} {slots : List Slot}

theorem liveSlots_cons (rest : List Slot) (used : slot.1.isEndMarker = false) :
    liveSlots (slot :: rest) = if slot.1.isNormalEntry then slot :: liveSlots rest else liveSlots rest := by
  rw [liveSlots, List.takeWhile_cons_of_pos (by simp [used]), List.filter_cons]
  rfl

theorem liveSlots_end (rest : List Slot) (ended : slot.1.isEndMarker = true) : liveSlots (slot :: rest) = [] := by
  rw [liveSlots, List.takeWhile_cons_of_neg (by simp [ended])]
  rfl

theorem liveSlots_ends (ended : ∀ slot ∈ slots, slot.1.isEndMarker = true) : liveSlots slots = [] := by
  cases slots with
  | nil => rfl
  | cons slot rest => exact liveSlots_end rest (ended slot List.mem_cons_self)

theorem mem_of_mem_liveSlots (member : slot ∈ liveSlots slots) : slot ∈ slots ∧ slot.1.isNormalEntry = true := by
  rw [liveSlots, List.mem_filter] at member
  exact ⟨List.takeWhile_subset _ member.1, member.2⟩

/-- Slots without an end marker come before the later slots. -/
theorem liveSlots_append {first : List Slot} (second : List Slot)
    (used : ∀ slot ∈ first, slot.1.isEndMarker = false) :
    liveSlots (first ++ second) = liveSlots first ++ liveSlots second := by
  induction first with
  | nil => rfl
  | cons slot rest ih =>
    have here := used slot List.mem_cons_self
    rw [List.cons_append, liveSlots_cons _ here, liveSlots_cons _ here,
      ih fun later member => used later (List.mem_cons_of_mem _ member)]
    split <;> rfl

/-- End markers at the end hold no entry. -/
theorem liveSlots_append_ends (slots : List Slot) {ends : List Slot}
    (ended : ∀ slot ∈ ends, slot.1.isEndMarker = true) : liveSlots (slots ++ ends) = liveSlots slots := by
  induction slots with
  | nil => exact liveSlots_ends ended
  | cons slot rest ih =>
    rw [List.cons_append]
    cases here : slot.1.isEndMarker with
    | true => rw [liveSlots_end _ here, liveSlots_end _ here]
    | false => rw [liveSlots_cons _ here, liveSlots_cons _ here, ih]

/-- Slots that are not ordinary entries hold no entry. -/
theorem liveSlots_eq_nil (special : ∀ slot ∈ slots, slot.1.isNormalEntry = false) : liveSlots slots = [] := by
  rw [liveSlots, List.filter_eq_nil_iff]
  intro slot member
  rw [special slot (List.takeWhile_subset _ member)]
  decide

/-- Free slots hold no entry. -/
theorem liveSlots_free {run : List Slot} (back : List Slot) (free : ∀ slot ∈ run, isFreeSlot slot = true)
    (clean : EndsClean (run ++ back)) : liveSlots (run ++ back) = liveSlots back ∧ EndsClean back := by
  induction run with
  | nil => exact ⟨rfl, clean⟩
  | cons slot rest ih =>
    rw [List.cons_append] at clean ⊢
    cases here : slot.1.isEndMarker with
    | true =>
      have ended := (endsClean_cons_end here).mp clean
      have later (slot : Slot) (member : slot ∈ back) := ended slot (List.mem_append_right _ member)
      rw [liveSlots_end _ here, liveSlots_ends later]
      exact ⟨rfl, endsClean_of_all later⟩
    | false =>
      have deleted : slot.1.isDeleted = true := by
        have state := free slot List.mem_cons_self
        rw [isFreeSlot, here, Bool.or_false] at state
        exact state
      rw [liveSlots_cons _ here, if_neg (by simp [isNormalEntry, deleted])]
      exact ih (fun later member => free later (List.mem_cons_of_mem _ member)) ((endsClean_cons here).mp clean)

/-- The parser finds the live slots in order. -/
theorem map_parseFrom [Unicode] (pending : PendingLfn) (slots : List Slot) :
    (parseFrom pending slots).map (fun located => (located.entry, located.location)) = liveSlots slots := by
  induction slots generalizing pending with
  | nil => rfl
  | cons slot rest ih =>
    obtain ⟨entry, location⟩ := slot
    rw [parseFrom]
    cases ended : entry.isEndMarker with
    | true =>
      rw [liveSlots_end rest ended]
      rfl
    | false =>
      rw [liveSlots_cons rest ended, if_neg (by decide)]
      cases deleted : entry.isDeleted with
      | true => simp [isNormalEntry, deleted, ih]
      | false =>
        cases long : entry.isLongFilename with
        | true => simp [isNormalEntry, long, ih]
        | false =>
          cases label : entry.isVolumeLabel with
          | true => simp [isNormalEntry, label, ih]
          | false =>
            simp only [Bool.false_eq_true, if_false, List.map_cons, ih, isNormalEntry, ended,
              deleted, long, label, Bool.not_false, Bool.and_true, if_true]
            cases pending.longName entry.name <;> rfl

theorem map_parseDirectoryEntries [Unicode] (slots : List Slot) :
    (parseDirectoryEntries slots).map (fun located => (located.entry, located.location)) = liveSlots slots :=
  map_parseFrom _ slots

/-- A parsed entry lies in one of the live slots. -/
theorem mem_liveSlots_of_parsed [Unicode] {slots : List Slot} {located : LocatedDirectoryEntry}
    (member : located ∈ parseDirectoryEntries slots) : (located.entry, located.location) ∈ liveSlots slots := by
  rw [← map_parseDirectoryEntries]
  exact List.mem_map_of_mem member

end Slots

namespace FATFileSystem

/-- The slot of a directory holds an entry that is not one of the dot directories. -/
def EntryIn (fs : Volume) (dir : Nat) (slot : Slot) : Prop :=
  ∃ clusters, FatBuffer.FileChain fs.fat dir clusters ∧ slot ∈ liveSlots (fs.dirSlots clusters) ∧
    isDotName slot.1.name = false

/-- A directory holds the entry of a subdirectory. -/
def Child (fs : Volume) (dir child : Nat) : Prop :=
  ∃ slot, EntryIn fs dir slot ∧ slot.1.isDirectory = true ∧ slot.1.getCluster = child

/-- The entries lead from the root to every live directory. -/
def LiveDirectory (fs : Volume) : Nat → Prop := Relation.ReflTransGen (Child fs) fs.root.getCluster

theorem liveDirectory_root (fs : Volume) : LiveDirectory fs (fs.directoryCluster fs.root) := by
  rw [directoryCluster, ite_self]
  exact .refl

/-- A live entry lies in a live directory. -/
def LiveEntry (fs : Volume) (slot : Slot) : Prop := ∃ dir, LiveDirectory fs dir ∧ EntryIn fs dir slot

/-- A chain belongs to the root directory or to an entry. -/
inductive Owner where
  | root
  | entry (slot : Slot)

namespace Owner

def firstCluster (fs : Volume) : Owner → Nat
  | root => fs.root.getCluster
  | entry slot => slot.1.getCluster

def Live (fs : Volume) : Owner → Prop
  | root => True
  | entry slot => LiveEntry fs slot

/-- A live owner holds the clusters of its chain. -/
def Holds (fs : Volume) (owner : Owner) (clusters : List Nat) : Prop :=
  owner.Live fs ∧ FatBuffer.FileChain fs.fat (owner.firstCluster fs) clusters

end Owner

/-- A volume is well formed when its live chains are separate, fit their entries and cover the table. -/
structure WellFormed (reserved : Nat → UInt32 → Prop) (fs : Volume) : Prop where
  geometry : Geometry fs
  directories : ∀ dir, LiveDirectory fs dir →
    ∃ clusters, FatBuffer.FileChain fs.fat dir clusters ∧ EndsClean (fs.dirSlots clusters) ∧
      ∀ slot ∈ liveSlots (fs.dirSlots clusters), isDotName slot.1.name = true → slot.1.isDirectory = true
  files : ∀ slot, LiveEntry fs slot → slot.1.isRegularFile = true →
    ∃ clusters, Owned fs slot.1 clusters ∧ clusters.length = fs.clustersForSize slot.1.size.toNat ∧
      (slot.1.getCluster = 0 ↔ slot.1.size = 0)
  separate : ∀ first second clusters others, Owner.Holds fs first clusters → Owner.Holds fs second others →
    ∀ cluster ∈ clusters, cluster ∈ others → first = second
  covered : ∀ cluster, 2 ≤ cluster → cluster < fs.fat.entries → fs.fat.word cluster = 0 ∨
    (∃ owner clusters, Owner.Holds fs owner clusters ∧ cluster ∈ clusters) ∨ reserved cluster (fs.fat.word cluster)
  synced : Synced fs

/-- Every file of a live directory is live. -/
theorem WellFormed.file_live {reserved : Nat → UInt32 → Prop} {fs : Volume} (well : WellFormed reserved fs) {dir : Nat}
    (live : LiveDirectory fs dir) {clusters : List Nat} (chain : FatBuffer.FileChain fs.fat dir clusters) {slot : Slot}
    (listed : slot ∈ liveSlots (fs.dirSlots clusters)) (file : slot.1.isDirectory = false) : LiveEntry fs slot := by
  obtain ⟨others, otherChain, _, dotted⟩ := well.directories dir live
  rw [otherChain.unique chain] at dotted
  refine ⟨dir, live, clusters, chain, listed, ?_⟩
  by_contra named
  rw [dotted slot listed (by simpa using named)] at file
  contradiction

section Fresh

theorem root_freshVolume : freshVolume.root.getCluster = 2 := by decide

theorem not_entryIn_freshVolume (slot : Slot) : ¬ EntryIn freshVolume 2 slot := by
  rintro ⟨clusters, chain, listed, _⟩
  rw [chain.unique fileChain_freshVolume, liveSlots_ends ends_freshVolume] at listed
  exact List.not_mem_nil listed

/-- The root is the only directory of the fresh volume. -/
theorem liveDirectory_freshVolume {dir : Nat} (live : LiveDirectory freshVolume dir) : dir = 2 := by
  induction live with
  | refl => exact root_freshVolume
  | tail _ child ih =>
    obtain ⟨slot, entry, _⟩ := child
    rw [ih] at entry
    exact absurd entry (not_entryIn_freshVolume slot)

theorem not_liveEntry_freshVolume (slot : Slot) : ¬ LiveEntry freshVolume slot := by
  rintro ⟨dir, live, entry⟩
  rw [liveDirectory_freshVolume live] at entry
  exact not_entryIn_freshVolume slot entry

/-- The fresh volume is well formed without reserved marks. -/
theorem wellFormed_freshVolume : WellFormed (fun _ _ => False) freshVolume where
  geometry := geometry_freshVolume
  directories dir live := by
    rw [liveDirectory_freshVolume live]
    refine ⟨[2], fileChain_freshVolume, endsClean_of_all ends_freshVolume, ?_⟩
    rw [liveSlots_ends ends_freshVolume]
    simp
  files slot live := absurd live (not_liveEntry_freshVolume slot)
  separate first second _ _ holds otherHolds _ _ _ := by
    cases first with
    | entry slot => exact absurd holds.1 (not_liveEntry_freshVolume slot)
    | root =>
      cases second with
      | entry slot => exact absurd otherHolds.1 (not_liveEntry_freshVolume slot)
      | root => rfl
  covered cluster low high := by
    have words : ∀ cluster < 128, 2 ≤ cluster → freshVolume.fat.word cluster = 0 ∨ cluster = 2 := by decide +kernel
    rcases words cluster high low with free | rfl
    · exact .inl free
    · refine .inr (.inl ⟨.root, [2], ⟨trivial, ?_⟩, List.mem_singleton_self 2⟩)
      rw [Owner.firstCluster, root_freshVolume]
      exact fileChain_freshVolume
  synced := by
    intro tableIndex inside
    obtain rfl : tableIndex = 0 := Nat.lt_one_iff.mp inside
    decide +kernel

end Fresh

end FATFileSystem

end BubbleOs.Fat
