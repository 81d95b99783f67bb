import BubbleOs.Proof.Fat.Entry

namespace BubbleOs.Fat

open Text PendingLfn DirectoryEntry LongDirectoryEntry

variable {sequence : UInt8} {number : Nat}

/-- The later chunks count down to one. -/
def countsDown (checksum : UInt8) : List LongDirectoryEntry → Bool
  | [] => true
  | lfn :: rest => !lfn.isLast && lfn.sequence.toNat == rest.length + 1 && lfn.checksum == checksum &&
      countsDown checksum rest

/-- A complete run starts with the last chunk and counts down to the first chunk. -/
def isCompleteRun (checksum : UInt8) : List LongDirectoryEntry → Bool
  | [] => false
  | lfn :: rest => lfn.isLast && lfn.sequence.toNat == rest.length + 1 &&
      decide (rest.length + 1 ≤ lfnMaxEntries) && lfn.checksum == checksum && countsDown checksum rest

/-- The parser reads this slot as a chunk of a long filename. -/
def isLongSlot (entry : DirectoryEntry) : Bool :=
  !entry.isEndMarker && !entry.isDeleted && entry.isLongFilename

/-- These are the long filename records in a list of slots. -/
def lfnRecords (slots : List Slot) : List LongDirectoryEntry :=
  slots.map fun slot => LongDirectoryEntry.fromDirectoryEntry slot.1

/-- The parser waits for the rest of a long filename in this state. -/
def collecting (chunks : List (List UInt16)) (locations : List DirectoryEntryLocation) (remaining : Nat)
    (checksum : UInt8) : PendingLfn :=
  ⟨chunks, locations, UInt8.ofNat remaining, checksum⟩

/-- A small number is its own sequence byte. -/
theorem sequence_eq_ofNat (same : sequence.toNat = number) : sequence = UInt8.ofNat number := by
  rw [← same, UInt8.ofNat_toNat]

/-- The next expected sequence byte is one less. -/
theorem sequence_sub_one (same : sequence.toNat = number + 1) : sequence - 1 = UInt8.ofNat number := by
  apply sequence_eq_ofNat
  rw [UInt8.toNat_sub_of_le]
  · rw [same, UInt8.toNat_one, Nat.add_sub_cancel]
  · rw [UInt8.le_iff_toNat_le, UInt8.toNat_one]
    omega

theorem sequence_ne_zero (same : sequence.toNat = number + 1) : sequence ≠ 0 := by
  rintro rfl
  rw [UInt8.toNat_zero] at same
  omega

/-- The expected chunk joins the collected chunks. -/
theorem accept_collecting (chunks : List (List UInt16)) (locations : List DirectoryEntryLocation)
    (remaining : Nat) (lfn : LongDirectoryEntry) (location : DirectoryEntryLocation)
    (inner : lfn.isLast = false) (sequence : lfn.sequence.toNat = remaining + 1) :
    (collecting chunks locations (remaining + 1) lfn.checksum).accept lfn location =
      collecting (chunks ++ [lfn.nameUnits]) (locations ++ [location]) remaining lfn.checksum := by
  rw [collecting, ← sequence_eq_ofNat sequence, collecting, ← sequence_sub_one sequence]
  simp [accept, start, inner, sequence_ne_zero sequence]

/-- The last chunk starts a collection in every parser state. -/
theorem accept_last (pending : PendingLfn) (remaining : Nat) (supported : remaining + 1 ≤ lfnMaxEntries)
    (lfn : LongDirectoryEntry) (location : DirectoryEntryLocation) (last : lfn.isLast = true)
    (sequence : lfn.sequence.toNat = remaining + 1) :
    pending.accept lfn location = collecting [lfn.nameUnits] [location] remaining lfn.checksum := by
  have positive : 1 ≤ lfn.sequence := by
    rw [UInt8.le_iff_toNat_le, sequence, UInt8.toNat_one]
    omega
  rw [collecting, ← sequence_sub_one sequence]
  rw [← sequence] at supported
  simp [accept, start, last, positive, supported, sequence_ne_zero sequence]

section Parser

variable [Unicode]

/-- A long slot passes its record to the pending name. -/
theorem parseFrom_long (pending : PendingLfn) (slot : Slot) (rest : List Slot)
    (long : isLongSlot slot.1 = true) :
    parseFrom pending (slot :: rest) =
      parseFrom (pending.accept (fromDirectoryEntry slot.1) slot.2) rest := by
  simp only [isLongSlot, Bool.and_eq_true, Bool.not_eq_true'] at long
  obtain ⟨⟨notEnd, notDeleted⟩, isLong⟩ := long
  rw [parseFrom]
  simp [notEnd, notDeleted, isLong]

/-- The parser collects the later chunks of a run. -/
theorem parseFrom_countsDown (checksum : UInt8) (run rest : List Slot) (chunks : List (List UInt16))
    (locations : List DirectoryEntryLocation) (long : ∀ slot ∈ run, isLongSlot slot.1 = true)
    (counts : countsDown checksum (lfnRecords run) = true) :
    parseFrom (collecting chunks locations run.length checksum) (run ++ rest) =
      parseFrom (collecting (chunks ++ (lfnRecords run).map nameUnits)
        (locations ++ run.map Prod.snd) 0 checksum) rest := by
  induction run generalizing chunks locations with
  | nil => simp [lfnRecords]
  | cons slot run ih =>
    simp only [lfnRecords, List.map_cons, countsDown, Bool.and_eq_true, Bool.not_eq_true', beq_iff_eq,
      List.length_map] at counts
    obtain ⟨⟨⟨inner, sequence⟩, same⟩, counts⟩ := counts
    rw [List.cons_append, parseFrom_long _ _ _ (long slot List.mem_cons_self), List.length_cons, ← same,
      accept_collecting _ _ _ _ _ inner sequence, same,
      ih _ _ (fun later member => long later (List.mem_cons_of_mem _ member)) counts]
    simp [lfnRecords]

/-- The parser collects a complete run in every state. -/
theorem parseFrom_run (pending : PendingLfn) (checksum : UInt8) (run rest : List Slot)
    (long : ∀ slot ∈ run, isLongSlot slot.1 = true)
    (complete : isCompleteRun checksum (lfnRecords run) = true) :
    parseFrom pending (run ++ rest) =
      parseFrom (collecting ((lfnRecords run).map nameUnits) (run.map Prod.snd) 0 checksum)
        rest := by
  cases run with
  | nil => simp [lfnRecords, isCompleteRun] at complete
  | cons slot run =>
    simp only [lfnRecords, List.map_cons, isCompleteRun, Bool.and_eq_true, beq_iff_eq, List.length_map,
      decide_eq_true_eq] at complete
    obtain ⟨⟨⟨⟨last, sequence⟩, supported⟩, same⟩, counts⟩ := complete
    rw [List.cons_append, parseFrom_long _ _ _ (long slot List.mem_cons_self),
      accept_last _ _ supported _ _ last sequence, same,
      parseFrom_countsDown _ _ _ _ _ (fun later member => long later (List.mem_cons_of_mem _ member)) counts]
    simp [lfnRecords]

/-- An idle parser does not depend on the last checksum. -/
theorem parseFrom_idle (first second : UInt8) (slots : List Slot) :
    parseFrom ⟨[], [], 0, first⟩ slots = parseFrom ⟨[], [], 0, second⟩ slots := by
  induction slots generalizing first second with
  | nil => rfl
  | cons slot rest ih =>
    have accepted (checksum : UInt8) (lfn : LongDirectoryEntry) :
        (accept ⟨[], [], 0, checksum⟩ lfn slot.2) =
          if lfn.isLast then accept initial lfn slot.2 else ⟨[], [], 0, checksum⟩ := by
      split <;> rename_i last <;> simp [accept, start, clear, last]
    rw [parseFrom, parseFrom]
    simp only [clear, longName, List.isEmpty_nil, accepted]
    rw [ih first second]
    split
    · rfl
    · split
      · rfl
      · split
        · split
          · rfl
          · exact ih first second
        · rfl

/-- A fixed parse of the rest follows the parse of slots without an end marker. -/
theorem parseFrom_append (rest : List Slot) (parsed : List LocatedDirectoryEntry)
    (fixed : ∀ pending, parseFrom pending rest = parsed) (preceding : List Slot)
    (noEnd : ∀ slot ∈ preceding, slot.1.isEndMarker = false) (pending : PendingLfn) :
    parseFrom pending (preceding ++ rest) = parseFrom pending preceding ++ parsed := by
  induction preceding generalizing pending with
  | nil => simp [parseFrom, fixed]
  | cons slot preceding ih =>
    have later := ih fun other member => noEnd other (List.mem_cons_of_mem _ member)
    rw [List.cons_append, parseFrom, parseFrom]
    simp only [noEnd slot List.mem_cons_self, Bool.false_eq_true, if_false, later]
    split
    · rfl
    · split
      · rfl
      · split
        · rfl
        · rw [List.cons_append]

/-- A short entry after a complete run takes the run's name. -/
theorem parseFrom_named (pending : PendingLfn) (run rest : List Slot) (short : Slot) (name : List Char)
    (long : ∀ slot ∈ run, isLongSlot slot.1 = true)
    (complete : isCompleteRun (lfnChecksum short.1.name) (lfnRecords run) = true)
    (decoded : decodeLongFilename ((lfnRecords run).map nameUnits).reverse.flatten = some name)
    (ordinary : short.1.isNormalEntry = true) :
    parseFrom pending (run ++ short :: rest) =
      ⟨short.1, short.2, name, run.map Prod.snd⟩ :: parseDirectoryEntries rest := by
  have nonempty : (lfnRecords run).map nameUnits ≠ [] := by
    intro empty
    rw [List.map_eq_nil_iff] at empty
    rw [empty] at complete
    simp [isCompleteRun] at complete
  simp only [isNormalEntry, Bool.and_eq_true, Bool.not_eq_true'] at ordinary
  obtain ⟨⟨⟨notEnd, notDeleted⟩, notLong⟩, notLabel⟩ := ordinary
  rw [parseFrom_run pending _ run _ long complete, parseFrom, parseDirectoryEntries, initial]
  simp only [notEnd, notDeleted, notLong, notLabel, Bool.false_eq_true, if_false]
  have longName : (collecting ((lfnRecords run).map nameUnits) (run.map Prod.snd) 0
      (lfnChecksum short.1.name)).longName short.1.name = some name := by
    simp only [longName, collecting, List.isEmpty_eq_false_iff.mpr nonempty]
    simpa using decoded
  simp only [longName]
  simp only [clear, collecting]
  rw [parseFrom_idle (lfnChecksum short.1.name) 0]

end Parser

/-- The bytes of units return the units. -/
theorem pairUnits_flatMap (units : List UInt16) :
    pairUnits (units.flatMap le16) = units := by
  induction units with
  | nil => rfl
  | cons unit rest ih =>
    rw [List.flatMap_cons, le16, List.cons_append, List.singleton_append, pairUnits, ih,
      ofLe16_le16]

theorem length_flatMap_le16 (units : List UInt16) : (units.flatMap le16).length = 2 * units.length := by
  induction units with
  | nil => rfl
  | cons unit rest ih =>
    rw [List.flatMap_cons, List.length_append, ih, length_le16, List.length_cons]
    omega

/-- A record has thirteen units. -/
theorem length_padUnits (units : List UInt16) : (padUnits units).length = 13 := by
  simp only [padUnits, lfnUnitsPerEntry, List.length_take, List.length_append,
    List.length_cons, List.length_replicate]
  omega

/-- A record returns its padded units. -/
theorem nameUnits_new (sequence : UInt8) (last : Bool) (checksum : UInt8) (units : List UInt16) :
    (new sequence last checksum units).nameUnits = padUnits units := by
  have length := length_padUnits units
  simp only [nameUnits, new]
  generalize padUnits units = padded at length
  have filled {size : Nat} (part : List UInt16) (exact : 2 * part.length = size) :
      pairUnits (Bytes.fill 0 (part.flatMap le16) : Bytes size).toList = part := by
    rw [Bytes.fill_toList _ _ (by rw [length_flatMap_le16, exact]), pairUnits_flatMap]
  rw [filled _ (by rw [List.length_take]; omega), filled _ (by rw [List.length_take, List.length_drop]; omega),
    filled _ (by rw [List.length_drop]; omega), ← List.take_add, List.take_append_drop]

/-- This is one chunk of the units of a name. -/
def nameChunk (units : List UInt16) (chunkIndex : Nat) : List UInt16 :=
  (units.drop (chunkIndex * lfnUnitsPerEntry)).take lfnUnitsPerEntry

/-- The padded chunks are the units with at most one terminator and its filler. -/
theorem flatten_padUnits (count : Nat) (units : List UInt16) (more : 13 * count < units.length)
    (enough : units.length ≤ 13 * (count + 1)) :
    ∃ padding, ((List.range (count + 1)).map fun index =>
        padUnits (nameChunk units index)).flatten = units ++ padding ∧
      (padding = [] ∨ padding.head? = some 0) := by
  induction count generalizing units with
  | zero =>
    have whole : nameChunk units 0 = units := by
      simp only [nameChunk, Nat.zero_mul, List.drop_zero, lfnUnitsPerEntry]
      exact List.take_of_length_le (by omega)
    simp only [Nat.zero_add, List.range_one, List.map_cons, List.map_nil, List.flatten_cons,
      List.flatten_nil, List.append_nil, whole, padUnits, lfnUnitsPerEntry]
    rw [List.take_append, List.take_of_length_le (by omega)]
    refine ⟨_, rfl, ?_⟩
    by_cases full : units.length = 13
    · left
      rw [full]
      rfl
    · right
      obtain ⟨room, same⟩ : ∃ room, 13 - units.length = room + 1 := ⟨12 - units.length, by omega⟩
      rw [same]
      rfl
  | succ count ih =>
    have first : padUnits (nameChunk units 0) = units.take 13 := by
      simp only [nameChunk, Nat.zero_mul, List.drop_zero, lfnUnitsPerEntry, padUnits]
      rw [List.take_append_of_le_length (by rw [List.length_take]; omega), List.take_take]
      rfl
    have shift (index : Nat) : nameChunk units (index + 1) = nameChunk (units.drop 13) index := by
      simp only [nameChunk, lfnUnitsPerEntry, List.drop_drop]
      congr 2
      omega
    obtain ⟨padding, same, ending⟩ := ih (units.drop 13) (by rw [List.length_drop]; omega)
      (by rw [List.length_drop]; omega)
    refine ⟨padding, ?_, ending⟩
    rw [List.range_succ_eq_map, List.map_cons, List.map_map, List.flatten_cons, first]
    simp only [Function.comp_def, Nat.succ_eq_add_one, shift]
    rw [same, ← List.append_assoc, List.take_append_drop]

/-- The padding ends the stored name. -/
theorem decodeLongFilename_padded (filename : List Char) (nonempty : filename ≠ [])
    (clean : ∀ char ∈ filename, char.toNat ≠ 0) (padding : List UInt16)
    (ending : padding = [] ∨ padding.head? = some 0) :
    decodeLongFilename (encodeUtf16 filename ++ padding) = some filename := by
  have nonzero (unit : UInt16) (member : unit ∈ encodeUtf16 filename) : (unit != 0) = true := by
    simpa using encodeUtf16_ne_zero filename clean unit member
  have stop : padding.takeWhile (· != 0) = [] := by
    rcases ending with rfl | head
    · rfl
    · cases padding with
      | nil => rfl
      | cons unit rest =>
        rw [List.head?_cons, Option.some.injEq] at head
        rw [head]
        rfl
  have kept : (encodeUtf16 filename ++ padding).takeWhile (· != 0) = encodeUtf16 filename := by
    rw [List.takeWhile_append_of_pos nonzero, stop, List.append_nil]
  simp [decodeLongFilename, kept, decodeUtf16_encodeUtf16, nonempty]

/-- Every sequence number of a supported run survives its order byte. -/
theorem order_table (number : Nat) (small : number < 21) :
    (UInt8.ofNat number ||| lfnLastEntryFlag) &&& lfnSequenceMask = UInt8.ofNat number ∧
      (UInt8.ofNat number ||| lfnLastEntryFlag) &&& lfnLastEntryFlag ≠ 0 ∧
      UInt8.ofNat number &&& lfnSequenceMask = UInt8.ofNat number ∧
      UInt8.ofNat number &&& lfnLastEntryFlag = 0 := by
  revert number
  decide

/-- The order byte of a chunk marks no free slot. -/
theorem order_used (number : Nat) (small : number < 21) (positive : 0 < number) (last : Bool) :
    (if last then UInt8.ofNat number ||| lfnLastEntryFlag else UInt8.ofNat number) ≠ 0 ∧
      (if last then UInt8.ofNat number ||| lfnLastEntryFlag else UInt8.ofNat number) ≠ 0xE5 := by
  revert last number
  decide

/-- This is the record of one chunk in a run of the given length. -/
def chunkRecord (units : List UInt16) (checksum : UInt8) (chunkCount chunkIndex : Nat) : LongDirectoryEntry :=
  LongDirectoryEntry.new (UInt8.ofNat (chunkIndex + 1)) (chunkIndex == chunkCount - 1) checksum
    (nameChunk units chunkIndex)

section Records

variable (units : List UInt16) (checksum : UInt8)

/-- A name with units has one chunk more than its full chunks before the end. -/
theorem longFilenameEntries_eq (more : 0 < units.length) :
    longFilenameEntries units checksum =
      (List.range ((units.length - 1) / 13 + 1)).reverse.map
        (chunkRecord units checksum ((units.length - 1) / 13 + 1)) := by
  have count : (units.length + lfnUnitsPerEntry - 1) / lfnUnitsPerEntry = (units.length - 1) / 13 + 1 := by
    simp only [lfnUnitsPerEntry]
    omega
  simp only [longFilenameEntries, count]
  rfl

/-- Every chunk below the last one belongs to the countdown. -/
theorem countsDown_chunks (chunkCount count : Nat) (below : count < chunkCount) (supported : chunkCount ≤ 20) :
    countsDown checksum ((List.range count).reverse.map (chunkRecord units checksum chunkCount)) = true := by
  induction count with
  | zero => rfl
  | succ count ih =>
    have inner : (count == chunkCount - 1) = false := by
      rw [beq_eq_false_iff_ne]
      omega
    obtain ⟨_, _, sequence, last⟩ := order_table (count + 1) (by omega)
    rw [List.range_succ, List.reverse_append, List.reverse_singleton, List.singleton_append, List.map_cons,
      countsDown, ih (by omega)]
    simp only [chunkRecord, new, isLast, LongDirectoryEntry.sequence,
      inner, Bool.false_eq_true, if_false, sequence, last, List.length_map, List.length_reverse,
      List.length_range, UInt8.toNat_ofNat', bne_self_eq_false, Bool.not_false, beq_self_eq_true,
      Bool.and_true, Bool.true_and, beq_iff_eq]
    omega

/-- The stored chunks form a complete run. -/
theorem isCompleteRun_longFilenameEntries (more : 0 < units.length) (supported : units.length ≤ lfnMaxUnits) :
    isCompleteRun checksum (longFilenameEntries units checksum) = true := by
  simp only [lfnMaxUnits] at supported
  rw [longFilenameEntries_eq units checksum more]
  have bound : (units.length - 1) / 13 < 20 := by omega
  generalize (units.length - 1) / 13 = count at bound
  obtain ⟨sequence, last, _, _⟩ := order_table (count + 1) (by omega)
  have counts := countsDown_chunks units checksum (count + 1) count (by omega) (by omega)
  rw [List.range_succ, List.reverse_append, List.reverse_singleton, List.singleton_append, List.map_cons,
    isCompleteRun, counts]
  simp only [chunkRecord, new, isLast, LongDirectoryEntry.sequence,
    Nat.add_sub_cancel, beq_self_eq_true, if_true, sequence, List.length_map, List.length_reverse,
    List.length_range, UInt8.toNat_ofNat', Bool.and_true, Bool.and_eq_true, beq_iff_eq, bne_iff_ne, ne_eq,
    decide_eq_true_eq]
  refine ⟨⟨last, by omega⟩, ?_⟩
  change count + 1 ≤ 20
  omega

/-- The parser reads every stored chunk as a long slot. -/
theorem isLongSlot_longFilenameEntries (more : 0 < units.length) (supported : units.length ≤ lfnMaxUnits)
    (lfn : LongDirectoryEntry) (member : lfn ∈ longFilenameEntries units checksum) :
    isLongSlot lfn.toDirectoryEntry = true := by
  simp only [lfnMaxUnits] at supported
  rw [longFilenameEntries_eq units checksum more, List.mem_map] at member
  obtain ⟨chunkIndex, inside, rfl⟩ := member
  rw [List.mem_reverse, List.mem_range] at inside
  have used := order_used (chunkIndex + 1) (by omega) (by omega) (chunkIndex == (units.length - 1) / 13)
  simp only [isLongSlot, isEndMarker, isDeleted, isLongFilename,
    firstByte_toDirectoryEntry, attributes_toDirectoryEntry, chunkRecord,
    new, Nat.add_sub_cancel, beq_eq_false_iff_ne.mpr used.1, beq_eq_false_iff_ne.mpr used.2]
  rfl

/-- The collected units are the name and its padding. -/
theorem flatten_longFilenameEntries (more : 0 < units.length) :
    ∃ padding, ((longFilenameEntries units checksum).map nameUnits).reverse.flatten =
        units ++ padding ∧ (padding = [] ∨ padding.head? = some 0) := by
  have chunks := flatten_padUnits ((units.length - 1) / 13) units (by omega) (by omega)
  rw [longFilenameEntries_eq units checksum more, List.map_reverse, List.map_reverse, List.reverse_reverse,
    List.map_map]
  simpa only [Function.comp_def, chunkRecord, nameUnits_new] using chunks

end Records

/-- A stored name makes an ordinary entry under ordinary attributes. -/
theorem isNormalEntry_of_name {entry : DirectoryEntry} (named : isNameByte (entry.name.toList.getD 0 0) = true)
    (notLong : entry.isLongFilename = false) (notLabel : entry.isVolumeLabel = false) :
    entry.isNormalEntry = true := by
  rw [isNormalEntry, isEndMarker_of_nameByte named, isDeleted_of_nameByte named, notLong, notLabel]
  rfl

/-- A long filename has at least one unit and no null unit. -/
theorem encodeLongFilename_eq_some {filename : List Char} {units : List UInt16}
    (encoded : encodeLongFilename filename = some units) :
    units = encodeUtf16 filename ∧ filename ≠ [] ∧ (∀ char ∈ filename, char.toNat ≠ 0) ∧
      units.length ≤ lfnMaxUnits := by
  simp only [encodeLongFilename] at encoded
  split at encoded
  · simp at encoded
  · rename_i good
    simp only [Bool.or_eq_true, not_or, Bool.not_eq_true, List.isEmpty_eq_false_iff, List.any_eq_false] at good
    split at encoded
    · simp at encoded
    · rename_i supported
      cases encoded
      refine ⟨rfl, good.1.1.1.1.1, ?_, by omega⟩
      intro char member zero
      have allowed := good.2 char member
      simp [isInvalidLongNameChar, zero] at allowed

/-- The records survive the slots that hold them. -/
theorem lfnRecords_zip (lfns : List LongDirectoryEntry) (locations : List DirectoryEntryLocation)
    (same : locations.length = lfns.length) :
    lfnRecords ((lfns.map toDirectoryEntry).zip locations) = lfns := by
  induction lfns generalizing locations with
  | nil => rfl
  | cons lfn lfns ih =>
    cases locations with
    | nil => simp at same
    | cons location locations =>
      have rest := ih locations (by simpa using same)
      simp only [lfnRecords] at rest
      simp only [lfnRecords, List.map_cons, List.zip_cons_cons, rest,
        fromDirectoryEntry_toDirectoryEntry]

section RoundTrip

variable [Unicode] {parsed : List LocatedDirectoryEntry} {filename : List Char} {shortName : ShortName}
  {lfns : List LongDirectoryEntry}

/-- A name without a short form is stored as the chunks of its units. -/
theorem prepareNameEntries_long (rejected : getFatFilename filename = none)
    (prepared : prepareNameEntries parsed filename = some (shortName, lfns)) :
    ∃ units, encodeLongFilename filename = some units ∧
      lfns = longFilenameEntries units (lfnChecksum shortName) := by
  rw [prepareNameEntries, rejected] at prepared
  simp only [Option.bind_eq_bind, Option.bind_eq_some_iff] at prepared
  obtain ⟨units, encoded, chosen, _, same⟩ := prepared
  cases same
  exact ⟨units, encoded, rfl⟩

/-- A long filename takes at least one slot. -/
theorem isEmpty_prepareNameEntries (rejected : getFatFilename filename = none)
    (prepared : prepareNameEntries parsed filename = some (shortName, lfns)) : lfns.isEmpty = false := by
  obtain ⟨units, encoded, rfl⟩ := prepareNameEntries_long rejected prepared
  obtain ⟨rfl, nonempty, _, _⟩ := encodeLongFilename_eq_some encoded
  rw [longFilenameEntries_eq _ _ (List.length_pos_of_ne_nil (encodeUtf16_ne_nil _ nonempty))]
  simp

/-- The stored slots of a long filename form a complete run that decodes to the name. -/
theorem prepareNameEntries_run {live : List LocatedDirectoryEntry} (rejected : getFatFilename filename = none)
    (prepared : prepareNameEntries live filename = some (shortName, lfns)) (locations : List DirectoryEntryLocation)
    (placed : locations.length = lfns.length) :
    let run := (lfns.map toDirectoryEntry).zip locations
    (∀ slot ∈ run, isLongSlot slot.1 = true) ∧
      isCompleteRun (lfnChecksum shortName) (lfnRecords run) = true ∧
      decodeLongFilename ((lfnRecords run).map nameUnits).reverse.flatten = some filename ∧
      run.map Prod.snd = locations := by
  intro run
  have records : lfnRecords run = lfns := lfnRecords_zip lfns locations placed
  obtain ⟨units, encoded, stored⟩ := prepareNameEntries_long rejected prepared
  obtain ⟨rfl, nonempty, clean, supported⟩ := encodeLongFilename_eq_some encoded
  have more : 0 < (encodeUtf16 filename).length := List.length_pos_of_ne_nil (encodeUtf16_ne_nil _ nonempty)
  refine ⟨?_, ?_, ?_, ?_⟩
  · intro slot member
    obtain ⟨lfn, inside, same⟩ := List.mem_map.mp (List.of_mem_zip member).1
    rw [← same]
    exact isLongSlot_longFilenameEntries _ _ more supported lfn (stored ▸ inside)
  · rw [records, stored]
    exact isCompleteRun_longFilenameEntries _ _ more supported
  · obtain ⟨padding, collected, ending⟩ := flatten_longFilenameEntries (encodeUtf16 filename)
      (lfnChecksum shortName) more
    rw [records, stored, collected]
    exact decodeLongFilename_padded filename nonempty clean padding ending
  · exact List.map_snd_zip (by rw [List.length_map]; omega)

/-- A stored long filename is one entry of the parse, with its own name and slots, in every context. -/
theorem parseDirectoryEntries_longFilename (live : List LocatedDirectoryEntry) (filename : List Char)
    (shortName : ShortName) (lfns : List LongDirectoryEntry) (rejected : getFatFilename filename = none)
    (prepared : prepareNameEntries live filename = some (shortName, lfns)) (preceding following : List Slot)
    (noEnd : ∀ slot ∈ preceding, slot.1.isEndMarker = false) (locations : List DirectoryEntryLocation)
    (placed : locations.length = lfns.length) (entry : DirectoryEntry) (location : DirectoryEntryLocation)
    (named : entry.name = shortName) (notLong : entry.isLongFilename = false)
    (notLabel : entry.isVolumeLabel = false) :
    parseDirectoryEntries (preceding ++ (lfns.map LongDirectoryEntry.toDirectoryEntry).zip locations ++
        [(entry, location)] ++ following) =
      parseDirectoryEntries preceding ++ [⟨entry, location, filename, locations⟩] ++
        parseDirectoryEntries following := by
  subst named
  have ordinary : entry.isNormalEntry = true :=
    isNormalEntry_of_name (isNameByte_prepareNameEntries prepared) notLong notLabel
  obtain ⟨long, complete, decoded, slots⟩ := prepareNameEntries_run rejected prepared locations placed
  have stored (pending : PendingLfn) := parseFrom_named pending _ following (entry, location) filename long
    complete decoded ordinary
  rw [parseDirectoryEntries, List.append_assoc, List.append_assoc, List.singleton_append,
    parseFrom_append _ _ stored preceding noEnd, slots, List.append_assoc]
  rfl

end RoundTrip

/-- The round trip covers a name with a space and an extension. -/
theorem parse_long_name_txt :
    @prepareNameEntries asciiTables [] "long name.txt".toList =
        some (Bytes.fill 0x20 "LONGNA~1TXT".toUTF8.toList,
          longFilenameEntries (encodeUtf16 "long name.txt".toList)
            (lfnChecksum (Bytes.fill 0x20 "LONGNA~1TXT".toUTF8.toList))) ∧
      @parseDirectoryEntries asciiTables
        (((longFilenameEntries (encodeUtf16 "long name.txt".toList)
          (lfnChecksum (Bytes.fill 0x20 "LONGNA~1TXT".toUTF8.toList))).map
            LongDirectoryEntry.toDirectoryEntry).zip [⟨2, 0, 0⟩] ++
          [(blankEntry (Bytes.fill 0x20 "LONGNA~1TXT".toUTF8.toList) 0x20, ⟨2, 1, 32⟩)]) =
        [⟨blankEntry (Bytes.fill 0x20 "LONGNA~1TXT".toUTF8.toList) 0x20, ⟨2, 1, 32⟩,
          "long name.txt".toList, [⟨2, 0, 0⟩]⟩] := by
  have prepared : @prepareNameEntries asciiTables [] "long name.txt".toList =
      some (Bytes.fill 0x20 "LONGNA~1TXT".toUTF8.toList,
        longFilenameEntries (encodeUtf16 "long name.txt".toList)
          (lfnChecksum (Bytes.fill 0x20 "LONGNA~1TXT".toUTF8.toList))) := by
    decide +kernel
  refine ⟨prepared, ?_⟩
  simpa [parseDirectoryEntries, parseFrom] using @parseDirectoryEntries_longFilename asciiTables [] _ _ _
    (by decide +kernel) prepared [] [] (by simp) [⟨2, 0, 0⟩] (by decide +kernel) _ ⟨2, 1, 32⟩
    (rfl : (blankEntry (Bytes.fill 0x20 "LONGNA~1TXT".toUTF8.toList) 0x20).name = _) (by decide) (by decide)

end BubbleOs.Fat
