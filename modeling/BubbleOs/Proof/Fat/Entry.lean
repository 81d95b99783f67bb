import BubbleOs.Construction.Fat.Directory
import Mathlib.Data.List.TakeWhile

namespace BubbleOs.Fat

/-- A list starts with its looked-up bytes. -/
theorem take_eq_map_getD {A : Type} (filler : A) (source : List A) (count : Nat) (enough : count ≤ source.length) :
    source.take count = (List.range count).map fun index => source.getD index filler := by
  apply List.ext_getElem
  · simp only [List.length_take, List.length_map, List.length_range]
    omega
  · intro index inside _
    rw [List.length_take] at inside
    simp only [List.getElem_take, List.getElem_map, List.getElem_range]
    exact List.getElem_eq_getD filler

namespace DirectoryEntry

@[simp] theorem length_toBytes (entry : DirectoryEntry) : entry.toBytes.length = entrySize := by
  simp [toBytes, entrySize]

/-- The record at an offset keeps its thirty-two bytes. -/
theorem toBytes_readAt (buffer : List UInt8) (offset : Nat) (inside : offset + entrySize ≤ buffer.length) :
    (readAt buffer offset).toBytes = (buffer.drop offset).take entrySize := by
  simp only [entrySize] at inside ⊢
  have enough : 32 ≤ (buffer.drop offset).length := by
    rw [List.length_drop]
    omega
  simp only [readAt]
  generalize buffer.drop offset = bytes at enough
  have name : (Bytes.fill 0 (bytes.take 11) : ShortName).toList = bytes.take 11 := by
    apply Bytes.fill_toList
    rw [List.length_take]
    omega
  have fields : (bytes.drop 11).take 21 =
      (List.range 21).map fun index => bytes.getD (11 + index) 0 := by
    rw [take_eq_map_getD 0 _ 21 (by rw [List.length_drop]; omega)]
    simp only [List.getD_eq_getElem?_getD, List.getElem?_drop]
  have split : bytes.take 32 = bytes.take 11 ++ (bytes.drop 11).take 21 :=
    List.take_add (i := 11) (j := 21)
  rw [split, fields]
  simp only [toBytes, name, le16_ofLe16, le32_ofLe32, List.append_assoc]
  rfl

/-- The bytes at an offset decide the record. -/
theorem readAt_congr {first second : List UInt8} {offset other : Nat}
    (same : (first.drop offset).take entrySize = (second.drop other).take entrySize) :
    readAt first offset = readAt second other := by
  simp only [entrySize] at same
  have byte (index : Nat) (small : index < 32) :
      (first.drop offset).getD index 0 = (second.drop other).getD index 0 := by
    have lookup := congrArg (fun bytes => bytes[index]?) same
    simp only [List.getElem?_take_of_lt small] at lookup
    simp only [List.getD_eq_getElem?_getD, lookup]
  have name : (first.drop offset).take 11 = (second.drop other).take 11 := by
    have short := congrArg (List.take 11) same
    simpa only [List.take_take, Nat.min_eq_left (show 11 ≤ 32 by omega)] using short
  simp only [readAt, name, byte _ (show 11 < 32 by omega), byte _ (show 12 < 32 by omega),
    byte _ (show 13 < 32 by omega), byte _ (show 14 < 32 by omega), byte _ (show 15 < 32 by omega),
    byte _ (show 16 < 32 by omega), byte _ (show 17 < 32 by omega), byte _ (show 18 < 32 by omega),
    byte _ (show 19 < 32 by omega), byte _ (show 20 < 32 by omega), byte _ (show 21 < 32 by omega),
    byte _ (show 22 < 32 by omega), byte _ (show 23 < 32 by omega), byte _ (show 24 < 32 by omega),
    byte _ (show 25 < 32 by omega), byte _ (show 26 < 32 by omega), byte _ (show 27 < 32 by omega),
    byte _ (show 28 < 32 by omega), byte _ (show 29 < 32 by omega), byte _ (show 30 < 32 by omega),
    byte _ (show 31 < 32 by omega)]

/-- The stored record returns the entry. -/
theorem readAt_toBytes (entry : DirectoryEntry) : readAt entry.toBytes 0 = entry := by
  have field (index : Nat) (tail : List UInt8) :
      (entry.name.toList ++ tail).getD (11 + index) 0 = tail.getD index 0 := by
    rw [List.getD_eq_getElem?_getD, List.getElem?_append_right (by simp), Bytes.length_toList,
      Nat.add_sub_cancel_left, ← List.getD_eq_getElem?_getD]
  have name (tail : List UInt8) :
      (Bytes.fill 0 ((entry.name.toList ++ tail).take 11) : ShortName) = entry.name := by
    have short : (entry.name.toList ++ tail).take 11 = entry.name.toList := by
      rw [List.take_append_of_le_length (by simp), List.take_of_length_le (by simp)]
    apply Bytes.ext
    rw [short, Bytes.fill_toList _ _ (by simp)]
  simp only [readAt, toBytes, List.drop_zero, List.append_assoc, name, field 0, field 1, field 2, field 3,
    field 4, field 5, field 6, field 7, field 8, field 9, field 10, field 11, field 12, field 13, field 14,
    field 15, field 16, field 17, field 18, field 19, field 20]
  simp only [le16, le32, List.cons_append, List.nil_append, List.getD_cons_zero, List.getD_cons_succ,
    ofLe16_le16, ofLe32_le32]

/-- A write to a slot is read back. -/
theorem readAt_overwrite_same (buffer : List UInt8) (offset : Nat) (entry : DirectoryEntry)
    (inside : offset + entrySize ≤ buffer.length) :
    readAt (overwrite buffer offset entry.toBytes) offset = entry := by
  have start : (buffer.take offset).length = offset := by
    rw [List.length_take]
    omega
  have stored : ((overwrite buffer offset entry.toBytes).drop offset).take entrySize =
      (entry.toBytes.drop 0).take entrySize := by
    rw [overwrite, List.append_assoc, List.drop_append_of_le_length (by omega),
      List.drop_eq_nil_of_le (by omega), List.nil_append,
      List.take_append_of_le_length (by simp), List.drop_zero]
  rw [readAt_congr stored, readAt_toBytes]

/-- A write elsewhere keeps a slot. -/
theorem readAt_overwrite_other (buffer source : List UInt8) (offset other : Nat)
    (inside : offset + source.length ≤ buffer.length)
    (apart : other + entrySize ≤ offset ∨ offset + source.length ≤ other) :
    readAt (overwrite buffer offset source) other = readAt buffer other := by
  apply readAt_congr
  apply List.ext_getElem?
  intro index
  by_cases small : index < entrySize
  · rw [List.getElem?_take_of_lt small, List.getElem?_take_of_lt small, List.getElem?_drop,
      List.getElem?_drop, getElem?_overwrite _ _ _ inside, if_neg (by omega)]
  · rw [List.getElem?_eq_none, List.getElem?_eq_none]
    · exact Nat.le_trans (List.length_take_le _ _) (by omega)
    · exact Nat.le_trans (List.length_take_le _ _) (by omega)

/-- A marked entry is deleted. -/
theorem isDeleted_markDeleted (entry : DirectoryEntry) : entry.markDeleted.isDeleted = true := by
  simp [isDeleted, firstByte, markDeleted, overwrite]

/-- The cluster fields return a cluster number of thirty-two bits. -/
theorem getCluster_setCluster (entry : DirectoryEntry) (cluster : Nat) (small : cluster < 4294967296) :
    (entry.setCluster cluster).getCluster = cluster := by
  have high : (cluster >>> 16) &&& 0xFFFF = cluster / 65536 := by
    rw [Nat.shiftRight_eq_div_pow, show 0xFFFF = 2 ^ 16 - 1 by rfl, Nat.and_two_pow_sub_one_eq_mod]
    omega
  have low : cluster &&& 0xFFFF = cluster % 65536 := by
    rw [show 0xFFFF = 2 ^ 16 - 1 by rfl, Nat.and_two_pow_sub_one_eq_mod]
  have highValue : (UInt16.ofNat (cluster / 65536)).toNat = cluster / 65536 := by
    rw [UInt16.toNat_ofNat']
    omega
  have lowValue : (UInt16.ofNat (cluster % 65536)).toNat = cluster % 65536 := by
    rw [UInt16.toNat_ofNat']
    omega
  simp only [getCluster, setCluster, high, low, highValue, lowValue]
  rw [Nat.shiftLeft_eq, Nat.mul_comm, ← Nat.two_pow_add_eq_or_of_lt (by omega)]
  omega

end DirectoryEntry

namespace LongDirectoryEntry

variable (lfn : LongDirectoryEntry)

@[simp] theorem length_toBytes : lfn.toBytes.length = entrySize := by
  simp [toBytes, entrySize]

/-- The stored record returns the long filename record. -/
theorem ofBytes_toBytes : ofBytes lfn.toBytes = lfn := by
  obtain ⟨order, ⟨name1, length1⟩, attributes, entryType, checksum, ⟨name2, length2⟩, firstClusterLow,
    ⟨name3, length3⟩⟩ := lfn
  have after1 (tail : List UInt8) (count : Nat) : (name1 ++ tail).drop (10 + count) = tail.drop count := by
    rw [← length1, List.drop_append]
    simp
  have after2 (tail : List UInt8) (count : Nat) : (name2 ++ tail).drop (12 + count) = tail.drop count := by
    rw [← length2, List.drop_append]
    simp
  have layout : toBytes ⟨order, ⟨name1, length1⟩, attributes, entryType, checksum, ⟨name2, length2⟩,
      firstClusterLow, ⟨name3, length3⟩⟩ = order :: (name1 ++ attributes :: entryType :: checksum ::
        (name2 ++ (le16 firstClusterLow ++ name3))) := by
    simp [toBytes]
  have lookup (bytes : List UInt8) (index : Nat) : bytes.getD index 0 = (bytes.drop index).getD 0 0 := by
    simp only [List.getD_eq_getElem?_getD, List.getElem?_drop, Nat.add_zero]
  rw [layout, ofBytes, mk.injEq]
  refine ⟨rfl, Bytes.ext ?_, ?_, ?_, ?_, Bytes.ext ?_, ?_, Bytes.ext ?_⟩
  · rw [List.drop_succ_cons, List.drop_zero, List.take_append_of_le_length (by omega),
      List.take_of_length_le (by omega), Bytes.fill_toList _ _ length1]
  · rw [lookup, List.drop_succ_cons, after1 _ 0]
    rfl
  · rw [lookup, List.drop_succ_cons, after1 _ 1]
    rfl
  · rw [lookup, List.drop_succ_cons, after1 _ 2]
    rfl
  · rw [List.drop_succ_cons, after1 _ 3]
    simp only [List.drop_succ_cons, List.drop_zero]
    rw [List.take_append_of_le_length (by omega), List.take_of_length_le (by omega),
      Bytes.fill_toList _ _ length2]
  · rw [lookup _ 26, lookup _ 27, List.drop_succ_cons, List.drop_succ_cons, after1 _ 15, after1 _ 16]
    simp only [List.drop_succ_cons]
    rw [after2 _ 0, after2 _ 1]
    exact ofLe16_le16 firstClusterLow
  · rw [List.drop_succ_cons, after1 _ 17]
    simp only [List.drop_succ_cons]
    rw [after2 _ 2]
    change (Bytes.fill 0 (name3.take 4) : Bytes 4).toList = name3
    rw [List.take_of_length_le (by omega), Bytes.fill_toList _ _ length3]

/-- A long filename record survives its directory slot. -/
theorem fromDirectoryEntry_toDirectoryEntry : fromDirectoryEntry lfn.toDirectoryEntry = lfn := by
  have bytes : lfn.toDirectoryEntry.toBytes = lfn.toBytes := by
    rw [toDirectoryEntry, DirectoryEntry.toBytes_readAt _ _ (by simp), List.drop_zero,
      List.take_of_length_le (by simp)]
  rw [fromDirectoryEntry, bytes, ofBytes_toBytes]

@[simp] theorem attributes_toDirectoryEntry : lfn.toDirectoryEntry.attributes = lfn.attributes :=
  congrArg LongDirectoryEntry.attributes (ofBytes_toBytes lfn)

@[simp] theorem firstByte_toDirectoryEntry : lfn.toDirectoryEntry.firstByte = lfn.order := by
  have start : lfn.toBytes.take 11 = lfn.order :: lfn.name1.toList := by
    simp [toBytes]
  simp only [DirectoryEntry.firstByte, toDirectoryEntry, DirectoryEntry.readAt, List.drop_zero, start]
  rfl

end LongDirectoryEntry

open Text

/-- A stored name byte is a printable ASCII character other than the dot. -/
def isNameByte (byte : UInt8) : Bool := 0x20 < byte.toNat && byte.toNat < 0x80 && byte.toNat != 0x2E

theorem isNameByte_iff (byte : UInt8) :
    isNameByte byte = true ↔ 0x20 < byte.toNat ∧ byte.toNat < 0x80 ∧ byte.toNat ≠ 0x2E := by
  simp [isNameByte, and_assoc]

/-- A short name stores these bytes. -/
def isShortByte (byte : UInt8) : Bool :=
  isNameByte byte && !isInvalidShortNameByte byte && !(0x61 ≤ byte.toNat && byte.toNat ≤ 0x7A)

theorem isShortByte_iff (byte : UInt8) : isShortByte byte = true ↔
    (0x20 < byte.toNat ∧ byte.toNat < 0x80 ∧ byte.toNat ≠ 0x2E) ∧ isInvalidShortNameByte byte = false ∧
      ¬ (0x61 ≤ byte.toNat ∧ byte.toNat ≤ 0x7A) := by
  rw [isShortByte, Bool.and_eq_true, Bool.and_eq_true, isNameByte_iff, and_assoc, Bool.not_eq_true', Bool.not_eq_true',
    Bool.and_eq_false_iff, decide_eq_false_iff_not, decide_eq_false_iff_not, not_and_or]

theorem isNameByte_of_short {byte : UInt8} (good : isShortByte byte = true) : isNameByte byte = true :=
  (isNameByte_iff byte).mpr ((isShortByte_iff byte).mp good).1

section Marks

variable {name : ShortName} (named : isNameByte (name.toList.getD 0 0) = true)

include named

theorem firstByte_ne {byte : UInt8} (other : isNameByte byte = false) : name.toList.getD 0 0 ≠ byte := by
  intro same
  rw [same, other] at named
  contradiction

/-- A name that starts with a name byte is not a dot name. -/
theorem isDotName_of_nameByte : isDotName name = false := by
  have dotted (parent : Bool) : isNameByte ((dotName parent).toList.getD 0 0) = false := by
    cases parent <;> decide
  have different (parent : Bool) : name ≠ dotName parent := by
    rintro rfl
    exact firstByte_ne named (dotted parent) rfl
  rw [isDotName, Bool.or_eq_false_iff, beq_eq_false_iff_ne, beq_eq_false_iff_ne]
  exact ⟨different false, different true⟩

end Marks

variable {entry : DirectoryEntry} {char : Char}

theorem isEndMarker_of_nameByte (named : isNameByte (entry.name.toList.getD 0 0) = true) :
    entry.isEndMarker = false := by
  rw [DirectoryEntry.isEndMarker, beq_eq_false_iff_ne]
  exact firstByte_ne named (by decide)

theorem isDeleted_of_nameByte (named : isNameByte (entry.name.toList.getD 0 0) = true) : entry.isDeleted = false := by
  rw [DirectoryEntry.isDeleted, beq_eq_false_iff_ne]
  exact firstByte_ne named (by decide)

/-- An accepted byte is above the space. -/
theorem above_of_valid {byte : UInt8} (valid : isInvalidShortNameByte byte = false) : 0x20 < byte.toNat := by
  simp only [isInvalidShortNameByte, Bool.or_eq_false_iff, decide_eq_false_iff_not] at valid
  have above := valid.1
  rw [UInt8.le_iff_toNat_le] at above
  change ¬ byte.toNat ≤ 32 at above
  omega

/-- An ASCII character keeps its code in one byte. -/
theorem toNat_ofNat_ascii (ascii : char.toNat < 128) : (UInt8.ofNat char.toNat).toNat = char.toNat := by
  rw [UInt8.toNat_ofNat']
  omega

/-- The capital of a character other than the dot is no dot. -/
theorem toUpper_ne_dot (other : char ≠ '.') : char.toUpper.toNat ≠ 0x2E := by
  intro same
  rw [toNat_toUpper] at same
  split at same
  · omega
  · exact other (Char.toNat_inj.mp same)

/-- A sanitized component holds only good bytes. -/
theorem isShortByte_sanitize (component : List Char) (maxLen : Nat) (byte : UInt8)
    (member : byte ∈ sanitizeShortComponent component maxLen) : isShortByte byte = true := by
  fun_induction sanitizeShortComponent component maxLen with
  | case1 | case2 => simp at member
  | case3 char rest maxLen skipped ih => exact ih member
  | case4 char rest maxLen other upper mapped kept ih =>
    rcases List.mem_cons.mp member with here | later
    · subst here
      simp only [Bool.or_eq_true, beq_iff_eq, not_or] at other
      simp only [kept]
      split
      · rename_i good
        simp only [Bool.and_eq_true, Bool.not_eq_true', isAscii, decide_eq_true_eq] at good
        have code := toNat_ofNat_ascii good.1
        rw [isShortByte_iff]
        refine ⟨⟨above_of_valid good.2, ?_, ?_⟩, good.2, ?_⟩
        · simp only [mapped, code]
          exact good.1
        · simp only [mapped, code]
          exact toUpper_ne_dot other.2
        · simp only [mapped, code, upper]
          rw [toNat_toUpper]
          split <;> omega
      · decide
    · exact ih later

/-- A filled array starts with its source. -/
theorem getD_fill {size : Nat} (filler : UInt8) (first : UInt8) (rest : List UInt8) (room : 0 < size) :
    (Bytes.fill filler (first :: rest) : Bytes size).toList.getD 0 0 = first := by
  obtain ⟨smaller, rfl⟩ := Nat.exists_eq_succ_of_ne_zero (Nat.ne_of_gt room)
  simp [Bytes.fill]

/-- An alias starts with a name byte. -/
theorem isNameByte_compose (base ext : List UInt8) (tail : Nat) (clean : ∀ byte ∈ base, isNameByte byte = true) :
    isNameByte ((composeShortAlias base ext tail).toList.getD 0 0) = true := by
  simp only [composeShortAlias]
  generalize tailDigits maxTailDigits tail = digits
  generalize min base.length (8 - 1 - digits.length) = baseLen
  cases kept : base.take baseLen with
  | nil =>
    simp only [List.nil_append, List.cons_append, getD_fill _ _ _ (show 0 < 11 by omega)]
    decide
  | cons first rest =>
    simp only [List.cons_append, getD_fill _ _ _ (show 0 < 11 by omega)]
    apply clean
    apply List.mem_of_mem_take (i := baseLen)
    rw [kept]
    exact List.mem_cons_self

/-- The search returns an alias of the base that is not taken. -/
theorem findAlias_eq_some {base ext : List UInt8} {taken : List ShortName} {attempts first : Nat}
    {found : ShortName} (returned : findAlias base ext taken attempts first = some found) :
    ∃ tail, first ≤ tail ∧ tail < first + attempts ∧ found = composeShortAlias base ext tail ∧ found ∉ taken := by
  induction attempts generalizing first with
  | zero => simp [findAlias] at returned
  | succ attempts ih =>
    rw [findAlias] at returned
    split at returned
    · obtain ⟨tail, low, high, same, free⟩ := ih returned
      exact ⟨tail, by omega, by omega, same, free⟩
    · rename_i absent
      cases returned
      exact ⟨first, Nat.le_refl _, by omega, rfl, by simpa using absent⟩

/-- ASCII text has one byte for each character. -/
theorem utf8Bytes_ascii (text : List Char) (ascii : text.all isAscii = true) :
    utf8Bytes text = text.map fun char => UInt8.ofNat char.toNat := by
  induction text with
  | nil => rfl
  | cons char rest ih =>
    simp only [List.all_cons, Bool.and_eq_true, isAscii, decide_eq_true_eq] at ascii
    have single : String.utf8EncodeChar char = [UInt8.ofNat char.toNat] := by
      unfold String.utf8EncodeChar
      exact if_pos (Nat.le_of_lt_succ ascii.1)
    rw [utf8Bytes, List.flatMap_cons, single, List.map_cons]
    exact congrArg _ (ih ascii.2)

/-- The characters before the first dot have no dot. -/
theorem dot_notMem_takeWhile (text : List Char) : '.' ∉ text.takeWhile (· != '.') := by
  intro member
  have kept := List.mem_takeWhile_imp member
  simp at kept

section Names

variable [Unicode] {filename : List Char} {shortName : ShortName}

/-- No ASCII capital in a text without dots is a dot. -/
theorem toUppercase_ne_dot (text : List Char) (dotless : '.' ∉ text) (mapped : Char)
    (member : mapped ∈ toUppercase text) (ascii : mapped.toNat < 128) : mapped.toNat ≠ 0x2E := by
  obtain ⟨char, inText, inUpper⟩ := List.mem_flatMap.mp member
  by_cases small : char.toNat < 128
  · rw [Unicode.upper_ascii char small] at inUpper
    rw [List.mem_singleton.mp inUpper]
    apply toUpper_ne_dot
    rintro rfl
    exact dotless inText
  · have letter := Unicode.upper_foreign char (by omega) mapped inUpper ascii
    omega

/-- A short name starts with a name byte. -/
theorem isNameByte_getFatFilename (accepted : getFatFilename filename = some shortName) :
    isNameByte (shortName.toList.getD 0 0) = true := by
  simp only [getFatFilename] at accepted
  split at accepted
  · simp at accepted
  · rename_i good
    simp only [Bool.or_eq_true, not_or, Bool.not_eq_true, Bool.not_eq_false'] at good
    obtain ⟨⟨⟨⟨⟨⟨nonempty, _⟩, _⟩, _⟩, asciiName⟩, _⟩, valid⟩ := good
    have dotless := dot_notMem_takeWhile filename
    generalize filename.takeWhile (· != '.') = stem at accepted nonempty asciiName valid dotless
    have noDot := toUppercase_ne_dot stem dotless
    cases upper : toUppercase stem with
    | nil => simp [upper] at nonempty
    | cons first rest =>
      rw [upper] at accepted asciiName valid noDot
      rw [utf8Bytes_ascii _ asciiName] at accepted valid
      simp only [List.all_cons, Bool.and_eq_true, isAscii, decide_eq_true_eq] at asciiName
      simp only [List.map_cons, List.cons_append, List.any_cons, Bool.or_eq_false_iff] at accepted valid
      rw [← Option.some.inj accepted, getD_fill _ _ _ (by omega), isNameByte_iff]
      refine ⟨above_of_valid valid.1, ?_, ?_⟩
      · rw [toNat_ofNat_ascii asciiName.1]
        exact asciiName.1
      · rw [toNat_ofNat_ascii asciiName.1]
        exact noDot first List.mem_cons_self asciiName.1

/-- Every stored short name starts with a name byte. -/
theorem isNameByte_prepareNameEntries {parsed : List LocatedDirectoryEntry} {lfns : List LongDirectoryEntry}
    (prepared : prepareNameEntries parsed filename = some (shortName, lfns)) :
    isNameByte (shortName.toList.getD 0 0) = true := by
  rw [prepareNameEntries] at prepared
  split at prepared
  · rename_i short accepted
    cases prepared
    exact isNameByte_getFatFilename accepted
  · simp only [Option.bind_eq_bind, Option.bind_eq_some_iff] at prepared
    obtain ⟨units, _, chosen, generated, same⟩ := prepared
    cases same
    obtain ⟨tail, _, _, rfl, _⟩ := findAlias_eq_some generated
    exact isNameByte_compose _ _ _ fun byte member => isNameByte_of_short (isShortByte_sanitize _ _ byte member)

end Names

end BubbleOs.Fat
