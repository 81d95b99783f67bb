import BubbleOs.Proof.Fat.Entry

namespace BubbleOs.Fat

open Text

section Case

/-- Two characters have the same small letter when they have the same capital. -/
theorem toLower_eq_iff (first second : Char) :
    first.toLower = second.toLower ↔ first.toUpper = second.toUpper := by
  rw [← Char.toNat_inj, ← Char.toNat_inj, toNat_toLower, toNat_toLower, toNat_toUpper, toNat_toUpper]
  split <;> split <;> split <;> split <;> omega

theorem toUpper_toLower (char : Char) : char.toLower.toUpper = char.toUpper := by
  rw [← Char.toNat_inj, toNat_toUpper, toNat_toUpper, toNat_toLower]
  split_ifs <;> omega

theorem toUpper_eq_dot_iff (char : Char) : char.toUpper = '.' ↔ char = '.' := by
  rw [← Char.toNat_inj, ← Char.toNat_inj, toNat_toUpper, show '.'.toNat = 46 from rfl]
  split <;> omega

theorem isAscii_toUpper (char : Char) : isAscii char.toUpper = isAscii char := by
  rw [isAscii, isAscii, toNat_toUpper]
  split
  · simp only [decide_eq_decide]
    omega
  · rfl

/-- The comparison ignores exactly the difference between small letters and capitals. -/
theorem eqIgnoreAsciiCase_iff (first second : List Char) :
    eqIgnoreAsciiCase first second = true ↔ first.map Char.toUpper = second.map Char.toUpper := by
  rw [eqIgnoreAsciiCase, beq_iff_eq]
  induction first generalizing second with
  | nil =>
    cases second with
    | nil | cons char rest => simp
  | cons head tail ih =>
    cases second with
    | nil => simp
    | cons char rest => simp only [List.map_cons, List.cons.injEq, toLower_eq_iff, ih]

end Case

section Parts

variable {byte : UInt8} {stem ext : List UInt8}

/-- The two parts of a short name fit into their fields. -/
structure ShortParts (stem ext : List UInt8) : Prop where
  stemBytes : ∀ byte ∈ stem, isShortByte byte = true
  extBytes : ∀ byte ∈ ext, isShortByte byte = true
  nonempty : stem ≠ []
  stemRoom : stem.length ≤ 8
  extRoom : ext.length ≤ 3

/-- Each field is filled with spaces. -/
def packed (stem ext : List UInt8) : ShortName :=
  Bytes.fill 0x20 (stem ++ List.replicate (8 - stem.length) 0x20 ++ ext)

def charOf (byte : UInt8) : Char := Char.ofNat byte.toNat

/-- This is the text of a short name in capitals. -/
def shortText (stem ext : List UInt8) : List Char :=
  if ext.isEmpty then stem.map charOf else stem.map charOf ++ '.' :: ext.map charOf

theorem toNat_charOf (ascii : byte.toNat < 0x80) : (charOf byte).toNat = byte.toNat := by
  have valid : byte.toNat.isValidChar := .inl (by omega)
  rw [charOf, Char.ofNat, dif_pos valid]
  rfl

/-- An ASCII byte is one character. -/
theorem decodeUtf8_cons (rest : List UInt8) (ascii : byte.toNat < 0x80) :
    decodeUtf8 (byte :: rest) = (decodeUtf8 rest).map (charOf byte :: ·) := by
  match rest with
  | [] => simp [decodeUtf8, ascii, charOf]
  | [b1] => rw [decodeUtf8, if_pos ascii, charOf]
  | [b1, b2] => rw [decodeUtf8, if_pos ascii, charOf]
  | b1 :: b2 :: b3 :: later => rw [decodeUtf8, if_pos ascii, charOf]

/-- The bytes of an ASCII text are its codes. -/
theorem decodeUtf8_ascii (bytes : List UInt8) (ascii : ∀ byte ∈ bytes, byte.toNat < 0x80) :
    decodeUtf8 bytes = some (bytes.map charOf) := by
  induction bytes with
  | nil => rfl
  | cons byte rest ih =>
    rw [decodeUtf8_cons rest (ascii byte List.mem_cons_self),
      ih fun later member => ascii later (List.mem_cons_of_mem _ member)]
    rfl

/-- The spaces of a field are trimmed. -/
theorem trimEnd_field (bytes : List UInt8) (count : Nat) (good : ∀ byte ∈ bytes, isShortByte byte = true) :
    trimEnd ((bytes ++ List.replicate count 0x20).map charOf) = bytes.map charOf := by
  have space : isWhitespace (charOf 0x20) = true := by decide
  have visible (char : Char) (member : char ∈ (bytes.map charOf).reverse) : isWhitespace char = false := by
    rw [List.mem_reverse] at member
    obtain ⟨byte, inside, rfl⟩ := List.mem_map.mp member
    obtain ⟨⟨low, high, _⟩, _⟩ := (isShortByte_iff byte).mp (good byte inside)
    have code := toNat_charOf high
    simp only [isWhitespace, code, Bool.or_eq_false_iff, Bool.and_eq_false_iff, decide_eq_false_iff_not,
      beq_eq_false_iff_ne]
    omega
  have spaces : ∀ char ∈ List.replicate count (charOf 0x20), isWhitespace char = true := by
    intro char member
    rw [List.eq_of_mem_replicate member]
    exact space
  have kept : (bytes.map charOf).reverse.dropWhile isWhitespace = (bytes.map charOf).reverse := by
    cases reversed : (bytes.map charOf).reverse with
    | nil => rfl
    | cons char rest =>
      rw [List.dropWhile_cons_of_neg]
      rw [visible char (by rw [reversed]; exact List.mem_cons_self)]
      decide
  rw [trimEnd, List.map_append, List.map_replicate, List.reverse_append, List.reverse_replicate,
    List.dropWhile_append_of_pos spaces, kept, List.reverse_reverse]

theorem length_field {stem : List UInt8} (stemRoom : stem.length ≤ 8) :
    (stem ++ List.replicate (8 - stem.length) (0x20 : UInt8)).length = 8 := by
  rw [List.length_append, List.length_replicate]
  omega

/-- A packed name is its two padded fields. -/
theorem toList_packed (stemRoom : stem.length ≤ 8) (extRoom : ext.length ≤ 3) :
    (packed stem ext).toList =
      (stem ++ List.replicate (8 - stem.length) 0x20) ++ (ext ++ List.replicate (3 - ext.length) 0x20) := by
  have field := length_field stemRoom
  simp only [packed, Bytes.fill]
  rw [List.append_assoc, List.take_append, List.take_of_length_le (by omega), field, List.take_append,
    List.take_of_length_le (by omega), List.take_replicate]
  congr 3
  omega

/-- The fields of a packed name keep their bytes. -/
theorem packed_fields (parts : ShortParts stem ext) :
    (packed stem ext).toList.take 8 = stem ++ List.replicate (8 - stem.length) 0x20 ∧
      (packed stem ext).toList.drop 8 = ext ++ List.replicate (3 - ext.length) 0x20 := by
  have field := length_field parts.stemRoom
  rw [toList_packed parts.stemRoom parts.extRoom]
  exact ⟨List.take_left' field, List.drop_left' field⟩

theorem isAscii_charOf (good : isShortByte byte = true) : isAscii (charOf byte) = true := by
  have high := ((isShortByte_iff byte).mp good).1.2.1
  rw [isAscii, toNat_charOf high]
  exact decide_eq_true high

theorem toUpper_charOf (good : isShortByte byte = true) : (charOf byte).toUpper = charOf byte := by
  obtain ⟨⟨_, high, _⟩, _, capital⟩ := (isShortByte_iff byte).mp good
  rw [← Char.toNat_inj, toNat_toUpper, toNat_charOf high, if_neg capital]

/-- A sanitized component has a bounded length. -/
theorem length_sanitize (component : List Char) (maxLen : Nat) :
    (sanitizeShortComponent component maxLen).length ≤ maxLen := by
  fun_induction sanitizeShortComponent component maxLen with
  | case1 => simp
  | case2 => simp
  | case3 char rest maxLen skipped ih => exact ih
  | case4 char rest maxLen other upper mapped kept ih =>
    rw [List.length_cons]
    omega

/-- The digits of a tail are good bytes. -/
theorem tailDigits_good (fuel remaining : Nat) :
    (tailDigits fuel remaining).length ≤ fuel ∧ ∀ byte ∈ tailDigits fuel remaining, isShortByte byte = true := by
  have digits : ∀ digit < 10, isShortByte (UInt8.ofNat (0x30 + digit)) = true := by decide
  fun_induction tailDigits fuel remaining with
  | case1 => simp
  | case2 fuel remaining more ih =>
    refine ⟨by rw [List.length_cons]; omega, ?_⟩
    intro byte member
    rcases List.mem_cons.mp member with rfl | later
    · exact digits (remaining % 10) (Nat.mod_lt _ (by decide))
    · exact ih.2 byte later
  | case3 => simp

section BaseGood

variable {base ext : List UInt8} (baseGood : ∀ byte ∈ base, isShortByte byte = true)
  (extGood : ∀ byte ∈ ext, isShortByte byte = true) (extRoom : ext.length ≤ 3) (tail : Nat)

include baseGood extGood extRoom tail

/-- The parts of an alias fit into their fields. -/
theorem shortParts_compose :
    ShortParts (base.take (min base.length (8 - 1 - (tailDigits maxTailDigits tail).length)) ++ [0x7E] ++
      (tailDigits maxTailDigits tail).reverse) ext := by
  obtain ⟨length, digitsGood⟩ := tailDigits_good maxTailDigits tail
  have few : maxTailDigits = 6 := rfl
  refine ⟨?_, extGood, ?_, ?_, extRoom⟩
  · intro byte member
    rcases List.mem_append.mp member with front | digit
    · rcases List.mem_append.mp front with kept | tilde
      · exact baseGood byte (List.mem_of_mem_take kept)
      · rw [List.mem_singleton.mp tilde]
        decide
    · exact digitsGood byte (List.mem_reverse.mp digit)
  · simp
  · rw [List.length_append, List.length_append, List.length_take, List.length_reverse, List.length_singleton]
    omega

/-- An alias is packed from good parts. -/
theorem composeShortAlias_parts :
    ∃ stem ext', ShortParts stem ext' ∧ composeShortAlias base ext tail = packed stem ext' :=
  ⟨_, ext, shortParts_compose baseGood extGood extRoom tail, rfl⟩

end BaseGood

theorem charOf_ne_dot (good : isShortByte byte = true) : charOf byte ≠ '.' := by
  obtain ⟨⟨_, high, notDot⟩, _⟩ := (isShortByte_iff byte).mp good
  rw [ne_eq, ← Char.toNat_inj, toNat_charOf high]
  exact notDot

theorem utf8Bytes_charOf {bytes : List UInt8} (good : ∀ byte ∈ bytes, isShortByte byte = true) :
    utf8Bytes (bytes.map charOf) = bytes := by
  rw [utf8Bytes_ascii, List.map_map]
  · nth_rewrite 2 [← List.map_id bytes]
    apply List.map_congr_left
    intro byte member
    rw [Function.comp_apply, toNat_charOf ((isShortByte_iff byte).mp (good byte member)).1.2.1, UInt8.ofNat_toNat]
    rfl
  · rw [List.all_eq_true]
    intro char member
    obtain ⟨byte, inside, rfl⟩ := List.mem_map.mp member
    exact isAscii_charOf (good byte inside)

/-- The first dot of the text separates its parts. -/
theorem shortText_split (parts : ShortParts stem ext) :
    (shortText stem ext).takeWhile (· != '.') = stem.map charOf ∧
      ((shortText stem ext).dropWhile (· != '.')).drop 1 = ext.map charOf ∧ (shortText stem ext).count '.' ≤ 1 ∧
      ∀ char ∈ shortText stem ext, isAscii char = true := by
  have plain (bytes : List UInt8) (good : ∀ byte ∈ bytes, isShortByte byte = true) (char : Char)
      (member : char ∈ bytes.map charOf) : char ≠ '.' ∧ isAscii char = true := by
    obtain ⟨byte, inside, rfl⟩ := List.mem_map.mp member
    exact ⟨charOf_ne_dot (good byte inside), isAscii_charOf (good byte inside)⟩
  have stemPlain := plain stem parts.stemBytes
  have stemDots : ∀ char ∈ stem.map charOf, (char != '.') = true := fun char member => bne_iff_ne.mpr (stemPlain char member).1
  have stemCount : (stem.map charOf).count '.' = 0 := List.count_eq_zero.mpr fun member => (stemPlain _ member).1 rfl
  cases ext with
  | nil =>
    rw [shortText, if_pos List.isEmpty_nil]
    refine ⟨List.takeWhile_eq_self_iff.mpr stemDots, ?_, by omega, fun char member => (stemPlain char member).2⟩
    rw [List.dropWhile_eq_nil_iff.mpr stemDots]
    rfl
  | cons byte rest =>
    have extPlain := plain (byte :: rest) parts.extBytes
    have extCount : ((byte :: rest).map charOf).count '.' = 0 :=
      List.count_eq_zero.mpr fun member => (extPlain _ member).1 rfl
    rw [shortText, if_neg (by simp)]
    refine ⟨?_, ?_, ?_, ?_⟩
    · rw [List.takeWhile_append_of_pos stemDots, List.takeWhile_cons_of_neg (by decide), List.append_nil]
    · rw [List.dropWhile_append_of_pos stemDots, List.dropWhile_cons_of_neg (by decide)]
      rfl
    · rw [List.count_append, List.count_cons_self, stemCount, extCount]
    · intro char member
      rcases List.mem_append.mp member with inStem | inExt
      · exact (stemPlain char inStem).2
      · rcases List.mem_cons.mp inExt with rfl | later
        · decide
        · exact (extPlain char later).2

section Decode

variable [Unicode] {stem ext : List UInt8} {name : List Char} {shortName : ShortName}

/-- The capitals of an ASCII text are taken one by one. -/
theorem toUppercase_ascii (text : List Char) (ascii : ∀ char ∈ text, isAscii char = true) :
    toUppercase text = text.map Char.toUpper := by
  induction text with
  | nil => rfl
  | cons char rest ih =>
    have here := ascii char List.mem_cons_self
    rw [isAscii, decide_eq_true_eq] at here
    rw [toUppercase, List.flatMap_cons, Unicode.upper_ascii char here, List.map_cons]
    exact congrArg _ (ih fun later member => ascii later (List.mem_cons_of_mem _ member))

/-- The small letters of an ASCII text are taken one by one. -/
theorem toLowercaseFrom_ascii (text before : List Char) (ascii : ∀ char ∈ text, isAscii char = true) :
    toLowercaseFrom before text = text.map Char.toLower := by
  induction text generalizing before with
  | nil => rfl
  | cons char rest ih =>
    have here := ascii char List.mem_cons_self
    rw [isAscii, decide_eq_true_eq] at here
    have notSigma : char ≠ 'Σ' := by
      rintro rfl
      revert here
      decide
    rw [toLowercaseFrom, if_neg notSigma, Unicode.lower_ascii char here,
      ih _ fun later member => ascii later (List.mem_cons_of_mem _ member)]
    rfl

/-- A decoded field is the text of its bytes in small letters. -/
theorem decode_field (bytes : List UInt8) (count : Nat) (good : ∀ byte ∈ bytes, isShortByte byte = true) :
    (toLowercase (trimEnd ((decodeUtf8 (bytes ++ List.replicate count 0x20)).getD []))).map Char.toUpper =
      bytes.map charOf := by
  have ascii : ∀ byte ∈ bytes ++ List.replicate count (0x20 : UInt8), byte.toNat < 0x80 := by
    intro byte member
    rcases List.mem_append.mp member with inside | space
    · exact ((isShortByte_iff byte).mp (good byte inside)).1.2.1
    · rw [List.eq_of_mem_replicate space]
      decide
  rw [decodeUtf8_ascii _ ascii, Option.getD_some, trimEnd_field bytes count good, toLowercase, toLowercaseFrom_ascii,
    List.map_map, List.map_map]
  · apply List.map_congr_left
    intro byte member
    rw [Function.comp_apply, Function.comp_apply, toUpper_toLower, toUpper_charOf (good byte member)]
  · intro char member
    obtain ⟨byte, inside, rfl⟩ := List.mem_map.mp member
    exact isAscii_charOf (good byte inside)

/-- The decoded short name is the text of its parts up to capitals. -/
theorem getFilenameFromFat_packed (parts : ShortParts stem ext) :
    (getFilenameFromFat (packed stem ext)).map Char.toUpper = shortText stem ext := by
  obtain ⟨first, second⟩ := packed_fields parts
  have name := decode_field stem (8 - stem.length) parts.stemBytes
  have extension := decode_field ext (3 - ext.length) parts.extBytes
  simp only [getFilenameFromFat, first, second, shortText]
  generalize toLowercase (trimEnd ((decodeUtf8 (ext ++ List.replicate (3 - ext.length) 0x20)).getD [])) = small at *
  cases ext with
  | nil =>
    rw [List.map_nil, List.map_eq_nil_iff] at extension
    rw [extension]
    exact name
  | cons byte rest =>
    cases small with
    | nil => simp at extension
    | cons char tail =>
      simp only [List.isEmpty_cons, Bool.false_eq_true, if_false, List.map_append, name, extension]
      rw [List.append_assoc]
      rfl

/-- The text of the parts has the packed short name. -/
theorem getFatFilename_shortText (parts : ShortParts stem ext) (same : name.map Char.toUpper = shortText stem ext) :
    getFatFilename name = some (packed stem ext) := by
  obtain ⟨front, back, dots, plain⟩ := shortText_split parts
  have dotOff : ((· != '.') ∘ Char.toUpper : Char → Bool) = (· != '.') := by
    funext char
    rw [Function.comp_apply, Bool.eq_iff_iff, bne_iff_ne, bne_iff_ne, ne_eq, toUpper_eq_dot_iff]
  have ascii (char : Char) (member : char ∈ name) : isAscii char = true := by
    rw [← isAscii_toUpper]
    exact plain _ (same ▸ List.mem_map_of_mem member)
  have stemText : toUppercase (name.takeWhile (· != '.')) = stem.map charOf := by
    rw [toUppercase_ascii _ fun char member => ascii char (List.takeWhile_subset _ member), ← front, ← same,
      List.takeWhile_map, dotOff]
  have extText : toUppercase ((name.dropWhile (· != '.')).drop 1) = ext.map charOf := by
    rw [toUppercase_ascii _ fun char member => ascii char (List.dropWhile_subset _ (List.drop_subset _ _ member)),
      ← back, ← same, List.dropWhile_map, dotOff, List.map_drop]
  have count : name.count '.' = (shortText stem ext).count '.' := by
    rw [← same]
    simp only [List.count_eq_countP, List.countP_map]
    apply List.countP_congr
    intro char _
    rw [Function.comp_apply, beq_iff_eq, beq_iff_eq, toUpper_eq_dot_iff]
  have stemRoom := parts.stemRoom
  have extRoom := parts.extRoom
  have asciiAll (bytes : List UInt8) (good : ∀ byte ∈ bytes, isShortByte byte = true) :
      (bytes.map charOf).all isAscii = true := by
    rw [List.all_eq_true]
    intro char member
    obtain ⟨byte, inside, rfl⟩ := List.mem_map.mp member
    exact isAscii_charOf (good byte inside)
  have valid : (stem ++ ext).any isInvalidShortNameByte = false := by
    rw [List.any_eq_false]
    intro byte member
    rw [((isShortByte_iff byte).mp ((List.mem_append.mp member).elim (parts.stemBytes byte) (parts.extBytes byte))).2.1]
    decide
  simp only [getFatFilename, stemText, extText, utf8Bytes_charOf parts.stemBytes, utf8Bytes_charOf parts.extBytes]
  rw [if_neg]
  · rfl
  · rw [asciiAll stem parts.stemBytes, asciiAll ext parts.extBytes, valid, count]
    simp [parts.nonempty, stemRoom, extRoom, dots]

/-- The capitals of plain ASCII characters that a short name accepts are good bytes. -/
theorem shortBytes_of_valid {text : List Char} (ascii : ∀ char ∈ text, isAscii char = true) (dotless : '.' ∉ text)
    (valid : (utf8Bytes (toUppercase text)).any isInvalidShortNameByte = false) :
    (∀ byte ∈ utf8Bytes (toUppercase text), isShortByte byte = true) ∧
      (utf8Bytes (toUppercase text)).map charOf = text.map Char.toUpper := by
  have upperAscii : (text.map Char.toUpper).all isAscii = true := by
    rw [List.all_eq_true]
    intro char member
    obtain ⟨original, inside, rfl⟩ := List.mem_map.mp member
    rw [isAscii_toUpper]
    exact ascii original inside
  rw [toUppercase_ascii text ascii, utf8Bytes_ascii _ upperAscii, List.map_map] at valid ⊢
  rw [List.any_eq_false] at valid
  have good (char : Char) (member : char ∈ text) : isShortByte (UInt8.ofNat char.toUpper.toNat) = true ∧
      charOf (UInt8.ofNat char.toUpper.toNat) = char.toUpper := by
    have small := ascii char member
    rw [← isAscii_toUpper, isAscii, decide_eq_true_eq] at small
    have code := toNat_ofNat_ascii small
    have accepted := valid _ (List.mem_map_of_mem member)
    rw [Bool.not_eq_true] at accepted
    constructor
    · rw [isShortByte_iff]
      refine ⟨⟨above_of_valid accepted, by rw [code]; exact small, ?_⟩, accepted, ?_⟩
      · rw [code]
        apply toUpper_ne_dot
        rintro rfl
        exact dotless member
      · rw [code, toNat_toUpper]
        split <;> omega
    · rw [charOf, code, Char.ofNat_toNat]
  constructor
  · intro byte member
    obtain ⟨char, inside, rfl⟩ := List.mem_map.mp member
    exact (good char inside).1
  · rw [List.map_map]
    apply List.map_congr_left
    intro char member
    exact (good char member).2

/-- An accepted plain name is the text of the parts of its short name. -/
theorem getFatFilename_parts (accepted : getFatFilename name = some shortName) (ascii : name.all isAscii = true)
    (plain : endsWith name '.' = false) :
    ∃ stem ext, ShortParts stem ext ∧ shortName = packed stem ext ∧ name.map Char.toUpper = shortText stem ext := by
  rw [List.all_eq_true] at ascii
  simp only [getFatFilename] at accepted
  split at accepted
  · simp at accepted
  · rename_i good
    simp only [Bool.or_eq_true, not_or, Bool.not_eq_true, decide_eq_false_iff_not, List.any_append] at good
    obtain ⟨⟨⟨⟨⟨⟨nonempty, stemRoom⟩, extRoom⟩, dots⟩, _⟩, _⟩, stemValid, extValid⟩ := good
    have whole := List.takeWhile_append_dropWhile (p := (· != '.')) (l := name)
    have stemDots := dot_notMem_takeWhile name
    generalize name.takeWhile (· != '.') = front at *
    generalize found : name.dropWhile (· != '.') = back at *
    obtain ⟨stemGood, stemText⟩ := shortBytes_of_valid
      (fun char member => ascii char (whole ▸ List.mem_append_left _ member)) stemDots stemValid
    have startsWithDot (dot : Char) (rest : List Char) (same : back = dot :: rest) : dot = '.' := by
      have stops := List.head?_dropWhile_not (· != '.') name
      rw [found, same] at stops
      simpa using stops
    have extDots : '.' ∉ back.drop 1 := by
      cases back with
      | nil => simp
      | cons dot rest =>
        intro member
        have more := List.count_pos_iff.mpr member
        rw [← whole, startsWithDot dot rest rfl, List.count_append, List.count_cons_self] at dots
        rw [List.drop_succ_cons, List.drop_zero] at more
        omega
    obtain ⟨extGood, extText⟩ := shortBytes_of_valid
      (fun char member => ascii char (whole ▸ List.mem_append_right _ (List.drop_subset _ _ member))) extDots extValid
    refine ⟨_, _, ⟨stemGood, extGood, ?_, by omega, by omega⟩, (Option.some.inj accepted).symm, ?_⟩
    · intro empty
      rw [empty, List.map_nil, eq_comm, List.map_eq_nil_iff] at stemText
      rw [stemText] at nonempty
      simp [toUppercase] at nonempty
    · rw [shortText, stemText, extText, ← whole, List.map_append]
      cases back with
      | nil => simp [toUppercase, utf8Bytes]
      | cons dot rest =>
        obtain rfl := startsWithDot dot rest rfl
        rw [List.drop_succ_cons, List.drop_zero] at extText ⊢
        rw [if_neg]
        · rfl
        · intro empty
          rw [List.isEmpty_iff] at empty
          rw [empty, List.map_nil, eq_comm, List.map_eq_nil_iff] at extText
          rw [← whole, extText, endsWith, List.getLast?_concat] at plain
          simp at plain

/-- An accepted plain name matches its short name. -/
theorem matches_short (accepted : getFatFilename name = some shortName) (ascii : name.all isAscii = true)
    (plain : endsWith name '.' = false) : eqIgnoreAsciiCase (getFilenameFromFat shortName) name = true := by
  obtain ⟨stem, ext, parts, rfl, text⟩ := getFatFilename_parts accepted ascii plain
  rw [eqIgnoreAsciiCase_iff, getFilenameFromFat_packed parts, text]

/-- A name that matches an alias has the alias as its short name. -/
theorem getFatFilename_of_alias {filename name : List Char} {taken : List ShortName} {found : ShortName}
    (generated : generateShortAlias filename taken = some found)
    (same : eqIgnoreAsciiCase (getFilenameFromFat found) name = true) : getFatFilename name = some found := by
  obtain ⟨tail, _, _, rfl, _⟩ := findAlias_eq_some generated
  obtain ⟨stem, ext, parts, packs⟩ := composeShortAlias_parts
    (isShortByte_sanitize (splitAtLastDot filename).1 8) (isShortByte_sanitize (splitAtLastDot filename).2 3)
    (length_sanitize _ 3) tail
  rw [packs] at same ⊢
  rw [eqIgnoreAsciiCase_iff, getFilenameFromFat_packed parts] at same
  exact getFatFilename_shortText parts same.symm

end Decode

end Parts

section Stores

theorem set_eq_overwrite {array : List UInt8} {index : Nat} (inside : index < array.length) (byte : UInt8) :
    array.set index byte = overwrite array index [byte] := by
  rw [List.set_eq_take_append_cons_drop, if_pos inside, overwrite, List.append_assoc]
  rfl

/-- A copy right behind a copy continues it. -/
theorem overwrite_overwrite {array : List UInt8} {offset : Nat} (first second : List UInt8)
    (fits : offset + first.length ≤ array.length) :
    overwrite (overwrite array offset first) (offset + first.length) second = overwrite array offset (first ++ second) := by
  have length : (array.take offset ++ first).length = offset + first.length := by
    rw [List.length_append, List.length_take]
    omega
  have behind := overwrite_append_right (array.take offset ++ first) (array.drop (offset + first.length)) 0 second
  rw [length, Nat.add_zero] at behind
  refine behind.trans ?_
  rw [overwrite, overwrite, List.take_zero, List.nil_append, Nat.zero_add, List.drop_drop, List.length_append]
  simp only [List.append_assoc, Nat.add_assoc]

/-- The stored digits are the digits of the tail. -/
theorem storeDigits_eq {fuel remaining : Nat} (few : remaining < 10 ^ fuel) (digits : List UInt8) (count : Nat)
    (room : count + fuel ≤ digits.length) : storeDigits digits count remaining =
      some (overwrite digits count (tailDigits fuel remaining), count + (tailDigits fuel remaining).length) := by
  induction fuel generalizing remaining digits count with
  | zero =>
    have none : remaining = 0 := by
      rw [Nat.pow_zero] at few
      omega
    rw [storeDigits, none, if_neg (Nat.lt_irrefl 0), tailDigits, overwrite_nil, List.length_nil, Nat.add_zero]
  | succ fuel ih =>
    rw [storeDigits, tailDigits]
    split
    · rename_i more
      have inside : count < digits.length := by omega
      have next : remaining / 10 < 10 ^ fuel := by
        rw [Nat.pow_succ] at few
        exact Nat.div_lt_of_lt_mul (by rw [Nat.mul_comm]; exact few)
      have later := ih next (digits.set count (UInt8.ofNat (0x30 + remaining % 10))) (count + 1)
        (by rw [List.length_set]; omega)
      rw [set_eq_overwrite inside] at later
      rw [storeAt, if_pos inside, set_eq_overwrite inside]
      refine later.trans ?_
      have joined := overwrite_overwrite [UInt8.ofNat (0x30 + remaining % 10)] (tailDigits fuel (remaining / 10)) inside
      rw [List.length_singleton] at joined
      rw [joined, List.length_cons, Nat.add_assoc, Nat.add_comm 1]
      rfl
    · rw [overwrite_nil, List.length_nil, Nat.add_zero]

/-- The placed digits are the stored digits from the highest to the lowest. -/
theorem placeDigits_eq {digits stored : List UInt8} (prefixed : stored.take digits.length = digits) {baseLen : Nat}
    (left : Nat) {start : Nat} (split : start + left = digits.length) {name : List UInt8}
    (room : baseLen + 1 + digits.length ≤ name.length) :
    placeDigits stored digits.length baseLen (List.range' start left) name =
      some (overwrite name (baseLen + 1 + start) (digits.reverse.drop start)) := by
  induction left generalizing start name with
  | zero =>
    rw [List.drop_eq_nil_of_le (by rw [List.length_reverse]; omega), overwrite_nil]
    rfl
  | succ left ih =>
    have inside : start < digits.reverse.length := by
      rw [List.length_reverse]
      omega
    have digit : stored[digits.length - 1 - start]? = some digits.reverse[start] := by
      have low : digits.length - 1 - start < digits.length := by omega
      rw [List.getElem_reverse, ← List.getElem?_take_of_lt low, prefixed, List.getElem?_eq_getElem low]
    have store : baseLen + 1 + start < name.length := by omega
    rw [List.range'_succ, placeDigits, if_neg (by omega), digit, Option.bind_eq_bind, Option.bind_some, storeAt,
      if_pos store, set_eq_overwrite store, Option.bind_eq_bind, Option.bind_some]
    rw [ih (by omega) (by rw [length_overwrite _ _ _ (by rw [List.length_singleton]; omega)]; exact room)]
    have joined := overwrite_overwrite [digits.reverse[start]] (digits.reverse.drop (start + 1)) store
    rw [List.length_singleton] at joined
    rw [← Nat.add_assoc, joined, List.drop_eq_getElem_cons inside]
    rfl

/-- A stem and an extension are copied to a blank name. -/
theorem overwrite_blank {stem ext : List UInt8} (stemRoom : stem.length ≤ 8) (extRoom : ext.length ≤ 3) :
    overwrite (overwrite (List.replicate 11 0x20) 0 stem) 8 ext = (packed stem ext).toList := by
  have field := length_field stemRoom
  have blank : overwrite (List.replicate 11 0x20) 0 stem =
      (stem ++ List.replicate (8 - stem.length) 0x20) ++ List.replicate 3 0x20 := by
    rw [overwrite, List.take_zero, List.nil_append, Nat.zero_add, List.drop_replicate, List.append_assoc,
      ← List.replicate_add, show 8 - stem.length + 3 = 11 - stem.length by omega]
  have behind := overwrite_append_right (stem ++ List.replicate (8 - stem.length) 0x20) (List.replicate 3 0x20) 0 ext
  rw [field, Nat.add_zero] at behind
  rw [blank, behind, toList_packed stemRoom extRoom, overwrite, List.take_zero, List.nil_append, Nat.zero_add,
    List.drop_replicate]

/-- The base, the tilde, the digits and the extension are stored inside the name. -/
theorem storedName_eq (front : List UInt8) {digits stored ext : List UInt8} (extRoom : ext.length ≤ 3)
    (prefixed : stored.take digits.length = digits) (room : front.length + 1 + digits.length ≤ 8) :
    (do let name ← storeSlice (List.replicate 11 0x20) 0 front
        let name ← storeAt name front.length 0x7E
        let name ← placeDigits stored digits.length front.length (List.range digits.length) name
        storeSlice name 8 ext) = some (packed (front ++ [0x7E] ++ digits.reverse) ext).toList := by
  have blank : (List.replicate 11 (0x20 : UInt8)).length = 11 := List.length_replicate
  have first := length_overwrite (List.replicate 11 (0x20 : UInt8)) 0 front (by omega)
  have tilde := overwrite_overwrite front [0x7E] (show 0 + front.length ≤ (List.replicate 11 (0x20 : UInt8)).length by omega)
  have second := length_overwrite (List.replicate 11 (0x20 : UInt8)) 0 (front ++ [0x7E])
    (by rw [List.length_append, List.length_singleton]; omega)
  have tail := overwrite_overwrite (front ++ [0x7E]) digits.reverse
    (show 0 + (front ++ [0x7E]).length ≤ (List.replicate 11 (0x20 : UInt8)).length by
      rw [List.length_append, List.length_singleton]; omega)
  have stem : (front ++ [0x7E] ++ digits.reverse).length ≤ 8 := by
    rw [List.length_append, List.length_append, List.length_singleton, List.length_reverse]
    exact room
  have third := length_overwrite (List.replicate 11 (0x20 : UInt8)) 0 (front ++ [0x7E] ++ digits.reverse) (by omega)
  rw [Nat.zero_add] at tilde
  rw [Nat.zero_add, List.length_append, List.length_singleton] at tail
  rw [storeSlice, if_pos (by omega), Option.bind_eq_bind, Option.bind_some, storeAt, if_pos (by omega),
    set_eq_overwrite (by omega), tilde, Option.bind_some, List.range_eq_range',
    placeDigits_eq prefixed digits.length (Nat.zero_add _) (by omega), List.drop_zero, Nat.add_zero, tail,
    Option.bind_some, storeSlice, if_pos (by omega), overwrite_blank stem extRoom]

/-- Every array access of the construction is inside its array, and the result is the alias. -/
theorem composeAliasIndexed_eq (base : List UInt8) {ext : List UInt8} (extRoom : ext.length ≤ 3) {tail : Nat}
    (few : tail < 1000000) : composeAliasIndexed base ext tail = some (composeShortAlias base ext tail).toList := by
  have stores := storeDigits_eq (show tail < 10 ^ maxTailDigits from few) (List.replicate maxTailDigits 0) 0
    (by rw [List.length_replicate]; exact Nat.le_of_eq (Nat.zero_add _))
  have short := (tailDigits_good maxTailDigits tail).1
  rw [composeShortAlias]
  generalize tailDigits maxTailDigits tail = digits at stores short ⊢
  have six : maxTailDigits = 6 := rfl
  rw [Nat.zero_add] at stores
  have stem : (base.take (min base.length (8 - 1 - digits.length))).length = min base.length (8 - 1 - digits.length) := by
    rw [List.length_take]
    omega
  have prefixed : (overwrite (List.replicate maxTailDigits 0) 0 digits).take digits.length = digits := by
    rw [overwrite, List.take_zero, List.nil_append, List.take_left]
  rw [composeAliasIndexed, stores, Option.bind_eq_bind, Option.bind_some, if_neg (by omega)]
  dsimp only
  have room : min base.length (8 - 1 - digits.length) + 1 + digits.length ≤ 8 := by omega
  generalize base.take (min base.length (8 - 1 - digits.length)) = front at stem ⊢
  generalize min base.length (8 - 1 - digits.length) = baseLen at stem room ⊢
  subst stem
  rw [storedName_eq _ extRoom prefixed room]
  rfl

theorem findAliasIndexed_eq (base : List UInt8) {ext : List UInt8} (extRoom : ext.length ≤ 3) (taken : List ShortName)
    {attempts first : Nat} (few : first + attempts ≤ 1000000) : findAliasIndexed base ext taken attempts first =
      some ((findAlias base ext taken attempts first).map Bytes.toList) := by
  induction attempts generalizing first with
  | zero => rfl
  | succ attempts ih =>
    have same : (taken.map Bytes.toList).contains (composeShortAlias base ext first).toList =
        taken.contains (composeShortAlias base ext first) := by
      rw [Bool.eq_iff_iff, List.contains_iff_mem, List.contains_iff_mem, List.mem_map]
      constructor
      · rintro ⟨name, member, bytes⟩
        rw [← Bytes.ext bytes]
        exact member
      · intro member
        exact ⟨_, member, rfl⟩
    rw [findAliasIndexed, composeAliasIndexed_eq base extRoom (by omega), Option.bind_eq_bind, Option.bind_some, same,
      findAlias]
    split
    · exact ih (by omega)
    · rfl

end Stores

/-- The search fails exactly when every alias it tries is taken. -/
theorem findAlias_eq_none {base ext : List UInt8} {taken : List ShortName} {attempts first : Nat} :
    findAlias base ext taken attempts first = none ↔
      ∀ tail, first ≤ tail → tail < first + attempts → composeShortAlias base ext tail ∈ taken := by
  induction attempts generalizing first with
  | zero => exact ⟨fun _ tail low high => absurd (Nat.lt_of_lt_of_le high low) (Nat.lt_irrefl _), fun _ => rfl⟩
  | succ attempts ih =>
    rw [findAlias]
    split
    · rename_i used
      rw [List.contains_iff_mem] at used
      rw [ih]
      constructor
      · intro later tail low high
        by_cases same : tail = first
        · rw [same]
          exact used
        · exact later tail (by omega) (by omega)
      · intro all tail low high
        exact all tail (by omega) (by omega)
    · rename_i free
      rw [List.contains_iff_mem] at free
      constructor
      · intro absurd_
        cases absurd_
      · intro all
        exact absurd (all first (Nat.le_refl _) (by omega)) free

/-- The digits of a positive tail end in a digit other than zero. -/
theorem tailDigits_last {fuel remaining : Nat} (positive : 0 < remaining) (few : remaining < 10 ^ fuel) :
    ∃ digits first, tailDigits fuel remaining = digits ++ [first] ∧ first ≠ 0x30 := by
  have nonzero : ∀ digit < 10, 0 < digit → UInt8.ofNat (0x30 + digit) ≠ 0x30 := by decide
  induction fuel generalizing remaining with
  | zero =>
    rw [Nat.pow_zero] at few
    omega
  | succ fuel ih =>
    rw [tailDigits, if_pos positive]
    by_cases more : 0 < remaining / 10
    · have next : remaining / 10 < 10 ^ fuel := by
        rw [Nat.pow_succ] at few
        exact Nat.div_lt_of_lt_mul (by rw [Nat.mul_comm]; exact few)
      obtain ⟨digits, first, same, leading⟩ := ih more next
      refine ⟨UInt8.ofNat (0x30 + remaining % 10) :: digits, first, ?_, leading⟩
      rw [same]
      rfl
    · have none : tailDigits fuel (remaining / 10) = [] := by
        cases fuel with
        | zero => rfl
        | succ fuel => rw [tailDigits, if_neg more]
      refine ⟨[], UInt8.ofNat (0x30 + remaining % 10), by rw [none]; rfl, ?_⟩
      exact nonzero _ (Nat.mod_lt _ (by decide)) (by omega)

theorem tailDigits_decimal (fuel remaining : Nat) :
    ∀ byte ∈ tailDigits fuel remaining, 0x30 ≤ byte.toNat ∧ byte.toNat ≤ 0x39 := by
  have digits : ∀ digit < 10, 0x30 ≤ (UInt8.ofNat (0x30 + digit)).toNat ∧ (UInt8.ofNat (0x30 + digit)).toNat ≤ 0x39 := by
    decide
  fun_induction tailDigits fuel remaining with
  | case1 => exact fun _ absurd_ => absurd absurd_ List.not_mem_nil
  | case2 fuel remaining more ih =>
    intro byte member
    rcases List.mem_cons.mp member with rfl | later
    · exact digits (remaining % 10) (Nat.mod_lt _ (by decide))
    · exact ih byte later
  | case3 => exact fun _ absurd_ => absurd absurd_ List.not_mem_nil

/-- The fields of an alias are a base with a numbered tail and an extension, padded with spaces. -/
structure NumberedTail (found : ShortName) (base digits ext : List UInt8) : Prop where
  stem : found.toList.take 8 =
    (base ++ [0x7E] ++ digits) ++ List.replicate (8 - (base ++ [0x7E] ++ digits).length) 0x20
  extension : found.toList.drop 8 = ext ++ List.replicate (3 - ext.length) 0x20
  stemBytes : ∀ byte ∈ base ++ [0x7E] ++ digits, isShortByte byte = true
  extBytes : ∀ byte ∈ ext, isShortByte byte = true
  decimal : ∀ byte ∈ digits, 0x30 ≤ byte.toNat ∧ byte.toNat ≤ 0x39
  leading : ∃ first rest, digits = first :: rest ∧ first ≠ 0x30

theorem composeShortAlias_numbered {base ext : List UInt8} (baseGood : ∀ byte ∈ base, isShortByte byte = true)
    (extGood : ∀ byte ∈ ext, isShortByte byte = true) (extRoom : ext.length ≤ 3) {tail : Nat} (positive : 0 < tail)
    (few : tail < 1000000) : ∃ kept digits, NumberedTail (composeShortAlias base ext tail) kept digits ext := by
  have parts := shortParts_compose baseGood extGood extRoom tail
  obtain ⟨stem, extension⟩ := packed_fields parts
  obtain ⟨lower, first, same, leading⟩ := tailDigits_last positive (show tail < 10 ^ maxTailDigits from few)
  refine ⟨_, _, stem, extension, parts.stemBytes, extGood, ?_, first, lower.reverse, ?_, leading⟩
  · intro byte member
    exact tailDigits_decimal _ _ byte (List.mem_reverse.mp member)
  · rw [same, List.reverse_append]
    rfl

/-- A generated alias is new, well formed and its own short name, and the search ends without a bad index. -/
theorem short_alias_sound [Unicode] (filename : List Char) (taken : List ShortName) :
    (∀ found, generateShortAlias filename taken = some found →
      found ∉ taken ∧ (∃ base digits ext, NumberedTail found base digits ext) ∧
        (∀ entry : DirectoryEntry, entry.name = found → entry.isEndMarker = false ∧ entry.isDeleted = false) ∧
        isDotName found = false ∧ getFatFilename (getFilenameFromFat found) = some found) ∧
      (generateShortAlias filename taken = none ↔ ∀ tail, 1 ≤ tail → tail ≤ 999999 →
        composeShortAlias (sanitizeShortComponent (splitAtLastDot filename).1 8)
          (sanitizeShortComponent (splitAtLastDot filename).2 3) tail ∈ taken) ∧
      generateAliasIndexed filename taken = some ((generateShortAlias filename taken).map Bytes.toList) := by
  have baseGood := isShortByte_sanitize (splitAtLastDot filename).1 8
  have extGood := isShortByte_sanitize (splitAtLastDot filename).2 3
  have extRoom := length_sanitize (splitAtLastDot filename).2 3
  refine ⟨?_, ?_, findAliasIndexed_eq _ extRoom taken (by decide)⟩
  · intro found generated
    have round := getFatFilename_of_alias generated ((eqIgnoreAsciiCase_iff _ _).mpr rfl)
    obtain ⟨tail, low, high, rfl, free⟩ := findAlias_eq_some generated
    obtain ⟨kept, digits, numbered⟩ := composeShortAlias_numbered baseGood extGood extRoom low (by omega)
    have named := isNameByte_compose _ (sanitizeShortComponent (splitAtLastDot filename).2 3) tail
      fun byte member => isNameByte_of_short (baseGood byte member)
    refine ⟨free, ⟨kept, digits, _, numbered⟩, ?_, isDotName_of_nameByte named, round⟩
    intro entry same
    rw [← same] at named
    exact ⟨isEndMarker_of_nameByte named, isDeleted_of_nameByte named⟩
  · rw [generateShortAlias, findAlias_eq_none]
    constructor
    · intro all tail low high
      exact all tail low (by omega)
    · intro all tail low high
      exact all tail low (by omega)

end BubbleOs.Fat
