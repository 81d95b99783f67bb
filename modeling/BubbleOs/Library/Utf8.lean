import Mathlib.Data.List.Basic

namespace BubbleOs

/-- This is the encoding of a text. -/
def utf8Bytes (text : List Char) : List UInt8 := text.flatMap String.utf8EncodeChar

/-- Bytes are decoded when they are the encoding of a text. -/
def fromUtf8 (bytes : List UInt8) : Option (List Char) := bytes.toByteArray.utf8Decode?.map Array.toList

section Utf8

theorem fromUtf8_utf8Bytes (text : List Char) : fromUtf8 (utf8Bytes text) = some text := by
  have decoded := @List.utf8Decode?_utf8Encode text
  rw [List.utf8Encode] at decoded
  rw [fromUtf8, utf8Bytes, decoded]
  rfl

theorem toByteArray_injective {first second : List UInt8} (same : first.toByteArray = second.toByteArray) :
    first = second := by
  have data := congrArg (fun bytes : ByteArray => bytes.data.toList) same
  simpa using data

theorem utf8Bytes_of_fromUtf8 {bytes : List UInt8} {text : List Char} (decoded : fromUtf8 bytes = some text) :
    utf8Bytes text = bytes := by
  rw [fromUtf8, Option.map_eq_some_iff] at decoded
  obtain ⟨chars, found, rfl⟩ := decoded
  have some : bytes.toByteArray.utf8Decode?.isSome = true := by rw [found]; rfl
  have encoded := @ByteArray.utf8Encode_get_utf8Decode? bytes.toByteArray some
  have value : bytes.toByteArray.utf8Decode?.get some = chars := by simp [found]
  rw [value, List.utf8Encode] at encoded
  exact toByteArray_injective encoded

theorem utf8Bytes_injective {first second : List Char} (same : utf8Bytes first = utf8Bytes second) : first = second := by
  have decoded := fromUtf8_utf8Bytes first
  rw [same, fromUtf8_utf8Bytes second] at decoded
  exact (Option.some.inj decoded).symm

theorem mapM_fromUtf8 (texts : List (List Char)) : (texts.map utf8Bytes).mapM fromUtf8 = some texts := by
  induction texts with
  | nil => rfl
  | cons text rest ih => simp [List.mapM_cons, fromUtf8_utf8Bytes, ih]

@[simp] theorem utf8Bytes_nil : utf8Bytes [] = [] := rfl

theorem utf8Bytes_cons (char : Char) (rest : List Char) :
    utf8Bytes (char :: rest) = String.utf8EncodeChar char ++ utf8Bytes rest := rfl

/-- An ASCII character is one byte. -/
theorem utf8EncodeChar_ascii {char : Char} (small : char.toNat < 128) :
    String.utf8EncodeChar char = [UInt8.ofNat char.toNat] := by
  rw [String.utf8EncodeChar]
  exact if_pos (show char.val.toNat ≤ 127 from Nat.le_of_lt_succ small)

/-- The bytes of any other character are no ASCII bytes. -/
theorem utf8EncodeChar_foreign {char : Char} (large : 128 ≤ char.toNat) {byte : UInt8}
    (member : byte ∈ String.utf8EncodeChar char) : 128 ≤ byte.toNat := by
  have range : char.val.toNat < 1114112 := by
    have valid := char.valid
    rcases valid with low | high
    · exact Nat.lt_trans low (by decide)
    · exact high.2
  have first : ¬ char.val.toNat ≤ 127 := Nat.not_le_of_lt large
  rw [String.utf8EncodeChar.eq_1, if_neg first] at member
  split at member
  · simp only [List.mem_cons, List.not_mem_nil, or_false] at member
    rcases member with rfl | rfl <;> simp only [UInt8.toNat_ofNat'] <;> omega
  · split at member
    · simp only [List.mem_cons, List.not_mem_nil, or_false] at member
      rcases member with rfl | rfl | rfl <;> simp only [UInt8.toNat_ofNat'] <;> omega
    · simp only [List.mem_cons, List.not_mem_nil, or_false] at member
      rcases member with rfl | rfl | rfl | rfl <;> simp only [UInt8.toNat_ofNat'] <;> omega

/-- An ASCII byte of the encoding of a character is the character. -/
theorem mem_utf8EncodeChar_ascii {char separator : Char} (small : separator.toNat < 128) :
    UInt8.ofNat separator.toNat ∈ String.utf8EncodeChar char ↔ char = separator := by
  constructor
  · intro member
    by_cases ascii : char.toNat < 128
    · rw [utf8EncodeChar_ascii ascii, List.mem_singleton] at member
      have same := congrArg UInt8.toNat member
      rw [UInt8.toNat_ofNat', UInt8.toNat_ofNat', Nat.mod_eq_of_lt (by omega), Nat.mod_eq_of_lt (by omega)] at same
      exact Char.ext (UInt32.toNat.inj same.symm)
    · have large := utf8EncodeChar_foreign (Nat.le_of_not_lt ascii) member
      rw [UInt8.toNat_ofNat', Nat.mod_eq_of_lt (by omega)] at large
      omega
  · rintro rfl
    rw [utf8EncodeChar_ascii small]
    exact List.mem_singleton_self _

/-- A part without the separator joins the first piece. -/
theorem splitOn_append_left {A : Type} [BEq A] [LawfulBEq A] {separator : A} {first : List A}
    (free : separator ∉ first) (later : List A) :
    (first ++ later).splitOn separator = (later.splitOn separator).modifyHead (first ++ ·) := by
  induction first with
  | nil =>
    change _ = List.modifyHead id _
    rw [List.modifyHead_id]
    rfl
  | cons item more ih =>
    obtain ⟨different, others⟩ := not_or.mp (List.mem_cons.not.mp free)
    rw [List.cons_append, List.splitOn_cons_eq_if_modifyHead, if_neg (by simpa using Ne.symm different), ih others]
    cases later.splitOn separator <;> rfl

/-- The pieces have no separators. -/
theorem not_mem_of_mem_splitOn {A : Type} [BEq A] [LawfulBEq A] {separator : A} {items piece : List A}
    (member : piece ∈ items.splitOn separator) : separator ∉ piece := by
  induction items generalizing piece with
  | nil =>
    rw [List.splitOn_nil, List.mem_singleton] at member
    rw [member]
    exact List.not_mem_nil
  | cons item rest ih =>
    rw [List.splitOn_cons_eq_if_modifyHead] at member
    by_cases same : item = separator
    · rw [if_pos (by simpa using same)] at member
      rcases List.mem_cons.mp member with rfl | later
      · exact List.not_mem_nil
      · exact ih later
    · rw [if_neg (by simpa using same)] at member
      cases pieces : rest.splitOn separator with
      | nil =>
        rw [pieces] at member
        cases member
      | cons first more =>
        rw [pieces, List.modifyHead_cons] at member
        have inFirst := ih (pieces ▸ List.mem_cons_self : first ∈ rest.splitOn separator)
        rcases List.mem_cons.mp member with rfl | later
        · exact fun inside => (List.mem_cons.mp inside).elim (Ne.symm same) inFirst
        · exact ih (pieces ▸ List.mem_cons_of_mem _ later)

/-- Splitting at an ASCII character commutes with the encoding. -/
theorem splitOn_utf8Bytes {separator : Char} (small : separator.toNat < 128) (text : List Char) :
    (utf8Bytes text).splitOn (UInt8.ofNat separator.toNat) = (text.splitOn separator).map utf8Bytes := by
  induction text with
  | nil => rfl
  | cons char rest ih =>
    rw [utf8Bytes_cons, List.splitOn_cons_eq_if_modifyHead]
    by_cases same : char = separator
    · subst same
      rw [if_pos (beq_self_eq_true char), utf8EncodeChar_ascii small, List.singleton_append,
        List.splitOn_cons_eq_if_modifyHead, if_pos (beq_self_eq_true _), ih]
      rfl
    · rw [if_neg (by simpa using same)]
      have absent : UInt8.ofNat separator.toNat ∉ String.utf8EncodeChar char :=
        fun member => same ((mem_utf8EncodeChar_ascii small).mp member)
      rw [splitOn_append_left absent, ih]
      cases rest.splitOn separator <;> rfl

end Utf8

end BubbleOs

namespace BubbleOs.Lines

variable {A : Type} {lines : List (List A)}

/-- These are the places before a line, and every earlier line has a separator behind it. -/
def offset : List (List A) → Nat → Nat
  | [], _ => 0
  | _ :: _, 0 => 0
  | line :: rest, row + 1 => line.length + 1 + offset rest row

def width (lines : List (List A)) (row : Nat) : Nat := (lines.getD row []).length

/-- A place lies in a row and a column. -/
def locate : List (List A) → Nat → Nat × Nat
  | [], place => (0, place)
  | line :: rest, place =>
    if place ≤ line.length then (0, place)
    else ((locate rest (place - (line.length + 1))).1 + 1, (locate rest (place - (line.length + 1))).2)

/-- A column outside the line becomes the end of the line. -/
def place (lines : List (List A)) (row column : Nat) : Nat := offset lines row + min column (width lines row)

@[simp] theorem offset_zero (lines : List (List A)) : offset lines 0 = 0 := by
  cases lines <;> rfl

@[simp] theorem offset_cons_succ (line : List A) (rest : List (List A)) (row : Nat) :
    offset (line :: rest) (row + 1) = line.length + 1 + offset rest row := rfl

@[simp] theorem width_cons_zero (line : List A) (rest : List (List A)) : width (line :: rest) 0 = line.length := rfl

@[simp] theorem width_cons_succ (line : List A) (rest : List (List A)) (row : Nat) :
    width (line :: rest) (row + 1) = width rest row := rfl

/-- A line begins behind the separator of the line before it. -/
theorem offset_succ {row : Nat} (inside : row < lines.length) :
    offset lines (row + 1) = offset lines row + width lines row + 1 := by
  induction lines generalizing row with
  | nil => simp at inside
  | cons line rest ih =>
    cases row with
    | zero => simp
    | succ row =>
      have next := @ih row (by simpa using inside)
      simp only [offset_cons_succ, width_cons_succ, next]
      omega

/-- The row and the column of a place decide it. -/
theorem locate_place {row column : Nat} (inside : row < lines.length) (short : column ≤ width lines row) :
    locate lines (offset lines row + column) = (row, column) := by
  induction lines generalizing row with
  | nil => simp at inside
  | cons line rest ih =>
    cases row with
    | zero =>
      rw [width_cons_zero] at short
      rw [offset_zero, Nat.zero_add, locate, if_pos short]
    | succ row =>
      have below := @ih row (by simpa using inside) short
      rw [locate, offset_cons_succ, if_neg (by omega)]
      have rest_ : line.length + 1 + offset rest row + column - (line.length + 1) = offset rest row + column := by
        omega
      rw [rest_, below]

section Text

variable {separator : A} {lines : List (List A)}

/-- The text joins lines with separators. -/
def join (separator : A) (lines : List (List A)) : List A := [separator].intercalate lines

@[simp] theorem join_single (line : List A) : join separator [line] = line := by
  simp [join, List.intercalate]

@[simp] theorem join_cons_cons (line next : List A) (rest : List (List A)) :
    join separator (line :: next :: rest) = line ++ separator :: join separator (next :: rest) := by
  simp [join, List.intercalate]

/-- The places behind the first separator are those of the rest. -/
theorem join_getElem?_add (line next : List A) (rest : List (List A)) (place : Nat) :
    (join separator (line :: next :: rest))[line.length + 1 + place]? = (join separator (next :: rest))[place]? := by
  rw [join_cons_cons, Nat.add_assoc, List.getElem?_append_right (by omega), Nat.add_sub_cancel_left, Nat.add_comm 1,
    List.getElem?_cons_succ]

theorem join_splitOn [DecidableEq A] (separator : A) (text : List A) : join separator (text.splitOn separator) = text :=
  List.intercalate_splitOn separator

/-- The places of a line hold its items. -/
theorem join_getElem? {row column : Nat} (inside : row < lines.length) (short : column < width lines row) :
    (join separator lines)[offset lines row + column]? = (lines.getD row [])[column]? := by
  induction lines generalizing row with
  | nil => simp at inside
  | cons line rest ih =>
    cases row with
    | zero =>
      rw [width_cons_zero] at short
      rw [offset_zero, Nat.zero_add]
      cases rest with
      | nil => simp
      | cons next rest =>
        rw [join_cons_cons, List.getElem?_append_left short]
        rfl
    | succ row =>
      cases rest with
      | nil => simp at inside
      | cons next rest =>
        have below := @ih row (by simpa using inside) short
        rw [offset_cons_succ, Nat.add_assoc, join_getElem?_add, below]
        rfl

/-- A separator stands behind every line but the last one. -/
theorem join_separator {row : Nat} (inside : row + 1 < lines.length) :
    (join separator lines)[offset lines row + width lines row]? = some separator := by
  induction lines generalizing row with
  | nil => simp at inside
  | cons line rest ih =>
    cases rest with
    | nil => simp at inside
    | cons next rest =>
      cases row with
      | zero => simp
      | succ row =>
        have below := @ih row (by simpa using inside)
        rw [offset_cons_succ, width_cons_succ, Nat.add_assoc, join_getElem?_add, below]

/-- The text ends with its last line. -/
theorem length_join {row : Nat} (last : row + 1 = lines.length) :
    (join separator lines).length = offset lines row + width lines row := by
  induction lines generalizing row with
  | nil => simp at last
  | cons line rest ih =>
    cases rest with
    | nil =>
      obtain rfl : row = 0 := by simpa using last
      simp
    | cons next rest =>
      cases row with
      | zero => simp at last
      | succ row =>
        have below := @ih row (by simpa using last)
        rw [join_cons_cons, List.length_append, List.length_cons, below, offset_cons_succ, width_cons_succ]
        omega

/-- Every place of the text lies in a line. -/
theorem locate_spec (some : lines ≠ []) {place : Nat} (inside : place ≤ (join separator lines).length) :
    (locate lines place).1 < lines.length ∧ (locate lines place).2 ≤ width lines (locate lines place).1 ∧
      offset lines (locate lines place).1 + (locate lines place).2 = place := by
  induction lines generalizing place with
  | nil => exact absurd rfl some
  | cons line rest ih =>
    rw [locate]
    by_cases here : place ≤ line.length
    · rw [if_pos here]
      exact ⟨by simp, here, by simp⟩
    · rw [if_neg here]
      cases rest with
      | nil =>
        rw [join_single] at inside
        exact absurd inside here
      | cons next rest =>
        rw [join_cons_cons, List.length_append, List.length_cons] at inside
        obtain ⟨row, column, same⟩ := @ih (by simp) (place - (line.length + 1)) (by omega)
        refine ⟨by simpa using row, column, ?_⟩
        rw [offset_cons_succ]
        omega

end Text

end BubbleOs.Lines
