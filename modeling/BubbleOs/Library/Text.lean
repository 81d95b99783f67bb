import Mathlib.Data.List.Basic

namespace BubbleOs

/-- The case tables agree with the ASCII rules, and other characters have no ASCII capitals but letters. -/
class Unicode where
  lower : Char → List Char
  upper : Char → List Char
  cased : Char → Bool
  caseIgnorable : Char → Bool
  lower_ascii : ∀ char : Char, char.toNat < 128 → lower char = [char.toLower]
  upper_ascii : ∀ char : Char, char.toNat < 128 → upper char = [char.toUpper]
  upper_foreign : ∀ char : Char, 128 ≤ char.toNat → ∀ mapped ∈ upper char, mapped.toNat < 128 →
    65 ≤ mapped.toNat ∧ mapped.toNat ≤ 90

namespace Text

/-- Only the small ASCII letters have other capitals. -/
theorem toNat_toUpper (char : Char) :
    char.toUpper.toNat = if 97 ≤ char.toNat ∧ char.toNat ≤ 122 then char.toNat - 32 else char.toNat := by
  have bounds : ('a'.val ≤ char.val ∧ char.val ≤ 'z'.val) ↔ (97 ≤ char.toNat ∧ char.toNat ≤ 122) := Iff.rfl
  unfold Char.toUpper
  split
  · rename_i letter
    rw [if_pos (bounds.mp letter)]
    change (char.val + ('A'.val - 'a'.val)).toNat = _
    rw [UInt32.toNat_add]
    have letter := bounds.mp letter
    change (char.toNat + 4294967264) % 2 ^ 32 = _
    omega
  · rename_i other
    rw [if_neg (fun letter => other (bounds.mpr letter))]

/-- Only the ASCII capitals have other small letters. -/
theorem toNat_toLower (char : Char) :
    char.toLower.toNat = if 65 ≤ char.toNat ∧ char.toNat ≤ 90 then char.toNat + 32 else char.toNat := by
  have bounds : (char.val ≥ 'A'.val ∧ char.val ≤ 'Z'.val) ↔ (65 ≤ char.toNat ∧ char.toNat ≤ 90) := Iff.rfl
  unfold Char.toLower
  split
  · rename_i letter
    rw [if_pos (bounds.mp letter)]
    change (char.val + ('a'.val - 'A'.val)).toNat = _
    rw [UInt32.toNat_add]
    have letter := bounds.mp letter
    change (char.toNat + 32) % 2 ^ 32 = _
    omega
  · rename_i other
    rw [if_neg (fun letter => other (bounds.mpr letter))]

/-- These tables change only ASCII letters. -/
@[reducible] def asciiTables : Unicode where
  lower char := [char.toLower]
  upper char := [char.toUpper]
  cased char := char.isAlpha
  caseIgnorable char := [0x27, 0x2E, 0x3A, 0x5E, 0x60].contains char.toNat
  lower_ascii _ _ := rfl
  upper_ascii _ _ := rfl
  upper_foreign char foreign mapped member small := by
    rw [List.mem_singleton.mp member, toNat_toUpper, if_neg (by omega)] at small
    omega

/-- This is the Unicode white-space property. -/
def isWhitespace (char : Char) : Bool :=
  let code := char.toNat
  (9 ≤ code && code ≤ 13) || code == 0x20 || code == 0x85 || code == 0xA0 || code == 0x1680 ||
    (0x2000 ≤ code && code ≤ 0x200A) || code == 0x2028 || code == 0x2029 || code == 0x202F ||
    code == 0x205F || code == 0x3000

def isAscii (char : Char) : Bool := char.toNat < 128

def eqIgnoreAsciiCase (first second : List Char) : Bool :=
  first.map Char.toLower == second.map Char.toLower

def trimEnd (text : List Char) : List Char := (text.reverse.dropWhile isWhitespace).reverse

def trim (text : List Char) : List Char := trimEnd (text.dropWhile isWhitespace)

def toUppercase [Unicode] (text : List Char) : List Char := text.flatMap Unicode.upper

/-- The first character that is not case-ignorable must be cased. -/
def caseIgnorableThenCased [Unicode] (text : List Char) : Bool :=
  match text.dropWhile Unicode.caseIgnorable with
  | char :: _ => Unicode.cased char
  | [] => false

/-- A capital sigma has a special form at the end of a word. -/
def toLowercaseFrom [Unicode] (before : List Char) : List Char → List Char
  | [] => []
  | char :: rest =>
    let mapped := if char = 'Σ' then
        if caseIgnorableThenCased before && !caseIgnorableThenCased rest then ['ς'] else ['σ']
      else Unicode.lower char
    mapped ++ toLowercaseFrom (char :: before) rest

def toLowercase [Unicode] (text : List Char) : List Char := toLowercaseFrom [] text

def isContinuation (byte : UInt8) : Bool := 0x80 ≤ byte.toNat && byte.toNat ≤ 0xBF

/-- The decoder accepts exactly the shortest form of every scalar value. -/
def decodeUtf8 : List UInt8 → Option (List Char)
  | [] => some []
  | b0 :: b1 :: b2 :: b3 :: rest =>
    if b0.toNat < 0x80 then (decodeUtf8 (b1 :: b2 :: b3 :: rest)).map (Char.ofNat b0.toNat :: ·)
    else if 0xC2 ≤ b0.toNat && b0.toNat ≤ 0xDF && isContinuation b1 then
      (decodeUtf8 (b2 :: b3 :: rest)).map
        (Char.ofNat ((b0.toNat - 0xC0) * 64 + (b1.toNat - 0x80)) :: ·)
    else if isThree b0 b1 && isContinuation b2 then
      (decodeUtf8 (b3 :: rest)).map (threeChar b0 b1 b2 :: ·)
    else if isFour b0 b1 && isContinuation b2 && isContinuation b3 then
      (decodeUtf8 rest).map (Char.ofNat ((b0.toNat - 0xF0) * 262144 + (b1.toNat - 0x80) * 4096 +
        (b2.toNat - 0x80) * 64 + (b3.toNat - 0x80)) :: ·)
    else none
  | b0 :: b1 :: b2 :: [] =>
    if b0.toNat < 0x80 then (decodeUtf8 [b1, b2]).map (Char.ofNat b0.toNat :: ·)
    else if 0xC2 ≤ b0.toNat && b0.toNat ≤ 0xDF && isContinuation b1 then
      (decodeUtf8 [b2]).map (Char.ofNat ((b0.toNat - 0xC0) * 64 + (b1.toNat - 0x80)) :: ·)
    else if isThree b0 b1 && isContinuation b2 then some [threeChar b0 b1 b2]
    else none
  | b0 :: b1 :: [] =>
    if b0.toNat < 0x80 then (decodeUtf8 [b1]).map (Char.ofNat b0.toNat :: ·)
    else if 0xC2 ≤ b0.toNat && b0.toNat ≤ 0xDF && isContinuation b1 then
      some [Char.ofNat ((b0.toNat - 0xC0) * 64 + (b1.toNat - 0x80))]
    else none
  | b0 :: [] => if b0.toNat < 0x80 then some [Char.ofNat b0.toNat] else none
where
  /-- The second byte excludes long forms and surrogates. -/
  isThree (b0 b1 : UInt8) : Bool :=
    isContinuation b1 && 0xE0 ≤ b0.toNat && b0.toNat ≤ 0xEF &&
      (b0.toNat != 0xE0 || 0xA0 ≤ b1.toNat) && (b0.toNat != 0xED || b1.toNat ≤ 0x9F)
  /-- The second byte excludes long forms and values above the last scalar value. -/
  isFour (b0 b1 : UInt8) : Bool :=
    isContinuation b1 && 0xF0 ≤ b0.toNat && b0.toNat ≤ 0xF4 &&
      (b0.toNat != 0xF0 || 0x90 ≤ b1.toNat) && (b0.toNat != 0xF4 || b1.toNat ≤ 0x8F)
  threeChar (b0 b1 b2 : UInt8) : Char :=
    Char.ofNat ((b0.toNat - 0xE0) * 4096 + (b1.toNat - 0x80) * 64 + (b2.toNat - 0x80))

/-- A character above the first plane becomes a surrogate pair. -/
def encodeUtf16Char (char : Char) : List UInt16 :=
  let code := char.toNat
  if code < 0x10000 then [UInt16.ofNat code]
  else [UInt16.ofNat (0xD800 + (code - 0x10000) / 0x400), UInt16.ofNat (0xDC00 + (code - 0x10000) % 0x400)]

def encodeUtf16 (text : List Char) : List UInt16 := text.flatMap encodeUtf16Char

/-- An unpaired surrogate rejects the whole text. -/
def decodeUtf16 : List UInt16 → Option (List Char)
  | [] => some []
  | unit :: rest =>
    if unit.toNat < 0xD800 ∨ 0xDFFF < unit.toNat then
      (decodeUtf16 rest).map (Char.ofNat unit.toNat :: ·)
    else if 0xDC00 ≤ unit.toNat then none
    else
      match rest with
      | [] => none
      | low :: rest =>
        if 0xDC00 ≤ low.toNat ∧ low.toNat ≤ 0xDFFF then
          (decodeUtf16 rest).map (Char.ofNat (0x10000 + (unit.toNat - 0xD800) * 0x400 +
            (low.toNat - 0xDC00)) :: ·)
        else none

/-- A unit outside the surrogate range is one character. -/
theorem decodeUtf16_single (unit : UInt16) (rest : List UInt16)
    (outside : unit.toNat < 0xD800 ∨ 0xDFFF < unit.toNat) :
    decodeUtf16 (unit :: rest) = (decodeUtf16 rest).map (Char.ofNat unit.toNat :: ·) := by
  rw [decodeUtf16.eq_def]
  simp only [if_pos outside]

/-- A surrogate pair is one character. -/
theorem decodeUtf16_pair (high low : UInt16) (rest : List UInt16)
    (leading : 0xD800 ≤ high.toNat ∧ high.toNat < 0xDC00)
    (trailing : 0xDC00 ≤ low.toNat ∧ low.toNat ≤ 0xDFFF) :
    decodeUtf16 (high :: low :: rest) = (decodeUtf16 rest).map
      (Char.ofNat (0x10000 + (high.toNat - 0xD800) * 0x400 + (low.toNat - 0xDC00)) :: ·) := by
  have inside : ¬ (high.toNat < 0xD800 ∨ 0xDFFF < high.toNat) := by omega
  have first : ¬ 0xDC00 ≤ high.toNat := by omega
  rw [decodeUtf16.eq_def]
  simp only [if_neg inside, if_neg first, if_pos trailing]

/-- One encoded character decodes before the rest of the text. -/
theorem decodeUtf16_char (char : Char) (rest : List UInt16) :
    decodeUtf16 (encodeUtf16Char char ++ rest) = (decodeUtf16 rest).map (char :: ·) := by
  have valid : char.toNat < 0xD800 ∨ 0xDFFF < char.toNat ∧ char.toNat < 0x110000 := char.valid
  unfold encodeUtf16Char
  dsimp only
  split
  · have value : (UInt16.ofNat char.toNat).toNat = char.toNat := by
      rw [UInt16.toNat_ofNat']
      omega
    rw [List.singleton_append, decodeUtf16_single _ _ (by omega), value, Char.ofNat_toNat]
  · have high : (UInt16.ofNat (0xD800 + (char.toNat - 0x10000) / 0x400)).toNat =
        0xD800 + (char.toNat - 0x10000) / 0x400 := by
      rw [UInt16.toNat_ofNat']
      omega
    have low : (UInt16.ofNat (0xDC00 + (char.toNat - 0x10000) % 0x400)).toNat =
        0xDC00 + (char.toNat - 0x10000) % 0x400 := by
      rw [UInt16.toNat_ofNat']
      omega
    have code : 0x10000 + (0xD800 + (char.toNat - 0x10000) / 0x400 - 0xD800) * 0x400 +
        (0xDC00 + (char.toNat - 0x10000) % 0x400 - 0xDC00) = char.toNat := by
      omega
    rw [List.cons_append, List.singleton_append, decodeUtf16_pair _ _ _ (by omega) (by omega),
      high, low, code, Char.ofNat_toNat]

/-- Every text survives its UTF-16 form. -/
theorem decodeUtf16_encodeUtf16 (text : List Char) : decodeUtf16 (encodeUtf16 text) = some text := by
  induction text with
  | nil => rfl
  | cons char rest ih =>
    rw [encodeUtf16, List.flatMap_cons, decodeUtf16_char]
    change (decodeUtf16 (encodeUtf16 rest)).map _ = _
    rw [ih]
    rfl

/-- A text without the null character has no null unit. -/
theorem encodeUtf16_ne_zero (text : List Char) (clean : ∀ char ∈ text, char.toNat ≠ 0)
    (unit : UInt16) (member : unit ∈ encodeUtf16 text) : unit ≠ 0 := by
  obtain ⟨char, inText, inChar⟩ := List.mem_flatMap.mp member
  have nonzero := clean char inText
  have valid : char.toNat < 0xD800 ∨ 0xDFFF < char.toNat ∧ char.toNat < 0x110000 := char.valid
  intro zero
  subst zero
  unfold encodeUtf16Char at inChar
  dsimp only at inChar
  split at inChar
  · have same := congrArg UInt16.toNat (List.mem_singleton.mp inChar)
    rw [UInt16.toNat_ofNat', UInt16.toNat_zero] at same
    omega
  · rcases List.mem_cons.mp inChar with first | second
    · have same := congrArg UInt16.toNat first
      rw [UInt16.toNat_ofNat', UInt16.toNat_zero] at same
      omega
    · have same := congrArg UInt16.toNat (List.mem_singleton.mp second)
      rw [UInt16.toNat_ofNat', UInt16.toNat_zero] at same
      omega

/-- A text with characters has units. -/
theorem encodeUtf16_ne_nil (text : List Char) (nonempty : text ≠ []) : encodeUtf16 text ≠ [] := by
  intro empty
  have decoded := decodeUtf16_encodeUtf16 text
  rw [empty] at decoded
  exact nonempty (Option.some.inj decoded).symm

end Text

end BubbleOs
