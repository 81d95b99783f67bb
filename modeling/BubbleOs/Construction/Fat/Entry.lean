/-
This file holds the on-disk records of the FAT driver and its filename codec.
-/

import BubbleOs.Library.Bytes
import BubbleOs.Library.Text

namespace BubbleOs.Fat

open Text

def lfnLastEntryFlag : UInt8 := 0x40

def lfnSequenceMask : UInt8 := 0x3F

def lfnUnitsPerEntry : Nat := 13

def lfnMaxUnits : Nat := 255

def lfnMaxEntries : Nat := (lfnMaxUnits + lfnUnitsPerEntry - 1) / lfnUnitsPerEntry

/-- The driver reads these fields of the boot sector. -/
structure FatBootSector where
  bytesPerSector : UInt16
  sectorsPerCluster : UInt8
  reservedSectorCount : UInt16
  tableCount : UInt8
  tableSize16 : UInt16
  totalSectors32 : UInt32
  deriving DecidableEq

/-- The driver reads these fields of the extended boot sector. -/
structure Fat32ExtendedBootSector where
  tableSize : UInt32
  rootCluster : UInt32
  deriving DecidableEq

abbrev ShortName := Bytes 11

/-- The packed record takes thirty-two bytes. -/
structure DirectoryEntry where
  name : ShortName
  attributes : UInt8
  reserved : UInt8
  creationTimeCentiseconds : UInt8
  creationTime : UInt16
  creationDate : UInt16
  lastAccessedDate : UInt16
  firstClusterHigh : UInt16
  modifiedTime : UInt16
  modifiedDate : UInt16
  firstClusterLow : UInt16
  size : UInt32
  deriving DecidableEq

/-- This is the size of a packed directory entry. -/
def entrySize : Nat := 32

/-- The packed fields follow one another without gaps. -/
def DirectoryEntry.toBytes (entry : DirectoryEntry) : List UInt8 :=
  entry.name.toList ++ [entry.attributes, entry.reserved, entry.creationTimeCentiseconds] ++
    le16 entry.creationTime ++ le16 entry.creationDate ++ le16 entry.lastAccessedDate ++
    le16 entry.firstClusterHigh ++ le16 entry.modifiedTime ++ le16 entry.modifiedDate ++
    le16 entry.firstClusterLow ++ le32 entry.size

/-- An unaligned read takes the record that starts at an offset. -/
def DirectoryEntry.readAt (buffer : List UInt8) (offset : Nat) : DirectoryEntry :=
  let bytes := buffer.drop offset
  let byte (index : Nat) := bytes.getD index 0
  { name := Bytes.fill 0 (bytes.take 11)
    attributes := byte 11
    reserved := byte 12
    creationTimeCentiseconds := byte 13
    creationTime := ofLe16 (byte 14) (byte 15)
    creationDate := ofLe16 (byte 16) (byte 17)
    lastAccessedDate := ofLe16 (byte 18) (byte 19)
    firstClusterHigh := ofLe16 (byte 20) (byte 21)
    modifiedTime := ofLe16 (byte 22) (byte 23)
    modifiedDate := ofLe16 (byte 24) (byte 25)
    firstClusterLow := ofLe16 (byte 26) (byte 27)
    size := ofLe32 (byte 28) (byte 29) (byte 30) (byte 31) }

namespace DirectoryEntry

/-- This is the byte that marks free and deleted slots. -/
def firstByte (entry : DirectoryEntry) : UInt8 := entry.name.toList.getD 0 0

def isEndMarker (entry : DirectoryEntry) : Bool := entry.firstByte == 0x00

def isDeleted (entry : DirectoryEntry) : Bool := entry.firstByte == 0xE5

def markDeleted (entry : DirectoryEntry) : DirectoryEntry :=
  { entry with name := ⟨overwrite entry.name.toList 0 [0xE5], by simp⟩ }

def isLongFilename (entry : DirectoryEntry) : Bool := entry.attributes &&& 0x3F == 0x0F

def isVolumeLabel (entry : DirectoryEntry) : Bool := entry.attributes &&& 0x08 != 0

def isNormalEntry (entry : DirectoryEntry) : Bool :=
  !entry.isEndMarker && !entry.isDeleted && !entry.isLongFilename && !entry.isVolumeLabel

def isDirectory (entry : DirectoryEntry) : Bool :=
  entry.isNormalEntry && entry.attributes &&& 0x10 != 0

def isRegularFile (entry : DirectoryEntry) : Bool := entry.isNormalEntry && !entry.isDirectory

def getCluster (entry : DirectoryEntry) : Nat :=
  entry.firstClusterHigh.toNat <<< 16 ||| entry.firstClusterLow.toNat

def setCluster (entry : DirectoryEntry) (cluster : Nat) : DirectoryEntry :=
  { entry with
    firstClusterHigh := UInt16.ofNat ((cluster >>> 16) &&& 0xFFFF)
    firstClusterLow := UInt16.ofNat (cluster &&& 0xFFFF) }

end DirectoryEntry

/-- A long filename record reuses the bytes of a directory entry. -/
structure LongDirectoryEntry where
  order : UInt8
  name1 : Bytes 10
  attributes : UInt8
  entryType : UInt8
  checksum : UInt8
  name2 : Bytes 12
  firstClusterLow : UInt16
  name3 : Bytes 4
  deriving DecidableEq

namespace LongDirectoryEntry

def toBytes (entry : LongDirectoryEntry) : List UInt8 :=
  [entry.order] ++ entry.name1.toList ++ [entry.attributes, entry.entryType, entry.checksum] ++
    entry.name2.toList ++ le16 entry.firstClusterLow ++ entry.name3.toList

def ofBytes (bytes : List UInt8) : LongDirectoryEntry where
  order := bytes.getD 0 0
  name1 := Bytes.fill 0 ((bytes.drop 1).take 10)
  attributes := bytes.getD 11 0
  entryType := bytes.getD 12 0
  checksum := bytes.getD 13 0
  name2 := Bytes.fill 0 ((bytes.drop 14).take 12)
  firstClusterLow := ofLe16 (bytes.getD 26 0) (bytes.getD 27 0)
  name3 := Bytes.fill 0 ((bytes.drop 28).take 4)

/-- A short chunk ends with a null unit and filler units. -/
def padUnits (units : List UInt16) : List UInt16 :=
  (units ++ 0x0000 :: List.replicate lfnUnitsPerEntry 0xFFFF).take lfnUnitsPerEntry

/-- This is the record of one chunk of a name. -/
def new (sequence : UInt8) (last : Bool) (checksum : UInt8) (units : List UInt16) :
    LongDirectoryEntry where
  order := if last then sequence ||| lfnLastEntryFlag else sequence
  name1 := Bytes.fill 0 (((padUnits units).take 5).flatMap le16)
  attributes := 0x0F
  entryType := 0
  checksum := checksum
  name2 := Bytes.fill 0 ((((padUnits units).drop 5).take 6).flatMap le16)
  firstClusterLow := 0
  name3 := Bytes.fill 0 (((padUnits units).drop 11).flatMap le16)

def fromDirectoryEntry (entry : DirectoryEntry) : LongDirectoryEntry := ofBytes entry.toBytes

def toDirectoryEntry (entry : LongDirectoryEntry) : DirectoryEntry :=
  DirectoryEntry.readAt entry.toBytes 0

def sequence (entry : LongDirectoryEntry) : UInt8 := entry.order &&& lfnSequenceMask

def isLast (entry : LongDirectoryEntry) : Bool := entry.order &&& lfnLastEntryFlag != 0

/-- Each pair of bytes is one unit. -/
def pairUnits : List UInt8 → List UInt16
  | low :: high :: rest => ofLe16 low high :: pairUnits rest
  | _ => []

def nameUnits (entry : LongDirectoryEntry) : List UInt16 :=
  pairUnits entry.name1.toList ++ pairUnits entry.name2.toList ++ pairUnits entry.name3.toList

end LongDirectoryEntry

def rotateRightOne (sum : UInt8) : UInt8 := (sum >>> 1) ||| (sum <<< 7)

def lfnChecksum (shortName : ShortName) : UInt8 :=
  shortName.toList.foldl (fun sum byte => rotateRightOne sum + byte) 0

def isInvalidLongNameChar (char : Char) : Bool :=
  char.toNat < 0x20 ||
    ['"', '*', '/', ':', '<', '>', '?', '\\', '|'].contains char

def endsWith (text : List Char) (char : Char) : Bool := text.getLast? == some char

def encodeLongFilename (filename : List Char) : Option (List UInt16) :=
  if filename.isEmpty || filename == ['.'] || filename == ['.', '.'] || endsWith filename ' ' ||
      endsWith filename '.' || filename.any isInvalidLongNameChar then none
  else
    let units := encodeUtf16 filename
    if units.length > lfnMaxUnits then none else some units

/-- The name ends before the first null unit. -/
def decodeLongFilename (units : List UInt16) : Option (List Char) :=
  match decodeUtf16 (units.takeWhile (· != 0)) with
  | none => none
  | some name => if name.isEmpty then none else some name

def isInvalidShortNameByte (byte : UInt8) : Bool :=
  byte ≤ 0x20 ||
    ['"', '*', '+', ',', '/', ':', ';', '<', '=', '>', '?', '[', '\\', ']', '|'].any
      (fun char => UInt8.ofNat char.toNat == byte)

/-- The component keeps at most the given number of characters. -/
def sanitizeShortComponent : List Char → Nat → List UInt8
  | [], _ => []
  | _ :: _, 0 => []
  | char :: rest, maxLen + 1 =>
    if char == ' ' || char == '.' then sanitizeShortComponent rest (maxLen + 1)
    else
      let upper := char.toUpper
      let byte := UInt8.ofNat upper.toNat
      let kept := if isAscii upper && !isInvalidShortNameByte byte then byte else 0x5F
      kept :: sanitizeShortComponent rest maxLen

/-- The digits of a tail appear with the lowest digit first. -/
def tailDigits : Nat → Nat → List UInt8
  | 0, _ => []
  | fuel + 1, remaining =>
    if remaining > 0 then
      UInt8.ofNat (0x30 + remaining % 10) :: tailDigits fuel (remaining / 10)
    else []

/-- A tail below one million has at most six digits. -/
def maxTailDigits : Nat := 6

def composeShortAlias (base ext : List UInt8) (tail : Nat) : ShortName :=
  let digits := tailDigits maxTailDigits tail
  let baseLen := min base.length (8 - 1 - digits.length)
  let stem := base.take baseLen ++ [0x7E] ++ digits.reverse
  Bytes.fill 0x20 (stem ++ List.replicate (8 - stem.length) 0x20 ++ ext)

/-- The last dot separates the base from the extension unless it is the first character. -/
def splitAtLastDot (filename : List Char) : List Char × List Char :=
  let ext := (filename.reverse.takeWhile (· != '.')).reverse
  let base := filename.take (filename.length - ext.length - 1)
  if filename.contains '.' && !base.isEmpty then (base, ext) else (filename, [])

/-- The search tries the given number of tails from a first tail. -/
def findAlias (base ext : List UInt8) (taken : List ShortName) : Nat → Nat → Option ShortName
  | 0, _ => none
  | attempts + 1, tail =>
    let candidate := composeShortAlias base ext tail
    if taken.contains candidate then findAlias base ext taken attempts (tail + 1)
    else some candidate

def generateShortAlias (filename : List Char) (taken : List ShortName) : Option ShortName :=
  let parts := splitAtLastDot filename
  findAlias (sanitizeShortComponent parts.1 8) (sanitizeShortComponent parts.2 3) taken 999999 1

def utf8Bytes (text : List Char) : List UInt8 := text.flatMap String.utf8EncodeChar

section

variable [Unicode]

def getFatFilename (filename : List Char) : Option ShortName :=
  let name := toUppercase (filename.takeWhile (· != '.'))
  let ext := toUppercase ((filename.dropWhile (· != '.')).drop 1)
  if name.isEmpty || (utf8Bytes name).length > 8 || (utf8Bytes ext).length > 3 ||
      filename.count '.' > 1 || !name.all isAscii || !ext.all isAscii ||
      (utf8Bytes name ++ utf8Bytes ext).any isInvalidShortNameByte then none
  else
    some (Bytes.fill 0x20 (utf8Bytes name ++ List.replicate (8 - (utf8Bytes name).length) 0x20 ++
      utf8Bytes ext))

def getFilenameFromFat (filename : ShortName) : List Char :=
  let name := toLowercase (trimEnd ((decodeUtf8 (filename.toList.take 8)).getD []))
  let ext := toLowercase (trimEnd ((decodeUtf8 (filename.toList.drop 8)).getD []))
  if ext.isEmpty then name else name ++ ['.'] ++ ext

end

/-- A store behind the end of the array panics. -/
def storeAt (array : List UInt8) (index : Nat) (byte : UInt8) : Option (List UInt8) :=
  if index < array.length then some (array.set index byte) else none

/-- A copy to a slice that does not fit into the array panics. -/
def storeSlice (array : List UInt8) (start : Nat) (source : List UInt8) : Option (List UInt8) :=
  if start + source.length ≤ array.length then some (overwrite array start source) else none

/-- The loop stores the digits of the tail with the lowest digit first. -/
def storeDigits (digits : List UInt8) (digitCount remaining : Nat) : Option (List UInt8 × Nat) :=
  if remaining > 0 then do
    let digits ← storeAt digits digitCount (UInt8.ofNat (0x30 + remaining % 10))
    storeDigits digits (digitCount + 1) (remaining / 10)
  else some (digits, digitCount)
termination_by remaining

/-- The loop copies the digits behind the tilde with the highest digit first. -/
def placeDigits (digits : List UInt8) (digitCount baseLen : Nat) : List Nat → List UInt8 → Option (List UInt8)
  | [], name => some name
  | index :: rest, name =>
    -- The debug build panics when the subtraction underflows.
    if digitCount < 1 + index then none
    else do
      let digit ← digits[digitCount - 1 - index]?
      let name ← storeAt name (baseLen + 1 + index) digit
      placeDigits digits digitCount baseLen rest name

def composeAliasIndexed (base ext : List UInt8) (tail : Nat) : Option (List UInt8) := do
  let stored ← storeDigits (List.replicate maxTailDigits 0) 0 tail
  if 8 - 1 < stored.2 then none
  else
    let baseLen := min base.length (8 - 1 - stored.2)
    let name ← storeSlice (List.replicate 11 0x20) 0 (base.take baseLen)
    let name ← storeAt name baseLen 0x7E
    let name ← placeDigits stored.1 stored.2 baseLen (List.range stored.2) name
    storeSlice name 8 ext

/-- The outer option is the panic and the inner option is the result of the search. -/
def findAliasIndexed (base ext : List UInt8) (taken : List ShortName) : Nat → Nat → Option (Option (List UInt8))
  | 0, _ => some none
  | attempts + 1, tail => do
    let candidate ← composeAliasIndexed base ext tail
    if (taken.map Bytes.toList).contains candidate then findAliasIndexed base ext taken attempts (tail + 1)
    else some (some candidate)

def generateAliasIndexed (filename : List Char) (taken : List ShortName) : Option (Option (List UInt8)) :=
  let parts := splitAtLastDot filename
  findAliasIndexed (sanitizeShortComponent parts.1 8) (sanitizeShortComponent parts.2 3) taken 999999 1

end BubbleOs.Fat
