import Mathlib.Tactic.IntervalCases

namespace BubbleOs

/-- A fixed array carries its length. -/
structure Bytes (size : Nat) where
  toList : List UInt8
  length_eq : toList.length = size
  deriving DecidableEq

namespace Bytes

variable {size : Nat}

@[ext] theorem ext {first second : Bytes size} (same : first.toList = second.toList) :
    first = second := by
  cases first
  cases second
  simpa using same

@[simp] theorem length_toList (bytes : Bytes size) : bytes.toList.length = size := bytes.length_eq

/-- A list fills the array from its start and the filler fills the rest. -/
def fill (filler : UInt8) (source : List UInt8) : Bytes size :=
  ⟨(source ++ List.replicate size filler).take size, by
    rw [List.length_take, List.length_append, List.length_replicate]
    omega⟩

/-- A list of the array's length is the whole array. -/
theorem fill_toList (filler : UInt8) (source : List UInt8) (exact : source.length = size) :
    (fill filler source : Bytes size).toList = source := by
  simp only [fill]
  rw [List.take_append_of_le_length (by omega), List.take_of_length_le (by omega)]

end Bytes

/-- A copy replaces the target bytes from an offset on. -/
def overwrite {A : Type} (target : List A) (offset : Nat) (source : List A) : List A :=
  target.take offset ++ source ++ target.drop (offset + source.length)

section Overwrite

variable {A : Type}

@[simp] theorem length_overwrite (target : List A) (offset : Nat) (source : List A)
    (fits : offset + source.length ≤ target.length) :
    (overwrite target offset source).length = target.length := by
  simp only [overwrite, List.length_append, List.length_take, List.length_drop]
  omega

@[simp] theorem overwrite_nil (target : List A) (offset : Nat) : overwrite target offset [] = target := by
  simp [overwrite]

/-- A copy changes only the positions that it covers. -/
theorem getElem?_overwrite (target : List A) (offset : Nat) (source : List A)
    (fits : offset + source.length ≤ target.length) (index : Nat) :
    (overwrite target offset source)[index]? =
      if offset ≤ index ∧ index < offset + source.length then source[index - offset]?
      else target[index]? := by
  have before : (target.take offset).length = offset := by
    rw [List.length_take]
    omega
  by_cases low : index < offset
  · rw [if_neg (by omega), overwrite, List.append_assoc, List.getElem?_append_left (by omega),
      List.getElem?_take_of_lt low]
  · rw [overwrite, List.append_assoc, List.getElem?_append_right (by omega), before]
    by_cases inside : index < offset + source.length
    · rw [if_pos (by omega), List.getElem?_append_left (by omega)]
    · rw [if_neg (by omega), List.getElem?_append_right (by omega), List.getElem?_drop]
      congr 1
      omega

/-- A copy of the whole target replaces it. -/
theorem overwrite_full (target source : List A) (same : source.length = target.length) :
    overwrite target 0 source = source := by
  simp [overwrite, same]

/-- A copy into the first part leaves the second part. -/
theorem overwrite_append_left (first second : List A) (offset : Nat) (source : List A)
    (fits : offset + source.length ≤ first.length) :
    overwrite (first ++ second) offset source = overwrite first offset source ++ second := by
  simp only [overwrite]
  rw [List.take_append_of_le_length (by omega), List.drop_append_of_le_length fits]
  simp only [List.append_assoc]

/-- A copy of the bytes that are there already keeps the target. -/
theorem overwrite_same (target : List A) (offset count : Nat) (inside : offset + count ≤ target.length) :
    overwrite target offset ((target.drop offset).take count) = target := by
  have length : ((target.drop offset).take count).length = count := by
    rw [List.length_take, List.length_drop]
    omega
  rw [overwrite, length, ← List.drop_drop, List.append_assoc, List.take_append_drop, List.take_append_drop]

/-- A copy keeps the target exactly when the bytes are there already. -/
theorem overwrite_eq_self_iff (target : List A) (offset : Nat) (source : List A)
    (inside : offset + source.length ≤ target.length) :
    overwrite target offset source = target ↔ (target.drop offset).take source.length = source := by
  constructor
  · intro same
    have length : (target.take offset).length = offset := List.length_take_of_le (by omega)
    conv_lhs => rw [← same, overwrite, List.append_assoc, List.drop_left' length, List.take_left]
  · intro same
    conv_lhs => rw [← same]
    exact overwrite_same target offset source.length inside

/-- A copy inside a range at the start is a copy into that range. -/
theorem take_overwrite (target : List A) (offset count : Nat) (source : List A)
    (inside : offset + source.length ≤ count) (fits : count ≤ target.length) :
    (overwrite target offset source).take count = overwrite (target.take count) offset source := by
  have length : (target.take count).length = count := List.length_take_of_le fits
  have written : (overwrite (target.take count) offset source).length = count := by
    rw [length_overwrite _ _ _ (by omega), length]
  nth_rewrite 1 [← List.take_append_drop count target]
  rw [overwrite_append_left _ _ _ _ (by omega), List.take_left' written]

/-- A copy behind the first part is a copy into the second part. -/
theorem overwrite_append_right (first second : List A) (offset : Nat) (source : List A) :
    overwrite (first ++ second) (first.length + offset) source =
      first ++ overwrite second offset source := by
  simp only [overwrite, Nat.add_assoc, List.take_append, List.drop_append]
  rw [List.take_of_length_le (by omega), List.drop_eq_nil_of_le (by omega)]
  simp

/-- A copy across the border splits at the border. -/
theorem overwrite_append_split (first second : List A) (offset : Nat) (source : List A)
    (inside : offset ≤ first.length) (across : first.length ≤ offset + source.length) :
    overwrite (first ++ second) offset source =
      overwrite first offset (source.take (first.length - offset)) ++
        overwrite second 0 (source.drop (first.length - offset)) := by
  have cut : (source.take (first.length - offset)).length = first.length - offset := by
    rw [List.length_take]
    omega
  have rest : (source.drop (first.length - offset)).length = offset + source.length - first.length := by
    rw [List.length_drop]
    omega
  have ended (position : Nat) (past : first.length ≤ position) : first.drop position = [] :=
    List.drop_eq_nil_of_le past
  simp only [overwrite, cut, rest]
  rw [List.take_append_of_le_length inside, List.drop_append, ended _ across, ended _ (by omega)]
  simp only [List.nil_append, List.append_nil, List.take_zero, Nat.zero_add, List.append_assoc]
  rw [← List.append_assoc (List.take (first.length - offset) source), List.take_append_drop]

end Overwrite

/-- A sixteen-bit field stores its low byte first. -/
def le16 (word : UInt16) : List UInt8 :=
  [UInt8.ofNat (word.toNat % 256), UInt8.ofNat (word.toNat / 256)]

/-- Two stored bytes give the sixteen-bit field. -/
def ofLe16 (low high : UInt8) : UInt16 := UInt16.ofNat (low.toNat + 256 * high.toNat)

/-- A thirty-two-bit field stores its low byte first. -/
def le32 (word : UInt32) : List UInt8 :=
  [UInt8.ofNat (word.toNat % 256), UInt8.ofNat (word.toNat / 256 % 256),
    UInt8.ofNat (word.toNat / 65536 % 256), UInt8.ofNat (word.toNat / 16777216)]

/-- Four stored bytes give the thirty-two-bit field. -/
def ofLe32 (first second third fourth : UInt8) : UInt32 :=
  UInt32.ofNat (first.toNat + 256 * second.toNat + 65536 * third.toNat + 16777216 * fourth.toNat)

@[simp] theorem length_le16 (word : UInt16) : (le16 word).length = 2 := rfl

@[simp] theorem length_le32 (word : UInt32) : (le32 word).length = 4 := rfl

/-- The stored bytes return the sixteen-bit field. -/
theorem ofLe16_le16 (word : UInt16) :
    ofLe16 (UInt8.ofNat (word.toNat % 256)) (UInt8.ofNat (word.toNat / 256)) = word := by
  have bound := word.toNat_lt
  apply UInt16.toNat_inj.mp
  simp only [ofLe16, UInt16.toNat_ofNat', UInt8.toNat_ofNat']
  omega

/-- The stored bytes return the thirty-two-bit field. -/
theorem ofLe32_le32 (word : UInt32) :
    ofLe32 (UInt8.ofNat (word.toNat % 256)) (UInt8.ofNat (word.toNat / 256 % 256))
      (UInt8.ofNat (word.toNat / 65536 % 256)) (UInt8.ofNat (word.toNat / 16777216)) = word := by
  have bound := word.toNat_lt
  apply UInt32.toNat_inj.mp
  simp only [ofLe32, UInt32.toNat_ofNat', UInt8.toNat_ofNat']
  omega

/-- The field returns its two stored bytes. -/
theorem le16_ofLe16 (low high : UInt8) : le16 (ofLe16 low high) = [low, high] := by
  have lowBound := low.toNat_lt
  have highBound := high.toNat_lt
  have value : (ofLe16 low high).toNat = low.toNat + 256 * high.toNat := by
    simp only [ofLe16, UInt16.toNat_ofNat']
    omega
  simp only [le16, value]
  rw [show (low.toNat + 256 * high.toNat) % 256 = low.toNat by omega,
    show (low.toNat + 256 * high.toNat) / 256 = high.toNat by omega,
    UInt8.ofNat_toNat, UInt8.ofNat_toNat]

/-- The field returns its four stored bytes. -/
theorem le32_ofLe32 (first second third fourth : UInt8) :
    le32 (ofLe32 first second third fourth) = [first, second, third, fourth] := by
  have b1 := first.toNat_lt
  have b2 := second.toNat_lt
  have b3 := third.toNat_lt
  have b4 := fourth.toNat_lt
  have value : (ofLe32 first second third fourth).toNat =
      first.toNat + 256 * second.toNat + 65536 * third.toNat + 16777216 * fourth.toNat := by
    simp only [ofLe32, UInt32.toNat_ofNat']
    omega
  simp only [le32, value]
  rw [show (first.toNat + 256 * second.toNat + 65536 * third.toNat + 16777216 * fourth.toNat) % 256 =
      first.toNat by omega,
    show (first.toNat + 256 * second.toNat + 65536 * third.toNat + 16777216 * fourth.toNat) / 256 % 256 =
      second.toNat by omega,
    show (first.toNat + 256 * second.toNat + 65536 * third.toNat + 16777216 * fourth.toNat) / 65536 % 256 =
      third.toNat by omega,
    show (first.toNat + 256 * second.toNat + 65536 * third.toNat + 16777216 * fourth.toNat) / 16777216 =
      fourth.toNat by omega]
  simp only [UInt8.ofNat_toNat]

abbrev Word := BitVec 64

namespace Word

/-- Byte zero is the least significant byte. -/
def byteAt (word : Word) (index : Nat) : UInt8 := UInt8.ofNat (word.toNat / 256 ^ index)

/-- The first eight bytes form a word. -/
def ofBytes (byte : Nat → UInt8) : Word :=
  BitVec.ofNat 64 ((byte 0).toNat + 256 * ((byte 1).toNat + 256 * ((byte 2).toNat + 256 * ((byte 3).toNat +
    256 * ((byte 4).toNat + 256 * ((byte 5).toNat + 256 * ((byte 6).toNat + 256 * (byte 7).toNat)))))))

end Word

/-- The least significant byte comes first. -/
def leBytes : Nat → Nat → List UInt8
  | 0, _ => []
  | count + 1, value => UInt8.ofNat value :: leBytes count (value / 256)

def ofLe : List UInt8 → Nat
  | [] => 0
  | byte :: rest => byte.toNat + 256 * ofLe rest

@[simp] theorem length_leBytes (count value : Nat) : (leBytes count value).length = count := by
  induction count generalizing value with
  | zero => rfl
  | succ count ih => rw [leBytes, List.length_cons, ih]

/-- The bytes hold a value that fits into them. -/
theorem ofLe_leBytes {count value : Nat} (fits : value < 256 ^ count) : ofLe (leBytes count value) = value := by
  induction count generalizing value with
  | zero =>
    rw [Nat.pow_zero] at fits
    rw [leBytes, ofLe]
    omega
  | succ count ih =>
    rw [leBytes, ofLe, ih (by rw [Nat.pow_succ] at fits; omega), UInt8.toNat_ofNat']
    omega

/-- A flat memory holds one byte at each address. -/
abbrev FlatMemory := Nat → UInt8

namespace FlatMemory

/-- The bytes are written from an address on. -/
def store (memory : FlatMemory) (addr : Nat) (bytes : List UInt8) : FlatMemory := fun other =>
  if addr ≤ other then bytes[other - addr]?.getD (memory other) else memory other

def load (memory : FlatMemory) (addr count : Nat) : List UInt8 := (List.range count).map fun offset => memory (addr + offset)

def storeWord (memory : FlatMemory) (addr value : Nat) : FlatMemory := memory.store addr (leBytes 8 value)

def loadWord (memory : FlatMemory) (addr : Nat) : Nat := ofLe (memory.load addr 8)

/-- Two memories agree on a range of addresses. -/
def Agree (first second : FlatMemory) (addr count : Nat) : Prop :=
  ∀ other, addr ≤ other → other < addr + count → first other = second other

section Store

variable {memory first second : FlatMemory} {addr count : Nat} {bytes : List UInt8}

theorem store_outside {other : Nat} (outside : other < addr ∨ addr + bytes.length ≤ other) :
    memory.store addr bytes other = memory other := by
  rw [store]
  split
  · rw [List.getElem?_eq_none (by omega), Option.getD_none]
  · rfl

theorem load_congr (same : Agree first second addr count) : first.load addr count = second.load addr count := by
  apply List.map_congr_left
  intro offset inside
  have small := List.mem_range.mp inside
  exact same (addr + offset) (by omega) (by omega)

theorem loadWord_congr (same : Agree first second addr 8) : first.loadWord addr = second.loadWord addr :=
  congrArg ofLe (load_congr same)

/-- Written bytes are read back. -/
theorem load_store (memory : FlatMemory) (addr : Nat) (bytes : List UInt8) :
    (memory.store addr bytes).load addr bytes.length = bytes := by
  apply List.ext_getElem?
  intro index
  rw [load, List.getElem?_map]
  by_cases inside : index < bytes.length
  · rw [List.getElem?_range inside, Option.map_some, store, if_pos (by omega), Nat.add_sub_cancel_left,
      List.getElem?_eq_getElem inside, Option.getD_some]
  · rw [List.getElem?_eq_none (by simpa using inside), List.getElem?_eq_none (by omega), Option.map_none]

theorem loadWord_storeWord {value : Nat} (fits : value < 18446744073709551616) :
    (memory.storeWord addr value).loadWord addr = value := by
  have read := load_store memory addr (leBytes 8 value)
  rw [length_leBytes] at read
  rw [loadWord, storeWord, read, ofLe_leBytes fits]

/-- A write agrees with the memory before it on every range apart from it. -/
theorem agree_store {other size : Nat} (apart : other + size ≤ addr ∨ addr + bytes.length ≤ other) :
    Agree (memory.store addr bytes) memory other size := by
  intro place low high
  exact store_outside (by omega)

theorem agree_storeWord {value other size : Nat} (apart : other + size ≤ addr ∨ addr + 8 ≤ other) :
    Agree (memory.storeWord addr value) memory other size :=
  agree_store (by rw [length_leBytes]; exact apart)

theorem Agree.trans {third : FlatMemory} (same : Agree first second addr count) (later : Agree second third addr count) :
    Agree first third addr count :=
  fun other low high => (same other low high).trans (later other low high)

/-- A read of two ranges is a read of the whole. -/
theorem load_add (memory : FlatMemory) (addr count more : Nat) :
    memory.load addr (count + more) = memory.load addr count ++ memory.load (addr + count) more := by
  rw [load, load, load, List.range_add, List.map_append, List.map_map]
  congr 1
  apply List.map_congr_left
  intro offset _
  rw [Function.comp_apply, Nat.add_assoc]

end Store

end FlatMemory

end BubbleOs
