import BubbleOs.Construction.Pci.Bar

namespace BubbleOs.Pci

open Attempt

/-- These bits of a register read back after ones were written to it. -/
def Register.probed {width : Nat} (register : Register width) : BitVec width :=
  (register.write (BitVec.allOnes width)).value

/-- Writing the old value back restores a register. -/
@[simp] theorem Register.write_restore {width : Nat} (register : Register width) (value : BitVec width) :
    (register.write value).write register.value = register := by
  obtain ⟨stored, writable⟩ := register
  simp only [Register.write, Register.mk.injEq, and_true]
  ext bit
  simp only [BitVec.getElem_or, BitVec.getElem_and, BitVec.getElem_not]
  cases stored[bit] <;> cases writable[bit] <;> simp

/-- The bits that read back are the fixed bits and the writable ones. -/
theorem Register.probed_eq {width : Nat} (register : Register width) :
    register.probed = (register.value &&& ~~~register.writable) ||| register.writable := by
  rw [probed, write, BitVec.allOnes_and]

namespace PciDeviceHeaderType0

variable {A : Type} {header : PciDeviceHeaderType0} {index : Nat} {other : Nat}

/-- This header has another command register. -/
def withCommand (header : PciDeviceHeaderType0) (command : Register 16) : PciDeviceHeaderType0 :=
  { header with command := command }

/-- This header has another base address register. -/
def withBar (header : PciDeviceHeaderType0) (index : Nat) (bar : Register 32) : PciDeviceHeaderType0 :=
  { header with bars := fun other => if other = index then bar else header.bars other }

@[simp] theorem withBar_same (bar : Register 32) : (header.withBar index bar).bars index = bar := if_pos rfl

@[simp] theorem withBar_other (bar : Register 32) (different : other ≠ index) :
    (header.withBar index bar).bars other = header.bars other := if_neg different

@[simp] theorem withBar_withBar (first second : Register 32) :
    (header.withBar index first).withBar index second = header.withBar index second := by
  simp only [withBar, mk.injEq, true_and]
  funext other
  split <;> rfl

@[simp] theorem withBar_self : header.withBar index (header.bars index) = header := by
  simp only [withBar]
  congr 1
  funext other
  split
  · rename_i same
    rw [same]
  · rfl

theorem withBar_comm (different : other ≠ index) (first second : Register 32) :
    (header.withBar index first).withBar other second = (header.withBar other second).withBar index first := by
  simp only [withBar, mk.injEq, true_and]
  funext place
  by_cases left : place = other <;> by_cases right : place = index <;> simp_all

@[simp] theorem readCommand_bind (next : BitVec 16 → Attempt PciDeviceHeaderType0 A) :
    (readCommand >>= next) header = next header.command.value header := rfl

@[simp] theorem writeCommand_bind (value : BitVec 16) (next : Unit → Attempt PciDeviceHeaderType0 A) :
    (writeCommand value >>= next) header = next () (header.withCommand (header.command.write value)) := rfl

@[simp] theorem readBar_bind (next : BitVec 32 → Attempt PciDeviceHeaderType0 A) :
    (readBar index >>= next) header = next (header.bars index).value header := rfl

@[simp] theorem writeBar_bind (value : BitVec 32) (next : Unit → Attempt PciDeviceHeaderType0 A) :
    (writeBar index value >>= next) header = next () (header.withBar index ((header.bars index).write value)) := rfl

@[simp] theorem withCommand_bars (command : Register 16) : (header.withCommand command).bars = header.bars := rfl

@[simp] theorem withCommand_command (command : Register 16) : (header.withCommand command).command = command := rfl

@[simp] theorem withCommand_withBar (command : Register 16) (bar : Register 32) :
    (header.withCommand command).withBar index bar = (header.withBar index bar).withCommand command := rfl

@[simp] theorem withCommand_withCommand (first second : Register 16) :
    (header.withCommand first).withCommand second = header.withCommand second := rfl

@[simp] theorem withCommand_self : header.withCommand header.command = header := rfl

/-- This is the answer of a probe for the mask that it has read. -/
def answer {width : Nat} (mask : BitVec width) (size : BitVec 64) : Outcome (BitVec 64) :=
  if mask = 0 then .missing else .value size

theorem ite_answer {width : Nat} (mask : BitVec width) (size : BitVec 64) :
    (if mask = 0 then fail else pure size : Attempt PciDeviceHeaderType0 (BitVec 64)) header =
      (answer mask size, header) := by
  unfold answer
  split <;> rfl

theorem probeBarSize_outside (outside : 6 ≤ index) : probeBarSize index header = (.missing, header) := by
  rw [probeBarSize, if_pos outside]
  rfl

theorem probeBarSize_zero (inside : index < 6) (zero : (header.bars index).value = 0) :
    probeBarSize index header = (.missing, header) := by
  rw [probeBarSize, if_neg (Nat.not_le.mpr inside), readCommand_bind, writeCommand_bind, readBar_bind, withCommand_bars]
  rw [if_pos zero]
  simp

theorem probeBarSize_io (inside : index < 6) (nonzero : (header.bars index).value ≠ 0)
    (port : (header.bars index).value &&& 0x1 ≠ 0) :
    probeBarSize index header = (answer ((header.bars index).probed &&& 0xFFFFFFFC)
      (~~~((header.bars index).probed &&& 0xFFFFFFFC).setWidth 64 + 1), header) := by
  rw [probeBarSize, if_neg (Nat.not_le.mpr inside), readCommand_bind, writeCommand_bind, readBar_bind, withCommand_bars]
  rw [if_neg nonzero, if_pos port]
  simp only [writeBar_bind, readBar_bind, writeCommand_bind, withCommand_bars, withCommand_command,
    withCommand_withBar, withCommand_withCommand, withBar_same, withBar_withBar, withBar_self, withCommand_self,
    Register.write_restore]
  exact ite_answer _ _

theorem probeBarSize_memory32 (inside : index < 6) (nonzero : (header.bars index).value ≠ 0)
    (memory : (header.bars index).value &&& 0x1 = 0) (type : ((header.bars index).value >>> 1 &&& 0x3).toNat = 0b00) :
    probeBarSize index header = (answer ((header.bars index).probed &&& 0xFFFFFFF0)
      ((~~~((header.bars index).probed &&& 0xFFFFFFF0).setWidth 64 + 1) &&& 0xFFFFFFFF), header) := by
  rw [probeBarSize, if_neg (Nat.not_le.mpr inside), readCommand_bind, writeCommand_bind, readBar_bind, withCommand_bars]
  rw [if_neg nonzero, if_neg (not_not.mpr memory), type]
  simp only [writeBar_bind, readBar_bind, writeCommand_bind, withCommand_bars, withCommand_command,
    withCommand_withBar, withCommand_withCommand, withBar_same, withBar_withBar, withBar_self, withCommand_self,
    Register.write_restore]
  exact ite_answer _ _

/-- This is the pair of words that a wide probe reads. -/
def probedPair (header : PciDeviceHeaderType0) (index : Nat) : BitVec 64 :=
  ((header.bars (index + 1)).probed.setWidth 64 <<< 32) ||| ((header.bars index).probed &&& 0xFFFFFFF0).setWidth 64

theorem probeBarSize_memory64 (inside : index < 6) (nonzero : (header.bars index).value ≠ 0)
    (memory : (header.bars index).value &&& 0x1 = 0) (type : ((header.bars index).value >>> 1 &&& 0x3).toNat = 0b10) :
    probeBarSize index header = (answer (header.probedPair index) (~~~header.probedPair index + 1), header) := by
  have different : index ≠ index + 1 := by omega
  rw [probeBarSize, if_neg (Nat.not_le.mpr inside), readCommand_bind, writeCommand_bind, readBar_bind, withCommand_bars]
  rw [if_neg nonzero, if_neg (not_not.mpr memory), type]
  simp only [writeBar_bind, readBar_bind, writeCommand_bind, withCommand_bars, withCommand_command,
    withCommand_withBar, withCommand_withCommand, withBar_same, withBar_withBar, withBar_other _ different,
    withBar_other _ different.symm, withBar_comm different, withBar_self, withCommand_self, Register.write_restore]
  exact ite_answer _ _

theorem probeBarSize_reserved (inside : index < 6) (nonzero : (header.bars index).value ≠ 0)
    (memory : (header.bars index).value &&& 0x1 = 0) (narrow : ((header.bars index).value >>> 1 &&& 0x3).toNat ≠ 0b00)
    (wide : ((header.bars index).value >>> 1 &&& 0x3).toNat ≠ 0b10) :
    probeBarSize index header = (.missing, header) := by
  rw [probeBarSize, if_neg (Nat.not_le.mpr inside), readCommand_bind, writeCommand_bind, readBar_bind, withCommand_bars]
  rw [if_neg nonzero, if_neg (not_not.mpr memory)]
  generalize ((header.bars index).value >>> 1 &&& 0x3).toNat = type at narrow wide
  split
  · contradiction
  · contradiction
  · simp

/-- A probe leaves every register as it was. -/
theorem probeBarSize_state (index : Nat) (header : PciDeviceHeaderType0) : (probeBarSize index header).2 = header := by
  by_cases inside : index < 6
  · by_cases zero : (header.bars index).value = 0
    · rw [probeBarSize_zero inside zero]
    by_cases memory : (header.bars index).value &&& 0x1 = 0
    · by_cases narrow : ((header.bars index).value >>> 1 &&& 0x3).toNat = 0b00
      · rw [probeBarSize_memory32 inside zero memory narrow]
      by_cases wide : ((header.bars index).value >>> 1 &&& 0x3).toNat = 0b10
      · rw [probeBarSize_memory64 inside zero memory wide]
      rw [probeBarSize_reserved inside zero memory narrow wide]
    · rw [probeBarSize_io inside zero memory]
  · rw [probeBarSize_outside (Nat.not_lt.mp inside)]

end PciDeviceHeaderType0

/-- A base address register decodes ports or memory. -/
inductive BarKind where
  | io
  | memory32 (prefetchable : Bool)
  | memory64 (prefetchable : Bool)
  deriving DecidableEq

namespace BarKind

/-- These bits of the first register are read-only. -/
def typeBits : BarKind → BitVec 32
  | io => 0b0001
  | memory32 prefetchable => if prefetchable then 0b1000 else 0b0000
  | memory64 prefetchable => if prefetchable then 0b1100 else 0b0100

/-- A size is a power of two between the granularity of the kind and its registers. -/
def Allows : BarKind → Nat → Prop
  | io, exponent => 2 ≤ exponent ∧ exponent < 32
  | memory32 _, exponent => 4 ≤ exponent ∧ exponent < 32
  | memory64 _, exponent => 4 ≤ exponent ∧ exponent < 64

/-- The driver sees the kind of a region. -/
def Describes : BarKind → BarType → Prop
  | io, .io _ => True
  | memory32 prefetchable, .memory32 _ seen => seen = prefetchable
  | memory64 prefetchable, .memory64 _ seen => seen = prefetchable
  | _, _ => False

/-- A wide address takes two registers. -/
def registers : BarKind → Nat
  | io => 1
  | memory32 _ => 1
  | memory64 _ => 2

end BarKind

/-- The address bits of a region lie above its size. -/
def addressBits (exponent : Nat) : BitVec 64 := BitVec.allOnes 64 <<< exponent

/-- The registers at an index store the address bits of a region and keep its type bits. -/
structure Implements (header : PciDeviceHeaderType0) (index : Nat) (kind : BarKind) (exponent : Nat) : Prop where
  inside : index + kind.registers ≤ 6
  allowed : kind.Allows exponent
  writable : (header.bars index).writable = (addressBits exponent).setWidth 32
  fixed : (header.bars index).value &&& ~~~(header.bars index).writable = kind.typeBits
  upper : kind.registers = 2 → (header.bars (index + 1)).writable = (addressBits exponent >>> 32).setWidth 32 ∧
    (header.bars (index + 1)).value &&& ~~~(header.bars (index + 1)).writable = 0

/-- A probed port region has ones above its size in the upper half. -/
theorem io_size : ∀ exponent < 32, 2 ≤ exponent →
    (BarKind.io.typeBits ||| (addressBits exponent).setWidth 32) &&& 0xFFFFFFFC ≠ 0 ∧
      ~~~((BarKind.io.typeBits ||| (addressBits exponent).setWidth 32) &&& 0xFFFFFFFC).setWidth 64 + 1 ≠
        BitVec.ofNat 64 (2 ^ exponent) := by
  decide +kernel

theorem memory32_size : ∀ prefetchable : Bool, ∀ exponent < 32, 4 ≤ exponent →
    ((BarKind.memory32 prefetchable).typeBits ||| (addressBits exponent).setWidth 32) &&& 0xFFFFFFF0 ≠ 0 ∧
      (~~~(((BarKind.memory32 prefetchable).typeBits ||| (addressBits exponent).setWidth 32) &&&
          0xFFFFFFF0).setWidth 64 + 1) &&& 0xFFFFFFFF = BitVec.ofNat 64 (2 ^ exponent) := by
  decide +kernel

/-- The two halves of a wide probe join to the address bits. -/
theorem memory64_pair : ∀ prefetchable : Bool, ∀ exponent < 64, 4 ≤ exponent →
    (((addressBits exponent >>> 32).setWidth 32).setWidth 64 <<< 32 |||
      (((BarKind.memory64 prefetchable).typeBits ||| (addressBits exponent).setWidth 32) &&& 0xFFFFFFF0).setWidth 64) =
        addressBits exponent := by
  decide +kernel

theorem memory64_size : ∀ exponent < 64, addressBits exponent ≠ 0 ∧
    ~~~addressBits exponent + 1 = BitVec.ofNat 64 (2 ^ exponent) := by
  decide +kernel

/-- No type bit of a memory region is writable. -/
theorem addressBits_low : ∀ exponent < 64, 4 ≤ exponent → 0xF &&& (addressBits exponent).setWidth 32 = 0 := by
  decide +kernel

theorem addressBits_lowest : ∀ exponent < 64, 2 ≤ exponent → 0x1 &&& (addressBits exponent).setWidth 32 = 0 := by
  decide +kernel

namespace Implements

variable {header : PciDeviceHeaderType0} {index exponent : Nat} {kind : BarKind}

/-- Bits that are not writable are type bits. -/
theorem low_bits (implements : Implements header index kind exponent) {bits : BitVec 32}
    (clear : bits &&& (addressBits exponent).setWidth 32 = 0) :
    (header.bars index).value &&& bits = kind.typeBits &&& bits := by
  rw [← implements.fixed, implements.writable]
  generalize (addressBits exponent).setWidth 32 = writable at clear
  ext bit bound
  have off : (bits &&& writable)[bit] = false := by rw [clear, BitVec.ofNat_eq_ofNat, BitVec.getElem_zero]
  simp only [BitVec.getElem_and, BitVec.getElem_not] at off ⊢
  cases asked : bits[bit] with
  | false => simp
  | true =>
    rw [asked, Bool.true_and] at off
    simp [off]

theorem probed_eq (implements : Implements header index kind exponent) :
    (header.bars index).probed = kind.typeBits ||| (addressBits exponent).setWidth 32 := by
  rw [Register.probed_eq, implements.fixed, implements.writable]

theorem probedPair_eq {prefetchable : Bool} (implements : Implements header index (.memory64 prefetchable) exponent) :
    header.probedPair index = addressBits exponent := by
  obtain ⟨writable, fixed⟩ := implements.upper rfl
  have upper : (header.bars (index + 1)).probed = (addressBits exponent >>> 32).setWidth 32 := by
    rw [Register.probed_eq, fixed, writable, BitVec.ofNat_eq_ofNat, BitVec.zero_or]
  rw [PciDeviceHeaderType0.probedPair, upper, implements.probed_eq]
  exact memory64_pair prefetchable exponent implements.allowed.2 implements.allowed.1

/-- The driver takes its branches by the type bits. -/
theorem memory_bits (implements : Implements header index kind exponent) (low : 4 ≤ exponent) (high : exponent < 64) :
    (header.bars index).value &&& 0x1 = kind.typeBits &&& 0x1 ∧
      (header.bars index).value &&& 0x8 = kind.typeBits &&& 0x8 ∧
      (header.bars index).value >>> 1 &&& (0x3 : BitVec 32) = kind.typeBits >>> 1 &&& (0x3 : BitVec 32) := by
  have whole := implements.low_bits (addressBits_low exponent high low)
  have lowest (word : BitVec 32) : word &&& 0x1 = (word &&& 0xF) &&& 0x1 := by
    rw [BitVec.and_assoc]
    rfl
  have type (word : BitVec 32) :
      word >>> 1 &&& (0x3 : BitVec 32) = (word &&& 0xF) >>> 1 &&& (0x3 : BitVec 32) := by
    rw [BitVec.ushiftRight_and_distrib, BitVec.and_assoc]
    rfl
  have highest (word : BitVec 32) : word &&& 0x8 = (word &&& 0xF) &&& 0x8 := by
    rw [BitVec.and_assoc]
    rfl
  rw [lowest, type, highest, whole, ← lowest, ← type, ← highest]
  exact ⟨rfl, rfl, rfl⟩

end Implements

namespace PciDeviceHeaderType0

variable {header : PciDeviceHeaderType0} {index exponent : Nat} {kind : BarKind}

/-- A region in one register is parsed without the next one. -/
theorem getBarType_narrow {index : Nat} {type : BarType} (inside : index < 6)
    (parsed : ∀ next, parseBarType (header.bars index).value next = some type) :
    header.getBarType index = some type := by
  rcases Nat.lt_or_ge index 5 with early | last
  · rw [getBarType, if_pos early, parsed]
  · rw [getBarType, if_neg (by omega), if_pos (by omega), parsed]

/-- A probe returns the size of every region in memory and of no port region. -/
theorem probeBarSize_size (implements : Implements header index kind exponent)
    (nonzero : (header.bars index).value ≠ 0) :
    (probeBarSize index header).1 = .value (BitVec.ofNat 64 (2 ^ exponent)) ↔ kind ≠ .io := by
  have inside := implements.inside
  cases kind with
  | io =>
    have port := implements.low_bits (addressBits_lowest exponent (by have := implements.allowed.2; omega)
      implements.allowed.1)
    obtain ⟨read, wrong⟩ := io_size exponent implements.allowed.2 implements.allowed.1
    rw [probeBarSize_io inside nonzero (by rw [port]; decide), implements.probed_eq, answer, if_neg read]
    simpa using wrong
  | memory32 prefetchable =>
    obtain ⟨memory, _, type⟩ := implements.memory_bits implements.allowed.1 (by have := implements.allowed.2; omega)
    obtain ⟨read, size⟩ := memory32_size prefetchable exponent implements.allowed.2 implements.allowed.1
    rw [probeBarSize_memory32 inside nonzero (by rw [memory]; cases prefetchable <;> rfl)
      (by rw [type]; cases prefetchable <;> rfl), implements.probed_eq, answer, if_neg read, size]
    simp
  | memory64 prefetchable =>
    obtain ⟨memory, _, type⟩ := implements.memory_bits implements.allowed.1 implements.allowed.2
    obtain ⟨read, size⟩ := memory64_size exponent implements.allowed.2
    rw [probeBarSize_memory64 (by change index + 2 ≤ 6 at inside; omega) nonzero
      (by rw [memory]; cases prefetchable <;> rfl) (by rw [type]; cases prefetchable <;> rfl),
      implements.probedPair_eq, answer, if_neg read, size]
    simp

/-- A probe reports the size of a region and restores its registers unless the region is one of ports. -/
theorem probeBarSize_exact_iff {header : PciDeviceHeaderType0} {index exponent : Nat} {kind : BarKind}
    (implements : Implements header index kind exponent) (nonzero : (header.bars index).value ≠ 0) :
    (probeBarSize index header = (.value (BitVec.ofNat 64 (2 ^ exponent)), header) ↔ kind ≠ .io) ∧
      ∀ (other : PciDeviceHeaderType0) (place : Nat), (probeBarSize place other).1 = .missing →
        probeBarSize place other = (.missing, other) := by
  constructor
  · rw [← probeBarSize_size implements nonzero, Prod.ext_iff, probeBarSize_state]
    simp
  · intro other place missing
    rw [Prod.ext_iff, probeBarSize_state]
    exact ⟨missing, rfl⟩

/-- A function has a register for thirty-two ports at 0xC000. -/
def portFunction : PciDeviceHeaderType0 where
  command := ⟨0x7, 0x7FF⟩
  bars index := if index = 0 then ⟨0xC001, 0xFFFFFFE0⟩ else ⟨0, 0⟩

theorem implements_portFunction : Implements portFunction 0 .io 5 where
  inside := by decide
  allowed := ⟨by decide, by decide⟩
  writable := by decide
  fixed := by decide
  upper two := absurd two (by decide)

/-- The probe takes thirty-two ports for a size of more than sixteen exabytes. -/
theorem probeBarSize_ports : Implements portFunction 0 .io 5 ∧ (portFunction.bars 0).value ≠ 0 ∧
    (probeBarSize 0 portFunction).1 = .value 0xFFFFFFFF00000020 ∧
    (probeBarSize 0 portFunction).1 ≠ .value (BitVec.ofNat 64 (2 ^ 5)) :=
  ⟨implements_portFunction, by decide, by decide +kernel, by decide +kernel⟩

/-- A function has a wide register for four gigabytes in memory. -/
def memoryFunction : PciDeviceHeaderType0 where
  command := ⟨0x7, 0x7FF⟩
  bars index := if index = 0 then ⟨0xC, 0⟩ else if index = 1 then ⟨0x8, 0xFFFFFFFF⟩ else ⟨0, 0⟩

theorem implements_memoryFunction : Implements memoryFunction 0 (.memory64 true) 32 where
  inside := by decide
  allowed := ⟨by decide, by decide⟩
  writable := by decide
  fixed := by decide
  upper _ := by decide

theorem probeBarSize_exact_memory :
    probeBarSize 0 memoryFunction = (.value (BitVec.ofNat 64 (2 ^ 32)), memoryFunction) :=
  (probeBarSize_exact_iff implements_memoryFunction (by decide)).1.mpr (by decide)

end PciDeviceHeaderType0

end BubbleOs.Pci
