import BubbleOs.Construction.Mem.Heap
import BubbleOs.Library.Tiling

namespace BubbleOs.Heap

open FlatMemory

structure Block where
  address : Nat
  size : Nat
  used : Bool

def wordLimit : Nat := 18446744073709551616

section Fields

variable {memory : FlatMemory} {block value : Nat} {used : Bool} {first second : FlatMemory}

/-- A changed memory differs from the old one only inside one range. -/
def Within (first second : FlatMemory) (low high : Nat) : Prop :=
  ∀ other, other < low ∨ high ≤ other → first other = second other

theorem Within.trans {first second third : FlatMemory} {low high : Nat} (one : Within first second low high)
    (two : Within second third low high) : Within first third low high :=
  fun other outside => (one other outside).trans (two other outside)

theorem Within.mono {low high wideLow wideHigh : Nat} (one : Within first second low high) (below : wideLow ≤ low)
    (above : high ≤ wideHigh) : Within first second wideLow wideHigh :=
  fun other outside => one other (by omega)

theorem Within.agree {low high addr count : Nat} (within : Within first second low high)
    (apart : addr + count ≤ low ∨ high ≤ addr) : Agree first second addr count :=
  fun other below above => within other (by omega)

theorem setNext_within : Within (setNext memory block value) memory block (block + blockSize) :=
  fun other outside => store_outside (by rw [length_leBytes]; rw [blockSize] at outside; omega)

theorem setLength_within : Within (setLength memory block value) memory block (block + blockSize) :=
  fun other outside => store_outside (by rw [length_leBytes]; rw [blockSize] at outside; omega)

theorem setAddress_within : Within (setAddress memory block value) memory block (block + blockSize) :=
  fun other outside => store_outside (by rw [length_leBytes]; rw [blockSize] at outside; omega)

theorem setUsed_within : Within (setUsed memory block used) memory block (block + blockSize) :=
  fun other outside => store_outside (by rw [List.length_singleton]; rw [blockSize] at outside; omega)

theorem blockNext_setUsed : blockNext (setUsed memory block used) block = blockNext memory block := by
  unfold blockNext setUsed
  exact loadWord_congr (agree_store (.inl (by omega)))

theorem blockNext_setAddress : blockNext (setAddress memory block value) block = blockNext memory block := by
  unfold blockNext setAddress
  exact loadWord_congr (agree_storeWord (.inl (by omega)))

theorem blockNext_setLength : blockNext (setLength memory block value) block = blockNext memory block := by
  unfold blockNext setLength
  exact loadWord_congr (agree_storeWord (.inl (by omega)))

theorem blockNext_setNext (fits : value < wordLimit) : blockNext (setNext memory block value) block = value := by
  unfold blockNext setNext
  exact loadWord_storeWord fits

theorem blockLength_setUsed : blockLength (setUsed memory block used) block = blockLength memory block := by
  unfold blockLength setUsed
  exact loadWord_congr (agree_store (.inl (by omega)))

theorem blockLength_setAddress : blockLength (setAddress memory block value) block = blockLength memory block := by
  unfold blockLength setAddress
  exact loadWord_congr (agree_storeWord (.inl (by omega)))

theorem blockLength_setNext : blockLength (setNext memory block value) block = blockLength memory block := by
  unfold blockLength setNext
  exact loadWord_congr (agree_storeWord (.inr (by omega)))

theorem blockLength_setLength (fits : value < wordLimit) : blockLength (setLength memory block value) block = value := by
  unfold blockLength setLength
  exact loadWord_storeWord fits

theorem blockAddress_setUsed : blockAddress (setUsed memory block used) block = blockAddress memory block := by
  unfold blockAddress setUsed
  exact loadWord_congr (agree_store (.inl (by omega)))

theorem blockAddress_setNext : blockAddress (setNext memory block value) block = blockAddress memory block := by
  unfold blockAddress setNext
  exact loadWord_congr (agree_storeWord (.inr (by omega)))

theorem blockAddress_setLength : blockAddress (setLength memory block value) block = blockAddress memory block := by
  unfold blockAddress setLength
  exact loadWord_congr (agree_storeWord (.inr (by omega)))

theorem blockAddress_setAddress (fits : value < wordLimit) :
    blockAddress (setAddress memory block value) block = value := by
  unfold blockAddress setAddress
  exact loadWord_storeWord fits

theorem blockUsed_setNext : blockUsed (setNext memory block value) block = blockUsed memory block := by
  unfold blockUsed setNext storeWord
  rw [store_outside (.inr (by rw [length_leBytes]; omega))]

theorem blockUsed_setLength : blockUsed (setLength memory block value) block = blockUsed memory block := by
  unfold blockUsed setLength storeWord
  rw [store_outside (.inr (by rw [length_leBytes]; omega))]

theorem blockUsed_setUsed : blockUsed (setUsed memory block used) block = used := by
  unfold blockUsed setUsed
  rw [store, if_pos (Nat.le_refl _), Nat.sub_self]
  cases used <;> rfl

end Fields

/-- The header in memory holds the fields of the block and the address of its successor. -/
structure Header (memory : FlatMemory) (block : Block) (next : Nat) : Prop where
  next_eq : blockNext memory block.address = next
  size_eq : blockLength memory block.address = block.size
  address_eq : blockAddress memory block.address = block.address
  used_eq : blockUsed memory block.address = block.used

section Header

variable {memory other : FlatMemory} {block : Block} {next : Nat} {address size : Nat}

theorem Header.congr (header : Header memory block next) (same : Agree other memory block.address blockSize) :
    Header other block next := by
  have word (offset : Nat) (small : offset + 8 ≤ blockSize) :
      other.loadWord (block.address + offset) = memory.loadWord (block.address + offset) :=
    loadWord_congr fun place low high => same place (by omega) (by omega)
  have byte : other (block.address + 24) = memory (block.address + 24) :=
    same _ (by omega) (by rw [blockSize]; omega)
  obtain ⟨nextEq, sizeEq, addressEq, usedEq⟩ := header
  unfold blockNext at nextEq
  unfold blockLength at sizeEq
  unfold blockAddress at addressEq
  unfold blockUsed at usedEq
  constructor
  · rw [blockNext, ← nextEq]
    exact word 0 (by decide)
  · rw [blockLength, ← sizeEq, word 8 (by decide)]
  · rw [blockAddress, word 16 (by decide), addressEq]
  · rw [blockUsed, ← usedEq, byte]

theorem Header.setUsed (header : Header memory block next) (used : Bool) :
    Header (setUsed memory block.address used) { block with used := used } next where
  next_eq := blockNext_setUsed.trans header.next_eq
  size_eq := blockLength_setUsed.trans header.size_eq
  address_eq := blockAddress_setUsed.trans header.address_eq
  used_eq := blockUsed_setUsed

theorem Header.setNext (header : Header memory block next) (value : Nat) (fits : value < wordLimit) :
    Header (setNext memory block.address value) block value where
  next_eq := blockNext_setNext fits
  size_eq := blockLength_setNext.trans header.size_eq
  address_eq := blockAddress_setNext.trans header.address_eq
  used_eq := blockUsed_setNext.trans header.used_eq

theorem Header.setLength (header : Header memory block next) (value : Nat) (fits : value < wordLimit) :
    Header (setLength memory block.address value) { block with size := value } next where
  next_eq := blockNext_setLength.trans header.next_eq
  size_eq := blockLength_setLength fits
  address_eq := blockAddress_setLength.trans header.address_eq
  used_eq := blockUsed_setLength.trans header.used_eq

/-- A written header is the header of a free block without a successor. -/
theorem writeBlock_header (memory : FlatMemory) (low : address < wordLimit) (fits : size < wordLimit) :
    Header (writeBlock memory address size) ⟨address, size, false⟩ 0 where
  next_eq := by
    rw [writeBlock, blockNext_setUsed, blockNext_setAddress, blockNext_setLength, blockNext_setNext (by decide)]
  size_eq := by
    rw [writeBlock, blockLength_setUsed, blockLength_setAddress, blockLength_setLength fits]
  address_eq := by
    rw [writeBlock, blockAddress_setUsed, blockAddress_setAddress low]
  used_eq := blockUsed_setUsed

theorem writeBlock_within : Within (writeBlock memory address size) memory address (address + blockSize) :=
  setUsed_within.trans (setAddress_within.trans (setLength_within.trans setNext_within))

end Header

/-- A list of blocks starts at its first block, or at its end if it is empty. -/
def firstOf : List Block → Nat → Nat
  | [], last => last
  | block :: _, _ => block.address

/-- Each block points to the next one, and the last block points to the end. -/
def Segment (memory : FlatMemory) : List Block → Nat → Prop
  | [], _ => True
  | block :: rest, last => Header memory block (firstOf rest last) ∧ Segment memory rest last

section Segment

variable {memory other : FlatMemory} {blocks before after old new : List Block} {last low high : Nat}

theorem firstOf_append : firstOf (before ++ after) last = firstOf before (firstOf after last) := by
  cases before with
  | nil => rfl
  | cons block rest => rfl

theorem segment_append :
    Segment memory (before ++ after) last ↔ Segment memory before (firstOf after last) ∧ Segment memory after last := by
  induction before with
  | nil => exact ⟨fun links => ⟨trivial, links⟩, fun links => links.2⟩
  | cons block rest ih => rw [List.cons_append, Segment, Segment, ih, firstOf_append, and_assoc]

theorem Segment.congr (segment : Segment memory blocks last)
    (same : ∀ block ∈ blocks, Agree other memory block.address blockSize) : Segment other blocks last := by
  induction blocks with
  | nil => trivial
  | cons block rest ih =>
    exact ⟨segment.1.congr (same block (.head _)), ih segment.2 fun later inside => same later (.tail _ inside)⟩

theorem Segment.header (segment : Segment memory blocks last) {block : Block} (inside : block ∈ blocks) :
    ∃ next, Header memory block next := by
  induction blocks with
  | nil => cases inside
  | cons first rest ih =>
    cases inside with
    | head => exact ⟨_, segment.1⟩
    | tail _ later => exact ih segment.2 later

/-- A change inside the range of some blocks leaves the blocks around them alone. -/
theorem Segment.replace (tiles : Tiles Block.address Block.size low (before ++ (old ++ after)) high)
    (room : ∀ block ∈ before ++ (old ++ after), blockSize ≤ block.size)
    (segment : Segment memory (before ++ (old ++ after)) last)
    (within : ∀ first final, Tiles Block.address Block.size first old final → Within other memory first final)
    (first : firstOf (new ++ after) last = firstOf (old ++ after) last)
    (changed : Segment other new (firstOf after last)) : Segment other (before ++ (new ++ after)) last := by
  obtain ⟨middle, left, right⟩ := tiles_append.mp tiles
  obtain ⟨final, center, right⟩ := tiles_append.mp right
  obtain ⟨beforeLinks, rest⟩ := segment_append.mp segment
  obtain ⟨_, afterLinks⟩ := segment_append.mp rest
  have kept := within middle final center
  apply segment_append.mpr
  constructor
  · rw [first]
    apply beforeLinks.congr
    intro block inside
    have bound := left.bounds inside
    have large := room block (List.mem_append_left _ inside)
    exact kept.agree (.inl (by omega))
  · apply segment_append.mpr ⟨changed, afterLinks.congr _⟩
    intro block inside
    have bound := right.bounds inside
    exact kept.agree (.inr bound.1)

end Segment

open Attempt

/-- The blocks cover the heap, have room for their headers and are aligned. -/
structure Arranged (blocks : List Block) : Prop where
  tiles : Tiles Block.address Block.size heapStart blocks (heapStart + heapSize)
  room : ∀ block ∈ blocks, blockSize ≤ block.size
  aligned : ∀ block ∈ blocks, blockAlign ∣ block.address

namespace Arranged

variable {blocks before after old new : List Block} {block : Block}

theorem bounds (arranged : Arranged blocks) (inside : block ∈ blocks) :
    heapStart ≤ block.address ∧ block.address + block.size ≤ heapStart + heapSize :=
  arranged.tiles.bounds inside

theorem positive (arranged : Arranged blocks) (inside : block ∈ blocks) : block.address ≠ 0 := by
  have bound := arranged.bounds inside
  have start : 0 < heapStart := by decide
  omega

theorem fits (arranged : Arranged blocks) (inside : block ∈ blocks) : block.address + block.size < wordLimit := by
  have bound := arranged.bounds inside
  have limit : heapStart + heapSize < wordLimit := by decide
  omega

/-- The list is shorter than the heap. -/
theorem length_le (arranged : Arranged blocks) : blocks.length ≤ heapSize := by
  have positive : ∀ block ∈ blocks, 0 < block.size := by
    intro block inside
    have room := arranged.room block inside
    rw [blockSize] at room
    omega
  have bound := arranged.tiles.length_le positive
  omega

theorem forall_replace {good : Block → Prop} (all : ∀ block ∈ before ++ (old ++ after), good block)
    (holds : ∀ block ∈ new, good block) : ∀ block ∈ before ++ (new ++ after), good block := by
  simp only [List.forall_mem_append] at all ⊢
  exact ⟨all.1, holds, all.2.2⟩

theorem replace (arranged : Arranged (before ++ (old ++ after)))
    (same : ∀ first last, Tiles Block.address Block.size first old last → Tiles Block.address Block.size first new last)
    (room : ∀ block ∈ new, blockSize ≤ block.size) (aligned : ∀ block ∈ new, blockAlign ∣ block.address) :
    Arranged (before ++ (new ++ after)) where
  tiles := arranged.tiles.replace same
  room := forall_replace arranged.room room
  aligned := forall_replace arranged.aligned aligned

/-- Two blocks with the same address are one block. -/
theorem eq_of_address (arranged : Arranged blocks) {first second : Block} (one : first ∈ blocks) (two : second ∈ blocks)
    (same : first.address = second.address) : first = second := by
  by_contra different
  have apart := arranged.tiles.apart one two different
  have firstRoom := arranged.room first one
  have secondRoom := arranged.room second two
  rw [blockSize] at firstRoom secondRoom
  omega

end Arranged

theorem firstOf_lt {blocks : List Block} (fits : ∀ block ∈ blocks, block.address + block.size < wordLimit) :
    firstOf blocks 0 < wordLimit := by
  cases blocks with
  | nil => decide
  | cons block rest => exact Nat.lt_of_le_of_lt (Nat.le_add_right _ _) (fits block (.head _))

/-- A free block serves a request that it matches or that leaves room for another header. -/
def Fits (size : Nat) (block : Block) : Prop :=
  block.used = false ∧ (block.size = size ∨ size + blockSize ≤ block.size)

instance (size : Nat) (block : Block) : Decidable (Fits size block) := inferInstanceAs (Decidable (_ ∧ _))

/-- The memory after a block has been taken for a request. -/
def taken (memory : FlatMemory) (block : Block) (size next : Nat) : FlatMemory :=
  if block.size = size then setUsed memory block.address true
  else
    let written := writeBlock memory (block.address + size) (block.size - size)
    let linked := setNext written (block.address + size) next
    setLength (setUsed (setNext linked block.address (block.address + size)) block.address true) block.address size

/-- The blocks that a taken block turns into. -/
def parts (block : Block) (size : Nat) : List Block :=
  if block.size = size then [{ block with used := true }]
  else [⟨block.address, size, true⟩, ⟨block.address + size, block.size - size, false⟩]

section Take

variable {memory : FlatMemory} {block : Block} {size next : Nat}

/-- A split writes two linked headers. -/
theorem taken_segment (header : Header memory block next) (fits : Fits size block) (large : blockSize ≤ size)
    (small : block.address + block.size < wordLimit) (nextSmall : next < wordLimit) :
    Segment (taken memory block size next) (parts block size) next := by
  unfold taken parts
  split
  · exact ⟨header.setUsed true, trivial⟩
  · next different =>
      have split : size + blockSize ≤ block.size := fits.2.resolve_left different
      have written : Header (writeBlock memory (block.address + size) (block.size - size))
          ⟨block.address + size, block.size - size, false⟩ 0 := writeBlock_header memory (by omega) (by omega)
      have linked := written.setNext next nextSmall
      have own : Header (setNext (writeBlock memory (block.address + size) (block.size - size)) (block.address + size) next)
          block next := by
        apply header.congr
        exact (setNext_within.trans writeBlock_within).agree (.inl (by omega))
      have changed := ((own.setNext (block.address + size) (by omega)).setUsed true).setLength size (by omega)
      refine ⟨changed, ?_, trivial⟩
      apply linked.congr
      apply (setLength_within.trans (setUsed_within.trans setNext_within)).agree
      exact .inr (Nat.add_le_add_left large _)

theorem taken_within (fits : Fits size block) (large : blockSize ≤ size) (room : blockSize ≤ block.size) :
    Within (taken memory block size next) memory block.address (block.address + block.size) := by
  unfold taken
  split
  · exact setUsed_within.mono (Nat.le_refl _) (Nat.add_le_add_left room _)
  · next different =>
      have split : size + blockSize ≤ block.size := fits.2.resolve_left different
      refine ((setLength_within.trans (setUsed_within.trans setNext_within)).mono ?_ ?_).trans
        ((setNext_within.trans writeBlock_within).mono ?_ ?_)
      all_goals omega

theorem parts_tiles (fits : Fits size block) :
    Tiles Block.address Block.size block.address (parts block size) (block.address + block.size) := by
  unfold parts
  split
  · exact ⟨rfl, rfl⟩
  · next different =>
      have split : size + blockSize ≤ block.size := fits.2.resolve_left different
      refine ⟨rfl, rfl, ?_⟩
      change block.address + size + (block.size - size) = _
      omega

theorem parts_room (fits : Fits size block) (large : blockSize ≤ size) (room : blockSize ≤ block.size) :
    ∀ part ∈ parts block size, blockSize ≤ part.size := by
  intro part member
  unfold parts at member
  split at member
  · rw [List.mem_singleton] at member
    rw [member]
    exact room
  · next different =>
      have split : size + blockSize ≤ block.size := fits.2.resolve_left different
      simp only [List.mem_cons, List.not_mem_nil, or_false] at member
      rcases member with rfl | rfl
      · exact large
      · change blockSize ≤ block.size - size
        omega

theorem parts_aligned (aligned : blockAlign ∣ block.address) (whole : blockAlign ∣ size) :
    ∀ part ∈ parts block size, blockAlign ∣ part.address := by
  intro part member
  unfold parts at member
  split at member
  · rw [List.mem_singleton] at member
    rw [member]
    exact aligned
  · simp only [List.mem_cons, List.not_mem_nil, or_false] at member
    rcases member with rfl | rfl
    · exact aligned
    · exact Nat.dvd_add aligned whole

/-- The first part of a taken block serves the request. -/
theorem parts_used (block : Block) (size : Nat) : ⟨block.address, size, true⟩ ∈ parts block size := by
  unfold parts
  split
  · next same =>
      rw [same]
      exact .head _
  · exact .head _

end Take

/-- The list that starts at the head consists of these blocks. -/
structure Listed (state : HeapState) (blocks : List Block) : Prop where
  heap : state.heap = ⟨heapStart, heapStart + heapSize, heapSize, firstOf blocks 0, 0⟩
  arranged : Arranged blocks
  links : Segment state.memory blocks 0

theorem Listed.replace {state : HeapState} {before old new after : List Block} {memory : FlatMemory}
    (listed : Listed state (before ++ (old ++ after)))
    (tiles : ∀ first last, Tiles Block.address Block.size first old last → Tiles Block.address Block.size first new last)
    (room : ∀ block ∈ new, blockSize ≤ block.size) (aligned : ∀ block ∈ new, blockAlign ∣ block.address)
    (within : ∀ first last, Tiles Block.address Block.size first old last → Within memory state.memory first last)
    (first : ∀ last, firstOf new last = firstOf old last) (changed : Segment memory new (firstOf after 0)) :
    Listed { state with memory := memory } (before ++ (new ++ after)) where
  heap := by
    rw [listed.heap, firstOf_append, firstOf_append, firstOf_append, firstOf_append, first]
  arranged := listed.arranged.replace tiles room aligned
  links := by
    apply listed.links.replace listed.arranged.tiles listed.arranged.room within _ changed
    rw [firstOf_append, firstOf_append, first]

section Alloc

variable {state : HeapState} {block : Block} {size next fuel : Nat} {blocks : List Block}

theorem alignUp_of_dvd {addr : Nat} (aligned : blockAlign ∣ addr) : alignUp addr blockAlign = addr := by
  obtain ⟨factor, rfl⟩ := aligned
  rw [alignUp, alignDown, blockAlign]
  omega

section Header

variable (header : Header state.memory block next)

include header

theorem splitBlock_value (fits : Fits size block) (large : blockSize ≤ size) (different : block.size ≠ size)
    (small : block.address + block.size < wordLimit) (nextSmall : next < wordLimit)
    (aligned : blockAlign ∣ block.address) (whole : blockAlign ∣ size) :
    splitBlock block.address size state =
      (.value (block.address + blockSize), { state with memory := taken state.memory block size next }) := by
  have split : size + blockSize ≤ block.size := fits.2.resolve_left different
  have segment := taken_segment header fits large small nextSmall
  have kept : blockNext (writeBlock state.memory (block.address + size) (block.size - size)) block.address = next :=
    (header.congr (writeBlock_within.agree (.inl (by omega)))).next_eq
  have addressEq : blockAddress (taken state.memory block size next) block.address = block.address := by
    rw [parts, if_neg different] at segment
    exact segment.1.address_eq
  have created : createBlock (block.address + size) (block.size - size) state =
      (.value (block.address + size),
        { state with memory := writeBlock state.memory (block.address + size) (block.size - size) }) := by
    rw [createBlock, if_pos ⟨alignUp_of_dvd (Nat.dvd_add aligned whole), by omega⟩]
  unfold splitBlock
  rw [get_bind, header.address_eq, header.size_eq, bind_value created, get_bind, put_bind, pure_apply]
  rw [taken, if_neg different] at addressEq
  rw [kept, addressEq, taken, if_neg different]

/-- A rest without room for a header is not split off. -/
theorem splitBlock_missing (tight : block.size < size + blockSize) :
    splitBlock block.address size state = (.missing, state) := by
  have refused : createBlock (block.address + size) (block.size - size) state = (.missing, state) := by
    rw [createBlock, if_neg (by rw [blockSize] at tight ⊢; omega)]
  unfold splitBlock
  rw [get_bind, header.address_eq, header.size_eq, bind_missing refused]

/-- A block that does not fit is skipped. -/
theorem allocateLoop_skip (positive : block.address ≠ 0) (unfit : ¬ Fits size block) :
    allocateLoop size (fuel + 1) block.address state = allocateLoop size fuel next state := by
  rw [allocateLoop, get_bind, if_neg positive, header.used_eq, header.size_eq, header.next_eq]
  cases free : block.used with
  | true => rfl
  | false =>
    have different : block.size ≠ size := fun same => unfit ⟨free, .inl same⟩
    have tight : block.size < size + blockSize := Nat.lt_of_not_le fun split => unfit ⟨free, .inr split⟩
    rw [if_neg fun equal => different equal.2]
    split
    · rw [bind_value (orNone_missing (splitBlock_missing header tight))]
    · rfl

/-- A block that fits is taken. -/
theorem allocateLoop_take (positive : block.address ≠ 0) (fits : Fits size block) (large : blockSize ≤ size)
    (small : block.address + block.size < wordLimit) (nextSmall : next < wordLimit)
    (aligned : blockAlign ∣ block.address) (whole : blockAlign ∣ size) :
    allocateLoop size (fuel + 1) block.address state =
      (.value (block.address + blockSize), { state with memory := taken state.memory block size next }) := by
  have free := fits.1
  rw [allocateLoop, get_bind, if_neg positive, header.used_eq, header.size_eq, header.address_eq, free]
  by_cases same : block.size = size
  · rw [if_pos ⟨rfl, same⟩, taken, if_pos same]
    rfl
  · have larger : block.size > size := by
      have split : size + blockSize ≤ block.size := fits.2.resolve_left same
      rw [blockSize] at split
      omega
    rw [if_neg fun equal => same equal.2, if_pos ⟨rfl, larger⟩,
      bind_value (orNone_value (splitBlock_value header fits large same small nextSmall aligned whole))]
    rfl

end Header

/-- The search takes the first block that fits, and it fails only if no block fits. -/
theorem allocateLoop_spec (links : Segment state.memory blocks 0) (large : blockSize ≤ size) (whole : blockAlign ∣ size)
    (sound : ∀ block ∈ blocks, block.address ≠ 0 ∧ block.address + block.size < wordLimit ∧ blockAlign ∣ block.address)
    (enough : blocks.length < fuel) :
    (allocateLoop size fuel (firstOf blocks 0) state = (.missing, state) ∧ ∀ block ∈ blocks, ¬ Fits size block) ∨
      ∃ before block after, blocks = before ++ block :: after ∧ (∀ other ∈ before, ¬ Fits size other) ∧ Fits size block ∧
        allocateLoop size fuel (firstOf blocks 0) state =
          (.value (block.address + blockSize),
            { state with memory := taken state.memory block size (firstOf after 0) }) := by
  induction blocks generalizing fuel with
  | nil =>
    obtain ⟨fuel, rfl⟩ : ∃ rest, fuel = rest + 1 := ⟨fuel - 1, by rw [List.length_nil] at enough; omega⟩
    exact .inl ⟨rfl, nofun⟩
  | cons block rest ih =>
    obtain ⟨fuel, rfl⟩ : ∃ less, fuel = less + 1 := ⟨fuel - 1, by rw [List.length_cons] at enough; omega⟩
    obtain ⟨header, links⟩ := links
    obtain ⟨positive, small, aligned⟩ := sound block (.head _)
    have restSmall : firstOf rest 0 < wordLimit :=
      firstOf_lt fun other inside => (sound other (.tail _ inside)).2.1
    by_cases fits : Fits size block
    · exact .inr ⟨[], block, rest, rfl, fun _ absurd_ => absurd absurd_ List.not_mem_nil, fits,
        allocateLoop_take header positive fits large small restSmall aligned whole⟩
    · have shorter : rest.length < fuel := by
        rw [List.length_cons] at enough
        omega
      rw [firstOf, allocateLoop_skip header positive fits]
      rcases ih links (fun other inside => sound other (.tail _ inside)) shorter with ⟨missing, none⟩ | found
      · refine .inl ⟨missing, fun other inside => ?_⟩
        cases inside with
        | head => exact fits
        | tail _ later => exact none other later
      · obtain ⟨before, taken, after, rfl, earlier, good, returned⟩ := found
        exact .inr ⟨block :: before, taken, after, rfl, List.forall_mem_cons.mpr ⟨fits, earlier⟩, good, returned⟩

/-- A request covers the layout and a header. -/
theorem Layout.size_le (layout : Layout) : layout.size + blockSize ≤ layout.paddedRequest := by
  rw [paddedRequest, padToAlign]
  have positive : 0 < max layout.align blockAlign := Nat.lt_of_lt_of_le (by decide) (Nat.le_max_right _ _)
  generalize max layout.align blockAlign = align at positive
  have division := Nat.div_add_mod (layout.size + (align - 1)) align
  have remainder := Nat.mod_lt (layout.size + (align - 1)) positive
  rw [Nat.mul_comm] at division
  omega

theorem Layout.blockSize_le (layout : Layout) : blockSize ≤ layout.paddedRequest :=
  Nat.le_trans (Nat.le_add_left _ _) layout.size_le

theorem Layout.dvd_align (layout : Layout) : blockAlign ∣ max layout.align blockAlign := by
  obtain ⟨exponent, power⟩ := layout.power
  by_cases large : 3 ≤ exponent
  · have divides : 2 ^ 3 ∣ 2 ^ exponent := Nat.pow_dvd_pow 2 large
    rw [Nat.max_eq_left (by rw [power]; exact Nat.le_of_dvd (Nat.two_pow_pos exponent) divides), power]
    exact divides
  · have small : 2 ^ exponent ≤ 2 ^ 3 := Nat.pow_le_pow_right (by decide) (by omega)
    have largest : max layout.align blockAlign = blockAlign := Nat.max_eq_right (by rw [power]; exact small)
    exact ⟨1, by rw [largest, Nat.mul_one]⟩

theorem Layout.dvd_request (layout : Layout) : blockAlign ∣ layout.paddedRequest :=
  Nat.dvd_add (Nat.dvd_trans layout.dvd_align (Nat.dvd_mul_left _ _)) (by decide)

/-- An allocation takes the first block that fits, returns the null pointer only if none fits, and panics only on an
oversized layout. -/
theorem alloc_spec (listed : Listed state blocks) (layout : Layout) :
    (alloc layout state = (.hang, state) ∧ ¬ Rounds layout.size (max layout.align blockAlign)) ∨
      (alloc layout state = (.value 0, state) ∧ ∀ block ∈ blocks, ¬ Fits layout.paddedRequest block) ∨
      ∃ before block after, blocks = before ++ block :: after ∧ (∀ other ∈ before, ¬ Fits layout.paddedRequest other) ∧
        Fits layout.paddedRequest block ∧ alloc layout state = (.value (block.address + blockSize),
          { state with memory := taken state.memory block layout.paddedRequest (firstOf after 0) }) := by
  by_cases rounds : Rounds layout.size (max layout.align blockAlign)
  · have sized : blockAlignSize layout state = (.value layout.paddedRequest, state) := by
      rw [blockAlignSize, if_pos rounds, pure_apply]
    have search := allocateLoop_spec listed.links layout.blockSize_le layout.dvd_request (fun block inside =>
      ⟨listed.arranged.positive inside, listed.arranged.fits inside, listed.arranged.aligned block inside⟩)
      (Nat.lt_succ_of_le listed.arranged.length_le)
    have same : allocateInternal layout.paddedRequest state =
        allocateLoop layout.paddedRequest (heapSize + 1) (firstOf blocks 0) state := by
      rw [allocateInternal, get_bind, listed.heap]
    rw [← same] at search
    rw [alloc, bind_value sized]
    rcases search with ⟨missing, none⟩ | ⟨before, block, after, split, earlier, fits, returned⟩
    · rw [bind_value (orNone_missing missing)]
      exact .inr (.inl ⟨rfl, none⟩)
    · rw [bind_value (orNone_value returned)]
      exact .inr (.inr ⟨before, block, after, split, earlier, fits, rfl⟩)
  · refine .inl ⟨?_, rounds⟩
    have panics : blockAlignSize layout state = (.hang, state) := by rw [blockAlignSize, if_neg rounds, halt_apply]
    rw [alloc, bind_hang panics]

/-- A taken block is replaced by its parts. -/
theorem Listed.take {before after : List Block} (listed : Listed state (before ++ ([block] ++ after)))
    (fits : Fits size block) (large : blockSize ≤ size) (whole : blockAlign ∣ size) :
    Listed { state with memory := taken state.memory block size (firstOf after 0) } (before ++ (parts block size ++ after)) := by
  have inside : block ∈ before ++ ([block] ++ after) := List.mem_append_right _ (.head _)
  have aligned := listed.arranged.aligned block inside
  have room := listed.arranged.room block inside
  have header := (segment_append.mp (segment_append.mp listed.links).2).1.1
  have nextSmall : firstOf after 0 < wordLimit :=
    firstOf_lt fun other member => listed.arranged.fits (List.mem_append_right _ (.tail _ member))
  apply listed.replace _ (parts_room fits large room) (parts_aligned aligned whole)
  · intro first last tiles
    obtain ⟨rfl, rfl⟩ := tiles
    exact taken_within fits large room
  · intro last
    unfold parts
    split <;> rfl
  · exact taken_segment header fits large (listed.arranged.fits inside) nextSmall
  · intro first last tiles
    obtain ⟨rfl, rfl⟩ := tiles
    exact parts_tiles fits

end Alloc

section Dealloc

variable {state : HeapState} {block : Block} {before after : List Block} {next : Block}

theorem Listed.unused (listed : Listed state (before ++ ([block] ++ after))) :
    Listed { state with memory := setUsed state.memory block.address false }
      (before ++ ([{ block with used := false }] ++ after)) := by
  have inside : block ∈ before ++ ([block] ++ after) := List.mem_append_right _ (.head _)
  have room := listed.arranged.room block inside
  have header := (segment_append.mp (segment_append.mp listed.links).2).1.1
  apply listed.replace
  · exact fun first last tiles => tiles
  · intro part member
    rw [List.mem_singleton.mp member]
    exact room
  · intro part member
    rw [List.mem_singleton.mp member]
    exact listed.arranged.aligned block inside
  · intro first last tiles
    obtain ⟨rfl, rfl⟩ := tiles
    exact setUsed_within.mono (Nat.le_refl _) (Nat.add_le_add_left room _)
  · exact fun last => rfl
  · exact ⟨header.setUsed false, trivial⟩

theorem Listed.join (block : Block) (listed : Listed state (before ++ ([block, next] ++ after))) :
    Listed ⟨setNext (setLength state.memory block.address (block.size + next.size)) block.address (firstOf after 0), state.heap⟩
      (before ++ ([⟨block.address, block.size + next.size, block.used⟩] ++ after)) := by
  have inside : block ∈ before ++ ([block, next] ++ after) := List.mem_append_right _ (.head _)
  have second : next ∈ before ++ ([block, next] ++ after) := List.mem_append_right _ (.tail _ (.head _))
  have room := listed.arranged.room block inside
  have links := (segment_append.mp (segment_append.mp listed.links).2).1
  obtain ⟨_, _, _, same, _⟩ := tiles_append.mp listed.arranged.tiles
  have small := listed.arranged.fits second
  have nextSmall : firstOf after 0 < wordLimit :=
    firstOf_lt fun other member => listed.arranged.fits (List.mem_append_right _ (.tail _ (.tail _ member)))
  apply listed.replace
  · intro first last tiles
    obtain ⟨rfl, _, rfl⟩ := tiles
    exact ⟨rfl, (Nat.add_assoc _ _ _).symm⟩
  · intro part member
    rw [List.mem_singleton.mp member]
    exact Nat.le_trans room (Nat.le_add_right _ _)
  · intro part member
    rw [List.mem_singleton.mp member]
    exact listed.arranged.aligned block inside
  · intro first last tiles
    obtain ⟨rfl, _, rfl⟩ := tiles
    exact (setNext_within.trans setLength_within).mono (Nat.le_refl _) (by omega)
  · exact fun last => rfl
  · refine ⟨?_, trivial⟩
    exact (links.1.setLength (block.size + next.size) (by omega)).setNext (firstOf after 0) nextSmall

/-- A block without a free successor is not merged. -/
theorem mergeRight_keeps (block : Block) (listed : Listed state (before ++ ([block] ++ after)))
    (kept : ∀ next rest, after = next :: rest → next.used = true) :
    mergeRight block.address state = (.value (), state) := by
  obtain ⟨header, links⟩ := (segment_append.mp listed.links).2
  rw [mergeRight, get_bind, header.next_eq]
  cases after with
  | nil => rfl
  | cons next rest =>
    have positive : next.address ≠ 0 := listed.arranged.positive (List.mem_append_right _ (.tail _ (.head _)))
    change (if next.address = 0 then _ else if blockUsed state.memory next.address then _ else _ : HeapM Unit) state = _
    rw [if_neg positive, if_pos (links.1.used_eq.trans (kept next rest rfl))]
    rfl

/-- A free successor is swallowed. -/
theorem mergeRight_joins (block : Block) (listed : Listed state (before ++ ([block, next] ++ after)))
    (free : next.used = false) :
    mergeRight block.address state = (.value (),
      ⟨setNext (setLength state.memory block.address (block.size + next.size)) block.address (firstOf after 0), state.heap⟩) := by
  have segment := (segment_append.mp listed.links).2
  have header : Header state.memory block next.address := segment.1
  have nextHeader : Header state.memory next (firstOf after 0) := segment.2.1
  have positive : next.address ≠ 0 := listed.arranged.positive (List.mem_append_right _ (.tail _ (.head _)))
  have room := listed.arranged.room block (List.mem_append_right _ (.head _))
  have apart (other : Block) (member : other ∈ next :: after) : block.address + blockSize ≤ other.address := by
    obtain ⟨middle, _, tiles⟩ := tiles_append.mp listed.arranged.tiles
    have bound := tiles.2.bounds member
    have same : block.address = middle := tiles.1
    omega
  have keeps {other : Block} {target : Nat} (member : other ∈ next :: after) (found : Header state.memory other target) :
      Header (setLength state.memory block.address (block.size + next.size)) other target :=
    found.congr (setLength_within.agree (.inr (apart other member)))
  have nextKept := keeps (.head _) nextHeader
  rw [mergeRight, get_bind, header.next_eq, header.size_eq, if_neg positive,
    if_neg (by rw [nextHeader.used_eq, free]; decide), nextHeader.size_eq, nextKept.next_eq]
  cases after with
  | nil => rfl
  | cons third rest =>
    have thirdKept := keeps (.tail _ (.head _)) segment.2.2.1
    have nonzero : third.address ≠ 0 := listed.arranged.positive (List.mem_append_right _ (.tail _ (.tail _ (.head _))))
    rw [firstOf, if_neg nonzero, thirdKept.address_eq, put_apply]

/-- A block that is given back is free, and every other used block stays. -/
theorem dealloc_spec (listed : Listed state (before ++ (block :: after))) :
    ∃ final blocks, dealloc (block.address + blockSize) state = (.value (), final) ∧ Listed final blocks ∧
      ∀ other ∈ before ++ (block :: after), other.used = true → other ≠ block → other ∈ blocks := by
  have free : Listed ⟨setUsed state.memory block.address false, state.heap⟩
      (before ++ ([{ block with used := false }] ++ after)) := listed.unused
  have head : state.heap.headAddress = 0 := by rw [listed.heap]
  have merges {final : HeapState}
      (merged : mergeRight block.address ⟨setUsed state.memory block.address false, state.heap⟩ = (.value (), final))
      (sameHeap : final.heap = state.heap) :
      dealloc (block.address + blockSize) state = (.value (), final) := by
    rw [dealloc, deallocInternal, if_neg (by omega), Nat.add_sub_cancel, get_bind, put_bind,
      bind_value merged, get_bind, if_pos (by rw [sameHeap, head]; exact Nat.zero_le _), pure_apply]
  by_cases joins : ∃ next rest, after = next :: rest ∧ next.used = false
  · obtain ⟨next, rest, rfl, unused⟩ := joins
    refine ⟨_, _, merges (mergeRight_joins { block with used := false } free unused) rfl, free.join _, ?_⟩
    intro other inside used different
    simp only [List.mem_append, List.mem_cons, List.not_mem_nil, or_false] at inside ⊢
    rcases inside with left | same | second | right
    · exact .inl left
    · exact absurd same different
    · rw [second, unused] at used
      contradiction
    · exact .inr (.inr right)
  · have kept : ∀ next rest, after = next :: rest → next.used = true := by
      intro next rest same
      by_contra unused
      exact joins ⟨next, rest, same, Bool.eq_false_iff.mpr unused⟩
    refine ⟨_, _, merges (mergeRight_keeps { block with used := false } free kept) rfl, free, ?_⟩
    intro other inside used different
    simp only [List.mem_append, List.mem_cons, List.not_mem_nil, or_false] at inside ⊢
    rcases inside with left | same | right
    · exact .inl left
    · exact absurd same different
    · exact .inr (.inr right)

end Dealloc

open Attempt

/-- An allocation that has not been given back. -/
structure Allocation where
  ptr : Nat
  size : Nat

/-- The session records the heap and the live allocations. -/
structure Session where
  state : HeapState
  live : List Allocation

inductive Request where
  | alloc (layout : Layout)
  | dealloc (ptr : Nat)
  | write (place : Nat) (bytes : List UInt8)

/-- A client gives back live pointers and writes inside the payload of a live block. -/
def Request.Allowed : Request → Session → Prop
  | .alloc _, _ => True
  | .dealloc ptr, session => ∃ allocation ∈ session.live, allocation.ptr = ptr
  | .write place bytes, session => ∃ allocation ∈ session.live, allocation.ptr ≤ place ∧
      place + bytes.length ≤ allocation.ptr - blockSize + blockLength session.state.memory (allocation.ptr - blockSize)

/-- The heap serves one request. -/
def Session.step : Request → Session → Session
  | .alloc layout, session =>
    match Heap.alloc layout session.state with
    | (.value ptr, after) => if ptr = 0 then ⟨after, session.live⟩ else ⟨after, ⟨ptr, layout.size⟩ :: session.live⟩
    | (_, after) => ⟨after, session.live⟩
  | .dealloc ptr, session =>
    ⟨(Heap.dealloc ptr session.state).2, session.live.filter fun allocation => allocation.ptr ≠ ptr⟩
  | .write place bytes, session => ⟨⟨session.state.memory.store place bytes, session.state.heap⟩, session.live⟩

/-- The heap is initialised over any memory. -/
def Session.start (memory : FlatMemory) : Session := ⟨(initHeap ⟨memory, LinkedListHeap.empty⟩).2, []⟩

/-- A live allocation is the payload of a used block. -/
def Allocation.Inside (allocation : Allocation) (block : Block) : Prop :=
  block.used = true ∧ allocation.ptr = block.address + blockSize ∧ allocation.size + blockSize ≤ block.size

/-- The blocks are in order and hold the live allocations. -/
structure Holds (session : Session) (blocks : List Block) : Prop where
  listed : Listed session.state blocks
  inside : ∀ allocation ∈ session.live, ∃ block ∈ blocks, allocation.Inside block
  distinct : session.live.Pairwise fun first second => first.ptr ≠ second.ptr

namespace Holds

variable {session : Session} {blocks : List Block}

theorem start (memory : FlatMemory) : Holds (Session.start memory) [⟨heapStart, heapSize, false⟩] := by
  have created : createBlock heapStart (heapStart + heapSize - heapStart) ⟨memory, .empty⟩ =
      (.value heapStart, ⟨writeBlock memory heapStart heapSize, .empty⟩) := by
    rw [createBlock, if_pos (by decide), Nat.add_sub_cancel_left]
  have ran : initHeap ⟨memory, .empty⟩ = (.value (), ⟨writeBlock memory heapStart heapSize,
      ⟨heapStart, heapStart + heapSize, heapStart + heapSize - heapStart, heapStart, 0⟩⟩) := by
    have unwrapped : unwrap (createBlock heapStart (heapStart + heapSize - heapStart)) ⟨memory, .empty⟩ =
        (.value heapStart, ⟨writeBlock memory heapStart heapSize, .empty⟩) := by
      rw [unwrap, created]
    rw [initHeap, init, bind_value unwrapped]
    rfl
  have header : Header (writeBlock memory heapStart heapSize) ⟨heapStart, heapSize, false⟩ 0 :=
    writeBlock_header memory (by decide) (by decide)
  refine ⟨?_, fun _ absurd_ => absurd absurd_ List.not_mem_nil, .nil⟩
  rw [Session.start, ran, Nat.add_sub_cancel_left]
  refine ⟨rfl, ⟨⟨rfl, rfl⟩, ?_, ?_⟩, header, trivial⟩
  · intro block member
    rw [List.mem_singleton.mp member]
    decide
  · intro block member
    rw [List.mem_singleton.mp member]
    decide

/-- A free block is not the block of a live allocation, and the used blocks stay. -/
theorem alloc (holds : Holds session blocks) (layout : Layout) :
    ∃ after, Holds (session.step (.alloc layout)) after := by
  rcases alloc_spec holds.listed layout with ⟨panics, _⟩ | ⟨null, _⟩ | ⟨before, block, rest, rfl, _, fits, returned⟩
  · rw [Session.step, panics]
    exact ⟨blocks, holds⟩
  · rw [Session.step, null]
    exact ⟨blocks, holds⟩
  · have member : block ∈ before ++ block :: rest := List.mem_append_right _ (.head _)
    rw [Session.step, returned]
    change ∃ after, Holds (if block.address + blockSize = 0 then _ else _) after
    rw [if_neg (by rw [blockSize]; omega)]
    refine ⟨_, holds.listed.take fits layout.blockSize_le layout.dvd_request, ?_, ?_⟩
    · intro allocation live
      cases live with
      | head =>
        refine ⟨⟨block.address, layout.paddedRequest, true⟩, ?_, rfl, rfl, layout.size_le⟩
        exact List.mem_append_right _ (List.mem_append_left _ (parts_used block _))
      | tail _ older =>
        obtain ⟨owner, found, used, same, room⟩ := holds.inside allocation older
        refine ⟨owner, ?_, used, same, room⟩
        simp only [List.mem_append, List.mem_cons] at found ⊢
        rcases found with left | rfl | right
        · exact .inl left
        · rw [fits.1] at used
          contradiction
        · exact .inr (.inr right)
    · refine .cons ?_ holds.distinct
      intro older live equal
      obtain ⟨owner, found, used, same, _⟩ := holds.inside older live
      have one := holds.listed.arranged.eq_of_address found member (by rw [same] at equal; simpa using equal.symm)
      rw [one, fits.1] at used
      contradiction

/-- The block of a live pointer is given back, and the blocks of the other live pointers stay. -/
theorem dealloc (holds : Holds session blocks) {ptr : Nat} (allowed : (Request.dealloc ptr).Allowed session) :
    ∃ after, Holds (session.step (.dealloc ptr)) after := by
  obtain ⟨allocation, live, rfl⟩ := allowed
  obtain ⟨block, member, used, same, _⟩ := holds.inside allocation live
  obtain ⟨before, rest, rfl⟩ := List.append_of_mem member
  obtain ⟨final, after, returned, listed, kept⟩ := dealloc_spec holds.listed
  rw [Session.step, same, returned]
  refine ⟨after, listed, ?_, holds.distinct.filter _⟩
  intro other remains
  obtain ⟨older, different⟩ := List.mem_filter.mp remains
  obtain ⟨owner, found, ownerUsed, ownerSame, room⟩ := holds.inside other older
  refine ⟨owner, kept owner found ownerUsed ?_, ownerUsed, ownerSame, room⟩
  rintro rfl
  simp [ownerSame] at different

/-- A payload lies apart from every header. -/
theorem payload_apart (holds : Holds session blocks) {allocation : Allocation} {owner header : Block}
    (found : owner ∈ blocks) (inside : allocation.Inside owner) (listed : header ∈ blocks) :
    header.address + blockSize ≤ allocation.ptr ∨ owner.address + owner.size ≤ header.address := by
  rw [inside.2.1]
  by_cases same : header = owner
  · rw [same]
    exact .inl (Nat.le_refl _)
  · have apart := holds.listed.arranged.tiles.apart listed found same
    have room := holds.listed.arranged.room header listed
    omega

/-- A write inside a payload leaves every header alone. -/
theorem write (holds : Holds session blocks) {place : Nat} {bytes : List UInt8}
    (allowed : (Request.write place bytes).Allowed session) : Holds (session.step (.write place bytes)) blocks := by
  obtain ⟨allocation, live, low, high⟩ := allowed
  obtain ⟨owner, member, inside⟩ := holds.inside allocation live
  obtain ⟨_, header⟩ := holds.listed.links.header member
  rw [inside.2.1, Nat.add_sub_cancel, header.size_eq] at high
  refine ⟨⟨holds.listed.heap, holds.listed.arranged, ?_⟩, holds.inside, holds.distinct⟩
  apply holds.listed.links.congr
  intro block listed
  have apart := holds.payload_apart member inside listed
  exact agree_store (by omega)

theorem step (request : Request) (holds : Holds session blocks) (allowed : request.Allowed session) :
    ∃ after, Holds (session.step request) after := by
  cases request with
  | alloc layout => exact holds.alloc layout
  | dealloc ptr => exact holds.dealloc allowed
  | write place bytes => exact ⟨blocks, holds.write allowed⟩

end Holds

/-- Every reached session has a list of blocks. -/
theorem Holds.of_reached (memory : FlatMemory) {session : Session}
    (reached : Reached (fun request session => session.step request) Request.Allowed (Session.start memory) session) :
    ∃ blocks, Holds session blocks := by
  apply reached.invariant ⟨_, Holds.start memory⟩
  intro request between kept allowed
  obtain ⟨_, holds⟩ := kept
  exact holds.step request allowed

/-- Every run keeps the blocks in order and the live payloads apart, and an allocation fails only without a fitting block. -/
theorem heap_sound (memory : FlatMemory) {session : Session}
    (reached : Reached (fun request session => session.step request) Request.Allowed (Session.start memory) session) :
    ∃ blocks : List Block,
      session.state.heap.headNext = firstOf blocks 0 ∧ Segment session.state.memory blocks 0 ∧
      Tiles Block.address Block.size session.state.heap.heapStart blocks session.state.heap.heapEnd ∧
      (∀ block ∈ blocks, blockSize ≤ block.size ∧ blockAlign ∣ block.address) ∧
      (∀ allocation ∈ session.live, ∃ block ∈ blocks, allocation.Inside block) ∧
      (session.live.Pairwise fun first second => ∀ one ∈ blocks, ∀ two ∈ blocks, first.Inside one → second.Inside two →
        one ≠ two ∧ (one.address + one.size ≤ second.ptr ∨ two.address + two.size ≤ first.ptr)) ∧
      (∀ allocation ∈ session.live, ∀ owner ∈ blocks, ∀ header ∈ blocks, allocation.Inside owner →
        header.address + blockSize ≤ allocation.ptr ∨ owner.address + owner.size ≤ header.address) ∧
      (∀ layout : Layout, Rounds layout.size (max layout.align blockAlign) →
        ∃ ptr after, alloc layout session.state = (.value ptr, after)) ∧
      ∀ layout after, alloc layout session.state = (.value 0, after) →
        ∀ block ∈ blocks, block.used = false →
          block.size ≠ layout.paddedRequest ∧ block.size < layout.paddedRequest + blockSize := by
  obtain ⟨blocks, holds⟩ := Holds.of_reached memory reached
  have arranged := holds.listed.arranged
  refine ⟨blocks, by rw [holds.listed.heap], holds.listed.links, by rw [holds.listed.heap]; exact arranged.tiles,
    fun block member => ⟨arranged.room block member, arranged.aligned block member⟩, holds.inside, ?_, ?_, ?_, ?_⟩
  · apply holds.distinct.imp
    intro first second different one oneFound two twoFound oneInside twoInside
    have apart : one ≠ two := by
      rintro rfl
      exact different (oneInside.2.1.trans twoInside.2.1.symm)
    have ranges := arranged.tiles.apart oneFound twoFound apart
    have oneStart := oneInside.2.1
    have twoStart := twoInside.2.1
    exact ⟨apart, by omega⟩
  · exact fun allocation _ owner found header listed inside => holds.payload_apart found inside listed
  · intro layout rounds
    rcases alloc_spec holds.listed layout with ⟨_, oversized⟩ | ⟨null, _⟩ | ⟨_, _, _, _, _, _, returned⟩
    · exact absurd rounds oversized
    · exact ⟨_, _, null⟩
    · exact ⟨_, _, returned⟩
  · intro layout after null block member free
    rcases alloc_spec holds.listed layout with ⟨panics, _⟩ | ⟨_, none⟩ | ⟨before, taken, rest, _, _, _, returned⟩
    · rw [panics] at null
      cases null
    · have unfit := none block member
      exact ⟨fun same => unfit ⟨free, .inl same⟩, Nat.lt_of_not_le fun room => unfit ⟨free, .inr room⟩⟩
    · rw [returned] at null
      have zero : taken.address + blockSize = 0 := (Outcome.value.inj (Prod.mk.inj null).1)
      rw [blockSize] at zero
      omega

/-- The first allocation takes the start of the heap. -/
theorem alloc_start (layout : Layout) (rounds : Rounds layout.size (max layout.align blockAlign))
    (fits : Fits layout.paddedRequest ⟨heapStart, heapSize, false⟩) :
    ∃ after, alloc layout (Session.start fun _ => 0).state = (.value (heapStart + blockSize), after) := by
  rcases alloc_spec (Holds.start fun _ => 0).listed layout with ⟨_, oversized⟩ | ⟨_, none⟩ | found
  · exact absurd rounds oversized
  · exact absurd fits (none _ (.head _))
  · obtain ⟨before, block, after, split, _, _, returned⟩ := found
    have member : block ∈ [⟨heapStart, heapSize, false⟩] := by
      rw [split]
      exact List.mem_append_right _ (.head _)
    rw [List.mem_singleton.mp member] at returned
    exact ⟨_, returned⟩

def byteLayout : Layout := ⟨1, 1, ⟨0, rfl⟩, by decide⟩

/-- The first client takes the start of the heap. -/
theorem heap_sound_byte :
    ∃ session, session.live = [⟨heapStart + blockSize, 1⟩] ∧
      Reached (fun request session => session.step request) Request.Allowed (Session.start fun _ => 0) session ∧
      ∃ blocks, Segment session.state.memory blocks 0 ∧
        Tiles Block.address Block.size session.state.heap.heapStart blocks session.state.heap.heapEnd := by
  have reached : Reached (fun request session => session.step request) Request.Allowed (Session.start fun _ => 0)
      ((Session.start fun _ => 0).step (.alloc byteLayout)) :=
    Reached.step .start (Request.alloc byteLayout) trivial
  obtain ⟨blocks, _, links, tiles, _⟩ := heap_sound (fun _ => 0) reached
  obtain ⟨after, returned⟩ := alloc_start byteLayout (by decide) (by decide)
  refine ⟨_, ?_, reached, blocks, links, tiles⟩
  rw [Session.step, returned]
  rfl

theorem Layout.align_dvd_blockAlign {layout : Layout} (small : layout.align ≤ blockAlign) : layout.align ∣ blockAlign := by
  obtain ⟨exponent, power⟩ := layout.power
  rw [power] at small ⊢
  have bound : exponent ≤ 3 := (Nat.pow_le_pow_iff_right (by decide)).mp small
  exact Nat.pow_dvd_pow 2 bound

/-- A pointer has the alignment of its layout exactly when the alignment is at most eight or the first block that fits
begins a header before a multiple of it. -/
theorem alloc_aligned_iff (memory : FlatMemory) {session : Session}
    (reached : Reached (fun request session => session.step request) Request.Allowed (Session.start memory) session) :
    ∃ blocks, session.state.heap.headNext = firstOf blocks 0 ∧ Segment session.state.memory blocks 0 ∧
      ∀ layout ptr after, alloc layout session.state = (.value ptr, after) → ptr ≠ 0 →
        (layout.align ∣ ptr ↔ layout.align ≤ blockAlign ∨
          ∃ block, blocks.find? (fun block => decide (Fits layout.paddedRequest block)) = some block ∧
            layout.align ∣ block.address + blockSize) := by
  obtain ⟨blocks, holds⟩ := Holds.of_reached memory reached
  refine ⟨blocks, by rw [holds.listed.heap], holds.listed.links, ?_⟩
  intro layout ptr after returned nonNull
  rcases alloc_spec holds.listed layout with ⟨panics, _⟩ | ⟨null, _⟩ | ⟨before, block, rest, split, earlier, fits, value⟩
  · rw [panics] at returned
    cases returned
  · rw [null] at returned
    cases returned
    exact absurd rfl nonNull
  · rw [value] at returned
    cases returned
    have found : blocks.find? (fun block => decide (Fits layout.paddedRequest block)) = some block := by
      rw [List.find?_eq_some_iff_append]
      refine ⟨decide_eq_true fits, before, rest, split, fun other member => ?_⟩
      rw [decide_eq_false (earlier other member)]
      rfl
    constructor
    · exact fun aligned => .inr ⟨block, found, aligned⟩
    · rintro (small | ⟨other, same, aligned⟩)
      · have inside : block ∈ blocks := by
          rw [split]
          exact List.mem_append_right _ List.mem_cons_self
        have header : blockAlign ∣ block.address + blockSize :=
          Nat.dvd_add (holds.listed.arranged.aligned block inside) (by decide)
        exact Nat.dvd_trans (Layout.align_dvd_blockAlign small) header
      · rw [found] at same
        rw [Option.some.inj same]
        exact aligned

def cacheLineLayout : Layout := ⟨1, 64, ⟨6, rfl⟩, by decide⟩

/-- The first pointer for a layout of one byte is aligned. -/
theorem alloc_aligned_byte :
    ∃ after, alloc byteLayout (Session.start fun _ => 0).state = (.value (heapStart + blockSize), after) ∧
      byteLayout.align ∣ heapStart + blockSize := by
  obtain ⟨after, returned⟩ := alloc_start byteLayout (by decide) (by decide)
  obtain ⟨_, _, _, aligned⟩ := alloc_aligned_iff (fun _ => 0) .start
  exact ⟨after, returned, (aligned byteLayout _ after returned (by decide)).mpr (.inl (by decide))⟩

/-- The first pointer for a layout with the alignment of a cache line is not aligned. -/
theorem alloc_misaligned_cacheLine :
    ∃ after, alloc cacheLineLayout (Session.start fun _ => 0).state = (.value (heapStart + blockSize), after) ∧
      ¬ cacheLineLayout.align ∣ heapStart + blockSize := by
  obtain ⟨after, returned⟩ := alloc_start cacheLineLayout (by decide) (by decide)
  exact ⟨after, returned, by decide⟩

end BubbleOs.Heap
