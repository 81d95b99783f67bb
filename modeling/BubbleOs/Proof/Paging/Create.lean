import BubbleOs.Proof.Paging.Forest

namespace BubbleOs.Paging

open Attempt MemoryController PageTableSlotAllocator

namespace Page

theorem indexAt_val (page : Page) (shift : Nat) : (page.indexAt shift).val = page.pageNumber / 2 ^ shift % 512 := by
  change (page.pageNumber >>> shift) &&& (2 ^ 9 - 1) = _
  rw [Nat.and_two_pow_sub_one_eq_mod, Nat.shiftRight_eq_div_pow]

/-- A page below the limit has its own path. -/
theorem eq_of_path {page other : Page} (small : page.pageNumber < 2 ^ 36) (bound : other.pageNumber < 2 ^ 36)
    (same : page.path = other.path) : page = other := by
  simp only [path, List.cons.injEq, and_true, p4Index, p3Index, p2Index, p1Index, Fin.ext_iff, indexAt_val] at same
  obtain ⟨first, second, third, fourth⟩ := same
  have equal : page.pageNumber = other.pageNumber := by omega
  exact congrArg Page.mk equal

end Page

section Access

variable {memory : Memory} {roots : Set Nat} {root addr frame : Nat} {index : TableIndex}

theorem writableLinks_some (link : writableLinks memory root index = some frame) :
    isWritable (memory root index) = true ∧ PageTableEntry.getFrame (memory root index) = some frame := by
  have present := writableLinks_weaker root index frame link
  rw [writableLinks] at link
  split at link
  · next writable => exact ⟨writable, present⟩
  · contradiction

theorem Forest.not_huge (forest : Forest memory roots) (inside : root ∈ roots) {path : List TableIndex} {table : Nat}
    (found : follow (links memory) root path = some table) (high : path.length ≤ 2)
    (link : PageTableEntry.getFrame (memory table index) = some frame) : isHuge (memory table index) = false := by
  rcases forest.upper root inside path high table found index with zero | ⟨_, small⟩
  · rw [zero, PageTableEntry.getFrame_zero] at link
    contradiction
  · exact small

/-- The processor takes a path of writable links. -/
theorem hardwareWalk_of_follow (forest : Forest memory roots) (inside : root ∈ roots) (regular : canonical addr = true)
    (reached : follow (writableLinks memory) root (Page.forAddress addr).path = some frame) :
    ∃ entry, hardwareWalk memory root addr = some ⟨entry, frame, true⟩ := by
  simp only [Page.path, follow, Option.bind_eq_some_iff, Option.some.injEq, exists_eq_right] at reached
  obtain ⟨pml3, link4, pml2, link3, pml1, link2, link1⟩ := reached
  obtain ⟨writable4, link4⟩ := writableLinks_some link4
  obtain ⟨writable3, link3⟩ := writableLinks_some link3
  obtain ⟨writable2, link2⟩ := writableLinks_some link2
  obtain ⟨writable1, link1⟩ := writableLinks_some link1
  have table3 : follow (links memory) root [(Page.forAddress addr).p4Index] = some pml3 := by
    rw [follow_cons, links, link4]
    rfl
  have table2 : follow (links memory) root [(Page.forAddress addr).p4Index, (Page.forAddress addr).p3Index] = some pml2 := by
    rw [follow_cons, links, link4, Option.bind_some, follow_cons, links, link3]
    rfl
  have small4 := forest.not_huge inside (follow_nil root) (Nat.zero_le 2) link4
  have small3 := forest.not_huge inside table3 (Nat.le_succ 1) link3
  have small2 := forest.not_huge inside table2 (Nat.le_refl 2) link2
  refine ⟨memory pml1 (Page.forAddress addr).p1Index, ?_⟩
  simp [hardwareWalk, regular, link4, link3, link2, link1, small4, small3, small2, writable4, writable3, writable2, writable1]

end Access

namespace MemoryController

variable {mc : MemoryController} {roots : Set Nat} {addr frame : Nat}

/-- A slot outside the window shows its frame to the processor for writing. -/
structure SlotAt (mc : MemoryController) (addr frame : Nat) : Prop where
  outside : mc.Outside addr
  regular : canonical addr = true
  reached : follow (writableLinks mc.memory) mc.cr3 (Page.forAddress addr).path = some frame

/-- The kernel reaches a table through the window or through its slot. -/
def Shows (mc : MemoryController) (addr frame : Nat) : Prop :=
  (addr = mc.tempMapper.tempAddr ∧ mc.tempMapper.frame = frame) ∨ mc.SlotAt addr frame

theorem Shows.frameFor (shows : mc.Shows addr frame) (forest : Forest mc.memory roots) (active : mc.cr3 ∈ roots) :
    mc.frameFor addr = some (frame, true) := by
  rcases shows with ⟨rfl, rfl⟩ | ⟨outside, regular, reached⟩
  · exact if_pos rfl
  · obtain ⟨entry, walked⟩ := hardwareWalk_of_follow forest active regular reached
    rw [MemoryController.frameFor, if_neg outside, walked, Option.map_some]

/-- A call changes the memory, the allocators of frames and slots, and the window. -/
structure SameMachine (mc after : MemoryController) : Prop where
  cr3 : after.cr3 = mc.cr3
  activeTable : after.activeTable = mc.activeTable
  kernelTable : after.kernelTable = mc.kernelTable
  stackAllocator : after.stackAllocator = mc.stackAllocator
  tempAddr : after.tempMapper.tempAddr = mc.tempMapper.tempAddr

namespace SameMachine

variable {between after : MemoryController}

theorem refl (mc : MemoryController) : SameMachine mc mc := ⟨rfl, rfl, rfl, rfl, rfl⟩

theorem trans (first : SameMachine mc between) (second : SameMachine between after) : SameMachine mc after :=
  ⟨second.cr3.trans first.cr3, second.activeTable.trans first.activeTable, second.kernelTable.trans first.kernelTable,
    second.stackAllocator.trans first.stackAllocator, second.tempAddr.trans first.tempAddr⟩

theorem outside (same : SameMachine mc after) (outside : mc.Outside addr) : after.Outside addr := by
  rw [Outside, same.tempAddr]
  exact outside

end SameMachine

end MemoryController

namespace PageTableSlotAllocator

/-- The next slot comes from the freed slots or from the end of the used slots. -/
def nextSlot (allocator : PageTableSlotAllocator) : Nat :=
  match allocator.freeSlots with
  | addr :: _ => addr
  | [] => pageTableRegionStart + allocator.lastPml1Slot * pageSize

def taken (allocator : PageTableSlotAllocator) : PageTableSlotAllocator :=
  match allocator.freeSlots with
  | _ :: rest => { allocator with freeSlots := rest, allocatedPageTables := allocator.allocatedPageTables + 1 }
  | [] =>
    { allocator with
      lastPml1Slot := allocator.lastPml1Slot + 1
      allocatedPageTables := allocator.allocatedPageTables + 1 }

/-- The next slot comes with an extension of the region. -/
def Extends (allocator : PageTableSlotAllocator) : Prop :=
  allocator.freeSlots = [] ∧ allocator.lastPml1Slot + 1 = 510

/-- A recycled slot is cleared. -/
def clearedMemory (allocator : PageTableSlotAllocator) (memory : Memory) (frame : Nat) : Memory :=
  match allocator.freeSlots with
  | _ :: _ => memory.patch frame fun _ _ => 0
  | [] => memory

end PageTableSlotAllocator

section Alloc

variable {mc : MemoryController} {roots : Set Nat} {addr frame : Nat} {memory : Memory}

theorem patch_zero (memory : Memory) (frame : Nat) (index : TableIndex) : memory.patch frame (fun _ _ => 0) frame index = 0 := by
  rw [Memory.patch, if_pos rfl]
  rfl

theorem patch_other {other : Nat} {change : Nat → UInt8 → UInt8} (different : other ≠ frame) :
    memory.patch frame change other = memory other := by
  funext index
  rw [Memory.patch, if_neg different]

theorem patch_congr {change other : Nat → UInt8 → UInt8}
    (same : ∀ offset < pageSize, ∀ old, change offset old = other offset old) :
    memory.patch frame change = memory.patch frame other := by
  funext visited index
  rw [Memory.patch, Memory.patch]
  have inside (offset : Nat) (small : offset < 8) (old : UInt8) :
      change (8 * index.val + offset) old = other (8 * index.val + offset) old := by
    apply same
    have bound := index.isLt
    rw [pageSize]
    omega
  split
  · simp only [Word.ofBytes]
    rw [inside 0 (by decide), inside 1 (by decide), inside 2 (by decide), inside 3 (by decide), inside 4 (by decide),
      inside 5 (by decide), inside 6 (by decide), inside 7 (by decide)]
  · rfl

/-- The bytes of a whole page are cleared through its slot. -/
theorem writeBytes_page (shown : mc.frameFor addr = some (frame, true)) (aligned : addr % pageSize = 0) :
    writeBytes addr pageSize (fun _ => 0) mc = (.value (), { mc with memory := mc.memory.patch frame fun _ _ => 0 }) := by
  have start : (Page.forAddress addr).startAddress = addr := by
    change addr / pageSize * pageSize = addr
    rw [pageSize] at aligned ⊢
    omega
  have single : (Page.range (.forAddress addr) (.forAddress (addr + pageSize - 1))).pages = [.forAddress addr] := by
    have last : (addr + pageSize - 1) / pageSize = addr / pageSize := by
      rw [pageSize] at aligned ⊢
      omega
    rw [Page.range, PageIter.pages, Page.forAddress, Page.forAddress, last]
    change (List.range' _ (addr / pageSize + 1 - addr / pageSize)).map Page.mk = _
    rw [Nat.add_sub_cancel_left]
    rfl
  rw [writeBytes, if_neg (by decide), single, writePages]
  have written : writePage (Page.forAddress addr) addr pageSize (fun _ => 0) mc =
      (.value (), { mc with memory := mc.memory.patch frame fun _ _ => 0 }) := by
    have whole : (mc.memory.patch frame fun offset old =>
        if addr ≤ addr + offset ∧ addr + offset < addr + pageSize then 0 else old) = mc.memory.patch frame fun _ _ => 0 := by
      apply patch_congr
      intro offset small old
      exact if_pos ⟨Nat.le_add_right _ _, Nat.add_lt_add_left small _⟩
    rw [writePage, start, shown]
    simp only [whole]
  rw [bind_value written, writePages, pure_apply]

/-- Without an extension the next slot is returned, and a recycled slot is cleared. -/
theorem allocWith_value {extend : McM Unit} (shown : mc.frameFor mc.slotAllocator.nextSlot = some (frame, true))
    (aligned : mc.slotAllocator.nextSlot % pageSize = 0) (within : ¬ mc.slotAllocator.Extends) :
    allocWith extend mc = (.value mc.slotAllocator.nextSlot,
      { mc with
        memory := mc.slotAllocator.clearedMemory mc.memory frame
        slotAllocator := mc.slotAllocator.taken }) := by
  unfold allocWith
  rw [get_bind]
  unfold nextSlot at shown aligned ⊢
  unfold clearedMemory taken
  cases free : mc.slotAllocator.freeSlots with
  | nil =>
    have other : mc.slotAllocator.lastPml1Slot + 1 ≠ 510 := fun same => within ⟨free, same⟩
    simp only [put_bind, if_neg other, get_bind, pure_apply, free]
  | cons addr rest =>
    rw [free] at shown aligned
    have cleared : writeBytes addr pageSize (fun _ => 0)
        { mc with slotAllocator := { mc.slotAllocator with freeSlots := rest } } = _ :=
      writeBytes_page shown aligned
    simp only [put_bind]
    rw [bind_value cleared, get_bind, put_bind, pure_apply]

end Alloc

/-- Later tables contain the earlier ones, only the listed frames are new or cleared, and only the listed pages are new. -/
structure Grown (roots : Set Nat) (memory later : Memory) (used : Set Nat) (added : Set (List TableIndex)) : Prop where
  keeps : ∀ root ∈ roots, ∀ path : List TableIndex, path.length ≤ 3 → ∀ frame,
    follow (links memory) root path = some frame → follow (links later) root path = some frame
  onlyNew : ∀ root ∈ roots, ∀ path : List TableIndex, path.length ≤ 3 → ∀ frame,
    follow (links later) root path = some frame → follow (links memory) root path = some frame ∨ frame ∈ used
  leaves : ∀ root ∈ roots, ∀ page : Page, page.path ∉ added → leafEntry later root page = leafEntry memory root page
  known : ∀ root ∈ roots, ∀ page : Page, ∀ frame, follow (links memory) root page.path = some frame →
    follow (links later) root page.path = some frame
  access : ∀ root ∈ roots, ∀ page : Page, ∀ frame, follow (writableLinks memory) root page.path = some frame →
    follow (writableLinks later) root page.path = some frame
  flags : ∀ root ∈ roots, ∀ path : List TableIndex, path.length ≤ 2 → ∀ frame, follow (links memory) root path = some frame →
    ∀ index required, (PageTableEntry.flags (memory frame index)).contains required = true →
      (PageTableEntry.flags (later frame index)).contains required = true
  others : ∀ frame, ¬ Held later roots frame → frame ∉ used → later frame = memory frame

namespace Grown

variable {roots : Set Nat} {memory middle later : Memory} {used more : Set Nat} {added further : Set (List TableIndex)}
  {home frame : Nat} {place : List TableIndex} {index : TableIndex} {word : Word} {fresh : Nat}

theorem refl (roots : Set Nat) (memory : Memory) : Grown roots memory memory ∅ ∅ where
  keeps _ _ _ _ _ found := found
  onlyNew _ _ _ _ _ found := .inl found
  leaves _ _ _ _ := rfl
  known _ _ _ _ found := found
  access _ _ _ _ reached := reached
  flags _ _ _ _ _ _ _ _ inside := inside
  others _ _ _ := rfl

theorem held (grown : Grown roots memory later used added) (held : Held memory roots frame) : Held later roots frame := by
  obtain ⟨root, inside, path, short, found⟩ := held
  exact ⟨root, inside, path, short, grown.keeps root inside path short frame found⟩

theorem held_cases (grown : Grown roots memory later used added) (held : Held later roots frame) :
    Held memory roots frame ∨ frame ∈ used := by
  obtain ⟨root, inside, path, short, found⟩ := held
  rcases grown.onlyNew root inside path short frame found with old | new
  · exact .inl ⟨root, inside, path, short, old⟩
  · exact .inr new

theorem trans (first : Grown roots memory middle used added) (second : Grown roots middle later more further) :
    Grown roots memory later (used ∪ more) (added ∪ further) where
  keeps root inside path short frame found :=
    second.keeps root inside path short frame (first.keeps root inside path short frame found)
  onlyNew root inside path short frame found := by
    rcases second.onlyNew root inside path short frame found with between | new
    · rcases first.onlyNew root inside path short frame between with old | newer
      · exact .inl old
      · exact .inr (.inl newer)
    · exact .inr (.inr new)
  leaves root inside page outside :=
    (second.leaves root inside page fun new => outside (.inr new)).trans
      (first.leaves root inside page fun new => outside (.inl new))
  known root inside page frame found := second.known root inside page frame (first.known root inside page frame found)
  access root inside page frame reached :=
    second.access root inside page frame (first.access root inside page frame reached)
  flags root inside path high frame found index required contains :=
    second.flags root inside path high frame (first.keeps root inside path (by omega) frame found) index required
      (first.flags root inside path high frame found index required contains)
  others frame free unused :=
    (second.others frame free fun new => unused (.inr new)).trans
      (first.others frame (fun held => free (second.held held)) fun new => unused (.inl new))

/-- More listed frames and pages say less. -/
theorem mono (grown : Grown roots memory later used added) (wider : used ⊆ more) (larger : added ⊆ further) :
    Grown roots memory later more further where
  keeps := grown.keeps
  onlyNew root inside path short frame found :=
    (grown.onlyNew root inside path short frame found).imp id fun new => wider new
  leaves root inside page outside := grown.leaves root inside page fun new => outside (larger new)
  known := grown.known
  access := grown.access
  flags := grown.flags
  others frame free unused := grown.others frame free fun new => unused (wider new)

/-- An upper entry gets more flags. -/
theorem upgrade (forest : Forest memory roots) (inside : home ∈ roots) (high : place.length ≤ 2)
    (found : follow (links memory) home place = some frame) (sameLink : PageTableEntry.getFrame word = links memory frame index)
    (flags : ∀ required, (PageTableEntry.flags (memory frame index)).contains required = true →
      (PageTableEntry.flags word).contains required = true) : Grown roots memory (memory.write frame index word) ∅ ∅ where
  keeps _ _ _ _ _ reached := by
    rw [Forest.links_upgrade sameLink]
    exact reached
  onlyNew _ _ _ _ _ reached := by
    rw [Forest.links_upgrade sameLink] at reached
    exact .inl reached
  leaves _ member page _ := Forest.leafEntry_upgrade sameLink forest inside high found member page
  known _ _ _ _ reached := by
    rw [Forest.links_upgrade sameLink]
    exact reached
  access _ _ _ _ reached := follow_mono (Forest.writableLinks_upgrade sameLink (flags _)) reached
  flags _ _ _ _ visited _ slot required contains := by
    by_cases here : visited = frame ∧ slot = index
    · obtain ⟨rfl, rfl⟩ := here
      rw [write_same]
      exact flags required contains
    · rw [write_other (not_and_or.mp here)]
      exact contains
  others visited free _ := by
    funext slot
    apply write_other
    left
    rintro rfl
    apply free
    refine ⟨home, inside, place, by omega, ?_⟩
    rw [Forest.links_upgrade sameLink]
    exact found

/-- A change of one frame apart from the trees leaves them alone. -/
theorem apart (apart : Apart memory roots fresh) (same : ∀ other, other ≠ fresh → later other = memory other) :
    Grown roots memory later (Set.singleton fresh) ∅ := by
  have untouched := Untouched.of_apart apart same
  constructor
  · intro root inside path short frame found
    rw [untouched.follow_links inside (by omega)]
    exact found
  · intro root inside path short frame found
    rw [untouched.follow_links inside (by omega)] at found
    exact .inl found
  · intro root inside page _
    exact untouched.leafEntry_eq inside page
  · intro root inside page frame found
    rw [untouched.follow_links inside page.path_length.le]
    exact found
  · intro root inside page frame reached
    rw [untouched.follow_writableLinks inside page.path_length.le]
    exact reached
  · intro root inside path high frame found index required contains
    rw [untouched frame ⟨root, inside, path, by omega, found⟩]
    exact contains
  · exact fun frame _ unused => same frame unused

/-- A cleared frame becomes a table. -/
theorem link (forest : Forest memory roots) (inside : home ∈ roots) (high : place.length ≤ 2)
    (found : follow (links memory) home place = some frame)
    (new : Forest.NewTable memory roots frame index fresh word) :
    Grown roots memory (memory.write frame index word) (Set.singleton fresh) ∅ where
  keeps root member path short visited reached := follow_mono new.linked.mono reached
  onlyNew root member path short visited reached := by
    rcases new.linked.follow_cases reached with old | ⟨same, _⟩
    · exact .inl old
    · exact .inr same
  leaves root member page _ := forest.leafEntry_link new inside high found member page
  known root member page visited reached := follow_mono new.linked.mono reached
  access root member page visited reached := follow_mono (Forest.writableLinks_link new) reached
  flags root member path short visited reached slot required contains := by
    by_cases here : visited = frame ∧ slot = index
    · obtain ⟨rfl, rfl⟩ := here
      have zero := (forest.unused_iff inside high found slot).mpr new.free
      have none : PageTableEntry.flags (0 : PageTableEntry) = 0#64 := by decide
      rw [zero, none, EntryFlags.contains_iff, BitVec.zero_and] at contains
      rw [← contains, EntryFlags.contains_iff, BitVec.and_zero]
    · rw [write_other (not_and_or.mp here)]
      exact contains
  others visited free _ := by
    have different : visited ≠ frame := by
      rintro rfl
      exact free ⟨home, inside, place, by omega, follow_mono new.linked.mono found⟩
    funext slot
    exact write_other (.inl different)

/-- The unused entry of one page is filled. -/
theorem leaf {page : Page} {last : Nat} (forest : Forest memory roots) (inside : home ∈ roots)
    (found : follow (links memory) home page.upperPath = some last)
    (zero : ∀ root ∈ roots, leafEntry memory root page = 0) :
    Grown roots memory (memory.write last page.p1Index word) ∅ (Set.singleton page.path) := by
  have deep := page.upperPath_length
  have same {root : Nat} (member : root ∈ roots) {path : List TableIndex} (short : path.length ≤ 3) :
      follow (links (memory.write last page.p1Index word)) root path = follow (links memory) root path :=
    forest.follow_last inside deep found member short
  have old {other : Page} (equal : other.path = page.path) {root target : Nat} (member : root ∈ roots)
      (reached : follow (links memory) root other.path = some target) : False := by
    rw [equal, follow_path, zero root member, PageTableEntry.getFrame_zero] at reached
    contradiction
  constructor
  · intro root member path short frame reached
    rw [same member short]
    exact reached
  · intro root member path short frame reached
    rw [same member short] at reached
    exact .inl reached
  · exact fun root member other different => forest.leafEntry_last inside deep found member different
  · intro root member other frame reached
    have different : other.path ≠ page.path := fun equal => old equal member reached
    rw [follow_path, forest.leafEntry_last inside deep found member different, ← follow_path]
    exact reached
  · intro root member other frame reached
    have different : other.path ≠ page.path := fun equal =>
      old equal member (follow_mono writableLinks_weaker reached)
    exact forest.writableLinks_last inside deep found member different reached
  · intro root member path high frame reached index required contains
    have different : frame ≠ last := by
      rintro rfl
      have places := forest.planted root member home inside path page.upperPath frame (by omega) deep.le reached found
      rw [places, deep] at high
      omega
    rw [write_other (.inl different)]
    exact contains
  · intro frame free _
    funext slot
    apply write_other
    left
    rintro rfl
    apply free
    refine ⟨home, inside, page.upperPath, deep.le, ?_⟩
    rw [same inside deep.le]
    exact found

end Grown

open PageTable EntryFlags

namespace PageTable

theorem tableFlags_known (flags : EntryFlags) : (tableFlags flags).Known := by
  unfold tableFlags EntryFlags.Known
  split <;> decide

theorem tableFlags_present (flags : EntryFlags) : (tableFlags flags).contains .present = true := by
  unfold tableFlags
  split <;> decide

theorem tableFlags_writable (flags : EntryFlags) : (tableFlags flags).contains .writable = true := by
  unfold tableFlags
  split <;> decide

theorem tableFlags_ring3 {flags : EntryFlags} (user : flags.contains .ring3Accessible = true) :
    (tableFlags flags).contains .ring3Accessible = true := by
  rw [tableFlags, if_pos user]
  decide

end PageTable

theorem contains_hugePage (flags : EntryFlags) : flags.contains .hugePage = flags.getLsbD 7 := by
  have power : hugePage = BitVec.twoPow 64 7 := by decide
  rw [contains, power, BitVec.and_twoPow]
  cases flags.getLsbD 7 <;> decide

/-- The flags of a table do not make an entry huge. -/
theorem contains_hugePage_or (existing flags : EntryFlags) :
    contains (existing ||| tableFlags flags) .hugePage = existing.contains .hugePage := by
  have small : (tableFlags flags).getLsbD 7 = false := by
    unfold tableFlags
    split <;> decide
  rw [contains_hugePage, contains_hugePage, BitVec.getLsbD_or, small, Bool.or_false]

section Set

variable {mc : MemoryController} {table : PageTable} {frame target : Nat} {index : TableIndex} {flags : EntryFlags} {word : Word}

theorem setEntry_value (shown : mc.frameFor table.addr = some (frame, true))
    (made : PageTableEntry.ofFrame target flags = some word) :
    table.setEntry index target flags mc = (.value (), { mc with memory := mc.memory.write frame index word }) := by
  rw [setEntry, made]
  simp only [writeEntry, shown]

theorem ofFrame_some (small : target * pageSize < 0x10000000000000) (flags : EntryFlags) :
    ∃ word, PageTableEntry.ofFrame target flags = some word := by
  rw [PageTableEntry.ofFrame, if_pos small]
  exact ⟨_, rfl⟩

end Set

/-- A free slot shows a frame apart from the trees, and the kernel knows the frame. -/
structure FreeSlot (mc : MemoryController) (roots : Set Nat) (kernel addr frame : Nat) : Prop where
  slot : mc.SlotAt addr frame
  known : follow (links mc.memory) kernel (Page.forAddress addr).path = some frame
  apart : Apart mc.memory roots frame
  aligned : addr % pageSize = 0

section Grow

variable {mc after : MemoryController} {roots used : Set Nat} {kernel addr frame : Nat} {added : Set (List TableIndex)}

theorem MemoryController.SlotAt.grown (slot : mc.SlotAt addr frame) (active : mc.cr3 ∈ roots) (same : SameMachine mc after)
    (grown : Grown roots mc.memory after.memory used added) : after.SlotAt addr frame where
  outside := same.outside slot.outside
  regular := slot.regular
  reached := by
    rw [same.cr3]
    exact grown.access mc.cr3 active _ frame slot.reached

theorem Apart.grown {memory later : Memory} (apart : Apart memory roots frame)
    (grown : Grown roots memory later used added) (unused : frame ∉ used) : Apart later roots frame := by
  rw [apart_iff]
  intro held
  rcases grown.held_cases held with old | new
  · exact apart_iff.mp apart old
  · exact unused new

theorem FreeSlot.grown (free : FreeSlot mc roots kernel addr frame) (active : mc.cr3 ∈ roots) (base : kernel ∈ roots)
    (same : SameMachine mc after) (grown : Grown roots mc.memory after.memory used added) (unused : frame ∉ used) :
    FreeSlot after roots kernel addr frame where
  slot := free.slot.grown active same grown
  known := grown.known kernel base _ frame free.known
  apart := free.apart.grown grown unused
  aligned := free.aligned

end Grow

section Existing

variable {mc : MemoryController} {roots : Set Nat} {home frame target : Nat} {place : List TableIndex}
  {index : TableIndex} {table : PageTable}

/-- An existing table gets the missing flags and is shown by the window. -/
theorem nextTableCreate_existing (alloc : McM Nat) (forest : Forest mc.memory roots) (active : mc.cr3 ∈ roots)
    (inside : home ∈ roots) (found : follow (links mc.memory) home place = some frame) (high : place.length ≤ 2)
    (shown : mc.Shows table.addr frame) (link : links mc.memory frame index = some target) (flags : EntryFlags) :
    ∃ later, table.nextTableCreate alloc index (tableFlags flags) mc =
        (.value ⟨mc.tempMapper.tempAddr⟩, ({ mc with memory := later } : MemoryController).windowed target) ∧
      Forest later roots ∧ Grown roots mc.memory later ∅ ∅ ∧ links later = links mc.memory ∧
      (PageTableEntry.flags (later frame index)).contains (tableFlags flags) = true := by
  have stored : PageTableEntry.getFrame (mc.memory frame index) = some target := link
  have used : PageTableEntry.isUnused (mc.memory frame index) = false := by
    rw [PageTableEntry.isUnused, beq_eq_false_iff_ne]
    intro zero
    rw [zero, PageTableEntry.getFrame_zero] at stored
    contradiction
  have small := forest.not_huge inside found high stored
  have frameFor := shown.frameFor forest active
  rw [nextTableCreate, bind_value (readEntry_shown frameFor index), used, if_neg Bool.false_ne_true]
  by_cases contains : (PageTableEntry.flags (mc.memory frame index)).contains (tableFlags flags) = true
  · refine ⟨mc.memory, ?_, forest, .refl roots mc.memory, rfl, contains⟩
    simp only [contains, Bool.not_true, Bool.false_and, Bool.false_eq_true, if_false]
    exact unwrap_value (nextTableTemp_found frameFor link)
  · have whole := PageTableEntry.getFrame_lt stored
    obtain ⟨word, made⟩ := ofFrame_some whole
      (PageTableEntry.flags (mc.memory frame index) ||| tableFlags flags)
    have known := (PageTableEntry.flags_known (mc.memory frame index)).or (tableFlags_known flags)
    have wordFlags := PageTableEntry.flags_ofFrame made known
    have sameLink : PageTableEntry.getFrame word = links mc.memory frame index := by
      rw [link]
      exact PageTableEntry.getFrame_ofFrame made known
        (contains_or_right (tableFlags_present flags))
    have grown : Grown roots mc.memory (mc.memory.write frame index word) ∅ ∅ := by
      apply Grown.upgrade forest inside high found sameLink
      intro required old
      rw [wordFlags]
      exact contains_or_left old
    have later : Forest (mc.memory.write frame index word) roots := by
      apply Forest.upgrade sameLink forest (by rw [link]; rfl)
      rw [isHuge, wordFlags, contains_hugePage_or]
      exact small
    have shownLater : ({ mc with memory := mc.memory.write frame index word } : MemoryController).Shows table.addr frame := by
      rcases shown with window | slot
      · exact .inl window
      · exact .inr (slot.grown active ⟨rfl, rfl, rfl, rfl, rfl⟩ grown)
    refine ⟨mc.memory.write frame index word, ?_, later, grown, Forest.links_upgrade sameLink, ?_⟩
    · have notHuge : (PageTableEntry.flags (mc.memory frame index)).contains .hugePage = false := small
      have linkLater : links (mc.memory.write frame index word) frame index = some target := by
        rw [Forest.links_upgrade sameLink, link]
      simp only [Bool.eq_false_iff.mpr contains, notHuge, Bool.not_false, Bool.and_self, if_true, stored]
      rw [bind_value (setEntry_value frameFor made)]
      exact unwrap_value (nextTableTemp_found (shownLater.frameFor later active) linkLater)
    · rw [write_same, wordFlags]
      exact contains_or_right (contains_self _)

end Existing

section Unused

variable {mc between : MemoryController} {kernel frame target fresh slot : Nat} {index : TableIndex} {table : PageTable}
  {alloc : McM Nat} {access : Bool} {flags : EntryFlags} {word : Word}

/-- An unused entry gets the frame of the allocated slot. -/
theorem nextTableCreate_unused (shown : mc.frameFor table.addr = some (frame, access))
    (unused : PageTableEntry.isUnused (mc.memory frame index) = true) (allocated : alloc mc = (.value slot, between))
    (small : between.tempMapper.frame * pageSize < 0x10000000000000)
    (kernelFor : between.frameFor pageTableRegionStart = some (kernel, true))
    (known : follow (links between.memory) kernel (Page.forAddress slot).path = some fresh)
    (still : between.frameFor table.addr = some (target, true)) (made : PageTableEntry.ofFrame fresh flags = some word) :
    table.nextTableCreate alloc index flags mc =
      (.value ⟨slot⟩, { between with memory := between.memory.write target index word }) := by
  have translation : ∃ window, translateToPhys ⟨pageTableRegionStart⟩ slot between =
      (.value fresh, between.windowed window) := translateToPhys_found kernelFor known
  obtain ⟨window, translated⟩ := translation
  have current : TempMapper.getCurrentPhys between = (.value between.tempMapper.frame, between) := rfl
  have restored : TempMapper.set between.tempMapper.frame (between.windowed window) =
      (.value between.tempMapper.tempAddr, between) := set_value.mpr ⟨small, rfl, rfl⟩
  rw [nextTableCreate, bind_value (readEntry_shown shown index), unused, if_pos rfl,
    bind_value (unwrap_value allocated), bind_value current, bind_value (unwrap_value translated), bind_value restored,
    bind_value (setEntry_value still made), pure_apply]

end Unused

/-- The allocator returns a cleared free slot. -/
structure Allocated (alloc : McM Nat) (mc between : MemoryController) (roots : Set Nat) (kernel slot fresh : Nat)
    (used : Set Nat) (added : Set (List TableIndex)) : Prop where
  returned : alloc mc = (.value slot, between)
  same : SameMachine mc between
  forest : Forest between.memory roots
  window : between.tempMapper.frame * pageSize < 0x10000000000000
  kernelAt : between.SlotAt pageTableRegionStart kernel
  free : FreeSlot between roots kernel slot fresh
  cleared : ∀ index, between.memory fresh index = 0
  grown : Grown roots mc.memory between.memory used added

section Allocated

variable {mc between : MemoryController} {roots used : Set Nat} {kernel home frame slot fresh : Nat} {place : List TableIndex}
  {index : TableIndex} {table : PageTable} {alloc : McM Nat} {added : Set (List TableIndex)}

/-- A missing table is created in the allocated slot. -/
theorem nextTableCreate_new (allocated : Allocated alloc mc between roots kernel slot fresh used added)
    (forest : Forest mc.memory roots) (active : mc.cr3 ∈ roots) (inside : home ∈ roots)
    (found : follow (links mc.memory) home place = some frame) (high : place.length ≤ 2)
    (shown : mc.Shows table.addr frame) (still : between.Shows table.addr frame)
    (empty : links between.memory frame index = none) (flags : EntryFlags) :
    ∃ later, table.nextTableCreate alloc index (tableFlags flags) mc =
        (.value ⟨slot⟩, { between with memory := later }) ∧
      Forest later roots ∧ Grown roots between.memory later (Set.singleton fresh) ∅ ∧
      Linked (links between.memory) (links later) frame index fresh ∧ (∀ other, later fresh other = 0) ∧
      (PageTableEntry.flags (later frame index)).contains (tableFlags flags) = true := by
  have foundLater := allocated.grown.keeps home inside place (by omega) frame found
  have activeLater : between.cr3 ∈ roots := by
    rw [allocated.same.cr3]
    exact active
  have free : links mc.memory frame index = none := by
    cases link : links mc.memory frame index with
    | none => rfl
    | some next =>
      have kept := allocated.grown.keeps home inside (place ++ [index])
        (by rw [List.length_append, List.length_singleton]; omega) next
        (by rw [follow_snoc, found, Option.bind_some, link])
      rw [follow_snoc, foundLater, Option.bind_some, empty] at kept
      contradiction
  have unused : PageTableEntry.isUnused (mc.memory frame index) = true := by
    rw [(forest.unused_iff inside high found index).mpr free]
    decide
  have different : fresh ≠ frame := by
    rintro rfl
    exact allocated.free.apart home inside place (by omega) foundLater
  have small := PageTableEntry.getFrame_lt (allocated.free.known.symm.trans (follow_path between.memory kernel _)).symm
  obtain ⟨word, made⟩ := ofFrame_some small (tableFlags flags)
  have wordFlags := PageTableEntry.flags_ofFrame made (tableFlags_known flags)
  have new : Forest.NewTable between.memory roots frame index fresh word := {
    free := empty
    different := different
    cleared := allocated.cleared
    apart := allocated.free.apart
    link := PageTableEntry.getFrame_ofFrame made (tableFlags_known flags) (tableFlags_present flags)
    table := by
      rw [isHuge, wordFlags]
      unfold tableFlags
      split <;> decide }
  refine ⟨between.memory.write frame index word, ?_, allocated.forest.link new,
    Grown.link allocated.forest inside high foundLater new, new.linked, ?_, ?_⟩
  · exact nextTableCreate_unused (shown.frameFor forest active) unused allocated.returned allocated.window
      (Shows.frameFor (.inr allocated.kernelAt) allocated.forest activeLater) allocated.free.known
      (still.frameFor allocated.forest activeLater) made
  · intro other
    rw [write_other (.inl different)]
    exact allocated.cleared other
  · rw [write_same, wordFlags]
    exact contains_self _

end Allocated

section Cleared

variable {roots : Set Nat} {fresh : Nat} {memory : Memory}

theorem clearedMemory_other (allocator : PageTableSlotAllocator) {other : Nat} (different : other ≠ fresh) :
    allocator.clearedMemory memory fresh other = memory other := by
  unfold PageTableSlotAllocator.clearedMemory
  cases allocator.freeSlots with
  | nil => rfl
  | cons addr rest => exact patch_other different

theorem clearedMemory_zero {allocator : PageTableSlotAllocator}
    (cleared : allocator.freeSlots = [] → ∀ index, memory fresh index = 0) (index : TableIndex) :
    allocator.clearedMemory memory fresh fresh index = 0 := by
  unfold PageTableSlotAllocator.clearedMemory
  cases free : allocator.freeSlots with
  | nil => exact cleared free index
  | cons addr rest => exact patch_zero memory fresh index

/-- Clearing a free frame leaves the trees alone. -/
theorem clearedMemory_untouched (allocator : PageTableSlotAllocator) (apart : Apart memory roots fresh) :
    Untouched memory (allocator.clearedMemory memory fresh) roots :=
  .of_apart apart fun _ => clearedMemory_other allocator

/-- Without an extension a free slot is allocated. -/
theorem allocWith_allocated {mc : MemoryController} {kernel : Nat} (extend : McM Unit) (forest : Forest mc.memory roots)
    (active : mc.cr3 ∈ roots) (base : kernel ∈ roots) (kernelAt : mc.SlotAt pageTableRegionStart kernel)
    (small : mc.tempMapper.frame * pageSize < 0x10000000000000)
    (free : FreeSlot mc roots kernel mc.slotAllocator.nextSlot fresh)
    (cleared : mc.slotAllocator.freeSlots = [] → ∀ index, mc.memory fresh index = 0) (within : ¬ mc.slotAllocator.Extends) :
    Allocated (PageTableSlotAllocator.allocWith extend) mc
      { mc with
        memory := mc.slotAllocator.clearedMemory mc.memory fresh
        slotAllocator := mc.slotAllocator.taken }
      roots kernel mc.slotAllocator.nextSlot fresh (Set.singleton fresh) ∅ := by
  have untouched := clearedMemory_untouched mc.slotAllocator free.apart
  have grown : Grown roots mc.memory (mc.slotAllocator.clearedMemory mc.memory fresh) (Set.singleton fresh) ∅ :=
    .apart free.apart fun _ => clearedMemory_other mc.slotAllocator
  have same : SameMachine mc { mc with
      memory := mc.slotAllocator.clearedMemory mc.memory fresh
      slotAllocator := mc.slotAllocator.taken } := ⟨rfl, rfl, rfl, rfl, rfl⟩
  constructor
  · exact allocWith_value (Shows.frameFor (.inr free.slot) forest active) free.aligned within
  · exact same
  · exact untouched.forest forest
  · exact small
  · exact kernelAt.grown active same grown
  · exact ⟨free.slot.grown active same grown, grown.known kernel base _ fresh free.known, untouched.apart free.apart,
      free.aligned⟩
  · exact clearedMemory_zero cleared
  · exact grown

end Cleared

end BubbleOs.Paging
