import BubbleOs.Proof.Paging.Map

namespace BubbleOs.Paging

open Attempt MemoryController PageTableSlotAllocator

variable {first second : Nat} {slot : Nat}

def slotAddr (slot : Nat) : Nat := pageTableRegionStart + slot * pageSize

def slotPage (slot : Nat) : Page := ⟨28939649024 + slot⟩

theorem forAddress_slotAddr (slot : Nat) : Page.forAddress (slotAddr slot) = slotPage slot := by
  have quotient : (118536802402304 + slot * 4096) / 4096 = 28939649024 + slot := by omega
  exact congrArg Page.mk quotient

theorem slotAddr_aligned (slot : Nat) : slotAddr slot % pageSize = 0 := by
  change (118536802402304 + slot * 4096) % 4096 = 0
  omega

theorem slotAddr_inj (same : slotAddr first = slotAddr second) : first = second := by
  have equal : 118536802402304 + first * 4096 = 118536802402304 + second * 4096 := same
  omega

theorem slotAddr_canonical (small : slot < 262144) : canonical (slotAddr slot) = true := by
  have low : 118536802402304 + slot * 4096 < 0x800000000000 := by omega
  rw [canonical, Bool.or_eq_true, decide_eq_true_eq]
  exact .inl low

theorem slotPage_small (small : slot < 262144) : (slotPage slot).pageNumber < 2 ^ 36 := by
  change 28939649024 + slot < 2 ^ 36
  omega

theorem slotPage_path_inj (small : first < 262144) (bound : second < 262144)
    (same : (slotPage first).path = (slotPage second).path) : first = second := by
  have equal := congrArg Page.pageNumber (Page.eq_of_path (slotPage_small small) (slotPage_small bound) same)
  change 28939649024 + first = 28939649024 + second at equal
  omega

/-- These tables are shared by all slots. -/
def regionPath : List TableIndex := (slotPage 0).path.take 2

theorem slotPage_upperPath (small : slot < 262144) :
    (slotPage slot).upperPath = regionPath ++ [Fin.ofNat 512 (slot / 512)] := by
  have four : (28939649024 + slot) / 2 ^ 27 % 512 = 215 := by omega
  have three : (28939649024 + slot) / 2 ^ 18 % 512 = 316 := by omega
  have two : (28939649024 + slot) / 2 ^ 9 % 512 = slot / 512 % 512 := by omega
  have front : regionPath = [215, 316] := by decide
  rw [Page.upperPath, front]
  simp only [List.cons_append, List.nil_append, List.cons.injEq, and_true, Page.p4Index, Page.p3Index, Page.p2Index,
    Fin.ext_iff, Page.indexAt_val, slotPage, four, three, two, Fin.ofNat]
  exact ⟨rfl, rfl⟩

/-- A writable path to a slot starts with the path of the region. -/
theorem follow_front {memory : Memory} {root frame target : Nat}
    (reached : follow (writableLinks memory) root (slotPage 0).path = some target)
    (found : follow (links memory) root regionPath = some frame) : follow (writableLinks memory) root regionPath = some frame := by
  have split : (slotPage 0).path = regionPath ++ [(slotPage 0).p2Index, (slotPage 0).p1Index] := by decide
  rw [split, follow_append, Option.bind_eq_some_iff] at reached
  obtain ⟨visited, front, _⟩ := reached
  have same := follow_mono writableLinks_weaker front
  rw [found, Option.some.injEq] at same
  rw [front, same]

/-- The frame allocator may return this frame. -/
def SimplePageFrameAllocator.Available (allocator : SimplePageFrameAllocator) (frame : Nat) : Prop :=
  frame ∈ allocator.freeFrames ∨ (allocator.frameHead < frame ∧ frame < allocator.memEnd)

/-- These slots and frames are in use outside the trees, the frames hold these words, and free frames may be blank. -/
structure Reserve where
  slots : List Nat
  data : Nat → Option (TableIndex → Word)
  blank : Prop

/-- The mapped slots show distinct frames in every tree, and a slot that is not in use shows no table. -/
structure Region (mc : MemoryController) (roots : Set Nat) (kernel : Nat) (frameOf : Nat → Nat) (mapped : Nat)
    (held : Reserve) : Prop where
  forest : Forest mc.memory roots
  active : mc.cr3 ∈ roots
  base : kernel ∈ roots
  first : frameOf 0 = kernel
  window : mc.tempMapper.frame * pageSize < 0x10000000000000
  tempAddr : mc.tempMapper.tempAddr = slotAddr 4
  shared : ∀ root ∈ roots, follow (writableLinks mc.memory) root regionPath = some (frameOf 2)
  slots : ∀ root ∈ roots, ∀ slot < mapped, slot ≠ 4 →
    follow (writableLinks mc.memory) root (slotPage slot).path = some (frameOf slot)
  injective : ∀ first < mapped, ∀ second < mapped, frameOf first = frameOf second → first = second
  bound : 512 ≤ mapped ∧ mapped ≤ 1025
  last : 5 ≤ mc.slotAllocator.lastPml1Slot ∧ mc.slotAllocator.lastPml1Slot ≤ mapped
  distinct : mc.slotAllocator.freeSlots.Nodup
  free : ∀ addr ∈ mc.slotAllocator.freeSlots, ∃ slot, addr = slotAddr slot ∧ 4 < slot ∧
    slot < mc.slotAllocator.lastPml1Slot ∧ slot ∉ held.slots ∧ Apart mc.memory roots (frameOf slot)
  unused : ∀ slot, mc.slotAllocator.lastPml1Slot ≤ slot → slot < mapped →
    Apart mc.memory roots (frameOf slot) ∧ ∀ index, mc.memory (frameOf slot) index = 0
  kept : ∀ slot ∈ held.slots, 4 < slot ∧ slot < mc.slotAllocator.lastPml1Slot ∧ Apart mc.memory roots (frameOf slot)
  frames : ∀ frame, mc.frameAllocator.Available frame → Apart mc.memory roots frame ∧
    (held.blank → ∀ index, mc.memory frame index = 0) ∧ (∀ slot < mapped, frameOf slot ≠ frame) ∧
    frame * pageSize < 0x10000000000000
  freed : mc.frameAllocator.freeFrames.Nodup ∧ ∀ frame ∈ mc.frameAllocator.freeFrames, frame ≤ mc.frameAllocator.frameHead
  stored : ∀ frame words, held.data frame = some words → Apart mc.memory roots frame ∧ mc.memory frame = words ∧
    ¬ mc.frameAllocator.Available frame ∧ frame * pageSize < 0x10000000000000 ∧ frame ≤ mc.frameAllocator.frameHead ∧
    ∀ slot < mapped, frameOf slot ≠ frame

namespace Region

variable {mc after : MemoryController} {roots used : Set Nat} {kernel : Nat} {frameOf : Nat → Nat} {mapped : Nat}
  {held : Reserve} {added : Set (List TableIndex)} {slot : Nat}

section Region

variable (region : Region mc roots kernel frameOf mapped held)

include region

theorem slotAt (inside : slot < mapped) (shown : slot ≠ 4) :
    mc.SlotAt (slotAddr slot) (frameOf slot) where
  outside := by
    rw [Outside, region.tempAddr]
    intro same
    have equal : Page.forAddress (slotAddr slot) = Page.forAddress (slotAddr 4) := congrArg Page.mk same
    rw [forAddress_slotAddr, forAddress_slotAddr] at equal
    have number : 28939649024 + slot = 28939649024 + 4 := congrArg Page.pageNumber equal
    omega
  regular := slotAddr_canonical (by have bound := region.bound; omega)
  reached := by
    rw [forAddress_slotAddr]
    exact region.slots mc.cr3 region.active slot inside shown

theorem kernelAt : mc.SlotAt pageTableRegionStart kernel := by
  have slot := region.slotAt (Nat.lt_of_lt_of_le (by decide) region.bound.1) (by decide : 0 ≠ 4)
  rw [region.first] at slot
  exact slot

theorem known (inside : slot < mapped) (shown : slot ≠ 4) :
    follow (links mc.memory) kernel (slotPage slot).path = some (frameOf slot) :=
  follow_mono writableLinks_weaker (region.slots kernel region.base slot inside shown)

theorem freeSlot (inside : slot < mapped) (shown : slot ≠ 4) (apart : Apart mc.memory roots (frameOf slot)) :
    FreeSlot mc roots kernel (slotAddr slot) (frameOf slot) where
  slot := region.slotAt inside shown
  known := by
    rw [forAddress_slotAddr]
    exact region.known inside shown
  apart := apart
  aligned := slotAddr_aligned slot

/-- The next slot is free. -/
theorem nextSlot_free (room : mc.slotAllocator.freeSlots ≠ [] ∨ mc.slotAllocator.lastPml1Slot < mapped) :
    ∃ slot, mc.slotAllocator.nextSlot = slotAddr slot ∧ slot < mapped ∧ 4 < slot ∧ slot ∉ held.slots ∧
      FreeSlot mc roots kernel mc.slotAllocator.nextSlot (frameOf slot) ∧
      (mc.slotAllocator.freeSlots = [] → ∀ index, mc.memory (frameOf slot) index = 0) ∧
      slot < mc.slotAllocator.taken.lastPml1Slot ∧ slotAddr slot ∉ mc.slotAllocator.taken.freeSlots := by
  have last := region.last
  unfold nextSlot PageTableSlotAllocator.taken
  cases free : mc.slotAllocator.freeSlots with
  | nil =>
    have inside : mc.slotAllocator.lastPml1Slot < mapped := room.resolve_left (absurd free)
    obtain ⟨apart, zero⟩ := region.unused _ (Nat.le_refl _) inside
    refine ⟨mc.slotAllocator.lastPml1Slot, rfl, inside, by omega, ?_, ?_, fun _ => zero, Nat.lt_succ_self _, ?_⟩
    · intro member
      have earlier := (region.kept _ member).2.1
      omega
    · exact region.freeSlot inside (by omega) apart
    · exact List.not_mem_nil
  | cons addr rest =>
    have distinct := region.distinct
    rw [free, List.nodup_cons] at distinct
    obtain ⟨slot, rfl, high, earlier, unheld, apart⟩ := region.free addr (by rw [free]; exact .head _)
    refine ⟨slot, rfl, by omega, high, unheld, region.freeSlot (by omega) (by omega) apart, nofun, earlier, ?_⟩
    exact distinct.1

end Region

variable (region : Region mc roots kernel frameOf mapped held) (same : SameMachine mc after)
  (forest : Forest after.memory roots) (window : after.tempMapper.frame * pageSize < 0x10000000000000)
  (frames : after.frameAllocator = mc.frameAllocator)

include region same forest window frames

/-- A change that keeps the slots visible and takes only unneeded frames keeps the region. -/
theorem transfer
    (access : ∀ root ∈ roots, ∀ slot < mapped, slot ≠ 4 → ∀ frame,
      follow (writableLinks mc.memory) root (slotPage slot).path = some frame →
        follow (writableLinks after.memory) root (slotPage slot).path = some frame)
    (shared : ∀ root ∈ roots, follow (links after.memory) root regionPath = some (frameOf 2))
    (onlyNew : ∀ frame, Held after.memory roots frame → Held mc.memory roots frame ∨ frame ∈ used)
    (others : ∀ frame, ¬ Held after.memory roots frame → frame ∉ used → after.memory frame = mc.memory frame)
    (taken : ∀ frame ∈ used, ∃ slot < mapped, frame = frameOf slot ∧ slot < after.slotAllocator.lastPml1Slot ∧
      slotAddr slot ∉ after.slotAllocator.freeSlots ∧ slot ∉ held.slots)
    (sub : ∀ addr ∈ after.slotAllocator.freeSlots, addr ∈ mc.slotAllocator.freeSlots)
    (distinct : after.slotAllocator.freeSlots.Nodup)
    (last : mc.slotAllocator.lastPml1Slot ≤ after.slotAllocator.lastPml1Slot ∧ after.slotAllocator.lastPml1Slot ≤ mapped) :
    Region after roots kernel frameOf mapped held := by
  have apart {frame : Nat} (old : Apart mc.memory roots frame) (unneeded : frame ∉ used) : Apart after.memory roots frame := by
    rw [apart_iff]
    intro held
    rcases onlyNew frame held with before | new
    · exact apart_iff.mp old before
    · exact unneeded new
  have untaken {slot : Nat} (inside : slot < mapped)
      (idle : after.slotAllocator.lastPml1Slot ≤ slot ∨ slotAddr slot ∈ after.slotAllocator.freeSlots ∨ slot ∈ held.slots) :
      frameOf slot ∉ used := by
    intro needed
    obtain ⟨other, otherInside, sameFrame, early, unfree, unheld⟩ := taken _ needed
    obtain rfl := region.injective slot inside other otherInside sameFrame
    rcases idle with late | free | member
    · omega
    · exact unfree free
    · exact unheld member
  have unneeded {frame : Nat} (foreign : ∀ slot < mapped, frameOf slot ≠ frame) : frame ∉ used := by
    intro needed
    obtain ⟨slot, inside, sameFrame, _⟩ := taken _ needed
    exact foreign slot inside sameFrame.symm
  have lastBefore := region.last
  have slots (root : Nat) (inside : root ∈ roots) (slot : Nat) (small : slot < mapped) (shown : slot ≠ 4) :
      follow (writableLinks after.memory) root (slotPage slot).path = some (frameOf slot) :=
    access root inside slot small shown _ (region.slots root inside slot small shown)
  constructor
  · exact forest
  · rw [same.cr3]
    exact region.active
  · exact region.base
  · exact region.first
  · exact window
  · rw [same.tempAddr]
    exact region.tempAddr
  · exact fun root inside => follow_front (slots root inside 0 (by have bound := region.bound; omega) (by decide)) (shared root inside)
  · exact slots
  · exact region.injective
  · exact region.bound
  · omega
  · exact distinct
  · intro addr member
    obtain ⟨slot, rfl, high, early, unheld, old⟩ := region.free addr (sub addr member)
    exact ⟨slot, rfl, high, by omega, unheld, apart old (untaken (by omega) (.inr (.inl member)))⟩
  · intro slot late inside
    obtain ⟨old, zero⟩ := region.unused slot (by omega) inside
    have new := apart old (untaken inside (.inl late))
    refine ⟨new, fun index => ?_⟩
    rw [others _ (apart_iff.mp new) (untaken inside (.inl late))]
    exact zero index
  · intro slot member
    obtain ⟨high, early, old⟩ := region.kept slot member
    exact ⟨high, by omega, apart old (untaken (by omega) (.inr (.inr member)))⟩
  · intro frame available
    rw [frames] at available
    obtain ⟨old, zero, foreign, small⟩ := region.frames frame available
    have new := apart old (unneeded foreign)
    refine ⟨new, fun blank index => ?_, foreign, small⟩
    rw [others _ (apart_iff.mp new) (unneeded foreign)]
    exact zero blank index
  · rw [frames]
    exact region.freed
  · intro frame words known
    obtain ⟨old, same, unavailable, small, low, foreign⟩ := region.stored frame words known
    have new := apart old (unneeded foreign)
    refine ⟨new, ?_, ?_, small, ?_, foreign⟩
    · rw [others _ (apart_iff.mp new) (unneeded foreign)]
      exact same
    · rw [frames]
      exact unavailable
    · rw [frames]
      exact low

/-- Larger tables keep the region when their new frames come from slots that are in use now. -/
theorem grown (growth : Grown roots mc.memory after.memory used added)
    (taken : ∀ frame ∈ used, ∃ slot < mapped, frame = frameOf slot ∧ slot < after.slotAllocator.lastPml1Slot ∧
      slotAddr slot ∉ after.slotAllocator.freeSlots ∧ slot ∉ held.slots)
    (sub : ∀ addr ∈ after.slotAllocator.freeSlots, addr ∈ mc.slotAllocator.freeSlots)
    (distinct : after.slotAllocator.freeSlots.Nodup)
    (last : mc.slotAllocator.lastPml1Slot ≤ after.slotAllocator.lastPml1Slot ∧ after.slotAllocator.lastPml1Slot ≤ mapped) :
    Region after roots kernel frameOf mapped held := by
  apply region.transfer same forest window frames _ _ (fun frame => growth.held_cases) growth.others taken sub distinct last
  · exact fun root inside slot _ _ frame => growth.access root inside (slotPage slot) frame
  · intro root inside
    exact growth.keeps root inside regionPath (by decide) _ (follow_mono writableLinks_weaker (region.shared root inside))

end Region

/-- The allocator serves this many tables below the limit and does not extend the region. -/
def PageTableSlotAllocator.Calm (allocator : PageTableSlotAllocator) (limit count : Nat) : Prop :=
  allocator.lastPml1Slot + (count - allocator.freeSlots.length) ≤ limit ∧ (510 ≤ allocator.lastPml1Slot ∨ limit ≤ 509)

section Calm

variable {allocator : PageTableSlotAllocator} {limit count : Nat}

variable (calm : allocator.Calm limit (count + 1))

include calm

theorem PageTableSlotAllocator.Calm.taken : allocator.taken.Calm limit count := by
  unfold Calm PageTableSlotAllocator.taken at *
  cases free : allocator.freeSlots with
  | nil =>
    rw [free, List.length_nil] at calm
    dsimp only
    rw [List.length_nil]
    omega
  | cons addr rest =>
    rw [free, List.length_cons] at calm
    dsimp only
    omega

theorem PageTableSlotAllocator.Calm.within : ¬ allocator.Extends := by
  rintro ⟨free, extends_⟩
  rw [Calm, free, List.length_nil] at calm
  omega

theorem PageTableSlotAllocator.Calm.room : allocator.freeSlots ≠ [] ∨ allocator.lastPml1Slot < limit := by
  rw [or_iff_not_imp_left, not_not]
  intro free
  rw [Calm, free, List.length_nil] at calm
  omega

end Calm

section Source

variable {mc : MemoryController} {roots : Set Nat} {kernel : Nat} {frameOf : Nat → Nat} {mapped : Nat} {held : Reserve}

theorem taken_last (allocator : PageTableSlotAllocator) : allocator.lastPml1Slot ≤ allocator.taken.lastPml1Slot := by
  unfold PageTableSlotAllocator.taken
  cases allocator.freeSlots with
  | nil => exact Nat.le_succ _
  | cons addr rest => exact Nat.le_refl _

theorem taken_le {allocator : PageTableSlotAllocator} (room : allocator.freeSlots ≠ [] ∨ allocator.lastPml1Slot < mapped)
    (last : allocator.lastPml1Slot ≤ mapped) : allocator.taken.lastPml1Slot ≤ mapped := by
  unfold PageTableSlotAllocator.taken
  cases free : allocator.freeSlots with
  | nil => exact room.resolve_left (absurd free)
  | cons addr rest => exact last

theorem taken_free (allocator : PageTableSlotAllocator) : allocator.taken.freeSlots.Sublist allocator.freeSlots := by
  unfold PageTableSlotAllocator.taken
  cases allocator.freeSlots with
  | nil => exact List.Sublist.refl _
  | cons addr rest => exact List.sublist_cons_self addr rest

/-- Without an extension the next slot is taken from the region. -/
theorem Region.take (region : Region mc roots kernel frameOf mapped held) (extend : McM Unit)
    (room : mc.slotAllocator.freeSlots ≠ [] ∨ mc.slotAllocator.lastPml1Slot < mapped) (within : ¬ mc.slotAllocator.Extends) :
    ∃ slot < mapped, slot ∉ held.slots ∧
      (4 < slot ∧ slot < mc.slotAllocator.taken.lastPml1Slot ∧ slotAddr slot ∉ mc.slotAllocator.taken.freeSlots) ∧
      Allocated (allocWith extend) mc
        { mc with
          memory := mc.slotAllocator.clearedMemory mc.memory (frameOf slot)
          slotAllocator := mc.slotAllocator.taken }
        roots kernel (slotAddr slot) (frameOf slot) (Set.singleton (frameOf slot)) ∅ ∧
      (∀ root ∈ roots, ∀ path, path.length ≤ 3 →
        follow (links (mc.slotAllocator.clearedMemory mc.memory (frameOf slot))) root path = follow (links mc.memory) root path) ∧
      ∀ later, Forest later roots →
        Grown roots (mc.slotAllocator.clearedMemory mc.memory (frameOf slot)) later (Set.singleton (frameOf slot)) ∅ →
        Region { mc with memory := later, slotAllocator := mc.slotAllocator.taken } roots kernel frameOf mapped held := by
  obtain ⟨slot, next, inside, high, unheld, free, cleared, early, unfree⟩ := region.nextSlot_free room
  have allocated := allocWith_allocated extend region.forest region.active region.base region.kernelAt region.window free
    cleared within
  have untouched := clearedMemory_untouched mc.slotAllocator free.apart
  rw [next] at allocated
  refine ⟨slot, inside, unheld, ⟨high, early, unfree⟩, allocated, ?_, ?_⟩
  · exact fun root member path short => untouched.follow_links member (by omega)
  · intro later forest grown
    have total := allocated.grown.trans grown
    rw [Set.union_self, Set.union_self] at total
    have same : SameMachine mc { mc with memory := later, slotAllocator := mc.slotAllocator.taken } :=
      ⟨rfl, rfl, rfl, rfl, rfl⟩
    apply region.grown same forest region.window rfl total
    · rintro frame rfl
      exact ⟨slot, inside, rfl, early, unfree, unheld⟩
    · exact fun addr member => (taken_free mc.slotAllocator).subset member
    · exact region.distinct.sublist (taken_free mc.slotAllocator)
    · exact ⟨taken_last mc.slotAllocator, taken_le room region.last.2⟩

/-- Since the start of a call the allocator has only taken slots. -/
structure Since (start mc : MemoryController) : Prop where
  frames : mc.frameAllocator = start.frameAllocator
  last : start.slotAllocator.lastPml1Slot ≤ mc.slotAllocator.lastPml1Slot
  pml1Count : mc.slotAllocator.pml1Count = start.slotAllocator.pml1Count

theorem Since.refl (mc : MemoryController) : Since mc mc := ⟨rfl, Nat.le_refl _, rfl⟩

theorem taken_pml1Count (allocator : PageTableSlotAllocator) : allocator.taken.pml1Count = allocator.pml1Count := by
  unfold PageTableSlotAllocator.taken
  cases allocator.freeSlots with
  | nil => rfl
  | cons addr rest => rfl

/-- A quiet frame is cleared and holds no table. -/
def Quiet (memory : Memory) (roots : Set Nat) (frame : Nat) : Prop :=
  Apart memory roots frame ∧ ∀ index, memory frame index = 0

theorem Quiet.grown {memory later : Memory} {used : Set Nat} {added : Set (List TableIndex)} {frame : Nat}
    (quiet : Quiet memory roots frame) (growth : Grown roots memory later used added) (unused : frame ∉ used) :
    Quiet later roots frame := by
  have apart := quiet.1.grown growth unused
  refine ⟨apart, fun index => ?_⟩
  rw [growth.others frame (apart_iff.mp apart) unused]
  exact quiet.2 index

/-- The region is calm since the start, and the listed frames are quiet. -/
structure CalmRegion (start mc : MemoryController) (roots : Set Nat) (kernel : Nat) (frameOf : Nat → Nat) (mapped : Nat)
    (held : Reserve) (quiet : Set Nat) (limit count : Nat) : Prop where
  region : Region mc roots kernel frameOf mapped held
  calm : mc.slotAllocator.Calm limit count
  quiet : ∀ frame ∈ quiet, Quiet mc.memory roots frame
  since : Since start mc

/-- The allocator serves tables from a calm region. -/
def Serves (alloc : McM Nat) (roots : Set Nat) (kernel : Nat) : Prop :=
  ∀ start frameOf mapped limit held quiet, limit ≤ mapped →
    (∀ frame ∈ quiet, ∀ slot < mapped, frame = frameOf slot → slot ∈ held.slots) →
    TableSource alloc roots kernel ∅ fun count mc => CalmRegion start mc roots kernel frameOf mapped held quiet limit count

/-- A calm region is a source of tables. -/
theorem allocWith_serves (extend : McM Unit) (roots : Set Nat) (kernel : Nat) :
    Serves (allocWith extend) roots kernel := fun start frameOf mapped limit held quiet below reserved => {
  forest count mc invariant := invariant.region.forest
  active count mc invariant := invariant.region.active
  upper count mc _ root _ page reserved := absurd reserved (Set.notMem_empty page)
  upgraded := by
    rintro count mc ⟨region, calm, silent, since⟩ later target forest grown small
    have same : SameMachine mc (MemoryController.windowed { mc with memory := later } target) := ⟨rfl, rfl, rfl, rfl, rfl⟩
    have kept : Region (MemoryController.windowed { mc with memory := later } target) roots kernel frameOf mapped held :=
      region.grown same forest small rfl grown (fun frame none => absurd none (Set.notMem_empty frame))
        (fun _ member => member) region.distinct ⟨Nat.le_refl _, region.last.2⟩
    refine ⟨kept, calm, fun frame member => ?_, since.frames, since.last, since.pml1Count⟩
    exact (silent frame member).grown grown (Set.notMem_empty frame)
  created := by
    rintro count mc ⟨region, calm, silent, since⟩
    have room : mc.slotAllocator.freeSlots ≠ [] ∨ mc.slotAllocator.lastPml1Slot < mapped :=
      calm.room.imp id fun less => Nat.lt_of_lt_of_le less below
    obtain ⟨slot, inside, unheld, _, allocated, unchanged, kept⟩ := region.take extend room calm.within
    refine ⟨_, _, _, _, _, allocated, Set.empty_subset _, fun _ => ⟨rfl, rfl⟩, ?_, ?_⟩
    · intro root member path short found
      rw [unchanged root member path short] at found
      exact .inl found
    · intro later forest grown _
      have total := allocated.grown.trans grown
      rw [Set.union_self, Set.union_self] at total
      refine ⟨kept later forest grown, calm.taken, fun other member => ?_, since.frames, ?_, ?_⟩
      · apply (silent other member).grown total
        rintro rfl
        exact unheld (reserved _ member slot inside rfl)
      · exact since.last.trans (taken_last mc.slotAllocator)
      · exact (taken_pml1Count mc.slotAllocator).trans since.pml1Count }

end Source

end BubbleOs.Paging
