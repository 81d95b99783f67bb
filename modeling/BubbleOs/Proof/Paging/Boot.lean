import BubbleOs.Proof.Paging.Extend

namespace BubbleOs.Paging

open Attempt MemoryController

theorem slotPages_eq (count : Nat) :
    (Page.range (slotPage 512) ⟨(slotPage 512).pageNumber + count⟩).pages = (List.range' 512 (count + 1)).map slotPage := by
  have number : (slotPage 512).pageNumber + count + 1 - (slotPage 512).pageNumber = count + 1 := by omega
  change (List.range' (slotPage 512).pageNumber ((slotPage 512).pageNumber + count + 1 - (slotPage 512).pageNumber)).map
    Page.mk = _
  rw [number]
  change (List.range' (28939649024 + 512) (count + 1)).map Page.mk = _
  rw [← List.map_add_range', List.map_map]
  rfl

section Extension

variable {mc : MemoryController} {roots : Set Nat} {kernel : Nat} {frameOf : Nat → Nat} {held : Reserve} {inner : McM Nat}
  {data : Nat → Option (TableIndex → Word)} {blank : Prop}

theorem Region.release {mapped : Nat} (region : Region mc roots kernel frameOf mapped held) :
    Region mc roots kernel frameOf mapped ⟨[], held.data, held.blank⟩ := {
  region with
  free := by
    intro addr member
    obtain ⟨slot, equal, high, early, _, apart⟩ := region.free addr member
    exact ⟨slot, equal, high, early, List.not_mem_nil, apart⟩
  kept := nofun }

/-- The extension doubles the region. -/
theorem extendRegion_value (serves : Serves inner roots kernel) {quiet : Set Nat}
    (growing : Growing mc mc roots kernel frameOf 512 held quiet 513) (single : mc.slotAllocator.pml1Count = 1) :
    ∃ middle frameLater,
      PageTableSlotAllocator.extendRegion inner mc =
        (.value (), { middle with slotAllocator := { middle.slotAllocator with pml1Count := 2 } }) ∧
      Growing mc middle roots kernel frameLater 1025 held quiet 0 := by
  obtain ⟨middle, frameLater, pages, complete⟩ := growing.run serves (Nat.le_refl 1025)
  refine ⟨middle, frameLater, ?_, complete⟩
  have first : Page.forAddress (pageTableRegionStart + pageSize * 512 * mc.slotAllocator.pml1Count) = slotPage 512 := by
    rw [single]
    exact forAddress_slotAddr 512
  have count : middle.slotAllocator.pml1Count + 1 = 2 := by rw [complete.pml1Count, single]
  rw [PageTableSlotAllocator.extendRegion, get_bind, first, slotPages_eq 512, bind_value pages, get_bind, count]
  rfl

/-- The slot before the extension is kept while the region grows. -/
theorem Region.startGrowing (region : Region mc roots kernel frameOf 512 ⟨[], data, blank⟩)
    (vacant : Vacant mc.memory roots 512) (clean : blank) (empty : mc.slotAllocator.freeSlots = []) (last : mc.slotAllocator.lastPml1Slot = 509)
    (enough : mc.frameAllocator.Enough 513) :
    Growing { mc with slotAllocator := { mc.slotAllocator with lastPml1Slot := 510 } }
      { mc with slotAllocator := { mc.slotAllocator with lastPml1Slot := 510 } } roots kernel frameOf 512 ⟨[509], data, blank⟩
      (Set.singleton (frameOf 509)) 513 := by
  have idle := region.unused 509 (by omega) (by decide)
  constructor
  · exact {
      region with
      last := by
        dsimp only
        omega
      free := by
        intro addr member
        dsimp only at member
        rw [empty] at member
        contradiction
      unused := by
        intro slot late inside
        dsimp only at late
        exact region.unused slot (by omega) inside
      kept := by
        intro slot member
        obtain rfl := List.mem_singleton.mp member
        exact ⟨by decide, by dsimp only; omega, idle.1⟩ }
  · exact vacant
  · rintro frame rfl
    refine ⟨idle, ?_, ?_⟩
    · intro available
      exact (region.frames _ available).2.2.1 509 (by decide) rfl
    · intro slot inside same
      rw [region.injective 509 (by decide) slot inside same]
      exact List.mem_singleton.mpr rfl
  · exact enough
  · exact clean
  · exact Nat.le_refl 510
  · exact Nat.le_refl 510
  · rfl
  · exact .refl _
  · exact ⟨∅, (Grown.refl roots mc.memory).mono Set.Subset.rfl (Set.empty_subset _)⟩
  · exact fun _ _ _ _ reached => .inl reached

/-- An extension returns the slot before it and leaves a larger region. -/
theorem allocWith_extends (serves : Serves inner roots kernel) (region : Region mc roots kernel frameOf 512 ⟨[], data, blank⟩)
    (vacant : Vacant mc.memory roots 512) (clean : blank) (single : mc.slotAllocator.pml1Count = 1)
    (empty : mc.slotAllocator.freeSlots = []) (last : mc.slotAllocator.lastPml1Slot = 509)
    (enough : mc.frameAllocator.Enough 513) :
    ∃ between frameLater used,
      Allocated (PageTableSlotAllocator.allocWith (PageTableSlotAllocator.extendRegion inner)) mc between roots kernel
        (slotAddr 509) (frameLater 509) used (slotPaths 1025) ∧
      Region between roots kernel frameLater 1025 ⟨[509], data, blank⟩ ∧ Vacant between.memory roots 1025 ∧
      510 ≤ between.slotAllocator.lastPml1Slot ∧ between.slotAllocator.lastPml1Slot ≤ 512 ∧
      ∀ root ∈ roots, ∀ path, path.length ≤ 3 → follow (links between.memory) root path ≠ none →
        follow (links mc.memory) root path ≠ none ∨ ∃ page ∈ slotPaths 1025, path <+: page := by
  obtain ⟨middle, frameLater, extended, complete⟩ :=
    extendRegion_value serves (region.startGrowing vacant clean empty last enough) single
  obtain ⟨used, grown⟩ := complete.grown
  have returned : PageTableSlotAllocator.allocWith (PageTableSlotAllocator.extendRegion inner) mc =
      (.value (slotAddr 509), { middle with
        slotAllocator :=
          { middle.slotAllocator with
            pml1Count := 2
            allocatedPageTables := middle.slotAllocator.allocatedPageTables + 1 } }) := by
    rw [PageTableSlotAllocator.allocWith, get_bind, empty]
    simp only [last, Nat.reduceAdd, if_true, put_bind]
    rw [bind_value extended, get_bind, put_bind]
    rfl
  have unmoved : SameMachine mc { mc with slotAllocator := { mc.slotAllocator with lastPml1Slot := 510 } } :=
    ⟨rfl, rfl, rfl, rfl, rfl⟩
  have counted : SameMachine middle { middle with
      slotAllocator :=
        { middle.slotAllocator with
          pml1Count := 2
          allocatedPageTables := middle.slotAllocator.allocatedPageTables + 1 } } := ⟨rfl, rfl, rfl, rfl, rfl⟩
  have larger : Region { middle with
      slotAllocator :=
        { middle.slotAllocator with
          pml1Count := 2
          allocatedPageTables := middle.slotAllocator.allocatedPageTables + 1 } } roots kernel frameLater 1025 ⟨[509], data, blank⟩ :=
    { complete.region with }
  have same : frameLater 509 = frameOf 509 := by
    have old := grown.known kernel region.base _ _ (region.known (by decide : 509 < 512) (by decide))
    exact Option.some.inj ((complete.region.known (by decide) (by decide)).symm.trans old)
  have kept := complete.region.kept 509 (List.mem_singleton.mpr rfl)
  refine ⟨_, frameLater, used, ⟨returned, ?_, ?_, ?_, ?_, ?_, ?_, ?_⟩, larger, complete.vacant, complete.late, ?_,
    complete.news⟩
  · exact unmoved.trans (complete.same.trans counted)
  · exact larger.forest
  · exact larger.window
  · exact larger.kernelAt
  · exact larger.freeSlot (by decide) (by decide) kept.2.2
  · rw [same]
    exact (complete.quiet _ rfl).1.2
  · exact grown
  · exact complete.early

end Extension

/-- The region is as the boot left it, or it has been extended once. -/
structure SlotRegion (mc : MemoryController) (roots : Set Nat) (kernel : Nat) (frameOf : Nat → Nat) (mapped : Nat)
    (data : Nat → Option (TableIndex → Word)) (blank : Prop) : Prop where
  region : Region mc roots kernel frameOf mapped ⟨[], data, blank⟩
  vacant : Vacant mc.memory roots mapped
  phase : (mapped = 512 ∧ mc.slotAllocator.lastPml1Slot ≤ 509 ∧ mc.slotAllocator.pml1Count = 1) ∨
    (mapped = 1025 ∧ 510 ≤ mc.slotAllocator.lastPml1Slot)

/-- The frames of the allocator hold no words of earlier programs. -/
def MemoryController.Blank (mc : MemoryController) : Prop :=
  ∀ frame, mc.frameAllocator.Available frame → ∀ index, mc.memory frame index = 0

theorem SlotRegion.reblank {mc : MemoryController} {roots : Set Nat} {kernel mapped : Nat} {frameOf : Nat → Nat}
    {data : Nat → Option (TableIndex → Word)} {blank other : Prop} (slots : SlotRegion mc roots kernel frameOf mapped data blank)
    (clean : other → mc.Blank) : SlotRegion mc roots kernel frameOf mapped data other := by
  refine ⟨{ slots.region with frames := ?_, kept := nofun, free := slots.region.free }, slots.vacant, slots.phase⟩
  intro frame available
  obtain ⟨apart, _, foreign, small⟩ := slots.region.frames frame available
  exact ⟨apart, fun holds => clean holds frame available, foreign, small⟩

/-- There are slots for this many tables of one page, and blank frames for an extension when they need one. -/
structure MemoryController.Supplies (mc : MemoryController) (blank : Prop) (count : Nat) : Prop where
  few : count ≤ 3
  slots : mc.slotAllocator.lastPml1Slot + (count - mc.slotAllocator.freeSlots.length) ≤ 1025
  frames : mc.slotAllocator.lastPml1Slot ≤ 509 →
    509 < mc.slotAllocator.lastPml1Slot + (count - mc.slotAllocator.freeSlots.length) →
      blank ∧ mc.frameAllocator.Enough 513

section Source

variable {mc : MemoryController} {roots : Set Nat} {kernel mapped count : Nat} {frameOf : Nat → Nat} {inner : McM Nat}
  {data : Nat → Option (TableIndex → Word)} {blank : Prop}

theorem Supplies.taken {memory : Memory} (supplies : mc.Supplies blank (count + 1)) :
    ({ mc with memory := memory, slotAllocator := mc.slotAllocator.taken } : MemoryController).Supplies blank count := by
  obtain ⟨few, slots, frames⟩ := supplies
  have shorter : mc.slotAllocator.taken.lastPml1Slot + (count - mc.slotAllocator.taken.freeSlots.length) =
      mc.slotAllocator.lastPml1Slot + (count + 1 - mc.slotAllocator.freeSlots.length) := by
    unfold PageTableSlotAllocator.taken
    cases free : mc.slotAllocator.freeSlots with
    | nil =>
      dsimp only
      rw [List.length_nil]
      omega
    | cons addr rest =>
      dsimp only
      rw [List.length_cons]
      omega
  refine ⟨by omega, by dsimp only; omega, ?_⟩
  intro early behind
  have last := taken_last mc.slotAllocator
  dsimp only at early behind
  exact frames (by omega) (by omega)

theorem SlotRegion.room (slots : SlotRegion mc roots kernel frameOf mapped data blank) (supplies : mc.Supplies blank (count + 1)) :
    mc.slotAllocator.freeSlots ≠ [] ∨ mc.slotAllocator.lastPml1Slot < mapped := by
  rw [or_iff_not_imp_left, not_not]
  intro free
  have slotsLeft := supplies.slots
  rw [free, List.length_nil] at slotsLeft
  rcases slots.phase with ⟨rfl, early, _⟩ | ⟨rfl, _⟩ <;> omega

theorem SlotRegion.phase_taken (slots : SlotRegion mc roots kernel frameOf mapped data blank) (within : ¬ mc.slotAllocator.Extends) :
    (mapped = 512 ∧ mc.slotAllocator.taken.lastPml1Slot ≤ 509 ∧ mc.slotAllocator.taken.pml1Count = 1) ∨
      (mapped = 1025 ∧ 510 ≤ mc.slotAllocator.taken.lastPml1Slot) := by
  rcases slots.phase with ⟨equal, early, single⟩ | ⟨equal, late⟩
  · refine .inl ⟨equal, ?_, (taken_pml1Count _).trans single⟩
    apply taken_le _ early
    rw [or_iff_not_imp_left, not_not]
    intro empty
    have different : mc.slotAllocator.lastPml1Slot + 1 ≠ 510 := fun next => within ⟨empty, next⟩
    omega
  · exact .inr ⟨equal, late.trans (taken_last _)⟩

theorem Vacant.grown {memory later : Memory} {used : Set Nat} (vacant : Vacant memory roots mapped)
    (growth : Grown roots memory later used ∅) : Vacant later roots mapped := by
  intro root inside slot behind small
  rw [growth.leaves root inside _ (Set.notMem_empty _)]
  exact vacant root inside slot behind small

/-- The paths to the later slots begin with the path of the region. -/
theorem Region.upper {held : Reserve} (region : Region mc roots kernel frameOf mapped held) {root : Nat} (inside : root ∈ roots)
    {page path : List TableIndex} (member : page ∈ slotPaths 1025) (short : path.length ≤ 2) (ahead : path <+: page) :
    follow (links mc.memory) root path ≠ none := by
  obtain ⟨slot, _, small, rfl⟩ := member
  have front : regionPath <+: (slotPage slot).path := by
    rw [Page.path_eq, slotPage_upperPath (by omega), List.append_assoc]
    exact List.prefix_append _ _
  apply follow_prefix (List.prefix_of_prefix_length_le ahead front short)
  rw [follow_mono writableLinks_weaker (region.shared root inside)]
  exact Option.some_ne_none _

/-- The allocator returns a slot of the region and keeps the region in order. -/
theorem SlotRegion.allocate (serves : Serves inner roots kernel) (slots : SlotRegion mc roots kernel frameOf mapped data blank)
    (supplies : mc.Supplies blank (count + 1)) :
    ∃ slot between frameLater mappedLater used added,
      Allocated (PageTableSlotAllocator.allocWith (PageTableSlotAllocator.extendRegion inner)) mc between roots kernel
        (slotAddr slot) (frameLater slot) used added ∧
      added ⊆ slotPaths 1025 ∧
      (¬ mc.slotAllocator.Extends → between.tempMapper.frame = mc.tempMapper.frame ∧ added = ∅) ∧
      (∀ root ∈ roots, ∀ path, path.length ≤ 3 → follow (links between.memory) root path ≠ none →
        follow (links mc.memory) root path ≠ none ∨ ∃ page ∈ added, path <+: page) ∧
      (4 < slot ∧ slot < between.slotAllocator.lastPml1Slot ∧ slotAddr slot ∉ between.slotAllocator.freeSlots) ∧
      ∀ later, Forest later roots → Grown roots between.memory later (Set.singleton (frameLater slot)) ∅ →
        SlotRegion { between with memory := later } roots kernel frameLater mappedLater data blank ∧
        ({ between with memory := later } : MemoryController).Supplies blank count := by
  by_cases within : mc.slotAllocator.Extends
  · obtain ⟨empty, next⟩ := within
    have last : mc.slotAllocator.lastPml1Slot = 509 := by omega
    obtain ⟨rfl, single⟩ : mapped = 512 ∧ mc.slotAllocator.pml1Count = 1 := by
      rcases slots.phase with ⟨rfl, _, single⟩ | ⟨_, late⟩
      · exact ⟨rfl, single⟩
      · omega
    have few := supplies.few
    have ⟨clean, enough⟩ := supplies.frames (by omega) (by rw [last, empty, List.length_nil]; omega)
    obtain ⟨between, frameLater, used, allocated, larger, vacant, late, early, news⟩ :=
      allocWith_extends serves slots.region slots.vacant clean single empty last enough
    have unfree : slotAddr 509 ∉ between.slotAllocator.freeSlots := by
      intro member
      obtain ⟨slot, equal, _, _, unheld, _⟩ := larger.free _ member
      apply unheld
      rw [← slotAddr_inj equal]
      exact List.mem_singleton.mpr rfl
    refine ⟨509, between, frameLater, 1025, used, _, allocated, Set.Subset.rfl, fun calm => absurd ⟨empty, next⟩ calm, news,
      ⟨by decide, late, unfree⟩, ?_⟩
    intro later forest grown
    have same : SameMachine between { between with memory := later } := ⟨rfl, rfl, rfl, rfl, rfl⟩
    refine ⟨⟨?_, vacant.grown grown, .inr ⟨rfl, late⟩⟩, by omega, ?_, ?_⟩
    · apply larger.release.grown same forest larger.window rfl grown
      · rintro frame rfl
        exact ⟨509, by decide, rfl, late, unfree, List.not_mem_nil⟩
      · exact fun _ member => member
      · exact larger.distinct
      · exact ⟨Nat.le_refl _, larger.last.2⟩
    · dsimp only
      omega
    · intro before
      exact absurd late (by dsimp only at before; omega)
  · obtain ⟨slot, inside, _, inUse, allocated, unchanged, kept⟩ :=
      slots.region.take (PageTableSlotAllocator.extendRegion inner) (slots.room supplies) within
    refine ⟨slot, _, frameOf, mapped, _, _, allocated, Set.empty_subset _, fun _ => ⟨rfl, rfl⟩, ?_, inUse, ?_⟩
    · intro root member path short found
      dsimp only at found
      rw [unchanged root member path short] at found
      exact .inl found
    · intro later forest grown
      have total := allocated.grown.trans grown
      rw [Set.union_self, Set.union_self] at total
      exact ⟨⟨kept later forest grown, slots.vacant.grown total, slots.phase_taken within⟩, Supplies.taken supplies⟩

/-- The allocator is a source of tables while its slots last. -/
theorem alloc_source (serves : Serves inner roots kernel) :
    TableSource (PageTableSlotAllocator.allocWith (PageTableSlotAllocator.extendRegion inner)) roots kernel (slotPaths 1025)
      fun count mc => (∃ frameOf mapped, SlotRegion mc roots kernel frameOf mapped data blank) ∧ mc.Supplies blank count where
  forest := by
    rintro count mc ⟨⟨_, _, slots⟩, _⟩
    exact slots.region.forest
  active := by
    rintro count mc ⟨⟨_, _, slots⟩, _⟩
    exact slots.region.active
  upper := by
    rintro count mc ⟨⟨_, _, slots⟩, _⟩ root inside page member path short ahead
    exact slots.region.upper inside member short ahead
  upgraded := by
    rintro count mc ⟨⟨frameOf, mapped, slots⟩, supplies⟩ later target forest grown small
    have same : SameMachine mc (MemoryController.windowed { mc with memory := later } target) := ⟨rfl, rfl, rfl, rfl, rfl⟩
    refine ⟨⟨frameOf, mapped, ?_, slots.vacant.grown grown, slots.phase⟩, supplies.few, supplies.slots, supplies.frames⟩
    exact slots.region.grown same forest small rfl grown (fun frame none => absurd none (Set.notMem_empty frame))
      (fun _ member => member) slots.region.distinct ⟨Nat.le_refl _, slots.region.last.2⟩
  created := by
    rintro count mc ⟨⟨frameOf, mapped, slots⟩, supplies⟩
    obtain ⟨slot, between, frameLater, mappedLater, used, added, allocated, allowed, calm, news, _, kept⟩ :=
      slots.allocate serves supplies
    refine ⟨_, _, _, _, _, allocated, allowed, calm, news, ?_⟩
    intro later forest grown _
    obtain ⟨region, left⟩ := kept later forest grown
    exact ⟨⟨frameLater, mappedLater, region⟩, left⟩

end Source

open PageTableEntry

section Master

variable {base : Nat} (small : (base + 512) * pageSize ≤ 0x10000000000000)

include small

variable {frame : Nat}

theorem kernelEntry_spec (low : frame < base + 512) :
    ofFrame frame (.present ||| .writable) = some (kernelEntry frame) := by
  have bound : frame * pageSize < (base + 512) * pageSize := Nat.mul_lt_mul_of_pos_right low (by decide)
  rw [ofFrame, if_pos (by omega), kernelEntry]

theorem kernelEntry_getFrame (low : frame < base + 512) : (kernelEntry frame).getFrame = some frame :=
  getFrame_ofFrame (kernelEntry_spec small low) (by unfold EntryFlags.Known; decide) (by decide)

theorem kernelEntry_flags (low : frame < base + 512) : (kernelEntry frame).flags = .present ||| .writable :=
  flags_ofFrame (kernelEntry_spec small low) (by unfold EntryFlags.Known; decide)

end Master

/-- The four tables of the region lead to its slots. -/
structure Master (memory : Memory) (base : Nat) : Prop where
  fourth : ∀ index, memory base index = if index = (slotPage 0).p4Index then kernelEntry (base + 1) else 0
  third : ∀ index, memory (base + 1) index = if index = (slotPage 0).p3Index then kernelEntry (base + 2) else 0
  second : ∀ index, memory (base + 2) index = if index = (slotPage 0).p2Index then kernelEntry (base + 3) else 0
  first : ∀ index : TableIndex, memory (base + 3) index = kernelEntry (base + index.val)

theorem bootOver_master (ram : Memory) (base memEnd : Nat) (stackAllocator : StackAllocator) :
    Master (bootOver ram base memEnd stackAllocator).memory base := by
  have inside (offset : Nat) (small : offset < 4) (index : TableIndex) :
      (bootOver ram base memEnd stackAllocator).memory (base + offset) index =
        masterTables base (base + offset) index := if_pos ⟨Nat.le_add_right _ _, by omega⟩
  have region : Page.forAddress pageTableRegionStart = slotPage 0 := forAddress_slotAddr 0
  constructor
  · intro index
    have top := inside 0 (by decide) index
    rw [Nat.add_zero] at top
    rw [top, masterTables, region]
    by_cases same : index = (slotPage 0).p4Index <;> simp [same]
  · intro index
    rw [inside 1 (by decide), masterTables, region]
    by_cases same : index = (slotPage 0).p3Index <;> simp [same]
  · intro index
    rw [inside 2 (by decide), masterTables, region]
    by_cases same : index = (slotPage 0).p2Index <;> simp [same]
  · intro index
    rw [inside 3 (by decide), masterTables]
    simp

theorem follow_only {memory : Memory} {start next frame : Nat} {chosen index : TableIndex} {rest : List TableIndex}
    (only : ∀ index, links memory start index = if index = chosen then some next else none)
    (found : follow (links memory) start (index :: rest) = some frame) :
    index = chosen ∧ follow (links memory) next rest = some frame := by
  rw [follow_cons, only] at found
  split at found
  · next same => exact ⟨same, found⟩
  · contradiction

namespace Master

variable {memory : Memory} {base : Nat} (master : Master memory base) (small : (base + 512) * pageSize ≤ 0x10000000000000)

include master small

variable {frame : Nat}

theorem links_fourth (index : TableIndex) :
    links memory base index = if index = (slotPage 0).p4Index then some (base + 1) else none := by
  rw [links, master.fourth]
  split
  · exact kernelEntry_getFrame small (by omega)
  · exact getFrame_zero

theorem links_third (index : TableIndex) :
    links memory (base + 1) index = if index = (slotPage 0).p3Index then some (base + 2) else none := by
  rw [links, master.third]
  split
  · exact kernelEntry_getFrame small (by omega)
  · exact getFrame_zero

theorem links_second (index : TableIndex) :
    links memory (base + 2) index = if index = (slotPage 0).p2Index then some (base + 3) else none := by
  rw [links, master.second]
  split
  · exact kernelEntry_getFrame small (by omega)
  · exact getFrame_zero

/-- The paths to tables are the beginnings of one path. -/
theorem follow_some {path : List TableIndex} (short : path.length ≤ 3)
    (found : follow (links memory) base path = some frame) :
    path = (slotPage 0).upperPath.take path.length ∧ frame = base + path.length := by
  cases path with
  | nil => exact ⟨rfl, (Option.some.inj found).symm⟩
  | cons fourth rest =>
    obtain ⟨rfl, below⟩ := follow_only (master.links_fourth small) found
    cases rest with
    | nil => exact ⟨rfl, (Option.some.inj below).symm⟩
    | cons third rest =>
      obtain ⟨rfl, under⟩ := follow_only (master.links_third small) below
      cases rest with
      | nil => exact ⟨rfl, (Option.some.inj under).symm⟩
      | cons second rest =>
        obtain ⟨rfl, last⟩ := follow_only (master.links_second small) under
        simp only [List.length_cons] at short
        obtain rfl := List.length_eq_zero_iff.mp (by omega : rest.length = 0)
        exact ⟨rfl, (Option.some.inj last).symm⟩

theorem held_range (held : Held memory {base} frame) : base ≤ frame ∧ frame < base + 4 := by
  obtain ⟨root, rfl, path, short, found⟩ := held
  have place := (master.follow_some small short found).2
  omega

theorem apart (outside : frame < base ∨ base + 4 ≤ frame) : Apart memory {base} frame := by
  rw [apart_iff]
  intro held
  have range := master.held_range small held
  omega

omit master in
/-- A kernel entry is unused or leads to a table. -/
theorem upper_entry {frame next : Nat} {index chosen : TableIndex} (low : next < base + 512)
    (entry : memory frame index = if index = chosen then kernelEntry next else 0) :
    memory frame index = 0 ∨ (links memory frame index).isSome = true ∧ isHuge (memory frame index) = false := by
  split at entry
  · right
    constructor
    · rw [links, entry, kernelEntry_getFrame small low]
      rfl
    · rw [entry, isHuge, kernelEntry_flags small low]
      decide
  · exact .inl entry

theorem forest : Forest memory {base} where
  planted := by
    rintro first rfl second rfl path other frame short brief found reached
    obtain ⟨same, place⟩ := master.follow_some small short found
    obtain ⟨equal, position⟩ := master.follow_some small brief reached
    have length : path.length = other.length := by omega
    rw [same, equal, length]
  upper := by
    rintro root rfl path high frame found index
    obtain ⟨_, place⟩ := master.follow_some small (by omega) found
    rcases (by omega : path.length = 0 ∨ path.length = 1 ∨ path.length = 2) with top | middle | low
    · rw [place, top]
      exact upper_entry small (by omega) (master.fourth index)
    · rw [place, middle]
      exact upper_entry small (by omega) (master.third index)
    · rw [place, low]
      exact upper_entry small (by omega) (master.second index)

omit master in
theorem writable_entry {frame next : Nat} {index : TableIndex} (low : next < base + 512)
    (entry : memory frame index = kernelEntry next) : writableLinks memory frame index = some next := by
  apply writableLinks_eq
  · rw [entry, kernelEntry_flags small low]
    decide
  · rw [links, entry]
    exact kernelEntry_getFrame small low

theorem shared : follow (writableLinks memory) base regionPath = some (base + 2) := by
  have front : regionPath = [(slotPage 0).p4Index, (slotPage 0).p3Index] := rfl
  rw [front, follow_cons, writable_entry small (by omega) ((master.fourth _).trans (if_pos rfl)), Option.bind_some, follow_cons,
    writable_entry small (by omega) ((master.third _).trans (if_pos rfl)), Option.bind_some, follow_nil]

theorem slot {slot : Nat} (inside : slot < 512) :
    follow (writableLinks memory) base (slotPage slot).path = some (base + slot) := by
  have zero : slot / 512 = 0 := by omega
  have index : (slotPage slot).p1Index.val = slot := by
    rw [Page.p1Index, Page.indexAt_val]
    change (28939649024 + slot) / 2 ^ 0 % 512 = slot
    omega
  apply follow_slotPage (by omega) (master.shared small)
  · rw [zero]
    exact writable_entry small (by omega) ((master.second _).trans (if_pos (by decide)))
  · have entry := master.first (slotPage slot).p1Index
    rw [index] at entry
    exact writable_entry small (by omega) entry

/-- No page behind the first table of slots is mapped. -/
theorem vacant : Vacant memory {base} 512 := by
  rintro root rfl slot behind high
  have absent : follow (links memory) root (slotPage slot).upperPath = none := by
    rw [slotPage_upperPath high, follow_snoc, follow_mono writableLinks_weaker (master.shared small), Option.bind_some,
      master.links_second small, if_neg]
    intro same
    have number : slot / 512 % 512 = 0 := congrArg Fin.val same
    omega
  rw [leafEntry, absent]

end Master

section Boot

variable {ram : Memory} {base memEnd : Nat}

/-- The boot over slots with cleared frames leaves the region in order. -/
theorem bootOver_slotRegion (small : (base + 512) * pageSize ≤ 0x10000000000000)
    (supported : memEnd * pageSize ≤ 0x10000000000000) (stackAllocator : StackAllocator)
    (blank : ∀ frame, base + 4 < frame → frame < base + 512 → ∀ index, ram frame index = 0) :
    SlotRegion (bootOver ram base memEnd stackAllocator) {base} base (base + ·) 512 (fun _ => none) False := by
  have master := bootOver_master ram base memEnd stackAllocator
  have zero (frame : Nat) (behind : base + 4 < frame) (inside : frame < base + 512) (index : TableIndex) :
      (bootOver ram base memEnd stackAllocator).memory frame index = 0 := by
    have outside : ¬ (base ≤ frame ∧ frame < base + 4) := by omega
    exact (if_neg outside).trans (blank frame behind inside index)
  have early : 5 ≤ 509 := by decide
  refine ⟨?_, master.vacant small, .inl ⟨rfl, early, rfl⟩⟩
  constructor
  · exact master.forest small
  · exact Set.mem_singleton base
  · exact Set.mem_singleton base
  · rfl
  · change (base + 4) * pageSize < _
    rw [pageSize] at small ⊢
    omega
  · rfl
  · rintro root rfl
    exact master.shared small
  · rintro root rfl slot inside _
    exact master.slot small inside
  · intro first _ second _ same
    omega
  · decide
  · exact ⟨Nat.le_refl 5, Nat.le_trans early (by decide)⟩
  · exact List.nodup_nil
  · exact fun _ member => absurd member List.not_mem_nil
  · intro slot late inside
    have high : 5 ≤ slot := late
    exact ⟨master.apart small (.inr (by omega)), zero _ (by omega) (by omega)⟩
  · exact fun _ member => absurd member List.not_mem_nil
  · intro frame available
    rcases available with freed | ⟨above, below⟩
    · exact absurd freed List.not_mem_nil
    · have high : base + 512 < frame := above
      have low : frame < memEnd := below
      refine ⟨master.apart small (.inr (by omega)), fun impossible => impossible.elim, fun slot inside => by omega, ?_⟩
      have bound : frame * pageSize < memEnd * pageSize := Nat.mul_lt_mul_of_pos_right low (by decide)
      omega
  · refine ⟨List.nodup_nil, fun frame member => ?_⟩
    exact absurd member List.not_mem_nil
  · intro frame words known
    cases known

end Boot

/-- The next slots of the allocator show these frames, and none of them needs an extension. -/
def Supply (mc : MemoryController) (roots : Set Nat) (kernel : Nat) : PageTableSlotAllocator → List Nat → Prop
  | _, [] => True
  | allocator, frame :: rest =>
    FreeSlot mc roots kernel allocator.nextSlot frame ∧
    (allocator.freeSlots = [] → ∀ index, mc.memory frame index = 0) ∧
    ¬ allocator.Extends ∧ frame ∉ rest ∧ Supply mc roots kernel allocator.taken rest

/-- The tables are in order, and the next slots are ready. -/
structure Ready (mc : MemoryController) (roots : Set Nat) (kernel : Nat) (frames : List Nat) : Prop where
  forest : Forest mc.memory roots
  active : mc.cr3 ∈ roots
  base : kernel ∈ roots
  kernelAt : mc.SlotAt pageTableRegionStart kernel
  window : mc.tempMapper.frame * pageSize < 0x10000000000000
  supply : Supply mc roots kernel mc.slotAllocator frames

section Ready

variable {mc after : MemoryController} {roots used : Set Nat} {kernel : Nat} {frames : List Nat} {added : Set (List TableIndex)}

theorem Supply.grown {allocator : PageTableSlotAllocator} (supply : Supply mc roots kernel allocator frames)
    (active : mc.cr3 ∈ roots) (base : kernel ∈ roots) (same : SameMachine mc after)
    (grown : Grown roots mc.memory after.memory used added) (unused : ∀ frame ∈ frames, frame ∉ used) :
    Supply after roots kernel allocator frames := by
  induction frames generalizing allocator with
  | nil => trivial
  | cons frame rest ih =>
    obtain ⟨free, cleared, within, distinct, supply⟩ := supply
    have apart := unused frame (.head _)
    have kept : FreeSlot after roots kernel allocator.nextSlot frame := free.grown active base same grown apart
    refine ⟨kept, ?_, within, distinct, ih supply fun other inside => unused other (.tail _ inside)⟩
    intro fresh index
    rw [grown.others frame (apart_iff.mp kept.apart) apart]
    exact cleared fresh index

/-- The supply is a source of tables. -/
theorem ready_source (extend : McM Unit) (roots : Set Nat) (kernel : Nat) :
    TableSource (PageTableSlotAllocator.allocWith extend) roots kernel ∅
      fun count mc => ∃ frames, frames.length = count ∧ Ready mc roots kernel frames where
  forest := by
    rintro count mc ⟨frames, _, ready⟩
    exact ready.forest
  active := by
    rintro count mc ⟨frames, _, ready⟩
    exact ready.active
  upper := by
    intro count mc _ root _ page reserved
    exact absurd reserved (Set.notMem_empty page)
  upgraded := by
    rintro count mc ⟨frames, length, ready⟩ later target forest grown small
    have same : SameMachine mc (MemoryController.windowed { mc with memory := later } target) := ⟨rfl, rfl, rfl, rfl, rfl⟩
    refine ⟨frames, length, forest, ready.active, ready.base, ready.kernelAt.grown ready.active same grown, small, ?_⟩
    exact ready.supply.grown ready.active ready.base same grown fun frame _ => Set.notMem_empty frame
  created := by
    rintro count mc ⟨frames, length, ready⟩
    obtain ⟨fresh, rest, rfl⟩ := List.exists_cons_of_length_eq_add_one length
    obtain ⟨free, cleared, within, distinct, supply⟩ := ready.supply
    have allocated := allocWith_allocated extend ready.forest ready.active ready.base ready.kernelAt ready.window free
      cleared within
    have untouched := clearedMemory_untouched mc.slotAllocator free.apart
    have unused : ∀ frame ∈ rest, frame ∉ Set.singleton fresh := by
      rintro frame member rfl
      exact distinct member
    have between := supply.grown ready.active ready.base allocated.same allocated.grown unused
    refine ⟨_, _, _, _, _, allocated, Set.empty_subset _, fun _ => ⟨rfl, rfl⟩, ?_, ?_⟩
    · intro root inside path short found
      rw [untouched.follow_links inside (by omega)] at found
      exact .inl found
    · intro later forest grown _
      have same : SameMachine
          ({ mc with
            memory := mc.slotAllocator.clearedMemory mc.memory fresh
            slotAllocator := mc.slotAllocator.taken } : MemoryController)
          { mc with memory := later, slotAllocator := mc.slotAllocator.taken } := ⟨rfl, rfl, rfl, rfl, rfl⟩
      refine ⟨rest, by simpa using length, forest, ready.active, ready.base,
        allocated.kernelAt.grown ready.active same grown, ready.window, ?_⟩
      exact between.grown ready.active ready.base same grown unused

end Ready

section Laws

variable {mc : MemoryController} {roots : Set Nat} {kernel home frame : Nat} {table : PageTable} {page : Page}
  {flags : EntryFlags} {frames : List Nat}

/-- A mapped page translates to its frame, an unmapped page is unused, and every other page stays as it was. -/
theorem map_translate_unmap (ready : Ready mc roots kernel frames) (inside : home ∈ roots) (shown : mc.SlotAt table.addr home)
    (enough : frames.length = missing (links mc.memory) home page.upperPath) (region : mc.InRegion table.addr)
    (small : page.pageNumber < 2 ^ 36) (outside : ∀ addr, mc.InRegion addr → Page.forAddress addr ≠ page)
    (supported : frame * pageSize < 0x10000000000000) (known : flags.Known) :
    (∃ after, table.mapTo PageTableSlotAllocator.alloc page frame flags mc = (.value (), after) ∧
      Ready after roots kernel [] ∧ after.SlotAt table.addr home ∧
      (∃ window, table.translateToPhys page.startAddress after = (.value frame, after.windowed window)) ∧
      PageTableEntry.flags (leafEntry after.memory home page) = flags ||| .present ∧
      (flags.contains .ring3Accessible = true → ∀ front index, front ++ [index] <+: page.upperPath →
        ∃ visited, follow (links after.memory) home front = some visited ∧
          (PageTableEntry.flags (after.memory visited index)).contains .ring3Accessible = true) ∧
      ∀ root ∈ roots, ∀ other : Page, other.pageNumber < 2 ^ 36 → other ≠ page →
        leafEntry after.memory root other = leafEntry mc.memory root other) ∧
    ∀ old final, table.translateToPhys page.startAddress mc = (.value old, final) →
      ∃ after, table.unmap page mc = (.value old, after) ∧
        Ready after roots kernel [] ∧ after.SlotAt table.addr home ∧
        (∃ window, table.translateToPhys page.startAddress after = (.missing, after.windowed window)) ∧
        (∃ window, table.isUnused page after = (.value true, after.windowed window)) ∧
        ∀ root ∈ roots, ∀ other : Page, other.pageNumber < 2 ^ 36 → other ≠ page →
          leafEntry after.memory root other = leafEntry mc.memory root other := by
  have tableApart := path_ne_of_region region small outside
  have kernelRegion : mc.InRegion pageTableRegionStart := by
    refine ⟨Nat.le_refl _, ?_, by decide⟩
    have low := region.1
    have high := region.2.1
    omega
  have kernelApart := path_ne_of_region kernelRegion small outside
  constructor
  · obtain ⟨word, made⟩ := ofFrame_some supported (flags ||| .present)
    have allKnown : EntryFlags.Known (flags ||| .present) := known.or (by unfold EntryFlags.Known; decide)
    have safe : links mc.memory home page.p4Index ≠ none → follow (links mc.memory) home page.upperPath = none →
        ¬ mc.slotAllocator.Extends := by
      intro _ absent
      cases frames with
      | nil => exact absurd absent (follow_of_missing enough.symm)
      | cons fresh rest => exact ready.supply.2.2.1
    have source := ready_source (PageTableSlotAllocator.extendRegion (PageTableSlotAllocator.allocFuel 0)) roots kernel
    obtain ⟨middle, last, used, added, mapped, ⟨_, _, readyMiddle⟩, same, grown, allowed, found, flagged, _⟩ :=
      mapTo_spec source inside shown ⟨frames, enough, ready⟩ safe made
    have remapped : Remapped roots mc.memory (middle.memory.write last page.p1Index word) home page word used added :=
      .of_grown inside readyMiddle.forest grown found
    have shownAfter : ({ middle with memory := middle.memory.write last page.p1Index word } : MemoryController).SlotAt
        table.addr home := shown.remapped ready.active (same.trans ⟨rfl, rfl, rfl, rfl, rfl⟩) remapped tableApart
    have active : middle.cr3 ∈ roots := readyMiddle.active
    have kernelAfter : ({ middle with memory := middle.memory.write last page.p1Index word } : MemoryController).SlotAt
        pageTableRegionStart kernel := ready.kernelAt.remapped ready.active (same.trans ⟨rfl, rfl, rfl, rfl, rfl⟩) remapped kernelApart
    refine ⟨_, mapped, ⟨remapped.forest, active, ready.base, kernelAfter, readyMiddle.window, trivial⟩, shownAfter, ?_, ?_, ?_,
      ?_⟩
    · apply PageTable.translateToPhys_found (Shows.frameFor (.inr shownAfter) remapped.forest active)
      rw [page.forAddress_startAddress, follow_path, remapped.leaf]
      exact PageTableEntry.getFrame_ofFrame made allKnown (EntryFlags.contains_or_right (EntryFlags.contains_self _))
    · rw [remapped.leaf]
      exact PageTableEntry.flags_ofFrame made allKnown
    · intro user front index ahead
      obtain ⟨visited, passed, kept, sameEntry⟩ := upper_entry inside readyMiddle.forest found ahead
      refine ⟨visited, kept, ?_⟩
      change (PageTableEntry.flags (middle.memory.write last page.p1Index word visited index)).contains _ = true
      rw [sameEntry]
      exact EntryFlags.contains_trans (flagged front index ahead visited passed) (PageTable.tableFlags_ring3 user)
    · intro root member other bound different
      apply remapped.others root member other
      · intro equal
        exact different (Page.eq_of_path bound small equal)
      · exact fun new => absurd (allowed new) (Set.notMem_empty _)
  · intro old final translated
    have frameFor := Shows.frameFor (.inr shown) ready.forest ready.active
    obtain ⟨last, found, mappedLeaf⟩ := translateToPhys_inv frameFor translated
    have remapped : Remapped roots mc.memory (mc.memory.write last page.p1Index 0) home page 0 ∅ ∅ :=
      .of_grown inside ready.forest (.refl roots mc.memory) found
    have shownAfter : (MemoryController.windowed { mc with memory := mc.memory.write last page.p1Index 0 } last).SlotAt
        table.addr home := shown.remapped ready.active ⟨rfl, rfl, rfl, rfl, rfl⟩ remapped tableApart
    have frameForAfter := Shows.frameFor (.inr shownAfter) remapped.forest ready.active
    have kernelAfter : (MemoryController.windowed { mc with memory := mc.memory.write last page.p1Index 0 } last).SlotAt
        pageTableRegionStart kernel := ready.kernelAt.remapped ready.active ⟨rfl, rfl, rfl, rfl, rfl⟩ remapped kernelApart
    have windowAfter := follow_supported found (by rw [page.upperPath_length]; decide)
    refine ⟨_, unmap_value frameFor found mappedLeaf,
      ⟨remapped.forest, ready.active, ready.base, kernelAfter, windowAfter, trivial⟩, shownAfter, ?_, ?_, ?_⟩
    · apply PageTable.translateToPhys_missing frameForAfter
      rw [page.forAddress_startAddress, follow_path]
      exact (congrArg PageTableEntry.getFrame remapped.leaf).trans PageTableEntry.getFrame_zero
    · exact isUnused_value frameForAfter remapped.leaf
    · intro root member other bound different
      apply remapped.others root member other
      · intro equal
        exact different (Page.eq_of_path bound small equal)
      · exact Set.notMem_empty _

end Laws

/-- The slots of a region that are still unused are ready. -/
theorem Region.supply {mc : MemoryController} {roots : Set Nat} {kernel mapped count : Nat} {frameOf : Nat → Nat}
    {held : Reserve} (region : Region mc roots kernel frameOf mapped held) {allocator : PageTableSlotAllocator}
    (empty : allocator.freeSlots = []) (late : mc.slotAllocator.lastPml1Slot ≤ allocator.lastPml1Slot)
    (room : allocator.lastPml1Slot + count ≤ mapped)
    (calm : allocator.lastPml1Slot + count ≤ 509 ∨ 510 ≤ allocator.lastPml1Slot) :
    Supply mc roots kernel allocator ((List.range' allocator.lastPml1Slot count).map frameOf) := by
  induction count generalizing allocator with
  | zero => trivial
  | succ count ih =>
    have last := region.last
    obtain ⟨apart, zero⟩ := region.unused allocator.lastPml1Slot late (by omega)
    have next : allocator.nextSlot = slotAddr allocator.lastPml1Slot := by
      unfold PageTableSlotAllocator.nextSlot
      rw [empty]
      rfl
    have taken : allocator.taken.freeSlots = [] ∧ allocator.taken.lastPml1Slot = allocator.lastPml1Slot + 1 := by
      unfold PageTableSlotAllocator.taken
      rw [empty]
      exact ⟨rfl, rfl⟩
    rw [List.range'_succ, List.map_cons]
    refine ⟨?_, fun _ => zero, ?_, ?_, ?_⟩
    · rw [next]
      exact region.freeSlot (by omega) (by omega) apart
    · rintro ⟨_, extends_⟩
      omega
    · intro member
      obtain ⟨slot, inside, same⟩ := List.mem_map.mp member
      have range := List.mem_range'_1.mp inside
      have equal := region.injective slot (by omega) allocator.lastPml1Slot (by omega) same
      omega
    · have rest := ih taken.1 (by omega) (by omega) (by omega)
      rw [taken.2] at rest
      exact rest

/-- The kernel has just left the boot with cleared memory. -/
def freshController : MemoryController := .bootOver (fun _ _ => 0) 16 100000 ⟨⟨⟨0x401000⟩, ⟨0x401FFF⟩⟩, []⟩

theorem freshController_slotRegion : SlotRegion freshController {16} 16 (16 + ·) 512 (fun _ => none) False :=
  bootOver_slotRegion (by decide) (by decide) _ fun _ _ _ _ => rfl

/-- The first page of an empty tree is mapped with three new tables. -/
theorem map_translate_first_page :
    ∃ after window, PageTableSlotAllocator.getPml4.mapTo PageTableSlotAllocator.alloc ⟨0⟩ 7 .writable freshController =
        (.value (), after) ∧
      PageTableSlotAllocator.getPml4.translateToPhys 0 after = (.value 7, after.windowed window) := by
  have region := freshController_slotRegion.region
  have ready : Ready freshController {16} 16 ((List.range' 5 3).map (16 + ·)) :=
    ⟨region.forest, region.active, region.base, region.kernelAt, region.window,
      region.supply rfl (Nat.le_refl 5) (by decide) (.inl (by decide))⟩
  have absent : links freshController.memory 16 (Page.mk 0).p4Index = none := by decide +kernel
  have enough : ((List.range' 5 3).map (16 + ·)).length = missing (links freshController.memory) 16 (Page.mk 0).upperPath := by
    rw [Page.upperPath, missing_none absent]
    rfl
  have outside (addr : Nat) (inside : freshController.InRegion addr) : Page.forAddress addr ≠ ⟨0⟩ := by
    intro same
    have low : 118536802402304 ≤ addr := inside.1
    have zero : addr / 4096 = 0 := congrArg Page.pageNumber same
    omega
  have laws := @map_translate_unmap freshController {16} 16 16 7 PageTableSlotAllocator.getPml4 ⟨0⟩ .writable _ ready
    (Set.mem_singleton 16) region.kernelAt enough ⟨Nat.le_refl _, by decide, by decide⟩ (by decide)
    outside (by decide) (by unfold EntryFlags.Known; decide)
  obtain ⟨after, mapped, _, _, ⟨window, translated⟩, _⟩ := laws.1
  exact ⟨after, window, mapped, translated⟩

end BubbleOs.Paging
