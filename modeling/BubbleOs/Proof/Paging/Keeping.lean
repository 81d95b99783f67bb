import BubbleOs.Proof.Mem.Slots
import BubbleOs.Proof.Paging.Boot

namespace BubbleOs.Paging

open Attempt MemoryController PageTableSlotAllocator

/-- The page is not in the gibibyte of the slot region. -/
def Page.OutsideRegion (page : Page) : Prop := page.pageNumber < 28939649024 ∨ 28939649024 + 262144 ≤ page.pageNumber

theorem Page.OutsideRegion.path_ne {page : Page} (outside : page.OutsideRegion) (small : page.pageNumber < 2 ^ 36) {slot : Nat}
    (bound : slot < 262144) : (slotPage slot).path ≠ page.path := by
  intro same
  have equal := congrArg Page.pageNumber (Page.eq_of_path (slotPage_small bound) small same)
  change 28939649024 + slot = page.pageNumber at equal
  rw [OutsideRegion] at outside
  omega

/-- A page is mapped in the active table without a need for slots that are not there. -/
structure MemoryController.Mappable (mc : MemoryController) (page : Page) (frame : Nat) (flags : EntryFlags) : Prop where
  supplies : mc.Supplies mc.Blank (missing (links mc.memory) mc.cr3 page.upperPath)
  safe : links mc.memory mc.cr3 page.p4Index ≠ none → follow (links mc.memory) mc.cr3 page.upperPath = none →
    ¬ mc.slotAllocator.Extends
  small : page.pageNumber < 2 ^ 36
  outside : page.OutsideRegion
  supported : frame * pageSize < 0x10000000000000
  known : flags.Known

section Mapping

variable {mc : MemoryController} {roots : Set Nat} {kernel home mapped last target frame : Nat} {frameOf : Nat → Nat}
  {data : Nat → Option (TableIndex → Word)} {blank : Prop} {page : Page} {flags : EntryFlags} {frameLater : Nat → Nat}
  {mappedLater : Nat}

/-- A change of one entry behind the region keeps the region. -/
theorem SlotRegion.leaf (slots : SlotRegion mc roots kernel frameOf mapped data blank) (inside : home ∈ roots)
    (found : follow (links mc.memory) home page.upperPath = some last) (small : page.pageNumber < 2 ^ 36)
    (outside : page.OutsideRegion) (supported : target * pageSize < 0x10000000000000) (word : PageTableEntry) :
    SlotRegion (MemoryController.windowed { mc with memory := mc.memory.write last page.p1Index word } target) roots kernel
      frameOf mapped data blank := by
  have region := slots.region
  have bound := region.bound
  have remapped : Remapped roots mc.memory (mc.memory.write last page.p1Index word) home page word ∅ ∅ :=
    .of_grown inside region.forest (.refl roots mc.memory) found
  have same : SameMachine mc
      (MemoryController.windowed { mc with memory := mc.memory.write last page.p1Index word } target) := ⟨rfl, rfl, rfl, rfl, rfl⟩
  refine ⟨?_, ?_, slots.phase⟩
  · apply region.transfer same remapped.forest supported rfl _ _ remapped.onlyNew remapped.untouched
      (fun frame none => absurd none (Set.notMem_empty frame)) (fun _ member => member) region.distinct
      ⟨Nat.le_refl _, region.last.2⟩
    · intro root member slot small' _ frame reached
      exact remapped.access root member (slotPage slot) (outside.path_ne small (by omega)) frame reached
    · intro root member
      rw [memory_windowed, region.forest.follow_last inside page.upperPath_length found member (by decide)]
      exact follow_mono writableLinks_weaker (region.shared root member)
  · intro root member slot behind high
    rw [memory_windowed, remapped.others root member _ (outside.path_ne small high) (Set.notMem_empty _)]
    exact slots.vacant root member slot behind high

/-- The slots keep their frames while the tables grow. -/
theorem Region.same_frames {mc after : MemoryController} {held kept : Reserve} {used : Set Nat}
    {added : Set (List TableIndex)} (region : Region mc roots kernel frameOf mapped held)
    (later : Region after roots kernel frameLater mappedLater kept)
    (grown : Grown roots mc.memory after.memory used added) (larger : mapped ≤ mappedLater) {slot : Nat}
    (inside : slot < mapped) (shown : slot ≠ 4) : frameLater slot = frameOf slot := by
  have old := grown.known kernel region.base _ _ (region.known inside shown)
  exact Option.some.inj ((later.known (by omega) shown).symm.trans old)

/-- The region does not shrink. -/
theorem SlotRegion.larger {after : MemoryController} {others : Set Nat} {kept : Nat → Option (TableIndex → Word)}
    {clean : Prop} (slots : SlotRegion mc roots kernel frameOf mapped data blank)
    (later : SlotRegion after others kernel frameLater mappedLater kept clean)
    (further : mc.slotAllocator.lastPml1Slot ≤ after.slotAllocator.lastPml1Slot) : mapped ≤ mappedLater := by
  rcases slots.phase with ⟨rfl, _⟩ | ⟨rfl, late⟩
  · exact later.region.bound.1
  · rcases later.phase with ⟨_, early, _⟩ | ⟨rfl, _⟩
    · omega
    · exact Nat.le_refl _

/-- The active table maps the page, and only slots are added besides. -/
structure Mapped (mc after : MemoryController) (roots : Set Nat) (page : Page) (frame : Nat) (flags : EntryFlags) : Prop where
  same : SameMachine mc after
  leaf : ∃ word, leafEntry after.memory mc.cr3 page = word ∧ PageTableEntry.getFrame word = some frame ∧
    PageTableEntry.flags word = flags ||| .present
  others : ∀ root ∈ roots, ∀ other : Page, other.path ≠ page.path → other.path ∉ slotPaths 1025 →
    leafEntry after.memory root other = leafEntry mc.memory root other

/-- A page is mapped, also when the region is extended for its tables. -/
theorem SlotRegion.mapTo (slots : SlotRegion mc roots kernel frameOf mapped data blank)
    (shown : mc.SlotAt mc.activeTable.addr mc.cr3) (fits : mc.Mappable page frame flags) :
    ∃ after frameLater mappedLater,
      mc.activeTable.mapTo alloc page frame flags mc = (.value (), after) ∧
      SlotRegion after roots kernel frameLater mappedLater data mc.Blank ∧ mapped ≤ mappedLater ∧
      (∀ slot < mapped, slot ≠ 4 → frameLater slot = frameOf slot) ∧
      PageTableSlotAllocator.Grows mc.slotAllocator after.slotAllocator ∧ Mapped mc after roots page frame flags := by
  have region := slots.region
  obtain ⟨word, made⟩ := ofFrame_some fits.supported (flags ||| .present)
  have allKnown : EntryFlags.Known (flags ||| .present) := fits.known.or (by unfold EntryFlags.Known; decide)
  have source : TableSource alloc roots kernel (slotPaths 1025)
      fun count later =>
        (∃ frameOf mapped, SlotRegion later roots kernel frameOf mapped data mc.Blank) ∧ later.Supplies mc.Blank count :=
    alloc_source (allocWith_serves halt roots kernel)
  obtain ⟨middle, last, used, added, mapping, ⟨⟨frameLater, mappedLater, later⟩, _⟩, same, grown, allowed, found, _⟩ :=
    mapTo_spec source region.active shown ⟨⟨frameOf, mapped, slots.reblank id⟩, fits.supplies⟩ fits.safe made
  have remapped : Remapped roots mc.memory (middle.memory.write last page.p1Index word) mc.cr3 page word used added :=
    .of_grown region.active later.region.forest grown found
  have grows : PageTableSlotAllocator.Grows _ _ :=
    mapTo_moves steady mc.activeTable page frame flags (alloc_moves steady grows_moves) mc
  rw [mapping] at grows
  have larger := slots.larger later grows.last
  refine ⟨_, frameLater, mappedLater, mapping, ?_, larger, ?_, grows, ?_⟩
  · exact later.leaf region.active found fits.small fits.outside later.region.window word
  · exact fun slot inside shown => region.same_frames later.region grown larger inside shown
  · refine ⟨same.trans ⟨rfl, rfl, rfl, rfl, rfl⟩, ⟨word, remapped.leaf, ?_, ?_⟩, ?_⟩
    · exact PageTableEntry.getFrame_ofFrame made allKnown (EntryFlags.contains_or_right (EntryFlags.contains_self _))
    · exact PageTableEntry.flags_ofFrame made allKnown
    · exact fun root member other different outside =>
        remapped.others root member other different fun new => outside (allowed new)

end Mapping

section Window

/-- The window moves from a supported frame to a supported frame. -/
def Supported (before after : Nat) : Prop := before * pageSize < 0x10000000000000 → after * pageSize < 0x10000000000000

instance : IsPreorder Nat Supported where
  refl _ small := small
  trans _ _ _ first second small := second (first small)

theorem set_window (frame : Nat) : Moves (fun mc => mc.tempMapper.frame) Supported (TempMapper.set frame) := by
  intro mc small
  rw [TempMapper.set]
  split
  · rename_i made
    rw [PageTableEntry.ofFrame] at made
    split at made
    · assumption
    · cases made
  · exact small

theorem nextTableTemp_window (table : PageTable) (index : TableIndex) :
    Moves (fun mc => mc.tempMapper.frame) Supported (table.nextTableTemp index) := by
  rw [PageTable.nextTableTemp]
  refine (readEntry_moves table index).bind fun entry => ?_
  split
  · exact .fail
  · exact (Moves.ofOption _).bind fun frame => (set_window frame).bind fun _ => .pure _

theorem lastTable_window (table : PageTable) (page : Page) :
    Moves (fun mc => mc.tempMapper.frame) Supported (table.lastTable page) :=
  (nextTableTemp_window table _).bind fun pml3 =>
    (nextTableTemp_window pml3 _).bind fun pml2 => nextTableTemp_window pml2 _

theorem isUnused_window (table : PageTable) (page : Page) :
    Moves (fun mc => mc.tempMapper.frame) Supported (table.isUnused page) := by
  rw [PageTable.isUnused]
  refine (lastTable_window table page).orNone.bind fun found => ?_
  cases found with
  | none => exact .pure _
  | some pml1 => exact (readEntry_moves pml1 _).bind fun _ => .pure _

theorem translateToPhys_window (table : PageTable) (addr : Nat) :
    Moves (fun mc => mc.tempMapper.frame) Supported (table.translateToPhys addr) :=
  (lastTable_window table _).bind fun pml1 => (readEntry_moves pml1 _).bind fun _ => Moves.ofOption _

end Window

section Roots

variable {memory : Memory} {roots : Set Nat} {kernel fresh root frame : Nat} {path : List TableIndex}

/-- A copied table leads to the tables of its source. -/
theorem follow_copy {next : Nat → TableIndex → Option Nat} (same : next fresh = next kernel) (index : TableIndex)
    (rest : List TableIndex) : follow next fresh (index :: rest) = follow next kernel (index :: rest) := by
  rw [follow_cons, follow_cons, same]

theorem follow_insert (same : memory fresh = memory kernel) (base : kernel ∈ roots) (inside : root ∈ insert fresh roots)
    (found : follow (links memory) root path = some frame) :
    (root = fresh ∧ path = [] ∧ frame = fresh) ∨ ∃ other ∈ roots, follow (links memory) other path = some frame := by
  rcases inside with rfl | member
  · cases path with
    | nil => exact .inl ⟨rfl, rfl, (Option.some.inj found).symm⟩
    | cons index rest =>
      have linked : links memory root = links memory kernel := by
        funext index
        rw [links, links, same]
      rw [follow_copy linked] at found
      exact .inr ⟨kernel, base, found⟩
  · exact .inr ⟨root, member, found⟩

theorem held_insert (same : memory fresh = memory kernel) (base : kernel ∈ roots) (held : Held memory (insert fresh roots) frame) :
    frame = fresh ∨ Held memory roots frame := by
  obtain ⟨root, inside, path, short, found⟩ := held
  rcases follow_insert same base inside found with ⟨_, _, equal⟩ | ⟨other, member, reached⟩
  · exact .inl equal
  · exact .inr ⟨other, member, path, short, reached⟩

/-- A copy of a root is one more root. -/
theorem Forest.addRoot (forest : Forest memory roots) (same : memory fresh = memory kernel) (base : kernel ∈ roots)
    (apart : Apart memory roots fresh) : Forest memory (insert fresh roots) where
  planted := by
    intro first firstRoot second secondRoot one two table short brief onePath twoPath
    rcases follow_insert same base firstRoot onePath with ⟨_, rfl, rfl⟩ | ⟨other, member, reached⟩
    · rcases follow_insert same base secondRoot twoPath with ⟨_, rfl, _⟩ | ⟨other, member, reached⟩
      · rfl
      · exact absurd reached (apart other member two brief)
    · rcases follow_insert same base secondRoot twoPath with ⟨_, rfl, rfl⟩ | ⟨another, inside, arrived⟩
      · exact absurd reached (apart other member one short)
      · exact forest.planted other member another inside one two table short brief reached arrived
  upper := by
    intro root inside path high frame found index
    rcases follow_insert same base inside found with ⟨_, rfl, rfl⟩ | ⟨other, member, reached⟩
    · rw [links, same]
      exact forest.upper kernel base [] (Nat.zero_le 2) kernel rfl index
    · exact forest.upper other member path high frame reached index

theorem Forest.restrict {fewer : Set Nat} (forest : Forest memory roots) (sub : fewer ⊆ roots) : Forest memory fewer where
  planted first firstRoot second secondRoot := forest.planted first (sub firstRoot) second (sub secondRoot)
  upper root inside := forest.upper root (sub inside)

end Roots

section Region

variable {mc : MemoryController} {roots fewer : Set Nat} {kernel mapped frame : Nat} {frameOf : Nat → Nat} {held : Reserve}
  {data : Nat → Option (TableIndex → Word)} {blank : Prop}

variable (slots : SlotRegion mc roots kernel frameOf mapped data blank)

include slots

/-- A slot in use becomes the table of a process. -/
theorem SlotRegion.addRoot {slot : Nat} (inside : slot < mapped) (early : slot < mc.slotAllocator.lastPml1Slot)
    (unfree : slotAddr slot ∉ mc.slotAllocator.freeSlots) (apart : Apart mc.memory roots (frameOf slot))
    (same : mc.memory (frameOf slot) = mc.memory kernel) :
    SlotRegion mc (insert (frameOf slot) roots) kernel frameOf mapped data blank := by
  have region := slots.region
  have base := region.base
  have keep {other : Nat} (old : Apart mc.memory roots other) (different : other ≠ frameOf slot) :
      Apart mc.memory (insert (frameOf slot) roots) other := by
    rw [apart_iff]
    intro held
    rcases held_insert same base held with equal | before
    · exact different equal
    · exact apart_iff.mp old before
  have writable : writableLinks mc.memory (frameOf slot) = writableLinks mc.memory kernel := by
    funext index
    rw [writableLinks, writableLinks, links, links, same]
  have linked : links mc.memory (frameOf slot) = links mc.memory kernel := by
    funext index
    rw [links, links, same]
  refine ⟨?_, ?_, slots.phase⟩
  · exact {
      region with
      forest := region.forest.addRoot same base apart
      active := .inr region.active
      base := .inr base
      shared := by
        rintro root (rfl | member)
        · have front : regionPath = (slotPage 0).p4Index :: [(slotPage 0).p3Index] := rfl
          rw [front, follow_copy writable, ← front]
          exact region.shared kernel base
        · exact region.shared root member
      slots := by
        rintro root (rfl | member) other small shown
        · rw [Page.path, follow_copy writable]
          exact region.slots kernel base other small shown
        · exact region.slots root member other small shown
      free := by
        intro addr member
        obtain ⟨other, rfl, high, low, unheld, old⟩ := region.free addr member
        refine ⟨other, rfl, high, low, unheld, keep old fun equal => ?_⟩
        have last := region.last
        rw [region.injective other (by omega) slot inside equal] at member
        exact unfree member
      unused := by
        intro other late small
        obtain ⟨old, zero⟩ := region.unused other late small
        refine ⟨keep old fun equal => ?_, zero⟩
        have equal := region.injective other small slot inside equal
        omega
      kept := fun _ member => absurd member List.not_mem_nil
      frames := by
        intro other available
        obtain ⟨old, zero, foreign, small⟩ := region.frames other available
        exact ⟨keep old fun equal => foreign slot inside equal.symm, zero, foreign, small⟩
      stored := by
        intro other words known
        obtain ⟨old, stored, unavailable, small, low, foreign⟩ := region.stored other words known
        exact ⟨keep old fun equal => foreign slot inside equal.symm, stored, unavailable, small, low, foreign⟩ }
  · rintro root (rfl | member) other behind high
    · have upper : (slotPage other).upperPath =
          (slotPage other).p4Index :: [(slotPage other).p3Index, (slotPage other).p2Index] := rfl
      rw [leafEntry, upper, follow_copy linked, ← upper]
      exact slots.vacant kernel base other behind high
    · exact slots.vacant root member other behind high

/-- Fewer roots keep the region. -/
theorem SlotRegion.restrict (sub : fewer ⊆ roots) (active : mc.cr3 ∈ fewer) (base : kernel ∈ fewer) :
    SlotRegion mc fewer kernel frameOf mapped data blank := by
  have region := slots.region
  have keep {other : Nat} (old : Apart mc.memory roots other) : Apart mc.memory fewer other :=
    fun root inside => old root (sub inside)
  refine ⟨?_, fun root inside => slots.vacant root (sub inside), slots.phase⟩
  exact {
    region with
    forest := region.forest.restrict sub
    active := active
    base := base
    shared := fun root inside => region.shared root (sub inside)
    slots := fun root inside => region.slots root (sub inside)
    free := by
      intro addr member
      obtain ⟨slot, equal, high, low, unheld, old⟩ := region.free addr member
      exact ⟨slot, equal, high, low, unheld, keep old⟩
    unused := fun slot late inside => (region.unused slot late inside).imp_left keep
    kept := nofun
    frames := fun frame available => (region.frames frame available).imp_left keep
    stored := fun frame words known => (region.stored frame words known).imp_left keep }

/-- Another table becomes active. -/
theorem SlotRegion.switched {window root : Nat} (table : PageTable) (small : window * pageSize < 0x10000000000000)
    (inside : root ∈ roots) :
    SlotRegion { mc.windowed window with cr3 := root, activeTable := table } roots kernel frameOf mapped data blank :=
  ⟨{ slots.region with
      active := inside
      window := small }, slots.vacant, slots.phase⟩

theorem SlotRegion.windowed {window : Nat} (small : window * pageSize < 0x10000000000000) :
    SlotRegion (mc.windowed window) roots kernel frameOf mapped data blank :=
  ⟨{ slots.region with window := small }, slots.vacant, slots.phase⟩

/-- A frame that was handed out may hold other words. -/
theorem SlotRegion.store {words new : TableIndex → Word} (known : data frame = some words) {later : Memory}
    (here : later frame = new) (others : ∀ other, other ≠ frame → later other = mc.memory other) :
    SlotRegion { mc with memory := later } roots kernel frameOf mapped (Function.update data frame (some new)) blank := by
  have region := slots.region
  obtain ⟨apart, _, unavailable, supported, low, foreign⟩ := region.stored frame words known
  have untouched := Untouched.of_apart apart others
  refine ⟨?_, ?_, slots.phase⟩
  · exact {
      region with
      forest := untouched.forest region.forest
      shared := by
        intro root inside
        rw [untouched.follow_writableLinks inside (by decide)]
        exact region.shared root inside
      slots := by
        intro root inside slot small shown
        rw [untouched.follow_writableLinks inside (slotPage slot).path_length.le]
        exact region.slots root inside slot small shown
      free := by
        intro addr member
        obtain ⟨slot, equal, high, early, unheld, old⟩ := region.free addr member
        exact ⟨slot, equal, high, early, unheld, untouched.apart old⟩
      unused := by
        intro slot late inside
        obtain ⟨old, zero⟩ := region.unused slot late inside
        refine ⟨untouched.apart old, fun index => ?_⟩
        dsimp only
        rw [others _ (foreign slot inside)]
        exact zero index
      kept := nofun
      frames := by
        intro other available
        obtain ⟨old, zero, distinct, small⟩ := region.frames other available
        refine ⟨untouched.apart old, fun clean index => ?_, distinct, small⟩
        dsimp only
        rw [others _ (by rintro rfl; exact unavailable available)]
        exact zero clean index
      stored := by
        intro other contents stored
        dsimp only at stored
        by_cases equal : other = frame
        · subst equal
          rw [Function.update_self, Option.some.injEq] at stored
          exact ⟨untouched.apart apart, here.trans stored, unavailable, supported, low, foreign⟩
        · rw [Function.update_of_ne equal] at stored
          obtain ⟨old, same, gone, small, below, distinct⟩ := region.stored other contents stored
          exact ⟨untouched.apart old, (others other equal).trans same, gone, small, below, distinct⟩ }
  · intro root inside slot behind high
    dsimp only
    rw [untouched.leafEntry_eq inside]
    exact slots.vacant root inside slot behind high

/-- A frame from the allocator is handed out. -/
theorem SlotRegion.falloc {rest : SimplePageFrameAllocator} (available : mc.frameAllocator.Available frame)
    (gone : ¬ rest.Available frame) (below : frame ≤ rest.frameHead)
    (region : Region { mc with frameAllocator := rest } roots kernel frameOf mapped ⟨[], data, blank⟩) :
    SlotRegion { mc with frameAllocator := rest } roots kernel frameOf mapped
      (Function.update data frame (some (mc.memory frame))) blank := by
  obtain ⟨apart, _, foreign, small⟩ := slots.region.frames frame available
  refine ⟨{ region with stored := ?_, kept := nofun, free := region.free }, slots.vacant, slots.phase⟩
  intro other words known
  dsimp only at known
  by_cases equal : other = frame
  · subst equal
    rw [Function.update_self, Option.some.injEq] at known
    exact ⟨apart, known, gone, small, below, foreign⟩
  · rw [Function.update_of_ne equal] at known
    exact region.stored other words known

/-- A frame goes back to the allocator. -/
theorem SlotRegion.freeFrame {words : TableIndex → Word} (known : data frame = some words)
    (clean : blank → ∀ index, words index = 0) :
    SlotRegion { mc with
      frameAllocator := { mc.frameAllocator with freeFrames := frame :: mc.frameAllocator.freeFrames } } roots kernel frameOf
      mapped (Function.update data frame none) blank := by
  have region := slots.region
  obtain ⟨apart, same, unavailable, small, low, foreign⟩ := region.stored frame _ known
  refine ⟨{ region with frames := ?_, freed := ?_, stored := ?_, kept := nofun, free := region.free }, slots.vacant, slots.phase⟩
  · rintro other (member | above)
    · rcases List.mem_cons.mp member with rfl | before
      · exact ⟨apart, fun holds index => (congrFun same index).trans (clean holds index), foreign, small⟩
      · exact region.frames other (.inl before)
    · exact region.frames other (.inr above)
  · refine ⟨List.nodup_cons.mpr ⟨fun member => unavailable (.inl member), region.freed.1⟩, fun other member => ?_⟩
    rcases List.mem_cons.mp member with rfl | before
    · exact low
    · exact region.freed.2 other before
  · intro other words stored
    dsimp only at stored
    have different : other ≠ frame := by
      rintro rfl
      rw [Function.update_self] at stored
      contradiction
    rw [Function.update_of_ne different] at stored
    obtain ⟨old, same, gone, supported, below, distinct⟩ := region.stored other words stored
    refine ⟨old, same, ?_, supported, below, distinct⟩
    rintro (member | above)
    · rcases List.mem_cons.mp member with equal | before
      · exact different equal
      · exact gone (.inl before)
    · exact gone (.inr above)

/-- The slot of a table without a place in the trees goes back to the allocator. -/
theorem SlotRegion.freeSlot {slot : Nat} (high : 4 < slot) (early : slot < mc.slotAllocator.lastPml1Slot)
    (unfree : slotAddr slot ∉ mc.slotAllocator.freeSlots) (apart : Apart mc.memory roots (frameOf slot)) (count : Nat) :
    SlotRegion { mc with
      slotAllocator :=
        { mc.slotAllocator with
          freeSlots := slotAddr slot :: mc.slotAllocator.freeSlots
          allocatedPageTables := count } } roots kernel frameOf mapped data blank := by
  have region := slots.region
  refine ⟨{ region with distinct := ?_, free := ?_ }, slots.vacant, slots.phase⟩
  · exact List.nodup_cons.mpr ⟨unfree, region.distinct⟩
  · intro addr member
    rcases List.mem_cons.mp member with rfl | before
    · exact ⟨slot, rfl, high, early, List.not_mem_nil, apart⟩
    · exact region.free addr before

end Region

section Calls

variable {mc : MemoryController} {roots : Set Nat} {kernel mapped : Nat} {frameOf : Nat → Nat}
  {data : Nat → Option (TableIndex → Word)} {blank : Prop}

variable (slots : SlotRegion mc roots kernel frameOf mapped data blank)

include slots

/-- An unmapped page leaves the region and the machine alone. -/
theorem SlotRegion.unmap (shown : mc.SlotAt mc.activeTable.addr mc.cr3) {page : Page}
    (small : page.pageNumber < 2 ^ 36) (outside : page.OutsideRegion) :
    ∃ outcome after, mc.activeTable.unmap page mc = (outcome, after) ∧ SlotRegion after roots kernel frameOf mapped data blank ∧
      SameMachine mc after ∧ after.slotAllocator = mc.slotAllocator := by
  have region := slots.region
  have frameFor := Shows.frameFor (.inr shown) region.forest region.active
  cases found : follow (links mc.memory) mc.cr3 page.upperPath with
  | none =>
    obtain ⟨window, missing⟩ := PageTable.lastTable_missing frameFor found
    have supported := lastTable_window mc.activeTable page mc region.window
    rw [missing] at supported
    exact ⟨_, _, bind_missing missing _, slots.windowed supported, ⟨rfl, rfl, rfl, rfl, rfl⟩, rfl⟩
  | some last =>
    have supported := follow_supported found (by rw [page.upperPath_length]; decide)
    cases stored : PageTableEntry.getFrame (mc.memory last page.p1Index) with
    | none =>
      refine ⟨.missing, mc.windowed last, ?_, slots.windowed supported, ⟨rfl, rfl, rfl, rfl, rfl⟩, rfl⟩
      rw [PageTable.unmap, bind_value (PageTable.lastTable_found frameFor found),
        bind_value (PageTable.readEntry_window last page.p1Index), stored, ofOption_none, fail_bind_apply]
    | some frame =>
      exact ⟨_, _, unmap_value frameFor found stored, slots.leaf region.active found small outside supported 0,
        ⟨rfl, rfl, rfl, rfl, rfl⟩, rfl⟩

/-- A switch makes the table of a slot active. -/
theorem SlotRegion.switchTable (shown : mc.SlotAt mc.activeTable.addr mc.cr3) {slot : Nat} (inside : slot < mapped)
    (visible : slot ≠ 4) (root : frameOf slot ∈ roots) :
    ∃ window, MemoryController.switchTable ⟨slotAddr slot⟩ mc =
        (.value mc.activeTable, { mc.windowed window with cr3 := frameOf slot, activeTable := ⟨slotAddr slot⟩ }) ∧
      SlotRegion { mc.windowed window with cr3 := frameOf slot, activeTable := ⟨slotAddr slot⟩ } roots kernel frameOf mapped
        data blank := by
  have region := slots.region
  have frameFor := Shows.frameFor (.inr shown) region.forest region.active
  have reached := follow_mono writableLinks_weaker (region.slots mc.cr3 region.active slot inside visible)
  rw [← forAddress_slotAddr] at reached
  obtain ⟨window, translated⟩ := PageTable.translateToPhys_found frameFor reached
  have supported := translateToPhys_window mc.activeTable (slotAddr slot) mc region.window
  rw [translated] at supported
  refine ⟨window, ?_, slots.switched _ supported root⟩
  have low : ¬ slotAddr slot < pageTableRegionStart := Nat.not_lt.mpr (Nat.le_add_right _ _)
  rw [MemoryController.switchTable, if_neg low, get_bind, bind_value translated, get_bind, put_bind, pure_apply]

/-- The copy of the kernel table becomes one more root. -/
theorem SlotRegion.cloneKernelTable (supplies : mc.Supplies mc.Blank 1)
    (kernelAddr : mc.kernelTable.addr = slotAddr 0) :
    ∃ slot after frameLater mappedLater, MemoryController.cloneKernelTable mc = (.value ⟨slotAddr slot⟩, after) ∧
      SlotRegion after (insert (frameLater slot) roots) kernel frameLater mappedLater data mc.Blank ∧ mapped ≤ mappedLater ∧
      (∀ other < mapped, other ≠ 4 → frameLater other = frameOf other) ∧ SameMachine mc after ∧
      PageTableSlotAllocator.Grows mc.slotAllocator after.slotAllocator ∧
      4 < slot ∧ slot < after.slotAllocator.lastPml1Slot ∧ slotAddr slot ∉ after.slotAllocator.freeSlots := by
  have region := slots.region
  obtain ⟨slot, between, frameLater, mappedLater, used, added, allocated, _, _, _, ⟨high, early, unfree⟩, kept⟩ :=
    (slots.reblank id).allocate (allocWith_serves halt roots kernel) supplies
  have active : between.cr3 ∈ roots := by
    rw [allocated.same.cr3]
    exact region.active
  have apart := allocated.free.apart
  have base : Held between.memory roots kernel := ⟨kernel, region.base, [], Nat.zero_le 3, rfl⟩
  have different : kernel ≠ frameLater slot := by
    rintro same
    rw [← same] at apart
    exact apart_iff.mp apart base
  have others (other : Nat) (distinct : other ≠ frameLater slot) :
      between.memory.copyFrame kernel (frameLater slot) other = between.memory other := by
    funext index
    exact if_neg distinct
  have untouched := Untouched.of_apart apart others
  have copied : copyPage between.kernelTable.addr (slotAddr slot) between =
      (.value (), { between with memory := between.memory.copyFrame kernel (frameLater slot) }) := by
    have source := Shows.frameFor (.inr allocated.kernelAt) allocated.forest active
    have target := Shows.frameFor (.inr allocated.free.slot) allocated.forest active
    have first : between.kernelTable.addr = pageTableRegionStart := by
      rw [allocated.same.kernelTable, kernelAddr]
      rfl
    simp only [copyPage, first, source, target]
  have cloned : MemoryController.cloneKernelTable mc = (.value ⟨slotAddr slot⟩,
      { between with memory := between.memory.copyFrame kernel (frameLater slot) }) := by
    have returned : PageTableSlotAllocator.alloc mc = (.value (slotAddr slot), between) := allocated.returned
    rw [MemoryController.cloneKernelTable, bind_value returned, get_bind, bind_value copied, pure_apply]
  have grown : Grown roots between.memory (between.memory.copyFrame kernel (frameLater slot))
      (Set.singleton (frameLater slot)) ∅ := .apart apart others
  obtain ⟨later, _⟩ := kept _ (untouched.forest allocated.forest) grown
  have grows : PageTableSlotAllocator.Grows _ _ := cloneKernelTable_slots PageTableSlotAllocator.grows_moves mc
  rw [cloned] at grows
  have larger := slots.larger later grows.last
  have inside : slot < mappedLater := Nat.lt_of_lt_of_le early later.region.last.2
  refine ⟨slot, _, frameLater, mappedLater, cloned, ?_, larger, ?_, ?_, grows, high, early, unfree⟩
  · apply later.addRoot inside early unfree
    · exact untouched.apart apart
    · funext index
      exact (if_pos rfl).trans (congrFun (others kernel different) index).symm
  · exact fun other small shown => region.same_frames later.region (allocated.grown.trans grown) larger small shown
  · exact allocated.same.trans ⟨rfl, rfl, rfl, rfl, rfl⟩

end Calls

end BubbleOs.Paging
