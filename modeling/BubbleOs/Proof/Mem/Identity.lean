import BubbleOs.Proof.Paging.Session

namespace BubbleOs.Paging

open Attempt MemoryController

namespace PagingSession

variable {ram : Memory} {base memEnd : Nat} {stackAllocator : StackAllocator} {session : PagingSession} {frameOf : Nat → Nat}
  {mapped : Nat} {page : Page} {frame : Nat}

/-- The next slot is mapped in the kernel table, was not in use and is blank. -/
theorem Sound.alloc (sound : session.Sound frameOf mapped) (supplies : session.mc.Supplies session.mc.Blank 1) :
    ∃ slot frame after, PageTableSlotAllocator.alloc session.mc = (.value (slotAddr slot), after) ∧
      (∃ window, PageTableSlotAllocator.getPml4.translateToPhys (slotAddr slot) after = (.value frame, after.windowed window)) ∧
      after.frameFor (slotAddr slot) = some (frame, true) ∧ (∀ index, after.memory frame index = 0) ∧
      ¬ session.mc.slotAllocator.InUse (slotAddr slot) ∧ after.slotAllocator.InUse (slotAddr slot) ∧
      slotAddr slot ≠ session.mc.tempMapper.tempAddr := by
  have region := sound.slots.region
  obtain ⟨slot, after, frameLater, mappedLater, used, added, allocated, _, _, _, ⟨high, _⟩, _⟩ :=
    (sound.slots.reblank id).allocate (allocWith_serves halt _ _) supplies
  have active : after.cr3 ∈ rootsOf frameOf session.tables := by
    rw [allocated.same.cr3]
    exact region.active
  have returned : PageTableSlotAllocator.alloc session.mc = (.value (slotAddr slot), after) := allocated.returned
  have fresh := PageTableSlotAllocator.alloc_fresh sound.allocator returned
  have kernelAt := Shows.frameFor (.inr allocated.kernelAt) allocated.forest active
  refine ⟨slot, frameLater slot, after, returned, ?_, ?_, allocated.cleared, fresh.1, fresh.2, ?_⟩
  · exact PageTable.translateToPhys_found kernelAt allocated.free.known
  · exact Shows.frameFor (.inr allocated.free.slot) allocated.forest active
  · rw [region.tempAddr]
    intro same
    have equal := slotAddr_inj same
    omega

/-- The page is mapped, and every table keeps its other pages apart from new slots. -/
theorem Sound.mapTo_laws (sound : session.Sound frameOf mapped) {flags : EntryFlags}
    (fits : session.mc.Mappable page frame flags) :
    ∃ after, session.mc.activeTable.mapTo PageTableSlotAllocator.alloc page frame flags session.mc = (.value (), after) ∧
      (∃ window, session.mc.activeTable.translateToPhys page.startAddress after = (.value frame, after.windowed window)) ∧
      ∀ addr ∈ session.tables, ∀ root, session.mc.SlotAt addr root → ∀ other : Page, other.pageNumber < 2 ^ 36 →
        other ≠ page → other.path ∉ slotPaths 1025 → leafEntry after.memory root other = leafEntry session.mc.memory root other := by
  obtain ⟨after, frameLater, mappedLater, mapping, later, _, same, grows, done⟩ := sound.slots.mapTo sound.shown fits
  have shown := (sound.keep later same done.same grows).shown
  refine ⟨after, mapping, ?_, ?_⟩
  · obtain ⟨word, leaf, stored, _⟩ := done.leaf
    have frameFor := Shows.frameFor (.inr shown) later.region.forest later.region.active
    have active : after.activeTable = session.mc.activeTable := done.same.activeTable
    dsimp only at frameFor
    rw [active] at frameFor
    apply PageTable.translateToPhys_found frameFor
    rw [page.forAddress_startAddress, follow_path, done.same.cr3, leaf]
    exact stored
  · intro addr member root shows other small different unlisted
    apply done.others root (sound.root_mem member shows) other _ unlisted
    intro samePath
    exact different (Page.eq_of_path small fits.small samePath)

/-- A session over blank memory before any call. -/
def fresh : PagingSession := start (fun _ _ => 0) 16 100000 ⟨⟨⟨0x401000⟩, ⟨0x401FFF⟩⟩, []⟩

theorem clean_blank : Clean (fun _ _ => 0) 16 100000 := ⟨by decide, by decide, fun _ _ _ _ => rfl⟩

/-- A page under an unused top entry is mappable before any call. -/
theorem fresh_mappable (absent : links fresh.mc.memory fresh.mc.cr3 page.p4Index = none)
    (low : page.pageNumber < 28939649024) (supported : frame * pageSize < 0x10000000000000) :
    fresh.mc.Mappable page frame .writable := by
  have count : missing (links fresh.mc.memory) fresh.mc.cr3 page.upperPath = 3 := missing_none absent
  refine ⟨?_, fun present => absurd absent present, by omega, .inl low, supported, by unfold EntryFlags.Known; decide⟩
  rw [count]
  exact ⟨by decide, by decide, fun _ behind => absurd behind (by decide)⟩

section Exhausted

variable {mc : MemoryController} {last : Nat}

/-- Without freed slots the next slot is the one behind the last. -/
theorem alloc_bump (empty : mc.slotAllocator.freeSlots = []) (calm : mc.slotAllocator.lastPml1Slot + 1 ≠ 510) :
    PageTableSlotAllocator.alloc mc = (.value (slotAddr mc.slotAllocator.lastPml1Slot), { mc with
      slotAllocator :=
        { mc.slotAllocator with
          lastPml1Slot := mc.slotAllocator.lastPml1Slot + 1
          allocatedPageTables := mc.slotAllocator.allocatedPageTables + 1 } }) := by
  change PageTableSlotAllocator.allocWith _ mc = _
  rw [PageTableSlotAllocator.allocWith, get_bind, empty]
  dsimp only
  rw [put_bind, if_neg calm, get_bind, put_bind, pure_apply, empty]
  rfl

/-- A copied page changes only memory. -/
theorem copyPage_state (source target : Nat) (mc : MemoryController) :
    (copyPage source target mc).2.slotAllocator = mc.slotAllocator ∧
      (copyPage source target mc).2.frameAllocator = mc.frameAllocator := by
  rw [copyPage]
  split <;> exact ⟨rfl, rfl⟩

theorem cloneKernelTable_bump (empty : mc.slotAllocator.freeSlots = []) (calm : mc.slotAllocator.lastPml1Slot + 1 ≠ 510) :
    (cloneKernelTable mc).2.slotAllocator.lastPml1Slot = mc.slotAllocator.lastPml1Slot + 1 ∧
      (cloneKernelTable mc).2.slotAllocator.freeSlots = [] ∧
      (cloneKernelTable mc).2.frameAllocator = mc.frameAllocator := by
  rw [cloneKernelTable, bind_value (alloc_bump empty calm), get_bind]
  have copied := copyPage_state mc.kernelTable.addr (slotAddr mc.slotAllocator.lastPml1Slot) { mc with
    slotAllocator :=
      { mc.slotAllocator with
        lastPml1Slot := mc.slotAllocator.lastPml1Slot + 1
        allocatedPageTables := mc.slotAllocator.allocatedPageTables + 1 } }
  apply @bind_state _ _ _ _ (fun after : MemoryController =>
    after.slotAllocator.lastPml1Slot = mc.slotAllocator.lastPml1Slot + 1 ∧ after.slotAllocator.freeSlots = [] ∧
      after.frameAllocator = mc.frameAllocator)
  · rw [copied.1, copied.2]
    exact ⟨rfl, empty, rfl⟩
  · intro _ after returned
    rw [returned] at copied
    rw [pure_apply, copied.1, copied.2]
    exact ⟨rfl, empty, rfl⟩

theorem step_cloneKernelTable (session : PagingSession) :
    (step .cloneKernelTable session).mc = (cloneKernelTable session.mc).2 := by
  rw [step]
  split <;> rename_i returned <;> rw [returned]

/-- The session has been reached by copies of the kernel table, and no slot has been freed. -/
structure Copied (session : PagingSession) (last : Nat) : Prop where
  reached : Reached step Allowed fresh session
  empty : session.mc.slotAllocator.freeSlots = []
  last : session.mc.slotAllocator.lastPml1Slot = last

theorem Copied.supplies (copied : Copied session last) (room : last < 1025) (calm : last ≠ 509) :
    session.mc.Supplies session.mc.Blank 1 := by
  refine ⟨by decide, ?_, ?_⟩
  · rw [copied.last, copied.empty, List.length_nil]
    omega
  · rw [copied.last, copied.empty, List.length_nil]
    omega

theorem Copied.next (copied : Copied session last) (room : last < 1025) (calm : last ≠ 509) :
    Copied (step .cloneKernelTable session) (last + 1) ∧
      (step .cloneKernelTable session).mc.frameAllocator = session.mc.frameAllocator := by
  have bumped := cloneKernelTable_bump copied.empty (by rw [copied.last]; omega)
  have supplies := copied.supplies room calm
  rw [← step_cloneKernelTable, copied.last] at bumped
  exact ⟨⟨.step copied.reached .cloneKernelTable supplies, bumped.2.1, bumped.1⟩, bumped.2.2⟩

/-- Blank frames stay blank while slots are taken. -/
theorem Copied.blank (copied : Copied session last) (room : last < 509) (blank : session.mc.Blank) :
    (step .cloneKernelTable session).mc.Blank := by
  obtain ⟨frameOf, mapped, sound⟩ := reached_sound clean_blank copied.reached
  have supplies := copied.supplies (by omega) (by omega)
  obtain ⟨_, after, _, _, cloned, later, _⟩ := sound.slots.cloneKernelTable supplies sound.kernelAddr
  rw [step_cloneKernelTable, cloned]
  exact fun frame available => (later.region.frames frame available).2.1 blank

/-- The first slots are used up one by one. -/
theorem copied_first (low : 5 ≤ last) (high : last ≤ 509) :
    ∃ session, Copied session last ∧ session.mc.frameAllocator = fresh.mc.frameAllocator ∧ session.mc.Blank := by
  induction last, low using Nat.le_induction with
  | base =>
    refine ⟨fresh, ⟨.start, rfl, rfl⟩, rfl, fun frame available index => ?_⟩
    have high : 528 < frame := (available.resolve_left List.not_mem_nil).1
    exact if_neg (by omega)
  | succ last low ih =>
    obtain ⟨session, copied, frames, blank⟩ := ih (by omega)
    obtain ⟨next, kept⟩ := copied.next (by omega) (by omega)
    exact ⟨_, next, kept.trans frames, copied.blank (by omega) blank⟩

/-- The extension is the work of one copy. -/
theorem copied_extension : ∃ session last, Copied session last ∧ 510 ≤ last ∧ last ≤ 1025 := by
  obtain ⟨session, copied, frames, blank⟩ := copied_first (by decide : 5 ≤ 509) (Nat.le_refl 509)
  obtain ⟨frameOf, mapped, sound⟩ := reached_sound clean_blank copied.reached
  have supplies : session.mc.Supplies session.mc.Blank 1 := by
    refine ⟨by decide, ?_, fun _ _ => ?_⟩
    · rw [copied.last, copied.empty]
      decide
    · rw [frames]
      exact ⟨blank, .inr (by decide)⟩
  obtain ⟨slot, after, frameLater, mappedLater, cloned, later, _, _, _, grows, high, early, unfree⟩ :=
    sound.slots.cloneKernelTable supplies sound.kernelAddr
  have unused := (cloneKernelTable_fresh sound.allocator cloned).1
  have same : (step .cloneKernelTable session).mc = after := by rw [step_cloneKernelTable, cloned]
  have empty : after.slotAllocator.freeSlots = [] := by
    have fewer := grows.free
    rw [copied.empty] at fewer
    exact List.sublist_nil.mp fewer
  have late : 509 ≤ slot := by
    by_contra before
    apply unused
    refine ⟨slotAddr_aligned slot, ?_, ?_, ?_⟩
    · rw [sound.regionStart]
      exact Nat.le_add_right _ _
    · rw [sound.regionStart, copied.last, slotAddr]
      exact Nat.add_lt_add_left (Nat.mul_lt_mul_of_pos_right (by omega) (by decide)) _
    · rw [copied.empty]
      exact List.not_mem_nil
  have bound := later.region.bound
  have last := later.region.last
  refine ⟨step .cloneKernelTable session, after.slotAllocator.lastPml1Slot,
    ⟨.step copied.reached .cloneKernelTable supplies, ?_, ?_⟩, by omega, by omega⟩
  · rw [same]
    exact empty
  · rw [same]

/-- All slots are used up. -/
theorem copied_all (copied : Copied session last) (late : 510 ≤ last) (bound : last ≤ 1025) :
    ∃ final, Copied final 1025 := by
  obtain ⟨left, equal⟩ := Nat.exists_eq_add_of_le bound
  induction left generalizing session last with
  | zero =>
    rw [equal]
    exact ⟨session, copied⟩
  | succ left ih =>
    obtain ⟨next, _⟩ := copied.next (by omega) (by omega)
    exact ih next (by omega) (by omega) (by omega)

end Exhausted

end PagingSession

theorem forAddress_mul (frame : Nat) : Page.forAddress (frame * pageSize) = ⟨frame⟩ := by
  change Page.mk (frame * 4096 / 4096) = ⟨frame⟩
  rw [Nat.mul_div_cancel _ (by decide)]

theorem Page.OutsideRegion.unlisted {page : Page} (outside : page.OutsideRegion) (small : page.pageNumber < 2 ^ 36) :
    page.path ∉ slotPaths 1025 := by
  intro listed
  obtain ⟨slot, _, bound, same⟩ := listed
  exact outside.path_ne small (by omega) same.symm

theorem MemoryController.Mappable.windowed {mc : MemoryController} {page : Page} {frame : Nat} {flags : EntryFlags}
    (fits : mc.Mappable page frame flags) (window : Nat) : (mc.windowed window).Mappable page frame flags :=
  ⟨⟨fits.supplies.few, fits.supplies.slots, fits.supplies.frames⟩, fits.safe, fits.small, fits.outside, fits.supported, fits.known⟩

/-- Every frame of the list is mappable when its turn comes. -/
def MapsAll (flags : EntryFlags) : List Nat → MemoryController → Prop
  | [], _ => True
  | frame :: rest, mc =>
    mc.Mappable (.forAddress (frame * pageSize)) frame flags ∧
      MapsAll flags rest
        (mc.activeTable.mapTo PageTableSlotAllocator.alloc (.forAddress (frame * pageSize)) frame flags mc).2

namespace PagingSession

variable {session : PagingSession} {frameOf : Nat → Nat} {mapped : Nat} {flags : EntryFlags}

/-- The frames of the list are mapped at their own addresses, and all other pages are kept. -/
theorem Sound.mapFrames {frames : List Nat} (sound : session.Sound frameOf mapped)
    (fits : MapsAll flags frames session.mc) (distinct : frames.Nodup) :
    ∃ after frameLater mappedLater,
      MemoryController.mapFrames session.mc.activeTable flags frames session.mc = (.value (), after) ∧
      { session with mc := after }.Sound frameLater mappedLater ∧ SameMachine session.mc after ∧
      (∀ frame ∈ frames, PageTableEntry.getFrame (leafEntry after.memory session.mc.cr3 ⟨frame⟩) = some frame) ∧
      ∀ root ∈ rootsOf frameOf session.tables, ∀ other : Page, other.pageNumber < 2 ^ 36 → other.pageNumber ∉ frames →
        other.path ∉ slotPaths 1025 → leafEntry after.memory root other = leafEntry session.mc.memory root other := by
  induction frames generalizing session frameOf mapped with
  | nil =>
    exact ⟨session.mc, frameOf, mapped, rfl, sound, ⟨rfl, rfl, rfl, rfl, rfl⟩,
      fun frame member => absurd member List.not_mem_nil, fun _ _ _ _ _ _ => rfl⟩
  | cons frame rest ih =>
    obtain ⟨first, others⟩ := fits
    have small := first.small
    have outside := first.outside
    obtain ⟨between, frameNext, mappedNext, mapping, region, _, same, grows, done⟩ := sound.slots.mapTo sound.shown first
    have next := sound.keep region same done.same grows
    have roots : rootsOf frameNext session.tables = rootsOf frameOf session.tables :=
      rootsOf_congr fun slot member => sound.frames same member
    rw [mapping] at others
    obtain ⟨after, frameLater, mappedLater, filled, later, machine, covered, kept⟩ := ih next others distinct.of_cons
    dsimp only at filled machine covered kept
    rw [done.same.activeTable] at filled
    rw [done.same.cr3] at covered
    rw [roots] at kept
    rw [forAddress_mul] at small outside done
    refine ⟨after, frameLater, mappedLater, ?_, later, done.same.trans machine, ?_, ?_⟩
    · rw [MemoryController.mapFrames, bind_value mapping, filled]
    · intro other member
      rcases List.mem_cons.mp member with rfl | behind
      · obtain ⟨word, leaf, stored, _⟩ := done.leaf
        rw [kept _ sound.slots.region.active ⟨other⟩ small (List.nodup_cons.mp distinct).1 (outside.unlisted small), leaf]
        exact stored
      · exact covered other behind
    · intro root inside other little unmapped unlisted
      rw [List.mem_cons, not_or] at unmapped
      obtain ⟨different, absent⟩ := unmapped
      rw [kept root inside other little absent unlisted]
      apply done.others root inside other _ unlisted
      intro samePath
      exact different (congrArg Page.pageNumber (Page.eq_of_path little small samePath))

theorem Sound.translates (sound : session.Sound frameOf mapped) (frame : Nat) :
    (∃ window, session.mc.activeTable.translateToPhys (frame * pageSize) session.mc =
        (.value frame, session.mc.windowed window)) ↔
      PageTableEntry.getFrame (leafEntry session.mc.memory session.mc.cr3 ⟨frame⟩) = some frame := by
  rw [translateToPhys_leaf sound.frameFor, forAddress_mul]

/-- An identity mapping looks at the first page only, and maps the whole range or nothing. -/
theorem Sound.identityMap (sound : session.Sound frameOf mapped) {start last : Nat}
    (fits : leafEntry session.mc.memory session.mc.cr3 ⟨start⟩ = 0 →
      MapsAll flags (List.range' start (last + 1 - start)) (session.mc.activeTable.isUnused ⟨start⟩ session.mc).2) :
    ∃ after frameLater mappedLater,
      MemoryController.identityMap start last flags session.mc = (.value (), after) ∧
      { session with mc := after }.Sound frameLater mappedLater ∧ SameMachine session.mc after ∧
      (leafEntry session.mc.memory session.mc.cr3 ⟨start⟩ = 0 → ∀ frame, start ≤ frame → frame ≤ last →
        PageTableEntry.getFrame (leafEntry after.memory session.mc.cr3 ⟨frame⟩) = some frame) ∧
      (leafEntry session.mc.memory session.mc.cr3 ⟨start⟩ ≠ 0 → after.memory = session.mc.memory) ∧
      ∀ root ∈ rootsOf frameOf session.tables, ∀ other : Page, other.pageNumber < 2 ^ 36 →
        other.pageNumber < start ∨ last < other.pageNumber → other.path ∉ slotPaths 1025 →
        leafEntry after.memory root other = leafEntry session.mc.memory root other := by
  obtain ⟨window, answered⟩ := isUnused_leaf sound.frameFor ⟨start⟩
  have supported : window * pageSize < 0x10000000000000 := by
    have moved := isUnused_window session.mc.activeTable ⟨start⟩ session.mc sound.slots.region.window
    rw [answered] at moved
    exact moved
  rw [answered] at fits
  have next := sound.windowed supported
  rw [MemoryController.identityMap, get_bind, forAddress_mul, bind_value answered]
  by_cases zero : leafEntry session.mc.memory session.mc.cr3 ⟨start⟩ = 0
  · obtain ⟨after, frameLater, mappedLater, filled, later, machine, covered, kept⟩ :=
      next.mapFrames (fits zero) (List.nodup_range' 1)
    have unused : PageTableEntry.isUnused (leafEntry session.mc.memory session.mc.cr3 ⟨start⟩) = true := beq_iff_eq.mpr zero
    have windowed : SameMachine session.mc (session.mc.windowed window) := ⟨rfl, rfl, rfl, rfl, rfl⟩
    refine ⟨after, frameLater, mappedLater, ?_, later, windowed.trans machine, fun _ frame low high => ?_, fun used => absurd zero used, ?_⟩
    · rw [unused]
      exact filled
    · exact covered frame (List.mem_range'_1.mpr (by omega))
    · intro root inside other small away unlisted
      exact kept root inside other small (fun member => by rw [List.mem_range'_1] at member; omega) unlisted
  · have used : PageTableEntry.isUnused (leafEntry session.mc.memory session.mc.cr3 ⟨start⟩) = false := beq_eq_false_iff_ne.mpr zero
    refine ⟨session.mc.windowed window, frameOf, mapped, ?_, next, ⟨rfl, rfl, rfl, rfl, rfl⟩, fun empty => absurd empty zero,
      fun _ => rfl, fun _ _ _ _ _ _ => rfl⟩
    rw [used]
    rfl

section Run

variable {ram : Memory} {base memEnd : Nat} {stackAllocator : StackAllocator}

end Run

end PagingSession

end BubbleOs.Paging
