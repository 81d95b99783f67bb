import BubbleOs.Proof.Paging.Keeping

namespace BubbleOs.Paging

open Attempt MemoryController

/-- A session knows the tables of the kernel and the processes and the frames that were handed out. -/
structure PagingSession where
  mc : MemoryController
  tables : List Nat
  owned : List Nat

/-- Pages are mapped and unmapped in the active table, and programs write to the frames that they own. -/
inductive PagingCall where
  | mapTo (page : Page) (frame : Nat) (flags : EntryFlags)
  | unmap (page : Page)
  | isUnused (page : Page)
  | translateToPhys (addr : Nat)
  | cloneKernelTable
  | switchTable (addr : Nat)
  | freeTable (addr : Nat)
  | falloc
  | freeFrame (frame : Nat)
  | store (frame : Nat) (words : TableIndex → Word)

namespace PagingSession

def step : PagingCall → PagingSession → PagingSession
  | .mapTo page frame flags, session =>
    { session with mc := (session.mc.activeTable.mapTo PageTableSlotAllocator.alloc page frame flags session.mc).2 }
  | .unmap page, session => { session with mc := (session.mc.activeTable.unmap page session.mc).2 }
  | .isUnused page, session => { session with mc := (session.mc.activeTable.isUnused page session.mc).2 }
  | .translateToPhys addr, session => { session with mc := (session.mc.activeTable.translateToPhys addr session.mc).2 }
  | .cloneKernelTable, session =>
    match MemoryController.cloneKernelTable session.mc with
    | (.value table, after) => { session with mc := after, tables := table.addr :: session.tables }
    | (_, after) => { session with mc := after }
  | .switchTable addr, session => { session with mc := (MemoryController.switchTable ⟨addr⟩ session.mc).2 }
  | .freeTable addr, session =>
    { session with mc := (PageTableSlotAllocator.free addr session.mc).2, tables := session.tables.erase addr }
  | .falloc, session =>
    match SimplePageFrameAllocator.falloc session.mc with
    | (.value frame, after) => { session with mc := after, owned := frame :: session.owned }
    | (_, after) => { session with mc := after }
  | .freeFrame frame, session =>
    { session with mc := (SimplePageFrameAllocator.free frame session.mc).2, owned := session.owned.erase frame }
  | .store frame words, session =>
    { session with
      mc := { session.mc with memory := fun other index => if other = frame then words index else session.mc.memory other index } }

/-- The slots suffice for the tables, and nobody writes to the frames of others. -/
def Allowed : PagingCall → PagingSession → Prop
  | .mapTo page frame flags, session => session.mc.Mappable page frame flags
  | .unmap page, _ => page.pageNumber < 2 ^ 36 ∧ page.OutsideRegion
  | .isUnused _, _ => True
  | .translateToPhys _, _ => True
  | .cloneKernelTable, session => session.mc.Supplies session.mc.Blank 1
  | .switchTable addr, session => addr ∈ session.tables
  | .freeTable addr, session =>
    addr ∈ session.tables ∧ addr ≠ pageTableRegionStart ∧ addr ≠ session.mc.activeTable.addr
  | .falloc, _ => True
  | .freeFrame frame, session => frame ∈ session.owned
  | .store frame _, session => frame ∈ session.owned

def start (ram : Memory) (base memEnd : Nat) (stackAllocator : StackAllocator) : PagingSession :=
  ⟨.bootOver ram base memEnd stackAllocator, [pageTableRegionStart], []⟩

/-- The owned frames hold these words. -/
def data (session : PagingSession) (frame : Nat) : Option (TableIndex → Word) :=
  if frame ∈ session.owned then some (session.mc.memory frame) else none

end PagingSession

/-- The frames of these tables are the roots of the trees. -/
def rootsOf (frameOf : Nat → Nat) (tables : List Nat) : Set Nat :=
  { frame | ∃ slot, slotAddr slot ∈ tables ∧ frame = frameOf slot }

namespace PagingSession

/-- The region is in order, and every table has its own slot. -/
structure Sound (session : PagingSession) (frameOf : Nat → Nat) (mapped : Nat) : Prop where
  slots : SlotRegion session.mc (rootsOf frameOf session.tables) (frameOf 0) frameOf mapped session.data False
  kernelAddr : session.mc.kernelTable.addr = slotAddr 0
  regionStart : session.mc.slotAllocator.regionStart = pageTableRegionStart
  kernel : slotAddr 0 ∈ session.tables
  distinct : session.tables.Nodup
  tables : ∀ addr ∈ session.tables, ∃ slot, addr = slotAddr slot ∧ (slot = 0 ∨ 4 < slot) ∧
    slot < session.mc.slotAllocator.lastPml1Slot ∧ addr ∉ session.mc.slotAllocator.freeSlots
  active : ∃ slot, slotAddr slot ∈ session.tables ∧ session.mc.activeTable.addr = slotAddr slot ∧
    session.mc.cr3 = frameOf slot
  owned : session.owned.Nodup

section Sound

variable {session : PagingSession} {frameOf : Nat → Nat} {mapped : Nat} {after : MemoryController} {blank : Prop}
  {frameLater : Nat → Nat} {mappedLater : Nat} {addr : Nat} {page : Page} {frame : Nat}

/-- The words of owned frames are the same after a call that keeps the region. -/
theorem data_eq {roots : Set Nat} {kernel : Nat}
    (later : SlotRegion after roots kernel frameOf mapped session.data blank) :
    session.data = { session with mc := after }.data := by
  funext frame
  by_cases owned : frame ∈ session.owned
  · have known : session.data frame = some (session.mc.memory frame) := if_pos owned
    have same := (later.region.stored frame _ known).2.1
    rw [known, data, if_pos owned, same]
  · rw [data, data, if_neg owned, if_neg owned]

theorem rootsOf_congr {tables : List Nat} (same : ∀ slot, slotAddr slot ∈ tables → frameLater slot = frameOf slot) :
    rootsOf frameLater tables = rootsOf frameOf tables := by
  ext frame
  constructor
  · rintro ⟨slot, member, rfl⟩
    exact ⟨slot, member, same slot member⟩
  · rintro ⟨slot, member, rfl⟩
    exact ⟨slot, member, (same slot member).symm⟩

theorem rootsOf_cons (frameOf : Nat → Nat) (slot : Nat) (tables : List Nat) :
    rootsOf frameOf (slotAddr slot :: tables) = insert (frameOf slot) (rootsOf frameOf tables) := by
  ext frame
  constructor
  · rintro ⟨other, member, rfl⟩
    rcases List.mem_cons.mp member with equal | before
    · rw [slotAddr_inj equal]
      exact .inl rfl
    · exact .inr ⟨other, before, rfl⟩
  · rintro (rfl | ⟨other, member, rfl⟩)
    · exact ⟨slot, List.mem_cons_self, rfl⟩
    · exact ⟨other, List.mem_cons_of_mem _ member, rfl⟩

/-- The frame allocator returns a frame that it has, or nothing happens. -/
theorem falloc_cases (mc : MemoryController) :
    mc.frameAllocator.Enough 1 ∨
      ∃ outcome, SimplePageFrameAllocator.falloc mc = (outcome, mc) ∧ ∀ frame, outcome ≠ .value frame := by
  cases free : mc.frameAllocator.freeFrames with
  | cons frame rest =>
    refine .inl (.inl ?_)
    rw [free, List.length_cons]
    exact Nat.le_add_left 1 _
  | nil =>
    by_cases room : mc.frameAllocator.frameHead + 2 ≤ mc.frameAllocator.memEnd
    · exact .inl (.inr (by rw [free, List.length_nil]; omega))
    · right
      rw [SimplePageFrameAllocator.falloc]
      simp only [free]
      split
      · exact ⟨_, rfl, fun frame same => by cases same⟩
      · rw [if_pos (by rw [pageSize]; omega)]
        exact ⟨_, rfl, fun frame same => by cases same⟩

variable (sound : session.Sound frameOf mapped)

include sound

theorem Sound.table {slot : Nat} (member : slotAddr slot ∈ session.tables) :
    slot ≠ 4 ∧ slot < session.mc.slotAllocator.lastPml1Slot ∧ slot < mapped ∧
      slotAddr slot ∉ session.mc.slotAllocator.freeSlots := by
  obtain ⟨other, equal, place, early, unfree⟩ := sound.tables _ member
  obtain rfl := slotAddr_inj equal
  exact ⟨by omega, early, Nat.lt_of_lt_of_le early sound.slots.region.last.2, unfree⟩

theorem Sound.shown :
    session.mc.SlotAt session.mc.activeTable.addr session.mc.cr3 := by
  obtain ⟨slot, member, addr, root⟩ := sound.active
  obtain ⟨visible, _, inside, _⟩ := sound.table member
  rw [addr, root]
  exact sound.slots.region.slotAt inside visible

/-- The root of a table is the frame of its slot. -/
theorem Sound.root_mem {addr root : Nat} (member : addr ∈ session.tables)
    (shows : session.mc.SlotAt addr root) : root ∈ rootsOf frameOf session.tables := by
  obtain ⟨slot, rfl, _⟩ := sound.tables addr member
  obtain ⟨visible, _, inside, _⟩ := sound.table member
  have known := sound.slots.region.slotAt inside visible
  exact ⟨slot, member, Option.some.inj (shows.reached.symm.trans known.reached)⟩

theorem Sound.frames (same : ∀ slot < mapped, slot ≠ 4 → frameLater slot = frameOf slot) {slot : Nat}
    (member : slotAddr slot ∈ session.tables) : frameLater slot = frameOf slot := by
  obtain ⟨visible, _, inside, _⟩ := sound.table member
  exact same slot inside visible

/-- A call that only takes slots, some of them for new tables, keeps the session in order. -/
theorem Sound.extend {added : List Nat}
    (later : SlotRegion after (rootsOf frameLater (added ++ session.tables)) (frameOf 0) frameLater mappedLater session.data blank)
    (same : ∀ slot < mapped, slot ≠ 4 → frameLater slot = frameOf slot) (machine : SameMachine session.mc after)
    (grows : PageTableSlotAllocator.Grows session.mc.slotAllocator after.slotAllocator)
    (distinct : (added ++ session.tables).Nodup)
    (new : ∀ addr ∈ added, ∃ slot, addr = slotAddr slot ∧ (slot = 0 ∨ 4 < slot) ∧ slot < after.slotAllocator.lastPml1Slot ∧
      addr ∉ after.slotAllocator.freeSlots) :
    { session with mc := after, tables := added ++ session.tables }.Sound frameLater mappedLater := by
  constructor
  · have equal : session.data = { session with mc := after, tables := added ++ session.tables }.data := data_eq later
    rw [sound.frames same sound.kernel, ← equal]
    exact later.reblank False.elim
  · exact (congrArg PageTable.addr machine.kernelTable).trans sound.kernelAddr
  · exact grows.start.trans sound.regionStart
  · exact List.mem_append_right _ sound.kernel
  · exact distinct
  · intro addr member
    rcases List.mem_append.mp member with fresh | before
    · exact new addr fresh
    · obtain ⟨slot, equal, visible, early, unfree⟩ := sound.tables addr before
      exact ⟨slot, equal, visible, Nat.lt_of_lt_of_le early grows.last, fun free => unfree (grows.free.subset free)⟩
  · obtain ⟨slot, member, addr, root⟩ := sound.active
    refine ⟨slot, List.mem_append_right _ member, (congrArg PageTable.addr machine.activeTable).trans addr, ?_⟩
    rw [sound.frames same member]
    exact machine.cr3.trans root
  · exact sound.owned

/-- A call that only takes slots keeps the session in order. -/
theorem Sound.keep
    (later : SlotRegion after (rootsOf frameOf session.tables) (frameOf 0) frameLater mappedLater session.data blank)
    (same : ∀ slot < mapped, slot ≠ 4 → frameLater slot = frameOf slot) (machine : SameMachine session.mc after)
    (grows : PageTableSlotAllocator.Grows session.mc.slotAllocator after.slotAllocator) :
    { session with mc := after }.Sound frameLater mappedLater := by
  rw [← rootsOf_congr fun slot member => sound.frames same member] at later
  exact @Sound.extend session frameOf mapped _ _ _ _ sound [] later same machine grows sound.distinct
    fun addr member => absurd member List.not_mem_nil

/-- The free slots are distinct slots of the region. -/
theorem Sound.allocator : session.mc.slotAllocator.Sound := by
  refine ⟨sound.regionStart, sound.slots.region.distinct, fun addr member => ?_⟩
  obtain ⟨slot, rfl, _, early, _⟩ := sound.slots.region.free addr member
  refine ⟨slotAddr_aligned slot, ?_, ?_⟩
  · rw [sound.regionStart]
    exact Nat.le_add_right _ _
  · rw [sound.regionStart, slotAddr]
    exact Nat.add_lt_add_left (Nat.mul_lt_mul_of_pos_right early (by decide)) _

theorem Sound.inUse (member : addr ∈ session.tables) : session.mc.slotAllocator.InUse addr := by
  obtain ⟨slot, rfl, _, early, unfree⟩ := sound.tables addr member
  refine ⟨slotAddr_aligned slot, ?_, ?_, unfree⟩
  · rw [sound.regionStart]
    exact Nat.le_add_right _ _
  · rw [sound.regionStart, slotAddr]
    exact Nat.add_lt_add_left (Nat.mul_lt_mul_of_pos_right early (by decide)) _

theorem Sound.mapTo {flags : EntryFlags} (fits : session.mc.Mappable page frame flags) :
    ∃ frameLater mappedLater, (step (.mapTo page frame flags) session).Sound frameLater mappedLater := by
  obtain ⟨after, frameLater, mappedLater, mapping, later, _, same, grows, done⟩ := sound.slots.mapTo sound.shown fits
  refine ⟨frameLater, mappedLater, ?_⟩
  rw [step, mapping]
  exact sound.keep later same done.same grows

theorem Sound.unmap (small : page.pageNumber < 2 ^ 36) (outside : page.OutsideRegion) :
    (step (.unmap page) session).Sound frameOf mapped := by
  obtain ⟨outcome, after, unmapped, later, machine, allocator⟩ := sound.slots.unmap sound.shown small outside
  rw [step, unmapped]
  apply sound.keep later (fun _ _ _ => rfl) machine
  rw [allocator]
  exact refl_of PageTableSlotAllocator.Grows _

theorem Sound.windowed {window : Nat} (small : window * pageSize < 0x10000000000000) :
    { session with mc := session.mc.windowed window }.Sound frameOf mapped :=
  sound.keep (sound.slots.windowed small) (fun _ _ _ => rfl) ⟨rfl, rfl, rfl, rfl, rfl⟩
    (refl_of PageTableSlotAllocator.Grows session.mc.slotAllocator)

theorem Sound.frameFor : session.mc.frameFor session.mc.activeTable.addr = some (session.mc.cr3, true) :=
  Shows.frameFor (.inr sound.shown) sound.slots.region.forest sound.slots.region.active

/-- A look at an entry moves only the window. -/
theorem Sound.isUnused (page : Page) : (step (.isUnused page) session).Sound frameOf mapped := by
  obtain ⟨window, answered⟩ := isUnused_leaf sound.frameFor page
  have supported := isUnused_window session.mc.activeTable page session.mc sound.slots.region.window
  rw [answered] at supported
  rw [step, answered]
  exact sound.windowed supported

theorem Sound.translateToPhys (addr : Nat) : (step (.translateToPhys addr) session).Sound frameOf mapped := by
  have supported := translateToPhys_window session.mc.activeTable addr session.mc sound.slots.region.window
  rw [step]
  cases found : follow (links session.mc.memory) session.mc.cr3 (Page.forAddress addr).path with
  | none =>
    obtain ⟨window, missing⟩ := PageTable.translateToPhys_missing sound.frameFor found
    rw [missing] at supported ⊢
    exact sound.windowed supported
  | some frame =>
    obtain ⟨window, translated⟩ := PageTable.translateToPhys_found sound.frameFor found
    rw [translated] at supported ⊢
    exact sound.windowed supported

theorem Sound.cloneKernelTable (supplies : session.mc.Supplies session.mc.Blank 1) :
    ∃ frameLater mappedLater, (step .cloneKernelTable session).Sound frameLater mappedLater := by
  obtain ⟨slot, after, frameLater, mappedLater, cloned, later, _, same, machine, grows, high, early, unfree⟩ :=
    sound.slots.cloneKernelTable supplies sound.kernelAddr
  refine ⟨frameLater, mappedLater, ?_⟩
  rw [step, cloned]
  dsimp only
  have fresh : slotAddr slot ∉ session.tables :=
    fun member => (cloneKernelTable_fresh sound.allocator cloned).1 (sound.inUse member)
  have roots : rootsOf frameLater ([slotAddr slot] ++ session.tables) =
      insert (frameLater slot) (rootsOf frameOf session.tables) := by
    rw [← rootsOf_congr fun slot member => sound.frames same member, ← rootsOf_cons]
    rfl
  rw [← roots] at later
  apply sound.extend later same machine grows (List.nodup_cons.mpr ⟨fresh, sound.distinct⟩)
  intro addr member
  rw [List.mem_singleton.mp member]
  exact ⟨slot, rfl, .inr high, early, unfree⟩

/-- The table of a slot becomes active. -/
theorem Sound.switchTable (member : addr ∈ session.tables) :
    (step (.switchTable addr) session).Sound frameOf mapped := by
  obtain ⟨slot, rfl, _⟩ := sound.tables addr member
  obtain ⟨visible, _, inside, _⟩ := sound.table member
  obtain ⟨window, switched, later⟩ := sound.slots.switchTable sound.shown inside visible ⟨slot, member, rfl⟩
  rw [step, switched]
  exact { sound with slots := later, active := ⟨slot, member, rfl, rfl⟩ }

/-- A table that is not active gives its slot back. -/
theorem Sound.freeTable (member : addr ∈ session.tables)
    (process : addr ≠ pageTableRegionStart) (inactive : addr ≠ session.mc.activeTable.addr) :
    (step (.freeTable addr) session).Sound frameOf mapped := by
  have region := sound.slots.region
  obtain ⟨slot, rfl, place, early, unfree⟩ := sound.tables addr member
  obtain ⟨_, _, inside, _⟩ := sound.table member
  have high : 4 < slot := by
    apply place.resolve_left
    rintro rfl
    exact process rfl
  have sub : rootsOf frameOf (session.tables.erase (slotAddr slot)) ⊆ rootsOf frameOf session.tables := by
    rintro frame ⟨other, still, rfl⟩
    exact ⟨other, List.mem_of_mem_erase still, rfl⟩
  have kernel : slotAddr 0 ∈ session.tables.erase (slotAddr slot) := by
    apply (List.mem_erase_of_ne _).mpr sound.kernel
    intro same
    exact process same.symm
  have active : ∃ other, slotAddr other ∈ session.tables.erase (slotAddr slot) ∧
      session.mc.activeTable.addr = slotAddr other ∧ session.mc.cr3 = frameOf other := by
    obtain ⟨other, present, same, root⟩ := sound.active
    refine ⟨other, (List.mem_erase_of_ne fun equal => ?_).mpr present, same, root⟩
    exact inactive (equal.symm.trans same.symm)
  have apart : Apart session.mc.memory (rootsOf frameOf (session.tables.erase (slotAddr slot))) (frameOf slot) := by
    rintro root ⟨other, still, rfl⟩ path short found
    have before := List.mem_of_mem_erase still
    have empty := region.forest.planted _ ⟨other, before, rfl⟩ _ ⟨slot, member, rfl⟩ path [] (frameOf slot) short (Nat.zero_le 3)
      found rfl
    subst empty
    have equal := region.injective other (sound.table before).2.2.1 slot inside (Option.some.inj found)
    subst equal
    exact ((List.Nodup.mem_erase_iff sound.distinct).mp still).1 rfl
  have fewer := sound.slots.restrict sub (by
    obtain ⟨other, still, _, root⟩ := active
    exact ⟨other, still, root⟩) ⟨0, kernel, rfl⟩
  have freed : PageTableSlotAllocator.free (slotAddr slot) session.mc = (.value (), { session.mc with
      slotAllocator :=
        { session.mc.slotAllocator with
          freeSlots := slotAddr slot :: session.mc.slotAllocator.freeSlots
          allocatedPageTables := session.mc.slotAllocator.allocatedPageTables - 1 } }) := by
    obtain ⟨aligned, low, above, _⟩ := sound.inUse member
    rw [PageTableSlotAllocator.free, get_bind]
    dsimp only
    rw [if_neg (by omega), if_neg (not_or.mpr ⟨Nat.not_le.mpr above, unfree⟩), put_apply]
  rw [step, freed]
  refine ⟨fewer.freeSlot high early unfree apart _, sound.kernelAddr, sound.regionStart, kernel, sound.distinct.erase _, ?_, active,
    sound.owned⟩
  intro addr still
  obtain ⟨other, rfl, where_, low, unlisted⟩ := sound.tables addr (List.mem_of_mem_erase still)
  refine ⟨other, rfl, where_, low, fun listed => ?_⟩
  rcases List.mem_cons.mp listed with equal | before
  · exact ((List.Nodup.mem_erase_iff sound.distinct).mp still).1 equal
  · exact unlisted before

theorem Sound.falloc : (step .falloc session).Sound frameOf mapped := by
  rw [step]
  rcases falloc_cases session.mc with enough | ⟨outcome, failed, unvalued⟩
  · obtain ⟨frame, rest, returned, available, _, gone, below, _, region⟩ := falloc_value sound.slots.region enough
    rw [returned]
    have unowned : frame ∉ session.owned := by
      intro member
      exact (sound.slots.region.stored frame _ (if_pos member)).2.2.1 available
    refine { sound with slots := ?_, owned := List.nodup_cons.mpr ⟨unowned, sound.owned⟩ }
    have later := sound.slots.falloc available gone below region
    have same : Function.update session.data frame (some (session.mc.memory frame)) =
        PagingSession.data ⟨{ session.mc with frameAllocator := rest }, session.tables, frame :: session.owned⟩ := by
      refine Function.update_eq_iff.mpr ⟨(if_pos List.mem_cons_self).symm, fun other equal => ?_⟩
      exact if_congr (List.mem_cons.trans (or_iff_right equal)).symm rfl rfl
    rw [← same]
    exact later
  · rw [failed]
    cases outcome with
    | value frame => exact absurd rfl (unvalued frame)
    | missing | hang => exact sound

theorem Sound.freeFrame (member : frame ∈ session.owned) :
    (step (.freeFrame frame) session).Sound frameOf mapped := by
  have known : session.data frame = some (session.mc.memory frame) := if_pos member
  have later := sound.slots.freeFrame known False.elim
  refine { sound with slots := ?_, owned := sound.owned.erase _ }
  have same : Function.update session.data frame none = (step (.freeFrame frame) session).data := by
    refine Function.update_eq_iff.mpr ⟨(if_neg fun still => ?_).symm, fun other equal => ?_⟩
    · exact ((List.Nodup.mem_erase_iff sound.owned).mp still).1 rfl
    · exact if_congr (List.mem_erase_of_ne equal).symm rfl rfl
  rw [← same]
  exact later

theorem Sound.store (member : frame ∈ session.owned)
    (words : TableIndex → Word) : (step (.store frame words) session).Sound frameOf mapped := by
  have known : session.data frame = some (session.mc.memory frame) := if_pos member
  have here : (fun other index => if other = frame then words index else session.mc.memory other index : Memory) frame =
      words := by
    funext index
    exact if_pos rfl
  have others (other : Nat) (different : other ≠ frame) :
      (fun other index => if other = frame then words index else session.mc.memory other index : Memory) other =
        session.mc.memory other := by
    funext index
    exact if_neg different
  have later := sound.slots.store known here others
  refine { sound with slots := ?_ }
  have same : Function.update session.data frame (some words) = (step (.store frame words) session).data := by
    refine Function.update_eq_iff.mpr ⟨((if_pos member).trans (congrArg some here)).symm, fun other equal => ?_⟩
    exact if_congr Iff.rfl (congrArg some (others other equal)).symm rfl
  rw [← same]
  exact later

end Sound

/-- An allowed call keeps the session in order. -/
theorem step_sound (call : PagingCall) (session : PagingSession) (sound : ∃ frameOf mapped, session.Sound frameOf mapped)
    (allowed : Allowed call session) : ∃ frameOf mapped, (step call session).Sound frameOf mapped := by
  obtain ⟨frameOf, mapped, sound⟩ := sound
  cases call with
  | mapTo page frame flags => exact sound.mapTo allowed
  | unmap page => exact ⟨_, _, sound.unmap allowed.1 allowed.2⟩
  | isUnused page => exact ⟨_, _, sound.isUnused page⟩
  | translateToPhys addr => exact ⟨_, _, sound.translateToPhys addr⟩
  | cloneKernelTable => exact sound.cloneKernelTable allowed
  | switchTable addr => exact ⟨_, _, sound.switchTable allowed⟩
  | freeTable addr => exact ⟨_, _, sound.freeTable allowed.1 allowed.2.1 allowed.2.2⟩
  | falloc => exact ⟨_, _, sound.falloc⟩
  | freeFrame frame => exact ⟨_, _, sound.freeFrame allowed⟩
  | store frame words => exact ⟨_, _, sound.store allowed words⟩

/-- The slots behind the tables of the boot are blank, and all memory has supported addresses. -/
structure Clean (ram : Memory) (base memEnd : Nat) : Prop where
  tables : (base + 512) * pageSize ≤ 0x10000000000000
  supported : memEnd * pageSize ≤ 0x10000000000000
  blank : ∀ frame, base + 4 < frame → frame < base + 512 → ∀ index, ram frame index = 0

section Run

variable {ram : Memory} {base memEnd : Nat} {stackAllocator : StackAllocator} {session : PagingSession}

theorem start_sound (clean : Clean ram base memEnd) (stackAllocator : StackAllocator) :
    (start ram base memEnd stackAllocator).Sound (base + ·) 512 := by
  have slots := bootOver_slotRegion clean.tables clean.supported stackAllocator clean.blank
  have first : slotAddr 0 ∈ [pageTableRegionStart] := List.mem_singleton.mpr rfl
  have only {slot : Nat} (member : slotAddr slot ∈ [pageTableRegionStart]) : slot = 0 :=
    slotAddr_inj (List.mem_singleton.mp member)
  constructor
  · have roots : rootsOf (base + ·) [pageTableRegionStart] = {base} := by
      ext frame
      constructor
      · rintro ⟨slot, member, rfl⟩
        rw [only member]
        rfl
      · rintro rfl
        exact ⟨0, first, rfl⟩
    have empty : (start ram base memEnd stackAllocator).data = fun _ => none := by
      funext frame
      exact if_neg List.not_mem_nil
    rw [empty]
    change SlotRegion _ (rootsOf (base + ·) [pageTableRegionStart]) _ _ _ _ _
    rw [roots]
    exact slots
  · rfl
  · rfl
  · exact first
  · exact List.nodup_cons.mpr ⟨List.not_mem_nil, List.nodup_nil⟩
  · intro addr member
    refine ⟨0, List.mem_singleton.mp member, .inl rfl, Nat.zero_lt_succ 4, ?_⟩
    exact List.not_mem_nil
  · exact ⟨0, first, rfl, rfl⟩
  · exact List.nodup_nil

/-- Every run of allowed calls keeps the region in order. -/
theorem reached_sound (clean : Clean ram base memEnd)
    (reached : Reached step Allowed (start ram base memEnd stackAllocator) session) :
    ∃ frameOf mapped, session.Sound frameOf mapped := by
  have initial : ∃ frameOf mapped, (start ram base memEnd stackAllocator).Sound frameOf mapped :=
    ⟨_, _, start_sound clean stackAllocator⟩
  exact @Reached.invariant _ _ _ _ _ _ (fun session => ∃ frameOf mapped, session.Sound frameOf mapped) initial step_sound reached

end Run

end PagingSession

end BubbleOs.Paging
