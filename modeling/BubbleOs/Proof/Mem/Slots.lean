import BubbleOs.Construction.Paging.Table

namespace BubbleOs.Paging

open Attempt MemoryController PageTableSlotAllocator

/-- A part of the controller that is neither memory nor the window nor the frame allocator. -/
structure Steady {V : Type} (view : MemoryController → V) : Prop where
  memory : ∀ mc memory, view { mc with memory := memory } = view mc
  window : ∀ mc window, view { mc with tempMapper := window } = view mc
  frames : ∀ mc frames, view { mc with frameAllocator := frames } = view mc

/-- The steps of the slot allocator move the part along the relation. -/
structure SlotMoves {V : Type} (view : MemoryController → V) (rel : V → V → Prop) : Prop where
  pop : ∀ mc addr rest, mc.slotAllocator.freeSlots = addr :: rest →
    rel (view mc) (view { mc with slotAllocator := { mc.slotAllocator with freeSlots := rest } })
  bump : ∀ mc, rel (view mc)
    (view { mc with
      slotAllocator := { mc.slotAllocator with lastPml1Slot := mc.slotAllocator.lastPml1Slot + 1 } })
  counted : ∀ mc count,
    rel (view mc) (view { mc with slotAllocator := { mc.slotAllocator with allocatedPageTables := count } })
  extended : ∀ mc count, rel (view mc) (view { mc with slotAllocator := { mc.slotAllocator with pml1Count := count } })

section Steady

variable {V : Type} {view : MemoryController → V} {rel : V → V → Prop} [IsPreorder V rel]

theorem readEntry_moves (table : PageTable) (index : TableIndex) : Moves view rel (readEntry table index) := by
  apply Moves.of_same
  intro mc
  rw [readEntry]
  split <;> rfl

theorem getCurrentPhys_moves : Moves view rel TempMapper.getCurrentPhys := Moves.of_same fun _ => rfl

variable (steady : Steady view)

include steady

variable (table : PageTable) (index : TableIndex) (page : Page) (frame : Nat) (flags : EntryFlags)

theorem writeEntry_moves (entry : PageTableEntry) : Moves view rel (writeEntry table index entry) := by
  apply Moves.of_same
  intro mc
  rw [writeEntry]
  split
  · exact steady.memory mc _
  · rfl

theorem writePage_moves (addr size : Nat) (source : Nat → UInt8) :
    Moves view rel (writePage page addr size source) := by
  apply Moves.of_same
  intro mc
  rw [writePage]
  split
  · exact steady.memory mc _
  · rfl

theorem writePages_moves (addr size : Nat) (source : Nat → UInt8) (pages : List Page) :
    Moves view rel (writePages addr size source pages) := by
  induction pages with
  | nil => exact .pure ()
  | cons page rest ih => exact (writePage_moves steady page addr size source).bind fun _ => ih

theorem writeBytes_moves (addr size : Nat) (source : Nat → UInt8) : Moves view rel (writeBytes addr size source) := by
  rw [writeBytes]
  split
  · exact .pure ()
  · exact writePages_moves steady addr size source _

theorem copyPage_moves (source target : Nat) : Moves view rel (copyPage source target) := by
  apply Moves.of_same
  intro mc
  rw [copyPage]
  split
  · exact steady.memory mc _
  · rfl

theorem set_moves : Moves view rel (TempMapper.set frame) := by
  apply Moves.of_same
  intro mc
  rw [TempMapper.set]
  split
  · exact steady.window mc _
  · rfl

theorem falloc_moves : Moves view rel SimplePageFrameAllocator.falloc := by
  apply Moves.of_same
  intro mc
  rw [SimplePageFrameAllocator.falloc]
  dsimp only
  split
  · exact steady.frames mc _
  · split
    · rfl
    · split
      · rfl
      · exact steady.frames mc _

theorem freeFrame_moves : Moves view rel (SimplePageFrameAllocator.free frame) :=
  Moves.of_same fun mc => steady.frames mc _

theorem nextTableTemp_moves : Moves view rel (table.nextTableTemp index) := by
  rw [PageTable.nextTableTemp]
  refine (readEntry_moves table index).bind fun entry => ?_
  split
  · exact .fail
  · exact (Moves.ofOption _).bind fun frame => (set_moves steady frame).bind fun _ => .pure _

theorem lastTable_moves : Moves view rel (table.lastTable page) :=
  (nextTableTemp_moves steady table _).bind fun pml3 =>
    (nextTableTemp_moves steady pml3 _).bind fun pml2 => nextTableTemp_moves steady pml2 _

theorem translateToPhys_moves (addr : Nat) : Moves view rel (table.translateToPhys addr) :=
  (lastTable_moves steady table _).bind fun pml1 =>
    (readEntry_moves pml1 _).bind fun _ => Moves.ofOption _

theorem setEntry_moves : Moves view rel (table.setEntry index frame flags) := by
  rw [PageTable.setEntry]
  split
  · exact writeEntry_moves steady table index _
  · exact .halt

theorem unmap_moves : Moves view rel (table.unmap page) :=
  (lastTable_moves steady table page).bind fun pml1 =>
    (readEntry_moves pml1 _).bind fun _ =>
      (Moves.ofOption _).bind fun _ => (writeEntry_moves steady pml1 _ _).bind fun _ => .pure _

section Mapping

variable {alloc : McM Nat} (allocs : Moves view rel alloc)

include allocs

theorem nextTableCreate_moves : Moves view rel (table.nextTableCreate alloc index flags) := by
  rw [PageTable.nextTableCreate]
  refine (readEntry_moves table index).bind fun entry => ?_
  split
  · refine allocs.unwrap.bind fun slot => getCurrentPhys_moves.bind fun currentPhys => ?_
    refine (translateToPhys_moves steady _ slot).unwrap.bind fun slotPhys => (set_moves steady currentPhys).bind fun _ => ?_
    exact (setEntry_moves steady table index slotPhys flags).bind fun _ => .pure _
  · have next : Moves view rel (unwrap (table.nextTableTemp index)) := (nextTableTemp_moves steady table index).unwrap
    dsimp only
    split
    · cases entry.getFrame with
      | none => exact (Moves.pure ()).bind fun _ => next
      | some frame => exact (setEntry_moves steady table index frame _).bind fun _ => next
    · exact (Moves.pure ()).bind fun _ => next

theorem mapTo_moves : Moves view rel (table.mapTo alloc page frame flags) :=
  (nextTableCreate_moves steady table _ _ allocs).bind fun pml3 =>
    (nextTableCreate_moves steady pml3 _ _ allocs).bind fun pml2 =>
      (nextTableCreate_moves steady pml2 _ _ allocs).bind fun pml1 => setEntry_moves steady pml1 _ frame _

theorem map_moves : Moves view rel (table.map alloc page flags) :=
  (falloc_moves steady).unwrap.bind fun frame => mapTo_moves steady table page frame flags allocs

theorem mapPages_moves (pages : List Page) : Moves view rel (table.mapPages alloc flags pages) := by
  induction pages with
  | nil => exact .pure ()
  | cons page rest ih => exact (map_moves steady table page flags allocs).bind fun _ => ih

end Mapping

variable (slots : SlotMoves view rel)

include slots

theorem allocWith_moves {extend : McM Unit} (extends_ : Moves view rel extend) :
    Moves view rel (allocWith extend) := by
  have finish (addr : Nat) : Moves view rel (do
      let after ← get
      put { after with
        slotAllocator :=
          { after.slotAllocator with allocatedPageTables := after.slotAllocator.allocatedPageTables + 1 } }
      pure addr) := by
    refine Moves.get_bind fun after => ?_
    exact Moves.put_at (slots.counted after _) (.pure addr)
  refine Moves.get_bind fun mc => ?_
  cases free : mc.slotAllocator.freeSlots with
  | cons addr rest =>
    exact Moves.put_at (slots.pop mc addr rest free)
      ((writeBytes_moves steady addr pageSize _).bind fun _ => finish addr)
  | nil =>
    refine Moves.put_at (slots.bump mc) ?_
    split
    · exact extends_.bind fun _ => finish _
    · exact (Moves.pure ()).bind fun _ => finish _

theorem extendRegion_moves {alloc : McM Nat} (allocs : Moves view rel alloc) :
    Moves view rel (extendRegion alloc) := by
  refine Moves.get_bind fun mc => ?_
  refine Moves.bind_at (mapPages_moves steady _ _ allocs _ mc) fun _ => ?_
  exact Moves.get_bind fun after => slots.extended after _

/-- Slots are allocated and regions extended without any other change. -/
theorem alloc_moves : Moves view rel alloc := by
  have inner : Moves view rel (allocFuel 0) := allocWith_moves steady slots .halt
  exact allocWith_moves steady slots (extendRegion_moves steady slots inner)

theorem mapRange_moves (table : PageTable) (start last : Page) (flags : EntryFlags) :
    Moves view rel (table.mapRange alloc start last flags) :=
  mapPages_moves steady table flags (alloc_moves steady slots) _

end Steady

section Decides

variable (table : PageTable) (index : TableIndex) (page : Page) (frame : Nat) (flags : EntryFlags)

theorem readEntry_decides : Decides (readEntry table index) := by
  intro mc
  rw [readEntry]
  split <;> intro missing <;> cases missing

theorem writeEntry_decides (entry : PageTableEntry) : Decides (writeEntry table index entry) := by
  intro mc
  rw [writeEntry]
  split <;> intro missing <;> cases missing

theorem set_decides : Decides (TempMapper.set frame) := by
  intro mc
  rw [TempMapper.set]
  split <;> intro missing <;> cases missing

theorem setEntry_decides : Decides (table.setEntry index frame flags) := by
  rw [PageTable.setEntry]
  split
  · exact writeEntry_decides table index _
  · exact .halt

theorem nextTableCreate_decides (alloc : McM Nat) : Decides (table.nextTableCreate alloc index flags) := by
  have next : Decides (unwrap (table.nextTableTemp index)) := .unwrap _
  rw [PageTable.nextTableCreate]
  refine (readEntry_decides table index).bind fun entry => ?_
  split
  · refine (Decides.unwrap alloc).bind fun slot => Decides.bind (fun _ missing => by cases missing) fun currentPhys => ?_
    refine (Decides.unwrap _).bind fun slotPhys => (set_decides currentPhys).bind fun _ => ?_
    exact (setEntry_decides table index slotPhys flags).bind fun _ => .pure _
  · dsimp only
    split
    · cases entry.getFrame with
      | none => exact (Decides.pure ()).bind fun _ => next
      | some frame => exact (setEntry_decides table index frame _).bind fun _ => next
    · exact (Decides.pure ()).bind fun _ => next

/-- A page is mapped, or the kernel stops. -/
theorem mapTo_decides (alloc : McM Nat) : Decides (table.mapTo alloc page frame flags) :=
  (nextTableCreate_decides table _ _ alloc).bind fun pml3 =>
    (nextTableCreate_decides pml3 _ _ alloc).bind fun pml2 =>
      (nextTableCreate_decides pml2 _ _ alloc).bind fun pml1 => setEntry_decides pml1 _ frame _

theorem mapPages_decides (alloc : McM Nat) (pages : List Page) : Decides (table.mapPages alloc flags pages) := by
  induction pages with
  | nil => exact .pure ()
  | cons page rest ih =>
    refine Decides.bind ?_ fun _ => ih
    exact (Decides.unwrap _).bind fun frame => mapTo_decides table page frame flags alloc

theorem writePages_decides (addr size : Nat) (source : Nat → UInt8) (pages : List Page) :
    Decides (writePages addr size source pages) := by
  induction pages with
  | nil => exact .pure ()
  | cons page rest ih =>
    refine Decides.bind (fun mc => ?_) fun _ => ih
    rw [writePage]
    split <;> intro missing <;> cases missing

theorem writeBytes_decides (addr size : Nat) (source : Nat → UInt8) : Decides (writeBytes addr size source) := by
  rw [writeBytes]
  split
  · exact .pure ()
  · exact writePages_decides addr size source _

theorem allocWith_decides {extend : McM Unit} (extends_ : Decides extend) : Decides (allocWith extend) := by
  have finish (addr : Nat) : Decides (do
      let after ← get
      put { after with
        slotAllocator :=
          { after.slotAllocator with allocatedPageTables := after.slotAllocator.allocatedPageTables + 1 } }
      pure addr : McM Nat) :=
    Decides.get.bind fun after => (Decides.put _).bind fun _ => .pure addr
  refine Decides.get.bind fun mc => ?_
  split
  · exact (Decides.put _).bind fun _ => (writeBytes_decides _ _ _).bind fun _ => finish _
  · refine (Decides.put _).bind fun _ => ?_
    split
    · exact extends_.bind fun _ => finish _
    · exact finish _

/-- A slot is returned, or the kernel stops. -/
theorem alloc_decides : Decides alloc := by
  refine allocWith_decides (Decides.get.bind fun mc => ?_)
  exact (mapPages_decides _ _ _ _).bind fun _ => Decides.get.bind fun after => .put _

end Decides

namespace PageTableSlotAllocator

variable {before after : PageTableSlotAllocator}

/-- A slot is in use from the call that returns it to the call that frees it. -/
def InUse (slots : PageTableSlotAllocator) (addr : Nat) : Prop :=
  addr % pageSize = 0 ∧ slots.regionStart ≤ addr ∧ addr < slots.regionStart + slots.lastPml1Slot * pageSize ∧
    addr ∉ slots.freeSlots

/-- Slots are taken, and none is given back. -/
structure Grows (before after : PageTableSlotAllocator) : Prop where
  start : after.regionStart = before.regionStart
  last : before.lastPml1Slot ≤ after.lastPml1Slot
  free : after.freeSlots.Sublist before.freeSlots

instance : IsPreorder PageTableSlotAllocator Grows where
  refl _ := ⟨rfl, Nat.le_refl _, .refl _⟩
  trans _ _ _ first second :=
    ⟨second.start.trans first.start, Nat.le_trans first.last second.last, second.free.trans first.free⟩

theorem InUse.grows {addr : Nat} (used : before.InUse addr) (grows : Grows before after) : after.InUse addr := by
  obtain ⟨aligned, low, high, taken⟩ := used
  have further := Nat.mul_le_mul_right pageSize grows.last
  refine ⟨aligned, ?_, ?_, fun free => taken (grows.free.subset free)⟩
  · rw [grows.start]
    exact low
  · rw [grows.start]
    omega

/-- The free slots are distinct slots of the region. -/
structure Sound (slots : PageTableSlotAllocator) : Prop where
  start : slots.regionStart = pageTableRegionStart
  distinct : slots.freeSlots.Nodup
  inside : ∀ addr ∈ slots.freeSlots, addr % pageSize = 0 ∧ slots.regionStart ≤ addr ∧
    addr < slots.regionStart + slots.lastPml1Slot * pageSize

theorem Sound.grows (sound : before.Sound) (grows : Grows before after) : after.Sound := by
  refine ⟨grows.start.trans sound.start, grows.free.nodup sound.distinct, fun addr free => ?_⟩
  obtain ⟨aligned, low, high⟩ := sound.inside addr (grows.free.subset free)
  have further := Nat.mul_le_mul_right pageSize grows.last
  rw [grows.start]
  exact ⟨aligned, low, by omega⟩

/-- A call may free slots, and the free slots stay in order. -/
def Keeps (before after : PageTableSlotAllocator) : Prop := before.Sound → after.Sound

instance : IsPreorder PageTableSlotAllocator Keeps where
  refl _ sound := sound
  trans _ _ _ first second sound := second (first sound)

theorem steady : Steady slotAllocator := ⟨fun _ _ => rfl, fun _ _ => rfl, fun _ _ => rfl⟩

theorem grows_moves : SlotMoves slotAllocator Grows where
  pop _ addr rest free := ⟨rfl, Nat.le_refl _, by rw [free]; exact List.sublist_cons_self addr rest⟩
  bump _ := ⟨rfl, Nat.le_succ _, .refl _⟩
  counted _ _ := ⟨rfl, Nat.le_refl _, .refl _⟩
  extended _ _ := ⟨rfl, Nat.le_refl _, .refl _⟩

theorem keeps_moves : SlotMoves slotAllocator Keeps where
  pop mc addr rest free sound := sound.grows (grows_moves.pop mc addr rest free)
  bump mc sound := sound.grows (grows_moves.bump mc)
  counted mc count sound := sound.grows (grows_moves.counted mc count)
  extended mc count sound := sound.grows (grows_moves.extended mc count)

/-- A freed slot lies in the region and was not free. -/
theorem free_keeps (addr : Nat) : Moves slotAllocator Keeps (free addr) := by
  intro mc sound
  rw [free, get_bind]
  split
  · exact sound
  · rename_i valid
    split
    · exact sound
    · rename_i inside
      rw [not_or, not_not] at valid
      rw [not_or] at inside
      refine ⟨sound.start, List.nodup_cons.mpr ⟨inside.2, sound.distinct⟩, fun other member => ?_⟩
      rcases List.mem_cons.mp member with rfl | old
      · exact ⟨valid.2, Nat.le_of_not_lt valid.1, Nat.lt_of_not_le inside.1⟩
      · exact sound.inside other old

/-- A returned slot was not in use, and the call takes it. -/
theorem allocWith_fresh {extend : McM Unit} (extends_ : Moves slotAllocator Grows extend)
    {mc after : MemoryController} {slot : Nat} (sound : mc.slotAllocator.Sound)
    (returned : allocWith extend mc = (.value slot, after)) :
    ¬ mc.slotAllocator.InUse slot ∧ after.slotAllocator.InUse slot := by
  rw [allocWith, get_bind] at returned
  cases free : mc.slotAllocator.freeSlots with
  | cons addr rest =>
    rw [free] at returned
    dsimp only at returned
    rw [put_bind, bind_eq_value_iff] at returned
    obtain ⟨_, written, write, returned⟩ := returned
    have kept : Grows { mc.slotAllocator with freeSlots := rest } written.slotAllocator := by
      have moved : Grows _ _ := writeBytes_moves steady addr pageSize (fun _ => 0)
        { mc with slotAllocator := { mc.slotAllocator with freeSlots := rest } }
      rw [write] at moved
      exact moved
    rw [get_bind, put_bind] at returned
    injection returned with same final
    injection same with same
    subst same final
    obtain ⟨aligned, low, high⟩ := sound.inside addr (by rw [free]; exact List.mem_cons_self)
    have distinct := sound.distinct
    rw [free, List.nodup_cons] at distinct
    refine ⟨fun used => used.2.2.2 (by rw [free]; exact List.mem_cons_self), ?_⟩
    have used : PageTableSlotAllocator.InUse { mc.slotAllocator with freeSlots := rest } addr :=
      ⟨aligned, low, high, distinct.1⟩
    exact (used.grows kept).grows (grows_moves.counted written _)
  | nil =>
    rw [free] at returned
    dsimp only at returned
    rw [put_bind] at returned
    have finish : ∃ extended : MemoryController,
        Grows { mc.slotAllocator with lastPml1Slot := mc.slotAllocator.lastPml1Slot + 1 } extended.slotAllocator ∧
        (do
          let after ← get
          put { after with
            slotAllocator :=
              { after.slotAllocator with allocatedPageTables := after.slotAllocator.allocatedPageTables + 1 } }
          pure (pageTableRegionStart + mc.slotAllocator.lastPml1Slot * pageSize) : McM Nat) extended =
            (.value slot, after) := by
      split at returned
      · obtain ⟨_, extended, extension, finished⟩ := (bind_eq_value_iff _ _ _ _ _).mp returned
        have moved := extends_ { mc with
          slotAllocator := { mc.slotAllocator with lastPml1Slot := mc.slotAllocator.lastPml1Slot + 1 } }
        rw [extension] at moved
        exact ⟨extended, moved, finished⟩
      · exact ⟨_, refl_of Grows _, returned⟩
    obtain ⟨extended, kept, returned⟩ := finish
    rw [get_bind, put_bind] at returned
    injection returned with same final
    injection same with same
    subst same final
    have start := sound.start
    refine ⟨fun used => ?_, ?_⟩
    · have high := used.2.2.1
      rw [start] at high
      exact absurd high (Nat.lt_irrefl _)
    · have used : PageTableSlotAllocator.InUse
          { mc.slotAllocator with lastPml1Slot := mc.slotAllocator.lastPml1Slot + 1 }
          (pageTableRegionStart + mc.slotAllocator.lastPml1Slot * pageSize) := by
        refine ⟨?_, ?_, ?_, ?_⟩
        · rw [Nat.add_mul_mod_self_right]
          decide
        · rw [start]
          exact Nat.le_add_right _ _
        · change _ < mc.slotAllocator.regionStart + (mc.slotAllocator.lastPml1Slot + 1) * pageSize
          rw [start, pageSize]
          omega
        · change _ ∉ mc.slotAllocator.freeSlots
          rw [free]
          exact List.not_mem_nil
      exact (used.grows kept).grows (grows_moves.counted extended _)

theorem alloc_fresh {mc after : MemoryController} {slot : Nat} (sound : mc.slotAllocator.Sound)
    (returned : alloc mc = (.value slot, after)) :
    ¬ mc.slotAllocator.InUse slot ∧ after.slotAllocator.InUse slot := by
  have inner : Moves slotAllocator Grows (allocFuel 0) := allocWith_moves steady grows_moves .halt
  exact allocWith_fresh (extendRegion_moves steady grows_moves inner) sound returned

end PageTableSlotAllocator

section Calls

variable {rel : PageTableSlotAllocator → PageTableSlotAllocator → Prop} [IsPreorder PageTableSlotAllocator rel]

theorem readEntries_slots (table : PageTable) : Moves slotAllocator rel (readEntries table) := by
  apply Moves.of_same
  intro mc
  rw [readEntries]
  split <;> rfl

theorem unmapPages_slots (pages : List Page) : Moves slotAllocator rel (unmapPages pages) := by
  induction pages with
  | nil => exact .pure ()
  | cons page rest ih =>
    refine Moves.get_bind fun mc => ?_
    refine Moves.bind_at ((unmap_moves steady mc.activeTable page).orNone mc) fun found => ?_
    cases found with
    | none => exact (Moves.pure ()).bind fun _ => ih
    | some frame => exact (freeFrame_moves steady frame).bind fun _ => ih

theorem freeStackRange_slots (stack : Stack) : Moves slotAllocator rel (StackAllocator.free stack) := by
  rw [StackAllocator.free]
  split
  · exact .pure ()
  · exact Moves.get_bind fun mc => refl_of rel _

theorem freeStack_slots (stack : Stack) : Moves slotAllocator rel (freeStack stack) := by
  rw [freeStack]
  split
  · exact .pure ()
  · exact (writeBytes_moves steady _ _ _).bind fun _ =>
      (unmapPages_slots _).bind fun _ => freeStackRange_slots stack

theorem toStack_slots (start last : Page) : Moves slotAllocator rel (StackAllocator.toStack start last) := by
  rw [StackAllocator.toStack]
  split
  · exact .halt
  · exact .pure _

theorem switchTable_slots (table : PageTable) : Moves slotAllocator rel (switchTable table) := by
  rw [switchTable]
  split
  · exact .fail
  · refine Moves.get_bind fun mc => ?_
    refine Moves.bind_at (translateToPhys_moves steady mc.activeTable table.addr mc) fun frame => ?_
    exact Moves.get_bind fun after => refl_of rel _

theorem isUnused_slots (table : PageTable) (page : Page) :
    Moves slotAllocator rel (table.isUnused page) := by
  refine (lastTable_moves steady table page).orNone.bind fun found => ?_
  cases found with
  | none => exact .pure _
  | some pml1 => exact (readEntry_moves pml1 _).bind fun _ => .pure _

theorem collectPml2_slots (entries : List PageTableEntry) :
    Moves slotAllocator rel (PageTable.collectPml2 entries) := by
  induction entries with
  | nil => exact .pure _
  | cons entry rest ih =>
    rw [PageTable.collectPml2]
    split
    · exact ih
    · exact (set_moves steady _).bind fun addr =>
        (readEntries_slots _).bind fun _ => ih.bind fun _ => .pure _

theorem collectPml3_slots (table : PageTable) (indices : List TableIndex) :
    Moves slotAllocator rel (table.collectPml3 indices) := by
  induction indices with
  | nil => exact .pure _
  | cons index rest ih =>
    refine (readEntry_moves table index).bind fun entry => ?_
    split
    · exact ih
    · exact (set_moves steady _).bind fun addr => (readEntries_slots _).bind fun entries =>
        (collectPml2_slots entries).bind fun _ => ih.bind fun _ => .pure _

theorem findSlot_slots (frame : Nat) (slots : List Nat) :
    Moves slotAllocator rel (findSlot frame slots) := by
  induction slots with
  | nil => exact .fail
  | cons slot rest ih =>
    refine Moves.get_bind fun mc => ?_
    refine Moves.bind_at ((translateToPhys_moves steady _ _).orNone mc) fun found => ?_
    split
    · split
      · exact .pure _
      · exact ih
    · exact ih

section Frees

variable (frees : ∀ addr, Moves slotAllocator rel (free addr))

include frees

theorem freeFrames_slots (frames : List Nat) :
    Moves slotAllocator rel (freeFrames frames) := by
  induction frames with
  | nil => exact .pure ()
  | cons frame rest ih =>
    have found : Moves slotAllocator rel (addrForFrame frame) :=
      Moves.get_bind fun mc => findSlot_slots frame _ mc
    refine found.orNone.bind fun addr => ?_
    cases addr with
    | none => exact (Moves.pure ()).bind fun _ => ih
    | some addr => exact (frees addr).bind fun _ => ih

theorem freeUserSubtables_slots (table : PageTable) :
    Moves slotAllocator rel table.freeUserSubtables :=
  (collectPml3_slots table _).bind fun frames => freeFrames_slots frees frames

end Frees

variable (slots : SlotMoves slotAllocator rel)

include slots

theorem mapFrames_slots (table : PageTable) (flags : EntryFlags) (frames : List Nat) :
    Moves slotAllocator rel (mapFrames table flags frames) := by
  have allocs := alloc_moves steady slots
  induction frames with
  | nil => exact .pure ()
  | cons frame rest ih =>
    exact (mapTo_moves steady table _ frame flags allocs).bind fun _ => ih

theorem identityMap_slots (start last : Nat) (flags : EntryFlags) :
    Moves slotAllocator rel (identityMap start last flags) := by
  refine Moves.get_bind fun mc => Moves.bind_at (isUnused_slots mc.activeTable _ mc) fun unused => ?_
  split
  · exact .pure ()
  · exact mapFrames_slots slots mc.activeTable flags _

theorem stackAlloc_slots (table : PageTable) (pagesToAlloc : Nat) (flags : EntryFlags) :
    Moves slotAllocator rel (StackAllocator.alloc table pagesToAlloc flags) := by
  have mapped (start last : Page) : Moves slotAllocator rel (do
      table.mapRange alloc start last flags
      StackAllocator.toStack start last) :=
    (mapRange_moves steady slots table start last flags).bind fun _ => toStack_slots start last
  rw [StackAllocator.alloc]
  split
  · exact .fail
  · intro mc
    rw [get_bind]
    cases StackAllocator.takeRange pagesToAlloc mc.stackAllocator.freeRanges with
    | some taken => exact mapped _ _ { mc with stackAllocator := { mc.stackAllocator with freeRanges := taken.2 } }
    | none =>
      cases StackAllocator.cutRange mc.stackAllocator.range pagesToAlloc with
      | some cut => exact mapped _ _ { mc with stackAllocator := { mc.stackAllocator with range := cut.2.2 } }
      | none => exact refl_of rel _

theorem cloneKernelTable_slots : Moves slotAllocator rel cloneKernelTable :=
  (alloc_moves steady slots).bind fun slot => Moves.get_bind fun mc =>
    Moves.bind_at (copyPage_moves steady _ slot mc) fun _ => .pure _

end Calls

/-- The table of a process takes a slot. -/
theorem cloneKernelTable_fresh {mc after : MemoryController} {table : PageTable} (sound : mc.slotAllocator.Sound)
    (returned : cloneKernelTable mc = (.value table, after)) :
    ¬ mc.slotAllocator.InUse table.addr ∧ after.slotAllocator.InUse table.addr := by
  obtain ⟨slot, between, taken, copied⟩ := (bind_eq_value_iff _ _ _ _ _).mp returned
  have fresh := alloc_fresh sound taken
  rw [get_bind] at copied
  obtain ⟨_, last, copy, copied⟩ := (bind_eq_value_iff _ _ _ _ _).mp copied
  have kept : PageTableSlotAllocator.Grows _ _ :=
    copyPage_moves steady between.kernelTable.addr slot between
  rw [copy] at kept
  injection copied with same final
  injection same with same
  rw [← same, ← final]
  exact ⟨fresh.1, fresh.2.grows kept⟩

theorem cloneKernelTable_decides : Decides cloneKernelTable := by
  refine alloc_decides.bind fun slot => Decides.get.bind fun mc => Decides.bind (fun between => ?_) fun _ => .pure _
  rw [copyPage]
  split <;> intro missing <;> cases missing

end BubbleOs.Paging
