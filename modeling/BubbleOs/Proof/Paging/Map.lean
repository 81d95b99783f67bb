import BubbleOs.Proof.Paging.Create

namespace BubbleOs.Paging

open Attempt MemoryController PageTable

/-- The allocator serves as many tables as the invariant counts, and new pages appear only at the reserved paths. -/
structure TableSource (alloc : McM Nat) (roots : Set Nat) (kernel : Nat) (reserved : Set (List TableIndex))
    (inv : Nat → MemoryController → Prop) : Prop where
  forest : ∀ count mc, inv count mc → Forest mc.memory roots
  active : ∀ count mc, inv count mc → mc.cr3 ∈ roots
  upper : ∀ count mc, inv count mc → ∀ root ∈ roots, ∀ page ∈ reserved, ∀ path, path.length ≤ 2 → path <+: page →
    follow (links mc.memory) root path ≠ none
  upgraded : ∀ count mc, inv count mc → ∀ later target, Forest later roots → Grown roots mc.memory later ∅ ∅ →
    target * pageSize < 0x10000000000000 → inv count (MemoryController.windowed { mc with memory := later } target)
  created : ∀ count mc, inv (count + 1) mc → ∃ slot fresh between used added,
    Allocated alloc mc between roots kernel slot fresh used added ∧ added ⊆ reserved ∧
    (¬ mc.slotAllocator.Extends → between.tempMapper.frame = mc.tempMapper.frame ∧ added = ∅) ∧
    (∀ root ∈ roots, ∀ path, path.length ≤ 3 → follow (links between.memory) root path ≠ none →
      follow (links mc.memory) root path ≠ none ∨ ∃ page ∈ added, path <+: page) ∧
    ∀ later, Forest later roots → Grown roots between.memory later (Set.singleton fresh) ∅ → Held later roots fresh →
      inv count { between with memory := later }

/-- The walk has arrived at a table and has created the tables on its way. -/
structure AtPlace (start mc : MemoryController) (roots : Set Nat) (inv : Nat → MemoryController → Prop)
    (reserved : Set (List TableIndex)) (home : Nat) (place rest : List TableIndex) (flags : EntryFlags) (table : PageTable)
    (frame : Nat) : Prop where
  invariant : inv (missing (links mc.memory) frame rest) mc
  same : SameMachine start mc
  grown : ∃ used added, Grown roots start.memory mc.memory used added ∧ added ⊆ reserved
  found : follow (links mc.memory) home place = some frame
  handle : (mc.slotAllocator = start.slotAllocator ∧ links mc.memory = links start.memory ∧
      mc.Shows table.addr frame ∧ (place = [] → mc.SlotAt table.addr frame)) ∨
    (mc.SlotAt table.addr frame ∧ (∀ index, mc.memory frame index = 0) ∧ follow (links start.memory) home place = none)
  flagged : ∀ front index, front ++ [index] <+: place → ∀ visited, follow (links mc.memory) home front = some visited →
    (PageTableEntry.flags (mc.memory visited index)).contains flags = true
  news : ∀ root ∈ roots, ∀ path, path.length ≤ 3 → follow (links mc.memory) root path ≠ none →
    follow (links start.memory) root path ≠ none ∨ path <+: place ∨ ∃ page ∈ reserved, path <+: page

namespace AtPlace

variable {start mc : MemoryController} {roots : Set Nat} {inv : Nat → MemoryController → Prop}
  {reserved : Set (List TableIndex)} {alloc : McM Nat} {kernel home frame : Nat} {place rest : List TableIndex}
  {flags : EntryFlags} {table : PageTable} {index : TableIndex} {wanted : EntryFlags}

theorem shows_frame (arrival : AtPlace start mc roots inv reserved home place rest flags table frame) : mc.Shows table.addr frame := by
  rcases arrival.handle with ⟨_, _, shown, _⟩ | ⟨slot, _⟩
  · exact shown
  · exact .inr slot

/-- Entries on the way keep their flags in larger tables. -/
theorem flagged_later {later : Memory} {used : Set Nat} {added : Set (List TableIndex)}
    (arrival : AtPlace start mc roots inv reserved home place (index :: rest) flags table frame) (inside : home ∈ roots)
    (high : place.length ≤ 2) (grown : Grown roots mc.memory later used added)
    (last : (PageTableEntry.flags (later frame index)).contains flags = true) (front : List TableIndex) (slot : TableIndex)
    (ahead : front ++ [slot] <+: place ++ [index]) (visited : Nat) (reached : follow (links later) home front = some visited) :
    (PageTableEntry.flags (later visited slot)).contains flags = true := by
  have found := arrival.found
  rcases List.prefix_concat_iff.mp ahead with same | earlier
  · obtain ⟨rfl, equal⟩ := List.append_inj' same rfl
    obtain rfl := List.singleton_inj.mp equal
    rw [grown.keeps home inside front (by omega) frame found, Option.some.injEq] at reached
    rw [← reached]
    exact last
  · have bound := earlier.length_le
    rw [List.length_append, List.length_singleton] at bound
    obtain ⟨tail, split⟩ := (List.prefix_append front [slot]).trans earlier
    obtain ⟨old, passed⟩ : ∃ old, follow (links mc.memory) home front = some old := by
      rw [← split, follow_append, Option.bind_eq_some_iff] at found
      obtain ⟨old, passed, _⟩ := found
      exact ⟨old, passed⟩
    rw [grown.keeps home inside front (by omega) old passed, Option.some.injEq] at reached
    rw [← reached]
    exact grown.flags home inside front (by omega) old passed slot flags (arrival.flagged front slot earlier old passed)

/-- An existing table is entered through the window. -/
theorem enter {target : Nat} (source : TableSource alloc roots kernel reserved inv)
    (arrival : AtPlace start mc roots inv reserved home place (index :: rest) (tableFlags wanted) table frame)
    (inside : home ∈ roots) (high : place.length ≤ 2) (link : links mc.memory frame index = some target) :
    ∃ next after, table.nextTableCreate alloc index (tableFlags wanted) mc = (.value next, after) ∧
      AtPlace start after roots inv reserved home (place ++ [index]) rest (tableFlags wanted) next target := by
  have forest := source.forest _ _ arrival.invariant
  obtain ⟨later, created, forestLater, grown, same, last⟩ := nextTableCreate_existing alloc forest
    (source.active _ _ arrival.invariant) inside arrival.found high arrival.shows_frame link wanted
  obtain ⟨used, added, before, allowed⟩ := arrival.grown
  refine ⟨_, _, created, ?_⟩
  constructor
  · have count : missing (links later) target rest = missing (links mc.memory) frame (index :: rest) := by
      rw [missing_some link, same]
    change inv (missing (links later) target rest) _
    rw [count]
    exact source.upgraded _ _ arrival.invariant later target forestLater grown (PageTableEntry.getFrame_lt link)
  · exact arrival.same.trans ⟨rfl, rfl, rfl, rfl, rfl⟩
  · exact ⟨used ∪ ∅, added ∪ ∅, before.trans grown, by rw [Set.union_empty]; exact allowed⟩
  · change follow (links later) home (place ++ [index]) = some target
    rw [follow_snoc, grown.keeps home inside place (by omega) frame arrival.found, Option.bind_some, same, link]
  · rcases arrival.handle with ⟨allocator, old, _, _⟩ | ⟨_, cleared, _⟩
    · exact .inl ⟨allocator, same.trans old, .inl ⟨rfl, rfl⟩, fun empty => absurd empty (by simp)⟩
    · rw [links, cleared, PageTableEntry.getFrame_zero] at link
      contradiction
  · exact fun front slot ahead visited reached =>
      arrival.flagged_later inside high grown last front slot ahead visited reached
  · intro root member path short reached
    have old : follow (links mc.memory) root path ≠ none := by
      rw [← same]
      exact reached
    exact (arrival.news root member path short old).imp_right fun ahead =>
      ahead.imp_left fun before => before.trans (List.prefix_append _ _)

variable (source : TableSource alloc roots kernel reserved inv)
  (arrival : AtPlace start mc roots inv reserved home place (index :: rest) (tableFlags wanted) table frame)
  (inside : home ∈ roots) (high : place.length ≤ 2)

include source arrival inside high

/-- A missing table is created, unless the window shows its parent and the region is extended. -/
theorem create (link : links mc.memory frame index = none)
    (initial : ∀ page ∈ reserved, ∀ path, path.length ≤ 2 → path <+: page → follow (links start.memory) home path ≠ none)
    (safe : place ≠ [] → links mc.memory = links start.memory → ¬ start.slotAllocator.Extends) :
    ∃ next after target, table.nextTableCreate alloc index (tableFlags wanted) mc = (.value next, after) ∧
      AtPlace start after roots inv reserved home (place ++ [index]) rest (tableFlags wanted) next target := by
  have forest := source.forest _ _ arrival.invariant
  have active := source.active _ _ arrival.invariant
  have invariant := arrival.invariant
  rw [missing_none link] at invariant
  obtain ⟨slot, fresh, between, used, added, allocated, allowed, calm, newTables, kept⟩ := source.created _ _ invariant
  have ahead : follow (links mc.memory) home (place ++ [index]) = none := by
    rw [follow_snoc, arrival.found, Option.bind_some, link]
  have short : (place ++ [index]).length ≤ 3 := by
    rw [List.length_append, List.length_singleton]
    omega
  have foundLater := allocated.grown.keeps home inside place (by omega) frame arrival.found
  obtain ⟨oldUsed, oldAdded, before, oldAllowed⟩ := arrival.grown
  have absent : follow (links start.memory) home (place ++ [index]) = none := by
    cases old : follow (links start.memory) home (place ++ [index]) with
    | none => rfl
    | some target =>
      rw [before.keeps home inside _ short target old] at ahead
      contradiction
  have still : between.Shows table.addr frame := by
    rcases arrival.handle with ⟨allocator, old, shown, root⟩ | ⟨slot, _⟩
    · by_cases top : place = []
      · exact .inr ((root top).grown active allocated.same allocated.grown)
      · have window := calm (allocator ▸ safe top old)
        rcases shown with ⟨addr, frame⟩ | slot
        · exact .inl ⟨addr.trans allocated.same.tempAddr.symm, window.1.trans frame⟩
        · exact .inr (slot.grown active allocated.same allocated.grown)
    · exact .inr (slot.grown active allocated.same allocated.grown)
  have empty : links between.memory frame index = none := by
    by_contra present
    have reached : follow (links between.memory) home (place ++ [index]) ≠ none := by
      rw [follow_snoc, foundLater, Option.bind_some]
      exact present
    rcases newTables home inside _ short reached with old | ⟨page, new, begins⟩
    · exact old ahead
    · rcases arrival.handle with ⟨allocator, old, _, _⟩ | ⟨_, _, missing⟩
      · by_cases top : place = []
        · subst top
          exact source.upper _ _ invariant home inside page (allowed new) ([] ++ [index]) (by simp) begins ahead
        · rw [(calm (allocator ▸ safe top old)).2] at new
          exact new
      · exact initial page (allowed new) place high ((List.prefix_append _ _).trans begins) missing
  obtain ⟨later, created, forestLater, grown, linked, cleared, last⟩ := nextTableCreate_new allocated forest active inside
    arrival.found high arrival.shows_frame still empty wanted
  have total := allocated.grown.trans grown
  have reached : follow (links later) home (place ++ [index]) = some fresh := by
    rw [follow_snoc, grown.keeps home inside place (by omega) frame foundLater, Option.bind_some, linked.added]
  have unmoved : SameMachine between { between with memory := later } := ⟨rfl, rfl, rfl, rfl, rfl⟩
  refine ⟨⟨slot⟩, { between with memory := later }, fresh, created, ?_⟩
  constructor
  · change inv (missing (links later) fresh rest) _
    rw [missing_empty _ rest]
    · exact kept later forestLater grown ⟨home, inside, place ++ [index], short, reached⟩
    · intro other
      rw [links, cleared, PageTableEntry.getFrame_zero]
  · exact arrival.same.trans (allocated.same.trans unmoved)
  · refine ⟨_, _, before.trans total, ?_⟩
    rw [Set.union_empty]
    exact Set.union_subset oldAllowed allowed
  · exact reached
  · refine .inr ⟨?_, cleared, absent⟩
    exact allocated.free.slot.grown (by rw [allocated.same.cr3]; exact active) unmoved grown
  · exact fun front slot ahead visited reached =>
      arrival.flagged_later inside high total last front slot ahead visited reached
  · intro root member path brief reached
    obtain ⟨target, arrived⟩ := Option.ne_none_iff_exists'.mp reached
    rcases linked.follow_cases arrived with old | ⟨_, front, rfl, old⟩
    · rcases newTables root member path brief (by rw [old]; exact Option.some_ne_none _) with earlier | ⟨page, new, begins⟩
      · exact (arrival.news root member path brief earlier).imp_right fun ahead =>
          ahead.imp_left fun before => before.trans (List.prefix_append _ _)
      · exact .inr (.inr ⟨page, allowed new, begins⟩)
    · rw [List.length_append, List.length_singleton] at brief
      rw [allocated.forest.planted root member home inside front place frame (by omega) (by omega) old foundLater]
      exact .inr (.inl (List.prefix_refl _))

/-- One more table is found or created. -/
theorem step
    (initial : ∀ page ∈ reserved, ∀ path, path.length ≤ 2 → path <+: page → follow (links start.memory) home path ≠ none)
    (safe : place ≠ [] → links mc.memory = links start.memory → links mc.memory frame index = none →
      ¬ start.slotAllocator.Extends) :
    ∃ next after target, table.nextTableCreate alloc index (tableFlags wanted) mc = (.value next, after) ∧
      AtPlace start after roots inv reserved home (place ++ [index]) rest (tableFlags wanted) next target := by
  cases link : links mc.memory frame index with
  | some target =>
    obtain ⟨next, after, created, arrived⟩ := arrival.enter source inside high link
    exact ⟨next, after, target, created, arrived⟩
  | none => exact arrival.create source inside high link initial fun top old => safe top old link

end AtPlace

/-- The entry of one page has changed, and the tables have grown by the listed frames. -/
structure Remapped (roots : Set Nat) (memory later : Memory) (home : Nat) (page : Page) (word : PageTableEntry)
    (used : Set Nat) (added : Set (List TableIndex)) : Prop where
  forest : Forest later roots
  leaf : leafEntry later home page = word
  others : ∀ root ∈ roots, ∀ other : Page, other.path ≠ page.path → other.path ∉ added →
    leafEntry later root other = leafEntry memory root other
  access : ∀ root ∈ roots, ∀ other : Page, other.path ≠ page.path → ∀ frame,
    follow (writableLinks memory) root other.path = some frame → follow (writableLinks later) root other.path = some frame
  onlyNew : ∀ frame, Held later roots frame → Held memory roots frame ∨ frame ∈ used
  untouched : ∀ frame, ¬ Held later roots frame → frame ∉ used → later frame = memory frame

namespace Remapped

variable {roots used : Set Nat} {memory middle : Memory} {home last : Nat} {page : Page} {word : Word}
  {added : Set (List TableIndex)}

theorem of_grown (inside : home ∈ roots) (forest : Forest middle roots) (grown : Grown roots memory middle used added)
    (found : follow (links middle) home page.upperPath = some last) :
    Remapped roots memory (middle.write last page.p1Index word) home page word used added := by
  have deep := page.upperPath_length
  have heldEq (frame : Nat) : Held (middle.write last page.p1Index word) roots frame ↔ Held middle roots frame := by
    constructor
    · rintro ⟨root, member, path, short, reached⟩
      rw [forest.follow_last inside deep found member short] at reached
      exact ⟨root, member, path, short, reached⟩
    · rintro ⟨root, member, path, short, reached⟩
      rw [← forest.follow_last inside deep found member short] at reached
      exact ⟨root, member, path, short, reached⟩
  constructor
  · exact forest.last inside deep found
  · rw [leafEntry_of_table ((forest.follow_last inside deep found inside deep.le).trans found), write_same]
  · intro root member other different outside
    rw [forest.leafEntry_last inside deep found member different, grown.leaves root member other outside]
  · intro root member other different frame reached
    exact forest.writableLinks_last inside deep found member different (grown.access root member other frame reached)
  · intro frame held
    exact grown.held_cases ((heldEq frame).mp held)
  · intro frame free unused
    rw [heldEq] at free
    funext slot
    rw [write_other, grown.others frame free unused]
    left
    rintro rfl
    exact free ⟨home, inside, page.upperPath, deep.le, found⟩

end Remapped

section MapTo

variable {mc : MemoryController} {roots : Set Nat} {inv : Nat → MemoryController → Prop}
  {reserved : Set (List TableIndex)} {alloc : McM Nat} {kernel home frame : Nat} {table : PageTable} {page : Page} {flags : EntryFlags} {word : Word}
  {after : MemoryController} {access : Bool}

/-- A page is mapped by new tables and one write of its entry. -/
theorem mapTo_spec (source : TableSource alloc roots kernel reserved inv) (inside : home ∈ roots)
    (shown : mc.SlotAt table.addr home) (invariant : inv (missing (links mc.memory) home page.upperPath) mc)
    (safe : links mc.memory home page.p4Index ≠ none → follow (links mc.memory) home page.upperPath = none →
      ¬ mc.slotAllocator.Extends)
    (made : PageTableEntry.ofFrame frame (flags ||| .present) = some word) :
    ∃ middle last used added,
      table.mapTo alloc page frame flags mc =
        (.value (), { middle with memory := middle.memory.write last page.p1Index word }) ∧
      inv 0 middle ∧ SameMachine mc middle ∧ Grown roots mc.memory middle.memory used added ∧ added ⊆ reserved ∧
      follow (links middle.memory) home page.upperPath = some last ∧
      (∀ front index, front ++ [index] <+: page.upperPath → ∀ visited, follow (links middle.memory) home front = some visited →
        (PageTableEntry.flags (middle.memory visited index)).contains (tableFlags flags) = true) ∧
      (∀ root ∈ roots, ∀ path, path.length ≤ 3 → follow (links middle.memory) root path ≠ none →
        follow (links mc.memory) root path ≠ none ∨ path <+: page.upperPath ∨ ∃ page ∈ reserved, path <+: page) := by
  have initial := source.upper _ _ invariant home inside
  have start : AtPlace mc mc roots inv reserved home [] page.upperPath (tableFlags flags) table home := {
    invariant := invariant
    same := .refl mc
    grown := ⟨∅, ∅, .refl roots mc.memory, Set.empty_subset _⟩
    found := rfl
    handle := .inl ⟨rfl, rfl, .inr shown, fun _ => shown⟩
    flagged := by
      intro front index ahead
      simp at ahead
    news := fun _ _ _ _ reached => .inl reached }
  obtain ⟨pml3, first, frame3, created3, arrived3⟩ := start.step source inside (Nat.zero_le 2) initial (absurd rfl)
  obtain ⟨pml2, second, frame2, created2, arrived2⟩ := arrived3.step source inside (Nat.le_succ 1) initial (by
    intro _ same free
    have found := arrived3.found
    rw [same] at found free
    apply safe
    · rw [List.nil_append, follow_cons] at found
      intro absent
      rw [absent] at found
      contradiction
    · rw [show page.upperPath = ([] ++ [page.p4Index]) ++ [page.p3Index, page.p2Index] from rfl, follow_append, found,
        Option.bind_some, follow_cons, free, Option.bind_none])
  obtain ⟨pml1, third, last, created1, arrived1⟩ := arrived2.step source inside (Nat.le_refl 2) initial (by
    intro _ same free
    have found := arrived2.found
    rw [same] at found free
    apply safe
    · intro absent
      rw [List.nil_append, List.singleton_append, follow_cons, absent] at found
      contradiction
    · rw [show page.upperPath = ([] ++ [page.p4Index] ++ [page.p3Index]) ++ [page.p2Index] from rfl, follow_append, found,
        Option.bind_some, follow_cons, free, Option.bind_none])
  obtain ⟨used, added, grown, allowed⟩ := arrived1.grown
  refine ⟨third, last, used, added, ?_, arrived1.invariant, arrived1.same, grown, allowed, arrived1.found, arrived1.flagged,
    arrived1.news⟩
  rw [mapTo, bind_value created3, bind_value created2, bind_value created1,
    setEntry_value (arrived1.shows_frame.frameFor (source.forest _ _ arrived1.invariant)
      (source.active _ _ arrived1.invariant)) made]

/-- The slots of the region lie in the lower half of the addresses. -/
def MemoryController.InRegion (mc : MemoryController) (addr : Nat) : Prop :=
  pageTableRegionStart ≤ addr ∧ addr < pageTableRegionStart + pageSize * 512 * mc.slotAllocator.pml1Count ∧
    addr < 0x800000000000

theorem path_ne_of_region {addr : Nat} (region : mc.InRegion addr) (small : page.pageNumber < 2 ^ 36)
    (outside : ∀ addr, mc.InRegion addr → Page.forAddress addr ≠ page) : (Page.forAddress addr).path ≠ page.path := by
  intro same
  apply outside addr region
  apply Page.eq_of_path _ small same
  have low := region.2.2
  change addr / 4096 < 2 ^ 36
  omega

/-- The upper entries on the way to a mapped page stay as they are when its entry is written. -/
theorem upper_entry {middle : Memory} {last : Nat} (inside : home ∈ roots) (forest : Forest middle roots)
    (found : follow (links middle) home page.upperPath = some last) {front : List TableIndex} {index : TableIndex}
    (ahead : front ++ [index] <+: page.upperPath) :
    ∃ visited, follow (links middle) home front = some visited ∧
      follow (links (middle.write last page.p1Index word)) home front = some visited ∧
      middle.write last page.p1Index word visited index = middle visited index := by
  have bound := ahead.length_le
  rw [List.length_append, List.length_singleton, page.upperPath_length] at bound
  obtain ⟨tail, split⟩ := (List.prefix_append front [index]).trans ahead
  obtain ⟨visited, passed⟩ : ∃ visited, follow (links middle) home front = some visited := by
    rw [← split, follow_append, Option.bind_eq_some_iff] at found
    obtain ⟨visited, passed, _⟩ := found
    exact ⟨visited, passed⟩
  refine ⟨visited, passed, ?_, ?_⟩
  · rw [forest.follow_last inside page.upperPath_length found inside (by omega)]
    exact passed
  · apply write_other
    left
    rintro rfl
    have same := forest.planted home inside home inside front page.upperPath visited (by omega)
      page.upperPath_length.le passed found
    rw [same, page.upperPath_length] at bound
    omega

section Shown

variable (shown : mc.frameFor table.addr = some (home, access))

include shown

/-- A translated page has a frame in its entry of the last level. -/
theorem translateToPhys_inv (translated : table.translateToPhys page.startAddress mc = (.value frame, after)) :
    ∃ last, follow (links mc.memory) home page.upperPath = some last ∧
      PageTableEntry.getFrame (mc.memory last page.p1Index) = some frame := by
  cases reached : follow (links mc.memory) home page.path with
  | none =>
    rw [← page.forAddress_startAddress] at reached
    obtain ⟨window, missing⟩ := translateToPhys_missing shown reached
    rw [translated] at missing
    cases missing
  | some found =>
    rw [← page.forAddress_startAddress] at reached
    obtain ⟨window, value⟩ := translateToPhys_found shown reached
    rw [translated] at value
    obtain rfl : frame = found := Outcome.value.inj (Prod.mk.inj value).1
    rw [page.forAddress_startAddress, Page.path_eq, follow_snoc, Option.bind_eq_some_iff] at reached
    exact reached

/-- A page is unused when its entry is zero or a table is missing. -/
theorem isUnused_leaf (page : Page) :
    ∃ window, table.isUnused page mc = (.value (PageTableEntry.isUnused (leafEntry mc.memory home page)), mc.windowed window) := by
  rw [isUnused]
  cases found : follow (links mc.memory) home page.upperPath with
  | none =>
    obtain ⟨window, missing⟩ := lastTable_missing shown found
    refine ⟨window, ?_⟩
    rw [bind_value (orNone_missing missing), leafEntry_of_none found]
    rfl
  | some last =>
    refine ⟨last, ?_⟩
    rw [bind_value (orNone_value (lastTable_found shown found)), leafEntry_of_table found]
    change (readEntry ⟨mc.tempMapper.tempAddr⟩ page.p1Index >>= _) (mc.windowed last) = _
    rw [bind_value (readEntry_window last page.p1Index), pure_apply]

theorem isUnused_value (zero : leafEntry mc.memory home page = 0) :
    ∃ window, table.isUnused page mc = (.value true, mc.windowed window) := by
  obtain ⟨window, answered⟩ := isUnused_leaf shown page
  rw [zero] at answered
  exact ⟨window, answered⟩

/-- An address is translated by the entry of its page. -/
theorem translateToPhys_leaf (addr : Nat) :
    (∃ window, table.translateToPhys addr mc = (.value frame, mc.windowed window)) ↔
      PageTableEntry.getFrame (leafEntry mc.memory home (.forAddress addr)) = some frame := by
  rw [← follow_path]
  constructor
  · intro translated
    obtain ⟨window, translated⟩ := translated
    cases reached : follow (links mc.memory) home (Page.forAddress addr).path with
    | none =>
      obtain ⟨other, missing⟩ := translateToPhys_missing shown reached
      rw [translated] at missing
      cases missing
    | some found =>
      obtain ⟨other, value⟩ := translateToPhys_found shown reached
      rw [translated] at value
      exact congrArg some (Outcome.value.inj (Prod.mk.inj value).1).symm
  · exact translateToPhys_found shown

end Shown

/-- A mapped page is unmapped by one write of its entry. -/
theorem unmap_value {last : Nat} (shown : mc.frameFor table.addr = some (home, true))
    (found : follow (links mc.memory) home page.upperPath = some last)
    (mapped : PageTableEntry.getFrame (mc.memory last page.p1Index) = some frame) :
    table.unmap page mc = (.value frame,
      MemoryController.windowed { mc with memory := mc.memory.write last page.p1Index 0 } last) := by
  have window : (mc.windowed last).frameFor mc.tempMapper.tempAddr = some (last, true) := frameFor_window last
  have written : writeEntry ⟨mc.tempMapper.tempAddr⟩ page.p1Index 0 (mc.windowed last) =
      (.value (), MemoryController.windowed { mc with memory := mc.memory.write last page.p1Index 0 } last) := by
    simp only [writeEntry, window]
    rfl
  rw [PageTable.unmap, bind_value (lastTable_found shown found),
    bind_value (readEntry_window last page.p1Index), mapped, ofOption_some, pure_bind_apply, bind_value written,
    pure_apply]

theorem MemoryController.SlotAt.remapped {addr : Nat} {used : Set Nat} {added : Set (List TableIndex)}
    (slot : mc.SlotAt addr frame) (active : mc.cr3 ∈ roots) (same : SameMachine mc after)
    (remapped : Remapped roots mc.memory after.memory home page word used added)
    (different : (Page.forAddress addr).path ≠ page.path) : after.SlotAt addr frame where
  outside := same.outside slot.outside
  regular := slot.regular
  reached := by
    rw [same.cr3]
    exact remapped.access mc.cr3 active _ different frame slot.reached

end MapTo

end BubbleOs.Paging
