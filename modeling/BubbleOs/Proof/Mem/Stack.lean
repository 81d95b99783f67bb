import BubbleOs.Proof.Mem.Slots
import Mathlib.Data.List.Pairwise
import Mathlib.Data.List.Perm.Basic

namespace BubbleOs.Paging

open Attempt MemoryController StackAllocator

theorem PageIter.next_eq_some {iter rest : PageIter} {page : Page} (found : iter.next = some (page, rest)) :
    iter.start.pageNumber ≤ iter.last.pageNumber ∧ page = iter.start ∧
      rest = ⟨⟨iter.start.pageNumber + 1⟩, iter.last⟩ := by
  rw [PageIter.next] at found
  split at found
  · cases found
  · rename_i inside
    cases found
    exact ⟨Nat.le_of_not_lt inside, rfl, rfl⟩

theorem PageIter.nth_eq_some {iter rest : PageIter} {page : Page} {count : Nat} (found : iter.nth count = some (page, rest)) :
    iter.start.pageNumber + count ≤ iter.last.pageNumber ∧ page = ⟨iter.start.pageNumber + count⟩ ∧
      rest = ⟨⟨iter.start.pageNumber + count + 1⟩, iter.last⟩ := by
  induction count generalizing iter with
  | zero => exact next_eq_some found
  | succ count ih =>
    rw [PageIter.nth] at found
    cases first : iter.next with
    | none =>
      rw [first] at found
      cases found
    | some step =>
      obtain ⟨skipped, later⟩ := step
      obtain ⟨_, _, moved⟩ := next_eq_some first
      rw [first] at found
      obtain ⟨bound, last, end_⟩ := ih found
      rw [moved] at bound last end_
      dsimp only at bound last end_
      refine ⟨by omega, ?_, ?_⟩
      · rw [last]
        congr 1
        omega
      · rw [end_]
        congr 2
        omega

namespace StackAllocator

variable {pagesToAlloc : Nat} {outcome : Outcome Stack}

/-- The removed range has the right size, and the other ranges stay in order. -/
theorem takeRange_eq_some {ranges others : List FreeStackRange} {range : FreeStackRange}
    (found : takeRange pagesToAlloc ranges = some (range, others)) :
    range.userPages = pagesToAlloc ∧ ∃ before after, ranges = before ++ range :: after ∧ others = before ++ after := by
  induction ranges generalizing others with
  | nil => cases found
  | cons first rest ih =>
    rw [takeRange] at found
    split at found
    · rename_i fits
      cases found
      exact ⟨fits, [], rest, rfl, rfl⟩
    · obtain ⟨inner, later, same⟩ := Option.map_eq_some_iff.mp found
      cases same
      obtain ⟨fits, before, after, split, joined⟩ := ih later
      exact ⟨fits, first :: before, after, by rw [split]; rfl, by rw [joined]; rfl⟩

/-- The new pages follow a guard page at the start of the range. -/
theorem cutRange_eq_some {range rest : PageIter} {start last : Page} (positive : pagesToAlloc ≠ 0)
    (found : cutRange range pagesToAlloc = some (start, last, rest)) :
    start.pageNumber = range.start.pageNumber + 1 ∧ last.pageNumber = range.start.pageNumber + pagesToAlloc ∧
      last.pageNumber ≤ range.last.pageNumber ∧
      rest = ⟨⟨range.start.pageNumber + pagesToAlloc + 1⟩, range.last⟩ := by
  rw [cutRange] at found
  obtain ⟨⟨guard, afterGuard⟩, guarded, found⟩ := Option.bind_eq_some_iff.mp found
  obtain ⟨⟨first, afterStart⟩, started, found⟩ := Option.bind_eq_some_iff.mp found
  obtain ⟨_, _, guardEnd⟩ := PageIter.next_eq_some guarded
  obtain ⟨startBound, startPage, startEnd⟩ := PageIter.next_eq_some started
  rw [guardEnd] at startBound startPage startEnd
  dsimp only at startBound startPage startEnd found
  split at found
  · rename_i one
    cases found
    rw [startPage, one]
    exact ⟨rfl, rfl, startBound, startEnd⟩
  · rename_i more
    obtain ⟨⟨final, afterLast⟩, ended, found⟩ := Option.bind_eq_some_iff.mp found
    obtain ⟨lastBound, lastPage, lastEnd⟩ := PageIter.nth_eq_some ended
    rw [startEnd] at lastBound lastPage lastEnd
    dsimp only at lastBound lastPage lastEnd found
    cases found
    rw [startPage, lastPage, lastEnd]
    refine ⟨rfl, ?_, ?_, ?_⟩
    · dsimp only
      omega
    · dsimp only
      omega
    · congr 2
      omega

/-- The allocator gives up a free range or the start of its range. -/
def Cut (before after : StackAllocator) (pagesToAlloc : Nat) (start last : Page) : Prop :=
  (∃ range others, takeRange pagesToAlloc before.freeRanges = some (range, others) ∧ start = range.start ∧
    last = range.last ∧ after = { before with freeRanges := others }) ∨
  ∃ rest, cutRange before.range pagesToAlloc = some (start, last, rest) ∧ after = { before with range := rest }

/-- The work on page tables leaves the stack allocator alone. -/
theorem mapRange_stackAllocator (table : PageTable) (start last : Page) (flags : EntryFlags) (mc : MemoryController) :
    (table.mapRange PageTableSlotAllocator.alloc start last flags mc).2.stackAllocator = mc.stackAllocator := by
  have steady : Steady MemoryController.stackAllocator := ⟨fun _ _ => rfl, fun _ _ => rfl, fun _ _ => rfl⟩
  have slots : SlotMoves MemoryController.stackAllocator (· = ·) :=
    ⟨fun _ _ _ _ => rfl, fun _ => rfl, fun _ _ => rfl, fun _ _ => rfl⟩
  exact (mapRange_moves steady slots table start last flags mc).symm

/-- The pages of a range become a stack unless the kernel stops. -/
theorem mapRange_toStack (table : PageTable) (start last : Page) (flags : EntryFlags) (mc : MemoryController)
    {after : MemoryController}
    (returned : (do
      table.mapRange PageTableSlotAllocator.alloc start last flags
      toStack start last) mc = (outcome, after)) :
    outcome = .hang ∨
      outcome = .value ⟨last.startAddress + pageSize, start.startAddress⟩ ∧ after.stackAllocator = mc.stackAllocator := by
  have kept := mapRange_stackAllocator table start last flags mc
  cases mapped : table.mapRange PageTableSlotAllocator.alloc start last flags mc with
  | mk reply between =>
    rw [mapped] at kept
    cases reply with
    | value _ =>
      rw [bind_value mapped, toStack] at returned
      split at returned
      · cases returned
        exact .inl rfl
      · cases returned
        exact .inr ⟨rfl, kept⟩
    | missing =>
      exact absurd (congrArg Prod.fst mapped) (mapPages_decides table flags PageTableSlotAllocator.alloc _ mc)
    | hang =>
      rw [bind_hang mapped] at returned
      cases returned
      exact .inl rfl

/-- A call gives up pages for a stack, or returns without a stack and a change, or stops the kernel. -/
theorem alloc_cases {table : PageTable} {flags : EntryFlags} {mc after : MemoryController}
    (returned : alloc table pagesToAlloc flags mc = (outcome, after)) :
    outcome = .hang ∨ (outcome = .missing ∧ after = mc) ∨
      ∃ start last, outcome = .value ⟨last.startAddress + pageSize, start.startAddress⟩ ∧ pagesToAlloc ≠ 0 ∧
        Cut mc.stackAllocator after.stackAllocator pagesToAlloc start last := by
  rw [alloc] at returned
  split at returned
  · cases returned
    exact .inr (.inl ⟨rfl, rfl⟩)
  · rename_i positive
    rw [get_bind] at returned
    cases found : takeRange pagesToAlloc mc.stackAllocator.freeRanges with
    | some taken =>
      obtain ⟨range, others⟩ := taken
      rw [found] at returned
      dsimp only at returned
      rw [put_bind] at returned
      rcases mapRange_toStack table range.start range.last flags _ returned with hang | ⟨value, kept⟩
      · exact .inl hang
      · exact .inr (.inr ⟨_, _, value, positive, .inl ⟨range, others, found, rfl, rfl, kept⟩⟩)
    | none =>
      rw [found] at returned
      cases cut : cutRange mc.stackAllocator.range pagesToAlloc with
      | some pages =>
        obtain ⟨start, last, rest⟩ := pages
        rw [cut] at returned
        dsimp only at returned
        rw [put_bind] at returned
        rcases mapRange_toStack table start last flags _ returned with hang | ⟨value, kept⟩
        · exact .inl hang
        · exact .inr (.inr ⟨_, _, value, positive, .inr ⟨rest, cut, kept⟩⟩)
      | none =>
        rw [cut] at returned
        cases returned
        exact .inr (.inl ⟨rfl, rfl⟩)

end StackAllocator

/-- The pages of a stack are counted from the first to the last. -/
structure Span where
  start : Nat
  last : Nat

def Span.stack (span : Span) : Stack := ⟨(span.last + 1) * pageSize, span.start * pageSize⟩

def Span.pages (span : Span) : Nat := span.last + 1 - span.start

def FreeStackRange.span (range : FreeStackRange) : Span := ⟨range.start.pageNumber, range.last.pageNumber⟩

/-- Neither span holds a page of the other or the page below it. -/
def Span.Separate (first second : Span) : Prop := first.last + 1 < second.start ∨ second.last + 1 < first.start

/-- The session records the allocator, the stacks in use and all stacks so far. -/
structure StackSession where
  allocator : StackAllocator
  live : List (Stack × Nat)
  history : List Stack

/-- Between two calls the other parts of the controller may change. -/
inductive StackCall where
  | alloc (mc : MemoryController) (table : PageTable) (pagesToAlloc : Nat) (flags : EntryFlags)
  | free (mc : MemoryController) (stack : Stack)

namespace StackSession

def start (range : PageIter) : StackSession := ⟨.new range, [], []⟩

/-- Stacks in use are given back, and a call that stops the kernel ends the run. -/
def Allowed : StackCall → StackSession → Prop
  | .alloc mc table pagesToAlloc flags, session =>
    mc.stackAllocator = session.allocator ∧ (StackAllocator.alloc table pagesToAlloc flags mc).1 ≠ .hang
  | .free mc stack, session => mc.stackAllocator = session.allocator ∧ ∃ live ∈ session.live, live.1 = stack

def step : StackCall → StackSession → StackSession
  | .alloc mc table pagesToAlloc flags, session =>
    match StackAllocator.alloc table pagesToAlloc flags mc with
    | (.value stack, after) =>
      ⟨after.stackAllocator, (stack, pagesToAlloc) :: session.live, stack :: session.history⟩
    | (_, after) => ⟨after.stackAllocator, session.live, session.history⟩
  | .free mc stack, session =>
    ⟨(StackAllocator.free stack mc).2.stackAllocator, session.live.eraseP fun live => live.1 = stack, session.history⟩

/-- The stacks in use and the free ranges are separate spans of the part of the range that was cut off. -/
structure Sound (first last : Nat) (session : StackSession) (used freed : List Span) : Prop where
  live : session.live = used.map fun span => (span.stack, span.pages)
  free : session.allocator.freeRanges.map FreeStackRange.span = freed
  sizes : ∀ range ∈ session.allocator.freeRanges, range.userPages = range.span.pages
  separate : (used ++ freed).Pairwise Span.Separate
  inside : ∀ span ∈ used ++ freed, first < span.start ∧ span.start ≤ span.last ∧ span.last ≤ last ∧
    span.last < session.allocator.range.start.pageNumber
  low : first ≤ session.allocator.range.start.pageNumber
  stop : session.allocator.range.last.pageNumber = last
  history : ∀ stack ∈ session.history, ∃ span ∈ used ++ freed, stack = span.stack
  known : ∀ span ∈ used ++ freed, span.stack ∈ session.history

theorem separate_symm {first second : Span} (separate : first.Separate second) : second.Separate first := separate.symm

instance : Std.Symm Span.Separate := ⟨fun _ _ => separate_symm⟩

theorem Sound.start (range : PageIter) :
    Sound range.start.pageNumber range.last.pageNumber (StackSession.start range) [] [] :=
  ⟨rfl, rfl, fun _ absurd_ => absurd absurd_ List.not_mem_nil, .nil, fun _ absurd_ => absurd absurd_ List.not_mem_nil,
    Nat.le_refl _, rfl, fun _ absurd_ => absurd absurd_ List.not_mem_nil, fun _ absurd_ => absurd absurd_ List.not_mem_nil⟩

section Step

variable {first last : Nat} {session : StackSession} {used freed : List Span} {pagesToAlloc : Nat}

theorem stack_eq (start last : Page) :
    (⟨last.startAddress + pageSize, start.startAddress⟩ : Stack) = Span.stack ⟨start.pageNumber, last.pageNumber⟩ := by
  rw [Span.stack, Page.startAddress, Page.startAddress, Nat.succ_mul]

/-- A free range becomes a stack again. -/
theorem Sound.reuse (sound : Sound first last session used freed) {range : FreeStackRange}
    {others : List FreeStackRange}
    (found : takeRange pagesToAlloc session.allocator.freeRanges = some (range, others)) :
    Sound first last ⟨{ session.allocator with freeRanges := others }, (range.span.stack, pagesToAlloc) :: session.live,
      range.span.stack :: session.history⟩ (range.span :: used) (others.map FreeStackRange.span) := by
  obtain ⟨fits, before, after, split, joined⟩ := takeRange_eq_some found
  have listed : range ∈ session.allocator.freeRanges := by
    rw [split]
    exact List.mem_append_right _ List.mem_cons_self
  have same : (range.span :: used ++ others.map FreeStackRange.span).Perm (used ++ freed) := by
    rw [← sound.free, split, joined, List.map_append, List.map_append, List.map_cons, List.cons_append]
    exact (List.perm_middle.symm.trans (List.perm_middle.symm.append_left used))
  refine ⟨?_, rfl, ?_, ?_, ?_, sound.low, sound.stop, ?_, ?_⟩
  · rw [List.map_cons, ← sound.live, ← fits, sound.sizes range listed]
  · intro other member
    apply sound.sizes other
    rw [split]
    rw [joined] at member
    rcases List.mem_append.mp member with left | right
    · exact List.mem_append_left _ left
    · exact List.mem_append_right _ (.tail _ right)
  · exact (same.pairwise_iff separate_symm).mpr sound.separate
  · intro span member
    exact sound.inside span (same.mem_iff.mp member)
  · intro stack member
    cases member with
    | head => exact ⟨range.span, List.mem_cons_self, rfl⟩
    | tail _ older =>
      obtain ⟨span, known, shape⟩ := sound.history stack older
      exact ⟨span, same.mem_iff.mpr known, shape⟩
  · intro span member
    exact .tail _ (sound.known span (same.mem_iff.mp member))

/-- New pages are cut off for a stack. -/
theorem Sound.fresh (sound : Sound first last session used freed) {start final : Page} {rest : PageIter}
    (positive : pagesToAlloc ≠ 0)
    (found : cutRange session.allocator.range pagesToAlloc = some (start, final, rest)) :
    Sound first last ⟨{ session.allocator with range := rest },
      (Span.stack ⟨start.pageNumber, final.pageNumber⟩, pagesToAlloc) :: session.live,
      Span.stack ⟨start.pageNumber, final.pageNumber⟩ :: session.history⟩
      (⟨start.pageNumber, final.pageNumber⟩ :: used) freed := by
  obtain ⟨begins, ends, bound, moved⟩ := cutRange_eq_some positive found
  have low := sound.low
  have stop := sound.stop
  have pages : Span.pages ⟨start.pageNumber, final.pageNumber⟩ = pagesToAlloc := by
    rw [Span.pages]
    dsimp only
    omega
  refine ⟨?_, sound.free, sound.sizes, ?_, ?_, ?_, ?_, ?_, ?_⟩
  · rw [List.map_cons, ← sound.live, pages]
  · apply List.Pairwise.cons
    · intro older member
      have earlier := (sound.inside older member).2.2.2
      right
      dsimp only
      omega
    · exact sound.separate
  · intro span member
    rw [moved]
    dsimp only
    cases member with
    | head =>
      dsimp only
      omega
    | tail _ older =>
      have earlier := sound.inside span older
      omega
  · rw [moved]
    dsimp only
    omega
  · rw [moved]
    exact stop
  · intro stack member
    cases member with
    | head => exact ⟨_, List.mem_cons_self, rfl⟩
    | tail _ older =>
      obtain ⟨span, known, shape⟩ := sound.history stack older
      exact ⟨span, .tail _ known, shape⟩
  · intro span member
    cases member with
    | head => exact List.mem_cons_self
    | tail _ older => exact .tail _ (sound.known span older)

/-- The span of a stack in use becomes a free range. -/
theorem free_stack {span : Span} (nonempty : span.start ≤ span.last) (above : 0 < span.start) (mc : MemoryController) :
    ∃ range : FreeStackRange, range.span = span ∧ range.userPages = span.pages ∧
      (free span.stack mc).2.stackAllocator =
        { mc.stackAllocator with freeRanges := mc.stackAllocator.freeRanges ++ [range] } := by
  have size : pageSize = 4096 := rfl
  have bottom : ¬ (span.stack.bottom < pageSize ∨ span.stack.top ≤ span.stack.bottom) := by
    rw [Span.stack, size]
    dsimp only
    omega
  refine ⟨⟨.forAddress (span.start * pageSize), .forAddress ((span.last + 1) * pageSize - 1),
    ((span.last + 1) * pageSize - span.start * pageSize) / pageSize⟩, ?_, ?_, ?_⟩
  · rw [FreeStackRange.span, Page.forAddress, Page.forAddress, Nat.mul_div_cancel _ (by decide), size]
    dsimp only
    have final : ((span.last + 1) * 4096 - 1) / 4096 = span.last := by omega
    rw [final]
  · dsimp only
    rw [← Nat.sub_mul, Nat.mul_div_cancel _ (by decide)]
    rfl
  · rw [free, if_neg bottom]
    rfl

theorem Sound.free_live (sound : Sound first last session used freed) {mc : MemoryController} {stack : Stack}
    (allowed : Allowed (.free mc stack) session) :
    ∃ used freed, Sound first last (step (.free mc stack) session) used freed := by
  obtain ⟨same, entry, listed, shape⟩ := allowed
  obtain ⟨found, before, after, _, matches_, split, erased⟩ := List.exists_of_eraseP
    (p := fun live : Stack × Nat => decide (live.1 = stack)) listed (decide_eq_true shape)
  rw [sound.live, List.map_eq_append_iff] at split
  obtain ⟨usedBefore, usedLater, usedSplit, mappedBefore, mappedLater⟩ := split
  obtain ⟨span, usedAfter, laterSplit, mappedSpan, mappedAfter⟩ := List.map_eq_cons_iff.mp mappedLater
  have stackShape : span.stack = stack := by
    rw [← of_decide_eq_true matches_, ← mappedSpan]
  rw [laterSplit] at usedSplit
  have listedSpan : span ∈ used ++ freed := by
    rw [usedSplit]
    exact List.mem_append_left _ (List.mem_append_right _ List.mem_cons_self)
  have bounds := sound.inside span listedSpan
  obtain ⟨range, rangeSpan, rangePages, returned⟩ := free_stack bounds.2.1 (Nat.zero_lt_of_lt bounds.1) mc
  rw [stackShape, same] at returned
  have moved : ((usedBefore ++ usedAfter) ++ (freed ++ [span])).Perm (used ++ freed) := by
    rw [usedSplit, ← List.append_assoc]
    refine (List.perm_append_singleton span _).trans ?_
    rw [← List.cons_append]
    exact (List.perm_middle.symm.append_right freed)
  rw [step, returned, erased]
  refine ⟨usedBefore ++ usedAfter, freed ++ [span], ?_, ?_, ?_, ?_, ?_, sound.low, sound.stop, ?_, ?_⟩
  · rw [List.map_append, mappedBefore, mappedAfter]
  · rw [List.map_append, sound.free, List.map_cons, rangeSpan]
    rfl
  · intro other member
    rcases List.mem_append.mp member with older | new
    · exact sound.sizes other older
    · rw [List.mem_singleton.mp new, rangePages, rangeSpan]
  · exact (moved.pairwise_iff separate_symm).mpr sound.separate
  · intro other member
    exact sound.inside other (moved.mem_iff.mp member)
  · intro older member
    obtain ⟨known, listedKnown, knownShape⟩ := sound.history older member
    exact ⟨known, moved.mem_iff.mpr listedKnown, knownShape⟩
  · intro other member
    exact sound.known other (moved.mem_iff.mp member)

theorem Sound.step (sound : Sound first last session used freed) (call : StackCall) (allowed : Allowed call session) :
    ∃ used freed, Sound first last (StackSession.step call session) used freed := by
  cases call with
  | free mc stack => exact sound.free_live allowed
  | alloc mc table pagesToAlloc flags =>
    obtain ⟨same, returns⟩ := allowed
    cases returned : alloc table pagesToAlloc flags mc with
    | mk outcome after =>
      rw [StackSession.step, returned]
      rcases alloc_cases returned with hang | ⟨missing, kept⟩ | ⟨start, final, value, positive, cut⟩
      · rw [returned] at returns
        exact absurd hang returns
      · rw [missing, kept]
        dsimp only
        rw [same]
        exact ⟨used, freed, sound⟩
      · rw [value, stack_eq]
        rw [same] at cut
        dsimp only
        rcases cut with ⟨range, others, found, rfl, rfl, cut⟩ | ⟨rest, found, cut⟩
        · rw [cut]
          exact ⟨_, _, sound.reuse found⟩
        · rw [cut]
          exact ⟨_, _, sound.fresh positive found⟩

end Step

/-- Stacks in use never overlap, have the pages that were asked for inside the range, and lie above a guard page that
belongs to no stack; a call without a stack changes nothing. -/
theorem stacks_apart (range : PageIter) {session : StackSession}
    (reached : Reached StackSession.step Allowed (StackSession.start range) session) :
    (session.live.Pairwise fun first second => first.1.top ≤ second.1.bottom ∨ second.1.top ≤ first.1.bottom) ∧
    (∀ live ∈ session.live, live.1 ∈ session.history ∧ ∃ start, live.1.bottom = start * pageSize ∧
      live.1.top = (start + live.2) * pageSize ∧ 0 < live.2 ∧ range.start.pageNumber ≤ start ∧
      start + live.2 ≤ range.last.pageNumber + 1) ∧
    (∀ stack ∈ session.history, ∃ guard, stack.bottom = (guard + 1) * pageSize ∧ range.start.pageNumber ≤ guard ∧
      guard ≤ range.last.pageNumber ∧
      ∀ other ∈ session.history, (guard + 1) * pageSize ≤ other.bottom ∨ other.top ≤ guard * pageSize) ∧
    ∀ mc table pagesToAlloc flags after, mc.stackAllocator = session.allocator →
      StackAllocator.alloc table pagesToAlloc flags mc = (.missing, after) →
        after.stackAllocator = session.allocator := by
  obtain ⟨used, freed, sound⟩ : ∃ used freed, Sound range.start.pageNumber range.last.pageNumber session used freed := by
    apply reached.invariant ⟨[], [], Sound.start range⟩
    intro call between kept allowed
    obtain ⟨_, _, sound⟩ := kept
    exact sound.step call allowed
  refine ⟨?_, ?_, ?_, ?_⟩
  · rw [sound.live, List.pairwise_map]
    apply (List.pairwise_append.mp sound.separate).1.imp
    intro one two separate
    rcases separate with below | above
    · exact .inl (Nat.mul_le_mul_right _ (Nat.le_of_lt below))
    · exact .inr (Nat.mul_le_mul_right _ (Nat.le_of_lt above))
  · intro live member
    rw [sound.live] at member
    obtain ⟨span, listed, rfl⟩ := List.mem_map.mp member
    have bounds := sound.inside span (List.mem_append_left _ listed)
    have pages : span.start + span.pages = span.last + 1 := by
      rw [Span.pages]
      omega
    refine ⟨sound.known span (List.mem_append_left _ listed), span.start, rfl, ?_, ?_, by omega, ?_⟩
    · dsimp only
      rw [pages]
      rfl
    · dsimp only
      omega
    · dsimp only
      omega
  · intro stack member
    obtain ⟨span, listed, rfl⟩ := sound.history stack member
    have bounds := sound.inside span listed
    refine ⟨span.start - 1, ?_, by omega, by omega, ?_⟩
    · rw [Nat.sub_add_cancel (by omega)]
      rfl
    · intro other otherMember
      obtain ⟨otherSpan, otherListed, rfl⟩ := sound.history other otherMember
      have otherBounds := sound.inside otherSpan otherListed
      rw [Nat.sub_add_cancel (by omega)]
      by_cases same : otherSpan = span
      · rw [same]
        exact .inl (Nat.le_refl _)
      · rcases sound.separate.forall otherListed listed same with below | above
        · exact .inr (Nat.mul_le_mul_right _ (by omega))
        · exact .inl (Nat.mul_le_mul_right _ (by omega))
  · intro mc table pagesToAlloc flags after same missing
    rcases StackAllocator.alloc_cases missing with hang | ⟨_, kept⟩ | ⟨_, _, value, _⟩
    · cases hang
    · rw [kept, same]
    · cases value

/-- A controller whose stacks lie in the pages from the second to the fifth. -/
def fourPages : MemoryController := MemoryController.boot 16 2048 (.new ⟨⟨1⟩, ⟨4⟩⟩)

/-- A stack of two pages lies above the second page. -/
theorem stacks_apart_two_pages :
    ∃ session, session.live = [(⟨4 * pageSize, 2 * pageSize⟩, 2)] ∧
      Reached StackSession.step Allowed (StackSession.start ⟨⟨1⟩, ⟨4⟩⟩) session ∧
      ∀ stack ∈ session.history, ∃ guard, stack.bottom = (guard + 1) * pageSize ∧ 1 ≤ guard ∧ guard ≤ 4 := by
  have returned : (StackAllocator.alloc ⟨pageTableRegionStart⟩ 2 EntryFlags.writable fourPages).1 =
      .value ⟨4 * pageSize, 2 * pageSize⟩ := by
    decide +kernel
  have reached : Reached StackSession.step Allowed (StackSession.start ⟨⟨1⟩, ⟨4⟩⟩)
      (StackSession.step (.alloc fourPages ⟨pageTableRegionStart⟩ 2 EntryFlags.writable) (.start ⟨⟨1⟩, ⟨4⟩⟩)) :=
    Reached.step .start (StackCall.alloc fourPages ⟨pageTableRegionStart⟩ 2 EntryFlags.writable)
      ⟨rfl, by rw [returned]; intro hang; cases hang⟩
  obtain ⟨_, _, guarded, _⟩ := stacks_apart ⟨⟨1⟩, ⟨4⟩⟩ reached
  refine ⟨_, ?_, reached, ?_⟩
  · rw [StackSession.step, eq_of_outcome returned]
    rfl
  · intro stack member
    obtain ⟨guard, shape, low, high, _⟩ := guarded stack member
    exact ⟨guard, shape, low, high⟩

end StackSession

end BubbleOs.Paging
