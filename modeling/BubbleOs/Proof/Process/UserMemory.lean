import BubbleOs.Proof.Paging.Forest

namespace BubbleOs.Process

open Attempt Paging MemoryController

/-- The processor ends its walk at a leaf entry with the requested access. -/
def UserAccess (memory : Memory) (pml4 : Nat) (writable : Bool) (addr : Nat) : Prop :=
  canonical addr = true ∧
    ∃ translation, hardwareWalk memory pml4 addr = some translation ∧ grantsAccess writable translation.entry = true

/-- A huge page ends the walk of the processor, so it must grant the access itself. -/
def HugeGrants (memory : Memory) (pml4 : Nat) (writable : Bool) (page : Page) : Prop :=
  ∀ pml3 pml2, links memory pml4 page.p4Index = some pml3 → links memory pml3 page.p3Index = some pml2 →
    isHuge (memory pml4 page.p4Index) = false ∧
      if isHuge (memory pml3 page.p3Index) = true then grantsAccess writable (memory pml3 page.p3Index) = true
      else isHuge (memory pml2 page.p2Index) = true → grantsAccess writable (memory pml2 page.p2Index) = true

variable {memory : Memory} {pml4 : Nat} {writable : Bool}

theorem getFrame_of_grantsAccess {entry : PageTableEntry} (granted : grantsAccess writable entry = true) :
    ∃ frame, entry.getFrame = some frame := by
  rw [grantsAccess, Bool.and_eq_true, Bool.and_eq_true] at granted
  exact ⟨_, if_pos granted.1.1⟩

/-- The software walk agrees with the processor on canonical addresses when no huge page ends it early. -/
theorem userAccess_iff {addr frame : Nat}
    (path : follow (links memory) pml4 (Page.forAddress addr).upperPath = some frame)
    (granted : grantsAccess writable (memory frame (Page.forAddress addr).p1Index) = true) :
    UserAccess memory pml4 writable addr ↔
      canonical addr = true ∧ HugeGrants memory pml4 writable (Page.forAddress addr) := by
  simp only [Page.upperPath, follow, Option.bind_eq_some_iff, Option.some.injEq, exists_eq_right] at path
  obtain ⟨pml3, link3, pml2, link2, link1⟩ := path
  obtain ⟨leaf, present⟩ := getFrame_of_grantsAccess granted
  have only (otherPml3 otherPml2 : Nat) (same3 : links memory pml4 (Page.forAddress addr).p4Index = some otherPml3)
      (same2 : links memory otherPml3 (Page.forAddress addr).p3Index = some otherPml2) :
      otherPml3 = pml3 ∧ otherPml2 = pml2 := by
    rw [link3, Option.some.injEq] at same3
    subst same3
    rw [link2, Option.some.injEq] at same2
    exact ⟨rfl, same2.symm⟩
  have grants : HugeGrants memory pml4 writable (Page.forAddress addr) ↔
      isHuge (memory pml4 (Page.forAddress addr).p4Index) = false ∧
        if isHuge (memory pml3 (Page.forAddress addr).p3Index) = true then
          grantsAccess writable (memory pml3 (Page.forAddress addr).p3Index) = true
        else isHuge (memory pml2 (Page.forAddress addr).p2Index) = true →
          grantsAccess writable (memory pml2 (Page.forAddress addr).p2Index) = true := by
    constructor
    · exact fun all => all pml3 pml2 link3 link2
    · intro holds otherPml3 otherPml2 same3 same2
      obtain ⟨rfl, rfl⟩ := only otherPml3 otherPml2 same3 same2
      exact holds
  rw [links] at link3 link2 link1
  rw [UserAccess, grants, hardwareWalk]
  cases valid : canonical addr with
  | false => simp
  | true =>
    cases huge4 : isHuge (memory pml4 (Page.forAddress addr).p4Index) <;>
      cases huge3 : isHuge (memory pml3 (Page.forAddress addr).p3Index) <;>
      cases huge2 : isHuge (memory pml2 (Page.forAddress addr).p2Index) <;>
      simp [link3, link2, link1, present, huge4, huge3, huge2, granted, guard, failure]

/-- An accepted range has a present leaf entry with the requested access on every page. -/
theorem walk_of_accepted {mc after : MemoryController} {pageTable : PageTable} {addr size : Nat}
    (outside : mc.Outside pageTable.addr)
    (accepted : validateUserPointer pageTable addr size writable mc = (.value true, after)) {byte : Nat}
    (low : addr ≤ byte) (high : byte < addr + size) :
    ∃ root access frame, mc.frameFor pageTable.addr = some (root, access) ∧
      follow (links mc.memory) root (Page.forAddress byte).upperPath = some frame ∧
      grantsAccess writable (mc.memory frame (Page.forAddress byte).p1Index) = true := by
  rw [validateUserPointer, bind_eq_value_iff] at accepted
  obtain ⟨walked, between, call, done⟩ := accepted
  rw [pure_apply, Prod.mk.injEq, Outcome.value.injEq] at done
  obtain ⟨⟨⟩, final, returned⟩ : ∃ (_ : Unit) (final : MemoryController),
      pageTable.walkRangeEntries addr size (fun _ entry => grantsAccess writable entry) mc = (.value (), final) := by
    rw [orNone] at call
    split at call
    · rename_i final same
      exact ⟨(), final, same⟩
    · rw [Prod.mk.injEq, Outcome.value.injEq] at call
      rw [← call.1] at done
      simp at done
    · simp at call
  rw [PageTable.walkRangeEntries, if_neg (by omega)] at returned
  split at returned
  · simp at returned
  · refine PageTable.walkPages_value outside _ returned (Page.forAddress byte) ?_
    have first : addr / pageSize ≤ byte / pageSize := Nat.div_le_div_right low
    have last : byte / pageSize ≤ (addr + (size - 1)) / pageSize := Nat.div_le_div_right (by omega)
    simp only [Page.range, PageIter.pages, Page.forAddress, List.mem_map, List.mem_range'_1, Page.mk.injEq,
      exists_eq_right]
    omega

/-- The table in frame one maps its own slot and one user page. -/
def userMemory : Memory := fun frame index =>
  match frame, index.val with
  | 1, 215 => 0x2003
  | 2, 316 => 0x3003
  | 3, 0 => 0x4003
  | 4, 0 => 0x1003
  | 1, 224 => 0x5007
  | 5, 1 => 0x6007
  | 6, 0 => 0x7007
  | 7, 0 => 0x8007
  | _, _ => 0

/-- The table of this controller is active. -/
def userController : MemoryController where
  memory := userMemory
  cr3 := 1
  activeTable := ⟨pageTableRegionStart⟩
  kernelTable := ⟨pageTableRegionStart⟩
  frameAllocator := ⟨8, 64, []⟩
  stackAllocator := ⟨⟨⟨0⟩, ⟨0⟩⟩, []⟩
  slotAllocator := ⟨pageTableRegionStart, 1, 8, 8, []⟩
  tempMapper := ⟨pageTableRegionStart + 4 * pageSize, 1⟩

end BubbleOs.Process
