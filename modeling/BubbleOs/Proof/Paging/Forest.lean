import BubbleOs.Library.Tree
import BubbleOs.Construction.Paging.Table

namespace BubbleOs.Paging

open Attempt

/-- A present entry links its table to the next one. -/
def links (memory : Memory) (frame : Nat) (index : TableIndex) : Option Nat :=
  PageTableEntry.getFrame (memory frame index)

namespace Page

/-- These indices lead to the table of the last level. -/
def upperPath (page : Page) : List TableIndex := [page.p4Index, page.p3Index, page.p2Index]

def path (page : Page) : List TableIndex := [page.p4Index, page.p3Index, page.p2Index, page.p1Index]

end Page

theorem PageTableEntry.getFrame_zero : (0 : PageTableEntry).getFrame = none := by decide

/-- A frame in an entry is a supported frame. -/
theorem PageTableEntry.getFrame_lt {entry : PageTableEntry} {frame : Nat} (present : entry.getFrame = some frame) :
    frame * pageSize < 0x10000000000000 := by
  rw [getFrame] at present
  split at present
  · rw [Option.some.injEq] at present
    have bound : (entry &&& 0x000FFFFFFFFFF000).toNat ≤ 0x000FFFFFFFFFF000 := by
      rw [BitVec.toNat_and]
      exact Nat.and_le_right
    have whole := Nat.div_mul_le_self (entry &&& 0x000FFFFFFFFFF000).toNat pageSize
    rw [present] at whole
    omega
  · contradiction

/-- A linked table is a supported frame. -/
theorem follow_supported {memory : Memory} {root frame : Nat} {path : List TableIndex}
    (found : follow (links memory) root path = some frame) (linked : 0 < path.length) : frame * pageSize < 0x10000000000000 := by
  have split := List.dropLast_append_getLast (List.ne_nil_of_length_pos linked)
  rw [← split, follow_snoc, Option.bind_eq_some_iff] at found
  obtain ⟨table, _, link⟩ := found
  exact PageTableEntry.getFrame_lt link

namespace MemoryController

/-- The window shows another frame. -/
def windowed (mc : MemoryController) (frame : Nat) : MemoryController :=
  { mc with tempMapper := { mc.tempMapper with frame := frame } }

variable {mc : MemoryController}

/-- The address of a table is not in the window. -/
def Outside (mc : MemoryController) (addr : Nat) : Prop := addr / pageSize ≠ mc.tempMapper.tempAddr / pageSize

@[simp] theorem memory_windowed (frame : Nat) : (mc.windowed frame).memory = mc.memory := rfl

@[simp] theorem tempAddr_windowed (frame : Nat) :
    (mc.windowed frame).tempMapper.tempAddr = mc.tempMapper.tempAddr := rfl

@[simp] theorem windowed_windowed (first second : Nat) :
    (mc.windowed first).windowed second = mc.windowed second := rfl

@[simp] theorem frameFor_window (frame : Nat) :
    (mc.windowed frame).frameFor mc.tempMapper.tempAddr = some (frame, true) := if_pos rfl

/-- The window does not change other addresses. -/
theorem frameFor_windowed {addr : Nat} (outside : mc.Outside addr) (frame : Nat) :
    (mc.windowed frame).frameFor addr = mc.frameFor addr := by
  have same : ¬ addr / pageSize = (mc.windowed frame).tempMapper.tempAddr / pageSize := outside
  rw [frameFor, frameFor, if_neg outside, if_neg same]
  rfl

end MemoryController

open MemoryController

variable {mc after : MemoryController} {table : PageTable}

theorem readEntry_value {index : TableIndex} {entry : PageTableEntry} :
    readEntry table index mc = (.value entry, after) ↔
      ∃ frame access, mc.frameFor table.addr = some (frame, access) ∧ entry = mc.memory frame index ∧ after = mc := by
  rw [readEntry]
  cases mc.frameFor table.addr with
  | none => simp
  | some pair =>
    obtain ⟨frame, access⟩ := pair
    simp [eq_comm]

theorem set_value {frame addr : Nat} :
    TempMapper.set frame mc = (.value addr, after) ↔
      frame * pageSize < 0x10000000000000 ∧ addr = mc.tempMapper.tempAddr ∧ after = mc.windowed frame := by
  rw [TempMapper.set, PageTableEntry.ofFrame]
  by_cases small : frame * pageSize < 0x10000000000000
  · simp [small, windowed, eq_comm]
  · simp [small]

theorem ofOption_value {S A : Type} {option : Option A} {state final : S} {result : A} :
    (ofOption option : Attempt S A) state = (.value result, final) ↔ option = some result ∧ final = state := by
  cases option <;> simp [eq_comm]

namespace PageTable

/-- The next table is the frame of a present entry. -/
theorem nextTableTemp_value {index : TableIndex} {next : PageTable} :
    table.nextTableTemp index mc = (.value next, after) ↔
      ∃ root access frame, mc.frameFor table.addr = some (root, access) ∧ links mc.memory root index = some frame ∧
        next = ⟨mc.tempMapper.tempAddr⟩ ∧ after = mc.windowed frame := by
  rw [nextTableTemp, bind_eq_value_iff]
  constructor
  · rintro ⟨entry, between, read, rest⟩
    obtain ⟨root, access, found, rfl, rfl⟩ := readEntry_value.mp read
    split at rest
    · simp at rest
    · rw [bind_eq_value_iff] at rest
      obtain ⟨frame, middle, present, last⟩ := rest
      obtain ⟨present, rfl⟩ := ofOption_value.mp present
      rw [bind_eq_value_iff] at last
      obtain ⟨addr, final, set, done⟩ := last
      obtain ⟨_, rfl, rfl⟩ := set_value.mp set
      rw [pure_apply, Prod.mk.injEq, Outcome.value.injEq] at done
      exact ⟨root, access, frame, found, present, done.1.symm, done.2.symm⟩
  · rintro ⟨root, access, frame, found, present, rfl, rfl⟩
    refine ⟨mc.memory root index, mc, readEntry_value.mpr ⟨root, access, found, rfl, rfl⟩, ?_⟩
    have used : PageTableEntry.isUnused (mc.memory root index) = false := by
      rw [PageTableEntry.isUnused, beq_eq_false_iff_ne]
      intro zero
      rw [links, zero, PageTableEntry.getFrame_zero] at present
      contradiction
    have stored : PageTableEntry.getFrame (mc.memory root index) = some frame := present
    rw [used, if_neg (by decide), bind_value (ofOption_value.mpr ⟨stored, rfl⟩),
      bind_value (set_value.mpr ⟨PageTableEntry.getFrame_lt present, rfl, rfl⟩)]
    rfl

/-- The walk reaches the table of the last level through present entries. -/
theorem lastTable_value {page : Page} {last : PageTable} :
    table.lastTable page mc = (.value last, after) ↔
      ∃ root access frame, mc.frameFor table.addr = some (root, access) ∧
        follow (links mc.memory) root page.upperPath = some frame ∧
        last = ⟨mc.tempMapper.tempAddr⟩ ∧ after = mc.windowed frame := by
  rw [lastTable, bind_eq_value_iff]
  constructor
  · rintro ⟨pml3, first, step3, rest⟩
    obtain ⟨root, access, frame3, found, link3, rfl, rfl⟩ := nextTableTemp_value.mp step3
    rw [bind_eq_value_iff] at rest
    obtain ⟨pml2, second, step2, step1⟩ := rest
    obtain ⟨_, _, frame2, found2, link2, rfl, rfl⟩ := nextTableTemp_value.mp step2
    obtain ⟨_, _, frame1, found1, link1, rfl, rfl⟩ := nextTableTemp_value.mp step1
    simp only [windowed_windowed, tempAddr_windowed, memory_windowed, frameFor_window, Option.some.injEq,
      Prod.mk.injEq] at found2 found1 link2 link1
    obtain ⟨rfl, _⟩ := found2
    obtain ⟨rfl, _⟩ := found1
    refine ⟨root, access, frame1, found, ?_, rfl, rfl⟩
    simp only [Page.upperPath, follow, link3, link2, link1, Option.bind_some]
  · rintro ⟨root, access, frame, found, path, rfl, rfl⟩
    simp only [Page.upperPath, follow, Option.bind_eq_some_iff, Option.some.injEq, exists_eq_right] at path
    obtain ⟨frame3, link3, frame2, link2, link1⟩ := path
    refine ⟨⟨mc.tempMapper.tempAddr⟩, mc.windowed frame3,
      nextTableTemp_value.mpr ⟨root, access, frame3, found, link3, rfl, rfl⟩, ?_⟩
    have step2 : nextTableTemp ⟨mc.tempMapper.tempAddr⟩ page.p3Index (mc.windowed frame3) =
        (.value ⟨mc.tempMapper.tempAddr⟩, mc.windowed frame2) :=
      nextTableTemp_value.mpr ⟨frame3, true, frame2, frameFor_window _, link2, rfl, rfl⟩
    have step1 : nextTableTemp ⟨mc.tempMapper.tempAddr⟩ page.p2Index (mc.windowed frame2) =
        (.value ⟨mc.tempMapper.tempAddr⟩, mc.windowed frame) :=
      nextTableTemp_value.mpr ⟨frame2, true, frame, frameFor_window _, link1, rfl, rfl⟩
    exact (bind_value step2 _).trans step1

section Shown

variable {root frame : Nat} {access : Bool} {page : Page} {index : TableIndex}

section Shown

variable (shown : mc.frameFor table.addr = some (root, access))

include shown

theorem readEntry_shown (index : TableIndex) : readEntry table index mc = (.value (mc.memory root index), mc) :=
  readEntry_value.mpr ⟨root, access, shown, rfl, rfl⟩

/-- An entry without a link ends the walk. -/
theorem nextTableTemp_missing (free : links mc.memory root index = none) :
    table.nextTableTemp index mc = (.missing, mc) := by
  have absent : PageTableEntry.getFrame (mc.memory root index) = none := free
  rw [nextTableTemp, bind_value (readEntry_shown shown index)]
  split
  · rfl
  · rw [absent, ofOption_none, fail_bind_apply]

theorem nextTableTemp_found (link : links mc.memory root index = some frame) :
    table.nextTableTemp index mc = (.value ⟨mc.tempMapper.tempAddr⟩, mc.windowed frame) :=
  nextTableTemp_value.mpr ⟨root, access, frame, shown, link, rfl, rfl⟩

theorem lastTable_found (found : follow (links mc.memory) root page.upperPath = some frame) :
    table.lastTable page mc = (.value ⟨mc.tempMapper.tempAddr⟩, mc.windowed frame) :=
  lastTable_value.mpr ⟨root, access, frame, shown, found, rfl, rfl⟩

/-- A walk with a missing table only moves the window. -/
theorem lastTable_missing (absent : follow (links mc.memory) root page.upperPath = none) :
    ∃ window, table.lastTable page mc = (.missing, mc.windowed window) := by
  rw [Page.upperPath, follow_cons] at absent
  rw [lastTable]
  cases link3 : links mc.memory root page.p4Index with
  | none => exact ⟨mc.tempMapper.frame, bind_missing (nextTableTemp_missing shown link3) _⟩
  | some pml3 =>
    rw [link3, Option.bind_some, follow_cons] at absent
    have window3 : (mc.windowed pml3).frameFor mc.tempMapper.tempAddr = some (pml3, true) := frameFor_window pml3
    rw [bind_value (nextTableTemp_found shown link3)]
    cases link2 : links mc.memory pml3 page.p3Index with
    | none =>
      have step : nextTableTemp ⟨mc.tempMapper.tempAddr⟩ page.p3Index (mc.windowed pml3) =
          (.missing, mc.windowed pml3) := nextTableTemp_missing window3 link2
      exact ⟨pml3, bind_missing step _⟩
    | some pml2 =>
      rw [link2, Option.bind_some, follow_cons] at absent
      have window2 : (mc.windowed pml2).frameFor mc.tempMapper.tempAddr = some (pml2, true) := frameFor_window pml2
      have step : nextTableTemp ⟨mc.tempMapper.tempAddr⟩ page.p3Index (mc.windowed pml3) =
          (.value ⟨mc.tempMapper.tempAddr⟩, mc.windowed pml2) := nextTableTemp_found window3 link2
      rw [bind_value step]
      cases link1 : links mc.memory pml2 page.p2Index with
      | none =>
        have step : nextTableTemp ⟨mc.tempMapper.tempAddr⟩ page.p2Index (mc.windowed pml2) =
            (.missing, mc.windowed pml2) := nextTableTemp_missing window2 link1
        exact ⟨pml2, step⟩
      | some pml1 =>
        rw [link1, Option.bind_some, follow_nil] at absent
        contradiction

end Shown

/-- The window shows the entry of the last level. -/
theorem readEntry_window (frame : Nat) (index : TableIndex) :
    readEntry ⟨mc.tempMapper.tempAddr⟩ index (mc.windowed frame) = (.value (mc.memory frame index), mc.windowed frame) :=
  readEntry_shown (frameFor_window frame) index

variable {addr : Nat}

/-- A translation returns the frame at the end of the path. -/
theorem translateToPhys_found (shown : mc.frameFor table.addr = some (root, access))
    (found : follow (links mc.memory) root (Page.forAddress addr).path = some frame) :
    ∃ window, table.translateToPhys addr mc = (.value frame, mc.windowed window) := by
  have split : (Page.forAddress addr).path = (Page.forAddress addr).upperPath ++ [(Page.forAddress addr).p1Index] := rfl
  rw [split, follow_snoc, Option.bind_eq_some_iff] at found
  obtain ⟨last, reached, link⟩ := found
  have stored : PageTableEntry.getFrame (mc.memory last (Page.forAddress addr).p1Index) = some frame := link
  refine ⟨last, ?_⟩
  rw [translateToPhys, bind_value (lastTable_found shown reached), bind_value (readEntry_window last _), stored,
    ofOption_some, pure_apply]

/-- A translation without a frame returns nothing. -/
theorem translateToPhys_missing (shown : mc.frameFor table.addr = some (root, access))
    (absent : follow (links mc.memory) root (Page.forAddress addr).path = none) :
    ∃ window, table.translateToPhys addr mc = (.missing, mc.windowed window) := by
  have split : (Page.forAddress addr).path = (Page.forAddress addr).upperPath ++ [(Page.forAddress addr).p1Index] := rfl
  rw [split, follow_snoc] at absent
  rw [translateToPhys]
  cases reached : follow (links mc.memory) root (Page.forAddress addr).upperPath with
  | none =>
    obtain ⟨window, missing⟩ := lastTable_missing shown reached
    exact ⟨window, bind_missing missing _⟩
  | some last =>
    rw [reached, Option.bind_some] at absent
    have stored : PageTableEntry.getFrame (mc.memory last (Page.forAddress addr).p1Index) = none := absent
    refine ⟨last, ?_⟩
    rw [bind_value (lastTable_found shown reached), bind_value (readEntry_window last _), stored, ofOption_none, fail_apply]

end Shown

/-- The walk of a range ends when every entry of the last level is accepted. -/
theorem walkPages_value {callback : Page → PageTableEntry → Bool} (outside : mc.Outside table.addr)
    (pages : List Page) (walked : table.walkPages callback pages mc = (.value (), after)) :
    ∀ page ∈ pages, ∃ root access frame, mc.frameFor table.addr = some (root, access) ∧
      follow (links mc.memory) root page.upperPath = some frame ∧
      callback page (mc.memory frame page.p1Index) = true := by
  induction pages generalizing mc with
  | nil => simp
  | cons page rest ih =>
    rw [walkPages, bind_eq_value_iff] at walked
    obtain ⟨last, between, reached, others⟩ := walked
    obtain ⟨root, access, frame, found, path, rfl, rfl⟩ := lastTable_value.mp reached
    rw [bind_eq_value_iff] at others
    obtain ⟨entry, same, read, others⟩ := others
    obtain ⟨_, _, shown, rfl, rfl⟩ := readEntry_value.mp read
    rw [frameFor_window, Option.some.injEq, Prod.mk.injEq] at shown
    obtain ⟨rfl, _⟩ := shown
    split at others
    · rename_i accepted
      intro other member
      rcases List.mem_cons.mp member with rfl | later
      · exact ⟨root, access, frame, found, path, accepted⟩
      · have next := @ih (mc.windowed frame) outside others other later
        rw [frameFor_windowed outside] at next
        exact next
    · simp at others

end PageTable

namespace EntryFlags

variable {flags other required : EntryFlags}

/-- These flags are named by the kernel. -/
def Known (flags : EntryFlags) : Prop := flags &&& all = flags

theorem Known.or (known : flags.Known) (second : other.Known) : EntryFlags.Known (flags ||| other) := by
  rw [Known, BitVec.and_comm, BitVec.and_or_distrib_left, BitVec.and_comm, known, BitVec.and_comm, second]

theorem contains_iff : flags.contains required = true ↔ flags &&& required = required := beq_iff_eq

theorem contains_or_left (inside : flags.contains required = true) :
    EntryFlags.contains (flags ||| other) required = true := by
  rw [contains_iff] at inside ⊢
  ext position bound
  have bit := congrArg (fun word : Word => word.getLsbD position) inside
  simp only [BitVec.getElem_and, BitVec.getElem_or, BitVec.getLsbD_eq_getElem bound] at bit ⊢
  revert bit
  cases flags[position] <;> cases other[position] <;> cases required[position] <;> decide

theorem contains_or_right (inside : other.contains required = true) :
    EntryFlags.contains (flags ||| other) required = true := by
  rw [BitVec.or_comm]
  exact contains_or_left inside

theorem contains_trans (outer : flags.contains other = true) (inner : other.contains required = true) :
    flags.contains required = true := by
  rw [contains_iff] at outer inner ⊢
  rw [← inner, ← BitVec.and_assoc, outer]

theorem contains_self (flags : EntryFlags) : flags.contains flags = true := by
  rw [contains_iff, BitVec.and_self]

end EntryFlags

namespace PageTableEntry

variable {frame : Nat} {flags : EntryFlags} {entry : PageTableEntry} {position : Nat}

theorem flags_known (entry : PageTableEntry) : EntryFlags.Known entry.flags := by
  rw [EntryFlags.Known, PageTableEntry.flags, BitVec.and_assoc, BitVec.and_self]

/-- The address of a supported frame fills the bits between twelve and fifty-two. -/
theorem address_bit (small : frame * pageSize < 0x10000000000000)
    (set : (BitVec.ofNat 64 (frame * pageSize)).getLsbD position = true) : 12 ≤ position ∧ position < 52 := by
  rw [BitVec.getLsbD_ofNat, Bool.and_eq_true, decide_eq_true_eq] at set
  constructor
  · by_contra low
    have zero : (frame * pageSize).testBit position = false := by
      rw [show pageSize = 2 ^ 12 from rfl, Nat.testBit_mul_two_pow]
      simp [low]
    rw [zero] at set
    exact Bool.false_ne_true set.2
  · by_contra high
    have zero : (frame * pageSize).testBit position = false := by
      apply Nat.testBit_lt_two_pow
      calc frame * pageSize < 2 ^ 52 := small
        _ ≤ 2 ^ position := Nat.pow_le_pow_right (by decide) (by omega)
    rw [zero] at set
    exact Bool.false_ne_true set.2

theorem all_bit : ∀ position : Fin 64, EntryFlags.all.getLsbD position = true → position.val < 9 ∨ position.val = 63 := by
  decide

theorem mask_bit : ∀ position : Fin 64,
    (0x000FFFFFFFFFF000 : Word).getLsbD position = true ↔ 12 ≤ position.val ∧ position.val < 52 := by
  decide

/-- The bits of a known flag are apart from the bits of an address. -/
theorem flags_bit (known : flags.Known) (bound : position < 64) (set : flags.getLsbD position = true) :
    EntryFlags.all.getLsbD position = true ∧ (position < 9 ∨ position = 63) := by
  have bit := congrArg (fun word : Word => word.getLsbD position) known
  simp only [BitVec.getLsbD_and, set, Bool.true_and] at bit
  exact ⟨bit, all_bit ⟨position, bound⟩ bit⟩

/-- A stored entry has the given flags. -/
theorem flags_ofFrame (made : ofFrame frame flags = some entry) (known : flags.Known) : entry.flags = flags := by
  rw [ofFrame] at made
  split at made
  · next small =>
      rw [← Option.some.inj made, PageTableEntry.flags]
      apply BitVec.eq_of_getLsbD_eq
      intro position bound
      rw [BitVec.getLsbD_and, BitVec.getLsbD_or]
      cases set : flags.getLsbD position with
      | true => rw [Bool.or_true, Bool.true_and, (flags_bit known bound set).1]
      | false =>
        rw [Bool.or_false, Bool.and_eq_false_iff]
        by_contra both
        rw [not_or, Bool.not_eq_false, Bool.not_eq_false] at both
        have address := address_bit small both.1
        have flag := all_bit ⟨position, bound⟩ both.2
        dsimp only at flag
        omega
  · contradiction

/-- A present entry gives back its frame. -/
theorem getFrame_ofFrame (made : ofFrame frame flags = some entry) (known : flags.Known)
    (present : flags.contains .present = true) : entry.getFrame = some frame := by
  have kept := flags_ofFrame made known
  rw [getFrame, kept, if_pos present, Option.some.injEq]
  rw [ofFrame] at made
  split at made
  · next small =>
      have whole : entry &&& 0x000FFFFFFFFFF000 = BitVec.ofNat 64 (frame * pageSize) := by
        rw [← Option.some.inj made]
        apply BitVec.eq_of_getLsbD_eq
        intro position bound
        have masked := mask_bit ⟨position, bound⟩
        dsimp only at masked
        rw [BitVec.getLsbD_and, BitVec.getLsbD_or]
        cases set : (BitVec.ofNat 64 (frame * pageSize)).getLsbD position with
        | true => rw [Bool.true_or, Bool.true_and, masked.mpr (address_bit small set)]
        | false =>
          rw [Bool.false_or, Bool.and_eq_false_iff]
          by_contra both
          rw [not_or, Bool.not_eq_false, Bool.not_eq_false] at both
          have flag := flags_bit known bound both.1
          have address := masked.mp both.2
          omega
      rw [whole, BitVec.toNat_ofNat, Nat.mod_eq_of_lt (Nat.lt_trans small (by decide)), Nat.mul_div_cancel _ (by decide)]
  · contradiction

end PageTableEntry

/-- The processor writes through these links. -/
def writableLinks (memory : Memory) (frame : Nat) (index : TableIndex) : Option Nat :=
  if isWritable (memory frame index) then links memory frame index else none

/-- A page without a table of the last level has an unused entry. -/
def leafEntry (memory : Memory) (root : Nat) (page : Page) : PageTableEntry :=
  match follow (links memory) root page.upperPath with
  | some frame => memory frame page.p1Index
  | none => 0

/-- The tables form trees with common branches, and an upper entry is unused or leads to a table. -/
structure Forest (memory : Memory) (roots : Set Nat) : Prop where
  planted : Planted (links memory) roots 3
  upper : ∀ root ∈ roots, ∀ path, path.length ≤ 2 → ∀ frame, follow (links memory) root path = some frame →
    ∀ index, memory frame index = 0 ∨ (links memory frame index).isSome = true ∧ isHuge (memory frame index) = false

/-- The frame holds no table of the trees. -/
def Apart (memory : Memory) (roots : Set Nat) (frame : Nat) : Prop := Unreached (links memory) roots 3 frame

section Write

variable {memory : Memory} {frame other : Nat} {index slot : TableIndex} {word : Word}

theorem write_same (memory : Memory) (frame : Nat) (index : TableIndex) (word : Word) :
    memory.write frame index word frame index = word := if_pos ⟨rfl, rfl⟩

theorem write_other (different : other ≠ frame ∨ slot ≠ index) :
    memory.write frame index word other slot = memory other slot :=
  if_neg fun ⟨same, equal⟩ => different.elim (absurd same) (absurd equal)

theorem links_write_other (different : other ≠ frame ∨ slot ≠ index) :
    links (memory.write frame index word) other slot = links memory other slot := by
  rw [links, write_other different, links]

theorem writableLinks_write_other (different : other ≠ frame ∨ slot ≠ index) :
    writableLinks (memory.write frame index word) other slot = writableLinks memory other slot := by
  rw [writableLinks, write_other different, links_write_other different, writableLinks]

theorem writableLinks_weaker (table : Nat) (index : TableIndex) (next : Nat)
    (link : writableLinks memory table index = some next) : links memory table index = some next := by
  rw [writableLinks] at link
  split at link
  · exact link
  · contradiction

end Write

section Leaf

variable {memory : Memory} {root frame : Nat} {page : Page}

theorem leafEntry_of_table (found : follow (links memory) root page.upperPath = some frame) :
    leafEntry memory root page = memory frame page.p1Index := by
  rw [leafEntry, found]

theorem leafEntry_of_none (absent : follow (links memory) root page.upperPath = none) : leafEntry memory root page = 0 := by
  rw [leafEntry, absent]

theorem Page.forAddress_startAddress (page : Page) : Page.forAddress page.startAddress = page := by
  change Page.mk (page.pageNumber * 4096 / 4096) = page
  rw [Nat.mul_div_cancel _ (by decide)]

theorem Page.upperPath_length (page : Page) : page.upperPath.length = 3 := rfl

theorem Page.path_length (page : Page) : page.path.length = 4 := rfl

theorem Page.path_eq (page : Page) : page.path = page.upperPath ++ [page.p1Index] := rfl

/-- A translated page is the frame of its entry of the last level. -/
theorem follow_path (memory : Memory) (root : Nat) (page : Page) :
    follow (links memory) root page.path = (leafEntry memory root page).getFrame := by
  rw [Page.path_eq, follow_snoc]
  cases found : follow (links memory) root page.upperPath with
  | none => rw [leafEntry_of_none found, PageTableEntry.getFrame_zero, Option.bind_none]
  | some frame =>
    rw [leafEntry_of_table found, Option.bind_some]
    rfl

end Leaf

namespace Forest

variable {memory : Memory} {roots : Set Nat} {home frame : Nat} {place : List TableIndex} {index : TableIndex}
  {word : Word}

/-- An unused upper entry has no link. -/
theorem unused_iff (forest : Forest memory roots) (inside : home ∈ roots) (high : place.length ≤ 2)
    (found : follow (links memory) home place = some frame) (index : TableIndex) :
    memory frame index = 0 ↔ links memory frame index = none := by
  constructor
  · intro zero
    rw [links, zero, PageTableEntry.getFrame_zero]
  · intro free
    rcases forest.upper home inside place high frame found index with zero | ⟨present, _⟩
    · exact zero
    · rw [free] at present
      contradiction

section Upgrade

variable (sameLink : PageTableEntry.getFrame word = links memory frame index)

include sameLink

theorem links_upgrade : links (memory.write frame index word) = links memory := by
  funext other slot
  by_cases here : other = frame ∧ slot = index
  · obtain ⟨rfl, rfl⟩ := here
    rw [links, write_same]
    exact sameLink
  · exact links_write_other (not_and_or.mp here)

/-- More flags of an upper entry keep the forest. -/
theorem upgrade (forest : Forest memory roots) (present : (links memory frame index).isSome = true)
    (table : isHuge word = false) : Forest (memory.write frame index word) roots where
  planted := by
    rw [links_upgrade sameLink]
    exact forest.planted
  upper := by
    intro root inside path high visited found slot
    rw [links_upgrade sameLink] at found ⊢
    by_cases here : visited = frame ∧ slot = index
    · obtain ⟨rfl, rfl⟩ := here
      rw [write_same]
      exact .inr ⟨present, table⟩
    · rw [write_other (not_and_or.mp here)]
      exact forest.upper root inside path high visited found slot

theorem leafEntry_upgrade (forest : Forest memory roots) (inside : home ∈ roots) (high : place.length ≤ 2)
    (found : follow (links memory) home place = some frame) {root : Nat} (member : root ∈ roots) (page : Page) :
    leafEntry (memory.write frame index word) root page = leafEntry memory root page := by
  rw [leafEntry, links_upgrade sameLink, leafEntry]
  cases reached : follow (links memory) root page.upperPath with
  | none => rfl
  | some last =>
    apply write_other
    left
    rintro rfl
    have same := forest.planted root member home inside page.upperPath place last page.upperPath_length.le (by omega) reached found
    rw [← same] at high
    exact absurd high (by decide : ¬ 3 ≤ 2)

theorem writableLinks_upgrade (kept : isWritable (memory frame index) = true → isWritable word = true)
    (other : Nat) (slot : TableIndex) (next : Nat) (link : writableLinks memory other slot = some next) :
    writableLinks (memory.write frame index word) other slot = some next := by
  by_cases here : other = frame ∧ slot = index
  · obtain ⟨rfl, rfl⟩ := here
    rw [writableLinks] at link ⊢
    rw [links_upgrade sameLink, write_same]
    split at link
    · next writable => rw [if_pos (kept writable), link]
    · contradiction
  · rw [writableLinks_write_other (not_and_or.mp here), link]

end Upgrade

section Link

variable {fresh : Nat}

/-- An unused upper entry gets a link to a cleared frame apart from the trees. -/
structure NewTable (memory : Memory) (roots : Set Nat) (frame : Nat) (index : TableIndex) (fresh : Nat) (word : Word) : Prop where
  free : links memory frame index = none
  different : fresh ≠ frame
  cleared : ∀ slot, memory fresh slot = 0
  apart : Apart memory roots fresh
  link : PageTableEntry.getFrame word = some fresh
  table : isHuge word = false

theorem NewTable.linked (new : NewTable memory roots frame index fresh word) :
    Linked (links memory) (links (memory.write frame index word)) frame index fresh where
  free := new.free
  added := by
    rw [links, write_same]
    exact new.link
  others other slot different := links_write_other different
  empty slot := by
    rw [links_write_other (.inl new.different), links, new.cleared slot, PageTableEntry.getFrame_zero]

theorem link (forest : Forest memory roots) (new : NewTable memory roots frame index fresh word) :
    Forest (memory.write frame index word) roots where
  planted := new.linked.planted forest.planted new.apart
  upper := by
    intro root inside path high visited found slot
    by_cases here : visited = frame ∧ slot = index
    · obtain ⟨rfl, rfl⟩ := here
      rw [new.linked.added, write_same]
      exact .inr ⟨rfl, new.table⟩
    · rw [write_other (not_and_or.mp here), links_write_other (not_and_or.mp here)]
      rcases new.linked.follow_cases found with old | ⟨rfl, _⟩
      · exact forest.upper root inside path high visited old slot
      · exact .inl (new.cleared slot)

theorem leafEntry_link (forest : Forest memory roots) (new : NewTable memory roots frame index fresh word)
    (inside : home ∈ roots) (high : place.length ≤ 2) (found : follow (links memory) home place = some frame)
    {root : Nat} (member : root ∈ roots) (page : Page) :
    leafEntry (memory.write frame index word) root page = leafEntry memory root page := by
  cases reached : follow (links (memory.write frame index word)) root page.upperPath with
  | none =>
    rw [leafEntry_of_none reached]
    cases old : follow (links memory) root page.upperPath with
    | none => rw [leafEntry_of_none old]
    | some last =>
      rw [follow_mono new.linked.mono old] at reached
      contradiction
  | some last =>
    rw [leafEntry_of_table reached]
    rcases new.linked.follow_cases reached with old | ⟨rfl, front, split, before⟩
    · rw [leafEntry_of_table old]
      apply write_other
      left
      rintro rfl
      have same := forest.planted root member home inside page.upperPath place last page.upperPath_length.le (by omega) old found
      rw [← same] at high
      exact absurd high (by decide : ¬ 3 ≤ 2)
    · rw [write_other (.inl new.different), new.cleared]
      symm
      apply leafEntry_of_none
      rw [split, follow_snoc, before, Option.bind_some, new.free]

theorem writableLinks_link (new : NewTable memory roots frame index fresh word) (other : Nat) (slot : TableIndex)
    (next : Nat) (link : writableLinks memory other slot = some next) :
    writableLinks (memory.write frame index word) other slot = some next := by
  by_cases here : other = frame ∧ slot = index
  · obtain ⟨rfl, rfl⟩ := here
    have present := writableLinks_weaker _ _ _ link
    rw [new.free] at present
    contradiction
  · rw [writableLinks_write_other (not_and_or.mp here), link]

end Link

section Last

variable (forest : Forest memory roots) (inside : home ∈ roots) (deep : place.length = 3)
  (found : follow (links memory) home place = some frame)

include forest inside deep found

/-- An entry of the last level does not matter to the tables. -/
theorem follow_last {root : Nat} (member : root ∈ roots) {path : List TableIndex} (short : path.length ≤ 3) :
    follow (links (memory.write frame index word)) root path = follow (links memory) root path :=
  forest.planted.follow_eq inside found deep
    (fun _ different => funext fun _ => links_write_other (.inl different)) member short

theorem last : Forest (memory.write frame index word) roots where
  planted := by
    intro first firstRoot second secondRoot one two table short brief onePath twoPath
    rw [forest.follow_last inside deep found firstRoot short] at onePath
    rw [forest.follow_last inside deep found secondRoot brief] at twoPath
    exact forest.planted first firstRoot second secondRoot one two table short brief onePath twoPath
  upper := by
    intro root member path high visited reached slot
    rw [forest.follow_last inside deep found member (by omega)] at reached
    have different : visited ≠ frame := by
      rintro rfl
      have same := forest.planted root member home inside path place visited (by omega) (by omega) reached found
      rw [same] at high
      omega
    rw [write_other (.inl different), links_write_other (.inl different)]
    exact forest.upper root member path high visited reached slot

theorem leafEntry_last {root : Nat} (member : root ∈ roots) {page : Page} (different : page.path ≠ place ++ [index]) :
    leafEntry (memory.write frame index word) root page = leafEntry memory root page := by
  rw [leafEntry, forest.follow_last inside deep found member page.upperPath_length.le, leafEntry]
  cases reached : follow (links memory) root page.upperPath with
  | none => rfl
  | some table =>
    apply write_other
    by_contra here
    rw [not_or, not_not, not_not] at here
    obtain ⟨rfl, rfl⟩ := here
    have same := forest.planted root member home inside page.upperPath place table page.upperPath_length.le (by omega) reached found
    exact different (by rw [Page.path_eq, same])

theorem writableLinks_last {root target : Nat} (member : root ∈ roots) {page : Page}
    (different : page.path ≠ place ++ [index]) (reached : follow (writableLinks memory) root page.path = some target) :
    follow (writableLinks (memory.write frame index word)) root page.path = some target :=
  forest.planted.keeps inside found deep writableLinks_weaker (fun _ _ apart => writableLinks_write_other apart) member
    rfl different reached

end Last

end Forest

/-- The frame holds a table of the trees. -/
def Held (memory : Memory) (roots : Set Nat) (frame : Nat) : Prop :=
  ∃ root ∈ roots, ∃ path : List TableIndex, path.length ≤ 3 ∧ follow (links memory) root path = some frame

theorem apart_iff {memory : Memory} {roots : Set Nat} {frame : Nat} : Apart memory roots frame ↔ ¬ Held memory roots frame := by
  constructor
  · rintro apart ⟨root, inside, path, short, found⟩
    exact apart root inside path short found
  · intro free root inside path short found
    exact free ⟨root, inside, path, short, found⟩

/-- A change of other frames leaves the tables alone. -/
def Untouched (memory later : Memory) (roots : Set Nat) : Prop :=
  ∀ frame, Held memory roots frame → later frame = memory frame

namespace Untouched

variable {memory later : Memory} {roots : Set Nat}

/-- A change of one frame apart from the trees leaves them alone. -/
theorem of_apart {fresh : Nat} (apart : Apart memory roots fresh)
    (same : ∀ other, other ≠ fresh → later other = memory other) : Untouched memory later roots := by
  intro visited held
  apply same
  rintro rfl
  exact apart_iff.mp apart held

variable (untouched : Untouched memory later roots)

include untouched

variable {root : Nat} {path : List TableIndex}

theorem follow_links (inside : root ∈ roots) (short : path.length ≤ 4) :
    follow (links later) root path = follow (links memory) root path := by
  apply follow_congr
  intro front index table ahead found
  have bound := ahead.length_le
  rw [List.length_append, List.length_singleton] at bound
  rw [links, untouched table ⟨root, inside, front, by omega, found⟩, links]

theorem follow_writableLinks (inside : root ∈ roots) (short : path.length ≤ 4) :
    follow (writableLinks later) root path = follow (writableLinks memory) root path := by
  apply follow_congr
  intro front index table ahead found
  have bound := ahead.length_le
  rw [List.length_append, List.length_singleton] at bound
  have same := untouched table ⟨root, inside, front, by omega, follow_mono writableLinks_weaker found⟩
  rw [writableLinks, writableLinks, links, links, same]

theorem held_iff (frame : Nat) : Held later roots frame ↔ Held memory roots frame := by
  constructor
  · rintro ⟨root, inside, path, short, found⟩
    rw [untouched.follow_links inside (by omega)] at found
    exact ⟨root, inside, path, short, found⟩
  · rintro ⟨root, inside, path, short, found⟩
    rw [← untouched.follow_links inside (by omega)] at found
    exact ⟨root, inside, path, short, found⟩

theorem apart {frame : Nat} (old : Apart memory roots frame) : Apart later roots frame := by
  rw [apart_iff, untouched.held_iff, ← apart_iff]
  exact old

theorem leafEntry_eq (inside : root ∈ roots) (page : Page) :
    leafEntry later root page = leafEntry memory root page := by
  rw [leafEntry, untouched.follow_links inside (by rw [page.upperPath_length]; decide), leafEntry]
  cases found : follow (links memory) root page.upperPath with
  | none => rfl
  | some frame => exact congrFun (untouched frame ⟨root, inside, _, page.upperPath_length.le, found⟩) _

theorem forest (forest : Forest memory roots) : Forest later roots where
  planted := by
    intro first firstRoot second secondRoot one two table short brief onePath twoPath
    rw [untouched.follow_links firstRoot (by omega)] at onePath
    rw [untouched.follow_links secondRoot (by omega)] at twoPath
    exact forest.planted first firstRoot second secondRoot one two table short brief onePath twoPath
  upper := by
    intro root inside path high frame found index
    rw [untouched.follow_links inside (by omega)] at found
    rw [links, untouched frame ⟨root, inside, path, by omega, found⟩]
    exact forest.upper root inside path high frame found index

end Untouched

end BubbleOs.Paging
