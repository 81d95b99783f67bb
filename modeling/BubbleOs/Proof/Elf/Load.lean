import BubbleOs.Construction.Elf.Loader
import BubbleOs.Construction.Ulib.Lib
import BubbleOs.Proof.Mem.Slots
import BubbleOs.Proof.Paging.Region

namespace BubbleOs.Elf

open Attempt FlatMemory Paging Ulib

@[simp] theorem stringBytes_cons (arg : List UInt8) (rest : List (List UInt8)) :
    stringBytes (arg :: rest) = arg.length + 1 + stringBytes rest := by
  rw [stringBytes, List.map_cons, List.sum_cons]
  rfl

/-- The pointers lead to the strings one after the other. -/
def Laid (memory : FlatMemory) (frame : Nat) : Nat → Nat → List (List UInt8) → Prop
  | _, _, [] => True
  | index, addr, arg :: rest =>
    memory.loadWord (frame + 8 * (1 + index)) = addr ∧ memory.load addr (arg.length + 1) = arg ++ [0] ∧
      Laid memory frame (index + 1) (addr + (arg.length + 1)) rest

section Write

variable {memory other : FlatMemory} {frame index addr : Nat} {argv : List (List UInt8)}

/-- Only the pointers and the strings are written. -/
theorem writeArgs_outside {place : Nat}
    (pointers : place < frame + 8 * (1 + index) ∨ frame + 8 * (1 + index + argv.length) ≤ place)
    (strings : place < addr ∨ addr + stringBytes argv ≤ place) :
    writeArgs frame index addr argv memory place = memory place := by
  induction argv generalizing index addr memory with
  | nil => rfl
  | cons arg rest ih =>
    rw [List.length_cons] at pointers
    rw [stringBytes_cons] at strings
    rw [writeArgs, ih (by omega) (by omega), store_outside (by simp only [List.length_singleton]; omega),
      store_outside (by omega), FlatMemory.storeWord, store_outside (by rw [length_leBytes]; omega)]

theorem laid_congr (pointers : Agree memory other (frame + 8 * (1 + index)) (8 * argv.length))
    (strings : Agree memory other addr (stringBytes argv)) (laid : Laid other frame index addr argv) :
    Laid memory frame index addr argv := by
  induction argv generalizing index addr with
  | nil => trivial
  | cons arg rest ih =>
    obtain ⟨pointer, string, later⟩ := laid
    rw [List.length_cons] at pointers
    rw [stringBytes_cons] at strings
    refine ⟨?_, ?_, ?_⟩
    · rw [← pointer]
      exact loadWord_congr fun place low high => pointers place low (by omega)
    · rw [← string]
      exact load_congr fun place low high => strings place low (by omega)
    · refine ih (fun place low high => ?_) (fun place low high => ?_) later
      · exact pointers place (by omega) (by omega)
      · exact strings place (by omega) (by omega)

/-- The loop lays the arguments out when the pointers end before the strings. -/
theorem writeArgs_laid (apart : frame + 8 * (1 + index + argv.length) ≤ addr)
    (bounded : addr + stringBytes argv < addressLimit) :
    Laid (writeArgs frame index addr argv memory) frame index addr argv := by
  induction argv generalizing index addr memory with
  | nil => trivial
  | cons arg rest ih =>
    rw [List.length_cons] at apart
    rw [stringBytes_cons] at bounded
    rw [writeArgs]
    refine ⟨?_, ?_, ih (by omega) (by omega)⟩
    · have kept : Agree (writeArgs frame (index + 1) (addr + (arg.length + 1)) rest
          (((memory.storeWord (frame + 8 * (1 + index)) addr).store addr arg).store (addr + arg.length) [0]))
          (memory.storeWord (frame + 8 * (1 + index)) addr) (frame + 8 * (1 + index)) 8 := by
        intro place low high
        rw [writeArgs_outside (by omega) (by omega), store_outside (by omega), store_outside (by omega)]
      rw [loadWord_congr kept]
      exact loadWord_storeWord (by have limit := bounded; unfold addressLimit at limit; omega)
    · have kept : Agree (writeArgs frame (index + 1) (addr + (arg.length + 1)) rest
          (((memory.storeWord (frame + 8 * (1 + index)) addr).store addr arg).store (addr + arg.length) [0]))
          (((memory.storeWord (frame + 8 * (1 + index)) addr).store addr arg).store (addr + arg.length) [0])
          addr (arg.length + 1) := by
        intro place low high
        exact writeArgs_outside (by omega) (by omega)
      rw [load_congr kept, load_add]
      have last := load_store ((memory.storeWord (frame + 8 * (1 + index)) addr).store addr arg) (addr + arg.length) [0]
      have first : Agree
          (((memory.storeWord (frame + 8 * (1 + index)) addr).store addr arg).store (addr + arg.length) [0])
          ((memory.storeWord (frame + 8 * (1 + index)) addr).store addr arg) addr arg.length :=
        agree_store (.inl (Nat.le_refl _))
      rw [load_congr first, load_store]
      exact congrArg (arg ++ ·) last

end Write

section Read

variable {memory : FlatMemory} {arg : List UInt8} {argv : List (List UInt8)} {args : Args}

/-- A string without a zero byte is read up to its end. -/
theorem readString_eq (free : 0 ∉ arg) {addr fuel : Nat} (enough : arg.length < fuel)
    (stored : memory.load addr (arg.length + 1) = arg ++ [0]) : readString memory fuel addr = .value arg := by
  induction arg generalizing addr fuel with
  | nil =>
    cases fuel with
    | zero => exact absurd enough (Nat.not_lt_zero _)
    | succ fuel =>
      have zero : memory addr = 0 := (List.cons.inj stored).1
      rw [readString, if_pos zero]
  | cons byte rest ih =>
    cases fuel with
    | zero => exact absurd enough (Nat.not_lt_zero _)
    | succ fuel =>
      have head : memory.load addr 1 = [memory addr] := rfl
      rw [List.length_cons, Nat.add_comm, load_add, head, List.cons_append, List.nil_append, List.cons_append,
        List.cons.injEq] at stored
      obtain ⟨same, later⟩ := stored
      obtain ⟨nonzero, restFree⟩ := not_or.mp (List.mem_cons.not.mp free)
      rw [List.length_cons] at enough
      rw [readString, same, if_neg (Ne.symm nonzero), ih restFree (by omega) later]

/-- The arguments are read back from the layout. -/
theorem get_laid {frame index addr : Nat} (laid : Laid memory frame index addr argv) (free : ∀ arg ∈ argv, 0 ∉ arg)
    (positive : 0 < addr) (bounded : addr + stringBytes argv < Ulib.addressLimit) (array : args.argv = frame + 8)
    (count : args.argc = index + argv.length) {offset : Nat} (found : argv[offset]? = some arg) :
    args.get memory (index + offset) = .value arg := by
  induction argv generalizing index addr offset with
  | nil => cases found
  | cons first rest ih =>
    obtain ⟨pointer, string, later⟩ := laid
    rw [stringBytes_cons] at bounded
    rw [List.length_cons] at count
    cases offset with
    | zero =>
      obtain rfl : first = arg := Option.some.inj found
      have place : args.argv + 8 * (index + 0) = frame + 8 * (1 + index) := by rw [array]; omega
      rw [Args.get, if_neg (by omega), place, pointer]
      simp only
      rw [if_neg (by omega)]
      exact readString_eq (free first List.mem_cons_self) (by omega) string
    | succ offset =>
      have restFree := fun other member => free other (List.mem_cons_of_mem _ member)
      have result := ih later restFree (by omega) (by omega) (by omega) found
      rw [Nat.add_right_comm, Nat.add_assoc] at result
      exact result

/-- The iteration returns the arguments that are left. -/
theorem collect_eq (count : args.index + argv.length = args.argc)
    (reads : ∀ offset arg, argv[offset]? = some arg → args.get memory (args.index + offset) = .value arg) {fuel : Nat}
    (enough : argv.length < fuel) : args.collect memory fuel = .value argv := by
  induction argv generalizing args fuel with
  | nil =>
    cases fuel with
    | zero => exact absurd enough (Nat.not_lt_zero _)
    | succ fuel =>
      have ended : args.next memory = .missing := by
        rw [Args.next, Args.get, if_pos (by rw [List.length_nil] at count; omega)]
      rw [Args.collect, ended]
  | cons first rest ih =>
    cases fuel with
    | zero => exact absurd enough (Nat.not_lt_zero _)
    | succ fuel =>
      have taken : args.next memory = .value (first, { args with index := args.index + 1 }) := by
        have read := reads 0 first rfl
        rw [Nat.add_zero] at read
        rw [Args.next, read]
      rw [List.length_cons] at count enough
      rw [Args.collect, taken]
      simp only
      rw [ih (by simp only; omega) (fun offset arg found => ?_) (by omega)]
      have result := reads (offset + 1) arg found
      rw [Nat.add_comm offset 1, ← Nat.add_assoc] at result
      exact result

end Read

section Frame

variable {stack : Stack} {argv : List (List UInt8)}

/-- The strings and the aligned pointer frame fit into the stack. -/
def Fits (stack : Stack) (argv : List (List UInt8)) : Prop :=
  ∃ base, 16 ∣ base ∧ stack.bottom ≤ base ∧ base + 8 * (argv.length + 3) + stringBytes argv ≤ stack.top

/-- The written frame of a stack. -/
def frameBase (stack : Stack) (argv : List (List UInt8)) : Nat :=
  (stack.top - stringBytes argv - (argv.length + 3) * 8) / 16 * 16

def writtenFrame (stack : Stack) (argv : List (List UInt8)) (memory : FlatMemory) : FlatMemory :=
  ((writeArgs (frameBase stack argv) 0 (stack.top - stringBytes argv) argv
    (memory.storeWord (frameBase stack argv) argv.length)).storeWord (frameBase stack argv + 8 * (1 + argv.length))
      0).storeWord (frameBase stack argv + 8 * (2 + argv.length)) 0

/-- The frame is written when it fits, and nothing is written otherwise. -/
theorem writeArgsFrame_eq (bounded : stack.top < addressLimit) (representable : stringBytes argv < addressLimit)
    (memory : FlatMemory) :
    Fits stack argv ∧ writeArgsFrame stack argv memory = (.value (frameBase stack argv), writtenFrame stack argv memory) ∧
        stack.bottom ≤ frameBase stack argv ∧ (argv.length + 3) * 8 + stringBytes argv ≤ stack.top ∨
      ¬ Fits stack argv ∧ writeArgsFrame stack argv memory = (.missing, memory) := by
  rw [writeArgsFrame, if_neg (by omega)]
  by_cases fits : Fits stack argv
  · left
    have limit : addressLimit = 18446744073709551616 := rfl
    refine ⟨fits, ?_⟩
    obtain ⟨base, ⟨rows, rfl⟩, above, below⟩ := fits
    have low : stack.bottom ≤ frameBase stack argv := by
      rw [frameBase]
      omega
    refine ⟨?_, low, by omega⟩
    rw [frameBase] at low
    rw [if_neg (by omega), if_neg (by omega), if_neg (by omega), if_neg (by omega), if_neg (by omega)]
    rfl
  · right
    refine ⟨fits, ?_⟩
    by_cases strings : stack.top < stringBytes argv
    · rw [if_pos strings]
      rfl
    rw [if_neg strings]
    by_cases words : addressLimit ≤ argv.length + 3
    · rw [if_pos words]
      rfl
    rw [if_neg words]
    by_cases size : addressLimit ≤ (argv.length + 3) * 8
    · rw [if_pos size]
      rfl
    rw [if_neg size]
    by_cases pointers : stack.top - stringBytes argv < (argv.length + 3) * 8
    · rw [if_pos pointers]
      rfl
    rw [if_neg pointers]
    by_cases low : (stack.top - stringBytes argv - (argv.length + 3) * 8) / 16 * 16 < stack.bottom
    · rw [if_pos low]
      rfl
    · exact absurd ⟨_, Nat.dvd_mul_left 16 _, Nat.le_of_not_lt low, by omega⟩ fits

section Written

variable (room : (argv.length + 3) * 8 + stringBytes argv ≤ stack.top) (memory : FlatMemory)

include room

theorem frameBase_apart : frameBase stack argv + 8 * (argv.length + 3) ≤ stack.top - stringBytes argv := by
  rw [frameBase]
  omega

theorem writtenFrame_outside {addr : Nat} (outside : addr < frameBase stack argv ∨ stack.top ≤ addr) :
    writtenFrame stack argv memory addr = memory addr := by
  have apart := frameBase_apart room
  rw [writtenFrame, FlatMemory.storeWord, store_outside (by rw [length_leBytes]; omega), FlatMemory.storeWord,
    store_outside (by rw [length_leBytes]; omega), writeArgs_outside (by omega) (by omega), FlatMemory.storeWord,
    store_outside (by rw [length_leBytes]; omega)]

theorem loadWord_argc (bounded : stack.top < addressLimit) :
    (writtenFrame stack argv memory).loadWord (frameBase stack argv) = argv.length := by
  have apart := frameBase_apart room
  have kept : Agree (writtenFrame stack argv memory) (memory.storeWord (frameBase stack argv) argv.length)
      (frameBase stack argv) 8 := by
    refine (agree_storeWord (by omega)).trans ((agree_storeWord (by omega)).trans fun place low high => ?_)
    exact writeArgs_outside (by omega) (by omega)
  rw [loadWord_congr kept]
  refine loadWord_storeWord ?_
  have limit : addressLimit = 18446744073709551616 := rfl
  omega

theorem laid_writtenFrame (bounded : stack.top < addressLimit) :
    Laid (writtenFrame stack argv memory) (frameBase stack argv) 0 (stack.top - stringBytes argv) argv := by
  have apart := frameBase_apart room
  have laid := @writeArgs_laid (memory.storeWord (frameBase stack argv) argv.length) (frameBase stack argv) 0
    (stack.top - stringBytes argv) argv (by omega) (by omega)
  refine laid_congr ?_ ?_ laid
  · exact (agree_storeWord (by omega)).trans (agree_storeWord (by omega))
  · exact (agree_storeWord (by omega)).trans (agree_storeWord (by omega))

end Written

/-- The frame is refused exactly when it does not fit, and a written frame is aligned, stays inside the stack, keeps the
pointers apart from the strings and gives the arguments back. -/
theorem args_round_trip (bounded : stack.top < addressLimit) (representable : stringBytes argv < addressLimit)
    (free : ∀ arg ∈ argv, 0 ∉ arg) (memory : FlatMemory) :
    (writeArgsFrame stack argv memory).1 ≠ .hang ∧
    ((writeArgsFrame stack argv memory).1 = .missing ↔ ¬ Fits stack argv) ∧
    ∀ rsp after, writeArgsFrame stack argv memory = (.value rsp, after) →
      16 ∣ rsp ∧
      (∀ addr, addr < stack.bottom ∨ stack.top ≤ addr → after addr = memory addr) ∧
      rsp + 8 * (argv.length + 3) ≤ stack.top - stringBytes argv ∧
      Laid after rsp 0 (stack.top - stringBytes argv) argv ∧
      (Args.new (after.loadWord rsp) (rsp + 8)).len = argv.length ∧
      (∀ index arg, argv[index]? = some arg →
        (Args.new (after.loadWord rsp) (rsp + 8)).get after index = .value arg) ∧
      (∀ index, argv.length ≤ index → (Args.new (after.loadWord rsp) (rsp + 8)).get after index = .missing) ∧
      (∀ fuel, argv.length < fuel →
        (Args.new (after.loadWord rsp) (rsp + 8)).collect after fuel = .value argv) ∧
      after.loadWord (rsp + 8 * (1 + argv.length)) = 0 ∧ after.loadWord (rsp + 8 * (2 + argv.length)) = 0 := by
  rcases writeArgsFrame_eq bounded representable memory with ⟨fits, result, low, room⟩ | ⟨fits, result⟩
  · rw [result]
    refine ⟨by simp, ⟨nofun, fun not => absurd fits not⟩, fun rsp after same => ?_⟩
    rw [Prod.mk.injEq, Outcome.value.injEq] at same
    obtain ⟨rfl, rfl⟩ := same
    have apart := frameBase_apart room
    have laid := laid_writtenFrame room memory bounded
    have count := loadWord_argc room memory bounded
    have limit : addressLimit = Ulib.addressLimit := rfl
    have reads (index : Nat) (arg : List UInt8) (found : argv[index]? = some arg) :
        (Args.new argv.length (frameBase stack argv + 8)).get (writtenFrame stack argv memory) index = .value arg := by
      have result := @get_laid _ arg _ (Args.new argv.length (frameBase stack argv + 8)) _ _ _ laid free (by omega)
        (by omega) rfl (Nat.zero_add _).symm index found
      rw [Nat.zero_add] at result
      exact result
    rw [count]
    refine ⟨Nat.dvd_mul_left 16 _, ?_, apart, laid, rfl, reads, ?_, ?_, ?_, ?_⟩
    · intro addr outside
      exact writtenFrame_outside room memory (by omega)
    · intro index outside
      exact if_pos outside
    · intro fuel enough
      refine collect_eq (Nat.zero_add _) (fun offset arg found => ?_) enough
      have read := reads offset arg found
      rw [← Nat.zero_add offset] at read
      exact read
    · have kept : Agree (writtenFrame stack argv memory) _ (frameBase stack argv + 8 * (1 + argv.length)) 8 :=
        agree_storeWord (by omega)
      rw [loadWord_congr kept]
      exact loadWord_storeWord (by decide)
    · exact loadWord_storeWord (by decide)
  · rw [result]
    exact ⟨by simp, ⟨fun _ => fits, fun _ => rfl⟩, fun rsp after never => by cases never⟩

/-- One argument of one byte is written below the top of a small stack. -/
theorem args_round_trip_one :
    ∃ rsp after, writeArgsFrame ⟨64, 0⟩ [[97]] (fun _ => 0) = (.value rsp, after) ∧ 16 ∣ rsp ∧
      (Args.new (after.loadWord rsp) (rsp + 8)).get after 0 = .value [97] := by
  have trip := @args_round_trip ⟨64, 0⟩ [[97]] (by decide) (by decide) (by decide) (fun _ => 0)
  have written : (writeArgsFrame ⟨64, 0⟩ [[97]] fun _ => 0).1 = .value 16 := by decide
  have result := eq_of_outcome written
  obtain ⟨aligned, _, _, _, _, reads, _⟩ := trip.2.2 _ _ result
  exact ⟨_, _, result, aligned, reads 0 [97] rfl⟩

end Frame

open MemoryController PageTableSlotAllocator

section Moves

variable {rel : PageTableSlotAllocator → PageTableSlotAllocator → Prop} [IsPreorder PageTableSlotAllocator rel]

theorem writeBytes_slots (addr size : Nat) (source : Nat → UInt8) :
    Moves slotAllocator rel (writeBytes addr size source) :=
  writeBytes_moves steady addr size source

theorem copyAll_slots (file : List UInt8) (regions : List ElfRegion) :
    Moves slotAllocator rel (copyAll file regions) := by
  induction regions with
  | nil => exact .pure ()
  | cons region rest ih =>
    refine Moves.bind ?_ fun _ => ih
    rw [copyRegion]
    split
    · exact .fail
    · refine (writeBytes_slots _ _ _).bind fun _ => ?_
      dsimp only
      split
      · exact .halt
      · exact writeBytes_slots _ _ _

theorem unmapRegions_slots (regions : List ElfRegion) :
    Moves slotAllocator rel (unmapRegions regions) := by
  induction regions with
  | nil => exact .pure ()
  | cons region rest ih =>
    refine Moves.bind ?_ fun _ => ih
    rw [unmapRegion]
    split
    · exact .pure ()
    · refine (writeBytes_slots _ _ _).bind fun _ => ?_
      split
      · exact .halt
      · exact unmapPages_slots _

theorem storeArgs_slots (frame index addr : Nat) (argv : List (List UInt8)) :
    Moves slotAllocator rel (storeArgs frame index addr argv) := by
  induction argv generalizing index addr with
  | nil => exact .pure ()
  | cons arg rest ih =>
    exact (writeBytes_slots _ _ _).bind fun _ => (writeBytes_slots _ _ _).bind fun _ =>
      (writeBytes_slots _ _ _).bind fun _ => ih _ _

theorem storeArgsFrame_slots (stack : Stack) (argv : List (List UInt8)) :
    Moves slotAllocator rel (storeArgsFrame stack argv) := by
  rw [storeArgsFrame]
  split
  · exact (writeBytes_slots _ _ _).bind fun _ => (storeArgs_slots _ _ _ _).bind fun _ =>
      (writeBytes_slots _ _ _).bind fun _ => (writeBytes_slots _ _ _).bind fun _ => .pure _
  · exact .fail
  · exact .halt

theorem undoLoad_slots (previous : PageTable) (regions : List ElfRegion) :
    Moves slotAllocator rel (undoLoad previous regions) :=
  (unmapRegions_slots regions).bind fun _ => (switchTable_slots previous).orNone.bind fun _ => .pure _

theorem releaseProcess_slots
    (frees : ∀ addr, Moves slotAllocator rel (free addr))
    (process : ProcessEntry) : Moves slotAllocator rel (releaseProcess process) :=
  (unmapRegions_slots _).bind fun _ => (freeStack_slots _).bind fun _ =>
    (freeUserSubtables_slots frees _).bind fun _ => frees _

variable (slots : SlotMoves slotAllocator rel)

include slots

theorem mapAll_slots (table : PageTable) (regions : List ElfRegion) :
    Moves slotAllocator rel (mapAll table regions) := by
  induction regions with
  | nil => exact .pure ()
  | cons region rest ih =>
    refine Moves.bind ?_ fun _ => ih
    rw [mapRegion]
    split
    · exact .halt
    · exact mapRange_moves steady slots _ _ _ _

/-- No step after the copy of the kernel table frees a slot. -/
theorem loadInto_slots (file : List UInt8) (argv : List (List UInt8)) (entry : Nat) (regions : List ElfRegion)
    (table previous : PageTable) :
    Moves slotAllocator rel (loadInto file argv entry regions table previous) := by
  have undo : Moves slotAllocator rel (undoLoad previous regions >>= fun _ => fail (A := ProcessEntry)) :=
    (undoLoad_slots previous regions).bind fun _ => .fail
  refine (mapAll_slots slots table regions).bind fun _ => (copyAll_slots file regions).orNone.bind fun copied => ?_
  cases copied with
  | none => exact undo
  | some _ =>
    refine (stackAlloc_slots slots table _ _).orNone.bind fun stack => ?_
    cases stack with
    | none => exact undo
    | some stack =>
      refine (storeArgsFrame_slots stack argv).orNone.bind fun frame => ?_
      cases frame with
      | none => exact (freeStack_slots stack).bind fun _ => undo
      | some frame => exact (switchTable_slots previous).bind fun _ => .pure _

theorem elfLoad_slots (file : List UInt8) (argv : List (List UInt8)) :
    Moves slotAllocator rel (elfLoad file argv) := by
  rw [elfLoad]
  split
  · exact (cloneKernelTable_slots slots).bind fun table => (switchTable_slots table).bind fun previous =>
      loadInto_slots slots _ _ _ _ _ _
  · exact .fail
  · exact .halt

end Moves

/-- The kernel works on the controller by these calls, and programs write to memory. -/
inductive ControllerCall where
  | allocStack (pagesToAlloc : Nat) (user : Bool)
  | identityMap (start last : Nat) (flags : EntryFlags)
  | translateToPhysical (addr : Nat)
  | map (start last : Page) (flags : EntryFlags)
  | unmap (start last : Page)
  | freeStack (stack : Stack)
  | cloneKernelTable
  | switchTable (table : PageTable)
  | load (file : List UInt8) (argv : List (List UInt8))
  | release (process : ProcessEntry)
  | store (memory : Memory)

def ControllerCall.step : ControllerCall → MemoryController → MemoryController
  | .allocStack pagesToAlloc user, mc => (MemoryController.allocStack pagesToAlloc user mc).2
  | .identityMap start last flags, mc => (MemoryController.identityMap start last flags mc).2
  | .translateToPhysical addr, mc => (MemoryController.translateToPhysical addr mc).2
  | .map start last flags, mc => (MemoryController.map start last flags mc).2
  | .unmap start last, mc => (MemoryController.unmap start last mc).2
  | .freeStack stack, mc => (MemoryController.freeStack stack mc).2
  | .cloneKernelTable, mc => (MemoryController.cloneKernelTable mc).2
  | .switchTable table, mc => (MemoryController.switchTable table mc).2
  | .load file argv, mc => (elfLoad file argv mc).2
  | .release process, mc => (releaseProcess process mc).2
  | .store memory, mc => { mc with memory := memory }

/-- No slot has been freed when the controller enters virtual mode. -/
structure Entered (mc : MemoryController) : Prop where
  start : mc.slotAllocator.regionStart = pageTableRegionStart
  unfreed : mc.slotAllocator.freeSlots = []

/-- Every sequence of calls reaches such a state. -/
def Reachable (mc : MemoryController) : Prop :=
  ∃ start, Entered start ∧ Reached ControllerCall.step (fun _ _ => True) start mc

theorem step_keeps (call : ControllerCall) (mc : MemoryController) :
    PageTableSlotAllocator.Keeps mc.slotAllocator (call.step mc).slotAllocator := by
  have slots := keeps_moves
  cases call with
  | allocStack pagesToAlloc user => exact stackAlloc_slots slots mc.activeTable _ _ mc
  | identityMap start last flags => exact identityMap_slots slots start last flags mc
  | translateToPhysical addr => exact translateToPhys_moves steady mc.activeTable addr mc
  | map start last flags => exact mapRange_moves steady slots mc.activeTable start last flags mc
  | unmap start last => exact unmapPages_slots _ mc
  | freeStack stack => exact freeStack_slots stack mc
  | cloneKernelTable => exact cloneKernelTable_slots slots mc
  | switchTable table => exact switchTable_slots table mc
  | load file argv => exact elfLoad_slots slots file argv mc
  | release process => exact releaseProcess_slots free_keeps process mc
  | store memory => exact fun sound => sound

theorem Reachable.sound {mc : MemoryController} (reachable : Reachable mc) : mc.slotAllocator.Sound := by
  obtain ⟨start, entered, reached⟩ := reachable
  have initial : start.slotAllocator.Sound := by
    refine ⟨entered.start, ?_, ?_⟩
    · rw [entered.unfreed]
      exact List.nodup_nil
    · rw [entered.unfreed]
      intro addr member
      exact absurd member List.not_mem_nil
  have kept (call : ControllerCall) (state : MemoryController) (sound : state.slotAllocator.Sound) (_ : True) :
      (call.step state).slotAllocator.Sound := step_keeps call state sound
  exact @Reached.invariant _ _ _ _ _ _ (fun state => state.slotAllocator.Sound) initial kept reached


/-- The allocator may return this page as a part of a stack. -/
def Offers (allocator : StackAllocator) (page : Nat) : Prop :=
  (allocator.range.start.pageNumber ≤ page ∧ page ≤ allocator.range.last.pageNumber) ∨
    ∃ range ∈ allocator.freeRanges, range.start.pageNumber ≤ page ∧ page ≤ range.last.pageNumber

/-- The table and all that the allocators offer are as before. -/
structure Restored (before after : MemoryController) : Prop where
  table : after.activeTable = before.activeTable
  frames : ∀ frame, after.frameAllocator.Available frame ↔ before.frameAllocator.Available frame
  slots : ∀ addr, after.slotAllocator.InUse addr ↔ before.slotAllocator.InUse addr
  stackPages : ∀ page, Offers after.stackAllocator page ↔ Offers before.stackAllocator page

section Failed

variable {file : List UInt8} {argv : List (List UInt8)} {mc after : MemoryController}

/-- The slot of the new table stays in use when a later step fails. -/
theorem elfLoad_takes (sound : mc.slotAllocator.Sound) (accepted : (load file).1 ≠ .missing)
    (failed : elfLoad file argv mc = (.missing, after)) :
    ∃ slot, ¬ mc.slotAllocator.InUse slot ∧ after.slotAllocator.InUse slot := by
  cases parsed : (load file).1 with
  | missing => exact absurd parsed accepted
  | hang =>
    rw [elfLoad, parsed] at failed
    cases failed
  | value result =>
    obtain ⟨entry, regions⟩ := result
    rw [elfLoad, parsed] at failed
    dsimp only at failed
    cases cloned : cloneKernelTable mc with
    | mk reply between =>
      cases reply with
      | missing => exact absurd (congrArg Prod.fst cloned) (cloneKernelTable_decides mc)
      | hang =>
        rw [bind_hang cloned] at failed
        cases failed
      | value table =>
        obtain ⟨unused, used⟩ := cloneKernelTable_fresh sound cloned
        rw [bind_value cloned] at failed
        have later : Moves slotAllocator PageTableSlotAllocator.Grows (do
            let previous ← switchTable table
            loadInto file argv entry regions table previous) :=
          (switchTable_slots table).bind fun previous =>
            loadInto_slots grows_moves file argv entry regions table previous
        have kept := later between
        rw [failed] at kept
        exact ⟨table.addr, unused, used.grows kept⟩

/-- A failed load gives everything back exactly when the parser has rejected the file. -/
theorem elfLoad_restores_iff (reachable : Reachable mc) (failed : elfLoad file argv mc = (.missing, after)) :
    Restored mc after ↔ (load file).1 = .missing := by
  constructor
  · intro restored
    by_contra accepted
    obtain ⟨slot, unused, used⟩ := elfLoad_takes reachable.sound accepted failed
    exact unused ((restored.slots slot).mp used)
  · intro rejected
    rw [elfLoad, rejected] at failed
    injection failed with _ same
    rw [← same]
    exact ⟨rfl, fun _ => Iff.rfl, fun _ => Iff.rfl, fun _ => Iff.rfl⟩

end Failed


/-- A load reaches the arguments under the table of the new process. -/
def reachArguments (file : List UInt8) (regions : List ElfRegion) : McM (PageTable × PageTable × Stack) := do
  let table ← cloneKernelTable
  let previous ← switchTable table
  mapAll table regions
  copyAll file regions
  let stack ← StackAllocator.alloc table userStackPages (.writable ||| .ring3Accessible)
  pure (table, previous, stack)

/-- Refused arguments end a load after the stack and the regions are given back. -/
theorem elfLoad_refused {file : List UInt8} {argv : List (List UInt8)} {entry : Nat} {regions : List ElfRegion}
    {table previous : PageTable} {stack : Stack} {mc stacked freed undone : MemoryController}
    (parsed : (load file).1 = .value (entry, regions))
    (prepared : reachArguments file regions mc = (.value (table, previous, stack), stacked))
    (refused : storeArgsFrame stack argv stacked = (.missing, stacked))
    (free : freeStack stack stacked = (.value (), freed)) (undo : undoLoad previous regions freed = (.value (), undone)) :
    elfLoad file argv mc = (.missing, undone) := by
  obtain ⟨_, cloned, clone, prepared⟩ := (bind_eq_value_iff _ _ _ _ _).mp prepared
  obtain ⟨_, switched, switch, prepared⟩ := (bind_eq_value_iff _ _ _ _ _).mp prepared
  obtain ⟨_, mapped, map, prepared⟩ := (bind_eq_value_iff _ _ _ _ _).mp prepared
  obtain ⟨_, copied, copy, prepared⟩ := (bind_eq_value_iff _ _ _ _ _).mp prepared
  obtain ⟨_, _, alloc, prepared⟩ := (bind_eq_value_iff _ _ _ _ _).mp prepared
  cases prepared
  rw [elfLoad, parsed]
  dsimp only
  rw [bind_value clone, bind_value switch, loadInto, bind_value map, bind_value (orNone_value copy)]
  dsimp only
  rw [bind_value (orNone_value alloc)]
  dsimp only
  rw [bind_value (orNone_missing refused)]
  dsimp only
  rw [bind_value free, bind_value undo, fail_apply]

/-- The lowest byte of the number comes first. -/
def wordBytes (value width : Nat) : List UInt8 := (List.range width).map fun index => UInt8.ofNat (value / 256 ^ index)

/-- This file has one writable and executable segment with two bytes and a zero byte behind them. -/
def smallFile : List UInt8 :=
  [0x7F, 0x45, 0x4C, 0x46] ++ wordBytes 0 20 ++ wordBytes 0x700040000000 8 ++ wordBytes 64 8 ++ wordBytes 0 14 ++
    wordBytes 56 2 ++ wordBytes 1 2 ++ wordBytes 0 6 ++ wordBytes 1 4 ++ wordBytes 7 4 ++ wordBytes 120 8 ++
    wordBytes 0x700040000000 8 ++ wordBytes 0 8 ++ wordBytes 2 8 ++ wordBytes 3 8 ++ wordBytes 4096 8 ++ [0xEB, 0xFE]

/-- The kernel has its tables and the stack pages behind the heap. -/
def bootController : MemoryController := .boot 16 100000 (.new ⟨⟨0x401000⟩, ⟨0x401FFF⟩⟩)

theorem bootController_reachable : Reachable bootController := ⟨bootController, ⟨rfl, rfl⟩, .start⟩

/-- An empty file is rejected before anything is taken. -/
theorem elfLoad_restores_empty :
    ∃ after, elfLoad [] [] bootController = (.missing, after) ∧ Restored bootController after := by
  have failed : elfLoad [] [] bootController = (.missing, bootController) := rfl
  have rejected : (load []).1 = .missing := rfl
  exact ⟨bootController, failed, (elfLoad_restores_iff bootController_reachable failed).mpr rejected⟩

/-- One argument is as long as the stack of a process. -/
def longArguments : List (List UInt8) := [List.replicate 131072 97]

theorem storeArgsFrame_longArguments (mc : MemoryController) :
    storeArgsFrame ⟨0x401021000, 0x401001000⟩ longArguments mc = (.missing, mc) := by
  have bytes : stringBytes longArguments = 131073 := by
    rw [longArguments, stringBytes_cons, List.length_replicate]
    rfl
  have refused : (writeArgsFrame ⟨0x401021000, 0x401001000⟩ longArguments fun _ => 0).1 = .missing := by
    rcases @writeArgsFrame_eq ⟨0x401021000, 0x401001000⟩ longArguments (by decide) (by rw [bytes]; decide)
      (fun _ => 0) with ⟨fits, _⟩ | ⟨_, result⟩
    · obtain ⟨base, _, above, below⟩ := fits
      rw [bytes] at below
      have low : 0x401001000 ≤ base := above
      have high : base + 8 * (longArguments.length + 3) + 131073 ≤ 0x401021000 := below
      omega
    · rw [result]
  rw [storeArgsFrame, refused]
  rfl

/-- Arguments that do not fit leave the slot of the new table in use. -/
theorem elfLoad_longArguments :
    ∃ after, elfLoad smallFile longArguments bootController = (.missing, after) ∧ ¬ Restored bootController after := by
  have parsed : (load smallFile).1 = .value (0x700040000000, [⟨0x700040000000, 3, 7, 120, 2⟩]) := by decide +kernel
  have accepted : (load smallFile).1 ≠ .missing := by
    rw [parsed]
    intro same
    cases same
  have prepared : (reachArguments smallFile [⟨0x700040000000, 3, 7, 120, 2⟩] bootController).1 =
      .value (⟨0x6BCF00005000⟩, ⟨0x6BCF00000000⟩, ⟨0x401021000, 0x401001000⟩) := by decide +kernel
  have freed : (freeStack ⟨0x401021000, 0x401001000⟩
      (reachArguments smallFile [⟨0x700040000000, 3, 7, 120, 2⟩] bootController).2).1 = .value () := by decide +kernel
  have undone : (undoLoad ⟨0x6BCF00000000⟩ [⟨0x700040000000, 3, 7, 120, 2⟩] (freeStack ⟨0x401021000, 0x401001000⟩
      (reachArguments smallFile [⟨0x700040000000, 3, 7, 120, 2⟩] bootController).2).2).1 = .value () := by decide +kernel
  have failed := elfLoad_refused parsed (eq_of_outcome prepared) (storeArgsFrame_longArguments _) (eq_of_outcome freed)
    (eq_of_outcome undone)
  obtain ⟨slot, unused, used⟩ := elfLoad_takes bootController_reachable.sound accepted failed
  exact ⟨_, failed, fun restored => unused ((restored.slots slot).mp used)⟩

end BubbleOs.Elf
