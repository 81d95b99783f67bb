import Mathlib.Data.List.Perm.Basic
import BubbleOs.Proof.Paging.Region

namespace BubbleOs.Paging

open Attempt SimplePageFrameAllocator

namespace SimplePageFrameAllocator

variable {mc : MemoryController}

/-- The last freed frame is handed out first. -/
theorem falloc_freed {frame : Nat} {rest : List Nat} (freed : mc.frameAllocator.freeFrames = frame :: rest) :
    falloc mc = (.value frame, { mc with frameAllocator := { mc.frameAllocator with freeFrames := rest } }) := by
  simp only [falloc, freed]

/-- The frame behind the head follows when nothing is freed. -/
theorem falloc_next (empty : mc.frameAllocator.freeFrames = [])
    (room : mc.frameAllocator.frameHead + 1 < mc.frameAllocator.memEnd) :
    falloc mc = (.value (mc.frameAllocator.frameHead + 1),
      { mc with frameAllocator := { mc.frameAllocator with frameHead := mc.frameAllocator.frameHead + 1 } }) := by
  have quotient : (mc.frameAllocator.frameHead * pageSize + pageSize) / pageSize = mc.frameAllocator.frameHead + 1 := by
    rw [← Nat.succ_mul, Nat.mul_div_cancel _ (by decide)]
  have first : ¬ mc.frameAllocator.memEnd * pageSize < mc.frameAllocator.frameHead * pageSize + pageSize := by
    rw [pageSize]
    omega
  have second : ¬ mc.frameAllocator.memEnd * pageSize - (mc.frameAllocator.frameHead * pageSize + pageSize) < 4096 := by
    rw [pageSize]
    omega
  simp only [falloc, empty, first, second, if_false, quotient]

/-- The frame before the end is the last one. -/
theorem falloc_last (empty : mc.frameAllocator.freeFrames = [])
    (last : mc.frameAllocator.frameHead + 1 = mc.frameAllocator.memEnd) : falloc mc = (.missing, mc) := by
  have next : mc.frameAllocator.memEnd * pageSize = mc.frameAllocator.frameHead * pageSize + pageSize := by
    rw [← last, Nat.succ_mul]
  simp only [falloc, empty, next, Nat.lt_irrefl, if_false, Nat.sub_self, Nat.zero_lt_succ, if_true]

end SimplePageFrameAllocator

/-- The session records the controller and the frames in the hands of callers. -/
structure FrameSession where
  mc : MemoryController
  held : List Nat

inductive FrameCall where
  | falloc
  | free (frame : Nat)

namespace FrameSession

/-- A caller gives back a frame that it holds. -/
def Allowed : FrameCall → FrameSession → Prop
  | .falloc, _ => True
  | .free frame, session => frame ∈ session.held

def step : FrameCall → FrameSession → FrameSession
  | .falloc, session =>
    match SimplePageFrameAllocator.falloc session.mc with
    | (.value frame, after) => ⟨after, frame :: session.held⟩
    | (_, after) => ⟨after, session.held⟩
  | .free frame, session => ⟨(SimplePageFrameAllocator.free frame session.mc).2, session.held.erase frame⟩

/-- The free frames and the held frames are the frames from the start up to the head. -/
structure Sound (first last : Nat) (session : FrameSession) : Prop where
  stop : session.mc.frameAllocator.memEnd = last
  low : first ≤ session.mc.frameAllocator.frameHead
  high : session.mc.frameAllocator.frameHead < last
  shared : (session.mc.frameAllocator.freeFrames ++ session.held).Perm
    (List.range' (first + 1) (session.mc.frameAllocator.frameHead - first))

variable {first last : Nat} {session : FrameSession}

variable (sound : Sound first last session)

include sound

theorem Sound.nodup : (session.mc.frameAllocator.freeFrames ++ session.held).Nodup :=
  sound.shared.nodup_iff.mpr List.nodup_range'

theorem Sound.mem_iff (frame : Nat) : frame ∈ session.mc.frameAllocator.freeFrames ++ session.held ↔
      first < frame ∧ frame ≤ session.mc.frameAllocator.frameHead := by
  have low := sound.low
  rw [sound.shared.mem_iff, List.mem_range'_1]
  omega

/-- A call hands out a frame that is not held, or every frame is held. -/
theorem Sound.falloc_cases : (∃ frame after, falloc session.mc = (.value frame, after) ∧
      first < frame ∧ frame < last ∧ frame ∉ session.held ∧ Sound first last ⟨after, frame :: session.held⟩ ∧
      (session.mc.frameAllocator.freeFrames = [] → after.frameAllocator.freeFrames = [] ∧
        after.frameAllocator.frameHead = frame ∧ frame = session.mc.frameAllocator.frameHead + 1)) ∨
    (falloc session.mc = (.missing, session.mc) ∧
      ∀ frame, first < frame → frame < last → frame ∈ session.held) := by
  have stop := sound.stop
  have high := sound.high
  have low := sound.low
  cases freed : session.mc.frameAllocator.freeFrames with
  | cons frame rest =>
    have member := sound.mem_iff frame
    have separate := sound.nodup
    have moved := sound.shared
    rw [freed] at member separate moved
    have range := member.mp List.mem_cons_self
    refine .inl ⟨frame, _, falloc_freed freed, range.1, by omega, ?_, ⟨stop, low, high, ?_⟩,
      fun empty => by cases empty⟩
    · intro held
      exact (List.nodup_cons.mp separate).1 (List.mem_append_right rest held)
    · exact List.perm_middle.trans moved
  | nil =>
    have moved := sound.shared
    rw [freed, List.nil_append] at moved
    by_cases room : session.mc.frameAllocator.frameHead + 1 < last
    · have beyond : session.mc.frameAllocator.frameHead + 1 ∉ session.held := by
        intro held
        have inside := (sound.mem_iff _).mp (List.mem_append_right _ held)
        omega
      refine .inl ⟨_, _, falloc_next freed (by omega), by omega, room, beyond,
        ⟨stop, by dsimp only; omega, room, ?_⟩, fun _ => ⟨freed, rfl, rfl⟩⟩
      have longer : session.mc.frameAllocator.frameHead + 1 - first =
          session.mc.frameAllocator.frameHead - first + 1 := by omega
      have newest : first + 1 + (session.mc.frameAllocator.frameHead - first) =
          session.mc.frameAllocator.frameHead + 1 := by omega
      dsimp only
      rw [freed, List.nil_append, longer, List.range'_1_concat, newest]
      exact (moved.cons _).trans (List.perm_append_singleton _ _).symm
    · refine .inr ⟨falloc_last freed (by omega), ?_⟩
      intro frame above below
      rw [moved.mem_iff, List.mem_range'_1]
      omega

theorem Sound.step (call : FrameCall) (allowed : Allowed call session) :
    Sound first last (FrameSession.step call session) := by
  cases call with
  | falloc =>
    rw [FrameSession.step]
    rcases sound.falloc_cases with ⟨_, _, returned, _, _, _, kept, _⟩ | ⟨returned, _⟩
    · rw [returned]
      exact kept
    · rw [returned]
      exact sound
  | free frame =>
    refine ⟨sound.stop, sound.low, sound.high, ?_⟩
    have taken : (frame :: session.held.erase frame).Perm session.held := (List.perm_cons_erase allowed).symm
    exact (List.perm_middle.symm.trans (taken.append_left _)).trans sound.shared

end FrameSession

/-- The session starts with an allocator for a part of memory. -/
def FrameSession.Begins (memStart memEnd : Nat) (session : FrameSession) : Prop :=
  session.mc.frameAllocator = .new memStart memEnd ∧ session.held = []

section Run

variable {memStart memEnd : Nat} {start session : FrameSession}

theorem FrameSession.Begins.sound (begins : start.Begins memStart memEnd)
    (ordered : memStart / pageSize < memEnd / pageSize) :
    Sound (memStart / pageSize) (memEnd / pageSize) start := by
  obtain ⟨fresh, empty⟩ := begins
  refine ⟨by rw [fresh]; rfl, by rw [fresh]; exact Nat.le_refl _, by rw [fresh]; exact ordered, ?_⟩
  rw [fresh, empty, new, Nat.sub_self]
  exact .nil

/-- Without frees the held frames are the frames behind the start. -/
theorem FrameSession.Begins.consecutive (begins : start.Begins memStart memEnd)
    (ordered : memStart / pageSize < memEnd / pageSize)
    (reached : Reached step (fun call _ => call = FrameCall.falloc) start session) :
    session.held = (List.range' (memStart / pageSize + 1) session.held.length).reverse := by
  have kept : Sound (memStart / pageSize) (memEnd / pageSize) session ∧
      session.mc.frameAllocator.freeFrames = [] ∧
      session.mc.frameAllocator.frameHead = memStart / pageSize + session.held.length ∧
      session.held = (List.range' (memStart / pageSize + 1) session.held.length).reverse := by
    apply reached.invariant
    · obtain ⟨fresh, empty⟩ := begins
      refine ⟨FrameSession.Begins.sound ⟨fresh, empty⟩ ordered, ?_⟩
      rw [fresh, empty]
      exact ⟨rfl, rfl, rfl⟩
    · intro call between invariant only
      obtain ⟨sound, empty, head, frames⟩ := invariant
      rw [only, FrameSession.step]
      rcases sound.falloc_cases with ⟨frame, after, returned, _, _, _, later, fresh⟩ | ⟨returned, _⟩
      · obtain ⟨still, moved, next⟩ := fresh empty
        have place : frame = memStart / pageSize + 1 + between.held.length := by omega
        rw [returned]
        refine ⟨later, still, by rw [moved, List.length_cons]; omega, ?_⟩
        rw [List.length_cons, List.range'_1_concat, List.reverse_append, ← frames, place]
        rfl
      · rw [returned]
        exact ⟨sound, empty, head, frames⟩
  exact kept.2.2.2

/-- A call hands out a frame inside the range that nobody holds, the subtraction never underflows, and frames run out
only when all are held. -/
theorem falloc_exclusive (begins : start.Begins memStart memEnd) (ordered : memStart / pageSize < memEnd / pageSize)
    (reached : Reached FrameSession.step FrameSession.Allowed start session) :
    ((∃ frame after, SimplePageFrameAllocator.falloc session.mc = (.value frame, after) ∧
        memStart / pageSize < frame ∧ frame < memEnd / pageSize ∧ frame ∉ session.held) ∨
      (SimplePageFrameAllocator.falloc session.mc = (.missing, session.mc) ∧
        ∀ frame, memStart / pageSize < frame → frame < memEnd / pageSize → frame ∈ session.held)) ∧
    ∀ plain, Reached FrameSession.step (fun call _ => call = FrameCall.falloc) start plain →
      plain.held = (List.range' (memStart / pageSize + 1) plain.held.length).reverse := by
  have sound : FrameSession.Sound (memStart / pageSize) (memEnd / pageSize) session :=
    reached.invariant (begins.sound ordered) fun call _ sound allowed => sound.step call allowed
  refine ⟨?_, fun plain only => begins.consecutive ordered only⟩
  rcases sound.falloc_cases with ⟨frame, after, returned, above, below, unheld, _⟩ | outOfFrames
  · exact .inl ⟨frame, after, returned, above, below, unheld⟩
  · exact .inr outOfFrames

end Run

/-- Two frames lie between the first and the last frame. -/
def twoFrames : FrameSession :=
  ⟨{ MemoryController.boot 0 0 ⟨⟨⟨0⟩, ⟨0⟩⟩, []⟩ with frameAllocator := .new 0 (3 * pageSize) }, []⟩

/-- Both frames are held after two calls, and the third call finds none. -/
theorem falloc_exclusive_two_frames :
    ∃ session, Reached FrameSession.step FrameSession.Allowed twoFrames session ∧ session.held = [2, 1] ∧
      SimplePageFrameAllocator.falloc session.mc = (.missing, session.mc) := by
  have reached : Reached FrameSession.step FrameSession.Allowed twoFrames
      (FrameSession.step .falloc (FrameSession.step .falloc twoFrames)) :=
    Reached.step (Reached.step .start FrameCall.falloc trivial) FrameCall.falloc trivial
  obtain ⟨outcome, _⟩ := falloc_exclusive ⟨rfl, rfl⟩ (by decide) reached
  refine ⟨_, reached, rfl, ?_⟩
  rcases outcome with ⟨frame, _, _, above, below, unheld⟩ | ⟨missing, _⟩
  · have two : frame = 1 ∨ frame = 2 := by
      have size : 3 * pageSize / pageSize = 3 := by decide
      rw [Nat.zero_div] at above
      rw [size] at below
      omega
    rcases two with one | two
    · rw [one] at unheld
      exact absurd (.tail _ (.head _)) unheld
    · rw [two] at unheld
      exact absurd (.head _) unheld
  · exact missing

open MemoryController PageTableEntry

/-- The frame allocator returns this many frames. -/
def SimplePageFrameAllocator.Enough (allocator : SimplePageFrameAllocator) (count : Nat) : Prop :=
  count ≤ allocator.freeFrames.length ∨
    allocator.frameHead + (count - allocator.freeFrames.length) + 1 ≤ allocator.memEnd

section Falloc

variable {mc : MemoryController} {roots : Set Nat} {kernel : Nat} {frameOf : Nat → Nat} {mapped count : Nat} {held : Reserve}

/-- A frame is returned once. -/
theorem falloc_value (region : Region mc roots kernel frameOf mapped held) (enough : mc.frameAllocator.Enough (count + 1)) :
    ∃ frame rest, SimplePageFrameAllocator.falloc mc = (.value frame, { mc with frameAllocator := rest }) ∧
      mc.frameAllocator.Available frame ∧ rest.Enough count ∧ ¬ rest.Available frame ∧ frame ≤ rest.frameHead ∧
      (∀ other, rest.Available other → mc.frameAllocator.Available other) ∧
      Region { mc with frameAllocator := rest } roots kernel frameOf mapped held := by
  have keeps {rest : SimplePageFrameAllocator} (sub : ∀ frame, rest.Available frame → mc.frameAllocator.Available frame)
      (freed : rest.freeFrames.Nodup ∧ ∀ frame ∈ rest.freeFrames, frame ≤ rest.frameHead)
      (higher : mc.frameAllocator.frameHead ≤ rest.frameHead) :
      (∀ other, rest.Available other → mc.frameAllocator.Available other) ∧
        Region { mc with frameAllocator := rest } roots kernel frameOf mapped held :=
    ⟨sub, {
      region with
      frames := fun frame available => region.frames frame (sub frame available)
      freed := freed
      stored := by
        intro frame words known
        obtain ⟨apart, same, unavailable, small, low, foreign⟩ := region.stored frame words known
        exact ⟨apart, same, fun left => unavailable (sub frame left), small, low.trans higher, foreign⟩ }⟩
  have freed := region.freed
  cases free : mc.frameAllocator.freeFrames with
  | cons frame rest =>
    rw [free, List.nodup_cons] at freed
    have low := freed.2 frame (.head _)
    have returned := SimplePageFrameAllocator.falloc_freed free
    refine ⟨frame, _, returned, .inl (by rw [free]; exact .head _), ?_, ?_, low, keeps ?_ ?_ (Nat.le_refl _)⟩
    · rw [SimplePageFrameAllocator.Enough, free, List.length_cons] at enough
      rw [SimplePageFrameAllocator.Enough]
      dsimp only
      omega
    · rintro (inside | ⟨above, _⟩)
      · exact freed.1.1 inside
      · exact absurd low (by dsimp only at above; omega)
    · rintro other (inside | above)
      · exact .inl (by rw [free]; exact .tail _ inside)
      · exact .inr above
    · exact ⟨freed.1.2, fun other inside => freed.2 other (.tail _ inside)⟩
  | nil =>
    rw [SimplePageFrameAllocator.Enough, free, List.length_nil] at enough
    have head : mc.frameAllocator.frameHead + count + 2 ≤ mc.frameAllocator.memEnd := by omega
    have returned := SimplePageFrameAllocator.falloc_next free (by omega)
    refine ⟨_, _, returned, .inr ⟨Nat.lt_succ_self _, by omega⟩, ?_, ?_, Nat.le_refl _, keeps ?_ ?_ (Nat.le_succ _)⟩
    · rw [SimplePageFrameAllocator.Enough, free, List.length_nil]
      dsimp only
      omega
    · rintro (inside | ⟨above, _⟩)
      · rw [free] at inside
        cases inside
      · exact absurd above (Nat.lt_irrefl _)
    · rintro other (inside | ⟨above, below⟩)
      · exact .inl inside
      · exact .inr ⟨Nat.lt_of_succ_lt above, below⟩
    · rw [free]
      exact ⟨.nil, fun _ absurd_ => absurd absurd_ List.not_mem_nil⟩

end Falloc

/-- The pages behind the mapped slots are unused. -/
def Vacant (memory : Memory) (roots : Set Nat) (mapped : Nat) : Prop :=
  ∀ root ∈ roots, ∀ slot, mapped ≤ slot → slot < 262144 → leafEntry memory root (slotPage slot) = 0

section Step

variable {start mc : MemoryController} {roots quiet : Set Nat} {kernel : Nat} {frameOf : Nat → Nat} {mapped count : Nat}
  {held : Reserve} {alloc : McM Nat} {memory : Memory}

/-- One more visible page with a cleared frame is one more slot. -/
theorem Region.enlarge (region : Region mc roots kernel frameOf mapped held) (room : mapped < 1025) {frame : Nat}
    (apart : Apart mc.memory roots frame) (zero : ∀ index, mc.memory frame index = 0)
    (foreign : ∀ slot < mapped, frameOf slot ≠ frame) (gone : ¬ mc.frameAllocator.Available frame)
    (unowned : held.data frame = none)
    (visible : ∀ root ∈ roots, follow (writableLinks mc.memory) root (slotPage mapped).path = some frame) :
    Region mc roots kernel (Function.update frameOf mapped frame) (mapped + 1) held := by
  have bound := region.bound
  have last := region.last
  have old {slot : Nat} (inside : slot < mapped) : Function.update frameOf mapped frame slot = frameOf slot :=
    Function.update_of_ne (by omega) frame frameOf
  have new : Function.update frameOf mapped frame mapped = frame := Function.update_self mapped frame frameOf
  have all {other : Nat} (distinct : ∀ slot < mapped, frameOf slot ≠ other) (apart : frame ≠ other) :
      ∀ slot < mapped + 1, Function.update frameOf mapped frame slot ≠ other := by
    intro slot inside
    by_cases equal : slot = mapped
    · rw [equal, new]
      exact apart
    · rw [old (by omega)]
      exact distinct slot (by omega)
  exact {
    region with
    first := by rw [old (by omega), region.first]
    shared := by
      rw [old (by omega)]
      exact region.shared
    slots := by
      intro root inside slot small shown
      by_cases equal : slot = mapped
      · rw [equal, new]
        exact visible root inside
      · rw [old (by omega)]
        exact region.slots root inside slot (by omega) shown
    injective := by
      intro first firstBound second secondBound same
      by_cases one : first = mapped
      · by_cases two : second = mapped
        · rw [one, two]
        · rw [one, new, old (by omega)] at same
          exact absurd same.symm (foreign second (by omega))
      · by_cases two : second = mapped
        · rw [two, new, old (by omega)] at same
          exact absurd same (foreign first (by omega))
        · rw [old (by omega), old (by omega)] at same
          exact region.injective first (by omega) second (by omega) same
    bound := by omega
    last := by omega
    free := by
      intro addr member
      obtain ⟨slot, equal, high, early, unheld, idle⟩ := region.free addr member
      exact ⟨slot, equal, high, early, unheld, by rw [old (by omega)]; exact idle⟩
    unused := by
      intro slot late small
      by_cases equal : slot = mapped
      · rw [equal, new]
        exact ⟨apart, zero⟩
      · rw [old (by omega)]
        exact region.unused slot late (by omega)
    kept := by
      intro slot member
      obtain ⟨high, early, idle⟩ := region.kept slot member
      exact ⟨high, early, by rw [old (by omega)]; exact idle⟩
    frames := by
      intro other available
      obtain ⟨idle, clear, distinct, small⟩ := region.frames other available
      refine ⟨idle, clear, all distinct ?_, small⟩
      rintro rfl
      exact gone available
    stored := by
      intro other words known
      obtain ⟨idle, same, unavailable, small, low, distinct⟩ := region.stored other words known
      refine ⟨idle, same, unavailable, small, low, all distinct ?_⟩
      rintro rfl
      rw [unowned] at known
      contradiction }

theorem follow_slotPage {root table last frame slot : Nat} (small : slot < 262144)
    (shared : follow (writableLinks memory) root regionPath = some table)
    (upper : writableLinks memory table (Fin.ofNat 512 (slot / 512)) = some last)
    (leaf : writableLinks memory last (slotPage slot).p1Index = some frame) :
    follow (writableLinks memory) root (slotPage slot).path = some frame := by
  rw [Page.path_eq, follow_snoc, slotPage_upperPath small, follow_snoc, shared, Option.bind_some, upper, Option.bind_some, leaf]

theorem writableLinks_eq {frame next : Nat} {index : TableIndex}
    (writable : (flags (memory frame index)).contains .writable = true)
    (link : links memory frame index = some next) : writableLinks memory frame index = some next := by
  have permitted : isWritable (memory frame index) = true := writable
  rw [writableLinks, if_pos permitted, link]

/-- These are the paths of the slots behind the first table of slots. -/
def slotPaths (mapped : Nat) : Set (List TableIndex) :=
  { path | ∃ slot, 512 ≤ slot ∧ slot < mapped ∧ path = (slotPage slot).path }

/-- The region is complete up to the mapped slots, and the quiet frames stay quiet. -/
structure Growing (start mc : MemoryController) (roots : Set Nat) (kernel : Nat) (frameOf : Nat → Nat) (mapped : Nat)
    (held : Reserve) (quiet : Set Nat) (count : Nat) : Prop where
  region : Region mc roots kernel frameOf mapped held
  vacant : Vacant mc.memory roots mapped
  quiet : ∀ frame ∈ quiet, Quiet mc.memory roots frame ∧ ¬ mc.frameAllocator.Available frame ∧
    ∀ slot < mapped, frame = frameOf slot → slot ∈ held.slots
  enough : mc.frameAllocator.Enough count
  blank : held.blank
  late : 510 ≤ mc.slotAllocator.lastPml1Slot
  early : mc.slotAllocator.lastPml1Slot ≤ 510 + (mapped - 1) / 512
  pml1Count : mc.slotAllocator.pml1Count = start.slotAllocator.pml1Count
  same : SameMachine start mc
  grown : ∃ used, Grown roots start.memory mc.memory used (slotPaths mapped)
  news : ∀ root ∈ roots, ∀ path, path.length ≤ 3 → follow (links mc.memory) root path ≠ none →
    follow (links start.memory) root path ≠ none ∨ ∃ page ∈ slotPaths mapped, path <+: page

/-- The last table on the way to the next slot is missing only at the first slot of that table. -/
theorem Region.missing_slotPage (region : Region mc roots kernel frameOf mapped held) (room : mapped < 1025) :
    (mapped - 1) / 512 + missing (links mc.memory) kernel (slotPage mapped).upperPath ≤ mapped / 512 := by
  have shared := follow_mono writableLinks_weaker (region.shared kernel region.base)
  have bound := region.bound
  rw [slotPage_upperPath (by omega), missing_append shared]
  have one := missing_le (links mc.memory) (frameOf 2) [Fin.ofNat 512 (mapped / 512)]
  rw [List.length_singleton] at one
  by_cases first : mapped % 512 = 0
  · omega
  · have equal : (mapped - 1) / 512 = mapped / 512 := by omega
    have known := region.known (by omega : mapped - 1 < mapped) (by omega)
    rw [Page.path_eq, follow_snoc, slotPage_upperPath (by omega), equal, follow_append, shared, Option.bind_some] at known
    cases link : links mc.memory (frameOf 2) (Fin.ofNat 512 (mapped / 512)) with
    | none =>
      rw [follow_cons, link] at known
      contradiction
    | some next =>
      rw [missing_some link, missing]
      omega

/-- An entry behind the region that is filled with a frame is visible in every tree. -/
theorem Region.visible (region : Region mc roots kernel frameOf mapped held) {slot last frame root : Nat} {word : Word}
    (small : slot < 262144) (found : follow (links mc.memory) kernel (slotPage slot).upperPath = some last)
    (upper : (flags (mc.memory (frameOf 2) (Fin.ofNat 512 (slot / 512)))).contains .writable = true)
    (wordFrame : getFrame word = some frame) (wordFlags : (flags word).contains .writable = true)
    (shared : follow (writableLinks (mc.memory.write last (slotPage slot).p1Index word)) root regionPath = some (frameOf 2)) :
    follow (writableLinks (mc.memory.write last (slotPage slot).p1Index word)) root (slotPage slot).path = some frame := by
  have split := slotPage_upperPath small
  have front := follow_mono writableLinks_weaker (region.shared kernel region.base)
  obtain ⟨visited, passed, _, sameEntry⟩ := upper_entry region.base region.forest found (by rw [split])
  obtain rfl : frameOf 2 = visited := Option.some.inj (front.symm.trans passed)
  rw [split, follow_snoc, front, Option.bind_some] at found
  apply follow_slotPage small shared
  · apply writableLinks_eq
    · rw [sameEntry]
      exact upper
    · rw [links, sameEntry]
      exact found
  · apply writableLinks_eq
    · rw [write_same]
      exact wordFlags
    · rw [links, write_same]
      exact wordFrame

/-- One more page behind the region is mapped and becomes a slot. -/
theorem Growing.step (serves : Serves alloc roots kernel)
    (growing : Growing start mc roots kernel frameOf mapped held quiet (count + 1)) (room : mapped < 1025) :
    ∃ after frame,
      PageTableSlotAllocator.getPml4.map alloc (slotPage mapped) (.present ||| .writable) mc = (.value (), after) ∧
      Growing start after roots kernel (Function.update frameOf mapped frame) (mapped + 1) held quiet count := by
  have region := growing.region
  have bound := region.bound
  obtain ⟨frame, rest, returned, available, enoughRest, gone, _, fewer, regionRest⟩ := falloc_value region growing.enough
  obtain ⟨apart, zero, foreign, supported⟩ := region.frames frame available
  have unowned : held.data frame = none := by
    rw [Option.eq_none_iff_forall_not_mem]
    intro words known
    exact (region.stored frame words known).2.2.1 available
  obtain ⟨word, made⟩ := ofFrame_some supported ((.present ||| .writable) ||| .present)
  have flagsKnown : EntryFlags.Known ((.present ||| .writable) ||| .present) := by unfold EntryFlags.Known; decide
  have wordFrame : getFrame word = some frame :=
    getFrame_ofFrame made flagsKnown (by decide)
  have wordFlags := flags_ofFrame made flagsKnown
  have source := serves { mc with frameAllocator := rest } frameOf mapped (510 + mapped / 512) held
    (insert frame quiet) (by omega) (by
      rintro other (rfl | member) slot inside same
      · exact absurd same.symm (foreign slot inside)
      · exact (growing.quiet other member).2.2 slot inside same)
  have started : CalmRegion { mc with frameAllocator := rest } { mc with frameAllocator := rest } roots kernel frameOf mapped
      held (insert frame quiet) (510 + mapped / 512) (missing (links mc.memory) kernel (slotPage mapped).upperPath) := by
    refine ⟨regionRest, ⟨?_, .inl growing.late⟩, ?_, .refl _⟩
    · have missing := region.missing_slotPage room
      have early := growing.early
      dsimp only
      omega
    · rintro other (rfl | member)
      · exact ⟨apart, zero growing.blank⟩
      · exact (growing.quiet other member).1
  obtain ⟨middle, last, used, added, mappedTo, ⟨regionMiddle, calm, silent, since⟩, same, grown, allowed, found, flagged, news⟩ :=
    mapTo_spec source region.base regionRest.kernelAt started
      (by
        rintro _ _ ⟨_, next⟩
        have late := growing.late
        change mc.slotAllocator.lastPml1Slot + 1 = 510 at next
        omega) made
  have mapped' : PageTableSlotAllocator.getPml4.map alloc (slotPage mapped) (.present ||| .writable) mc =
        (.value (), { middle with memory := middle.memory.write last (slotPage mapped).p1Index word }) := by
    rw [PageTable.map, bind_value (unwrap_value returned)]
    exact mappedTo
  have empty : added = ∅ := Set.subset_empty_iff.mp allowed
  subst empty
  have vacant : ∀ root ∈ roots, leafEntry middle.memory root (slotPage mapped) = 0 := by
    intro root inside
    rw [grown.leaves root inside _ (Set.notMem_empty _)]
    exact growing.vacant root inside mapped (Nat.le_refl _) (by omega)
  have leaf : Grown roots middle.memory (middle.memory.write last (slotPage mapped).p1Index word) ∅
      (Set.singleton (slotPage mapped).path) := .leaf regionMiddle.forest region.base found vacant
  have unmoved : SameMachine middle { middle with memory := middle.memory.write last (slotPage mapped).p1Index word } :=
    ⟨rfl, rfl, rfl, rfl, rfl⟩
  have regionLeaf : Region { middle with memory := middle.memory.write last (slotPage mapped).p1Index word } roots kernel
      frameOf mapped held :=
    regionMiddle.grown unmoved (regionMiddle.forest.last region.base rfl found) regionMiddle.window rfl leaf
      (fun frame none => absurd none (Set.notMem_empty frame)) (fun _ member => member) regionMiddle.distinct
      ⟨Nat.le_refl _, regionMiddle.last.2⟩
  have visible : ∀ root ∈ roots, follow (writableLinks (middle.memory.write last (slotPage mapped).p1Index word)) root
      (slotPage mapped).path = some frame := by
    intro root inside
    have shared := follow_mono writableLinks_weaker (regionMiddle.shared kernel region.base)
    have contains := flagged regionPath _ (by rw [slotPage_upperPath (by omega : mapped < 262144)]) _ shared
    apply regionMiddle.visible (by omega) found (EntryFlags.contains_trans contains (PageTable.tableFlags_writable _))
      wordFrame _ (regionLeaf.shared root inside)
    rw [wordFlags]
    decide
  have quietLeaf {other : Nat} (member : other ∈ insert frame quiet) :
      Quiet (middle.memory.write last (slotPage mapped).p1Index word) roots other :=
    (silent other member).grown leaf (Set.notMem_empty other)
  have fresh := quietLeaf (.inl rfl)
  have allocator : middle.frameAllocator = rest := since.frames
  have larger : Region { middle with memory := middle.memory.write last (slotPage mapped).p1Index word } roots kernel
      (Function.update frameOf mapped frame) (mapped + 1) held := by
    apply regionLeaf.enlarge room fresh.1 fresh.2 foreign _ unowned visible
    change ¬ middle.frameAllocator.Available frame
    rw [allocator]
    exact gone
  refine ⟨_, frame, mapped', larger, ?_, ?_, ?_, growing.blank, ?_, ?_, ?_, ?_, ?_, ?_⟩
  · intro root inside slot behind small
    rw [leaf.leaves root inside]
    · rw [grown.leaves root inside _ (Set.notMem_empty _)]
      exact growing.vacant root inside slot (by omega) small
    · intro equal
      have same := slotPage_path_inj (by omega) (by omega) equal
      omega
  · intro other member
    obtain ⟨_, unavailable, inside⟩ := growing.quiet other member
    refine ⟨quietLeaf (.inr member), ?_, ?_⟩
    · change ¬ middle.frameAllocator.Available other
      rw [allocator]
      exact fun left => unavailable (fewer other left)
    · intro slot small equal
      by_cases new : slot = mapped
      · rw [new, Function.update_self] at equal
        rw [equal] at unavailable
        exact absurd available unavailable
      · rw [Function.update_of_ne new] at equal
        exact inside slot (by omega) equal
  · change middle.frameAllocator.Enough count
    rw [allocator]
    exact enoughRest
  · exact growing.late.trans since.last
  · have taken := calm.1
    rw [Nat.zero_sub, Nat.add_zero] at taken
    exact taken
  · exact since.pml1Count.trans growing.pml1Count
  · exact growing.same.trans ((⟨rfl, rfl, rfl, rfl, rfl⟩ : SameMachine mc { mc with frameAllocator := rest }).trans
      (same.trans unmoved))
  · obtain ⟨before, old⟩ := growing.grown
    refine ⟨_, (old.trans (grown.trans leaf)).mono Set.Subset.rfl ?_⟩
    rintro path (⟨slot, high, small, rfl⟩ | none | rfl)
    · exact ⟨slot, high, by omega, rfl⟩
    · exact absurd none (Set.notMem_empty path)
    · exact ⟨mapped, bound.1, Nat.lt_succ_self mapped, rfl⟩
  · intro root inside path short reached
    have before : follow (links middle.memory) root path ≠ none := by
      rw [← regionMiddle.forest.follow_last region.base rfl found inside short]
      exact reached
    rcases news root inside path short before with old | ahead | ⟨page, none, _⟩
    · rcases growing.news root inside path short old with older | ⟨page, ⟨slot, high, small, rfl⟩, begins⟩
      · exact .inl older
      · exact .inr ⟨_, ⟨slot, high, by omega, rfl⟩, begins⟩
    · refine .inr ⟨_, ⟨mapped, bound.1, Nat.lt_succ_self mapped, rfl⟩, ahead.trans ?_⟩
      rw [Page.path_eq]
      exact List.prefix_append _ _
    · exact absurd none (Set.notMem_empty page)

/-- The pages behind the region are mapped one by one. -/
theorem Growing.run (serves : Serves alloc roots kernel)
    (growing : Growing start mc roots kernel frameOf mapped held quiet count) (room : mapped + count ≤ 1025) :
    ∃ after frameLater,
      PageTableSlotAllocator.getPml4.mapPages alloc (.present ||| .writable) ((List.range' mapped count).map slotPage) mc =
        (.value (), after) ∧
      Growing start after roots kernel frameLater (mapped + count) held quiet 0 := by
  induction count generalizing mc frameOf mapped with
  | zero => exact ⟨mc, frameOf, rfl, growing⟩
  | succ count ih =>
    obtain ⟨next, frame, stepped, grows⟩ := growing.step serves (by omega)
    obtain ⟨after, frameLater, rest, complete⟩ := ih grows (by omega)
    refine ⟨after, frameLater, ?_, ?_⟩
    · rw [List.range'_succ, List.map_cons, PageTable.mapPages, bind_value stepped]
      exact rest
    · rw [Nat.add_comm count 1, ← Nat.add_assoc]
      exact complete

end Step

end BubbleOs.Paging
