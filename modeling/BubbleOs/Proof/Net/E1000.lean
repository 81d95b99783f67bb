import BubbleOs.Construction.Net.E1000

namespace BubbleOs.Net.E1000Driver

open Attempt Paging Pci

variable {translate : Page → Option Ahci.Frame} {driver after : E1000Driver}

/-- The descriptor names the buffer on its own page. -/
def Names (translate : Page → Option Ahci.Frame) (desc : RxDesc) (pageNumber : Nat) : Prop :=
  ∃ frame, translate ⟨pageNumber⟩ = some frame ∧ desc = ⟨.ofNat 64 frame.startAddress, 0, 9, 0, 0, 0⟩

theorem fillDescs_value {count ptr last pageNumber : Nat}
    (filled : fillDescs translate count ptr ⟨pageNumber⟩ driver = (.value last, after)) :
    last = ptr + count ∧ (∀ other, other < ptr → after.memory other = driver.memory other) ∧
      ∀ index, index < count → Names translate (after.memory (ptr + index)) (pageNumber + index) := by
  induction count generalizing ptr pageNumber driver with
  | zero =>
    cases filled
    exact ⟨rfl, fun _ _ => rfl, nofun⟩
  | succ count ih =>
    have start : Page.forAddress (Page.startAddress ⟨pageNumber⟩) = ⟨pageNumber⟩ := by
      rw [Page.forAddress, Page.startAddress, Nat.mul_div_cancel _ (by decide)]
    rw [fillDescs, Ahci.physicalAddress, start] at filled
    cases found : translate ⟨pageNumber⟩ with
    | none => rw [found] at filled; cases filled
    | some frame =>
      rw [found, Option.map_some, Page.forAddress, Page.startAddress, Nat.mul_mod_left, Nat.add_zero] at filled
      have next : (pageNumber * pageSize + bufferSize - 1) / pageSize + 1 = pageNumber + 1 := by
        rw [bufferSize, pageSize]
        omega
      rw [next] at filled
      obtain ⟨counted, kept, named⟩ := ih filled
      refine ⟨by omega, fun other below => ?_, fun index inside => ?_⟩
      · exact (kept other (by omega)).trans (if_neg (by omega))
      · cases index with
        | zero => exact ⟨frame, found, (kept ptr (by omega)).trans (if_pos rfl)⟩
        | succ index =>
          rw [Nat.add_comm index 1, ← Nat.add_assoc, ← Nat.add_assoc]
          exact named index (by omega)

theorem pollLoop_congr {memory other : Nat → RxDesc} (printAll : Bool) (count index : Nat) {ptr : Nat}
    (same : ∀ place, ptr ≤ place → memory place = other place) :
    pollLoop printAll memory count index ptr = pollLoop printAll other count index ptr := by
  induction count generalizing index ptr with
  | zero => rfl
  | succ count ih =>
    rw [pollLoop, pollLoop, same ptr (Nat.le_refl ptr), ih (index + 1) fun place above => same place (by omega)]

/-- The card may change every descriptor of its ring. -/
def receive (driver : E1000Driver) (received : Nat → RxDesc) : E1000Driver :=
  { driver with memory := fun ptr => if ptr < numRxBuffers then received ptr else driver.memory ptr }

/-- Each descriptor of the ring names its own buffer, but no poll depends on what the card writes there. -/
theorem poll_receive (started : startRx translate driver = (.value true, after)) :
    (∀ index, index < numRxBuffers → Names translate (after.memory index) (dmaRegionStart / pageSize + 1 + index)) ∧
      ∀ received printAll, (poll printAll (after.receive received)).1 = (poll printAll after).1 := by
  rw [startRx, get_bind, put_bind] at started
  obtain ⟨last, filled, fill, rest⟩ := (bind_eq_value_iff ..).mp started
  obtain ⟨counted, -, named⟩ := fillDescs_value fill
  cases found : Ahci.physicalAddress translate dmaRegionStart with
  | none => rw [found] at rest; cases rest
  | some descsPa =>
    rw [found] at rest
    obtain ⟨barType, registers, memory, rxCurr, rxDescs⟩ := filled
    cases barType with
    | io | memory64 => cases rest
    | memory32 =>
      cases rest
      refine ⟨fun index inside => ?_, fun received printAll => ?_⟩
      · have name := named index inside
        rwa [Nat.zero_add] at name
      · have same := pollLoop_congr printAll numRxBuffers 0 fun place (above : last ≤ place) =>
          show (if place < numRxBuffers then received place else memory place) = memory place from if_neg (by omega)
        cases printAll <;> simp only [poll, receive, get_bind, same] <;> rfl

theorem poll_receive_mapped : ∃ driver after, startRx (fun _ => some ⟨0, by decide⟩) driver = (.value true, after) ∧
    ∀ received printAll, (poll printAll (after.receive received)).1 = (poll printAll after).1 := by
  have started : startRx (fun _ => some ⟨0, by decide⟩)
      ⟨.memory32 0 false, fun _ => 0, fun _ => ⟨0, 0, 0, 0, 0, 0⟩, 0, none⟩ = (.value true, _) := rfl
  exact ⟨_, _, started, (poll_receive started).2⟩

end BubbleOs.Net.E1000Driver
