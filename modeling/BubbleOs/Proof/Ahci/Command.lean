import BubbleOs.Construction.Ahci.Port
import BubbleOs.Library.Tiling

namespace BubbleOs.Ahci

open Attempt Paging

namespace HBAPrdtEntry

/-- The controller transfers this run of physical bytes. -/
def run (entry : HBAPrdtEntry) : Run :=
  ⟨entry.dataBaseAddress.toNat + 2 ^ 32 * entry.dataBaseAddressUpper.toNat, entry.getDataByteCount.toNat + 1⟩

variable (entry : HBAPrdtEntry)

theorem getDataByteCount_setInterruptOnCompletion (val : Bool) :
    (entry.setInterruptOnCompletion val).getDataByteCount = entry.getDataByteCount := by
  have apart : 0x80000000#32 &&& 0x003FFFFF#32 = 0#32 := by decide
  have inside : ~~~0x80000000#32 &&& 0x003FFFFF#32 = 0x003FFFFF#32 := by decide
  cases val with
  | true =>
    change (entry.dbcRsv1I ||| 0x80000000#32) &&& 0x003FFFFF#32 = _
    rw [BitVec.and_or_distrib_right, apart, BitVec.or_zero]
    rfl
  | false =>
    change (entry.dbcRsv1I &&& ~~~0x80000000#32) &&& 0x003FFFFF#32 = _
    rw [BitVec.and_assoc, inside]
    rfl

theorem getDataByteCount_setDataByteCount (val : Dword) :
    (entry.setDataByteCount val).getDataByteCount = val &&& 0x003FFFFF#32 := by
  change ((entry.dbcRsv1I &&& ~~~0x003FFFFF#32) ||| (val &&& 0x003FFFFF#32)) &&& 0x003FFFFF#32 = _
  have apart : ~~~0x003FFFFF#32 &&& 0x003FFFFF#32 = 0#32 := by decide
  rw [BitVec.and_or_distrib_right, BitVec.and_assoc, apart, BitVec.and_zero, BitVec.zero_or, BitVec.and_assoc,
    BitVec.and_self]

theorem getInterruptOnCompletion_set (val : Bool) :
    (entry.setInterruptOnCompletion val).getInterruptOnCompletion = val := by
  have apart : ~~~0x80000000#32 &&& 0x80000000#32 = 0#32 := by decide
  cases val with
  | true =>
    change ((entry.dbcRsv1I ||| 0x80000000#32) &&& 0x80000000#32 != 0) = true
    rw [BitVec.and_or_distrib_right, BitVec.and_self, bne_iff_ne]
    intro zero
    have bit := congrArg (fun bits => BitVec.getLsbD bits 31) zero
    simp at bit
  | false =>
    change ((entry.dbcRsv1I &&& ~~~0x80000000#32) &&& 0x80000000#32 != 0) = false
    rw [BitVec.and_assoc, apart, BitVec.and_zero]
    rfl

/-- The description keeps an address of the machine and a length up to the limit. -/
theorem run_describe {bufferPhys entrySize : Nat} (isLast : Bool)
    (addressable : bufferPhys < 2 ^ 64) (positive : 0 < entrySize) (bounded : entrySize ≤ hbaPrdtMaxByteCount) :
    (entry.describe bufferPhys entrySize isLast).run = ⟨bufferPhys, entrySize⟩ := by
  have low : (entry.describe bufferPhys entrySize isLast).dataBaseAddress = BitVec.ofNat 32 bufferPhys := by
    cases isLast <;> rfl
  have high : (entry.describe bufferPhys entrySize isLast).dataBaseAddressUpper =
      BitVec.ofNat 32 (bufferPhys >>> 32) := by
    cases isLast <;> rfl
  have length : (entry.describe bufferPhys entrySize isLast).getDataByteCount.toNat = entrySize - 1 := by
    rw [describe, getDataByteCount_setInterruptOnCompletion, getDataByteCount_setDataByteCount, BitVec.toNat_and,
      BitVec.toNat_ofNat, BitVec.toNat_ofNat]
    rw [hbaPrdtMaxByteCount] at bounded
    have mask : 0x003FFFFF % 2 ^ 32 = 2 ^ 22 - 1 := by decide
    rw [mask, Nat.and_two_pow_sub_one_eq_mod]
    omega
  rw [run, low, high, length, BitVec.toNat_ofNat, BitVec.toNat_ofNat, Nat.shiftRight_eq_div_pow, Run.mk.injEq]
  omega

theorem getInterruptOnCompletion_describe (bufferPhys entrySize : Nat) (isLast : Bool) :
    (entry.describe bufferPhys entrySize isLast).getInterruptOnCompletion = isLast :=
  getInterruptOnCompletion_set _ isLast

end HBAPrdtEntry

section Transfer

variable (translate : Page → Option Frame)

/-- The addresses of one page are next to each other in memory. -/
theorem physicalAddress_add {virtAddr offset : Nat} (inside : offset < pageSize - virtAddr % pageSize) :
    physicalAddress translate (virtAddr + offset) = (physicalAddress translate virtAddr).map (· + offset) := by
  have positive : 0 < pageSize := by decide
  have below : virtAddr % pageSize < pageSize := Nat.mod_lt _ positive
  have parts := Nat.div_add_mod virtAddr pageSize
  have page : (virtAddr + offset) / pageSize = virtAddr / pageSize := by
    rw [Nat.div_eq_iff positive]
    rw [Nat.mul_comm] at parts
    omega
  have rest : (virtAddr + offset) % pageSize = virtAddr % pageSize + offset := by
    have joined := Nat.div_add_mod (virtAddr + offset) pageSize
    rw [page] at joined
    omega
  rw [physicalAddress, physicalAddress, Page.forAddress, Page.forAddress, page, rest]
  cases translate ⟨virtAddr / pageSize⟩ with
  | none => rfl
  | some frame => rw [Option.map_some, Option.map_some, Option.map_some, Nat.add_assoc]

theorem physicalAddress_lt {virtAddr physicalAddr : Nat} (mapped : physicalAddress translate virtAddr = some physicalAddr) :
    physicalAddr < 2 ^ 64 := by
  obtain ⟨frame, _, rfl⟩ := Option.map_eq_some_iff.mp mapped
  have supported := frame.supported
  have below : virtAddr % pageSize < pageSize := Nat.mod_lt _ (by decide)
  have size : pageSize = 4096 := rfl
  rw [Frame.startAddress]
  omega

/-- The entry holds the physical bytes from its start on. -/
def Gathered (bufferPhys start size : Nat) : Prop :=
  ∀ offset < size, physicalAddress translate (start + offset) = some (bufferPhys + offset)

/-- A chunk of the next page continues the entry. -/
theorem Gathered.add {bufferPhys start size chunk : Nat} (gathered : Gathered translate bufferPhys start size)
    (next : physicalAddress translate (start + size) = some (bufferPhys + size))
    (inside : chunk ≤ pageSize - (start + size) % pageSize) : Gathered translate bufferPhys start (size + chunk) := by
  intro offset below
  by_cases old : offset < size
  · exact gathered offset old
  · obtain ⟨extra, rfl⟩ := Nat.exists_eq_add_of_le (Nat.le_of_not_lt old)
    rw [← Nat.add_assoc, physicalAddress_add translate (by omega), next, Option.map_some, Nat.add_assoc]

/-- A part of the transfer ends with a full entry, at an unmapped address or behind the last address. -/
theorem coalesce_spec (table : HBACommandTable) {bufferPhys start remaining size : Nat} (left : 0 < remaining)
    (first : physicalAddress translate start = some bufferPhys) (room : size < hbaPrdtMaxByteCount)
    (gathered : Gathered translate bufferPhys start size) :
    (∃ final, coalesce translate bufferPhys (start + size) remaining size table =
        (.value (start + final, start + size + remaining - (start + final), final), table) ∧
      0 < final ∧ final ≤ hbaPrdtMaxByteCount ∧ start + final ≤ start + size + remaining ∧
      Gathered translate bufferPhys start final ∧
      Run.Full (physicalAddress translate) hbaPrdtMaxByteCount ⟨bufferPhys, final⟩ start (start + size + remaining)) ∨
    (coalesce translate bufferPhys (start + size) remaining size table = (.missing, table) ∧
      ∃ virtAddr, start ≤ virtAddr ∧ virtAddr < start + size + remaining ∧ physicalAddress translate virtAddr = none) ∨
    (coalesce translate bufferPhys (start + size) remaining size table = (.hang, table) ∧
      usizeLimit ≤ start + size + remaining) := by
  induction remaining using Nat.strong_induction_on generalizing size with
  | _ remaining ih =>
    rw [coalesce]
    cases mapped : physicalAddress translate (start + size) with
    | none => exact .inr (.inl ⟨rfl, start + size, Nat.le_add_right _ _, by omega, mapped⟩)
    | some physicalAddr =>
      rw [ofOption_some, pure_bind_apply]
      by_cases broken : 0 < size ∧ physicalAddr ≠ bufferPhys + size
      · rw [if_pos broken]
        refine .inl ⟨size, ?_, broken.1, Nat.le_of_lt room, Nat.le_add_right _ _, gathered, .inr (.inr ?_)⟩
        · rw [Nat.add_sub_cancel_left]
          rfl
        · rw [mapped]
          exact fun same => broken.2 (Option.some.inj same)
      · have next : physicalAddress translate (start + size) = some (bufferPhys + size) := by
          by_cases empty : size = 0
          · rw [empty, Nat.add_zero, Nat.add_zero, first]
          · rw [mapped, Option.some.injEq]
            exact Decidable.byContradiction fun different => broken ⟨Nat.pos_of_ne_zero empty, different⟩
        have below : (start + size) % pageSize < pageSize := Nat.mod_lt _ (by decide)
        rw [if_neg broken]
        dsimp only
        rw [if_neg (by omega)]
        generalize chunkDef : min remaining (min (pageSize - (start + size) % pageSize) (hbaPrdtMaxByteCount - size)) = chunk
        have longer : Gathered translate bufferPhys start (size + chunk) :=
          gathered.add translate next (by omega)
        by_cases overflow : usizeLimit ≤ start + size + chunk
        · rw [if_pos overflow]
          exact .inr (.inr ⟨rfl, by omega⟩)
        · rw [if_neg overflow]
          by_cases done : remaining - chunk = 0 ∨ size + chunk = hbaPrdtMaxByteCount
          · rw [if_pos done]
            refine .inl ⟨size + chunk, ?_, by omega, by omega, by omega, longer, ?_⟩
            · have rest : start + size + remaining - (start + (size + chunk)) = remaining - chunk := by omega
              rw [rest, Nat.add_assoc]
              rfl
            · cases done with
              | inl last => exact .inr (.inl (by dsimp only; omega))
              | inr limited => exact .inl limited
          · rw [if_neg done, Nat.add_assoc start size chunk]
            have later := ih (remaining - chunk) (by omega) (by omega) (by omega) longer
            have same : start + (size + chunk) + (remaining - chunk) = start + size + remaining := by omega
            rw [same] at later
            exact later

/-- The first entries of the table describe the runs, and none of them has the interrupt bit. -/
def Described (table : HBACommandTable) (runs : List Run) : Prop :=
  (table.prdtEntry.toList.take runs.length).map HBAPrdtEntry.run = runs ∧
    (table.prdtEntry.toList.take runs.length).map HBAPrdtEntry.getInterruptOnCompletion =
      List.replicate runs.length false

/-- The entries describe the runs, and only the last one has the interrupt bit. -/
def Finished (table : HBACommandTable) (runs : List Run) : Prop :=
  (table.prdtEntry.toList.take runs.length).map HBAPrdtEntry.run = runs ∧
    (table.prdtEntry.toList.take runs.length).map HBAPrdtEntry.getInterruptOnCompletion =
      List.replicate (runs.length - 1) false ++ [true]

theorem take_set {count : Nat} (entries : Vector HBAPrdtEntry count) {index : Nat} (inside : index < count)
    (entry : HBAPrdtEntry) :
    (entries.set index entry inside).toList.take (index + 1) = entries.toList.take index ++ [entry] := by
  rw [Vector.toList_set, List.take_add_one, List.take_set_of_le (Nat.le_refl index),
    List.getElem?_set_self (by rw [Vector.length_toList]; exact inside)]
  rfl

def HBACommandTable.withEntry (table : HBACommandTable) (index : Nat) (inside : index < hbaPrdtEntryCount)
    (entry : HBAPrdtEntry) : HBACommandTable :=
  { table with prdtEntry := table.prdtEntry.set index entry inside }

section Described

variable {table : HBACommandTable} {runs : List Run} {entry : HBAPrdtEntry}

variable (described : Described table runs) (inside : runs.length < hbaPrdtEntryCount)

include described inside

theorem Described.set :
    ((table.withEntry runs.length inside entry).prdtEntry.toList.take (runs ++ [entry.run]).length).map
        HBAPrdtEntry.run = runs ++ [entry.run] ∧
      ((table.withEntry runs.length inside entry).prdtEntry.toList.take (runs ++ [entry.run]).length).map
        HBAPrdtEntry.getInterruptOnCompletion = List.replicate runs.length false ++ [entry.getInterruptOnCompletion] := by
  have length : (runs ++ [entry.run]).length = runs.length + 1 := by rw [List.length_append]; rfl
  rw [length, HBACommandTable.withEntry, take_set, List.map_append, List.map_append, described.1, described.2]
  exact ⟨rfl, rfl⟩

/-- An entry without the interrupt bit continues the list. -/
theorem Described.next (silent : entry.getInterruptOnCompletion = false) :
    Described (table.withEntry runs.length inside entry) (runs ++ [entry.run]) := by
  have grown := @Described.set table runs entry described inside
  rw [silent, ← List.replicate_succ'] at grown
  refine ⟨grown.1, ?_⟩
  rw [grown.2, List.length_append]
  rfl

/-- An entry with the interrupt bit finishes the list. -/
theorem Described.finish (interrupts : entry.getInterruptOnCompletion = true) :
    Finished (table.withEntry runs.length inside entry) (runs ++ [entry.run]) := by
  have grown := @Described.set table runs entry described inside
  rw [interrupts] at grown
  refine ⟨grown.1, ?_⟩
  rw [grown.2, List.length_append]
  rfl

end Described

/-- One round describes a full run, finds an unmapped address or passes the last address. -/
theorem fillPrdtLoop_round (table : HBACommandTable) {virtAddr remaining index : Nat} (left : 0 < remaining)
    (inside : index < hbaPrdtEntryCount) :
    (∃ entry : HBAPrdtEntry, fillPrdtLoop translate virtAddr remaining index table =
        fillPrdtLoop translate (virtAddr + entry.run.size) (virtAddr + remaining - (virtAddr + entry.run.size))
          (index + 1) (table.withEntry index inside entry) ∧
      entry.getInterruptOnCompletion = (virtAddr + remaining - (virtAddr + entry.run.size) == 0) ∧
      0 < entry.run.size ∧ entry.run.size ≤ hbaPrdtMaxByteCount ∧ entry.run.size ≤ remaining ∧
      Gathered translate entry.run.base virtAddr entry.run.size ∧
      entry.run.Full (physicalAddress translate) hbaPrdtMaxByteCount virtAddr (virtAddr + remaining)) ∨
    (fillPrdtLoop translate virtAddr remaining index table = (.missing, table) ∧
      ∃ unmapped, virtAddr ≤ unmapped ∧ unmapped < virtAddr + remaining ∧ physicalAddress translate unmapped = none) ∨
    (fillPrdtLoop translate virtAddr remaining index table = (.hang, table) ∧ usizeLimit ≤ virtAddr + remaining) := by
  rw [fillPrdtLoop, if_neg (Nat.ne_of_gt left), dif_pos inside]
  cases mapped : physicalAddress translate virtAddr with
  | none => exact .inr (.inl ⟨rfl, virtAddr, Nat.le_refl _, Nat.lt_add_of_pos_right left, mapped⟩)
  | some bufferPhys =>
    have outcome := coalesce_spec translate table left mapped (by decide)
      (fun _ below => absurd below (Nat.not_lt_zero _))
    simp only [Nat.add_zero] at outcome
    rw [ofOption_some, pure_bind_apply]
    rcases outcome with ⟨size, returned, positive, bounded, reach, gathered, full⟩ | ⟨returned, missing⟩ |
      ⟨returned, beyond⟩
    · rw [bind_value returned]
      have described := HBAPrdtEntry.run_describe (table.prdtEntry.get ⟨index, inside⟩)
        (virtAddr + remaining - (virtAddr + size) == 0) (physicalAddress_lt translate mapped) positive bounded
      refine .inl ⟨(table.prdtEntry.get ⟨index, inside⟩).describe bufferPhys size
        (virtAddr + remaining - (virtAddr + size) == 0), ?_⟩
      rw [described, HBAPrdtEntry.getInterruptOnCompletion_describe]
      exact ⟨rfl, rfl, positive, bounded, Nat.le_of_add_le_add_left reach, gathered, full⟩
    · rw [bind_missing returned]
      exact .inr (.inl ⟨rfl, missing⟩)
    · rw [bind_hang returned]
      exact .inr (.inr ⟨rfl, beyond⟩)

/-- The list cannot be completed when a page is missing or when every cover is too long. -/
def Undescribable (start stop : Nat) : Prop :=
  (∃ virtAddr, start ≤ virtAddr ∧ virtAddr < stop ∧ physicalAddress translate virtAddr = none) ∨
    ∀ runs, Cover (physicalAddress translate) hbaPrdtMaxByteCount start runs stop → hbaPrdtEntryCount < runs.length

/-- The rounds complete the list, find a reason against it or pass the last address. -/
theorem fillPrdtLoop_spec (table : HBACommandTable) {start virtAddr remaining : Nat} {runs : List Run}
    (left : 0 < remaining) (fits : runs.length ≤ hbaPrdtEntryCount)
    (cover : Cover (physicalAddress translate) hbaPrdtMaxByteCount start runs virtAddr)
    (full : AllFull (physicalAddress translate) hbaPrdtMaxByteCount start runs (virtAddr + remaining))
    (described : Described table runs) :
    (∃ final after, fillPrdtLoop translate virtAddr remaining runs.length table = (.value final.length, after) ∧
      0 < final.length ∧ final.length ≤ hbaPrdtEntryCount ∧ Finished after final ∧
      Cover (physicalAddress translate) hbaPrdtMaxByteCount start final (virtAddr + remaining)) ∨
    (∃ after, fillPrdtLoop translate virtAddr remaining runs.length table = (.missing, after) ∧
      Undescribable translate start (virtAddr + remaining)) ∨
    (∃ after, fillPrdtLoop translate virtAddr remaining runs.length table = (.hang, after) ∧
      usizeLimit ≤ virtAddr + remaining) := by
  induction remaining using Nat.strong_induction_on generalizing virtAddr runs table with
  | _ remaining ih =>
    by_cases inside : runs.length < hbaPrdtEntryCount
    · rcases fillPrdtLoop_round translate table left inside with
        ⟨entry, round, interrupt, positive, bounded, reach, gathered, entryFull⟩ |
        ⟨stopped, unmapped, above, below, missing⟩ | ⟨stopped, beyond⟩
      · have longer : Cover (physicalAddress translate) hbaPrdtMaxByteCount start (runs ++ [entry.run])
            (virtAddr + entry.run.size) :=
          cover.append ⟨positive, bounded, gathered, rfl⟩
        have length : (runs ++ [entry.run]).length = runs.length + 1 := by rw [List.length_append]; rfl
        rw [round]
        by_cases ended : remaining = entry.run.size
        · rw [ended, Nat.sub_self] at interrupt
          have finished := described.finish inside interrupt
          rw [ended, Nat.sub_self, fillPrdtLoop, if_pos rfl, ← length]
          exact .inl ⟨_, _, rfl, by omega, by omega, finished, longer⟩
        · have rest : virtAddr + entry.run.size + (virtAddr + remaining - (virtAddr + entry.run.size)) =
              virtAddr + remaining := by
            omega
          have silent : entry.getInterruptOnCompletion = false := by
            rw [interrupt, beq_eq_false_iff_ne]
            omega
          have allFull : AllFull (physicalAddress translate) hbaPrdtMaxByteCount start (runs ++ [entry.run])
              (virtAddr + remaining) :=
            full.append cover ⟨entryFull, trivial⟩
          have later := ih (virtAddr + remaining - (virtAddr + entry.run.size)) (by omega) _ (by omega) (by omega)
            longer (by rw [rest]; exact allFull) (described.next inside silent)
          rw [rest, length] at later
          exact later
      · exact .inr (.inl ⟨table, stopped, .inl ⟨unmapped, Nat.le_trans cover.le above, below, missing⟩⟩)
      · exact .inr (.inr ⟨table, stopped, beyond⟩)
    · have stopped : fillPrdtLoop translate virtAddr remaining runs.length table = (.missing, table) := by
        rw [fillPrdtLoop, if_neg (Nat.ne_of_gt left), dif_neg inside]
        rfl
      refine .inr (.inl ⟨table, stopped, .inr ?_⟩)
      intro other otherCover
      have short := full.length_lt cover (Nat.lt_add_of_pos_right left) (Nat.le_refl start) otherCover
      omega

theorem fillPrdtEntries_spec (bufferAddr dataByteCount : Nat) (table : HBACommandTable) (some_ : 0 < dataByteCount) :
    (∃ runs after, fillPrdtEntries translate bufferAddr dataByteCount table = (.value runs.length, after) ∧
      0 < runs.length ∧ runs.length ≤ hbaPrdtEntryCount ∧ Finished after runs ∧
      Cover (physicalAddress translate) hbaPrdtMaxByteCount bufferAddr runs (bufferAddr + dataByteCount)) ∨
    (∃ after, fillPrdtEntries translate bufferAddr dataByteCount table = (.missing, after) ∧
      Undescribable translate bufferAddr (bufferAddr + dataByteCount)) ∨
    (∃ after, fillPrdtEntries translate bufferAddr dataByteCount table = (.hang, after) ∧
      usizeLimit ≤ bufferAddr + dataByteCount) := by
  rw [fillPrdtEntries, if_neg (Nat.ne_of_gt some_)]
  exact @fillPrdtLoop_spec translate table bufferAddr bufferAddr dataByteCount [] some_ (Nat.zero_le _) rfl trivial
    ⟨rfl, rfl⟩

theorem mem_run_bounds {runs : List Run} {start stop : Nat}
    (cover : Cover (physicalAddress translate) hbaPrdtMaxByteCount start runs stop) {run : Run} (listed : run ∈ runs) :
    1 ≤ run.size ∧ run.size ≤ hbaPrdtMaxByteCount := by
  induction runs generalizing start with
  | nil => exact absurd listed List.not_mem_nil
  | cons head rest ih =>
    cases listed with
    | head => exact ⟨cover.1, cover.2.1⟩
    | tail _ later => exact ih cover.2.2.2 later

/-- A list of entries describes the bytes of the buffer in order, a list is refused only with a reason, and the
loops end unless the addresses of the buffer do. -/
theorem fillPrdtEntries_exact (bufferAddr dataByteCount : Nat) (table : HBACommandTable) :
    (∀ count after, fillPrdtEntries translate bufferAddr dataByteCount table = (.value count, after) →
      1 ≤ count ∧ count ≤ hbaPrdtEntryCount ∧
      (∀ entry ∈ after.prdtEntry.toList.take count,
        1 ≤ entry.run.size ∧ entry.run.size ≤ hbaPrdtMaxByteCount) ∧
      (after.prdtEntry.toList.take count).map HBAPrdtEntry.getInterruptOnCompletion =
        List.replicate (count - 1) false ++ [true] ∧
      ((after.prdtEntry.toList.take count).flatMap fun entry => entry.run.places).map some =
        (List.range' bufferAddr dataByteCount).map (physicalAddress translate)) ∧
    (∀ after, fillPrdtEntries translate bufferAddr dataByteCount table = (.missing, after) →
      dataByteCount = 0 ∨ Undescribable translate bufferAddr (bufferAddr + dataByteCount)) ∧
    ∀ after, fillPrdtEntries translate bufferAddr dataByteCount table = (.hang, after) →
      usizeLimit ≤ bufferAddr + dataByteCount := by
  by_cases empty : dataByteCount = 0
  · have refused : fillPrdtEntries translate bufferAddr dataByteCount table = (.missing, table) := by
      rw [fillPrdtEntries, if_pos empty]
      rfl
    rw [refused]
    exact ⟨fun _ _ absurd_ => (by cases absurd_), fun _ _ => .inl empty, fun _ absurd_ => (by cases absurd_)⟩
  · rcases fillPrdtEntries_spec translate bufferAddr dataByteCount table (Nat.pos_of_ne_zero empty) with
      ⟨runs, final, returned, positive, bounded, finished, cover⟩ | ⟨_, returned, reason⟩ | ⟨_, returned, beyond⟩
    · rw [returned]
      refine ⟨fun count after same => ?_, fun _ absurd_ => (by cases absurd_), fun _ absurd_ => (by cases absurd_)⟩
      cases same
      refine ⟨positive, bounded, ?_, finished.2, ?_⟩
      · intro entry listed
        apply mem_run_bounds translate cover
        rw [← finished.1]
        exact List.mem_map_of_mem listed
      · have places := cover.places
        rw [Nat.add_sub_cancel_left, ← finished.1, List.flatMap_map] at places
        exact places
    · rw [returned]
      exact ⟨fun _ _ absurd_ => (by cases absurd_), fun _ _ => .inr reason, fun _ absurd_ => (by cases absurd_)⟩
    · rw [returned]
      exact ⟨fun _ _ absurd_ => (by cases absurd_), fun _ absurd_ => (by cases absurd_), fun _ _ => beyond⟩

end Transfer

/-- Every page is in the first frame. -/
def firstFrame : Page → Option Frame := fun _ => some ⟨0, by decide⟩

/-- A transfer over two pages that share a frame has two entries. -/
theorem fillPrdtEntries_exact_two_pages :
    ∃ count after, fillPrdtEntries firstFrame 4095 2 .zeroed = (.value count, after) ∧
      ((after.prdtEntry.toList.take count).flatMap fun entry => entry.run.places) = [4095, 0] := by
  obtain ⟨described, refused, endless⟩ := fillPrdtEntries_exact firstFrame 4095 2 .zeroed
  have cover : Cover (physicalAddress firstFrame) hbaPrdtMaxByteCount 4095 [⟨4095, 1⟩, ⟨0, 1⟩] 4097 := by
    refine ⟨by decide, by decide, ?_, by decide, by decide, ?_, rfl⟩
    · intro offset below
      rw [Nat.lt_one_iff.mp below]
      decide
    · intro offset below
      rw [Nat.lt_one_iff.mp below]
      decide
  cases outcome : fillPrdtEntries firstFrame 4095 2 .zeroed with
  | mk reply after =>
      cases reply with
      | value count =>
          obtain ⟨_, _, _, _, places⟩ := described count after outcome
          refine ⟨count, after, rfl, ?_⟩
          apply (List.map_inj_right fun _ _ => Option.some.inj).mp
          rw [places]
          decide
      | missing =>
          rcases refused after outcome with absurd_ | ⟨virtAddr, _, _, unmapped⟩ | long
          · exact absurd absurd_ (by decide)
          · cases unmapped
          · exact absurd (long _ cover) (by decide)
      | hang => exact absurd (endless after outcome) (by decide)

/-- The search keeps disks and optical drives. -/
def HBAPort.isDrive (port : HBAPort) : Bool := checkPortType port = .sata ∨ checkPortType port = .satapi

namespace HBAMemory

variable (identify : Nat → Option Dword) (abar : HBAMemory)

/-- The search tests this bit of the bitmap at the port. -/
def probedBit : Nat → Nat
  | 0 => 0
  | index + 1 =>
    if abar.pi.getLsbD (probedBit index) && !(abar.ports index).isDrive then probedBit index
    else probedBit index + 1

/-- These are the implemented drives in the order of the ports. -/
def implementedDrives : List AHCIPort :=
  ((List.range 32).filter fun index => abar.pi.getLsbD index && (abar.ports index).isDrive).map
    (AHCIPort.new identify abar)

theorem lowestBit_ne_zero_iff (bits : Dword) : bits &&& 1#32 ≠ 0 ↔ bits.getLsbD 0 = true := by
  rw [ne_eq, BitVec.and_one_eq_setWidth_ofBool_getLsbD]
  cases bits.getLsbD 0 <;> decide

/-- The search keeps the drives for which the tested bit is set. -/
theorem probePortsLoop_eq (count index : Nat) :
    probePortsLoop identify abar (List.range' index count) (abar.pi >>> abar.probedBit index) =
      ((List.range' index count).filter fun port =>
        abar.pi.getLsbD (abar.probedBit port) && (abar.ports port).isDrive).map (AHCIPort.new identify abar) := by
  induction count generalizing index with
  | zero => rfl
  | succ count ih =>
    have later := ih (index + 1)
    have tested : abar.pi >>> abar.probedBit index &&& 1#32 ≠ 0 ↔
        abar.pi.getLsbD (abar.probedBit index) = true := by
      rw [lowestBit_ne_zero_iff, BitVec.getLsbD_ushiftRight, Nat.add_zero]
    have moved : abar.pi >>> abar.probedBit index >>> 1 = abar.pi >>> (abar.probedBit index + 1) := by
      rw [BitVec.shiftRight_add]
    rw [List.range'_succ, probePortsLoop, List.filter_cons]
    rw [probedBit] at later
    cases present : abar.pi.getLsbD (abar.probedBit index) with
    | false =>
      rw [present, Bool.false_and, if_neg Bool.false_ne_true] at later
      rw [if_neg (by rw [tested, present]; exact Bool.false_ne_true), moved, later]
      rfl
    | true =>
      rw [if_pos (tested.mpr present)]
      cases drive : (abar.ports index).isDrive with
      | false =>
        have other := of_decide_eq_false drive
        rw [present, drive, if_pos (by decide)] at later
        dsimp only
        rw [if_pos (not_or.mp other), later]
        rfl
      | true =>
        have kind := of_decide_eq_true drive
        rw [present, drive, if_neg (by decide)] at later
        dsimp only
        rw [if_neg (fun neither => not_or.mpr neither kind), moved, later]
        rfl

theorem probePorts_eq :
    probePorts identify abar = ((List.range 32).filter fun port =>
      abar.pi.getLsbD (abar.probedBit port) && (abar.ports port).isDrive).map (AHCIPort.new identify abar) := by
  have all := probePortsLoop_eq identify abar 32 0
  rw [probedBit, BitVec.ushiftRight_zero, ← List.range_eq_range'] at all
  exact all

theorem portAddress_injective {first second : Nat} (same : abar.portAddress first = abar.portAddress second) :
    first = second := by
  rw [portAddress, portAddress] at same
  omega

theorem mem_map_new_iff (ports : List Nat) (index : Nat) :
    AHCIPort.new identify abar index ∈ ports.map (AHCIPort.new identify abar) ↔ index ∈ ports := by
  constructor
  · intro listed
    obtain ⟨other, member, same⟩ := List.mem_map.mp listed
    rw [← abar.portAddress_injective (congrArg AHCIPort.portAddress same)]
    exact member
  · exact List.mem_map_of_mem

theorem probePorts_of_tested (tested : ∀ index < 32, (abar.ports index).isDrive = true →
    abar.pi.getLsbD (abar.probedBit index) = abar.pi.getLsbD index) :
    probePorts identify abar = abar.implementedDrives identify := by
  rw [probePorts_eq, implementedDrives]
  congr 1
  apply List.filter_congr
  intro index listed
  cases drive : (abar.ports index).isDrive with
  | false => rw [Bool.and_false, Bool.and_false]
  | true => rw [tested index (List.mem_range.mp listed) drive]

/-- The search returns the implemented drives exactly when every drive is tested at its own bit or at an equal one. -/
theorem probePorts_drives_iff :
    probePorts identify abar = abar.implementedDrives identify ↔
      ∀ index < 32, (abar.ports index).isDrive = true →
        abar.pi.getLsbD (abar.probedBit index) = abar.pi.getLsbD index := by
  constructor
  · intro same index inside drive
    have members := mem_map_new_iff identify abar
      ((List.range 32).filter fun port => abar.pi.getLsbD (abar.probedBit port) && (abar.ports port).isDrive) index
    rw [← probePorts_eq, same, implementedDrives, mem_map_new_iff, List.mem_filter, List.mem_filter, drive,
      List.mem_range, Bool.and_true, Bool.and_true] at members
    apply Bool.eq_iff_iff.mpr
    constructor
    · exact fun found => (members.mpr ⟨inside, found⟩).2
    · exact fun found => (members.mp ⟨inside, found⟩).2
  · exact probePorts_of_tested identify abar

end HBAMemory

def emptyPort : HBAPort := ⟨0, 0, 0, 0, 0, 0, 0, 0⟩

def diskPort : HBAPort := { emptyPort with ssts := 0x123, sig := 0x101 }

/-- Only the first port is implemented, and only the second one has a disk. -/
def strayController : HBAMemory := ⟨0, 0, 1, fun index => if index = 1 then diskPort else emptyPort⟩

/-- The disk at the port that is not implemented is returned. -/
theorem probePorts_stray_disk :
    strayController.implementedDrives (fun _ => none) = [] ∧
      probePorts (fun _ => none) strayController = [AHCIPort.new (fun _ => none) strayController 1] := by
  constructor
  · decide
  · decide

open Attempt Paging

variable {translate : Page → Option Frame} {command : AHCICommand} {channel after : Channel}

/-- The controller fetches this frame when the slot is issued. -/
def Channel.issued (channel : Channel) (slot : Nat) : FisRegH2D :=
  (channel.tables (channel.headers (channel.port.headerAddress slot)).tableAddress).commandFis

theorem Channel.issued_set (channel : Channel) (slot : Nat) (header : HBACommandHeader) (table : HBACommandTable) :
    ((channel.setHeader (channel.port.headerAddress slot) header).setTable header.tableAddress table).issued slot =
      table.commandFis := by
  simp only [issued, setTable, setHeader, if_true]

/-- A prepared slot holds the frame of the command. -/
theorem prepare_issued {slot : Nat} (prepared : prepare translate slot command channel = (.value (), after)) :
    after.issued slot = command.fis := by
  rw [prepare, get_bind] at prepared
  dsimp only at prepared
  generalize fillPrdtEntries translate command.bufferAddr.toNat command.dataByteCount.toNat .zeroed = filled at prepared
  obtain ⟨outcome, table⟩ := filled
  cases outcome with
  | value prdtCount =>
    dsimp only at prepared
    rw [put_apply] at prepared
    injection prepared with _ same
    rw [← same]
    exact channel.issued_set slot _ _
  | missing =>
    dsimp only at prepared
    rw [put_bind, fail_apply] at prepared
    injection prepared with absurd_
    cases absurd_
  | hang => cases prepared

/-- The first free slot is taken, or the first of all after a reset. -/
theorem takeSlot_value {device : Device} {maxSlots slot : Nat}
    (taken : takeSlot device maxSlots channel = (.value slot, after)) :
    slot < maxSlots ∧ slot = (channel.port.getFreeSlot maxSlots).getD 0 := by
  rw [takeSlot, get_bind] at taken
  cases free : channel.port.getFreeSlot maxSlots with
  | some first =>
    rw [free] at taken
    cases taken
    exact ⟨List.mem_range.mp (List.mem_of_find?_eq_some free), rfl⟩
  | none =>
    simp only [free, put_bind] at taken
    split at taken
    · cases taken
    · cases maxSlots with
      | zero => cases taken
      | succ others =>
        rw [HBAPort.getFreeSlot, List.range_succ_eq_map, List.find?_cons_of_pos (by simp)] at taken
        cases taken
        exact ⟨Nat.succ_pos others, rfl⟩

/-- A command that succeeds was issued with its own frame in the slot that it took. -/
theorem sendCommand_issued {device : Device} {maxSlots : Nat}
    (sent : sendCommand translate device maxSlots command channel = (.value true, after)) :
    ∃ slot, (slot < maxSlots ∧ slot = (channel.port.getFreeSlot maxSlots).getD 0) ∧
      after.port.ci = 1#32 <<< slot ∧ after.issued slot = command.fis := by
  rw [sendCommand, get_bind, put_bind] at sent
  by_cases busy : (!device.idle) = true
  · rw [if_pos busy] at sent
    cases sent
  · rw [if_neg busy, bind_eq_value_iff] at sent
    obtain ⟨slot, between, taken, prepared⟩ := sent
    cases slot with
    | none => cases prepared
    | some slot =>
      dsimp only at prepared
      rw [bind_eq_value_iff] at prepared
      obtain ⟨ready, filled, attempt, finished⟩ := prepared
      cases ready with
      | none => cases finished
      | some done =>
        have returned : prepare translate slot command between = (.value (), filled) := orNone_eq_some attempt
        dsimp only at finished
        rw [get_bind, put_bind] at finished
        have same : after = filled.setPort { filled.port with ci := 1#32 <<< slot } := by
          cases answer : device.finished with
          | none =>
            rw [answer] at finished
            injection finished with absurd_
            cases absurd_
          | some succeeded =>
            rw [answer] at finished
            injection finished with _ state
            exact state.symm
        have first := takeSlot_value (orNone_eq_some taken)
        refine ⟨slot, first, ?_, ?_⟩
        · rw [same]
          rfl
        · rw [same, ← prepare_issued returned]
          rfl

/-- A slot is prepared when the scatter list is filled. -/
theorem prepare_of_filled {prdtCount : Nat} {table : HBACommandTable} (slot : Nat) (channel : Channel)
    (filled : fillPrdtEntries translate command.bufferAddr.toNat command.dataByteCount.toNat .zeroed =
      (.value prdtCount, table)) : ∃ after, prepare translate slot command channel = (.value (), after) := by
  rw [prepare, get_bind]
  dsimp only
  rw [filled]
  exact ⟨_, rfl⟩

/-- A transfer reads or writes sectors. -/
def transferCommand (write : Bool) (sector sectorCount buffer : Word) : AHCICommand :=
  if write then writeCommand sector sectorCount buffer else readCommand sector sectorCount buffer

section Transfer

variable (write : Bool) (sector sectorCount buffer : Word)

theorem three_bytes (value : Nat) :
    value % 2 ^ 8 + 256 * (value / 2 ^ 8 % 2 ^ 8 + 256 * (value / 2 ^ 16 % 2 ^ 8)) = value % 2 ^ 24 := by
  have third : value / 2 ^ 16 = value / 2 ^ 8 / 2 ^ 8 := by
    rw [Nat.div_div_eq_div_mul, ← Nat.pow_add]
  rw [third]
  omega

/-- The frame keeps the low three bytes of the sector and three bytes of its upper half. -/
theorem transferCommand_sector :
    (transferCommand write sector sectorCount buffer).fis.sector =
      sector.toNat % 2 ^ 24 + 2 ^ 24 * (sector.toNat / 2 ^ 32 % 2 ^ 24) := by
  have same : (transferCommand write sector sectorCount buffer).fis.sector =
      (readCommand sector sectorCount buffer).fis.sector := by
    cases write <;> rfl
  rw [same]
  simp only [readCommand, AHCICommand.fis, FisRegH2D.setControlBit, FisRegH2D.sector, BitVec.toNat_setWidth,
    BitVec.toNat_ushiftRight, Nat.shiftRight_eq_div_pow]
  have low := three_bytes (sector.toNat % 2 ^ 32)
  have high := three_bytes (sector.toNat / 2 ^ 32 % 2 ^ 32)
  have lowMod : sector.toNat % 2 ^ 32 % 2 ^ 24 = sector.toNat % 2 ^ 24 := Nat.mod_mod_of_dvd _ (by decide)
  have highMod : sector.toNat / 2 ^ 32 % 2 ^ 32 % 2 ^ 24 = sector.toNat / 2 ^ 32 % 2 ^ 24 :=
    Nat.mod_mod_of_dvd _ (by decide)
  rw [← lowMod, ← highMod, ← low, ← high]
  ring

theorem transferCommand_count (bounded : sectorCount.toNat ≤ 65535) :
    (transferCommand write sector sectorCount buffer).fis.count = sectorCount.toNat := by
  have same : (transferCommand write sector sectorCount buffer).fis.count =
      (readCommand sector sectorCount buffer).fis.count := by
    cases write <;> rfl
  have mask : ∀ value : Nat, value &&& 255 = value % 256 := fun value => Nat.and_two_pow_sub_one_eq_mod value 8
  rw [same]
  simp only [readCommand, AHCICommand.fis, FisRegH2D.setControlBit, FisRegH2D.count, BitVec.toNat_setWidth,
    BitVec.toNat_and, BitVec.toNat_ushiftRight, Nat.shiftRight_eq_div_pow]
  rw [show (255 : Word).toNat = 255 from rfl, mask, mask]
  omega

theorem transferCommand_length (bounded : sectorCount.toNat ≤ 65535) :
    (transferCommand write sector sectorCount buffer).dataByteCount.toNat = sectorCount.toNat * 512 := by
  have same : (transferCommand write sector sectorCount buffer).dataByteCount =
      (readCommand sector sectorCount buffer).dataByteCount := by
    cases write <;> rfl
  rw [same, readCommand, BitVec.toNat_setWidth, BitVec.toNat_shiftLeft, Nat.shiftLeft_eq]
  omega

end Transfer

/-- The byte between the two parts is lost. -/
theorem dropped_byte_iff {value : Nat} (bounded : value < 2 ^ 48) :
    value % 2 ^ 24 + 2 ^ 24 * (value / 2 ^ 32 % 2 ^ 24) = value ↔ value < 2 ^ 24 := by
  have upper : value / 2 ^ 32 = value / 2 ^ 24 / 2 ^ 8 := by
    rw [Nat.div_div_eq_div_mul, ← Nat.pow_add]
  have small : value / 2 ^ 24 / 2 ^ 8 < 2 ^ 24 := by omega
  rw [upper, Nat.mod_eq_of_lt small]
  omega

/-- A command addresses its sectors exactly when the sector number has three bytes. -/
theorem prepare_sector_iff {translate : Page → Option Frame} {slot : Nat} {channel after : Channel} (write : Bool)
    {sector sectorCount buffer : Word}
    (prepared : prepare translate slot (transferCommand write sector sectorCount buffer) channel = (.value (), after))
    (addressable : sector.toNat < 2 ^ 48) (bounded : sectorCount.toNat ≤ 65535) :
    ((after.issued slot).sector = sector.toNat ∧ (after.issued slot).count = sectorCount.toNat ∧
      (transferCommand write sector sectorCount buffer).dataByteCount.toNat = sectorCount.toNat * 512) ↔
      sector.toNat < 2 ^ 24 := by
  rw [prepare_issued prepared, transferCommand_sector, transferCommand_count _ _ _ _ bounded,
    transferCommand_length _ _ _ _ bounded]
  rw [dropped_byte_iff addressable]
  exact and_iff_left ⟨rfl, rfl⟩

/-- One frame serves every command of this channel. -/
def idleChannel : Channel := ⟨⟨0, 0, 0, 0, 0, 0, 0, 0⟩, fun _ => ⟨0, 0, 0, 0, 0⟩, fun _ => .zeroed⟩

theorem sendCommand_issued_sixteen : ∃ after slot,
    sendCommand firstFrame ⟨true, true, some true⟩ 32 (readCommand 16 1 0) idleChannel = (.value true, after) ∧
      after.issued slot = (readCommand 16 1 0).fis := by
  have sent := eq_of_outcome (show (sendCommand firstFrame ⟨true, true, some true⟩ 32 (readCommand 16 1 0)
    idleChannel).1 = .value true by decide +kernel)
  obtain ⟨slot, _, _, issued⟩ := sendCommand_issued sent
  exact ⟨_, slot, sent, issued⟩

/-- Sector sixteen is read at its own address. -/
theorem prepare_sector_sixteen :
    ∃ after, prepare firstFrame 0 (transferCommand false 16 1 0) idleChannel = (.value (), after) ∧
      (after.issued 0).sector = 16 := by
  have cover : Cover (physicalAddress firstFrame) hbaPrdtMaxByteCount 0 [⟨0, 512⟩] 512 := by
    refine ⟨by decide, by decide, ?_, rfl⟩
    intro offset below
    rw [physicalAddress_add firstFrame (Nat.lt_of_lt_of_le below (by decide))]
    rfl
  have prepared : ∃ after, prepare firstFrame 0 (transferCommand false 16 1 0) idleChannel = (.value (), after) := by
    rcases fillPrdtEntries_spec firstFrame 0 512 .zeroed (by decide) with
      ⟨_, _, filled, _⟩ | ⟨_, _, ⟨virtAddr, _, _, unmapped⟩ | long⟩ | ⟨_, _, beyond⟩
    · exact prepare_of_filled 0 idleChannel filled
    · cases unmapped
    · exact absurd (long _ cover) (by decide)
    · exact absurd beyond (by decide)
  obtain ⟨after, returned⟩ := prepared
  have exact_ := (prepare_sector_iff false returned (by decide) (by decide)).mpr (by decide)
  exact ⟨after, returned, exact_.1⟩

/-- The command for this sector reads the first sector of the disk. -/
theorem readCommand_wraps :
    (readCommand 0x1000000 1 0).fis.sector = 0 ∧ (readCommand 0x1000000 1 0).fis = (readCommand 0 1 0).fis := by
  decide

end BubbleOs.Ahci
