import BubbleOs.Construction.Elf.Loader

namespace BubbleOs.Elf

open Attempt Paging

/-- These are the fields of the file header, whatever the file holds. -/
def headerOf (file : List UInt8) : ElfHeader64 := ⟨field file 24 8, field file 32 8, field file 54 2, field file 56 2⟩

/-- The parser accepts the header and the bounds of the program header table. -/
structure TableAccepted (file : List UInt8) : Prop where
  size : headerSize ≤ file.length
  magic : 16777216 * field file 0 1 + 65536 * field file 1 1 + 256 * field file 2 1 + field file 3 1 = elfMagic
  address : (headerOf file).phOffset + (headerOf file).phNum * (headerOf file).phEntrySize < addressLimit
  table : (headerOf file).phOffset + (headerOf file).phNum * (headerOf file).phEntrySize ≤ file.length

section Headers

variable (header : ElfHeader64) (file : List UInt8)

/-- The program header starts at this offset. -/
def phBase (index : Nat) : Nat := header.phOffset + index * header.phEntrySize

/-- The program header describes a segment to load. -/
def isLoad (index : Nat) : Bool := field file (phBase header index) 4 == 1

def segmentAt (index : Nat) : ElfRegion where
  addr := field file (phBase header index + 16) 8
  size := field file (phBase header index + 40) 8
  flags := field file (phBase header index + 4) 4
  originOffset := field file (phBase header index + 8) 8
  originSize := field file (phBase header index + 32) 8

/-- The segment fits into its memory range and comes from the file. -/
def wellSized (region : ElfRegion) : Bool :=
  region.size != 0 && decide (region.originSize ≤ region.size) &&
    decide (region.originOffset + region.originSize < addressLimit) &&
    decide (region.originOffset + region.originSize ≤ file.length)

/-- The parser rejects the file at this program header. -/
def rejected (index : Nat) : Bool := isLoad header file index && !wellSized file (segmentAt header file index)

/-- The parser reads this program header inside the buffer, and the product does not overflow. -/
structure Readable (index : Nat) : Prop where
  product : index * header.phEntrySize < entryLimit
  kind : phBase header index + 4 ≤ file.length
  fields : isLoad header file index = true → phBase header index + 48 ≤ file.length

/-- The regions grow only by segments to load. -/
def extend (regions : List ElfRegion) (index : Nat) : List ElfRegion :=
  if isLoad header file index then linkRegion regions (segmentAt header file index) else regions

/-- These are the segments to load in the order of their headers. -/
def segments : List ElfRegion :=
  ((List.range header.phNum).filter (isLoad header file)).map (segmentAt header file)

variable {header file} {offset width : Nat} {index : Nat} {indices : List Nat}

theorem readField_value (inside : offset + width ≤ file.length) :
    readField offset width file = (.value (field file offset width), file) := by
  rw [readField, get_bind, if_pos inside]
  rfl

theorem readField_hang (outside : ¬ offset + width ≤ file.length) : readField offset width file = (.hang, file) := by
  rw [readField, get_bind, if_neg outside]
  rfl

theorem loadPhHeader_hang (regions : List ElfRegion) (unreadable : ¬ Readable header file index) :
    loadPhHeader header regions index file = (.hang, file) := by
  rw [loadPhHeader]
  split
  · rfl
  · rename_i product
    by_cases kind : phBase header index + 4 ≤ file.length
    · have load : isLoad header file index = true ∧ ¬ phBase header index + 48 ≤ file.length := by
        by_contra inside
        refine unreadable ⟨Nat.not_le.mp product, kind, fun loads => ?_⟩
        by_contra outside
        exact inside ⟨loads, outside⟩
      have one : field file (phBase header index) 4 = 1 := eq_of_beq load.1
      rw [phBase] at kind one load
      rw [bind_value (readField_value kind), if_neg (by rw [one]; exact fun differs => differs rfl)]
      by_cases addr : header.phOffset + index * header.phEntrySize + 16 + 8 ≤ file.length
      · rw [bind_value (readField_value addr), bind_hang (readField_hang (by omega))]
      · rw [bind_hang (readField_hang addr)]
    · rw [phBase] at kind
      rw [bind_hang (readField_hang kind)]

theorem loadPhHeader_readable (regions : List ElfRegion) (readable : Readable header file index) :
    loadPhHeader header regions index file =
      (if rejected header file index then .missing else .value (extend header file regions index), file) := by
  have kind := readable.kind
  rw [loadPhHeader, if_neg (Nat.not_le.mpr readable.product)]
  rw [phBase] at kind
  rw [bind_value (readField_value kind)]
  cases load : isLoad header file index with
  | false =>
    have other : field file (phBase header index) 4 ≠ 1 := ne_of_beq_false load
    rw [phBase] at other
    rw [if_pos other, rejected, extend, load]
    rfl
  | true =>
    have one : field file (phBase header index) 4 = 1 := eq_of_beq load
    have inside := readable.fields load
    rw [phBase] at one inside
    rw [if_neg (by rw [one]; exact fun differs => differs rfl), bind_value (readField_value (by omega)),
      bind_value (readField_value (by omega)), rejected, extend, load, Bool.true_and, if_pos rfl]
    have sized : wellSized file (segmentAt header file index) = true ↔
        field file (phBase header index + 40) 8 ≠ 0 ∧
          field file (phBase header index + 32) 8 ≤ field file (phBase header index + 40) 8 ∧
          field file (phBase header index + 8) 8 + field file (phBase header index + 32) 8 < addressLimit ∧
          field file (phBase header index + 8) 8 + field file (phBase header index + 32) 8 ≤ file.length := by
      rw [wellSized]
      simp only [Bool.and_eq_true, bne_iff_ne, decide_eq_true_iff, and_assoc]
      rfl
    rw [phBase] at sized
    have discarded (bad : ¬ wellSized file (segmentAt header file index) = true) :
        (if (!wellSized file (segmentAt header file index)) = true then Outcome.missing
          else .value (linkRegion regions (segmentAt header file index))) = .missing := by
      rw [if_pos (by rw [Bool.not_eq_true']; exact eq_false_of_ne_true bad)]
    split
    · rename_i empty
      rw [discarded fun good => (sized.mp good).1 empty]
      rfl
    · rename_i nonempty
      rw [bind_value (readField_value (by omega))]
      split
      · rename_i larger
        rw [discarded fun good => Nat.not_lt.mpr (sized.mp good).2.1 larger]
        rfl
      · rename_i fits
        rw [bind_value (readField_value (by omega)), get_bind]
        split
        · rename_i overflow
          rw [discarded fun good => Nat.not_le.mpr (sized.mp good).2.2.1 overflow]
          rfl
        · rename_i address
          split
          · rename_i outside
            rw [discarded fun good => Nat.not_lt.mpr (sized.mp good).2.2.2 outside]
            rfl
          · rename_i present
            have good := sized.mpr ⟨nonempty, Nat.not_lt.mp fits, Nat.not_le.mp address, Nat.not_lt.mp present⟩
            rw [bind_value (readField_value (by omega)), good]
            rfl

/-- The loop ends without a fault exactly when every header before the first rejected one is readable. -/
theorem loadPhLoop_safe (count start : Nat) (regions : List ElfRegion) :
    (loadPhLoop header (List.range' start count) regions file).1 ≠ .hang ↔
      ∀ index, start ≤ index → index < start + count →
        (∀ earlier, start ≤ earlier → earlier < index → rejected header file earlier = false) →
          Readable header file index := by
  induction count generalizing start regions with
  | zero => exact ⟨fun _ index low high => absurd high (Nat.not_lt.mpr low), fun _ => nofun⟩
  | succ count ih =>
    rw [List.range'_succ, loadPhLoop]
    by_cases readable : Readable header file start
    · rw [Nat.add_comm count 1, ← Nat.add_assoc]
      cases stops : rejected header file start with
      | true =>
        have failed := loadPhHeader_readable regions readable
        rw [stops] at failed
        rw [bind_missing failed]
        refine ⟨fun _ index low high kept => ?_, fun _ => nofun⟩
        by_cases same : index = start
        · rw [same]
          exact readable
        · rw [kept start (Nat.le_refl _) (by omega)] at stops
          contradiction
      | false =>
        have continued := loadPhHeader_readable regions readable
        rw [stops] at continued
        rw [bind_value continued, ih]
        constructor
        · intro later index low high kept
          by_cases same : index = start
          · rw [same]
            exact readable
          · exact later index (by omega) high fun earlier from_ => kept earlier (by omega)
        · intro all index low high kept
          refine all index (by omega) high fun earlier from_ below => ?_
          by_cases same : earlier = start
          · rw [same]
            exact stops
          · exact kept earlier (by omega) below
    · rw [bind_hang (loadPhHeader_hang regions readable)]
      constructor
      · intro ends
        exact absurd rfl ends
      · intro all
        exact absurd (all start (Nat.le_refl _) (by omega) fun earlier low below => absurd low (by omega)) readable

/-- The loop links every segment when no header is rejected. -/
theorem loadPhLoop_value (regions : List ElfRegion) (readable : ∀ index ∈ indices, Readable header file index)
    (kept : ∀ index ∈ indices, rejected header file index = false) :
    loadPhLoop header indices regions file = (.value (indices.foldl (extend header file) regions), file) := by
  induction indices generalizing regions with
  | nil => rfl
  | cons index rest ih =>
    have step := loadPhHeader_readable regions (readable index List.mem_cons_self)
    rw [kept index List.mem_cons_self] at step
    rw [loadPhLoop, bind_value step, List.foldl_cons]
    exact ih _ (fun later member => readable later (List.mem_cons_of_mem _ member))
      fun later member => kept later (List.mem_cons_of_mem _ member)

/-- A rejected header ends the loop without a value. -/
theorem loadPhLoop_rejected {regions linked : List ElfRegion}
    (returned : (loadPhLoop header indices regions file).1 = .value linked) :
    ∀ index ∈ indices, rejected header file index = false := by
  induction indices generalizing regions with
  | nil => nofun
  | cons index rest ih =>
    by_cases readable : Readable header file index
    · have step := loadPhHeader_readable regions readable
      rw [loadPhLoop] at returned
      cases stops : rejected header file index with
      | true =>
        rw [stops] at step
        rw [bind_missing step] at returned
        cases returned
      | false =>
        rw [stops] at step
        rw [bind_value step] at returned
        exact List.forall_mem_cons.mpr ⟨stops, ih returned⟩
    · rw [loadPhLoop, bind_hang (loadPhHeader_hang regions readable)] at returned
      cases returned

/-- Every region replaces the successor of the first region. -/
theorem foldl_linkRegion (first : ElfRegion) (following rest : List ElfRegion) :
    rest.foldl linkRegion (first :: following) = first :: (rest.getLast?.map fun last => [last]).getD following := by
  induction rest generalizing following with
  | nil => rfl
  | cons region rest ih =>
    rw [List.foldl_cons, linkRegion, ih, List.getLast?_cons]
    cases rest.getLast? <;> rfl

theorem foldl_extend (indices : List Nat) (regions : List ElfRegion) :
    indices.foldl (extend header file) regions =
      ((indices.filter (isLoad header file)).map (segmentAt header file)).foldl linkRegion regions := by
  induction indices generalizing regions with
  | nil => rfl
  | cons index rest ih =>
    rw [List.foldl_cons, ih, extend, List.filter_cons]
    split <;> rfl

end Headers

/-- Only the first and the last element are kept. -/
def firstAndLast {A : Type} : List A → List A
  | [] => []
  | first :: rest => first :: rest.getLast?.toList

theorem foldl_linkRegion_nil (regions : List ElfRegion) : regions.foldl linkRegion [] = firstAndLast regions := by
  cases regions with
  | nil => rfl
  | cons first rest =>
    rw [List.foldl_cons, firstAndLast, linkRegion, foldl_linkRegion]
    cases rest.getLast? <;> rfl

theorem mem_of_mem_firstAndLast {A : Type} {list : List A} {element : A} (kept : element ∈ firstAndLast list) :
    element ∈ list := by
  cases list with
  | nil => exact kept
  | cons first rest =>
    rcases List.mem_cons.mp kept with rfl | last
    · exact List.mem_cons_self
    · exact List.mem_cons_of_mem _ (List.mem_of_getLast? (Option.mem_toList.mp last))

/-- The last address and the signed difference of the sizes can be computed. -/
structure RegionFits (region : ElfRegion) : Prop where
  address : region.addr + region.size < addressLimit
  low : -9223372036854775808 ≤ signed region.size - signed region.originSize
  high : signed region.size - signed region.originSize ≤ 9223372036854775807

section Loops

variable {file : List UInt8} {regions : List ElfRegion} {region : ElfRegion}

theorem mapRegions_value (fits : ∀ region ∈ regions, region.addr + region.size < addressLimit) :
    ∃ pages, mapRegions regions file = (.value pages, file) := by
  induction regions with
  | nil => exact ⟨[], rfl⟩
  | cons region rest ih =>
    obtain ⟨pages, later⟩ := ih fun other member => fits other (List.mem_cons_of_mem _ member)
    have here : regionPages region file =
        (.value (region.addr / pageSize, (region.addr + region.size - 1) / pageSize), file) := by
      rw [regionPages, if_neg (Nat.not_le.mpr (fits region List.mem_cons_self))]
      rfl
    refine ⟨(region.addr / pageSize, (region.addr + region.size - 1) / pageSize) :: pages, ?_⟩
    rw [mapRegions, bind_value here, bind_value later]
    rfl

theorem mapRegions_hang (listed : region ∈ regions) (overflow : addressLimit ≤ region.addr + region.size) :
    mapRegions regions file = (.hang, file) := by
  induction regions with
  | nil => contradiction
  | cons first rest ih =>
    rw [mapRegions]
    by_cases here : addressLimit ≤ first.addr + first.size
    · have stops : regionPages first file = (.hang, file) := by
        rw [regionPages, if_pos here]
        rfl
      rw [bind_hang stops]
    · have continued : regionPages first file =
          (.value (first.addr / pageSize, (first.addr + first.size - 1) / pageSize), file) := by
        rw [regionPages, if_neg here]
        rfl
      rcases List.mem_cons.mp listed with rfl | later
      · exact absurd overflow here
      · rw [bind_value continued, bind_hang (ih later)]

/-- A well-sized region is copied exactly when the signed difference of its sizes fits. -/
theorem regionBytes_sized (sized : wellSized file region = true) :
    if -9223372036854775808 ≤ signed region.size - signed region.originSize ∧
        signed region.size - signed region.originSize ≤ 9223372036854775807 then
      ∃ bytes, regionBytes region file = (.value bytes, file)
    else regionBytes region file = (.hang, file) := by
  simp only [wellSized, Bool.and_eq_true, bne_iff_ne, decide_eq_true_iff] at sized
  obtain ⟨⟨⟨_, smaller⟩, _⟩, inside⟩ := sized
  have read : readBytes region.originOffset region.originSize file =
      (.value ((file.drop region.originOffset).take region.originSize), file) := by
    rw [readBytes, get_bind, if_pos inside]
    rfl
  rw [regionBytes, if_neg (Nat.not_lt.mpr smaller), bind_value read]
  split
  · rename_i fits
    exact ⟨_, by rw [if_neg (by omega)]; rfl⟩
  · rename_i overflow
    rw [if_pos (by omega)]
    rfl

variable (sized : ∀ region ∈ regions, wellSized file region = true)

include sized

theorem copyRegions_value
    (fits : ∀ region ∈ regions, RegionFits region) : ∃ images, copyRegions regions file = (.value images, file) := by
  induction regions with
  | nil => exact ⟨[], rfl⟩
  | cons region rest ih =>
    obtain ⟨images, later⟩ := ih (fun other member => sized other (List.mem_cons_of_mem _ member))
      fun other member => fits other (List.mem_cons_of_mem _ member)
    have fit := fits region List.mem_cons_self
    have here := regionBytes_sized (sized region List.mem_cons_self)
    rw [if_pos ⟨fit.low, fit.high⟩] at here
    obtain ⟨bytes, copied⟩ := here
    refine ⟨bytes :: images, ?_⟩
    rw [copyRegions, bind_value copied, bind_value later]
    rfl

theorem copyRegions_hang (listed : region ∈ regions)
    (overflow : ¬ (-9223372036854775808 ≤ signed region.size - signed region.originSize ∧
      signed region.size - signed region.originSize ≤ 9223372036854775807)) :
    copyRegions regions file = (.hang, file) := by
  induction regions with
  | nil => contradiction
  | cons first rest ih =>
    rw [copyRegions]
    have here := regionBytes_sized (sized first List.mem_cons_self)
    split at here
    · rename_i fits
      obtain ⟨bytes, copied⟩ := here
      rcases List.mem_cons.mp listed with rfl | later
      · exact absurd fits overflow
      · rw [bind_value copied, bind_hang (ih (fun other member => sized other (List.mem_cons_of_mem _ member)) later)]
    · rw [bind_hang here]

/-- The two loops follow the parser. -/
def regionLoops (regions : List ElfRegion) : LoadM (List (Nat × Nat) × List (List UInt8)) := do
  let pages ← mapRegions regions
  let images ← copyRegions regions
  pure (pages, images)

/-- The loops over well-sized regions end without a fault exactly when every region fits. -/
theorem regionLoops_safe : (regionLoops regions file).1 ≠ .hang ↔ ∀ region ∈ regions, RegionFits region := by
  rw [regionLoops]
  constructor
  · intro ends
    have addresses : ∀ region ∈ regions, region.addr + region.size < addressLimit := by
      intro region listed
      by_contra overflow
      rw [bind_hang (mapRegions_hang listed (Nat.not_lt.mp overflow))] at ends
      exact ends rfl
    obtain ⟨pages, mapped⟩ : ∃ pages, mapRegions regions file = (.value pages, file) := mapRegions_value addresses
    rw [bind_value mapped] at ends
    intro region listed
    have sizes : -9223372036854775808 ≤ signed region.size - signed region.originSize ∧
        signed region.size - signed region.originSize ≤ 9223372036854775807 := by
      by_contra overflow
      rw [bind_hang (copyRegions_hang sized listed overflow)] at ends
      exact ends rfl
    exact ⟨addresses region listed, sizes.1, sizes.2⟩
  · intro fits
    obtain ⟨pages, mapped⟩ : ∃ pages, mapRegions regions file = (.value pages, file) :=
      mapRegions_value fun region listed => (fits region listed).address
    obtain ⟨images, copied⟩ := copyRegions_value sized fits
    rw [bind_value mapped, bind_value copied]
    nofun

end Loops

section Files

variable {file : List UInt8} {header : ElfHeader64}

theorem readMagic_value (size : headerSize ≤ file.length) : readMagic file =
    (.value (16777216 * field file 0 1 + 65536 * field file 1 1 + 256 * field file 2 1 + field file 3 1), file) := by
  rw [headerSize] at size
  rw [readMagic, bind_value (readField_value (by omega)), bind_value (readField_value (by omega)),
    bind_value (readField_value (by omega)), bind_value (readField_value (by omega))]
  rfl

theorem readHeader_value (size : headerSize ≤ file.length) : readHeader file = (.value (headerOf file), file) := by
  rw [headerSize] at size
  rw [readHeader, bind_value (readField_value (by omega)), bind_value (readField_value (by omega)),
    bind_value (readField_value (by omega)), bind_value (readField_value (by omega))]
  rfl

theorem load_refused (refused : ¬ TableAccepted file) : load file = (.missing, file) := by
  rw [load, get_bind]
  split
  · rfl
  · rename_i size
    have large := Nat.not_lt.mp size
    rw [bind_value (readMagic_value large)]
    split
    · rfl
    · rename_i magic
      rw [bind_value (readHeader_value large)]
      have failed : loadPhHeaders (headerOf file) file = (.missing, file) := by
        rw [loadPhHeaders, get_bind]
        split
        · rfl
        · rename_i address
          split
          · rfl
          · rename_i table
            exact absurd ⟨large, not_not.mp magic, Nat.not_le.mp address, Nat.not_lt.mp table⟩ refused
      rw [bind_missing failed]

theorem loadPhHeaders_accepted (accepted : TableAccepted file) : loadPhHeaders (headerOf file) file =
    (do let regions ← loadPhLoop (headerOf file) (List.range (headerOf file).phNum) []
        if regions.isEmpty then fail else pure regions) file := by
  rw [loadPhHeaders, get_bind, if_neg (Nat.not_le.mpr accepted.address), if_neg (Nat.not_lt.mpr accepted.table)]

theorem loadRegions_accepted (accepted : TableAccepted file) : loadRegions file =
    (do let regions ← loadPhHeaders (headerOf file)
        regionLoops regions) file := by
  have loaded : load file = (do
      let regions ← loadPhHeaders (headerOf file)
      pure ((headerOf file).entryAddr, regions)) file := by
    rw [load, get_bind, if_neg (Nat.not_lt.mpr accepted.size), bind_value (readMagic_value accepted.size),
      if_neg (not_not.mpr accepted.magic), bind_value (readHeader_value accepted.size)]
  rw [loadRegions]
  cases parsed : loadPhHeaders (headerOf file) file with
  | mk outcome after =>
    cases outcome with
    | value regions =>
      rw [bind_value parsed] at loaded ⊢
      rw [bind_value loaded]
      rfl
    | missing =>
      rw [bind_missing parsed] at loaded ⊢
      rw [bind_missing loaded]
    | hang =>
      rw [bind_hang parsed] at loaded ⊢
      rw [bind_hang loaded]

theorem loadPhLoop_range_safe (header : ElfHeader64) (file : List UInt8) :
    (loadPhLoop header (List.range header.phNum) [] file).1 ≠ .hang ↔ ∀ index < header.phNum,
      (∀ earlier < index, rejected header file earlier = false) → Readable header file index := by
  rw [List.range_eq_range', loadPhLoop_safe, Nat.zero_add]
  constructor
  · intro all index inside kept
    exact all index (Nat.zero_le _) inside fun earlier _ below => kept earlier below
  · intro all index _ inside kept
    exact all index inside fun earlier below => kept earlier (Nat.zero_le _) below

/-- Every segment of a file without rejected headers is well sized. -/
theorem wellSized_segments (kept : ∀ index < header.phNum, rejected header file index = false) :
    ∀ region ∈ segments header file, wellSized file region = true := by
  intro region listed
  obtain ⟨index, member, rfl⟩ := List.mem_map.mp listed
  obtain ⟨inside, loads⟩ := List.mem_filter.mp member
  have sized := kept index (List.mem_range.mp inside)
  rw [rejected, loads, Bool.true_and, Bool.not_eq_false'] at sized
  exact sized

/-- The parser links the first and the last segment of a file without rejected headers. -/
theorem loadPhLoop_segments (readable : ∀ index < header.phNum, Readable header file index)
    (kept : ∀ index < header.phNum, rejected header file index = false) :
    loadPhLoop header (List.range header.phNum) [] file = (.value (firstAndLast (segments header file)), file) := by
  rw [loadPhLoop_value [] (fun index member => readable index (List.mem_range.mp member))
    fun index member => kept index (List.mem_range.mp member), foldl_extend, foldl_linkRegion_nil]
  rfl

/-- Parsing stays inside the buffer and its number types exactly when every header that is reached can be read and both
linked regions fit. -/
theorem elf_parsing_safe_iff (file : List UInt8) : (loadRegions file).1 ≠ .hang ↔ (TableAccepted file →
    (∀ index < (headerOf file).phNum, (∀ earlier < index, rejected (headerOf file) file earlier = false) →
      Readable (headerOf file) file index) ∧
    ((∀ index < (headerOf file).phNum, rejected (headerOf file) file index = false) →
      ∀ region ∈ firstAndLast (segments (headerOf file) file), RegionFits region)) := by
  by_cases accepted : TableAccepted file
  · rw [loadRegions_accepted accepted, forall_prop_of_true accepted, ← loadPhLoop_range_safe]
    by_cases kept : ∀ index < (headerOf file).phNum, rejected (headerOf file) file index = false
    · rw [forall_prop_of_true kept]
      by_cases ends : (loadPhLoop (headerOf file) (List.range (headerOf file).phNum) [] file).1 ≠ .hang
      · have readable (index : Nat) (inside : index < (headerOf file).phNum) : Readable (headerOf file) file index :=
          (loadPhLoop_range_safe _ _).mp ends index inside fun earlier below => kept earlier (Nat.lt_trans below inside)
        rw [and_iff_right ends]
        have parsed := loadPhHeaders_accepted accepted
        rw [bind_value (loadPhLoop_segments readable kept)] at parsed
        cases empty : (firstAndLast (segments (headerOf file) file)).isEmpty with
        | true =>
            rw [if_pos empty] at parsed
            rw [bind_missing parsed, List.isEmpty_iff.mp empty]
            exact ⟨fun _ => nofun, fun _ => nofun⟩
        | false =>
            rw [if_neg (by rw [empty]; exact Bool.false_ne_true)] at parsed
            rw [bind_value parsed]
            exact regionLoops_safe fun region listed => wellSized_segments kept region (mem_of_mem_firstAndLast listed)
      · have parsed := loadPhHeaders_accepted accepted
        rw [bind_hang (eq_of_outcome (not_not.mp ends))] at parsed
        rw [bind_hang parsed]
        exact ⟨fun safe => absurd rfl safe, fun safe => absurd safe.1 ends⟩
    · have parsed := loadPhHeaders_accepted accepted
      rw [and_iff_left fun all => absurd all kept]
      cases outcome : (loadPhLoop (headerOf file) (List.range (headerOf file).phNum) [] file).1 with
      | value linked =>
          exact absurd (fun index inside => loadPhLoop_rejected outcome index (List.mem_range.mpr inside)) kept
      | missing =>
          rw [bind_missing (eq_of_outcome outcome)] at parsed
          rw [bind_missing parsed]
          exact ⟨fun _ => nofun, fun _ => nofun⟩
      | hang =>
          rw [bind_hang (eq_of_outcome outcome)] at parsed
          rw [bind_hang parsed]
          exact ⟨fun safe => absurd rfl safe, fun safe => absurd rfl safe⟩
  · rw [loadRegions, bind_missing (load_refused accepted)]
    exact ⟨fun _ claimed => absurd claimed accepted, fun _ => nofun⟩

end Files

/-- This file has one program header of size zero behind its header. -/
def shortFile : List UInt8 :=
  [0x7F, 0x45, 0x4C, 0x46] ++ List.replicate 28 0 ++ [64, 0, 0, 0, 0, 0, 0, 0] ++ List.replicate 16 0 ++ [1, 0] ++
    List.replicate 6 0

/-- The table of this file passes the bounds check, and its only header is read behind the end of the file. -/
theorem elf_parsing_reads_outside :
    TableAccepted shortFile ∧ ¬ Readable (headerOf shortFile) shortFile 0 ∧ (loadRegions shortFile).1 = .hang := by
  refine ⟨⟨by decide, by decide, by decide, by decide⟩, ?_, by decide⟩
  intro readable
  exact absurd readable.kind (by decide)

end BubbleOs.Elf
