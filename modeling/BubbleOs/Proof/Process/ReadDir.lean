import BubbleOs.Construction.Process.Files
import BubbleOs.Proof.Fat.LongName
import BubbleOs.Proof.Fat.Volume

namespace BubbleOs

open Attempt Fat Text SyscallDirEntry

/-- A program sees the bytes of a name and whether it names a directory. -/
def Ulib.DirEntry.shown (entry : Ulib.DirEntry) : List UInt8 × Bool := (entry.nameBytes, entry.isDirectory)

section Records

theorem SyscallDirEntry.length_toBytes (padding : Bytes 3) (entry : SyscallDirEntry) :
    (entry.toBytes padding).length = Ulib.DirEntry.byteSize := by
  simp only [toBytes, List.length_append, Bytes.length_toList, List.length_singleton, length_le32]
  rfl

/-- The program reads the record that the kernel wrote. -/
theorem Ulib.DirEntry.ofBytes_toBytes (padding : Bytes 3) (entry : SyscallDirEntry) (rest : List UInt8) :
    (ofBytes (entry.toBytes padding ++ rest)).name.toList = entry.name.toList ∧
      (ofBytes (entry.toBytes padding ++ rest)).attr = entry.attr ∧
      (ofBytes (entry.toBytes padding ++ rest)).size = entry.size := by
  have length : entry.name.toList.length = 256 := entry.name.length_eq
  have behind (place : Nat) (tail : List UInt8) :
      (entry.name.toList ++ tail).getD (256 + place) 0 = tail.getD place 0 := by
    rw [List.getD_eq_getElem?_getD, List.getElem?_append_right (by omega), length, Nat.add_sub_cancel_left,
      List.getD_eq_getElem?_getD]
  obtain ⟨first, second, third, pad⟩ : ∃ first second third, padding.toList = [first, second, third] :=
    List.length_eq_three.mp padding.length_eq
  have flat : entry.toBytes padding ++ rest =
      entry.name.toList ++ (entry.attr :: first :: second :: third :: (le32 entry.size ++ rest)) := by
    simp only [toBytes, pad, List.append_assoc, List.cons_append, List.nil_append]
  rw [flat]
  refine ⟨?_, behind 0 _, ?_⟩
  · change (Bytes.fill 0 (List.take 256 _) : Bytes 256).toList = _
    rw [List.take_left' length, Bytes.fill_toList _ _ length]
  · rw [ofBytes, behind 4, behind 5, behind 6, behind 7]
    exact ofLe32_le32 entry.size

/-- The program reads all records that the kernel wrote. -/
theorem Ulib.DirEntry.readAll_layout (padding : Nat → Bytes 3) (index : Nat) (entries : List SyscallDirEntry)
    (rest : List UInt8) :
    (readAll entries.length (layout padding index entries ++ rest)).map shown =
      entries.map fun entry =>
        (entry.name.toList.takeWhile (· != 0), entry.attr &&& dirEntryAttrDirectory != 0) := by
  induction entries generalizing index with
  | nil => rfl
  | cons entry later ih =>
    obtain ⟨name, attr, _⟩ := ofBytes_toBytes (padding index) entry
      (layout padding (index + 1) later ++ rest)
    rw [layout, List.append_assoc, List.length_cons, readAll, List.map_cons, List.map_cons,
      List.drop_left' (length_toBytes _ _), ih, shown, nameBytes, isDirectory, name, attr]

end Records

section Names

/-- A record keeps the first bytes of a name without a zero byte. -/
theorem SyscallDirEntry.takeWhile_ofName {name : List Char} (clean : 0 ∉ utf8Bytes name) (attr : UInt8) :
    (ofName name attr).name.toList.takeWhile (· != 0) = (utf8Bytes name).take dirEntryNameCapacity := by
  have short : ((utf8Bytes name).take dirEntryNameCapacity).length ≤ dirEntryNameCapacity := List.length_take_le _ _
  have nonzero : ∀ byte ∈ (utf8Bytes name).take dirEntryNameCapacity, (byte != 0) = true := by
    intro byte member
    rw [bne_iff_ne]
    rintro rfl
    exact clean (List.mem_of_mem_take member)
  have zeros (count : Nat) : (List.replicate count (0 : UInt8)).takeWhile (· != 0) = [] := by
    cases count with
    | zero => rfl
    | succ count => rw [List.replicate_succ, List.takeWhile_cons_of_neg (by decide)]
  simp only [ofName, Bytes.fill]
  rw [Nat.min_comm, ← List.take_eq_take_min, List.take_append, List.take_of_length_le short, List.take_replicate,
    List.takeWhile_append_of_pos nonzero, zeros, List.append_nil]

/-- Only the null character has a zero byte. -/
theorem zero_mem_utf8Bytes {name : List Char} : 0 ∈ utf8Bytes name ↔ '\x00' ∈ name := by
  rw [utf8Bytes, List.mem_flatMap]
  constructor
  · rintro ⟨char, member, zero⟩
    rw [← (@mem_utf8EncodeChar_ascii char '\x00' (by decide)).mp zero]
    exact member
  · intro member
    exact ⟨_, member, (@mem_utf8EncodeChar_ascii '\x00' '\x00' (by decide)).mpr rfl⟩

variable [Unicode] {names : List (List Char × Bool)}

/-- A null character is not valid in a short name. -/
theorem invalid_of_null {text : List Char} (member : '\x00' ∈ text) :
    (Fat.utf8Bytes (toUppercase text)).any isInvalidShortNameByte = true := by
  have upper : '\x00' ∈ toUppercase text := by
    refine List.mem_flatMap.mpr ⟨_, member, ?_⟩
    rw [Unicode.upper_ascii _ (by decide)]
    exact List.mem_singleton_self _
  have zero : 0 ∈ Fat.utf8Bytes (toUppercase text) := zero_mem_utf8Bytes.mpr upper
  exact List.any_eq_true.mpr ⟨0, zero, rfl⟩

/-- The driver accepts a name, or it is one of the dot entries. -/
def Accepted (name : List Char) : Prop :=
  (getFatFilename name).isSome = true ∨ (encodeLongFilename name).isSome = true ∨ name = ['.'] ∨ name = ['.', '.']

/-- An accepted name has no zero byte. -/
theorem Accepted.clean {name : List Char} (accepted : Accepted name) : 0 ∉ utf8Bytes name := by
  rw [zero_mem_utf8Bytes]
  intro null
  rcases accepted with short | long | rfl | rfl
  · rw [← List.takeWhile_append_dropWhile (p := (· != '.')) (l := name), List.mem_append] at null
    have invalid : (Fat.utf8Bytes (toUppercase (name.takeWhile (· != '.'))) ++
        Fat.utf8Bytes (toUppercase ((name.dropWhile (· != '.')).drop 1))).any isInvalidShortNameByte = true := by
      rw [List.any_append, Bool.or_eq_true]
      rcases null with front | back
      · exact .inl (invalid_of_null front)
      · right
        apply invalid_of_null
        have stops := List.head?_dropWhile_not (· != '.') name
        cases found : name.dropWhile (· != '.') with
        | nil =>
          rw [found] at back
          cases back
        | cons dot rest =>
          rw [found] at back stops
          rcases List.mem_cons.mp back with same | later
          · rw [← same] at stops
            simp at stops
          · exact later
    simp only [getFatFilename, invalid, Bool.or_true, if_true, Option.isSome_none] at short
    cases short
  · obtain ⟨units, encoded⟩ := Option.isSome_iff_exists.mp long
    exact (encodeLongFilename_eq_some encoded).2.2.1 _ null rfl
  · exact absurd null (by decide)
  · exact absurd null (by decide)

/-- The subdirectories come before the files. -/
def listing (directories files : List (List Char)) : List (List Char × Bool) :=
  directories.map (fun name => (name, true)) ++ files.map fun name => (name, false)

omit [Unicode] in
/-- The kernel collects the first names of the listing. -/
theorem SyscallDirEntry.collect_eq (directories files : List (List Char)) (maxItems : Nat) :
    collect directories files maxItems =
      ((listing directories files).take maxItems).map fun item => ofName item.1 (if item.2 then 0x10 else 0) := by
  rw [collect, listing, List.take_append, List.map_append, List.map_take, List.map_take, List.map_map, List.map_map]
  simp only [List.length_map, List.length_take]
  congr 2
  omega

/-- The names reach the program in order and with their kinds, every one is a text, and they stay different. -/
structure NamesSurvive (names : List (List Char × Bool)) (shown : List (List UInt8 × Bool)) : Prop where
  exact : shown = names.map fun item => (utf8Bytes item.1, item.2)
  valid : ∀ item ∈ shown, (fromUtf8 item.1).isSome = true
  distinct : (names.map Prod.fst).Nodup → (shown.map Prod.fst).Nodup

omit [Unicode] in
theorem namesSurvive_of_exact {shown : List (List UInt8 × Bool)}
    (exact : shown = names.map fun item => (utf8Bytes item.1, item.2)) : NamesSurvive names shown := by
  subst exact
  refine ⟨rfl, ?_, ?_⟩
  · intro item member
    obtain ⟨name, _, rfl⟩ := List.mem_map.mp member
    rw [fromUtf8_utf8Bytes]
    rfl
  · intro different
    have composed : (names.map fun item => (utf8Bytes item.1, item.2)).map Prod.fst =
        (names.map Prod.fst).map utf8Bytes := by
      rw [List.map_map, List.map_map]
      rfl
    rw [composed]
    exact different.map fun _ _ same => utf8Bytes_injective same

/-- The program sees the first bytes of every accepted name. -/
theorem shown_collected (accepted : ∀ item ∈ names, Accepted item.1) (padding : Nat → Bytes 3) (rest : List UInt8) :
    (Ulib.DirEntry.readAll names.length (layout padding 0
        (names.map fun item => ofName item.1 (if item.2 then 0x10 else 0)) ++ rest)).map
          Ulib.DirEntry.shown =
      names.map fun item => ((utf8Bytes item.1).take dirEntryNameCapacity, item.2) := by
  have kind (flag : Bool) : ((if flag then 0x10 else 0) &&& Ulib.dirEntryAttrDirectory != (0 : UInt8)) = flag := by
    cases flag <;> rfl
  have shown := Ulib.DirEntry.readAll_layout padding 0
    (names.map fun item => ofName item.1 (if item.2 then 0x10 else 0)) rest
  rw [List.length_map, List.map_map] at shown
  rw [shown]
  apply List.map_congr_left
  intro item member
  exact Prod.ext (takeWhile_ofName (accepted item member).clean _) (kind item.2)

omit [Unicode] in
/-- The first bytes of the names are the names exactly when every name fits. -/
theorem namesSurvive_take_iff :
    NamesSurvive names (names.map fun item => ((utf8Bytes item.1).take dirEntryNameCapacity, item.2)) ↔
      ∀ item ∈ names, (utf8Bytes item.1).length ≤ dirEntryNameCapacity := by
  constructor
  · intro survive item member
    have same : (utf8Bytes item.1).take dirEntryNameCapacity = utf8Bytes item.1 :=
      congrArg Prod.fst (List.map_inj_left.mp survive.exact item member)
    have length := congrArg List.length same
    rw [List.length_take] at length
    omega
  · intro fit
    apply namesSurvive_of_exact
    apply List.map_congr_left
    intro item member
    rw [List.take_of_length_le (fit item member)]

variable {P : Type} [Port P]

/-- A program with a buffer for its records sees the first names of the working directory exactly when they fit. -/
theorem readDir_names_iff (system : Kernel P) (cwd : FATDirectory) (directories : List FATDirectory)
    (files : List FATFile) (volume : FATFileSystem P) (maxItems : Nat) (writable : Nat → Bool)
    (padding : Nat → Bytes 3) (buffer : List UInt8)
    (current : Kernel.getCurrentCwd system = (.value cwd, system))
    (listed : cwd.listDir system.volume = (.value (directories, files), volume))
    (addressable : maxItems * SyscallDirEntry.byteSize < Process.usizeLimit)
    (valid : ∀ size ≤ maxItems * SyscallDirEntry.byteSize, writable size = true)
    (accepted : ∀ name ∈ directories.map (·.name) ++ files.map (·.name), Accepted name) :
    ∃ count memory, Kernel.readDir maxItems writable padding buffer system =
        (.value (count, memory), { system with volume := volume }) ∧
      let names := (listing (directories.map (·.name)) (files.map (·.name))).take maxItems
      (NamesSurvive names ((Ulib.DirEntry.readAll count memory).map Ulib.DirEntry.shown) ↔
        ∀ item ∈ names, (utf8Bytes item.1).length ≤ dirEntryNameCapacity) := by
  have entries : Kernel.onVolume cwd.listDir system = (.value (directories, files), { system with volume := volume }) := by
    rw [Kernel.onVolume, listed]
  have collected := SyscallDirEntry.collect_eq (directories.map (·.name)) (files.map (·.name)) maxItems
  generalize found : (listing (directories.map (·.name)) (files.map (·.name))).take maxItems = names at collected
  have few : names.length ≤ maxItems := by
    rw [← found]
    exact List.length_take_le _ _
  have room : SyscallDirEntry.byteSize * names.length ≤ maxItems * SyscallDirEntry.byteSize := by
    rw [Nat.mul_comm]
    exact Nat.mul_le_mul_right _ few
  have good : ∀ item ∈ names, Accepted item.1 := by
    intro item member
    apply accepted
    rw [← found] at member
    rcases List.mem_append.mp (List.mem_of_mem_take member) with directory | file
    · obtain ⟨name, inside, rfl⟩ := List.mem_map.mp directory
      exact List.mem_append_left _ inside
    · obtain ⟨name, inside, rfl⟩ := List.mem_map.mp file
      exact List.mem_append_right _ inside
  refine ⟨names.length, overwrite buffer 0 (SyscallDirEntry.layout padding 0
    (names.map fun item => SyscallDirEntry.ofName item.1 (if item.2 then 0x10 else 0))), ?_, ?_⟩
  · rw [Kernel.readDir, if_neg (Nat.not_le_of_lt addressable), valid _ (Nat.le_refl _), Bool.not_true,
      if_neg Bool.false_ne_true, bind_value current, bind_value entries]
    dsimp only
    rw [collected, List.length_map, valid _ room, Bool.not_true, if_neg Bool.false_ne_true]
    rfl
  · dsimp only
    rw [overwrite, List.take_zero, List.nil_append, shown_collected good padding]
    exact namesSurvive_take_iff

end Names

section Named

/-- The root directory of this volume holds one file, and no process is running. -/
def namedKernel (name : List Char) : Kernel SectorArray :=
  ⟨(@FATFileSystem.createFile _ _ asciiTables FATFileSystem.freshVolume.root name FATFileSystem.freshVolume).2, [], 0⟩

/-- A program sees the only file of its directory. -/
theorem readDir_names_letter :
    ∃ count memory, (@Kernel.readDir _ _ asciiTables 5 (fun _ => true) (fun _ => Bytes.fill 0 [])
        (List.replicate 1320 0) (namedKernel ['a'])).1 = .value (count, memory) ∧
      NamesSurvive [(['a'], false)] ((Ulib.DirEntry.readAll count memory).map Ulib.DirEntry.shown) := by
  let root : FATDirectory := (namedKernel ['a']).volume.rootDir
  let file : FATFile := ⟨blankEntry (Bytes.fill 0x20 [0x41]) 0x20, ['a'], ⟨2, 0, 0⟩⟩
  have listed : @FATDirectory.listDir _ _ asciiTables root (namedKernel ['a']).volume = (.value ([], [file]), _) :=
    eq_of_outcome (by decide +kernel)
  have accepted : ∀ name ∈ ([] : List FATDirectory).map (·.name) ++ [file].map (·.name),
      @Accepted asciiTables name := by
    intro name member
    obtain rfl := List.mem_singleton.mp member
    exact .inl (by decide)
  obtain ⟨count, memory, returned, iff⟩ := @readDir_names_iff asciiTables _ _ (namedKernel ['a']) root [] [file] _ 5
    (fun _ => true) (fun _ => Bytes.fill 0 []) (List.replicate 1320 0) rfl listed (by decide) (fun _ _ => rfl) accepted
  refine ⟨count, memory, by rw [returned], iff.mpr ?_⟩
  intro item member
  obtain rfl := List.mem_singleton.mp member
  decide

/-- This name has fewer units than a long name may have and more bytes than a record takes. -/
def accentedName : List Char := List.replicate 129 'é'

/-- A program sees these entries after the call. -/
def shownBy : Outcome (Nat × List UInt8) → List (List UInt8 × Bool)
  | .value result => (Ulib.DirEntry.readAll result.1 result.2).map Ulib.DirEntry.shown
  | _ => []

/-- A program does not see the end of a long name with accents. -/
theorem readDir_cuts_name :
    (encodeLongFilename accentedName).isSome = true ∧
      shownBy (@Kernel.readDir _ _ asciiTables 1 (fun _ => true) (fun _ => Bytes.fill 0 []) (List.replicate 264 0)
        (namedKernel accentedName)).1 = [((utf8Bytes accentedName).take 256, false)] ∧
      (utf8Bytes accentedName).take 256 ≠ utf8Bytes accentedName := by
  decide +kernel

end Named

end BubbleOs
