import BubbleOs.Construction.Fat.Path
import BubbleOs.Proof.Fat.Buffer
import BubbleOs.Proof.Fat.Entry

namespace BubbleOs.Fat

/-- No access in this range fails. -/
def Clear (faults : Nat → Bool) (start count : Nat) : Prop :=
  ∀ access, start ≤ access → access < start + count → faults access = false

section Clear

variable {faults : Nat → Bool} {start count : Nat}

theorem clear_zero (faults : Nat → Bool) (start : Nat) : Clear faults start 0 :=
  fun _ low high => absurd high (Nat.not_lt.mpr low)

theorem Clear.part (clear : Clear faults start count) {first length : Nat} (low : start ≤ first)
    (high : first + length ≤ start + count) : Clear faults first length :=
  fun access above below => clear access (Nat.le_trans low above) (Nat.lt_of_lt_of_le below high)

theorem Clear.append (clear : Clear faults start count) {more : Nat} (later : Clear faults (start + count) more) :
    Clear faults start (count + more) := by
  intro access low high
  by_cases first : access < start + count
  · exact clear access low first
  · exact later access (Nat.not_lt.mp first) (by omega)

theorem clear_one (works : faults start = false) : Clear faults start 1 := by
  intro access low high
  rw [show access = start by omega]
  exact works

theorem clear_add_iff {start count more : Nat} :
    Clear faults start (count + more) ↔ Clear faults start count ∧ Clear faults (start + count) more :=
  ⟨fun clear => ⟨clear.part (Nat.le_refl _) (by omega), clear.part (by omega) (by omega)⟩, fun both => both.1.append both.2⟩

theorem not_clear {start count done : Nat} (less : done < count) (fault : faults (start + done) = true) :
    ¬ Clear faults start count := by
  intro clear
  rw [clear (start + done) (by omega) (by omega)] at fault
  exact Bool.false_ne_true fault

end Clear

/-- A disk is placed by its contents and the number of its accesses. An access that fails has no effect. -/
structure Counts {P : Type} [Port P] (place : SectorArray → Nat → P) (faults : Nat → Bool) : Prop where
  read_works : ∀ {disk access sector count}, faults access = false → 0 < count →
    Port.read (place disk access) sector count = (some (disk.readSectors sector count), place disk (access + 1))
  read_fails : ∀ {disk access sector count}, faults access = true →
    Port.read (place disk access) sector count = (none, place disk (access + 1))
  write_works : ∀ {disk access sector count}, faults access = false → 0 < count → ∀ buffer,
    Port.writeSectors (place disk access) sector count buffer =
      (true, place (disk.replaceSectors sector count buffer) (access + 1))
  write_fails : ∀ {disk access sector count}, faults access = true → ∀ buffer,
    Port.writeSectors (place disk access) sector count buffer = (false, place disk (access + 1))

/-- This pattern has no fault. -/
def never (_ : Nat) : Bool := false

theorem clear_never (start count : Nat) : Clear never start count := fun _ _ _ => rfl

/-- Without a fault only the first outcome is possible. -/
theorem of_never {start count : Nat} {works fails : Prop}
    (outcome : Clear never start count ∧ works ∨ ¬ Clear never start count ∧ fails) : works :=
  (outcome.resolve_right fun stopped => stopped.1 (clear_never start count)).2

/-- A disk that never fails need not count. -/
theorem counts_reliable : Counts (fun (disk : SectorArray) _ => disk) never where
  read_works _ some_ := by simp only [Port.read, if_neg (Nat.ne_of_gt some_)]
  read_fails fault := absurd fault Bool.false_ne_true
  write_works _ some_ _ := by simp only [Port.writeSectors, if_neg (Nat.ne_of_gt some_)]
  write_fails fault _ := absurd fault Bool.false_ne_true

theorem counts_faulty (faults : Nat → Bool) : Counts (fun disk access => (⟨disk, faults, access⟩ : FaultyDisk)) faults where
  read_works works some_ := by simp only [Port.read, works, Nat.ne_of_gt some_, Bool.false_eq_true, if_false]
  read_fails fault := by simp only [Port.read, fault, if_true]
  write_works works some_ _ := by
    simp only [Port.writeSectors, works, Nat.ne_of_gt some_, Bool.false_eq_true, if_false]
  write_fails fault _ := by simp only [Port.writeSectors, fault, if_true]

open Attempt SectorArray

namespace SectorArray

@[simp] theorem length_readSectors (disk : SectorArray) (sector count : Nat) :
    (disk.readSectors sector count).length = sectorSize * count := by
  induction count generalizing sector with
  | zero => rfl
  | succ count ih =>
    have rest := ih (sector + 1)
    simp only [readSectors] at rest
    simp only [readSectors, List.range'_succ, List.flatMap_cons, List.length_append, rest,
      Bytes.length_toList, sectorSize]
    omega

theorem readSectors_succ (disk : SectorArray) (sector count : Nat) :
    disk.readSectors sector (count + 1) =
      disk.readSectors sector count ++ (disk.sectors (sector + count)).toList := by
  simp [readSectors, List.range'_concat]

/-- Equal sectors give equal bytes. -/
theorem readSectors_congr {first second : SectorArray} {sector count : Nat}
    (same : ∀ index, sector ≤ index → index < sector + count → first.sectors index = second.sectors index) :
    first.readSectors sector count = second.readSectors sector count := by
  simp only [readSectors]
  apply List.flatMap_congr
  intro index member
  rw [List.mem_range'_1] at member
  rw [same index member.1 member.2]

/-- A written buffer is read back. -/
theorem readSectors_replace_same (disk : SectorArray) (sector count : Nat) (buffer : List UInt8)
    (exact : buffer.length = sectorSize * count) :
    (disk.replaceSectors sector count buffer).readSectors sector count = buffer := by
  have part (taken : Nat) (inside : taken ≤ count) :
      (disk.replaceSectors sector count buffer).readSectors sector taken = buffer.take (sectorSize * taken) := by
    induction taken with
    | zero => simp [readSectors]
    | succ taken ih =>
      have stored : ((disk.replaceSectors sector count buffer).sectors (sector + taken)).toList =
          (buffer.drop (sectorSize * taken)).take sectorSize := by
        simp only [replaceSectors]
        rw [if_pos (by omega), Nat.add_sub_cancel_left, Bytes.fill_toList]
        simp only [List.length_take, List.length_drop, exact, sectorSize]
        omega
      rw [readSectors_succ, ih (by omega), stored, Nat.mul_succ, List.take_add]
  rw [part count (Nat.le_refl _), ← exact, List.take_length]

/-- A write leaves other sectors. -/
theorem readSectors_replace_other (disk : SectorArray) (sector count other amount : Nat) (buffer : List UInt8)
    (apart : other + amount ≤ sector ∨ sector + count ≤ other) :
    (disk.replaceSectors sector count buffer).readSectors other amount = disk.readSectors other amount := by
  apply readSectors_congr
  intro index low high
  simp only [replaceSectors]
  rw [if_neg (by omega)]

end SectorArray

/-- A volume is the driver state over a disk that never fails. -/
abbrev Volume := FATFileSystem SectorArray

namespace FATFileSystem

/-- The boot sector describes a FAT32 volume on 512-byte sectors, with the whole table in memory. -/
structure Geometry (fs : Volume) : Prop where
  sectors : fs.bs.bytesPerSector.toNat = sectorSize
  clusters : 0 < fs.bs.sectorsPerCluster.toNat
  fat32 : fs.bs.tableSize16 = 0
  populated : 0 < fs.bs32.tableSize.toNat
  table : fs.fat.entries = fs.bs32.tableSize.toNat * 128
  limit : fs.fat.entries ≤ 0x0FFFFFF7

/-- The first words of this table mark the root directory. -/
def freshFat : FatBuffer := { fat := [0x0FFFFFF8, 0x0FFFFFFF, 0x0FFFFFFF] ++ List.replicate 125 0 }

/-- This volume has an empty root directory in cluster two and no other cluster in use. -/
def freshVolume : Volume where
  port := { sectors := fun sector => Bytes.fill 0 (if sector = 1 then freshFat.toBytes else []) }
  fat := freshFat
  bs := ⟨512, 1, 1, 1, 0, 256⟩
  bs32 := ⟨1, 2⟩

/-- The fresh volume is a FAT32 volume. -/
theorem geometry_freshVolume : Geometry freshVolume where
  sectors := rfl
  clusters := by decide
  fat32 := rfl
  populated := by decide
  table := by decide +kernel
  limit := by decide +kernel

/-- A cluster starts at this sector. -/
def clusterStart (fs : Volume) (cluster : Nat) : Nat :=
  fs.firstDataSector + (cluster - 2) * fs.bs.sectorsPerCluster.toNat

/-- These bytes are stored in a cluster. -/
def clusterBytes (fs : Volume) (cluster : Nat) : List UInt8 :=
  fs.port.readSectors (fs.clusterStart cluster) fs.bs.sectorsPerCluster.toNat

/-- These bytes are stored in one copy of the table. -/
def fatCopy (fs : Volume) (tableIndex : Nat) : List UInt8 :=
  fs.port.readSectors (fs.fatStartSector tableIndex) fs.sectorsPerFat

/-- Every copy on disk equals the table in memory. -/
def Synced (fs : Volume) : Prop := ∀ tableIndex < fs.bs.tableCount.toNat, fs.fatCopy tableIndex = fs.fat.toBytes

/-- This volume differs in the bytes of one cluster. -/
def withCluster (fs : Volume) (cluster : Nat) (buffer : List UInt8) : Volume :=
  { fs with port := fs.port.replaceSectors (fs.clusterStart cluster) fs.bs.sectorsPerCluster.toNat buffer }

/-- This volume differs in the table in memory. -/
def withFat (fs : Volume) (fat : FatBuffer) : Volume := { fs with fat := fat }

/-- The volume on a disk that counts its accesses. -/
def on {P : Type} (fs : Volume) (place : SectorArray → Nat → P) (access : Nat) : FATFileSystem P where
  port := place fs.port access
  fat := fs.fat
  bs := fs.bs
  bs32 := fs.bs32

section Geometry

variable {fs : Volume}

theorem Geometry.clusterSize_eq (geometry : Geometry fs) :
    fs.clusterSize = sectorSize * fs.bs.sectorsPerCluster.toNat := by
  rw [clusterSize, geometry.sectors]

theorem Geometry.clusterSize_pos (geometry : Geometry fs) : 0 < fs.clusterSize := by
  have positive := geometry.clusters
  rw [geometry.clusterSize_eq, sectorSize]
  omega

theorem Geometry.sectorsPerFat_eq (geometry : Geometry fs) : fs.sectorsPerFat = fs.bs32.tableSize.toNat := by
  simp [sectorsPerFat, geometry.fat32]

theorem Geometry.length_toBytes (geometry : Geometry fs) :
    fs.fat.toBytes.length = sectorSize * fs.sectorsPerFat := by
  have words (words : List UInt32) : (words.flatMap le32).length = 4 * words.length := by
    induction words with
    | nil => rfl
    | cons word rest ih =>
      rw [List.flatMap_cons, List.length_append, ih, length_le32, List.length_cons]
      omega
  have table := geometry.table
  rw [FatBuffer.entries] at table
  rw [FatBuffer.toBytes, words, table, geometry.sectorsPerFat_eq, sectorSize]
  omega

theorem Geometry.length_clusterBytes (geometry : Geometry fs) (cluster : Nat) :
    (fs.clusterBytes cluster).length = fs.clusterSize := by
  rw [clusterBytes, length_readSectors, geometry.clusterSize_eq]

/-- Different clusters use different sectors. -/
theorem clusterStart_apart {cluster other : Nat} (low : 2 ≤ cluster) (otherLow : 2 ≤ other)
    (different : other ≠ cluster) :
    fs.clusterStart other + fs.bs.sectorsPerCluster.toNat ≤ fs.clusterStart cluster ∨
      fs.clusterStart cluster + fs.bs.sectorsPerCluster.toNat ≤ fs.clusterStart other := by
  simp only [clusterStart]
  rcases Nat.lt_or_gt_of_ne different with below | above
  · left
    have product := Nat.mul_le_mul_right fs.bs.sectorsPerCluster.toNat (show other - 2 + 1 ≤ cluster - 2 by omega)
    rw [Nat.succ_mul] at product
    omega
  · right
    have product := Nat.mul_le_mul_right fs.bs.sectorsPerCluster.toNat (show cluster - 2 + 1 ≤ other - 2 by omega)
    rw [Nat.succ_mul] at product
    omega

/-- Every copy of the table ends before the data clusters. -/
theorem Geometry.copy_before_data (geometry : Geometry fs) {tableIndex : Nat}
    (inside : tableIndex < fs.bs.tableCount.toNat) (cluster : Nat) :
    fs.fatStartSector tableIndex + fs.sectorsPerFat ≤ fs.clusterStart cluster := by
  have product := Nat.mul_le_mul_right fs.sectorsPerFat (show tableIndex + 1 ≤ fs.bs.tableCount.toNat from inside)
  rw [Nat.succ_mul] at product
  simp only [fatStartSector, clusterStart, firstDataSector, ← geometry.sectorsPerFat_eq]
  omega

end Geometry

section Changes

variable {fs : Volume}

@[simp] theorem fat_withCluster (cluster : Nat) (buffer : List UInt8) :
    (fs.withCluster cluster buffer).fat = fs.fat := rfl

/-- A write changes the bytes of its own cluster only. -/
theorem clusterBytes_withCluster (geometry : Geometry fs) {cluster other : Nat} (low : 2 ≤ cluster)
    (otherLow : 2 ≤ other) {buffer : List UInt8} (exact : buffer.length = fs.clusterSize) :
    (fs.withCluster cluster buffer).clusterBytes other =
      if other = cluster then buffer else fs.clusterBytes other := by
  rw [geometry.clusterSize_eq] at exact
  split
  · rename_i same
    subst same
    exact readSectors_replace_same _ _ _ _ exact
  · rename_i different
    exact readSectors_replace_other _ _ _ _ _ _ (clusterStart_apart low otherLow different)

/-- A write to a cluster leaves every copy of the table. -/
theorem synced_withCluster (geometry : Geometry fs) (synced : Synced fs) (cluster : Nat) (buffer : List UInt8) :
    Synced (fs.withCluster cluster buffer) := by
  intro tableIndex inside
  rw [fat_withCluster, ← synced tableIndex inside]
  exact readSectors_replace_other _ _ _ _ _ _ (.inl (geometry.copy_before_data inside cluster))

@[simp] theorem fat_withFat (fat : FatBuffer) : (fs.withFat fat).fat = fat := rfl

end Changes

/-- A step changes only the given words of the table and the given clusters. -/
structure Frame (before after : Volume) (words clusters : Nat → Prop) : Prop where
  bs : after.bs = before.bs
  bs32 : after.bs32 = before.bs32
  size : after.fat.entries = before.fat.entries
  word : ∀ cluster, ¬ words cluster → after.fat.word cluster = before.fat.word cluster
  data : ∀ cluster, 2 ≤ cluster → ¬ clusters cluster → after.clusterBytes cluster = before.clusterBytes cluster

namespace Frame

variable {before between after : Volume} {words clusters moreWords moreClusters : Nat → Prop}

theorem refl (fs : Volume) (words clusters : Nat → Prop) : Frame fs fs words clusters :=
  ⟨rfl, rfl, rfl, fun _ _ => rfl, fun _ _ _ => rfl⟩

theorem trans (first : Frame before between words clusters) (second : Frame between after words clusters) :
    Frame before after words clusters where
  bs := second.bs.trans first.bs
  bs32 := second.bs32.trans first.bs32
  size := second.size.trans first.size
  word cluster outside := (second.word cluster outside).trans (first.word cluster outside)
  data cluster low outside := (second.data cluster low outside).trans (first.data cluster low outside)

variable (frame : Frame before after words clusters)

include frame

theorem mono (moreOfWords : ∀ cluster, words cluster → moreWords cluster)
    (moreOfClusters : ∀ cluster, clusters cluster → moreClusters cluster) :
    Frame before after moreWords moreClusters where
  bs := frame.bs
  bs32 := frame.bs32
  size := frame.size
  word cluster outside := frame.word cluster fun inside => outside (moreOfWords cluster inside)
  data cluster low outside := frame.data cluster low fun inside => outside (moreOfClusters cluster inside)

/-- A framed step keeps the geometry. -/
theorem geometry (geometry : Geometry before) : Geometry after where
  sectors := by rw [frame.bs, geometry.sectors]
  clusters := by rw [frame.bs]; exact geometry.clusters
  fat32 := by rw [frame.bs, geometry.fat32]
  populated := by rw [frame.bs32]; exact geometry.populated
  table := by rw [frame.size, frame.bs32, geometry.table]
  limit := by rw [frame.size]; exact geometry.limit

theorem clusterSize_eq : after.clusterSize = before.clusterSize := by
  rw [clusterSize, clusterSize, frame.bs]

end Frame

variable {fs : Volume}

/-- A write to a cluster changes only that cluster. -/
theorem frame_withCluster (geometry : Geometry fs) {cluster : Nat} (low : 2 ≤ cluster) {buffer : List UInt8}
    (exact : buffer.length = fs.clusterSize) :
    Frame fs (fs.withCluster cluster buffer) (fun _ => False) (· = cluster) where
  bs := rfl
  bs32 := rfl
  size := rfl
  word _ _ := rfl
  data other otherLow different := by
    rw [clusterBytes_withCluster geometry low otherLow exact, if_neg different]

/-- A new table in memory changes no cluster. -/
theorem frame_withFat {fat : FatBuffer} (size : fat.entries = fs.fat.entries) {words : Nat → Prop}
    (same : ∀ cluster, ¬ words cluster → fat.word cluster = fs.fat.word cluster) (clusters : Nat → Prop) :
    Frame fs (fs.withFat fat) words clusters :=
  ⟨rfl, rfl, size, same, fun _ _ _ => rfl⟩

theorem on_faulty (fs : Volume) (faults : Nat → Bool) (access : Nat) :
    fs.on (fun disk access => (⟨disk, faults, access⟩ : FaultyDisk)) access = fs.faulty faults access := rfl

@[simp] theorem standing_faulty (fs : Volume) (faults : Nat → Bool) (accesses : Nat) :
    (fs.faulty faults accesses).standing = fs := rfl

section Counted

variable {P : Type} {place : SectorArray → Nat → P} {fs : Volume} {access cluster : Nat}

theorem getSector_on (low : 2 ≤ cluster) :
    getSector cluster (fs.on place access) = (.value (fs.clusterStart cluster), fs.on place access) := by
  rw [getSector, get_bind, if_neg (Nat.not_lt.mpr low)]
  rfl

theorem onFat_on {A : Type} {operation : Attempt FatBuffer A} {result : Outcome A} {after : FatBuffer}
    (returned : operation fs.fat = (result, after)) :
    onFat operation (fs.on place access) = (result, (fs.withFat after).on place access) := by
  simp only [onFat, on, returned]
  rfl

variable [Port P] {faults : Nat → Bool} (disk : Counts place faults)

include disk

theorem readCluster_fails (low : 2 ≤ cluster) (fault : faults access = true) :
    readCluster cluster (fs.on place access) = (.missing, fs.on place (access + 1)) := by
  rw [readCluster, bind_value (getSector_on low), get_bind]
  simp only [on, disk.read_fails fault]
  rfl

theorem readCluster_works (geometry : Geometry fs) (low : 2 ≤ cluster) (works : faults access = false) :
    readCluster cluster (fs.on place access) = (.value (fs.clusterBytes cluster), fs.on place (access + 1)) := by
  have length := geometry.length_clusterBytes cluster
  rw [readCluster, bind_value (getSector_on low), get_bind]
  simp only [on, disk.read_works works geometry.clusters]
  refine Prod.ext (congrArg Outcome.value ?_) rfl
  change (fs.clusterBytes cluster ++ _).take fs.clusterSize = _
  rw [List.take_append_of_le_length (by omega), List.take_of_length_le (by omega)]

theorem writeCluster_fails (low : 2 ≤ cluster) (fault : faults access = true) (buffer : List UInt8) :
    writeCluster cluster buffer (fs.on place access) = (.value false, fs.on place (access + 1)) := by
  rw [writeCluster, bind_value (getSector_on low), get_bind]
  simp only [on, disk.write_fails fault]
  rfl

theorem writeCluster_works (geometry : Geometry fs) (low : 2 ≤ cluster) (works : faults access = false)
    (buffer : List UInt8) : writeCluster cluster buffer (fs.on place access) =
      (.value true, (fs.withCluster cluster buffer).on place (access + 1)) := by
  rw [writeCluster, bind_value (getSector_on low), get_bind]
  simp only [on, disk.write_works works geometry.clusters]
  rfl

/-- The copies of the table are written up to the first failure, and no other sector changes. -/
theorem persistFatLoop_counted (geometry : Geometry fs) (remaining tableIndex access : Nat) : ∃ port : SectorArray,
    (∀ sector, sector < fs.fatStartSector tableIndex ∨ fs.fatStartSector (tableIndex + remaining) ≤ sector →
      port.sectors sector = fs.port.sectors sector) ∧
    ((Clear faults access remaining ∧
        (∀ index, tableIndex ≤ index → index < tableIndex + remaining →
          port.readSectors (fs.fatStartSector index) fs.sectorsPerFat = fs.fat.toBytes) ∧
        persistFatLoop remaining tableIndex (fs.on place access) =
          (.value (), ({ fs with port := port } : Volume).on place (access + remaining))) ∨
      (¬ Clear faults access remaining ∧ ∃ next, persistFatLoop remaining tableIndex (fs.on place access) =
        (.missing, ({ fs with port := port } : Volume).on place next))) := by
  have positive : 0 < fs.sectorsPerFat := by
    rw [geometry.sectorsPerFat_eq]
    exact geometry.populated
  induction remaining generalizing fs tableIndex access with
  | zero => exact ⟨fs.port, fun _ _ => rfl, .inl ⟨clear_zero faults access, fun index low high => by omega, rfl⟩⟩
  | succ remaining ih =>
    have next : fs.fatStartSector (tableIndex + 1) = fs.fatStartSector tableIndex + fs.sectorsPerFat := by
      simp only [fatStartSector, Nat.succ_mul]
      omega
    have last : fs.fatStartSector (tableIndex + 1) ≤ fs.fatStartSector (tableIndex + 1 + remaining) := by
      simp only [fatStartSector]
      have product := Nat.mul_le_mul_right fs.sectorsPerFat (show tableIndex + 1 ≤ tableIndex + 1 + remaining by omega)
      omega
    have shift : tableIndex + 1 + remaining = tableIndex + (remaining + 1) := by omega
    rw [shift] at last
    cases works : faults access with
    | true =>
      refine ⟨fs.port, fun _ _ => rfl, .inr ⟨not_clear (Nat.succ_pos _) works, access + 1, ?_⟩⟩
      rw [persistFatLoop, get_bind]
      simp only [on, disk.write_fails works]
      rfl
    | false =>
      let written : Volume :=
        { fs with port := fs.port.replaceSectors (fs.fatStartSector tableIndex) fs.sectorsPerFat fs.fat.toBytes }
      have step : persistFatLoop (remaining + 1) tableIndex (fs.on place access) =
          persistFatLoop remaining (tableIndex + 1) (written.on place (access + 1)) := by
        rw [persistFatLoop, get_bind]
        have transfer : Port.writeSectors (fs.on place access).port ((fs.on place access).fatStartSector tableIndex)
            (fs.on place access).sectorsPerFat (fs.on place access).fat.toBytes =
              (true, place written.port (access + 1)) := disk.write_works works positive _
        rw [transfer]
        rfl
      have kept : Geometry written := ⟨geometry.sectors, geometry.clusters, geometry.fat32, geometry.populated,
        geometry.table, geometry.limit⟩
      obtain ⟨port, frame, outcome⟩ := ih kept (tableIndex + 1) (access + 1) positive
      refine ⟨port, ?_, ?_⟩
      · intro sector outside
        rw [frame sector]
        · simp only [written, replaceSectors]
          rw [if_neg (by omega)]
        · change sector < fs.fatStartSector (tableIndex + 1) ∨ fs.fatStartSector (tableIndex + 1 + remaining) ≤ sector
          rw [shift]
          omega
      · rw [step, Nat.add_comm remaining 1, ← Nat.add_assoc access, clear_add_iff, and_iff_right (clear_one works)]
        refine outcome.imp_left (And.imp_right (And.imp_left fun copies index low high => ?_))
        by_cases first : index = tableIndex
        · subst first
          have first : port.readSectors (fs.fatStartSector index) fs.sectorsPerFat =
              written.port.readSectors (fs.fatStartSector index) fs.sectorsPerFat := by
            apply readSectors_congr
            intro sector _ below
            apply frame
            left
            change sector < fs.fatStartSector (index + 1)
            omega
          rw [first]
          exact readSectors_replace_same _ _ _ _ geometry.length_toBytes
        · exact copies index (by omega) (by omega)

/-- A save of the table keeps the table in memory and every cluster, and it succeeds when no write fails. -/
theorem persistFat_counted (geometry : Geometry fs) (access : Nat) : ∃ after : Volume, after.fat = fs.fat ∧
    Frame fs after (fun _ => False) (fun _ => False) ∧
    ((Clear faults access fs.bs.tableCount.toNat ∧ Synced after ∧ persistFat (fs.on place access) =
        (.value (), after.on place (access + fs.bs.tableCount.toNat))) ∨
      (¬ Clear faults access fs.bs.tableCount.toNat ∧
        ∃ next, persistFat (fs.on place access) = (.missing, after.on place next))) := by
  obtain ⟨port, frame, outcome⟩ := persistFatLoop_counted disk geometry fs.bs.tableCount.toNat 0 access
  refine ⟨{ fs with port := port }, rfl, ⟨rfl, rfl, rfl, fun _ _ => rfl, ?_⟩, ?_⟩
  · intro cluster _ _
    apply readSectors_congr
    intro sector low _
    apply frame
    right
    have data : fs.fatStartSector (0 + fs.bs.tableCount.toNat) = fs.firstDataSector := by
      simp only [fatStartSector, firstDataSector, geometry.sectorsPerFat_eq, Nat.zero_add]
    have start : fs.firstDataSector ≤ fs.clusterStart cluster := Nat.le_add_right _ _
    rw [data]
    exact Nat.le_trans start low
  · refine outcome.imp_left (And.imp_right (And.imp_left fun copies index inside => ?_))
    exact copies index (Nat.zero_le _) (by simpa using inside)

end Counted

section Reliable

variable {fs : Volume} {cluster : Nat} (geometry : Geometry fs)

include geometry

theorem readCluster_apply (low : 2 ≤ cluster) : readCluster cluster fs = (.value (fs.clusterBytes cluster), fs) :=
  readCluster_works counts_reliable geometry low (rfl : never 0 = false)

omit geometry in
/-- This volume has written every copy of the table. -/
def persisted (fs : Volume) : Volume := (persistFat fs).2

/-- The table reaches the disk without a change to the clusters. -/
theorem persistFat_spec : persistFat fs = (.value (), fs.persisted) ∧ fs.persisted.fat = fs.fat ∧
    Frame fs fs.persisted (fun _ => False) (fun _ => False) ∧ Synced fs.persisted := by
  obtain ⟨after, fat, frame, outcome⟩ := persistFat_counted counts_reliable geometry 0
  obtain ⟨copies, returned⟩ := of_never outcome
  have state : fs.persisted = after := congrArg Prod.snd returned
  rw [state]
  exact ⟨returned, fat, frame, copies⟩

theorem persistFat_apply : persistFat fs = (.value (), fs.persisted) := (persistFat_spec geometry).1

/-- The written table changes nothing that the driver reads. -/
theorem frame_persisted (words clusters : Nat → Prop) : Frame fs fs.persisted words clusters :=
  (persistFat_spec geometry).2.2.1.mono (fun _ => False.elim) fun _ => False.elim

end Reliable

end FATFileSystem

open Attempt

namespace FatBuffer

theorem nextCluster_inside {buffer : FatBuffer} {cluster next : Nat} (linked : buffer.nextCluster cluster = some next) :
    cluster < buffer.entries := by
  by_contra outside
  rw [nextCluster, if_pos (Nat.not_lt.mp outside)] at linked
  contradiction

/-- Every cluster but the last lies inside the table, so the table bounds the chain. -/
theorem chain_length_le {buffer : FatBuffer} {first : Nat} {clusters : List Nat}
    (chain : Chain buffer.nextCluster first clusters) : clusters.length ≤ buffer.entries + 1 := by
  have inside : clusters.dropLast ⊆ List.range buffer.entries := by
    induction chain with
    | last ends => exact List.nil_subset _
    | @link node following rest linked tail ih =>
      rw [List.dropLast_cons_of_ne_nil tail.ne_nil]
      exact List.cons_subset.mpr ⟨List.mem_range.mpr (nextCluster_inside linked), ih⟩
  have distinct : clusters.dropLast.Nodup := chain.nodup.sublist (List.dropLast_sublist clusters)
  have short := (List.subperm_of_subset distinct inside).length_le
  rw [List.length_dropLast, List.length_range] at short
  omega

end FatBuffer

namespace FATFileSystem

section Walk

variable {fs : Volume} {cluster : Nat}

/-- A disk that never fails returns the bytes of a cluster. -/
theorem readCluster_value (readable : fs.bs.sectorsPerCluster ≠ 0) (low : 2 ≤ cluster) :
    ∃ region, readCluster cluster fs = (.value region, fs) := by
  have count : fs.bs.sectorsPerCluster.toNat ≠ 0 := by
    intro zero
    exact readable (UInt8.toNat_inj.mp zero)
  have sector : getSector cluster fs = (.value (fs.clusterStart cluster), fs) := by
    rw [getSector, get_bind, if_neg (Nat.not_lt.mpr low)]
    rfl
  refine ⟨(fs.clusterBytes cluster ++ List.replicate fs.clusterSize 0).take fs.clusterSize, ?_⟩
  rw [readCluster, bind_value sector, get_bind]
  simp only [Port.read, if_neg count, put_bind]
  rfl

/-- The cluster number underflows below two. -/
theorem readCluster_hang (high : cluster < 2) : readCluster cluster fs = (.hang, fs) := by
  have sector : getSector cluster fs = (.hang, fs) := by
    rw [getSector, get_bind, if_pos high]
    rfl
  rw [readCluster, bind_hang sector]

/-- The loop ends on a chain when its fuel lasts. -/
theorem loadDirectorySlotsLoop_ends (readable : fs.bs.sectorsPerCluster ≠ 0) {first : Nat} {clusters : List Nat}
    (chain : Chain fs.fat.nextCluster first clusters) (low : ∀ cluster ∈ clusters, 2 ≤ cluster) {fuel : Nat}
    (enough : clusters.length ≤ fuel) (slots : List Slot) :
    ∃ loaded, loadDirectorySlotsLoop fuel first slots fs = (.value loaded, fs) := by
  induction chain generalizing fuel slots with
  | @last node ends =>
    obtain ⟨fuel, rfl⟩ := Nat.exists_eq_succ_of_ne_zero (Nat.ne_of_gt enough)
    obtain ⟨region, read⟩ := readCluster_value readable (low node List.mem_cons_self)
    refine ⟨(slots ++ clusterSlots node region, node), ?_⟩
    rw [loadDirectorySlotsLoop, bind_value read, get_bind, ends]
    rfl
  | @link node following rest linked tail ih =>
    rw [List.length_cons] at enough
    obtain ⟨fuel, rfl⟩ := Nat.exists_eq_succ_of_ne_zero (Nat.ne_of_gt (Nat.lt_of_lt_of_le (Nat.succ_pos _) enough))
    obtain ⟨region, read⟩ := readCluster_value readable (low node List.mem_cons_self)
    obtain ⟨loaded, later⟩ := ih (fun cluster member => low cluster (List.mem_cons_of_mem _ member))
      (Nat.le_of_succ_le_succ enough) (slots ++ clusterSlots node region)
    refine ⟨loaded, ?_⟩
    rw [loadDirectorySlotsLoop, bind_value read, get_bind, linked]
    exact later

/-- A loop that ends has followed a chain, whatever its fuel was. -/
theorem chain_of_loadDirectorySlotsLoop (readable : fs.bs.sectorsPerCluster ≠ 0) {fuel first : Nat} {slots : List Slot}
    (ends : (loadDirectorySlotsLoop fuel first slots fs).1 ≠ .hang) :
    ∃ clusters, Chain fs.fat.nextCluster first clusters ∧ ∀ cluster ∈ clusters, 2 ≤ cluster := by
  induction fuel generalizing first slots with
  | zero => exact absurd rfl ends
  | succ fuel ih =>
    rw [loadDirectorySlotsLoop] at ends
    by_cases low : 2 ≤ first
    · obtain ⟨region, read⟩ := readCluster_value readable low
      rw [bind_value read, get_bind] at ends
      cases linked : fs.fat.nextCluster first with
      | none =>
        refine ⟨[first], .last linked, ?_⟩
        intro cluster member
        rw [List.mem_singleton.mp member]
        exact low
      | some following =>
        rw [linked] at ends
        obtain ⟨rest, tail, lowRest⟩ := ih ends
        exact ⟨first :: rest, .link linked tail, List.forall_mem_cons.mpr ⟨low, lowRest⟩⟩
    · rw [bind_hang (readCluster_hang (Nat.not_le.mp low))] at ends
      exact absurd rfl ends

/-- A cluster without sectors is not read. -/
theorem readCluster_missing (unreadable : fs.bs.sectorsPerCluster = 0) (low : 2 ≤ cluster) :
    readCluster cluster fs = (.missing, fs) := by
  have sector : getSector cluster fs = (.value (fs.clusterStart cluster), fs) := by
    rw [getSector, get_bind, if_neg (Nat.not_lt.mpr low)]
    rfl
  have count : fs.bs.sectorsPerCluster.toNat = 0 := by
    rw [unreadable]
    rfl
  rw [readCluster, bind_value sector, get_bind]
  simp only [Port.read, if_pos count, put_bind]
  rfl

/-- The walk ends without an underflow exactly when the links from the directory form a chain of data clusters. -/
theorem directory_walk_ends_iff (fs : Volume) (dir : DirectoryEntry) :
    (loadDirectorySlots (fs.directoryCluster dir) fs).1 ≠ .hang ↔ 2 ≤ fs.directoryCluster dir ∧
      (fs.bs.sectorsPerCluster ≠ 0 → ∃ clusters, Chain fs.fat.nextCluster (fs.directoryCluster dir) clusters ∧
        ∀ cluster ∈ clusters, 2 ≤ cluster) := by
  rw [loadDirectorySlots, get_bind]
  constructor
  · intro ends
    have low : 2 ≤ fs.directoryCluster dir := by
      by_contra high
      rw [loadDirectorySlotsLoop, bind_hang (readCluster_hang (Nat.not_le.mp high))] at ends
      exact ends rfl
    exact ⟨low, fun readable => chain_of_loadDirectorySlotsLoop readable ends⟩
  · rintro ⟨low, chained⟩
    by_cases unreadable : fs.bs.sectorsPerCluster = 0
    · rw [loadDirectorySlotsLoop, bind_missing (readCluster_missing unreadable low)]
      nofun
    · obtain ⟨clusters, chain, lowAll⟩ := chained unreadable
      obtain ⟨loaded, returned⟩ := loadDirectorySlotsLoop_ends unreadable chain lowAll (FatBuffer.chain_length_le chain) []
      rw [returned]
      nofun

/-- The first data cluster of this volume links to itself. -/
def cyclicVolume : Volume := { freshVolume with fat := ⟨[0x0FFFFFF8, 0x0FFFFFFF, 2]⟩ }

/-- The walk through a directory in that cluster never ends. -/
theorem directory_walk_cycles :
    cyclicVolume.bs.sectorsPerCluster ≠ 0 ∧ cyclicVolume.fat.nextCluster 2 = some 2 ∧
      (loadDirectorySlots (cyclicVolume.directoryCluster cyclicVolume.root) cyclicVolume).1 = .hang := by
  decide +kernel

end Walk

open DirectoryEntry

/-- This is the location of one slot of a cluster. -/
def slotLocation (cluster index : Nat) : DirectoryEntryLocation := ⟨cluster, index, index * entrySize⟩

/-- These are the slots of some clusters in order. -/
def directoryLocations (fs : Volume) (clusters : List Nat) : List DirectoryEntryLocation :=
  clusters.flatMap fun cluster => (List.range (fs.clusterSize / entrySize)).map (slotLocation cluster)

/-- This entry is stored at a location. -/
def entryAt (fs : Volume) (location : DirectoryEntryLocation) : DirectoryEntry :=
  DirectoryEntry.readAt (fs.clusterBytes location.cluster) location.offset

/-- These are the slots of a directory with the given clusters. -/
def dirSlots (fs : Volume) (clusters : List Nat) : List Slot :=
  (fs.directoryLocations clusters).map fun location => (fs.entryAt location, location)

/-- A location names a whole slot of a data cluster. -/
structure ValidLocation (fs : Volume) (location : DirectoryEntryLocation) : Prop where
  cluster : 2 ≤ location.cluster
  offset : location.offset = location.index * entrySize
  inside : location.offset + entrySize ≤ fs.clusterSize

/-- This volume differs in one slot. -/
def withSlot (fs : Volume) (location : DirectoryEntryLocation) (entry : DirectoryEntry) : Volume :=
  fs.withCluster location.cluster (overwrite (fs.clusterBytes location.cluster) location.offset entry.toBytes)

section Locations

variable {fs : Volume} {clusters : List Nat} {location : DirectoryEntryLocation}

theorem mem_directoryLocations :
    location ∈ fs.directoryLocations clusters ↔
      location.cluster ∈ clusters ∧ location.index < fs.clusterSize / entrySize ∧
        location.offset = location.index * entrySize := by
  simp only [directoryLocations, List.mem_flatMap, List.mem_map, List.mem_range, slotLocation]
  constructor
  · rintro ⟨cluster, member, index, inside, rfl⟩
    exact ⟨member, inside, rfl⟩
  · rintro ⟨member, inside, offset⟩
    refine ⟨location.cluster, member, location.index, inside, ?_⟩
    rw [← offset]

theorem validLocation_of_mem (low : ∀ cluster ∈ clusters, 2 ≤ cluster)
    (member : location ∈ fs.directoryLocations clusters) : ValidLocation fs location := by
  obtain ⟨inside, index, offset⟩ := mem_directoryLocations.mp member
  refine ⟨low _ inside, offset, ?_⟩
  rw [offset]
  have whole := Nat.div_mul_le_self fs.clusterSize entrySize
  have product := Nat.mul_le_mul_right entrySize (Nat.succ_le_of_lt index)
  rw [Nat.succ_mul] at product
  omega

theorem directoryLocations_append (first second : List Nat) :
    fs.directoryLocations (first ++ second) = fs.directoryLocations first ++ fs.directoryLocations second := by
  simp [directoryLocations]

theorem dirSlots_append (first second : List Nat) :
    fs.dirSlots (first ++ second) = fs.dirSlots first ++ fs.dirSlots second := by
  simp [dirSlots, directoryLocations_append]

theorem map_snd_dirSlots : (fs.dirSlots clusters).map Prod.snd = fs.directoryLocations clusters := by
  simp [dirSlots, Function.comp_def]

/-- Distinct clusters have distinct slots. -/
theorem nodup_directoryLocations (fs : Volume) (distinct : clusters.Nodup) : (fs.directoryLocations clusters).Nodup := by
  rw [directoryLocations, List.nodup_flatMap]
  refine ⟨?_, ?_⟩
  · intro cluster _
    refine List.Nodup.map ?_ List.nodup_range
    intro first second same
    exact congrArg DirectoryEntryLocation.index same
  · refine distinct.imp ?_
    intro first second different location inFirst inSecond
    obtain ⟨_, _, rfl⟩ := List.mem_map.mp inFirst
    obtain ⟨_, _, same⟩ := List.mem_map.mp inSecond
    exact different (congrArg DirectoryEntryLocation.cluster same).symm

/-- The parser's slots of one cluster are its stored entries. -/
theorem clusterSlots_eq (geometry : Geometry fs) (cluster : Nat) :
    clusterSlots cluster (fs.clusterBytes cluster) = fs.dirSlots [cluster] := by
  simp only [clusterSlots, dirSlots, directoryLocations, geometry.length_clusterBytes, List.flatMap_cons,
    List.flatMap_nil, List.append_nil, List.map_map]
  rfl

/-- Framed steps keep the slots of other clusters. -/
theorem Frame.dirSlots_eq {after : Volume} {words changed : Nat → Prop} (frame : Frame fs after words changed)
    (low : ∀ cluster ∈ clusters, 2 ≤ cluster) (apart : ∀ cluster ∈ clusters, ¬ changed cluster) :
    after.dirSlots clusters = fs.dirSlots clusters := by
  have locations : after.directoryLocations clusters = fs.directoryLocations clusters := by
    rw [directoryLocations, directoryLocations, frame.clusterSize_eq]
  rw [dirSlots, dirSlots, locations]
  apply List.map_congr_left
  intro location member
  have inside := (mem_directoryLocations.mp member).1
  rw [entryAt, entryAt, frame.data _ (low _ inside) (apart _ inside)]

end Locations

section Counted

variable {P : Type} {fs : Volume} {location : DirectoryEntryLocation}

/-- A location in a cluster fits the pointer size. -/
theorem checkLocation_apply (valid : ValidLocation fs location) (state : FATFileSystem P) :
    checkLocation location state = (.value (), state) := by
  have small : fs.clusterSize < usizeLimit := by
    have sectors := fs.bs.bytesPerSector.toNat_lt
    have clusters := fs.bs.sectorsPerCluster.toNat_lt
    have product : fs.clusterSize ≤ 65536 * 256 := Nat.mul_le_mul (by omega) (by omega)
    rw [usizeLimit]
    omega
  have inside := valid.inside
  have offset := valid.offset
  rw [checkLocation, if_neg (by omega), if_neg (by omega), if_neg (by omega), pure_apply]

variable [Port P] {place : SectorArray → Nat → P} {faults : Nat → Bool} (disk : Counts place faults) {access : Nat}
  (valid : ValidLocation fs location)

include disk valid

theorem readDirectoryEntry_fails (fault : faults access = true) :
    readDirectoryEntry location (fs.on place access) = (.missing, fs.on place (access + 1)) := by
  rw [readDirectoryEntry, bind_value (checkLocation_apply valid _),
    bind_missing (readCluster_fails disk valid.cluster fault)]

variable (geometry : Geometry fs)

include geometry

theorem readDirectoryEntry_works (works : faults access = false) : readDirectoryEntry location (fs.on place access) =
    (.value (fs.entryAt location), fs.on place (access + 1)) := by
  have inside := valid.inside
  rw [readDirectoryEntry, bind_value (checkLocation_apply valid _),
    bind_value (readCluster_works disk geometry valid.cluster works), geometry.length_clusterBytes, if_neg (by omega)]
  rfl

/-- A save of an entry reads a cluster and writes it, and a failure has no effect. -/
theorem persistDirectoryEntry_counted (entry : DirectoryEntry) (access : Nat) :
    (Clear faults access 2 ∧ persistDirectoryEntry location entry (fs.on place access) =
        (.value (), (fs.withSlot location entry).on place (access + 2))) ∨
      (¬ Clear faults access 2 ∧
        ∃ next, persistDirectoryEntry location entry (fs.on place access) = (.missing, fs.on place next)) := by
  have inside := valid.inside
  rw [persistDirectoryEntry, bind_value (checkLocation_apply valid _)]
  cases read : faults access with
  | true =>
    refine .inr ⟨not_clear Nat.zero_lt_two read, access + 1, ?_⟩
    rw [bind_missing (readCluster_fails disk valid.cluster read)]
  | false =>
    rw [bind_value (readCluster_works disk geometry valid.cluster read), geometry.length_clusterBytes,
      if_neg (by omega)]
    cases write : faults (access + 1) with
    | true =>
      refine .inr ⟨not_clear Nat.one_lt_two write, access + 2, ?_⟩
      rw [bind_value (writeCluster_fails disk valid.cluster write _)]
      rfl
    | false =>
      refine .inl ⟨(clear_one read).append (clear_one write), ?_⟩
      rw [bind_value (writeCluster_works disk geometry valid.cluster write _)]
      rfl

end Counted

section Access

variable {fs : Volume} {location : DirectoryEntryLocation}

section Geometry

variable (geometry : Geometry fs) (valid : ValidLocation fs location)

include geometry valid

theorem length_withSlot_bytes (entry : DirectoryEntry) :
    (overwrite (fs.clusterBytes location.cluster) location.offset entry.toBytes).length = fs.clusterSize := by
  rw [length_overwrite, geometry.length_clusterBytes]
  rw [geometry.length_clusterBytes, length_toBytes]
  exact valid.inside

theorem persistDirectoryEntry_apply (entry : DirectoryEntry) :
    persistDirectoryEntry location entry fs = (.value (), fs.withSlot location entry) :=
  of_never (persistDirectoryEntry_counted counts_reliable valid geometry entry 0)

theorem readDirectoryEntry_apply : readDirectoryEntry location fs = (.value (fs.entryAt location), fs) :=
  readDirectoryEntry_works counts_reliable valid geometry (rfl : never 0 = false)

theorem frame_withSlot (entry : DirectoryEntry) :
    Frame fs (fs.withSlot location entry) (fun _ => False) (· = location.cluster) :=
  frame_withCluster geometry valid.cluster (length_withSlot_bytes geometry valid entry)

end Geometry

@[simp] theorem fat_withSlot (entry : DirectoryEntry) : (fs.withSlot location entry).fat = fs.fat := rfl

theorem synced_withSlot (geometry : Geometry fs) (synced : Synced fs) (entry : DirectoryEntry) :
    Synced (fs.withSlot location entry) := synced_withCluster geometry synced _ _

/-- A slot write changes the entry of its own slot only. -/
theorem entryAt_withSlot (geometry : Geometry fs) (valid : ValidLocation fs location)
    {other : DirectoryEntryLocation} (otherValid : ValidLocation fs other) (entry : DirectoryEntry) :
    (fs.withSlot location entry).entryAt other = if other = location then entry else fs.entryAt other := by
  have exact := length_withSlot_bytes geometry valid entry
  have inside := valid.inside
  rw [entryAt, withSlot, clusterBytes_withCluster geometry valid.cluster otherValid.cluster exact]
  split
  · rename_i sameCluster
    split
    · rename_i same
      subst same
      exact readAt_overwrite_same _ _ _ (by rw [geometry.length_clusterBytes]; exact inside)
    · rename_i different
      have indices : other.index ≠ location.index := by
        intro sameIndex
        apply different
        obtain ⟨cluster, index, offset⟩ := location
        obtain ⟨otherCluster, otherIndex, otherOffset⟩ := other
        have first := valid.offset
        have second := otherValid.offset
        simp only at sameCluster sameIndex first second
        subst sameCluster sameIndex first second
        rfl
      rw [entryAt, ← sameCluster]
      apply readAt_overwrite_other
      · rw [geometry.length_clusterBytes, length_toBytes]
        exact inside
      · rw [length_toBytes, valid.offset, otherValid.offset]
        simp only [entrySize]
        omega
  · rename_i differentCluster
    rw [if_neg, entryAt]
    rintro rfl
    exact differentCluster rfl

end Access

/-- This volume differs in a list of slots. -/
def withSlots (fs : Volume) : List Slot → Volume
  | [] => fs
  | (entry, location) :: rest => (fs.withSlot location entry).withSlots rest

section Writes

variable {fs : Volume} {location : DirectoryEntryLocation}

theorem ValidLocation.frame {after : Volume} {words changed : Nat → Prop} (valid : ValidLocation fs location)
    (frame : Frame fs after words changed) : ValidLocation after location :=
  ⟨valid.cluster, valid.offset, by rw [frame.clusterSize_eq]; exact valid.inside⟩

/-- The writes change only the clusters of their slots. -/
theorem frame_withSlots (geometry : Geometry fs) (slots : List Slot)
    (valid : ∀ slot ∈ slots, ValidLocation fs slot.2) :
    Frame fs (fs.withSlots slots) (fun _ => False) (fun cluster => ∃ slot ∈ slots, cluster = slot.2.cluster) := by
  induction slots generalizing fs with
  | nil => exact .refl _ _ _
  | cons slot rest ih =>
    have first := frame_withSlot geometry (valid slot List.mem_cons_self) slot.1
    have later := ih (first.geometry geometry) fun other member =>
      (valid other (List.mem_cons_of_mem _ member)).frame first
    refine (first.mono (fun _ => id) ?_).trans (later.mono (fun _ => id) ?_)
    · rintro cluster rfl
      exact ⟨slot, List.mem_cons_self, rfl⟩
    · rintro cluster ⟨other, member, rfl⟩
      exact ⟨other, List.mem_cons_of_mem _ member, rfl⟩

@[simp] theorem fat_withSlots (slots : List Slot) : (fs.withSlots slots).fat = fs.fat := by
  induction slots generalizing fs with
  | nil => rfl
  | cons slot rest ih => rw [withSlots, ih, fat_withSlot]

variable (geometry : Geometry fs)

include geometry

theorem synced_withSlots (synced : Synced fs) (slots : List Slot) (valid : ∀ slot ∈ slots, ValidLocation fs slot.2) :
    Synced (fs.withSlots slots) := by
  induction slots generalizing fs with
  | nil => exact synced
  | cons slot rest ih =>
    have first := frame_withSlot geometry (valid slot List.mem_cons_self) slot.1
    exact ih (first.geometry geometry) (synced_withSlot geometry synced slot.1) fun other member =>
      (valid other (List.mem_cons_of_mem _ member)).frame first

/-- The writes leave other slots. -/
theorem entryAt_withSlots_other (slots : List Slot) (valid : ∀ slot ∈ slots, ValidLocation fs slot.2)
    (other : ValidLocation fs location) (outside : location ∉ slots.map Prod.snd) :
    (fs.withSlots slots).entryAt location = fs.entryAt location := by
  induction slots generalizing fs with
  | nil => rfl
  | cons slot rest ih =>
    have head := valid slot List.mem_cons_self
    have first := frame_withSlot geometry head slot.1
    rw [List.map_cons, List.mem_cons, not_or] at outside
    rw [withSlots, ih (first.geometry geometry) (fun member inside =>
      (valid member (List.mem_cons_of_mem _ inside)).frame first) (other.frame first) outside.2,
      entryAt_withSlot geometry head other, if_neg outside.1]

/-- Writes to distinct slots are all read back. -/
theorem entryAt_withSlots_same (slots : List Slot) (valid : ∀ slot ∈ slots, ValidLocation fs slot.2)
    (distinct : (slots.map Prod.snd).Nodup) {slot : Slot} (member : slot ∈ slots) :
    (fs.withSlots slots).entryAt slot.2 = slot.1 := by
  induction slots generalizing fs with
  | nil => simp at member
  | cons head rest ih =>
    have headValid := valid head List.mem_cons_self
    have first := frame_withSlot geometry headValid head.1
    have restValid (later : Slot) (inside : later ∈ rest) :=
      (valid later (List.mem_cons_of_mem _ inside)).frame first
    rw [List.map_cons, List.nodup_cons] at distinct
    rw [withSlots]
    rcases List.mem_cons.mp member with rfl | later
    · rw [entryAt_withSlots_other (first.geometry geometry) rest restValid (headValid.frame first) distinct.1,
        entryAt_withSlot geometry headValid headValid, if_pos rfl]
    · exact ih (first.geometry geometry) restValid distinct.2 later

/-- The writes replace a run of slots in a directory. -/
theorem dirSlots_withSlots {clusters : List Nat} (low : ∀ cluster ∈ clusters, 2 ≤ cluster) (distinct : clusters.Nodup)
    {before run after : List Slot} (split : fs.dirSlots clusters = before ++ run ++ after) (fresh : List Slot)
    (placed : fresh.map Prod.snd = run.map Prod.snd) :
    (fs.withSlots fresh).dirSlots clusters = before ++ fresh ++ after := by
  have locations : fs.directoryLocations clusters =
      before.map Prod.snd ++ run.map Prod.snd ++ after.map Prod.snd := by
    rw [← map_snd_dirSlots, split, List.map_append, List.map_append]
  have nodup := nodup_directoryLocations fs distinct
  have valid (location : DirectoryEntryLocation) (member : location ∈ fs.directoryLocations clusters) :=
    validLocation_of_mem low member
  rw [locations] at nodup valid
  have freshValid : ∀ slot ∈ fresh, ValidLocation fs slot.2 := by
    intro slot member
    have inside : slot.2 ∈ fresh.map Prod.snd := List.mem_map_of_mem member
    rw [placed] at inside
    exact valid slot.2 (by simp only [List.mem_append]; exact .inl (.inr inside))
  rw [List.nodup_append, List.nodup_append] at nodup
  obtain ⟨⟨_, runNodup, beforeRun⟩, _, restAfter⟩ := nodup
  have stored (slot : Slot) (member : slot ∈ fs.dirSlots clusters) : slot = (fs.entryAt slot.2, slot.2) := by
    obtain ⟨location, _, rfl⟩ := List.mem_map.mp member
    rfl
  rw [split] at stored
  have same : (fs.withSlots fresh).directoryLocations clusters = fs.directoryLocations clusters := by
    rw [directoryLocations, directoryLocations, (frame_withSlots geometry fresh freshValid).clusterSize_eq]
  have unchanged (slots : List Slot) (part : ∀ slot ∈ slots, slot ∈ before ++ run ++ after)
      (apart : ∀ slot ∈ slots, slot.2 ∉ fresh.map Prod.snd) :
      (slots.map Prod.snd).map (fun location => ((fs.withSlots fresh).entryAt location, location)) = slots := by
    rw [List.map_map]
    conv_rhs => rw [← List.map_id slots]
    apply List.map_congr_left
    intro slot member
    have place : ValidLocation fs slot.2 := by
      refine valid slot.2 ?_
      rw [← List.map_append, ← List.map_append]
      exact List.mem_map_of_mem (part slot member)
    simp only [Function.comp_apply, id_eq]
    rw [entryAt_withSlots_other geometry fresh freshValid place (apart slot member)]
    exact (stored slot (part slot member)).symm
  rw [dirSlots, same, locations, List.map_append, List.map_append]
  congr 1
  · congr 1
    · refine unchanged before (fun slot member => by simp [member]) ?_
      intro slot member inside
      rw [placed] at inside
      exact beforeRun slot.2 (List.mem_map_of_mem member) slot.2 inside rfl
    · rw [← placed, List.map_map]
      conv_rhs => rw [← List.map_id fresh]
      apply List.map_congr_left
      intro slot member
      simp only [Function.comp_apply, id_eq]
      rw [entryAt_withSlots_same geometry fresh freshValid (by rw [placed]; exact runNodup) member]
  · refine unchanged after (fun slot member => by simp [member]) ?_
    intro slot member inside
    rw [placed] at inside
    exact restAfter slot.2 (List.mem_append_right _ inside) slot.2 (List.mem_map_of_mem member) rfl

end Writes

/-- These slots are the given slots with a deletion mark. -/
def marked (fs : Volume) (locations : List DirectoryEntryLocation) : List Slot :=
  locations.map fun location => ((fs.entryAt location).markDeleted, location)

section Marks

variable {fs : Volume} {location : DirectoryEntryLocation}

theorem marked_withSlot (geometry : Geometry fs) (valid : ValidLocation fs location) (entry : DirectoryEntry)
    {locations : List DirectoryEntryLocation} (others : ∀ other ∈ locations, ValidLocation fs other)
    (apart : location ∉ locations) : (fs.withSlot location entry).marked locations = fs.marked locations := by
  refine List.map_congr_left fun other member => ?_
  rw [entryAt_withSlot geometry valid (others other member), if_neg]
  rintro rfl
  exact apart member

variable {P : Type} [Port P] {place : SectorArray → Nat → P} {faults : Nat → Bool} (disk : Counts place faults)

include disk

/-- A slot is read and written, or nothing changes. -/
theorem deleteLfnEntries_first (geometry : Geometry fs) (valid : ValidLocation fs location)
    (rest : List DirectoryEntryLocation) (access : Nat) :
    (Clear faults access 3 ∧ deleteLfnEntries (location :: rest) (fs.on place access) =
        deleteLfnEntries rest ((fs.withSlot location (fs.entryAt location).markDeleted).on place (access + 3))) ∨
      (¬ Clear faults access 3 ∧
        ∃ next, deleteLfnEntries (location :: rest) (fs.on place access) = (.missing, fs.on place next)) := by
  rw [deleteLfnEntries]
  cases works : faults access with
  | true =>
    refine .inr ⟨not_clear (Nat.zero_lt_succ 2) works, access + 1, ?_⟩
    rw [bind_missing (readDirectoryEntry_fails disk valid works)]
  | false =>
    rw [bind_value (readDirectoryEntry_works disk valid geometry works), show 3 = 1 + 2 from rfl, clear_add_iff,
      and_iff_right (clear_one works)]
    rcases persistDirectoryEntry_counted disk valid geometry (fs.entryAt location).markDeleted (access + 1) with
      ⟨clear, returned⟩ | ⟨stopped, next, returned⟩
    · rw [bind_value returned]
      exact .inl ⟨clear, rfl⟩
    · exact .inr ⟨stopped, next, bind_missing returned _⟩

/-- The slots of a long filename are marked in order up to the first failure. -/
theorem deleteLfnEntries_counted (geometry : Geometry fs) (locations : List DirectoryEntryLocation)
    (valid : ∀ location ∈ locations, ValidLocation fs location) (distinct : locations.Nodup) (access : Nat) :
    (Clear faults access (3 * locations.length) ∧ deleteLfnEntries locations (fs.on place access) =
        (.value (), (fs.withSlots (fs.marked locations)).on place (access + 3 * locations.length))) ∨
      ∃ done < locations.length, Clear faults access (3 * done) ∧ ¬ Clear faults (access + 3 * done) 3 ∧
        ∃ next, deleteLfnEntries locations (fs.on place access) =
          (.missing, (fs.withSlots (fs.marked (locations.take done))).on place next) := by
  induction locations generalizing fs access with
  | nil => exact .inl ⟨clear_zero _ _, rfl⟩
  | cons location rest ih =>
    rw [List.nodup_cons] at distinct
    have head := valid location List.mem_cons_self
    have restValid (other : DirectoryEntryLocation) (member : other ∈ rest) := valid other (List.mem_cons_of_mem _ member)
    have frame := frame_withSlot geometry head (fs.entryAt location).markDeleted
    rcases deleteLfnEntries_first disk geometry head rest access with ⟨clear, step⟩ | ⟨stopped, next, returned⟩
    · have same (some_ : List DirectoryEntryLocation) (part : ∀ other ∈ some_, other ∈ rest) :
          (fs.withSlot location (fs.entryAt location).markDeleted).marked some_ = fs.marked some_ :=
        marked_withSlot geometry head _ (fun other member => restValid other (part other member))
          fun member => distinct.1 (part location member)
      rw [step]
      rcases ih (frame.geometry geometry) (fun other member => (restValid other member).frame frame) distinct.2
        (access + 3) with ⟨later, returned⟩ | ⟨done, less, later, stopped, next, returned⟩
      · left
        rw [returned, same rest fun _ => id, List.length_cons, Nat.mul_succ, Nat.add_comm (3 * rest.length)]
        exact ⟨clear.append later, by rw [Nat.add_assoc]; rfl⟩
      · right
        refine ⟨done + 1, Nat.succ_lt_succ less, ?_, ?_, next, ?_⟩
        · rw [Nat.mul_succ, Nat.add_comm]
          exact clear.append later
        · rw [Nat.mul_succ, Nat.add_comm (3 * done), ← Nat.add_assoc]
          exact stopped
        · rw [returned, same _ fun _ => List.mem_of_mem_take]
          rfl
    · exact .inr ⟨0, Nat.succ_pos _, clear_zero _ _, stopped, next, returned⟩

end Marks

section Load

variable {P : Type} [Port P] {place : SectorArray → Nat → P} {faults : Nat → Bool} (disk : Counts place faults)
  {fs : Volume} {clusters : List Nat} {first : Nat}

include disk

/-- The slots are loaded with one read for each cluster. -/
theorem loadDirectorySlotsLoop_counted (geometry : Geometry fs) (clusters : List Nat) (first : Nat)
    (chain : FatBuffer.FileChain fs.fat first clusters) (fuel : Nat) (enough : clusters.length ≤ fuel)
    (slots : List Slot) (access : Nat) :
    (Clear faults access clusters.length ∧ loadDirectorySlotsLoop fuel first slots (fs.on place access) =
        (.value (slots ++ fs.dirSlots clusters, clusters.getLast chain.ne_nil),
          fs.on place (access + clusters.length))) ∨
      (¬ Clear faults access clusters.length ∧
        ∃ next, loadDirectorySlotsLoop fuel first slots (fs.on place access) = (.missing, fs.on place next)) := by
  induction clusters generalizing first fuel slots access with
  | nil => exact absurd rfl chain.ne_nil
  | cons cluster rest ih =>
    obtain rfl := chain.head_eq
    obtain ⟨fuel, rfl⟩ : ∃ smaller, fuel = smaller + 1 := ⟨fuel - 1, by simp at enough; omega⟩
    cases works : faults access with
    | true =>
      refine .inr ⟨not_clear (Nat.succ_pos _) works, access + 1, ?_⟩
      rw [loadDirectorySlotsLoop, bind_missing (readCluster_fails disk chain.low_first works)]
    | false =>
      have table (next : Nat) : (fs.on place next).fat = fs.fat := rfl
      rw [loadDirectorySlotsLoop, bind_value (readCluster_works disk geometry chain.low_first works), get_bind,
        clusterSlots_eq geometry, table]
      cases rest with
      | nil =>
        rw [chain.chain.next_single]
        exact .inl ⟨clear_one works, rfl⟩
      | cons following rest =>
        obtain ⟨linked, tail⟩ := chain.tail
        rw [linked, List.length_cons, Nat.add_comm, clear_add_iff, and_iff_right (clear_one works),
          ← Nat.add_assoc]
        have step := ih following tail fuel (by simpa using enough) (slots ++ fs.dirSlots [first]) (access + 1)
        rw [List.append_assoc, ← dirSlots_append] at step
        exact step

theorem loadDirectorySlots_counted (geometry : Geometry fs) (chain : FatBuffer.FileChain fs.fat first clusters)
    (access : Nat) :
    (Clear faults access clusters.length ∧ loadDirectorySlots first (fs.on place access) =
        (.value (fs.dirSlots clusters, clusters.getLast chain.ne_nil), fs.on place (access + clusters.length))) ∨
      (¬ Clear faults access clusters.length ∧
        ∃ next, loadDirectorySlots first (fs.on place access) = (.missing, fs.on place next)) :=
  loadDirectorySlotsLoop_counted disk geometry clusters first chain _ (Nat.le_succ_of_le chain.length_le) [] access

omit disk [Port P] in
/-- The driver loads the slots of a chain. -/
theorem loadDirectorySlots_chain (geometry : Geometry fs) (chain : FatBuffer.FileChain fs.fat first clusters) :
    loadDirectorySlots first fs = (.value (fs.dirSlots clusters, clusters.getLast chain.ne_nil), fs) :=
  of_never (loadDirectorySlots_counted counts_reliable geometry chain 0)

end Load

end FATFileSystem

end BubbleOs.Fat
