import BubbleOs.Proof.Fat.Volume

namespace BubbleOs.Fat

open Attempt
open FatBuffer (FileChain)

/-- A range that starts in a cluster is written in this many clusters. -/
def pieces (clusterSize clusterOffset length : Nat) : Nat := (clusterOffset + length + clusterSize - 1) / clusterSize

/-- These bytes of the range lie in its first clusters. -/
def reached (clusterSize clusterOffset length count : Nat) : Nat := min length (count * clusterSize - clusterOffset)

section Pieces

variable {clusterSize clusterOffset length : Nat} {count : Nat}

theorem pieces_pos (start : clusterOffset < clusterSize) (more : 0 < length) : 0 < pieces clusterSize clusterOffset length :=
  Nat.div_pos (by omega) (by omega)

theorem pieces_last (more : 0 < length) (last : clusterOffset + length ≤ clusterSize) :
    pieces clusterSize clusterOffset length = 1 := by
  rw [pieces, Nat.div_eq_of_lt_le] <;> omega

theorem pieces_more (start : clusterOffset < clusterSize) (more : clusterSize < clusterOffset + length) :
    pieces clusterSize clusterOffset length = pieces clusterSize 0 (length - (clusterSize - clusterOffset)) + 1 := by
  rw [pieces, pieces, ← Nat.add_div_right _ (by omega)]
  congr 1
  omega

@[simp] theorem reached_zero : reached clusterSize clusterOffset length 0 = 0 := by simp [reached]

theorem reached_le (count : Nat) : reached clusterSize clusterOffset length count ≤ length := Nat.min_le_left _ _

theorem reached_pos (start : clusterOffset < clusterSize) (more : 0 < length) (some_ : 0 < count) :
    0 < reached clusterSize clusterOffset length count := by
  have one : 1 * clusterSize ≤ count * clusterSize := Nat.mul_le_mul_right _ some_
  rw [reached]
  omega

theorem reached_last (last : clusterOffset + length ≤ clusterSize) : reached clusterSize clusterOffset length 1 = length := by
  rw [reached]
  omega

theorem reached_more (start : clusterOffset < clusterSize) (more : clusterSize < clusterOffset + length) (count : Nat) :
    reached clusterSize clusterOffset length (count + 1) =
      (clusterSize - clusterOffset) + reached clusterSize 0 (length - (clusterSize - clusterOffset)) count := by
  rw [reached, reached, Nat.succ_mul]
  omega

/-- Fewer pieces hold fewer bytes. -/
theorem reached_lt (more : 0 < length) (less : count < pieces clusterSize clusterOffset length) :
    reached clusterSize clusterOffset length count < length := by
  have positive : 0 < clusterSize := by
    by_contra none
    rw [pieces, Nat.eq_zero_of_not_pos none, Nat.div_zero] at less
    exact Nat.not_lt_zero count less
  have covered := (Nat.le_div_iff_mul_le positive).mp less
  rw [Nat.succ_mul] at covered
  rw [reached]
  omega

/-- All pieces hold all bytes. -/
theorem reached_pieces (start : clusterOffset < clusterSize) :
    reached clusterSize clusterOffset length (pieces clusterSize clusterOffset length) = length := by
  have positive : 0 < clusterSize := by omega
  have rest := Nat.mod_lt (clusterOffset + length + clusterSize - 1) positive
  have division := Nat.div_add_mod' (clusterOffset + length + clusterSize - 1) clusterSize
  rw [reached, pieces]
  omega

end Pieces

/-- The first pieces work, each with a read and a write, and the next one fails if there is one. -/
structure StopsAfter (faults : Nat → Bool) (access total count : Nat) : Prop where
  within : count ≤ total
  clear : Clear faults access (2 * count)
  stop : count = total ∨ ¬ Clear faults (access + 2 * count) 2

theorem StopsAfter.unique {faults : Nat → Bool} {access total count other : Nat}
    (first : StopsAfter faults access total count) (second : StopsAfter faults access total other) : count = other := by
  rcases Nat.lt_trichotomy count other with less | same | more
  · have later := first.stop.resolve_left (Nat.ne_of_lt (Nat.lt_of_lt_of_le less second.within))
    exact absurd (second.clear.part (by omega) (by omega)) later
  · exact same
  · have later := second.stop.resolve_left (Nat.ne_of_lt (Nat.lt_of_lt_of_le more first.within))
    exact absurd (first.clear.part (by omega) (by omega)) later

theorem StopsAfter.all {access total count : Nat} (stops : StopsAfter never access total count) : count = total :=
  stops.stop.resolve_right fun fails => fails (clear_never _ _)

namespace FATFileSystem

/-- These are the bytes of a chain in order. -/
def chainBytes (fs : Volume) (clusters : List Nat) : List UInt8 := clusters.flatMap fs.clusterBytes

section Bytes

variable {fs : Volume}

theorem chainBytes_cons (cluster : Nat) (rest : List Nat) :
    fs.chainBytes (cluster :: rest) = fs.clusterBytes cluster ++ fs.chainBytes rest := rfl

theorem chainBytes_append (first second : List Nat) :
    fs.chainBytes (first ++ second) = fs.chainBytes first ++ fs.chainBytes second := by
  simp [chainBytes]

theorem Geometry.length_chainBytes (geometry : Geometry fs) (clusters : List Nat) :
    (fs.chainBytes clusters).length = clusters.length * fs.clusterSize := by
  induction clusters with
  | nil => simp [chainBytes]
  | cons cluster rest ih =>
    rw [chainBytes_cons, List.length_append, ih, geometry.length_clusterBytes, List.length_cons, Nat.succ_mul]
    omega

/-- A framed step keeps the bytes of other clusters. -/
theorem Frame.chainBytes_eq {after : Volume} {words changed : Nat → Prop} (frame : Frame fs after words changed)
    {clusters : List Nat} (low : ∀ cluster ∈ clusters, 2 ≤ cluster)
    (apart : ∀ cluster ∈ clusters, ¬ changed cluster) : after.chainBytes clusters = fs.chainBytes clusters := by
  simp only [chainBytes]
  apply List.flatMap_congr
  intro cluster member
  exact frame.data cluster (low cluster member) (apart cluster member)

end Bytes

section Read

variable {fs : Volume} {fat : FatBuffer} {rest : List Nat} {first cluster : Nat}

/-- The loop appends the bytes of the chain up to the file size. -/
theorem readFileLoop_chain (geometry : Geometry fs) (filesize : Nat) (clusters : List Nat) (first fuel : Nat)
    (chain : FileChain fs.fat first clusters) (enough : clusters.length ≤ fuel) (buffer : List UInt8)
    (more : buffer.length < filesize) (covered : filesize ≤ buffer.length + clusters.length * fs.clusterSize) :
    readFileLoop filesize fuel first buffer fs =
      (.value (buffer ++ (fs.chainBytes clusters).take (filesize - buffer.length)), fs) := by
  induction clusters generalizing first fuel buffer with
  | nil => exact absurd rfl chain.ne_nil
  | cons cluster rest ih =>
    obtain rfl := chain.head_eq
    have low := (chain.inside first List.mem_cons_self).1
    have size := geometry.length_clusterBytes first
    obtain ⟨fuel, rfl⟩ : ∃ smaller, fuel = smaller + 1 := ⟨fuel - 1, by simp at enough; omega⟩
    rw [List.length_cons, Nat.succ_mul] at covered
    rw [readFileLoop, if_pos more, bind_value (readCluster_apply geometry low), chainBytes_cons,
      List.take_append]
    by_cases last : filesize - buffer.length ≤ fs.clusterSize
    · have length : (buffer ++ (fs.clusterBytes first).take (min (fs.clusterBytes first).length
          (filesize - buffer.length))).length = filesize := by
        rw [List.length_append, List.length_take]
        omega
      rw [if_pos length, show filesize - buffer.length - (fs.clusterBytes first).length = 0 by omega,
        List.take_zero, List.append_nil, Nat.min_eq_right (by omega)]
      rfl
    · have taken : (fs.clusterBytes first).take (min (fs.clusterBytes first).length (filesize - buffer.length)) =
          fs.clusterBytes first := by
        rw [Nat.min_eq_left (by omega), List.take_length]
      have length : (buffer ++ fs.clusterBytes first).length = buffer.length + fs.clusterSize := by
        rw [List.length_append, size]
      rw [taken, if_neg (by rw [length]; omega), get_bind]
      cases rest with
      | nil =>
        rw [List.length_nil, Nat.zero_mul] at covered
        omega
      | cons following rest =>
        obtain ⟨linked, tail⟩ := chain.tail
        have whole : (fs.clusterBytes first).take (filesize - buffer.length) = fs.clusterBytes first :=
          List.take_of_length_le (by omega)
        rw [linked, ofOption_some, pure_bind_apply,
          ih following fuel tail (by simpa using enough) (buffer ++ fs.clusterBytes first)
            (by rw [length]; omega) (by rw [length]; omega), length, whole, List.append_assoc, size, Nat.sub_sub]

/-- The driver reads the first bytes of the chain. -/
theorem readFile_chain (geometry : Geometry fs) {file : DirectoryEntry} {clusters : List Nat}
    (archive : file.attributes = 32) (chain : FileChain fs.fat file.getCluster clusters)
    (more : 0 < file.size.toNat) (covered : file.size.toNat ≤ clusters.length * fs.clusterSize) :
    readFile file fs = (.value ((fs.chainBytes clusters).take file.size.toNat), fs) := by
  have nonzero : file.getCluster ≠ 0 := by
    have low := chain.low_first
    omega
  have length := chain.length_le
  rw [readFile, get_bind, if_neg (by simp [archive]), if_neg (by omega), if_neg nonzero,
    readFileLoop_chain geometry _ clusters _ _ chain (by omega) [] more (by simpa using covered)]
  rfl

end Read

/-- A write at an offset of a file touches this many clusters. -/
def writePieces (fs : Volume) (offset length : Nat) : Nat := pieces fs.clusterSize (offset % fs.clusterSize) length

/-- A write that stops after these clusters has written this many bytes. -/
def writeReach (fs : Volume) (offset length count : Nat) : Nat :=
  reached fs.clusterSize (offset % fs.clusterSize) length count

/-- A write that touches every cluster of its range writes every byte. -/
theorem Geometry.writeReach_all {fs : Volume} (geometry : Geometry fs) (offset length : Nat) :
    fs.writeReach offset length (fs.writePieces offset length) = length :=
  reached_pieces (Nat.mod_lt offset geometry.clusterSize_pos)

section Write

variable {fs : Volume} {cluster : Nat} {rest : List Nat} {offset : Nat} {bytes : List UInt8} {after : Volume}
  {clusters : List Nat} {first : Nat}

/-- The written bytes replace a range of the bytes of the chain. -/
structure Overwritten (before after : Volume) (clusters : List Nat) (offset : Nat) (bytes : List UInt8) : Prop where
  frame : Frame before after (fun _ => False) (· ∈ clusters)
  fat : after.fat = before.fat
  bytes : after.chainBytes clusters = overwrite (before.chainBytes clusters) offset bytes
  synced : Synced before → Synced after

theorem Overwritten.refl (fs : Volume) (clusters : List Nat) (offset : Nat) : Overwritten fs fs clusters offset [] :=
  ⟨.refl fs _ _, rfl, (overwrite_nil _ _).symm, id⟩

section Geometry

variable (geometry : Geometry fs)

include geometry

/-- A write into one cluster is a write into the chain. -/
theorem overwritten_single (low : 2 ≤ cluster) (lowRest : ∀ other ∈ rest, 2 ≤ other) (fresh : cluster ∉ rest)
    (fits : offset + bytes.length ≤ fs.clusterSize) :
    Overwritten fs (fs.withCluster cluster (overwrite (fs.clusterBytes cluster) offset bytes)) (cluster :: rest)
      offset bytes := by
  have size := geometry.length_clusterBytes cluster
  have exact : (overwrite (fs.clusterBytes cluster) offset bytes).length = fs.clusterSize := by
    rw [length_overwrite _ _ _ (by omega), size]
  have frame := frame_withCluster geometry low exact
  refine ⟨frame.mono (fun _ => id) ?_, rfl, ?_, fun synced => synced_withCluster geometry synced _ _⟩
  · rintro other rfl
    exact List.mem_cons_self
  · have others := frame.chainBytes_eq lowRest (by rintro other member rfl; exact fresh member)
    rw [chainBytes_cons, clusterBytes_withCluster geometry low low exact, if_pos rfl, others, chainBytes_cons,
      overwrite_append_left _ _ _ _ (by omega)]

/-- A write to the end of a cluster and a write to the clusters behind it are one write into the chain. -/
theorem Overwritten.follow (low : 2 ≤ cluster) (lowRest : ∀ other ∈ rest, 2 ≤ other) (fresh : cluster ∉ rest)
    {front back : List UInt8} (fills : offset + front.length = fs.clusterSize)
    (later : Overwritten (fs.withCluster cluster (overwrite (fs.clusterBytes cluster) offset front)) after rest 0 back) :
    Overwritten fs after (cluster :: rest) offset (front ++ back) := by
  have length := geometry.length_clusterBytes cluster
  have first := overwritten_single geometry low lowRest fresh (Nat.le_of_eq fills)
  have exact : (overwrite (fs.clusterBytes cluster) offset front).length = fs.clusterSize := by
    rw [length_overwrite _ _ _ (by omega), length]
  refine ⟨first.frame.trans (later.frame.mono (fun _ => id) fun _ => List.mem_cons_of_mem _), later.fat.trans first.fat, ?_,
    later.synced ∘ first.synced⟩
  have kept : after.clusterBytes cluster = overwrite (fs.clusterBytes cluster) offset front := by
    rw [later.frame.data cluster low fresh, clusterBytes_withCluster geometry low low exact, if_pos rfl]
  have same := (frame_withCluster geometry low exact).chainBytes_eq lowRest
    (by rintro other member rfl; exact fresh member)
  have width : (fs.clusterBytes cluster).length - offset = front.length := by omega
  rw [chainBytes_cons, kept, later.bytes, same, chainBytes_cons cluster,
    overwrite_append_split _ _ _ _ (by omega) (by rw [List.length_append]; omega), width, List.take_left, List.drop_left]

/-- A write into the clusters from a position on is a write into the whole chain. -/
theorem Overwritten.behind {first cluster : Nat} {before rest : List Nat}
    (chain : FileChain fs.fat first (before ++ cluster :: rest)) {offset clusterOffset : Nat}
    (position : offset = before.length * fs.clusterSize + clusterOffset)
    (written : Overwritten fs after (cluster :: rest) clusterOffset bytes) :
    Overwritten fs after (before ++ cluster :: rest) offset bytes := by
  have nodup := chain.nodup
  rw [List.nodup_append] at nodup
  have kept : after.chainBytes before = fs.chainBytes before := by
    refine written.frame.chainBytes_eq (fun other member => (chain.inside other (by simp [member])).1) ?_
    intro other member inside
    exact nodup.2.2 other member other inside rfl
  refine ⟨written.frame.mono (fun _ => id) fun other member => List.mem_append_right _ member, written.fat, ?_,
    written.synced⟩
  rw [chainBytes_append, chainBytes_append, kept, written.bytes, position, ← geometry.length_chainBytes,
    overwrite_append_right]

end Geometry

/-- Zeroing a range does the writes of a buffer of zeros, and it succeeds when all of them do. -/
theorem zeroFileLoop_eq {P : Type} [Port P] (fuel cluster clusterOffset size bytesWritten : Nat)
    (state : FATFileSystem P) :
    zeroFileLoop fuel cluster clusterOffset size state =
      match writeFileLoop fuel cluster clusterOffset (List.replicate size 0) bytesWritten state with
      | (.value total, after) => (if total = bytesWritten + size then .value () else .missing, after)
      | (.missing, after) => (.missing, after)
      | (.hang, after) => (.hang, after) := by
  induction fuel generalizing cluster clusterOffset size bytesWritten state with
  | zero => rfl
  | succ fuel ih =>
    rw [writeFileLoop, get_bind, zeroFileLoop, get_bind]
    by_cases done : size = 0
    · simp [done]
    · rw [if_neg done, if_neg (by simpa using done), List.length_replicate]
      dsimp only
      rw [List.take_replicate, List.drop_replicate, Nat.min_eq_left (Nat.min_le_left _ _)]
      obtain ⟨zeroSize, width⟩ : ∃ zeroSize, zeroSize = min size (state.clusterSize - clusterOffset) := ⟨_, rfl⟩
      rw [← width]
      cases read : readCluster cluster state with
      | mk outcome between =>
        cases outcome with
        | missing => rw [bind_missing read, bind_missing read]
        | hang => rw [bind_hang read, bind_hang read]
        | value region =>
          rw [bind_value read, bind_value read]
          cases written : writeCluster cluster (overwrite region clusterOffset (List.replicate zeroSize 0)) between with
          | mk outcome after =>
            cases outcome with
            | missing => rw [bind_missing written, bind_missing written]
            | hang => rw [bind_hang written, bind_hang written]
            | value status =>
              rw [bind_value written, bind_value written]
              cases status with
              | false => by_cases first : bytesWritten = 0 <;> simp [first, done]
              | true =>
                simp only [Bool.not_true, Bool.false_eq_true, if_false]
                by_cases last : size = zeroSize
                · simp [last]
                · have total : bytesWritten + zeroSize + (size - zeroSize) = bytesWritten + size := by omega
                  rw [if_neg last, if_neg last, get_bind, get_bind]
                  cases after.fat.nextCluster cluster with
                  | none => rfl
                  | some next =>
                    rw [ofOption_some, pure_bind_apply, pure_bind_apply,
                      ih next 0 (size - zeroSize) (bytesWritten + zeroSize), total]

end Write

section Counted

variable {P : Type} {place : SectorArray → Nat → P} {fs : Volume} {cluster fuel clusterOffset access bytesWritten : Nat}
  {bytes : List UInt8}

/-- The walk stops in the cluster of the offset. -/
theorem seekCluster_chain (geometry : Geometry fs) (clusters : List Nat) (first fuel offset : Nat)
    (chain : FileChain fs.fat first clusters) (enough : offset < fuel)
    (inside : offset < clusters.length * fs.clusterSize) (access : Nat) :
    ∃ before cluster after, clusters = before ++ cluster :: after ∧
      before.length * fs.clusterSize ≤ offset ∧ offset < before.length * fs.clusterSize + fs.clusterSize ∧
      seekCluster fuel first offset (fs.on place access) =
        (.value (cluster, offset - before.length * fs.clusterSize), fs.on place access) := by
  have size : (fs.on place access).clusterSize = fs.clusterSize := rfl
  have table : (fs.on place access).fat = fs.fat := rfl
  induction clusters generalizing first fuel offset with
  | nil => exact absurd rfl chain.ne_nil
  | cons cluster rest ih =>
    obtain rfl := chain.head_eq
    have positive := geometry.clusterSize_pos
    obtain ⟨fuel, rfl⟩ : ∃ smaller, fuel = smaller + 1 := ⟨fuel - 1, by omega⟩
    rw [List.length_cons, Nat.succ_mul] at inside
    by_cases here : offset < fs.clusterSize
    · refine ⟨[], first, rest, rfl, by simp, by simpa using here, ?_⟩
      rw [seekCluster, get_bind, size, if_neg (by omega)]
      simp
    · cases rest with
      | nil =>
        rw [List.length_nil, Nat.zero_mul] at inside
        omega
      | cons following rest =>
        obtain ⟨linked, tail⟩ := chain.tail
        obtain ⟨before, cluster, after, split, low, high, found⟩ := ih following fuel (offset - fs.clusterSize) tail
          (by omega) (by omega)
        refine ⟨first :: before, cluster, after, by rw [split]; rfl, ?_, ?_, ?_⟩
        · rw [List.length_cons, Nat.succ_mul]
          omega
        · rw [List.length_cons, Nat.succ_mul]
          omega
        · rw [seekCluster, get_bind, size, table, if_pos (by omega), linked, ofOption_some, pure_bind_apply, found,
            List.length_cons, Nat.succ_mul, Nat.sub_sub, Nat.add_comm]

variable [Port P] {faults : Nat → Bool} (disk : Counts place faults)

include disk

/-- A piece that fails leaves the disk unchanged. -/
theorem writeFileLoop_stops (geometry : Geometry fs) (low : 2 ≤ cluster) (more : 0 < bytes.length)
    (fails : ¬ Clear faults access 2) :
    writeFileLoop (fuel + 1) cluster clusterOffset bytes bytesWritten (fs.on place access) =
      if faults access then (.missing, fs.on place (access + 1))
      else (if bytesWritten = 0 then .missing else .value bytesWritten, fs.on place (access + 2)) := by
  rw [writeFileLoop, get_bind, if_neg (by simp [List.length_pos_iff.mp more])]
  cases read : faults access with
  | true => rw [bind_missing (readCluster_fails disk low read), if_pos rfl]
  | false =>
    cases write : faults (access + 1) with
    | false => exact absurd ((clear_one read).append (clear_one write)) fails
    | true =>
      rw [bind_value (readCluster_works disk geometry low read), bind_value (writeCluster_fails disk low write _),
        if_pos (by decide), if_neg Bool.false_ne_true]
      by_cases first : bytesWritten = 0
      · rw [if_pos first, if_pos first]
        rfl
      · rw [if_neg first, if_neg first]
        rfl

theorem writeFileLoop_works (geometry : Geometry fs) (low : 2 ≤ cluster) (more : 0 < bytes.length)
    (clear : Clear faults access 2) (last : clusterOffset + bytes.length ≤ fs.clusterSize) :
    writeFileLoop (fuel + 1) cluster clusterOffset bytes bytesWritten (fs.on place access) =
      (.value (bytesWritten + bytes.length),
        (fs.withCluster cluster (overwrite (fs.clusterBytes cluster) clusterOffset bytes)).on place (access + 2)) := by
  have size : (fs.on place access).clusterSize = fs.clusterSize := rfl
  have writable : min bytes.length (fs.clusterSize - clusterOffset) = bytes.length := by omega
  rw [writeFileLoop, get_bind, if_neg (by simp [List.length_pos_iff.mp more]),
    bind_value (readCluster_works disk geometry low (clear access (Nat.le_refl _) (by omega))), size, writable, List.take_length,
    bind_value (writeCluster_works disk geometry low (clear (access + 1) (by omega) (by omega)) _)]
  simp

theorem writeFileLoop_continues (geometry : Geometry fs) {cluster following fuel clusterOffset access : Nat}
    {rest : List Nat} (chain : FileChain fs.fat cluster (cluster :: following :: rest)) (bytesWritten : Nat)
    (clear : Clear faults access 2) (start : clusterOffset < fs.clusterSize)
    (more : fs.clusterSize < clusterOffset + bytes.length) :
    writeFileLoop (fuel + 1) cluster clusterOffset bytes bytesWritten (fs.on place access) =
      writeFileLoop fuel following 0 (bytes.drop (fs.clusterSize - clusterOffset))
        (bytesWritten + (fs.clusterSize - clusterOffset))
        ((fs.withCluster cluster (overwrite (fs.clusterBytes cluster) clusterOffset
          (bytes.take (fs.clusterSize - clusterOffset)))).on place (access + 2)) := by
  have low := (chain.inside cluster List.mem_cons_self).1
  have size : (fs.on place access).clusterSize = fs.clusterSize := rfl
  have writable : min bytes.length (fs.clusterSize - clusterOffset) = fs.clusterSize - clusterOffset := by omega
  have nonempty : bytes ≠ [] := List.length_pos_iff.mp (by omega)
  have linked : ((fs.withCluster cluster (overwrite (fs.clusterBytes cluster) clusterOffset
      (bytes.take (fs.clusterSize - clusterOffset)))).on place (access + 2)).fat.nextCluster cluster = some following :=
    chain.tail.1
  rw [writeFileLoop, get_bind, if_neg (by simp [nonempty]),
    bind_value (readCluster_works disk geometry low (clear access (Nat.le_refl _) (by omega))), size, writable,
    bind_value (writeCluster_works disk geometry low (clear (access + 1) (by omega) (by omega)) _), if_neg (by simp),
    if_neg (by omega), get_bind, linked, ofOption_some, pure_bind_apply]

/-- The loop writes the bytes of the pieces before the first failure. -/
theorem writeFileLoop_counted (geometry : Geometry fs) (fuel cluster clusterOffset : Nat) (rest : List Nat)
    (chain : FileChain fs.fat cluster (cluster :: rest)) (bytes : List UInt8) (bytesWritten access : Nat)
    (enough : bytes.length < fuel) (more : 0 < bytes.length) (start : clusterOffset < fs.clusterSize)
    (fits : clusterOffset + bytes.length ≤ (rest.length + 1) * fs.clusterSize) :
    ∃ count after, StopsAfter faults access (pieces fs.clusterSize clusterOffset bytes.length) count ∧
      Overwritten fs after (cluster :: rest) clusterOffset
        (bytes.take (reached fs.clusterSize clusterOffset bytes.length count)) ∧
      writeFileLoop fuel cluster clusterOffset bytes bytesWritten (fs.on place access) =
        if count = pieces fs.clusterSize clusterOffset bytes.length then
          (.value (bytesWritten + bytes.length), after.on place (access + 2 * count))
        else if faults (access + 2 * count) then (.missing, after.on place (access + 2 * count + 1))
        else
          (if bytesWritten + reached fs.clusterSize clusterOffset bytes.length count = 0 then .missing
            else .value (bytesWritten + reached fs.clusterSize clusterOffset bytes.length count),
            after.on place (access + 2 * count + 2)) := by
  induction fuel generalizing fs cluster clusterOffset rest bytes bytesWritten access with
  | zero => omega
  | succ fuel ih =>
    have low := (chain.inside cluster List.mem_cons_self).1
    have lowRest (other : Nat) (member : other ∈ rest) := (chain.inside other (List.mem_cons_of_mem _ member)).1
    have fresh : cluster ∉ rest := (List.nodup_cons.mp chain.nodup).1
    have some_ := pieces_pos start more
    by_cases clear : Clear faults access 2
    · by_cases last : clusterOffset + bytes.length ≤ fs.clusterSize
      · have total := pieces_last more last
        refine ⟨1, fs.withCluster cluster (overwrite (fs.clusterBytes cluster) clusterOffset bytes),
          ⟨some_, clear, .inl total.symm⟩, ?_, ?_⟩
        · rw [reached_last last, List.take_length]
          exact overwritten_single geometry low lowRest fresh last
        · rw [if_pos total.symm, writeFileLoop_works disk geometry low more clear last]
      · have across := Nat.not_le.mp last
        cases rest with
        | nil =>
          rw [List.length_nil, Nat.zero_add, Nat.one_mul] at fits
          omega
        | cons following rest =>
          rw [writeFileLoop_continues disk geometry chain bytesWritten clear start across, pieces_more start across]
          obtain ⟨part, width⟩ : ∃ part, part = fs.clusterSize - clusterOffset := ⟨_, rfl⟩
          rw [← width]
          have taken : (bytes.take part).length = part := by
            rw [List.length_take]
            omega
          have first := overwritten_single geometry low lowRest fresh
            (show clusterOffset + (bytes.take part).length ≤ fs.clusterSize by omega)
          have size := first.frame.clusterSize_eq
          have remaining : (bytes.drop part).length = bytes.length - part := List.length_drop
          rw [List.length_cons, Nat.succ_mul] at fits
          obtain ⟨count, after, stops, later, returned⟩ := ih (first.frame.geometry geometry) following 0 rest
            chain.tail.2 (bytes.drop part) (bytesWritten + part) (access + 2)
            (by omega) (by omega) (by rw [size]; exact geometry.clusterSize_pos) (by rw [size]; omega)
          rw [size, remaining] at stops later returned
          have shift : access + 2 + 2 * count = access + 2 * (count + 1) := by omega
          have whole := Overwritten.follow geometry low lowRest fresh (by omega) later
          rw [shift] at returned
          refine ⟨count + 1, after, ⟨Nat.succ_le_succ stops.within, ?_, ?_⟩, ?_, ?_⟩
          · rw [Nat.mul_succ, Nat.add_comm]
            exact clear.append stops.clear
          · rw [← shift]
            exact stops.stop.imp_left (congrArg Nat.succ)
          · rw [reached_more start across, ← width, List.take_add]
            exact whole
          · have total : bytesWritten + part + (bytes.length - part) = bytesWritten + bytes.length := by omega
            rw [returned, reached_more start across, ← width, ← Nat.add_assoc, total]
            simp only [Nat.add_right_cancel_iff]
    · refine ⟨0, fs, ⟨Nat.zero_le _, clear_zero faults access, .inr clear⟩, ?_, ?_⟩
      · rw [reached_zero, List.take_zero]
        exact .refl fs _ _
      · rw [if_neg (by omega), reached_zero]
        exact writeFileLoop_stops disk geometry low more clear

/-- The writes start in the cluster of the offset. -/
theorem seek_and_write (geometry : Geometry fs) {clusters : List Nat} {first : Nat}
    (chain : FileChain fs.fat first clusters) {offset : Nat} (more : 0 < bytes.length)
    (fits : offset + bytes.length ≤ clusters.length * fs.clusterSize) (seekFuel writeFuel access : Nat)
    (enoughSeek : offset < seekFuel) (enoughWrite : bytes.length < writeFuel) :
    ∃ cluster clusterOffset count after, StopsAfter faults access (fs.writePieces offset bytes.length) count ∧
      Overwritten fs after clusters offset (bytes.take (fs.writeReach offset bytes.length count)) ∧
      seekCluster seekFuel first offset (fs.on place access) =
        (.value (cluster, clusterOffset), fs.on place access) ∧
      writeFileLoop writeFuel cluster clusterOffset bytes 0 (fs.on place access) =
        if count = fs.writePieces offset bytes.length then
          (.value bytes.length, after.on place (access + 2 * count))
        else if faults (access + 2 * count) then (.missing, after.on place (access + 2 * count + 1))
        else
          (if count = 0 then .missing else .value (fs.writeReach offset bytes.length count),
            after.on place (access + 2 * count + 2)) := by
  obtain ⟨before, cluster, rest, rfl, low, high, found⟩ := seekCluster_chain geometry clusters first seekFuel offset
    chain enoughSeek (by omega) access
  rw [List.length_append, List.length_cons, Nat.add_mul] at fits
  have start : offset % fs.clusterSize = offset - before.length * fs.clusterSize := by
    rw [← Nat.mod_eq_of_lt (show offset - before.length * fs.clusterSize < fs.clusterSize by omega),
      Nat.mul_comm, Nat.sub_mul_mod (by rw [Nat.mul_comm]; exact low)]
  have inside := Nat.mod_lt offset geometry.clusterSize_pos
  obtain ⟨count, after, stops, written, returned⟩ := writeFileLoop_counted disk geometry writeFuel cluster
    (offset % fs.clusterSize) rest chain.suffix bytes 0 access enoughWrite more inside (by omega)
  have none : 0 + reached fs.clusterSize (offset % fs.clusterSize) bytes.length count = 0 ↔ count = 0 := by
    rcases Nat.eq_zero_or_pos count with rfl | some_
    · simp
    · have positive := reached_pos inside more some_
      omega
  refine ⟨cluster, offset % fs.clusterSize, count, after, stops, written.behind geometry chain (by omega), ?_, ?_⟩
  · rw [found, start]
  · simp only [none] at returned
    rw [Nat.zero_add, Nat.zero_add] at returned
    exact returned

variable {clusters : List Nat} {first offset : Nat}

/-- A write inside the file size replaces a range of the bytes of the chain up to the first failure. -/
theorem writeExistingFile_chain (geometry : Geometry fs) {file : DirectoryEntry} (archive : file.attributes = 32)
    (chain : FileChain fs.fat file.getCluster clusters) (more : bytes ≠ [])
    (fits : offset + bytes.length ≤ file.size.toNat) (covered : file.size.toNat ≤ clusters.length * fs.clusterSize)
    (access : Nat) :
    ∃ count after, StopsAfter faults access (fs.writePieces offset bytes.length) count ∧
      Overwritten fs after clusters offset (bytes.take (fs.writeReach offset bytes.length count)) ∧
      writeExistingFile file offset bytes (fs.on place access) =
        if count = fs.writePieces offset bytes.length then
          (.value bytes.length, after.on place (access + 2 * count))
        else if faults (access + 2 * count) then (.missing, after.on place (access + 2 * count + 1))
        else
          (if count = 0 then .missing else .value (fs.writeReach offset bytes.length count),
            after.on place (access + 2 * count + 2)) := by
  have bound := file.size.toNat_lt
  obtain ⟨cluster, clusterOffset, count, after, stops, written, found, loop⟩ := seek_and_write disk geometry chain
    (List.length_pos_iff.mpr more) (Nat.le_trans fits covered) (offset + fs.fat.entries + 2) (bytes.length + 1) access
    (by omega) (by omega)
  refine ⟨count, after, stops, written, ?_⟩
  rw [← loop, writeExistingFile, get_bind, if_neg (by simp [archive]), if_neg (by unfold usizeLimit; omega),
    if_neg (by omega), if_neg (by simpa using more), if_neg chain.ne_zero]
  exact bind_value found _

/-- Zeroing a range stops at the first failure. -/
theorem zeroFileRange_chain (geometry : Geometry fs) (chain : FileChain fs.fat first clusters)
    {offset size : Nat} (more : 0 < size) (fits : offset + size ≤ clusters.length * fs.clusterSize) (access : Nat) :
    ∃ after : Volume, after.fat = fs.fat ∧ Frame fs after (fun _ => False) (· ∈ clusters) ∧
      ((Clear faults access (2 * fs.writePieces offset size) ∧
          Overwritten fs after clusters offset (List.replicate size 0) ∧
          zeroFileRange first offset size (fs.on place access) =
            (.value (), after.on place (access + 2 * fs.writePieces offset size))) ∨
        (¬ Clear faults access (2 * fs.writePieces offset size) ∧
          ∃ next, zeroFileRange first offset size (fs.on place access) = (.missing, after.on place next))) := by
  have length : (List.replicate size (0 : UInt8)).length = size := List.length_replicate
  obtain ⟨cluster, clusterOffset, count, after, stops, written, found, loop⟩ := seek_and_write disk geometry chain
    (by rw [length]; exact more) (by rw [length]; exact fits) (offset + fs.fat.entries + 2) (size + 1) access
    (by omega) (by rw [length]; omega)
  rw [length] at stops loop written
  have opened : zeroFileRange first offset size (fs.on place access) =
      zeroFileLoop (size + 1) cluster clusterOffset size (fs.on place access) := by
    rw [zeroFileRange, get_bind, if_neg (by omega)]
    exact bind_value found _
  refine ⟨after, written.fat, written.frame, ?_⟩
  rw [opened, zeroFileLoop_eq _ _ _ _ 0, loop]
  by_cases all : count = fs.writePieces offset size
  · refine .inl ⟨by rw [← all]; exact stops.clear, ?_, ?_⟩
    · rw [all, geometry.writeReach_all, List.take_of_length_le (Nat.le_of_eq length)] at written
      exact written
    · rw [if_pos all, all]
      simp
  · have less : count < fs.writePieces offset size := Nat.lt_of_le_of_ne stops.within all
    have fails : ¬ Clear faults access (2 * fs.writePieces offset size) := fun clear =>
      stops.stop.resolve_left all (clear.part (by omega) (by omega))
    have fewer : fs.writeReach offset size count ≠ 0 + size := by
      rw [Nat.zero_add]
      exact Nat.ne_of_lt (reached_lt more less)
    refine .inr ⟨fails, ?_⟩
    rw [if_neg all]
    cases faults (access + 2 * count) with
    | true => exact ⟨_, rfl⟩
    | false =>
      refine ⟨access + 2 * count + 2, ?_⟩
      rw [if_neg Bool.false_ne_true]
      by_cases none : count = 0
      · rw [if_pos none]
      · rw [if_neg none]
        simp only [if_neg fewer]

end Counted

end FATFileSystem

end BubbleOs.Fat
