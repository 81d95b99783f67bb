import BubbleOs.Library.Chain
import BubbleOs.Construction.Fat.Directory
import Mathlib.Data.List.Perm.Subperm
import Mathlib.Logic.Relation

namespace BubbleOs.Fat.FatBuffer

open Attempt

variable {first second : FatBuffer}

/-- This table differs in one word. -/
def assign (buffer : FatBuffer) (cluster : Nat) (value : UInt32) : FatBuffer :=
  { fat := buffer.fat.set cluster value }

/-- This table frees a list of clusters. -/
def release (buffer : FatBuffer) : List Nat → FatBuffer
  | [] => buffer
  | cluster :: rest => (buffer.assign cluster fatClusterFree).release rest

@[simp] theorem entries_assign (buffer : FatBuffer) (cluster : Nat) (value : UInt32) :
    (buffer.assign cluster value).entries = buffer.entries := by
  simp [assign, entries]

@[simp] theorem entries_release (buffer : FatBuffer) (clusters : List Nat) :
    (buffer.release clusters).entries = buffer.entries := by
  induction clusters generalizing buffer with
  | nil => rfl
  | cons cluster rest ih => rw [release, ih, entries_assign]

theorem word_assign (buffer : FatBuffer) (cluster other : Nat) (value : UInt32)
    (inside : cluster < buffer.entries) :
    (buffer.assign cluster value).word other = if other = cluster then value else buffer.word other := by
  simp only [word, assign, List.getD_eq_getElem?_getD, List.getElem?_set]
  by_cases same : other = cluster
  · subst same
    rw [if_pos rfl, if_pos rfl, if_pos (show other < buffer.fat.length from inside)]
    rfl
  · rw [if_neg (fun equal => same equal.symm), if_neg same]

/-- A word behind the table is free. -/
theorem word_outside (buffer : FatBuffer) (cluster : Nat) (outside : buffer.entries ≤ cluster) :
    buffer.word cluster = 0 := by
  rw [word, List.getD_eq_getElem?_getD, List.getElem?_eq_none outside]
  rfl

/-- Only the listed clusters become free. -/
theorem word_release (buffer : FatBuffer) (clusters : List Nat) (cluster : Nat) :
    (buffer.release clusters).word cluster = if cluster ∈ clusters then 0 else buffer.word cluster := by
  induction clusters generalizing buffer with
  | nil => simp [release]
  | cons head rest ih =>
    rw [release, ih]
    by_cases later : cluster ∈ rest
    · rw [if_pos later, if_pos (List.mem_cons_of_mem _ later)]
    · rw [if_neg later]
      by_cases same : cluster = head
      · subst same
        rw [if_pos List.mem_cons_self]
        by_cases inside : cluster < buffer.entries
        · rw [word_assign _ _ _ _ inside, if_pos rfl]
          rfl
        · exact word_outside _ _ (by rw [entries_assign]; omega)
      · rw [if_neg (by simp [same, later])]
        by_cases inside : head < buffer.entries
        · rw [word_assign _ _ _ _ inside, if_neg same]
        · rw [assign, word, word, List.set_eq_of_length_le (Nat.le_of_not_lt inside)]

/-- The words decide the table. -/
theorem ext_word (size : first.entries = second.entries) (same : ∀ cluster, first.word cluster = second.word cluster) :
    first = second := by
  obtain ⟨firstWords⟩ := first
  obtain ⟨secondWords⟩ := second
  congr 1
  apply List.ext_getElem size
  intro cluster left right
  rw [List.getElem_eq_getD 0, List.getElem_eq_getD 0]
  exact same cluster

theorem nextCluster_eq (buffer : FatBuffer) (cluster : Nat) (inside : cluster < buffer.entries) :
    buffer.nextCluster cluster =
      if buffer.word cluster ≥ 0x0FFFFFF8 ∨ buffer.word cluster = 0 then none
      else some (buffer.word cluster).toNat := by
  simp [nextCluster, Nat.not_le.mpr inside]

/-- Tables with the same word have the same link. -/
theorem nextCluster_congr (size : first.entries = second.entries) {cluster : Nat}
    (same : first.word cluster = second.word cluster) : first.nextCluster cluster = second.nextCluster cluster := by
  simp only [nextCluster, size, same]

/-- The chain of a file or directory stays inside the table and ends in an end-of-chain mark. -/
structure FileChain (buffer : FatBuffer) (first : Nat) (clusters : List Nat) : Prop where
  chain : Chain buffer.nextCluster first clusters
  inside : ∀ cluster ∈ clusters, 2 ≤ cluster ∧ cluster < buffer.entries
  used : ∀ cluster ∈ clusters, buffer.word cluster ≠ 0

namespace FileChain

variable {buffer other : FatBuffer} {first : Nat} {clusters : List Nat}

section Chain

variable (chain : FileChain buffer first clusters)

include chain

theorem nodup : clusters.Nodup := chain.chain.nodup

theorem ne_nil : clusters ≠ [] := chain.chain.ne_nil

theorem first_mem : first ∈ clusters := chain.chain.first_mem

theorem unique {others : List Nat}
    (second : FileChain buffer first others) : clusters = others := chain.chain.unique second.chain

theorem low : ∀ cluster ∈ clusters, 2 ≤ cluster :=
  fun cluster member => (chain.inside cluster member).1

theorem low_first : 2 ≤ first := chain.low first chain.first_mem

theorem ne_zero : first ≠ 0 :=
  Nat.ne_of_gt (Nat.lt_of_lt_of_le Nat.two_pos chain.low_first)

end Chain

theorem head_eq {cluster : Nat} {rest : List Nat} (chain : FileChain buffer first (cluster :: rest)) :
    first = cluster := by
  have head := chain.chain.head?_eq
  rw [List.head?_cons, Option.some.injEq] at head
  exact head.symm

theorem suffix {before rest : List Nat} {cluster : Nat} (chain : FileChain buffer first (before ++ cluster :: rest)) :
    FileChain buffer cluster (cluster :: rest) :=
  ⟨chain.chain.suffix rfl, fun other member => chain.inside other (List.mem_append_right _ member),
    fun other member => chain.used other (List.mem_append_right _ member)⟩

/-- The rest of a chain after its first cluster is the chain of the next cluster. -/
theorem tail {following : Nat} {rest : List Nat} (chain : FileChain buffer first (first :: following :: rest)) :
    buffer.nextCluster first = some following ∧ FileChain buffer following (following :: rest) :=
  ⟨@Chain.next_eq _ _ _ [] _ _ _ chain.chain, @suffix _ _ [first] _ _ chain⟩

/-- A table with the same words on the chain has the same chain. -/
theorem congr (chain : FileChain buffer first clusters) (size : other.entries = buffer.entries)
    (same : ∀ cluster ∈ clusters, other.word cluster = buffer.word cluster) : FileChain other first clusters where
  chain := chain.chain.congr fun cluster member => nextCluster_congr size (same cluster member)
  inside cluster member := size ▸ chain.inside cluster member
  used cluster member := same cluster member ▸ chain.used cluster member

/-- The table bounds the length of a chain. -/
theorem length_le (chain : FileChain buffer first clusters) : clusters.length ≤ buffer.entries := by
  have subset : clusters ⊆ List.range buffer.entries := by
    intro cluster member
    exact List.mem_range.mpr (chain.inside cluster member).2
  simpa using (List.subperm_of_subset chain.nodup subset).length_le

end FileChain

variable {buffer : FatBuffer} {cluster : Nat} {before after : FatBuffer} {first : Nat} {clusters : List Nat}
  {kept rest : List Nat} {taken : List Nat}

theorem set_apply (buffer : FatBuffer) (cluster : Nat) (value : UInt32) (inside : cluster < buffer.entries) :
    set cluster value buffer = (.value (), buffer.assign cluster value) := by
  simp [set, Nat.not_le.mpr inside, assign]

/-- The loop frees a whole chain. -/
theorem freeChainLoop_chain (buffer : FatBuffer) (first : Nat) (clusters : List Nat)
    (chain : FileChain buffer first clusters) (fuel : Nat) (enough : clusters.length ≤ fuel) :
    freeChainLoop fuel first buffer = (.value (), buffer.release clusters) := by
  induction clusters generalizing buffer first fuel with
  | nil => exact absurd rfl chain.ne_nil
  | cons cluster rest ih =>
    obtain rfl := chain.head_eq
    have inside := (chain.inside first List.mem_cons_self).2
    obtain ⟨fuel, rfl⟩ : ∃ smaller, fuel = smaller + 1 := ⟨fuel - 1, by simp at enough; omega⟩
    rw [freeChainLoop, get_bind, if_neg (by omega), bind_value (set_apply buffer first _ inside)]
    cases rest with
    | nil =>
      rw [chain.chain.next_single]
      rfl
    | cons following rest =>
      obtain ⟨linked, tail⟩ := chain.tail
      rw [linked]
      have fresh : first ∉ following :: rest := (List.nodup_cons.mp chain.nodup).1
      have kept : FileChain (buffer.assign first fatClusterFree) following (following :: rest) := by
        refine tail.congr (entries_assign _ _ _) ?_
        intro c member
        rw [word_assign _ _ _ _ inside, if_neg]
        rintro rfl
        exact fresh member
      exact ih _ _ kept _ (by simpa using enough)

/-- A chain is freed as a whole. -/
theorem freeChain_chain (buffer : FatBuffer) (first : Nat) (clusters : List Nat)
    (chain : FileChain buffer first clusters) :
    freeChain first buffer = (.value (), buffer.release clusters) := by
  rw [freeChain, get_bind]
  exact freeChainLoop_chain buffer first clusters chain _ (Nat.le_succ_of_le chain.length_le)

/-- A cluster is linked when following links from the first cluster reaches it. -/
def Linked (buffer : FatBuffer) : Nat → Nat → Prop :=
  Relation.ReflTransGen fun cluster following => buffer.nextCluster cluster = some following

/-- A freed cluster creates no link. -/
theorem linked_of_assign_free {cluster first reached : Nat} (inside : cluster < buffer.entries)
    (linked : (buffer.assign cluster fatClusterFree).Linked first reached) : buffer.Linked first reached := by
  refine Relation.ReflTransGen.mono ?_ _ _ linked
  intro from_ to_ step
  by_cases same : from_ = cluster
  · subst same
    rw [nextCluster_eq _ _ (by simpa using inside), word_assign _ _ _ _ inside, if_pos rfl] at step
    simp [fatClusterFree] at step
  · rw [← step]
    apply nextCluster_congr (entries_assign _ _ _).symm
    rw [word_assign _ _ _ _ inside, if_neg same]

/-- The loop changes only clusters that are linked from its first cluster. -/
theorem freeChainLoop_frame (fuel first : Nat) (buffer : FatBuffer) :
    (freeChainLoop fuel first buffer).2.entries = buffer.entries ∧
      ∀ cluster, ¬ buffer.Linked first cluster →
        (freeChainLoop fuel first buffer).2.word cluster = buffer.word cluster := by
  induction fuel generalizing first buffer with
  | zero => exact ⟨rfl, fun _ _ => rfl⟩
  | succ fuel ih =>
    rw [freeChainLoop, get_bind]
    split
    · exact ⟨rfl, fun _ _ => rfl⟩
    · rename_i inside
      have inside : first < buffer.entries := Nat.lt_of_not_le inside
      rw [bind_value (set_apply buffer first _ inside)]
      have kept (cluster : Nat) (unlinked : ¬ buffer.Linked first cluster) :
          (buffer.assign first fatClusterFree).word cluster = buffer.word cluster := by
        rw [word_assign _ _ _ _ inside, if_neg]
        rintro rfl
        exact unlinked .refl
      cases step : buffer.nextCluster first with
      | some next =>
        obtain ⟨size, frame⟩ := ih next (buffer.assign first fatClusterFree)
        refine ⟨size.trans (entries_assign _ _ _), ?_⟩
        intro cluster unlinked
        rw [frame cluster, kept cluster unlinked]
        intro linked
        exact unlinked (.head step (linked_of_assign_free inside linked))
      | none => exact ⟨entries_assign _ _ _, kept⟩

/-- So many words of the table are in use. -/
def usedWords (buffer : FatBuffer) : Nat := buffer.fat.countP (· != 0)

/-- A cluster with a next cluster is in use. -/
theorem used_of_nextCluster {next : Nat} (step : buffer.nextCluster first = some next) :
    first < buffer.entries ∧ buffer.word first ≠ 0 := by
  have inside : first < buffer.entries := by
    by_contra outside
    rw [nextCluster, if_pos (Nat.not_lt.mp outside)] at step
    cases step
  refine ⟨inside, fun free => ?_⟩
  rw [nextCluster_eq buffer first inside, if_pos (.inr free)] at step
  cases step

/-- Freeing a cluster in use takes one word. -/
theorem usedWords_assign_free (inside : first < buffer.entries) (used : buffer.word first ≠ 0) :
    (buffer.assign first fatClusterFree).usedWords + 1 = buffer.usedWords := by
  have within : first < buffer.fat.length := inside
  have stored : buffer.fat[first] ≠ 0 := by
    rw [List.getElem_eq_getD 0]
    exact used
  have some_ : 0 < buffer.fat.countP (· != 0) :=
    List.countP_pos_iff.mpr ⟨_, List.getElem_mem within, by simpa using stored⟩
  rw [usedWords, assign, List.countP_set within, if_pos (by simpa using stored), if_neg (by simp [fatClusterFree]), usedWords]
  omega

/-- A freed cluster cuts only its own link. -/
theorem linked_assign_free {next : Nat} (step : buffer.nextCluster first = some next)
    (linked : buffer.Linked next cluster) :
    cluster = first ∨ (buffer.assign first fatClusterFree).Linked next cluster := by
  have inside := (used_of_nextCluster step).1
  induction linked with
  | refl => exact .inr .refl
  | tail _ link ih =>
    rename_i before after _
    right
    by_cases same : before = first
    · subst same
      obtain rfl := Option.some.inj (step.symm.trans link)
      exact .refl
    · refine (ih.resolve_left same).tail ?_
      rw [← link]
      apply nextCluster_congr (entries_assign _ _ _)
      rw [word_assign _ _ _ _ inside, if_neg same]

/-- Fuel beyond the words in use changes nothing. -/
theorem freeChainLoop_fuel (fuel other first : Nat) (buffer : FatBuffer) (enough : buffer.usedWords < fuel)
    (more : buffer.usedWords < other) : freeChainLoop fuel first buffer = freeChainLoop other first buffer := by
  induction fuel generalizing other first buffer with
  | zero => cases enough
  | succ fuel ih =>
    obtain ⟨other, rfl⟩ := Nat.exists_eq_succ_of_ne_zero (Nat.ne_zero_of_lt more)
    rw [freeChainLoop, freeChainLoop, get_bind, get_bind]
    by_cases outside : first ≥ buffer.entries
    · rw [if_pos outside, if_pos outside]
    · have inside := Nat.not_le.mp outside
      rw [if_neg outside, if_neg outside, bind_value (set_apply buffer first _ inside),
        bind_value (set_apply buffer first _ inside)]
      cases step : buffer.nextCluster first with
      | none => rfl
      | some next =>
        have fewer := usedWords_assign_free inside (used_of_nextCluster step).2
        exact ih other next _ (by omega) (by omega)

/-- The loop frees all linked clusters, or one of them lies behind the table. -/
theorem freeChainLoop_exact (fuel first : Nat) (buffer : FatBuffer) (enough : buffer.usedWords < fuel) :
    (∃ after, freeChainLoop fuel first buffer = (.value (), after) ∧
        ∀ cluster, buffer.Linked first cluster → cluster < buffer.entries ∧ after.word cluster = 0) ∨
      ∃ after cluster, freeChainLoop fuel first buffer = (.missing, after) ∧ buffer.Linked first cluster ∧
        buffer.entries ≤ cluster := by
  induction fuel generalizing first buffer with
  | zero => cases enough
  | succ fuel ih =>
    rw [freeChainLoop, get_bind]
    by_cases outside : first ≥ buffer.entries
    · rw [if_pos outside]
      exact .inr ⟨buffer, first, rfl, .refl, outside⟩
    · have inside := Nat.not_le.mp outside
      have freed : (buffer.assign first fatClusterFree).word first = 0 := by
        rw [word_assign _ _ _ _ inside, if_pos rfl]
        rfl
      rw [if_neg outside, bind_value (set_apply buffer first _ inside)]
      cases step : buffer.nextCluster first with
      | none =>
        refine .inl ⟨_, rfl, fun cluster linked => ?_⟩
        rcases linked.cases_head with rfl | ⟨next, link, _⟩
        · exact ⟨inside, freed⟩
        · cases step.symm.trans link
      | some next =>
        have fewer := usedWords_assign_free inside (used_of_nextCluster step).2
        rcases ih next (buffer.assign first fatClusterFree) (by omega) with
          ⟨after, returned, zero⟩ | ⟨after, cluster, returned, linked, behind⟩
        · refine .inl ⟨after, returned, fun cluster linked => ?_⟩
          by_cases again : (buffer.assign first fatClusterFree).Linked next cluster
          · rw [← entries_assign buffer first fatClusterFree]
            exact zero cluster again
          · -- only the cluster that was freed first can be linked no more
            obtain rfl : cluster = first := by
              rcases linked.cases_head with same | ⟨other, link, rest⟩
              · exact same.symm
              · obtain rfl := Option.some.inj (step.symm.trans link)
                exact (linked_assign_free step rest).resolve_right again
            have kept := (freeChainLoop_frame fuel next (buffer.assign cluster fatClusterFree)).2 cluster again
            rw [returned, freed] at kept
            exact ⟨inside, kept⟩
        · rw [entries_assign] at behind
          exact .inr ⟨after, cluster, returned, .head step (linked_of_assign_free inside linked), behind⟩

/-- Freeing a chain ends on every table. It frees exactly the clusters that are linked from the first one, and it is
refused only when one of them lies behind the table. -/
theorem freeChain_exact (buffer : FatBuffer) (first : Nat) :
    (∀ fuel, buffer.entries < fuel → freeChainLoop fuel first buffer = freeChain first buffer) ∧
      ((∃ after, freeChain first buffer = (.value (), after) ∧ after.entries = buffer.entries ∧
          ∀ cluster, (buffer.Linked first cluster → cluster < buffer.entries ∧ after.word cluster = 0) ∧
            (¬ buffer.Linked first cluster → after.word cluster = buffer.word cluster)) ∨
        ∃ after cluster, freeChain first buffer = (.missing, after) ∧ buffer.Linked first cluster ∧
          buffer.entries ≤ cluster) := by
  have bound : buffer.usedWords ≤ buffer.entries := List.countP_le_length
  have opened : freeChain first buffer = freeChainLoop (buffer.entries + 1) first buffer := rfl
  refine ⟨fun fuel enough => freeChainLoop_fuel _ _ first buffer (by omega) (by omega), ?_⟩
  obtain ⟨size, kept⟩ := freeChainLoop_frame (buffer.entries + 1) first buffer
  rw [opened]
  rcases freeChainLoop_exact (buffer.entries + 1) first buffer (by omega) with ⟨after, returned, zero⟩ | refused
  · rw [returned] at size kept
    exact .inl ⟨after, returned, size, fun cluster => ⟨zero cluster, kept cluster⟩⟩
  · exact .inr refused

-- a cycle ends at the cluster that was freed first
example : freeChain 2 ⟨[9, 9, 3, 4, 2, 7]⟩ = (.value (), ⟨[9, 9, 0, 0, 0, 7]⟩) := rfl

/-- The free cluster lies inside the table. -/
theorem findFreeCluster_eq_some (found : buffer.findFreeCluster = some cluster) :
    (2 ≤ cluster ∧ cluster < buffer.entries) ∧ buffer.word cluster = 0 := by
  have member := List.mem_of_find?_eq_some found
  have free := List.find?_some found
  rw [List.mem_range'_1] at member
  exact ⟨by omega, by simpa [fatClusterFree] using free⟩

/-- A table with no free cluster has no free word behind the first two. -/
theorem findFreeCluster_eq_none (full : buffer.findFreeCluster = none) (cluster : Nat) (low : 2 ≤ cluster)
    (high : cluster < buffer.entries) : buffer.word cluster ≠ 0 := by
  have used := List.find?_eq_none.mp full cluster (List.mem_range'_1.mpr (by omega))
  simpa [fatClusterFree] using used

/-- The allocated clusters were free and form a chain. -/
structure Allocated (before after : FatBuffer) (first : Nat) (clusters : List Nat) : Prop where
  size : after.entries = before.entries
  chain : FileChain after first clusters
  fresh : ∀ cluster ∈ clusters, before.word cluster = 0
  rest : ∀ cluster, cluster ∉ clusters → after.word cluster = before.word cluster

/-- Freeing the allocated clusters returns the old table. -/
theorem Allocated.release_eq (allocated : Allocated before after first clusters) :
    after.release clusters = before := by
  apply ext_word
  · rw [entries_release, allocated.size]
  · intro cluster
    rw [word_release]
    split
    · rename_i member
      exact (allocated.fresh cluster member).symm
    · rename_i absent
      exact allocated.rest cluster absent

/-- A link to a cluster of a supported table is followed. -/
theorem nextCluster_assign_link (limit : buffer.entries ≤ 0x0FFFFFF7) {cluster target : Nat}
    (inside : cluster < buffer.entries) (positive : 0 < target) (below : target < buffer.entries) :
    (buffer.assign cluster (UInt32.ofNat target)).nextCluster cluster = some target := by
  have value : (UInt32.ofNat target).toNat = target := by
    rw [UInt32.toNat_ofNat']
    omega
  have small : ¬ (UInt32.ofNat target ≥ 0x0FFFFFF8) := by
    rw [ge_iff_le, UInt32.le_iff_toNat_le, value]
    change ¬ 0x0FFFFFF8 ≤ target
    omega
  have nonzero : UInt32.ofNat target ≠ 0 := by
    intro zero
    rw [zero, UInt32.toNat_zero] at value
    omega
  rw [nextCluster_eq _ _ (by simpa using inside), word_assign _ _ _ _ inside, if_pos rfl,
    if_neg (by simp only [small, nonzero, or_self, not_false_eq_true]), value]

/-- An end mark has no link. -/
theorem nextCluster_assign_eof (buffer : FatBuffer) (inside : cluster < buffer.entries) :
    (buffer.assign cluster fatClusterEof).nextCluster cluster = none := by
  rw [nextCluster_eq _ _ (by simpa using inside), word_assign _ _ _ _ inside, if_pos rfl]
  decide

/-- A link from the last cluster joins a disjoint chain to a chain. -/
theorem FileChain.join (limit : buffer.entries ≤ 0x0FFFFFF7) {first final second : Nat} {before rest : List Nat}
    (chain : FileChain buffer first (before ++ [final])) (tail : FileChain buffer second rest)
    (apart : ∀ cluster ∈ before ++ [final], cluster ∉ rest) :
    FileChain (buffer.assign final (UInt32.ofNat second)) first (before ++ final :: rest) := by
  have inside := chain.inside final (by simp)
  have target := tail.inside second tail.first_mem
  have linked := nextCluster_assign_link limit inside.2 (by omega) target.2
  have distinct : final ∉ before := by
    intro member
    have nodup := chain.nodup
    rw [List.nodup_append] at nodup
    exact nodup.2.2 final member final (by simp) rfl
  have same (cluster : Nat) (different : cluster ≠ final) :
      (buffer.assign final (UInt32.ofNat second)).word cluster = buffer.word cluster := by
    rw [word_assign _ _ _ _ inside.2, if_neg different]
  have later := tail.congr (entries_assign buffer final (UInt32.ofNat second)) fun cluster member =>
    same cluster (by rintro rfl; exact apart cluster (by simp) member)
  refine ⟨chain.chain.extend ?_ linked later.chain, ?_, ?_⟩
  · intro cluster member
    exact nextCluster_congr (entries_assign _ _ _) (same cluster (by rintro rfl; exact distinct member))
  · intro cluster member
    rw [entries_assign]
    rcases List.mem_append.mp member with left | right
    · exact chain.inside cluster (by simp [left])
    · rcases List.mem_cons.mp right with rfl | right
      · exact inside
      · exact tail.inside cluster right
  · intro cluster member
    by_cases final_ : cluster = final
    · subst final_
      rw [word_assign _ _ _ _ inside.2, if_pos rfl]
      intro zero
      rw [nextCluster_eq _ _ (by simpa using inside.2), word_assign _ _ _ _ inside.2, if_pos rfl, zero] at linked
      simp at linked
    · rw [same cluster final_]
      rcases List.mem_append.mp member with left | right
      · exact chain.used cluster (by simp [left])
      · rcases List.mem_cons.mp right with rfl | right
        · exact absurd rfl final_
        · exact tail.used cluster right

/-- This table ends a chain early and frees the rest of it. -/
def cut (buffer : FatBuffer) (last : Nat) (rest : List Nat) : FatBuffer :=
  (buffer.assign last fatClusterEof).release rest

@[simp] theorem entries_cut (buffer : FatBuffer) (last : Nat) (rest : List Nat) :
    (buffer.cut last rest).entries = buffer.entries := by
  rw [cut, entries_release, entries_assign]

/-- The cut changes the last kept cluster and frees the clusters behind it. -/
theorem word_cut {first last : Nat} (chain : FileChain buffer first (kept ++ last :: rest)) (cluster : Nat) :
    (buffer.cut last rest).word cluster =
      if cluster ∈ rest then 0 else if cluster = last then fatClusterEof else buffer.word cluster := by
  rw [cut, word_release, word_assign _ _ _ _ (chain.inside last (by simp)).2]

/-- The kept clusters form a chain of their own. -/
theorem FileChain.cut {first last : Nat} (chain : FileChain buffer first (kept ++ last :: rest)) :
    FileChain (buffer.cut last rest) first (kept ++ [last]) := by
  have nodup := chain.nodup
  rw [List.nodup_append, List.nodup_cons] at nodup
  obtain ⟨_, ⟨lastFresh, _⟩, apart⟩ := nodup
  have size := entries_cut buffer last rest
  have ended : (buffer.cut last rest).word last = fatClusterEof := by
    rw [word_cut chain, if_neg lastFresh, if_pos rfl]
  have same (cluster : Nat) (member : cluster ∈ kept) :
      (buffer.cut last rest).word cluster = buffer.word cluster := by
    rw [word_cut chain, if_neg fun inside => apart cluster member cluster (by simp [inside]) rfl,
      if_neg fun equal => apart cluster member cluster (by simp [equal]) rfl]
  refine ⟨chain.chain.cut (fun cluster member => nextCluster_congr size (same cluster member)) ?_, ?_, ?_⟩
  · rw [nextCluster_eq _ _ (by rw [size]; exact (chain.inside last (by simp)).2), ended]
    decide
  · intro cluster member
    rw [size]
    exact chain.inside cluster (by simp at member ⊢; tauto)
  · intro cluster member
    rcases List.mem_append.mp member with inside | equal
    · rw [same cluster inside]
      exact chain.used cluster (by simp [inside])
    · rw [List.mem_singleton.mp equal, ended]
      decide

/-- A free cluster becomes a chain of its own. -/
theorem allocated_single (low : 2 ≤ cluster) (inside : cluster < buffer.entries) (free : buffer.word cluster = 0) :
    Allocated buffer (buffer.assign cluster fatClusterEof) cluster [cluster] where
  size := entries_assign _ _ _
  chain :=
    { chain := .last (nextCluster_assign_eof buffer inside)
      inside := by
        intro other member
        rw [List.mem_singleton.mp member, entries_assign]
        exact ⟨low, inside⟩
      used := by
        intro other member
        rw [List.mem_singleton.mp member, word_assign _ _ _ _ inside, if_pos rfl]
        decide }
  fresh := by
    intro other member
    rw [List.mem_singleton.mp member, free]
  rest := by
    intro other absent
    rw [word_assign _ _ _ _ inside, if_neg (by simpa using absent)]

/-- A free cluster joins the allocated chain. -/
theorem Allocated.snoc (limit : before.entries ≤ 0x0FFFFFF7) {first prev cluster : Nat}
    (allocated : Allocated before after first (taken ++ [prev])) (low : 2 ≤ cluster)
    (inside : cluster < after.entries) (free : after.word cluster = 0) :
    Allocated before ((after.assign cluster fatClusterEof).assign prev (UInt32.ofNat cluster)) first
      (taken ++ prev :: [cluster]) := by
  have prevInside := allocated.chain.inside prev (by simp)
  have absent : cluster ∉ taken ++ [prev] := fun member => allocated.chain.used cluster member free
  have single := allocated_single low inside free
  have kept : FileChain (after.assign cluster fatClusterEof) first (taken ++ [prev]) :=
    allocated.chain.congr single.size fun other member =>
      single.rest other (by simp only [List.mem_singleton]; rintro rfl; exact absent member)
  have limited : (after.assign cluster fatClusterEof).entries ≤ 0x0FFFFFF7 := by
    rw [entries_assign, allocated.size]
    exact limit
  refine ⟨?_, kept.join limited single.chain ?_, ?_, ?_⟩
  · rw [entries_assign, entries_assign, allocated.size]
  · intro other member
    simp only [List.mem_singleton]
    rintro rfl
    exact absent member
  · intro other member
    rcases List.mem_append.mp member with left | right
    · exact allocated.fresh other (by simp [left])
    · rcases List.mem_cons.mp right with rfl | right
      · exact allocated.fresh other (by simp)
      · rw [List.mem_singleton.mp right, ← allocated.rest cluster absent, free]
  · intro other outside
    simp only [List.mem_append, List.mem_cons, List.not_mem_nil, or_false, not_or] at outside
    rw [word_assign _ _ _ _ (by rw [entries_assign]; exact prevInside.2), if_neg outside.2.1,
      single.rest other (by simpa using outside.2.2), allocated.rest other (by simp [outside.1, outside.2.1])]

/-- An abandoned chain leaves the old table. -/
theorem abandonChain_allocated (allocated : Allocated before after first clusters) :
    abandonChain first after = (.missing, before) := by
  have nonzero := (allocated.chain.inside first allocated.chain.first_mem).1
  have freed := orNone_value (freeChain_chain after first clusters allocated.chain)
  rw [allocated.release_eq] at freed
  rw [abandonChain, if_pos (by simp only [bne_iff_ne, ne_eq]; omega), bind_value freed]
  rfl

/-- These clusters are free. -/
def freeClusters (buffer : FatBuffer) : List Nat :=
  (List.range' 2 (buffer.entries - 2)).filter fun cluster => buffer.word cluster == fatClusterFree

theorem mem_freeClusters :
    cluster ∈ buffer.freeClusters ↔ (2 ≤ cluster ∧ cluster < buffer.entries) ∧ buffer.word cluster = 0 := by
  rw [freeClusters, List.mem_filter, List.mem_range'_1, beq_iff_eq, fatClusterFree]
  exact and_congr_left fun _ => by omega

/-- An allocation takes no more clusters than there are free ones. -/
theorem Allocated.length_le (allocated : Allocated before after first clusters) :
    clusters.length ≤ before.freeClusters.length := by
  refine (List.subperm_of_subset allocated.chain.nodup ?_).length_le
  intro cluster member
  have inside := allocated.chain.inside cluster member
  rw [allocated.size] at inside
  exact mem_freeClusters.mpr ⟨inside, allocated.fresh cluster member⟩

/-- An allocation that leaves no free cluster has taken all of them. -/
theorem Allocated.length_of_full (allocated : Allocated before after first clusters)
    (full : after.findFreeCluster = none) : before.freeClusters.length ≤ clusters.length := by
  refine (List.subperm_of_subset (List.Nodup.filter _ (List.nodup_range' 1)) ?_).length_le
  intro cluster member
  obtain ⟨⟨low, high⟩, free⟩ := mem_freeClusters.mp member
  by_contra outside
  refine findFreeCluster_eq_none full cluster low (by rw [allocated.size]; exact high) ?_
  rw [allocated.rest cluster outside, free]

/-- One turn of the loop marks a free cluster and links it behind the last cluster. -/
theorem allocateChainLoop_step {prev cluster : Nat} (count first : Nat)
    (found : buffer.findFreeCluster = some cluster) (inside : prev < buffer.entries) :
    allocateChainLoop (count + 1) first (some prev) buffer =
      allocateChainLoop count first (some cluster)
        ((buffer.assign cluster fatClusterEof).assign prev (UInt32.ofNat cluster)) := by
  have free := (findFreeCluster_eq_some found).1.2
  rw [allocateChainLoop, get_bind, found]
  exact (bind_value (orNone_value (set_apply buffer cluster _ free)) _).trans
    (bind_value (orNone_value (set_apply _ prev _ (by simpa using inside))) _)

/-- The first turn of the loop marks a free cluster. -/
theorem allocateChainLoop_start (count : Nat) (found : buffer.findFreeCluster = some cluster) :
    allocateChainLoop (count + 1) 0 none buffer =
      allocateChainLoop count cluster (some cluster) (buffer.assign cluster fatClusterEof) := by
  have free := (findFreeCluster_eq_some found).1.2
  rw [allocateChainLoop, get_bind, found]
  exact bind_value (orNone_value (set_apply buffer cluster _ free)) _

/-- The loop lengthens the chain or returns the old table. -/
theorem allocateChainLoop_spec {before : FatBuffer} (limit : before.entries ≤ 0x0FFFFFF7) (count : Nat)
    {after : FatBuffer} {first prev : Nat} (allocated : Allocated before after first (taken ++ [prev]))
    (ended : after.word prev = fatClusterEof) :
    (∃ final more, allocateChainLoop count first (some prev) after = (.value first, final) ∧
        Allocated before final first (taken ++ prev :: more) ∧ more.length = count ∧
        final.word (more.getLastD prev) = fatClusterEof) ∨
      (allocateChainLoop count first (some prev) after = (.missing, before) ∧
        before.freeClusters.length < taken.length + 1 + count) := by
  induction count generalizing after prev taken with
  | zero => exact .inl ⟨after, [], rfl, allocated, rfl, ended⟩
  | succ count ih =>
    cases found : after.findFreeCluster with
    | none =>
      have all := allocated.length_of_full found
      rw [List.length_append, List.length_singleton] at all
      refine .inr ⟨?_, by omega⟩
      rw [allocateChainLoop, get_bind, found]
      exact abandonChain_allocated allocated
    | some cluster =>
      obtain ⟨⟨low, inside⟩, free⟩ := findFreeCluster_eq_some found
      have prevInside := (allocated.chain.inside prev (by simp)).2
      have step := allocateChainLoop_step count first found prevInside
      have longer := allocated.snoc limit low inside free
      have other : cluster ≠ prev := by
        rintro rfl
        exact allocated.chain.used cluster (by simp) free
      have marked : ((after.assign cluster fatClusterEof).assign prev (UInt32.ofNat cluster)).word cluster =
          fatClusterEof := by
        rw [word_assign _ _ _ _ (by simpa using prevInside), if_neg other, word_assign _ _ _ _ inside, if_pos rfl]
      rw [List.append_cons] at longer
      rw [step]
      rcases ih longer marked with ⟨final, more, returned, chain, length, last⟩ | ⟨failed, few⟩
      · refine .inl ⟨final, cluster :: more, returned, ?_, by simp [length], ?_⟩
        · rw [List.append_assoc] at chain
          exact chain
        · rwa [List.getLastD_cons]
      · rw [List.length_append, List.length_singleton] at few
        exact .inr ⟨failed, by omega⟩

/-- An allocation returns a marked chain of free clusters, or there are too few of them and the table stays. -/
theorem allocateChain_cases (limit : buffer.entries ≤ 0x0FFFFFF7) (count : Nat) (positive : 0 < count) :
    (∃ first more after, allocateChain count buffer = (.value first, after) ∧
        Allocated buffer after first (first :: more) ∧ (first :: more).length = count ∧
        after.word (more.getLastD first) = fatClusterEof) ∨
      (allocateChain count buffer = (.missing, buffer) ∧ buffer.freeClusters.length < count) := by
  obtain ⟨count, rfl⟩ := Nat.exists_eq_succ_of_ne_zero (Nat.ne_of_gt positive)
  rw [allocateChain, if_neg (by omega)]
  cases found : buffer.findFreeCluster with
  | none =>
    have none : buffer.freeClusters = [] := by
      refine List.filter_eq_nil_iff.mpr fun cluster member => ?_
      exact List.find?_eq_none.mp found cluster member
    refine .inr ⟨?_, by rw [none]; exact Nat.succ_pos _⟩
    rw [allocateChainLoop, get_bind, found]
    rfl
  | some cluster =>
    obtain ⟨⟨low, inside⟩, free⟩ := findFreeCluster_eq_some found
    have single := allocated_single low inside free
    have marked : (buffer.assign cluster fatClusterEof).word cluster = fatClusterEof := by
      rw [word_assign _ _ _ _ inside, if_pos rfl]
    rw [allocateChainLoop_start count found]
    rw [← List.nil_append [cluster]] at single
    rcases allocateChainLoop_spec limit count single marked with
      ⟨final, more, returned, chain, length, last⟩ | ⟨failed, few⟩
    · exact .inl ⟨cluster, more, final, returned, chain, by simp [length], last⟩
    · rw [List.length_nil, Nat.zero_add, Nat.add_comm] at few
      exact .inr ⟨failed, few⟩

/-- An allocation returns a chain of free clusters, or there are too few of them and the table stays. -/
theorem allocateChain_spec (limit : buffer.entries ≤ 0x0FFFFFF7) (count : Nat) (positive : 0 < count) :
    (∃ first clusters after, allocateChain count buffer = (.value first, after) ∧
        Allocated buffer after first clusters ∧ clusters.length = count) ∨
      (allocateChain count buffer = (.missing, buffer) ∧ buffer.freeClusters.length < count) := by
  rcases allocateChain_cases limit count positive with ⟨first, more, after, returned, chain, length, _⟩ | failed
  · exact .inl ⟨first, first :: more, after, returned, chain, length⟩
  · exact .inr failed

/-- A single cluster is allocated if any is free. -/
theorem allocateChain_one (limit : buffer.entries ≤ 0x0FFFFFF7) :
    (∃ cluster after, allocateChain 1 buffer = (.value cluster, after) ∧ Allocated buffer after cluster [cluster]) ∨
      allocateChain 1 buffer = (.missing, buffer) := by
  rcases allocateChain_spec limit 1 Nat.one_pos with ⟨first, clusters, after, returned, allocated, single⟩ | ⟨missing, _⟩
  · obtain ⟨only, rfl⟩ := List.length_eq_one_iff.mp single
    obtain rfl : only = first := Option.some.inj allocated.chain.chain.head?_eq
    exact .inl ⟨only, after, returned, allocated⟩
  · exact .inr missing

/-- A chain holds the allocated clusters alone, and nothing else in the table changed. -/
structure ExactChain (before after : FatBuffer) (first count : Nat) (clusters : List Nat) : Prop where
  chain : Chain after.nextCluster first clusters
  length : clusters.length = count
  distinct : clusters.Nodup
  free : ∀ cluster ∈ clusters, (2 ≤ cluster ∧ cluster < before.entries) ∧ before.word cluster = fatClusterFree
  marked : ∀ last, clusters.getLast? = some last → after.word last = fatClusterEof
  size : after.entries = before.entries
  rest : ∀ cluster, cluster ∉ clusters → after.word cluster = before.word cluster

/-- An allocation succeeds exactly when enough clusters are free, and a failed one changes nothing. -/
theorem allocateChain_exact (buffer : FatBuffer) (limit : buffer.entries ≤ 0x0FFFFFF7) (count : Nat) :
    (∀ first after, allocateChain count buffer = (.value first, after) →
        ∃ clusters, ExactChain buffer after first count clusters) ∧
      ((allocateChain count buffer).1 = .missing ↔ count = 0 ∨ buffer.freeClusters.length < count) ∧
      ((allocateChain count buffer).1 = .missing → (allocateChain count buffer).2 = buffer) ∧
      (allocateChain count buffer).1 ≠ .hang := by
  rcases Nat.eq_zero_or_pos count with rfl | positive
  · have refused : allocateChain 0 buffer = (.missing, buffer) := rfl
    simp [refused]
  rcases allocateChain_cases limit count positive with
    ⟨first, more, after, returned, allocated, length, last⟩ | ⟨refused, few⟩
  · have enough := allocated.length_le
    rw [length] at enough
    simp only [returned, Prod.mk.injEq, Outcome.value.injEq, reduceCtorEq, false_iff, not_or, Nat.not_lt, ne_eq,
      not_false_eq_true, IsEmpty.forall_iff, and_true]
    refine ⟨?_, by omega, enough⟩
    rintro _ _ ⟨rfl, rfl⟩
    refine ⟨first :: more, allocated.chain.chain, length, allocated.chain.nodup, ?_, ?_, allocated.size, allocated.rest⟩
    · intro cluster member
      have inside := allocated.chain.inside cluster member
      rw [allocated.size] at inside
      exact ⟨inside, allocated.fresh cluster member⟩
    · intro final ends
      rw [List.getLast?_cons, Option.some.injEq] at ends
      rw [← ends]
      simpa using last
  · simp [refused, few]

/-- Two of three free clusters become a chain. -/
theorem allocateChain_exact_two :
    ∃ clusters, ExactChain ⟨[0, 0, 0, 0x0FFFFFFF, 0, 0]⟩ ⟨[0, 0, 4, 0x0FFFFFFF, 0x0FFFFFFF, 0]⟩ 2 2 clusters :=
  (allocateChain_exact ⟨[0, 0, 0, 0x0FFFFFFF, 0, 0]⟩ (by decide) 2).1 2 _ (by decide +kernel)

end BubbleOs.Fat.FatBuffer

namespace BubbleOs.Fat

open Attempt

namespace FatBuffer

/-- The allocator may take this cluster. -/
def Free (buffer : FatBuffer) (cluster : Nat) : Prop :=
  (2 ≤ cluster ∧ cluster < buffer.entries) ∧ buffer.word cluster = 0

/-- A running allocation keeps the words in use and links free clusters to free clusters only. -/
structure Taking (before now : FatBuffer) : Prop where
  size : now.entries = before.entries
  used : ∀ cluster, before.word cluster ≠ 0 → now.word cluster = before.word cluster
  closed : ∀ cluster following, before.Free cluster → now.nextCluster cluster = some following → before.Free following

section Taking

variable {before now : FatBuffer} {cluster : Nat} {after : FatBuffer}

theorem taking_refl (buffer : FatBuffer) : Taking buffer buffer where
  size := rfl
  used := fun _ _ => rfl
  closed := by
    rintro cluster following ⟨⟨_, inside⟩, free⟩ linked
    rw [nextCluster_eq _ _ inside, free] at linked
    simp at linked

/-- A cluster that is free during the allocation was free before. -/
theorem Taking.free (taking : Taking before now) (found : now.findFreeCluster = some cluster) :
    before.Free cluster := by
  obtain ⟨range, free⟩ := findFreeCluster_eq_some found
  rw [taking.size] at range
  refine ⟨range, ?_⟩
  by_contra used
  rw [taking.used cluster used] at free
  exact used free

/-- A free cluster may be marked as the end of a chain or linked to a free cluster. -/
theorem Taking.assign (taking : Taking before now) (free : before.Free cluster) {value : UInt32}
    (target : ∀ following, (now.assign cluster value).nextCluster cluster = some following → before.Free following) :
    Taking before (now.assign cluster value) := by
  have inside : cluster < now.entries := by
    rw [taking.size]
    exact free.1.2
  constructor
  case size => rw [entries_assign, taking.size]
  case used =>
    intro other used
    rw [word_assign _ _ _ _ inside, if_neg, taking.used other used]
    rintro rfl
    exact used free.2
  case closed =>
    intro other following otherFree linked
    by_cases same : other = cluster
    · rw [same] at linked
      exact target following linked
    · have word : (now.assign cluster value).word other = now.word other := by
        rw [word_assign _ _ _ _ inside, if_neg same]
      rw [nextCluster_congr (entries_assign _ _ _) word] at linked
      exact taking.closed other following otherFree linked

theorem Taking.mark (taking : Taking before now) (free : before.Free cluster) :
    Taking before (now.assign cluster fatClusterEof) := by
  refine taking.assign free ?_
  intro following linked
  have inside : cluster < now.entries := by
    rw [taking.size]
    exact free.1.2
  rw [nextCluster_assign_eof now inside] at linked
  contradiction

/-- The stored link is the cluster number itself while the table is not longer than the words can say. -/
theorem Taking.link (taking : Taking before now) (limit : before.entries ≤ 2 ^ 32 + 1) {prev cluster : Nat}
    (free : before.Free prev) (next : before.Free cluster) :
    Taking before (now.assign prev (UInt32.ofNat cluster)) := by
  refine taking.assign free ?_
  intro following linked
  have inside : prev < now.entries := by
    rw [taking.size]
    exact free.1.2
  rw [nextCluster_eq _ _ (by rw [entries_assign]; exact inside), word_assign _ _ _ _ inside, if_pos rfl] at linked
  split at linked
  · contradiction
  · rename_i stored
    obtain rfl := Option.some.inj linked
    have nonzero : (UInt32.ofNat cluster).toNat ≠ 0 := by
      intro zero
      exact stored (.inr (UInt32.toNat_inj.mp zero))
    rw [UInt32.toNat_ofNat'] at nonzero ⊢
    have below := next.1.2
    rw [Nat.mod_eq_of_lt (by omega)]
    exact next

theorem abandonChain_ne_value {first result : Nat} {buffer after : FatBuffer} :
    abandonChain first buffer ≠ (.value result, after) := by
  intro returned
  rw [abandonChain] at returned
  split at returned
  · obtain ⟨_, _, _, failed⟩ := (bind_eq_value_iff _ _ _ _ _).mp returned
    cases failed
  · cases returned

/-- Every turn of the loop takes a free cluster. -/
theorem allocateChainLoop_taking (limit : before.entries ≤ 2 ^ 32 + 1) {count first prev result : Nat}
    (taking : Taking before now) (free : before.Free prev)
    (returned : allocateChainLoop count first (some prev) now = (.value result, after)) :
    result = first ∧ Taking before after := by
  induction count generalizing now prev with
  | zero =>
    obtain ⟨value, rfl⟩ := Prod.mk.inj returned
    exact ⟨(Outcome.value.inj value).symm, taking⟩
  | succ count ih =>
    cases found : now.findFreeCluster with
    | none =>
      rw [allocateChainLoop, get_bind, found] at returned
      exact absurd returned abandonChain_ne_value
    | some cluster =>
      have inside : prev < now.entries := by
        rw [taking.size]
        exact free.1.2
      have next := taking.free found
      rw [allocateChainLoop_step count first found inside] at returned
      exact ih ((taking.mark next).link limit free next) next returned

/-- Every cluster of an allocated chain was free. -/
theorem allocateChain_free (limit : before.entries ≤ 2 ^ 32 + 1) {count first : Nat}
    (returned : allocateChain count before = (.value first, after)) (linked : after.Linked first cluster) :
    before.Free cluster := by
  rw [allocateChain] at returned
  split at returned
  · cases returned
  · rename_i positive
    obtain ⟨count, rfl⟩ := Nat.exists_eq_succ_of_ne_zero positive
    cases found : before.findFreeCluster with
    | none =>
      rw [allocateChainLoop, get_bind, found] at returned
      exact absurd returned abandonChain_ne_value
    | some start =>
      have free := (taking_refl before).free found
      rw [allocateChainLoop_start count found] at returned
      obtain ⟨rfl, taking⟩ := allocateChainLoop_taking limit ((taking_refl before).mark free) free returned
      induction linked with
      | refl => exact free
      | tail _ step ih => exact taking.closed _ _ ih step

end Taking

/-- Only the last word of this table is free. -/
def lastFree (entries : Nat) : FatBuffer := { fat := List.replicate (entries - 1) fatClusterEof ++ [fatClusterFree] }

theorem entries_lastFree {entries : Nat} (enough : 0 < entries) : (lastFree entries).entries = entries := by
  rw [FatBuffer.entries, lastFree, List.length_append, List.length_replicate, List.length_singleton]
  omega

theorem allocateChain_lastFree {entries : Nat} (enough : 2 < entries) :
    ∃ after, allocateChain 1 (lastFree entries) = (.value (entries - 1), after) := by
  have size := entries_lastFree (show 0 < entries by omega)
  have word (cluster : Nat) (below : cluster < entries - 1) : (lastFree entries).word cluster = fatClusterEof := by
    rw [FatBuffer.word, lastFree, List.getD_eq_getElem?_getD, List.getElem?_append_left (by rw [List.length_replicate]; exact below),
      List.getElem?_replicate_of_lt below]
    rfl
  have last : (lastFree entries).word (entries - 1) = 0 := by
    rw [FatBuffer.word, lastFree, List.getD_eq_getElem?_getD,
      List.getElem?_append_right (Nat.le_of_eq List.length_replicate), List.length_replicate, Nat.sub_self]
    rfl
  have found : (lastFree entries).findFreeCluster = some (entries - 1) := by
    cases found : (lastFree entries).findFreeCluster with
    | none => exact absurd last (findFreeCluster_eq_none found _ (by omega) (by omega))
    | some cluster =>
      obtain ⟨⟨_, inside⟩, free⟩ := findFreeCluster_eq_some found
      rw [size] at inside
      by_cases below : cluster < entries - 1
      · rw [word cluster below] at free
        contradiction
      · rw [show cluster = entries - 1 by omega]
  exact ⟨_, allocateChainLoop_start 0 found⟩

end FatBuffer

namespace FATFileSystem

section Bounds

variable {P : Type} (fs : FATFileSystem P)

/-- These clusters fit between the tables and the end of the volume. -/
def dataClusters : Nat := (fs.bs.totalSectors32.toNat - fs.firstDataSector) / fs.bs.sectorsPerCluster.toNat

/-- The sectors of the cluster lie behind the tables, inside the volume and apart from the sectors of other clusters. -/
def OnVolume (cluster : Nat) : Prop :=
  ∃ sector, getSector cluster fs = (.value sector, fs) ∧ fs.firstDataSector ≤ sector ∧
    sector + fs.bs.sectorsPerCluster.toNat ≤ fs.bs.totalSectors32.toNat ∧
    ∀ other start, other ≠ cluster → getSector other fs = (.value start, fs) →
      sector + fs.bs.sectorsPerCluster.toNat ≤ start ∨ start + fs.bs.sectorsPerCluster.toNat ≤ sector

variable {fs} {cluster : Nat}

theorem getSector_value (low : 2 ≤ cluster) : getSector cluster fs =
    (.value (fs.firstDataSector + (cluster - 2) * fs.bs.sectorsPerCluster.toNat), fs) := by
  rw [getSector, get_bind, if_neg (Nat.not_lt.mpr low)]
  rfl

theorem getSector_low {cluster sector : Nat} (returned : getSector cluster fs = (.value sector, fs)) : 2 ≤ cluster := by
  by_contra low
  rw [getSector, get_bind, if_pos (Nat.not_le.mp low)] at returned
  cases returned

/-- A cluster number lies on the volume exactly when it belongs to a data cluster. -/
theorem onVolume_iff (clusters : 0 < fs.bs.sectorsPerCluster.toNat) (low : 2 ≤ cluster) :
    fs.OnVolume cluster ↔ cluster < fs.dataClusters + 2 := by
  have fits (count : Nat) : count ≤ fs.dataClusters ↔
      count * fs.bs.sectorsPerCluster.toNat ≤ fs.bs.totalSectors32.toNat - fs.firstDataSector :=
    Nat.le_div_iff_mul_le clusters
  have next : (cluster - 2 + 1) * fs.bs.sectorsPerCluster.toNat =
      (cluster - 2) * fs.bs.sectorsPerCluster.toNat + fs.bs.sectorsPerCluster.toNat := Nat.succ_mul _ _
  constructor
  · rintro ⟨sector, returned, _, inside, _⟩
    rw [getSector_value low] at returned
    obtain rfl := Outcome.value.inj (Prod.mk.inj returned).1
    have fitting := (fits (cluster - 2 + 1)).mpr (by omega)
    omega
  · intro below
    have fitting := (fits (cluster - 2 + 1)).mp (by omega)
    refine ⟨_, getSector_value low, Nat.le_add_right _ _, by omega, ?_⟩
    intro other start different returned
    have otherLow := getSector_low returned
    rw [getSector_value otherLow] at returned
    obtain rfl := Outcome.value.inj (Prod.mk.inj returned).1
    rcases Nat.lt_or_gt_of_ne different with before | behind
    · right
      have step := Nat.mul_le_mul_right fs.bs.sectorsPerCluster.toNat (show other - 2 + 1 ≤ cluster - 2 by omega)
      rw [Nat.succ_mul] at step
      omega
    · left
      have step := Nat.mul_le_mul_right fs.bs.sectorsPerCluster.toNat (show cluster - 2 + 1 ≤ other - 2 by omega)
      omega

/-- Every allocated cluster lies on the volume, whatever the table holds, exactly when the table has no spare words. -/
theorem allocated_on_volume_iff (sectors : fs.bs.bytesPerSector = 512) (clusters : 1 ≤ fs.bs.sectorsPerCluster)
    (fat32 : fs.bs.tableSize16 = 0) :
    (∀ buffer : FatBuffer, buffer.entries = fs.sectorsPerFat * fs.bs.bytesPerSector.toNat / 4 → ∀ count first after,
      FatBuffer.allocateChain count buffer = (.value first, after) → ∀ cluster, after.Linked first cluster → fs.OnVolume cluster) ↔
      fs.bs32.tableSize.toNat * 128 ≤ fs.dataClusters + 2 := by
  have entries : fs.sectorsPerFat * fs.bs.bytesPerSector.toNat / 4 = fs.bs32.tableSize.toNat * 128 := by
    rw [sectorsPerFat, fat32, sectors]
    change fs.bs32.tableSize.toNat * 512 / 4 = _
    omega
  have positive : 0 < fs.bs.sectorsPerCluster.toNat := UInt8.le_iff_toNat_le.mp clusters
  rw [entries]
  constructor
  · intro inside
    by_contra spare
    obtain ⟨after, returned⟩ := FatBuffer.allocateChain_lastFree (show 2 < fs.bs32.tableSize.toNat * 128 by omega)
    have last := inside _ (FatBuffer.entries_lastFree (by omega)) 1 _ after returned _ .refl
    rw [onVolume_iff positive (by omega)] at last
    omega
  · intro exact buffer size count first after returned cluster linked
    have few : fs.dataClusters ≤ fs.bs.totalSectors32.toNat :=
      Nat.le_trans (Nat.div_le_self _ _) (Nat.sub_le _ _)
    have total := fs.bs.totalSectors32.toNat_lt
    have free := FatBuffer.allocateChain_free (by omega) returned linked
    exact (onVolume_iff positive free.1.1).mpr (by have below := free.1.2; omega)

end Bounds

/-- The table of this volume has one word for each of its clusters. -/
def exactVolume : FATFileSystem Unit where
  port := ()
  fat := ⟨[0x0FFFFFF8, 0x0FFFFFFF] ++ List.replicate 126 fatClusterFree⟩
  bs := ⟨512, 1, 1, 1, 0, 128⟩
  bs32 := ⟨1, 2⟩

/-- The exact volume hands out its own clusters only. -/
theorem allocated_on_volume_exact :
    exactVolume.bs.bytesPerSector = 512 ∧ 1 ≤ exactVolume.bs.sectorsPerCluster ∧ exactVolume.bs.tableSize16 = 0 ∧
      ∀ count first after, FatBuffer.allocateChain count exactVolume.fat = (.value first, after) →
        ∀ cluster, after.Linked first cluster → exactVolume.OnVolume cluster := by
  refine ⟨rfl, by decide, rfl, ?_⟩
  exact (allocated_on_volume_iff rfl (by decide) rfl).mpr (by decide +kernel) exactVolume.fat (by decide +kernel)

/-- The table of this volume has room for more clusters than the eight that follow it. -/
def spareVolume : FATFileSystem Unit where
  port := ()
  fat := ⟨[0x0FFFFFF8, 0x0FFFFFFF] ++ List.replicate 8 fatClusterEof ++ List.replicate 118 fatClusterFree⟩
  bs := ⟨512, 1, 1, 1, 0, 10⟩
  bs32 := ⟨1, 2⟩

/-- The full volume hands out a cluster behind its last sector. -/
theorem allocated_behind_volume :
    spareVolume.dataClusters + 2 ≤ spareVolume.bs32.tableSize.toNat * 128 ∧
      (∀ size, spareVolume.dataClusters + 2 ≤ size * 128 → spareVolume.bs32.tableSize.toNat ≤ size) ∧
      spareVolume.fat.entries = spareVolume.sectorsPerFat * spareVolume.bs.bytesPerSector.toNat / 4 ∧
      (FatBuffer.allocateChain 1 spareVolume.fat).1 = .value 10 ∧ ¬ spareVolume.OnVolume 10 := by
  have clusters : spareVolume.dataClusters = 8 := by decide +kernel
  have size : spareVolume.bs32.tableSize.toNat = 1 := rfl
  refine ⟨by decide +kernel, ?_, by decide +kernel, by decide +kernel, ?_⟩
  · intro size covering
    omega
  · rw [onVolume_iff (by decide) (by decide), clusters]
    decide

end FATFileSystem

end BubbleOs.Fat
