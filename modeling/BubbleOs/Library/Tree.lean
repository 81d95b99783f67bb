/-
This file describes paths through tables of links.
-/

import Mathlib.Data.List.Infix
import Mathlib.Data.Set.Basic

namespace BubbleOs

/-- A path follows one link of each table. -/
def follow {T I : Type} (links : T → I → Option T) : T → List I → Option T
  | root, [] => some root
  | root, index :: rest => (links root index).bind fun next => follow links next rest

section Follow

variable {T I : Type} {links : T → I → Option T}

@[simp] theorem follow_nil (root : T) : follow links root [] = some root := rfl

theorem follow_cons (root : T) (index : I) (rest : List I) :
    follow links root (index :: rest) = (links root index).bind fun next => follow links next rest := rfl

theorem follow_append (root : T) (first second : List I) :
    follow links root (first ++ second) = (follow links root first).bind fun next => follow links next second := by
  induction first generalizing root with
  | nil => rfl
  | cons index rest ih =>
    rw [List.cons_append, follow_cons, follow_cons]
    cases links root index with
    | none => rfl
    | some next => exact ih next

theorem follow_snoc (root : T) (path : List I) (index : I) :
    follow links root (path ++ [index]) = (follow links root path).bind fun table => links table index := by
  rw [follow_append]
  congr 1
  funext table
  rw [follow_cons]
  exact Option.bind_fun_some _

variable {later : T → I → Option T} {root table : T} {path : List I} {rest : List I}

/-- The front of a complete path is complete. -/
theorem follow_prefix {front : List I} (ahead : front <+: path) (found : follow links root path ≠ none) :
    follow links root front ≠ none := by
  obtain ⟨rest, rfl⟩ := ahead
  intro absent
  rw [follow_append, absent] at found
  contradiction

/-- More links keep every path. -/
theorem follow_mono (more : ∀ table index next, links table index = some next → later table index = some next)
    (found : follow links root path = some table) : follow later root path = some table := by
  induction path generalizing root with
  | nil => exact found
  | cons index rest ih =>
    rw [follow_cons, Option.bind_eq_some_iff] at found
    obtain ⟨next, link, found⟩ := found
    rw [follow_cons, more root index next link, Option.bind_some]
    exact ih found

/-- A path depends only on the links that it takes. -/
theorem follow_congr (same : ∀ front index table, front ++ [index] <+: path → follow links root front = some table →
    later table index = links table index) : follow later root path = follow links root path := by
  induction path generalizing root with
  | nil => rfl
  | cons index rest ih =>
    rw [follow_cons, follow_cons, same [] index root (by simp) rfl]
    cases link : links root index with
    | none => rfl
    | some next =>
      apply ih
      intro front slot table inside found
      apply same (index :: front) slot table (List.cons_prefix_cons.mpr ⟨rfl, inside⟩)
      rw [follow_cons, link, Option.bind_some, found]

/-- This many tables are missing on a path. -/
def missing (links : T → I → Option T) : T → List I → Nat
  | _, [] => 0
  | root, index :: rest =>
    match links root index with
    | none => rest.length + 1
    | some next => missing links next rest

theorem missing_none {index : I} (free : links root index = none) :
    missing links root (index :: rest) = rest.length + 1 := by
  rw [missing, free]

theorem missing_some {index : I} {next : T} (link : links root index = some next) :
    missing links root (index :: rest) = missing links next rest := by
  rw [missing, link]

/-- An empty table misses every table behind it. -/
theorem missing_empty (empty : ∀ index, links root index = none) (path : List I) :
    missing links root path = path.length := by
  cases path with
  | nil => rfl
  | cons index rest => rw [missing_none (empty index), List.length_cons]

/-- A path without missing tables leads to a table. -/
theorem follow_of_missing (complete : missing links root path = 0) : follow links root path ≠ none := by
  induction path generalizing root with
  | nil => exact Option.some_ne_none root
  | cons index rest ih =>
    rw [follow_cons]
    cases link : links root index with
    | none =>
      rw [missing_none link] at complete
      contradiction
    | some next =>
      rw [missing_some link] at complete
      exact ih complete

/-- The tables on a complete path are not missing. -/
theorem missing_append (found : follow links root path = some table) :
    missing links root (path ++ rest) = missing links table rest := by
  induction path generalizing root with
  | nil =>
    obtain rfl : root = table := Option.some.inj found
    rfl
  | cons index path ih =>
    rw [follow_cons, Option.bind_eq_some_iff] at found
    obtain ⟨next, link, found⟩ := found
    rw [List.cons_append, missing_some link]
    exact ih found

theorem missing_le (links : T → I → Option T) (root : T) (path : List I) : missing links root path ≤ path.length := by
  induction path generalizing root with
  | nil => exact Nat.le_refl 0
  | cons index rest ih =>
    cases link : links root index with
    | none => rw [missing_none link, List.length_cons]
    | some next =>
      rw [missing_some link, List.length_cons]
      exact Nat.le_succ_of_le (ih next)

/-- A table sits at the same path in every tree that contains it. -/
def Planted (links : T → I → Option T) (roots : Set T) (depth : Nat) : Prop :=
  ∀ first ∈ roots, ∀ second ∈ roots, ∀ one two table, one.length ≤ depth → two.length ≤ depth →
    follow links first one = some table → follow links second two = some table → one = two

/-- No short path leads to the table. -/
def Unreached (links : T → I → Option T) (roots : Set T) (depth : Nat) (table : T) : Prop :=
  ∀ root ∈ roots, ∀ path, path.length ≤ depth → follow links root path ≠ some table

/-- A free entry gets a link to an empty table. -/
structure Linked (links later : T → I → Option T) (table : T) (index : I) (fresh : T) : Prop where
  free : links table index = none
  added : later table index = some fresh
  others : ∀ other slot, other ≠ table ∨ slot ≠ index → later other slot = links other slot
  empty : ∀ slot, later fresh slot = none

namespace Linked

variable {index : I} {fresh : T} {roots : Set T} {depth : Nat}

variable (linked : Linked links later table index fresh)

include linked

theorem mono (other : T) (slot : I) (next : T)
    (link : links other slot = some next) : later other slot = some next := by
  by_cases here : other = table ∧ slot = index
  · obtain ⟨rfl, rfl⟩ := here
    rw [linked.free] at link
    contradiction
  · rw [linked.others other slot (not_and_or.mp here), link]

/-- A path either is old or ends at the new table. -/
theorem follow_cases {root reached : T} {path : List I} (found : follow later root path = some reached) :
    follow links root path = some reached ∨
      reached = fresh ∧ ∃ front, path = front ++ [index] ∧ follow links root front = some table := by
  induction path generalizing root with
  | nil => exact .inl found
  | cons slot rest ih =>
    rw [follow_cons, Option.bind_eq_some_iff] at found
    obtain ⟨next, link, found⟩ := found
    by_cases here : root = table ∧ slot = index
    · obtain ⟨rfl, rfl⟩ := here
      rw [linked.added, Option.some.injEq] at link
      subst link
      cases rest with
      | nil => exact .inr ⟨(Option.some.inj found).symm, [], rfl, rfl⟩
      | cons second others =>
        rw [follow_cons, linked.empty, Option.bind_none] at found
        contradiction
    · rw [linked.others root slot (not_and_or.mp here)] at link
      rcases ih found with old | ⟨same, front, split, old⟩
      · left
        rw [follow_cons, link, Option.bind_some, old]
      · refine .inr ⟨same, slot :: front, by rw [split, List.cons_append], ?_⟩
        rw [follow_cons, link, Option.bind_some, old]

/-- A new table takes its place in every tree with the table above it. -/
theorem planted (planted : Planted links roots depth)
    (hidden : Unreached links roots depth fresh) : Planted later roots depth := by
  intro first firstRoot second secondRoot one two reached short brief firstPath secondPath
  rcases linked.follow_cases firstPath with old | ⟨rfl, front, rfl, old⟩
  · rcases linked.follow_cases secondPath with other | ⟨rfl, _⟩
    · exact planted first firstRoot second secondRoot one two reached short brief old other
    · exact absurd old (hidden first firstRoot one short)
  · rcases linked.follow_cases secondPath with other | ⟨_, ahead, rfl, other⟩
    · exact absurd other (hidden second secondRoot two brief)
    · rw [List.length_append] at short brief
      rw [planted first firstRoot second secondRoot front ahead table (by omega) (by omega) old other]

end Linked

section Planted

variable {roots : Set T} {depth : Nat} {place : List I} {home : T}

/-- The links of the tables at the last level do not matter to short paths. -/
theorem Planted.follow_eq (planted : Planted links roots depth) (inside : home ∈ roots)
    (found : follow links home place = some table) (deep : place.length = depth)
    (others : ∀ other, other ≠ table → later other = links other) (member : root ∈ roots)
    (short : path.length ≤ depth) : follow later root path = follow links root path := by
  apply follow_congr
  intro front index visited ahead reached
  apply congrFun (others visited _)
  rintro rfl
  have bound := ahead.length_le
  rw [List.length_append, List.length_singleton] at bound
  have same := planted root member home inside front place visited (by omega) (by omega) reached found
  rw [same] at bound
  omega

/-- A change of one link of the last level keeps every other long path. -/
theorem Planted.keeps {kept changed : T → I → Option T} {index : I} {target : T}
    (planted : Planted links roots depth) (inside : home ∈ roots) (found : follow links home place = some table)
    (deep : place.length = depth) (weaker : ∀ table index next, kept table index = some next → links table index = some next)
    (others : ∀ other slot, other ≠ table ∨ slot ≠ index → changed other slot = kept other slot) (member : root ∈ roots)
    (long : path.length = depth + 1) (different : path ≠ place ++ [index]) (reached : follow kept root path = some target) :
    follow changed root path = some target := by
  rw [← reached]
  apply follow_congr
  intro front slot visited ahead passed
  apply others
  by_contra here
  obtain ⟨rfl, rfl⟩ : visited = table ∧ slot = index := by
    rw [not_or, not_not, not_not] at here
    exact here
  have bound := ahead.length_le
  rw [List.length_append, List.length_singleton] at bound
  have same := planted root member home inside front place visited (by omega) (by omega) (follow_mono weaker passed) found
  rw [same] at ahead
  apply different
  apply (ahead.eq_of_length _).symm
  rw [List.length_append, List.length_singleton]
  omega

end Planted

end Follow

end BubbleOs
