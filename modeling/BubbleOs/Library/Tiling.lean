import Mathlib.Data.List.Pairwise

namespace BubbleOs

/-- A run of consecutive places. -/
structure Run where
  base : Nat
  size : Nat
  deriving DecidableEq

def Run.places (run : Run) : List Nat := List.range' run.base run.size

section Cover

/- A map from positions to places, and the largest size of a run. -/
variable (place : Nat → Option Nat) (limit : Nat)

/-- The runs hold the places of the positions from the start up to the stop, in order. -/
def Cover : Nat → List Run → Nat → Prop
  | start, [], stop => start = stop
  | start, run :: rest, stop => 0 < run.size ∧ run.size ≤ limit ∧
      (∀ offset < run.size, place (start + offset) = some (run.base + offset)) ∧ Cover (start + run.size) rest stop

/-- A run is full when it cannot take the next position before the stop. -/
def Run.Full (run : Run) (start stop : Nat) : Prop :=
  run.size = limit ∨ start + run.size = stop ∨ place (start + run.size) ≠ some (run.base + run.size)

/-- Every run is full. -/
def AllFull : Nat → List Run → Nat → Prop
  | _, [], _ => True
  | start, run :: rest, stop => run.Full place limit start stop ∧ AllFull (start + run.size) rest stop

variable {place limit} {runs : List Run} {start middle stop : Nat} {first second : List Run}

theorem Cover.le {start stop : Nat} (cover : Cover place limit start runs stop) : start ≤ stop := by
  induction runs generalizing start with
  | nil => exact Nat.le_of_eq cover
  | cons run rest ih => exact Nat.le_trans (Nat.le_add_right start run.size) (ih cover.2.2.2)

theorem Cover.append (before : Cover place limit start first middle) (after : Cover place limit middle second stop) :
    Cover place limit start (first ++ second) stop := by
  induction first generalizing start with
  | nil =>
    have same : start = middle := before
    rw [same]
    exact after
  | cons run rest ih => exact ⟨before.1, before.2.1, before.2.2.1, ih before.2.2.2⟩

theorem AllFull.append (cover : Cover place limit start first middle) (before : AllFull place limit start first stop)
    (after : AllFull place limit middle second stop) : AllFull place limit start (first ++ second) stop := by
  induction first generalizing start with
  | nil =>
    have same : start = middle := cover
    rw [same]
    exact after
  | cons run rest ih => exact ⟨before.1, ih cover.2.2.2 before.2⟩

/-- The places of the runs are the places of the positions. -/
theorem Cover.places {start stop : Nat} (cover : Cover place limit start runs stop) :
    (runs.flatMap Run.places).map some = (List.range' start (stop - start)).map place := by
  induction runs generalizing start with
  | nil =>
    have same : start = stop := cover
    rw [same, Nat.sub_self]
    rfl
  | cons run rest ih =>
    obtain ⟨_, _, mapped, later⟩ := cover
    have reach := later.le
    have split : stop - start = run.size + (stop - (start + run.size)) := by omega
    have here : run.places.map some = (List.range' start run.size).map place := by
      rw [Run.places, List.range'_eq_map_range, List.range'_eq_map_range, List.map_map, List.map_map]
      apply List.map_congr_left
      intro offset inside
      exact (mapped offset (List.mem_range.mp inside)).symm
    rw [List.flatMap_cons, List.map_append, ih later, here, split, ← List.range'_append_1, List.map_append]

/-- A full run that starts inside another run reaches its end. -/
theorem Run.Full.reaches {run other : Run} {start otherStart stop : Nat} (full : run.Full place limit start stop)
    (mapped : place start = some run.base) (begins : otherStart ≤ start) (inside : start < otherStart + other.size)
    (bounded : other.size ≤ limit) (ends : otherStart + other.size ≤ stop)
    (otherMapped : ∀ offset < other.size, place (otherStart + offset) = some (other.base + offset)) :
    otherStart + other.size ≤ start + run.size := by
  rcases full with limited | stopped | broken
  · omega
  · omega
  · apply Nat.le_of_not_lt
    intro short
    have first := otherMapped (start - otherStart) (by omega)
    have next := otherMapped (start + run.size - otherStart) (by omega)
    rw [Nat.add_sub_cancel' begins, mapped, Option.some.injEq] at first
    rw [Nat.add_sub_cancel' (by omega)] at next
    apply broken
    rw [next, first]
    congr 1
    omega

/-- Full runs that stop early are fewer than the runs of any cover. -/
theorem AllFull.length_lt {start middle stop otherStart : Nat} {runs other : List Run}
    (full : AllFull place limit start runs stop) (cover : Cover place limit start runs middle) (short : middle < stop)
    (begins : otherStart ≤ start) (otherCover : Cover place limit otherStart other stop) :
    runs.length < other.length := by
  -- The other cover is followed run by run, and the full runs are never behind it.
  induction other generalizing start otherStart runs with
  | nil =>
    have atStop : otherStart = stop := otherCover
    have reach := cover.le
    omega
  | cons head tail ih =>
    obtain ⟨_, bounded, mapped, later⟩ := otherCover
    cases runs with
    | nil => exact Nat.succ_pos _
    | cons run rest =>
      by_cases passed : otherStart + head.size ≤ start
      · exact Nat.lt_succ_of_lt (ih full cover passed later)
      · have first := cover.2.2.1 0 cover.1
        have reaches := full.1.reaches first begins (Nat.lt_of_not_le passed) bounded later.le mapped
        exact Nat.succ_lt_succ (ih full.2 cover.2.2.2 reaches later)

end Cover

section Tiling

variable {B : Type} (start size : B → Nat)

/-- Each piece starts where the piece before it ends. -/
def Tiles : Nat → List B → Nat → Prop
  | low, [], high => low = high
  | low, piece :: rest, high => start piece = low ∧ Tiles (low + size piece) rest high

variable {start size} {low high : Nat} {pieces before after : List B} {piece : B}

theorem tiles_append :
    Tiles start size low (before ++ after) high ↔
      ∃ middle, Tiles start size low before middle ∧ Tiles start size middle after high := by
  induction before generalizing low with
  | nil => exact ⟨fun tiles => ⟨low, rfl, tiles⟩, fun ⟨_, same, tiles⟩ => same ▸ tiles⟩
  | cons piece rest ih =>
    constructor
    · intro tiles
      obtain ⟨middle, left, right⟩ := ih.mp tiles.2
      exact ⟨middle, ⟨tiles.1, left⟩, right⟩
    · intro ⟨middle, left, right⟩
      exact ⟨left.1, ih.mpr ⟨middle, left.2, right⟩⟩

section Tiles

variable (tiles : Tiles start size low pieces high)

include tiles

theorem Tiles.le : low ≤ high := by
  induction pieces generalizing low with
  | nil => exact Nat.le_of_eq tiles
  | cons piece rest ih => exact Nat.le_trans (Nat.le_add_right _ _) (ih tiles.2)

/-- Every piece lies inside the range. -/
theorem Tiles.bounds (inside : piece ∈ pieces) : low ≤ start piece ∧ start piece + size piece ≤ high := by
  obtain ⟨before, after, rfl⟩ := List.append_of_mem inside
  obtain ⟨middle, left, same, right⟩ := tiles_append.mp tiles
  have first := left.le
  have last := right.le
  omega

/-- The end of each piece is at most the start of every later piece. -/
theorem Tiles.pairwise : pieces.Pairwise fun first second => start first + size first ≤ start second := by
  induction pieces generalizing low with
  | nil => exact .nil
  | cons piece rest ih =>
    apply List.Pairwise.cons _ (ih tiles.2)
    intro later inside
    have bound := tiles.2.bounds inside
    rw [tiles.1]
    exact bound.1

/-- Two different pieces do not overlap. -/
theorem Tiles.apart {first second : B} (one : first ∈ pieces) (two : second ∈ pieces) (different : first ≠ second) :
    start first + size first ≤ start second ∨ start second + size second ≤ start first := by
  have either : pieces.Pairwise fun first second =>
      start first + size first ≤ start second ∨ start second + size second ≤ start first :=
    tiles.pairwise.imp .inl
  have symmetric : Std.Symm fun first second =>
      start first + size first ≤ start second ∨ start second + size second ≤ start first :=
    ⟨fun _ _ => Or.symm⟩
  exact either.forall one two different

/-- Pieces that are not empty are at most as many as the range is long. -/
theorem Tiles.length_le (positive : ∀ piece ∈ pieces, 0 < size piece) : low + pieces.length ≤ high := by
  induction pieces generalizing low with
  | nil => exact Nat.le_of_eq tiles
  | cons piece rest ih =>
    have later := ih tiles.2 fun other inside => positive other (.tail _ inside)
    have here := positive piece (.head _)
    rw [List.length_cons]
    omega

end Tiles

/-- A part of the tiling is replaced by a tiling of the same range. -/
theorem Tiles.replace {old new : List B} (tiles : Tiles start size low (before ++ (old ++ after)) high)
    (same : ∀ first last, Tiles start size first old last → Tiles start size first new last) :
    Tiles start size low (before ++ (new ++ after)) high := by
  obtain ⟨middle, left, right⟩ := tiles_append.mp tiles
  obtain ⟨last, center, right⟩ := tiles_append.mp right
  exact tiles_append.mpr ⟨middle, left, tiles_append.mpr ⟨last, same _ _ center, right⟩⟩

end Tiling

end BubbleOs
