import BubbleOs.Construction.Process.Files
import BubbleOs.Proof.Fat.Names

namespace BubbleOs

open Attempt Fat Fs Text

theorem toLower_toUpper (char : Char) : char.toUpper.toLower = char.toLower := by
  rw [← Char.toNat_inj, toNat_toLower, toNat_toLower, toNat_toUpper]
  split_ifs <;> omega

/-- A mark that is no letter is its own capital and that of no other character. -/
theorem toUpper_eq_mark_iff (mark : Char) (other : mark.toNat < 65 ∨ 122 < mark.toNat) (char : Char) :
    char.toUpper = mark ↔ char = mark := by
  rw [← Char.toNat_inj, ← Char.toNat_inj, toNat_toUpper]
  split <;> omega

theorem map_toUpper_eq_iff (mark : List Char) (marks : ∀ char ∈ mark, char.toNat < 65) (text : List Char) :
    text.map Char.toUpper = mark ↔ text = mark := by
  induction mark generalizing text with
  | nil => exact List.map_eq_nil_iff
  | cons head tail ih =>
    cases text with
    | nil => exact Iff.rfl
    | cons char rest =>
      rw [List.map_cons, List.cons.injEq, List.cons.injEq, toUpper_eq_mark_iff head (.inl (marks head List.mem_cons_self)),
        ih (fun char inside => marks char (List.mem_cons_of_mem _ inside))]

theorem splitOn_toUpper (path : List Char) :
    (path.map Char.toUpper).splitOn '/' = (path.splitOn '/').map (List.map Char.toUpper) := by
  induction path with
  | nil => rfl
  | cons char rest ih =>
    rw [List.map_cons, List.splitOn_cons_eq_if_modifyHead, List.splitOn_cons_eq_if_modifyHead, ih]
    simp only [beq_iff_eq, toUpper_eq_mark_iff '/' (.inl (by decide))]
    split
    · rfl
    · cases rest.splitOn '/' <;> rfl

theorem pushComponent_toUpper (components : List Component) (component : Component) :
    pushComponent (components.map (List.map Char.toUpper)) (component.map Char.toUpper) =
      (pushComponent components component).map (List.map Char.toUpper) := by
  have dot := map_toUpper_eq_iff dotComponent (by simp [dotComponent])
  have parent := map_toUpper_eq_iff parentComponent (by simp [parentComponent])
  rw [pushComponent, pushComponent, List.getLast?_map]
  simp only [List.map_eq_nil_iff, dot, parent]
  split
  · rfl
  · split
    · cases components.getLast? with
      | none => simp
      | some last =>
        simp only [Option.map_some, parent]
        split <;> simp [List.map_dropLast]
    · simp

theorem normalizePathComponents_toUpper (path : List Char) :
    normalizePathComponents (path.map Char.toUpper) =
      (normalizePathComponents path).map (List.map Char.toUpper) := by
  rw [normalizePathComponents, splitOn_toUpper, List.foldl_map]
  exact @List.foldl_hom _ _ _ (List.map (List.map Char.toUpper)) pushComponent _ (path.splitOn '/') [] pushComponent_toUpper

theorem splitBase_toUpper (path : List Char) : Kernel.splitBase (path.map Char.toUpper) =
    ((Kernel.splitBase path).1, (Kernel.splitBase path).2.map Char.toUpper) := by
  have slash := toUpper_eq_mark_iff '/' (.inl (by decide))
  have tilde := toUpper_eq_mark_iff '~' (.inr (by decide))
  fun_cases Kernel.splitBase path with
  | case1 rest | case2 rest => rfl
  | case3 path noTilde noSlash =>
    refine Kernel.splitBase.eq_3 _ (fun rest same => ?_) fun rest same => ?_
    · obtain ⟨first, _, rfl, atFirst, same⟩ := List.map_eq_cons_iff.mp same
      obtain ⟨second, later, rfl, atSecond, _⟩ := List.map_eq_cons_iff.mp same
      exact noTilde later (by rw [(tilde first).mp atFirst, (slash second).mp atSecond])
    · obtain ⟨first, later, rfl, atFirst, _⟩ := List.map_eq_cons_iff.mp same
      exact noSlash later (by rw [(slash first).mp atFirst])

section Find

variable {P : Type} [Port P] [Unicode]

theorem findFileComponents_toUpper (components : List Component) (dir : FATDirectory) :
    (dir.findFileComponents (components.map (List.map Char.toUpper)) : FsM P FATFile) =
      dir.findFileComponents components := by
  induction components generalizing dir with
  | nil => rfl
  | cons next rest ih =>
    have small (name : List Char) : (name.map Char.toUpper).map Char.toLower = name.map Char.toLower := by
      rw [List.map_map]
      exact List.map_congr_left fun char _ => toLower_toUpper char
    simp only [List.map_cons, FATDirectory.findFileComponents, FATDirectory.findFile, FATDirectory.findDirectory,
      eqIgnoreAsciiCase, small, List.isEmpty_map, ih]

/-- A path in capitals finds the program that the call refuses. -/
theorem executeFile_toUpper {path : List Char} (system : Kernel P)
    (refused : (path.splitOn '/').getLast? = some "shell.elf".toList) :
    Kernel.executeFile path system = (.missing, system) ∧
      Kernel.executeFile (path.map Char.toUpper) system = Kernel.findFileFromPath path system := by
  have capital : ((path.map Char.toUpper).splitOn '/').getLast? ≠ some "shell.elf".toList := by
    rw [splitOn_toUpper, List.getLast?_map, refused]
    decide
  constructor
  · rw [Kernel.executeFile, if_pos refused, fail_apply]
  · rw [Kernel.executeFile, if_neg capital, Kernel.findFileFromPath, Kernel.findFileFromPath, splitBase_toUpper,
      normalizePathComponents_toUpper]
    simp only [findFileComponents_toUpper]

end Find

theorem executeFile_toUpper_shell : ("shell.elf".toList.splitOn '/').getLast? = some "shell.elf".toList ∧
    ∀ [Unicode] (system : Kernel SectorArray), Kernel.executeFile ("shell.elf".toList.map Char.toUpper) system =
      Kernel.findFileFromPath "shell.elf".toList system := by
  have refused : ("shell.elf".toList.splitOn '/').getLast? = some "shell.elf".toList := rfl
  exact ⟨refused, fun system => (executeFile_toUpper system refused).2⟩

end BubbleOs
