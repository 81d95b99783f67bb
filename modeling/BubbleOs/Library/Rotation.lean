import Mathlib.Data.List.Nodup
import Mathlib.Data.List.Rotate

namespace BubbleOs

section Rotation

variable {A : Type} {items : List A} {index : Nat}

/-- The cyclic successor of an index. -/
def cyclicNext (index length : Nat) : Nat := if index + 1 ≥ length then 0 else index + 1

theorem cyclicNext_lt (inside : index < items.length) : cyclicNext index items.length < items.length := by
  rw [cyclicNext]
  split <;> omega

/-- The successor comes first in the rotation, and the next rotation puts it last. -/
theorem rotate_cyclicNext (inside : index < items.length) :
    ∃ item rest, items[cyclicNext index items.length]? = some item ∧ items.rotate (index + 1) = item :: rest ∧
      items.rotate (cyclicNext index items.length + 1) = rest ++ [item] := by
  have again : items.rotate (cyclicNext index items.length + 1) = (items.rotate (index + 1)).rotate 1 := by
    rw [List.rotate_rotate, cyclicNext]
    split
    · rename_i wraps
      rw [show index + 1 = items.length by omega, ← List.rotate_rotate items items.length, List.rotate_length]
    · rfl
  have first : items[cyclicNext index items.length]? = (items.rotate (index + 1))[0]? := by
    rw [cyclicNext]
    split
    · rename_i wraps
      rw [show index + 1 = items.length by omega, List.rotate_length]
    · rename_i stays
      rw [List.rotate_eq_drop_append_take (by omega), List.getElem?_append_left (by rw [List.length_drop]; omega),
        List.getElem?_drop]
  cases rotated : items.rotate (index + 1) with
  | nil =>
    have empty := congrArg List.length rotated
    rw [List.length_rotate] at empty
    simp only [List.length_nil] at empty
    omega
  | cons item rest =>
    rw [rotated] at again first
    rw [List.rotate_cons_succ, List.rotate_zero] at again
    exact ⟨item, rest, first, rfl, again⟩

/-- An item that is added at the end stands somewhere in the rotation. -/
theorem rotate_append_sublist (inside : index < items.length) (item : A) :
    (items.rotate (index + 1)).Sublist ((items ++ [item]).rotate (index + 1)) := by
  rw [List.rotate_eq_drop_append_take (by omega), List.rotate_eq_drop_append_take (by simp; omega),
    List.drop_append_of_le_length (by omega), List.take_append_of_le_length (by omega), List.append_assoc]
  exact (List.Sublist.refl _).append (List.sublist_append_right _ _)

/-- An item that is removed leaves the rest of the rotation behind its predecessor. -/
theorem rotate_eraseIdx {item : A} (found : items[index]? = some item) :
    items.rotate (index + 1) = (items.eraseIdx index).rotate index ++ [item] := by
  have inside := (List.getElem?_eq_some_iff.mp found).1
  have shorter := List.length_eraseIdx_of_lt inside
  rw [List.rotate_eq_drop_append_take (by omega), List.rotate_eq_drop_append_take (by omega),
    List.eraseIdx_eq_take_drop_succ, List.take_add_one, found]
  have front : (items.take index).length = index := by rw [List.length_take]; omega
  rw [List.drop_append_of_le_length (by omega), List.take_append_of_le_length (by omega), List.drop_take_self,
    List.take_take, Nat.min_self]
  simp

/-- A pair whose first item is not in the front stands behind it. -/
theorem pair_behind {first second middle : A} {before after : List A}
    (pair : [first, second].Sublist (before ++ middle :: after)) (away : first ∉ before) (other : first ≠ middle) :
    [first, second].Sublist after := by
  obtain ⟨front, back, parts, inFront, inBack⟩ := List.sublist_append_iff.mp pair
  cases front with
  | nil =>
    rw [List.nil_append] at parts
    rw [← parts] at inBack
    cases inBack with
    | cons _ later => exact later
    | cons_cons => exact absurd rfl other
  | cons item rest =>
    rw [List.cons_append, List.cons.injEq] at parts
    rw [parts.1] at away
    exact absurd (inFront.subset List.mem_cons_self) away

/-- A pair without the last item stands before it. -/
theorem pair_before {first second last : A} {before : List A} (pair : [first, second].Sublist (before ++ [last]))
    (other : second ≠ last) : [first, second].Sublist before := by
  obtain ⟨front, back, parts, inFront, inBack⟩ := List.sublist_append_iff.mp pair
  cases back with
  | nil =>
    rw [List.append_nil] at parts
    rw [parts]
    exact inFront
  | cons item rest =>
    have whole : item :: rest = [last] := inBack.eq_of_length_le (by simp)
    rw [whole] at parts
    have same := congrArg List.getLast? parts
    rw [List.getLast?_concat] at same
    exact absurd (Option.some.inj same) other

end Rotation

end BubbleOs
