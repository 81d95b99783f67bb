import BubbleOs.Construction.Edit.Editor
import BubbleOs.Library.Utf8

namespace BubbleOs.Edit

open Lines

/-- An escape sequence has not begun, has begun or waits for the name of an arrow key. -/
inductive Escape where
  | outside
  | begun
  | arrow
  deriving DecidableEq

/-- A document remembers the column of a run of vertical moves and the contents of its file. -/
structure Document where
  text : List UInt8
  cursor : Nat
  goal : Option Nat
  escape : Escape
  saved : List UInt8

namespace Document

def lines (document : Document) : List (List UInt8) := document.text.splitOn newline

def row (document : Document) : Nat := (locate document.lines document.cursor).1

def column (document : Document) : Nat := (locate document.lines document.cursor).2

/-- A vertical move aims at the column in which the run of moves has begun. -/
def aim (document : Document) : Nat := document.goal.getD document.column

/-- A full document takes no more bytes. -/
def insert (document : Document) (byte : UInt8) : Document :=
  if document.text.length = fileCapacity then document
  else { document with
    text := document.text.take document.cursor ++ byte :: document.text.drop document.cursor
    cursor := document.cursor + 1
    goal := none }

def erase (document : Document) : Document :=
  if document.cursor = 0 then document
  else { document with
    text := document.text.take (document.cursor - 1) ++ document.text.drop document.cursor
    cursor := document.cursor - 1
    goal := none }

def left (document : Document) : Document := { document with cursor := document.cursor - 1, goal := none }

def right (document : Document) : Document :=
  { document with cursor := min (document.cursor + 1) document.text.length, goal := none }

/-- The cursor moves to a row. -/
def moveTo (document : Document) (row : Nat) : Document :=
  { document with cursor := place document.lines row document.aim, goal := some document.aim }

def up (document : Document) : Document := if document.row = 0 then document else document.moveTo (document.row - 1)

def down (document : Document) : Document :=
  if document.row + 1 = document.lines.length then document else document.moveTo (document.row + 1)

def arrow (document : Document) (input : UInt8) : Document :=
  if input = 0x41 then document.up
  else if input = 0x42 then document.down
  else if input = 0x43 then document.right
  else if input = 0x44 then document.left
  else document

/-- A byte outside an escape sequence is inserted, erases a byte or is ignored. -/
def type (document : Document) (input : UInt8) : Document :=
  if input = 0x1B then { document with escape := .begun }
  else if input = 0x08 ∨ input = 0x7F then document.erase
  else if input = 0x0D ∨ input = 0x0A then document.insert newline
  else if !isAsciiControl input || input = 0x09 then document.insert input
  else document

/-- The flag tells whether the file takes the text if the input saves it. -/
def step (document : Document) (input : UInt8) (saves : Bool) : Document :=
  match document.escape with
  | .outside => document.type input
  | .begun =>
    if input = 0x5B then { document with escape := .arrow }
    else if input = 0x77 ∧ saves then { document with escape := .outside, saved := document.text }
    else { document with escape := .outside }
  | .arrow => { document with escape := .outside }.arrow input

def run (document : Document) (inputs : List (UInt8 × Bool)) : Document :=
  inputs.foldl (fun document input => document.step input.1 input.2) document

/-- The cursor lies in the text, and a remembered column is the one that it aims at. -/
structure Aligned (document : Document) : Prop where
  inside : document.cursor ≤ document.text.length
  goal : ∀ column, document.goal = some column → document.cursor = place document.lines document.row column

section Aligned

variable {document : Document} {target : Nat}

theorem lines_ne_nil (document : Document) : document.lines ≠ [] := List.splitOnP_ne_nil _ _

theorem join_lines (document : Document) : join newline document.lines = document.text := join_splitOn _ _

theorem clean_lines (document : Document) {line : List UInt8} (member : line ∈ document.lines) : newline ∉ line :=
  not_mem_of_mem_splitOn member

/-- The cursor is the place of its row and column. -/
theorem cursor_eq (inside : document.cursor ≤ document.text.length) :
    document.row < document.lines.length ∧ document.column ≤ width document.lines document.row ∧
      offset document.lines document.row + document.column = document.cursor :=
  locate_spec document.lines_ne_nil (by rw [join_lines]; exact inside)

/-- The cursor stands in the column that it aims at, as far as its line is long enough. -/
theorem Aligned.cursor_place (aligned : Aligned document) :
    document.cursor = place document.lines document.row document.aim := by
  obtain ⟨_, short, same⟩ := cursor_eq aligned.inside
  cases remembered : document.goal with
  | none =>
    rw [aim, remembered, Option.getD_none, place, Nat.min_eq_left short, same]
  | some column =>
    rw [aim, remembered, Option.getD_some]
    exact aligned.goal column remembered

/-- A move to a row reaches it. -/
theorem row_moveTo (inside : target < document.lines.length) : (document.moveTo target).row = target :=
  congrArg Prod.fst (locate_place inside (Nat.min_le_right _ _))

/-- A line ends within the text. -/
theorem offset_add_width_le (inside : target < document.lines.length) :
    offset document.lines target + width document.lines target ≤ document.text.length := by
  rw [← join_lines]
  rcases Nat.lt_or_ge (target + 1) document.lines.length with more | last
  · have here := @join_separator _ newline document.lines target more
    exact Nat.le_of_lt (List.getElem?_eq_some_iff.mp here).1
  · exact Nat.le_of_eq (@length_join _ newline document.lines target (by omega)).symm

theorem Aligned.moveTo (inside : target < document.lines.length) : Aligned (document.moveTo target) where
  inside := Nat.le_trans (Nat.add_le_add_left (Nat.min_le_right _ _) _) (offset_add_width_le inside)
  goal column remembered := by
    cases remembered
    rw [row_moveTo inside]
    rfl

/-- Without a remembered column every place in the text is aligned. -/
theorem aligned_of_none (inside : document.cursor ≤ document.text.length) (none : document.goal = none) :
    Aligned document := ⟨inside, fun column some => by rw [none] at some; cases some⟩

section Aligned

variable (aligned : Aligned document)

include aligned

theorem Aligned.up : Aligned document.up := by
  have inside := (cursor_eq aligned.inside).1
  unfold Document.up
  split
  · exact aligned
  · exact .moveTo (by omega)

theorem Aligned.down : Aligned document.down := by
  have inside := (cursor_eq aligned.inside).1
  unfold Document.down
  split
  · exact aligned
  · exact .moveTo (by omega)

theorem Aligned.insert (byte : UInt8) : Aligned (document.insert byte) := by
  have inside := aligned.inside
  unfold Document.insert
  split
  · exact aligned
  · apply aligned_of_none _ rfl
    simp only [List.length_append, List.length_take, List.length_cons, List.length_drop]
    omega

theorem Aligned.erase : Aligned document.erase := by
  have inside := aligned.inside
  unfold Document.erase
  split
  · exact aligned
  · apply aligned_of_none _ rfl
    simp only [List.length_append, List.length_take, List.length_drop]
    omega

/-- A move down takes a move up back. -/
theorem Aligned.down_up (moved : document.up.cursor ≠ document.cursor) :
    document.up.down.cursor = document.cursor := by
  have inside := (cursor_eq aligned.inside).1
  have below : document.row ≠ 0 := by
    intro top
    rw [Document.up, if_pos top] at moved
    exact moved rfl
  have row := @row_moveTo document (document.row - 1) (by omega)
  have back : document.row - 1 + 1 = document.row := by omega
  rw [Document.up, if_neg below, Document.down, if_neg (by rw [row, back]; exact Nat.ne_of_lt inside), row, back]
  exact aligned.cursor_place.symm

/-- A move up takes a move down back. -/
theorem Aligned.up_down (moved : document.down.cursor ≠ document.cursor) :
    document.down.up.cursor = document.cursor := by
  have inside := (cursor_eq aligned.inside).1
  have above : document.row + 1 ≠ document.lines.length := by
    intro bottom
    rw [Document.down, if_pos bottom] at moved
    exact moved rfl
  have row := @row_moveTo document (document.row + 1) (by omega)
  rw [Document.down, if_neg above, Document.up, if_neg (by rw [row]; omega), row, Nat.add_sub_cancel]
  exact aligned.cursor_place.symm

end Aligned

/-- These moves go up or down. -/
def vertical (document : Document) (moves : List Bool) : Document :=
  moves.foldl (fun document ascends => if ascends then document.up else document.down) document

/-- Vertical moves change neither the text nor the column that they aim at. -/
theorem Aligned.vertical (aligned : Aligned document) (moves : List Bool) :
    Aligned (document.vertical moves) ∧ (document.vertical moves).text = document.text ∧
      (document.vertical moves).aim = document.aim := by
  induction moves generalizing document with
  | nil => exact ⟨aligned, rfl, rfl⟩
  | cons ascends rest ih =>
    have up : document.up.text = document.text ∧ document.up.aim = document.aim := by
      unfold Document.up
      split <;> exact ⟨rfl, rfl⟩
    have down : document.down.text = document.text ∧ document.down.aim = document.aim := by
      unfold Document.down
      split <;> exact ⟨rfl, rfl⟩
    cases ascends with
    | true =>
      obtain ⟨later, text, aim⟩ := ih aligned.up
      exact ⟨later, text.trans up.1, aim.trans up.2⟩
    | false =>
      obtain ⟨later, text, aim⟩ := ih aligned.down
      exact ⟨later, text.trans down.1, aim.trans down.2⟩

end Aligned

end Document

/-- This is the number that the editor keeps for an escape state. -/
def Escape.code : Escape → UInt8
  | .outside => 0
  | .begun => 1
  | .arrow => 2

/-- The editor holds a document in the front of its buffer. -/
structure Holds (editor : Editor) (buffer : List UInt8) (document : Document) : Prop where
  capacity : buffer.length = fileCapacity
  size : editor.len = document.text.length
  room : editor.len ≤ fileCapacity
  text : buffer.take editor.len = document.text
  cursor : editor.cursor = document.cursor
  goal : editor.preferredColumn = document.goal
  escape : editor.escapeState = document.escape.code
  aligned : document.Aligned
  clean : editor.dirty = false → document.text = document.saved

section Lines

variable {editor : Editor} {buffer : List UInt8} {document : Document} {row : Nat}

variable (holds : Holds editor buffer document)

include holds

theorem Holds.byte {place : Nat} (inside : place < editor.len) : buffer[place]? = document.text[place]? := by
  rw [← holds.text, List.getElem?_take, if_pos inside]

/-- The byte of a column is no newline. -/
theorem Holds.column_byte {row column : Nat} (inside : row < document.lines.length)
    (short : column < width document.lines row) :
    ∃ byte, buffer[offset document.lines row + column]? = some byte ∧ byte ≠ newline := by
  have limit := Document.offset_add_width_le inside
  have found := @join_getElem? _ newline document.lines row column inside short
  rw [document.join_lines] at found
  have line : document.lines.getD row [] = document.lines[row] := by simp [inside]
  have member : column < (document.lines.getD row []).length := short
  refine ⟨(document.lines.getD row [])[column], ?_, ?_⟩
  · rw [holds.byte (by rw [holds.size]; omega), found, List.getElem?_eq_getElem member]
  · intro same
    have listed : document.lines.getD row [] ∈ document.lines := by rw [line]; exact List.getElem_mem inside
    exact document.clean_lines listed (same ▸ List.getElem_mem member)

theorem Holds.end_byte (more : row + 1 < document.lines.length) :
    buffer[offset document.lines row + width document.lines row]? = some newline ∧
      offset document.lines row + width document.lines row < editor.len := by
  have found := @join_separator _ newline document.lines row more
  rw [document.join_lines] at found
  have inside := (List.getElem?_eq_some_iff.mp found).1
  rw [holds.byte (by rw [holds.size]; exact inside), holds.size]
  exact ⟨found, inside⟩

/-- Stepping back from a column ends at the start of its line. -/
theorem Holds.lineStartLoop (inside : row < document.lines.length) (column : Nat)
    (short : column ≤ width document.lines row) :
    Edit.lineStartLoop buffer (offset document.lines row + column) = some (offset document.lines row) := by
  induction column with
  | zero =>
    rw [Nat.add_zero]
    cases row with
    | zero => rw [offset_zero]; rfl
    | succ row =>
      have ended := (holds.end_byte inside).1
      rw [offset_succ (by omega), Edit.lineStartLoop, ended]
      rfl
  | succ column ih =>
    obtain ⟨byte, found, other⟩ := holds.column_byte inside (Nat.lt_of_succ_le short)
    rw [← Nat.add_assoc, Edit.lineStartLoop, found]
    change (if byte ≠ newline then _ else _) = _
    rw [if_pos other]
    exact ih (Nat.le_of_succ_le short)

/-- Stepping forward from a column ends at the end of its line. -/
theorem Holds.lineEndLoop (inside : row < document.lines.length) (more column : Nat)
    (short : column + more = width document.lines row) :
    Edit.lineEndLoop buffer (editor.len - (offset document.lines row + column)) (offset document.lines row + column) =
      some (offset document.lines row + width document.lines row) := by
  induction more generalizing column with
  | zero =>
    rw [Nat.add_zero] at short
    rw [short]
    rcases Nat.lt_or_ge (row + 1) document.lines.length with next | last
    · obtain ⟨found, before⟩ := holds.end_byte next
      obtain ⟨rest, same⟩ := Nat.exists_eq_add_one_of_ne_zero (Nat.sub_ne_zero_of_lt before)
      rw [same, Edit.lineEndLoop, found]
      rfl
    · have length := @length_join _ newline document.lines row (by omega)
      rw [document.join_lines] at length
      rw [holds.size, length, Nat.sub_self]
      rfl
  | succ more ih =>
    obtain ⟨byte, found, other⟩ := holds.column_byte inside (show column < _ by omega)
    have limit := Document.offset_add_width_le inside
    obtain ⟨rest, same⟩ := Nat.exists_eq_add_one_of_ne_zero
      (show editor.len - (offset document.lines row + column) ≠ 0 by rw [holds.size]; omega)
    have next : rest = editor.len - (offset document.lines row + (column + 1)) := by omega
    rw [same, Edit.lineEndLoop, found]
    change (if byte ≠ newline then _ else _) = _
    rw [if_pos other, next]
    exact ih (column + 1) (by omega)

/-- The editor finds the line of every column. -/
theorem Holds.line {row column : Nat} (inside : row < document.lines.length)
    (short : column ≤ width document.lines row) :
    editor.lineStart buffer (offset document.lines row + column) = some (offset document.lines row) ∧
      editor.lineEnd buffer (offset document.lines row + column) =
        some (offset document.lines row + width document.lines row) := by
  have limit := Document.offset_add_width_le inside
  have least : min (offset document.lines row + column) editor.len = offset document.lines row + column :=
    Nat.min_eq_left (by rw [holds.size]; omega)
  rw [Editor.lineStart, Editor.lineEnd, least]
  exact ⟨holds.lineStartLoop inside column short,
    holds.lineEndLoop inside (width document.lines row - column) column (by omega)⟩

/-- The editor finds the line of its cursor. -/
theorem Holds.cursor_line :
    editor.lineStart buffer editor.cursor = some (offset document.lines document.row) ∧
      editor.lineEnd buffer editor.cursor =
        some (offset document.lines document.row + width document.lines document.row) := by
  obtain ⟨inside, short, same⟩ := Document.cursor_eq holds.aligned.inside
  rw [holds.cursor, ← same]
  exact holds.line inside short

/-- The editor aims at the column of the document. -/
theorem Holds.aim :
    editor.preferredColumn.getD (editor.cursor - offset document.lines document.row) = document.aim := by
  obtain ⟨_, _, same⟩ := Document.cursor_eq holds.aligned.inside
  have column : editor.cursor - offset document.lines document.row = document.column := by
    rw [holds.cursor]
    omega
  rw [column, holds.goal, Document.aim]

/-- The editor moves to the row of a vertical move. -/
theorem Holds.moveTo (inside : row < document.lines.length) :
    Holds { editor with
        cursor := min (offset document.lines row + document.aim) (offset document.lines row + width document.lines row)
        preferredColumn := some document.aim } buffer (document.moveTo row) :=
  { holds with
    cursor := by
      change min _ _ = offset document.lines row + min document.aim (width document.lines row)
      omega
    goal := rfl
    aligned := .moveTo inside }

theorem Holds.moveUp : ∃ moved, editor.moveUp buffer = some moved ∧ Holds moved buffer document.up := by
  obtain ⟨inside, _, _⟩ := Document.cursor_eq holds.aligned.inside
  rw [Editor.moveUp, holds.cursor_line.1, Option.bind_eq_bind, Option.bind_some, holds.aim]
  cases row : document.row with
  | zero =>
    rw [offset_zero, if_pos rfl, Document.up, if_pos row]
    exact ⟨editor, rfl, holds⟩
  | succ above =>
    rw [row] at inside
    have before := @offset_succ _ document.lines above (by omega)
    have previous := (@Holds.line _ _ _ holds above (width document.lines above) (by omega) (Nat.le_refl _)).1
    rw [before, if_neg (by omega), Nat.add_sub_cancel, Document.up, if_neg (by omega), row, Nat.add_sub_cancel]
    dsimp only
    rw [previous, Option.bind_some]
    exact ⟨_, rfl, holds.moveTo (by omega)⟩

theorem Holds.moveDown : ∃ moved, editor.moveDown buffer = some moved ∧ Holds moved buffer document.down := by
  obtain ⟨inside, _, _⟩ := Document.cursor_eq holds.aligned.inside
  rw [Editor.moveDown, holds.cursor_line.1, Option.bind_eq_bind, Option.bind_some, holds.aim, holds.cursor_line.2,
    Option.bind_some]
  rcases Nat.lt_or_ge (document.row + 1) document.lines.length with next | last
  · have before := (holds.end_byte next).2
    have after := offset_succ inside
    have following := (@Holds.line _ _ _ holds (document.row + 1) 0 next (Nat.zero_le _)).2
    rw [Nat.add_zero] at following
    rw [if_neg (Nat.ne_of_lt before), ← after, Document.down, if_neg (Nat.ne_of_lt next)]
    dsimp only
    rw [following, Option.bind_some]
    exact ⟨_, rfl, holds.moveTo next⟩
  · have bottom : document.row + 1 = document.lines.length := by omega
    have length := @length_join _ newline document.lines document.row bottom
    rw [document.join_lines, ← holds.size] at length
    rw [if_pos length.symm, Document.down, if_pos bottom]
    exact ⟨editor, rfl, holds⟩

theorem Holds.handleArrowKey (input : UInt8) :
    ∃ moved, editor.handleArrowKey input buffer = some moved ∧ Holds moved buffer (document.arrow input) := by
  have inside := holds.aligned.inside
  unfold Editor.handleArrowKey Document.arrow
  by_cases first : input = 0x41
  · rw [if_pos first, if_pos first]
    exact holds.moveUp
  rw [if_neg first, if_neg first]
  by_cases second : input = 0x42
  · rw [if_pos second, if_pos second]
    exact holds.moveDown
  rw [if_neg second, if_neg second]
  by_cases third : input = 0x43
  · rw [if_pos third, if_pos third]
    refine ⟨_, rfl, { holds with cursor := ?_, goal := rfl, aligned := ?_ }⟩
    · change (if editor.cursor < editor.len then editor.cursor + 1 else editor.cursor) =
        min (document.cursor + 1) document.text.length
      rw [holds.cursor, holds.size]
      split <;> omega
    · exact Document.aligned_of_none (Nat.min_le_right _ _) rfl
  rw [if_neg third, if_neg third]
  by_cases fourth : input = 0x44
  · rw [if_pos fourth, if_pos fourth]
    refine ⟨_, rfl, { holds with cursor := ?_, goal := rfl, aligned := ?_ }⟩
    · exact congrArg (· - 1) holds.cursor
    · exact Document.aligned_of_none (Nat.le_trans (Nat.sub_le _ _) inside) rfl
  rw [if_neg fourth, if_neg fourth]
  exact ⟨editor, rfl, holds⟩

/-- A run of vertical moves shows the document after the same moves. -/
theorem Holds.verticalMoves (moves : List Bool) :
    ∃ moved, editor.verticalMoves buffer moves = some moved ∧ Holds moved buffer (document.vertical moves) := by
  induction moves generalizing editor document with
  | nil => exact ⟨editor, rfl, holds⟩
  | cons ascends rest ih =>
    cases ascends with
    | true =>
      obtain ⟨next, first, after⟩ := holds.moveUp
      obtain ⟨moved, later, last⟩ := ih after
      refine ⟨moved, ?_, last⟩
      rw [Editor.verticalMoves, if_pos rfl, first]
      exact later
    | false =>
      obtain ⟨next, first, after⟩ := holds.moveDown
      obtain ⟨moved, later, last⟩ := ih after
      refine ⟨moved, ?_, last⟩
      rw [Editor.verticalMoves, if_neg Bool.false_ne_true, first]
      exact later

/-- The cursor stands in the column that it aims at, or at the end of a shorter line. -/
theorem Holds.cursor_column :
    ∃ first last, editor.lineStart buffer editor.cursor = some first ∧
      editor.lineEnd buffer editor.cursor = some last ∧ editor.cursor = min (first + document.aim) last := by
  refine ⟨_, _, holds.cursor_line.1, holds.cursor_line.2, ?_⟩
  rw [holds.cursor, holds.aligned.cursor_place, place, Nat.add_min_add_left]

end Lines

section Session

variable {W : Type} {session : Session W} {document : Document} {place : Nat}

/-- The session holds a document. -/
def Session.Shows (session : Session W) (document : Document) : Prop := Holds session.editor session.buffer document

/-- The bytes before the cursor are those of the text. -/
theorem Session.Shows.take (shows : session.Shows document) (before : place ≤ document.cursor) :
    session.buffer.take place = document.text.take place := by
  have inside := shows.aligned.inside
  have size := shows.size
  rw [← shows.text, List.take_take, Nat.min_eq_left (by omega)]

theorem Session.Shows.drop (shows : session.Shows document) :
    (session.buffer.drop document.cursor).take (session.editor.len - document.cursor) =
      document.text.drop document.cursor := by
  rw [← shows.text, List.drop_take]

/-- A byte that is stored before a shifted range stands between the two parts. -/
theorem set_shifted (buffer : List UInt8) (byte : UInt8) (inside : place < buffer.length) (rest : List UInt8) :
    (buffer.take (place + 1) ++ rest).set place byte = buffer.take place ++ byte :: rest := by
  have length : (buffer.take place).length = place := by rw [List.length_take]; omega
  rw [List.take_add_one, List.getElem?_eq_getElem inside, Option.toList_some, List.append_assoc,
    List.set_append_right _ _ (by rw [length]), length, Nat.sub_self]
  rfl

/-- The first bytes of a buffer are the text that it begins with. -/
theorem take_text {text rest : List UInt8} {length : Nat} (same : text.length = length) :
    (text ++ rest).take length = text := by
  rw [← same, List.take_left]

theorem Session.Shows.insertByte (shows : session.Shows document) (byte : UInt8) :
    ∃ edited, session.insertByte byte = some edited ∧ edited.Shows (document.insert byte) := by
  have inside := shows.aligned.inside
  have size := shows.size
  have room := shows.room
  have capacity := shows.capacity
  have aligned := shows.aligned.insert byte
  unfold Session.insertByte Document.insert at *
  dsimp only
  by_cases full : session.editor.len = session.buffer.length
  · rw [if_pos full, if_pos (by omega)]
    exact ⟨_, rfl, { shows with }⟩
  · have copied : copyWithin session.buffer session.editor.cursor session.editor.len (session.editor.cursor + 1) =
        some (session.buffer.take (document.cursor + 1) ++ (document.text.drop document.cursor ++
          session.buffer.drop (session.editor.len + 1))) := by
      have shifted : document.cursor + 1 + (session.editor.len - document.cursor) = session.editor.len + 1 := by omega
      rw [copyWithin, shows.cursor, if_pos (by omega), List.append_assoc, shows.drop, shifted]
    have written (bytes : List UInt8) (long : document.cursor < bytes.length) :
        setByte bytes session.editor.cursor byte = some (bytes.set document.cursor byte) := by
      rw [setByte, shows.cursor, if_pos long]
    rw [if_neg (by omega)] at aligned
    rw [if_neg full, if_neg (by omega), copied, Option.bind_eq_bind, Option.bind_some,
      written _ (by simp only [List.length_append, List.length_take]; omega), Option.bind_some,
      set_shifted _ _ (by omega), shows.take (Nat.le_refl _)]
    refine ⟨_, rfl, ?_⟩
    exact
      { capacity := by
          simp only [List.length_append, List.length_take, List.length_cons, List.length_drop]
          omega
        size := by
          simp only [List.length_append, List.length_take, List.length_cons, List.length_drop]
          omega
        room := by
          show session.editor.len + 1 ≤ fileCapacity
          omega
        text := by
          rw [← List.cons_append, ← List.append_assoc]
          apply take_text
          simp only [List.length_append, List.length_take, List.length_cons, List.length_drop]
          omega
        cursor := congrArg (· + 1) shows.cursor
        goal := rfl
        escape := shows.escape
        aligned := aligned
        clean := fun clean => by cases clean }

theorem Session.Shows.backspace (shows : session.Shows document) :
    ∃ edited, session.backspace = some edited ∧ edited.Shows document.erase := by
  have inside := shows.aligned.inside
  have size := shows.size
  have room := shows.room
  have capacity := shows.capacity
  have aligned := shows.aligned.erase
  unfold Session.backspace Document.erase at *
  dsimp only
  rw [shows.cursor]
  by_cases first : document.cursor = 0
  · rw [if_pos first, if_pos first]
    exact ⟨_, rfl, shows⟩
  · have copied : copyWithin session.buffer (document.cursor - 1 + 1) session.editor.len (document.cursor - 1) =
        some (document.text.take (document.cursor - 1) ++ document.text.drop document.cursor ++
          session.buffer.drop (session.editor.len - 1)) := by
      have back : document.cursor - 1 + 1 = document.cursor := by omega
      have shifted : document.cursor - 1 + (session.editor.len - document.cursor) = session.editor.len - 1 := by omega
      rw [copyWithin, back, if_pos (by omega), shows.drop, shifted, shows.take (Nat.sub_le _ _)]
    rw [if_neg first] at aligned
    rw [if_neg first, if_neg first, copied, Option.bind_eq_bind, Option.bind_some]
    refine ⟨_, rfl, ?_⟩
    exact
      { capacity := by
          simp only [List.length_append, List.length_take, List.length_drop]
          omega
        size := by
          simp only [List.length_append, List.length_take, List.length_drop]
          omega
        room := Nat.le_trans (Nat.sub_le _ _) room
        text := by
          apply take_text
          simp only [List.length_append, List.length_take, List.length_drop]
          omega
        cursor := rfl
        goal := rfl
        escape := shows.escape
        aligned := aligned
        clean := fun clean => by cases clean }

variable [Ulib W]

/-- The file takes the text of the session. -/
def Session.saves (session : Session W) : Bool :=
  let truncated := Ulib.truncate session.editor.fd 0 session.world
  truncated.1 && (Ulib.write session.editor.fd (session.buffer.take session.editor.len) truncated.2).1 ==
    session.editor.len

theorem Session.saves_iff (session : Session W) :
    session.saves = true ↔ (Ulib.truncate session.editor.fd 0 session.world).1 = true ∧
      (Ulib.write session.editor.fd (session.buffer.take session.editor.len)
        (Ulib.truncate session.editor.fd 0 session.world).2).1 = session.editor.len := by
  rw [Session.saves, Bool.and_eq_true, beq_iff_eq]

section Shows

variable (shows : session.Shows document)

include shows

/-- A save changes the document only in what its file holds. -/
theorem Session.Shows.save : ∃ saved, session.save = some saved ∧
      (session.saves = true → saved.Shows { document with saved := document.text }) ∧
      (session.saves ≠ true → saved.Shows document) := by
  have room := shows.room
  have capacity := shows.capacity
  have fits : ¬ session.editor.len > session.buffer.length := by omega
  rw [ne_eq, session.saves_iff]
  unfold Session.save
  dsimp only
  by_cases truncated : (Ulib.truncate session.editor.fd 0 session.world).1 = true
  · by_cases complete : (Ulib.write session.editor.fd (session.buffer.take session.editor.len)
        (Ulib.truncate session.editor.fd 0 session.world).2).1 = session.editor.len
    · rw [if_neg (by rw [truncated]; decide), if_neg fits, if_neg (not_not.mpr complete)]
      refine ⟨_, rfl, fun _ => ?_, fun failed => absurd ⟨truncated, complete⟩ failed⟩
      exact { shows with
        aligned := ⟨shows.aligned.inside, shows.aligned.goal⟩
        clean := fun _ => rfl }
    · rw [if_neg (by rw [truncated]; decide), if_neg fits, if_pos complete]
      exact ⟨_, rfl, fun both => absurd both.2 complete, fun _ => { shows with }⟩
  · rw [if_pos (by rw [Bool.not_eq_true] at truncated; rw [truncated]; rfl)]
    exact ⟨_, rfl, fun both => absurd both.1 truncated, fun _ => { shows with }⟩

omit [Ulib W] in
/-- Only the escape state changes. -/
theorem Session.Shows.enter (escape : Escape) :
    Session.Shows { session with editor := { session.editor with escapeState := escape.code } }
      { document with escape := escape } :=
  { shows with
    escape := rfl
    aligned := ⟨shows.aligned.inside, shows.aligned.goal⟩ }

/-- A byte behind an escape byte begins an arrow key, saves, quits or is ignored. -/
theorem Session.Shows.begun (begun : document.escape = .begun) (input : UInt8) :
    ∃ handled, session.handleInput input = some handled ∧ handled.2.Shows (document.step input session.saves) := by
  have state : session.editor.escapeState = 1 := by rw [shows.escape, begun]; rfl
  have ended := shows.enter .outside
  rw [Document.step, begun, Session.handleInput]
  dsimp only
  rw [if_pos state]
  by_cases bracket : input = 0x5B
  · rw [if_pos bracket, if_pos bracket]
    exact ⟨_, rfl, shows.enter .arrow⟩
  · rw [if_neg bracket, if_neg bracket]
    by_cases write : input = 0x77
    · obtain ⟨saved, done, kept, lost⟩ := ended.save
      rw [if_pos write]
      refine ⟨(false, saved), Option.map_eq_some_iff.mpr ⟨saved, done, rfl⟩, ?_⟩
      by_cases taken : session.saves = true
      · rw [if_pos ⟨write, taken⟩]
        exact kept taken
      · rw [if_neg (fun both => taken both.2)]
        exact lost taken
    · have other : ¬ (input = 0x77 ∧ session.saves = true) := fun both => write both.1
      rw [if_neg write, if_neg other]
      by_cases quit : input = 0x71
      · rw [if_pos quit]
        exact ⟨_, rfl, ended⟩
      · rw [if_neg quit]
        exact ⟨_, rfl, ended⟩

theorem Session.Shows.arrow (arrow : document.escape = .arrow) (input : UInt8) :
    ∃ handled, session.handleInput input = some handled ∧ handled.2.Shows (document.step input session.saves) := by
  have state : session.editor.escapeState = 2 := by rw [shows.escape, arrow]; rfl
  obtain ⟨moved, done, holds⟩ := (shows.enter .outside).handleArrowKey input
  rw [Document.step, arrow, Session.handleInput]
  dsimp only
  rw [if_neg (by rw [state]; decide), if_pos state]
  exact ⟨(false, { session with editor := moved }), Option.bind_eq_some_iff.mpr ⟨moved, done, rfl⟩, holds⟩

/-- A byte outside an escape sequence edits the text or begins a sequence. -/
theorem Session.Shows.outside (outside : document.escape = .outside) (input : UInt8) :
    ∃ handled, session.handleInput input = some handled ∧ handled.2.Shows (document.step input session.saves) := by
  have state : session.editor.escapeState = 0 := by rw [shows.escape, outside]; rfl
  have edited {document : Document} {result : Option (Session W)}
      (shown : ∃ edited, result = some edited ∧ edited.Shows document) :
      ∃ handled, (result.map fun edited => (false, edited)) = some handled ∧ handled.2.Shows document := by
    obtain ⟨edited, done, same⟩ := shown
    exact ⟨(false, edited), by rw [done]; rfl, same⟩
  rw [Document.step, outside, Session.handleInput]
  dsimp only
  rw [if_neg (by rw [state]; decide), if_neg (by rw [state]; decide), Document.type]
  by_cases start : input = 0x1B
  · rw [if_pos start, if_pos start]
    exact ⟨_, rfl, shows.enter .begun⟩
  · rw [if_neg start, if_neg start]
    by_cases erase : input = 0x08 ∨ input = 0x7F
    · rw [if_pos erase, if_pos erase]
      exact edited shows.backspace
    · rw [if_neg erase, if_neg erase]
      by_cases ends : input = 0x0D ∨ input = 0x0A
      · rw [if_pos ends, if_pos ends]
        exact edited (shows.insertByte newline)
      · rw [if_neg ends, if_neg ends]
        by_cases visible : (!isAsciiControl input || input = 0x09) = true
        · rw [if_pos visible, if_pos visible]
          exact edited (shows.insertByte input)
        · rw [if_neg visible, if_neg visible]
          exact ⟨_, rfl, shows⟩

/-- Every input is handled without a panic and changes the document as described. -/
theorem Session.Shows.handleInput (input : UInt8) :
    ∃ handled, session.handleInput input = some handled ∧ handled.2.Shows (document.step input session.saves) := by
  cases escape : document.escape with
  | outside => exact shows.outside escape input
  | begun => exact shows.begun escape input
  | arrow => exact shows.arrow escape input

/-- Every input comes with the answer of the file at its time. -/
def Session.outcomes (session : Session W) : List UInt8 → List (UInt8 × Bool)
  | [] => []
  | input :: rest =>
    (input, session.saves) :: match session.handleInput input with
      | some handled => handled.2.outcomes rest
      | none => []

theorem Session.Shows.handleInputs (inputs : List UInt8) :
    ∃ final, session.handleInputs inputs = some final ∧ final.Shows (document.run (session.outcomes inputs)) := by
  induction inputs generalizing session document with
  | nil => exact ⟨session, rfl, shows⟩
  | cons input rest ih =>
    obtain ⟨handled, done, later⟩ := shows.handleInput input
    obtain ⟨final, ran, last⟩ := ih later
    refine ⟨final, ?_, ?_⟩
    · rw [Session.handleInputs, done, Option.bind_eq_bind, Option.bind_some]
      exact ran
    · rw [Session.outcomes, done]
      exact last

end Shows

omit [Ulib W] in
/-- A loaded file is shown as it is. -/
theorem Session.load_shows (fd : Nat) {contents : List UInt8} (short : contents.length ≤ fileCapacity) (world : W) :
    (Session.load fd contents world).Shows ⟨contents, 0, none, .outside, contents⟩ where
  capacity := by
    rw [Session.load, List.length_append, List.length_replicate]
    omega
  size := rfl
  room := short
  text := take_text rfl
  cursor := rfl
  goal := rfl
  escape := rfl
  aligned := Document.aligned_of_none (Nat.zero_le _) rfl
  clean _ := rfl

/-- After any inputs the buffer holds the text and the cursor of the document that the inputs describe. -/
theorem Session.handleInputs_refines (fd : Nat) (contents : List UInt8) (world : W)
    (short : contents.length ≤ fileCapacity) (inputs : List UInt8) :
    ∃ final, (Session.load fd contents world).handleInputs inputs = some final ∧
      let document := Document.run ⟨contents, 0, none, .outside, contents⟩
        ((Session.load fd contents world).outcomes inputs)
      final.editor.cursor ≤ final.editor.len ∧ final.editor.len ≤ fileCapacity ∧
        final.buffer.length = fileCapacity ∧
        final.buffer.take final.editor.len = document.text ∧ final.editor.cursor = document.cursor ∧
        (final.editor.dirty = false → final.buffer.take final.editor.len = document.saved) := by
  obtain ⟨final, ran, shows⟩ := (Session.load_shows fd short world).handleInputs inputs
  have inside := shows.aligned.inside
  rw [← shows.cursor, ← shows.size] at inside
  refine ⟨final, ran, inside, shows.room, shows.capacity, shows.text, shows.cursor, ?_⟩
  intro clean
  rw [shows.text]
  exact shows.clean clean

/-- These answers tell in order which calls succeed. -/
instance : Ulib (List Bool) where
  openFile _ answers := (0, answers)
  close _ answers := (false, answers)
  write _ bytes answers := (if answers.headD false then bytes.length else 0, answers.tail)
  truncate _ _ answers := (answers.headD false, answers.tail)

/-- A letter is typed before another one and the text is saved. -/
theorem Session.handleInputs_refines_letter :
    ([0x61] : List UInt8).length ≤ fileCapacity ∧
      ∃ final, (Session.load 3 [0x61] [true, true]).handleInputs [0x62, 0x1B, 0x77] = some final ∧
        final.buffer.take final.editor.len = [0x62, 0x61] ∧ final.editor.cursor = 1 ∧
        (final.editor.dirty = false → final.buffer.take final.editor.len = [0x62, 0x61]) := by
  have short : ([0x61] : List UInt8).length ≤ fileCapacity := by decide
  obtain ⟨final, ran, _, _, _, text, cursor, clean⟩ :=
    Session.handleInputs_refines 3 [0x61] [true, true] short [0x62, 0x1B, 0x77]
  have flags : (Session.load 3 [0x61] [true, true]).outcomes [0x62, 0x1B, 0x77] =
      [(0x62, true), (0x1B, true), (0x77, true)] := by decide +kernel
  rw [flags] at text cursor clean
  exact ⟨short, final, ran, text, cursor, clean⟩

/-- A vertical move is taken back by the opposite one, and every run of them keeps to one column. -/
theorem Session.vertical_reversible (fd : Nat) (contents : List UInt8) (world : W)
    (short : contents.length ≤ fileCapacity) (inputs : List UInt8) (session : Session W)
    (reached : (Session.load fd contents world).handleInputs inputs = some session) :
    (∃ up, session.editor.moveUp session.buffer = some up ∧ (up.cursor ≠ session.editor.cursor →
      ∃ back, up.moveDown session.buffer = some back ∧ back.cursor = session.editor.cursor)) ∧
    (∃ down, session.editor.moveDown session.buffer = some down ∧ (down.cursor ≠ session.editor.cursor →
      ∃ back, down.moveUp session.buffer = some back ∧ back.cursor = session.editor.cursor)) ∧
    ∃ start, session.editor.lineStart session.buffer session.editor.cursor = some start ∧
      ∀ moves, ∃ moved first last, session.editor.verticalMoves session.buffer moves = some moved ∧
        moved.lineStart session.buffer moved.cursor = some first ∧
        moved.lineEnd session.buffer moved.cursor = some last ∧
        moved.cursor = min (first + session.editor.preferredColumn.getD (session.editor.cursor - start)) last := by
  obtain ⟨final, ran, shows⟩ := (Session.load_shows fd short world).handleInputs inputs
  obtain rfl : session = final := Option.some.inj (reached.symm.trans ran)
  have aligned := shows.aligned
  refine ⟨?_, ?_, _, shows.cursor_line.1, ?_⟩
  · obtain ⟨up, moved, above⟩ := shows.moveUp
    obtain ⟨back, returned, below⟩ := above.moveDown
    refine ⟨up, moved, fun changed => ⟨back, returned, ?_⟩⟩
    rw [above.cursor, shows.cursor] at changed
    rw [below.cursor, shows.cursor]
    exact aligned.down_up changed
  · obtain ⟨down, moved, below⟩ := shows.moveDown
    obtain ⟨back, returned, above⟩ := below.moveUp
    refine ⟨down, moved, fun changed => ⟨back, returned, ?_⟩⟩
    rw [below.cursor, shows.cursor] at changed
    rw [above.cursor, shows.cursor]
    exact aligned.up_down changed
  · intro moves
    obtain ⟨moved, ran, later⟩ := shows.verticalMoves moves
    obtain ⟨first, last, starts, ends, column⟩ := later.cursor_column
    refine ⟨moved, first, last, ran, starts, ends, ?_⟩
    rw [shows.aim, ← (aligned.vertical moves).2.2]
    exact column

/-- A move down from the first of two lines is taken back. -/
theorem Session.vertical_reversible_two_lines :
    ∃ session down back,
      (Session.load 3 [0x61, 0x62, 10, 0x63] ([] : List Bool)).handleInputs [0x1B, 0x5B, 0x43] = some session ∧
        session.editor.moveDown session.buffer = some down ∧ down.cursor = 4 ∧
        down.moveUp session.buffer = some back ∧ back.cursor = 1 := by
  let session : Session (List Bool) :=
    { Session.load 3 [0x61, 0x62, 10, 0x63] [] with editor := ⟨3, 4, 1, none, 0, false, .help⟩ }
  have reached : (Session.load 3 [0x61, 0x62, 10, 0x63] ([] : List Bool)).handleInputs [0x1B, 0x5B, 0x43] =
      some session := rfl
  obtain ⟨_, ⟨down, moved, returns⟩, _⟩ := Session.vertical_reversible _ _ _ (by decide) _ session reached
  have known : session.editor.moveDown session.buffer = some ⟨3, 4, 4, some 1, 0, false, .help⟩ := by decide +kernel
  obtain rfl : _ = down := Option.some.inj (known.symm.trans moved)
  obtain ⟨back, found, same⟩ := returns (by decide)
  exact ⟨session, _, back, reached, moved, rfl, found, same⟩

end Session

end BubbleOs.Edit
