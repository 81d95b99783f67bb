/-
This file models the text editor.
-/

import BubbleOs.Construction.Ulib.Lib

namespace BubbleOs.Edit

def fileCapacity : Nat := 4096

/-- The status line shows one of these texts. -/
inductive Message where
  | help
  | bufferFull
  | couldNotTruncateFile
  | couldNotWriteFile
  | written
  deriving DecidableEq

structure Editor where
  fd : Nat
  len : Nat
  cursor : Nat
  preferredColumn : Option Nat
  escapeState : UInt8
  dirty : Bool
  message : Message
  deriving DecidableEq

/-- The editor works on its buffer and makes system calls in a world. -/
structure Session (W : Type) where
  editor : Editor
  buffer : List UInt8
  world : W

/-- A range outside the buffer panics. -/
def copyWithin (buffer : List UInt8) (start stop dest : Nat) : Option (List UInt8) :=
  if start ≤ stop ∧ stop ≤ buffer.length ∧ dest + (stop - start) ≤ buffer.length then
    some (buffer.take dest ++ (buffer.drop start).take (stop - start) ++ buffer.drop (dest + (stop - start)))
  else none

def setByte (buffer : List UInt8) (index : Nat) (byte : UInt8) : Option (List UInt8) :=
  if index < buffer.length then some (buffer.set index byte) else none

def newline : UInt8 := 10

def isAsciiControl (byte : UInt8) : Bool := byte < 0x20 || byte == 0x7F

/-- The loop steps back until the byte before the index ends a line. -/
def lineStartLoop (buffer : List UInt8) : Nat → Option Nat
  | 0 => some 0
  | index + 1 => do
    let byte ← buffer[index]?
    if byte ≠ newline then lineStartLoop buffer index else some (index + 1)

/-- The loop steps forward until the byte at the index ends a line. -/
def lineEndLoop (buffer : List UInt8) : Nat → Nat → Option Nat
  | 0, index => some index
  | more + 1, index => do
    let byte ← buffer[index]?
    if byte ≠ newline then lineEndLoop buffer more (index + 1) else some index

namespace Editor

def lineStart (editor : Editor) (buffer : List UInt8) (index : Nat) : Option Nat :=
  lineStartLoop buffer (min index editor.len)

def lineEnd (editor : Editor) (buffer : List UInt8) (index : Nat) : Option Nat :=
  lineEndLoop buffer (editor.len - min index editor.len) (min index editor.len)

def moveUp (editor : Editor) (buffer : List UInt8) : Option Editor := do
  let lineStart ← editor.lineStart buffer editor.cursor
  if lineStart = 0 then some editor
  else
    let column := editor.preferredColumn.getD (editor.cursor - lineStart)
    let previousEnd := lineStart - 1
    let previousStart ← editor.lineStart buffer previousEnd
    some { editor with
      cursor := min (previousStart + column) previousEnd
      preferredColumn := some column }

def moveDown (editor : Editor) (buffer : List UInt8) : Option Editor := do
  let lineStart ← editor.lineStart buffer editor.cursor
  let column := editor.preferredColumn.getD (editor.cursor - lineStart)
  let lineEnd ← editor.lineEnd buffer editor.cursor
  if lineEnd = editor.len then some editor
  else
    let nextStart := lineEnd + 1
    let nextEnd ← editor.lineEnd buffer nextStart
    some { editor with
      cursor := min (nextStart + column) nextEnd
      preferredColumn := some column }

def handleArrowKey (editor : Editor) (input : UInt8) (buffer : List UInt8) : Option Editor :=
  if input = 0x41 then editor.moveUp buffer
  else if input = 0x42 then editor.moveDown buffer
  else if input = 0x43 then
    some { editor with
      cursor := if editor.cursor < editor.len then editor.cursor + 1 else editor.cursor
      preferredColumn := none }
  else if input = 0x44 then some { editor with cursor := editor.cursor - 1, preferredColumn := none }
  else some editor

/-- These moves go up or down. -/
def verticalMoves (editor : Editor) (buffer : List UInt8) : List Bool → Option Editor
  | [] => some editor
  | ascends :: rest => do
    let moved ← if ascends then editor.moveUp buffer else editor.moveDown buffer
    moved.verticalMoves buffer rest

end Editor

namespace Session

variable {W : Type}

def insertByte (session : Session W) (byte : UInt8) : Option (Session W) :=
  let editor := session.editor
  if editor.len = session.buffer.length then
    some { session with editor := { editor with message := .bufferFull } }
  else do
    let moved ← copyWithin session.buffer editor.cursor editor.len (editor.cursor + 1)
    let buffer ← setByte moved editor.cursor byte
    some { session with
      buffer := buffer
      editor := { editor with
        cursor := editor.cursor + 1
        len := editor.len + 1
        preferredColumn := none
        dirty := true } }

def backspace (session : Session W) : Option (Session W) :=
  let editor := session.editor
  if editor.cursor = 0 then some session
  else do
    let buffer ← copyWithin session.buffer (editor.cursor - 1 + 1) editor.len (editor.cursor - 1)
    some { session with
      buffer := buffer
      editor := { editor with
        cursor := editor.cursor - 1
        len := editor.len - 1
        preferredColumn := none
        dirty := true } }

variable [Ulib W]

/-- The file is emptied before the text is written. -/
def save (session : Session W) : Option (Session W) :=
  let editor := session.editor
  let truncated := Ulib.truncate editor.fd 0 session.world
  if !truncated.1 then
    some { session with editor := { editor with message := .couldNotTruncateFile }, world := truncated.2 }
  else if editor.len > session.buffer.length then none
  else
    let written := Ulib.write editor.fd (session.buffer.take editor.len) truncated.2
    if written.1 ≠ editor.len then
      some { session with editor := { editor with message := .couldNotWriteFile }, world := written.2 }
    else some { session with editor := { editor with dirty := false, message := .written }, world := written.2 }

/-- The result tells whether the editor quits. -/
def handleInput (session : Session W) (input : UInt8) : Option (Bool × Session W) :=
  let editor := session.editor
  if editor.escapeState = 1 then
    if input = 0x5B then some (false, { session with editor := { editor with escapeState := 2 } })
    else
      let ready := { session with editor := { editor with escapeState := 0 } }
      if input = 0x77 then ready.save.map fun saved => (false, saved)
      else if input = 0x71 then some (true, ready)
      else some (false, ready)
  else if editor.escapeState = 2 then do
    let moved ← { editor with escapeState := 0 }.handleArrowKey input session.buffer
    some (false, { session with editor := moved })
  else if input = 0x1B then some (false, { session with editor := { editor with escapeState := 1 } })
  else if input = 0x08 ∨ input = 0x7F then session.backspace.map fun edited => (false, edited)
  else if input = 0x0D ∨ input = 0x0A then (session.insertByte newline).map fun edited => (false, edited)
  else if !isAsciiControl input || input = 0x09 then (session.insertByte input).map fun edited => (false, edited)
  else some (false, session)

omit [Ulib W] in
/-- The editor has read a file that fits into its buffer. -/
def load (fd : Nat) (contents : List UInt8) (world : W) : Session W where
  editor := ⟨fd, contents.length, 0, none, 0, false, .help⟩
  buffer := contents ++ List.replicate (fileCapacity - contents.length) 0
  world := world

/-- These inputs follow each other, also after one that quits. -/
def handleInputs (session : Session W) : List UInt8 → Option (Session W)
  | [] => some session
  | input :: rest => do
    let handled ← session.handleInput input
    handled.2.handleInputs rest

end Session

end BubbleOs.Edit
