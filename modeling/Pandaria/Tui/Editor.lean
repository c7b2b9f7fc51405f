import Pandaria.Ai.Sse
import Pandaria.Lib.ByteText

/-!
# The editor of the terminal interface

`tui/src/widgets/editor.rs`, without the drawing. A line is the list of its
characters, and the cursor counts characters; a line is changed at a place
counted in bytes, and `none` is the panic that an index out of range or a place
inside a character ends in. The numbers are `Nat`: none of them is anywhere
near the end of a `usize`.

Which characters `char::is_alphanumeric` accepts is a parameter.
-/

namespace Pandaria.Tui

open Pandaria.Lib

/-- What `save_undo_state` saves. -/
structure EditorState where
  lines : List (List Char)
  cursorLine : Nat
  cursorCol : Nat
deriving DecidableEq

/-- The last element of a list is the one a `Vec` is pushed to and popped from. -/
structure Editor where
  lines : List (List Char)
  cursorLine : Nat
  cursorCol : Nat
  preferredCol : Option Nat
  viewportTop : Nat
  history : List (List Char)
  historyIndex : Option Nat
  killRing : List (List Char)
  lastKillAppended : Bool
  undoStack : List EditorState
  redoStack : List EditorState
  charJumpTarget : Option Char
deriving DecidableEq

def Editor.new : Editor where
  lines := [[]]
  cursorLine := 0
  cursorCol := 0
  preferredCol := none
  viewportTop := 0
  history := []
  historyIndex := none
  killRing := []
  lastKillAppended := false
  undoStack := []
  redoStack := []
  charJumpTarget := none

/-! ## Strings -/

/-- `chars.iter().take(n).map(|c| c.len_utf8()).sum()`. -/
def byteIdx (line : List Char) (n : Nat) : Nat := ByteText.size (line.take n)

/-- `String::insert`. -/
def insert (line : List Char) (idx : Nat) (ch : Char) : Option (List Char) :=
  (ByteText.sliceTo line idx).bind fun before =>
    (ByteText.sliceFrom line idx).map fun after => before ++ ch :: after

/-- `String::split_off`: what stays and what is handed back. -/
def splitOff (line : List Char) (idx : Nat) : Option (List Char × List Char) :=
  (ByteText.sliceTo line idx).bind fun before =>
    (ByteText.sliceFrom line idx).map fun after => (before, after)

/-- `String::drain`: what is drained and what stays. -/
def drain (line : List Char) (start stop : Nat) : Option (List Char × List Char) :=
  (ByteText.slice line start stop).bind fun drained =>
    (ByteText.sliceTo line start).bind fun before =>
      (ByteText.sliceFrom line stop).map fun after => (drained, before ++ after)

namespace Editor

/-! ## Saved states -/

def state (e : Editor) : EditorState := ⟨e.lines, e.cursorLine, e.cursorCol⟩

def saveUndoState (e : Editor) : Editor :=
  if e.undoStack.getLast? = some e.state then e
  else
    let stack := e.undoStack ++ [e.state]
    { e with undoStack := if 100 < stack.length then stack.tail else stack }

def undo (e : Editor) : Editor :=
  match e.undoStack.getLast? with
  | none => e
  | some s =>
      { e with
        undoStack := e.undoStack.dropLast
        redoStack := e.redoStack ++ [e.state]
        lines := s.lines
        cursorLine := s.cursorLine
        cursorCol := s.cursorCol }

def redo (e : Editor) : Editor :=
  match e.redoStack.getLast? with
  | none => e
  | some s =>
      { e with
        redoStack := e.redoStack.dropLast
        undoStack := e.undoStack ++ [e.state]
        lines := s.lines
        cursorLine := s.cursorLine
        cursorCol := s.cursorCol }

/-! ## Moving the cursor -/

/-- The move all of the plain ones end in. -/
def moveTo (e : Editor) (line col : Nat) : Editor :=
  { e with cursorLine := line, cursorCol := col, preferredCol := some col }

def cursorUp (e : Editor) : Option Editor :=
  let e := e.saveUndoState
  if 0 < e.cursorLine then
    e.lines[e.cursorLine - 1]?.map fun line =>
      { e with
        cursorLine := e.cursorLine - 1
        cursorCol := min (e.preferredCol.getD e.cursorCol) line.length }
  else some e

def cursorDown (e : Editor) : Option Editor :=
  let e := e.saveUndoState
  if e.cursorLine + 1 < e.lines.length then
    e.lines[e.cursorLine + 1]?.map fun line =>
      { e with
        cursorLine := e.cursorLine + 1
        cursorCol := min (e.preferredCol.getD e.cursorCol) line.length }
  else some e

def cursorLeft (e : Editor) : Option Editor :=
  let e := e.saveUndoState
  if 0 < e.cursorCol then some (e.moveTo e.cursorLine (e.cursorCol - 1))
  else if 0 < e.cursorLine then
    e.lines[e.cursorLine - 1]?.map fun line => e.moveTo (e.cursorLine - 1) line.length
  else some (e.moveTo e.cursorLine e.cursorCol)

def cursorRight (e : Editor) : Option Editor :=
  let e := e.saveUndoState
  e.lines[e.cursorLine]?.map fun line =>
    if e.cursorCol < line.length then e.moveTo e.cursorLine (e.cursorCol + 1)
    else if e.cursorLine + 1 < e.lines.length then e.moveTo (e.cursorLine + 1) 0
    else e.moveTo e.cursorLine e.cursorCol

section Words

variable (isAlphanumeric : Char → Bool)

def isWord (c : Char) : Bool := isAlphanumeric c || c = '_'

/-- `while pos > 0`, as long as the character before `pos` is of the kind; behind
the end of the line there are blanks. -/
def skipLeft (kind : Char → Bool) (text : List Char) : Nat → Nat
  | 0 => 0
  | pos + 1 => if kind (text[pos]?.getD ' ') then skipLeft kind text pos else pos + 1

/-- `while pos < len`, as long as the character at `pos` is of the kind. -/
def skipRight (kind : Char → Bool) (text : List Char) (pos : Nat) : Nat :=
  pos + ((text.drop pos).takeWhile kind).length

def cursorWordLeft (e : Editor) : Option Editor :=
  let e := e.saveUndoState
  let text := e.lines[e.cursorLine]?.getD []
  if e.cursorCol = 0 ∧ 0 < e.cursorLine then
    e.lines[e.cursorLine - 1]?.map fun line => e.moveTo (e.cursorLine - 1) line.length
  else
    let pos := skipLeft (fun c => !isWord isAlphanumeric c) text e.cursorCol
    some (e.moveTo e.cursorLine (skipLeft (isWord isAlphanumeric) text pos))

def cursorWordRight (e : Editor) : Option Editor :=
  let e := e.saveUndoState
  let text := e.lines[e.cursorLine]?.getD []
  if text.length ≤ e.cursorCol ∧ e.cursorLine + 1 < e.lines.length then
    some (e.moveTo (e.cursorLine + 1) 0)
  else
    let pos := min e.cursorCol text.length
    let atWord := (text[pos]?.map (isWord isAlphanumeric)).getD false
    let pos := if atWord then pos else skipRight (fun c => !isWord isAlphanumeric c) text pos
    some (e.moveTo e.cursorLine (skipRight (isWord isAlphanumeric) text pos))

end Words

def cursorLineStart (e : Editor) : Editor :=
  let e := e.saveUndoState
  e.moveTo e.cursorLine 0

def cursorLineEnd (e : Editor) : Option Editor :=
  let e := e.saveUndoState
  e.lines[e.cursorLine]?.map fun line => e.moveTo e.cursorLine line.length

def cursorDocStart (e : Editor) : Editor := e.saveUndoState.moveTo 0 0

def cursorDocEnd (e : Editor) : Option Editor :=
  let e := e.saveUndoState
  e.lines[e.lines.length - 1]?.map fun line => e.moveTo (e.lines.length - 1) line.length

/-- What `page_up` and `page_down` share: the column is cut to the line, and
`preferred_col` is not touched. -/
def pageTo (e : Editor) (i : Nat) : Option Editor :=
  e.lines[i]?.map fun line =>
    { e with cursorLine := i, cursorCol := min e.cursorCol line.length }

def pageUp (e : Editor) : Option Editor :=
  let e := e.saveUndoState
  e.pageTo (e.cursorLine - 10)

def pageDown (e : Editor) : Option Editor :=
  let e := e.saveUndoState
  e.pageTo (min (e.cursorLine + 10) (e.lines.length - 1))

def setCharJumpTarget (ch : Char) (e : Editor) : Editor := { e with charJumpTarget := some ch }

def charJump (e : Editor) : Option Editor :=
  match e.charJumpTarget with
  | none => some e
  | some target =>
      let e := e.saveUndoState
      e.lines[e.cursorLine]?.map fun line =>
        let e :=
          match (line.drop (e.cursorCol + 1)).findIdx? (· = target) with
          | some pos => e.moveTo e.cursorLine (e.cursorCol + 1 + pos)
          | none => e
        { e with charJumpTarget := none }

/-! ## Inserting -/

def insertCharInternal (ch : Char) (e : Editor) : Option Editor :=
  e.lines[e.cursorLine]?.bind fun line =>
    (insert line (byteIdx line e.cursorCol) ch).map fun line =>
      { e with lines := e.lines.set e.cursorLine line }.moveTo e.cursorLine (e.cursorCol + 1)

/-- The line is there, so the place behind it is one where a line can be inserted. -/
def insertNewlineInternal (e : Editor) : Option Editor :=
  e.lines[e.cursorLine]?.bind fun line =>
    (splitOff line (byteIdx line e.cursorCol)).map fun (line, remainder) =>
      let lines := (e.lines.set e.cursorLine line).insertIdx (e.cursorLine + 1) remainder
      { e with lines := lines }.moveTo (e.cursorLine + 1) 0

def insertChar (ch : Char) (e : Editor) : Option Editor :=
  (e.saveUndoState.insertCharInternal ch).map fun e => { e with lastKillAppended := false }

def insertNewline (e : Editor) : Option Editor :=
  e.saveUndoState.insertNewlineInternal.map fun e => { e with lastKillAppended := false }

/-- The loop of `insert_text`. -/
def insertChars : List Char → Editor → Option Editor
  | [], e => some e
  | ch :: text, e =>
      (if ch = '\n' then e.insertNewlineInternal else e.insertCharInternal ch).bind
        (insertChars text)

def insertText (text : List Char) (e : Editor) : Option Editor :=
  e.saveUndoState.insertChars text

def insertPasteMarker (id lineCount : Nat) (e : Editor) : Option Editor :=
  e.insertText s!"[paste #{id} +{lineCount} lines]".toList

/-! ## Deleting -/

def deleteCharBackward (e : Editor) : Option Editor :=
  let e := e.saveUndoState
  let done : Editor → Editor := fun e =>
    { e with preferredCol := some e.cursorCol, lastKillAppended := false }
  if 0 < e.cursorCol then
    e.lines[e.cursorLine]?.bind fun line =>
      (drain line (byteIdx line (e.cursorCol - 1)) (byteIdx line e.cursorCol)).map
        fun (_, line) =>
          done { e with
            lines := e.lines.set e.cursorLine line
            cursorCol := e.cursorCol - 1 }
  else if 0 < e.cursorLine then
    e.lines[e.cursorLine]?.bind fun line =>
      (e.lines.eraseIdx e.cursorLine)[e.cursorLine - 1]?.map fun previous =>
        done { e with
          lines := (e.lines.eraseIdx e.cursorLine).set (e.cursorLine - 1) (previous ++ line)
          cursorLine := e.cursorLine - 1
          cursorCol := previous.length }
  else some (done e)

def deleteCharForward (e : Editor) : Option Editor :=
  let e := e.saveUndoState
  e.lines[e.cursorLine]?.bind fun line =>
    let lines? : Option (List (List Char)) :=
      if e.cursorCol < line.length then
        (drain line (byteIdx line e.cursorCol) (byteIdx line (e.cursorCol + 1))).map
          fun (_, line) => e.lines.set e.cursorLine line
      else if e.cursorLine + 1 < e.lines.length then
        e.lines[e.cursorLine + 1]?.map fun nextLine =>
          (e.lines.eraseIdx (e.cursorLine + 1)).set e.cursorLine (line ++ nextLine)
      else some e.lines
    lines?.map fun lines => { e with lines := lines, lastKillAppended := false }

/-- `delete_range`: nothing is deleted over the end of a line. -/
def deleteRange (e : Editor) (startLine startCol endLine endCol : Nat) :
    Option (List Char × Editor) :=
  if startLine = endLine ∧ startCol ≤ endCol then
    e.lines[startLine]?.bind fun line =>
      (drain line (byteIdx line startCol) (byteIdx line (min endCol line.length))).map
        fun (deleted, line) => (deleted, { e with lines := e.lines.set startLine line })
  else some ([], e)

def pushKillRing (text : List Char) (append : Bool) (e : Editor) : Editor :=
  if text = [] then e
  else
    let ring :=
      if append && e.lastKillAppended && !e.killRing.isEmpty then
        e.killRing.dropLast ++ [e.killRing.getLast?.getD [] ++ text]
      else
        let ring := e.killRing ++ [text]
        if 10 < ring.length then ring.tail else ring
    { e with killRing := ring, lastKillAppended := append }

/-- The cursor is put back to where the word began or ended before the move. -/
def deleteWordBackward (isAlphanumeric : Char → Bool) (e : Editor) : Option Editor :=
  let e := e.saveUndoState
  (e.cursorWordLeft isAlphanumeric).bind fun moved =>
    let back := { moved with cursorCol := e.cursorCol, cursorLine := e.cursorLine }
    (back.deleteRange moved.cursorLine moved.cursorCol e.cursorLine e.cursorCol).map
      fun (deleted, e) => e.pushKillRing deleted false

def deleteWordForward (isAlphanumeric : Char → Bool) (e : Editor) : Option Editor :=
  let e := e.saveUndoState
  (e.cursorWordRight isAlphanumeric).bind fun moved =>
    let back := { moved with cursorCol := e.cursorCol, cursorLine := e.cursorLine }
    (back.deleteRange e.cursorLine e.cursorCol moved.cursorLine moved.cursorCol).map
      fun (deleted, e) => e.pushKillRing deleted false

def deleteToLineStart (e : Editor) : Option Editor :=
  let e := e.saveUndoState
  (e.deleteRange e.cursorLine 0 e.cursorLine e.cursorCol).map fun (deleted, e) =>
    { e with cursorCol := 0 }.pushKillRing deleted false

def deleteToLineEnd (e : Editor) : Option Editor :=
  let e := e.saveUndoState
  e.lines[e.cursorLine]?.bind fun line =>
    (e.deleteRange e.cursorLine e.cursorCol e.cursorLine line.length).map fun (deleted, e) =>
      e.pushKillRing deleted true

def killRingYank (e : Editor) : Option Editor :=
  match e.killRing.getLast? with
  | some text => e.insertText text
  | none => some e

def killRingYankPop (e : Editor) : Editor :=
  if 1 < e.killRing.length then { e with killRing := e.killRing.rotateRight 1 } else e

/-! ## The history of sent texts -/

def restoreHistoryEntry (idx : Nat) (e : Editor) : Option Editor :=
  e.history[idx]?.bind fun text =>
    let lines := if Ai.linesFrom [] text = [] then [[]] else Ai.linesFrom [] text
    lines[lines.length - 1]?.map fun line =>
      { e with lines := lines, cursorLine := lines.length - 1, cursorCol := line.length }

def historyPrev (e : Editor) : Option Editor :=
  if e.history = [] then some e
  else
    match e.historyIndex with
    | none =>
        let idx := e.history.length - 1
        restoreHistoryEntry idx { e with historyIndex := some idx }
    | some 0 => some e
    | some (i + 1) => restoreHistoryEntry i { e with historyIndex := some i }

def historyNext (e : Editor) : Option Editor :=
  match e.historyIndex with
  | none => some e
  | some i =>
      if i + 1 < e.history.length then
        restoreHistoryEntry (i + 1) { e with historyIndex := some (i + 1) }
      else
        some { e with historyIndex := none, lines := [[]], cursorLine := 0, cursorCol := 0 }

def clear (e : Editor) : Editor :=
  { e with
    lines := [[]]
    cursorLine := 0
    cursorCol := 0
    viewportTop := 0
    historyIndex := none
    undoStack := []
    redoStack := []
    charJumpTarget := none }

/-- The text, and the editor it is taken from; a character jump that waits for
its key still waits. -/
def takeText (e : Editor) : List Char × Editor :=
  let text := List.intercalate ['\n'] e.lines
  let history := if (Ai.trim text).isEmpty then e.history else e.history ++ [text]
  (text, { e.clear with history := history, charJumpTarget := e.charJumpTarget })

end Editor

/-! ## Operations -/

inductive Op where
  | cursorUp | cursorDown | cursorLeft | cursorRight
  | cursorWordLeft | cursorWordRight
  | cursorLineStart | cursorLineEnd | cursorDocStart | cursorDocEnd
  | pageUp | pageDown
  | setCharJumpTarget (ch : Char)
  | charJump
  | insertChar (ch : Char)
  | insertNewline
  | insertText (text : List Char)
  | insertPasteMarker (id lineCount : Nat)
  | deleteCharBackward | deleteCharForward
  | deleteWordBackward | deleteWordForward
  | deleteToLineStart | deleteToLineEnd
  | killRingYank | killRingYankPop
  | undo | redo
  | historyPrev | historyNext
  | takeText | clear
deriving DecidableEq

def Editor.apply (isAlphanumeric : Char → Bool) (e : Editor) : Op → Option Editor
  | .cursorUp => e.cursorUp
  | .cursorDown => e.cursorDown
  | .cursorLeft => e.cursorLeft
  | .cursorRight => e.cursorRight
  | .cursorWordLeft => e.cursorWordLeft isAlphanumeric
  | .cursorWordRight => e.cursorWordRight isAlphanumeric
  | .cursorLineStart => some e.cursorLineStart
  | .cursorLineEnd => e.cursorLineEnd
  | .cursorDocStart => some e.cursorDocStart
  | .cursorDocEnd => e.cursorDocEnd
  | .pageUp => e.pageUp
  | .pageDown => e.pageDown
  | .setCharJumpTarget ch => some (e.setCharJumpTarget ch)
  | .charJump => e.charJump
  | .insertChar ch => e.insertChar ch
  | .insertNewline => e.insertNewline
  | .insertText text => e.insertText text
  | .insertPasteMarker id lineCount => e.insertPasteMarker id lineCount
  | .deleteCharBackward => e.deleteCharBackward
  | .deleteCharForward => e.deleteCharForward
  | .deleteWordBackward => e.deleteWordBackward isAlphanumeric
  | .deleteWordForward => e.deleteWordForward isAlphanumeric
  | .deleteToLineStart => e.deleteToLineStart
  | .deleteToLineEnd => e.deleteToLineEnd
  | .killRingYank => e.killRingYank
  | .killRingYankPop => some e.killRingYankPop
  | .undo => some e.undo
  | .redo => some e.redo
  | .historyPrev => e.historyPrev
  | .historyNext => e.historyNext
  | .takeText => some e.takeText.2
  | .clear => some e.clear

/-- A run of operations, `none` if one of them panics. -/
def Editor.run (isAlphanumeric : Char → Bool) : Editor → List Op → Option Editor
  | e, [] => some e
  | e, op :: ops => (e.apply isAlphanumeric op).bind fun e => run isAlphanumeric e ops

end Pandaria.Tui
