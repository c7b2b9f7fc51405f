import Pandaria.Tui.Editor

/-!
# The cursor of the editor

Every operation finds its line, and the places it cuts the line at are between
two characters, so none of them panics as long as there is the line the cursor
is in. All but one also leave the column inside that line. `delete_word_backward`
takes the word before the cursor away and leaves the column where it was, which
is inside the line as long as there are as many characters behind the cursor as
it takes away. Undo and redo put saved states back, so the invariant is about
those as well.
-/

namespace Pandaria.Tui

open Pandaria.Lib

/-! ## Places in a line -/

theorem sliceTo_byteIdx (line : List Char) (n : Nat) :
    ByteText.sliceTo line (byteIdx line n) = some (line.take n) := by
  have h := ByteText.sliceTo_append (line.take n) (line.drop n)
  rwa [List.take_append_drop] at h

theorem sliceFrom_byteIdx (line : List Char) (n : Nat) :
    ByteText.sliceFrom line (byteIdx line n) = some (line.drop n) := by
  have h := ByteText.sliceFrom_append (line.take n) (line.drop n)
  rwa [List.take_append_drop] at h

theorem slice_byteIdx (line : List Char) {m n : Nat} (h : m ≤ n) :
    ByteText.slice line (byteIdx line m) (byteIdx line n) = some ((line.take n).drop m) := by
  have htake : (line.take n).take m = line.take m := by
    rw [List.take_take, Nat.min_eq_left h]
  have hsize : byteIdx line m ≤ byteIdx line n := by
    have hparts := ByteText.size_append ((line.take n).take m) ((line.take n).drop m)
    rw [List.take_append_drop, htake] at hparts
    show ByteText.size (line.take m) ≤ ByteText.size (line.take n)
    omega
  have hfrom := ByteText.sliceFrom_append ((line.take n).take m) ((line.take n).drop m)
  rw [List.take_append_drop, htake] at hfrom
  rw [ByteText.slice, if_pos hsize, sliceTo_byteIdx]
  exact hfrom

@[simp] theorem insert_byteIdx (line : List Char) (n : Nat) (ch : Char) :
    insert line (byteIdx line n) ch = some (line.take n ++ ch :: line.drop n) := by
  simp [insert, sliceTo_byteIdx, sliceFrom_byteIdx]

@[simp] theorem splitOff_byteIdx (line : List Char) (n : Nat) :
    splitOff line (byteIdx line n) = some (line.take n, line.drop n) := by
  simp [splitOff, sliceTo_byteIdx, sliceFrom_byteIdx]

theorem drain_byteIdx (line : List Char) {m n : Nat} (h : m ≤ n) :
    drain line (byteIdx line m) (byteIdx line n) =
      some ((line.take n).drop m, line.take m ++ line.drop n) := by
  simp [drain, sliceTo_byteIdx, sliceFrom_byteIdx, slice_byteIdx line h]

/-! ## The invariant -/

/-- There is the line the cursor is in, and the column is inside it. -/
structure EditorState.Valid (s : EditorState) : Prop where
  lines_ne : s.lines ≠ []
  line_lt : s.cursorLine < s.lines.length
  col_le : ∀ line, s.lines[s.cursorLine]? = some line → s.cursorCol ≤ line.length

theorem EditorState.valid_of {lines : List (List Char)} {line : List Char} {i col : Nat}
    (h : lines[i]? = some line) (hcol : col ≤ line.length) : Valid ⟨lines, i, col⟩ := by
  have hlt : i < lines.length := (List.getElem?_eq_some_iff.mp h).1
  refine ⟨?_, hlt, ?_⟩
  · intro hnil
    rw [show lines = [] from hnil] at hlt
    exact Nat.not_lt_zero i hlt
  · intro line' h'
    have heq : line = line' := Option.some.inj (h.symm.trans h')
    rwa [← heq]

theorem EditorState.Valid.exists_line {s : EditorState} (h : Valid s) :
    ∃ line, s.lines[s.cursorLine]? = some line ∧ s.cursorCol ≤ line.length := by
  have hline := List.getElem?_eq_getElem h.line_lt
  exact ⟨_, hline, h.col_le _ hline⟩

namespace Editor

/-- What every operation preserves, `delete_word_backward` under its condition. -/
structure Sound (e : Editor) : Prop where
  valid : e.state.Valid
  undo : ∀ s ∈ e.undoStack, s.Valid
  redo : ∀ s ∈ e.redoStack, s.Valid
  index : ∀ i, e.historyIndex = some i → i < e.history.length

/-- An operation that does not panic and ends in a sound editor. -/
def Safe (e? : Option Editor) : Prop := ∃ e, e? = some e ∧ e.Sound

theorem safe_map {α : Type _} {a? : Option α} {a : α} (h : a? = some a) {f : α → Editor}
    (hs : (f a).Sound) : Safe (a?.map f) :=
  ⟨f a, by rw [h, Option.map_some], hs⟩

theorem sound_new : Editor.new.Sound where
  valid := EditorState.valid_of (show [[]][0]? = some [] from rfl) (Nat.le_refl 0)
  undo := fun _ h => absurd h List.not_mem_nil
  redo := fun _ h => absurd h List.not_mem_nil
  index := fun _ h => absurd h (by simp [Editor.new])

@[simp] theorem saveUndoState_state (e : Editor) : e.saveUndoState.state = e.state := by
  unfold saveUndoState
  split <;> rfl

theorem saveUndoState_text (e : Editor) :
    e.saveUndoState.lines = e.lines ∧ e.saveUndoState.cursorLine = e.cursorLine ∧
      e.saveUndoState.cursorCol = e.cursorCol := by
  simpa [state] using saveUndoState_state e

theorem mem_saveUndoState {e : Editor} {s : EditorState}
    (h : s ∈ e.saveUndoState.undoStack) : s ∈ e.undoStack ∨ s = e.state := by
  unfold saveUndoState at h
  split at h
  · exact Or.inl h
  · have hmem : s ∈ e.undoStack ++ [e.state] := by
      dsimp only at h
      split at h
      · exact List.mem_of_mem_tail h
      · exact h
    simpa using hmem

theorem Sound.saveUndoState {e : Editor} (h : e.Sound) : e.saveUndoState.Sound := by
  have hrest : e.saveUndoState.redoStack = e.redoStack ∧
      e.saveUndoState.history = e.history ∧ e.saveUndoState.historyIndex = e.historyIndex := by
    unfold Editor.saveUndoState
    split
    · exact ⟨rfl, rfl, rfl⟩
    · exact ⟨rfl, rfl, rfl⟩
  refine ⟨by rw [saveUndoState_state]; exact h.valid, ?_, ?_, ?_⟩
  · intro s hs
    obtain hs | rfl := mem_saveUndoState hs
    · exact h.undo s hs
    · exact h.valid
  · rw [hrest.1]
    exact h.redo
  · rw [hrest.2.1, hrest.2.2]
    exact h.index

/-- What the invariant says of an editor besides its lines and cursor is about these. -/
def rest (e : Editor) :
    List EditorState × List EditorState × List (List Char) × Option Nat :=
  (e.undoStack, e.redoStack, e.history, e.historyIndex)

/-- Only lines and cursor have to be looked at again. -/
theorem Sound.placed {e e' : Editor} (h : e.Sound) (hrest : e'.rest = e.rest)
    {line : List Char} (hline : e'.lines[e'.cursorLine]? = some line)
    (hcol : e'.cursorCol ≤ line.length) : e'.Sound := by
  obtain ⟨hundo, hredo, hhistory, hindex⟩ :
      e'.undoStack = e.undoStack ∧ e'.redoStack = e.redoStack ∧
        e'.history = e.history ∧ e'.historyIndex = e.historyIndex := by
    simpa [rest] using hrest
  refine ⟨EditorState.valid_of hline hcol, ?_, ?_, ?_⟩
  · rw [hundo]
    exact h.undo
  · rw [hredo]
    exact h.redo
  · rw [hindex, hhistory]
    exact h.index

theorem Sound.moveTo {e : Editor} (h : e.Sound) {i col : Nat} {line : List Char}
    (hline : e.lines[i]? = some line) (hcol : col ≤ line.length) : (e.moveTo i col).Sound :=
  h.placed rfl hline hcol

theorem Sound.line_lt {e : Editor} (h : e.Sound) : e.cursorLine < e.lines.length :=
  h.valid.line_lt

theorem Sound.exists_line {e : Editor} (h : e.Sound) :
    ∃ line, e.lines[e.cursorLine]? = some line ∧ e.cursorCol ≤ line.length :=
  h.valid.exists_line

theorem exists_getElem? {lines : List (List Char)} {i : Nat} (h : i < lines.length) :
    ∃ line, lines[i]? = some line :=
  ⟨_, List.getElem?_eq_getElem h⟩

/-! ## Moving the cursor -/

theorem cursorUp_safe {e : Editor} (h : e.Sound) : Safe e.cursorUp := by
  have hs := h.saveUndoState
  unfold cursorUp
  generalize e.saveUndoState = e at hs
  dsimp only
  split
  · have hlt := hs.line_lt
    obtain ⟨line, hline⟩ := exists_getElem? (show e.cursorLine - 1 < e.lines.length by omega)
    exact safe_map hline (hs.placed rfl hline (Nat.min_le_right _ _))
  · exact ⟨_, rfl, hs⟩

theorem cursorDown_safe {e : Editor} (h : e.Sound) : Safe e.cursorDown := by
  have hs := h.saveUndoState
  unfold cursorDown
  generalize e.saveUndoState = e at hs
  dsimp only
  split
  · next hlt =>
    obtain ⟨line, hline⟩ := exists_getElem? hlt
    exact safe_map hline (hs.placed rfl hline (Nat.min_le_right _ _))
  · exact ⟨_, rfl, hs⟩

/-- To the end of the line before, where there is one. -/
theorem Sound.previous {e : Editor} (h : e.Sound) :
    Safe (e.lines[e.cursorLine - 1]?.map fun line =>
      e.moveTo (e.cursorLine - 1) line.length) := by
  have hlt := h.line_lt
  obtain ⟨line, hline⟩ := exists_getElem? (show e.cursorLine - 1 < e.lines.length by omega)
  exact safe_map hline (h.moveTo hline (Nat.le_refl _))

theorem cursorLeft_safe {e : Editor} (h : e.Sound) : Safe e.cursorLeft := by
  have hs := h.saveUndoState
  unfold cursorLeft
  generalize e.saveUndoState = e at hs
  obtain ⟨line, hline, hcol⟩ := hs.exists_line
  dsimp only
  split
  · exact ⟨_, rfl, hs.moveTo hline (by omega)⟩
  · split
    · exact hs.previous
    · exact ⟨_, rfl, hs.moveTo hline hcol⟩

theorem cursorRight_safe {e : Editor} (h : e.Sound) : Safe e.cursorRight := by
  have hs := h.saveUndoState
  unfold cursorRight
  generalize e.saveUndoState = e at hs
  obtain ⟨line, hline, hcol⟩ := hs.exists_line
  refine safe_map hline ?_
  split
  · exact hs.moveTo hline (by omega)
  · split
    · next hlt =>
      obtain ⟨next, hnext⟩ := exists_getElem? hlt
      exact hs.moveTo hnext (Nat.zero_le _)
    · exact hs.moveTo hline hcol

theorem skipLeft_le (kind : Char → Bool) (text : List Char) (pos : Nat) :
    skipLeft kind text pos ≤ pos := by
  induction pos with
  | zero => exact Nat.le_refl 0
  | succ pos ih =>
      rw [skipLeft]
      split
      · omega
      · omega

theorem skipRight_le {kind : Char → Bool} {text : List Char} {pos : Nat}
    (h : pos ≤ text.length) : skipRight kind text pos ≤ text.length := by
  have hkept := (List.takeWhile_sublist (p := kind) (l := text.drop pos)).length_le
  rw [List.length_drop] at hkept
  rw [skipRight]
  omega

theorem le_skipRight (kind : Char → Bool) (text : List Char) (pos : Nat) :
    pos ≤ skipRight kind text pos :=
  Nat.le_add_right _ _

variable {isAlphanumeric : Char → Bool}

/-- Inside the line a step to the left passes over what `takeWhile` finds there. -/
theorem skipLeft_eq (kind : Char → Bool) {text : List Char} {pos : Nat}
    (h : pos ≤ text.length) :
    skipLeft kind text pos = pos - ((text.take pos).reverse.takeWhile kind).length := by
  induction pos with
  | zero => rfl
  | succ pos ih =>
      have hlt : pos < text.length := by omega
      rw [skipLeft, List.take_succ_eq_append_getElem hlt, List.reverse_concat,
        List.takeWhile_cons, List.getElem?_eq_getElem hlt, Option.getD_some]
      split
      · rw [ih (by omega), List.length_cons]
        omega
      · simp

/-- How far the word before the cursor and what stands between go back. -/
def wordSize (isAlphanumeric : Char → Bool) (before : List Char) : Nat :=
  let between := before.reverse.takeWhile fun c => !isWord isAlphanumeric c
  let word := (before.reverse.drop between.length).takeWhile (isWord isAlphanumeric)
  between.length + word.length

theorem wordSize_le (isAlphanumeric : Char → Bool) (before : List Char) :
    wordSize isAlphanumeric before ≤ before.length := by
  unfold wordSize
  dsimp only
  have hbetween := (List.takeWhile_sublist (p := fun c => !isWord isAlphanumeric c)
    (l := before.reverse)).length_le
  have hword := (List.takeWhile_sublist (p := isWord isAlphanumeric)
    (l := before.reverse.drop
      (before.reverse.takeWhile fun c => !isWord isAlphanumeric c).length)).length_le
  rw [List.length_drop] at hword
  rw [List.length_reverse] at hbetween hword
  omega

/-- The two loops together. -/
theorem skipLeft_skipLeft {text : List Char} {pos : Nat} (h : pos ≤ text.length) :
    skipLeft (isWord isAlphanumeric) text
        (skipLeft (fun c => !isWord isAlphanumeric c) text pos) =
      pos - wordSize isAlphanumeric (text.take pos) := by
  have hfirst := skipLeft_eq (fun c => !isWord isAlphanumeric c) h
  have hle := skipLeft_le (fun c => !isWord isAlphanumeric c) text pos
  have hlen : (text.take pos).length = pos := List.length_take_of_le h
  have hback : (text.take (skipLeft (fun c => !isWord isAlphanumeric c) text pos)).reverse =
      (text.take pos).reverse.drop
        ((text.take pos).reverse.takeWhile fun c => !isWord isAlphanumeric c).length := by
    rw [List.drop_reverse, List.take_take, hlen, hfirst, Nat.min_eq_left (Nat.sub_le _ _)]
  rw [skipLeft_eq _ (Nat.le_trans hle h), hback, hfirst, Nat.sub_sub]
  rfl

theorem cursorWordLeft_spec (isAlphanumeric : Char → Bool) {e : Editor} (h : e.Sound)
    {line : List Char} (hline : e.lines[e.cursorLine]? = some line) :
    ∃ moved, e.cursorWordLeft isAlphanumeric = some moved ∧ moved.Sound ∧
      moved.lines = e.lines ∧
      (moved.cursorLine ≠ e.cursorLine → e.cursorCol = 0) ∧
      (moved.cursorLine = e.cursorLine →
        moved.cursorCol = e.cursorCol - wordSize isAlphanumeric (line.take e.cursorCol)) := by
  have hs := h.saveUndoState
  obtain ⟨hlines, hcursor, hcol⟩ := saveUndoState_text e
  unfold cursorWordLeft
  generalize e.saveUndoState = saved at hs hlines hcursor hcol
  have hin : e.cursorCol ≤ line.length := h.valid.col_le line hline
  dsimp only
  split
  · next hfirst =>
    have hlt := hs.line_lt
    obtain ⟨previous, hprevious⟩ :=
      exists_getElem? (show saved.cursorLine - 1 < saved.lines.length by omega)
    refine ⟨_, by rw [hprevious]; rfl, hs.moveTo hprevious (Nat.le_refl _), hlines, ?_, ?_⟩
    · intro _
      omega
    · intro heq
      have hmoved : saved.cursorLine - 1 = e.cursorLine := heq
      omega
  · have htext : saved.lines[saved.cursorLine]?.getD [] = line := by
      rw [hlines, hcursor, hline]
      rfl
    rw [htext, hcol, skipLeft_skipLeft hin]
    refine ⟨_, rfl, hs.moveTo (by rw [hlines, hcursor]; exact hline) (by omega), hlines, ?_, ?_⟩
    · intro hne
      exact absurd hcursor hne
    · intro _
      rfl

theorem cursorWordRight_spec (isAlphanumeric : Char → Bool) {e : Editor} (h : e.Sound)
    {line : List Char} (hline : e.lines[e.cursorLine]? = some line) :
    ∃ moved, e.cursorWordRight isAlphanumeric = some moved ∧ moved.Sound ∧
      moved.lines = e.lines ∧
      (moved.cursorLine = e.cursorLine →
        e.cursorCol ≤ moved.cursorCol ∧ moved.cursorCol ≤ line.length) := by
  have hs := h.saveUndoState
  obtain ⟨hlines, hcursor, hcol⟩ := saveUndoState_text e
  unfold cursorWordRight
  generalize e.saveUndoState = saved at hs hlines hcursor hcol
  have hin : e.cursorCol ≤ line.length := h.valid.col_le line hline
  dsimp only
  split
  · next hlast =>
    obtain ⟨next, hnext⟩ := exists_getElem? hlast.2
    refine ⟨_, rfl, hs.moveTo hnext (Nat.zero_le _), hlines, ?_⟩
    intro heq
    have hmoved : saved.cursorLine + 1 = e.cursorLine := heq
    omega
  · have hthere : saved.lines[saved.cursorLine]? = some line := by
      rw [hlines, hcursor]
      exact hline
    rw [hthere, Option.getD_some, hcol, Nat.min_eq_left hin]
    have hfrom : ∀ atWord : Bool,
        e.cursorCol ≤ (if atWord then e.cursorCol
          else skipRight (fun c => !isWord isAlphanumeric c) line e.cursorCol) ∧
        (if atWord then e.cursorCol
          else skipRight (fun c => !isWord isAlphanumeric c) line e.cursorCol) ≤ line.length := by
      intro atWord
      split
      · exact ⟨Nat.le_refl _, hin⟩
      · exact ⟨le_skipRight _ _ _, skipRight_le hin⟩
    refine ⟨_, rfl, hs.moveTo hthere (skipRight_le (hfrom _).2), hlines, ?_⟩
    intro _
    exact ⟨Nat.le_trans (hfrom _).1 (le_skipRight _ _ _), skipRight_le (hfrom _).2⟩

theorem cursorLineStart_sound {e : Editor} (h : e.Sound) : e.cursorLineStart.Sound := by
  obtain ⟨line, hline, -⟩ := h.saveUndoState.exists_line
  exact h.saveUndoState.moveTo hline (Nat.zero_le _)

theorem cursorLineEnd_safe {e : Editor} (h : e.Sound) : Safe e.cursorLineEnd := by
  obtain ⟨line, hline, -⟩ := h.saveUndoState.exists_line
  exact safe_map hline (h.saveUndoState.moveTo hline (Nat.le_refl _))

theorem cursorDocStart_sound {e : Editor} (h : e.Sound) : e.cursorDocStart.Sound := by
  have hlt := h.saveUndoState.line_lt
  obtain ⟨line, hline⟩ :=
    exists_getElem? (show 0 < e.saveUndoState.lines.length by omega)
  exact h.saveUndoState.moveTo hline (Nat.zero_le _)

theorem cursorDocEnd_safe {e : Editor} (h : e.Sound) : Safe e.cursorDocEnd := by
  have hs := h.saveUndoState
  unfold cursorDocEnd
  generalize e.saveUndoState = e at hs
  have hlt := hs.line_lt
  dsimp only
  obtain ⟨line, hline⟩ := exists_getElem? (show e.lines.length - 1 < e.lines.length by omega)
  exact safe_map hline (hs.moveTo hline (Nat.le_refl _))

theorem Sound.pageTo {e : Editor} (h : e.Sound) {i : Nat} (hi : i < e.lines.length) :
    Safe (e.pageTo i) := by
  obtain ⟨line, hline⟩ := exists_getElem? hi
  exact safe_map hline (h.placed rfl hline (Nat.min_le_right _ _))

theorem pageUp_safe {e : Editor} (h : e.Sound) : Safe e.pageUp := by
  have hlt := h.saveUndoState.line_lt
  exact h.saveUndoState.pageTo (by omega)

theorem pageDown_safe {e : Editor} (h : e.Sound) : Safe e.pageDown := by
  have hlt := h.saveUndoState.line_lt
  exact h.saveUndoState.pageTo (by omega)

theorem charJump_safe {e : Editor} (h : e.Sound) : Safe e.charJump := by
  have hs := h.saveUndoState
  unfold charJump
  generalize e.saveUndoState = e at hs
  obtain ⟨line, hline, hcol⟩ := hs.exists_line
  split
  · exact ⟨_, rfl, h⟩
  · refine safe_map hline ?_
    dsimp only
    split
    · next pos hpos =>
      have hlt := (List.findIdx?_eq_some_iff_findIdx_eq.mp hpos).1
      rw [List.length_drop] at hlt
      have hle : e.cursorCol + 1 + pos ≤ line.length := by omega
      exact hs.placed rfl hline hle
    · exact hs.placed rfl hline hcol

/-! ## Inserting -/

theorem Sound.insertCharInternal {e : Editor} (h : e.Sound) (ch : Char) :
    Safe (e.insertCharInternal ch) := by
  obtain ⟨line, hline, hcol⟩ := h.exists_line
  rw [Editor.insertCharInternal, hline, Option.bind_some, insert_byteIdx]
  refine safe_map rfl (h.placed rfl (List.getElem?_set_self h.line_lt) ?_)
  show e.cursorCol + 1 ≤ (line.take e.cursorCol ++ ch :: line.drop e.cursorCol).length
  rw [List.length_append, List.length_cons, List.length_take, List.length_drop]
  omega

theorem Sound.insertNewlineInternal {e : Editor} (h : e.Sound) :
    Safe e.insertNewlineInternal := by
  obtain ⟨line, hline, -⟩ := h.exists_line
  have hlt := h.line_lt
  have hthere : ((e.lines.set e.cursorLine (line.take e.cursorCol)).insertIdx
      (e.cursorLine + 1) (line.drop e.cursorCol))[e.cursorLine + 1]? =
        some (line.drop e.cursorCol) := by
    rw [List.getElem?_insertIdx_self, if_pos]
    rw [List.length_set]
    omega
  rw [Editor.insertNewlineInternal, hline, Option.bind_some, splitOff_byteIdx]
  exact safe_map rfl (h.placed rfl hthere (Nat.zero_le _))

/-- The flag takes no part. -/
theorem Safe.flagged {e? : Option Editor} (h : Safe e?) (b : Bool) :
    Safe (e?.map fun e => { e with lastKillAppended := b }) := by
  obtain ⟨e, rfl, hs⟩ := h
  exact ⟨_, rfl, hs.valid, hs.undo, hs.redo, hs.index⟩

theorem insertChar_safe {e : Editor} (h : e.Sound) (ch : Char) : Safe (e.insertChar ch) :=
  (h.saveUndoState.insertCharInternal ch).flagged false

theorem insertNewline_safe {e : Editor} (h : e.Sound) : Safe e.insertNewline :=
  h.saveUndoState.insertNewlineInternal.flagged false

theorem Sound.insertChars {e : Editor} (h : e.Sound) (text : List Char) :
    Safe (e.insertChars text) := by
  induction text generalizing e with
  | nil => exact ⟨e, rfl, h⟩
  | cons ch text ih =>
      have hone :
          Safe (if ch = '\n' then e.insertNewlineInternal else e.insertCharInternal ch) := by
        split
        · exact h.insertNewlineInternal
        · exact h.insertCharInternal ch
      obtain ⟨e', he, hs⟩ := hone
      obtain ⟨e'', he', hs'⟩ := ih hs
      exact ⟨e'', by rw [Editor.insertChars, he]; exact he', hs'⟩

theorem insertText_safe {e : Editor} (h : e.Sound) (text : List Char) :
    Safe (e.insertText text) :=
  h.saveUndoState.insertChars text

/-! ## Deleting -/

theorem deleteCharBackward_safe {e : Editor} (h : e.Sound) : Safe e.deleteCharBackward := by
  have hs := h.saveUndoState
  unfold deleteCharBackward
  generalize e.saveUndoState = e at hs
  obtain ⟨line, hline, hcol⟩ := hs.exists_line
  have hlt := hs.line_lt
  dsimp only
  split
  · rw [hline, Option.bind_some, drain_byteIdx line (Nat.sub_le _ _)]
    refine safe_map rfl (hs.placed rfl (List.getElem?_set_self hlt) ?_)
    show e.cursorCol - 1 ≤ (line.take (e.cursorCol - 1) ++ line.drop e.cursorCol).length
    rw [List.length_append, List.length_take, List.length_drop]
    omega
  · split
    · have hshort : e.cursorLine - 1 < (e.lines.eraseIdx e.cursorLine).length := by
        rw [List.length_eraseIdx_of_lt hlt]
        omega
      obtain ⟨previous, hprevious⟩ := exists_getElem? hshort
      rw [hline, Option.bind_some]
      refine safe_map hprevious (hs.placed rfl (List.getElem?_set_self hshort) ?_)
      show previous.length ≤ (previous ++ line).length
      rw [List.length_append]
      omega
    · exact ⟨_, rfl, hs.placed rfl hline hcol⟩

theorem deleteCharForward_safe {e : Editor} (h : e.Sound) : Safe e.deleteCharForward := by
  have hs := h.saveUndoState
  unfold deleteCharForward
  generalize e.saveUndoState = e at hs
  obtain ⟨line, hline, hcol⟩ := hs.exists_line
  have hlt := hs.line_lt
  dsimp only
  rw [hline, Option.bind_some]
  split
  · rw [drain_byteIdx line (Nat.le_succ _)]
    refine safe_map rfl (hs.placed rfl (List.getElem?_set_self hlt) ?_)
    show e.cursorCol ≤ (line.take e.cursorCol ++ line.drop (e.cursorCol + 1)).length
    rw [List.length_append, List.length_take, List.length_drop]
    omega
  · split
    · next hnext =>
      obtain ⟨nextLine, hnextLine⟩ := exists_getElem? hnext
      have hshort : e.cursorLine < (e.lines.eraseIdx (e.cursorLine + 1)).length := by
        rw [List.length_eraseIdx_of_lt hnext]
        omega
      rw [hnextLine]
      refine safe_map rfl (hs.placed rfl (List.getElem?_set_self hshort) ?_)
      show e.cursorCol ≤ (line ++ nextLine).length
      rw [List.length_append]
      omega
    · exact safe_map rfl (hs.placed rfl hline hcol)

/-- What `delete_range` leaves of the line, and that it touches nothing else. -/
theorem deleteRange_eq {e : Editor} {line : List Char} {i m n : Nat}
    (hline : e.lines[i]? = some line) (hle : m ≤ n) (hn : n ≤ line.length) :
    e.deleteRange i m i n = some ((line.take n).drop m,
      { e with lines := e.lines.set i (line.take m ++ line.drop n) }) := by
  rw [deleteRange, if_pos ⟨rfl, hle⟩, hline, Option.bind_some, Nat.min_eq_left hn,
    drain_byteIdx line hle]
  rfl

@[simp] theorem pushKillRing_state (text : List Char) (append : Bool) (e : Editor) :
    (e.pushKillRing text append).state = e.state := by
  unfold pushKillRing
  split
  · rfl
  · rfl

@[simp] theorem pushKillRing_rest (text : List Char) (append : Bool) (e : Editor) :
    (e.pushKillRing text append).rest = e.rest := by
  unfold pushKillRing
  split
  · rfl
  · rfl

theorem Sound.pushKillRing {e : Editor} (h : e.Sound) (text : List Char) (append : Bool) :
    (e.pushKillRing text append).Sound := by
  have hvalid := h.valid
  rw [← pushKillRing_state text append] at hvalid
  obtain ⟨line, hline, hcol⟩ := hvalid.exists_line
  exact h.placed (pushKillRing_rest text append e) hline hcol

theorem deleteToLineStart_safe {e : Editor} (h : e.Sound) : Safe e.deleteToLineStart := by
  have hs := h.saveUndoState
  unfold deleteToLineStart
  generalize e.saveUndoState = e at hs
  obtain ⟨line, hline, hcol⟩ := hs.exists_line
  dsimp only
  rw [deleteRange_eq hline (Nat.zero_le _) hcol]
  apply safe_map rfl
  apply Sound.pushKillRing
  exact hs.placed rfl (List.getElem?_set_self hs.line_lt) (Nat.zero_le _)

theorem deleteToLineEnd_safe {e : Editor} (h : e.Sound) : Safe e.deleteToLineEnd := by
  have hs := h.saveUndoState
  unfold deleteToLineEnd
  generalize e.saveUndoState = e at hs
  obtain ⟨line, hline, hcol⟩ := hs.exists_line
  dsimp only
  rw [hline, Option.bind_some, deleteRange_eq hline hcol (Nat.le_refl _)]
  apply safe_map rfl
  apply Sound.pushKillRing
  refine hs.placed rfl (List.getElem?_set_self hs.line_lt) ?_
  show e.cursorCol ≤ (line.take e.cursorCol ++ line.drop line.length).length
  rw [List.length_append, List.length_take]
  omega

theorem deleteWordForward_safe {e : Editor} (h : e.Sound) :
    Safe (e.deleteWordForward isAlphanumeric) := by
  have hs := h.saveUndoState
  unfold deleteWordForward
  generalize e.saveUndoState = e at hs
  obtain ⟨line, hline, hcol⟩ := hs.exists_line
  obtain ⟨moved, hmoved, hsound, hlines, hsame⟩ :=
    cursorWordRight_spec isAlphanumeric hs hline
  have hthere : ({ moved with
      cursorCol := e.cursorCol
      cursorLine := e.cursorLine } : Editor).lines[e.cursorLine]? = some line := by
    show moved.lines[e.cursorLine]? = some line
    rw [hlines]
    exact hline
  dsimp only
  rw [hmoved, Option.bind_some]
  by_cases heq : moved.cursorLine = e.cursorLine
  · obtain ⟨hle, hin⟩ := hsame heq
    rw [heq, deleteRange_eq hthere hle hin]
    apply safe_map rfl
    apply Sound.pushKillRing
    have hlt : e.cursorLine < moved.lines.length := (List.getElem?_eq_some_iff.mp hthere).1
    refine hsound.placed rfl (List.getElem?_set_self hlt) ?_
    show e.cursorCol ≤ (line.take e.cursorCol ++ line.drop moved.cursorCol).length
    rw [List.length_append, List.length_take]
    omega
  · rw [deleteRange, if_neg fun hboth => heq hboth.1.symm]
    apply safe_map rfl
    apply Sound.pushKillRing
    exact hsound.placed rfl hthere hcol

/-- At least as many characters behind the cursor as `delete_word_backward` takes
away before it. -/
def WordFits (isAlphanumeric : Char → Bool) (e : Editor) : Prop :=
  ∀ line, e.lines[e.cursorLine]? = some line →
    wordSize isAlphanumeric (line.take e.cursorCol) ≤ (line.drop e.cursorCol).length

theorem deleteWordBackward_spec (isAlphanumeric : Char → Bool) {e : Editor} (h : e.Sound) :
    ∃ e', e.deleteWordBackward isAlphanumeric = some e' ∧
      (WordFits isAlphanumeric e → e'.Sound) ∧
      (e'.state.Valid → WordFits isAlphanumeric e) := by
  have hs := h.saveUndoState
  obtain ⟨hlines, hcursor, hcoleq⟩ := saveUndoState_text e
  obtain ⟨line, hline, hcol⟩ := h.exists_line
  unfold deleteWordBackward
  generalize e.saveUndoState = saved at hs hlines hcursor hcoleq
  obtain ⟨moved, hmoved, hsound, hsame, hother, hcut⟩ :=
    cursorWordLeft_spec isAlphanumeric hs
      (show saved.lines[saved.cursorLine]? = some line by rw [hlines, hcursor]; exact hline)
  rw [hcursor, hcoleq] at hcut
  rw [hcursor, hcoleq] at hother
  have hthere : ({ moved with
      cursorCol := e.cursorCol
      cursorLine := e.cursorLine } : Editor).lines[e.cursorLine]? = some line := by
    show moved.lines[e.cursorLine]? = some line
    rw [hsame, hlines]
    exact hline
  dsimp only
  rw [hmoved, Option.bind_some, hcursor, hcoleq]
  by_cases heq : moved.cursorLine = e.cursorLine
  · have hback := wordSize_le isAlphanumeric (line.take e.cursorCol)
    rw [List.length_take_of_le hcol] at hback
    have hmcol := hcut heq
    rw [heq, deleteRange_eq hthere (by omega) hcol]
    have hlt : e.cursorLine < moved.lines.length := (List.getElem?_eq_some_iff.mp hthere).1
    have hleft : (line.take moved.cursorCol ++ line.drop e.cursorCol).length =
        moved.cursorCol + (line.drop e.cursorCol).length := by
      rw [List.length_append, List.length_take_of_le (by omega)]
    refine ⟨_, rfl, ?_, ?_⟩
    · intro hfits
      have hfit := hfits line hline
      apply Sound.pushKillRing
      refine hsound.placed rfl (List.getElem?_set_self hlt) ?_
      show e.cursorCol ≤ (line.take moved.cursorCol ++ line.drop e.cursorCol).length
      omega
    · intro hvalid line' hline'
      obtain rfl : line = line' := Option.some.inj (hline.symm.trans hline')
      dsimp only at hvalid
      rw [pushKillRing_state] at hvalid
      have hin := hvalid.col_le _ (List.getElem?_set_self hlt)
      have hin' : e.cursorCol ≤ (line.take moved.cursorCol ++ line.drop e.cursorCol).length := hin
      omega
  · rw [deleteRange, if_neg fun hboth => heq hboth.1]
    refine ⟨_, rfl, ?_, ?_⟩
    · intro _
      apply Sound.pushKillRing
      exact hsound.placed rfl hthere hcol
    · intro _ line' _
      rw [hother heq]
      exact Nat.zero_le _

/-! ## Saved states and sent texts -/

theorem killRingYank_safe {e : Editor} (h : e.Sound) : Safe e.killRingYank := by
  unfold killRingYank
  split
  · exact insertText_safe h _
  · exact ⟨e, rfl, h⟩

theorem killRingYankPop_sound {e : Editor} (h : e.Sound) : e.killRingYankPop.Sound := by
  unfold killRingYankPop
  split
  · exact ⟨h.valid, h.undo, h.redo, h.index⟩
  · exact h

theorem undo_sound {e : Editor} (h : e.Sound) : e.undo.Sound := by
  unfold undo
  split
  · exact h
  · next s hs =>
    refine ⟨h.undo s (List.mem_of_getLast? hs), ?_, ?_, h.index⟩
    · intro s' hs'
      exact h.undo s' (List.mem_of_mem_dropLast hs')
    · intro s' hs'
      obtain hs' | hs' := List.mem_append.mp hs'
      · exact h.redo s' hs'
      · rw [List.mem_singleton.mp hs']
        exact h.valid

theorem redo_sound {e : Editor} (h : e.Sound) : e.redo.Sound := by
  unfold redo
  split
  · exact h
  · next s hs =>
    refine ⟨h.redo s (List.mem_of_getLast? hs), ?_, ?_, h.index⟩
    · intro s' hs'
      obtain hs' | hs' := List.mem_append.mp hs'
      · exact h.undo s' hs'
      · rw [List.mem_singleton.mp hs']
        exact h.valid
    · intro s' hs'
      exact h.redo s' (List.mem_of_mem_dropLast hs')

theorem valid_empty : EditorState.Valid ⟨[[]], 0, 0⟩ :=
  EditorState.valid_of (show [[]][0]? = some [] from rfl) (Nat.le_refl 0)

/-- The index is the entry's own from here on. -/
theorem restoreHistoryEntry_safe {e : Editor} (h : e.Sound) {i : Nat}
    (hi : i < e.history.length) :
    Safe (restoreHistoryEntry i { e with historyIndex := some i }) := by
  unfold restoreHistoryEntry
  obtain ⟨text, htext⟩ := exists_getElem? hi
  dsimp only
  rw [htext, Option.bind_some]
  have hne : (if Ai.linesFrom [] text = [] then [[]] else Ai.linesFrom [] text) ≠ [] := by
    split
    · exact List.cons_ne_nil _ _
    · assumption
  generalize (if Ai.linesFrom [] text = [] then [[]] else Ai.linesFrom [] text) = lines at hne
  have hpos := List.length_pos_of_ne_nil hne
  obtain ⟨line, hline⟩ := exists_getElem? (show lines.length - 1 < lines.length by omega)
  refine safe_map hline ⟨EditorState.valid_of hline (Nat.le_refl _), h.undo, h.redo, ?_⟩
  intro j hj
  obtain rfl : i = j := Option.some.inj hj
  exact hi

theorem historyPrev_safe {e : Editor} (h : e.Sound) : Safe e.historyPrev := by
  unfold historyPrev
  split
  · exact ⟨e, rfl, h⟩
  · next hne =>
    have hpos := List.length_pos_of_ne_nil hne
    split
    · exact restoreHistoryEntry_safe h (by omega)
    · exact ⟨e, rfl, h⟩
    · next i hi =>
      have hlt := h.index _ hi
      exact restoreHistoryEntry_safe h (by omega)

theorem historyNext_safe {e : Editor} (h : e.Sound) : Safe e.historyNext := by
  unfold historyNext
  split
  · exact ⟨e, rfl, h⟩
  · split
    · next hlt => exact restoreHistoryEntry_safe h hlt
    · exact ⟨_, rfl, valid_empty, h.undo, h.redo, fun _ hi => absurd hi (by simp)⟩

theorem clear_sound (e : Editor) : e.clear.Sound :=
  ⟨valid_empty, fun _ hs => absurd hs List.not_mem_nil, fun _ hs => absurd hs List.not_mem_nil,
    fun _ hi => absurd hi (by simp [clear])⟩

theorem takeText_sound (e : Editor) : e.takeText.2.Sound :=
  ⟨valid_empty, fun _ hs => absurd hs List.not_mem_nil, fun _ hs => absurd hs List.not_mem_nil,
    fun _ hi => absurd hi (by simp [takeText, clear])⟩

/-! ## Runs -/

/-- The one operation with a condition. -/
def Fits (isAlphanumeric : Char → Bool) (e : Editor) (op : Op) : Prop :=
  op = .deleteWordBackward → WordFits isAlphanumeric e

theorem apply_safe (isAlphanumeric : Char → Bool) {e : Editor} (h : e.Sound) {op : Op}
    (hop : op ≠ .deleteWordBackward) :
    Safe (e.apply isAlphanumeric op) := by
  obtain ⟨line, hline, -⟩ := h.exists_line
  cases op with
  | cursorUp => exact cursorUp_safe h
  | cursorDown => exact cursorDown_safe h
  | cursorLeft => exact cursorLeft_safe h
  | cursorRight => exact cursorRight_safe h
  | cursorWordLeft =>
      obtain ⟨e', he, hs, -⟩ := cursorWordLeft_spec isAlphanumeric h hline
      exact ⟨e', he, hs⟩
  | cursorWordRight =>
      obtain ⟨e', he, hs, -⟩ := cursorWordRight_spec isAlphanumeric h hline
      exact ⟨e', he, hs⟩
  | cursorLineStart => exact ⟨_, rfl, cursorLineStart_sound h⟩
  | cursorLineEnd => exact cursorLineEnd_safe h
  | cursorDocStart => exact ⟨_, rfl, cursorDocStart_sound h⟩
  | cursorDocEnd => exact cursorDocEnd_safe h
  | pageUp => exact pageUp_safe h
  | pageDown => exact pageDown_safe h
  | setCharJumpTarget ch => exact ⟨_, rfl, h.valid, h.undo, h.redo, h.index⟩
  | charJump => exact charJump_safe h
  | insertChar ch => exact insertChar_safe h ch
  | insertNewline => exact insertNewline_safe h
  | insertText text => exact insertText_safe h text
  | insertPasteMarker id lineCount => exact insertText_safe h _
  | deleteCharBackward => exact deleteCharBackward_safe h
  | deleteCharForward => exact deleteCharForward_safe h
  | deleteWordBackward => exact absurd rfl hop
  | deleteWordForward => exact deleteWordForward_safe h
  | deleteToLineStart => exact deleteToLineStart_safe h
  | deleteToLineEnd => exact deleteToLineEnd_safe h
  | killRingYank => exact killRingYank_safe h
  | killRingYankPop => exact ⟨_, rfl, killRingYankPop_sound h⟩
  | undo => exact ⟨_, rfl, undo_sound h⟩
  | redo => exact ⟨_, rfl, redo_sound h⟩
  | historyPrev => exact historyPrev_safe h
  | historyNext => exact historyNext_safe h
  | takeText => exact ⟨_, rfl, takeText_sound e⟩
  | clear => exact ⟨_, rfl, clear_sound e⟩

/-- No operation panics, and one that ends in a valid state has met its condition
and keeps the invariant. -/
theorem apply_spec (isAlphanumeric : Char → Bool) {e : Editor} (h : e.Sound) (op : Op) :
    ∃ e', e.apply isAlphanumeric op = some e' ∧
      (Fits isAlphanumeric e op → e'.Sound) ∧ (e'.state.Valid → Fits isAlphanumeric e op) := by
  by_cases hop : op = .deleteWordBackward
  · rw [hop]
    obtain ⟨e', he, hto, hfrom⟩ := deleteWordBackward_spec isAlphanumeric h
    exact ⟨e', he, fun hfits => hto (hfits rfl), fun hvalid _ => hfrom hvalid⟩
  · obtain ⟨e', he, hs⟩ := apply_safe isAlphanumeric h hop
    exact ⟨e', he, fun _ => hs, fun _ heq => absurd heq hop⟩

/-- Every operation of the run meets its condition in the editor it is applied to. -/
def StepsFit (isAlphanumeric : Char → Bool) : Editor → List Op → Prop
  | _, [] => True
  | e, op :: ops =>
      Fits isAlphanumeric e op ∧
        ∀ e', e.apply isAlphanumeric op = some e' → StepsFit isAlphanumeric e' ops

/-- After every part of the run there is an editor, and its cursor is in its text. -/
def StaysValid (isAlphanumeric : Char → Bool) (e : Editor) (ops : List Op) : Prop :=
  ∀ done, done <+: ops → ∃ e', e.run isAlphanumeric done = some e' ∧ e'.state.Valid

theorem staysValid_cons {e e' : Editor} {op : Op} {ops : List Op} (h : e.state.Valid)
    (he : e.apply isAlphanumeric op = some e') :
    StaysValid isAlphanumeric e (op :: ops) ↔ StaysValid isAlphanumeric e' ops := by
  have hrun : ∀ done, e.run isAlphanumeric (op :: done) = e'.run isAlphanumeric done := by
    intro done
    rw [run, he, Option.bind_some]
  constructor
  · intro hall done hdone
    obtain ⟨e'', hrun', hvalid⟩ := hall (op :: done) (List.cons_prefix_cons.mpr ⟨rfl, hdone⟩)
    exact ⟨e'', (hrun done).symm.trans hrun', hvalid⟩
  · intro hall done hdone
    obtain rfl | ⟨done', rfl, hdone'⟩ := List.prefix_cons_iff.mp hdone
    · exact ⟨e, rfl, h⟩
    · obtain ⟨e'', hrun', hvalid⟩ := hall done' hdone'
      exact ⟨e'', (hrun done').trans hrun', hvalid⟩

theorem staysValid_iff {e : Editor} (h : e.Sound) (ops : List Op) :
    StaysValid isAlphanumeric e ops ↔ StepsFit isAlphanumeric e ops := by
  induction ops generalizing e with
  | nil =>
      refine ⟨fun _ => trivial, fun _ done hdone => ⟨e, ?_, h.valid⟩⟩
      rw [List.prefix_nil.mp hdone]
      rfl
  | cons op ops ih =>
      obtain ⟨e', he, hto, hfrom⟩ := apply_spec isAlphanumeric h op
      rw [staysValid_cons h.valid he]
      constructor
      · intro hall
        obtain ⟨e'', hrun, hvalid⟩ := hall [] List.nil_prefix
        obtain rfl : e' = e'' := Option.some.inj hrun
        have hfits := hfrom hvalid
        refine ⟨hfits, ?_⟩
        intro e'' he'
        obtain rfl : e' = e'' := Option.some.inj (he.symm.trans he')
        exact (ih (hto hfits)).mp hall
      · intro ⟨hfits, hrest⟩
        exact (ih (hto hfits)).mpr (hrest e' he)

/-- A new editor keeps its cursor inside its text through a run exactly when no
`delete_word_backward` of it takes more away than stands behind the cursor. -/
theorem new_staysValid_iff (isAlphanumeric : Char → Bool) (ops : List Op) :
    StaysValid isAlphanumeric Editor.new ops ↔ StepsFit isAlphanumeric Editor.new ops :=
  staysValid_iff sound_new ops

/-- Two words, and the second one deleted, as a test of the source has them: the
column is still eleven, and the line has six characters. -/
theorem column_past_the_end :
    ¬ StaysValid Char.isAlphanum Editor.new
      [.insertText "hello world".toList, .deleteWordBackward] := by
  intro h
  obtain ⟨e, he, hvalid⟩ := h _ (List.prefix_refl _)
  have hstate : (Editor.new.run Char.isAlphanum
      [.insertText "hello world".toList, .deleteWordBackward]).map state =
        some ⟨["hello ".toList], 0, 11⟩ := by decide
  rw [he, Option.map_some] at hstate
  rw [Option.some.inj hstate] at hvalid
  have hle := hvalid.col_le "hello ".toList rfl
  exact absurd hle (by decide)

end Editor

end Pandaria.Tui
