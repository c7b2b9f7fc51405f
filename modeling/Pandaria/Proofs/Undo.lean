import Pandaria.Lib.Timeline
import Pandaria.Proofs.Editor

/-!
# Undo and redo of the editor

The two stacks and what is between them are a timeline, and `undo` and `redo`
move along it. An edit or a move saves at most one state, the one it starts
from, so a hundred of them push nothing off the stack and the oldest state of
the timeline is the one they began with.

What an edit does not do is clear the redo stack. The states on it when the edit
comes stay at its bottom, and `redo` gets to them, exactly when there were any:
when an undo before the edit had something to take back.
-/

namespace Pandaria.Tui

open Pandaria.Lib

/-- The operations that change the text and save. -/
def Op.isEdit : Op → Bool
  | .insertChar _ | .insertNewline | .insertText _ | .insertPasteMarker _ _
  | .deleteCharBackward | .deleteCharForward | .deleteWordBackward | .deleteWordForward
  | .deleteToLineStart | .deleteToLineEnd | .killRingYank => true
  | _ => false

def Op.isMove : Op → Bool
  | .cursorUp | .cursorDown | .cursorLeft | .cursorRight | .cursorWordLeft | .cursorWordRight
  | .cursorLineStart | .cursorLineEnd | .cursorDocStart | .cursorDocEnd
  | .pageUp | .pageDown | .charJump => true
  | _ => false

/-- What may stand between them: it prepares a jump or a yank. -/
def Op.isPreparation : Op → Bool
  | .setCharJumpTarget _ | .killRingYankPop => true
  | _ => false

namespace Editor

/-! ## The timeline -/

def timeline (e : Editor) : Timeline EditorState := ⟨e.undoStack, e.state, e.redoStack⟩

theorem timeline_undo (e : Editor) : e.undo.timeline = e.timeline.back := by
  unfold undo Timeline.back
  rw [show e.timeline.past = e.undoStack from rfl]
  cases e.undoStack.getLast? with
  | none => rfl
  | some s => rfl

theorem timeline_redo (e : Editor) : e.redo.timeline = e.timeline.forth := by
  unfold redo Timeline.forth
  rw [show e.timeline.future = e.redoStack from rfl]
  cases e.redoStack.getLast? with
  | none => rfl
  | some s => rfl

theorem timeline_iterate_undo (n : Nat) (e : Editor) :
    (undo^[n] e).timeline = Timeline.back^[n] e.timeline :=
  Function.Semiconj.iterate_right timeline_undo n e

theorem timeline_iterate_redo (n : Nat) (e : Editor) :
    (redo^[n] e).timeline = Timeline.forth^[n] e.timeline :=
  Function.Semiconj.iterate_right timeline_redo n e

/-- As often as there is a state to go back to. -/
def undoAll (e : Editor) : Editor := undo^[e.undoStack.length] e

def redoAll (e : Editor) : Editor := redo^[e.redoStack.length] e

theorem undoAll_undoStack (e : Editor) : e.undoAll.undoStack = [] := by
  have hpast := Timeline.back_all e.timeline
  rw [show e.timeline.past.length = e.undoStack.length from rfl, ← timeline_iterate_undo] at hpast
  exact hpast

theorem redoAll_redoStack (e : Editor) : e.redoAll.redoStack = [] := by
  have hfuture := Timeline.forth_all e.timeline
  rw [show e.timeline.future.length = e.redoStack.length from rfl,
    ← timeline_iterate_redo] at hfuture
  exact hfuture

theorem undoAll_state {e : Editor} {s : EditorState} (h : e.timeline.whole.head? = some s) :
    e.undoAll.state = s := by
  have hnow := Timeline.now_back_all h
  rw [show e.timeline.past.length = e.undoStack.length from rfl, ← timeline_iterate_undo] at hnow
  exact hnow

/-- What was the present before all of it was taken back is the present after. -/
theorem redoAll_undoAll_state {e : Editor} (h : e.redoStack = []) :
    e.undoAll.redoAll.state = e.state := by
  have hlast : e.undoAll.timeline.whole.getLast? = some e.state := by
    rw [undoAll, timeline_iterate_undo, Timeline.iterate_back_whole]
    exact Timeline.getLast?_whole h
  have hnow := Timeline.now_forth_all hlast
  rw [show e.undoAll.timeline.future.length = e.undoAll.redoStack.length from rfl,
    ← timeline_iterate_redo] at hnow
  exact hnow

theorem iterate_undo_redoStack_length (n : Nat) (e : Editor) :
    (undo^[n] e).redoStack.length = e.redoStack.length + min n e.undoStack.length := by
  have hlen := Timeline.iterate_back_future_length n e.timeline
  rw [← timeline_iterate_undo] at hlen
  exact hlen

/-! ## What an operation saves -/

def saved (e : Editor) : List EditorState × List EditorState := (e.undoStack, e.redoStack)

/-- Whatever comes out has the stacks of `e`. -/
def KeepsSaved (e : Editor) (e? : Option Editor) : Prop :=
  ∀ e', e? = some e' → e'.saved = e.saved

theorem keeps_some {e e' : Editor} (h : e'.saved = e.saved) : KeepsSaved e (some e') := by
  intro e'' he
  rw [← Option.some.inj he]
  exact h

theorem keeps_map {α : Type _} {e : Editor} {f : α → Editor} {a? : Option α}
    (h : ∀ a, a? = some a → (f a).saved = e.saved) : KeepsSaved e (a?.map f) := by
  intro e' he
  obtain ⟨a, ha, rfl⟩ := Option.map_eq_some_iff.mp he
  exact h a ha

theorem keeps_bind {α : Type _} {e : Editor} {f : α → Option Editor} {a? : Option α}
    (h : ∀ a, a? = some a → KeepsSaved e (f a)) : KeepsSaved e (a?.bind f) := by
  intro e' he
  obtain ⟨a, ha, hf⟩ := Option.bind_eq_some_iff.mp he
  exact h a ha e' hf

/-- The state is there already the second time. -/
theorem saveUndoState_saveUndoState (e : Editor) :
    e.saveUndoState.saveUndoState = e.saveUndoState := by
  have hlast : e.saveUndoState.undoStack.getLast? = some e.state := by
    unfold saveUndoState
    split
    · assumption
    · dsimp only
      split
      · next hlong =>
        rw [List.getLast?_tail, if_neg (by omega)]
        simp
      · simp
  rw [saveUndoState, saveUndoState_state, if_pos hlast]

variable {isAlphanumeric : Char → Bool}

theorem insertCharInternal_saved (ch : Char) (e : Editor) :
    KeepsSaved e (e.insertCharInternal ch) :=
  keeps_bind fun _ _ => keeps_map fun _ _ => rfl

theorem insertNewlineInternal_saved (e : Editor) : KeepsSaved e e.insertNewlineInternal :=
  keeps_bind fun _ _ => keeps_map fun _ _ => rfl

theorem insertChars_saved (text : List Char) (e : Editor) :
    KeepsSaved e (e.insertChars text) := by
  induction text generalizing e with
  | nil => exact keeps_some rfl
  | cons ch text ih =>
      refine keeps_bind fun e' he => ?_
      have hone : e'.saved = e.saved := by
        split at he
        · exact insertNewlineInternal_saved e e' he
        · exact insertCharInternal_saved ch e e' he
      intro e'' he'
      exact (ih e' e'' he').trans hone

theorem cursorWordLeft_saved (e : Editor) :
    KeepsSaved e.saveUndoState (e.cursorWordLeft isAlphanumeric) := by
  unfold cursorWordLeft
  dsimp only
  split
  · exact keeps_map fun _ _ => rfl
  · exact keeps_some rfl

theorem cursorWordRight_saved (e : Editor) :
    KeepsSaved e.saveUndoState (e.cursorWordRight isAlphanumeric) := by
  unfold cursorWordRight
  dsimp only
  split
  · exact keeps_some rfl
  · exact keeps_some rfl

theorem deleteRange_saved {e e' : Editor} {i m j n : Nat} {deleted : List Char}
    (h : e.deleteRange i m j n = some (deleted, e')) : e'.saved = e.saved := by
  unfold deleteRange at h
  split at h
  · obtain ⟨line, -, hdrain⟩ := Option.bind_eq_some_iff.mp h
    obtain ⟨cut, -, hcut⟩ := Option.map_eq_some_iff.mp hdrain
    rw [← (Prod.mk.inj hcut).2]
    rfl
  · rw [← (Prod.mk.inj (Option.some.inj h)).2]

@[simp] theorem pushKillRing_saved (text : List Char) (append : Bool) (e : Editor) :
    (e.pushKillRing text append).saved = e.saved := by
  unfold pushKillRing
  split
  · rfl
  · rfl

theorem keeps_deleted {e e' : Editor} {i m j n : Nat} {append : Bool}
    (h : e'.saved = e.saved) :
    KeepsSaved e ((e'.deleteRange i m j n).map fun (deleted, e) =>
      e.pushKillRing deleted append) :=
  keeps_map fun _ ha => (pushKillRing_saved _ _ _).trans ((deleteRange_saved ha).trans h)

theorem deleteWordBackward_saved (e : Editor) :
    KeepsSaved e.saveUndoState (e.deleteWordBackward isAlphanumeric) := by
  refine keeps_bind fun moved hmoved => ?_
  have hsaved := cursorWordLeft_saved _ _ hmoved
  rw [saveUndoState_saveUndoState] at hsaved
  intro e' he
  exact (keeps_deleted rfl e' he).trans hsaved

theorem deleteWordForward_saved (e : Editor) :
    KeepsSaved e.saveUndoState (e.deleteWordForward isAlphanumeric) := by
  refine keeps_bind fun moved hmoved => ?_
  have hsaved := cursorWordRight_saved _ _ hmoved
  rw [saveUndoState_saveUndoState] at hsaved
  intro e' he
  exact (keeps_deleted rfl e' he).trans hsaved

theorem deleteCharBackward_saved (e : Editor) :
    KeepsSaved e.saveUndoState e.deleteCharBackward := by
  unfold deleteCharBackward
  dsimp only
  split
  · exact keeps_bind fun _ _ => keeps_map fun _ _ => rfl
  · split
    · exact keeps_bind fun _ _ => keeps_map fun _ _ => rfl
    · exact keeps_some rfl

/-- An operation that saves does so before it does anything else. -/
theorem apply_saves {e : Editor} {op : Op} (hop : op.isEdit || op.isMove)
    (hjump : op ≠ .charJump) (hyank : op ≠ .killRingYank) :
    KeepsSaved e.saveUndoState (e.apply isAlphanumeric op) := by
  cases op with
  | cursorUp =>
      change KeepsSaved _ e.cursorUp
      unfold cursorUp
      dsimp only
      split
      · exact keeps_map fun _ _ => rfl
      · exact keeps_some rfl
  | cursorDown =>
      change KeepsSaved _ e.cursorDown
      unfold cursorDown
      dsimp only
      split
      · exact keeps_map fun _ _ => rfl
      · exact keeps_some rfl
  | cursorLeft =>
      change KeepsSaved _ e.cursorLeft
      unfold cursorLeft
      dsimp only
      split
      · exact keeps_some rfl
      · split
        · exact keeps_map fun _ _ => rfl
        · exact keeps_some rfl
  | cursorRight =>
      refine keeps_map fun line _ => ?_
      split
      · rfl
      · split
        · rfl
        · rfl
  | cursorWordLeft => exact cursorWordLeft_saved e
  | cursorWordRight => exact cursorWordRight_saved e
  | cursorLineStart => exact keeps_some rfl
  | cursorLineEnd => exact keeps_map fun _ _ => rfl
  | cursorDocStart => exact keeps_some rfl
  | cursorDocEnd => exact keeps_map fun _ _ => rfl
  | pageUp => exact keeps_map fun _ _ => rfl
  | pageDown => exact keeps_map fun _ _ => rfl
  | charJump => exact absurd rfl hjump
  | insertChar ch =>
      refine keeps_map fun e' he => ?_
      exact insertCharInternal_saved ch _ e' he
  | insertNewline =>
      refine keeps_map fun e' he => ?_
      exact insertNewlineInternal_saved _ e' he
  | insertText text => exact insertChars_saved text _
  | insertPasteMarker id lineCount => exact insertChars_saved _ _
  | deleteCharBackward => exact deleteCharBackward_saved e
  | deleteCharForward => exact keeps_bind fun _ _ => keeps_map fun _ _ => rfl
  | deleteWordBackward => exact deleteWordBackward_saved e
  | deleteWordForward => exact deleteWordForward_saved e
  | deleteToLineStart =>
      refine keeps_map fun a ha => ?_
      have hsaved : a.2.saved = e.saveUndoState.saved := deleteRange_saved ha
      exact (pushKillRing_saved _ _ _).trans hsaved
  | deleteToLineEnd => exact keeps_bind fun _ _ => keeps_deleted rfl
  | killRingYank => exact absurd rfl hyank
  | setCharJumpTarget ch => exact absurd hop Bool.false_ne_true
  | killRingYankPop => exact absurd hop Bool.false_ne_true
  | undo => exact absurd hop Bool.false_ne_true
  | redo => exact absurd hop Bool.false_ne_true
  | historyPrev => exact absurd hop Bool.false_ne_true
  | historyNext => exact absurd hop Bool.false_ne_true
  | takeText => exact absurd hop Bool.false_ne_true
  | clear => exact absurd hop Bool.false_ne_true

/-- A jump without a target and a yank from an empty ring do nothing. -/
theorem apply_saved {e e' : Editor} {op : Op} (hop : op.isEdit || op.isMove)
    (h : e.apply isAlphanumeric op = some e') :
    e'.saved = e.saveUndoState.saved ∨ e'.saved = e.saved ∧ e'.state = e.state := by
  by_cases hjump : op = .charJump
  · rw [hjump] at h
    change e.charJump = some e' at h
    unfold charJump at h
    split at h
    · obtain rfl := Option.some.inj h
      exact Or.inr ⟨rfl, rfl⟩
    · refine Or.inl (keeps_map (fun line _ => ?_) e' h)
      dsimp only
      split
      · rfl
      · rfl
  by_cases hyank : op = .killRingYank
  · rw [hyank] at h
    change e.killRingYank = some e' at h
    unfold killRingYank at h
    split at h
    · exact Or.inl (insertChars_saved _ _ _ h)
    · obtain rfl := Option.some.inj h
      exact Or.inr ⟨rfl, rfl⟩
  exact Or.inl (apply_saves hop hjump hyank e' h)

theorem apply_preparation {e e' : Editor} {op : Op} (hop : op.isPreparation)
    (h : e.apply isAlphanumeric op = some e') : e'.saved = e.saved ∧ e'.state = e.state := by
  cases op with
  | setCharJumpTarget ch =>
      obtain rfl := Option.some.inj h
      exact ⟨rfl, rfl⟩
  | killRingYankPop =>
      obtain rfl := Option.some.inj h
      unfold killRingYankPop
      split
      · exact ⟨rfl, rfl⟩
      · exact ⟨rfl, rfl⟩
  | _ => exact absurd hop Bool.false_ne_true

/-! ## Runs of edits and moves -/

/-- Below the limit a state is put on top, unless it is on top already. -/
theorem saveUndoState_cases {e : Editor} (h : e.undoStack.length < 100) :
    e.saveUndoState.redoStack = e.redoStack ∧
      (e.saveUndoState.undoStack = e.undoStack ∧ e.undoStack ≠ [] ∨
        e.saveUndoState.undoStack = e.undoStack ++ [e.state]) := by
  unfold saveUndoState
  split
  · next hlast =>
    refine ⟨rfl, Or.inl ⟨rfl, ?_⟩⟩
    intro hnil
    rw [hnil] at hlast
    exact absurd hlast (by simp)
  · refine ⟨rfl, Or.inr ?_⟩
    have hshort : ¬ 100 < (e.undoStack ++ [e.state]).length := by
      rw [List.length_append, List.length_singleton]
      omega
    exact if_neg hshort

/-- The oldest state is `s`, and at most `n` states are saved. -/
structure From (s : EditorState) (n : Nat) (e : Editor) : Prop where
  oldest : (e.undoStack ++ [e.state]).head? = some s
  saved : e.undoStack.length ≤ n
  redo : e.redoStack = []

theorem From.apply {s : EditorState} {n : Nat} {e e' : Editor} {op : Op} (h : From s n e)
    (hn : n < 100) (hop : op.isEdit || op.isMove) (he : e.apply isAlphanumeric op = some e') :
    From s (n + 1) e' := by
  have hlen := h.saved
  obtain hsaves | ⟨hsame, hstate⟩ := apply_saved hop he
  · obtain ⟨hundo, hredo⟩ := Prod.mk.inj hsaves
    obtain ⟨hkeep, ⟨hstack, hne⟩ | hstack⟩ := saveUndoState_cases (e := e) (by omega)
    · rw [hstack] at hundo
      refine ⟨?_, by rw [hundo]; omega, by rw [hredo, hkeep, h.redo]⟩
      rw [hundo, List.head?_append_of_ne_nil _ hne, ← List.head?_append_of_ne_nil _ hne]
      exact h.oldest
    · rw [hstack] at hundo
      refine ⟨?_, ?_, by rw [hredo, hkeep, h.redo]⟩
      · rw [hundo, List.head?_append_of_ne_nil _ (by simp)]
        exact h.oldest
      · rw [hundo, List.length_append, List.length_singleton]
        omega
  · obtain ⟨hundo, hredo⟩ := Prod.mk.inj hsame
    refine ⟨by rw [hundo, hstate]; exact h.oldest, by rw [hundo]; omega, by rw [hredo, h.redo]⟩

theorem From.prepare {s : EditorState} {n : Nat} {e e' : Editor} {op : Op} (h : From s n e)
    (hop : op.isPreparation) (he : e.apply isAlphanumeric op = some e') : From s n e' := by
  obtain ⟨hsame, hstate⟩ := apply_preparation hop he
  obtain ⟨hundo, hredo⟩ := Prod.mk.inj hsame
  exact ⟨by rw [hundo, hstate]; exact h.oldest, by rw [hundo]; exact h.saved,
    by rw [hredo, h.redo]⟩

/-- The edits and moves among the operations, the ones the limit counts. -/
def saving (ops : List Op) : Nat := ops.countP fun op => op.isEdit || op.isMove

theorem From.run {s : EditorState} {n : Nat} {e e' : Editor} {ops : List Op} (h : From s n e)
    (hops : ∀ op ∈ ops, op.isEdit || op.isMove || op.isPreparation)
    (hn : n + saving ops ≤ 100) (he : e.run isAlphanumeric ops = some e') :
    From s (n + saving ops) e' := by
  induction ops generalizing e n with
  | nil =>
      obtain rfl := Option.some.inj he
      exact h
  | cons op ops ih =>
      obtain ⟨e₁, hone, hrest⟩ := Option.bind_eq_some_iff.mp he
      have hrestops := fun op' hmem => hops op' (List.mem_cons_of_mem _ hmem)
      by_cases hop : op.isEdit || op.isMove
      · have hcount : saving (op :: ops) = saving ops + 1 := List.countP_cons_of_pos hop
        rw [hcount] at hn ⊢
        have hfrom := ih (h.apply (by omega) hop hone) hrestops (by omega) hrest
        rwa [show n + (saving ops + 1) = n + 1 + saving ops by omega]
      · have hcount : saving (op :: ops) = saving ops := List.countP_cons_of_neg hop
        rw [hcount] at hn ⊢
        have hprepare : op.isPreparation := by
          have hall := hops op List.mem_cons_self
          simpa [hop] using hall
        exact ih (h.prepare hprepare hone) hrestops hn hrest

/-! ## An edit after an undo -/

/-- Some redo of the run brings back one of the `old` states at the bottom of the
redo stack. Those are the states saved before the run began: a stack is changed at
its top, so of the old ones there are never more left than the stack has been low. -/
def BringsBack (isAlphanumeric : Char → Bool) : Nat → Editor → List Op → Prop
  | _, _, [] => False
  | old, e, op :: ops =>
      (op = .redo ∧ 0 < e.redoStack.length ∧ e.redoStack.length ≤ old) ∨
        ∃ e', e.apply isAlphanumeric op = some e' ∧
          BringsBack isAlphanumeric (min old e'.redoStack.length) e' ops

theorem not_bringsBack_zero (e : Editor) (ops : List Op) :
    ¬ BringsBack isAlphanumeric 0 e ops := by
  induction ops generalizing e with
  | nil => exact id
  | cons op ops ih =>
      intro h
      obtain ⟨-, hpos, hle⟩ | ⟨e', -, hrest⟩ := h
      · omega
      · rw [Nat.zero_min] at hrest
        exact ih e' hrest

/-- The next redo does, as long as there is one of them. -/
theorem never_bringsBack_iff (e : Editor) :
    (∀ later, ¬ BringsBack isAlphanumeric e.redoStack.length e later) ↔ e.redoStack = [] := by
  constructor
  · intro h
    by_contra hne
    exact h [.redo] (Or.inl ⟨rfl, List.length_pos_of_ne_nil hne, Nat.le_refl _⟩)
  · intro h later
    rw [h]
    exact not_bringsBack_zero e later

/-- What is asked of a run from `e` to `e₁`, and of an edit that comes after `n` undos
and leads to `e₂`. -/
structure Inverse (isAlphanumeric : Char → Bool) (e e₁ : Editor) (n : Nat) (e₂ : Editor) :
    Prop where
  undone : e₁.undoAll.undoStack = [] ∧ e₁.undoAll.state = e.state
  redone : e₁.undoAll.redoAll.redoStack = [] ∧ e₁.undoAll.redoAll.state = e₁.state
  cut : ∀ later, ¬ BringsBack isAlphanumeric (undo^[n] e₁).redoStack.length e₂ later

theorem isEdit_saves {op : Op} (h : op.isEdit) : op.isEdit || op.isMove := by
  rw [h, Bool.true_or]

/-- An edit leaves the redo stack alone. -/
theorem apply_redoStack {e e' : Editor} {op : Op} (hop : op.isEdit || op.isMove)
    (h : e.apply isAlphanumeric op = some e') : e'.redoStack = e.redoStack := by
  obtain hsaves | ⟨hsame, -⟩ := apply_saved hop h
  · rw [(Prod.mk.inj hsaves).2]
    unfold saveUndoState
    split
    · rfl
    · rfl
  · exact (Prod.mk.inj hsame).2

/-- Undo and redo are inverse exactly when no undo before the new edit had anything
to take back. -/
theorem inverse_iff {e e₁ e₂ : Editor} {ops : List Op} {n : Nat} {edit : Op}
    (hundo : e.undoStack = []) (hredo : e.redoStack = [])
    (hops : ∀ op ∈ ops, op.isEdit || op.isMove || op.isPreparation)
    (hcount : saving ops ≤ 100) (hrun : e.run isAlphanumeric ops = some e₁)
    (hedit : edit.isEdit) (happly : (undo^[n] e₁).apply isAlphanumeric edit = some e₂) :
    Inverse isAlphanumeric e e₁ n e₂ ↔ n = 0 ∨ e₁.undoStack = [] := by
  have hstart : From e.state 0 e :=
    ⟨by rw [hundo]; rfl, by rw [hundo]; exact Nat.le_refl 0, hredo⟩
  have hend := hstart.run hops (by omega) hrun
  have hwhole : e₁.timeline.whole.head? = some e.state := by
    show (e₁.undoStack ++ e₁.state :: e₁.redoStack.reverse).head? = some e.state
    rw [hend.redo]
    exact hend.oldest
  have hkeep := apply_redoStack (isEdit_saves hedit) happly
  have hcut : (∀ later, ¬ BringsBack isAlphanumeric (undo^[n] e₁).redoStack.length e₂ later) ↔
      n = 0 ∨ e₁.undoStack = [] := by
    rw [← hkeep, never_bringsBack_iff, hkeep, ← List.length_eq_zero_iff,
      iterate_undo_redoStack_length, hend.redo, ← List.length_eq_zero_iff, List.length_nil]
    omega
  rw [← hcut]
  constructor
  · intro h
    exact h.cut
  · intro h
    exact ⟨⟨undoAll_undoStack e₁, undoAll_state hwhole⟩,
      ⟨redoAll_redoStack _, redoAll_undoAll_state hend.redo⟩, h⟩

/-- One character, taken back, and another one in its place. -/
theorem inverse_of_two_characters : ∃ e₁ e₂,
    Editor.new.run Char.isAlphanum [.insertChar 'a'] = some e₁ ∧
      (undo^[0] e₁).apply Char.isAlphanum (.insertChar 'b') = some e₂ ∧
      Inverse Char.isAlphanum Editor.new e₁ 0 e₂ :=
  ⟨_, _, rfl, rfl, (@inverse_iff Char.isAlphanum _ _ _ [.insertChar 'a'] 0 (.insertChar 'b')
    rfl rfl (by decide) (by decide) rfl rfl rfl).mpr (Or.inl rfl)⟩

/-- The character that was taken back is brought back after the other one is typed. -/
theorem redo_after_edit : ∃ e₁ e₂,
    Editor.new.run Char.isAlphanum [.insertChar 'a'] = some e₁ ∧
      (undo^[1] e₁).apply Char.isAlphanum (.insertChar 'b') = some e₂ ∧
      e₂.redo.state = e₁.state ∧ ¬ Inverse Char.isAlphanum Editor.new e₁ 1 e₂ := by
  refine ⟨_, _, rfl, rfl, rfl, ?_⟩
  intro h
  exact h.cut [.redo] (Or.inl ⟨rfl, by decide, by decide⟩)

end Editor

end Pandaria.Tui
