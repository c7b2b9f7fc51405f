import Mathlib.Data.List.Forall2
import Mathlib.Data.List.Induction
import Pandaria.Proofs.Utf8

/-!
# What the lines of a block come to

A block is read line by line, and what its lines come to is what each comes to
by itself, one after the other. The last line is not like the others: with no
line break behind it, it keeps a carriage return that it would else lose.

Nothing of this depends on the characters of a value, so a blurred block has
the same lines with blurred values in them.
-/

namespace Pandaria.Ai

/-! ## Lines -/

/-- What one line says. -/
inductive SseLine where
  | skip
  | event (value : List Char)
  | id (value : List Char)
  | data (value : List Char)

def SseLine.map (f : List Char → List Char) : SseLine → SseLine
  | skip => skip
  | event v => event (f v)
  | id v => id (f v)
  | data v => data (f v)

/-- A value, less one space in front. -/
def stripSpace (value : List Char) : List Char :=
  if value.head? = some ' ' then value.tail else value

def fieldLine (name value : List Char) : SseLine :=
  if String.ofList name = "event" then .event value
  else if String.ofList name = "id" then .id value
  else if String.ofList name = "data" then .data value
  else .skip

def sseLine (line : List Char) : SseLine :=
  if line.head? = some ':' then .skip
  else if line.contains ':' then
    fieldLine (line.takeWhile (· ≠ ':')) (stripSpace (line.dropWhile (· ≠ ':')).tail)
  else if line.isEmpty then .skip
  else .data line

theorem fieldLine_map (f : List Char → List Char) (name value : List Char) :
    fieldLine name (f value) = (fieldLine name value).map f := by
  rw [fieldLine, fieldLine]
  repeat' split
  all_goals rfl

theorem sseLine_field {name : List Char} (h : ':' ∉ name) (value : List Char) :
    sseLine (name ++ ':' :: value) = fieldLine name (stripSpace value) := by
  have hall : ∀ c ∈ name, decide (c ≠ ':') = true := by
    intro c hc
    exact decide_eq_true fun heq => h (heq ▸ hc)
  have hcontains : (name ++ ':' :: value).contains ':' = true := by simp
  have htake : (name ++ ':' :: value).takeWhile (· ≠ ':') = name := by
    rw [List.takeWhile_append_of_pos hall, List.takeWhile_cons_of_neg (by simp), List.append_nil]
  have hdrop : (name ++ ':' :: value).dropWhile (· ≠ ':') = ':' :: value := by
    rw [List.dropWhile_append_of_pos hall, List.dropWhile_cons_of_neg (by simp)]
  rw [sseLine, hcontains, htake, hdrop, List.tail_cons, if_pos rfl]
  cases name with
  | nil => rfl
  | cons c cs =>
      have hc : ¬ some c = some ':' := fun heq => h (by injection heq with heq; simp [heq])
      rw [List.cons_append, List.head?_cons, if_neg hc]

theorem sseLine_bare {line : List Char} (h : ':' ∉ line) :
    sseLine line = if line = [] then .skip else .data line := by
  have hcontains : line.contains ':' = false := by simpa using h
  rw [sseLine, hcontains]
  cases line with
  | nil => rfl
  | cons c cs =>
      have hc : ¬ some c = some ':' := fun heq => h (by injection heq with heq; simp [heq])
      rw [List.head?_cons, if_neg hc]
      rfl

namespace SseFields

def empty : SseFields := ⟨none, none, []⟩

def add (f : SseFields) : SseLine → SseFields
  | .skip => f
  | .event v => { f with event := some v }
  | .id v => { f with id := some v }
  | .data v => { f with dataLines := f.dataLines ++ [v] }

theorem line_eq (f : SseFields) (line : List Char) : f.line line = f.add (sseLine line) := by
  unfold SseFields.line sseLine fieldLine stripSpace
  dsimp only
  repeat' split
  all_goals rfl

/-- The fields of two stretches of lines, one after the other. -/
def andThen (f g : SseFields) : SseFields :=
  { event := g.event.or f.event
    id := g.id.or f.id
    dataLines := f.dataLines ++ g.dataLines }

@[simp] theorem andThen_empty (f : SseFields) : f.andThen empty = f := by
  simp [andThen, empty]

@[simp] theorem empty_andThen (f : SseFields) : empty.andThen f = f := by
  simp [andThen, empty]

theorem andThen_add (f g : SseFields) (l : SseLine) :
    f.andThen (g.add l) = (f.andThen g).add l := by
  cases l with
  | skip => rfl
  | event v => simp [andThen, add]
  | id v => simp [andThen, add]
  | data v => simp [andThen, add]

theorem foldl_line (f : SseFields) (lines : List (List Char)) :
    lines.foldl SseFields.line f = f.andThen (lines.foldl SseFields.line empty) := by
  induction lines using List.reverseRecOn with
  | nil => exact (andThen_empty f).symm
  | append_singleton lines line ih =>
      rw [List.foldl_append, List.foldl_append, List.foldl_cons, List.foldl_cons, List.foldl_nil,
        List.foldl_nil, ih, line_eq, line_eq, andThen_add]

/-- The end of `parse_event`. -/
def toEvent (f : SseFields) : Option SseEvent :=
  if f.dataLines.isEmpty && f.event.isNone && f.id.isNone then none
  else some
    { event := f.event.map String.ofList
      data := String.ofList (List.intercalate ['\n'] f.dataLines)
      id := f.id.map String.ofList }

theorem toEvent_eq_none_iff {f : SseFields} : f.toEvent = none ↔ f = empty := by
  obtain ⟨event, id, dataLines⟩ := f
  simp [toEvent, empty, and_assoc, and_comm, and_left_comm]

end SseFields

def fieldsOf (raw : List Char) : SseFields := (linesFrom [] raw).foldl SseFields.line .empty

theorem parseEvent_eq (raw : List Char) : parseEvent raw = (fieldsOf raw).toEvent := rfl

/-! ## The last line -/

/-- A line without the carriage return of its line break. -/
def stripCr (line : List Char) : List Char :=
  if line.getLast? = some '\r' then line.dropLast else line

/-- The lines of a text that end in a line break, and the text after them. -/
def splitLines (line : List Char) : List Char → List (List Char) × List Char
  | [] => ([], line)
  | c :: cs =>
      if c = '\n' then (stripCr line :: (splitLines [] cs).1, (splitLines [] cs).2)
      else splitLines (line ++ [c]) cs

theorem linesFrom_eq (line raw : List Char) :
    linesFrom line raw = (splitLines line raw).1 ++
      if (splitLines line raw).2.isEmpty then [] else [(splitLines line raw).2] := by
  induction raw generalizing line with
  | nil => rfl
  | cons c cs ih =>
      rw [linesFrom, splitLines]
      split
      · rw [ih]
        rfl
      · exact ih _

theorem linesFrom_append (line raw rest : List Char) :
    linesFrom line (raw ++ '\n' :: rest) =
      (splitLines line raw).1 ++ stripCr (splitLines line raw).2 :: linesFrom [] rest := by
  induction raw generalizing line with
  | nil => rw [List.nil_append, linesFrom, if_pos rfl]; rfl
  | cons c cs ih =>
      rw [List.cons_append, linesFrom, splitLines]
      split
      · rw [ih]
        rfl
      · exact ih _

/-- The fields of a block but for its last line. -/
def closedFields (raw : List Char) : SseFields :=
  (splitLines [] raw).1.foldl SseFields.line .empty

def lastLine (raw : List Char) : List Char := (splitLines [] raw).2

theorem fieldsOf_eq (raw : List Char) :
    fieldsOf raw = (closedFields raw).add (sseLine (lastLine raw)) := by
  rw [fieldsOf, linesFrom_eq, List.foldl_append, closedFields, lastLine]
  split
  · next h => rw [List.isEmpty_iff.mp h]; rfl
  · rw [List.foldl_cons, List.foldl_nil, SseFields.line_eq]

theorem fieldsOf_append (raw rest : List Char) :
    fieldsOf (raw ++ '\n' :: rest) =
      ((closedFields raw).add (sseLine (stripCr (lastLine raw)))).andThen (fieldsOf rest) := by
  rw [fieldsOf, linesFrom_append, List.foldl_append, List.foldl_cons, SseFields.foldl_line,
    SseFields.line_eq]
  rfl

theorem fieldsOf_newline (raw : List Char) :
    fieldsOf (raw ++ ['\n']) = (closedFields raw).add (sseLine (stripCr (lastLine raw))) := by
  rw [fieldsOf_append]
  exact SseFields.andThen_empty _

/-- Two blocks read as one. -/
theorem fieldsOf_merged (raw rest : List Char) :
    fieldsOf (raw ++ '\n' :: '\n' :: rest) =
      (fieldsOf (raw ++ ['\n'])).andThen (fieldsOf rest) := by
  have hrest : fieldsOf ('\n' :: rest) = fieldsOf rest :=
    (fieldsOf_append [] rest).trans (SseFields.empty_andThen _)
  rw [fieldsOf_append, hrest, fieldsOf_newline]

/-! ## Carriage returns -/

theorem stripCr_append (line : List Char) : stripCr (line ++ ['\r']) = line := by
  simp [stripCr]

theorem stripCr_cases (line : List Char) :
    stripCr line = line ∨ ∃ start, line = start ++ ['\r'] ∧ stripCr line = start := by
  rw [stripCr]
  split
  · next h =>
      obtain ⟨start, rfl⟩ := List.getLast?_eq_some_iff.mp h
      exact Or.inr ⟨start, rfl, by simp⟩
  · exact Or.inl rfl

/-- A carriage return at the end of a line is part of the value. -/
theorem sseLine_append_cr {line : List Char} (hne : line ≠ []) :
    sseLine (line ++ ['\r']) = (sseLine line).map (· ++ ['\r']) := by
  by_cases hcolon : ':' ∈ line
  · obtain ⟨name, value, rfl, hname⟩ := List.eq_append_cons_of_mem hcolon
    have hspace : stripSpace (value ++ ['\r']) = stripSpace value ++ ['\r'] := by
      cases value with
      | nil => rfl
      | cons c cs =>
          by_cases hc : c = ' ' <;> simp [stripSpace, hc]
    rw [List.append_assoc, List.cons_append, sseLine_field hname, sseLine_field hname, hspace]
    exact fieldLine_map (· ++ ['\r']) name (stripSpace value)
  · have hcr : ':' ∉ line ++ ['\r'] := by simpa using hcolon
    rw [sseLine_bare hcr, sseLine_bare hcolon, if_neg (by simp), if_neg hne]
    rfl

/-! ## Blocks read as one -/

/-- A line that says nothing says nothing without its carriage return. -/
theorem sseLine_stripCr_skip {line : List Char} (h : sseLine line = .skip) :
    sseLine (stripCr line) = .skip := by
  rcases stripCr_cases line with heq | ⟨start, rfl, heq⟩
  · rw [heq, h]
  · rw [heq]
    by_cases hne : start = []
    · rw [hne]
      rfl
    · rw [sseLine_append_cr hne] at h
      cases hs : sseLine start with
      | skip => rfl
      | event v => rw [hs] at h; cases h
      | id v => rw [hs] at h; cases h
      | data v => rw [hs] at h; cases h

theorem SseFields.add_eq_empty {f : SseFields} {l : SseLine} (h : f.add l = empty) :
    f = empty ∧ l = .skip := by
  cases l with
  | skip => exact ⟨h, rfl⟩
  | event v => simp [add, empty] at h
  | id v => simp [add, empty] at h
  | data v => simp [add, empty] at h

theorem fieldsOf_newline_empty {raw : List Char} (h : fieldsOf raw = .empty) :
    fieldsOf (raw ++ ['\n']) = .empty := by
  rw [fieldsOf_eq] at h
  obtain ⟨hclosed, hlast⟩ := SseFields.add_eq_empty h
  rw [fieldsOf_newline, hclosed, sseLine_stripCr_skip hlast]
  rfl

/-- A block without an event does nothing to the one it is read with. -/
theorem parseEvent_merged_of_none {raw : List Char} (h : parseEvent raw = none)
    (rest : List Char) : parseEvent (raw ++ '\n' :: '\n' :: rest) = parseEvent rest := by
  rw [parseEvent_eq, SseFields.toEvent_eq_none_iff] at h
  rw [parseEvent_eq, fieldsOf_merged, fieldsOf_newline_empty h, SseFields.empty_andThen,
    parseEvent_eq]

theorem parseEvent_merged_none {rest : List Char} (h : parseEvent rest = none) (raw : List Char) :
    parseEvent (raw ++ '\n' :: '\n' :: rest) = parseEvent (raw ++ ['\n']) := by
  rw [parseEvent_eq, SseFields.toEvent_eq_none_iff] at h
  rw [parseEvent_eq, fieldsOf_merged, h, SseFields.andThen_empty, parseEvent_eq]

/-! ## Blurred blocks -/

inductive BlurLine : SseLine → SseLine → Prop where
  | skip : BlurLine .skip .skip
  | event {v w : List Char} (h : Blur v w) : BlurLine (.event v) (.event w)
  | id {v w : List Char} (h : Blur v w) : BlurLine (.id v) (.id w)
  | data {v w : List Char} (h : Blur v w) : BlurLine (.data v) (.data w)

theorem stripSpace_blur {v w : List Char} (h : Blur v w) : Blur (stripSpace v) (stripSpace w) := by
  cases h with
  | nil => exact .nil
  | keep c h =>
      by_cases hc : c = ' '
      · simpa [stripSpace, hc] using h
      · simpa [stripSpace, hc] using Blur.keep c h
  | @blur c hc n s t h =>
      have hspace : c ≠ ' ' := by
        rintro rfl
        revert hc
        decide
      have hrep : replacementChar ≠ ' ' := by decide
      simpa [stripSpace, hspace, List.replicate_succ, hrep] using Blur.blur hc n h

/-- A name with something beyond ASCII in it is not that of a field. -/
theorem fieldLine_beyond {name : List Char} (h : ∃ c ∈ name, 128 ≤ c.toNat) (value : List Char) :
    fieldLine name value = .skip := by
  obtain ⟨c, hc, hbeyond⟩ := h
  have hne (field : String) (hfield : (field.toList.all fun d => d.toNat < 128) = true) :
      ¬ String.ofList name = field := by
    rintro rfl
    have hlt := of_decide_eq_true (List.all_eq_true.mp hfield c (by simpa using hc))
    omega
  rw [fieldLine, if_neg (hne _ (by decide)), if_neg (hne _ (by decide)), if_neg (hne _ (by decide))]

theorem fieldLine_blur {name name' v w : List Char} (hname : Blur name name') (h : Blur v w) :
    BlurLine (fieldLine name v) (fieldLine name' w) := by
  rcases hname.eq_or_beyond with rfl | ⟨hleft, hright⟩
  · rw [fieldLine, fieldLine]
    repeat' split
    · exact .event h
    · exact .id h
    · exact .data h
    · exact .skip
  · rw [fieldLine_beyond hleft, fieldLine_beyond hright]
    exact .skip

theorem sseLine_blur {line line' : List Char} (h : Blur line line') :
    BlurLine (sseLine line) (sseLine line') := by
  by_cases hcolon : ':' ∈ line
  · obtain ⟨name, value, rfl, hname⟩ := List.eq_append_cons_of_mem hcolon
    obtain ⟨name', rest, rfl, hn, hrest⟩ := h.append_left
    obtain ⟨value', rfl, hv⟩ := hrest.ascii_left (by decide)
    have hname' : ':' ∉ name' := fun hmem => hname ((hn.mem_iff (by decide)).mpr hmem)
    rw [sseLine_field hname, sseLine_field hname']
    exact fieldLine_blur hn (stripSpace_blur hv)
  · have hcolon' : ':' ∉ line' := fun hmem => hcolon ((h.mem_iff (by decide)).mpr hmem)
    rw [sseLine_bare hcolon, sseLine_bare hcolon']
    by_cases hnil : line = []
    · subst hnil
      rw [h.nil_left]
      exact .skip
    · have hnil' : line' ≠ [] := by
        rintro rfl
        exact hnil h.nil_right
      rw [if_neg hnil, if_neg hnil']
      exact .data h

theorem stripCr_blur {line line' : List Char} (h : Blur line line') :
    Blur (stripCr line) (stripCr line') := by
  rw [stripCr, stripCr]
  by_cases hcr : line.getLast? = some '\r'
  · rw [if_pos hcr, if_pos ((h.getLast?_iff (by decide)).mp hcr)]
    obtain ⟨start, rfl⟩ := List.getLast?_eq_some_iff.mp hcr
    obtain ⟨start', last, rfl, hstart, hlast⟩ := h.append_left
    obtain ⟨rest, rfl, hrest⟩ := hlast.ascii_left (by decide)
    rw [hrest.nil_left]
    simpa using hstart
  · rw [if_neg hcr, if_neg fun h' => hcr ((h.getLast?_iff (by decide)).mpr h')]
    exact h

theorem splitLines_replacement (line rest : List Char) (n : Nat) :
    splitLines line (List.replicate n replacementChar ++ rest) =
      splitLines (line ++ List.replicate n replacementChar) rest := by
  induction n generalizing line with
  | zero => simp
  | succ n ih =>
      rw [List.replicate_succ, List.cons_append, splitLines, if_neg (by decide), ih,
        List.append_assoc]
      rfl

theorem splitLines_blur {raw raw' : List Char} (h : Blur raw raw') {line line' : List Char}
    (hline : Blur line line') :
    List.Forall₂ Blur (splitLines line raw).1 (splitLines line' raw').1 ∧
      Blur (splitLines line raw).2 (splitLines line' raw').2 := by
  induction h generalizing line line' with
  | nil => exact ⟨.nil, hline⟩
  | keep c _ ih =>
      rw [splitLines, splitLines]
      split
      · obtain ⟨hclosed, hlast⟩ := ih .nil
        exact ⟨.cons (stripCr_blur hline) hclosed, hlast⟩
      · exact ih (hline.append (.refl [c]))
  | @blur c hc n s t _ ih =>
      have hbreak : c ≠ '\n' := by
        rintro rfl
        revert hc
        decide
      have hone := Blur.blur hc n .nil
      rw [List.append_nil] at hone
      rw [splitLines, if_neg hbreak, splitLines_replacement]
      exact ih (hline.append hone)

/-- The same fields, with blurred values. -/
structure BlurFields (f g : SseFields) : Prop where
  event : Option.Rel Blur f.event g.event
  id : Option.Rel Blur f.id g.id
  dataLines : List.Forall₂ Blur f.dataLines g.dataLines

theorem BlurFields.add {f g : SseFields} (h : BlurFields f g) {l l' : SseLine}
    (hl : BlurLine l l') : BlurFields (f.add l) (g.add l') := by
  cases hl with
  | skip => exact h
  | event hv => exact ⟨.some hv, h.id, h.dataLines⟩
  | id hv => exact ⟨h.event, .some hv, h.dataLines⟩
  | data hv => exact ⟨h.event, h.id, List.rel_append h.dataLines (.cons hv .nil)⟩

theorem closedFields_blur {raw raw' : List Char} (h : Blur raw raw') :
    BlurFields (closedFields raw) (closedFields raw') := by
  have hfold {lines lines' : List (List Char)} (hl : List.Forall₂ Blur lines lines')
      {f g : SseFields} (hf : BlurFields f g) :
      BlurFields (lines.foldl SseFields.line f) (lines'.foldl SseFields.line g) := by
    induction hl generalizing f g with
    | nil => exact hf
    | cons hline _ ih =>
        rw [List.foldl_cons, List.foldl_cons, SseFields.line_eq, SseFields.line_eq]
        exact ih (hf.add (sseLine_blur hline))
  exact hfold (splitLines_blur h .nil).1 ⟨.none, .none, .nil⟩

theorem lastLine_blur {raw raw' : List Char} (h : Blur raw raw') :
    Blur (lastLine raw) (lastLine raw') :=
  (splitLines_blur h .nil).2

theorem fieldsOf_blur {raw raw' : List Char} (h : Blur raw raw') :
    BlurFields (fieldsOf raw) (fieldsOf raw') := by
  rw [fieldsOf_eq, fieldsOf_eq]
  exact (closedFields_blur h).add (sseLine_blur (lastLine_blur h))

/-! ## Events of blurred blocks -/

theorem blur_intercalate {ds es : List (List Char)} (h : List.Forall₂ Blur ds es) :
    Blur (List.intercalate ['\n'] ds) (List.intercalate ['\n'] es) := by
  induction h with
  | nil => exact .nil
  | cons hd hrest ih =>
      cases hrest with
      | nil => simpa using hd
      | cons hd' hrest' =>
          rw [List.intercalate_cons_cons, List.intercalate_cons_cons]
          exact (hd.append (.refl ['\n'])).append ih

/-- Joined lines are equal only when the lines are. -/
theorem eq_of_intercalate_eq {ds es : List (List Char)} (h : List.Forall₂ Blur ds es)
    (heq : List.intercalate ['\n'] ds = List.intercalate ['\n'] es) : ds = es := by
  induction h with
  | nil => rfl
  | @cons d e ds es hd hrest ih =>
      cases hrest with
      | nil =>
          rw [List.intercalate_singleton, List.intercalate_singleton] at heq
          rw [heq]
      | @cons d' e' ds es hd' hrest' =>
          rw [List.intercalate_cons_cons, List.intercalate_cons_cons] at heq
          have hjoined := blur_intercalate (.cons hd' hrest')
          have hlen := congrArg List.length heq
          simp only [List.length_append] at hlen
          have hle := hd.length_le
          have hle' := hjoined.length_le
          obtain ⟨hde, hrest⟩ := List.append_inj heq (by simp only [List.length_append]; omega)
          rw [(List.append_inj hde (by omega)).1, ih hrest]

theorem SseFields.toEvent_of_ne {f : SseFields} (h : f ≠ empty) : f.toEvent = some
    { event := f.event.map String.ofList
      data := String.ofList (List.intercalate ['\n'] f.dataLines)
      id := f.id.map String.ofList } := by
  rw [toEvent, if_neg fun hcond => h (toEvent_eq_none_iff.mp (if_pos hcond))]

namespace BlurFields

theorem eq_empty_iff {f g : SseFields} (h : BlurFields f g) : f = .empty ↔ g = .empty := by
  obtain ⟨event, id, dataLines⟩ := f
  obtain ⟨event', id', dataLines'⟩ := g
  obtain ⟨he, hi, hd⟩ := h
  cases he <;> cases hi <;> cases hd <;> simp [SseFields.empty]

theorem eq_of_toEvent_eq {f g : SseFields} (h : BlurFields f g) (heq : f.toEvent = g.toEvent) :
    f = g := by
  by_cases hf : f = .empty
  · rw [hf, h.eq_empty_iff.mp hf]
  · have hg : g ≠ .empty := fun hg => hf (h.eq_empty_iff.mpr hg)
    rw [SseFields.toEvent_of_ne hf, SseFields.toEvent_of_ne hg] at heq
    injection heq with heq
    injection heq with he hd hi
    have hinj : Function.Injective (Option.map String.ofList) :=
      Option.map_injective fun _ _ hs => String.ofList_injective hs
    have hdata := eq_of_intercalate_eq h.dataLines (String.ofList_injective hd)
    obtain ⟨event, id, dataLines⟩ := f
    obtain ⟨event', id', dataLines'⟩ := g
    rw [SseFields.mk.injEq]
    exact ⟨hinj he, hinj hi, hdata⟩

/-- Fields between two that are equal are equal to both. -/
theorem eq_of_between {f g k : SseFields} (h : BlurFields f g) (h' : BlurFields g k)
    (heq : f = k) : f = g := by
  subst heq
  have hoption {a b : Option (List Char)} (h : Option.Rel Blur a b) (h' : Option.Rel Blur b a) :
      a = b := by
    cases h with
    | none => rfl
    | some h =>
        cases h' with
        | some h' => rw [h.eq_of_between h' rfl]
  have hlines {ds es : List (List Char)} (h : List.Forall₂ Blur ds es)
      (h' : List.Forall₂ Blur es ds) : ds = es := by
    induction h with
    | nil => rfl
    | cons hd _ ih =>
        cases h' with
        | cons hd' hrest => rw [hd.eq_of_between hd' rfl, ih hrest]
  obtain ⟨event, id, dataLines⟩ := f
  obtain ⟨event', id', dataLines'⟩ := g
  rw [SseFields.mk.injEq]
  exact ⟨hoption h.event h'.event, hoption h.id h'.id, hlines h.dataLines h'.dataLines⟩

end BlurFields

/-- The carriage return at the end of the last line takes nothing with it that
would tell two values apart. -/
theorem add_eq_of_map_eq {f g : SseFields} {l l' : SseLine} (hl : BlurLine l l')
    (heq : f.add (l.map (· ++ ['\r'])) = g.add (l'.map (· ++ ['\r']))) : f.add l = g.add l' := by
  obtain ⟨event, id, dataLines⟩ := f
  obtain ⟨event', id', dataLines'⟩ := g
  cases hl with
  | skip => exact heq
  | event hv => simpa [SseLine.map, SseFields.add] using heq
  | id hv => simpa [SseLine.map, SseFields.add] using heq
  | data hv =>
      rw [SseLine.map, SseLine.map, SseFields.add, SseFields.add, SseFields.mk.injEq] at heq
      obtain ⟨he, hi, hd⟩ := heq
      obtain ⟨hd, hlast⟩ := List.append_inj' hd rfl
      injection hlast with hlast
      rw [SseFields.add, SseFields.add, SseFields.mk.injEq]
      exact ⟨he, hi, by rw [hd, List.append_cancel_right hlast]⟩

section Blocks

variable {raw raw' : List Char} (h : Blur raw raw')
include h

theorem parseEvent_eq_none_blur : parseEvent raw = none ↔ parseEvent raw' = none := by
  rw [parseEvent_eq, parseEvent_eq, SseFields.toEvent_eq_none_iff, SseFields.toEvent_eq_none_iff]
  exact (fieldsOf_blur h).eq_empty_iff

theorem parseEvent_between {raw'' : List Char} (h' : Blur raw' raw'')
    (heq : parseEvent raw = parseEvent raw'') : parseEvent raw = parseEvent raw' := by
  have hends : fieldsOf raw = fieldsOf raw'' := (fieldsOf_blur (h.trans h')).eq_of_toEvent_eq heq
  have hfields := (fieldsOf_blur h).eq_of_between (fieldsOf_blur h') hends
  rw [parseEvent_eq, parseEvent_eq, hfields]

/-- A blur that does not show does not show with a line break behind it. -/
theorem parseEvent_newline_blur (heq : parseEvent raw = parseEvent raw') :
    parseEvent (raw ++ ['\n']) = parseEvent (raw' ++ ['\n']) := by
  have hfields : fieldsOf raw = fieldsOf raw' := (fieldsOf_blur h).eq_of_toEvent_eq heq
  have hlast := lastLine_blur h
  rw [fieldsOf_eq, fieldsOf_eq] at hfields
  rw [parseEvent_eq, parseEvent_eq, fieldsOf_newline, fieldsOf_newline]
  refine congrArg SseFields.toEvent ?_
  generalize lastLine raw = last at hlast hfields ⊢
  generalize lastLine raw' = last' at hlast hfields ⊢
  by_cases hcr : last.getLast? = some '\r'
  · obtain ⟨start, rfl⟩ := List.getLast?_eq_some_iff.mp hcr
    obtain ⟨start', rest, rfl, hstart, hrest⟩ := hlast.append_left
    obtain ⟨rest, rfl, hnil⟩ := hrest.ascii_left (by decide)
    obtain rfl := hnil.nil_left
    rw [stripCr_append, stripCr_append]
    by_cases hne : start = []
    · subst hne
      obtain rfl := hstart.nil_left
      -- Alone on its line it is data, and without it there is no line.
      have hdata : (closedFields raw).add (.data ['\r']) = (closedFields raw').add (.data ['\r']) :=
        hfields
      have hclosed : closedFields raw = closedFields raw' := by
        generalize closedFields raw = f at hdata ⊢
        generalize closedFields raw' = g at hdata ⊢
        obtain ⟨event, id, dataLines⟩ := f
        obtain ⟨event', id', dataLines'⟩ := g
        simpa [SseFields.add] using hdata
      rw [hclosed]
    · have hne' : start' ≠ [] := by
        rintro rfl
        exact hne hstart.nil_right
      rw [sseLine_append_cr hne, sseLine_append_cr hne'] at hfields
      exact add_eq_of_map_eq (sseLine_blur hstart) hfields
  · have hcr' : ¬ last'.getLast? = some '\r' :=
      fun h' => hcr ((hlast.getLast?_iff (by decide)).mpr h')
    rw [stripCr, stripCr, if_neg hcr, if_neg hcr']
    exact hfields

end Blocks

end Pandaria.Ai
