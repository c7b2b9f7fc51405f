import Mathlib.Data.List.Basic

/-!
# Templates

A template is text with tags in it, and a tag begins with a brace and one of
three marks. What an engine makes of tags is its own affair. Of text it is known
that it renders to itself, alone and on a new line after any template; this is
all that `RendersText` says, so what holds of every such engine holds whatever
tags mean.

`tail` is the engine that makes the least of a template: it drops everything
that comes before the last tag has begun.
-/

namespace Pandaria.Lib.Template

/-! ## Where tags begin -/

def isMark (c : Char) : Bool := c = '{' || c = '%' || c = '#'

/-- A tag begins in the text. -/
def opens : List Char → Bool
  | c :: d :: rest => (c = '{' && isMark d) || opens (d :: rest)
  | _ => false

attribute [local simp] opens

theorem opens_cons_of_ne {c : Char} (hc : c ≠ '{') (cs : List Char) :
    opens (c :: cs) = opens cs := by
  cases cs with
  | nil => rfl
  | cons d rest => rw [opens, decide_eq_false hc, Bool.false_and, Bool.false_or]

theorem opens_cons {cs : List Char} (h : opens cs = true) (c : Char) : opens (c :: cs) = true := by
  cases cs with
  | nil => cases h
  | cons d rest => rw [opens, h, Bool.or_true]

theorem opens_append_right {ys : List Char} (h : opens ys = true) (xs : List Char) :
    opens (xs ++ ys) = true := by
  induction xs with
  | nil => exact h
  | cons c xs ih => exact opens_cons ih c

/-- Text without a brace adds nothing. -/
theorem opens_append_of_not_mem {xs : List Char} (h : '{' ∉ xs) (ys : List Char) :
    opens (xs ++ ys) = opens ys := by
  induction xs with
  | nil => rfl
  | cons c xs ih =>
      rw [List.mem_cons, not_or] at h
      rw [List.cons_append, opens_cons_of_ne (Ne.symm h.1), ih h.2]

/-- No tag begins across a character that is not a mark. -/
theorem opens_append_cons (xs : List Char) {y : Char} (hy : isMark y = false) (ys : List Char) :
    opens (xs ++ y :: ys) = (opens xs || opens (y :: ys)) := by
  induction xs with
  | nil => rfl
  | cons c xs ih =>
      cases xs with
      | nil => rw [List.cons_append, List.nil_append, opens, hy, Bool.and_false]; rfl
      | cons d rest =>
          rw [List.cons_append, List.cons_append, opens, opens, Bool.or_assoc, ← ih]
          rfl

/-! ## Engines -/

variable {γ ε : Type _}

structure RendersText (render : String → γ → Except ε String) : Prop where
  alone : ∀ text ctx, opens text.toList = false → render text ctx = .ok text
  after : ∀ template text ctx r, render template ctx = .ok r → opens text.toList = false →
    render (template ++ ("\n" ++ text)) ctx = .ok (r ++ ("\n" ++ text))

/-- The longest end of a text in which no tag begins. -/
def plainTail : List Char → List Char
  | [] => []
  | c :: cs => if opens (c :: cs) then plainTail cs else c :: cs

attribute [local simp] plainTail

theorem plainTail_of_not {cs : List Char} (h : opens cs = false) : plainTail cs = cs := by
  cases cs with
  | nil => rfl
  | cons c cs => rw [plainTail, h]; rfl

theorem length_plainTail_le (cs : List Char) : (plainTail cs).length ≤ cs.length := by
  induction cs with
  | nil => exact Nat.le_refl _
  | cons c cs ih =>
      rw [plainTail]
      split
      · exact Nat.le_succ_of_le ih
      · exact Nat.le_refl _

theorem length_plainTail_lt {cs : List Char} (h : opens cs = true) :
    (plainTail cs).length < cs.length := by
  cases cs with
  | nil => cases h
  | cons c cs =>
      rw [plainTail, if_pos h]
      exact Nat.lt_succ_of_le (length_plainTail_le cs)

theorem plainTail_append_of_opens {ys : List Char} (h : opens ys = true) (xs : List Char) :
    plainTail (xs ++ ys) = plainTail ys := by
  induction xs with
  | nil => rfl
  | cons c xs ih =>
      rw [List.cons_append, plainTail, if_pos (opens_cons (opens_append_right h xs) c)]
      exact ih

theorem plainTail_append_line {text : List Char} (h : opens text = false) (xs : List Char) :
    plainTail (xs ++ '\n' :: text) = plainTail xs ++ '\n' :: text := by
  have hline : opens ('\n' :: text) = false := (opens_cons_of_ne (by decide) text).trans h
  induction xs with
  | nil => exact plainTail_of_not hline
  | cons c xs ih =>
      have hsame : opens (c :: xs ++ '\n' :: text) = opens (c :: xs) := by
        rw [opens_append_cons (c :: xs) (by decide), hline, Bool.or_false]
      rw [List.cons_append, plainTail, plainTail, ← List.cons_append, hsame]
      split
      · exact ih
      · rfl

def tail (template : String) (_ : γ) : Except ε String :=
  .ok (String.ofList (plainTail template.toList))

theorem rendersText_tail : RendersText (tail : String → γ → Except ε String) := by
  constructor
  · intro text ctx h
    rw [tail, plainTail_of_not h, String.ofList_toList]
  · intro template text ctx r hr h
    injection hr with hr
    subst hr
    have hline : ("\n" ++ text).toList = '\n' :: text.toList := by
      rw [String.toList_append]
      rfl
    rw [tail, String.toList_append, hline, plainTail_append_line h, String.ofList_append, ← hline,
      String.ofList_toList]

end Pandaria.Lib.Template
