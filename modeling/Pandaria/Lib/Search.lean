import Mathlib.Data.List.Basic
import Mathlib.Data.List.Infix

/-!
# Searching a list from its end

`rposition` is the last index at which a predicate holds, the mirror image of
`List.findIdx?`. What a caller needs of it is the split it stands for: the
list up to the hit, the hit, and a rest without another one.
-/

namespace Pandaria.Lib

variable {α : Type _}

/-- The index of the last element satisfying `p`. -/
def rposition (p : α → Bool) : List α → Option Nat
  | [] => none
  | x :: xs =>
      match rposition p xs with
      | some i => some (i + 1)
      | none => if p x then some 0 else none

theorem rposition_eq_none {p : α → Bool} {l : List α} :
    rposition p l = none ↔ ∀ x ∈ l, p x = false := by
  induction l with
  | nil => simp [rposition]
  | cons x xs ih =>
      rw [rposition]
      cases hxs : rposition p xs with
      | some i =>
          have hne : ¬ ∀ y ∈ xs, p y = false := by
            rw [← ih, hxs]; simp
          simp only [List.mem_cons, forall_eq_or_imp, reduceCtorEq, false_iff, not_and]
          exact fun _ => hne
      | none =>
          have hall := ih.mp hxs
          cases hp : p x
          · simpa [hp] using hall
          · simp [hp]

/-- The hit of a list taken apart at it. -/
theorem rposition_append_cons {p : α → Bool} {before after : List α} {x : α}
    (hx : p x = true) (h : ∀ y ∈ after, p y = false) :
    rposition p (before ++ x :: after) = some before.length := by
  induction before with
  | nil => simp [rposition, rposition_eq_none.mpr h, hx]
  | cons y ys ih => simp [rposition, ih]

/-- And the other way round: a hit takes the list apart. -/
theorem rposition_eq_some {p : α → Bool} {l : List α} {i : Nat}
    (h : rposition p l = some i) :
    ∃ before x after, l = before ++ x :: after ∧ before.length = i ∧ p x = true ∧
      ∀ y ∈ after, p y = false := by
  induction l generalizing i with
  | nil => simp [rposition] at h
  | cons y ys ih =>
      rw [rposition] at h
      split at h
      · next j hj =>
          obtain ⟨before, x, after, rfl, rfl, hx, hafter⟩ := ih hj
          injection h with h
          exact ⟨y :: before, x, after, rfl, by simpa using h, hx, hafter⟩
      · next hnone =>
          split at h
          · next hy =>
              injection h with h
              exact ⟨[], y, ys, rfl, by simpa using h, hy, rposition_eq_none.mp hnone⟩
          · simp at h

theorem rposition_lt {p : α → Bool} {l : List α} {i : Nat}
    (h : rposition p l = some i) : i < l.length := by
  obtain ⟨before, x, after, rfl, rfl, -, -⟩ := rposition_eq_some h
  simp

end Pandaria.Lib

/-!
## Patterns

A pattern is what it leaves of a list: every rest a match at the front can
have. The combinators are those of regular expressions, of which `many` takes
a class of letters only, and a search tries every place a match can begin at.
-/

namespace Pandaria.Lib

universe u

/-- The rests of the matches at the front of a list. -/
abbrev Matcher (α : Type u) := List α → List (List α)

namespace Matcher

variable {α : Type u} {m m' : Matcher α} {p : α → Bool} {s t w : List α}

def word [DecidableEq α] (w : List α) : Matcher α := fun s =>
  if w.isPrefixOf s then [s.drop w.length] else []

/-- One letter of a class. -/
def one (p : α → Bool) : Matcher α
  | [] => []
  | c :: s => if p c then [s] else []

/-- Any number of letters of a class. -/
def many (p : α → Bool) : Matcher α
  | [] => [[]]
  | c :: s => (c :: s) :: if p c then many p s else []

def seq (m m' : Matcher α) : Matcher α := fun s => (m s).flatMap m'

def alt (m m' : Matcher α) : Matcher α := fun s => m s ++ m' s

def opt (m : Matcher α) : Matcher α := fun s => s :: m s

/-- A match at the front. -/
def front (m : Matcher α) (s : List α) : Bool := !(m s).isEmpty

/-- A match anywhere. -/
def search (m : Matcher α) (s : List α) : Bool := s.tails.any m.front

/-! ### What the matches are -/

theorem mem_word [DecidableEq α] : t ∈ word w s ↔ s = w ++ t := by
  rw [word]
  constructor
  · intro h
    split at h
    · next hw =>
      obtain ⟨rest, rfl⟩ := List.isPrefixOf_iff_prefix.mp hw
      rw [List.drop_left, List.mem_singleton] at h
      rw [h]
    · cases h
  · intro h
    subst h
    rw [if_pos (by simp), List.drop_left]
    exact List.mem_singleton_self t

theorem mem_one : t ∈ one p s ↔ ∃ c, s = c :: t ∧ p c = true := by
  cases s with
  | nil => simp [one]
  | cons c s =>
    rw [one]
    constructor
    · intro h
      split at h
      · next hc =>
        rw [List.mem_singleton] at h
        exact ⟨c, by rw [h], hc⟩
      · cases h
    · rintro ⟨d, h, hd⟩
      cases h
      rw [if_pos hd]
      exact List.mem_singleton_self t

theorem mem_many : t ∈ many p s ↔ ∃ w, s = w ++ t ∧ ∀ c ∈ w, p c = true := by
  induction s with
  | nil =>
    rw [many, List.mem_singleton]
    constructor
    · intro h
      exact ⟨[], h.symm, by simp⟩
    · rintro ⟨w, h, _⟩
      exact (List.append_eq_nil_iff.mp h.symm).2
  | cons c s ih =>
    rw [many, List.mem_cons]
    constructor
    · rintro (h | h)
      · exact ⟨[], h.symm, by simp⟩
      · split at h
        · next hc =>
          obtain ⟨w, hw, hall⟩ := ih.mp h
          refine ⟨c :: w, by rw [hw]; rfl, ?_⟩
          intro d hd
          rcases List.mem_cons.mp hd with rfl | hd
          · exact hc
          · exact hall d hd
        · cases h
    · rintro ⟨w, hw, hall⟩
      cases w with
      | nil => exact Or.inl hw.symm
      | cons d w =>
        obtain ⟨rfl, rfl⟩ := List.cons_eq_cons.mp hw
        rw [if_pos (hall c List.mem_cons_self)]
        exact Or.inr (ih.mpr ⟨w, rfl, fun d hd => hall d (List.mem_cons_of_mem c hd)⟩)

theorem mem_seq : t ∈ seq m m' s ↔ ∃ r ∈ m s, t ∈ m' r := List.mem_flatMap

theorem search_iff :
    m.search s = true ↔ ∃ before after, s = before ++ after ∧ ∃ t, t ∈ m after := by
  rw [search, List.any_eq_true]
  constructor
  · rintro ⟨after, hafter, hfront⟩
    obtain ⟨before, rfl⟩ := (List.mem_tails _ _).mp hafter
    refine ⟨before, after, rfl, List.exists_mem_of_ne_nil _ ?_⟩
    simpa [front] using hfront
  · rintro ⟨before, after, rfl, t, ht⟩
    refine ⟨after, (List.mem_tails _ _).mpr (List.suffix_append before after), ?_⟩
    simpa [front] using List.ne_nil_of_mem ht

/-! ### Words a match contains -/

/-- Every match begins with a stretch that has `w` in it. -/
def Has (m : Matcher α) (w : List α) : Prop := ∀ s t, t ∈ m s → ∃ r, s = r ++ t ∧ w <:+: r

/-- Every match is of a stretch at the front. -/
def Sound (m : Matcher α) : Prop := ∀ s t, t ∈ m s → t <:+ s

theorem sound_word [DecidableEq α] : Sound (word w) :=
  fun _ t h => mem_word.mp h ▸ List.suffix_append w t

theorem sound_one : Sound (one p) := by
  intro s t h
  obtain ⟨c, rfl, _⟩ := mem_one.mp h
  exact List.suffix_cons c t

theorem sound_many : Sound (many p) := by
  intro s t h
  obtain ⟨w, rfl, _⟩ := mem_many.mp h
  exact List.suffix_append w t

theorem Sound.seq (h : Sound m) (h' : Sound m') : Sound (seq m m') := by
  intro s t ht
  obtain ⟨r, hr, hrest⟩ := mem_seq.mp ht
  exact (h' r t hrest).trans (h s r hr)

theorem has_word [DecidableEq α] (h : w <:+: t) : Has (word t) w := by
  intro s r hr
  exact ⟨t, mem_word.mp hr, h⟩

theorem Has.seq_left (h : Has m w) (h' : Sound m') : Has (seq m m') w := by
  intro s t ht
  obtain ⟨r, hr, hrest⟩ := mem_seq.mp ht
  obtain ⟨pre, rfl, hw⟩ := h s r hr
  obtain ⟨mid, rfl⟩ := h' r t hrest
  exact ⟨pre ++ mid, (List.append_assoc _ _ _).symm, hw.trans ⟨[], mid, rfl⟩⟩

theorem Has.seq_right (h : Sound m) (h' : Has m' w) : Has (seq m m') w := by
  intro s t ht
  obtain ⟨r, hr, hrest⟩ := mem_seq.mp ht
  obtain ⟨pre, rfl⟩ := h s r hr
  obtain ⟨mid, rfl, hw⟩ := h' r t hrest
  exact ⟨pre ++ mid, (List.append_assoc _ _ _).symm, hw.trans ⟨pre, [], by simp⟩⟩

/-- A text with a match has the words of every match in it. -/
theorem Has.infix_of_search (h : Has m w) (hs : m.search s = true) : w <:+: s := by
  obtain ⟨before, after, rfl, t, ht⟩ := search_iff.mp hs
  obtain ⟨r, rfl, hw⟩ := h after t ht
  exact hw.trans ⟨before, t, by rw [List.append_assoc]⟩

end Matcher

end Pandaria.Lib

/-!
## Replacing a word

Every occurrence of a word is replaced, from the front and without looking at
what has been put in. Where the word does not begin, nothing changes, and this
is what a caller shows of the text between the occurrences it knows.
-/

namespace Pandaria.Lib

variable {α : Type _} [DecidableEq α] {word new s t : List α}

/-- With the next `n` letters left out, for they belong to an occurrence. -/
def replaceFrom (word new : List α) : Nat → List α → List α
  | _, [] => []
  | 0, c :: s =>
      if word.isPrefixOf (c :: s) then new ++ replaceFrom word new (word.length - 1) s
      else c :: replaceFrom word new 0 s
  | n + 1, _ :: s => replaceFrom word new n s

/-- `s.replace(word, new)`, for a word with letters. -/
def replace (word new s : List α) : List α := replaceFrom word new 0 s

/-- No occurrence begins in `s` when `t` is behind it. -/
def Clear (word s t : List α) : Prop :=
  ∀ before after, s = before ++ after → after ≠ [] → ¬ word <+: after ++ t

omit [DecidableEq α] in
theorem Clear.tail {c : α} (h : Clear word (c :: s) t) : Clear word s t := by
  intro before after hs hne
  exact h (c :: before) after (congrArg (c :: ·) hs) hne

end Pandaria.Lib
