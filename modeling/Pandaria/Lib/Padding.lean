import Mathlib.Data.List.Basic

/-!
# Lists with fillers put in

What a pass makes of a list when it leaves every member in place and puts a
filler before some of them. A filler says what it stands before, so the two
kinds of entry stay apart whatever a filler looks like in the end.
-/

namespace Pandaria.Lib

universe u

inductive Padded (α : Type u) where
  | filler (before : α)
  | item (a : α)
deriving DecidableEq

namespace Padded

variable {α : Type u} {bare : α → Bool} {xs ys : List α} {a b c : α}

def isFiller : Padded α → Bool
  | filler _ => true
  | item _ => false

/-- `xs` with a filler before each `bare` member. -/
def pad (bare : α → Bool) (xs : List α) : List (Padded α) :=
  xs.flatMap fun a => (if bare a then [filler a] else []) ++ [item a]

theorem pad_cons :
    pad bare (a :: xs) = (if bare a then [filler a] else []) ++ item a :: pad bare xs := by
  simp [pad, List.flatMap_cons]

theorem pad_append : pad bare (xs ++ ys) = pad bare xs ++ pad bare ys := List.flatMap_append

theorem item_mem_pad : item a ∈ pad bare xs ↔ a ∈ xs := by
  simp only [pad, List.mem_flatMap, List.mem_append, List.mem_singleton, item.injEq]
  constructor
  · rintro ⟨b, hb, h | h⟩
    · split at h <;> simp at h
    · rw [h]
      exact hb
  · intro h
    exact ⟨a, h, Or.inr rfl⟩

theorem filler_mem_pad : filler a ∈ pad bare xs ↔ a ∈ xs ∧ bare a = true := by
  simp only [pad, List.mem_flatMap, List.mem_append, List.mem_singleton]
  constructor
  · rintro ⟨b, hb, h | h⟩
    · split at h
      · next hbare =>
        cases List.mem_singleton.mp h
        exact ⟨hb, hbare⟩
      · simp at h
    · cases h
  · rintro ⟨hmem, hbare⟩
    exact ⟨a, hmem, Or.inl (by simp [hbare])⟩

/-- Nothing is put in exactly where no member is bare. -/
theorem forall_pad_iff :
    (∀ x ∈ pad bare xs, x.isFiller = false) ↔ ∀ a ∈ xs, bare a = false := by
  constructor
  · intro h a ha
    by_contra hbare
    have hfiller := h (filler a) (filler_mem_pad.mpr ⟨ha, by simpa using hbare⟩)
    cases hfiller
  · intro h x hx
    cases x with
    | item a => rfl
    | filler a =>
      obtain ⟨ha, hbare⟩ := filler_mem_pad.mp hx
      rw [h a ha] at hbare
      cases hbare

section Between

variable [DecidableEq α]

/-- What stands after `a` and before `b`. -/
def between (a b : α) (entries : List (Padded α)) : List (Padded α) :=
  ((entries.dropWhile fun x => x ≠ item a).drop 1).takeWhile fun x => x ≠ item b

/-- The entries that come before `a` itself: those of the members before it
and its own filler. -/
theorem ne_item_of_before (h : a ∉ xs) :
    ∀ x ∈ pad bare xs ++ (if bare a then [filler a] else []),
      (decide (x ≠ item a) : Bool) = true := by
  intro x hx
  rw [decide_eq_true_eq]
  intro heq
  rcases List.mem_append.mp hx with hx | hx
  · exact h (item_mem_pad.mp (heq ▸ hx))
  · split at hx
    · rw [List.mem_singleton.mp hx] at heq
      cases heq
    · simp at hx

theorem dropWhile_pad (h : a ∉ xs) :
    ((pad bare (xs ++ a :: ys)).dropWhile fun x => x ≠ item a) = item a :: pad bare ys := by
  rw [pad_append, pad_cons, ← List.append_assoc,
    List.dropWhile_append_of_pos (ne_item_of_before h)]
  simp

theorem takeWhile_pad (h : b ∉ xs) :
    ((pad bare (xs ++ b :: ys)).takeWhile fun x => x ≠ item b) =
      pad bare xs ++ (if bare b then [filler b] else []) := by
  rw [pad_append, pad_cons, ← List.append_assoc,
    List.takeWhile_append_of_pos (ne_item_of_before h)]
  simp

/-- Between two members stand the entries of those between them and the later
one's own filler. -/
theorem between_pad {zs : List α} (ha : a ∉ xs) (hb : b ∉ ys) :
    between a b (pad bare (xs ++ a :: (ys ++ b :: zs))) =
      pad bare ys ++ (if bare b then [filler b] else []) := by
  rw [between, dropWhile_pad ha]
  exact takeWhile_pad hb

theorem forall_between_iff {zs : List α} (ha : a ∉ xs) (hb : b ∉ ys) :
    (∀ x ∈ between a b (pad bare (xs ++ a :: (ys ++ b :: zs))), x.isFiller = false) ↔
      ∀ c ∈ ys ++ [b], bare c = false := by
  rw [between_pad ha hb, List.forall_mem_append, forall_pad_iff, List.forall_mem_append]
  apply and_congr_right
  intro _
  cases hbare : bare b <;> simp [hbare, isFiller]

end Between

end Padded

end Pandaria.Lib
