import Mathlib.Data.List.Basic
import Mathlib.Data.List.Count
import Mathlib.Data.List.Nodup
import Mathlib.Data.List.TakeWhile

/-!
# Rounds and their answers

A list some of whose elements open a round, with the keys the round asks for,
and some of which answer a key. The list is paired when every round, which
lasts until the next one is opened, answers each of its keys exactly once and
in their order. Other elements, and answers to keys that were not asked for,
may stand anywhere.
-/

namespace Pandaria.Lib

variable {α κ : Type _}

/-! ## Rounds -/

section Rounds

variable (opens : α → Option (List κ))

/-- What comes before the next round is opened. -/
def round (xs : List α) : List α := xs.takeWhile fun x => (opens x).isNone

/-- The keys of the round that is open at the end. -/
def lastKeys (xs : List α) : List κ := (xs.reverse.findSome? opens).getD []

variable {opens}

theorem round_eq_self {xs : List α} (h : ∀ x ∈ xs, opens x = none) : round opens xs = xs :=
  List.takeWhile_eq_self_iff.mpr fun x hx => by simp [h x hx]

/-- A round that is closed within `xs` is not changed by what follows, and one
that is open at its end goes on into what follows. -/
theorem round_append (xs ys : List α) :
    round opens (xs ++ ys) =
      if ∀ x ∈ xs, opens x = none then xs ++ round opens ys else round opens xs := by
  unfold round
  induction xs with
  | nil => simp
  | cons x xs ih =>
      rw [List.cons_append, List.takeWhile_cons]
      cases hx : opens x with
      | some keys => simp [hx]
      | none =>
          rw [if_pos (by simp), ih]
          by_cases hall : ∀ x ∈ xs, opens x = none
          · rw [if_pos hall, if_pos (by simpa [hx] using hall)]
            rfl
          · rw [if_neg hall, if_neg (by simpa [hx] using hall), List.takeWhile_cons, hx]
            simp

theorem lastKeys_of_open {pre post : List α} {x : α} {keys : List κ} (hx : opens x = some keys)
    (hpost : ∀ y ∈ post, opens y = none) : lastKeys opens (pre ++ x :: post) = keys := by
  have hnone : post.reverse.findSome? opens = none :=
    List.findSome?_eq_none_iff.mpr fun y hy => hpost y (List.mem_reverse.mp hy)
  simp [lastKeys, List.findSome?_append, hnone, hx]

end Rounds

/-! ## Pairing -/

section Pairing

variable [DecidableEq κ] (opens : α → Option (List κ)) (answers : α → Option κ)

/-- Each key is answered exactly once, and the answers come in the order of
the keys. -/
def Answered (keys : List κ) (xs : List α) : Prop :=
  (∀ k ∈ keys, (xs.filterMap answers).count k = 1) ∧
    ((xs.filterMap answers).filter fun k => decide (k ∈ keys)).Sublist keys

def Paired (xs : List α) : Prop :=
  ∀ pre x post keys, xs = pre ++ x :: post → opens x = some keys →
    Answered answers keys (round opens post)

/-- The elements may follow `xs`: none of them answers a key of the round that
is open there before a new one is opened. -/
def Fits (xs ys : List α) : Prop :=
  Paired opens answers ys ∧ ∀ y ∈ round opens ys, ∀ k, answers y = some k → k ∉ lastKeys opens xs

variable {opens answers}

theorem paired_nil : Paired opens answers [] := by
  intro pre x post keys h
  simp at h

theorem fits_nil (xs : List α) : Fits opens answers xs [] :=
  ⟨paired_nil, fun y hy => by simp [round] at hy⟩

/-- Elements that answer nothing that is asked for change no answer. -/
theorem Answered.append {keys : List κ} {xs ys : List α} (h : Answered answers keys xs)
    (hys : ∀ y ∈ ys, ∀ k, answers y = some k → k ∉ keys) : Answered answers keys (xs ++ ys) := by
  have hnone : ∀ k ∈ ys.filterMap answers, k ∉ keys := by
    intro k hk
    obtain ⟨y, hy, hyk⟩ := List.mem_filterMap.mp hk
    exact hys y hy k hyk
  refine ⟨fun k hk => ?_, ?_⟩
  · have hzero : (ys.filterMap answers).count k = 0 :=
      List.count_eq_zero.mpr fun hmem => hnone k hmem hk
    rw [List.filterMap_append, List.count_append, h.1 k hk, hzero]
  · have hnil : (ys.filterMap answers).filter (fun k => decide (k ∈ keys)) = [] :=
      List.filter_eq_nil_iff.mpr fun k hk => by simpa using hnone k hk
    rw [List.filterMap_append, List.filter_append, hnil, List.append_nil]
    exact h.2

/-- Paired lists that fit together are paired together. -/
theorem Paired.append {xs ys : List α} (h : Paired opens answers xs)
    (hys : Fits opens answers xs ys) : Paired opens answers (xs ++ ys) := by
  intro pre x post keys heq hx
  rcases List.append_eq_append_iff.mp heq with ⟨mid, rfl, hmid⟩ | ⟨mid, rfl, hmid⟩
  · exact hys.1 mid x post keys hmid hx
  · cases mid with
    | nil =>
        rw [List.nil_append] at hmid
        exact hys.1 [] x post keys hmid.symm hx
    | cons y mid =>
        injection hmid with h1 h2
        subst h1 h2
        have hmine := h pre x mid keys rfl hx
        show Answered answers keys (round opens (mid ++ ys))
        rw [round_append]
        split
        · next hall =>
            rw [round_eq_self hall] at hmine
            refine hmine.append fun y hy k hk => ?_
            have := hys.2 y hy k hk
            rwa [lastKeys_of_open hx hall] at this
        · exact hmine

/-- A round with its answers, in the order of its keys. -/
theorem paired_round {x : α} {ys : List α} {keys : List κ} (hx : opens x = some keys)
    (hkeys : keys.Nodup) (hopen : ∀ y ∈ ys, opens y = none)
    (hys : ys.filterMap answers = keys) : Paired opens answers (x :: ys) := by
  intro pre z post keys' heq hz
  cases pre with
  | nil =>
      injection heq with h1 h2
      subst h1 h2
      rw [hx] at hz
      injection hz with hz
      subst hz
      rw [round_eq_self hopen]
      refine ⟨fun k hk => ?_, ?_⟩
      · rw [hys]
        exact List.count_eq_one_of_mem hkeys hk
      · rw [hys]
        exact List.filter_sublist
  | cons p pre =>
      injection heq with h1 h2
      have := hopen z (by rw [h2]; simp)
      rw [this] at hz
      cases hz

/-- A new round fits anywhere. -/
theorem Paired.fits_of_opens {xs ys : List α} {x : α} {keys : List κ} (hx : opens x = some keys)
    (h : Paired opens answers (x :: ys)) : Fits opens answers xs (x :: ys) :=
  ⟨h, fun y hy => by simp [round, hx] at hy⟩

end Pairing

end Pandaria.Lib
