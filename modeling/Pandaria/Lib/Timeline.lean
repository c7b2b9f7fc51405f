import Mathlib.Data.List.Basic
import Mathlib.Logic.Function.Iterate

/-!
# Undo and redo

Someone who can be taken back has a past, a present and a future. Going back and
going forth are inverse because neither changes the whole of it, read from the
oldest state to the newest: they only move the present along.
-/

namespace Pandaria.Lib

/-- The last element of either stack is the one next to the present. -/
structure Timeline (α : Type _) where
  past : List α
  now : α
  future : List α

namespace Timeline

variable {α : Type _}

def back (t : Timeline α) : Timeline α :=
  match t.past.getLast? with
  | none => t
  | some s => ⟨t.past.dropLast, s, t.future ++ [t.now]⟩

def forth (t : Timeline α) : Timeline α :=
  match t.future.getLast? with
  | none => t
  | some s => ⟨t.past ++ [t.now], s, t.future.dropLast⟩

/-- From the oldest state to the newest. -/
def whole (t : Timeline α) : List α := t.past ++ t.now :: t.future.reverse

theorem dropLast_append {s : α} {l : List α} (h : l.getLast? = some s) :
    l.dropLast ++ [s] = l := by
  obtain ⟨front, rfl⟩ := List.getLast?_eq_some_iff.mp h
  simp

theorem back_whole (t : Timeline α) : t.back.whole = t.whole := by
  unfold back
  split
  · rfl
  · next s hs =>
    show t.past.dropLast ++ s :: (t.future ++ [t.now]).reverse = t.whole
    rw [List.reverse_concat, List.append_cons, dropLast_append hs]
    rfl

theorem forth_whole (t : Timeline α) : t.forth.whole = t.whole := by
  unfold forth
  split
  · rfl
  · next s hs =>
    show t.past ++ [t.now] ++ s :: t.future.dropLast.reverse = t.whole
    have hrev : t.future.reverse = s :: t.future.dropLast.reverse := by
      rw [← List.reverse_concat, dropLast_append hs]
    rw [whole, hrev, List.append_assoc, List.singleton_append]

theorem back_past_length (t : Timeline α) : t.back.past.length = t.past.length - 1 := by
  unfold back
  split
  · next hs => simp [List.getLast?_eq_none_iff.mp hs]
  · exact List.length_dropLast

theorem forth_future_length (t : Timeline α) :
    t.forth.future.length = t.future.length - 1 := by
  unfold forth
  split
  · next hs => simp [List.getLast?_eq_none_iff.mp hs]
  · exact List.length_dropLast

theorem iterate_back_whole (n : Nat) (t : Timeline α) : (back^[n] t).whole = t.whole := by
  induction n with
  | zero => rfl
  | succ n ih => rw [Function.iterate_succ_apply', back_whole, ih]

theorem iterate_forth_whole (n : Nat) (t : Timeline α) : (forth^[n] t).whole = t.whole := by
  induction n with
  | zero => rfl
  | succ n ih => rw [Function.iterate_succ_apply', forth_whole, ih]

theorem iterate_back_past_length (n : Nat) (t : Timeline α) :
    (back^[n] t).past.length = t.past.length - n := by
  induction n with
  | zero => rfl
  | succ n ih => rw [Function.iterate_succ_apply', back_past_length, ih]; omega

theorem iterate_forth_future_length (n : Nat) (t : Timeline α) :
    (forth^[n] t).future.length = t.future.length - n := by
  induction n with
  | zero => rfl
  | succ n ih => rw [Function.iterate_succ_apply', forth_future_length, ih]; omega

theorem back_future_length (t : Timeline α) :
    t.back.future.length = t.future.length + min 1 t.past.length := by
  unfold back
  split
  · next hs => simp [List.getLast?_eq_none_iff.mp hs]
  · next s hs =>
    have hpos : 0 < t.past.length := List.length_pos_of_mem (List.mem_of_getLast? hs)
    show (t.future ++ [t.now]).length = _
    rw [List.length_append, List.length_singleton]
    omega

/-- What is taken back is kept. -/
theorem iterate_back_future_length (n : Nat) (t : Timeline α) :
    (back^[n] t).future.length = t.future.length + min n t.past.length := by
  induction n with
  | zero => simp
  | succ n ih =>
      rw [Function.iterate_succ_apply', back_future_length, ih, iterate_back_past_length]
      omega

/-- Back until there is no past left. -/
theorem back_all (t : Timeline α) : (back^[t.past.length] t).past = [] := by
  apply List.eq_nil_of_length_eq_zero
  rw [iterate_back_past_length, Nat.sub_self]

theorem forth_all (t : Timeline α) : (forth^[t.future.length] t).future = [] := by
  apply List.eq_nil_of_length_eq_zero
  rw [iterate_forth_future_length, Nat.sub_self]

/-- All the way back is the oldest state. -/
theorem now_back_all {t : Timeline α} {s : α} (h : t.whole.head? = some s) :
    (back^[t.past.length] t).now = s := by
  rw [← iterate_back_whole t.past.length t, whole, back_all] at h
  exact Option.some.inj h

/-- All the way forth is the newest one. -/
theorem now_forth_all {t : Timeline α} {s : α} (h : t.whole.getLast? = some s) :
    (forth^[t.future.length] t).now = s := by
  rw [← iterate_forth_whole t.future.length t, whole, forth_all] at h
  simpa using h

/-- Without a future the present is the newest state. -/
theorem getLast?_whole {t : Timeline α} (h : t.future = []) : t.whole.getLast? = some t.now := by
  simp [whole, h]

end Timeline

end Pandaria.Lib
