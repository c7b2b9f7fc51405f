import Mathlib.Data.List.Basic
import Mathlib.Data.List.Perm.Basic

/-!
# Threads that share a counter

Any number of threads, each of them somewhere in its program, and a step moves
one of them. What a counter they share holds is a matter of how many threads
stand where, and a step changes two of those numbers by one: the number of
threads at the place it leaves, and at the place it comes to.
-/

namespace Pandaria.Lib

variable {α : Type _} {ts : List α} {i : Nat} {a b : α} {p : α → Bool}

/-- One thread moves from `a` to `b`. -/
theorem countP_set_add (h : ts[i]? = some a) (b : α) (p : α → Bool) :
    (ts.set i b).countP p + (if p a then 1 else 0) = ts.countP p + (if p b then 1 else 0) := by
  induction ts generalizing i with
  | nil => cases h
  | cons t ts ih =>
      cases i with
      | zero =>
          injection h with h
          subst h
          rw [List.set_cons_zero, List.countP_cons, List.countP_cons]
          omega
      | succ i =>
          rw [List.set_cons_succ, List.countP_cons, List.countP_cons]
          have hi := ih h
          omega

/-- A thread that is not where `p` counts it moves to another such place. -/
theorem countP_set_of_not (h : ts[i]? = some a) (ha : p a = false) (hb : p b = false) :
    (ts.set i b).countP p = ts.countP p := by
  have h' := countP_set_add h b p
  rwa [ha, hb] at h'

/-- One more thread, where `p` does not count it. -/
theorem countP_push_of_not (ts : List α) (hb : p b = false) :
    (ts ++ [b]).countP p = ts.countP p := by
  rw [List.countP_append, List.countP_singleton, hb]
  rfl

/-- A thread moves, and `f` reads the same of it before and after. -/
theorem filterMap_set_of_eq {β : Type _} {f : α → Option β} (h : ts[i]? = some a)
    (hab : f b = f a) : (ts.set i b).filterMap f = ts.filterMap f := by
  induction ts generalizing i with
  | nil => cases h
  | cons t ts ih =>
      cases i with
      | zero =>
          injection h with h
          subst h
          rw [List.set_cons_zero, List.filterMap_cons, hab, List.filterMap_cons]
      | succ i => rw [List.set_cons_succ, List.filterMap_cons, ih h, List.filterMap_cons]

/-- A thread comes to where `f` reads something of it. -/
theorem filterMap_set_perm {β : Type _} {f : α → Option β} {x : β} (h : ts[i]? = some a)
    (ha : f a = none) (hb : f b = some x) :
    ((ts.set i b).filterMap f).Perm (x :: ts.filterMap f) := by
  induction ts generalizing i with
  | nil => cases h
  | cons t ts ih =>
      cases i with
      | zero =>
          injection h with h
          subst h
          rw [List.set_cons_zero, List.filterMap_cons_some hb, List.filterMap_cons_none ha]
      | succ i =>
          rw [List.set_cons_succ]
          cases ht : f t with
          | none =>
              rw [List.filterMap_cons_none ht, List.filterMap_cons_none ht]
              exact ih h
          | some y =>
              rw [List.filterMap_cons_some ht, List.filterMap_cons_some ht]
              exact ((ih h).cons y).trans (List.Perm.swap x y _)

/-- One thread leaves. -/
theorem getElem?_cons_eraseIdx_perm (h : ts[i]? = some a) :
    (a :: ts.eraseIdx i).Perm ts := by
  obtain ⟨hi, ha⟩ := List.getElem?_eq_some_iff.mp h
  rw [← ha]
  exact List.getElem_cons_eraseIdx_perm hi

theorem countP_pos_of_getElem? (h : ts[i]? = some a) (ha : p a = true) : 0 < ts.countP p :=
  List.countP_pos_iff.mpr ⟨a, List.mem_of_getElem? h, ha⟩

theorem forall_mem_set {P : α → Prop} (h : ∀ t ∈ ts, P t) (hb : P b) (i : Nat) :
    ∀ t ∈ ts.set i b, P t := by
  intro t ht
  rcases List.mem_or_eq_of_mem_set ht with ht | ht
  · exact h t ht
  · rw [ht]
    exact hb

theorem forall_mem_modify {P : α → Prop} {f : α → α} (h : ∀ t ∈ ts, P t)
    (hf : ∀ t, P t → P (f t)) (i : Nat) : ∀ t ∈ ts.modify i f, P t := by
  intro t ht
  obtain ⟨j, hj⟩ := List.getElem?_of_mem ht
  rw [List.getElem?_modify] at hj
  obtain ⟨u, hu, rfl⟩ := Option.map_eq_some_iff.mp hj
  have hold := h u (List.mem_of_getElem? hu)
  split
  · exact hf u hold
  · exact hold

/-- What holds of the new entry and of all others holds of every entry. -/
theorem forall_getElem?_set {P : Nat → α → Prop} (hself : P i b)
    (hother : ∀ j c, j ≠ i → ts[j]? = some c → P j c) :
    ∀ j c, (ts.set i b)[j]? = some c → P j c := by
  intro j c hj
  by_cases h : i = j
  · subst h
    rw [List.getElem?_set_self'] at hj
    obtain ⟨_, _, hc⟩ := Option.map_eq_some_iff.mp hj
    rw [← hc]
    exact hself
  · rw [List.getElem?_set_ne h] at hj
    exact hother j c (Ne.symm h) hj

/-- An entry of a list with one more is an old one, or the new one. -/
theorem getElem?_push (h : (ts ++ [b])[i]? = some a) :
    ts[i]? = some a ∨ i = ts.length ∧ a = b := by
  by_cases hlt : i < ts.length
  · rw [List.getElem?_append_left hlt] at h
    exact .inl h
  · have hbound := (List.getElem?_eq_some_iff.mp h).1
    rw [List.length_append, List.length_singleton] at hbound
    have hi : i = ts.length := by omega
    rw [hi, List.getElem?_concat_length] at h
    injection h with h
    exact .inr ⟨hi, h.symm⟩

theorem forall_mem_push {P : α → Prop} (h : ∀ t ∈ ts, P t) (hb : P b) : ∀ t ∈ ts ++ [b], P t := by
  intro t ht
  rcases List.mem_append.mp ht with ht | ht
  · exact h t ht
  · rw [List.mem_singleton.mp ht]
    exact hb

end Pandaria.Lib
