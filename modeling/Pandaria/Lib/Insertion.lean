import Mathlib.Data.List.InsertIdx
import Mathlib.Data.List.Sort

/-!
# Insertions behind the elements of a list

Some elements of a list want others right behind them. The wishes are collected from
the front, each with the index of its element, sorted by falling index and carried out
one after the other. Working from the back keeps the indices valid; a sort that is
stable leaves the wishes of one element in their order, and each of them is put
before the one carried out last (`insertBehind_eq`).
-/

namespace Pandaria.Lib

variable {α γ : Type}

/-- The wishes of each element, with its index; the first element has index `n`. -/
def wishes (wanted : α → List γ) (n : Nat) (xs : List α) : List (Nat × γ) :=
  (xs.zipIdx n).flatMap fun p => (wanted p.1).map fun c => (p.2, c)

def insertBehind (make : Nat × γ → α) (items : List (Nat × γ)) (xs : List α) : List α :=
  (items.insertionSort fun a b => b.1 ≤ a.1).foldl
    (fun ys c => ys.insertIdx (c.1 + 1) (make c)) xs

section

variable {r : α → α → Prop} [DecidableRel r]

theorem orderedInsert_between {a : α} {l l' : List α} (h : ∀ b ∈ l, ¬ r a b)
    (h' : ∀ b ∈ l', r a b) : List.orderedInsert r a (l ++ l') = l ++ a :: l' := by
  induction l with
  | nil =>
      cases l' with
      | nil => rfl
      | cons b l' => exact List.orderedInsert_cons_of_le r l' (h' b List.mem_cons_self)
  | cons b l ih =>
      rw [List.cons_append, List.orderedInsert_of_not_le r _ (h b List.mem_cons_self),
        ih fun c hc => h c (List.mem_cons_of_mem _ hc)]
      rfl

/-- What goes behind all the rest comes to stand there in its order. -/
theorem insertionSort_append {l l' : List α} (h : ∀ a ∈ l, ∀ b ∈ l', ¬ r a b)
    (hl : ∀ a ∈ l, ∀ b ∈ l, r a b) :
    (l ++ l').insertionSort r = l'.insertionSort r ++ l := by
  induction l with
  | nil => exact (List.append_nil _).symm
  | cons a l ih =>
      have hrest := ih (fun b hb => h b (List.mem_cons_of_mem _ hb))
        fun b hb c hc => hl b (List.mem_cons_of_mem _ hb) c (List.mem_cons_of_mem _ hc)
      rw [List.cons_append, List.insertionSort_cons, hrest]
      refine orderedInsert_between ?_ ?_
      · intro b hb
        exact h a List.mem_cons_self b ((List.mem_insertionSort r).mp hb)
      · intro b hb
        exact hl a List.mem_cons_self b (List.mem_cons_of_mem _ hb)

end

theorem flatMap_zipIdx {β : Type} (f : α → List β) (xs : List α) :
    xs.flatMap f = xs.zipIdx.flatMap fun p => f p.1 := by
  have h : (xs.zipIdx.map Prod.fst).flatMap f = xs.zipIdx.flatMap fun p => f p.1 :=
    List.flatMap_map _ _ _
  rw [List.zipIdx_map_fst] at h
  exact h

theorem wishes_cons (wanted : α → List γ) (n : Nat) (x : α) (xs : List α) :
    wishes wanted n (x :: xs) = (wanted x).map (fun c => (n, c)) ++ wishes wanted (n + 1) xs := by
  rw [wishes, List.zipIdx_cons, List.flatMap_cons]
  rfl

/-- The wishes that are granted, each element's own. -/
theorem filter_wishes (wanted : α → List γ) (p : γ → Bool) (n : Nat) (xs : List α) :
    (wishes wanted n xs).filter (fun c => p c.2) =
      wishes (fun x => (wanted x).filter p) n xs := by
  rw [wishes, wishes, List.filter_flatMap]
  congr 1
  funext q
  exact List.filter_map

theorem map_wishes (wanted : α → List γ) (n : Nat) (xs : List α) :
    (wishes wanted n xs).map Prod.snd = xs.flatMap wanted := by
  induction xs generalizing n with
  | nil => rfl
  | cons x xs ih =>
      rw [wishes_cons, List.map_append, ih, List.flatMap_cons, List.map_map]
      exact congrArg (· ++ xs.flatMap wanted) (List.map_id _)

theorem le_of_mem_wishes {wanted : α → List γ} {n : Nat} {xs : List α} {c : Nat × γ}
    (h : c ∈ wishes wanted n xs) : n ≤ c.1 := by
  induction xs generalizing n with
  | nil => cases h
  | cons x xs ih =>
      rw [wishes_cons, List.mem_append, List.mem_map] at h
      obtain ⟨c', -, rfl⟩ | h := h
      · exact Nat.le_refl n
      · have := ih h
        omega

theorem insertIdx_behind (xs : List α) (x : α) (ys : List α) (a : α) :
    (xs ++ x :: ys).insertIdx (xs.length + 1) a = xs ++ x :: a :: ys := by
  induction xs with
  | nil => rfl
  | cons b xs ih =>
      rw [List.cons_append, List.length_cons, List.insertIdx_succ_cons, ih]
      rfl

/-- The wishes of one element, carried out one after the other. -/
theorem foldl_insertIdx (make : Nat × γ → α) (cs : List γ) (xs : List α) (x : α) (ys : List α) :
    (cs.map fun c => (xs.length, c)).foldl (fun ys c => ys.insertIdx (c.1 + 1) (make c))
        (xs ++ x :: ys) =
      xs ++ x :: ((cs.map fun c => make (xs.length, c)).reverse ++ ys) := by
  induction cs generalizing ys with
  | nil => rfl
  | cons c cs ih =>
      rw [List.map_cons, List.foldl_cons, insertIdx_behind, ih, List.map_cons, List.reverse_cons,
        List.append_assoc]
      rfl

theorem insertBehind_append (wanted : α → List γ) (make : Nat × γ → α) (pre xs : List α) :
    insertBehind make (wishes wanted pre.length xs) (pre ++ xs) =
      pre ++ (xs.zipIdx pre.length).flatMap fun p =>
        p.1 :: ((wanted p.1).map fun c => make (p.2, c)).reverse := by
  induction xs generalizing pre with
  | nil => rfl
  | cons x xs ih =>
      have hrest := ih (pre ++ [x])
      rw [List.length_append, List.length_singleton, List.append_assoc, List.singleton_append,
        insertBehind] at hrest
      have hsort : (wishes wanted pre.length (x :: xs)).insertionSort (fun a b => b.1 ≤ a.1) =
          (wishes wanted (pre.length + 1) xs).insertionSort (fun a b => b.1 ≤ a.1) ++
            (wanted x).map fun c => (pre.length, c) := by
        rw [wishes_cons]
        apply insertionSort_append
        · intro a ha b hb
          obtain ⟨c, -, rfl⟩ := List.mem_map.mp ha
          have := le_of_mem_wishes hb
          simp only []
          omega
        · intro a ha b hb
          obtain ⟨c, -, rfl⟩ := List.mem_map.mp ha
          obtain ⟨c', -, rfl⟩ := List.mem_map.mp hb
          exact Nat.le_refl _
      rw [insertBehind, hsort, List.foldl_append, hrest, List.append_assoc,
        List.singleton_append, foldl_insertIdx, List.zipIdx_cons, List.flatMap_cons]
      rfl

/-- Every element is followed by what it wants, the last wish first. -/
theorem insertBehind_eq (wanted : α → List γ) (make : Nat × γ → α) (xs : List α) :
    insertBehind make (wishes wanted 0 xs) xs =
      xs.zipIdx.flatMap fun p => p.1 :: ((wanted p.1).map fun c => make (p.2, c)).reverse :=
  insertBehind_append wanted make [] xs

end Pandaria.Lib
