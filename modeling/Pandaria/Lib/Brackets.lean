import Mathlib.Data.Multiset.AddSub

/-!
# Brackets with keys

Whoever reads opening and closing brackets keeps the keys that are open, and
refuses a bracket that closes nothing. What is open besides makes no difference
to a sequence that is read without it; so sequences that can be read one by one
can be read mixed, in any way that keeps the order of each.
-/

namespace Pandaria.Lib

inductive Bracket (κ : Type _) where
  | opening (k : κ)
  | closing (k : κ)
deriving DecidableEq

variable {κ α : Type _}

namespace Bracket

variable [DecidableEq κ] {s s' t t' : Multiset κ}

/-- The open keys after one more bracket. -/
def read (s : Multiset κ) : Bracket κ → Option (Multiset κ)
  | opening k => some (k ::ₘ s)
  | closing k => if k ∈ s then some (s.erase k) else none

def readAll (s : Multiset κ) (bs : List (Bracket κ)) : Option (Multiset κ) := bs.foldlM read s

theorem readAll_cons (b : Bracket κ) (bs : List (Bracket κ)) :
    readAll s (b :: bs) = (read s b).bind fun s' => readAll s' bs := rfl

theorem readAll_singleton (b : Bracket κ) : readAll s [b] = read s b := Option.bind_fun_some _

theorem read_closing_singleton (k : κ) : read {k} (closing k) = some 0 :=
  (if_pos (Multiset.mem_singleton_self k)).trans (congrArg some (Multiset.erase_cons_head k 0))

theorem readAll_append (bs cs : List (Bracket κ)) :
    readAll s (bs ++ cs) = (readAll s bs).bind fun s' => readAll s' cs :=
  List.foldlM_append

theorem read_add {b : Bracket κ} (h : read s b = some s') (t : Multiset κ) :
    read (s + t) b = some (s' + t) := by
  cases b with
  | opening k =>
      injection h with h
      rw [read, ← h, Multiset.cons_add]
  | closing k =>
      rw [read] at h
      split at h
      · next hk =>
          injection h with h
          rw [read, if_pos (Multiset.mem_add.mpr (.inl hk)), Multiset.erase_add_left_pos t hk, h]
      · cases h

/-- What is open besides stays open. -/
theorem readAll_add {bs : List (Bracket κ)} (h : readAll s bs = some s') (t : Multiset κ) :
    readAll (s + t) bs = some (s' + t) := by
  induction bs generalizing s with
  | nil =>
      injection h with h
      rw [h]
      rfl
  | cons b bs ih =>
      rw [readAll_cons, Option.bind_eq_some_iff] at h
      obtain ⟨s₁, hb, hbs⟩ := h
      rw [readAll_cons, read_add hb t]
      exact ih hbs

end Bracket

/-! ## Mixtures -/

/-- The third list is made of the first two, in the order of each. -/
inductive Mixed : List α → List α → List α → Prop where
  | nil : Mixed [] [] []
  | left {x : α} {xs ys zs : List α} (h : Mixed xs ys zs) : Mixed (x :: xs) ys (x :: zs)
  | right {y : α} {xs ys zs : List α} (h : Mixed xs ys zs) : Mixed xs (y :: ys) (y :: zs)

/-- The second list is made of the lists in the first. -/
inductive MixedAll : List (List α) → List α → Prop where
  | nil : MixedAll [] []
  | cons {xs ys zs : List α} {xss : List (List α)} (hs : MixedAll xss ys) (h : Mixed xs ys zs) :
      MixedAll (xs :: xss) zs

theorem Mixed.mem_iff {xs ys zs : List α} (h : Mixed xs ys zs) {z : α} :
    z ∈ zs ↔ z ∈ xs ∨ z ∈ ys := by
  induction h with
  | nil => simp
  | left _ ih => rw [List.mem_cons, ih, List.mem_cons, or_assoc]
  | right _ ih => rw [List.mem_cons, ih, List.mem_cons, or_left_comm]

theorem Mixed.filterMap {β : Type _} {xs ys zs : List α} (h : Mixed xs ys zs) (f : α → Option β) :
    Mixed (xs.filterMap f) (ys.filterMap f) (zs.filterMap f) := by
  induction h with
  | nil => exact .nil
  | @left x xs ys zs _ ih =>
      cases hf : f x with
      | none => rwa [List.filterMap_cons_none hf, List.filterMap_cons_none hf]
      | some b =>
          rw [List.filterMap_cons_some hf, List.filterMap_cons_some hf]
          exact ih.left
  | @right y xs ys zs _ ih =>
      cases hf : f y with
      | none => rwa [List.filterMap_cons_none hf, List.filterMap_cons_none hf]
      | some b =>
          rw [List.filterMap_cons_some hf, List.filterMap_cons_some hf]
          exact ih.right

theorem MixedAll.mem_iff {xss : List (List α)} {zs : List α} (h : MixedAll xss zs) {z : α} :
    z ∈ zs ↔ ∃ xs ∈ xss, z ∈ xs := by
  induction h with
  | nil => simp
  | cons _ hmixed ih => rw [hmixed.mem_iff, ih, List.exists_mem_cons_iff]

theorem MixedAll.filterMap {β : Type _} {xss : List (List α)} {zs : List α} (h : MixedAll xss zs)
    (f : α → Option β) : MixedAll (xss.map (List.filterMap f)) (zs.filterMap f) := by
  induction h with
  | nil => exact .nil
  | cons _ hmixed ih => exact .cons ih (hmixed.filterMap f)

namespace Bracket

variable [DecidableEq κ] {s s' t t' : Multiset κ}

/-- Mixed sequences leave open what each of them leaves open. -/
theorem readAll_mixed {bs cs ds : List (Bracket κ)} (h : Mixed bs cs ds)
    (hb : readAll s bs = some s') (hc : readAll t cs = some t') :
    readAll (s + t) ds = some (s' + t') := by
  induction h generalizing s t with
  | nil =>
      injection hb with hb
      injection hc with hc
      rw [hb, hc]
      rfl
  | left _ ih =>
      rw [readAll_cons, Option.bind_eq_some_iff] at hb
      obtain ⟨s₁, hx, hb⟩ := hb
      rw [readAll_cons, read_add hx t]
      exact ih hb hc
  | right _ ih =>
      rw [readAll_cons, Option.bind_eq_some_iff] at hc
      obtain ⟨t₁, hy, hc⟩ := hc
      rw [Multiset.add_comm, readAll_cons, read_add hy s, Multiset.add_comm]
      exact ih hb hc

/-- However many there are: if each closes what it opens, so does the mixture. -/
theorem readAll_mixedAll {bss : List (List (Bracket κ))} {ds : List (Bracket κ)}
    (h : MixedAll bss ds) (hb : ∀ bs ∈ bss, readAll 0 bs = some 0) : readAll 0 ds = some 0 := by
  induction h with
  | nil => rfl
  | cons _ hmixed ih =>
      rw [List.forall_mem_cons] at hb
      exact readAll_mixed hmixed hb.1 (ih hb.2)

end Bracket

end Pandaria.Lib
