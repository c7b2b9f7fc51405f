import Mathlib.Data.List.Nodup
import Mathlib.Data.List.Perm.Basic

/-!
# Keyed tables

What a database table with a primary key and a hash map have in common: rows
found by a key that no two of them share. There is one write, which replaces
the row of its key or adds it, and a selection reads the keys of the rows that
satisfy a predicate. The order of the rows is that in which their keys first
appeared; what a reader without an `ORDER BY` may rely on is the selection up
to a permutation, and `select_perm` is the rule for that.
-/

namespace Pandaria.Lib

variable {κ β γ : Type _}

structure Table (κ β : Type _) where
  rows : List (κ × β)
  unique : (rows.map Prod.fst).Nodup

namespace Table

def empty : Table κ β := ⟨[], List.nodup_nil⟩

/-- The keys of the rows that satisfy `p`. -/
def select (t : Table κ β) (p : κ → β → Bool) : List κ :=
  (t.rows.filter fun r => p r.1 r.2).map Prod.fst

theorem nodup_select (t : Table κ β) (p : κ → β → Bool) : (t.select p).Nodup :=
  t.unique.sublist (List.filter_sublist.map Prod.fst)

/-- Two selections agree up to order when they agree on every key. -/
theorem select_perm {t : Table κ β} {u : Table κ γ} {p : κ → β → Bool} {q : κ → γ → Bool}
    (h : ∀ k, k ∈ t.select p ↔ k ∈ u.select q) : (t.select p).Perm (u.select q) :=
  (List.perm_ext_iff_of_nodup (nodup_select t p) (nodup_select u q)).mpr h

variable [DecidableEq κ]

def get? (t : Table κ β) (k : κ) : Option β :=
  (t.rows.find? fun r => r.1 = k).map Prod.snd

/-- The rows with that of `k` rewritten by `f`, or added. -/
def alter (k : κ) (f : Option β → β) : List (κ × β) → List (κ × β)
  | [] => [(k, f none)]
  | r :: rs => if r.1 = k then (k, f (some r.2)) :: rs else r :: alter k f rs

attribute [local simp] alter

theorem mem_keys_alter {k j : κ} {f : Option β → β} {rs : List (κ × β)} :
    j ∈ (alter k f rs).map Prod.fst ↔ j = k ∨ j ∈ rs.map Prod.fst := by
  induction rs with
  | nil => simp [alter]
  | cons r rs ih =>
      rw [alter]
      split
      · next hr => simp [hr]
      · rw [List.map_cons, List.mem_cons, ih, List.map_cons, List.mem_cons]
        exact or_left_comm

theorem nodup_alter {k : κ} {f : Option β → β} {rs : List (κ × β)}
    (h : (rs.map Prod.fst).Nodup) : ((alter k f rs).map Prod.fst).Nodup := by
  induction rs with
  | nil => exact List.nodup_singleton k
  | cons r rs ih =>
      rw [List.map_cons, List.nodup_cons] at h
      rw [alter]
      split
      · next hr =>
          rw [List.map_cons, List.nodup_cons, ← hr]
          exact h
      · next hr =>
          rw [List.map_cons, List.nodup_cons, mem_keys_alter]
          exact ⟨fun hm => hm.elim hr h.1, ih h.2⟩

def upsert (t : Table κ β) (k : κ) (f : Option β → β) : Table κ β :=
  ⟨alter k f t.rows, nodup_alter t.unique⟩

theorem length_alter {k : κ} {f : Option β → β} {rs : List (κ × β)} :
    (alter k f rs).length = rs.length + if k ∈ rs.map Prod.fst then 0 else 1 := by
  induction rs with
  | nil => rfl
  | cons r rs ih =>
      rw [alter]
      by_cases hr : r.1 = k
      · simp [hr]
      · have hr' : k ≠ r.1 := fun e => hr e.symm
        rw [if_neg hr, List.length_cons, ih, List.map_cons, List.length_cons]
        simp only [List.mem_cons, hr', false_or]
        omega

theorem find?_alter {k j : κ} {f : Option β → β} {rs : List (κ × β)} :
    ((alter k f rs).find? fun r => r.1 = j).map Prod.snd =
      if j = k then some (f ((rs.find? fun r => r.1 = k).map Prod.snd))
      else (rs.find? fun r => r.1 = j).map Prod.snd := by
  induction rs with
  | nil =>
      by_cases h : j = k
      · simp [alter, h]
      · have h' : k ≠ j := fun e => h e.symm
        simp [alter, h, h']
  | cons r rs ih =>
      rw [alter]
      by_cases hr : r.1 = k
      · by_cases h : j = k
        · simp [hr, h]
        · have h' : k ≠ j := fun e => h e.symm
          simp [hr, h, h']
      · by_cases h : r.1 = j
        · have h' : j ≠ k := fun e => hr (h.trans e)
          rw [if_neg hr, if_neg h']
          simp [h]
        · simp only [hr, if_false]
          rw [List.find?_cons_of_neg (by simpa using h), ih,
            List.find?_cons_of_neg (by simpa using hr),
            List.find?_cons_of_neg (by simpa using h)]

theorem alter_congr {k : κ} {f g : Option β → β} {rs : List (κ × β)}
    (h : f ((rs.find? fun r => r.1 = k).map Prod.snd) =
      g ((rs.find? fun r => r.1 = k).map Prod.snd)) : alter k f rs = alter k g rs := by
  induction rs with
  | nil => exact congrArg (fun b => [(k, b)]) h
  | cons r rs ih =>
      rw [alter, alter]
      by_cases hr : r.1 = k
      · rw [List.find?_cons_of_pos (by simpa using hr)] at h
        rw [if_pos hr, if_pos hr]
        exact congrArg (fun b => (k, b) :: rs) h
      · rw [List.find?_cons_of_neg (by simpa using hr)] at h
        rw [if_neg hr, if_neg hr, ih h]

/-- A write depends on what its key held alone. -/
theorem upsert_congr {t : Table κ β} {k : κ} {f g : Option β → β}
    (h : f (t.get? k) = g (t.get? k)) : t.upsert k f = t.upsert k g := by
  have hrows : alter k f t.rows = alter k g t.rows := alter_congr h
  rw [upsert, upsert]
  simp only [hrows]

@[simp]
theorem get?_upsert (t : Table κ β) (k j : κ) (f : Option β → β) :
    (t.upsert k f).get? j = if j = k then some (f (t.get? k)) else t.get? j :=
  find?_alter

theorem get?_eq_some {t : Table κ β} {k : κ} {b : β} : t.get? k = some b ↔ (k, b) ∈ t.rows := by
  obtain ⟨rows, hu⟩ := t
  show (rows.find? fun r => r.1 = k).map Prod.snd = some b ↔ (k, b) ∈ rows
  induction rows with
  | nil => simp
  | cons r rs ih =>
      obtain ⟨l, c⟩ := r
      rw [List.map_cons, List.nodup_cons] at hu
      by_cases hl : l = k
      · subst hl
        rw [List.find?_cons_of_pos (by simp), List.mem_cons]
        constructor
        · intro h
          injection h with h
          subst h
          exact .inl rfl
        · rintro (h | h)
          · injection h with _ h
            subst h
            rfl
          · exact absurd (List.mem_map_of_mem h) hu.1
      · rw [List.find?_cons_of_neg (by simpa using hl), ih hu.2, List.mem_cons]
        constructor
        · exact .inr
        · rintro (h | h)
          · injection h with h _
            exact absurd h.symm hl
          · exact h

theorem mem_select {t : Table κ β} {p : κ → β → Bool} {k : κ} :
    k ∈ t.select p ↔ ∃ b, t.get? k = some b ∧ p k b = true := by
  rw [select, List.mem_map]
  constructor
  · rintro ⟨⟨l, b⟩, hm, rfl⟩
    rw [List.mem_filter] at hm
    exact ⟨b, get?_eq_some.mpr hm.1, hm.2⟩
  · rintro ⟨b, hb, hp⟩
    exact ⟨(k, b), List.mem_filter.mpr ⟨get?_eq_some.mp hb, hp⟩, rfl⟩

theorem mem_keys_iff {t : Table κ β} {k : κ} :
    k ∈ t.rows.map Prod.fst ↔ (t.get? k).isSome = true := by
  rw [Option.isSome_iff_exists, List.mem_map]
  constructor
  · rintro ⟨⟨l, b⟩, hm, rfl⟩
    exact ⟨b, get?_eq_some.mpr hm⟩
  · rintro ⟨b, hb⟩
    exact ⟨(k, b), get?_eq_some.mp hb, rfl⟩

/-- What is nothing away from one key is what it is at that key. -/
theorem flatMap_of_get? {t : Table κ β} {k : κ} {b : β} (hb : t.get? k = some b)
    {f : κ × β → List γ} (h : ∀ r ∈ t.rows, r.1 ≠ k → f r = []) : t.rows.flatMap f = f (k, b) := by
  obtain ⟨before, after, hrows⟩ := List.append_of_mem (get?_eq_some.mp hb)
  have hu := t.unique
  rw [hrows, List.map_append, List.map_cons, List.nodup_middle, List.nodup_cons] at hu
  have haway (r : κ × β) (hr : r ∈ before ++ after) : f r = [] := by
    refine h r ?_ ?_
    · rw [hrows, List.mem_append, List.mem_cons]
      exact (List.mem_append.mp hr).imp_right .inr
    · rintro rfl
      have hmem : r.1 ∈ (before ++ after).map Prod.fst := List.mem_map_of_mem hr
      rw [List.map_append] at hmem
      exact hu.1 hmem
  rw [hrows, List.flatMap_append, List.flatMap_cons,
    List.flatMap_eq_nil_iff.mpr fun r hr => haway r (List.mem_append_left _ hr),
    List.flatMap_eq_nil_iff.mpr fun r hr => haway r (List.mem_append_right _ hr)]
  exact List.append_nil _

/-- A write makes the table longer only when its key is new. -/
theorem length_upsert (t : Table κ β) (k : κ) (f : Option β → β) :
    (t.upsert k f).rows.length = t.rows.length + if (t.get? k).isSome then 0 else 1 := by
  rw [upsert, length_alter]
  simp only [mem_keys_iff]

theorem nodup_erase {k : κ} {rs : List (κ × β)} (h : (rs.map Prod.fst).Nodup) :
    ((rs.filter fun r => r.1 ≠ k).map Prod.fst).Nodup :=
  h.sublist (List.filter_sublist.map Prod.fst)

/-- Without the row of `k`. -/
def erase (t : Table κ β) (k : κ) : Table κ β :=
  ⟨t.rows.filter fun r => r.1 ≠ k, nodup_erase t.unique⟩

theorem get?_erase (t : Table κ β) (k j : κ) :
    (t.erase k).get? j = if j = k then none else t.get? j := by
  split
  next h =>
    subst h
    rw [get?, Option.map_eq_none_iff, List.find?_eq_none]
    intro r hr
    simpa using (List.mem_filter.mp hr).2
  next h =>
    rw [get?, get?, erase, List.find?_filter]
    congr 2
    funext r
    by_cases hr : r.1 = j
    · simp [hr, h]
    · simp [hr]

/-! ## Rows that are lists -/

/-- Everything in the rows, whatever the key. -/
def all (t : Table κ (List γ)) : List γ := t.rows.flatMap Prod.snd

/-- `c` behind what the row of `k` holds. -/
def push (t : Table κ (List γ)) (k : κ) (c : γ) : Table κ (List γ) :=
  t.upsert k fun r => r.getD [] ++ [c]

theorem get?_push (t : Table κ (List γ)) (k j : κ) (c : γ) :
    (t.push k c).get? j = if j = k then some ((t.get? k).getD [] ++ [c]) else t.get? j :=
  get?_upsert ..

theorem all_push (t : Table κ (List γ)) (k : κ) (c : γ) : (t.push k c).all.Perm (c :: t.all) := by
  obtain ⟨rows, hu⟩ := t
  show ((alter k (fun r => r.getD [] ++ [c]) rows).flatMap Prod.snd).Perm
    (c :: rows.flatMap Prod.snd)
  clear hu
  induction rows with
  | nil => exact List.Perm.refl _
  | cons r rs ih =>
      rw [alter]
      split
      · rw [List.flatMap_cons, List.flatMap_cons, Option.getD_some, List.append_assoc,
          List.singleton_append]
        exact List.perm_middle
      · rw [List.flatMap_cons, List.flatMap_cons]
        exact (ih.append_left _).trans List.perm_middle

/-- What the row of `k` holds and what the others hold is everything. -/
theorem all_erase (t : Table κ (List γ)) (k : κ) :
    ((t.get? k).getD [] ++ (t.erase k).all).Perm t.all := by
  obtain ⟨rows, hu⟩ := t
  show ((((rows.find? fun r => r.1 = k).map Prod.snd).getD []) ++
    (rows.filter fun r => r.1 ≠ k).flatMap Prod.snd).Perm (rows.flatMap Prod.snd)
  induction rows with
  | nil => exact List.Perm.refl _
  | cons r rs ih =>
      rw [List.map_cons, List.nodup_cons] at hu
      by_cases hr : r.1 = k
      · have hrest : (rs.filter fun r => r.1 ≠ k) = rs := by
          rw [List.filter_eq_self]
          intro r' hr'
          have hne : r'.1 ≠ k := by
            rintro rfl
            exact hu.1 (hr ▸ List.mem_map_of_mem hr')
          exact decide_eq_true hne
        rw [List.find?_cons_of_pos (by simpa using hr), List.filter_cons_of_neg (by simpa using hr),
          hrest]
        exact List.Perm.refl _
      · rw [List.find?_cons_of_neg (by simpa using hr),
          List.filter_cons_of_pos (by simpa using hr), List.flatMap_cons, List.flatMap_cons]
        refine List.Perm.trans ?_ ((ih hu.2).append_left r.2)
        rw [← List.append_assoc, ← List.append_assoc]
        exact List.perm_append_comm.append_right _

end Table

end Pandaria.Lib
