import Mathlib.Data.Finset.Lattice.Lemmas
import Mathlib.Data.Finset.SDiff
import Mathlib.Data.List.Nodup
import Mathlib.Data.List.Perm.Basic

/-!
# Jobs that wait for other jobs

A job is ready once enough other jobs are done, and what is ready stays ready
when more is done; nothing else is said of what a job waits for. Then all jobs can
be done one after another exactly when no set of them is stuck: in any set there
is a job that is ready as soon as all others are done.

A common kind of job waits for all of some jobs and for one of some others. It is
stuck in a set with one of the first in it, or with all of the others.
-/

namespace Pandaria.Lib

variable {α κ : Type _} [DecidableEq κ] {key : α → κ} {ready : Finset κ → α → Prop}

/-- The jobs can be done in this order, after those that are `done`. -/
def Doable (key : α → κ) (ready : Finset κ → α → Prop) : Finset κ → List α → Prop
  | _, [] => True
  | done, a :: rest => ready done a ∧ Doable key ready (insert (key a) done) rest

/-- One more job after an order. -/
theorem doable_concat {done : Finset κ} {l : List α} {a : α} :
    Doable key ready done (l ++ [a]) ↔
      Doable key ready done l ∧ ready (done ∪ (l.map key).toFinset) a := by
  induction l generalizing done with
  | nil =>
      rw [List.nil_append, List.map_nil, List.toFinset_nil, Finset.union_empty]
      exact ⟨fun h => ⟨trivial, h.1⟩, fun h => ⟨h.2, trivial⟩⟩
  | cons b rest ih =>
      rw [List.cons_append, Doable, Doable, ih, and_assoc, List.map_cons, List.toFinset_cons,
        Finset.union_insert, Finset.insert_union]

/-- Of the jobs in an order, those of a set cannot all wait for each other: the
first of them is ready with what is done before it. -/
theorem Doable.exists_ready (hmono : ∀ s t a, s ⊆ t → ready s a → ready t a) {done : Finset κ}
    {l : List α} (h : Doable key ready done l) {waiting : Finset κ}
    (hdone : ∀ k ∈ done, k ∉ waiting) (hsome : ∃ a ∈ l, key a ∈ waiting) :
    ∃ a ∈ l, key a ∈ waiting ∧ ready ((done ∪ (l.map key).toFinset) \ waiting) a := by
  induction l generalizing done with
  | nil =>
      obtain ⟨a, ha, -⟩ := hsome
      cases ha
  | cons b rest ih =>
      obtain ⟨hready, hrest⟩ := h
      by_cases hb : key b ∈ waiting
      · refine ⟨b, List.mem_cons_self, hb, hmono _ _ b (fun k hk => ?_) hready⟩
        exact Finset.mem_sdiff.mpr ⟨Finset.mem_union_left _ hk, hdone k hk⟩
      · have hdone' : ∀ k ∈ insert (key b) done, k ∉ waiting := by
          intro k hk
          rcases Finset.mem_insert.mp hk with rfl | hk
          · exact hb
          · exact hdone k hk
        have hsome' : ∃ a ∈ rest, key a ∈ waiting := by
          obtain ⟨a, ha, hkey⟩ := hsome
          rcases List.mem_cons.mp ha with rfl | ha
          · exact absurd hkey hb
          · exact ⟨a, ha, hkey⟩
        obtain ⟨a, ha, hkey, hr⟩ := ih hrest hdone' hsome'
        refine ⟨a, List.mem_cons_of_mem _ ha, hkey, ?_⟩
        rwa [List.map_cons, List.toFinset_cons, Finset.union_insert, ← Finset.insert_union]

/-- Whatever is left, one of it is ready with all the rest done. -/
theorem exists_doable {l : List α} (hkeys : (l.map key).Nodup)
    (hready : ∀ waiting : Finset κ, (∃ a ∈ l, key a ∈ waiting) →
      ∃ a ∈ l, key a ∈ waiting ∧ ready ((l.map key).toFinset \ waiting) a)
    (n : Nat) (left : List α) (hlen : left.length = n) (hleft : ∀ a ∈ left, a ∈ l)
    (hnodup : (left.map key).Nodup) :
    ∃ order : List α, order.Perm left ∧
      Doable key ready ((l.map key).toFinset \ (left.map key).toFinset) order := by
  induction n generalizing left with
  | zero =>
      rw [List.length_eq_zero_iff] at hlen
      exact ⟨[], by rw [hlen], trivial⟩
  | succ n ih =>
      obtain ⟨b, hb⟩ := List.exists_mem_of_length_pos (by omega : 0 < left.length)
      have hmem (k : κ) : k ∈ (left.map key).toFinset ↔ ∃ a ∈ left, key a = k := by
        rw [List.mem_toFinset, List.mem_map]
      obtain ⟨a, ha, hkey, hr⟩ :=
        hready (left.map key).toFinset ⟨b, hleft b hb, (hmem _).mpr ⟨b, hb, rfl⟩⟩
      -- the job found is one of those left, as no two have a key
      have haleft : a ∈ left := by
        obtain ⟨c, hc, hsame⟩ := (hmem _).mp hkey
        rw [← List.inj_on_of_nodup_map hkeys (hleft c hc) ha hsame]
        exact hc
      obtain ⟨pre, post, rfl⟩ := List.append_of_mem haleft
      have hperm : (pre ++ a :: post).Perm (a :: (pre ++ post)) := List.perm_middle
      have hnodup' : (key a :: (pre ++ post).map key).Nodup :=
        (hperm.map key).nodup_iff.mp hnodup
      obtain ⟨hnot, hrest⟩ := List.nodup_cons.mp hnodup'
      have hlen' : (pre ++ post).length = n := by
        have hl := hperm.length_eq
        rw [List.length_cons] at hl
        omega
      obtain ⟨order, horder, hdoable⟩ := ih (pre ++ post) hlen'
        (fun c hc => hleft c (hperm.symm.subset (List.mem_cons_of_mem _ hc))) hrest
      refine ⟨a :: order, (horder.cons a).trans hperm.symm, hr, ?_⟩
      have hdone : insert (key a)
          ((l.map key).toFinset \ ((pre ++ a :: post).map key).toFinset) =
            (l.map key).toFinset \ ((pre ++ post).map key).toFinset := by
        ext k
        have hk : k ∈ ((pre ++ a :: post).map key).toFinset ↔
            k = key a ∨ k ∈ ((pre ++ post).map key).toFinset := by
          rw [List.mem_toFinset, (hperm.map key).mem_iff, List.map_cons, List.mem_cons,
            List.mem_toFinset]
        rw [Finset.mem_insert, Finset.mem_sdiff, Finset.mem_sdiff, hk, not_or]
        constructor
        · rintro (rfl | ⟨hkl, -, hk⟩)
          · exact ⟨List.mem_toFinset.mpr (List.mem_map_of_mem ha),
              fun hin => hnot (List.mem_toFinset.mp hin)⟩
          · exact ⟨hkl, hk⟩
        · rintro ⟨hkl, hk⟩
          by_cases he : k = key a
          · exact .inl he
          · exact .inr ⟨hkl, he, hk⟩
      rw [hdone]
      exact hdoable

theorem exists_order_iff (hmono : ∀ s t a, s ⊆ t → ready s a → ready t a) {l : List α}
    (hkeys : (l.map key).Nodup) :
    (∃ order : List α, order.Perm l ∧ Doable key ready ∅ order) ↔
      ∀ waiting : Finset κ, (∃ a ∈ l, key a ∈ waiting) →
        ∃ a ∈ l, key a ∈ waiting ∧ ready ((l.map key).toFinset \ waiting) a := by
  constructor
  · rintro ⟨order, horder, hdoable⟩ waiting ⟨b, hb, hkey⟩
    obtain ⟨a, ha, hka, hr⟩ := hdoable.exists_ready hmono (fun k hk => by cases hk)
      ⟨b, horder.symm.subset hb, hkey⟩
    rw [Finset.empty_union, List.toFinset_eq_of_perm _ _ (horder.map key)] at hr
    exact ⟨a, horder.subset ha, hka, hr⟩
  · intro hready
    have h := exists_doable hkeys hready l.length l rfl (fun a ha => ha) hkeys
    rwa [sdiff_self] at h

/-! ## All of some, one of others -/

/-- All of the first are done, and one of the second where there are any. -/
def Met (all any : List κ) (done : Finset κ) : Prop :=
  (∀ k ∈ all, k ∈ done) ∧ (any ≠ [] → ∃ k ∈ any, k ∈ done)

/-- One of the first is waiting, or all of the second are. -/
def Blocked (all any : List κ) (waiting : Finset κ) : Prop :=
  (∃ k ∈ all, k ∈ waiting) ∨ (any ≠ [] ∧ ∀ k ∈ any, k ∈ waiting)

instance (all any : List κ) (waiting : Finset κ) : Decidable (Blocked all any waiting) :=
  inferInstanceAs (Decidable (_ ∨ _))

omit [DecidableEq κ] in
theorem Met.mono {all any : List κ} {done more : Finset κ} (h : Met all any done)
    (hmore : done ⊆ more) : Met all any more := by
  refine ⟨fun k hk => hmore (h.1 k hk), fun hne => ?_⟩
  obtain ⟨k, hk, hin⟩ := h.2 hne
  exact ⟨k, hk, hmore hin⟩

/-- What is blocked by none of these is met once the others are done. -/
theorem met_sdiff_iff {all any : List κ} {keys : Finset κ} (hall : ∀ k ∈ all, k ∈ keys)
    (hany : ∀ k ∈ any, k ∈ keys) (waiting : Finset κ) :
    Met all any (keys \ waiting) ↔ ¬ Blocked all any waiting := by
  rw [Met, Blocked, not_or]
  simp only [Finset.mem_sdiff]
  constructor
  · rintro ⟨hand, hor⟩
    refine ⟨fun ⟨k, hk, hin⟩ => (hand k hk).2 hin, fun ⟨hne, hwait⟩ => ?_⟩
    obtain ⟨k, hk, -, hout⟩ := hor hne
    exact hout (hwait k hk)
  · rintro ⟨hand, hor⟩
    refine ⟨fun k hk => ⟨hall k hk, fun hin => hand ⟨k, hk, hin⟩⟩, fun hne => ?_⟩
    by_contra hnone
    refine hor ⟨hne, fun k hk => ?_⟩
    by_contra hout
    exact hnone ⟨k, hk, hany k hk, hout⟩

/-- Jobs of this kind that wait for nothing but each other can be done in some order
exactly when no set of them is stuck. -/
theorem exists_order_iff_blocked {all any : α → List κ} {l : List α} (hkeys : (l.map key).Nodup)
    (hall : ∀ a ∈ l, ∀ k ∈ all a, k ∈ l.map key) (hany : ∀ a ∈ l, ∀ k ∈ any a, k ∈ l.map key) :
    (∃ order : List α, order.Perm l ∧
      Doable key (fun done a => Met (all a) (any a) done) ∅ order) ↔
      ∀ waiting : Finset κ, (∃ a ∈ l, key a ∈ waiting) →
        ∃ a ∈ l, key a ∈ waiting ∧ ¬ Blocked (all a) (any a) waiting := by
  have hmono : ∀ (s t : Finset κ) (a : α), s ⊆ t → Met (all a) (any a) s → Met (all a) (any a) t :=
    fun _ _ _ hst h => h.mono hst
  have hiff {a : α} (ha : a ∈ l) (waiting : Finset κ) :
      Met (all a) (any a) ((l.map key).toFinset \ waiting) ↔ ¬ Blocked (all a) (any a) waiting :=
    met_sdiff_iff (fun k hk => List.mem_toFinset.mpr (hall a ha k hk))
      (fun k hk => List.mem_toFinset.mpr (hany a ha k hk)) waiting
  rw [exists_order_iff hmono hkeys]
  constructor
  · intro h waiting hsome
    obtain ⟨a, ha, hin, hready⟩ := h waiting hsome
    exact ⟨a, ha, hin, (hiff ha waiting).mp hready⟩
  · intro h waiting hsome
    obtain ⟨a, ha, hin, hnot⟩ := h waiting hsome
    exact ⟨a, ha, hin, (hiff ha waiting).mpr hnot⟩

end Pandaria.Lib
