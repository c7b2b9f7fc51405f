import Mathlib.Data.List.Basic

/-!
# A list, a watermark and the marks it stands for

Each element of the list is marked as saved or not, and a counter beside the
list claims to be the number of saved ones. The counter is exact when all
elements below it are saved and none above it is. The operations here are the
ones a saved list goes through, and for each of them the lemma says exactly
when the counter stays exact.
-/

namespace Pandaria.Lib

variable {α : Type _}

structure Exact (mark : Nat) (items : List (α × Bool)) : Prop where
  le : mark ≤ items.length
  saved : ∀ x ∈ items.take mark, x.2 = true
  unsaved : ∀ x ∈ items.drop mark, x.2 = false

/-- The elements not yet saved. -/
def unsaved (items : List (α × Bool)) : List (α × Bool) := items.filter fun x => !x.2

def markSaved (items : List (α × Bool)) : List (α × Bool) := items.map fun x => (x.1, true)

@[simp] theorem markSaved_length (items : List (α × Bool)) :
    (markSaved items).length = items.length := by
  simp [markSaved]

theorem markSaved_snd {items : List (α × Bool)} {x : α × Bool} (h : x ∈ markSaved items) :
    x.2 = true := by
  simp only [markSaved, List.mem_map] at h
  obtain ⟨y, -, rfl⟩ := h
  rfl

/-- The slice above an exact counter is what is not yet saved. -/
theorem exact_iff_drop {mark : Nat} {items : List (α × Bool)} :
    Exact mark items ↔ mark ≤ items.length ∧ items.drop mark = unsaved items := by
  have hsplit : unsaved items = unsaved (items.take mark) ++ unsaved (items.drop mark) := by
    rw [unsaved, unsaved, unsaved, ← List.filter_append, List.take_append_drop]
  constructor
  · rintro ⟨hle, hsaved, hunsaved⟩
    refine ⟨hle, ?_⟩
    have h1 : unsaved (items.take mark) = [] :=
      List.filter_eq_nil_iff.mpr fun x hx => by simp [hsaved x hx]
    have h2 : unsaved (items.drop mark) = items.drop mark :=
      List.filter_eq_self.mpr fun x hx => by simp [hunsaved x hx]
    rw [hsplit, h1, h2, List.nil_append]
  · rintro ⟨hle, heq⟩
    have hunsaved : ∀ x ∈ items.drop mark, x.2 = false := by
      intro x hx
      rw [heq] at hx
      simpa using (List.mem_filter.mp hx).2
    refine ⟨hle, fun x hx => ?_, hunsaved⟩
    have h2 : unsaved (items.drop mark) = items.drop mark :=
      List.filter_eq_self.mpr fun x hx => by simp [hunsaved x hx]
    have h1 : unsaved (items.take mark) = [] := by
      rw [hsplit, h2] at heq
      exact List.self_eq_append_left.mp heq
    simpa using List.filter_eq_nil_iff.mp h1 x hx

/-! ## The operations -/

theorem exact_nil {mark : Nat} : Exact mark ([] : List (α × Bool)) ↔ mark = 0 := by
  rw [exact_iff_drop]
  simp [unsaved]

theorem Exact.append {mark : Nat} {items : List (α × Bool)} (h : Exact mark items) (a : α) :
    Exact mark (items ++ [(a, false)]) where
  le := by
    have := h.le
    rw [List.length_append]
    omega
  saved := by
    rw [List.take_append_of_le_length h.le]
    exact h.saved
  unsaved := by
    intro x hx
    rw [List.drop_append_of_le_length h.le] at hx
    rcases List.mem_append.mp hx with hx | hx
    · exact h.unsaved x hx
    · rw [List.mem_singleton.mp hx]

/-- Dropping from the front is only right when nothing had been saved. -/
theorem Exact.drop_iff {mark k : Nat} {items : List (α × Bool)} (h : Exact mark items)
    (hk : k ≤ items.length) : Exact mark (items.drop k) ↔ k = 0 ∨ mark = 0 := by
  constructor
  · intro hd
    by_contra hne
    -- The last element below the counter is saved now, and stood above it before.
    have hlen := hd.le
    rw [List.length_drop] at hlen
    have hpos : k + (mark - 1) < items.length := by omega
    have h1 : items[k + (mark - 1)] ∈ (items.drop k).take mark := by
      rw [List.mem_take_iff_getElem]
      exact ⟨mark - 1, by rw [List.length_drop]; omega, by rw [List.getElem_drop]⟩
    have h2 : items[k + (mark - 1)] ∈ items.drop mark := by
      rw [List.mem_drop_iff_getElem]
      exact ⟨k - 1, by omega, by congr 1; omega⟩
    have := hd.saved _ h1
    rw [h.unsaved _ h2] at this
    cases this
  · rintro (rfl | rfl)
    · exact h
    · refine ⟨Nat.zero_le _, by simp, fun x hx => ?_⟩
      exact h.unsaved x (List.mem_of_mem_drop hx)

theorem exact_markSaved {mark : Nat} {items : List (α × Bool)} :
    Exact mark (markSaved items) ↔ mark = items.length := by
  constructor
  · intro h
    by_contra hne
    have hlt : mark < (markSaved items).length := by
      have := h.le
      rw [markSaved_length] at *
      omega
    have hmem := List.getElem_mem hlt
    have hdrop : (markSaved items)[mark] ∈ (markSaved items).drop mark := by
      rw [List.drop_eq_getElem_cons hlt]
      exact List.mem_cons_self
    have := h.unsaved _ hdrop
    rw [markSaved_snd hmem] at this
    cases this
  · rintro rfl
    refine ⟨by simp, fun x hx => markSaved_snd (List.mem_of_mem_take hx), ?_⟩
    rw [List.drop_eq_nil_of_le (by simp)]
    simp

/-- Moving the counter to the end without saving anything is only right when
it was there. -/
theorem Exact.length_iff {mark : Nat} {items : List (α × Bool)} (h : Exact mark items) :
    Exact items.length items ↔ mark = items.length := by
  constructor
  · intro hl
    by_contra hne
    have hlt : mark < items.length := Nat.lt_of_le_of_ne h.le hne
    have hdrop : items[mark] ∈ items.drop mark := by
      rw [List.drop_eq_getElem_cons hlt]
      exact List.mem_cons_self
    have := hl.saved items[mark] (by rw [List.take_length]; exact List.getElem_mem hlt)
    rw [h.unsaved _ hdrop] at this
    cases this
  · rintro rfl
    exact h

/-- Saving the slice above an exact counter saves everything. -/
theorem Exact.take_append_markSaved {mark : Nat} {items : List (α × Bool)} (h : Exact mark items) :
    items.take mark ++ markSaved (items.drop mark) = markSaved items := by
  have hself : markSaved (items.take mark) = items.take mark := by
    conv_rhs => rw [← List.map_id (items.take mark)]
    exact List.map_congr_left fun x hx => by rw [← h.saved x hx]; rfl
  conv_lhs => rw [← hself]
  rw [markSaved, markSaved, ← List.map_append, List.take_append_drop, markSaved]

end Pandaria.Lib
