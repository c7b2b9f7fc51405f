import Mathlib.Data.List.Nodup
import Pandaria.Ai.Types

/-!
# Fields of objects

What is read of an object once a field of it has been written.
-/

namespace Pandaria.Ai

/-- An object holds each key once. -/
def Json.Distinct : Json → Prop
  | .obj fields => (fields.map Prod.fst).Nodup
  | _ => True

def Json.isObject : Json → Bool
  | .obj _ => true
  | _ => false

theorem Json.get_cons (k : String) (f : String × Json) (fields : List (String × Json)) :
    Json.get k (.obj (f :: fields)) = if f.1 = k then some f.2 else Json.get k (.obj fields) := by
  by_cases hk : f.1 = k <;> simp [Json.get, hk]

theorem Json.get_eq_none {k : String} {fields : List (String × Json)} :
    Json.get k (.obj fields) = none ↔ k ∉ fields.map Prod.fst := by
  induction fields with
  | nil => exact iff_of_true rfl (by simp)
  | cons f fields ih =>
      rw [Json.get_cons, List.map_cons, List.mem_cons, not_or, ← ih]
      by_cases hk : f.1 = k
      · rw [if_pos hk]
        exact iff_of_false nofun fun h => h.1 hk.symm
      · rw [if_neg hk]
        exact (and_iff_right fun h => hk h.symm).symm

theorem Json.get_of_not_object {k : String} {j : Json} (h : j.isObject = false) :
    Json.get k j = none := by
  cases j <;> first | rfl | cases h

theorem get_append_absent {k : String} {f : String × Json} (fields : List (String × Json)) :
    Json.get k (.obj (fields ++ [f])) =
      (Json.get k (.obj fields)).or (if f.1 = k then some f.2 else none) := by
  induction fields with
  | nil =>
      rw [List.nil_append, Json.get_cons]
      rfl
  | cons g fields ih =>
      rw [List.cons_append, Json.get_cons, Json.get_cons, ih]
      split <;> rfl

theorem get_replaced {k key : String} {v : Json} (fields : List (String × Json)) :
    Json.get k (.obj (fields.map fun f => if f.1 = key then (key, v) else f)) =
      if k = key then (Json.get key (.obj fields)).map (fun _ => v)
      else Json.get k (.obj fields) := by
  induction fields with
  | nil => simp [Json.get]
  | cons f fields ih =>
      rw [List.map_cons, Json.get_cons, Json.get_cons, Json.get_cons, ih]
      by_cases hf : f.1 = key
      · by_cases hk : k = key
        · simp [hf, hk]
        · have hkey : ¬ key = k := fun h => hk h.symm
          simp [hf, hk, hkey]
      · by_cases hk : k = key
        · subst hk
          simp [hf]
        · simp [hf, hk]

/-- What an insertion into an object does to its fields. -/
theorem insert_obj (fields : List (String × Json)) (key : String) (v : Json) :
    ∃ fields', (Json.obj fields).insert key v = some (.obj fields') ∧
      (∀ k, Json.get k (.obj fields') = if k = key then some v else Json.get k (.obj fields)) ∧
      ((fields.map Prod.fst).Nodup → (fields'.map Prod.fst).Nodup) := by
  by_cases hany : fields.any (fun f => f.1 = key) = true
  · refine ⟨fields.map fun f => if f.1 = key then (key, v) else f, ?_, ?_, ?_⟩
    · rw [Json.insert, if_pos hany]
    · intro k
      rw [get_replaced]
      have hmem : Json.get key (.obj fields) ≠ none := by
        rw [Ne, Json.get_eq_none, not_not, List.mem_map]
        obtain ⟨f, hf, he⟩ := List.any_eq_true.mp hany
        exact ⟨f, hf, by simpa using he⟩
      obtain ⟨w, hw⟩ := Option.ne_none_iff_exists'.mp hmem
      rw [hw]
      rfl
    · intro hn
      have hkeys : (fields.map fun f => if f.1 = key then (key, v) else f).map Prod.fst =
          fields.map Prod.fst := by
        rw [List.map_map]
        apply List.map_congr_left
        intro f hf
        by_cases he : f.1 = key
        · simp [he]
        · simp [he]
      rw [hkeys]
      exact hn
  · have habs : key ∉ fields.map Prod.fst := by
      intro hmem
      obtain ⟨f, hf, he⟩ := List.mem_map.mp hmem
      exact hany (List.any_eq_true.mpr ⟨f, hf, by simpa using he⟩)
    refine ⟨fields ++ [(key, v)], ?_, ?_, ?_⟩
    · rw [Json.insert, if_neg hany]
    · intro k
      rw [get_append_absent]
      by_cases hk : k = key
      · subst hk
        rw [Json.get_eq_none.mpr habs]
        simp
      · have hkey : ¬ key = k := fun h => hk h.symm
        simp [hk, hkey]
    · intro hn
      rw [List.map_append, List.nodup_append]
      refine ⟨hn, List.nodup_singleton _, ?_⟩
      intro a ha b hb
      rw [List.map_singleton, List.mem_singleton] at hb
      rintro rfl
      rw [hb] at ha
      exact habs ha

/-- The fields there are then: the new one, and the others. -/
theorem mem_insert_obj (fields : List (String × Json)) (key : String) (v : Json) :
    ∃ fields', (Json.obj fields).insert key v = some (.obj fields') ∧
      ∀ f, f ∈ fields' ↔ f ∈ fields ∧ f.1 ≠ key ∨ f = (key, v) := by
  rw [Json.insert]
  by_cases hany : fields.any (fun f => f.1 = key) = true
  · rw [if_pos hany]
    refine ⟨_, rfl, fun f => ?_⟩
    rw [List.mem_map]
    constructor
    · rintro ⟨g, hg, rfl⟩
      by_cases hkey : g.1 = key
      · rw [if_pos hkey]
        exact .inr rfl
      · rw [if_neg hkey]
        exact .inl ⟨hg, hkey⟩
    · rintro (⟨hf, hkey⟩ | rfl)
      · exact ⟨f, hf, if_neg hkey⟩
      · obtain ⟨g, hg, he⟩ := List.any_eq_true.mp hany
        exact ⟨g, hg, if_pos (of_decide_eq_true he)⟩
  · rw [if_neg hany]
    refine ⟨_, rfl, fun f => ?_⟩
    rw [List.mem_append, List.mem_singleton]
    refine or_congr_left (and_iff_left_of_imp fun hf hkey => hany ?_).symm
    exact List.any_eq_true.mpr ⟨f, hf, decide_eq_true hkey⟩

/-- What has been inserted is there. -/
theorem get_insert {value value' v : Json} {key : String} (h : value.insert key v = some value') :
    Json.get key value' = some v := by
  cases value with
  | obj fields =>
      obtain ⟨fields', he, hget, -⟩ := insert_obj fields key v
      rw [he] at h
      injection h with h
      rw [← h, hget, if_pos rfl]
  | null =>
      injection h with h
      rw [← h, Json.get_cons, if_pos rfl]
  | bool _ | num _ | str _ | arr _ => cases h

/-- And only an object takes something in, or `null`. -/
theorem isSome_insert_iff {value : Json} (key : String) (v : Json) :
    (value.insert key v).isSome ↔ value = .null ∨ value.isObject = true := by
  cases value with
  | obj fields =>
      obtain ⟨fields', he, -⟩ := insert_obj fields key v
      rw [he]
      exact iff_of_true rfl (.inr rfl)
  | null => exact iff_of_true rfl (.inl rfl)
  | bool _ | num _ | str _ | arr _ =>
      refine iff_of_false (fun h => by cases h) fun h => ?_
      rcases h with h | h
      · cases h
      · cases h

theorem insertIfObject_obj (fields : List (String × Json)) (key : String) (v : Json) :
    ∃ fields', (Json.obj fields).insertIfObject (some key) v = .obj fields' ∧
      (∀ k, Json.get k (.obj fields') = if k = key then some v else Json.get k (.obj fields)) ∧
      ((fields.map Prod.fst).Nodup → (fields'.map Prod.fst).Nodup) := by
  obtain ⟨fields', he, hrest⟩ := insert_obj fields key v
  exact ⟨fields', by rw [Json.insertIfObject, he]; rfl, hrest⟩

theorem insertIfObject_of_not_object {j : Json} (h : j.isObject = false) (key : Option String)
    (v : Json) : j.insertIfObject key v = j := by
  cases key with
  | none => rfl
  | some key => cases j <;> first | rfl | cases h

theorem isObject_insertIfObject (j : Json) (key : Option String) (v : Json) :
    (j.insertIfObject key v).isObject = j.isObject := by
  cases hj : j.isObject with
  | false => rw [insertIfObject_of_not_object hj, hj]
  | true =>
      cases j with
      | obj fields =>
          cases key with
          | none => rfl
          | some key =>
              obtain ⟨fields', he, -⟩ := insertIfObject_obj fields key v
              rw [he]
              rfl
      | _ => cases hj

theorem distinct_insertIfObject {j : Json} (h : j.Distinct) (key : Option String) (v : Json) :
    (j.insertIfObject key v).Distinct := by
  cases hj : j.isObject with
  | false =>
      rw [insertIfObject_of_not_object hj]
      exact h
  | true =>
      cases j with
      | obj fields =>
          cases key with
          | none => exact h
          | some key =>
              obtain ⟨fields', he, -, hn⟩ := insertIfObject_obj fields key v
              rw [he]
              exact hn h
      | _ => cases hj

theorem get_insertIfObject {j : Json} (h : j.isObject = true) (key : Option String) (v : Json)
    (k : String) :
    Json.get k (j.insertIfObject key v) = if key = some k then some v else Json.get k j := by
  cases j with
  | obj fields =>
      cases key with
      | none => rfl
      | some key =>
          obtain ⟨fields', he, hget, -⟩ := insertIfObject_obj fields key v
          rw [he, hget]
          by_cases hk : k = key
          · rw [if_pos hk, if_pos (by rw [hk])]
          · rw [if_neg hk, if_neg fun e => hk (by injection e with e; exact e.symm)]
  | _ => cases h

end Pandaria.Ai
