import Mathlib.Data.List.Basic

/-!
# Codecs

How the values of a type are written in a format, and read from it again. A value
comes back from what is written of it, or it does not (`RoundTrips`); for what is
put together from other codecs that is a question about the parts.
-/

namespace Pandaria.Lib

structure Codec (V E α : Type) where
  write : α → V
  read : V → Except E α

namespace Codec

variable {V E α β : Type}

def RoundTrips (c : Codec V E α) (a : α) : Prop := c.read (c.write a) = .ok a

theorem bind_eq_ok {x : Except E α} {f : α → Except E β} {b : β} :
    x >>= f = .ok b ↔ ∃ a, x = .ok a ∧ f a = .ok b := by
  cases x with
  | error e => simp [bind, Except.bind]
  | ok a => simp [bind, Except.bind]

theorem map_eq_ok {x : Except E α} {f : α → β} {b : β} :
    f <$> x = .ok b ↔ ∃ a, x = .ok a ∧ f a = b := by
  cases x with
  | error e => simp [Functor.map, Except.map]
  | ok a => simp [Functor.map, Except.map]

/-! ## Lists -/

/-- The elements are read one after the other, up to the first error. -/
def readList (read : V → Except E α) : List V → Except E (List α)
  | [] => .ok []
  | v :: rest => do
      let a ← read v
      let as ← readList read rest
      return a :: as

theorem readList_write_iff (c : Codec V E α) (l : List α) :
    readList c.read (l.map c.write) = .ok l ↔ ∀ a ∈ l, c.RoundTrips a := by
  induction l with
  | nil => simp [readList]
  | cons a rest ih =>
      rw [List.forall_mem_cons, ← ih, List.map_cons, readList, bind_eq_ok]
      constructor
      · rintro ⟨a', ha, h⟩
        obtain ⟨as, has, h⟩ := bind_eq_ok.mp h
        injection h with h
        injection h with h₁ h₂
        subst h₁ h₂
        exact ⟨ha, has⟩
      · rintro ⟨ha, has⟩
        exact ⟨a, ha, bind_eq_ok.mpr ⟨rest, has, rfl⟩⟩

/-! ## What may be missing -/

section Nullable

variable [DecidableEq V]

/-- Nothing is written as `null`, and `null` is read as nothing. -/
def nullable (null : V) (c : Codec V E α) : Codec V E (Option α) where
  write
    | none => null
    | some a => c.write a
  read v := if v = null then .ok none else some <$> c.read v

/-- What is written as `null` itself is lost. -/
theorem nullable_roundTrips_iff (null : V) (c : Codec V E α) (a : Option α) :
    (nullable null c).RoundTrips a ↔ ∀ x, a = some x → c.write x ≠ null ∧ c.RoundTrips x := by
  cases a with
  | none => simp [RoundTrips, nullable]
  | some x =>
      have hread : (nullable null c).RoundTrips (some x) ↔
          (if c.write x = null then .ok none else some <$> c.read (c.write x)) =
            (.ok (some x) : Except E (Option α)) := Iff.rfl
      rw [hread]
      by_cases hnull : c.write x = null
      · rw [if_pos hnull]
        constructor
        · intro h
          cases h
        · intro h
          exact absurd hnull (h x rfl).1
      · rw [if_neg hnull, map_eq_ok]
        constructor
        · rintro ⟨x', hx, h⟩ y hy
          injection hy with hy
          injection h with h
          rw [← hy]
          rw [h] at hx
          exact ⟨hnull, hx⟩
        · intro h
          exact ⟨x, (h x rfl).2, rfl⟩

end Nullable

end Codec

end Pandaria.Lib
