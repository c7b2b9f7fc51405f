import Mathlib.Algebra.Order.Field.Basic
import Mathlib.Data.List.Count
import Mathlib.Tactic.Linarith

/-!
# Token buckets

A bucket holds up to `burst` tokens, gains `rate` of them a unit of time, and
gives one for everything it admits. What that bounds is the number of readings
admitted between any two times: it is at most `burst + rate * (t - s)`.

The bound by itself is no invariant. What is: since any time `a`, what was
admitted together with what is in the bucket comes to no more than a full
bucket and the gain from `a` on. It survives a refill when the time of the
refill is not before that of the last one, and whatever is admitted is paid for
with a token.
-/

namespace Pandaria.Lib

section Readings

variable {K : Type _} [LinearOrder K]

/-- How many readings lie in `[a, b]`. -/
def between (log : List K) (a b : K) : Nat := log.countP fun r => a ≤ r ∧ r ≤ b

/-- How many lie at `a` or after it. -/
def since (log : List K) (a : K) : Nat := log.countP fun r => a ≤ r

theorem between_le_since (log : List K) (a b : K) : between log a b ≤ since log a := by
  refine List.countP_mono_left fun r _ h => ?_
  have hr : a ≤ r ∧ r ≤ b := by simpa using h
  exact decide_eq_true hr.1

theorem since_eq_zero {log : List K} {a last : K} (h : ∀ r ∈ log, r ≤ last) (ha : last < a) :
    since log a = 0 := by
  refine List.countP_eq_zero.mpr fun r hr hle => ?_
  exact absurd (lt_of_lt_of_le ha (of_decide_eq_true hle)) (not_lt.mpr (h r hr))

end Readings

variable {K : Type _} [Field K] [LinearOrder K]

/-- What was admitted is covered by a bucket of `burst` tokens that gains
`rate` of them a unit of time and held `tokens` at the time `last`. -/
structure Covered (burst rate : K) (log : List K) (tokens last : K) : Prop where
  past : ∀ r ∈ log, r ≤ last
  room : tokens ≤ burst
  saved : ∀ a ≤ last, since log a + tokens ≤ burst + rate * (last - a)
  bounded : ∀ a b, a ≤ b → (between log a b : K) ≤ burst + rate * (b - a)

namespace Covered

variable {burst rate tokens last now : K} {log log' : List K}

theorem perm (h : Covered burst rate log tokens last) (hp : log'.Perm log) :
    Covered burst rate log' tokens last := by
  refine ⟨fun r hr => h.past r (hp.subset hr), h.room, fun a ha => ?_, fun a b hab => ?_⟩
  · rw [since, hp.countP_eq]
    exact h.saved a ha
  · rw [between, hp.countP_eq]
    exact h.bounded a b hab

variable [IsStrictOrderedRing K]

/-- A full bucket covers the log when nothing has been admitted. -/
theorem nil (hburst : 0 ≤ burst) (hrate : 0 ≤ rate) (last : K) :
    Covered burst rate [] burst last := by
  have hgain : ∀ a b : K, a ≤ b → 0 ≤ rate * (b - a) :=
    fun a b hab => mul_nonneg hrate (sub_nonneg.mpr hab)
  refine ⟨fun r hr => absurd hr List.not_mem_nil, le_refl burst, fun a ha => ?_, fun a b hab => ?_⟩
  · have := hgain a last ha
    simp only [since, List.countP_nil, Nat.cast_zero]
    linarith
  · have := hgain a b hab
    simp only [between, List.countP_nil, Nat.cast_zero]
    linarith

/-- Time goes by, and what does not fit is lost. -/
theorem refill (hrate : 0 ≤ rate) (h : Covered burst rate log tokens last) (hle : last ≤ now) :
    Covered burst rate log (min (tokens + (now - last) * rate) burst) now := by
  refine ⟨fun r hr => le_trans (h.past r hr) hle, min_le_right _ _, fun a ha => ?_, h.bounded⟩
  by_cases hlast : a ≤ last
  · have hsaved := h.saved a hlast
    have hmin := min_le_left (tokens + (now - last) * rate) burst
    linarith
  · -- Nothing has been admitted since, and a bucket holds at most `burst`.
    rw [since_eq_zero h.past (not_le.mp hlast), Nat.cast_zero]
    have hmin := min_le_right (tokens + (now - last) * rate) burst
    have hgain := mul_nonneg hrate (sub_nonneg.mpr ha)
    linarith

/-- A bucket that would be full by now may as well be replaced by a full one. -/
theorem renew (hrate : 0 ≤ rate) (h : Covered burst rate log tokens last) (hle : last ≤ now)
    (hfull : burst ≤ tokens + (now - last) * rate) : Covered burst rate log burst now := by
  have hrefilled := h.refill hrate hle
  rwa [min_eq_right hfull] at hrefilled

/-- One is admitted now, for a token. -/
theorem take (hrate : 0 ≤ rate) (h : Covered burst rate log tokens last) (htoken : 1 ≤ tokens) :
    Covered burst rate (last :: log) (tokens - 1) last := by
  refine ⟨?_, ?_, fun a ha => ?_, fun a b hab => ?_⟩
  · intro r hr
    rcases List.mem_cons.mp hr with hr | hr
    · exact le_of_eq hr
    · exact h.past r hr
  · linarith [h.room]
  · have hsaved := h.saved a ha
    rw [since, List.countP_cons, if_pos (decide_eq_true ha), Nat.cast_add, Nat.cast_one]
    rw [since] at hsaved
    linarith
  · by_cases hin : a ≤ last ∧ last ≤ b
    · have hsaved := h.saved a hin.1
      have hcount : (between log a b : K) ≤ since log a := by
        exact_mod_cast between_le_since log a b
      have hgain := mul_le_mul_of_nonneg_left (sub_le_sub_right hin.2 a) hrate
      rw [between, List.countP_cons, if_pos (decide_eq_true hin), Nat.cast_add, Nat.cast_one]
      rw [between] at hcount
      linarith
    · rw [between, List.countP_cons, if_neg (by simpa using hin)]
      exact h.bounded a b hab

end Covered

end Pandaria.Lib
