import Mathlib.Data.BitVec

/-!
# The first bits of a word

Two words agree in their first `n` bits, counted from the most significant one.
A mask says the same with an `and`, and a shift or a division by throwing the
other bits away; `mask_eq_iff` and `firstBits_iff_div` are the two rules.
-/

namespace Pandaria.Lib

variable {w n : Nat} {a b : BitVec w}

/-- The first `n` bits are equal. -/
def FirstBits (n : Nat) (a b : BitVec w) : Prop := ∀ i < n, a.getMsbD i = b.getMsbD i

/-- A mask with its first `n` bits set. -/
def mask (w n : Nat) : BitVec w := BitVec.allOnes w <<< (w - n)

/-- Counted from the other end, they are the bits from `w - n` on. -/
theorem firstBits_iff_getLsbD (hn : n ≤ w) :
    FirstBits n a b ↔ ∀ i, w - n ≤ i → a.getLsbD i = b.getLsbD i := by
  constructor
  · intro h i hi
    by_cases hlt : i < w
    · have h' := h (w - 1 - i) (by omega)
      rw [BitVec.getMsbD_eq_getLsbD, BitVec.getMsbD_eq_getLsbD,
        show w - 1 - (w - 1 - i) = i by omega] at h'
      have hin : decide (w - 1 - i < w) = true := decide_eq_true (by omega)
      rw [hin, Bool.true_and, Bool.true_and] at h'
      exact h'
    · rw [BitVec.getLsbD_of_ge a i (by omega), BitVec.getLsbD_of_ge b i (by omega)]
  · intro h i hi
    rw [BitVec.getMsbD_eq_getLsbD, BitVec.getMsbD_eq_getLsbD, h (w - 1 - i) (by omega)]

theorem mask_eq_iff (hn : n ≤ w) : a &&& mask w n = b &&& mask w n ↔ FirstBits n a b := by
  rw [firstBits_iff_getLsbD hn]
  constructor
  · intro h i hi
    by_cases hlt : i < w
    · have h' := congrArg (fun x => x.getLsbD i) h
      have hge : ¬ i < w - n := by omega
      have hin : i - (w - n) < w := by omega
      simpa [mask, hlt, hge, hin] using h'
    · rw [BitVec.getLsbD_of_ge a i (by omega), BitVec.getLsbD_of_ge b i (by omega)]
  · intro h
    refine BitVec.eq_of_getLsbD_eq fun i hi => ?_
    by_cases hge : i < w - n
    · simp [mask, hge]
    · rw [BitVec.getLsbD_and, BitVec.getLsbD_and, h i (by omega)]

theorem firstBits_iff_div (hn : n ≤ w) :
    FirstBits n a b ↔ a.toNat / 2 ^ (w - n) = b.toNat / 2 ^ (w - n) := by
  rw [firstBits_iff_getLsbD hn, ← Nat.shiftRight_eq_div_pow, ← Nat.shiftRight_eq_div_pow,
    ← BitVec.toNat_ushiftRight, ← BitVec.toNat_ushiftRight, BitVec.toNat_inj]
  constructor
  · intro h
    refine BitVec.eq_of_getLsbD_eq fun i _ => ?_
    rw [BitVec.getLsbD_ushiftRight, BitVec.getLsbD_ushiftRight]
    exact h _ (Nat.le_add_right _ _)
  · intro h i hi
    have h' := congrArg (fun x => x.getLsbD (i - (w - n))) h
    simp only [BitVec.getLsbD_ushiftRight] at h'
    rwa [Nat.add_sub_cancel' hi] at h'

end Pandaria.Lib
