import Pandaria.Ai.Thinking

/-!
# What a thinking budget leaves for output

Two sums are taken without a look at their size, the tokens asked for with the
budget and the budget with the 1024 that are kept for output. As long as they
fit a `u32` the rest is in order: in each of the three ways out at least 1024
tokens are left, or all that was asked for. A sum that does not fit is a panic,
or else wraps and compares as a small number.
-/

namespace Pandaria.Ai

open Pandaria.Agent.Hook (ReasoningLevel)

/-- `max_tokens` is within the limit, and leaves room beside the budget. -/
structure LeavesOutput (requested limit : UInt32) (r : UInt32 × UInt32) : Prop where
  within : r.1 ≤ limit
  output : 1024 < limit → min requested.toNat 1024 + r.2.toNat ≤ r.1.toNat

/-- No sum overflows, and the result is as it should be in the build at hand. -/
structure Settled (checks : Bool) (requested limit : UInt32)
    (result : Bool → Option (UInt32 × UInt32)) : Prop where
  exact : result true ≠ none
  leaves : ∃ r, result checks = some r ∧ LeavesOutput requested limit r

/-- The sums that are taken fit a `u32`. -/
def SumsFit (base limit budget : UInt32) : Prop :=
  base.toNat + budget.toNat < 2 ^ 32 ∧
    (base.toNat + budget.toNat ≤ limit.toNat ∨ budget.toNat + 1024 < 2 ^ 32)

/-- The tokens a configuration takes for thinking. -/
def ThinkingConfig.budget : ThinkingConfig → UInt32
  | .disabled => 0
  | .enabled budgetTokens => budgetTokens
  | .adaptive _ => 0

/-! ## Sums -/

theorem addU32_of_lt {a b : UInt32} (h : a.toNat + b.toNat < 2 ^ 32) (checks : Bool) :
    addU32 checks a b = some (a + b) := by
  rw [addU32, if_neg]
  omega

theorem addU32_of_le {a b : UInt32} (h : 2 ^ 32 ≤ a.toNat + b.toNat) : addU32 true a b = none := by
  rw [addU32, if_pos ⟨rfl, h⟩]

theorem toNat_add_of_lt {a b : UInt32} (h : a.toNat + b.toNat < 2 ^ 32) :
    (a + b).toNat = a.toNat + b.toNat := by
  rw [UInt32.toNat_add, Nat.mod_eq_of_lt h]

theorem toNat_saturatingSub (a b : UInt32) : (saturatingSub a b).toNat = a.toNat - b.toNat := by
  rw [saturatingSub]
  split
  · next h => exact UInt32.toNat_sub_of_le a b h
  · next h =>
      rw [UInt32.le_iff_toNat_le] at h
      have hzero : (0 : UInt32).toNat = 0 := rfl
      omega

/-! ## The two functions -/

variable {base limit : UInt32} {level : ReasoningLevel} {custom : Option ThinkingBudgets}

theorem sumsFit_of_checked
    (h : adjustMaxTokensForThinking true base limit level custom ≠ none) :
    SumsFit base limit (thinkingBudget level custom) := by
  rw [adjustMaxTokensForThinking] at h
  generalize thinkingBudget level custom = budget at h ⊢
  by_cases htotal : base.toNat + budget.toNat < 2 ^ 32
  · refine ⟨htotal, ?_⟩
    rw [← Nat.not_lt, Classical.or_iff_not_imp_left, Classical.not_not]
    intro hover
    by_contra hneeded
    have hle : ¬ base + budget ≤ limit := by
      rw [UInt32.le_iff_toNat_le, toNat_add_of_lt htotal]
      omega
    have hkept : addU32 true budget minOutputTokens = none :=
      addU32_of_le (by show 2 ^ 32 ≤ budget.toNat + 1024; omega)
    simp only [addU32_of_lt htotal, Option.bind_some, if_neg hle, hkept, Option.bind_none] at h
    exact h rfl
  · rw [addU32_of_le (by omega)] at h
    exact absurd rfl h

/-- Each way out leaves what is asked for or 1024 tokens. -/
theorem adjust_of_sumsFit (checks : Bool) (h : SumsFit base limit (thinkingBudget level custom)) :
    ∃ r, adjustMaxTokensForThinking checks base limit level custom = some r ∧
      LeavesOutput base limit r := by
  rw [adjustMaxTokensForThinking]
  generalize thinkingBudget level custom = budget at h ⊢
  obtain ⟨htotal, hneeded⟩ := h
  simp only [addU32_of_lt htotal, Option.bind_some]
  have hsum := toNat_add_of_lt htotal
  by_cases hle : base + budget ≤ limit
  · rw [if_pos hle]
    refine ⟨_, rfl, hle, ?_⟩
    intro _
    show min base.toNat 1024 + budget.toNat ≤ (base + budget).toNat
    omega
  rw [if_neg hle]
  rw [UInt32.le_iff_toNat_le, hsum] at hle
  have hfits : budget.toNat + minOutputTokens.toNat < 2 ^ 32 := by
    show budget.toNat + 1024 < 2 ^ 32
    omega
  simp only [addU32_of_lt hfits, Option.bind_some]
  have hkept : (budget + minOutputTokens).toNat = budget.toNat + 1024 := toNat_add_of_lt hfits
  by_cases hsqueeze : budget + minOutputTokens > limit
  · rw [if_pos hsqueeze]
    refine ⟨_, rfl, UInt32.le_refl limit, ?_⟩
    intro hlimit
    have hlimit : 1024 < limit.toNat := hlimit
    show min base.toNat 1024 + (saturatingSub limit minOutputTokens).toNat ≤ limit.toNat
    rw [toNat_saturatingSub]
    show min base.toNat 1024 + (limit.toNat - 1024) ≤ limit.toNat
    omega
  · rw [if_neg hsqueeze]
    refine ⟨_, rfl, UInt32.le_refl limit, ?_⟩
    intro _
    have hroom : ¬ limit.toNat < (budget + minOutputTokens).toNat := hsqueeze
    show min base.toNat 1024 + budget.toNat ≤ limit.toNat
    omega

theorem adjust_settled_iff (checks : Bool) :
    Settled checks base limit
        (fun c => adjustMaxTokensForThinking c base limit level custom) ↔
      SumsFit base limit (thinkingBudget level custom) := by
  constructor
  · intro h
    exact sumsFit_of_checked h.exact
  · intro h
    obtain ⟨r, hr, -⟩ := adjust_of_sumsFit true h
    exact ⟨by simp [hr], adjust_of_sumsFit checks h⟩

/-- Without a budget everything is left. -/
theorem leavesOutput_zero (maxTokens : UInt32) :
    LeavesOutput maxTokens (assumedLimit maxTokens) (maxTokens, 0) := by
  have hlimit : maxTokens ≤ assumedLimit maxTokens := by
    show maxTokens ≤ if maxTokens ≤ 16384 then 16384 else maxTokens
    split
    · next h => exact h
    · exact UInt32.le_refl maxTokens
  refine ⟨hlimit, ?_⟩
  intro _
  show min maxTokens.toNat 1024 + 0 ≤ maxTokens.toNat
  omega

theorem build_settled_iff (checks : Bool) (reasoning : Option ReasoningLevel) (modelId : String)
    (maxTokens : UInt32) :
    Settled checks maxTokens (assumedLimit maxTokens)
        (fun c => (buildThinkingConfig c reasoning modelId maxTokens custom).map
          fun r => (r.1, r.2.budget)) ↔
      ∀ level, reasoning = some level → isAdaptiveModel modelId = false →
        SumsFit maxTokens (assumedLimit maxTokens) (thinkingBudget level custom) := by
  cases reasoning with
  | none =>
      have hsettled := leavesOutput_zero maxTokens
      exact iff_of_true ⟨by simp [buildThinkingConfig], _, rfl, hsettled⟩ (by simp)
  | some level =>
      cases hadaptive : isAdaptiveModel modelId with
      | true =>
          have hsettled := leavesOutput_zero maxTokens
          refine iff_of_true ⟨by simp [buildThinkingConfig, hadaptive], _, ?_, hsettled⟩ (by simp)
          simp [buildThinkingConfig, hadaptive, ThinkingConfig.budget]
      | false =>
          have hsame (c : Bool) :
              ((buildThinkingConfig c (some level) modelId maxTokens custom).map
                fun r => (r.1, r.2.budget)) =
              adjustMaxTokensForThinking c maxTokens (assumedLimit maxTokens) level custom := by
            simp [buildThinkingConfig, hadaptive, ThinkingConfig.budget, Function.comp_def]
          simp only [hsame, adjust_settled_iff]
          simp

/-- In either build, for a limit that is given and for the one that is assumed. -/
theorem thinking_settled_iff (checks : Bool) (base limit : UInt32) (level : ReasoningLevel)
    (reasoning : Option ReasoningLevel) (modelId : String) (custom : Option ThinkingBudgets) :
    (Settled checks base limit (fun c => adjustMaxTokensForThinking c base limit level custom) ↔
      SumsFit base limit (thinkingBudget level custom)) ∧
    (Settled checks base (assumedLimit base)
        (fun c => (buildThinkingConfig c reasoning modelId base custom).map
          fun r => (r.1, r.2.budget)) ↔
      ∀ level, reasoning = some level → isAdaptiveModel modelId = false →
        SumsFit base (assumedLimit base) (thinkingBudget level custom)) :=
  ⟨adjust_settled_iff checks, build_settled_iff checks reasoning modelId base⟩

/-- A budget of all there is. Where the sum wraps, the budget is more than
`max_tokens`. -/
theorem not_thinking_settled :
    ¬ (∀ checks base limit level custom,
        Settled checks base limit
          (fun c => adjustMaxTokensForThinking c base limit level custom)) ∧
      adjustMaxTokensForThinking false 4096 8192 .high
        (some { minimal := none, low := none, medium := none, high := some 4294967295 }) =
          some (4095, 4294967295) := by
  constructor
  · intro h
    have hexact := (h true 4096 8192 .high
      (some { minimal := none, low := none, medium := none, high := some 4294967295 })).exact
    exact hexact (by decide +kernel)
  · decide +kernel

end Pandaria.Ai
