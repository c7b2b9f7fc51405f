import Pandaria.Agent.Hooks

/-!
# Thinking budgets

`adjust_max_tokens_for_thinking` of `ai-provider/src/provider.rs` and
`build_thinking_config` of `providers/anthropic_common.rs`. The numbers are
`u32`s and are added as they come.
-/

namespace Pandaria.Ai

open Pandaria.Agent.Hook (ReasoningLevel)

structure ThinkingBudgets where
  minimal : Option UInt32
  low : Option UInt32
  medium : Option UInt32
  high : Option UInt32
deriving DecidableEq

namespace ThinkingBudgets

/-- `default_budgets`. -/
def default : ThinkingBudgets :=
  { minimal := some 1024
    low := some 2048
    medium := some 8192
    high := some 16384 }

def forLevel (budgets : ThinkingBudgets) : ReasoningLevel → UInt32
  | .minimal => budgets.minimal.getD 1024
  | .low => budgets.low.getD 2048
  | .medium => budgets.medium.getD 8192
  | .high | .xHigh => budgets.high.getD 16384

end ThinkingBudgets

/-- `thinking_budget`. -/
def thinkingBudget (level : ReasoningLevel) (customBudgets : Option ThinkingBudgets) : UInt32 :=
  (customBudgets.getD .default).forLevel level

/-- `a + b`. A sum that does not fit is a panic in a build that checks
arithmetic, and wraps in one that does not. -/
def addU32 (checks : Bool) (a b : UInt32) : Option UInt32 :=
  if checks = true ∧ 2 ^ 32 ≤ a.toNat + b.toNat then none else some (a + b)

/-- `saturating_sub`. -/
def saturatingSub (a b : UInt32) : UInt32 := if b ≤ a then a - b else 0

def minOutputTokens : UInt32 := 1024

/-- The new `max_tokens` and the budget. -/
def adjustMaxTokensForThinking (checks : Bool) (baseMaxTokens modelMaxTokens : UInt32)
    (level : ReasoningLevel) (customBudgets : Option ThinkingBudgets) :
    Option (UInt32 × UInt32) :=
  let budget := thinkingBudget level customBudgets
  (addU32 checks baseMaxTokens budget).bind fun total =>
    if total ≤ modelMaxTokens then some (total, budget)
    else
      (addU32 checks budget minOutputTokens).bind fun needed =>
        if needed > modelMaxTokens then
          some (modelMaxTokens, saturatingSub modelMaxTokens minOutputTokens)
        else some (modelMaxTokens, budget)

/-! ## `build_thinking_config` -/

inductive ThinkingConfig where
  | disabled
  | enabled (budgetTokens : UInt32)
  | adaptive (effort : String)
deriving DecidableEq

def isAdaptiveModel (modelId : String) : Bool :=
  let has := contains modelId.toList
  has "opus-4-6" || has "opus-4.6" || has "opus-4-7" || has "opus-4.7" || has "sonnet-4-6" ||
    has "sonnet-4.6" || has "haiku-4-7"

def mapEffort (level : ReasoningLevel) (modelId : String) : String :=
  let isOpus47 := contains modelId.toList "opus-4-7" || contains modelId.toList "opus-4.7"
  match level with
  | .minimal | .low => "low"
  | .medium => "medium"
  | .high => "high"
  | .xHigh => if isOpus47 then "xhigh" else "high"

/-- No limit of the model is known here; it is taken to be 16384, or what is
asked for if that is more. -/
def assumedLimit (maxTokens : UInt32) : UInt32 := max maxTokens 16384

def buildThinkingConfig (checks : Bool) (reasoning : Option ReasoningLevel) (modelId : String)
    (maxTokens : UInt32) (budgets : Option ThinkingBudgets) : Option (UInt32 × ThinkingConfig) :=
  match reasoning with
  | none => some (maxTokens, .disabled)
  | some level =>
      if isAdaptiveModel modelId then some (maxTokens, .adaptive (mapEffort level modelId))
      else
        (adjustMaxTokensForThinking checks maxTokens (assumedLimit maxTokens) level budgets).map
          fun r => (r.1, .enabled r.2)

end Pandaria.Ai
