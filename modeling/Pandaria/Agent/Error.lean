import Pandaria.Ai.Types

/-!
# The errors of `agent-core`

`AgentError` and `CompactionError` from `agent-core/src/error.rs`, with the
text each prints as: a session that enters its error state records that text
as the reason. A client is told the code of an error as well.
-/

namespace Pandaria.Agent

open Pandaria.Ai

inductive AgentError where
  | toolNotFound (m : String)
  | toolExecutionFailed (m : String)
  | hookDispatchError (m : String)
  | llmError (e : LlmError)
  | llmResponseError (m : String)
  | contextOverflow (m : String)
  | cancelled
  | compactionFailed (m : String)
  | recoveryAborted (m : String)
  | persistence (m : String)
  | quotaExceeded (m : String)
  | skillNotFound (m : String)
  | skillLoadFailed (m : String)
  | sessionInError (reason : String)
  | loopDisabled
  | goalNotMet (criteria : List String) (attempts : Nat)
deriving DecidableEq

/-- One character inside a `Debug`-printed string. -/
def debugChar (c : Char) : String :=
  if c = '"' then "\\\""
  else if c = '\\' then "\\\\"
  else if c = '\n' then "\\n"
  else if c = '\r' then "\\r"
  else if c = '\t' then "\\t"
  else if c.toNat = 0 then "\\0"
  else String.singleton c

def debugString (s : String) : String :=
  "\"" ++ String.join (s.toList.map debugChar) ++ "\""

/-- The `Display` form. -/
def AgentError.toString : AgentError → String
  | .toolNotFound m => "tool not found: " ++ m
  | .toolExecutionFailed m => "tool execution failed: " ++ m
  | .hookDispatchError m => "hook dispatch error: " ++ m
  | .llmError e => "llm error: " ++ e.toString
  | .llmResponseError m => "llm response error: " ++ m
  | .contextOverflow m => "context overflow: " ++ m
  | .cancelled => "cancelled"
  | .compactionFailed m => "compaction failed: " ++ m
  | .recoveryAborted m => "recovery aborted: " ++ m
  | .persistence m => "persistence error: " ++ m
  | .quotaExceeded m => "quota exceeded: " ++ m
  | .skillNotFound m => "skill not found: " ++ m
  | .skillLoadFailed m => "skill load failed: " ++ m
  | .sessionInError reason => "session in error state: " ++ reason
  | .loopDisabled => "loop strategy is disabled (PANDARIA_DISABLE_CRON=1)"
  | .goalNotMet criteria attempts =>
      "goal not met after " ++ ToString.toString attempts ++ " attempts: [" ++
        ", ".intercalate (criteria.map debugString) ++ "]"

/-- The machine-readable name of the variant. -/
def AgentError.code : AgentError → String
  | .toolNotFound _ => "tool_not_found"
  | .toolExecutionFailed _ => "tool_execution_failed"
  | .hookDispatchError _ => "hook_dispatch_error"
  | .llmError _ => "llm_error"
  | .llmResponseError _ => "llm_response_error"
  | .contextOverflow _ => "context_overflow"
  | .cancelled => "cancelled"
  | .compactionFailed _ => "compaction_failed"
  | .recoveryAborted _ => "recovery_aborted"
  | .persistence _ => "persistence_error"
  | .quotaExceeded _ => "quota_exceeded"
  | .skillNotFound _ => "skill_not_found"
  | .skillLoadFailed _ => "skill_load_failed"
  | .sessionInError _ => "session_in_error"
  | .loopDisabled => "loop_disabled"
  | .goalNotMet .. => "goal_not_met"

inductive CompactionError where
  | alreadyCompacted
  | llmError (m : String)
deriving DecidableEq

def CompactionError.toString : CompactionError → String
  | .alreadyCompacted => "already compacted"
  | .llmError m => "llm error: " ++ m

end Pandaria.Agent

/-!
## The recovery rules of a session

`agent-core/src/harness/error_recovery.rs`: what to do about an assistant
message that stopped with an error, and the two counters the answer depends
on. `evaluate` reads the message itself; `evaluateOverflow` reads the text of
an error that `AgentLoop` has already classified.
-/

namespace Pandaria.Agent

open Pandaria.Ai

/-- `CompactReason`. -/
inductive CompactReason where
  | threshold
  | overflow
  | manual
deriving DecidableEq

inductive RecoveryAction where
  | continue_
  | retryAfterBackoff (delayMs : Nat)
  | retryAfterCompaction (reason : CompactReason)
  | abort (reason : String)
deriving DecidableEq

structure RecoveryStateMachine where
  overflowAttempted : Bool
  retryCount : Nat
  maxRetries : Nat
deriving DecidableEq

def RecoveryStateMachine.new (maxRetries : Nat) : RecoveryStateMachine :=
  { overflowAttempted := false, retryCount := 0, maxRetries := maxRetries }

/-! ### Reading an error text -/

/-- `is_overflow` of `agent_loop.rs`, and the same two patterns in the two
tests of this file. -/
def isOverflow (errorMsg : String) : Bool :=
  let lower := toLowercase errorMsg
  contains lower "context length" || contains lower "token limit"

/-- `RETRYABLE_PATTERNS`, which `call_llm_with_retry` repeats. -/
def retryablePatterns : List String :=
  ["overloaded", "rate limit", "429", "timeout", "network error",
    "service unavailable", "fetch failed", "terminated", "500", "502", "503", "504"]

def matchesRetryable (errorMsg : String) : Bool :=
  retryablePatterns.any (contains (toLowercase errorMsg))

/-- `is_context_overflow`. -/
def isContextOverflow (m : AssistantMessage) : Bool :=
  decide (m.stopReason = .error) && m.errorMessage.any isOverflow

/-- `is_session_retryable`. -/
def isSessionRetryable (m : AssistantMessage) : Bool :=
  decide (m.stopReason = .error) && m.errorMessage.any matchesRetryable &&
    !isContextOverflow m

/-! ### The two evaluations -/

def overflowAbortReason : String := "Context overflow recovery failed after compact-and-retry"

def retriesAbortReason : String := "Max retry attempts exceeded"

namespace RecoveryStateMachine

/-- An overflow: one compaction, then nothing more. -/
def onOverflow (r : RecoveryStateMachine) : RecoveryAction × RecoveryStateMachine :=
  if r.overflowAttempted then (.abort overflowAbortReason, r)
  else (.retryAfterCompaction .overflow, { r with overflowAttempted := true })

/-- A retryable error: the next delay, or the end of the budget. -/
def onRetryable (r : RecoveryStateMachine) : RecoveryAction × RecoveryStateMachine :=
  if r.retryCount + 1 > r.maxRetries then
    (.abort retriesAbortReason, { r with retryCount := 0 })
  else (.retryAfterBackoff (100 * 2 ^ r.retryCount), { r with retryCount := r.retryCount + 1 })

def evaluate (r : RecoveryStateMachine) (m : AssistantMessage) :
    RecoveryAction × RecoveryStateMachine :=
  if isContextOverflow m then r.onOverflow
  else if isSessionRetryable m then r.onRetryable
  else (.continue_, r)

def evaluateOverflow (r : RecoveryStateMachine) (errorMsg : String) :
    RecoveryAction × RecoveryStateMachine :=
  if isOverflow errorMsg then r.onOverflow else r.onRetryable

def markSuccess (r : RecoveryStateMachine) : RecoveryStateMachine := { r with retryCount := 0 }

/-! ### What each evaluation leaves behind -/

@[simp] theorem markSuccess_overflowAttempted (r : RecoveryStateMachine) :
    r.markSuccess.overflowAttempted = r.overflowAttempted := rfl

@[simp] theorem onRetryable_overflowAttempted (r : RecoveryStateMachine) :
    r.onRetryable.2.overflowAttempted = r.overflowAttempted := by
  rw [onRetryable]
  split <;> rfl

end RecoveryStateMachine

end Pandaria.Agent
