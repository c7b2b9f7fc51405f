import Pandaria.Agent.History

/-!
# Execution strategies

`agent-core/src/harness/strategy.rs`, with the prompts and the evaluation of
acceptance criteria from the end of `harness/session/mod.rs`. The interval and
the iteration bound of a background loop are left out: the loop is a task of
its own that never touches the session.
-/

namespace Pandaria.Agent

open Pandaria.Ai

inductive GoalVerification where
  | selfAssessment
  | command (command : String)
  | outputContains (text : String)
deriving DecidableEq

structure GoalCriterion where
  id : String
  description : String
  verification : GoalVerification
deriving DecidableEq

inductive GoalExhaustedAction where
  | abort
  | returnLast
deriving DecidableEq

/-- The fields of `TerminationStrategy::Goal`. -/
structure Goal where
  criteria : List GoalCriterion
  maxAttempts : Nat
  onExhausted : GoalExhaustedAction
deriving DecidableEq

inductive TerminationStrategy where
  | once
  | goal (goal : Goal)
deriving DecidableEq

inductive RhythmStrategy where
  | once
  | loop
deriving DecidableEq

inductive ContextStrategy where
  | accumulate
  | compact (keepLastN : Nat)
  | clear
deriving DecidableEq

structure SessionStrategy where
  termination : TerminationStrategy
  rhythm : RhythmStrategy
  context : ContextStrategy
deriving DecidableEq

def SessionStrategy.default : SessionStrategy := ⟨.once, .once, .accumulate⟩

/-- `CriteriaEvaluation`. -/
abbrev CriteriaEvaluation := List (String × Bool)

def CriteriaEvaluation.allPassed (e : CriteriaEvaluation) : Bool := e.all (·.2)

/-! ## Prompts -/

/-- `build_initial_goal_prompt`. -/
def buildInitialGoalPrompt (task : String) (criteria : List GoalCriterion) : String :=
  "## Task\n\n" ++ task ++ "\n\n## Acceptance Criteria\n" ++
  "You must satisfy ALL of the following before responding:\n\n" ++
  String.join (criteria.zipIdx.map fun (c, i) =>
    toString (i + 1) ++ ". [" ++ c.id ++ "] " ++ c.description ++ "\n") ++
  "\nAfter completing the task, end your response with a criteria checklist:\n\n" ++
  String.join (criteria.map fun c => "[CRITERION_RESULT: " ++ c.id ++ ": PASS|FAIL]\n")

/-- `build_retry_prompt`. -/
def buildRetryPrompt (task : String) (criteria : List GoalCriterion) (attempt maxAttempts : Nat)
    (lastEval : Option CriteriaEvaluation) : String :=
  "## Acceptance Criteria Check (attempt " ++ toString (attempt + 1) ++ "/" ++
    toString maxAttempts ++ ")\n\n" ++
  "The previous response did not meet all criteria:\n\n" ++
  String.join ((lastEval.getD []).map fun (id, passed) =>
    (if passed then "✓" else "✗") ++ " " ++ id ++ " — " ++
      ((criteria.find? fun c => c.id = id).map GoalCriterion.description).getD id ++ "\n") ++
  "\n## Original Task\n\n" ++ task ++ "\n\n" ++
  "Please fix the failing criteria and respond with the corrected implementation.\n" ++
  "End with [CRITERION_RESULT: ...] as before.\n"

/-! ## Evaluation -/

/-- `str::lines`. -/
def lines (s : List Char) : List (List Char) :=
  let ls := s.splitOn '\n'
  let ls := if ls.getLast? = some [] then ls.dropLast else ls
  ls.map fun l => if l.getLast? = some '\r' then l.dropLast else l

/-- `parse_criterion_result`: the first marker line decides. -/
def parseCriterionResult (text : String) (id : String) : Option Bool :=
  let marker := ("[CRITERION_RESULT: " ++ id ++ ":").toList
  match (lines text.toList).find? fun l => marker.isPrefixOf (trim l) with
  | none => none
  | some l =>
      let rest := (trim l).drop marker.length
      let rest := (rest.reverse.dropWhile (· = ']')).reverse
      if trim rest = "PASS".toList then some true
      else if trim rest = "FAIL".toList then some false
      else none

/-- The text of the last assistant message. -/
def assistantText (messages : List AgentMessage) : String :=
  (messages.reverse.findSome? fun
    | .assistant a => some (String.join (a.content.filterMap fun
        | .text t _ => some t
        | _ => none))
    | _ => none).getD ""

/-- `evaluate_criteria`: a command is never run and counts as failed. -/
def evaluateCriteria (messages : List AgentMessage) (criteria : List GoalCriterion) :
    CriteriaEvaluation :=
  let text := assistantText messages
  criteria.map fun c => (c.id, match c.verification with
    | .selfAssessment => (parseCriterionResult text c.id).getD false
    | .command _ => false
    | .outputContains t => contains text.toList t)

end Pandaria.Agent
