import Pandaria.Proofs.CallSteps

/-!
# What a goal comes to

`run_goal_sync` asks until an answer meets the criteria of its goal or its
attempts are used up, and each time it asks it says what was wrong with the
answer before. Between two of its prompts lie the agent loops, backoffs and
compactions of a whole run, none of which it sees. Seen from it there are only
prompts and answers, and a `Dialogue` is how they follow upon each other: what
is asked depends on the answers so far and on nothing else.

The invariant says how far the dialogue is and that the local variables of the
loop agree with it. A step inside a run keeps it, whatever it does to the
session, and so the argument has a case for each way into a run and out of it.
-/

namespace Pandaria.Agent

open Pandaria.Ai

variable {cfg : SessionConfig} {env : Env} {task : String} {goal : Goal}

/-! ## Prompts and answers -/

inductive GoalEvent where
  | asked (content : List Content)
  | answered (msgs : List AgentMessage)

namespace Goal

def Met (goal : Goal) (msgs : List AgentMessage) : Prop :=
  (evaluateCriteria msgs goal.criteria).allPassed = true

/-- What is asked after these answers, none of which will do. -/
def nextPrompt (goal : Goal) (task : String) (tries : List (List AgentMessage)) :
    List Content :=
  let lastEval := tries.getLast?.map fun msgs => evaluateCriteria msgs goal.criteria
  let text := if tries.length = 0 then buildInitialGoalPrompt task goal.criteria
    else buildRetryPrompt task goal.criteria tries.length goal.maxAttempts lastEval
  [.text text none]

/-- So far each prompt has had its answer, and no answer will do. -/
inductive Dialogue (goal : Goal) (task : String) :
    List GoalEvent → List (List AgentMessage) → Prop
  | nil : Dialogue goal task [] []
  | answered {log : List GoalEvent} {tries : List (List AgentMessage)} {msgs : List AgentMessage}
      (h : Dialogue goal task log tries) (hlt : tries.length < goal.maxAttempts)
      (hmet : ¬ goal.Met msgs) :
      Dialogue goal task (log ++ [.asked (goal.nextPrompt task tries), .answered msgs])
        (tries ++ [msgs])

/-- A prompt that is asked after these answers: an attempt, or the task itself
when the attempts are used up and the goal is content with any answer. -/
inductive Due (goal : Goal) (task : String) (tries : List (List AgentMessage)) :
    Bool → List Content → Prop
  | attempt (hlt : tries.length < goal.maxAttempts) :
      Due goal task tries false (goal.nextPrompt task tries)
  | fallback (hlen : tries.length = goal.maxAttempts) (hex : goal.onExhausted = .returnLast) :
      Due goal task tries true [.text task none]

/-- How a goal ends. -/
inductive Outcome (goal : Goal) (task : String) (log : List GoalEvent) :
    Except AgentError (List AgentMessage) → Prop
  | met {before : List GoalEvent} {tries : List (List AgentMessage)} {msgs : List AgentMessage}
      (h : Dialogue goal task before tries) (hlt : tries.length < goal.maxAttempts)
      (hlog : log = before ++ [.asked (goal.nextPrompt task tries), .answered msgs])
      (hmet : goal.Met msgs) : Outcome goal task log (.ok msgs)
  | last {before : List GoalEvent} {tries : List (List AgentMessage)} {msgs : List AgentMessage}
      (h : Dialogue goal task before tries) (hlen : tries.length = goal.maxAttempts)
      (hex : goal.onExhausted = .returnLast)
      (hlog : log = before ++ [.asked [.text task none], .answered msgs]) :
      Outcome goal task log (.ok msgs)
  | notMet {tries : List (List AgentMessage)} (h : Dialogue goal task log tries)
      (hlen : tries.length = goal.maxAttempts) (hex : goal.onExhausted = .abort) :
      Outcome goal task log
        (.error (.goalNotMet (goal.criteria.map GoalCriterion.id) goal.maxAttempts))
  | failed {before : List GoalEvent} {tries : List (List AgentMessage)} {exhausted : Bool}
      {prompt : List Content} {e : AgentError} (h : Dialogue goal task before tries)
      (hdue : Due goal task tries exhausted prompt) (hlog : log = before ++ [.asked prompt]) :
      Outcome goal task log (.error e)

theorem Dialogue.length_le {log : List GoalEvent} {tries : List (List AgentMessage)}
    (h : Dialogue goal task log tries) : tries.length ≤ goal.maxAttempts := by
  cases h with
  | nil => exact Nat.zero_le _
  | answered _ hlt _ =>
      rw [List.length_append, List.length_singleton]
      omega

end Goal

namespace Call

/-- What `run_goal_sync` sees of a step: that it calls `prompt_with_content`, or
that this returns. -/
def goalEvent (cfg : SessionConfig) (env : Env) (c : Call) : Option GoalEvent :=
  match c.phase with
  | .prompt content => some (.asked content)
  | .finish msgs =>
      if ((c.actor.finishRun cfg env msgs).persist env).isSome then some (.answered msgs) else none
  | _ => none

/-- Inside `run_with_messages`, where `run_goal_sync` sees nothing. -/
def CallPhase.Inside : CallPhase → Prop
  | .head | .looping _ | .backoff _ | .compactAndRetry | .threshold _ | .finish _ => True
  | _ => False

/-- The local variables of `run_goal_sync` after these answers. -/
def goalRun (task : String) (goal : Goal) (tries : List (List AgentMessage)) (exhausted : Bool) :
    GoalRun :=
  { task := task
    goal := goal
    attempt := tries.length
    lastEval := tries.getLast?.map fun msgs => evaluateCriteria msgs goal.criteria
    exhausted := exhausted }

/-- How far the dialogue of a call is. -/
inductive Going (task : String) (goal : Goal) (log : List GoalEvent) (c : Call) : Prop
  | attempt {tries : List (List AgentMessage)} (h : goal.Dialogue task log tries)
      (hphase : c.phase = .attempt (goalRun task goal tries false))
  | due {tries : List (List AgentMessage)} {exhausted : Bool} {prompt : List Content}
      (h : goal.Dialogue task log tries) (hdue : goal.Due task tries exhausted prompt)
      (hphase : c.phase = .prompt prompt)
      (hgoal : c.goal = some (goalRun task goal tries exhausted))
  | asked {before : List GoalEvent} {tries : List (List AgentMessage)} {exhausted : Bool}
      {prompt : List Content} (h : goal.Dialogue task before tries)
      (hdue : goal.Due task tries exhausted prompt) (hlog : log = before ++ [.asked prompt])
      (hphase : CallPhase.Inside c.phase)
      (hgoal : c.goal = some (goalRun task goal tries exhausted))
  | ended {result : Except AgentError (List AgentMessage)} (hphase : c.phase = .returned result)
      (houtcome : goal.Outcome task log result)
  | panicked (hphase : c.phase = .panicked)

/-! ## One step -/

/-- A step inside a run, as its goal sees it. -/
inductive Seen (cfg : SessionConfig) (env : Env) (c : Call) (g : GoalRun) : Call → Prop
  | nothing {c' : Call} (hevent : goalEvent cfg env c = none) (hphase : CallPhase.Inside c'.phase)
      (hgoal : c'.goal = some g) : Seen cfg env c g c'
  | error {c' : Call} {e : AgentError} (hevent : goalEvent cfg env c = none)
      (hphase : c'.phase = .returned (.error e)) : Seen cfg env c g c'
  | answer {a : SessionActor} {msgs : List AgentMessage}
      (hevent : goalEvent cfg env c = some (.answered msgs)) :
      Seen cfg env c g (c.leave a (.ok msgs))
  | panicked {c' : Call} (hphase : c'.phase = .panicked) : Seen cfg env c g c'

theorem seen_step {c : Call} {g : GoalRun} (hin : CallPhase.Inside c.phase)
    (hgoal : c.goal = some g) : Seen cfg env c g (c.step cfg env) := by
  cases step_cases cfg env c with
  | strategy h _ _ | lastPrompt h _ | notMet h _ | rejected h _ _ | unprepared h _ _ _
  | prepared h _ _ _ | deltasLooped h _ _ | deltasEnded h _ _ =>
      rw [h] at hin
      exact hin.elim
  | started h h' | looped h _ h' | backoffOver h h' | compacted h h' | belowThreshold h _ h'
  | thresholdCompacted h _ h' =>
      rw [h']
      refine .nothing ?_ trivial hgoal
      rw [goalEvent, h]
  | backoffAborted h h' | compactionFailed h _ h' | thresholdFailed h _ h' =>
      rw [h']
      refine .error ?_ (leave_error _ _ _)
      rw [goalEvent, h]
  | @settled l result h hl h' =>
      obtain ⟨next, machine, pushed, a, -, -, -, -, hs⟩ :=
        @stepSettle_spec env result l.locals.world c
      have hevent : goalEvent cfg env c = none := by rw [goalEvent, h]
      rw [h', hs]
      cases next with
      | backoff | compactAndRetry | absorbed => exact .nothing hevent trivial hgoal
      | fail e => exact .error hevent (leave_error _ _ _)
  | savePanicked h h' =>
      rw [h']
      exact .panicked rfl
  | broken h _ h' =>
      rw [h']
      exact .panicked rfl
  | finished h ha h' =>
      rw [h']
      refine .answer ?_
      simp only [goalEvent, h, ha, Option.isSome_some, if_true]
  | ended h _ =>
      rcases h with ⟨result, h⟩ | h
      · rw [h] at hin
        exact hin.elim
      · rw [h] at hin
        exact hin.elim

theorem Going.step {log : List GoalEvent} {c : Call} (h : Going task goal log c) :
    Going task goal (log ++ (goalEvent cfg env c).toList) (c.step cfg env) := by
  cases h with
  | @attempt tries hd hphase =>
      have hevent : goalEvent cfg env c = none := by rw [goalEvent, hphase]
      have hstep : c.step cfg env = stepAttempt cfg env (goalRun task goal tries false) c := by
        rw [Call.step, stepWith, hphase]
      rw [hevent, hstep, Option.toList_none, List.append_nil, stepAttempt]
      split
      · next hlt => exact .due hd (.attempt hlt) rfl rfl
      · next hlt =>
          have hlen : tries.length = goal.maxAttempts :=
            Nat.le_antisymm hd.length_le (Nat.le_of_not_lt hlt)
          split
          · next hex => exact .ended rfl (.notMet hd hlen hex)
          · next hex => exact .due hd (.fallback hlen hex) rfl rfl
  | @due tries exhausted prompt hd hdue hphase hgoal =>
      have hevent : goalEvent cfg env c = some (.asked prompt) := by rw [goalEvent, hphase]
      have hstep : c.step cfg env = stepPrompt cfg env prompt c := by
        rw [Call.step, stepWith, hphase]
      rw [hevent, hstep, Option.toList_some]
      rcases @stepPrompt_spec cfg env prompt c with ⟨-, hs⟩ | ⟨-, a, -, ⟨e, hs⟩ | hs⟩
      · rw [hs]
        exact .ended (leave_error _ _ _) (.failed hd hdue rfl)
      · rw [hs]
        exact .ended (leave_error _ _ _) (.failed hd hdue rfl)
      · rw [hs]
        exact .asked hd hdue rfl trivial hgoal
  | @asked before tries exhausted prompt hd hdue hlog hphase hgoal =>
      have hseen := @seen_step cfg env c _ hphase hgoal
      generalize c.step cfg env = c' at hseen
      cases hseen with
      | nothing hevent hphase hgoal =>
          rw [hevent, Option.toList_none, List.append_nil]
          exact .asked hd hdue hlog hphase hgoal
      | error hevent hphase =>
          rw [hevent, Option.toList_none, List.append_nil]
          exact .ended hphase (.failed hd hdue hlog)
      | panicked hphase => exact .panicked hphase
      | @answer a msgs hevent =>
          rw [hevent, Option.toList_some, hlog, List.append_assoc]
          simp only [leave, hgoal]
          cases hdue with
          | attempt hlt =>
              by_cases hmet : goal.Met msgs
              · have hpass : (evaluateCriteria msgs goal.criteria).allPassed = true := hmet
                simp only [goalRun, hpass, Bool.or_true, if_true]
                exact .ended rfl (.met hd hlt rfl hmet)
              · have hfail : (evaluateCriteria msgs goal.criteria).allPassed = false := by
                  simpa [Goal.Met] using hmet
                simp only [goalRun, hfail, Bool.or_false, Bool.false_eq_true, if_false]
                refine .attempt (hd.answered hlt hmet) ?_
                simp [goalRun]
          | fallback hlen hex =>
              simp only [goalRun, Bool.true_or, if_true]
              exact .ended rfl (.last hd hlen hex rfl)
  | ended hphase houtcome =>
      have hevent : goalEvent cfg env c = none := by rw [goalEvent, hphase]
      rw [hevent, Option.toList_none, List.append_nil, Call.step, stepWith, hphase]
      exact .ended hphase houtcome
  | panicked hphase =>
      rw [Call.step, stepWith, hphase]
      exact .panicked hphase

end Call

end Pandaria.Agent
