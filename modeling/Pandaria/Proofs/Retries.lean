import Pandaria.Proofs.CallSteps
import Mathlib.Data.Nat.Find

/-!
# How often a run is retried

`run_with_messages` is looked at here with its agent loops taken as given: the
results they return, one after the other, and what each does to the world. The
rules know two kinds of failure. One that is taken to be transient is retried
after a pause, and the counter that is to bound these retries is reset by
`mark_success` before every one of them. So the rules find it at zero each
time, and what bounds the retries is only that the provider stops failing in
this way. A context overflow is retried once, because its flag is kept.

The heads of the retry loop stand three steps apart. `AtHead` says where the
call is at each of them, and everything else follows by counting.
-/

namespace Pandaria.Agent

open Pandaria.Ai

/-! ## Results -/

/-- A failure the rules answer with a retry. -/
inductive Failure where
  | transient
  | overflow
deriving DecidableEq

/-- The failure in the result of a loop, if the rules find one. -/
def failureOf (result : Except AgentError (List AgentMessage)) : Option Failure :=
  match result with
  | .ok msgs =>
      match SessionActor.lastSettled msgs with
      | none => none
      | some m =>
          if isContextOverflow m then some .overflow
          else if isSessionRetryable m then some .transient else none
  | .error (.contextOverflow msg) => if isOverflow msg then some .overflow else some .transient
  | .error _ => none

/-- The loops of a run, each over as soon as it is started. -/
def startWith (outs : Nat → Except AgentError (List AgentMessage)) (worlds : Nat → World → World) :
    Call.StartLoop := fun i messages w =>
  { phase := .returned (outs i)
    locals := {
      messages := messages
      newMessages := []
      turnIndex := 0
      messageIndex := 0
      world := worlds i w
      drained := [] } }

/-- `run_with_messages` of the session `a`. -/
def runWithMessages (a : SessionActor) : Call := .begin a .head

/-- What a run is given: the results of its loops, what they do to the world,
and the rest of the program. -/
structure Scene where
  cfg : SessionConfig
  env : Env
  outs : Nat → Except AgentError (List AgentMessage)
  worlds : Nat → World → World

def Scene.step (s : Scene) (c : Call) : Call :=
  c.stepWith (startWith s.outs s.worlds) s.cfg s.env

/-- The run ends, after at most so many retries of the two kinds. -/
def Scene.Bounded (s : Scene) (a : SessionActor) (maxRetries : Nat) : Prop :=
  ∃ n, (s.step^[n] (runWithMessages a)).inProgress = false ∧
    (s.step^[n] (runWithMessages a)).backoffs ≤ maxRetries ∧
    (s.step^[n] (runWithMessages a)).compactions ≤ 1 ∧
    (s.step^[n] (runWithMessages a)).attempts ≤ maxRetries + 2

/-! ## Retries -/

section

variable (cfg : SessionConfig) (a : SessionActor)
  (outs : Nat → Except AgentError (List AgentMessage))

/-- The counter of retries as the rules find it. -/
def retryCountAt (i : Nat) : Nat := if i = 0 then a.machine.recovery.retryCount else 0

/-- No attempt before this one has overflown. -/
def FirstOverflow (i : Nat) : Prop := ∀ j < i, failureOf (outs j) ≠ some .overflow

/-- The transient failures among the first `n` results. -/
def transientsBefore (n : Nat) : Nat :=
  (List.range n).countP fun i => failureOf (outs i) = some .transient

end

/-! ## The heads of the retry loop -/

/-- Where the call is when its retry loop comes to its head for attempt `i`. -/
structure AtHead (s : Scene) (a : SessionActor) (i : Nat) (c : Call) : Prop where
  phase : c.phase = .head
  goal : c.goal = none
  attempts : c.attempts = i
  split : c.attempts = c.backoffs + c.compactions
  backoffs : c.backoffs = transientsBefore s.outs i
  retryCount : c.actor.machine.recovery.retryCount = retryCountAt a i
  maxRetries : c.actor.machine.recovery.maxRetries = a.machine.recovery.maxRetries
  /-- As long as there was no overflow, there was no compaction either. -/
  first : FirstOverflow s.outs i → c.compactions = 0 ∧ c.actor.history = a.history ∧
    c.actor.machine.recovery.overflowAttempted = a.machine.recovery.overflowAttempted
  later : ¬ FirstOverflow s.outs i → c.compactions = 1 ∧
    c.actor.machine.recovery.overflowAttempted = true

/-- The call is over, and this was its last attempt. -/
structure EndsAt (i backoffs compactions : Nat) (c : Call) : Prop where
  ended : c.inProgress = false
  attempts : c.attempts = i + 1
  backoffs : c.backoffs = backoffs
  compactions : c.compactions = compactions

section

variable {s : Scene} {a : SessionActor} {i : Nat} {c : Call}

/-- The call with its loop for attempt `i` over. -/
def Scene.looped (s : Scene) (c : Call) : Call :=
  { c with
    actor := c.actor.enterRun
    phase := .looping (startWith s.outs s.worlds c.attempts (c.actor.enterRun.context s.env)
      c.actor.enterRun.world)
    attempts := c.attempts + 1 }

end

/-! ## Whole runs -/

section

variable {cfg : SessionConfig} {a : SessionActor}
  {outs : Nat → Except AgentError (List AgentMessage)} {i : Nat} {c : Call}

end

/-- The counters of a call at its end. -/
theorem EndsAt.bounded {s : Scene} {a : SessionActor} {m i backoffs compactions maxRetries : Nat}
    (h : EndsAt i backoffs compactions (s.step^[m] (runWithMessages a)))
    (hsum : i = backoffs + compactions) (hb : backoffs ≤ maxRetries) (hc : compactions ≤ 1) :
    s.Bounded a maxRetries := by
  refine ⟨m, h.ended, ?_, ?_, ?_⟩
  · rw [h.backoffs]
    exact hb
  · rw [h.compactions]
    exact hc
  · rw [h.attempts]
    omega

end Pandaria.Agent
