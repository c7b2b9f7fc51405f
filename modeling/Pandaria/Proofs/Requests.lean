import Mathlib.Logic.Relation
import Pandaria.Proofs.LoopSteps

/-!
# The attempts of a request

`call_llm_with_retry` asks the provider, and asks again as long as the answer
is worth it and a retry is left. `callAttempts` is that loop; here it is taken
apart into attempts, each with the world it starts in, so that a statement can
be about one of them.
-/

namespace Pandaria.Agent

open Pandaria.Ai

variable {cfg : AgentLoopConfig} {env : Env}

/-! ## One attempt of a request -/

/-- What an attempt comes to: an error of `stream`, or a response that has
been read to its end. -/
abbrev Outcome := Except LlmError PartialReply

def worthRetry : Outcome → Bool
  | .error e => e.isRetryable
  | .ok r => isRetryableReply r

def errorText : Outcome → Option String
  | .error e => some e.toString
  | .ok r => r.errorMessage

structure RequestAttempt where
  messages : List AgentMessage
  messageIndex : Nat
  maxRetries : Nat
  left : Nat
  world : World

namespace RequestAttempt

/-- The loop of the request from this attempt on. -/
def result (cfg : AgentLoopConfig) (env : Env) (t : RequestAttempt) :
    Except AgentError (Nat × AssistantMessage) × World :=
  callAttempts cfg env t.messages t.messageIndex t.maxRetries t.left t.world

/-- The attempt itself. One that is cancelled has no outcome. -/
def outcome (cfg : AgentLoopConfig) (env : Env) (t : RequestAttempt) : Option Outcome × World :=
  if t.world.cancelled then (none, t.world)
  else
    match ((t.world.emit (.messageStart t.messageIndex)).observe (.stream t.messages)).await env
      env.stream with
    | (.error e, w) => (some (.error e), w)
    | (.ok events, w) =>
        match readStream env t.messageIndex events (.start cfg) w with
        | (.error _, w) => (none, w)
        | (.ok r, w) => (some (.ok r), w)

/-- The attempt after a plain backoff, where there is one. -/
def next (cfg : AgentLoopConfig) (env : Env) (t : RequestAttempt) : Option RequestAttempt :=
  match t.outcome cfg env, t.left with
  | (some o, w), left + 1 =>
      if worthRetry o then
        some { t with
          left := left
          world := autoRetry env (t.maxRetries - left) t.maxRetries (errorText o)
            (recordCircuit cfg env w) }
      else none
  | _, _ => none

/-- What the request returns of an outcome that is not retried. -/
def settled (cfg : AgentLoopConfig) (env : Env) (t : RequestAttempt) :
    Outcome → World → Except AgentError (Nat × AssistantMessage) × World
  | .error e, w =>
      (.error (.llmError e), (if e.isRetryable then recordCircuit cfg env w else w).emit
        (.autoRetryEnd false (some e.toString)))
  | .ok r, w =>
      (.ok (t.maxRetries - t.left, r.toMessage cfg (env.clock w.now)),
        (recordCircuit cfg env (if isRetryableReply r then recordCircuit cfg env w else w)).emit
          (.autoRetryEnd true none))

/-- The loop of a request, one attempt of it taken off. -/
theorem result_eq (t : RequestAttempt) :
    t.result cfg env =
      match t.outcome cfg env, t.next cfg env with
      | (none, w), _ => (.error .cancelled, w)
      | (some _, _), some t' => t'.result cfg env
      | (some o, w), none => t.settled cfg env o w := by
  obtain ⟨messages, messageIndex, maxRetries, left, w⟩ := t
  cases left with
  | zero =>
    rw [result, callAttempts, next, outcome]
    cases w.cancelled with
    | true => simp
    | false =>
      simp only [Bool.false_eq_true, if_false]
      generalize ((w.emit (.messageStart messageIndex)).observe (.stream messages)).await env
        env.stream = asked
      obtain ⟨e | events, w₁⟩ := asked
      · simp [settled]
      · simp only []
        cases hr : readStream env messageIndex events (.start cfg) w₁ with
        | mk read w₂ =>
          cases read with
          | error e => simp [readStream_error hr]
          | ok r => simp [settled]
  | succ left =>
    rw [result, callAttempts, next, outcome]
    cases w.cancelled with
    | true => simp
    | false =>
      simp only [Bool.false_eq_true, if_false]
      generalize ((w.emit (.messageStart messageIndex)).observe (.stream messages)).await env
        env.stream = asked
      obtain ⟨e | events, w₁⟩ := asked
      · simp only [worthRetry, errorText]
        by_cases he : e.isRetryable = true
        · simp [he, result]
        · simp [he, settled]
      · simp only []
        cases hr : readStream env messageIndex events (.start cfg) w₁ with
        | mk read w₂ =>
          cases read with
          | error e => simp [readStream_error hr]
          | ok r =>
            simp only [worthRetry, errorText]
            by_cases he : isRetryableReply r = true
            · simp [he, result]
            · simp [he, settled]

theorem result_of_next {t t' : RequestAttempt} (h : t.next cfg env = some t') :
    t.result cfg env = t'.result cfg env := by
  rw [result_eq, h]
  rw [next] at h
  split at h
  · next ho _ => rw [ho]
  · cases h

theorem result_of_last {t : RequestAttempt} {o : Outcome} {w : World}
    (ho : t.outcome cfg env = (some o, w)) (h : t.next cfg env = none) :
    t.result cfg env = t.settled cfg env o w := by
  rw [result_eq, ho, h]

theorem next_eq_none_iff {t : RequestAttempt} {o : Outcome} {w : World}
    (ho : t.outcome cfg env = (some o, w)) :
    t.next cfg env = none ↔ (worthRetry o = true → t.left = 0) := by
  rw [next, ho]
  cases hleft : t.left with
  | zero => simp
  | succ left => simp

end RequestAttempt

/-! ## The attempts of a turn -/

/-- The first attempt of the turn a loop is about to make. -/
structure AgentLoop.First (cfg : AgentLoopConfig) (env : Env) (l : AgentLoop) (t : RequestAttempt) :
    Prop where
  phase : l.phase = .inner
  uncancelled : l.locals.world.cancelled = false
  index : t.messageIndex = l.locals.messageIndex
  left : t.left = t.maxRetries
  admitted : ∃ w, prepareRequest cfg env { l.locals with turnIndex := l.locals.turnIndex + 1 } =
      ((t.messages, t.maxRetries), w) ∧
    if cfg.circuitBreaker then w.await env env.circuit = (none, t.world) else t.world = w

/-- An attempt of that turn. -/
def AgentLoop.Attempts (cfg : AgentLoopConfig) (env : Env) (l : AgentLoop)
    (t : RequestAttempt) : Prop :=
  ∃ t₀, l.First cfg env t₀ ∧ Relation.ReflTransGen (fun t t' => t.next cfg env = some t') t₀ t

theorem AgentLoop.First.result {l : AgentLoop} {t : RequestAttempt} (h : l.First cfg env t) :
    ∃ w, prepareRequest cfg env { l.locals with turnIndex := l.locals.turnIndex + 1 } =
        ((t.messages, t.maxRetries), w) ∧
      callLlmWithRetry cfg env t.messages t.maxRetries l.locals.messageIndex w =
        t.result cfg env := by
  obtain ⟨w, hprepared, hadmitted⟩ := h.admitted
  refine ⟨w, hprepared, ?_⟩
  rw [callLlmWithRetry, RequestAttempt.result, h.left, h.index]
  split
  · next hbreaker =>
    rw [if_pos hbreaker] at hadmitted
    rw [hadmitted]
  · next hbreaker =>
    rw [if_neg hbreaker] at hadmitted
    rw [hadmitted]

/-- Every attempt decides what the whole request comes to. -/
theorem AgentLoop.Attempts.result {l : AgentLoop} {t : RequestAttempt} (h : l.Attempts cfg env t) :
    ∃ t₀, l.First cfg env t₀ ∧ t₀.result cfg env = t.result cfg env := by
  obtain ⟨t₀, hfirst, hsteps⟩ := h
  refine ⟨t₀, hfirst, ?_⟩
  induction hsteps with
  | refl => rfl
  | tail _ hnext ih => rw [ih, RequestAttempt.result_of_next hnext]

end Pandaria.Agent
