import Pandaria.Lib.Run
import Pandaria.Proofs.CallSteps
import Pandaria.Proofs.LoopSteps

/-!
# The recovery rules and what a session does

The rules are written for an assistant message that stopped with an error. An
agent loop never hands such a message on: it turns it into an error of its
own, and the session asks the rules about one of these errors only, a context
overflow. So the rules are followed for an overflow that a response reports,
and never for a retryable error, nor for an overflow that the stream call
reports instead of a response.

What an agent loop fails with is read off its last step; `Explained` keeps the
connection between the error and the message it comes from.
-/

namespace Pandaria.Agent

open Pandaria.Ai Pandaria.Lib

/-! ## What a loop fails with -/

namespace AgentLoop

/-- The assistant message a failed loop is about: the response it has
rejected, or what the failed call would have been answered with. -/
def failedMessage (l : AgentLoop) (e : AgentError) : Option AssistantMessage :=
  match e, l.locals.newMessages.getLast? with
  | .llmError le, _ => some (plainReply [] .error (some le.toString))
  | _, some (.assistant m) => some m
  | _, _ => none

/-- A loop that has failed was cancelled, or its request failed, or it has
rejected its last message. -/
def Explained (l : AgentLoop) : Prop :=
  match l.phase with
  | .responded reply => l.locals.newMessages.getLast? = some (.assistant reply)
  | .returned (.error e) =>
      RequestError e ∨ ∃ reply, l.locals.newMessages.getLast? = some (.assistant reply) ∧
        rejection reply = some e
  | _ => True

theorem explained_step (cfg : AgentLoopConfig) (env : Env) (l : AgentLoop) (h : l.Explained) :
    (step cfg env l).Explained := by
  cases step_cases cfg env l with
  | drainSteer _ h' | drainFollowUp _ h' | broken _ h' =>
      rw [h']
      trivial
  | done _ h' =>
      rw [Explained]
      rw [h']
      trivial
  | cancelled _ _ h' =>
      rw [Explained]
      rw [h']
      exact .inl (.inl rfl)
  | refused _ he h' =>
      rw [Explained]
      rw [h']
      exact .inl he
  | received _ h' hs =>
      rw [Explained]
      rw [h']
      show (step cfg env l).locals.newMessages.getLast? = _
      rw [hs.newMessages, List.getLast?_concat]
  | rejected hp hrej h' hs =>
      unfold Explained at h ⊢
      rw [hp] at h
      rw [h']
      refine .inr ⟨_, ?_, hrej⟩
      rw [hs.newMessages, List.append_nil]
      exact h
  | turned _ _ h' =>
      rw [Explained]
      rcases h' with h' | h'
      · rw [h']; trivial
      · rw [h']; trivial
  | ended _ h' =>
      rw [h']
      exact h

end AgentLoop

/-! ## Following the rules -/

/-- After a failed loop, the call does what the rules say about its message,
where they say to try again. -/
def Follows (cfg : SessionConfig) (env : Env) (c : Call) (l : AgentLoop) (e : AgentError) : Prop :=
  ∀ m, l.failedMessage e = some m →
    match (c.actor.machine.recovery.evaluate m).1 with
    | .retryAfterBackoff d => (c.step cfg env).phase = .backoff d
    | .retryAfterCompaction _ => (c.step cfg env).phase = .compactAndRetry
    | .abort _ | .continue_ => True

/-- The failure is not one to retry after a pause, and if it is an overflow
that the session has not met yet, a response has reported it. -/
def Heeded (r : RecoveryStateMachine) (l : AgentLoop) (e : AgentError) : Prop :=
  ∀ m, l.failedMessage e = some m →
    (isSessionRetryable m = true → r.maxRetries < r.retryCount + 1) ∧
      (isContextOverflow m = true → r.overflowAttempted = false → ∀ le, e ≠ .llmError le)

/-- An overflow is never retried after a pause. -/
theorem isSessionRetryable_of_isContextOverflow {m : AssistantMessage}
    (h : isContextOverflow m = true) : isSessionRetryable m = false := by
  rw [isSessionRetryable]
  rw [h, Bool.not_true, Bool.and_false]

/-- A call that is over does what the rules say when these do not say to try
again. -/
theorem over_follows_iff (r : RecoveryStateMachine) (m : AssistantMessage) (e : AgentError) :
    (match (r.evaluate m).1 with
      | .retryAfterBackoff d => CallPhase.returned (.error e) = .backoff d
      | .retryAfterCompaction _ => CallPhase.returned (.error e) = .compactAndRetry
      | .abort _ | .continue_ => True) ↔
    (isSessionRetryable m = true → r.maxRetries < r.retryCount + 1) ∧
      (isContextOverflow m = true → r.overflowAttempted = true) := by
  rw [RecoveryStateMachine.evaluate]
  by_cases ho : isContextOverflow m = true
  · rw [if_pos ho, isSessionRetryable_of_isContextOverflow ho]
    rw [RecoveryStateMachine.onOverflow]
    cases hf : r.overflowAttempted with
    | true => simp
    | false => simp [ho]
  · rw [if_neg ho]
    by_cases hr : isSessionRetryable m = true
    · rw [if_pos hr]
      rw [RecoveryStateMachine.onRetryable]
      by_cases hb : r.retryCount + 1 > r.maxRetries
      · rw [if_pos hb]
        exact ⟨fun _ => ⟨fun _ => hb, fun h => absurd h ho⟩, fun _ => trivial⟩
      · rw [if_neg hb]
        refine ⟨fun h => ?_, fun h => absurd (h.1 hr) hb⟩
        cases h
    · rw [if_neg hr]
      exact ⟨fun _ => ⟨fun h => absurd h hr, fun h => absurd h ho⟩, fun _ => trivial⟩

/-- A response is rejected as an overflow exactly when the rules find one in
it. -/
theorem rejection_overflow_iff {reply : AssistantMessage} {e : AgentError}
    (h : rejection reply = some e) :
    (isContextOverflow reply = true ∧ ∃ msg, e = .contextOverflow msg ∧ isOverflow msg = true) ∨
      (isContextOverflow reply = false ∧ ∃ msg, e = .llmResponseError msg) := by
  -- Only a response that stopped with an error can report an overflow.
  have hother : reply.stopReason ≠ .error → isContextOverflow reply = false := by
    intro hne
    rw [isContextOverflow]
    rw [decide_eq_false hne, Bool.false_and]
  rw [rejection] at h
  cases hs : reply.stopReason with
  | stop | toolUse =>
      rw [hs] at h
      cases h
  | aborted | length =>
      simp only [hs, reduceCtorEq, false_and, if_false, Option.some.injEq] at h
      exact .inr ⟨hother (by rw [hs]; nofun), _, h.symm⟩
  | error =>
      simp only [hs, true_and] at h
      have hflag : isContextOverflow reply = reply.errorMessage.any isOverflow := by
        rw [isContextOverflow]
        rw [hs, decide_eq_true rfl, Bool.true_and]
      cases hm : reply.errorMessage with
      | none =>
          have hdefault : isOverflow ("LLM returned stop reason: " ++ StopReason.error.debug) = false := by
            decide
          rw [hm, Option.getD_none, hdefault, if_neg nofun] at h
          injection h with h
          exact .inr ⟨by rw [hflag, hm]; rfl, _, h.symm⟩
      | some msg =>
          rw [hm, Option.getD_some] at h
          split at h
          · next ho =>
              injection h with h
              exact .inl ⟨by rw [hflag, hm]; exact ho, _, h.symm, ho⟩
          · next ho =>
              injection h with h
              exact .inr ⟨by rw [hflag, hm]; simpa using ho, _, h.symm⟩

/-! ## A failed attempt -/

/-- The step after a failed loop. -/
theorem step_failed {cfg : SessionConfig} {env : Env} {c : Call} {l : AgentLoop} {e : AgentError}
    (hp : c.phase = .looping l) (hl : l.phase = .returned (.error e)) :
    c.step cfg env = c.stepSettle env (.error e) l.locals.world := by
  simp only [Call.step, Call.stepWith, hp, hl]

/-- An error other than an overflow ends the call. -/
theorem step_other {cfg : SessionConfig} {env : Env} {c : Call} {l : AgentLoop} {e : AgentError}
    (hp : c.phase = .looping l) (hl : l.phase = .returned (.error e)) (hne : e ≠ .cancelled)
    (ho : ∀ msg, e ≠ .contextOverflow msg) :
    (c.step cfg env).phase = .returned (.error e) := by
  have hsettle : ∀ a : SessionActor,
      a.settle env (.error e) = (.fail e, a.enterIdle.enterError e.toString) := by
    intro a
    show a.settleErr e = _
    unfold SessionActor.settleErr
    split
    · exact absurd rfl hne
    · next msg => exact absurd rfl (ho msg)
    · rfl
  rw [step_failed hp hl, Call.stepSettle, hsettle]
  exact Call.leave_error _ _ _

/-- An overflow is answered by the rules. -/
theorem step_overflow {cfg : SessionConfig} {env : Env} {c : Call} {l : AgentLoop} {msg : String}
    (hp : c.phase = .looping l) (hl : l.phase = .returned (.error (.contextOverflow msg))) :
    match (c.actor.machine.recovery.evaluateOverflow msg).1 with
    | .retryAfterBackoff d => (c.step cfg env).phase = .backoff d
    | .retryAfterCompaction _ => (c.step cfg env).phase = .compactAndRetry
    | .abort _ | .continue_ => True := by
  have hidle : ∀ w, ({ c.actor with world := w } : SessionActor).enterIdle.machine.recovery =
      c.actor.machine.recovery := fun _ => rfl
  rw [step_failed hp hl]
  unfold Call.stepSettle SessionActor.settle SessionActor.settleErr
  simp only [hidle]
  cases (c.actor.machine.recovery.evaluateOverflow msg).1 with
  | continue_ => trivial
  | retryAfterBackoff d => rfl
  | retryAfterCompaction reason => rfl
  | abort reason => trivial

/-- Whether the rules are followed after a failed loop. -/
theorem follows_iff {cfg : SessionConfig} {env : Env} {c : Call} {l : AgentLoop} {e : AgentError}
    (hp : c.phase = .looping l) (hl : l.phase = .returned (.error e)) (hne : e ≠ .cancelled)
    (h : l.Explained) : Follows cfg env c l e ↔ Heeded c.actor.machine.recovery l e := by
  rw [AgentLoop.Explained] at h
  rw [hl] at h
  rcases h with (he | ⟨le, rfl⟩) | ⟨reply, hlast, hrej⟩
  · exact absurd he hne
  · -- The stream call has failed, and the call is over.
    have hm : l.failedMessage (.llmError le) =
        some (plainReply [] .error (some le.toString)) := rfl
    have hover := @step_other cfg env c l _ hp hl hne nofun
    unfold Follows Heeded
    simp only [hm, Option.some.injEq, forall_eq', hover]
    rw [over_follows_iff]
    refine and_congr_right fun _ => imp_congr_right fun _ => ?_
    constructor
    · intro ht hf
      rw [ht] at hf
      cases hf
    · intro h
      cases hf : c.actor.machine.recovery.overflowAttempted with
      | true => rfl
      | false => exact absurd rfl (h hf le)
  · rcases rejection_overflow_iff hrej with ⟨ho, msg, rfl, hmsg⟩ | ⟨ho, msg, rfl⟩
    · have hm : l.failedMessage (.contextOverflow msg) = some reply := by
        unfold AgentLoop.failedMessage
        rw [hlast]
      -- The rules are asked about the text, and say what they say of the message.
      have hsame : c.actor.machine.recovery.evaluate reply =
          c.actor.machine.recovery.evaluateOverflow msg := by
        unfold RecoveryStateMachine.evaluate RecoveryStateMachine.evaluateOverflow
        rw [if_pos ho, if_pos hmsg]
      unfold Follows Heeded
      simp only [hm, Option.some.injEq, forall_eq', hsame]
      refine ⟨fun _ => ⟨fun hr => ?_, fun _ _ le => nofun⟩, fun _ => step_overflow hp hl⟩
      rw [isSessionRetryable_of_isContextOverflow ho] at hr
      cases hr
    · have hm : l.failedMessage (.llmResponseError msg) = some reply := by
        unfold AgentLoop.failedMessage
        rw [hlast]
      have hover := @step_other cfg env c l _ hp hl hne nofun
      unfold Follows Heeded
      simp only [hm, Option.some.injEq, forall_eq', hover]
      rw [over_follows_iff]
      refine and_congr_right fun _ => ⟨fun _ _ _ le => nofun, fun _ h => ?_⟩
      rw [ho] at h
      cases h

/-! ## Whole calls -/

/-- Every loop of a call can account for its failure. -/
theorem explained_of_run (cfg : SessionConfig) (env : Env) (o : Op) (a : SessionActor) (n : Nat) :
    ∀ l, ((Call.step cfg env)^[n] (o.begin cfg env a)).phase = .looping l → l.Explained := by
  refine @iterate_invariant Call (Call.step cfg env)
    (fun c => ∀ l, c.phase = .looping l → l.Explained) ?_ (o.begin cfg env a) ?_ n
  · intro c h l hp
    rcases Call.looping_of_step hp with ⟨messages, w, rfl⟩ | ⟨l', hp', rfl⟩
    · trivial
    · exact AgentLoop.explained_step _ env l' (h l' hp')
  · intro l hp
    rcases @Op.begin_phase cfg env o a with
      ⟨_, hb⟩ | ⟨_, hb⟩ | ⟨_, hb⟩ | ⟨-, -, hb⟩ | ⟨_, _, _, -, hb⟩ <;> (rw [hp] at hb; cases hb)

/-- In every call, each time a loop fails over the provider, the session does
what the rules say exactly when the failure is one they are asked about. -/
theorem rules_followed_iff {cfg : SessionConfig} {env : Env} {o : Op} {a : SessionActor} {n : Nat}
    {l : AgentLoop} {e : AgentError}
    (hp : ((Call.step cfg env)^[n] (o.begin cfg env a)).phase = .looping l)
    (hl : l.phase = .returned (.error e)) (hne : e ≠ .cancelled) :
    Follows cfg env ((Call.step cfg env)^[n] (o.begin cfg env a)) l e ↔
      Heeded ((Call.step cfg env)^[n] (o.begin cfg env a)).actor.machine.recovery l e :=
  follows_iff hp hl hne (explained_of_run cfg env o a n l hp)

/-! ## An overflow and an overloaded provider -/

def complains (text : String) : Env :=
  { Env.quiet with stream := fun _ => .ok (complaining text) }

/-- A prompt whose only request is answered with an error, when its loop has
ended. -/
def complained (text : String) : Call :=
  (Call.step (plainConfig 0) (complains text))^[5]
    (Op.begin (plainConfig 0) (complains text) (.new (plainConfig 0)) (.prompt "go on"))

theorem overflow_followed :
    ∃ l, (complained "context length exceeded").phase = .looping l ∧
      l.phase = .returned (.error (.contextOverflow "context length exceeded")) ∧
      Follows (plainConfig 0) (complains "context length exceeded")
        (complained "context length exceeded") l (.contextOverflow "context length exceeded") := by
  refine ⟨_, rfl, rfl, ?_⟩
  have hiff := @rules_followed_iff (plainConfig 0) (complains "context length exceeded")
    (.prompt "go on") (.new (plainConfig 0)) 5 _ (.contextOverflow "context length exceeded")
    rfl rfl nofun
  refine hiff.mpr fun m hm => ?_
  obtain rfl := Option.some.inj hm
  exact ⟨nofun, fun _ _ _ => nofun⟩

/-- An overloaded provider is to be tried again, and the session is in error. -/
theorem overloaded_not_followed :
    ∃ l, (complained "overloaded").phase = .looping l ∧
      l.phase = .returned (.error (.llmResponseError "overloaded")) ∧
      ¬ Follows (plainConfig 0) (complains "overloaded") (complained "overloaded") l
        (.llmResponseError "overloaded") ∧
      ((complained "overloaded").step (plainConfig 0)
        (complains "overloaded")).actor.machine.state = .error := by
  refine ⟨_, rfl, rfl, fun h => ?_, rfl⟩
  have hb := h _ rfl
  cases hb

end Pandaria.Agent
