import Pandaria.Proofs.Activity

/-!
# What one step of an agent loop can do

`Steps` lists the ways a step can end, guards included, so that what holds of
every step is a case analysis of it and nothing else unfolds `step`. Between
the drains, a step records and awaits, adds some messages, and leaves alone
what was drained before.
-/

namespace Pandaria.Agent

open Pandaria.Ai

variable {cfg : AgentLoopConfig} {env : Env}

/-- A request fails because it was cancelled, or with the provider's error. -/
def RequestError (e : AgentError) : Prop := e = .cancelled ∨ ∃ le, e = .llmError le

theorem readStream_error {i : Nat} {events : List AssistantMessageEvent} {r : PartialReply}
    {w w' : World} {e : AgentError} (h : readStream env i events r w = (.error e, w')) :
    e = .cancelled := by
  induction events generalizing r w with
  | nil => injection h with h _; cases h
  | cons ev rest ih =>
      rw [readStream.eq_def] at h
      simp only [] at h
      split at h
      · injection h with h _
        injection h with h
        exact h.symm
      · split at h
        · injection h with h _; cases h
        · exact ih h

theorem callAttempts_error {messages : List AgentMessage} {messageIndex maxRetries left : Nat}
    {w w' : World} {e : AgentError}
    (h : callAttempts cfg env messages messageIndex maxRetries left w = (.error e, w')) :
    RequestError e := by
  induction left generalizing w with
  | zero =>
      rw [callAttempts] at h
      split at h
      · injection h with h _
        injection h with h
        exact .inl h.symm
      · simp only [] at h
        split at h
        · injection h with h _
          injection h with h
          exact .inr ⟨_, h.symm⟩
        · split at h
          · next hr =>
              injection h with h _
              injection h with h
              subst h
              exact .inl (readStream_error hr)
          · injection h with h _; cases h
  | succ left ih =>
      rw [callAttempts] at h
      split at h
      · injection h with h _
        injection h with h
        exact .inl h.symm
      · simp only [] at h
        split at h
        · split at h
          · exact ih h
          · injection h with h _
            injection h with h
            exact .inr ⟨_, h.symm⟩
        · split at h
          · next hr =>
              injection h with h _
              injection h with h
              subst h
              exact .inl (readStream_error hr)
          · split at h
            · exact ih h
            · injection h with h _; cases h

theorem callLlmWithRetry_error {messages : List AgentMessage} {maxRetries messageIndex : Nat}
    {w w' : World} {e : AgentError}
    (h : callLlmWithRetry cfg env messages maxRetries messageIndex w = (.error e, w')) :
    RequestError e := by
  rw [callLlmWithRetry] at h
  split at h
  · split at h
    · injection h with h _
      injection h with h
      exact .inr ⟨_, h.symm⟩
    · exact callAttempts_error h
  · exact callAttempts_error h

theorem receiveResponse_error {s s' : LoopLocals} {e : AgentError}
    (h : receiveResponse cfg env s = (.error e, s')) : RequestError e := by
  rw [receiveResponse] at h
  simp only [] at h
  split at h
  · next hc =>
      injection h with h _
      injection h with h
      subst h
      exact callLlmWithRetry_error hc
  · injection h with h _; cases h

/-! ## Steps -/

/-- The locals after something between two drains, which has added `added`. -/
structure Turned (env : Env) (s s' : LoopLocals) (added : List AgentMessage) : Prop where
  world : Activity env loopObs s.world s'.world
  drained : s'.drained = s.drained
  newMessages : s'.newMessages = s.newMessages ++ added

/-- The loop announces its end. -/
theorem turned_endAgent (s : LoopLocals) : Turned env s (s.endAgent env) [] :=
  { world := (Activity.refl.emitLoop _).tick
    drained := rfl
    newMessages := (List.append_nil _).symm }

/-- And does so with an error. -/
theorem Turned.fail {s s' : LoopLocals} {added : List AgentMessage} (h : Turned env s s' added)
    (e : AgentError) : Turned env s (AgentLoop.fail env e s').locals added :=
  { world := ((h.world.emitLoop _).emitLoop _).tick
    drained := h.drained
    newMessages := h.newMessages }

namespace AgentLoop

inductive Steps (cfg : AgentLoopConfig) (env : Env) (l l' : AgentLoop) : Prop where
  | drainSteer (h : l.phase = .outer) (h' : l' = ⟨.inner, AgentLoop.drainSteer l.locals⟩)
  | drainFollowUp (h : l.phase = .stopped) (h' : l' = ⟨.outer, AgentLoop.drainFollowUp l.locals⟩)
  | done (h : l.phase = .stopped) (h' : l'.phase = .returned (.ok l.locals.newMessages))
      (hs : Turned env l.locals l'.locals [])
  | cancelled (h : l.phase = .inner) (hc : l.locals.world.cancelled = true)
      (h' : l'.phase = .returned (.error .cancelled)) (hs : Turned env l.locals l'.locals [])
  | refused {e : AgentError} (h : l.phase = .inner) (he : RequestError e)
      (h' : l'.phase = .returned (.error e)) (hs : Turned env l.locals l'.locals [])
  | received {reply : AssistantMessage} (h : l.phase = .inner) (h' : l'.phase = .responded reply)
      (hs : Turned env l.locals l'.locals [.assistant reply])
  | rejected {reply : AssistantMessage} {e : AgentError} (h : l.phase = .responded reply)
      (hrej : rejection reply = some e) (h' : l'.phase = .returned (.error e))
      (hs : Turned env l.locals l'.locals [])
  | turned {reply : AssistantMessage} {added : List AgentMessage} (h : l.phase = .responded reply)
      (hrej : rejection reply = none) (h' : l'.phase = .inner ∨ l'.phase = .stopped)
      (hs : Turned env l.locals l'.locals added)
  | broken {reply : AssistantMessage} (h : l.phase = .responded reply)
      (h' : l' = ⟨.panicked, l.locals⟩)
  | ended (h : (∃ result, l.phase = .returned result) ∨ l.phase = .panicked) (h' : l' = l)

theorem steps_inner {s : LoopLocals} : Steps cfg env ⟨.inner, s⟩ (step cfg env ⟨.inner, s⟩) := by
  obtain ⟨hturn, hd, hnew⟩ := receiveResponse_cases cfg env s
  have hw := hturn.without_le
  rw [step]
  simp only []
  split
  · next hc => exact .cancelled rfl hc rfl (turned_endAgent s)
  · split
    · next e s' hr =>
        rw [hr] at hw hd hnew
        rcases hnew with ⟨e', -, hnew⟩ | ⟨reply, he, -⟩
        · have hs : Turned env s s' [] := ⟨hw, hd, by rw [hnew, List.append_nil]⟩
          exact .refused rfl (receiveResponse_error hr) rfl (hs.fail e)
        · cases he
    · next reply s' hr =>
        rw [hr] at hw hd hnew
        rcases hnew with ⟨e, he, -⟩ | ⟨reply', he, hnew⟩
        · cases he
        · injection he with he
          subst he
          exact .received rfl rfl ⟨hw, hd, hnew⟩

theorem turnResult_ne_error (reply : AssistantMessage) (results : List ToolResultMessage)
    (e : AgentError) : turnResult reply results ≠ .error e := by
  intro h
  rw [turnResult] at h
  split at h
  · cases h
  · split at h <;> cases h

/-- A turn whose response is not rejected takes the loop to one of two heads. -/
theorem step_accepted {reply : AssistantMessage} {s s' : LoopLocals} {r : TurnResult}
    (hrej : rejection reply = none) (hf : finishTurn cfg env reply s = some (r, s')) :
    step cfg env ⟨.responded reply, s⟩ = ⟨.inner, s'⟩ ∨
      step cfg env ⟨.responded reply, s⟩ = ⟨.stopped, s'⟩ := by
  have hne : ∀ e, r ≠ .error e := by
    obtain ⟨-, -, ⟨e, he, -⟩ | ⟨-, -, rfl, -⟩ | ⟨results, w, -, -, -, rfl, -⟩⟩ := finishTurn_cases hf
    · rw [hrej] at he
      cases he
    · exact fun e he => by cases he
    · exact turnResult_ne_error reply results
  cases r with
  | toolUse => exact .inl (by simp only [step, hf])
  | stop => exact .inr (by simp only [step, hf])
  | error e => exact absurd rfl (hne e)

theorem steps_responded {reply : AssistantMessage} {s : LoopLocals} :
    Steps cfg env ⟨.responded reply, s⟩ (step cfg env ⟨.responded reply, s⟩) := by
  cases hf : finishTurn cfg env reply s with
  | none =>
      simp only [step, hf]
      exact .broken rfl rfl
  | some rs =>
      obtain ⟨r, s'⟩ := rs
      obtain ⟨hturn, hd, hcases⟩ := finishTurn_cases hf
      have hw := hturn.without_le
      obtain ⟨e, hrej, rfl, hnew⟩ | ⟨hrej, -, rfl, hnew⟩ |
        ⟨results, w, hrej, -, -, hr, hnew⟩ := hcases
      · have hs : Turned env s s' [] := ⟨hw, hd, by rw [hnew, List.append_nil]⟩
        simp only [step, hf]
        exact .rejected rfl hrej rfl (hs.fail e)
      · have hs : Turned env s s' [] := ⟨hw, hd, by rw [hnew, List.append_nil]⟩
        simp only [step, hf]
        exact .turned rfl hrej (.inr rfl) hs
      · have hs : Turned env s s' (results.map .toolResult) := ⟨hw, hd, hnew⟩
        rcases step_accepted hrej hf with h' | h'
        · exact .turned rfl hrej (.inl (congrArg phase h')) (by rw [h']; exact hs)
        · exact .turned rfl hrej (.inr (congrArg phase h')) (by rw [h']; exact hs)

theorem step_cases (cfg : AgentLoopConfig) (env : Env) (l : AgentLoop) :
    Steps cfg env l (step cfg env l) := by
  obtain ⟨phase, s⟩ := l
  cases phase with
  | outer => exact .drainSteer rfl rfl
  | inner => exact steps_inner
  | responded reply => exact steps_responded
  | stopped =>
      simp only [step]
      split
      · exact .done rfl rfl (turned_endAgent s)
      · exact .drainFollowUp rfl rfl
  | returned result => exact .ended (.inl ⟨result, rfl⟩) rfl
  | panicked => exact .ended (.inr rfl) rfl

/-! ## The token -/

/-- Where nobody aborts, a loop starts on a token that is not cancelled, -/
theorem not_cancelled_start (hno : ∀ n, env.abort n = false) (initialMessages : List AgentMessage)
    {w : World} (hw : w.cancelled = false) :
    (start env initialMessages w).locals.world.cancelled = false := by
  show (w.cancelled || env.abort w.now) = false
  rw [hw, hno]
  rfl

/-- and goes on with one. -/
theorem not_cancelled_step (hno : ∀ n, env.abort n = false) {l : AgentLoop}
    (h : l.locals.world.cancelled = false) : (step cfg env l).locals.world.cancelled = false := by
  cases step_cases cfg env l with
  | drainSteer _ h' => rw [h']; exact h
  | drainFollowUp _ h' => rw [h']; exact h
  | done _ _ hs => exact hs.world.not_cancelled hno h
  | cancelled _ _ _ hs => exact hs.world.not_cancelled hno h
  | refused _ _ _ hs => exact hs.world.not_cancelled hno h
  | received _ _ hs => exact hs.world.not_cancelled hno h
  | rejected _ _ _ hs => exact hs.world.not_cancelled hno h
  | turned _ _ _ hs => exact hs.world.not_cancelled hno h
  | broken _ h' => rw [h']; exact h
  | ended _ h' => rw [h']; exact h

end AgentLoop

end Pandaria.Agent
