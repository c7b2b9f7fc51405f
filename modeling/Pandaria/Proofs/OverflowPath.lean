import Pandaria.Ai.Overflow
import Pandaria.Proofs.Requests

/-!
# From a provider's overflow to a compaction

Three places read the text of an error. `is_context_overflow` of `ai-provider`
knows what nineteen kinds of provider say; the agent loop and the recovery of
a session look for `context length` or `token limit` and nothing else; and
before either of them does, the retries of a request look for the signs of a
passing failure, which a number inside the text can be taken for.

Of the outcome of an attempt that the first place accepts, `handled_iff` says
what the other two make of it.
-/

namespace Pandaria.Agent

open Pandaria.Ai

variable {cfg : AgentLoopConfig} {env : Env}

/-! ## What the loop makes of it -/

theorem rejection_eq_overflow {m : AssistantMessage} {msg : String} :
    rejection m = some (.contextOverflow msg) ↔
      m.stopReason = .error ∧ m.errorMessage = some msg ∧ isOverflow msg = true := by
  have hdefault : isOverflow ("LLM returned stop reason: " ++ StopReason.error.debug) = false := by
    decide
  rw [rejection]
  cases hreason : m.stopReason with
  | stop | toolUse => simp
  | aborted | length => simp
  | error =>
    cases hmsg : m.errorMessage with
    | none => simp [hdefault]
    | some text =>
      simp only [Option.getD_some, true_and, Option.some.injEq]
      split
      · next h =>
        constructor
        · intro heq
          injection heq with heq
          injection heq with heq
          exact ⟨heq, heq ▸ h⟩
        · rintro ⟨rfl, _⟩
          rfl
      · next h =>
        constructor
        · intro heq
          injection heq with heq
          cases heq
        · rintro ⟨rfl, hoverflow⟩
          exact absurd hoverflow h

/-- A turn fails exactly where its response is turned down. -/
theorem finishTurn_error {reply : AssistantMessage} {s s' : LoopLocals} {e : AgentError} :
    finishTurn cfg env reply s = some (.error e, s') ↔ rejection reply = some e ∧ s' = s := by
  unfold finishTurn
  split
  · next e' hrejected =>
    simp [hrejected, eq_comm]
  · next hrejected =>
    simp only [hrejected, reduceCtorEq, false_and, iff_false]
    intro hturn
    split at hturn
    · cases hturn
    · obtain ⟨results, _, hturn⟩ := Option.map_eq_some_iff.mp hturn
      have hresult := congrArg Prod.fst hturn
      simp only [turnResult] at hresult
      split at hresult
      · cases hresult
      · split at hresult <;> cases hresult

theorem step_responded_overflow {reply : AssistantMessage} {s : LoopLocals} {msg : String} :
    (AgentLoop.step cfg env ⟨.responded reply, s⟩).phase =
        .returned (.error (.contextOverflow msg)) ↔
      rejection reply = some (.contextOverflow msg) := by
  rw [AgentLoop.step]
  simp only []
  constructor
  · intro h
    split at h
    · cases h
    · next e s' hturn =>
      simp only [AgentLoop.fail, LoopPhase.returned.injEq, Except.error.injEq] at h
      rw [(finishTurn_error.mp hturn).1, h]
    · cases h
    · cases h
  · intro h
    rw [finishTurn_error.mpr ⟨h, rfl⟩]
    rfl

theorem AgentLoop.First.step_eq {l : AgentLoop} {t : RequestAttempt}
    (h : l.First cfg env t) :
    AgentLoop.step cfg env l = match receiveResponse cfg env l.locals with
      | (.error e, s) => AgentLoop.fail env e s
      | (.ok reply, s) => { phase := .responded reply, locals := s } := by
  rw [AgentLoop.step, h.phase]
  exact if_neg (by rw [h.uncancelled]; exact Bool.false_ne_true)

/-- Two steps after the loop is about to make a turn, its request and the
response to it are through. -/
theorem AgentLoop.Attempts.returned_iff {l : AgentLoop} {t : RequestAttempt} {msg : String}
    (h : l.Attempts cfg env t) :
    ((AgentLoop.step cfg env)^[2] l).phase = .returned (.error (.contextOverflow msg)) ↔
      ∃ n reply w, t.result cfg env = (.ok (n, reply), w) ∧
        rejection ((env.onAfterProviderResponse w.now).apply reply) =
          some (.contextOverflow msg) := by
  obtain ⟨t₀, hfirst, hresult⟩ := h.result
  obtain ⟨w₀, hprepared, hcall⟩ := hfirst.result
  rw [hresult] at hcall
  rw [show (AgentLoop.step cfg env)^[2] l =
    AgentLoop.step cfg env (AgentLoop.step cfg env l) from rfl]
  rw [hfirst.step_eq, receiveResponse]
  simp only [hprepared, hcall]
  cases houtcome : t.result cfg env with
  | mk result w =>
    cases result with
    | error e =>
      -- An error of the request itself is never an overflow.
      have herror : RequestError e := callAttempts_error houtcome
      constructor
      · intro hphase
        injection hphase with hphase
        injection hphase with hphase
        subst hphase
        rcases herror with herror | ⟨_, herror⟩ <;> cases herror
      · rintro ⟨_, _, _, hok, _⟩
        injection hok with hok _
        cases hok
    | ok answer =>
      obtain ⟨n, reply⟩ := answer
      rw [step_responded_overflow]
      constructor
      · intro hrejected
        exact ⟨n, reply, w, rfl, hrejected⟩
      · rintro ⟨_, _, _, hok, hrejected⟩
        cases hok
        exact hrejected

theorem compactAndRetry_iff (a : SessionActor) {msg : String} (h : isOverflow msg = true) :
    (a.settle env (.error (.contextOverflow msg))).1 = .compactAndRetry ↔
      a.machine.recovery.overflowAttempted = false := by
  have hactor : (a.enterIdle).machine.recovery = a.machine.recovery := rfl
  rw [SessionActor.settle, SessionActor.settleErr]
  simp only [hactor, RecoveryStateMachine.evaluateOverflow, h, if_true,
    RecoveryStateMachine.onOverflow]
  cases a.machine.recovery.overflowAttempted with
  | true => simp
  | false => simp

/-! ## Two readings of one outcome -/

/-- `is_context_overflow` takes the outcome for an overflow, an error of
`stream` where it is one by its variant. -/
def Accepted (digit : Char → Bool) (contextWindow : Option Nat) : Outcome → Prop
  | .error (.contextOverflow msg) =>
      Overflow.isContextOverflow digit (some msg) .error contextWindow 0 0 = true
  | .error _ => False
  | .ok r =>
      Overflow.isContextOverflow digit r.errorMessage r.stopReason contextWindow
        r.usage.inputTokens (r.usage.cacheReadInputTokens.getD 0) = true

namespace RequestAttempt

/-- The loop returns the overflow, the recovery of the session compacts and
retries, and the request has not tried again by itself. -/
structure HandledAsOverflow (cfg : AgentLoopConfig) (env : Env) (l : AgentLoop) (a : SessionActor)
    (t : RequestAttempt) : Prop where
  recovered : ∃ msg, ((AgentLoop.step cfg env)^[2] l).phase =
      .returned (.error (.contextOverflow msg)) ∧
    (a.settle env (.error (.contextOverflow msg))).1 = .compactAndRetry
  notRetried : t.next cfg env = none

/-- What the hook makes of the response the outcome becomes. -/
def mutation (cfg : AgentLoopConfig) (env : Env) (t : RequestAttempt) (o : Outcome) (w : World) :
    ProviderResponseMutation :=
  env.onAfterProviderResponse (t.settled cfg env o w).2.now

/-- The outcome is a response with an error the loop knows for an overflow,
and which is not retried before it gets there. -/
inductive Recognised (cfg : AgentLoopConfig) (env : Env) (a : SessionActor)
    (t : RequestAttempt) (w : World) : Outcome → Prop where
  | response {r : PartialReply} {msg : String} (message : r.errorMessage = some msg)
      (known : isOverflow msg = true)
      (reason : (t.mutation cfg env (.ok r) w).stopReason.getD r.stopReason = .error)
      (last : isRetryableReply r = true → t.left = 0)
      (first : a.machine.recovery.overflowAttempted = false) : Recognised cfg env a t w (.ok r)

theorem handled_iff {l : AgentLoop} {a : SessionActor} {t : RequestAttempt} {o : Outcome}
    {w : World} (ht : l.Attempts cfg env t) (ho : t.outcome cfg env = (some o, w)) :
    t.HandledAsOverflow cfg env l a ↔ t.Recognised cfg env a w o := by
  constructor
  · rintro ⟨⟨msg, hreturned, hrecovered⟩, hlast⟩
    obtain ⟨n, reply, w', hresult, hrejected⟩ := ht.returned_iff.mp hreturned
    rw [result_of_last ho hlast] at hresult
    obtain ⟨hreason, hmessage, hknown⟩ := rejection_eq_overflow.mp hrejected
    cases o with
    | error e =>
      injection hresult with hresult _
      cases hresult
    | ok r =>
      have hworld : w' = (t.settled cfg env (.ok r) w).2 := by rw [hresult]
      have hreply : reply = r.toMessage cfg (env.clock w.now) := by
        injection hresult with hresult _
        injection hresult with hresult
        exact (congrArg Prod.snd hresult).symm
      subst hreply hworld
      exact .response hmessage hknown hreason ((next_eq_none_iff ho).mp hlast)
        ((compactAndRetry_iff a hknown).mp hrecovered)
  · rintro ⟨hmessage, hknown, hreason, hlast, hfirst⟩
    have hnext : t.next cfg env = none := (next_eq_none_iff ho).mpr hlast
    refine ⟨⟨_, ht.returned_iff.mpr ⟨_, _, _, result_of_last ho hnext, ?_⟩,
      (compactAndRetry_iff a hknown).mpr hfirst⟩, hnext⟩
    exact rejection_eq_overflow.mpr ⟨hreason, hmessage, hknown⟩

end RequestAttempt

/-- Every outcome of a request that `is_context_overflow` accepts is handled
as an overflow all the way, exactly where each is one the loop recognises. -/
theorem overflow_path_iff (digit : Char → Bool) (contextWindow : Option Nat)
    (cfg : AgentLoopConfig) (env : Env) (l : AgentLoop) (a : SessionActor) :
    (∀ t o w, l.Attempts cfg env t → t.outcome cfg env = (some o, w) →
        Accepted digit contextWindow o → t.HandledAsOverflow cfg env l a) ↔
      ∀ t o w, l.Attempts cfg env t → t.outcome cfg env = (some o, w) →
        Accepted digit contextWindow o → t.Recognised cfg env a w o := by
  constructor
  · intro h t o w ht ho haccepted
    exact (RequestAttempt.handled_iff ht ho).mp (h t o w ht ho haccepted)
  · intro h t o w ht ho haccepted
    exact (RequestAttempt.handled_iff ht ho).mpr (h t o w ht ho haccepted)

/-! ## Which patterns the loop knows -/

theorem contains_iff {text : List Char} {pattern : String} :
    contains text pattern = true ↔ pattern.toList <:+: text := by
  rw [contains, List.any_eq_true]
  constructor
  · rintro ⟨rest, hrest, hstart⟩
    exact (List.isPrefixOf_iff_prefix.mp hstart).isInfix.trans
      ((List.mem_tails _ _).mp hrest).isInfix
  · rintro ⟨before, after, rfl⟩
    refine ⟨pattern.toList ++ after, (List.mem_tails _ _).mpr ⟨before, by simp⟩, ?_⟩
    exact List.isPrefixOf_iff_prefix.mpr (List.prefix_append _ _)

/-- A word of lower case letters is still there in the lower case of a text. -/
theorem contains_toLowercase {word text : String} (hlower : toLowercase word = word.toList)
    (h : word.toList <:+: text.toList) : contains (toLowercase text) word = true := by
  obtain ⟨before, after, htext⟩ := h
  refine contains_iff.mpr ⟨before.flatMap lowerChar, after.flatMap lowerChar, ?_⟩
  rw [toLowercase, ← htext, List.flatMap_append, List.flatMap_append]
  rw [toLowercase] at hlower
  rw [hlower]

theorem isOverflow_of_search {m : Lib.Matcher Char} {msg : String}
    (h : m.Has "context length".toList ∨ m.Has "token limit".toList)
    (hs : m.search msg.toList = true) : isOverflow msg = true := by
  rw [isOverflow, Bool.or_eq_true]
  rcases h with h | h
  · exact Or.inl (contains_toLowercase (by decide) (h.infix_of_search hs))
  · exact Or.inr (contains_toLowercase (by decide) (h.infix_of_search hs))

section Patterns

open Overflow Lib.Matcher

/-- Five of the patterns, those of OpenRouter, LM Studio, Kimi and Ollama and
half of the last one, are about texts the loop knows. -/
theorem isOverflow_of_pattern (digit : Char → Bool) {msg : String} {m : Lib.Matcher Char}
    (hm : m ∈ [seq (text "maximum context length is ") (seq (number digit) (text " tokens")),
      text "greater than the context length", text "exceeded model token limit",
      seq (text "prompt too long") (seq (many dot) (text "context length")),
      text "token limit exceeded"])
    (hs : m.search msg.toList = true) : isOverflow msg = true := by
  refine isOverflow_of_search ?_ hs
  simp only [List.mem_cons, List.not_mem_nil, or_false] at hm
  rcases hm with rfl | rfl | rfl | rfl | rfl
  · exact Or.inl ((has_word (by decide)).seq_left
      ((sound_one.seq sound_many).seq sound_word))
  · exact Or.inl (has_word (by decide))
  · exact Or.inr (has_word (by decide))
  · exact Or.inl (Has.seq_right sound_word
      (Has.seq_right sound_many (has_word (List.infix_refl _))))
  · exact Or.inr (has_word (by decide))

end Patterns

/-! ## Two texts that are lost -/

/-- A provider that answers every request with this error. -/
def refusing (text : String) : Env :=
  { Env.quiet with stream := fun _ => .ok (complaining text) }

/-- A loop about to make its first turn. -/
def aboutToAsk : AgentLoop :=
  { phase := .inner
    locals := {
      messages := []
      newMessages := []
      turnIndex := 0
      messageIndex := 0
      world := .fresh
      drained := [] } }

def refusedAttempt (maxRetries : Nat) (text : String) : RequestAttempt :=
  { messages := []
    messageIndex := 0
    maxRetries := maxRetries
    left := maxRetries
    world := (prepareRequest { (plainConfig 0).loop with maxRetries := maxRetries } (refusing text)
      { aboutToAsk.locals with turnIndex := 1 }).2 }

theorem refusedAttempt_first (maxRetries : Nat) (text : String) :
    aboutToAsk.Attempts { (plainConfig 0).loop with maxRetries := maxRetries } (refusing text)
      (refusedAttempt maxRetries text) :=
  ⟨_, ⟨rfl, rfl, rfl, rfl, _, rfl, rfl⟩, .refl⟩

theorem refusedAttempt_outcome (maxRetries : Nat) (text : String) :
    ∃ r w, (refusedAttempt maxRetries text).outcome
        { (plainConfig 0).loop with maxRetries := maxRetries } (refusing text) = (some (.ok r), w) ∧
      r.errorMessage = some text ∧ r.stopReason = .error :=
  ⟨_, _, rfl, rfl, rfl⟩

theorem accepted_of_matches {digit : Char → Bool} {r : PartialReply} {text : String}
    (hmessage : r.errorMessage = some text) (hreason : r.stopReason = .error)
    (h : Overflow.matchesOverflow digit text = true) : Accepted digit none (.ok r) := by
  rw [Accepted, hmessage, hreason, Overflow.isContextOverflow, Option.any_some, h]
  rfl

set_option maxRecDepth 4000 in
/-- `prompt is too long` is an overflow for `is_context_overflow` and for
nobody else, and in `maximum context length is 8500 tokens` the `500` is taken
for a status of the server. -/
theorem overflow_lost :
    (∃ t o w, aboutToAsk.Attempts { (plainConfig 0).loop with maxRetries := 0 }
        (refusing "prompt is too long") t ∧
      t.outcome { (plainConfig 0).loop with maxRetries := 0 } (refusing "prompt is too long") =
        (some o, w) ∧
      Accepted Char.isDigit none o ∧
      ¬ t.HandledAsOverflow { (plainConfig 0).loop with maxRetries := 0 }
        (refusing "prompt is too long") aboutToAsk (plainSession (plainConfig 0) [])) ∧
    ∃ t o w, aboutToAsk.Attempts { (plainConfig 0).loop with maxRetries := 1 }
        (refusing "maximum context length is 8500 tokens") t ∧
      t.outcome { (plainConfig 0).loop with maxRetries := 1 }
        (refusing "maximum context length is 8500 tokens") = (some o, w) ∧
      Accepted Char.isDigit none o ∧
      ¬ t.HandledAsOverflow { (plainConfig 0).loop with maxRetries := 1 }
        (refusing "maximum context length is 8500 tokens") aboutToAsk
        (plainSession (plainConfig 0) []) := by
  constructor
  · obtain ⟨r, w, houtcome, hmessage, hreason⟩ := refusedAttempt_outcome 0 "prompt is too long"
    refine ⟨_, _, _, refusedAttempt_first 0 _, houtcome,
      accepted_of_matches hmessage hreason (by decide +kernel), ?_⟩
    rw [RequestAttempt.handled_iff (refusedAttempt_first 0 _) houtcome]
    rintro ⟨hmessage', hknown, _, _, _⟩
    obtain rfl := Option.some.inj (hmessage.symm.trans hmessage')
    exact absurd hknown (by decide +kernel)
  · obtain ⟨r, w, houtcome, hmessage, hreason⟩ :=
      refusedAttempt_outcome 1 "maximum context length is 8500 tokens"
    refine ⟨_, _, _, refusedAttempt_first 1 _, houtcome,
      accepted_of_matches hmessage hreason (by decide +kernel), ?_⟩
    rw [RequestAttempt.handled_iff (refusedAttempt_first 1 _) houtcome]
    rintro ⟨_, _, _, hlast, _⟩
    have hretryable : isRetryableReply r = true := by
      rw [isRetryableReply, hmessage, hreason]
      decide +kernel
    exact absurd (hlast hretryable) (by decide)

end Pandaria.Agent
