import Pandaria.Proofs.LoopSteps
import Pandaria.Proofs.ProviderStreams

/-!
# What a stream that breaks off is taken for

A stream of events has two readers. `to_message` wants a `Done` or an `Error`
and calls a stream without either an error. The agent loop starts from a
response that has stopped, changes that at `Done` and at `Error`, and takes
what it has when the events end; `rejection` is where it then turns a response
down. Both verdicts are a matter of the terminal events alone, so they are
compared there.

The other half is what the providers send. A connection that closes early ends
the loops of four of them without a terminal event, and the fifth closes with a
`Done` whatever it has read.
-/

namespace Pandaria.Agent

open Pandaria.Ai

variable {cfg : AgentLoopConfig} {env : Env}

/-! ## Reading a stream to its end -/

namespace PartialReply

/-- All the events of a stream, up to an `Error`. -/
def readAll (r : PartialReply) : List AssistantMessageEvent → PartialReply
  | [] => r
  | .error m :: _ => { r with errorMessage := m.errorMessage, stopReason := m.stopReason }
  | e :: rest => (r.take e).readAll rest

theorem readAll_cons (r : PartialReply) {e : AssistantMessageEvent}
    (he : ∀ m, e ≠ .error m) (rest : List AssistantMessageEvent) :
    r.readAll (e :: rest) = (r.take e).readAll rest := by
  cases e with
  | error m => exact absurd rfl (he m)
  | _ => rfl

end PartialReply

theorem readStream_ok {i : Nat} {events : List AssistantMessageEvent} {r r' : PartialReply}
    {w w' : World} (h : readStream env i events r w = (.ok r', w')) : r' = r.readAll events := by
  induction events generalizing r w with
  | nil =>
      injection h with h _
      injection h with h
      exact h.symm
  | cons e rest ih =>
      rw [readStream.eq_def] at h
      simp only [] at h
      split at h
      · injection h with h _; cases h
      · split at h
        · injection h with h _
          injection h with h
          exact h.symm
        · next hne =>
            rw [PartialReply.readAll_cons r hne]
            exact ih h

/-- A response the loop goes on from was read off the last stream it asked for. -/
theorem callAttempts_ok {messages : List AgentMessage} {messageIndex maxRetries left n : Nat}
    {w w' : World} {reply : AssistantMessage}
    (h : callAttempts cfg env messages messageIndex maxRetries left w = (.ok (n, reply), w')) :
    ∃ t events w₁ w₂ r, env.stream t = .ok events ∧
      readStream env messageIndex events (.start cfg) w₁ = (.ok r, w₂) ∧
      reply = r.toMessage cfg (env.clock w₂.now) := by
  induction left generalizing w with
  | zero =>
      rw [callAttempts] at h
      split at h
      · injection h with h _; cases h
      · simp only [] at h
        split at h
        · injection h with h _; cases h
        · next events w₁ hs =>
            split at h
            · injection h with h _; cases h
            · next r w₂ hr =>
                injection h with h _
                injection h with h
                injection h with _ h
                exact ⟨_, events, w₁, w₂, r, congrArg Prod.fst hs, hr, h.symm⟩
  | succ left ih =>
      rw [callAttempts] at h
      split at h
      · injection h with h _; cases h
      · simp only [] at h
        split at h
        · split at h
          · exact ih h
          · injection h with h _; cases h
        · next events w₁ hs =>
            split at h
            · injection h with h _; cases h
            · next r w₂ hr =>
                split at h
                · exact ih h
                · injection h with h _
                  injection h with h
                  injection h with _ h
                  exact ⟨_, events, w₁, w₂, r, congrArg Prod.fst hs, hr, h.symm⟩

theorem callLlmWithRetry_ok {messages : List AgentMessage} {maxRetries messageIndex n : Nat}
    {w w' : World} {reply : AssistantMessage}
    (h : callLlmWithRetry cfg env messages maxRetries messageIndex w = (.ok (n, reply), w')) :
    ∃ t events w₁ w₂ r, env.stream t = .ok events ∧
      readStream env messageIndex events (.start cfg) w₁ = (.ok r, w₂) ∧
      reply = r.toMessage cfg (env.clock w₂.now) := by
  rw [callLlmWithRetry] at h
  split at h
  · split at h
    · injection h with h _; cases h
    · exact callAttempts_ok h
  · exact callAttempts_ok h

/-! ## Two verdicts -/

/-- A stop reason a response is turned down for. -/
def failing : StopReason → Bool
  | .error | .aborted | .length => true
  | .stop | .toolUse => false

theorem rejection_eq_none_iff (m : AssistantMessage) :
    rejection m = none ↔ failing m.stopReason = false := by
  rw [rejection]
  cases m.stopReason with
  | stop | toolUse => exact ⟨fun _ => rfl, fun _ => rfl⟩
  | error | aborted | length =>
      simp only [failing]
      split <;> simp

/-- The stop reason in force when a stream ends: that of its first `Error`, or
of its last `Done`. -/
def finalReason : StopReason → List AssistantMessageEvent → StopReason
  | reason, [] => reason
  | _, .error m :: _ => m.stopReason
  | _, .done reason _ :: rest => finalReason reason rest
  | reason, _ :: rest => finalReason reason rest

theorem readAll_stopReason (r : PartialReply) (events : List AssistantMessageEvent) :
    (r.readAll events).stopReason = finalReason r.stopReason events := by
  induction events generalizing r with
  | nil => rfl
  | cons e rest ih =>
      cases e with
      | error m => rfl
      | _ => exact ih _

theorem finalReason_append {body : List AssistantMessageEvent} (h : Quiet body)
    (reason : StopReason) (rest : List AssistantMessageEvent) :
    finalReason reason (body ++ rest) = finalReason reason rest := by
  induction body with
  | nil => rfl
  | cons e body ih =>
      have he := h e List.mem_cons_self
      have hbody := ih fun e' he' => h e' (List.mem_cons_of_mem _ he')
      cases e with
      | done | error => cases he
      | _ => exact hbody

theorem toMessage_append {body : List AssistantMessageEvent} (h : Quiet body)
    (rest : List AssistantMessageEvent) : toMessage (body ++ rest) = toMessage rest := by
  induction body with
  | nil => rfl
  | cons e body ih =>
      have he := h e List.mem_cons_self
      have hbody := ih fun e' he' => h e' (List.mem_cons_of_mem _ he')
      cases e with
      | done | error => cases he
      | _ => exact hbody

/-- `to_message` reports a response that is not to be turned down. -/
def Collects (events : List AssistantMessageEvent) : Prop :=
  ∃ m, toMessage events = .ok m ∧ rejection m = none

/-- The agent loop reports a success exactly where `to_message` does. -/
def SameVerdict (cfg : AgentLoopConfig) (events : List AssistantMessageEvent) (r : PartialReply)
    (now : SystemTime) : Prop :=
  rejection (r.toMessage cfg now) = none ↔ Collects events

/-- The stream has a terminal event, and the first one says what the stop
reason in force at the end says. -/
inductive Settled : List AssistantMessageEvent → Prop where
  | done {body rest : List AssistantMessageEvent} {reason : StopReason} {m : AssistantMessage}
      (h : Quiet body) (hm : failing m.stopReason = failing (finalReason reason rest)) :
      Settled (body ++ .done reason m :: rest)
  | error {body rest : List AssistantMessageEvent} {m : AssistantMessage}
      (h : Quiet body) (hm : failing m.stopReason = true) : Settled (body ++ .error m :: rest)

theorem sameVerdict_iff_final {events : List AssistantMessageEvent} {r : PartialReply}
    (hr : r = (PartialReply.start cfg).readAll events) (now : SystemTime) :
    SameVerdict cfg events r now ↔
      (failing (finalReason .stop events) = false ↔ Collects events) := by
  have hreason : (r.toMessage cfg now).stopReason = finalReason .stop events := by
    rw [hr]
    exact readAll_stopReason _ _
  rw [SameVerdict, rejection_eq_none_iff, hreason]

theorem quiet_or_terminal (events : List AssistantMessageEvent) :
    Quiet events ∨ ∃ body e rest, events = body ++ e :: rest ∧ Quiet body ∧ e.isTerminal = true := by
  induction events with
  | nil => exact .inl quiet_nil
  | cons e events ih =>
      cases he : e.isTerminal with
      | true => exact .inr ⟨[], e, events, rfl, quiet_nil, he⟩
      | false =>
          obtain hq | ⟨body, e', rest, rfl, hbody, he'⟩ := ih
          · exact .inl (hq.cons he)
          · exact .inr ⟨e :: body, e', rest, rfl, hbody.cons he, he'⟩

theorem not_collects_of_quiet {events : List AssistantMessageEvent} (h : Quiet events) :
    ¬ Collects events := by
  intro ⟨m, hm, _⟩
  have hnone := toMessage_append h []
  rw [List.append_nil] at hnone
  rw [hnone] at hm
  cases hm

theorem collects_done {body rest : List AssistantMessageEvent} (h : Quiet body)
    (reason : StopReason) (m : AssistantMessage) :
    Collects (body ++ .done reason m :: rest) ↔ failing m.stopReason = false := by
  rw [Collects, toMessage_append h]
  constructor
  · intro ⟨m', hm, hrej⟩
    injection hm with hm
    rw [← rejection_eq_none_iff, hm]
    exact hrej
  · intro hm
    exact ⟨m, rfl, (rejection_eq_none_iff m).mpr hm⟩

theorem not_collects_error {body rest : List AssistantMessageEvent} (h : Quiet body)
    (m : AssistantMessage) : ¬ Collects (body ++ .error m :: rest) := by
  intro ⟨m', hm, _⟩
  rw [toMessage_append h] at hm
  cases hm

/-- A stream that is quiet throughout is no success for the one reader and one
for the other. -/
theorem sameVerdict_iff {events : List AssistantMessageEvent} {r : PartialReply}
    (hr : r = (PartialReply.start cfg).readAll events) (now : SystemTime) :
    SameVerdict cfg events r now ↔ Settled events := by
  rw [sameVerdict_iff_final hr]
  constructor
  · intro h
    obtain hq | ⟨body, e, rest, rfl, hbody, he⟩ := quiet_or_terminal events
    · have hstop := finalReason_append hq .stop []
      rw [List.append_nil] at hstop
      rw [hstop] at h
      exact absurd (h.mp rfl) (not_collects_of_quiet hq)
    · rw [finalReason_append hbody] at h
      cases e with
      | done reason m =>
          rw [collects_done hbody] at h
          refine .done hbody ?_
          rw [Bool.eq_iff_iff]
          simpa [finalReason] using not_congr h.symm
      | error m =>
          refine .error hbody ?_
          have hne := mt h.mp (not_collects_error hbody m)
          simpa [finalReason] using hne
      | _ => cases he
  · intro h
    cases h with
    | done hbody hm =>
        rw [finalReason_append hbody, collects_done hbody, hm]
        rfl
    | @error body rest m hbody hm =>
        rw [finalReason_append hbody]
        have hne : ¬ failing m.stopReason = false := by simp [hm]
        exact iff_of_false hne (not_collects_error hbody m)

/-! ## The two halves together -/

/-- Whatever a reader of the loop makes of a stream that is not cancelled, it
agrees with `to_message` exactly on the streams that are settled; and a
provider closes its stream, once, exactly where its response makes it. -/
theorem sameVerdict_and_closed {i : Nat} {events : List AssistantMessageEvent} {r : PartialReply}
    {w w' : World} (h : readStream env i events (.start cfg) w = (.ok r, w')) (now : SystemTime)
    (penv : ProviderEnv) (run : ProviderRun) :
    (SameVerdict cfg events r now ↔ Settled events) ∧
      ((run.events penv).countP AssistantMessageEvent.isTerminal = 1 ↔
        run.closesAfter penv = true) :=
  ⟨sameVerdict_iff (readStream_ok h) now, (run.events_closes penv).countP_eq_one_iff⟩

/-! ## A connection cut in the middle of an answer -/

/-- The first chunk of an answer. -/
def firstWords : List Json :=
  [.obj [("choices", .arr [.obj [("delta", .obj [("content", .str "The answer is")])]])]]

/-- The chunk and the marker that ends a response. -/
def wholeResponse : ProviderRun :=
  .openAiCompatible "openai" (sending firstWords ++ [sseData "[DONE]".toList])

/-- The chunk, and then the connection closes. -/
def cutResponse : ProviderRun := .openAiCompatible "openai" (sending firstWords)

/-- What an agent loop makes of a stream when nothing is cancelled. -/
def readQuietly (events : List AssistantMessageEvent) : PartialReply :=
  (PartialReply.start (plainConfig 0).loop).readAll events

def wholeEvents : List AssistantMessageEvent := wholeResponse.events (.knowing firstWords)

def cutEvents : List AssistantMessageEvent := cutResponse.events (.knowing firstWords)

theorem wholeEvents_eq : wholeEvents =
    [.start, .textStart 0, .textDelta 0 "The answer is", .textEnd 0 "The answer is"] ++
      .done .stop (.blank "openai" "model" 0) :: [] := by decide +kernel

theorem cutEvents_eq : cutEvents = [.start, .textStart 0, .textDelta 0 "The answer is"] := by
  decide +kernel

theorem readStream_whole :
    readStream Env.quiet 0 wholeEvents (.start (plainConfig 0).loop) .fresh =
      (.ok (readQuietly wholeEvents),
        (readStream Env.quiet 0 wholeEvents (.start (plainConfig 0).loop) .fresh).2) := by
  rw [wholeEvents_eq]
  rfl

theorem settled_whole : Settled wholeEvents := by
  rw [wholeEvents_eq]
  exact .done (by decide) rfl

theorem sameVerdict_and_closed_whole :
    SameVerdict (plainConfig 0).loop wholeEvents (readQuietly wholeEvents) 0 ∧
      wholeEvents.countP AssistantMessageEvent.isTerminal = 1 := by
  have h := sameVerdict_and_closed readStream_whole 0 (.knowing firstWords) wholeResponse
  exact ⟨h.1.mpr settled_whole, h.2.mpr (by decide +kernel)⟩

theorem readStream_cut :
    readStream Env.quiet 0 cutEvents (.start (plainConfig 0).loop) .fresh =
      (.ok (readQuietly cutEvents),
        (readStream Env.quiet 0 cutEvents (.start (plainConfig 0).loop) .fresh).2) := by
  rw [cutEvents_eq]
  rfl

/-- The provider has sent no terminal event, `to_message` has an error, and the
agent loop a response that has stopped. -/
theorem not_sameVerdict_cut :
    ∃ r w', readStream Env.quiet 0 cutEvents (.start (plainConfig 0).loop) .fresh = (.ok r, w') ∧
      ¬ SameVerdict (plainConfig 0).loop cutEvents r 0 ∧
      cutEvents.countP AssistantMessageEvent.isTerminal = 0 := by
  refine ⟨_, _, readStream_cut, fun h => ?_, ?_⟩
  · rw [cutEvents_eq] at h
    have hquiet : Quiet [.start, .textStart 0, .textDelta 0 "The answer is"] := by decide
    exact not_collects_of_quiet hquiet (h.mp (by decide))
  · rw [cutEvents_eq]
    rfl

end Pandaria.Agent
