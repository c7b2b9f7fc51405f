import Pandaria.Agent.Error
import Pandaria.Agent.Tool
import Mathlib.Data.List.Sort

/-!
# The agent loop

`agent-core/src/harness/agent_loop.rs`. A loop asks the provider for a
response, runs the tools the response calls and asks again, until a response
calls no tool; then it looks for messages queued in the meantime and goes on
with those, or returns everything it has added.

`AgentLoop.step` takes the loop from one of its loop heads to the next, with a
stop in the middle of a turn, so that a run is the iteration of a function and
every statement about runs is an induction on the number of steps. `run_turn`
is `receiveResponse` and then `finishTurn`; the request inside it is retried
by `callAttempts`, by recursion on the retries that are left.
-/

namespace Pandaria.Agent

open Pandaria.Ai

/-- What an agent loop is configured with, less the prompt. The two functions
of the provider are its name and `transform_messages` under its metadata. -/
structure AgentLoopConfig where
  model : String
  providerName : String
  tools : List AgentTool
  /-- `stream_options.max_retries`. -/
  maxRetries : Nat
  /-- Whether a circuit breaker is set. -/
  circuitBreaker : Bool
  transformMessages : List AgentMessage → List AgentMessage

/-! ## Calls without a result in the context -/

def orphanDetails : Json :=
  .obj [("_orphan", .bool true),
    ("message", .str "tool call was not executed (context truncated or restored)")]

/-- The calls of a message list, with the index of their message. -/
def toolCallIds (messages : List AgentMessage) : List (Nat × ToolCall) :=
  messages.zipIdx.flatMap fun
    | (.assistant a, i) => a.toolCalls.map fun tc => (i, tc)
    | _ => []

def resolvedIds (messages : List AgentMessage) : List String :=
  messages.filterMap fun
    | .toolResult r => some r.toolCallId
    | _ => none

/-- The name a result is given for a call: that of the first call of the
message with the same id. -/
def orphanName (messages : List AgentMessage) (idx : Nat) (id : String) : String :=
  match messages[idx]? with
  | some (.assistant a) => ((a.toolCalls.find? fun tc => tc.id = id).map ToolCall.name).getD "unknown"
  | _ => "unknown"

/-- `resolve_orphan_tool_calls`: every call without a result anywhere gets one
right after its message. Working from the last message back keeps the indices
valid. -/
def resolveOrphanToolCalls (now : SystemTime) (messages : List AgentMessage) :
    List AgentMessage :=
  let orphans := (toolCallIds messages).filter fun c => !(resolvedIds messages).contains c.2.id
  let sorted := orphans.insertionSort fun a b => b.1 ≤ a.1
  sorted.foldl (fun ms c => ms.insertIdx (c.1 + 1) (.toolResult
    { toolCallId := c.2.id
      toolName := orphanName messages c.1 c.2.id
      content := []
      details := some orphanDetails
      isError := true
      timestamp := now })) messages

/-! ## One request -/

/-- What is known of a response while its stream is read. -/
structure PartialReply where
  content : List Content
  api : Api
  usage : Usage
  stopReason : StopReason
  errorMessage : Option String
  textAccum : Nat → Option String

def PartialReply.start (cfg : AgentLoopConfig) : PartialReply :=
  { content := []
    api := { provider := cfg.providerName, model := cfg.model }
    usage := .zero
    stopReason := .stop
    errorMessage := none
    textAccum := fun _ => none }

/-- One stream event other than the last resort of an `Error`. -/
def PartialReply.take (r : PartialReply) : AssistantMessageEvent → PartialReply
  | .textDelta i delta =>
      { r with textAccum := fun j =>
          if j = i then some ((r.textAccum i).getD "" ++ delta) else r.textAccum j }
  | .textEnd i text =>
      { r with
        content := r.content ++ [.text ((r.textAccum i).getD text) none]
        textAccum := fun j => if j = i then none else r.textAccum j }
  | .toolCallEnd _ tc => { r with content := r.content ++ [.toolCall tc] }
  | .done reason m =>
      { r with
        content := if m.content.isEmpty then r.content else m.content
        api := m.api
        usage := m.usage
        stopReason := reason }
  | _ => r

def PartialReply.toMessage (r : PartialReply) (cfg : AgentLoopConfig) (now : SystemTime) :
    AssistantMessage :=
  { content := r.content
    provider := cfg.providerName
    api := r.api
    model := cfg.model
    usage := r.usage
    stopReason := r.stopReason
    responseId := none
    errorMessage := r.errorMessage
    timestamp := now }

/-- The text of an event that is passed on while the stream is read. -/
def announceDelta (messageIndex : Nat) (w : World) : AssistantMessageEvent → World
  | .textDelta _ delta => w.emit (.messageUpdate messageIndex delta)
  | _ => w

/-- The `while let` over a stream. Cancellation is looked at after each event
and not after the last, and an `Error` event ends the stream. -/
def readStream (env : Env) (messageIndex : Nat) :
    List AssistantMessageEvent → PartialReply → World → Except AgentError PartialReply × World
  | [], r, w => (.ok r, w.tick env)
  | e :: rest, r, w =>
      let w := w.tick env
      if w.cancelled then (.error .cancelled, w)
      else match e with
        | .error m => (.ok { r with errorMessage := m.errorMessage, stopReason := m.stopReason }, w)
        | e => readStream env messageIndex rest (r.take e) (announceDelta messageIndex w e)

/-- `CircuitBreaker::record_failure` and `record_success`. -/
def recordCircuit (cfg : AgentLoopConfig) (env : Env) (w : World) : World :=
  if cfg.circuitBreaker then w.tick env else w

/-- The sleep before a retry, between its two events. -/
def autoRetry (env : Env) (attempt maxRetries : Nat) (error : Option String) (w : World) :
    World :=
  ((w.emit (.autoRetryStart attempt maxRetries (100 * 2 ^ (attempt - 1)))).tick env).emit
    (.autoRetryEnd false error)

/-- A message the provider may answer better the next time. -/
def isRetryableReply (r : PartialReply) : Bool :=
  decide (r.stopReason = .error) && r.errorMessage.any matchesRetryable

/-- The loop of `call_llm_with_retry`, with `left` of its `maxRetries` retries
left. -/
def callAttempts (cfg : AgentLoopConfig) (env : Env) (messages : List AgentMessage)
    (messageIndex maxRetries : Nat) :
    Nat → World → Except AgentError (Nat × AssistantMessage) × World
  | left, w =>
      if w.cancelled then (.error .cancelled, w)
      else
        match ((w.emit (.messageStart messageIndex)).observe (.stream messages)).await env
          env.stream with
        | (.error e, w) =>
            let w := if e.isRetryable then recordCircuit cfg env w else w
            match left with
            | left + 1 =>
                if e.isRetryable then
                  callAttempts cfg env messages messageIndex maxRetries left
                    (autoRetry env (maxRetries - left) maxRetries (some e.toString) w)
                else (.error (.llmError e), w.emit (.autoRetryEnd false (some e.toString)))
            | 0 => (.error (.llmError e), w.emit (.autoRetryEnd false (some e.toString)))
        | (.ok events, w) =>
            match readStream env messageIndex events (.start cfg) w with
            | (.error e, w) => (.error e, w)
            | (.ok r, w) =>
                let reply := r.toMessage cfg (env.clock w.now)
                let w := if isRetryableReply r then recordCircuit cfg env w else w
                match left with
                | left + 1 =>
                    if isRetryableReply r then
                      callAttempts cfg env messages messageIndex maxRetries left
                        (autoRetry env (maxRetries - left) maxRetries r.errorMessage w)
                    else (.ok (maxRetries - (left + 1), reply),
                      (recordCircuit cfg env w).emit (.autoRetryEnd true none))
                | 0 => (.ok (maxRetries, reply),
                    (recordCircuit cfg env w).emit (.autoRetryEnd true none))

/-- `call_llm_with_retry`: the circuit breaker is asked once, before the first
attempt. -/
def callLlmWithRetry (cfg : AgentLoopConfig) (env : Env) (messages : List AgentMessage)
    (maxRetries messageIndex : Nat) (w : World) :
    Except AgentError (Nat × AssistantMessage) × World :=
  if cfg.circuitBreaker then
    match w.await env env.circuit with
    | (some e, w) => (.error (.llmError (.providerError ("circuit breaker: " ++ e))), w)
    | (none, w) => callAttempts cfg env messages messageIndex maxRetries maxRetries w
  else callAttempts cfg env messages messageIndex maxRetries maxRetries w

/-! ## One turn -/

inductive TurnResult where
  | toolUse
  | stop
  | error (e : AgentError)
deriving DecidableEq

/-- The local variables of `AgentLoop::run`. `drained` is not one of them: it
collects what has been taken out of the two queues, for statements about it. -/
structure LoopLocals where
  messages : List AgentMessage
  newMessages : List AgentMessage
  turnIndex : Nat
  messageIndex : Nat
  world : World
  drained : List AgentMessage

namespace LoopLocals

/-- Add to the context and to what the loop will return. -/
def push (s : LoopLocals) (ms : List AgentMessage) : LoopLocals :=
  { s with messages := s.messages ++ ms, newMessages := s.newMessages ++ ms }

def endTurn (env : Env) (s : LoopLocals) : LoopLocals :=
  { s with world := (s.world.emit (.turnEnd s.turnIndex s.messages)).tick env }

def endAgent (env : Env) (s : LoopLocals) : LoopLocals :=
  { s with world := (s.world.emit (.agentEnd s.messages)).tick env }

end LoopLocals

def ProviderResponseMutation.apply (m : ProviderResponseMutation) (r : AssistantMessage) :
    AssistantMessage :=
  { r with content := m.content.getD r.content, stopReason := m.stopReason.getD r.stopReason }

/-- What a response is turned into when its stop reason is not one to go on
from. `run_turn` asks this in two places, with and without tool calls. -/
def rejection (m : AssistantMessage) : Option AgentError :=
  match m.stopReason with
  | .error | .aborted | .length =>
      let errMsg := m.errorMessage.getD ("LLM returned stop reason: " ++ m.stopReason.debug)
      if m.stopReason = .error ∧ isOverflow errMsg then some (.contextOverflow errMsg)
      else some (.llmResponseError errMsg)
  | .stop | .toolUse => none

/-- The messages a turn sends and its retry budget. -/
def prepareRequest (cfg : AgentLoopConfig) (env : Env) (s : LoopLocals) :
    (List AgentMessage × Nat) × World :=
  let w := s.world.emit (.turnStart s.turnIndex)
  let (context, w) := w.await env env.onContext
  let transformed := resolveOrphanToolCalls (env.clock w.now) (context.getD s.messages)
  let (mutation, w) := w.await env env.onBeforeProviderRequest
  ((cfg.transformMessages (mutation.messages.getD transformed),
    mutation.maxRetries.getD cfg.maxRetries), w)

/-- How a turn with tool calls ends: a round in which every result asks to
terminate stops the loop whatever the response said. -/
def turnResult (reply : AssistantMessage) (results : List ToolResultMessage) : TurnResult :=
  if !results.isEmpty && results.all isTerminated then .stop
  else if reply.stopReason = .toolUse then .toolUse else .stop

/-- `run_turn` up to the response: what the provider answered, after the hook
has seen it and it has been added. -/
def receiveResponse (cfg : AgentLoopConfig) (env : Env) (s : LoopLocals) :
    Except AgentError AssistantMessage × LoopLocals :=
  let s := { s with turnIndex := s.turnIndex + 1 }
  let ((messages, maxRetries), w) := prepareRequest cfg env s
  match callLlmWithRetry cfg env messages maxRetries s.messageIndex w with
  | (.error e, w) => (.error e, { s with world := w.emit (.error e) })
  | (.ok (_, reply), w) =>
      let (mutation, w) := w.await env env.onAfterProviderResponse
      let reply := mutation.apply reply
      (.ok reply, { s with
        messageIndex := s.messageIndex + 1
        world := w.emit (.messageEnd (.assistant reply)) }.push [.assistant reply])

/-- `run_turn` from the response on. -/
def finishTurn (cfg : AgentLoopConfig) (env : Env) (reply : AssistantMessage) (s : LoopLocals) :
    Option (TurnResult × LoopLocals) :=
  match rejection reply with
  | some e => some (.error e, s)
  | none =>
      if reply.toolCalls.isEmpty then some (.stop, s.endTurn env)
      else (executeTools env cfg.tools reply.toolCalls s.world).map fun (results, w) =>
        (turnResult reply results,
          ({ s with world := w }.push (results.map .toolResult)).endTurn env)

/-! ## The loop -/

inductive LoopPhase where
  /-- At the head of the outer loop, before the steer queue is drained. -/
  | outer
  /-- At the head of the turn loop. -/
  | inner
  /-- In the middle of a turn, with the response it has received. -/
  | responded (reply : AssistantMessage)
  /-- Out of the turn loop, before the follow-up queue is drained. -/
  | stopped
  | returned (result : Except AgentError (List AgentMessage))
  | panicked

structure AgentLoop where
  phase : LoopPhase
  locals : LoopLocals

namespace AgentLoop

/-- `AgentLoop::run` up to its first loop head. -/
def start (env : Env) (initialMessages : List AgentMessage) (w : World) : AgentLoop :=
  let (messages, w) := w.await env env.onBeforeAgentStart
  { phase := .outer
    locals := {
      messages := messages.getD initialMessages
      newMessages := []
      turnIndex := 0
      messageIndex := 0
      world := w.emit .agentStart
      drained := [] } }

/-- Both queues are drained the same way: into the context, and into what the
loop will return. -/
def drain (s : LoopLocals) (q : List AgentMessage) : LoopLocals :=
  { s.push q with drained := s.drained ++ q }

def drainSteer (s : LoopLocals) : LoopLocals :=
  { drain s s.world.steerQueue with world := { s.world with steerQueue := [] } }

def drainFollowUp (s : LoopLocals) : LoopLocals :=
  { drain s s.world.followUpQueue with world := { s.world with followUpQueue := [] } }

/-- The loop returns an error of a turn. -/
def fail (env : Env) (e : AgentError) (s : LoopLocals) : AgentLoop :=
  { phase := .returned (.error e)
    locals := { s with world := s.world.emit (.error e) }.endAgent env }

/-- One step of the loop. -/
def step (cfg : AgentLoopConfig) (env : Env) (l : AgentLoop) : AgentLoop :=
  match l.phase with
  | .outer => { phase := .inner, locals := drainSteer l.locals }
  | .inner =>
      if l.locals.world.cancelled then
        { phase := .returned (.error .cancelled), locals := l.locals.endAgent env }
      else match receiveResponse cfg env l.locals with
        | (.error e, s) => fail env e s
        | (.ok reply, s) => { phase := .responded reply, locals := s }
  | .responded reply =>
      match finishTurn cfg env reply l.locals with
      | none => { phase := .panicked, locals := l.locals }
      | some (.error e, s) => fail env e s
      | some (.toolUse, s) => { phase := .inner, locals := s }
      | some (.stop, s) => { phase := .stopped, locals := s }
  | .stopped =>
      if l.locals.world.followUpQueue.isEmpty then
        { phase := .returned (.ok l.locals.newMessages), locals := l.locals.endAgent env }
      else { phase := .outer, locals := drainFollowUp l.locals }
  | .returned _ | .panicked => l

/-- The loop after `n` steps. -/
def run (cfg : AgentLoopConfig) (env : Env) (initialMessages : List AgentMessage) (w : World)
    (n : Nat) : AgentLoop :=
  (step cfg env)^[n] (start env initialMessages w)

end AgentLoop

end Pandaria.Agent
