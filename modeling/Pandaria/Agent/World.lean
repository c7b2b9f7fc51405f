import Pandaria.Agent.Compaction
import Pandaria.Agent.Error

/-!
# A session and everything that runs beside it

A prompt call is an async function. Between two of its awaits nothing else
can be seen to happen; at an await the rest of the program runs: hooks answer,
the provider delivers the next event, a tool finishes, messages arrive in the
two queues, somebody cancels the abort token. `Env` is that rest of the
program, one answer for every await, numbered in the order the session reaches
them, and `World` is what the two share: the abort token, the queues, and a
record of what can be observed from outside.

No answer depends on another. A hook or a provider that does look at what it
is given is one particular choice of answers, so a statement about every `Env`
is a statement about all of them.

A session replaces its abort token now and then. Cancelling a token that has
been replaced reaches nobody, so the only cancellation an `Env` holds is
`abort`, which cancels the token in force at that moment.
-/

namespace Pandaria.Agent

open Pandaria.Ai

inductive SessionState where
  | idle
  | running
  | error
deriving DecidableEq

inductive AgentEvent where
  | agentStart
  | agentEnd (messages : List AgentMessage)
  | turnStart (turnIndex : Nat)
  | turnEnd (turnIndex : Nat) (messages : List AgentMessage)
  | messageStart (messageIndex : Nat)
  | messageUpdate (messageIndex : Nat) (contentDelta : String)
  | messageEnd (message : AgentMessage)
  | toolExecutionStart (toolCallId toolName : String)
  | toolExecutionUpdate (toolCallId content : String)
  | toolExecutionEnd (toolCallId : String) (result : ToolResultMessage)
  | compactionStart (reason : CompactReason)
  | compactionEnd (reason : CompactReason) (result : Option CompactionResult)
      (aborted willRetry : Bool) (errorMessage : Option String)
  | autoRetryStart (attempt maxAttempts delayMs : Nat)
  | autoRetryEnd (success : Bool) (error : Option String)
  | error (error : AgentError)
  | stateChanged (state : SessionState)
  /-- An iteration of a background loop has ended. -/
  | loopIterationComplete (iteration : Nat) (messages : List AgentMessage)
  /-- It has failed, and the loop goes on. -/
  | loopIterationError (iteration : Nat) (error : String)
deriving DecidableEq

/-- What an outside observer sees. The two provider calls are the turn of an
agent loop and a summary for a compaction; both are `LlmProvider::stream`. -/
inductive Obs where
  | event (e : AgentEvent)
  | stream (messages : List AgentMessage)
  | summarise (messages : List AgentMessage)
  | execute (toolCallId : String) (input : Json)
  | abort
deriving DecidableEq

/-- A provider call starts. -/
def Obs.isStreamCall : Obs → Bool
  | .stream _ | .summarise _ => true
  | _ => false

def Obs.isAbort : Obs → Bool
  | .abort => true
  | _ => false

/-! ## What hooks and tools answer -/

inductive HookDecision where
  | continue_
  | block (reason : String)
deriving DecidableEq

inductive CompactDecision where
  | continue_
  | block (reason : String)
  | replace (result : CompactionResult)
deriving DecidableEq

/-- `ToolResultMutation`. -/
structure ToolResultMutation where
  content : Option (List Content)
  details : Option Json
  isError : Option Bool
  terminate : Option Bool
deriving DecidableEq

/-- `ProviderRequestMutation`, the two parts of it an agent loop acts on
outside the prompt: the messages and the retry budget. -/
structure ProviderRequestMutation where
  messages : Option (List AgentMessage)
  maxRetries : Option Nat
deriving DecidableEq

structure ProviderResponseMutation where
  content : Option (List Content)
  stopReason : Option StopReason
deriving DecidableEq

structure AgentToolResult where
  content : List Content
  details : Option Json
  isError : Bool
  terminate : Bool
deriving DecidableEq

/-- One execution of a tool: the progress it reports and how it ends. A
panicking tool ends in an error, by `catch_panic`. -/
structure ToolRun where
  progress : List String
  result : Except AgentError AgentToolResult

/-! ## The environment and the shared world -/

/-- The rest of the program: what it answers, and what it does on its own, at
each await. -/
structure Env where
  /-- The abort token is cancelled while this await is pending. -/
  abort : Nat → Bool
  /-- Messages queued by `steer` meanwhile. -/
  steer : Nat → List AgentMessage
  /-- Messages queued by `follow_up` meanwhile. -/
  followUp : Nat → List AgentMessage
  clock : Nat → SystemTime
  /-- The ids `Uuid::new_v4` hands out, in that order. -/
  uuid : Nat → Uuid
  /-- The refusal of the circuit breaker, when one is set and open. -/
  circuit : Nat → Option String
  /-- `LlmProvider::stream` and all the events of the stream it returns. -/
  stream : Nat → Except LlmError (List AssistantMessageEvent)
  onBeforeAgentStart : Nat → Option (List AgentMessage)
  onContext : Nat → Option (List AgentMessage)
  onBeforeProviderRequest : Nat → ProviderRequestMutation
  onAfterProviderResponse : Nat → ProviderResponseMutation
  onToolCall : Nat → HookDecision × Option Json
  onToolResult : Nat → ToolResultMutation
  onBeforeCompact : Nat → CompactDecision
  execute : Nat → ToolRun
  /-- In which order the awaits of two summaries that run side by side pass. -/
  schedule : Nat → List Bool
  /-- A `select!` between a parallel tool call and a cancelled token takes the
  token's branch, before this await. Only read when the token is cancelled. -/
  cancelWins : Nat → Bool
  /-- A `select!` between a backoff sleep and a cancelled token takes the
  sleep's branch. Only read when the token is cancelled. -/
  sleepWins : Nat → Bool
  /-- `SessionStore::load_session`. -/
  loadSession : Nat → Except AgentError (List SessionEntry)
  /-- `SessionStore::save_session`, when a flush calls it. -/
  saveSession : Nat → Except AgentError Unit
  /-- The text of a skill file. -/
  readSkill : Nat → Except String String

/-- The part of a session that others reach while a call is in progress. -/
structure World where
  now : Nat
  /-- How many ids have been handed out. -/
  ids : Nat
  cancelled : Bool
  steerQueue : List AgentMessage
  followUpQueue : List AgentMessage
  trace : List Obs

namespace World

def fresh : World :=
  { now := 0, ids := 0, cancelled := false, steerQueue := [], followUpQueue := [], trace := [] }

def observe (w : World) (o : Obs) : World := { w with trace := w.trace ++ [o] }

def emit (w : World) (e : AgentEvent) : World := w.observe (.event e)

/-- An await passes: the environment does what it does meanwhile. -/
def tick (env : Env) (w : World) : World :=
  { now := w.now + 1
    ids := w.ids
    cancelled := w.cancelled || env.abort w.now
    steerQueue := w.steerQueue ++ env.steer w.now
    followUpQueue := w.followUpQueue ++ env.followUp w.now
    trace := if env.abort w.now then w.trace ++ [.abort] else w.trace }

/-- Await an answer of the environment. -/
def await {α : Type} (env : Env) (w : World) (answer : Nat → α) : α × World :=
  (answer w.now, w.tick env)

def newId (env : Env) (w : World) : Uuid × World := (env.uuid w.ids, { w with ids := w.ids + 1 })

@[simp] theorem emit_cancelled (w : World) (e : AgentEvent) :
    (w.emit e).cancelled = w.cancelled := rfl

@[simp] theorem tick_cancelled (env : Env) (w : World) :
    (w.tick env).cancelled = (w.cancelled || env.abort w.now) := rfl

end World

/-- An environment in which nothing happens: no arrivals, no cancellation,
every hook lets pass, and every provider call fails. Runs on fixed inputs
start from it. -/
def Env.quiet : Env where
  abort := fun _ => false
  steer := fun _ => []
  followUp := fun _ => []
  clock := fun n => n
  uuid := fun n => n
  circuit := fun _ => none
  stream := fun _ => .error (.providerError "no provider")
  onBeforeAgentStart := fun _ => none
  onContext := fun _ => none
  onBeforeProviderRequest := fun _ => ⟨none, none⟩
  onAfterProviderResponse := fun _ => ⟨none, none⟩
  onToolCall := fun _ => (.continue_, none)
  onToolResult := fun _ => ⟨none, none, none, none⟩
  onBeforeCompact := fun _ => .continue_
  execute := fun _ => ⟨[], .ok ⟨[], none, false, false⟩⟩
  schedule := fun _ => []
  cancelWins := fun _ => false
  sleepWins := fun _ => false
  loadSession := fun _ => .ok []
  saveSession := fun _ => .ok ()
  readSkill := fun _ => .ok ""

end Pandaria.Agent
