import Pandaria.Agent.World

/-!
# The events of a session, as its clients get them

`api-gateway/src/routes/events.rs` and the half of `ws.rs` that sends. Each has
a mapping from what a session emits to what a client is sent, and a loop around
it; the texts inside the events are made by helpers of which each file has its
own copy, and the copies are the same.

Redaction of secrets, `sanitize_str`, is a parameter. What a client sends over a
WebSocket is handed to the tenant manager, and nothing of it comes back there.
-/

namespace Pandaria.Ai

def Message.assistant? : Message → Option AssistantMessage
  | .assistant a => some a
  | .user _ | .toolResult _ => none

end Pandaria.Ai

namespace Pandaria.Agent

/-- The `Debug` form. -/
def SessionState.debug : SessionState → String
  | .idle => "Idle"
  | .running => "Running"
  | .error => "Error"

def AgentError.toSanitizedString (sanitizeStr : String → String) (error : AgentError) : String :=
  sanitizeStr error.toString

end Pandaria.Agent

namespace Pandaria.Gateway

open Pandaria.Ai Pandaria.Agent

structure UsageInfo where
  inputTokens : Nat
  outputTokens : Nat
deriving DecidableEq

/-- `ServerEvent`, as far as a session has a use for it. -/
inductive ServerEvent where
  | turnStart (turnIndex : Nat)
  | messageStart (messageIndex : Nat)
  | textDelta (delta : String)
  | toolCallStarted (callId name : String)
  | toolCallDone (callId : String) (result : Option String) (isError : Bool)
  | turnEnd (stopReason : String) (usage : Option UsageInfo)
  | error (code message : String)
  | stateChanged (state : String)
  | autoRetryStart (attempt maxAttempts delayMs : Nat)
  | autoRetryEnd (success : Bool) (error : Option String)
  | loopIterationComplete (iteration : Nat) (messages : List Json)
  | loopIterationError (iteration : Nat) (error : String)
deriving DecidableEq

/-! ## Texts -/

def contentText : Content → String
  | .text text _ => text
  | .image _ mimeType => "[image: " ++ mimeType ++ "]"
  | .video _ mimeType => "[video: " ++ mimeType ++ "]"
  | .audio _ mimeType => "[audio: " ++ mimeType ++ "]"
  | .thinking .. | .toolCall _ => ""

def extractToolResultText (contents : List Content) : Option String :=
  let joined := "\n".intercalate (contents.map contentText)
  if joined = "" then none else some joined

def extractTurnEndInfo (messages : List AgentMessage) : String × Option UsageInfo :=
  match messages.reverse.findSome? Message.assistant? with
  | some a =>
      (String.ofList (toLowercase a.stopReason.debug),
        some { inputTokens := a.usage.inputTokens, outputTokens := a.usage.outputTokens })
  | none => ("unknown", none)

def textFromContents (contents : List Content) : String :=
  String.join (contents.filterMap fun
    | .text text _ => some text
    | _ => none)

def summarizeMessages (messages : List AgentMessage) : List Json :=
  messages.map fun m =>
    let (role, text) := match m with
      | .user u => ("user", textFromContents u.content)
      | .assistant a => ("assistant", textFromContents a.content)
      | .toolResult t => ("tool", textFromContents t.content)
    .obj [("role", .str role), ("text", .str text)]

variable (sanitizeStr : String → String)

/-! ## Server-sent events -/

namespace Events

def mapAgentEvent : AgentEvent → Option ServerEvent
  | .turnStart turnIndex => some (.turnStart turnIndex)
  | .messageStart messageIndex => some (.messageStart messageIndex)
  | .messageUpdate _ contentDelta => some (.textDelta contentDelta)
  | .toolExecutionStart toolCallId toolName => some (.toolCallStarted toolCallId toolName)
  | .toolExecutionEnd toolCallId result =>
      some (.toolCallDone toolCallId (extractToolResultText result.content) result.isError)
  | .turnEnd _ messages =>
      let (stopReason, usage) := extractTurnEndInfo messages
      some (.turnEnd stopReason usage)
  | .autoRetryStart attempt maxAttempts delayMs =>
      some (.autoRetryStart attempt maxAttempts delayMs)
  | .autoRetryEnd success error => some (.autoRetryEnd success error)
  | .loopIterationComplete iteration messages =>
      some (.loopIterationComplete iteration (summarizeMessages messages))
  | .loopIterationError iteration error => some (.loopIterationError iteration error)
  | .error error => some (.error error.code (error.toSanitizedString sanitizeStr))
  | .stateChanged state =>
      some (.stateChanged (String.ofList (toLowercase state.debug)))
  | .agentStart | .agentEnd _ | .messageEnd _ | .toolExecutionUpdate .. | .compactionStart _
  | .compactionEnd .. => none

/-- The task of `stream`, with each event and whether the client is there for
it. What it sends is what `SseStream` hands on. -/
def stream : List (AgentEvent × Bool) → List ServerEvent
  | [] => []
  | (event, connected) :: rest =>
      match mapAgentEvent sanitizeStr event with
      | some serverEvent => if connected then serverEvent :: stream rest else []
      | none => stream rest

end Events

/-! ## WebSockets -/

namespace Ws

def mapAgentEvent : AgentEvent → ServerEvent
  | .turnStart turnIndex => .turnStart turnIndex
  | .messageStart messageIndex => .messageStart messageIndex
  | .messageUpdate _ contentDelta => .textDelta contentDelta
  | .toolExecutionStart toolCallId toolName => .toolCallStarted toolCallId toolName
  | .toolExecutionEnd toolCallId result =>
      .toolCallDone toolCallId (extractToolResultText result.content) result.isError
  | .turnEnd _ messages =>
      let (stopReason, usage) := extractTurnEndInfo messages
      .turnEnd stopReason usage
  | .autoRetryStart attempt maxAttempts delayMs => .autoRetryStart attempt maxAttempts delayMs
  | .autoRetryEnd success error => .autoRetryEnd success error
  | .error error => .error error.code (error.toSanitizedString sanitizeStr)
  | .stateChanged state =>
      .stateChanged (String.ofList (toLowercase state.debug))
  | _ => .textDelta ""

/-- What `select!` gives the loop, and whether the frame it answers with can be
sent. -/
inductive Input where
  | event (event : AgentEvent) (connected : Bool)
  | tick (connected : Bool)
  /-- A text of the client. -/
  | text
  /-- A close frame of the client. -/
  | close
  /-- Another frame of the client. -/
  | other

inductive Frame where
  | event (event : ServerEvent)
  | ping
deriving DecidableEq

/-- `handle_socket`, once it has subscribed. -/
def handleSocket : List Input → List Frame
  | [] => []
  | .event event connected :: rest =>
      if connected then .event (mapAgentEvent sanitizeStr event) :: handleSocket rest else []
  | .tick connected :: rest => if connected then .ping :: handleSocket rest else []
  | .text :: rest => handleSocket rest
  | .close :: _ => []
  | .other :: rest => handleSocket rest

end Ws

end Pandaria.Gateway
