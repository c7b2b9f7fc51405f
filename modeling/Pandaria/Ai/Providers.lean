import Pandaria.Ai.Anthropic
import Pandaria.Ai.OpenAi
import Pandaria.Ai.Sse

/-!
# Gemini responses, and what the providers make of a response

The loop of `ai-provider/src/providers/google.rs`. A call arrives whole, in one
part of a chunk; text arrives in pieces, and its block is closed by a call or
by a finish reason. There is no marker at the end: `Done` is sent when the
response is over, however it got there.
-/

namespace Pandaria.Ai

def googleStopReason (reason : String) : StopReason :=
  if reason = "STOP" then .stop else if reason = "MAX_TOKENS" then .length else .error

/-- The local variables of the loop. `message` is `partial`. -/
structure GoogleState where
  message : AssistantMessage
  contentIndex : Nat
  currentTextBlock : Bool

namespace GoogleState

def start (model : String) (now : SystemTime) : GoogleState :=
  { message := .blank "google" model now
    contentIndex := 0
    currentTextBlock := false }

def text (s : GoogleState) (part : Json) : Sends GoogleState :=
  match (part.at "text").asStr with
  | none => ([], some s)
  | some text =>
      if (part.at "thought").asBool.getD false then
        ([.thinkingDelta s.contentIndex text], some s)
      else
        ((if s.currentTextBlock then [] else [.textStart s.contentIndex]) ++
            [.textDelta s.contentIndex text],
          some { s with currentTextBlock := true })

/-- The events that close the text block, if one is open. -/
def closeText (s : GoogleState) : List AssistantMessageEvent :=
  if s.currentTextBlock then [.textEnd s.contentIndex ""] else []

def functionCall (s : GoogleState) (part : Json) : Sends GoogleState :=
  match part.get "functionCall" with
  | none => ([], some s)
  | some fc =>
      (s.closeText ++ [.toolCallEnd s.contentIndex
          { id := "call_" ++ toString s.contentIndex
            name := (fc.at "name").asStr.getD ""
            arguments := fc.at "args"
            thoughtSignature := none }],
        some { s with contentIndex := s.contentIndex + 1, currentTextBlock := false })

def part (s : GoogleState) (part : Json) : Sends GoogleState :=
  (s.text part).andThen fun s => s.functionCall part

def finishReason (s : GoogleState) (candidate : Json) : Sends GoogleState :=
  match (candidate.at "finishReason").asStr with
  | none => ([], some s)
  | some reason =>
      (s.closeText, some
        { s with
          message := { s.message with stopReason := googleStopReason reason }
          currentTextBlock := false })

def candidate (s : GoogleState) (candidate : Json) : Sends GoogleState :=
  let parts := (((candidate.at "content").at "parts").asArray).getD []
  (sendAll part parts s).andThen fun s => s.finishReason candidate

def chunk (s : GoogleState) (response : Json) : Sends GoogleState :=
  sendAll candidate ((response.at "candidates").asArray.getD []) s

def handle (serde : Serde) (s : GoogleState) (e : SseEvent) : Handled GoogleState :=
  match e.json serde with
  | none => .leave [] .panicked
  | some (.error err) => .leave [] (.failed err)
  | some (.ok value) => (s.chunk value).handled

def done (s : GoogleState) : List AssistantMessageEvent := [.done s.message.stopReason s.message]

end GoogleState

/-- The rest of `GoogleProvider::try_stream_inner` after the request. -/
def googleStream (serde : Serde) (model : String) (now : SystemTime)
    (items : List SseDecoder.Item) : List AssistantMessageEvent × TaskEnd :=
  let (events, result) :=
    streamLoop (GoogleState.handle serde) GoogleState.done items (.start model now)
  (.start :: events, result)

end Pandaria.Ai

/-!
## The providers

What each of the providers of `ai-provider/src/providers` makes of a response.
The OpenAI, DeepSeek, Doubao and OpenAI-compatible providers run one loop under
names of their own; a request that fails before there is a response ends the
task at once.
-/

namespace Pandaria.Ai

/-- A provider with what its request brought. -/
inductive ProviderRun where
  | refused (provider : String) (e : LlmError)
  | openAiCompatible (provider : String) (network : List NetworkPoll)
  | mistral (network : List NetworkPoll)
  | google (network : List NetworkPoll)
  | anthropic (network : List NetworkPoll)
  | bedrock (chunks : List (Except String (Option (List UInt8))))

/-- What a provider reads with: the JSON parser, the model it was asked for,
the clock, and the answers of the abort token. -/
structure ProviderEnv where
  serde : Serde
  model : String
  now : SystemTime
  cancel : Nat → Bool

namespace ProviderRun

def provider : ProviderRun → String
  | .refused provider _ | .openAiCompatible provider _ => provider
  | .mistral _ => "mistral"
  | .google _ => "google"
  | .anthropic _ => "anthropic"
  | .bedrock _ => "bedrock"

/-- `try_stream_inner`: the events sent, and how it ends. -/
def tryStream (env : ProviderEnv) : ProviderRun → List AssistantMessageEvent × TaskEnd
  | .refused _ e => ([], .failed e)
  | .openAiCompatible provider network =>
      chatStream openAiDialect env.serde provider env.model env.now
        (SseDecoder.items env.cancel network)
  | .mistral network =>
      chatStream mistralDialect env.serde "mistral" env.model env.now
        (SseDecoder.items env.cancel network)
  | .google network =>
      googleStream env.serde env.model env.now (SseDecoder.items env.cancel network)
  | .anthropic network =>
      anthropicStream env.serde env.model env.now (SseDecoder.items env.cancel network)
  | .bedrock chunks =>
      bedrockStream env.serde env.model env.now (bedrockItems env.cancel 0 chunks)

/-- The stream `LlmProvider::stream` returns. -/
def events (env : ProviderEnv) (r : ProviderRun) : List AssistantMessageEvent :=
  taskEvents r.provider env.model env.now (r.tryStream env)

end ProviderRun

end Pandaria.Ai
