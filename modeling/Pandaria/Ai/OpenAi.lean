import Pandaria.Ai.Sse

/-!
# Chat completions

The loop over a response in `ai-provider/src/providers/openai.rs`, which the
OpenAI, DeepSeek, Doubao and OpenAI-compatible providers share, and the copy
of it in `providers/mistral.rs`. The two differ in what they read of a chunk;
`ChatDialect` is that difference.

Text and tool calls are collected while the chunks come in and closed when the
`[DONE]` marker does. Where the response ends without one, the loop just stops.
-/

namespace Pandaria.Ai

/-- What a provider of this family does in its own way. A `truncateId` of
`none` is a panic. -/
structure ChatDialect where
  truncateId : String → Option String
  stopReason : String → StopReason
  reasoning : Json → Option String
  /-- Whether the id of the response is kept. -/
  responseId : Bool

/-! ## OpenAI -/

def openAiStopReason (reason : String) : StopReason :=
  if reason = "stop" then .stop
  else if reason = "length" then .length
  else if reason = "tool_calls" then .toolUse
  else if reason = "content_filter" then .error
  else .stop

def openAiReasoning (delta : Json) : Option String :=
  ((delta.at "reasoning_content").asStr.or (delta.at "reasoning").asStr).or
    (delta.at "reasoning_text").asStr

def openAiDialect : ChatDialect :=
  { truncateId := some
    stopReason := openAiStopReason
    reasoning := openAiReasoning
    responseId := true }

/-! ## Mistral -/

/-- `short_hash` of `transform.rs`: FNV-1a with a finalizer, in hexadecimal. -/
def shortHash (s : String) : String :=
  let h := s.toUTF8.data.toList.foldl
    (fun h b => (h ^^^ b.toUInt64) * 0x100000001b3) (0xcbf29ce484222325 : UInt64)
  let h := h + 0x9e3779b97f4a7c15
  let h := (h ^^^ (h >>> 30)) * 0xbf58476d1ce4e5b9
  let h := (h ^^^ (h >>> 27)) * 0x94d049bb133111eb
  let h := h ^^^ (h >>> 31)
  let digits := Nat.toDigits 16 h.toNat
  String.ofList (List.replicate (8 - digits.length) '0' ++ digits)

/-- `truncate_tool_call_id`. -/
def truncateToolCallId (id : String) : Option String :=
  if id.utf8ByteSize ≤ 36 then some id
  else (dropBytes id.toList (id.utf8ByteSize - 8)).map fun last =>
    "call_" ++ shortHash id ++ String.ofList last

def mistralStopReason (reason : String) : StopReason :=
  if reason = "stop" then .stop
  else if reason = "length" then .length
  else if reason = "tool_calls" then .toolUse
  else if reason = "content_filter" then .error
  else if reason = "error" then .error
  else .stop

def mistralDialect : ChatDialect :=
  { truncateId := truncateToolCallId
    stopReason := mistralStopReason
    reasoning := fun _ => none
    responseId := false }

/-! ## The loop -/

structure ToolCallAccum where
  id : Option String
  name : Option String
  args : String

/-- `tool_call_accum.entry(idx).or_default()`, of a map in the order of its
keys. -/
def entryOrDefault (idx : Nat) (f : ToolCallAccum → ToolCallAccum) :
    List (Nat × ToolCallAccum) → List (Nat × ToolCallAccum)
  | [] => [(idx, f ⟨none, none, ""⟩)]
  | (i, a) :: rest =>
      if idx < i then (idx, f ⟨none, none, ""⟩) :: (i, a) :: rest
      else if i = idx then (i, f a) :: rest
      else (i, a) :: entryOrDefault idx f rest

/-- The local variables of the loop. `message` is `partial`. -/
structure ChatState where
  message : AssistantMessage
  textAccum : String
  textStarted : Bool
  toolCallAccum : List (Nat × ToolCallAccum)

namespace ChatState

def start (provider model : String) (now : SystemTime) : ChatState :=
  { message := .blank provider model now
    textAccum := ""
    textStarted := false
    toolCallAccum := [] }

def text (s : ChatState) (delta : Json) : Sends ChatState :=
  match (delta.at "content").asStr with
  | none => ([], some s)
  | some text =>
      ((if s.textStarted then [] else [.textStart 0]) ++ [.textDelta 0 text],
        some { s with textStarted := true, textAccum := s.textAccum ++ text })

/-- One entry of `delta["tool_calls"]`. -/
def toolCall (d : ChatDialect) (s : ChatState) (tc : Json) : Sends ChatState :=
  let idx := (tc.at "index").asU64.getD 0
  let alter (s : ChatState) (f : ToolCallAccum → ToolCallAccum) : ChatState :=
    { s with toolCallAccum := entryOrDefault idx f s.toolCallAccum }
  let function := tc.at "function"
  let name (a : ToolCallAccum) := { a with name := (function.at "name").asStr.or a.name }
  let finish (s : ChatState) : Sends ChatState :=
    match (function.at "arguments").asStr with
    | none => ([], some (alter s name))
    | some args =>
        ([.toolCallDelta (idx + 1) args],
          some (alter (alter s name) fun a => { a with args := a.args ++ args }))
  match (tc.at "id").asStr with
  | none => finish (alter s fun a => a)
  | some id =>
      match d.truncateId id with
      | none => ([], none)
      | some id => finish (alter s fun a => { a with id := some id })

def reasoning (d : ChatDialect) (s : ChatState) (delta : Json) : Sends ChatState :=
  match d.reasoning delta with
  | none => ([], some s)
  | some r => ([.thinkingDelta 0 r], some s)

def finishReason (d : ChatDialect) (s : ChatState) (choice : Json) : ChatState :=
  match (choice.at "finish_reason").asStr with
  | none => s
  | some reason => { s with message := { s.message with stopReason := d.stopReason reason } }

/-- One of the choices of a chunk. -/
def choice (d : ChatDialect) (s : ChatState) (choice : Json) : Sends ChatState :=
  let delta := choice.at "delta"
  (s.text delta).andThen fun s =>
    (sendAll (toolCall d) ((delta.at "tool_calls").asArray.getD []) s).andThen fun s =>
      (s.reasoning d delta).andThen fun s => ([], some (s.finishReason d choice))

def chunk (d : ChatDialect) (s : ChatState) (chunk : Json) : Sends ChatState :=
  match (chunk.at "choices").asArray with
  | none => ([], some s)
  | some choices =>
      let responseId := s.message.responseId.or
        (if d.responseId then (chunk.at "id").asStr else none)
      sendAll (choice d) choices { s with message := { s.message with responseId := responseId } }

/-- The call an entry of the map has become, when its arguments are JSON. -/
def toolCallEnd (serde : Serde) (entry : Nat × ToolCallAccum) : List AssistantMessageEvent :=
  match serde.fromStr entry.2.args with
  | .error _ => []
  | .ok args =>
      [.toolCallEnd entry.1
        { id := entry.2.id.getD ("call_" ++ toString entry.1)
          name := entry.2.name.getD ""
          arguments := args
          thoughtSignature := none }]

/-- The `[DONE]` marker. -/
def done (serde : Serde) (s : ChatState) : List AssistantMessageEvent :=
  (if s.textAccum.isEmpty then [] else [.textEnd 0 s.textAccum]) ++
    s.toolCallAccum.flatMap (toolCallEnd serde) ++ [.done s.message.stopReason s.message]

def handle (d : ChatDialect) (serde : Serde) (s : ChatState) (e : SseEvent) : Handled ChatState :=
  if e.isDoneMarker then .leave (s.done serde) .finished
  else match e.json serde with
    | none => .leave [] .panicked
    | some (.error err) => .leave [] (.failed err)
    | some (.ok value) => (s.chunk d value).handled

end ChatState

/-- The rest of a task after the request: `openai_compatible_stream`, and
`MistralProvider::try_stream_inner`. -/
def chatStream (d : ChatDialect) (serde : Serde) (provider model : String) (now : SystemTime)
    (items : List SseDecoder.Item) : List AssistantMessageEvent × TaskEnd :=
  let (events, result) :=
    streamLoop (ChatState.handle d serde) (fun _ => []) items (.start provider model now)
  (.start :: events, result)

end Pandaria.Ai
