import Pandaria.Ai.Sse

/-!
# Anthropic messages

The parser of `ai-provider/src/providers/anthropic_common.rs`, and the two
loops over it: `providers/anthropic.rs` reads server-sent events, and
`providers/bedrock.rs` the chunks of the AWS client. The message the parser
builds up gains a block for every tool call and every piece of thinking. Text
is sent and not added to it.
-/

namespace Pandaria.Ai

/-! ## The parser -/

inductive BlockType where
  | text
  | toolUse (id name : String)
  | thinking
  | redactedThinking
deriving DecidableEq

/-- `message` is `partial`. -/
structure StreamParser where
  message : AssistantMessage
  contentIndex : Nat
  currentBlock : Option BlockType
  textAccum : String
  toolAccum : String
  thinkingAccum : String
  thinkingSignature : Option String

def anthropicStopReason (reason : String) : StopReason :=
  if reason = "end_turn" then .stop
  else if reason = "max_tokens" then .length
  else if reason = "tool_use" then .toolUse
  else if reason = "refusal" then .error
  else .stop

namespace StreamParser

def new (provider model : String) (now : SystemTime) : StreamParser :=
  { message := .blank provider model now
    contentIndex := 0
    currentBlock := none
    textAccum := ""
    toolAccum := ""
    thinkingAccum := ""
    thinkingSignature := none }

def withUsage (p : StreamParser) (u : Usage) : StreamParser :=
  { p with message := { p.message with usage := { u with totalTokens := u.computeTotal } } }

def push (p : StreamParser) (c : Content) : StreamParser :=
  { p with message := { p.message with content := p.message.content ++ [c] } }

def messageStart (p : StreamParser) (event : Json) : StreamParser :=
  let msg := event.at "message"
  let p := { p with message :=
    { p.message with responseId := ((msg.get "id").bind Json.asStr).or p.message.responseId } }
  match msg.get "usage" with
  | none => p
  | some u => p.withUsage
      { p.message.usage with
        inputTokens := (u.at "input_tokens").asU64.getD 0
        outputTokens := (u.at "output_tokens").asU64.getD 0 }

def blockStart (p : StreamParser) (event : Json) : Sends StreamParser :=
  let block := event.at "content_block"
  let type := (block.at "type").asStr.getD ""
  let thinking (b : BlockType) : Sends StreamParser :=
    ([.thinkingStart p.contentIndex],
      some { p with currentBlock := some b, thinkingAccum := "", thinkingSignature := none })
  if type = "text" then
    ([.textStart p.contentIndex], some { p with currentBlock := some .text, textAccum := "" })
  else if type = "tool_use" then
    let id := (block.at "id").asStr.getD ""
    let name := (block.at "name").asStr.getD ""
    ([.toolCallStart p.contentIndex],
      some { p with currentBlock := some (.toolUse id name), toolAccum := "" })
  else if type = "thinking" then thinking .thinking
  else if type = "redacted_thinking" then thinking .redactedThinking
  else ([], some p)

def blockDelta (p : StreamParser) (event : Json) : Sends StreamParser :=
  let delta := event.at "delta"
  let type := (delta.at "type").asStr.getD ""
  if type = "text_delta" then
    let text := (delta.at "text").asStr.getD ""
    ([.textDelta p.contentIndex text], some { p with textAccum := p.textAccum ++ text })
  else if type = "input_json_delta" then
    let json := (delta.at "partial_json").asStr.getD ""
    ([.toolCallDelta p.contentIndex json], some { p with toolAccum := p.toolAccum ++ json })
  else if type = "thinking_delta" then
    let text := (delta.at "thinking").asStr.getD ""
    ([.thinkingDelta p.contentIndex text],
      some { p with thinkingAccum := p.thinkingAccum ++ text })
  else if type = "signature_delta" then
    match (delta.at "signature").asStr with
    | none => ([], some p)
    | some sig =>
        ([], some { p with thinkingSignature := some (p.thinkingSignature.getD "" ++ sig) })
  else ([], some p)

/-- The block a `content_block_stop` closes, before the index moves on. A tool
call whose arguments are not JSON is passed over. -/
def closeBlock (serde : Serde) (p : StreamParser) : List AssistantMessageEvent × StreamParser :=
  let thinking (redacted : Bool) : List AssistantMessageEvent × StreamParser :=
    ([.thinkingEnd p.contentIndex p.thinkingAccum],
      { p.push (.thinking p.thinkingAccum p.thinkingSignature redacted) with
        thinkingAccum := "", thinkingSignature := none })
  match p.currentBlock with
  | some .text => ([.textEnd p.contentIndex p.textAccum], { p with textAccum := "" })
  | some (.toolUse id name) =>
      match serde.fromStr p.toolAccum with
      | .error _ => ([], p)
      | .ok args =>
          let tc : ToolCall :=
            { id := id, name := name, arguments := args, thoughtSignature := none }
          ([.toolCallEnd p.contentIndex tc], p.push (.toolCall tc))
  | some .thinking => thinking false
  | some .redactedThinking => thinking true
  | none => ([], p)

def blockStop (serde : Serde) (p : StreamParser) : Sends StreamParser :=
  let (events, p) := p.closeBlock serde
  (events, some { p with currentBlock := none, contentIndex := p.contentIndex + 1 })

def takeStopReason (p : StreamParser) (event : Json) : StreamParser :=
  match ((event.at "delta").get "stop_reason").bind Json.asStr with
  | none => p
  | some sr => { p with message := { p.message with stopReason := anthropicStopReason sr } }

/-- A map is indexed here and not a value, so usage without `output_tokens` is
a panic. -/
def takeUsage (p : StreamParser) (event : Json) : Sends StreamParser :=
  match event.at "usage" with
  | .obj fields =>
      match (Json.obj fields).get "output_tokens" with
      | none => ([], none)
      | some tokens =>
          ([], some (p.withUsage
            { p.message.usage with
              outputTokens := tokens.asU64.getD p.message.usage.outputTokens }))
  | _ => ([], some p)

def messageDelta (p : StreamParser) (event : Json) : Sends StreamParser :=
  (p.takeStopReason event).takeUsage event

/-- `process_event`, as both loops take it: they leave at `message_stop`. -/
def processEvent (serde : Serde) (p : StreamParser) (event : Json) : Handled StreamParser :=
  let type := (event.at "type").asStr.getD ""
  if type = "message_start" then .next [] (p.messageStart event)
  else if type = "content_block_start" then (p.blockStart event).handled
  else if type = "content_block_delta" then (p.blockDelta event).handled
  else if type = "content_block_stop" then (p.blockStop serde).handled
  else if type = "message_delta" then (p.messageDelta event).handled
  else if type = "message_stop" then .leave [.done p.message.stopReason p.message] .finished
  else .next [] p

/-- One event of `AnthropicProvider`. -/
def handle (serde : Serde) (p : StreamParser) (e : SseEvent) : Handled StreamParser :=
  if (trim e.data.toList).isEmpty then .next [] p
  else match e.json serde with
    | none => .leave [] .panicked
    | some (.error err) => .leave [] (.failed err)
    | some (.ok value) => p.processEvent serde value

/-- One chunk of `AwsBedrockProvider`, which may be without bytes. -/
def handleChunk (serde : Serde) (p : StreamParser) : Option (List UInt8) → Handled StreamParser
  | none => .next [] p
  | some bytes =>
      match serde.fromSlice bytes with
      | .error e => .leave [] (.failed (.streamError .parse ("JSON parse error: " ++ e)))
      | .ok value => p.processEvent serde value

end StreamParser

/-- The rest of `AnthropicProvider::try_stream_inner` after the request. -/
def anthropicStream (serde : Serde) (model : String) (now : SystemTime)
    (items : List SseDecoder.Item) : List AssistantMessageEvent × TaskEnd :=
  let (events, result) :=
    streamLoop (StreamParser.handle serde) (fun _ => []) items (.new "anthropic" model now)
  (.start :: events, result)

/-! ## Bedrock -/

/-- `map_bedrock_sdk_error_from_str`. -/
def mapBedrockSdkErrorFromStr (err : String) : LlmError :=
  let has := contains err.toList
  if has "ThrottlingException" || has "throttling" then .rateLimited err
  else if has "ValidationException" && has "too long" then .contextOverflow err
  else if has "ValidationException" then .invalidRequest err
  else if has "AccessDeniedException" || has "UnrecognizedClientException" then .authError err
  else if has "ServiceUnavailableException" || has "ModelTimeoutException" then .overloaded err
  else if has "ModelNotReadyException" || has "InternalServerException" then .providerError err
  else if has "timeout" || has "Timed out" then .timeout "60s"
  else .providerError err

/-- What the loop of `bedrock.rs` takes before each turn: the abort token, and
then the next chunk, from the answers of `recv`. -/
def bedrockItems (cancel : Nat → Bool) :
    Nat → List (Except String (Option (List UInt8))) → List (Except LlmError (Option (List UInt8)))
  | n, [] => if cancel n then [.error .cancelled] else []
  | n, .error e :: _ =>
      if cancel n then [.error .cancelled] else [.error (mapBedrockSdkErrorFromStr e)]
  | n, .ok chunk :: rest =>
      if cancel n then [.error .cancelled] else .ok chunk :: bedrockItems cancel (n + 1) rest

/-- The rest of `AwsBedrockProvider::try_stream` after the request. -/
def bedrockStream (serde : Serde) (model : String) (now : SystemTime)
    (items : List (Except LlmError (Option (List UInt8)))) :
    List AssistantMessageEvent × TaskEnd :=
  let (events, result) :=
    streamLoop (StreamParser.handleChunk serde) (fun _ => []) items (.new "bedrock" model now)
  (.start :: events, result)

end Pandaria.Ai
