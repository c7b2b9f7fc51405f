import Pandaria.Ai.OpenAi
import Pandaria.Ai.Thinking

/-!
# The bodies of the requests

What each provider of `ai-provider/src/providers/` makes of a context before it
sends it: `anthropic_common.rs` with the bodies of `anthropic.rs` and
`bedrock.rs`, the messages of `openai.rs` and `mistral.rs`, and the contents of
`google.rs`. A block that a provider has no use for becomes a text without
characters, or is left out of a tool result.

An `f32` is handed on by its bits; `f32` makes a number of them.
-/

namespace Pandaria.Ai

open Pandaria.Lib
open Pandaria.Agent.Hook (LlmContext ReasoningLevel)

def textBlock (text : String) : Json := .obj [("type", .str "text"), ("text", .str text)]

/-! ## Anthropic -/

inductive CacheRetention where
  | none
  | short
  | long
deriving DecidableEq

/-- What a body takes from the options of a request. -/
structure BodyOptions where
  maxTokens : Option UInt32
  temperature : Option UInt32
  reasoning : Option ReasoningLevel
  thinkingBudgets : Option ThinkingBudgets
  cacheRetention : CacheRetention

namespace Anthropic

def userBlock : Content → Json
  | .text text _ => textBlock text
  | .image data mimeType =>
      .obj [("type", .str "image"),
        ("source", .obj [("type", .str "base64"), ("media_type", .str mimeType),
          ("data", .str data)])]
  | _ => textBlock ""

def assistantBlock : Content → Json
  | .text text _ => textBlock text
  | .toolCall tc =>
      .obj [("type", .str "tool_use"), ("id", .str tc.id), ("name", .str tc.name),
        ("input", tc.arguments)]
  | .thinking thinking signature _ =>
      .obj ([("type", .str "thinking"), ("thinking", .str thinking)] ++
        (signature.map fun sig => ("signature", .str sig)).toList)
  | _ => textBlock ""

def resultBlock : Content → Json
  | .text text _ => textBlock text
  | _ => textBlock ""

/-- One message of `build_messages_json`. -/
def messageJson : Message → Json
  | .user m => .obj [("role", .str "user"), ("content", .arr (m.content.map userBlock))]
  | .assistant m =>
      .obj [("role", .str "assistant"), ("content", .arr (m.content.map assistantBlock))]
  | .toolResult m =>
      .obj [("role", .str "user"),
        ("content", .arr [.obj [("type", .str "tool_result"), ("tool_use_id", .str m.toolCallId),
          ("content", .arr (m.content.map resultBlock))]])]

def buildMessagesJson (messages : List Message) : List Json := messages.map messageJson

def buildCacheControl : CacheRetention → Option Json
  | .none => .none
  | .short => some (.obj [("type", .str "ephemeral")])
  | .long => some (.obj [("type", .str "ephemeral"), ("ttl", .str "1h")])

/-- `value["cache_control"] = cc`; `none` is a panic. -/
def mark (cc : Json) (value : Json) : Option Json := value.insert "cache_control" cc

/-- The last element is marked, where there is one. -/
def markLast (cc : Json) : List Json → Option (List Json)
  | [] => some []
  | [last] => (mark cc last).map fun last => [last]
  | value :: rest => (markLast cc rest).map fun rest => value :: rest

def buildSystemBlocks (systemPrompt : String) (cacheRetention : CacheRetention) :
    Option (List Json) :=
  let blocks := [textBlock systemPrompt]
  match buildCacheControl cacheRetention with
  | some cc => blocks.mapM (mark cc)
  | none => some blocks

def toolJson (tool : Agent.Hook.ToolDef) : Json :=
  .obj [("name", .str tool.name), ("description", .str tool.description),
    ("input_schema", tool.parameters)]

def buildToolsJson (tools : List Agent.Hook.ToolDef) (cacheRetention : CacheRetention) :
    Option (List Json) :=
  match buildCacheControl cacheRetention with
  | some cc => markLast cc (tools.map toolJson)
  | none => some (tools.map toolJson)

/-- The last block of a message is marked. `last_user_msg["content"]` puts a
`null` there when there is no such field. -/
def markMessage (cc : Json) (message : Json) : Option Json :=
  match message.get "content" with
  | some (.arr blocks) =>
      (markLast cc blocks).bind fun blocks => message.insert "content" (.arr blocks)
  | some _ => some message
  | none => message.insert "content" .null

def isUserMessage (message : Json) : Bool := (message.at "role").asStr = some "user"

def applyCacheToLastUserMessage (messages : List Json) (retention : CacheRetention) :
    Option (List Json) :=
  match buildCacheControl retention with
  | none => some messages
  | some cc =>
      match rposition isUserMessage messages with
      | none => some messages
      | some i =>
          (markMessage cc (messages.getD i .null)).map fun message => messages.set i message

def thinkingFields : ThinkingConfig → List (String × Json)
  | .disabled => [("thinking", .obj [("type", .str "disabled")])]
  | .adaptive effort =>
      [("thinking", .obj [("type", .str "adaptive"), ("display", .str "summarized")]),
        ("output_config", .obj [("effort", .str effort)])]
  | .enabled budgetTokens =>
      [("thinking", .obj [("type", .str "enabled"), ("budget_tokens", u32 budgetTokens),
        ("display", .str "summarized")])]
where
  u32 (n : UInt32) : Json := .num (toString n.toNat)

/-- Where the same messages go. -/
inductive Host where
  | anthropic
  | bedrock

/-- The field in front of a body. -/
def Host.front (model : String) : Host → String × Json
  | .anthropic => ("model", .str model)
  | .bedrock => ("anthropic_version", .str "bedrock-2023-05-31")

/-- The body of `try_stream_inner`, or of `try_stream` of Bedrock, before the
hook. `none` is a panic. -/
def body (host : Host) (checks : Bool) (f32 : UInt32 → Json) (model : String)
    (context : LlmContext) (options : BodyOptions) : Option Json := do
  let messages ←
    applyCacheToLastUserMessage (buildMessagesJson context.messages) options.cacheRetention
  let system ← context.systemPrompt.mapM fun prompt =>
    buildSystemBlocks prompt options.cacheRetention
  let tools ← context.tools.mapM fun tools => buildToolsJson tools options.cacheRetention
  let (maxTokens, thinking) ← buildThinkingConfig checks options.reasoning model
    (options.maxTokens.getD 4096) options.thinkingBudgets
  return .obj ([host.front model, ("max_tokens", thinkingFields.u32 maxTokens),
      ("messages", .arr messages)] ++
    (system.map fun blocks => ("system", .arr blocks)).toList ++
    (tools.map fun tools => ("tools", .arr tools)).toList ++
    thinkingFields thinking ++
    (options.temperature.map fun bits => ("temperature", f32 bits)).toList)

end Anthropic

/-! ## Chat completions -/

namespace Chat

def dataUrl (mimeType data : String) : String := "data:" ++ mimeType ++ ";base64," ++ data

/-- `mime_type.strip_prefix("audio/").unwrap_or("wav")`. -/
def audioFormat (mimeType : String) : String :=
  if "audio/".toList.isPrefixOf mimeType.toList then String.ofList (mimeType.toList.drop 6)
  else "wav"

def userBlock : Content → Json
  | .text text _ => textBlock text
  | .image data mimeType =>
      .obj [("type", .str "image_url"),
        ("image_url", .obj [("url", .str (dataUrl mimeType data))])]
  | .video data mimeType =>
      .obj [("type", .str "video_url"),
        ("video_url", .obj [("url", .str (dataUrl mimeType data))])]
  | .audio data mimeType =>
      .obj [("type", .str "input_audio"),
        ("input_audio", .obj [("data", .str data), ("format", .str (audioFormat mimeType))])]
  | _ => textBlock ""

/-- `none` is a panic of `truncateId`. -/
def assistantBlock (truncateId : String → Option String) : Content → Option Json
  | .text text _ => some (textBlock text)
  | .toolCall tc =>
      (truncateId tc.id).map fun id =>
        .obj [("type", .str "function"), ("id", .str id), ("name", .str tc.name),
          ("arguments", .str (String.ofList tc.arguments.render))]
  | _ => some (textBlock "")

def texts (content : List Content) : List String :=
  content.filterMap fun
    | .text text _ => some text
    | _ => none

def messageJson (truncateId : String → Option String) : Message → Option Json
  | .user m => some (.obj [("role", .str "user"), ("content", .arr (m.content.map userBlock))])
  | .assistant m =>
      (m.content.mapM (assistantBlock truncateId)).map fun content =>
        .obj [("role", .str "assistant"), ("content", .arr content)]
  | .toolResult m =>
      (truncateId m.toolCallId).map fun id =>
        .obj [("role", .str "tool"), ("tool_call_id", .str id),
          ("content", .str ("\n".intercalate (texts m.content)))]

/-- The messages of a body. -/
def messages (truncateId : String → Option String) (context : LlmContext) : Option (List Json) :=
  (context.messages.mapM (messageJson truncateId)).map fun messages =>
    (context.systemPrompt.map fun prompt =>
      Json.obj [("role", .str "system"), ("content", .str prompt)]).toList ++ messages

/-- Of `openai_compatible_stream`. -/
def openAiMessages (context : LlmContext) : Option (List Json) :=
  messages openAiDialect.truncateId context

def mistralMessages (context : LlmContext) : Option (List Json) :=
  messages mistralDialect.truncateId context

end Chat

/-! ## Google -/

namespace Google

def textPart (text : String) : Json := .obj [("text", .str text)]

def userPart : Content → Json
  | .text text _ => textPart text
  | _ => textPart ""

def modelPart : Content → Json
  | .text text _ => textPart text
  | .toolCall tc =>
      .obj [("functionCall", .obj [("name", .str tc.name), ("args", tc.arguments)])]
  | .thinking thinking signature _ =>
      .obj ([("text", .str thinking), ("thought", .bool true)] ++
        (signature.map fun sig => ("thoughtSignature", .str sig)).toList)
  | _ => textPart ""

/-- One of the contents of a body. -/
def content : Message → Json
  | .user m => .obj [("role", .str "user"), ("parts", .arr (m.content.map userPart))]
  | .assistant m => .obj [("role", .str "model"), ("parts", .arr (m.content.map modelPart))]
  | .toolResult m =>
      .obj [("role", .str "user"),
        ("parts", .arr [.obj [("functionResponse", .obj [("name", .str m.toolName),
          ("response", .arr ((Chat.texts m.content).map textPart))])]])]

def contents (messages : List Message) : List Json := messages.map content

end Google

end Pandaria.Ai
