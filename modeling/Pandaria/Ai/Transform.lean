import Pandaria.Ai.OpenAi

/-!
# What a request makes of the messages

`ai-provider/src/transform.rs`: the six passes of `transform_messages`, in its
order. The first five rewrite messages in place; the last one, which is to
complete tool results without a call, is the only one that changes how many
there are.

An id of more than 64 bytes is cut inside its text, and a cut inside a
character is a panic: `none`.
-/

namespace Pandaria.Ai

structure TransformOptions where
  targetApi : Option String
  supportsImages : Bool
  supportsVideoInput : Bool
  supportsAudioInput : Bool
  preserveThinking : Bool
deriving DecidableEq

/-! ## Media -/

/-- The loop of `downgrade_images` over the blocks of a message, which makes
one placeholder of images that stand together. -/
def omitImages (placeholder : String) (prevWasPlaceholder : Bool) : List Content → List Content
  | [] => []
  | .image _ _ :: rest =>
      (if prevWasPlaceholder then [] else [.text placeholder none]) ++
        omitImages placeholder true rest
  | c :: rest => c :: omitImages placeholder false rest

def downgradeImages (messages : List Message) : List Message :=
  messages.map fun
    | .user m =>
        .user { m with
          content := omitImages "(image omitted: model does not support images)" false m.content }
    | .toolResult m =>
        .toolResult { m with
          content :=
            omitImages "(tool image omitted: model does not support images)" false m.content }
    | .assistant m => .assistant m

/-- The body of the inner loop of `downgrade_video_audio`. -/
def omitVideoAudio (options : TransformOptions) : Content → Content
  | .video data mimeType =>
      if options.supportsVideoInput then .video data mimeType
      else .text ("[video: " ++ mimeType ++ "]") none
  | .audio data mimeType =>
      if options.supportsAudioInput then .audio data mimeType
      else .text ("[audio: " ++ mimeType ++ "]") none
  | c => c

def downgradeVideoAudio (options : TransformOptions) (messages : List Message) : List Message :=
  if options.supportsVideoInput && options.supportsAudioInput then messages
  else messages.map fun
    | .user m => .user { m with content := m.content.map (omitVideoAudio options) }
    | .toolResult m => .toolResult { m with content := m.content.map (omitVideoAudio options) }
    | .assistant m => .assistant m

/-- What `downgrade_tool_result_media` keeps of a block. -/
def Content.textPart : Content → Option String
  | .text part _ => some part
  | .image _ mimeType => some ("[image: " ++ mimeType ++ "]")
  | .video _ mimeType => some ("[video: " ++ mimeType ++ "]")
  | .audio _ mimeType => some ("[audio: " ++ mimeType ++ "]")
  | _ => none

def downgradeToolResultMedia (messages : List Message) : List Message :=
  messages.map fun
    | .toolResult m =>
        .toolResult { m with
          content := [.text ("\n".intercalate (m.content.filterMap Content.textPart)) none] }
    | m => m

/-! ## Thinking blocks and ids -/

def Content.isThinking : Content → Bool
  | .thinking _ _ _ => true
  | _ => false

def removeThinkingBlocks (messages : List Message) : List Message :=
  messages.map fun
    | .assistant m => .assistant { m with content := m.content.filter fun c => !c.isThinking }
    | m => m

/-- `normalize_id`. -/
def normalizeId (id : String) : Option String :=
  if id.utf8ByteSize ≤ 64 then some id
  else (dropBytes id.toList (id.utf8ByteSize - 8)).map fun last =>
    "call_" ++ shortHash id ++ String.ofList last

/-- The first pass over the blocks of a message, with what it adds to the map
of the ids. -/
def renameCalls : List Content → Option (List Content × List (String × String))
  | [] => some ([], [])
  | .toolCall tc :: rest =>
      (normalizeId tc.id).bind fun normalized =>
        (renameCalls rest).map fun (content, idMap) =>
          (.toolCall { tc with id := normalized } :: content,
            (if normalized = tc.id then [] else [(tc.id, normalized)]) ++ idMap)
  | c :: rest => (renameCalls rest).map fun (content, idMap) => (c :: content, idMap)

/-- The first pass over all messages. -/
def renameAssistants : List Message → Option (List Message × List (String × String))
  | [] => some ([], [])
  | .assistant m :: rest =>
      (renameCalls m.content).bind fun (content, idMap) =>
        (renameAssistants rest).map fun (messages, later) =>
          (.assistant { m with content := content } :: messages, idMap ++ later)
  | m :: rest => (renameAssistants rest).map fun (messages, later) => (m :: messages, later)

/-- The second pass: every entry of the map is tried in turn, on the id as the
entries before it left it. -/
def renameResults (idMap : List (String × String)) (messages : List Message) : List Message :=
  messages.map fun
    | .toolResult m =>
        .toolResult { m with
          toolCallId :=
            idMap.foldl (fun id entry => if id = entry.1 then entry.2 else id) m.toolCallId }
    | m => m

def normalizeToolCallIds (messages : List Message) : Option (List Message) :=
  (renameAssistants messages).map fun (messages, idMap) => renameResults idMap messages

/-! ## Tool results without a call -/

def Message.isToolResult : Message → Bool
  | .toolResult _ => true
  | _ => false

def Message.isAssistant : Message → Bool
  | .assistant _ => true
  | _ => false

/-- The message `pad_orphan_tool_results` makes up. -/
def syntheticAssistant (now : SystemTime) : Message :=
  .assistant
    { content := []
      provider := "system"
      api := ⟨"transform", ""⟩
      model := ""
      usage := .zero
      stopReason := .toolUse
      responseId := none
      errorMessage := none
      timestamp := now }

/-- The loop of `pad_orphan_tool_results` from message `i` on; `clock i` is what
the clock shows when it comes to it. -/
def padFrom (clock : Nat → SystemTime) (i : Nat) (prevWasAssistant : Bool) :
    List Message → List Message
  | [] => []
  | msg :: rest =>
      (if msg.isToolResult && !prevWasAssistant then [syntheticAssistant (clock i)] else []) ++
        msg :: padFrom clock (i + 1) msg.isAssistant rest

def padOrphanToolResults (clock : Nat → SystemTime) (messages : List Message) : List Message :=
  padFrom clock 0 false messages

/-! ## The whole -/

/-- The passes that rewrite messages where they stand. -/
def rewriteMessages (options : TransformOptions) (messages : List Message) :
    Option (List Message) :=
  let result := if options.supportsImages then messages else downgradeImages messages
  let result := downgradeToolResultMedia (downgradeVideoAudio options result)
  normalizeToolCallIds (if options.preserveThinking then result else removeThinkingBlocks result)

def transformMessages (options : TransformOptions) (clock : Nat → SystemTime)
    (messages : List Message) : Option (List Message) :=
  (rewriteMessages options messages).map (padOrphanToolResults clock)

end Pandaria.Ai
