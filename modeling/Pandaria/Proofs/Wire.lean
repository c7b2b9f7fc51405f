import Pandaria.Ai.Requests
import Pandaria.Ai.Transform

/-!
# What a request tells

Each provider leaves something of a conversation out. `Turn` is what is left, and
two conversations are the same request exactly when they are the same turns: nothing
of a turn is lost on the way, and nothing beside it is sent.

The marks that tell Anthropic what to cache are put into the blocks of a request.
They change nothing else of it, and there are never more than three.
-/

namespace Pandaria.Ai

open Pandaria.Lib
open Pandaria.Agent.Hook (LlmContext ReasoningLevel)

namespace Anthropic

/-! ## Turns -/

inductive Block where
  | text (text : String)
  | image (mimeType data : String)
  | toolUse (id name : String) (input : Json)
  | thinking (thinking : String) (signature : Option String)

namespace Block

def ofUser : Content → Block
  | .text s _ => .text s
  | .image data mimeType => .image mimeType data
  | _ => .text ""

def ofAssistant : Content → Block
  | .text s _ => .text s
  | .toolCall tc => .toolUse tc.id tc.name tc.arguments
  | .thinking s signature _ => .thinking s signature
  | _ => .text ""

def json : Block → Json
  | .text s => textBlock s
  | .image mimeType data => userBlock (.image data mimeType)
  | .toolUse id name input => assistantBlock (.toolCall ⟨id, name, input, none⟩)
  | .thinking s signature => assistantBlock (.thinking s signature false)

theorem json_injective : Function.Injective json := by
  intro b b' h
  cases b with
  | text s => cases b' <;> simp_all [json, textBlock, userBlock, assistantBlock]
  | image mimeType data => cases b' <;> simp_all [json, textBlock, userBlock, assistantBlock]
  | toolUse id name input => cases b' <;> simp_all [json, textBlock, userBlock, assistantBlock]
  | thinking s signature =>
      cases b' with
      | thinking s' signature' =>
          cases signature <;> cases signature' <;> simp_all [json, assistantBlock]
      | text | image | toolUse => simp_all [json, textBlock, userBlock, assistantBlock]

end Block

/-- What Anthropic is told of a message. -/
inductive Turn where
  | user (blocks : List Block)
  | assistant (blocks : List Block)
  | toolResult (callId : String) (texts : List String)

namespace Turn

def resultText : Content → String
  | .text text _ => text
  | _ => ""

def of : Message → Turn
  | .user m => .user (m.content.map Block.ofUser)
  | .assistant m => .assistant (m.content.map Block.ofAssistant)
  | .toolResult m => .toolResult m.toolCallId (m.content.map resultText)

def json : Turn → Json
  | .user blocks => .obj [("role", .str "user"), ("content", .arr (blocks.map Block.json))]
  | .assistant blocks =>
      .obj [("role", .str "assistant"), ("content", .arr (blocks.map Block.json))]
  | .toolResult callId texts =>
      .obj [("role", .str "user"),
        ("content", .arr [.obj [("type", .str "tool_result"), ("tool_use_id", .str callId),
          ("content", .arr (texts.map textBlock))]])]

theorem textBlock_injective : Function.Injective textBlock := by
  intro s s' h
  simpa [textBlock] using h

/-- No block of a user is a tool result. -/
theorem user_ne_toolResult (blocks : List Block) (callId : String) (texts : List String) :
    (user blocks).json ≠ (toolResult callId texts).json := by
  intro h
  cases blocks with
  | nil => simp [json] at h
  | cons b rest => cases b <;> simp [json, Block.json, textBlock, userBlock, assistantBlock] at h

theorem json_injective : Function.Injective json := by
  intro t t' h
  cases t with
  | user blocks =>
      cases t' with
      | user blocks' =>
          have h : blocks.map Block.json = blocks'.map Block.json := by simpa [json] using h
          rw [Block.json_injective.list_map h]
      | assistant blocks' => simp [json] at h
      | toolResult callId texts => exact absurd h (user_ne_toolResult _ _ _)
  | assistant blocks =>
      cases t' with
      | assistant blocks' =>
          have h : blocks.map Block.json = blocks'.map Block.json := by simpa [json] using h
          rw [Block.json_injective.list_map h]
      | user blocks' => simp [json] at h
      | toolResult callId texts => simp [json] at h
  | toolResult callId texts =>
      cases t' with
      | toolResult callId' texts' =>
          have h : callId = callId' ∧ texts.map textBlock = texts'.map textBlock := by
            simpa [json] using h
          rw [h.1, textBlock_injective.list_map h.2]
      | user blocks' => exact absurd h.symm (user_ne_toolResult _ _ _)
      | assistant blocks' => simp [json] at h

end Turn

/-- An object without a mark. -/
def Plain (value : Json) : Prop :=
  ∃ fields, value = .obj fields ∧ ∀ f ∈ fields, f.1 ≠ "cache_control"

def isMarked (value : Json) : Bool := (value.get "cache_control").isSome

def unmark : Json → Json
  | .obj fields => .obj (fields.filter fun f => f.1 ≠ "cache_control")
  | value => value

/-- What of a list of blocks is marked. -/
structure Marked (blocks marked : List Json) (count : Nat) : Prop where
  unmark : marked.map unmark = blocks
  count : marked.countP isMarked = count

theorem Plain.unmark {value : Json} (h : Plain value) : unmark value = value := by
  obtain ⟨fields, rfl, hfields⟩ := h
  rw [Anthropic.unmark, List.filter_eq_self.mpr]
  intro f hf
  simpa using hfields f hf

def onElems (f : Json → Json) : Json → Json
  | .arr elems => .arr (elems.map f)
  | value => value

@[simp] theorem onElems_arr (f : Json → Json) (elems : List Json) :
    onElems f (.arr elems) = .arr (elems.map f) := rfl

def role : Message → String
  | .assistant _ => "assistant"
  | .user _ | .toolResult _ => "user"

def blocks : Message → List Json
  | .user m => m.content.map userBlock
  | .assistant m => m.content.map assistantBlock
  | .toolResult m =>
      [.obj [("type", .str "tool_result"), ("tool_use_id", .str m.toolCallId),
        ("content", .arr (m.content.map resultBlock))]]

/-- No field of these is one of the parts. -/
def Apart (fields : List (String × Json)) : Prop :=
  ∀ f ∈ fields, f.1 ≠ "messages" ∧ f.1 ≠ "system" ∧ f.1 ≠ "tools"

section parts

variable {front back : List (String × Json)} (hfront : Apart front) (hback : Apart back)
  (messages : List Json) (system tools : Option (List Json))
include hfront hback

end parts

/-- What Anthropic is told of a context. -/
structure Told where
  turns : List Turn
  systemPrompt : Option String
  tools : Option (List Agent.Hook.ToolDef)

def told (context : LlmContext) : Told :=
  ⟨context.messages.map Turn.of, context.systemPrompt, context.tools⟩

end Anthropic

/-! ## Chat completions -/

namespace Chat

inductive Block where
  | text (text : String)
  | image (url : String)
  | video (url : String)
  | audio (data format : String)
  | function (id name arguments : String)

namespace Block

def ofUser : Content → Block
  | .text s _ => .text s
  | .image data mimeType => .image (dataUrl mimeType data)
  | .video data mimeType => .video (dataUrl mimeType data)
  | .audio data mimeType => .audio data (audioFormat mimeType)
  | _ => .text ""

def ofAssistant (truncateId : String → Option String) : Content → Option Block
  | .text s _ => some (.text s)
  | .toolCall tc =>
      (truncateId tc.id).map fun id =>
        .function id tc.name (String.ofList tc.arguments.render)
  | _ => some (.text "")

def json : Block → Json
  | .text s => textBlock s
  | .image url =>
      .obj [("type", .str "image_url"), ("image_url", .obj [("url", .str url)])]
  | .video url =>
      .obj [("type", .str "video_url"), ("video_url", .obj [("url", .str url)])]
  | .audio data format =>
      .obj [("type", .str "input_audio"),
        ("input_audio", .obj [("data", .str data), ("format", .str format)])]
  | .function id name arguments =>
      .obj [("type", .str "function"), ("id", .str id), ("name", .str name),
        ("arguments", .str arguments)]

theorem json_injective : Function.Injective json := by
  intro b b' h
  cases b <;> cases b' <;> simp_all [json, textBlock]

end Block

/-- What a chat completion is told of a message. -/
inductive Turn where
  | user (blocks : List Block)
  | assistant (blocks : List Block)
  | tool (callId text : String)

namespace Turn

def of (truncateId : String → Option String) : Message → Option Turn
  | .user m => some (.user (m.content.map Block.ofUser))
  | .assistant m => (m.content.mapM (Block.ofAssistant truncateId)).map .assistant
  | .toolResult m =>
      (truncateId m.toolCallId).map fun id => .tool id ("\n".intercalate (texts m.content))

def json : Turn → Json
  | .user blocks => .obj [("role", .str "user"), ("content", .arr (blocks.map Block.json))]
  | .assistant blocks =>
      .obj [("role", .str "assistant"), ("content", .arr (blocks.map Block.json))]
  | .tool callId text =>
      .obj [("role", .str "tool"), ("tool_call_id", .str callId), ("content", .str text)]

theorem json_injective : Function.Injective json := by
  intro t t' h
  cases t with
  | user blocks =>
      cases t' with
      | user blocks' =>
          have h : blocks.map Block.json = blocks'.map Block.json := by simpa [json] using h
          rw [Block.json_injective.list_map h]
      | assistant | tool => simp [json] at h
  | assistant blocks =>
      cases t' with
      | assistant blocks' =>
          have h : blocks.map Block.json = blocks'.map Block.json := by simpa [json] using h
          rw [Block.json_injective.list_map h]
      | user | tool => simp [json] at h
  | tool callId text =>
      cases t' with
      | tool callId' text' => simpa [json] using h
      | user | assistant => simp [json] at h

end Turn

/-- A chat completion is told the system prompt and the turns; `none` is a panic. -/
def told (truncateId : String → Option String) (context : LlmContext) :
    Option (Option String × List Turn) :=
  (context.messages.mapM (Turn.of truncateId)).map fun turns => (context.systemPrompt, turns)

end Chat

/-! ## Google -/

namespace Google

inductive Part where
  | text (text : String)
  | functionCall (name : String) (args : Json)
  | thought (thought : String) (signature : Option String)

namespace Part

def ofUser : Content → Part
  | .text s _ => .text s
  | _ => .text ""

def ofModel : Content → Part
  | .text s _ => .text s
  | .toolCall tc => .functionCall tc.name tc.arguments
  | .thinking s signature _ => .thought s signature
  | _ => .text ""

def json : Part → Json
  | .text s => textPart s
  | .functionCall name args => modelPart (.toolCall ⟨"", name, args, none⟩)
  | .thought s signature => modelPart (.thinking s signature false)

theorem userPart_eq (c : Content) : userPart c = (ofUser c).json := by
  cases c <;> rfl

theorem modelPart_eq (c : Content) : modelPart c = (ofModel c).json := by
  cases c <;> rfl

theorem json_injective : Function.Injective json := by
  intro p p' h
  cases p with
  | text s => cases p' <;> simp_all [json, textPart, modelPart]
  | functionCall name args => cases p' <;> simp_all [json, textPart, modelPart]
  | thought s signature =>
      cases p' with
      | thought s' signature' =>
          cases signature <;> cases signature' <;> simp_all [json, modelPart]
      | text | functionCall => simp_all [json, textPart, modelPart]

end Part

/-- What Google is told of a message: a result goes by the name of its tool, and a
call has no id. -/
inductive Turn where
  | user (parts : List Part)
  | model (parts : List Part)
  | functionResponse (name : String) (texts : List String)

namespace Turn

def of : Message → Turn
  | .user m => .user (m.content.map Part.ofUser)
  | .assistant m => .model (m.content.map Part.ofModel)
  | .toolResult m => .functionResponse m.toolName (Chat.texts m.content)

def json : Turn → Json
  | .user parts => .obj [("role", .str "user"), ("parts", .arr (parts.map Part.json))]
  | .model parts => .obj [("role", .str "model"), ("parts", .arr (parts.map Part.json))]
  | .functionResponse name texts =>
      .obj [("role", .str "user"),
        ("parts", .arr [.obj [("functionResponse", .obj [("name", .str name),
          ("response", .arr (texts.map textPart))])]])]

theorem content_eq (m : Message) : content m = (of m).json := by
  cases m with
  | user m => simp [content, of, json, Part.userPart_eq]
  | assistant m => simp [content, of, json, Part.modelPart_eq]
  | toolResult m => rfl

theorem textPart_injective : Function.Injective textPart := by
  intro s s' h
  simpa [textPart] using h

theorem user_ne_response (parts : List Part) (name : String) (texts : List String) :
    (user parts).json ≠ (functionResponse name texts).json := by
  intro h
  cases parts with
  | nil => simp [json] at h
  | cons p rest => cases p <;> simp [json, Part.json, textPart, modelPart] at h

theorem json_injective : Function.Injective json := by
  intro t t' h
  cases t with
  | user parts =>
      cases t' with
      | user parts' =>
          have h : parts.map Part.json = parts'.map Part.json := by simpa [json] using h
          rw [Part.json_injective.list_map h]
      | model parts' => simp [json] at h
      | functionResponse name texts => exact absurd h (user_ne_response _ _ _)
  | model parts =>
      cases t' with
      | model parts' =>
          have h : parts.map Part.json = parts'.map Part.json := by simpa [json] using h
          rw [Part.json_injective.list_map h]
      | user parts' => simp [json] at h
      | functionResponse name texts => simp [json] at h
  | functionResponse name texts =>
      cases t' with
      | functionResponse name' texts' =>
          have h : name = name' ∧ texts.map textPart = texts'.map textPart := by
            simpa [json] using h
          rw [h.1, textPart_injective.list_map h.2]
      | user parts' => exact absurd h.symm (user_ne_response _ _ _)
      | model parts' => simp [json] at h

end Turn

theorem contents_eq_iff (messages messages' : List Message) :
    contents messages = contents messages' ↔ messages.map Turn.of = messages'.map Turn.of := by
  have hcontents : ∀ messages, contents messages = (messages.map Turn.of).map Turn.json := by
    intro messages
    rw [contents, List.map_map]
    exact List.map_congr_left fun m _ => Turn.content_eq m
  rw [hcontents, hcontents]
  exact Turn.json_injective.list_map.eq_iff

end Google

/-! ## What is lost on the way -/

/-- The builders of the blocks, by provider. -/
inductive Family where
  | anthropic
  | chat (truncateId : String → Option String)
  | google

namespace Family

def user : Family → Content → Json
  | anthropic => Anthropic.userBlock
  | chat _ => Chat.userBlock
  | google => Google.userPart

def assistant : Family → Content → Option Json
  | anthropic => fun c => some (Anthropic.assistantBlock c)
  | chat truncateId => Chat.assistantBlock truncateId
  | google => fun c => some (Google.modelPart c)

def blank : Family → Json
  | anthropic | chat _ => textBlock ""
  | google => Google.textPart ""

end Family

def Content.isText : Content → Bool
  | .text _ _ => true
  | _ => false

/-- A block of a message is such, by who it is from. -/
def Message.Has (user assistant result : Content → Prop) : Message → Prop
  | .user m => ∃ c ∈ m.content, user c
  | .assistant m => ∃ c ∈ m.content, assistant c
  | .toolResult m => ∃ c ∈ m.content, result c

/-- A block that is no text is sent as an empty text. -/
def UserBlank (family : Family) (c : Content) : Prop :=
  family.user c = family.blank ∧ c.isText = false

def AssistantBlank (family : Family) (c : Content) : Prop :=
  family.assistant c = some family.blank ∧ c.isText = false

/-- Something of a message does not reach the provider. A result is made of its
texts. -/
def Blanked (family : Family) : Message → Prop :=
  Message.Has (UserBlank family) (AssistantBlank family) fun c => c.isText = false

def Family.isChat : Family → Bool
  | chat _ => true
  | _ => false

def Family.isGoogle : Family → Bool
  | google => true
  | _ => false

/-- The provider has no block for it when a user says it. -/
def Family.UserLacks (family : Family) : Content → Prop
  | .text _ _ => False
  | .image _ _ => family.isGoogle
  | .video _ _ | .audio _ _ => !family.isChat
  | .thinking _ _ _ | .toolCall _ => True

/-- The provider has no block for it when the model says it. -/
def Family.AssistantLacks (family : Family) : Content → Prop
  | .text _ _ | .toolCall _ => False
  | .thinking _ _ _ => family.isChat
  | .image _ _ | .video _ _ | .audio _ _ => True

/-- The media that the model is listed with. -/
def mediaListed (options : TransformOptions) : Content → Prop
  | .image _ _ => options.supportsImages
  | .video _ _ => options.supportsVideoInput
  | .audio _ _ => options.supportsAudioInput
  | _ => True

def UserUnsaid (options : TransformOptions) (family : Family) (c : Content) : Prop :=
  family.UserLacks c ∧ mediaListed options c

def AssistantUnsaid (options : TransformOptions) (family : Family) (c : Content) : Prop :=
  family.AssistantLacks c ∧ (c.isThinking → options.preserveThinking)

/-- Something of a message has no block, and the transform before does not take it
out. -/
def Unsaid (options : TransformOptions) (family : Family) : Message → Prop :=
  Message.Has (UserUnsaid options family) (AssistantUnsaid options family) fun _ => False

theorem userBlank_iff (family : Family) (c : Content) :
    UserBlank family c ↔ family.UserLacks c := by
  cases c <;> cases family <;>
    simp [UserBlank, Family.UserLacks, Family.isChat, Family.isGoogle, Family.user, Family.blank,
      Anthropic.userBlock, Chat.userBlock, Google.userPart, textBlock, Content.isText]

theorem assistantBlank_iff (family : Family) (c : Content) :
    AssistantBlank family c ↔ family.AssistantLacks c := by
  cases c <;> cases family <;>
    simp [AssistantBlank, Family.AssistantLacks, Family.isChat, Family.assistant, Family.blank,
      Anthropic.assistantBlock, Chat.assistantBlock, Google.modelPart, Google.textPart, textBlock,
      Content.isText]

/-- A question about blocks that a text answers no, and the id of a call leaves as
it is. -/
structure Regards (p : Content → Prop) : Prop where
  text : ∀ s signature, ¬ p (.text s signature)
  toolCall : ∀ (tc : ToolCall) (id : String), p (.toolCall { tc with id := id }) ↔ p (.toolCall tc)

section passes

variable {p : Content → Prop} (h : Regards p)
include h

theorem exists_omitImages (placeholder : String) (content : List Content) :
    ∀ prev, (∃ c ∈ omitImages placeholder prev content, p c) ↔
      ∃ c ∈ content, p c ∧ ∀ data mimeType, c ≠ .image data mimeType := by
  induction content with
  | nil => simp [omitImages]
  | cons c rest ih =>
      intro prev
      cases c with
      | image data mimeType =>
          have htext := h.text placeholder none
          cases prev <;> simp [omitImages, ih, htext]
      | _ => simp [omitImages, ih]

theorem exists_renameCalls (content : List Content) :
    ∀ {out}, renameCalls content = some out → ((∃ c ∈ out.1, p c) ↔ ∃ c ∈ content, p c) := by
  induction content with
  | nil =>
      intro out hout
      cases hout
      exact Iff.rfl
  | cons c rest ih =>
      intro out hout
      cases c with
      | toolCall tc =>
          obtain ⟨id, -, hout⟩ := Option.bind_eq_some_iff.mp hout
          obtain ⟨later, hlater, rfl⟩ := Option.map_eq_some_iff.mp hout
          simp only [List.exists_mem_cons_iff, ih hlater, h.toolCall]
      | _ =>
          obtain ⟨later, hlater, rfl⟩ := Option.map_eq_some_iff.mp hout
          simp only [List.exists_mem_cons_iff, ih hlater]

end passes

section messages

variable {user assistant result : Content → Prop} (hassistant : Regards assistant)

omit hassistant in
theorem has_map (f : Message → Message) (ms : List Message) :
    (∃ m ∈ ms.map f, m.Has user assistant result) ↔
      ∃ m ∈ ms, (f m).Has user assistant result := by
  simp

omit hassistant in
theorem has_renameResults (idMap : List (String × String)) (ms : List Message) :
    (∃ m ∈ renameResults idMap ms, m.Has user assistant result) ↔
      ∃ m ∈ ms, m.Has user assistant result := by
  rw [renameResults, has_map]
  refine exists_congr fun m => and_congr_right fun _ => ?_
  cases m <;> rfl

include hassistant

theorem has_renameAssistants (ms : List Message) :
    ∀ {out}, renameAssistants ms = some out →
      ((∃ m ∈ out.1, m.Has user assistant result) ↔ ∃ m ∈ ms, m.Has user assistant result) := by
  induction ms with
  | nil =>
      intro out hout
      cases hout
      exact Iff.rfl
  | cons m rest ih =>
      intro out hout
      cases m with
      | assistant a =>
          obtain ⟨renamed, hrenamed, hout⟩ := Option.bind_eq_some_iff.mp hout
          obtain ⟨later, hlater, rfl⟩ := Option.map_eq_some_iff.mp hout
          have hhead :
              (Message.assistant { a with content := renamed.1 }).Has user assistant result ↔
                (Message.assistant a).Has user assistant result :=
            exists_renameCalls hassistant a.content hrenamed
          simp only [List.exists_mem_cons_iff, ih hlater, hhead]
      | user _ | toolResult _ =>
          obtain ⟨later, hlater, rfl⟩ := Option.map_eq_some_iff.mp hout
          simp only [List.exists_mem_cons_iff, ih hlater]

theorem has_normalizeToolCallIds {ms out : List Message}
    (hout : normalizeToolCallIds ms = some out) :
    (∃ m ∈ out, m.Has user assistant result) ↔ ∃ m ∈ ms, m.Has user assistant result := by
  obtain ⟨renamed, hrenamed, rfl⟩ := Option.map_eq_some_iff.mp hout
  rw [has_renameResults, has_renameAssistants hassistant ms hrenamed]

end messages

theorem has_padFrom {user assistant result : Content → Prop} (clock : Nat → SystemTime)
    (ms : List Message) : ∀ i prev,
      (∃ m ∈ padFrom clock i prev ms, m.Has user assistant result) ↔
        ∃ m ∈ ms, m.Has user assistant result := by
  induction ms with
  | nil => simp [padFrom]
  | cons m rest ih =>
      intro i prev
      have hmade : ¬ (syntheticAssistant (clock i)).Has user assistant result := by
        simp [syntheticAssistant, Message.Has]
      rw [padFrom]
      split_ifs <;> simp [ih, hmade]

/-! ## The passes over one message -/

def imagesOf (options : TransformOptions) : Message → Message
  | .user m =>
      .user { m with
        content :=
          if options.supportsImages then m.content
          else omitImages "(image omitted: model does not support images)" false m.content }
  | .toolResult m =>
      .toolResult { m with
        content :=
          if options.supportsImages then m.content
          else omitImages "(tool image omitted: model does not support images)" false m.content }
  | .assistant m => .assistant m

def videoAudioOf (options : TransformOptions) : Message → Message
  | .user m => .user { m with content := m.content.map (omitVideoAudio options) }
  | .toolResult m => .toolResult { m with content := m.content.map (omitVideoAudio options) }
  | .assistant m => .assistant m

def oneTextOf : Message → Message
  | .toolResult m =>
      .toolResult { m with
        content := [.text ("\n".intercalate (m.content.filterMap Content.textPart)) none] }
  | m => m

def thinkingOf (options : TransformOptions) : Message → Message
  | .assistant m =>
      .assistant { m with
        content :=
          if options.preserveThinking then m.content
          else m.content.filter fun c => !c.isThinking }
  | m => m

theorem images_eq (options : TransformOptions) (ms : List Message) :
    (if options.supportsImages then ms else downgradeImages ms) = ms.map (imagesOf options) := by
  split
  · next h =>
      have hid : imagesOf options = id := by
        funext m
        cases m <;> simp [imagesOf, h]
      rw [hid, List.map_id]
  · next h => exact List.map_congr_left fun m _ => by cases m <;> simp [imagesOf, h]

theorem omitVideoAudio_of_supports {options : TransformOptions}
    (h : (options.supportsVideoInput && options.supportsAudioInput) = true) :
    omitVideoAudio options = id := by
  obtain ⟨hvideo, haudio⟩ := Bool.and_eq_true_iff.mp h
  funext c
  cases c <;> simp [omitVideoAudio, hvideo, haudio]

theorem videoAudio_eq (options : TransformOptions) (ms : List Message) :
    downgradeVideoAudio options ms = ms.map (videoAudioOf options) := by
  rw [downgradeVideoAudio]
  split
  · next h =>
      have hid : videoAudioOf options = id := by
        funext m
        cases m <;> simp [videoAudioOf, omitVideoAudio_of_supports h]
      rw [hid, List.map_id]
  · exact List.map_congr_left fun m _ => by cases m <;> rfl

theorem oneText_eq (ms : List Message) : downgradeToolResultMedia ms = ms.map oneTextOf :=
  List.map_congr_left fun m _ => by cases m <;> rfl

theorem thinking_eq (options : TransformOptions) (ms : List Message) :
    (if options.preserveThinking then ms else removeThinkingBlocks ms) =
      ms.map (thinkingOf options) := by
  split
  · next h =>
      have hid : thinkingOf options = id := by
        funext m
        cases m <;> simp [thinkingOf, h]
      rw [hid, List.map_id]
  · next h => exact List.map_congr_left fun m _ => by cases m <;> simp [thinkingOf, h]

def rewriteOf (options : TransformOptions) (m : Message) : Message :=
  thinkingOf options (oneTextOf (videoAudioOf options (imagesOf options m)))

theorem rewriteMessages_eq (options : TransformOptions) (ms : List Message) :
    rewriteMessages options ms = normalizeToolCallIds (ms.map (rewriteOf options)) := by
  simp only [rewriteMessages]
  rw [thinking_eq, oneText_eq, videoAudio_eq, images_eq, List.map_map, List.map_map, List.map_map]
  rfl

theorem regards_userBlank (family : Family) : Regards (UserBlank family) where
  text := by simp [UserBlank, Content.isText]
  toolCall := by simp [userBlank_iff, Family.UserLacks]

theorem regards_assistantBlank (family : Family) : Regards (AssistantBlank family) where
  text := by simp [AssistantBlank, Content.isText]
  toolCall := by simp [assistantBlank_iff, Family.AssistantLacks]

theorem userBlank_omitVideoAudio_iff (options : TransformOptions) (family : Family) (c : Content)
    (himage : options.supportsImages = true ∨ ∀ data mimeType, c ≠ .image data mimeType) :
    UserBlank family (omitVideoAudio options c) ↔ UserUnsaid options family c := by
  rw [userBlank_iff, UserUnsaid]
  cases c with
  | video =>
      cases hvideo : options.supportsVideoInput <;>
        simp [omitVideoAudio, Family.UserLacks, mediaListed, hvideo]
  | audio =>
      cases haudio : options.supportsAudioInput <;>
        simp [omitVideoAudio, Family.UserLacks, mediaListed, haudio]
  | image data mimeType =>
      have himage : options.supportsImages = true := by simpa using himage
      simp [omitVideoAudio, mediaListed, himage]
  | text | toolCall | thinking => simp [omitVideoAudio, mediaListed]

theorem regards_omitVideoAudio (options : TransformOptions) (family : Family) :
    Regards fun c => UserBlank family (omitVideoAudio options c) where
  text := (regards_userBlank family).text
  toolCall := (regards_userBlank family).toolCall

theorem blanked_user_iff (options : TransformOptions) (family : Family) (m : UserMessage) :
    Blanked family (rewriteOf options (.user m)) ↔ Unsaid options family (.user m) := by
  have hmap : Blanked family (rewriteOf options (.user m)) ↔
      ∃ c ∈ if options.supportsImages then m.content
        else omitImages "(image omitted: model does not support images)" false m.content,
        UserBlank family (omitVideoAudio options c) := by
    simp [Blanked, Message.Has, rewriteOf, thinkingOf, oneTextOf, videoAudioOf, imagesOf]
  rw [hmap]
  cases himages : options.supportsImages with
  | true =>
      exact exists_congr fun c => and_congr_right fun _ =>
        userBlank_omitVideoAudio_iff options family c (.inl himages)
  | false =>
      refine (exists_omitImages (regards_omitVideoAudio options family) _ _ _).trans ?_
      refine exists_congr fun c => and_congr_right fun _ => ?_
      by_cases hc : ∀ data mimeType, c ≠ .image data mimeType
      · rw [userBlank_omitVideoAudio_iff options family c (.inr hc), and_iff_left hc]
      · -- an image is gone by now, and the model is not listed with images
        have hunsaid : ¬ UserUnsaid options family c := by
          cases c with
          | image => simp [UserUnsaid, mediaListed, himages]
          | _ => simp at hc
        exact iff_of_false (fun h => hc h.2) hunsaid

theorem blanked_assistant_iff (options : TransformOptions) (family : Family)
    (m : AssistantMessage) :
    Blanked family (rewriteOf options (.assistant m)) ↔ Unsaid options family (.assistant m) := by
  have hfilter : Blanked family (rewriteOf options (.assistant m)) ↔
      ∃ c ∈ if options.preserveThinking then m.content
        else m.content.filter fun c => !c.isThinking, AssistantBlank family c := Iff.rfl
  rw [hfilter]
  cases hpreserve : options.preserveThinking with
  | true =>
      refine exists_congr fun c => and_congr_right fun _ => ?_
      rw [assistantBlank_iff, AssistantUnsaid, hpreserve]
      simp
  | false =>
      have hiff : ∀ c, (c.isThinking = false ∧ AssistantBlank family c) ↔
          AssistantUnsaid options family c := by
        intro c
        rw [assistantBlank_iff, AssistantUnsaid, hpreserve, and_comm]
        simp
      simp [Unsaid, Message.Has, ← hiff, and_assoc]

theorem blanked_rewriteOf_iff (options : TransformOptions) (family : Family) (m : Message) :
    Blanked family (rewriteOf options m) ↔ Unsaid options family m := by
  cases m with
  | user m => exact blanked_user_iff options family m
  | assistant m => exact blanked_assistant_iff options family m
  | toolResult m =>
      simp [rewriteOf, thinkingOf, oneTextOf, videoAudioOf, imagesOf, Blanked, Unsaid, Message.Has,
        Content.isText]

/-- After the transform a request loses something exactly when the conversation
holds what the model is listed with and its provider has no block for. -/
theorem blanked_iff (family : Family) (options : TransformOptions) (clock : Nat → SystemTime)
    {ms out : List Message} (h : transformMessages options clock ms = some out) :
    (∃ m ∈ out, Blanked family m) ↔ ∃ m ∈ ms, Unsaid options family m := by
  obtain ⟨rewritten, hrewritten, rfl⟩ := Option.map_eq_some_iff.mp h
  rw [rewriteMessages_eq] at hrewritten
  refine (has_padFrom clock rewritten 0 false).trans ?_
  refine (has_normalizeToolCallIds (regards_assistantBlank family) hrewritten).trans ?_
  rw [has_map]
  exact exists_congr fun m => and_congr_right fun _ => blanked_rewriteOf_iff options family m

/-- A clip for a model that is listed with video, by way of Anthropic. -/
theorem blanked_clip :
    ∃ m ∈ [Message.user ⟨[.video "AAAA" "video/mp4"], 0⟩], Blanked .anthropic m := by
  have h : transformMessages ⟨none, true, true, false, false⟩ (fun _ => 0)
      [.user ⟨[.video "AAAA" "video/mp4"], 0⟩] =
        some [.user ⟨[.video "AAAA" "video/mp4"], 0⟩] := rfl
  refine (blanked_iff .anthropic _ _ h).mpr ⟨_, List.mem_singleton.mpr rfl, ?_⟩
  exact ⟨_, List.mem_singleton.mpr rfl, rfl, rfl⟩

end Pandaria.Ai
