import Pandaria.Ai.Types
import Pandaria.Lib.Codec

/-!
# What `serde` derives

The `Serialize` and `Deserialize` a derive makes, for values of `serde_json`. A
record is an object with a field for each of its own, in which a field that is not
known is ignored. A record may be read from an array as well, which is never
written and left out here.
-/

namespace Pandaria.Ai

open Pandaria.Lib

/-- An error of a decoder. -/
inductive SerdeError where
  | missingField (name : String)
  | invalidType (expected : String)
  | unknownVariant (variant : String)
  | custom (message : String)
deriving DecidableEq

abbrev JsonCodec := Codec Json SerdeError

namespace JsonCodec

def ofOption {α : Type} (expected : String) : Option α → Except SerdeError α
  | some a => .ok a
  | none => .error (.invalidType expected)

def value : JsonCodec Json := ⟨id, .ok⟩

def string : JsonCodec String := ⟨.str, fun v => ofOption "a string" v.asStr⟩

def bool : JsonCodec Bool := ⟨.bool, fun v => ofOption "a boolean" v.asBool⟩

/-- Of a number in the range of the type, which `write` does not check. -/
def u64 : JsonCodec Nat := ⟨fun n => .num (toString n), fun v => ofOption "u64" v.asU64⟩

def uint64 : JsonCodec UInt64 where
  write n := u64.write n.toNat
  read v := UInt64.ofNat <$> u64.read v

variable {α : Type}

def option (c : JsonCodec α) : JsonCodec (Option α) := Codec.nullable .null c

def vec (c : JsonCodec α) : JsonCodec (List α) where
  write l := .arr (l.map c.write)
  read v := do
    let elems ← ofOption "a sequence" v.asArray
    Codec.readList c.read elems

/-! ## Records -/

abbrev Fields := List (String × Json)

@[simp] def fields (expected : String) : Json → Except SerdeError Fields
  | .obj fields => .ok fields
  | _ => .error (.invalidType expected)

@[simp] def find (fields : Fields) (name : String) : Option Json :=
  (fields.find? fun f => f.1 = name).map (·.2)

@[simp] def field (c : JsonCodec α) (name : String) (fields : Fields) : Except SerdeError α :=
  match find fields name with
  | some v => c.read v
  | none => .error (.missingField name)

/-- `#[serde(default)]`. -/
@[simp] def fieldOr (c : JsonCodec α) (name : String) (default : α) (fields : Fields) :
    Except SerdeError α :=
  match find fields name with
  | some v => c.read v
  | none => .ok default

/-- A field of a type `Option`, which need not be there. -/
@[simp] def optField (c : JsonCodec α) (name : String) (fields : Fields) :
    Except SerdeError (Option α) :=
  c.option.fieldOr name none fields

/-- `#[serde(skip_serializing_if = "Option::is_none")]`. -/
def skipNone (c : JsonCodec α) (name : String) : Option α → Fields
  | none => []
  | some a => [(name, c.write a)]

/-- A record, as the fields of an object. -/
structure RecordCodec (α : Type) where
  write : α → Fields
  read : Fields → Except SerdeError α

def RecordCodec.codec (r : RecordCodec α) (expected : String) : JsonCodec α where
  write a := .obj (r.write a)
  read v := do
    let fields ← fields expected v
    r.read fields

/-! ## Unit variants -/

/-- An enum without data, with the name of each variant. -/
def variants (names : List (String × α)) (name : α → String) : JsonCodec α where
  write a := .str (name a)
  read v := do
    let s ← ofOption "a string" v.asStr
    match names.find? fun p => p.1 = s with
    | some p => .ok p.2
    | none => .error (.unknownVariant s)

/-! ## What comes back -/

@[simp] theorem value_read (v : Json) : value.read (value.write v) = .ok v := rfl

@[simp] theorem string_read (s : String) : string.read (string.write s) = .ok s := rfl

@[simp] theorem bool_read (b : Bool) : bool.read (bool.write b) = .ok b := rfl

theorem foldl_digits (n : Nat) :
    (Nat.toDigits 10 n).foldl (fun n c => n * 10 + (c.toNat - '0'.toNat)) 0 = n := by
  have h := @Nat.ofDigitChars_ten_toDigits n
  rw [Nat.ofDigitChars_eq_foldl] at h
  simp only [Nat.mul_comm 10] at h
  exact h

theorem asU64_toString (n : Nat) :
    (Json.num (toString n)).asU64 = if n < 2 ^ 64 then some n else none := by
  have hlist : (toString n).toList = Nat.toDigits 10 n := Nat.toList_repr
  have hempty : (Nat.toDigits 10 n).isEmpty = false := by
    rw [List.isEmpty_eq_false_iff]
    exact Nat.toDigits_ne_nil
  have hall : (Nat.toDigits 10 n).all Char.isDigit = true := by
    rw [List.all_eq_true]
    intro c hc
    exact Nat.isDigit_of_mem_toDigits (by decide) (by decide) hc
  simp only [Json.asU64, hlist, foldl_digits, hempty, hall]
  simp

theorem u64_roundTrips_iff (n : Nat) : u64.RoundTrips n ↔ n < 2 ^ 64 := by
  have hread : u64.RoundTrips n ↔ ofOption "u64" (Json.num (toString n)).asU64 = .ok n := Iff.rfl
  rw [hread, asU64_toString]
  split
  · next h => exact iff_of_true rfl h
  · next h => exact iff_of_false (by simp [ofOption]) h

@[simp] theorem uint64_read (n : UInt64) : uint64.read (uint64.write n) = .ok n := by
  have h : u64.RoundTrips n.toNat := (u64_roundTrips_iff _).mpr n.toNat_lt
  have hread : uint64.read (uint64.write n) = UInt64.ofNat <$> u64.read (u64.write n.toNat) := rfl
  rw [hread, show u64.read (u64.write n.toNat) = .ok n.toNat from h]
  exact congrArg Except.ok (UInt64.ofNat_toNat (x := n))

theorem option_roundTrips_iff (c : JsonCodec α) (a : Option α) :
    c.option.RoundTrips a ↔ ∀ x, a = some x → c.write x ≠ .null ∧ c.RoundTrips x :=
  Codec.nullable_roundTrips_iff Json.null c a

/-- Everything comes back, and nothing is written as `null`. -/
structure Lossless (c : JsonCodec α) : Prop where
  read (a : α) : c.read (c.write a) = .ok a
  ne_null (a : α) : c.write a ≠ .null

theorem lossless_string : string.Lossless := ⟨string_read, fun _ => Json.noConfusion⟩

theorem lossless_uint64 : uint64.Lossless := ⟨uint64_read, fun _ => Json.noConfusion⟩

theorem Lossless.option_read {c : JsonCodec α} (h : c.Lossless) (a : Option α) :
    c.option.read (c.option.write a) = .ok a :=
  (option_roundTrips_iff c a).mpr fun x _ => ⟨h.ne_null x, h.read x⟩

theorem vec_roundTrips_iff (c : JsonCodec α) (l : List α) :
    c.vec.RoundTrips l ↔ ∀ a ∈ l, c.RoundTrips a :=
  Codec.readList_write_iff c l

theorem Lossless.vec_read {c : JsonCodec α} (h : c.Lossless) (l : List α) :
    c.vec.read (c.vec.write l) = .ok l :=
  (vec_roundTrips_iff c l).mpr fun a _ => h.read a

end JsonCodec

end Pandaria.Ai

/-!
## Messages in JSON

The encoders and decoders of `ai-provider/src/types.rs`. All are derived but the
decoder of a content block, which reads whatever it is given: a text that is not
there is empty, a media type has a default for its kind, and a block of an unknown
kind becomes a text. Times are written in whole seconds.

A `SystemTime` is a number of nanoseconds since the epoch here. One before the epoch,
at which the encoder panics, there is not.
-/

namespace Pandaria.Ai

open Pandaria.Lib JsonCodec

/-! ### Times -/

def nanosPerSec : Nat := 1000000000

/-- `ts_serde`. A `SystemTime` counts its seconds in an `i64`; the decoder panics
past that, which is an error here. -/
def tsSerde : JsonCodec SystemTime where
  write time := u64.write (time / nanosPerSec)
  read v := do
    let secs ← u64.read v
    if secs < 2 ^ 63 then return secs * nanosPerSec
    else .error (.custom "overflow when adding duration to instant")

/-! ### Content -/

def ToolCall.record : RecordCodec ToolCall where
  write tc :=
    [("id", string.write tc.id), ("name", string.write tc.name),
      ("arguments", value.write tc.arguments)] ++
    skipNone string "thought_signature" tc.thoughtSignature
  read fields := do
    return {
      id := ← string.field "id" fields
      name := ← string.field "name" fields
      arguments := ← value.field "arguments" fields
      thoughtSignature := ← string.optField "thought_signature" fields }

namespace Content

def write : Content → Json
  | .text s signature =>
      .obj ([("type", .str "text"), ("text", string.write s)] ++
        skipNone string "text_signature" signature)
  | .image data mimeType => .obj [("type", .str "image"), ("data", string.write data),
      ("mime_type", string.write mimeType)]
  | .video data mimeType => .obj [("type", .str "video"), ("data", string.write data),
      ("mime_type", string.write mimeType)]
  | .audio data mimeType => .obj [("type", .str "audio"), ("data", string.write data),
      ("mime_type", string.write mimeType)]
  | .thinking s signature redacted =>
      .obj ([("type", .str "thinking"), ("thinking", string.write s)] ++
        skipNone string "thinking_signature" signature ++ [("redacted", bool.write redacted)])
  | .toolCall tc => .obj (("type", .str "toolCall") :: ToolCall.record.write tc)

/-- `value.get(key).and_then(|v| v.as_str())`. -/
def str (v : Json) (key : String) : Option String := (v.get key).bind Json.asStr

def read (v : Json) : Except SerdeError Content :=
  let type := (str v "type").getD ""
  if type = "text" then .ok (.text ((str v "text").getD "") (str v "text_signature"))
  else if type = "image" then
    .ok (.image ((str v "data").getD "") ((str v "mime_type").getD "image/png"))
  else if type = "video" then
    .ok (.video ((str v "data").getD "") ((str v "mime_type").getD "video/mp4"))
  else if type = "audio" then
    .ok (.audio ((str v "data").getD "") ((str v "mime_type").getD "audio/wav"))
  else if type = "thinking" then
    .ok (.thinking ((str v "thinking").getD "") (str v "thinking_signature")
      (((v.get "redacted").bind Json.asBool).getD false))
  else if type = "toolCall" then
    .toolCall <$> (ToolCall.record.codec "struct ToolCall").read v
  else .ok (.text ("[unsupported content type: " ++ type ++ "]") none)

def codec : JsonCodec Content := ⟨write, read⟩

end Content

/-! ### Messages -/

def UserMessage.record : RecordCodec UserMessage where
  write m :=
    [("content", Content.codec.vec.write m.content), ("timestamp", tsSerde.write m.timestamp)]
  read fields := do
    return {
      content := ← Content.codec.vec.field "content" fields
      timestamp := ← tsSerde.field "timestamp" fields }

def Api.record : RecordCodec Api where
  write a := [("provider", string.write a.provider), ("model", string.write a.model)]
  read fields := do
    return {
      provider := ← string.field "provider" fields
      model := ← string.field "model" fields }

def Usage.record : RecordCodec Usage where
  write u :=
    [("input_tokens", u64.write u.inputTokens), ("output_tokens", u64.write u.outputTokens)] ++
    skipNone u64 "cache_creation_input_tokens" u.cacheCreationInputTokens ++
    skipNone u64 "cache_read_input_tokens" u.cacheReadInputTokens ++
    [("total_tokens", u64.write u.totalTokens)]
  read fields := do
    return {
      inputTokens := ← u64.field "input_tokens" fields
      outputTokens := ← u64.field "output_tokens" fields
      cacheCreationInputTokens := ← u64.optField "cache_creation_input_tokens" fields
      cacheReadInputTokens := ← u64.optField "cache_read_input_tokens" fields
      totalTokens := ← u64.fieldOr "total_tokens" 0 fields }

def StopReason.codec : JsonCodec StopReason :=
  variants [("stop", .stop), ("length", .length), ("tool_use", .toolUse), ("error", .error),
    ("aborted", .aborted)] fun
    | .stop => "stop"
    | .length => "length"
    | .toolUse => "tool_use"
    | .error => "error"
    | .aborted => "aborted"

def AssistantMessage.record : RecordCodec AssistantMessage where
  write m :=
    [("content", Content.codec.vec.write m.content), ("provider", string.write m.provider),
      ("api", (Api.record.codec "struct Api").write m.api), ("model", string.write m.model),
      ("usage", (Usage.record.codec "struct Usage").write m.usage),
      ("stop_reason", StopReason.codec.write m.stopReason)] ++
    skipNone string "response_id" m.responseId ++
    skipNone string "error_message" m.errorMessage ++
    [("timestamp", tsSerde.write m.timestamp)]
  read fields := do
    return {
      content := ← Content.codec.vec.field "content" fields
      provider := ← string.field "provider" fields
      api := ← (Api.record.codec "struct Api").field "api" fields
      model := ← string.field "model" fields
      usage := ← (Usage.record.codec "struct Usage").field "usage" fields
      stopReason := ← StopReason.codec.field "stop_reason" fields
      responseId := ← string.optField "response_id" fields
      errorMessage := ← string.optField "error_message" fields
      timestamp := ← tsSerde.field "timestamp" fields }

def ToolResultMessage.record : RecordCodec ToolResultMessage where
  write m :=
    [("tool_call_id", string.write m.toolCallId), ("tool_name", string.write m.toolName),
      ("content", Content.codec.vec.write m.content)] ++
    skipNone value "details" m.details ++
    [("is_error", bool.write m.isError), ("timestamp", tsSerde.write m.timestamp)]
  read fields := do
    return {
      toolCallId := ← string.field "tool_call_id" fields
      toolName := ← string.field "tool_name" fields
      content := ← Content.codec.vec.field "content" fields
      details := ← value.optField "details" fields
      isError := ← bool.fieldOr "is_error" false fields
      timestamp := ← tsSerde.field "timestamp" fields }

namespace Message

def write : Message → Json
  | .user m => .obj (("role", .str "user") :: UserMessage.record.write m)
  | .assistant m => .obj (("role", .str "assistant") :: AssistantMessage.record.write m)
  | .toolResult m => .obj (("role", .str "toolResult") :: ToolResultMessage.record.write m)

def read (v : Json) : Except SerdeError Message := do
  let fields ← fields "internally tagged enum Message" v
  let role ← string.field "role" fields
  if role = "user" then .user <$> UserMessage.record.read fields
  else if role = "assistant" then .assistant <$> AssistantMessage.record.read fields
  else if role = "toolResult" then .toolResult <$> ToolResultMessage.record.read fields
  else .error (.unknownVariant role)

def codec : JsonCodec Message := ⟨write, read⟩

end Message

end Pandaria.Ai
