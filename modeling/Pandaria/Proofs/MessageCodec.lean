import Pandaria.Ai.Serde

/-!
# What of a message comes back

Every block of content comes back, whatever is in it. A message does when its
numbers fit into their types and its time is a whole second, unless it has details
and they are the JSON value `null`: they are written, and read as if there were
none.
-/

namespace Pandaria.Ai

open Pandaria.Lib JsonCodec

theorem JsonCodec.Lossless.some_read {α : Type} {c : JsonCodec α} (h : c.Lossless) (a : α) :
    c.option.read (c.write a) = .ok (some a) :=
  h.option_read (some a)

/-! ## Content -/

theorem toolCall_read (tc : ToolCall) :
    ToolCall.record.read (("type", .str "toolCall") :: ToolCall.record.write tc) = .ok tc := by
  obtain ⟨id, name, arguments, thoughtSignature⟩ := tc
  cases thoughtSignature <;>
    simp [ToolCall.record, skipNone, Codec.bind_eq_ok, lossless_string.some_read]

theorem lossless_content : Content.codec.Lossless where
  read c := by
    cases c with
    | text s signature => cases signature <;> rfl
    | image data mimeType => rfl
    | video data mimeType => rfl
    | audio data mimeType => rfl
    | thinking s signature redacted => cases signature <;> rfl
    | toolCall tc =>
        have h : Content.codec.read (Content.codec.write (.toolCall tc)) =
            Content.toolCall <$>
              ToolCall.record.read (("type", .str "toolCall") :: ToolCall.record.write tc) := rfl
        rw [h, toolCall_read]
        rfl
  ne_null c := by cases c <;> exact Json.noConfusion

/-! ## Numbers and times -/

/-- A message holds its time in whole seconds, in the range of a `SystemTime`. -/
structure WholeSeconds (time : SystemTime) : Prop where
  whole : nanosPerSec ∣ time
  range : time / nanosPerSec < 2 ^ 63

theorem tsSerde_read {time : SystemTime} (h : WholeSeconds time) :
    tsSerde.read (tsSerde.write time) = .ok time := by
  obtain ⟨whole, range⟩ := h
  have hu64 : u64.read (u64.write (time / nanosPerSec)) = .ok (time / nanosPerSec) :=
    (u64_roundTrips_iff _).mpr (Nat.lt_trans range (by decide))
  have hread : tsSerde.read (tsSerde.write time) = (do
      let secs ← u64.read (u64.write (time / nanosPerSec))
      if secs < 2 ^ 63 then return secs * nanosPerSec
      else .error (.custom "overflow when adding duration to instant")) := rfl
  rw [hread, hu64]
  show (if time / nanosPerSec < 2 ^ 63 then _ else _) = _
  rw [if_pos range, Nat.div_mul_cancel whole]
  rfl

/-- The numbers of a usage are those of a `u64`. -/
structure Usage.Fits (u : Usage) : Prop where
  input : u.inputTokens < 2 ^ 64
  output : u.outputTokens < 2 ^ 64
  cacheCreation : ∀ n, u.cacheCreationInputTokens = some n → n < 2 ^ 64
  cacheRead : ∀ n, u.cacheReadInputTokens = some n → n < 2 ^ 64
  total : u.totalTokens < 2 ^ 64

theorem u64_read {n : Nat} (h : n < 2 ^ 64) : u64.read (u64.write n) = .ok n :=
  (u64_roundTrips_iff n).mpr h

theorem u64_some_read {n : Nat} (h : n < 2 ^ 64) :
    u64.option.read (u64.write n) = .ok (some n) := by
  have hopt : u64.option.RoundTrips (some n) := by
    rw [option_roundTrips_iff]
    rintro x ⟨⟩
    exact ⟨Json.noConfusion, u64_read h⟩
  exact hopt

theorem usage_read {u : Usage} (h : u.Fits) :
    (Usage.record.codec "struct Usage").read ((Usage.record.codec "struct Usage").write u) =
      .ok u := by
  obtain ⟨inputTokens, outputTokens, cacheCreation, cacheRead, totalTokens⟩ := u
  obtain ⟨hinput, houtput, hcreation, hcache, htotal⟩ := h
  cases cacheCreation with
  | none =>
      cases cacheRead with
      | none =>
          simp [RecordCodec.codec, Usage.record, skipNone, Codec.bind_eq_ok, u64_read hinput,
            u64_read houtput, u64_read htotal]
      | some n =>
          simp [RecordCodec.codec, Usage.record, skipNone, Codec.bind_eq_ok, u64_read hinput,
            u64_read houtput, u64_read htotal, u64_some_read (hcache n rfl)]
  | some m =>
      cases cacheRead with
      | none =>
          simp [RecordCodec.codec, Usage.record, skipNone, Codec.bind_eq_ok, u64_read hinput,
            u64_read houtput, u64_read htotal, u64_some_read (hcreation m rfl)]
      | some n =>
          simp [RecordCodec.codec, Usage.record, skipNone, Codec.bind_eq_ok, u64_read hinput,
            u64_read houtput, u64_read htotal, u64_some_read (hcreation m rfl),
            u64_some_read (hcache n rfl)]

/-! ## Messages -/

theorem lossless_api : (Api.record.codec "struct Api").Lossless where
  read a := by
    obtain ⟨provider, model⟩ := a
    simp [RecordCodec.codec, Api.record, Codec.bind_eq_ok]
  ne_null _ := Json.noConfusion

theorem lossless_stopReason : StopReason.codec.Lossless where
  read r := by cases r <;> rfl
  ne_null _ := Json.noConfusion

theorem userMessage_read {m : UserMessage} (h : WholeSeconds m.timestamp) :
    UserMessage.record.read (("role", .str "user") :: UserMessage.record.write m) = .ok m := by
  obtain ⟨content, timestamp⟩ := m
  simp [UserMessage.record, Codec.bind_eq_ok, lossless_content.vec_read, tsSerde_read h]

theorem assistantMessage_read {m : AssistantMessage} (hu : m.usage.Fits)
    (ht : WholeSeconds m.timestamp) :
    AssistantMessage.record.read (("role", .str "assistant") :: AssistantMessage.record.write m) =
      .ok m := by
  obtain ⟨content, provider, api, model, usage, stopReason, responseId, errorMessage,
    timestamp⟩ := m
  cases responseId <;> cases errorMessage <;>
    simp [AssistantMessage.record, skipNone, Codec.bind_eq_ok, lossless_content.vec_read,
      lossless_api.read, usage_read hu, lossless_stopReason.read, lossless_string.some_read,
      tsSerde_read ht]

/-- Details are read as what is in them, and `null` as none. -/
theorem details_read (v : Json) :
    value.option.read (value.write v) = .ok (if v = .null then none else some v) := by
  show (if v = .null then .ok none else some <$> value.read v) = _
  split
  · rfl
  · rfl

theorem toolResultMessage_read {m : ToolResultMessage} (h : WholeSeconds m.timestamp) :
    ToolResultMessage.record.read
        (("role", .str "toolResult") :: ToolResultMessage.record.write m) =
      .ok { m with details := m.details.filter fun v => v ≠ .null } := by
  obtain ⟨toolCallId, toolName, content, details, isError, timestamp⟩ := m
  cases details with
  | none =>
      simp [ToolResultMessage.record, skipNone, Codec.bind_eq_ok, lossless_content.vec_read,
        tsSerde_read h, -Bool.exists_bool]
  | some v =>
      simp [ToolResultMessage.record, skipNone, Codec.bind_eq_ok, lossless_content.vec_read,
        tsSerde_read h, details_read, Option.filter, -Bool.exists_bool]

namespace Message

def timestamp : Message → SystemTime
  | .user m => m.timestamp
  | .assistant m => m.timestamp
  | .toolResult m => m.timestamp

def details : Message → Option Json
  | .toolResult m => m.details
  | _ => none

/-- The numbers in a message are those its types have. -/
def Fits : Message → Prop
  | .assistant m => m.usage.Fits
  | _ => True

/-- A message of whole seconds comes back exactly when it does not have the details
`null`. -/
theorem message_roundTrips_iff (m : Message) (hfits : m.Fits) (htime : WholeSeconds m.timestamp) :
    codec.RoundTrips m ↔ m.details ≠ some .null := by
  cases m with
  | user m =>
      have hread : codec.read (codec.write (.user m)) =
          .user <$> UserMessage.record.read (("role", .str "user") :: UserMessage.record.write m) :=
        rfl
      rw [Codec.RoundTrips, hread, userMessage_read htime]
      exact iff_of_true rfl (by simp [details])
  | assistant m =>
      have hread : codec.read (codec.write (.assistant m)) = .assistant <$>
          AssistantMessage.record.read
            (("role", .str "assistant") :: AssistantMessage.record.write m) := rfl
      rw [Codec.RoundTrips, hread, assistantMessage_read hfits htime]
      exact iff_of_true rfl (by simp [details])
  | toolResult m =>
      have hread : codec.read (codec.write (.toolResult m)) = .toolResult <$>
          ToolResultMessage.record.read
            (("role", .str "toolResult") :: ToolResultMessage.record.write m) := rfl
      have hsame : { m with details := m.details.filter fun v => v ≠ .null } = m ↔
          m.details ≠ some .null := by
        obtain ⟨toolCallId, toolName, content, details, isError, timestamp⟩ := m
        cases details with
        | none => simp
        | some v => simp [Option.filter]
      rw [Codec.RoundTrips, hread, toolResultMessage_read htime]
      show (Except.ok (Message.toolResult _) : Except SerdeError Message) = _ ↔ _
      rw [Except.ok.injEq, toolResult.injEq]
      exact hsame

/-- A message with a block of every kind, and with everything that may be missing. -/
def wholeMessage : Message :=
  .assistant
    { content := [.text "a" (some "b"), .image "a" "image/gif", .video "a" "", .audio "" "b",
        .thinking "a" none true, .toolCall ⟨"c1", "read", .null, some "s"⟩]
      provider := "openai"
      api := ⟨"openai", "gpt-4"⟩
      model := "gpt-4"
      usage := ⟨10, 5, some 0, none, 15⟩
      stopReason := .toolUse
      responseId := some "r"
      errorMessage := some ""
      timestamp := 1700000000 * nanosPerSec }

theorem message_roundTrips_whole : codec.RoundTrips wholeMessage := by
  have hfits : wholeMessage.Fits :=
    ⟨by decide, by decide, by rintro n ⟨⟩; decide, by rintro n ⟨⟩, by decide⟩
  have htime : WholeSeconds wholeMessage.timestamp := ⟨⟨1700000000, by decide⟩, by decide⟩
  exact (message_roundTrips_iff wholeMessage hfits htime).mpr (by decide)

/-- The result of a tool that had `null` for its details. -/
def nullDetails : Message :=
  .toolResult
    { toolCallId := "c1"
      toolName := "web_search"
      content := []
      details := some .null
      isError := false
      timestamp := 0 }

/-- It comes back without any. -/
theorem not_message_roundTrips :
    codec.read (codec.write nullDetails) = .ok (.toolResult ⟨"c1", "web_search", [], none, false, 0⟩) ∧
      ¬ codec.RoundTrips nullDetails := by
  have hread : codec.read (codec.write nullDetails) =
      .ok (.toolResult ⟨"c1", "web_search", [], none, false, 0⟩) := rfl
  refine ⟨hread, ?_⟩
  intro h
  rw [Codec.RoundTrips, hread] at h
  exact absurd (congrArg (fun r => r.map Message.details) h) (by decide)

end Message

end Pandaria.Ai
