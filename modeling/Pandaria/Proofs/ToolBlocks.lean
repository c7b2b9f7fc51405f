import Pandaria.Proofs.ProviderStreams
import Mathlib.Data.List.Forall2

/-!
# Tool-use blocks

A block starts a call, and the arguments of the call come in pieces until the
block is closed. What a response has started is read off its events here, away
from the parser (`startedCalls`). Where the stream is finished, the calls that
have been sent are those of the blocks that were closed and whose text parses.
No text at all does not parse.
-/

namespace Pandaria.Ai

/-- The calls that have been sent, each with the index of its content. -/
def sentCalls (events : List AssistantMessageEvent) : List (Nat × ToolCall) :=
  events.filterMap fun
    | .toolCallEnd i tc => some (i, tc)
    | _ => none

def Finished (events : List AssistantMessageEvent) : Prop := ∃ reason m, .done reason m ∈ events

theorem sentCalls_append (xs ys : List AssistantMessageEvent) :
    sentCalls (xs ++ ys) = sentCalls xs ++ sentCalls ys :=
  List.filterMap_append

theorem Quiet.not_finished {events : List AssistantMessageEvent} (h : Quiet events) :
    ¬ Finished events := by
  rintro ⟨reason, m, hmem⟩
  cases h _ hmem

theorem Finished.of_append {xs ys : List AssistantMessageEvent} (h : Finished (xs ++ ys))
    (hx : Quiet xs) : Finished ys := by
  obtain ⟨reason, m, hmem⟩ := h
  obtain hmem | hmem := List.mem_append.mp hmem
  · exact absurd ⟨reason, m, hmem⟩ hx.not_finished
  · exact ⟨reason, m, hmem⟩

/-- The text of the arguments can be passed on, and no text is no arguments. -/
def Usable (serde : Serde) (text : String) : Prop :=
  ∃ args, serde.fromStr text = .ok args ∧ (text = "" → args = .obj [])

/-! ## Blocks -/

/-- A tool-use block of a response, with what was streamed of its arguments. -/
structure StartedCall where
  id : String
  name : String
  text : String
  closed : Bool
deriving DecidableEq

def eventType (event : Json) : String := (event.at "type").asStr.getD ""

/-- The kinds of blocks that put an end to the one before. -/
def replacesBlock (type : String) : Bool :=
  type = "text" || type = "thinking" || type = "redacted_thinking"

/-- What an event does to the open call: the calls that are over with it, and
the one that is open then. -/
def StartedCall.next (call : Option StartedCall) (event : Json) :
    List StartedCall × Option StartedCall :=
  if eventType event = "content_block_start" then
    let block := event.at "content_block"
    if eventType block = "tool_use" then
      (call.toList, some
        { id := (block.at "id").asStr.getD ""
          name := (block.at "name").asStr.getD ""
          text := ""
          closed := false })
    else if replacesBlock (eventType block) then (call.toList, none)
    else ([], call)
  else if eventType event = "content_block_delta" then
    let delta := event.at "delta"
    if eventType delta = "input_json_delta" then
      ([], call.map fun c => { c with text := c.text ++ (delta.at "partial_json").asStr.getD "" })
    else ([], call)
  else if eventType event = "content_block_stop" then
    ((call.map fun c => { c with closed := true }).toList, none)
  else ([], call)

/-- The tool-use blocks a response starts before its end. -/
def startedCalls (call : Option StartedCall) : List Json → List StartedCall
  | [] => call.toList
  | event :: rest =>
      if eventType event = "message_stop" then call.toList
      else (StartedCall.next call event).1 ++ startedCalls (StartedCall.next call event).2 rest

/-- What is sent of a block. -/
def StartedCall.sent (serde : Serde) (c : StartedCall) : Option ToolCall :=
  if c.closed then
    match serde.fromStr c.text with
    | .error _ => none
    | .ok args => some { id := c.id, name := c.name, arguments := args, thoughtSignature := none }
  else none

/-- The call is the one the block has started. -/
def StartedCall.Answers (tc : ToolCall) (c : StartedCall) : Prop :=
  tc.id = c.id ∧ tc.name = c.name ∧ (c.text = "" → tc.arguments = .obj [])

def StartedCall.Complete (serde : Serde) (c : StartedCall) : Prop :=
  c.closed = true ∧ Usable serde c.text

theorem StartedCall.sent_eq_some_iff {serde : Serde} {c : StartedCall} {tc : ToolCall} :
    c.sent serde = some tc ↔ c.closed = true ∧ ∃ args, serde.fromStr c.text = .ok args ∧
      tc = { id := c.id, name := c.name, arguments := args, thoughtSignature := none } := by
  rw [StartedCall.sent]
  cases c.closed with
  | false => simp
  | true =>
      cases serde.fromStr c.text with
      | error e => simp
      | ok args => simp [eq_comm]

/-- One call for each block, in order, is what is sent exactly when every block
is complete. -/
theorem answers_iff_complete {serde : Serde} (calls : List StartedCall) :
    List.Forall₂ StartedCall.Answers (calls.filterMap (StartedCall.sent serde)) calls ↔
      ∀ c ∈ calls, c.Complete serde := by
  induction calls with
  | nil => exact iff_of_true .nil fun c h => absurd h List.not_mem_nil
  | cons c rest ih =>
      rw [List.forall_mem_cons, ← ih]
      cases hsent : c.sent serde with
      | none =>
          rw [List.filterMap_cons_none hsent]
          constructor
          · intro h
            have hlen := h.length_eq
            have hle := List.length_filterMap_le (StartedCall.sent serde) rest
            rw [List.length_cons] at hlen
            omega
          · rintro ⟨⟨hclosed, args, hparsed, _⟩, _⟩
            rw [StartedCall.sent_eq_some_iff.mpr ⟨hclosed, args, hparsed, rfl⟩] at hsent
            cases hsent
      | some tc =>
          rw [List.filterMap_cons_some hsent, List.forall₂_cons]
          obtain ⟨hclosed, args, hparsed, rfl⟩ := StartedCall.sent_eq_some_iff.mp hsent
          have hcomplete : c.Complete serde ↔ (c.text = "" → args = .obj []) := by
            constructor
            · rintro ⟨-, args', hparsed', hempty⟩
              rw [hparsed] at hparsed'
              injection hparsed' with hparsed'
              rw [hparsed']
              exact hempty
            · intro hempty
              exact ⟨hclosed, args, hparsed, hempty⟩
          rw [hcomplete]
          simp [StartedCall.Answers]

namespace StreamParser

variable {serde : Serde}

/-- The call the parser has in hand. -/
def openCall (p : StreamParser) : Option StartedCall :=
  match p.currentBlock with
  | some (.toolUse id name) => some { id := id, name := name, text := p.toolAccum, closed := false }
  | _ => none

/-- The parser does with an event what the reading of the response does. -/
def Reads (serde : Serde) (p : StreamParser) (event : Json) (r : Sends StreamParser) : Prop :=
  ∀ p', r.2 = some p' →
    (sentCalls r.1).map Prod.snd =
        (StartedCall.next p.openCall event).1.filterMap (StartedCall.sent serde) ∧
      p'.openCall = (StartedCall.next p.openCall event).2

theorem filterMap_sent_openCall (p : StreamParser) :
    p.openCall.toList.filterMap (StartedCall.sent serde) = [] := by
  rw [openCall]
  split
  · rfl
  · rfl

theorem reads_next {p q : StreamParser} {event : Json} {events : List AssistantMessageEvent}
    (hsent : (sentCalls events).map Prod.snd =
      (StartedCall.next p.openCall event).1.filterMap (StartedCall.sent serde))
    (hopen : q.openCall = (StartedCall.next p.openCall event).2) :
    p.Reads serde event (events, some q) := by
  intro p' hp'
  injection hp' with hp'
  rw [← hp']
  exact ⟨hsent, hopen⟩

theorem blockStart_reads {p : StreamParser} {event : Json}
    (htype : eventType event = "content_block_start") :
    p.Reads serde event (p.blockStart event) := by
  rw [blockStart]
  simp only [← eventType.eq_1]
  generalize hblock : event.at "content_block" = block
  have hnext : StartedCall.next p.openCall event =
      if eventType block = "tool_use" then
        (p.openCall.toList, some
          { id := (block.at "id").asStr.getD ""
            name := (block.at "name").asStr.getD ""
            text := ""
            closed := false })
      else if replacesBlock (eventType block) then (p.openCall.toList, none)
      else ([], p.openCall) := by
    rw [StartedCall.next, if_pos htype, hblock]
  generalize eventType block = type at hnext ⊢
  by_cases htext : type = "text"
  · subst htext
    exact reads_next (by rw [hnext]; exact (filterMap_sent_openCall p).symm) (by rw [hnext]; rfl)
  by_cases htool : type = "tool_use"
  · subst htool
    exact reads_next (by rw [hnext]; exact (filterMap_sent_openCall p).symm) (by rw [hnext]; rfl)
  by_cases hthinking : type = "thinking"
  · subst hthinking
    exact reads_next (by rw [hnext]; exact (filterMap_sent_openCall p).symm) (by rw [hnext]; rfl)
  by_cases hredacted : type = "redacted_thinking"
  · subst hredacted
    exact reads_next (by rw [hnext]; exact (filterMap_sent_openCall p).symm) (by rw [hnext]; rfl)
  rw [if_neg htext, if_neg htool, if_neg hthinking, if_neg hredacted]
  have hother : replacesBlock type = false := by simp [replacesBlock, htext, hthinking, hredacted]
  rw [if_neg htool, hother] at hnext
  exact reads_next (by rw [hnext]; rfl) (by rw [hnext]; rfl)

theorem blockDelta_reads {p : StreamParser} {event : Json}
    (htype : eventType event = "content_block_delta") :
    p.Reads serde event (p.blockDelta event) := by
  rw [blockDelta]
  simp only [← eventType.eq_1]
  generalize hdelta : event.at "delta" = delta
  have hnext : StartedCall.next p.openCall event =
      if eventType delta = "input_json_delta" then
        ([], p.openCall.map fun c =>
          { c with text := c.text ++ (delta.at "partial_json").asStr.getD "" })
      else ([], p.openCall) := by
    rw [StartedCall.next, htype, hdelta]
    rfl
  have hother (h : eventType delta ≠ "input_json_delta") {q : StreamParser}
      {events : List AssistantMessageEvent} (hsent : sentCalls events = [])
      (hopen : q.openCall = p.openCall) : p.Reads serde event (events, some q) := by
    rw [if_neg h] at hnext
    exact reads_next (by rw [hnext, hsent]; rfl) (by rw [hnext, hopen])
  by_cases htext : eventType delta = "text_delta"
  · rw [if_pos htext]
    exact hother (by rw [htext]; decide) rfl rfl
  rw [if_neg htext]
  by_cases hjson : eventType delta = "input_json_delta"
  · rw [if_pos hjson]
    rw [if_pos hjson] at hnext
    refine reads_next (by rw [hnext]; rfl) ?_
    rw [hnext, openCall, openCall]
    cases p.currentBlock with
    | none => rfl
    | some block => cases block <;> rfl
  rw [if_neg hjson]
  split
  · exact hother hjson rfl rfl
  · split
    · cases (delta.at "signature").asStr with
      | none => exact hother hjson rfl rfl
      | some sig => exact hother hjson rfl rfl
    · exact hother hjson rfl rfl

theorem blockStop_reads {p : StreamParser} {event : Json}
    (htype : eventType event = "content_block_stop") :
    p.Reads serde event (p.blockStop serde) := by
  have hnext : StartedCall.next p.openCall event =
      ((p.openCall.map fun c => { c with closed := true }).toList, none) := by
    rw [StartedCall.next, htype]
    rfl
  rw [blockStop, closeBlock]
  cases hblock : p.currentBlock with
  | none => exact reads_next (by rw [hnext, openCall, hblock]; rfl) (by rw [hnext]; rfl)
  | some block =>
      cases block with
      | toolUse id name =>
          simp only []
          cases hparsed : serde.fromStr p.toolAccum with
          | error e =>
              refine reads_next ?_ (by rw [hnext]; rfl)
              rw [hnext, openCall, hblock]
              simp [StartedCall.sent, hparsed, sentCalls]
          | ok args =>
              refine reads_next ?_ (by rw [hnext]; rfl)
              rw [hnext, openCall, hblock]
              simp [StartedCall.sent, hparsed, sentCalls]
      | text | thinking | redactedThinking =>
          exact reads_next (by rw [hnext, openCall, hblock]; rfl) (by rw [hnext]; rfl)

theorem messageStart_openCall (p : StreamParser) (event : Json) :
    (p.messageStart event).openCall = p.openCall := by
  rw [messageStart]
  simp only []
  cases (event.at "message").get "usage" with
  | none => rfl
  | some u => rfl

theorem messageDelta_reads {p : StreamParser} {event : Json}
    (hnext : StartedCall.next p.openCall event = ([], p.openCall)) :
    p.Reads serde event (p.messageDelta event) := by
  have hstop : (p.takeStopReason event).openCall = p.openCall := by
    rw [takeStopReason]
    cases ((event.at "delta").get "stop_reason").bind Json.asStr with
    | none => rfl
    | some reason => rfl
  rw [messageDelta, takeUsage]
  cases event.at "usage" with
  | obj fields =>
      simp only []
      cases (Json.obj fields).get "output_tokens" with
      | none =>
          intro p' hp'
          cases hp'
      | some tokens =>
          exact reads_next (by rw [hnext]; rfl) (by rw [hnext]; exact hstop)
  | null | bool | num | str | arr =>
      exact reads_next (by rw [hnext]; rfl) (by rw [hnext]; exact hstop)

theorem Reads.handled {p p' : StreamParser} {event : Json} {r : Sends StreamParser}
    {events : List AssistantMessageEvent} (h : p.Reads serde event r)
    (hr : r.handled = .next events p') :
    (sentCalls events).map Prod.snd =
        (StartedCall.next p.openCall event).1.filterMap (StartedCall.sent serde) ∧
      p'.openCall = (StartedCall.next p.openCall event).2 := by
  obtain ⟨sent, q⟩ := r
  cases q with
  | none => cases hr
  | some q =>
      injection hr with hevents hq
      rw [← hevents, ← hq]
      exact h q rfl

theorem processEvent_reads {p p' : StreamParser} {event : Json}
    {events : List AssistantMessageEvent} (h : p.processEvent serde event = .next events p') :
    eventType event ≠ "message_stop" ∧
      (sentCalls events).map Prod.snd =
        (StartedCall.next p.openCall event).1.filterMap (StartedCall.sent serde) ∧
      p'.openCall = (StartedCall.next p.openCall event).2 := by
  rw [processEvent] at h
  simp only [← eventType.eq_1] at h
  by_cases hblock : eventType event = "content_block_start"
  · rw [hblock] at h
    exact ⟨by rw [hblock]; decide, (blockStart_reads hblock).handled h⟩
  by_cases hdelta : eventType event = "content_block_delta"
  · rw [hdelta] at h
    exact ⟨by rw [hdelta]; decide, (blockDelta_reads hdelta).handled h⟩
  by_cases hend : eventType event = "content_block_stop"
  · rw [hend] at h
    exact ⟨by rw [hend]; decide, (blockStop_reads hend).handled h⟩
  have hnext : StartedCall.next p.openCall event = ([], p.openCall) := by
    rw [StartedCall.next, if_neg hblock, if_neg hdelta, if_neg hend]
  by_cases hstart : eventType event = "message_start"
  · rw [hstart] at h
    injection h with hevents hp
    refine ⟨by rw [hstart]; decide, ?_, ?_⟩
    · rw [← hevents, hnext]
      rfl
    · rw [← hp, hnext]
      exact messageStart_openCall p event
  by_cases hmessage : eventType event = "message_delta"
  · rw [hmessage] at h
    exact ⟨by rw [hmessage]; decide, (messageDelta_reads hnext).handled h⟩
  rw [if_neg hstart, if_neg hblock, if_neg hdelta, if_neg hend, if_neg hmessage] at h
  by_cases hstop : eventType event = "message_stop"
  · rw [if_pos hstop] at h
    cases h
  · rw [if_neg hstop] at h
    injection h with hevents hp
    rw [← hevents, ← hp, hnext]
    exact ⟨hstop, rfl, rfl⟩

theorem eventType_of_finished {event : Json} (h : eventStops event = some .finished) :
    eventType event = "message_stop" := by
  rw [eventStops] at h
  simp only [← eventType.eq_1] at h
  split at h
  · split at h
    · cases h
    · cases h
  · split at h
    · next htype => exact htype
    · cases h

theorem processEvent_finishes {p : StreamParser} {event : Json} {result : TaskEnd}
    {events : List AssistantMessageEvent} (h : p.processEvent serde event = .leave events result)
    (hdone : Finished events) : eventType event = "message_stop" ∧ sentCalls events = [] := by
  have hhandles : Handles _ (p.processEvent serde event) := processEvent_handles p event
  rw [h] at hhandles
  cases hhandles with
  | leave hleaves hstops =>
      cases hleaves with
      | failed e hquiet => exact absurd hdone hquiet.not_finished
      | panicked hquiet => exact absurd hdone hquiet.not_finished
      | finished reason m hquiet =>
          have htype := eventType_of_finished hstops
          rw [processEvent] at h
          simp only [← eventType.eq_1, htype] at h
          injection h with hevents
          rw [← hevents]
          exact ⟨htype, rfl⟩

/-! ### The two loops -/

section

variable {α : Type} (handle : StreamParser → α → Handled StreamParser) (value : α → Option Json)

/-- The values a loop goes through. -/
def valuesRead (items : List (Except LlmError α)) : List Json :=
  items.filterMap fun
    | .ok a => value a
    | .error _ => none

/-- What a finished loop has sent is what the reading makes of the response. -/
theorem sentCalls_streamLoop
    (hread : ∀ p a v, value a = some v → handle p a = p.processEvent serde v)
    (hskip : ∀ p a, value a = none → handle p a = .next [] p ∨ ∃ r, handle p a = .leave [] r)
    (items : List (Except LlmError α)) (p : StreamParser)
    (hdone : Finished (streamLoop handle (fun _ => []) items p).1) :
    (sentCalls (streamLoop handle (fun _ => []) items p).1).map Prod.snd =
      (startedCalls p.openCall (valuesRead value items)).filterMap (StartedCall.sent serde) := by
  induction items generalizing p with
  | nil => exact absurd hdone quiet_nil.not_finished
  | cons item rest ih =>
      cases item with
      | error e => exact absurd hdone quiet_nil.not_finished
      | ok a =>
          rw [streamLoop] at hdone ⊢
          cases hvalue : value a with
          | none =>
              have hvalues : valuesRead value (.ok a :: rest) = valuesRead value rest := by
                rw [valuesRead, List.filterMap_cons]
                simp only [hvalue]
                rfl
              rw [hvalues]
              obtain hnext | ⟨r, hleave⟩ := hskip p a hvalue
              · rw [hnext] at hdone ⊢
                exact ih p hdone
              · rw [hleave] at hdone
                exact absurd hdone quiet_nil.not_finished
          | some v =>
              have hvalues : valuesRead value (.ok a :: rest) = v :: valuesRead value rest := by
                rw [valuesRead, List.filterMap_cons]
                simp only [hvalue]
                rfl
              rw [hvalues, startedCalls]
              rw [hread p a v hvalue] at hdone ⊢
              cases hevent : p.processEvent serde v with
              | leave events result =>
                  rw [hevent] at hdone
                  obtain ⟨htype, hsent⟩ := processEvent_finishes hevent hdone
                  simp only [hsent, if_pos htype]
                  exact (filterMap_sent_openCall p).symm
              | next events p' =>
                  rw [hevent] at hdone
                  obtain ⟨htype, hsent, hopen⟩ := processEvent_reads hevent
                  have hhandles : Handles _ (p.processEvent serde v) := processEvent_handles p v
                  rw [hevent] at hhandles
                  cases hhandles with
                  | next hquiet hstops =>
                      have hrest := ih p' (Finished.of_append hdone hquiet)
                      simp only [if_neg htype, sentCalls_append, List.map_append,
                        List.filterMap_append, hsent, hrest, hopen]

end

/-- The value of an event, where `AnthropicProvider` reads one. -/
def sseValue (serde : Serde) (e : SseEvent) : Option Json :=
  if (trim e.data.toList).isEmpty then none
  else match e.json serde with
    | some (.ok value) => some value
    | _ => none

theorem handle_of_sseValue {p : StreamParser} {e : SseEvent} {v : Json}
    (h : sseValue serde e = some v) : p.handle serde e = p.processEvent serde v := by
  rw [sseValue] at h
  rw [handle]
  split at h
  · cases h
  · next hblank =>
      rw [if_neg hblank]
      cases hjson : e.json serde with
      | none =>
          rw [hjson] at h
          cases h
      | some result =>
          rw [hjson] at h
          cases result with
          | error err => cases h
          | ok value =>
              injection h with h
              rw [h]

theorem handle_of_no_sseValue {p : StreamParser} {e : SseEvent} (h : sseValue serde e = none) :
    p.handle serde e = .next [] p ∨ ∃ r, p.handle serde e = .leave [] r := by
  rw [sseValue] at h
  rw [handle]
  split at h
  · next hblank =>
      rw [if_pos hblank]
      exact .inl rfl
  · next hblank =>
      rw [if_neg hblank]
      cases hjson : e.json serde with
      | none => exact .inr ⟨_, rfl⟩
      | some result =>
          rw [hjson] at h
          cases result with
          | error err => exact .inr ⟨_, rfl⟩
          | ok value => cases h

/-- And that of a chunk, where `AwsBedrockProvider` does. -/
def chunkValue (serde : Serde) (chunk : Option (List UInt8)) : Option Json :=
  chunk.bind fun bytes => (serde.fromSlice bytes).toOption

theorem handleChunk_of_chunkValue {p : StreamParser} {chunk : Option (List UInt8)} {v : Json}
    (h : chunkValue serde chunk = some v) :
    p.handleChunk serde chunk = p.processEvent serde v := by
  cases chunk with
  | none => cases h
  | some bytes =>
      rw [chunkValue, Option.bind_some] at h
      rw [handleChunk]
      cases hjson : serde.fromSlice bytes with
      | error e =>
          rw [hjson] at h
          cases h
      | ok value =>
          rw [hjson] at h
          injection h with h
          rw [h]

theorem handleChunk_of_no_chunkValue {p : StreamParser} {chunk : Option (List UInt8)}
    (h : chunkValue serde chunk = none) :
    p.handleChunk serde chunk = .next [] p ∨ ∃ r, p.handleChunk serde chunk = .leave [] r := by
  cases chunk with
  | none => exact .inl rfl
  | some bytes =>
      rw [chunkValue, Option.bind_some] at h
      rw [handleChunk]
      cases hjson : serde.fromSlice bytes with
      | error e => exact .inr ⟨_, rfl⟩
      | ok value =>
          rw [hjson] at h
          cases h

theorem sentCalls_sseLoop {provider model : String} {now : SystemTime}
    (items : List SseDecoder.Item)
    (hdone : Finished (streamLoop (handle serde) (fun _ => []) items (new provider model now)).1) :
    (sentCalls (streamLoop (handle serde) (fun _ => []) items (new provider model now)).1).map
        Prod.snd =
      (startedCalls none (valuesRead (sseValue serde) items)).filterMap (StartedCall.sent serde) :=
  sentCalls_streamLoop (handle serde) (sseValue serde) (fun _ _ _ h => handle_of_sseValue h)
    (fun _ _ h => handle_of_no_sseValue h) items (new provider model now) hdone

theorem sentCalls_chunkLoop {provider model : String} {now : SystemTime}
    (items : List (Except LlmError (Option (List UInt8))))
    (hdone : Finished
      (streamLoop (handleChunk serde) (fun _ => []) items (new provider model now)).1) :
    (sentCalls (streamLoop (handleChunk serde) (fun _ => []) items (new provider model now)).1).map
        Prod.snd =
      (startedCalls none (valuesRead (chunkValue serde) items)).filterMap
        (StartedCall.sent serde) :=
  sentCalls_streamLoop (handleChunk serde) (chunkValue serde)
    (fun _ _ _ h => handleChunk_of_chunkValue h) (fun _ _ h => handleChunk_of_no_chunkValue h)
    items (new provider model now) hdone

end StreamParser

end Pandaria.Ai
