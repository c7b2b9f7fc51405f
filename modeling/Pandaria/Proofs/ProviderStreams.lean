import Pandaria.Ai.Providers

/-!
# How the streams of the providers end

What a provider makes of one item of a response is decided by the item alone:
it goes on, or it leaves the loop in one of the three ways a task can end.
`ending` reads that off the items, and `streamLoop_ends` is the rule by which
a loop over them follows it. What remains for each provider is what it does
about a single item, and that nothing it sends on the way terminates a stream.
-/

namespace Pandaria.Ai

/-- No event that terminates a stream. -/
def Quiet (events : List AssistantMessageEvent) : Prop := ∀ e ∈ events, e.isTerminal = false

instance (events : List AssistantMessageEvent) : Decidable (Quiet events) :=
  inferInstanceAs (Decidable (∀ e ∈ events, e.isTerminal = false))

theorem quiet_nil : Quiet [] := fun _ h => absurd h List.not_mem_nil

theorem Quiet.append {xs ys : List AssistantMessageEvent} (hx : Quiet xs) (hy : Quiet ys) :
    Quiet (xs ++ ys) :=
  fun e he => (List.mem_append.mp he).elim (hx e) (hy e)

theorem Quiet.cons {e : AssistantMessageEvent} {xs : List AssistantMessageEvent}
    (he : e.isTerminal = false) (hx : Quiet xs) : Quiet (e :: xs) :=
  fun e' he' => (List.mem_cons.mp he').elim (fun h => h ▸ he) (hx e')

theorem quiet_single {e : AssistantMessageEvent} (he : e.isTerminal = false) : Quiet [e] :=
  quiet_nil.cons he

theorem quiet_ite {c : Prop} [Decidable c] {xs ys : List AssistantMessageEvent}
    (hx : Quiet xs) (hy : Quiet ys) : Quiet (if c then xs else ys) := by
  split
  · exact hx
  · exact hy

/-! ## Sending -/

section

variable {σ α : Type}

/-- Quiet, and a panic exactly when `b` says so. -/
def Sends.Breaks (r : Sends σ) (b : Bool) : Prop := Quiet r.1 ∧ r.2.isNone = b

theorem Sends.Breaks.andThen {r : Sends σ} {f : σ → Sends σ} {b c : Bool} (hr : r.Breaks b)
    (hf : ∀ s, (f s).Breaks c) : (r.andThen f).Breaks (b || c) := by
  obtain ⟨events, s⟩ := r
  obtain ⟨hq, hb⟩ := hr
  cases s with
  | none =>
      have hb : b = true := hb.symm
      rw [hb]
      exact ⟨hq, rfl⟩
  | some s =>
      have hb : b = false := hb.symm
      rw [hb]
      exact ⟨hq.append (hf s).1, (hf s).2⟩

theorem sendAll_breaks {f : σ → α → Sends σ} {p : α → Bool} (hf : ∀ s a, (f s a).Breaks (p a))
    (as : List α) (s : σ) : (sendAll f as s).Breaks (as.any p) := by
  induction as generalizing s with
  | nil => exact ⟨quiet_nil, rfl⟩
  | cons a as ih => exact (hf s a).andThen ih

theorem sendAll_quiet {f : σ → α → Sends σ} (hf : ∀ s a, (f s a).Breaks false) (as : List α)
    (s : σ) : (sendAll f as s).Breaks false := by
  have h := sendAll_breaks hf as s
  rwa [List.any_eq_false.mpr fun _ _ => Bool.false_ne_true] at h

/-! ## The loop -/

/-- What is sent when a loop is left: `Done` exactly when it has finished. -/
inductive Leaves : List AssistantMessageEvent → TaskEnd → Prop where
  | finished {events : List AssistantMessageEvent} (reason : StopReason) (m : AssistantMessage)
      (h : Quiet events) : Leaves (events ++ [.done reason m]) .finished
  | failed {events : List AssistantMessageEvent} (e : LlmError) (h : Quiet events) :
      Leaves events (.failed e)
  | panicked {events : List AssistantMessageEvent} (h : Quiet events) : Leaves events .panicked

theorem Leaves.append {xs ys : List AssistantMessageEvent} {result : TaskEnd} (hx : Quiet xs)
    (h : Leaves ys result) : Leaves (xs ++ ys) result := by
  cases h with
  | finished reason m hy =>
      rw [← List.append_assoc]
      exact .finished reason m (hx.append hy)
  | failed e hy => exact .failed e (hx.append hy)
  | panicked hy => exact .panicked (hx.append hy)

/-- A handler does about an item what `stops` says. -/
inductive Handles (stops : Option TaskEnd) : Handled σ → Prop where
  | next {events : List AssistantMessageEvent} {s : σ} (h : Quiet events) (hs : stops = none) :
      Handles stops (.next events s)
  | leave {events : List AssistantMessageEvent} {result : TaskEnd} (h : Leaves events result)
      (hs : stops = some result) : Handles stops (.leave events result)

theorem Sends.Breaks.handled {r : Sends σ} {b : Bool} (h : r.Breaks b) :
    Handles (if b then some .panicked else none) r.handled := by
  obtain ⟨events, s⟩ := r
  obtain ⟨hq, hb⟩ := h
  cases s with
  | none => exact .leave (.panicked hq) (by rw [← hb]; rfl)
  | some s => exact .next hq (by rw [← hb]; rfl)

/-- Where a loop over `items` is left, if they do not run out before. -/
def ending (stops : α → Option TaskEnd) : List (Except LlmError α) → Option TaskEnd
  | [] => none
  | .error e :: _ => some (.failed e)
  | .ok a :: rest =>
      match stops a with
      | some result => some result
      | none => ending stops rest

/-- The two ways a loop ends. -/
inductive Ends (atEnd : σ → List AssistantMessageEvent) :
    Option TaskEnd → List AssistantMessageEvent × TaskEnd → Prop where
  | left {events : List AssistantMessageEvent} {result : TaskEnd} (h : Leaves events result) :
      Ends atEnd (some result) (events, result)
  | ranOut {events : List AssistantMessageEvent} (s : σ) (h : Quiet events) :
      Ends atEnd none (events ++ atEnd s, .finished)

theorem streamLoop_ends {handle : σ → α → Handled σ} {atEnd : σ → List AssistantMessageEvent}
    {stops : α → Option TaskEnd} (hh : ∀ s a, Handles (stops a) (handle s a))
    (items : List (Except LlmError α)) (s : σ) :
    Ends atEnd (ending stops items) (streamLoop handle atEnd items s) := by
  induction items generalizing s with
  | nil => exact .ranOut s quiet_nil
  | cons item rest ih =>
      cases item with
      | error e => exact .left (.failed e quiet_nil)
      | ok a =>
          have ha := hh s a
          rw [streamLoop, ending]
          cases hs : handle s a with
          | leave events result =>
              rw [hs] at ha
              cases ha with
              | leave h hstop =>
                  rw [hstop]
                  exact .left h
          | next events s' =>
              rw [hs] at ha
              cases ha with
              | next h hstop =>
                  rw [hstop]
                  -- What follows is the rest of the loop, with these events before it.
                  have hrest := ih s'
                  simp only []
                  generalize streamLoop handle atEnd rest s' = after at hrest ⊢
                  generalize ending stops rest = result at hrest ⊢
                  cases hrest with
                  | left hl => exact .left (hl.append h)
                  | ranOut s'' hq =>
                      simp only []
                      rw [← List.append_assoc]
                      exact .ranOut s'' (h.append hq)

/-- What holds of the events sent when a loop is over, from what every item
that does not leave it preserves. -/
theorem streamLoop_sent {handle : σ → α → Handled σ} {atEnd : σ → List AssistantMessageEvent}
    (Inv : List AssistantMessageEvent → σ → Prop) (Post : List AssistantMessageEvent → Prop)
    (hnext : ∀ sent s a events s', Inv sent s → handle s a = .next events s' →
      Inv (sent ++ events) s')
    (hleave : ∀ sent s a events result, Inv sent s → handle s a = .leave events result →
      Post (sent ++ events))
    (hend : ∀ sent s, Inv sent s → Post (sent ++ atEnd s))
    (hfail : ∀ sent s, Inv sent s → Post sent)
    (items : List (Except LlmError α)) {sent : List AssistantMessageEvent} {s : σ}
    (h : Inv sent s) : Post (sent ++ (streamLoop handle atEnd items s).1) := by
  induction items generalizing sent s with
  | nil => exact hend sent s h
  | cons item rest ih =>
      cases item with
      | error e =>
          rw [streamLoop, List.append_nil]
          exact hfail sent s h
      | ok a =>
          rw [streamLoop]
          split
          · next events result ha => exact hleave sent s a events result h ha
          · next events s' ha =>
              rw [← List.append_assoc]
              exact ih (hnext sent s a events s' h ha)

end

/-! ## Chat completions -/

/-- The ids of a chunk's calls are too long to be kept, and one of them cannot
be cut where it would be. -/
def ChatDialect.breaks (d : ChatDialect) (chunk : Json) : Bool :=
  ((chunk.at "choices").asArray.getD []).any fun choice =>
    ((((choice.at "delta").at "tool_calls").asArray).getD []).any fun tc =>
      (tc.at "id").asStr.any fun id => (d.truncateId id).isNone

namespace ChatState

variable {d : ChatDialect} {serde : Serde}

theorem text_breaks (s : ChatState) (delta : Json) : (s.text delta).Breaks false := by
  rw [text]
  split
  · exact ⟨quiet_nil, rfl⟩
  · exact ⟨(quiet_ite quiet_nil (quiet_single rfl)).append (quiet_single rfl), rfl⟩

theorem toolCall_breaks (s : ChatState) (tc : Json) :
    (s.toolCall d tc).Breaks ((tc.at "id").asStr.any fun id => (d.truncateId id).isNone) := by
  unfold toolCall
  simp only []
  cases (tc.at "id").asStr with
  | none =>
      simp only [Option.any_none]
      split
      · exact ⟨quiet_nil, rfl⟩
      · exact ⟨quiet_single rfl, rfl⟩
  | some id =>
      simp only [Option.any_some]
      cases d.truncateId id with
      | none => exact ⟨quiet_nil, rfl⟩
      | some id' =>
          simp only []
          split
          · exact ⟨quiet_nil, rfl⟩
          · exact ⟨quiet_single rfl, rfl⟩

theorem reasoning_breaks (s : ChatState) (delta : Json) : (s.reasoning d delta).Breaks false := by
  rw [reasoning]
  split
  · exact ⟨quiet_nil, rfl⟩
  · exact ⟨quiet_single rfl, rfl⟩

theorem choice_breaks (s : ChatState) (c : Json) :
    (s.choice d c).Breaks (((((c.at "delta").at "tool_calls").asArray).getD []).any fun tc =>
      (tc.at "id").asStr.any fun id => (d.truncateId id).isNone) := by
  have hcalls := fun s : ChatState => sendAll_breaks (toolCall_breaks (d := d))
    ((((c.at "delta").at "tool_calls").asArray).getD []) s
  have hlast : ∀ s : ChatState, Sends.Breaks ([], some (s.finishReason d c)) false :=
    fun _ => ⟨quiet_nil, rfl⟩
  have h := (text_breaks s (c.at "delta")).andThen fun s =>
    (hcalls s).andThen fun s => (reasoning_breaks (d := d) s (c.at "delta")).andThen hlast
  simpa only [choice, Bool.false_or, Bool.or_false] using h

theorem chunk_breaks (s : ChatState) (value : Json) :
    (s.chunk d value).Breaks (d.breaks value) := by
  rw [chunk, ChatDialect.breaks]
  cases (value.at "choices").asArray with
  | none => exact ⟨quiet_nil, rfl⟩
  | some choices => exact sendAll_breaks choice_breaks choices _

theorem toolCallEnd_quiet (entry : Nat × ToolCallAccum) : Quiet (toolCallEnd serde entry) := by
  rw [toolCallEnd]
  split
  · exact quiet_nil
  · exact quiet_single rfl

/-- What closes the texts and the calls, before `Done`. -/
theorem done_quiet (s : ChatState) :
    Quiet ((if s.textAccum.isEmpty then [] else [.textEnd 0 s.textAccum]) ++
      s.toolCallAccum.flatMap (toolCallEnd serde)) := by
  refine (quiet_ite quiet_nil (quiet_single rfl)).append fun e he => ?_
  obtain ⟨entry, -, he⟩ := List.mem_flatMap.mp he
  exact toolCallEnd_quiet entry e he

theorem done_leaves (s : ChatState) : Leaves (s.done serde) .finished :=
  .finished _ _ (done_quiet s)

/-- What an event makes the loop do. -/
def stops (d : ChatDialect) (serde : Serde) (e : SseEvent) : Option TaskEnd :=
  if e.isDoneMarker then some .finished
  else match e.json serde with
    | none => some .panicked
    | some (.error err) => some (.failed err)
    | some (.ok value) => if d.breaks value then some .panicked else none

theorem handle_handles (s : ChatState) (e : SseEvent) :
    Handles (stops d serde e) (s.handle d serde e) := by
  rw [handle, stops]
  split
  · exact .leave (done_leaves s) rfl
  · cases e.json serde with
    | none => exact .leave (.panicked quiet_nil) rfl
    | some result =>
        cases result with
        | error err => exact .leave (.failed err quiet_nil) rfl
        | ok value => exact (chunk_breaks s value).handled

end ChatState

/-! ## Gemini -/

namespace GoogleState

variable {serde : Serde}

theorem closeText_quiet (s : GoogleState) : Quiet s.closeText :=
  quiet_ite (quiet_single rfl) quiet_nil

theorem part_breaks (s : GoogleState) (p : Json) : (s.part p).Breaks false := by
  have htext : (s.text p).Breaks false := by
    rw [text]
    split
    · exact ⟨quiet_nil, rfl⟩
    · split
      · exact ⟨quiet_single rfl, rfl⟩
      · exact ⟨(quiet_ite quiet_nil (quiet_single rfl)).append (quiet_single rfl), rfl⟩
  refine htext.andThen fun s => ?_
  rw [functionCall]
  split
  · exact ⟨quiet_nil, rfl⟩
  · exact ⟨(closeText_quiet s).append (quiet_single rfl), rfl⟩

theorem candidate_breaks (s : GoogleState) (c : Json) : (s.candidate c).Breaks false := by
  have hparts := sendAll_quiet part_breaks ((((c.at "content").at "parts").asArray).getD []) s
  have hfinish : ∀ s : GoogleState, (s.finishReason c).Breaks false := by
    intro s
    rw [finishReason]
    split
    · exact ⟨quiet_nil, rfl⟩
    · exact ⟨closeText_quiet s, rfl⟩
  exact hparts.andThen hfinish

theorem chunk_breaks (s : GoogleState) (response : Json) : (s.chunk response).Breaks false :=
  sendAll_quiet candidate_breaks ((response.at "candidates").asArray.getD []) s

/-- What an event makes the loop do. -/
def stops (serde : Serde) (e : SseEvent) : Option TaskEnd :=
  match e.json serde with
  | none => some .panicked
  | some (.error err) => some (.failed err)
  | some (.ok _) => none

theorem handle_handles (s : GoogleState) (e : SseEvent) :
    Handles (stops serde e) (s.handle serde e) := by
  rw [handle, stops]
  cases e.json serde with
  | none => exact .leave (.panicked quiet_nil) rfl
  | some result =>
      cases result with
      | error err => exact .leave (.failed err quiet_nil) rfl
      | ok value => exact (chunk_breaks s value).handled

end GoogleState

/-! ## Anthropic and Bedrock -/

namespace StreamParser

variable {serde : Serde}

/-- Usage without the one field that is read of it. -/
def usageBreaks (event : Json) : Bool :=
  match event.at "usage" with
  | .obj fields => ((Json.obj fields).get "output_tokens").isNone
  | _ => false

/-- What an event of the parser makes a loop do. -/
def eventStops (event : Json) : Option TaskEnd :=
  let type := (event.at "type").asStr.getD ""
  if type = "message_delta" then
    if usageBreaks event then some .panicked else none
  else if type = "message_stop" then some .finished
  else none

theorem blockStart_breaks (p : StreamParser) (event : Json) :
    (p.blockStart event).Breaks false := by
  rw [blockStart]
  simp only []
  split
  · exact ⟨quiet_single rfl, rfl⟩
  · split
    · exact ⟨quiet_single rfl, rfl⟩
    · split
      · exact ⟨quiet_single rfl, rfl⟩
      · split
        · exact ⟨quiet_single rfl, rfl⟩
        · exact ⟨quiet_nil, rfl⟩

theorem blockDelta_breaks (p : StreamParser) (event : Json) :
    (p.blockDelta event).Breaks false := by
  rw [blockDelta]
  simp only []
  split
  · exact ⟨quiet_single rfl, rfl⟩
  · split
    · exact ⟨quiet_single rfl, rfl⟩
    · split
      · exact ⟨quiet_single rfl, rfl⟩
      · split
        · split
          · exact ⟨quiet_nil, rfl⟩
          · exact ⟨quiet_nil, rfl⟩
        · exact ⟨quiet_nil, rfl⟩

theorem closeBlock_quiet (p : StreamParser) : Quiet (p.closeBlock serde).1 := by
  rw [closeBlock]
  simp only []
  split
  · exact quiet_single rfl
  · split
    · exact quiet_nil
    · exact quiet_single rfl
  · exact quiet_single rfl
  · exact quiet_single rfl
  · exact quiet_nil

theorem takeUsage_breaks (p : StreamParser) (event : Json) :
    (p.takeUsage event).Breaks (usageBreaks event) := by
  rw [takeUsage, usageBreaks]
  cases event.at "usage" with
  | obj fields =>
      simp only []
      cases (Json.obj fields).get "output_tokens" with
      | none => exact ⟨quiet_nil, rfl⟩
      | some tokens => exact ⟨quiet_nil, rfl⟩
  | null | bool | num | str | arr => exact ⟨quiet_nil, rfl⟩

theorem processEvent_handles (p : StreamParser) (event : Json) :
    Handles (eventStops event) (p.processEvent serde event) := by
  rw [processEvent, eventStops]
  generalize (event.at "type").asStr.getD "" = type
  by_cases hs : type = "message_start"
  · subst hs
    exact .next quiet_nil rfl
  by_cases hb : type = "content_block_start"
  · subst hb
    exact (blockStart_breaks p event).handled
  by_cases hd : type = "content_block_delta"
  · subst hd
    exact (blockDelta_breaks p event).handled
  by_cases hstop : type = "content_block_stop"
  · subst hstop
    have h : (p.blockStop serde).Breaks false := ⟨closeBlock_quiet p, rfl⟩
    exact h.handled
  rw [if_neg hs, if_neg hb, if_neg hd, if_neg hstop]
  split
  · exact (takeUsage_breaks _ event).handled
  · split
    · exact .leave (@Leaves.finished [] _ _ quiet_nil) rfl
    · exact .next quiet_nil rfl

/-- What an event of `AnthropicProvider` makes its loop do. -/
def stops (serde : Serde) (e : SseEvent) : Option TaskEnd :=
  if (trim e.data.toList).isEmpty then none
  else match e.json serde with
    | none => some .panicked
    | some (.error err) => some (.failed err)
    | some (.ok value) => eventStops value

theorem handle_handles (p : StreamParser) (e : SseEvent) :
    Handles (stops serde e) (p.handle serde e) := by
  rw [handle, stops]
  split
  · exact .next quiet_nil rfl
  · cases e.json serde with
    | none => exact .leave (.panicked quiet_nil) rfl
    | some result =>
        cases result with
        | error err => exact .leave (.failed err quiet_nil) rfl
        | ok value => exact processEvent_handles p value

/-- What a chunk makes the loop of `AwsBedrockProvider` do. -/
def chunkStops (serde : Serde) : Option (List UInt8) → Option TaskEnd
  | none => none
  | some bytes =>
      match serde.fromSlice bytes with
      | .error e => some (.failed (.streamError .parse ("JSON parse error: " ++ e)))
      | .ok value => eventStops value

theorem handleChunk_handles (p : StreamParser) (chunk : Option (List UInt8)) :
    Handles (chunkStops serde chunk) (p.handleChunk serde chunk) := by
  cases chunk with
  | none => exact .next quiet_nil rfl
  | some bytes =>
      rw [handleChunk, chunkStops]
      cases serde.fromSlice bytes with
      | error e => exact .leave (.failed _ quiet_nil) rfl
      | ok value => exact processEvent_handles p value

end StreamParser

/-! ## Providers -/

/-- A stream is quiet up to a terminal event at its end, or altogether. -/
inductive Closes : Bool → List AssistantMessageEvent → Prop where
  | closed {events : List AssistantMessageEvent} {last : AssistantMessageEvent}
      (h : Quiet events) (hl : last.isTerminal = true) : Closes true (events ++ [last])
  | cut {events : List AssistantMessageEvent} (h : Quiet events) : Closes false events

theorem Quiet.countP_eq_zero {events : List AssistantMessageEvent} (h : Quiet events) :
    events.countP AssistantMessageEvent.isTerminal = 0 :=
  List.countP_eq_zero.mpr fun e he => by simp [h e he]

theorem Closes.countP_eq_one_iff {b : Bool} {events : List AssistantMessageEvent}
    (h : Closes b events) : events.countP AssistantMessageEvent.isTerminal = 1 ↔ b = true := by
  cases h with
  | closed h hl => simp [List.countP_append, h.countP_eq_zero, hl]
  | cut h => simp [h.countP_eq_zero]

/-- A task that ends its loop so ends its stream, when it sends `Done` at the
end of the items or not. -/
def closesStream (closesAtEnd : Bool) : Option TaskEnd → Bool
  | some .panicked => false
  | some .finished | some (.failed _) => true
  | none => closesAtEnd

theorem Ends.closes {σ : Type} {ending : Option TaskEnd} {closesAtEnd : Bool}
    {result : List AssistantMessageEvent × TaskEnd} {atEnd : σ → List AssistantMessageEvent}
    (hend : ∀ s, Closes closesAtEnd (atEnd s)) (h : Ends atEnd ending result)
    (provider model : String) (now : SystemTime) :
    Closes (closesStream closesAtEnd ending)
      (taskEvents provider model now (.start :: result.1, result.2)) := by
  have hstart : Quiet [.start] := quiet_single rfl
  cases h with
  | left h =>
      cases h with
      | finished reason m h => exact .closed (hstart.append h) rfl
      | failed e h => exact .closed (hstart.append h) rfl
      | panicked h => exact .cut (hstart.append h)
  | @ranOut events s h =>
      have hs := hend s
      show Closes closesAtEnd ([.start] ++ (events ++ atEnd s))
      rw [← List.append_assoc]
      generalize atEnd s = sent at hs ⊢
      cases hs with
      | closed hq hl =>
          rw [← List.append_assoc]
          exact .closed ((hstart.append h).append hq) hl
      | cut hq => exact .cut ((hstart.append h).append hq)

namespace ProviderRun

/-- Where the task of a provider leaves its loop, if the response does not run
out before. -/
def ending (env : ProviderEnv) : ProviderRun → Option TaskEnd
  | .refused _ e => some (.failed e)
  | .openAiCompatible _ network =>
      Ai.ending (ChatState.stops openAiDialect env.serde) (SseDecoder.items env.cancel network)
  | .mistral network =>
      Ai.ending (ChatState.stops mistralDialect env.serde) (SseDecoder.items env.cancel network)
  | .google network =>
      Ai.ending (GoogleState.stops env.serde) (SseDecoder.items env.cancel network)
  | .anthropic network =>
      Ai.ending (StreamParser.stops env.serde) (SseDecoder.items env.cancel network)
  | .bedrock chunks =>
      Ai.ending (StreamParser.chunkStops env.serde) (bedrockItems env.cancel 0 chunks)

/-- Whether `Done` is sent when the response runs out. -/
def closesAtEnd : ProviderRun → Bool
  | .google _ => true
  | _ => false

/-- The response makes the task close its stream: an item of it leaves the loop
and is no panic, or the provider takes running out for the end. -/
def closesAfter (env : ProviderEnv) (r : ProviderRun) : Bool :=
  closesStream r.closesAtEnd (r.ending env)

theorem events_closes (env : ProviderEnv) (r : ProviderRun) :
    Closes (r.closesAfter env) (r.events env) := by
  cases r with
  | refused provider e => exact @Closes.closed [] _ quiet_nil rfl
  | openAiCompatible provider network =>
      exact (streamLoop_ends ChatState.handle_handles _ _).closes (fun _ => .cut quiet_nil) _ _ _
  | mistral network =>
      exact (streamLoop_ends ChatState.handle_handles _ _).closes (fun _ => .cut quiet_nil) _ _ _
  | google network =>
      exact (streamLoop_ends GoogleState.handle_handles _ _).closes
        (fun _ => @Closes.closed [] _ quiet_nil rfl) _ _ _
  | anthropic network =>
      exact (streamLoop_ends StreamParser.handle_handles _ _).closes (fun _ => .cut quiet_nil) _ _ _
  | bedrock chunks =>
      exact (streamLoop_ends StreamParser.handleChunk_handles _ _).closes
        (fun _ => .cut quiet_nil) _ _ _

end ProviderRun

/-! ## Responses on fixed inputs -/

/-- A parser on the texts of one response, which it is given as values. -/
def Serde.knowing (values : List Json) : Serde :=
  let fromSlice (bytes : List UInt8) : Except String Json :=
    match values.find? fun v => v.render.flatMap String.utf8EncodeChar = bytes with
    | some v => .ok v
    | none => .error "expected value at line 1 column 1"
  { fromStr := fun s => fromSlice s.toUTF8.data.toList
    fromSlice := fromSlice }

/-- A provider that reads those texts, and is not cancelled. -/
def ProviderEnv.knowing (values : List Json) : ProviderEnv :=
  { serde := .knowing values, model := "model", now := 0, cancel := fun _ => false }

/-- The bytes of an event with this data. -/
def sseData (data : List Char) : NetworkPoll :=
  .ready (("data: ".toList ++ data ++ ['\n', '\n']).flatMap String.utf8EncodeChar)

/-- A response with an event for each of these values. -/
def sending (values : List Json) : List NetworkPoll := values.map fun v => sseData v.render

/-- And the same as chunks of the AWS client. -/
def chunksOf (values : List Json) : List (Except String (Option (List UInt8))) :=
  values.map fun v => .ok (some (v.render.flatMap String.utf8EncodeChar))

end Pandaria.Ai
