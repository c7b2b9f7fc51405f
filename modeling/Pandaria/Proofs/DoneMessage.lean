import Pandaria.Proofs.ProviderStreams

/-!
# What the message of `Done` holds

A provider closes its stream with the message it has kept while it read the
response. What has been put into it differs: the two that read Anthropic
messages add a block for every call and every piece of thinking, with the event
that ends it, and the others leave it empty. In each case a loop keeps this of
its state, item by item, and `streamLoop_sent` turns it into a fact about every
`Done` of the stream.
-/

namespace Pandaria.Ai

/-! ## Blocks -/

inductive Block where
  | text (text : String)
  | toolCall (tc : ToolCall)
deriving DecidableEq

def block : Content → Option Block
  | .text text _ => some (.text text)
  | .toolCall tc => some (.toolCall tc)
  | _ => none

/-- The texts and the calls of a message, in order. -/
def blocks (content : List Content) : List Block := content.filterMap block

theorem blocks_append (xs ys : List Content) : blocks (xs ++ ys) = blocks xs ++ blocks ys :=
  List.filterMap_append

/-! ## The `Done` events of a stream -/

/-- Every `Done` of a stream satisfies `P`. -/
def DoneWith (P : StopReason → AssistantMessage → Prop) (events : List AssistantMessageEvent) :
    Prop :=
  ∀ reason m, .done reason m ∈ events → P reason m

section

variable {P Q : StopReason → AssistantMessage → Prop} {xs ys events : List AssistantMessageEvent}

theorem doneWith_quiet (h : Quiet events) : DoneWith P events := by
  intro reason m hm
  have hq := h _ hm
  cases hq

theorem DoneWith.append (hx : DoneWith P xs) (hy : DoneWith P ys) : DoneWith P (xs ++ ys) :=
  fun reason m hm => (List.mem_append.mp hm).elim (hx reason m) (hy reason m)

theorem DoneWith.mono (hle : ∀ reason m, P reason m → Q reason m) (h : DoneWith P events) :
    DoneWith Q events :=
  fun reason m hm => hle reason m (h reason m hm)

theorem doneWith_single {reason : StopReason} {m : AssistantMessage} (h : P reason m) :
    DoneWith P [.done reason m] := by
  intro reason' m' hm
  obtain h' := List.mem_singleton.mp hm
  injection h' with hr hm
  rw [hr, hm]
  exact h

theorem doneWith_error (m : AssistantMessage) : DoneWith P [.error m] := by
  intro reason m' hm
  have hne := List.mem_singleton.mp hm
  cases hne

theorem doneWith_taskEvents {result : List AssistantMessageEvent × TaskEnd}
    (h : DoneWith P result.1) (provider model : String) (now : SystemTime) :
    DoneWith P (taskEvents provider model now result) := by
  obtain ⟨events, end_⟩ := result
  cases end_ with
  | finished | panicked => exact h
  | failed e => exact h.append (doneWith_error _)

end

/-! ## A message that stays as it is -/

section

variable {σ α : Type} {P : σ → Prop} {Q : StopReason → AssistantMessage → Prop}

/-- What is sent leaves a state that satisfies `P` again. -/
def Sends.Keeps (P : σ → Prop) (s : σ) (r : Sends σ) : Prop := P s → ∀ s' ∈ r.2, P s'

theorem Sends.Keeps.andThen {s : σ} {r : Sends σ} {f : σ → Sends σ} (hr : r.Keeps P s)
    (hf : ∀ s, (f s).Keeps P s) : (r.andThen f).Keeps P s := by
  intro hs
  obtain ⟨events, s₁⟩ := r
  cases s₁ with
  | none => exact fun s' h => by cases h
  | some s₁ => exact hf s₁ (hr hs s₁ rfl)

theorem sendAll_keeps {f : σ → α → Sends σ} (hf : ∀ s a, (f s a).Keeps P s) (as : List α) (s : σ) :
    (sendAll f as s).Keeps P s := by
  induction as generalizing s with
  | nil => exact fun hs s' h => by cases h; exact hs
  | cons a as ih => exact (hf s a).andThen ih

/-- What is sent is quiet, and a state that satisfies `P` is left as one. -/
inductive Preserves (P : σ → Prop) (Q : StopReason → AssistantMessage → Prop) (s : σ) :
    Handled σ → Prop where
  | next {events : List AssistantMessageEvent} {s' : σ} (hq : Quiet events) (hs : P s → P s') :
      Preserves P Q s (.next events s')
  | leave {events : List AssistantMessageEvent} {result : TaskEnd}
      (h : P s → DoneWith Q events) : Preserves P Q s (.leave events result)

theorem Sends.Keeps.handled {s : σ} {r : Sends σ} {b : Bool} (hr : r.Keeps P s)
    (hq : r.Breaks b) : Preserves P Q s r.handled := by
  obtain ⟨events, s'⟩ := r
  cases s' with
  | none => exact .leave fun _ => doneWith_quiet hq.1
  | some s' => exact .next hq.1 fun hs => hr hs s' rfl

theorem streamLoop_doneWith {handle : σ → α → Handled σ} {atEnd : σ → List AssistantMessageEvent}
    (hb : ∀ s a, Preserves P Q s (handle s a)) (hend : ∀ s, P s → DoneWith Q (atEnd s))
    (items : List (Except LlmError α)) {s : σ} (hs : P s) :
    DoneWith Q (.start :: (streamLoop handle atEnd items s).1) := by
  have hinit : Quiet [.start] ∧ P s := ⟨quiet_single rfl, hs⟩
  refine streamLoop_sent (fun sent s => Quiet sent ∧ P s) (DoneWith Q) ?_ ?_ ?_ ?_ items hinit
  · intro sent s a events s' ⟨hq, hs⟩ ha
    have hp := hb s a
    rw [ha] at hp
    cases hp with
    | next hevents hs' => exact ⟨hq.append hevents, hs' hs⟩
  · intro sent s a events result ⟨hq, hs⟩ ha
    have hp := hb s a
    rw [ha] at hp
    cases hp with
    | leave h => exact (doneWith_quiet hq).append (h hs)
  · intro sent s ⟨hq, hs⟩
    exact (doneWith_quiet hq).append (hend s hs)
  · intro sent s ⟨hq, _⟩
    exact doneWith_quiet hq

end

namespace ChatState

variable {d : ChatDialect} {serde : Serde}

/-- Nothing is added to the message. -/
def Empty (s : ChatState) : Prop := s.message.content = []

theorem text_keeps (s : ChatState) (delta : Json) : (s.text delta).Keeps Empty s := by
  intro hs s' h
  rw [text] at h
  split at h
  · cases h
    exact hs
  · cases h
    exact hs

theorem toolCall_keeps (s : ChatState) (tc : Json) : (s.toolCall d tc).Keeps Empty s := by
  intro hs s' h
  unfold toolCall at h
  simp only [] at h
  split at h
  · split at h
    · cases h
      exact hs
    · cases h
      exact hs
  · split at h
    · cases h
    · split at h
      · cases h
        exact hs
      · cases h
        exact hs

theorem reasoning_keeps (s : ChatState) (delta : Json) :
    (s.reasoning d delta).Keeps Empty s := by
  intro hs s' h
  rw [reasoning] at h
  split at h
  · cases h
    exact hs
  · cases h
    exact hs

theorem finishReason_keeps (s : ChatState) (c : Json) :
    Sends.Keeps Empty s ([], some (s.finishReason d c)) := by
  intro hs s' h
  cases h
  rw [finishReason]
  split
  · exact hs
  · exact hs

theorem choice_keeps (s : ChatState) (c : Json) : (s.choice d c).Keeps Empty s :=
  (text_keeps s _).andThen fun s => (sendAll_keeps toolCall_keeps _ s).andThen fun s =>
    (reasoning_keeps s _).andThen fun s => finishReason_keeps s c

theorem chunk_keeps (s : ChatState) (value : Json) : (s.chunk d value).Keeps Empty s := by
  rw [chunk]
  split
  · exact fun hs s' h => by cases h; exact hs
  · next choices _ => exact fun hs => sendAll_keeps choice_keeps choices _ hs

theorem handle_preserves (s : ChatState) (e : SseEvent) :
    Preserves Empty (fun _ m => m.content = []) s (s.handle d serde e) := by
  rw [handle]
  split
  · exact .leave fun hs => (doneWith_quiet (done_quiet s)).append (doneWith_single hs)
  · cases e.json serde with
    | none => exact .leave fun _ => doneWith_quiet quiet_nil
    | some result =>
        cases result with
        | error err => exact .leave fun _ => doneWith_quiet quiet_nil
        | ok value => exact (chunk_keeps s value).handled (chunk_breaks s value)

end ChatState

namespace GoogleState

variable {serde : Serde}

/-- Nothing is added to the message, and no finish reason is a call for tools. -/
def Empty (s : GoogleState) : Prop :=
  s.message.content = [] ∧ s.message.stopReason ≠ .toolUse

theorem googleStopReason_ne (reason : String) : googleStopReason reason ≠ .toolUse := by
  rw [googleStopReason]
  split
  · exact nofun
  · split
    · exact nofun
    · exact nofun

theorem part_keeps (s : GoogleState) (p : Json) : (s.part p).Keeps Empty s := by
  have htext : (s.text p).Keeps Empty s := by
    intro hs s' h
    rw [text] at h
    split at h
    · cases h
      exact hs
    · split at h
      · cases h
        exact hs
      · cases h
        exact hs
  refine htext.andThen fun s hs s' h => ?_
  rw [functionCall] at h
  split at h
  · cases h
    exact hs
  · cases h
    exact hs

theorem candidate_keeps (s : GoogleState) (c : Json) : (s.candidate c).Keeps Empty s := by
  refine (sendAll_keeps part_keeps _ s).andThen fun s hs s' h => ?_
  rw [finishReason] at h
  split at h
  · cases h
    exact hs
  · cases h
    exact ⟨hs.1, googleStopReason_ne _⟩

theorem handle_preserves (s : GoogleState) (e : SseEvent) :
    Preserves Empty (fun reason m => m.content = [] ∧ reason ≠ .toolUse) s (s.handle serde e) := by
  rw [handle]
  cases e.json serde with
  | none => exact .leave fun _ => doneWith_quiet quiet_nil
  | some result =>
      cases result with
      | error err => exact .leave fun _ => doneWith_quiet quiet_nil
      | ok value => exact (sendAll_keeps candidate_keeps _ s).handled (chunk_breaks s value)

/-- A response of Gemini is not closed as one that calls for tools. -/
theorem stream_doneWith (model : String) (now : SystemTime) (items : List SseDecoder.Item) :
    DoneWith (fun reason m => m.content = [] ∧ reason ≠ .toolUse)
      (googleStream serde model now items).1 := by
  have hinit : Empty (.start model now) := ⟨rfl, nofun⟩
  exact streamLoop_doneWith handle_preserves (fun _ hs => doneWith_single hs) items hinit

end GoogleState

/-! ## A message that is filled -/

/-- The calls a stream has delivered. -/
def delivered (events : List AssistantMessageEvent) : List Block :=
  events.filterMap fun
    | .toolCallEnd _ tc => some (.toolCall tc)
    | _ => none

/-- The events with which a block goes into the message, where a provider puts
any into it. -/
def fills : AssistantMessageEvent → Bool
  | .toolCallEnd .. | .thinkingEnd .. => true
  | _ => false

/-- A message filled by the calls and the thinking of a stream. -/
structure FilledBy (events : List AssistantMessageEvent) (content : List Content) : Prop where
  blocks_eq : blocks content = delivered events
  eq_nil : content = [] ↔ ∀ e ∈ events, fills e = false

theorem filledBy_nil : FilledBy [.start] [] :=
  ⟨rfl, fun _ => by decide, fun _ => rfl⟩

theorem FilledBy.append {xs ys : List AssistantMessageEvent} {content added : List Content}
    (hx : FilledBy xs content) (hy : FilledBy ys added) :
    FilledBy (xs ++ ys) (content ++ added) where
  blocks_eq := by
    rw [blocks_append, hx.blocks_eq, hy.blocks_eq]
    exact List.filterMap_append.symm
  eq_nil := by
    rw [List.append_eq_nil_iff, hx.eq_nil, hy.eq_nil]
    simp only [List.mem_append, or_imp, forall_and]

/-- Events that fill nothing leave the message as it is. -/
theorem filledBy_unfilled {events : List AssistantMessageEvent}
    (h : ∀ e ∈ events, fills e = false) : FilledBy events [] where
  blocks_eq := by
    refine (List.filterMap_eq_nil_iff.mpr fun e he => ?_).symm
    have hf := h e he
    cases e with
    | toolCallEnd => cases hf
    | _ => rfl
  eq_nil := iff_of_true rfl h

/-- The parser of Anthropic messages: going on, it adds to its message what it
has sent, and leaving, it sends its message. -/
inductive Fills (p : StreamParser) : Handled StreamParser → Prop where
  | next {events : List AssistantMessageEvent} {p' : StreamParser} {added : List Content}
      (hc : p'.message.content = p.message.content ++ added) (h : FilledBy events added) :
      Fills p (.next events p')
  | done (reason : StopReason) : Fills p (.leave [.done reason p.message] .finished)
  | leave {events : List AssistantMessageEvent} {result : TaskEnd} (h : Quiet events) :
      Fills p (.leave events result)

theorem fills_next {p p' : StreamParser} {events : List AssistantMessageEvent}
    (hc : p'.message.content = p.message.content) (h : ∀ e ∈ events, fills e = false) :
    Fills p (.next events p') :=
  .next (hc.trans (List.append_nil _).symm) (filledBy_unfilled h)

/-- A handler that sends one event, and no block with it. -/
theorem fills_single {p p' : StreamParser} {e : AssistantMessageEvent}
    (hc : p'.message.content = p.message.content) (he : fills e = false) :
    Fills p (.next [e] p') :=
  fills_next hc (List.forall_mem_singleton.mpr he)

theorem fills_nothing {p p' : StreamParser} (hc : p'.message.content = p.message.content) :
    Fills p (.next [] p') :=
  fills_next hc (List.forall_mem_nil _)

namespace StreamParser

variable {serde : Serde}

theorem fills_blockStart (p : StreamParser) (event : Json) :
    Fills p (p.blockStart event).handled := by
  rw [blockStart]
  simp only []
  split
  · exact fills_single rfl rfl
  · split
    · exact fills_single rfl rfl
    · split
      · exact fills_single rfl rfl
      · split
        · exact fills_single rfl rfl
        · exact fills_nothing rfl

theorem fills_blockDelta (p : StreamParser) (event : Json) :
    Fills p (p.blockDelta event).handled := by
  rw [blockDelta]
  simp only []
  split
  · exact fills_single rfl rfl
  · split
    · exact fills_single rfl rfl
    · split
      · exact fills_single rfl rfl
      · split
        · split
          · exact fills_nothing rfl
          · exact fills_nothing rfl
        · exact fills_nothing rfl

/-- The one event with which the message grows. -/
theorem fills_grown {p p' : StreamParser} {e : AssistantMessageEvent} {c : Content}
    (hc : p'.message.content = p.message.content ++ [c]) (hb : blocks [c] = delivered [e])
    (he : fills e = true) : Fills p (.next [e] p') :=
  .next hc ⟨hb, iff_of_false (List.cons_ne_nil _ _) fun h => by
    have hf := h e List.mem_cons_self
    rw [he] at hf
    cases hf⟩

theorem fills_blockStop (p : StreamParser) : Fills p (p.blockStop serde).handled := by
  rw [blockStop, closeBlock]
  cases p.currentBlock with
  | none => exact fills_nothing rfl
  | some type =>
      cases type with
      | text => exact fills_single rfl rfl
      | toolUse id name =>
          simp only []
          cases serde.fromStr p.toolAccum with
          | error e => exact fills_nothing rfl
          | ok args => exact fills_grown rfl rfl rfl
      | thinking => exact fills_grown rfl rfl rfl
      | redactedThinking => exact fills_grown rfl rfl rfl

theorem content_takeStopReason (p : StreamParser) (event : Json) :
    (p.takeStopReason event).message.content = p.message.content := by
  rw [takeStopReason]
  split <;> rfl

theorem fills_messageDelta (p : StreamParser) (event : Json) :
    Fills p (p.messageDelta event).handled := by
  rw [messageDelta, takeUsage]
  cases event.at "usage" with
  | obj fields =>
      simp only []
      cases (Json.obj fields).get "output_tokens" with
      | none => exact .leave quiet_nil
      | some tokens => exact fills_nothing (content_takeStopReason p event)
  | null | bool | num | str | arr => exact fills_nothing (content_takeStopReason p event)

theorem content_messageStart (p : StreamParser) (event : Json) :
    (p.messageStart event).message.content = p.message.content := by
  rw [messageStart]
  simp only []
  split <;> rfl

theorem fills_processEvent (p : StreamParser) (event : Json) :
    Fills p (p.processEvent serde event) := by
  rw [processEvent]
  split
  · exact fills_nothing (content_messageStart p event)
  · split
    · exact fills_blockStart p event
    · split
      · exact fills_blockDelta p event
      · split
        · exact fills_blockStop p
        · split
          · exact fills_messageDelta p event
          · split
            · exact .done _
            · exact fills_nothing rfl

theorem fills_handle (p : StreamParser) (e : SseEvent) : Fills p (p.handle serde e) := by
  rw [handle]
  split
  · exact fills_nothing rfl
  · split
    · exact .leave quiet_nil
    · exact .leave quiet_nil
    · exact fills_processEvent p _

theorem fills_handleChunk (p : StreamParser) (chunk : Option (List UInt8)) :
    Fills p (p.handleChunk serde chunk) := by
  rw [handleChunk.eq_def]
  split
  · exact fills_nothing rfl
  · split
    · exact .leave quiet_nil
    · exact fills_processEvent p _

end StreamParser

theorem filledBy_terminal {events : List AssistantMessageEvent} {e : AssistantMessageEvent}
    (he : e.isTerminal = true) {content : List Content} (h : FilledBy events content) :
    FilledBy (events ++ [e]) content := by
  have hunfilled : fills e = false := by
    cases e with
    | done | error => rfl
    | _ => cases he
  have happend := h.append (filledBy_unfilled (List.forall_mem_singleton.mpr hunfilled))
  rwa [List.append_nil] at happend

/-- What holds of a loop over the parser before it is left: the message is
filled by what has been sent. -/
def Filling (sent : List AssistantMessageEvent) (p : StreamParser) : Prop :=
  Quiet sent ∧ FilledBy sent p.message.content

/-- A task over the parser sends its message as it has filled it. -/
theorem doneWith_filledBy {α : Type} {handle : StreamParser → α → Handled StreamParser}
    {stops : α → Option TaskEnd} (hh : ∀ p a, Handles (stops a) (handle p a))
    (hf : ∀ p a, Fills p (handle p a)) (items : List (Except LlmError α)) {p : StreamParser}
    (hp : p.message.content = []) :
    DoneWith (fun _ m => FilledBy (.start :: (streamLoop handle (fun _ => []) items p).1) m.content)
      (.start :: (streamLoop handle (fun _ => []) items p).1) := by
  have hinit : Filling [.start] p := by
    rw [Filling, hp]
    exact ⟨quiet_single rfl, filledBy_nil⟩
  refine streamLoop_sent Filling (fun sent => DoneWith (fun _ m => FilledBy sent m.content) sent) ?_ ?_ ?_ ?_ items hinit
  · intro sent p a events p' ⟨hq, hs⟩ ha
    have hquiet := hh p a
    have hfill := hf p a
    rw [ha] at hquiet hfill
    cases hquiet with
    | next hevents =>
        cases hfill with
        | next hc hadded =>
            refine ⟨hq.append hevents, ?_⟩
            rw [hc]
            exact hs.append hadded
  · intro sent p a events result ⟨hq, hs⟩ ha
    have hfill := hf p a
    rw [ha] at hfill
    cases hfill with
    | done reason => exact (doneWith_quiet hq).append (doneWith_single (filledBy_terminal rfl hs))
    | leave hevents => exact doneWith_quiet (hq.append hevents)
  · intro sent p ⟨hq, _⟩
    rw [List.append_nil]
    exact doneWith_quiet hq
  · intro sent p ⟨hq, _⟩
    exact doneWith_quiet hq

theorem doneWith_filledBy_task {result : List AssistantMessageEvent × TaskEnd}
    (h : DoneWith (fun _ m => FilledBy result.1 m.content) result.1) (provider model : String)
    (now : SystemTime) :
    DoneWith (fun _ m => FilledBy (taskEvents provider model now result) m.content)
      (taskEvents provider model now result) := by
  obtain ⟨events, end_⟩ := result
  cases end_ with
  | finished | panicked => exact h
  | failed e =>
      exact (h.mono fun _ _ hm => filledBy_terminal rfl hm).append (doneWith_error _)

/-! ## The providers -/

/-- The provider puts the calls and the thinking of a response into the message
of `Done`. -/
def fillsMessage : ProviderRun → Bool
  | .anthropic _ | .bedrock _ => true
  | _ => false

theorem doneWith_run_empty {penv : ProviderEnv} {run : ProviderRun}
    (h : fillsMessage run = false) : DoneWith (fun _ m => m.content = []) (run.events penv) := by
  cases run with
  | refused provider e => exact doneWith_error _
  | openAiCompatible provider network =>
      refine doneWith_taskEvents ?_ _ _ _
      exact streamLoop_doneWith ChatState.handle_preserves (fun _ _ => doneWith_quiet quiet_nil) _ rfl
  | mistral network =>
      refine doneWith_taskEvents ?_ _ _ _
      exact streamLoop_doneWith ChatState.handle_preserves (fun _ _ => doneWith_quiet quiet_nil) _ rfl
  | google network =>
      refine doneWith_taskEvents ?_ _ _ _
      exact (GoogleState.stream_doneWith _ _ _).mono fun _ _ hm => hm.1
  | anthropic network => cases h
  | bedrock chunks => cases h

theorem doneWith_run_filled {penv : ProviderEnv} {run : ProviderRun}
    (h : fillsMessage run = true) :
    DoneWith (fun _ m => FilledBy (run.events penv) m.content) (run.events penv) := by
  cases run with
  | anthropic network =>
      refine doneWith_filledBy_task ?_ _ _ _
      exact doneWith_filledBy StreamParser.handle_handles StreamParser.fills_handle _ rfl
  | bedrock chunks =>
      refine doneWith_filledBy_task ?_ _ _ _
      exact doneWith_filledBy StreamParser.handleChunk_handles StreamParser.fills_handleChunk _ rfl
  | _ => cases h

/-- Gemini never asks for tools by its stop reason. -/
theorem google_reason_ne_toolUse (penv : ProviderEnv) (network : List NetworkPoll) :
    DoneWith (fun reason _ => reason ≠ .toolUse) ((ProviderRun.google network).events penv) :=
  doneWith_taskEvents ((GoogleState.stream_doneWith _ _ _).mono fun _ _ hm => hm.2) _ _ _

end Pandaria.Ai
