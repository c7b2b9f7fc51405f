import Pandaria.Proofs.DoneMessage
import Pandaria.Proofs.StreamEnd
import Mathlib.Data.List.Dedup

/-!
# What of a stream is in the response

The agent loop puts a response together from two sources: the blocks it has
collected from the stream, and the message of `Done`, which replaces all of
them when it has any content. A text block is collected when its `TextEnd`
comes; one that never ends is not.

`streamed` is what a stream has said: the texts and the tool calls in the order
in which they are completed, then the texts left open. What is in the message
of `Done` depends on the provider. Four kinds of task leave it empty; the two
that read Anthropic messages put into it the calls and the thinking, and no
text.
-/

namespace Pandaria.Agent

open Pandaria.Ai

variable {cfg : AgentLoopConfig} {env : Env}

/-! ## What a stream says -/

/-- A text, unless it is empty. -/
def saidText (text : String) : List Block := if text.isEmpty then [] else [.text text]

/-- What the deltas of block `i` say since it was ended last. -/
def openText (i : Nat) (events : List AssistantMessageEvent) : Option String :=
  events.foldl (fun said e => match e with
    | .textDelta j delta => if j = i then some (said.getD "" ++ delta) else said
    | .textEnd j _ => if j = i then none else said
    | _ => said) none

/-- What an event completes after `before`. A text block without deltas says
what its `TextEnd` carries. -/
def completes (before : List AssistantMessageEvent) : AssistantMessageEvent → List Block
  | .textEnd i text => saidText ((openText i before).getD text)
  | .toolCallEnd _ tc => [.toolCall tc]
  | _ => []

def completedAfter (before : List AssistantMessageEvent) :
    List AssistantMessageEvent → List Block
  | [] => []
  | e :: rest => completes before e ++ completedAfter (before ++ [e]) rest

/-- The indices of the text blocks of a stream. -/
def textIndices (events : List AssistantMessageEvent) : List Nat :=
  (events.filterMap fun
    | .textDelta i _ => some i
    | _ => none).dedup

/-- What text blocks say that do not end. -/
def leftOpen (events : List AssistantMessageEvent) : List Block :=
  (textIndices events).flatMap fun i => saidText ((openText i events).getD "")

def streamed (events : List AssistantMessageEvent) : List Block :=
  completedAfter [] events ++ leftOpen events

/-- Everything a stream has said is in a message, in that order. -/
def Kept (events : List AssistantMessageEvent) (content : List Content) : Prop :=
  List.Sublist (streamed events) (blocks content)

/-- Nothing is said by an empty text. -/
def isSaid : Block → Bool
  | .text text => !text.isEmpty
  | .toolCall _ => true

theorem isSaid_saidText {text : String} {b : Block} (h : b ∈ saidText text) : isSaid b = true := by
  rw [saidText] at h
  split at h
  · cases h
  · next hne =>
      obtain rfl := List.mem_singleton.mp h
      simpa [isSaid] using hne

theorem filter_isSaid_text (text : String) : List.filter isSaid [.text text] = saidText text := by
  rw [saidText]
  split
  · next h => simp [isSaid, h]
  · next h => simp [isSaid, h]

theorem isSaid_completes {before : List AssistantMessageEvent} {e : AssistantMessageEvent} {b : Block}
    (h : b ∈ completes before e) : isSaid b = true := by
  unfold completes at h
  split at h
  · exact isSaid_saidText h
  · obtain rfl := List.mem_singleton.mp h
    rfl
  · cases h

theorem isSaid_completedAfter {before events : List AssistantMessageEvent} {b : Block}
    (h : b ∈ completedAfter before events) : isSaid b = true := by
  induction events generalizing before with
  | nil => cases h
  | cons e rest ih => exact (List.mem_append.mp h).elim isSaid_completes ih

theorem isSaid_streamed {events : List AssistantMessageEvent} {b : Block} (h : b ∈ streamed events) :
    isSaid b = true := by
  obtain h | h := List.mem_append.mp h
  · exact isSaid_completedAfter h
  · obtain ⟨i, -, h⟩ := List.mem_flatMap.mp h
    exact isSaid_saidText h

theorem openText_append (i : Nat) (before : List AssistantMessageEvent)
    (e : AssistantMessageEvent) :
    openText i (before ++ [e]) = match e with
      | .textDelta j delta =>
          if j = i then some ((openText i before).getD "" ++ delta) else openText i before
      | .textEnd j _ => if j = i then none else openText i before
      | _ => openText i before := by
  rw [openText, List.foldl_append]
  cases e <;> rfl

/-! ## What the agent loop collects -/

/-- One event, read by a loop that has collected the texts of what came before. -/
theorem take_collects {r : PartialReply} {before : List AssistantMessageEvent}
    {e : AssistantMessageEvent} (he : e.isTerminal = false)
    (hr : ∀ i, r.textAccum i = openText i before) :
    (∀ i, (r.take e).textAccum i = openText i (before ++ [e])) ∧
      (blocks (r.take e).content).filter isSaid =
        (blocks r.content).filter isSaid ++ completes before e := by
  cases e with
  | textDelta j delta =>
      refine ⟨fun i => ?_, (List.append_nil _).symm⟩
      rw [openText_append]
      simp only [PartialReply.take]
      by_cases hij : i = j
      · rw [if_pos hij, if_pos hij.symm, hr, hij]
      · rw [if_neg hij, if_neg (Ne.symm hij), hr]
  | textEnd j text =>
      constructor
      · intro i
        rw [openText_append]
        simp only [PartialReply.take]
        by_cases hij : i = j
        · rw [if_pos hij, if_pos hij.symm]
        · rw [if_neg hij, if_neg (Ne.symm hij), hr]
      · simp only [PartialReply.take, completes]
        rw [blocks_append, List.filter_append, hr]
        exact congrArg _ (filter_isSaid_text _)
  | toolCallEnd j tc =>
      constructor
      · intro i
        rw [openText_append]
        exact hr i
      · simp only [PartialReply.take, completes]
        rw [blocks_append, List.filter_append]
        rfl
  | done | error => cases he
  | _ =>
      refine ⟨fun i => ?_, (List.append_nil _).symm⟩
      rw [openText_append]
      exact hr i

theorem readAll_collects {r : PartialReply} {before events : List AssistantMessageEvent}
    (hq : Quiet events) (hr : ∀ i, r.textAccum i = openText i before) :
    (blocks (r.readAll events).content).filter isSaid =
      (blocks r.content).filter isSaid ++ completedAfter before events := by
  induction events generalizing r before with
  | nil => exact (List.append_nil _).symm
  | cons e rest ih =>
      have he := hq e List.mem_cons_self
      obtain ⟨haccum, hcontent⟩ := take_collects he hr
      have hne : ∀ m, e ≠ .error m := by
        intro m h
        rw [h] at he
        cases he
      rw [PartialReply.readAll_cons r hne,
        ih (fun e' h => hq e' (List.mem_cons_of_mem _ h)) haccum, hcontent, completedAfter,
        List.append_assoc]

/-- What is collected of a stream is what it has completed. -/
theorem collected {events : List AssistantMessageEvent} (hq : Quiet events) :
    (blocks ((PartialReply.start cfg).readAll events).content).filter isSaid =
      completedAfter [] events :=
  readAll_collects hq fun _ => rfl

/-! ## The terminal event -/

theorem completedAfter_append (before xs ys : List AssistantMessageEvent) :
    completedAfter before (xs ++ ys) =
      completedAfter before xs ++ completedAfter (before ++ xs) ys := by
  induction xs generalizing before with
  | nil => rw [List.nil_append, List.append_nil]; rfl
  | cons e xs ih =>
      rw [List.cons_append, completedAfter, completedAfter, ih, List.append_assoc,
        List.append_assoc]
      rfl

/-- A terminal event says nothing. -/
theorem leftOpen_terminal {e : AssistantMessageEvent} (he : e.isTerminal = true)
    (body : List AssistantMessageEvent) : leftOpen (body ++ [e]) = leftOpen body := by
  have hopen : ∀ i, openText i (body ++ [e]) = openText i body := by
    intro i
    rw [openText_append]
    cases e with
    | done | error => rfl
    | _ => cases he
  have hindices : textIndices (body ++ [e]) = textIndices body := by
    rw [textIndices, List.filterMap_append]
    cases e with
    | done | error => simp [textIndices]
    | _ => cases he
  rw [leftOpen, leftOpen, hindices]
  simp only [hopen]

theorem streamed_terminal {e : AssistantMessageEvent} (he : e.isTerminal = true)
    (body : List AssistantMessageEvent) : streamed (body ++ [e]) = streamed body := by
  have hlast : completedAfter ([] ++ body) [e] = [] := by
    cases e with
    | done | error => rfl
    | _ => cases he
  rw [streamed, leftOpen_terminal he, completedAfter_append, hlast, List.append_nil]
  rfl

theorem readAll_append {body : List AssistantMessageEvent} (hq : Quiet body) (r : PartialReply)
    (rest : List AssistantMessageEvent) :
    r.readAll (body ++ rest) = (r.readAll body).readAll rest := by
  induction body generalizing r with
  | nil => rfl
  | cons e body ih =>
      have he := hq e List.mem_cons_self
      have hne : ∀ m, e ≠ .error m := by
        intro m h
        rw [h] at he
        cases he
      rw [List.cons_append, PartialReply.readAll_cons r hne, PartialReply.readAll_cons r hne]
      exact ih (fun e' h => hq e' (List.mem_cons_of_mem _ h)) _

/-! ## When everything is kept -/

/-- The message of `Done`, where it has any content, holds what the stream has
said; otherwise every text block with a text in it has ended. -/
def Complete (events : List AssistantMessageEvent) : Prop :=
  match events.getLast? with
  | some (.done _ m) =>
      if m.content = [] then leftOpen events = [] else Kept events m.content
  | _ => leftOpen events = []

theorem kept_iff_sublist_filter (events : List AssistantMessageEvent) (content : List Content) :
    Kept events content ↔ List.Sublist (streamed events) ((blocks content).filter isSaid) := by
  constructor
  · intro h
    have hall : (streamed events).filter isSaid = streamed events :=
      List.filter_eq_self.mpr fun b hb => isSaid_streamed hb
    rw [← hall]
    exact h.filter isSaid
  · intro h
    exact h.trans List.filter_sublist

/-- Where what has been collected is all there is. -/
theorem kept_collected_iff {body : List AssistantMessageEvent} (hq : Quiet body) :
    Kept body ((PartialReply.start cfg).readAll body).content ↔ leftOpen body = [] := by
  rw [kept_iff_sublist_filter, collected hq, streamed]
  constructor
  · intro h
    have hlen := h.length_le
    rw [List.length_append] at hlen
    exact List.length_eq_zero_iff.mp (by omega)
  · intro h
    rw [h, List.append_nil]

theorem kept_iff_complete {events : List AssistantMessageEvent} {r : PartialReply} {b : Bool}
    (hc : Closes b events) (hr : r = (PartialReply.start cfg).readAll events) :
    Kept events r.content ↔ Complete events := by
  subst hr
  cases hc with
  | cut hq =>
      rw [kept_collected_iff hq, Complete]
      split
      · next reason m hlast =>
          have he := hq _ (List.mem_of_getLast? hlast)
          cases he
      · exact Iff.rfl
  | @closed body last hq hl =>
      rw [Kept, streamed_terminal hl, readAll_append hq, Complete, List.getLast?_concat,
        leftOpen_terminal hl]
      cases last with
      | done reason m =>
          simp only [PartialReply.readAll, PartialReply.take, List.isEmpty_iff]
          split
          · exact kept_collected_iff hq
          · rw [Kept, streamed_terminal hl]
      | error m => exact kept_collected_iff hq
      | _ => cases hl

/-! ## What the providers keep -/

def isCall : Block → Bool
  | .toolCall _ => true
  | .text _ => false

theorem filter_isCall_saidText (text : String) : (saidText text).filter isCall = [] := by
  rw [saidText]
  split <;> rfl

/-- The calls among what a stream has said are those it has delivered. -/
theorem filter_isCall_streamed (events : List AssistantMessageEvent) :
    (streamed events).filter isCall = delivered events := by
  have hcompleted : ∀ before, (completedAfter before events).filter isCall = delivered events := by
    induction events with
    | nil => exact fun _ => rfl
    | cons e rest ih =>
        intro before
        rw [completedAfter, List.filter_append, ih]
        cases e with
        | textEnd i text =>
            rw [completes, filter_isCall_saidText]
            rfl
        | _ => rfl
  have hopen : (leftOpen events).filter isCall = [] := by
    rw [leftOpen, List.filter_flatMap]
    exact List.flatMap_eq_nil_iff.mpr fun i _ => filter_isCall_saidText _
  rw [streamed, List.filter_append, hcompleted, hopen, List.append_nil]

/-- A message filled by a stream holds what the stream has said exactly when
that is calls only. -/
theorem kept_filled_iff {events : List AssistantMessageEvent} {content : List Content}
    (h : FilledBy events content) :
    Kept events content ↔ ∀ text, .text text ∉ streamed events := by
  rw [Kept, h.blocks_eq, ← filter_isCall_streamed]
  constructor
  · intro hsub text hmem
    have hcall := (List.mem_filter.mp (hsub.subset hmem)).2
    cases hcall
  · intro hno
    have hall : (streamed events).filter isCall = streamed events := by
      refine List.filter_eq_self.mpr fun b hb => ?_
      cases b with
      | text text => exact absurd hb (hno text)
      | toolCall tc => rfl
    rw [hall]

/-- What a response of a provider must be for all of it to be kept: every text
block with a text in it ends, and where the provider fills the message of
`Done`, there is no text beside a call or a piece of thinking. -/
def KeepsAll (penv : ProviderEnv) (run : ProviderRun) : Prop :=
  leftOpen (run.events penv) = [] ∧
    (fillsMessage run = true →
      (∃ reason m, .done reason m ∈ run.events penv) → (∃ e ∈ run.events penv, fills e = true) →
        ∀ text, .text text ∉ streamed (run.events penv))

theorem complete_without_done {events : List AssistantMessageEvent}
    (h : ∀ reason m, .done reason m ∉ events) : Complete events ↔ leftOpen events = [] := by
  rw [Complete]
  split
  · next reason m hlast => exact absurd (List.mem_of_getLast? hlast) (h reason m)
  · exact Iff.rfl

theorem leftOpen_of_no_text {events : List AssistantMessageEvent}
    (h : ∀ text, .text text ∉ streamed events) : leftOpen events = [] := by
  refine List.eq_nil_iff_forall_not_mem.mpr fun b hb => ?_
  obtain ⟨i, -, hi⟩ := List.mem_flatMap.mp hb
  rw [saidText] at hi
  split at hi
  · cases hi
  · obtain rfl := List.mem_singleton.mp hi
    exact h _ (List.mem_append_right _ hb)

theorem complete_run_iff (penv : ProviderEnv) (run : ProviderRun) :
    Complete (run.events penv) ↔ KeepsAll penv run := by
  rw [KeepsAll]
  by_cases hdone : ∃ reason m, .done reason m ∈ run.events penv
  · -- The stream is closed, and by that event.
    obtain ⟨reason, m, hmem⟩ := hdone
    have hlast : (run.events penv).getLast? = some (.done reason m) := by
      have hc := run.events_closes penv
      generalize run.closesAfter penv = b at hc
      generalize run.events penv = events at hc hmem
      cases hc with
      | cut hq =>
          have he := hq _ hmem
          cases he
      | closed hq hl =>
          obtain h | h := List.mem_append.mp hmem
          · have he := hq _ h
            cases he
          · rw [List.getLast?_concat, List.mem_singleton.mp h]
    rw [Complete, hlast]
    simp only []
    cases hf : fillsMessage run with
    | false =>
        rw [if_pos (doneWith_run_empty hf reason m hmem)]
        simp
    | true =>
        have hfilled := doneWith_run_filled hf reason m hmem
        split
        · next hnil =>
            have hnone := hfilled.eq_nil.mp hnil
            refine ⟨fun h => ⟨h, fun _ _ ⟨e, he, hfills⟩ => ?_⟩, fun h => h.1⟩
            rw [hnone e he] at hfills
            cases hfills
        · next hne =>
            rw [kept_filled_iff hfilled]
            have hfills : ∃ e ∈ run.events penv, fills e = true := by
              have h := mt hfilled.eq_nil.mpr hne
              simpa using h
            exact ⟨fun h => ⟨leftOpen_of_no_text h, fun _ _ _ => h⟩,
              fun h => h.2 rfl ⟨reason, m, hmem⟩ hfills⟩
  · have hnone : ∀ reason m, .done reason m ∉ run.events penv :=
      fun reason m h => hdone ⟨reason, m, h⟩
    rw [complete_without_done hnone]
    exact ⟨fun h => ⟨h, fun _ hd => absurd hd hdone⟩, fun h => h.1⟩

/-! ## The response of a call -/

/-- A response has been read off this stream, to its end. -/
def ReadFrom (cfg : AgentLoopConfig) (env : Env) (messageIndex : Nat)
    (events : List AssistantMessageEvent) (reply : AssistantMessage) : Prop :=
  ∃ w₁ w₂ r, readStream env messageIndex events (.start cfg) w₁ = (.ok r, w₂) ∧
    reply = r.toMessage cfg (env.clock w₂.now)

theorem ReadFrom.content_eq {i : Nat} {events : List AssistantMessageEvent}
    {reply : AssistantMessage} (h : ReadFrom cfg env i events reply) :
    reply.content = ((PartialReply.start cfg).readAll events).content := by
  obtain ⟨w₁, w₂, r, hr, rfl⟩ := h
  rw [← readStream_ok hr]
  rfl

/-- A response the agent loop goes on from has been read off a stream the
provider has returned. What that stream has said is in it exactly when the
stream is complete, which for the stream of a provider is a matter of what is
in the response. -/
theorem kept_of_response {messages : List AgentMessage} {maxRetries messageIndex n : Nat}
    {w w' : World} {reply : AssistantMessage}
    (h : callLlmWithRetry cfg env messages maxRetries messageIndex w = (.ok (n, reply), w')) :
    ∃ t events, env.stream t = .ok events ∧ ReadFrom cfg env messageIndex events reply ∧
      (∀ b, Closes b events → (Kept events reply.content ↔ Complete events)) ∧
      (∀ penv run, events = run.events penv →
        (Kept events reply.content ↔ KeepsAll penv run)) := by
  obtain ⟨t, events, w₁, w₂, r, hstream, hread, hreply⟩ := callLlmWithRetry_ok h
  have hfrom : ReadFrom cfg env messageIndex events reply := ⟨w₁, w₂, r, hread, hreply⟩
  have hkept : ∀ b, Closes b events → (Kept events reply.content ↔ Complete events) := by
    intro b hc
    rw [hfrom.content_eq]
    exact kept_iff_complete hc rfl
  refine ⟨t, events, hstream, hfrom, hkept, fun penv run hrun => ?_⟩
  subst hrun
  rw [hkept _ (run.events_closes penv), complete_run_iff]

/-! ## An answer after some thinking -/

def blockStartEvent (type : String) : Json :=
  .obj [("type", .str "content_block_start"), ("content_block", .obj [("type", .str type)])]

def blockDeltaEvent (delta : List (String × Json)) : Json :=
  .obj [("type", .str "content_block_delta"), ("delta", .obj delta)]

def blockStopEvent : Json := .obj [("type", .str "content_block_stop")]

def messageStopEvent : Json := .obj [("type", .str "message_stop")]

/-- A text, as Anthropic sends it. -/
def textEvents (text : String) : List Json :=
  [blockStartEvent "text", blockDeltaEvent [("type", .str "text_delta"), ("text", .str text)],
    blockStopEvent]

def thinkingEvents (thinking : String) : List Json :=
  [blockStartEvent "thinking",
    blockDeltaEvent [("type", .str "thinking_delta"), ("thinking", .str thinking)],
    blockStopEvent]

def answerOnly : List Json := textEvents "Forty-two" ++ [messageStopEvent]

def thinkingFirst : List Json :=
  thinkingEvents "Six by nine" ++ textEvents "Forty-two" ++ [messageStopEvent]

/-- The stream of the Bedrock provider for a response of these events. -/
def bedrockEvents (values : List Json) : List AssistantMessageEvent :=
  (ProviderRun.bedrock (chunksOf values)).events (.knowing values)

/-- An agent loop that is answered by one stream. -/
def answeredBy (events : List AssistantMessageEvent) : Env :=
  { Env.quiet with stream := fun _ => .ok events }

def respond (events : List AssistantMessageEvent) :
    Except AgentError (Nat × AssistantMessage) × World :=
  callLlmWithRetry (plainConfig 0).loop (answeredBy events) [] 0 0 .fresh

theorem bedrockEvents_answerOnly :
    bedrockEvents answerOnly =
      [.start, .textStart 0, .textDelta 0 "Forty-two", .textEnd 0 "Forty-two",
        .done .stop (.blank "bedrock" "model" 0)] := by
  decide

theorem bedrockEvents_thinkingFirst :
    bedrockEvents thinkingFirst =
      [.start, .thinkingStart 0, .thinkingDelta 0 "Six by nine", .thinkingEnd 0 "Six by nine",
        .textStart 1, .textDelta 1 "Forty-two", .textEnd 1 "Forty-two",
        .done .stop { AssistantMessage.blank "bedrock" "model" 0 with
          content := [.thinking "Six by nine" none false] }] := by
  decide

instance (events : List AssistantMessageEvent) (content : List Content) :
    Decidable (Kept events content) :=
  inferInstanceAs (Decidable (List.Sublist _ _))

theorem respond_answerOnly :
    ∃ reply w', respond (bedrockEvents answerOnly) = (.ok (0, reply), w') := by
  rw [bedrockEvents_answerOnly]
  exact ⟨_, _, rfl⟩

theorem keepsAll_answerOnly :
    KeepsAll (.knowing answerOnly) (.bedrock (chunksOf answerOnly)) := by
  have hevents : (ProviderRun.bedrock (chunksOf answerOnly)).events (.knowing answerOnly) = _ :=
    bedrockEvents_answerOnly
  rw [KeepsAll, hevents]
  exact ⟨by decide, fun _ _ ⟨e, he, hf⟩ => absurd hf (by revert e; decide)⟩

theorem kept_answerOnly :
    ∃ reply, (respond (bedrockEvents answerOnly)).1 = .ok (0, reply) ∧
      Kept (bedrockEvents answerOnly) reply.content := by
  obtain ⟨reply, w', hrun⟩ := respond_answerOnly
  obtain ⟨t, events, hstream, -, -, hkept⟩ := kept_of_response hrun
  injection hstream with hstream
  have hiff := hkept (.knowing answerOnly) (.bedrock (chunksOf answerOnly)) hstream.symm
  rw [← hstream] at hiff
  exact ⟨reply, congrArg Prod.fst hrun, hiff.mpr keepsAll_answerOnly⟩

/-- With some thinking before it, the answer is not in the response. -/
theorem not_kept_thinkingFirst :
    ∃ reply, (respond (bedrockEvents thinkingFirst)).1 = .ok (0, reply) ∧
      rejection reply = none ∧ ¬ Kept (bedrockEvents thinkingFirst) reply.content := by
  rw [bedrockEvents_thinkingFirst]
  exact ⟨_, rfl, rfl, by decide⟩

end Pandaria.Agent
