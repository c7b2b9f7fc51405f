import Pandaria.Agent.Compaction
import Pandaria.Agent.World

/-!
# Asking the provider for a summary

The other half of `agent-core/src/harness/compaction/mod.rs`. A summary is one
provider call with the conversation written out in a single user message. When
the cut falls inside a turn there are two of them, one for the history and one
for the beginning of that turn. They run side by side, one await of either at a
time, and the first failure of the two ends both.

The token given to the provider is not looked at here: a summary is read to
its end whether or not the session has been aborted.
-/

namespace Pandaria.Agent

open Pandaria.Ai

/-! ## Prompts -/

def summarizationPrompt : String :=
  "Summarize the conversation above into a structured format:\n" ++
  "- Overview\n" ++
  "- Progress (Done / In Progress)\n" ++
  "- Key Decisions\n" ++
  "- Current State\n" ++
  "- Next Steps\n" ++
  "- Important files and functions mentioned\n\n" ++
  "Be concise but preserve exact file paths, function names, and error messages."

def updateSummarizationPrompt : String :=
  "The messages above are NEW conversation messages to incorporate into the existing " ++
  "summary provided in <previous-summary> tags.\n\n" ++
  "Update the existing structured summary with new information. RULES:\n" ++
  "- PRESERVE all existing information from the previous summary\n" ++
  "- ADD new progress, decisions, and context from the new messages\n" ++
  "- UPDATE the Progress section: move items from \"In Progress\" to \"Done\" when completed\n" ++
  "- UPDATE \"Next Steps\" based on what was accomplished\n" ++
  "- PRESERVE exact file paths, function names, and error messages\n" ++
  "- If something is no longer relevant, you may remove it"

def turnPrefixSummarizationPrompt : String :=
  "This is the PREFIX of a turn that was too large to keep. The SUFFIX (recent work) is " ++
  "retained.\n\n" ++
  "Summarize the prefix to provide context for the retained suffix. Be concise. Focus on " ++
  "what's needed to understand the kept suffix."

/-- The text blocks of a message. -/
def textBlocks (content : List Content) : List String :=
  content.filterMap fun
    | .text text _ => some text
    | _ => none

/-- `extract_text`. -/
def extractText (content : List Content) : String := " ".intercalate (textBlocks content)

/-- `serialize_messages`. -/
def serializeMessages (messages : List AgentMessage) : String :=
  String.join (messages.map fun m =>
    let (role, text) := match m with
      | .user u => ("User", extractText u.content)
      | .assistant a => ("Assistant", extractText a.content)
      | .toolResult r => ("Tool", extractText r.content)
    "[" ++ role ++ "]: " ++ text ++ "\n\n")

def conversationText (messages : List AgentMessage) : String :=
  "<conversation>\n" ++ serializeMessages messages ++ "\n</conversation>\n\n"

/-- The prompt of `generate_history_summary`. -/
def historyPrompt (messages : List AgentMessage) (previousSummary : Option String) : String :=
  match previousSummary with
  | some prev =>
      conversationText messages ++ "<previous-summary>\n" ++ prev ++ "\n</previous-summary>\n\n" ++
        updateSummarizationPrompt
  | none => conversationText messages ++ summarizationPrompt

/-- The prompt of `generate_turn_prefix_summary`. -/
def turnPrefixPrompt (messages : List AgentMessage) : String :=
  conversationText messages ++ turnPrefixSummarizationPrompt

/-! ## One summary -/

/-- How far a summary has got. -/
inductive SummaryTask where
  /-- The prompt is put together on a blocking thread. -/
  | prompting (prompt ifEmpty : String)
  /-- The provider has been called. -/
  | requested (ifEmpty : String)
  | reading (events : List AssistantMessageEvent) (text ifEmpty : String)
  | done (result : Except CompactionError String)

/-- The prompt is there, and the provider is called. -/
def requestSummary (env : Env) (prompt : String) (w : World) : World :=
  let w := w.tick env
  w.observe (.summarise [.user { content := [.text prompt none], timestamp := env.clock w.now }])

/-- What an event does to the text of a summary, or how it ends it. -/
def summaryEvent (text : String) :
    AssistantMessageEvent → Except (Except CompactionError String) String
  | .textDelta _ delta => .ok (text ++ delta)
  | .done _ m => .error (.ok ("\n".intercalate (textBlocks m.content)))
  | .error m => .error (.error (.llmError (m.errorMessage.getD "LLM error")))
  | _ => .ok text

/-- The end of the stream. An empty summary is an error. -/
def endSummary (ifEmpty : String) (result : Except CompactionError String) :
    Except CompactionError String :=
  result.bind fun text => if text.isEmpty then .error (.llmError ifEmpty) else .ok text

/-- The `while let` over the stream of a summary. -/
def readSummary (env : Env) (ifEmpty : String) :
    List AssistantMessageEvent → String → World → Except CompactionError String × World
  | [], text, w => (endSummary ifEmpty (.ok text), w.tick env)
  | e :: rest, text, w =>
      match summaryEvent text e with
      | .ok text => readSummary env ifEmpty rest text (w.tick env)
      | .error result => (endSummary ifEmpty result, w.tick env)

namespace SummaryTask

/-- A summary goes on from one await to the next. -/
def step (env : Env) (w : World) : SummaryTask → SummaryTask × World
  | .prompting prompt ifEmpty => (.requested ifEmpty, requestSummary env prompt w)
  | .requested ifEmpty =>
      match w.await env env.stream with
      | (.error e, w) => (.done (.error (.llmError e.toString)), w)
      | (.ok events, w) => (.reading events "" ifEmpty, w)
  | .reading [] text ifEmpty => (.done (endSummary ifEmpty (.ok text)), w.tick env)
  | .reading (e :: rest) text ifEmpty =>
      match summaryEvent text e with
      | .ok text => (.reading rest text ifEmpty, w.tick env)
      | .error result => (.done (endSummary ifEmpty result), w.tick env)
  | .done result => (.done result, w)

/-- A summary from its stream on. -/
def receive (env : Env) (ifEmpty : String) (w : World) : Except CompactionError String × World :=
  match w.await env env.stream with
  | (.error e, w) => (.error (.llmError e.toString), w)
  | (.ok events, w) => readSummary env ifEmpty events "" w

/-- A summary to its end, with nothing beside it. -/
def finish (env : Env) (w : World) : SummaryTask → Except CompactionError String × World
  | .prompting prompt ifEmpty => receive env ifEmpty (requestSummary env prompt w)
  | .requested ifEmpty => receive env ifEmpty w
  | .reading events text ifEmpty => readSummary env ifEmpty events text w
  | .done result => (result, w)

end SummaryTask

/-- The two summaries of a split turn, joined by `try_join!`. The schedule
says whose await passes next, `true` for the history; what it leaves over is
read one after the other. -/
def joinSummaries (env : Env) :
    List Bool → SummaryTask → SummaryTask → World →
      Except CompactionError (String × String) × World
  | [], history, turnPrefix, w =>
      match history.finish env w with
      | (.error e, w) => (.error e, w)
      | (.ok historyText, w) =>
          match turnPrefix.finish env w with
          | (.error e, w) => (.error e, w)
          | (.ok prefixText, w) => (.ok (historyText, prefixText), w)
  | true :: rest, history, turnPrefix, w =>
      match history.step env w with
      | (.done (.error e), w) => (.error e, w)
      | (history, w) => joinSummaries env rest history turnPrefix w
  | false :: rest, history, turnPrefix, w =>
      match turnPrefix.step env w with
      | (.done (.error e), w) => (.error e, w)
      | (turnPrefix, w) => joinSummaries env rest history turnPrefix w

/-- `generate_history_summary`. -/
def historySummary (p : CompactionPreparation) : SummaryTask :=
  .prompting (historyPrompt p.messagesToSummarize p.previousSummary)
    "Summary generation returned empty text"

/-- `generate_turn_prefix_summary`. -/
def turnPrefixSummary (p : CompactionPreparation) : SummaryTask :=
  .prompting (turnPrefixPrompt p.turnPrefixMessages) "Turn prefix summary returned empty text"

/-! ## Compaction -/

/-- The summary text of a preparation. -/
def summarize (env : Env) (p : CompactionPreparation) (w : World) :
    Except CompactionError String × World :=
  if p.isSplitTurn && !p.turnPrefixMessages.isEmpty then
    match joinSummaries env (env.schedule w.now) (historySummary p) (turnPrefixSummary p) w with
    | (.error e, w) => (.error e, w)
    | (.ok (history, turnPrefix), w) =>
        (.ok (history ++ "\n\n---\n\n**Turn Context (split turn):**\n\n" ++ turnPrefix), w)
  else (historySummary p).finish env w

/-- `Compactor::compact`. -/
def compact (c : Compactor) (env : Env) (entries : List SessionEntry) (w : World) :
    Except CompactionError CompactionResult × World :=
  match prepare c entries with
  | .error e => (.error e, w)
  | .ok p =>
      match summarize env p w with
      | (.error e, w) => (.error e, w)
      | (.ok summary, w) =>
          (.ok {
            summary := summary
            firstKeptEntryId := p.firstKeptEntryId
            tokensBefore := p.tokensBefore
            details := some { readFiles := p.fileOps.read, modifiedFiles := p.fileOps.written } }, w)

end Pandaria.Agent
