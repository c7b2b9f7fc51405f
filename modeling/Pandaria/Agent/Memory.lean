import Mathlib.Data.List.Infix
import Pandaria.Agent.History
import Pandaria.Lib.ByteText
import Pandaria.Lib.Table

/-!
# Memory

## The store in memory

`InMemoryStore` of `agent-core/src/memory/in_memory.rs`: a hash map from a key,
made of a tenant and a session, to what was remembered. Of a record only its
content is ever read. The order of a hash map's entries is anything, so
`recall` is given the order it meets.
-/

namespace Pandaria.Agent

open Pandaria.Lib

/-- `MemoryContext`, as far as the store looks at it. -/
structure MemoryContext where
  tenantId : String
  sessionId : String
deriving DecidableEq

namespace MemoryContext

/-- The tenant and the session, joined by a colon. -/
def key (ctx : MemoryContext) : String := ctx.tenantId ++ ":" ++ ctx.sessionId

end MemoryContext

structure InMemoryStore where
  data : Table String (List String)

namespace InMemoryStore

def new : InMemoryStore := { data := .empty }

def remember (s : InMemoryStore) (ctx : MemoryContext) (content : String) : InMemoryStore :=
  { data := s.data.push ctx.key content }

/-- `recall`, over the entries of the map in the order it meets them. -/
def recall_ (entries : List (String × List String)) (ctx : MemoryContext) (query : String) :
    List String :=
  let found := entries.filter fun e => ctx.key.toList <+: e.1.toList
  ((found.flatMap Prod.snd).filter fun content => query.toList <:+: content.toList).take 5

def forgetSession (s : InMemoryStore) (ctx : MemoryContext) : InMemoryStore :=
  { data := s.data.erase ctx.key }

end InMemoryStore

end Pandaria.Agent

/-!
## A turn as the memory gets it

`format_turn_content` and `extract_tool_summaries` of
`agent-core/src/memory/formatter.rs`, which a hook calls at the end of a turn:
the turn as Markdown, and a summary for each tool result. The names in the
summaries are those of the calls, taken in the order in which they were made.
-/

namespace Pandaria.Agent

open Pandaria.Ai Pandaria.Lib

structure TurnToolCallSummary where
  name : String
  isError : Bool
  resultLen : Nat
deriving DecidableEq

def contentText? : Content → Option String
  | .text text _ => some text
  | _ => none

def collectText (content : List Content) : String :=
  "\n".intercalate (content.filterMap contentText?)

/-- `truncate_text`; `none` is the panic of a cut inside a character. -/
def truncateText (text : String) (maxLen : Nat) : Option String :=
  ByteText.excerpt maxLen ("...(截断, 共 " ++ toString text.utf8ByteSize ++ " 字符)") text.toList

/-! ### Markdown -/

def formatResult (tr : ToolResultMessage) (summary : String) : String :=
  "**ToolResult[" ++ tr.toolName ++ "]**: (" ++ (if tr.isError then "失败" else "成功") ++ ", " ++
    toString (collectText tr.content).utf8ByteSize ++ " 字符)\n" ++ summary ++ "\n\n"

/-- What one message adds. -/
def formatMessage : AgentMessage → Option String
  | .user u =>
      let text := collectText u.content
      some (if text.isEmpty then "" else "**User**: " ++ text ++ "\n\n")
  | .assistant a =>
      let calls := a.toolCalls.map fun tc =>
        "**ToolCall[" ++ tc.name ++ "]**: (see ToolResult below)\n\n"
      let text := collectText a.content
      some (String.join calls ++
        if text.isEmpty then "" else "**Assistant**: " ++ text ++ "\n\n")
  | .toolResult tr => (truncateText (collectText tr.content) 500).map (formatResult tr)

def formatTurnContent (turnIndex : Nat) (messages : List AgentMessage) : Option String :=
  messages.foldlM (fun out msg => (formatMessage msg).map (out ++ ·))
    ("## Turn " ++ toString turnIndex ++ "\n\n")

/-! ### Summaries -/

/-- The summaries so far, and the names of the calls that no result has taken. -/
structure Summaries where
  summaries : List TurnToolCallSummary
  toolCallNames : List String

def Summaries.add (s : Summaries) : AgentMessage → Summaries
  | .user _ => s
  | .assistant a => { s with toolCallNames := s.toolCallNames ++ a.toolCalls.map (·.name) }
  | .toolResult tr =>
      { summaries := s.summaries ++
          [{ name := s.toolCallNames.head?.getD tr.toolName
             isError := tr.isError
             resultLen := (collectText tr.content).utf8ByteSize }]
        toolCallNames := s.toolCallNames.tail }

def extractToolSummaries (messages : List AgentMessage) : List TurnToolCallSummary :=
  (messages.foldl Summaries.add ⟨[], []⟩).summaries

end Pandaria.Agent
