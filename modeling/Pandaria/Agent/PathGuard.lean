import Pandaria.Agent.World
import Pandaria.Lib.Path

/-!
# The guards of the default dispatcher

What `DefaultHookDispatcher::on_tool_call` of
`agent-core/src/hook/default_dispatcher.rs` decides: whether a tool may be
called at all, and whether the paths in its input are inside the workspace of
the tenant, which is the one of `agent-core/src/space.rs`. And what its
`on_tool_result` makes of a result with other paths in its details. Its logs,
its cost callback and its other hooks are left out.
-/

namespace Pandaria.Agent

open Pandaria.Ai
open Pandaria.Lib

/-! ## The workspace -/

structure AgentSpace where
  root : String

/-- `str::starts_with('/')`. -/
def isAbsolute (path : String) : Bool := path.toList.head? = some '/'

/-- `str::split('/')`. -/
def splitPath (path : String) : List Segment := path.toList.splitOn '/'

/-- `Path::join`: an absolute path replaces what is there, and a separator is
only put in where there is none. -/
def joinPath (dir path : String) : String :=
  if isAbsolute path then path
  else match dir.toList.getLast? with
    | some c => if c = '/' then dir ++ path else dir ++ "/" ++ path
    | none => path

def AgentSpace.workspaceFor (space : AgentSpace) (tenantId : String) : String :=
  joinPath (joinPath space.root "workspaces") tenantId

/-! ## The path guard -/

/-- The loop of `normalize_path`. -/
def pushParts (absolute : Bool) : List Segment → List Segment → Option (List Segment)
  | parts, [] => some parts
  | parts, part :: rest =>
      if part = [] ∨ part = ['.'] then pushParts absolute parts rest
      else if part = ['.', '.'] then
        if parts = [] ∧ absolute then none else pushParts absolute parts.dropLast rest
      else pushParts absolute (parts ++ [part]) rest

def normalizePath (path : String) : Option String :=
  if path = "" then none
  else
    (pushParts (isAbsolute path) [] (splitPath path)).map fun parts =>
      let joined := ['/'].intercalate parts
      String.ofList (if isAbsolute path then '/' :: joined else joined)

structure DefaultHookDispatcher where
  space : AgentSpace
  deniedTools : List String
  allowedTools : List String
  pathGuardFields : String → Option (List String)
  pathGuardScanUnknown : Bool

/-- `ToolCallCtx`, as far as the guards read it. -/
structure ToolCallCtx where
  tenantId : String
  toolName : String
  input : Json

/-- `ToolResultCtx`, as far as the guards read it. -/
structure ToolResultCtx where
  tenantId : String
  details : Option Json

/-- The prefix `is_path_allowed` looks for, which ends with a separator. -/
def allowedPrefix (space : AgentSpace) (tenantId : String) : List Char :=
  let allowed := (space.workspaceFor tenantId).toList
  if allowed.getLast? = some '/' then allowed else allowed ++ ['/']

def isPathAllowed (space : AgentSpace) (path tenantId : String) : Bool :=
  match normalizePath path with
  | none => false
  | some normalized =>
      !isAbsolute normalized || decide (allowedPrefix space tenantId <+: normalized.toList)

/-- What `collect_string_paths` takes for a path. -/
def looksLikePath (s : String) : Bool :=
  isAbsolute s || decide (s.toList.head? = some '.') || s.toList.contains '/'

mutual

def collectStringPaths : Json → List String
  | .str s => if looksLikePath s then [s] else []
  | .arr elems => collectElems elems
  | .obj fields => collectFields fields
  | .null | .bool _ | .num _ => []

def collectElems : List Json → List String
  | [] => []
  | v :: rest => collectStringPaths v ++ collectElems rest

def collectFields : List (String × Json) → List String
  | [] => []
  | (_, v) :: rest => collectStringPaths v ++ collectFields rest

end

namespace DefaultHookDispatcher

def extractPaths (d : DefaultHookDispatcher) (toolName : String) (value : Json) : List String :=
  match d.pathGuardFields toolName with
  | some fields =>
      fields.flatMap fun field => ((value.get field).map collectStringPaths).getD []
  | none => if d.pathGuardScanUnknown then collectStringPaths value else []

/-- `on_tool_call`. The input of the tool is never changed. -/
def onToolCall (d : DefaultHookDispatcher) (ctx : ToolCallCtx) : HookDecision × Option Json :=
  if d.deniedTools.contains ctx.toolName then
    (.block ("tool '" ++ ctx.toolName ++ "' is denied by tool-guard"), none)
  else if !d.allowedTools.isEmpty && !d.allowedTools.contains ctx.toolName then
    (.block ("tool '" ++ ctx.toolName ++ "' is not in allowed list"), none)
  else
    let paths := d.extractPaths ctx.toolName ctx.input
    match paths.find? fun path => !isPathAllowed d.space path ctx.tenantId with
    | some path =>
        (.block ("path '" ++ path ++ "' is outside of allowed workspace (" ++
          d.space.workspaceFor ctx.tenantId ++ ")"), none)
    | none => (.continue_, none)

/-- The paths `on_tool_result` collects. -/
def resultPaths (details : Option Json) : List String := (details.map collectStringPaths).getD []

/-- `on_tool_result`. What it answers about the details is nothing. -/
def onToolResult (d : DefaultHookDispatcher) (ctx : ToolResultCtx) : ToolResultMutation :=
  match (resultPaths ctx.details).find? fun path => !isPathAllowed d.space path ctx.tenantId with
  | some _ =>
      { content := some [.text "[PathGuard: illegal path reference removed]" none]
        details := none
        isError := some true
        terminate := none }
  | none => ⟨none, none, none, none⟩

end DefaultHookDispatcher

end Pandaria.Agent
