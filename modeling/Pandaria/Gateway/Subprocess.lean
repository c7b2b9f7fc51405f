import Pandaria.Ai.Sse
import Pandaria.Lib.ByteText

/-!
# Tools that are a subprocess

`SubprocessHandler` of `api-gateway/src/tavern_tools/subprocess.rs`. The call
goes to the standard input of a process, and the result is read from its
standard output. Of a process that fails, the model is shown the beginning of
what it wrote to its standard error, 4096 bytes of it.

The operating system is a parameter, and so is the deserialiser of results.
-/

namespace Pandaria.Gateway

open Pandaria.Ai Pandaria.Lib

structure ContentPart where
  contentType : String
  text : Option String

structure ToolResult where
  content : List ContentPart
  isError : Bool
  details : Option Json

/-- `ToolError`, as far as it occurs here. -/
inductive ToolError where
  | executionFailed (message : String)

/-- The code is missing after a signal. -/
structure ExitStatus where
  code : Option Int

def ExitStatus.success (status : ExitStatus) : Bool := status.code = some 0

/-- A process: whether the call could be written to it, how it ended, if it did
within the time, and all it wrote. -/
structure Child where
  stdin : Except String Unit
  exit : Option (Except String ExitStatus)
  stdout : List UInt8
  stderr : List UInt8

def maxStdoutBytes : Nat := 10 * 1024 * 1024

def maxStderrChars : Nat := 4096

structure SubprocessHandler where
  command : String
  timeoutMs : Nat
  cwd : Option String
  env : Option (List (String × String))

namespace SubprocessHandler

/-- The program, empty if there is none, and its arguments. -/
def parseCommand (h : SubprocessHandler) : String × List String :=
  let parts := (h.command.toList.splitOnP isWhitespace).filter fun part => !part.isEmpty
  (String.ofList (parts.head?.getD []), parts.tail.map String.ofList)

end SubprocessHandler

/-- Starting a program with its arguments and a text on its standard input. -/
abbrev Spawn := SubprocessHandler → String → List String → String → Except String Child

def errorResult (text : String) : ToolResult :=
  { content := [{ contentType := "text", text := some text }], isError := true, details := none }

namespace SubprocessHandler

variable (spawn : Spawn) (serde : Serde) (fromValue : Json → Except String ToolResult)

def request (params : Json) (tenantId sessionId toolCallId : String) : Json :=
  .obj [("params", params), ("session_id", .str sessionId), ("tenant_id", .str tenantId),
    ("tool_call_id", .str toolCallId)]

/-- The beginning of what went to the standard error. `none` is the panic of a
cut inside a character. -/
def stderrTruncated (stderr : List UInt8) : Option String :=
  ByteText.excerpt maxStderrChars "...(truncated)" (fromUtf8Lossy stderr)

def execute (h : SubprocessHandler) (params : Json) (tenantId sessionId toolCallId : String) :
    Option (Except ToolError ToolResult) :=
  let requestJson := (request params tenantId sessionId toolCallId).render
  let (prog, args) := h.parseCommand
  if prog.isEmpty then some (.ok (errorResult "tool command is empty"))
  else
    match spawn h prog args (String.ofList requestJson) with
    | .error e => some (.error (.executionFailed ("failed to spawn: " ++ e)))
    | .ok child =>
        match child.stdin with
        | .error e => some (.error (.executionFailed e))
        | .ok () =>
            match child.exit with
            | some (.error e) => some (.error (.executionFailed ("child process error: " ++ e)))
            | none =>
                some (.ok (errorResult
                  ("tool execution timed out after " ++ toString h.timeoutMs ++ "ms")))
            | some (.ok status) =>
                -- The reader stops one byte after the limit.
                let stdout := child.stdout.take (maxStdoutBytes + 1)
                if stdout.length > maxStdoutBytes then
                  some (.ok (errorResult ("tool output exceeded " ++
                    toString (maxStdoutBytes / (1024 * 1024)) ++ "MB limit")))
                else if !status.success then
                  (stderrTruncated child.stderr).map fun stderrTruncated =>
                    .ok (errorResult ("tool exited with code " ++
                      toString (status.code.getD (-1)) ++ ": " ++ stderrTruncated))
                else
                  match serde.fromStr (String.ofList (fromUtf8Lossy stdout)) with
                  | .error e => some (.ok (errorResult ("invalid JSON from tool: " ++ e)))
                  | .ok result =>
                      match fromValue result with
                      | .error e => some (.error (.executionFailed e))
                      | .ok r => some (.ok r)

end SubprocessHandler

end Pandaria.Gateway
