import Pandaria.Agent.World

/-!
# Running the tool calls of one response

`ToolExecutor::execute_tool_call` from `agent-core/src/harness/tool.rs` and the
tool half of `AgentLoop`. One call goes through a hook that may block it, the
tool, and a hook that may change the result; the calls of a response are run
one after the other, or side by side with each of them racing the abort token.

Calls that run side by side do not hear of each other, so they are taken in
order here, each with answers of its own. A result of `none` is a panic, and
there is one: the terminate flag is written into details that are neither an
object nor `null`.
-/

namespace Pandaria.Agent

open Pandaria.Ai

inductive ToolExecutionMode where
  | sequential
  | parallel
deriving DecidableEq

/-- What the agent loop itself reads of a tool. -/
structure AgentTool where
  name : String
  executionMode : ToolExecutionMode
deriving DecidableEq

/-! ## One tool call -/

/-- A result with nothing in it but an error in its details. -/
def errorResult (tc : ToolCall) (details : Json) (now : SystemTime) : ToolResultMessage :=
  { toolCallId := tc.id
    toolName := tc.name
    content := []
    details := some details
    isError := true
    timestamp := now }

def ToolResultMutation.apply (m : ToolResultMutation) (r : AgentToolResult) : AgentToolResult :=
  { content := m.content.getD r.content
    details := m.details.or r.details
    isError := m.isError.getD r.isError
    terminate := m.terminate.getD r.terminate }

/-- The details a result is handed on with. The agent loop reads the terminate
flag out of them. -/
def AgentToolResult.embedTerminate (r : AgentToolResult) : Option Json :=
  let details := r.details.getD (.obj [])
  if r.terminate then details.insert "_terminate" (.bool true) else some details

/-- `execute_tool_call`. -/
def executeToolCall (env : Env) (tc : ToolCall) (w : World) :
    Option (Except AgentError ToolResultMessage × World) :=
  let ((decision, input), w) := w.await env env.onToolCall
  match decision with
  | .block reason =>
      some (.ok (errorResult tc
        (.obj [("blocked", .bool true), ("reason", .str reason)]) (env.clock w.now)), w)
  | .continue_ =>
      let (run, w) := (w.observe (.execute tc.id (input.getD tc.arguments))).await env env.execute
      let w := run.progress.foldl (fun w c => w.emit (.toolExecutionUpdate tc.id c)) w
      match run.result with
      | .error e => some (.error e, w)
      | .ok result =>
          let (mutation, w) := w.await env env.onToolResult
          let result := mutation.apply result
          result.embedTerminate.map fun details =>
            (.ok {
              toolCallId := tc.id
              toolName := tc.name
              content := result.content
              details := some details
              isError := result.isError
              timestamp := env.clock w.now }, w)

/-- The world a call goes on in when its tool has been run. -/
def World.ran (env : Env) (tc : ToolCall) (input : Option Json) (w : World) : World :=
  (env.execute (w.now + 1)).progress.foldl (fun w c => w.emit (.toolExecutionUpdate tc.id c))
    (((w.tick env).observe (.execute tc.id (input.getD tc.arguments))).tick env)

theorem World.ran_now (env : Env) (tc : ToolCall) (input : Option Json) (w : World) :
    (w.ran env tc input).now = w.now + 2 := by
  have hprogress (progress : List String) (w : World) :
      (progress.foldl (fun w c => w.emit (.toolExecutionUpdate tc.id c)) w).now = w.now := by
    induction progress generalizing w with
    | nil => rfl
    | cons c rest ih => exact ih _
  exact hprogress _ _

/-- How a call ends: blocked, with the error of the tool, or with the result of the tool
as the hook after it has changed it. -/
theorem executeToolCall_cases (env : Env) (tc : ToolCall) (w : World) :
    (∃ reason input, env.onToolCall w.now = (.block reason, input) ∧
      executeToolCall env tc w = some (.ok (errorResult tc
        (.obj [("blocked", .bool true), ("reason", .str reason)]) (env.clock (w.now + 1))),
          w.tick env)) ∨
    ∃ input, env.onToolCall w.now = (.continue_, input) ∧
      ((∃ e, (env.execute (w.now + 1)).result = .error e ∧
        executeToolCall env tc w = some (.error e, w.ran env tc input)) ∨
      ∃ result, (env.execute (w.now + 1)).result = .ok result ∧
        executeToolCall env tc w =
          let result := (env.onToolResult (w.now + 2)).apply result
          result.embedTerminate.map fun details =>
            (.ok {
              toolCallId := tc.id
              toolName := tc.name
              content := result.content
              details := some details
              isError := result.isError
              timestamp := env.clock (w.now + 3) }, (w.ran env tc input).tick env)) := by
  rcases hcall : env.onToolCall w.now with ⟨decision, input⟩
  cases decision with
  | block reason =>
      refine .inl ⟨reason, input, rfl, ?_⟩
      rw [executeToolCall, World.await, hcall]
      rfl
  | continue_ =>
      refine .inr ⟨input, rfl, ?_⟩
      have hnow := World.ran_now env tc input w
      have hclock : ((w.ran env tc input).tick env).now = w.now + 3 := congrArg (· + 1) hnow
      have hexec : env.execute ((w.tick env).observe
          (.execute tc.id (input.getD tc.arguments))).now = env.execute (w.now + 1) := rfl
      rw [executeToolCall, World.await, hcall, ← hnow, ← hclock]
      dsimp only [World.await]
      rw [hexec]
      cases hrun : (env.execute (w.now + 1)).result with
      | error e => exact .inl ⟨e, rfl, rfl⟩
      | ok result => exact .inr ⟨result, rfl, rfl⟩

/-- The lookup of the tool and its execution. An error is the text the result
will carry. -/
def runTool (env : Env) (tools : List AgentTool) (tc : ToolCall) (w : World) :
    Option (Except String ToolResultMessage × World) :=
  match tools.find? fun t => t.name = tc.name with
  | none => some (.error "tool not found", w)
  | some _ => (executeToolCall env tc w).map fun (r, w) => (r.mapError AgentError.toString, w)

/-- `execute_single_tool`. -/
def executeSingleTool (env : Env) (tools : List AgentTool) (tc : ToolCall) (w : World) :
    Option (ToolResultMessage × World) :=
  (runTool env tools tc (w.emit (.toolExecutionStart tc.id tc.name))).map fun (outcome, w) =>
    let result := match outcome with
      | .ok m => m
      | .error e => errorResult tc (.obj [("error", .str e)]) (env.clock w.now)
    (result, w.emit (.toolExecutionEnd tc.id result))

/-! ## The calls of one response -/

/-- The sequential branch of `execute_tools`, which stops at the first call it
finds the token cancelled before. -/
def executeSequential (env : Env) (tools : List AgentTool) :
    List ToolCall → World → Option (List ToolResultMessage × World)
  | [], w => some ([], w)
  | tc :: rest, w =>
      if w.cancelled then some ([], w)
      else (executeSingleTool env tools tc w).bind fun (result, w) =>
        (executeSequential env tools rest w).map fun (results, w) => (result :: results, w)

/-- The worlds in which a call has passed an await and is not yet over. -/
def suspensions (env : Env) (tools : List AgentTool) (tc : ToolCall) (w : World) : List World :=
  match tools.find? fun t => t.name = tc.name with
  | none => []
  | some _ =>
      let ((decision, input), asked) :=
        (w.emit (.toolExecutionStart tc.id tc.name)).await env env.onToolCall
      match decision with
      | .block _ => [asked]
      | .continue_ =>
          let (run, w) := (asked.observe (.execute tc.id (input.getD tc.arguments))).await env
            env.execute
          let executed := run.progress.foldl (fun w c => w.emit (.toolExecutionUpdate tc.id c)) w
          match run.result with
          | .error _ => [asked, executed]
          | .ok _ => [asked, executed, executed.tick env]

/-- A `select!` takes the token's branch. -/
def drops (env : Env) (w : World) : Bool := w.cancelled && env.cancelWins w.now

/-- One arm of the parallel branch, a `select!` between the call and the token.
The token's branch drops the call at one of its awaits; on a token that was
cancelled `before` the round it may be taken instead of the call. -/
def raceTool (env : Env) (tools : List AgentTool) (before : Bool) (tc : ToolCall) (w : World) :
    Option (ToolResultMessage × World) :=
  let cancelled (w : World) := errorResult tc (.obj [("_cancelled", .bool true)]) (env.clock w.now)
  if before && drops env w then some (cancelled w, w)
  else match (suspensions env tools tc w).find? (drops env) with
    | some dropped => some (cancelled dropped, dropped)
    | none => executeSingleTool env tools tc w

/-- The parallel branch of `execute_tools`. The calls take their awaits one
after the other here, and which of them a cancelled token drops is up to the
environment. -/
def executeParallel (env : Env) (tools : List AgentTool) (before : Bool) :
    List ToolCall → World → Option (List ToolResultMessage × World)
  | [], w => some ([], w)
  | tc :: rest, w =>
      (raceTool env tools before tc w).bind fun (result, w) =>
        (executeParallel env tools before rest w).map fun (results, w) => (result :: results, w)

/-- One sequential tool among the calls makes all of them sequential. -/
def useSequential (tools : List AgentTool) (calls : List ToolCall) : Bool :=
  calls.any fun tc =>
    (tools.find? fun t => t.name = tc.name).any fun t => t.executionMode = .sequential

/-- `execute_tools`. -/
def executeTools (env : Env) (tools : List AgentTool) (calls : List ToolCall) (w : World) :
    Option (List ToolResultMessage × World) :=
  if useSequential tools calls then executeSequential env tools calls w
  else executeParallel env tools w.cancelled calls w

/-- The flag the agent loop finds in the details of a result. -/
def isTerminated (r : ToolResultMessage) : Bool :=
  ((r.details.bind (Json.get "_terminate")).bind Json.asBool).getD false

end Pandaria.Agent
