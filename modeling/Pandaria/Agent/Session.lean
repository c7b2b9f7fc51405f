import Pandaria.Agent.History
import Pandaria.Agent.Loop
import Pandaria.Agent.Strategy
import Pandaria.Agent.Summary

/-!
# A session

`SessionActor` and `SessionStateMachine` from `agent-core/src/harness/session`.
This file is what a session does between the awaits of a call: the pushes, the
changes of state, compaction, and what the result of an agent loop is turned
into. `Call.lean` puts these together into whole calls.

The abort token is the one piece of the state machine that others reach while
a call is running, so its cancelled bit is in the `World`.
-/

namespace Pandaria.Agent

open Pandaria.Ai

/-! ## The state machine -/

structure SessionStateMachine where
  state : SessionState
  errorReason : Option String
  recovery : RecoveryStateMachine
deriving DecidableEq

namespace SessionStateMachine

def new (maxRetries : Nat) : SessionStateMachine :=
  { state := .idle, errorReason := none, recovery := .new maxRetries }

def enterIdle (m : SessionStateMachine) : SessionStateMachine := { m with state := .idle }

def enterRunning (m : SessionStateMachine) : SessionStateMachine := { m with state := .running }

def enterError (m : SessionStateMachine) (reason : String) : SessionStateMachine :=
  { m with state := .error, errorReason := some reason }

def clearError (m : SessionStateMachine) : SessionStateMachine :=
  { m with state := .idle, errorReason := none }

def markSuccess (m : SessionStateMachine) : SessionStateMachine :=
  { m with recovery := m.recovery.markSuccess }

/-- `reset_recovery_only`. -/
def resetRecoveryOnly (m : SessionStateMachine) (maxRetries : Nat) : SessionStateMachine :=
  { m with recovery := .new maxRetries }

end SessionStateMachine

namespace World

/-- `reset_abort_token`: a new token, not cancelled. -/
def resetAbortToken (w : World) : World := { w with cancelled := false }

/-- `abort`. -/
def abort (w : World) : World := { w.observe .abort with cancelled := true }

end World

/-! ## The session -/

structure Skill where
  name : String
  filePath : String
deriving DecidableEq

/-- What a session is created with. `contextWindow` is what
`model_context_window` finds in the metadata of the provider, and
`cronDisabled` is the environment variable. -/
structure SessionConfig where
  loop : AgentLoopConfig
  compactor : Compactor
  contextWindow : Nat
  skills : List Skill
  hasStore : Bool
  cronDisabled : Bool

structure SessionActor where
  history : SessionHistory
  machine : SessionStateMachine
  world : World
  maxRetries : Nat
  /-- `stream_options.max_retries`. -/
  streamMaxRetries : Nat
  strategy : SessionStrategy
  lastUsage : Option Usage

namespace SessionActor

/-- `SessionActor::new`. -/
def new (cfg : SessionConfig) : SessionActor :=
  { history := .new cfg.hasStore
    machine := .new 3
    world := .fresh
    maxRetries := 3
    streamMaxRetries := 3
    strategy := .default
    lastUsage := none }

def emit (a : SessionActor) (e : AgentEvent) : SessionActor := { a with world := a.world.emit e }

/-- An await whose answer nobody looks at. -/
def tick (env : Env) (a : SessionActor) : SessionActor := { a with world := a.world.tick env }

/-- The configuration of the loops a session runs: it never sets a circuit
breaker. -/
def loopConfig (cfg : SessionConfig) (a : SessionActor) : AgentLoopConfig :=
  { cfg.loop with maxRetries := a.streamMaxRetries, circuitBreaker := false }

/-- `push_message`. -/
def pushMessage (env : Env) (a : SessionActor) (m : AgentMessage) : SessionActor :=
  let (id, w) := a.world.newId env
  { a with world := w, history := a.history.push id m }

def pushMessages (env : Env) (a : SessionActor) (ms : List AgentMessage) : SessionActor :=
  ms.foldl (pushMessage env) a

/-- `enter_error` and the event that goes with it. -/
def enterError (a : SessionActor) (reason : String) : SessionActor :=
  { a with machine := a.machine.enterError reason }.emit (.stateChanged .error)

def enterIdle (a : SessionActor) : SessionActor := { a with machine := a.machine.enterIdle }

def markSuccess (a : SessionActor) : SessionActor := { a with machine := a.machine.markSuccess }

def withRecovery (a : SessionActor) (r : RecoveryStateMachine) : SessionActor :=
  { a with machine := { a.machine with recovery := r } }

/-! ## Compaction -/

/-- The entry a compaction leaves. -/
def compactionEntry (env : Env) (fromExtension : Bool) (result : CompactionResult)
    (a : SessionActor) : SessionEntry :=
  .compaction (a.world.newId env).1 result.summary result.firstKeptEntryId result.tokensBefore
    result.details fromExtension (env.clock a.world.now)

/-- Append the compaction entry, then cut the history at the first entry the
compaction keeps. -/
def applyCompaction (env : Env) (fromExtension : Bool) (result : CompactionResult)
    (a : SessionActor) : SessionActor :=
  { a with
    world := (a.world.newId env).2
    history := (a.history.appendCompactionEntry
      (a.compactionEntry env fromExtension result)).truncateBefore result.firstKeptEntryId }

/-- The end of a compaction that went through: its event and its hook. -/
def endCompaction (env : Env) (reason : CompactReason) (willRetry : Bool)
    (result : CompactionResult) (a : SessionActor) : SessionActor :=
  (a.emit (.compactionEnd reason (some result) false willRetry none)).tick env

/-- The compaction `run_auto_compaction` makes, unless a hook blocks it. -/
inductive CompactionChoice where
  | blocked (reason : String)
  | compaction (fromExtension : Bool) (result : CompactionResult)
deriving DecidableEq

/-- The first half of `run_auto_compaction`: the hook is asked, and the
provider if the hook lets it go on. -/
def chooseCompaction (cfg : SessionConfig) (env : Env) (a : SessionActor) :
    Except AgentError CompactionChoice × World :=
  match prepare cfg.compactor a.history.entries with
  | .error e => (.error (.compactionFailed e.toString), a.world)
  | .ok _ =>
      match a.world.await env env.onBeforeCompact with
      | (.block reason, w) => (.ok (.blocked reason), w)
      | (.replace result, w) => (.ok (.compaction true result), w)
      | (.continue_, w) =>
          match Agent.compact cfg.compactor env a.history.entries w with
          | (.error e, w) => (.error (.compactionFailed e.toString), w)
          | (.ok result, w) => (.ok (.compaction false result), w)

/-- `run_auto_compaction`. -/
def runAutoCompaction (cfg : SessionConfig) (env : Env) (reason : CompactReason)
    (willRetry : Bool) (a : SessionActor) : Except AgentError Unit × SessionActor :=
  let a := a.emit (.compactionStart reason)
  match a.chooseCompaction cfg env with
  | (.error e, w) => (.error e, { a with world := w })
  | (.ok (.blocked r), w) =>
      (.ok (), { a with world := w }.emit (.compactionEnd reason none true false (some r)))
  | (.ok (.compaction fromExtension result), w) =>
      (.ok (), ({ a with world := w }.applyCompaction env fromExtension result).endCompaction env
        reason willRetry result)

/-- The manual `compact`, which asks no hook. -/
def compact (cfg : SessionConfig) (env : Env) (a : SessionActor) :
    Except AgentError CompactionResult × SessionActor :=
  match Agent.compact cfg.compactor env a.history.entries a.world with
  | (.error e, w) => (.error (.compactionFailed e.toString), { a with world := w })
  | (.ok result, w) => (.ok result, { a with world := w }.applyCompaction env false result)

/-- The threshold test of the two places that make it. -/
def overThreshold (cfg : SessionConfig) (a : SessionActor) : Bool :=
  shouldCompact (estimateContextTokens a.history.entries) cfg.contextWindow cfg.compactor.config

/-- What `check_compaction` finds to do after a run. -/
def compactionCheck (cfg : SessionConfig) (lastAssistant : AssistantMessage) (a : SessionActor) :
    Except AgentError (Option CompactReason) :=
  if !cfg.compactor.config.enabled then .ok none
  else if lastAssistant.stopReason = .aborted then .ok none
  else if a.history.lastCompactionTimestamp.any (lastAssistant.timestamp ≤ ·) then .ok none
  else if isContextOverflow lastAssistant then
    if a.machine.recovery.overflowAttempted then
      .error (.compactionFailed
        "Context overflow recovery failed after one compact-and-retry attempt")
    else .ok (some .overflow)
  else if a.overThreshold cfg then .ok (some .threshold)
  else .ok none

/-- `check_compaction`. -/
def checkCompaction (cfg : SessionConfig) (env : Env) (lastAssistant : AssistantMessage)
    (a : SessionActor) : Except AgentError Unit × SessionActor :=
  match a.compactionCheck cfg lastAssistant with
  | .error e => (.error e, a)
  | .ok none => (.ok (), a)
  | .ok (some .overflow) =>
      (a.withRecovery { a.machine.recovery with overflowAttempted := true }).runAutoCompaction
        cfg env .overflow false
  | .ok (some reason) => a.runAutoCompaction cfg env reason false

/-! ## What becomes of the result of an agent loop -/

/-- The last assistant message that is not an intermediate one. -/
def lastSettled (msgs : List AgentMessage) : Option AssistantMessage :=
  msgs.reverse.findSome? fun
    | .assistant a => if a.stopReason = .toolUse then none else some a
    | _ => none

/-- `last_usage` after a loop that returned `msgs`. -/
def captureUsage (a : SessionActor) (msgs : List AgentMessage) : SessionActor :=
  match msgs.getLast? with
  | some (.assistant m) => { a with lastUsage := some m.usage }
  | _ => a

/-- What `run_with_messages` does next. -/
inductive Next where
  | backoff (delayMs : Nat)
  | compactAndRetry
  | absorbed (msgs : List AgentMessage)
  | fail (e : AgentError)
deriving DecidableEq

/-- The `Ok` branch of `run_with_messages`. -/
def settleOk (env : Env) (msgs : List AgentMessage) (a : SessionActor) : Next × SessionActor :=
  let a := (a.enterIdle).captureUsage msgs
  match lastSettled msgs with
  | none => (.absorbed msgs, a.pushMessages env msgs)
  | some m =>
      let (action, r) := a.machine.recovery.evaluate m
      let a := a.withRecovery r
      match action with
      | .retryAfterBackoff delayMs => (.backoff delayMs, a)
      | .retryAfterCompaction _ => (.compactAndRetry, a.markSuccess)
      | .abort reason => (.fail (.recoveryAborted reason), a.markSuccess.enterError reason)
      | .continue_ => (.absorbed msgs, a.markSuccess.pushMessages env msgs)

/-- The `Err` branch of `run_with_messages`. -/
def settleErr (e : AgentError) (a : SessionActor) : Next × SessionActor :=
  let a := a.enterIdle
  match e with
  | .cancelled => (.fail .cancelled, a)
  | .contextOverflow msg =>
      let (action, r) := a.machine.recovery.evaluateOverflow msg
      let a := a.withRecovery r
      match action with
      | .retryAfterBackoff delayMs => (.backoff delayMs, a)
      | .retryAfterCompaction _ => (.compactAndRetry, a.markSuccess)
      | .abort reason => (.fail (.compactionFailed reason), a.enterError reason)
      | .continue_ => (.fail (.contextOverflow msg), a.enterError msg)
  | other => (.fail other, a.enterError other.toString)

/-- The two branches together. -/
def settle (env : Env) (result : Except AgentError (List AgentMessage)) (a : SessionActor) :
    Next × SessionActor :=
  match result with
  | .ok msgs => a.settleOk env msgs
  | .error e => a.settleErr e

/-- The head of the loop of `run_with_messages`, before the agent loop is
built. `complete_with_deltas` begins the same way. -/
def enterRun (a : SessionActor) : SessionActor :=
  let a := { a with machine := a.machine.enterRunning }.emit (.stateChanged .running)
  { a with world := a.world.resetAbortToken }

/-- The context the agent loop is started with. -/
def context (env : Env) (a : SessionActor) : List AgentMessage :=
  buildContext (env.clock a.world.now) a.history.entries

/-- The tail of `run_with_messages` begins: the error is cleared and the end
of the run is announced. -/
def concludeRun (a : SessionActor) : SessionActor :=
  { a with machine := a.machine.clearError }.emit (.stateChanged .idle)

/-- The tail of `run_with_messages`, up to `persist_incremental`. A compaction
that fails here is only reported. -/
def finishRun (cfg : SessionConfig) (env : Env) (msgs : List AgentMessage) (a : SessionActor) :
    SessionActor :=
  match lastSettled msgs with
  | some m => (a.concludeRun.checkCompaction cfg env m).2
  | none => a.concludeRun

/-- `persist_incremental` waits for the save in flight; `none` is its panic. -/
def persist (env : Env) (a : SessionActor) : Option SessionActor :=
  let a := if a.history.hasStore && a.history.lastSave then a.tick env else a
  a.history.persistIncremental.map fun (h, _) => { a with history := h }

/-- `reset`: the token is cancelled and stays the one in force. -/
def reset (a : SessionActor) : SessionActor :=
  { a with
    world := a.world.abort
    history := a.history.clearEntries
    machine := ((a.machine.resetRecoveryOnly a.maxRetries).enterIdle).clearError }

/-- `apply_context_strategy_before_run`. The summary only goes into the
prompt, and a failure to make one is ignored. -/
def applyContextStrategy (cfg : SessionConfig) (env : Env) (a : SessionActor) : SessionActor :=
  match a.strategy.context with
  | .accumulate => a
  | .clear => { a with history := a.history.clearEntries }
  | .compact keepLastN =>
      let old := a.history.entries
      if keepLastN < old.length then
        let history := (old.drop (old.length - keepLastN)).foldl
          SessionHistory.appendCompactionEntry a.history.clearEntries
        let (_, w) := Agent.compact cfg.compactor env old a.world
        { a with history := history, world := w }
      else a

end SessionActor

end Pandaria.Agent
