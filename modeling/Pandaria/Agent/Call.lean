import Pandaria.Agent.Session

/-!
# Calls

The public calls of `SessionActor`: `prompt` with its strategies,
`prompt_with_content`, `continue_`, `complete_with_deltas`, `reset` and the
small ones between them. A call in progress is a machine of its own, and
`Call.step` takes it one step further: one turn of the agent loop, one
backoff, one compaction. Nothing about a call needs fuel this way. A call that
never returns is a machine that never reaches `returned`, and a statement
about every state of a call is an induction on its steps.
-/

namespace Pandaria.Agent

open Pandaria.Ai

/-- The local variables of `run_goal_sync`. -/
structure GoalRun where
  task : String
  goal : Goal
  attempt : Nat
  lastEval : Option CriteriaEvaluation
  /-- The run of `ReturnLast`, after the last attempt. -/
  exhausted : Bool
deriving DecidableEq

inductive CallPhase where
  /-- At the head of the loop of `run_goal_sync`. -/
  | attempt (g : GoalRun)
  /-- At the start of `prompt_with_content`. -/
  | prompt (content : List Content)
  /-- At the head of the loop of `run_with_messages`. -/
  | head
  /-- The agent loop of `run_with_messages` is running. -/
  | looping (l : AgentLoop)
  | backoff (delayMs : Nat)
  /-- Before `run_auto_compaction` of a context overflow. -/
  | compactAndRetry
  /-- After the result of the loop has been pushed. -/
  | threshold (msgs : List AgentMessage)
  | finish (msgs : List AgentMessage)
  /-- The agent loop of `complete_with_deltas` is running. -/
  | deltas (l : AgentLoop)
  | returned (result : Except AgentError (List AgentMessage))
  | panicked

/-- A call, in progress or over. `goal` is set while `run_goal_sync` is
waiting for a run. `attempts` counts the agent loops `run_with_messages` has
started, and `backoffs` and `compactions` its retries of the two kinds; the
code keeps none of these. -/
structure Call where
  actor : SessionActor
  phase : CallPhase
  goal : Option GoalRun
  attempts : Nat
  backoffs : Nat
  compactions : Nat

namespace Call

/-- The session after a call that is over. -/
def ended (a : SessionActor) (result : Except AgentError (List AgentMessage)) : Call :=
  { actor := a
    phase := .returned result
    goal := none
    attempts := 0
    backoffs := 0
    compactions := 0 }

/-- The world a call sees now: a running agent loop has it. -/
def world (c : Call) : World :=
  match c.phase with
  | .looping l | .deltas l => l.locals.world
  | _ => c.actor.world

def inProgress (c : Call) : Bool :=
  match c.phase with
  | .returned _ | .panicked => false
  | _ => true

/-- `prompt_with_content` or `run_with_messages` returns: to the caller, or to
`run_goal_sync`. -/
def leave (c : Call) (a : SessionActor) (result : Except AgentError (List AgentMessage)) : Call :=
  match c.goal, result with
  | none, result => { c with actor := a, phase := .returned result }
  | some _, .error e => { c with actor := a, phase := .returned (.error e) }
  | some g, .ok msgs =>
      let eval := evaluateCriteria msgs g.goal.criteria
      if g.exhausted || eval.allPassed then
        { c with actor := a, phase := .returned (.ok msgs) }
      else
        { c with
          actor := a
          phase := .attempt { g with attempt := g.attempt + 1, lastEval := some eval }
          goal := none
          attempts := 0
          backoffs := 0
          compactions := 0 }

/-! ## Starting a call -/

/-- A call of the session, with the record of its world started anew. -/
def begin (a : SessionActor) (phase : CallPhase) : Call :=
  { actor := { a with world := { a.world with trace := [] } }
    phase := phase
    goal := none
    attempts := 0
    backoffs := 0
    compactions := 0 }

def promptWithContent (content : List Content) (a : SessionActor) : Call :=
  begin a (.prompt content)

/-- `run_goal_sync`. -/
def runGoalSync (task : String) (goal : Goal) (a : SessionActor) : Call :=
  begin a (.attempt
    { task := task, goal := goal, attempt := 0, lastEval := none, exhausted := false })

/-- `prompt`. The background loop that `Loop` spawns after its first run is
not part of the session. -/
def prompt (cfg : SessionConfig) (text : String) (a : SessionActor) : Call :=
  match a.strategy.rhythm, a.strategy.termination with
  | .once, .once => promptWithContent [.text text none] a
  | .once, .goal goal => runGoalSync text goal a
  | .loop, termination =>
      if cfg.cronDisabled then begin a (.returned (.error .loopDisabled))
      else match termination with
        | .once => promptWithContent [.text text none] a
        | .goal goal => runGoalSync text goal a

/-- `continue_`. -/
def continue_ (a : SessionActor) : Call :=
  if a.machine.state = .error then
    begin a (.returned (.error (.sessionInError (a.machine.errorReason.getD ""))))
  else begin a .head

/-- `complete_with_deltas`, up to the start of its agent loop. -/
def completeWithDeltas (env : Env) (text : String) (a : SessionActor) : Call :=
  let c := begin a .head
  let user := .user { content := [.text text none], timestamp := env.clock c.actor.world.now }
  let a := (c.actor.pushMessage env user).enterRun
  { c with actor := a, phase := .deltas (.start env (a.context env) a.world) }

/-! ## One step -/

/-- `parse_skill_invocation`. -/
def parseSkillInvocation (text : String) : Option String :=
  let marker := "/skill:".toList
  if marker.isPrefixOf text.toList then some (String.ofList (text.toList.drop marker.length))
  else none

/-- `auto_restore`, which awaits the store if it asks it. -/
def restore (env : Env) (a : SessionActor) : SessionActor :=
  let h := a.history.autoRestore (env.loadSession a.world.now)
  let a := if a.history.needsRestore && a.history.hasStore then a.tick env else a
  { a with history := h }

/-- The branch of `prompt_with_content` for `/skill:name`. -/
def stepSkill (cfg : SessionConfig) (env : Env) (name : String) (c : Call) (a : SessionActor) :
    Call :=
  match cfg.skills.find? fun s => s.name = name with
  | none => c.leave a (.error (.skillNotFound name))
  | some skill =>
      match a.world.await env env.readSkill with
      | (.error e, w) =>
          c.leave { a with world := w }
            (.error (.skillLoadFailed ("failed to read skill " ++ skill.name ++ ": " ++ e)))
      | (.ok content, w) =>
          let msg := .user {
            content := [.text ("[Skill: " ++ skill.name ++ "]\n" ++ content) none]
            timestamp := env.clock w.now }
          { c with
            actor := { a with world := { w with steerQueue := w.steerQueue ++ [msg] } }
            phase := .head }

/-- `prompt_with_content`, up to `run_with_messages`. -/
def stepPrompt (cfg : SessionConfig) (env : Env) (content : List Content) (c : Call) : Call :=
  let a := c.actor
  if a.machine.state = .error then
    c.leave a (.error (.sessionInError (a.machine.errorReason.getD "")))
  else
    let a := restore env a
    let skill := match content with
      | [.text text _] => parseSkillInvocation text
      | _ => none
    match skill with
    | some name => stepSkill cfg env name c a
    | none =>
        let user := .user { content := content, timestamp := env.clock a.world.now }
        { c with actor := a.pushMessage env user, phase := .head }

/-- The loop of `run_goal_sync`, from its head to the next prompt. -/
def stepAttempt (cfg : SessionConfig) (env : Env) (g : GoalRun) (c : Call) : Call :=
  if g.attempt < g.goal.maxAttempts then
    let text := if g.attempt = 0 then buildInitialGoalPrompt g.task g.goal.criteria
      else buildRetryPrompt g.task g.goal.criteria g.attempt g.goal.maxAttempts g.lastEval
    { c with
      actor := c.actor.applyContextStrategy cfg env
      phase := .prompt [.text text none]
      goal := some g }
  else match g.goal.onExhausted with
    | .abort =>
        { c with
          phase := .returned (.error
            (.goalNotMet (g.goal.criteria.map GoalCriterion.id) g.goal.maxAttempts)) }
    | .returnLast =>
        { c with phase := .prompt [.text g.task none], goal := some { g with exhausted := true } }

/-- How an agent loop is started: for which attempt, with which context, in
which world. -/
abbrev StartLoop := Nat → List AgentMessage → World → AgentLoop

/-- The head of the loop of `run_with_messages`. -/
def stepHead (start : StartLoop) (env : Env) (c : Call) : Call :=
  let a := c.actor.enterRun
  { c with
    actor := a
    phase := .looping (start c.attempts (a.context env) a.world)
    attempts := c.attempts + 1 }

/-- The result of an agent loop of `run_with_messages`. -/
def stepSettle (env : Env) (result : Except AgentError (List AgentMessage)) (w : World)
    (c : Call) : Call :=
  match ({ c.actor with world := w }).settle env result with
  | (.backoff delayMs, a) => { c with actor := a, phase := .backoff delayMs }
  | (.compactAndRetry, a) => { c with actor := a, phase := .compactAndRetry }
  | (.absorbed msgs, a) => { c with actor := a, phase := .threshold msgs }
  | (.fail e, a) => c.leave a (.error e)

/-- The `select!` between the backoff and the abort token. -/
def stepBackoff (env : Env) (c : Call) : Call :=
  let a := (c.actor.tick env).markSuccess
  if a.world.cancelled && !env.sleepWins c.actor.world.now then
    c.leave a (.error (.recoveryAborted "recovery aborted via backoff timeout"))
  else { c with actor := a, phase := .head, backoffs := c.backoffs + 1 }

def stepCompactAndRetry (cfg : SessionConfig) (env : Env) (c : Call) : Call :=
  match c.actor.runAutoCompaction cfg env .overflow true with
  | (.error e, a) => c.leave a (.error e)
  | (.ok (), a) => { c with actor := a, phase := .head, compactions := c.compactions + 1 }

/-- The threshold compaction after a run. -/
def stepThreshold (cfg : SessionConfig) (env : Env) (msgs : List AgentMessage) (c : Call) : Call :=
  if cfg.compactor.config.enabled && c.actor.overThreshold cfg then
    match c.actor.runAutoCompaction cfg env .threshold false with
    | (.error e, a) => c.leave a (.error e)
    | (.ok (), a) => { c with actor := a, phase := .finish msgs }
  else { c with phase := .finish msgs }

def stepFinish (cfg : SessionConfig) (env : Env) (msgs : List AgentMessage) (c : Call) : Call :=
  let a := c.actor.finishRun cfg env msgs
  match a.persist env with
  | none => { c with actor := a, phase := .panicked }
  | some a => c.leave a (.ok msgs)

/-- The result of the agent loop of `complete_with_deltas`. -/
def stepDeltas (env : Env) (result : Except AgentError (List AgentMessage)) (w : World)
    (c : Call) : Call :=
  let a := ({ c.actor with world := w }).enterIdle
  match result with
  | .error e => { c with actor := a, phase := .returned (.error e) }
  | .ok msgs =>
      { c with actor := (a.captureUsage msgs).pushMessages env msgs, phase := .returned (.ok msgs) }

/-- One step of a call whose agent loops are started by `start`. -/
def stepWith (start : StartLoop) (cfg : SessionConfig) (env : Env) (c : Call) : Call :=
  match c.phase with
  | .attempt g => stepAttempt cfg env g c
  | .prompt content => stepPrompt cfg env content c
  | .head => stepHead start env c
  | .looping l =>
      match l.phase with
      | .returned result => stepSettle env result l.locals.world c
      | .panicked =>
          { c with actor := { c.actor with world := l.locals.world }, phase := .panicked }
      | _ => { c with phase := .looping (l.step (c.actor.loopConfig cfg) env) }
  | .backoff _ => stepBackoff env c
  | .compactAndRetry => stepCompactAndRetry cfg env c
  | .threshold msgs => stepThreshold cfg env msgs c
  | .finish msgs => stepFinish cfg env msgs c
  | .deltas l =>
      match l.phase with
      | .returned result => stepDeltas env result l.locals.world c
      | .panicked =>
          { c with actor := { c.actor with world := l.locals.world }, phase := .panicked }
      | _ => { c with phase := .deltas (l.step (c.actor.loopConfig cfg) env) }
  | .returned _ | .panicked => c

/-- One step of a call. -/
def step (cfg : SessionConfig) (env : Env) (c : Call) : Call :=
  stepWith (fun _ => AgentLoop.start env) cfg env c

end Call

/-! ## The deltas of `complete_with_deltas` -/

/-- A delta is sent to `text_stream_tx` right after its event. -/
def Obs.delta? : Obs → Option String
  | .event (.messageUpdate _ delta) => some delta
  | _ => none

/-- What has been sent. -/
def sentDeltas (w : World) : List String := w.trace.filterMap Obs.delta?

/-- A call of `complete_with_deltas` beside the task it has spawned. -/
structure DeltaCall where
  call : Call
  channel : List String
  deltas : List String

/-- The call goes one step further, or the task takes a delta out of the channel. -/
inductive DeltaEvent where
  | run
  | collect
deriving DecidableEq

namespace DeltaCall

def start (env : Env) (text : String) (a : SessionActor) : DeltaCall :=
  { call := .completeWithDeltas env text a, channel := [], deltas := [] }

def step (cfg : SessionConfig) (env : Env) (s : DeltaCall) : DeltaEvent → DeltaCall
  | .run =>
      let call := s.call.step cfg env
      let sent := (sentDeltas call.world).drop (sentDeltas s.call.world).length
      { s with call := call, channel := s.channel ++ sent }
  | .collect =>
      match s.channel with
      | [] => s
      | delta :: rest => { s with channel := rest, deltas := s.deltas ++ [delta] }

def run (cfg : SessionConfig) (env : Env) (s : DeltaCall) (events : List DeltaEvent) : DeltaCall :=
  events.foldl (step cfg env) s

/-- The texts of the assistant messages. -/
def fullText (msgs : List AgentMessage) : String :=
  "\n".intercalate (msgs.filterMap fun
    | .assistant a => some (" ".intercalate (a.content.filterMap fun
        | .text text _ => some text
        | _ => none))
    | _ => none)

/-- What the call returns where it stands, with the deltas there are. -/
def result? (s : DeltaCall) : Option (Except AgentError (String × List String)) :=
  match s.call.phase with
  | .returned (.ok msgs) => some (.ok (fullText msgs, s.deltas))
  | .returned (.error e) => some (.error e)
  | _ => none

end DeltaCall

structure AgentOutputChunk where
  content : Json
  usage : Option Json

/-- The chunks `execute_stream` makes of the result. -/
def outputChunks (tryParseJson : String → Json) (usage : Option Json) (fullText : String)
    (deltas : List String) : List AgentOutputChunk :=
  let chunks := deltas.map fun delta => ⟨.str delta, none⟩
  if !chunks.isEmpty || fullText ≠ "" then chunks ++ [⟨tryParseJson fullText, usage⟩] else chunks

/-! ## A session over its calls -/

/-- The calls of a session. From `compact` on they are over in one step. -/
inductive Op where
  | prompt (text : String)
  | promptWithContent (content : List Content)
  | continue_
  | completeWithDeltas (text : String)
  | compact
  | pushMessage (m : AgentMessage)
  | steer (m : AgentMessage)
  | followUp (m : AgentMessage)
  | abort
  | reset
  | flush
  | setMaxRetries (n : Nat)
  | setStrategy (s : SessionStrategy)

/-- The start of a call, of which only the outcome of the short ones that
return something else than messages is kept. -/
def Op.begin (cfg : SessionConfig) (env : Env) (a : SessionActor) : Op → Call
  | .prompt text => .prompt cfg text a
  | .promptWithContent content => .promptWithContent content a
  | .continue_ => .continue_ a
  | .completeWithDeltas text => .completeWithDeltas env text a
  | .compact =>
      match a.compact cfg env with
      | (.error e, a) => .ended a (.error e)
      | (.ok _, a) => .ended a (.ok [])
  | .pushMessage m => .ended (a.pushMessage env m) (.ok [])
  | .steer m =>
      .ended { a with world := { a.world with steerQueue := a.world.steerQueue ++ [m] } } (.ok [])
  | .followUp m =>
      .ended { a with world := { a.world with followUpQueue := a.world.followUpQueue ++ [m] } }
        (.ok [])
  | .abort => .ended { a with world := a.world.abort } (.ok [])
  | .reset => .ended a.reset (.ok [])
  | .flush =>
      let a := if a.history.lastSave then a.tick env else a
      let (h, entries) := a.history.flush
      let a := { a with history := h }
      match entries with
      | none => .ended a (.ok [])
      | some _ =>
          match a.world.await env env.saveSession with
          | (.ok (), w) => .ended { a with world := w } (.ok [])
          | (.error e, w) => .ended { a with world := w } (.error e)
  | .setMaxRetries n => .ended { a with maxRetries := n, streamMaxRetries := n } (.ok [])
  | .setStrategy s => .ended { a with strategy := s } (.ok [])

/-- What can happen to a session: its call goes one step further, or the next
one is made. A call borrows the session, so there is one at a time. -/
inductive SessionEvent where
  | advance
  | op (o : Op)

def sessionStep (cfg : SessionConfig) (env : Env) (c : Call) : SessionEvent → Call
  | .advance => c.step cfg env
  | .op o => if c.inProgress then c else o.begin cfg env c.actor

/-- A new session, before its first call. -/
def newSession (cfg : SessionConfig) : Call := .ended (.new cfg) (.ok [])

/-! ## Small inputs

What the runs on fixed inputs further on are put together from. -/

/-- A session without tools, skills or a store, whose compactions keep
`keepRecentTokens` tokens. -/
def plainConfig (keepRecentTokens : Nat) : SessionConfig :=
  { loop := {
      model := "model"
      providerName := "provider"
      tools := []
      maxRetries := 0
      circuitBreaker := false
      transformMessages := id }
    compactor := {
      config := { enabled := true, reserveTokens := 0, keepRecentTokens := keepRecentTokens }
      fileOpExtractor := fun _ => ⟨[], [], []⟩ }
    contextWindow := 0
    skills := []
    hasStore := false
    cronDisabled := false }

def userText (text : String) : AgentMessage :=
  .user { content := [.text text none], timestamp := 0 }

def plainReply (content : List Content) (stopReason : StopReason) (errorMessage : Option String) :
    AssistantMessage :=
  { content := content
    provider := "provider"
    api := ⟨"provider", "model"⟩
    model := "model"
    usage := .zero
    stopReason := stopReason
    responseId := none
    errorMessage := errorMessage
    timestamp := 0 }

/-- A response that says `text` and is done. -/
def saying (text : String) : List AssistantMessageEvent :=
  [.done .stop (plainReply [.text text none] .stop none)]

/-- A response that is an error. -/
def complaining (text : String) : List AssistantMessageEvent :=
  [.error (plainReply [] .error (some text))]

/-- A session with this history. -/
def plainSession (cfg : SessionConfig) (messages : List AgentMessage) : SessionActor :=
  { SessionActor.new cfg with
    history := { SessionHistory.new cfg.hasStore with
      entries := messages.zipIdx.map fun (m, i) => .message i m } }

end Pandaria.Agent
