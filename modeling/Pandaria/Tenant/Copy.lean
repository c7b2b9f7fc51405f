import Pandaria.Agent.Call
import Pandaria.Agent.Prompt
import Pandaria.Agent.Ssrf
import Pandaria.Tenant.Supervisor

/-!
# Sessions made from sessions

`create_session`, `update_session`, `clone_session` and `fork_session` of
`tenant/src/manager.rs`, with the part of `SessionBuilder` they go through. What
a session is run with is in three places: in the entry of the session map, in
the actor, and in the configuration of the runtime that both are made from.

A turn is a call of the actor, and runs as in `Agent/Call.lean`.
-/

namespace Pandaria.Tenant

open Pandaria.Ai
open Pandaria.Agent

/-! ## Tools -/

/-- `ToolConfig`. -/
structure ToolConfig where
  name : String
  description : String
  parameters : Json
  endpoint : String
  timeoutMs : Option Nat
  headers : Option (List (String × String))

/-- A tool as the builder makes it. That of a file or of a process works in the
workspace of the tenant. -/
inductive SessionTool where
  | httpProxy (config : ToolConfig) (tenantId : String) (sessionId : Uuid)
  | mediaGeneration (defaultModel : String) (tenantId : String)
  | pawbun (name : String) (tenantId : String)

def SessionTool.name : SessionTool → String
  | .httpProxy config .. => config.name
  | .mediaGeneration .. => "generate_media"
  | .pawbun name _ => name

/-- The tools of `build_pawbun_tool_refs`. -/
def pawbunNames : List String := ["file_read", "file_write", "directory_list", "code_execute"]

/-- A tool is skipped when there is one of its name already. -/
def registerTool (tools : List SessionTool) (tool : SessionTool) : List SessionTool :=
  if tool.name ∈ tools.map SessionTool.name then tools else tools ++ [tool]

/-! ## What sessions are made from -/

/-- `WebhookConfig`. -/
structure WebhookConfig where
  url : String
  events : List String
  secret : Option String
deriving DecidableEq

structure CreateSessionParams where
  title : Option String
  systemPrompt : Option String
  tools : List ToolConfig
  webhook : Option WebhookConfig
  builtinToolsEnabled : Bool
  builtinToolsDisabled : List String
  strategy : SessionStrategy

/-- The configuration of the runtime, which never changes. `calls` is what the
calls of all sessions have in common, and `agentTool` how a tool is run. -/
structure RuntimeConfig where
  defaultModel : String
  defaultSystemPrompt : String
  /-- Whether a provider and a registry of media are set. -/
  media : Bool
  ssrfPolicy : SsrfPolicy
  parseUrl : String → Option Url
  calls : SessionConfig
  agentTool : SessionTool → AgentTool

/-- What a creation gets from elsewhere. -/
structure Creation where
  /-- Of `reserve_session`. -/
  reserved : Except TenantError Unit
  sessionId : Uuid
  /-- The skills of the tenant that are on the disk. -/
  skills : List LoadedSkill

inductive CreateError where
  | refused (e : TenantError)
  | badRequest (message : String)
deriving DecidableEq

/-- What the next turn of an actor is run with, less its history. -/
structure ActorSettings where
  tenantId : String
  sessionId : Uuid
  model : String
  promptBuilder : PromptBuilder
  skills : List LoadedSkill
  tools : List SessionTool
  /-- Of the webhook listeners that have been added. -/
  webhooks : List WebhookConfig

/-- `SessionInfo`. -/
structure SessionInfo where
  id : Uuid
  tenantId : String
  systemPrompt : Option String
  title : Option String
  model : String
deriving DecidableEq

/-- An entry of the session map. -/
structure SessionRecord where
  settings : ActorSettings
  /-- The call that has the actor locked, or the last one that had. -/
  call : Call
  info : SessionInfo
  webhook : Option WebhookConfig
  originalTools : List ToolConfig
  builtinToolsEnabled : Bool
  builtinToolsDisabled : List String
  strategy : SessionStrategy

/-! ## Creation -/

/-- The tools of `SessionBuilder::build`: external ones, then media, then the
built-in ones. -/
def assembleTools (rt : RuntimeConfig) (tenantId : String) (sessionId : Uuid)
    (external : List ToolConfig) (builtinEnabled : Bool) (disabled : List String) :
    List SessionTool :=
  let proxies := external.map fun config => .httpProxy config tenantId sessionId
  let media := if rt.media then [.mediaGeneration rt.defaultModel tenantId] else []
  let builtins := if builtinEnabled then
      (pawbunNames.filter fun name => !disabled.contains name).map fun name =>
        .pawbun name tenantId
    else []
  (proxies ++ media ++ builtins).foldl registerTool []

/-- `SessionBuilder::build` under the default model: what the actor is run
with, and the actor. `none` is a panic in the prompt. -/
def buildSession (rt : RuntimeConfig) (c : Creation) (tenantId systemPrompt : String)
    (params : CreateSessionParams) : Option (ActorSettings × SessionActor) :=
  (promptFor systemPrompt c.skills).map fun builder =>
    ({ tenantId := tenantId
       sessionId := c.sessionId
       model := rt.defaultModel
       promptBuilder := builder
       skills := c.skills
       tools := assembleTools rt tenantId c.sessionId params.tools params.builtinToolsEnabled
         params.builtinToolsDisabled
       webhooks := [] },
     { SessionActor.new rt.calls with strategy := params.strategy })

/-- The two checks of an endpoint. -/
def validateEndpoint (rt : RuntimeConfig) (what url : String) : Except CreateError Unit :=
  if (rt.parseUrl url).isNone then .error (.badRequest (what ++ "_invalid: " ++ url))
  else if rt.ssrfPolicy.isInternalEndpoint rt.parseUrl url then
    .error (.badRequest (what ++ "_forbidden: " ++ url))
  else .ok ()

def validateExternalToolEndpoints (rt : RuntimeConfig) : List ToolConfig → Except CreateError Unit
  | [] => .ok ()
  | tool :: rest =>
      match validateEndpoint rt "tool_endpoint" tool.endpoint with
      | .error e => .error e
      | .ok () => validateExternalToolEndpoints rt rest

def setupWebhook (rt : RuntimeConfig) (webhook : Option WebhookConfig) (a : ActorSettings) :
    Except CreateError ActorSettings :=
  match webhook with
  | none => .ok a
  | some webhook =>
      match validateEndpoint rt "webhook_url" webhook.url with
      | .error e => .error e
      | .ok () => .ok { a with webhooks := a.webhooks ++ [webhook] }

def insertActiveSession (rt : RuntimeConfig) (settings : ActorSettings) (actor : SessionActor)
    (systemPrompt : String) (params : CreateSessionParams) : SessionRecord :=
  { settings := settings
    call := .ended actor (.ok [])
    info := {
      id := settings.sessionId
      tenantId := settings.tenantId
      systemPrompt := some systemPrompt
      title := params.title
      model := rt.defaultModel }
    webhook := params.webhook
    originalTools := params.tools
    builtinToolsEnabled := params.builtinToolsEnabled
    builtinToolsDisabled := params.builtinToolsDisabled
    strategy := params.strategy }

/-- `create_session` of a tenant that is there. -/
def createSession (rt : RuntimeConfig) (c : Creation) (tenantId : String)
    (params : CreateSessionParams) : Option (Except CreateError SessionRecord) :=
  match c.reserved with
  | .error e => some (.error (.refused e))
  | .ok () =>
      match validateExternalToolEndpoints rt params.tools with
      | .error e => some (.error e)
      | .ok () =>
          let systemPrompt := params.systemPrompt.getD rt.defaultSystemPrompt
          (buildSession rt c tenantId systemPrompt params).map fun built =>
            match setupWebhook rt params.webhook built.1 with
            | .error e => .error e
            | .ok settings =>
                .ok (insertActiveSession rt settings built.2 systemPrompt params)

/-! ## What happens to a session -/

/-- What the calls of the session are run with. -/
def ActorSettings.config (rt : RuntimeConfig) (a : ActorSettings) : SessionConfig :=
  { rt.calls with
    loop := { rt.calls.loop with model := a.model, tools := a.tools.map rt.agentTool }
    skills := a.skills.map LoadedSkill.toSkill }

/-- `set_system_prompt`; `none` is a panic in the prompt. -/
def ActorSettings.setSystemPrompt (a : ActorSettings) (systemPrompt : String) :
    Option ActorSettings :=
  (promptFor systemPrompt a.skills).map fun builder => { a with promptBuilder := builder }

structure SessionUpdates where
  title : Option (Option String)
  model : Option String
  systemPrompt : Option String
deriving DecidableEq

inductive RecordEvent where
  | updateSession (updates : SessionUpdates)
  /-- A `send_message` within the quota. -/
  | sendMessage (content : List Content)
  | compactSession
  /-- The call in progress goes one step further. -/
  | advance

namespace SessionRecord

def setTitle (title : Option String) (s : SessionRecord) : SessionRecord :=
  { s with info := { s.info with title := title } }

def setModel (model : String) (s : SessionRecord) : SessionRecord :=
  { s with
    info := { s.info with model := model }
    settings := { s.settings with model := model } }

/-- A panic leaves the actor as it is. -/
def setSystemPrompt (systemPrompt : String) (s : SessionRecord) : SessionRecord :=
  { s with
    info := { s.info with systemPrompt := some systemPrompt }
    settings := (s.settings.setSystemPrompt systemPrompt).getD s.settings }

/-- `update_session`, less the waiting. -/
def updateSession (u : SessionUpdates) (s : SessionRecord) : SessionRecord :=
  let s := match u.title with
    | some title => s.setTitle title
    | none => s
  let s := match u.model with
    | some model => s.setModel model
    | none => s
  match u.systemPrompt with
  | some systemPrompt => s.setSystemPrompt systemPrompt
  | none => s

/-- All but the title waits for the actor. -/
def step (rt : RuntimeConfig) (env : Env) (s : SessionRecord) : RecordEvent → SessionRecord
  | .updateSession u =>
      if s.call.inProgress && (u.model.isSome || u.systemPrompt.isSome) then s
      else s.updateSession u
  | .sendMessage content =>
      if s.call.inProgress then s
      else { s with call := .promptWithContent content s.call.actor }
  | .compactSession =>
      if s.call.inProgress then s
      else { s with call := Op.begin (s.settings.config rt) env s.call.actor .compact }
  | .advance => { s with call := s.call.step (s.settings.config rt) env }

def run (rt : RuntimeConfig) (env : Env) (s : SessionRecord) (events : List RecordEvent) :
    SessionRecord :=
  events.foldl (step rt env) s

/-! ## Copies -/

/-- The parameters that `clone_session` and `fork_session` take from a session. -/
def template (s : SessionRecord) (title : Option String) : CreateSessionParams :=
  { title := title
    systemPrompt := some s.settings.promptBuilder.render
    tools := s.originalTools
    webhook := s.webhook
    builtinToolsEnabled := s.builtinToolsEnabled
    builtinToolsDisabled := s.builtinToolsDisabled
    strategy := s.strategy }

def cloneSession (rt : RuntimeConfig) (c : Creation) (title : Option String) (s : SessionRecord) :
    Option (Except CreateError SessionRecord) :=
  createSession rt c s.settings.tenantId (s.template title)

/-- The loop of `push_message`. -/
def pushMessages (env : Env) (messages : List AgentMessage) (s : SessionRecord) : SessionRecord :=
  { s with call := { s.call with actor := s.call.actor.pushMessages env messages } }

/-- `fork_session`. Between the template and the messages the source is
unlocked, so it may have gone on to `later` meanwhile. -/
def forkSession (rt : RuntimeConfig) (env : Env) (c : Creation) (title : Option String)
    (s later : SessionRecord) : Option (Except CreateError SessionRecord) :=
  (createSession rt c s.settings.tenantId (s.template title)).map fun
    | .error e => .error e
    | .ok new => .ok (new.pushMessages env later.call.actor.history.messages)

/-! ## What a copy is to be -/

def history (s : SessionRecord) : SessionHistory := s.call.actor.history

end SessionRecord

/-! ## Small inputs -/

end Pandaria.Tenant
