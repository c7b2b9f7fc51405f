import Pandaria.Agent.PathGuard
import Pandaria.Agent.Prompt
import Pandaria.Agent.Tool
import Pandaria.Lib.ByteText
import Pandaria.Lib.Chain

/-!
# Hooks, and dispatchers made of dispatchers

`HookDispatcher` and `CombinedDispatcher` from `agent-core/src/hook`, with what
the agent loop and the tool executor do with an answer.

A dispatcher is an object with a state, shared with whatever else it likes,
and its methods may panic; a loop that calls one then goes on with the default
answer. `CombinedDispatcher` itself needs none of that, so its methods are
given in any monad. Time is not modelled: no hook is late.
-/

namespace Pandaria.Agent.Hook

open Pandaria.Ai Pandaria.Lib

/-! ## Prompts and their mutations

The fragments of `Agent/Prompt.lean` with what a mutation selects them by. -/

inductive FragmentKind where
  | basePersona
  | tenantContext
  | skillsDirectory
  | skillBody
  | runtimeInjection
  | extension
  | safetyGuard
deriving DecidableEq

inductive FragmentSource where
  | tenantDefault
  | sessionParam
  | skillsInjector
  | extension (name : String)
  | compactionSummary
  | system
deriving DecidableEq

structure PromptFragment extends Agent.PromptFragment where
  kind : FragmentKind
  source : FragmentSource
deriving DecidableEq

structure PromptBuilder where
  fragments : List PromptFragment
deriving DecidableEq

structure PromptMutation where
  replaceAll : Option String
  removeIds : List String
  removeSources : List FragmentSource
  removeKinds : List FragmentKind
  upsertFragments : List PromptFragment
deriving DecidableEq

/-- Where a fragment stands in the rendered text, in bytes. -/
structure RenderedFragment where
  id : String
  kind : FragmentKind
  source : FragmentSource
  byteOffset : Nat
  byteLen : Nat
  estimatedTokens : Nat
deriving DecidableEq

structure RenderedPrompt where
  text : List Char
  fragments : List RenderedFragment
deriving DecidableEq

namespace PromptBuilder

def fromBase (base : String) : PromptBuilder :=
  ⟨[{ id := "base-persona-0", kind := .basePersona, source := .sessionParam,
      content := base.toList, priority := 0 }]⟩

/-- `upsert_fragment`; `none` is the panic of the truncation. -/
def upsertFragment (b : PromptBuilder) (f : PromptFragment) : Option PromptBuilder :=
  (truncate Agent.PromptBuilder.maxFragmentBytes f.content).map fun content =>
    let f := { f with content := content }
    let fragments := match b.fragments.findIdx? fun g => g.id = f.id with
      | some pos => b.fragments.set pos f
      | none => b.fragments ++ [f]
    ⟨fragments.insertionSort fun f g => f.priority ≤ g.priority⟩

def removeBySource (b : PromptBuilder) (source : FragmentSource) : PromptBuilder :=
  ⟨b.fragments.filter fun f => f.source ≠ source⟩

def removeByKind (b : PromptBuilder) (kind : FragmentKind) : PromptBuilder :=
  ⟨b.fragments.filter fun f => f.kind ≠ kind⟩

/-- Only the first fragment of that id. -/
def removeById (b : PromptBuilder) (id : String) : PromptBuilder :=
  ⟨b.fragments.eraseP fun f => f.id = id⟩

def applyMutation (b : PromptBuilder) (m : PromptMutation) : Option PromptBuilder :=
  match m.replaceAll with
  | some text => some (fromBase text)
  | none =>
      let b := m.removeIds.foldl removeById b
      let b := m.removeSources.foldl removeBySource b
      let b := m.removeKinds.foldl removeByKind b
      m.upsertFragments.foldlM upsertFragment b

/-- `inject_skills_into_builder`. -/
def injectSkills (b : PromptBuilder) (skills : List LoadedSkill) : Option PromptBuilder :=
  if skills.isEmpty then some b
  else
    let xml := formatSkillsForPrompt skills
    if xml.isEmpty then some b
    else b.upsertFragment {
      id := "skills-directory", kind := .skillsDirectory, source := .skillsInjector,
      content := xml, priority := 50 }

/-- A builder as far as rendering looks at it. -/
def plain (b : PromptBuilder) : Agent.PromptBuilder :=
  ⟨b.fragments.map PromptFragment.toPromptFragment⟩

def render (b : PromptBuilder) : String := b.plain.render

def renderOption (b : PromptBuilder) : Option String :=
  if b.render.isEmpty then none else some b.render

/-- One turn of the loop of `render_with_metadata`. -/
def renderFragment (p : RenderedPrompt) (f : PromptFragment) : RenderedPrompt :=
  let trimmed := trimEnd f.content
  if trimmed.isEmpty then p
  else
    let text := if p.text.isEmpty then p.text else p.text ++ ['\n']
    let offset := ByteText.size text
    let text := text ++ trimmed
    { text := text
      fragments := p.fragments ++ [{
        id := f.id
        kind := f.kind
        source := f.source
        byteOffset := offset
        byteLen := ByteText.size text - offset
        estimatedTokens := (trimmed.length + 3) / 4 }] }

def renderWithMetadata (b : PromptBuilder) : RenderedPrompt :=
  b.fragments.foldl renderFragment ⟨[], []⟩

/-- How the agent loop takes up an answer about the prompt, before the run and
before each request: the mutation first, and then the builder that replaces it. -/
def update (b : PromptBuilder) (skills : List LoadedSkill) (promptMutation : Option PromptMutation)
    (systemPrompt : Option PromptBuilder) : Option PromptBuilder := do
  let mutated ← match promptMutation with
    | some m => b.applyMutation m
    | none => some b
  match systemPrompt with
  | some builder => builder.injectSkills skills
  | none => some mutated

/-- The fragment a context strategy puts its summary into. -/
def strategyFragment (summary : String) : PromptFragment :=
  { id := "strategy-compaction", kind := .runtimeInjection, source := .system,
    content := ("## Prior context (compacted)\n\n" ++ summary).toList, priority := 150 }

/-- What `apply_context_strategy_before_run` makes of the prompt of the session `a`, beside
what `SessionActor.applyContextStrategy` makes of its history. -/
def applyContextStrategy (persona : String) (skills : List LoadedSkill) (cfg : SessionConfig)
    (env : Env) (a : SessionActor) (b : PromptBuilder) : Option PromptBuilder :=
  match a.strategy.context with
  | .accumulate => some b
  | .clear => (fromBase persona).injectSkills skills
  | .compact keepLastN =>
      if keepLastN < a.history.entries.length then
        let summary := match (compact cfg.compactor env a.history.entries a.world).1 with
          | .ok result => result.summary
          | .error _ => "(compaction failed)"
        b.upsertFragment (strategyFragment summary)
      else some b

end PromptBuilder

/-! ## What a hook is asked -/

structure ToolCallCtx where
  tenantId : String
  sessionId : String
  toolName : String
  toolCallId : String
  input : Json
deriving DecidableEq

structure ToolResultCtx extends ToolCallCtx where
  content : List Content
  details : Option Json
  isError : Bool
deriving DecidableEq

structure CompactCtx where
  tenantId : String
  sessionId : String
  preparation : CompactionPreparation
  entries : List SessionEntry
  reason : CompactReason
deriving DecidableEq

structure ContextCtx where
  tenantId : String
  sessionId : String
  messages : List AgentMessage
deriving DecidableEq

structure BeforeAgentStartCtx where
  tenantId : String
  sessionId : String
  systemPrompt : Option String
  promptBuilder : PromptBuilder
  messages : List AgentMessage
  tools : List Json
  model : String
deriving DecidableEq

structure ToolDef where
  name : String
  description : String
  parameters : Json
deriving DecidableEq

inductive ReasoningLevel where
  | minimal
  | low
  | medium
  | high
  | xHigh
deriving DecidableEq

/-- The two fractions are `f32`s, which are only handed on; they stand here as
their bits. -/
structure ProviderStreamOptions where
  maxTokens : Option Nat
  temperature : Option UInt32
  topP : Option UInt32
  reasoning : Option ReasoningLevel
  maxRetries : Option Nat
  timeout : Option Nat
deriving DecidableEq

structure ProviderRequestCtx where
  tenantId : String
  sessionId : String
  model : String
  systemPrompt : Option String
  promptBuilder : PromptBuilder
  messages : List AgentMessage
  turnIndex : Nat
  tools : Option (List ToolDef)
  options : ProviderStreamOptions
deriving DecidableEq

structure ProviderResponseCtx where
  tenantId : String
  sessionId : String
  model : String
  content : List Content
  turnIndex : Nat
  attempt : Nat
  messagesBefore : List AgentMessage
  stopReason : StopReason
deriving DecidableEq

/-- What the hooks without an answer are told. -/
inductive Observation where
  | turnEnd (tenantId sessionId : String) (turnIndex : Nat) (messages : List AgentMessage)
      (usage : Usage) (elapsedMs : Nat)
  | agentEnd (tenantId sessionId : String) (messages : List AgentMessage)
  | sessionStart (tenantId sessionId systemPrompt : String) (tools : List Json)
  | toolExecutionStart (tenantId sessionId toolName toolCallId : String) (input : Json)
  | toolExecutionEnd (tenantId sessionId toolName toolCallId : String) (success : Bool)
  | compactEnd (tenantId sessionId : String) (compactedMessages : List AgentMessage)
      (tokenSavings : Nat) (result : Option CompactionResult)
deriving DecidableEq

/-! ## What it answers -/

structure ToolCallMutation where
  input : Option Json
deriving DecidableEq

structure ContextMutation where
  messages : Option (List AgentMessage)
deriving DecidableEq

structure BeforeAgentStartMutation where
  systemPrompt : Option PromptBuilder
  promptMutation : Option PromptMutation
  messages : Option (List AgentMessage)
deriving DecidableEq

structure ProviderRequestMutation where
  systemPrompt : Option PromptBuilder
  promptMutation : Option PromptMutation
  messages : Option (List AgentMessage)
  tools : Option (Option (List ToolDef))
  options : Option ProviderStreamOptions
deriving DecidableEq

/-! ## Dispatchers -/

/-- `HookDispatcher`. The six hooks that only observe are one here. -/
@[ext]
structure HookDispatcher (m : Type → Type) where
  onToolCall : ToolCallCtx → m (HookDecision × ToolCallMutation)
  onBeforeCompact : CompactCtx → m CompactDecision
  onToolResult : ToolResultCtx → m ToolResultMutation
  onContext : ContextCtx → m ContextMutation
  onBeforeAgentStart : BeforeAgentStartCtx → m BeforeAgentStartMutation
  onBeforeProviderRequest : ProviderRequestCtx → m ProviderRequestMutation
  onAfterProviderResponse : ProviderResponseCtx → m ProviderResponseMutation
  observe : Observation → m Unit

def ToolCallMutation.default : ToolCallMutation := ⟨none⟩

def ToolResultMutation.default : ToolResultMutation := ⟨none, none, none, none⟩

def ContextMutation.default : ContextMutation := ⟨none⟩

def BeforeAgentStartMutation.default : BeforeAgentStartMutation := ⟨none, none, none⟩

def ProviderRequestMutation.default : ProviderRequestMutation := ⟨none, none, none, none, none⟩

def ProviderResponseMutation.default : ProviderResponseMutation := ⟨none, none⟩

/-- The methods a dispatcher has when it does not define its own. -/
def HookDispatcher.passThrough {m : Type → Type} [Monad m] : HookDispatcher m where
  onToolCall _ := pure (.continue_, .default)
  onBeforeCompact _ := pure .continue_
  onToolResult _ := pure ToolResultMutation.default
  onContext _ := pure .default
  onBeforeAgentStart _ := pure .default
  onBeforeProviderRequest _ := pure .default
  onAfterProviderResponse _ := pure ProviderResponseMutation.default
  observe _ := pure ()

/-! ## `CombinedDispatcher` -/

def isBlock : HookDecision → Bool
  | .continue_ => false
  | .block _ => true

def isDecided : CompactDecision → Bool
  | .continue_ => false
  | .block _ | .replace _ => true

/-- Everybody is asked about the result as the tool made it. -/
def toolResultPipeline : Pipeline ToolResultCtx ToolResultMutation ToolResultMutation where
  start _ := ToolResultMutation.default
  ask c _ := c
  absorb mutation next :=
    { content := next.content.or mutation.content
      details := next.details.or mutation.details
      isError := next.isError.or mutation.isError
      terminate := next.terminate.or mutation.terminate }
  answer mutation := mutation
  empty := ToolResultMutation.default
  ask_start _ := rfl
  absorb_start _ _ := rfl
  ask_absorb _ _ _ := rfl
  absorb_absorb _ _ _ := by simp [Option.or_assoc]
  absorb_empty _ := rfl

def contextPipeline : Pipeline ContextCtx ContextMutation (List AgentMessage) where
  start c := c.messages
  ask c messages := { c with messages := messages }
  absorb messages mutation := mutation.messages.getD messages
  answer messages := ⟨some messages⟩
  empty := .default
  ask_start _ := rfl
  absorb_start _ _ := rfl
  ask_absorb _ _ _ := rfl
  absorb_absorb _ _ _ := rfl
  absorb_empty _ := rfl

/-- The prompt so far is handed on without the mutation so far. -/
structure StartLocals where
  promptMutation : Option PromptMutation
  promptBuilder : PromptBuilder
  messages : List AgentMessage

def startPipeline : Pipeline BeforeAgentStartCtx BeforeAgentStartMutation StartLocals where
  start c := { promptMutation := none, promptBuilder := c.promptBuilder, messages := c.messages }
  ask c s := { c with promptBuilder := s.promptBuilder, messages := s.messages }
  absorb s next :=
    { promptMutation := next.promptMutation.or s.promptMutation
      promptBuilder := next.systemPrompt.getD s.promptBuilder
      messages := next.messages.getD s.messages }
  answer s :=
    { systemPrompt := some s.promptBuilder
      promptMutation := s.promptMutation
      messages := some s.messages }
  empty := .default
  ask_start _ := rfl
  absorb_start _ _ := rfl
  ask_absorb _ _ _ := rfl
  absorb_absorb _ _ _ := by simp [Option.or_assoc]
  absorb_empty _ := rfl

structure RequestLocals extends StartLocals where
  tools : Option (List ToolDef)
  options : ProviderStreamOptions

def requestPipeline : Pipeline ProviderRequestCtx ProviderRequestMutation RequestLocals where
  start c :=
    { promptMutation := none
      promptBuilder := c.promptBuilder
      messages := c.messages
      tools := c.tools
      options := c.options }
  ask c s :=
    { c with
      promptBuilder := s.promptBuilder
      messages := s.messages
      tools := s.tools
      options := s.options }
  absorb s next :=
    { promptMutation := next.promptMutation.or s.promptMutation
      promptBuilder := next.systemPrompt.getD s.promptBuilder
      messages := next.messages.getD s.messages
      tools := next.tools.getD s.tools
      options := next.options.getD s.options }
  answer s :=
    { systemPrompt := some s.promptBuilder
      promptMutation := s.promptMutation
      messages := some s.messages
      tools := some s.tools
      options := some s.options }
  empty := .default
  ask_start _ := rfl
  absorb_start _ _ := rfl
  ask_absorb _ _ _ := rfl
  absorb_absorb _ _ _ := by simp [Option.or_assoc]
  absorb_empty _ := rfl

def responsePipeline :
    Pipeline ProviderResponseCtx ProviderResponseMutation ProviderResponseMutation where
  start _ := ProviderResponseMutation.default
  ask c mutation :=
    { c with
      content := mutation.content.getD c.content
      stopReason := mutation.stopReason.getD c.stopReason }
  absorb mutation next :=
    { content := next.content.or mutation.content
      stopReason := next.stopReason.or mutation.stopReason }
  answer mutation := mutation
  empty := ProviderResponseMutation.default
  ask_start _ := rfl
  absorb_start _ _ := rfl
  ask_absorb _ a b := by
    cases hc : b.content <;> cases hs : b.stopReason <;> simp
  absorb_absorb _ _ _ := by simp [Option.or_assoc]
  absorb_empty _ := rfl

def CombinedDispatcher {m : Type → Type} [Monad m] (chain : List (HookDispatcher m)) :
    HookDispatcher m where
  onToolCall ctx := firstFinal (fun answer => isBlock answer.1) (.continue_, .default)
    (chain.map fun d => d.onToolCall ctx)
  onBeforeCompact ctx := firstFinal isDecided .continue_ (chain.map fun d => d.onBeforeCompact ctx)
  onToolResult := toolResultPipeline.run (chain.map HookDispatcher.onToolResult)
  onContext := contextPipeline.run (chain.map HookDispatcher.onContext)
  onBeforeAgentStart := startPipeline.run (chain.map HookDispatcher.onBeforeAgentStart)
  onBeforeProviderRequest :=
    requestPipeline.run (chain.map HookDispatcher.onBeforeProviderRequest)
  onAfterProviderResponse :=
    responsePipeline.run (chain.map HookDispatcher.onAfterProviderResponse)
  observe o := chain.forM fun d => d.observe o

/-! ## What is done with an answer -/

/-- A hook runs on a state and may panic. -/
abbrev HookM (σ : Type) := OptionT (StateM σ)

/-- `with_timeout_from`, for hooks that are never late. -/
def withTimeout {σ α : Type} (future : HookM σ α) (default : α) : StateM σ α :=
  (fun r : Option α => r.getD default) <$> future.run

/-- What the tool executor goes on with. -/
inductive ToolCallStep where
  | blocked (reason : String)
  | execute (input : Json)
deriving DecidableEq

def ToolCallStep.of (arguments : Json) : HookDecision × ToolCallMutation → ToolCallStep
  | (.block reason, _) => .blocked reason
  | (.continue_, mutation) => .execute (mutation.input.getD arguments)

/-- `StreamOptions`, what a request hook can change of it. -/
structure StreamOptions where
  timeout : Nat
  maxTokens : Option Nat
  temperature : Option UInt32
  topP : Option UInt32
  reasoning : Option ReasoningLevel
  maxRetries : Nat
deriving DecidableEq

def ProviderStreamOptions.fromOptions (o : StreamOptions) : ProviderStreamOptions :=
  { maxTokens := o.maxTokens
    temperature := o.temperature
    topP := o.topP
    reasoning := o.reasoning
    maxRetries := some o.maxRetries
    timeout := some o.timeout }

/-- Only the fields that are set count. -/
def ProviderStreamOptions.apply (m : ProviderStreamOptions) (o : StreamOptions) : StreamOptions :=
  { maxTokens := m.maxTokens.or o.maxTokens
    temperature := m.temperature.or o.temperature
    topP := m.topP.or o.topP
    reasoning := m.reasoning.or o.reasoning
    maxRetries := m.maxRetries.getD o.maxRetries
    timeout := m.timeout.getD o.timeout }

structure LlmContext where
  systemPrompt : Option String
  messages : List AgentMessage
  tools : Option (List ToolDef)
deriving DecidableEq

/-- `apply_provider_request_mutation` once it has a builder. -/
def ProviderRequestMutation.finish (mutation : ProviderRequestMutation) (ctx : LlmContext)
    (opts : StreamOptions) (b : PromptBuilder) : PromptBuilder × LlmContext × StreamOptions :=
  (b, { systemPrompt := b.renderOption
        messages := mutation.messages.getD ctx.messages
        tools := mutation.tools.getD ctx.tools },
    (mutation.options.map fun options => options.apply opts).getD opts)

/-- `apply_provider_request_mutation`; `none` when the prompt panics. -/
def applyProviderRequestMutation (b : PromptBuilder) (ctx : LlmContext) (opts : StreamOptions)
    (mutation : ProviderRequestMutation) (skills : List LoadedSkill) :
    Option (PromptBuilder × LlmContext × StreamOptions) :=
  (b.update skills mutation.promptMutation mutation.systemPrompt).map (mutation.finish ctx opts)

/-- What the hook calls of an agent loop read of its configuration. -/
structure AgentLoopConfig where
  tenantId : String
  sessionId : String
  model : String
  tools : List ToolDef
  promptBuilder : PromptBuilder
  streamOptions : StreamOptions
  skills : List LoadedSkill
deriving DecidableEq

def buildToolDefs (tools : List ToolDef) : Option (List ToolDef) :=
  if tools.isEmpty then none else some tools

def buildToolValueDefs (tools : List ToolDef) : List Json :=
  tools.map fun t =>
    .obj [("description", .str t.description), ("name", .str t.name), ("parameters", t.parameters)]

/-! ## Hook points -/

/-- A place where the agent loop or the tool executor calls a hook, with what
it has there. -/
inductive HookPoint where
  | toolCall (ctx : ToolCallCtx)
  | toolResult (ctx : ToolCallCtx) (result : AgentToolResult)
  | beforeCompact (ctx : CompactCtx)
  | context (ctx : ContextCtx)
  | beforeAgentStart (config : AgentLoopConfig) (initialMessages : List AgentMessage)
  | beforeProviderRequest (config : AgentLoopConfig) (builder : PromptBuilder)
      (turnIndex : Nat) (messages : List AgentMessage)
  | afterProviderResponse (config : AgentLoopConfig) (turnIndex attempt : Nat)
      (messagesBefore : List AgentMessage) (reply : AssistantMessage)
  | observation (o : Observation)

namespace HookPoint

/-- What comes of a hook call: all that the caller goes on with. -/
def Effect : HookPoint → Type
  | toolCall _ => ToolCallStep
  | toolResult .. => AgentToolResult
  | beforeCompact _ => CompactDecision
  | context _ => List AgentMessage
  | beforeAgentStart .. => Option (PromptBuilder × List AgentMessage)
  | beforeProviderRequest .. => Option (PromptBuilder × LlmContext × StreamOptions)
  | afterProviderResponse .. => AssistantMessage
  | observation _ => Unit

def startCtx (config : AgentLoopConfig) (initialMessages : List AgentMessage) :
    BeforeAgentStartCtx :=
  { tenantId := config.tenantId
    sessionId := config.sessionId
    systemPrompt := config.promptBuilder.renderOption
    messages := initialMessages
    promptBuilder := config.promptBuilder
    tools := buildToolValueDefs config.tools
    model := config.model }

/-- The context `run_turn` has before it asks. -/
def llmContext (config : AgentLoopConfig) (builder : PromptBuilder)
    (messages : List AgentMessage) : LlmContext :=
  { systemPrompt := builder.renderOption
    messages := messages
    tools := buildToolDefs config.tools }

def requestCtx (config : AgentLoopConfig) (builder : PromptBuilder) (turnIndex : Nat)
    (messages : List AgentMessage) : ProviderRequestCtx :=
  let ctx := llmContext config builder messages
  { tenantId := config.tenantId
    sessionId := config.sessionId
    model := config.model
    turnIndex := turnIndex
    systemPrompt := ctx.systemPrompt
    promptBuilder := builder
    messages := ctx.messages
    tools := ctx.tools
    options := .fromOptions config.streamOptions }

def responseCtx (config : AgentLoopConfig) (turnIndex attempt : Nat)
    (messagesBefore : List AgentMessage) (reply : AssistantMessage) : ProviderResponseCtx :=
  { tenantId := config.tenantId
    sessionId := config.sessionId
    model := config.model
    turnIndex := turnIndex
    attempt := attempt
    messagesBefore := messagesBefore
    content := reply.content
    stopReason := reply.stopReason }

end HookPoint

/-- What comes of the call of a hook of `d`. -/
def HookDispatcher.effect {σ : Type} (d : HookDispatcher (HookM σ)) :
    (p : HookPoint) → StateM σ p.Effect
  | .toolCall ctx =>
      ToolCallStep.of ctx.input <$> withTimeout (d.onToolCall ctx) (.continue_, .default)
  | .toolResult ctx result =>
      (fun mutation : ToolResultMutation => mutation.apply result) <$>
        withTimeout (d.onToolResult { ctx with
          content := result.content, details := result.details, isError := result.isError })
          ToolResultMutation.default
  | .beforeCompact ctx => withTimeout (d.onBeforeCompact ctx) .continue_
  | .context ctx =>
      (fun mutation : ContextMutation => mutation.messages.getD ctx.messages) <$>
        withTimeout (d.onContext ctx) .default
  | .beforeAgentStart config initialMessages =>
      (fun mutation : BeforeAgentStartMutation =>
        (config.promptBuilder.update config.skills mutation.promptMutation
          mutation.systemPrompt).map fun b =>
            (b, mutation.messages.getD initialMessages)) <$>
        withTimeout (d.onBeforeAgentStart (HookPoint.startCtx config initialMessages)) .default
  | .beforeProviderRequest config builder turnIndex messages =>
      (fun mutation : ProviderRequestMutation =>
        applyProviderRequestMutation builder (HookPoint.llmContext config builder messages)
          config.streamOptions mutation config.skills) <$>
        withTimeout
          (d.onBeforeProviderRequest (HookPoint.requestCtx config builder turnIndex messages))
          .default
  | .afterProviderResponse config turnIndex attempt messagesBefore reply =>
      (fun mutation : ProviderResponseMutation => mutation.apply reply) <$>
        withTimeout (d.onAfterProviderResponse
          (HookPoint.responseCtx config turnIndex attempt messagesBefore reply))
          ProviderResponseMutation.default
  | .observation o => withTimeout (d.observe o) ()

end Pandaria.Agent.Hook

/-!
## The tool executor and its dispatcher

`ToolExecutor` from `agent-core/src/harness/tool.rs` with a dispatcher in it. The
pipeline of a call is `executeToolCall`, which reads off the environment what the
hook before the call answers; here the dispatcher gives that answer. The metrics
are left out.
-/

namespace Pandaria.Agent.Hook

open Pandaria.Ai

structure ToolExecutor (σ : Type) where
  tenantId : String
  sessionId : String
  hookDispatcher : HookDispatcher (HookM σ)

namespace ToolExecutor

variable {σ : Type}

def callCtx (e : ToolExecutor σ) (tc : ToolCall) : ToolCallCtx :=
  { tenantId := e.tenantId
    sessionId := e.sessionId
    toolName := tc.name
    toolCallId := tc.id
    input := tc.arguments }

/-- What the executor hears, when its dispatcher is in the state `s`. -/
def asked (e : ToolExecutor σ) (tc : ToolCall) (s : σ) : HookDecision × ToolCallMutation :=
  (withTimeout (e.hookDispatcher.onToolCall (e.callCtx tc)) (.continue_, .default) s).1

def executeToolCall (e : ToolExecutor σ) (env : Env) (tc : ToolCall) (s : σ) (w : World) :
    Option (Except AgentError ToolResultMessage × World) :=
  Agent.executeToolCall
    { env with onToolCall := fun _ => ((e.asked tc s).1, (e.asked tc s).2.input) } tc w

end ToolExecutor

/-- The default dispatcher as one of a chain, its other hooks given. -/
def guarded {m : Type → Type} [Monad m] (d : DefaultHookDispatcher) (rest : HookDispatcher m) :
    HookDispatcher m :=
  { rest with
    onToolCall := fun ctx =>
      let (decision, input) := d.onToolCall
        { tenantId := ctx.tenantId, toolName := ctx.toolName, input := ctx.input }
      pure (decision, ⟨input⟩) }

/-- What the hooks of a call answer, if they are those of the default dispatcher. -/
def guardedEnv (d : DefaultHookDispatcher) (tenantId : String) (env : Env) (tc : ToolCall)
    (w : World) : Env :=
  { env with
    onToolCall := fun _ =>
      d.onToolCall { tenantId := tenantId, toolName := tc.name, input := tc.arguments }
    onToolResult := fun _ =>
      match (env.execute (w.now + 1)).result with
      | .ok result => d.onToolResult { tenantId := tenantId, details := result.details }
      | .error _ => ToolResultMutation.default }

/-- `execute_tool_call` of an executor with the default dispatcher in it. -/
def executeGuarded (d : DefaultHookDispatcher) (tenantId : String) (env : Env) (tc : ToolCall)
    (w : World) : Option (Except AgentError ToolResultMessage × World) :=
  Agent.executeToolCall (guardedEnv d tenantId env tc w) tc w

end Pandaria.Agent.Hook
