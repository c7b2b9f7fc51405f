import Pandaria.Ai.Serde
import Pandaria.Comp.Team

/-!
# Workflow definitions

`tavern-comp/src/workflow.rs` with the types it takes from `tavern-core`: a
workflow, and how it is written as JSON and read from it. The encoder and decoder of
a workflow are the ones in the source, the others are derived. Writing a number
that is not finite and reading an `f32` is the business of `serde_json`
(`F32Format`). The check of a definition has a module of its own.
-/

namespace Pandaria.Comp

open Pandaria.Ai Pandaria.Lib

/-- Every exponent but the highest is that of a number. -/
def isFinite (bits : UInt32) : Bool := (bits >>> 23) &&& 255 ≠ 255

/-- `f32` in JSON, by its bits. There are no numbers but finite ones in JSON, the
others are written as `null`, and that is none. -/
structure F32Format where
  codec : JsonCodec UInt32
  finite : ∀ x, isFinite x = true → codec.RoundTrips x
  notFinite : ∀ x, isFinite x = false → codec.write x = .null
  null : ∀ x, codec.read .null ≠ .ok x

namespace Workflow

inductive SignalTimeoutAction where
  | fail
  | reject
deriving DecidableEq

structure WebhookConfig where
  url : String
  secret : Option String
  timeoutSecs : Option UInt64
  retries : Option UInt64
  retryDelay : Option UInt64
deriving DecidableEq

structure RouterConfig where
  upstream : String
deriving DecidableEq

/-- `tavern_core::ModelConfig`, the temperature by its bits. -/
structure ModelConfig where
  provider : String
  name : String
  temperature : UInt32
deriving DecidableEq

structure ManagerConfig where
  agentId : String
  instructions : Option String
deriving DecidableEq

inductive Process where
  | sequential
  | hierarchical (manager : ManagerConfig)
deriving DecidableEq

structure PlanningConfig where
  enabled : Bool
  planningAgent : Option String
deriving DecidableEq

structure Step where
  id : String
  agentId : String
  task : String
  dependsOn : List String
  outputKey : Option String
  timeout : Option UInt64
  retries : Option UInt64
  retryDelay : Option UInt64
  waitForSignal : Option String
  signalTimeout : Option UInt64
  signalTimeoutAction : Option SignalTimeoutAction
  breakpoint : Bool
  modelOverride : Option ModelConfig
  expectedOutput : Option String
  orDependsOn : List String
  router : Option RouterConfig
deriving DecidableEq

structure InputDef where
  name : String
  required : Bool
  default : Option Json
deriving DecidableEq

structure OutputDef where
  name : String
  value : String
deriving DecidableEq

end Workflow

structure Workflow where
  id : String
  name : String
  description : Option String
  steps : List Workflow.Step
  inputs : List Workflow.InputDef
  outputs : List Workflow.OutputDef
  process : Workflow.Process
  planning : Option Workflow.PlanningConfig
  webhook : Option Workflow.WebhookConfig
  schedule : Option String
  scheduleInputs : Json
deriving DecidableEq

namespace Workflow

open JsonCodec

/-! ## The derived codecs -/

def SignalTimeoutAction.codec : JsonCodec SignalTimeoutAction :=
  variants [("fail", .fail), ("reject", .reject)] fun
    | .fail => "fail"
    | .reject => "reject"

def WebhookConfig.codec : JsonCodec WebhookConfig where
  write w := .obj [
    ("url", string.write w.url),
    ("secret", string.option.write w.secret),
    ("timeout_secs", uint64.option.write w.timeoutSecs),
    ("retries", uint64.option.write w.retries),
    ("retry_delay", uint64.option.write w.retryDelay)]
  read v := do
    let fields ← fields "struct WebhookConfig" v
    return {
      url := ← string.field "url" fields
      secret := ← string.optField "secret" fields
      timeoutSecs := ← uint64.optField "timeout_secs" fields
      retries := ← uint64.optField "retries" fields
      retryDelay := ← uint64.optField "retry_delay" fields }

def RouterConfig.codec : JsonCodec RouterConfig where
  write r := .obj [("upstream", string.write r.upstream)]
  read v := do
    let fields ← fields "struct RouterConfig" v
    return { upstream := ← string.field "upstream" fields }

/-- The temperature that is not given is `0.7`. -/
def ModelConfig.codec (f32 : F32Format) : JsonCodec ModelConfig where
  write m := .obj [
    ("provider", string.write m.provider),
    ("name", string.write m.name),
    ("temperature", f32.codec.write m.temperature)]
  read v := do
    let fields ← fields "struct ModelConfig" v
    return {
      provider := ← string.field "provider" fields
      name := ← string.field "name" fields
      temperature := ← fieldOr f32.codec "temperature" 0x3f333333 fields }

def ManagerConfig.codec : JsonCodec ManagerConfig where
  write m := .obj [
    ("agent_id", string.write m.agentId),
    ("instructions", string.option.write m.instructions)]
  read v := do
    let fields ← fields "struct ManagerConfig" v
    return {
      agentId := ← string.field "agent_id" fields
      instructions := ← string.optField "instructions" fields }

def PlanningConfig.codec : JsonCodec PlanningConfig where
  write p := .obj [
    ("enabled", bool.write p.enabled),
    ("planning_agent", string.option.write p.planningAgent)]
  read v := do
    let fields ← fields "struct PlanningConfig" v
    return {
      enabled := ← bool.field "enabled" fields
      planningAgent := ← string.optField "planning_agent" fields }

def Step.codec (f32 : F32Format) : JsonCodec Step where
  write s := .obj [
    ("id", string.write s.id),
    ("agent_id", string.write s.agentId),
    ("task", string.write s.task),
    ("depends_on", string.vec.write s.dependsOn),
    ("output_key", string.option.write s.outputKey),
    ("timeout", uint64.option.write s.timeout),
    ("retries", uint64.option.write s.retries),
    ("retry_delay", uint64.option.write s.retryDelay),
    ("wait_for_signal", string.option.write s.waitForSignal),
    ("signal_timeout", uint64.option.write s.signalTimeout),
    ("signal_timeout_action", SignalTimeoutAction.codec.option.write s.signalTimeoutAction),
    ("breakpoint", bool.write s.breakpoint),
    ("model_override", (ModelConfig.codec f32).option.write s.modelOverride),
    ("expected_output", string.option.write s.expectedOutput),
    ("or_depends_on", string.vec.write s.orDependsOn),
    ("router", RouterConfig.codec.option.write s.router)]
  read v := do
    let fields ← fields "struct Step" v
    return {
      id := ← string.field "id" fields
      agentId := ← string.field "agent_id" fields
      task := ← string.field "task" fields
      dependsOn := ← string.vec.fieldOr "depends_on" [] fields
      outputKey := ← string.optField "output_key" fields
      timeout := ← uint64.optField "timeout" fields
      retries := ← uint64.optField "retries" fields
      retryDelay := ← uint64.optField "retry_delay" fields
      waitForSignal := ← string.optField "wait_for_signal" fields
      signalTimeout := ← uint64.optField "signal_timeout" fields
      signalTimeoutAction := ← SignalTimeoutAction.codec.optField "signal_timeout_action" fields
      breakpoint := ← bool.fieldOr "breakpoint" false fields
      modelOverride := ← (ModelConfig.codec f32).optField "model_override" fields
      expectedOutput := ← string.optField "expected_output" fields
      orDependsOn := ← string.vec.fieldOr "or_depends_on" [] fields
      router := ← RouterConfig.codec.optField "router" fields }

def InputDef.codec : JsonCodec InputDef where
  write i := .obj [
    ("name", string.write i.name),
    ("required", bool.write i.required),
    ("default", value.option.write i.default)]
  read v := do
    let fields ← fields "struct InputDef" v
    return {
      name := ← string.field "name" fields
      required := ← bool.fieldOr "required" true fields
      default := ← value.optField "default" fields }

def OutputDef.codec : JsonCodec OutputDef where
  write o := .obj [("name", string.write o.name), ("value", string.write o.value)]
  read v := do
    let fields ← fields "struct OutputDef" v
    return {
      name := ← string.field "name" fields
      value := ← string.field "value" fields }

/-! ## The codec of a workflow -/

/-- The process takes one key, or two. -/
def Process.write : Process → Fields
  | .sequential => [("process", .str "sequential")]
  | .hierarchical cfg =>
      [("process", .str "hierarchical"), ("manager", ManagerConfig.codec.write cfg)]

def Process.read (process : Option String) (manager : Option ManagerConfig) :
    Except SerdeError Process :=
  match process with
  | none => .ok .sequential
  | some process =>
      if process = "sequential" then .ok .sequential
      else if process = "hierarchical" then
        match manager with
        | some cfg => .ok (.hierarchical cfg)
        | none => .error (.custom "process is 'hierarchical' but 'manager' section is missing")
      else .error (.custom ("unknown process type: '" ++ process ++
        "', expected 'sequential' or 'hierarchical'"))

def codec (f32 : F32Format) : JsonCodec Workflow where
  write w := .obj ([
    ("id", string.write w.id),
    ("name", string.write w.name),
    ("description", string.option.write w.description),
    ("steps", (Step.codec f32).vec.write w.steps),
    ("inputs", InputDef.codec.vec.write w.inputs),
    ("outputs", OutputDef.codec.vec.write w.outputs)] ++
    w.process.write ++ [
    ("planning", PlanningConfig.codec.option.write w.planning),
    ("webhook", WebhookConfig.codec.option.write w.webhook),
    ("schedule", string.option.write w.schedule),
    ("schedule_inputs", value.write w.scheduleInputs)])
  read v := do
    let fields ← fields "struct Helper" v
    let id ← string.field "id" fields
    let name ← string.field "name" fields
    let description ← string.optField "description" fields
    let steps ← (Step.codec f32).vec.field "steps" fields
    let inputs ← InputDef.codec.vec.fieldOr "inputs" [] fields
    let outputs ← OutputDef.codec.vec.fieldOr "outputs" [] fields
    let process ← string.optField "process" fields
    let manager ← ManagerConfig.codec.optField "manager" fields
    let planning ← PlanningConfig.codec.optField "planning" fields
    let webhook ← WebhookConfig.codec.optField "webhook" fields
    let schedule ← string.optField "schedule" fields
    let scheduleInputs ← value.fieldOr "schedule_inputs" .null fields
    let process ← Process.read process manager
    return { id, name, description, steps, inputs, outputs, process, planning, webhook, schedule,
             scheduleInputs }

end Workflow

end Pandaria.Comp

/-!
## The check of a workflow

`validate_static` of `tavern-comp/src/workflow.rs`: the passes over a definition,
in their order, each up to its first error. The pass over the dependencies is that
of a hierarchical workflow only.
-/

namespace Pandaria.Comp.Workflow

open Pandaria.Ai

/-- The errors of `CompError` that the check returns. -/
inductive CheckError where
  | configParse (path reason : String)
  | stepNotFound (id : String)
  | duplicateStep (id : String)
  | duplicateOutputKey (key : String)
deriving DecidableEq

/-- The `Display` form. -/
def CheckError.toString : CheckError → String
  | .configParse path reason => "config parse failed at " ++ path ++ ": " ++ reason
  | .stepNotFound id => "step '" ++ id ++ "' not found in workflow"
  | .duplicateStep id => "duplicate step id '" ++ id ++ "' in workflow"
  | .duplicateOutputKey key => "duplicate output key '" ++ key ++ "' in workflow"

def invalid (reason : String) : Except CheckError Unit := .error (.configParse "<workflow>" reason)

def maxSteps : Nat := 100
def maxHierarchicalTasks : Nat := 50
def maxInputs : Nat := 50
def maxOutputs : Nat := 50
def maxStepTaskLen : Nat := 10000
def maxStepIdLen : Nat := 64
def maxAgentIdLen : Nat := 64
def maxOutputKeyLen : Nat := 64

def maxAllowed : Process → Nat
  | .sequential => maxSteps
  | .hierarchical _ => maxHierarchicalTasks

def validateStepCount (w : Workflow) : Except CheckError Unit :=
  if w.steps.isEmpty then invalid "workflow must have at least one step"
  else if maxAllowed w.process < w.steps.length then
    invalid ("workflow steps exceed limit of " ++ Nat.repr (maxAllowed w.process))
  else .ok ()

/-- The inputs, and the outputs: not too many of them, and all have a name. -/
def validateNames (kind : String) (limit : Nat) (names : List String) : Except CheckError Unit :=
  if limit < names.length then
    invalid ("workflow " ++ kind ++ "s exceed limit of " ++ Nat.repr limit)
  else if names.any fun name => (trim name.toList).isEmpty then
    invalid (kind ++ " name must not be empty")
  else .ok ()

def validateInputs (w : Workflow) : Except CheckError Unit :=
  validateNames "input" maxInputs (w.inputs.map InputDef.name)

def validateOutputs (w : Workflow) : Except CheckError Unit :=
  validateNames "output" maxOutputs (w.outputs.map OutputDef.name)

/-- The loop over the steps, with the ids it has seen. -/
def validateSteps (seen : List String) : List Step → Except CheckError Unit
  | [] => .ok ()
  | step :: rest =>
      if maxStepIdLen < step.id.utf8ByteSize then
        invalid ("step id '" ++ step.id ++ "' exceeds max length of " ++ Nat.repr maxStepIdLen)
      else if maxAgentIdLen < step.agentId.utf8ByteSize then
        invalid ("agent_id for step '" ++ step.id ++ "' exceeds max length of " ++
          Nat.repr maxAgentIdLen)
      else if maxStepTaskLen < step.task.utf8ByteSize then
        invalid ("task for step '" ++ step.id ++ "' exceeds max length of " ++
          Nat.repr maxStepTaskLen)
      else if step.id ∈ seen then .error (.duplicateStep step.id)
      else validateSteps (step.id :: seen) rest

/-- Nothing is asked of the dependencies of a sequential workflow. -/
def validateProcess (w : Workflow) : Except CheckError Unit :=
  match w.process with
  | .sequential => .ok ()
  | .hierarchical cfg =>
      if isValidId cfg.agentId = false then
        invalid ("invalid manager agent_id '" ++ cfg.agentId ++ "'")
      else
        match (w.steps.flatMap Step.dependsOn).find? fun dep => dep ∉ w.steps.map Step.id with
        | some dep => .error (.stepNotFound dep)
        | none => .ok ()

/-- The loop over the output keys, with those it has seen. -/
def validateOutputKeys (seen : List String) : List Step → Except CheckError Unit
  | [] => .ok ()
  | step :: rest =>
      match step.outputKey with
      | none => validateOutputKeys seen rest
      | some key =>
          if key.isEmpty then
            invalid ("output_key for step '" ++ step.id ++ "' must not be empty")
          else if maxOutputKeyLen < key.utf8ByteSize then
            invalid ("output_key for step '" ++ step.id ++ "' exceeds max length of " ++
              Nat.repr maxOutputKeyLen)
          else if key ∈ seen then .error (.duplicateOutputKey key)
          else validateOutputKeys (key :: seen) rest

def validateStatic (w : Workflow) : Except CheckError Unit := do
  if isValidId w.id = false then invalid ("invalid workflow id '" ++ w.id ++ "'")
  w.validateStepCount
  w.validateInputs
  w.validateOutputs
  validateSteps [] w.steps
  w.validateProcess
  validateOutputKeys [] w.steps

end Pandaria.Comp.Workflow
