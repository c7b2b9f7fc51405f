import Pandaria.Comp.Instance

/-!
# The report on an execution

`tavern-comp/src/replay.rs`. `ExecutionReplayer::replay` reads the stream of an
instance, throws out the events the options do not ask for, and folds what is
left: the state, the timeline and the summary all come out of the one loop.

`Utc::now()` is read wherever an event has no time of its own. What a reading
answers is an argument here, reading by reading; instants count nanoseconds.
A report of `none` is a panic of `apply`. The derived encoder of events is a
parameter.
-/

namespace Pandaria.Comp

open Pandaria.Ai

/-! ## The report -/

structure StateDiff where
  contextChanged : Bool
  contextKeysAdded : List String
  contextKeysModified : List String
  stepStatusBefore : Option String
  stepStatusAfter : Option String
  outputPreview : Option String
deriving DecidableEq

def StateDiff.default : StateDiff := ⟨false, [], [], none, none, none⟩

structure TimelineEntry where
  sequence : Nat
  timestamp : SystemTime
  eventType : String
  stepId : Option String
  stateDiff : Option StateDiff
  durationMs : Option Nat
  rawPayload : Option Json
deriving DecidableEq

structure ReplaySummary where
  totalSteps : Nat
  completedSteps : Nat
  failedSteps : Nat
  totalDurationMs : Nat
  retriesCount : Nat
  signalsReceived : Nat
deriving DecidableEq

def ReplaySummary.default : ReplaySummary := ⟨0, 0, 0, 0, 0, 0⟩

structure ExecutionReplay where
  executionId : String
  workflowId : String
  startedAt : SystemTime
  completedAt : Option SystemTime
  status : String
  totalEvents : Nat
  timeline : List TimelineEntry
  summary : ReplaySummary
deriving DecidableEq

/-- The errors `replay` returns by itself. -/
inductive ReplayError where
  | invalidReplayRange (reason : String)
  | instanceNotFound (id : String)
deriving DecidableEq

/-! ## Options -/

inductive DetailLevel where
  | medium
  | low
  | high
deriving DecidableEq

def DetailLevel.includes : DetailLevel → WorkflowEvent → Bool
  | .low, .instanceStarted | .low, .stepStarted .. | .low, .stepCompleted ..
  | .low, .stepFailed .. | .low, .workflowCompleted .. | .low, .workflowFailed ..
  | .low, .squadEventOccurred .. => true
  | .low, _ => false
  | .medium, .instanceStarted | .medium, .stepScheduled .. | .medium, .stepStarted ..
  | .medium, .stepCompleted .. | .medium, .stepFailed .. | .medium, .signalReceived ..
  | .medium, .signalWaitStarted .. | .medium, .breakpointHit .. | .medium, .cancelRequested ..
  | .medium, .stepRetryScheduled .. | .medium, .workflowCompleted ..
  | .medium, .workflowFailed .. | .medium, .squadEventOccurred .. => true
  | .medium, _ => false
  | .high, _ => true

structure ReplayOptions where
  detail : DetailLevel
  from_ : Option SystemTime
  to_ : Option SystemTime
  stepId : Option String
deriving DecidableEq

def ReplayOptions.validate (opts : ReplayOptions) : Except ReplayError Unit :=
  match opts.from_, opts.to_ with
  | some from_, some to_ =>
      if to_ < from_ then
        .error (.invalidReplayRange "'from' must be before or equal to 'to'")
      else .ok ()
  | _, _ => .ok ()

/-! ## What an event says of itself -/

/-- `event_timestamp`, with what `Utc::now()` answers. -/
def eventTimestamp (now : SystemTime) : WorkflowEvent → SystemTime
  | .stepStarted _ startedAt => startedAt
  | .stepCompleted _ _ _ _ completedAt => completedAt
  | .stepRetryScheduled _ _ scheduledAt => scheduledAt
  | .breakpointHit _ _ pausedAt => pausedAt
  | .signalReceived _ _ receivedAt _ _ => receivedAt
  | .cancelRequested requestedAt => requestedAt
  | .llmCallStarted _ _ _ startedAt => startedAt
  | .llmCallCompleted _ _ _ completedAt => completedAt
  | .llmCallFailed _ _ failedAt => failedAt
  | .toolCallStarted _ _ _ startedAt => startedAt
  | .toolCallCompleted _ _ _ completedAt => completedAt
  | .toolCallFailed _ _ _ failedAt => failedAt
  | .workflowCompleted _ completedAt => completedAt
  | .workflowFailed _ failedAt => failedAt
  | .squadEventOccurred _ occurredAt => occurredAt
  | .instanceCreated .. | .instanceStarted | .stepScheduled .. | .stepFailed ..
  | .signalWaitStarted .. | .timerFired _ | .external .. => now

def eventTypeName : WorkflowEvent → String
  | .instanceCreated .. => "InstanceCreated"
  | .instanceStarted => "InstanceStarted"
  | .stepScheduled .. => "StepScheduled"
  | .stepStarted .. => "StepStarted"
  | .stepCompleted .. => "StepCompleted"
  | .stepFailed .. => "StepFailed"
  | .stepRetryScheduled .. => "StepRetryScheduled"
  | .signalWaitStarted .. => "SignalWaitStarted"
  | .breakpointHit .. => "BreakpointHit"
  | .signalReceived .. => "SignalReceived"
  | .timerFired _ => "TimerFired"
  | .cancelRequested _ => "CancelRequested"
  | .llmCallStarted .. => "LLMCallStarted"
  | .llmCallCompleted .. => "LLMCallCompleted"
  | .llmCallFailed .. => "LLMCallFailed"
  | .toolCallStarted .. => "ToolCallStarted"
  | .toolCallCompleted .. => "ToolCallCompleted"
  | .toolCallFailed .. => "ToolCallFailed"
  | .workflowCompleted .. => "WorkflowCompleted"
  | .workflowFailed .. => "WorkflowFailed"
  | .external .. => "External"
  | .squadEventOccurred .. => "SquadEventOccurred"

/-- A breakpoint is not among the events of a step. -/
def eventStepId : WorkflowEvent → Option String
  | .stepScheduled stepId _ | .stepStarted stepId _ | .stepCompleted stepId _ _ _ _
  | .stepFailed stepId _ _ _ | .stepRetryScheduled stepId _ _ | .signalWaitStarted stepId _
  | .llmCallStarted stepId _ _ _ | .llmCallCompleted stepId _ _ _ | .llmCallFailed stepId _ _
  | .toolCallStarted stepId _ _ _ | .toolCallCompleted stepId _ _ _
  | .toolCallFailed stepId _ _ _ => some stepId
  | _ => none

/-! ## State diffs -/

def StepStatus.str : StepStatus → String
  | .pending => "Pending"
  | .running => "Running"
  | .completed => "Completed"
  | .failed => "Failed"

def truncatePreview (value : Json) : String :=
  let chars := value.render
  if 500 < chars.length then String.ofList (chars.take 497 ++ "...".toList)
  else String.ofList chars

/-- The keys of the context after an event, against the context before it. -/
def StateDiff.contextKeys (diff : StateDiff) (before after : Json) : StateDiff :=
  match before, after with
  | .obj _, .obj fields =>
      let added := fields.filter fun f => (before.get f.1).isNone
      let modified := fields.filter fun f => (before.get f.1).any fun v => v ≠ f.2
      { diff with
        contextChanged := !(added.isEmpty && modified.isEmpty)
        contextKeysAdded := added.map Prod.fst
        contextKeysModified := modified.map Prod.fst }
  | _, _ => diff

def computeStateDiff (before after : InstanceState) (event : WorkflowEvent) : StateDiff :=
  let diff := StateDiff.default.contextKeys before.context after.context
  let statuses (stepId : String) : StateDiff :=
    { diff with
      stepStatusBefore := (before.stepResults stepId).map fun r => r.status.str
      stepStatusAfter := (after.stepResults stepId).map fun r => r.status.str }
  match event with
  | .instanceStarted =>
      { diff with stepStatusBefore := some "Pending", stepStatusAfter := some "Running" }
  | .stepStarted stepId _ | .stepFailed stepId _ _ _ => statuses stepId
  | .stepCompleted stepId output _ _ _ =>
      { statuses stepId with outputPreview := some (truncatePreview output) }
  | .signalReceived .. =>
      { diff with stepStatusBefore := some "WaitingForSignal", stepStatusAfter := some "Running" }
  | _ => diff

def isInstanceCreated : WorkflowEvent → Bool
  | .instanceCreated .. => true
  | _ => false

/-- The kinds of events that get a diff. -/
def hasStateDiff : WorkflowEvent → Bool
  | .stepStarted .. | .stepCompleted .. | .stepFailed .. | .instanceStarted
  | .signalReceived .. => true
  | _ => false

/-! ## The clock -/

/-- The readings of the clock in a replay: what one is for, and which event of
the stream it is about. -/
inductive ClockReading where
  | filterFrom (i : Nat)
  | filterTo (i : Nat)
  | applied (i : Nat)
  | entry (i : Nat)
  | failed (i : Nat)
  /-- For a timeline without an `InstanceStarted`. -/
  | startedAt
deriving DecidableEq

abbrev ReplayClock := ClockReading → SystemTime

/-- Whether the filters leave an event in. -/
def ReplayOptions.keeps (opts : ReplayOptions) (clock : ReplayClock) (e : WorkflowEvent × Nat) :
    Bool :=
  opts.detail.includes e.1 &&
    (opts.from_.all fun from_ => from_ ≤ eventTimestamp (clock (.filterFrom e.2)) e.1) &&
    (opts.to_.all fun to_ => eventTimestamp (clock (.filterTo e.2)) e.1 ≤ to_) &&
    opts.stepId.all fun stepId => eventStepId e.1 = some stepId

/-! ## The loop -/

/-- The local variables of the loop. -/
structure Replaying where
  state : InstanceState
  timeline : List TimelineEntry
  summary : ReplaySummary
  startedAt : Option SystemTime
  completedAt : Option SystemTime
  stepStartTimes : String → Option SystemTime
  seenSteps : Finset String

/-- `(end - start).num_milliseconds().max(0)`. -/
def millisBetween (start end_ : SystemTime) : Nat := (end_ - start) / 1000000

namespace Replaying

def start (state : InstanceState) : Replaying :=
  { state := state
    timeline := []
    summary := .default
    startedAt := none
    completedAt := none
    stepStartTimes := fun _ => none
    seenSteps := ∅ }

def noteStart (p : Replaying) : WorkflowEvent → Replaying
  | .stepStarted stepId startedAt =>
      { p with
        stepStartTimes := fun id => if id = stepId then some startedAt else p.stepStartTimes id }
  | _ => p

def durationMs (p : Replaying) (now : SystemTime) : WorkflowEvent → Option Nat
  | .stepCompleted stepId _ _ _ completedAt =>
      (p.stepStartTimes stepId).map fun start => millisBetween start completedAt
  | .stepFailed stepId _ _ _ => (p.stepStartTimes stepId).map fun start => millisBetween start now
  | _ => none

/-- What the summary and the two ends of the run take from an event. `ts` is the
timestamp of its entry. -/
def track (p : Replaying) (ts : SystemTime) : WorkflowEvent → Replaying
  | .instanceStarted => { p with startedAt := some ts }
  | .stepStarted stepId _ =>
      if stepId ∈ p.seenSteps then p
      else { p with
        seenSteps := insert stepId p.seenSteps
        summary := { p.summary with totalSteps := p.summary.totalSteps + 1 } }
  | .stepCompleted .. =>
      { p with summary := { p.summary with completedSteps := p.summary.completedSteps + 1 } }
  | .stepFailed _ _ _ false =>
      { p with summary := { p.summary with failedSteps := p.summary.failedSteps + 1 } }
  | .stepRetryScheduled .. =>
      { p with summary := { p.summary with retriesCount := p.summary.retriesCount + 1 } }
  | .signalReceived .. =>
      { p with summary := { p.summary with signalsReceived := p.summary.signalsReceived + 1 } }
  | .workflowCompleted _ completedAt => { p with completedAt := some completedAt }
  | .workflowFailed _ failedAt => { p with completedAt := some failedAt }
  | .squadEventOccurred (.squadCompleted _ completedAt) _ =>
      { p with completedAt := some completedAt }
  | .squadEventOccurred (.squadFailed _ failedAt) _ => { p with completedAt := some failedAt }
  | _ => p

/-- The body of the loop. -/
def step (toValue : WorkflowEvent → Json) (detail : DetailLevel) (clock : ReplayClock)
    (p : Replaying) (e : WorkflowEvent × Nat) : Option Replaying :=
  (p.state.apply (clock (.applied e.2)) e.1).map fun state =>
    let ts := eventTimestamp (clock (.entry e.2)) e.1
    let noted := p.noteStart e.1
    let entry : TimelineEntry :=
      { sequence := p.timeline.length + 1
        timestamp := ts
        eventType := eventTypeName e.1
        stepId := eventStepId e.1
        stateDiff := if hasStateDiff e.1 then some (computeStateDiff p.state state e.1) else none
        durationMs := noted.durationMs (clock (.failed e.2)) e.1
        rawPayload := if detail = .high then some (toValue e.1) else none }
    { noted.track ts e.1 with state := state, timeline := p.timeline ++ [entry] }

def run (toValue : WorkflowEvent → Json) (detail : DetailLevel) (clock : ReplayClock)
    (p : Replaying) (events : List (WorkflowEvent × Nat)) : Option Replaying :=
  events.foldlM (step toValue detail clock) p

/-- The summary once the duration is known. -/
def finalSummary (p : Replaying) : ReplaySummary :=
  match p.startedAt, p.completedAt with
  | some start, some end_ => { p.summary with totalDurationMs := millisBetween start end_ }
  | _, _ => p.summary

def report (p : Replaying) (instanceId : String) (clock : ReplayClock) : ExecutionReplay :=
  { executionId := instanceId
    workflowId := p.state.workflowId
    startedAt := p.startedAt.getD (clock .startedAt)
    completedAt := p.completedAt
    status := p.state.status.asStr
    totalEvents := p.timeline.length
    timeline := p.timeline
    summary := p.finalSummary }

end Replaying

namespace ExecutionReplayer

/-- The state the loop starts from: of the stream it has seen the first
`InstanceCreated`, for the sake of the workflow id. -/
def initialState (clock : ReplayClock) (instanceId : String) (events : List WorkflowEvent) :
    Option InstanceState :=
  match events.find? isInstanceCreated with
  | some event => (InstanceState.blank instanceId).apply (clock .startedAt) event
  | none => some (.blank instanceId)

/-- `replay`, from what the store has read. -/
def replay (toValue : WorkflowEvent → Json) (clock : ReplayClock) (instanceId : String)
    (events : List WorkflowEvent) (opts : ReplayOptions) :
    Option (Except ReplayError ExecutionReplay) :=
  match opts.validate with
  | .error e => some (.error e)
  | .ok () =>
      if events.isEmpty then some (.error (.instanceNotFound instanceId))
      else
        (initialState clock instanceId events).bind fun state =>
          ((Replaying.start state).run toValue opts.detail clock
            (events.zipIdx.filter (opts.keeps clock))).map fun p =>
              .ok (p.report instanceId clock)

end ExecutionReplayer

end Pandaria.Comp
