import Mathlib.Data.Finset.Basic
import Pandaria.Ai.Types
import Pandaria.Lib.Table

/-!
# Events of a squad and of a workflow instance

`tavern-comp/src/event.rs`, field for field. Squads and instances share one
event store; a squad's events travel through it inside a
`squadEventOccurred`.
-/

namespace Pandaria.Comp

open Pandaria.Ai

inductive SquadEvent where
  | squadCreated (squadId teamId : String) (inputs : Json)
  | squadStarted
  | missionScheduled (missionId : String) (attempt : Nat)
  | missionStarted (missionId : String) (startedAt : SystemTime)
  | missionCompleted (missionId : String) (output : Json) (outputKey : Option String)
      (completedAt : SystemTime)
  | missionFailed (missionId : String) (error : String) (attempt : Nat) (willRetry : Bool)
  | missionWaitingForSignal (missionId signalName : String) (attempt : Nat)
  | missionRetryScheduled (missionId : String) (attempt : Nat) (reason : String)
      (scheduledAt : SystemTime)
  | squadCompleted (outputs : Json) (completedAt : SystemTime)
  | squadFailed (reason : String) (failedAt : SystemTime)
deriving DecidableEq

inductive SignalAction where
  | approve
  | reject
deriving DecidableEq

inductive WorkflowEvent where
  | instanceCreated (workflowId : String) (inputs : Json)
  | instanceStarted
  | stepScheduled (stepId : String) (attempt : Nat)
  | stepStarted (stepId : String) (startedAt : SystemTime)
  | stepCompleted (stepId : String) (output : Json) (attempt : Nat) (outputKey : Option String)
      (completedAt : SystemTime)
  | stepFailed (stepId error : String) (attempt : Nat) (willRetry : Bool)
  | stepRetryScheduled (stepId : String) (attempt : Nat) (scheduledAt : SystemTime)
  | signalWaitStarted (stepId signalName : String)
  | breakpointHit (stepId reason : String) (pausedAt : SystemTime)
  | signalReceived (signalName : String) (payload : Json) (receivedAt : SystemTime)
      (action : Option SignalAction) (reviewer : Option String)
  | timerFired (timerId : String)
  | cancelRequested (requestedAt : SystemTime)
  | llmCallStarted (stepId model : String) (promptTokens : Option Nat) (startedAt : SystemTime)
  | llmCallCompleted (stepId : String) (output : Json) (usage : Option Json)
      (completedAt : SystemTime)
  | llmCallFailed (stepId error : String) (failedAt : SystemTime)
  | toolCallStarted (stepId toolName : String) (args : Json) (startedAt : SystemTime)
  | toolCallCompleted (stepId toolName : String) (output : Json) (completedAt : SystemTime)
  | toolCallFailed (stepId toolName error : String) (failedAt : SystemTime)
  | workflowCompleted (outputs : Json) (completedAt : SystemTime)
  | workflowFailed (reason : String) (failedAt : SystemTime)
  | external (eventType : String) (payload : Json)
  | squadEventOccurred (event : SquadEvent) (occurredAt : SystemTime)
deriving DecidableEq

/-- `From<SquadEvent>`. -/
def SquadEvent.toWorkflowEvent (e : SquadEvent) (now : SystemTime) : WorkflowEvent :=
  .squadEventOccurred e now

end Pandaria.Comp

/-!
## A workflow instance, rebuilt from its events

`tavern-comp/src/instance.rs`. `apply` never returns an error; what it can do
besides answering is panic, on the `unwrap` behind a received signal, and that
is `none` here. The clock it reads for a failed step is an argument.
-/

namespace Pandaria.Comp

open Pandaria.Ai

inductive StepStatus where
  | pending
  | running
  | completed
  | failed
deriving DecidableEq

structure StepResult where
  status : StepStatus
  output : Option Json
  error : Option String
  startedAt : Option SystemTime
  completedAt : Option SystemTime
  attempt : Nat
deriving DecidableEq

inductive InstanceStatus where
  | pending
  | running
  | waitingForSignal (signal : String)
  | sleeping (wakeAt : SystemTime)
  | completed
  | failed
deriving DecidableEq

def InstanceStatus.asStr : InstanceStatus → String
  | .pending => "pending"
  | .running => "running"
  | .waitingForSignal _ => "waiting_for_signal"
  | .sleeping _ => "sleeping"
  | .completed => "completed"
  | .failed => "failed"

/-- `std::mem::discriminant`: the variant without its fields. -/
def InstanceStatus.discriminant : InstanceStatus → Nat
  | .pending => 0
  | .running => 1
  | .waitingForSignal _ => 2
  | .sleeping _ => 3
  | .completed => 4
  | .failed => 5

structure InstanceState where
  id : String
  workflowId : String
  status : InstanceStatus
  context : Json
  stepResults : String → Option StepResult
  completedSteps : Finset String
  runningSteps : Finset String
  signalBlockedSteps : Finset String
  scheduledSteps : Finset String
  pendingTimers : String → Option SystemTime

/-- An instance before its first event. -/
def InstanceState.blank (id : String) : InstanceState :=
  { id := id
    workflowId := ""
    status := .pending
    context := .null
    stepResults := fun _ => none
    completedSteps := ∅
    runningSteps := ∅
    signalBlockedSteps := ∅
    scheduledSteps := ∅
    pendingTimers := fun _ => none }

/-- Text before the last occurrence of a separator: `rsplit_once`, less what
comes after it. -/
def beforeLast (sep : Char) (s : List Char) : Option (List Char) :=
  match s.reverse.dropWhile fun c => c ≠ sep with
  | [] => none
  | _ :: rest => some rest.reverse

/-- The step a retry timer is about: `retry_{step_id}_{attempt}`. -/
def retryTimerStep (timerId : String) : Option String :=
  let start := "retry_".toList
  if start.isPrefixOf timerId.toList then
    (beforeLast '_' (timerId.toList.drop start.length)).map String.ofList
  else none

/-- The text of a rejection. -/
def rejectReason (reviewer : Option String) (payload : Json) : String :=
  let reason := ((payload.get "reason").bind Json.asStr).getD "no reason"
  match reviewer with
  | some r => "rejected by " ++ r ++ ": " ++ reason
  | none => "rejected: " ++ reason

/-- The payload of a signal goes under `signals`, which is made when the
context does not have it and has to be an object when it does. -/
def recordSignal (context : Json) (signalName : String) (payload : Json) : Option Json :=
  match context with
  | .obj _ =>
      match (context.get "signals").getD (.obj []) with
      | .obj signals =>
          ((Json.obj signals).insert signalName payload).bind (context.insert "signals")
      | _ => none
  | _ => some context

namespace InstanceState

def setResult (s : InstanceState) (stepId : String) (r : StepResult) : InstanceState :=
  { s with stepResults := fun id => if id = stepId then some r else s.stepResults id }

def apply (s : InstanceState) (now : SystemTime) : WorkflowEvent → Option InstanceState
  | .instanceCreated workflowId inputs =>
      some { s with workflowId := workflowId, context := inputs, status := .pending }
  | .instanceStarted => some { s with status := .running }
  | .stepScheduled stepId _ => some { s with scheduledSteps := insert stepId s.scheduledSteps }
  | .stepStarted stepId startedAt =>
      let r : StepResult :=
        match s.stepResults stepId with
        | some r => { r with startedAt := some startedAt }
        | none =>
            { status := .running, output := none, error := none
              startedAt := some startedAt, completedAt := none, attempt := 0 }
      some ({ s with
        scheduledSteps := s.scheduledSteps.erase stepId
        runningSteps := insert stepId s.runningSteps }.setResult stepId r)
  | .stepCompleted stepId output attempt outputKey completedAt =>
      some ({ s with
        runningSteps := s.runningSteps.erase stepId
        completedSteps := insert stepId s.completedSteps
        context := s.context.insertIfObject outputKey output }.setResult stepId
          { status := .completed, output := some output, error := none
            startedAt := (s.stepResults stepId).bind StepResult.startedAt
            completedAt := some completedAt, attempt := attempt })
  | .signalWaitStarted stepId signalName =>
      some { s with
        signalBlockedSteps := insert stepId s.signalBlockedSteps
        status := .waitingForSignal signalName }
  | .breakpointHit stepId _ _ =>
      some { s with
        scheduledSteps := s.scheduledSteps.erase stepId
        signalBlockedSteps := insert stepId s.signalBlockedSteps
        status := .waitingForSignal ("__breakpoint__" ++ stepId) }
  | .stepFailed stepId error attempt willRetry =>
      some ({ s with
        runningSteps := s.runningSteps.erase stepId
        status := if willRetry then s.status else .failed }.setResult stepId
          { status := .failed, output := none, error := some error
            startedAt := (s.stepResults stepId).bind StepResult.startedAt
            completedAt := some now, attempt := attempt })
  | .signalReceived signalName payload _ action reviewer =>
      if action = some .reject then
        let reason := rejectReason reviewer payload
        some { s with
          signalBlockedSteps := ∅
          status := .failed
          stepResults := fun id =>
            if id ∈ s.signalBlockedSteps then
              (s.stepResults id).map fun r => { r with status := .failed, error := some reason }
            else s.stepResults id }
      else if s.status = .waitingForSignal signalName then
        (recordSignal s.context signalName payload).map fun context =>
          { s with signalBlockedSteps := ∅, status := .running, context := context }
      else some s
  | .stepRetryScheduled stepId _ _ =>
      some { s with scheduledSteps := insert stepId s.scheduledSteps }
  | .timerFired timerId =>
      some { s with
        pendingTimers := fun id => if id = timerId then none else s.pendingTimers id
        scheduledSteps :=
          match retryTimerStep timerId with
          | some stepId => s.scheduledSteps.erase stepId
          | none => s.scheduledSteps }
  | .cancelRequested _ => some { s with status := .failed }
  | .workflowCompleted _ _ => some { s with status := .completed }
  | .workflowFailed _ _ => some { s with status := .failed }
  | .llmCallStarted .. | .llmCallCompleted .. | .llmCallFailed .. | .toolCallStarted ..
  | .toolCallCompleted .. | .toolCallFailed .. | .external .. | .squadEventOccurred .. => some s

/-- A signal that rejects fails the instance, the one that is waited for lets it go on,
and any other is ignored. -/
theorem apply_signalReceived {s s' : InstanceState} {now at' : SystemTime} {name : String}
    {payload : Json} {action : Option SignalAction} {reviewer : Option String}
    (h : s.apply now (.signalReceived name payload at' action reviewer) = some s') :
    (action = some .reject ∧ ∃ results,
      s' = { s with signalBlockedSteps := ∅, status := .failed, stepResults := results }) ∨
    (action ≠ some .reject ∧ s.status = .waitingForSignal name ∧
      ∃ context, recordSignal s.context name payload = some context ∧
        s' = { s with signalBlockedSteps := ∅, status := .running, context := context }) ∨
    (action ≠ some .reject ∧ s.status ≠ .waitingForSignal name ∧ s' = s) := by
  rw [apply] at h
  split at h
  · next hreject =>
      injection h with h
      exact .inl ⟨hreject, _, h.symm⟩
  · next hreject =>
      split at h
      · next hwaits =>
          obtain ⟨context, hrecord, hs⟩ := Option.map_eq_some_iff.mp h
          exact .inr (.inl ⟨hreject, hwaits, context, hrecord, hs.symm⟩)
      · next hwaits =>
          injection h with h
          exact .inr (.inr ⟨hreject, hwaits, h.symm⟩)

/-- The events of an instance, each with the time it is applied at. -/
def replay (s : InstanceState) : List (SystemTime × WorkflowEvent) → Option InstanceState
  | [] => some s
  | (now, e) :: es => (s.apply now e).bind fun s => s.replay es

end InstanceState

example : retryTimerStep "retry_s1_2" = some "s1" := by decide

end Pandaria.Comp

/-!
## Event stores

`tavern-comp/src/store.rs`. `MemoryEventStore` keeps the events and folds them
when it is asked for a status. The two SQL stores, whose statements differ
only in how a parameter and the current time are written, keep the events in
one table and a status column in another, and a store here is what the two
tables hold. Snapshots are not part of it: `list_by_status` reads none.
-/

namespace Pandaria.Comp

open Pandaria.Ai Pandaria.Lib

/-! ### In memory -/

/-- The streams, by instance. -/
abbrev MemoryEventStore := Table String (List WorkflowEvent)

namespace MemoryEventStore

def append (s : MemoryEventStore) (instanceId : String) (event : WorkflowEvent) :
    MemoryEventStore :=
  s.upsert instanceId fun events => events.getD [] ++ [event]

def readStream (s : MemoryEventStore) (instanceId : String) : List WorkflowEvent :=
  (s.get? instanceId).getD []

/-- The state a stream folds to, with the clock read for each event. -/
def foldStream (clock : String → Nat → SystemTime) (id : String) (events : List WorkflowEvent) :
    Option InstanceState :=
  (InstanceState.blank id).replay (events.zipIdx.map fun e => (clock id e.2, e.1))

/-- The loop of `list_by_status`, which panics when `apply` does. -/
def listRows (clock : String → Nat → SystemTime) (status : InstanceStatus) :
    List (String × List WorkflowEvent) → Option (List String)
  | [] => some []
  | (id, events) :: rest =>
      (foldStream clock id events).bind fun state =>
        (listRows clock status rest).map fun ids =>
          if state.status.discriminant = status.discriminant then id :: ids else ids

def listByStatus (clock : String → Nat → SystemTime) (s : MemoryEventStore)
    (status : InstanceStatus) : Option (List String) :=
  listRows clock status s.rows

end MemoryEventStore

/-! ### In SQL -/

/-- A row of `workflow_instances`, less its times. -/
structure InstanceRow where
  workflowId : String
  status : String
deriving DecidableEq

structure SqlEventStore where
  /-- `workflow_events`, by `id`. -/
  workflowEvents : List (String × WorkflowEvent)
  workflowInstances : Table String InstanceRow

/-- How the statements of an append fare. -/
inductive Statements where
  /-- The insert of the event fails, and with it the append. -/
  | rejected
  /-- The event is written and the status, if there is one to write, is not. -/
  | unmarked
  | executed
deriving DecidableEq

/-- The status an event writes, and the workflow it names; `""` is none. -/
def statusOf : WorkflowEvent → Option String × String
  | .instanceCreated workflowId _ => (some workflowId, "pending")
  | .instanceStarted => (none, "running")
  | .workflowCompleted .. => (none, "completed")
  | .workflowFailed .. => (none, "failed")
  | _ => (none, "")

namespace SqlEventStore

def empty : SqlEventStore := { workflowEvents := [], workflowInstances := .empty }

/-- `INSERT … ON CONFLICT(instance_id) DO UPDATE SET status`. -/
def upsertInstanceMeta (s : SqlEventStore) (instanceId workflowId status : String) :
    SqlEventStore :=
  { s with workflowInstances := s.workflowInstances.upsert instanceId fun
      | some row => { row with status := status }
      | none => { workflowId := workflowId, status := status } }

/-- `append`, and whether it returns `Ok`. -/
def append (s : SqlEventStore) (instanceId : String) (event : WorkflowEvent)
    (fate : Statements) : Bool × SqlEventStore :=
  if fate = .rejected then (false, s)
  else
    let s := { s with workflowEvents := s.workflowEvents ++ [(instanceId, event)] }
    let (workflowId, status) := statusOf event
    if status ≠ "" then
      if fate = .unmarked then (false, s)
      else (true, s.upsertInstanceMeta instanceId (workflowId.getD "") status)
    else (true, s)

/-- `SELECT payload … WHERE instance_id = ?1 ORDER BY id ASC`. -/
def readStream (s : SqlEventStore) (instanceId : String) : List WorkflowEvent :=
  (s.workflowEvents.filter fun r => r.1 = instanceId).map Prod.snd

/-- `SELECT instance_id FROM workflow_instances WHERE status = ?1`. -/
def listByStatus (s : SqlEventStore) (status : InstanceStatus) : List String :=
  s.workflowInstances.select fun _ row => row.status = status.asStr

end SqlEventStore

end Pandaria.Comp
