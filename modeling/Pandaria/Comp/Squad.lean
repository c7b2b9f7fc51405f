import Pandaria.Comp.Team
import Pandaria.Comp.Instance

/-!
# Squads, and the execution of one mission

`tavern-comp/src/team/squad.rs`, `context.rs`, `handoff.rs`, and
`execute_mission` and `merge_context` of `engine.rs`.

What `execute_mission` is answered from outside is a `MissionAnswers`: the
store's answer to each append, the executor's to its two calls, the clock and
the new message ids. With those it is a function, and its `Execution` lists
what it does for others to see, in order, so that a run can let executions of
several missions take turns between any two of their acts.
-/

namespace Pandaria.Comp

open Pandaria.Ai Pandaria.Lib

inductive SquadStatus where
  | pending
  | running
  | waitingForSignal (signal : String)
  | sleeping (wakeAt : SystemTime)
  | breakpoint (missionId : String)
  | completed
  | failed
deriving DecidableEq

/-- The three statuses `run` returns with to be called again. -/
def SquadStatus.paused : SquadStatus → Bool
  | .waitingForSignal _ | .sleeping _ | .breakpoint _ => true
  | _ => false

/-! ## The context -/

inductive MessageKind where
  | invocation
  | output
  | handoff
  | observation
  | system
deriving DecidableEq

structure ThreadMessage where
  id : String
  role : String
  turn : Nat
  kind : MessageKind
  content : Json
  timestamp : SystemTime
deriving DecidableEq

structure TeamContext where
  shared : Json
  private_ : String → Option Json
  thread : List ThreadMessage

/-- The fields of an object into those of another, the new ones last. -/
def mergeFields (main : Json) (branch : List (String × Json)) : Json :=
  branch.foldl (fun m f => m.insertIfObject (some f.1) f.2) main

/-- `merge_context`. -/
def mergeContext (main branch : TeamContext) : TeamContext :=
  { shared :=
      match branch.shared with
      | .obj fields => mergeFields main.shared fields
      | _ => main.shared
    thread := main.thread ++ branch.thread
    private_ := fun role => (branch.private_ role).orElse fun _ => main.private_ role }

/-! ## Handoffs -/

inductive AttachmentScope where
  | shared
  | private_ (role : String)
deriving DecidableEq

structure Handoff where
  summary : String
  nextRole : Option String
  candidates : List String
  instructions : Option String
  attachments : List (AttachmentScope × String)
  payload : Json
  requestHuman : Bool
  terminate : Bool
deriving DecidableEq

namespace Handoff

def ofOption : Option String → Json
  | some s => .str s
  | none => .null

/-- `serde_json::to_value`. -/
def toValue (h : Handoff) : Json :=
  .obj [("summary", .str h.summary), ("next_role", ofOption h.nextRole),
    ("candidates", .arr (h.candidates.map .str)), ("instructions", ofOption h.instructions),
    ("attachments", .arr (h.attachments.map fun a =>
      .obj [("scope", match a.1 with
        | .shared => .str "Shared"
        | .private_ role => .obj [("Private", .obj [("role", .str role)])]),
        ("key", .str a.2)])),
    ("payload", h.payload), ("request_human", .bool h.requestHuman),
    ("terminate", .bool h.terminate)]

/-- An object with a text under `summary` is meant as a handoff. -/
def detect (fromValue : Json → Except String Handoff) (value : Json) :
    Option (Except String Handoff) :=
  match value with
  | .obj _ => ((value.get "summary").bind Json.asStr).map fun _ => fromValue value
  | _ => none

end Handoff

/-! ## Squads -/

structure Squad where
  id : String
  teamId : String
  status : SquadStatus
  context : TeamContext
  receivedSignals : Finset String
  completedMissions : Finset String

namespace Squad

def new (squadId teamId : String) (shared : Json) : Squad :=
  { id := squadId
    teamId := teamId
    status := .pending
    context := { shared := shared, private_ := fun _ => none, thread := [] }
    receivedSignals := ∅
    completedMissions := ∅ }

def sendSignal (s : Squad) (signal : String) : Squad :=
  { s with receivedSignals := insert signal s.receivedSignals }

/-- Whether the signal was there, and the squad without it. -/
def takeSignal (s : Squad) (signal : String) : Bool × Squad :=
  (decide (signal ∈ s.receivedSignals), { s with receivedSignals := s.receivedSignals.erase signal })

end Squad

/-! ## Executing a mission -/

/-- What an engine is set up with. The template engine and the derived
deserializer of `Handoff` are parameters. -/
structure EngineConfig where
  maxConcurrency : Nat
  concurrent : 0 < maxConcurrency
  renderTemplate : String → Json → Except String String
  handoffFromValue : Json → Except String Handoff

structure AgentInput where
  task : String
  context : TeamContext
  timeout : Option Nat
  squadId : String
  missionId : String

structure MissionAnswers where
  /-- The error of an append, if it has one. -/
  store : SquadEvent → Option String
  resolveRole : Except String Unit
  /-- The executor's answer; `none` is a panic. -/
  execute : AgentInput → Option (Except String Json)
  startedAt : SystemTime
  completedAt : SystemTime
  /-- The time to retry at; `none` is a panic of the addition. -/
  wakeAt : Option SystemTime
  handoffStamp : String × SystemTime
  outputStamp : String × SystemTime

/-- What an observer sees of a squad: its events in the store, the signals sent
to it and taken from it, and the executor's calls with their outcome. -/
inductive Act where
  | emit (e : SquadEvent)
  | delivered (signal : String)
  | took (missionId signal : String)
  | called (missionId : String) (succeeded : Bool)
deriving DecidableEq

/-- The acts of an execution, how it ends, and its clone of the squad then. A
result of `none` is a panic. -/
structure Execution where
  acts : List Act
  result : Option (Except CompError Unit)
  squad : Squad

namespace Execution

def start (squad : Squad) : Execution := { acts := [], result := some (.ok ()), squad := squad }

def act (x : Execution) (a : Act) : Execution := { x with acts := x.acts ++ [a] }

def fail (x : Execution) (e : CompError) : Execution := { x with result := some (.error e) }

def panic (x : Execution) : Execution := { x with result := none }

def setStatus (x : Execution) (status : SquadStatus) : Execution :=
  { x with squad.status := status }

/-- `emit_event(…).await?`: what comes after an append runs when it succeeds. -/
def emit (x : Execution) (answers : MissionAnswers) (e : SquadEvent)
    (k : Execution → Execution) : Execution :=
  match answers.store e with
  | some err => x.fail (.storeError err)
  | none => k (x.act (.emit e))

end Execution

/-- The value of an output, and the handoff it is taken from. -/
def outputValue (cfg : EngineConfig) (mission : Mission) (content : Json) :
    Except CompError (Option Handoff × Json) :=
  match mission.handoffMode with
  | .required =>
      match cfg.handoffFromValue content with
      | .error e => .error (.stepFailed mission.id ("required handoff invalid: " ++ e))
      | .ok h => .ok (some h, h.payload)
  | .inherit | .auto =>
      match Handoff.detect cfg.handoffFromValue content with
      | some (.ok h) => .ok (some h, h.payload)
      | _ => .ok (none, content)

/-- `record_handoff`, under the id and time the message is given. -/
def recordHandoff (ctx : TeamContext) (h : Handoff) (mission : Mission)
    (stamp : String × SystemTime) : TeamContext :=
  { ctx with thread := ctx.thread ++
      [{ id := stamp.1, role := mission.role, turn := 1, kind := .handoff
         content := h.toValue, timestamp := stamp.2 }] }

/-- The context with a mission's output in it. -/
def storeOutput (answers : MissionAnswers) (mission : Mission) (handoff : Option Handoff)
    (value : Json) (ctx : TeamContext) : TeamContext :=
  let ctx :=
    match handoff with
    | some h => recordHandoff ctx h mission answers.handoffStamp
    | none => ctx
  { ctx with
    shared := ctx.shared.insertIfObject mission.outputKey value
    thread := ctx.thread ++
      [{ id := answers.outputStamp.1, role := mission.role, turn := 1, kind := .output
         content := value, timestamp := answers.outputStamp.2 }] }

/-- The branch in which the executor has answered with an output. -/
def completeMission (cfg : EngineConfig) (answers : MissionAnswers) (mission : Mission)
    (content : Json) (x : Execution) : Execution :=
  match outputValue cfg mission content with
  | .error e => x.fail e
  | .ok (handoff, value) =>
      let x := { x with squad.context := storeOutput answers mission handoff value x.squad.context }
      x.emit answers (.missionCompleted mission.id value mission.outputKey answers.completedAt)
        fun x => if mission.breakpoint then x.setStatus (.breakpoint mission.id) else x

/-- The branch in which it has answered with an error. -/
def retryOrFail (answers : MissionAnswers) (mission : Mission) (maxAttempts attempt : Nat)
    (reason : String) (x : Execution) : Execution :=
  if 0 < maxAttempts - attempt then
    match answers.wakeAt with
    | none => x.panic
    | some wakeAt =>
        x.emit answers (.missionRetryScheduled mission.id (attempt + 1) reason wakeAt)
          fun x => x.setStatus (.sleeping wakeAt)
  else
    x.emit answers (.missionFailed mission.id reason attempt false)
      fun x => x.fail (.missionFailed mission.id attempt reason)

/-- One attempt, from the signal check on. -/
def attemptMission (cfg : EngineConfig) (answers : MissionAnswers) (mission : Mission)
    (maxAttempts attempt : Nat) (x : Execution) : Execution :=
  x.emit answers (.missionScheduled mission.id attempt) fun x =>
    match answers.resolveRole with
    | .error e => x.fail (.roleNotFound (mission.role ++ ": " ++ e))
    | .ok () =>
        match cfg.renderTemplate mission.task x.squad.context.shared with
        | .error e => x.fail (.templateParse e)
        | .ok task =>
            x.emit answers (.missionStarted mission.id answers.startedAt) fun x =>
              match answers.execute
                { task := task, context := x.squad.context, timeout := mission.timeout
                  squadId := x.squad.id, missionId := mission.id } with
              | none => x.panic
              | some (.ok content) =>
                  completeMission cfg answers mission content (x.act (.called mission.id true))
              | some (.error reason) =>
                  retryOrFail answers mission maxAttempts attempt reason
                    (x.act (.called mission.id false))

/-- `execute_mission`. The number of attempts is a `u64`, and the loop over
them is entered once, at the first. -/
def executeMission (cfg : EngineConfig) (answers : MissionAnswers) (squad : Squad)
    (mission : Mission) : Execution :=
  let maxAttempts := mission.retries.getD 0 + 1
  let x := Execution.start squad
  if 2 ^ 64 ≤ maxAttempts then x.panic
  else
    match mission.waitForSignal with
    | none => attemptMission cfg answers mission maxAttempts 1 x
    | some signal =>
        let (taken, squad) := squad.takeSignal signal
        if taken then
          attemptMission cfg answers mission maxAttempts 1
            ({ x with squad := squad }.act (.took mission.id signal))
        else
          (x.setStatus (.waitingForSignal signal)).emit answers
            (.missionWaitingForSignal mission.id signal 1) fun x => x

end Pandaria.Comp
