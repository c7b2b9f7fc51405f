import Pandaria.Comp.Squad

/-!
# The squad engine

`tavern-comp/src/team/engine.rs`: `run`, `run_stream`, `run_core`, `run_dag`
and `run_hierarchical`, as a machine driven by labels. A label says which of
the concurrent parties moves next and what it is answered from outside, so a
list of labels is one interleaving of a squad's whole life: several runs, the
signals between them, and the executions each of them starts.

`run_dag` spawns every ready mission on a clone of the squad and collects the
results; it leaves its collecting loop early when one of them pauses or fails,
and the executions it leaves behind go on by themselves, as `orphans`.
`run_hierarchical` awaits one mission at a time, which is a batch of one here,
and treats its result the same way. The channel of `run_stream` is not part of
the state: what goes through it, the store is asked to keep as well.
-/

namespace Pandaria.Comp

open Pandaria.Ai Pandaria.Lib

/-- An execution on its way. Its `acts` are those it has not done yet, while
`result` and `squad` are what it will end with. -/
structure Branch extends Execution where
  mission : Mission

/-- It has sent its result, or panicked. -/
def Branch.ended (b : Branch) : Bool := b.acts.isEmpty

/-- The locals of `run_dag` and `run_hierarchical`. Only the first looks at
`running`, only the second at `managerLoops`. -/
structure Driver where
  team : ValidTeam
  completed : Finset String
  running : Finset String
  /-- The missions about to be spawned. -/
  todo : List Mission
  managerLoops : Nat

inductive Phase where
  | idle
  /-- Between `SquadStarted` and the execution core. -/
  | planning (stream : Bool)
  | driving (d : Driver)

/-- What a run returns. In a streamed run an error is the `Failed` of the
result that is sent. -/
inductive Returned where
  | paused (status : SquadStatus)
  | completed
  | error (e : CompError)
  | panicked
deriving DecidableEq

structure System where
  squad : Squad
  phase : Phase
  /-- The executions the driver waits for. -/
  batch : List Branch
  /-- Those no driver waits for any more. -/
  orphans : List Branch
  /-- What has been done, oldest first. -/
  trace : List Act
  returned : Option Returned

/-- The store's answer to an append of the driver, and its clock. -/
structure DriverAnswers where
  store : SquadEvent → Option String
  now : SystemTime

inductive Label where
  /-- `send_signal`, between runs. -/
  | sendSignal (signal : String)
  /-- `run` or `run_stream` is called. -/
  | run (stream : Bool) (answers : DriverAnswers)
  | plan (answer : Except String (Except String Plan)) (answers : DriverAnswers)
  /-- A loop head. A manager, where there is one, answers or panics. -/
  | head (manager : Option (Except String Json)) (answers : DriverAnswers)
  | spawn (missionId : String) (answers : MissionAnswers)
  /-- The next act of an execution of the batch. -/
  | advance (missionId : String)
  /-- The next act of an execution left behind. -/
  | advanceOrphan (index : Nat)
  /-- The driver takes the result of an execution. -/
  | receive (missionId : String) (answers : DriverAnswers)

namespace System

/-- A squad as `deploy` leaves it. -/
def deployed (team : ValidTeam) (squadId : String) (inputs : Json) : System :=
  { squad := .new squadId team.team.id inputs
    phase := .idle
    batch := []
    orphans := []
    trace := [.emit (.squadCreated squadId team.team.id inputs)]
    returned := none }

/-- `deploy`. -/
def deploy (team : Team) (squadId : String) (inputs : Json) (store : SquadEvent → Option String) :
    Except CompError System :=
  match team.check with
  | .error e => .error e
  | .ok team =>
      match store (.squadCreated squadId team.team.id inputs) with
      | some err => .error (.storeError err)
      | none => .ok (deployed team squadId inputs)

def setStatus (s : System) (status : SquadStatus) : System := { s with squad.status := status }

def record (s : System) (a : Act) : System := { s with trace := s.trace ++ [a] }

/-- The run returns, and what it was waiting for is on its own. -/
def ret (s : System) (r : Returned) : System :=
  { s with
    phase := .idle
    batch := []
    orphans := s.orphans ++ s.batch
    returned := some r }

/-- The run returns with a last event, or with the error of appending it. -/
def retWith (s : System) (answers : DriverAnswers) (e : SquadEvent) (r : Returned) : System :=
  match answers.store e with
  | some err => s.ret (.error (.storeError err))
  | none => (s.record (.emit e)).ret r

/-- Out of the loop of either driver. -/
def complete (s : System) (d : Driver) (answers : DriverAnswers) : System :=
  let squad := { s.squad with completedMissions := d.completed, status := .completed }
  { s with squad := squad }.retWith answers (.squadCompleted s.squad.context.shared answers.now) .completed

def failWith (s : System) (answers : DriverAnswers) (reason : String) (e : CompError) : System :=
  (s.setStatus .failed).retWith answers (.squadFailed reason answers.now) (.error e)

/-! ## Starting -/

/-- `run` starts whatever the status is; `run_stream` refuses a squad that is
closed or running, and nothing happens. -/
def run (s : System) (stream : Bool) (answers : DriverAnswers) : System :=
  match s.phase with
  | .idle =>
      if stream ∧ ¬ (s.squad.status = .pending ∨ s.squad.status.paused = true) then
        s
      else
        let s := s.setStatus .running
        match answers.store .squadStarted with
        | some err => s.ret (.error (.storeError err))
        | none =>
            let s := s.record (.emit .squadStarted)
            { s with phase := .planning stream, returned := none }
  | _ => s

def drive (s : System) (team : ValidTeam) : System :=
  let d : Driver :=
    { team := team
      completed := s.squad.completedMissions
      running := ∅
      todo := []
      managerLoops := 0 }
  { s with phase := .driving d }

/-- The planning phase, of a team that has one. A streamed run ignores whether
its `SquadFailed` is stored, and sets no status. -/
def plan (s : System) (team : ValidTeam) (answer : Except String (Except String Plan))
    (answers : DriverAnswers) : System :=
  match s.phase with
  | .planning stream =>
      if team.team.planning then
        match runPlanningPhase team.team answer with
        | .ok planned => s.drive planned
        | .error e =>
            if stream then
              let failed := SquadEvent.squadFailed e.toString answers.now
              match answers.store failed with
              | some _ => s.ret (.error e)
              | none => (s.record (.emit failed)).ret (.error e)
            else s.ret (.error e)
      else s.drive team
  | _ => s

/-! ## The loop heads -/

/-- `run_dag` at the head of its loop: done, stuck, waiting for what it cannot
hear of any more, or with missions to spawn. -/
def dagHead (s : System) (d : Driver) (answers : DriverAnswers) : System :=
  let scheduler := MissionScheduler.new d.team.team
  if scheduler.allCompleted d.completed then s.complete d answers
  else
    let ready := (scheduler.ready d.completed).filter fun m => m.id ∉ d.running
    if ready.isEmpty then
      if d.running = ∅ then s.ret (.error .cyclicDependency) else s
    else { s with phase := .driving { d with todo := ready } }

def maxManagerLoops : Nat := 100

/-- The mission a manager asks for, by its role. -/
def chooseMission (team : Team) (completed : Finset String) (h : Handoff) :
    Except CompError Mission :=
  let pending (roleId text : String) :=
    match team.missions.find? fun m => m.role = roleId ∧ m.id ∉ completed with
    | some m => .ok m
    | none => .error (.managerError (text ++ roleId ++ "' but no pending mission found"))
  match h.nextRole, h.candidates with
  | some roleId, _ => pending roleId "manager requested role '"
  | none, roleId :: _ => pending roleId "manager requested candidate role '"
  | none, [] =>
      .error (.managerError "manager returned handoff without next_role or candidates")

/-- The handoff in a manager's answer. -/
def managerHandoff (cfg : EngineConfig) (content : Json) : Except CompError Handoff :=
  match Handoff.detect cfg.handoffFromValue content with
  | some (.ok h) => .ok h
  | some (.error e) => .error (.managerError ("manager output is not valid Handoff: " ++ e))
  | none =>
      match cfg.handoffFromValue content with
      | .ok h => .ok h
      | .error e => .error (.managerError ("manager output must be a Handoff object: " ++ e))

/-- What the manager decides: the next mission, or that there is none. -/
def decideNext (cfg : EngineConfig) (d : Driver) (answer : Except String Json) :
    Except CompError (Option Mission) :=
  match answer with
  | .error e => .error (.managerError ("manager execution failed: " ++ e))
  | .ok content =>
      match managerHandoff cfg content with
      | .error e => .error e
      | .ok h =>
          if h.terminate then .ok none
          else (chooseMission d.team.team d.completed h).map some

/-- `run_hierarchical` at the head of its loop. -/
def managerHead (cfg : EngineConfig) (s : System) (d : Driver)
    (manager : Option (Except String Json)) (answers : DriverAnswers) : System :=
  if (MissionScheduler.new d.team.team).allCompleted d.completed then s.complete d answers
  else if maxManagerLoops < d.managerLoops + 1 then
    s.failWith answers ("manager loop exceeded " ++ Nat.repr maxManagerLoops ++ " iterations")
      (.managerLoopExceeded maxManagerLoops)
  else
    match manager with
    | none => s.ret .panicked
    | some answer =>
        match decideNext cfg d answer with
        | .error e => s.ret (.error e)
        | .ok none => s.complete d answers
        | .ok (some m) =>
            { s with phase := .driving { d with todo := [m], managerLoops := d.managerLoops + 1 } }

def head (cfg : EngineConfig) (s : System) (manager : Option (Except String Json))
    (answers : DriverAnswers) : System :=
  match s.phase with
  | .driving d =>
      if d.todo.isEmpty && s.batch.isEmpty then
        match d.team.team.defaultProcess with
        | .sequential => s.dagHead d answers
        | .hierarchical _ => managerHead cfg s d manager answers
      else s
  | _ => s

/-! ## Executions -/

/-- The next of the missions to spawn, when a permit is free. The order they
are spawned in is that of a hash map. -/
def spawn (cfg : EngineConfig) (s : System) (missionId : String) (answers : MissionAnswers) :
    System :=
  match s.phase with
  | .driving d =>
      match d.todo.find? fun m => m.id = missionId with
      | some mission =>
          if (s.batch.filter fun b => !b.ended).length < cfg.maxConcurrency then
            { s with
              phase := .driving { d with
                todo := d.todo.eraseP fun m => m.id = missionId
                running := insert missionId d.running }
              batch := s.batch ++
                [{ executeMission cfg answers s.squad mission with mission := mission }] }
          else s
      | none => s
  | _ => s

/-- The branches with the next act of the `index`th one done, and that act. -/
def popAct (bs : List Branch) (index : Nat) : Option (Act × List Branch) :=
  match bs[index]? with
  | some b =>
      match b.acts with
      | a :: rest => some (a, bs.set index { b with acts := rest })
      | [] => none
  | none => none

def indexOf (bs : List Branch) (missionId : String) : Nat :=
  bs.findIdx fun b => b.mission.id = missionId

def advance (s : System) (missionId : String) : System :=
  match popAct s.batch (indexOf s.batch missionId) with
  | some (a, batch) => { s with batch := batch }.record a
  | none => s

def advanceOrphan (s : System) (index : Nat) : System :=
  match popAct s.orphans index with
  | some (a, orphans) => { s with orphans := orphans }.record a
  | none => s

/-! ## Results -/

/-- The result of a mission that has returned `Ok`: its context is merged, and
unless it paused to be called again the mission is completed. -/
def receiveOk (s : System) (d : Driver) (b : Branch) : System :=
  let s := { s with squad.context := mergeContext s.squad.context b.squad.context }
  match b.squad.status with
  | .waitingForSignal _ | .sleeping _ =>
      let squad := { s.squad with completedMissions := d.completed, status := b.squad.status }
      { s with squad := squad }.ret (.paused b.squad.status)
  | .breakpoint _ =>
      let squad := { s.squad with
        completedMissions := insert b.mission.id d.completed, status := b.squad.status }
      { s with squad := squad }.ret (.paused b.squad.status)
  | _ => { s with phase := .driving { d with completed := insert b.mission.id d.completed } }

/-- A branch that panicked sends nothing and stays in `running`, unless it is
the driver itself that was executing it. -/
def receivePanic (s : System) (d : Driver) (b : Branch) : System :=
  match d.team.team.defaultProcess with
  | .sequential => { s with phase := .driving { d with running := insert b.mission.id d.running } }
  | .hierarchical _ => s.ret .panicked

/-- The driver takes the result of an ended branch, once all are spawned. -/
def receive (s : System) (missionId : String) (answers : DriverAnswers) : System :=
  match s.phase with
  | .driving d =>
      match s.batch.find? fun b => b.mission.id = missionId with
      | some b =>
          if d.todo.isEmpty && b.ended then
            let s := { s with batch := s.batch.eraseP fun b => b.mission.id = missionId }
            let d := { d with running := d.running.erase missionId }
            match b.result with
            | none => s.receivePanic d b
            | some (.ok ()) => { s with phase := .driving d }.receiveOk d b
            | some (.error e) => s.failWith answers e.toString e
          else s
      | none => s
  | _ => s

def step (cfg : EngineConfig) (team : ValidTeam) (s : System) : Label → System
  | .sendSignal signal =>
      match s.phase with
      | .idle => { s with squad := s.squad.sendSignal signal }.record (.delivered signal)
      | _ => s
  | .run stream answers => s.run stream answers
  | .plan answer answers => s.plan team answer answers
  | .head manager answers => head cfg s manager answers
  | .spawn missionId answers => spawn cfg s missionId answers
  | .advance missionId => s.advance missionId
  | .advanceOrphan index => s.advanceOrphan index
  | .receive missionId answers => s.receive missionId answers

/-- The squad after some of its life. -/
def after (cfg : EngineConfig) (team : ValidTeam) (squadId : String) (inputs : Json)
    (labels : List Label) : System :=
  labels.foldl (step cfg team) (deployed team squadId inputs)

end System

end Pandaria.Comp
