import Pandaria.Ai.Types
import Pandaria.Lib.Table
import Mathlib.Data.Finset.Basic

/-!
# Teams and their missions

`tavern-comp/src/team/definition.rs`, `mission.rs`, `role.rs`, `scheduler.rs`,
and the planning phase of `engine.rs`. Names, descriptions, skills and the
webhook of a team go into prompts and notifications only and are left out.

A `ValidTeam` carries the check that `deploy`, `run_stream` and the planning
phase all make before anything runs.
-/

namespace Pandaria.Comp

open Pandaria.Ai Pandaria.Lib

/-! ## Errors -/

/-- The errors of `CompError` that a squad can end with. -/
inductive CompError where
  | roleNotFound (id : String)
  | missionNotFound (id : String)
  | squadClosed (id : String)
  | cyclicDependency
  | templateParse (reason : String)
  | stepFailed (stepId reason : String)
  | configParse (path reason : String)
  | storeError (message : String)
  | missionFailed (missionId : String) (attempt : Nat) (reason : String)
  | managerError (reason : String)
  | managerLoopExceeded (maxLoops : Nat)
  | planningError (reason : String)
deriving DecidableEq

/-- The `Display` form. -/
def CompError.toString : CompError → String
  | .roleNotFound id => "role '" ++ id ++ "' not found in team"
  | .missionNotFound id => "mission '" ++ id ++ "' not found in squad"
  | .squadClosed id => "squad '" ++ id ++ "' is already closed"
  | .cyclicDependency => "cyclic dependency detected in workflow"
  | .templateParse reason => "template parse error: " ++ reason
  | .stepFailed stepId reason => "step '" ++ stepId ++ "' failed: " ++ reason
  | .configParse path reason => "config parse failed at " ++ path ++ ": " ++ reason
  | .storeError message => "event store error: " ++ message
  | .missionFailed missionId attempt reason =>
      "mission '" ++ missionId ++ "' failed on attempt " ++ Nat.repr attempt ++ ": " ++ reason
  | .managerError reason => "manager agent error: " ++ reason
  | .managerLoopExceeded maxLoops =>
      "manager loop exceeded max loops (" ++ Nat.repr maxLoops ++ ")"
  | .planningError reason => "planning error: " ++ reason

/-! ## The definition of a team -/

inductive HandoffMode where
  | inherit
  | required
  | auto
deriving DecidableEq

structure Mission where
  id : String
  role : String
  task : String
  dependsOn : List String
  orDependsOn : List String
  outputKey : Option String
  handoffMode : HandoffMode
  timeout : Option Nat
  retries : Option Nat
  retryDelay : Option Nat
  waitForSignal : Option String
  breakpoint : Bool
deriving DecidableEq

structure Role where
  id : String
  agentId : String
deriving DecidableEq

inductive Process where
  | sequential
  /-- With the role of the manager. -/
  | hierarchical (agentId : String)
deriving DecidableEq

structure Team where
  id : String
  roles : List Role
  missions : List Mission
  defaultProcess : Process
  /-- `planning.enabled`, of a team that has the section. -/
  planning : Bool
deriving DecidableEq

/-- `tavern_core::is_valid_id`. -/
def isValidId (id : String) : Bool :=
  !id.isEmpty && decide (id.utf8ByteSize ≤ 64) &&
    id.toList.all fun c => c.isAlphanum || c = '_' || c = '-'

namespace Team

def invalid (reason : String) : Except CompError Unit := .error (.configParse "<team>" reason)

/-- The loop over the roles, with the ids it has seen. -/
def validateRoles (seen : List String) : List Role → Except CompError Unit
  | [] => .ok ()
  | role :: rest =>
      if role.id ∈ seen then invalid ("duplicate role id '" ++ role.id ++ "'")
      else if (trim role.agentId.toList).isEmpty then
        invalid ("role '" ++ role.id ++ "' has empty agent_id")
      else validateRoles (role.id :: seen) rest

/-- The loop over the missions, with the ids it has seen. -/
def validateMissions (seen : List String) : List Mission → Except CompError Unit
  | [] => .ok ()
  | mission :: rest =>
      if mission.id ∈ seen then invalid ("duplicate mission id '" ++ mission.id ++ "'")
      else validateMissions (mission.id :: seen) rest

/-- Every dependency exists. Alternative dependencies are not looked at. -/
def validateDependencies (missions : List Mission) : Except CompError Unit :=
  match (missions.flatMap Mission.dependsOn).find? fun dep => dep ∉ missions.map Mission.id with
  | some dep => .error (.missionNotFound dep)
  | none => .ok ()

def validateProcess (team : Team) : Except CompError Unit :=
  match team.defaultProcess with
  | .sequential => .ok ()
  | .hierarchical agentId =>
      if team.roles.any fun r => r.id = agentId then .ok ()
      else invalid ("hierarchical manager role '" ++ agentId ++ "' not found in team roles")

def validate (team : Team) : Except CompError Unit := do
  if isValidId team.id = false then invalid ("invalid team id '" ++ team.id ++ "'")
  if team.roles.isEmpty then invalid "team must have at least one role"
  validateRoles [] team.roles
  validateMissions [] team.missions
  validateDependencies team.missions
  team.validateProcess

end Team

/-- A team that passes its own check. -/
structure ValidTeam where
  team : Team
  valid : team.validate = .ok ()

def Team.check (team : Team) : Except CompError ValidTeam :=
  match h : team.validate with
  | .ok () => .ok ⟨team, h⟩
  | .error e => .error e

/-! ## Planning -/

structure PlanStep where
  taskId : String
  reasoning : String
  expectedOutput : String
  dependencies : List String

structure Plan where
  steps : List PlanStep
  overallStrategy : String

/-- What a plan adds to a mission. The planner may reorder the missions of a
sequential team. -/
def Plan.inject (plan : Plan) (process : Process) (mission : Mission) : Mission :=
  match plan.steps.find? fun ps => ps.taskId = mission.id with
  | some ps =>
      { mission with
        task := mission.task ++ "\n\n[Plan Context]\nOverall Strategy: " ++ plan.overallStrategy ++
          "\nYour role in this plan: " ++ ps.reasoning ++ "\nExpected output: " ++ ps.expectedOutput
        dependsOn :=
          if process = .sequential ∧ ps.dependencies ≠ [] then ps.dependencies
          else mission.dependsOn }
  | none => mission

/-- `run_planning_phase`, from the planner's answer: the error of the executor,
or the text parsed as a plan. -/
def runPlanningPhase (team : Team) (answer : Except String (Except String Plan)) :
    Except CompError ValidTeam :=
  match answer with
  | .error e => .error (.planningError ("planner agent execution failed: " ++ e))
  | .ok (.error e) => .error (.planningError ("failed to parse plan JSON: " ++ e))
  | .ok (.ok plan) =>
      match plan.steps.find? fun ps => ps.taskId ∉ team.missions.map Mission.id with
      | some ps =>
          .error (.planningError ("plan references unknown mission_id: " ++ ps.taskId))
      | none => { team with missions := team.missions.map (plan.inject team.defaultProcess) }.check

/-! ## The scheduler -/

abbrev MissionScheduler := Table String Mission

namespace MissionScheduler

def new (team : Team) : MissionScheduler :=
  team.missions.foldl (fun t m => t.upsert m.id fun _ => m) .empty

/-- The missions that are not completed, have all they depend on, and one of
their alternatives where they name any. -/
def ready (t : MissionScheduler) (completed : Finset String) : List Mission :=
  (t.rows.map Prod.snd).filter fun m =>
    decide (m.id ∉ completed) && m.dependsOn.all (fun dep => dep ∈ completed) &&
      (m.orDependsOn.isEmpty || m.orDependsOn.any fun dep => dep ∈ completed)

def allCompleted (t : MissionScheduler) (completed : Finset String) : Bool :=
  t.rows.all fun r => r.1 ∈ completed

end MissionScheduler

end Pandaria.Comp
