import Pandaria.Agent.Call
import Pandaria.Storage.Store

/-!
# The stored status of a session

`persist_status` and `persist_incremental` of `harness/session/history.rs`, for
a session whose store is PostgreSQL. Both spawn a task that makes one call of
the store; nobody waits for a task that sets a status, so the tasks that are
pending may go in any order, and the session goes on meanwhile.
-/

namespace Pandaria.Agent

open Pandaria.Ai Pandaria.Storage

/-! ## What a session persists -/

/-- A spawned task that has not made its call yet. -/
inductive PersistTask where
  | status (status : String)
  | append (entries : List SessionEntry)
deriving DecidableEq

def PersistTask.status? : PersistTask → Option String
  | .status s => some s
  | .append _ => none

namespace Call

/-- The `persist_status` of the next step of a call. -/
def nextStatus (c : Call) : Option String :=
  match c.phase with
  | .head => some "active"
  | .looping l =>
      match l.phase with
      | .returned (.error .cancelled) => some "aborted"
      | _ => none
  | .finish _ => some "completed"
  | _ => none

/-- The entries its `persist_incremental` hands to a task. -/
def nextSave (cfg : SessionConfig) (env : Env) (c : Call) : Option (List SessionEntry) :=
  match c.phase with
  | .finish msgs => ((c.actor.finishRun cfg env msgs).history.persistIncremental).bind Prod.snd
  | _ => none

end Call

/-- The `persist_status` at the start of a call. -/
def Op.status : Op → Option String
  | .completeWithDeltas _ => some "active"
  | .abort => some "aborted"
  | _ => none

/-- The entries a `flush` saves itself, if the store does not fail. -/
def Op.saved (env : Env) (a : SessionActor) : Op → Option (List SessionEntry)
  | .flush =>
      let a := if a.history.lastSave then a.tick env else a
      match env.saveSession a.world.now with
      | .ok () => a.history.flush.2
      | .error _ => none
  | _ => none

/-! ## The session, its tasks and its row -/

/-- Where a session is stored, and what it runs with. -/
structure StoreSetting (ν : Type _) where
  store : PgSessionStore SessionEntry ν
  tenantId : String
  sessionId : String
  cfg : SessionConfig
  env : Env

/-- `last` is the status of the last `persist_status`; the code keeps nothing
of the kind. -/
structure Persisting (ν : Type _) where
  call : Call
  pg : Pg ν
  tasks : List PersistTask
  last : Option String

inductive PersistEvent where
  | session (e : SessionEvent)
  /-- A pending task makes its call. -/
  | run (i : Nat)

namespace Persisting

variable {ν : Type _}

/-- A new session, whatever the store holds. -/
def start (p : StoreSetting ν) (pg : Pg ν) : Persisting ν :=
  { call := newSession p.cfg
    pg := pg
    tasks := []
    last := none }

/-- The session persists what it has to, without waiting. -/
def spawn (s : Persisting ν) (status : Option String) (entries : Option (List SessionEntry)) :
    Persisting ν :=
  if s.call.actor.history.hasStore then
    { s with
      tasks := s.tasks ++ (status.map PersistTask.status).toList ++
        (entries.map PersistTask.append).toList
      last := status.or s.last }
  else s

def runTask (p : StoreSetting ν) (pg : Pg ν) : PersistTask → Pg ν
  | .status status => (p.store.updateSessionStatus pg p.tenantId p.sessionId status).1
  | .append entries => (p.store.appendEntries pg p.tenantId p.sessionId entries).1

def step (p : StoreSetting ν) (s : Persisting ν) : PersistEvent → Persisting ν
  | .session .advance =>
      { s.spawn s.call.nextStatus (s.call.nextSave p.cfg p.env) with
        call := s.call.step p.cfg p.env }
  | .session (.op o) =>
      if s.call.inProgress then s
      else
        { s.spawn o.status none with
          call := o.begin p.cfg p.env s.call.actor
          pg := match o.saved p.env s.call.actor with
            | some entries => (p.store.saveSession s.pg p.tenantId p.sessionId entries).1
            | none => s.pg }
  | .run i =>
      match s.tasks[i]? with
      | some task => { s with pg := runTask p s.pg task, tasks := s.tasks.eraseIdx i }
      | none => s

/-- The stored status of the session. -/
def storedStatus (p : StoreSetting ν) (pg : Pg ν) : Option String :=
  (pg.sessions.get? (p.tenantId, p.sessionId)).map SessionRow.status

end Persisting

end Pandaria.Agent
