import Pandaria.Agent.Call
import Pandaria.Agent.History

/-!
# A session of the manager

`ActiveSession` of `tenant/src/session_entry.rs` and the calls of
`TenantManagerImpl` that have to do with its abort token. The manager keeps a
copy of the actor's token, so that `interrupt` gets at it while the actor is
locked; the actor makes a new one whenever it starts an agent loop.

Tokens are numbered in the order they are made. The world of a call says
whether the actor's own is cancelled; for the others there is a list.
-/

namespace Pandaria.Agent

/-- The token of the session is cancelled from outside. -/
def Call.cancel (c : Call) : Call :=
  match c.phase with
  | .looping l =>
      { c with
        phase := .looping
          { l with locals := { l.locals with world := l.locals.world.abort } } }
  | .deltas l =>
      { c with
        phase := .deltas
          { l with locals := { l.locals with world := l.locals.world.abort } } }
  | _ => { c with actor := { c.actor with world := c.actor.world.abort } }

end Pandaria.Agent

namespace Pandaria.Tenant

open Pandaria.Ai
open Pandaria.Agent

structure ActiveSession where
  /-- The call that has the actor locked, or the last one that had. -/
  call : Call
  /-- The manager's token. -/
  abortToken : Nat
  /-- The actor's token. -/
  current : Nat
  /-- How many tokens have been made. -/
  made : Nat
  /-- The cancelled ones among those that are not the actor's. -/
  cancelled : List Nat

inductive ManagerEvent where
  /-- A `send_message` within the quota. -/
  | sendMessage (content : List Content)
  | interrupt
  | resetSession
  /-- The call in progress goes one step further. -/
  | advance

namespace ActiveSession

/-- `create_session`: the token is that of the actor. -/
def createSession (cfg : SessionConfig) : ActiveSession :=
  { call := newSession cfg
    abortToken := 0
    current := 0
    made := 1
    cancelled := [] }

def isCancelled (s : ActiveSession) (token : Nat) : Bool :=
  if token = s.current then s.call.world.cancelled else decide (token ∈ s.cancelled)

/-- The call goes on, and has a new token when it starts an agent loop. -/
def advance (cfg : SessionConfig) (env : Env) (s : ActiveSession) : ActiveSession :=
  match s.call.phase with
  | .head =>
      { s with
        call := s.call.step cfg env
        current := s.made
        made := s.made + 1
        cancelled :=
          if s.call.world.cancelled then s.current :: s.cancelled else s.cancelled }
  | _ => { s with call := s.call.step cfg env }

/-- `send_message` and `reset_session` wait for the actor, `interrupt` does
not. Nobody else cancels a token of the session. -/
def step (cfg : SessionConfig) (env : Env) (s : ActiveSession) : ManagerEvent → ActiveSession
  | .sendMessage content =>
      if s.call.inProgress then s
      else { s with call := .promptWithContent content s.call.actor }
  | .interrupt =>
      if s.abortToken = s.current then { s with call := s.call.cancel }
      else { s with cancelled := s.abortToken :: s.cancelled }
  | .resetSession =>
      if s.call.inProgress then s
      else { s with call := .ended s.call.actor.reset (.ok []), abortToken := s.current }
  | .advance => s.advance cfg { env with abort := fun _ => false }

end ActiveSession

end Pandaria.Tenant

/-!
## The sessions map

What the operations of `TenantManagerImpl` in `tenant/src/manager.rs` do with
`self.sessions`. The map is a `DashMap`: its keys are spread over shards, each
behind a readers-writer lock that is not reentrant. `get` and `get_mut` hold
the shard for as long as the reference lives that they return; `insert` and
`remove` write and let it go again.

An operation is a program whose steps are those of the map and whatever comes
between them and may fail. The latter is a question, and any answer to it may
come.
-/

namespace Pandaria.Tenant

open Pandaria.Agent

abbrev SessionKey := String × Uuid

/-- What an operation asks between its accesses of the map. -/
inductive Question where
  /-- `registry.get` finds the tenant. -/
  | registered
  /-- `reserve_session` gives a guard. -/
  | reserved
  /-- `validate_external_tool_endpoints` lets the tools pass. -/
  | endpoints
  /-- `SessionBuilder::build` succeeds. -/
  | built
  /-- `setup_webhook` succeeds. -/
  | webhook
  /-- A batch is within its limits. -/
  | batch
  /-- The quota lets a message pass. -/
  | quota
  /-- What is done with the actor locked goes well. -/
  | actor
  /-- The source of a fork has messages. -/
  | messages
deriving DecidableEq

inductive Program where
  | done
  | get (key : SessionKey) (next : Bool → Program)
  | getMut (key : SessionKey) (next : Bool → Program)
  | insert (key : SessionKey) (next : Program)
  | remove (key : SessionKey) (next : Bool → Program)
  /-- The reference that was taken last goes out of scope. -/
  | drop (next : Program)
  | ask (question : Question) (next : Bool → Program)
  /-- `Uuid::new_v4` -/
  | newId (next : Uuid → Program)
  /-- `iter` or `len`, which lock one shard after the other. -/
  | scan (next : List SessionKey → Program)

/-! ### The operations -/

namespace Program

/-- `create_session`, with what is done with the new id, or without one. -/
def createSession (tenantId : String) (next : Option Uuid → Program) : Program :=
  .ask .registered fun registered =>
    if !registered then next none
    else .ask .reserved fun reserved =>
      if !reserved then next none
      else .newId fun sessionId =>
        .ask .endpoints fun allowed =>
          if !allowed then next none
          else .ask .built fun built =>
            if !built then next none
            else .ask .webhook fun set =>
              if !set then next none
              else .insert (tenantId, sessionId) (next (some sessionId))

/-- An operation that does something with the entry and returns. -/
def withEntry (key : SessionKey) (question : Question) : Program :=
  .get key fun found =>
    if found then .ask question fun _ => .drop .done else .done

def getSession (key : SessionKey) : Program :=
  .get key fun found => if found then .drop .done else .done

def sendMessage (key : SessionKey) (next : Program) : Program :=
  .get key fun found =>
    if !found then next
    else .ask .quota fun within =>
      if !within then .drop next else .ask .actor fun _ => .drop next

/-- `subscribe_events`, then `send_message`. -/
def sendMessageAndWait (key : SessionKey) : Program :=
  .get key fun found => if found then .drop (sendMessage key .done) else .done

def updateSession (key : SessionKey) : Program :=
  .getMut key fun found =>
    if found then .ask .actor fun _ => .drop .done else .done

def deleteSession (key : SessionKey) (next : Program) : Program :=
  .remove key fun found => if found then .ask .actor fun _ => next else next

def deleteAll (keys : List SessionKey) : Program := keys.foldr deleteSession .done

/-- The loop of `batch_create_sessions`, with what it has created so far. -/
def batchLoop (tenantId : String) : Nat → List SessionKey → Program
  | 0, _ => .done
  | count + 1, created =>
      createSession tenantId fun
        | some sessionId => batchLoop tenantId count (created ++ [(tenantId, sessionId)])
        | none => deleteAll created

def batchCreateSessions (tenantId : String) (count : Nat) : Program :=
  if 10 < count then .done
  else .ask .registered fun registered =>
    if !registered then .done
    else .ask .batch fun within => if within then batchLoop tenantId count [] else .done

/-- The reference to the source lives until the end. -/
def cloneSession (key : SessionKey) : Program :=
  .get key fun found =>
    if !found then .done
    else .ask .actor fun _ => createSession key.1 fun _ => .drop .done

def forkSession (key : SessionKey) : Program :=
  .get key fun found =>
    if !found then .done
    else .ask .actor fun _ => createSession key.1 fun
      | none => .drop .done
      | some sessionId =>
          .ask .messages fun any =>
            if !any then .drop .done
            else .get (key.1, sessionId) fun found =>
              if !found then .drop .done else .ask .actor fun _ => .drop (.drop .done)

def listSessions : Program := .scan fun _ => .done

def activeSessionCount : Program := .scan fun _ => .done

def shutdown : Program := .scan deleteAll

end Program

inductive ManagerOp where
  | createSession (tenantId : String)
  | listSessions
  | getSession (key : SessionKey)
  | sendMessage (key : SessionKey)
  | sendMessageAndWait (key : SessionKey)
  | interrupt (key : SessionKey)
  | subscribeEvents (key : SessionKey)
  | deleteSession (key : SessionKey)
  | updateSession (key : SessionKey)
  | compactSession (key : SessionKey)
  | getSessionMessages (key : SessionKey)
  | getSessionState (key : SessionKey)
  | resetSession (key : SessionKey)
  | batchCreateSessions (tenantId : String) (count : Nat)
  | cloneSession (key : SessionKey)
  | forkSession (key : SessionKey)
  | shutdown
  | activeSessionCount

namespace ManagerOp

def program : ManagerOp → Program
  | .createSession tenantId => .createSession tenantId fun _ => .done
  | .listSessions => .listSessions
  | .getSession key | .interrupt key | .subscribeEvents key => .getSession key
  | .sendMessage key => .sendMessage key .done
  | .sendMessageAndWait key => .sendMessageAndWait key
  | .deleteSession key => .deleteSession key .done
  | .updateSession key => .updateSession key
  | .compactSession key | .getSessionMessages key | .getSessionState key | .resetSession key =>
      .withEntry key .actor
  | .batchCreateSessions tenantId count => .batchCreateSessions tenantId count
  | .cloneSession key => .cloneSession key
  | .forkSession key => .forkSession key
  | .shutdown => .shutdown
  | .activeSessionCount => .activeSessionCount

/-- It makes a copy of a session. -/
def copies : ManagerOp → Bool
  | .cloneSession _ | .forkSession _ => true
  | _ => false

end ManagerOp

/-! ### Tasks and shards -/

inductive LockMode where
  | shared
  | exclusive
deriving DecidableEq

/-- A lock of a shard that a reference keeps. -/
structure Held (σ : Type) where
  shard : σ
  mode : LockMode

/-- An operation in progress. -/
structure MapTask (σ : Type) where
  op : ManagerOp
  program : Program
  /-- Its references, the one that was taken last first. -/
  refs : List (Held σ)
  /-- The shard its scan is at. -/
  scanning : Option σ

structure SessionMap (σ : Type) where
  keys : List SessionKey
  tasks : List (MapTask σ)

/-- What comes next of a task: its next access of the map is made, if the lock
can be had, or its question is answered. -/
inductive Advance (σ : Type) where
  | go
  | answer (yes : Bool)
  /-- Its future is dropped while it awaits an answer. -/
  | abandon
  | newId (sessionId : Uuid)
  | visit (shard : σ)
  | scanned (keys : List SessionKey)

inductive MapEvent (σ : Type) where
  | call (op : ManagerOp)
  | step (i : Nat) (advance : Advance σ)

namespace MapTask

variable {σ : Type}

/-- All locks the task holds. -/
def holds (t : MapTask σ) : List (Held σ) :=
  (t.scanning.map fun shard => { shard := shard, mode := .shared }).toList ++ t.refs

end MapTask

namespace Program

/-- The lock that the next step of a program requests. -/
def request : Program → Option (SessionKey × LockMode)
  | .get key _ => some (key, .shared)
  | .getMut key _ | .insert key _ | .remove key _ => some (key, .exclusive)
  | .done | .drop _ | .ask .. | .newId _ | .scan _ => none

def question : Program → Option Question
  | .ask question _ => some question
  | _ => none

end Program

namespace SessionMap

variable {σ : Type} [DecidableEq σ]

/-- The locks that are held keep nobody from one of this mode. -/
def grants (s : SessionMap σ) (shard : σ) (mode : LockMode) : Bool :=
  s.tasks.all fun t => t.holds.all fun h =>
    h.shard ≠ shard || (h.mode = .shared && mode = .shared)

/-- The task after its next step and the keys of the map, unless it has to
wait. -/
def advance (shard : SessionKey → σ) (s : SessionMap σ) (t : MapTask σ) :
    Advance σ → Option (MapTask σ × List SessionKey)
  | .go =>
      match t.program with
      | .get key next =>
          if s.grants (shard key) .shared then
            let refs := if key ∈ s.keys then { shard := shard key, mode := .shared } :: t.refs
              else t.refs
            some ({ t with program := next (key ∈ s.keys), refs := refs }, s.keys)
          else none
      | .getMut key next =>
          if s.grants (shard key) .exclusive then
            let refs := if key ∈ s.keys then { shard := shard key, mode := .exclusive } :: t.refs
              else t.refs
            some ({ t with program := next (key ∈ s.keys), refs := refs }, s.keys)
          else none
      | .insert key next =>
          if s.grants (shard key) .exclusive then
            some ({ t with program := next }, s.keys.insert key)
          else none
      | .remove key next =>
          if s.grants (shard key) .exclusive then
            some ({ t with program := next (key ∈ s.keys) }, s.keys.filter (· ≠ key))
          else none
      | .drop next => some ({ t with program := next, refs := t.refs.tail }, s.keys)
      | _ => none
  | .answer yes =>
      match t.program with
      | .ask _ next => some ({ t with program := next yes }, s.keys)
      | _ => none
  | .abandon =>
      match t.program with
      | .ask .. => some ({ t with program := .done, refs := [] }, s.keys)
      | _ => none
  | .newId sessionId =>
      match t.program with
      | .newId next => some ({ t with program := next sessionId }, s.keys)
      | _ => none
  | .visit target =>
      match t.program with
      | .scan _ =>
          if s.grants target .shared then some ({ t with scanning := some target }, s.keys)
          else none
      | _ => none
  | .scanned keys =>
      match t.program with
      | .scan next => some ({ t with program := next keys, scanning := none }, s.keys)
      | _ => none

def step (shard : SessionKey → σ) (s : SessionMap σ) : MapEvent σ → SessionMap σ
  | .call op =>
      { s with
        tasks := s.tasks ++
          [{ op := op, program := op.program, refs := [], scanning := none }] }
  | .step i a =>
      match s.tasks[i]? with
      | some t =>
          match s.advance shard t a with
          | some (t, keys) => { keys := keys, tasks := s.tasks.set i t }
          | none => s
      | none => s

end SessionMap

end Pandaria.Tenant
