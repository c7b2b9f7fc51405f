import Mathlib.Data.Set.Defs
import Pandaria.Agent.Background
import Pandaria.Agent.Call
import Pandaria.Lib.Feed
import Pandaria.Tenant.Supervisor

/-!
# The turns of a session

`send_message` of `tenant/src/manager.rs`, for any number of calls at once on
one session. A call takes its index from the turn counter, asks for the actor
and runs its prompt with the actor locked. The lock is fair: whoever asks first
has it first.

The calls are kept by where they stand. A turn is started when its prompt gets
as far as `run_with_messages`; `started` lists the indexes of the turns that
were, in that order, and the code keeps nothing of the kind.
-/

namespace Pandaria.Tenant

open Pandaria.Ai
open Pandaria.Agent

/-- A call that has its index. -/
structure Turn where
  index : Nat
  content : List Content

structure Turns where
  /-- The prompt that has the actor locked, or the last one that had. -/
  call : Call
  turnCounter : Nat
  /-- Those that have found the session. -/
  called : List (List Content)
  /-- Those that have their index and have not asked for the actor yet. -/
  numbered : List Turn
  /-- Those that wait for the actor, the first of them first. -/
  waiting : List Turn
  /-- The one that has it. -/
  running : Option Turn
  /-- The indexes of those that are over. -/
  returned : List Nat
  started : List Nat

inductive TurnEvent where
  /-- Somebody calls `send_message`. -/
  | call (content : List Content)
  /-- The tenant or its quota refuses a call. -/
  | refuse (i : Nat)
  /-- A call within the quota does its `fetch_add`. -/
  | number (i : Nat)
  /-- A numbered call asks for the actor. -/
  | lock (i : Nat)
  /-- The first one that waits gets the actor. -/
  | grant
  /-- The prompt goes one step further. -/
  | advance
  /-- The prompt is over, and the actor is unlocked. -/
  | unlock
  /-- `reset_session` has the actor in between. -/
  | reset

namespace Turns

/-- The prompt has not got as far as its run. -/
def isPrompt (c : Call) : Bool :=
  match c.phase with
  | .prompt _ => true
  | _ => false

def isHead (c : Call) : Bool :=
  match c.phase with
  | .head => true
  | _ => false

/-- A session that has just been created. -/
def start (cfg : SessionConfig) : Turns :=
  { call := newSession cfg
    turnCounter := 0
    called := []
    numbered := []
    waiting := []
    running := none
    returned := []
    started := [] }

/-- `fetch_add` on a `u64`. -/
def fetchAdd (n : Nat) : Nat := (n + 1) % 2 ^ 64

def step (cfg : SessionConfig) (env : Env) (s : Turns) : TurnEvent → Turns
  | .call content => { s with called := s.called ++ [content] }
  | .refuse i => { s with called := s.called.eraseIdx i }
  | .number i =>
      match s.called[i]? with
      | some content =>
          { s with
            called := s.called.eraseIdx i
            numbered := s.numbered ++ [{ index := s.turnCounter, content := content }]
            turnCounter := fetchAdd s.turnCounter }
      | none => s
  | .lock i =>
      match s.numbered[i]? with
      | some turn =>
          { s with numbered := s.numbered.eraseIdx i, waiting := s.waiting ++ [turn] }
      | none => s
  | .grant =>
      match s.running, s.waiting with
      | none, turn :: rest =>
          { s with
            call := .promptWithContent turn.content s.call.actor
            waiting := rest
            running := some turn }
      | _, _ => s
  | .advance =>
      match s.running with
      | some turn =>
          let c := s.call.step cfg env
          { s with
            call := c
            started := if isPrompt s.call && isHead c then s.started ++ [turn.index]
              else s.started }
      | none => s
  | .unlock =>
      match s.running with
      | some turn =>
          if s.call.inProgress then s
          else { s with running := none, returned := s.returned ++ [turn.index] }
      | none => s
  | .reset =>
      if s.running.isSome then s else { s with call := .ended s.call.actor.reset (.ok []) }

end Turns

end Pandaria.Tenant

/-!
## Two ways to prompt a session

`prompt` of the session goes by its strategy. `send_message` of
`tenant/src/manager.rs` calls `prompt_with_content` instead, within its quota.
Here is the second beside the first, and what a prompt does that can be seen:
the states it goes through, what it returns and leaves behind, and what the
background loops start that it leaves running.
-/

namespace Pandaria.Tenant

open Pandaria.Ai
open Pandaria.Agent

/-- `send_message` with one text, which waits for the actor. -/
def sendMessage (text : String) (s : LoopingSession) : LoopingSession :=
  if s.taken then s
  else { s with call := .promptWithContent [.text text none] s.call.actor, spawning := none }

/-- `prompt` with the same text. -/
def prompt (cfg : SessionConfig) (max : Option UInt32) (env : Env) (text : String)
    (s : LoopingSession) : LoopingSession :=
  s.step cfg max env (.prompt text)

/-- The session after `n` steps of its call. -/
def runFor (cfg : SessionConfig) (max : Option UInt32) (env : Env) (n : Nat) (s : LoopingSession) :
    LoopingSession :=
  (fun s => s.step cfg max env .advance)^[n] s

/-- How a call has ended: with a result, or with a panic. -/
def outcome (c : Call) : Option (Option (Except AgentError (List AgentMessage))) :=
  match c.phase with
  | .returned result => some (some result)
  | .panicked => some none
  | _ => none

/-- What iterations of the background loops are started with, if nobody stops
them. -/
def iterations (max : Option UInt32) (s : LoopingSession) : Set String :=
  { m | ∃ l ∈ s.loops, ∃ k, m ∈ ((BackgroundLoop.step max false)^[k] l).started }

/-- The call comes to an end, with this result, this session and these
iterations to come. -/
def Ends (cfg : SessionConfig) (max : Option UInt32) (env : Env) (s : LoopingSession)
    (result : Option (Except AgentError (List AgentMessage))) (a : SessionActor)
    (later : Set String) : Prop :=
  ∃ n, outcome (runFor cfg max env n s).call = some result ∧
    (runFor cfg max env n s).call.actor = a ∧ iterations max (runFor cfg max env n s) = later

/-- Two prompts go through the same states, and end alike. -/
structure SameEffect (cfg : SessionConfig) (max : Option UInt32) (env : Env)
    (s t : LoopingSession) : Prop where
  shows : ∀ a w,
    (∃ n, (runFor cfg max env n s).call.actor = a ∧ (runFor cfg max env n s).call.world = w) ↔
      ∃ n, (runFor cfg max env n t).call.actor = a ∧ (runFor cfg max env n t).call.world = w
  ends : ∀ result a later, Ends cfg max env s result a later ↔ Ends cfg max env t result a later

end Pandaria.Tenant

/-!
## Waiting for a turn

`send_message` and `send_message_and_wait` of `tenant/src/manager.rs`, any
number of them on one session, and the way of an event from the agent to those
who wait: the queue of `SessionEventHub`, its processor, the broadcast of
`SessionEventBridge` and a forwarder for each subscription.

What a turn emits and how it ends is up to the agent. The turns of a session
follow each other, since the actor is locked for each of them, and everything
else happens in any order.
-/

namespace Pandaria.Tenant

open Pandaria.Agent
open Pandaria.Lib

/-- What a sender is given: the errors of `send_message`, before and after the
turn has begun, its result, and the two of `send_message_and_wait`. An
`AgentError` comes as what `map_agent_error` makes of it. -/
inductive SendResult where
  | refused (e : TenantError)
  | failed (e : AgentError)
  | sent (turnIndex : Nat)
  | completed (turnIndex : Nat) (messages : List AgentMessage)
  | timeout (turnIndex : Nat)

inductive SendPhase where
  /-- `send_message` is called, after `subscribe_events` if there is a wait. -/
  | called
  /-- It waits for the actor. -/
  | queued (turnIndex : Nat)
  | running (turnIndex : Nat)
  /-- The turn is over and the events are read. -/
  | draining (turnIndex deadline : Nat)
  | returned (r : SendResult)

/-- A call. `emitted` are the events of its turn, and `endedAt` is when the
turn has ended without an error; the code keeps neither. Times are in
nanoseconds. -/
structure Sender where
  waits : Bool
  timeoutMs : Nat
  startedAt : Nat
  feed : Feed AgentEvent
  phase : SendPhase
  emitted : List AgentEvent
  endedAt : Option Nat

namespace Sender

def isRunning (c : Sender) : Bool :=
  match c.phase with
  | .running _ => true
  | _ => false

def isReturned (c : Sender) : Bool :=
  match c.phase with
  | .returned _ => true
  | _ => false

end Sender

/-- A session and those who send to it. -/
structure Exchange where
  maxSyncWaitMs : Nat
  now : Nat
  turnCounter : Nat
  /-- The queue of the hub. -/
  queue : List AgentEvent
  /-- What its processor has taken from it. -/
  hand : Option AgentEvent
  senders : List Sender

inductive ExchangeEvent where
  /-- `send_message`, or `send_message_and_wait`. -/
  | call (waits : Bool) (timeoutMs : Nat)
  /-- The quotas are checked and the turn gets its number. -/
  | check (i : Nat) (result : Except TenantError Unit)
  | lock (i : Nat)
  | emit (i : Nat) (e : AgentEvent)
  /-- The turn is over. -/
  | finish (i : Nat) (result : Except AgentError Unit)
  /-- The processor of the hub goes one step further. -/
  | process
  | forward (i : Nat)
  | recv (i : Nat)
  /-- The timeout elapses. -/
  | expire (i : Nat)
  | tick (n : Nat)

namespace Exchange

def start (maxSyncWaitMs : Nat) : Exchange :=
  { maxSyncWaitMs := maxSyncWaitMs
    now := 0
    turnCounter := 0
    queue := []
    hand := none
    senders := [] }

/-- `mpsc::channel::<QueuedEvent>(1024)`. -/
def hubCapacity : Nat := 1024

/-- `broadcast::channel(256)`. -/
def broadcastCapacity : Nat := 256

/-- `mpsc::channel(128)`. -/
def feedCapacity : Nat := 128

/-- `timeout_ms.min(self.max_sync_wait_ms)`. -/
def timeout (s : Exchange) (c : Sender) : Nat := min c.timeoutMs s.maxSyncWaitMs * 1000000

def setSender (s : Exchange) (i : Nat) (c : Sender) : Exchange :=
  { s with senders := s.senders.set i c }

def check (s : Exchange) (i : Nat) (result : Except TenantError Unit) : Exchange :=
  match s.senders[i]? with
  | none => s
  | some c =>
      match c.phase, result with
      | .called, .error e => s.setSender i { c with phase := .returned (.refused e) }
      | .called, .ok () =>
          { s with
            turnCounter := s.turnCounter + 1
            senders := s.senders.set i { c with phase := .queued s.turnCounter } }
      | _, _ => s

def lock (s : Exchange) (i : Nat) : Exchange :=
  match s.senders[i]? with
  | none => s
  | some c =>
      match c.phase with
      | .queued turnIndex =>
          if s.senders.any Sender.isRunning then s
          else s.setSender i { c with phase := .running turnIndex }
      | _ => s

/-- `try_send` of an event of the turn. -/
def emit (s : Exchange) (i : Nat) (e : AgentEvent) : Exchange :=
  match s.senders[i]? with
  | none => s
  | some c =>
      if c.isRunning then
        { s with
          queue := if s.queue.length < hubCapacity then s.queue ++ [e] else s.queue
          senders := s.senders.set i { c with emitted := c.emitted ++ [e] } }
      else s

def finish (s : Exchange) (i : Nat) (result : Except AgentError Unit) : Exchange :=
  match s.senders[i]? with
  | none => s
  | some c =>
      match c.phase, result with
      | .running _, .error e => s.setSender i { c with phase := .returned (.failed e) }
      | .running turnIndex, .ok () =>
          s.setSender i { c with
            phase := if c.waits then .draining turnIndex (s.now + s.timeout c)
              else .returned (.sent turnIndex)
            endedAt := some s.now }
      | _, _ => s

/-- The next event is taken, or `on_event` of the bridge sends it. -/
def process (s : Exchange) : Exchange :=
  match s.hand, s.queue with
  | some e, _ =>
      { s with
        hand := none
        senders := s.senders.map fun c => { c with feed := c.feed.publish broadcastCapacity e } }
  | none, e :: rest => { s with queue := rest, hand := some e }
  | none, [] => s

/-- The forwarder of a subscription, which ends when nobody reads any more. -/
def forward (s : Exchange) (i : Nat) : Exchange :=
  match s.senders[i]? with
  | none => s
  | some c =>
      if c.isReturned then
        s.setSender i { c with feed := { c.feed with forwarder := .ended } }
      else s.setSender i { c with feed := c.feed.forward feedCapacity }

/-- The loop around `rx.recv()`. -/
def recv (s : Exchange) (i : Nat) : Exchange :=
  match s.senders[i]? with
  | none => s
  | some c =>
      match c.phase with
      | .draining turnIndex _ =>
          match c.feed.queue with
          | e :: rest =>
              let c := { c with feed := { c.feed with queue := rest } }
              match e with
              | .turnEnd _ messages =>
                  s.setSender i { c with phase := .returned (.completed turnIndex messages) }
              | .error error => s.setSender i { c with phase := .returned (.failed error) }
              | _ => s.setSender i c
          | [] =>
              match c.feed.forwarder with
              | .ended => s.setSender i { c with phase := .returned (.timeout turnIndex) }
              | _ => s
      | _ => s

/-- The timeout is only looked at when there is nothing to read. -/
def expire (s : Exchange) (i : Nat) : Exchange :=
  match s.senders[i]? with
  | none => s
  | some c =>
      match c.phase with
      | .draining turnIndex deadline =>
          if c.feed.queue = [] ∧ deadline ≤ s.now then
            s.setSender i { c with phase := .returned (.timeout turnIndex) }
          else s
      | _ => s

def act (s : Exchange) : ExchangeEvent → Exchange
  | .call waits timeoutMs =>
      { s with
        senders := s.senders ++
          [{ waits := waits
             timeoutMs := timeoutMs
             startedAt := s.now
             feed := if waits then .subscribe else .silent
             phase := .called
             emitted := []
             endedAt := none }] }
  | .check i result => s.check i result
  | .lock i => s.lock i
  | .emit i e => s.emit i e
  | .finish i result => s.finish i result
  | .process => s.process
  | .forward i => s.forward i
  | .recv i => s.recv i
  | .expire i => s.expire i
  | .tick n => { s with now := s.now + n }

end Exchange

end Pandaria.Tenant
