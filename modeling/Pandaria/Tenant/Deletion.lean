import Pandaria.Tenant.Session

/-!
# Deleting a session

`delete_session` of `tenant/src/manager.rs`, beside any number of calls on the
same session. A call finds the entry in the map and keeps its reference, and
with it the lock of the shard, until it returns; the removal writes to the
shard. What else is done with the shard are references of others.

`late` is what starts after the slot has been given back. Nobody keeps that.
-/

namespace Pandaria.Agent

/-- A call of the provider starts, or the execution of a tool. -/
def Obs.isStart : Obs → Bool
  | .stream _ | .summarise _ | .execute .. => true
  | .event _ | .abort => false

end Pandaria.Agent

namespace Pandaria.Tenant

open Pandaria.Ai
open Pandaria.Agent

/-- The lock of a shard: how many references share it, and whether one has it
to itself. -/
structure ShardLock where
  readers : Nat
  writer : Bool
deriving DecidableEq

/-- A call on the session that has found it. -/
inductive Caller where
  /-- Before it has the actor: its quota is checked, and it waits. -/
  | found (op : Op)
  /-- It has the actor. -/
  | running
  /-- It has returned, or its future was dropped. -/
  | gone

def Caller.isActive : Caller → Bool
  | .found _ | .running => true
  | .gone => false

def Caller.isRunning : Caller → Bool
  | .running => true
  | .found _ | .gone => false

/-- Where a `delete_session` stands. -/
inductive DeletePhase where
  | called
  /-- It has removed the entry. -/
  | removed
  /-- It has dropped the guard, and waits for the actor. -/
  | released
  /-- It has shut the actor down. -/
  | shut
  | returned (found : Bool)
deriving DecidableEq

structure Deletion where
  /-- The call that has the actor, or the last one that had. -/
  call : Call
  lock : ShardLock
  /-- The entry is in the map. -/
  present : Bool
  /-- Its guard is live. -/
  slot : Bool
  callers : List Caller
  /-- The shared references of others. -/
  others : Nat
  deletions : List DeletePhase
  late : List Obs

inductive DeletionEvent where
  /-- A call that looks the session up. -/
  | call (op : Op)
  /-- A call gets the actor. -/
  | start (i : Nat)
  /-- The call that has the actor goes one step further. -/
  | advance
  /-- A call returns, or its future is dropped, whichever way its quota, its
  lock or its prompt went. -/
  | leave (i : Nat)
  /-- Others take references into the shard and let them go. -/
  | borrow
  | giveBack
  | borrowMut
  | giveBackMut
  /-- Somebody calls `delete_session`. -/
  | delete
  | step (i : Nat)

namespace Deletion

/-- A session that has just been created. -/
def start (cfg : SessionConfig) : Deletion :=
  { call := newSession cfg
    lock := { readers := 0, writer := false }
    present := true
    slot := true
    callers := []
    others := 0
    deletions := []
    late := [] }

/-- A call of the session goes on, to `c`. What it starts is late when the slot
has been given back. -/
def goOn (s : Deletion) (c : Call) : Deletion :=
  let before := s.call.world.trace
  let after := c.world.trace
  let new := if before <+: after then after.drop before.length else after
  { s with
    call := c
    late := if s.slot then s.late else s.late ++ new.filter Obs.isStart }

/-- The call that had the actor is over, or cut off where it stands. -/
def cutOff (c : Call) : Call :=
  if c.inProgress then .ended { c.actor with world := c.world } (.error .cancelled) else c

/-- The next step of a `delete_session` that is at `phase`. -/
def deleteStep (s : Deletion) (i : Nat) : DeletePhase → Deletion
  | .called =>
      if s.lock.readers = 0 ∧ s.lock.writer = false then
        if s.present then { s with present := false, deletions := s.deletions.set i .removed }
        else { s with deletions := s.deletions.set i (.returned false) }
      else s
  | .removed => { s with slot := false, deletions := s.deletions.set i .released }
  | .released =>
      -- The actor is locked, and `shutdown` cancels its token.
      if s.callers.any Caller.isRunning then s
      else { s with call := s.call.cancel, deletions := s.deletions.set i .shut }
  | .shut => { s with call := s.call.cancel, deletions := s.deletions.set i (.returned true) }
  | .returned _ => s

def step (cfg : SessionConfig) (env : Env) (s : Deletion) : DeletionEvent → Deletion
  | .call op =>
      if s.lock.writer = false ∧ s.present then
        { s with
          lock := { s.lock with readers := s.lock.readers + 1 }
          callers := s.callers ++ [.found op] }
      else s
  | .start i =>
      match s.callers[i]? with
      | some (.found op) =>
          if s.callers.any Caller.isRunning then s
          else { s.goOn (op.begin cfg env s.call.actor) with callers := s.callers.set i .running }
      | _ => s
  | .advance => if s.callers.any Caller.isRunning then s.goOn (s.call.step cfg env) else s
  | .leave i =>
      match s.callers[i]? with
      | some (.found _) =>
          { s with
            lock := { s.lock with readers := s.lock.readers - 1 }
            callers := s.callers.set i .gone }
      | some .running =>
          { s with
            call := cutOff s.call
            lock := { s.lock with readers := s.lock.readers - 1 }
            callers := s.callers.set i .gone }
      | _ => s
  | .borrow =>
      if s.lock.writer then s
      else
        { s with
          lock := { s.lock with readers := s.lock.readers + 1 }
          others := s.others + 1 }
  | .giveBack =>
      if s.others = 0 then s
      else
        { s with
          lock := { s.lock with readers := s.lock.readers - 1 }
          others := s.others - 1 }
  | .borrowMut =>
      if s.lock.readers = 0 ∧ s.lock.writer = false then
        { s with lock := { s.lock with writer := true } }
      else s
  | .giveBackMut => { s with lock := { s.lock with writer := false } }
  | .delete => { s with deletions := s.deletions ++ [.called] }
  | .step i =>
      match s.deletions[i]? with
      | some phase => s.deleteStep i phase
      | none => s

end Deletion

end Pandaria.Tenant
