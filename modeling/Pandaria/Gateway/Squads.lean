import Pandaria.Comp.Engine

/-!
# Squads behind the gateway

`deploy_squad` and `squad_events_stream` of `api-gateway/src/tavern.rs`, for
one squad: its engine, its entry in the registry, the requests for its events
and the tasks that forward them. Nothing else runs a squad there. An entry is
taken out by a forwarding task, at its end.
-/

namespace Pandaria.Comp

def SquadStatus.terminal : SquadStatus → Bool
  | .completed | .failed => true
  | _ => false

def Phase.isIdle : Phase → Bool
  | .idle => true
  | _ => false

def Label.isRun : Label → Bool
  | .run _ _ => true
  | _ => false

end Pandaria.Comp

namespace Pandaria.Gateway

open Pandaria.Comp

/-- A request for the events, once it has found the squad. -/
inductive StreamRequest where
  /-- Before it has the lock of the squad. -/
  | waiting
  /-- It was answered, or given up. -/
  | done
deriving DecidableEq

inductive ForwardPhase where
  | forwarding
  /-- It has ended, and has removed the squad. -/
  | removed
  /-- It was aborted: the client has disconnected. -/
  | aborted
deriving DecidableEq

/-- The task of one stream. -/
structure Forwarder where
  phase : ForwardPhase
  /-- How many executions were left behind when its run started. -/
  before : Nat
deriving DecidableEq

structure SquadEntry where
  system : System
  /-- The registry has it. -/
  listed : Bool
  requests : List StreamRequest
  /-- One for every run that was started, in the same order. -/
  forwarders : List Forwarder

inductive SquadEntryEvent where
  /-- A request for the events that looks the squad up. -/
  | eventsStream
  /-- A request has the lock, and calls `run_stream`. -/
  | runStream (i : Nat) (answers : DriverAnswers)
  /-- A request is given up. -/
  | giveUp (i : Nat)
  /-- A step of the engine, or a signal. -/
  | engine (l : Label)
  /-- The channel of the events is empty and nobody sends to it any more. -/
  | channelClosed (i : Nat)
  /-- The client is gone before the event that is sent to it. -/
  | sendFailed (i : Nat)
  /-- The response is dropped, which aborts the task. -/
  | disconnect (i : Nat)

namespace SquadEntry

def deployed (team : ValidTeam) (squadId : String) (inputs : Ai.Json) : SquadEntry :=
  { system := .deployed team squadId inputs
    listed := true
    requests := []
    forwarders := [] }

def forwards (s : SquadEntry) (i : Nat) : Bool :=
  s.forwarders[i]?.any fun f => f.phase = .forwarding

/-- The executions the run of the task has left behind. -/
def leftBehind (s : SquadEntry) (i : Nat) : List Branch :=
  let before (j : Nat) := (s.forwarders[j]?.map Forwarder.before).getD s.system.orphans.length
  (s.system.orphans.take (before (i + 1))).drop (before i)

/-- The run of the task is over, and so are the executions it has left behind:
each of them has its own sender. -/
def closes (s : SquadEntry) (i : Nat) : Bool :=
  s.forwards i && (decide (i + 1 < s.forwarders.length) || s.system.phase.isIdle) &&
    (s.leftBehind i).all Branch.ended

def setForwarder (s : SquadEntry) (i : Nat) (phase : ForwardPhase) : SquadEntry :=
  { s with forwarders := s.forwarders.modify i fun f => { f with phase := phase } }

/-- After the loop of the task. -/
def remove (s : SquadEntry) (i : Nat) : SquadEntry :=
  { s.setForwarder i .removed with listed := false }

def step (cfg : EngineConfig) (team : ValidTeam) (s : SquadEntry) : SquadEntryEvent → SquadEntry
  | .eventsStream => if s.listed then { s with requests := s.requests ++ [.waiting] } else s
  | .runStream i answers =>
      if s.requests[i]? = some .waiting ∧ s.system.phase.isIdle then
        let s := { s with
          system := s.system.run true answers, requests := s.requests.set i .done }
        -- A squad that is refused, or whose start is not stored, is still idle.
        if s.system.phase.isIdle then s
        else { s with
          forwarders := s.forwarders ++
            [{ phase := .forwarding, before := s.system.orphans.length }] }
      else s
  | .giveUp i => { s with requests := s.requests.set i .done }
  | .engine l => if l.isRun then s else { s with system := s.system.step cfg team l }
  | .channelClosed i => if s.closes i then s.remove i else s
  | .sendFailed i => if s.forwards i then s.remove i else s
  | .disconnect i => if s.forwards i then s.setForwarder i .aborted else s

end SquadEntry

end Pandaria.Gateway
