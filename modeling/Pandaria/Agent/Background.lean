import Mathlib.Data.UInt
import Pandaria.Agent.Call

/-!
# Background loops

`spawn_background_loop` of `agent-core/src/harness/session/mod.rs`, beside the
session that spawns the loops. A loop keeps a clone of the abort token the
session has when it is spawned. Tokens are numbered in the order they are made,
and one that has been cancelled stays so.

What an iteration does, it does with a loop of its own and without the session;
here it is no more than the message it starts with.
-/

namespace Pandaria.Agent

open Pandaria.Ai

/-- The text of the message of `run_background_iteration`. -/
def TerminationStrategy.iterationText (termination : TerminationStrategy) (task : String) :
    String :=
  match termination with
  | .goal g => buildInitialGoalPrompt task g.criteria
  | .once => task

inductive BackgroundPhase where
  | head
  /-- In the `select!` between the delay and the token. -/
  | sleeping
  /-- In `run_background_iteration`. -/
  | running
  | ended
deriving DecidableEq

/-- A task of `spawn_background_loop`. The code does not keep `started`, the
messages of its iterations, nor whether the session has been stopped since it
was spawned, nor whether an iteration was started after that. -/
structure BackgroundLoop where
  task : String
  termination : TerminationStrategy
  token : Nat
  iteration : UInt32
  phase : BackgroundPhase
  started : List String
  stopped : Bool
  late : Bool
deriving DecidableEq

namespace BackgroundLoop

def spawn (task : String) (termination : TerminationStrategy) (token : Nat) : BackgroundLoop :=
  { task := task
    termination := termination
    token := token
    iteration := 1
    phase := .head
    started := []
    stopped := false
    late := false }

/-- The next step of a loop with the bound `max`, whose token is `cancelled` or
not. From the last look at the token to the start of the iteration there is no
await. -/
def step (max : Option UInt32) (cancelled : Bool) (l : BackgroundLoop) : BackgroundLoop :=
  match l.phase with
  | .head =>
      if cancelled then { l with phase := .ended }
      else if max.any fun m => m ≤ l.iteration then { l with phase := .ended }
      else { l with phase := .sleeping }
  | .sleeping =>
      if cancelled then { l with phase := .ended }
      else
        { l with
          iteration := l.iteration + 1
          phase := .running
          started := l.started ++ [l.termination.iterationText l.task]
          late := l.late || l.stopped }
  -- The result goes into an event, and an error does not end the loop.
  | .running => { l with phase := .head }
  | .ended => l

/-- The iterations so far, with the one that was run by the prompt. -/
def iterations (l : BackgroundLoop) : Nat := 1 + l.started.length

end BackgroundLoop

/-! ## The session beside its loops -/

/-- `spawning` is the text of the prompt in progress, when a loop follows it. -/
structure LoopingSession where
  call : Call
  spawning : Option String
  /-- The session's token. -/
  current : Nat
  /-- How many tokens have been made. -/
  made : Nat
  cancelled : List Nat
  dropped : Bool
  loops : List BackgroundLoop

inductive LoopingEvent where
  | prompt (text : String)
  /-- The prompt in progress goes one step further. -/
  | advance
  /-- The future of the prompt in progress is dropped. -/
  | dropPrompt
  | abort
  | reset
  | shutdown
  | drop
  /-- A loop goes one step further. -/
  | loop (i : Nat)

namespace LoopingSession

def start (cfg : SessionConfig) (strategy : SessionStrategy) : LoopingSession :=
  { call := Op.begin cfg .quiet (.new cfg) (.setStrategy strategy)
    spawning := none
    current := 0
    made := 1
    cancelled := []
    dropped := false
    loops := [] }

/-- Nothing else can be called: a call borrows the session. -/
def taken (s : LoopingSession) : Bool := s.call.inProgress || s.dropped

/-- `prompt` will spawn a loop when its first run succeeds. -/
def spawns (cfg : SessionConfig) (s : LoopingSession) : Bool :=
  s.call.actor.strategy.rhythm = .loop && !cfg.cronDisabled

/-- The session's token is cancelled by `abort`, `reset`, `shutdown` or `drop`. -/
def cancel (s : LoopingSession) (c : Call) : LoopingSession :=
  { s with call := c, cancelled := s.current :: s.cancelled }

/-- The loops there are must not go on. -/
def stop (s : LoopingSession) : LoopingSession :=
  { s with loops := s.loops.map fun l => { l with stopped := true } }

/-- The call in progress is now `c`. Its token is a new one when it was about to
start an agent loop, and may have been cancelled meanwhile. -/
def goOn (s : LoopingSession) (c : Call) : LoopingSession :=
  let s := match s.call.phase with
    | .head => { s with current := s.made, made := s.made + 1 }
    | _ => s
  { s with
    call := c
    cancelled := if c.world.cancelled then s.current :: s.cancelled else s.cancelled }

/-- The end of `prompt`. -/
def finish (s : LoopingSession) : LoopingSession :=
  match s.call.phase, s.spawning with
  | .returned (.ok _), some task =>
      { s with
        spawning := none
        loops := s.loops ++ [.spawn task s.call.actor.strategy.termination s.current] }
  | .returned (.error _), _ | .panicked, _ => { s with spawning := none }
  | _, _ => s

def step (cfg : SessionConfig) (max : Option UInt32) (env : Env) (s : LoopingSession) :
    LoopingEvent → LoopingSession
  | .prompt text =>
      if s.taken then s
      else
        { s with
          call := .prompt cfg text s.call.actor
          spawning := if s.spawns cfg then some text else none }
  | .advance => if s.call.inProgress then (s.goOn (s.call.step cfg env)).finish else s
  | .dropPrompt =>
      if s.call.inProgress then
        { s with
          call := .ended { s.call.actor with world := s.call.world } (.error .cancelled)
          spawning := none }
      else s
  | .abort => if s.taken then s else (s.cancel (Op.abort.begin cfg env s.call.actor)).stop
  | .reset => if s.taken then s else s.cancel (Op.reset.begin cfg env s.call.actor)
  | .shutdown => if s.taken then s else (s.cancel (Op.abort.begin cfg env s.call.actor)).stop
  | .drop =>
      if s.taken then s
      else { (s.cancel (Op.abort.begin cfg env s.call.actor)).stop with dropped := true }
  | .loop i =>
      { s with loops := s.loops.modify i fun l => l.step max (decide (l.token ∈ s.cancelled)) }

end LoopingSession

end Pandaria.Agent
