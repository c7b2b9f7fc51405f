import Pandaria.Agent.Loop

/-!
# The circuit breaker and those who share it

`agent-core/src/circuit_breaker.rs`, one atomic operation or one section under
the write lock at a time, and over it the requests of
`harness/agent_loop.rs` that ask it and report to it. Any number of them share
a breaker, and any of them may go next.

A caller that has found the breaker half-open holds the read lock, or the
write lock, while it counts itself. The one that has made it half-open has let
the lock go by then.
-/

namespace Pandaria.Agent

open Pandaria.Ai

/-- `State`. -/
inductive BreakerState where
  | closed
  | opened
  | halfOpen
deriving DecidableEq

structure BreakerConfig where
  failureThreshold : UInt32
  /-- In nanoseconds. -/
  openDuration : Nat
  halfOpenMax : UInt32

/-- What the system clock shows, in nanoseconds since the epoch, and what goes
by on the monotonic clock between two looks at it. -/
structure Clock where
  wall : Nat
  later : Nat

/-- How a request is reported. -/
inductive Report where
  | success
  | failure
deriving DecidableEq

structure CircuitBreaker where
  state : BreakerState
  consecutiveFailures : Nat
  halfOpenRequests : Nat
  /-- In milliseconds since the epoch. -/
  lastFailureTime : Nat
deriving DecidableEq

namespace CircuitBreaker

/-- `with_config`. -/
def withConfig : CircuitBreaker := ⟨.closed, 0, 0, 0⟩

/-- `fetch_add` on an `AtomicU32`. -/
def fetchAdd (n : Nat) : Nat := (n + 1) % 2 ^ 32

/-- `fetch_sub`, which goes round at zero. -/
def fetchSub (n : Nat) : Nat := if n = 0 then 2 ^ 32 - 1 else n - 1

/-- The time since `load_last_failure_time`, which is an hour ago if there has
been no failure or the system clock has gone back. -/
def elapsed (b : CircuitBreaker) (clock : Clock) : Nat :=
  let stored := b.lastFailureTime * 1000000
  (if b.lastFailureTime = 0 ∨ clock.wall < stored then 3600 * 1000000000
    else clock.wall - stored) + clock.later

/-- What `check` does to an open breaker whose time is over, under the lock. -/
def turnHalfOpen (b : CircuitBreaker) : CircuitBreaker :=
  { b with state := .halfOpen, halfOpenRequests := 0 }

def recordSuccess (b : CircuitBreaker) : CircuitBreaker :=
  let b := { b with consecutiveFailures := 0 }
  if b.state = .halfOpen then { b with state := .closed, halfOpenRequests := 0 } else b

def recordFailure (cfg : BreakerConfig) (wall : Nat) (b : CircuitBreaker) : CircuitBreaker :=
  let failures := fetchAdd b.consecutiveFailures
  let b := { b with consecutiveFailures := failures, lastFailureTime := wall / 1000000 % 2 ^ 64 }
  match b.state with
  | .closed => if cfg.failureThreshold.toNat ≤ failures then { b with state := .opened } else b
  | .halfOpen => { b with state := .opened, halfOpenRequests := fetchSub b.halfOpenRequests }
  | .opened => b

def record (cfg : BreakerConfig) (wall : Nat) (b : CircuitBreaker) : Report → CircuitBreaker
  | .success => b.recordSuccess
  | .failure => b.recordFailure cfg wall

end CircuitBreaker

/-! ## Callers -/

/-- The lock a caller holds while it counts itself. -/
inductive Held where
  | read
  | write
  | nothing
deriving DecidableEq

/-- Where a caller stands. A slot is the round it was admitted in, if it was
admitted by the counter. -/
inductive Caller where
  /-- Before its `check`. -/
  | waiting
  /-- It has found the breaker open and waits for the write lock. -/
  | slow
  /-- Before its `fetch_add`. -/
  | adding (held : Held)
  /-- It has counted itself beyond the maximum, before its `fetch_sub`. -/
  | beyond (held : Held)
  | refused (remaining : Nat)
  | admitted (slot : Option Nat)
  /-- Its request is over. -/
  | returned
deriving DecidableEq

namespace Caller

def holdsWrite : Caller → Bool
  | .adding .write | .beyond .write => true
  | _ => false

def holdsLock : Caller → Bool
  | .adding .read | .beyond .read | .adding .write | .beyond .write => true
  | _ => false

def inCheck : Caller → Bool
  | .slow | .adding _ | .beyond _ => true
  | _ => false

def isAdmitted : Caller → Bool
  | .admitted _ => true
  | _ => false

end Caller

/-- A breaker and its callers. `round` counts how often it has turned
half-open, and `reports` are those made to it, the last one first. -/
structure SharedBreaker where
  cfg : BreakerConfig
  breaker : CircuitBreaker
  callers : List Caller
  round : Nat
  reports : List Report

inductive BreakerEvent where
  /-- One more caller. -/
  | call
  /-- A caller goes one step further in `check`. -/
  | check (i : Nat) (clock : Clock)
  | record (i : Nat) (r : Report) (wall : Nat)
  /-- The request of an admitted caller ends. -/
  | finish (i : Nat)

namespace SharedBreaker

def start (cfg : BreakerConfig) : SharedBreaker :=
  { cfg := cfg, breaker := .withConfig, callers := [], round := 0, reports := [] }

def writeLocked (s : SharedBreaker) : Bool := s.callers.any Caller.holdsWrite

def locked (s : SharedBreaker) : Bool := s.callers.any Caller.holdsLock

/-- Caller `i` is in the section that makes the breaker half-open. -/
def turnsHalfOpen (s : SharedBreaker) (i : Nat) (clock : Clock) : Prop :=
  s.callers[i]? = some .slow ∧ s.locked = false ∧ s.breaker.state = .opened ∧
    s.cfg.openDuration ≤ s.breaker.elapsed clock

instance (s : SharedBreaker) (i : Nat) (clock : Clock) : Decidable (s.turnsHalfOpen i clock) :=
  inferInstanceAs (Decidable (_ ∧ _ ∧ _ ∧ _))

/-- Caller `i` can have the write lock for a report. -/
def mayRecord (s : SharedBreaker) (i : Nat) : Bool :=
  !s.locked && s.callers[i]?.any fun c => !c.inCheck

def move (s : SharedBreaker) (i : Nat) (c : Caller) : SharedBreaker :=
  { s with callers := s.callers.set i c }

/-- One step of `check`. -/
def check (s : SharedBreaker) (i : Nat) (clock : Clock) : SharedBreaker :=
  match s.callers[i]? with
  | some .waiting =>
      if s.writeLocked then s
      else match s.breaker.state with
        | .closed => s.move i (.admitted none)
        | .halfOpen => s.move i (.adding .read)
        | .opened => s.move i .slow
  | some .slow =>
      if s.locked then s
      else match s.breaker.state with
        | .opened =>
            if s.cfg.openDuration ≤ s.breaker.elapsed clock then
              { s with
                breaker := s.breaker.turnHalfOpen
                callers := s.callers.set i (.adding .nothing)
                round := s.round + 1 }
            else s.move i (.refused (s.cfg.openDuration - s.breaker.elapsed clock))
        | .closed => s.move i (.admitted none)
        | .halfOpen => s.move i (.adding .write)
  | some (.adding held) =>
      let current := s.breaker.halfOpenRequests
      { s with
        breaker := { s.breaker with halfOpenRequests := CircuitBreaker.fetchAdd current }
        callers := s.callers.set i
          (if s.cfg.halfOpenMax.toNat ≤ current then .beyond held else .admitted (some s.round)) }
  | some (.beyond _) =>
      { s with
        breaker := { s.breaker with
          halfOpenRequests := CircuitBreaker.fetchSub s.breaker.halfOpenRequests }
        callers := s.callers.set i (.refused s.cfg.openDuration) }
  | _ => s

def act (s : SharedBreaker) : BreakerEvent → SharedBreaker
  | .call => { s with callers := s.callers ++ [.waiting] }
  | .check i clock => s.check i clock
  | .record i r wall =>
      if s.mayRecord i then
        { s with breaker := s.breaker.record s.cfg wall r, reports := r :: s.reports }
      else s
  | .finish i =>
      match s.callers[i]? with
      | some (.admitted _) => s.move i .returned
      | _ => s

end SharedBreaker

/-! ## Requests -/

/-- What an attempt of `call_llm_with_retry` comes to. -/
inductive Attempt where
  /-- The request is cancelled, before the stream or while it is read. -/
  | cancelled
  /-- `stream` returns an error. -/
  | failed (e : LlmError)
  /-- The stream has been read. -/
  | replied (r : PartialReply)

namespace Attempt

/-- What is reported of an attempt with `left` retries left. -/
def reports (left : Nat) : Attempt → List Report
  | .cancelled => []
  | .failed e => if e.isRetryable then [.failure] else []
  | .replied r =>
      if isRetryableReply r then (if 0 < left then [.failure] else [.failure, .success])
      else [.success]

/-- Whether another attempt is made. -/
def retries (left : Nat) : Attempt → Bool
  | .cancelled => false
  | .failed e => e.isRetryable && decide (0 < left)
  | .replied r => isRetryableReply r && decide (0 < left)

end Attempt

/-- Where a request that has been admitted stands, with the retries it has
left. -/
inductive Progress where
  | attempting (left : Nat)
  /-- Its last attempt is being reported. `next` is what comes after that. -/
  | reporting (r : Report) (rest : List Report) (next : Option Nat)
  | ended

/-- A breaker, and the requests of its callers. -/
structure Requests where
  shared : SharedBreaker
  progress : List Progress

inductive RequestEvent where
  /-- `call_llm_with_retry` is called. -/
  | call (maxRetries : Nat)
  | check (i : Nat) (clock : Clock)
  | attempt (i : Nat) (a : Attempt)
  | report (i : Nat) (wall : Nat)

namespace Requests

def start (cfg : BreakerConfig) : Requests := { shared := .start cfg, progress := [] }

/-- The request ends. -/
def finish (s : Requests) (i : Nat) : Requests :=
  { shared := s.shared.act (.finish i), progress := s.progress.set i .ended }

def act (s : Requests) : RequestEvent → Requests
  | .call maxRetries =>
      { shared := s.shared.act .call, progress := s.progress ++ [.attempting maxRetries] }
  | .check i clock => { s with shared := s.shared.act (.check i clock) }
  | .attempt i a =>
      match s.shared.callers[i]?, s.progress[i]? with
      | some (.admitted _), some (.attempting left) =>
          match a.reports left with
          | [] => s.finish i
          | r :: rest =>
              let next := if a.retries left then some (left - 1) else none
              { s with progress := s.progress.set i (.reporting r rest next) }
      | _, _ => s
  | .report i wall =>
      match s.progress[i]? with
      | some (.reporting r rest next) =>
          if s.shared.mayRecord i then
            let s := { s with shared := s.shared.act (.record i r wall) }
            match rest, next with
            | r :: rest, next => { s with progress := s.progress.set i (.reporting r rest next) }
            | [], some left => { s with progress := s.progress.set i (.attempting left) }
            | [], none => s.finish i
          else s
      | _ => s

end Requests

end Pandaria.Agent
