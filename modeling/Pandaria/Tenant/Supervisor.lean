import Mathlib.Algebra.BigOperators.Group.List.Basic
import Mathlib.Data.UInt
import Pandaria.Lib.Table

/-!
# A tenant's supervisor

`TenantSupervisor` of `tenant/src/supervisor.rs`: the quota of a tenant, the
number of its sessions and three meters. Its methods are called one at a time
here; `Reservation.lean` takes `reserve_session` apart into its atomic steps.
-/

/-! ## The sliding window meter

`SlidingWindowMeter` of `tenant/src/meter.rs`. Every call takes the time under
the mutex and first drops what has left the window, so the entries are in the
order of their times. A call is a step of its own, and the meter after it is
part of what it returns: `sum` and `count` drop entries too. -/

namespace Pandaria.Tenant

/-- An entry or a record: when, and how much. An `Instant` and a `Duration`
are numbers of nanoseconds. -/
abbrev Record := Nat × UInt64

structure SlidingWindowMeter where
  window : Nat
  entries : List Record

/-- Those that are less than `window` old. `duration_since` is zero for a time
still to come, as subtraction is here. -/
def within (window : Nat) (now : Nat) (records : List Record) : List Record :=
  records.filter fun r => now - r.1 < window

/-- What they add up to, beyond any width. -/
def total (records : List Record) : Nat := (records.map fun r => r.2.toNat).sum

namespace SlidingWindowMeter

def new (window : Nat) : SlidingWindowMeter := { window := window, entries := [] }

def maxEntries : Nat := 10000

def prune (m : SlidingWindowMeter) (now : Nat) : SlidingWindowMeter :=
  { m with entries := within m.window now m.entries }

/-- One entry more, and the older half is dropped when there are too many. -/
def record (m : SlidingWindowMeter) (now : Nat) (value : UInt64) : SlidingWindowMeter :=
  let entries := (m.prune now).entries ++ [(now, value)]
  { m with
    entries :=
      if maxEntries < entries.length then entries.drop (entries.length / 2) else entries }

/-- The sum is one of `u64`. -/
def sum (m : SlidingWindowMeter) (now : Nat) : UInt64 × SlidingWindowMeter :=
  let m := m.prune now
  ((m.entries.map Prod.snd).sum, m)

def count (m : SlidingWindowMeter) (now : Nat) : Nat × SlidingWindowMeter :=
  let m := m.prune now
  (m.entries.length, m)

end SlidingWindowMeter

end Pandaria.Tenant

/-! ## The supervisor -/

namespace Pandaria.Tenant

structure TenantQuota where
  maxConcurrentSessions : UInt32
  maxTokensPerDay : UInt64
  maxToolCallsPerMinute : UInt32
  cpuTimeBudgetMsPerDay : UInt64
deriving DecidableEq

inductive QuotaCheck where
  | sessionCreation
  | toolCall
  | tokenUsage (input output : UInt64)
  | cpuBudget
deriving DecidableEq

/-- The errors of a supervisor. -/
inductive TenantError where
  | sessionLimitExceeded (tenantId : String) (max current : UInt32)
  | toolCallRateLimitExceeded (tenantId : String) (calls : Nat)
  | tokenBudgetExceeded (tenantId : String) (consumed budget : UInt64)
  | cpuBudgetExceeded (tenantId : String) (consumedMs budgetMs : UInt64)
deriving DecidableEq

structure TenantSupervisor where
  tenantId : String
  quota : TenantQuota
  activeSessions : Nat
  tokenMeter : SlidingWindowMeter
  toolCallMeter : SlidingWindowMeter
  cpuTimeMeter : SlidingWindowMeter
  createdAt : Nat

/-- `TenantContext`, as far as a supervisor is made from it. -/
structure TenantContext where
  tenantId : String
  quotas : TenantQuota

/-- One second of an `Instant`. -/
def second : Nat := 1000000000

namespace TenantSupervisor

def fromContext (ctx : TenantContext) (now : Nat) : TenantSupervisor :=
  { tenantId := ctx.tenantId
    quota := ctx.quotas
    activeSessions := 0
    tokenMeter := .new (86400 * second)
    toolCallMeter := .new (60 * second)
    cpuTimeMeter := .new (86400 * second)
    createdAt := now }

def isStale (s : TenantSupervisor) (ttl : Nat) (now : Nat) : Bool :=
  decide (ttl < now - s.createdAt)

/-- `reserve_session`, with nobody else at it. -/
def reserveSession (s : TenantSupervisor) : Except TenantError Unit × TenantSupervisor :=
  let current := s.activeSessions + 1
  if s.quota.maxConcurrentSessions.toNat < current then
    (.error (.sessionLimitExceeded s.tenantId s.quota.maxConcurrentSessions
      (UInt32.ofNat (current - 1))), s)
  else (.ok (), { s with activeSessions := current })

/-- `release_session`, which does not go below zero. -/
def releaseSession (s : TenantSupervisor) : TenantSupervisor :=
  { s with activeSessions := s.activeSessions - 1 }

/-- `record_usage`, with the total of the usage. -/
def recordUsage (s : TenantSupervisor) (now : Nat) (totalTokens : UInt64) :
    TenantSupervisor :=
  { s with tokenMeter := s.tokenMeter.record now totalTokens }

def recordToolCall (s : TenantSupervisor) (now : Nat) : TenantSupervisor :=
  { s with toolCallMeter := s.toolCallMeter.record now 1 }

def recordCpuTimeMs (s : TenantSupervisor) (now : Nat) (ms : UInt64) : TenantSupervisor :=
  { s with cpuTimeMeter := s.cpuTimeMeter.record now ms }

/-- The total `check_quota` compares with the budget of tokens. -/
def tokenTotal (s : TenantSupervisor) (now : Nat) (input output : UInt64) : UInt64 :=
  (s.tokenMeter.sum now).1 + input + output

/-- `check_quota`. A meter it looks at is pruned. -/
def checkQuota (s : TenantSupervisor) (now : Nat) :
    QuotaCheck → Except TenantError Unit × TenantSupervisor
  | .sessionCreation =>
      let current := UInt32.ofNat s.activeSessions
      if s.quota.maxConcurrentSessions ≤ current then
        (.error (.sessionLimitExceeded s.tenantId s.quota.maxConcurrentSessions current), s)
      else (.ok (), s)
  | .toolCall =>
      let (calls, meter) := s.toolCallMeter.count now
      let s := { s with toolCallMeter := meter }
      if s.quota.maxToolCallsPerMinute.toNat ≤ calls then
        (.error (.toolCallRateLimitExceeded s.tenantId calls), s)
      else (.ok (), s)
  | .tokenUsage input output =>
      let total := s.tokenTotal now input output
      let (consumed, meter) := s.tokenMeter.sum now
      let s := { s with tokenMeter := meter }
      if s.quota.maxTokensPerDay < total then
        (.error (.tokenBudgetExceeded s.tenantId consumed s.quota.maxTokensPerDay), s)
      else (.ok (), s)
  | .cpuBudget =>
      let (consumed, meter) := s.cpuTimeMeter.sum now
      let s := { s with cpuTimeMeter := meter }
      if s.quota.cpuTimeBudgetMsPerDay < consumed then
        (.error (.cpuBudgetExceeded s.tenantId consumed s.quota.cpuTimeBudgetMsPerDay), s)
      else (.ok (), s)

end TenantSupervisor

end Pandaria.Tenant

/-!
## Reservations side by side

`reserve_session`, `release_session` and `SessionGuard` of
`tenant/src/supervisor.rs`, one atomic operation at a time. Every reservation
is a task of its own, from its call to the end of its guard, and any of them
may go next.

A task keeps two things the code does not. One is whether, since its call, the
tenant has had all its sessions at some moment; the other is how often its
guard has given the slot back.
-/

namespace Pandaria.Tenant

/-- Where a reservation stands. `full` says that since the call there has been
a moment with all guards live. -/
inductive Task where
  /-- `reserve_session` is called. -/
  | called (full : Bool)
  /-- It has counted itself, beyond the limit. -/
  | beyond (full : Bool)
  | refused (full : Bool)
  /-- A guard, before or after an explicit `release`. -/
  | guard (released : Bool) (releases : Nat)
  /-- `release_session` has found the counter at zero, in `release` or in
  `drop`. -/
  | zeroing (dropped : Bool) (releases : Nat)
  | gone (releases : Nat)
deriving DecidableEq

inductive ReservationEvent where
  /-- Somebody calls `reserve_session`. -/
  | call
  /-- A reservation in progress does its next atomic operation. -/
  | step (i : Nat)
  /-- The owner of a guard calls `release`. -/
  | release (i : Nat)
  /-- The guard is dropped. -/
  | drop (i : Nat)

/-- The counter of a supervisor and its reservations. -/
structure Reservations where
  maxConcurrentSessions : Nat
  activeSessions : Nat
  tasks : List Task

namespace Task

/-- The guard is live: it has not given its slot back. -/
def isLive : Task → Bool
  | .guard false _ => true
  | _ => false

/-- It is about to take back what it has added to the counter. -/
def isBeyond : Task → Bool
  | .beyond _ => true
  | _ => false

/-- In the middle of `reserve_session` or `release_session`. -/
def inProgress : Task → Bool
  | .called _ | .beyond _ | .zeroing .. => true
  | _ => false

/-- All guards are live. -/
def sawFull : Task → Task
  | .called _ => .called true
  | .beyond _ => .beyond true
  | t => t

end Task

namespace Reservations

/-- A supervisor that has just been made. -/
def start (ctx : TenantContext) (now : Nat) : Reservations :=
  let s := TenantSupervisor.fromContext ctx now
  { maxConcurrentSessions := s.quota.maxConcurrentSessions.toNat
    activeSessions := s.activeSessions
    tasks := [] }

def live (s : Reservations) : Nat := s.tasks.countP Task.isLive

def beyond (s : Reservations) : Nat := s.tasks.countP Task.isBeyond

/-- `fetch_sub` on a `usize`, which goes round at zero. -/
def fetchSub (n : Nat) : Nat := if n = 0 then 2 ^ 64 - 1 else n - 1

/-- The calls in progress see that all guards are live. -/
def witness (s : Reservations) : Reservations :=
  if s.maxConcurrentSessions ≤ s.live then { s with tasks := s.tasks.map Task.sawFull } else s

/-- `release_session` for a guard: what is left after its `fetch_sub`. -/
def releaseSession (s : Reservations) (i : Nat) (dropped : Bool) (releases : Nat) :
    Reservations :=
  { s with
    activeSessions := fetchSub s.activeSessions
    tasks := s.tasks.set i
      (if s.activeSessions = 0 then .zeroing dropped (releases + 1)
      else if dropped then .gone (releases + 1) else .guard true (releases + 1)) }

/-- One atomic operation. -/
def act (s : Reservations) : ReservationEvent → Reservations
  | .call => { s with tasks := s.tasks ++ [.called false] }
  | .step i =>
      match s.tasks[i]? with
      | some (.called full) =>
          { s with
            activeSessions := s.activeSessions + 1
            tasks := s.tasks.set i
              (if s.maxConcurrentSessions < s.activeSessions + 1 then .beyond full
              else .guard false 0) }
      | some (.beyond full) =>
          { s with
            activeSessions := fetchSub s.activeSessions
            tasks := s.tasks.set i (.refused full) }
      | some (.zeroing dropped releases) =>
          { s with
            activeSessions := 0
            tasks := s.tasks.set i (if dropped then .gone releases else .guard true releases) }
      | _ => s
  | .release i =>
      match s.tasks[i]? with
      | some (.guard false releases) => s.releaseSession i false releases
      | _ => s
  | .drop i =>
      match s.tasks[i]? with
      | some (.guard false releases) => s.releaseSession i true releases
      | some (.guard true releases) => { s with tasks := s.tasks.set i (.gone releases) }
      | _ => s

def step (s : Reservations) (e : ReservationEvent) : Reservations := (s.act e).witness

end Reservations

end Pandaria.Tenant

/-!
## The registry of supervisors

`TenantRegistry` of `tenant/src/registry.rs`, with the supervisors it has ever
made. An `Arc<TenantSupervisor>` is the number of a supervisor: whoever has got
one, a guard above all, keeps it when the registry goes on to another.

Beside them stands what was recorded for a tenant, by whichever supervisor.
The code has no such list.
-/

namespace Pandaria.Tenant

open Pandaria.Lib

structure TenantRegistry where
  tenants : Table String Nat
  cacheTtl : Nat

/-- The three meters of a supervisor. -/
inductive MeterKind where
  | token
  | toolCall
  | cpuTime
deriving DecidableEq

/-- What is recorded with a supervisor. -/
inductive Usage where
  | tokens (total : UInt64)
  | toolCall
  | cpuTimeMs (ms : UInt64)

namespace Usage

def kind : Usage → MeterKind
  | .tokens _ => .token
  | .toolCall => .toolCall
  | .cpuTimeMs _ => .cpuTime

def value : Usage → UInt64
  | .tokens n => n
  | .toolCall => 1
  | .cpuTimeMs n => n

end Usage

namespace TenantSupervisor

def meter (s : TenantSupervisor) : MeterKind → SlidingWindowMeter
  | .token => s.tokenMeter
  | .toolCall => s.toolCallMeter
  | .cpuTime => s.cpuTimeMeter

/-- `record_usage`, `record_tool_call` or `record_cpu_time_ms`. -/
def recordAny (s : TenantSupervisor) (now : Nat) : Usage → TenantSupervisor
  | .tokens n => s.recordUsage now n
  | .toolCall => s.recordToolCall now
  | .cpuTimeMs n => s.recordCpuTimeMs now n

end TenantSupervisor

inductive RegistryOp where
  | resolveOrInsert (ctx : TenantContext)
  | refresh (ctx : TenantContext)
  | reserveSession (supervisor : Nat)
  /-- The guard at this place among the live ones is dropped. -/
  | dropGuard (place : Nat)
  | record (supervisor : Nat) (usage : Usage)
  | checkQuota (supervisor : Nat) (check : QuotaCheck)

structure Tenants where
  registry : TenantRegistry
  supervisors : List TenantSupervisor
  /-- The live guards, each with the supervisor it belongs to. -/
  guards : List Nat
  usage : List (String × MeterKind × Record)
  now : Nat

namespace Tenants

def start (cacheTtl : Nat) : Tenants :=
  { registry := { tenants := .empty, cacheTtl := cacheTtl }
    supervisors := []
    guards := []
    usage := []
    now := 0 }

/-- The supervisor of a tenant that is registered. -/
def registered (s : Tenants) (tenantId : String) : Option TenantSupervisor :=
  (s.registry.tenants.get? tenantId).bind fun i => s.supervisors[i]?

/-- The guards of a tenant, those of replaced supervisors included. -/
def liveGuards (s : Tenants) (tenantId : String) : Nat :=
  s.guards.countP fun i => (s.supervisors[i]?).map (·.tenantId) = some tenantId

/-- Everything that was recorded for a tenant. -/
def usageOf (s : Tenants) (tenantId : String) (kind : MeterKind) : List Record :=
  (s.usage.filter fun u => u.1 = tenantId ∧ u.2.1 = kind).map (·.2.2)

/-- `refresh`, and what `resolve_or_insert` does without a fresh supervisor. -/
def refresh (s : Tenants) (ctx : TenantContext) : Tenants :=
  { s with
    registry :=
      { s.registry with
        tenants := s.registry.tenants.upsert ctx.tenantId fun _ => s.supervisors.length }
    supervisors := s.supervisors ++ [.fromContext ctx s.now] }

def act (s : Tenants) : RegistryOp → Tenants
  | .resolveOrInsert ctx =>
      match s.registered ctx.tenantId with
      | some existing =>
          if existing.isStale s.registry.cacheTtl s.now then s.refresh ctx else s
      | none => s.refresh ctx
  | .refresh ctx => s.refresh ctx
  | .reserveSession i =>
      match s.supervisors[i]? with
      | some supervisor =>
          match supervisor.reserveSession with
          | (.ok (), supervisor) =>
              { s with supervisors := s.supervisors.set i supervisor, guards := s.guards ++ [i] }
          | (.error _, supervisor) => { s with supervisors := s.supervisors.set i supervisor }
      | none => s
  | .dropGuard place =>
      match s.guards[place]? with
      | some i =>
          match s.supervisors[i]? with
          | some supervisor =>
              { s with
                supervisors := s.supervisors.set i supervisor.releaseSession
                guards := s.guards.eraseIdx place }
          | none => s
      | none => s
  | .record i usage =>
      match s.supervisors[i]? with
      | some supervisor =>
          { s with
            supervisors := s.supervisors.set i (supervisor.recordAny s.now usage)
            usage := s.usage ++ [(supervisor.tenantId, usage.kind, (s.now, usage.value))] }
      | none => s
  | .checkQuota i check =>
      match s.supervisors[i]? with
      | some supervisor =>
          { s with supervisors := s.supervisors.set i (supervisor.checkQuota s.now check).2 }
      | none => s

/-- An operation, some time after the last one. -/
def step (s : Tenants) (e : Nat × RegistryOp) : Tenants :=
  { s with now := s.now + e.1 }.act e.2

end Tenants

end Pandaria.Tenant
