import Pandaria.Lib.Caches

/-!
# The executor of roles

`acquire_session` of `tavern-comp/src/team/pandaria_executor.rs`, for any number
of calls of `execute` and `execute_stream` at once, and the `SessionCache` of
`team/session_cache.rs` they share. The two calls go the same way up to the
actor: they resolve the role, look the key up, and else build a session while
they have a permit of the semaphore, after another look.

The cache is behind a lock that is never held across an await, so its operations
are steps. Actors are numbered in the order they are made. A call that has ended
stays in the list, with its actor and with the steps at which it began and ended;
the code keeps none of these.
-/

namespace Pandaria.Comp

open Pandaria.Lib

/-! ## The cache -/

structure CachedSession where
  actor : Nat
  lastUsed : Nat
deriving DecidableEq

structure SessionCache where
  /-- The `LruCache`, the last used first. -/
  entries : Table String CachedSession
  maxCached : Nat
  idleTimeout : Nat

namespace SessionCache

def new (maxCached idleTimeout : Nat) : SessionCache :=
  { entries := .empty, maxCached := maxCached, idleTimeout := idleTimeout }

def get (c : SessionCache) (now : Nat) (key : String) : Option CachedSession × SessionCache :=
  match c.entries.get? key with
  | some entry =>
      if now - entry.lastUsed < c.idleTimeout then
        let cloned := { entry with lastUsed := now }
        (some cloned, { c with entries := c.entries.use key cloned })
      else (none, { c with entries := c.entries.erase key })
  | none => (none, c)

/-- The row that `put` evicts: a full cache has to make room for a new key. -/
def evicted (c : SessionCache) (key : String) : Option (String × CachedSession) :=
  if c.maxCached ≤ c.entries.rows.length ∧ (c.entries.get? key).isNone then c.entries.last?
  else none

/-- The cache is never longer than it may be, so the insert itself evicts nothing. -/
def put (c : SessionCache) (key : String) (entry : CachedSession) :
    Option CachedSession × SessionCache :=
  let entries := match c.evicted key with
    | some row => c.entries.erase row.1
    | none => c.entries
  ((c.evicted key).map Prod.snd, { c with entries := entries.use key entry })

def idle (c : SessionCache) (now : Nat) (entry : CachedSession) : Bool :=
  c.idleTimeout < now - entry.lastUsed

def evictIdle (c : SessionCache) (now : Nat) : SessionCache :=
  { c with entries := c.entries.filter fun _ entry => !c.idle now entry }

end SessionCache

/-! ## Calls -/

/-- `tavern_core::ModelConfig`, as far as it names a model. -/
structure ModelConfig where
  provider : String
  name : String
deriving DecidableEq

def ModelConfig.full (m : ModelConfig) : String := m.provider ++ "/" ++ m.name

inductive AcquirePhase where
  /-- The resolver is asked for the role. -/
  | resolving
  /-- Before the first look into the cache. -/
  | lookup
  | queued
  /-- Before the second look. From here to `inserted` the call has a permit. -/
  | recheck
  | building
  /-- What the insert has evicted is flushed. -/
  | inserted
  /-- The call waits for the actor, or runs it. -/
  | holding
  | ended
deriving DecidableEq

structure ExecutorCall where
  roleId : String
  model : String
  /-- The resolver knows the role. -/
  known : Bool
  phase : AcquirePhase
  actor : Option Nat
  start : Nat
  stop : Option Nat
deriving DecidableEq

namespace ExecutorCall

def key (c : ExecutorCall) : String := c.roleId ++ ":" ++ c.model

def inProgress (c : ExecutorCall) : Bool := c.stop.isNone

def hasPermit (c : ExecutorCall) : Bool :=
  match c.phase with
  | .recheck | .building | .inserted => true
  | _ => false

end ExecutorCall

/-! ## The executor -/

structure Executor where
  /-- The time. -/
  now : Nat
  /-- How many steps there have been. -/
  clock : Nat
  cache : SessionCache
  permits : Nat
  /-- How many actors have been made. -/
  made : Nat
  calls : List ExecutorCall

inductive ExecutorEvent where
  /-- A call, with the model of the agent the resolver is going to find. -/
  | call (roleId : String) (modelOverride agent : Option ModelConfig)
  /-- A call goes one step further. -/
  | advance (i : Nat)
  /-- A call fails at an await, or its future is dropped there. -/
  | leave (i : Nat)
  /-- The next round of the cleanup task. -/
  | cleanup
  | wait (n : Nat)

namespace Executor

def start (permits maxCached idleTimeout : Nat) : Executor :=
  { now := 0
    clock := 0
    cache := .new maxCached idleTimeout
    permits := permits
    made := 0
    calls := [] }

def set (s : Executor) (i : Nat) (c : ExecutorCall) : Executor :=
  { s with calls := s.calls.set i c }

/-- The call is over, and so is its permit. -/
def finish (s : Executor) (i : Nat) (c : ExecutorCall) : Executor :=
  { s with permits := if c.hasPermit then s.permits + 1 else s.permits }.set i
    { c with phase := .ended, stop := some s.clock }

/-- A look into the cache, and on to `next` if there is nothing. -/
def look (s : Executor) (i : Nat) (c : ExecutorCall) (next : AcquirePhase) : Executor :=
  match s.cache.get s.now c.key with
  | (some cached, cache) =>
      { s with
        cache := cache
        permits := if c.hasPermit then s.permits + 1 else s.permits }.set i
        { c with phase := .holding, actor := some cached.actor }
  | (none, cache) => { s with cache := cache }.set i { c with phase := next }

def advance (s : Executor) (i : Nat) (c : ExecutorCall) : Executor :=
  match c.phase with
  | .resolving => if c.known then s.set i { c with phase := .lookup } else s.finish i c
  | .lookup => s.look i c .queued
  | .queued =>
      if s.permits = 0 then s
      else { s with permits := s.permits - 1 }.set i { c with phase := .recheck }
  | .recheck => s.look i c .building
  | .building =>
      let cache := (s.cache.put c.key { actor := s.made, lastUsed := s.now }).2
      { s with cache := cache, made := s.made + 1 }.set i
        { c with phase := .inserted, actor := some s.made }
  | .inserted => { s with permits := s.permits + 1 }.set i { c with phase := .holding }
  | .holding => s.finish i c
  | .ended => s

def act (s : Executor) : ExecutorEvent → Executor
  | .call roleId modelOverride agent =>
      let call : ExecutorCall :=
        { roleId := roleId
          model := ((modelOverride <|> agent).map ModelConfig.full).getD ""
          known := agent.isSome
          phase := .resolving
          actor := none
          start := s.clock
          stop := none }
      { s with calls := s.calls ++ [call] }
  | .advance i =>
      match s.calls[i]? with
      | some c => s.advance i c
      | none => s
  | .leave i =>
      match s.calls[i]? with
      | some c => if c.inProgress then s.finish i c else s
      | none => s
  | .cleanup => { s with cache := s.cache.evictIdle s.now }
  | .wait n => { s with now := s.now + n }

def step (s : Executor) (e : ExecutorEvent) : Executor :=
  { s.act e with clock := s.clock + 1 }

end Executor

end Pandaria.Comp

/-!
## What becomes of a cached session

The operations of `team/session_cache.rs` that `Executor.lean` has no call of,
the capacity of the `LruCache` below them, and the task of
`spawn_cache_cleanup`. A session leaves the cache in one of two ways: an
operation returns it, and its caller flushes it, or nobody hears of it again.
`CacheLedger` keeps the account of the two; the code keeps none.
-/

namespace Pandaria.Comp

open Pandaria.Lib

namespace SessionCache

def len (c : SessionCache) : Nat := c.entries.rows.length

/-- The capacity the `LruCache` is created with. -/
def capacity (c : SessionCache) : Nat := max c.maxCached 1

/-- `LruCache::put`: where the table is full and the key new, the row that was
not used for the longest time falls out. -/
def lruPut (c : SessionCache) (key : String) (entry : CachedSession) :
    Option (String × CachedSession) × SessionCache :=
  let fallen := if (c.entries.get? key).isNone ∧ c.capacity ≤ c.len then c.entries.last? else none
  let entries := match fallen with
    | some row => c.entries.erase row.1
    | none => c.entries
  (fallen, { c with entries := entries.use key entry })

/-- `put` up to its own insert: the row it makes room with is gone. -/
def makeRoom (c : SessionCache) (key : String) : SessionCache :=
  match c.evicted key with
  | some row => { c with entries := c.entries.erase row.1 }
  | none => c

def pop (c : SessionCache) (key : String) : Option CachedSession × SessionCache :=
  (c.entries.get? key, { c with entries := c.entries.erase key })

/-- The rows `evict_idle` returns. -/
def idleRows (c : SessionCache) (now : Nat) : List (String × CachedSession) :=
  c.entries.rows.filter fun row => c.idle now row.2

def drainAll (c : SessionCache) : List (String × CachedSession) × SessionCache :=
  (c.entries.rows, { c with entries := .empty })

/-- The sessions in the cache. -/
def sessions (c : SessionCache) : List Nat := c.entries.rows.map fun row => row.2.actor

end SessionCache

/-! ### The account -/

inductive CacheEvent where
  | get (now : Nat) (key : String)
  | put (key : String) (entry : CachedSession)
  | pop (key : String)
  | evictIdle (now : Nat)
  | drainAll
  /-- A round of the cleanup task, with the actors it finds locked. -/
  | cleanup (now : Nat) (busy : List Nat)
deriving DecidableEq

/-- The cache, and what has been put into it, returned by it and lost. -/
structure CacheLedger where
  cache : SessionCache
  inserted : List Nat
  handed : List Nat
  lost : List Nat

namespace CacheLedger

def start (maxCached idleTimeout : Nat) : CacheLedger :=
  { cache := .new maxCached idleTimeout, inserted := [], handed := [], lost := [] }

/-- The session an operation inserts: one that is there under its key already
is not inserted again. -/
def inserting (c : SessionCache) : CacheEvent → List Nat
  | .put key entry =>
      if (c.entries.get? key).any fun old => old.actor = entry.actor then [] else [entry.actor]
  | .get _ _ | .pop _ | .evictIdle _ | .drainAll | .cleanup _ _ => []

/-- The sessions an operation returns, or flushes by itself. -/
def handing (c : SessionCache) : CacheEvent → List Nat
  | .get _ _ => []
  | .put key _ => (c.evicted key).toList.map fun row => row.2.actor
  | .pop key => (c.pop key).1.toList.map CachedSession.actor
  | .evictIdle now => (c.idleRows now).map fun row => row.2.actor
  | .drainAll => c.drainAll.1.map fun row => row.2.actor
  | .cleanup now busy =>
      ((c.idleRows now).map fun row => row.2.actor).filter fun actor => !busy.contains actor

/-- The sessions that leave the cache and are dropped: one that has expired
when it is looked up, one another takes the key of, and one that is locked when
the cleanup comes to it. -/
def losses (c : SessionCache) : CacheEvent → List Nat
  | .get now key =>
      match c.entries.get? key with
      | some entry => if now - entry.lastUsed < c.idleTimeout then [] else [entry.actor]
      | none => []
  | .put key entry =>
      (((c.entries.get? key).filter fun old => old.actor ≠ entry.actor).toList.map
        CachedSession.actor) ++
        ((c.makeRoom key).lruPut key entry).1.toList.map fun row => row.2.actor
  | .pop _ | .evictIdle _ | .drainAll => []
  | .cleanup now busy =>
      ((c.idleRows now).map fun row => row.2.actor).filter fun actor => busy.contains actor

/-- The cache after an operation. -/
def next (c : SessionCache) : CacheEvent → SessionCache
  | .get now key => (c.get now key).2
  | .put key entry => ((c.makeRoom key).lruPut key entry).2
  | .pop key => (c.pop key).2
  | .evictIdle now | .cleanup now _ => c.evictIdle now
  | .drainAll => c.drainAll.2

def step (l : CacheLedger) (e : CacheEvent) : CacheLedger :=
  { cache := next l.cache e
    inserted := l.inserted ++ inserting l.cache e
    handed := l.handed ++ handing l.cache e
    lost := l.lost ++ losses l.cache e }

end CacheLedger

end Pandaria.Comp
