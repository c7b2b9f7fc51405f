import Mathlib.Data.UInt
import Pandaria.Agent.History
import Pandaria.Lib.Caches
import Pandaria.Lib.Run

/-!
# Session stores

The operations of the `SessionStore` trait of
`agent-core/src/persistence/store.rs` that read and write entries, and what
they are for: a map from the pairs of a tenant and a session to lists of
entries, in which a pair may expire.

A store writes the entries as JSON, which is left to a codec.
-/

namespace Pandaria.Storage

open Pandaria.Lib

/-- Written and read back: what `serde_json` does with a type. -/
structure Codec (α ω : Type _) where
  encode : α → ω
  decode : ω → Option α
  decode_encode : ∀ a, decode (encode a) = some a

/-- The codec that writes a value as it is. -/
def Codec.id (α : Type _) : Codec α α := ⟨fun a => a, some, fun _ => rfl⟩

/-- A call of a store, or some seconds that go by. -/
inductive StoreOp (ε : Type _) where
  | saveSession (tenantId sessionId : String) (entries : List ε)
  | appendEntries (tenantId sessionId : String) (newEntries : List ε)
  | loadSession (tenantId sessionId : String)
  | deleteSession (tenantId sessionId : String)
  | listSessions (tenantId : String)
  | wait (seconds : Nat)

/-- What a call returns. `failed` is `AgentError::Persistence`. -/
inductive Reply (ε : Type _) where
  | done
  | entries (entries : List ε)
  | sessions (sessionIds : List String)
  | failed
deriving DecidableEq

namespace Reply

/-- The same answer. A list of sessions has no order. -/
def Agrees {ε : Type _} : Reply ε → Reply ε → Prop
  | .sessions ids, .sessions ids' => ids.Perm ids'
  | .sessions _, _ => False
  | .done, r => r = .done
  | .entries es, r => r = .entries es
  | .failed, r => r = .failed

instance {ε : Type _} [DecidableEq ε] : ∀ r r' : Reply ε, Decidable (r.Agrees r')
  | .sessions ids, .sessions ids' => inferInstanceAs (Decidable (ids.Perm ids'))
  | .sessions _, .done | .sessions _, .entries _ | .sessions _, .failed => .isFalse id
  | .done, r => inferInstanceAs (Decidable (r = .done))
  | .entries es, r => inferInstanceAs (Decidable (r = .entries es))
  | .failed, r => inferInstanceAs (Decidable (r = .failed))

end Reply

/-! ## What a store is for -/

/-- The entries of every pair that has any data. -/
abbrev Sessions (ε : Type _) := Expiring (String × String) (List ε)

namespace Sessions

variable {ε : Type _}

/-- The abstract store. A pair that is written at `now` expires at
`deadline now`, if that is a time. -/
def step (deadline : Nat → Option Nat) (s : Sessions ε) : StoreOp ε → Sessions ε × Reply ε
  | .saveSession tenantId sessionId entries =>
      (s.set (tenantId, sessionId) entries (deadline s.now), .done)
  | .appendEntries tenantId sessionId newEntries =>
      let entries := (s.get? (tenantId, sessionId)).getD []
      (s.set (tenantId, sessionId) (entries ++ newEntries) (deadline s.now), .done)
  | .loadSession tenantId sessionId =>
      (s, .entries ((s.get? (tenantId, sessionId)).getD []))
  | .deleteSession tenantId sessionId => (s.delete (tenantId, sessionId), .done)
  | .listSessions tenantId =>
      (s, .sessions ((s.keys fun pair => pair.1 = tenantId).map Prod.snd))
  | .wait seconds => (s.wait seconds, .done)

end Sessions

end Pandaria.Storage

/-!
## The Redis store

`RedisSessionStore` of `storage/src/session/redis.rs`, over the commands of
Redis that it uses. There is one keyspace, of strings and of sets; a key may
have a deadline. The entries of a session are a string under a key made of the
two identifiers, and every tenant has a set that is its index.
-/

namespace Pandaria.Storage

open Pandaria.Lib

/-- The members of a set, without an order. -/
abbrev Members := { ids : List String // ids.Nodup }

namespace Members

def empty : Members := ⟨[], List.nodup_nil⟩

def insert (ids : Members) (id : String) : Members := ⟨ids.val.insert id, ids.property.insert⟩

def erase (ids : Members) (id : String) : Members := ⟨ids.val.erase id, ids.property.erase id⟩

end Members

inductive RedisValue (ω : Type _) where
  | string (value : ω)
  | set (members : Members)

abbrev Redis (ω : Type _) := Expiring String (RedisValue ω)

/-! ### Commands

`none` is the error of a command that finds a value of another type. -/

namespace Redis

variable {ω : Type _}

/-- `SET`, which also takes the deadline of the key away. -/
def setString (s : Redis ω) (key : String) (value : ω) : Redis ω :=
  Expiring.set s key (.string value) none

/-- `EXPIRE`: without any time left the key is deleted at once. -/
def expire (s : Redis ω) (key : String) (seconds : Int) : Redis ω :=
  if seconds ≤ 0 then s.delete key else s.expireAt key (s.now + seconds.toNat)

/-- `GET` -/
def get (s : Redis ω) (key : String) : Option (Option ω) :=
  match Expiring.get? s key with
  | none => some none
  | some (.string value) => some (some value)
  | some (.set _) => none

/-- `SMEMBERS` -/
def smembers (s : Redis ω) (key : String) : Option Members :=
  match Expiring.get? s key with
  | none => some .empty
  | some (.set members) => some members
  | some (.string _) => none

/-- A set of other members, under the deadline its key has. Without a member
the key is gone. -/
def setMembers (s : Redis ω) (key : String) (members : Members) : Redis ω :=
  if members.val = [] then s.delete key
  else Expiring.set s key (.set members) ((s.row? key).bind Prod.snd)

/-- `SADD` -/
def sadd (s : Redis ω) (key id : String) : Option (Redis ω) :=
  (s.smembers key).map fun members => s.setMembers key (members.insert id)

/-- `SREM` -/
def srem (s : Redis ω) (key id : String) : Option (Redis ω) :=
  (s.smembers key).map fun members => s.setMembers key (members.erase id)

end Redis

/-! ### The store -/

/-- The store's settings: how long a session is kept, and how its entries are
written. -/
structure RedisSessionStore (ε ω : Type _) where
  ttlSeconds : UInt64
  codec : Codec (List ε) ω

namespace RedisSessionStore

variable {ε ω : Type _}

/-- Seven days. -/
def defaultTtlSeconds : UInt64 := 604800

def new (codec : Codec (List ε) ω) : RedisSessionStore ε ω :=
  { ttlSeconds := defaultTtlSeconds, codec := codec }

def withTtl (store : RedisSessionStore ε ω) (ttlSeconds : UInt64) : RedisSessionStore ε ω :=
  { store with ttlSeconds := ttlSeconds }

def sessionKey (tenantId sessionId : String) : String :=
  "pandaria:session:" ++ tenantId ++ ":" ++ sessionId

def tenantIndexKey (tenantId : String) : String := "pandaria:tenant:" ++ tenantId ++ ":sessions"

/-- `ttl_seconds as i64` -/
def ttl (store : RedisSessionStore ε ω) : Int := store.ttlSeconds.toInt64.toInt

def saveSession (store : RedisSessionStore ε ω) (s : Redis ω) (tenantId sessionId : String)
    (entries : List ε) : Redis ω × Reply ε :=
  let key := sessionKey tenantId sessionId
  let s := (s.setString key (store.codec.encode entries)).expire key store.ttl
  match s.sadd (tenantIndexKey tenantId) sessionId with
  | some s => (s, .done)
  | none => (s, .failed)

def loadSession (store : RedisSessionStore ε ω) (s : Redis ω) (tenantId sessionId : String) :
    Reply ε :=
  match s.get (sessionKey tenantId sessionId) with
  | some (some data) =>
      match store.codec.decode data with
      | some entries => .entries entries
      | none => .failed
  | some none => .entries []
  | none => .failed

/-- The default of the trait: load, merge and save all. -/
def appendEntries (store : RedisSessionStore ε ω) (s : Redis ω) (tenantId sessionId : String)
    (newEntries : List ε) : Redis ω × Reply ε :=
  match store.loadSession s tenantId sessionId with
  | .entries all => store.saveSession s tenantId sessionId (all ++ newEntries)
  | _ => (s, .failed)

def deleteSession (s : Redis ω) (tenantId sessionId : String) : Redis ω × Reply ε :=
  let s := s.delete (sessionKey tenantId sessionId)
  match Redis.srem s (tenantIndexKey tenantId) sessionId with
  | some s => (s, .done)
  | none => (s, .failed)

def listSessions (s : Redis ω) (tenantId : String) : Reply ε :=
  match s.smembers (tenantIndexKey tenantId) with
  | some members => .sessions members.val
  | none => .failed

def step (store : RedisSessionStore ε ω) (s : Redis ω) : StoreOp ε → Redis ω × Reply ε
  | .saveSession tenantId sessionId entries => store.saveSession s tenantId sessionId entries
  | .appendEntries tenantId sessionId newEntries =>
      store.appendEntries s tenantId sessionId newEntries
  | .loadSession tenantId sessionId => (s, store.loadSession s tenantId sessionId)
  | .deleteSession tenantId sessionId => deleteSession s tenantId sessionId
  | .listSessions tenantId => (s, listSessions s tenantId)
  | .wait seconds => (s.wait seconds, .done)

end RedisSessionStore

end Pandaria.Storage

/-!
## The PostgreSQL store

`PgSessionStore` of `storage/src/session/postgres.rs`, and the table of
`migrations/001_init.sql` that it uses: a row for every pair of a tenant and a
session, which is its primary key. The server takes no text with a zero
character in it, neither for a `TEXT` nor inside a `JSONB`; a statement with
one fails and does nothing.
-/

namespace Pandaria.Storage

open Pandaria.Lib

/-- A `TEXT` the server takes. -/
def isText (s : String) : Bool := s.toList.all fun c => c.toNat ≠ 0

/-- A row of `sessions`. The entries are a JSON array. -/
structure SessionRow (ν : Type _) where
  entries : List ν
  status : String
  updatedAt : Nat

structure Pg (ν : Type _) where
  now : Nat
  sessions : Table (String × String) (SessionRow ν)

/-- How an entry is written, and which JSON values the server takes. -/
structure PgSessionStore (ε ν : Type _) where
  codec : Codec ε ν
  accepts : ν → Bool

namespace Pg

variable {ν : Type _}

def empty : Pg ν := { now := 0, sessions := .empty }

/-- `INSERT ... ON CONFLICT DO UPDATE`, with what becomes of the entries that
are there. A new row has the default status. -/
def upsert (s : Pg ν) (tenantId sessionId : String) (f : List ν → List ν) (new : List ν) :
    Pg ν :=
  { s with
    sessions := s.sessions.upsert (tenantId, sessionId) fun
      | some row => { row with entries := f row.entries, updatedAt := s.now }
      | none => { entries := new, status := "active", updatedAt := s.now } }

/-- `update_status`: the `UPDATE` of a row that is not there does nothing. -/
def updateStatus (s : Pg ν) (tenantId sessionId status : String) : Pg ν :=
  match s.sessions.get? (tenantId, sessionId) with
  | some row =>
      { s with
        sessions := s.sessions.upsert (tenantId, sessionId) fun _ =>
          { row with status := status, updatedAt := s.now } }
  | none => s

/-- `list_sessions_inner`: the sessions of a tenant, the latest update first. -/
def listSessions (s : Pg ν) (tenantId : String) : List String :=
  ((s.sessions.rows.filter fun row => row.1.1 = tenantId).mergeSort
    fun a b => b.2.updatedAt ≤ a.2.updatedAt).map fun row => row.1.2

end Pg

namespace PgSessionStore

variable {ε ν : Type _}

/-- All parameters of the statement are such that the server takes them. -/
def binds (store : PgSessionStore ε ν) (tenantId sessionId : String) (entries : List ε) : Bool :=
  isText tenantId && isText sessionId &&
    (entries.map store.codec.encode).all store.accepts

def saveSession (store : PgSessionStore ε ν) (s : Pg ν) (tenantId sessionId : String)
    (entries : List ε) : Pg ν × Reply ε :=
  let json := entries.map store.codec.encode
  if store.binds tenantId sessionId entries then
    (s.upsert tenantId sessionId (fun _ => json) json, .done)
  else (s, .failed)

/-- `jsonb || jsonb` puts the new array behind the one that is there. -/
def appendEntries (store : PgSessionStore ε ν) (s : Pg ν) (tenantId sessionId : String)
    (newEntries : List ε) : Pg ν × Reply ε :=
  let json := newEntries.map store.codec.encode
  if store.binds tenantId sessionId newEntries then
    (s.upsert tenantId sessionId (· ++ json) json, .done)
  else (s, .failed)

def loadSession (store : PgSessionStore ε ν) (s : Pg ν) (tenantId sessionId : String) : Reply ε :=
  if isText tenantId && isText sessionId then
    match s.sessions.get? (tenantId, sessionId) with
    | some row =>
        match row.entries.mapM store.codec.decode with
        | some entries => .entries entries
        | none => .failed
    | none => .entries []
  else .failed

def deleteSession (s : Pg ν) (tenantId sessionId : String) : Pg ν × Reply ε :=
  if isText tenantId && isText sessionId then
    ({ s with sessions := s.sessions.erase (tenantId, sessionId) }, .done)
  else (s, .failed)

def listSessions (s : Pg ν) (tenantId : String) : Reply ε :=
  if isText tenantId then .sessions (s.listSessions tenantId) else .failed

/-- The `UPDATE` of a row that is not there is no failure. -/
def updateSessionStatus (_ : PgSessionStore ε ν) (s : Pg ν)
    (tenantId sessionId status : String) : Pg ν × Reply ε :=
  if isText tenantId && isText sessionId && isText status then
    (s.updateStatus tenantId sessionId status, .done)
  else (s, .failed)

def step (store : PgSessionStore ε ν) (s : Pg ν) : StoreOp ε → Pg ν × Reply ε
  | .saveSession tenantId sessionId entries => store.saveSession s tenantId sessionId entries
  | .appendEntries tenantId sessionId newEntries =>
      store.appendEntries s tenantId sessionId newEntries
  | .loadSession tenantId sessionId => (s, store.loadSession s tenantId sessionId)
  | .deleteSession tenantId sessionId => deleteSession s tenantId sessionId
  | .listSessions tenantId => (s, listSessions s tenantId)
  | .wait seconds => ({ s with now := s.now + seconds }, .done)

end PgSessionStore

end Pandaria.Storage
