import Pandaria.Ai.Types
import Pandaria.Lib.Caches
import Pandaria.Gateway.RateLimit
import Pandaria.Tenant.Supervisor

/-!
# Who gets through to a route

`auth_middleware` and `rate_limit_middleware` of `api-gateway/src/middleware/`
with the `TenantCache` of `cache.rs` between them, for requests side by side.
What the identity service answers, and what `RateLimiter::check` says, comes from
outside; so does the clock, in nanoseconds.

Beside the cache stand what it would hold if a row were good for sixty seconds
and nothing were ever cleaned up, and the answers that have been given.
-/

namespace Pandaria.Gateway

open Pandaria.Ai (Json isWhitespace)
open Pandaria.Lib
open Pandaria.Tenant (TenantQuota second)

/-! ## From an answer to a context -/

/-- Of an `IntrospectResponse`, what the gateway reads. -/
structure IntrospectResponse where
  active : Bool
  tenantId : Option String
  userId : Option String
  scope : Option String
  quotas : Option Json

structure TenantContext extends Tenant.TenantContext where
  userId : Option String
  scopes : List String
  cachedAt : Nat

inductive GatewayError where
  | unauthorized
  | serviceUnavailable
  | forbidden (text : String)
  | internal (text : String)
  | rateLimited (retryAfter : Nat)
deriving DecidableEq

def extractU64 (obj : Json) (key : String) (default : Nat) : Nat :=
  ((obj.get key).bind Json.asU64).getD default

/-- `v as u32` cuts off. -/
def extractU32 (obj : Json) (key : String) (default : Nat) : UInt32 :=
  UInt32.ofNat (extractU64 obj key default)

/-- `TenantQuota::from_aspectus_quotas`. `none` is its error. -/
def fromAspectusQuotas : Json → Option TenantQuota
  | .obj fields =>
      let obj := Json.obj fields
      some
        { maxConcurrentSessions := extractU32 obj "max_concurrent_sessions" 10
          maxTokensPerDay := UInt64.ofNat (extractU64 obj "max_tokens_per_day" 1000000)
          maxToolCallsPerMinute := extractU32 obj "max_tool_calls_per_minute" 60
          cpuTimeBudgetMsPerDay :=
            UInt64.ofNat (extractU64 obj "cpu_time_budget_ms_per_day" 3600000) }
  | _ => none

def splitWhitespace (s : String) : List String :=
  ((s.toList.splitOnP isWhitespace).filter fun part => !part.isEmpty).map String.ofList

/-- `TenantContext::from_introspect`, with its errors as the middleware maps
them. -/
def fromIntrospect (tenantId : String) (userId scope : Option String) (quotasJson : Option Json)
    (now : Nat) : Except GatewayError TenantContext :=
  match quotasJson with
  | none => .error (.forbidden "tenant not configured for pandaria")
  | some json =>
      match fromAspectusQuotas json with
      | none =>
          .error (.internal
            ("invalid quotas format in introspection response: " ++
              "quotas.pandaria must be a JSON object"))
      | some quotas =>
          .ok
            { tenantId := tenantId
              quotas := quotas
              userId := userId
              scopes := (scope.map splitWhitespace).getD []
              cachedAt := now }

/-- What the middleware makes of an answer. -/
def judge (response : IntrospectResponse) (now : Nat) : Except GatewayError TenantContext :=
  if response.active then
    match response.tenantId with
    | none => .error .unauthorized
    | some tenantId =>
        fromIntrospect tenantId response.userId response.scope
          (response.quotas.bind (Json.get "pandaria")) now
  else .error .unauthorized

/-- `extract_bearer_token`, of a header that is there and is a text. -/
def extractBearerToken (authorization : Option String) : Option String :=
  authorization.bind fun v =>
    if "Bearer ".toList.isPrefixOf v.toList then some (String.ofList (v.toList.drop 7)) else none

/-! ## Requests -/

structure CacheEntry where
  ctx : TenantContext
  insertedAt : Nat

/-- `elapsed() < 60s`. -/
def CacheEntry.fresh (e : CacheEntry) (now : Nat) : Bool := now - e.insertedAt < 60 * second

/-- Cleanup retains it. -/
def CacheEntry.retained (e : CacheEntry) (now : Nat) : Bool := now - e.insertedAt < 300 * second

/-- Where a request stands. -/
inductive AuthPhase where
  | arrived
  /-- At the `fetch_add` of `TenantCache::get`. -/
  | counting (token : String)
  /-- Inside `retain`, with the time read before it. -/
  | cleaning (token : String) (now : Nat)
  | lookingUp (token : String)
  /-- In `introspect`, after this many failures. -/
  | asking (token : String) (attempts : Nat)
  | sleeping (token : String) (attempts : Nat) (wakeAt : Nat)
  /-- At `tenant_cache.insert`. -/
  | caching (token : String) (ctx : TenantContext)
  /-- Inside it, with the time read. -/
  | stamped (token : String) (ctx : TenantContext) (insertedAt : Nat)
  /-- At `resolve_or_insert`, which has no error path. -/
  | resolving (ctx : TenantContext)
  /-- At the rate limiter, since then. -/
  | admitted (ctx : Option TenantContext) (since : Nat)
  | refused (e : GatewayError)
  /-- At the route. -/
  | routed (ctx : TenantContext) (since : Nat)

structure AuthRequest where
  path : String
  authorization : Option String
  phase : AuthPhase

/-- An answer to a request. `none` is an error of the client. -/
structure Answer where
  request : Nat
  token : String
  response : Option IntrospectResponse
  time : Nat

inductive AuthEvent where
  | tick (n : Nat)
  | arrive (path : String) (authorization : Option String)
  /-- The next step of a request that does not wait for anyone. -/
  | step (i : Nat)
  /-- A request that cleans up comes to the row of a token. -/
  | visit (i : Nat) (token : String)
  | answer (i : Nat) (response : Option IntrospectResponse)
  /-- The rate limiter has checked its tenant. -/
  | check (i : Nat) (ok : Bool)

structure Middleware where
  clock : Nat
  entries : Table String CacheEntry
  counter : UInt64
  requests : List AuthRequest
  ttl : Expiring String TenantContext
  answers : List Answer

namespace Middleware

def new : Middleware :=
  { clock := 0
    entries := .empty
    counter := 0
    requests := []
    ttl := .empty
    answers := [] }

def goto (s : Middleware) (i : Nat) (r : AuthRequest) (phase : AuthPhase) : Middleware :=
  { s with requests := s.requests.set i { r with phase := phase } }

def record (s : Middleware) (answer : Answer) : Middleware :=
  { s with answers := s.answers ++ [answer] }

/-- What a lookup finds now. -/
def cached (s : Middleware) (token : String) : Option CacheEntry :=
  (s.entries.get? token).filter fun e => e.fresh s.clock

def enter (r : AuthRequest) (now : Nat) : AuthPhase :=
  if r.path = "/healthz" then .admitted none now
  else
    match extractBearerToken r.authorization with
    | some token => .counting token
    | none => .refused .unauthorized

/-- The row that a lookup puts in. -/
def insert (s : Middleware) (token : String) (ctx : TenantContext) (insertedAt : Nat) :
    Middleware :=
  { s with
    entries := s.entries.upsert token fun _ => ⟨ctx, insertedAt⟩
    ttl := s.ttl.set token ctx (some (insertedAt + 60 * second)) }

def proceed (s : Middleware) (i : Nat) (r : AuthRequest) : Middleware :=
  match r.phase with
  | .arrived => s.goto i r (enter r s.clock)
  | .counting token =>
      { s with counter := s.counter + 1 }.goto i r
        (if s.counter % 1024 = 0 then .cleaning token s.clock else .lookingUp token)
  | .cleaning token _ => s.goto i r (.lookingUp token)
  | .lookingUp token =>
      match s.cached token with
      | some e => s.goto i r (.admitted (some e.ctx) s.clock)
      | none => s.goto i r (.asking token 0)
  | .sleeping token attempts wakeAt =>
      if wakeAt ≤ s.clock then s.goto i r (.asking token attempts) else s
  | .caching token ctx => s.goto i r (.stamped token ctx s.clock)
  | .stamped token ctx insertedAt => (s.insert token ctx insertedAt).goto i r (.resolving ctx)
  | .resolving ctx => s.goto i r (.admitted (some ctx) s.clock)
  | .admitted ctx _ =>
      -- `unwrap_or_default` of the tenant's id
      if (ctx.map (·.tenantId)).getD "" = "" then s.goto i r (.refused .unauthorized) else s
  | .asking .. | .refused _ | .routed .. => s

def visit (s : Middleware) (now : Nat) (token : String) : Middleware :=
  match s.entries.get? token with
  | some e => if e.retained now then s else { s with entries := s.entries.erase token }
  | none => s

/-- After a call of `introspect`, in the loop of `introspect_with_retry` and
behind it. -/
def answered (s : Middleware) (i : Nat) (r : AuthRequest) (token : String) (attempts : Nat) :
    Option IntrospectResponse → Middleware
  | none =>
      if attempts < 2 then
        s.goto i r (.sleeping token (attempts + 1) (s.clock + 100000000 * 2 ^ attempts))
      else s.goto i r (.refused .serviceUnavailable)
  | some response =>
      match judge response s.clock with
      | .ok ctx => s.goto i r (.caching token ctx)
      | .error e => s.goto i r (.refused e)

/-- `(1.0 / requests_per_second).ceil().max(1.0) as u64`. -/
def retryAfter (config : RateLimitConfig) : Nat :=
  if config.requestsPerSecond = 0 then 2 ^ 64 - 1 else 1

def step (config : RateLimitConfig) (s : Middleware) : AuthEvent → Middleware
  | .tick n => { s with clock := s.clock + n, ttl := s.ttl.wait n }
  | .arrive path authorization =>
      { s with requests := s.requests ++ [⟨path, authorization, .arrived⟩] }
  | .step i =>
      match s.requests[i]? with
      | some r => s.proceed i r
      | none => s
  | .visit i token =>
      match s.requests[i]? with
      | some { phase := .cleaning _ now, .. } => s.visit now token
      | _ => s
  | .answer i response =>
      match s.requests[i]? with
      | some r =>
          match r.phase with
          | .asking token attempts =>
              (s.record ⟨i, token, response, s.clock⟩).answered i r token attempts response
          | _ => s
      | none => s
  | .check i ok =>
      match s.requests[i]? with
      | some r =>
          match r.phase with
          | .admitted (some ctx) since =>
              if ctx.tenantId = "" then s
              else if ok then s.goto i r (.routed ctx since)
              else s.goto i r (.refused (.rateLimited (retryAfter config)))
          | _ => s
      | none => s

end Middleware

end Pandaria.Gateway
