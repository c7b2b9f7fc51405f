import Mathlib.Algebra.Order.Field.Rat
import Mathlib.Data.UInt
import Pandaria.Lib.Table
import Pandaria.Lib.TokenBucket

/-!
# The rate limiter of the gateway

`RateLimiter::check` of `api-gateway/src/middleware/rate_limit.rs`, for calls
side by side. A call reads the clock first; then it counts itself, now and then
it cleans up, and at last it enters the entry of its tenant's bucket, with the
time it read at the beginning. Times are seconds and amounts are tokens, both
exact.
-/

namespace Pandaria.Gateway

open Pandaria.Lib

structure RateLimitConfig where
  requestsPerSecond : UInt32
  burstSize : UInt32

def RateLimitConfig.default : RateLimitConfig := { requestsPerSecond := 5, burstSize := 10 }

/-- One hour. -/
def staleThresholdSecs : Int := 3600

structure TokenBucket where
  tokens : ℚ
  maxTokens : ℚ
  refillRate : ℚ
  lastRefill : ℚ

/-- `Instant::duration_since`: zero for a time still to come. -/
def durationSince (now earlier : ℚ) : ℚ := max (now - earlier) 0

namespace TokenBucket

/-- What `or_insert` puts in. -/
def new (config : RateLimitConfig) (now : ℚ) : TokenBucket :=
  { tokens := config.burstSize.toNat
    maxTokens := config.burstSize.toNat
    refillRate := config.requestsPerSecond.toNat
    lastRefill := now }

/-- Cleanup retains it: it has been in use during the last hour. -/
def retained (bucket : TokenBucket) (now : ℚ) : Bool :=
  (durationSince now bucket.lastRefill).floor < staleThresholdSecs

def refill (bucket : TokenBucket) (now : ℚ) : TokenBucket :=
  { bucket with
    tokens :=
      min (bucket.tokens + durationSince now bucket.lastRefill * bucket.refillRate)
        bucket.maxTokens
    lastRefill := now }

/-- What is done under the lock of the entry: is there a token, and the bucket
after it. -/
def enter (bucket : TokenBucket) (now : ℚ) : Bool × TokenBucket :=
  let bucket := bucket.refill now
  if 1 ≤ bucket.tokens then (true, { bucket with tokens := bucket.tokens - 1 })
  else (false, bucket)

end TokenBucket

/-- Where a call of `check` stands. -/
inductive CheckPhase where
  /-- It has read the clock. -/
  | called
  /-- Inside `retain`. -/
  | cleaning
  /-- Before the entry of its bucket. -/
  | counted
  | returned (admitted : Bool)
deriving DecidableEq

structure Check where
  tenantId : String
  now : ℚ
  phase : CheckPhase

/-- It is admitted, and this is what it read on the clock. -/
def Check.admitted (tenantId : String) (check : Check) : Option ℚ :=
  if check.tenantId = tenantId ∧ check.phase = .returned true then some check.now else none

inductive LimiterEvent where
  /-- The clock goes on, to `time`. -/
  | tick (time : ℚ)
  | check (tenantId : String)
  /-- The next step of a call outside the buckets: its `fetch_add`, or the end
  of its `retain`. -/
  | step (i : Nat)
  /-- A call that cleans up comes to the bucket of a tenant. `retain` locks one
  shard after the other, and other calls go on in between. -/
  | visit (i : Nat) (tenantId : String)
  /-- A call enters the entry of its bucket. -/
  | enter (i : Nat)

/-- The limiter, the clock and all calls. Beside them stand the buckets that
cleanup has dropped, which nobody reads. -/
structure RateLimiter where
  buckets : Table String TokenBucket
  checkCount : UInt64
  clock : ℚ
  checks : List Check
  dropped : Table String TokenBucket

namespace RateLimiter

def new : RateLimiter :=
  { buckets := .empty
    checkCount := 0
    clock := 0
    checks := []
    dropped := .empty }

def setPhase (s : RateLimiter) (i : Nat) (check : Check) (phase : CheckPhase) : RateLimiter :=
  { s with checks := s.checks.set i { check with phase := phase } }

def visit (s : RateLimiter) (check : Check) (tenantId : String) : RateLimiter :=
  match s.buckets.get? tenantId with
  | some bucket =>
      if bucket.retained check.now then s
      else
        { s with
          buckets := s.buckets.erase tenantId
          dropped := s.dropped.upsert tenantId fun _ => bucket }
  | none => s

/-- The bucket the call finds, or makes. -/
def bucketFor (config : RateLimitConfig) (s : RateLimiter) (check : Check) : TokenBucket :=
  (s.buckets.get? check.tenantId).getD (.new config check.now)

def enter (config : RateLimitConfig) (s : RateLimiter) (i : Nat) (check : Check) : RateLimiter :=
  let result := (bucketFor config s check).enter check.now
  { s with
    buckets := s.buckets.upsert check.tenantId fun _ => result.2
    checks := s.checks.set i { check with phase := .returned result.1 } }

def step (config : RateLimitConfig) (s : RateLimiter) : LimiterEvent → RateLimiter
  | .tick time => { s with clock := max s.clock time }
  | .check tenantId =>
      { s with checks := s.checks ++ [{ tenantId := tenantId, now := s.clock, phase := .called }] }
  | .step i =>
      match s.checks[i]? with
      | some check =>
          match check.phase with
          | .called =>
              { s with checkCount := s.checkCount + 1 }.setPhase i check
                (if s.checkCount % 1024 = 0 then .cleaning else .counted)
          | .cleaning => s.setPhase i check .counted
          | .counted | .returned _ => s
      | none => s
  | .visit i tenantId =>
      match s.checks[i]? with
      | some check => if check.phase = .cleaning then s.visit check tenantId else s
      | none => s
  | .enter i =>
      match s.checks[i]? with
      | some check => if check.phase = .counted then s.enter config i check else s
      | none => s

/-- How many calls of a tenant were admitted with a reading in `[a, b]`. -/
def admittedWithin (s : RateLimiter) (tenantId : String) (a b : ℚ) : Nat :=
  s.checks.countP fun c =>
    c.tenantId = tenantId ∧ c.phase = .returned true ∧ a ≤ c.now ∧ c.now ≤ b

end RateLimiter

end Pandaria.Gateway
