import Pandaria.Gateway.RateLimit
import Pandaria.Lib.Run
import Pandaria.Lib.Threads

/-!
# What the rate limiter admits

A tenant's bucket covers what the tenant was admitted, and every entry keeps it
so that does not take the bucket back in time: the time that has been refilled
once would be refilled again. A bucket that cleanup has dropped goes on
covering, as nothing is admitted without it; the full one that takes its place
does, when the old one would be full by then.
-/

namespace Pandaria.Gateway

open Pandaria.Lib

namespace RateLimiter

/-- Within the budget, for every tenant and any interval. -/
def Bounded (config : RateLimitConfig) (s : RateLimiter) : Prop :=
  ∀ tenantId a b, a ≤ b → (s.admittedWithin tenantId a b : ℚ) ≤
    config.burstSize.toNat + config.requestsPerSecond.toNat * (b - a)

/-- The reading of a call is not before the last refill of the bucket it finds,
or, if it finds none, of the one that cleanup has dropped, which would be full
by now. -/
def follows (check : Check) : Option TokenBucket → Option TokenBucket → Prop
  | some bucket, _ => bucket.lastRefill ≤ check.now
  | none, some bucket =>
      bucket.lastRefill ≤ check.now ∧
        bucket.maxTokens ≤
          bucket.tokens + (check.now - bucket.lastRefill) * bucket.refillRate
  | none, none => True

def InOrder (s : RateLimiter) (check : Check) : Prop :=
  follows check (s.buckets.get? check.tenantId) (s.dropped.get? check.tenantId)

/-- A call that enters its bucket does so in order. -/
def Ok (s : RateLimiter) : LimiterEvent → Prop
  | .enter i => ∀ check ∈ s.checks[i]?, check.phase = .counted → s.InOrder check
  | .tick _ | .check _ | .step _ | .visit .. => True

instance (check : Check) : ∀ bucket dropped, Decidable (follows check bucket dropped)
  | some bucket, _ => inferInstanceAs (Decidable (bucket.lastRefill ≤ check.now))
  | none, some _ => inferInstanceAs (Decidable (_ ∧ _))
  | none, none => inferInstanceAs (Decidable True)

instance (s : RateLimiter) (check : Check) : Decidable (s.InOrder check) :=
  inferInstanceAs (Decidable (follows ..))

instance (s : RateLimiter) : ∀ e, Decidable (s.Ok e)
  | .enter i => inferInstanceAs (Decidable (∀ check ∈ s.checks[i]?, _ → _))
  | .tick _ | .check _ | .step _ | .visit .. => inferInstanceAs (Decidable True)

/-! ## What a bucket covers -/

/-- The readings of a tenant's admitted calls. -/
def readings (s : RateLimiter) (tenantId : String) : List ℚ :=
  s.checks.filterMap (Check.admitted tenantId)

/-- The tenant's bucket, or the last one that was dropped. -/
def latest (s : RateLimiter) (tenantId : String) : Option TokenBucket :=
  (s.buckets.get? tenantId).or (s.dropped.get? tenantId)

end RateLimiter

/-- A bucket of this configuration, which covers the readings. -/
structure TokenBucket.Covers (config : RateLimitConfig) (bucket : TokenBucket)
    (readings : List ℚ) : Prop where
  maxTokens : bucket.maxTokens = config.burstSize.toNat
  refillRate : bucket.refillRate = config.requestsPerSecond.toNat
  covered : Covered (config.burstSize.toNat : ℚ) config.requestsPerSecond.toNat readings
    bucket.tokens bucket.lastRefill

namespace TokenBucket.Covers

variable {config : RateLimitConfig} {bucket : TokenBucket} {readings : List ℚ} {now : ℚ}

theorem refill (h : bucket.Covers config readings) (hle : bucket.lastRefill ≤ now) :
    (bucket.refill now).Covers config readings := by
  refine ⟨h.maxTokens, h.refillRate, ?_⟩
  have hrefilled := h.covered.refill (Nat.cast_nonneg _) hle
  have hsince : durationSince now bucket.lastRefill = now - bucket.lastRefill :=
    max_eq_left (sub_nonneg.mpr hle)
  show Covered _ _ readings
    (min (bucket.tokens + durationSince now bucket.lastRefill * bucket.refillRate)
      bucket.maxTokens) now
  rw [hsince, h.refillRate, h.maxTokens]
  exact hrefilled

/-- The reading of an admitted call joins those the bucket covers. -/
theorem enter (h : bucket.Covers config readings) (hle : bucket.lastRefill ≤ now) :
    (bucket.enter now).2.Covers config
      (if (bucket.enter now).1 then now :: readings else readings) := by
  have hrefilled := h.refill hle
  rw [TokenBucket.enter]
  split
  · next htoken =>
      exact ⟨hrefilled.maxTokens, hrefilled.refillRate,
        hrefilled.covered.take (Nat.cast_nonneg _) htoken⟩
  · exact hrefilled

/-- A new bucket covers nothing at all, -/
theorem new (config : RateLimitConfig) (now : ℚ) : (TokenBucket.new config now).Covers config [] :=
  ⟨rfl, rfl, Covered.nil (Nat.cast_nonneg _) (Nat.cast_nonneg _) now⟩

/-- and what a bucket covered that would be full by now. -/
theorem renew (h : bucket.Covers config readings) (hle : bucket.lastRefill ≤ now)
    (hfull : bucket.maxTokens ≤ bucket.tokens + (now - bucket.lastRefill) * bucket.refillRate) :
    (TokenBucket.new config now).Covers config readings := by
  rw [h.maxTokens, h.refillRate] at hfull
  exact ⟨rfl, rfl, h.covered.renew (Nat.cast_nonneg _) hle hfull⟩

end TokenBucket.Covers

namespace RateLimiter

variable {config : RateLimitConfig} {s : RateLimiter}

/-- Every tenant's readings are covered by its bucket; one that never had a
bucket has none. -/
def AllCovered (config : RateLimitConfig) (s : RateLimiter) : Prop :=
  ∀ tenantId,
    match s.latest tenantId with
    | some bucket => bucket.Covers config (s.readings tenantId)
    | none => s.readings tenantId = []

theorem AllCovered.of_eq {s' : RateLimiter} (h : s.AllCovered config)
    (hlatest : ∀ t, s'.latest t = s.latest t) (hreadings : ∀ t, s'.readings t = s.readings t) :
    s'.AllCovered config := by
  intro tenantId
  rw [hlatest, hreadings]
  exact h tenantId

/-! ## One step -/

theorem admitted_eq_none {check : Check} (h : check.phase ≠ .returned true) (tenantId : String) :
    check.admitted tenantId = none :=
  if_neg fun ha => h ha.2

/-- A call moves on, and is not admitted by that. -/
theorem readings_setPhase {check : Check} {i : Nat} {phase : CheckPhase}
    (h : s.checks[i]? = some check) (hbefore : check.phase ≠ .returned true)
    (hafter : phase ≠ .returned true) (tenantId : String) :
    (s.setPhase i check phase).readings tenantId = s.readings tenantId := by
  refine filterMap_set_of_eq h ?_
  rw [admitted_eq_none hbefore]
  exact admitted_eq_none hafter tenantId

theorem readings_check (tenantId : String) :
    (s.step config (.check tenantId)).readings = s.readings := by
  funext t
  refine (List.filterMap_append ..).trans ?_
  rw [List.filterMap_cons_none, List.filterMap_nil, List.append_nil]
  · rfl
  · exact admitted_eq_none CheckPhase.noConfusion t

/-- A bucket that is dropped is the latest still. -/
theorem latest_visit (check : Check) (tenantId t : String) :
    (s.visit check tenantId).latest t = s.latest t := by
  rw [visit]
  split
  · next bucket hbucket =>
      split
      · rfl
      · rw [latest, latest, Table.get?_erase, Table.get?_upsert]
        split
        · next ht => rw [ht, hbucket, Option.none_or, Option.some_or]
        · rfl
  · rfl

theorem readings_visit (check : Check) (tenantId t : String) :
    (s.visit check tenantId).readings t = s.readings t := by
  rw [visit]
  split
  · split <;> rfl
  · rfl

/-- The bucket a call finds or makes covers what its tenant was admitted. -/
theorem covers_bucketFor {check : Check} (h : s.AllCovered config) (hin : s.InOrder check) :
    (bucketFor config s check).Covers config (s.readings check.tenantId) ∧
      (bucketFor config s check).lastRefill ≤ check.now := by
  have hlatest := h check.tenantId
  rw [InOrder] at hin
  rw [latest] at hlatest
  rw [bucketFor]
  cases hb : s.buckets.get? check.tenantId with
  | some bucket =>
      rw [hb] at hin hlatest
      exact ⟨hlatest, hin⟩
  | none =>
      rw [hb, Option.none_or] at hlatest
      cases hd : s.dropped.get? check.tenantId with
      | some bucket =>
          rw [hb, hd] at hin
          rw [hd] at hlatest
          exact ⟨hlatest.renew hin.1 hin.2, le_refl _⟩
      | none =>
          rw [hd] at hlatest
          rw [Option.getD_none, show s.readings check.tenantId = [] from hlatest]
          exact ⟨TokenBucket.Covers.new config check.now, le_refl _⟩

theorem readings_enter {check : Check} {i : Nat} (h : s.checks[i]? = some check)
    (hphase : check.phase = .counted) :
    ((s.enter config i check).readings check.tenantId).Perm
      (if ((bucketFor config s check).enter check.now).1 then
        check.now :: s.readings check.tenantId else s.readings check.tenantId) := by
  have hbefore : check.admitted check.tenantId = none := by
    refine admitted_eq_none ?_ _
    rw [hphase]
    decide
  split
  · next hadmitted =>
      refine filterMap_set_perm h hbefore ?_
      rw [Check.admitted, hadmitted, if_pos ⟨rfl, rfl⟩]
  · next hrefused =>
      refine List.Perm.of_eq (filterMap_set_of_eq h ?_)
      rw [hbefore, Bool.eq_false_of_not_eq_true hrefused]
      refine admitted_eq_none ?_ _
      show CheckPhase.returned false ≠ .returned true
      decide

/-- And those of the other tenants stay. -/
theorem readings_enter_of_ne {check : Check} {i : Nat} {tenantId : String}
    (h : s.checks[i]? = some check) (hne : tenantId ≠ check.tenantId) :
    (s.enter config i check).readings tenantId = s.readings tenantId := by
  refine filterMap_set_of_eq h ?_
  rw [Check.admitted, Check.admitted, if_neg fun ha => hne ha.1.symm,
    if_neg fun ha => hne ha.1.symm]

theorem allCovered_enter {check : Check} {i : Nat} (h : s.AllCovered config)
    (hi : s.checks[i]? = some check) (hphase : check.phase = .counted) (hin : s.InOrder check) :
    (s.enter config i check).AllCovered config := by
  obtain ⟨hcovers, hle⟩ := covers_bucketFor h hin
  intro tenantId
  have hget : (s.enter config i check).buckets.get? tenantId =
      if tenantId = check.tenantId then some ((bucketFor config s check).enter check.now).2
      else s.buckets.get? tenantId := Table.get?_upsert ..
  by_cases ht : tenantId = check.tenantId
  · subst ht
    rw [latest, hget, if_pos rfl, Option.some_or]
    have hentered := hcovers.enter hle
    exact ⟨hentered.maxTokens, hentered.refillRate,
      hentered.covered.perm (readings_enter hi hphase)⟩
  · rw [latest, hget, if_neg ht, readings_enter_of_ne hi ht]
    exact h tenantId

theorem allCovered_step (h : s.AllCovered config) (e : LimiterEvent) (hok : s.Ok e) :
    (s.step config e).AllCovered config := by
  cases e with
  | tick time => exact h.of_eq (fun _ => rfl) fun _ => rfl
  | check tenantId => exact h.of_eq (fun _ => rfl) fun t => congrFun (readings_check tenantId) t
  | step i =>
      rw [step]
      split
      · next check hi =>
          split
          · next hphase =>
              refine h.of_eq (fun _ => rfl) fun t =>
                @readings_setPhase { s with checkCount := s.checkCount + 1 } check i _ hi ?_ ?_ t
              · rw [hphase]
                decide
              · split <;> decide
          · next hphase =>
              refine h.of_eq (fun _ => rfl) fun t => readings_setPhase hi ?_ (by decide) t
              rw [hphase]
              decide
          · exact h
          · exact h
      · exact h
  | visit i tenantId =>
      rw [step]
      split
      · split
        · exact h.of_eq (latest_visit _ tenantId) (readings_visit _ tenantId)
        · exact h
      · exact h
  | enter i =>
      rw [step]
      split
      · next check hi =>
          split
          · next hphase => exact allCovered_enter h hi hphase (hok check hi hphase)
          · exact h
      · exact h

/-! ## Any run -/

theorem allCovered_new (config : RateLimitConfig) : new.AllCovered config := fun _ => rfl

theorem admittedWithin_eq (s : RateLimiter) (tenantId : String) (a b : ℚ) :
    s.admittedWithin tenantId a b = between (s.readings tenantId) a b := by
  rw [admittedWithin, readings, between, List.countP_filterMap]
  refine List.countP_congr fun c _ => ?_
  rw [Check.admitted]
  split
  · next h => simp [h]
  · next h =>
      have h' : c.tenantId = tenantId → ¬ c.phase = .returned true := fun ht hp => h ⟨ht, hp⟩
      simpa using fun ht hp => absurd hp (h' ht)

theorem AllCovered.bounded (h : s.AllCovered config) : s.Bounded config := by
  intro tenantId a b hab
  rw [admittedWithin_eq]
  have hlatest := h tenantId
  split at hlatest
  · exact hlatest.covered.bounded a b hab
  · rw [show s.readings tenantId = [] from hlatest]
    exact (Covered.nil (Nat.cast_nonneg _) (Nat.cast_nonneg _) 0).bounded a b hab

/-- Whatever the calls do and whenever they clean up: as long as they enter
their buckets in order, no tenant is admitted more than it has a right to. -/
theorem bounded_of_along_ok (config : RateLimitConfig) (events : List LimiterEvent)
    (h : Along (step config) Ok new events) :
    (events.foldl (step config) new).Bounded config := by
  refine AllCovered.bounded ?_
  refine Along.invariant (fun s e hok hs => ?_) (allCovered_new config) h
  exact allCovered_step hs e hok

/-! ## Out of order -/

/-- One request a second, without a burst. -/
def oneASecond : RateLimitConfig := { requestsPerSecond := 1, burstSize := 1 }

/-- Two calls in the same second, the second of them refused, and one a second
later. -/
def inTurn : List LimiterEvent :=
  [.check "acme", .step 0, .step 0, .enter 0, .check "acme", .step 1, .enter 1, .tick 1,
    .check "acme", .step 2, .enter 2]

theorem bounded_inTurn : (inTurn.foldl (step oneASecond) new).Bounded oneASecond := by
  refine bounded_of_along_ok oneASecond inTurn ?_
  decide +kernel

/-- A call that reads the clock at 0 enters behind one that reads it at 1, and
takes the bucket back to 0. The next call finds the second that the bucket had
been filled up to already, and gets a token for it again. -/
def overtaken : List LimiterEvent :=
  [.check "acme", .step 0, .step 0, .tick 1, .check "acme", .step 1, .enter 1, .enter 0,
    .check "acme", .step 2, .enter 2]

/-- Two calls are admitted at the time 1. -/
theorem not_bounded_overtaken :
    ¬ (overtaken.foldl (step oneASecond) new).Bounded oneASecond := by
  intro h
  have hbound := h "acme" 1 1 (le_refl 1)
  revert hbound
  decide +kernel

end RateLimiter

end Pandaria.Gateway
