import Pandaria.Agent.CircuitBreaker
import Pandaria.Lib.Run
import Pandaria.Lib.Threads

/-!
# What the half-open counter counts

A check counts itself first and looks afterwards, so the counter goes beyond
the maximum with every check that is refused, and comes back. What it never
does by itself is go below zero: whoever subtracts has been counted. That
holds as long as the counter is not set to zero under somebody's feet, and as
long as no call fails the breaker while nothing has been counted.

That the breaker opens at its threshold needs none of this. Reports are made
under the write lock, and a closed breaker has been closed by a success.
-/

namespace Pandaria.Agent

open Pandaria.Lib

namespace Caller

/-- It is about to take back what it has added to the counter. -/
def isBeyond : Caller → Bool
  | .beyond _ => true
  | _ => false

def isAdding : Caller → Bool
  | .adding _ => true
  | _ => false

/-- It has been admitted by the counter, and its request is in flight. -/
def isProbe : Caller → Bool
  | .admitted (some _) => true
  | _ => false

end Caller

namespace CircuitBreaker

/-- A report always ends the half-open state. -/
theorem record_state (cfg : BreakerConfig) (wall : Nat) (b : CircuitBreaker) (r : Report) :
    (b.record cfg wall r).state ≠ .halfOpen := by
  obtain ⟨state, failures, requests, time⟩ := b
  cases r with
  | success =>
      cases state <;> simp [record, recordSuccess]
  | failure =>
      cases state with
      | closed =>
          simp only [record, recordFailure]
          split <;> simp
      | opened | halfOpen => simp [record, recordFailure]

/-- Outside of the half-open state it leaves the counter alone. -/
theorem record_requests (cfg : BreakerConfig) (wall : Nat) {b : CircuitBreaker} (r : Report)
    (h : b.state ≠ .halfOpen) : (b.record cfg wall r).halfOpenRequests = b.halfOpenRequests := by
  obtain ⟨state, failures, requests, time⟩ := b
  cases r with
  | success =>
      rw [record, recordSuccess, if_neg h]
  | failure =>
      cases state with
      | closed =>
          simp only [record, recordFailure]
          split <;> rfl
      | opened => rfl
      | halfOpen => exact absurd rfl h

theorem recordFailure_failures (cfg : BreakerConfig) (wall : Nat) (b : CircuitBreaker) :
    (b.recordFailure cfg wall).consecutiveFailures = fetchAdd b.consecutiveFailures := by
  obtain ⟨state, failures, requests, time⟩ := b
  cases state with
  | closed =>
      simp only [recordFailure]
      split <;> rfl
  | opened | halfOpen => rfl

theorem recordFailure_state (cfg : BreakerConfig) (wall : Nat) (b : CircuitBreaker) :
    (b.recordFailure cfg wall).state =
      if b.state = .closed ∧ fetchAdd b.consecutiveFailures < cfg.failureThreshold.toNat
        then .closed else .opened := by
  obtain ⟨state, failures, requests, time⟩ := b
  cases state with
  | closed =>
      simp only [recordFailure, true_and]
      split
      next hle => rw [if_neg (Nat.not_lt.mpr hle)]
      next hlt => rw [if_pos (Nat.lt_of_not_le hlt)]
  | opened | halfOpen => rfl

end CircuitBreaker

/-- The failures since the last success. -/
def trailing (reports : List Report) : Nat := (reports.takeWhile (· = .failure)).length

namespace SharedBreaker

def beyond (s : SharedBreaker) : Nat := s.callers.countP Caller.isBeyond

def probes (s : SharedBreaker) : Nat := s.callers.countP Caller.isProbe

/-- The next event takes one from the counter. -/
def Subtracts (s : SharedBreaker) : BreakerEvent → Prop
  | .check i _ => ∃ held, s.callers[i]? = some (.beyond held)
  | .record i r _ => s.mayRecord i = true ∧ r = .failure ∧ s.breaker.state = .halfOpen
  | .call | .finish _ => False

/-- Nobody is between `fetch_add` and `fetch_sub` without the lock. -/
def NoStray (s : SharedBreaker) : Prop := ∀ c ∈ s.callers, c ≠ .beyond .nothing

instance (s : SharedBreaker) : Decidable s.NoStray :=
  inferInstanceAs (Decidable (∀ c ∈ s.callers, c ≠ .beyond .nothing))

/-- The counter does not go round. It is set to zero while no refused check has
still to subtract, and for a new round while no call that it has let through is
in flight. A half-open breaker is failed while one is. -/
def Ok (s : SharedBreaker) : BreakerEvent → Prop
  | .check i clock =>
      (s.callers[i]?.any Caller.isAdding = true → s.breaker.halfOpenRequests + 1 < 2 ^ 32) ∧
        (s.turnsHalfOpen i clock → s.NoStray ∧ s.probes = 0)
  | .record i r _ =>
      s.mayRecord i = true → s.breaker.state = .halfOpen →
        match r with
        | .success => s.NoStray
        | .failure => 0 < s.probes
  | .call | .finish _ => True

instance (s : SharedBreaker) (e : BreakerEvent) : Decidable (s.Ok e) :=
  match e with
  | .check _ _ => inferInstanceAs (Decidable ((_ = true → _ < _) ∧ (_ → _ ∧ _ = 0)))
  | .record _ .success _ => inferInstanceAs (Decidable (_ = true → _ = _ → s.NoStray))
  | .record _ .failure _ => inferInstanceAs (Decidable (_ = true → _ = _ → 0 < s.probes))
  | .call => inferInstanceAs (Decidable True)
  | .finish _ => inferInstanceAs (Decidable True)

/-- What the counter holds, step by step. -/
structure Counted (s : SharedBreaker) : Prop where
  lower : s.beyond ≤ s.breaker.halfOpenRequests
  upper : s.breaker.halfOpenRequests ≤ s.cfg.halfOpenMax.toNat + s.beyond
  probes : s.breaker.state = .halfOpen → s.probes + s.beyond ≤ s.breaker.halfOpenRequests

/-- What the counter of failures holds. -/
structure Tallied (s : SharedBreaker) : Prop where
  failures : s.breaker.consecutiveFailures = trailing s.reports % 2 ^ 32
  closed : s.breaker.state = .closed → trailing s.reports < max 1 s.cfg.failureThreshold.toNat

/-! ## Callers moving -/

theorem noStray_beyond {s : SharedBreaker} (hlock : s.locked = false) (h : s.NoStray) :
    s.beyond = 0 := by
  rw [beyond, List.countP_eq_zero]
  intro c hc hbeyond
  have hfree : c.holdsLock = false := by
    rw [locked, List.any_eq_false] at hlock
    exact Bool.eq_false_iff.mpr (hlock c hc)
  cases c with
  | beyond held =>
      cases held with
      | nothing => exact h _ hc rfl
      | read | write => cases hfree
  | _ => cases hbeyond

/-- What a step of `check` does. Where it neither adds to the counter nor takes from
it, a caller moves that is counted nowhere, or a round begins. -/
inductive Checks (s : SharedBreaker) (i : Nat) (clock : Clock) : SharedBreaker → Prop where
  | stays : Checks s i clock s
  | moves {a b : Caller} (hi : s.callers[i]? = some a) (ha : a.isProbe = false)
      (hao : a.isBeyond = false) (hb : b.isProbe = false) (hbo : b.isBeyond = false) :
      Checks s i clock (s.move i b)
  | turns (h : s.turnsHalfOpen i clock) : Checks s i clock
      { s with
        breaker := s.breaker.turnHalfOpen
        callers := s.callers.set i (.adding .nothing)
        round := s.round + 1 }
  | adds {held : Held} (hi : s.callers[i]? = some (.adding held)) : Checks s i clock
      { s with
        breaker := { s.breaker with
          halfOpenRequests := CircuitBreaker.fetchAdd s.breaker.halfOpenRequests }
        callers := s.callers.set i
          (if s.cfg.halfOpenMax.toNat ≤ s.breaker.halfOpenRequests then .beyond held
            else .admitted (some s.round)) }
  | subtracts {held : Held} (hi : s.callers[i]? = some (.beyond held)) : Checks s i clock
      { s with
        breaker := { s.breaker with
          halfOpenRequests := CircuitBreaker.fetchSub s.breaker.halfOpenRequests }
        callers := s.callers.set i (.refused s.cfg.openDuration) }

theorem check_checks (s : SharedBreaker) (i : Nat) (clock : Clock) :
    Checks s i clock (s.check i clock) := by
  rw [check]
  split
  next hi =>
    split
    · exact .stays
    · split <;> exact .moves hi rfl rfl rfl rfl
  next hi =>
    split
    · exact .stays
    next hlock =>
      split
      next hstate =>
        split
        next helapsed => exact .turns ⟨hi, Bool.eq_false_iff.mpr hlock, hstate, helapsed⟩
        next => exact .moves hi rfl rfl rfl rfl
      next => exact .moves hi rfl rfl rfl rfl
      next => exact .moves hi rfl rfl rfl rfl
  next held hi => exact .adds hi
  next held hi => exact .subtracts hi
  next => exact .stays

/-- A caller moves on in `check`, and the counter with it by what is counted of
the caller. -/
theorem Counted.move {s : SharedBreaker} (h : s.Counted) {i n : Nat} {a b : Caller}
    (hi : s.callers[i]? = some a) (ha : a.isProbe = false)
    (hn : n + (if a.isBeyond then 1 else 0) =
      s.breaker.halfOpenRequests + (if b.isBeyond then 1 else 0) + (if b.isProbe then 1 else 0))
    (hroom : b.isProbe = true → s.breaker.halfOpenRequests < s.cfg.halfOpenMax.toNat) :
    Counted { s with
      breaker := { s.breaker with halfOpenRequests := n }, callers := s.callers.set i b } := by
  have hbeyond := countP_set_add hi b Caller.isBeyond
  have hprobes := countP_set_add hi b Caller.isProbe
  have hlower := h.lower
  have hupper := h.upper
  rw [beyond] at hlower hupper
  rw [ha] at hprobes
  have hboth : b.isProbe = true → b.isBeyond = false := by
    intro hb
    cases b with
    | beyond => cases hb
    | _ => rfl
  refine ⟨?_, ?_, fun hstate => ?_⟩
  · simp only [beyond]
    omega
  · simp only [beyond]
    by_cases hb : b.isProbe = true
    · have hlt := hroom hb
      rw [hboth hb, hb] at hn
      simp only [Bool.false_eq_true, if_false, if_true] at hn
      omega
    · rw [if_neg hb] at hn
      omega
  · have hle := h.probes hstate
    rw [SharedBreaker.probes, beyond] at hle
    simp only [SharedBreaker.probes, beyond]
    simp only [Bool.false_eq_true, if_false] at hprobes
    omega

/-- A caller moves that is counted nowhere. -/
theorem Counted.moveFree {s : SharedBreaker} (h : s.Counted) {i : Nat} {a b : Caller}
    (hi : s.callers[i]? = some a) (ha : a.isProbe = false) (hao : a.isBeyond = false)
    (hb : b.isProbe = false) (hbo : b.isBeyond = false) : (s.move i b).Counted := by
  have hn : s.breaker.halfOpenRequests + (if a.isBeyond then 1 else 0) =
      s.breaker.halfOpenRequests + (if b.isBeyond then 1 else 0) +
        (if b.isProbe then 1 else 0) := by
    rw [hao, hb, hbo]
    rfl
  exact h.move hi ha hn (by rw [hb]; exact nofun)

theorem Counted.check {s : SharedBreaker} (h : s.Counted) {i : Nat} {clock : Clock}
    (hok : s.Ok (.check i clock)) : (s.check i clock).Counted := by
  have hchecks := s.check_checks i clock
  generalize s.check i clock = t at hchecks ⊢
  cases hchecks with
  | stays => exact h
  | moves hi ha hao hb hbo => exact h.moveFree hi ha hao hb hbo
  | turns hturns =>
      -- A new round: nobody is counted, and the counter is at zero.
      obtain ⟨hstray, hprobes⟩ := hok.2 hturns
      obtain ⟨hi, hfree, -, -⟩ := hturns
      have hbeyond := noStray_beyond hfree hstray
      have hbeyond' := countP_set_add hi (.adding .nothing) Caller.isBeyond
      have hprobes' := countP_set_add hi (.adding .nothing) Caller.isProbe
      rw [beyond] at hbeyond
      rw [SharedBreaker.probes] at hprobes
      rw [hbeyond] at hbeyond'
      rw [hprobes] at hprobes'
      refine ⟨?_, Nat.zero_le _, fun _ => ?_⟩
      · simp only [beyond, CircuitBreaker.turnHalfOpen]
        exact Nat.le_of_eq hbeyond'
      · simp only [SharedBreaker.probes, beyond, CircuitBreaker.turnHalfOpen]
        exact Nat.le_of_eq (congrArg₂ (· + ·) hprobes' hbeyond')
  | adds hi =>
      have hadd : CircuitBreaker.fetchAdd s.breaker.halfOpenRequests =
          s.breaker.halfOpenRequests + 1 := Nat.mod_eq_of_lt (hok.1 (by rw [hi]; rfl))
      by_cases hmax : s.cfg.halfOpenMax.toNat ≤ s.breaker.halfOpenRequests
      · simp only [if_pos hmax]
        exact h.move hi rfl hadd fun hprobe => absurd hprobe Bool.false_ne_true
      · simp only [if_neg hmax]
        exact h.move hi rfl hadd fun _ => Nat.lt_of_not_le hmax
  | subtracts hi =>
      have hpos : 0 < s.beyond := countP_pos_of_getElem? hi rfl
      have hlower := h.lower
      have hsub : CircuitBreaker.fetchSub s.breaker.halfOpenRequests + 1 =
          s.breaker.halfOpenRequests := by
        rw [CircuitBreaker.fetchSub, if_neg (by omega)]
        omega
      exact h.move hi rfl hsub fun hprobe => absurd hprobe Bool.false_ne_true

/-- A call in flight has a slot of its own. -/
theorem Counted.slot {s : SharedBreaker} (h : s.Counted) (hpos : 0 < s.probes)
    (hstate : s.breaker.state = .halfOpen) : s.beyond < s.breaker.halfOpenRequests := by
  have hprobes := h.probes hstate
  omega

theorem Counted.record {s : SharedBreaker} (h : s.Counted) {i wall : Nat} {r : Report}
    (hmay : s.mayRecord i = true) (hok : s.Ok (.record i r wall)) :
    Counted { s with breaker := s.breaker.record s.cfg wall r, reports := r :: s.reports } := by
  have hfree : s.locked = false := by
    rw [mayRecord, Bool.and_eq_true, Bool.not_eq_true'] at hmay
    exact hmay.1
  by_cases hstate : s.breaker.state = .halfOpen
  · have hok' := hok hmay hstate
    cases r with
    | success =>
        have hbeyond := noStray_beyond hfree hok'
        rw [beyond] at hbeyond
        simp only [CircuitBreaker.record, CircuitBreaker.recordSuccess, hstate, if_true]
        refine ⟨Nat.le_of_eq hbeyond, Nat.zero_le _, fun hhalf => ?_⟩
        cases hhalf
    | failure =>
        have hlt := h.slot hok' hstate
        have hupper := h.upper
        have hsub : CircuitBreaker.fetchSub s.breaker.halfOpenRequests =
            s.breaker.halfOpenRequests - 1 := by
          rw [CircuitBreaker.fetchSub, if_neg (by omega)]
        rw [beyond] at hlt hupper
        simp only [CircuitBreaker.record, CircuitBreaker.recordFailure, hstate, hsub]
        refine ⟨?_, ?_, fun hhalf => ?_⟩
        · simp only [beyond]
          omega
        · simp only [beyond]
          omega
        · cases hhalf
  · have hsame := CircuitBreaker.record_requests s.cfg wall r hstate
    have hends := CircuitBreaker.record_state s.cfg wall s.breaker r
    refine ⟨?_, ?_, fun hhalf => absurd hhalf hends⟩
    · simp only [beyond, hsame]
      exact h.lower
    · simp only [beyond, hsame]
      exact h.upper

theorem Counted.act {s : SharedBreaker} (h : s.Counted) {e : BreakerEvent} (hok : s.Ok e) :
    (s.act e).Counted := by
  cases e with
  | call =>
      have hbeyond : (s.act .call).beyond = s.beyond := countP_push_of_not s.callers rfl
      have hprobes : (s.act .call).probes = s.probes := countP_push_of_not s.callers rfl
      refine ⟨?_, ?_, fun hstate => ?_⟩
      · rw [hbeyond]
        exact h.lower
      · rw [hbeyond]
        exact h.upper
      · rw [hbeyond, hprobes]
        exact h.probes hstate
  | check i clock => exact h.check hok
  | record i r wall =>
      rw [SharedBreaker.act]
      split
      next hmay => exact h.record hmay hok
      next => exact h
  | finish i =>
      rw [SharedBreaker.act]
      split
      next slot hi =>
        have hbeyond := countP_set_of_not (p := Caller.isBeyond) hi rfl (b := .returned) rfl
        have hprobes := countP_set_add hi .returned Caller.isProbe
        refine ⟨?_, ?_, fun hstate => ?_⟩
        · simp only [beyond, SharedBreaker.move, hbeyond]
          exact h.lower
        · simp only [beyond, SharedBreaker.move, hbeyond]
          exact h.upper
        · have hle := h.probes hstate
          rw [SharedBreaker.probes, beyond] at hle
          simp only [beyond, SharedBreaker.probes, SharedBreaker.move, hbeyond]
          have hreturned : Caller.returned.isProbe = false := rfl
          rw [hreturned] at hprobes
          simp only [Bool.false_eq_true, if_false] at hprobes
          omega
      next => exact h

theorem counted_start (cfg : BreakerConfig) : (start cfg).Counted :=
  ⟨Nat.le_refl 0, Nat.zero_le _, nofun⟩

/-! ## Failures in a row -/

/-- What a step of `check` does not touch, and what it does to the state. -/
theorem check_frame (s : SharedBreaker) (i : Nat) (clock : Clock) :
    (s.check i clock).reports = s.reports ∧ (s.check i clock).cfg = s.cfg ∧
      (s.check i clock).breaker.consecutiveFailures = s.breaker.consecutiveFailures ∧
      ((s.check i clock).breaker.state = s.breaker.state ∨
        s.breaker.state = .opened ∧ (s.check i clock).breaker.state = .halfOpen) := by
  have hchecks := s.check_checks i clock
  generalize s.check i clock = t at hchecks ⊢
  cases hchecks with
  | turns hturns =>
      obtain ⟨-, -, hstate, -⟩ := hturns
      exact ⟨rfl, rfl, rfl, .inr ⟨hstate, rfl⟩⟩
  | stays | moves | adds | subtracts => exact ⟨rfl, rfl, rfl, .inl rfl⟩

theorem finish_frame (s : SharedBreaker) (i : Nat) :
    (s.act (.finish i)).reports = s.reports ∧ (s.act (.finish i)).cfg = s.cfg ∧
      (s.act (.finish i)).breaker = s.breaker := by
  rw [act]
  split <;> exact ⟨rfl, rfl, rfl⟩

/-- A failure reported to a closed breaker opens it, or is one of too few. -/
theorem Tallied.recordFailure {s : SharedBreaker} (h : s.Tallied) (wall : Nat)
    (hclosed : s.breaker.state = .closed) :
    (s.breaker.recordFailure s.cfg wall).state =
      if trailing s.reports + 1 < s.cfg.failureThreshold.toNat then .closed else .opened := by
  have hlt := h.closed hclosed
  have hbound : s.cfg.failureThreshold.toNat < 2 ^ 32 := s.cfg.failureThreshold.toNat_lt
  have hfailures : CircuitBreaker.fetchAdd s.breaker.consecutiveFailures =
      trailing s.reports + 1 := by
    rw [CircuitBreaker.fetchAdd, h.failures]
    omega
  rw [CircuitBreaker.recordFailure_state, hfailures]
  simp only [hclosed, true_and]

theorem Tallied.record {s : SharedBreaker} (h : s.Tallied) (wall : Nat) (r : Report) :
    Tallied { s with breaker := s.breaker.record s.cfg wall r, reports := r :: s.reports } := by
  cases r with
  | success =>
      refine ⟨?_, fun _ => ?_⟩
      · simp only [CircuitBreaker.record, CircuitBreaker.recordSuccess]
        split <;> rfl
      · exact Nat.lt_of_lt_of_le Nat.zero_lt_one (Nat.le_max_left _ _)
  | failure =>
      have htrailing : trailing (.failure :: s.reports) = trailing s.reports + 1 := rfl
      have hfailures := h.failures
      refine ⟨?_, fun hclosed => ?_⟩
      · have hcount := CircuitBreaker.recordFailure_failures s.cfg wall s.breaker
        rw [CircuitBreaker.fetchAdd, hfailures] at hcount
        simp only [CircuitBreaker.record, hcount, htrailing]
        omega
      · have hbefore : s.breaker.state = .closed := by
          have hstate := CircuitBreaker.recordFailure_state s.cfg wall s.breaker
          simp only [CircuitBreaker.record] at hclosed
          rw [hclosed] at hstate
          split at hstate
          next h => exact h.1
          next => cases hstate
        have hstate := h.recordFailure wall hbefore
        simp only [CircuitBreaker.record] at hclosed
        rw [hclosed] at hstate
        simp only [htrailing]
        split at hstate
        next hlt => omega
        next => cases hstate

theorem Tallied.act {s : SharedBreaker} (h : s.Tallied) (e : BreakerEvent) :
    (s.act e).Tallied := by
  cases e with
  | call => exact ⟨h.failures, h.closed⟩
  | check i clock =>
      obtain ⟨hreports, hcfg, hfailures, hstate⟩ := check_frame s i clock
      refine ⟨?_, fun hclosed => ?_⟩
      · rw [SharedBreaker.act, hreports, hfailures]
        exact h.failures
      · rw [SharedBreaker.act] at hclosed ⊢
        rw [hreports, hcfg]
        rcases hstate with hstate | ⟨_, hstate⟩
        · exact h.closed (hstate ▸ hclosed)
        · rw [hstate] at hclosed
          cases hclosed
  | record i r wall =>
      rw [SharedBreaker.act]
      split
      · exact h.record wall r
      · exact h
  | finish i =>
      obtain ⟨hreports, hcfg, hbreaker⟩ := finish_frame s i
      refine ⟨?_, ?_⟩
      · rw [hreports, hbreaker]
        exact h.failures
      · rw [hreports, hcfg, hbreaker]
        exact h.closed

theorem tallied_start (cfg : BreakerConfig) : (start cfg).Tallied :=
  ⟨rfl, fun _ => Nat.lt_of_lt_of_le Nat.zero_lt_one (Nat.le_max_left _ _)⟩

/-- A closed breaker opens with the failure that makes it as many in a row as
the threshold, and with no other event. -/
theorem Tallied.opens {s : SharedBreaker} (h : s.Tallied) (hclosed : s.breaker.state = .closed)
    (e : BreakerEvent) :
    (s.act e).breaker.state = .opened ↔
      max 1 s.cfg.failureThreshold.toNat ≤ trailing (s.act e).reports := by
  have hlt := h.closed hclosed
  have hstays : (s.act e).breaker.state = .closed → (s.act e).reports = s.reports →
      ((s.act e).breaker.state = .opened ↔
        max 1 s.cfg.failureThreshold.toNat ≤ trailing (s.act e).reports) := by
    intro hstate hreports
    rw [hstate, hreports]
    exact iff_of_false nofun (Nat.not_le.mpr hlt)
  cases e with
  | call => exact hstays hclosed rfl
  | check i clock =>
      obtain ⟨hreports, _, _, hstate | ⟨hopened, _⟩⟩ := check_frame s i clock
      · exact hstays (hstate.trans hclosed) hreports
      · rw [hclosed] at hopened
        cases hopened
  | record i r wall =>
      by_cases hmay : s.mayRecord i = true
      · rw [SharedBreaker.act, if_pos hmay]
        cases r with
        | success =>
            have hstate : s.breaker.recordSuccess.state = .closed := by
              simp [CircuitBreaker.recordSuccess, hclosed]
            have hnone : trailing (.success :: s.reports) = 0 := rfl
            simp only [CircuitBreaker.record, hstate, hnone]
            exact iff_of_false nofun (by omega)
        | failure =>
            have htrailing : trailing (.failure :: s.reports) = trailing s.reports + 1 := rfl
            simp only [CircuitBreaker.record, h.recordFailure wall hclosed, htrailing]
            split
            next hlt => exact iff_of_false nofun (by omega)
            next hnot => exact iff_of_true rfl (by omega)
      · have hsame : s.act (.record i r wall) = s := if_neg hmay
        exact hstays (by rw [hsame]; exact hclosed) (by rw [hsame])
  | finish i =>
      obtain ⟨hreports, _, hbreaker⟩ := finish_frame s i
      exact hstays (by rw [hbreaker]; exact hclosed) hreports

theorem act_cfg (s : SharedBreaker) (e : BreakerEvent) : (s.act e).cfg = s.cfg := by
  cases e with
  | call => rfl
  | check i clock => exact (check_frame s i clock).2.1
  | record i r wall =>
      rw [act]
      split <;> rfl
  | finish i => exact (finish_frame s i).2.1

/-! ## Any number of callers -/

/-- The counter is within the maximum, but for the checks that have still to
subtract; nobody who may go next takes one from zero; and no more probes are in
flight than the maximum. -/
structure Within (s : SharedBreaker) (halfOpenMax : Nat) : Prop where
  counter : s.breaker.halfOpenRequests ≤ halfOpenMax + s.beyond
  positive : ∀ e, s.Ok e → s.Subtracts e → 0 < s.breaker.halfOpenRequests
  probes : s.breaker.state = .halfOpen → s.probes ≤ halfOpenMax

theorem Counted.within {s : SharedBreaker} (h : s.Counted) : s.Within s.cfg.halfOpenMax.toNat := by
  have hupper := h.upper
  refine ⟨hupper, fun e hok hsub => ?_, fun hstate => ?_⟩
  · cases e with
    | check i clock =>
        obtain ⟨held, hi⟩ := hsub
        have hpos : 0 < s.beyond := countP_pos_of_getElem? hi rfl
        exact Nat.lt_of_lt_of_le hpos h.lower
    | record i r wall =>
        obtain ⟨hmay, rfl, hstate⟩ := hsub
        exact Nat.lt_of_le_of_lt (Nat.zero_le _) (h.slot (hok hmay hstate) hstate)
    | call => exact hsub.elim
    | finish => exact hsub.elim
  · have hprobes := h.probes hstate
    omega

/-- In a run of any number of callers whose steps meet the condition the counter
and the probes are within bounds. In any run at all a closed breaker opens with
the failure that makes it as many in a row as the threshold. -/
theorem within_of_along_ok (cfg : BreakerConfig) (es : List BreakerEvent) :
    (Along act Ok (start cfg) es → (es.foldl act (start cfg)).Within cfg.halfOpenMax.toNat) ∧
      ((es.foldl act (start cfg)).breaker.state = .closed → ∀ e,
        (((es.foldl act (start cfg)).act e).breaker.state = .opened ↔
          max 1 cfg.failureThreshold.toNat ≤
            trailing ((es.foldl act (start cfg)).act e).reports)) := by
  have hcfg : (es.foldl act (start cfg)).cfg = cfg :=
    foldl_invariant (fun s e h => (act_cfg s e).trans h) rfl es
  constructor
  · intro hok
    have hcounted : (es.foldl act (start cfg)).Counted :=
      hok.invariant (fun _ _ hok h => h.act hok) (counted_start cfg)
    have hwithin := hcounted.within
    rwa [hcfg] at hwithin
  · intro hclosed e
    have htallied : (es.foldl act (start cfg)).Tallied :=
      foldl_invariant (fun _ e h => h.act e) (tallied_start cfg) es
    have hopens := htallied.opens hclosed e
    rwa [hcfg] at hopens

/-- One failure opens it, for thirty seconds, and one probe is let through. -/
def touchy : BreakerConfig :=
  { failureThreshold := 1, openDuration := 30000000000, halfOpenMax := 1 }

def later : Clock := { wall := 60000000000, later := 0 }

/-- A call opens the breaker and the next one is a probe; a third is in the
middle of being refused. -/
def probing : List BreakerEvent :=
  [.call, .check 0 later, .record 0 .failure 1000000000, .call, .check 1 later, .check 1 later,
    .check 1 later, .call, .check 2 later, .check 2 later]

theorem within_probing :
    (probing.foldl act (start touchy)).callers =
        [.admitted none, .admitted (some 1), .beyond .read] ∧
      (probing.foldl act (start touchy)).Within 1 :=
  ⟨by decide, (within_of_along_ok touchy probing).1 (by decide)⟩

/-- Two calls are under way when the first of them opens the breaker. A third
makes it half-open, and before it has counted itself the second one fails. -/
def late : List BreakerEvent :=
  [.call, .call, .check 0 later, .check 1 later, .record 0 .failure 1000000000, .call,
    .check 2 later, .check 2 later, .record 1 .failure 1000000000]

/-- The second call makes the breaker half-open, and the third one is let
through first. It succeeds while the second is in the middle of being refused. -/
def stray : List BreakerEvent :=
  [.call, .check 0 later, .record 0 .failure 1000000000, .call, .check 1 later, .check 1 later,
    .call, .check 2 later, .check 2 later, .check 1 later, .record 2 .success 60000000000,
    .check 1 later]

/-- The probe of the first round takes longer than the breaker is open for, and
a call from before the breaker opened fails meanwhile. -/
def slowProbe : List BreakerEvent :=
  [.call, .call, .check 0 later, .check 1 later, .record 0 .failure 1000000000, .call,
    .check 2 later, .check 2 later, .check 2 later, .record 1 .failure 1000000000, .call,
    .check 3 later, .check 3 later, .check 3 later]

/-- A refused check takes the counter beyond the maximum. A late failure takes
it below zero, and so does a refused check the counter was reset under; and the
probes of two rounds are more than the maximum. -/
theorem not_between :
    touchy.halfOpenMax.toNat = 1 ∧
      (probing.foldl act (start touchy)).breaker.halfOpenRequests = 2 ∧
      (late.foldl act (start touchy)).breaker.halfOpenRequests = 2 ^ 32 - 1 ∧
      (stray.foldl act (start touchy)).breaker.halfOpenRequests = 2 ^ 32 - 1 ∧
      (slowProbe.foldl act (start touchy)).breaker.state = .halfOpen ∧
      (slowProbe.foldl act (start touchy)).probes = 2 := by
  decide

end SharedBreaker

end Pandaria.Agent
