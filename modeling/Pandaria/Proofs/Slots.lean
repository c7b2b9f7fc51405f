import Pandaria.Proofs.Breaker

/-!
# Slots that are never given back

A request that was let through half-open gives its slot back by reporting, and
the report ends the round. So within a round the counter is the number of
requests the round has let through, and of the checks that have still to
subtract; and a check only comes to that with all slots taken. With none in
flight the counter is at zero, and whoever counts itself next is admitted.

There are requests that end without a report, the cancelled ones and those
whose provider returns an error that is not worth a retry. The slot of one that
ends so in its own round is taken for good.
-/

namespace Pandaria.Agent

open Pandaria.Ai
open Pandaria.Lib

namespace Caller

/-- It was let through in this round, and its request is in flight. -/
def isSlot (round : Nat) : Caller → Bool
  | .admitted (some k) => decide (k = round)
  | _ => false

theorem isSlot_of_not_probe {c : Caller} (h : c.isProbe = false) (round : Nat) :
    c.isSlot round = false := by
  cases c with
  | admitted slot =>
      cases slot with
      | none => rfl
      | some k => cases h
  | _ => rfl

theorem isAdmitted_of_isSlot {c : Caller} {round : Nat} (h : c.isSlot round = true) :
    c.isAdmitted = true := by
  cases c with
  | admitted slot => rfl
  | _ => cases h

end Caller

/-- A `fetch_sub` goes one back on the circle. -/
theorem CircuitBreaker.fetchSub_lt {n : Nat} (h : n < 2 ^ 32) :
    fetchSub n < 2 ^ 32 ∧ (fetchSub n + 1) % 2 ^ 32 = n % 2 ^ 32 := by
  rw [fetchSub]
  split
  next hzero =>
    rw [hzero]
    decide
  next hpos =>
    rw [show n - 1 + 1 = n by omega]
    exact ⟨by omega, rfl⟩

namespace SharedBreaker

def live (s : SharedBreaker) : Nat := s.callers.countP (Caller.isSlot s.round)

/-- No request of the round ends without a report, and no round begins while a
refused check has still to subtract. -/
def Kept (s : SharedBreaker) : BreakerEvent → Prop
  | .check i clock => s.turnsHalfOpen i clock → s.NoStray
  | .finish i => s.breaker.state = .halfOpen → s.callers[i]? ≠ some (.admitted (some s.round))
  | .call | .record .. => True

/-- What the counter is in a round. -/
structure Slotted (s : SharedBreaker) : Prop where
  rounds : ∀ c ∈ s.callers, ∀ k, c = .admitted (some k) → k ≤ s.round
  counter : s.breaker.state = .halfOpen →
    s.breaker.halfOpenRequests = (s.live + s.beyond) % 2 ^ 32
  full : s.breaker.state = .halfOpen → 0 < s.beyond → s.cfg.halfOpenMax.toNat ≤ s.live

/-- A caller moves on in `check`, and the counter goes round with what is
counted of the caller. -/
theorem Slotted.move {s : SharedBreaker} (h : s.Slotted) {i n : Nat} {a b : Caller}
    (hi : s.callers[i]? = some a) (ha : a.isProbe = false)
    (hb : ∀ k, b = .admitted (some k) → k = s.round)
    (hn : s.breaker.state = .halfOpen → n < 2 ^ 32 ∧ (n + (if a.isBeyond then 1 else 0)) % 2 ^ 32 =
      (s.breaker.halfOpenRequests + (if b.isBeyond then 1 else 0) +
        (if b.isProbe then 1 else 0)) % 2 ^ 32)
    (hfull : s.breaker.state = .halfOpen → b.isBeyond = true → s.cfg.halfOpenMax.toNat ≤ s.live) :
    Slotted { s with
      breaker := { s.breaker with halfOpenRequests := n }, callers := s.callers.set i b } := by
  have hbeyond := countP_set_add hi b Caller.isBeyond
  have hlive := countP_set_add hi b (Caller.isSlot s.round)
  have hslot : b.isSlot s.round = b.isProbe := by
    cases b with
    | admitted slot =>
        cases slot with
        | none => rfl
        | some k => exact decide_eq_true (hb k rfl)
    | _ => rfl
  rw [Caller.isSlot_of_not_probe ha, hslot] at hlive
  simp only [Bool.false_eq_true, if_false, Nat.add_zero] at hlive
  refine ⟨?_, fun hstate => ?_, fun hstate hpos => ?_⟩
  · refine forall_mem_set h.rounds ?_ i
    intro k hk
    exact Nat.le_of_eq (hb k hk)
  · obtain ⟨hlt, hmod⟩ := hn hstate
    have hcounter := h.counter hstate
    rw [live, beyond] at hcounter
    simp only [live, beyond]
    omega
  · have hle : s.live ≤ (s.callers.set i b).countP (Caller.isSlot s.round) := by
      rw [live]
      omega
    refine Nat.le_trans ?_ hle
    by_cases hbo : b.isBeyond = true
    · exact hfull hstate hbo
    · rw [if_neg hbo] at hbeyond
      simp only [beyond] at hpos
      exact h.full hstate (by rw [beyond]; omega)

/-- A caller moves that is counted nowhere. -/
theorem Slotted.moveFree {s : SharedBreaker} (h : s.Slotted) {i : Nat} {a b : Caller}
    (hi : s.callers[i]? = some a) (ha : a.isProbe = false) (hao : a.isBeyond = false)
    (hb : b.isProbe = false) (hbo : b.isBeyond = false) : (s.move i b).Slotted := by
  refine h.move (n := s.breaker.halfOpenRequests) hi ha ?_ (fun hstate => ?_) ?_
  · intro k hk
    rw [hk] at hb
    cases hb
  · rw [hao, hb, hbo]
    refine ⟨?_, rfl⟩
    rw [h.counter hstate]
    exact Nat.mod_lt _ (by decide)
  · intro _ hbeyond
    rw [hbo] at hbeyond
    cases hbeyond

/-- A round begins with nothing counted. -/
theorem Slotted.turnHalfOpen {s : SharedBreaker} (h : s.Slotted) {i : Nat}
    (hi : s.callers[i]? = some .slow) (hbeyond : s.beyond = 0) :
    Slotted { s with
      breaker := s.breaker.turnHalfOpen
      callers := s.callers.set i (.adding .nothing)
      round := s.round + 1 } := by
  have hrounds : ∀ c ∈ s.callers.set i (.adding .nothing), ∀ k, c = .admitted (some k) →
      k ≤ s.round := forall_mem_set h.rounds (fun _ hk => by cases hk) i
  have hlive : (s.callers.set i (.adding .nothing)).countP (Caller.isSlot (s.round + 1)) = 0 := by
    rw [List.countP_eq_zero]
    intro c hc hslot
    cases c with
    | admitted slot =>
        cases slot with
        | none => cases hslot
        | some k =>
            have hle := hrounds _ hc k rfl
            have heq : k = s.round + 1 := of_decide_eq_true hslot
            omega
    | _ => cases hslot
  have hbeyond' := countP_set_of_not (p := Caller.isBeyond) hi rfl (b := .adding .nothing) rfl
  rw [beyond] at hbeyond
  refine ⟨fun c hc k hk => Nat.le_succ_of_le (hrounds c hc k hk), fun _ => ?_, fun _ hpos => ?_⟩
  · simp only [live, beyond, hlive, hbeyond', hbeyond]
    rfl
  · simp only [beyond, hbeyond', hbeyond] at hpos
    cases hpos

theorem Slotted.check {s : SharedBreaker} (h : s.Slotted) {i : Nat} {clock : Clock}
    (hkept : s.Kept (.check i clock)) : (s.check i clock).Slotted := by
  have hchecks := s.check_checks i clock
  generalize s.check i clock = t at hchecks ⊢
  cases hchecks with
  | stays => exact h
  | moves hi ha hao hb hbo => exact h.moveFree hi ha hao hb hbo
  | turns hturns =>
      have hstray := hkept hturns
      obtain ⟨hi, hfree, -, -⟩ := hturns
      exact h.turnHalfOpen hi (noStray_beyond hfree hstray)
  | adds hi =>
      have hlt : CircuitBreaker.fetchAdd s.breaker.halfOpenRequests < 2 ^ 32 :=
        Nat.mod_lt _ (by decide)
      have hmod : CircuitBreaker.fetchAdd s.breaker.halfOpenRequests % 2 ^ 32 =
          (s.breaker.halfOpenRequests + 1) % 2 ^ 32 := Nat.mod_mod _ _
      by_cases hmax : s.cfg.halfOpenMax.toNat ≤ s.breaker.halfOpenRequests
      · simp only [if_pos hmax]
        refine h.move hi rfl (fun k hk => ?_) (fun _ => ⟨hlt, hmod⟩) fun hstate _ => ?_
        · cases hk
        · -- The first check to be refused has found all slots taken.
          by_cases hpos : 0 < s.beyond
          · exact h.full hstate hpos
          · have hcounter := h.counter hstate
            rw [show s.beyond = 0 by omega, Nat.add_zero] at hcounter
            have hle := Nat.mod_le s.live (2 ^ 32)
            omega
      · simp only [if_neg hmax]
        refine h.move hi rfl ?_ (fun _ => ⟨hlt, hmod⟩)
          fun _ hbeyond => absurd hbeyond Bool.false_ne_true
        intro k hk
        injection hk with hk
        injection hk with hk
        exact hk.symm
  | subtracts hi =>
      refine h.move hi rfl (fun k hk => ?_) (fun hstate => ?_)
        fun _ hbeyond => absurd hbeyond Bool.false_ne_true
      · cases hk
      · have hcounter := h.counter hstate
        have hlt : s.breaker.halfOpenRequests < 2 ^ 32 := by
          rw [hcounter]
          exact Nat.mod_lt _ (by decide)
        exact CircuitBreaker.fetchSub_lt hlt

theorem Slotted.act {s : SharedBreaker} (h : s.Slotted) {e : BreakerEvent} (hkept : s.Kept e) :
    (s.act e).Slotted := by
  cases e with
  | call =>
      have hbeyond : (s.act .call).beyond = s.beyond := countP_push_of_not s.callers rfl
      have hlive : (s.act .call).live = s.live := countP_push_of_not s.callers rfl
      have hrounds := forall_mem_push h.rounds (b := .waiting) fun _ hk => by cases hk
      refine ⟨hrounds, fun hstate => ?_, fun hstate hpos => ?_⟩
      · rw [hbeyond, hlive]
        exact h.counter hstate
      · rw [hlive]
        rw [hbeyond] at hpos
        exact h.full hstate hpos
  | check i clock => exact h.check hkept
  | record i r wall =>
      rw [SharedBreaker.act]
      split
      · have hends := CircuitBreaker.record_state s.cfg wall s.breaker r
        exact ⟨h.rounds, fun hstate => absurd hstate hends, fun hstate => absurd hstate hends⟩
      · exact h
  | finish i =>
      rw [SharedBreaker.act]
      split
      next slot hi =>
        have hbeyond := countP_set_of_not (p := Caller.isBeyond) hi rfl (b := .returned) rfl
        have hlive : s.breaker.state = .halfOpen →
            (s.callers.set i .returned).countP (Caller.isSlot s.round) = s.live := by
          intro hstate
          refine countP_set_of_not hi ?_ rfl
          cases slot with
          | none => rfl
          | some k =>
              refine decide_eq_false ?_
              rintro rfl
              exact hkept hstate hi
        have hrounds := forall_mem_set h.rounds (b := .returned) (fun _ hk => by cases hk) i
        refine ⟨hrounds, fun hstate => ?_, fun hstate hpos => ?_⟩
        · simp only [live, beyond, SharedBreaker.move, hbeyond]
          rw [hlive hstate]
          exact h.counter hstate
        · simp only [beyond, SharedBreaker.move, hbeyond] at hpos
          simp only [live, SharedBreaker.move]
          rw [hlive hstate]
          exact h.full hstate hpos
      next => exact h

theorem slotted_start (cfg : BreakerConfig) : (start cfg).Slotted :=
  ⟨nofun, nofun, nofun⟩

/-! ## The next check -/

/-- Half-open, and with no request in flight that it has admitted, the breaker
admits the next caller to count itself, and with the lock free for it whoever
comes to ask. -/
structure AdmitsNext (s : SharedBreaker) : Prop where
  adding : ∀ i held clock, s.callers[i]? = some (.adding held) →
    (s.check i clock).callers[i]? = some (.admitted (some s.round))
  slow : s.locked = false → ∀ i clock clock', s.callers[i]? = some .slow →
    ((s.check i clock).check i clock').callers[i]? = some (.admitted (some s.round))
  waiting : s.writeLocked = false → ∀ i clock clock', s.callers[i]? = some .waiting →
    ((s.check i clock).check i clock').callers[i]? = some (.admitted (some s.round))

/-- No slot is leaked. -/
def SlotsFree (s : SharedBreaker) : Prop :=
  s.breaker.state = .halfOpen → (∀ c ∈ s.callers, c.isAdmitted = false) → s.AdmitsNext

/-- With a slot free the caller that counts itself is admitted. -/
theorem check_adding {s : SharedBreaker} {i : Nat} {held : Held} (clock : Clock)
    (hi : s.callers[i]? = some (.adding held))
    (hfree : s.breaker.halfOpenRequests < s.cfg.halfOpenMax.toNat) :
    (s.check i clock).callers[i]? = some (.admitted (some s.round)) := by
  have hlt : i < s.callers.length := (List.getElem?_eq_some_iff.mp hi).1
  rw [check, hi]
  simp only [if_neg (Nat.not_le.mpr hfree)]
  exact List.getElem?_set_self hlt

theorem admitsNext_of_free {s : SharedBreaker} (hstate : s.breaker.state = .halfOpen)
    (hfree : s.breaker.halfOpenRequests < s.cfg.halfOpenMax.toNat) : s.AdmitsNext := by
  have hmoved : ∀ i c held clock', s.callers[i]? = some c →
      ((s.move i (.adding held)).check i clock').callers[i]? =
        some (.admitted (some s.round)) := by
    intro i c held clock' hi
    have hlt : i < s.callers.length := (List.getElem?_eq_some_iff.mp hi).1
    exact check_adding (s := s.move i (.adding held)) clock' (List.getElem?_set_self hlt) hfree
  refine ⟨fun i held clock hi => check_adding clock hi hfree, ?_, ?_⟩
  · intro hlock i clock clock' hi
    have hstep : s.check i clock = s.move i (.adding .write) := by
      simp only [check, hi, hlock, hstate, Bool.false_eq_true, if_false]
    rw [hstep]
    exact hmoved i _ _ clock' hi
  · intro hlock i clock clock' hi
    have hstep : s.check i clock = s.move i (.adding .read) := by
      simp only [check, hi, hlock, hstate, Bool.false_eq_true, if_false]
    rw [hstep]
    exact hmoved i _ _ clock' hi

theorem Slotted.slotsFree {s : SharedBreaker} (h : s.Slotted)
    (hmax : 0 < s.cfg.halfOpenMax.toNat) : s.SlotsFree := by
  intro hstate hidle
  have hlive : s.live = 0 := by
    rw [live, List.countP_eq_zero]
    intro c hc hslot
    have hadmitted := Caller.isAdmitted_of_isSlot hslot
    rw [hidle c hc] at hadmitted
    cases hadmitted
  have hbeyond : s.beyond = 0 := by
    by_cases hpos : 0 < s.beyond
    · have hfull := h.full hstate hpos
      omega
    · omega
  have hcounter := h.counter hstate
  rw [hlive, hbeyond] at hcounter
  refine admitsNext_of_free hstate ?_
  rw [hcounter]
  exact hmax

end SharedBreaker

/-! ## Requests -/

namespace Attempt

/-- Nothing is reported of it. -/
def unreported : Attempt → Bool
  | .cancelled => true
  | .failed e => !e.isRetryable
  | .replied _ => false

theorem unreported_of_reports {a : Attempt} {left : Nat} (h : a.reports left = []) :
    a.unreported = true := by
  cases a with
  | cancelled => rfl
  | failed e =>
      simp only [reports] at h
      split at h
      · cases h
      next hr => rw [unreported, Bool.eq_false_iff.mpr hr, Bool.not_false]
  | replied r =>
      simp only [reports] at h
      split at h
      · split at h <;> cases h
      · cases h

end Attempt

namespace Requests

/-- No request of the round comes to an end that is not reported, and no round
begins while a refused check has still to subtract. -/
def Ok (s : Requests) : RequestEvent → Prop
  | .check i clock => s.shared.turnsHalfOpen i clock → s.shared.NoStray
  | .attempt i a =>
      a.unreported = true → s.shared.breaker.state = .halfOpen →
        s.shared.callers[i]? ≠ some (.admitted (some s.shared.round))
  | .call _ | .report .. => True

instance (s : Requests) (e : RequestEvent) : Decidable (s.Ok e) :=
  match e with
  | .check _ _ => inferInstanceAs (Decidable (_ → s.shared.NoStray))
  | .attempt _ _ => inferInstanceAs (Decidable (_ = true → _ = _ → _ ≠ some _))
  | .call _ => inferInstanceAs (Decidable True)
  | .report _ _ => inferInstanceAs (Decidable True)

theorem slotted_act {s : Requests} (h : s.shared.Slotted) {e : RequestEvent} (hok : s.Ok e) :
    (s.act e).shared.Slotted := by
  cases e with
  | call maxRetries => exact h.act (e := .call) trivial
  | check i clock => exact h.act (e := .check i clock) hok
  | attempt i a =>
      rw [act]
      split
      next slot left hi hp =>
        split
        next hnone => exact h.act (e := .finish i) (hok (Attempt.unreported_of_reports hnone))
        next => exact h
      next => exact h
  | report i wall =>
      rw [act]
      split
      next r rest next hp =>
        split
        next hmay =>
          have hrecord : (s.shared.act (.record i r wall)).Slotted := h.act trivial
          -- Once it is reported the round is over, and the request may end.
          have hends : (s.shared.act (.record i r wall)).breaker.state ≠ .halfOpen := by
            rw [SharedBreaker.act, if_pos hmay]
            exact CircuitBreaker.record_state s.shared.cfg wall s.shared.breaker r
          split
          · exact hrecord
          · exact hrecord
          · exact hrecord.act (e := .finish i) fun hstate => absurd hstate hends
        next => exact h
      next => exact h

theorem act_cfg (s : Requests) (e : RequestEvent) : (s.act e).shared.cfg = s.shared.cfg := by
  cases e with
  | call | check => exact SharedBreaker.act_cfg s.shared _
  | attempt i a =>
      rw [act]
      split
      · split
        · exact SharedBreaker.act_cfg s.shared _
        · rfl
      · rfl
  | report i wall =>
      rw [act]
      split
      · split
        · split
          · exact SharedBreaker.act_cfg s.shared _
          · exact SharedBreaker.act_cfg s.shared _
          · exact (SharedBreaker.act_cfg _ _).trans (SharedBreaker.act_cfg s.shared _)
        · rfl
      · rfl

/-- In a run of any number of requests none of which ends unreported in the
round it was let through in, a half-open breaker with none in flight admits the
next. -/
theorem slotsFree_of_along_ok (cfg : BreakerConfig) (hmax : 0 < cfg.halfOpenMax.toNat)
    (es : List RequestEvent) (hok : Along act Ok (start cfg) es) :
    (es.foldl act (start cfg)).shared.SlotsFree := by
  have hstep : ∀ (s : Requests) (e : RequestEvent), s.Ok e →
      (s.shared.Slotted ∧ s.shared.cfg = cfg) →
      ((s.act e).shared.Slotted ∧ (s.act e).shared.cfg = cfg) :=
    fun s e hok h => ⟨slotted_act h.1 hok, (act_cfg s e).trans h.2⟩
  have hrun := hok.invariant hstep ⟨SharedBreaker.slotted_start cfg, rfl⟩
  refine hrun.1.slotsFree ?_
  rw [hrun.2]
  exact hmax

open SharedBreaker (touchy later)

/-- A request opens the breaker. -/
def opening : List RequestEvent :=
  [.call 0, .check 0 later, .attempt 0 (.failed (.overloaded "529")), .report 0 1000000000]

/-- The next request makes it half-open, and before it has counted itself
another one asks. -/
theorem slotsFree_opening :
    let es := opening ++ [.call 0, .check 1 later, .check 1 later, .call 0, .check 2 later]
    (es.foldl act (start touchy)).shared.callers =
        [.returned, .adding .nothing, .adding .read] ∧
      (es.foldl act (start touchy)).shared.SlotsFree :=
  ⟨by decide, slotsFree_of_along_ok touchy (by decide) _ (by decide)⟩

/-- The next request is let through half-open, and this is what becomes of it.
Then another one asks. -/
def leaking (a : Attempt) : List RequestEvent :=
  opening ++ [.call 0, .check 1 later, .check 1 later, .check 1 later, .attempt 1 a, .call 0,
    .check 2 later]

/-- A check that is being refused has still to subtract when the breaker opens
and turns half-open again. -/
def straying : List RequestEvent :=
  opening ++ [.call 0, .check 1 later, .check 1 later, .call 0, .check 2 later, .check 2 later,
    .check 1 later, .attempt 2 (.failed (.overloaded "529")), .report 2 1000000000, .call 0,
    .check 3 later, .check 3 later, .check 1 later]

/-- A probe that is cancelled or is refused by the provider takes its slot with
it, and a check that subtracts a round too late takes all of them. -/
theorem not_slotsFree :
    ¬ ((leaking .cancelled).foldl act (start touchy)).shared.SlotsFree ∧
      ¬ ((leaking (.failed (.authError "401"))).foldl act (start touchy)).shared.SlotsFree ∧
      ¬ (straying.foldl act (start touchy)).shared.SlotsFree := by
  refine ⟨fun h => ?_, fun h => ?_, fun h => ?_⟩
  · have hnext := (h (by decide) (by decide)).adding 2 .read later (by decide)
    exact absurd hnext (by decide)
  · have hnext := (h (by decide) (by decide)).adding 2 .read later (by decide)
    exact absurd hnext (by decide)
  · have hnext := (h (by decide) (by decide)).adding 3 .nothing later (by decide)
    exact absurd hnext (by decide)

end Requests

end Pandaria.Agent
