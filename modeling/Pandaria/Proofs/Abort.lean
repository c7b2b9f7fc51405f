import Pandaria.Lib.Run
import Pandaria.Proofs.CallSteps
import Pandaria.Proofs.LoopSteps
import Pandaria.Tenant.Session

/-!
# What an abort stops

An abort cancels the token in force, and an agent loop looks at its token
before each request. So after an abort it starts no further one, and the
record of the call has no request behind an abort, as long as the token stays
cancelled.

It does not stay cancelled over the head of `run_with_messages`, which puts a
new one in its place, and a compaction does not look at it before it asks the
provider for its summaries. These are the two ways a request can follow an
abort. And a loop that was aborted may still fail in another way, with the
provider's error about the request that was dropped, and then the session goes
into error.
-/

namespace Pandaria.Agent

open Pandaria.Ai Pandaria.Lib

/-! ## Worlds in which aborts are heeded -/

namespace World

/-- There has been no abort since the record was started. -/
def NoAbort (w : World) : Prop := ∀ o ∈ w.trace, o.isAbort = false

/-- No provider call stands behind an abort. -/
def QuietAfterAbort (w : World) : Prop :=
  w.trace.Pairwise fun x y => x.isAbort = true → y.isStreamCall = false

instance (w : World) : Decidable w.NoAbort :=
  inferInstanceAs (Decidable (∀ o ∈ w.trace, o.isAbort = false))

instance (w : World) : Decidable w.QuietAfterAbort :=
  inferInstanceAs (Decidable
    (w.trace.Pairwise fun x y => x.isAbort = true → y.isStreamCall = false))

/-- And the token of an abort is still in force. -/
structure Heeds (w : World) : Prop where
  cancelled : ∀ o ∈ w.trace, o.isAbort = true → w.cancelled = true
  quiet : w.QuietAfterAbort

/-- What is neither an abort nor a provider call can always be recorded. -/
theorem Heeds.observe {w : World} {o : Obs} (h : w.Heeds) (ha : o.isAbort = false)
    (hs : o.isStreamCall = true → w.NoAbort) : (w.observe o).Heeds := by
  constructor
  · intro x hx hxa
    rcases List.mem_append.mp hx with hx | hx
    · exact h.cancelled x hx hxa
    · rw [List.mem_singleton.mp hx, ha] at hxa
      cases hxa
  · show List.Pairwise _ (w.trace ++ [o])
    rw [List.pairwise_append]
    refine ⟨h.quiet, List.pairwise_singleton _ _, fun x hx y hy hxa => ?_⟩
    rw [List.mem_singleton.mp hy]
    cases hstream : o.isStreamCall with
    | false => rfl
    | true =>
        rw [hs hstream x hx] at hxa
        cases hxa

theorem Heeds.emit {w : World} (h : w.Heeds) (e : AgentEvent) : (w.emit e).Heeds := by
  have ho : (Obs.event e).isStreamCall = true → w.NoAbort := nofun
  exact h.observe rfl ho

theorem Heeds.tick {env : Env} {w : World} (h : w.Heeds) : (w.tick env).Heeds := by
  cases ha : env.abort w.now with
  | false =>
      constructor
      · intro o ho hoa
        simp only [World.tick, ha, Bool.false_eq_true, if_false] at ho
        rw [tick_cancelled, h.cancelled o ho hoa]
        rfl
      · simp only [QuietAfterAbort, World.tick, ha, Bool.false_eq_true, if_false]
        exact h.quiet
  | true =>
      constructor
      · intro o _ _
        rw [tick_cancelled, ha, Bool.or_true]
      · simp only [QuietAfterAbort, World.tick, ha, if_true]
        rw [List.pairwise_append]
        refine ⟨h.quiet, List.pairwise_singleton _ _, fun x _ y hy _ => ?_⟩
        rw [List.mem_singleton.mp hy]
        rfl

/-- The queues and the ids have nothing to do with it. -/
theorem Heeds.congr {w w' : World} (h : w.Heeds) (ht : w'.trace = w.trace)
    (hc : w'.cancelled = w.cancelled) : w'.Heeds := by
  constructor
  · intro o ho hoa
    rw [ht] at ho
    rw [hc]
    exact h.cancelled o ho hoa
  · rw [QuietAfterAbort, ht]
    exact h.quiet

theorem NoAbort.observe {w : World} {o : Obs} (h : w.NoAbort) (ho : o.isAbort = false) :
    (w.observe o).NoAbort := by
  intro x hx
  rcases List.mem_append.mp hx with hx | hx
  · exact h x hx
  · rw [List.mem_singleton.mp hx]
    exact ho

end World

open World

variable {cfg : SessionConfig} {env : Env}

namespace SummaryTask

end SummaryTask

namespace Call

end Call

end Pandaria.Agent

/-!
## What an interrupt reaches

The manager's token is the one the actor had when the session was made, or
when it was last reset. A loop runs on a token that was made at its start, so
the two are never the same while a loop is running, and an interrupt cancels a
token nobody listens to any more. A reset puts the two together again, but over
a token it has just cancelled.
-/

namespace Pandaria.Tenant

open Pandaria.Lib
open Pandaria.Agent

namespace ActiveSession

variable {cfg : SessionConfig} {env : Env}

/-- While a loop is running, its token is not the manager's, and not cancelled. -/
structure Apart (s : ActiveSession) : Prop where
  made : s.abortToken < s.made ∧ s.current < s.made
  ne : ∀ l, s.call.phase = .looping l → s.abortToken ≠ s.current
  alive : ∀ l, s.call.phase = .looping l → l.locals.world.cancelled = false

/-- Where no loop is running there is nothing to show of one. -/
theorem Apart.of_no_loop {s : ActiveSession} (hmade : s.abortToken < s.made ∧ s.current < s.made)
    (hnone : ∀ l, s.call.phase ≠ .looping l) : s.Apart :=
  ⟨hmade, fun l hl => absurd hl (hnone l), fun l hl => absurd hl (hnone l)⟩

theorem leave_ne_looping (c : Call) (a : SessionActor)
    (result : Except AgentError (List AgentMessage)) (l : AgentLoop) :
    (c.leave a result).phase ≠ .looping l := by
  intro h
  rcases (c.leave_spec a result).2 with h' | ⟨g, h'⟩
  · rw [h'] at h
    cases h
  · rw [h'] at h
    cases h

/-- A loop that is running after a step has just been started, or was running
before. -/
theorem looping_step {c : Call} {l : AgentLoop}
    (h : (c.step cfg env).phase = .looping l) :
    (c.phase = .head ∧ ∃ messages, l = .start env messages c.actor.enterRun.world) ∨
      ∃ l₀, c.phase = .looping l₀ ∧ l = l₀.step (c.actor.loopConfig cfg) env := by
  cases Call.step_cases cfg env c with
  | @started messages hp h' =>
      rw [h'] at h
      injection h with h
      exact .inl ⟨hp, messages, h.symm⟩
  | @looped l₀ hp _ h' =>
      rw [h'] at h
      injection h with h
      exact .inr ⟨l₀, hp, h.symm⟩
  | strategy _ _ h' | lastPrompt _ h' | notMet _ h' | prepared _ _ _ h' | broken _ _ h'
  | backoffOver _ h' | compacted _ h' | belowThreshold _ _ h' | thresholdCompacted _ _ h'
  | savePanicked _ h' | deltasLooped _ _ h' =>
      rw [h'] at h
      cases h
  | rejected _ _ h' | unprepared _ _ _ h' | backoffAborted _ h' | compactionFailed _ _ h'
  | thresholdFailed _ _ h' | finished _ _ h' =>
      rw [h'] at h
      exact absurd h (leave_ne_looping _ _ _ l)
  | @settled _ result _ _ h' =>
      obtain ⟨next, _, _, a, _, _, _, _, hs⟩ := @Call.stepSettle_spec env result _ c
      rw [h', hs] at h
      cases next with
      | fail e => exact absurd h (leave_ne_looping _ _ _ l)
      | _ => cases h
  | @deltasEnded _ result _ _ h' =>
      obtain ⟨a, pushed, hs, _⟩ := @Call.stepDeltas_spec env result _ c
      rw [h', hs] at h
      cases h
  | ended hp h' =>
      rw [h'] at h
      rcases hp with ⟨result, hp⟩ | hp
      · rw [hp] at h
        cases h
      · rw [hp] at h
        cases h

theorem Apart.advance {s : ActiveSession} (hno : ∀ n, env.abort n = false) (h : s.Apart) :
    (s.advance cfg env).Apart := by
  have hmade := h.made
  rw [ActiveSession.advance]
  split
  next hhead =>
    refine ⟨⟨?_, Nat.lt_succ_self _⟩, fun _ _ => ?_, fun l hl => ?_⟩
    · show s.abortToken < s.made + 1
      omega
    · show s.abortToken ≠ s.made
      omega
    · rcases looping_step hl with ⟨_, messages, rfl⟩ | ⟨l₀, hp, _⟩
      · exact AgentLoop.not_cancelled_start hno messages rfl
      · rw [hhead] at hp
        cases hp
  next hne =>
    refine ⟨hmade, fun l hl => ?_, fun l hl => ?_⟩
    · rcases looping_step hl with ⟨hp, _⟩ | ⟨l₀, hp, _⟩
      · exact absurd hp hne
      · exact h.ne l₀ hp
    · rcases looping_step hl with ⟨hp, _⟩ | ⟨l₀, hp, rfl⟩
      · exact absurd hp hne
      · exact AgentLoop.not_cancelled_step hno (h.alive l₀ hp)

theorem phase_cancel (c : Call) (l : AgentLoop) (h : c.cancel.phase = .looping l) :
    ∃ l₀, c.phase = .looping l₀ := by
  rw [Call.cancel] at h
  split at h
  next l₀ hp => exact ⟨l₀, hp⟩
  next => cases h
  next => exact ⟨l, h⟩

theorem Apart.step {s : ActiveSession} (h : s.Apart) (e : ManagerEvent) :
    (s.step cfg env e).Apart := by
  cases e with
  | sendMessage content =>
      rw [ActiveSession.step]
      split
      · exact h
      · refine .of_no_loop h.made fun l hl => ?_
        cases hl
  | interrupt =>
      rw [ActiveSession.step]
      split
      next heq =>
        -- No loop is running.
        refine .of_no_loop h.made fun l hl => ?_
        obtain ⟨l₀, hp⟩ := phase_cancel s.call l hl
        exact h.ne l₀ hp heq
      next => exact ⟨h.made, h.ne, h.alive⟩
  | resetSession =>
      rw [ActiveSession.step]
      split
      · exact h
      · refine .of_no_loop ⟨h.made.2, h.made.2⟩ fun l hl => ?_
        cases hl
  | advance => exact h.advance fun _ => rfl

theorem apart_createSession (cfg : SessionConfig) : (createSession cfg).Apart := by
  refine .of_no_loop ⟨Nat.one_pos, Nat.one_pos⟩ fun l hl => ?_
  cases hl

/-- An interrupt does nothing to a loop that is running. -/
theorem Apart.interrupt {s : ActiveSession} (h : s.Apart) {l : AgentLoop}
    (hl : s.call.phase = .looping l) :
    (s.step cfg env .interrupt).call = s.call ∧
      (s.step cfg env .interrupt).isCancelled s.current = false := by
  have hworld : s.call.world.cancelled = false := by
    rw [Call.world, hl]
    exact h.alive l hl
  rw [ActiveSession.step, if_neg (h.ne l hl)]
  refine ⟨rfl, ?_⟩
  rw [isCancelled, if_pos rfl]
  exact hworld

/-- A reset cancels the token it hands to the manager. -/
theorem Apart.resetSession {s : ActiveSession} (h : s.Apart) (hidle : s.call.inProgress = false) :
    (s.step cfg env .resetSession).abortToken = s.current ∧ s.current < s.made ∧
      (s.step cfg env .resetSession).isCancelled
        (s.step cfg env .resetSession).abortToken = true := by
  rw [ActiveSession.step, hidle]
  refine ⟨rfl, h.made.2, ?_⟩
  rw [isCancelled]
  exact if_pos rfl

/-- A session over any calls. -/
def run (cfg : SessionConfig) (env : Env) (es : List ManagerEvent) : ActiveSession :=
  es.foldl (step cfg env) (createSession cfg)

theorem apart_run (cfg : SessionConfig) (env : Env) (es : List ManagerEvent) :
    (run cfg env es).Apart :=
  foldl_invariant (fun _ e h => h.step e) (apart_createSession cfg) es

/-- Over any calls, an interrupt leaves a running loop as it is, on a token that
is not cancelled; and after a reset the manager's token is one that existed
before and is cancelled. -/
theorem interrupt_unheard (cfg : SessionConfig) (env : Env) (es : List ManagerEvent) :
    (∀ l, (run cfg env es).call.phase = .looping l →
      ((run cfg env es).step cfg env .interrupt).call = (run cfg env es).call ∧
        ((run cfg env es).step cfg env .interrupt).isCancelled (run cfg env es).current =
          false) ∧
      ((run cfg env es).call.inProgress = false →
        ((run cfg env es).step cfg env .resetSession).abortToken = (run cfg env es).current ∧
          (run cfg env es).current < (run cfg env es).made ∧
          ((run cfg env es).step cfg env .resetSession).isCancelled
            ((run cfg env es).step cfg env .resetSession).abortToken = true) :=
  ⟨fun _ hl => (apart_run cfg env es).interrupt hl,
    fun hidle => (apart_run cfg env es).resetSession hidle⟩

/-- A message is sent and its loop is running: an interrupt cancels the first
token, and the loop has the second. And the first call of a session is a
reset: the token it gives the manager is cancelled. -/
theorem not_heard :
    let s := run (plainConfig 0) Env.quiet [.sendMessage [], .advance, .advance]
    let t := run (plainConfig 0) Env.quiet [.resetSession]
    (∃ l, s.call.phase = .looping l) ∧
      ¬ (s.step (plainConfig 0) Env.quiet .interrupt).isCancelled s.current = true ∧
      ¬ t.isCancelled t.abortToken = false :=
  ⟨⟨_, rfl⟩, by decide, by decide⟩

end ActiveSession

end Pandaria.Tenant
