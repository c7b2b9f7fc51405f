import Pandaria.Lib.Run
import Pandaria.Proofs.CallSteps

/-!
# The states of a session

A session is idle, running or in error, and in error it has a reason. The
invariant says what the state and the reason are in each phase of a call.
Between calls they are settled: the session is not running, and it is in error
exactly when a reason is recorded.

Two things break this. `complete_with_deltas` does not ask whether the session
is in error and leaves it idle with the reason still recorded, and an agent
loop that panics leaves it running. The other calls are turned away while the
session is in error.
-/

namespace Pandaria.Agent

open Pandaria.Ai Pandaria.Lib

namespace SessionStateMachine

/-- Not running, and in error exactly when there is a reason. -/
def Settled (m : SessionStateMachine) : Prop :=
  m.state ≠ .running ∧ (m.state = .error ↔ m.errorReason.isSome)

theorem settled_idle (r : RecoveryStateMachine) : Settled ⟨.idle, none, r⟩ :=
  ⟨nofun, nofun, nofun⟩

theorem settled_error (reason : String) (r : RecoveryStateMachine) :
    Settled ⟨.error, some reason, r⟩ :=
  ⟨nofun, fun _ => rfl, fun _ => rfl⟩

/-- A settled machine that is not in error is idle and has no reason. -/
theorem Settled.idle {m : SessionStateMachine} (h : m.Settled) (hne : m.state ≠ .error) :
    m = ⟨.idle, none, m.recovery⟩ := by
  obtain ⟨state, errorReason, recovery⟩ := m
  cases errorReason with
  | some reason => exact absurd (h.2.mpr rfl) hne
  | none =>
      cases state with
      | idle => rfl
      | running => exact absurd rfl h.1
      | error => exact absurd rfl hne

end SessionStateMachine

open SessionStateMachine in
/-- The state and the reason in each phase of a call. -/
def Call.Lawful (c : Call) : Prop :=
  match c.phase with
  | .attempt _ | .prompt _ | .returned _ | .panicked => c.actor.machine.Settled
  | .head | .backoff _ | .compactAndRetry | .threshold _ | .finish _ =>
      c.actor.machine = ⟨.idle, none, c.actor.machine.recovery⟩
  | .looping _ | .deltas _ => c.actor.machine = ⟨.running, none, c.actor.machine.recovery⟩

/-- `complete_with_deltas` is not called in error, and no agent loop panics. -/
def Call.LifecycleOk (c : Call) (e : SessionEvent) : Prop :=
  match e with
  | .op (.completeWithDeltas _) => c.inProgress = true ∨ c.actor.machine.state ≠ .error
  | .op _ => True
  | .advance =>
      match c.phase with
      | .looping l | .deltas l => l.phase ≠ .panicked
      | _ => True

namespace Call

variable {cfg : SessionConfig} {env : Env}

/-! ## One step -/

theorem lawful_leave {c : Call} {a : SessionActor} {result : Except AgentError (List AgentMessage)}
    (h : a.machine.Settled) : (c.leave a result).Lawful := by
  obtain ⟨ha, hp⟩ := c.leave_spec a result
  rw [Lawful]
  rcases hp with hp | ⟨g, hp⟩
  · rw [hp, ha]; exact h
  · rw [hp, ha]; exact h

theorem settled_of_idle {m : SessionStateMachine} (h : m = ⟨.idle, none, m.recovery⟩) :
    m.Settled := by
  rw [h]
  exact SessionStateMachine.settled_idle _

/-- Whatever a loop's result is answered with, the machine is idle without a
reason, or the call leaves in error. -/
theorem lawful_settle {c : Call} {result : Except AgentError (List AgentMessage)} {w : World}
    (h : c.actor.machine.errorReason = none) : (c.stepSettle env result w).Lawful := by
  obtain ⟨next, machine, pushed, a, hs, ham, -, -, hstep⟩ := @stepSettle_spec env result w c
  rw [hstep]
  cases hs with
  | backoff | compactAndRetry | unsettled | absorbed =>
      rw [h] at ham
      simp only [Lawful, ham]
  | abort =>
      refine lawful_leave ?_
      rw [ham]
      exact SessionStateMachine.settled_error _ _
  | cancelled =>
      refine lawful_leave (settled_of_idle ?_)
      rw [ham, h]
  | failed =>
      refine lawful_leave ?_
      rw [ham]
      exact SessionStateMachine.settled_error _ _

/-- A backoff that is over leaves the machine idle. -/
theorem idle_after_backoff {m : SessionStateMachine} (h : m = ⟨.idle, none, m.recovery⟩) :
    m.markSuccess = ⟨.idle, none, m.markSuccess.recovery⟩ := by
  rw [h]
  rfl

theorem lawful_step (cfg : SessionConfig) (env : Env) (c : Call)
    (hok : c.LifecycleOk .advance) (h : c.Lawful) : (c.step cfg env).Lawful := by
  cases step_cases cfg env c with
  | strategy hp _ h' =>
      simp only [Lawful, hp] at h
      rw [h']
      show (c.actor.applyContextStrategy cfg env).machine.Settled
      rw [(SessionActor.applyContextStrategy_spec c.actor).1]
      exact h
  | lastPrompt hp h' | notMet hp h' =>
      simp only [Lawful, hp] at h
      rw [h']
      exact h
  | rejected hp _ h' =>
      simp only [Lawful, hp] at h
      rw [h']
      exact lawful_leave h
  | unprepared hp _ ha h' =>
      simp only [Lawful, hp] at h
      rw [h']
      refine lawful_leave ?_
      rw [ha.machine]
      exact h
  | prepared hp hne ha h' =>
      simp only [Lawful, hp] at h
      rw [h']
      simp only [Lawful]
      rw [ha.machine]
      exact h.idle hne
  | started hp h' =>
      simp only [Lawful, hp] at h
      rw [h']
      show c.actor.machine.enterRunning = ⟨.running, none, c.actor.machine.recovery⟩
      rw [h]
      rfl
  | looped hp _ h' | deltasLooped hp _ h' =>
      simp only [Lawful, hp] at h
      rw [h']
      exact h
  | settled hp _ h' =>
      simp only [Lawful, hp] at h
      rw [h']
      exact lawful_settle (by rw [h])
  | broken hp hl =>
      rcases hp with hp | hp
      · simp only [LifecycleOk, hp] at hok
        exact absurd hl hok
      · simp only [LifecycleOk, hp] at hok
        exact absurd hl hok
  | backoffAborted hp h' =>
      simp only [Lawful, hp] at h
      rw [h']
      exact lawful_leave (settled_of_idle (idle_after_backoff h))
  | backoffOver hp h' =>
      simp only [Lawful, hp] at h
      rw [h']
      exact idle_after_backoff h
  | compactionFailed hp _ h' =>
      simp only [Lawful, hp] at h
      rw [h']
      rw [← (@SessionActor.runAutoCompaction_spec cfg env .overflow true c.actor).1] at h
      exact lawful_leave (settled_of_idle h)
  | compacted hp h' =>
      simp only [Lawful, hp] at h
      rw [h']
      rw [← (@SessionActor.runAutoCompaction_spec cfg env .overflow true c.actor).1] at h
      exact h
  | belowThreshold hp _ h' =>
      simp only [Lawful, hp] at h
      rw [h']
      exact h
  | thresholdFailed hp _ h' =>
      simp only [Lawful, hp] at h
      rw [h']
      rw [← (@SessionActor.runAutoCompaction_spec cfg env .threshold false c.actor).1] at h
      exact lawful_leave (settled_of_idle h)
  | thresholdCompacted hp _ h' =>
      simp only [Lawful, hp] at h
      rw [h']
      rw [← (@SessionActor.runAutoCompaction_spec cfg env .threshold false c.actor).1] at h
      exact h
  | @savePanicked msgs _ h' =>
      obtain ⟨⟨r, hr, -⟩, -, -⟩ := @SessionActor.finishRun_spec cfg env msgs c.actor
      rw [h']
      show (c.actor.finishRun cfg env msgs).machine.Settled
      rw [hr]
      exact SessionStateMachine.settled_idle r
  | @finished msgs a _ ha h' =>
      obtain ⟨⟨r, hr, -⟩, -, -⟩ := @SessionActor.finishRun_spec cfg env msgs c.actor
      rw [h']
      refine lawful_leave ?_
      rw [(SessionActor.persist_spec ha).1, hr]
      exact SessionStateMachine.settled_idle r
  | @deltasEnded l result hp _ h' =>
      obtain ⟨a, pushed, hs, ham, -⟩ := @stepDeltas_spec env result l.locals.world c
      simp only [Lawful, hp] at h
      rw [h', hs]
      show a.machine.Settled
      rw [ham, h]
      exact SessionStateMachine.settled_idle _
  | ended _ h' =>
      rw [h']
      exact h

/-! ## Calls made in error -/

/-- A call that has been turned away, or will be: it has only the checks of a
prompt in front of it. -/
def TurnedAway (m : SessionStateMachine) (c : Call) : Prop :=
  c.actor.machine = m ∧
    match c.phase with
    | .attempt _ | .prompt _ | .returned _ => True
    | _ => False

theorem turnedAway_leave {m : SessionStateMachine} {c : Call} {a : SessionActor} (e : AgentError)
    (h : a.machine = m) : TurnedAway m (c.leave a (.error e)) :=
  ⟨by rw [(c.leave_spec a _).1]; exact h, by rw [leave_error]; trivial⟩

theorem turnedAway_step {m : SessionStateMachine} (hm : m.state = .error) (c : Call)
    (h : TurnedAway m c) : TurnedAway m (c.step cfg env) := by
  obtain ⟨hmach, hphase⟩ := h
  cases step_cases cfg env c with
  | strategy _ _ h' =>
      rw [h']
      exact ⟨(SessionActor.applyContextStrategy_spec c.actor).1.trans hmach, trivial⟩
  | lastPrompt _ h' | notMet _ h' =>
      rw [h']
      exact ⟨hmach, trivial⟩
  | rejected _ _ h' =>
      rw [h']
      exact turnedAway_leave _ hmach
  | unprepared _ hne | prepared _ hne => exact absurd (hmach ▸ hm) hne
  | ended _ h' =>
      rw [h']
      exact ⟨hmach, hphase⟩
  | started hp | looped hp | settled hp | backoffAborted hp | backoffOver hp | compactionFailed hp
  | compacted hp | belowThreshold hp | thresholdFailed hp | thresholdCompacted hp
  | savePanicked hp | finished hp | deltasLooped hp | deltasEnded hp => simp only [hp] at hphase
  | broken hp =>
      rcases hp with hp | hp
      · simp only [hp] at hphase
      · simp only [hp] at hphase

/-- A prompt is turned away at once. -/
theorem step_prompt_error {c : Call} {content : List Content} (hp : c.phase = .prompt content)
    (herr : c.actor.machine.state = .error) :
    ∃ e, (c.step cfg env).phase = .returned (.error e) := by
  simp only [step, stepWith, hp]
  rcases @stepPrompt_spec cfg env content c with ⟨-, hs⟩ | ⟨hne, -⟩
  · rw [hs]; exact ⟨_, leave_error _ _ _⟩
  · exact absurd herr hne

/-- And the head of a goal run goes on with a prompt or returns. -/
theorem step_attempt_error {c : Call} {g : GoalRun} (hp : c.phase = .attempt g)
    (herr : c.actor.machine.state = .error) :
    ∃ n e, ((step cfg env)^[n] c).phase = .returned (.error e) := by
  have hstep : c.step cfg env = stepAttempt cfg env g c := by simp only [step, stepWith, hp]
  rcases @stepAttempt_spec cfg env g c with ⟨-, _, _, hs⟩ | ⟨_, _, hs⟩ | ⟨e, hs⟩
  · refine ⟨2, @step_prompt_error cfg env _ _ (by rw [hstep, hs]) ?_⟩
    rw [hstep, hs]
    exact (SessionActor.applyContextStrategy_spec c.actor).1 ▸ herr
  · exact ⟨2, @step_prompt_error cfg env _ _ (by rw [hstep, hs]) (by rw [hstep, hs]; exact herr)⟩
  · exact ⟨1, e, by rw [Function.iterate_one, hstep, hs]⟩

end Call

/-! ## Whole sessions -/

namespace Call

/-- What holds of a session between two of its calls. -/
structure Lifecycle (cfg : SessionConfig) (env : Env) (c : Call) : Prop where
  state : c.actor.machine.state = .idle ∨ c.actor.machine.state = .error
  reason : c.actor.machine.state = .error ↔ c.actor.machine.errorReason.isSome
  /-- In error, every call is rejected. -/
  rejects : c.actor.machine.state = .error → ∀ o : Op, o.Asks → c.LifecycleOk (.op o) →
    ∃ n e, ((step cfg env)^[n] (o.begin cfg env c.actor)).phase = .returned (.error e)
  /-- And leaves the state as it is, until a reset. -/
  keeps : c.actor.machine.state = .error → ∀ o : Op, o ≠ .reset → c.LifecycleOk (.op o) →
    ∀ n, ((step cfg env)^[n] (o.begin cfg env c.actor)).actor.machine = c.actor.machine

/-- Between calls the machine is settled. -/
theorem Lawful.settled {c : Call} (h : c.Lawful) (hidle : c.inProgress = false) :
    c.actor.machine.Settled := by
  rw [inProgress] at hidle
  rw [Lawful] at h
  split at hidle
  · next r hp => rw [hp] at h; exact h
  · next hp => rw [hp] at h; exact h
  · cases hidle

theorem notError_of_lifecycleOk {c : Call} {text : String} (hidle : c.inProgress = false)
    (hok : c.LifecycleOk (.op (.completeWithDeltas text))) : c.actor.machine.state ≠ .error := by
  rcases hok with hp | hne
  · rw [hidle] at hp; cases hp
  · exact hne

theorem lawful_op (o : Op) {c : Call} (hidle : c.inProgress = false) (hok : c.LifecycleOk (.op o))
    (h : c.Lawful) : (o.begin cfg env c.actor).Lawful := by
  have hs := h.settled hidle
  by_cases hreset : o = .reset
  · rw [hreset]
    exact SessionStateMachine.settled_idle _
  · by_cases hdeltas : ∃ text, o = .completeWithDeltas text
    · obtain ⟨text, rfl⟩ := hdeltas
      have hm := hs.idle (notError_of_lifecycleOk hidle hok)
      show c.actor.machine.enterRunning = _
      rw [hm]
      rfl
    · have hm := @Op.begin_machine cfg env o c.actor hreset fun text ht => hdeltas ⟨text, ht⟩
      rw [Lawful]
      rcases @Op.begin_phase cfg env o c.actor with
        ⟨r, hp⟩ | ⟨content, hp⟩ | ⟨g, hp⟩ | ⟨-, hne, hp⟩ | ⟨text, _, _, ho, -⟩
      · rw [hp, hm]; exact hs
      · rw [hp, hm]; exact hs
      · rw [hp, hm]; exact hs
      · rw [hp, hm]; exact hs.idle hne
      · exact absurd ⟨text, ho⟩ hdeltas

theorem lawful_sessionStep (cfg : SessionConfig) (env : Env) (c : Call) (e : SessionEvent)
    (hok : c.LifecycleOk e) (h : c.Lawful) : (sessionStep cfg env c e).Lawful := by
  cases e with
  | advance => exact lawful_step cfg env c hok h
  | op o =>
      cases hidle : c.inProgress with
      | true => simpa only [sessionStep, hidle, if_true] using h
      | false =>
          simp only [sessionStep, hidle]
          exact lawful_op o hidle hok h

theorem turnedAway_op (o : Op) {c : Call} (hidle : c.inProgress = false)
    (herr : c.actor.machine.state = .error) (hok : c.LifecycleOk (.op o)) (hreset : o ≠ .reset) :
    TurnedAway c.actor.machine (o.begin cfg env c.actor) := by
  have hdeltas : ∀ text, o ≠ .completeWithDeltas text := by
    rintro text rfl
    exact notError_of_lifecycleOk hidle hok herr
  refine ⟨Op.begin_machine o c.actor hreset hdeltas, ?_⟩
  rcases @Op.begin_phase cfg env o c.actor with
    ⟨r, hp⟩ | ⟨content, hp⟩ | ⟨g, hp⟩ | ⟨-, hne, -⟩ | ⟨text, _, _, ho, -⟩
  · rw [hp]; trivial
  · rw [hp]; trivial
  · rw [hp]; trivial
  · exact absurd herr hne
  · exact absurd ho (hdeltas text)

/-- A call made in error that asks for an answer ends with an error. -/
theorem rejected_op (o : Op) {c : Call} (hidle : c.inProgress = false)
    (herr : c.actor.machine.state = .error) (hok : c.LifecycleOk (.op o)) (hasks : o.Asks) :
    ∃ n e, ((step cfg env)^[n] (o.begin cfg env c.actor)).phase = .returned (.error e) := by
  cases o with
  | prompt text =>
      have herr' : (Call.prompt cfg text c.actor).actor.machine.state = .error := by
        rw [Call.prompt_machine]
        exact herr
      rcases @Call.prompt_phase cfg text c.actor with ⟨e, hp⟩ | ⟨content, hp⟩ | ⟨g, hp⟩
      · exact ⟨0, e, hp⟩
      · exact ⟨1, step_prompt_error hp herr'⟩
      · exact step_attempt_error hp herr'
  | promptWithContent content =>
      exact ⟨1, @step_prompt_error cfg env (promptWithContent content c.actor) content rfl herr⟩
  | continue_ =>
      refine ⟨0, .sessionInError (c.actor.machine.errorReason.getD ""), ?_⟩
      show (Call.continue_ c.actor).phase = _
      rw [Call.continue_, if_pos herr]
      rfl
  | completeWithDeltas text => exact absurd herr (notError_of_lifecycleOk hidle hok)
  | compact | pushMessage | steer | followUp | abort | reset | flush | setMaxRetries
  | setStrategy => exact hasks.elim

/-- In a session whose steps all meet the condition, the state is as it should
be whenever no call is in progress. -/
theorem lifecycle_of_run {cfg : SessionConfig} {env : Env} {events : List SessionEvent}
    (hok : Along (sessionStep cfg env) LifecycleOk (newSession cfg) events)
    (hidle : (events.foldl (sessionStep cfg env) (newSession cfg)).inProgress = false) :
    Lifecycle cfg env (events.foldl (sessionStep cfg env) (newSession cfg)) := by
  have hnew : (newSession cfg).Lawful := SessionStateMachine.settled_idle _
  have hs := (hok.invariant (lawful_sessionStep cfg env) hnew).settled hidle
  exact {
    state := by
      by_cases herr : (events.foldl (sessionStep cfg env) (newSession cfg)).actor.machine.state = .error
      · exact .inr herr
      · exact .inl (by rw [hs.idle herr])
    reason := hs.2
    rejects := fun herr o hasks hok => rejected_op o hidle herr hok hasks
    keeps := fun herr o hreset hok n =>
      (iterate_invariant (turnedAway_step herr) (turnedAway_op o hidle herr hok hreset) n).1 }

/-! ## `complete_with_deltas` in error -/

/-- A prompt that fails, followed to its end. -/
def failedPrompt : List SessionEvent :=
  [.op (.prompt "go on"), .advance, .advance, .advance, .advance, .advance]

theorem lifecycle_failedPrompt :
    Lifecycle (plainConfig 0) .quiet
      (failedPrompt.foldl (sessionStep (plainConfig 0) .quiet) (newSession (plainConfig 0))) :=
  lifecycle_of_run ⟨trivial, trivial, trivial, nofun, nofun, nofun, trivial⟩ rfl

/-- And after it a `complete_with_deltas`, which fails as well. -/
def deltasInError : List SessionEvent :=
  failedPrompt ++ [.op (.completeWithDeltas "go on"), .advance, .advance, .advance]

/-- The session is idle again, with the reason of its error still there. -/
theorem idle_with_reason :
    (deltasInError.foldl (sessionStep (plainConfig 0) .quiet)
        (newSession (plainConfig 0))).inProgress = false ∧
      ¬ Lifecycle (plainConfig 0) .quiet
        (deltasInError.foldl (sessionStep (plainConfig 0) .quiet) (newSession (plainConfig 0))) :=
  ⟨rfl, fun h => absurd (h.reason.mpr rfl) (by decide)⟩

end Call

end Pandaria.Agent
