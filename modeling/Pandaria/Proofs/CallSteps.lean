import Pandaria.Proofs.SessionSteps

/-!
# What the parts of a step of a call do

A lemma for each function `Call.step` is put together from: which session it
goes on with, and in which phase. A call that leaves `run_with_messages` does
so through `leave`, and is then over or at the next attempt of its goal.
-/

namespace Pandaria.Agent

open Pandaria.Ai

variable {cfg : SessionConfig} {env : Env}

/-! ## Before a run -/

namespace SessionActor

/-- A context strategy touches the history and, for its summary, the world. -/
theorem applyContextStrategy_spec (a : SessionActor) :
    (a.applyContextStrategy cfg env).machine = a.machine ∧
      Activity env briefObs a.world (a.applyContextStrategy cfg env).world := by
  rw [applyContextStrategy]
  split
  · exact ⟨rfl, .refl⟩
  · exact ⟨rfl, .refl⟩
  · simp only []
    split
    · exact ⟨rfl, compact_activity _ _ _⟩
    · exact ⟨rfl, .refl⟩

end SessionActor

namespace Call

theorem restore_spec (a : SessionActor) :
    (restore env a).machine = a.machine ∧ Activity env turnObs a.world (restore env a).world := by
  rw [restore]
  simp only []
  split
  · exact ⟨rfl, Activity.refl.tick⟩
  · exact ⟨rfl, .refl⟩

/-- A run leaves for its caller or for the next attempt at its goal. -/
theorem leave_spec (c : Call) (a : SessionActor)
    (result : Except AgentError (List AgentMessage)) :
    (c.leave a result).actor = a ∧
      ((c.leave a result).phase = .returned result ∨
        ∃ g, (c.leave a result).phase = .attempt g) := by
  unfold leave
  split
  · exact ⟨rfl, .inl rfl⟩
  · exact ⟨rfl, .inl rfl⟩
  · simp only []
    split
    · exact ⟨rfl, .inl rfl⟩
    · exact ⟨rfl, .inr ⟨_, rfl⟩⟩

theorem world_of_phase {c : Call} (hl : ∀ l, c.phase ≠ .looping l) (hd : ∀ l, c.phase ≠ .deltas l) :
    c.world = c.actor.world := by
  rw [world]
  split
  · next l h => exact absurd h (hl l)
  · next l h => exact absurd h (hd l)
  · rfl

theorem leave_world (c : Call) (a : SessionActor) (result : Except AgentError (List AgentMessage)) :
    (c.leave a result).world = a.world := by
  obtain ⟨ha, hp⟩ := c.leave_spec a result
  rw [world_of_phase, ha]
  · rintro l hl
    rw [hl] at hp
    rcases hp with hp | ⟨g, hp⟩ <;> cases hp
  · rintro l hl
    rw [hl] at hp
    rcases hp with hp | ⟨g, hp⟩ <;> cases hp

theorem leave_error (c : Call) (a : SessionActor) (e : AgentError) :
    (c.leave a (.error e)).phase = .returned (.error e) := by
  unfold leave
  split
  · rfl
  · next h => injection h with h; rw [h]
  · next h => cases h

theorem stepAttempt_spec (g : GoalRun) (c : Call) :
    (g.attempt < g.goal.maxAttempts ∧ ∃ content goal, stepAttempt cfg env g c =
        { c with actor := c.actor.applyContextStrategy cfg env
                 phase := .prompt content, goal := goal }) ∨
      (∃ content goal, stepAttempt cfg env g c = { c with phase := .prompt content, goal := goal }) ∨
      ∃ e, stepAttempt cfg env g c = { c with phase := .returned (.error e) } := by
  unfold stepAttempt
  split
  · next hlt => exact .inl ⟨hlt, _, _, rfl⟩
  · split
    · exact .inr (.inr ⟨_, rfl⟩)
    · exact .inr (.inl ⟨_, _, rfl⟩)

/-- What a prompt does to the session before its run starts. A skill puts its
text into the steer queue, which is why this is not an activity. -/
structure Prepared (env : Env) (a a' : SessionActor) : Prop where
  machine : a'.machine = a.machine
  world : ∃ w q, Activity env loopObs a.world w ∧ a'.world = { w with steerQueue := q }

/-- A prompt is rejected, fails over its skill, or gets as far as its run. -/
theorem stepPrompt_spec (content : List Content) (c : Call) :
    (c.actor.machine.state = .error ∧ stepPrompt cfg env content c =
        c.leave c.actor (.error (.sessionInError (c.actor.machine.errorReason.getD "")))) ∨
      (c.actor.machine.state ≠ .error ∧ ∃ a, Prepared env c.actor a ∧
        ((∃ e, stepPrompt cfg env content c = c.leave a (.error e)) ∨
          stepPrompt cfg env content c = { c with actor := a, phase := .head })) := by
  obtain ⟨hm, hturn⟩ := @restore_spec env c.actor
  have hw := hturn.without_le
  unfold stepPrompt
  simp only []
  split
  · next herr => exact .inl ⟨herr, rfl⟩
  · next hne =>
      refine .inr ⟨hne, ?_⟩
      split
      · next name _ =>
          rw [stepSkill]
          split
          · exact ⟨restore env c.actor, ⟨hm, _, _, hw, rfl⟩, .inl ⟨_, rfl⟩⟩
          · split
            · next e w hr =>
                obtain rfl := (congrArg Prod.snd hr).symm
                refine ⟨_, ?_, .inl ⟨_, rfl⟩⟩
                exact ⟨hm, _, _, hw.tick, rfl⟩
            · next text w hr =>
                obtain rfl := (congrArg Prod.snd hr).symm
                refine ⟨_, ?_, .inr rfl⟩
                exact ⟨hm, _, _, hw.tick, rfl⟩
      · refine ⟨_, ?_, .inr rfl⟩
        exact ⟨hm, _, _, hw.newId, rfl⟩

/-! ## A run -/

/-- After the result of a loop. -/
theorem stepSettle_spec (result : Except AgentError (List AgentMessage)) (w : World) (c : Call) :
    ∃ next machine pushed a, SessionActor.Settles c.actor.machine result next machine pushed ∧
      a.machine = machine ∧
      a.history = (({ c.actor with world := w } : SessionActor).pushMessages env pushed).history ∧
      Activity env turnObs w a.world ∧
      stepSettle env result w c =
        match next with
        | .backoff d => { c with actor := a, phase := .backoff d }
        | .compactAndRetry => { c with actor := a, phase := .compactAndRetry }
        | .absorbed msgs => { c with actor := a, phase := .threshold msgs }
        | .fail e => c.leave a (.error e) := by
  obtain ⟨pushed, hs, hh, hw⟩ :=
    @SessionActor.settle_spec env { c.actor with world := w } result
  refine ⟨_, _, pushed, _, hs, rfl, hh, hw, ?_⟩
  rw [stepSettle]
  split
  · next h => simp only [h]
  · next h => simp only [h]
  · next h => simp only [h]
  · next h => simp only [h]

theorem stepBackoff_spec (c : Call) :
    (∃ e, stepBackoff env c = c.leave (c.actor.tick env).markSuccess (.error e)) ∨
      stepBackoff env c = { c with
        actor := (c.actor.tick env).markSuccess, phase := .head, backoffs := c.backoffs + 1 } := by
  unfold stepBackoff
  simp only []
  split
  · exact .inl ⟨_, rfl⟩
  · exact .inr rfl

theorem stepCompactAndRetry_spec (c : Call) :
    (∃ e, (c.actor.runAutoCompaction cfg env .overflow true).1 = .error e ∧
        stepCompactAndRetry cfg env c =
          c.leave (c.actor.runAutoCompaction cfg env .overflow true).2 (.error e)) ∨
      ((c.actor.runAutoCompaction cfg env .overflow true).1 = .ok () ∧
        stepCompactAndRetry cfg env c = { c with
          actor := (c.actor.runAutoCompaction cfg env .overflow true).2
          phase := .head, compactions := c.compactions + 1 }) := by
  rw [stepCompactAndRetry]
  split
  · next h => exact .inl ⟨_, by rw [h], by rw [h]⟩
  · next h => exact .inr ⟨by rw [h], by rw [h]⟩

theorem stepThreshold_spec (msgs : List AgentMessage) (c : Call) :
    (stepThreshold cfg env msgs c = { c with phase := .finish msgs } ∧
        (cfg.compactor.config.enabled && c.actor.overThreshold cfg) = false) ∨
      ((cfg.compactor.config.enabled && c.actor.overThreshold cfg) = true ∧
        ((∃ e, stepThreshold cfg env msgs c =
            c.leave (c.actor.runAutoCompaction cfg env .threshold false).2 (.error e)) ∨
          stepThreshold cfg env msgs c = { c with
            actor := (c.actor.runAutoCompaction cfg env .threshold false).2
            phase := .finish msgs })) := by
  rw [stepThreshold]
  split
  · next ht =>
      refine .inr ⟨ht, ?_⟩
      split
      · next h => exact .inl ⟨_, by rw [h]⟩
      · next h => exact .inr (by rw [h])
  · next ht => exact .inl ⟨rfl, by simpa using ht⟩

theorem stepFinish_spec (msgs : List AgentMessage) (c : Call) :
    stepFinish cfg env msgs c =
        { c with actor := c.actor.finishRun cfg env msgs, phase := .panicked } ∨
      ∃ a, (c.actor.finishRun cfg env msgs).persist env = some a ∧
        stepFinish cfg env msgs c = c.leave a (.ok msgs) := by
  unfold stepFinish
  simp only []
  split
  · exact .inl rfl
  · next a h => exact .inr ⟨a, h, rfl⟩

theorem stepDeltas_spec (result : Except AgentError (List AgentMessage)) (w : World) (c : Call) :
    ∃ a pushed, stepDeltas env result w c = { c with actor := a, phase := .returned result } ∧
      a.machine = c.actor.machine.enterIdle ∧
      a.history = (({ c.actor with world := w } : SessionActor).pushMessages env pushed).history ∧
      Activity env turnObs w a.world ∧ (∀ msgs, result = .ok msgs → pushed = msgs) := by
  unfold stepDeltas
  cases result with
  | error e => exact ⟨_, [], rfl, rfl, rfl, .refl, nofun⟩
  | ok msgs =>
      obtain ⟨u, hu⟩ := SessionActor.captureUsage_frame
        ({ c.actor with world := w } : SessionActor).enterIdle msgs
      obtain ⟨hm, hh, hw⟩ := @SessionActor.pushMessages_captured env { c.actor with world := w }
        c.actor.machine.enterIdle u msgs
      simp only [hu]
      exact ⟨_, msgs, rfl, hm, hh, hw, fun _ h => by injection h⟩

/-! ## Steps -/

/-- The ways a step of a call can end. -/
inductive Steps (cfg : SessionConfig) (env : Env) (c c' : Call) : Prop where
  | strategy {g : GoalRun} {content : List Content} {goal : Option GoalRun}
      (h : c.phase = .attempt g) (hlt : g.attempt < g.goal.maxAttempts)
      (h' : c' = { c with
        actor := c.actor.applyContextStrategy cfg env, phase := .prompt content, goal := goal })
  | lastPrompt {g : GoalRun} {content : List Content} {goal : Option GoalRun}
      (h : c.phase = .attempt g) (h' : c' = { c with phase := .prompt content, goal := goal })
  | notMet {g : GoalRun} {e : AgentError} (h : c.phase = .attempt g)
      (h' : c' = { c with phase := .returned (.error e) })
  | rejected {content : List Content} {e : AgentError} (h : c.phase = .prompt content)
      (herr : c.actor.machine.state = .error) (h' : c' = c.leave c.actor (.error e))
  | unprepared {content : List Content} {a : SessionActor} {e : AgentError}
      (h : c.phase = .prompt content) (hne : c.actor.machine.state ≠ .error)
      (ha : Prepared env c.actor a) (h' : c' = c.leave a (.error e))
  | prepared {content : List Content} {a : SessionActor} (h : c.phase = .prompt content)
      (hne : c.actor.machine.state ≠ .error) (ha : Prepared env c.actor a)
      (h' : c' = { c with actor := a, phase := .head })
  | started {messages : List AgentMessage} (h : c.phase = .head)
      (h' : c' = { c with
        actor := c.actor.enterRun
        phase := .looping (.start env messages c.actor.enterRun.world)
        attempts := c.attempts + 1 })
  | looped {l : AgentLoop} (h : c.phase = .looping l) (hl : ∀ result, l.phase ≠ .returned result)
      (h' : c' = { c with phase := .looping (l.step (c.actor.loopConfig cfg) env) })
  | settled {l : AgentLoop} {result : Except AgentError (List AgentMessage)}
      (h : c.phase = .looping l) (hl : l.phase = .returned result)
      (h' : c' = c.stepSettle env result l.locals.world)
  | broken {l : AgentLoop} (h : c.phase = .looping l ∨ c.phase = .deltas l)
      (hl : l.phase = .panicked)
      (h' : c' = { c with actor := { c.actor with world := l.locals.world }, phase := .panicked })
  | backoffAborted {d : Nat} {e : AgentError} (h : c.phase = .backoff d)
      (h' : c' = c.leave (c.actor.tick env).markSuccess (.error e))
  | backoffOver {d : Nat} (h : c.phase = .backoff d)
      (h' : c' = { c with
        actor := (c.actor.tick env).markSuccess, phase := .head, backoffs := c.backoffs + 1 })
  | compactionFailed {e : AgentError} (h : c.phase = .compactAndRetry)
      (hr : (c.actor.runAutoCompaction cfg env .overflow true).1 = .error e)
      (h' : c' = c.leave (c.actor.runAutoCompaction cfg env .overflow true).2 (.error e))
  | compacted (h : c.phase = .compactAndRetry)
      (h' : c' = { c with
        actor := (c.actor.runAutoCompaction cfg env .overflow true).2
        phase := .head, compactions := c.compactions + 1 })
  | belowThreshold {msgs : List AgentMessage} (h : c.phase = .threshold msgs)
      (ht : (cfg.compactor.config.enabled && c.actor.overThreshold cfg) = false)
      (h' : c' = { c with phase := .finish msgs })
  | thresholdFailed {msgs : List AgentMessage} {e : AgentError} (h : c.phase = .threshold msgs)
      (ht : (cfg.compactor.config.enabled && c.actor.overThreshold cfg) = true)
      (h' : c' = c.leave (c.actor.runAutoCompaction cfg env .threshold false).2 (.error e))
  | thresholdCompacted {msgs : List AgentMessage} (h : c.phase = .threshold msgs)
      (ht : (cfg.compactor.config.enabled && c.actor.overThreshold cfg) = true)
      (h' : c' = { c with
        actor := (c.actor.runAutoCompaction cfg env .threshold false).2, phase := .finish msgs })
  | savePanicked {msgs : List AgentMessage} (h : c.phase = .finish msgs)
      (h' : c' = { c with actor := c.actor.finishRun cfg env msgs, phase := .panicked })
  | finished {msgs : List AgentMessage} {a : SessionActor} (h : c.phase = .finish msgs)
      (ha : (c.actor.finishRun cfg env msgs).persist env = some a)
      (h' : c' = c.leave a (.ok msgs))
  | deltasLooped {l : AgentLoop} (h : c.phase = .deltas l) (hl : ∀ result, l.phase ≠ .returned result)
      (h' : c' = { c with phase := .deltas (l.step (c.actor.loopConfig cfg) env) })
  | deltasEnded {l : AgentLoop} {result : Except AgentError (List AgentMessage)}
      (h : c.phase = .deltas l) (hl : l.phase = .returned result)
      (h' : c' = c.stepDeltas env result l.locals.world)
  | ended (h : (∃ result, c.phase = .returned result) ∨ c.phase = .panicked) (h' : c' = c)

theorem step_cases (cfg : SessionConfig) (env : Env) (c : Call) :
    Steps cfg env c (c.step cfg env) := by
  cases hp : c.phase with
  | attempt g =>
      simp only [step, stepWith, hp]
      rcases @stepAttempt_spec cfg env g c with ⟨hlt, _, _, hs⟩ | ⟨_, _, hs⟩ | ⟨_, hs⟩
      · exact .strategy hp hlt hs
      · exact .lastPrompt hp hs
      · exact .notMet hp hs
  | prompt content =>
      simp only [step, stepWith, hp]
      rcases @stepPrompt_spec cfg env content c with ⟨herr, hs⟩ | ⟨hne, a, ha, ⟨_, hs⟩ | hs⟩
      · exact .rejected hp herr hs
      · exact .unprepared hp hne ha hs
      · exact .prepared hp hne ha hs
  | head =>
      simp only [step, stepWith, hp]
      exact .started hp rfl
  | looping l =>
      cases hl : l.phase with
      | returned result =>
          simp only [step, stepWith, hp, hl]
          exact .settled hp hl rfl
      | panicked =>
          simp only [step, stepWith, hp, hl]
          exact .broken (.inl hp) hl rfl
      | outer | inner | responded | stopped =>
          simp only [step, stepWith, hp, hl]
          exact .looped hp (by rw [hl]; exact nofun) rfl
  | backoff d =>
      simp only [step, stepWith, hp]
      rcases @stepBackoff_spec env c with ⟨_, hs⟩ | hs
      · exact .backoffAborted hp hs
      · exact .backoffOver hp hs
  | compactAndRetry =>
      simp only [step, stepWith, hp]
      rcases @stepCompactAndRetry_spec cfg env c with ⟨_, hr, hs⟩ | ⟨-, hs⟩
      · exact .compactionFailed hp hr hs
      · exact .compacted hp hs
  | threshold msgs =>
      simp only [step, stepWith, hp]
      rcases @stepThreshold_spec cfg env msgs c with ⟨hs, ht⟩ | ⟨ht, ⟨_, hs⟩ | hs⟩
      · exact .belowThreshold hp ht hs
      · exact .thresholdFailed hp ht hs
      · exact .thresholdCompacted hp ht hs
  | finish msgs =>
      simp only [step, stepWith, hp]
      rcases @stepFinish_spec cfg env msgs c with hs | ⟨a, ha, hs⟩
      · exact .savePanicked hp hs
      · exact .finished hp ha hs
  | deltas l =>
      cases hl : l.phase with
      | returned result =>
          simp only [step, stepWith, hp, hl]
          exact .deltasEnded hp hl rfl
      | panicked =>
          simp only [step, stepWith, hp, hl]
          exact .broken (.inr hp) hl rfl
      | outer | inner | responded | stopped =>
          simp only [step, stepWith, hp, hl]
          exact .deltasLooped hp (by rw [hl]; exact nofun) rfl
  | returned r =>
      simp only [step, stepWith, hp]
      exact .ended (.inl ⟨r, hp⟩) rfl
  | panicked =>
      simp only [step, stepWith, hp]
      exact .ended (.inr hp) rfl

/-- An agent loop of `run_with_messages` has just been started, or has gone a
step further. -/
theorem looping_of_step {c : Call} {l : AgentLoop}
    (h : (c.step cfg env).phase = .looping l) :
    (∃ messages w, l = .start env messages w) ∨
      (∃ l', c.phase = .looping l' ∧ l = l'.step (c.actor.loopConfig cfg) env) := by
  have hleave : ∀ a result, (c.leave a result).phase ≠ .looping l := by
    intro a result hl
    rcases (c.leave_spec a result).2 with hp | ⟨g, hp⟩
    · rw [hl] at hp; cases hp
    · rw [hl] at hp; cases hp
  cases step_cases cfg env c with
  | started hp h' =>
      rw [h'] at h
      injection h with h
      exact .inl ⟨_, _, h.symm⟩
  | looped hp _ h' =>
      rw [h'] at h
      injection h with h
      exact .inr ⟨_, hp, h.symm⟩
  | @settled l' result hp hl h' =>
      obtain ⟨next, machine, pushed, a, -, -, -, -, hs⟩ := @stepSettle_spec env result l'.locals.world c
      rw [h', hs] at h
      cases next with
      | backoff | compactAndRetry | absorbed => cases h
      | fail e => exact absurd h (hleave _ _)
  | @deltasEnded l' result hp hl h' =>
      obtain ⟨a, pushed, hs, -⟩ := @stepDeltas_spec env result l'.locals.world c
      rw [h', hs] at h
      cases h
  | ended hover h' =>
      rw [h'] at h
      rcases hover with ⟨result, hp⟩ | hp
      · rw [h] at hp; cases hp
      · rw [h] at hp; cases hp
  | rejected _ _ h' | unprepared _ _ _ h' | backoffAborted _ h' | compactionFailed _ _ h'
  | thresholdFailed _ _ h' | finished _ _ h' =>
      rw [h'] at h
      exact absurd h (hleave _ _)
  | strategy _ _ h' | lastPrompt _ h' | notMet _ h' | prepared _ _ _ h' | broken _ _ h'
  | backoffOver _ h' | compacted _ h' | belowThreshold _ _ h' | thresholdCompacted _ _ h'
  | savePanicked _ h' | deltasLooped _ _ h' =>
      rw [h'] at h
      cases h

/-! ## The start of a call -/

theorem prompt_phase (text : String) (a : SessionActor) :
    (∃ e, (prompt cfg text a).phase = .returned (.error e)) ∨
      (∃ content, (prompt cfg text a).phase = .prompt content) ∨
      ∃ g, (prompt cfg text a).phase = .attempt g := by
  rw [prompt]
  split
  · exact .inr (.inl ⟨_, rfl⟩)
  · exact .inr (.inr ⟨_, rfl⟩)
  · split
    · exact .inl ⟨_, rfl⟩
    · split
      · exact .inr (.inl ⟨_, rfl⟩)
      · exact .inr (.inr ⟨_, rfl⟩)

end Call

/-- The calls that ask for an answer. -/
def Op.Asks : Op → Prop
  | .prompt _ | .promptWithContent _ | .continue_ | .completeWithDeltas _ => True
  | _ => False

theorem SessionActor.compact_machine (a : SessionActor) :
    (a.compact cfg env).2.machine = a.machine := by
  rw [SessionActor.compact]
  split <;> rfl

theorem Call.prompt_machine (text : String) (a : SessionActor) :
    (Call.prompt cfg text a).actor.machine = a.machine := by
  rw [Call.prompt]
  split
  · rfl
  · rfl
  · split
    · rfl
    · split <;> rfl

/-- Only a reset and `complete_with_deltas` touch the machine at once. -/
theorem Op.begin_machine (o : Op) (a : SessionActor) (hreset : o ≠ .reset)
    (hdeltas : ∀ text, o ≠ .completeWithDeltas text) :
    (o.begin cfg env a).actor.machine = a.machine := by
  cases o with
  | prompt text => exact Call.prompt_machine text a
  | continue_ =>
      simp only [begin, Call.continue_]
      split <;> rfl
  | completeWithDeltas text => exact absurd rfl (hdeltas text)
  | compact =>
      have h := @SessionActor.compact_machine cfg env a
      simp only [begin]
      split
      · next hc => rw [hc] at h; exact h
      · next hc => rw [hc] at h; exact h
  | reset => exact absurd rfl hreset
  | flush =>
      simp only [begin]
      have h : (if a.history.lastSave = true then a.tick env else a).machine = a.machine := by
        split <;> rfl
      split
      · exact h
      · split <;> exact h
  | promptWithContent | pushMessage | steer | followUp | abort | setMaxRetries | setStrategy => rfl

/-- The phase a call starts in. Only `continue_` goes to the run without a
prompt, and not in error. -/
theorem Op.begin_phase (o : Op) (a : SessionActor) :
    (∃ result, (o.begin cfg env a).phase = .returned result) ∨
      (∃ content, (o.begin cfg env a).phase = .prompt content) ∨
      (∃ g, (o.begin cfg env a).phase = .attempt g) ∨
      (o = .continue_ ∧ a.machine.state ≠ .error ∧ (o.begin cfg env a).phase = .head) ∨
      ∃ text messages w, o = .completeWithDeltas text ∧
        (o.begin cfg env a).phase = .deltas (.start env messages w) := by
  cases o with
  | prompt text =>
      rcases @Call.prompt_phase cfg text a with ⟨e, h⟩ | h | h
      · exact .inl ⟨_, h⟩
      · exact .inr (.inl h)
      · exact .inr (.inr (.inl h))
  | promptWithContent content => exact .inr (.inl ⟨_, rfl⟩)
  | continue_ =>
      simp only [begin, Call.continue_]
      split
      · exact .inl ⟨_, rfl⟩
      · next hne => exact .inr (.inr (.inr (.inl ⟨trivial, hne, rfl⟩)))
  | completeWithDeltas text => exact .inr (.inr (.inr (.inr ⟨_, _, _, rfl, rfl⟩)))
  | compact =>
      simp only [begin]
      split <;> exact .inl ⟨_, rfl⟩
  | flush =>
      simp only [begin]
      split
      · exact .inl ⟨_, rfl⟩
      · split <;> exact .inl ⟨_, rfl⟩
  | pushMessage | steer | followUp | abort | reset | setMaxRetries | setStrategy =>
      exact .inl ⟨_, rfl⟩

end Pandaria.Agent
