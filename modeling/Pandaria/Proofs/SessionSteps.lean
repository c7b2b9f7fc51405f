import Pandaria.Proofs.Activity

/-!
# What the parts of a call do to the session

One lemma for each function a call is put together from, saying which fields
it leaves alone and what it does to the others. A compaction is an activity
of the world and a cut of the history; it does not look at the state machine
at all. The settling of a loop's result, on the other hand, changes the state
machine and nothing of the world but a record.
-/

namespace Pandaria.Agent

open Pandaria.Ai

variable {cfg : SessionConfig} {env : Env}

/-! ## Summaries -/

theorem readSummary_activity (ifEmpty : String) (events : List AssistantMessageEvent)
    (text : String) (w : World) :
    Activity env turnObs w (readSummary env ifEmpty events text w).2 := by
  induction events generalizing text w with
  | nil => exact Activity.refl.tick
  | cons e rest ih =>
      rw [readSummary]
      split
      · exact Activity.refl.tick.trans (ih _ _)
      · exact Activity.refl.tick

namespace SummaryTask

/-- The world in which a summary that goes on has its request out. -/
def started (env : Env) (w : World) : SummaryTask → World
  | .prompting prompt _ => requestSummary env prompt w
  | _ => w

theorem started_activity (t : SummaryTask) (w : World) :
    Activity env briefObs w (t.started env w) := by
  cases t with
  | prompting => exact Activity.refl.tick.observeWithout rfl fun _ h => by cases h
  | requested | reading | done => exact .refl

/-- Behind its request a summary starts no other. -/
theorem step_activity (t : SummaryTask) (w : World) :
    Activity env turnObs (t.started env w) (t.step env w).2 := by
  cases t with
  | prompting | done => exact .refl
  | requested ifEmpty =>
      rw [step]
      split
      · next e w₁ hw =>
          obtain rfl := (congrArg Prod.snd hw).symm
          exact Activity.refl.tick
      · next events w₁ hw =>
          obtain rfl := (congrArg Prod.snd hw).symm
          exact Activity.refl.tick
  | reading events text ifEmpty =>
      cases events with
      | nil => exact Activity.refl.tick
      | cons e rest =>
          rw [step]
          split
          · exact Activity.refl.tick
          · exact Activity.refl.tick

theorem receive_activity (ifEmpty : String) (w : World) :
    Activity env turnObs w (receive env ifEmpty w).2 := by
  rw [receive]
  split
  · next e w₁ hw =>
      obtain rfl := (congrArg Prod.snd hw).symm
      exact Activity.refl.tick
  · next events w₁ hw =>
      obtain rfl := (congrArg Prod.snd hw).symm
      exact Activity.refl.tick.trans (readSummary_activity _ _ _ _)

theorem finish_activity (t : SummaryTask) (w : World) :
    Activity env turnObs (t.started env w) (t.finish env w).2 := by
  cases t with
  | prompting | requested => exact receive_activity _ _
  | reading => exact readSummary_activity _ _ _ _
  | done => exact .refl

end SummaryTask

theorem joinSummaries_activity (schedule : List Bool) (history turnPrefix : SummaryTask)
    (w : World) : Activity env briefObs w (joinSummaries env schedule history turnPrefix w).2 := by
  have hstep : ∀ (t : SummaryTask) (w : World), Activity env briefObs w (t.step env w).2 :=
    fun t w => (t.started_activity w).trans (t.step_activity w).brief
  have hfinish : ∀ (t : SummaryTask) (w : World), Activity env briefObs w (t.finish env w).2 :=
    fun t w => (t.started_activity w).trans (t.finish_activity w).brief
  induction schedule generalizing history turnPrefix w with
  | nil =>
      have hh := hfinish history w
      rw [joinSummaries]
      split
      · next e w₁ hr => rw [hr] at hh; exact hh
      · next text w₁ hr =>
          rw [hr] at hh
          have hp := hh.trans (hfinish turnPrefix w₁)
          split
          · next e w₂ hr => rw [hr] at hp; exact hp
          · next text w₂ hr => rw [hr] at hp; exact hp
  | cons next rest ih =>
      cases next with
      | true =>
          have hh := hstep history w
          rw [joinSummaries]
          split
          · next e w₁ hr => rw [hr] at hh; exact hh
          · next t w₁ _ hr => rw [hr] at hh; exact hh.trans (ih _ _ _)
      | false =>
          have hp := hstep turnPrefix w
          rw [joinSummaries]
          split
          · next e w₁ hr => rw [hr] at hp; exact hp
          · next t w₁ _ hr => rw [hr] at hp; exact hp.trans (ih _ _ _)

theorem summarize_activity (p : CompactionPreparation) (w : World) :
    Activity env briefObs w (summarize env p w).2 := by
  rw [summarize]
  split
  · have h := @joinSummaries_activity env (env.schedule w.now) (historySummary p)
      (turnPrefixSummary p) w
    split
    · next e w₁ hr => rw [hr] at h; exact h
    · next history turnPrefix w₁ hr => rw [hr] at h; exact h
  · exact ((historySummary p).started_activity w).trans ((historySummary p).finish_activity w).brief

/-- A compaction does to the world what its summary does. -/
theorem compact_world (c : Compactor) (entries : List SessionEntry) (w : World) :
    (compact c env entries w).2 = w ∨
      ∃ p, prepare c entries = .ok p ∧ (compact c env entries w).2 = (summarize env p w).2 := by
  rw [compact]
  split
  · exact .inl rfl
  · next p hp =>
      refine .inr ⟨p, hp, ?_⟩
      split
      · next e w₁ hs => rw [hs]
      · next summary w₁ hs => rw [hs]

theorem compact_activity (c : Compactor) (entries : List SessionEntry) (w : World) :
    Activity env briefObs w (compact c env entries w).2 := by
  rcases @compact_world env c entries w with h | ⟨p, -, h⟩
  · rw [h]
    exact .refl
  · rw [h]
    exact summarize_activity p w

namespace SessionActor

/-! ## Pushes -/

theorem pushMessages_cons (a : SessionActor) (m : AgentMessage) (ms : List AgentMessage) :
    a.pushMessages env (m :: ms) = (a.pushMessage env m).pushMessages env ms := rfl

/-- A push adds its messages to the history, each in an entry of its own. -/
theorem pushMessages_entries (a : SessionActor) (ms : List AgentMessage) :
    ∃ es, (a.pushMessages env ms).history.entries = a.history.entries ++ es ∧
      (∀ e ∈ es, e.isCompaction = false) ∧ es.filterMap SessionEntry.message? = ms := by
  induction ms generalizing a with
  | nil => exact ⟨[], (List.append_nil _).symm, nofun, rfl⟩
  | cons m ms ih =>
      obtain ⟨es, hes, hno, hmsgs⟩ := ih (a.pushMessage env m)
      rw [pushMessages_cons]
      refine ⟨.message (a.world.newId env).1 m :: es, ?_, ?_, ?_⟩
      · rw [hes, ← List.singleton_append, ← List.append_assoc]
        rfl
      · intro e he
        rcases List.mem_cons.mp he with he | he
        · rw [he]
          rfl
        · exact hno e he
      · rw [← hmsgs]
        rfl

/-- And draws ids for them. -/
theorem pushMessages_activity (a : SessionActor) (ms : List AgentMessage) :
    Activity env turnObs a.world (a.pushMessages env ms).world := by
  induction ms generalizing a with
  | nil => exact .refl
  | cons m ms ih =>
      rw [pushMessages_cons]
      exact Activity.refl.newId.trans (ih (a.pushMessage env m))

/-- A push reads neither the machine nor the usage. -/
theorem pushMessages_frame (a : SessionActor) (m : SessionStateMachine) (u : Option Usage)
    (ms : List AgentMessage) :
    ({ a with machine := m, lastUsage := u } : SessionActor).pushMessages env ms =
      { a.pushMessages env ms with machine := m, lastUsage := u } := by
  induction ms generalizing a with
  | nil => rfl
  | cons msg ms ih => exact ih (a.pushMessage env msg)

/-! ## Compactions -/

/-- How far into the history a compaction cuts: nowhere, when there is none. -/
def cutOf (cfg : SessionConfig) (env : Env) (reason : CompactReason) (a : SessionActor) : Nat :=
  match (a.emit (.compactionStart reason)).chooseCompaction cfg env with
  | (.ok (.compaction fromExtension result), w) =>
      SessionHistory.boundaryIndex (a.history.entries ++
        [({ a with world := w }).compactionEntry env fromExtension result]) result.firstKeptEntryId
  | _ => 0

/-- The hook is asked about a compaction that can be made, and if it does not
mind the compaction is made. -/
theorem chooseCompaction_world (a : SessionActor) :
    (a.chooseCompaction cfg env).2 = a.world ∨ (a.chooseCompaction cfg env).2 = a.world.tick env ∨
      (env.onBeforeCompact a.world.now = .continue_ ∧ (a.chooseCompaction cfg env).2 =
        (Agent.compact cfg.compactor env a.history.entries (a.world.tick env)).2) := by
  rw [chooseCompaction]
  split
  · exact .inl rfl
  · split
    · next w hw => exact .inr (.inl (congrArg Prod.snd hw).symm)
    · next w hw => exact .inr (.inl (congrArg Prod.snd hw).symm)
    · next w hw =>
        obtain rfl := (congrArg Prod.snd hw).symm
        refine .inr (.inr ⟨congrArg Prod.fst hw, ?_⟩)
        split
        · next e w₁ hc => exact (congrArg Prod.snd hc).symm
        · next result w₁ hc => exact (congrArg Prod.snd hc).symm

theorem chooseCompaction_activity (a : SessionActor) :
    Activity env briefObs a.world (a.chooseCompaction cfg env).2 := by
  rcases @chooseCompaction_world cfg env a with h | h | ⟨-, h⟩
  · rw [h]
    exact .refl
  · rw [h]
    exact Activity.refl.tick
  · rw [h]
    exact Activity.refl.tick.trans (compact_activity _ _ _)

/-- The rest of a compaction is bookkeeping. -/
theorem runAutoCompaction_end (reason : CompactReason) (willRetry : Bool) (a : SessionActor) :
    Activity env loopObs ((a.emit (.compactionStart reason)).chooseCompaction cfg env).2
      (a.runAutoCompaction cfg env reason willRetry).2.world := by
  rw [runAutoCompaction]
  split
  · next e w hc =>
      rw [hc]
      exact .refl
  · next r w hc =>
      rw [hc]
      exact Activity.refl.emitLoop _
  · next fromExtension result w hc =>
      rw [hc]
      exact (Activity.refl.newId.emitLoop _).tick

theorem runAutoCompaction_spec (reason : CompactReason) (willRetry : Bool) (a : SessionActor) :
    (a.runAutoCompaction cfg env reason willRetry).2.machine = a.machine ∧
      (∃ added : List SessionEntry, (a.runAutoCompaction cfg env reason willRetry).2.history.entries =
        (a.history.entries ++ added).drop (a.cutOf cfg env reason)) ∧
      Activity env anyObs a.world (a.runAutoCompaction cfg env reason willRetry).2.world := by
  have hw : Activity env anyObs a.world (a.runAutoCompaction cfg env reason willRetry).2.world :=
    ((Activity.refl.emitAny (.compactionStart reason)).trans
      (chooseCompaction_activity (a.emit (.compactionStart reason))).without_le).trans
        (runAutoCompaction_end reason willRetry a).any
  rw [← and_assoc]
  refine ⟨?_, hw⟩
  rw [runAutoCompaction, cutOf]
  split
  · next e w hc => exact ⟨rfl, [], by rw [hc, List.append_nil]; rfl⟩
  · next r w hc => exact ⟨rfl, [], by rw [hc, List.append_nil]; rfl⟩
  · next fromExtension result w hc => exact ⟨rfl, _, by rw [hc]; rfl⟩

theorem compactionCheck_some {m : AssistantMessage} {a : SessionActor} {reason : CompactReason}
    (h : a.compactionCheck cfg m = .ok (some reason)) :
    (reason = .overflow ∧ isContextOverflow m = true ∧
      a.machine.recovery.overflowAttempted = false) ∨ reason = .threshold := by
  rw [compactionCheck] at h
  split at h
  · injection h with h; cases h
  · split at h
    · injection h with h; cases h
    · split at h
      · injection h with h; cases h
      · split at h
        · next ho =>
            split at h
            · cases h
            · next hf =>
                injection h with h
                injection h with h
                exact .inl ⟨h.symm, ho, by simpa using hf⟩
        · split at h
          · injection h with h
            injection h with h
            exact .inr h.symm
          · injection h with h; cases h

/-! ## The result of a loop -/

/-- What the recovery rules answer to the result of a loop, where they are
asked. -/
def reaction (r : RecoveryStateMachine) (result : Except AgentError (List AgentMessage)) :
    Option (RecoveryAction × RecoveryStateMachine) :=
  match result with
  | .ok msgs => (lastSettled msgs).map r.evaluate
  | .error (.contextOverflow msg) => some (r.evaluateOverflow msg)
  | .error _ => none

/-- What `settle` can do: the machine and the history it leaves, by what the
call does next. -/
inductive Settles (m : SessionStateMachine) (result : Except AgentError (List AgentMessage)) :
    Next → SessionStateMachine → List AgentMessage → Prop where
  | backoff {d : Nat} {r : RecoveryStateMachine}
      (h : reaction m.recovery result = some (.retryAfterBackoff d, r)) :
      Settles m result (.backoff d) ⟨.idle, m.errorReason, r⟩ []
  | compactAndRetry {reason : CompactReason} {r : RecoveryStateMachine}
      (h : reaction m.recovery result = some (.retryAfterCompaction reason, r)) :
      Settles m result .compactAndRetry ⟨.idle, m.errorReason, r.markSuccess⟩ []
  | unsettled {msgs : List AgentMessage} (hres : result = .ok msgs) (h : lastSettled msgs = none) :
      Settles m result (.absorbed msgs) ⟨.idle, m.errorReason, m.recovery⟩ msgs
  | absorbed {msgs : List AgentMessage} {r : RecoveryStateMachine} (hres : result = .ok msgs)
      (h : reaction m.recovery result = some (.continue_, r)) :
      Settles m result (.absorbed msgs) ⟨.idle, m.errorReason, r.markSuccess⟩ msgs
  | abort {e : AgentError} {reason : String} {r r' : RecoveryStateMachine}
      (h : reaction m.recovery result = some (.abort reason, r))
      (he : e = .recoveryAborted reason ∨ e = .compactionFailed reason)
      (hr : r' = r ∨ r' = r.markSuccess) :
      Settles m result (.fail e) ⟨.error, some reason, r'⟩ []
  | cancelled (hres : result = .error .cancelled) :
      Settles m result (.fail .cancelled) ⟨.idle, m.errorReason, m.recovery⟩ []
  | failed {e : AgentError} (hres : result = .error e) (hc : e ≠ .cancelled)
      (h : reaction m.recovery result = none) :
      Settles m result (.fail e) ⟨.error, some e.toString, m.recovery⟩ []

theorem onRetryable_ne_continue (r : RecoveryStateMachine) : r.onRetryable.1 ≠ .continue_ := by
  rw [RecoveryStateMachine.onRetryable]
  intro h
  split at h
  · cases h
  · cases h

theorem onOverflow_ne_continue (r : RecoveryStateMachine) : r.onOverflow.1 ≠ .continue_ := by
  rw [RecoveryStateMachine.onOverflow]
  intro h
  split at h
  · cases h
  · cases h

theorem evaluateOverflow_ne_continue (r : RecoveryStateMachine) (msg : String) :
    (r.evaluateOverflow msg).1 ≠ .continue_ := by
  rw [RecoveryStateMachine.evaluateOverflow]
  split
  · exact onOverflow_ne_continue r
  · exact onRetryable_ne_continue r

theorem captureUsage_frame (a : SessionActor) (msgs : List AgentMessage) :
    ∃ u, a.captureUsage msgs = { a with lastUsage := u } := by
  rw [captureUsage]
  split
  · exact ⟨_, rfl⟩
  · exact ⟨a.lastUsage, rfl⟩

/-- A push after the usage has been captured. -/
theorem pushMessages_captured (a : SessionActor) (m : SessionStateMachine) (u : Option Usage)
    (msgs : List AgentMessage) :
    (({ a with machine := m, lastUsage := u } : SessionActor).pushMessages env msgs).machine = m ∧
      (({ a with machine := m, lastUsage := u } : SessionActor).pushMessages env msgs).history =
        (a.pushMessages env msgs).history ∧
      Activity env turnObs a.world
        (({ a with machine := m, lastUsage := u } : SessionActor).pushMessages env msgs).world := by
  rw [pushMessages_frame]
  exact ⟨rfl, rfl, pushMessages_activity a msgs⟩

theorem settleOk_spec (a : SessionActor) (msgs : List AgentMessage) :
    ∃ pushed, Settles a.machine (.ok msgs) (a.settleOk env msgs).1 (a.settleOk env msgs).2.machine pushed ∧
      (a.settleOk env msgs).2.history = (a.pushMessages env pushed).history ∧
      Activity env turnObs a.world (a.settleOk env msgs).2.world := by
  obtain ⟨u, hu⟩ := captureUsage_frame a.enterIdle msgs
  rw [settleOk]
  simp only [hu]
  split
  · next hl =>
      obtain ⟨hm, hh, hw⟩ := @pushMessages_captured env a a.machine.enterIdle u msgs
      exact ⟨msgs, hm ▸ .unsettled rfl hl, hh, hw⟩
  · next m hl =>
      have hreact : reaction a.machine.recovery (.ok msgs) = some (a.machine.recovery.evaluate m) := by
        rw [reaction, hl]
        rfl
      split
      · next d ha => exact ⟨[], .backoff (hreact.trans (by rw [← ha]; rfl)), rfl, .refl⟩
      · next reason ha =>
          exact ⟨[], .compactAndRetry (hreact.trans (by rw [← ha]; rfl)), rfl, .refl⟩
      · next reason ha =>
          exact ⟨[], .abort (hreact.trans (by rw [← ha]; rfl)) (.inl rfl) (.inr rfl), rfl,
            Activity.refl.emitWithout rfl⟩
      · next ha =>
          obtain ⟨hm, hh, hw⟩ := @pushMessages_captured env a
            ⟨.idle, a.machine.errorReason, (a.machine.recovery.evaluate m).2.markSuccess⟩ u msgs
          exact ⟨msgs, hm ▸ .absorbed rfl (hreact.trans (by rw [← ha]; rfl)), hh, hw⟩

theorem settleErr_spec (a : SessionActor) (e : AgentError) :
    Settles a.machine (.error e) (a.settleErr e).1 (a.settleErr e).2.machine [] ∧
      (a.settleErr e).2.history = a.history ∧
      Activity env turnObs a.world (a.settleErr e).2.world := by
  unfold settleErr
  simp only []
  split
  · exact ⟨.cancelled rfl, rfl, .refl⟩
  · next msg =>
      have hreact : reaction a.machine.recovery (.error (.contextOverflow msg)) =
          some (a.machine.recovery.evaluateOverflow msg) := rfl
      split
      · next d ha => exact ⟨.backoff (hreact.trans (by rw [← ha]; rfl)), rfl, .refl⟩
      · next reason ha => exact ⟨.compactAndRetry (hreact.trans (by rw [← ha]; rfl)), rfl, .refl⟩
      · next reason ha =>
          exact ⟨.abort (hreact.trans (by rw [← ha]; rfl)) (.inr rfl) (.inl rfl), rfl,
            Activity.refl.emitWithout rfl⟩
      · next ha => exact absurd ha (evaluateOverflow_ne_continue _ _)
  · next hc ho =>
      refine ⟨.failed rfl hc ?_, rfl, Activity.refl.emitWithout rfl⟩
      unfold reaction
      split
      · next h => cases h
      · next msg h =>
          injection h with h
          exact absurd h (ho msg)
      · rfl

theorem settle_spec (a : SessionActor) (result : Except AgentError (List AgentMessage)) :
    ∃ pushed, Settles a.machine result (a.settle env result).1 (a.settle env result).2.machine pushed ∧
      (a.settle env result).2.history = (a.pushMessages env pushed).history ∧
      Activity env turnObs a.world (a.settle env result).2.world := by
  cases result with
  | ok msgs => exact settleOk_spec a msgs
  | error e => exact ⟨[], settleErr_spec a e⟩

/-- An answer of the rules is that to an overflow, that to a retryable error,
or to go on. -/
theorem reaction_cases {r : RecoveryStateMachine}
    {result : Except AgentError (List AgentMessage)} {x : RecoveryAction × RecoveryStateMachine}
    (h : reaction r result = some x) :
    x = r.onOverflow ∨ x = r.onRetryable ∨
      (x = (.continue_, r) ∧ ∃ msgs m, result = .ok msgs ∧ lastSettled msgs = some m ∧
        isContextOverflow m = false) := by
  unfold reaction at h
  split at h
  · next msgs =>
      obtain ⟨m, hl, hm⟩ := Option.map_eq_some_iff.mp h
      rw [← hm]
      rw [RecoveryStateMachine.evaluate]
      split
      · exact .inl rfl
      · next ho =>
          split
          · exact .inr (.inl rfl)
          · exact .inr (.inr ⟨rfl, msgs, m, rfl, hl, by simpa using ho⟩)
  · next msg =>
      injection h with h
      rw [← h]
      rw [RecoveryStateMachine.evaluateOverflow]
      split
      · exact .inl rfl
      · exact .inr (.inl rfl)
  · cases h

/-- And where the rules are not asked, the run is over. -/
theorem Settles.ended {m machine : SessionStateMachine} {next : Next}
    {result : Except AgentError (List AgentMessage)} {pushed : List AgentMessage}
    (hs : Settles m result next machine pushed) (h : reaction m.recovery result = none) :
    (∃ e, next = .fail e) ∨ ∃ msgs, next = .absorbed msgs := by
  cases hs with
  | backoff h' | compactAndRetry h' | absorbed _ h' | abort h' =>
      rw [h'] at h
      cases h
  | unsettled => exact .inr ⟨_, rfl⟩
  | cancelled | failed => exact .inl ⟨_, rfl⟩

/-- The result of a loop is absorbed: it is pushed onto the history. -/
def Absorbs (r : RecoveryStateMachine) (result : Except AgentError (List AgentMessage)) : Prop :=
  ∃ msgs, result = .ok msgs ∧ ∀ m, lastSettled msgs = some m → (r.evaluate m).1 = .continue_

/-- A result that is absorbed is pushed as it is. -/
theorem Absorbs.pushed {m : SessionStateMachine} {result : Except AgentError (List AgentMessage)}
    {next : Next} {machine : SessionStateMachine} {pushed : List AgentMessage}
    (h : Absorbs m.recovery result) (hs : Settles m result next machine pushed) :
    result = .ok pushed ∧ next = .absorbed pushed := by
  obtain ⟨msgs, hres, hcont⟩ := h
  -- Whatever the rules are asked about goes on, so nothing else is answered.
  have hreact : ∀ action r, reaction m.recovery result = some (action, r) →
      action = .continue_ := by
    intro action r hr
    rw [hres] at hr
    cases hl : lastSettled msgs with
    | none =>
        rw [reaction, hl] at hr
        cases hr
    | some m =>
        rw [reaction, hl] at hr
        injection hr with hr
        rw [← hcont m hl, hr]
  cases hs with
  | backoff h => cases hreact _ _ h
  | compactAndRetry h => cases hreact _ _ h
  | unsettled hres' => exact ⟨hres', rfl⟩
  | absorbed hres' => exact ⟨hres', rfl⟩
  | abort h => cases hreact _ _ h
  | cancelled hres' =>
      rw [hres] at hres'
      cases hres'
  | failed hres' =>
      rw [hres] at hres'
      cases hres'

/-- And only a result that is absorbed is pushed. -/
theorem Settles.absorbs {m : SessionStateMachine} {result : Except AgentError (List AgentMessage)}
    {msgs : List AgentMessage} {machine : SessionStateMachine} {pushed : List AgentMessage}
    (hs : Settles m result (.absorbed msgs) machine pushed) : Absorbs m.recovery result := by
  cases hs with
  | unsettled hres hl =>
      refine ⟨msgs, hres, fun a ha => ?_⟩
      rw [hl] at ha
      cases ha
  | absorbed hres hr =>
      refine ⟨msgs, hres, fun a ha => ?_⟩
      rw [hres, reaction, ha] at hr
      injection hr with hr
      rw [hr]

/-! ## The end of a run -/

/-- What the check at the end of a run does: nothing, or a compaction for
which the overflow flag may have been set. -/
theorem checkCompaction_cases (m : AssistantMessage) (a : SessionActor) :
    ((∀ reason, a.compactionCheck cfg m ≠ .ok (some reason)) ∧
        (a.checkCompaction cfg env m).2 = a) ∨
      ∃ reason r, a.compactionCheck cfg m = .ok (some reason) ∧
        r = (if reason = .overflow then { a.machine.recovery with overflowAttempted := true }
          else a.machine.recovery) ∧
        (a.checkCompaction cfg env m).2 =
          ((a.withRecovery r).runAutoCompaction cfg env reason false).2 := by
  rw [checkCompaction]
  split
  · next e h => exact .inl ⟨fun _ => by rw [h]; exact nofun, rfl⟩
  · next h => exact .inl ⟨fun _ => by rw [h]; exact nofun, rfl⟩
  · next h => exact .inr ⟨.overflow, _, h, rfl, rfl⟩
  · next reason hno h =>
      refine .inr ⟨reason, a.machine.recovery, h, ?_, rfl⟩
      rw [if_neg hno]

/-- How far the end of a run cuts into the history. -/
def finishCut (cfg : SessionConfig) (env : Env) (msgs : List AgentMessage) (a : SessionActor) :
    Nat :=
  match lastSettled msgs with
  | none => 0
  | some m =>
      match a.concludeRun.compactionCheck cfg m with
      | .ok (some reason) => a.concludeRun.cutOf cfg env reason
      | _ => 0

/-- The end of a run: the error is cleared, the overflow flag may have been
set, and the history may have been cut. -/
theorem finishRun_spec (msgs : List AgentMessage) (a : SessionActor) :
    (∃ r, (a.finishRun cfg env msgs).machine = ⟨.idle, none, r⟩ ∧
        (r = a.machine.recovery ∨ r = { a.machine.recovery with overflowAttempted := true })) ∧
      (∃ added : List SessionEntry, (a.finishRun cfg env msgs).history.entries =
        (a.history.entries ++ added).drop (a.finishCut cfg env msgs)) ∧
      Activity env anyObs a.world (a.finishRun cfg env msgs).world := by
  have hend : Activity env anyObs a.world a.concludeRun.world := Activity.refl.emitAny _
  unfold finishRun finishCut
  split
  · next m hm =>
      rw [hm]
      rcases @checkCompaction_cases cfg env m a.concludeRun with
        ⟨hno, hc⟩ | ⟨reason, r, hcheck, hr, hc⟩
      · rw [hc]
        refine ⟨⟨_, rfl, .inl rfl⟩, ⟨[], ?_⟩, hend⟩
        -- The check finds nothing to do, so nothing is cut.
        simp only []
        rw [List.append_nil]
        rfl
      · obtain ⟨hmach, hentries, hw⟩ := @runAutoCompaction_spec cfg env reason false
          (a.concludeRun.withRecovery r)
        rw [hc]
        refine ⟨⟨r, hmach, ?_⟩, ?_, hend.trans hw⟩
        · split at hr
          · exact .inr hr
          · exact .inl hr
        · simp only [hcheck]
          exact hentries
  · next hm =>
      rw [hm]
      exact ⟨⟨_, rfl, .inl rfl⟩, ⟨[], by rw [List.append_nil]; rfl⟩, hend⟩

/-- An incremental save changes the counter and the handle. -/
theorem persist_spec {a a' : SessionActor} (h : a.persist env = some a') :
    a'.machine = a.machine ∧ a'.history.entries = a.history.entries ∧
      Activity env turnObs a.world a'.world := by
  rw [persist] at h
  simp only [Option.map_eq_some_iff] at h
  obtain ⟨⟨h', slice⟩, hp, rfl⟩ := h
  have hentries : h'.entries =
      (if a.history.hasStore && a.history.lastSave then a.tick env else a).history.entries := by
    rcases persistIncremental_cases
      (if a.history.hasStore && a.history.lastSave then a.tick env else a).history with
      ⟨-, -, hn⟩ | ⟨h'', hs, he, -⟩ | ⟨h'', hs, he, -⟩
    · rw [hn] at hp; cases hp
    · rw [hs] at hp
      injection hp with hp
      injection hp with hp _
      rw [← hp, he]
    · rw [hs] at hp
      injection hp with hp
      injection hp with hp _
      rw [← hp, he]
  split at hentries
  · next hw =>
      simp only [hw, if_true]
      exact ⟨rfl, hentries, Activity.refl.tick⟩
  · next hw =>
      simp only [hw]
      exact ⟨rfl, hentries, .refl⟩

end SessionActor

end Pandaria.Agent
