import Pandaria.Lib.Run
import Pandaria.Proofs.CallSteps
import Pandaria.Tenant.Copy

/-!
# What a clone and a fork copy

A copy is created like any other session, from parameters that are read off the
source. Some of them are in the entry and are never changed; the tools, the
webhook and the strategy come out the same, because the actor was made from
them too. The prompt is the rendered one, to which the creation adds the skills
once more. The model is not among the parameters at all, and of the history
only the messages are copied, which leaves out what a compaction has put in
their place.
-/

namespace Pandaria.Agent

open Pandaria.Ai Pandaria.Lib

/-! ## The context of a stretch of messages -/

/-- Without a compaction everything is sent. -/
theorem buildContext_messages (now : SystemTime) {entries : List SessionEntry}
    (h : ∀ e ∈ entries, e.isCompaction = false) : buildContext now entries = visible entries := by
  simp [buildContext, rposition_eq_none.mpr h]

variable {cfg : SessionConfig} {env : Env}

namespace SessionActor

theorem pushMessages_strategy (a : SessionActor) (ms : List AgentMessage) :
    (a.pushMessages env ms).strategy = a.strategy := by
  induction ms generalizing a with
  | nil => rfl
  | cons m ms ih => exact ih (a.pushMessage env m)

theorem runAutoCompaction_strategy (a : SessionActor) (reason : CompactReason) (willRetry : Bool) :
    (a.runAutoCompaction cfg env reason willRetry).2.strategy = a.strategy := by
  unfold runAutoCompaction
  simp only []
  split <;> rfl

theorem compact_strategy (a : SessionActor) : (a.compact cfg env).2.strategy = a.strategy := by
  unfold compact
  split <;> rfl

theorem settle_strategy (a : SessionActor) (result : Except AgentError (List AgentMessage)) :
    (a.settle env result).2.strategy = a.strategy := by
  cases result with
  | ok msgs =>
      obtain ⟨u, hu⟩ := captureUsage_frame a.enterIdle msgs
      rw [settle, settleOk]
      simp only [hu]
      split
      · exact pushMessages_strategy _ msgs
      · split
        · rfl
        · rfl
        · rfl
        · exact pushMessages_strategy _ msgs
  | error e =>
      unfold settle settleErr
      simp only []
      split
      · rfl
      · split <;> rfl
      · rfl

theorem finishRun_strategy (a : SessionActor) (msgs : List AgentMessage) :
    (a.finishRun cfg env msgs).strategy = a.strategy := by
  unfold finishRun
  split
  · next m _ =>
      rcases @checkCompaction_cases cfg env m a.concludeRun with ⟨-, h⟩ | ⟨reason, r, -, -, h⟩
      · rw [h]
        rfl
      · rw [h]
        exact runAutoCompaction_strategy (a.concludeRun.withRecovery r) reason false
  · rfl

theorem persist_strategy {a a' : SessionActor} (h : a.persist env = some a') :
    a'.strategy = a.strategy := by
  rw [persist] at h
  obtain ⟨p, -, rfl⟩ := Option.map_eq_some_iff.mp h
  show (if _ then a.tick env else a).strategy = a.strategy
  split <;> rfl

theorem applyContextStrategy_strategy (a : SessionActor) :
    (a.applyContextStrategy cfg env).strategy = a.strategy := by
  unfold applyContextStrategy
  split
  · rfl
  · rfl
  · simp only []
    split <;> rfl

end SessionActor

namespace Call

theorem restore_strategy (a : SessionActor) : (restore env a).strategy = a.strategy := by
  show (if _ then a.tick env else a).strategy = a.strategy
  split <;> rfl

theorem stepPrompt_strategy (content : List Content) (c : Call) :
    (stepPrompt cfg env content c).actor.strategy = c.actor.strategy := by
  have hleave (a : SessionActor) (e : AgentError) : (c.leave a (.error e)).actor = a :=
    (leave_spec c a (.error e)).1
  unfold stepPrompt
  simp only []
  split
  · rw [hleave]
  · split
    · rw [stepSkill]
      split
      · rw [hleave, restore_strategy]
      · split
        · rw [hleave]
          exact restore_strategy c.actor
        · exact restore_strategy c.actor
    · exact restore_strategy c.actor

theorem stepSettle_strategy (result : Except AgentError (List AgentMessage)) (w : World)
    (c : Call) : (stepSettle env result w c).actor.strategy = c.actor.strategy := by
  have h : (({ c.actor with world := w } : SessionActor).settle env result).2.strategy =
      c.actor.strategy := SessionActor.settle_strategy _ result
  rw [stepSettle]
  split
  · next hs => rw [hs] at h; exact h
  · next hs => rw [hs] at h; exact h
  · next hs => rw [hs] at h; exact h
  · next hs =>
      rw [hs] at h
      rw [(leave_spec _ _ _).1]
      exact h

theorem stepDeltas_strategy (result : Except AgentError (List AgentMessage)) (w : World)
    (c : Call) : (stepDeltas env result w c).actor.strategy = c.actor.strategy := by
  unfold stepDeltas
  cases result with
  | error e => rfl
  | ok msgs =>
      obtain ⟨u, hu⟩ := SessionActor.captureUsage_frame
        ({ c.actor with world := w } : SessionActor).enterIdle msgs
      simp only [hu]
      exact SessionActor.pushMessages_strategy _ msgs

/-- A step of a call leaves the strategy as it is. -/
theorem step_strategy (c : Call) : (c.step cfg env).actor.strategy = c.actor.strategy := by
  have hprompt {content : List Content} (hp : c.phase = .prompt content) :
      (c.step cfg env).actor.strategy = c.actor.strategy := by
    simp only [step, stepWith, hp]
    exact stepPrompt_strategy content c
  have hleave {a : SessionActor} (result : Except AgentError (List AgentMessage))
      (ha : a.strategy = c.actor.strategy) :
      (c.leave a result).actor.strategy = c.actor.strategy := by
    rw [(leave_spec c a result).1, ha]
  cases step_cases cfg env c with
  | strategy _ _ h' => rw [h']; exact SessionActor.applyContextStrategy_strategy c.actor
  | lastPrompt _ h' | notMet _ h' | started _ h' | looped _ _ h' | broken _ _ h'
  | backoffOver _ h' | belowThreshold _ _ h' | deltasLooped _ _ h' | ended _ h' =>
      exact congrArg (fun d => d.actor.strategy) h'
  | rejected hp _ _ | unprepared hp _ _ _ | prepared hp _ _ _ => exact hprompt hp
  | settled _ _ h' => rw [h', stepSettle_strategy]
  | backoffAborted _ h' => rw [h']; exact hleave _ rfl
  | compactionFailed _ _ h' | thresholdFailed _ _ h' =>
      rw [h']
      exact hleave _ (SessionActor.runAutoCompaction_strategy _ _ _)
  | compacted _ h' | thresholdCompacted _ _ h' =>
      rw [h']
      exact SessionActor.runAutoCompaction_strategy _ _ _
  | savePanicked _ h' => rw [h']; exact SessionActor.finishRun_strategy _ _
  | finished _ ha h' =>
      rw [h']
      exact hleave _ ((SessionActor.persist_strategy ha).trans
        (SessionActor.finishRun_strategy _ _))
  | deltasEnded _ _ h' => rw [h', stepDeltas_strategy]

end Call

end Pandaria.Agent

namespace Pandaria.Tenant

open Pandaria.Ai Pandaria.Agent Pandaria.Lib

variable {rt : RuntimeConfig} {env : Env}

/-! ## Tools in another session -/

namespace SessionRecord

/-- What is in the actor comes from what is in the entry, and the entry would
pass the checks of a creation. -/
structure Consistent (rt : RuntimeConfig) (s : SessionRecord) : Prop where
  tools : s.settings.tools = assembleTools rt s.settings.tenantId s.settings.sessionId
    s.originalTools s.builtinToolsEnabled s.builtinToolsDisabled
  webhook : s.settings.webhooks = s.webhook.toList
  strategy : s.call.actor.strategy = s.strategy
  endpoints : validateExternalToolEndpoints rt s.originalTools = .ok ()
  webhookUrl : ∀ w ∈ s.webhook, validateEndpoint rt "webhook_url" w.url = .ok ()

/-- A session that has just been created from `params`. -/
structure Created (rt : RuntimeConfig) (c : Creation) (tenantId : String)
    (params : CreateSessionParams) (s : SessionRecord) : Prop where
  consistent : s.Consistent rt
  tenantId : s.settings.tenantId = tenantId
  model : s.settings.model = rt.defaultModel
  systemPrompt : promptFor (params.systemPrompt.getD rt.defaultSystemPrompt) c.skills =
    some s.settings.promptBuilder
  originalTools : s.originalTools = params.tools
  builtinToolsEnabled : s.builtinToolsEnabled = params.builtinToolsEnabled
  builtinToolsDisabled : s.builtinToolsDisabled = params.builtinToolsDisabled
  webhook : s.webhook = params.webhook
  strategy : s.strategy = params.strategy
  entries : s.history.entries = []

theorem setSystemPrompt_frame (a : ActorSettings) (systemPrompt : String) :
    ∃ builder, (a.setSystemPrompt systemPrompt).getD a = { a with promptBuilder := builder } := by
  rw [ActorSettings.setSystemPrompt]
  cases promptFor systemPrompt a.skills with
  | none => exact ⟨a.promptBuilder, rfl⟩
  | some builder => exact ⟨builder, rfl⟩

/-- An update changes the model, the prompt and what is shown of them. -/
theorem updateSession_frame (u : SessionUpdates) (s : SessionRecord) :
    ∃ info model builder, s.updateSession u =
      { s with
        info := info
        settings := { s.settings with model := model, promptBuilder := builder } } := by
  have hprompt (s' : SessionRecord) (p : String) : ∃ info builder, s'.setSystemPrompt p =
      { s' with info := info, settings := { s'.settings with promptBuilder := builder } } := by
    obtain ⟨builder, hb⟩ := setSystemPrompt_frame s'.settings p
    exact ⟨_, builder, by rw [setSystemPrompt, hb]⟩
  obtain ⟨title, model, systemPrompt⟩ := u
  unfold updateSession
  cases systemPrompt with
  | none => cases title <;> cases model <;> exact ⟨_, _, _, rfl⟩
  | some p =>
      cases title <;> cases model <;>
        (obtain ⟨info, builder, h⟩ := hprompt _ p; exact ⟨info, _, builder, h⟩)

theorem Consistent.step {s : SessionRecord} (h : s.Consistent rt) (e : RecordEvent) :
    (s.step rt env e).Consistent rt := by
  have hcall {call : Call} (hc : call.actor.strategy = s.call.actor.strategy) :
      ({ s with call := call } : SessionRecord).Consistent rt :=
    { h with strategy := hc.trans h.strategy }
  cases e with
  | updateSession u =>
      rw [SessionRecord.step]
      split
      · exact h
      · obtain ⟨info, model, builder, hu⟩ := updateSession_frame u s
        rw [hu]
        exact ⟨h.tools, h.webhook, h.strategy, h.endpoints, h.webhookUrl⟩
  | sendMessage content =>
      rw [SessionRecord.step]
      split
      · exact h
      · exact hcall rfl
  | compactSession =>
      rw [SessionRecord.step]
      split
      · exact h
      · refine hcall ?_
        have hstrategy := @SessionActor.compact_strategy (s.settings.config rt) env s.call.actor
        rw [Op.begin]
        split
        · next hc => rw [hc] at hstrategy; exact hstrategy
        · next hc => rw [hc] at hstrategy; exact hstrategy
  | advance => exact hcall (Call.step_strategy s.call)

variable {c : Creation} {title : Option String} {s later new : SessionRecord}

end SessionRecord

end Pandaria.Tenant
