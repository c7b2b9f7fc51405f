import Pandaria.Proofs.Bracketing
import Pandaria.Proofs.CallSteps

/-!
# The compactions a session announces

Every compaction a session makes of its own accord is announced before it is
prepared. `dueCompaction` is the one the next step makes, and `compacts` says
whether it is made or blocked: a compaction that can be neither prepared nor
summarised is left by `?`, and nobody is told of its end.
-/

namespace Pandaria.Agent

open Pandaria.Ai
open Pandaria.Lib

def AgentEvent.compaction? : AgentEvent → Option (Bracket CompactReason)
  | .compactionStart reason => some (.opening reason)
  | .compactionEnd reason .. => some (.closing reason)
  | _ => none

theorem compaction?_eq_none {e : AgentEvent} (h : e.isCompaction = false) :
    e.compaction? = none := by
  cases e with
  | compactionStart | compactionEnd => cases h
  | _ => rfl

/-- The compactions that have been announced and not ended. -/
def World.compactions (w : World) : Option (Multiset CompactReason) :=
  Bracket.readAll 0 (w.events.filterMap AgentEvent.compaction?)

variable {cfg : SessionConfig} {env : Env}

namespace World

variable {w w' : World}

theorem compactions_emit (w : World) (e : AgentEvent) :
    (w.emit e).compactions =
      w.compactions.bind fun open_ => Bracket.readAll open_ e.compaction?.toList := by
  have hone : [e].filterMap AgentEvent.compaction? = e.compaction?.toList := by
    rw [List.filterMap_eq_flatMap_toList, List.flatMap_singleton]
  rw [compactions, events_emit, List.filterMap_append, Bracket.readAll_append, hone]
  rfl

theorem compactions_emit_other {e : AgentEvent} (h : e.isCompaction = false) :
    (w.emit e).compactions = w.compactions := by
  rw [compactions_emit, compaction?_eq_none h]
  exact Option.bind_fun_some _

theorem compactions_tick (w : World) : (w.tick env).compactions = w.compactions := by
  rw [compactions, events_tick]
  rfl

theorem compactions_abort (w : World) : w.abort.compactions = w.compactions := by
  show Bracket.readAll 0 ((w.observe .abort).events.filterMap AgentEvent.compaction?) = _
  rw [events_observe]
  exact congrArg (fun es => Bracket.readAll 0 (es.filterMap AgentEvent.compaction?))
    (List.append_nil w.events)

end World

/-- Where no compaction is announced, none is opened or closed. -/
theorem Activity.compactions {allow : Allow} {w w' : World}
    (h : Activity env (allow.without AgentEvent.isCompaction) w w') :
    w'.compactions = w.compactions := by
  obtain ⟨es, hes, hnone⟩ := h.events
  have hfilter : es.filterMap AgentEvent.compaction? = [] :=
    List.filterMap_eq_nil_iff.mpr fun e he => compaction?_eq_none (hnone e he)
  rw [World.compactions, hes, List.filterMap_append, hfilter, List.append_nil]
  rfl

/-! ## One compaction -/

namespace SessionActor

/-- A compaction is made, or blocked: it can be prepared, and unless the hook has
an answer of its own the provider summarises it. -/
def compacts (cfg : SessionConfig) (env : Env) (reason : CompactReason) (a : SessionActor) : Bool :=
  let (decision, w) := (a.world.emit (.compactionStart reason)).await env env.onBeforeCompact
  (prepare cfg.compactor a.history.entries).isOk &&
    match decision with
    | .continue_ => (Agent.compact cfg.compactor env a.history.entries w).1.isOk
    | .block _ | .replace _ => true

theorem chooseCompaction_isOk (reason : CompactReason) (a : SessionActor) :
    ((a.emit (.compactionStart reason)).chooseCompaction cfg env).1.isOk =
      a.compacts cfg env reason := by
  rw [chooseCompaction, compacts]
  simp only [World.await]
  have hentries : (a.emit (.compactionStart reason)).history.entries = a.history.entries := rfl
  have hworld : (a.emit (.compactionStart reason)).world =
      a.world.emit (.compactionStart reason) := rfl
  rw [hentries, hworld]
  cases prepare cfg.compactor a.history.entries with
  | error e => rfl
  | ok p =>
      cases env.onBeforeCompact (a.world.emit (.compactionStart reason)).now with
      | block r => rfl
      | replace result => rfl
      | continue_ =>
          simp only []
          split
          · next hc => rw [hc]; rfl
          · next hc => rw [hc]; rfl

theorem runAutoCompaction_compactions (reason : CompactReason) (willRetry : Bool) {a : SessionActor}
    (h : a.world.compactions = some 0) :
    (a.runAutoCompaction cfg env reason willRetry).2.world.compactions = some 0 ↔
      a.compacts cfg env reason = true := by
  have hopen : ((a.emit (.compactionStart reason)).chooseCompaction cfg env).2.compactions =
      some {reason} := by
    rw [(chooseCompaction_activity (a.emit (.compactionStart reason))).compactions]
    show (a.world.emit _).compactions = _
    rw [World.compactions_emit, h]
    rfl
  have hclose {w : World} (hw : w.compactions = some {reason}) (result willRetry aborted error) :
      (w.emit (.compactionEnd reason result aborted willRetry error)).compactions = some 0 := by
    rw [World.compactions_emit, hw]
    exact (Bracket.readAll_singleton _).trans (Bracket.read_closing_singleton reason)
  rw [← chooseCompaction_isOk, runAutoCompaction]
  split
  · next e w hc =>
      rw [hc] at hopen ⊢
      refine ⟨fun h0 => ?_, fun hok => by cases hok⟩
      rw [show w.compactions = some 0 from h0] at hopen
      injection hopen with hopen
      exact absurd hopen.symm (Multiset.singleton_ne_zero reason)
  · next r w hc =>
      rw [hc] at hopen ⊢
      exact ⟨fun _ => rfl, fun _ => hclose hopen _ _ _ _⟩
  · next fromExtension result w hc =>
      rw [hc] at hopen ⊢
      refine ⟨fun _ => rfl, fun _ => ?_⟩
      show (((w.newId env).2.emit _).tick env).compactions = some 0
      rw [World.compactions_tick]
      exact hclose hopen _ _ _ _

/-- A compaction that is asked for is not announced. -/
theorem compact_compactions (a : SessionActor) :
    (a.compact cfg env).2.world.compactions = a.world.compactions := by
  have hw := (@compact_activity env cfg.compactor a.history.entries a.world).compactions
  rw [compact]
  split
  · next hc => rw [hc] at hw; exact hw
  · next hc => rw [hc] at hw; exact hw

/-- What is found to compact after a run. -/
def lastCompaction (cfg : SessionConfig) (msgs : List AgentMessage) (a : SessionActor) :
    Option CompactReason :=
  (lastSettled msgs).bind fun m => (a.concludeRun.compactionCheck cfg m).toOption.join

theorem enterRun_compactions (a : SessionActor) :
    a.enterRun.world.compactions = a.world.compactions :=
  World.compactions_emit_other rfl

theorem concludeRun_compactions (a : SessionActor) :
    a.concludeRun.world.compactions = a.world.compactions :=
  World.compactions_emit_other rfl

theorem finishRun_of_none {msgs : List AgentMessage} {a : SessionActor}
    (h : a.lastCompaction cfg msgs = none) : a.finishRun cfg env msgs = a.concludeRun := by
  rw [finishRun]
  split
  · next m hm =>
      rw [lastCompaction, hm, Option.bind_some] at h
      rw [checkCompaction]
      split
      · rfl
      · rfl
      · next hc => rw [hc] at h; cases h
      · next hc => rw [hc] at h; cases h
  · rfl

theorem finishRun_of_some {msgs : List AgentMessage} {a : SessionActor} {reason : CompactReason}
    (h : a.lastCompaction cfg msgs = some reason) :
    ∃ r, a.finishRun cfg env msgs =
      ((a.concludeRun.withRecovery r).runAutoCompaction cfg env reason false).2 := by
  rw [lastCompaction, Option.bind_eq_some_iff] at h
  obtain ⟨m, hm, h⟩ := h
  rw [finishRun, hm]
  simp only [checkCompaction]
  split
  · next hc => rw [hc] at h; cases h
  · next hc => rw [hc] at h; cases h
  · next hc =>
      rw [hc] at h
      injection h with h
      subst h
      exact ⟨_, rfl⟩
  · next hc =>
      rw [hc] at h
      injection h with h
      subst h
      exact ⟨a.concludeRun.machine.recovery, rfl⟩

end SessionActor

/-! ## Steps -/

namespace AgentLoop

theorem start_compactions (initialMessages : List AgentMessage) (w : World) :
    (start env initialMessages w).locals.world.compactions = w.compactions := by
  have hstart : Activity env turnObs w ((w.tick env).emit .agentStart) :=
    Activity.refl.tick.emitWithout rfl
  exact hstart.compactions

theorem endAgent_activity (s : LoopLocals) :
    Activity env turnObs s.world (s.endAgent env).world :=
  (Activity.refl.emitWithout rfl).tick

theorem fail_activity (e : AgentError) (s : LoopLocals) :
    Activity env turnObs s.world (fail env e s).locals.world :=
  ((Activity.refl.emitWithout rfl).emitWithout rfl).tick

/-- A loop announces no compaction. -/
theorem step_compactions (cfg : AgentLoopConfig) (l : AgentLoop) :
    (step cfg env l).locals.world.compactions = l.locals.world.compactions := by
  obtain ⟨phase, s⟩ := l
  cases phase with
  | outer | returned | panicked => rfl
  | inner =>
      have hreceive := (receiveResponse_cases cfg env s).1
      simp only [step]
      split
      · exact (endAgent_activity s).compactions
      · split
        · next e s' hr =>
            rw [hr] at hreceive
            exact (hreceive.trans (fail_activity e s')).compactions
        · next reply s' hr =>
            rw [hr] at hreceive
            exact hreceive.compactions
  | responded reply =>
      simp only [step]
      cases hf : finishTurn cfg env reply s with
      | none => rfl
      | some rs =>
          obtain ⟨r, s'⟩ := rs
          have hfinish := (finishTurn_cases hf).1
          cases r with
          | error e => exact (hfinish.trans (fail_activity e s')).compactions
          | toolUse | stop => exact hfinish.compactions
  | stopped =>
      simp only [step]
      split
      · exact (endAgent_activity s).compactions
      · rfl

end AgentLoop

namespace Call

theorem stepPrompt_compactions (content : List Content) (c : Call) :
    (stepPrompt cfg env content c).world.compactions = c.actor.world.compactions := by
  have hrestore := (@restore_spec env c.actor).2.compactions
  unfold stepPrompt
  simp only []
  split
  · rw [leave_world]
  · split
    · next name _ =>
        rw [stepSkill]
        split
        · rw [leave_world, hrestore]
        · split
          · next e w hr =>
              obtain rfl := (congrArg Prod.snd hr).symm
              rw [leave_world]
              exact (World.compactions_tick _).trans hrestore
          · next text w hr =>
              obtain rfl := (congrArg Prod.snd hr).symm
              exact (World.compactions_tick _).trans hrestore
    · exact hrestore

/-- The compaction the next step makes, and the session that makes it. -/
def dueCompaction (cfg : SessionConfig) (c : Call) : Option (CompactReason × SessionActor) :=
  match c.phase with
  | .compactAndRetry => some (.overflow, c.actor)
  | .threshold _ =>
      if cfg.compactor.config.enabled && c.actor.overThreshold cfg then some (.threshold, c.actor)
      else none
  | .finish msgs =>
      (c.actor.lastCompaction cfg msgs).map fun reason => (reason, c.actor.concludeRun)
  | _ => none

/-- Apart from that a step announces none. -/
theorem step_compactions_of_not_due {c : Call} (h : c.dueCompaction cfg = none) :
    (c.step cfg env).world.compactions = c.world.compactions := by
  cases step_cases cfg env c with
  | strategy hp hlt h' =>
      rw [h']
      simp only [world, hp]
      exact c.actor.applyContextStrategy_spec.2.compactions
  | lastPrompt hp h' | notMet hp h' | belowThreshold hp _ h' =>
      rw [h']
      simp only [world, hp]
  | @rejected content _ hp | @unprepared content _ _ hp | @prepared content _ hp =>
      have hprompt := @stepPrompt_compactions cfg env content c
      simp only [step, stepWith, hp]
      rw [hprompt, world_of_phase]
      · intro l hl
        rw [hp] at hl
        cases hl
      · intro l hl
        rw [hp] at hl
        cases hl
  | started hp h' =>
      rw [h']
      simp only [world, hp]
      exact (AgentLoop.start_compactions _ _).trans c.actor.enterRun_compactions
  | looped hp _ h' | deltasLooped hp _ h' =>
      rw [h']
      simp only [world, hp]
      exact AgentLoop.step_compactions _ _
  | @settled l result hp _ h' =>
      obtain ⟨next, machine, pushed, a, -, -, -, hw, hs⟩ :=
        @stepSettle_spec env result l.locals.world c
      rw [h', hs]
      simp only [world, hp]
      cases next with
      | backoff | compactAndRetry | absorbed => exact hw.compactions
      | fail e => exact (congrArg World.compactions (leave_world _ _ _)).trans hw.compactions
  | broken hp _ h' =>
      rw [h']
      rcases hp with hp | hp
      · simp only [world, hp]
      · simp only [world, hp]
  | backoffAborted hp h' =>
      rw [h', leave_world]
      simp only [world, hp]
      exact World.compactions_tick _
  | backoffOver hp h' =>
      rw [h']
      simp only [world, hp]
      exact World.compactions_tick _
  | compactionFailed hp | compacted hp =>
      simp only [dueCompaction, hp] at h
      cases h
  | thresholdFailed hp ht | thresholdCompacted hp ht =>
      simp only [dueCompaction, hp, ht, if_true] at h
      cases h
  | savePanicked hp h' =>
      simp only [dueCompaction, hp, Option.map_eq_none_iff] at h
      rw [h']
      simp only [world, hp]
      rw [SessionActor.finishRun_of_none h]
      exact c.actor.concludeRun_compactions
  | finished hp ha h' =>
      simp only [dueCompaction, hp, Option.map_eq_none_iff] at h
      rw [SessionActor.finishRun_of_none h] at ha
      rw [h', leave_world]
      simp only [world, hp]
      exact (SessionActor.persist_spec ha).2.2.compactions.trans c.actor.concludeRun_compactions
  | @deltasEnded l result hp _ h' =>
      obtain ⟨a, pushed, hs, -, -, hw, -⟩ := @stepDeltas_spec env result l.locals.world c
      rw [h', hs]
      simp only [world, hp]
      exact hw.compactions
  | ended _ h' => rw [h']

/-- The compaction that is due is announced, and its end if there is one. -/
theorem step_compactions_of_due {c : Call} {reason : CompactReason} {a : SessionActor}
    (h : c.dueCompaction cfg = some (reason, a)) (hc : c.world.compactions = some 0) :
    (c.step cfg env).world.compactions = some 0 ↔ a.compacts cfg env reason = true := by
  cases hp : c.phase with
  | compactAndRetry =>
      simp only [dueCompaction, hp, Option.some.injEq, Prod.mk.injEq] at h
      obtain ⟨rfl, rfl⟩ := h
      simp only [world, hp] at hc
      have hw : (c.step cfg env).world =
          (c.actor.runAutoCompaction cfg env .overflow true).2.world := by
        simp only [step, stepWith, hp]
        rcases @stepCompactAndRetry_spec cfg env c with ⟨e, -, hs⟩ | ⟨-, hs⟩
        · rw [hs, leave_world]
        · rw [hs]
          rfl
      rw [hw]
      exact SessionActor.runAutoCompaction_compactions .overflow true hc
  | threshold msgs =>
      simp only [dueCompaction, hp, Option.ite_none_right_eq_some, Option.some.injEq,
        Prod.mk.injEq] at h
      obtain ⟨hover, rfl, rfl⟩ := h
      simp only [world, hp] at hc
      have hw : (c.step cfg env).world =
          (c.actor.runAutoCompaction cfg env .threshold false).2.world := by
        simp only [step, stepWith, hp]
        rcases @stepThreshold_spec cfg env msgs c with ⟨-, hbelow⟩ | ⟨-, ⟨e, hs⟩ | hs⟩
        · rw [hover] at hbelow
          cases hbelow
        · rw [hs, leave_world]
        · rw [hs]
          rfl
      rw [hw]
      exact SessionActor.runAutoCompaction_compactions .threshold false hc
  | finish msgs =>
      simp only [dueCompaction, hp, Option.map_eq_some_iff, Prod.mk.injEq] at h
      obtain ⟨reason, hlast, rfl, rfl⟩ := h
      obtain ⟨r, hfinish⟩ := @SessionActor.finishRun_of_some cfg env _ _ _ hlast
      simp only [world, hp] at hc
      have hw : (c.step cfg env).world.compactions =
          (c.actor.finishRun cfg env msgs).world.compactions := by
        simp only [step, stepWith, hp]
        rcases @stepFinish_spec cfg env msgs c with hs | ⟨a, ha, hs⟩
        · rw [hs]
          rfl
        · rw [hs, leave_world]
          exact (SessionActor.persist_spec ha).2.2.compactions
      rw [hw, hfinish]
      exact SessionActor.runAutoCompaction_compactions reason false
        (c.actor.concludeRun_compactions.trans hc)
  | attempt | prompt | head | looping | backoff | deltas | returned | panicked =>
      simp only [dueCompaction, hp] at h
      cases h

/-- The compaction a step makes is made or blocked. -/
def ClosesCompactions (cfg : SessionConfig) (env : Env) (c : Call) : SessionEvent → Prop
  | .advance => ∀ due ∈ c.dueCompaction cfg, due.2.compacts cfg env due.1 = true
  | .op _ => True

theorem begin_compactions (o : Op) {a : SessionActor} (h : a.world.compactions = some 0) :
    (o.begin cfg env a).world.compactions = some 0 := by
  cases o with
  | prompt text =>
      rw [Op.begin, prompt]
      split
      · rfl
      · rfl
      · split
        · rfl
        · split <;> rfl
  | promptWithContent content => rfl
  | continue_ =>
      rw [Op.begin, continue_]
      split <;> rfl
  | completeWithDeltas text =>
      exact (AgentLoop.start_compactions _ _).trans (SessionActor.enterRun_compactions _)
  | compact =>
      have hcompact := (a.compact_compactions : (a.compact cfg env).2.world.compactions = _).trans h
      rw [Op.begin]
      split
      · next hr => rw [hr] at hcompact; exact hcompact
      · next hr => rw [hr] at hcompact; exact hcompact
  | pushMessage | steer | followUp | setMaxRetries | setStrategy => exact h
  | abort | reset => exact (World.compactions_abort _).trans h
  | flush =>
      have hsaved : (if a.history.lastSave then a.tick env else a).world.compactions = some 0 := by
        split
        · exact (World.compactions_tick _).trans h
        · exact h
      simp only [Op.begin]
      split
      · exact hsaved
      · split
        · next hr =>
            obtain rfl := (congrArg Prod.snd hr).symm
            exact (World.compactions_tick _).trans hsaved
        · next hr =>
            obtain rfl := (congrArg Prod.snd hr).symm
            exact (World.compactions_tick _).trans hsaved

end Call

theorem closed_sessionStep {c : Call} (h : c.world.compactions = some 0) (e : SessionEvent) :
    (sessionStep cfg env c e).world.compactions = some 0 ↔ c.ClosesCompactions cfg env e := by
  cases e with
  | advance =>
      cases hdue : c.dueCompaction cfg with
      | none =>
          simp only [sessionStep, Call.ClosesCompactions, hdue]
          rw [Call.step_compactions_of_not_due hdue, h]
          simp
      | some due =>
          simp only [sessionStep, Call.ClosesCompactions, hdue, Option.mem_some_iff, forall_eq']
          exact Call.step_compactions_of_due hdue h
  | op o =>
      simp only [sessionStep, Call.ClosesCompactions, iff_true]
      split
      · exact h
      · next hover =>
          have hworld : c.world = c.actor.world := by
            refine Call.world_of_phase (fun l hl => ?_) (fun l hl => ?_)
            · exact hover (by rw [Call.inProgress, hl])
            · exact hover (by rw [Call.inProgress, hl])
          rw [hworld] at h
          exact Call.begin_compactions o h

/-- Throughout a session every compaction announced has been ended exactly if each
of them was made or blocked. -/
theorem closed_iff_closesCompactions (cfg : SessionConfig) (env : Env)
    (events : List SessionEvent) :
    (∀ n, ((events.take n).foldl (sessionStep cfg env) (newSession cfg)).world.compactions =
        some 0) ↔
      Along (sessionStep cfg env) (Call.ClosesCompactions cfg env) (newSession cfg) events := by
  have hstep (c : Call) (e : SessionEvent) (h : c.world.compactions = some 0) :
      (sessionStep cfg env c e).world.compactions = some 0 ↔ c.ClosesCompactions cfg env e :=
    closed_sessionStep h e
  exact along_iff_forall_take hstep rfl events

/-! ## Both kinds of brackets -/

/-- A run of a loop keeps what a client is promised exactly as long as its steps
are orderly, and a session its compactions exactly as long as each of them is made
or blocked. -/
theorem brackets_iff (cfg : AgentLoopConfig) (env : Env) (initialMessages : List AgentMessage)
    (w : World) (n : Nat) (sessionCfg : SessionConfig) (sessionEnv : Env)
    (events : List SessionEvent) :
    ((∀ i ≤ n, (AgentLoop.run cfg env initialMessages { w with trace := [] } i).WellBracketed) ↔
      OkFor (AgentLoop.step cfg env) (AgentLoop.Orderly cfg env)
        (AgentLoop.start env initialMessages { w with trace := [] }) n) ∧
    ((∀ n, ((events.take n).foldl (sessionStep sessionCfg sessionEnv)
        (newSession sessionCfg)).world.compactions = some 0) ↔
      Along (sessionStep sessionCfg sessionEnv) (Call.ClosesCompactions sessionCfg sessionEnv)
        (newSession sessionCfg) events) :=
  ⟨AgentLoop.wellBracketed_iff_orderly cfg env initialMessages w n,
    closed_iff_closesCompactions sessionCfg sessionEnv events⟩

/-- The provider finds every request too long, that for a summary as well. -/
def overlong : Env :=
  { Env.quiet with stream := fun _ => .ok (complaining "context length exceeded") }

/-- A prompt up to its compaction. -/
def overlongPrompt : List SessionEvent :=
  .op (.promptWithContent [.text "hello" none]) :: List.replicate 7 .advance

/-- A request fails and leaves its turn open, a summary fails and leaves its
compaction open. -/
theorem not_brackets :
    ¬ (AgentLoop.run (plainConfig 0).loop .quiet [] .fresh 2).WellBracketed ∧
      (overlongPrompt.foldl (sessionStep (plainConfig 0) overlong)
        (newSession (plainConfig 0))).world.compactions = some {.overflow} :=
  ⟨AgentLoop.not_wellBracketed (by decide), by decide +kernel⟩

end Pandaria.Agent
