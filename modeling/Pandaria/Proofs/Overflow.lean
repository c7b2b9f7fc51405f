import Pandaria.Lib.Run
import Pandaria.Proofs.CallSteps

/-!
# The one compaction a context overflow is answered with

The recovery rules answer the first overflow with a compaction and a retry and
turn the next one down. The flag they keep for this is set when they answer,
before the compaction is made, and nothing but a reset of the session takes it
back: `mark_success` resets the counter of the other rule only. So the flag
says what it should as long as no run succeeds after it has been set, and the
compaction it was set for has gone through.

A session is followed here with what the flag ought to say: whether a
compact-and-retry has been performed since the last run that succeeded.
-/

namespace Pandaria.Agent

open Pandaria.Ai Pandaria.Lib

namespace RecoveryStateMachine

theorem onOverflow_abort {r r' : RecoveryStateMachine} {reason : String}
    (h : r.onOverflow = (.abort reason, r')) : r.overflowAttempted = true ∧ r' = r := by
  rw [onOverflow] at h
  split at h
  · next hf =>
      injection h with _ h
      exact ⟨hf, h.symm⟩
  · injection h with h _
    cases h

theorem onRetryable_reason {r r' : RecoveryStateMachine} {reason : String}
    (h : r.onRetryable = (.abort reason, r')) : reason = retriesAbortReason := by
  rw [onRetryable] at h
  split at h
  · injection h with h _
    injection h with h
    exact h.symm
  · injection h with h _
    cases h

end RecoveryStateMachine

/-- The flag changes with the answer to an overflow and with no other. -/
theorem SessionActor.reaction_overflowAttempted {r r' : RecoveryStateMachine}
    {result : Except AgentError (List AgentMessage)} {action : RecoveryAction}
    (h : SessionActor.reaction r result = some (action, r'))
    (hno : ∀ reason, action ≠ .retryAfterCompaction reason) :
    r'.overflowAttempted = r.overflowAttempted := by
  rcases SessionActor.reaction_cases h with hx | hx | ⟨hx, -⟩
  · rw [RecoveryStateMachine.onOverflow] at hx
    split at hx
    · injection hx with _ hx
      rw [hx]
    · injection hx with hx _
      exact absurd hx (hno _)
  · rw [← RecoveryStateMachine.onRetryable_overflowAttempted r, ← hx]
  · injection hx with _ hx
    rw [hx]

/-- The overflow failure is given out only when the flag is set. -/
theorem SessionActor.overflowAttempted_of_abort {r r' : RecoveryStateMachine}
    {result : Except AgentError (List AgentMessage)}
    (h : SessionActor.reaction r result = some (.abort overflowAbortReason, r')) :
    r.overflowAttempted = true := by
  rcases SessionActor.reaction_cases h with hx | hx | ⟨hx, -⟩
  · exact (RecoveryStateMachine.onOverflow_abort hx.symm).1
  · have := RecoveryStateMachine.onRetryable_reason hx.symm
    exact absurd this (by decide)
  · injection hx with hx _
    cases hx

/-! ## A session and its compactions -/

/-- A session, and whether a compact-and-retry has been performed since its
last successful run. -/
structure Recovering where
  call : Call
  compacted : Bool

namespace Recovering

/-- Whether the overflow flag is set. -/
def attempted (t : Recovering) : Bool := t.call.actor.machine.recovery.overflowAttempted

/-- What a step of a call changes: a retry follows the compaction, and a run
succeeds. -/
def advanced (before after : CallPhase) (compacted : Bool) : Bool :=
  match before, after with
  | .compactAndRetry, .head => true
  | .looping _, .threshold _ => false
  | .deltas _, .returned (.ok _) => false
  | _, _ => compacted

def step (cfg : SessionConfig) (env : Env) (t : Recovering) (e : SessionEvent) : Recovering :=
  { call := sessionStep cfg env t.call e
    compacted :=
      match e with
      | .advance => advanced t.call.phase (t.call.step cfg env).phase t.compacted
      | .op .reset => if t.call.inProgress then t.compacted else false
      | .op _ => t.compacted }

/-- The call is about to give up because of an overflow it has already tried
to recover from. -/
def GivesUp (t : Recovering) : Prop :=
  ∃ l result r, t.call.phase = .looping l ∧ l.phase = .returned result ∧
    SessionActor.reaction t.call.actor.machine.recovery result =
      some (.abort overflowAbortReason, r)

/-- It gives up only after a compact-and-retry, and as long as there has been
none the recovery is available. -/
structure Sound (t : Recovering) : Prop where
  givesUp : t.GivesUp → t.compacted = true
  available : t.compacted = false → t.call.phase ≠ .compactAndRetry → t.attempted = false

/-- No run succeeds once the flag is set, and the compaction of a recovery
goes through. -/
def StepOk (cfg : SessionConfig) (env : Env) (t : Recovering) (e : SessionEvent) : Prop :=
  match e with
  | .op _ => True
  | .advance =>
      match t.call.phase with
      | .looping l => ∀ result, l.phase = .returned result →
          SessionActor.Absorbs t.call.actor.machine.recovery result → t.attempted = false
      | .deltas l => ∀ msgs, l.phase = .returned (.ok msgs) → t.attempted = false
      | .compactAndRetry =>
          ∀ e, (t.call.actor.runAutoCompaction cfg env .overflow true).1 ≠ .error e
      | _ => True

/-- The flag is accounted for, and a run that has succeeded did not end in an
overflow. -/
def Inv (t : Recovering) : Prop :=
  (t.attempted = true → t.compacted = true ∨ t.call.phase = .compactAndRetry) ∧
    match t.call.phase with
    | .threshold msgs | .finish msgs =>
        ∀ m, SessionActor.lastSettled msgs = some m → isContextOverflow m = false
    | _ => True

theorem Inv.sound {t : Recovering} (h : t.Inv) : t.Sound := by
  constructor
  · rintro ⟨l, result, r, hp, -, hreact⟩
    rcases h.1 (SessionActor.overflowAttempted_of_abort hreact) with hc | hc
    · exact hc
    · rw [hp] at hc
      cases hc
  · intro hc hp
    cases ha : t.attempted with
    | false => rfl
    | true =>
        rcases h.1 ha with hc' | hc'
        · rw [hc] at hc'
          cases hc'
        · exact absurd hc' hp

/-! ## One step -/

variable {cfg : SessionConfig} {env : Env}

theorem inv_leave {c : Call} {a : SessionActor} {result : Except AgentError (List AgentMessage)}
    {compacted : Bool} (h : a.machine.recovery.overflowAttempted = true → compacted = true) :
    Inv { call := c.leave a result, compacted := compacted } := by
  obtain ⟨ha, hp⟩ := c.leave_spec a result
  refine ⟨fun hf => .inl (h ?_), ?_⟩
  · rw [attempted, ha] at hf
    exact hf
  · rcases hp with hp | ⟨g, hp⟩
    · rw [hp]; trivial
    · rw [hp]; trivial

/-- A call that ends in an error changes nothing about compactions. -/
theorem advanced_error (before : CallPhase) (e : AgentError) (compacted : Bool) :
    advanced before (.returned (.error e)) compacted = compacted := by
  cases before <;> rfl

theorem inv_leave_error {c : Call} {a : SessionActor} {e : AgentError} {before : CallPhase}
    {compacted : Bool} (h : a.machine.recovery.overflowAttempted = true → compacted = true) :
    Inv { call := c.leave a (.error e)
          compacted := advanced before (c.leave a (.error e)).phase compacted } := by
  rw [Call.leave_error, advanced_error]
  exact inv_leave h

/-- The result of a loop. -/
theorem inv_settle {c : Call} {result : Except AgentError (List AgentMessage)} {w : World}
    {l : AgentLoop} {compacted : Bool}
    (hacc : c.actor.machine.recovery.overflowAttempted = true → compacted = true)
    (hok : SessionActor.Absorbs c.actor.machine.recovery result →
      c.actor.machine.recovery.overflowAttempted = false) :
    Inv { call := c.stepSettle env result w
          compacted := advanced (.looping l) (c.stepSettle env result w).phase compacted } := by
  obtain ⟨next, machine, pushed, a, hs, ham, -, -, hstep⟩ := @Call.stepSettle_spec env result w c
  rw [hstep]
  cases hs with
  | backoff h =>
      refine ⟨fun hf => .inl (hacc ?_), trivial⟩
      rw [attempted, ham, SessionActor.reaction_overflowAttempted h nofun] at hf
      exact hf
  | compactAndRetry h => exact ⟨fun _ => .inr rfl, trivial⟩
  | unsettled hres h =>
      refine ⟨fun hf => ?_, fun m hm => ?_⟩
      · rw [attempted, ham, hok (SessionActor.Settles.absorbs (.unsettled hres h))] at hf
        cases hf
      · rw [h] at hm
        cases hm
  | absorbed hres h =>
      refine ⟨fun hf => ?_, fun m hm => ?_⟩
      · have hsame := SessionActor.reaction_overflowAttempted h nofun
        rw [attempted, ham, RecoveryStateMachine.markSuccess_overflowAttempted, hsame,
          hok (SessionActor.Settles.absorbs (.absorbed hres h))] at hf
        cases hf
      · rcases SessionActor.reaction_cases h with hx | hx | ⟨-, msgs', m', hres', hl, ho⟩
        · exact absurd (congrArg Prod.fst hx).symm (SessionActor.onOverflow_ne_continue _)
        · exact absurd (congrArg Prod.fst hx).symm (SessionActor.onRetryable_ne_continue _)
        · rw [hres] at hres'
          injection hres' with hres'
          rw [hres', hl] at hm
          injection hm with hm
          rw [← hm]
          exact ho
  | abort h he hr =>
      refine inv_leave_error fun hf => hacc ?_
      have hsame := SessionActor.reaction_overflowAttempted h nofun
      rw [ham] at hf
      rcases hr with hr | hr
      · rw [hr, hsame] at hf; exact hf
      · rw [hr, RecoveryStateMachine.markSuccess_overflowAttempted, hsame] at hf; exact hf
  | cancelled =>
      refine inv_leave_error fun hf => hacc ?_
      rw [ham] at hf
      exact hf
  | failed =>
      refine inv_leave_error fun hf => hacc ?_
      rw [ham] at hf
      exact hf

/-- The end of a run does not find an overflow. -/
theorem finishRun_overflowAttempted {msgs : List AgentMessage} {a : SessionActor}
    (h : ∀ m, SessionActor.lastSettled msgs = some m → isContextOverflow m = false) :
    (a.finishRun cfg env msgs).machine.recovery.overflowAttempted =
      a.machine.recovery.overflowAttempted := by
  rw [SessionActor.finishRun]
  split
  · next m hm =>
      rcases @SessionActor.checkCompaction_cases cfg env m a.concludeRun with
        ⟨-, hc⟩ | ⟨reason, r, hcheck, hr, hc⟩
      · rw [hc]; rfl
      · have hne : reason ≠ .overflow := by
          rintro rfl
          rcases SessionActor.compactionCheck_some hcheck with ⟨-, ho, -⟩ | ht
          · rw [h m hm] at ho; cases ho
          · cases ht
        rw [if_neg hne] at hr
        rw [hc, (SessionActor.runAutoCompaction_spec _ _ _).1, hr]
        rfl
  · rfl

theorem inv_advance (cfg : SessionConfig) (env : Env) (t : Recovering)
    (hok : StepOk cfg env t .advance) (h : t.Inv) : (step cfg env t .advance).Inv := by
  obtain ⟨c, compacted⟩ := t
  obtain ⟨hacc, hphase⟩ := h
  -- Outside of the phase before the compaction, the flag is accounted for.
  have hflag : c.phase ≠ .compactAndRetry →
      c.actor.machine.recovery.overflowAttempted = true → compacted = true := by
    intro hne hf
    rcases hacc hf with hc | hc
    · exact hc
    · exact absurd hc hne
  have hstep : step cfg env ⟨c, compacted⟩ .advance =
      { call := c.step cfg env, compacted := advanced c.phase (c.step cfg env).phase compacted } :=
    rfl
  rw [hstep]
  cases Call.step_cases cfg env c with
  | strategy hp _ h' =>
      have hflag := hflag (by rw [hp]; nofun)
      rw [h', hp]
      refine ⟨fun hf => .inl (hflag ?_), trivial⟩
      rw [attempted, (SessionActor.applyContextStrategy_spec c.actor).1] at hf
      exact hf
  | lastPrompt hp h' | notMet hp h' | started hp h' | looped hp _ h' | deltasLooped hp _ h' =>
      have hflag := hflag (by rw [hp]; nofun)
      rw [h', hp]
      exact ⟨fun hf => .inl (hflag hf), trivial⟩
  | rejected hp _ h' =>
      have hflag := hflag (by rw [hp]; nofun)
      rw [h']
      exact inv_leave_error hflag
  | unprepared hp _ ha h' =>
      have hflag := hflag (by rw [hp]; nofun)
      rw [← ha.machine] at hflag
      rw [h']
      exact inv_leave_error hflag
  | prepared hp _ ha h' =>
      have hflag := hflag (by rw [hp]; nofun)
      rw [← ha.machine] at hflag
      rw [h', hp]
      exact ⟨fun hf => .inl (hflag hf), trivial⟩
  | @settled l result hp hl h' =>
      have hflag := hflag (by rw [hp]; nofun)
      simp only [StepOk, hp] at hok
      rw [h', hp]
      exact inv_settle hflag (hok result hl)
  | broken hp _ h' =>
      have hflag := hflag (by rcases hp with hp | hp <;> (rw [hp]; nofun))
      rw [h']
      rcases hp with hp | hp
      · rw [hp]; exact ⟨fun hf => .inl (hflag hf), trivial⟩
      · rw [hp]; exact ⟨fun hf => .inl (hflag hf), trivial⟩
  | backoffAborted hp h' =>
      have hflag := hflag (by rw [hp]; nofun)
      rw [h']
      exact inv_leave_error hflag
  | backoffOver hp h' =>
      have hflag := hflag (by rw [hp]; nofun)
      rw [h', hp]
      exact ⟨fun hf => .inl (hflag hf), trivial⟩
  | compactionFailed hp hr =>
      simp only [StepOk, hp] at hok
      exact absurd hr (hok _)
  | compacted hp h' =>
      rw [h', hp]
      exact ⟨fun _ => .inl rfl, trivial⟩
  | belowThreshold hp _ h' =>
      have hflag := hflag (by rw [hp]; nofun)
      simp only [hp] at hphase
      rw [h', hp]
      exact ⟨fun hf => .inl (hflag hf), hphase⟩
  | thresholdFailed hp _ h' =>
      have hflag := hflag (by rw [hp]; nofun)
      rw [← (@SessionActor.runAutoCompaction_spec cfg env .threshold false c.actor).1] at hflag
      rw [h']
      exact inv_leave_error hflag
  | thresholdCompacted hp _ h' =>
      have hflag := hflag (by rw [hp]; nofun)
      rw [← (@SessionActor.runAutoCompaction_spec cfg env .threshold false c.actor).1] at hflag
      simp only [hp] at hphase
      rw [h', hp]
      exact ⟨fun hf => .inl (hflag hf), hphase⟩
  | savePanicked hp h' =>
      have hflag := hflag (by rw [hp]; nofun)
      simp only [hp] at hphase
      rw [← @finishRun_overflowAttempted cfg env _ c.actor hphase] at hflag
      rw [h', hp]
      exact ⟨fun hf => .inl (hflag hf), trivial⟩
  | finished hp ha h' =>
      have hflag := hflag (by rw [hp]; nofun)
      simp only [hp] at hphase
      rw [← @finishRun_overflowAttempted cfg env _ c.actor hphase,
        ← (SessionActor.persist_spec ha).1] at hflag
      rw [h', hp]
      exact inv_leave hflag
  | @deltasEnded l result hp hl h' =>
      obtain ⟨a, pushed, hs, ham, -⟩ := @Call.stepDeltas_spec env result l.locals.world c
      have hflag := hflag (by rw [hp]; nofun)
      simp only [StepOk, hp] at hok
      rw [h', hs, hp]
      refine ⟨fun hf => .inl ?_, trivial⟩
      rw [attempted, ham] at hf
      cases result with
      | error e => exact hflag hf
      | ok msgs =>
          have hno : c.actor.machine.recovery.overflowAttempted = false := hok msgs hl
          exact absurd (hno.symm.trans hf) nofun
  | ended hover h' =>
      rw [h']
      rcases hover with ⟨result, hp⟩ | hp
      · have hflag := hflag (by rw [hp]; nofun)
        rw [hp]
        exact ⟨fun hf => .inl (hflag hf), hphase⟩
      · have hflag := hflag (by rw [hp]; nofun)
        rw [hp]
        exact ⟨fun hf => .inl (hflag hf), hphase⟩

theorem inv_begin {o : Op} {a : SessionActor} {compacted : Bool}
    (h : (o.begin cfg env a).actor.machine.recovery.overflowAttempted = true → compacted = true) :
    Inv { call := o.begin cfg env a, compacted := compacted } := by
  refine ⟨fun hf => .inl (h hf), ?_⟩
  rcases @Op.begin_phase cfg env o a with
    ⟨_, hp⟩ | ⟨_, hp⟩ | ⟨_, hp⟩ | ⟨-, -, hp⟩ | ⟨_, _, _, -, hp⟩ <;> (rw [hp]; trivial)

/-- A call starts with the flag as it is, and a reset takes it back. -/
theorem begin_overflowAttempted (o : Op) (a : SessionActor) (hreset : o ≠ .reset) :
    (o.begin cfg env a).actor.machine.recovery.overflowAttempted =
      a.machine.recovery.overflowAttempted := by
  by_cases hdeltas : ∃ text, o = .completeWithDeltas text
  · obtain ⟨text, rfl⟩ := hdeltas
    rfl
  · rw [Op.begin_machine o a hreset fun text ht => hdeltas ⟨text, ht⟩]

theorem inv_op (o : Op) {t : Recovering} (h : t.Inv) : (step cfg env t (.op o)).Inv := by
  obtain ⟨c, compacted⟩ := t
  cases hidle : c.inProgress with
  | true =>
      have hsame : step cfg env ⟨c, compacted⟩ (.op o) = ⟨c, compacted⟩ := by
        cases o <;> simp only [step, sessionStep, hidle, if_true]
      rw [hsame]
      exact h
  | false =>
      have hacc : c.actor.machine.recovery.overflowAttempted = true → compacted = true := by
        intro hf
        rcases h.1 hf with hc | hc
        · exact hc
        · have hc : c.phase = .compactAndRetry := hc
          rw [Call.inProgress, hc] at hidle
          cases hidle
      by_cases hreset : o = .reset
      · subst hreset
        have hstep : step cfg env ⟨c, compacted⟩ (.op .reset) =
            { call := Op.reset.begin cfg env c.actor, compacted := false } := by
          simp only [step, sessionStep, hidle]
          rfl
        rw [hstep]
        exact inv_begin id
      · have hstep : step cfg env ⟨c, compacted⟩ (.op o) =
            { call := o.begin cfg env c.actor, compacted := compacted } := by
          cases o with
          | reset => exact absurd rfl hreset
          | _ => simp only [step, sessionStep, hidle]; rfl
        rw [hstep]
        refine inv_begin fun hf => hacc ?_
        rw [begin_overflowAttempted o c.actor hreset] at hf
        exact hf

theorem inv_step (cfg : SessionConfig) (env : Env) (t : Recovering) (e : SessionEvent)
    (hok : StepOk cfg env t e) (h : t.Inv) : (step cfg env t e).Inv := by
  cases e with
  | advance => exact inv_advance cfg env t hok h
  | op o => exact inv_op o h

/-! ## Whole sessions -/

/-- A new session, which has compacted nothing. -/
def start (cfg : SessionConfig) : Recovering := { call := newSession cfg, compacted := false }

end Recovering

end Pandaria.Agent
