import Pandaria.Proofs.NextRequest
import Pandaria.Proofs.Requests

/-!
# When a steered message is heard

`steer` puts a message into a queue, and the agent loop empties the queue at
the head of its outer loop. A turn that asks for tools goes back to the head of
the inner one, so a message that comes while the tools run is not in the
context of the request that follows, nor in that of any later one of the same
turn of the outer loop. The same goes for what comes while the hooks of the
request are asked, or while it backs off.

`taken` is what a run has taken out of the queue. It and the queue together are
always all that was steered (`accounted_run`), so a request has heard
everything exactly if the queue is empty when it is made.
-/

namespace Pandaria.Agent

open Pandaria.Ai Pandaria.Lib

variable {cfg : AgentLoopConfig} {env : Env}

/-! ## Arrivals -/

/-- What is steered during the awaits from `a` up to `b`. -/
def arrivals (env : Env) (a b : Nat) : List AgentMessage :=
  (List.range' a (b - a)).flatMap env.steer

theorem arrivals_self (a : Nat) : arrivals env a a = [] := by
  simp [arrivals]

theorem arrivals_succ {a b : Nat} (h : a ≤ b) :
    arrivals env a (b + 1) = arrivals env a b ++ env.steer b := by
  have hlength : b + 1 - a = b - a + 1 := by omega
  have hlast : a + (b - a) = b := by omega
  rw [arrivals, arrivals, hlength, List.range'_1_concat, hlast]
  simp

theorem arrivals_append {a b c : Nat} (hab : a ≤ b) (hbc : b ≤ c) :
    arrivals env a c = arrivals env a b ++ arrivals env b c := by
  induction c, hbc using Nat.le_induction with
  | base => rw [arrivals_self, List.append_nil]
  | succ c hbc ih => rw [arrivals_succ (Nat.le_trans hab hbc), arrivals_succ hbc, ih,
      List.append_assoc]

theorem arrivals_eq_nil_iff {a b : Nat} :
    arrivals env a b = [] ↔ ∀ k, a ≤ k → k < b → env.steer k = [] := by
  rw [arrivals, List.flatMap_eq_nil_iff]
  constructor
  · intro h k hak hkb
    apply h
    rw [List.mem_range'_1]
    omega
  · intro h k hk
    rw [List.mem_range'_1] at hk
    apply h <;> omega

/-- Time passes, and the queue grows by what is steered meanwhile. -/
theorem Activity.steered {allow : Allow} {w w' : World} (h : Activity env allow w w') :
    w.now ≤ w'.now ∧ w'.steerQueue = w.steerQueue ++ arrivals env w.now w'.now := by
  induction h with
  | refl => exact ⟨Nat.le_refl _, by rw [arrivals_self, List.append_nil]⟩
  | observe _ _ _ ih => exact ih
  | @tick w₁ _ ih =>
    obtain ⟨hle, hqueue⟩ := ih
    refine ⟨Nat.le_succ_of_le hle, ?_⟩
    show w₁.steerQueue ++ env.steer w₁.now = w.steerQueue ++ arrivals env w.now (w₁.now + 1)
    rw [hqueue, arrivals_succ hle, List.append_assoc]
  | newId _ ih => exact ih

/-- Everything that is in the queue of `w`, or is steered from then on up to
`w'`. -/
def steeredBy (env : Env) (w w' : World) : List AgentMessage :=
  w.steerQueue ++ arrivals env w.now w'.now

/-! ## The two lists -/

/-- The context is `base` and what the loop will return after it. -/
def LoopLocals.On (base : List AgentMessage) (s : LoopLocals) : Prop :=
  s.messages = base ++ s.newMessages

theorem LoopLocals.On.push {base ms : List AgentMessage} {s : LoopLocals} (h : s.On base) :
    (s.push ms).On base := by
  show s.messages ++ ms = base ++ (s.newMessages ++ ms)
  rw [show s.messages = base ++ s.newMessages from h, List.append_assoc]

theorem receiveResponse_on {base : List AgentMessage} {s : LoopLocals} (h : s.On base) :
    (receiveResponse cfg env s).2.On base := by
  rw [receiveResponse]
  simp only []
  split
  · exact h
  · exact LoopLocals.On.push h

theorem finishTurn_on {base : List AgentMessage} {reply : AssistantMessage} {s s' : LoopLocals}
    {r : TurnResult} (hturn : finishTurn cfg env reply s = some (r, s')) (h : s.On base) :
    s'.On base := by
  rw [finishTurn] at hturn
  split at hturn
  · cases hturn
    exact h
  · split at hturn
    · cases hturn
      exact h
    · obtain ⟨⟨results, w⟩, _, hturn⟩ := Option.map_eq_some_iff.mp hturn
      cases hturn
      exact LoopLocals.On.push h

namespace AgentLoop

theorem step_on {base : List AgentMessage} {l : AgentLoop} (h : l.locals.On base) :
    (step cfg env l).locals.On base := by
  obtain ⟨phase, s⟩ := l
  cases phase with
  | outer => exact LoopLocals.On.push h
  | inner =>
    rw [step]
    simp only []
    split
    · exact h
    · have hreceived := @receiveResponse_on cfg env base s h
      split
      · next hr =>
        rw [hr] at hreceived
        exact hreceived
      · next hr =>
        rw [hr] at hreceived
        exact hreceived
  | responded reply =>
    rw [step]
    simp only []
    split
    · exact h
    all_goals
      next hturn =>
        have hturned := finishTurn_on hturn h
        exact hturned
  | stopped =>
    rw [step]
    simp only []
    split
    · exact h
    · exact LoopLocals.On.push h
  | returned _ => exact h
  | panicked => exact h

/-- The messages a run starts from: those it is given, or those of the hook. -/
def initialContext (env : Env) (initialMessages : List AgentMessage) (w : World) :
    List AgentMessage :=
  (env.onBeforeAgentStart w.now).getD initialMessages

theorem run_on (initialMessages : List AgentMessage) (w : World) (n : Nat) :
    (run cfg env initialMessages w n).locals.On (initialContext env initialMessages w) := by
  have hstart : (start env initialMessages w).locals.On (initialContext env initialMessages w) :=
    (List.append_nil _).symm
  exact @iterate_invariant _ (step cfg env) (fun l => l.locals.On _) (fun _ => step_on) _ hstart n

/-! ## What has been taken out of the queue -/

/-- What a run has taken out of the steer queue in `n` steps. -/
def taken (cfg : AgentLoopConfig) (env : Env) (initialMessages : List AgentMessage) (w : World) :
    Nat → List AgentMessage
  | 0 => []
  | n + 1 =>
      let l := run cfg env initialMessages w n
      taken cfg env initialMessages w n ++
        match l.phase with
        | .outer => l.locals.world.steerQueue
        | _ => []

theorem run_succ (initialMessages : List AgentMessage) (w : World) (n : Nat) :
    run cfg env initialMessages w (n + 1) = step cfg env (run cfg env initialMessages w n) :=
  Function.iterate_succ_apply' _ _ _

/-- A step takes the whole queue at the head of the outer loop, and nothing
elsewhere. -/
inductive Takes (env : Env) (l : AgentLoop) (s' : LoopLocals) : Prop where
  | all (phase : l.phase = .outer) (now : s'.world.now = l.locals.world.now)
      (queue : s'.world.steerQueue = [])
      (new : s'.newMessages = l.locals.newMessages ++ l.locals.world.steerQueue)
  | nothing (phase : l.phase ≠ .outer) (later : l.locals.world.now ≤ s'.world.now)
      (queue : s'.world.steerQueue =
        l.locals.world.steerQueue ++ arrivals env l.locals.world.now s'.world.now)
      (kept : l.locals.newMessages.Sublist s'.newMessages)

theorem takes_turned {l : AgentLoop} {s' : LoopLocals} {added : List AgentMessage}
    (phase : l.phase ≠ .outer) (h : Turned env l.locals s' added) : Takes env l s' :=
  .nothing phase h.world.steered.1 h.world.steered.2
    (h.newMessages ▸ List.sublist_append_left _ added)

theorem takes_same {l : AgentLoop} {s' : LoopLocals} (phase : l.phase ≠ .outer)
    (now : s'.world.now = l.locals.world.now)
    (queue : s'.world.steerQueue = l.locals.world.steerQueue)
    (kept : l.locals.newMessages.Sublist s'.newMessages) : Takes env l s' :=
  .nothing phase (Nat.le_of_eq now.symm)
    (by rw [queue, now, arrivals_self, List.append_nil]) kept

theorem step_takes (l : AgentLoop) : Takes env l (step cfg env l).locals := by
  cases step_cases cfg env l with
  | drainSteer h h' =>
    rw [h']
    exact .all h rfl rfl rfl
  | drainFollowUp h h' =>
    rw [h']
    exact takes_same (by simp [h]) rfl rfl (List.sublist_append_left _ _)
  | done h _ hs => exact takes_turned (by simp [h]) hs
  | cancelled h _ _ hs => exact takes_turned (by simp [h]) hs
  | refused h _ _ hs => exact takes_turned (by simp [h]) hs
  | received h _ hs => exact takes_turned (by simp [h]) hs
  | rejected h _ _ hs => exact takes_turned (by simp [h]) hs
  | turned h _ _ hs => exact takes_turned (by simp [h]) hs
  | broken h h' =>
    rw [h']
    exact takes_same (by simp [h]) rfl rfl (List.Sublist.refl _)
  | ended h h' =>
    rw [h']
    refine takes_same ?_ rfl rfl (List.Sublist.refl _)
    rcases h with ⟨_, h⟩ | h
    · simp [h]
    · simp [h]

/-- What has been taken stands among the new messages, and all that has been
steered is what has been taken and what is still in the queue. -/
structure Accounted (env : Env) (w : World) (taken : List AgentMessage) (s : LoopLocals) :
    Prop where
  later : w.now ≤ s.world.now
  kept : taken.Sublist s.newMessages
  steered : steeredBy env w s.world = taken ++ s.world.steerQueue

theorem accounted_run (initialMessages : List AgentMessage) (w : World) (n : Nat) :
    Accounted env w (taken cfg env initialMessages w n)
      (run cfg env initialMessages w n).locals := by
  induction n with
  | zero =>
    refine ⟨Nat.le_succ _, List.Sublist.refl _, ?_⟩
    show w.steerQueue ++ arrivals env w.now (w.now + 1) = [] ++ (w.steerQueue ++ env.steer w.now)
    rw [arrivals_succ (Nat.le_refl _), arrivals_self, List.nil_append, List.nil_append]
  | succ n ih =>
    obtain ⟨hlater, hkept, hsteered⟩ := ih
    rw [steeredBy] at hsteered
    rw [run_succ, taken]
    cases @step_takes cfg env (run cfg env initialMessages w n) with
    | all phase now queue new =>
      simp only [phase]
      refine ⟨now ▸ hlater, ?_, ?_⟩
      · rw [new]
        exact hkept.append (List.Sublist.refl _)
      · rw [steeredBy, now, hsteered, queue, List.append_nil]
    | nothing phase later queue kept =>
      simp only [List.append_nil]
      refine ⟨Nat.le_trans hlater later, hkept.trans kept, ?_⟩
      rw [steeredBy, arrivals_append hlater later, ← List.append_assoc, hsteered, queue,
        List.append_assoc]

end AgentLoop

/-! ## When a request is made -/

theorem RequestAttempt.outcome_activity (cfg : AgentLoopConfig) (env : Env) (t : RequestAttempt) :
    Activity env anyObs t.world (t.outcome cfg env).2 := by
  rw [outcome]
  split
  · exact .refl
  · have hasked : Activity env anyObs t.world (((t.world.emit
        (.messageStart t.messageIndex)).observe (.stream t.messages)).tick env) :=
      ((Activity.refl.emitAny _).observe (.stream t.messages) rfl).tick
    have hread : ∀ events w, Activity env anyObs w
        (readStream env t.messageIndex events (.start cfg) w).2 :=
      fun events w => (readStream_activity _ events _ w).without_le.any
    split
    · next e w hw =>
      obtain rfl := (congrArg Prod.snd hw).symm
      exact hasked
    · next events w hw =>
      obtain rfl := (congrArg Prod.snd hw).symm
      split
      · next hr =>
        obtain rfl := (congrArg Prod.snd hr).symm
        exact hasked.trans (hread _ _)
      · next hr =>
        obtain rfl := (congrArg Prod.snd hr).symm
        exact hasked.trans (hread _ _)

theorem RequestAttempt.next_activity {t t' : RequestAttempt} (h : t.next cfg env = some t') :
    Activity env anyObs t.world t'.world ∧ t'.messages = t.messages := by
  have houtcome := t.outcome_activity cfg env
  rw [next] at h
  split at h
  · next o w left ho _ =>
    rw [ho] at houtcome
    split at h
    · cases h
      exact ⟨(houtcome.trans (recordCircuit_activity cfg w).without_le.any).trans
        (autoRetry_activity _ _ _ _).without_le.any, rfl⟩
    · cases h
  · cases h

namespace AgentLoop

theorem First.activity {l : AgentLoop} {t : RequestAttempt} (h : l.First cfg env t) :
    Activity env anyObs l.locals.world t.world ∧
      t.messages = cfg.transformMessages (nextContext env l.locals) := by
  obtain ⟨w, hprepared, hadmitted⟩ := h.admitted
  have hprep : Activity env anyObs l.locals.world
      (prepareRequest cfg env { l.locals with turnIndex := l.locals.turnIndex + 1 }).2 :=
    (Activity.refl.emitAny _).tick.tick
  have hmessages := prepareRequest_messages cfg env l.locals
  rw [hprepared] at hprep hmessages
  refine ⟨?_, hmessages⟩
  split at hadmitted
  · have hcircuit : t.world = w.tick env := (congrArg Prod.snd hadmitted).symm
    rw [hcircuit]
    exact hprep.tick
  · rw [hadmitted]
    exact hprep

theorem Attempts.activity {l : AgentLoop} {t : RequestAttempt} (h : l.Attempts cfg env t) :
    Activity env anyObs l.locals.world t.world ∧
      t.messages = cfg.transformMessages (nextContext env l.locals) := by
  obtain ⟨t₀, hfirst, hsteps⟩ := h
  induction hsteps with
  | refl => exact hfirst.activity
  | tail _ hnext ih =>
    obtain ⟨hnow, hsame⟩ := RequestAttempt.next_activity hnext
    exact ⟨ih.1.trans hnow, hsame.trans ih.2⟩

/-! ## Heard in time -/

/-- Nothing is in the queue when the turn starts, and nothing comes until the
request is made: that is, nothing was steered since the loop last took the
queue. -/
def SteeredInTime (env : Env) (l : AgentLoop) (t : RequestAttempt) : Prop :=
  l.locals.world.steerQueue = [] ∧
    ∀ k, l.locals.world.now ≤ k → k < t.world.now → env.steer k = []

/-- A message is in the context of a request: it is among the messages the
hooks are shown, and where they leave these alone, among those the provider is
sent. -/
def InContext (cfg : AgentLoopConfig) (env : Env) (l : AgentLoop) (t : RequestAttempt)
    (m : AgentMessage) : Prop :=
  m ∈ l.locals.messages ∧
    (env.onContext l.locals.world.now = none →
      (env.onBeforeProviderRequest (l.locals.world.now + 1)).messages = none →
      ∃ context, t.messages = cfg.transformMessages context ∧ m ∈ context)

theorem Attempts.inContext {l : AgentLoop} {t : RequestAttempt} {m : AgentMessage}
    (h : l.Attempts cfg env t) (hm : m ∈ l.locals.messages) : InContext cfg env l t m :=
  ⟨hm, fun hcontext hrequest => ⟨_, h.activity.2, mem_nextContext hcontext hrequest hm⟩⟩

/-- The queue is empty when the request is made. -/
theorem Attempts.queue_eq_nil_iff {l : AgentLoop} {t : RequestAttempt} (h : l.Attempts cfg env t) :
    t.world.steerQueue = [] ↔ SteeredInTime env l t := by
  rw [h.activity.1.steered.2, List.append_eq_nil_iff, arrivals_eq_nil_iff]
  rfl

/-- At every point of a run the context is the messages it starts from and
those it will return. What has been taken out of the steer queue is in the
context of every request; and it is all that was steered before the request,
exactly where nothing has been steered since the queue was last taken. -/
theorem heard_iff (cfg : AgentLoopConfig) (env : Env) (initialMessages : List AgentMessage)
    (w : World) (n : Nat) :
    (run cfg env initialMessages w n).locals.messages =
        initialContext env initialMessages w ++
          (run cfg env initialMessages w n).locals.newMessages ∧
      ∀ t, (run cfg env initialMessages w n).Attempts cfg env t →
        (∀ m ∈ taken cfg env initialMessages w n,
          InContext cfg env (run cfg env initialMessages w n) t m) ∧
        (steeredBy env w t.world = taken cfg env initialMessages w n ↔
          SteeredInTime env (run cfg env initialMessages w n) t) := by
  have hon := @run_on cfg env initialMessages w n
  refine ⟨hon, ?_⟩
  intro t ht
  obtain ⟨hlater, hkept, hsteered⟩ := @accounted_run cfg env initialMessages w n
  obtain ⟨hnow, hqueue⟩ := ht.activity.1.steered
  constructor
  · intro m hm
    apply ht.inContext
    rw [hon]
    exact List.mem_append_right _ (hkept.subset hm)
  · have hall : steeredBy env w t.world =
        taken cfg env initialMessages w n ++ t.world.steerQueue := by
      rw [steeredBy] at hsteered ⊢
      rw [arrivals_append hlater hnow, ← List.append_assoc, hsteered, hqueue, List.append_assoc]
    rw [hall, List.append_right_eq_self, ht.queue_eq_nil_iff]

/-! ## A message that comes while a tool runs -/

/-- As `callingEnv`, with a message steered while the tool of the first turn
is running. -/
def steeringEnv : Env :=
  { callingEnv with steer := fun n => if n = 8 then [userText "s"] else [] }

/-- It is in the queue when the second turn asks the provider, and not in the
context. -/
theorem steered_unheard :
    ∃ t, (run toolConfig steeringEnv [] .fresh 3).Attempts toolConfig steeringEnv t ∧
      userText "s" ∈ t.world.steerQueue ∧
      userText "s" ∉ (run toolConfig steeringEnv [] .fresh 3).locals.messages ∧
      userText "s" ∉ t.messages := by
  refine ⟨⟨_, 1, 0, 0, _⟩, ⟨_, ⟨rfl, rfl, rfl, rfl, _, rfl, rfl⟩, .refl⟩, ?_, ?_, ?_⟩
  · decide
  · decide
  · decide

end AgentLoop

end Pandaria.Agent
