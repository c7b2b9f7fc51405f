import Pandaria.Lib.Run
import Pandaria.Proofs.Listener

/-!
# The brackets of a run

`WellBracketed` is what a client is promised of a loop, at each of its phases:
everything so far has had its place, and a loop that has returned has closed the
run, with one error if it failed. `Orderly` is what a step needs for that. It is
not a safe bet: wherever `run_turn` leaves a turn early, by `?` or with a
rejected response, no `TurnEnd` is sent, and where the token's branch drops a
call no end of it is.
-/

namespace Pandaria.Agent

open Pandaria.Ai
open Pandaria.Lib

/-- What a listener knows that has heard everything. -/
def World.listener (w : World) : Option Listener := Listener.new.hearAll w.events

namespace World

variable {env : Env} {w w' : World}

theorem listener_emit (w : World) (e : AgentEvent) :
    (w.emit e).listener = w.listener.bind fun c => c.hear e := by
  rw [listener, events_emit, Listener.hearAll_append]
  exact congrArg _ (funext fun c => Option.bind_fun_some _)

theorem listener_tick : (w.tick env).listener = w.listener :=
  congrArg Listener.new.hearAll (events_tick w)

end World

theorem InTurn.listener {w w' : World} {es : List AgentEvent} {tools : Multiset String}
    (h : InTurn w w' es tools) {c : Listener} (hw : w.listener = some c)
    (hp : c.phase = .during) (ht : c.turn.isSome = true) :
    w'.listener = some { c with tools := tools + c.tools } := by
  have hw : Listener.new.hearAll w.events = some c := hw
  rw [World.listener, h.events, Listener.hearAll_append, hw]
  exact h.hearAll hp ht

/-! ## A turn -/

variable {cfg : AgentLoopConfig} {env : Env}

/-- What a loop between two turns has been heard of. -/
def Listener.idle : Listener := ⟨.during, none, 0, 0⟩

/-- And in turn `i`. -/
def Listener.within (i : Nat) : Listener := ⟨.during, some i, 0, 0⟩

/-- The request of a turn, up to the provider's answer. -/
theorem request_listener {s : LoopLocals} (h : s.world.listener = some .idle)
    {messages : List AgentMessage} {maxRetries messageIndex : Nat} {w w' : World}
    {r : Except AgentError (Nat × AssistantMessage)}
    (hw : w.events = (s.world.emit (.turnStart (s.turnIndex + 1))).events)
    (hcall : callLlmWithRetry cfg env messages maxRetries messageIndex w = (r, w')) :
    w'.listener = some (.within (s.turnIndex + 1)) := by
  obtain ⟨es, hes⟩ := (callLlmWithRetry_activity cfg messages maxRetries messageIndex w).inTurn
  rw [hcall] at hes
  have hstart : w.listener = some (.within (s.turnIndex + 1)) := by
    rw [World.listener, hw, ← World.listener, World.listener_emit, h]
    rfl
  exact hes.listener hstart rfl rfl

theorem prepareRequest_events (s : LoopLocals) :
    (prepareRequest cfg env s).2.events = (s.world.emit (.turnStart s.turnIndex)).events :=
  (World.events_tick _).trans (World.events_tick _)

theorem receiveResponse_ok_listener {s s' : LoopLocals} (h : s.world.listener = some .idle)
    {reply : AssistantMessage} (hr : receiveResponse cfg env s = (.ok reply, s')) :
    s'.world.listener = some (.within s'.turnIndex) := by
  rw [receiveResponse] at hr
  simp only [] at hr
  split at hr
  · injection hr with hr _
    cases hr
  · next n reply w hcall =>
      injection hr with _ hr
      subst hr
      show (((w.tick env).emit _).listener) = _
      rw [World.listener_emit, World.listener_tick,
        request_listener h (prepareRequest_events _) hcall]
      rfl

/-- A turn whose request fails has reported the error and is still open. -/
theorem receiveResponse_error_listener {s s' : LoopLocals} (h : s.world.listener = some .idle)
    {e : AgentError} (hr : receiveResponse cfg env s = (.error e, s')) :
    ∃ i, s'.world.listener = some ⟨.during, some i, 0, 1⟩ := by
  rw [receiveResponse] at hr
  simp only [] at hr
  split at hr
  · next hcall =>
      injection hr with _ hr
      subst hr
      refine ⟨s.turnIndex + 1, ?_⟩
      rw [World.listener_emit, request_listener h (prepareRequest_events _) hcall]
      rfl
  · injection hr with hr _
    cases hr

/-- A listener takes no `AgentEnd` in an open turn. -/
theorem hear_agentEnd_open {c : Listener} (ht : c.turn.isSome = true) (ms : List AgentMessage) :
    c.hear (.agentEnd ms) = none := by
  refine if_neg fun h => ?_
  rw [h.2.1] at ht
  cases ht

/-- So a run that fails in an open turn loses its listener. -/
theorem fail_listener {s : LoopLocals} {c : Listener} (h : s.world.listener = some c)
    (ht : c.turn.isSome = true) (e : AgentError) :
    (AgentLoop.fail env e s).locals.world.listener = none := by
  show ((((s.world.emit _).emit _).tick env).listener) = none
  rw [World.listener_tick, World.listener_emit, World.listener_emit, h, Option.bind_eq_none_iff]
  intro c' hc'
  simp only [Option.bind_some, Listener.hear] at hc'
  split at hc'
  · injection hc' with hc'
    have hopen : c'.turn.isSome = true := by rw [← hc']; exact ht
    exact hear_agentEnd_open hopen _
  · cases hc'

/-- The token's branch drops none of the calls of a response. -/
def sparesAll (cfg : AgentLoopConfig) (env : Env) (calls : List ToolCall) (w : World) : Bool :=
  useSequential cfg.tools calls || spares env cfg.tools w.cancelled calls w

theorem endTurn_listener {s : LoopLocals} {tools : Multiset String}
    (h : s.world.listener = some ⟨.during, some s.turnIndex, tools, 0⟩) :
    (s.endTurn env).world.listener = if tools = 0 then some .idle else none := by
  show (((s.world.emit _).tick env).listener) = _
  rw [World.listener_tick, World.listener_emit, h]
  simp only [Option.bind_some, Listener.hear, true_and]
  split
  · next h0 => rw [h0]; rfl
  · rfl

/-- A turn with a response to go on from ends with its end, and a call that was
dropped is still running then. -/
theorem finishTurn_listener {reply : AssistantMessage} {s s' : LoopLocals} {r : TurnResult}
    (h : s.world.listener = some (.within s.turnIndex)) (hrej : rejection reply = none)
    (hf : finishTurn cfg env reply s = some (r, s')) :
    s'.world.listener =
      if sparesAll cfg env reply.toolCalls s.world = true then some .idle else none := by
  simp only [finishTurn, hrej] at hf
  split at hf
  · next hcalls =>
      injection hf with hf
      injection hf with _ hf
      subst hf
      rw [List.isEmpty_iff.mp hcalls]
      have hspares : sparesAll cfg env [] s.world = true := Bool.or_true _
      rw [if_pos hspares, endTurn_listener h]
      exact if_pos rfl
  · simp only [Option.map_eq_some_iff, Prod.mk.injEq] at hf
    obtain ⟨⟨results, w⟩, hexec, -, rfl⟩ := hf
    obtain ⟨es, ids, hes, hids⟩ := executeTools_inTurn hexec
    have hafter := hes.listener h rfl rfl
    rw [endTurn_listener hafter]
    refine if_congr ?_ rfl rfl
    rw [sparesAll, ← hids]
    exact Iff.of_eq (congrArg (· = 0) (Multiset.add_zero ids))

/-! ## A run -/

namespace AgentLoop

/-- What a client is promised, phase by phase. A run that never comes back keeps
nothing of it. -/
def WellBracketed (l : AgentLoop) : Prop :=
  ∃ c, l.locals.world.listener = some c ∧
    match l.phase with
    | .returned (.ok _) => c.phase = .over
    | .returned (.error _) => c.phase = .over ∧ c.errors = 1
    | .panicked => False
    | .outer | .inner | .responded _ | .stopped => True

/-- What a listener knows of an orderly loop at each of its phases. -/
def heard (l : AgentLoop) : Option Listener :=
  match l.phase with
  | .outer | .inner | .stopped => some .idle
  | .responded _ => some (.within l.locals.turnIndex)
  | .returned (.ok _) => some ⟨.over, none, 0, 0⟩
  | .returned (.error _) | .panicked => none

def Heard (l : AgentLoop) : Prop :=
  l.locals.world.listener = l.heard ∧ l.heard.isSome = true

/-- The request of the next turn is answered. -/
def answers (cfg : AgentLoopConfig) (env : Env) (s : LoopLocals) : Bool :=
  let ((messages, maxRetries), w) :=
    prepareRequest cfg env { s with turnIndex := s.turnIndex + 1 }
  (callLlmWithRetry cfg env messages maxRetries s.messageIndex w).1.isOk

/-- The next step closes what it opens: the token is not cancelled at the head of
the turn loop, the request is answered, with a response to go on from, and the
calls of the response all come to an end. -/
def Orderly (cfg : AgentLoopConfig) (env : Env) (l : AgentLoop) : Prop :=
  match l.phase with
  | .inner => l.locals.world.cancelled = false ∧ answers cfg env l.locals = true
  | .responded reply =>
      rejection reply = none ∧
        (executeTools env cfg.tools reply.toolCalls l.locals.world).isSome = true ∧
        sparesAll cfg env reply.toolCalls l.locals.world = true
  | .outer | .stopped | .returned _ | .panicked => True

theorem receiveResponse_isOk (s : LoopLocals) :
    (receiveResponse cfg env s).1.isOk = answers cfg env s := by
  simp only [receiveResponse, answers]
  split
  · next hcall => rw [hcall]; rfl
  · next hcall => rw [hcall]; rfl

theorem finishTurn_isSome (cfg : AgentLoopConfig) (env : Env) (s : LoopLocals)
    {reply : AssistantMessage} (hrej : rejection reply = none) :
    (finishTurn cfg env reply s).isSome =
      (executeTools env cfg.tools reply.toolCalls s.world).isSome := by
  simp only [finishTurn, hrej]
  split
  · next hcalls =>
      rw [List.isEmpty_iff.mp hcalls, executeTools]
      split <;> rfl
  · exact Option.isSome_map

theorem endAgent_listener {s : LoopLocals} (h : s.world.listener = some .idle) :
    (s.endAgent env).world.listener = some ⟨.over, none, 0, 0⟩ := by
  show (((s.world.emit _).tick env).listener) = _
  rw [World.listener_tick, World.listener_emit, h]
  rfl

theorem Heard.wellBracketed {l : AgentLoop} (h : l.Heard) : l.WellBracketed := by
  obtain ⟨phase, s⟩ := l
  obtain ⟨hw, hsome⟩ := h
  cases phase with
  | outer | inner | responded | stopped => exact ⟨_, hw, trivial⟩
  | returned result =>
      cases result with
      | ok => exact ⟨_, hw, rfl⟩
      | error => cases hsome
  | panicked => cases hsome

theorem not_wellBracketed {l : AgentLoop} (h : l.locals.world.listener = none) :
    ¬ l.WellBracketed := by
  rintro ⟨c, hc, -⟩
  rw [h] at hc
  cases hc

/-- At the head of the turn loop. -/
theorem heard_step_inner {s : LoopLocals} (h : s.world.listener = some .idle) :
    ((step cfg env ⟨.inner, s⟩).WellBracketed → Orderly cfg env ⟨.inner, s⟩) ∧
      (Orderly cfg env ⟨.inner, s⟩ → (step cfg env ⟨.inner, s⟩).Heard) := by
  rw [step, Orderly, ← receiveResponse_isOk]
  simp only []
  split
  · next hc =>
      constructor
      · rintro ⟨c, hlistener, _, herrors⟩
        rw [endAgent_listener h] at hlistener
        injection hlistener with hlistener
        rw [← hlistener] at herrors
        cases herrors
      · rintro ⟨hc', _⟩
        rw [hc] at hc'
        cases hc'
  · next hc =>
      split
      · next e s' hr =>
          obtain ⟨i, hlistener⟩ := receiveResponse_error_listener h hr
          refine ⟨fun hwell => absurd hwell (not_wellBracketed (fail_listener hlistener rfl e)), ?_⟩
          rintro ⟨_, hok⟩
          rw [hr] at hok
          cases hok
      · next reply s' hr =>
          rw [hr]
          exact ⟨fun _ => ⟨Bool.eq_false_iff.mpr hc, rfl⟩,
            fun _ => ⟨receiveResponse_ok_listener h hr, rfl⟩⟩

/-- A loop that comes out of a turn is heard of when the turn's calls are. -/
theorem heard_accepted {phase : LoopPhase} {s : LoopLocals} {spared : Bool}
    (hphase : phase = .inner ∨ phase = .stopped)
    (h : s.world.listener = if spared = true then some .idle else none) :
    ((⟨phase, s⟩ : AgentLoop).WellBracketed → spared = true) ∧
      (spared = true → (⟨phase, s⟩ : AgentLoop).Heard) := by
  cases spared with
  | false =>
      exact ⟨fun hwell => absurd hwell (not_wellBracketed h), fun hspared => by cases hspared⟩
  | true =>
      refine ⟨fun _ => rfl, fun _ => ?_⟩
      rcases hphase with rfl | rfl
      · exact ⟨h, rfl⟩
      · exact ⟨h, rfl⟩

/-- In the middle of a turn. -/
theorem heard_step_responded {reply : AssistantMessage} {s : LoopLocals}
    (h : s.world.listener = some (.within s.turnIndex)) :
    ((step cfg env ⟨.responded reply, s⟩).WellBracketed →
        Orderly cfg env ⟨.responded reply, s⟩) ∧
      (Orderly cfg env ⟨.responded reply, s⟩ → (step cfg env ⟨.responded reply, s⟩).Heard) := by
  cases hrej : rejection reply with
  | some e =>
      have hfinish : finishTurn cfg env reply s = some (.error e, s) := by
        simp only [finishTurn, hrej]
      simp only [step, Orderly, hfinish, hrej]
      exact ⟨fun hwell => absurd hwell (not_wellBracketed (fail_listener h rfl e)),
        fun hok => by cases hok.1⟩
  | none =>
      simp only [Orderly, hrej, true_and]
      rw [← finishTurn_isSome cfg env s hrej]
      cases hfinish : finishTurn cfg env reply s with
      | none =>
          simp only [step, hfinish]
          refine ⟨?_, fun hok => by cases hok.1⟩
          rintro ⟨_, _, hfalse⟩
          exact hfalse.elim
      | some rs =>
          obtain ⟨r, s'⟩ := rs
          have hlistener := finishTurn_listener h hrej hfinish
          rcases step_accepted hrej hfinish with hstep | hstep
          · obtain ⟨hwell, hheard⟩ := heard_accepted (.inl rfl) hlistener
            rw [hstep]
            exact ⟨fun h => ⟨rfl, hwell h⟩, fun hok => hheard hok.2⟩
          · obtain ⟨hwell, hheard⟩ := heard_accepted (.inr rfl) hlistener
            rw [hstep]
            exact ⟨fun h => ⟨rfl, hwell h⟩, fun hok => hheard hok.2⟩

/-- A step of a loop that is heard of keeps the promise only if it is orderly,
and then the loop is heard of after it. -/
theorem heard_step {l : AgentLoop} (h : l.Heard) :
    ((step cfg env l).WellBracketed → Orderly cfg env l) ∧
      (Orderly cfg env l → (step cfg env l).Heard) := by
  obtain ⟨phase, s⟩ := l
  obtain ⟨hw, hsome⟩ := h
  cases phase with
  | outer => exact ⟨fun _ => trivial, fun _ => ⟨hw, rfl⟩⟩
  | inner => exact heard_step_inner hw
  | responded reply => exact heard_step_responded hw
  | stopped =>
      refine ⟨fun _ => trivial, fun _ => ?_⟩
      simp only [step]
      split
      · exact ⟨endAgent_listener hw, rfl⟩
      · exact ⟨hw, rfl⟩
  | returned result => exact ⟨fun _ => trivial, fun _ => ⟨hw, hsome⟩⟩
  | panicked => cases hsome

theorem heard_start (env : Env) (initialMessages : List AgentMessage) (w : World) :
    (start env initialMessages { w with trace := [] }).Heard := by
  refine ⟨?_, rfl⟩
  show (((({ w with trace := [] } : World).tick env).emit .agentStart).listener) = some .idle
  rw [World.listener_emit, World.listener_tick]
  rfl

/-- A run keeps what a client is promised exactly as long as all its steps are
orderly. -/
theorem wellBracketed_iff_orderly (cfg : AgentLoopConfig) (env : Env)
    (initialMessages : List AgentMessage) (w : World) (n : Nat) :
    (∀ i ≤ n, (run cfg env initialMessages { w with trace := [] } i).WellBracketed) ↔
      OkFor (step cfg env) (Orderly cfg env)
        (start env initialMessages { w with trace := [] }) n := by
  have hstep (l : AgentLoop) (hok : Orderly cfg env l) (h : l.Heard) : (step cfg env l).Heard :=
    (heard_step h).2 hok
  have hback (l : AgentLoop) (h : l.Heard) (hwell : (step cfg env l).WellBracketed) :
      Orderly cfg env l := (heard_step h).1 hwell
  exact forall_le_iff_okFor hstep (fun _ => Heard.wellBracketed) hback
    (heard_start env initialMessages w) n

end AgentLoop

end Pandaria.Agent
