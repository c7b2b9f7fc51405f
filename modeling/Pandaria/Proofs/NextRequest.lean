import Mathlib.Data.List.InsertIdx
import Pandaria.Lib.Run
import Pandaria.Proofs.DoneMessage
import Pandaria.Proofs.StreamEnd

/-!
# Whether the results of a turn are sent

The results of a turn with tool calls are in the context from then on, and the
next request carries them. Whether there is one is decided at the end of the
turn: by the stop reason of the response, and otherwise by the queue of
messages that follow up. That there were calls, and that they have been run,
does not come into it. A provider that reports its calls beside the reason
`Stop`, as Gemini does, is never told their results.

Two more things stand between the loop and a request, a tool that panics and
an open circuit breaker. No hook does, but a hook may put other messages in
the place of the context.
-/

namespace Pandaria.Agent

open Pandaria.Ai Pandaria.Lib

variable {cfg : AgentLoopConfig} {env : Env}

/-! ## A request is made, or refused -/

theorem callLlmWithRetry_asks {messages : List AgentMessage} {maxRetries messageIndex : Nat}
    {w : World} (hadm : cfg.circuitBreaker = true → env.circuit w.now = none)
    (hc : (callLlmWithRetry cfg env messages maxRetries messageIndex w).2.cancelled = false) :
    ∃ w₁, Activity env loopObs w w₁ ∧ Activity env loopObs (w₁.observe (.stream messages))
      (callLlmWithRetry cfg env messages maxRetries messageIndex w).2 := by
  have hattempts : ∀ w₀, Activity env loopObs w w₀ →
      (callAttempts cfg env messages messageIndex maxRetries maxRetries w₀).2.cancelled = false →
      ∃ w₁, Activity env loopObs w w₁ ∧ Activity env loopObs (w₁.observe (.stream messages))
        (callAttempts cfg env messages messageIndex maxRetries maxRetries w₀).2 := by
    intro w₀ hw hc
    have hc₀ := (callAttempts_activity cfg messages messageIndex maxRetries maxRetries
      w₀).of_not_cancelled hc
    exact ⟨_, hw.emitLoop _,
      (callAttempts_asks cfg messages messageIndex maxRetries maxRetries hc₀).without_le⟩
  cases hb : cfg.circuitBreaker with
  | false =>
      simp only [callLlmWithRetry, hb, Bool.false_eq_true, if_false] at hc ⊢
      exact hattempts w .refl hc
  | true =>
      simp only [callLlmWithRetry, World.await, hb, hadm hb, if_true] at hc ⊢
      exact hattempts _ Activity.refl.tick hc

theorem callLlmWithRetry_refused {messages : List AgentMessage} {maxRetries messageIndex : Nat}
    {w : World} {e : String} (hb : cfg.circuitBreaker = true) (he : env.circuit w.now = some e) :
    callLlmWithRetry cfg env messages maxRetries messageIndex w =
      (.error (.llmError (.providerError ("circuit breaker: " ++ e))), w.tick env) := by
  simp only [callLlmWithRetry, World.await, hb, he, if_true]

/-- The context of the turn that starts here, before it is put in the form the
provider takes. Either hook may put messages of its own there. -/
def nextContext (env : Env) (s : LoopLocals) : List AgentMessage :=
  (env.onBeforeProviderRequest (s.world.now + 1)).messages.getD
    (resolveOrphanToolCalls (env.clock (s.world.now + 1))
      ((env.onContext s.world.now).getD s.messages))

theorem prepareRequest_messages (cfg : AgentLoopConfig) (env : Env) (s : LoopLocals) :
    (prepareRequest cfg env { s with turnIndex := s.turnIndex + 1 }).1.1 =
      cfg.transformMessages (nextContext env s) := rfl

/-- The circuit breaker lets the request of a turn through that starts at
`now`. Its two hooks come first. -/
def Admitted (cfg : AgentLoopConfig) (env : Env) (now : Nat) : Prop :=
  cfg.circuitBreaker = true → env.circuit (now + 2) = none

instance (cfg : AgentLoopConfig) (env : Env) (now : Nat) : Decidable (Admitted cfg env now) :=
  inferInstanceAs (Decidable (_ → _))

theorem receiveResponse_asks {s : LoopLocals} (hadm : Admitted cfg env s.world.now)
    (hc : (receiveResponse cfg env s).2.world.cancelled = false) :
    ∃ w, Activity env loopObs s.world w ∧
      Activity env loopObs (w.observe (.stream (cfg.transformMessages (nextContext env s))))
        (receiveResponse cfg env s).2.world := by
  have hprep : Activity env loopObs s.world
      (prepareRequest cfg env { s with turnIndex := s.turnIndex + 1 }).2 :=
    (Activity.refl.emitLoop _).tick.tick
  have hcall := @callLlmWithRetry_asks cfg env (cfg.transformMessages (nextContext env s))
    (prepareRequest cfg env { s with turnIndex := s.turnIndex + 1 }).1.2 s.messageIndex
    (prepareRequest cfg env { s with turnIndex := s.turnIndex + 1 }).2 hadm
  rw [receiveResponse] at hc ⊢
  simp only [] at hc ⊢
  split at hc
  · next e w hr =>
      rw [← prepareRequest_messages, hr] at hcall
      obtain ⟨w₁, hbefore, hafter⟩ := hcall hc
      simp only []
      exact ⟨w₁, hprep.trans hbefore, hafter.emitLoop _⟩
  · next n reply w hr =>
      rw [← prepareRequest_messages, hr] at hcall
      have hend : ∀ e, Activity env loopObs w ((w.tick env).emit e) :=
        fun e => Activity.refl.tick.emitLoop e
      have hw := (hend _).of_not_cancelled hc
      obtain ⟨w₁, hbefore, hafter⟩ := hcall hw
      simp only []
      exact ⟨w₁, hprep.trans hbefore, hafter.tick.emitLoop _⟩

/-- Nothing but an open circuit breaker keeps a request from being made. -/
theorem receiveResponse_refused {s : LoopLocals} (hadm : ¬ Admitted cfg env s.world.now) :
    ∃ e, (receiveResponse cfg env s).1 = .error e ∧
      Activity env (fun _ o => o.isStreamCall = false) s.world
        (receiveResponse cfg env s).2.world := by
  obtain ⟨hb, hcirc⟩ := Classical.not_imp.mp hadm
  obtain ⟨e, he⟩ := Option.ne_none_iff_exists'.mp hcirc
  have hcall := @callLlmWithRetry_refused cfg env (cfg.transformMessages (nextContext env s))
    (prepareRequest cfg env { s with turnIndex := s.turnIndex + 1 }).1.2 s.messageIndex
    (prepareRequest cfg env { s with turnIndex := s.turnIndex + 1 }).2 e hb he
  rw [← prepareRequest_messages] at hcall
  rw [receiveResponse]
  simp only [hcall]
  exact ⟨_, rfl, (((Activity.refl.observe _ rfl).tick.tick).tick).observe _ rfl⟩

namespace AgentLoop

theorem step_asks {s : LoopLocals} (hadm : Admitted cfg env s.world.now)
    (hc : (step cfg env ⟨.inner, s⟩).locals.world.cancelled = false) :
    ∃ w, Activity env loopObs s.world w ∧
      Activity env loopObs (w.observe (.stream (cfg.transformMessages (nextContext env s))))
        (step cfg env ⟨.inner, s⟩).locals.world := by
  have hask := @receiveResponse_asks cfg env s hadm
  simp only [step] at hc ⊢
  split at hc
  · next hcan =>
      have hend : Activity env loopObs s.world (s.endAgent env).world :=
        (Activity.refl.emitLoop _).tick
      rw [hend.of_not_cancelled hc] at hcan
      cases hcan
  · next hcan =>
      rw [if_neg hcan]
      split at hc
      · next e s' hr =>
          rw [hr] at hask
          have hfail : Activity env loopObs s'.world (fail env e s').locals.world :=
            ((Activity.refl.emitLoop _).emitLoop _).tick
          obtain ⟨w, hbefore, hafter⟩ := hask (hfail.of_not_cancelled hc)
          exact ⟨w, hbefore, hafter.trans hfail⟩
      · next reply s' hr =>
          rw [hr] at hask
          exact hask hc

theorem step_refused {s : LoopLocals} (hadm : ¬ Admitted cfg env s.world.now) :
    Activity env (fun _ o => o.isStreamCall = false) s.world
        (step cfg env ⟨.inner, s⟩).locals.world ∧
      ∃ result, (step cfg env ⟨.inner, s⟩).phase = .returned result := by
  obtain ⟨e, he, hw⟩ := receiveResponse_refused hadm
  simp only [step]
  split
  · exact ⟨(Activity.refl.observe _ rfl).tick, _, rfl⟩
  · split
    · next e' s' hr =>
        rw [hr] at hw
        exact ⟨((hw.observe _ rfl).observe _ rfl).tick, _, rfl⟩
    · next reply s' hr =>
        rw [hr] at he
        cases he

/-! ## The context -/

theorem mem_resolveOrphanToolCalls {m : AgentMessage} {messages : List AgentMessage}
    (h : m ∈ messages) (now : SystemTime) : m ∈ resolveOrphanToolCalls now messages := by
  have hfold : ∀ (orphans : List (Nat × ToolCall)) (f : Nat × ToolCall → AgentMessage)
      (ms : List AgentMessage), m ∈ ms →
      m ∈ orphans.foldl (fun ms c => ms.insertIdx (c.1 + 1) (f c)) ms := by
    intro orphans f
    induction orphans with
    | nil => exact fun _ hm => hm
    | cons c orphans ih => exact fun ms hm => ih _ (List.subset_insertIdx ms _ _ hm)
  exact hfold _ _ _ h

theorem mem_nextContext {s : LoopLocals} {m : AgentMessage}
    (hcontext : env.onContext s.world.now = none)
    (hreq : (env.onBeforeProviderRequest (s.world.now + 1)).messages = none)
    (h : m ∈ s.messages) : m ∈ nextContext env s := by
  rw [nextContext, hcontext, hreq]
  exact mem_resolveOrphanToolCalls h _

/-! ## Where the loop asks next -/

/-- The step from here makes a request with `results` in its context. They are
among the messages its hooks are shown, and where these leave the messages
alone, among those it is made of. -/
structure Asks (cfg : AgentLoopConfig) (env : Env) (results : List ToolResultMessage)
    (l : AgentLoop) : Prop where
  inner : l.phase = .inner
  asked : ∃ added, (step cfg env l).locals.world.trace = l.locals.world.trace ++ added ∧
    .stream (cfg.transformMessages (nextContext env l.locals)) ∈ added
  shown : ∀ r ∈ results, .toolResult r ∈ l.locals.messages
  carried : env.onContext l.locals.world.now = none →
    (env.onBeforeProviderRequest (l.locals.world.now + 1)).messages = none →
    ∀ r ∈ results, .toolResult r ∈ nextContext env l.locals

/-- And a run from here gets there. -/
def ComesToAsk (cfg : AgentLoopConfig) (env : Env) (results : List ToolResultMessage)
    (l : AgentLoop) : Prop :=
  ∃ k, Asks cfg env results ((step cfg env)^[k] l)

/-- Nobody cancels the run from here. -/
def NotCancelled (cfg : AgentLoopConfig) (env : Env) (l : AgentLoop) : Prop :=
  ∀ k, ((step cfg env)^[k] l).locals.world.cancelled = false

variable {results : List ToolResultMessage}

theorem NotCancelled.step {l : AgentLoop} (h : NotCancelled cfg env l) :
    NotCancelled cfg env (step cfg env l) :=
  fun k => h (k + 1)

theorem comesToAsk_step {phase : LoopPhase} {s : LoopLocals} (h : phase ≠ .inner) :
    ComesToAsk cfg env results ⟨phase, s⟩ ↔
      ComesToAsk cfg env results (step cfg env ⟨phase, s⟩) := by
  constructor
  · intro ⟨k, hk⟩
    cases k with
    | zero => exact absurd hk.inner h
    | succ k => exact ⟨k, hk⟩
  · intro ⟨k, hk⟩
    exact ⟨k + 1, hk⟩

/-- A loop that is over stays so. -/
theorem not_comesToAsk {l : AgentLoop} (h : step cfg env l = l) (hne : l.phase ≠ .inner) :
    ¬ ComesToAsk cfg env results l := by
  intro ⟨k, hk⟩
  rw [Function.iterate_fixed h] at hk
  exact hne hk.inner

theorem not_comesToAsk_returned {l : AgentLoop} {result : Except AgentError (List AgentMessage)}
    (h : l.phase = .returned result) : ¬ ComesToAsk cfg env results l := by
  refine not_comesToAsk ?_ (by rw [h]; nofun)
  rw [step, h]

/-- At the head of the turn loop all that is left is the circuit breaker. -/
theorem comesToAsk_inner {s : LoopLocals} (hc : NotCancelled cfg env ⟨.inner, s⟩)
    (hs : ∀ r ∈ results, .toolResult r ∈ s.messages) :
    ComesToAsk cfg env results ⟨.inner, s⟩ ↔ Admitted cfg env s.world.now := by
  constructor
  · intro ⟨k, hk⟩
    by_contra hadm
    obtain ⟨hw, result, hret⟩ := step_refused hadm
    cases k with
    | zero =>
        obtain ⟨added, htrace, hmem⟩ := hk.asked
        obtain ⟨added', htrace', hquiet⟩ := hw.trace_append
        have hsame : added = added' := List.append_cancel_left (htrace.symm.trans htrace')
        rw [hsame] at hmem
        rcases hquiet _ hmem with h | ⟨_, h⟩
        · cases h
        · cases h
    | succ k => exact not_comesToAsk_returned hret ⟨k, hk⟩
  · intro hadm
    obtain ⟨w, hbefore, hafter⟩ := step_asks hadm (hc 1)
    obtain ⟨before, hb, -⟩ := hbefore.trace_append
    obtain ⟨after, ha, -⟩ := hafter.trace_append
    have htrace : (step cfg env ⟨.inner, s⟩).locals.world.trace = s.world.trace ++
        (before ++ .stream (cfg.transformMessages (nextContext env s)) :: after) := by
      rw [ha, World.observe]
      simp only [hb, List.append_assoc, List.singleton_append]
    exact ⟨0, rfl, ⟨_, htrace, List.mem_append_right _ List.mem_cons_self⟩, hs,
      fun hcontext hreq r hr => mem_nextContext hcontext hreq (hs r hr)⟩

/-- Out of the turn loop, a message that follows up leads back into it. -/
theorem comesToAsk_stopped {s : LoopLocals} (hc : NotCancelled cfg env ⟨.stopped, s⟩)
    (hs : ∀ r ∈ results, .toolResult r ∈ s.messages) :
    ComesToAsk cfg env results ⟨.stopped, s⟩ ↔
      s.world.followUpQueue ≠ [] ∧ Admitted cfg env s.world.now := by
  have hfirst : LoopPhase.stopped ≠ .inner := by
    intro h
    cases h
  rw [comesToAsk_step hfirst]
  cases hq : s.world.followUpQueue with
  | nil =>
      have hret : (step cfg env ⟨.stopped, s⟩).phase = .returned (.ok s.newMessages) := by
        simp only [step, hq, List.isEmpty_nil, if_true]
      exact iff_of_false (not_comesToAsk_returned hret) fun h => h.1 rfl
  | cons m q =>
      have houter : step cfg env ⟨.stopped, s⟩ = ⟨.outer, drainFollowUp s⟩ := by
        simp only [step, hq, List.isEmpty_cons, Bool.false_eq_true, if_false]
      have hinner : step cfg env ⟨.outer, drainFollowUp s⟩ =
          ⟨.inner, drainSteer (drainFollowUp s)⟩ := rfl
      have hc' := hc.step
      rw [houter] at hc' ⊢
      replace hc' := hc'.step
      have hsecond : LoopPhase.outer ≠ .inner := by
        intro h
        cases h
      rw [comesToAsk_step hsecond]
      rw [hinner] at hc' ⊢
      rw [comesToAsk_inner hc' fun r hr =>
        List.mem_append_left _ (List.mem_append_left _ (hs r hr))]
      exact ⟨fun h => ⟨List.cons_ne_nil m q, h⟩, fun h => h.2⟩

/-! ## The end of a turn with tool calls -/

/-- The locals once the results of a turn have been added. -/
def afterRound (env : Env) (s : LoopLocals) (results : List ToolResultMessage) (w : World) :
    LoopLocals :=
  ({ s with world := w }.push (results.map .toolResult)).endTurn env

theorem step_round {s : LoopLocals} {reply : AssistantMessage} {w : World}
    (hrej : rejection reply = none) (hcalls : reply.toolCalls ≠ [])
    (hexec : executeTools env cfg.tools reply.toolCalls s.world = some (results, w))
    (hopen : ∃ r ∈ results, isTerminated r = false) :
    step cfg env ⟨.responded reply, s⟩ =
      ⟨if reply.stopReason = .toolUse then .inner else .stopped, afterRound env s results w⟩ := by
  have hall : (!results.isEmpty && results.all isTerminated) = false := by
    obtain ⟨r, hr, hterm⟩ := hopen
    have hnot : results.all isTerminated = false := by
      rw [List.all_eq_false]
      exact ⟨r, hr, by simp [hterm]⟩
    rw [hnot, Bool.and_false]
  have hempty : reply.toolCalls.isEmpty = false := by simpa using hcalls
  have hfinish : finishTurn cfg env reply s =
      some (turnResult reply results, afterRound env s results w) := by
    simp only [finishTurn, hrej, hempty, hexec, Bool.false_eq_true, if_false, Option.map_some]
    rfl
  by_cases htool : reply.stopReason = .toolUse
  · simp only [step, hfinish, turnResult, hall, htool, Bool.false_eq_true, if_false, if_true]
  · simp only [step, hfinish, turnResult, hall, htool, Bool.false_eq_true, if_false]

/-- The results of a response are sent in the same run. -/
def Followed (cfg : AgentLoopConfig) (env : Env) (reply : AssistantMessage) (l : AgentLoop) :
    Prop :=
  ∃ results w, executeTools env cfg.tools reply.toolCalls l.locals.world = some (results, w) ∧
    ComesToAsk cfg env results l

/-- The response asks for its tools, or a message has been queued by the end of
the turn; no tool panics, and the circuit breaker is closed. -/
def GoesOn (cfg : AgentLoopConfig) (env : Env) (reply : AssistantMessage) (w : World) : Prop :=
  ∃ results w', executeTools env cfg.tools reply.toolCalls w = some (results, w') ∧
    (reply.stopReason = .toolUse ∨ (w'.tick env).followUpQueue ≠ []) ∧
    Admitted cfg env (w'.now + 1)

theorem followed_iff {reply : AssistantMessage} {s : LoopLocals} (hrej : rejection reply = none)
    (hcalls : reply.toolCalls ≠ [])
    (hopen : ∀ results w, executeTools env cfg.tools reply.toolCalls s.world = some (results, w) →
      ∃ r ∈ results, isTerminated r = false)
    (hc : NotCancelled cfg env ⟨.responded reply, s⟩) :
    Followed cfg env reply ⟨.responded reply, s⟩ ↔ GoesOn cfg env reply s.world := by
  refine exists_congr fun results => exists_congr fun w => and_congr_right fun hexec => ?_
  have hstep := step_round hrej hcalls hexec (hopen results w hexec)
  have hs : ∀ r ∈ results, .toolResult r ∈ (afterRound env s results w).messages :=
    fun r hr => List.mem_append_right _ (List.mem_map_of_mem hr)
  have hc' := hc.step
  have hfirst : LoopPhase.responded reply ≠ .inner := nofun
  rw [comesToAsk_step hfirst]
  rw [hstep] at hc' ⊢
  by_cases htool : reply.stopReason = .toolUse
  · rw [if_pos htool] at hc' ⊢
    rw [comesToAsk_inner hc' hs]
    exact (and_iff_right (.inl htool)).symm
  · rw [if_neg htool] at hc' ⊢
    rw [comesToAsk_stopped hc' hs]
    exact and_congr_left' (or_iff_right htool).symm

theorem notCancelled_run {initialMessages : List AgentMessage} {w : World}
    (hc : ∀ m, (run cfg env initialMessages w m).locals.world.cancelled = false) (n : Nat) :
    NotCancelled cfg env (run cfg env initialMessages w n) := by
  intro k
  rw [run, ← Function.iterate_add_apply]
  exact hc (k + n)

/-- In a run that is not cancelled, a response with tool calls that do not all
ask to terminate has its results sent exactly where the loop goes on. -/
theorem followed_iff_goesOn {initialMessages : List AgentMessage} {w : World} {n : Nat}
    {reply : AssistantMessage}
    (h : (run cfg env initialMessages w n).phase = .responded reply)
    (hrej : rejection reply = none) (hcalls : reply.toolCalls ≠ [])
    (hopen : ∀ results w', executeTools env cfg.tools reply.toolCalls
      (run cfg env initialMessages w n).locals.world = some (results, w') →
      ∃ r ∈ results, isTerminated r = false)
    (hc : ∀ m, (run cfg env initialMessages w m).locals.world.cancelled = false) :
    Followed cfg env reply (run cfg env initialMessages w n) ↔
      GoesOn cfg env reply (run cfg env initialMessages w n).locals.world := by
  have hl : run cfg env initialMessages w n =
      ⟨.responded reply, (run cfg env initialMessages w n).locals⟩ := by
    rw [← h]
  have hcl := notCancelled_run hc n
  rw [hl] at hcl ⊢
  exact followed_iff hrej hcalls hopen hcl

/-! ## One call, from two providers -/

/-- Where nobody aborts, no run is cancelled. -/
theorem not_cancelled_run (hno : ∀ n, env.abort n = false) (initialMessages : List AgentMessage)
    {w : World} (hw : w.cancelled = false) (n : Nat) :
    (run cfg env initialMessages w n).locals.world.cancelled = false := by
  have hstart := not_cancelled_start hno initialMessages hw
  exact @iterate_invariant _ (AgentLoop.step cfg env) (fun l => l.locals.world.cancelled = false)
    (fun _ h => not_cancelled_step hno h) _ hstart n

theorem open_of_single {α : Type} {o : Option (List ToolResultMessage × α)} {r : ToolResultMessage}
    {a b : α} (h : o = some ([r], a)) (hr : isTerminated r = false)
    {results : List ToolResultMessage} (h' : o = some (results, b)) :
    ∃ r ∈ results, isTerminated r = false := by
  rw [h] at h'
  injection h' with h'
  injection h' with h' _
  rw [← h']
  exact ⟨r, List.mem_singleton_self r, hr⟩

/-- A loop with one tool. -/
def toolConfig : AgentLoopConfig :=
  { (plainConfig 0).loop with tools := [⟨"tool", .parallel⟩] }

def oneCall : AssistantMessage :=
  plainReply [.toolCall ⟨"a", "tool", .null, none⟩] .toolUse none

/-- Every response calls the tool and says so. -/
def callingEnv : Env :=
  { Env.quiet with
    clock := fun _ => 0
    stream := fun _ => .ok [.done .toolUse oneCall] }

theorem responded_calling :
    (run toolConfig callingEnv [] .fresh 2).phase = .responded oneCall := by
  rfl

/-- The call is run, and its result goes out with the next request. -/
theorem followed_calling :
    Followed toolConfig callingEnv oneCall (run toolConfig callingEnv [] .fresh 2) := by
  have hexec : ∃ w', executeTools callingEnv toolConfig.tools oneCall.toolCalls
      (run toolConfig callingEnv [] .fresh 2).locals.world =
      some ([⟨"a", "tool", [], some (.obj []), false, 0⟩], w') := ⟨_, rfl⟩
  obtain ⟨w', hexec⟩ := hexec
  refine (followed_iff_goesOn responded_calling rfl (by decide) ?_ ?_).mpr ?_
  · exact fun _ _ => open_of_single hexec rfl
  · exact not_cancelled_run (fun _ => rfl) _ rfl
  · exact ⟨_, w', hexec, .inl rfl, nofun⟩

/-- A chunk from Gemini with one call, as it comes. -/
def functionCall : List Json :=
  [.obj [("candidates", .arr [.obj
    [("content", .obj [("parts", .arr [.obj
      [("functionCall", .obj [("name", .str "tool"), ("args", .obj [])])]])]),
      ("finishReason", .str "STOP")]])]]

/-- Every response is that chunk. -/
def geminiEnv : Env :=
  { Env.quiet with
    clock := fun _ => 0
    stream := fun _ => .ok ((ProviderRun.google (sending functionCall)).events
      (.knowing functionCall)) }

def geminiCall : ToolCall := ⟨"call_0", "tool", .obj [], none⟩

/-- What the agent loop makes of it. -/
def geminiReply : AssistantMessage :=
  { plainReply [.toolCall geminiCall] .stop none with api := ⟨"google", "model"⟩ }

theorem events_gemini :
    (ProviderRun.google (sending functionCall)).events (.knowing functionCall) =
      [.start, .toolCallEnd 0 geminiCall, .done .stop (.blank "google" "model" 0)] := by
  decide +kernel

theorem geminiEnv_eq :
    geminiEnv = { Env.quiet with
      clock := fun _ => 0
      stream := fun _ => .ok [.start, .toolCallEnd 0 geminiCall,
        .done .stop (.blank "google" "model" 0)] } := by
  rw [← events_gemini]
  rfl

theorem responded_gemini :
    (run toolConfig geminiEnv [] .fresh 2).phase = .responded geminiReply := by
  rw [geminiEnv_eq]
  rfl

theorem executeTools_gemini :
    ∃ w', executeTools geminiEnv toolConfig.tools geminiReply.toolCalls
        (run toolConfig geminiEnv [] .fresh 2).locals.world =
        some ([⟨"call_0", "tool", [], some (.obj []), false, 0⟩], w') ∧
      w'.followUpQueue = [] := by
  rw [geminiEnv_eq]
  exact ⟨_, rfl, rfl⟩

/-- Gemini stops with a call in its response. The call is run, and the loop
returns without telling the result. -/
theorem not_followed_gemini :
    (run toolConfig geminiEnv [] .fresh 2).phase = .responded geminiReply ∧
      rejection geminiReply = none ∧ geminiReply.toolCalls = [geminiCall] ∧
      (∃ r w', executeTools geminiEnv toolConfig.tools geminiReply.toolCalls
        (run toolConfig geminiEnv [] .fresh 2).locals.world = some ([r], w') ∧
        isTerminated r = false) ∧
      (∀ n, (run toolConfig geminiEnv [] .fresh n).locals.world.cancelled = false) ∧
      ¬ Followed toolConfig geminiEnv geminiReply (run toolConfig geminiEnv [] .fresh 2) := by
  obtain ⟨w', hexec, hqueue⟩ := executeTools_gemini
  have hc : ∀ n, (run toolConfig geminiEnv [] .fresh n).locals.world.cancelled = false :=
    not_cancelled_run (fun _ => rfl) _ rfl
  refine ⟨responded_gemini, rfl, rfl, ⟨_, w', hexec, rfl⟩, hc, ?_⟩
  intro ⟨results, w'', hexec', hask⟩
  rw [hexec] at hexec'
  injection hexec' with h
  injection h with hresults _
  subst hresults
  have hl : run toolConfig geminiEnv [] .fresh 2 =
      ⟨.responded geminiReply, (run toolConfig geminiEnv [] .fresh 2).locals⟩ := by
    rw [← responded_gemini]
  have hfollowed := @followed_iff toolConfig geminiEnv geminiReply
    (run toolConfig geminiEnv [] .fresh 2).locals rfl (by decide) ?_ ?_
  · rw [← hl] at hfollowed
    obtain ⟨_, w₁, hexec₁, hwhy, _⟩ := hfollowed.mp ⟨_, _, hexec, hask⟩
    rw [hexec] at hexec₁
    injection hexec₁ with h
    injection h with _ hw
    subst hw
    rcases hwhy with h | h
    · cases h
    · refine h ?_
      rw [World.tick, hqueue]
      rfl
  · exact fun _ _ => open_of_single hexec rfl
  · rw [← hl]
    exact notCancelled_run hc 2

end AgentLoop

end Pandaria.Agent
