import Pandaria.Agent.Call

/-!
# What a stretch of code does to the world

Between two drains of a queue and two replacements of the abort token, a
session does three things to the world it shares: it records something, it
awaits, and it draws an id. `Activity` is any number of these in any order,
and is proved once for each function that handles a `World`. What holds of
these three steps then holds of all of them.

Which records may be made is a parameter. In an agent loop that is everything
but the start of a provider call on a cancelled token.
-/

namespace Pandaria.Agent

open Pandaria.Ai

/-- Which observation may be recorded in which world. -/
abbrev Allow := World → Obs → Prop

/-- Everything but a cancellation, which is not a session's doing. -/
def anyObs : Allow := fun _ o => o.isAbort = false

/-- What an agent loop records: no provider call while it is cancelled, and no
summaries. -/
def loopObs : Allow := fun w o =>
  match o with
  | .stream _ => w.cancelled = false
  | .summarise _ | .abort => False
  | .event _ | .execute .. => True

theorem anyObs_of_loopObs {w : World} {o : Obs} (h : loopObs w o) : anyObs w o := by
  cases o with
  | abort => exact h.elim
  | event | stream | summarise | execute => rfl

/-! ## Brackets

The events that open something or close it, and the errors that are reported
between them. -/

def AgentEvent.isCompaction : AgentEvent → Bool
  | .compactionStart _ | .compactionEnd .. => true
  | _ => false

def AgentEvent.isBracket : AgentEvent → Bool
  | .agentStart | .agentEnd _ | .turnStart _ | .turnEnd .. | .toolExecutionStart ..
  | .toolExecutionEnd .. | .compactionStart _ | .compactionEnd .. | .error _ => true
  | _ => false

/-- Some events are left out. -/
def Allow.without (allow : Allow) (p : AgentEvent → Bool) : Allow := fun w o =>
  allow w o ∧ ∀ e, o = .event e → p e = false

/-- Inside a request, or inside a tool. -/
abbrev quietObs : Allow := loopObs.without AgentEvent.isBracket

/-- An agent loop, and whatever else compacts nothing. -/
abbrev turnObs : Allow := loopObs.without AgentEvent.isCompaction

/-- Provider calls of either kind, and no compaction announced. -/
abbrev briefObs : Allow := anyObs.without AgentEvent.isCompaction

theorem isCompaction_of_isBracket {e : AgentEvent} (h : e.isBracket = false) :
    e.isCompaction = false := by
  cases e with
  | compactionStart | compactionEnd => cases h
  | _ => rfl

inductive Activity (env : Env) (allow : Allow) (w : World) : World → Prop where
  | refl : Activity env allow w w
  | observe {w' : World} (o : Obs) (h : Activity env allow w w') (ho : allow w' o) :
      Activity env allow w (w'.observe o)
  | tick {w' : World} (h : Activity env allow w w') : Activity env allow w (w'.tick env)
  | newId {w' : World} (h : Activity env allow w w') : Activity env allow w (w'.newId env).2

namespace Activity

variable {env : Env} {allow : Allow} {w w₁ w₂ : World}

theorem trans (h₁ : Activity env allow w w₁) (h₂ : Activity env allow w₁ w₂) :
    Activity env allow w w₂ := by
  induction h₂ with
  | refl => exact h₁
  | observe o _ ho ih => exact ih.observe o ho
  | tick _ ih => exact ih.tick
  | newId _ ih => exact ih.newId

theorem mono {allow' : Allow} (hle : ∀ w o, allow w o → allow' w o)
    (h : Activity env allow w w₁) : Activity env allow' w w₁ := by
  induction h with
  | refl => exact .refl
  | observe o _ ho ih => exact ih.observe o (hle _ _ ho)
  | tick _ ih => exact ih.tick
  | newId _ ih => exact ih.newId

theorem any (h : Activity env loopObs w w₁) : Activity env anyObs w w₁ :=
  h.mono fun _ _ => anyObs_of_loopObs

theorem emitLoop (h : Activity env loopObs w w₁) (e : AgentEvent) :
    Activity env loopObs w (w₁.emit e) :=
  h.observe _ trivial

theorem emitAny (h : Activity env anyObs w w₁) (e : AgentEvent) :
    Activity env anyObs w (w₁.emit e) :=
  h.observe _ rfl

theorem without_le {p : AgentEvent → Bool} (h : Activity env (allow.without p) w w₁) :
    Activity env allow w w₁ :=
  h.mono fun _ _ => And.left

theorem turn (h : Activity env quietObs w w₁) : Activity env turnObs w w₁ :=
  h.mono fun _ _ ho => ⟨ho.1, fun e he => isCompaction_of_isBracket (ho.2 e he)⟩

theorem brief (h : Activity env turnObs w w₁) : Activity env briefObs w w₁ :=
  h.mono fun _ _ ho => ⟨anyObs_of_loopObs ho.1, ho.2⟩

theorem emitWithout {p : AgentEvent → Bool} (h : Activity env (loopObs.without p) w w₁)
    {e : AgentEvent} (he : p e = false) : Activity env (loopObs.without p) w (w₁.emit e) := by
  refine h.observe _ ⟨trivial, fun e' he' => ?_⟩
  injection he' with he'
  rw [← he', he]

theorem observeWithout {p : AgentEvent → Bool} (h : Activity env (allow.without p) w w₁) {o : Obs}
    (ho : allow w₁ o) (hevent : ∀ e, o ≠ .event e) :
    Activity env (allow.without p) w (w₁.observe o) :=
  h.observe o ⟨ho, fun e he => absurd he (hevent e)⟩

theorem execute {p : AgentEvent → Bool} (h : Activity env (loopObs.without p) w w₁) (id : String)
    (input : Json) : Activity env (loopObs.without p) w (w₁.observe (.execute id input)) :=
  h.observe _ ⟨trivial, fun _ he => by cases he⟩

/-! ## What follows from an activity -/

/-- Where nobody aborts, nothing is cancelled. -/
theorem not_cancelled (h : Activity env allow w w₁) (hno : ∀ n, env.abort n = false)
    (hc : w.cancelled = false) : w₁.cancelled = false := by
  induction h with
  | refl => exact hc
  | observe _ _ _ ih => exact ih
  | tick _ ih => rw [World.tick_cancelled, ih, hno]; rfl
  | newId _ ih => exact ih

/-- A cancelled token stays cancelled. -/
theorem of_not_cancelled (h : Activity env allow w w₁) (hc : w₁.cancelled = false) :
    w.cancelled = false := by
  induction h with
  | refl => exact hc
  | observe _ _ _ ih => exact ih hc
  | tick _ ih =>
      rw [World.tick_cancelled, Bool.or_eq_false_iff] at hc
      exact ih hc.1
  | newId _ ih => exact ih hc

/-- The record only grows, by what may be recorded and by aborts. -/
theorem trace_append (h : Activity env allow w w₁) :
    ∃ added, w₁.trace = w.trace ++ added ∧ ∀ o ∈ added, o = .abort ∨ ∃ w', allow w' o := by
  induction h with
  | refl => exact ⟨[], (List.append_nil _).symm, nofun⟩
  | @observe w' o _ ho ih =>
      obtain ⟨added, htrace, hadded⟩ := ih
      refine ⟨added ++ [o], ?_, fun x hx => ?_⟩
      · show w'.trace ++ [o] = w.trace ++ (added ++ [o])
        rw [htrace, List.append_assoc]
      · rcases List.mem_append.mp hx with hx | hx
        · exact hadded x hx
        · rw [List.mem_singleton.mp hx]
          exact .inr ⟨w', ho⟩
  | @tick w' _ ih =>
      obtain ⟨added, htrace, hadded⟩ := ih
      cases ha : env.abort w'.now with
      | false => exact ⟨added, by simpa [World.tick, ha] using htrace, hadded⟩
      | true =>
          refine ⟨added ++ [.abort], by simp [World.tick, ha, htrace], fun x hx => ?_⟩
          rcases List.mem_append.mp hx with hx | hx
          · exact hadded x hx
          · exact .inl (List.mem_singleton.mp hx)
  | newId _ ih => exact ih

end Activity

/-! ## The agent loop's functions -/

variable {env : Env}

theorem announceDelta_activity (i : Nat) (w : World) (e : AssistantMessageEvent) :
    Activity env quietObs w (announceDelta i w e) := by
  unfold announceDelta
  split
  · exact Activity.refl.emitWithout rfl
  · exact .refl

theorem readStream_activity (i : Nat) (es : List AssistantMessageEvent) (r : PartialReply)
    (w : World) : Activity env quietObs w (readStream env i es r w).2 := by
  induction es generalizing r w with
  | nil => exact Activity.refl.tick
  | cons e es ih =>
      rw [readStream.eq_def]
      simp only []
      split
      · exact Activity.refl.tick
      · split
        · exact Activity.refl.tick
        · exact (Activity.refl.tick.trans (announceDelta_activity i _ _)).trans (ih _ _)

theorem recordCircuit_activity (cfg : AgentLoopConfig) (w : World) :
    Activity env quietObs w (recordCircuit cfg env w) := by
  rw [recordCircuit]
  split
  · exact Activity.refl.tick
  · exact .refl

theorem recordCircuit_if_activity (cfg : AgentLoopConfig) (c : Prop) [Decidable c] (w : World) :
    Activity env quietObs w (if c then recordCircuit cfg env w else w) := by
  split
  · exact recordCircuit_activity cfg w
  · exact .refl

theorem autoRetry_activity (attempt maxRetries : Nat) (error : Option String) (w : World) :
    Activity env quietObs w (autoRetry env attempt maxRetries error w) :=
  (Activity.refl.emitWithout rfl).tick.emitWithout rfl

theorem callAttempts_cancelled {cfg : AgentLoopConfig} {messages : List AgentMessage}
    {messageIndex maxRetries left : Nat} {w : World} (hc : w.cancelled = true) :
    callAttempts cfg env messages messageIndex maxRetries left w = (.error .cancelled, w) := by
  cases left with
  | zero =>
      rw [callAttempts]
      exact if_pos hc
  | succ left =>
      rw [callAttempts]
      exact if_pos hc

/-- A request starts, once the token has been looked at. -/
theorem asked_activity {w : World} (hc : w.cancelled = false) (messageIndex : Nat)
    (messages : List AgentMessage) :
    Activity env quietObs w ((w.emit (.messageStart messageIndex)).observe (.stream messages)) :=
  (Activity.refl.emitWithout rfl).observeWithout hc fun _ h => by cases h

/-- A request on a token that is not cancelled starts at once. -/
theorem callAttempts_asks (cfg : AgentLoopConfig) (messages : List AgentMessage)
    (messageIndex maxRetries left : Nat) {w : World} (hc : w.cancelled = false) :
    Activity env quietObs ((w.emit (.messageStart messageIndex)).observe (.stream messages))
      (callAttempts cfg env messages messageIndex maxRetries left w).2 := by
  have hstream (w : World) : Activity env quietObs w (w.tick env) := Activity.refl.tick
  induction left generalizing w with
  | zero =>
      rw [callAttempts]
      simp only [hc, Bool.false_eq_true, if_false]
      split
      · next e w₁ hw =>
          obtain rfl := (congrArg Prod.snd hw).symm
          exact ((hstream _).trans (recordCircuit_if_activity cfg _ _)).emitWithout rfl
      · next events w₁ hw =>
          obtain rfl := (congrArg Prod.snd hw).symm
          split
          · next e w₂ hr =>
              obtain rfl := (congrArg Prod.snd hr).symm
              exact (hstream _).trans (readStream_activity _ _ _ _)
          · next r w₂ hr =>
              obtain rfl := (congrArg Prod.snd hr).symm
              exact ((((hstream _).trans (readStream_activity _ _ _ _)).trans
                (recordCircuit_if_activity cfg _ _)).trans
                (recordCircuit_activity cfg _)).emitWithout rfl
  | succ left ih =>
      -- A retry finds the token cancelled, or asks once more.
      have hretry : ∀ w : World, Activity env quietObs w
          (callAttempts cfg env messages messageIndex maxRetries left w).2 := by
        intro w
        cases hc : w.cancelled with
        | true =>
            rw [callAttempts_cancelled hc]
            exact .refl
        | false =>
            exact (asked_activity hc messageIndex messages).trans (ih hc)
      rw [callAttempts]
      simp only [hc, Bool.false_eq_true, if_false]
      split
      · next e w₁ hw =>
          obtain rfl := (congrArg Prod.snd hw).symm
          split
          · exact (((hstream _).trans (recordCircuit_activity cfg _)).trans
              (autoRetry_activity _ _ _ _)).trans (hretry _)
          · exact (hstream _).emitWithout rfl
      · next events w₁ hw =>
          obtain rfl := (congrArg Prod.snd hw).symm
          split
          · next e w₂ hr =>
              obtain rfl := (congrArg Prod.snd hr).symm
              exact (hstream _).trans (readStream_activity _ _ _ _)
          · next r w₂ hr =>
              obtain rfl := (congrArg Prod.snd hr).symm
              have hread :=
                (hstream ((w.emit (.messageStart messageIndex)).observe (.stream messages))).trans
                  (readStream_activity messageIndex events (.start cfg) _)
              split
              · exact ((hread.trans (recordCircuit_activity cfg _)).trans
                  (autoRetry_activity _ _ _ _)).trans (hretry _)
              · exact (hread.trans (recordCircuit_activity cfg _)).emitWithout rfl

theorem callAttempts_activity (cfg : AgentLoopConfig) (messages : List AgentMessage)
    (messageIndex maxRetries left : Nat) (w : World) :
    Activity env quietObs w (callAttempts cfg env messages messageIndex maxRetries left w).2 := by
  cases hc : w.cancelled with
  | true =>
      rw [callAttempts_cancelled hc]
      exact .refl
  | false =>
      exact (asked_activity hc messageIndex messages).trans
        (callAttempts_asks cfg messages messageIndex maxRetries left hc)

theorem callLlmWithRetry_activity (cfg : AgentLoopConfig) (messages : List AgentMessage)
    (maxRetries messageIndex : Nat) (w : World) :
    Activity env quietObs w (callLlmWithRetry cfg env messages maxRetries messageIndex w).2 := by
  rw [callLlmWithRetry]
  split
  · split
    · next e w₁ hw =>
        obtain rfl := (congrArg Prod.snd hw).symm
        exact Activity.refl.tick
    · next w₁ hw =>
        obtain rfl := (congrArg Prod.snd hw).symm
        exact Activity.refl.tick.trans (callAttempts_activity cfg _ _ _ _ _)
  · exact callAttempts_activity cfg _ _ _ _ _

/-! ## Tools -/

/-- The events of a tool call. -/
def AgentEvent.isTool : AgentEvent → Bool
  | .toolExecutionStart .. | .toolExecutionUpdate .. | .toolExecutionEnd .. => true
  | _ => false

theorem isCompaction_of_isTool {e : AgentEvent} (h : e.isTool = true) : e.isCompaction = false := by
  cases e with
  | toolExecutionStart | toolExecutionUpdate | toolExecutionEnd => rfl
  | _ => cases h

/-- The ways a race can end: without the call, in the middle of it, or with it. -/
theorem raceTool_cases {tools : List AgentTool} {before : Bool} {tc : ToolCall} {w w' : World}
    {r : ToolResultMessage} (h : raceTool env tools before tc w = some (r, w')) :
    ((before && drops env w) = true ∧ w' = w ∧ r.toolCallId = tc.id) ∨
      ((before && drops env w) = false ∧ w' ∈ suspensions env tools tc w ∧
        drops env w' = true ∧ r.toolCallId = tc.id) ∨
      ((∀ w₁ ∈ suspensions env tools tc w, drops env w₁ = false) ∧
        executeSingleTool env tools tc w = some (r, w')) := by
  rw [raceTool] at h
  simp only [] at h
  split at h
  · next hbefore =>
      injection h with h
      injection h with hr hw
      exact .inl ⟨hbefore, hw.symm, by rw [← hr]; rfl⟩
  · next hbefore =>
    split at h
    · next dropped hfind =>
        injection h with h
        injection h with hr hw
        subst hw
        have hdrops : drops env dropped = true := List.find?_some hfind
        exact .inr (.inl ⟨Bool.eq_false_iff.mpr hbefore, List.mem_of_find?_eq_some hfind, hdrops,
          by rw [← hr]; rfl⟩)
    · next hfind =>
        refine .inr (.inr ⟨fun w₁ hw₁ => ?_, h⟩)
        simpa using List.find?_eq_none.mp hfind w₁ hw₁

section
variable {p : AgentEvent → Bool}

section
variable (hp : ∀ id c, p (.toolExecutionUpdate id c) = false)
include hp

theorem emitUpdates_activity (id : String) (progress : List String) (w : World) :
    Activity env (loopObs.without p) w
      (progress.foldl (fun w c => w.emit (.toolExecutionUpdate id c)) w) := by
  induction progress generalizing w with
  | nil => exact .refl
  | cons c cs ih => exact (Activity.refl.emitWithout (hp id c)).trans (ih _)

theorem executeToolCall_activity {tc : ToolCall} {w w' : World}
    {r : Except AgentError ToolResultMessage} (h : executeToolCall env tc w = some (r, w')) :
    Activity env (loopObs.without p) w w' := by
  have hran (input : Option Json) : Activity env (loopObs.without p) w (w.ran env tc input) :=
    (Activity.refl.tick.execute _ _).tick.trans (emitUpdates_activity hp _ _ _)
  rcases executeToolCall_cases env tc w with
    ⟨reason, input, -, hcall⟩ | ⟨input, -, ⟨e, -, hcall⟩ | ⟨result, -, hcall⟩⟩
  · rw [hcall] at h
    injection h with h
    injection h with _ h
    subst h
    exact Activity.refl.tick
  · rw [hcall] at h
    injection h with h
    injection h with _ h
    subst h
    exact hran input
  · rw [hcall] at h
    obtain ⟨details, -, h⟩ := Option.map_eq_some_iff.mp h
    injection h with _ h
    subst h
    exact (hran input).tick

theorem runTool_activity {tools : List AgentTool} {tc : ToolCall} {w w' : World}
    {r : Except String ToolResultMessage} (h : runTool env tools tc w = some (r, w')) :
    Activity env (loopObs.without p) w w' := by
  rw [runTool] at h
  split at h
  · injection h with h
    injection h with _ h
    subst h
    exact .refl
  · simp only [Option.map_eq_some_iff, Prod.mk.injEq] at h
    obtain ⟨⟨r₁, w₂⟩, hcall, -, rfl⟩ := h
    exact executeToolCall_activity hp hcall

/-- Wherever a call may be dropped, it has been announced and has not ended. -/
theorem suspensions_activity {tools : List AgentTool} {tc : ToolCall} {w w' : World}
    (h : w' ∈ suspensions env tools tc w) :
    Activity env (loopObs.without p) (w.emit (.toolExecutionStart tc.id tc.name)) w' := by
  rw [suspensions] at h
  split at h
  · cases h
  · have hasked : Activity env (loopObs.without p) (w.emit (.toolExecutionStart tc.id tc.name))
        ((w.emit (.toolExecutionStart tc.id tc.name)).tick env) := Activity.refl.tick
    have hrun : ∀ input, Activity env (loopObs.without p)
        (w.emit (.toolExecutionStart tc.id tc.name))
        ((((w.emit (.toolExecutionStart tc.id tc.name)).tick env).observe
          (.execute tc.id input)).tick env) :=
      fun input => (hasked.execute _ _).tick
    simp only [World.await] at h
    split at h
    · rw [List.mem_singleton] at h
      subst h
      exact hasked
    · split at h
      · simp only [List.mem_cons, List.not_mem_nil, or_false] at h
        rcases h with rfl | rfl
        · exact hasked
        · exact (hrun _).trans (emitUpdates_activity hp _ _ _)
      · simp only [List.mem_cons, List.not_mem_nil, or_false] at h
        rcases h with rfl | rfl | rfl
        · exact hasked
        · exact (hrun _).trans (emitUpdates_activity hp _ _ _)
        · exact ((hrun _).trans (emitUpdates_activity hp _ _ _)).tick

end

section
variable (hp : ∀ e : AgentEvent, e.isTool = true → p e = false)
include hp

theorem executeSingleTool_activity {tools : List AgentTool} {tc : ToolCall} {w w' : World}
    {r : ToolResultMessage} (h : executeSingleTool env tools tc w = some (r, w')) :
    Activity env (loopObs.without p) w w' := by
  simp only [executeSingleTool, Option.map_eq_some_iff, Prod.mk.injEq] at h
  obtain ⟨⟨outcome, w₁⟩, hrun, -, rfl⟩ := h
  exact ((Activity.refl.emitWithout (hp _ rfl)).trans
    (runTool_activity (fun _ _ => hp _ rfl) hrun)).emitWithout (hp _ rfl)

theorem executeSequential_activity {tools : List AgentTool} {calls : List ToolCall} {w w' : World}
    {rs : List ToolResultMessage} (h : executeSequential env tools calls w = some (rs, w')) :
    Activity env (loopObs.without p) w w' := by
  induction calls generalizing w rs with
  | nil =>
      injection h with h
      injection h with _ h
      subst h
      exact .refl
  | cons tc rest ih =>
      rw [executeSequential] at h
      split at h
      · injection h with h
        injection h with _ h
        subst h
        exact .refl
      · simp only [Option.bind_eq_some_iff, Option.map_eq_some_iff, Prod.mk.injEq] at h
        obtain ⟨⟨r, w₁⟩, h1, ⟨rs', w₂⟩, h2, -, rfl⟩ := h
        exact (executeSingleTool_activity hp h1).trans (ih h2)

theorem raceTool_activity {tools : List AgentTool} {before : Bool} {tc : ToolCall} {w w' : World}
    {r : ToolResultMessage} (h : raceTool env tools before tc w = some (r, w')) :
    Activity env (loopObs.without p) w w' := by
  rcases raceTool_cases h with ⟨-, rfl, -⟩ | ⟨-, hmem, -, -⟩ | ⟨-, hsingle⟩
  · exact .refl
  · exact (Activity.refl.emitWithout (hp _ rfl)).trans
      (suspensions_activity (fun _ _ => hp _ rfl) hmem)
  · exact executeSingleTool_activity hp hsingle

theorem executeParallel_activity {tools : List AgentTool} {before : Bool} {calls : List ToolCall}
    {w w' : World} {rs : List ToolResultMessage}
    (h : executeParallel env tools before calls w = some (rs, w')) :
    Activity env (loopObs.without p) w w' := by
  induction calls generalizing w rs with
  | nil =>
      injection h with h
      injection h with _ h
      subst h
      exact .refl
  | cons tc rest ih =>
      simp only [executeParallel, Option.bind_eq_some_iff, Option.map_eq_some_iff,
        Prod.mk.injEq] at h
      obtain ⟨⟨r, w₁⟩, h1, ⟨rs', w₂⟩, h2, -, rfl⟩ := h
      exact (raceTool_activity hp h1).trans (ih h2)

theorem executeTools_activity {tools : List AgentTool} {calls : List ToolCall} {w w' : World}
    {rs : List ToolResultMessage} (h : executeTools env tools calls w = some (rs, w')) :
    Activity env (loopObs.without p) w w' := by
  rw [executeTools] at h
  split at h
  · exact executeSequential_activity hp h
  · exact executeParallel_activity hp h

end

end

/-! ## Turns -/

/-- `run_turn` up to the response. It adds the response and nothing else, and
it fails only where the request does. -/
theorem receiveResponse_cases (cfg : AgentLoopConfig) (env : Env) (s : LoopLocals) :
    Activity env turnObs s.world (receiveResponse cfg env s).2.world ∧
      (receiveResponse cfg env s).2.drained = s.drained ∧
      ((∃ e, (receiveResponse cfg env s).1 = .error e ∧
          (receiveResponse cfg env s).2.newMessages = s.newMessages) ∨
        ∃ reply, (receiveResponse cfg env s).1 = .ok reply ∧
          (receiveResponse cfg env s).2.newMessages = s.newMessages ++ [.assistant reply]) := by
  have hprep : Activity env turnObs s.world
      (prepareRequest cfg env { s with turnIndex := s.turnIndex + 1 }).2 :=
    (Activity.refl.emitWithout rfl).tick.tick
  have hcall := hprep.trans (callLlmWithRetry_activity cfg
    (prepareRequest cfg env { s with turnIndex := s.turnIndex + 1 }).1.1
    (prepareRequest cfg env { s with turnIndex := s.turnIndex + 1 }).1.2 s.messageIndex _).turn
  rw [receiveResponse]
  simp only []
  split
  · next e w hc =>
      rw [hc] at hcall
      exact ⟨hcall.emitWithout rfl, rfl, .inl ⟨e, rfl, rfl⟩⟩
  · next n reply w hc =>
      rw [hc] at hcall
      exact ⟨hcall.tick.emitWithout rfl, rfl, .inr ⟨_, rfl, rfl⟩⟩

/-- `run_turn` from the response on: the rejection of the response, or the
results of its calls. -/
theorem finishTurn_cases {cfg : AgentLoopConfig} {reply : AssistantMessage} {s s' : LoopLocals}
    {r : TurnResult} (h : finishTurn cfg env reply s = some (r, s')) :
    Activity env turnObs s.world s'.world ∧ s'.drained = s.drained ∧
      ((∃ e, rejection reply = some e ∧ r = .error e ∧ s'.newMessages = s.newMessages) ∨
        (rejection reply = none ∧ reply.toolCalls = [] ∧ r = .stop ∧
          s'.newMessages = s.newMessages) ∨
        ∃ results w, rejection reply = none ∧ reply.toolCalls ≠ [] ∧
          executeTools env cfg.tools reply.toolCalls s.world = some (results, w) ∧
          r = turnResult reply results ∧
          s'.newMessages = s.newMessages ++ results.map .toolResult) := by
  rw [finishTurn] at h
  split at h
  · next e he =>
      injection h with h
      injection h with h1 h2
      subst h1 h2
      exact ⟨.refl, rfl, .inl ⟨e, he, rfl, rfl⟩⟩
  · next hn =>
      split at h
      · next hcalls =>
          injection h with h
          injection h with h1 h2
          subst h1 h2
          exact ⟨(Activity.refl.emitWithout rfl).tick, rfl,
            .inr (.inl ⟨hn, List.isEmpty_iff.mp hcalls, rfl, rfl⟩)⟩
      · next hcalls =>
          simp only [Option.map_eq_some_iff, Prod.mk.injEq] at h
          obtain ⟨⟨results, w⟩, hexec, rfl, rfl⟩ := h
          have hw := executeTools_activity (fun _ => isCompaction_of_isTool) hexec
          exact ⟨(hw.emitWithout rfl).tick, rfl,
            .inr (.inr ⟨results, w, hn, by simpa using hcalls, hexec, rfl, rfl⟩)⟩

end Pandaria.Agent
