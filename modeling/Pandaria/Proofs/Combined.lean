import Pandaria.Agent.Hooks

/-!
# What a combination of dispatchers comes to

A combination within a combination is the same as one long one, and a child
that answers nothing changes nothing; both hold of the dispatchers themselves,
whatever their methods do. A combination of one child is not that child. A
tool call hook that lets the call pass loses the input it has changed, and a
hook before a run or a request always hands a builder back, which takes the
place of what the mutation beside it has made of the prompt.
-/

namespace Pandaria.Agent.Hook

open Pandaria.Ai Pandaria.Lib

/-! ## Builders with and without what a mutation reads -/

/-- Upserting a fragment is the same with and without its kind and source. -/
theorem PromptBuilder.plain_upsertFragment (b : PromptBuilder) (f : PromptFragment) :
    (b.upsertFragment f).map plain = b.plain.upsertFragment f.toPromptFragment := by
  rw [upsertFragment, Agent.PromptBuilder.upsertFragment, Option.map_map]
  refine congrArg (Option.map · _) (funext fun content => ?_)
  have hsort (l : List PromptFragment) :
      (l.insertionSort fun f g => f.priority ≤ g.priority).map PromptFragment.toPromptFragment =
        (l.map PromptFragment.toPromptFragment).insertionSort fun f g => f.priority ≤ g.priority :=
    List.map_insertionSort _ _ _ l fun _ _ _ _ => Iff.rfl
  simp only [Function.comp_apply, plain, hsort, List.findIdx?_map]
  cases hf : b.fragments.findIdx? fun g => g.id = f.id with
  | none =>
      have hf' : b.fragments.findIdx?
          ((fun g => decide (g.id = f.id)) ∘ PromptFragment.toPromptFragment) = none := hf
      simp [hf']
  | some pos =>
      have hf' : b.fragments.findIdx?
          ((fun g => decide (g.id = f.id)) ∘ PromptFragment.toPromptFragment) = some pos := hf
      simp [hf', List.map_set]

/-! ## Combinations of combinations -/

section Combinations

variable {m : Type → Type} [Monad m] [LawfulMonad m]

theorem combined_flatten (l₁ l₂ l₃ : List (HookDispatcher m)) :
    CombinedDispatcher (l₁ ++ CombinedDispatcher l₂ :: l₃) =
      CombinedDispatcher (l₁ ++ l₂ ++ l₃) := by
  ext c : 2
  · simp only [CombinedDispatcher, List.map_append, List.map_cons]
    exact firstFinal_flatten rfl _ _ _
  · simp only [CombinedDispatcher, List.map_append, List.map_cons]
    exact firstFinal_flatten rfl _ _ _
  · simp only [CombinedDispatcher, List.map_append, List.map_cons, Pipeline.run_flatten]
  · simp only [CombinedDispatcher, List.map_append, List.map_cons, Pipeline.run_flatten]
  · simp only [CombinedDispatcher, List.map_append, List.map_cons, Pipeline.run_flatten]
  · simp only [CombinedDispatcher, List.map_append, List.map_cons, Pipeline.run_flatten]
  · simp only [CombinedDispatcher, List.map_append, List.map_cons, Pipeline.run_flatten]
  · simp [CombinedDispatcher]

theorem combined_passThrough (l₁ l₂ : List (HookDispatcher m)) :
    CombinedDispatcher (l₁ ++ .passThrough :: l₂) = CombinedDispatcher (l₁ ++ l₂) := by
  ext c : 2
  · simp only [CombinedDispatcher, List.map_append, List.map_cons]
    exact firstFinal_pure rfl _ _
  · simp only [CombinedDispatcher, List.map_append, List.map_cons]
    exact firstFinal_pure rfl _ _
  · simp only [CombinedDispatcher, List.map_append, List.map_cons]
    exact congrFun (toolResultPipeline.run_pure _ _) c
  · simp only [CombinedDispatcher, List.map_append, List.map_cons]
    exact congrFun (contextPipeline.run_pure _ _) c
  · simp only [CombinedDispatcher, List.map_append, List.map_cons]
    exact congrFun (startPipeline.run_pure _ _) c
  · simp only [CombinedDispatcher, List.map_append, List.map_cons]
    exact congrFun (requestPipeline.run_pure _ _) c
  · simp only [CombinedDispatcher, List.map_append, List.map_cons]
    exact congrFun (responsePipeline.run_pure _ _) c
  · simp [CombinedDispatcher, HookDispatcher.passThrough]

/-- Among children that answer nothing, one is alone. -/
theorem combined_alone (d : HookDispatcher m) (n₁ n₂ : Nat) :
    CombinedDispatcher (List.replicate n₁ .passThrough ++ d :: List.replicate n₂ .passThrough) =
      CombinedDispatcher [d] := by
  induction n₁ with
  | zero =>
      induction n₂ with
      | zero => rfl
      | succ n ih => exact (combined_passThrough [d] _).trans ih
  | succ n ih => exact (combined_passThrough [] _).trans ih

end Combinations

/-! ## A combination of one -/

section Alone

variable {σ : Type}

/-- Changing every answer changes nothing when the caller cannot tell the
answers apart; when there is a panic there is no answer to change. -/
theorem withTimeout_map_eq_iff {α β : Type} (consume : α → β) (f : α → α) (default : α)
    (future : HookM σ α) (s : σ) :
    (consume <$> withTimeout (f <$> future) default) s =
        (consume <$> withTimeout future default) s ↔
      ∀ r, (future.run s).1 = some r → consume (f r) = consume r := by
  have hleft : (consume <$> withTimeout (f <$> future) default) s =
      (consume (((future.run s).1.map f).getD default), (future.run s).2) := by
    rw [withTimeout, OptionT.run_map]
    rfl
  have hright : (consume <$> withTimeout future default) s =
      (consume ((future.run s).1.getD default), (future.run s).2) := rfl
  rw [hleft, hright, Prod.mk.injEq, and_iff_left rfl]
  cases (future.run s).1 with
  | none => exact ⟨fun _ r hr => (by cases hr), fun _ => rfl⟩
  | some r =>
      constructor
      · rintro h r' ⟨⟩
        exact h
      · exact fun h => h r rfl

/-- What the agent loop makes of an answer about the prompt is the same with
and without a builder in it. -/
def PromptKept (b : PromptBuilder) (skills : List LoadedSkill)
    (promptMutation : Option PromptMutation) (systemPrompt : Option PromptBuilder) : Prop :=
  systemPrompt.isSome = true ∨
    ∀ b', b.update skills promptMutation none = some b' → b.injectSkills skills = some b'

theorem update_getD_iff {b : PromptBuilder} {skills : List LoadedSkill}
    {pm : Option PromptMutation} {sp : Option PromptBuilder} :
    b.update skills pm (some (sp.getD b)) = b.update skills pm sp ↔
      PromptKept b skills pm sp := by
  cases sp with
  | some builder => simp [PromptKept]
  | none =>
      have hupdate (builder : PromptBuilder) : b.update skills pm (some builder) =
          (b.update skills pm none).bind fun _ => builder.injectSkills skills := by
        cases pm with
        | none => rfl
        | some m =>
            simp only [PromptBuilder.update]
            cases b.applyMutation m with
            | none => rfl
            | some mutated => rfl
      rw [PromptKept, Option.getD_none, hupdate]
      cases b.update skills pm none with
      | none => simp
      | some b' => simp

/-- The options a request hook is shown change nothing when they come back. -/
theorem apply_fromOptions (o : StreamOptions) :
    (ProviderStreamOptions.fromOptions o).apply o = o := by
  simp [ProviderStreamOptions.fromOptions, ProviderStreamOptions.apply]

/-- The caller of a hook loses nothing of the answer of `d` when `d` is asked
in a combination. -/
def Kept (d : HookDispatcher (HookM σ)) (s : σ) : HookPoint → Prop
  | .toolCall ctx => ∀ input,
      ((d.onToolCall ctx).run s).1 = some (.continue_, ⟨some input⟩) → input = ctx.input
  | .beforeAgentStart config initialMessages => ∀ r,
      ((d.onBeforeAgentStart (HookPoint.startCtx config initialMessages)).run s).1 = some r →
        PromptKept config.promptBuilder config.skills r.promptMutation r.systemPrompt
  | .beforeProviderRequest config builder turnIndex messages => ∀ r,
      ((d.onBeforeProviderRequest
        (HookPoint.requestCtx config builder turnIndex messages)).run s).1 = some r →
        PromptKept builder config.skills r.promptMutation r.systemPrompt
  | .toolResult .. | .beforeCompact _ | .context _ | .afterProviderResponse ..
  | .observation _ => True

theorem toolCall_iff (d : HookDispatcher (HookM σ)) (s : σ) (ctx : ToolCallCtx) :
    (CombinedDispatcher [d]).effect (.toolCall ctx) s = d.effect (.toolCall ctx) s ↔
      Kept d s (.toolCall ctx) := by
  have hone : (CombinedDispatcher [d]).onToolCall ctx =
      (fun r => if isBlock r.1 then r else (.continue_, .default)) <$> d.onToolCall ctx :=
    firstFinal_singleton _
  rw [HookDispatcher.effect, HookDispatcher.effect, hone]
  refine (withTimeout_map_eq_iff (ToolCallStep.of ctx.input) _ _ _ s).trans ?_
  constructor
  · intro h input hr
    simpa [isBlock, ToolCallStep.of, ToolCallMutation.default, eq_comm] using h _ hr
  · rintro h ⟨decision, ⟨mutated⟩⟩ hr
    cases decision with
    | block reason => rfl
    | continue_ =>
        cases mutated with
        | none => rfl
        | some input => simp [isBlock, ToolCallStep.of, ToolCallMutation.default, h input hr]

theorem beforeAgentStart_iff (d : HookDispatcher (HookM σ)) (s : σ) (config : AgentLoopConfig)
    (initialMessages : List AgentMessage) :
    (CombinedDispatcher [d]).effect (.beforeAgentStart config initialMessages) s =
        d.effect (.beforeAgentStart config initialMessages) s ↔
      Kept d s (.beforeAgentStart config initialMessages) := by
  have hone : (CombinedDispatcher [d]).onBeforeAgentStart =
      fun c => startPipeline.through c <$> d.onBeforeAgentStart c :=
    funext (startPipeline.run_singleton d.onBeforeAgentStart)
  rw [HookDispatcher.effect, HookDispatcher.effect, hone]
  refine (withTimeout_map_eq_iff _ _ _ _ s).trans ?_
  refine forall_congr' fun r => imp_congr_right fun _ => ?_
  show (config.promptBuilder.update config.skills (r.promptMutation.or none)
      (some (r.systemPrompt.getD config.promptBuilder))).map
        (fun b => (b, r.messages.getD initialMessages)) =
    (config.promptBuilder.update config.skills r.promptMutation r.systemPrompt).map
        (fun b => (b, r.messages.getD initialMessages)) ↔ _
  rw [Option.or_none, (Option.map_injective fun b b' h => congrArg Prod.fst h).eq_iff]
  exact update_getD_iff

theorem beforeProviderRequest_iff (d : HookDispatcher (HookM σ)) (s : σ)
    (config : AgentLoopConfig) (builder : PromptBuilder) (turnIndex : Nat)
    (messages : List AgentMessage) :
    (CombinedDispatcher [d]).effect (.beforeProviderRequest config builder turnIndex messages) s =
        d.effect (.beforeProviderRequest config builder turnIndex messages) s ↔
      Kept d s (.beforeProviderRequest config builder turnIndex messages) := by
  have hone : (CombinedDispatcher [d]).onBeforeProviderRequest =
      fun c => requestPipeline.through c <$> d.onBeforeProviderRequest c :=
    funext (requestPipeline.run_singleton d.onBeforeProviderRequest)
  rw [HookDispatcher.effect, HookDispatcher.effect, hone]
  refine (withTimeout_map_eq_iff _ _ _ _ s).trans ?_
  refine forall_congr' fun r => imp_congr_right fun _ => ?_
  -- The options come back as they were shown, or as the child has set them.
  have hfinish : (requestPipeline.through (HookPoint.requestCtx config builder turnIndex messages)
        r).finish (HookPoint.llmContext config builder messages) config.streamOptions =
      r.finish (HookPoint.llmContext config builder messages) config.streamOptions := by
    funext b
    refine congrArg (fun opts => (b, _, opts)) ?_
    cases ho : r.options with
    | none => simp [requestPipeline, Pipeline.through, HookPoint.requestCtx, ho, apply_fromOptions]
    | some o => simp [requestPipeline, Pipeline.through, ho]
  have hinj : Function.Injective
      (r.finish (HookPoint.llmContext config builder messages) config.streamOptions) :=
    fun b b' h => congrArg Prod.fst h
  rw [applyProviderRequestMutation, applyProviderRequestMutation, hfinish]
  refine (Option.map_injective hinj).eq_iff.trans ?_
  show builder.update config.skills (r.promptMutation.or none)
      (some (r.systemPrompt.getD builder)) = _ ↔ _
  rw [Option.or_none]
  exact update_getD_iff

theorem combined_onBeforeCompact (d : HookDispatcher (HookM σ)) :
    (CombinedDispatcher [d]).onBeforeCompact = d.onBeforeCompact := by
  funext ctx
  have hid : (fun r => if isDecided r then r else CompactDecision.continue_) = id := by
    funext r
    cases r <;> rfl
  refine (firstFinal_singleton _).trans ?_
  rw [hid, id_map]

theorem combined_onToolResult (d : HookDispatcher (HookM σ)) :
    (CombinedDispatcher [d]).onToolResult = d.onToolResult := by
  funext ctx
  have hid : toolResultPipeline.through ctx = id := by
    funext r
    simp [Pipeline.through, toolResultPipeline, ToolResultMutation.default]
  refine (toolResultPipeline.run_singleton _ ctx).trans ?_
  rw [hid, id_map]

theorem combined_onAfterProviderResponse (d : HookDispatcher (HookM σ)) :
    (CombinedDispatcher [d]).onAfterProviderResponse = d.onAfterProviderResponse := by
  funext ctx
  have hid : responsePipeline.through ctx = id := by
    funext r
    simp [Pipeline.through, responsePipeline, ProviderResponseMutation.default]
  refine (responsePipeline.run_singleton _ ctx).trans ?_
  rw [hid, id_map]

theorem combined_observe (d : HookDispatcher (HookM σ)) :
    (CombinedDispatcher [d]).observe = d.observe := by
  funext o
  simp [CombinedDispatcher]

/-- What comes of a hook is the same in a combination of one exactly when the
caller loses nothing of the answer. -/
theorem effect_combined_iff (d : HookDispatcher (HookM σ)) (p : HookPoint) (s : σ) :
    (CombinedDispatcher [d]).effect p s = d.effect p s ↔ Kept d s p := by
  cases p with
  | toolCall ctx => exact toolCall_iff d s ctx
  | beforeAgentStart config initialMessages => exact beforeAgentStart_iff d s config initialMessages
  | beforeProviderRequest config builder turnIndex messages =>
      exact beforeProviderRequest_iff d s config builder turnIndex messages
  | toolResult ctx result =>
      refine iff_of_true ?_ trivial
      rw [HookDispatcher.effect, HookDispatcher.effect, combined_onToolResult]
  | beforeCompact ctx =>
      refine iff_of_true ?_ trivial
      rw [HookDispatcher.effect, HookDispatcher.effect, combined_onBeforeCompact]
  | context ctx =>
      refine iff_of_true ?_ trivial
      have hone : (CombinedDispatcher [d]).onContext =
          fun c => contextPipeline.through c <$> d.onContext c :=
        funext (contextPipeline.run_singleton d.onContext)
      rw [HookDispatcher.effect, HookDispatcher.effect, hone]
      exact (withTimeout_map_eq_iff _ _ _ _ s).mpr fun r _ => rfl
  | afterProviderResponse config turnIndex attempt messagesBefore reply =>
      refine iff_of_true ?_ trivial
      rw [HookDispatcher.effect, HookDispatcher.effect, combined_onAfterProviderResponse]
  | observation o =>
      refine iff_of_true ?_ trivial
      rw [HookDispatcher.effect, HookDispatcher.effect, combined_observe]

/-! ## The laws -/

/-- Two dispatchers have the same method for a hook point. -/
def AnswersAlike (p : HookPoint) (d e : HookDispatcher (HookM σ)) : Prop :=
  match p with
  | .toolCall _ => d.onToolCall = e.onToolCall
  | .toolResult .. => d.onToolResult = e.onToolResult
  | .beforeCompact _ => d.onBeforeCompact = e.onBeforeCompact
  | .context _ => d.onContext = e.onContext
  | .beforeAgentStart .. => d.onBeforeAgentStart = e.onBeforeAgentStart
  | .beforeProviderRequest .. => d.onBeforeProviderRequest = e.onBeforeProviderRequest
  | .afterProviderResponse .. => d.onAfterProviderResponse = e.onAfterProviderResponse
  | .observation _ => d.observe = e.observe

/-- What comes of a hook depends on nothing but the children's methods for it. -/
theorem effect_congr {p : HookPoint} {l l' : List (HookDispatcher (HookM σ))}
    (h : List.Forall₂ (AnswersAlike p) l l') :
    (CombinedDispatcher l).effect p = (CombinedDispatcher l').effect p := by
  have hmap {β : Type} {f : HookDispatcher (HookM σ) → β}
      (hf : ∀ d e, AnswersAlike p d e → f d = f e) : l.map f = l'.map f := by
    induction h with
    | nil => rfl
    | cons hde _ ih => rw [List.map_cons, List.map_cons, hf _ _ hde, ih]
  cases p with
  | toolCall ctx | beforeCompact ctx =>
      simp only [HookDispatcher.effect, CombinedDispatcher]
      rw [hmap fun d e hde => congrFun hde ctx]
  | toolResult | context | beforeAgentStart | beforeProviderRequest | afterProviderResponse =>
      simp only [HookDispatcher.effect, CombinedDispatcher]
      rw [hmap fun d e hde => hde]
  | observation o =>
      have hforM (l : List (HookDispatcher (HookM σ))) :
          l.forM (fun d => d.observe o) = (l.map fun d => d.observe o).forM id := by
        simp
      simp only [HookDispatcher.effect, CombinedDispatcher, hforM]
      rw [hmap fun d e hde => congrFun hde o]

/-- Among children that say nothing there, one child is alone. -/
theorem effect_alone {p : HookPoint} {l₁ l₂ : List (HookDispatcher (HookM σ))}
    (h₁ : ∀ e ∈ l₁, AnswersAlike p e .passThrough) (h₂ : ∀ e ∈ l₂, AnswersAlike p e .passThrough)
    (d : HookDispatcher (HookM σ)) :
    (CombinedDispatcher (l₁ ++ d :: l₂)).effect p = (CombinedDispatcher [d]).effect p := by
  have hsilent {l : List (HookDispatcher (HookM σ))}
      (h : ∀ e ∈ l, AnswersAlike p e .passThrough) :
      List.Forall₂ (AnswersAlike p) l (List.replicate l.length .passThrough) := by
    induction l with
    | nil => exact .nil
    | cons e l ih =>
        exact .cons (h e List.mem_cons_self) (ih fun e he => h e (List.mem_cons_of_mem _ he))
  have hsame : AnswersAlike p d d := by
    cases p <;> rfl
  rw [← combined_alone d l₁.length l₂.length]
  exact effect_congr (List.rel_append (hsilent h₁) (.cons hsame (hsilent h₂)))

/-- Flattening changes nothing of what comes of any hook. A child among others
that say nothing at a hook point has the effect it has on its own exactly when
the tool call it lets pass has the input it came with, and the prompt it has
changed has either been handed back whole or is the one the skills make. -/
theorem combination_laws :
    (∀ (l₁ l₂ l₃ : List (HookDispatcher (HookM σ))) (p : HookPoint) (s : σ),
      (CombinedDispatcher (l₁ ++ CombinedDispatcher l₂ :: l₃)).effect p s =
        (CombinedDispatcher (l₁ ++ l₂ ++ l₃)).effect p s) ∧
    ∀ (d : HookDispatcher (HookM σ)) (p : HookPoint) (s : σ),
      (∀ l₁ l₂ : List (HookDispatcher (HookM σ)), (∀ e ∈ l₁, AnswersAlike p e .passThrough) →
        (∀ e ∈ l₂, AnswersAlike p e .passThrough) →
          (CombinedDispatcher (l₁ ++ d :: l₂)).effect p s = d.effect p s) ↔ Kept d s p := by
  refine ⟨fun l₁ l₂ l₃ p s => by rw [combined_flatten], fun d p s => ?_⟩
  constructor
  · intro h
    exact (effect_combined_iff d p s).mp
      (h [] [] (fun e he => by cases he) fun e he => by cases he)
  · intro h l₁ l₂ h₁ h₂
    rw [effect_alone h₁ h₂]
    exact (effect_combined_iff d p s).mpr h

end Alone

/-- A hook that takes the secrets out of what a tool is called with. -/
def redacting : HookDispatcher (HookM Unit) :=
  { HookDispatcher.passThrough with
    onToolCall := fun _ => pure (.continue_, ⟨some .null⟩) }

theorem not_neutral : ¬ ∀ (d : HookDispatcher (HookM Unit)) (p : HookPoint) (s : Unit),
    (CombinedDispatcher [d]).effect p s = d.effect p s := by
  intro h
  have hcall := h redacting (.toolCall ⟨"t", "s", "bash", "1", .str "x"⟩) ()
  have hinput : (ToolCallStep.execute (.str "x"), ()) = (ToolCallStep.execute .null, ()) := hcall
  cases hinput

/-! ## The tool executor

Of what the hook before a tool call answers, the executor reads nothing but the
step it is to take. -/

theorem executeToolCall_congr {env : Env} {tc : ToolCall} {w : World}
    {answer answer' : Nat → HookDecision × Option Json}
    (h : ToolCallStep.of tc.arguments ((answer w.now).1, ⟨(answer w.now).2⟩) =
      ToolCallStep.of tc.arguments ((answer' w.now).1, ⟨(answer' w.now).2⟩)) :
    executeToolCall { env with onToolCall := answer } tc w =
      executeToolCall { env with onToolCall := answer' } tc w := by
  simp only [executeToolCall, World.await]
  generalize answer w.now = a at h ⊢
  generalize answer' w.now = a' at h ⊢
  obtain ⟨decision, input⟩ := a
  obtain ⟨decision', input'⟩ := a'
  cases decision with
  | block reason =>
      cases decision' with
      | block reason' =>
          injection h with h
          subst h
          rfl
      | continue_ => cases h
  | continue_ =>
      cases decision' with
      | block reason' => cases h
      | continue_ =>
          injection h with h
          simp only [h]
          rfl

end Pandaria.Agent.Hook

/-!
## The chain of result hooks

All dispatchers of a chain are asked about the result as the tool has made it, and
their answers are put together field by field. So one that says nothing takes nothing
back, but one that goes by what it is told may; and a panic takes back everything.
-/

namespace Pandaria.Agent.Hook

open Pandaria.Ai Pandaria.Lib

variable {σ : Type} {ctx : ToolCallCtx} {result : AgentToolResult}
  {chain : List (HookDispatcher (HookM σ))} {s : σ}

/-! ### What a chain is asked and answers -/

/-- What a dispatcher is told of a result. -/
def told (ctx : ToolCallCtx) (result : AgentToolResult) : ToolResultCtx :=
  { ctx with content := result.content, details := result.details, isError := result.isError }

/-- What a reply makes of a result. A panic says nothing. -/
def rewrite (result : AgentToolResult) (reply : Option ToolResultMutation) : AgentToolResult :=
  (reply.getD ToolResultMutation.default).apply result

/-- A dispatcher that writes down what it is told of results and what it replies. -/
def noted (d : HookDispatcher (HookM σ)) :
    HookDispatcher (HookM (σ × List (ToolResultCtx × Option ToolResultMutation))) :=
  { HookDispatcher.passThrough with onToolResult := recorded d.onToolResult }

/-- What the dispatchers of a chain are told, and what they reply. -/
def record (chain : List (HookDispatcher (HookM σ))) (ctx : ToolCallCtx) (result : AgentToolResult)
    (s : σ) : List (ToolResultCtx × Option ToolResultMutation) :=
  (((CombinedDispatcher (chain.map noted)).onToolResult (told ctx result)).run (s, [])).2.2

/-- The result the executor goes on with. -/
def handedOn (chain : List (HookDispatcher (HookM σ))) (ctx : ToolCallCtx)
    (result : AgentToolResult) (s : σ) : AgentToolResult :=
  ((CombinedDispatcher chain).effect (.toolResult ctx result) s).1

/-- Each is told the result as those before it have rewritten it, the result is what all
have made of it, and who says nothing takes nothing back. -/
structure Piped (chain : List (HookDispatcher (HookM σ))) (ctx : ToolCallCtx)
    (result : AgentToolResult) (s : σ) : Prop where
  receives : ∀ before c reply after, record chain ctx result s = before ++ (c, reply) :: after →
    c = told ctx ((before.map Prod.snd).foldl rewrite result)
  composed : handedOn chain ctx result s =
    ((record chain ctx result s).map Prod.snd).foldl rewrite result
  kept : ∀ before after, record chain ctx result s = before ++ after →
    (∀ e ∈ after, e.2 = some ToolResultMutation.default) →
      handedOn chain ctx result s = (before.map Prod.snd).foldl rewrite result

/-- What the dispatchers reply when each of them is told `c`. -/
def replies (c : ToolResultCtx) :
    List (HookDispatcher (HookM σ)) → σ → List (Option ToolResultMutation)
  | [], _ => []
  | d :: rest, s =>
      match (d.onToolResult c).run s with
      | (none, _) => [none]
      | (some m, s') => some m :: replies c rest s'

/-- Told what the tool has made, no dispatcher changes what one after it should be told,
and nobody has changed the terminate flag when there is a panic. -/
structure Unseen (chain : List (HookDispatcher (HookM σ))) (ctx : ToolCallCtx)
    (result : AgentToolResult) (s : σ) : Prop where
  silent : ∀ before m after, replies (told ctx result) chain s = before ++ some m :: after →
    after ≠ [] → told ctx (m.apply result) = told ctx result
  calm : none ∈ replies (told ctx result) chain s →
    ((replies (told ctx result) chain s).foldl rewrite result).terminate = result.terminate

/-! ### Replies -/

theorem exchange_eq (c : ToolResultCtx) (chain : List (HookDispatcher (HookM σ)))
    (a : ToolResultMutation) (s : σ) :
    toolResultPipeline.exchange c (chain.map HookDispatcher.onToolResult) a s =
      (replies c chain s).map fun reply => (c, reply) := by
  induction chain generalizing a s with
  | nil => rfl
  | cons d rest ih =>
      have hask : toolResultPipeline.ask c a = c := rfl
      rw [List.map_cons, Pipeline.exchange, replies, hask]
      cases (d.onToolResult c).run s with
      | mk r s' =>
          cases r with
          | none => rfl
          | some r => exact congrArg (List.cons _) (ih _ s')

theorem record_eq (chain : List (HookDispatcher (HookM σ))) (ctx : ToolCallCtx)
    (result : AgentToolResult) (s : σ) :
    record chain ctx result s =
      (replies (told ctx result) chain s).map fun reply => (told ctx result, reply) := by
  have hmap : (chain.map noted).map HookDispatcher.onToolResult =
      (chain.map HookDispatcher.onToolResult).map recorded := by
    rw [List.map_map, List.map_map]
    rfl
  show ((toolResultPipeline.run ((chain.map noted).map HookDispatcher.onToolResult)
    (told ctx result)).run (s, [])).2.2 = _
  rw [hmap, Pipeline.run_recorded, List.nil_append, exchange_eq]

theorem snd_told (c : ToolResultCtx) (rs : List (Option ToolResultMutation)) :
    (rs.map fun reply => (c, reply)).map Prod.snd = rs := by
  rw [List.map_map]
  exact List.map_id rs

/-- Nobody is asked after a panic. -/
theorem eq_append_none {c : ToolResultCtx} (h : none ∈ replies c chain s) :
    ∃ before, replies c chain s = before ++ [none] := by
  induction chain generalizing s with
  | nil => cases h
  | cons d rest ih =>
      rw [replies] at h ⊢
      cases hrun : (d.onToolResult c).run s with
      | mk r s' =>
          rw [hrun] at h
          cases r with
          | none => exact ⟨[], rfl⟩
          | some m =>
              have hrest : none ∈ replies c rest s' := by
                rcases List.mem_cons.mp h with h | h
                · cases h
                · exact h
              obtain ⟨before, heq⟩ := ih hrest
              exact ⟨some m :: before, congrArg (List.cons _) heq⟩

/-! ### Putting replies together -/

theorem default_apply (result : AgentToolResult) :
    ToolResultMutation.default.apply result = result := by
  simp [ToolResultMutation.default, ToolResultMutation.apply]

theorem absorb_apply (a m : ToolResultMutation) (result : AgentToolResult) :
    (toolResultPipeline.absorb a m).apply result = m.apply (a.apply result) := by
  cases hc : m.content <;> cases he : m.isError <;> cases ht : m.terminate <;>
    simp [toolResultPipeline, ToolResultMutation.apply, Option.or_assoc, hc, he, ht]

/-- What is put together has the effect of the replies one after the other, unless there is
a panic among them. -/
theorem gather_apply (c : ToolResultCtx) (rs : List (Option ToolResultMutation))
    (a : ToolResultMutation) (result : AgentToolResult) :
    ((toolResultPipeline.gather (rs.map fun reply => (c, reply)) a).getD
        ToolResultMutation.default).apply result =
      if none ∈ rs then result else rs.foldl rewrite (a.apply result) := by
  induction rs generalizing a with
  | nil => rfl
  | cons r rest ih =>
      cases r with
      | none =>
          rw [if_pos List.mem_cons_self]
          exact default_apply result
      | some m =>
          refine (ih (toolResultPipeline.absorb a m)).trans ?_
          rw [absorb_apply]
          refine if_congr ⟨List.mem_cons_of_mem _, fun h => ?_⟩ rfl rfl
          rcases List.mem_cons.mp h with h | h
          · cases h
          · exact h

theorem handedOn_eq (chain : List (HookDispatcher (HookM σ))) (ctx : ToolCallCtx)
    (result : AgentToolResult) (s : σ) :
    handedOn chain ctx result s =
      if none ∈ replies (told ctx result) chain s then result
      else (replies (told ctx result) chain s).foldl rewrite result := by
  have hanswer := toolResultPipeline.run_answer (chain.map HookDispatcher.onToolResult)
    (told ctx result) s
  rw [exchange_eq] at hanswer
  have hmap := gather_apply (told ctx result) (replies (told ctx result) chain s)
    ToolResultMutation.default result
  rw [default_apply] at hmap
  rw [← hmap]
  show ((((toolResultPipeline.run (chain.map HookDispatcher.onToolResult)
    (told ctx result)).run s).1).getD ToolResultMutation.default).apply result = _
  have hid : toolResultPipeline.answer = id := rfl
  rw [hanswer, hid, Option.map_id]
  rfl

/-! ### The conditions -/

/-- What is told after a reply depends on what was told before. -/
theorem told_apply {result' : AgentToolResult} (h : told ctx result' = told ctx result)
    (m : ToolResultMutation) : told ctx (m.apply result') = told ctx (m.apply result) := by
  simp only [told, ToolResultCtx.mk.injEq, true_and] at h
  obtain ⟨hcontent, hdetails, herror⟩ := h
  simp only [told, ToolResultMutation.apply, hcontent, hdetails, herror]

theorem eq_of_told {result' : AgentToolResult} (h : told ctx result' = told ctx result)
    (hflag : result'.terminate = result.terminate) : result' = result := by
  simp only [told, ToolResultCtx.mk.injEq, true_and] at h
  obtain ⟨hcontent, hdetails, herror⟩ := h
  cases result'
  cases result
  simp_all

/-- Replies that change nothing of what is told. -/
theorem told_foldl {rs : List (Option ToolResultMutation)}
    (h : ∀ m, some m ∈ rs → told ctx (m.apply result) = told ctx result)
    {result' : AgentToolResult} (hstart : told ctx result' = told ctx result) :
    told ctx (rs.foldl rewrite result') = told ctx result := by
  induction rs generalizing result' with
  | nil => exact hstart
  | cons r rest ih =>
      refine ih (fun m hm => h m (List.mem_cons_of_mem _ hm)) ?_
      cases r with
      | none =>
          rw [rewrite, Option.getD_none, default_apply]
          exact hstart
      | some m => exact (told_apply hstart m).trans (h m List.mem_cons_self)

theorem Unseen.unchanged (h : Unseen chain ctx result s)
    {before after : List (Option ToolResultMutation)}
    (heq : replies (told ctx result) chain s = before ++ after) (hne : after ≠ []) :
    told ctx (before.foldl rewrite result) = told ctx result := by
  refine told_foldl (fun m hm => ?_) rfl
  obtain ⟨front, back, hsplit⟩ := List.append_of_mem hm
  refine h.silent front m (back ++ after) ?_ (List.append_ne_nil_of_right_ne_nil _ hne)
  rw [heq, hsplit, List.append_assoc]
  rfl

/-- Who says nothing takes nothing back. -/
theorem foldl_default {rs : List (Option ToolResultMutation)}
    (h : ∀ r ∈ rs, r = some ToolResultMutation.default) (result : AgentToolResult) :
    rs.foldl rewrite result = result := by
  induction rs with
  | nil => rfl
  | cons r rest ih =>
      rw [List.foldl_cons, h r List.mem_cons_self, rewrite, Option.getD_some, default_apply]
      exact ih fun r hr => h r (List.mem_cons_of_mem _ hr)

/-- What comes of a chain without a disturbance is what all have made of the result. -/
theorem Unseen.composed (h : Unseen chain ctx result s) :
    handedOn chain ctx result s = (replies (told ctx result) chain s).foldl rewrite result := by
  rw [handedOn_eq]
  split
  · next hpanic =>
      have htold : told ctx ((replies (told ctx result) chain s).foldl rewrite result) =
          told ctx result := by
        obtain ⟨before, heq⟩ := eq_append_none hpanic
        rw [heq, List.foldl_append]
        show told ctx (ToolResultMutation.default.apply (before.foldl rewrite result)) = _
        rw [default_apply]
        exact h.unchanged heq (List.cons_ne_nil _ _)
      exact (eq_of_told htold (h.calm hpanic)).symm
  · rfl

/-- Each is asked about the result as the tool has made it, so a pipeline hands it on as it
was. -/
theorem Piped.unchanged (h : Piped chain ctx result s)
    {before after : List (Option ToolResultMutation)} {reply : Option ToolResultMutation}
    (heq : replies (told ctx result) chain s = before ++ reply :: after) :
    told ctx (before.foldl rewrite result) = told ctx result := by
  have hreceives := h.receives (before.map fun reply => (told ctx result, reply))
    (told ctx result) reply (after.map fun reply => (told ctx result, reply)) (by
      rw [record_eq, heq, List.map_append]
      rfl)
  rw [snd_told] at hreceives
  exact hreceives.symm

/-- A run is a pipeline exactly when nobody has changed what is told to one after it, and a
panic has nothing to take back. -/
theorem piped_iff (chain : List (HookDispatcher (HookM σ))) (ctx : ToolCallCtx)
    (result : AgentToolResult) (s : σ) : Piped chain ctx result s ↔ Unseen chain ctx result s := by
  constructor
  · intro h
    refine ⟨fun before m after heq hne => ?_, fun hpanic => ?_⟩
    · obtain ⟨r, after, rfl⟩ := List.exists_cons_of_ne_nil hne
      have hbefore := h.unchanged heq
      have heq' : replies (told ctx result) chain s = (before ++ [some m]) ++ r :: after := by
        rw [heq, List.append_assoc]
        rfl
      have hafter := h.unchanged heq'
      rw [List.foldl_append] at hafter
      exact (told_apply hbefore m).symm.trans hafter
    · have hcomposed := h.composed
      rw [handedOn_eq, if_pos hpanic, record_eq, snd_told] at hcomposed
      rw [← hcomposed]
  · intro h
    have hcomposed := h.composed
    rw [← snd_told (told ctx result) (replies _ _ _), ← record_eq] at hcomposed
    refine ⟨fun before c reply after heq => ?_, hcomposed, fun before after heq hsilent => ?_⟩
    · rw [record_eq] at heq
      obtain ⟨front, back, hsplit, rfl, hback⟩ := List.map_eq_append_iff.mp heq
      obtain ⟨r, rest, rfl, hr, -⟩ := List.map_eq_cons_iff.mp hback
      injection hr with hc _
      rw [snd_told, h.unchanged hsplit (List.cons_ne_nil _ _)]
      exact hc.symm
    · rw [hcomposed, heq, List.map_append, List.foldl_append]
      refine foldl_default (fun r hr => ?_) _
      obtain ⟨e, he, rfl⟩ := List.mem_map.mp hr
      exact hsilent e he

/-! ### A redaction -/

/-- Takes out what the tool has said. -/
def redactor : HookDispatcher (HookM Unit) :=
  { HookDispatcher.passThrough with
    onToolResult := fun _ => pure { ToolResultMutation.default with content := some [] } }

/-- Adds a line to what it is told. -/
def annotator : HookDispatcher (HookM Unit) :=
  { HookDispatcher.passThrough with
    onToolResult := fun c => pure { ToolResultMutation.default with
      content := some (c.content ++ [.text "checked" none]) } }

/-- The line is added to what the tool has said, and so that comes back. -/
theorem not_piped :
    ¬ Piped [redactor, annotator] ⟨"t", "s", "read", "1", .null⟩
        ⟨[.text "secret" none], none, false, false⟩ () ∧
      Content.text "secret" none ∈ (handedOn [redactor, annotator] ⟨"t", "s", "read", "1", .null⟩
        ⟨[.text "secret" none], none, false, false⟩ ()).content := by
  constructor
  · intro h
    have hcontent := congrArg ToolResultCtx.content (h.receives [_] _ _ [] rfl)
    cases hcontent
  · exact List.mem_cons_self

end Pandaria.Agent.Hook
