import Pandaria.Agent.Hooks
import Pandaria.Proofs.Combined

/-!
# The first block of a tool call wins

A dispatcher may keep a state, so what one of a chain says depends on who has been
asked before it. As long as nobody panics, the answer of the chain is a block
exactly when one of its answers is, and then it is the first of them. What the
others of the chain have made of the input is lost either way.
-/

namespace Pandaria.Agent.Hook

open Pandaria.Ai Pandaria.Lib

variable {σ : Type}

/-! ## What a chain says -/

/-- What a dispatcher says to a call. A panic says nothing. -/
abbrev Answer := Option (HookDecision × ToolCallMutation)

/-- What each dispatcher of a chain says, in the state those before it have left. -/
def answers (ctx : ToolCallCtx) : List (HookDispatcher (HookM σ)) → σ → List Answer
  | [], _ => []
  | d :: rest, s =>
      ((d.onToolCall ctx).run s).1 :: answers ctx rest ((d.onToolCall ctx).run s).2

def blockReason : Answer → Option String
  | some (.block reason, _) => some reason
  | _ => none

/-- One of the answers is a block. -/
def anyBlocks (as : List Answer) : Bool := as.any fun a => (blockReason a).isSome

/-- The answer a chain goes on with: the first block, or a panic before it. -/
def firstAnswer : List Answer → Answer
  | [] => some (.continue_, .default)
  | none :: _ => none
  | some a :: rest => if isBlock a.1 then some a else firstAnswer rest

theorem bind_answer {α β : Type} (x : HookM σ α) (f : α → HookM σ β) (s : σ) :
    ((x >>= f).run s).1 = (x.run s).1.bind fun a => ((f a).run (x.run s).2).1 := by
  rw [run_bind]
  cases x.run s with
  | mk r s' =>
      cases r with
      | none => rfl
      | some a => rfl

theorem combined_answer (ctx : ToolCallCtx) (chain : List (HookDispatcher (HookM σ))) (s : σ) :
    (((CombinedDispatcher chain).onToolCall ctx).run s).1 = firstAnswer (answers ctx chain s) := by
  induction chain generalizing s with
  | nil => rfl
  | cons d rest ih =>
      have hbind : (CombinedDispatcher (d :: rest)).onToolCall ctx =
          d.onToolCall ctx >>= fun r =>
            if isBlock r.1 then pure r else (CombinedDispatcher rest).onToolCall ctx := rfl
      rw [hbind, bind_answer, answers]
      cases ((d.onToolCall ctx).run s).1 with
      | none => rfl
      | some a =>
          show ((if isBlock a.1 then pure a else (CombinedDispatcher rest).onToolCall ctx :
            HookM σ _).run _).1 = if isBlock a.1 then some a else _
          cases isBlock a.1 with
          | true => rfl
          | false => exact ih _

theorem firstAnswer_append (as later : List Answer) (h : anyBlocks as = true) :
    firstAnswer (as ++ later) = firstAnswer as := by
  induction as with
  | nil => cases h
  | cons a rest ih =>
      cases a with
      | none => rfl
      | some a =>
          obtain ⟨decision, mutation⟩ := a
          cases decision with
          | block reason => rfl
          | continue_ => exact ih h

theorem answers_append (ctx : ToolCallCtx) (chain later : List (HookDispatcher (HookM σ)))
    (s : σ) :
    ∃ as, answers ctx (chain ++ later) s = answers ctx chain s ++ as := by
  induction chain generalizing s with
  | nil => exact ⟨_, rfl⟩
  | cons d rest ih =>
      obtain ⟨as, has⟩ := ih ((d.onToolCall ctx).run s).2
      exact ⟨as, congrArg (List.cons _) has⟩

theorem answers_take (ctx : ToolCallCtx) (chain : List (HookDispatcher (HookM σ))) (s : σ)
    (n : Nat) : answers ctx (chain.take n) s = (answers ctx chain s).take n := by
  induction chain generalizing s n with
  | nil =>
      rw [List.take_nil]
      exact List.take_nil.symm
  | cons d rest ih =>
      cases n with
      | zero => rfl
      | succ n => exact congrArg (List.cons _) (ih _ n)

/-- Whoever comes after a block does not count. -/
theorem firstAnswer_answers_append (ctx : ToolCallCtx)
    (chain later : List (HookDispatcher (HookM σ))) (s : σ)
    (h : anyBlocks (answers ctx chain s) = true) :
    firstAnswer (answers ctx (chain ++ later) s) = firstAnswer (answers ctx chain s) := by
  obtain ⟨as, has⟩ := answers_append ctx chain later s
  rw [has, firstAnswer_append _ _ h]

/-- Without a panic, a chain lets a call pass or gives the reason of its first
block. -/
theorem firstAnswer_cases {as : List Answer} (hcalm : none ∉ as) :
    (anyBlocks as = false ∧ firstAnswer as = some (.continue_, .default)) ∨
      ∃ reason mutation, anyBlocks as = true ∧ as.findSome? blockReason = some reason ∧
        firstAnswer as = some (.block reason, mutation) := by
  induction as with
  | nil => exact .inl ⟨rfl, rfl⟩
  | cons a rest ih =>
      cases a with
      | none => exact absurd List.mem_cons_self hcalm
      | some a =>
          obtain ⟨decision, mutation⟩ := a
          cases decision with
          | block reason => exact .inr ⟨reason, mutation, rfl, rfl, rfl⟩
          | continue_ => exact ih fun h => hcalm (List.mem_cons_of_mem _ h)

/-! ## What the executor does -/

/-- The tools run, with what they are run on. -/
def executions (trace : List Obs) : List (String × Json) :=
  trace.filterMap fun
    | .execute id input => some (id, input)
    | _ => none

theorem executions_append (xs ys : List Obs) :
    executions (xs ++ ys) = executions xs ++ executions ys :=
  List.filterMap_append

theorem executions_tick (env : Env) (w : World) :
    executions (w.tick env).trace = executions w.trace := by
  rw [World.tick]
  show executions (if env.abort w.now then w.trace ++ [.abort] else w.trace) = _
  split
  · rw [executions_append]
    exact List.append_nil _
  · rfl

theorem executions_progress (id : String) (progress : List String) (w : World) :
    executions (progress.foldl (fun w c => w.emit (.toolExecutionUpdate id c)) w).trace =
      executions w.trace := by
  induction progress generalizing w with
  | nil => rfl
  | cons c rest ih =>
      rw [List.foldl_cons, ih]
      show executions (w.trace ++ [_]) = _
      rw [executions_append]
      exact List.append_nil _

section Executor

variable {env : Env} {tc : ToolCall} {w : World}

theorem executeToolCall_blocked {reason : String} {input : Option Json}
    (h : env.onToolCall w.now = (.block reason, input)) :
    Agent.executeToolCall env tc w =
      some (.ok (errorResult tc (.obj [("blocked", .bool true), ("reason", .str reason)])
        (env.clock (w.tick env).now)), w.tick env) := by
  rw [Agent.executeToolCall, World.await, h]

theorem executions_ran (env : Env) (tc : ToolCall) (input : Option Json) (w : World) :
    executions (w.ran env tc input).trace =
      executions w.trace ++ [(tc.id, input.getD tc.arguments)] := by
  rw [World.ran, executions_progress, executions_tick]
  show executions ((w.tick env).trace ++ [_]) = _
  rw [executions_append, executions_tick]
  rfl

/-- A call that may pass is run once, on what the hook has made of its input. -/
theorem executions_passed {input : Option Json} {result : Except AgentError ToolResultMessage}
    {w' : World} (hpass : env.onToolCall w.now = (.continue_, input))
    (h : Agent.executeToolCall env tc w = some (result, w')) :
    executions w'.trace = executions w.trace ++ [(tc.id, input.getD tc.arguments)] := by
  rcases executeToolCall_cases env tc w with
    ⟨reason, input', hblock, -⟩ | ⟨input', hpass', ⟨e, -, hcall⟩ | ⟨result, -, hcall⟩⟩
  · rw [hpass] at hblock
    cases hblock
  · obtain rfl : input = input' := congrArg Prod.snd (hpass.symm.trans hpass')
    rw [hcall] at h
    injection h with h
    injection h with _ hw
    rw [← hw]
    exact executions_ran env tc input w
  · obtain rfl : input = input' := congrArg Prod.snd (hpass.symm.trans hpass')
    rw [hcall] at h
    obtain ⟨details, -, h⟩ := Option.map_eq_some_iff.mp h
    injection h with _ hw
    rw [← hw, executions_tick]
    exact executions_ran env tc input w

end Executor

/-- The executor of a chain. -/
def chained (tenantId sessionId : String) (chain : List (HookDispatcher (HookM σ))) :
    ToolExecutor σ :=
  ⟨tenantId, sessionId, CombinedDispatcher chain⟩

theorem chained_asked (tenantId sessionId : String) (chain : List (HookDispatcher (HookM σ)))
    (tc : ToolCall) (s : σ) :
    (chained tenantId sessionId chain).asked tc s =
      (firstAnswer (answers ((chained tenantId sessionId chain).callCtx tc) chain s)).getD
        (.continue_, .default) := by
  rw [← combined_answer]
  rfl

/-- The executor depends on its dispatcher by what it hears only. -/
theorem ToolExecutor.executeToolCall_congr {e e' : ToolExecutor σ} {tc : ToolCall} {s : σ}
    (h : e.asked tc s = e'.asked tc s) (env : Env) (w : World) :
    e.executeToolCall env tc s w = e'.executeToolCall env tc s w := by
  rw [ToolExecutor.executeToolCall, ToolExecutor.executeToolCall, h]

/-- Without a panic the tool is run, once and on the input the call came with,
exactly when none of the chain blocks the call. A call that is blocked has one
result, an error with the id of the call, and whoever comes after a dispatcher
that blocks changes nothing of that. -/
theorem first_block_wins (tenantId sessionId : String) (chain : List (HookDispatcher (HookM σ)))
    (env : Env) (tc : ToolCall) (s : σ) (w : World)
    (hcalm : none ∉ answers ((chained tenantId sessionId chain).callCtx tc) chain s) :
    let said := answers ((chained tenantId sessionId chain).callCtx tc) chain s
    let outcome := (chained tenantId sessionId chain).executeToolCall env tc s w
    (outcome = none → anyBlocks said = false) ∧
      (∀ result w', outcome = some (result, w') →
        executions w'.trace =
          executions w.trace ++ if anyBlocks said then [] else [(tc.id, tc.arguments)]) ∧
      (anyBlocks said = true → ∃ reason result, said.findSome? blockReason = some reason ∧
        outcome = some (.ok result, w.tick env) ∧ result.toolCallId = tc.id ∧
          result.isError = true ∧
          result.details = some (.obj [("blocked", .bool true), ("reason", .str reason)])) ∧
      ∀ n later, anyBlocks (said.take n) = true →
        (chained tenantId sessionId (chain.take n ++ later)).executeToolCall env tc s w =
          outcome := by
  intro said outcome
  have hlater : ∀ n later, anyBlocks (said.take n) = true →
      (chained tenantId sessionId (chain.take n ++ later)).executeToolCall env tc s w =
        outcome := by
    intro n later h
    apply ToolExecutor.executeToolCall_congr
    rw [← answers_take] at h
    have hchain := firstAnswer_answers_append _ _ (chain.drop n) s h
    rw [List.take_append_drop] at hchain
    rw [chained_asked, chained_asked, hchain]
    exact congrArg (Option.getD · _) (firstAnswer_answers_append _ _ later s h)
  have hasked := chained_asked tenantId sessionId chain tc s
  obtain ⟨hnone, hfirst⟩ | ⟨reason, mutation, hsome, hreason, hfirst⟩ := firstAnswer_cases hcalm
  · refine ⟨fun _ => hnone, ?_, fun h => ?_, hlater⟩
    · intro result w' h
      rw [show anyBlocks said = false from hnone]
      rw [hfirst] at hasked
      exact @executions_passed _ tc w none result w' (by rw [hasked]; rfl) h
    · rw [show anyBlocks said = false from hnone] at h
      cases h
  · rw [hfirst] at hasked
    have hblocked : outcome = _ := @executeToolCall_blocked _ tc w reason _ (by rw [hasked]; rfl)
    refine ⟨fun h => ?_, ?_, fun _ => ?_, hlater⟩
    · rw [hblocked] at h
      cases h
    · intro result w' h
      rw [show anyBlocks said = true from hsome, if_pos rfl, List.append_nil]
      rw [hblocked] at h
      injection h with h
      injection h with _ hw
      rw [← hw]
      exact executions_tick _ w
    · exact ⟨reason, _, hreason, hblocked, rfl, rfl, rfl⟩

/-- One that changes the input, one that does not know the tool, one more. -/
def guardedChain : List (HookDispatcher (HookM Unit)) :=
  [redacting,
    guarded
      { space := ⟨"/workspace"⟩
        deniedTools := ["bash"]
        allowedTools := []
        pathGuardFields := fun _ => none
        pathGuardScanUnknown := false } .passThrough,
    redacting]

theorem first_block_wins_guarded :
    ∃ reason result,
      (chained "t" "s" guardedChain).executeToolCall .quiet ⟨"1", "bash", .null, none⟩ () .fresh =
          some (.ok result, World.fresh.tick .quiet) ∧
        result.toolCallId = "1" ∧ result.isError = true ∧
        result.details = some (.obj [("blocked", .bool true), ("reason", .str reason)]) := by
  have h := first_block_wins "t" "s" guardedChain .quiet ⟨"1", "bash", .null, none⟩ () .fresh
    (by decide)
  obtain ⟨-, -, hblocked, -⟩ := h
  obtain ⟨reason, result, -, houtcome⟩ := hblocked (by decide)
  exact ⟨reason, result, houtcome⟩

end Pandaria.Agent.Hook
