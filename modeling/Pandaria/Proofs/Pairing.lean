import Pandaria.Lib.Pairing
import Pandaria.Lib.Run
import Pandaria.Proofs.Activity

/-!
# Calls and their results

An agent loop that returns hands its messages to the history, and a provider
will not take a history in which a call has no result. A response opens a
round with the ids of its calls, and a result answers an id. Each turn adds a
response and the results of its calls in one piece, so what is to be shown is
that a turn that ends well adds a round with all its answers.

It does so under two conditions: the ids of a response are different from each
other, and the sequential branch has not been left early because of a
cancellation. A round cut short in that way still ends well when the results
it has all ask to terminate, or when the response did not stop for tool use.
What is drained from the queues is put between the rounds as it is, so it has
to fit there.
-/

namespace Pandaria.Agent

open Pandaria.Ai Pandaria.Lib

/-! ## Rounds of messages -/

/-- An assistant message opens a round with its calls. -/
def callIds : AgentMessage → Option (List String)
  | .assistant a => some (a.toolCalls.map ToolCall.id)
  | _ => none

/-- A tool result answers a call. -/
def answeredId : AgentMessage → Option String
  | .toolResult r => some r.toolCallId
  | _ => none

/-! ## The results of a round -/

variable {env : Env}

theorem executeToolCall_id {tc : ToolCall} {w w' : World} {r : ToolResultMessage}
    (h : executeToolCall env tc w = some (.ok r, w')) : r.toolCallId = tc.id := by
  rcases executeToolCall_cases env tc w with
    ⟨reason, input, -, hcall⟩ | ⟨input, -, ⟨e, -, hcall⟩ | ⟨result, -, hcall⟩⟩
  · rw [hcall] at h
    injection h with h
    injection h with h _
    injection h with h
    rw [← h]
    rfl
  · rw [hcall] at h
    injection h with h
    injection h with h _
    cases h
  · rw [hcall] at h
    obtain ⟨details, -, h⟩ := Option.map_eq_some_iff.mp h
    injection h with h _
    injection h with h
    rw [← h]

theorem executeSingleTool_id {tools : List AgentTool} {tc : ToolCall} {w w' : World}
    {r : ToolResultMessage} (h : executeSingleTool env tools tc w = some (r, w')) :
    r.toolCallId = tc.id := by
  simp only [executeSingleTool, Option.map_eq_some_iff, Prod.mk.injEq] at h
  obtain ⟨⟨outcome, w₁⟩, hrun, rfl, -⟩ := h
  cases outcome with
  | error e => rfl
  | ok m =>
      rw [runTool] at hrun
      split at hrun
      · injection hrun with hrun
        injection hrun with hrun _
        cases hrun
      · simp only [Option.map_eq_some_iff, Prod.mk.injEq] at hrun
        obtain ⟨⟨outcome, w₂⟩, hcall, hm, -⟩ := hrun
        cases outcome with
        | error e => cases hm
        | ok m' =>
            injection hm with hm
            subst hm
            exact executeToolCall_id hcall

theorem raceTool_id {tools : List AgentTool} {before : Bool} {tc : ToolCall} {w w' : World}
    {r : ToolResultMessage} (h : raceTool env tools before tc w = some (r, w')) :
    r.toolCallId = tc.id := by
  rcases raceTool_cases h with ⟨-, -, hid⟩ | ⟨-, -, -, hid⟩ | ⟨-, hsingle⟩
  · exact hid
  · exact hid
  · exact executeSingleTool_id hsingle

theorem executeParallel_ids {tools : List AgentTool} {before : Bool} {calls : List ToolCall}
    {w w' : World} {rs : List ToolResultMessage}
    (h : executeParallel env tools before calls w = some (rs, w')) :
    rs.map ToolResultMessage.toolCallId = calls.map ToolCall.id := by
  induction calls generalizing w rs with
  | nil =>
      injection h with h
      injection h with h _
      rw [← h]
      rfl
  | cons tc rest ih =>
      simp only [executeParallel, Option.bind_eq_some_iff, Option.map_eq_some_iff,
        Prod.mk.injEq] at h
      obtain ⟨⟨r, w₁⟩, h1, ⟨rs', w₂⟩, h2, rfl, rfl⟩ := h
      rw [List.map_cons, List.map_cons, raceTool_id h1, ih h2]

/-- The `break` of the sequential branch is taken. -/
def breaksOff (env : Env) (tools : List AgentTool) : List ToolCall → World → Bool
  | [], _ => false
  | tc :: rest, w =>
      w.cancelled || (executeSingleTool env tools tc w).any fun (_, w) => breaksOff env tools rest w

theorem executeSequential_ids {tools : List AgentTool} {calls : List ToolCall} {w w' : World}
    {rs : List ToolResultMessage} (h : executeSequential env tools calls w = some (rs, w'))
    (hb : breaksOff env tools calls w = false) :
    rs.map ToolResultMessage.toolCallId = calls.map ToolCall.id := by
  induction calls generalizing w rs with
  | nil =>
      injection h with h
      injection h with h _
      rw [← h]
      rfl
  | cons tc rest ih =>
      rw [breaksOff, Bool.or_eq_false_iff] at hb
      rw [executeSequential, hb.1] at h
      simp only [Bool.false_eq_true, if_false, Option.bind_eq_some_iff, Option.map_eq_some_iff,
        Prod.mk.injEq] at h
      obtain ⟨⟨r, w₁⟩, h1, ⟨rs', w₂⟩, h2, rfl, rfl⟩ := h
      have hb2 : breaksOff env tools rest w₁ = false := by simpa [h1] using hb.2
      rw [List.map_cons, List.map_cons, executeSingleTool_id h1, ih h2 hb2]

/-- The round is cut short by a cancellation. -/
def cutShort (env : Env) (tools : List AgentTool) (calls : List ToolCall) (w : World) : Bool :=
  useSequential tools calls && breaksOff env tools calls w

theorem executeTools_ids {tools : List AgentTool} {calls : List ToolCall} {w w' : World}
    {rs : List ToolResultMessage} (h : executeTools env tools calls w = some (rs, w'))
    (hcut : cutShort env tools calls w = false) :
    rs.map ToolResultMessage.toolCallId = calls.map ToolCall.id := by
  rw [executeTools] at h
  split at h
  · next hseq =>
      rw [cutShort, hseq, Bool.true_and] at hcut
      exact executeSequential_ids h hcut
  · exact executeParallel_ids h

/-- A response and the results of all its calls are a round with its answers. -/
theorem paired_turn {reply : AssistantMessage} {results : List ToolResultMessage}
    (hids : (reply.toolCalls.map ToolCall.id).Nodup)
    (hres : results.map ToolResultMessage.toolCallId = reply.toolCalls.map ToolCall.id) :
    Paired callIds answeredId (.assistant reply :: results.map .toolResult) := by
  refine paired_round rfl hids ?_ ?_
  · intro y hy
    obtain ⟨r, -, rfl⟩ := List.mem_map.mp hy
    rfl
  · rw [List.filterMap_map, ← hres]
    show results.filterMap (some ∘ ToolResultMessage.toolCallId) = _
    rw [List.filterMap_eq_map]

/-! ## Runs of the loop -/

namespace AgentLoop

/-- What is drained fits where it is put, the ids of a response differ, and
its round is not cut short. -/
def RoundsOk (cfg : AgentLoopConfig) (env : Env) (l : AgentLoop) : Prop :=
  match l.phase with
  | .outer => Fits callIds answeredId l.locals.newMessages l.locals.world.steerQueue
  | .stopped => Fits callIds answeredId l.locals.newMessages l.locals.world.followUpQueue
  | .responded reply =>
      rejection reply = none → (reply.toolCalls.map ToolCall.id).Nodup ∧
        cutShort env cfg.tools reply.toolCalls l.locals.world = false
  | _ => True

/-- Between two turns everything added is paired; in the middle of one it is
paired up to the response that has just been added. -/
def PairedSoFar (l : AgentLoop) : Prop :=
  match l.phase with
  | .outer | .inner | .stopped => Paired callIds answeredId l.locals.newMessages
  | .responded reply =>
      ∃ before, l.locals.newMessages = before ++ [.assistant reply] ∧
        Paired callIds answeredId before
  | .returned (.ok msgs) => Paired callIds answeredId msgs
  | .returned (.error _) | .panicked => True

theorem pairedSoFar_inner {cfg : AgentLoopConfig} {s : LoopLocals}
    (h : Paired callIds answeredId s.newMessages) :
    (step cfg env ⟨.inner, s⟩).PairedSoFar := by
  obtain ⟨-, -, hcases⟩ := receiveResponse_cases cfg env s
  rw [step]
  simp only []
  split
  · trivial
  · split
    · trivial
    · next reply s' hr =>
        rw [hr] at hcases
        rcases hcases with ⟨e, he, -⟩ | ⟨reply', he, hnew⟩
        · cases he
        · injection he with he
          subst he
          exact ⟨s.newMessages, hnew, h⟩

theorem pairedSoFar_responded {cfg : AgentLoopConfig} {s : LoopLocals} {reply : AssistantMessage}
    {before : List AgentMessage} (hs : s.newMessages = before ++ [.assistant reply])
    (hb : Paired callIds answeredId before) (hok : RoundsOk cfg env ⟨.responded reply, s⟩) :
    (step cfg env ⟨.responded reply, s⟩).PairedSoFar := by
  -- Whatever ends the turn well, what it has added is one round with its answers.
  have hadd : ∀ results : List ToolResultMessage, rejection reply = none →
      results.map ToolResultMessage.toolCallId = reply.toolCalls.map ToolCall.id →
      Paired callIds answeredId (s.newMessages ++ results.map .toolResult) := by
    intro results hrej hres
    rw [hs, List.append_assoc, List.singleton_append]
    exact hb.append ((paired_turn (hok hrej).1 hres).fits_of_opens rfl)
  cases hf : finishTurn cfg env reply s with
  | none => simp only [step, hf]; trivial
  | some rs =>
      obtain ⟨r, s'⟩ := rs
      obtain ⟨-, -, ⟨e, -, rfl, -⟩ | ⟨hrej, hcalls, rfl, hnew⟩ |
        ⟨results, w, hrej, -, hexec, rfl, hnew⟩⟩ := finishTurn_cases hf
      · simp only [step, hf]; trivial
      · simp only [step, hf]
        show Paired callIds answeredId s'.newMessages
        have := hadd [] hrej (by rw [hcalls]; rfl)
        rwa [List.map_nil, List.append_nil, ← hnew] at this
      · have hp := hadd results hrej (executeTools_ids hexec (hok hrej).2)
        rw [← hnew] at hp
        simp only [step, hf]
        cases turnResult reply results with
        | toolUse => exact hp
        | stop => exact hp
        | error e => trivial

theorem pairedSoFar_step (cfg : AgentLoopConfig) (env : Env) (l : AgentLoop)
    (hok : RoundsOk cfg env l) (h : l.PairedSoFar) : (step cfg env l).PairedSoFar := by
  obtain ⟨phase, s⟩ := l
  cases phase with
  | outer => exact Paired.append h hok
  | inner => exact pairedSoFar_inner h
  | responded reply =>
      obtain ⟨before, hs, hb⟩ := h
      exact pairedSoFar_responded hs hb hok
  | stopped =>
      simp only [step]
      split
      · exact h
      · exact Paired.append h hok
  | returned result => exact h
  | panicked => exact h

/-- In a run whose steps all meet the condition, the messages it returns are
paired. -/
theorem paired_of_run {cfg : AgentLoopConfig} {env : Env} {initialMessages : List AgentMessage}
    {w : World} {n : Nat} {msgs : List AgentMessage}
    (hok : OkFor (step cfg env) (RoundsOk cfg env) (start env initialMessages w) n)
    (hret : (run cfg env initialMessages w n).phase = .returned (.ok msgs)) :
    Paired callIds answeredId msgs := by
  have hinit : (start env initialMessages w).PairedSoFar := paired_nil
  have h : PairedSoFar (run cfg env initialMessages w n) :=
    hok.invariant (pairedSoFar_step cfg env) hinit
  rw [PairedSoFar] at h
  rw [hret] at h
  exact h

/-! ## Two calls of a sequential tool -/

/-- One sequential tool, which asks to terminate. -/
def sequentialConfig : AgentLoopConfig :=
  { (plainConfig 0).loop with tools := [⟨"tool", .sequential⟩] }

def twoCalls : AssistantMessage :=
  plainReply [.toolCall ⟨"a", "tool", .null, none⟩, .toolCall ⟨"b", "tool", .null, none⟩]
    .toolUse none

def terminating : Env :=
  { Env.quiet with
    stream := fun _ => .ok [.done .toolUse twoCalls]
    execute := fun _ => ⟨[], .ok ⟨[], none, false, true⟩⟩ }

/-- Cancelled while the first of the two calls is running. -/
def cancelledMeanwhile : Env := { terminating with abort := fun n => n = 8 }

theorem returned_terminating :
    (run sequentialConfig terminating [] .fresh 4).phase =
      .returned (.ok (run sequentialConfig terminating [] .fresh 4).locals.newMessages) := by
  rfl

theorem paired_terminating :
    Paired callIds answeredId (run sequentialConfig terminating [] .fresh 4).locals.newMessages :=
  paired_of_run (fun i hi => match i, hi with
    | 0, _ => fits_nil _
    | 1, _ => trivial
    | 2, _ => fun _ => ⟨by decide, by decide⟩
    | 3, _ => fits_nil _) returned_terminating

/-- The loop returns the response with both calls and the result of the first. -/
theorem call_without_result :
    ∃ msgs, (run sequentialConfig cancelledMeanwhile [] .fresh 4).phase = .returned (.ok msgs) ∧
      ¬ Paired callIds answeredId msgs :=
  ⟨_, rfl, fun h => absurd ((h [] _ _ _ rfl rfl).1 "b" (by decide)) (by decide)⟩

end AgentLoop

end Pandaria.Agent
