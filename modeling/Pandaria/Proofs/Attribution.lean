import Mathlib.Data.List.Nodup
import Pandaria.Agent.Memory

/-!
# Whose result a summary is of

A summary has its name from the calls, and which of them that is depends on the
place of the result alone: every result takes the first call that is left. The
id the result carries is not looked at. So the name is right if the call at that
place happens to be called like the one with the id.
-/

namespace Pandaria.Agent

open Pandaria.Ai

def messageCalls : AgentMessage → List ToolCall
  | .assistant a => a.toolCalls
  | .user _ | .toolResult _ => []

def toolCallsOf (messages : List AgentMessage) : List ToolCall := messages.flatMap messageCalls

def messageResult? : AgentMessage → Option ToolResultMessage
  | .toolResult tr => some tr
  | .user _ | .assistant _ => none

def resultsOf (messages : List AgentMessage) : List ToolResultMessage :=
  messages.filterMap messageResult?

/-- There is a summary for each result, and it has the name of the call that has
the id of the result. -/
def Attributed (messages : List AgentMessage) : Prop :=
  (extractToolSummaries messages).length = (resultsOf messages).length ∧
    ∀ pre tr post, messages = pre ++ .toolResult tr :: post →
      ∃ s, (extractToolSummaries messages)[(resultsOf pre).length]? = some s ∧
        ∀ tc ∈ toolCallsOf messages, tc.id = tr.toolCallId → s.name = tc.name

/-- For each result the number of calls before it, `n` of them before the messages. -/
def callsBefore (n : Nat) : List AgentMessage → List Nat
  | [] => []
  | .user _ :: rest => callsBefore n rest
  | .assistant a :: rest => callsBefore (n + a.toolCalls.length) rest
  | .toolResult _ :: rest => n :: callsBefore n rest

/-- How many calls the results can have used up, one each, if so many had been
made before it. -/
def usedUp (messages : List AgentMessage) : Nat :=
  (callsBefore 0 messages).foldl (fun used calls => min (used + 1) calls) 0

/-- The name of the first call before a result that is not used up. Where there
is none, it is the one the result has itself. -/
def nextName (pre : List AgentMessage) (tr : ToolResultMessage) : String :=
  ((toolCallsOf pre)[usedUp pre]?.map (·.name)).getD tr.toolName

/-! ## One message -/

theorem toolCallsOf_append (xs ys : List AgentMessage) :
    toolCallsOf (xs ++ ys) = toolCallsOf xs ++ toolCallsOf ys := List.flatMap_append

theorem resultsOf_append (xs ys : List AgentMessage) :
    resultsOf (xs ++ ys) = resultsOf xs ++ resultsOf ys := List.filterMap_append

theorem callsBefore_append (n : Nat) (xs ys : List AgentMessage) :
    callsBefore n (xs ++ ys) =
      callsBefore n xs ++ callsBefore (n + (toolCallsOf xs).length) ys := by
  induction xs generalizing n with
  | nil => rfl
  | cons msg xs ih =>
      have hlen : (toolCallsOf (msg :: xs)).length =
          (messageCalls msg).length + (toolCallsOf xs).length := by
        rw [toolCallsOf, List.flatMap_cons, List.length_append, toolCallsOf]
      rw [List.cons_append, hlen, ← Nat.add_assoc]
      cases msg with
      | user u => exact ih _
      | assistant a => exact ih _
      | toolResult tr => exact congrArg (List.cons n) (ih n)

theorem usedUp_user (pre : List AgentMessage) (u : UserMessage) :
    usedUp (pre ++ [.user u]) = usedUp pre := by
  rw [usedUp, callsBefore_append, callsBefore, callsBefore, List.append_nil, usedUp]

theorem usedUp_assistant (pre : List AgentMessage) (a : AssistantMessage) :
    usedUp (pre ++ [.assistant a]) = usedUp pre := by
  rw [usedUp, callsBefore_append, callsBefore, callsBefore, List.append_nil, usedUp]

theorem usedUp_toolResult (pre : List AgentMessage) (tr : ToolResultMessage) :
    usedUp (pre ++ [.toolResult tr]) = min (usedUp pre + 1) (toolCallsOf pre).length := by
  rw [usedUp, callsBefore_append, callsBefore, callsBefore, List.foldl_append, Nat.zero_add, usedUp]
  rfl

theorem usedUp_le (pre : List AgentMessage) : usedUp pre ≤ (toolCallsOf pre).length := by
  induction pre using List.reverseRecOn with
  | nil => exact Nat.le_refl 0
  | append_singleton pre msg ih =>
      rw [toolCallsOf_append, List.length_append]
      cases msg with
      | user u =>
          rw [usedUp_user]
          omega
      | assistant a =>
          rw [usedUp_assistant]
          omega
      | toolResult tr =>
          rw [usedUp_toolResult]
          omega

/-! ## The loop -/

/-- The names that are left are those of the calls that are not used up. -/
theorem toolCallNames_eq (pre : List AgentMessage) :
    (pre.foldl Summaries.add ⟨[], []⟩).toolCallNames =
      ((toolCallsOf pre).map (·.name)).drop (usedUp pre) := by
  induction pre using List.reverseRecOn with
  | nil => rfl
  | append_singleton pre msg ih =>
      have hle := usedUp_le pre
      rw [List.foldl_append, toolCallsOf_append]
      cases msg with
      | user u =>
          have hnone : toolCallsOf [.user u] = [] := rfl
          rw [usedUp_user, hnone, List.append_nil]
          exact ih
      | assistant a =>
          have hcalls : toolCallsOf [.assistant a] = a.toolCalls := List.flatMap_singleton _ _
          rw [usedUp_assistant, hcalls, List.map_append,
            List.drop_append_of_le_length (by rw [List.length_map]; exact hle), ← ih]
          rfl
      | toolResult tr =>
          have hnone : toolCallsOf [.toolResult tr] = [] := rfl
          rw [usedUp_toolResult, hnone, List.append_nil]
          show ((pre.foldl Summaries.add ⟨[], []⟩).toolCallNames).tail = _
          rw [ih, List.tail_drop]
          obtain hlt | heq := Nat.lt_or_eq_of_le hle
          · rw [Nat.min_eq_left hlt]
          · -- No call is left, and none is used up.
            rw [heq, Nat.min_eq_right (Nat.le_succ _), List.drop_eq_nil_of_le (by simp),
              List.drop_eq_nil_of_le (by simp)]

theorem summaries_append (s : Summaries) (messages : List AgentMessage) :
    ∃ more, (messages.foldl Summaries.add s).summaries = s.summaries ++ more ∧
      more.length = (resultsOf messages).length := by
  induction messages generalizing s with
  | nil => exact ⟨[], (List.append_nil _).symm, rfl⟩
  | cons msg messages ih =>
      obtain ⟨more, hmore, hlen⟩ := ih (s.add msg)
      cases msg with
      | user u => exact ⟨more, hmore, hlen⟩
      | assistant a => exact ⟨more, hmore, hlen⟩
      | toolResult tr =>
          refine ⟨_ :: more, hmore.trans (List.append_assoc _ _ _), ?_⟩
          rw [List.length_cons, hlen]
          rfl

theorem extractToolSummaries_length (messages : List AgentMessage) :
    (extractToolSummaries messages).length = (resultsOf messages).length := by
  obtain ⟨more, hmore, hlen⟩ := summaries_append ⟨[], []⟩ messages
  rw [extractToolSummaries, hmore, ← hlen]
  rfl

/-- The summary of a result has the name that is next. -/
theorem summary_of_result (pre post : List AgentMessage) (tr : ToolResultMessage) :
    (extractToolSummaries (pre ++ .toolResult tr :: post))[(resultsOf pre).length]? =
      some { name := nextName pre tr
             isError := tr.isError
             resultLen := (collectText tr.content).utf8ByteSize } := by
  have hname : (pre.foldl Summaries.add ⟨[], []⟩).toolCallNames.head?.getD tr.toolName =
      nextName pre tr := by
    rw [toolCallNames_eq, List.head?_drop, List.getElem?_map, nextName]
  obtain ⟨more, hmore, -⟩ :=
    summaries_append ((pre.foldl Summaries.add ⟨[], []⟩).add (.toolResult tr)) post
  have hlen := extractToolSummaries_length pre
  rw [extractToolSummaries] at hlen ⊢
  rw [List.foldl_append, List.foldl_cons, hmore, ← hlen]
  simp only [Summaries.add, hname, List.append_assoc]
  rw [List.getElem?_append_right (Nat.le_refl _), Nat.sub_self]
  rfl

theorem attributed_of_nextName {messages : List AgentMessage}
    (h : ∀ pre tr post, messages = pre ++ .toolResult tr :: post →
      ∀ tc ∈ toolCallsOf messages, tc.id = tr.toolCallId → nextName pre tr = tc.name) :
    Attributed messages := by
  refine ⟨extractToolSummaries_length messages, ?_⟩
  rintro pre tr post rfl
  exact ⟨_, summary_of_result pre post tr, h pre tr post rfl⟩

/-- The summaries name the calls the results are of just if those that are next
are named like them. -/
theorem attributed_iff (messages : List AgentMessage) :
    Attributed messages ↔
      ∀ pre tr post, messages = pre ++ .toolResult tr :: post →
        ∀ tc ∈ toolCallsOf messages, tc.id = tr.toolCallId → nextName pre tr = tc.name := by
  constructor
  · rintro ⟨-, h⟩ pre tr post rfl tc htc hid
    obtain ⟨s, hs, hname⟩ := h pre tr post rfl
    rw [summary_of_result] at hs
    injection hs with hs
    rw [← hname tc htc hid, ← hs]
  · exact attributed_of_nextName

/-- Every result comes when there is a call for it that no result has taken. -/
theorem usedUp_eq {messages : List AgentMessage}
    (h : ∀ pre tr post, messages = pre ++ .toolResult tr :: post →
      (resultsOf pre).length < (toolCallsOf pre).length) :
    usedUp messages = (resultsOf messages).length := by
  induction messages using List.reverseRecOn with
  | nil => rfl
  | append_singleton messages msg ih =>
      have ih := ih fun pre tr post heq =>
        h pre tr (post ++ [msg]) (by rw [heq, List.append_assoc, List.cons_append])
      rw [resultsOf_append]
      cases msg with
      | user u =>
          rw [usedUp_user, ih]
          exact congrArg List.length (List.append_nil _).symm
      | assistant a =>
          rw [usedUp_assistant, ih]
          exact congrArg List.length (List.append_nil _).symm
      | toolResult tr =>
          have hlt := h messages tr [] rfl
          rw [usedUp_toolResult, ih, Nat.min_eq_left hlt, List.length_append]
          rfl

/-- Results that come in the order of their calls are named after them. -/
theorem attributed_of_in_order {messages : List AgentMessage}
    (hids : ((toolCallsOf messages).map (·.id)).Nodup)
    (horder : ∀ pre tr post, messages = pre ++ .toolResult tr :: post →
      ((toolCallsOf pre)[(resultsOf pre).length]?.map (·.id)) = some tr.toolCallId) :
    Attributed messages := by
  refine attributed_of_nextName ?_
  rintro pre tr post rfl tc htc hid
  obtain ⟨call, hcall, hcallId⟩ := Option.map_eq_some_iff.mp (horder pre tr post rfl)
  have hused : usedUp pre = (resultsOf pre).length := by
    refine usedUp_eq fun pre' tr' post' heq => ?_
    subst heq
    have hsome := horder pre' tr' (post' ++ .toolResult tr :: post) (by simp)
    obtain ⟨call', hcall', -⟩ := Option.map_eq_some_iff.mp hsome
    exact (List.getElem?_eq_some_iff.mp hcall').1
  have hmem : call ∈ toolCallsOf (pre ++ .toolResult tr :: post) := by
    rw [toolCallsOf_append]
    exact List.mem_append_left _ (List.mem_of_getElem? hcall)
  have hsame : call = tc := List.inj_on_of_nodup_map hids hmem htc (hcallId.trans hid.symm)
  rw [nextName, hused, hcall, hsame]
  rfl

/-! ## A result that is missing -/

def aCall (id name : String) : Content :=
  .toolCall { id := id, name := name, arguments := .obj [], thoughtSignature := none }

/-- Two calls, of which the second alone has a result. -/
def missingResult : List AgentMessage :=
  [.assistant { (default : AssistantMessage) with
    content := [aCall "call_1" "read_file", aCall "call_2" "bash"] },
   .toolResult { (default : ToolResultMessage) with toolCallId := "call_2", toolName := "bash" }]

theorem not_attributed : ¬ Attributed missingResult := by
  rintro ⟨-, h⟩
  obtain ⟨s, hs, hname⟩ := h [_] _ [] rfl
  have hbash := hname
    { id := "call_2", name := "bash", arguments := .obj [], thoughtSignature := none }
    (by decide) rfl
  have hread : (extractToolSummaries missingResult)[0]?.map (·.name) = some "read_file" := by decide
  rw [show (extractToolSummaries missingResult)[0]? = some s from hs, Option.map_some, hbash] at hread
  revert hread
  decide

end Pandaria.Agent
