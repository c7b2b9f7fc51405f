import Pandaria.Agent.Call
import Pandaria.Agent.Loop
import Pandaria.Lib.Insertion

/-!
# Calls that are given a result

A call has a result when there is one with its id anywhere in the list, before the
call or behind another message. A call that has none is given one right behind its
message, and of several calls of a message the last is given its own first.
-/

namespace Pandaria.Agent

open Pandaria.Ai Pandaria.Lib

def callsOf : AgentMessage → List ToolCall
  | .assistant a => a.toolCalls
  | _ => []

/-- The calls of a message without a result. -/
def orphans (resolved : List String) (m : AgentMessage) : List ToolCall :=
  (callsOf m).filter fun tc => !resolved.contains tc.id

/-- The name of the first call of a message with an id. -/
def nameOfCall (m : AgentMessage) (id : String) : String :=
  match m with
  | .assistant a => ((a.toolCalls.find? fun tc => tc.id = id).map ToolCall.name).getD "unknown"
  | _ => "unknown"

def placeholder (now : SystemTime) (m : AgentMessage) (tc : ToolCall) : ToolResultMessage :=
  { toolCallId := tc.id
    toolName := nameOfCall m tc.id
    content := []
    details := some orphanDetails
    isError := true
    timestamp := now }

/-- A message with the results its calls are given. -/
def completed (now : SystemTime) (resolved : List String) (m : AgentMessage) : List AgentMessage :=
  m :: ((orphans resolved m).map fun tc => .toolResult (placeholder now m tc)).reverse

theorem toolCallIds_eq (messages : List AgentMessage) :
    toolCallIds messages = wishes callsOf 0 messages := by
  rw [toolCallIds, wishes]
  congr 1
  funext p
  obtain ⟨m, i⟩ := p
  cases m with
  | assistant a => rfl
  | user u => rfl
  | toolResult r => rfl

theorem orphanName_eq {messages : List AgentMessage} {i : Nat} {m : AgentMessage}
    (h : messages[i]? = some m) (id : String) : orphanName messages i id = nameOfCall m id := by
  rw [orphanName, h]
  cases m with
  | assistant a => rfl
  | user u => rfl
  | toolResult r => rfl

/-- The list that comes out, message by message. -/
theorem resolveOrphanToolCalls_eq (now : SystemTime) (messages : List AgentMessage) :
    resolveOrphanToolCalls now messages =
      messages.flatMap (completed now (resolvedIds messages)) := by
  have h := insertBehind_eq (orphans (resolvedIds messages))
    (fun c => .toolResult
      { toolCallId := c.2.id
        toolName := orphanName messages c.1 c.2.id
        content := []
        details := some orphanDetails
        isError := true
        timestamp := now }) messages
  have hwishes : (toolCallIds messages).filter
      (fun c => !(resolvedIds messages).contains c.2.id) =
        wishes (orphans (resolvedIds messages)) 0 messages := by
    rw [toolCallIds_eq]
    exact filter_wishes callsOf (fun tc => !(resolvedIds messages).contains tc.id) 0 messages
  rw [← hwishes] at h
  rw [flatMap_zipIdx]
  refine h.trans ?_
  refine List.flatMap_congr ?_
  rintro ⟨m, i⟩ hp
  have hm := List.mem_zipIdx_iff_getElem?.mp hp
  simp only [completed, placeholder, orphanName_eq hm]

/-! ## What is in the list that comes out -/

theorem resolvedIds_append (xs ys : List AgentMessage) :
    resolvedIds (xs ++ ys) = resolvedIds xs ++ resolvedIds ys :=
  List.filterMap_append

theorem resolvedIds_placeholders (now : SystemTime) (m : AgentMessage) (tcs : List ToolCall) :
    resolvedIds ((tcs.map fun tc => .toolResult (placeholder now m tc)).reverse) =
      (tcs.map ToolCall.id).reverse := by
  rw [resolvedIds, ← List.map_reverse, List.filterMap_map, ← List.map_reverse]
  show tcs.reverse.filterMap (some ∘ ToolCall.id) = _
  rw [List.filterMap_eq_map]

theorem sublist_resolveOrphanToolCalls (now : SystemTime) (messages : List AgentMessage) :
    messages.Sublist (resolveOrphanToolCalls now messages) := by
  rw [resolveOrphanToolCalls_eq]
  generalize resolvedIds messages = resolved
  induction messages with
  | nil => exact .slnil
  | cons m rest ih =>
      rw [List.flatMap_cons]
      exact .cons_cons m (List.Sublist.trans ih (List.sublist_append_right _ _))

/-- Where no call is an orphan, nothing happens. -/
theorem resolveOrphanToolCalls_of_none {now : SystemTime} {messages : List AgentMessage}
    (h : ∀ m ∈ messages, orphans (resolvedIds messages) m = []) :
    resolveOrphanToolCalls now messages = messages := by
  rw [resolveOrphanToolCalls_eq]
  generalize resolvedIds messages = resolved at h ⊢
  induction messages with
  | nil => rfl
  | cons m rest ih =>
      rw [List.flatMap_cons, completed, h m List.mem_cons_self,
        ih fun m' hm' => h m' (List.mem_cons_of_mem _ hm')]
      rfl

theorem mem_resolvedIds_of_orphan {now : SystemTime} {messages : List AgentMessage}
    {m : AgentMessage} {tc : ToolCall} (hm : m ∈ messages)
    (htc : tc ∈ orphans (resolvedIds messages) m) :
    tc.id ∈ resolvedIds (resolveOrphanToolCalls now messages) := by
  rw [resolveOrphanToolCalls_eq]
  refine List.mem_filterMap.mpr ⟨.toolResult (placeholder now m tc), ?_, rfl⟩
  refine List.mem_flatMap.mpr ⟨m, hm, List.mem_cons_of_mem _ ?_⟩
  exact List.mem_reverse.mpr (List.mem_map.mpr ⟨tc, htc, rfl⟩)

/-- Afterwards no call is an orphan. -/
theorem orphans_resolved {now : SystemTime} {messages : List AgentMessage} {m : AgentMessage}
    (hm : m ∈ resolveOrphanToolCalls now messages) :
    orphans (resolvedIds (resolveOrphanToolCalls now messages)) m = [] := by
  have hmem := hm
  rw [resolveOrphanToolCalls_eq] at hmem
  obtain ⟨m', hm', hblock⟩ := List.mem_flatMap.mp hmem
  obtain rfl | hplaceholder := List.mem_cons.mp hblock
  · refine List.filter_eq_nil_iff.mpr ?_
    intro tc htc
    simp only [Bool.not_eq_true', Bool.not_eq_false, List.contains_iff_mem]
    by_cases hresolved : tc.id ∈ resolvedIds messages
    · exact (sublist_resolveOrphanToolCalls now messages).filterMap _ |>.subset hresolved
    · refine mem_resolvedIds_of_orphan hm' (List.mem_filter.mpr ⟨htc, ?_⟩)
      simpa using hresolved
  · obtain ⟨tc, -, rfl⟩ := List.mem_map.mp (List.mem_reverse.mp hplaceholder)
    rfl

/-- A second time nothing happens. -/
theorem resolveOrphanToolCalls_idem (now now' : SystemTime) (messages : List AgentMessage) :
    resolveOrphanToolCalls now' (resolveOrphanToolCalls now messages) =
      resolveOrphanToolCalls now messages :=
  resolveOrphanToolCalls_of_none fun _ => orphans_resolved

/-! ## Between two assistant messages -/

def isAssistant : AgentMessage → Bool
  | .assistant _ => true
  | _ => false

/-- The messages up to the next one of the assistant. -/
def upToAssistant (messages : List AgentMessage) : List AgentMessage :=
  messages.takeWhile fun m => !isAssistant m

theorem upToAssistant_placeholders (now : SystemTime) (m : AgentMessage) (tcs : List ToolCall)
    (rest : List AgentMessage) :
    upToAssistant ((tcs.map fun tc => .toolResult (placeholder now m tc)).reverse ++ rest) =
      (tcs.map fun tc => .toolResult (placeholder now m tc)).reverse ++ upToAssistant rest := by
  refine List.takeWhile_append_of_pos ?_
  intro r hr
  obtain ⟨tc, -, rfl⟩ := List.mem_map.mp (List.mem_reverse.mp hr)
  rfl

/-- Up to the next assistant message nothing is put in. -/
theorem upToAssistant_completed (now : SystemTime) (resolved : List String)
    (messages : List AgentMessage) :
    upToAssistant (messages.flatMap (completed now resolved)) = upToAssistant messages := by
  induction messages with
  | nil => rfl
  | cons m rest ih =>
      rw [List.flatMap_cons]
      cases m with
      | assistant a => rfl
      | user u => exact congrArg (List.cons _) ih
      | toolResult r => exact congrArg (List.cons _) ih

theorem count_orphans {resolved : List String} {m : AgentMessage} (id : String) :
    ((orphans resolved m).map ToolCall.id).count id =
      if id ∈ resolved then 0 else ((callsOf m).map ToolCall.id).count id := by
  rw [orphans]
  induction callsOf m with
  | nil => simp
  | cons tc rest ih =>
      by_cases htc : tc.id ∈ resolved
      · -- its id is another one, or it does not count
        rw [List.filter_cons_of_neg (by simpa using htc), ih, List.map_cons, List.count_cons]
        by_cases hid : id ∈ resolved
        · simp only [hid, if_true]
        · have hne : tc.id ≠ id := fun h => hid (h ▸ htc)
          simp [hid, hne]
      · rw [List.filter_cons_of_pos (by simpa using htc), List.map_cons, List.count_cons, ih,
          List.map_cons, List.count_cons]
        by_cases hid : id ∈ resolved
        · have hne : tc.id ≠ id := fun h => htc (h ▸ hid)
          simp [hid, hne]
        · simp only [hid, if_false]

/-- The results of a call between its message and the next of the assistant: those
that were there, or one for each call of the message that has its id. -/
theorem count_upToAssistant (now : SystemTime) {messages before after : List AgentMessage}
    {a : AssistantMessage} (h : messages = before ++ .assistant a :: after) (id : String) :
    (resolvedIds (upToAssistant
      (((orphans (resolvedIds messages) (.assistant a)).map fun tc =>
        .toolResult (placeholder now (.assistant a) tc)).reverse ++
          after.flatMap (completed now (resolvedIds messages))))).count id =
      if id ∈ resolvedIds messages then (resolvedIds (upToAssistant after)).count id
      else (a.toolCalls.map ToolCall.id).count id := by
  rw [upToAssistant_placeholders, upToAssistant_completed, resolvedIds_append,
    resolvedIds_placeholders, List.count_append, List.count_reverse, count_orphans]
  split
  · exact Nat.zero_add _
  · next hid =>
      have hnone : (resolvedIds (upToAssistant after)).count id = 0 := by
        refine List.count_eq_zero.mpr fun hmem => hid ?_
        rw [h, resolvedIds_append]
        have hsub : (upToAssistant after).Sublist after := List.takeWhile_sublist _
        have hafter : id ∈ resolvedIds after := (hsub.filterMap _).subset hmem
        exact List.mem_append_right _ hafter
      rw [hnone]
      rfl

/-- Behind a message stand the results of its calls without one, the last call's
first, and nothing else is changed. So up to the next assistant message a call has as
many results as its message has calls with its id if no result of the list had it,
and otherwise those it had. -/
theorem resolveOrphanToolCalls_spec (now : SystemTime) (messages : List AgentMessage) :
    resolveOrphanToolCalls now messages =
      messages.flatMap (completed now (resolvedIds messages)) ∧
    messages.Sublist (resolveOrphanToolCalls now messages) ∧
    (∀ before a after, messages = before ++ .assistant a :: after →
      ∃ post, resolveOrphanToolCalls now messages =
          before.flatMap (completed now (resolvedIds messages)) ++ .assistant a :: post ∧
        ∀ tc ∈ a.toolCalls, (resolvedIds (upToAssistant post)).count tc.id =
          if tc.id ∈ resolvedIds messages then (resolvedIds (upToAssistant after)).count tc.id
          else (a.toolCalls.map ToolCall.id).count tc.id) ∧
    ∀ now', resolveOrphanToolCalls now' (resolveOrphanToolCalls now messages) =
      resolveOrphanToolCalls now messages := by
  refine ⟨resolveOrphanToolCalls_eq now messages, sublist_resolveOrphanToolCalls now messages,
    ?_, fun now' => resolveOrphanToolCalls_idem now now' messages⟩
  intro before a after h
  refine ⟨_, ?_, fun tc _ => count_upToAssistant now h tc.id⟩
  calc resolveOrphanToolCalls now messages
      = messages.flatMap (completed now (resolvedIds messages)) :=
        resolveOrphanToolCalls_eq now messages
    _ = (before ++ .assistant a :: after).flatMap (completed now (resolvedIds messages)) :=
        congrArg (List.flatMap _) h
    _ = _ := by rw [List.flatMap_append, List.flatMap_cons, completed, List.cons_append]

def calling (ids : List String) : AgentMessage :=
  .assistant (plainReply (ids.map fun id => .toolCall ⟨id, "tool", .null, none⟩) .toolUse none)

def answering (id : String) : AgentMessage :=
  .toolResult ⟨id, "tool", [], none, false, 0⟩

/-- A result in front of the call is enough for it to be given none; two calls are
given theirs in the other order; and of two calls with one id each is given one. -/
theorem not_one_result_between :
    resolveOrphanToolCalls 0 [answering "a", calling ["a"]] = [answering "a", calling ["a"]] ∧
    resolvedIds (resolveOrphanToolCalls 0 [calling ["a", "b"]]) = ["b", "a"] ∧
    resolvedIds (resolveOrphanToolCalls 0 [calling ["a", "a"]]) = ["a", "a"] :=
  ⟨rfl, rfl, rfl⟩

end Pandaria.Agent
