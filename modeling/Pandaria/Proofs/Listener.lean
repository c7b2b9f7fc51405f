import Pandaria.Lib.Brackets
import Pandaria.Proofs.LoopSteps

/-!
# What a listener hears of a run

A client keeps the brackets of a run that are open: the run, the turn, the tool
calls. `Listener` is such a client, and it stops at the first event that has no
place. Of each part of a turn, this file says which events it adds and what they
come to for a listener: everything inside a request or a tool is nothing to it,
and the calls of one response are brackets of their own, which can be read one
after the other or mixed.
-/

namespace Pandaria.Agent

open Pandaria.Ai
open Pandaria.Lib

/-! ## Listeners -/

inductive RunPhase where
  | before
  | during
  | over
deriving DecidableEq

structure Listener where
  phase : RunPhase
  turn : Option Nat
  /-- The ids of the tool calls that are running. -/
  tools : Multiset String
  errors : Nat

def AgentEvent.bracket? : AgentEvent → Option (Bracket String)
  | .toolExecutionStart id _ => some (.opening id)
  | .toolExecutionEnd id _ => some (.closing id)
  | _ => none

namespace Listener

def new : Listener := ⟨.before, none, 0, 0⟩

/-- One event. A run starts once and ends once, turns follow each other in it,
and tools run in turns. -/
def hear (c : Listener) (e : AgentEvent) : Option Listener :=
  match e with
  | .agentStart => if c.phase = .before then some { c with phase := .during } else none
  | .agentEnd _ =>
      if c.phase = .during ∧ c.turn = none ∧ c.tools = 0 then some { c with phase := .over }
      else none
  | .turnStart i =>
      if c.phase = .during ∧ c.turn = none then some { c with turn := some i } else none
  | .turnEnd i _ =>
      if c.phase = .during ∧ c.turn = some i ∧ c.tools = 0 then some { c with turn := none }
      else none
  | .error _ => if c.phase = .during then some { c with errors := c.errors + 1 } else none
  | e =>
      if c.phase = .during then
        match e.bracket? with
        | some b =>
            if c.turn.isSome then (b.read c.tools).map fun tools => { c with tools := tools }
            else none
        | none => some c
      else none

def hearAll (c : Listener) (es : List AgentEvent) : Option Listener := es.foldlM hear c

theorem hearAll_cons (c : Listener) (e : AgentEvent) (es : List AgentEvent) :
    c.hearAll (e :: es) = (c.hear e).bind fun c' => c'.hearAll es := rfl

theorem hearAll_append (c : Listener) (es es' : List AgentEvent) :
    c.hearAll (es ++ es') = (c.hearAll es).bind fun c' => c'.hearAll es' :=
  List.foldlM_append

end Listener

/-- It can stand in a turn without opening or closing one. -/
def AgentEvent.inTurn (e : AgentEvent) : Bool := e.bracket?.isSome || !e.isBracket

theorem inTurn_of_isBracket {e : AgentEvent} (h : e.isBracket = false) :
    e.inTurn = true ∧ e.bracket? = none := by
  cases e with
  | agentStart | agentEnd | turnStart | turnEnd | toolExecutionStart | toolExecutionEnd
  | compactionStart | compactionEnd | error => cases h
  | _ => exact ⟨rfl, rfl⟩

namespace Listener

variable {c : Listener}

theorem hear_inTurn (hp : c.phase = .during) (ht : c.turn.isSome = true) {e : AgentEvent}
    (he : e.inTurn = true) :
    c.hear e = (Bracket.readAll c.tools e.bracket?.toList).map fun tools =>
      { c with tools := tools } := by
  cases e with
  | agentStart | agentEnd | turnStart | turnEnd | error | compactionStart | compactionEnd =>
      cases he
  | toolExecutionStart id name => exact (if_pos hp).trans (if_pos ht)
  | toolExecutionEnd id result =>
      refine ((if_pos hp).trans (if_pos ht)).trans (congrArg _ ?_)
      exact (Bracket.readAll_singleton (.closing id)).symm
  | _ => exact if_pos hp

/-- In a turn, a listener reads the brackets of the tool calls. -/
theorem hearAll_inTurn (hp : c.phase = .during) (ht : c.turn.isSome = true) {es : List AgentEvent}
    (he : ∀ e ∈ es, e.inTurn = true) :
    c.hearAll es = (Bracket.readAll c.tools (es.filterMap AgentEvent.bracket?)).map fun tools =>
      { c with tools := tools } := by
  induction es generalizing c with
  | nil => rfl
  | cons e es ih =>
      rw [List.forall_mem_cons] at he
      have hsplit : (e :: es).filterMap AgentEvent.bracket? =
          e.bracket?.toList ++ es.filterMap AgentEvent.bracket? := by
        rw [List.filterMap_eq_flatMap_toList, List.flatMap_cons,
          ← List.filterMap_eq_flatMap_toList]
      rw [hearAll_cons, hear_inTurn hp ht he.1, hsplit, Bracket.readAll_append]
      cases Bracket.readAll c.tools e.bracket?.toList with
      | none => rfl
      | some tools => exact ih hp ht he.2

end Listener

/-! ## The events of a world -/

def Obs.event? : Obs → Option AgentEvent
  | .event e => some e
  | .stream _ | .summarise _ | .execute .. | .abort => none

namespace World

variable {env : Env} {w w' : World}

def events (w : World) : List AgentEvent := w.trace.filterMap Obs.event?

theorem events_observe (w : World) (o : Obs) :
    (w.observe o).events = w.events ++ o.event?.toList := by
  rw [events, observe, List.filterMap_append]
  cases o <;> rfl

theorem events_emit (w : World) (e : AgentEvent) : (w.emit e).events = w.events ++ [e] :=
  events_observe w _

theorem events_tick (w : World) : (w.tick env).events = w.events := by
  rw [events, tick]
  split
  · rw [List.filterMap_append]
    exact List.append_nil _
  · rfl

end World

/-- An activity adds events, and none of those that are left out. -/
theorem Activity.events {env : Env} {allow : Allow} {p : AgentEvent → Bool} {w w' : World}
    (h : Activity env (allow.without p) w w') :
    ∃ es, w'.events = w.events ++ es ∧ ∀ e ∈ es, p e = false := by
  induction h with
  | refl => exact ⟨[], (List.append_nil _).symm, fun e he => by cases he⟩
  | @observe w₁ o _ ho ih =>
      obtain ⟨es, hes, hp⟩ := ih
      refine ⟨es ++ o.event?.toList, ?_, fun e he => ?_⟩
      · rw [World.events_observe, hes, List.append_assoc]
      · rcases List.mem_append.mp he with he | he
        · exact hp e he
        · cases o with
          | event e' =>
              obtain rfl := List.mem_singleton.mp he
              exact ho.2 e rfl
          | stream _ | summarise _ | execute _ _ | abort => cases he
  | tick _ ih =>
      rw [World.events_tick]
      exact ih
  | newId _ ih => exact ih

/-! ## Requests and tools -/

/-- The events from one world to another: all of them can stand in a turn, and
their brackets come to `tools`. -/
structure InTurn (w w' : World) (es : List AgentEvent) (tools : Multiset String) : Prop where
  events : w'.events = w.events ++ es
  inTurn : ∀ e ∈ es, e.inTurn = true
  brackets : Bracket.readAll 0 (es.filterMap AgentEvent.bracket?) = some tools

namespace InTurn

variable {w w₁ w₂ : World} {es es' : List AgentEvent} {tools tools' : Multiset String}

theorem refl : InTurn w w [] 0 := ⟨(List.append_nil _).symm, (fun e he => by cases he), rfl⟩

/-- What the first stretch leaves open stays open in the second. -/
theorem trans (h : InTurn w w₁ es tools) (h' : InTurn w₁ w₂ es' tools') :
    InTurn w w₂ (es ++ es') (tools + tools') where
  events := by rw [h'.events, h.events, List.append_assoc]
  inTurn e he := (List.mem_append.mp he).elim (h.inTurn e) (h'.inTurn e)
  brackets := by
    have hadd := Bracket.readAll_add h'.brackets tools
    rw [Multiset.zero_add, Multiset.add_comm] at hadd
    rw [List.filterMap_append, Bracket.readAll_append, h.brackets]
    exact hadd

/-- For a listener in a turn, the calls in it that are still running are added
to those that were. -/
theorem hearAll (h : InTurn w w₁ es tools) {c : Listener} (hp : c.phase = .during)
    (ht : c.turn.isSome = true) : c.hearAll es = some { c with tools := tools + c.tools } := by
  have hadd := Bracket.readAll_add h.brackets c.tools
  rw [Multiset.zero_add] at hadd
  rw [Listener.hearAll_inTurn hp ht h.inTurn, hadd]
  rfl

end InTurn

/-- Inside a request or a tool there is nothing to hear. -/
theorem Activity.inTurn {env : Env} {w w' : World} (h : Activity env quietObs w w') :
    ∃ es, InTurn w w' es 0 := by
  obtain ⟨es, hes, hquiet⟩ := h.events
  have hnone : es.filterMap AgentEvent.bracket? = [] :=
    List.filterMap_eq_nil_iff.mpr fun e he => (inTurn_of_isBracket (hquiet e he)).2
  exact ⟨es, hes, fun e he => (inTurn_of_isBracket (hquiet e he)).1, by rw [hnone]; rfl⟩

variable {env : Env} {tools : List AgentTool} {w w' : World}

/-- A call that is running is open. -/
theorem suspensions_inTurn {tc : ToolCall} (h : w' ∈ suspensions env tools tc w) :
    ∃ es, InTurn w w' es {tc.id} := by
  have hstart : InTurn w (w.emit (.toolExecutionStart tc.id tc.name))
      [.toolExecutionStart tc.id tc.name] {tc.id} :=
    ⟨World.events_emit _ _, (fun e he => by rw [List.mem_singleton.mp he]; rfl), rfl⟩
  obtain ⟨es, hes⟩ := (suspensions_activity (fun _ _ => rfl) h).inTurn
  exact ⟨_, hstart.trans hes⟩

/-- One that is through is closed. -/
theorem executeSingleTool_inTurn {tc : ToolCall} {r : ToolResultMessage}
    (h : executeSingleTool env tools tc w = some (r, w')) : ∃ es, InTurn w w' es 0 := by
  simp only [executeSingleTool, Option.map_eq_some_iff, Prod.mk.injEq] at h
  obtain ⟨⟨outcome, w₁⟩, hrun, hr, rfl⟩ := h
  rw [hr]
  obtain ⟨es, hes⟩ := (runTool_activity (fun _ _ => rfl) hrun).inTurn
  refine ⟨.toolExecutionStart tc.id tc.name :: (es ++ [.toolExecutionEnd tc.id r]), ?_, ?_, ?_⟩
  · rw [World.events_emit, hes.events, World.events_emit]
    simp
  · intro e he
    rw [List.mem_cons, List.mem_append, List.mem_singleton] at he
    rcases he with rfl | he | rfl
    · rfl
    · exact hes.inTurn e he
    · rfl
  · have hrun := Bracket.readAll_add hes.brackets {tc.id}
    rw [Multiset.zero_add] at hrun
    have hopen : Bracket.readAll {tc.id}
        ((es ++ [AgentEvent.toolExecutionEnd tc.id r]).filterMap AgentEvent.bracket?) = some 0 := by
      rw [List.filterMap_append, Bracket.readAll_append, hrun]
      exact (Bracket.readAll_singleton (.closing tc.id)).trans
        (Bracket.read_closing_singleton tc.id)
    exact hopen

/-- Calls that run side by side are heard in a mixture of what each of them
announces. Whatever worlds they started in, a listener in a turn is where it was
when all are through. -/
theorem hearAll_mixed {ess : List (List AgentEvent)} {zs : List AgentEvent}
    (hmix : MixedAll ess zs)
    (hcalls : ∀ es ∈ ess, ∃ tc r w w', executeSingleTool env tools tc w = some (r, w') ∧
      w'.events = w.events ++ es)
    {c : Listener} (hp : c.phase = .during) (ht : c.turn.isSome = true) :
    c.hearAll zs = some c := by
  have hown : ∀ es ∈ ess, (∀ e ∈ es, e.inTurn = true) ∧
      Bracket.readAll 0 (es.filterMap AgentEvent.bracket?) = some 0 := by
    intro es hes
    obtain ⟨tc, r, w, w', hexec, hevents⟩ := hcalls es hes
    obtain ⟨es', hes'⟩ := executeSingleTool_inTurn hexec
    rw [hes'.events] at hevents
    obtain rfl := List.append_cancel_left hevents
    exact ⟨hes'.inTurn, hes'.brackets⟩
  have hin : ∀ e ∈ zs, e.inTurn = true := by
    intro e he
    obtain ⟨es, hes, he⟩ := hmix.mem_iff.mp he
    exact (hown es hes).1 e he
  have hread := Bracket.readAll_mixedAll (hmix.filterMap AgentEvent.bracket?) fun bs hbs => by
    obtain ⟨es, hes, rfl⟩ := List.mem_map.mp hbs
    exact (hown es hes).2
  have hadd := Bracket.readAll_add hread c.tools
  rw [Multiset.zero_add] at hadd
  rw [Listener.hearAll_inTurn hp ht hin, hadd]
  rfl

theorem executeSequential_inTurn {calls : List ToolCall} {rs : List ToolResultMessage}
    (h : executeSequential env tools calls w = some (rs, w')) : ∃ es, InTurn w w' es 0 := by
  induction calls generalizing w rs with
  | nil =>
      injection h with h
      injection h with _ h
      subst h
      exact ⟨[], .refl⟩
  | cons tc rest ih =>
      rw [executeSequential] at h
      split at h
      · injection h with h
        injection h with _ h
        subst h
        exact ⟨[], .refl⟩
      · simp only [Option.bind_eq_some_iff, Option.map_eq_some_iff, Prod.mk.injEq] at h
        obtain ⟨⟨r, w₁⟩, h1, ⟨rs', w₂⟩, h2, -, rfl⟩ := h
        obtain ⟨es, hes⟩ := executeSingleTool_inTurn h1
        obtain ⟨es', hes'⟩ := ih h2
        exact ⟨es ++ es', hes.trans hes'⟩

/-- The token's branch does not drop this call once it has been announced. -/
def sparesCall (env : Env) (tools : List AgentTool) (before : Bool) (tc : ToolCall) (w : World) :
    Bool :=
  (before && drops env w) || (suspensions env tools tc w).all fun w' => !drops env w'

/-- Nor any of these. -/
def spares (env : Env) (tools : List AgentTool) (before : Bool) : List ToolCall → World → Bool
  | [], _ => true
  | tc :: rest, w =>
      sparesCall env tools before tc w &&
        (raceTool env tools before tc w).all fun r => spares env tools before rest r.2

theorem raceTool_inTurn {before : Bool} {tc : ToolCall} {r : ToolResultMessage}
    (h : raceTool env tools before tc w = some (r, w')) :
    ∃ es ids, InTurn w w' es ids ∧ (ids = 0 ↔ sparesCall env tools before tc w = true) := by
  rw [sparesCall]
  rcases raceTool_cases h with ⟨hbefore, rfl, -⟩ | ⟨hbefore, hmem, hdrops, -⟩ | ⟨hnone, hsingle⟩
  · exact ⟨[], 0, .refl, by rw [hbefore]; simp⟩
  · obtain ⟨es, hes⟩ := suspensions_inTurn hmem
    refine ⟨es, {tc.id}, hes, ?_⟩
    rw [hbefore, Bool.false_or]
    constructor
    · intro hid
      exact absurd hid (Multiset.singleton_ne_zero _)
    · intro hall
      have hnot := List.all_eq_true.mp hall w' hmem
      rw [hdrops] at hnot
      cases hnot
  · obtain ⟨es, hes⟩ := executeSingleTool_inTurn hsingle
    refine ⟨es, 0, hes, ⟨fun _ => ?_, fun _ => rfl⟩⟩
    rw [Bool.or_eq_true]
    refine .inr (List.all_eq_true.mpr fun w₁ hw₁ => ?_)
    rw [hnone w₁ hw₁]
    rfl

theorem executeParallel_inTurn {before : Bool} {calls : List ToolCall}
    {rs : List ToolResultMessage} (h : executeParallel env tools before calls w = some (rs, w')) :
    ∃ es ids, InTurn w w' es ids ∧ (ids = 0 ↔ spares env tools before calls w = true) := by
  induction calls generalizing w rs with
  | nil =>
      injection h with h
      injection h with _ h
      subst h
      exact ⟨[], 0, .refl, ⟨fun _ => rfl, fun _ => rfl⟩⟩
  | cons tc rest ih =>
      simp only [executeParallel, Option.bind_eq_some_iff, Option.map_eq_some_iff,
        Prod.mk.injEq] at h
      obtain ⟨⟨r, w₁⟩, h1, ⟨rs', w₂⟩, h2, -, rfl⟩ := h
      obtain ⟨es, ids, hes, hids⟩ := raceTool_inTurn h1
      obtain ⟨es', ids', hes', hids'⟩ := ih h2
      have hadd : ids + ids' = 0 ↔ ids = 0 ∧ ids' = 0 := by
        rw [← Multiset.card_eq_zero, Multiset.card_add, Nat.add_eq_zero_iff,
          Multiset.card_eq_zero, Multiset.card_eq_zero]
      refine ⟨es ++ es', ids + ids', hes.trans hes', ?_⟩
      rw [hadd, hids, hids', spares, h1, Option.all_some, Bool.and_eq_true]

theorem executeTools_inTurn {calls : List ToolCall} {rs : List ToolResultMessage}
    (h : executeTools env tools calls w = some (rs, w')) :
    ∃ es ids, InTurn w w' es ids ∧
      (ids = 0 ↔ (useSequential tools calls || spares env tools w.cancelled calls w) = true) := by
  rw [executeTools] at h
  split at h
  · next hseq =>
      obtain ⟨es, hes⟩ := executeSequential_inTurn h
      exact ⟨es, 0, hes, by rw [hseq]; simp⟩
  · next hseq =>
      obtain ⟨es, ids, hes, hids⟩ := executeParallel_inTurn h
      exact ⟨es, ids, hes, by rw [Bool.eq_false_iff.mpr hseq, Bool.false_or]; exact hids⟩

end Pandaria.Agent
