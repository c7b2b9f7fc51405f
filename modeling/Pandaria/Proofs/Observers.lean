import Pandaria.Gateway.Events

/-!
# Two clients of one session

What a WebSocket is sent against what a stream of server-sent events is sent for
the same events. One is a map, the other a map that leaves out, so they can only
agree when nothing is left out, and then they have to agree one by one.
-/

namespace Pandaria.Gateway

open Pandaria.Ai Pandaria.Agent

variable {sanitizeStr : String → String}

/-- The two mappings have a case of their own for it. -/
def shared : AgentEvent → Bool
  | .agentStart | .agentEnd _ | .messageEnd _ | .toolExecutionUpdate .. | .compactionStart _
  | .compactionEnd .. | .loopIterationComplete .. | .loopIterationError .. => false
  | .turnStart _ | .turnEnd .. | .messageStart _ | .messageUpdate .. | .toolExecutionStart ..
  | .toolExecutionEnd .. | .autoRetryStart .. | .autoRetryEnd .. | .error _
  | .stateChanged _ => true

theorem mapAgentEvent_eq_iff (e : AgentEvent) :
    Events.mapAgentEvent sanitizeStr e = some (Ws.mapAgentEvent sanitizeStr e) ↔ shared e = true := by
  cases e <;> simp [Events.mapAgentEvent, Ws.mapAgentEvent, shared]

/-- A map agrees with one that leaves out only element by element. -/
theorem map_eq_filterMap_iff {α β : Type} {f : α → Option β} {g : α → β} {l : List α} :
    l.map g = l.filterMap f ↔ ∀ a ∈ l, f a = some (g a) := by
  induction l with
  | nil => simp
  | cons a l ih =>
      rw [List.forall_mem_cons]
      constructor
      · intro h
        cases hf : f a with
        | none =>
            -- leaving out one element makes the list shorter
            have hlen : ((a :: l).filterMap f).length = (a :: l).length := by
              rw [← h, List.length_map]
            have hsome := List.filterMap_length_eq_length.mp hlen a List.mem_cons_self
            rw [hf] at hsome
            cases hsome
        | some b =>
            rw [List.filterMap_cons_some hf, List.map_cons] at h
            obtain ⟨hb, htail⟩ := List.cons.inj h
            exact ⟨by rw [hb], ih.mp htail⟩
      · rintro ⟨hf, hl⟩
        rw [List.filterMap_cons_some hf, List.map_cons, ih.mpr hl]

theorem Events.stream_of_connected (es : List AgentEvent) :
    Events.stream sanitizeStr (es.map fun e => (e, true)) =
      es.filterMap (Events.mapAgentEvent sanitizeStr) := by
  induction es with
  | nil => rfl
  | cons e es ih =>
      rw [List.map_cons, Events.stream]
      cases hmap : Events.mapAgentEvent sanitizeStr e with
      | none => rw [List.filterMap_cons_none hmap, ← ih]
      | some serverEvent =>
          rw [List.filterMap_cons_some hmap, ← ih]
          rfl

namespace Ws

/-- The loop goes on after it. -/
def Input.stays : Input → Bool
  | .event _ connected | .tick connected => connected
  | .text | .other => true
  | .close => false

def Input.event? : Input → Option AgentEvent
  | .event e _ => some e
  | .tick _ | .text | .close | .other => none

def Frame.event? : Frame → Option ServerEvent
  | .event e => some e
  | .ping => none

/-- The events of the session that a socket answers before it closes. -/
def heard (inputs : List Input) : List AgentEvent :=
  (inputs.takeWhile Input.stays).filterMap Input.event?

/-- The frames of a socket, pings aside. -/
theorem served_handleSocket (inputs : List Input) :
    (handleSocket sanitizeStr inputs).filterMap Frame.event? =
      (heard inputs).map (mapAgentEvent sanitizeStr) := by
  induction inputs with
  | nil => rfl
  | cons input inputs ih =>
      cases input with
      | event e connected =>
          cases connected with
          | false => rfl
          | true => exact congrArg (mapAgentEvent sanitizeStr e :: ·) ih
      | tick connected =>
          cases connected with
          | false => rfl
          | true => exact ih
      | text => exact ih
      | close => rfl
      | other => exact ih

end Ws

/-- A socket is sent what a stream is sent of the same events exactly when each
of them is mapped by both. -/
theorem served_eq_stream_iff (sanitizeStr : String → String) (inputs : List Ws.Input) :
    (Ws.handleSocket sanitizeStr inputs).filterMap Ws.Frame.event? =
        Events.stream sanitizeStr ((Ws.heard inputs).map fun e => (e, true)) ↔
      ∀ e ∈ Ws.heard inputs, shared e = true := by
  rw [Ws.served_handleSocket, Events.stream_of_connected, map_eq_filterMap_iff]
  exact forall₂_congr fun e _ => mapAgentEvent_eq_iff e

/-- A session starts to run, and a background loop of it has done its work. -/
theorem not_served_eq_stream_agentStart :
    (Ws.handleSocket id [.event .agentStart true]).filterMap Ws.Frame.event? ≠
        Events.stream id [(.agentStart, true)] ∧
      (Ws.handleSocket id [.event (.loopIterationError 2 "timeout") true]).filterMap
          Ws.Frame.event? ≠
        Events.stream id [(.loopIterationError 2 "timeout", true)] := by
  decide

end Pandaria.Gateway
