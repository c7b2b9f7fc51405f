import Pandaria.Agent.World
import Pandaria.Lib.Feed
import Pandaria.Lib.Run

/-!
# The hub of a session

`SessionEventHub` of `agent-core/src/harness/session/event_hub.rs`: the channel
of the events with its processor, and the two queues of messages for the agent
loop. The processor runs beside the session, and an event sink of a turn or of
a retry has a clone of the sender, which outlives the hub's own.

A processor whose handle is dropped, or waited for no longer, runs on.
-/

namespace Pandaria.Agent

open Pandaria.Lib

/-- The capacity of the channel. -/
def eventCapacity : Nat := 1024

structure SessionEventHub where
  fanout : Fanout AgentEvent
  /-- `event_tx` is there. -/
  hasTx : Bool
  /-- The clones of it that are alive. -/
  clones : Nat
  steerQueue : List AgentMessage
  followUpQueue : List AgentMessage

inductive HubOp where
  | emit (event : AgentEvent)
  | addListener
  | steer (msg : AgentMessage)
  | followUp (msg : AgentMessage)
  | drainSteer
  | drainFollowUp
  | eventTxClone
  /-- An event sink emits by its clone. -/
  | sink (event : AgentEvent)
  | dropClone
  /-- `take_event_tx`, or the beginning of `shutdown` or of `drop`. -/
  | takeEventTx
  /-- The next step of the processor. -/
  | process

namespace SessionEventHub

def new : SessionEventHub := ⟨.new, true, 0, [], []⟩

def emit (hub : SessionEventHub) (event : AgentEvent) : SessionEventHub :=
  if hub.hasTx then { hub with fanout := hub.fanout.send eventCapacity event } else hub

def addListener (hub : SessionEventHub) : SessionEventHub :=
  { hub with fanout := hub.fanout.listen }

def steer (hub : SessionEventHub) (msg : AgentMessage) : SessionEventHub :=
  { hub with steerQueue := hub.steerQueue ++ [msg] }

def followUp (hub : SessionEventHub) (msg : AgentMessage) : SessionEventHub :=
  { hub with followUpQueue := hub.followUpQueue ++ [msg] }

def drainSteer (hub : SessionEventHub) : List AgentMessage × SessionEventHub :=
  (hub.steerQueue, { hub with steerQueue := [] })

def drainFollowUp (hub : SessionEventHub) : List AgentMessage × SessionEventHub :=
  (hub.followUpQueue, { hub with followUpQueue := [] })

def eventTxClone (hub : SessionEventHub) : SessionEventHub :=
  if hub.hasTx then { hub with clones := hub.clones + 1 } else hub

/-- A sink that was given no sender emits nothing. -/
def sink (hub : SessionEventHub) (event : AgentEvent) : SessionEventHub :=
  if 0 < hub.clones then { hub with fanout := hub.fanout.send eventCapacity event } else hub

/-- The loop of the processor, which ends when all senders are gone and the
channel is empty. -/
def process (hub : SessionEventHub) : SessionEventHub :=
  { hub with fanout := hub.fanout.work (!hub.hasTx && hub.clones = 0) }

def step (hub : SessionEventHub) : HubOp → SessionEventHub
  | .emit event => hub.emit event
  | .addListener => hub.addListener
  | .steer msg => hub.steer msg
  | .followUp msg => hub.followUp msg
  | .drainSteer => hub.drainSteer.2
  | .drainFollowUp => hub.drainFollowUp.2
  | .eventTxClone => hub.eventTxClone
  | .sink event => hub.sink event
  | .dropClone => { hub with clones := hub.clones - 1 }
  | .takeEventTx => { hub with hasTx := false }
  | .process => hub.process

def Inv (hub : SessionEventHub) : Prop := hub.fanout.Inv eventCapacity

theorem Inv.step {hub : SessionEventHub} (h : hub.Inv) (op : HubOp) : (hub.step op).Inv := by
  cases op with
  | emit event =>
      rw [SessionEventHub.step, emit]
      split
      · exact Fanout.Inv.send h event
      · exact h
  | addListener => exact Fanout.Inv.listen h
  | eventTxClone =>
      rw [SessionEventHub.step, eventTxClone]
      split <;> exact h
  | sink event =>
      rw [SessionEventHub.step, sink]
      split
      · exact Fanout.Inv.send h event
      · exact h
  | process => exact Fanout.Inv.work h _
  | steer | followUp | drainSteer | drainFollowUp | dropClone | takeEventTx => exact h

theorem inv_run (ops : List HubOp) : (ops.foldl step new).Inv := by
  have hnew : new.Inv := Fanout.Inv.new
  exact foldl_invariant (fun _ op h => h.step op) hnew ops

/-- Every listener hears what the channel has taken since it came: in order, each
event once, and with no more than 1025 still to come. -/
theorem heard_in_order (ops : List HubOp) (l : Listener AgentEvent)
    (hl : l ∈ (ops.foldl step new).fanout.listeners) :
    l.heard <+: (ops.foldl step new).fanout.sent.drop l.since ∧
      (ops.foldl step new).fanout.sent.length ≤ l.since + l.heard.length + 1025 :=
  Fanout.Inv.heard (inv_run ops) hl

/-- A listener that comes between two events. -/
def lateListener : List HubOp :=
  [.emit .agentStart, .process, .process, .addListener, .emit (.turnStart 0), .process, .process,
    .process, .process, .takeEventTx]

theorem heard_in_order_late :
    [AgentEvent.turnStart 0] <+: (lateListener.foldl step new).fanout.sent.drop 1 ∧
      (lateListener.foldl step new).fanout.sent.length ≤ 1 + 1 + 1025 :=
  heard_in_order lateListener ⟨1, [.turnStart 0]⟩ (List.mem_of_getElem? (i := 0) rfl)

/-- Once the senders are gone, the processor alone is still at work. -/
theorem process_closed {hub : SessionEventHub} (htx : hub.hasTx = false) (hclones : hub.clones = 0)
    (n : Nat) : process^[n] hub = { hub with fanout := (Fanout.work true)^[n] hub.fanout } := by
  induction n with
  | zero => rfl
  | succ n ih =>
      rw [Function.iterate_succ_apply', ih, Function.iterate_succ_apply', process]
      simp [htx, hclones]

/-- A shutdown loses nothing: once the senders are gone, whatever the channel has
taken is handed to all who listened, and then the processor ends. -/
theorem all_heard_after_shutdown (ops : List HubOp)
    (htx : (ops.foldl step new).hasTx = false) (hclones : (ops.foldl step new).clones = 0) :
    ∃ n, (process^[n] (ops.foldl step new)).fanout.courier = .done ∧
      (process^[n] (ops.foldl step new)).fanout.listeners.map (·.since) =
        (ops.foldl step new).fanout.listeners.map (·.since) ∧
      ∀ l ∈ (process^[n] (ops.foldl step new)).fanout.listeners,
        l.heard = (ops.foldl step new).fanout.sent.drop l.since := by
  obtain ⟨n, hn⟩ := Fanout.Inv.drain (inv_run ops)
  refine ⟨n, ?_⟩
  rw [process_closed htx hclones]
  exact hn

theorem all_heard_after_shutdown_late :
    ∃ n, (process^[n] (lateListener.foldl step new)).fanout.courier = .done ∧
      (process^[n] (lateListener.foldl step new)).fanout.listeners.map (·.since) = [1] ∧
      ∀ l ∈ (process^[n] (lateListener.foldl step new)).fanout.listeners,
        l.heard = (lateListener.foldl step new).fanout.sent.drop l.since :=
  all_heard_after_shutdown lateListener rfl rfl

end SessionEventHub

end Pandaria.Agent
