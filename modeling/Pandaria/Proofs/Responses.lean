import Mathlib.Algebra.BigOperators.Fin
import Pandaria.Proofs.Handshake
import Pandaria.Proofs.Routing

/-!
# Every request is answered

The server's own steps, those of the loop, of the tasks and of the streams, use
up what there is to do: a request in the queue is two steps from its response, a
response one from its channel, a message one from the client, and a stream notes
its activity after each. When none of them does anything any more, whatever has
come over an open stream has its response there.
-/

namespace Pandaria.Mcp

open Pandaria.Lib
open Pandaria.Ai (Json)

variable {serde : Decoders}

/-! ## What there is to do -/

/-- The steps of the server itself. -/
def SseEvent.own : SseEvent → Bool
  | .recv | .answer _ | .respond _ | .poll _ => true
  | .connect | .register | .post .. | .disconnect _ | .collect | .wait _ => false

def StreamPhase.work : StreamPhase → Nat
  | .opening | .sent => 2
  | .waiting => 1
  | .ended => 0

def SseStream.work (stream : SseStream) : Nat :=
  if stream.connected then stream.phase.work + 2 * stream.channel.length else 0

theorem SseStream.work_push_le (stream : SseStream) (msg : Message) :
    (stream.push msg).work ≤ stream.work + 2 := by
  rw [push]
  split
  · next hc =>
      rw [work, work, if_pos hc, if_pos hc]
      simp only [List.length_append, List.length_singleton]
      omega
  · omega

namespace SseServer

variable {s : SseServer} {n : Nat} {r : Posted}

def streamWork (s : SseServer) : Nat := ∑ k ∈ Finset.range s.opened, (s.stream k).work

def work (s : SseServer) : Nat :=
  2 * s.queue.length + (if s.busy.isSome then 1 else 0) +
    3 * s.requests.countP (fun r => r.slot.underWay) + s.streamWork

theorem streamWork_setStream {session : Nat} (hlt : session < s.opened) (stream : SseStream) :
    (s.setStream session stream).streamWork + (s.stream session).work =
      s.streamWork + stream.work := by
  have hmem : session ∈ Finset.range s.opened := Finset.mem_range.mpr hlt
  have hnew : (fun k => ((s.setStream session stream).stream k).work) =
      Function.update (fun k => (s.stream k).work) session stream.work := by
    funext k
    rw [Function.update_apply]
    show (if k = session then stream else s.stream k : SseStream).work = _
    split <;> rfl
  show (∑ k ∈ Finset.range s.opened, ((s.setStream session stream).stream k).work) + _ = _
  rw [hnew, Finset.sum_update_of_mem hmem, streamWork, ← Finset.sum_sdiff
    (Finset.singleton_subset_iff.mpr hmem), Finset.sum_singleton]
  omega

theorem work_setStream {session : Nat} (hlt : session < s.opened) (stream : SseStream) :
    (s.setStream session stream).work + (s.stream session).work = s.work + stream.work := by
  have h := streamWork_setStream hlt stream
  have hwork : (s.setStream session stream).work =
      2 * s.queue.length + (if s.busy.isSome then 1 else 0) +
        3 * s.requests.countP (fun r => r.slot.underWay) +
          (s.setStream session stream).streamWork := rfl
  rw [hwork, work]
  omega

theorem work_touch (session : Nat) : (s.touch session).work = s.work := by
  rw [touch_eq]
  rfl

theorem work_setSlot (hr : s.requests[n]? = some r) (slot : ResponseSlot) :
    (s.setSlot n r slot).work + 3 * (if r.slot.underWay then 1 else 0) =
      s.work + 3 * (if slot.underWay then 1 else 0) := by
  have h := countP_set_add hr { r with slot := slot } fun r => r.slot.underWay
  have hwork : (s.setSlot n r slot).work =
      2 * s.queue.length + (if s.busy.isSome then 1 else 0) +
        3 * (s.requests.set n { r with slot := slot }).countP (fun r => r.slot.underWay) +
          s.streamWork := rfl
  dsimp only at h
  rw [hwork, work]
  omega

/-- A slot that stays under way is no work done. -/
theorem work_setSlot_of_eq (hr : s.requests[n]? = some r) {slot : ResponseSlot}
    (hunder : slot.underWay = r.slot.underWay) : (s.setSlot n r slot).work = s.work := by
  have h := work_setSlot hr slot
  rw [hunder] at h
  omega

theorem work_dropCurrent : s.dropCurrent.work = s.work := by
  rw [dropCurrent]
  split
  · rfl
  · split
    · next hr => exact work_setSlot_of_eq hr ResponseSlot.underWay_drop
    · rfl

theorem work_recv :
    s.recv = s ∧ (s.busy = none → s.queue = []) ∨ s.recv.work < s.work := by
  rw [recv]
  split
  · next n queue hbusy hqueue =>
      refine .inr ?_
      have hdrop : s.dropCurrent.work = 2 * (queue.length + 1) + 0 +
          3 * s.dropCurrent.requests.countP (fun r => r.slot.underWay) + s.streamWork := by
        rw [dropCurrent_eq, work, hbusy, hqueue]
        rfl
      rw [work_dropCurrent] at hdrop
      rw [hdrop, dropCurrent_eq]
      show 2 * queue.length + 1 +
        3 * s.dropCurrent.requests.countP (fun r => r.slot.underWay) + s.streamWork <
          2 * (queue.length + 1) + 0 +
            3 * s.dropCurrent.requests.countP (fun r => r.slot.underWay) + s.streamWork
      omega
  · next hnone =>
      refine .inl ⟨rfl, fun hbusy => ?_⟩
      cases hqueue : s.queue with
      | nil => rfl
      | cons n queue => exact absurd hqueue (hnone n queue hbusy)

theorem work_send (resp : JsonRpcResponse) : (s.send resp).work = s.work := by
  rw [send]
  split
  · rfl
  · split
    · rfl
    · split
      · next r hr => exact work_setSlot_of_eq hr ResponseSlot.underWay_send
      · rfl

theorem work_answer (h : Routing s) (run : ToolRun) :
    s.answer serde run = s ∧ s.busy = none ∨ (s.answer serde run).work < s.work := by
  rw [answer]
  split
  · next hbusy => exact .inl ⟨rfl, hbusy⟩
  · next n hbusy =>
      split
      · refine .inr ?_
        dsimp only
        rw [work_send]
        have hwork : s.work = 2 * s.queue.length + 1 +
            3 * s.requests.countP (fun r => r.slot.underWay) + s.streamWork := by
          rw [work, hbusy]
          rfl
        rw [hwork]
        show 2 * s.queue.length + 0 + 3 * s.requests.countP (fun r => r.slot.underWay) +
          s.streamWork < _
        omega
      · next hnone =>
          have hlt := (h.working n hbusy).1
          rw [List.getElem?_eq_getElem hlt] at hnone
          cases hnone

theorem work_forward (h : Routing s) (hr : s.requests[n]? = some r)
    (hunder : r.slot.underWay = true) (resp : JsonRpcResponse) :
    (s.forward n r resp).work < s.work := by
  have hslot := work_setSlot hr .forwarded
  rw [hunder] at hslot
  change _ + 3 * 1 = _ + 3 * 0 at hslot
  rw [forward]
  split
  · next hregistered =>
      have hlt : r.session < (s.setSlot n r .forwarded).opened := h.fresh _ hregistered
      have hpush := SseStream.work_push_le (s.stream r.session) ⟨n, resp⟩
      have hstream := work_setStream hlt ((s.stream r.session).push ⟨n, resp⟩)
      change _ + (s.stream r.session).work = _ at hstream
      rw [touch_setStream, work_touch]
      show ((s.setSlot n r .forwarded).setStream r.session
        ((s.stream r.session).push ⟨n, resp⟩)).work < _
      omega
  · omega

/-- A task has nothing to do before its channel has been filled or closed. -/
theorem work_respond (h : Routing s) (n : Nat) :
    s.respond n = s ∧ (∀ r, s.requests[n]? = some r → r.slot.underWay = true → r.slot = .waiting) ∨
      (s.respond n).work < s.work := by
  rw [respond]
  split
  · next r hr =>
      have hsame : ∀ r', s.requests[n]? = some r' → r' = r := by
        intro r' hr'
        rw [hr] at hr'
        injection hr' with hr'
        exact hr'.symm
      split
      · next hslot => exact .inr (work_forward h hr (by rw [hslot]; rfl) _)
      · next hslot =>
          split
          · exact .inr (work_forward h hr (by rw [hslot]; rfl) _)
          · next hid =>
              have hnamed := (h.tracked n r hr).named (by rw [hslot]; simp)
              rw [hid] at hnamed
              cases hnamed
      · next hslot =>
          refine .inl ⟨rfl, fun r' hr' hu => ?_⟩
          rw [hsame r' hr', hslot] at hu
          cases hu
      · next hslot => exact .inl ⟨rfl, fun r' hr' _ => hsame r' hr' ▸ hslot⟩
      · next hslot =>
          refine .inl ⟨rfl, fun r' hr' hu => ?_⟩
          rw [hsame r' hr', hslot] at hu
          cases hu
  · next hnone =>
      refine .inl ⟨rfl, fun r' hr' => ?_⟩
      rw [hnone] at hr'
      cases hr'

theorem work_poll (h : Routing s) (session : Nat) :
    s.poll session = s ∧ ((s.stream session).connected = true → (s.stream session).channel = []) ∨
      (s.poll session).work < s.work := by
  rw [poll]
  split
  · next hc =>
      have hlt : session < s.opened := by
        rcases Nat.lt_or_ge session s.opened with hlt | hle
        · exact hlt
        · rw [h.absent session hle] at hc
          cases hc
      have hstep := work_setStream hlt
      have hwork : (s.stream session).work =
          (s.stream session).phase.work + 2 * (s.stream session).channel.length := by
        rw [SseStream.work, if_pos hc]
      split
      · next hphase =>
          refine .inr ?_
          have hset := hstep { s.stream session with phase := .waiting }
          rw [hwork, hphase, SseStream.work, if_pos hc] at hset
          simp only [StreamPhase.work] at hset
          omega
      · next hphase =>
          split
          · next msg channel hchannel =>
              refine .inr ?_
              have hset := hstep { s.stream session with
                phase := .sent
                channel := channel
                received := (s.stream session).received ++ [msg] }
              rw [hwork, hphase, hchannel, SseStream.work, if_pos hc] at hset
              simp only [StreamPhase.work, List.length_cons] at hset
              omega
          · next hchannel =>
              split
              · exact .inl ⟨rfl, fun _ => hchannel⟩
              · refine .inr ?_
                have hset := hstep { s.stream session with phase := .ended }
                rw [hwork, hphase, SseStream.work, if_pos hc] at hset
                simp only [StreamPhase.work] at hset
                omega
      · next hphase =>
          refine .inr ?_
          have hset := hstep { s.stream session with phase := .waiting }
          rw [hwork, hphase, SseStream.work, if_pos hc] at hset
          simp only [StreamPhase.work] at hset
          rw [touch_setStream, work_touch]
          omega
      · next hphase => exact .inl ⟨rfl, fun _ => (h.ended session hphase).1⟩
  · next hc => exact .inl ⟨rfl, fun hc' => absurd hc' hc⟩

theorem work_step (h : Routing s) {e : SseEvent} (he : e.own = true) :
    s.step serde e = s ∨ (s.step serde e).work < s.work := by
  cases e with
  | recv => exact work_recv.imp_left And.left
  | answer run => exact (work_answer h run).imp_left And.left
  | respond n => exact (work_respond h n).imp_left And.left
  | poll session => exact (work_poll h session).imp_left And.left
  | connect | register | post _ _ | disconnect _ | collect | wait _ => cases he

/-! ## When nothing moves -/

/-- None of the server's own steps does anything. -/
def Settled (serde : Decoders) (s : SseServer) : Prop :=
  ∀ e : SseEvent, e.own = true → s.step serde e = s

theorem settled_cases {P : Prop} {t : SseServer} (hs : t = s) (h : t = s ∧ P ∨ t.work < s.work) :
    P := by
  rcases h with ⟨-, hp⟩ | hlt
  · exact hp
  · rw [hs] at hlt
    exact absurd hlt (Nat.lt_irrefl _)

/-- A request of an open stream has been answered on it, once. -/
theorem answered_of_settled (h : Routing s) (hs : Settled serde s) (hr : s.requests[n]? = some r)
    (hl : r.live = true) (hid : r.request.id.isSome = true)
    (hc : (s.stream r.session).connected = true) :
    ((s.stream r.session).received.countP fun msg => msg.request = n) = 1 := by
  have hbusy : s.busy = none :=
    settled_cases (hs (.answer fun _ _ => .error (.timeout 0)) rfl) (work_answer h _)
  have hqueue : s.queue = [] := settled_cases (hs .recv rfl) work_recv hbusy
  have hchannel : (s.stream r.session).channel = [] :=
    settled_cases (hs (.poll r.session) rfl) (work_poll h r.session) hc
  have hslot : r.slot.underWay = false := by
    refine Bool.eq_false_iff.mpr fun hu => ?_
    have hwaiting := settled_cases (hs (.respond n) rfl) (work_respond h n) r hr hu
    rcases (h.tracked n r hr).turn hl hwaiting with hq | hb
    · rw [hqueue] at hq
      cases hq
    · rw [hbusy] at hb
      cases hb
  have honce := (h.tracked n r hr).once hl hid hc
  rw [hslot, SseStream.copies, hchannel, List.nil_append] at honce
  exact (Nat.zero_add _).symm.trans honce

/-- What a server owes its clients: it has no more sessions than it may have,
every message of a stream answers a request of its session and has its id, every
request that came over an open stream is under way or in one message of it, and
the server's own steps lead to where each of these has been received. -/
structure Served (serde : Decoders) (s : SseServer) : Prop where
  bounded : s.sessionCount ≤ s.maxConnections
  owned : ∀ session, ∀ msg ∈ (s.stream session).messages, Owned s session msg
  once : ∀ n r, s.requests[n]? = some r → r.live = true → r.request.id.isSome = true →
    (s.stream r.session).connected = true →
      (if r.slot.underWay then 1 else 0) + (s.stream r.session).copies n = 1
  progress : ∀ e : SseEvent, e.own = true → s.step serde e = s ∨ (s.step serde e).work < s.work
  answered : Settled serde s → ∀ n r, s.requests[n]? = some r → r.live = true →
    r.request.id.isSome = true → (s.stream r.session).connected = true →
      ((s.stream r.session).received.countP fun msg => msg.request = n) = 1

/-- A run in which no place is given away twice, no request is sent as
`notifications/initialized` with an id, and no session is collected that has a
request under way. -/
theorem served_of_along (handler : RequestHandler) (maxConnections sessionTtl : Nat)
    {es : List SseEvent}
    (h : Along (step serde) Serving (start handler maxConnections sessionTtl) es) :
    Served serde (es.foldl (step serde) (start handler maxConnections sessionTtl)) := by
  have hstep (s : SseServer) (e : SseEvent) (he : s.Serving e) (hs : Routing s) :
      Routing (s.step serde e) := routing_step hs he
  have hrouting : Routing (es.foldl (step serde) (start handler maxConnections sessionTtl)) :=
    Along.invariant hstep (routing_start handler maxConnections sessionTtl) h
  exact
    { bounded := hrouting.bounded
      owned := hrouting.owned
      once := fun n r hr => (hrouting.tracked n r hr).once
      progress := fun e he => work_step hrouting he
      answered := fun hs n r hr hl hid hc => answered_of_settled hrouting hs hr hl hid hc }

def callRequest (id : Int) : JsonRpcRequest :=
  .new (.number id) "tools/call" (some (.obj [("name", .str "echo"), ("arguments", .obj [])]))

/-- A client shakes hands. -/
def greeting : List SseEvent :=
  [.connect, .register, .poll 0] ++ exchange 0 (initializeRequest 0) ++
    [SseEvent.respond 0, .poll 0, .poll 0] ++ exchange 0 initializedNotification

/-- And calls a tool that takes its time. -/
def call (ms : Nat) : List SseEvent :=
  greeting ++ [SseEvent.post 0 (callRequest 1), .recv, .wait ms, .collect, .answer echo,
    .respond 2, .poll 0]

/-- Two connections, and a place for one. -/
def rush : List SseEvent := [.connect, .connect, .register, .register]

/-- A request that is to be answered and is handled as a notification. -/
def initializedRequest : List SseEvent :=
  [.connect, .register, .poll 0] ++
    exchange 0 (.new (.number 0) "notifications/initialized" none)

theorem served_call :
    Served plainDecoders ((call 20000).foldl (step plainDecoders)
      (start (.new echoKit ⟨"pawbun", "0.1.0"⟩ (.obj []) "2024-11-05") 100 30000)) :=
  served_of_along _ 100 30000 (by decide)

def after (maxConnections : Nat) (es : List SseEvent) : SseServer :=
  es.foldl (step plainDecoders) (plainServer maxConnections 30000)

theorem settled_initializedRequest : Settled plainDecoders (after 100 initializedRequest) := by
  intro e he
  cases e with
  | recv => rfl
  | answer run => rfl
  | respond n =>
      cases n with
      | zero => rfl
      | succ n => rfl
  | poll session =>
      cases session with
      | zero => rfl
      | succ session => rfl
  | connect | register | post _ _ | disconnect _ | collect | wait _ => cases he

/-- The response to a call of half a minute is lost, the second connection comes in,
and what is sent as a notification waits for ever. -/
theorem not_served_call :
    ¬ Served plainDecoders (after 100 (call 30000)) ∧ ¬ Served plainDecoders (after 1 rush) ∧
      ¬ Served plainDecoders (after 100 initializedRequest) := by
  refine ⟨fun h => ?_, fun h => ?_, fun h => ?_⟩
  · obtain ⟨r, hr, hl, hid, hc, hzero⟩ : ∃ r, (after 100 (call 30000)).requests[2]? = some r ∧
        r.live = true ∧ r.request.id.isSome = true ∧
          ((after 100 (call 30000)).stream r.session).connected = true ∧
            (if r.slot.underWay then 1 else 0) +
              ((after 100 (call 30000)).stream r.session).copies 2 = 0 :=
      ⟨_, rfl, by decide, by decide, by decide, by decide⟩
    have hone := h.once 2 r hr hl hid hc
    omega
  · exact absurd h.bounded (by decide)
  · obtain ⟨r, hr, hl, hid, hc, hzero⟩ : ∃ r, (after 100 initializedRequest).requests[0]? = some r ∧
        r.live = true ∧ r.request.id.isSome = true ∧
          ((after 100 initializedRequest).stream r.session).connected = true ∧
            (((after 100 initializedRequest).stream r.session).received.countP
              fun msg => msg.request = 0) = 0 :=
      ⟨_, rfl, by decide, by decide, by decide, by decide⟩
    have hone := h.answered settled_initializedRequest 0 r hr hl hid hc
    omega

end SseServer

end Pandaria.Mcp
