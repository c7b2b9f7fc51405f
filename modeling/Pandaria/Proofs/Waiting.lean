import Pandaria.Lib.Run
import Pandaria.Lib.Threads
import Pandaria.Tenant.Turns

/-!
# Whose turn the answer is

The wait reads the events of a session after its turn is over and takes the
first `TurnEnd` or `Error` for the end of it. So the answer is right where the
first such event that is on its way to the sender is the only one of its turn:
no other turn ends while the sender waits for its own, its own turn ends in one
step, and what it ends with is not lost between the agent and the sender.

The invariant says for each sender which event that is: none before its turn,
and from then on the first one the turn has emitted.
-/

namespace Pandaria.Agent

/-- What a wait takes for the end of a turn. -/
def AgentEvent.stops : AgentEvent → Bool
  | .turnEnd .. | .error _ => true
  | _ => false

def AgentEvent.turnMessages : AgentEvent → Option (List AgentMessage)
  | .turnEnd _ messages => some messages
  | _ => none

end Pandaria.Agent

namespace Pandaria.Tenant

open Pandaria.Agent
open Pandaria.Lib

namespace Sender

/-- It is subscribed and its turn is not over. -/
def awaits (c : Sender) : Bool :=
  match c.phase with
  | .called | .queued _ | .running _ => c.waits
  | .draining .. | .returned _ => false

/-- These are the messages of the last `TurnEnd` of its turn. -/
def Final (c : Sender) (messages : List AgentMessage) : Prop :=
  (c.emitted.filterMap AgentEvent.turnMessages).getLast? = some messages

/-- Its turn has ended, without an error, and in time. -/
def InTime (maxSyncWaitMs : Nat) (c : Sender) : Prop :=
  ∃ t, c.endedAt = some t ∧ t ≤ c.startedAt + min c.timeoutMs maxSyncWaitMs * 1000000

/-- It is given the end of its own turn, and a timeout only if the turn has not
ended in time. -/
def Answered (maxSyncWaitMs : Nat) (c : Sender) : Prop :=
  ∀ r, c.phase = .returned r →
    (c.InTime maxSyncWaitMs → ∃ turnIndex messages, r = .completed turnIndex messages) ∧
      (∀ turnIndex messages, r = .completed turnIndex messages → c.Final messages) ∧
      ∀ turnIndex, r = .timeout turnIndex → ¬ c.InTime maxSyncWaitMs

/-- What is on its way to a sender that waits, with `rest` still in the hub. -/
def Expects (maxSyncWaitMs : Nat) (rest : List AgentEvent) (c : Sender) : Prop :=
  match c.phase with
  | .called | .queued _ =>
      c.emitted = [] ∧ c.endedAt = none ∧ c.feed.Tracks AgentEvent.stops none rest
  | .running _ =>
      c.endedAt = none ∧ c.feed.Tracks AgentEvent.stops (c.emitted.find? AgentEvent.stops) rest
  | .draining .. =>
      ∃ turnIndex messages, c.emitted.filter AgentEvent.stops = [.turnEnd turnIndex messages] ∧
        c.feed.Tracks AgentEvent.stops (some (.turnEnd turnIndex messages)) rest
  | .returned _ => c.Answered maxSyncWaitMs

end Sender

namespace Exchange

/-- What the hub has still to send. -/
def pending (s : Exchange) : List AgentEvent := s.hand.toList ++ s.queue

/-- A sender subscribes when the hub has no end of a turn left, and no other
turn ends before its own is over. Its turn, unless it fails, ends with one
`TurnEnd` and has no other, nor an `Error`. Neither the queue of the hub nor the
broadcast loses it, and the timeout does not elapse while it is on its way. -/
def Ok (s : Exchange) : ExchangeEvent → Prop
  | .call waits _ => waits = true → ∀ e ∈ s.pending, e.stops = false
  | .emit i e =>
      match s.senders[i]? with
      | some c =>
          c.isRunning = true → e.stops = true →
            (∀ c' ∈ s.senders.eraseIdx i, c'.awaits = false) ∧
              (c.waits = true → s.queue.length < hubCapacity)
      | none => True
  | .finish i (.ok ()) =>
      match s.senders[i]? with
      | some c =>
          c.isRunning = true → c.waits = true →
            ∃ turnIndex messages,
              c.emitted.filter AgentEvent.stops = [.turnEnd turnIndex messages]
      | none => True
  | .process =>
      s.hand.isSome = true → ∀ c ∈ s.senders, c.waits = true → c.isReturned = false →
        c.feed.unread.length < broadcastCapacity ∨
          (c.feed.secured.find? AgentEvent.stops).isSome = true
  | .expire i =>
      match s.senders[i]? with
      | some c =>
          ∀ turnIndex deadline, c.phase = .draining turnIndex deadline →
            c.feed.queue = [] ∧ deadline ≤ s.now → c.waits = true →
            c.InTime s.maxSyncWaitMs →
            ∀ e ∈ c.feed.secured ++ c.feed.unread ++ s.pending, e.stops = false
      | none => True
  | .check .. | .lock _ | .finish _ (.error _) | .forward _ | .recv _ | .tick _ => True

/-- What holds of the senders. -/
def Kept (s : Exchange) : Prop :=
  ∀ c ∈ s.senders, c.waits = true → c.Expects s.maxSyncWaitMs s.pending

end Exchange

namespace Sender

variable {maxSyncWaitMs : Nat} {rest rest' : List AgentEvent} {c : Sender}

/-- Events move on, to the sender or in the hub. -/
theorem Expects.feed (h : c.Expects maxSyncWaitMs rest) {f : Feed AgentEvent}
    (hwaits : c.waits = true)
    (hf : c.isReturned = false → ∀ x, c.awaits = true ∨ x.isSome = true →
      c.feed.Tracks AgentEvent.stops x rest → f.Tracks AgentEvent.stops x rest') :
    Expects maxSyncWaitMs rest' { c with feed := f } := by
  obtain ⟨waits, timeoutMs, startedAt, feed, phase, emitted, endedAt⟩ := c
  have hwaits' : waits = true := hwaits
  cases phase with
  | called | queued turnIndex =>
      obtain ⟨hemitted, hended, htracks⟩ := h
      exact ⟨hemitted, hended, hf rfl _ (.inl hwaits') htracks⟩
  | running turnIndex =>
      obtain ⟨hended, htracks⟩ := h
      exact ⟨hended, hf rfl _ (.inl hwaits') htracks⟩
  | draining turnIndex deadline =>
      obtain ⟨turnIndex', messages, hemitted, htracks⟩ := h
      exact ⟨turnIndex', messages, hemitted, hf rfl _ (.inr rfl) htracks⟩
  | returned r => exact h

theorem not_inTime (h : c.endedAt = none) : ¬ c.InTime maxSyncWaitMs := by
  intro ⟨t, ht, _⟩
  rw [h] at ht
  cases ht

/-- An answer that is neither a turn nor a timeout, to a sender whose turn has
not ended. -/
theorem answered_of_not_ended {r : SendResult} (hphase : c.phase = .returned r)
    (hended : c.endedAt = none) (hr : ∀ turnIndex messages, r ≠ .completed turnIndex messages) :
    c.Answered maxSyncWaitMs := by
  intro r' hr'
  rw [hphase] at hr'
  cases hr'
  refine ⟨fun htime => absurd htime (not_inTime hended), fun turnIndex messages heq => ?_,
    fun _ _ => not_inTime hended⟩
  exact absurd heq (hr turnIndex messages)

theorem Expects.answered (h : c.Expects maxSyncWaitMs rest) : c.Answered maxSyncWaitMs := by
  intro r hr
  rw [Expects, hr] at h
  exact h r hr

/-- The only end a turn has emitted is its last one. -/
theorem final_of_filter {turnIndex : Nat} {messages : List AgentMessage}
    (h : c.emitted.filter AgentEvent.stops = [.turnEnd turnIndex messages]) :
    c.Final messages := by
  have hmap : c.emitted.filterMap AgentEvent.turnMessages =
      (c.emitted.filter AgentEvent.stops).filterMap AgentEvent.turnMessages := by
    rw [List.filterMap_filter]
    refine List.filterMap_congr fun e _ => ?_
    cases e <;> rfl
  rw [Final, hmap, h]
  rfl

end Sender

namespace Exchange

variable {s : Exchange}

/-- One sender is replaced. -/
theorem Kept.setSender (h : s.Kept) (i : Nat) {c : Sender}
    (hc : c.waits = true → c.Expects s.maxSyncWaitMs s.pending) : (s.setSender i c).Kept :=
  forall_mem_set h hc i

theorem Kept.check (h : s.Kept) (i : Nat) (result : Except TenantError Unit) :
    (s.check i result).Kept := by
  rw [Exchange.check]
  split
  next => exact h
  next c hi =>
    have hc := h c (List.mem_of_getElem? hi)
    rw [Sender.Expects] at hc
    split
    next e hphase =>
      refine h.setSender i fun hwaits => ?_
      rw [hphase] at hc
      exact Sender.answered_of_not_ended rfl (hc hwaits).2.1 nofun
    next hphase =>
      rw [hphase] at hc
      exact forall_mem_set h hc i
    next => exact h

theorem Kept.lock (h : s.Kept) (i : Nat) : (s.lock i).Kept := by
  rw [Exchange.lock]
  split
  next => exact h
  next c hi =>
    have hc := h c (List.mem_of_getElem? hi)
    rw [Sender.Expects] at hc
    split
    next turnIndex hphase =>
      split
      · exact h
      · refine h.setSender i fun hwaits => ?_
        rw [hphase] at hc
        obtain ⟨hemitted, hended, htracks⟩ := hc hwaits
        refine ⟨hended, ?_⟩
        simp only [hemitted]
        exact htracks
    next => exact h

/-- The running turn emits an event. -/
theorem Kept.emit (h : s.Kept) {i : Nat} {e : AgentEvent} (hok : s.Ok (.emit i e)) :
    (s.emit i e).Kept := by
  rw [Exchange.emit]
  split
  next => exact h
  next c hi =>
    split
    next hrunning =>
      simp only [Ok, hi] at hok
      -- The event goes to the end of the queue, or is dropped.
      obtain ⟨queue, hqueue, hlast⟩ : ∃ queue,
          (if s.queue.length < hubCapacity then s.queue ++ [e] else s.queue) = queue ∧
            (queue = s.queue ++ [e] ∨ queue = s.queue ∧ ¬ s.queue.length < hubCapacity) := by
        refine ⟨_, rfl, ?_⟩
        split
        next => exact .inl rfl
        next hfull => exact .inr ⟨rfl, hfull⟩
      rw [hqueue]
      have hpush : ∀ (f : Feed AgentEvent) (x : Option AgentEvent), queue = s.queue ++ [e] →
          f.Tracks AgentEvent.stops x s.pending →
          f.Tracks AgentEvent.stops (x.or (if e.stops then some e else none))
            (s.hand.toList ++ queue) := by
        intro f x hpushed htracks
        rw [hpushed, ← List.append_assoc]
        exact htracks.push e
      intro c' hc'
      obtain ⟨j, hj⟩ := List.getElem?_of_mem hc'
      refine forall_getElem?_set (P := fun _ c' => c'.waits = true →
        c'.Expects s.maxSyncWaitMs (s.hand.toList ++ queue)) (fun hwaits => ?_)
        (fun k c' hk hc' hwaits => ?_) j c' hj
      · have hwaits' : c.waits = true := hwaits
        have hexpects := h c (List.mem_of_getElem? hi) hwaits'
        obtain ⟨turnIndex, hphase⟩ : ∃ turnIndex, c.phase = .running turnIndex := by
          rw [Sender.isRunning] at hrunning
          split at hrunning
          next turnIndex hphase => exact ⟨turnIndex, hphase⟩
          next => cases hrunning
        simp only [Sender.Expects, hphase] at hexpects ⊢
        refine ⟨hexpects.1, ?_⟩
        rw [List.find?_append, List.find?_singleton]
        rcases hlast with hpushed | ⟨hsame, hfull⟩
        · exact hpush c.feed _ hpushed hexpects.2
        · have hnot : ¬ e.stops = true := fun hstops => hfull ((hok hrunning hstops).2 hwaits')
          rw [if_neg hnot, Option.or_none, hsame]
          exact hexpects.2
      · have hexpects := h c' (List.mem_of_getElem? hc') hwaits
        refine hexpects.feed (f := c'.feed) hwaits fun _ x hx htracks => ?_
        rcases hlast with hpushed | ⟨hsame, _⟩
        · -- The end of a turn makes no difference to those who have got theirs.
          have hsame : x.or (if e.stops then some e else none) = x := by
            by_cases hstops : e.stops = true
            · have hmem := List.mem_eraseIdx_iff_getElem?.mpr ⟨k, hk, hc'⟩
              rw [(hok hrunning hstops).1 c' hmem] at hx
              obtain ⟨a, rfl⟩ := Option.isSome_iff_exists.mp (hx.resolve_left Bool.false_ne_true)
              rfl
            · rw [if_neg hstops, Option.or_none]
          have hpushed' := hpush c'.feed x hpushed htracks
          rwa [hsame] at hpushed'
        · rw [hsame]
          exact htracks
    next => exact h

/-- The turn is over. -/
theorem Kept.finish (h : s.Kept) {i : Nat} {result : Except AgentError Unit}
    (hok : s.Ok (.finish i result)) : (s.finish i result).Kept := by
  rw [Exchange.finish]
  split
  next => exact h
  next c hi =>
    have hc := h c (List.mem_of_getElem? hi)
    rw [Sender.Expects] at hc
    split
    next turnIndex e hphase =>
      refine h.setSender i fun hwaits => ?_
      rw [hphase] at hc
      exact Sender.answered_of_not_ended rfl (hc hwaits).1 nofun
    next turnIndex hphase =>
      refine h.setSender i fun hwaits => ?_
      have hwaits' : c.waits = true := hwaits
      rw [hphase] at hc
      simp only [Ok, hi] at hok
      obtain ⟨turnIndex', messages, hemitted⟩ :=
        hok (by rw [Sender.isRunning, hphase]) hwaits'
      have htracks := (hc hwaits').2
      rw [← List.head?_filter, hemitted] at htracks
      simp only [hwaits', if_true]
      exact ⟨turnIndex', messages, hemitted, htracks⟩
    next => exact h

theorem Kept.process (h : s.Kept) (hok : s.Ok .process) : s.process.Kept := by
  rw [Exchange.process]
  split
  next e hhand =>
    intro c' hc' hwaits
    obtain ⟨c, hc, rfl⟩ := List.mem_map.mp hc'
    have hpending : s.pending = e :: s.queue := by rw [pending, hhand]; rfl
    have hexpects := h c hc hwaits
    rw [hpending] at hexpects
    refine hexpects.feed hwaits fun hnot x _ htracks => ?_
    exact htracks.publish (hok (by rw [hhand]; rfl) c hc hwaits hnot)
  next e rest hhand hqueue =>
    have hpending : pending { s with queue := rest, hand := some e } = s.pending := by
      rw [pending, pending, hhand, hqueue]
      rfl
    intro c hc hwaits
    rw [hpending]
    exact h c hc hwaits
  next => exact h

theorem Kept.forward (h : s.Kept) (i : Nat) : (s.forward i).Kept := by
  rw [Exchange.forward]
  split
  next => exact h
  next c hi =>
    have hc := h c (List.mem_of_getElem? hi)
    split
    next hreturned =>
      refine h.setSender i fun hwaits => (hc hwaits).feed hwaits fun hnot => ?_
      rw [hreturned] at hnot
      cases hnot
    next =>
      refine h.setSender i fun hwaits => (hc hwaits).feed hwaits fun _ x _ htracks => ?_
      exact htracks.forward feedCapacity

theorem Kept.recv (h : s.Kept) (i : Nat) : (s.recv i).Kept := by
  rw [Exchange.recv]
  split
  next => exact h
  next c hi =>
    have hc := h c (List.mem_of_getElem? hi)
    rw [Sender.Expects] at hc
    split
    next turnIndex deadline hphase =>
      rw [hphase] at hc
      split
      next e queue hqueue =>
        split
        next turnIndex' messages =>
          refine h.setSender i fun hwaits => ?_
          obtain ⟨_, messages', hemitted, htracks⟩ := hc hwaits
          have hfound := htracks.found hqueue rfl
          injection hfound with hfound
          injection hfound with _ hmessages
          subst hmessages
          intro r hr
          cases hr
          refine ⟨fun _ => ⟨_, _, rfl⟩, fun _ _ heq => ?_, nofun⟩
          cases heq
          exact Sender.final_of_filter hemitted
        next error =>
          refine h.setSender i fun hwaits => ?_
          obtain ⟨_, _, _, htracks⟩ := hc hwaits
          have hfound := htracks.found hqueue rfl
          injection hfound with hfound
          cases hfound
        next hturn herror =>
          refine h.setSender i fun hwaits => ?_
          obtain ⟨turnIndex', messages, hemitted, htracks⟩ := hc hwaits
          have hnot : e.stops = false := by
            cases e with
            | turnEnd turnIndex messages => exact absurd rfl (hturn turnIndex messages)
            | error error => exact absurd rfl (herror error)
            | _ => rfl
          simp only [Sender.Expects, hphase]
          exact ⟨turnIndex', messages, hemitted, htracks.skip hqueue hnot⟩
      next hqueue =>
        split
        next hended =>
          refine h.setSender i fun hwaits => ?_
          obtain ⟨_, _, _, htracks⟩ := hc hwaits
          exact absurd hqueue (htracks.not_ended hended)
        next => exact h
    next => exact h

theorem Kept.expire (h : s.Kept) {i : Nat} (hok : s.Ok (.expire i)) : (s.expire i).Kept := by
  rw [Exchange.expire]
  split
  next => exact h
  next c hi =>
    split
    next turnIndex deadline hphase =>
      split
      next hdue =>
        refine h.setSender i fun hwaits => ?_
        simp only [Ok, hi] at hok
        have hlate : ¬ c.InTime s.maxSyncWaitMs := by
          intro htime
          have hnone := hok turnIndex deadline hphase hdue hwaits htime
          have hexpects := h c (List.mem_of_getElem? hi) hwaits
          simp only [Sender.Expects, hphase] at hexpects
          obtain ⟨_, _, _, htracks⟩ := hexpects
          -- The end of the turn is still on its way.
          have hmem := List.mem_of_find?_eq_some (htracks.find rfl)
          have hstops := List.find?_some (htracks.find rfl)
          rw [hnone _ hmem] at hstops
          cases hstops
        intro r hr
        cases hr
        exact ⟨fun htime => absurd htime hlate, nofun, fun _ _ => hlate⟩
      next => exact h
    next => exact h

theorem Kept.call (h : s.Kept) {waits : Bool} {timeoutMs : Nat}
    (hok : s.Ok (.call waits timeoutMs)) : (s.act (.call waits timeoutMs)).Kept := by
  refine forall_mem_push h fun hwaits => ⟨rfl, rfl, ?_⟩
  have hwaits' : waits = true := hwaits
  simp only [hwaits', if_true]
  refine Feed.tracks_subscribe (List.find?_eq_none.mpr fun e he => ?_)
  rw [hok hwaits' e he]
  exact Bool.false_ne_true

theorem Kept.act (h : s.Kept) {e : ExchangeEvent} (hok : s.Ok e) : (s.act e).Kept := by
  cases e with
  | call waits timeoutMs => exact h.call hok
  | check i result => exact h.check i result
  | lock i => exact h.lock i
  | emit i e => exact h.emit hok
  | finish i result => exact h.finish hok
  | process => exact h.process hok
  | forward i => exact h.forward i
  | recv i => exact h.recv i
  | expire i => exact h.expire hok
  | tick n => exact h

theorem kept_start (maxSyncWaitMs : Nat) : (start maxSyncWaitMs).Kept := by
  intro c hc
  cases hc

theorem max_act (s : Exchange) (e : ExchangeEvent) : (s.act e).maxSyncWaitMs = s.maxSyncWaitMs := by
  cases e with
  | call | tick => rfl
  | process =>
      rw [act, process]
      split <;> rfl
  | check i result =>
      rw [act, check]
      split
      · rfl
      · split <;> rfl
  | lock i =>
      rw [act, lock]
      split
      · rfl
      · split
        · split <;> rfl
        · rfl
  | emit i e =>
      rw [act, emit]
      split
      · rfl
      · split <;> rfl
  | finish i result =>
      rw [act, finish]
      split
      · rfl
      · split <;> rfl
  | forward i =>
      rw [act, forward]
      split
      · rfl
      · split <;> rfl
  | recv i =>
      rw [act, recv]
      split
      · rfl
      · split
        · split
          · split <;> rfl
          · split <;> rfl
        · rfl
  | expire i =>
      rw [act, expire]
      split
      · rfl
      · split
        · split <;> rfl
        · rfl

/-- In a run of any number of senders whose steps meet the condition every
sender that waits is given the end of its own turn, and a timeout only if the
turn has not ended in time. -/
theorem answered_of_along_ok (maxSyncWaitMs : Nat) (es : List ExchangeEvent)
    (hok : Along act Ok (start maxSyncWaitMs) es) :
    ∀ c ∈ (es.foldl act (start maxSyncWaitMs)).senders, c.waits = true →
      c.Answered maxSyncWaitMs := by
  have hkept : (es.foldl act (start maxSyncWaitMs)).Kept :=
    hok.invariant (fun _ _ hok h => h.act hok) (kept_start maxSyncWaitMs)
  have hmax : (es.foldl act (start maxSyncWaitMs)).maxSyncWaitMs = maxSyncWaitMs := by
    have hstep : ∀ (s : Exchange) (e : ExchangeEvent), s.maxSyncWaitMs = maxSyncWaitMs →
        (s.act e).maxSyncWaitMs = maxSyncWaitMs := fun s e h => (max_act s e).trans h
    exact foldl_invariant hstep rfl es
  intro c hc hwaits
  have hanswered := (hkept c hc hwaits).answered
  rwa [hmax] at hanswered

/-- A turn of one step, read to its end. -/
def alone : List ExchangeEvent :=
  [.call true 1000, .check 0 (.ok ()), .lock 0, .emit 0 .agentStart,
    .emit 0 (.turnEnd 1 [userText "a"]), .finish 0 (.ok ()), .process, .process, .process,
    .process, .forward 0, .forward 0, .forward 0, .forward 0, .recv 0, .recv 0]

theorem answered_alone :
    (alone.foldl act (start 60000)).senders.map Sender.phase =
        [.returned (.completed 0 [userText "a"])] ∧
      ∀ c ∈ (alone.foldl act (start 60000)).senders, c.waits = true → c.Answered 60000 := by
  refine ⟨rfl, answered_of_along_ok 60000 alone ?_⟩
  refine ⟨fun _ => by decide, trivial, trivial, fun _ hstops => absurd hstops (by decide),
    fun _ _ => ⟨by decide, fun _ => by decide⟩, fun _ _ => ⟨1, [userText "a"], rfl⟩,
    fun hhand => absurd hhand (by decide), fun _ => ?_, fun hhand => absurd hhand (by decide),
    fun _ => ?_, trivial, trivial, trivial, trivial, trivial, trivial, trivial⟩
  · exact List.forall_mem_singleton.mpr fun _ _ => .inl (by decide)
  · exact List.forall_mem_singleton.mpr fun _ _ => .inl (by decide)

/-- A second sender subscribes while the turn of the first is running. -/
def otherTurn : List ExchangeEvent :=
  [.call false 0, .check 0 (.ok ()), .lock 0, .call true 1000, .check 1 (.ok ()),
    .emit 0 (.turnEnd 1 [userText "a"]), .finish 0 (.ok ()), .lock 1,
    .emit 1 (.turnEnd 1 [userText "b"]), .finish 1 (.ok ()), .process, .process, .process,
    .process, .forward 1, .forward 1, .recv 1]

/-- A turn in two steps, the first of which calls a tool. -/
def twoSteps : List ExchangeEvent :=
  [.call true 1000, .check 0 (.ok ()), .lock 0, .emit 0 (.turnEnd 1 [userText "a"]),
    .emit 0 (.turnEnd 2 [userText "a", userText "b"]), .finish 0 (.ok ()), .process, .process,
    .forward 0, .forward 0, .recv 0]

/-- A reply in as many pieces as the broadcast keeps, and the forwarder has no
chance to run before the turn is over. -/
def longReply : List ExchangeEvent :=
  [.call true 1000, .check 0 (.ok ()), .lock 0] ++
    (List.replicate 256 [.emit 0 (.messageUpdate 0 "a"), .process, .process]).flatten ++
    [.emit 0 (.turnEnd 1 [userText "a"]), .process, .process, .finish 0 (.ok ()), .forward 0,
      .recv 0]

/-- The time is up before the end of the turn has got to the sender. -/
def noTime : List ExchangeEvent :=
  [.call true 0, .check 0 (.ok ()), .lock 0, .emit 0 (.turnEnd 1 [userText "a"]),
    .finish 0 (.ok ()), .expire 0]

end Exchange

/-- A sender that waits is given a timeout though its turn has ended in time, or
the messages of something else than the end of its turn. -/
def Sender.misled (maxSyncWaitMs : Nat) (c : Sender) : Bool :=
  match c.phase with
  | .returned (.timeout _) =>
      c.waits && c.endedAt.any fun t =>
        decide (t ≤ c.startedAt + min c.timeoutMs maxSyncWaitMs * 1000000)
  | .returned (.completed _ messages) =>
      c.waits &&
        decide ((c.emitted.filterMap AgentEvent.turnMessages).getLast? ≠ some messages)
  | _ => false

theorem Sender.not_answered_of_misled {maxSyncWaitMs : Nat} {c : Sender}
    (h : c.misled maxSyncWaitMs = true) : c.waits = true ∧ ¬ c.Answered maxSyncWaitMs := by
  rw [misled] at h
  split at h
  next turnIndex hphase =>
    rw [Bool.and_eq_true, Option.any_eq_true] at h
    obtain ⟨hwaits, t, ht, hle⟩ := h
    exact ⟨hwaits, fun hanswered =>
      (hanswered _ hphase).2.2 turnIndex rfl ⟨t, ht, of_decide_eq_true hle⟩⟩
  next turnIndex messages hphase =>
    rw [Bool.and_eq_true, decide_eq_true_iff] at h
    exact ⟨h.1, fun hanswered => h.2 ((hanswered _ hphase).2.1 turnIndex messages rfl)⟩
  next => cases h

namespace Exchange

/-- After this run some sender has the wrong answer. -/
def Misleads (es : List ExchangeEvent) : Prop :=
  ∃ c ∈ (es.foldl act (start 60000)).senders, c.waits = true ∧ ¬ c.Answered 60000

theorem misleads_of_any {es : List ExchangeEvent}
    (h : (es.foldl act (start 60000)).senders.any (Sender.misled 60000) = true) :
    Misleads es := by
  obtain ⟨c, hc, hmisled⟩ := List.any_eq_true.mp h
  exact ⟨c, hc, Sender.not_answered_of_misled hmisled⟩

theorem not_answered :
    Misleads otherTurn ∧ Misleads twoSteps ∧ Misleads longReply ∧ Misleads noTime :=
  ⟨misleads_of_any (by decide), misleads_of_any (by decide),
    misleads_of_any (by decide +kernel), misleads_of_any (by decide)⟩

end Exchange

end Pandaria.Tenant
