import Mathlib.Data.List.Basic
import Mathlib.Logic.Function.Iterate
import Pandaria.Lib.Run
import Pandaria.Lib.Threads

/-!
# Listening to a broadcast

A broadcast keeps the last `capacity` messages for each of its receivers. A
receiver that falls further behind has lost a message, and is told so the next
time it asks. A forwarder hands on what it receives to a bounded queue, one
message after the other, and gives up when it is told of a loss; the reader of
the queue sees that it has ended once the queue is empty.

What the reader is going to see is then what stands between it and the
broadcast, in order, unless there is a loss. Of interest is the first of these
messages that meets a condition. It does not change while messages move on,
and once the forwarder has it a loss does no harm.
-/

namespace Pandaria.Lib

variable {α : Type _}

/-- Where a forwarder stands. -/
inductive Forwarder (α : Type _) where
  | receiving
  | sending (a : α)
  | ended
deriving DecidableEq

/-- A subscription: what the receiver has not asked for yet, the forwarder, and
the queue of the reader. -/
structure Feed (α : Type _) where
  unread : List α
  lagged : Bool
  forwarder : Forwarder α
  queue : List α
deriving DecidableEq

namespace Feed

def subscribe : Feed α := ⟨[], false, .receiving, []⟩

/-- Nobody listens. -/
def silent : Feed α := ⟨[], false, .ended, []⟩

/-- A message is broadcast. -/
def publish (capacity : Nat) (a : α) (f : Feed α) : Feed α :=
  match f.forwarder with
  | .ended => f
  | _ =>
      if f.unread.length < capacity then { f with unread := f.unread ++ [a] }
      else { f with unread := f.unread.tail ++ [a], lagged := true }

/-- One step of the forwarder, whose queue has room for `bound` messages. -/
def forward (bound : Nat) (f : Feed α) : Feed α :=
  match f.forwarder with
  | .ended => f
  | .sending a =>
      if f.queue.length < bound then
        { f with forwarder := .receiving, queue := f.queue ++ [a] }
      else f
  | .receiving =>
      if f.lagged then { f with forwarder := .ended }
      else match f.unread with
        | a :: rest => { f with unread := rest, forwarder := .sending a }
        | [] => f

/-! ## What is on its way -/

/-- What the forwarder has already got. -/
def secured (f : Feed α) : List α :=
  f.queue ++ match f.forwarder with
    | .sending a => [a]
    | .receiving | .ended => []

/-- Nothing has been lost. -/
def Live (f : Feed α) : Prop := f.lagged = false ∧ f.forwarder ≠ .ended

/-- The first message meeting `p` that the reader will see is `x`, with `rest`
still to be broadcast. -/
def Tracks (p : α → Bool) (x : Option α) (rest : List α) (f : Feed α) : Prop :=
  f.Live ∧ (f.secured ++ f.unread ++ rest).find? p = x ∨
    x.isSome = true ∧ f.secured.find? p = x

variable {p : α → Bool} {x : Option α} {rest : List α} {f : Feed α}

theorem tracks_subscribe (h : rest.find? p = none) :
    (subscribe : Feed α).Tracks p none rest :=
  .inl ⟨⟨rfl, nofun⟩, h⟩

/-- What comes after the first one does not matter. -/
theorem find?_append_of_some {l l' : List α} (hx : x.isSome = true) (h : l.find? p = x) :
    (l ++ l').find? p = x := by
  obtain ⟨a, rfl⟩ := Option.isSome_iff_exists.mp hx
  rw [List.find?_append, h]
  rfl

/-- One more message is going to be broadcast. -/
theorem Tracks.push (h : f.Tracks p x rest) (a : α) :
    f.Tracks p (x.or (if p a then some a else none)) (rest ++ [a]) := by
  have hone : [a].find? p = if p a then some a else none := by
    rw [List.find?_singleton]
  rcases h with ⟨hlive, hfind⟩ | ⟨hx, hfind⟩
  · refine .inl ⟨hlive, ?_⟩
    rw [← List.append_assoc, List.find?_append, hfind, hone]
  · obtain ⟨b, rfl⟩ := Option.isSome_iff_exists.mp hx
    exact .inr ⟨rfl, hfind⟩

/-- The next message is broadcast. -/
theorem Tracks.publish {capacity : Nat} {a : α} (h : f.Tracks p x (a :: rest))
    (hroom : f.unread.length < capacity ∨ (f.secured.find? p).isSome = true) :
    (f.publish capacity a).Tracks p x rest := by
  have hsecured : (f.publish capacity a).secured = f.secured := by
    rw [Feed.publish]
    split
    · rfl
    · split <;> rfl
  rcases h with ⟨⟨hlagged, hends⟩, hfind⟩ | ⟨hx, hfind⟩
  · rcases hroom with hlt | hsome
    · have hpublish : f.publish capacity a = { f with unread := f.unread ++ [a] } := by
        rw [Feed.publish]
        split
        next hended => exact absurd hended hends
        next => exact if_pos hlt
      rw [hpublish]
      refine .inl ⟨⟨hlagged, hends⟩, ?_⟩
      show (f.secured ++ (f.unread ++ [a]) ++ rest).find? p = x
      rw [← List.append_assoc, List.append_assoc]
      exact hfind
    · -- What is lost comes after the message in question.
      have hsame : f.secured.find? p = x := by
        rw [← hfind, List.append_assoc, find?_append_of_some hsome rfl]
      rw [← hsecured] at hsame hsome
      exact .inr ⟨by rwa [hsame] at hsome, hsame⟩
  · rw [← hsecured] at hfind
    exact .inr ⟨hx, hfind⟩

/-- The forwarder takes a step. -/
theorem Tracks.forward (h : f.Tracks p x rest) (bound : Nat) :
    (f.forward bound).Tracks p x rest := by
  rw [Feed.forward]
  split
  · exact h
  next a hsending =>
    split
    · -- From the forwarder to the queue.
      have hsecured : secured { f with forwarder := .receiving, queue := f.queue ++ [a] } =
          f.secured := by
        rw [secured, secured, hsending, List.append_nil]
      rcases h with ⟨⟨hlagged, _⟩, hfind⟩ | ⟨hx, hfind⟩
      · refine .inl ⟨⟨hlagged, nofun⟩, ?_⟩
        rw [hsecured]
        exact hfind
      · exact .inr ⟨hx, by rw [hsecured]; exact hfind⟩
    · exact h
  next hreceiving =>
    have hqueue : f.secured = f.queue := by rw [secured, hreceiving, List.append_nil]
    split
    next hlagged =>
      -- The loss is noticed, and the message in question is in the queue.
      rcases h with ⟨⟨hnot, _⟩, _⟩ | ⟨hx, hfind⟩
      · rw [hlagged] at hnot
        cases hnot
      · refine .inr ⟨hx, ?_⟩
        rw [secured, List.append_nil, ← hqueue]
        exact hfind
    next hlagged =>
      split
      next a unread hunread =>
        have hsecured : secured { f with unread := unread, forwarder := .sending a } =
            f.secured ++ [a] := by
          rw [hqueue]
          rfl
        rcases h with ⟨_, hfind⟩ | ⟨hx, hfind⟩
        · refine .inl ⟨⟨Bool.eq_false_iff.mpr hlagged, nofun⟩, ?_⟩
          rw [hsecured, List.append_assoc f.secured]
          rw [hunread] at hfind
          exact hfind
        · refine .inr ⟨hx, ?_⟩
          rw [hsecured]
          exact find?_append_of_some hx hfind
      next => exact h

theorem Tracks.find (h : f.Tracks p x rest) (hx : x.isSome = true) :
    (f.secured ++ f.unread ++ rest).find? p = x := by
  rcases h with ⟨_, hfind⟩ | ⟨_, hfind⟩
  · exact hfind
  · rw [List.append_assoc]
    exact find?_append_of_some hx hfind

/-- The reader takes a message that it does not look for. -/
theorem Tracks.skip {a : α} {queue : List α} (h : f.Tracks p x rest)
    (hqueue : f.queue = a :: queue) (ha : p a = false) :
    Tracks p x rest { f with queue := queue } := by
  have hsecured : f.secured = a :: secured { f with queue := queue } := by
    rw [secured, hqueue]
    rfl
  rw [Tracks, hsecured] at h
  rcases h with ⟨hlive, hfind⟩ | ⟨hx, hfind⟩
  · rw [List.cons_append, List.cons_append, List.find?_cons_of_neg (by rw [ha]; decide)] at hfind
    exact .inl ⟨hlive, hfind⟩
  · rw [List.find?_cons_of_neg (by rw [ha]; decide)] at hfind
    exact .inr ⟨hx, hfind⟩

/-- The one it takes is the one it looks for. -/
theorem Tracks.found {a : α} {queue : List α} (h : f.Tracks p x rest)
    (hqueue : f.queue = a :: queue) (ha : p a = true) : x = some a := by
  have hsecured : f.secured.find? p = some a := by
    rw [secured, hqueue, List.cons_append, List.find?_cons_of_pos ha]
  rcases h with ⟨_, hfind⟩ | ⟨_, hfind⟩
  · rw [← hfind, List.append_assoc]
    exact find?_append_of_some rfl hsecured
  · rw [← hfind, hsecured]

/-- The queue does not run dry before that. -/
theorem Tracks.not_ended (h : f.Tracks p x rest) (hended : f.forwarder = .ended) :
    f.queue ≠ [] := by
  intro hqueue
  rcases h with ⟨⟨_, hlive⟩, _⟩ | ⟨hx, hfind⟩
  · exact hlive hended
  · rw [secured, hqueue, hended] at hfind
    rw [← hfind] at hx
    cases hx

end Feed

end Pandaria.Lib

/-!
## Handing a message to all who listen

Messages wait in a bounded queue, and a courier takes one after the other and
hands it to all who listen by then, in turn. A listener has then heard what was
sent since it came, up to some point, in order and each message once; and once
the queue is closed and the courier done, it has heard all of it.
-/

namespace Pandaria.Lib

variable {α : Type _}

structure Listener (α : Type _) where
  /-- How many messages had been taken up when it came. -/
  since : Nat
  heard : List α

/-- Where the courier stands. -/
inductive Courier (α : Type _) where
  | waiting
  | picked (a : α)
  /-- The first `next` of `total` listeners have got it. -/
  | handing (a : α) (next total : Nat)
  | done

structure Fanout (α : Type _) where
  queue : List α
  courier : Courier α
  listeners : List (Listener α)
  /-- What was sent and not refused. -/
  sent : List α
  /-- What the courier has taken up, with those who listened. -/
  handed : List α

namespace Fanout

def new : Fanout α := ⟨[], .waiting, [], [], []⟩

def isDone (f : Fanout α) : Bool :=
  match f.courier with
  | .done => true
  | _ => false

/-- A message is sent without waiting for room. -/
def send (capacity : Nat) (a : α) (f : Fanout α) : Fanout α :=
  if f.queue.length < capacity ∧ f.isDone = false then
    { f with queue := f.queue ++ [a], sent := f.sent ++ [a] }
  else f

def listen (f : Fanout α) : Fanout α :=
  { f with listeners := f.listeners ++ [⟨f.handed.length, []⟩] }

def hear (a : α) (l : Listener α) : Listener α := { l with heard := l.heard ++ [a] }

/-- The next step of the courier. -/
def work (closed : Bool) (f : Fanout α) : Fanout α :=
  match f.courier with
  | .waiting =>
      match f.queue with
      | a :: rest => { f with queue := rest, courier := .picked a }
      | [] => if closed then { f with courier := .done } else f
  | .picked a =>
      { f with courier := .handing a 0 f.listeners.length, handed := f.handed ++ [a] }
  | .handing a next total =>
      if next < total then
        { f with
          courier := .handing a (next + 1) total
          listeners := f.listeners.modify next (hear a) }
      else { f with courier := .waiting }
  | .done => f

/-! ### What a listener has heard -/

/-- What is between the queue and the listeners. -/
def onTheWay : Courier α → List α
  | .picked a => [a]
  | .waiting | .handing .. | .done => []

/-- What listener `k` is about to hear. -/
def owed (k : Nat) : Courier α → List α
  | .handing a next total => if next ≤ k ∧ k < total then [a] else []
  | .waiting | .picked _ | .done => []

structure Inv (capacity : Nat) (f : Fanout α) : Prop where
  sent : f.sent = f.handed ++ onTheWay f.courier ++ f.queue
  bounded : f.queue.length ≤ capacity
  total : ∀ a next total, f.courier = .handing a next total → total ≤ f.listeners.length
  done : f.courier = .done → f.queue = []
  listeners : ∀ k l, f.listeners[k]? = some l → l.since ≤ f.handed.length ∧
    l.heard ++ owed k f.courier = f.handed.drop l.since

variable {capacity : Nat} {f : Fanout α}

theorem Inv.new : Inv capacity (Fanout.new : Fanout α) where
  sent := rfl
  bounded := Nat.zero_le _
  total := by
    intro a next total h
    cases h
  done := fun _ => rfl
  listeners := by
    intro k l h
    simp [Fanout.new] at h

theorem Inv.send (h : f.Inv capacity) (a : α) : (f.send capacity a).Inv capacity := by
  rw [Fanout.send]
  split
  · next hroom =>
      refine ⟨?_, ?_, h.total, ?_, h.listeners⟩
      · show f.sent ++ [a] = _
        rw [h.sent, List.append_assoc]
      · show (f.queue ++ [a]).length ≤ capacity
        rw [List.length_append, List.length_singleton]
        omega
      · intro hdone
        have hdone : f.courier = .done := hdone
        have hnot := hroom.2
        rw [isDone, hdone] at hnot
        cases hnot
  · exact h

theorem Inv.listen (h : f.Inv capacity) : f.listen.Inv capacity := by
  refine ⟨h.sent, h.bounded, ?_, h.done, ?_⟩
  · intro a next total hc
    have hle := h.total a next total hc
    show total ≤ (f.listeners ++ [_]).length
    rw [List.length_append]
    omega
  · intro k l hk
    rcases getElem?_push hk with hold | ⟨rfl, rfl⟩
    · exact h.listeners k l hold
    · -- who comes now is not among those the courier serves
      have howed : owed f.listeners.length f.courier = [] := by
        cases hc : f.courier with
        | handing a next total =>
            have hle := h.total a next total hc
            rw [owed, if_neg (by omega)]
        | _ => rfl
      refine ⟨Nat.le_refl _, ?_⟩
      show [] ++ owed f.listeners.length f.courier = f.handed.drop f.handed.length
      rw [howed, List.drop_length]
      rfl

theorem Inv.work (h : f.Inv capacity) (closed : Bool) : (f.work closed).Inv capacity := by
  rw [Fanout.work]
  split
  · next hc =>
      have hlisteners := h.listeners
      rw [hc] at hlisteners
      have hsent := h.sent
      rw [hc] at hsent
      split
      · next a rest hq =>
          refine ⟨?_, ?_, by simp, by simp, hlisteners⟩
          · show f.sent = f.handed ++ [a] ++ rest
            rw [hsent, hq]
            simp [onTheWay]
          · have hbounded := h.bounded
            rw [hq, List.length_cons] at hbounded
            show rest.length ≤ capacity
            omega
      · next hq =>
          split
          · exact ⟨hsent, h.bounded, by simp, fun _ => hq, hlisteners⟩
          · exact h
  · next a hc =>
      have hsent := h.sent
      rw [hc] at hsent
      refine ⟨?_, h.bounded, ?_, by simp, ?_⟩
      · show f.sent = f.handed ++ [a] ++ [] ++ f.queue
        rw [hsent, List.append_nil]
        rfl
      · rintro a' next total ⟨⟩
        exact Nat.le_refl _
      · intro k l hk
        obtain ⟨hle, hheard⟩ := h.listeners k l hk
        rw [hc] at hheard
        have hlt : k < f.listeners.length := (List.getElem?_eq_some_iff.mp hk).1
        refine ⟨?_, ?_⟩
        · show l.since ≤ (f.handed ++ [a]).length
          rw [List.length_append]
          omega
        · show l.heard ++ owed k (.handing a 0 f.listeners.length) = (f.handed ++ [a]).drop l.since
          rw [List.drop_append_of_le_length hle, ← hheard, owed, if_pos ⟨Nat.zero_le _, hlt⟩]
          simp [owed]
  · next a next total hc =>
      have hlisteners := h.listeners
      rw [hc] at hlisteners
      have hsent := h.sent
      rw [hc] at hsent
      split
      · next hlt =>
          refine ⟨hsent, h.bounded, ?_, by simp, ?_⟩
          · rintro a' next' total' ⟨⟩
            show total ≤ (f.listeners.modify next (hear a)).length
            rw [List.length_modify]
            exact h.total a next total hc
          · intro k l hk
            have hk : (f.listeners.modify next (hear a))[k]? = some l := hk
            rw [List.getElem?_modify] at hk
            obtain ⟨l', hl', rfl⟩ := Option.map_eq_some_iff.mp hk
            obtain ⟨hle, hheard⟩ := hlisteners k l' hl'
            by_cases hkn : next = k
            · -- its turn
              subst hkn
              rw [owed, if_pos ⟨Nat.le_refl _, hlt⟩] at hheard
              rw [if_pos rfl]
              refine ⟨hle, ?_⟩
              show l'.heard ++ [a] ++ owed next (.handing a (next + 1) total) = _
              rw [hheard, owed, if_neg (by omega), List.append_nil]
              rfl
            · rw [if_neg hkn]
              refine ⟨hle, ?_⟩
              show l'.heard ++ owed k (.handing a (next + 1) total) = f.handed.drop l'.since
              rw [← hheard, owed, owed]
              congr 1
              exact if_congr (by omega) rfl rfl
      · next hge =>
          refine ⟨hsent, h.bounded, by simp, by simp, ?_⟩
          intro k l hk
          obtain ⟨hle, hheard⟩ := hlisteners k l hk
          rw [owed, if_neg (by omega)] at hheard
          exact ⟨hle, hheard⟩
  · exact h

/-- In order and each once; and no more than a queue and a message behind. -/
theorem Inv.heard (h : f.Inv capacity) {l : Listener α} (hl : l ∈ f.listeners) :
    l.heard <+: f.sent.drop l.since ∧
      f.sent.length ≤ l.since + l.heard.length + capacity + 1 := by
  obtain ⟨k, hk⟩ := List.getElem?_of_mem hl
  obtain ⟨hle, hheard⟩ := h.listeners k l hk
  have hsent := h.sent
  rw [List.append_assoc] at hsent
  have hlength := congrArg List.length hheard
  rw [List.length_append, List.length_drop] at hlength
  have hqueue := h.bounded
  refine ⟨?_, ?_⟩
  · rw [hsent, List.drop_append_of_le_length hle, ← hheard, List.append_assoc]
    exact List.prefix_append ..
  · rw [hsent, List.length_append, List.length_append]
    -- a message is picked, or owed, but not both
    have hone : (owed k f.courier).length + (onTheWay f.courier).length ≤ 1 := by
      cases f.courier with
      | handing a next total =>
          rw [owed, onTheWay]
          split <;> simp
      | _ => simp [owed, onTheWay]
    omega

theorem Inv.heard_of_done (h : f.Inv capacity) (hdone : f.courier = .done) {l : Listener α}
    (hl : l ∈ f.listeners) : l.heard = f.sent.drop l.since := by
  obtain ⟨k, hk⟩ := List.getElem?_of_mem hl
  obtain ⟨-, hheard⟩ := h.listeners k l hk
  have hsent := h.sent
  rw [h.done hdone, hdone] at hsent
  rw [hdone] at hheard
  rw [hsent]
  simpa [owed, onTheWay] using hheard

/-! ### Once the queue is closed -/

/-- How far the courier is from being done. -/
def distance (f : Fanout α) : Nat :=
  f.queue.length * (f.listeners.length + 4) +
    match f.courier with
    | .waiting => 1
    | .picked _ => f.listeners.length + 4
    | .handing _ next total => total - next + 2
    | .done => 0

theorem distance_work (hdone : f.courier ≠ .done) : (f.work true).distance < f.distance := by
  rw [work]
  split
  · next hc =>
      split
      · next a rest hq =>
          simp only [distance, hc, hq, List.length_cons, Nat.add_mul]
          omega
      · next hq => simp [distance, hc]
  · next a hc =>
      simp only [distance, hc]
      omega
  · next a next total hc =>
      split
      · next hlt =>
          simp only [distance, hc, List.length_modify]
          omega
      · simp only [distance, hc]
        omega
  · next hc => exact absurd hc hdone

theorem sent_work (f : Fanout α) (closed : Bool) : (f.work closed).sent = f.sent := by
  rw [work]
  split
  · split
    · rfl
    · split <;> rfl
  · rfl
  · split <;> rfl
  · rfl

theorem since_work (f : Fanout α) (closed : Bool) :
    (f.work closed).listeners.map (·.since) = f.listeners.map (·.since) := by
  rw [work]
  split
  · split
    · rfl
    · split <;> rfl
  · rfl
  · next a next total hc =>
      split
      · refine List.ext_getElem? fun k => ?_
        rw [List.getElem?_map, List.getElem?_map, List.getElem?_modify]
        cases f.listeners[k]? with
        | none => rfl
        | some l =>
            show some (if next = k then hear a l else l).since = some l.since
            split <;> rfl
      · rfl
  · rfl

/-- The courier gets done. -/
theorem exists_done (f : Fanout α) : ∃ n, ((work true)^[n] f).courier = .done := by
  by_cases hdone : f.courier = .done
  · exact ⟨0, hdone⟩
  · obtain ⟨n, hn⟩ := exists_done (f.work true)
    exact ⟨n + 1, hn⟩
termination_by f.distance
decreasing_by exact distance_work hdone

/-- What the courier leaves as it is. -/
def Same (capacity : Nat) (f g : Fanout α) : Prop :=
  g.Inv capacity ∧ g.sent = f.sent ∧
    g.listeners.map (·.since) = f.listeners.map (·.since)

theorem Same.work {g : Fanout α} (h : Same capacity f g) (closed : Bool) :
    Same capacity f (g.work closed) :=
  ⟨h.1.work closed, (g.sent_work closed).trans h.2.1, (g.since_work closed).trans h.2.2⟩

/-- And then everyone has heard what was sent since they came. -/
theorem Inv.drain (h : f.Inv capacity) :
    ∃ n, ((Fanout.work true)^[n] f).courier = .done ∧
      ((Fanout.work true)^[n] f).listeners.map (·.since) = f.listeners.map (·.since) ∧
      ∀ l ∈ ((Fanout.work true)^[n] f).listeners, l.heard = f.sent.drop l.since := by
  obtain ⟨n, hn⟩ := f.exists_done
  have hstep : ∀ g, Same capacity f g → Same capacity f (g.work true) :=
    fun g hg => hg.work true
  obtain ⟨hinv, hsent, hsince⟩ := iterate_invariant hstep ⟨h, rfl, rfl⟩ n
  refine ⟨n, hn, hsince, fun l hl => ?_⟩
  rw [hinv.heard_of_done hn hl, hsent]

end Fanout

end Pandaria.Lib
