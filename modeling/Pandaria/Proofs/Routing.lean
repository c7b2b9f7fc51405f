import Pandaria.Lib.Run
import Pandaria.Lib.Threads
import Pandaria.Mcp.Sse

/-!
# Responses find their way

A request is under way from the moment it is POSTed until its task has put a
response into the channel of the session; from then on there is one message for
it, in that channel or with the client. The invariant counts the two together:
for a request of an open stream they are one. What keeps the count is that the
session is still in the map when the task looks, and the collector looks at the
last activity only, which a POST is not. That a request gets as far as that is a
matter of the transport's one slot: who is under way without a response is in
the queue or being handled, unless the handler's response was suppressed.
-/

namespace Pandaria.Mcp

open Pandaria.Lib
open Pandaria.Ai (Json)

variable {serde : Decoders}

/-! ## Slots and streams -/

namespace ResponseSlot

variable {slot : ResponseSlot}

theorem underWay_drop : slot.drop.underWay = slot.underWay := by cases slot <;> rfl

theorem underWay_send {resp : JsonRpcResponse} : (slot.send resp).underWay = slot.underWay := by
  cases slot <;> rfl

theorem ne_waiting_drop : slot.drop ≠ waiting := by cases slot <;> simp [drop]

theorem ne_waiting_send {resp : JsonRpcResponse} : slot.send resp ≠ waiting := by
  cases slot <;> simp [send]

theorem ne_dropped_of_drop (h : slot.drop ≠ dropped) : slot ≠ dropped := by
  rintro rfl
  exact h rfl

theorem ne_dropped_of_send {resp : JsonRpcResponse} (h : slot.send resp ≠ dropped) :
    slot ≠ dropped := by
  rintro rfl
  exact h rfl

theorem drop_eq_filled {resp : JsonRpcResponse} (h : slot.drop = filled resp) :
    slot = filled resp := by
  cases slot with
  | waiting => cases h
  | dropped | filled _ | closed | forwarded => exact h

theorem send_eq_filled {resp resp' : JsonRpcResponse} (h : slot.send resp = filled resp') :
    slot = filled resp' ∨ resp' = resp := by
  cases slot with
  | waiting =>
      injection h with h
      exact .inr h.symm
  | dropped | filled _ | closed | forwarded => exact .inl h

end ResponseSlot

namespace SseStream

variable {stream : SseStream} {msg : Message}

def messages (stream : SseStream) : List Message := stream.channel ++ stream.received

theorem copies_eq (stream : SseStream) (n : Nat) :
    stream.copies n = stream.messages.countP fun msg => msg.request = n := rfl

theorem copies_push (hc : stream.connected = true) (n : Nat) :
    (stream.push msg).copies n = stream.copies n + if msg.request = n then 1 else 0 := by
  rw [push, if_pos hc, copies, copies, List.append_assoc, List.countP_append, List.countP_append,
    List.countP_append, List.countP_singleton]
  simp only [decide_eq_true_eq]
  omega

theorem mem_messages_push {m : Message} (h : m ∈ (stream.push msg).messages) :
    m ∈ stream.messages ∨ m = msg := by
  rw [push] at h
  split at h
  · simp only [messages, List.mem_append, List.mem_singleton] at h ⊢
    tauto
  · exact .inl h

theorem connected_push : (stream.push msg).connected = stream.connected := by
  rw [push]
  split <;> rfl

theorem phase_push : (stream.push msg).phase = stream.phase := by
  rw [push]
  split <;> rfl

end SseStream

/-! ## The invariant -/

/-- What is kept for request number `n`. -/
structure Tracked (s : SseServer) (n : Nat) (r : Posted) : Prop where
  /-- Only notifications have a dropped slot. -/
  named : r.slot ≠ .dropped → r.request.id.isSome = true
  answers : ∀ resp, r.slot = .filled resp → resp.id = r.request.id
  known : r.live = true → r.session < s.opened
  /-- The handler will have a response for it. -/
  answerable : r.live = true → r.request.id.isSome = true →
    r.request.method ≠ "notifications/initialized"
  kept : r.live = true → (s.stream r.session).connected = true → r.slot.underWay = true →
    s.registered r.session = true
  turn : r.live = true → r.slot = .waiting → n ∈ s.queue ∨ s.busy = some n
  once : r.live = true → r.request.id.isSome = true → (s.stream r.session).connected = true →
    (if r.slot.underWay then 1 else 0) + (s.stream r.session).copies n = 1

/-- The messages of a stream answer requests of its session. -/
def Owned (s : SseServer) (session : Nat) (msg : Message) : Prop :=
  ∃ r, s.requests[msg.request]? = some r ∧ r.session = session ∧
    r.request.id = msg.response.id ∧ r.request.id.isSome = true

structure Routing (s : SseServer) : Prop where
  bounded : s.sessionCount ≤ s.maxConnections
  fresh : ∀ session, s.registered session = true → session < s.opened
  absent : ∀ session, s.opened ≤ session → s.stream session = .absent
  ended : ∀ session, (s.stream session).phase = .ended →
    (s.stream session).channel = [] ∧ s.registered session = false
  queued : ∀ n ∈ s.queue, n < s.requests.length
  working : ∀ n, s.busy = some n → n < s.requests.length ∧ s.current = some n
  owned : ∀ session, ∀ msg ∈ (s.stream session).messages, Owned s session msg
  tracked : ∀ n r, s.requests[n]? = some r → Tracked s n r

variable {s t : SseServer} {n : Nat} {r : Posted}

/-- A request is as it was when its stream is, its session is still there, and
its turn is still to come. -/
theorem Tracked.of_frame (h : Tracked s n r) (hopened : s.opened ≤ t.opened)
    (hstream : (t.stream r.session).connected = true →
      (s.stream r.session).connected = true ∧
        (t.stream r.session).copies n = (s.stream r.session).copies n)
    (hkept : r.live = true → (t.stream r.session).connected = true → r.slot.underWay = true →
      s.registered r.session = true → t.registered r.session = true)
    (hturn : r.slot = .waiting → n ∈ s.queue ∨ s.busy = some n → n ∈ t.queue ∨ t.busy = some n) :
    Tracked t n r where
  named := h.named
  answers := h.answers
  known hl := Nat.lt_of_lt_of_le (h.known hl) hopened
  answerable := h.answerable
  kept hl hc hu := hkept hl hc hu (h.kept hl (hstream hc).1 hu)
  turn hl hw := hturn hw (h.turn hl hw)
  once hl hid hc := by
    rw [(hstream hc).2]
    exact h.once hl hid (hstream hc).1

/-- Nothing is owed to a request that found no open stream. -/
theorem Tracked.of_not_live (h : Tracked s n r) (hl : ¬ r.live = true) : Tracked t n r where
  named := h.named
  answers := h.answers
  known hl' := absurd hl' hl
  answerable hl' := absurd hl' hl
  kept hl' := absurd hl' hl
  turn hl' := absurd hl' hl
  once hl' := absurd hl' hl

/-- Its slot changes and it stays under way. -/
theorem Tracked.of_slot (h : Tracked s n r) {slot : ResponseSlot}
    (hnamed : slot ≠ .dropped → r.slot ≠ .dropped)
    (hanswers : ∀ resp, slot = .filled resp → r.slot = .filled resp ∨ resp.id = r.request.id)
    (hunder : slot.underWay = r.slot.underWay) (hwaiting : slot ≠ .waiting) :
    Tracked s n { r with slot := slot } where
  named hs := h.named (hnamed hs)
  answers resp hs := (hanswers resp hs).elim (h.answers resp) id
  known := h.known
  answerable := h.answerable
  kept hl hc hu := h.kept hl hc (hunder ▸ hu)
  turn _ hw := absurd hw hwaiting
  once hl hid hc := by
    rw [hunder]
    exact h.once hl hid hc

namespace SseServer

/-- The collector is going to remove the session. -/
def runsOut (s : SseServer) (session : Nat) : Bool := (s.sessions.get? session).any s.expired

/-- What the events of a run have to keep to: the place a connection has been
promised is still free, a request with an id is one the handler answers, and
no session that has run out has a request under way on an open stream. -/
def Serving (s : SseServer) : SseEvent → Prop
  | .register => s.admitted ≠ 0 → s.sessionCount < s.maxConnections
  | .post session req => s.isOpen session = true → req.id.isSome = true →
      req.method ≠ "notifications/initialized"
  | .collect => ∀ r ∈ s.requests, r.live = true → (s.stream r.session).connected = true →
      r.slot.underWay = true → s.runsOut r.session = false
  | _ => True

instance (s : SseServer) : (e : SseEvent) → Decidable (s.Serving e)
  | .register => inferInstanceAs (Decidable (s.admitted ≠ 0 → s.sessionCount < s.maxConnections))
  | .post session req => inferInstanceAs (Decidable (s.isOpen session = true →
      req.id.isSome = true → req.method ≠ "notifications/initialized"))
  | .collect => inferInstanceAs (Decidable (∀ r ∈ s.requests, r.live = true →
      (s.stream r.session).connected = true → r.slot.underWay = true →
        s.runsOut r.session = false))
  | .connect | .recv | .answer _ | .respond _ | .poll _ | .disconnect _ | .wait _ => .isTrue trivial

theorem routing_start (handler : RequestHandler) (maxConnections sessionTtl : Nat) :
    Routing (start handler maxConnections sessionTtl) where
  bounded := Nat.zero_le _
  fresh _ h := by cases h
  absent _ _ := rfl
  ended _ h := by cases h
  queued _ h := by cases h
  working _ h := by cases h
  owned _ _ h := by cases h
  tracked _ _ h := by cases h

/-! ### A note of activity -/

theorem touch_eq (session : Nat) :
    s.touch session = { s with sessions := (s.touch session).sessions } := by
  rw [touch]
  split <;> rfl

theorem touch_setStream (session k : Nat) (stream : SseStream) :
    (s.touch session).setStream k stream = (s.setStream k stream).touch session := by
  rw [touch, touch]
  show (if s.registered session then _ else _ : SseServer).setStream k stream =
    if s.registered session then _ else _
  split <;> rfl

theorem registered_touch (session k : Nat) :
    (s.touch session).registered k = s.registered k := by
  rw [touch]
  split
  · next hr =>
      rw [registered, Table.get?_upsert]
      split
      · next hk =>
          rw [hk, hr]
          rfl
      · rfl
  · rfl

theorem sessionCount_touch (session : Nat) :
    (s.touch session).sessionCount = s.sessionCount := by
  rw [touch]
  split
  · next hr =>
      rw [registered] at hr
      show (s.sessions.upsert session _).rows.length = s.sessions.rows.length
      rw [Table.length_upsert, hr]
      rfl
  · rfl

theorem routing_touch (h : Routing s) (session : Nat) : Routing (s.touch session) := by
  have hcount := sessionCount_touch (s := s) session
  have hregistered := registered_touch (s := s) session
  rw [touch_eq] at hcount hregistered ⊢
  exact
    { bounded := by rw [hcount]; exact h.bounded
      fresh := fun k hk => h.fresh k ((hregistered k).symm.trans hk)
      absent := h.absent
      ended := fun k hk => ⟨(h.ended k hk).1, (hregistered k).trans (h.ended k hk).2⟩
      queued := h.queued
      working := h.working
      owned := h.owned
      tracked := fun n r hr => (h.tracked n r hr).of_frame (Nat.le_refl _)
        (fun hc => ⟨hc, rfl⟩) (fun _ _ _ hk => (hregistered _).trans hk) (fun _ ht => ht) }

/-! ### Streams -/

/-- A stream moves on, and nothing is lost of it but by its client. -/
theorem routing_setStream (h : Routing s) {session : Nat} {stream : SseStream}
    (hconnected : stream.connected = true → (s.stream session).connected = true ∧
      ∀ n, stream.copies n = (s.stream session).copies n)
    (hmessages : ∀ msg ∈ stream.messages, msg ∈ (s.stream session).messages)
    (habsent : s.opened ≤ session → stream = .absent)
    (hended : stream.phase = .ended → stream.channel = [] ∧ s.registered session = false) :
    Routing (s.setStream session stream) := by
  have hother : ∀ k, (s.setStream session stream).stream k =
      if k = session then stream else s.stream k := fun k => rfl
  refine
    { bounded := h.bounded
      fresh := h.fresh
      absent := fun k hk => ?_
      ended := fun k hk => ?_
      queued := h.queued
      working := h.working
      owned := fun k msg hm => ?_
      tracked := fun n r hr => (h.tracked n r hr).of_frame (Nat.le_refl _) (fun hc => ?_)
        (fun _ _ _ hk => hk) (fun _ ht => ht) }
  · rw [hother]
    split
    · next he => exact habsent (he ▸ hk)
    · exact h.absent k hk
  · rw [hother] at hk ⊢
    by_cases he : k = session
    · rw [if_pos he] at hk ⊢
      exact he ▸ hended hk
    · rw [if_neg he] at hk ⊢
      exact h.ended k hk
  · rw [hother] at hm
    split at hm
    · next he => exact h.owned k msg (he ▸ hmessages msg hm)
    · exact h.owned k msg hm
  · rw [hother] at hc ⊢
    by_cases he : r.session = session
    · rw [if_pos he] at hc ⊢
      rw [he]
      exact ⟨(hconnected hc).1, (hconnected hc).2 n⟩
    · rw [if_neg he] at hc ⊢
      exact ⟨hc, rfl⟩

theorem routing_disconnect (h : Routing s) (session : Nat) :
    Routing (s.setStream session (s.stream session).disconnect) := by
  refine routing_setStream h (fun hc => by cases hc) (fun msg hm => ?_) (fun hle => ?_)
    fun hk => ⟨rfl, (h.ended session hk).2⟩
  · rw [SseStream.messages, SseStream.disconnect, List.nil_append] at hm
    exact List.mem_append_right _ hm
  · rw [h.absent session hle]
    rfl

theorem routing_phase (h : Routing s) {session : Nat}
    (hc : (s.stream session).connected = true) {phase : StreamPhase}
    (hended : phase = .ended →
      (s.stream session).channel = [] ∧ s.registered session = false) :
    Routing (s.setStream session { s.stream session with phase := phase }) := by
  refine routing_setStream h (fun _ => ⟨hc, fun _ => rfl⟩) (fun _ hm => hm) (fun hle => ?_) hended
  rw [h.absent session hle] at hc
  cases hc

theorem routing_poll (h : Routing s) (session : Nat) : Routing (s.poll session) := by
  rw [poll]
  split
  · next hc =>
      split
      · exact routing_phase h hc fun he => by cases he
      · split
        · next msg channel hchannel =>
            refine routing_setStream h (fun _ => ⟨hc, fun n => ?_⟩) (fun m hm => ?_)
              (fun hle => ?_) fun he => by cases he
            · rw [SseStream.copies_eq, SseStream.copies_eq]
              refine List.Perm.countP_eq _ ?_
              rw [SseStream.messages, SseStream.messages, hchannel, List.cons_append]
              show (channel ++ ((s.stream session).received ++ [msg])).Perm _
              rw [← List.append_assoc]
              exact List.perm_append_singleton msg _
            · rw [SseStream.messages, hchannel]
              simp only [SseStream.messages, List.mem_append, List.mem_cons, List.not_mem_nil,
                or_false] at hm ⊢
              tauto
            · rw [h.absent session hle] at hc
              cases hc
        · next hchannel =>
            split
            · exact h
            · next hgone =>
                exact routing_phase h hc fun _ => ⟨hchannel, Bool.eq_false_iff.mpr hgone⟩
      · rw [touch_setStream]
        exact routing_touch (routing_phase h hc fun he => by cases he) session
      · exact h
  · exact h

/-! ### Connections and the collector -/

theorem sessionCount_upsert_le (session : Nat) (f : Option Nat → Nat) :
    (s.sessions.upsert session f).rows.length ≤ s.sessionCount + 1 := by
  rw [Table.length_upsert, sessionCount]
  split <;> omega

theorem routing_register (h : Routing s)
    (hfree : s.admitted ≠ 0 → s.sessionCount < s.maxConnections) : Routing s.register := by
  rw [register]
  split
  · exact h
  · next hadmitted =>
      have hlt := hfree hadmitted
      have hcount := sessionCount_upsert_le (s := s) s.opened fun _ => s.now
      have hregistered : ∀ k, (s.sessions.upsert s.opened fun _ => s.now).get? k =
          if k = s.opened then some s.now else s.sessions.get? k := fun k => Table.get?_upsert ..
      refine
        { bounded := Nat.le_trans hcount hlt
          fresh := fun k hk => ?_
          absent := fun k hk => ?_
          ended := fun k hk => ?_
          queued := h.queued
          working := h.working
          owned := fun k msg hm => ?_
          tracked := fun n r hr => ?_ }
      · show k < s.opened + 1
        change ((s.sessions.upsert s.opened fun _ => s.now).get? k).isSome = true at hk
        rw [hregistered] at hk
        split at hk
        · omega
        · exact Nat.lt_succ_of_lt (h.fresh k hk)
      · change s.opened + 1 ≤ k at hk
        show (if k = s.opened then _ else _ : SseStream) = _
        rw [if_neg (by omega)]
        exact h.absent k (by omega)
      · change (if k = s.opened then .opened else s.stream k : SseStream).phase = .ended at hk
        split at hk
        · cases hk
        · next hne =>
            have hend := h.ended k hk
            refine ⟨?_, ?_⟩
            · show (if k = s.opened then _ else _ : SseStream).channel = []
              rw [if_neg hne]
              exact hend.1
            · show ((s.sessions.upsert s.opened fun _ => s.now).get? k).isSome = false
              rw [hregistered, if_neg hne]
              exact hend.2
      · change msg ∈ (if k = s.opened then .opened else s.stream k : SseStream).messages at hm
        split at hm
        · cases hm
        · exact h.owned k msg hm
      · by_cases hl : r.live = true
        · -- the new stream is not the one of a request that has come before
          have hne : r.session ≠ s.opened := Nat.ne_of_lt ((h.tracked n r hr).known hl)
          refine (h.tracked n r hr).of_frame (Nat.le_succ _) (fun hc => ?_) (fun _ _ _ hk => ?_)
            fun _ ht => ht
          · change (if r.session = s.opened then _ else _ : SseStream).connected = true at hc
            show _ ∧ (if r.session = s.opened then _ else _ : SseStream).copies n = _
            rw [if_neg hne] at hc ⊢
            exact ⟨hc, rfl⟩
          · show ((s.sessions.upsert s.opened fun _ => s.now).get? r.session).isSome = true
            rw [hregistered, if_neg hne]
            exact hk
        · exact (h.tracked n r hr).of_not_live hl

theorem routing_collect (h : Routing s)
    (hidle : ∀ r ∈ s.requests, r.live = true → (s.stream r.session).connected = true →
      r.slot.underWay = true → s.runsOut r.session = false) : Routing s.collect := by
  have hgone : ∀ k, s.collect.registered k = true → s.registered k = true := by
    intro k hk
    rw [registered, collect, Table.get?_filter] at hk
    rw [registered]
    cases hs : s.sessions.get? k with
    | none => rw [hs] at hk; exact hk
    | some last => rfl
  refine
    { bounded := Nat.le_trans (List.length_filter_le _ _) h.bounded
      fresh := fun k hk => h.fresh k (hgone k hk)
      absent := h.absent
      ended := fun k hk => ⟨(h.ended k hk).1, ?_⟩
      queued := h.queued
      working := h.working
      owned := h.owned
      tracked := fun n r hr => (h.tracked n r hr).of_frame (Nat.le_refl _) (fun hc => ⟨hc, rfl⟩)
        (fun hl hc hu hk => ?_) (fun _ ht => ht) }
  · refine Bool.eq_false_iff.mpr fun hr => ?_
    have hend := (h.ended k hk).2
    rw [hgone k hr] at hend
    cases hend
  obtain ⟨last, hlast⟩ := Option.isSome_iff_exists.mp hk
  have hstays := hidle r (List.mem_of_getElem? hr) hl hc hu
  rw [runsOut, hlast, Option.any_some] at hstays
  rw [registered, collect, Table.get?_filter, hlast]
  simp [hstays]

/-! ### Requests -/

theorem getElem?_setSlot (hr : s.requests[n]? = some r) {slot : ResponseSlot} {k : Nat}
    {r' : Posted} (h : (s.setSlot n r slot).requests[k]? = some r') :
    k = n ∧ r' = { r with slot := slot } ∨ k ≠ n ∧ s.requests[k]? = some r' := by
  change (s.requests.set n { r with slot := slot })[k]? = some r' at h
  have hlt : n < s.requests.length := (List.getElem?_eq_some_iff.mp hr).1
  by_cases hk : k = n
  · rw [hk, List.getElem?_set_self hlt] at h
    injection h with h
    exact .inl ⟨hk, h.symm⟩
  · rw [List.getElem?_set_ne (Ne.symm hk)] at h
    exact .inr ⟨hk, h⟩

theorem owned_setSlot (hr : s.requests[n]? = some r) {slot : ResponseSlot} {session : Nat}
    {msg : Message} (h : Owned s session msg) : Owned (s.setSlot n r slot) session msg := by
  obtain ⟨r', hr', hsession, hid, hsome⟩ := h
  have hlt : n < s.requests.length := (List.getElem?_eq_some_iff.mp hr).1
  by_cases hk : msg.request = n
  · rw [hk, hr] at hr'
    injection hr' with hr'
    subst hr'
    refine ⟨{ r with slot := slot }, ?_, hsession, hid, hsome⟩
    rw [hk]
    exact List.getElem?_set_self hlt
  · refine ⟨r', ?_, hsession, hid, hsome⟩
    exact (List.getElem?_set_ne (Ne.symm hk)).trans hr'

theorem routing_setSlot (h : Routing s) (hr : s.requests[n]? = some r) {slot : ResponseSlot}
    (hnamed : slot ≠ .dropped → r.slot ≠ .dropped)
    (hanswers : ∀ resp, slot = .filled resp → r.slot = .filled resp ∨ resp.id = r.request.id)
    (hunder : slot.underWay = r.slot.underWay) (hwaiting : slot ≠ .waiting) :
    Routing (s.setSlot n r slot) := by
  have hlength : (s.setSlot n r slot).requests.length = s.requests.length := List.length_set ..
  refine
    { bounded := h.bounded
      fresh := h.fresh
      absent := h.absent
      ended := h.ended
      queued := fun k hk => hlength ▸ h.queued k hk
      working := fun k hk => hlength ▸ h.working k hk
      owned := fun session msg hm => owned_setSlot hr (h.owned session msg hm)
      tracked := fun k r' hr' => ?_ }
  rcases getElem?_setSlot hr hr' with ⟨hk, hr'⟩ | ⟨hk, hr'⟩
  · rw [hk, hr']
    exact (((h.tracked n r hr).of_slot hnamed hanswers hunder hwaiting).of_frame (Nat.le_refl _)
      (fun hc => ⟨hc, rfl⟩) (fun _ _ _ hk => hk) fun _ ht => ht)
  · exact (h.tracked k r' hr').of_frame (Nat.le_refl _) (fun hc => ⟨hc, rfl⟩) (fun _ _ _ hk => hk)
      fun _ ht => ht

theorem routing_post (h : Routing s) (session : Nat) (req : JsonRpcRequest)
    (hanswerable : s.isOpen session = true → req.id.isSome = true →
      req.method ≠ "notifications/initialized") : Routing (s.post session req) := by
  have hmore : ∀ {k : Nat} {r' : Posted}, s.requests[k]? = some r' →
      (s.post session req).requests[k]? = some r' := fun hr' =>
    (List.getElem?_append_left (List.getElem?_eq_some_iff.mp hr').1).trans hr'
  have hlength : (s.post session req).requests.length = s.requests.length + 1 := by simp [post]
  refine
    { bounded := h.bounded
      fresh := h.fresh
      absent := h.absent
      ended := h.ended
      queued := fun k hk => ?_
      working := fun k hk => ⟨?_, (h.working k hk).2⟩
      owned := fun k msg hm => ?_
      tracked := fun k r' hr' => ?_ }
  · rw [hlength]
    rcases List.mem_append.mp hk with hk | hk
    · exact Nat.lt_succ_of_lt (h.queued k hk)
    · rw [List.mem_singleton.mp hk]
      exact Nat.lt_succ_self _
  · rw [hlength]
    exact Nat.lt_succ_of_lt (h.working k hk).1
  · obtain ⟨r', hr', hrest⟩ := h.owned k msg hm
    exact ⟨r', hmore hr', hrest⟩
  · change (s.requests ++ [_])[k]? = some r' at hr'
    by_cases hlt : k < s.requests.length
    · rw [List.getElem?_append_left hlt] at hr'
      exact (h.tracked k r' hr').of_frame (Nat.le_refl _) (fun hc => ⟨hc, rfl⟩)
        (fun _ _ _ hk => hk) fun _ ht => ht.imp (List.mem_append_left _) id
    · rw [List.getElem?_append_right (by omega), List.getElem?_singleton] at hr'
      split at hr'
      · next hzero =>
          have hk : k = s.requests.length := by omega
          injection hr' with hr'
          subst hr'
          have hslot : ResponseSlot.new req ≠ .dropped → req.id.isSome = true ∧
              ResponseSlot.new req = .waiting := by
            rw [ResponseSlot.new]
            cases req.id with
            | none => exact fun hs => absurd rfl hs
            | some id => exact fun _ => ⟨rfl, rfl⟩
          -- no message answers a request that has not come
          have hnone : (s.stream session).copies k = 0 := by
            rw [SseStream.copies_eq, List.countP_eq_zero]
            intro msg hm hmk
            obtain ⟨r', hr', -⟩ := h.owned session msg hm
            rw [of_decide_eq_true hmk, hk] at hr'
            rw [List.getElem?_eq_none (Nat.le_refl _)] at hr'
            cases hr'
          refine
            { named := fun hs => (hslot hs).1
              answers := fun resp hs => ?_
              known := fun hl => h.fresh session (Bool.and_eq_true_iff.mp hl).1
              answerable := hanswerable
              kept := fun hl _ _ => (Bool.and_eq_true_iff.mp hl).1
              turn := fun _ _ => .inl (List.mem_append_right _ (List.mem_singleton.mpr hk))
              once := fun _ hid _ => ?_ }
          · change ResponseSlot.new req = .filled resp at hs
            have hw := (hslot (by rw [hs]; simp)).2
            rw [hs] at hw
            cases hw
          · show (if (ResponseSlot.new req).underWay then 1 else 0) + (s.stream session).copies k =
              1
            have hnew : ResponseSlot.new req = .waiting := by
              change req.id.isSome = true at hid
              rw [ResponseSlot.new, ← Option.not_isSome, hid]
              rfl
            rw [hnone, hnew]
            rfl
      · cases hr'

/-! ### The handler -/

theorem routing_dropCurrent (h : Routing s) : Routing s.dropCurrent := by
  rw [dropCurrent]
  split
  · exact h
  · split
    · next n r hr =>
        exact routing_setSlot h hr ResponseSlot.ne_dropped_of_drop
          (fun _ hs => .inl (ResponseSlot.drop_eq_filled hs))
          ResponseSlot.underWay_drop ResponseSlot.ne_waiting_drop
    · exact h

theorem dropCurrent_eq : s.dropCurrent = { s with requests := s.dropCurrent.requests } := by
  rw [dropCurrent]
  split
  · rfl
  · split <;> rfl

theorem routing_recv (h : Routing s) : Routing s.recv := by
  rw [recv]
  split
  · next n queue hbusy hqueue =>
      have hd := routing_dropCurrent h
      rw [dropCurrent_eq] at hd ⊢
      refine
        { bounded := hd.bounded
          fresh := hd.fresh
          absent := hd.absent
          ended := hd.ended
          queued := fun k hk => hd.queued k (hqueue ▸ List.mem_cons_of_mem _ hk)
          working := fun k hk => ?_
          owned := hd.owned
          tracked := fun k r hr => (hd.tracked k r hr).of_frame (Nat.le_refl _)
            (fun hc => ⟨hc, rfl⟩) (fun _ _ _ hk => hk) fun _ ht => ?_ }
      · injection hk with hk
        subst hk
        exact ⟨hd.queued n (hqueue ▸ List.mem_cons_self), rfl⟩
      · rcases ht with hk | hk
        · change k ∈ s.queue at hk
          rw [hqueue, List.mem_cons] at hk
          exact hk.elim (fun e => .inr (congrArg some e.symm)) .inl
        · exact absurd (hbusy.symm.trans hk) (by simp)
  · exact h

end SseServer

namespace RequestHandler

variable {h : RequestHandler} {run : ToolRun} {req : JsonRpcRequest}

/-- The response is for the request, and will not be suppressed. -/
def Answers (req : JsonRpcRequest) (resp : JsonRpcResponse) : Prop :=
  resp.id = req.id ∧ resp.isEmptyNotification = false

theorem answers_ok (req : JsonRpcRequest) (result : Json) : Answers req (.ok req.id result) :=
  ⟨rfl, by simp [JsonRpcResponse.ok, JsonRpcResponse.isEmptyNotification]⟩

theorem answers_ofError (req : JsonRpcRequest) (code : Int) (message : String) :
    Answers req (.ofError req.id code message) :=
  ⟨rfl, by simp [JsonRpcResponse.ofError, JsonRpcResponse.isEmptyNotification]⟩

theorem answers_handleInitialize : Answers req (h.handleInitialize serde req) := by
  rw [handleInitialize]
  split
  · exact answers_ofError ..
  · split
    · exact answers_ofError ..
    · exact answers_ok ..

theorem answers_handleCallTool : Answers req (h.handleCallTool serde run req) := by
  rw [handleCallTool]
  split
  · exact answers_ofError ..
  · split
    · exact answers_ok ..
    · exact answers_ofError ..
    · exact answers_ofError ..
    · exact answers_ofError ..

/-- There is one method whose response does not name its request. -/
theorem answers_handle (hm : req.method ≠ "notifications/initialized") :
    Answers req (h.handle serde run req).2 := by
  rw [handle, if_neg hm]
  split
  · exact answers_ofError ..
  · split
    · exact answers_handleInitialize
    · split
      · exact answers_ok ..
      · split
        · exact answers_handleCallTool
        · exact answers_ofError ..

end RequestHandler

namespace SseServer

/-- The handler is done with a request that does not wait any more. -/
theorem routing_idle (h : Routing s) (handler : RequestHandler) (handled : List Handled)
    (current : Option Nat) (hbusy : s.busy = some n)
    (hturn : ∀ r, s.requests[n]? = some r → r.live = true → r.slot ≠ .waiting) :
    Routing { s with handler := handler, handled := handled, busy := none, current := current } :=
  { bounded := h.bounded
    fresh := h.fresh
    absent := h.absent
    ended := h.ended
    queued := h.queued
    working := fun _ hk => by cases hk
    owned := h.owned
    tracked := fun k r hr =>
      { h.tracked k r hr with
        turn := fun hl hw => by
          rcases (h.tracked k r hr).turn hl hw with hk | hk
          · exact .inl hk
          · rw [hbusy] at hk
            injection hk with hk
            subst hk
            exact absurd hw (hturn r hr hl) } }

theorem routing_answer (h : Routing s) (run : ToolRun) : Routing (s.answer serde run) := by
  rw [answer]
  split
  · exact h
  · next n hbusy =>
      split
      · next r hr =>
          obtain ⟨hlt, hcurrent⟩ := h.working n hbusy
          have ht := h.tracked n r hr
          by_cases hm : r.request.method = "notifications/initialized"
          · have hempty : (s.handler.handle serde run r.request).2 = .empty := by
              simp [RequestHandler.handle, hm, RequestHandler.handleInitialized]
            dsimp only
            rw [hempty]
            refine routing_idle h _ _ s.current hbusy fun r' hr' hl hw => ?_
            rw [hr] at hr'
            injection hr' with hr'
            subst hr'
            exact ht.answerable hl (ht.named (by rw [hw]; simp)) hm
          · obtain ⟨hid, hempty⟩ :=
              @RequestHandler.answers_handle serde s.handler run r.request hm
            dsimp only
            obtain ⟨resp, hresp⟩ : ∃ resp, (s.handler.handle serde run r.request).2 = resp :=
              ⟨_, rfl⟩
            rw [hresp] at hid hempty ⊢
            rw [send, if_neg (by rw [hempty]; simp)]
            dsimp only
            rw [hcurrent]
            dsimp only
            rw [hr]
            have hslot : Routing (s.setSlot n r (r.slot.send resp)) :=
              routing_setSlot h hr ResponseSlot.ne_dropped_of_send
                (fun _ hs => (ResponseSlot.send_eq_filled hs).imp id fun he => by rw [he, hid])
                ResponseSlot.underWay_send ResponseSlot.ne_waiting_send
            refine routing_idle hslot _ _ none hbusy fun r' hr' _ hw => ?_
            rcases getElem?_setSlot hr hr' with ⟨-, rfl⟩ | ⟨hne, -⟩
            · exact ResponseSlot.ne_waiting_send hw
            · exact hne rfl
      · exact h

/-! ### The tasks of the requests -/

/-- A response goes into the channel of a session that is still there. -/
theorem routing_deliver (h : Routing s) (hr : s.requests[n]? = some r) {resp : JsonRpcResponse}
    (hid : resp.id = r.request.id) (hsome : r.request.id.isSome = true)
    (hunder : r.slot.underWay = true) (hregistered : s.registered r.session = true) :
    Routing ((s.setSlot n r .forwarded).setStream r.session
      ((s.stream r.session).push ⟨n, resp⟩)) := by
  have hlength : (s.setSlot n r .forwarded).requests.length = s.requests.length :=
    List.length_set ..
  have hlt : n < s.requests.length := (List.getElem?_eq_some_iff.mp hr).1
  have hother : ∀ k, ((s.setSlot n r .forwarded).setStream r.session
      ((s.stream r.session).push ⟨n, resp⟩)).stream k =
        if k = r.session then (s.stream r.session).push ⟨n, resp⟩ else s.stream k := fun k => rfl
  refine
    { bounded := h.bounded
      fresh := h.fresh
      absent := fun k hk => ?_
      ended := fun k hk => ?_
      queued := fun k hk => hlength ▸ h.queued k hk
      working := fun k hk => hlength ▸ h.working k hk
      owned := fun k msg hm => ?_
      tracked := fun k r' hr' => ?_ }
  · have hlt : r.session < s.opened := h.fresh _ hregistered
    change s.opened ≤ k at hk
    rw [hother, if_neg (by omega)]
    exact h.absent k hk
  · rw [hother] at hk ⊢
    by_cases he : k = r.session
    · -- the stream of a session that is there has not ended
      rw [if_pos he, SseStream.phase_push] at hk
      rw [(h.ended _ hk).2] at hregistered
      cases hregistered
    · rw [if_neg he] at hk ⊢
      exact h.ended k hk
  · rw [hother] at hm
    split at hm
    · next hk =>
        rcases SseStream.mem_messages_push hm with hm | hm
        · exact owned_setSlot hr (hk ▸ h.owned r.session msg hm)
        · subst hm
          exact ⟨{ r with slot := .forwarded }, List.getElem?_set_self hlt, hk.symm, hid.symm,
            hsome⟩
    · exact owned_setSlot hr (h.owned k msg hm)
  · rcases getElem?_setSlot hr hr' with ⟨hk, he⟩ | ⟨hk, hr'⟩
    · -- what was under way has become a message
      subst hk he
      have ht := h.tracked k r hr
      refine
        { named := fun _ => hsome
          answers := fun _ hs => by cases hs
          known := ht.known
          answerable := ht.answerable
          kept := fun _ _ hu => by cases hu
          turn := fun _ hw => by cases hw
          once := fun hl hid hc => ?_ }
      change ((if r.session = r.session then _ else _ : SseStream)).connected = true at hc
      rw [if_pos rfl, SseStream.connected_push] at hc
      have honce := ht.once hl hid hc
      rw [hunder] at honce
      show 0 + (if r.session = r.session then _ else _ : SseStream).copies k = 1
      rw [if_pos rfl, SseStream.copies_push hc, if_pos rfl]
      rw [if_pos rfl] at honce
      omega
    · refine (h.tracked k r' hr').of_frame (Nat.le_refl _) (fun hc => ?_) (fun _ _ _ hk => hk)
        fun _ ht => ht
      rw [hother] at hc ⊢
      by_cases he : r'.session = r.session
      · rw [if_pos he, SseStream.connected_push] at hc
        rw [if_pos he, SseStream.copies_push hc, if_neg (Ne.symm hk), he]
        exact ⟨hc, rfl⟩
      · rw [if_neg he] at hc ⊢
        exact ⟨hc, rfl⟩

/-- And of one that is gone nothing is owed. -/
theorem routing_lose (h : Routing s) (hr : s.requests[n]? = some r)
    (hunder : r.slot.underWay = true) (hgone : s.registered r.session = false) :
    Routing (s.setSlot n r .forwarded) := by
  have hlength : (s.setSlot n r .forwarded).requests.length = s.requests.length :=
    List.length_set ..
  refine
    { bounded := h.bounded
      fresh := h.fresh
      absent := h.absent
      ended := h.ended
      queued := fun k hk => hlength ▸ h.queued k hk
      working := fun k hk => hlength ▸ h.working k hk
      owned := fun session msg hm => owned_setSlot hr (h.owned session msg hm)
      tracked := fun k r' hr' => ?_ }
  rcases getElem?_setSlot hr hr' with ⟨hk, he⟩ | ⟨hk, hr'⟩
  · subst hk he
    have ht := h.tracked k r hr
    exact
      { named := fun _ => ht.named fun hs => by rw [hs] at hunder; cases hunder
        answers := fun _ hs => by cases hs
        known := ht.known
        answerable := ht.answerable
        kept := fun _ _ hu => by cases hu
        turn := fun _ hw => by cases hw
        once := fun hl _ hc => by
          have hkept := ht.kept hl hc hunder
          rw [hgone] at hkept
          cases hkept }
  · exact (h.tracked k r' hr').of_frame (Nat.le_refl _) (fun hc => ⟨hc, rfl⟩) (fun _ _ _ hk => hk)
      fun _ ht => ht

theorem routing_forward (h : Routing s) (hr : s.requests[n]? = some r) {resp : JsonRpcResponse}
    (hid : resp.id = r.request.id) (hsome : r.request.id.isSome = true)
    (hunder : r.slot.underWay = true) : Routing (s.forward n r resp) := by
  rw [forward]
  split
  · next hregistered =>
      rw [touch_setStream]
      exact routing_touch (routing_deliver h hr hid hsome hunder hregistered) r.session
  · next hgone => exact routing_lose h hr hunder (Bool.eq_false_iff.mpr hgone)

theorem routing_respond (h : Routing s) (n : Nat) : Routing (s.respond n) := by
  rw [respond]
  split
  · next r hr =>
      have ht := h.tracked n r hr
      split
      · next resp hslot =>
          exact routing_forward h hr (ht.answers resp hslot) (ht.named (by rw [hslot]; simp))
            (by rw [hslot]; rfl)
      · next hslot =>
          have hsome := ht.named (by rw [hslot]; simp)
          split
          · next id hid => exact routing_forward h hr hid.symm hsome (by rw [hslot]; rfl)
          · next hid =>
              rw [hid] at hsome
              cases hsome
      · exact h
      · exact h
      · exact h
  · exact h

theorem routing_clocks (h : Routing s) (now admitted : Nat) :
    Routing { s with now := now, admitted := admitted } :=
  { bounded := h.bounded
    fresh := h.fresh
    absent := h.absent
    ended := h.ended
    queued := h.queued
    working := h.working
    owned := h.owned
    tracked := fun n r hr => (h.tracked n r hr).of_frame (Nat.le_refl _) (fun hc => ⟨hc, rfl⟩)
      (fun _ _ _ hk => hk) fun _ ht => ht }

theorem routing_step (h : Routing s) {e : SseEvent} (he : s.Serving e) :
    Routing (s.step serde e) := by
  cases e with
  | connect =>
      rw [step, connect]
      split
      · exact h
      · exact routing_clocks h s.now (s.admitted + 1)
  | register => exact routing_register h he
  | post session req => exact routing_post h session req he
  | recv => exact routing_recv h
  | answer run => exact routing_answer h run
  | respond n => exact routing_respond h n
  | poll session => exact routing_poll h session
  | disconnect session => exact routing_disconnect h session
  | collect => exact routing_collect h he
  | wait m => exact routing_clocks h (s.now + m) s.admitted

end SseServer

end Pandaria.Mcp
