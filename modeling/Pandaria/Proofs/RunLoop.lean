import Pandaria.Lib.Run
import Pandaria.Mcp.Sse
import Pandaria.Proofs.Handshake
import Pandaria.Proofs.Routing

/-!
# What the server's loop writes

A request with an id gets a response with that id, whatever comes of it, and what
is written for a message without an id is decided by its method alone: the two
agree on every message but those that are `notifications/initialized` and have an
id, or have none and are something else. Over standard input a line that does not
decode ends the loop besides.
-/

namespace Pandaria.Mcp

open Pandaria.Lib
open Pandaria.Ai (Json)

/-! ## Standard input and output -/

variable {parse : RequestParser} {serde : Decoders}

/-- What is written for a message is what is due for it. -/
def JsonRpcRequest.answerable (req : JsonRpcRequest) : Bool := req.id.isSome != req.isInitialized

/-- The requests with an id among the lines, by their ids. -/
def asked (parse : RequestParser) (lines : List (StdinLine × ToolRun)) : List JsonRpcId :=
  lines.filterMap fun line =>
    (StdioServerTransport.recv parse line.1).toOption.bind JsonRpcRequest.id

namespace RequestHandler

variable {h : RequestHandler} {run : ToolRun} {req : JsonRpcRequest}

theorem handle_initialized (hm : req.isInitialized = true) :
    (h.handle serde run req).2 = .empty := by
  have hmethod : req.method = "notifications/initialized" := of_decide_eq_true hm
  rw [handle, hmethod]
  simp [handleInitialized]

/-- The ids a message is answered with. -/
theorem ids_send_handle :
    (StdioServerTransport.send (h.handle serde run req).2).map JsonRpcResponse.id =
      if req.isInitialized = true then [] else [req.id] := by
  cases hm : req.isInitialized with
  | true =>
      rw [handle_initialized hm]
      rfl
  | false =>
      have hanswers : Answers req (h.handle serde run req).2 :=
        answers_handle (of_decide_eq_false hm)
      rw [StdioServerTransport.send, hanswers.2]
      exact congrArg (fun id => [id]) hanswers.1

theorem asked_cons {line : StdinLine × ToolRun} {rest : List (StdinLine × ToolRun)}
    (hrecv : StdioServerTransport.recv parse line.1 = .ok req) :
    asked parse (line :: rest) = req.id.toList ++ asked parse rest := by
  have hhead : (StdioServerTransport.recv parse line.1).toOption.bind JsonRpcRequest.id =
      req.id := by
    rw [hrecv]
    rfl
  cases hid : req.id with
  | none => exact List.filterMap_cons_none (hhead.trans hid)
  | some id => exact List.filterMap_cons_some (hhead.trans hid)

theorem runLoop_cons {line : StdinLine × ToolRun} {rest : List (StdinLine × ToolRun)}
    (hrecv : StdioServerTransport.recv parse line.1 = .ok req) :
    ((h.runLoop parse serde (line :: rest)).1.map JsonRpcResponse.id =
        (if req.isInitialized = true then [] else [req.id]) ++
          ((h.handle serde line.2 req).1.runLoop parse serde rest).1.map JsonRpcResponse.id) ∧
      (h.runLoop parse serde (line :: rest)).2 =
        ((h.handle serde line.2 req).1.runLoop parse serde rest).2 := by
  rw [runLoop, hrecv]
  simp only [List.map_append, ids_send_handle, and_self]

/-- Of the responses with an id there are no more than what is asked. -/
theorem length_runLoop_le (lines : List (StdinLine × ToolRun)) (h : RequestHandler) :
    (((h.runLoop parse serde lines).1.map JsonRpcResponse.id).filter Option.isSome).length ≤
      (asked parse lines).length := by
  induction lines generalizing h with
  | nil => exact Nat.le_refl 0
  | cons line rest ih =>
      cases hrecv : StdioServerTransport.recv parse line.1 with
      | error e =>
          rw [runLoop, hrecv]
          exact Nat.zero_le _
      | ok req =>
          have hrest := ih (h.handle serde line.2 req).1
          rw [(runLoop_cons hrecv).1, asked_cons hrecv, List.filter_append, List.length_append,
            List.length_append]
          have hone : ((if req.isInitialized = true then [] else [req.id]).filter
              Option.isSome).length ≤ req.id.toList.length := by
            split
            · exact Nat.zero_le _
            · cases req.id <;> simp
          omega

/-- One message and the rest: what is written is what is due if it is for each of
the two. An answer that is missing is not made up for by the rest. -/
theorem ids_cons_iff {id : Option JsonRpcId} {initialized : Bool} {out : List (Option JsonRpcId)}
    {due : List JsonRpcId} (hle : (out.filter Option.isSome).length ≤ due.length) :
    (if initialized = true then [] else [id]) ++ out = id.toList.map some ++ due.map some ↔
      (id.isSome != initialized) = true ∧ out = due.map some := by
  cases id with
  | none =>
      cases initialized with
      | true => simp
      | false => cases due <;> simp
  | some id =>
      cases initialized with
      | true =>
          refine ⟨fun h => ?_, fun h => by cases h.1⟩
          change out = some id :: due.map some at h
          have hall : (due.map some).filter Option.isSome = due.map some :=
            List.filter_eq_self.mpr fun x hx => by
              obtain ⟨y, -, rfl⟩ := List.mem_map.mp hx
              rfl
          rw [h, List.filter_cons_of_pos rfl, hall, List.length_cons, List.length_map] at hle
          omega
      | false => simp

/-- The loop reads to the end of its input and answers all that is asked, in turn
and nothing else, exactly if every line decodes and the method of each message
fits its id. -/
theorem runLoop_iff (lines : List (StdinLine × ToolRun)) (h : RequestHandler) :
    ((h.runLoop parse serde lines).2 = .ok () ∧
        (h.runLoop parse serde lines).1.map JsonRpcResponse.id = (asked parse lines).map some) ↔
      ∀ line ∈ lines, ∃ req, StdioServerTransport.recv parse line.1 = .ok req ∧
        req.answerable = true := by
  induction lines generalizing h with
  | nil => simp [runLoop, asked]
  | cons line rest ih =>
      rw [List.forall_mem_cons]
      cases hrecv : StdioServerTransport.recv parse line.1 with
      | error e =>
          rw [runLoop, hrecv]
          simp
      | ok req =>
          have hcons := @runLoop_cons parse serde h req line rest hrecv
          rw [hcons.1, hcons.2, asked_cons hrecv, List.map_append,
            ids_cons_iff (length_runLoop_le rest _), ← ih (h.handle serde line.2 req).1]
          simp only [Except.ok.injEq, exists_eq_left', JsonRpcRequest.answerable]
          exact and_left_comm

end RequestHandler

/-! ## Bodies that are posted -/

namespace SseServer

variable {s : SseServer}

/-- The loop over the SSE transport is alive, and has written what it should: its
channel is there when it sends, a request with an id that it is done with has been
given a response with that id, and nothing has been written for a message without
one. -/
structure Answering (s : SseServer) : Prop where
  channel : s.busy.isSome = true → s.current.isSome = true
  replied : ∀ (n : Nat) (r : Posted), s.requests[n]? = some r → n ∉ s.queue → s.busy ≠ some n →
    r.slot ≠ .waiting
  named : ∀ (n : Nat) (r : Posted) (resp : JsonRpcResponse), s.requests[n]? = some r →
    r.slot = .filled resp → resp.id = r.request.id
  silent : ∀ (n : Nat) (r : Posted), s.requests[n]? = some r → r.request.id = none →
    r.slot = .dropped

/-- What holds of the queue besides. -/
structure Queued (s : SseServer) : Prop where
  current : s.busy.isSome = true → s.current = s.busy
  fresh : ∀ n, n ∈ s.queue ∨ s.busy = some n →
    ∃ r, s.requests[n]? = some r ∧ r.slot = .new r.request
  apart : ∀ n, s.current = some n → n ∉ s.queue ∧ n < s.requests.length
  nodup : s.queue.Nodup

/-- The next message that is handled is one whose method fits its id. -/
def Fitting (s : SseServer) : SseEvent → Prop
  | .answer _ => ∀ n ∈ s.busy, ∀ r ∈ s.requests[n]?, r.request.id.isSome = true →
      r.request.isInitialized = false
  | _ => True

/-! ### Slots -/

variable {n : Nat} {r : Posted} {slot : ResponseSlot}

theorem Answering.setSlot (h : Answering s) (hr : s.requests[n]? = some r)
    (hwait : slot ≠ .waiting) (hnamed : ∀ resp, slot = .filled resp → resp.id = r.request.id)
    (hsilent : r.request.id = none → slot = .dropped) : Answering (s.setSlot n r slot) where
  channel := h.channel
  replied k r' hr' hq hb := by
    rcases getElem?_setSlot hr hr' with ⟨-, rfl⟩ | ⟨-, hold⟩
    · exact hwait
    · exact h.replied k r' hold hq hb
  named k r' resp hr' hfilled := by
    rcases getElem?_setSlot hr hr' with ⟨-, rfl⟩ | ⟨-, hold⟩
    · exact hnamed resp hfilled
    · exact h.named k r' resp hold hfilled
  silent k r' hr' hid := by
    rcases getElem?_setSlot hr hr' with ⟨-, rfl⟩ | ⟨-, hold⟩
    · exact hsilent hid
    · exact h.silent k r' hold hid

theorem Queued.setSlot (h : Queued s)
    (hdone : ¬ (n ∈ s.queue ∨ s.busy = some n)) (slot : ResponseSlot) :
    Queued (s.setSlot n r slot) where
  current := h.current
  fresh k hk := by
    obtain ⟨r', hr', hslot⟩ := h.fresh k hk
    have hne : n ≠ k := fun e => hdone (e ▸ hk)
    refine ⟨r', ?_, hslot⟩
    show (s.requests.set n _)[k]? = some r'
    rw [List.getElem?_set_ne hne]
    exact hr'
  apart k hk := by
    refine ⟨(h.apart k hk).1, ?_⟩
    show k < (s.requests.set n _).length
    rw [List.length_set]
    exact (h.apart k hk).2
  nodup := h.nodup

/-- What the loop does not look at makes no difference. -/
theorem Answering.of_eq {t : SseServer} (h : Answering s) (hr : t.requests = s.requests)
    (hq : t.queue = s.queue) (hb : t.busy = s.busy) (hc : t.current = s.current) : Answering t where
  channel := by rw [hb, hc]; exact h.channel
  replied := by rw [hr, hq, hb]; exact h.replied
  named := by rw [hr]; exact h.named
  silent := by rw [hr]; exact h.silent

theorem Queued.of_eq {t : SseServer} (h : Queued s) (hr : t.requests = s.requests)
    (hq : t.queue = s.queue) (hb : t.busy = s.busy) (hc : t.current = s.current) : Queued t where
  current := by rw [hb, hc]; exact h.current
  fresh := by rw [hr, hq, hb]; exact h.fresh
  apart := by rw [hr, hq, hc]; exact h.apart
  nodup := by rw [hq]; exact h.nodup

/-! ### Steps -/

theorem answering_post (h : Answering s) (hq : Queued s) (session : Nat) (req : JsonRpcRequest) :
    Answering (s.post session req) ∧ Queued (s.post session req) := by
  have hcases : ∀ (k : Nat) (r' : Posted), (s.post session req).requests[k]? = some r' →
      s.requests[k]? = some r' ∨
        k = s.requests.length ∧ r' = ⟨session, req, .new req, s.isOpen session⟩ := by
    intro k r' hr'
    change (s.requests ++ [_])[k]? = some r' at hr'
    rcases Nat.lt_trichotomy k s.requests.length with hlt | rfl | hgt
    · rw [List.getElem?_append_left hlt] at hr'
      exact .inl hr'
    · rw [List.getElem?_concat_length] at hr'
      injection hr' with hr'
      exact .inr ⟨rfl, hr'.symm⟩
    · rw [List.getElem?_eq_none (by rw [List.length_append, List.length_singleton]; omega)] at hr'
      cases hr'
  have hlt : ∀ k, k ∈ s.queue ∨ s.busy = some k → k < s.requests.length := by
    intro k hk
    obtain ⟨r', hr', -⟩ := hq.fresh k hk
    exact (List.getElem?_eq_some_iff.mp hr').1
  refine ⟨⟨h.channel, fun k r' hr' hk hb => ?_, fun k r' resp hr' hfilled => ?_,
    fun k r' hr' hid => ?_⟩, ⟨hq.current, fun k hk => ?_, fun k hk => ?_, ?_⟩⟩
  · rcases hcases k r' hr' with hold | ⟨rfl, -⟩
    · exact h.replied k r' hold (fun hmem => hk (List.mem_append_left _ hmem)) hb
    · exact absurd (List.mem_append_right _ List.mem_cons_self) hk
  · rcases hcases k r' hr' with hold | ⟨-, rfl⟩
    · exact h.named k r' resp hold hfilled
    · change ResponseSlot.new req = .filled resp at hfilled
      rw [ResponseSlot.new] at hfilled
      split at hfilled <;> cases hfilled
  · rcases hcases k r' hr' with hold | ⟨-, rfl⟩
    · exact h.silent k r' hold hid
    · change req.id = none at hid
      show ResponseSlot.new req = .dropped
      rw [ResponseSlot.new, hid]
      rfl
  · have hnew : (k ∈ s.queue ∨ s.busy = some k) ∨ k = s.requests.length := by
      rcases hk with hk | hk
      · change k ∈ s.queue ++ [_] at hk
        rw [List.mem_append, List.mem_singleton] at hk
        exact hk.imp_left .inl
      · exact .inl (.inr hk)
    rcases hnew with hk | rfl
    · obtain ⟨r', hr', hslot⟩ := hq.fresh k hk
      refine ⟨r', ?_, hslot⟩
      show (s.requests ++ [_])[k]? = some r'
      rw [List.getElem?_append_left (hlt k hk)]
      exact hr'
    · exact ⟨_, List.getElem?_concat_length, rfl⟩
  · obtain ⟨hnq, hlt⟩ := hq.apart k hk
    refine ⟨?_, ?_⟩
    · show k ∉ s.queue ++ [_]
      rw [List.mem_append, List.mem_singleton]
      exact not_or.mpr ⟨hnq, Nat.ne_of_lt hlt⟩
    · show k < (s.requests ++ [_]).length
      rw [List.length_append]
      omega
  · show (s.queue ++ [_]).Nodup
    rw [List.nodup_append]
    refine ⟨hq.nodup, List.nodup_singleton _, fun a ha b hb => ?_⟩
    rw [List.mem_singleton.mp hb]
    have := hlt a (.inl ha)
    omega

theorem answering_dropCurrent (h : Answering s) (hq : Queued s) (hbusy : s.busy = none) :
    Answering s.dropCurrent ∧ Queued s.dropCurrent := by
  rw [dropCurrent]
  split
  · exact ⟨h, hq⟩
  · next n hcurrent =>
      split
      · next r hr =>
          refine ⟨h.setSlot hr ResponseSlot.ne_waiting_drop
            (fun resp hs => h.named n r resp hr (ResponseSlot.drop_eq_filled hs)) (fun hid => ?_),
            hq.setSlot ?_ _⟩
          · rw [h.silent n r hr hid]
            rfl
          · rw [hbusy]
            exact fun hk => hk.elim (hq.apart n hcurrent).1 (by simp)
      · exact ⟨h, hq⟩

theorem answering_recv (h : Answering s) (hq : Queued s) : Answering s.recv ∧ Queued s.recv := by
  rw [recv]
  split
  · next n queue hbusy hqueue =>
      obtain ⟨hd, hqd⟩ := answering_dropCurrent h hq hbusy
      have hmem : ∀ k, k ∈ queue → k ∈ s.dropCurrent.queue := by
        intro k hk
        rw [dropCurrent_eq]
        show k ∈ s.queue
        rw [hqueue]
        exact List.mem_cons_of_mem n hk
      have hqueue' : s.dropCurrent.queue = n :: queue := by rw [dropCurrent_eq]; exact hqueue
      have hbusy' : s.dropCurrent.busy = none := by rw [dropCurrent_eq]; exact hbusy
      have hnodup := hqd.nodup
      rw [hqueue', List.nodup_cons] at hnodup
      obtain ⟨r, hr, -⟩ := hqd.fresh n (.inl (hqueue' ▸ List.mem_cons_self))
      refine ⟨⟨fun _ => rfl, fun k r' hr' hk hb => ?_, hd.named, hd.silent⟩,
        ⟨fun _ => rfl, fun k hk => ?_, fun k hk => ?_, hnodup.2⟩⟩
      · refine hd.replied k r' hr' ?_ (by rw [hbusy']; simp)
        rw [hqueue', List.mem_cons]
        exact not_or.mpr ⟨fun e => hb (congrArg some e.symm), hk⟩
      · refine hqd.fresh k (.inl ?_)
        rw [hqueue', List.mem_cons]
        rcases hk with hk | hk
        · exact .inr hk
        · injection hk with hk
          exact .inl hk.symm
      · injection hk with hk
        subst hk
        exact ⟨hnodup.1, (List.getElem?_eq_some_iff.mp hr).1⟩
  · exact ⟨h, hq⟩

/-- The server when a message has been handled and its response not yet sent. -/
def done (s : SseServer) (handler : RequestHandler) (handled : List Handled) : SseServer :=
  { s with handler := handler, handled := handled, busy := none }

theorem queued_done (hq : Queued s) (handler : RequestHandler) (handled : List Handled) :
    Queued (s.done handler handled) where
  current h := by cases h
  fresh k hk := hq.fresh k (.inl (hk.resolve_right (by simp [done])))
  apart := hq.apart
  nodup := hq.nodup

/-- A response that is suppressed leaves its request waiting, if it has an id. -/
theorem answering_suppressed (h : Answering s) (hbusy : s.busy = some n) (hnq : n ∉ s.queue)
    (hr : s.requests[n]? = some r) (hslot : r.slot = .new r.request) (handler : RequestHandler)
    (handled : List Handled) :
    Answering (s.done handler handled) ↔ r.request.id.isSome = false := by
  constructor
  · intro hafter
    have hwait : r.slot ≠ .waiting := hafter.replied n r hr hnq (fun e => by cases e)
    cases hid : r.request.id with
    | none => rfl
    | some id =>
        rw [hslot, ResponseSlot.new, hid] at hwait
        exact absurd rfl hwait
  · intro hid
    refine ⟨fun hb => (by cases hb), fun k r' hr' hk _ => ?_, h.named, h.silent⟩
    by_cases hkn : k = n
    · subst hkn
      have hsame : r = r' := Option.some.inj (hr.symm.trans hr')
      rw [← hsame, hslot, ResponseSlot.new, Option.isNone_iff_eq_none.mpr (by simpa using hid)]
      simp
    · refine h.replied k r' hr' hk ?_
      rw [hbusy]
      exact fun e => hkn (Option.some.inj e).symm

/-- One that is sent goes into the slot of its request. -/
theorem answering_sent (h : Answering s) (hbusy : s.busy = some n)
    (hr : s.requests[n]? = some r) {resp : JsonRpcResponse}
    (hid : resp.id = r.request.id) (handler : RequestHandler) (handled : List Handled) :
    Answering { (s.done handler handled).setSlot n r (r.slot.send resp) with current := none } := by
  refine ⟨fun hb => (by cases hb), fun k r' hr' hk _ => ?_, fun k r' resp' hr' hfilled => ?_,
    fun k r' hr' hid' => ?_⟩
  · rcases getElem?_setSlot hr hr' with ⟨-, rfl⟩ | ⟨hkn, hold⟩
    · exact ResponseSlot.ne_waiting_send
    · refine h.replied k r' hold hk ?_
      rw [hbusy]
      exact fun e => hkn (Option.some.inj e).symm
  · rcases getElem?_setSlot hr hr' with ⟨-, rfl⟩ | ⟨-, hold⟩
    · rcases ResponseSlot.send_eq_filled hfilled with hold | ⟨-, rfl⟩
      · exact h.named n r resp' hr hold
      · exact hid
    · exact h.named k r' resp' hold hfilled
  · rcases getElem?_setSlot hr hr' with ⟨-, rfl⟩ | ⟨-, hold⟩
    · show r.slot.send resp = .dropped
      rw [h.silent n r hr hid']
      rfl
    · exact h.silent k r' hold hid'

theorem send_of_empty {resp : JsonRpcResponse} (h : resp.isEmptyNotification = true) :
    s.send resp = s := if_pos h

theorem send_of_current {resp : JsonRpcResponse} (h : resp.isEmptyNotification = false)
    (hc : s.current = some n) (hr : s.requests[n]? = some r) :
    s.send resp = { s.setSlot n r (r.slot.send resp) with current := none } := by
  rw [send, h]
  simp only [Bool.false_eq_true, if_false, hc, hr]

theorem answer_eq (run : ToolRun) (hbusy : s.busy = some n) (hr : s.requests[n]? = some r) :
    ∃ handled, s.answer serde run = (s.done (s.handler.handle serde run r.request).1 handled).send
      (s.handler.handle serde run r.request).2 := by
  rw [answer, hbusy]
  simp only [hr]
  exact ⟨_, rfl⟩

theorem answering_answer (h : Answering s) (hq : Queued s) (run : ToolRun) :
    Queued (s.answer serde run) ∧
      (Answering (s.answer serde run) ↔ s.Fitting (.answer run)) := by
  cases hbusy : s.busy with
  | none =>
      rw [answer, Fitting, hbusy]
      exact ⟨hq, ⟨fun _ n hn => (by cases hn), fun _ => h⟩⟩
  | some n =>
      obtain ⟨r, hr, hslot⟩ := hq.fresh n (.inr hbusy)
      have hcurrent : s.current = some n :=
        (hq.current (by rw [hbusy]; rfl)).trans hbusy
      have hnq : n ∉ s.queue := (hq.apart n hcurrent).1
      obtain ⟨handled, hanswer⟩ := @answer_eq serde s n r run hbusy hr
      have hdone := queued_done hq (s.handler.handle serde run r.request).1 handled
      rw [hanswer, Fitting, hbusy]
      simp only [Option.mem_def, Option.some.injEq, forall_eq', hr]
      cases hm : r.request.isInitialized with
      | true =>
          have hempty : (s.handler.handle serde run r.request).2 = .empty :=
            RequestHandler.handle_initialized hm
          rw [send_of_empty (by rw [hempty]; rfl)]
          refine ⟨hdone, (answering_suppressed h hbusy hnq hr hslot _ _).trans ?_⟩
          simp
      | false =>
          obtain ⟨hid, hkeep⟩ : RequestHandler.Answers r.request
            (s.handler.handle serde run r.request).2 :=
              RequestHandler.answers_handle (of_decide_eq_false hm)
          have hset := @Queued.setSlot _ n r hdone (fun hk => hk.elim hnq (by simp [done]))
            (r.slot.send (s.handler.handle serde run r.request).2)
          have hsend := @send_of_current (s.done (s.handler.handle serde run r.request).1 handled)
            n r _ hkeep hcurrent hr
          rw [hsend]
          exact ⟨⟨fun hb => (by cases hb), hset.fresh, fun k hk => (by cases hk), hset.nodup⟩,
            fun _ _ => rfl, fun _ => answering_sent h hbusy hr hid _ _⟩

/-- A response that is there, or that the sender of is gone, is for a request that
has been handled. -/
theorem Queued.not_queued (hq : Queued s) (hr : s.requests[n]? = some r)
    (hslot : r.slot ≠ .new r.request) : ¬ (n ∈ s.queue ∨ s.busy = some n) := by
  intro hk
  obtain ⟨r', hr', hnew⟩ := hq.fresh n hk
  rw [hr] at hr'
  injection hr' with hr'
  rw [← hr'] at hnew
  exact hslot hnew

theorem answering_forwarded (h : Answering s) (hq : Queued s) (hr : s.requests[n]? = some r)
    (hnew : r.slot ≠ .new r.request) (hdropped : r.slot ≠ .dropped) :
    Answering (s.setSlot n r .forwarded) ∧ Queued (s.setSlot n r .forwarded) := by
  refine ⟨h.setSlot hr (by simp) (fun resp hfilled => (by cases hfilled)) (fun hid => ?_),
    hq.setSlot (hq.not_queued hr hnew) _⟩
  exact absurd (h.silent n r hr hid) hdropped

theorem answering_forward (h : Answering s) (hq : Queued s) (hr : s.requests[n]? = some r)
    (hnew : r.slot ≠ .new r.request) (hdropped : r.slot ≠ .dropped) (resp : JsonRpcResponse) :
    Answering (s.forward n r resp) ∧ Queued (s.forward n r resp) := by
  obtain ⟨hset, hqset⟩ := answering_forwarded h hq hr hnew hdropped
  rw [forward]
  split
  · rw [touch_eq]
    exact ⟨hset.of_eq rfl rfl rfl rfl, hqset.of_eq rfl rfl rfl rfl⟩
  · exact ⟨hset, hqset⟩

theorem answering_respond (h : Answering s) (hq : Queued s) (n : Nat) :
    Answering (s.respond n) ∧ Queued (s.respond n) := by
  have hne : ∀ (req : JsonRpcRequest) (slot : ResponseSlot), slot ≠ .dropped → slot ≠ .waiting →
      slot ≠ .new req := by
    intro req slot hdropped hwaiting
    rw [ResponseSlot.new]
    split <;> assumption
  rw [respond]
  split
  · next r hr =>
      split
      · next resp hslot =>
          exact answering_forward h hq hr (hne _ _ (by simp [hslot]) (by simp [hslot]))
            (by simp [hslot]) resp
      · next hslot =>
          have hnew : r.slot ≠ .new r.request := hne _ _ (by simp [hslot]) (by simp [hslot])
          split
          · exact answering_forward h hq hr hnew (by simp [hslot]) _
          · exact answering_forwarded h hq hr hnew (by simp [hslot])
      · exact ⟨h, hq⟩
      · exact ⟨h, hq⟩
      · exact ⟨h, hq⟩
  · exact ⟨h, hq⟩

theorem answering_poll (h : Answering s) (hq : Queued s) (session : Nat) :
    Answering (s.poll session) ∧ Queued (s.poll session) := by
  have hstream : ∀ stream, Answering (s.setStream session stream) ∧
      Queued (s.setStream session stream) := fun stream =>
    ⟨h.of_eq rfl rfl rfl rfl, hq.of_eq rfl rfl rfl rfl⟩
  rw [poll]
  split
  · split
    · exact hstream _
    · split
      · exact hstream _
      · split
        · exact ⟨h, hq⟩
        · exact hstream _
    · rw [touch_eq]
      exact ⟨h.of_eq rfl rfl rfl rfl, hq.of_eq rfl rfl rfl rfl⟩
    · exact ⟨h, hq⟩
  · exact ⟨h, hq⟩

theorem answering_step (h : Answering s) (hq : Queued s) (e : SseEvent) :
    Queued (s.step serde e) ∧ (Answering (s.step serde e) ↔ s.Fitting e) := by
  have hkeeps : ∀ {t : SseServer}, Answering t ∧ Queued t →
      Queued t ∧ (Answering t ↔ True) := fun ht => ⟨ht.2, fun _ => trivial, fun _ => ht.1⟩
  have hframe : ∀ {t : SseServer}, t.requests = s.requests → t.queue = s.queue →
      t.busy = s.busy → t.current = s.current → Queued t ∧ (Answering t ↔ True) :=
    fun hr hqueue hb hc => hkeeps ⟨h.of_eq hr hqueue hb hc, hq.of_eq hr hqueue hb hc⟩
  cases e with
  | answer run => exact answering_answer h hq run
  | recv => exact hkeeps (answering_recv h hq)
  | post session req => exact hkeeps (answering_post h hq session req)
  | respond n => exact hkeeps (answering_respond h hq n)
  | poll session => exact hkeeps (answering_poll h hq session)
  | connect =>
      rw [step, connect]
      split <;> exact hframe rfl rfl rfl rfl
  | register =>
      rw [step, register]
      split <;> exact hframe rfl rfl rfl rfl
  | disconnect session => exact hframe rfl rfl rfl rfl
  | collect => exact hframe rfl rfl rfl rfl
  | wait n => exact hframe rfl rfl rfl rfl

/-! ### Runs -/

/-- Of what comes from outside, a body that is refused is handled by nobody. -/
def FittingInput (s : SseServer) : SseInput → Prop
  | .body _ _ => True
  | .event e => s.Fitting e

theorem answering_input (h : Answering s) (hq : Queued s) (i : SseInput) :
    Queued (s.input parse serde i) ∧ (Answering (s.input parse serde i) ↔ s.FittingInput i) := by
  cases i with
  | body session text =>
      rw [input]
      cases parse text with
      | error e => exact ⟨hq, fun _ => trivial, fun _ => h⟩
      | ok req => exact answering_step h hq (.post session req)
  | event e => exact answering_step h hq e

theorem answering_start (handler : RequestHandler) (maxConnections sessionTtl : Nat) :
    Answering (start handler maxConnections sessionTtl) ∧
      Queued (start handler maxConnections sessionTtl) where
  left := ⟨fun h => (by cases h), fun _ _ h => (by cases h), fun _ _ _ h => (by cases h),
    fun _ _ h => (by cases h)⟩
  right := ⟨fun h => (by cases h), fun _ h => (by rcases h with h | h <;> cases h),
    fun _ h => (by cases h), List.nodup_nil⟩

/-- The loop answers all along a run exactly if it never handles
`notifications/initialized` with an id. -/
theorem answering_run (handler : RequestHandler) (maxConnections sessionTtl : Nat)
    (inputs : List SseInput) :
    (∀ n, Answering ((inputs.take n).foldl (input parse serde)
        (start handler maxConnections sessionTtl))) ↔
      Along (input parse serde) FittingInput (start handler maxConnections sessionTtl) inputs := by
  obtain ⟨hstart, hqstart⟩ := answering_start handler maxConnections sessionTtl
  have hstep (s : SseServer) (i : SseInput) (hq : Queued s) (h : Answering s) :
      Queued (s.input parse serde i) ∧ (Answering (s.input parse serde i) ↔ s.FittingInput i) :=
    answering_input h hq i
  exact along_iff_forall_good hstep hqstart hstart inputs

end SseServer

/-! ## Both transports -/

/-- Over standard input the server answers what it should, and nothing else, if
every line decodes and the method of every message fits its id; over SSE, where a
body that does not decode is refused, if no message with an id is
`notifications/initialized`. -/
theorem answers_iff (toolkit : ToolKit) (serverInfo : ServerInfo) (capabilities : Json)
    (protocolVersion : String) :
    let handler := RequestHandler.new toolkit serverInfo capabilities protocolVersion
    (∀ lines : List (StdinLine × ToolRun),
      ((handler.runLoop parse serde lines).2 = .ok () ∧
          (handler.runLoop parse serde lines).1.map JsonRpcResponse.id =
            (asked parse lines).map some) ↔
        ∀ line ∈ lines, ∃ req, StdioServerTransport.recv parse line.1 = .ok req ∧
          req.answerable = true) ∧
      ∀ (maxConnections sessionTtl : Nat) (inputs : List SseInput),
        (∀ n, ((inputs.take n).foldl (SseServer.input parse serde)
            (.start handler maxConnections sessionTtl)).Answering) ↔
          Along (SseServer.input parse serde) SseServer.FittingInput
            (.start handler maxConnections sessionTtl) inputs :=
  ⟨fun lines => RequestHandler.runLoop_iff lines _, SseServer.answering_run _⟩

/-- A request with an id whose method is that of the notification. -/
def initializedLine : String :=
  "\x7b\"jsonrpc\":\"2.0\",\"id\":7,\"method\":\"notifications/initialized\"\x7d"

/-- A message without an id that asks for the tools. -/
def listLine : String := "\x7b\"jsonrpc\":\"2.0\",\"method\":\"tools/list\"\x7d"

def brokenLine : String := "\x7b"

/-- The parser, as far as these lines. -/
def plainParser : RequestParser := fun line =>
  if line = initializedLine then .ok (.new (.number 7) "notifications/initialized" none)
  else if line = listLine then .ok (.notification "tools/list" none)
  else .error "EOF while parsing an object at line 1 column 1"

def plainHandler : RequestHandler :=
  .new SseServer.echoKit ⟨"pawbun", "0.1.0"⟩ (.obj []) "2024-11-05"

/-- A line that is broken ends the loop, a notification that is not the one the
handler knows is answered, and a request by the name of that one is not, over
either transport. -/
theorem not_answers :
    (¬ ∀ (parse : RequestParser) (serde : Decoders) (handler : RequestHandler)
      (lines : List (StdinLine × ToolRun)), (handler.runLoop parse serde lines).2 = .ok ()) ∧
    (¬ ∀ (parse : RequestParser) (serde : Decoders) (handler : RequestHandler)
      (lines : List (StdinLine × ToolRun)),
        (handler.runLoop parse serde lines).1.map JsonRpcResponse.id =
          (asked parse lines).map some) ∧
    ¬ ∀ (parse : RequestParser) (serde : Decoders) (handler : RequestHandler)
      (maxConnections sessionTtl : Nat) (inputs : List SseInput),
        (inputs.foldl (SseServer.input parse serde)
          (.start handler maxConnections sessionTtl)).Answering := by
  refine ⟨fun h => ?_, fun h => ?_, fun h => ?_⟩
  · have hend := h plainParser SseServer.plainDecoders plainHandler
      [(.text brokenLine, SseServer.echo)]
    have herror : (plainHandler.runLoop plainParser SseServer.plainDecoders
        [(.text brokenLine, SseServer.echo)]).2 =
        .error (.serialization "EOF while parsing an object at line 1 column 1") := rfl
    rw [herror] at hend
    cases hend
  · have hids := h plainParser SseServer.plainDecoders plainHandler
      [(.text listLine, SseServer.echo)]
    have hasked : asked plainParser [(.text listLine, SseServer.echo)] = [] := rfl
    rw [hasked] at hids
    cases hids
  · have hall := h plainParser SseServer.plainDecoders plainHandler 100 30000
      [.event .connect, .event .register, .body 0 initializedLine, .event .recv,
        .event (.answer SseServer.echo)]
    obtain ⟨r, hr, hslot⟩ : ∃ r, ([SseInput.event .connect, .event .register,
        .body 0 initializedLine, .event .recv, .event (.answer SseServer.echo)].foldl
          (SseServer.input plainParser SseServer.plainDecoders)
          (.start plainHandler 100 30000)).requests[0]? = some r ∧ r.slot = .waiting :=
      ⟨_, rfl, rfl⟩
    refine hall.replied 0 r hr ?_ ?_ hslot
    · show 0 ∉ ([] : List Nat)
      exact List.not_mem_nil
    · show (none : Option Nat) ≠ some 0
      simp

end Pandaria.Mcp
