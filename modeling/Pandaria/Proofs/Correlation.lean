import Pandaria.Lib.Run
import Pandaria.Mcp.Adapter

/-!
# What a client takes for its answer

Over standard input and output every request takes one line, the notification of
`connect` too, for which the server writes none. So the client keeps step with a
server that writes one notification of its own, after it has answered
`initialize` and before it answers anything else, and with no other: without it
`connect` does not return, and with another one the calls take each other's lines.

Over SSE a response goes where its id says, and every way out of a request takes
its route along but one: a POST that cannot be sent.
-/

namespace Pandaria.Mcp

open Pandaria.Ai (Json)
open Pandaria.Lib

namespace McpClient

/-- What a request has returned, if it is a response, is that with its id. -/
def Paired (c : McpClient) : Prop :=
  ∀ (req : JsonRpcRequest) (resp : JsonRpcResponse), (req, .ok resp) ∈ c.returned →
    resp.id = req.id

variable {c : McpClient} {req : JsonRpcRequest}

theorem Paired.onReturn (h : c.Paired) {result : Except TransportError JsonRpcResponse}
    (hresult : ∀ resp, result = .ok resp → resp.id = req.id) :
    (c.onReturn req result).Paired := by
  intro req' resp hmem
  rcases List.mem_append.mp hmem with hmem | hmem
  · exact h req' resp hmem
  · rw [List.mem_singleton, Prod.mk.injEq] at hmem
    rw [hmem.1]
    exact hresult resp hmem.2.symm

/-- When a call is made, and what its request is. -/
theorem next_eq_some {call : ClientCall} {client : McpClient}
    (h : c.next call = some (client, req)) :
    client.stage = c.stage ∧ client.returned = c.returned ∧
      (c.stage = .connecting ∧ req = initRequest ∨
        c.stage = .introduced ∧ req = initializedRequest ∨
        c.stage = .ready ∧ req.id.isSome = true) := by
  unfold next at h
  split at h
  · next hstage =>
      cases h
      exact ⟨rfl, rfl, .inl ⟨hstage, rfl⟩⟩
  · next hstage =>
      cases h
      exact ⟨rfl, rfl, .inr (.inl ⟨hstage, rfl⟩)⟩
  · next hstage =>
      cases h
      exact ⟨rfl, rfl, .inr (.inr ⟨hstage, rfl⟩)⟩
  · next hstage =>
      cases h
      exact ⟨rfl, rfl, .inr (.inr ⟨hstage, rfl⟩)⟩
  · cases h

end McpClient

/-! ## Standard input and output -/

namespace StdioClient

variable {s : StdioClient}

/-- The server writes a notification when it has answered `initialize` and nothing
else, and none after that. -/
def Greeting (s : StdioClient) : StdioEvent → Prop
  | .notify => s.written = 1
  | _ => True

instance (s : StdioClient) (e : StdioEvent) : Decidable (s.Greeting e) :=
  match e with
  | .notify => inferInstanceAs (Decidable (s.written = 1))
  | .call _ | .respond _ _ | .exit | .read => .isTrue trivial

/-- A request with an id is either to be answered or has been, and its answer is the
next line; of a process that has gone there is nothing to come. -/
def Owed (s : StdioClient) (req : JsonRpcRequest) (rest : List JsonRpcResponse) : Prop :=
  s.pipe = [] ∧ s.unanswered = (if s.ended then [] else [req]) ∨
    s.unanswered = [] ∧ ∃ resp, resp.id = req.id ∧ s.pipe = resp :: rest

/-- Where the client and the server are. The notification of the server is the line
that the notification of the client takes. -/
def InStep (s : StdioClient) : Prop :=
  match s.client.stage, s.waiting with
  | .connecting, none => s.written = 0 ∧ s.pipe = [] ∧ s.unanswered = []
  | .connecting, some req =>
      req.id.isSome = true ∧
        (s.written = s.pipe.length ∧ s.Owed req [] ∨ s.written = 2 ∧ s.unanswered = [] ∧
          ∃ resp, resp.id = req.id ∧ s.pipe = [resp, .empty])
  | .introduced, waiting =>
      (∀ req, waiting = some req → req.id = none) ∧ s.unanswered = [] ∧
        (s.written = 1 ∧ s.pipe = [] ∨ s.written = 2 ∧ s.pipe = [.empty])
  | .ready, none => 2 ≤ s.written ∧ s.pipe = [] ∧ s.unanswered = []
  | .ready, some req => req.id.isSome = true ∧ 2 ≤ s.written ∧ s.Owed req []
  | .failed _, waiting => waiting = none

/-- Nothing is to come, from the server or out of the pipe. -/
def Quiet (s : StdioClient) : Prop := s.unanswered = [] ∧ s.pipe = [] ∧ s.ended = false

theorem inStep_call (h : s.InStep) (call : ClientCall) : (s.call call).InStep := by
  rw [StdioClient.call]
  split
  · next client req hw hnext =>
      obtain ⟨hstage, -, hcall⟩ := McpClient.next_eq_some hnext
      dsimp only
      by_cases hended : s.ended = true
      · rw [if_pos hended]
        rcases hcall with ⟨hnow, -⟩ | ⟨hnow, -⟩ | ⟨hnow, -⟩
        · simp [InStep, finish, McpClient.onReturn, hstage, hnow, McpClient.after]
        · simp [InStep, finish, McpClient.onReturn, hstage, hnow, McpClient.after]
        · simp only [InStep, hnow, hw] at h
          simpa [InStep, finish, McpClient.onReturn, hstage, hnow, McpClient.after] using h
      · rw [if_neg hended]
        rcases hcall with ⟨hnow, rfl⟩ | ⟨hnow, rfl⟩ | ⟨hnow, hid⟩
        · simp only [InStep, hnow, hw] at h
          obtain ⟨hwritten, hpipe, hunanswered⟩ := h
          simp only [InStep, hstage, hnow]
          refine ⟨rfl, .inl ⟨?_, .inl ⟨hpipe, ?_⟩⟩⟩
          · rw [hwritten, hpipe]
            rfl
          · rw [hunanswered, if_neg hended]
            rfl
        · simp only [InStep, hnow, hw] at h
          simp only [InStep, hstage, hnow]
          exact ⟨fun req hreq => by cases hreq; rfl, h.2⟩
        · simp only [InStep, hnow, hw] at h
          obtain ⟨hwritten, hpipe, hunanswered⟩ := h
          simp only [InStep, hstage, hnow, hid]
          refine ⟨trivial, hwritten, .inl ⟨hpipe, ?_⟩⟩
          rw [hunanswered, if_neg hended]
          rfl
  · exact h

/-- A request that is owed an answer is given it. -/
theorem Owed.respond {req req' : JsonRpcRequest} {n : Nat} (h : s.Owed req [])
    (hn : s.unanswered[n]? = some req') (resp : JsonRpcResponse) (hid : resp.id = req'.id) :
    req' = req ∧ s.pipe = [] ∧
      ({ s with unanswered := s.unanswered.eraseIdx n }.write resp).Owed req [] := by
  rcases h with ⟨hpipe, hun⟩ | ⟨hun, -⟩
  · split at hun
    · rw [hun] at hn
      cases hn
    · rw [hun] at hn
      cases n with
      | zero =>
          injection hn with hn
          subst hn
          refine ⟨rfl, hpipe, .inr ⟨?_, resp, hid, ?_⟩⟩
          · show s.unanswered.eraseIdx 0 = []
            rw [hun]
            rfl
          · show s.pipe ++ [resp] = [resp]
            rw [hpipe]
            rfl
      | succ n => cases hn
  · rw [hun] at hn
    cases hn

theorem response_id (req : JsonRpcRequest) (answer : Except JsonRpcError Json) :
    (response req answer).id = req.id := by
  cases answer <;> rfl

theorem inStep_respond (h : s.InStep) (n : Nat) (answer : Except JsonRpcError Json) :
    (s.respond n answer).InStep := by
  rw [StdioClient.respond]
  split
  · next req' hn =>
      have hsome : s.unanswered ≠ [] := by
        intro he
        rw [he] at hn
        cases hn
      have hid := response_id req' answer
      cases hstage : s.client.stage with
      | connecting =>
          cases hw : s.waiting with
          | none =>
              simp only [InStep, hstage, hw] at h
              exact absurd h.2.2 hsome
          | some req =>
              simp only [InStep, hstage, hw] at h
              rcases h with ⟨hreq, ⟨hwritten, howed⟩ | ⟨-, hun, -⟩⟩
              · obtain ⟨-, hpipe, hafter⟩ := howed.respond hn _ hid
                simp only [InStep, write, hstage]
                refine ⟨hreq, .inl ⟨?_, hafter⟩⟩
                rw [hwritten, List.length_append]
                rfl
              · exact absurd hun hsome
      | introduced =>
          simp only [InStep, hstage] at h
          exact absurd h.2.1 hsome
      | ready =>
          cases hw : s.waiting with
          | none =>
              simp only [InStep, hstage, hw] at h
              exact absurd h.2.2 hsome
          | some req =>
              simp only [InStep, hstage, hw] at h
              obtain ⟨hreq, hwritten, howed⟩ := h
              simp only [InStep, write, hstage]
              exact ⟨hreq, by omega, (howed.respond hn _ hid).2.2⟩
      | failed e =>
          simp only [InStep, hstage] at h
          simpa only [InStep, write, hstage] using h
  · exact h

theorem inStep_notify (h : s.InStep) (hone : s.written = 1) : (s.write .empty).InStep := by
  cases hstage : s.client.stage with
  | connecting =>
      cases hw : s.waiting with
      | none =>
          simp only [InStep, hstage, hw] at h
          omega
      | some req =>
          simp only [InStep, hstage, hw] at h
          rcases h with ⟨hreq, ⟨hwritten, howed⟩ | ⟨hwritten, -⟩⟩
          · rcases howed with ⟨hpipe, -⟩ | ⟨hun, resp, hid, hpipe⟩
            · rw [hpipe, hone] at hwritten
              cases hwritten
            · simp only [InStep, write, hstage, hw]
              refine ⟨hreq, .inr ⟨by omega, hun, resp, hid, ?_⟩⟩
              rw [hpipe]
              rfl
          · omega
  | introduced =>
      simp only [InStep, hstage] at h
      obtain ⟨hreq, hun, ⟨-, hpipe⟩ | ⟨hwritten, -⟩⟩ := h
      · simp only [InStep, write, hstage]
        refine ⟨hreq, hun, .inr ⟨by omega, ?_⟩⟩
        rw [hpipe]
        rfl
      · omega
  | ready =>
      cases hw : s.waiting with
      | none =>
          simp only [InStep, hstage, hw] at h
          omega
      | some req =>
          simp only [InStep, hstage, hw] at h
          omega
  | failed e =>
      simp only [InStep, hstage] at h
      simpa only [InStep, write, hstage] using h

/-- The process as it goes. -/
def gone (s : StdioClient) : StdioClient := { s with ended := true, unanswered := [] }

theorem Owed.gone {req : JsonRpcRequest} (h : s.Owed req []) : s.gone.Owed req [] := by
  rcases h with ⟨hpipe, -⟩ | ⟨-, hresp⟩
  · exact .inl ⟨hpipe, rfl⟩
  · exact .inr ⟨rfl, hresp⟩

theorem inStep_exit (h : s.InStep) : s.gone.InStep := by
  cases hstage : s.client.stage with
  | connecting =>
      cases hw : s.waiting with
      | none =>
          simp only [InStep, hstage, hw] at h
          simpa only [InStep, StdioClient.gone, hstage, hw, and_true] using ⟨h.1, h.2.1⟩
      | some req =>
          simp only [InStep, hstage, hw] at h
          simp only [InStep, StdioClient.gone, hstage, hw]
          rcases h with ⟨hreq, ⟨hwritten, howed⟩ | ⟨hwritten, -, hresp⟩⟩
          · exact ⟨hreq, .inl ⟨hwritten, howed.gone⟩⟩
          · exact ⟨hreq, .inr ⟨hwritten, trivial, hresp⟩⟩
  | introduced =>
      simp only [InStep, hstage] at h
      simp only [InStep, StdioClient.gone, hstage]
      exact ⟨h.1, trivial, h.2.2⟩
  | ready =>
      cases hw : s.waiting with
      | none =>
          simp only [InStep, hstage, hw] at h
          simpa only [InStep, StdioClient.gone, hstage, hw, and_true] using ⟨h.1, h.2.1⟩
      | some req =>
          simp only [InStep, hstage, hw] at h
          simp only [InStep, StdioClient.gone, hstage, hw]
          exact ⟨h.1, h.2.1, h.2.2.gone⟩
  | failed e =>
      simp only [InStep, hstage] at h
      simpa only [InStep, StdioClient.gone, hstage] using h

/-- What is read is the answer, and then nothing is under way. -/
theorem inStep_read (h : s.InStep) (hpaired : s.client.Paired) :
    s.read.InStep ∧ s.read.client.Paired := by
  rw [StdioClient.read]
  split
  · exact ⟨h, hpaired⟩
  · next req hw =>
      split
      · next resp pipe hpipe =>
          cases hstage : s.client.stage with
          | connecting =>
              simp only [InStep, hstage, hw] at h
              obtain ⟨hid, hwritten, hun, hrest⟩ : resp.id = req.id ∧
                  1 ≤ s.written ∧ s.unanswered = [] ∧
                    (s.written = 1 ∧ pipe = [] ∨ s.written = 2 ∧ pipe = [.empty]) := by
                rcases h with ⟨-, ⟨hwritten, ⟨hnil, -⟩ | ⟨hun, r, hr, hone⟩⟩ |
                  ⟨hwritten, hun, r, hr, htwo⟩⟩
                · rw [hpipe] at hnil
                  cases hnil
                · rw [hone] at hpipe hwritten
                  cases hpipe
                  exact ⟨hr, by rw [hwritten]; exact Nat.le_refl _, hun, .inl ⟨hwritten, rfl⟩⟩
                · rw [htwo] at hpipe
                  cases hpipe
                  exact ⟨hr, by omega, hun, .inr ⟨hwritten, rfl⟩⟩
              refine ⟨?_, hpaired.onReturn fun r hr => by cases hr; exact hid⟩
              cases herr : resp.error with
              | some err => simp [InStep, finish, McpClient.onReturn, McpClient.after, hstage, herr]
              | none =>
                  simpa [InStep, finish, McpClient.onReturn, McpClient.after, hstage, herr]
                    using ⟨hun, hrest⟩
          | introduced =>
              simp only [InStep, hstage, hw] at h
              obtain ⟨hnone, hun, ⟨-, hnil⟩ | ⟨hwritten, hone⟩⟩ := h
              · rw [hpipe] at hnil
                cases hnil
              · rw [hone] at hpipe
                cases hpipe
                refine ⟨?_, hpaired.onReturn fun r hr => by cases hr; exact (hnone req rfl).symm⟩
                simp [InStep, finish, McpClient.onReturn, McpClient.after, hstage, hun, hwritten]
          | ready =>
              simp only [InStep, hstage, hw] at h
              obtain ⟨-, hwritten, ⟨hnil, -⟩ | ⟨hun, r, hr, hone⟩⟩ := h
              · rw [hpipe] at hnil
                cases hnil
              · rw [hone] at hpipe
                cases hpipe
                refine ⟨?_, hpaired.onReturn fun r' hr' => by cases hr'; exact hr⟩
                simpa [InStep, finish, McpClient.onReturn, McpClient.after, hstage, hun]
                  using hwritten
          | failed e =>
              simp only [InStep, hstage] at h
              rw [hw] at h
              cases h
      · next hpipe =>
          by_cases hended : s.ended = true
          · rw [if_pos hended]
            refine ⟨?_, hpaired.onReturn fun r hr => by cases hr⟩
            cases hstage : s.client.stage with
            | connecting =>
                simp [InStep, finish, McpClient.onReturn, McpClient.after, hstage]
            | introduced =>
                simp [InStep, finish, McpClient.onReturn, McpClient.after, hstage]
            | ready =>
                simp only [InStep, hstage, hw] at h
                obtain ⟨-, hwritten, ⟨-, hun⟩ | ⟨hun, -⟩⟩ := h
                · rw [if_pos hended] at hun
                  simpa [InStep, finish, McpClient.onReturn, McpClient.after, hstage, hpipe, hun]
                    using hwritten
                · simpa [InStep, finish, McpClient.onReturn, McpClient.after, hstage, hpipe, hun]
                    using hwritten
            | failed e =>
                simp [InStep, finish, McpClient.onReturn, McpClient.after, hstage]
          · rw [if_neg hended]
            exact ⟨h, hpaired⟩

theorem call_returned (hpaired : s.client.Paired) (call : ClientCall) :
    (s.call call).client.Paired := by
  rw [StdioClient.call]
  split
  · next client req hw hnext =>
      have hsame : client.Paired := by
        intro req' resp hmem
        rw [(McpClient.next_eq_some hnext).2.1] at hmem
        exact hpaired req' resp hmem
      dsimp only
      by_cases hended : s.ended = true
      · rw [if_pos hended]
        exact hsame.onReturn fun r hr => by cases hr
      · rw [if_neg hended]
        exact hsame
  · exact hpaired

theorem inStep_step (h : s.InStep ∧ s.client.Paired) {e : StdioEvent} (he : s.Greeting e) :
    (s.step e).InStep ∧ (s.step e).client.Paired := by
  cases e with
  | call call => exact ⟨inStep_call h.1 call, call_returned h.2 call⟩
  | respond n answer =>
      refine ⟨inStep_respond h.1 n answer, ?_⟩
      rw [step, StdioClient.respond]
      split <;> exact h.2
  | notify =>
      rw [step]
      split
      · exact h
      · exact ⟨inStep_notify h.1 he, h.2⟩
  | exit => exact ⟨inStep_exit h.1, h.2⟩
  | read => exact inStep_read h.1 h.2

/-- In every run in which the server greets the client, and else writes nothing of
its own, every answer is that to its request; and if there is nothing to come,
the client waits only because it has not been greeted. -/
theorem paired_run {es : List StdioEvent} (hes : Along step Greeting start es) :
    (es.foldl step start).InStep ∧ (es.foldl step start).client.Paired := by
  have hstep (s : StdioClient) (e : StdioEvent) (he : s.Greeting e)
      (h : s.InStep ∧ s.client.Paired) : (s.step e).InStep ∧ (s.step e).client.Paired :=
    inStep_step h he
  have hstart : start.InStep ∧ start.client.Paired :=
    ⟨⟨rfl, rfl, rfl⟩, fun req resp hmem => by cases hmem⟩
  exact hes.invariant hstep hstart

/-- `connect` has not returned before the greeting is there. -/
theorem InStep.two_le (h : s.InStep) (hready : s.client.stage = .ready) : 2 ≤ s.written := by
  cases hw : s.waiting with
  | none =>
      simp only [InStep, hready, hw] at h
      exact h.1
  | some req =>
      simp only [InStep, hready, hw] at h
      exact h.2.1

/-- And with the greeting there is always something to come for a client that
waits. -/
theorem InStep.waiting_eq_none (h : s.InStep) (hquiet : s.Quiet) (htwo : 2 ≤ s.written) :
    s.waiting = none := by
  obtain ⟨hun, hpipe, hended⟩ := hquiet
  have howed : ∀ req rest, ¬ s.Owed req rest := by
    intro req rest howed
    rcases howed with ⟨-, hone⟩ | ⟨-, resp, -, hone⟩
    · rw [hun, hended] at hone
      cases hone
    · rw [hpipe] at hone
      cases hone
  cases hw : s.waiting with
  | none => rfl
  | some req =>
      cases hstage : s.client.stage with
      | connecting =>
          simp only [InStep, hstage, hw] at h
          rcases h with ⟨-, ⟨-, h⟩ | ⟨-, -, resp, -, h⟩⟩
          · exact absurd h (howed _ _)
          · rw [hpipe] at h
            cases h
      | introduced =>
          simp only [InStep, hstage] at h
          rcases h with ⟨-, -, ⟨hone, -⟩ | ⟨-, h⟩⟩
          · omega
          · rw [hpipe] at h
            cases h
      | ready =>
          simp only [InStep, hstage, hw] at h
          exact absurd h.2.2 (howed _ _)
      | failed e =>
          simp only [InStep, hstage] at h
          rw [← hw]
          exact h

end StdioClient

/-! ## SSE -/

namespace Reader

variable {r r' : Reader}

/-- What the reader does to the routes: it takes some away, each with a response
that has its id. -/
structure Settles (r r' : Reader) : Prop where
  routes : ∀ id channel, r'.routes.get? id = some channel → r.routes.get? id = some channel
  kept : ∀ sent ∈ r.routed, sent ∈ r'.routed
  routed : ∀ sent ∈ r'.routed, sent ∈ r.routed ∨
    r.routes.get? sent.2.id = some sent.1 ∧ r'.routes.get? sent.2.id = none
  answered : ∀ id channel, r.routes.get? id = some channel →
    r'.routes.get? id = some channel ∨ ∃ resp, resp.id = id ∧ (channel, resp) ∈ r'.routed

theorem settles_of_eq (hroutes : r'.routes = r.routes) (hrouted : r'.routed = r.routed) :
    Settles r r' where
  routes id channel h := by rwa [hroutes] at h
  kept sent h := by rwa [hrouted]
  routed sent h := .inl (by rwa [hrouted] at h)
  answered id channel h := .inl (by rwa [hroutes])

theorem settles_onEvent {w : Web} {e : ClientEvent} (h : r.onEvent w e = .ok r') :
    Settles r r' := by
  unfold onEvent at h
  split at h
  · split at h
    · cases h
    · cases h
      exact settles_of_eq rfl rfl
  · split at h
    · cases h
      exact settles_of_eq rfl rfl
    · next resp hresp =>
        split at h
        · cases h
          exact settles_of_eq rfl rfl
        · next channel hchannel =>
            cases h
            refine ⟨fun id c hid => ?_, fun sent hsent => List.mem_append_left _ hsent,
              fun sent hsent => ?_, fun id c hid => ?_⟩
            · rw [Table.get?_erase] at hid
              split at hid
              · cases hid
              · exact hid
            · rcases List.mem_append.mp hsent with hsent | hsent
              · exact .inl hsent
              · rw [List.mem_singleton.mp hsent]
                exact .inr ⟨hchannel, by rw [Table.get?_erase, if_pos rfl]⟩
            · by_cases hsame : id = resp.id
              · rw [hsame, hchannel] at hid
                injection hid with hid
                subst hid
                exact .inr ⟨resp, hsame.symm, List.mem_append_right _ List.mem_cons_self⟩
              · refine .inl ?_
                rw [Table.get?_erase, if_neg hsame]
                exact hid

theorem settles_drain : Settles r r.drain where
  routes id channel h := by cases h
  kept sent h := List.mem_append_left _ h
  routed sent h := by
    rcases List.mem_append.mp h with h | h
    · exact .inl h
    · obtain ⟨⟨id, channel⟩, hrow, rfl⟩ := List.mem_map.mp h
      exact .inr ⟨Table.get?_eq_some.mpr hrow, rfl⟩
  answered id channel h :=
    .inr ⟨_, rfl, List.mem_append_right _ (List.mem_map.mpr ⟨_, Table.get?_eq_some.mp h, rfl⟩)⟩

/-- Channels are used once, for one id, and never again when they have been sent
into. -/
structure Linked (r : Reader) (channels : Nat) : Prop where
  fresh : ∀ id channel, r.routes.get? id = some channel → channel < channels
  used : ∀ sent ∈ r.routed, sent.1 < channels
  single : ∀ id id' channel, r.routes.get? id = some channel → r.routes.get? id' = some channel →
    id = id'
  apart : ∀ id channel, r.routes.get? id = some channel → ∀ sent ∈ r.routed, sent.1 ≠ channel

variable {channels channel : Nat} {id : Option JsonRpcId}

theorem Linked.settles (h : r.Linked channels) (hr : Settles r r') : r'.Linked channels where
  fresh id channel hid := h.fresh id channel (hr.routes id channel hid)
  used sent hsent := by
    rcases hr.routed sent hsent with hold | ⟨hroute, -⟩
    · exact h.used sent hold
    · exact h.fresh _ _ hroute
  single id id' channel hid hid' :=
    h.single id id' channel (hr.routes id channel hid) (hr.routes id' channel hid')
  apart id channel hid sent hsent heq := by
    rcases hr.routed sent hsent with hold | ⟨hroute, hgone⟩
    · exact h.apart id channel (hr.routes id channel hid) sent hold heq
    · rw [heq] at hroute
      rw [h.single _ id channel hroute (hr.routes id channel hid), hid] at hgone
      cases hgone

/-- A channel in which a response with the id can come, and no other. -/
structure Serves (r : Reader) (channel : Nat) (id : Option JsonRpcId) : Prop where
  only : ∀ id', r.routes.get? id' = some channel → id' = id
  named : ∀ sent ∈ r.routed, sent.1 = channel → sent.2.id = id
  reaches : r.routes.get? id = some channel ∨ ∃ resp, resp.id = id ∧ (channel, resp) ∈ r.routed

theorem Serves.settles (h : r.Serves channel id) (hr : Settles r r') : r'.Serves channel id where
  only id' hid' := h.only id' (hr.routes id' channel hid')
  named sent hsent heq := by
    rcases hr.routed sent hsent with hold | ⟨hroute, -⟩
    · exact h.named sent hold heq
    · rw [heq] at hroute
      exact h.only _ hroute
  reaches := by
    rcases h.reaches with hroute | ⟨resp, hid, hsent⟩
    · exact hr.answered id channel hroute
    · exact .inr ⟨resp, hid, hr.kept _ hsent⟩

/-- A channel that nothing else uses. -/
def addRoute (r : Reader) (id : Option JsonRpcId) (channel : Nat) : Reader :=
  { r with routes := r.routes.upsert id fun _ => channel }

theorem get?_addRoute (id' : Option JsonRpcId) :
    (r.addRoute id channel).routes.get? id' =
      if id' = id then some channel else r.routes.get? id' := Table.get?_upsert ..

theorem Linked.addRoute (h : r.Linked channels) (id : Option JsonRpcId) :
    (r.addRoute id channels).Linked (channels + 1) ∧
      (r.addRoute id channels).Serves channels id := by
  have hcases : ∀ id' channel, (r.addRoute id channels).routes.get? id' = some channel →
      id' = id ∧ channel = channels ∨ r.routes.get? id' = some channel ∧ channel < channels := by
    intro id' channel hid'
    rw [get?_addRoute] at hid'
    split at hid'
    · next heq =>
        injection hid' with hid'
        exact .inl ⟨heq, hid'.symm⟩
    · exact .inr ⟨hid', h.fresh id' channel hid'⟩
  refine ⟨⟨fun id' channel hid' => ?_, fun sent hsent => Nat.lt_succ_of_lt (h.used sent hsent),
    fun id₁ id₂ channel h₁ h₂ => ?_, fun id' channel hid' sent hsent => ?_⟩,
    ⟨fun id' hid' => ?_, fun sent hsent heq => ?_, .inl ?_⟩⟩
  · rcases hcases id' channel hid' with ⟨-, rfl⟩ | ⟨-, hlt⟩ <;> omega
  · rcases hcases id₁ channel h₁ with ⟨rfl, rfl⟩ | ⟨hold₁, hlt₁⟩
    · rcases hcases id₂ channel h₂ with ⟨heq, -⟩ | ⟨-, hlt₂⟩
      · exact heq.symm
      · omega
    · rcases hcases id₂ channel h₂ with ⟨-, heq⟩ | ⟨hold₂, -⟩
      · omega
      · exact h.single id₁ id₂ channel hold₁ hold₂
  · have hused := h.used sent hsent
    rcases hcases id' channel hid' with ⟨-, rfl⟩ | ⟨hold, -⟩
    · omega
    · exact h.apart id' channel hold sent hsent
  · rcases hcases id' channels hid' with ⟨heq, -⟩ | ⟨-, hlt⟩
    · exact heq
    · omega
  · have hused := h.used sent hsent
    omega
  · rw [get?_addRoute, if_pos rfl]

/-- A route is taken away when its request gives up. -/
def dropRoute (r : Reader) (id : Option JsonRpcId) : Reader :=
  { r with routes := r.routes.erase id }

theorem get?_dropRoute (id' : Option JsonRpcId) :
    (r.dropRoute id).routes.get? id' = if id' = id then none else r.routes.get? id' :=
  Table.get?_erase ..

theorem Linked.dropRoute (h : r.Linked channels) (id : Option JsonRpcId) :
    (r.dropRoute id).Linked channels := by
  have hold : ∀ id' channel, (r.dropRoute id).routes.get? id' = some channel →
      r.routes.get? id' = some channel := by
    intro id' channel hid'
    rw [get?_dropRoute] at hid'
    split at hid'
    · cases hid'
    · exact hid'
  exact ⟨fun id' channel hid' => h.fresh id' channel (hold id' channel hid'), h.used,
    fun id₁ id₂ channel h₁ h₂ => h.single id₁ id₂ channel (hold _ _ h₁) (hold _ _ h₂),
    fun id' channel hid' => h.apart id' channel (hold id' channel hid')⟩

/-- What is found in a channel. -/
theorem reply_eq_some {resp : JsonRpcResponse} (h : r.reply channel = some resp) :
    (channel, resp) ∈ r.routed := by
  rw [reply, Option.map_eq_some_iff] at h
  obtain ⟨⟨c, resp'⟩, hfind, rfl⟩ := h
  have hc : c = channel := by simpa using List.find?_some hfind
  rw [← hc]
  exact List.mem_of_find?_eq_some hfind

theorem reply_ne_none {resp : JsonRpcResponse} (h : (channel, resp) ∈ r.routed) :
    r.reply channel ≠ none := by
  rw [reply, Ne, Option.map_eq_none_iff, List.find?_eq_none]
  exact fun hall => hall _ h (decide_eq_true rfl)

end Reader

/-- A request with a channel: with its URL, and the number of that. -/
def SsePhase.pending : SsePhase → Option (JsonRpcRequest × String × Nat)
  | .posting req url (some channel) => some (req, url, channel)
  | .waiting req url _ channel => some (req, url, channel)
  | .idle | .handshake _ | .posting _ _ none => none

/-- A request returns the response that it has received, or nothing, or an error. -/
theorem request_eq_ok {values : List (Option String)} {waitEnd : WaitEnd}
    {post : String → JsonRpcRequest → Except String Nat} {reply : ReplyEnd} {req : JsonRpcRequest}
    {resp : JsonRpcResponse} (h : request values waitEnd post reply req = .ok resp) :
    resp.id = req.id ∨ reply = .received resp := by
  unfold request at h
  split at h
  · cases h
  · split at h
    · cases h
    · split at h
      · cases h
      · split at h
        · next hnone =>
            cases h
            exact .inl (Option.isNone_iff_eq_none.mp hnone).symm
        · split at h
          · cases h
          · split at h
            · cases h
              exact .inr rfl
            · cases h
            · cases h

namespace SseClient

variable {s : SseClient} {w : Web}

/-- The channel of a request that is under way. -/
structure Served (s : SseClient) (req : JsonRpcRequest) (url : String) (channel : Nat) : Prop where
  used : channel < s.channels
  serves : s.reader.Serves channel req.id
  url : url.isEmpty = false
  id : req.id.isNone = false

/-- What holds whatever comes from the stream and becomes of the POSTs. -/
structure Wired (s : SseClient) : Prop where
  paired : s.client.Paired
  linked : s.reader.Linked s.channels
  served : ∀ req url channel, s.phase.pending = some (req, url, channel) → s.Served req url channel
  posted : ∀ req url status channel, s.phase = .waiting req url status channel →
    isSuccess status = true

theorem Wired.finish (hs : s.Wired) {req : JsonRpcRequest} {reader : Reader}
    (hreader : reader.Linked s.channels) {result : Except RequestError JsonRpcResponse}
    (hresult : ∀ resp, result = .ok resp → resp.id = req.id) :
    ({ s with reader := reader }.finish req result).Wired where
  paired := by
    refine hs.paired.onReturn fun resp hresp => hresult resp ?_
    cases result with
    | ok r =>
        injection hresp with hresp
        rw [hresp]
    | error e => cases hresp
  linked := hreader
  served req url channel h := by cases h
  posted req url status channel h := by cases h

/-- Whatever the reader does. -/
theorem Wired.settles (hs : s.Wired) {reader : Reader} (hreader : s.reader.Settles reader) :
    { s with reader := reader }.Wired where
  paired := hs.paired
  linked := hs.linked.settles hreader
  served req url channel h :=
    have hserved := hs.served req url channel h
    ⟨hserved.used, hserved.serves.settles hreader, hserved.url, hserved.id⟩
  posted := hs.posted

theorem wired_call (hs : s.Wired) (call : ClientCall) : (s.call call).Wired := by
  rw [SseClient.call]
  split
  · next client req hphase hnext =>
      refine ⟨fun req' resp hmem => ?_, hs.linked, fun _ _ _ h => (by cases h),
        fun _ _ _ _ h => (by cases h)⟩
      rw [(McpClient.next_eq_some hnext).2.1] at hmem
      exact hs.paired req' resp hmem
  · exact hs

theorem wired_look (hs : s.Wired) : s.look.Wired := by
  rw [look]
  split
  · next req url hphase _ =>
      split
      · exact hs.finish hs.linked fun resp hresp =>
          (request_eq_ok hresp).resolve_right fun h => by cases h
      · next hurl =>
          split
          · exact ⟨hs.paired, hs.linked, fun _ _ _ h => (by cases h),
              fun _ _ _ _ h => (by cases h)⟩
          · next hid =>
              obtain ⟨hlinked, hserves⟩ := hs.linked.addRoute req.id
              refine ⟨hs.paired, hlinked, fun req' url' channel h => ?_,
                fun _ _ _ _ h => (by cases h)⟩
              cases h
              exact ⟨Nat.lt_succ_self _, hserves, eq_false_of_ne_true hurl, eq_false_of_ne_true hid⟩
  · exact hs

theorem wired_giveUp (hs : s.Wired) (waitEnd : WaitEnd) : (s.giveUp waitEnd).Wired := by
  rw [giveUp]
  split
  · exact hs.finish hs.linked fun resp hresp =>
      (request_eq_ok hresp).resolve_right fun h => by cases h
  · exact hs

theorem wired_posted (hs : s.Wired) (answer : Except String Nat) : (s.posted answer).Wired := by
  rw [SseClient.posted]
  split
  · next req url channel hphase =>
      have hnamed : ∀ resp, request [some url] .closed (fun _ _ => answer) .closed req = .ok resp →
          resp.id = req.id := fun resp hresp =>
        (request_eq_ok hresp).resolve_right fun h => by cases h
      split
      · exact hs.finish hs.linked hnamed
      · exact hs.finish hs.linked hnamed
      · next status channel =>
          split
          · next hok =>
              refine ⟨hs.paired, hs.linked, fun req' url' channel' h => ?_,
                fun req' url' status' channel' h => ?_⟩
              · cases h
                have hserved := hs.served req url channel (by rw [hphase]; rfl)
                exact ⟨hserved.used, hserved.serves, hserved.url, hserved.id⟩
              · cases h
                exact hok
          · exact hs.finish (hs.linked.dropRoute req.id) hnamed
  · exact hs

theorem wired_receive (hs : s.Wired) (expired : Bool) : (s.receive expired).Wired := by
  rw [receive]
  split
  · next req url status channel hphase =>
      have hserved := hs.served req url channel (by rw [hphase]; rfl)
      split
      · next resp hreply =>
          refine hs.finish hs.linked fun resp' hresp => (request_eq_ok hresp).elim id fun h => ?_
          cases h
          exact hserved.serves.named _ (Reader.reply_eq_some hreply) rfl
      · split
        · exact hs.finish (hs.linked.dropRoute req.id) fun resp hresp =>
            (request_eq_ok hresp).resolve_right fun h => by cases h
        · split
          · exact hs.finish (hs.linked.dropRoute req.id) fun resp hresp =>
              (request_eq_ok hresp).resolve_right fun h => by cases h
          · exact hs
  · exact hs

theorem wired_onEvent (hs : s.Wired) (e : ClientEvent) : (s.onEvent w e).Wired := by
  rw [onEvent]
  split
  · next reader hreader => exact hs.settles (Reader.settles_onEvent hreader)
  · exact hs.settles Reader.settles_drain

theorem wired_step (hs : s.Wired) (e : SseClientEvent) : (s.step w e).Wired := by
  cases e with
  | call call => exact wired_call hs call
  | look => exact wired_look hs
  | giveUp waitEnd => exact wired_giveUp hs waitEnd
  | posted answer => exact wired_posted hs answer
  | event e => exact wired_onEvent hs e
  | lost => exact hs.settles Reader.settles_drain
  | receive => exact wired_receive hs false
  | timeout => exact wired_receive hs true

theorem wired_start : start.Wired where
  paired _ _ h := by cases h
  linked := ⟨fun _ _ h => (by cases h), fun _ h => (by cases h), fun _ _ _ h => (by cases h),
    fun _ _ h => (by cases h)⟩
  served _ _ _ h := by cases h
  posted _ _ _ _ h := by cases h

theorem wired_run (es : List SseClientEvent) : (es.foldl (step w) start).Wired := by
  have hstep (s : SseClient) (e : SseClientEvent) (hs : s.Wired) : (s.step w e).Wired :=
    wired_step hs e
  exact foldl_invariant hstep wired_start es

/-- The response that a request waits for is either still to come, and its route is
there, or is what the request returns when it looks. -/
theorem Wired.delivers (hs : s.Wired) {req : JsonRpcRequest} {url : String} {status channel : Nat}
    (hphase : s.phase = .waiting req url status channel) :
    s.reader.routes.get? req.id = some channel ∨
      ∃ resp, resp.id = req.id ∧
        (s.receive false).client.returned = s.client.returned ++ [(req, .ok resp)] := by
  obtain ⟨-, hserves, hurl, hid⟩ := hs.served req url channel (by rw [hphase]; rfl)
  refine hserves.reaches.imp_right ?_
  rintro ⟨resp, -, hsent⟩
  obtain ⟨resp', hreply⟩ := Option.ne_none_iff_exists'.mp (Reader.reply_ne_none hsent)
  refine ⟨resp', hserves.named _ (Reader.reply_eq_some hreply) rfl, ?_⟩
  have hresult : request [some url] .closed (fun _ _ => .ok status) (.received resp') req =
      .ok resp' := by
    simp [request, awaitPostUrl, hurl, hid, hs.posted req url status channel hphase]
  rw [receive, hphase]
  simp only [hreply, hresult]
  rfl

/-! ### Routes that are left -/

/-- There is no route but that of the request that is under way. -/
def Clear (s : SseClient) : Prop :=
  ∀ id channel, s.reader.routes.get? id = some channel →
    ∃ req url, s.phase.pending = some (req, url, channel)

/-- No POST fails to be sent, unless the reader has taken the route before. -/
def Sent (s : SseClient) : SseClientEvent → Prop
  | .posted (.error _) =>
      match s.phase with
      | .posting req _ (some _) => s.reader.routes.get? req.id = none
      | _ => True
  | _ => True

/-- Without a request under way there is no route. -/
theorem clear_iff_of_pending (hpending : s.phase.pending = none) :
    s.Clear ↔ ∀ id, s.reader.routes.get? id = none := by
  constructor
  · intro h id
    cases hid : s.reader.routes.get? id with
    | none => rfl
    | some channel =>
        obtain ⟨req, url, hsome⟩ := h id channel hid
        rw [hpending] at hsome
        cases hsome
  · intro h id channel hid
    rw [h id] at hid
    cases hid

/-- With one there is its own. -/
theorem Clear.get?_eq_none (hclear : s.Clear) (hs : s.Wired) {req : JsonRpcRequest} {url : String}
    {channel : Nat} (hpending : s.phase.pending = some (req, url, channel))
    {id : Option JsonRpcId} (hid : id ≠ req.id) : s.reader.routes.get? id = none := by
  cases hroute : s.reader.routes.get? id with
  | none => rfl
  | some channel' =>
      obtain ⟨req', url', hsome⟩ := hclear id channel' hroute
      rw [hpending] at hsome
      cases hsome
      exact absurd ((hs.served req url channel hpending).serves.only id hroute) hid

/-- A request that ends and takes its route along. -/
theorem Clear.finish_dropRoute (hclear : s.Clear) (hs : s.Wired) {req : JsonRpcRequest}
    {url : String} {channel : Nat} (hpending : s.phase.pending = some (req, url, channel))
    (result : Except RequestError JsonRpcResponse) :
    ((s.unroute req.id).finish req result).Clear := by
  refine (clear_iff_of_pending rfl).mpr fun id => ?_
  show (s.reader.dropRoute req.id).routes.get? id = none
  rw [Reader.get?_dropRoute]
  split
  · rfl
  · next hid => exact hclear.get?_eq_none hs hpending hid

/-- One that ends with its route as it is. -/
theorem Clear.finish_iff (hclear : s.Clear) (hs : s.Wired) {req : JsonRpcRequest} {url : String}
    {channel : Nat} (hpending : s.phase.pending = some (req, url, channel))
    (result : Except RequestError JsonRpcResponse) :
    (s.finish req result).Clear ↔ s.reader.routes.get? req.id = none := by
  refine (clear_iff_of_pending rfl).trans ⟨fun h => h req.id, fun h id => ?_⟩
  by_cases hid : id = req.id
  · rw [hid]
    exact h
  · exact hclear.get?_eq_none hs hpending hid

/-- Nothing is under way before or after. -/
theorem Clear.of_idle (hclear : s.Clear) (hpending : s.phase.pending = none) {t : SseClient}
    (hreader : t.reader.routes = s.reader.routes) (ht : t.phase.pending = none) : t.Clear := by
  refine (clear_iff_of_pending ht).mpr ?_
  rw [hreader]
  exact (clear_iff_of_pending hpending).mp hclear

theorem Clear.settles (hclear : s.Clear) {reader : Reader} (hreader : s.reader.Settles reader) :
    { s with reader := reader }.Clear :=
  fun id channel hid => hclear id channel (hreader.routes id channel hid)

theorem clear_look (hclear : s.Clear) : s.look.Clear := by
  rw [look]
  split
  · next req url hphase _ =>
      have hpending : s.phase.pending = none := by rw [hphase]; rfl
      split
      · exact hclear.of_idle hpending rfl rfl
      · split
        · exact hclear.of_idle hpending rfl rfl
        · intro id channel hid
          rw [show s.reader.routes.upsert req.id (fun _ => s.channels) =
            (s.reader.addRoute req.id s.channels).routes from rfl] at hid
          have hroute : (s.reader.addRoute req.id s.channels).routes.get? id =
              if id = req.id then some s.channels else s.reader.routes.get? id :=
            Reader.get?_addRoute id
          rw [hid] at hroute
          split at hroute
          · injection hroute with hroute
            rw [hroute]
            exact ⟨req, url, rfl⟩
          · rw [(clear_iff_of_pending hpending).mp hclear id] at hroute
            cases hroute
  · exact hclear

theorem clear_receive (hclear : s.Clear) (hs : s.Wired) (expired : Bool) :
    (s.receive expired).Clear := by
  rw [receive]
  split
  · next req url status channel hphase =>
      have hpending : s.phase.pending = some (req, url, channel) := by rw [hphase]; rfl
      split
      · next resp hreply =>
          refine (hclear.finish_iff hs hpending _).mpr ?_
          cases hroute : s.reader.routes.get? req.id with
          | none => rfl
          | some channel' =>
              obtain ⟨req', url', hsome⟩ := hclear _ channel' hroute
              rw [hpending] at hsome
              cases hsome
              exact absurd rfl (hs.linked.apart _ _ hroute _ (Reader.reply_eq_some hreply))
      · split
        · exact hclear.finish_dropRoute hs hpending _
        · split
          · exact hclear.finish_dropRoute hs hpending _
          · exact hclear
  · exact hclear

theorem clear_posted (hclear : s.Clear) (hs : s.Wired) (answer : Except String Nat) :
    (s.posted answer).Clear ↔ s.Sent (.posted answer) := by
  rw [SseClient.posted]
  split
  · next req url channel hphase =>
      cases channel with
      | none =>
          have hpending : s.phase.pending = none := by rw [hphase]; rfl
          cases answer with
          | error e => exact iff_of_true (hclear.of_idle hpending rfl rfl) (by simp [Sent, hphase])
          | ok status => exact iff_of_true (hclear.of_idle hpending rfl rfl) trivial
      | some channel =>
          have hpending : s.phase.pending = some (req, url, channel) := by rw [hphase]; rfl
          cases answer with
          | error e =>
              refine (hclear.finish_iff hs hpending _).trans ?_
              simp only [Sent, hphase]
          | ok status =>
              refine iff_of_true ?_ trivial
              dsimp only
              split
              · intro id channel' hid
                obtain ⟨req', url', hsome⟩ := hclear id channel' hid
                rw [hpending] at hsome
                cases hsome
                exact ⟨req, url, rfl⟩
              · exact hclear.finish_dropRoute hs hpending _
  · next hphase =>
      refine iff_of_true hclear ?_
      rw [Sent.eq_def]
      split
      · split
        · next hposting => exact absurd hposting (hphase _ _ _)
        · trivial
      · trivial

theorem clear_step (hs : s.Wired) (hclear : s.Clear) (e : SseClientEvent) :
    (s.step w e).Clear ↔ s.Sent e := by
  cases e with
  | call call =>
      refine iff_of_true ?_ trivial
      rw [step, SseClient.call]
      split
      · next hphase _ => exact hclear.of_idle (by rw [hphase]; rfl) rfl rfl
      · exact hclear
  | look => exact iff_of_true (clear_look hclear) trivial
  | giveUp waitEnd =>
      refine iff_of_true ?_ trivial
      rw [step, giveUp]
      split
      · next hphase => exact hclear.of_idle (by rw [hphase]; rfl) rfl rfl
      · exact hclear
  | posted answer => exact clear_posted hclear hs answer
  | event e =>
      refine iff_of_true ?_ trivial
      rw [step, onEvent]
      split
      · next reader hreader => exact hclear.settles (Reader.settles_onEvent hreader)
      · exact hclear.settles Reader.settles_drain
  | lost => exact iff_of_true (hclear.settles Reader.settles_drain) trivial
  | receive => exact iff_of_true (clear_receive hclear hs false) trivial
  | timeout => exact iff_of_true (clear_receive hclear hs true) trivial

/-- No route is left behind in a run exactly if all its POSTs can be sent. -/
theorem clear_run (es : List SseClientEvent) :
    (∀ n, ((es.take n).foldl (step w) start).Clear) ↔ Along (step w) Sent start es := by
  have hstep (s : SseClient) (e : SseClientEvent) (hs : s.Wired) (hclear : s.Clear) :
      (s.step w e).Wired ∧ ((s.step w e).Clear ↔ s.Sent e) :=
    ⟨wired_step hs e, clear_step hs hclear e⟩
  have hstart : start.Clear := fun id channel h => by cases h
  exact along_iff_forall_good hstep wired_start hstart es

end SseClient

/-! ## Both transports -/

/-- What is promised of a client over standard input and output: a request returns
the response with its id, `connect` is through when the server has greeted it, and
nothing waits for what will not come. -/
structure StdioClient.Kept (s : StdioClient) : Prop where
  paired : s.client.Paired
  connected : s.client.stage = .ready → 2 ≤ s.written
  ends : s.Quiet → 2 ≤ s.written → s.waiting = none

/-- What is promised over SSE: as long as a request waits its route is there, or its
response, which it then returns. -/
structure SseClient.Kept (s : SseClient) : Prop where
  paired : s.client.Paired
  delivers : ∀ req url status channel, s.phase = .waiting req url status channel →
    s.reader.routes.get? req.id = some channel ∨
      ∃ resp, resp.id = req.id ∧
        (s.receive false).client.returned = s.client.returned ++ [(req, .ok resp)]

/-- With a server that greets the client and writes nothing else of its own, the
lines pair with the requests. Over SSE they always do, and routes are left exactly
by POSTs that cannot be sent. -/
theorem pairing {es : List StdioEvent}
    (hes : Along StdioClient.step StdioClient.Greeting .start es) :
    (es.foldl StdioClient.step .start).Kept ∧
      ∀ (w : Web) (es : List SseClientEvent),
        (es.foldl (SseClient.step w) .start).Kept ∧
          ((∀ n, ((es.take n).foldl (SseClient.step w) .start).Clear) ↔
            Along (SseClient.step w) SseClient.Sent .start es) := by
  obtain ⟨hstep, hpaired⟩ := StdioClient.paired_run hes
  refine ⟨⟨hpaired, hstep.two_le, hstep.waiting_eq_none⟩, fun w es => ⟨?_, ?_⟩⟩
  · have hwired := SseClient.wired_run (w := w) es
    exact ⟨hwired.paired, fun req url status channel => hwired.delivers⟩
  · exact SseClient.clear_run es

/-- A server that greets, and one call. -/
def greeted : List StdioEvent :=
  [.call .init, .respond 0 (.ok (.obj [])), .read, .call .initialized, .notify, .read,
    .call .listTools, .respond 0 (.ok (.obj [])), .read]

/-- The call is answered. -/
theorem kept_greeted : (greeted.foldl StdioClient.step .start).Kept := (pairing (by decide)).1

/-- A server that answers what has an id, and is otherwise silent. -/
def silent : List StdioEvent :=
  [.call .init, .respond 0 (.ok (.obj [])), .read, .call .initialized]

/-- A server that also greets the client when a call is under way. -/
def interleaved : List StdioEvent :=
  [.call .init, .respond 0 (.ok (.obj [])), .read, .call .initialized, .notify, .read,
    .call .listTools, .notify, .read]

/-- A POST that cannot be sent. -/
def unsent : List SseClientEvent :=
  [.event ⟨some "endpoint", ["http://example.com/message"]⟩, .call .init, .look,
    .posted (.error "connection refused")]

/-- Every URL is one with this host. -/
def exampleWeb : Web := ⟨fun _ => .ok (some "example.com"), fun _ path => path,
  fun _ => .error "expected value", fun _ data => data⟩

/-- With the first server `connect` waits although all has been answered, with the
second a call returns what is not its response, and a route stays behind after
the POST. -/
theorem not_pairing :
    (¬ ∀ es : List StdioEvent, (es.foldl StdioClient.step .start).Quiet →
      (es.foldl StdioClient.step .start).waiting = none) ∧
    (¬ ∀ es : List StdioEvent, (es.foldl StdioClient.step .start).client.Paired) ∧
    ¬ ∀ (w : Web) (es : List SseClientEvent), (es.foldl (SseClient.step w) .start).Clear := by
  refine ⟨fun h => ?_, fun h => ?_, fun h => ?_⟩
  · have hwaits : (silent.foldl StdioClient.step .start).waiting = none := h silent ⟨rfl, rfl, rfl⟩
    cases hwaits
  · have hlast : (JsonRpcRequest.new (.number 1) "tools/list" none, .ok JsonRpcResponse.empty) ∈
        (interleaved.foldl StdioClient.step .start).client.returned := by
      exact List.mem_of_getElem? (i := 2) rfl
    cases h interleaved _ _ hlast
  · have hroute : (unsent.foldl (SseClient.step exampleWeb) .start).reader.routes.get?
        (some (.number 0)) = some 0 := by decide
    have hpending : (unsent.foldl (SseClient.step exampleWeb) .start).phase.pending = none := by
      decide
    obtain ⟨req, url, hsome⟩ := h exampleWeb unsent _ _ hroute
    rw [hpending] at hsome
    cases hsome

end Pandaria.Mcp
