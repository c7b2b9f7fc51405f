import Pandaria.Lib.Run
import Pandaria.Mcp.Sse

/-!
# The handshake of a session

The flag the handler keeps is one for all sessions, and a notification alone
sets it. So what a session is given depends on what every session has sent: as
long as nobody has sent `notifications/initialized` no tools are listed or
called, and from then on they are for all. The log of what has been handled, with
its responses, is a replay of the handler over the requests in their order.
-/

namespace Pandaria.Mcp

open Pandaria.Lib
open Pandaria.Ai (Json)

variable {serde : Decoders}

/-! ## One request -/

namespace JsonRpcRequest

/-- `notifications/initialized`, with an id or without. -/
def isInitialized (req : JsonRpcRequest) : Bool := req.method = "notifications/initialized"

def isTools (req : JsonRpcRequest) : Bool :=
  req.method = "tools/list" || req.method = "tools/call"

end JsonRpcRequest

namespace RequestHandler

variable {h : RequestHandler} {run : ToolRun} {req : JsonRpcRequest}

/-- The parameters decode and name the version of the server. -/
def accepts (serde : Decoders) (h : RequestHandler) (req : JsonRpcRequest) : Bool :=
  match serde.initializeParams req.paramsOrDefault with
  | .ok params => params.protocolVersion = h.protocolVersion
  | .error _ => false

/-- A call whose parameters decode and whose tool is there and does not fail, or
a listing. -/
def serves (serde : Decoders) (h : RequestHandler) (run : ToolRun) (req : JsonRpcRequest) : Bool :=
  if req.method = "tools/list" then true
  else
    match serde.callToolParams req.paramsOrDefault with
    | .ok params => (h.toolkit.execute run params).toOption.isSome
    | .error _ => false

/-- What a handler does next depends on what it has been sent by its flag only. -/
theorem handle_fst : (h.handle serde run req).1 =
    { h with initialized := h.initialized || req.isInitialized } := by
  obtain ⟨kit, info, caps, version, flag⟩ := h
  rw [handle, JsonRpcRequest.isInitialized]
  split
  · next hguard =>
      rw [Bool.and_eq_true, Bool.not_eq_true', Bool.not_eq_true', Bool.or_eq_false_iff] at hguard
      rw [hguard.2.2, Bool.or_false]
  · split
    · next hinit => simp [hinit]
    · split
      · next hdone => simp [hdone, handleInitialized]
      · next hdone =>
          rw [decide_eq_false hdone, Bool.or_false]
          split
          · rfl
          · split <;> rfl

theorem isSome_result_handleInitialize :
    (h.handleInitialize serde req).result.isSome = h.accepts serde req := by
  rw [handleInitialize, accepts]
  cases serde.initializeParams req.paramsOrDefault with
  | error e => rfl
  | ok params =>
      dsimp only
      by_cases hv : params.protocolVersion = h.protocolVersion
      · rw [if_neg (not_not_intro hv), decide_eq_true hv]
        rfl
      · rw [if_pos hv, decide_eq_false hv]
        rfl

theorem isSome_result_handleCallTool :
    (h.handleCallTool serde run req).result.isSome =
      match serde.callToolParams req.paramsOrDefault with
      | .ok params => (h.toolkit.execute run params).toOption.isSome
      | .error _ => false := by
  rw [handleCallTool]
  cases serde.callToolParams req.paramsOrDefault with
  | error e => rfl
  | ok params =>
      dsimp only
      cases h.toolkit.execute run params with
      | ok result => rfl
      | error e => cases e <;> rfl

theorem isSome_result_initialize (hm : req.method = "initialize") :
    (h.handle serde run req).2.result.isSome = h.accepts serde req := by
  rw [← isSome_result_handleInitialize]
  simp [handle, hm]

/-- Tools are listed and called once the flag is set, for anyone. -/
theorem isSome_result_tools (hm : req.isTools = true) :
    (h.handle serde run req).2.result.isSome = (h.initialized && h.serves serde run req) := by
  rw [JsonRpcRequest.isTools, Bool.or_eq_true, decide_eq_true_eq, decide_eq_true_eq] at hm
  cases hf : h.initialized with
  | false =>
      have hnot : req.method ≠ "initialize" ∧ req.method ≠ "notifications/initialized" := by
        rcases hm with hm | hm <;> rw [hm] <;> decide
      simp [handle, hf, hnot.1, hnot.2, JsonRpcResponse.ofError]
  | true =>
      rw [Bool.true_and, serves]
      rcases hm with hm | hm
      · simp [handle, hf, hm, handleListTools, JsonRpcResponse.ok]
      · rw [if_neg (by rw [hm]; decide), ← isSome_result_handleCallTool]
        simp [handle, hf, hm]

end RequestHandler

/-! ## What has been handled -/

/-- The flag after the requests. -/
def initializedBy (log : List Handled) : Bool := log.any fun e => e.request.isInitialized

/-- Every response is the one of a handler that has been sent what stands before. -/
def Replays (serde : Decoders) (h : RequestHandler) (log : List Handled) : Prop :=
  ∀ (n : Nat) (e : Handled), log[n]? = some e →
    e.response = ({ h with initialized := initializedBy (log.take n) }.handle serde e.run
      e.request).2

theorem Replays.push {h : RequestHandler} {log : List Handled} (hlog : Replays serde h log)
    {e : Handled} (he : e.response =
      ({ h with initialized := initializedBy log }.handle serde e.run e.request).2) :
    Replays serde h (log ++ [e]) := by
  intro n e' hn
  by_cases hlt : n < log.length
  · rw [List.getElem?_append_left hlt] at hn
    rw [List.take_append_of_le_length (by omega)]
    exact hlog n e' hn
  · rw [List.getElem?_append_right (by omega), List.getElem?_singleton] at hn
    split at hn
    · next hzero =>
        injection hn with hn
        subst hn
        rw [show n = log.length by omega, List.take_left]
        exact he
    · cases hn

/-- What the server keeps of the requests that have been handled. -/
structure Logged (serde : Decoders) (h : RequestHandler) (s : SseServer) : Prop where
  handler : s.handler = { h with initialized := initializedBy s.handled }
  replays : Replays serde h s.handled

/-- A step that handles nothing. -/
theorem Logged.of_eq {h : RequestHandler} {s t : SseServer} (hs : Logged serde h s) 
    (hhandler : t.handler = s.handler) (hhandled : t.handled = s.handled) : Logged serde h t :=
  ⟨by rw [hhandler, hhandled]; exact hs.handler, by rw [hhandled]; exact hs.replays⟩

namespace SseServer

variable {h : RequestHandler} {s : SseServer}

theorem logged_start (hnew : h.initialized = false) (maxConnections sessionTtl : Nat) :
    Logged serde h (start h maxConnections sessionTtl) := by
  refine ⟨?_, fun n e hn => by cases hn⟩
  show h = { h with initialized := false }
  rw [← hnew]

theorem touch_log (session : Nat) :
    (s.touch session).handler = s.handler ∧ (s.touch session).handled = s.handled := by
  rw [touch]
  split <;> exact ⟨rfl, rfl⟩

theorem forward_log (n : Nat) (r : Posted) (resp : JsonRpcResponse) :
    (s.forward n r resp).handler = s.handler ∧ (s.forward n r resp).handled = s.handled := by
  rw [forward]
  split
  · exact touch_log r.session
  · exact ⟨rfl, rfl⟩

theorem send_log (resp : JsonRpcResponse) :
    (s.send resp).handler = s.handler ∧ (s.send resp).handled = s.handled := by
  rw [send]
  split
  · exact ⟨rfl, rfl⟩
  · split
    · exact ⟨rfl, rfl⟩
    · split <;> exact ⟨rfl, rfl⟩

theorem dropCurrent_log :
    s.dropCurrent.handler = s.handler ∧ s.dropCurrent.handled = s.handled := by
  rw [dropCurrent]
  split
  · exact ⟨rfl, rfl⟩
  · split <;> exact ⟨rfl, rfl⟩

/-- What a step handles: the request that is being handled, and nothing else. -/
theorem step_log (e : SseEvent) :
    (s.step serde e).handler = s.handler ∧ (s.step serde e).handled = s.handled ∨
      ∃ session req run,
        (s.step serde e).handler = (s.handler.handle serde run req).1 ∧
          (s.step serde e).handled =
            s.handled ++ [⟨session, req, run, (s.handler.handle serde run req).2⟩] := by
  cases e with
  | answer run =>
      rw [step, answer]
      split
      · exact .inl ⟨rfl, rfl⟩
      · split
        · next r hr => exact .inr ⟨r.session, r.request, run, send_log _⟩
        · exact .inl ⟨rfl, rfl⟩
  | connect =>
      rw [step, connect]
      split <;> exact .inl ⟨rfl, rfl⟩
  | register =>
      rw [step, register]
      split <;> exact .inl ⟨rfl, rfl⟩
  | post session req => exact .inl ⟨rfl, rfl⟩
  | recv =>
      rw [step, recv]
      split
      · exact .inl dropCurrent_log
      · exact .inl ⟨rfl, rfl⟩
  | respond n =>
      rw [step, respond]
      split
      · split
        · exact .inl (forward_log ..)
        · split
          · exact .inl (forward_log ..)
          · exact .inl ⟨rfl, rfl⟩
        · exact .inl ⟨rfl, rfl⟩
        · exact .inl ⟨rfl, rfl⟩
        · exact .inl ⟨rfl, rfl⟩
      · exact .inl ⟨rfl, rfl⟩
  | poll session =>
      rw [step, poll]
      split
      · split
        · exact .inl ⟨rfl, rfl⟩
        · split
          · exact .inl ⟨rfl, rfl⟩
          · split <;> exact .inl ⟨rfl, rfl⟩
        · exact .inl (touch_log session)
        · exact .inl ⟨rfl, rfl⟩
      · exact .inl ⟨rfl, rfl⟩
  | disconnect session => exact .inl ⟨rfl, rfl⟩
  | collect => exact .inl ⟨rfl, rfl⟩
  | wait n => exact .inl ⟨rfl, rfl⟩

theorem logged_step (hs : Logged serde h s) (e : SseEvent) : Logged serde h (s.step serde e) := by
  rcases @step_log serde s e with ⟨hhandler, hhandled⟩ |
    ⟨session, req, run, hhandler, hhandled⟩
  · exact hs.of_eq hhandler hhandled
  · constructor
    · rw [hhandler, hhandled, RequestHandler.handle_fst, hs.handler]
      simp [initializedBy]
    · rw [hhandled]
      refine hs.replays.push ?_
      show (s.handler.handle serde run req).2 = _
      rw [hs.handler]

/-- The log of a run is a replay. -/
theorem logged_run (hnew : h.initialized = false) (maxConnections sessionTtl : Nat)
    (es : List SseEvent) :
    Logged serde h (es.foldl (step serde) (start h maxConnections sessionTtl)) := by
  have hstep (s : SseServer) (e : SseEvent) (hs : Logged serde h s) :
      Logged serde h (s.step serde e) := logged_step hs e
  exact foldl_invariant hstep (logged_start hnew maxConnections sessionTtl) es

end SseServer

/-! ## The handshake -/

/-- The session has been answered `initialize` with success, and has then sent
`notifications/initialized`. -/
def Handshaken (log : List Handled) (session : Nat) : Prop :=
  ∃ i n : Handled, [i, n].Sublist log ∧ i.session = session ∧ i.request.method = "initialize" ∧
    i.request.id.isSome = true ∧ i.response.result.isSome = true ∧
    n.session = session ∧ n.request.isInitialized = true

/-- Tools are listed and called for sessions only that have shaken hands. -/
def HandshakeFirst (log : List Handled) : Prop :=
  ∀ (n : Nat) (e : Handled), log[n]? = some e → e.request.isTools = true →
    e.request.id.isSome = true → e.response.result.isSome = true →
      Handshaken (log.take n) e.session

/-- The session has sent an `initialize` that the server accepts, and then
`notifications/initialized`. -/
def Introduced (serde : Decoders) (h : RequestHandler) (log : List Handled) (session : Nat) :
    Prop :=
  ∃ i n : Handled, [i, n].Sublist log ∧ i.session = session ∧ i.request.method = "initialize" ∧
    i.request.id.isSome = true ∧ h.accepts serde i.request = true ∧
    n.session = session ∧ n.request.isInitialized = true

/-- Once any session has sent `notifications/initialized`, those that ask for tools
there are have introduced themselves. -/
def Mannered (serde : Decoders) (h : RequestHandler) (log : List Handled) : Prop :=
  ∀ (n : Nat) (e : Handled), log[n]? = some e → e.request.isTools = true →
    e.request.id.isSome = true → h.serves serde e.run e.request = true →
      initializedBy (log.take n) = true → Introduced serde h (log.take n) e.session

namespace Replays

variable {h : RequestHandler} {log : List Handled}

theorem isSome_result_tools (hlog : Replays serde h log) {n : Nat} {e : Handled}
    (hn : log[n]? = some e) (ht : e.request.isTools = true) :
    e.response.result.isSome =
      (initializedBy (log.take n) && h.serves serde e.run e.request) := by
  rw [hlog n e hn, RequestHandler.isSome_result_tools ht]
  rfl

theorem isSome_result_initialize (hlog : Replays serde h log) {e : Handled} (he : e ∈ log)
    (hm : e.request.method = "initialize") :
    e.response.result.isSome = h.accepts serde e.request := by
  obtain ⟨n, hn⟩ := List.mem_iff_getElem?.mp he
  rw [hlog n e hn, RequestHandler.isSome_result_initialize hm]
  rfl

theorem handshaken_iff (hlog : Replays serde h log) (n session : Nat) :
    Handshaken (log.take n) session ↔ Introduced serde h (log.take n) session := by
  have hsame : ∀ {i m : Handled}, [i, m].Sublist (log.take n) → i.request.method = "initialize" →
      i.response.result.isSome = h.accepts serde i.request := by
    intro i m hsub hm
    exact hlog.isSome_result_initialize (List.mem_of_mem_take (hsub.mem List.mem_cons_self)) hm
  constructor
  · rintro ⟨i, m, hsub, hi, hm, hid, hok, hrest⟩
    exact ⟨i, m, hsub, hi, hm, hid, (hsame hsub hm) ▸ hok, hrest⟩
  · rintro ⟨i, m, hsub, hi, hm, hid, hok, hrest⟩
    exact ⟨i, m, hsub, hi, hm, hid, (hsame hsub hm).trans hok, hrest⟩

theorem handshakeFirst_iff (hlog : Replays serde h log) :
    HandshakeFirst log ↔ Mannered serde h log := by
  constructor
  · intro hfirst n e hn ht hid hserves hflag
    refine (hlog.handshaken_iff n e.session).mp (hfirst n e hn ht hid ?_)
    rw [hlog.isSome_result_tools hn ht, hflag, hserves]
    rfl
  · intro hmannered n e hn ht hid hok
    rw [hlog.isSome_result_tools hn ht, Bool.and_eq_true] at hok
    exact (hlog.handshaken_iff n e.session).mpr (hmannered n e hn ht hid hok.2 hok.1)

end Replays

namespace SseServer

/-- In every run of a server, sessions without a handshake are given no tools
exactly when those that come after somebody's `notifications/initialized` have
made theirs. -/
theorem handshakeFirst_run (toolkit : ToolKit) (serverInfo : ServerInfo) (capabilities : Json)
    (protocolVersion : String) (maxConnections sessionTtl : Nat) (es : List SseEvent) :
    let handler := RequestHandler.new toolkit serverInfo capabilities protocolVersion
    let served := es.foldl (step serde) (start handler maxConnections sessionTtl)
    HandshakeFirst served.handled ↔ Mannered serde handler served.handled :=
  (logged_run rfl maxConnections sessionTtl es).replays.handshakeFirst_iff

/-- The decoders, of objects with all their fields. -/
def plainDecoders : Decoders where
  initializeParams value :=
    match (value.get "protocolVersion").bind Json.asStr, value.get "capabilities",
      ((value.at "clientInfo").get "name").bind Json.asStr,
      ((value.at "clientInfo").get "version").bind Json.asStr with
    | some protocolVersion, some capabilities, some name, some version =>
        .ok ⟨protocolVersion, capabilities, ⟨name, version⟩⟩
    | _, _, _, _ => .error "missing field"
  callToolParams value :=
    match (value.get "name").bind Json.asStr with
    | some name => .ok ⟨name, value.get "arguments"⟩
    | none => .error "missing field"

def echoKit : ToolKit :=
  ⟨[⟨"echo", "Echoes input.", [⟨"msg", true, .obj [("type", .str "string")]⟩]⟩]⟩

def echo : ToolRun := fun _ _ => .ok ⟨true, "hello"⟩

def initializeRequest (id : Int) : JsonRpcRequest :=
  .new (.number id) "initialize" (some (.obj [("protocolVersion", .str "2024-11-05"),
    ("capabilities", .obj []), ("clientInfo", .obj [("name", .str "c"), ("version", .str "1")])]))

def initializedNotification : JsonRpcRequest := .notification "notifications/initialized" none

def listRequest (id : Int) : JsonRpcRequest := .new (.number id) "tools/list" none

def plainServer (maxConnections sessionTtl : Nat) : SseServer :=
  start (.new echoKit ⟨"pawbun", "0.1.0"⟩ (.obj []) "2024-11-05") maxConnections sessionTtl

/-- A request that is handled as soon as it is there. -/
def exchange (session : Nat) (req : JsonRpcRequest) : List SseEvent :=
  [.post session req, .recv, .answer echo]

/-- The first of two sessions shakes hands, and the second is given the tools. -/
def twoClients : List SseEvent :=
  [.connect, .register, .connect, .register] ++ exchange 0 (initializeRequest 0) ++
    exchange 0 initializedNotification ++ exchange 1 (listRequest 0)

theorem not_handshakeFirst_twoClients :
    ¬ ∀ (serde : Decoders) (toolkit : ToolKit) (serverInfo : ServerInfo) (capabilities : Json)
      (protocolVersion : String) (maxConnections sessionTtl : Nat) (es : List SseEvent),
      let handler := RequestHandler.new toolkit serverInfo capabilities protocolVersion
      HandshakeFirst (es.foldl (step serde) (start handler maxConnections sessionTtl)).handled := by
  intro h
  obtain ⟨log, hlog⟩ : ∃ log, (twoClients.foldl (step plainDecoders)
    (plainServer 100 30000)).handled = log := ⟨_, rfl⟩
  have hfirst : HandshakeFirst log := hlog ▸ h plainDecoders echoKit _ _ _ 100 30000 twoClients
  have hthird : ∃ e, log[2]? = some e ∧ e.session = 1 ∧ e.request.isTools = true ∧
      e.request.id.isSome = true ∧ e.response.result.isSome = true := by
    rw [← hlog]
    exact ⟨_, rfl, rfl, by decide, rfl, rfl⟩
  have hbefore : ∀ e ∈ log.take 2, e.session = 0 := by
    rw [← hlog]
    decide
  obtain ⟨e, he, hone, ht, hid, hok⟩ := hthird
  obtain ⟨i, m, hsub, hi, -⟩ := hfirst 2 e he ht hid hok
  rw [hbefore i (hsub.mem List.mem_cons_self), hone] at hi
  cases hi

end SseServer

end Pandaria.Mcp
