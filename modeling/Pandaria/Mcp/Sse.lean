import Pandaria.Lib.Caches
import Pandaria.Mcp.Handler

/-!
# The SSE transport of the MCP server

`pawbun-mcp-server/src/transport/sse.rs` and the loop of `server.rs` that drives
it: the connections, the requests they POST, the one handler that takes them in
turn, the tasks that carry its responses to the streams, and the collector of
idle sessions.

Sessions are numbered in the order they are inserted, which stands for their
random ids, and requests in the order they arrive. A request is known by its
number in the queue and in the oneshot channel for its response; the number that
stays with the response in the channel of a session is not in the code.
-/

namespace Pandaria.Mcp

open Pandaria.Lib

/-- The oneshot channel for the response to one request. -/
inductive ResponseSlot where
  /-- Of a notification, whose receiver is dropped at once. -/
  | dropped
  | waiting
  | filled (resp : JsonRpcResponse)
  /-- The sender has been dropped without a response. -/
  | closed
  /-- The task that waited for the response is done. -/
  | forwarded
deriving DecidableEq

namespace ResponseSlot

def new (req : JsonRpcRequest) : ResponseSlot := if req.id.isNone then dropped else waiting

/-- `tx.send(resp)`, whose failure is ignored. -/
def send (resp : JsonRpcResponse) : ResponseSlot → ResponseSlot
  | waiting => filled resp
  | slot => slot

/-- The sender is dropped. -/
def drop : ResponseSlot → ResponseSlot
  | waiting => closed
  | slot => slot

def underWay : ResponseSlot → Bool
  | waiting | filled _ | closed => true
  | dropped | forwarded => false

end ResponseSlot

/-- A request that has been POSTed. -/
structure Posted where
  session : Nat
  request : JsonRpcRequest
  slot : ResponseSlot
  /-- Whether the stream of the session was open when the request came. -/
  live : Bool
deriving DecidableEq

structure Message where
  request : Nat
  response : JsonRpcResponse
deriving DecidableEq

inductive StreamPhase where
  /-- Before the `endpoint` event. -/
  | opening
  | waiting
  /-- A message has been yielded and the activity not yet noted. -/
  | sent
  | ended
deriving DecidableEq

/-- The stream of a session: its channel, and what its client has been sent. -/
structure SseStream where
  phase : StreamPhase
  connected : Bool
  channel : List Message
  received : List Message
deriving DecidableEq

namespace SseStream

/-- Before there is such a session. -/
def absent : SseStream := ⟨.opening, false, [], []⟩

def opened : SseStream := ⟨.opening, true, [], []⟩

/-- Into a stream that has been dropped nothing can be sent. -/
def push (stream : SseStream) (msg : Message) : SseStream :=
  if stream.connected then { stream with channel := stream.channel ++ [msg] } else stream

def disconnect (stream : SseStream) : SseStream :=
  { stream with connected := false, channel := [] }

/-- How many of the messages, sent or still to be sent, answer the request. -/
def copies (stream : SseStream) (n : Nat) : Nat :=
  (stream.channel ++ stream.received).countP fun msg => msg.request = n

end SseStream

/-- A request that has been handled, and what the tools would have done. -/
structure Handled where
  session : Nat
  request : JsonRpcRequest
  run : ToolRun
  response : JsonRpcResponse

structure SseServer where
  now : Nat
  maxConnections : Nat
  sessionTtl : Nat
  handler : RequestHandler
  /-- The sessions, each with its last activity. -/
  sessions : Table Nat Nat
  /-- How many sessions there have been. -/
  opened : Nat
  stream : Nat → SseStream
  /-- Connections that have passed the check and are not yet inserted. -/
  admitted : Nat
  requests : List Posted
  /-- The numbers of the requests the transport has not yet received. -/
  queue : List Nat
  /-- The request that is being handled. -/
  busy : Option Nat
  /-- `current_response_tx`. -/
  current : Option Nat
  handled : List Handled

inductive SseEvent where
  /-- `GET /sse`, as far as the check. -/
  | connect
  | register
  | post (session : Nat) (req : JsonRpcRequest)
  | recv
  /-- `handle` and `send`. -/
  | answer (run : ToolRun)
  /-- The task of a request is woken. -/
  | respond (n : Nat)
  /-- The stream of a session is polled. -/
  | poll (session : Nat)
  | disconnect (session : Nat)
  /-- The next round of the collector. -/
  | collect
  | wait (n : Nat)

namespace SseServer

def start (handler : RequestHandler) (maxConnections sessionTtl : Nat) : SseServer :=
  { now := 0
    maxConnections := maxConnections
    sessionTtl := sessionTtl
    handler := handler
    sessions := .empty
    opened := 0
    stream := fun _ => .absent
    admitted := 0
    requests := []
    queue := []
    busy := none
    current := none
    handled := [] }

def sessionCount (s : SseServer) : Nat := s.sessions.rows.length

def registered (s : SseServer) (session : Nat) : Bool := (s.sessions.get? session).isSome

def isOpen (s : SseServer) (session : Nat) : Bool :=
  s.registered session && (s.stream session).connected

def expired (s : SseServer) (last : Nat) : Bool := !decide (s.now - last < s.sessionTtl)

def setStream (s : SseServer) (session : Nat) (stream : SseStream) : SseServer :=
  { s with stream := fun k => if k = session then stream else s.stream k }

def setSlot (s : SseServer) (n : Nat) (r : Posted) (slot : ResponseSlot) : SseServer :=
  { s with requests := s.requests.set n { r with slot := slot } }

/-- `session.last_activity = Instant::now()`. -/
def touch (s : SseServer) (session : Nat) : SseServer :=
  if s.registered session then { s with sessions := s.sessions.upsert session fun _ => s.now }
  else s

/-- Of a connection that is refused there is nothing but an `error` event. -/
def connect (s : SseServer) : SseServer :=
  if s.maxConnections ≤ s.sessionCount then s else { s with admitted := s.admitted + 1 }

def register (s : SseServer) : SseServer :=
  if s.admitted = 0 then s
  else
    { s with
      admitted := s.admitted - 1
      sessions := s.sessions.upsert s.opened fun _ => s.now
      opened := s.opened + 1 }.setStream s.opened .opened

def post (s : SseServer) (session : Nat) (req : JsonRpcRequest) : SseServer :=
  { s with
    requests := s.requests ++ [⟨session, req, .new req, s.isOpen session⟩]
    queue := s.queue ++ [s.requests.length] }

/-- What is in `current_response_tx` is dropped. -/
def dropCurrent (s : SseServer) : SseServer :=
  match s.current with
  | none => s
  | some n =>
      match s.requests[n]? with
      | some r => s.setSlot n r r.slot.drop
      | none => s

/-- The next request goes to the handler when that is done with the last. -/
def recv (s : SseServer) : SseServer :=
  match s.busy, s.queue with
  | none, n :: queue => { s.dropCurrent with queue := queue, busy := some n, current := some n }
  | _, _ => s

/-- `send` of the transport, which keeps the channel for what it suppresses. -/
def send (s : SseServer) (resp : JsonRpcResponse) : SseServer :=
  if resp.isEmptyNotification then s
  else
    match s.current with
    | none => s
    | some n =>
        match s.requests[n]? with
        | some r => { s.setSlot n r (r.slot.send resp) with current := none }
        | none => s

variable (serde : Decoders)

def answer (s : SseServer) (run : ToolRun) : SseServer :=
  match s.busy with
  | none => s
  | some n =>
      match s.requests[n]? with
      | some r =>
          let (handler, resp) := s.handler.handle serde run r.request
          { s with
            handler := handler
            handled := s.handled ++ [Handled.mk r.session r.request run resp]
            busy := none }.send resp
      | none => s

/-- A response goes into the channel of the session, if there still is one. -/
def forward (s : SseServer) (n : Nat) (r : Posted) (resp : JsonRpcResponse) : SseServer :=
  let s := s.setSlot n r .forwarded
  if s.registered r.session then
    (s.touch r.session).setStream r.session ((s.stream r.session).push ⟨n, resp⟩)
  else s

/-- `respond_or_error_on_close`. -/
def respond (s : SseServer) (n : Nat) : SseServer :=
  match s.requests[n]? with
  | some r =>
      match r.slot with
      | .filled resp => s.forward n r resp
      | .closed =>
          match r.request.id with
          | some id => s.forward n r (.ofError (some id) (-32603)
              "Handler closed without response (panic, shutdown, or timeout)")
          | none => s.setSlot n r .forwarded
      | .dropped | .waiting | .forwarded => s
  | none => s

def poll (s : SseServer) (session : Nat) : SseServer :=
  let stream := s.stream session
  if stream.connected then
    match stream.phase with
    | .opening => s.setStream session { stream with phase := .waiting }
    | .waiting =>
        match stream.channel with
        | msg :: channel =>
            s.setStream session { stream with
              phase := .sent
              channel := channel
              received := stream.received ++ [msg] }
        | [] =>
            if s.registered session then s
            else s.setStream session { stream with phase := .ended }
    | .sent => (s.touch session).setStream session { stream with phase := .waiting }
    | .ended => s
  else s

def collect (s : SseServer) : SseServer :=
  { s with sessions := s.sessions.filter fun _ last => !s.expired last }

def step (s : SseServer) : SseEvent → SseServer
  | .connect => s.connect
  | .register => s.register
  | .post session req => s.post session req
  | .recv => s.recv
  | .answer run => s.answer serde run
  | .respond n => s.respond n
  | .poll session => s.poll session
  | .disconnect session => s.setStream session (s.stream session).disconnect
  | .collect => s.collect
  | .wait n => { s with now := s.now + n }

end SseServer

end Pandaria.Mcp

/-!
## The MCP server on standard input and output

`StdioServerTransport` of `pawbun-mcp-server/src/transport/stdio.rs` and
`McpServer::run_loop` of `server.rs` over it: a line is read and decoded, handled,
and the response written, until the input ends or something fails. Over the SSE
transport the loop is `recv` and `answer` above; what is added here is the decoding
of a body in `message_handler`.

The derived decoder of requests is a parameter. Standard output takes every line.
-/

namespace Pandaria.Mcp

inductive TransportError where
  | io (message kind : String)
  | serialization (e : String)
  | unexpectedEof
  | http (message : String)
deriving DecidableEq

/-- `serde_json::from_str` for requests. -/
abbrev RequestParser := String → Except String JsonRpcRequest

/-- What `read_line` finds up to the next newline. -/
inductive StdinLine where
  | text (line : String)
  | invalidUtf8
deriving DecidableEq

namespace StdioServerTransport

/-- `recv`, where there is a line. -/
def recv (parse : RequestParser) : StdinLine → Except TransportError JsonRpcRequest
  | .invalidUtf8 =>
      .error (.io "failed to read from stdin: stream did not contain valid UTF-8" "InvalidData")
  | .text line => (parse line).mapError .serialization

/-- The responses `send` writes for one. -/
def send (resp : JsonRpcResponse) : List JsonRpcResponse :=
  if resp.isEmptyNotification then [] else [resp]

end StdioServerTransport

/-- `run_loop` over the lines of standard input, each with what the tools will do
if its request gets as far as that: the responses written and the result. -/
def RequestHandler.runLoop (parse : RequestParser) (serde : Decoders) (h : RequestHandler) :
    List (StdinLine × ToolRun) → List JsonRpcResponse × Except TransportError Unit
  | [] => ([], .ok ())
  | (line, run) :: rest =>
      match StdioServerTransport.recv parse line with
      | .error e => ([], .error e)
      | .ok req =>
          let (h, resp) := h.handle serde run req
          let (written, result) := h.runLoop parse serde rest
          (StdioServerTransport.send resp ++ written, result)

/-- What reaches the SSE transport from outside, a body of a POST as its text. -/
inductive SseInput where
  | body (session : Nat) (text : String)
  | event (e : SseEvent)

/-- `message_handler` answers a body it cannot decode with 400 and goes no
further. -/
def SseServer.input (parse : RequestParser) (serde : Decoders) (s : SseServer) :
    SseInput → SseServer
  | .body session text =>
      match parse text with
      | .error _ => s
      | .ok req => s.step serde (.post session req)
  | .event e => s.step serde e

end Pandaria.Mcp
