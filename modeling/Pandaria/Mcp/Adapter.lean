import Pandaria.Mcp.Client
import Pandaria.Mcp.Sse

/-!
# Sessions of the MCP client

`McpAdapter::connect` and the calls of `McpSession` of
`pawbun-toolkit/src/mcp/adapter.rs`, over the two transports of `transport.rs`. A
session makes one request at a time: `&mut self` and the lock see to that. Over
standard input and output a request is written and the next line read; over SSE it
waits for what the reader of `Client.lean` routes to it.

The server of the first is a process that answers every request with an id, and
writes notifications of its own when it likes. To the client such a line is a
response in which there is nothing: the derived decoder passes over what it does
not know.
-/

namespace Pandaria.Mcp

open Pandaria.Ai (Json)
open Pandaria.Lib

/-! ## The session -/

/-- The errors of `McpError` that `connect` can end in. -/
inductive McpError where
  | transport (e : TransportError)
  | initialization (message : String)
deriving DecidableEq

inductive Stage where
  /-- `initialize` has not returned. -/
  | connecting
  /-- The notification that follows has not. -/
  | introduced
  | ready
  | failed (e : McpError)
deriving DecidableEq

/-- The requests of `connect`, then those of a session. -/
inductive ClientCall where
  | init
  | initialized
  | listTools
  | callTool (name : String) (arguments : Option Json)

structure McpClient where
  stage : Stage
  nextId : Int64
  /-- The requests that have been made, each with what the transport returned. -/
  returned : List (JsonRpcRequest × Except TransportError JsonRpcResponse)

namespace McpClient

def start : McpClient := ⟨.connecting, 1, []⟩

def initRequest : JsonRpcRequest :=
  .new (.number 0) "initialize" (some (.obj [("protocolVersion", .str "2024-11-05"),
    ("capabilities", .obj []),
    ("clientInfo", .obj [("name", .str "pawbun-toolkit"), ("version", .str "0.1.0")])]))

def initializedRequest : JsonRpcRequest := .notification "notifications/initialized" none

/-- `next_id` is loaded, then added to. -/
def withId (c : McpClient) (method : String) (params : Option Json) :
    Option (McpClient × JsonRpcRequest) :=
  some ({ c with nextId := c.nextId + 1 }, .new (.number c.nextId.toInt) method params)

/-- The request of a call, if it is time for it. -/
def next (c : McpClient) (call : ClientCall) : Option (McpClient × JsonRpcRequest) :=
  match c.stage, call with
  | .connecting, .init => some (c, initRequest)
  | .introduced, .initialized => some (c, initializedRequest)
  | .ready, .listTools => c.withId "tools/list" none
  | .ready, .callTool name arguments =>
      c.withId "tools/call" (some (.obj [("name", .str name), ("arguments", arguments.getD .null)]))
  | _, _ => none

/-- The stage after a request has returned. -/
def after : Stage → Except TransportError JsonRpcResponse → Stage
  | .connecting, .error e => .failed (.transport e)
  | .connecting, .ok resp =>
      match resp.error with
      | some err => .failed (.initialization err.message)
      | none => .introduced
  | .introduced, .error e => .failed (.transport e)
  | .introduced, .ok _ => .ready
  | stage, _ => stage

def onReturn (c : McpClient) (req : JsonRpcRequest)
    (result : Except TransportError JsonRpcResponse) : McpClient :=
  { c with
    stage := after c.stage result
    returned := c.returned ++ [(req, result)] }

end McpClient

/-! ## Over standard input and output -/

structure StdioClient where
  client : McpClient
  /-- The request whose line is waited for. -/
  waiting : Option JsonRpcRequest
  /-- The requests that are still to be answered. -/
  unanswered : List JsonRpcRequest
  /-- The lines that have not been read, as they are decoded. -/
  pipe : List JsonRpcResponse
  /-- How many lines there have been. -/
  written : Nat
  /-- Whether the process has gone. -/
  ended : Bool

inductive StdioEvent where
  | call (call : ClientCall)
  /-- The process answers one of its requests. -/
  | respond (n : Nat) (answer : Except JsonRpcError Json)
  /-- It writes a notification of its own. -/
  | notify
  | exit
  | read

namespace StdioClient

def start : StdioClient := ⟨.start, none, [], [], 0, false⟩

def finish (s : StdioClient) (req : JsonRpcRequest)
    (result : Except TransportError JsonRpcResponse) : StdioClient :=
  { s with client := s.client.onReturn req result, waiting := none }

def write (s : StdioClient) (resp : JsonRpcResponse) : StdioClient :=
  { s with pipe := s.pipe ++ [resp], written := s.written + 1 }

/-- `write_request`, after which the line is waited for. -/
def call (s : StdioClient) (call : ClientCall) : StdioClient :=
  match s.waiting, s.client.next call with
  | none, some (client, req) =>
      let s := { s with client := client }
      if s.ended then
        s.finish req (.error (.io "failed to write to stdin: Broken pipe (os error 32)"
          "BrokenPipe"))
      else
        { s with
          waiting := some req
          unanswered := if req.id.isSome then s.unanswered ++ [req] else s.unanswered }
  | _, _ => s

def response (req : JsonRpcRequest) : Except JsonRpcError Json → JsonRpcResponse
  | .ok result => ⟨req.id, some result, none⟩
  | .error err => ⟨req.id, none, some err⟩

def respond (s : StdioClient) (n : Nat) (answer : Except JsonRpcError Json) : StdioClient :=
  match s.unanswered[n]? with
  | some req => { s with unanswered := s.unanswered.eraseIdx n }.write (response req answer)
  | none => s

/-- `read_response`. -/
def read (s : StdioClient) : StdioClient :=
  match s.waiting with
  | none => s
  | some req =>
      match s.pipe with
      | resp :: pipe => { s with pipe := pipe }.finish req (.ok resp)
      | [] => if s.ended then s.finish req (.error .unexpectedEof) else s

def step (s : StdioClient) : StdioEvent → StdioClient
  | .call call => s.call call
  | .respond n answer => s.respond n answer
  | .notify => if s.ended then s else s.write .empty
  | .exit => { s with ended := true, unanswered := [] }
  | .read => s.read

end StdioClient

/-! ## Over SSE -/

/-- Where a request is. -/
inductive SsePhase where
  | idle
  /-- It waits for the URL. -/
  | handshake (req : JsonRpcRequest)
  /-- It is being POSTed, after its route has been made if it has an id. -/
  | posting (req : JsonRpcRequest) (url : String) (channel : Option Nat)
  | waiting (req : JsonRpcRequest) (url : String) (status : Nat) (channel : Nat)

structure SseClient where
  client : McpClient
  reader : Reader
  /-- How many channels there have been. -/
  channels : Nat
  phase : SsePhase

inductive SseClientEvent where
  | call (call : ClientCall)
  /-- The request looks at the channel of the URL. -/
  | look
  | giveUp (waitEnd : WaitEnd)
  | posted (answer : Except String Nat)
  /-- The reader takes an event from the stream. -/
  | event (e : ClientEvent)
  /-- The connection is lost. -/
  | lost
  /-- The request looks at its channel. -/
  | receive
  | timeout

/-- The URL that is in the channel. -/
def Reader.endpoint (r : Reader) : Option String := r.postUrl.getLast?.join

/-- What has been sent into a channel. -/
def Reader.reply (r : Reader) (channel : Nat) : Option JsonRpcResponse :=
  (r.routed.find? fun sent => sent.1 = channel).map Prod.snd

def RequestError.toTransport : RequestError → TransportError
  | .http message => .http message

namespace SseClient

def start : SseClient := ⟨.start, .start, 0, .idle⟩

def finish (s : SseClient) (req : JsonRpcRequest) (result : Except RequestError JsonRpcResponse) :
    SseClient :=
  { s with
    client := s.client.onReturn req (result.mapError RequestError.toTransport)
    phase := .idle }

def unroute (s : SseClient) (id : Option JsonRpcId) : SseClient :=
  { s with reader := { s.reader with routes := s.reader.routes.erase id } }

def call (s : SseClient) (call : ClientCall) : SseClient :=
  match s.phase, s.client.next call with
  | .idle, some (client, req) => { s with client := client, phase := .handshake req }
  | _, _ => s

/-- A request with an id is given a route before it is POSTed. -/
def look (s : SseClient) : SseClient :=
  match s.phase, s.reader.endpoint with
  | .handshake req, some url =>
      if url.isEmpty then
        s.finish req (request [some url] .closed (fun _ _ => .ok 200) .closed req)
      else if req.id.isNone then { s with phase := .posting req url none }
      else
        { s with
          reader := { s.reader with routes := s.reader.routes.upsert req.id fun _ => s.channels }
          channels := s.channels + 1
          phase := .posting req url (some s.channels) }
  | _, _ => s

def giveUp (s : SseClient) (waitEnd : WaitEnd) : SseClient :=
  match s.phase with
  | .handshake req => s.finish req (request [] waitEnd (fun _ _ => .ok 200) .closed req)
  | _ => s

/-- A POST that fails ends the request on the spot, one that is refused after its
route has been removed. -/
def posted (s : SseClient) (answer : Except String Nat) : SseClient :=
  match s.phase with
  | .posting req url channel =>
      let result := request [some url] .closed (fun _ _ => answer) .closed req
      match answer, channel with
      | .error _, _ => s.finish req result
      | .ok _, none => s.finish req result
      | .ok status, some channel =>
          if isSuccess status then { s with phase := .waiting req url status channel }
          else (s.unroute req.id).finish req result
  | _ => s

/-- The wait for the response, which ends if there is one in the channel or the
channel is gone, and when the time is up. -/
def receive (s : SseClient) (expired : Bool) : SseClient :=
  match s.phase with
  | .waiting req url status channel =>
      let result := fun reply => request [some url] .closed (fun _ _ => .ok status) reply req
      match s.reader.reply channel with
      | some resp => s.finish req (result (.received resp))
      | none =>
          if !s.reader.routes.rows.any fun row => row.2 = channel then
            (s.unroute req.id).finish req (result .closed)
          else if expired then (s.unroute req.id).finish req (result .timedOut)
          else s
  | _ => s

variable (w : Web)

/-- An event that the reader fails at ends the connection. -/
def onEvent (s : SseClient) (e : ClientEvent) : SseClient :=
  match s.reader.onEvent w e with
  | .ok reader => { s with reader := reader }
  | .error _ => { s with reader := s.reader.drain }

def step (s : SseClient) : SseClientEvent → SseClient
  | .call call => s.call call
  | .look => s.look
  | .giveUp waitEnd => s.giveUp waitEnd
  | .posted answer => s.posted answer
  | .event e => s.onEvent w e
  | .lost => { s with reader := s.reader.drain }
  | .receive => s.receive false
  | .timeout => s.receive true

end SseClient

end Pandaria.Mcp
