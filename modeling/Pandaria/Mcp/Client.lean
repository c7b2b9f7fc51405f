import Pandaria.Ai.Sse
import Pandaria.Lib.Table
import Pandaria.Mcp.Handler
import Pandaria.Agent.Ssrf

/-!
# The SSE transport of the MCP client

`SseTransport` of `pawbun-toolkit/src/mcp/transport.rs`: a task reads the stream
of the server, again after every connection that has ended, and a request waits
for the URL the task has found, POSTs there, and waits for the response the task
routes to it by its id.

Every chunk of the stream is decoded by itself. The watch channel for the URL is
here the list of the values put into it; the `oneshot` channel of a request is
known by a number.
-/

namespace Pandaria.Mcp

open Pandaria.Ai
open Pandaria.Lib
open Pandaria.Toolkit

/-! ## The parser -/

def maxSseBuffer : Nat := 1024 * 1024

/-- What is read of an event: its id and its retry interval are not. -/
structure ClientEvent where
  event : Option String
  data : List String
deriving DecidableEq

/-- `SseEvent::data`. -/
def ClientEvent.text (e : ClientEvent) : String := "\n".intercalate e.data

def stripPrefix? (pre : String) (line : List Char) : Option (List Char) :=
  if pre.toList.isPrefixOf line then some (line.drop pre.length) else none

def trimStart (s : List Char) : List Char := s.dropWhile isWhitespace

def ClientEvent.line (e : ClientEvent) (line : List Char) : ClientEvent :=
  match stripPrefix? "event:" line with
  | some rest => { e with event := some (String.ofList (trimStart rest)) }
  | none =>
      match stripPrefix? "data:" line with
      | some rest => { e with data := e.data ++ [String.ofList (trimStart rest)] }
      | none => e

def parseBlock (block : List Char) : ClientEvent :=
  (linesFrom [] block).foldl ClientEvent.line ⟨none, []⟩

/-- `replace("\r\n", "\n")`. -/
def replaceCrLf : List Char → List Char
  | [] => []
  | c :: cs =>
      if c = '\r' ∧ cs.head? = some '\n' then replaceCrLf cs else c :: replaceCrLf cs

/-- The text up to the first empty line and the text after it. -/
def splitBlock (block : List Char) : List Char → Option (List Char × List Char)
  | [] => none
  | c :: cs =>
      if c = '\n' ∧ cs.head? = some '\n' then some (block, cs.drop 1)
      else if c = '\r' ∧ cs.take 3 = ['\n', '\r', '\n'] then some (block, cs.drop 3)
      else splitBlock (block ++ [c]) cs

/-- The text behind the first empty line, of those that end in `\n`. -/
def afterBreak : List Char → Option (List Char)
  | [] => none
  | c :: cs => if c = '\n' ∧ cs.head? = some '\n' then some (cs.drop 1) else afterBreak cs

def byteLength (s : List Char) : Nat := (s.map Char.utf8Size).sum

/-- `SseParser`, by its buffer. -/
abbrev SseParser := List Char

namespace SseParser

/-- A chunk of bytes. The buffer is cut when it is too long, which panics inside
a character. -/
def feed (buffer : SseParser) (bytes : List UInt8) : Option SseParser :=
  let buffer := buffer ++ fromUtf8Lossy bytes
  if maxSseBuffer < byteLength buffer then
    (dropBytes buffer (maxSseBuffer / 2)).map fun tail => (afterBreak tail).getD []
  else some buffer

def nextEvent (buffer : SseParser) : Option (ClientEvent × SseParser) :=
  (splitBlock [] buffer).map fun (block, rest) => (parseBlock (replaceCrLf block), rest)

/-- `SseEvent`, with what the transport does not read. -/
structure Event where
  event : Option String
  data : List String
  id : Option String
  retry : Option Nat
deriving DecidableEq

/-- `parse::<u64>`. -/
def parseU64 (s : List Char) : Option Nat :=
  let digits := if s.head? = some '+' then s.tail else s
  let n := digits.foldl (fun n c => 10 * n + (c.toNat - '0'.toNat)) 0
  if !digits.isEmpty && digits.all Char.isDigit && n < 2 ^ 64 then some n else none

def Event.line (e : Event) (line : List Char) : Event :=
  match stripPrefix? "event:" line with
  | some rest => { e with event := some (String.ofList (trimStart rest)) }
  | none =>
      match stripPrefix? "data:" line with
      | some rest => { e with data := e.data ++ [String.ofList (trimStart rest)] }
      | none =>
          match stripPrefix? "id:" line with
          | some rest => { e with id := some (String.ofList (trimStart rest)) }
          | none =>
              match (stripPrefix? "retry:" line).bind fun rest => parseU64 (trimStart rest) with
              | some ms => { e with retry := some ms }
              | none => e

/-- `parse_block` of the text in front of an empty line. -/
def parseEvent (block : List Char) : Event :=
  (linesFrom [] (replaceCrLf block)).foldl Event.line ⟨none, [], none, none⟩

section Draining
variable {α : Type}

/-- The loop over `next_event`, at most `n` times, with `parse` for `parse_block`. -/
def drainTimes (parse : List Char → α) : (n : Nat) → SseParser → List α × SseParser
  | 0, buffer => ([], buffer)
  | n + 1, buffer =>
      match splitBlock [] buffer with
      | none => ([], buffer)
      | some (block, rest) =>
          let (events, left) := drainTimes parse n rest
          (parse block :: events, left)

/-- All complete events of a buffer, and what is left in it. -/
def drain (parse : List Char → α) (buffer : SseParser) : List α × SseParser :=
  drainTimes parse buffer.length buffer

/-- Chunks that are fed one after the other, with the events drained after each. There is
nothing where `feed` panics. -/
def run (parse : List Char → α) (buffer : SseParser) :
    List (List UInt8) → Option (List α × SseParser)
  | [] => some ([], buffer)
  | bs :: chunks =>
      (feed buffer bs).bind fun buffer =>
        let (events, left) := drain parse buffer
        (run parse left chunks).map fun (more, left) => (events ++ more, left)

end Draining

end SseParser

/-! ## The task that reads the stream -/

/-- The crates the two ends of the transport rest on: `url`, `serde_json`, and
`axum`, which writes an event on the stream. -/
structure Web where
  parseUrl : UrlParser
  join : String → String → String
  responseFromStr : String → Except String JsonRpcResponse
  eventText : String → String → String

inductive ReaderError where
  | connect (e : String)
  | status (code : Nat)
  | endpoint (e : UrlError)
  | stream (e : String)
  | panicked
deriving DecidableEq

structure Reader where
  /-- The values put into the channel for the POST URL. -/
  postUrl : List (Option String)
  /-- The requests that wait, by id, each with its channel. -/
  routes : Table (Option JsonRpcId) Nat
  /-- What has been sent into the channels of requests. -/
  routed : List (Nat × JsonRpcResponse)

inductive Chunk where
  | bytes (bs : List UInt8)
  | closed
  | failed (e : String)

namespace Reader

def start : Reader := ⟨[], .empty, []⟩

/-- `drain_pending_routes`, and the URL is no longer valid. -/
def drain (r : Reader) : Reader :=
  { postUrl := r.postUrl ++ [none]
    routes := .empty
    routed := r.routed ++ r.routes.rows.map fun (id, channel) =>
      (channel, ⟨id, none, some ⟨-32000, "SSE connection lost, request not resent", none⟩⟩) }

variable (w : Web)

def onEvent (r : Reader) (e : ClientEvent) : Except ReaderError Reader :=
  if e.event = some "endpoint" then
    match validateUrl w.parseUrl e.text with
    | .error err => .error (.endpoint err)
    | .ok () => .ok { r with postUrl := r.postUrl ++ [some e.text] }
  else
    match w.responseFromStr e.text with
    | .error _ => .ok r
    | .ok resp =>
        match r.routes.get? resp.id with
        | none => .ok r
        | some channel =>
            .ok { r with
              routes := r.routes.erase resp.id
              routed := r.routed ++ [(channel, resp)] }

/-- The events that are complete, at most as many as the buffer has characters. -/
def onEvents : (fuel : Nat) → Reader → SseParser → Reader × Except ReaderError SseParser
  | 0, r, buffer => (r, .ok buffer)
  | fuel + 1, r, buffer =>
      match SseParser.nextEvent buffer with
      | none => (r, .ok buffer)
      | some (e, rest) =>
          match r.onEvent w e with
          | .error err => (r, .error err)
          | .ok r => onEvents fuel r rest

/-- The loop of `sse_reader_task`. When there are no more chunks it waits for one. -/
def onChunks (r : Reader) (buffer : SseParser) :
    List Chunk → Reader × Option (Except ReaderError Unit)
  | [] => (r, none)
  | .closed :: _ => (r, some (.ok ()))
  | .failed e :: _ => (r, some (.error (.stream e)))
  | .bytes bs :: chunks =>
      match SseParser.feed buffer bs with
      | none => (r, some (.error .panicked))
      | some buffer =>
          match onEvents w buffer.length r buffer with
          | (r, .error err) => (r, some (.error err))
          | (r, .ok buffer) => r.onChunks buffer chunks

end Reader

/-- How an attempt to connect goes. -/
inductive Attempt where
  | failed (e : String)
  | answered (status : Nat) (chunks : List Chunk)

def isSuccess (status : Nat) : Bool := decide (200 ≤ status ∧ status < 300)

namespace Reader

variable (w : Web)

/-- `sse_reader_task`. -/
def task (r : Reader) : Attempt → Reader × Option (Except ReaderError Unit)
  | .failed e => (r, some (.error (.connect e)))
  | .answered status chunks =>
      if isSuccess status then r.onChunks w [] chunks else (r, some (.error (.status status)))

/-- `sse_reader_loop` after `retries` failures in a row, and whether it has ended. -/
def loop (maxRetries : Nat) (r : Reader) (retries : Nat) : List Attempt → Reader × Bool
  | [] => (r, false)
  | a :: attempts =>
      match r.task w a with
      | (r, none) => (r, false)
      | (r, some (.error .panicked)) => (r, true)
      | (r, some (.ok ())) => r.drain.loop maxRetries 0 attempts
      | (r, some (.error _)) =>
          if 0 < maxRetries ∧ maxRetries < retries + 1 then (r.drain, true)
          else r.drain.loop maxRetries (retries + 1) attempts

end Reader

/-! ## What the server writes first -/

/-- The text of a `Uuid`. -/
structure Uuid where
  text : String
  length : text.length = 36
  digits : ∀ c ∈ text.toList, c.isDigit ∨ 'a' ≤ c ∧ c ≤ 'f' ∨ c = '-'

/-- Where the requests of a session go. -/
def messagePath (session : Uuid) : String := "/message?sessionId=" ++ session.text

/-- The first event of `sse_handler`. -/
def endpointEvent (w : Web) (session : Uuid) : String :=
  w.eventText "endpoint" (messagePath session)

def utf8Bytes (s : String) : List UInt8 := s.toList.flatMap String.utf8EncodeChar

/-! ## Requests -/

/-- The errors of `TransportError` a request can end in. -/
inductive RequestError where
  | http (message : String)
deriving DecidableEq

/-- How a wait for the URL ends that has not seen one. -/
inductive WaitEnd where
  | closed
  | timedOut

/-- How a wait for a response ends. -/
inductive ReplyEnd where
  | received (resp : JsonRpcResponse)
  | closed
  | timedOut

/-- The first URL among the values the channel takes while the request waits. -/
def awaitPostUrl (values : List (Option String)) (waitEnd : WaitEnd) :
    Except RequestError String :=
  match values.findSome? id with
  | some url => .ok url
  | none =>
      match waitEnd with
      | .closed => .ok ""
      | .timedOut => .error (.http "SSE endpoint handshake timed out")

/-- `request`: the values of the URL it sees, what the POST to a URL is answered
with, and what comes of the wait for the response. -/
def request (values : List (Option String)) (waitEnd : WaitEnd)
    (post : String → JsonRpcRequest → Except String Nat) (reply : ReplyEnd)
    (req : JsonRpcRequest) : Except RequestError JsonRpcResponse :=
  match awaitPostUrl values waitEnd with
  | .error e => .error e
  | .ok url =>
      if url.isEmpty then .error (.http "SSE endpoint handshake failed (channel closed)")
      else
        match post url req with
        | .error e => .error (.http ("POST failed: " ++ e))
        | .ok status =>
            if req.id.isNone then .ok .empty
            else if !isSuccess status then
              .error (.http ("POST endpoint returned " ++ status.repr))
            else
              match reply with
              | .received resp => .ok resp
              | .closed => .error (.http "SSE response channel closed")
              | .timedOut => .error (.http "SSE response timed out after 60s")

end Pandaria.Mcp
