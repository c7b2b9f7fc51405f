import Pandaria.Ai.Types

/-!
# Server-sent events

`ai-provider/src/protocol/sse.rs`: the bytes of a response, as the network
hands them over, become a list of events. Every chunk of bytes is decoded by
itself with `String::from_utf8_lossy`, so a character cut in two by a chunk
boundary is lost; blocks are separated by an empty line, and a block that is
still open when the connection closes is parsed as it stands.

`SseDecoder.items` is everything a loop over the decoder is given, up to the
first error: no loop asks again after one. The abort token is looked at when
the decoder is polled, so its answers are numbered by polls.
-/

namespace Pandaria.Ai

/-! ## From bytes to text -/

/-- A character that has begun: how many of its bytes are missing, its code so
far, and what the next byte may be. -/
structure Utf8Pending where
  missing : Nat
  code : Nat
  low : Nat
  high : Nat

def replacementChar : Char := '\ufffd'

/-- The first byte of a character. -/
def utf8Start (b : UInt8) : List Char × Option Utf8Pending :=
  let n := b.toNat
  if n ≤ 0x7f then ([Char.ofNat n], none)
  else if 0xc2 ≤ n ∧ n ≤ 0xdf then ([], some ⟨1, n - 0xc0, 0x80, 0xbf⟩)
  else if n = 0xe0 then ([], some ⟨2, 0, 0xa0, 0xbf⟩)
  else if n = 0xed then ([], some ⟨2, 0xd, 0x80, 0x9f⟩)
  else if 0xe1 ≤ n ∧ n ≤ 0xef then ([], some ⟨2, n - 0xe0, 0x80, 0xbf⟩)
  else if n = 0xf0 then ([], some ⟨3, 0, 0x90, 0xbf⟩)
  else if 0xf1 ≤ n ∧ n ≤ 0xf3 then ([], some ⟨3, n - 0xf0, 0x80, 0xbf⟩)
  else if n = 0xf4 then ([], some ⟨3, 4, 0x80, 0x8f⟩)
  else ([replacementChar], none)

/-- One byte. A character that is broken off is replaced, and the byte that
broke it off starts the next one. -/
def utf8Step : Option Utf8Pending → UInt8 → List Char × Option Utf8Pending
  | none, b => utf8Start b
  | some p, b =>
      let n := b.toNat
      if p.low ≤ n ∧ n ≤ p.high then
        let code := p.code * 64 + (n - 0x80)
        if p.missing = 1 then ([Char.ofNat code], none)
        else ([], some ⟨p.missing - 1, code, 0x80, 0xbf⟩)
      else
        let (cs, next) := utf8Start b
        (replacementChar :: cs, next)

def decodeUtf8 : Option Utf8Pending → List UInt8 → List Char
  | none, [] => []
  | some _, [] => [replacementChar]
  | p, b :: rest =>
      let (cs, next) := utf8Step p b
      cs ++ decodeUtf8 next rest

/-- `String::from_utf8_lossy`. -/
def fromUtf8Lossy (bytes : List UInt8) : List Char := decodeUtf8 none bytes

/-- `&s[..n]`, which panics inside a character. -/
def takeBytes : List Char → Nat → Option (List Char)
  | _, 0 => some []
  | [], _ + 1 => none
  | c :: cs, n + 1 =>
      if c.utf8Size ≤ n + 1 then (takeBytes cs (n + 1 - c.utf8Size)).map (c :: ·) else none

/-- `&s[n..]`, which panics inside a character. -/
def dropBytes : List Char → Nat → Option (List Char)
  | cs, 0 => some cs
  | [], _ + 1 => none
  | c :: cs, n + 1 => if c.utf8Size ≤ n + 1 then dropBytes cs (n + 1 - c.utf8Size) else none

/-! ## Events -/

structure SseEvent where
  event : Option String
  data : String
  id : Option String
deriving DecidableEq

/-- `serde_json`'s two ways in, of a text and of bytes. An error is what it
prints as. -/
structure Serde where
  fromStr : String → Except String Json
  fromSlice : List UInt8 → Except String Json

/-- `SseEvent::json`. The error quotes the data up to its 256th byte, and
`none` is the panic that ends in when that byte is inside a character. -/
def SseEvent.json (serde : Serde) (e : SseEvent) : Option (Except LlmError Json) :=
  match serde.fromStr e.data with
  | .ok v => some (.ok v)
  | .error err =>
      (takeBytes e.data.toList (min e.data.utf8ByteSize 256)).map fun quoted =>
        .error (.streamError .parse
          ("SSE JSON parse error: " ++ err ++ "; data=" ++ String.ofList quoted))

def SseEvent.isDoneMarker (e : SseEvent) : Bool := trim e.data.toList = "[DONE]".toList

/-- `str::lines`, from the part of the line already read. -/
def linesFrom (line : List Char) : List Char → List (List Char)
  | [] => if line.isEmpty then [] else [line]
  | c :: cs =>
      if c = '\n' then
        (if line.getLast? = some '\r' then line.dropLast else line) :: linesFrom [] cs
      else linesFrom (line ++ [c]) cs

/-- The fields of one block while its lines are read. -/
structure SseFields where
  event : Option (List Char)
  id : Option (List Char)
  dataLines : List (List Char)

def SseFields.line (f : SseFields) (line : List Char) : SseFields :=
  if line.head? = some ':' then f
  else if line.contains ':' then
    let field := String.ofList (line.takeWhile (· ≠ ':'))
    let value := (line.dropWhile (· ≠ ':')).tail
    let value := if value.head? = some ' ' then value.tail else value
    if field = "event" then { f with event := some value }
    else if field = "id" then { f with id := some value }
    else if field = "data" then { f with dataLines := f.dataLines ++ [value] }
    else f
  else if line.isEmpty then f
  else { f with dataLines := f.dataLines ++ [line] }

/-- `parse_event`. -/
def parseEvent (raw : List Char) : Option SseEvent :=
  let f := (linesFrom [] raw).foldl SseFields.line ⟨none, none, []⟩
  if f.dataLines.isEmpty && f.event.isNone && f.id.isNone then none
  else some
    { event := f.event.map String.ofList
      data := String.ofList (List.intercalate ['\n'] f.dataLines)
      id := f.id.map String.ofList }

/-- `str::find` and the two halves around what it finds. -/
def splitAtFirst (pattern : List Char) : List Char → Option (List Char × List Char)
  | [] => none
  | c :: cs =>
      if pattern.isPrefixOf (c :: cs) then some ([], (c :: cs).drop pattern.length)
      else (splitAtFirst pattern cs).map fun (raw, rest) => (c :: raw, rest)

/-- `try_flush_event`. A separator of the long form is looked for first, even
behind one of the short form. -/
def tryFlushEvent (buffer : List Char) : Option (Option SseEvent × List Char) :=
  match splitAtFirst ['\r', '\n', '\r', '\n'] buffer with
  | some (raw, rest) => some (parseEvent raw, rest)
  | none => (splitAtFirst ['\n', '\n'] buffer).map fun (raw, rest) => (parseEvent raw, rest)

/-- Flush until there is nothing complete left, at most `n` times. -/
def flushTimes : Nat → List Char → List SseEvent × List Char
  | 0, buffer => ([], buffer)
  | n + 1, buffer =>
      match tryFlushEvent buffer with
      | none => ([], buffer)
      | some (event, rest) =>
          let (events, left) := flushTimes n rest
          (event.toList ++ events, left)

/-- The complete events at the front of a buffer, and what is left. -/
def flushEvents (buffer : List Char) : List SseEvent × List Char :=
  flushTimes buffer.length buffer

theorem splitAtFirst_length {pattern l raw rest : List Char} (hp : pattern ≠ [])
    (h : splitAtFirst pattern l = some (raw, rest)) : rest.length < l.length := by
  induction l generalizing raw with
  | nil => cases h
  | cons c cs ih =>
      rw [splitAtFirst] at h
      split at h
      · injection h with h
        injection h with _ h
        have hlen := List.length_pos_iff.mpr hp
        rw [← h, List.length_drop, List.length_cons]
        omega
      · simp only [Option.map_eq_some_iff, Prod.mk.injEq] at h
        obtain ⟨⟨raw', rest'⟩, h, -, rfl⟩ := h
        exact Nat.lt_succ_of_lt (ih h)

theorem tryFlushEvent_length {buffer rest : List Char} {event : Option SseEvent}
    (h : tryFlushEvent buffer = some (event, rest)) : rest.length < buffer.length := by
  rw [tryFlushEvent] at h
  split at h
  · next raw rest' hs =>
      injection h with h
      injection h with _ h
      subst h
      exact splitAtFirst_length (by simp) hs
  · simp only [Option.map_eq_some_iff, Prod.mk.injEq] at h
    obtain ⟨⟨raw, rest'⟩, hs, -, rfl⟩ := h
    exact splitAtFirst_length (by simp) hs

theorem flushTimes_left {n : Nat} {buffer : List Char} (h : buffer.length ≤ n) :
    tryFlushEvent (flushTimes n buffer).2 = none := by
  induction n generalizing buffer with
  | zero =>
      obtain rfl := List.length_eq_zero_iff.mp (Nat.le_zero.mp h)
      rfl
  | succ n ih =>
      rw [flushTimes]
      split
      · next hnone => exact hnone
      · next event rest hsome =>
          have hlt := tryFlushEvent_length hsome
          exact ih (by omega)

/-- Every event that is complete is flushed before the network is asked for
more. -/
theorem flushEvents_left (buffer : List Char) : tryFlushEvent (flushEvents buffer).2 = none :=
  flushTimes_left (Nat.le_refl _)

/-! ## The decoder -/

/-- What polling the bytes of a response brings. The stream of bytes ends where
the list of these does. -/
inductive NetworkPoll where
  | pending
  | ready (bytes : List UInt8)
  | failed (error : String)

namespace SseDecoder

abbrev Item := Except LlmError SseEvent

/-- Buffered events are handed out one a poll, and `more` goes on inside the
poll that finds none left. -/
def deliver (cancel : Nat → Bool) (more : Nat → List Item) : Nat → List SseEvent → List Item
  | polls, [] => more polls
  | polls, e :: rest =>
      .ok e :: (if cancel polls then [.error .cancelled] else deliver cancel more (polls + 1) rest)

/-- The decoder inside a poll, with nothing complete in its buffer. -/
def read (cancel : Nat → Bool) : List NetworkPoll → List Char → Nat → List Item
  | [], buffer, polls =>
      match parseEvent buffer with
      | some e => .ok e :: (if cancel polls then [.error .cancelled] else [])
      | none => []
  | .pending :: rest, buffer, polls =>
      if cancel polls then [.error .cancelled] else read cancel rest buffer (polls + 1)
  | .failed e :: _, _, _ => [.error (.streamError .network ("SSE network error: " ++ e))]
  | .ready bytes :: rest, buffer, polls =>
      let (events, left) := flushEvents (buffer ++ fromUtf8Lossy bytes)
      deliver cancel (read cancel rest left) polls events

def items (cancel : Nat → Bool) (network : List NetworkPoll) : List Item :=
  if cancel 0 then [.error .cancelled] else read cancel network [] 1

end SseDecoder

end Pandaria.Ai

/-!
## Streams of events, from the provider's end

`ai-provider/src/streaming.rs` and what the providers share of
`providers/shared.rs`. A provider reads the response in a task of its own and
sends events down a channel; the stream ends when the task does. The task ends
in three ways. It returns, it fails, and the error is sent as an `Error` event,
or it panics, which only a log hears of.

The loops over a response differ in how they take one item and in what they
send when the items run out. `streamLoop` is the rest of them.
-/

namespace Pandaria.Ai

/-- `Done` and `Error`, the events that terminate a stream. -/
def AssistantMessageEvent.isTerminal : AssistantMessageEvent → Bool
  | .done .. | .error _ => true
  | _ => false

/-- `AssistantMessageEventStream::to_message`. -/
def toMessage : List AssistantMessageEvent → Except LlmError AssistantMessage
  | [] => .error (.streamError .network "stream ended without Done or Error")
  | .done _ m :: _ => .ok m
  | .error m :: _ =>
      .error (.streamError .protocol (m.errorMessage.getD "stream terminated with error"))
  | _ :: rest => toMessage rest

/-! ### Sending events -/

/-- The events something sends and the state it leaves, or a panic after the
events sent so far. -/
abbrev Sends (σ : Type) := List AssistantMessageEvent × Option σ

section

variable {σ α : Type}

def Sends.andThen (r : Sends σ) (f : σ → Sends σ) : Sends σ :=
  match r with
  | (events, none) => (events, none)
  | (events, some s) => (events ++ (f s).1, (f s).2)

def sendAll (f : σ → α → Sends σ) : List α → σ → Sends σ
  | [], s => ([], some s)
  | a :: as, s => (f s a).andThen (sendAll f as)

/-- How a provider's task ends. -/
inductive TaskEnd where
  | finished
  | failed (e : LlmError)
  | panicked
deriving DecidableEq

/-- What a loop does about one item: go on, or leave. -/
inductive Handled (σ : Type) where
  | next (events : List AssistantMessageEvent) (s : σ)
  | leave (events : List AssistantMessageEvent) (result : TaskEnd)

/-- A loop goes on after what it has sent, unless that was a panic. -/
def Sends.handled : Sends σ → Handled σ
  | (events, none) => .leave events .panicked
  | (events, some s) => .next events s

/-- The `while let` over the items of a response. An item that is an error is
returned at once. -/
def streamLoop (handle : σ → α → Handled σ) (atEnd : σ → List AssistantMessageEvent) :
    List (Except LlmError α) → σ → List AssistantMessageEvent × TaskEnd
  | [], s => (atEnd s, .finished)
  | .error e :: _, _ => ([], .failed e)
  | .ok a :: rest, s =>
      match handle s a with
      | .leave events result => (events, result)
      | .next events s =>
          let (more, result) := streamLoop handle atEnd rest s
          (events ++ more, result)

end

/-- The message of a response before anything of it has been read. -/
def AssistantMessage.blank (provider model : String) (now : SystemTime) : AssistantMessage :=
  { content := []
    provider := provider
    api := { provider := provider, model := model }
    model := model
    usage := .zero
    stopReason := .stop
    responseId := none
    errorMessage := none
    timestamp := now }

/-- The message of the `Error` event a task that fails is closed with. -/
def failureMessage (provider model : String) (now : SystemTime) (e : LlmError) :
    AssistantMessage :=
  { AssistantMessage.blank provider model now with
    stopReason := .error
    errorMessage := some (provider ++ " '" ++ model ++ "': " ++ e.toString) }

/-- All events of the stream a task fills. -/
def taskEvents (provider model : String) (now : SystemTime) :
    List AssistantMessageEvent × TaskEnd → List AssistantMessageEvent
  | (events, .failed e) => events ++ [.error (failureMessage provider model now e)]
  | (events, .finished) | (events, .panicked) => events

end Pandaria.Ai
