import Mathlib.Data.List.AList
import Pandaria.Agent.Strategy
import Pandaria.Lib.Search

/-!
# The terminal client

`tui/src/app.rs` with what it keeps: the sessions and their messages of
`state.rs`, the queue of `input_queue.rs`, the pastes of `paste.rs`, and the
shell commands of `bash_mode.rs`. The main loop takes one event at a time, from
the keyboard, from the server or from a task it has spawned earlier, and each
is a step. A step that is `none` panics.

What is spawned is kept as a list of tasks, and a task that answers does so by
an event of its own, whenever it may. The editor has a model of its own and is
here the text it holds. Overlays, scrolling, timestamps and what is folded on
the screen are left out, and so are the messages of the log.
-/

namespace Pandaria.Tui

open Pandaria.Ai (trim isWhitespace)
open Pandaria.Agent (lines)

/-! ## Pastes -/

/-- The contents of the large pastes by their ids. -/
structure PasteStore where
  markers : List (Nat × List Char)
  nextId : Nat

namespace PasteStore

def new : PasteStore := ⟨[], 0⟩

def marker (id lineCount : Nat) : List Char :=
  ("[paste #" ++ toString id ++ " +" ++ toString lineCount ++ " lines]").toList

def store (content : List Char) (p : PasteStore) : List Char × PasteStore :=
  let lineCount := (lines content).length
  if lineCount ≤ 10 then ((content.reverse.dropWhile (· = '\n')).reverse, p)
  else
    (marker p.nextId lineCount,
      { markers := p.markers ++ [(p.nextId, content)], nextId := p.nextId + 1 })

/-- `expand`, with the rows of the hash map in the order it gives them in. -/
def expandRows (rows : List (Nat × List Char)) (input : List Char) : List Char :=
  rows.foldl (fun result row =>
    Lib.replace (marker row.1 (lines row.2).length) row.2 result) input

end PasteStore

/-! ## Shell commands -/

/-- `detect_bash_mode`. -/
def detectBashMode (input : List Char) : Option (List Char) :=
  match trim input with
  | '!' :: '!' :: rest => some (rest.dropWhile isWhitespace)
  | '!' :: rest => some (rest.dropWhile isWhitespace)
  | _ => none

def isDoubleBang (input : List Char) : Bool :=
  match trim input with
  | '!' :: '!' :: _ => true
  | _ => false

structure BashResult where
  command : String
  stdout : String
  stderr : String
  exitCode : Option Int
  timedOut : Bool

def endLine (s : String) : String := if s.toList.getLast? = some '\n' then s else s ++ "\n"

/-- `format_for_send`. -/
def formatForSend (result : BashResult) (showCommand : Bool) : String :=
  let text := if showCommand then "$ " ++ result.command ++ "\n\n" else ""
  let text := if result.stdout = "" then text else text ++ endLine result.stdout
  let text := if result.stderr = "" then text
    else (if text = "" then text else text ++ "\n") ++ "stderr:\n" ++ endLine result.stderr
  let text := if result.timedOut then text ++ "\n[timed out after 30s]\n" else text
  let text := match result.exitCode with
    | some code => text ++ "\n[exit code: " ++ toString code ++ "]\n"
    | none => text
  String.ofList (trim text.toList)

/-! ## Messages -/

inductive MessageRole where
  | user
  | assistant
deriving DecidableEq

inductive MessageStatus where
  | streaming
  | complete
  | aborted
  | error
deriving DecidableEq

inductive ToolCallState where
  | pending
  | success
  | error
deriving DecidableEq

structure ToolCallWidget where
  callId : String
  name : String
  state : ToolCallState
  content : List String
deriving DecidableEq

/-- A line of the screen is here the text it is made from. -/
inductive MessageBlock where
  | text (lines : List String)
  | toolCall (widget : ToolCallWidget)
  | thinking (text : String)
  | bashExecution (command stdout stderr : String) (exitCode : Option Int)
deriving DecidableEq

structure RenderedMessage where
  role : MessageRole
  blocks : List MessageBlock
  status : MessageStatus
deriving DecidableEq

/-- The oldest messages go until there are no more than `max`. -/
def keepLast (max : Nat) (messages : List RenderedMessage) : List RenderedMessage :=
  messages.drop (messages.length - max)

/-- Change the last message, if there is one. -/
def onLast (f : RenderedMessage → RenderedMessage) (messages : List RenderedMessage) :
    List RenderedMessage :=
  match messages.getLast? with
  | some last => messages.dropLast ++ [f last]
  | none => messages

structure StreamingBuffer where
  textContent : String
  thinkingContent : String
  pendingToolCalls : List ToolCallWidget
  toolArgBuffers : AList fun _ : String => String

def StreamingBuffer.empty : StreamingBuffer := ⟨"", "", [], ∅⟩

structure SessionInfo where
  id : String
  title : Option String
  model : String
  contextWindow : Option Nat
  createdAt : Option String

structure SessionState where
  info : SessionInfo
  messages : List RenderedMessage
  streaming : Option StreamingBuffer
  /-- The code and the message of the last error. -/
  error : Option (String × String)

def SessionState.new (info : SessionInfo) : SessionState := ⟨info, [], none, none⟩

/-! ## History -/

inductive HistoricalContent where
  | text (text : String)
  | thinking (thinking : String)
  /-- With the arguments as they are printed. -/
  | toolCall (id name : String) (arguments : String)
  | image
  | video
  | audio

inductive HistoricalMessage where
  | user (content : List HistoricalContent)
  | assistant (content : List HistoricalContent)
  | toolResult (toolName : String) (content : List HistoricalContent)

def HistoricalContent.text? : HistoricalContent → Option String
  | .text s => some s
  | _ => none

def flushLines (textLines : List String) : List MessageBlock :=
  if textLines = [] then [] else [.text textLines]

/-- The blocks of a reply, with the lines of text that have been read so far. -/
def replyBlocks (textLines : List String) : List HistoricalContent → List MessageBlock
  | [] => flushLines textLines
  | .text text :: rest => replyBlocks (textLines ++ [text]) rest
  | .thinking thinking :: rest =>
      flushLines textLines ++ .thinking thinking :: replyBlocks [] rest
  | .toolCall id name arguments :: rest =>
      flushLines textLines ++
        .toolCall ⟨id, name, .pending, (lines arguments.toList).map String.ofList⟩ ::
          replyBlocks [] rest
  | .image :: rest => replyBlocks (textLines ++ ["[Image]"]) rest
  | .video :: rest => replyBlocks (textLines ++ ["[Video]"]) rest
  | .audio :: rest => replyBlocks (textLines ++ ["[Audio]"]) rest

/-- `convert_history`, of one message. -/
def convertMessage : HistoricalMessage → RenderedMessage
  | .user content => ⟨.user, [.text (content.filterMap HistoricalContent.text?)], .complete⟩
  | .assistant content => ⟨.assistant, replyBlocks [] content, .complete⟩
  | .toolResult toolName content =>
      let text := String.intercalate "\n" (content.filterMap HistoricalContent.text?)
      ⟨.assistant, [.text ["ToolResult(" ++ toolName ++ "): " ++ text]], .complete⟩

/-! ## The state -/

inductive AppState where
  | connected
  | busy
deriving DecidableEq

inductive ConnectionStatus where
  | connected
  | reconnecting
deriving DecidableEq

structure QueuedInput where
  text : List Char
  isBash : Bool

inductive QueueStrategy where
  | steer
  | followUp
deriving DecidableEq

structure InputQueue where
  pending : List QueuedInput
  strategy : QueueStrategy

def InputQueue.new : InputQueue := ⟨[], .followUp⟩

/-- What is spawned. -/
inductive Task where
  | sendMessage (session content : String)
  /-- The events of a session, from then on and until the next such task. -/
  | listen (session : String)
  | interrupt (session : String)
  | bash (command : List Char) (showCommand : Bool)
  | createSession (title : Option String)
  | fetchSession (id : String)
  | fetchHistory (id : String)
  | deleteSession (id : String)
  | updateModel (id model : String)
  | updateSystemPrompt (id prompt : String)
  | renameSession (id title : String)
  | forkSession (id : String)
  | compactSession (id : String)
  | testConnection (url : String)

structure App where
  state : AppState
  sessions : AList fun _ : String => SessionState
  activeSession : String
  connectionStatus : ConnectionStatus
  lastError : Option String
  editor : List Char
  pasteStore : PasteStore
  contextWindow : Option Nat
  inputTokens : Nat
  inputQueue : InputQueue
  running : Bool
  showSettings : Bool
  /-- All that has been spawned, in its order. -/
  spawned : List Task

structure UiConfig where
  models : List String
  maxHistory : Nat

/-- The orders hash maps give their rows in, and how a line of the screen reads:
neither is said by the client. -/
structure Surroundings where
  rows : List (Nat × List Char) → List (Nat × List Char)
  /-- The first key. -/
  firstKey : List String → Option String
  firstKey_mem : ∀ keys key, firstKey keys = some key → key ∈ keys
  lineText : String → String

namespace App

def new (info : SessionInfo) : App :=
  { state := .connected
    sessions := AList.singleton info.id (.new info)
    activeSession := info.id
    connectionStatus := .connected
    lastError := none
    editor := []
    pasteStore := .new
    contextWindow := info.contextWindow
    inputTokens := 0
    inputQueue := .new
    running := true
    showSettings := false
    spawned := [] }

/-- `active_session`, which panics where there is none. -/
def active (a : App) : Option SessionState := a.sessions.lookup a.activeSession

/-- `active_session_mut`. -/
def modifyActive (f : SessionState → SessionState) (a : App) : Option App :=
  a.active.map fun s => { a with sessions := a.sessions.insert a.activeSession (f s) }

def spawn (tasks : List Task) (a : App) : App := { a with spawned := a.spawned ++ tasks }

def say (text : String) (s : SessionState) : SessionState :=
  { s with messages := s.messages ++ [⟨.assistant, [.text [text]], .complete⟩] }

/-! ## Turns -/

def startStreamingTurn (content : String) (a : App) : Option App :=
  let a := a.spawn [.listen a.activeSession, .sendMessage a.activeSession content]
  (a.modifyActive fun s =>
    { s with
      messages := s.messages ++ [⟨.assistant, [], .streaming⟩]
      streaming := some .empty }).map fun a => { a with state := .busy }

/-- A message of the user, and the turn it starts. -/
def startWith (cfg : UiConfig) (block : MessageBlock) (content : String) (a : App) : Option App :=
  (a.modifyActive fun s =>
    { s with
      messages := keepLast cfg.maxHistory (s.messages ++ [⟨.user, [block], .complete⟩]) }).bind
    (startStreamingTurn content)

def sendUserMessage (cfg : UiConfig) (text : String) (a : App) : Option App :=
  a.startWith cfg (.text [text]) text

def spawnBashTask (command : List Char) (showCommand : Bool) (a : App) : App :=
  a.spawn [.bash command showCommand]

/-- `finalize_bash_message`. -/
def finalizeBashMessage (cfg : UiConfig) (result : BashResult) (textToSend : String) (a : App) :
    Option App :=
  a.startWith cfg (.bashExecution result.command result.stdout result.stderr result.exitCode)
    textToSend

/-- The mark of a reply that is cut off by a steering message. -/
def abortReply (m : RenderedMessage) : RenderedMessage :=
  if m.role = .assistant ∧ m.status = .streaming then { m with status := .aborted } else m

def performSteer (cfg : UiConfig) (text : List Char) (bashCommand : Option (List Char))
    (showCommand : Bool) (a : App) : Option App :=
  let a := a.spawn [.interrupt a.activeSession]
  (a.modifyActive fun s =>
    { s with messages := onLast abortReply s.messages, streaming := none }).bind fun a =>
    let a := { a with state := .connected }
    match bashCommand with
    | some command => some (a.spawnBashTask command showCommand)
    | none => a.sendUserMessage cfg (String.ofList text)

end App

/-! ## Events of the server -/

/-- With what `handle_server_event` reads of it. -/
inductive ServerEvent where
  | messageStart
  | textDelta (delta : String)
  | thinkingDelta (delta : String)
  | toolCallStarted (callId name : String)
  | toolCallDelta (callId delta : String)
  | toolCallDone (callId : String) (result : Option String) (isError : Bool)
  | turnEnd (inputTokens : Option Nat)
  | error (code message : String)

/-- The first text block is the text; it comes last if there was none. -/
def setText (text : String) : List MessageBlock → List MessageBlock
  | [] => [.text [text]]
  | .text _ :: rest => .text [text] :: rest
  | block :: rest => block :: setText text rest

def setThinking (text : String) : List MessageBlock → List MessageBlock
  | [] => [.thinking text]
  | .thinking _ :: rest => .thinking text :: rest
  | block :: rest => block :: setThinking text rest

def ToolCallWidget.finish (result : Option String) (isError : Bool) (w : ToolCallWidget) :
    ToolCallWidget :=
  { w with
    state := if isError then .error else .success
    content := match result with
      | some text => [text]
      | none => w.content }

/-- The first call of that id is done. -/
def finishCall (callId : String) (result : Option String) (isError : Bool) :
    List MessageBlock → List MessageBlock
  | [] => []
  | .toolCall w :: rest =>
      if w.callId = callId then .toolCall (w.finish result isError) :: rest
      else .toolCall w :: finishCall callId result isError rest
  | block :: rest => block :: finishCall callId result isError rest

def SessionState.onReply (f : List MessageBlock → List MessageBlock) (s : SessionState) :
    SessionState :=
  { s with messages := onLast (fun m => { m with blocks := f m.blocks }) s.messages }

/-- What an event changes of the active session. -/
def SessionState.hear (s : SessionState) : ServerEvent → SessionState
  | .messageStart => s
  | .textDelta delta =>
      match s.streaming with
      | none => s
      | some buf =>
          let text := buf.textContent ++ delta
          ({ s with streaming := some { buf with textContent := text } } : SessionState).onReply
            (setText text)
  | .thinkingDelta delta =>
      match s.streaming with
      | none => s.onReply (setThinking "")
      | some buf =>
          let text := buf.thinkingContent ++ delta
          ({ s with streaming := some { buf with thinkingContent := text } } :
            SessionState).onReply (setThinking text)
  | .toolCallStarted callId name =>
      let widget : ToolCallWidget := ⟨callId, name, .pending, []⟩
      let streaming := s.streaming.map fun buf =>
        { buf with pendingToolCalls := buf.pendingToolCalls ++ [widget] }
      ({ s with streaming := streaming } : SessionState).onReply (· ++ [.toolCall widget])
  | .toolCallDelta callId delta =>
      { s with streaming := s.streaming.map fun buf =>
          let args := ((buf.toolArgBuffers.lookup callId).getD "") ++ delta
          { buf with toolArgBuffers := buf.toolArgBuffers.insert callId args } }
  | .toolCallDone callId result isError => s.onReply (finishCall callId result isError)
  | .turnEnd _ =>
      { s with
        messages := onLast (fun m => { m with status := .complete }) s.messages
        streaming := none }
  | .error code message =>
      { s with
        messages := onLast (fun m => { m with status := .error }) s.messages
        error := some (code, message)
        streaming := none }

namespace App

/-- The next of the queue, after a turn. -/
def dequeue (cfg : UiConfig) (a : App) : Option App :=
  match a.inputQueue.pending with
  | [] => some a
  | item :: rest =>
      let a := { a with inputQueue := { a.inputQueue with pending := rest } }
      if item.isBash then
        match detectBashMode item.text with
        | some command => some (a.spawnBashTask command (isDoubleBang item.text))
        | none => some a
      else a.sendUserMessage cfg (String.ofList item.text)

def handleServerEvent (cfg : UiConfig) (e : ServerEvent) (a : App) : Option App :=
  let status : ConnectionStatus := match e with
    | .messageStart => .connected
    | .error code _ =>
        if code = "sse_reconnecting" ∨ code = "sse_parse_error" then .reconnecting
        else a.connectionStatus
    | _ => a.connectionStatus
  let a := { a with connectionStatus := status }
  (a.modifyActive fun s => s.hear e).bind fun a =>
    match e with
    | .turnEnd inputTokens =>
        let a := { a with inputTokens := inputTokens.getD a.inputTokens, state := .connected }
        (a.modifyActive fun s =>
          { s with messages := keepLast cfg.maxHistory s.messages }).bind (dequeue cfg)
    | .error _ _ => some { a with state := .connected }
    | _ => some a

/-! ## What the user does -/

/-- The queue takes what is submitted while a turn runs. -/
def submitInput (cfg : UiConfig) (env : Surroundings) (forceSteer : Bool) (a : App) : Option App :=
  let text := a.editor
  let a := { a with editor := [] }
  if (trim text).isEmpty || text.head? = some '/' then some a
  else
    let bashCommand := detectBashMode text
    let showCommand := bashCommand.isSome && isDoubleBang text
    let text := PasteStore.expandRows (env.rows a.pasteStore.markers) text
    if a.state = .busy then
      if forceSteer || a.inputQueue.strategy = .steer then
        a.performSteer cfg text bashCommand showCommand
      else
        let item := { text := text, isBash := bashCommand.isSome }
        some { a with
          inputQueue := { a.inputQueue with pending := a.inputQueue.pending ++ [item] } }
    else match bashCommand with
      | some command => some (a.spawnBashTask command showCommand)
      | none => a.sendUserMessage cfg (String.ofList text)

def handlePaste (data : List Char) (cursor : Nat) (a : App) : App :=
  let (inserted, store) := a.pasteStore.store data
  { a with
    pasteStore := store
    editor := a.editor.take cursor ++ inserted ++ a.editor.drop cursor }

/-- The key `AppRestoreQueue`. -/
def restoreQueue (a : App) : App :=
  match a.inputQueue.pending.getLast? with
  | none => a
  | some item =>
      { a with
        editor := item.text
        inputQueue := { a.inputQueue with pending := a.inputQueue.pending.dropLast } }

/-- The key `AppInterrupt`. -/
def interrupt (a : App) : Option App :=
  if a.state = .busy then
    ((a.spawn [.interrupt a.activeSession]).modifyActive fun s =>
      { s with messages := onLast (fun m => { m with status := .aborted }) s.messages }).map
      fun a => { a with state := .connected }
  else some { a with editor := [] }

/-- The next model of the list, or the one before, which panics if there is none. -/
def nextModel (models : List String) (forward : Bool) (current : String) : Option String :=
  let pos := (models.findIdx? (· = current)).getD 0
  models[if forward then (pos + 1) % models.length
    else (if pos = 0 then models.length - 1 else pos - 1) % models.length]?

def cycleModel (cfg : UiConfig) (forward : Bool) (a : App) : Option App :=
  a.active.bind fun s =>
    (nextModel cfg.models forward s.info.model).bind fun model =>
      (a.spawn [.updateModel s.info.id model]).modifyActive fun s =>
        { s with info := { s.info with model := model } }

/-! ## Commands -/

/-- The text of the last message of the user that has one. -/
def lastUserText (env : Surroundings) (messages : List RenderedMessage) : Option String :=
  messages.reverse.findSome? fun m =>
    if m.role = .user then
      m.blocks.findSome? fun
        | .text ls => some (String.intercalate "\n" (ls.map env.lineText))
        | _ => none
    else none

/-- The product wraps, as in a release build. -/
def tokensText (input : Nat) (window : Option Nat) : String :=
  let pct := match window with
    | some w => if 0 < w then min (input * 100 % 2 ^ 64 / w) 100 else 0
    | none => 0
  "Tokens: " ++ toString input ++ " / " ++ (window.map toString).getD "?" ++
    " (" ++ toString pct ++ "%)"

def treeText (messages : List RenderedMessage) : String :=
  "Session tree:\n" ++ String.intercalate "\n" (messages.zipIdx.map fun (m, i) =>
    toString i ++ ": " ++ match m.role with
      | .user => "User"
      | .assistant => "Assistant")

/-- A command, and what the file system says to one that asks it. -/
inductive Command where
  | quit
  | newSession (title : Option String)
  | switchSession (id : String)
  | selectModel (id : String)
  | clear
  | connect (url : String)
  | auth
  | tokens
  | retry
  | compact
  | rename (title : String)
  | tree
  | fork
  | settings
  | imported (filename : String) (bytes : Except String Nat)
  /-- A copy, a dump or an export that fails. -/
  | failed (error : String)
  | deleteSession
  | systemPrompt (prompt : String)
  | skill (name : String)

def command (cfg : UiConfig) (env : Surroundings) (a : App) : Command → Option App
  | .quit => some { a with running := false }
  | .newSession title => some (a.spawn [.createSession title])
  | .switchSession id =>
      match a.sessions.lookup id with
      | none => some a
      | some s =>
          some ({ a with activeSession := id, contextWindow := s.info.contextWindow }.spawn
            [.fetchSession id, .fetchHistory id])
  | .selectModel id =>
      a.active.bind fun s =>
        (a.spawn [.updateModel s.info.id id]).modifyActive fun s =>
          { s with info := { s.info with model := id } }
  | .clear => a.modifyActive fun s => { s with messages := [] }
  | .connect url => some (a.spawn [.testConnection url])
  | .auth => some (a.spawn [.testConnection "(auth)"])
  | .tokens => a.modifyActive (say (tokensText a.inputTokens a.contextWindow))
  | .retry =>
      a.active.bind fun s =>
        match lastUserText env s.messages with
        | some text => a.startStreamingTurn text
        | none => some a
  | .compact => some (a.spawn [.compactSession a.activeSession])
  | .rename title => some (a.spawn [.renameSession a.activeSession title])
  | .tree => a.active.bind fun s => a.modifyActive (say (treeText s.messages))
  | .fork => a.active.bind fun s => some (a.spawn [.forkSession s.info.id])
  | .settings => some { a with showSettings := !a.showSettings }
  | .imported filename (.ok bytes) =>
      a.modifyActive (say ("Imported " ++ filename ++ " (" ++ toString bytes ++ " bytes)"))
  | .imported _ (.error e) => some { a with lastError := some ("import failed: " ++ e) }
  | .failed error => some { a with lastError := some error }
  | .deleteSession => some (a.spawn [.deleteSession a.activeSession])
  | .systemPrompt prompt => some (a.spawn [.updateSystemPrompt a.activeSession prompt])
  | .skill name => if name = "" then some a else a.sendUserMessage cfg ("/skill:" ++ name)

/-! ## What the tasks answer -/

inductive TaskAction where
  | sessionCreated (info : SessionInfo)
  | connectionTested (url : String) (ok : Bool)
  | sessionFetched (info : SessionInfo)
  | sessionDeleted (id : String)
  | historyLoaded (id : String) (messages : List HistoricalMessage)
  | bashCompleted (result : BashResult) (showCommand : Bool)

def handleTaskAction (cfg : UiConfig) (env : Surroundings) (a : App) : TaskAction → Option App
  | .sessionCreated info =>
      some { a with
        sessions := a.sessions.insert info.id (.new info)
        activeSession := info.id
        contextWindow := info.contextWindow }
  | .connectionTested url ok =>
      some (if ok then a else { a with lastError := some ("Could not connect to " ++ url) })
  | .sessionFetched info =>
      let sessions := match a.sessions.lookup info.id with
        | some s => a.sessions.insert info.id { s with info := info }
        | none => a.sessions
      let contextWindow := if info.id = a.activeSession then info.contextWindow
        else a.contextWindow
      some { a with sessions := sessions, contextWindow := contextWindow }
  | .sessionDeleted id =>
      let sessions := a.sessions.erase id
      if a.activeSession = id then
        let next := (env.firstKey sessions.keys).getD ""
        let contextWindow := match sessions.lookup next with
          | some s => s.info.contextWindow
          | none => a.contextWindow
        some { a with
          sessions := sessions, activeSession := next, contextWindow := contextWindow }
      else some { a with sessions := sessions }
  | .historyLoaded id messages =>
      match a.sessions.lookup id with
      | some s =>
          some { a with
            sessions := a.sessions.insert id { s with messages := messages.map convertMessage } }
      | none => some a
  | .bashCompleted result showCommand =>
      a.finalizeBashMessage cfg result (formatForSend result showCommand)

/-! ## The main loop -/

/-- What a slash command does is an event of its own, by whichever text or
overlay it comes. -/
inductive Event where
  | edit (text : List Char)
  | paste (data : List Char) (cursor : Nat)
  | submit (forceSteer : Bool)
  | restoreQueue
  | interrupt
  | newSession
  | quit
  | cycleModel (forward : Bool)
  | command (c : Command)
  | server (e : ServerEvent)
  | task (t : TaskAction)

def step (cfg : UiConfig) (env : Surroundings) (a : App) : Event → Option App
  | .edit text => some { a with editor := text }
  | .paste data cursor => some (a.handlePaste data cursor)
  | .submit forceSteer => a.submitInput cfg env forceSteer
  | .restoreQueue => some a.restoreQueue
  | .interrupt => a.interrupt
  | .newSession => some (if a.state = .busy then a else a.spawn [.createSession none])
  | .quit => some (if a.state = .busy then a else { a with running := false })
  | .cycleModel forward => a.cycleModel cfg forward
  | .command c => a.command cfg env c
  | .server e => a.handleServerEvent cfg e
  | .task t => a.handleTaskAction cfg env t

/-- A run, up to a panic. -/
def run (cfg : UiConfig) (env : Surroundings) (a : App) (events : List Event) : Option App :=
  events.foldlM (step cfg env) a

end App

end Pandaria.Tui
