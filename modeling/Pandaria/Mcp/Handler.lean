import Pandaria.Ai.Types
import Pandaria.Lib.Table

/-!
# The MCP request handler

The message types of `pawbun-toolkit/src/mcp/core/protocol.rs` and the
`RequestHandler` of `pawbun-mcp-server/src/handler.rs`. There is one handler for
all clients of a server, and all it keeps from one request to the next is
whether it has been initialized.

What `serde_json::from_value` makes of the parameters of a request is a
parameter: the decoders are derived.
-/

namespace Pandaria.Mcp

open Pandaria.Ai (Json)

/-! ## Messages -/

inductive JsonRpcId where
  | number (n : Int)
  | string (s : String)
  | null
deriving DecidableEq

structure JsonRpcRequest where
  /-- Nothing for a notification. -/
  id : Option JsonRpcId
  method : String
  params : Option Json
deriving DecidableEq

namespace JsonRpcRequest

def new (id : JsonRpcId) (method : String) (params : Option Json) : JsonRpcRequest :=
  ⟨some id, method, params⟩

def notification (method : String) (params : Option Json) : JsonRpcRequest :=
  ⟨none, method, params⟩

/-- `req.params.unwrap_or_default()`. -/
def paramsOrDefault (req : JsonRpcRequest) : Json := req.params.getD .null

end JsonRpcRequest

structure JsonRpcError where
  code : Int
  message : String
  data : Option Json
deriving DecidableEq

structure JsonRpcResponse where
  id : Option JsonRpcId
  result : Option Json
  error : Option JsonRpcError
deriving DecidableEq

namespace JsonRpcResponse

def ok (id : Option JsonRpcId) (result : Json) : JsonRpcResponse := ⟨id, some result, none⟩

def ofError (id : Option JsonRpcId) (code : Int) (message : String) : JsonRpcResponse :=
  ⟨id, none, some ⟨code, message, none⟩⟩

/-- What a notification is answered with. -/
def empty : JsonRpcResponse := ⟨none, none, none⟩

def isEmptyNotification (resp : JsonRpcResponse) : Bool :=
  resp.id.isNone && resp.result.isNone && resp.error.isNone

end JsonRpcResponse

structure ClientInfo where
  name : String
  version : String

structure InitializeParams where
  protocolVersion : String
  capabilities : Json
  clientInfo : ClientInfo

structure ServerInfo where
  name : String
  version : String

structure CallToolParams where
  name : String
  arguments : Option Json

/-- The derived decoders of the parameters. -/
structure Decoders where
  initializeParams : Json → Except String InitializeParams
  callToolParams : Json → Except String CallToolParams

/-! ## The toolkit -/

structure ToolParameter where
  name : String
  required : Bool
  schema : Json

structure Tool where
  name : String
  description : String
  parameters : List ToolParameter

structure ToolResult where
  success : Bool
  content : String

inductive ToolError where
  | invalidInput (message : String)
  | executionFailed (message : String)
  | notFound (name : String)
  | timeout (ms : Nat)
  | serialization (message : String)
  | io (message kind : String)

def ToolError.toString : ToolError → String
  | .invalidInput message => "invalid input: " ++ message
  | .executionFailed message => "execution failed: " ++ message
  | .notFound name => "tool not found: " ++ name
  | .timeout ms => "timeout after " ++ ms.repr ++ "ms"
  | .serialization message => "serialization error: " ++ message
  | .io message kind => "IO error: " ++ message ++ " (kind: " ++ kind ++ ")"

/-- What a tool does when it is run, by its name and arguments, timeouts
included. -/
abbrev ToolRun := String → Option Json → Except ToolError ToolResult

/-- The tools of a kit, by name. -/
structure ToolKit where
  tools : List Tool

/-- `execute` and `execute_with_timeout`. -/
def ToolKit.execute (kit : ToolKit) (run : ToolRun) (params : CallToolParams) :
    Except ToolError ToolResult :=
  if kit.tools.any fun tool => tool.name = params.name then run params.name params.arguments
  else .error (.notFound params.name)

def buildInputSchema (params : List ToolParameter) : Json :=
  let properties := params.map fun p => (p.name, p.schema)
  let required := (params.filter ToolParameter.required).map fun p => Json.str p.name
  .obj ([("type", Json.str "object")] ++
    (if properties.isEmpty then [] else [("properties", Json.obj properties)]) ++
    if required.isEmpty then [] else [("required", Json.arr required)])

/-! ## The handler -/

structure RequestHandler where
  toolkit : ToolKit
  serverInfo : ServerInfo
  capabilities : Json
  protocolVersion : String
  initialized : Bool

namespace RequestHandler

def new (toolkit : ToolKit) (serverInfo : ServerInfo) (capabilities : Json)
    (protocolVersion : String) : RequestHandler :=
  { toolkit := toolkit
    serverInfo := serverInfo
    capabilities := capabilities
    protocolVersion := protocolVersion
    initialized := false }

variable (serde : Decoders)

def handleInitialize (h : RequestHandler) (req : JsonRpcRequest) : JsonRpcResponse :=
  match serde.initializeParams req.paramsOrDefault with
  | .error e => .ofError req.id (-32602) ("Invalid params: " ++ e)
  | .ok params =>
      if params.protocolVersion ≠ h.protocolVersion then
        .ofError req.id (-32603) ("Unsupported protocol version: " ++ params.protocolVersion)
      else
        .ok req.id (.obj [("protocolVersion", .str h.protocolVersion),
          ("capabilities", h.capabilities),
          ("serverInfo", .obj [("name", .str h.serverInfo.name),
            ("version", .str h.serverInfo.version)])])

def handleInitialized (h : RequestHandler) : RequestHandler × JsonRpcResponse :=
  ({ h with initialized := true }, .empty)

def handleListTools (h : RequestHandler) (req : JsonRpcRequest) : JsonRpcResponse :=
  let tools := h.toolkit.tools.map fun tool =>
    Json.obj [("name", .str tool.name), ("description", .str tool.description),
      ("inputSchema", buildInputSchema tool.parameters)]
  .ok req.id (.obj [("tools", .arr tools)])

def handleCallTool (h : RequestHandler) (run : ToolRun) (req : JsonRpcRequest) :
    JsonRpcResponse :=
  match serde.callToolParams req.paramsOrDefault with
  | .error e => .ofError req.id (-32602) ("Invalid params: " ++ e)
  | .ok params =>
      match h.toolkit.execute run params with
      | .ok result =>
          .ok req.id (.obj [("content", .arr [.obj [("type", .str "text"),
            ("text", .str result.content)]]), ("isError", .bool !result.success)])
      | .error (.notFound name) =>
          .ofError req.id (-32602) ("Tool not found: " ++ (ToolError.notFound name).toString)
      | .error (.timeout ms) =>
          .ofError req.id (-32003) ("Request timed out after " ++ ms.repr ++ "ms")
      | .error e => .ofError req.id (-32603) e.toString

/-- A request, with what a tool will do if the request gets as far as that. -/
def handle (h : RequestHandler) (run : ToolRun) (req : JsonRpcRequest) :
    RequestHandler × JsonRpcResponse :=
  if !h.initialized && !(req.method = "initialize" || req.method = "notifications/initialized") then
    (h, .ofError req.id (-32002) "Server not initialized")
  else if req.method = "initialize" then (h, h.handleInitialize serde req)
  else if req.method = "notifications/initialized" then h.handleInitialized
  else if req.method = "tools/list" then (h, h.handleListTools req)
  else if req.method = "tools/call" then (h, h.handleCallTool serde run req)
  else (h, .ofError req.id (-32601) ("Method not found: " ++ req.method))

end RequestHandler

/-! ## The server and its builder -/

namespace Server

open Pandaria.Lib (Table)

/-- `Box<dyn Tool>`: a tool with what it does. -/
structure DynTool where
  decl : Tool
  execute : Option Json → Except ToolError ToolResult

/-- `ToolKit`, whose tools are kept in a `BTreeMap` and are read in the order of
their names. -/
structure ToolKit where
  tools : Table String DynTool
  named : ∀ name tool, tools.get? name = some tool → tool.decl.name = name
  defaultTimeoutMs : Option Nat

namespace ToolKit

def ofTimeout (timeout : Option Nat) : ToolKit where
  tools := Table.empty
  named _ _ h := absurd h (by simp [Table.empty, Table.get?])
  defaultTimeoutMs := timeout

def new : ToolKit := ofTimeout none

def withTimeout (ms : Nat) : ToolKit := ofTimeout (some ms)

def register (kit : ToolKit) (tool : DynTool) : ToolKit where
  tools := kit.tools.upsert tool.decl.name fun _ => tool
  named name t h := by
    rw [Table.get?_upsert] at h
    split at h
    · next hname => rw [← Option.some.inj h, hname]
    · exact kit.named name t h
  defaultTimeoutMs := kit.defaultTimeoutMs

def get? (kit : ToolKit) (name : String) : Option DynTool := kit.tools.get? name

def list (kit : ToolKit) : List DynTool :=
  (kit.tools.rows.mergeSort fun r s => r.1 ≤ s.1).map Prod.snd

end ToolKit

/-- `DefaultFileLoader`, as far as the two bridge tools use it. -/
structure DefaultFileLoader where
  load : Option Json → Except ToolError ToolResult
  metadata : Option Json → Except ToolError ToolResult

def pathParameter : ToolParameter := ⟨"path", true, .obj [("type", .str "string")]⟩

def fileReadBridgeTool (loader : DefaultFileLoader) : DynTool where
  decl := ⟨"file_read",
    "Read contents of a file. Supports text, images, PDFs, audio, and video.", [pathParameter]⟩
  execute := loader.load

def fileListBridgeTool (loader : DefaultFileLoader) : DynTool where
  decl := ⟨"file_list", "List file metadata at a given path.", [pathParameter]⟩
  execute := loader.metadata

def registerBridgeTools (kit : ToolKit) (loader : DefaultFileLoader) : ToolKit :=
  let kit :=
    if (kit.get? "file_read").isNone then kit.register (fileReadBridgeTool loader) else kit
  if (kit.get? "file_list").isNone then kit.register (fileListBridgeTool loader) else kit

inductive LogLevel where
  | debug | info | warn | error

def LogLevel.toJson : LogLevel → Json
  | .debug => .str "debug"
  | .info => .str "info"
  | .warn => .str "warn"
  | .error => .str "error"

structure ServerCapabilities where
  /-- Whether the list of tools may change. -/
  tools : Option Bool
  logging : Option LogLevel
  prompts : Bool
  resources : Bool

/-- `serde_json::to_value`, whose maps are sorted. -/
def ServerCapabilities.toJson (c : ServerCapabilities) : Json :=
  let logging := c.logging.toList.map fun level => ("logging", Json.obj [("level", level.toJson)])
  let prompts := if c.prompts then [("prompts", Json.null)] else []
  let resources := if c.resources then [("resources", Json.null)] else []
  let tools := c.tools.toList.map fun changed =>
    ("tools", Json.obj [("listChanged", .bool changed)])
  .obj (logging ++ prompts ++ resources ++ tools)

structure McpServer where
  toolkit : ToolKit
  serverInfo : ServerInfo
  capabilities : Json
  protocolVersion : String
  corsOrigins : List String
  requestTimeoutMs : Option Nat

structure McpServerBuilder where
  toolkit : ToolKit
  fileLoader : Option DefaultFileLoader
  serverName : String
  serverVersion : String
  protocolVersion : String
  capabilities : ServerCapabilities
  rawCapabilities : Option Json
  corsOrigins : List String
  requestTimeoutMs : Option Nat
  toolTimeoutMs : Option Nat

/-- One call of a method of the builder. -/
inductive BuilderCall where
  | registerToolkit (toolkit : ToolKit)
  | registerFileLoader (loader : DefaultFileLoader)
  | registerTool (tool : DynTool)
  | protocolVersion (version : String)
  | withToolsCapability
  | withLoggingCapability (level : LogLevel)
  | withPromptsCapability
  | withResourcesCapability
  | requestTimeout (ms : Nat)
  | toolTimeout (ms : Nat)
  | corsOrigins (origins : List String)
  | capabilities (caps : Json)

namespace McpServerBuilder

def new (name version : String) : McpServerBuilder where
  toolkit := .new
  fileLoader := none
  serverName := name
  serverVersion := version
  protocolVersion := "2024-11-05"
  capabilities := ⟨none, none, false, false⟩
  rawCapabilities := none
  corsOrigins := []
  requestTimeoutMs := some 30000
  toolTimeoutMs := none

def call (b : McpServerBuilder) : BuilderCall → McpServerBuilder
  | .registerToolkit toolkit => { b with toolkit := toolkit }
  | .registerFileLoader loader => { b with fileLoader := some loader }
  | .registerTool tool => { b with toolkit := b.toolkit.register tool }
  | .protocolVersion version => { b with protocolVersion := version }
  | .withToolsCapability => { b with capabilities := { b.capabilities with tools := some false } }
  | .withLoggingCapability level =>
      { b with capabilities := { b.capabilities with logging := some level } }
  | .withPromptsCapability => { b with capabilities := { b.capabilities with prompts := true } }
  | .withResourcesCapability => { b with capabilities := { b.capabilities with resources := true } }
  | .requestTimeout ms => { b with requestTimeoutMs := some ms }
  | .toolTimeout ms => { b with toolTimeoutMs := some ms }
  | .corsOrigins origins => { b with corsOrigins := origins }
  | .capabilities caps => { b with rawCapabilities := some caps }

/-- The bridge tools come last, but for a tool timeout, which comes with a new kit. -/
def build (b : McpServerBuilder) : McpServer :=
  let toolkit :=
    match b.fileLoader with
    | some loader => registerBridgeTools b.toolkit loader
    | none => b.toolkit
  { toolkit :=
      match b.toolTimeoutMs with
      | some ms => .withTimeout ms
      | none => toolkit
    serverInfo := ⟨b.serverName, b.serverVersion⟩
    capabilities := b.rawCapabilities.getD b.capabilities.toJson
    protocolVersion := b.protocolVersion
    corsOrigins := b.corsOrigins
    requestTimeoutMs := b.requestTimeoutMs }

end McpServerBuilder

namespace McpServer

/-- The handler `run_loop` starts with. -/
def handler (server : McpServer) : RequestHandler :=
  .new ⟨server.toolkit.list.map DynTool.decl⟩ server.serverInfo server.capabilities
    server.protocolVersion

/-- What the handler's toolkit runs. -/
def run (server : McpServer) : ToolRun := fun name arguments =>
  match server.toolkit.get? name with
  | some tool => tool.execute arguments
  | none => .error (.notFound name)

end McpServer

end Server

end Pandaria.Mcp
