import Pandaria.Mcp.Handler

/-!
# The tools of a built server

A name stands for the last tool it was given, and a toolkit that is registered
gives every name anew, nothing to those it does not have. The bridge tools have
what is left when the server is built. The calls that are about neither tools nor
the tool timeout go by without a trace in the toolkit, wherever they come.
-/

namespace Pandaria.Mcp.Server

open Pandaria.Lib (Table)

/-! ## What is asked -/

/-- The tool a call gives a name, of the one it had. -/
def given (name : String) (had : Option DynTool) : BuilderCall → Option DynTool
  | .registerToolkit toolkit => toolkit.get? name
  | .registerTool tool => if name = tool.decl.name then some tool else had
  | _ => had

/-- The tool the calls leave a name with. -/
def userTool (calls : List BuilderCall) (name : String) : Option DynTool :=
  calls.foldl (given name) none

/-- The file loader that is there after a call, of the one that was there before. -/
def loading (had : Option DefaultFileLoader) : BuilderCall → Option DefaultFileLoader
  | .registerFileLoader loader => some loader
  | _ => had

def bridgeTool (loader : DefaultFileLoader) (name : String) : Option DynTool :=
  if name = "file_read" then some (fileReadBridgeTool loader)
  else if name = "file_list" then some (fileListBridgeTool loader)
  else none

/-- The tool a name stands for in the built server. -/
def served (calls : List BuilderCall) (name : String) : Option DynTool :=
  (userTool calls name).or ((calls.foldl loading none).bind fun loader => bridgeTool loader name)

def built (name version : String) (calls : List BuilderCall) : McpServer :=
  (calls.foldl McpServerBuilder.call (.new name version)).build

/-- The server lists the tools its names stand for, each once, and calls them. -/
structure Serves (server : McpServer) (tools : String → Option DynTool) : Prop where
  lists : ∀ decl, decl ∈ server.handler.toolkit.tools ↔
    ∃ tool, tools decl.name = some tool ∧ tool.decl = decl
  once : (server.handler.toolkit.tools.map Tool.name).Nodup
  calls : ∀ params, server.handler.toolkit.execute server.run params =
    match tools params.name with
    | some tool => tool.execute params.arguments
    | none => .error (.notFound params.name)

/-! ## Kits -/

theorem get?_register (kit : ToolKit) (tool : DynTool) (name : String) :
    (kit.register tool).get? name = if name = tool.decl.name then some tool else kit.get? name :=
  Table.get?_upsert _ _ _ _

/-- A bridge tool has its name if nobody else has. -/
theorem get?_bridge (kit : ToolKit) (tool : DynTool) (name : String) :
    (if (kit.get? tool.decl.name).isNone then kit.register tool else kit).get? name =
      (kit.get? name).or (if name = tool.decl.name then some tool else none) := by
  split
  · next hnone =>
    rw [get?_register]
    split
    · next hname =>
      rw [hname, Option.isNone_iff_eq_none.mp hnone]
      rfl
    · rw [Option.or_none]
  · next hsome =>
    split
    · next hname =>
      rw [hname]
      cases hget : kit.get? tool.decl.name with
      | none => rw [hget] at hsome; exact absurd rfl hsome
      | some t => rfl
    · rw [Option.or_none]

theorem get?_registerBridgeTools (kit : ToolKit) (loader : DefaultFileLoader) (name : String) :
    (registerBridgeTools kit loader).get? name = (kit.get? name).or (bridgeTool loader name) := by
  unfold registerBridgeTools
  have hlist := get?_bridge
    (if (kit.get? "file_read").isNone then kit.register (fileReadBridgeTool loader) else kit)
    (fileListBridgeTool loader) name
  have hread := get?_bridge kit (fileReadBridgeTool loader) name
  refine hlist.trans ?_
  rw [show (fileReadBridgeTool loader).decl.name = "file_read" from rfl] at hread
  rw [hread, Option.or_assoc, bridgeTool]
  congr 1
  show Option.or (if name = "file_read" then _ else _) (if name = "file_list" then _ else _) = _
  split
  · rfl
  · rfl

theorem mem_list {kit : ToolKit} {tool : DynTool} :
    tool ∈ kit.list ↔ kit.get? tool.decl.name = some tool := by
  rw [ToolKit.list, List.mem_map]
  constructor
  · intro ⟨r, hr, heq⟩
    have hget := Table.get?_eq_some.mpr (List.mem_mergeSort.mp hr)
    rw [← heq, kit.named _ _ hget]
    exact hget
  · intro hget
    exact ⟨(tool.decl.name, tool), List.mem_mergeSort.mpr (Table.get?_eq_some.mp hget), rfl⟩

theorem nodup_list (kit : ToolKit) : (kit.list.map fun tool => tool.decl.name).Nodup := by
  have hnames : kit.list.map (fun tool => tool.decl.name) =
      (kit.tools.rows.mergeSort fun r s => r.1 ≤ s.1).map Prod.fst := by
    rw [ToolKit.list, List.map_map]
    apply List.map_congr_left
    intro r hr
    exact kit.named _ _ (Table.get?_eq_some.mpr (List.mem_mergeSort.mp hr))
  rw [hnames]
  exact (((List.mergeSort_perm _ _).map Prod.fst).nodup_iff).mpr kit.tools.unique

/-- What a server lists and calls is what its kit has. -/
theorem serves_get? (server : McpServer) : Serves server server.toolkit.get? := by
  refine ⟨?_, ?_, ?_⟩
  · intro decl
    show decl ∈ server.toolkit.list.map DynTool.decl ↔ _
    rw [List.mem_map]
    constructor
    · intro ⟨tool, hmem, heq⟩
      rw [mem_list, heq] at hmem
      exact ⟨tool, hmem, heq⟩
    · intro ⟨tool, hget, heq⟩
      rw [← heq] at hget
      exact ⟨tool, mem_list.mpr hget, heq⟩
  · show ((server.toolkit.list.map DynTool.decl).map Tool.name).Nodup
    rw [List.map_map]
    exact nodup_list server.toolkit
  · intro params
    show (if (server.toolkit.list.map DynTool.decl).any (fun tool => tool.name = params.name) then
      server.run params.name params.arguments else .error (.notFound params.name)) = _
    rw [McpServer.run]
    cases hget : server.toolkit.get? params.name with
    | some tool =>
        have hname := server.toolkit.named _ _ hget
        rw [if_pos]
        rw [List.any_map, List.any_eq_true]
        refine ⟨tool, mem_list.mpr (by rw [hname]; exact hget), by simp [hname]⟩
    | none => simp

/-! ## Calls -/

theorem toolkit_call (b : McpServerBuilder) (c : BuilderCall) (name : String) :
    (b.call c).toolkit.get? name = given name (b.toolkit.get? name) c := by
  cases c with
  | registerTool tool => exact get?_register _ _ _
  | _ => rfl

theorem fileLoader_call (b : McpServerBuilder) (c : BuilderCall) :
    (b.call c).fileLoader = loading b.fileLoader c := by
  cases c with
  | _ => rfl

theorem toolkit_calls (b : McpServerBuilder) (calls : List BuilderCall) (name : String) :
    (calls.foldl McpServerBuilder.call b).toolkit.get? name =
      calls.foldl (given name) (b.toolkit.get? name) := by
  induction calls generalizing b with
  | nil => rfl
  | cons c calls ih => rw [List.foldl_cons, ih, toolkit_call, List.foldl_cons]

theorem fileLoader_calls (b : McpServerBuilder) (calls : List BuilderCall) :
    (calls.foldl McpServerBuilder.call b).fileLoader = calls.foldl loading b.fileLoader := by
  induction calls generalizing b with
  | nil => rfl
  | cons c calls ih => rw [List.foldl_cons, ih, fileLoader_call, List.foldl_cons]

theorem toolTimeoutMs_calls {b : McpServerBuilder} {calls : List BuilderCall}
    (h : ∀ ms, BuilderCall.toolTimeout ms ∉ calls) :
    (calls.foldl McpServerBuilder.call b).toolTimeoutMs = b.toolTimeoutMs := by
  induction calls generalizing b with
  | nil => rfl
  | cons c calls ih =>
      rw [List.foldl_cons, ih fun ms hmem => h ms (List.mem_cons_of_mem _ hmem)]
      cases c with
      | toolTimeout ms => exact absurd List.mem_cons_self (h ms)
      | _ => rfl

/-- Without a tool timeout the kit of the builder is the kit of the server, with the
bridge tools of the last loader where there is room. -/
theorem build_get? {b : McpServerBuilder} (h : b.toolTimeoutMs = none) (name : String) :
    b.build.toolkit.get? name =
      (b.toolkit.get? name).or (b.fileLoader.bind fun loader => bridgeTool loader name) := by
  rw [McpServerBuilder.build, h]
  cases b.fileLoader with
  | none =>
      rw [Option.bind_none, Option.or_none]
  | some loader => exact get?_registerBridgeTools _ _ _

/-- Whatever the calls and their order, as long as no tool timeout is set, the server
serves the tools the names were given last, and the bridge tools under names that
were given none. -/
theorem built_serves {calls : List BuilderCall}
    (h : ∀ ms, BuilderCall.toolTimeout ms ∉ calls) (name version : String) :
    Serves (built name version calls) (served calls) := by
  have htimeout := toolTimeoutMs_calls (b := .new name version) h
  have hserved : (built name version calls).toolkit.get? = served calls := by
    funext tool
    rw [built, build_get? htimeout, toolkit_calls, fileLoader_calls]
    rfl
  rw [← hserved]
  exact serves_get? _

def echo : DynTool where
  decl := ⟨"echo", "Echoes input", []⟩
  execute _ := .ok ⟨true, "echo"⟩

def emptyLoader : DefaultFileLoader where
  load _ := .error (.executionFailed "no file")
  metadata _ := .error (.executionFailed "no file")

/-- A tool on top of a toolkit, and a loader that is registered first. -/
theorem built_serves_echo :
    Serves (built "pawbun" "0.1.0"
        [.registerFileLoader emptyLoader, .registerToolkit .new, .registerTool echo])
      (served [.registerFileLoader emptyLoader, .registerToolkit .new, .registerTool echo]) :=
  built_serves (by simp) "pawbun" "0.1.0"

/-- A toolkit registered behind a tool takes the tool's place in the kit. -/
theorem built_without_tool :
    (built "pawbun" "0.1.0" [.registerTool echo, .registerToolkit .new]).handler.toolkit.tools =
        [] ∧
      ∀ arguments, (built "pawbun" "0.1.0" [.registerTool echo, .registerToolkit .new]).run
        echo.decl.name arguments = .error (.notFound "echo") := by
  refine ⟨?_, fun _ => rfl⟩
  show (((([] : List (String × DynTool)).mergeSort fun r s => r.1 ≤ s.1).map Prod.snd).map
    DynTool.decl) = []
  rw [List.mergeSort_nil]
  rfl

end Pandaria.Mcp.Server
