import Pandaria.Agent.PathGuard
import Pandaria.Lib.FileTree
import Pandaria.Mcp.Handler

/-!
# The toolkit's sandbox of files

`resolve_sandbox_path` and `resolve_write_path` of
`pawbun-toolkit/src/tools/path_utils.rs`, and `FileWriteTool::execute` of
`file_write.rs` with the calls of `std::fs` it makes, on Linux. A path is the list
of its steps, and that of a joined path the one list after the other; a place is
the list of its names.

Permissions, quotas and lengths of names are left out: a call fails for what is in
the tree, or for a NUL in its path.
-/

namespace Pandaria.Toolkit

open Pandaria.Agent (isAbsolute splitPath)
open Pandaria.Ai (Json)
open Pandaria.Lib
open Pandaria.Mcp (ToolError ToolResult)

/-! ## The file system -/

/-- How many links the kernel follows. -/
def maxLinks : Nat := 40

abbrev Disk := FileTree Segment String

inductive OsError where
  | file (e : FileError)
  | nul
deriving DecidableEq

namespace OsError

def text : OsError → String
  | .file .notFound => "No such file or directory (os error 2)"
  | .file .alreadyExists => "File exists (os error 17)"
  | .file .notADirectory => "Not a directory (os error 20)"
  | .file .isADirectory => "Is a directory (os error 21)"
  | .file .filesystemLoop => "Too many levels of symbolic links (os error 40)"
  | .nul => "file name contained an unexpected NUL byte"

def kind : OsError → String
  | .file .notFound => "NotFound"
  | .file .alreadyExists => "AlreadyExists"
  | .file .notADirectory => "NotADirectory"
  | .file .isADirectory => "IsADirectory"
  | .file .filesystemLoop => "FilesystemLoop"
  | .nul => "InvalidInput"

end OsError

def isNul (c : Char) : Bool := c.toNat = 0

def hasNul (path : List Segment) : Bool := path.any fun seg => seg.any isNul

def segmentStep (seg : Segment) : PathStep Segment :=
  if seg = [] ∨ seg = ['.'] then .here
  else if seg = ['.', '.'] then .up
  else .down seg

def pathSteps (path : String) : List (PathStep Segment) := (splitPath path).map segmentStep

/-- `realpath` from a directory. -/
def realpath (t : Disk) (start : List Segment) (steps : List (PathStep Segment)) :
    Except OsError (List Segment) :=
  match t.walk maxLinks start steps with
  | .found place => .ok place
  | .missing .. => .error (.file .notFound)
  | .notDirectory => .error (.file .notADirectory)
  | .loop => .error (.file .filesystemLoop)

/-- `Path::canonicalize`, for a process that runs in `cwd`. -/
def canonicalize (t : Disk) (cwd : List Segment) (path : String) :
    Except OsError (List Segment) :=
  if path.toList.any isNul then .error .nul
  else if path = "" then .error (.file .notFound)
  else realpath t (if isAbsolute path then [] else cwd) (pathSteps path)

/-- `env::current_dir`. -/
def currentDir (t : Disk) (cwd : List Segment) : Except OsError (List Segment) :=
  if t.isDir cwd then .ok cwd else .error (.file .notFound)

/-- The steps of an input that is absolute, or else joined to a base. -/
def joinedSteps (base : List Segment) (input : String) : List (PathStep Segment) :=
  if isAbsolute input then pathSteps input else FileTree.names base ++ pathSteps input

def ioError (context : String) (e : OsError) : ToolError := .io (context ++ ": " ++ e.text) e.kind

def pathText (place : List Segment) : String := String.ofList ('/' :: ['/'].intercalate place)

/-! ## Paths that are to be in the sandbox -/

def sandboxBase (t : Disk) (cwd : List Segment) : Option String → Except ToolError (List Segment)
  | some dir => (canonicalize t cwd dir).mapError (ioError "cannot resolve base_dir")
  | none => (currentDir t cwd).mapError (ioError "cannot get current dir")

def resolveSandboxPath (t : Disk) (cwd : List Segment) (baseDir : Option String)
    (input : String) : Except ToolError (List Segment) :=
  match sandboxBase t cwd baseDir with
  | .error e => .error e
  | .ok base =>
      if input.toList.any isNul then .error (ioError "invalid path" .nul)
      else
        match realpath t [] (joinedSteps base input) with
        | .error e => .error (ioError "invalid path" e)
        | .ok target =>
            if base.isPrefixOf target then .ok target
            else .error (.invalidInput "path traversal detected")

/-- The loop over the components, which are but names and `..` once the root is
there. -/
def normalize : List Segment → List (PathStep Segment) → Option (List Segment)
  | normalized, [] => some normalized
  | normalized, .here :: rest => normalize normalized rest
  | normalized, .up :: rest =>
      if normalized = [] then none else normalize normalized.dropLast rest
  | normalized, .down name :: rest => normalize (normalized ++ [name]) rest

/-- The base of the tool that writes. -/
def writeBase (t : Disk) (cwd : List Segment) (baseDir : Option String) :
    Except OsError (List Segment) :=
  canonicalize t cwd (baseDir.getD ".")

def resolveWritePath (t : Disk) (cwd : List Segment) (baseDir : Option String) (input : String) :
    Except ToolError (List Segment) :=
  match writeBase t cwd baseDir with
  | .error e => .error (ioError "cannot resolve base_dir" e)
  | .ok base =>
      match normalize [] (joinedSteps base input) with
      | none => .error (.invalidInput "path traversal detected")
      | some normalized =>
          if base.isPrefixOf normalized then .ok normalized
          else .error (.invalidInput "path traversal detected")

/-! ## The tool that writes -/

structure FileWriteTool where
  baseDir : Option String

namespace FileWriteTool

/-- The fields of the input. -/
def fields (parse : String → Except ToolError Json) (input : String) :
    Except ToolError (String × String) :=
  match parse input with
  | .error e => .error e
  | .ok parsed =>
      match (parsed.get "path").bind Json.asStr with
      | none => .error (.invalidInput "missing 'path' field")
      | some path =>
          match (parsed.get "content").bind Json.asStr with
          | none => .error (.invalidInput "missing 'content' field")
          | some content => .ok (path, content)

/-- `create_dir_all` of the parent, if there is one. -/
def createParent (t : Disk) (target : List Segment) : Disk × Except OsError Unit :=
  if target = [] then (t, .ok ())
  else if hasNul target.dropLast then (t, .error .nul)
  else
    let (u, result) := t.createDirAll maxLinks target.dropLast
    (u, result.mapError .file)

/-- The second check, which is left out when the target cannot be resolved. -/
def escapes (t : Disk) (cwd : List Segment) (baseDir : Option String) (target : List Segment) :
    Bool :=
  if hasNul target then false
  else
    match realpath t [] (FileTree.names target), writeBase t cwd baseDir with
    | .ok canonical, .ok base => !base.isPrefixOf canonical
    | _, _ => false

/-- `fs::write`. -/
def write (t : Disk) (target : List Segment) (content : String) : Except OsError Disk :=
  if hasNul target then .error .nul else (t.writeFile maxLinks target content).mapError .file

/-- What is done for a path and a content. What has been made stays when the call is
refused. -/
def writeTo (tool : FileWriteTool) (t : Disk) (cwd : List Segment) (path content : String) :
    Disk × Except ToolError ToolResult :=
  match resolveWritePath t cwd tool.baseDir path with
  | .error e => (t, .error e)
  | .ok target =>
      match createParent t target with
      | (u, .error e) => (u, .error (.executionFailed ("failed to create directory: " ++ e.text)))
      | (u, .ok ()) =>
          if escapes u cwd tool.baseDir target then
            (u, .error (.invalidInput "path traversal detected (TOCTOU check failed)"))
          else
            match write u target content with
            | .error e => (u, .error (.executionFailed e.text))
            | .ok v => (v, .ok ⟨true, "written to " ++ pathText target⟩)

def execute (parse : String → Except ToolError Json) (tool : FileWriteTool) (t : Disk)
    (cwd : List Segment) (input : String) : Disk × Except ToolError ToolResult :=
  match fields parse input with
  | .error e => (t, .error e)
  | .ok (path, content) => tool.writeTo t cwd path content

end FileWriteTool

end Pandaria.Toolkit
