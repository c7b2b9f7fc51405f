import Pandaria.Ai.Sse
import Pandaria.Lib.ByteText

/-!
# Skills on disk

`agent-core/src/skills/scanner.rs`: the frontmatter of a skill file, and the scan
of directories for such files. A directory is what its entries are, in the order
the file system enumerates them, where links have been followed; a directory that
cannot be read is an entry like any other that is neither a file nor a directory.
A path is the list of its names.

The YAML parser and `fs::canonicalize` are parameters.
-/

namespace Pandaria.Agent.Skills

open Pandaria.Ai Pandaria.Lib

/-! ## Frontmatter -/

/-- `str::trim_start`. -/
def trimStart (s : List Char) : List Char := s.dropWhile isWhitespace

def dashes : List Char := "---".toList

/-- `extract_frontmatter`. Outside there is nothing where a slice panics, inside
where there is no frontmatter. -/
def extractFrontmatter (content : List Char) : Option (Option (List Char × List Char)) :=
  let trimmed := trimStart content
  if dashes.isPrefixOf trimmed then
    (ByteText.sliceFrom trimmed 3).bind fun afterFirst =>
      let rest := trimStart (afterFirst.dropWhile (· = '-'))
      let endPos? :=
        if dashes.isPrefixOf rest then some 0 else ByteText.find ('\n' :: dashes) rest
      match endPos? with
      | none => some none
      | some endPos =>
          (ByteText.sliceTo rest endPos).bind fun yaml =>
            (ByteText.sliceFrom rest (if endPos = 0 then 3 else endPos + 4)).map fun body =>
              some (trim yaml, trimStart body)
  else some none

/-! ## Skills and diagnostics -/

structure SkillFrontmatter where
  name : Option String
  description : String
  disableModelInvocation : Bool

inductive SkillSource where
  | user | project | path
deriving DecidableEq

structure Skill where
  name : String
  description : String
  filePath : List String
  baseDir : List String
  source : SkillSource
  disableModelInvocation : Bool
deriving DecidableEq

inductive SkillDiagnosticKind where
  | warning | collision
deriving DecidableEq

structure SkillDiagnostic where
  path : List String
  kind : SkillDiagnosticKind
  message : String
deriving DecidableEq

/-- `validate_skill_name`. -/
def validateSkillName (name parentDirName : String) : List String :=
  let chars := name.toList
  (if name = parentDirName then []
    else ["name \"" ++ name ++ "\" does not match parent directory \"" ++ parentDirName ++ "\""]) ++
  (if 64 < name.utf8ByteSize then
    ["name exceeds 64 characters (" ++ name.utf8ByteSize.repr ++ ")"] else []) ++
  (if !chars.isEmpty && chars.all (fun c => c.isLower || c.isDigit || c = '-') then []
    else ["name contains invalid characters (must be lowercase a-z, 0-9, hyphens only)"]) ++
  (if chars.head? = some '-' || chars.getLast? = some '-' then
    ["name must not start or end with a hyphen"] else []) ++
  (if (ByteText.find ['-', '-'] chars).isSome then
    ["name must not contain consecutive hyphens"] else [])

/-! ## Directories -/

inductive Dir where
  | nil
  | file (name : String) (content : Except String String) (rest : Dir)
  | dir (name : String) (entries : Dir) (rest : Dir)
  | other (name : String) (rest : Dir)

/-- What is read from a file of the directory, if there is one of that name. -/
def Dir.file? (name : String) : Dir → Option (Except String String)
  | .nil => none
  | .file n content rest => if n = name then some content else rest.file? name
  | .dir n _ rest | .other n rest => if n = name then none else rest.file? name

/-- `is_ignored`. -/
def isIgnored (name : String) (patterns : List String) : Bool :=
  patterns.any fun pat =>
    let pat := trim pat.toList
    if pat.isEmpty || pat.head? = some '#' then false
    else
      pat.getLast? = some '/' &&
          ((pat.reverse.dropWhile (· = '/')).reverse).isPrefixOf name.toList ||
        pat = name.toList ||
        pat.take 2 = ['*', '.'] && (pat.drop 2).isSuffixOf name.toList

/-- `read_ignore_patterns`: the lines of the first of three files that can be read. -/
def readIgnorePatterns (d : Dir) : List String :=
  let read (filename : String) : Option String := (d.file? filename).bind Except.toOption
  match [".gitignore", ".ignore", ".fdignore"].findSome? read with
  | some content => (linesFrom [] content.toList).map String.ofList
  | none => []

/-! ## The scan -/

structure ScanEnv where
  /-- `serde_yaml::from_str`. -/
  yaml : String → Except String SkillFrontmatter
  canonicalize : List String → Option (List String)

/-- The file name of a path that is a directory. -/
def dirName (dir : List String) : String :=
  match dir.getLast? with
  | some name => if name = ".." || name = "." || name = "/" then "" else name
  | none => ""

/-- The checks of `load_skill_from_file` up to the collision: what it warns of, or the
skill. A file cannot make `extract_frontmatter` panic. -/
def judge (env : ScanEnv) (source : SkillSource) (dir : List String) (file : String)
    (content : Except String String) : Except (List String) Skill :=
  match content with
  | .error e => .error ["failed to read file: " ++ e]
  | .ok text =>
      match (extractFrontmatter text.toList).join with
      | none => .error ["missing or malformed YAML frontmatter"]
      | some (yaml, _) =>
          match env.yaml (String.ofList yaml) with
          | .error e => .error ["invalid YAML frontmatter: " ++ e]
          | .ok frontmatter =>
              let length := frontmatter.description.utf8ByteSize
              if frontmatter.description = "" then
                .error ["missing 'description' in frontmatter"]
              else if 1024 < length then
                .error ["description exceeds 1024 characters (" ++ length.repr ++ ")"]
              else
                let name := frontmatter.name.getD (dirName dir)
                match validateSkillName name (dirName dir) with
                | [] =>
                    .ok {
                      name := name
                      description := frontmatter.description
                      filePath := (env.canonicalize (dir ++ [file])).getD (dir ++ [file])
                      baseDir := (env.canonicalize dir).getD dir
                      source := source
                      disableModelInvocation := frontmatter.disableModelInvocation }
                | errors => .error errors

/-- `LoadSkillsResult`, with the names seen so far. -/
structure Loaded where
  seen : List String
  skills : List Skill
  diagnostics : List SkillDiagnostic
deriving DecidableEq

/-- `load_skill_from_file`. -/
def loadSkillFromFile (env : ScanEnv) (source : SkillSource) (dir : List String) (file : String)
    (content : Except String String) (l : Loaded) : Loaded :=
  let path := dir ++ [file]
  match judge env source dir file content with
  | .error messages =>
      { l with diagnostics := l.diagnostics ++ messages.map fun m => ⟨path, .warning, m⟩ }
  | .ok skill =>
      if skill.name ∈ l.seen then
        { l with
          diagnostics := l.diagnostics ++ [⟨path, .collision, "skill name \"" ++ skill.name ++
            "\" collides with a previously loaded skill; skipping"⟩] }
      else { l with seen := skill.name :: l.seen, skills := l.skills ++ [skill] }

def isSkipped (patterns : List String) (name : String) : Bool :=
  name.toList.head? = some '.' || isIgnored name patterns

/-- The loop of `scan_dir` over the entries of a directory without a `SKILL.md`. -/
def scanEntries (env : ScanEnv) (source : SkillSource) (dir : List String)
    (patterns : List String) : Dir → Loaded → Loaded
  | .nil, l => l
  | .file name content rest, l =>
      scanEntries env source dir patterns rest
        (if !isSkipped patterns name && ".md".toList.isSuffixOf name.toList then
          loadSkillFromFile env source dir name content l
        else l)
  | .dir name entries rest, l =>
      scanEntries env source dir patterns rest
        (if isSkipped patterns name then l
        else
          -- `scan_dir` of the subdirectory
          match entries.file? "SKILL.md" with
          | some content => loadSkillFromFile env source (dir ++ [name]) "SKILL.md" content l
          | none =>
              scanEntries env source (dir ++ [name]) (readIgnorePatterns entries) entries l)
  | .other _ rest, l => scanEntries env source dir patterns rest l

def scanDir (env : ScanEnv) (source : SkillSource) (dir : List String) (entries : Dir)
    (l : Loaded) : Loaded :=
  match entries.file? "SKILL.md" with
  | some content => loadSkillFromFile env source dir "SKILL.md" content l
  | none => scanEntries env source dir (readIgnorePatterns entries) entries l

/-- A directory to scan; one that cannot be read is scanned for nothing. -/
structure Root where
  path : List String
  source : SkillSource
  entries : Dir

def scanSkillDirs (env : ScanEnv) (dirs : List Root) : Loaded :=
  dirs.foldl (fun l root => scanDir env root.source root.path root.entries l) ⟨[], [], []⟩

end Pandaria.Agent.Skills
