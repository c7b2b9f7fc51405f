import Pandaria.Agent.PathGuard

/-!
# What the path guard confines

An absolute path is compared with the workspace after it has been normalised,
and what passes is inside. A relative path passes whatever it is: normalising
drops the `..` it starts with, and what is left no longer begins with a
separator. So a path that is let through is inside exactly when it is absolute,
or does not climb out of the workspace, or comes back by the workspace's own
names.
-/

namespace Pandaria.Agent

open Pandaria.Ai
open Pandaria.Lib

/-- Where a path leads, from a directory. -/
def locate (dir : List Segment) (path : String) : List Segment :=
  Path.resolve (if isAbsolute path then [] else dir) (splitPath path)

/-- The workspace of a tenant, for a process that runs in `cwd`. -/
def AgentSpace.workspaceDir (space : AgentSpace) (cwd : List Segment) (tenantId : String) :
    List Segment :=
  locate cwd (space.workspaceFor tenantId)

/-- A path of a tool lies in the workspace of the tenant. -/
def Inside (cwd : List Segment) (space : AgentSpace) (tenantId path : String) : Prop :=
  space.workspaceDir cwd tenantId <+: locate (space.workspaceDir cwd tenantId) path

instance (cwd : List Segment) (space : AgentSpace) (tenantId path : String) :
    Decidable (Inside cwd space tenantId path) :=
  inferInstanceAs (Decidable (_ <+: _))

/-- A relative path that does not climb above its start, or comes down again by
the last names of the workspace itself. -/
def ComesBack (cwd : List Segment) (space : AgentSpace) (tenantId path : String) : Prop :=
  let workspace := space.workspaceDir cwd tenantId
  workspace.drop (workspace.length - Path.surplus (splitPath path)) <+:
    Path.resolve [] (splitPath path)

/-! ## Normalising -/

/-- What comes out of the loop is where the segments lead. -/
theorem pushParts_eq {absolute : Bool} {parts segs out : List Segment}
    (h : pushParts absolute parts segs = some out) : out = Path.resolve parts segs := by
  induction segs generalizing parts with
  | nil =>
      injection h with h
      exact h.symm
  | cons seg segs ih =>
      rw [pushParts] at h
      rw [Path.resolve, List.foldl_cons, ← Path.resolve, Path.walk]
      by_cases hskip : seg = [] ∨ seg = ['.']
      · rw [if_pos hskip] at h ⊢
        exact ih h
      · rw [if_neg hskip] at h ⊢
        by_cases hup : seg = ['.', '.']
        · rw [if_pos hup] at h ⊢
          split at h
          · cases h
          · exact ih h
        · rw [if_neg hup] at h ⊢
          exact ih h

/-- The segments of a path have no separator in them. -/
theorem not_mem_splitOn (l : List Char) : ∀ seg ∈ l.splitOn '/', '/' ∉ seg := by
  induction l with
  | nil =>
      intro seg hseg
      rw [List.splitOn_nil, List.mem_singleton] at hseg
      rw [hseg]
      exact List.not_mem_nil
  | cons c l ih =>
      rw [List.splitOn_cons_eq_if_modifyHead]
      split
      next =>
        intro seg hseg
        rcases List.mem_cons.mp hseg with hseg | hseg
        · rw [hseg]
          exact List.not_mem_nil
        · exact ih seg hseg
      next hc =>
        cases hsplit : l.splitOn '/' with
        | nil => exact absurd hsplit (List.splitOn_ne_nil _ _)
        | cons first rest =>
            rw [hsplit] at ih
            intro seg hseg
            rw [List.modifyHead_cons] at hseg
            rcases List.mem_cons.mp hseg with hseg | hseg
            · rw [hseg]
              intro hmem
              rcases List.mem_cons.mp hmem with hmem | hmem
              · exact hc (by rw [hmem]; exact BEq.refl _)
              · exact ih first List.mem_cons_self hmem
            · exact ih seg (List.mem_cons_of_mem _ hseg)

/-! ## Absolute paths -/

/-- The text of an absolute directory, cut at its separators. -/
theorem splitOn_absolute {names : List Segment} (h : ∀ seg ∈ names, '/' ∉ seg) :
    ('/' :: ['/'].intercalate names).splitOn '/' =
      [] :: if names = [] then [[]] else names := by
  rw [List.splitOn_cons_eq_if_modifyHead, if_pos (BEq.refl _)]
  by_cases hnil : names = []
  · rw [if_pos hnil, hnil]
    rfl
  · rw [if_neg hnil, List.splitOn_intercalate '/' h hnil]

/-- A directory whose text, with a separator behind it, begins the text of a
normalised path leads to a beginning of that path. -/
theorem resolve_prefix {dir : List Char} {names : List Segment}
    (hnames : ∀ seg ∈ names, Path.IsName seg ∧ '/' ∉ seg)
    (h : dir ++ ['/'] <+: '/' :: ['/'].intercalate names) :
    Path.resolve [] (dir.splitOn '/') <+: names := by
  obtain ⟨rest, hrest⟩ := h
  have hsplit : dir.splitOn '/' ++ rest.splitOn '/' =
      [] :: if names = [] then [[]] else names := by
    rw [← List.splitOn_append_cons_self, ← splitOn_absolute fun seg hseg => (hnames seg hseg).2,
      ← hrest, List.append_assoc]
    rfl
  cases hdir : dir.splitOn '/' with
  | nil => exact absurd hdir (List.splitOn_ne_nil _ _)
  | cons first segs =>
      rw [hdir, List.cons_append] at hsplit
      injection hsplit with hfirst hsegs
      subst hfirst
      have hplain : Path.resolve [] ([] :: segs) = Path.resolve [] segs := rfl
      rw [hplain]
      by_cases hnil : names = []
      · -- The path is the root, and so is the directory.
        rw [if_pos hnil] at hsegs
        cases segs with
        | nil => exact List.nil_prefix
        | cons seg segs =>
            have hlen := congrArg List.length hsegs
            have hne := List.length_pos_of_ne_nil (List.splitOn_ne_nil '/' rest)
            simp only [List.length_append, List.length_cons, List.length_nil] at hlen
            omega
      · rw [if_neg hnil] at hsegs
        have hnames' : ∀ seg ∈ segs, Path.IsName seg :=
          fun seg hseg => (hnames seg (hsegs ▸ List.mem_append_left _ hseg)).1
        rw [Path.resolve_names hnames', List.nil_append, ← hsegs]
        exact List.prefix_append _ _

theorem joinPath_ne_nil {dir path : String} (h : dir.toList ≠ [] ∨ path.toList ≠ []) :
    (joinPath dir path).toList ≠ [] := by
  rw [joinPath]
  split
  next habs =>
    intro hnil
    rw [isAbsolute, hnil] at habs
    cases habs
  next =>
    split
    next c hlast =>
      have hdir : dir.toList ≠ [] := by
        intro hnil
        rw [hnil] at hlast
        cases hlast
      split
      · rw [String.toList_append]
        exact List.append_ne_nil_of_left_ne_nil hdir _
      · rw [String.toList_append, String.toList_append, List.append_assoc]
        exact List.append_ne_nil_of_left_ne_nil hdir _
    next hlast =>
      rcases h with h | h
      · exact absurd (List.getLast?_eq_none_iff.mp hlast) h
      · exact h

theorem workspaceFor_ne_nil (space : AgentSpace) (tenantId : String) :
    (space.workspaceFor tenantId).toList ≠ [] :=
  joinPath_ne_nil (.inl (joinPath_ne_nil (.inr (by decide))))

/-- Where the prefix of the workspace leads, when it begins a normalised path. -/
theorem workspaceDir_prefix {space : AgentSpace} {tenantId : String} {names : List Segment}
    (cwd : List Segment) (hnames : ∀ seg ∈ names, Path.IsName seg ∧ '/' ∉ seg)
    (h : allowedPrefix space tenantId <+: '/' :: ['/'].intercalate names) :
    space.workspaceDir cwd tenantId <+: names := by
  have hne := workspaceFor_ne_nil space tenantId
  rw [AgentSpace.workspaceDir, locate, splitPath, isAbsolute]
  rw [allowedPrefix] at h
  generalize (space.workspaceFor tenantId).toList = workspace at h hne ⊢
  have hhead : ∀ tail, workspace ++ tail <+: '/' :: ['/'].intercalate names →
      workspace.head? = some '/' := by
    intro tail ⟨rest, hrest⟩
    cases workspace with
    | nil => exact absurd rfl hne
    | cons c workspace =>
        injection hrest with hc
        rw [hc]
        rfl
  split at h
  next hlast =>
    obtain ⟨dir, hdir⟩ := List.getLast?_eq_some_iff.mp hlast
    have habs := hhead [] (by rw [List.append_nil]; exact h)
    rw [if_pos (decide_eq_true habs)]
    have hresolve :
        Path.resolve [] (workspace.splitOn '/') = Path.resolve [] (dir.splitOn '/') := by
      rw [hdir, List.splitOn_append_cons_self, Path.resolve, List.foldl_append]
      rfl
    rw [hresolve]
    exact resolve_prefix hnames (hdir ▸ h)
  next =>
    rw [if_pos (decide_eq_true (hhead ['/'] h))]
    exact resolve_prefix hnames h

/-- An absolute path that is let through is inside. -/
theorem inside_of_allowed {space : AgentSpace} {path tenantId : String} (cwd : List Segment)
    (habs : isAbsolute path = true) (h : isPathAllowed space path tenantId = true) :
    Inside cwd space tenantId path := by
  rw [isPathAllowed, normalizePath] at h
  rw [Inside, locate, if_pos habs]
  split at h
  next => cases h
  next normalized hnorm =>
    split at hnorm
    next => cases hnorm
    next =>
      obtain ⟨parts, hparts, hjoined⟩ := Option.map_eq_some_iff.mp hnorm
      have hresolve := pushParts_eq hparts
      have hlist : normalized.toList = '/' :: ['/'].intercalate parts := by
        rw [← hjoined]
        exact String.toList_ofList
      have habs' : isAbsolute normalized = true := by
        rw [isAbsolute, hlist]
        rfl
      rw [habs', Bool.not_true, Bool.false_or, hlist] at h
      have hnames : ∀ seg ∈ parts, Path.IsName seg ∧ '/' ∉ seg := by
        intro seg hseg
        rw [hresolve] at hseg
        have hname := @Path.isName_resolve [] (splitPath path) nofun seg hseg
        rcases hname with ⟨hname, hmem | hmem⟩
        · cases hmem
        · exact ⟨hname, not_mem_splitOn _ seg hmem⟩
      rw [← hresolve]
      exact workspaceDir_prefix cwd hnames (of_decide_eq_true h)

/-! ## Relative paths -/

/-- A relative path is inside exactly when it comes back. -/
theorem inside_iff_comesBack {space : AgentSpace} {path tenantId : String} (cwd : List Segment)
    (hrel : isAbsolute path = false) :
    Inside cwd space tenantId path ↔ ComesBack cwd space tenantId path := by
  rw [Inside, locate, hrel]
  exact Path.prefix_resolve _ _

/-- Without a root there is nothing to climb out of. -/
theorem pushParts_relative (parts segs : List Segment) :
    pushParts false parts segs = some (Path.resolve parts segs) := by
  cases h : pushParts false parts segs with
  | some out => rw [pushParts_eq h]
  | none =>
      exfalso
      induction segs generalizing parts with
      | nil => cases h
      | cons seg segs ih =>
          rw [pushParts] at h
          split at h
          · exact ih parts h
          · split at h
            · rw [if_neg fun hroot => Bool.noConfusion hroot.2] at h
              exact ih _ h
            · exact ih _ h

/-- A relative path stays one, and is let through wherever it leads. -/
theorem allowed_of_relative {path : String} (space : AgentSpace) (tenantId : String)
    (hrel : isAbsolute path = false) (hne : path ≠ "") :
    isPathAllowed space path tenantId = true := by
  have hnames : ∀ seg ∈ Path.resolve [] (splitPath path), Path.IsName seg ∧ '/' ∉ seg := by
    intro seg hseg
    obtain ⟨hname, hmem | hmem⟩ :=
      @Path.isName_resolve [] (splitPath path) (fun _ hmem => absurd hmem List.not_mem_nil) seg hseg
    · cases hmem
    · exact ⟨hname, not_mem_splitOn _ seg hmem⟩
  have hrel' : isAbsolute (String.ofList (['/'].intercalate (Path.resolve [] (splitPath path)))) =
      false := by
    rw [isAbsolute, String.toList_ofList, decide_eq_false_iff_not]
    cases hparts : Path.resolve [] (splitPath path) with
    | nil => exact fun h => by cases h
    | cons first rest =>
        obtain ⟨hname, hslash⟩ := hnames first (by rw [hparts]; exact List.mem_cons_self)
        cases first with
        | nil => exact absurd rfl hname.1
        | cons c cs =>
            have hhead : (['/'].intercalate ((c :: cs) :: rest)).head? = some c := by
              cases rest <;> rfl
            rw [hhead]
            rintro ⟨rfl⟩
            exact hslash List.mem_cons_self
  rw [isPathAllowed, normalizePath, if_neg hne, hrel, pushParts_relative]
  simp only [Option.map_some, Bool.false_eq_true, if_false, hrel', Bool.not_false, Bool.true_or]

/-! ## What is let through -/

theorem allowed_of_continue {d : DefaultHookDispatcher} {ctx : ToolCallCtx}
    (h : (d.onToolCall ctx).1 = .continue_) :
    ∀ path ∈ d.extractPaths ctx.toolName ctx.input,
      isPathAllowed d.space path ctx.tenantId = true := by
  rw [DefaultHookDispatcher.onToolCall] at h
  split at h
  · cases h
  · split at h
    · cases h
    · simp only [] at h
      split at h
      next => cases h
      next hnone =>
        intro path hpath
        have hallowed := List.find?_eq_none.mp hnone path hpath
        simpa using hallowed

/-- The paths of an input that is let through are all inside the workspace of
the tenant exactly when each of them that is relative comes back to it. -/
theorem inside_iff_of_continue {d : DefaultHookDispatcher} {ctx : ToolCallCtx}
    (h : (d.onToolCall ctx).1 = .continue_) (cwd : List Segment) :
    (∀ path ∈ d.extractPaths ctx.toolName ctx.input, Inside cwd d.space ctx.tenantId path) ↔
      ∀ path ∈ d.extractPaths ctx.toolName ctx.input, isAbsolute path = false →
        ComesBack cwd d.space ctx.tenantId path := by
  constructor
  · intro hinside path hpath hrel
    exact (inside_iff_comesBack cwd hrel).mp (hinside path hpath)
  · intro hback path hpath
    cases habs : isAbsolute path with
    | true => exact inside_of_allowed cwd habs (allowed_of_continue h path hpath)
    | false => exact (inside_iff_comesBack cwd habs).mpr (hback path hpath habs)

/-- A dispatcher that looks at the path of the tool `read`. -/
def readGuard : DefaultHookDispatcher :=
  { space := { root := "/data" }
    deniedTools := []
    allowedTools := []
    pathGuardFields := fun toolName => if toolName = "read" then some ["path"] else none
    pathGuardScanUnknown := false }

/-- The tenant `acme` reads a file. -/
def reading (path : String) : ToolCallCtx :=
  { tenantId := "acme", toolName := "read", input := .obj [("path", .str path)] }

theorem inside_iff_own_file :
    (∀ path ∈ readGuard.extractPaths "read" (reading "/data/workspaces/acme/a.txt").input,
      Inside [] readGuard.space "acme" path) ↔
      ∀ path ∈ readGuard.extractPaths "read" (reading "/data/workspaces/acme/a.txt").input,
        isAbsolute path = false → ComesBack [] readGuard.space "acme" path :=
  @inside_iff_of_continue readGuard (reading "/data/workspaces/acme/a.txt") (by decide) []

/-- It is let through to a file of the tenant `beta`. -/
theorem not_inside_other_tenant :
    (readGuard.onToolCall (reading "../beta/a.txt")).1 = .continue_ ∧
      "../beta/a.txt" ∈ readGuard.extractPaths "read" (reading "../beta/a.txt").input ∧
      ¬ Inside [] readGuard.space "acme" "../beta/a.txt" := by
  decide

end Pandaria.Agent
