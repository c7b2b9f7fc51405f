import Pandaria.Toolkit.FileWrite

/-!
# What is written outside the sandbox

A path that is read is resolved first and compared then, and what passes is
inside. A path that is written is compared as it stands; then directories are made
along it, wherever its links lead, and only when the target turns out to exist it
is looked at again. So what a call makes, it makes where the path, links
followed, first lacks something, and that need not be in the base.
-/

namespace Pandaria.Toolkit

open Pandaria.Ai (Json)
open Pandaria.Lib
open Pandaria.Mcp (ToolError ToolResult)

variable {t u : Disk} {cwd base target place : List Segment} {baseDir : Option String}

/-! ## Paths that are read -/

theorem real_of_realpath {start : List Segment} {steps : List (PathStep Segment)}
    (hstart : t.Real start ∨ steps ≠ []) (h : realpath t start steps = .ok place) :
    t.Real place := by
  unfold realpath at h
  split at h
  · next found hwalk =>
      cases h
      have hwalks := FileTree.walk_eq_iff.mp hwalk
      refine hwalks.real ?_
      rcases hstart with hstart | hne
      · exact hstart
      · cases steps with
        | nil => exact absurd rfl hne
        | cons step rest => exact .of_isDir hwalks.isDir_of_cons
  · cases h
  · cases h
  · cases h

theorem real_root (t : Disk) : t.Real [] := .of_isDir (FileTree.isDir_iff.mpr t.root)

/-- A place is resolved to itself. -/
theorem realpath_names (h : t.Real place) : realpath t [] (FileTree.names place) = .ok place := by
  have hwalk : t.walk maxLinks [] (FileTree.names place) = .found place :=
    FileTree.walk_eq_iff.mpr (FileTree.walks_names h)
  rw [realpath, hwalk]

/-- A path that is accepted is that of a file or directory in the base. -/
theorem resolveSandboxPath_spec {input : String}
    (h : resolveSandboxPath t cwd baseDir input = .ok place) :
    (∃ base, sandboxBase t cwd baseDir = .ok base ∧ base <+: place) ∧
      t.Real place ∧ realpath t [] (FileTree.names place) = .ok place := by
  unfold resolveSandboxPath at h
  split at h
  · cases h
  · next base hbase =>
      split at h
      · cases h
      · split at h
        · cases h
        · next target htarget =>
            split at h
            · next hstart =>
                cases h
                have hreal := real_of_realpath (.inl (real_root t)) htarget
                exact ⟨⟨base, hbase, List.isPrefixOf_iff_prefix.mp hstart⟩, hreal,
                  realpath_names hreal⟩
            · cases h

/-! ## Paths that are written -/

theorem pathSteps_ne_nil (path : String) : pathSteps path ≠ [] := by
  rw [pathSteps, Ne, List.map_eq_nil_iff]
  exact List.splitOn_ne_nil _ _

/-- The base of the tool is there. -/
theorem real_writeBase (h : writeBase t cwd baseDir = .ok base) : t.Real base := by
  unfold writeBase canonicalize at h
  split at h
  · cases h
  · split at h
    · cases h
    · exact real_of_realpath (.inr (pathSteps_ne_nil _)) h

theorem realpath_extends {start : List Segment} {steps : List (PathStep Segment)}
    (hu : t.Extends u) (h : realpath t start steps = .ok place) :
    realpath u start steps = .ok place := by
  unfold realpath at h ⊢
  split at h
  · next found hwalk =>
      cases h
      obtain ⟨m, -, hmore⟩ := (FileTree.walk_eq_iff.mp hwalk).found_append hu
      have hnil := hmore [] _ .done
      rw [List.append_nil] at hnil
      rw [FileTree.walk_eq_iff.mpr hnil]
  · cases h
  · cases h
  · cases h

/-- And it stays what it is when more is made. -/
theorem writeBase_extends (hu : t.Extends u) (h : writeBase t cwd baseDir = .ok base) :
    writeBase u cwd baseDir = .ok base := by
  unfold writeBase canonicalize at h ⊢
  split at h
  · cases h
  · next hnul =>
      rw [if_neg hnul]
      split at h
      · cases h
      · next hempty =>
          rw [if_neg hempty]
          exact realpath_extends hu h

/-- Where something would be made is inside the base: the directory in which a name
of the path above the target is missing, and that in which the target is, be it at
the end of a link. -/
structure Within (t : Disk) (base target : List Segment) : Prop where
  above : hasNul target.dropLast = false → ∀ dir name,
    t.Lacks maxLinks target.dropLast dir name → base <+: dir
  target : hasNul target = false → ∀ dir name,
    t.locate maxLinks target = .missing dir name [] → base <+: dir

/-- All that is changed is in the base. -/
def Confined (t u : Disk) (base : List Segment) : Prop :=
  ∀ place, u.node place ≠ t.node place → base <+: place

theorem Confined.refl (t : Disk) (base : List Segment) : Confined t t base :=
  fun _ h => absurd rfl h

namespace FileWriteTool

/-- What becomes of the tree: first the directories, then the file. -/
def outcome (t : Disk) (cwd : List Segment) (baseDir : Option String) (target : List Segment)
    (content : String) : Disk :=
  match createParent t target with
  | (u, .error _) => u
  | (u, .ok ()) =>
      if escapes u cwd baseDir target then u
      else
        match write u target content with
        | .error _ => u
        | .ok v => v

theorem writeTo_fst {tool : FileWriteTool} {path content : String}
    (h : resolveWritePath t cwd tool.baseDir path = .ok target) :
    (tool.writeTo t cwd path content).1 = outcome t cwd tool.baseDir target content := by
  unfold writeTo outcome
  rw [h]
  dsimp only
  generalize createParent t target = made
  obtain ⟨u, r⟩ := made
  cases r with
  | error e => rfl
  | ok =>
      dsimp only
      split
      · rfl
      · cases write u target content <;> rfl

theorem node_write {content : String} {v : Disk} (h : write u target content = .ok v) :
    hasNul target = false ∧ ∃ place,
      (u.locate maxLinks target = .found place ∧ u.isDir place = false ∨
        ∃ dir name, u.locate maxLinks target = .missing dir name [] ∧ place = dir ++ [name]) ∧
      ∀ place', v.node place' = if place' = place then some (.file content) else u.node place' := by
  unfold write at h
  split at h
  · cases h
  · next hnul =>
      refine ⟨eq_false_of_ne_true hnul, ?_⟩
      cases hwrite : u.writeFile maxLinks target content with
      | error e =>
          rw [hwrite] at h
          cases h
      | ok v' =>
          rw [hwrite] at h
          cases h
          exact FileTree.writeFile_spec hwrite

/-- What there is at last: what has been made, or that with the file. -/
theorem outcome_cases {r : Except OsError Unit} (h : createParent t target = (u, r))
    (cwd : List Segment) (baseDir : Option String) (content : String) :
    outcome t cwd baseDir target content = u ∨
      r = .ok () ∧ escapes u cwd baseDir target = false ∧
        write u target content = .ok (outcome t cwd baseDir target content) := by
  unfold outcome
  rw [h]
  cases r with
  | error e => exact .inl rfl
  | ok =>
      dsimp only
      cases hesc : escapes u cwd baseDir target with
      | true => exact .inl (if_pos rfl)
      | false =>
          rw [if_neg (by simp)]
          cases hwrite : write u target content with
          | error e => exact .inl rfl
          | ok v => exact .inr ⟨rfl, rfl, rfl⟩

/-- A target that exists is looked at again. -/
theorem prefix_of_not_escapes (hbase : writeBase u cwd baseDir = .ok base)
    (hnul : hasNul target = false) (hfound : u.locate maxLinks target = .found place)
    (h : escapes u cwd baseDir target = false) : base <+: place := by
  have hreal : realpath u [] (FileTree.names target) = .ok place := by
    rw [realpath, show u.walk maxLinks [] (FileTree.names target) = .found place from hfound]
  rw [escapes, hnul, hreal, hbase] at h
  exact List.isPrefixOf_iff_prefix.mp (by simpa using h)

/-- One that does not is not. -/
theorem escapes_of_missing {dir : List Segment} {name : Segment} {rest : List (PathStep Segment)}
    (h : u.locate maxLinks target = .missing dir name rest) :
    escapes u cwd baseDir target = false := by
  have hreal : realpath u [] (FileTree.names target) = .error (.file .notFound) := by
    rw [realpath, show u.walk maxLinks [] (FileTree.names target) = .missing dir name rest from h]
  rw [escapes, hreal]
  split <;> rfl

/-- The base is there, so what is missing is not it. -/
theorem prefix_dir_iff {dir : List Segment} {name : Segment} (hreal : t.Real base)
    (hnone : t.node (dir ++ [name]) = none) : base <+: dir ++ [name] ↔ base <+: dir := by
  rw [List.prefix_concat_iff]
  constructor
  · rintro (rfl | h)
    · obtain ⟨node, hnode, -⟩ := hreal
      rw [hnone] at hnode
      cases hnode
    · exact h
  · exact .inr

/-! ### Nothing is made above the target -/

section unmade

variable {content : String}

/-- When the path of the target leads to a directory only its last name can be
made. -/
theorem confined_iff_of_found (hbase : writeBase t cwd baseDir = .ok base)
    (hparent : createParent t target = (t, .ok ())) :
    Confined t (outcome t cwd baseDir target content) base ↔
      (hasNul target = false → ∀ dir name,
        t.locate maxLinks target = .missing dir name [] → base <+: dir) := by
  have hreal := real_writeBase hbase
  constructor
  · intro hconf hnul dir name hmissing
    obtain ⟨v, hwrite, hnode⟩ := FileTree.writeFile_missing hmissing content
    have hout : outcome t cwd baseDir target content = v := by
      rw [outcome, hparent]
      dsimp only
      rw [escapes_of_missing hmissing, write, hnul, hwrite]
      rfl
    have hnone := (FileTree.walk_eq_iff.mp hmissing).lacks.2
    refine (prefix_dir_iff hreal hnone).mp (hconf _ ?_)
    rw [hout, hnode, hnone]
    simp
  · intro hwithin place hchanged
    rcases outcome_cases hparent cwd baseDir content with hout |
      ⟨-, hesc, hwrite⟩
    · rw [hout] at hchanged
      exact absurd rfl hchanged
    · obtain ⟨hnul, place', hplace, hnode⟩ := node_write hwrite
      rw [hnode] at hchanged
      split at hchanged
      · next heq =>
          subst heq
          rcases hplace with ⟨hfound, -⟩ | ⟨dir, name, hmissing, rfl⟩
          · exact prefix_of_not_escapes hbase hnul hfound hesc
          · exact (hwithin hnul dir name hmissing).trans (List.prefix_append _ _)
      · exact absurd rfl hchanged

/-- A target without a last name to be made. -/
theorem no_missing_of_parent {dir : List Segment} {name : Segment}
    (hne : target ≠ []) (hparent : t.isDirAt maxLinks target.dropLast = false) :
    t.locate maxLinks target ≠ .missing dir name [] := by
  intro hmissing
  have htarget : target.dropLast ++ [target.getLast hne] = target :=
    List.dropLast_concat_getLast hne
  rw [← htarget] at hmissing
  cases hloc : t.locate maxLinks target.dropLast with
  | found place =>
      have hfile : t.isDir place = false := by
        rw [FileTree.isDirAt, hloc] at hparent
        exact hparent
      obtain ⟨m, -, hmore⟩ := FileTree.locate_append (.refl t) hloc
      rw [hmore [_] _ (.notDirectory hfile)] at hmissing
      cases hmissing
  | missing dir' name' rest =>
      rw [FileTree.locate_append_missing hloc] at hmissing
      injection hmissing with _ _ hrest
      simp [FileTree.names] at hrest
  | notDirectory =>
      have hfailed := (FileTree.walk_eq_iff.mp hloc).failed_append (.inl rfl)
        (FileTree.names [target.getLast hne])
      rw [← FileTree.names_append] at hfailed
      rw [FileTree.locate, FileTree.walk_eq_iff.mpr hfailed] at hmissing
      cases hmissing
  | loop =>
      have hfailed := (FileTree.walk_eq_iff.mp hloc).failed_append (.inr rfl)
        (FileTree.names [target.getLast hne])
      rw [← FileTree.names_append] at hfailed
      rw [FileTree.locate, FileTree.walk_eq_iff.mpr hfailed] at hmissing
      cases hmissing

end unmade

/-! ### Directories are made -/

section made

variable {content : String} {dir : List Segment} {name : Segment} {r : Except OsError Unit}

/-- A path that lacks a name lacks no other. -/
theorem lacks_unique {path dir' : List Segment} {name' : Segment}
    (h : t.Lacks maxLinks path dir name) (h' : t.Lacks maxLinks path dir' name') : dir' = dir := by
  obtain ⟨rest, hloc⟩ := h.locate
  obtain ⟨rest', hloc'⟩ := h'.locate
  rw [hloc] at hloc'
  injection hloc' with hdir
  exact hdir.symm

/-- With a directory above it missing, the target is within if that is. -/
theorem within_iff_of_lacks (hne : target ≠ []) (hnul : hasNul target.dropLast = false)
    (hlacks : t.Lacks maxLinks target.dropLast dir name) : Within t base target ↔ base <+: dir := by
  refine ⟨fun h => h.above hnul dir name hlacks, fun h => ⟨fun _ dir' name' hlacks' => ?_,
    fun _ dir' name' hmissing => ?_⟩⟩
  · rw [lacks_unique hlacks hlacks']
    exact h
  · obtain ⟨rest, hloc⟩ := hlacks.locate
    refine absurd hmissing (no_missing_of_parent hne ?_)
    rw [FileTree.isDirAt, hloc]

/-- The file that is written below what has been made, or where it was looked
for. -/
theorem confined_of_made (hbase : writeBase t cwd baseDir = .ok base) (hne : target ≠ [])
    (hparent : createParent t target = (u, r)) (hmade : t.Made u dir name)
    (hok : r = .ok () → ∃ place, u.locate maxLinks target.dropLast = .found place ∧
      u.isDir place = true ∧ dir ++ [name] <+: place) (hdir : base <+: dir) :
    Confined t (outcome t cwd baseDir target content) base := by
  have hbelow : ∀ place, dir ++ [name] <+: place → base <+: place := fun place hplace =>
    (hdir.trans (List.prefix_append _ _)).trans hplace
  have hu : Confined t u base := fun place hchanged => hbelow place (hmade.below place hchanged).1
  rcases outcome_cases hparent cwd baseDir content with hout | ⟨hr, hesc, hwrite⟩
  · rw [hout]
    exact hu
  · obtain ⟨hnul, place', hplace, hnode⟩ := node_write hwrite
    intro place hchanged
    rw [hnode] at hchanged
    split at hchanged
    · next heq =>
        subst heq
        rcases hplace with ⟨hfound, -⟩ | ⟨dir', name', hmissing, rfl⟩
        · exact prefix_of_not_escapes (writeBase_extends hmade.extends hbase) hnul hfound hesc
        · -- the directory above is new, and no link is in it
          obtain ⟨above, habove, hisdir, hstart⟩ := hok hr
          have hlast := List.prefix_append above [target.getLast hne]
          obtain ⟨m, -, hmore⟩ := FileTree.locate_append (.refl u) habove
          have htarget := List.dropLast_concat_getLast hne
          cases hlook : u.node (above ++ [target.getLast hne]) with
          | none =>
              have hloc := hmore [target.getLast hne] _ (.missing hisdir hlook)
              rw [htarget, hmissing] at hloc
              injection hloc with hdir' hname'
              rw [hdir', hname']
              exact hbelow _ (hstart.trans hlast)
          | some node =>
              have hnew : u.node (above ++ [target.getLast hne]) = some .dir := by
                refine (hmade.below _ ?_).2
                rw [hlook, hmade.node_eq_none (hstart.trans hlast)]
                simp
              have hloc := hmore [target.getLast hne] _
                (.down hisdir (.of_isDir (FileTree.isDir_iff.mpr hnew)) .done)
              rw [htarget, hmissing] at hloc
              cases hloc
    · exact hu place hchanged

/-- The directory that has been made stays. -/
theorem prefix_of_confined (hreal : t.Real base) (hparent : createParent t target = (u, r))
    (hmade : t.Made u dir name) (h : Confined t (outcome t cwd baseDir target content) base) :
    base <+: dir := by
  refine (prefix_dir_iff hreal hmade.lacked).mp (h _ ?_)
  have hthere := FileTree.isDir_iff.mp hmade.there
  rw [hmade.lacked]
  rcases outcome_cases hparent cwd baseDir content with hout | ⟨-, -, hwrite⟩
  · rw [hout, hthere]
    simp
  · obtain ⟨-, place, -, hnode⟩ := node_write hwrite
    rw [hnode]
    split
    · simp
    · rw [hthere]
      simp

end made

theorem hasNul_of_dropLast (h : hasNul target.dropLast = true) : hasNul target = true := by
  rw [hasNul, List.any_eq_true] at h ⊢
  obtain ⟨seg, hseg, hnul⟩ := h
  exact ⟨seg, List.dropLast_subset _ hseg, hnul⟩

/-- What a call changes is in the base exactly if the place where the path first
lacks something is. -/
theorem confined_iff {content : String} (hbase : writeBase t cwd baseDir = .ok base) :
    Confined t (outcome t cwd baseDir target content) base ↔ Within t base target := by
  have hreal := real_writeBase hbase
  by_cases hnil : target = []
  · subst hnil
    have hloc : t.locate maxLinks [] = .found [] := FileTree.walk_eq_iff.mpr .done
    have hparent : createParent t [] = (t, .ok ()) := if_pos rfl
    rw [confined_iff_of_found hbase hparent]
    refine ⟨fun h => ⟨fun _ dir name hlacks => ?_, h⟩, Within.target⟩
    obtain ⟨rest, hmissing⟩ := hlacks.locate
    rw [show t.locate maxLinks [].dropLast = .found [] from hloc] at hmissing
    cases hmissing
  · cases hnul : hasNul target.dropLast with
    | true =>
        have hparent : createParent t target = (t, .error .nul) := by
          rw [createParent, if_neg hnil, hnul]
          rfl
        have hout : outcome t cwd baseDir target content = t := by
          rw [outcome, hparent]
        rw [hout]
        refine iff_of_true (.refl t base) ⟨fun h => ?_, fun h => ?_⟩
        · rw [hnul] at h
          cases h
        · rw [hasNul_of_dropLast hnul] at h
          cases h
    | false =>
        have hspec := FileTree.createDirAll_spec maxLinks t target.dropLast
        have hparent : createParent t target =
            ((t.createDirAll maxLinks target.dropLast).1,
              (t.createDirAll maxLinks target.dropLast).2.mapError .file) := by
          rw [createParent, if_neg hnil, hnul]
          rfl
        generalize t.createDirAll maxLinks target.dropLast = out at hspec hparent
        obtain ⟨u, r⟩ := out
        rcases hspec with ⟨rfl, hnot, hok⟩ | ⟨dir, name, hlacks, hmade, hok⟩
        · cases r with
          | ok =>
              rw [confined_iff_of_found hbase hparent]
              exact ⟨fun h => ⟨fun _ dir name hlacks => absurd hlacks (hnot dir name), h⟩,
                Within.target⟩
          | error e =>
              have hout : outcome u cwd baseDir target content = u := by
                rw [outcome, hparent]
                rfl
              have hfile : u.isDirAt maxLinks target.dropLast = false :=
                eq_false_of_ne_true fun h => by cases hok.mpr h
              rw [hout]
              refine iff_of_true (.refl u base)
                ⟨fun _ dir name hlacks => absurd hlacks (hnot dir name),
                  fun _ dir name hmissing => ?_⟩
              exact absurd hmissing (no_missing_of_parent hnil hfile)
        · rw [within_iff_of_lacks hnil hnul hlacks]
          refine ⟨prefix_of_confined hreal hparent hmade,
            confined_of_made hbase hnil hparent hmade ?_⟩
          intro hr
          refine hok ?_
          cases r with
          | ok => rfl
          | error e => cases hr

end FileWriteTool

/-- A path that is accepted for reading denotes what is in the base. What a call of
the tool that writes makes or changes is in the base exactly if the place where
its target, links followed, first lacks something is. -/
theorem sandbox (t : Disk) (cwd : List Segment) (baseDir : Option String) :
    (∀ input place, resolveSandboxPath t cwd baseDir input = .ok place →
      (∃ base, sandboxBase t cwd baseDir = .ok base ∧ base <+: place) ∧ t.Real place ∧
        realpath t [] (FileTree.names place) = .ok place) ∧
    ∀ (parse : String → Except ToolError Json) (input : String),
      (∀ place, (FileWriteTool.execute parse ⟨baseDir⟩ t cwd input).1.node place ≠ t.node place →
        ∃ base, writeBase t cwd baseDir = .ok base ∧ base <+: place) ↔
      ∀ path content base target, FileWriteTool.fields parse input = .ok (path, content) →
        writeBase t cwd baseDir = .ok base → resolveWritePath t cwd baseDir path = .ok target →
          Within t base target := by
  refine ⟨fun input place => resolveSandboxPath_spec, fun parse input => ?_⟩
  unfold FileWriteTool.execute
  cases hfields : FileWriteTool.fields parse input with
  | error e =>
      exact iff_of_true (fun place h => absurd rfl h) fun path content base target h => by cases h
  | ok pair =>
      obtain ⟨path, content⟩ := pair
      dsimp only
      cases htarget : resolveWritePath t cwd baseDir path with
      | error e =>
          refine iff_of_true (fun place h => ?_) fun path' content' base target h _ hok => ?_
          · rw [FileWriteTool.writeTo, htarget] at h
            exact absurd rfl h
          · cases h
            rw [htarget] at hok
            cases hok
      | ok target =>
          obtain ⟨base, hbase⟩ : ∃ base, writeBase t cwd baseDir = .ok base := by
            unfold resolveWritePath at htarget
            split at htarget
            · cases htarget
            · next base hbase => exact ⟨base, hbase⟩
          have hconf : Confined t (FileWriteTool.outcome t cwd baseDir target content) base ↔
              Within t base target := FileWriteTool.confined_iff hbase
          have hout : (FileWriteTool.writeTo ⟨baseDir⟩ t cwd path content).1 =
              FileWriteTool.outcome t cwd baseDir target content :=
            FileWriteTool.writeTo_fst htarget
          rw [hout]
          refine Iff.trans ?_ (hconf.trans ?_)
          · refine forall_congr' fun place => imp_congr_right fun _ => ?_
            rw [hbase]
            simp
          · constructor
            · intro hwithin path' content' base' target' h hbase' htarget'
              cases h
              rw [hbase] at hbase'
              rw [htarget] at htarget'
              cases hbase'
              cases htarget'
              exact hwithin
            · exact fun h => h path content base target rfl hbase htarget

/-- A base with a link in it that leads out. -/
def linkedDisk : Disk :=
  ((FileTree.empty.add [] ['b'] .dir).add [] ['o'] .dir).add [['b']] ['l']
    (.link ⟨true, [.down ['o']]⟩)

/-- A file is to be written in a directory behind the link that is not there yet, and
the directory is made behind the link. -/
theorem not_sandbox : ¬ ∀ (t : Disk) (cwd : List Segment) (baseDir : Option String)
    (parse : String → Except ToolError Json) (input : String) (place : List Segment),
    (FileWriteTool.execute parse ⟨baseDir⟩ t cwd input).1.node place ≠ t.node place →
      ∃ base, writeBase t cwd baseDir = .ok base ∧ base <+: place := by
  intro h
  have hbase : writeBase linkedDisk [] (some "/b") = .ok [['b']] := by decide
  have htarget : resolveWritePath linkedDisk [] (some "/b") "l/n/f" =
      .ok [['b'], ['l'], ['n'], ['f']] := by
    unfold resolveWritePath
    rw [hbase]
    rfl
  have hall := h linkedDisk [] (some "/b") (fun _ => .ok (.obj [("path", .str "l/n/f"),
    ("content", .str "x")])) ""
  have hout : (FileWriteTool.execute (fun _ => .ok (.obj [("path", .str "l/n/f"),
      ("content", .str "x")])) ⟨some "/b"⟩ linkedDisk [] "").1 =
      FileWriteTool.outcome linkedDisk [] (some "/b") [['b'], ['l'], ['n'], ['f']] "x" :=
    FileWriteTool.writeTo_fst htarget
  have hconf : Confined linkedDisk
      (FileWriteTool.outcome linkedDisk [] (some "/b") [['b'], ['l'], ['n'], ['f']] "x")
      [['b']] := by
    intro place hchanged
    rw [← hout] at hchanged
    obtain ⟨base, hok, hstart⟩ := hall place hchanged
    rw [hbase] at hok
    cases hok
    exact hstart
  have hlacks : linkedDisk.Lacks maxLinks [['b'], ['l'], ['n']] [['o']] ['n'] :=
    ⟨[['b'], ['l']], by decide, by decide, by decide, rfl⟩
  exact absurd (((FileWriteTool.confined_iff hbase).mp hconf).above (by decide) _ _ hlacks)
    (by decide)

end Pandaria.Toolkit
