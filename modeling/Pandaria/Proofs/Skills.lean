import Mathlib.Data.List.Perm.Lattice
import Pandaria.Agent.Skills

/-!
# What a scan for skills finds

A scan comes to certain files, in the order in which directories are enumerated,
and loads one after the other. What it comes to does not depend on what it has
loaded; what it does with a file depends on the names it has seen and on nothing
else. So the order of two files matters only if both are loadable under one name.

Which files it comes to is decided by the names on the way to them. A file below
the directory is missed only if one of those names is hidden or matched by a
pattern of the directory it is in.
-/

namespace Pandaria.Agent.Skills

open Pandaria.Ai Pandaria.Lib

/-! ## Files in the order of the scan -/

structure Visit where
  source : SkillSource
  dir : List String
  file : String
  content : Except String String

namespace Visit

def path (v : Visit) : List String := v.dir ++ [v.file]

def judge (env : ScanEnv) (v : Visit) : Except (List String) Skill :=
  Skills.judge env v.source v.dir v.file v.content

def load (env : ScanEnv) (l : Loaded) (v : Visit) : Loaded :=
  loadSkillFromFile env v.source v.dir v.file v.content l

/-- The name of a loadable file. -/
def name? (env : ScanEnv) (v : Visit) : Option String := (v.judge env).toOption.map Skill.name

end Visit

/-- The files below a directory that has no `SKILL.md`. -/
def visitsIn (source : SkillSource) (dir : List String) (patterns : List String) :
    Dir → List Visit
  | .nil => []
  | .file name content rest =>
      (if !isSkipped patterns name && ".md".toList.isSuffixOf name.toList then
        [⟨source, dir, name, content⟩] else []) ++ visitsIn source dir patterns rest
  | .dir name entries rest =>
      (if isSkipped patterns name then []
      else
        match entries.file? "SKILL.md" with
        | some content => [⟨source, dir ++ [name], "SKILL.md", content⟩]
        | none => visitsIn source (dir ++ [name]) (readIgnorePatterns entries) entries) ++
        visitsIn source dir patterns rest
  | .other _ rest => visitsIn source dir patterns rest

def visitsOf (source : SkillSource) (dir : List String) (entries : Dir) : List Visit :=
  match entries.file? "SKILL.md" with
  | some content => [⟨source, dir, "SKILL.md", content⟩]
  | none => visitsIn source dir (readIgnorePatterns entries) entries

def Root.visits (root : Root) : List Visit := visitsOf root.source root.path root.entries

theorem scanEntries_eq (env : ScanEnv) (source : SkillSource) (d : Dir) (dir patterns : List String)
    (l : Loaded) : scanEntries env source dir patterns d l =
      (visitsIn source dir patterns d).foldl (Visit.load env) l := by
  induction d generalizing dir patterns l with
  | nil => rfl
  | file name content rest ih =>
      rw [scanEntries, visitsIn, List.foldl_append, ih]
      split
      · rfl
      · rfl
  | dir name entries rest ihEntries ih =>
      rw [scanEntries, visitsIn, List.foldl_append, ih]
      split
      · rfl
      · cases entries.file? "SKILL.md" with
        | some content => rfl
        | none => rw [ihEntries]
  | other name rest ih => rw [scanEntries, visitsIn, ih]

theorem scanDir_eq (env : ScanEnv) (root : Root) (l : Loaded) :
    scanDir env root.source root.path root.entries l = root.visits.foldl (Visit.load env) l := by
  rw [scanDir, Root.visits, visitsOf]
  cases root.entries.file? "SKILL.md" with
  | some content => rfl
  | none => exact scanEntries_eq env root.source root.entries _ _ l

def scanFrom (env : ScanEnv) (l : Loaded) (dirs : List Root) : Loaded :=
  dirs.foldl (fun l root => scanDir env root.source root.path root.entries l) l

theorem scanFrom_cons (env : ScanEnv) (l : Loaded) (root : Root) (dirs : List Root) :
    scanFrom env l (root :: dirs) =
      scanFrom env (root.visits.foldl (Visit.load env) l) dirs := by
  rw [scanFrom, List.foldl_cons, scanDir_eq]
  rfl

theorem scanFrom_eq (env : ScanEnv) (l : Loaded) (dirs : List Root) :
    scanFrom env l dirs = (dirs.flatMap Root.visits).foldl (Visit.load env) l := by
  induction dirs generalizing l with
  | nil => rfl
  | cons root dirs ih => rw [scanFrom_cons, ih, List.flatMap_cons, List.foldl_append]

theorem scanFrom_append (env : ScanEnv) (l : Loaded) (earlier later : List Root) :
    scanFrom env l (earlier ++ later) = scanFrom env (scanFrom env l earlier) later :=
  List.foldl_append

theorem scanSkillDirs_eq (env : ScanEnv) (dirs : List Root) :
    scanSkillDirs env dirs = (dirs.flatMap Root.visits).foldl (Visit.load env) ⟨[], [], []⟩ :=
  scanFrom_eq env _ dirs

/-! ## What one file adds -/

def collision (v : Visit) (name : String) : SkillDiagnostic :=
  ⟨v.path, .collision, "skill name \"" ++ name ++
    "\" collides with a previously loaded skill; skipping"⟩

/-- The skill a file adds when the names in `seen` have been seen. -/
def adds (env : ScanEnv) (seen : List String) (v : Visit) : Option Skill :=
  match v.judge env with
  | .error _ => none
  | .ok skill => if skill.name ∈ seen then none else some skill

/-- And the diagnostics. -/
def reports (env : ScanEnv) (seen : List String) (v : Visit) : List SkillDiagnostic :=
  match v.judge env with
  | .error messages => messages.map fun m => ⟨v.path, .warning, m⟩
  | .ok skill => if skill.name ∈ seen then [collision v skill.name] else []

theorem load_eq (env : ScanEnv) (l : Loaded) (v : Visit) :
    v.load env l =
      { seen := ((adds env l.seen v).map Skill.name).toList ++ l.seen
        skills := l.skills ++ (adds env l.seen v).toList
        diagnostics := l.diagnostics ++ reports env l.seen v } := by
  rw [Visit.load, loadSkillFromFile, adds, reports]
  cases hjudge : v.judge env with
  | error messages =>
      rw [show judge env v.source v.dir v.file v.content = _ from hjudge]
      simp [Visit.path]
  | ok skill =>
      rw [show judge env v.source v.dir v.file v.content = _ from hjudge]
      by_cases hseen : skill.name ∈ l.seen
      · simp [hseen, collision, Visit.path]
      · simp [hseen]

theorem skills_load (env : ScanEnv) (l : Loaded) (v : Visit) :
    (v.load env l).skills = l.skills ++ (adds env l.seen v).toList := by
  rw [load_eq]

theorem diagnostics_load (env : ScanEnv) (l : Loaded) (v : Visit) :
    (v.load env l).diagnostics = l.diagnostics ++ reports env l.seen v := by
  rw [load_eq]

/-! ## Names -/

/-- The names that have been seen are those of the skills, and no two skills share one. -/
structure Named (l : Loaded) : Prop where
  distinct : (l.skills.map Skill.name).Nodup
  seen : ∀ name, name ∈ l.seen ↔ name ∈ l.skills.map Skill.name

theorem adds_unseen {env : ScanEnv} {seen : List String} {v : Visit} {skill : Skill}
    (h : adds env seen v = some skill) : v.judge env = .ok skill ∧ skill.name ∉ seen := by
  rw [adds] at h
  split at h
  · cases h
  · next hjudge =>
    split at h
    · cases h
    · next hseen =>
      obtain rfl := Option.some.inj h
      exact ⟨hjudge, hseen⟩

theorem named_empty : Named ⟨[], [], []⟩ :=
  ⟨List.nodup_nil, fun _ => Iff.rfl⟩

theorem Named.load {env : ScanEnv} {l : Loaded} (h : Named l) (v : Visit) :
    Named (v.load env l) := by
  rw [load_eq]
  cases hadds : adds env l.seen v with
  | none => exact ⟨by simpa using h.distinct, by simpa using h.seen⟩
  | some skill =>
      have hnew := (adds_unseen hadds).2
      rw [h.seen] at hnew
      refine ⟨?_, ?_⟩
      · show ((l.skills ++ [skill]).map Skill.name).Nodup
        rw [List.map_append, List.nodup_append]
        refine ⟨h.distinct, List.nodup_singleton _, ?_⟩
        intro a ha b hb
        rw [List.map_singleton, List.mem_singleton] at hb
        rw [hb]
        intro heq
        exact hnew (heq ▸ ha)
      · intro name
        show name ∈ skill.name :: l.seen ↔ name ∈ (l.skills ++ [skill]).map Skill.name
        rw [List.mem_cons, h.seen, List.map_append, List.mem_append, List.map_singleton,
          List.mem_singleton]
        exact or_comm

theorem Named.foldl {env : ScanEnv} {l : Loaded} (h : Named l) (vs : List Visit) :
    Named (vs.foldl (Visit.load env) l) := by
  induction vs generalizing l with
  | nil => exact h
  | cons v vs ih => exact ih (h.load v)

theorem Named.scanFrom {env : ScanEnv} {l : Loaded} (h : Named l) (dirs : List Root) :
    Named (scanFrom env l dirs) := by
  rw [scanFrom_eq]
  exact h.foldl _

/-- What is loaded stays loaded, in front of what comes later. -/
theorem skills_foldl (env : ScanEnv) (l : Loaded) (vs : List Visit) :
    ∃ more, (vs.foldl (Visit.load env) l).skills = l.skills ++ more := by
  induction vs generalizing l with
  | nil => exact ⟨[], (List.append_nil _).symm⟩
  | cons v vs ih =>
      obtain ⟨more, hmore⟩ := ih (v.load env l)
      refine ⟨(adds env l.seen v).toList ++ more, ?_⟩
      rw [List.foldl_cons, hmore, skills_load, List.append_assoc]

theorem diagnostics_foldl (env : ScanEnv) (l : Loaded) (vs : List Visit) :
    ∃ more, (vs.foldl (Visit.load env) l).diagnostics = l.diagnostics ++ more := by
  induction vs generalizing l with
  | nil => exact ⟨[], (List.append_nil _).symm⟩
  | cons v vs ih =>
      obtain ⟨more, hmore⟩ := ih (v.load env l)
      refine ⟨reports env l.seen v ++ more, ?_⟩
      rw [List.foldl_cons, hmore, diagnostics_load, List.append_assoc]

/-- Skills of earlier directories come first, and none that comes after them has the
name of one. -/
theorem earlier_wins {env : ScanEnv} {l : Loaded} (h : Named l) (dirs : List Root) :
    ∃ more, (scanFrom env l dirs).skills = l.skills ++ more ∧
      ∀ skill ∈ more, skill.name ∉ l.skills.map Skill.name := by
  obtain ⟨more, hmore⟩ := skills_foldl env l (dirs.flatMap Root.visits)
  rw [← scanFrom_eq] at hmore
  refine ⟨more, hmore, ?_⟩
  intro skill hskill hmem
  have hnamed : Named (scanFrom env l dirs) := h.scanFrom dirs
  have hdistinct := hnamed.distinct
  rw [hmore, List.map_append, List.nodup_append] at hdistinct
  exact hdistinct.2.2 _ hmem _ (List.mem_map_of_mem hskill) rfl

/-! ## The order of the files -/

/-- Only whether the name of the file has been seen matters. -/
theorem load_congr {env : ScanEnv} {seen seen' : List String} {v : Visit}
    (h : ∀ name, v.name? env = some name → (name ∈ seen ↔ name ∈ seen')) :
    adds env seen v = adds env seen' v ∧ reports env seen v = reports env seen' v := by
  rw [adds, adds, reports, reports]
  cases hjudge : v.judge env with
  | error messages => exact ⟨rfl, rfl⟩
  | ok skill =>
      have hiff := h skill.name (by rw [Visit.name?, hjudge]; rfl)
      simp only [hiff, and_self]

theorem seen_load {env : ScanEnv} (l : Loaded) (v : Visit) (name : String) :
    name ∈ (v.load env l).seen ↔ name ∈ l.seen ∨ v.name? env = some name := by
  rw [load_eq, List.mem_append]
  show name ∈ ((adds env l.seen v).map Skill.name).toList ∨ name ∈ l.seen ↔ _
  rw [adds, Visit.name?]
  cases v.judge env with
  | error messages => simp [Except.toOption]
  | ok skill =>
      by_cases hseen : skill.name ∈ l.seen
      · simp only [hseen, if_true, Except.toOption, Option.map_none, Option.map_some,
          Option.toList_none, List.not_mem_nil, false_or, Option.some.injEq]
        exact ⟨Or.inl, fun h => h.elim id (fun heq => heq ▸ hseen)⟩
      · simp [hseen, Except.toOption, or_comm, eq_comm]

/-- The names that loadable files of `vs` have. -/
def names (env : ScanEnv) (vs : List Visit) : List String := vs.filterMap (Visit.name? env)

theorem seen_foldl (env : ScanEnv) (l : Loaded) (vs : List Visit) (name : String) :
    name ∈ (vs.foldl (Visit.load env) l).seen ↔ name ∈ l.seen ∨ name ∈ names env vs := by
  induction vs generalizing l with
  | nil => simp [names]
  | cons v vs ih =>
      rw [List.foldl_cons, ih, seen_load, or_assoc, names, names, List.mem_filterMap,
        List.mem_filterMap]
      simp

/-- No two of the files have a name in common that has not been seen. -/
def Untied (env : ScanEnv) (seen : List String) (vs : List Visit) : Prop :=
  ((names env vs).filter (fun name => decide (name ∉ seen))).Nodup

theorem Untied.congr {env : ScanEnv} {seen seen' : List String} {vs : List Visit}
    (hseen : ∀ name, name ∈ seen ↔ name ∈ seen') (h : Untied env seen vs) :
    Untied env seen' vs := by
  have hsame : (fun name => decide (name ∉ seen)) = fun name => decide (name ∉ seen') :=
    funext fun name => decide_eq_decide.2 (not_congr (hseen name))
  rw [Untied, ← hsame]
  exact h

/-- Where no two files compete, each is treated as if it was the only one. -/
theorem foldl_untied {env : ScanEnv} {l : Loaded} {vs : List Visit} (h : Untied env l.seen vs) :
    (vs.foldl (Visit.load env) l).skills = l.skills ++ vs.filterMap (adds env l.seen) ∧
      (vs.foldl (Visit.load env) l).diagnostics =
        l.diagnostics ++ vs.flatMap (reports env l.seen) := by
  induction vs generalizing l with
  | nil => simp
  | cons v vs ih =>
      -- A name of the rest is new after `v` exactly if it was new before.
      have hrest : ∀ w ∈ vs, ∀ name, w.name? env = some name →
          (name ∈ (v.load env l).seen ↔ name ∈ l.seen) := by
        intro w hw name hname
        rw [seen_load]
        refine ⟨fun h' => ?_, Or.inl⟩
        by_contra hnew
        have hv := h'.resolve_left hnew
        have hmem : name ∈ (names env vs).filter fun name => decide (name ∉ l.seen) :=
          List.mem_filter.2 ⟨List.mem_filterMap.2 ⟨w, hw, hname⟩, decide_eq_true hnew⟩
        rw [Untied, names, List.filterMap_cons_some hv,
          List.filter_cons_of_pos (by simpa using hnew)] at h
        exact (List.nodup_cons.1 h).1 hmem
      have huntied : Untied env (v.load env l).seen vs := by
        have hsub : (names env vs).Sublist (names env (v :: vs)) :=
          (List.sublist_cons_self v vs).filterMap _
        have hsame : (names env vs).filter (fun name => decide (name ∉ (v.load env l).seen)) =
            (names env vs).filter fun name => decide (name ∉ l.seen) := by
          refine List.filter_congr fun name hname => ?_
          obtain ⟨w, hw, hname⟩ := List.mem_filterMap.1 hname
          exact decide_eq_decide.2 (not_congr (hrest w hw name hname))
        rw [Untied, hsame]
        exact (hsub.filter _).nodup h
      obtain ⟨hskills, hdiagnostics⟩ := ih huntied
      have hcongr := fun w hw => load_congr (hrest w hw)
      rw [List.foldl_cons, hskills, hdiagnostics, skills_load, diagnostics_load,
        List.filterMap_congr fun w hw => (hcongr w hw).1,
        List.flatMap_congr fun w hw => (hcongr w hw).2, List.append_assoc, List.append_assoc,
        List.flatMap_cons]
      refine ⟨?_, rfl⟩
      cases hadds : adds env l.seen v with
      | none => rw [List.filterMap_cons_none hadds]; rfl
      | some skill => rw [List.filterMap_cons_some hadds]; rfl

/-- What two scans agree on when only the order differs. -/
structure Same (l l' : Loaded) : Prop where
  seen : ∀ name, name ∈ l.seen ↔ name ∈ l'.seen
  skills : l.skills.Perm l'.skills
  diagnostics : l.diagnostics.Perm l'.diagnostics

theorem Same.foldl {env : ScanEnv} {l l' : Loaded} (h : Same l l') {vs vs' : List Visit}
    (hvs : vs.Perm vs') (huntied : Untied env l.seen vs) :
    Same (vs.foldl (Visit.load env) l) (vs'.foldl (Visit.load env) l') := by
  have hnames : (names env vs).Perm (names env vs') := hvs.filterMap _
  have huntied' : Untied env l'.seen vs' :=
    ((hnames.filter _).nodup_iff).1 (huntied.congr h.seen)
  obtain ⟨hskills, hdiagnostics⟩ := foldl_untied huntied
  obtain ⟨hskills', hdiagnostics'⟩ := foldl_untied huntied'
  have hcongr := fun v (_ : v ∈ vs') =>
    @load_congr env _ _ v fun name _ => h.seen name
  refine ⟨?_, ?_, ?_⟩
  · intro name
    rw [seen_foldl, seen_foldl, h.seen, hnames.mem_iff]
  · rw [hskills, hskills', ← List.filterMap_congr fun v hv => (hcongr v hv).1]
    exact h.skills.append (hvs.filterMap _)
  · rw [hdiagnostics, hdiagnostics', ← List.flatMap_congr fun v hv => (hcongr v hv).2]
    exact h.diagnostics.append (hvs.flatMap_right _)

/-! ## The order of the entries -/

inductive Item where
  | file (name : String) (content : Except String String)
  | dir (name : String) (entries : Dir)
  | other (name : String)

namespace Item

def name : Item → String
  | file n _ | dir n _ | other n => n

/-- The directory with one more entry, which comes first. -/
def onto (rest : Dir) : Item → Dir
  | file n content => .file n content rest
  | dir n entries => .dir n entries rest
  | other n => .other n rest

def file? : Item → Option (Except String String)
  | file _ content => some content
  | dir _ _ | other _ => none

end Item

/-- The same tree, with the entries of its directories in another order. -/
inductive Reordered : Dir → Dir → Prop
  | refl {d} : Reordered d d
  | onto {d d'} (item : Item) : Reordered d d' → Reordered (item.onto d) (item.onto d')
  | inside {d d' rest} (name : String) : Reordered d d' →
      Reordered (.dir name d rest) (.dir name d' rest)
  | swap {d} {a b : Item} : a.name ≠ b.name → Reordered (a.onto (b.onto d)) (b.onto (a.onto d))
  | trans {d₁ d₂ d₃} : Reordered d₁ d₂ → Reordered d₂ d₃ → Reordered d₁ d₃

theorem file?_onto (item : Item) (d : Dir) (name : String) :
    (item.onto d).file? name = if item.name = name then item.file? else d.file? name := by
  cases item <;> rfl

theorem Reordered.file? {d d' : Dir} (h : Reordered d d') (name : String) :
    d.file? name = d'.file? name := by
  induction h with
  | refl => rfl
  | onto item _ ih => rw [file?_onto, file?_onto, ih]
  | inside n _ _ => rfl
  | swap hne =>
      rw [file?_onto, file?_onto, file?_onto, file?_onto]
      split
      · next ha => rw [if_neg fun hb => hne (ha.trans hb.symm)]
      · rfl
  | trans _ _ ih ih' => exact ih.trans ih'

theorem Reordered.readIgnorePatterns {d d' : Dir} (h : Reordered d d') :
    readIgnorePatterns d = readIgnorePatterns d' := by
  simp only [Skills.readIgnorePatterns, h.file?]

/-- The files an entry contributes. -/
def Item.visits (source : SkillSource) (dir patterns : List String) (item : Item) : List Visit :=
  visitsIn source dir patterns (item.onto .nil)

theorem visitsIn_onto (source : SkillSource) (dir patterns : List String) (item : Item)
    (d : Dir) : visitsIn source dir patterns (item.onto d) =
      item.visits source dir patterns ++ visitsIn source dir patterns d := by
  cases item with
  | other n => rfl
  | file n content =>
      rw [Item.visits, Item.onto, Item.onto, visitsIn, visitsIn, visitsIn, List.append_nil]
  | dir n entries =>
      rw [Item.visits, Item.onto, Item.onto, visitsIn, visitsIn, visitsIn, List.append_nil]

theorem Reordered.visitsIn {d d' : Dir} (h : Reordered d d') (source : SkillSource)
    (dir patterns : List String) :
    (visitsIn source dir patterns d).Perm (visitsIn source dir patterns d') := by
  induction h generalizing dir patterns with
  | refl => exact List.Perm.refl _
  | onto item _ ih =>
      rw [visitsIn_onto, visitsIn_onto]
      exact (ih dir patterns).append_left _
  | inside name hd ih =>
      rw [Skills.visitsIn, Skills.visitsIn]
      refine List.Perm.append_right _ ?_
      split
      · exact List.Perm.refl _
      · rw [hd.file?, hd.readIgnorePatterns]
        split
        · exact List.Perm.refl _
        · exact ih _ _
  | swap _ =>
      rw [visitsIn_onto, visitsIn_onto, visitsIn_onto, visitsIn_onto]
      exact List.perm_append_comm_assoc _ _ _
  | trans _ _ ih ih' => exact (ih dir patterns).trans (ih' dir patterns)

/-- The same directory to scan, enumerated in another order. -/
structure Root.Reordered (root root' : Root) : Prop where
  path : root.path = root'.path
  source : root.source = root'.source
  entries : Skills.Reordered root.entries root'.entries

theorem Root.Reordered.visits {root root' : Root} (h : root.Reordered root') :
    root.visits.Perm root'.visits := by
  rw [Root.visits, Root.visits, visitsOf, visitsOf, h.path, h.source, h.entries.file?,
    h.entries.readIgnorePatterns]
  split
  · exact List.Perm.refl _
  · exact h.entries.visitsIn _ _ _

/-- No directory to scan holds two loadable files of one name, unless one that is scanned
before it holds such a file too. -/
def NoTies (env : ScanEnv) (dirs : List Root) : Prop :=
  ∀ earlier root later, dirs = earlier ++ root :: later →
    Untied env (names env (earlier.flatMap Root.visits)) root.visits

theorem seen_scan (env : ScanEnv) (dirs : List Root) (name : String) :
    name ∈ (scanSkillDirs env dirs).seen ↔ name ∈ names env (dirs.flatMap Root.visits) := by
  rw [scanSkillDirs_eq, seen_foldl]
  exact or_iff_right List.not_mem_nil

theorem scan_append (env : ScanEnv) (earlier : List Root) (root : Root) :
    scanSkillDirs env (earlier ++ [root]) =
      root.visits.foldl (Visit.load env) (scanSkillDirs env earlier) := by
  show scanFrom env _ (earlier ++ [root]) = _
  rw [scanFrom_append, scanFrom_cons]
  rfl

/-- One more directory after those that agree; induction on the rest of the list. -/
theorem Same.scan {env : ScanEnv} {earlier earlier' dirs dirs' : List Root}
    (hdirs : List.Forall₂ Root.Reordered dirs dirs')
    (h : Same (scanSkillDirs env earlier) (scanSkillDirs env earlier'))
    (hties : NoTies env (earlier ++ dirs)) :
    Same (scanSkillDirs env (earlier ++ dirs)) (scanSkillDirs env (earlier' ++ dirs')) := by
  induction hdirs generalizing earlier earlier' with
  | nil =>
      rw [List.append_nil, List.append_nil]
      exact h
  | @cons root root' dirs dirs' hroot _ ih =>
      have huntied := (hties earlier root dirs rfl).congr
        fun name => (seen_scan env earlier name).symm
      have hnext : Same (scanSkillDirs env (earlier ++ [root]))
          (scanSkillDirs env (earlier' ++ [root'])) := by
        rw [scan_append, scan_append]
        exact h.foldl hroot.visits huntied
      rw [List.append_cons] at hties ⊢
      rw [List.append_cons earlier' root']
      exact ih hnext hties

theorem names_perm {env : ScanEnv} {dirs dirs' : List Root}
    (hdirs : List.Forall₂ Root.Reordered dirs dirs') :
    (names env (dirs.flatMap Root.visits)).Perm (names env (dirs'.flatMap Root.visits)) := by
  refine List.Perm.filterMap _ ?_
  induction hdirs with
  | nil => exact List.Perm.refl _
  | cons hroot _ ih => exact hroot.visits.append ih

/-- Which of two files of one name is loaded may depend on the order, that one is loaded
does not. -/
theorem skillNames_perm {env : ScanEnv} {dirs dirs' : List Root}
    (hdirs : List.Forall₂ Root.Reordered dirs dirs') :
    ((scanSkillDirs env dirs).skills.map Skill.name).Perm
      ((scanSkillDirs env dirs').skills.map Skill.name) := by
  have hnamed : Named (scanSkillDirs env dirs) := named_empty.scanFrom dirs
  have hnamed' : Named (scanSkillDirs env dirs') := named_empty.scanFrom dirs'
  refine (List.perm_ext_iff_of_nodup hnamed.distinct hnamed'.distinct).2 fun name => ?_
  rw [← hnamed.seen, ← hnamed'.seen]
  exact (seen_scan env dirs name).trans
    ((names_perm hdirs).mem_iff.trans (seen_scan env dirs' name).symm)

/-! ## Files that are accounted for -/

/-- The file is loaded as the skill it makes, or there is a diagnostic of it. -/
def Accounted (env : ScanEnv) (l : Loaded) (v : Visit) : Prop :=
  (∃ skill ∈ l.skills, v.judge env = .ok skill ∧
      skill.filePath = (env.canonicalize v.path).getD v.path) ∨
    ∃ d ∈ l.diagnostics, d.path = v.path

theorem filePath_of_judge {env : ScanEnv} {v : Visit} {skill : Skill}
    (h : v.judge env = .ok skill) :
    skill.filePath = (env.canonicalize v.path).getD v.path := by
  simp only [Visit.judge, Skills.judge] at h
  repeat' split at h
  all_goals cases h
  rfl

theorem messages_of_judge {env : ScanEnv} {v : Visit} {messages : List String}
    (h : v.judge env = .error messages) : messages ≠ [] := by
  simp only [Visit.judge, Skills.judge] at h
  repeat' split at h
  all_goals cases h
  iterate 5 exact List.cons_ne_nil _ _
  -- The last of them is what the name is refused for.
  next hne => exact hne

theorem accounted_load (env : ScanEnv) (l : Loaded) (v : Visit) :
    Accounted env (v.load env l) v := by
  rw [Accounted, skills_load, diagnostics_load, adds, reports]
  cases hjudge : v.judge env with
  | error messages =>
      obtain ⟨m, hm⟩ := List.exists_mem_of_ne_nil _ (messages_of_judge hjudge)
      refine Or.inr ⟨⟨v.path, .warning, m⟩, ?_, rfl⟩
      exact List.mem_append_right _ (List.mem_map_of_mem hm)
  | ok skill =>
      by_cases hseen : skill.name ∈ l.seen
      · refine Or.inr ⟨collision v skill.name, ?_, rfl⟩
        simp [hseen]
      · refine Or.inl ⟨skill, ?_, rfl, filePath_of_judge hjudge⟩
        simp [hseen]

theorem Accounted.foldl {env : ScanEnv} {l : Loaded} {v : Visit} (h : Accounted env l v)
    (vs : List Visit) : Accounted env (vs.foldl (Visit.load env) l) v := by
  obtain ⟨skills, hskills⟩ := skills_foldl env l vs
  obtain ⟨diagnostics, hdiagnostics⟩ := diagnostics_foldl env l vs
  rw [Accounted, hskills, hdiagnostics]
  rcases h with ⟨skill, hskill, hfile⟩ | ⟨d, hd, hpath⟩
  · exact Or.inl ⟨skill, List.mem_append_left _ hskill, hfile⟩
  · exact Or.inr ⟨d, List.mem_append_left _ hd, hpath⟩

theorem accounted_of_visit {env : ScanEnv} {dirs : List Root} {v : Visit}
    (h : v ∈ dirs.flatMap Root.visits) : Accounted env (scanSkillDirs env dirs) v := by
  obtain ⟨before, after, heq⟩ := List.append_of_mem h
  rw [scanSkillDirs_eq, heq, List.foldl_append, List.foldl_cons]
  exact (accounted_load env _ v).foldl after

/-! ## Files to look for -/

def Dir.HasFile (name : String) (content : Except String String) : Dir → Prop
  | .nil => False
  | .file n c rest => (n = name ∧ c = content) ∨ rest.HasFile name content
  | .dir _ _ rest | .other _ rest => rest.HasFile name content

def Dir.HasDir : Dir → String → Dir → Prop
  | .nil, _, _ => False
  | .dir n e rest, name, entries => (n = name ∧ e = entries) ∨ rest.HasDir name entries
  | .file _ _ rest, name, entries | .other _ rest, name, entries => rest.HasDir name entries

/-- The Markdown files below a directory, outside those that have a `SKILL.md` of their own,
and the `SKILL.md` files. With each comes what an ignore file could match on the way to it:
the name of an entry and the lines of the ignore file beside it. -/
inductive Candidate (source : SkillSource) :
    List String → Dir → List (List String × String) → Visit → Prop
  | own {dir d content} : d.file? "SKILL.md" = some content →
      Candidate source dir d [] ⟨source, dir, "SKILL.md", content⟩
  | file {dir d name content} : d.file? "SKILL.md" = none → d.HasFile name content →
      ".md".toList.isSuffixOf name.toList = true →
      Candidate source dir d [(readIgnorePatterns d, name)] ⟨source, dir, name, content⟩
  | sub {dir d name entries steps v} : d.file? "SKILL.md" = none → d.HasDir name entries →
      Candidate source (dir ++ [name]) entries steps v →
      Candidate source dir d ((readIgnorePatterns d, name) :: steps) v

theorem visit_of_hasFile {source : SkillSource} {dir patterns : List String} {d : Dir}
    {name : String} {content : Except String String} (h : d.HasFile name content)
    (hmd : ".md".toList.isSuffixOf name.toList = true) (hskip : isSkipped patterns name = false) :
    ⟨source, dir, name, content⟩ ∈ visitsIn source dir patterns d := by
  induction d with
  | nil => exact h.elim
  | file n c rest ih =>
      rw [visitsIn, List.mem_append]
      rcases h with ⟨rfl, rfl⟩ | h
      · left
        rw [hskip, hmd]
        exact List.mem_singleton_self _
      · exact Or.inr (ih h)
  | dir n e rest _ ih =>
      rw [visitsIn, List.mem_append]
      exact Or.inr (ih h)
  | other n rest ih => exact ih h

theorem visit_of_hasDir {source : SkillSource} {dir patterns : List String} {d : Dir}
    {name : String} {entries : Dir} (h : d.HasDir name entries)
    (hskip : isSkipped patterns name = false) {v : Visit}
    (hv : v ∈ visitsOf source (dir ++ [name]) entries) : v ∈ visitsIn source dir patterns d := by
  induction d with
  | nil => exact h.elim
  | dir n e rest _ ih =>
      rw [visitsIn, List.mem_append]
      rcases h with ⟨rfl, rfl⟩ | h
      · left
        rw [hskip]
        exact hv
      · exact Or.inr (ih h)
  | file n c rest ih =>
      rw [visitsIn, List.mem_append]
      exact Or.inr (ih h)
  | other n rest ih => exact ih h

/-- A file to look for is come to, unless an entry on the way to it is skipped. -/
theorem Candidate.visited {source : SkillSource} {dir : List String} {d : Dir}
    {steps : List (List String × String)} {v : Visit} (h : Candidate source dir d steps v)
    (hsteps : ∀ step ∈ steps, isSkipped step.1 step.2 = false) : v ∈ visitsOf source dir d := by
  induction h with
  | own hown =>
      rw [visitsOf, hown]
      exact List.mem_singleton_self _
  | file hown hfile hmd =>
      rw [List.forall_mem_singleton] at hsteps
      rw [visitsOf, hown]
      exact visit_of_hasFile hfile hmd hsteps
  | sub hown hdir _ ih =>
      rw [List.forall_mem_cons] at hsteps
      rw [visitsOf, hown]
      exact visit_of_hasDir hdir hsteps.1 (ih hsteps.2)

/-- The entry cannot be scanned: it is hidden, or a pattern of the three forms covers it. The
form `name/` covers every name that begins with `name`, of a file too. -/
def Excluded (patterns : List String) (name : String) : Prop :=
  name.toList.head? = some '.' ∨ ∃ pat ∈ patterns.map fun pat => trim pat.toList,
    pat ≠ [] ∧ pat.head? ≠ some '#' ∧
      (pat.getLast? = some '/' ∧ (pat.reverse.dropWhile (· = '/')).reverse <+: name.toList ∨
        pat = name.toList ∨ ∃ ext, pat = '*' :: '.' :: ext ∧ '.' :: ext <:+ name.toList)

/-- A pattern `*.ext` beside a name that ends in `ext`, whatever is before that. -/
def Suffixed (patterns : List String) (name : String) : Prop :=
  ∃ pat ∈ patterns.map fun pat => trim pat.toList, ∃ ext,
    pat = '*' :: '.' :: ext ∧ ext <:+ name.toList

theorem excluded_or_suffixed {patterns : List String} {name : String}
    (h : isSkipped patterns name = true) : Excluded patterns name ∨ Suffixed patterns name := by
  rw [isSkipped, Bool.or_eq_true, decide_eq_true_eq, isIgnored, List.any_eq_true] at h
  rcases h with hidden | ⟨pat, hpat, hmatch⟩
  · exact Or.inl (Or.inl hidden)
  have hmem : trim pat.toList ∈ patterns.map fun pat => trim pat.toList := List.mem_map_of_mem hpat
  simp only [] at hmatch
  generalize trim pat.toList = p at hmem hmatch
  split at hmatch
  · exact absurd hmatch Bool.false_ne_true
  · next hactive =>
    rw [Bool.or_eq_true, not_or, List.isEmpty_iff, decide_eq_true_eq] at hactive
    rw [Bool.or_eq_true, Bool.or_eq_true, Bool.and_eq_true, Bool.and_eq_true, decide_eq_true_eq,
      decide_eq_true_eq, decide_eq_true_eq, List.isPrefixOf_iff_prefix,
      List.isSuffixOf_iff_suffix] at hmatch
    rcases hmatch with (hfront | hexact) | ⟨hstar, hsuffix⟩
    · exact Or.inl (Or.inr ⟨p, hmem, hactive.1, hactive.2, Or.inl hfront⟩)
    · exact Or.inl (Or.inr ⟨p, hmem, hactive.1, hactive.2, Or.inr (Or.inl hexact)⟩)
    · refine Or.inr ⟨p, hmem, p.drop 2, ?_, hsuffix⟩
      rw [← List.take_append_drop 2 p, hstar]
      rfl

/-- What holds of a scan. -/
structure Lawful (env : ScanEnv) (dirs : List Root) : Prop where
  distinct : ((scanSkillDirs env dirs).skills.map Skill.name).Nodup
  earlierWins : ∀ earlier later, dirs = earlier ++ later →
    ∃ more, (scanSkillDirs env dirs).skills = (scanSkillDirs env earlier).skills ++ more ∧
      ∀ skill ∈ more, skill.name ∉ (scanSkillDirs env earlier).skills.map Skill.name
  /-- The names do not depend on the order in which directories are enumerated. -/
  names : ∀ dirs', List.Forall₂ Root.Reordered dirs dirs' →
    ((scanSkillDirs env dirs).skills.map Skill.name).Perm
      ((scanSkillDirs env dirs').skills.map Skill.name)
  /-- Nor does anything but the order of the results, where no two files of a directory to
  scan compete for a name. -/
  unordered : NoTies env dirs → ∀ dirs', List.Forall₂ Root.Reordered dirs dirs' →
    (scanSkillDirs env dirs).skills.Perm (scanSkillDirs env dirs').skills ∧
      (scanSkillDirs env dirs).diagnostics.Perm (scanSkillDirs env dirs').diagnostics
  accounted : ∀ root ∈ dirs, ∀ steps v,
    Candidate root.source root.path root.entries steps v →
      Accounted env (scanSkillDirs env dirs) v ∨
        ∃ step ∈ steps, Excluded step.1 step.2 ∨ Suffixed step.1 step.2

theorem scanSkillDirs_lawful (env : ScanEnv) (dirs : List Root) : Lawful env dirs where
  distinct := (named_empty.scanFrom dirs).distinct
  earlierWins := by
    rintro earlier later rfl
    show ∃ more, (scanFrom env _ (earlier ++ later)).skills = _ ∧ _
    rw [scanFrom_append]
    exact earlier_wins (named_empty.scanFrom earlier) later
  names := fun _ hdirs => skillNames_perm hdirs
  unordered := by
    intro hties dirs' hdirs
    have hnone : Same (scanSkillDirs env []) (scanSkillDirs env []) :=
      ⟨fun _ => Iff.rfl, List.Perm.refl _, List.Perm.refl _⟩
    have hsame := hnone.scan hdirs hties
    exact ⟨hsame.skills, hsame.diagnostics⟩
  accounted := by
    intro root hroot steps v hv
    by_cases hsteps : ∀ step ∈ steps, isSkipped step.1 step.2 = false
    · left
      exact accounted_of_visit (List.mem_flatMap.2 ⟨root, hroot, hv.visited hsteps⟩)
    · right
      push Not at hsteps
      obtain ⟨step, hstep, hskip⟩ := hsteps
      exact ⟨step, hstep, excluded_or_suffixed (by simpa using hskip)⟩

/-! ## A file that is missed, and two that compete -/

/-- A pattern read as it is written: a directory, names of one ending, or one name. -/
def Covers (pat name : List Char) : Prop :=
  pat = name ++ ['/'] ∨ pat = name ∨ ∃ ext, pat = '*' :: '.' :: ext ∧ '.' :: ext <:+ name

def sampleEnv : ScanEnv where
  -- `description: ` and nothing else in the frontmatter
  yaml := fun s => .ok ⟨none, String.ofList (s.toList.drop 13), false⟩
  canonicalize := some

def notes : Root where
  path := ["/", "skills", "plan"]
  source := .user
  entries := .file ".gitignore" (.ok "notes/\n")
    (.file "notes.md" (.ok "---\ndescription: plan\n---\n") .nil)

def one (rest : Dir) : Dir := .file "one.md" (.ok "---\ndescription: one\n---\n") rest

def two (rest : Dir) : Dir := .file "two.md" (.ok "---\ndescription: two\n---\n") rest

/-- `notes/` hides the file `notes.md` without a word, and which of two files without a name
of their own is the skill of their directory depends on the order. -/
theorem notes_missed :
    (scanSkillDirs sampleEnv [notes] = ⟨[], [], []⟩ ∧
        Candidate notes.source notes.path notes.entries [(["notes/"], "notes.md")]
          ⟨.user, notes.path, "notes.md", .ok "---\ndescription: plan\n---\n"⟩ ∧
        ¬ Covers "notes/".toList "notes.md".toList) ∧
      Reordered (one (two .nil)) (two (one .nil)) ∧
      ¬ (scanSkillDirs sampleEnv [⟨["/", "plan"], .user, one (two .nil)⟩]).skills.Perm
        (scanSkillDirs sampleEnv [⟨["/", "plan"], .user, two (one .nil)⟩]).skills := by
  refine ⟨⟨by decide +kernel, ?_, ?_⟩, ?_, by decide +kernel⟩
  · have hpatterns : readIgnorePatterns notes.entries = ["notes/"] := by decide +kernel
    rw [← hpatterns]
    exact Candidate.file rfl (Or.inr (Or.inl ⟨rfl, rfl⟩)) (by decide)
  · rintro (h | h | ⟨ext, h, -⟩)
    · exact absurd h (by decide)
    · exact absurd h (by decide)
    · exact absurd (List.cons.inj h).1 (by decide)
  · exact @Reordered.swap .nil (.file "one.md" _) (.file "two.md" _) (by decide)

end Pandaria.Agent.Skills
