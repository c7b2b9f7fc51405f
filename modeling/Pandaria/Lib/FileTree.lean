import Mathlib.Data.List.Induction

/-!
# A tree of files with links

A place in the tree is the list of names that lead to it from the root, through
directories only. A path is walked step by step, and where a link is met it is
walked instead, a limited number of times. So a walk finds a place, or stops in a
directory that lacks a name, or at something that is no directory, or gives up.

`Walks` is the graph of `walk`, for inductions: a walk goes on where it has found
a place, or where it has stopped if the name is there, in the tree or in one that
has more.
-/

namespace Pandaria.Lib

variable {ν β : Type _}

/-- One step of a path. -/
inductive PathStep (ν : Type _) where
  | here
  | up
  | down (name : ν)
deriving DecidableEq

/-- A path, from the root or from where one stands. -/
structure Route (ν : Type _) where
  absolute : Bool
  steps : List (PathStep ν)
deriving DecidableEq

inductive Node (ν β : Type _) where
  | dir
  | file (content : β)
  | link (target : Route ν)

def Node.isDir : Node ν β → Bool
  | .dir => true
  | .file _ | .link _ => false

def Node.isLink : Node ν β → Bool
  | .link _ => true
  | .dir | .file _ => false

/-- What is at each place; only in a directory there is something. -/
structure FileTree (ν β : Type _) where
  node : List ν → Option (Node ν β)
  root : node [] = some .dir
  closed : ∀ dir name, node (dir ++ [name]) ≠ none → node dir = some .dir

/-- How a walk ends: where it stops there are steps left, if a name is missing. -/
inductive Located (ν : Type _) where
  | found (place : List ν)
  | missing (dir : List ν) (name : ν) (rest : List (PathStep ν))
  | notDirectory
  | loop
deriving DecidableEq

/-- Where a walk has got to, and the steps that were left. -/
def Located.reached : Located ν → Option (List ν × List (PathStep ν))
  | .found dir => some (dir, [])
  | .missing dir name rest => some (dir, .down name :: rest)
  | .notDirectory | .loop => none

namespace FileTree

def empty [DecidableEq ν] : FileTree ν β where
  node place := if place = [] then some .dir else none
  root := if_pos rfl
  closed dir name h := by simp at h

def isDir (t : FileTree ν β) (place : List ν) : Bool := (t.node place).any Node.isDir

theorem isDir_iff {t : FileTree ν β} {place : List ν} :
    t.isDir place = true ↔ t.node place = some .dir := by
  rw [isDir]
  cases h : t.node place with
  | none => simp
  | some node => cases node <;> simp [Node.isDir]

theorem isDir_eq_false {t : FileTree ν β} {place : List ν} (h : t.node place = none) :
    t.isDir place = false := by
  rw [isDir, h]
  rfl

/-- Below what is not there, nothing is. -/
theorem node_append_eq_none {t : FileTree ν β} {place : List ν} (h : t.node place ≠ some .dir)
    {rest : List ν} (hrest : rest ≠ []) : t.node (place ++ rest) = none := by
  induction rest using List.reverseRecOn with
  | nil => exact absurd rfl hrest
  | append_singleton rest name ih =>
      cases hnode : t.node (place ++ (rest ++ [name])) with
      | none => rfl
      | some node =>
          rw [← List.append_assoc] at hnode
          have hdir := t.closed (place ++ rest) name (by rw [hnode]; simp)
          by_cases hnil : rest = []
          · rw [hnil, List.append_nil] at hdir
            exact absurd hdir h
          · rw [ih hnil] at hdir
            cases hdir

/-- A node in a directory, in the place of one that is no directory. -/
def set [DecidableEq ν] (t : FileTree ν β) (dir : List ν) (name : ν) (node : Node ν β)
    (hdir : t.isDir dir = true) (hleaf : t.isDir (dir ++ [name]) = false) : FileTree ν β where
  node place := if place = dir ++ [name] then some node else t.node place
  root := by
    rw [if_neg (by simp)]
    exact t.root
  closed dir' name' h := by
    have hnot : t.node (dir ++ [name]) ≠ some .dir := by
      rw [Ne, ← isDir_iff, hleaf]
      simp
    by_cases hself : dir' = dir ++ [name]
    · rw [if_neg (by rw [hself]; simp)] at h
      rw [hself, node_append_eq_none hnot (List.cons_ne_nil _ _)] at h
      exact absurd rfl h
    · rw [if_neg hself]
      by_cases hplace : dir' ++ [name'] = dir ++ [name]
      · obtain ⟨rfl, -⟩ := List.append_inj' hplace rfl
        exact isDir_iff.mp hdir
      · rw [if_neg hplace] at h
        exact t.closed dir' name' h

/-- The same, where it can be done. -/
def add [DecidableEq ν] (t : FileTree ν β) (dir : List ν) (name : ν) (node : Node ν β) :
    FileTree ν β :=
  if h : t.isDir dir = true ∧ t.isDir (dir ++ [name]) = false then t.set dir name node h.1 h.2
  else t

theorem node_add [DecidableEq ν] {t : FileTree ν β} {dir : List ν} {name : ν} {node : Node ν β}
    (hdir : t.isDir dir = true) (hleaf : t.isDir (dir ++ [name]) = false) (place : List ν) :
    (t.add dir name node).node place =
      if place = dir ++ [name] then some node else t.node place := by
  rw [add, dif_pos ⟨hdir, hleaf⟩]
  rfl

/-! ## Walks -/

/-- A walk, with what to do at a link. -/
def walkWith (t : FileTree ν β) (follow : List ν → List (PathStep ν) → Located ν) :
    List ν → List (PathStep ν) → Located ν
  | place, [] => .found place
  | place, step :: rest =>
      if t.isDir place then
        match step with
        | .here => t.walkWith follow place rest
        | .up => t.walkWith follow place.dropLast rest
        | .down name =>
            match t.node (place ++ [name]) with
            | none => .missing place name rest
            | some (.link target) =>
                follow (if target.absolute then [] else place) (target.steps ++ rest)
            | some .dir => t.walkWith follow (place ++ [name]) rest
            | some (.file _) => t.walkWith follow (place ++ [name]) rest
      else .notDirectory

/-- A walk that follows so many links. -/
def walk (t : FileTree ν β) : (links : Nat) → List ν → List (PathStep ν) → Located ν
  | 0 => t.walkWith fun _ _ => .loop
  | links + 1 => t.walkWith (t.walk links)

def names (path : List ν) : List (PathStep ν) := path.map .down

theorem names_append (path more : List ν) : names (path ++ more) = names path ++ names more :=
  List.map_append

/-- There is something at the place, and it is no link. -/
def Real (t : FileTree ν β) (place : List ν) : Prop :=
  ∃ node, t.node place = some node ∧ node.isLink = false

/-- The walks, by how they end. -/
inductive Walks (t : FileTree ν β) : Nat → List ν → List (PathStep ν) → Located ν → Prop where
  | done {links place} : Walks t links place [] (.found place)
  | notDirectory {links place step rest} (h : t.isDir place = false) :
      Walks t links place (step :: rest) .notDirectory
  | here {links place rest result} (hdir : t.isDir place = true)
      (h : Walks t links place rest result) : Walks t links place (.here :: rest) result
  | up {links place rest result} (hdir : t.isDir place = true)
      (h : Walks t links place.dropLast rest result) : Walks t links place (.up :: rest) result
  | missing {links place name rest} (hdir : t.isDir place = true)
      (h : t.node (place ++ [name]) = none) :
      Walks t links place (.down name :: rest) (.missing place name rest)
  | down {links place name rest result} (hdir : t.isDir place = true)
      (hreal : t.Real (place ++ [name])) (h : Walks t links (place ++ [name]) rest result) :
      Walks t links place (.down name :: rest) result
  | link {links place name rest result target} (hdir : t.isDir place = true)
      (hlink : t.node (place ++ [name]) = some (.link target))
      (h : Walks t links (if target.absolute then [] else place) (target.steps ++ rest) result) :
      Walks t (links + 1) place (.down name :: rest) result
  | loop {place name rest target} (hdir : t.isDir place = true)
      (hlink : t.node (place ++ [name]) = some (.link target)) :
      Walks t 0 place (.down name :: rest) .loop

variable {t : FileTree ν β} {links : Nat} {place dir : List ν} {name : ν}
  {steps rest : List (PathStep ν)} {result : Located ν}

theorem Real.of_isDir (h : t.isDir place = true) : t.Real place := ⟨_, isDir_iff.mp h, rfl⟩

theorem isDir_of_node (h : t.node (dir ++ [name]) ≠ none) : t.isDir dir = true :=
  isDir_iff.mpr (t.closed dir name h)

theorem isDir_dropLast (h : t.isDir place = true) : t.isDir place.dropLast = true := by
  rcases List.eq_nil_or_concat place with rfl | ⟨dir, name, rfl⟩
  · exact h
  · rw [List.concat_eq_append] at h ⊢
    rw [List.dropLast_concat]
    exact isDir_of_node (by rw [isDir_iff.mp h]; simp)

theorem walks_walkWith {follow : List ν → List (PathStep ν) → Located ν}
    (hfollow : ∀ place name rest target, t.isDir place = true →
      t.node (place ++ [name]) = some (.link target) →
        Walks t links place (.down name :: rest)
          (follow (if target.absolute then [] else place) (target.steps ++ rest)))
    (place : List ν) (steps : List (PathStep ν)) :
    Walks t links place steps (t.walkWith follow place steps) := by
  induction steps generalizing place with
  | nil => exact .done
  | cons step rest ih =>
      unfold walkWith
      split
      · next hdir =>
          cases step with
          | here => exact .here hdir (ih place)
          | up => exact .up hdir (ih _)
          | down name =>
              dsimp only
              split
              · next hnone => exact .missing hdir hnone
              · next target hlink => exact hfollow place name rest target hdir hlink
              · next hnode => exact .down hdir ⟨_, hnode, rfl⟩ (ih _)
              · next content hnode => exact .down hdir ⟨_, hnode, rfl⟩ (ih _)
      · next hdir => exact .notDirectory (eq_false_of_ne_true hdir)

theorem walks_walk (links : Nat) (place : List ν) (steps : List (PathStep ν)) :
    Walks t links place steps (t.walk links place steps) := by
  induction links generalizing place steps with
  | zero => exact walks_walkWith (fun _ _ _ _ hdir hlink => .loop hdir hlink) place steps
  | succ links ih =>
      exact walks_walkWith (fun _ _ _ _ hdir hlink => .link hdir hlink (ih _ _)) place steps

/-- A walk ends in one way. -/
theorem Walks.unique {result' : Located ν} (h : Walks t links place steps result)
    (h' : Walks t links place steps result') : result = result' := by
  induction h with
  | done =>
      cases h'
      rfl
  | notDirectory hdir =>
      cases h' with
      | notDirectory => rfl
      | here hdir' | up hdir' | missing hdir' | down hdir' | link hdir' | loop hdir' =>
          rw [hdir] at hdir'
          cases hdir'
  | here hdir _ ih =>
      cases h' with
      | notDirectory hdir' =>
          rw [hdir] at hdir'
          cases hdir'
      | here _ h' => exact ih h'
  | up hdir _ ih =>
      cases h' with
      | notDirectory hdir' =>
          rw [hdir] at hdir'
          cases hdir'
      | up _ h' => exact ih h'
  | missing hdir hnone =>
      cases h' with
      | notDirectory hdir' =>
          rw [hdir] at hdir'
          cases hdir'
      | missing => rfl
      | down _ hreal =>
          obtain ⟨_, hnode, _⟩ := hreal
          rw [hnone] at hnode
          cases hnode
      | link _ hlink | loop _ hlink =>
          rw [hnone] at hlink
          cases hlink
  | down hdir hreal _ ih =>
      obtain ⟨_, hnode, hnot⟩ := hreal
      cases h' with
      | notDirectory hdir' =>
          rw [hdir] at hdir'
          cases hdir'
      | missing _ hnone =>
          rw [hnode] at hnone
          cases hnone
      | down _ _ h' => exact ih h'
      | link _ hlink | loop _ hlink =>
          rw [hnode] at hlink
          cases hlink
          cases hnot
  | link hdir hlink _ ih =>
      cases h' with
      | notDirectory hdir' =>
          rw [hdir] at hdir'
          cases hdir'
      | missing _ hnone =>
          rw [hlink] at hnone
          cases hnone
      | down _ hreal =>
          obtain ⟨_, hnode, hnot⟩ := hreal
          rw [hlink] at hnode
          cases hnode
          cases hnot
      | link _ hlink' h' =>
          rw [hlink] at hlink'
          cases hlink'
          exact ih h'
  | loop hdir hlink =>
      cases h' with
      | notDirectory hdir' =>
          rw [hdir] at hdir'
          cases hdir'
      | missing _ hnone =>
          rw [hlink] at hnone
          cases hnone
      | down _ hreal =>
          obtain ⟨_, hnode, hnot⟩ := hreal
          rw [hlink] at hnode
          cases hnode
          cases hnot
      | loop => rfl

theorem walk_eq_iff : t.walk links place steps = result ↔ Walks t links place steps result :=
  ⟨fun h => h ▸ walks_walk links place steps, fun h => (walks_walk links place steps).unique h⟩

/-- A step is taken from a directory. -/
theorem Walks.isDir_of_cons {step : PathStep ν}
    (h : Walks t links place (step :: rest) (.found dir)) :
    t.isDir place = true := by
  cases h <;> assumption

/-- What is found is there. -/
theorem Walks.real (h : Walks t links place steps (.found dir)) (hplace : t.Real place) :
    t.Real dir := by
  generalize hresult : Located.found dir = result at h
  induction h with
  | done =>
      cases hresult
      exact hplace
  | here _ _ ih => exact ih hplace hresult
  | up hdir _ ih => exact ih (.of_isDir (isDir_dropLast hdir)) hresult
  | down _ hreal _ ih => exact ih hreal hresult
  | @link links place name rest result target hdir _ _ ih =>
      refine ih ?_ hresult
      split
      · exact .of_isDir (isDir_iff.mpr t.root)
      · exact .of_isDir hdir
  | notDirectory | missing | loop => cases hresult

/-- What is missing is missing in a directory. -/
theorem Walks.lacks (h : Walks t links place steps (.missing dir name rest)) :
    t.isDir dir = true ∧ t.node (dir ++ [name]) = none := by
  generalize hresult : Located.missing dir name rest = result at h
  induction h with
  | here _ _ ih | up _ _ ih | down _ _ _ ih | link _ _ _ ih => exact ih hresult
  | missing hdir hnone =>
      cases hresult
      exact ⟨hdir, hnone⟩
  | done | notDirectory | loop => cases hresult

/-- A place is found by its names. -/
theorem walks_names {path : List ν} (h : t.Real (place ++ path)) :
    Walks t links place (names path) (.found (place ++ path)) := by
  induction path generalizing place with
  | nil =>
      rw [List.append_nil]
      exact .done
  | cons name path ih =>
      have hreal : t.Real (place ++ [name] ++ path) := by
        rw [List.append_assoc]
        exact h
      have hnext : t.Real (place ++ [name]) := by
        by_cases hdir : t.node (place ++ [name]) = some .dir
        · exact ⟨_, hdir, rfl⟩
        · by_cases hnil : path = []
          · rw [hnil, List.append_nil] at hreal
            exact hreal
          · obtain ⟨node, hnode, -⟩ := hreal
            rw [node_append_eq_none hdir hnil] at hnode
            cases hnode
      have hplace : t.isDir place = true := by
        obtain ⟨node, hnode, -⟩ := hnext
        exact isDir_of_node (by rw [hnode]; simp)
      have hrest := ih hreal
      rw [List.append_assoc] at hrest
      exact .down hplace hnext hrest

/-- Where a walk has found a place it goes on from there, in the tree or in one that
has more. -/
structure Extends (t u : FileTree ν β) : Prop where
  node : ∀ place, t.node place ≠ none → u.node place = t.node place

theorem Extends.refl (t : FileTree ν β) : Extends t t := ⟨fun _ _ => rfl⟩

variable {u : FileTree ν β}

theorem Extends.isDir (h : Extends t u) (hdir : t.isDir place = true) : u.isDir place = true := by
  rw [isDir_iff] at hdir ⊢
  rw [h.node place (by rw [hdir]; simp)]
  exact hdir

theorem Extends.real (h : Extends t u) (hreal : t.Real place) : u.Real place := by
  obtain ⟨node, hnode, hlink⟩ := hreal
  exact ⟨node, by rw [h.node place (by rw [hnode]; simp)]; exact hnode, hlink⟩

/-- From where it has got to, a walk goes on with the steps that were left. -/
theorem Walks.append (hu : Extends t u) (h : Walks t links place steps result)
    (hreached : result.reached = some (dir, rest)) :
    ∃ m ≤ links, ∀ more result, Walks u m dir (rest ++ more) result →
      Walks u links place (steps ++ more) result := by
  induction h with
  | done | missing =>
      cases hreached
      exact ⟨_, Nat.le_refl _, fun more result h => h⟩
  | here hdir _ ih =>
      obtain ⟨m, hm, hmore⟩ := ih hreached
      exact ⟨m, hm, fun more result h => .here (hu.isDir hdir) (hmore more result h)⟩
  | up hdir _ ih =>
      obtain ⟨m, hm, hmore⟩ := ih hreached
      exact ⟨m, hm, fun more result h => .up (hu.isDir hdir) (hmore more result h)⟩
  | down hdir hreal _ ih =>
      obtain ⟨m, hm, hmore⟩ := ih hreached
      exact ⟨m, hm, fun more result h =>
        .down (hu.isDir hdir) (hu.real hreal) (hmore more result h)⟩
  | link hdir hlink _ ih =>
      obtain ⟨m, hm, hmore⟩ := ih hreached
      refine ⟨m, Nat.le_succ_of_le hm, fun more result h => ?_⟩
      have hnext := hmore more result h
      rw [List.append_assoc] at hnext
      exact .link (hu.isDir hdir) (by rw [hu.node _ (by rw [hlink]; simp)]; exact hlink) hnext
  | notDirectory | loop => cases hreached

theorem Walks.found_append (hu : Extends t u) (h : Walks t links place steps (.found dir)) :
    ∃ m ≤ links, ∀ more result, Walks u m dir more result → Walks u links place (steps ++ more)
      result :=
  h.append hu rfl

/-- And where it has stopped it goes on if the name is there. -/
theorem Walks.missing_append (hu : Extends t u)
    (h : Walks t links place steps (.missing dir name rest)) :
    ∃ m ≤ links, ∀ more result, Walks u m dir (.down name :: (rest ++ more)) result →
      Walks u links place (steps ++ more) result :=
  h.append hu rfl

/-- A walk that fails fails with whatever comes after it. -/
theorem Walks.failed_append (h : Walks t links place steps result)
    (hfailed : result = .notDirectory ∨ result = .loop) (more : List (PathStep ν)) :
    Walks t links place (steps ++ more) result := by
  induction h with
  | done | missing => rcases hfailed with h | h <;> cases h
  | notDirectory hdir => exact .notDirectory hdir
  | here hdir _ ih => exact .here hdir (ih hfailed)
  | up hdir _ ih => exact .up hdir (ih hfailed)
  | down hdir hreal _ ih => exact .down hdir hreal (ih hfailed)
  | link hdir hlink _ ih =>
      have hnext := ih hfailed
      rw [List.append_assoc] at hnext
      exact .link hdir hlink hnext
  | loop hdir hlink => exact .loop hdir hlink

end FileTree

end Pandaria.Lib

/-!
## Calls on a tree of files

Making a directory, making one with all that are above it, and writing a file, on
paths of names from the root. A directory is never made through a link at the end
of its path; a file is written through one, also where nothing is yet.
-/

namespace Pandaria.Lib

variable {ν β : Type _}

inductive FileError where
  | notFound
  | alreadyExists
  | notADirectory
  | isADirectory
  | filesystemLoop
deriving DecidableEq

namespace FileTree

variable (links : Nat)

def locate (t : FileTree ν β) (path : List ν) : Located ν := t.walk links [] (names path)

/-- There is a directory, be it through links. -/
def isDirAt (t : FileTree ν β) (path : List ν) : Bool :=
  match t.locate links path with
  | .found place => t.isDir place
  | .missing .. | .notDirectory | .loop => false

section calls

variable [DecidableEq ν]

def mkdir (t : FileTree ν β) (path : List ν) (name : ν) : Except FileError (FileTree ν β) :=
  match t.locate links path with
  | .found dir =>
      if t.isDir dir then
        if (t.node (dir ++ [name])).isSome then .error .alreadyExists
        else .ok (t.add dir name .dir)
      else .error .notADirectory
  | .missing .. => .error .notFound
  | .notDirectory => .error .notADirectory
  | .loop => .error .filesystemLoop

/-- The path is given from its end. What has been made stays, whatever comes after. -/
def createDirs (t : FileTree ν β) : List ν → FileTree ν β × Except FileError Unit
  | [] => (t, .ok ())
  | name :: above =>
      let settle := fun (u : FileTree ν β) (e : FileError) =>
        (u, if u.isDirAt links (above.reverse ++ [name]) then Except.ok () else Except.error e)
      match t.mkdir links above.reverse name with
      | .ok u => (u, .ok ())
      | .error .notFound =>
          match t.createDirs above with
          | (u, .error e) => (u, .error e)
          | (u, .ok ()) =>
              match u.mkdir links above.reverse name with
              | .ok v => (v, .ok ())
              | .error e => settle u e
      | .error e => settle t e

def createDirAll (t : FileTree ν β) (path : List ν) : FileTree ν β × Except FileError Unit :=
  t.createDirs links path.reverse

/-- A file that is there is written over. -/
def writeFile (t : FileTree ν β) (path : List ν) (content : β) :
    Except FileError (FileTree ν β) :=
  match t.locate links path with
  | .found place =>
      match place.getLast? with
      | some name =>
          if t.isDir place then .error .isADirectory
          else .ok (t.add place.dropLast name (.file content))
      | none => .error .isADirectory
  | .missing dir name [] => .ok (t.add dir name (.file content))
  | .missing _ _ (_ :: _) => .error .notFound
  | .notDirectory => .error .notADirectory
  | .loop => .error .filesystemLoop

end calls

variable {links} {t u : FileTree ν β} {path dir place : List ν} {name : ν}
  {rest : List (PathStep ν)}

/-! ### Where a path lacks a name -/

/-- A directory, be it through links, in which the next name of the path is not. -/
def Lacks (links : Nat) (t : FileTree ν β) (path dir : List ν) (name : ν) : Prop :=
  ∃ above, above ++ [name] <+: path ∧ t.locate links above = .found dir ∧ t.isDir dir = true ∧
    t.node (dir ++ [name]) = none

/-- A path that goes on where it has found a place. -/
theorem locate_append (hu : Extends t u) (h : t.locate links path = .found dir) :
    ∃ m ≤ links, ∀ more result, Walks u m dir (names more) result →
      u.locate links (path ++ more) = result := by
  obtain ⟨m, hm, hmore⟩ := (walk_eq_iff.mp h).found_append hu
  refine ⟨m, hm, fun more result hwalk => walk_eq_iff.mpr ?_⟩
  rw [names_append]
  exact hmore _ result hwalk

theorem locate_append_missing (h : t.locate links path = .missing dir name rest) (more : List ν) :
    t.locate links (path ++ more) = .missing dir name (rest ++ names more) := by
  have hwalk := walk_eq_iff.mp h
  obtain ⟨hdir, hnone⟩ := hwalk.lacks
  obtain ⟨m, -, hmore⟩ := hwalk.missing_append (.refl t)
  refine walk_eq_iff.mpr ?_
  rw [names_append]
  exact hmore _ _ (.missing hdir hnone)

theorem Lacks.locate (h : t.Lacks links path dir name) :
    ∃ rest, t.locate links path = .missing dir name rest := by
  obtain ⟨above, ⟨more, rfl⟩, hfound, hdir, hnone⟩ := h
  obtain ⟨m, -, hmore⟩ := locate_append (.refl t) hfound
  rw [List.append_assoc]
  exact ⟨_, hmore ([name] ++ more) _ (.missing hdir hnone)⟩

theorem prefix_concat_iff {above path : List ν} {name' : ν} :
    above ++ [name'] <+: path ++ [name] ↔
      above ++ [name'] <+: path ∨ above = path ∧ name' = name := by
  rw [List.prefix_concat_iff]
  constructor
  · rintro (h | h)
    · obtain ⟨habove, hname⟩ := List.append_inj' h rfl
      injection hname with hname
      exact .inr ⟨habove, hname⟩
    · exact .inl h
  · rintro (h | ⟨rfl, rfl⟩)
    · exact .inr h
    · exact .inl rfl

/-- The path itself, or its last name. -/
theorem lacks_concat {name' : ν} : t.Lacks links (path ++ [name]) dir name' ↔
    t.Lacks links path dir name' ∨ name' = name ∧ t.locate links path = .found dir ∧
      t.isDir dir = true ∧ t.node (dir ++ [name]) = none := by
  constructor
  · rintro ⟨above, hstart, hfound, hdir, hnone⟩
    rcases prefix_concat_iff.mp hstart with hstart | ⟨rfl, rfl⟩
    · exact .inl ⟨above, hstart, hfound, hdir, hnone⟩
    · exact .inr ⟨rfl, hfound, hdir, hnone⟩
  · rintro (⟨above, hstart, hfound, hdir, hnone⟩ | ⟨rfl, hfound, hdir, hnone⟩)
    · exact ⟨above, prefix_concat_iff.mpr (.inl hstart), hfound, hdir, hnone⟩
    · exact ⟨path, List.prefix_refl _, hfound, hdir, hnone⟩

/-! ### What is made -/

/-- A directory has been made, and some below it, and nothing else. -/
structure Made (t u : FileTree ν β) (dir : List ν) (name : ν) : Prop where
  lacked : t.node (dir ++ [name]) = none
  there : u.isDir (dir ++ [name]) = true
  below : ∀ place, u.node place ≠ t.node place →
    dir ++ [name] <+: place ∧ u.node place = some .dir

theorem Made.node_eq_none (h : Made t u dir name) (hplace : dir ++ [name] <+: place) :
    t.node place = none := by
  obtain ⟨rest, rfl⟩ := hplace
  by_cases hrest : rest = []
  · rw [hrest, List.append_nil]
    exact h.lacked
  · exact node_append_eq_none (by rw [h.lacked]; simp) hrest

theorem Made.extends (h : Made t u dir name) : Extends t u where
  node place hplace := by
    by_contra hne
    exact hplace (h.node_eq_none (h.below place hne).1)

theorem isDirAt_iff : t.isDirAt links path = true ↔
    ∃ place, t.locate links path = .found place ∧ t.isDir place = true := by
  rw [isDirAt]
  cases t.locate links path <;> simp

/-- What `createDirs` has done. -/
def Created (links : Nat) (t : FileTree ν β) (path : List ν)
    (out : FileTree ν β × Except FileError Unit) : Prop :=
  (out.1 = t ∧ (∀ dir name, ¬ t.Lacks links path dir name) ∧
      (out.2 = .ok () ↔ t.isDirAt links path = true)) ∨
    ∃ dir name, t.Lacks links path dir name ∧ Made t out.1 dir name ∧
      (out.2 = .ok () → ∃ place, out.1.locate links path = .found place ∧
        out.1.isDir place = true ∧ dir ++ [name] <+: place)

/-- Nothing is made. -/
theorem created_settle (hnot : ∀ dir name, ¬ t.Lacks links path dir name) (e : FileError) :
    Created links t path (t, if t.isDirAt links path then .ok () else .error e) := by
  refine .inl ⟨rfl, hnot, ?_⟩
  dsimp only
  split <;> simp_all

section made

variable [DecidableEq ν]

theorem made_add (hdir : t.isDir dir = true) (hnone : t.node (dir ++ [name]) = none) :
    Made t (t.add dir name .dir) dir name := by
  have hnode (place : List ν) : (t.add dir name .dir).node place =
      if place = dir ++ [name] then some .dir else t.node place :=
    node_add hdir (isDir_eq_false hnone) place
  refine ⟨hnone, ?_, fun place hne => ?_⟩
  · rw [isDir_iff, hnode, if_pos rfl]
  · rw [hnode] at hne ⊢
    split at hne
    · next heq =>
        rw [if_pos heq, heq]
        exact ⟨List.prefix_refl _, rfl⟩
    · exact absurd rfl hne

/-- Another one below what has been made. -/
theorem Made.add (h : Made t u dir name) {place : List ν} {name' : ν}
    (hplace : dir ++ [name] <+: place) (hdir : u.isDir place = true)
    (hnone : u.node (place ++ [name']) = none) : Made t (u.add place name' .dir) dir name := by
  have hnode (place' : List ν) : (u.add place name' .dir).node place' =
      if place' = place ++ [name'] then some .dir else u.node place' :=
    node_add hdir (isDir_eq_false hnone) place'
  refine ⟨h.lacked, ?_, fun place' hne => ?_⟩
  · rw [isDir_iff, hnode]
    split
    · rfl
    · exact isDir_iff.mp h.there
  · rw [hnode] at hne ⊢
    split at hne
    · next heq =>
        rw [if_pos heq, heq]
        exact ⟨hplace.trans (List.prefix_append _ _), rfl⟩
    · next hne' =>
        rw [if_neg hne']
        exact h.below place' hne

/-! ### The calls -/

/-- How the making of a directory can go. -/
theorem mkdir_cases (links : Nat) (t : FileTree ν β) (path : List ν) (name : ν) :
    (∃ dir, t.locate links path = .found dir ∧ t.isDir dir = true ∧
      t.node (dir ++ [name]) = none ∧ t.mkdir links path name = .ok (t.add dir name .dir)) ∨
    (∃ dir, t.locate links path = .found dir ∧ t.isDir dir = true ∧
      t.node (dir ++ [name]) ≠ none ∧ t.mkdir links path name = .error .alreadyExists) ∨
    (∃ dir name' rest, t.locate links path = .missing dir name' rest ∧
      t.mkdir links path name = .error .notFound) ∨
    ((∀ dir, t.locate links path = .found dir → t.isDir dir = false) ∧
      (∀ dir name' rest, t.locate links path ≠ .missing dir name' rest) ∧
      ∃ e, e ≠ .notFound ∧ t.mkdir links path name = .error e) := by
  unfold mkdir
  cases hloc : t.locate links path with
  | found dir =>
      cases hdir : t.isDir dir with
      | false =>
          refine .inr (.inr (.inr ⟨fun dir' h => ?_, fun _ _ _ h => (by cases h),
            .notADirectory, by simp, ?_⟩))
          · cases h
            exact hdir
          · simp [hdir]
      | true =>
          cases hnode : t.node (dir ++ [name]) with
          | none => exact .inl ⟨dir, rfl, hdir, hnode, by simp [hdir, hnode]⟩
          | some node =>
              exact .inr (.inl ⟨dir, rfl, hdir, by simp [hnode], by simp [hdir, hnode]⟩)
  | missing dir name' rest => exact .inr (.inr (.inl ⟨dir, name', rest, rfl, rfl⟩))
  | notDirectory =>
      exact .inr (.inr (.inr ⟨fun _ h => (by cases h), fun _ _ _ h => (by cases h),
        .notADirectory, by simp, rfl⟩))
  | loop =>
      exact .inr (.inr (.inr ⟨fun _ h => (by cases h), fun _ _ _ h => (by cases h),
        .filesystemLoop, by simp, rfl⟩))

/-- The directory can be made where it is to be. -/
theorem created_add (hfound : t.locate links path = .found dir) (hdir : t.isDir dir = true)
    (hnone : t.node (dir ++ [name]) = none) :
    Created links t (path ++ [name]) (t.add dir name .dir, .ok ()) := by
  have hmade := made_add hdir hnone
  refine .inr ⟨dir, name, lacks_concat.mpr (.inr ⟨rfl, hfound, hdir, hnone⟩), hmade, fun _ => ?_⟩
  obtain ⟨m, -, hmore⟩ := locate_append hmade.extends hfound
  refine ⟨dir ++ [name], hmore [name] _ ?_, hmade.there, List.prefix_refl _⟩
  exact .down (hmade.extends.isDir hdir) (.of_isDir hmade.there) .done

/-- What is above has been made, and the directory is made in it. -/
theorem created_below {above : List ν} {dir' : List ν} {name' : ν}
    (hlacks : t.Lacks links above dir' name') (hmade : Made t u dir' name')
    (hfound : u.locate links above = .found place) (hdir : u.isDir place = true)
    (hstart : dir' ++ [name'] <+: place) :
    Created links t (above ++ [name])
      (match u.mkdir links above name with
        | .ok v => (v, .ok ())
        | .error e =>
            (u, if u.isDirAt links (above ++ [name]) then .ok () else .error e)) := by
  have hlacks' : t.Lacks links (above ++ [name]) dir' name' := lacks_concat.mpr (.inl hlacks)
  have hbelow : dir' ++ [name'] <+: place ++ [name] := hstart.trans (List.prefix_append _ _)
  rcases mkdir_cases links u above name with ⟨dir, hloc, -, hnone, hmk⟩ |
    ⟨dir, hloc, -, hsome, hmk⟩ | ⟨dir, _, _, hloc, -⟩ | ⟨hnot, -⟩
  · rw [hfound] at hloc
    cases hloc
    have hmade' := hmade.add hstart hdir hnone
    rw [hmk]
    refine .inr ⟨dir', name', hlacks', hmade', fun _ => ?_⟩
    have hnew := made_add hdir hnone
    obtain ⟨m, -, hmore⟩ := locate_append hnew.extends hfound
    refine ⟨place ++ [name], hmore [name] _ ?_, hnew.there, hbelow⟩
    exact .down (hnew.extends.isDir hdir) (.of_isDir hnew.there) .done
  · rw [hfound] at hloc
    cases hloc
    rw [hmk]
    refine .inr ⟨dir', name', hlacks', hmade, fun _ => ?_⟩
    have hnew : u.node (place ++ [name]) = some .dir := by
      refine (hmade.below _ ?_).2
      rw [hmade.node_eq_none hbelow]
      exact hsome
    obtain ⟨m, -, hmore⟩ := locate_append (.refl u) hfound
    refine ⟨place ++ [name], hmore [name] _ ?_, isDir_iff.mpr hnew, hbelow⟩
    exact .down hdir (.of_isDir (isDir_iff.mpr hnew)) .done
  · rw [hfound] at hloc
    cases hloc
  · rw [hnot place hfound] at hdir
    cases hdir

theorem createDirs_spec (links : Nat) (t : FileTree ν β) (path : List ν) :
    Created links t path.reverse (t.createDirs links path) := by
  induction path with
  | nil =>
      have hroot : t.isDirAt links [] = true :=
        isDirAt_iff.mpr ⟨[], walk_eq_iff.mpr .done, isDir_iff.mpr t.root⟩
      refine .inl ⟨rfl, ?_, fun _ => hroot, fun _ => rfl⟩
      rintro dir name ⟨above, hstart, -⟩
      simp at hstart
  | cons name above ih =>
      rw [List.reverse_cons, createDirs]
      rcases mkdir_cases links t above.reverse name with ⟨dir, hloc, hdir, hnone, hmk⟩ |
        ⟨dir, hloc, hdir, hsome, hmk⟩ | ⟨dir, name', rest, hloc, hmk⟩ |
        ⟨hfile, hmissing, e, he, hmk⟩
      · rw [hmk]
        exact created_add hloc hdir hnone
      · rw [hmk]
        refine created_settle (fun dir' name' hlacks => ?_) _
        rcases lacks_concat.mp hlacks with hlacks | ⟨-, hloc', -, hnone⟩
        · obtain ⟨rest, hmissing⟩ := hlacks.locate
          rw [hloc] at hmissing
          cases hmissing
        · rw [hloc] at hloc'
          cases hloc'
          exact hsome hnone
      · rw [hmk]
        dsimp only
        have hconcat := locate_append_missing hloc [name]
        generalize hout : t.createDirs links above = out at ih
        obtain ⟨u, r⟩ := out
        rcases ih with ⟨rfl, hnot, hok⟩ | ⟨dir', name'', hlacks, hmade, hok⟩
        · cases r with
          | ok =>
              obtain ⟨place, hplace, -⟩ := isDirAt_iff.mp (hok.mp rfl)
              rw [hloc] at hplace
              cases hplace
          | error e =>
              refine .inl ⟨rfl, fun dir' name'' hlacks => ?_, fun h => (by cases h), fun h => ?_⟩
              · rcases lacks_concat.mp hlacks with hlacks | ⟨-, hloc', -⟩
                · exact hnot dir' name'' hlacks
                · rw [hloc] at hloc'
                  cases hloc'
              · obtain ⟨place, hplace, -⟩ := isDirAt_iff.mp h
                rw [hconcat] at hplace
                cases hplace
        · cases r with
          | ok =>
              obtain ⟨place, hfound, hdir, hstart⟩ := hok rfl
              exact created_below hlacks hmade hfound hdir hstart
          | error e =>
              exact .inr ⟨dir', name'', lacks_concat.mpr (.inl hlacks), hmade,
                fun h => (by cases h)⟩
      · have hsettle : Created links t (above.reverse ++ [name])
            (t, if t.isDirAt links (above.reverse ++ [name]) then .ok () else .error e) := by
          refine created_settle (fun dir' name' hlacks => ?_) _
          rcases lacks_concat.mp hlacks with hlacks | ⟨-, hloc', hdir, -⟩
          · obtain ⟨rest, hloc'⟩ := hlacks.locate
            exact hmissing _ _ _ hloc'
          · rw [hfile _ hloc'] at hdir
            cases hdir
        rw [hmk]
        cases e with
        | notFound => exact absurd rfl he
        | alreadyExists | notADirectory | isADirectory | filesystemLoop => exact hsettle

/-- Where a directory of the path is not to be found by the next name of the path,
that name is made and what comes below; else nothing is. -/
theorem createDirAll_spec (links : Nat) (t : FileTree ν β) (path : List ν) :
    Created links t path (t.createDirAll links path) := by
  have h := createDirs_spec links t path.reverse
  rwa [List.reverse_reverse] at h

/-- What is written is a file, where there was one or where there was nothing. -/
theorem writeFile_spec {content : β} (h : t.writeFile links path content = .ok u) :
    ∃ place, (t.locate links path = .found place ∧ t.isDir place = false ∨
        ∃ dir name, t.locate links path = .missing dir name [] ∧ place = dir ++ [name]) ∧
      ∀ place', u.node place' = if place' = place then some (.file content) else t.node place' := by
  unfold writeFile at h
  split at h
  · next place hloc =>
      split at h
      · next name hlast =>
          split at h
          · cases h
          · next hdir =>
              have hleaf := eq_false_of_ne_true hdir
              have hplace : place.dropLast ++ [name] = place := by
                obtain ⟨above, rfl⟩ := List.getLast?_eq_some_iff.mp hlast
                rw [List.dropLast_concat]
              have hreal : t.Real place :=
                (walk_eq_iff.mp hloc).real (.of_isDir (isDir_iff.mpr t.root))
              have habove : t.isDir place.dropLast = true := by
                obtain ⟨node, hnode, -⟩ := hreal
                have hsome : t.node (place.dropLast ++ [name]) ≠ none := by
                  rw [hplace, hnode]
                  simp
                exact isDir_of_node hsome
              cases h
              refine ⟨place, .inl ⟨hloc, hleaf⟩, fun place' => ?_⟩
              rw [node_add habove (by rw [hplace]; exact hleaf), hplace]
      · cases h
  · next dir name hloc =>
      obtain ⟨hdir, hnone⟩ := (walk_eq_iff.mp hloc).lacks
      cases h
      exact ⟨dir ++ [name], .inr ⟨dir, name, hloc, rfl⟩, node_add hdir (isDir_eq_false hnone)⟩
  · cases h
  · cases h
  · cases h

theorem writeFile_missing (h : t.locate links path = .missing dir name []) (content : β) :
    ∃ u, t.writeFile links path content = .ok u ∧
      u.node (dir ++ [name]) = some (.file content) := by
  obtain ⟨hdir, hnone⟩ := (walk_eq_iff.mp h).lacks
  refine ⟨t.add dir name (.file content), ?_, ?_⟩
  · rw [writeFile, h]
  · rw [node_add hdir (isDir_eq_false hnone), if_pos rfl]

end made

end FileTree

end Pandaria.Lib
