import Mathlib.Data.List.Basic

/-!
# Paths, lexically

A path is a list of segments and a directory is the list of the names that lead
to it from the root. Empty segments and `.` lead nowhere, `..` leads to the
directory above and every other segment to a directory of that name. Nothing
here looks at a file system.

`resolve_eq` is the rule for a path that starts in a directory: it climbs some
levels, and goes down again by names of its own.
-/

namespace Pandaria.Lib

abbrev Segment := List Char

namespace Path

/-- A segment that is a name. -/
def IsName (seg : Segment) : Prop := seg ≠ [] ∧ seg ≠ ['.'] ∧ seg ≠ ['.', '.']

/-- Where one segment leads. At the root `..` stays there. -/
def walk (dir : List Segment) (seg : Segment) : List Segment :=
  if seg = [] ∨ seg = ['.'] then dir
  else if seg = ['.', '.'] then dir.dropLast
  else dir ++ [seg]

def resolve (dir : List Segment) (segs : List Segment) : List Segment := segs.foldl walk dir

/-- The levels a path has climbed above its start, and the names it has gone
down by since. -/
def climb (s : Nat × List Segment) (seg : Segment) : Nat × List Segment :=
  if seg = ['.', '.'] ∧ s.2 = [] then (s.1 + 1, []) else (s.1, walk s.2 seg)

/-- How many levels above its start a path climbs. -/
def surplus (segs : List Segment) : Nat := (segs.foldl climb (0, [])).1

theorem walk_name {seg : Segment} (h : IsName seg) (dir : List Segment) :
    walk dir seg = dir ++ [seg] := by
  rw [walk, if_neg (not_or.mpr ⟨h.1, h.2.1⟩), if_neg h.2.2]

theorem resolve_names {segs : List Segment} (h : ∀ seg ∈ segs, IsName seg) (dir : List Segment) :
    resolve dir segs = dir ++ segs := by
  induction segs generalizing dir with
  | nil => exact (List.append_nil dir).symm
  | cons seg segs ih =>
      have ih := ih (fun s hs => h s (List.mem_cons_of_mem _ hs)) (walk dir seg)
      rw [resolve, List.foldl_cons, ← resolve, ih, walk_name (h seg List.mem_cons_self),
        List.append_assoc, List.singleton_append]

/-- The directory a path has come to is made of names, if it started in one. -/
theorem isName_resolve {dir segs : List Segment} (h : ∀ seg ∈ dir, IsName seg) :
    ∀ seg ∈ resolve dir segs, IsName seg ∧ (seg ∈ dir ∨ seg ∈ segs) := by
  induction segs generalizing dir with
  | nil => exact fun seg hseg => ⟨h seg hseg, .inl hseg⟩
  | cons next segs ih =>
      have hwalk : ∀ seg ∈ walk dir next, IsName seg ∧ (seg ∈ dir ∨ seg = next) := by
        intro seg hseg
        rw [walk] at hseg
        split at hseg
        next => exact ⟨h seg hseg, .inl hseg⟩
        next hne =>
          split at hseg
          next =>
            have hmem := List.dropLast_subset dir hseg
            exact ⟨h seg hmem, .inl hmem⟩
          next hne' =>
            rcases List.mem_append.mp hseg with hseg | hseg
            · exact ⟨h seg hseg, .inl hseg⟩
            · rw [List.mem_singleton.mp hseg]
              exact ⟨⟨fun e => hne (.inl e), fun e => hne (.inr e), hne'⟩, .inr rfl⟩
      intro seg hseg
      obtain ⟨hname, hfrom⟩ := ih (fun s hs => (hwalk s hs).1) seg hseg
      refine ⟨hname, ?_⟩
      rcases hfrom with hfrom | hfrom
      · rcases (hwalk seg hfrom).2 with hdir | hnext
        · exact .inl hdir
        · exact .inr (hnext ▸ List.mem_cons_self)
      · exact .inr (List.mem_cons_of_mem _ hfrom)

/-- One segment, from a directory that has been climbed out of. -/
theorem walk_climb (dir : List Segment) (s : Nat × List Segment) (seg : Segment) :
    walk (dir.take (dir.length - s.1) ++ s.2) seg =
      dir.take (dir.length - (climb s seg).1) ++ (climb s seg).2 := by
  obtain ⟨ups, names⟩ := s
  by_cases hup : seg = ['.', '.']
  · subst hup
    cases names with
    | nil =>
        show (dir.take (dir.length - ups) ++ []).dropLast = dir.take (dir.length - (ups + 1)) ++ []
        rw [List.append_nil, List.append_nil, List.dropLast_eq_take, List.length_take,
          List.take_take]
        congr 1
        omega
    | cons name names => exact List.dropLast_append_of_ne_nil (List.cons_ne_nil _ _)
  · rw [climb, if_neg fun h => hup h.1]
    simp only [walk, if_neg hup]
    split
    · rfl
    · rw [List.append_assoc]

theorem foldl_climb_snd (segs : List Segment) (s : Nat × List Segment) :
    (segs.foldl climb s).2 = resolve s.2 segs := by
  induction segs generalizing s with
  | nil => rfl
  | cons seg segs ih =>
      have hwalk := walk_climb [] s seg
      simp only [List.take_nil, List.nil_append] at hwalk
      rw [List.foldl_cons, ih, ← hwalk]
      rfl

/-- A path leads some levels up and from there down by names of its own. -/
theorem resolve_eq (dir segs : List Segment) :
    resolve dir segs = dir.take (dir.length - surplus segs) ++ resolve [] segs := by
  have hfold : ∀ (segs : List Segment) (s : Nat × List Segment),
      resolve (dir.take (dir.length - s.1) ++ s.2) segs =
        dir.take (dir.length - (segs.foldl climb s).1) ++ (segs.foldl climb s).2 := by
    intro segs
    induction segs with
    | nil => exact fun _ => rfl
    | cons seg segs ih =>
        intro s
        rw [resolve, List.foldl_cons, walk_climb, ← resolve, ih, List.foldl_cons]
  have h := hfold segs (0, [])
  rw [Nat.sub_zero, List.take_length, List.append_nil, foldl_climb_snd] at h
  exact h

/-- A path that starts in a directory stays in it exactly when its own names
lead back over all the levels it climbs. -/
theorem prefix_resolve (dir segs : List Segment) :
    dir <+: resolve dir segs ↔
      dir.drop (dir.length - surplus segs) <+: resolve [] segs := by
  rw [resolve_eq dir segs]
  have hsplit := List.take_append_drop (dir.length - surplus segs) dir
  constructor
  · intro ⟨rest, hrest⟩
    have hback : dir.take (dir.length - surplus segs) ++
        (dir.drop (dir.length - surplus segs) ++ rest) =
        dir.take (dir.length - surplus segs) ++ resolve [] segs := by
      rw [← List.append_assoc, hsplit, hrest]
    exact ⟨rest, List.append_cancel_left hback⟩
  · intro ⟨rest, hrest⟩
    refine ⟨rest, ?_⟩
    rw [← hrest, ← List.append_assoc, hsplit]

end Path

end Pandaria.Lib
