import Mathlib.Data.List.DropRight
import Pandaria.Agent.Prompt
import Pandaria.Agent.Skills

/-!
# Frontmatter, read by lines and read by patterns

Two readings of one text. By lines, the first one that is not blank is all
dashes, at least three, and the first of the later ones that is `---` closes what
is between. The code looks for the same two places by prefix and substring. The
closing line it finds is the first that begins with three dashes, so both find
the same one exactly when the first line that either would take is one that both
take; and of an opening line it sees only how it begins.
-/

namespace Pandaria.Agent.Skills

open Pandaria.Ai Pandaria.Lib

/-! ## By lines -/

def lines (text : List Char) : List (List Char) := text.splitOn '\n'

def unlines (ls : List (List Char)) : List Char := ['\n'].intercalate ls

def isBlank (line : List Char) : Bool := line.all isWhitespace

def isOpening (line : List Char) : Bool :=
  3 ≤ (trim line).length && (trim line).all (· = '-')

def isClosing (line : List Char) : Bool := trim line = dashes

/-- The first line of the kind, with those before it and those behind it. -/
def upTo (kind : List Char → Bool) (ls : List (List Char)) :
    Option (List (List Char) × List Char × List (List Char)) :=
  match ls.dropWhile fun l => !kind l with
  | [] => none
  | l :: after => some (ls.takeWhile (fun l => !kind l), l, after)

/-- What stands before the closing line and behind it. -/
def closedBy (ls : List (List Char)) : Option (List Char × List Char) :=
  (upTo isClosing ls).map fun (between, _, after) =>
    (trim (unlines between), trimStart (unlines after))

/-- The frontmatter of the text and what comes after it. -/
def frontmatter (text : List Char) : Option (List Char × List Char) :=
  match (lines text).dropWhile isBlank with
  | [] => none
  | opening :: later => if isOpening opening then closedBy later else none

/-! ## Lines -/

theorem lines_nil : lines [] = [[]] := List.splitOn_nil _

theorem lines_newline (s : List Char) : lines ('\n' :: s) = [] :: lines s := by
  rw [lines, List.splitOn_cons_eq_if_modifyHead, if_pos (BEq.refl _)]
  rfl

theorem lines_cons {c : Char} (h : c ≠ '\n') (s : List Char) :
    lines (c :: s) = (lines s).modifyHead (c :: ·) := by
  rw [lines, List.splitOn_cons_eq_if_modifyHead, if_neg (by simpa using h)]
  rfl

theorem lines_ne_nil (s : List Char) : lines s ≠ [] := List.splitOn_ne_nil _ _

theorem unlines_lines (s : List Char) : unlines (lines s) = s := List.intercalate_splitOn '\n'

/-- Lines behind another one. -/
def behind (ls : List (List Char)) : List Char := ls.flatMap fun l => '\n' :: l

theorem unlines_cons (l : List Char) (ls : List (List Char)) :
    unlines (l :: ls) = l ++ behind ls := by
  induction ls generalizing l with
  | nil => simp [unlines, behind]
  | cons l' ls ih =>
      have hstep : unlines (l :: l' :: ls) = l ++ '\n' :: unlines (l' :: ls) := by
        simp [unlines, List.intercalate_cons_cons]
      rw [hstep, ih]
      rfl

theorem lines_append {a : List Char} (h : '\n' ∉ a) (s : List Char) :
    lines (a ++ s) = (lines s).modifyHead (a ++ ·) := by
  induction a with
  | nil =>
      cases hs : lines s with
      | nil => exact absurd hs (lines_ne_nil s)
      | cons l ls => rw [List.nil_append, hs]; rfl
  | cons c a ih =>
      rw [List.mem_cons, not_or] at h
      rw [List.cons_append, lines_cons (fun hc => h.1 hc.symm), ih h.2]
      cases hs : lines s with
      | nil => exact absurd hs (lines_ne_nil s)
      | cons l ls => rfl

/-- The first line is what stands before the first newline. -/
theorem head_lines {s l : List Char} {ls : List (List Char)} (h : lines s = l :: ls) :
    l = s.takeWhile (· ≠ '\n') := by
  induction s generalizing l ls with
  | nil =>
      rw [lines_nil] at h
      exact (List.cons.inj h).1.symm
  | cons c s ih =>
      by_cases hc : c = '\n'
      · rw [hc, lines_newline] at h
        rw [hc, List.takeWhile_cons_of_neg (by simp)]
        exact (List.cons.inj h).1.symm
      · rw [lines_cons hc] at h
        cases hs : lines s with
        | nil => exact absurd hs (lines_ne_nil s)
        | cons l' ls' =>
            rw [hs, List.modifyHead_cons] at h
            rw [List.takeWhile_cons_of_pos (by simpa using hc), ← ih hs]
            exact (List.cons.inj h).1.symm

/-! ## Blanks -/

theorem isWhitespace_newline : isWhitespace '\n' = true := by decide

/-- Blanks at the front of a part that is trimmed as a whole. -/
theorem trimStart_append (l s : List Char) : trimStart (trimStart l ++ s) = trimStart (l ++ s) := by
  induction l with
  | nil => rfl
  | cons c l ih =>
      by_cases hc : isWhitespace c = true
      · rw [trimStart, trimStart, List.dropWhile_cons_of_pos hc]
        rw [List.cons_append, trimStart, List.dropWhile_cons_of_pos hc]
        exact ih
      · rw [trimStart, trimStart, List.dropWhile_cons_of_neg hc]
        rfl

theorem trimStart_trimStart (s : List Char) : trimStart (trimStart s) = trimStart s := by
  have h := trimStart_append s []
  rwa [List.append_nil, List.append_nil] at h

theorem trim_eq (s : List Char) : trim s = trimEnd (trimStart s) := rfl

theorem trim_trimStart_append (l s : List Char) : trim (trimStart l ++ s) = trim (l ++ s) := by
  rw [trim_eq, trim_eq, trimStart_append]

theorem trim_trimStart (l : List Char) : trim (trimStart l) = trim l := by
  rw [trim_eq, trim_eq, trimStart_trimStart]

theorem trimStart_blank {l : List Char} (h : isBlank l) (s : List Char) :
    trimStart (l ++ s) = trimStart s := by
  rw [trimStart, List.dropWhile_append_of_pos (List.all_eq_true.mp h)]
  rfl

/-- The characters that are no blanks. -/
def weight (s : List Char) : Nat := s.countP fun c => !isWhitespace c

theorem weight_append (s t : List Char) : weight (s ++ t) = weight s + weight t :=
  List.countP_append

theorem weight_trimStart (s : List Char) : weight (trimStart s) = weight s := by
  induction s with
  | nil => rfl
  | cons c s ih =>
      by_cases hc : isWhitespace c = true
      · rw [trimStart, List.dropWhile_cons_of_pos hc]
        rw [weight, weight, List.countP_cons_of_neg (by simp [hc])]
        exact ih
      · rw [trimStart, List.dropWhile_cons_of_neg hc]

theorem weight_reverse (s : List Char) : weight s.reverse = weight s := List.countP_reverse

theorem weight_trim (s : List Char) : weight (trim s) = weight s := by
  rw [trim_eq, trimEnd, weight_reverse]
  exact (weight_trimStart _).trans ((weight_reverse _).trans (weight_trimStart s))

theorem weight_behind (ls : List (List Char)) : weight (behind ls) = (ls.map weight).sum := by
  induction ls with
  | nil => rfl
  | cons l ls ih =>
      rw [behind, List.flatMap_cons, List.cons_append, weight,
        List.countP_cons_of_neg (by simp [isWhitespace_newline]), List.map_cons, List.sum_cons,
        ← ih]
      exact weight_append l (behind ls)

theorem weight_unlines (ls : List (List Char)) : weight (unlines ls) = (ls.map weight).sum := by
  cases ls with
  | nil => rfl
  | cons l ls =>
      rw [unlines_cons, weight_append, weight_behind]
      rfl

theorem isBlank_of_weight {s : List Char} (h : weight s = 0) : isBlank s := by
  rw [isBlank, List.all_eq_true]
  intro c hc
  have hnone := List.countP_eq_zero.mp h c hc
  simpa using hnone

/-- A line that is not blank makes a text another one, trimmed or not. -/
theorem trim_unlines_ne {before between : List (List Char)} {l : List Char} (h : weight l ≠ 0) :
    trim (unlines before) ≠ trim (unlines (before ++ l :: between)) := by
  intro heq
  have hweight := congrArg weight heq
  rw [weight_trim, weight_trim, weight_unlines, weight_unlines, List.map_append, List.sum_append,
    List.map_cons, List.sum_cons] at hweight
  omega

/-! ## The first line of a kind -/

section UpTo

variable {kind : List Char → Bool}

theorem upTo_cons_of_pos {l : List Char} (h : kind l = true) (ls : List (List Char)) :
    upTo kind (l :: ls) = some ([], l, ls) := by
  rw [upTo, List.dropWhile_cons_of_neg (by simp [h]), List.takeWhile_cons_of_neg (by simp [h])]

theorem upTo_cons_of_neg {l : List Char} (h : kind l = false) (ls : List (List Char)) :
    upTo kind (l :: ls) =
      (upTo kind ls).map fun (between, c, after) => (l :: between, c, after) := by
  rw [upTo, List.dropWhile_cons_of_pos (by simp [h]), List.takeWhile_cons_of_pos (by simp [h]),
    upTo]
  split
  · rfl
  · rfl

theorem upTo_eq_some {ls between after : List (List Char)} {l : List Char}
    (h : upTo kind ls = some (between, l, after)) : ls = between ++ l :: after ∧ kind l = true := by
  induction ls generalizing between with
  | nil => cases h
  | cons l' ls ih =>
      cases hkind : kind l' with
      | true =>
          rw [upTo_cons_of_pos hkind] at h
          cases h
          exact ⟨rfl, hkind⟩
      | false =>
          rw [upTo_cons_of_neg hkind] at h
          obtain ⟨⟨b, c, a⟩, hb, heq⟩ := Option.map_eq_some_iff.mp h
          cases heq
          obtain ⟨rfl, hl⟩ := ih hb
          exact ⟨rfl, hl⟩

theorem upTo_eq_none {ls : List (List Char)} : upTo kind ls = none ↔ ∀ l ∈ ls, kind l = false := by
  induction ls with
  | nil => simp [upTo]
  | cons l ls ih =>
      cases hkind : kind l with
      | true => simp [upTo_cons_of_pos hkind, hkind]
      | false => simp [upTo_cons_of_neg hkind, hkind, ih]

/-- Lines of another kind come before the first of this one. -/
theorem upTo_append {before ls : List (List Char)} (h : ∀ l ∈ before, kind l = false) :
    upTo kind (before ++ ls) =
      (upTo kind ls).map fun (between, c, after) => (before ++ between, c, after) := by
  induction before with
  | nil =>
      cases hup : upTo kind ls with
      | none => rw [List.nil_append, hup]; rfl
      | some found => rw [List.nil_append, hup]; rfl
  | cons l before ih =>
      rw [List.cons_append, upTo_cons_of_neg (h l List.mem_cons_self),
        ih fun l' hl => h l' (List.mem_cons_of_mem _ hl), Option.map_map]
      rfl

theorem upTo_first {before : List (List Char)} {l : List Char}
    (h : ∀ l ∈ before, kind l = false) (hl : kind l = true) (after : List (List Char)) :
    upTo kind (before ++ l :: after) = some (before, l, after) := by
  rw [upTo_append h, upTo_cons_of_pos hl, Option.map_some]
  simp

end UpTo

/-! ## Without the blanks in front -/

/-- The lines of a text without the blanks in front of it. -/
def front (ls : List (List Char)) : List (List Char) :=
  match ls.dropWhile isBlank with
  | [] => [[]]
  | l :: rest => trimStart l :: rest

theorem front_blank {l : List Char} (h : isBlank l = true) (ls : List (List Char)) :
    front (l :: ls) = front ls := by
  rw [front, List.dropWhile_cons_of_pos h]
  rfl

theorem front_cons {l : List Char} (h : isBlank l = false) (ls : List (List Char)) :
    front (l :: ls) = trimStart l :: ls := by
  rw [front, List.dropWhile_cons_of_neg (by simp [h])]

theorem lines_trimStart (s : List Char) : lines (trimStart s) = front (lines s) := by
  induction s with
  | nil => rfl
  | cons c s ih =>
      by_cases hnl : c = '\n'
      · rw [hnl, lines_newline, front_blank rfl, ← ih, trimStart,
          List.dropWhile_cons_of_pos isWhitespace_newline]
        rfl
      · rw [lines_cons hnl]
        cases hs : lines s with
        | nil => exact absurd hs (lines_ne_nil s)
        | cons l ls =>
            rw [hs] at ih
            rw [List.modifyHead_cons]
            by_cases hc : isWhitespace c = true
            · have hfront : front ((c :: l) :: ls) = front (l :: ls) := by
                cases hl : isBlank l with
                | true =>
                    have hcl : isBlank (c :: l) = true := by
                      rw [isBlank, List.all_cons, hc]
                      exact hl
                    rw [front_blank hcl, front_blank hl]
                | false =>
                    have hcl : isBlank (c :: l) = false := by
                      rw [isBlank, List.all_cons, hc]
                      exact hl
                    rw [front_cons hcl, front_cons hl, trimStart, List.dropWhile_cons_of_pos hc]
                    rfl
              rw [hfront, ← ih, trimStart, List.dropWhile_cons_of_pos hc]
              rfl
            · have hcl : isBlank (c :: l) = false := by
                rw [isBlank, List.all_cons]
                simp [hc]
              rw [front_cons hcl, trimStart, trimStart, List.dropWhile_cons_of_neg hc,
                List.dropWhile_cons_of_neg hc, lines_cons hnl, hs, List.modifyHead_cons]

theorem isClosing_blank {l : List Char} (h : isBlank l = true) : isClosing l = false := by
  have htrim : trim l = [] := by
    have hempty := trimStart_blank h []
    rw [List.append_nil] at hempty
    rw [trim_eq, hempty]
    rfl
  rw [isClosing, htrim]
  rfl

/-- A line before the closing one loses its blanks in front when it is the first. -/
theorem closedBy_cons {l l' : List Char} (hl : isClosing l = false) (hl' : isClosing l' = false)
    {ls : List (List Char)} (h : ∀ s, trim (l ++ s) = trim (l' ++ s)) :
    closedBy (l :: ls) = closedBy (l' :: ls) := by
  rw [closedBy, closedBy, upTo_cons_of_neg hl, upTo_cons_of_neg hl', Option.map_map,
    Option.map_map]
  congr 1
  funext found
  show (trim (unlines (l :: found.1)), _) = (trim (unlines (l' :: found.1)), _)
  rw [unlines_cons, unlines_cons, h]

theorem closedBy_blank {l : List Char} (h : isBlank l = true) (ls : List (List Char)) :
    closedBy (l :: ls) = closedBy ls := by
  rw [closedBy, closedBy, upTo_cons_of_neg (isClosing_blank h), Option.map_map]
  congr 1
  funext found
  show (trim (unlines (l :: found.1)), _) = (trim (unlines found.1), _)
  have htrim : trim (l ++ behind found.1) = trim (unlines found.1) := by
    rw [trim_eq, trimStart_blank h]
    cases found.1 with
    | nil => rfl
    | cons l' ls' =>
        rw [behind, List.flatMap_cons, List.cons_append, trimStart,
          List.dropWhile_cons_of_pos isWhitespace_newline, unlines_cons]
        rfl
  rw [unlines_cons, htrim]

theorem closedBy_front (ls : List (List Char)) : closedBy (front ls) = closedBy ls := by
  induction ls with
  | nil => rfl
  | cons l ls ih =>
      cases hl : isBlank l with
      | true => rw [front_blank hl, closedBy_blank hl, ih]
      | false =>
          rw [front_cons hl]
          cases hclosing : isClosing l with
          | true =>
              have hfront : isClosing (trimStart l) = true := by
                rw [isClosing, trim_trimStart]
                exact hclosing
              rw [closedBy, closedBy, upTo_cons_of_pos hclosing, upTo_cons_of_pos hfront]
              rfl
          | false =>
              have hfront : isClosing (trimStart l) = false := by
                rw [isClosing, trim_trimStart]
                exact hclosing
              exact closedBy_cons hfront hclosing (trim_trimStart_append l)

/-- What is in front of the text is nothing to the reading by lines. -/
theorem frontmatter_eq {text opening : List Char} {later : List (List Char)}
    (h : lines (trimStart text) = opening :: later) :
    frontmatter text = if isOpening opening then closedBy later else none := by
  rw [lines_trimStart, front] at h
  rw [frontmatter]
  cases hlines : (lines text).dropWhile isBlank with
  | nil =>
      rw [hlines] at h
      obtain ⟨rfl, rfl⟩ := List.cons.inj h
      rfl
  | cons l ls =>
      rw [hlines] at h
      obtain ⟨rfl, rfl⟩ := List.cons.inj h
      show (if isOpening l then _ else _) = _
      rw [isOpening, isOpening, trim_trimStart]

/-! ## The opening line -/

/-- What stands behind the dashes a text begins with. -/
def afterDashes (s : List Char) : List Char := s.dropWhile (· = '-')

def startsDashes (line : List Char) : Bool := dashes.isPrefixOf line

theorem startsDashes_iff {s : List Char} : startsDashes s = true ↔ dashes <+: s :=
  List.isPrefixOf_iff_prefix

/-- Dashes are all on one line. -/
theorem startsDashes_first {s l : List Char} {ls : List (List Char)} (h : lines s = l :: ls) :
    startsDashes s = startsDashes l := by
  have hs : s = l ++ behind ls := by rw [← unlines_cons, ← h, unlines_lines]
  rw [Bool.eq_iff_iff, startsDashes_iff, startsDashes_iff, hs]
  constructor
  · intro hpre
    obtain hle | hlt := Nat.le_total dashes.length l.length
    · exact List.prefix_of_prefix_length_le hpre (List.prefix_append _ _) hle
    · -- the character behind the line is a newline, and there is none among the dashes
      obtain ⟨w, hw⟩ := List.prefix_of_prefix_length_le (List.prefix_append l (behind ls)) hpre hlt
      cases ls with
      | nil => rwa [show behind [] = [] from rfl, List.append_nil] at hpre
      | cons l' ls =>
          rw [← hw, List.prefix_append_right_inj] at hpre
          cases w with
          | nil =>
              rw [List.append_nil] at hw
              rw [hw]
          | cons d w =>
              obtain ⟨rest, hrest⟩ := hpre
              injection hrest with hd _
              have hmem : '\n' ∈ dashes := by
                rw [← hw, ← hd]
                exact List.mem_append_right l List.mem_cons_self
              exact absurd hmem (by decide)
  · intro hpre
    exact hpre.trans (List.prefix_append _ _)

theorem trimEnd_blank {s t : List Char} (ht : isBlank t = true) (hs : trimEnd s = s) :
    trimEnd (s ++ t) = s := by
  have hback : ∀ c ∈ t.reverse, isWhitespace c = true := by
    intro c hc
    exact List.all_eq_true.mp ht c (List.mem_reverse.mp hc)
  rw [trimEnd, List.reverse_append, List.dropWhile_append_of_pos hback]
  exact hs

theorem trimStart_dashes {w : List Char} (hw : ∀ c ∈ w, c = '-') (hne : w ≠ []) (u : List Char) :
    trimStart (w ++ u) = w ++ u := by
  obtain ⟨c, w, rfl⟩ := List.exists_cons_of_ne_nil hne
  have hc : isWhitespace c = false := by
    rw [hw c List.mem_cons_self]
    rfl
  rw [trimStart, List.cons_append, List.dropWhile_cons_of_neg (by simp [hc])]

theorem trim_dashes {w u : List Char} (hw : ∀ c ∈ w, c = '-') (hne : w ≠ [])
    (hblank : isBlank u = true) : trim (w ++ u) = w := by
  have hself : trimEnd w = w := by
    have hback := trimStart_dashes (fun c hc => hw c (List.mem_reverse.mp hc))
      (List.reverse_ne_nil_iff.mpr hne) []
    rw [List.append_nil] at hback
    show (trimStart w.reverse).reverse = w
    rw [hback, List.reverse_reverse]
  rw [trim_eq, trimStart_dashes hw hne, trimEnd_blank hblank hself]

/-- Whatever else stands behind the dashes is there after the trimming. -/
theorem not_all_dashes {w u : List Char} (hw : ∀ c ∈ w, c = '-') (hne : w ≠ [])
    (hu : u.head? ≠ some '-') (hblank : isBlank u = false) :
    (trim (w ++ u)).all (· = '-') = false := by
  obtain ⟨d, hd, hnot⟩ : ∃ d ∈ u, isWhitespace d = false := by
    simpa [isBlank] using hblank
  rw [trim_eq, trimStart_dashes hw hne, trimEnd_append (trimEnd_ne_nil hd hnot), List.all_append]
  have htail : (trimEnd u).all (· = '-') = false := by
    cases htrim : trimEnd u with
    | nil => exact absurd htrim (trimEnd_ne_nil hd hnot)
    | cons f rest =>
        -- trimming the end leaves the first character
        have hpre : trimEnd u <+: u := List.rdropWhile_prefix isWhitespace u
        rw [htrim] at hpre
        obtain ⟨r, hr⟩ := hpre
        have hf : f ≠ '-' := by
          intro heq
          exact hu (by rw [← hr, heq]; rfl)
        rw [List.all_cons]
        simp [hf]
  rw [htail, Bool.and_false]

/-- An opening line has its dashes and blanks behind them. -/
theorem isOpening_iff {w u : List Char} (hw : ∀ c ∈ w, c = '-') (hlen : 3 ≤ w.length)
    (hu : u.head? ≠ some '-') : isOpening (w ++ u) = isBlank u := by
  have hne : w ≠ [] := List.ne_nil_of_length_pos (by omega)
  rw [isOpening]
  cases hblank : isBlank u with
  | true =>
      rw [trim_dashes hw hne hblank]
      simpa [hlen] using hw
  | false => rw [not_all_dashes hw hne hu hblank, Bool.and_false]

/-! ## By patterns -/

/-- What the code takes for what stands before the closing line and behind it. -/
def foundBy (ls : List (List Char)) : Option (List Char × List Char) :=
  (upTo startsDashes ls).map fun (between, l, after) =>
    (trim (unlines between), trimStart (l.drop 3 ++ behind after))

theorem size_unlines_cons (c : Char) (l : List Char) (ls : List (List Char)) :
    ByteText.size (unlines ((c :: l) :: ls)) = c.utf8Size + ByteText.size (unlines (l :: ls)) := by
  rw [unlines_cons, unlines_cons, List.cons_append, ByteText.size]

/-- The first newline with dashes behind it is the one before the first line that
begins with dashes, of the lines after the first. -/
theorem find_dashes {s l : List Char} {ls : List (List Char)} (h : lines s = l :: ls) :
    ByteText.find ('\n' :: dashes) s =
      (upTo startsDashes ls).map fun found => ByteText.size (unlines (l :: found.1)) := by
  induction s generalizing l ls with
  | nil =>
      obtain ⟨-, rfl⟩ := List.cons.inj (lines_nil.symm.trans h)
      rfl
  | cons c s ih =>
      obtain ⟨l₀, ls₀, hs⟩ := List.exists_cons_of_ne_nil (lines_ne_nil s)
      rw [ByteText.find]
      by_cases hc : c = '\n'
      · rw [hc, lines_newline, hs] at h
        obtain ⟨rfl, rfl⟩ := List.cons.inj h
        have hpre : ('\n' :: dashes).isPrefixOf (c :: s) = startsDashes l₀ := by
          rw [hc, List.isPrefixOf_cons_cons, BEq.refl, Bool.true_and]
          exact startsDashes_first hs
        rw [hpre]
        cases hl : startsDashes l₀ with
        | true =>
            rw [if_pos rfl, upTo_cons_of_pos hl]
            rfl
        | false =>
            rw [if_neg (by simp), ih hs, upTo_cons_of_neg hl, Option.map_map, Option.map_map]
            congr 1
            funext found
            show c.utf8Size + ByteText.size (unlines (l₀ :: found.1)) =
              ByteText.size (unlines ([] :: l₀ :: found.1))
            rw [hc, unlines_cons [], behind, List.flatMap_cons, List.nil_append,
              List.cons_append, ByteText.size, unlines_cons l₀]
            rfl
      · rw [lines_cons hc, hs, List.modifyHead_cons] at h
        obtain ⟨rfl, rfl⟩ := List.cons.inj h
        have hpre : ¬ ('\n' :: dashes).isPrefixOf (c :: s) = true := by
          rw [List.isPrefixOf_cons_cons]
          simp [Ne.symm hc]
        rw [if_neg hpre, ih hs, Option.map_map]
        congr 1
        funext found
        exact (size_unlines_cons c l₀ found.1).symm

/-- A line that begins with dashes, cut behind them. -/
theorem dashes_drop {l : List Char} (h : startsDashes l = true) : dashes ++ l.drop 3 = l := by
  obtain ⟨rest, rfl⟩ := startsDashes_iff.mp h
  rfl

theorem behind_append (before after : List (List Char)) :
    behind (before ++ after) = behind before ++ behind after := List.flatMap_append

/-- The slices of the code, on a text that has no newline in front. -/
theorem extract_rest {rest l : List Char} {ls : List (List Char)} (h : lines rest = l :: ls)
    (hne : l = [] → rest = []) :
    (match (if dashes.isPrefixOf rest then some 0 else ByteText.find ('\n' :: dashes) rest) with
      | none => some none
      | some endPos =>
          (ByteText.sliceTo rest endPos).bind fun yaml =>
            (ByteText.sliceFrom rest (if endPos = 0 then 3 else endPos + 4)).map fun body =>
              some (trim yaml, trimStart body)) = some (foundBy (l :: ls)) := by
  have hrest : rest = l ++ behind ls := by rw [← unlines_cons, ← h, unlines_lines]
  have hfirst : dashes.isPrefixOf rest = startsDashes l := startsDashes_first h
  rw [hfirst, foundBy]
  cases hl : startsDashes l with
  | true =>
      have hcut : rest = dashes ++ (l.drop 3 ++ behind ls) := by
        rw [hrest, ← List.append_assoc, dashes_drop hl]
      have hto : ByteText.sliceTo rest 0 = some [] := by
        cases rest with
        | nil => rfl
        | cons c s => rfl
      have hfrom : ByteText.sliceFrom rest 3 = some (l.drop 3 ++ behind ls) := by
        rw [hcut]
        exact ByteText.sliceFrom_append dashes _
      rw [if_pos rfl, upTo_cons_of_pos hl]
      dsimp only
      rw [hto, Option.bind_some, if_pos rfl, hfrom]
      rfl
  | false =>
      rw [if_neg (by simp), find_dashes h, upTo_cons_of_neg hl]
      cases hup : upTo startsDashes ls with
      | none => rfl
      | some found =>
          obtain ⟨between, c, after⟩ := found
          obtain ⟨rfl, hc⟩ := upTo_eq_some hup
          have hlne : l ≠ [] := by
            intro hnil
            have hempty := hne hnil
            rw [hrest, hnil, behind_append] at hempty
            simp [behind] at hempty
          have hpos : ByteText.size (unlines (l :: between)) ≠ 0 := by
            rw [unlines_cons, ByteText.size_append]
            have hsize := ByteText.size_pos hlne
            omega
          have hcut : rest =
              unlines (l :: between) ++ '\n' :: dashes ++ (c.drop 3 ++ behind after) := by
            rw [hrest, unlines_cons, behind_append]
            show _ = l ++ behind between ++ '\n' :: dashes ++ (c.drop 3 ++ behind after)
            rw [behind, behind, behind, List.flatMap_cons]
            conv_lhs => rw [← dashes_drop hc]
            simp
          have hto : ByteText.sliceTo rest (ByteText.size (unlines (l :: between))) =
              some (unlines (l :: between)) := by
            rw [hcut, List.append_assoc]
            exact ByteText.sliceTo_append _ _
          have hfrom : ByteText.sliceFrom rest (ByteText.size (unlines (l :: between)) + 4) =
              some (c.drop 3 ++ behind after) := by
            have hcutfrom := ByteText.sliceFrom_append
              (unlines (l :: between) ++ '\n' :: dashes) (c.drop 3 ++ behind after)
            rw [ByteText.size_append] at hcutfrom
            rw [hcut]
            exact hcutfrom
          dsimp only [Option.map_some]
          rw [hto, Option.bind_some, if_neg hpos, hfrom]
          rfl

theorem startsDashes_of_isOpening {l : List Char} (h : isOpening l = true) :
    startsDashes (trimStart l) = true := by
  rw [isOpening, Bool.and_eq_true, decide_eq_true_eq, List.all_eq_true] at h
  have hpre : trim l <+: trimStart l := List.rdropWhile_prefix isWhitespace _
  rw [startsDashes_iff]
  refine List.IsPrefix.trans ?_ hpre
  have hall : trim l = List.replicate (trim l).length '-' :=
    List.eq_replicate_iff.mpr ⟨rfl, fun c hc => by simpa using h.2 c hc⟩
  refine ⟨List.replicate ((trim l).length - 3) '-', ?_⟩
  rw [hall, List.length_replicate]
  show List.replicate 3 '-' ++ _ = _
  rw [← List.replicate_add]
  congr 1
  omega

/-- Behind its dashes the text has no dash, and the trimmed text no blank, in front. -/
theorem head?_dropWhile_ne {kind : Char → Bool} {s : List Char} {c : Char}
    (h : (s.dropWhile kind).head? = some c) : kind c = false := by
  have hnot := List.head?_dropWhile_not kind s
  rw [h] at hnot
  exact hnot

theorem extractFrontmatter_eq {text : List Char} (h : startsDashes (trimStart text) = true) :
    extractFrontmatter text =
      some (foundBy (lines (trimStart (afterDashes (trimStart text))))) := by
  have hcut := dashes_drop h
  have hslice : ByteText.sliceFrom (trimStart text) 3 = some ((trimStart text).drop 3) := by
    have hfrom := ByteText.sliceFrom_append dashes ((trimStart text).drop 3)
    rwa [hcut] at hfrom
  have hafter : ((trimStart text).drop 3).dropWhile (· = '-') = afterDashes (trimStart text) := by
    rw [afterDashes]
    conv_rhs => rw [← hcut]
    rfl
  obtain ⟨l, ls, hl⟩ := List.exists_cons_of_ne_nil
    (lines_ne_nil (trimStart (afterDashes (trimStart text))))
  have hne : l = [] → trimStart (afterDashes (trimStart text)) = [] := by
    intro hnil
    have hrest : trimStart (afterDashes (trimStart text)) = l ++ behind ls := by
      rw [← unlines_cons, ← hl, unlines_lines]
    cases ls with
    | nil => rw [hrest, hnil]; rfl
    | cons l' ls =>
        have hblank := @head?_dropWhile_ne isWhitespace (afterDashes (trimStart text)) '\n'
          (by rw [← trimStart, hrest, hnil]; rfl)
        exact absurd hblank (by decide)
  have hslices := extract_rest hl hne
  rw [← hl] at hslices
  have hpre : dashes.isPrefixOf (trimStart text) = true := h
  rw [extractFrontmatter, if_pos hpre, hslice, Option.bind_some, hafter]
  exact hslices

/-! ## The two readings compared -/

/-- Behind the closing line it does not matter what is blank. -/
theorem trimStart_behind {l : List Char} (h : isBlank l = true) (ls : List (List Char)) :
    trimStart (l ++ behind ls) = trimStart (unlines ls) := by
  rw [trimStart_blank h]
  cases ls with
  | nil => rfl
  | cons l' ls =>
      rw [behind, List.flatMap_cons, List.cons_append, trimStart,
        List.dropWhile_cons_of_pos isWhitespace_newline, unlines_cons]
      rfl

theorem weight_dashes : weight dashes = 3 := by decide

theorem weight_of_startsDashes {l : List Char} (h : startsDashes l = true) : weight l ≠ 0 := by
  rw [← dashes_drop h, weight_append, weight_dashes]
  omega

theorem weight_of_isClosing {l : List Char} (h : isClosing l = true) : weight l = 3 := by
  rw [← weight_trim, of_decide_eq_true h, weight_dashes]

theorem neither {l : List Char} (h : ¬ (startsDashes l || isClosing l) = true) :
    startsDashes l = false ∧ isClosing l = false := by
  simpa using h

/-- A reading that goes past a line has it in what it finds. -/
theorem upTo_past {kind : List Char → Bool} {before after : List (List Char)} {l : List Char}
    (hbefore : ∀ l ∈ before, kind l = false) (hl : kind l = false) (hweight : weight l ≠ 0)
    {found : List (List Char) × List Char × List (List Char)}
    (h : upTo kind (before ++ l :: after) = some found) :
    trim (unlines before) ≠ trim (unlines found.1) := by
  rw [upTo_append hbefore, upTo_cons_of_neg hl, Option.map_map] at h
  obtain ⟨rest, -, rfl⟩ := Option.map_eq_some_iff.mp h
  exact trim_unlines_ne hweight

/-- Both find the same, or neither finds anything, exactly when the first line that
either takes for the closing one is one that both do. -/
theorem foundBy_eq_closedBy_iff (ls : List (List Char)) :
    foundBy ls = closedBy ls ↔
      ∀ l, ls.find? (fun l => startsDashes l || isClosing l) = some l →
        startsDashes l = true ∧ isClosing l = true := by
  cases hfind : ls.find? fun l => startsDashes l || isClosing l with
  | none =>
      have hnone := List.find?_eq_none.mp hfind
      have hstarts : upTo startsDashes ls = none :=
        upTo_eq_none.mpr fun l hl => (neither (hnone l hl)).1
      have hcloses : upTo isClosing ls = none :=
        upTo_eq_none.mpr fun l hl => (neither (hnone l hl)).2
      rw [foundBy, closedBy, hstarts, hcloses]
      simp
  | some l =>
      obtain ⟨hmarked, before, after, rfl, hbefore⟩ := List.find?_eq_some_iff_append.mp hfind
      have hstarts : ∀ l ∈ before, startsDashes l = false := fun l hl =>
        (neither (by simpa using hbefore l hl)).1
      have hcloses : ∀ l ∈ before, isClosing l = false := fun l hl =>
        (neither (by simpa using hbefore l hl)).2
      have hgoal : (∀ l', some l = some l' → startsDashes l' = true ∧ isClosing l' = true) ↔
          startsDashes l = true ∧ isClosing l = true :=
        ⟨fun h => h l rfl, fun h l' hl => by rwa [← Option.some.inj hl]⟩
      rw [hgoal, foundBy, closedBy]
      cases hs : startsDashes l with
      | true =>
          rw [upTo_first hstarts hs]
          cases hc : isClosing l with
          | true =>
              have hblank : isBlank (l.drop 3) = true := by
                apply isBlank_of_weight
                have hweight := weight_of_isClosing hc
                rw [← dashes_drop hs, weight_append, weight_dashes] at hweight
                omega
              rw [upTo_first hcloses hc]
              simp [trimStart_behind hblank]
          | false =>
              refine iff_of_false ?_ (by simp)
              intro heq
              obtain ⟨found, hfound, hsame⟩ := Option.map_eq_some_iff.mp heq.symm
              exact upTo_past hcloses hc (weight_of_startsDashes hs) hfound
                (Prod.mk.inj hsame).1.symm
      | false =>
          have hc : isClosing l = true := by simpa [hs] using hmarked
          have hweight : weight l ≠ 0 := by
            rw [weight_of_isClosing hc]
            decide
          refine iff_of_false ?_ (by simp)
          rw [upTo_first hcloses hc]
          intro heq
          obtain ⟨found, hfound, hsame⟩ := Option.map_eq_some_iff.mp heq
          exact upTo_past hstarts hs hweight hfound (Prod.mk.inj hsame).1.symm

/-- The opening dashes have their line to themselves. -/
def OpeningAlone (text : List Char) : Prop :=
  isBlank ((afterDashes (trimStart text)).takeWhile (· ≠ '\n')) = true

/-- The lines behind the opening dashes, without the blanks in front of them. -/
def block (text : List Char) : List (List Char) :=
  lines (trimStart (afterDashes (trimStart text)))

/-- In a text that begins with three dashes: when they have their line to themselves,
the first later line that begins with three dashes or is `---` between blanks, if
there is one, does both; when they have not, no line behind them begins with three. -/
def OneReading (text : List Char) : Prop :=
  startsDashes (trimStart text) = true →
    (OpeningAlone text →
      ∀ l, (block text).find? (fun l => startsDashes l || isClosing l) = some l →
        startsDashes l = true ∧ isClosing l = true) ∧
    (¬ OpeningAlone text → ∀ l ∈ block text, startsDashes l = false)

/-- The opening line, cut behind its dashes. -/
theorem frontmatter_of_startsDashes {text : List Char} (h : startsDashes (trimStart text) = true) :
    (OpeningAlone text → frontmatter text = closedBy (block text)) ∧
      (¬ OpeningAlone text → frontmatter text = none) := by
  obtain ⟨u, later, hu⟩ := List.exists_cons_of_ne_nil
    (lines_ne_nil (afterDashes (trimStart text)))
  have hw : ∀ c ∈ (trimStart text).takeWhile (· = '-'), c = '-' := by
    intro c hc
    simpa using List.mem_takeWhile_imp hc
  have hlen : 3 ≤ ((trimStart text).takeWhile (· = '-')).length := by
    rw [← dashes_drop h]
    show 3 ≤ (_ :: _ :: _ :: _ : List Char).length
    simp
  have hsplit : trimStart text =
      (trimStart text).takeWhile (· = '-') ++ afterDashes (trimStart text) :=
    List.takeWhile_append_dropWhile.symm
  have hnot : u.head? ≠ some '-' := by
    intro hhead
    obtain ⟨u', rfl⟩ := List.head?_eq_some_iff.mp hhead
    have hafter : afterDashes (trimStart text) = ('-' :: u') ++ behind later := by
      rw [← unlines_cons, ← hu, unlines_lines]
    have hdash := @head?_dropWhile_ne (· = '-') (trimStart text) '-'
      (by rw [← afterDashes, hafter]; rfl)
    exact absurd hdash (by decide)
  have hlines : lines (trimStart text) =
      ((trimStart text).takeWhile (· = '-') ++ u) :: later := by
    conv_lhs => rw [hsplit]
    rw [lines_append (fun hmem => absurd (hw _ hmem) (by decide)), hu, List.modifyHead_cons]
  have halone : OpeningAlone text ↔ isBlank u = true := by
    rw [OpeningAlone, ← head_lines hu]
  rw [frontmatter_eq hlines, isOpening_iff hw hlen hnot, halone]
  constructor
  · intro hblank
    rw [if_pos hblank, block, lines_trimStart, hu, front_blank hblank, closedBy_front]
  · intro hblank
    rw [if_neg hblank]

/-- Both readings agree on a text that begins otherwise. -/
theorem frontmatter_of_not_startsDashes {text : List Char}
    (h : startsDashes (trimStart text) = false) : frontmatter text = none := by
  obtain ⟨o, later, ho⟩ := List.exists_cons_of_ne_nil (lines_ne_nil (trimStart text))
  rw [frontmatter_eq ho, if_neg]
  intro hopening
  have hstart := startsDashes_of_isOpening hopening
  have hfirst : trimStart o = o := by
    have hlines := ho
    rw [← trimStart_trimStart, lines_trimStart, ho] at hlines
    cases hblank : isBlank o with
    | false => exact (List.cons.inj ((front_cons hblank later).symm.trans hlines)).1
    | true =>
        have hempty := trimStart_blank hblank []
        rw [List.append_nil] at hempty
        rw [hempty] at hstart
        cases hstart
  rw [hfirst, ← startsDashes_first ho, h] at hstart
  cases hstart

/-- The code reads the frontmatter of a text, and never panics, exactly when there is
only one way to read it. -/
theorem extractFrontmatter_iff (text : List Char) :
    extractFrontmatter text = some (frontmatter text) ↔ OneReading text := by
  cases h : startsDashes (trimStart text) with
  | false =>
      have hpre : dashes.isPrefixOf (trimStart text) = false := h
      rw [frontmatter_of_not_startsDashes h, extractFrontmatter, if_neg (by simp [hpre])]
      exact iff_of_true rfl fun h' => absurd h' (by simp [h])
  | true =>
      obtain ⟨halone, hnot⟩ := frontmatter_of_startsDashes h
      rw [extractFrontmatter_eq h, Option.some_inj]
      show foundBy (block text) = _ ↔ _
      by_cases hopening : OpeningAlone text
      · rw [halone hopening, foundBy_eq_closedBy_iff]
        exact ⟨fun hfirst _ => ⟨fun _ => hfirst, fun hne => absurd hopening hne⟩,
          fun hall => (hall h).1 hopening⟩
      · rw [hnot hopening, foundBy, Option.map_eq_none_iff, upTo_eq_none]
        exact ⟨fun hnone _ => ⟨fun hpos => absurd hpos hopening, fun _ => hnone⟩,
          fun hall => (hall h).2 hopening⟩

/-- A value in the block that begins a line with dashes ends it. -/
theorem extractFrontmatter_cut :
    extractFrontmatter "---\nname: a\n---x: b\n---\nBody".toList =
        some (some ("name: a".toList, "x: b\n---\nBody".toList)) ∧
      frontmatter "---\nname: a\n---x: b\n---\nBody".toList =
        some ("name: a\n---x: b".toList, "Body".toList) ∧
      extractFrontmatter "---\nname: a\n---x: b\n---\nBody".toList ≠
        some (frontmatter "---\nname: a\n---x: b\n---\nBody".toList) := by
  decide +kernel

end Pandaria.Agent.Skills
