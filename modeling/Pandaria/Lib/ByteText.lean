import Mathlib.Data.List.Infix

/-!
# Texts cut at bytes

A text is the list of its characters, and a place in it is a number of bytes. It
can be cut between two characters and nowhere else. Whoever looks for a pattern
is told the place of its first occurrence; there the text can be cut, and behind
the occurrence as well.
-/

namespace Pandaria.Lib.ByteText

/-- The number of bytes. -/
def size : List Char → Nat
  | [] => 0
  | c :: s => c.utf8Size + size s

/-- `&s[start..]`, nothing where it panics. -/
def sliceFrom : List Char → Nat → Option (List Char)
  | s, 0 => some s
  | [], _ + 1 => none
  | c :: s, n + 1 => if c.utf8Size ≤ n + 1 then sliceFrom s (n + 1 - c.utf8Size) else none

/-- `&s[..stop]`. -/
def sliceTo : List Char → Nat → Option (List Char)
  | _, 0 => some []
  | [], _ + 1 => none
  | c :: s, n + 1 =>
      if c.utf8Size ≤ n + 1 then (sliceTo s (n + 1 - c.utf8Size)).map (c :: ·) else none

/-- `&s[start..stop]`. -/
def slice (s : List Char) (start stop : Nat) : Option (List Char) :=
  if start ≤ stop then (sliceTo s stop).bind fun s => sliceFrom s start else none

/-- A text with a note behind its first bytes if it has more than those, and
nothing where they end inside a character. -/
def excerpt (bound : Nat) (note : String) (text : List Char) : Option String :=
  if size text ≤ bound then some (String.ofList text)
  else (sliceTo text bound).map fun kept => String.ofList kept ++ note

/-- `s.find(pattern)`. -/
def find (pattern : List Char) : List Char → Option Nat
  | [] => if pattern = [] then some 0 else none
  | c :: s =>
      if pattern.isPrefixOf (c :: s) then some 0
      else (find pattern s).map fun i => c.utf8Size + i

/-- `s.rfind(c)`, for a character. -/
def rfind (c : Char) : List Char → Option Nat
  | [] => none
  | d :: s =>
      match rfind c s with
      | some i => some (d.utf8Size + i)
      | none => if d = c then some 0 else none

attribute [local simp] size sliceFrom sliceTo

/-! ## Cuts -/

theorem size_append (s t : List Char) : size (s ++ t) = size s + size t := by
  induction s with
  | nil => rw [List.nil_append, size, Nat.zero_add]
  | cons c s ih => rw [List.cons_append, size, size, ih, Nat.add_assoc]

theorem size_pos {s : List Char} (h : s ≠ []) : 0 < size s := by
  cases s with
  | nil => exact absurd rfl h
  | cons c s =>
      have hc := c.utf8Size_pos
      rw [size]
      omega

theorem utf8ByteSize_ofList (s : List Char) : (String.ofList s).utf8ByteSize = size s := by
  induction s with
  | nil => rfl
  | cons c s ih =>
      have hcons : String.ofList (c :: s) = String.singleton c ++ String.ofList s := by
        rw [← String.toList_inj, String.toList_append, String.toList_ofList, String.toList_ofList,
          String.toList_singleton]
        rfl
      rw [hcons, String.utf8ByteSize_append, String.utf8ByteSize_singleton, ih, size]

theorem utf8ByteSize_eq (s : String) : s.utf8ByteSize = size s.toList := by
  rw [← utf8ByteSize_ofList, String.ofList_toList]

theorem sliceFrom_append (s t : List Char) : sliceFrom (s ++ t) (size s) = some t := by
  induction s with
  | nil =>
      cases t with
      | nil => rfl
      | cons c t => rfl
  | cons c s ih =>
      have hc := c.utf8Size_pos
      obtain ⟨n, hn⟩ : ∃ n, c.utf8Size + size s = n + 1 := ⟨c.utf8Size + size s - 1, by omega⟩
      rw [size, hn, List.cons_append, sliceFrom, if_pos (by omega),
        show n + 1 - c.utf8Size = size s by omega]
      exact ih

theorem sliceTo_append (s t : List Char) : sliceTo (s ++ t) (size s) = some s := by
  induction s with
  | nil =>
      cases t with
      | nil => rfl
      | cons c t => rfl
  | cons c s ih =>
      have hc := c.utf8Size_pos
      obtain ⟨n, hn⟩ : ∃ n, c.utf8Size + size s = n + 1 := ⟨c.utf8Size + size s - 1, by omega⟩
      rw [size, hn, List.cons_append, sliceTo, if_pos (by omega),
        show n + 1 - c.utf8Size = size s by omega, ih]
      rfl

/-- What is left behind a place is what stands behind so many bytes. -/
theorem sliceFrom_eq_some_iff {s t : List Char} {n : Nat} :
    sliceFrom s n = some t ↔ ∃ u, s = u ++ t ∧ size u = n := by
  constructor
  · intro h
    induction s generalizing n with
    | nil =>
        cases n with
        | zero =>
            injection h with h
            exact ⟨[], h, rfl⟩
        | succ n => cases h
    | cons c s ih =>
        cases n with
        | zero =>
            injection h with h
            exact ⟨[], h, rfl⟩
        | succ n =>
            rw [sliceFrom] at h
            split at h
            · next hle =>
                obtain ⟨u, hs, hu⟩ := ih h
                refine ⟨c :: u, by rw [hs]; rfl, ?_⟩
                rw [size]
                omega
            · cases h
  · rintro ⟨u, rfl, rfl⟩
    exact sliceFrom_append u t

/-- And what is kept before it, so many bytes of the beginning. -/
theorem sliceTo_eq_some_iff {s t : List Char} {n : Nat} :
    sliceTo s n = some t ↔ t <+: s ∧ size t = n := by
  constructor
  · intro h
    induction s generalizing n t with
    | nil =>
        cases n with
        | zero =>
            injection h with h
            exact ⟨h ▸ List.prefix_rfl, h ▸ rfl⟩
        | succ n => cases h
    | cons c s ih =>
        cases n with
        | zero =>
            injection h with h
            exact ⟨h ▸ List.nil_prefix, h ▸ rfl⟩
        | succ n =>
            rw [sliceTo] at h
            split at h
            · next hle =>
                obtain ⟨t, ht, rfl⟩ := Option.map_eq_some_iff.mp h
                obtain ⟨hpre, hsize⟩ := ih ht
                refine ⟨List.cons_prefix_cons.mpr ⟨rfl, hpre⟩, ?_⟩
                rw [size]
                omega
            · cases h
  · rintro ⟨⟨u, rfl⟩, rfl⟩
    exact sliceTo_append t u

theorem slice_append (s t u : List Char) :
    slice (s ++ t ++ u) (size s) (size (s ++ t)) = some t := by
  rw [slice, if_pos (by rw [size_append]; omega), sliceTo_append, Option.bind_some,
    sliceFrom_append]

theorem slice_eq_none {s : List Char} {start stop : Nat} (h : stop < start) :
    slice s start stop = none := if_neg (Nat.not_le.mpr h)

/-- Of two beginnings of a text the longer one goes on from the other. -/
theorem exists_append_of_length_le {s t u v : List Char} (h : s ++ t = u ++ v)
    (hle : s.length ≤ u.length) : ∃ w, u = s ++ w ∧ t = w ++ v := by
  rcases List.append_eq_append_iff.mp h with ⟨w, hu, ht⟩ | ⟨w, hs, hv⟩
  · exact ⟨w, hu, ht⟩
  · rw [hs, List.length_append] at hle
    have hw : w = [] := List.length_eq_zero_iff.mp (by omega)
    subst hw
    rw [List.append_nil] at hs
    exact ⟨[], by rw [hs, List.append_nil], by rw [hv]; rfl⟩

/-- And so does the one with more bytes. -/
theorem exists_append_of_size_le {s t u v : List Char} (h : s ++ t = u ++ v)
    (hle : size s ≤ size u) : ∃ w, u = s ++ w ∧ t = w ++ v := by
  rcases Nat.le_total s.length u.length with hlen | hlen
  · exact exists_append_of_length_le h hlen
  · obtain ⟨w, hs, hv⟩ := exists_append_of_length_le h.symm hlen
    rw [hs, size_append] at hle
    have hw : w = [] := by
      by_contra hne
      have hpos := size_pos hne
      omega
    subst hw
    rw [List.append_nil] at hs
    exact ⟨[], by rw [hs, List.append_nil], by rw [hv]; rfl⟩

/-! ## Excerpts -/

/-- A beginning of the text within the bound, with the note if it is not all of it. -/
def IsExcerpt (bound : Nat) (note : String) (text : List Char) (s : String) : Prop :=
  ∃ kept, kept <+: text ∧ size kept ≤ bound ∧
    ((kept = text ∧ s = String.ofList kept) ∨ (kept ≠ text ∧ s = String.ofList kept ++ note))

/-- The text is within the bound, or there is a place to cut it at. -/
def Fits (bound : Nat) (text : List Char) : Prop :=
  size text ≤ bound ∨ ∃ kept, kept <+: text ∧ size kept = bound

theorem isExcerpt_of_excerpt {bound : Nat} {note s : String} {text : List Char}
    (h : excerpt bound note text = some s) : IsExcerpt bound note text s := by
  rw [excerpt] at h
  split at h
  · next hle =>
      injection h with h
      exact ⟨text, List.prefix_rfl, hle, .inl ⟨rfl, h.symm⟩⟩
  · next hgt =>
      obtain ⟨kept, hkept, rfl⟩ := Option.map_eq_some_iff.mp h
      obtain ⟨hpre, hsize⟩ := sliceTo_eq_some_iff.mp hkept
      refine ⟨kept, hpre, by omega, .inr ⟨fun heq => ?_, rfl⟩⟩
      rw [heq] at hsize
      omega

theorem exists_excerpt_iff {bound : Nat} {note : String} {text : List Char} :
    (∃ s, excerpt bound note text = some s) ↔ Fits bound text := by
  rw [excerpt, Fits]
  split
  · next hle => exact iff_of_true ⟨_, rfl⟩ (.inl hle)
  · next hgt =>
      rw [or_iff_right hgt]
      constructor
      · rintro ⟨s, h⟩
        obtain ⟨kept, hkept, -⟩ := Option.map_eq_some_iff.mp h
        exact ⟨kept, sliceTo_eq_some_iff.mp hkept⟩
      · intro h
        obtain ⟨kept, hkept⟩ := h
        exact ⟨_, congrArg (Option.map _) (sliceTo_eq_some_iff.mpr hkept)⟩

/-- A text with a character across the bound. -/
theorem not_fits {bound : Nat} {s t : List Char} {c : Char} (hlt : size s < bound)
    (hgt : bound < size s + c.utf8Size) : ¬ Fits bound (s ++ c :: t) := by
  intro h
  obtain h | ⟨kept, ⟨rest, hkept⟩, hsize⟩ := h
  · rw [size_append, size] at h
    omega
  · obtain ⟨w, hw, hrest⟩ := exists_append_of_size_le hkept.symm (by omega)
    rw [hw, size_append] at hsize
    cases w with
    | nil =>
        rw [size] at hsize
        omega
    | cons d w =>
        injection hrest with hd
        rw [size, ← hd] at hsize
        omega

/-! ## First and last occurrences -/

/-- The first occurrence of the pattern, with what stands around it. -/
structure First (pattern s before after : List Char) : Prop where
  eq : s = before ++ pattern ++ after
  first : ∀ before' after', s = before' ++ pattern ++ after' → before.length ≤ before'.length

theorem First.unique {pattern s before after before' after' : List Char}
    (h : First pattern s before after) (h' : First pattern s before' after') :
    before = before' ∧ after = after' := by
  have hlen : before.length = before'.length :=
    Nat.le_antisymm (h.first _ _ h'.eq) (h'.first _ _ h.eq)
  have heq := h.eq.symm.trans h'.eq
  rw [List.append_assoc, List.append_assoc] at heq
  obtain ⟨hbefore, hrest⟩ := List.append_inj heq hlen
  exact ⟨hbefore, (List.append_inj hrest rfl).2⟩

theorem find_cases (pattern s : List Char) :
    (find pattern s = none ∧ ¬ pattern <:+: s) ∨
      ∃ before after, find pattern s = some (size before) ∧ First pattern s before after := by
  induction s with
  | nil =>
      rw [find]
      split
      · next hnil =>
          subst hnil
          exact .inr ⟨[], [], rfl, rfl, fun _ _ _ => Nat.zero_le _⟩
      · next hne => exact .inl ⟨rfl, fun h => hne (List.infix_nil.mp h)⟩
  | cons c s ih =>
      rw [find]
      split
      · next hpre =>
          obtain ⟨after, hafter⟩ := List.isPrefixOf_iff_prefix.mp hpre
          exact .inr ⟨[], after, rfl, hafter.symm, fun _ _ _ => Nat.zero_le _⟩
      · next hpre =>
          rw [List.isPrefixOf_iff_prefix] at hpre
          rcases ih with ⟨hnone, hnot⟩ | ⟨before, after, hsome, heq, hfirst⟩
          · refine .inl ⟨by rw [hnone]; rfl, fun h => ?_⟩
            rcases List.infix_cons_iff.mp h with h | h
            · exact hpre h
            · exact hnot h
          · refine .inr ⟨c :: before, after, by rw [hsome]; rfl, by rw [heq]; rfl, ?_⟩
            intro before' after' h
            cases before' with
            | nil => exact absurd ⟨after', h.symm⟩ hpre
            | cons d before' =>
                injection h with _ h
                exact Nat.succ_le_succ (hfirst before' after' h)

/-- The first occurrence of a character is the one with none before it. -/
theorem first_singleton_iff {c : Char} {s before after : List Char} :
    First [c] s before after ↔ s = before ++ c :: after ∧ c ∉ before := by
  constructor
  · rintro ⟨heq, hfirst⟩
    refine ⟨by rw [heq, List.append_assoc]; rfl, fun hmem => ?_⟩
    obtain ⟨before', rest, hsplit⟩ := List.append_of_mem hmem
    have hle := hfirst before' (rest ++ [c] ++ after) (by rw [heq, hsplit]; simp)
    rw [hsplit, List.length_append, List.length_cons] at hle
    omega
  · rintro ⟨heq, hnot⟩
    refine ⟨by rw [heq, List.append_assoc]; rfl, fun before' after' h => ?_⟩
    rw [heq, List.append_assoc] at h
    rcases List.append_eq_append_iff.mp h with ⟨w, hw, -⟩ | ⟨w, hw, hrest⟩
    · rw [hw, List.length_append]
      omega
    · cases w with
      | nil =>
          rw [List.append_nil] at hw
          rw [hw]
      | cons d w =>
          injection hrest with hd _
          refine absurd ?_ hnot
          rw [hw, ← hd]
          simp

theorem rfind_cases (c : Char) (s : List Char) :
    (rfind c s = none ∧ c ∉ s) ∨
      ∃ before after, rfind c s = some (size before) ∧ s = before ++ c :: after ∧ c ∉ after := by
  induction s with
  | nil => exact .inl ⟨rfl, List.not_mem_nil⟩
  | cons d s ih =>
      rw [rfind]
      rcases ih with ⟨hnone, hnot⟩ | ⟨before, after, hsome, heq, hlast⟩
      · rw [hnone]
        dsimp only
        split
        · next hd =>
            subst hd
            exact .inr ⟨[], s, rfl, rfl, hnot⟩
        · next hd =>
            refine .inl ⟨rfl, fun hmem => ?_⟩
            rcases List.mem_cons.mp hmem with rfl | hmem
            · exact hd rfl
            · exact hnot hmem
      · rw [hsome]
        exact .inr ⟨d :: before, after, rfl, by rw [heq]; rfl, hlast⟩

/-- A pattern without the characters in front occurs behind them. -/
theorem infix_of_infix_append {pattern w s : List Char} (hne : pattern ≠ [])
    (hw : ∀ c ∈ w, c ∉ pattern) (h : pattern <:+: w ++ s) : pattern <:+: s := by
  induction w with
  | nil => exact h
  | cons c w ih =>
      rcases List.infix_cons_iff.mp h with hpre | h
      · obtain ⟨d, rest, rfl⟩ := List.exists_cons_of_ne_nil hne
        obtain ⟨after, hafter⟩ := hpre
        injection hafter with hd _
        exact absurd (hd ▸ List.mem_cons_self) (hw c List.mem_cons_self)
      · exact ih (fun c hc => hw c (List.mem_cons_of_mem _ hc)) h

end Pandaria.Lib.ByteText
