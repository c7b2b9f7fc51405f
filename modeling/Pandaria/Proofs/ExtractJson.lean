import Mathlib.Data.List.DropRight
import Pandaria.Comp.ExtractJson

/-!
# Which objects are found

`extract_json` takes the text as it is when it is JSON, else what is fenced first,
else what is between the outer braces. It never asks whether what it takes is JSON,
so it stops at the first of these, and a fence in a string of the object closes the
block around it. Places are counted in bytes but always found next to ASCII, so the
only slice that can panic is the last: from an opening brace to a closing one that
stands before it.
-/

namespace Pandaria.Comp

open Pandaria.Ai Pandaria.Lib Pandaria.Lib.ByteText

variable {τ : Type _} {parser : JsonParser τ} {raw pre obj post : List Char}

/-! ## Whitespace -/

def Blank (s : List Char) : Prop := ∀ c ∈ s, isWhitespace c = true

theorem blank_nil : Blank [] := fun _ hc => absurd hc List.not_mem_nil

theorem trim_split (s : List Char) : ∃ w w', s = w ++ trim s ++ w' ∧ Blank w ∧ Blank w' := by
  have hends (t : List Char) : t = trimEnd t ++ (t.reverse.takeWhile isWhitespace).reverse := by
    rw [trimEnd, ← List.reverse_append, List.takeWhile_append_dropWhile, List.reverse_reverse]
  refine ⟨s.takeWhile isWhitespace,
    ((s.dropWhile isWhitespace).reverse.takeWhile isWhitespace).reverse, ?_, ?_, ?_⟩
  · rw [trim, List.append_assoc, ← hends, List.takeWhile_append_dropWhile]
  · exact fun c hc => List.mem_takeWhile_imp hc
  · exact fun c hc => List.mem_takeWhile_imp (List.mem_reverse.mp hc)

theorem trim_trim (s : List Char) : trim (trim s) = trim s := by
  have hfront : (trim s).dropWhile isWhitespace = trim s := by
    obtain ⟨rest, hrest⟩ : trim s <+: s.dropWhile isWhitespace :=
      List.rdropWhile_prefix isWhitespace _
    cases htrim : trim s with
    | nil => rfl
    | cons c t =>
        refine List.dropWhile_cons_of_neg fun hc => ?_
        rw [htrim, List.cons_append] at hrest
        have hsame := List.dropWhile_idempotent isWhitespace s
        rw [← hrest, List.dropWhile_cons_of_pos hc] at hsame
        have hle := (List.dropWhile_sublist isWhitespace : List.Sublist _ (t ++ rest)).length_le
        rw [hsame, List.length_cons] at hle
        omega
  rw [trim, hfront]
  exact List.rdropWhile_idempotent isWhitespace _

/-- An object's text begins and ends with a brace. -/
structure IsObject (parser : JsonParser τ) (text : List Char) : Prop where
  value : parser.isValue text = true
  braces : ∃ inner, text = '{' :: inner ++ ['}']

theorem trim_object (h : IsObject parser obj) {w w' : List Char} (hw : Blank w) (hw' : Blank w') :
    trim (w ++ obj ++ w') = obj := by
  obtain ⟨inner, rfl⟩ := h.braces
  have hback : Blank w'.reverse := fun c hc => hw' c (List.mem_reverse.mp hc)
  rw [trim, List.append_assoc, List.dropWhile_append_of_pos hw, List.cons_append, List.cons_append,
    List.dropWhile_cons_of_neg (by decide), trimEnd, List.reverse_cons, List.reverse_append,
    List.append_assoc, List.dropWhile_append_of_pos hback, List.reverse_append]
  rw [List.reverse_singleton, List.singleton_append, List.cons_append,
    List.dropWhile_cons_of_neg (by decide)]
  simp

/-! ## The conditions -/

/-- The text holds one object: any other is part of it. -/
structure HoldsObject (parser : JsonParser τ) (raw pre obj post : List Char) : Prop where
  eq : raw = pre ++ obj ++ post
  object : IsObject parser obj
  only : ∀ pre' obj' post', raw = pre' ++ obj' ++ post' → IsObject parser obj' →
    pre.length ≤ pre'.length ∧ post.length ≤ post'.length

/-- There is no panic, and an object that stands alone in the text is returned. -/
structure Extracts (parser : JsonParser τ) (raw : List Char) : Prop where
  returns : (extractJson parser raw).isSome ∧ (parseJsonWithRetry parser raw).isSome
  object : ∀ pre obj post, HoldsObject parser raw pre obj post →
    (extractJson parser raw).map trim = some obj ∧
      ∀ x, parseJsonWithRetry parser raw = some (.ok x) ↔ parser.read obj = .ok x

/-- The marker opens a block, which a fence closes. -/
def Closed (marker raw : List Char) : Prop :=
  ∃ before block after, raw = before ++ marker ++ block ++ fence ++ after

/-- The block that the first marker opens holds the object and nothing else, and there
is no fence in the object. -/
def Encloses (marker raw pre obj post : List Char) : Prop :=
  ∃ before w w' after, pre = before ++ marker ++ w ∧ post = w' ++ fence ++ after ∧
    Blank w ∧ Blank w' ∧ ¬ fence <:+: obj ∧ First marker raw before (w ++ obj ++ post)

/-- The first that is looked for is around the object. -/
structure Clear (parser : JsonParser τ) (raw pre obj post : List Char) : Prop where
  whole : parser.isValue raw = true → Blank pre ∧ Blank post
  json : parser.isValue raw = false → Closed jsonFence raw → Encloses jsonFence raw pre obj post
  plain : parser.isValue raw = false → ¬ Closed jsonFence raw → Closed fence raw →
    Encloses fence raw pre obj post
  bare : parser.isValue raw = false → ¬ Closed fence raw → '{' ∉ pre ∧ '}' ∉ post

/-- All closing braces come before the opening ones, not right before them. -/
def Crossed (raw : List Char) : Prop :=
  ∃ before gap after, raw = before ++ '}' :: (gap ++ '{' :: after) ∧ gap ≠ [] ∧
    '{' ∉ before ∧ '{' ∉ gap ∧ '}' ∉ gap ∧ '}' ∉ after

/-- Nothing to panic at, and nothing in the way of an object. -/
structure Extractable (parser : JsonParser τ) (raw : List Char) : Prop where
  straight : parser.isValue raw = false → ¬ Closed fence raw → ¬ Crossed raw
  clear : ∀ pre obj post, HoldsObject parser raw pre obj post → Clear parser raw pre obj post

theorem closed_of_closed_json (h : Closed jsonFence raw) : Closed fence raw := by
  obtain ⟨before, block, after, rfl⟩ := h
  exact ⟨before, ['j', 's', 'o', 'n'] ++ block, after, by simp [jsonFence, fence]⟩

/-! ## Blocks -/

/-- A block is there exactly when the marker opens one that is closed. -/
theorem fencedBlock_cases {marker : List Char} {len : Nat} (hlen : size marker = len)
    (raw : List Char) :
    (fencedBlock marker len raw = some none ∧ ¬ Closed marker raw) ∨
      ∃ before rest block after, fencedBlock marker len raw = some (some (trim block)) ∧
        First marker raw before rest ∧ First fence rest block after := by
  subst hlen
  rw [fencedBlock]
  rcases find_cases marker raw with ⟨hnone, hnot⟩ | ⟨before, rest, hsome, hfirst⟩
  · rw [hnone]
    refine .inl ⟨rfl, fun ⟨before, block, after, h⟩ => hnot ⟨before, block ++ fence ++ after, ?_⟩⟩
    rw [h]
    simp
  · have hslice : sliceFrom raw (size before + size marker) = some rest := by
      rw [← size_append, hfirst.eq]
      exact sliceFrom_append _ _
    rw [hsome]
    dsimp only
    rw [hslice, Option.bind_eq_bind, Option.bind_some]
    rcases find_cases fence rest with ⟨hnone, hnot⟩ | ⟨block, after, hsome', hclose⟩
    · rw [hnone]
      refine .inl ⟨rfl, fun ⟨before', block, after, h⟩ => hnot ?_⟩
      -- the first marker is not behind this one, so the fence is behind it too
      have heq : raw = before' ++ marker ++ (block ++ fence ++ after) := by
        rw [h]
        simp
      have hle := hfirst.first _ _ heq
      obtain ⟨w, -, hrest⟩ := exists_append_of_length_le (hfirst.eq.symm.trans heq) (by
        rw [List.length_append, List.length_append]
        omega)
      exact ⟨w ++ block, after, by rw [hrest]; simp⟩
    · rw [hsome']
      dsimp only
      have hblock : sliceTo rest (size block) = some block := by
        rw [hclose.eq, List.append_assoc]
        exact sliceTo_append _ _
      rw [hblock]
      exact .inr ⟨before, rest, block, after, rfl, hfirst, hclose⟩

theorem HoldsObject.unique (h : HoldsObject parser raw pre obj post) {pre' post' : List Char}
    (heq : raw = pre' ++ obj ++ post') : pre' = pre ∧ post' = post := by
  obtain ⟨hpre, hpost⟩ := h.only pre' obj post' heq h.object
  have hboth := heq.symm.trans h.eq
  have hlen := congrArg List.length hboth
  simp only [List.length_append] at hlen
  rw [List.append_assoc, List.append_assoc] at hboth
  obtain ⟨hp, hrest⟩ := List.append_inj hboth (by omega)
  exact ⟨hp, (List.append_inj hrest rfl).2⟩

/-- An object that is what a part of the text trims to stands between whitespace there. -/
theorem HoldsObject.around (h : HoldsObject parser raw pre obj post) {s t u : List Char}
    (heq : raw = s ++ t ++ u) (htrim : trim t = obj) :
    ∃ w w', pre = s ++ w ∧ post = w' ++ u ∧ t = w ++ obj ++ w' ∧ Blank w ∧ Blank w' := by
  obtain ⟨w, w', ht, hw, hw'⟩ := trim_split t
  rw [htrim] at ht
  have hsplit : raw = (s ++ w) ++ obj ++ (w' ++ u) := by
    rw [heq, ht]
    simp
  obtain ⟨hpre, hpost⟩ := h.unique hsplit
  exact ⟨w, w', hpre.symm, hpost.symm, ht, hw, hw'⟩

/-- Neither whitespace nor the last brace of an object ends in a backtick. -/
theorem getLast_ne_backtick (h : IsObject parser obj) {w w' : List Char} (hw' : Blank w')
    {d : Char} (hd : (w ++ obj ++ w').getLast? = some d) : d ≠ '`' := by
  obtain ⟨inner, rfl⟩ := h.braces
  rintro rfl
  rw [List.getLast?_append] at hd
  cases hlast : w'.getLast? with
  | some c =>
      rw [hlast] at hd
      injection hd with hd
      subst hd
      have hblank := hw' _ (List.mem_of_getLast? hlast)
      revert hblank
      decide
  | none =>
      rw [hlast, List.getLast?_append, List.getLast?_append] at hd
      injection hd with hd
      revert hd
      decide

/-- The fence behind an object without a fence is the first. -/
theorem first_fence (h : IsObject parser obj) (hfence : ¬ fence <:+: obj) {w w' : List Char}
    (hw : Blank w) (hw' : Blank w') (after : List Char) :
    First fence (w ++ obj ++ w' ++ fence ++ after) (w ++ obj ++ w') after := by
  have hblank {s : List Char} (hs : Blank s) : ∀ c ∈ s, c ∉ fence := by
    intro c hc hmem
    have hws := hs c hc
    rw [show c = '`' by simpa [fence] using hmem] at hws
    revert hws
    decide
  have hbody : ¬ fence <:+: w ++ obj ++ w' := by
    intro hin
    rw [List.append_assoc] at hin
    have hback := infix_of_infix_append (by decide) (hblank hw) hin
    rw [← List.reverse_infix, List.reverse_append] at hback
    have hobj := infix_of_infix_append (by decide)
      (fun c hc => hblank hw' c (List.mem_reverse.mp hc)) hback
    exact hfence (List.reverse_infix.mp hobj)
  refine ⟨rfl, fun before' after' heq => ?_⟩
  by_contra hlt
  obtain ⟨m, hm, hrest⟩ := exists_append_of_length_le
    ((List.append_assoc ..).symm.trans (heq.symm.trans (List.append_assoc ..))) (by omega)
  have hlast (hd : (w ++ obj ++ w').getLast? = some '`') : False :=
    getLast_ne_backtick h hw' hd rfl
  rw [hm] at hbody hlt hlast
  rcases m with _ | ⟨a, _ | ⟨b, _ | ⟨c, m⟩⟩⟩
  · exact hlt (by rw [List.append_nil])
  · injection hrest with ha _
    subst ha
    exact hlast (by simp)
  · injection hrest with _ hrest
    injection hrest with hb _
    subst hb
    exact hlast (by simp)
  · injection hrest with ha hrest
    injection hrest with hb hrest
    injection hrest with hc _
    subst ha hb hc
    exact hbody ⟨before', m, by simp [fence]⟩

/-- What the first marker opens is the object exactly when it encloses it. -/
theorem trim_block_iff (h : HoldsObject parser raw pre obj post)
    {marker before rest block after : List Char} (hfirst : First marker raw before rest)
    (hclose : First fence rest block after) :
    trim block = obj ↔ Encloses marker raw pre obj post := by
  constructor
  · intro htrim
    have heq : raw = (before ++ marker) ++ block ++ (fence ++ after) := by
      rw [hfirst.eq, hclose.eq]
      simp
    obtain ⟨w, w', hpre, hpost, hblock, hw, hw'⟩ := h.around heq htrim
    have hrest : rest = w ++ obj ++ post := by
      rw [hclose.eq, hblock, hpost]
      simp
    rw [hrest] at hfirst
    refine ⟨before, w, w', after, hpre, by rw [hpost, List.append_assoc], hw, hw', ?_, hfirst⟩
    -- a fence in the object would close the block
    rintro ⟨x, y, hobj⟩
    have hearly := hclose.first (w ++ x) (y ++ w' ++ fence ++ after) (by
      rw [hclose.eq, hblock, ← hobj]
      simp)
    rw [hblock, ← hobj] at hearly
    simp only [List.length_append, fence, List.length_cons, List.length_nil] at hearly
    omega
  · rintro ⟨before', w, w', after', hpre, hpost, hw, hw', hfence, hfirst'⟩
    obtain ⟨-, hrest⟩ := hfirst.unique hfirst'
    have hfirstFence := first_fence h.object hfence hw hw' after'
    have hsame : rest = w ++ obj ++ w' ++ fence ++ after' := by
      rw [hrest, hpost]
      simp
    rw [← hsame] at hfirstFence
    rw [(hclose.unique hfirstFence).1]
    exact trim_object h.object hw hw'

/-! ## Braces -/

theorem last_unique {c : Char} {s t u v : List Char} (h : s ++ c :: t = u ++ c :: v) (ht : c ∉ t)
    (hv : c ∉ v) : s = u ∧ t = v := by
  have hsame := congrArg List.reverse h
  simp only [List.reverse_append, List.reverse_cons, List.append_assoc, List.singleton_append]
    at hsame
  obtain ⟨ht', hs'⟩ := (first_singleton_iff.mpr ⟨rfl, fun hc => ht (List.mem_reverse.mp hc)⟩).unique
    (first_singleton_iff.mpr ⟨hsame, fun hc => hv (List.mem_reverse.mp hc)⟩)
  exact ⟨List.reverse_inj.mp hs', List.reverse_inj.mp ht'⟩

/-- What is between the outer braces, and how there may be no such thing. -/
inductive Braced (raw : List Char) : Option (List Char) → Prop where
  | bare (h : '{' ∉ raw ∨ '}' ∉ raw) : Braced raw (some raw)
  | crossed (h : Crossed raw) : Braced raw none
  | within {before front mid rest after : List Char} (heq : raw = before ++ mid ++ after)
      (hopen : raw = before ++ '{' :: rest) (hbefore : '{' ∉ before)
      (hclose : raw = front ++ '}' :: after) (hafter : '}' ∉ after) : Braced raw (some mid)

theorem braced_cases (raw : List Char) : Braced raw (braced raw) := by
  rw [braced]
  rcases find_cases ['{'] raw with ⟨hnone, hnot⟩ | ⟨before, rest, hsome, hfirst⟩
  · rw [hnone]
    refine .bare (.inl fun hmem => hnot ?_)
    obtain ⟨s, t, hst⟩ := List.append_of_mem hmem
    exact ⟨s, t, by rw [hst]; simp⟩
  · obtain ⟨hopen, hbefore⟩ := first_singleton_iff.mp hfirst
    rw [hsome]
    rcases rfind_cases '}' raw with ⟨hnone, hnot⟩ | ⟨front, after, hsome', hclose, hafter⟩
    · rw [hnone]
      exact .bare (.inr hnot)
    · rw [hsome']
      dsimp only
      have hstop : size front + 1 = size (front ++ ['}']) := by
        rw [size_append]
        rfl
      have hclose' : raw = (front ++ ['}']) ++ after := by
        rw [hclose]
        simp
      rw [hstop]
      rcases Nat.lt_or_ge (size (front ++ ['}'])) (size before) with hlt | hle
      · -- the closing brace comes first, and not right before the opening one
        rw [slice_eq_none hlt]
        obtain ⟨gap, hgap, hrest⟩ :=
          exists_append_of_size_le (hclose'.symm.trans hopen) (Nat.le_of_lt hlt)
        refine .crossed ⟨front, gap, rest, ?_, ?_, ?_, ?_, ?_, ?_⟩
        · rw [hclose, hrest]
        · rintro rfl
          rw [hgap, List.append_nil] at hlt
          exact absurd hlt (Nat.lt_irrefl _)
        · exact fun hc => hbefore (by rw [hgap]; simp [hc])
        · exact fun hc => hbefore (by rw [hgap]; simp [hc])
        · exact fun hc => hafter (by rw [hrest]; simp [hc])
        · exact fun hc => hafter (by rw [hrest]; simp [hc])
      · obtain ⟨mid, hmid, -⟩ := exists_append_of_size_le (hopen.symm.trans hclose') hle
        have heq : raw = before ++ mid ++ after := by
          rw [hclose', hmid]
        rw [heq, hmid, slice_append, ← heq]
        exact .within heq hopen hbefore hclose hafter

theorem braced_eq_none (h : Crossed raw) : braced raw = none := by
  obtain ⟨a, gap, b, heq, hne, ha, hgap, hgap', hb⟩ := h
  have hbraced := braced_cases raw
  generalize braced raw = result at hbraced
  cases hbraced with
  | bare hnot =>
      rw [heq] at hnot
      simp at hnot
  | crossed _ => rfl
  | @within before front mid rest after hsplit hopen hbefore hclose hafter =>
      have hopen' : raw = (a ++ '}' :: gap) ++ '{' :: b := by
        rw [heq]
        simp
      have hnot : '{' ∉ a ++ '}' :: gap := by
        simp [ha, hgap]
      obtain ⟨rfl, -⟩ := (first_singleton_iff.mpr ⟨hopen, hbefore⟩).unique
        (first_singleton_iff.mpr ⟨hopen', hnot⟩)
      obtain ⟨-, rfl⟩ := last_unique (hclose.symm.trans heq) hafter (by simp [hgap', hb])
      -- the gap is in what stands before, and in what stands after
      have hlen := congrArg List.length (hsplit.symm.trans heq)
      simp only [List.length_append, List.length_cons] at hlen
      have hpos := List.length_pos_iff.mpr hne
      omega

/-- With an object in the text something is between the outer braces. It is the object
exactly when no brace opens before it and none closes after it. -/
theorem braced_object (h : HoldsObject parser raw pre obj post) :
    ∃ t, braced raw = some t ∧ (trim t = obj ↔ '{' ∉ pre ∧ '}' ∉ post) ∧
      (trim t = obj → t = obj) := by
  obtain ⟨inner, hobj⟩ := h.object.braces
  have hopen' : raw = pre ++ '{' :: (inner ++ '}' :: post) := by
    rw [h.eq, hobj]
    simp
  have hclose' : raw = (pre ++ '{' :: inner) ++ '}' :: post := by
    rw [h.eq, hobj]
    simp
  have hbraced := braced_cases raw
  generalize braced raw = result at hbraced
  cases hbraced with
  | bare hnot =>
      rw [hopen'] at hnot
      simp at hnot
  | crossed hcrossed =>
      obtain ⟨a, gap, b, heq, -, ha, hgap, -, hb⟩ := hcrossed
      have hfirst : First ['{'] raw (a ++ '}' :: gap) b :=
        first_singleton_iff.mpr ⟨by rw [heq]; simp, by simp [ha, hgap]⟩
      have hle := hfirst.first pre (inner ++ '}' :: post) (by rw [hopen']; simp)
      obtain ⟨w, -, hrest⟩ := exists_append_of_length_le
        (((List.append_assoc ..).symm.trans hfirst.eq.symm).trans hopen') hle
      -- so the closing brace of the object is behind all opening ones
      have hmem : '}' ∈ ['{'] ++ b := by
        rw [hrest]
        simp
      simp [hb] at hmem
  | @within before front mid rest after hsplit hopen hbefore hclose hafter =>
      have hmid (hp : '{' ∉ pre) (hq : '}' ∉ post) : mid = obj := by
        obtain ⟨rfl, -⟩ := (first_singleton_iff.mpr ⟨hopen, hbefore⟩).unique
          (first_singleton_iff.mpr ⟨hopen', hp⟩)
        obtain ⟨-, rfl⟩ := last_unique (hclose.symm.trans hclose') hafter hq
        have hboth := hsplit.symm.trans h.eq
        exact List.append_cancel_left (List.append_cancel_right hboth)
      have hnot (htrim : trim mid = obj) : '{' ∉ pre ∧ '}' ∉ post := by
        obtain ⟨w, w', rfl, rfl, -, hw, hw'⟩ := h.around hsplit htrim
        rw [List.mem_append, List.mem_append, not_or, not_or]
        exact ⟨⟨hbefore, fun hc => absurd (hw _ hc) (by decide)⟩,
          ⟨fun hc => absurd (hw' _ hc) (by decide), hafter⟩⟩
      have htrim := trim_object h.object blank_nil blank_nil
      rw [List.nil_append, List.append_nil] at htrim
      refine ⟨mid, rfl, ⟨hnot, fun ⟨hp, hq⟩ => ?_⟩, fun ht => hmid (hnot ht).1 (hnot ht).2⟩
      rw [hmid hp hq]
      exact htrim

theorem isSome_braced_iff : (braced raw).isSome ↔ ¬ Crossed raw := by
  constructor
  · intro hsome hcrossed
    rw [braced_eq_none hcrossed] at hsome
    cases hsome
  · intro hnot
    have hbraced := braced_cases raw
    generalize braced raw = result at hbraced ⊢
    cases hbraced with
    | bare _ => rfl
    | crossed h => exact absurd h hnot
    | within _ _ _ _ _ => rfl

/-! ## What is taken -/

/-- The four places a result is taken from, the first that is there. -/
inductive Taken (parser : JsonParser τ) (raw : List Char) : Option (List Char) → Prop where
  | whole (hvalue : parser.isValue raw = true) : Taken parser raw (some raw)
  | json {before rest block after : List Char} (hvalue : parser.isValue raw = false)
      (hfirst : First jsonFence raw before rest) (hclose : First fence rest block after) :
      Taken parser raw (some (trim block))
  | plain {before rest block after : List Char} (hvalue : parser.isValue raw = false)
      (hjson : ¬ Closed jsonFence raw) (hfirst : First fence raw before rest)
      (hclose : First fence rest block after) : Taken parser raw (some (trim block))
  | bare (hvalue : parser.isValue raw = false) (hopen : ¬ Closed fence raw) :
      Taken parser raw (braced raw)

theorem extractJson_taken (parser : JsonParser τ) (raw : List Char) :
    Taken parser raw (extractJson parser raw) := by
  rw [extractJson]
  split
  · next hvalue => exact .whole hvalue
  · next hvalue =>
      rw [Bool.not_eq_true] at hvalue
      rcases fencedBlock_cases (show size jsonFence = 7 from rfl) raw with
        ⟨hnone, hjson⟩ | ⟨before, rest, block, after, hsome, hfirst, hclose⟩
      · rw [hnone]
        rcases fencedBlock_cases (show size fence = 3 from rfl) raw with
          ⟨hnone', hopen⟩ | ⟨before, rest, block, after, hsome, hfirst, hclose⟩
        · rw [hnone']
          exact .bare hvalue hopen
        · rw [hsome]
          exact .plain hvalue hjson hfirst hclose
      · rw [hsome]
        exact .json hvalue hfirst hclose

theorem closed_of_first {marker before rest block after : List Char}
    (hfirst : First marker raw before rest) (hclose : First fence rest block after) :
    Closed marker raw :=
  ⟨before, block, after, by rw [hfirst.eq, hclose.eq]; simp⟩

/-- A panic is between braces only. -/
theorem isSome_extractJson_iff : (extractJson parser raw).isSome ↔
    (parser.isValue raw = false → ¬ Closed fence raw → ¬ Crossed raw) := by
  have htaken := extractJson_taken parser raw
  generalize extractJson parser raw = result at htaken ⊢
  cases htaken with
  | whole hvalue =>
      refine ⟨fun _ hnot => ?_, fun _ => rfl⟩
      rw [hvalue] at hnot
      cases hnot
  | json _ hfirst hclose =>
      exact ⟨fun _ _ hopen => absurd (closed_of_closed_json (closed_of_first hfirst hclose)) hopen,
        fun _ => rfl⟩
  | plain _ _ hfirst hclose =>
      exact ⟨fun _ _ hopen => absurd (closed_of_first hfirst hclose) hopen, fun _ => rfl⟩
  | bare hvalue hopen =>
      rw [isSome_braced_iff]
      exact ⟨fun h _ _ => h, fun h => h hvalue hopen⟩

/-- Each of the four conditions is the only one where it applies. -/
theorem clear_iff_whole (hvalue : parser.isValue raw = true) :
    Clear parser raw pre obj post ↔ Blank pre ∧ Blank post := by
  have hnot : ¬ parser.isValue raw = false := by
    rw [hvalue]
    exact Bool.noConfusion
  exact ⟨fun h => h.whole hvalue, fun h => ⟨fun _ => h, fun hf => absurd hf hnot,
    fun hf => absurd hf hnot, fun hf => absurd hf hnot⟩⟩

theorem clear_iff_json (hvalue : parser.isValue raw = false) (hclosed : Closed jsonFence raw) :
    Clear parser raw pre obj post ↔ Encloses jsonFence raw pre obj post :=
  ⟨fun h => h.json hvalue hclosed,
    fun h => ⟨fun ht => absurd (hvalue.symm.trans ht) Bool.noConfusion, fun _ _ => h,
      fun _ hopen => absurd hclosed hopen,
      fun _ hopen => absurd (closed_of_closed_json hclosed) hopen⟩⟩

theorem clear_iff_plain (hvalue : parser.isValue raw = false) (hjson : ¬ Closed jsonFence raw)
    (hclosed : Closed fence raw) :
    Clear parser raw pre obj post ↔ Encloses fence raw pre obj post :=
  ⟨fun h => h.plain hvalue hjson hclosed,
    fun h => ⟨fun ht => absurd (hvalue.symm.trans ht) Bool.noConfusion,
      fun _ hc => absurd hc hjson, fun _ _ _ => h, fun _ hopen => absurd hclosed hopen⟩⟩

theorem clear_iff_bare (hvalue : parser.isValue raw = false) (hopen : ¬ Closed fence raw) :
    Clear parser raw pre obj post ↔ '{' ∉ pre ∧ '}' ∉ post :=
  ⟨fun h => h.bare hvalue hopen,
    fun h => ⟨fun ht => absurd (hvalue.symm.trans ht) Bool.noConfusion,
      fun _ hc => absurd (closed_of_closed_json hc) hopen, fun _ _ hc => absurd hc hopen,
      fun _ _ => h⟩⟩

/-- The text itself is the object up to the whitespace around it. -/
theorem trim_raw_iff (h : HoldsObject parser raw pre obj post) :
    trim raw = obj ↔ Blank pre ∧ Blank post := by
  constructor
  · intro htrim
    obtain ⟨w, w', rfl, rfl, -, hw, hw'⟩ :=
      h.around (s := []) (u := []) (List.append_nil raw).symm htrim
    rw [List.append_nil]
    exact ⟨hw, hw'⟩
  · rintro ⟨hpre, hpost⟩
    rw [h.eq]
    exact trim_object h.object hpre hpost

/-- The object is what is taken exactly when what is looked for first is around it. -/
theorem extractJson_object_iff (h : HoldsObject parser raw pre obj post) :
    (extractJson parser raw).map trim = some obj ↔ Clear parser raw pre obj post := by
  have htaken := extractJson_taken parser raw
  generalize extractJson parser raw = result at htaken ⊢
  cases htaken with
  | whole hvalue =>
      rw [Option.map_some, Option.some_inj, clear_iff_whole hvalue]
      exact trim_raw_iff h
  | json hvalue hfirst hclose =>
      rw [Option.map_some, Option.some_inj, trim_trim,
        clear_iff_json hvalue (closed_of_first hfirst hclose)]
      exact trim_block_iff h hfirst hclose
  | plain hvalue hjson hfirst hclose =>
      rw [Option.map_some, Option.some_inj, trim_trim,
        clear_iff_plain hvalue hjson (closed_of_first hfirst hclose)]
      exact trim_block_iff h hfirst hclose
  | bare hvalue hopen =>
      obtain ⟨t, hsome, hiff, -⟩ := braced_object h
      rw [hsome, Option.map_some, Option.some_inj, clear_iff_bare hvalue hopen]
      exact hiff

theorem parseJsonWithRetry_ok_iff {t : List Char} (h : extractJson parser raw = some t) (x : τ) :
    parseJsonWithRetry parser raw = some (.ok x) ↔ parser.read t = .ok x := by
  rw [parseJsonWithRetry, h, Option.bind_eq_bind, Option.bind_some, Option.some_inj]
  cases parser.read t with
  | ok y => exact Iff.rfl
  | error e =>
      constructor
      · intro h
        injection h
      · intro h
        injection h

/-- And then it is what is read. -/
theorem read_object (h : HoldsObject parser raw pre obj post)
    (hobj : (extractJson parser raw).map trim = some obj) (x : τ) :
    parseJsonWithRetry parser raw = some (.ok x) ↔ parser.read obj = .ok x := by
  obtain ⟨t, hsome, htrim⟩ := Option.map_eq_some_iff.mp hobj
  rw [parseJsonWithRetry_ok_iff hsome]
  have htaken := extractJson_taken parser raw
  rw [hsome] at htaken
  generalize hresult : some t = result at htaken
  cases htaken with
  | whole hvalue =>
      injection hresult with ht
      subst ht
      rw [parser.trims _ x hvalue, htrim]
  | json _ _ _ =>
      injection hresult with ht
      rw [ht, trim_trim] at htrim
      rw [ht, htrim]
  | plain _ _ _ _ =>
      injection hresult with ht
      rw [ht, trim_trim] at htrim
      rw [ht, htrim]
  | bare _ _ =>
      obtain ⟨t', hsome', -, hsame⟩ := braced_object h
      rw [hsome'] at hresult
      injection hresult with ht
      rw [← ht] at hsame
      rw [hsame htrim]

theorem extracts_iff (parser : JsonParser τ) (raw : List Char) :
    Extracts parser raw ↔ Extractable parser raw := by
  constructor
  · intro h
    refine ⟨isSome_extractJson_iff.mp h.returns.1, fun pre obj post hobj => ?_⟩
    exact (extractJson_object_iff hobj).mp (h.object pre obj post hobj).1
  · intro h
    have hsome := isSome_extractJson_iff.mpr h.straight
    refine ⟨⟨hsome, ?_⟩, fun pre obj post hobj => ?_⟩
    · obtain ⟨t, ht⟩ := Option.isSome_iff_exists.mp hsome
      rw [parseJsonWithRetry, ht]
      rfl
    · have hfound := (extractJson_object_iff hobj).mpr (h.clear pre obj post hobj)
      exact ⟨hfound, read_object hobj hfound⟩

/-! ## Two texts -/

/-- A text with no brace outside the object holds it. -/
theorem holdsObject_of_bare (heq : raw = pre ++ obj ++ post) (h : IsObject parser obj)
    (hpre : '{' ∉ pre) (hpost : '}' ∉ post) : HoldsObject parser raw pre obj post := by
  obtain ⟨inner, hobj⟩ := h.braces
  refine ⟨heq, h, fun pre' obj' post' heq' h' => ?_⟩
  obtain ⟨inner', hobj'⟩ := h'.braces
  have hopen : First ['{'] raw pre (inner ++ '}' :: post) :=
    first_singleton_iff.mpr ⟨by rw [heq, hobj]; simp, hpre⟩
  have hclose : First ['}'] raw.reverse post.reverse (pre ++ '{' :: inner).reverse :=
    first_singleton_iff.mpr ⟨by rw [heq, hobj]; simp, fun hc => hpost (List.mem_reverse.mp hc)⟩
  have hle := hclose.first post'.reverse (pre' ++ '{' :: inner').reverse (by
    rw [heq', hobj']
    simp)
  rw [List.length_reverse, List.length_reverse] at hle
  exact ⟨hopen.first pre' (inner' ++ '}' :: post') (by rw [heq', hobj']; simp), hle⟩

/-- A parser that knows one value. -/
def onlyValue (value : List Char) : JsonParser Unit where
  isValue text := decide (trim text = value)
  read text := if trim text = value then .ok () else .error "expected value"
  trims text _ _ := by rw [trim_trim]

/-- The closing brace of an aside comes before an opening one; and an object has a fence in
a string. -/
theorem not_extracts :
    ¬ Extracts (onlyValue "\x7b\x7d".toList) "\x7d \x7b".toList ∧
      ¬ Extracts (onlyValue "\x7b\"a\":\"```\"\x7d".toList)
        "```json\n\x7b\"a\":\"```\"\x7d\n```".toList := by
  constructor
  · intro h
    have hsome := h.returns.1
    revert hsome
    decide
  · intro h
    have hobj : HoldsObject (onlyValue "\x7b\"a\":\"```\"\x7d".toList)
        "```json\n\x7b\"a\":\"```\"\x7d\n```".toList "```json\n".toList
        "\x7b\"a\":\"```\"\x7d".toList "\n```".toList :=
      holdsObject_of_bare (by decide) ⟨by decide, "\"a\":\"```\"".toList, by decide⟩ (by decide)
        (by decide)
    have hfound := (h.object _ _ _ hobj).1
    revert hfound
    decide

end Pandaria.Comp
