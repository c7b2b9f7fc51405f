import Mathlib.Data.List.DropRight
import Pandaria.Ai.Repair
import Pandaria.Lib.Run

/-!
# What the repair of JSON keeps

A text is taken as the tokens of JSON, with space between them. Outside strings
the scan drops the comma before a closing bracket and leaves the rest. It finds
its way through a string as long as the last character in it is no backslash,
and the brackets it adds are right as long as those in strings make no
difference. The second is what decides a text in which it has not lost its way.
-/

namespace Pandaria.Ai.Repair

/-! ## Tokens -/

inductive Shape where
  | array
  | object
deriving DecidableEq

def Shape.left : Shape → Char
  | array => '['
  | object => '\x7b'

def Shape.right : Shape → Char
  | array => ']'
  | object => '\x7d'

/-- What JSON takes for whitespace. -/
abbrev Space := { c : Char // c ∈ [' ', '\t', '\n', '\r'] }

theorem Space.cases {p : Char → Prop} (c : Space) (hspace : p ' ') (htab : p '\t')
    (hnewline : p '\n') (hreturn : p '\r') : p c.val := by
  obtain ⟨c, hc⟩ := c
  simp only [List.mem_cons, List.not_mem_nil, or_false] at hc
  obtain rfl | rfl | rfl | rfl := hc
  · exact hspace
  · exact htab
  · exact hnewline
  · exact hreturn

/-- A character numbers, `true`, `false` and `null` are made of, as far as it
matters here. -/
def isScalar (c : Char) : Bool :=
  0x20 < c.toNat && c.toNat < 0x7f &&
    !List.contains ['"', singleQuote, ',', ':', '[', ']', '\x7b', '\x7d'] c

abbrev Scalar := { t : List Char // t ≠ [] ∧ ∀ c ∈ t, isScalar c = true }

/-- A string is the text between its quotes. -/
inductive Token where
  | space (c : Space)
  | opening (s : Shape)
  | closing (s : Shape)
  | comma
  | colon
  | key (body : List Char)
  | str (body : List Char)
  | scalar (text : Scalar)
deriving DecidableEq

def Token.chars : Token → List Char
  | space c => [c.val]
  | opening s => [s.left]
  | closing s => [s.right]
  | comma => [',']
  | colon => [':']
  | key body => '"' :: body ++ ['"']
  | str body => '"' :: body ++ ['"']
  | scalar text => text.val

def chars (T : List Token) : List Char := T.flatMap Token.chars

def Token.isSpace : Token → Bool
  | space _ => true
  | _ => false

def noSpace (T : List Token) : List Token := T.filter fun t => !t.isSpace

/-- A bracket is closed next. -/
def closes : List Token → Bool
  | .space _ :: rest => closes rest
  | .closing _ :: _ => true
  | _ => false

/-- Without the commas before closing brackets. -/
def clean : List Token → List Token
  | [] => []
  | .comma :: rest => if closes rest then clean rest else .comma :: clean rest
  | t :: rest => t :: clean rest

/-- The brackets that are open, the last of them in front. -/
def openShapes (st : List Shape) : List Token → List Shape
  | [] => st
  | .opening s :: rest => openShapes (s :: st) rest
  | .closing _ :: rest => openShapes st.tail rest
  | _ :: rest => openShapes st rest

/-! ## Strings -/

/-- A quote comes after a backslash only; `prev` is what comes before. -/
def Guarded : Option Char → List Char → Prop
  | _, [] => True
  | prev, c :: cs => (c = '"' → prev = some '\\') ∧ Guarded (some c) cs

def lastOr : Option Char → List Char → Option Char
  | prev, [] => prev
  | _, c :: cs => lastOr (some c) cs

/-- The text of a string that has ended on something else than a backslash. -/
def Plain (body : List Char) : Prop := lastOr (some '"') body ≠ some '\\'

/-- No string ends on a backslash. -/
def Ends (T : List Token) : Prop := ∀ body, .key body ∈ T ∨ .str body ∈ T → Plain body

/-! ## Serialisations -/

/-- What is read of the text of a string, of that of a scalar, and of the fields
of an object in the order in which they stand. -/
structure Leaves where
  body : List Char → String → Prop
  scalar : Scalar → Json → Prop
  object : List (String × Json) → Json
  guarded : ∀ b s, body b s → Guarded (some '"') b

inductive Part where
  | value (v : Json)
  | items (vs : List Json)
  | fields (fs : List (String × Json))

/-- The tokens of a value, of the elements of an array and of the fields of an object. -/
inductive Ser (g : Leaves) : Part → List Token → Prop where
  | scalar {t : Scalar} {v : Json} (h : g.scalar t v) : Ser g (.value v) [.scalar t]
  | str {b : List Char} {s : String} (h : g.body b s) : Ser g (.value (.str s)) [.str b]
  | arr {vs : List Json} {T : List Token} (h : Ser g (.items vs) T) :
      Ser g (.value (.arr vs)) (.opening .array :: (T ++ [.closing .array]))
  | obj {fs : List (String × Json)} {T : List Token} (h : Ser g (.fields fs) T) :
      Ser g (.value (g.object fs)) (.opening .object :: (T ++ [.closing .object]))
  | noItems : Ser g (.items []) []
  | item {v : Json} {T : List Token} (h : Ser g (.value v) T) : Ser g (.items [v]) T
  | items {v w : Json} {ws : List Json} {T R : List Token} (h : Ser g (.value v) T)
      (hs : Ser g (.items (w :: ws)) R) : Ser g (.items (v :: w :: ws)) (T ++ .comma :: R)
  | noFields : Ser g (.fields []) []
  | field {b : List Char} {k : String} {v : Json} {T : List Token} (hk : g.body b k)
      (h : Ser g (.value v) T) : Ser g (.fields [(k, v)]) (.key b :: .colon :: T)
  | fields {b : List Char} {k : String} {v : Json} {f : String × Json}
      {fs : List (String × Json)} {T R : List Token} (hk : g.body b k) (h : Ser g (.value v) T)
      (hs : Ser g (.fields (f :: fs)) R) :
      Ser g (.fields ((k, v) :: f :: fs)) (.key b :: .colon :: (T ++ .comma :: R))

/-- Fields with a comma after each of them. -/
inductive Done (g : Leaves) : List (String × Json) → List Token → Prop where
  | nil : Done g [] []
  | cons {b : List Char} {k : String} {v : Json} {fs : List (String × Json)} {T R : List Token}
      (hk : g.body b k) (h : Ser g (.value v) T) (hs : Done g fs R) :
      Done g ((k, v) :: fs) (.key b :: .colon :: (T ++ .comma :: R))

/-- The start of an object, up to a string in the value of the field `k`: the
fields `done` are complete, and the string starts with `b`. -/
inductive InValue (g : Leaves) (done : List (String × Json)) (k : String) (b : List Char) :
    List Token → Prop where
  | mk {D inner post : List Token} {kb rest : List Char} {v : Json} (hdone : Done g done D)
      (hk : g.body kb k) (h : Ser g (.value v) (inner ++ .str (b ++ rest) :: post)) :
      InValue g done k b (.opening .object :: (D ++ .key kb :: .colon :: inner))

/-! ## What is relied on -/

def IsCloser (c : Char) : Prop := c = ']' ∨ c = '\x7d'

/-- `serde_json` reads the tokens, with any space between them. It takes no comma
before a closing bracket, and nothing but space after the value. -/
structure Reads (serde : Serde) (g : Leaves) (core : List Token) : Prop where
  accepts : ∀ T v, noSpace T = core → Ser g (.value v) core →
    serde.fromStr (String.ofList (chars T)) = .ok v
  strict : ∀ T v, clean (noSpace T) = core → noSpace T ≠ core →
    serde.fromStr (String.ofList (chars T)) ≠ .ok v
  ends : ∀ T cs v, noSpace T = core → cs ≠ [] → (∀ c ∈ cs, IsCloser c) →
    serde.fromStr (String.ofList (chars T ++ cs)) ≠ .ok v

/-- It takes no text that ends in a string. A text with one more quote and
brackets is taken only if what is in the quotes is a string and the brackets
close those that are open. -/
structure Unfinished (serde : Serde) (g : Leaves) (pre : List Token) (b : List Char) : Prop where
  unclosed : ∀ T v, noSpace T = pre → serde.fromStr (String.ofList (chars T ++ '"' :: b)) ≠ .ok v
  closed : ∀ T cs v, noSpace T = pre → (∀ c ∈ cs, IsCloser c) →
    serde.fromStr (String.ofList (chars T ++ '"' :: b ++ '"' :: cs)) = .ok v →
    (∃ s, g.body b s) ∧ cs = (openShapes [] pre).map Shape.right

/-! ## The scan -/

theorem chars_cons (t : Token) (T : List Token) : chars (t :: T) = t.chars ++ chars T :=
  List.flatMap_cons

theorem chars_append (T R : List Token) : chars (T ++ R) = chars T ++ chars R :=
  List.flatMap_append

theorem Guarded.of_append {prev : Option Char} {a b : List Char} (h : Guarded prev (a ++ b)) :
    Guarded prev a := by
  induction a generalizing prev with
  | nil => trivial
  | cons c a ih => exact ⟨h.1, ih h.2⟩

theorem scan_in (prev : Option Char) (q c : Char) (rest : List Char) :
    scan prev (some q) (c :: rest) =
      if c = q ∧ prev ≠ some '\\' then '"' :: scan (some c) none rest
      else c :: scan (some c) (some q) rest := rfl

theorem scan_out (prev : Option Char) (c : Char) (rest : List Char) :
    scan prev none (c :: rest) =
      if c = '"' ∨ c = singleQuote then '"' :: scan (some c) (some c) rest
      else if c = ',' then
        if closesNext rest then scan (some c) none rest else c :: scan (some c) none rest
      else if isControl c && !isWhitespace c && c ≠ '\n' && c ≠ '\r' && c ≠ '\t' then
        scan (some c) none rest
      else c :: scan (some c) none rest := rfl

/-- Outside a string the character before makes no difference. -/
theorem scan_prev (prev : Option Char) (text : List Char) :
    scan prev none text = scan none none text := by
  cases text with
  | nil => rfl
  | cons c rest => rfl

/-- Through a string to its closing quote. -/
theorem scan_string {prev : Option Char} {body : List Char} (hg : Guarded prev body)
    (hlast : lastOr prev body ≠ some '\\') (rest : List Char) :
    scan prev (some '"') (body ++ '"' :: rest) = body ++ '"' :: scan none none rest := by
  induction body generalizing prev with
  | nil =>
      show scan prev (some '"') ('"' :: rest) = '"' :: scan none none rest
      rw [scan_in, if_pos ⟨rfl, hlast⟩, scan_prev]
  | cons c body ih =>
      rw [List.cons_append, scan_in, if_neg (fun h => h.2 (hg.1 h.1)), ih hg.2 hlast]
      rfl

/-- And to the end of the text, where it is closed. -/
theorem scan_unclosed {prev : Option Char} {body : List Char} (hg : Guarded prev body) :
    scan prev (some '"') body = body ++ ['"'] := by
  induction body generalizing prev with
  | nil => rfl
  | cons c body ih =>
      rw [scan_in, if_neg (fun h => h.2 (hg.1 h.1)), ih hg.2]
      rfl

theorem scan_opening (body : List Char) :
    scan none none ('"' :: body) = '"' :: scan (some '"') (some '"') body := by
  simp [scan]

/-- Everything but quotes, commas and control characters. -/
def Kept (c : Char) : Prop :=
  c ≠ '"' ∧ c ≠ singleQuote ∧ c ≠ ',' ∧
    (isControl c && !isWhitespace c && c ≠ '\n' && c ≠ '\r' && c ≠ '\t') = false

theorem scan_kept {c : Char} (h : Kept c) (rest : List Char) :
    scan none none (c :: rest) = c :: scan none none rest := by
  obtain ⟨hquote, hsingle, hcomma, hcontrol⟩ := h
  have hstring : ¬ (c = '"' ∨ c = singleQuote) := by
    intro h
    exact h.elim hquote hsingle
  rw [scan_out, if_neg hstring, if_neg hcomma, if_neg (ne_true_of_eq_false hcontrol), scan_prev]

theorem scan_keptAll {text : List Char} (h : ∀ c ∈ text, Kept c) (rest : List Char) :
    scan none none (text ++ rest) = text ++ scan none none rest := by
  induction text with
  | nil => rfl
  | cons c text ih =>
      rw [List.cons_append, scan_kept (h c List.mem_cons_self),
        ih fun d hd => h d (List.mem_cons_of_mem c hd)]
      rfl

theorem scan_comma (rest : List Char) :
    scan none none (',' :: rest) =
      if closesNext rest then scan none none rest else ',' :: scan none none rest := by
  have hsingle : ¬ (',' = '"' ∨ ',' = singleQuote) := by decide
  rw [scan_out, if_neg hsingle, if_pos rfl, scan_prev]

instance (c : Char) : Decidable (Kept c) := inferInstanceAs (Decidable (_ ∧ _ ∧ _ ∧ _))

theorem kept_space (c : Space) : Kept c.val :=
  Space.cases c (by decide) (by decide) (by decide) (by decide)

theorem kept_scalar {c : Char} (h : isScalar c = true) : Kept c := by
  simp only [isScalar, Bool.and_eq_true, decide_eq_true_eq, Bool.not_eq_true',
    List.contains_eq_mem, decide_eq_false_iff_not, List.mem_cons, not_or] at h
  obtain ⟨⟨hlow, hhigh⟩, hquote, hsingle, hcomma, -⟩ := h
  refine ⟨hquote, hsingle, hcomma, ?_⟩
  have hcontrol : isControl c = false := by
    simp only [isControl, Bool.or_eq_false_iff, Bool.and_eq_false_iff, decide_eq_false_iff_not]
    omega
  rw [hcontrol]
  rfl

theorem kept_shape (s : Shape) : Kept s.left ∧ Kept s.right := by
  cases s with
  | array => decide
  | object => decide

theorem kept_colon : Kept ':' := by decide

/-! ### Tokens -/

theorem isWhitespace_space (c : Space) : isWhitespace c.val = true :=
  Space.cases (p := fun c => isWhitespace c = true) c
    (by decide) (by decide) (by decide) (by decide)

theorem not_whitespace_of_isScalar {c : Char} (h : isScalar c = true) : isWhitespace c = false := by
  simp only [isScalar, Bool.and_eq_true, decide_eq_true_eq] at h
  simp [isWhitespace]
  omega

theorem not_bracket_of_isScalar {c : Char} (h : isScalar c = true) :
    c ≠ '[' ∧ c ≠ ']' ∧ c ≠ '\x7b' ∧ c ≠ '\x7d' := by
  simp only [isScalar, Bool.and_eq_true, decide_eq_true_eq, Bool.not_eq_true',
    List.contains_eq_mem, decide_eq_false_iff_not, List.mem_cons, not_or] at h
  obtain ⟨-, -, -, -, -, hopen, hclose, hleft, hright, -⟩ := h
  exact ⟨hopen, hclose, hleft, hright⟩

/-- Where no bracket is closed after them, a bracket is closed next in the text
exactly when it is in the tokens. -/
theorem closesNext_chars {rest : List Char} (hrest : closesNext rest = false) (T : List Token) :
    closesNext (chars T ++ rest) = closes T := by
  induction T with
  | nil => exact hrest
  | cons t T ih =>
      rw [chars_cons, List.append_assoc]
      cases t with
      | space c =>
          show closesNext (c.val :: (chars T ++ rest)) = closes T
          rw [← ih, closesNext, List.dropWhile_cons, if_pos (isWhitespace_space c)]
          rfl
      | opening s =>
          cases s with
          | array => rfl
          | object => rfl
      | closing s =>
          cases s with
          | array => rfl
          | object => rfl
      | comma => rfl
      | colon => rfl
      | key body => rfl
      | str body => rfl
      | scalar t =>
          obtain ⟨t, hne, hall⟩ := t
          obtain ⟨c, t, rfl⟩ := List.exists_cons_of_ne_nil hne
          have hc := hall c List.mem_cons_self
          have hblank := not_whitespace_of_isScalar hc
          obtain ⟨-, hclose, -, hright⟩ := not_bracket_of_isScalar hc
          show closesNext (c :: (t ++ (chars T ++ rest))) = false
          simp [closesNext, hblank, hclose, hright]

/-- Through tokens none of whose strings ends on a backslash. -/
theorem scan_chars {T : List Token} {rest : List Char} (hrest : closesNext rest = false)
    (hends : Ends T) (hguard : ∀ b, .key b ∈ T ∨ .str b ∈ T → Guarded (some '"') b) :
    scan none none (chars T ++ rest) = chars (clean T) ++ scan none none rest := by
  induction T with
  | nil => rfl
  | cons t T ih =>
      have ih := ih (fun b hb => hends b (hb.imp (List.mem_cons_of_mem t) (List.mem_cons_of_mem t)))
        (fun b hb => hguard b (hb.imp (List.mem_cons_of_mem t) (List.mem_cons_of_mem t)))
      have hkept (ht : clean (t :: T) = t :: clean T) (h : ∀ c ∈ t.chars, Kept c) :
          scan none none (chars (t :: T) ++ rest) =
            chars (clean (t :: T)) ++ scan none none rest := by
        rw [ht, chars_cons, chars_cons, List.append_assoc, scan_keptAll h, ih, List.append_assoc]
      have hstring (b : List Char) (ht : clean (t :: T) = t :: clean T)
          (hchars : t.chars = '"' :: b ++ ['"']) (hb : .key b ∈ t :: T ∨ .str b ∈ t :: T) :
          scan none none (chars (t :: T) ++ rest) =
            chars (clean (t :: T)) ++ scan none none rest := by
        rw [ht, chars_cons, chars_cons, hchars, List.append_assoc, List.append_assoc,
          List.cons_append, scan_opening, List.singleton_append, scan_string (hguard b hb)
          (hends b hb), ih]
        simp
      cases t with
      | space c => exact hkept rfl (by simpa [Token.chars] using kept_space c)
      | opening s => exact hkept rfl (by simpa [Token.chars] using (kept_shape s).1)
      | closing s => exact hkept rfl (by simpa [Token.chars] using (kept_shape s).2)
      | colon => exact hkept rfl (by simpa [Token.chars] using kept_colon)
      | scalar t => exact hkept rfl fun c hc => kept_scalar (t.property.2 c hc)
      | key b => exact hstring b rfl rfl (.inl List.mem_cons_self)
      | str b => exact hstring b rfl rfl (.inr List.mem_cons_self)
      | comma =>
          show scan none none (',' :: (chars T ++ rest)) = _
          rw [scan_comma, closesNext_chars hrest, clean]
          split
          · exact ih
          · rw [ih]
            rfl

/-! ### Space -/

theorem closes_noSpace (T : List Token) : closes (noSpace T) = closes T := by
  induction T with
  | nil => rfl
  | cons t T ih =>
      cases t with
      | space c => exact ih
      | opening | closing | comma | colon | key | str | scalar => rfl

theorem noSpace_clean (T : List Token) : noSpace (clean T) = clean (noSpace T) := by
  induction T with
  | nil => rfl
  | cons t T ih =>
      cases t with
      | comma =>
          show noSpace (if closes T then clean T else .comma :: clean T) =
            if closes (noSpace T) then clean (noSpace T) else .comma :: clean (noSpace T)
          rw [closes_noSpace]
          split
          · exact ih
          · exact congrArg (Token.comma :: ·) ih
      | space c => exact ih
      | opening | closing | colon | key | str | scalar => exact congrArg (List.cons _) ih

theorem mem_noSpace {t : Token} (h : t.isSpace = false) {T : List Token} :
    t ∈ noSpace T ↔ t ∈ T := by
  simp [noSpace, List.mem_filter, h]

theorem mem_clean {t : Token} (h : t ≠ .comma) {T : List Token} : t ∈ clean T ↔ t ∈ T := by
  induction T with
  | nil => rfl
  | cons u T ih =>
      cases u with
      | comma =>
          rw [clean, List.mem_cons]
          split
          · simp [ih, h]
          · simp [ih]
      | space | opening | closing | colon | key | str | scalar =>
          rw [clean, List.mem_cons, List.mem_cons, ih]
          simp

theorem ends_noSpace {T : List Token} : Ends (noSpace T) ↔ Ends T := by
  have hkey (b : List Char) : .key b ∈ noSpace T ↔ .key b ∈ T := mem_noSpace rfl
  have hstr (b : List Char) : .str b ∈ noSpace T ↔ .str b ∈ T := mem_noSpace rfl
  simp only [Ends, hkey, hstr]

theorem eq_space_of_isSpace {t : Token} (h : t.isSpace = true) : ∃ c, t = .space c := by
  cases t with
  | space c => exact ⟨c, rfl⟩
  | opening | closing | comma | colon | key | str | scalar => cases h

/-- Every token but space starts and ends on something else. -/
theorem chars_ends {t : Token} (h : t.isSpace = false) :
    (∃ c cs, t.chars = c :: cs ∧ isWhitespace c = false) ∧
      ∃ c cs, t.chars = cs ++ [c] ∧ isWhitespace c = false := by
  cases t with
  | space c => cases h
  | opening s =>
      cases s with
      | array => exact ⟨⟨_, [], rfl, by decide⟩, _, [], rfl, by decide⟩
      | object => exact ⟨⟨_, [], rfl, by decide⟩, _, [], rfl, by decide⟩
  | closing s =>
      cases s with
      | array => exact ⟨⟨_, [], rfl, by decide⟩, _, [], rfl, by decide⟩
      | object => exact ⟨⟨_, [], rfl, by decide⟩, _, [], rfl, by decide⟩
  | comma => exact ⟨⟨_, [], rfl, by decide⟩, _, [], rfl, by decide⟩
  | colon => exact ⟨⟨_, [], rfl, by decide⟩, _, [], rfl, by decide⟩
  | key b => exact ⟨⟨_, _, rfl, by decide⟩, '"', '"' :: b, rfl, by decide⟩
  | str b => exact ⟨⟨_, _, rfl, by decide⟩, '"', '"' :: b, rfl, by decide⟩
  | scalar t =>
      obtain ⟨t, hne, hall⟩ := t
      constructor
      · obtain ⟨c, t, rfl⟩ := List.exists_cons_of_ne_nil hne
        exact ⟨c, t, rfl, not_whitespace_of_isScalar (hall c List.mem_cons_self)⟩
      · obtain ⟨t, c, rfl⟩ := List.eq_nil_or_concat t |>.resolve_left hne
        have hc := hall c (by simp)
        exact ⟨c, t, by simp [Token.chars], not_whitespace_of_isScalar hc⟩

/-- What is trimmed at the start is space between tokens. -/
theorem trimStart_chars {rest : List Char} (hrest : rest.dropWhile isWhitespace = rest)
    (T : List Token) :
    (chars T ++ rest).dropWhile isWhitespace = chars (T.dropWhile Token.isSpace) ++ rest := by
  induction T with
  | nil => exact hrest
  | cons t T ih =>
      cases ht : t.isSpace with
      | true =>
          obtain ⟨c, rfl⟩ := eq_space_of_isSpace ht
          rw [List.dropWhile_cons_of_pos ht, ← ih]
          exact List.dropWhile_cons_of_pos (isWhitespace_space c)
      | false =>
          obtain ⟨⟨c, cs, hchars, hc⟩, -⟩ := chars_ends ht
          rw [List.dropWhile_cons_of_neg (by simp [ht]), chars_cons, hchars, List.append_assoc,
            List.cons_append, List.dropWhile_cons_of_neg (by simp [hc])]

theorem trimEnd_chars (T : List Token) :
    trimEnd (chars T) = chars (T.rdropWhile Token.isSpace) := by
  induction T using List.reverseRecOn with
  | nil => rfl
  | append_singleton T t ih =>
      cases ht : t.isSpace with
      | true =>
          obtain ⟨c, rfl⟩ := eq_space_of_isSpace ht
          rw [List.rdropWhile_concat_pos _ _ _ ht, ← ih, chars_append]
          exact List.rdropWhile_concat_pos _ _ _ (isWhitespace_space c)
      | false =>
          obtain ⟨-, c, cs, hchars, hc⟩ := chars_ends ht
          rw [List.rdropWhile_concat_neg _ _ _ (by simp [ht]), chars_append]
          show List.rdropWhile isWhitespace (chars T ++ (t.chars ++ [])) =
            chars T ++ (t.chars ++ [])
          rw [hchars, List.append_nil, ← List.append_assoc]
          exact List.rdropWhile_concat_neg _ _ _ (by simp [hc])

theorem noSpace_dropWhile (T : List Token) : noSpace (T.dropWhile Token.isSpace) = noSpace T := by
  induction T with
  | nil => rfl
  | cons t T ih =>
      cases ht : t.isSpace with
      | true =>
          rw [List.dropWhile_cons_of_pos ht, ih, noSpace, noSpace, List.filter_cons_of_neg]
          simp [ht]
      | false => rw [List.dropWhile_cons_of_neg (by simp [ht])]

theorem noSpace_rdropWhile (T : List Token) :
    noSpace (T.rdropWhile Token.isSpace) = noSpace T := by
  induction T using List.reverseRecOn with
  | nil => rfl
  | append_singleton T t ih =>
      cases ht : t.isSpace with
      | true =>
          rw [List.rdropWhile_concat_pos _ _ _ ht, ih, noSpace, noSpace, List.filter_append]
          simp [ht]
      | false => rw [List.rdropWhile_concat_neg _ _ _ (by simp [ht])]

/-- The tokens of a trimmed text. -/
def trimmed (T : List Token) : List Token :=
  (T.dropWhile Token.isSpace).rdropWhile Token.isSpace

theorem noSpace_trimmed (T : List Token) : noSpace (trimmed T) = noSpace T := by
  rw [trimmed, noSpace_rdropWhile, noSpace_dropWhile]

theorem trim_chars (T : List Token) : trim (chars T) = chars (trimmed T) := by
  have hstart := @trimStart_chars [] rfl T
  rw [List.append_nil, List.append_nil] at hstart
  rw [trim, hstart, trimEnd_chars, trimmed]

/-! ### Brackets -/

def IsBracket (c : Char) : Prop := c = '[' ∨ c = ']' ∨ c = '\x7b' ∨ c = '\x7d'

theorem pushBracket_of_not {c : Char} (h : ¬ IsBracket c) (st : List Char) :
    pushBracket st c = st := by
  simp only [IsBracket, not_or] at h
  obtain ⟨hopen, hclose, hleft, hright⟩ := h
  simp [pushBracket, hopen, hclose, hleft, hright]

theorem foldl_pushBracket_of_not {text : List Char} (h : ∀ c ∈ text, ¬ IsBracket c)
    (st : List Char) : text.foldl pushBracket st = st := by
  induction text with
  | nil => rfl
  | cons c text ih =>
      rw [List.foldl_cons, pushBracket_of_not (h c List.mem_cons_self)]
      exact ih fun d hd => h d (List.mem_cons_of_mem c hd)

theorem not_bracket_of_whitespace {c : Char} (h : isWhitespace c = true) : ¬ IsBracket c := by
  rintro (rfl | rfl | rfl | rfl)
  all_goals exact absurd h (by decide)

theorem openBrackets_trimEnd (text rest : List Char) (st : List Char) :
    (text ++ trimEnd rest).foldl pushBracket st = (text ++ rest).foldl pushBracket st := by
  have hsplit : trimEnd rest ++ rest.rtakeWhile isWhitespace = rest :=
    List.rdropWhile_append_rtakeWhile
  have hblank : ∀ c ∈ rest.rtakeWhile isWhitespace, ¬ IsBracket c := fun c hc =>
    not_bracket_of_whitespace (List.mem_rtakeWhile_imp hc)
  rw [← congrArg (text ++ ·) hsplit, ← List.append_assoc, List.foldl_append (l := _ ++ _),
    foldl_pushBracket_of_not hblank]

theorem foldl_dropSpace (T : List Token) (rest : List Char) (st : List Char) :
    (chars (T.dropWhile Token.isSpace) ++ rest).foldl pushBracket st =
      (chars T ++ rest).foldl pushBracket st := by
  induction T with
  | nil => rfl
  | cons t T ih =>
      cases t with
      | space c =>
          have hc := not_bracket_of_whitespace (isWhitespace_space c)
          show (chars (T.dropWhile Token.isSpace) ++ rest).foldl pushBracket st =
            (c.val :: (chars T ++ rest)).foldl pushBracket st
          rw [ih, List.foldl_cons, pushBracket_of_not hc]
      | opening | closing | comma | colon | key | str | scalar => rfl

/-- Commas are no brackets. -/
theorem foldl_clean (T : List Token) (rest : List Char) (st : List Char) :
    (chars (clean T) ++ rest).foldl pushBracket st = (chars T ++ rest).foldl pushBracket st := by
  induction T generalizing st with
  | nil => rfl
  | cons t T ih =>
      have hsame (ht : clean (t :: T) = t :: clean T) :
          (chars (clean (t :: T)) ++ rest).foldl pushBracket st =
            (chars (t :: T) ++ rest).foldl pushBracket st := by
        rw [ht, chars_cons, chars_cons, List.append_assoc, List.append_assoc, List.foldl_append,
          List.foldl_append (l := t.chars), ih]
      cases t with
      | comma =>
          rw [clean]
          split
          · have hcomma : ¬ IsBracket ',' := by
              unfold IsBracket
              decide
            rw [ih, chars_cons]
            show _ = (',' :: (chars T ++ rest)).foldl pushBracket st
            rw [List.foldl_cons, pushBracket_of_not hcomma]
          · rw [chars_cons, chars_cons, List.append_assoc, List.append_assoc, List.foldl_append,
              List.foldl_append (l := Token.comma.chars), ih]
      | space | opening | closing | colon | key | str | scalar => exact hsame rfl

theorem openBrackets_trimmed (T : List Token) :
    openBrackets (chars (clean (trimmed T))) = openBrackets (chars T) := by
  have hclean := foldl_clean (trimmed T) [] []
  have hend := openBrackets_trimEnd [] (chars (T.dropWhile Token.isSpace)) []
  have hstart := foldl_dropSpace T [] []
  rw [trimEnd_chars, List.nil_append, List.nil_append] at hend
  simp only [List.append_nil] at hclean hstart
  exact hclean.trans (hend.trans hstart)

/-- The same for a text that ends in a string, once that is closed. -/
theorem openBrackets_cut (P : List Token) (b : List Char) :
    openBrackets (chars (clean (P.dropWhile Token.isSpace)) ++ ('"' :: trimEnd b ++ ['"'])) =
      openBrackets (chars P ++ '"' :: b) := by
  have hquote : ¬ IsBracket '"' := by
    unfold IsBracket
    decide
  have hend := openBrackets_trimEnd (chars P ++ ['"']) b []
  rw [openBrackets, foldl_clean, foldl_dropSpace, ← List.append_assoc, List.foldl_append,
    List.foldl_cons, pushBracket_of_not hquote, List.foldl_nil]
  simpa [openBrackets] using hend

theorem mem_openBrackets (text : List Char) : ∀ c ∈ openBrackets text, c = '[' ∨ c = '\x7b' := by
  have hstep (st : List Char) (c : Char) (h : ∀ d ∈ st, d = '[' ∨ d = '\x7b') :
      ∀ d ∈ pushBracket st c, d = '[' ∨ d = '\x7b' := by
    have htail : ∀ d ∈ st.tail, d = '[' ∨ d = '\x7b' := fun d hd => h d (List.mem_of_mem_tail hd)
    rw [pushBracket]
    split
    · next hc =>
        intro d hd
        obtain rfl | hd := List.mem_cons.mp hd
        · exact hc
        · exact h d hd
    · split
      · split
        · exact htail
        · exact h
      · split
        · split
          · exact htail
          · exact h
        · exact h
  exact Lib.foldl_invariant hstep (by simp) text

theorem closer_left (s : Shape) : closer s.left = s.right := by
  cases s with
  | array => rfl
  | object => rfl

theorem isCloser_closer (c : Char) : IsCloser (closer c) := by
  rw [closer]
  split
  · exact .inl rfl
  · exact .inr rfl

theorem isCloser_of_mem {st : List Char} : ∀ c ∈ st.map closer, IsCloser c := by
  intro c hc
  obtain ⟨d, -, rfl⟩ := List.mem_map.mp hc
  exact isCloser_closer d

/-- An open bracket is known from the one that closes it. -/
theorem eq_left_of_closer {c : Char} {s : Shape} (hc : c = '[' ∨ c = '\x7b')
    (h : closer c = s.right) : c = s.left := by
  cases s with
  | array =>
      obtain rfl | rfl := hc
      · rfl
      · exact absurd h (by decide)
  | object =>
      obtain rfl | rfl := hc
      · exact absurd h (by decide)
      · rfl

theorem eq_lefts_of_closers {st : List Char} {shapes : List Shape}
    (hst : ∀ c ∈ st, c = '[' ∨ c = '\x7b') (h : st.map closer = shapes.map Shape.right) :
    st = shapes.map Shape.left := by
  induction st generalizing shapes with
  | nil =>
      cases shapes with
      | nil => rfl
      | cons s shapes => cases h
  | cons c st ih =>
      cases shapes with
      | nil => cases h
      | cons s shapes =>
          rw [List.map_cons, List.map_cons] at h
          obtain ⟨hhead, htail⟩ := List.cons.inj h
          rw [List.map_cons, eq_left_of_closer (hst c List.mem_cons_self) hhead,
            ih (fun d hd => hst d (List.mem_cons_of_mem c hd)) htail]

/-! ## Serialisations and where they can be cut -/

section

variable {g : Leaves} {part : Part} {T : List Token}

theorem Ser.value_ne_nil {v : Json} (h : Ser g (.value v) T) : T ≠ [] := by
  cases h with
  | scalar | str | arr | obj => simp

theorem Ser.items_ne_nil {v : Json} {vs : List Json} (h : Ser g (.items (v :: vs)) T) :
    T ≠ [] := by
  cases h with
  | item h => exact h.value_ne_nil
  | items h hs => simp

theorem Ser.fields_ne_nil {f : String × Json} {fs : List (String × Json)}
    (h : Ser g (.fields (f :: fs)) T) : T ≠ [] := by
  cases h with
  | field | fields => simp

theorem Ser.closes (h : Ser g part T) (hne : T ≠ []) (rest : List Token) :
    closes (T ++ rest) = false := by
  induction h generalizing rest with
  | scalar | str | arr | obj | field | fields => rfl
  | noItems => exact absurd rfl hne
  | noFields => exact absurd rfl hne
  | item h ih => exact ih hne rest
  | items h hs ih _ =>
      rw [List.append_assoc]
      exact ih h.value_ne_nil _

/-- There is no comma before a closing bracket. -/
theorem Ser.clean_append (h : Ser g part T) (rest : List Token) :
    clean (T ++ rest) = T ++ clean rest := by
  induction h generalizing rest with
  | scalar | str | noItems | noFields => rfl
  | arr h ih | obj h ih =>
      rw [List.cons_append, List.append_assoc, clean, ih]
      · simp [clean]
      · simp
  | item h ih => exact ih rest
  | @items v w ws T R h hs ih ihs =>
      have hcloses := hs.closes hs.items_ne_nil rest
      rw [List.append_assoc, ih, List.cons_append, clean, hcloses, ihs, if_neg Bool.false_ne_true]
      simp
  | field hk h ih =>
      rw [List.cons_append, List.cons_append, clean, clean, ih]
      all_goals simp
  | @fields b k v f fs T R hk h hs ih ihs =>
      have hcloses := hs.closes hs.fields_ne_nil rest
      rw [List.cons_append, List.cons_append, List.append_assoc, clean, clean, ih, List.cons_append,
        clean, hcloses, ihs, if_neg Bool.false_ne_true]
      all_goals simp

theorem Ser.clean_eq (h : Ser g part T) : clean T = T := by
  have hclean := h.clean_append []
  rwa [List.append_nil, clean, List.append_nil] at hclean

theorem Ser.guarded (h : Ser g part T) :
    ∀ b, .key b ∈ T ∨ .str b ∈ T → Guarded (some '"') b := by
  induction h with
  | scalar | noItems | noFields => simp
  | str h =>
      rename_i b' s
      intro b hb
      obtain rfl : b = b' := by simpa using hb
      exact g.guarded _ _ h
  | arr h ih | obj h ih | item h ih =>
      intro b hb
      exact ih b (by simpa using hb)
  | items h hs ih ihs =>
      intro b hb
      simp only [List.mem_append, List.mem_cons, reduceCtorEq, false_or] at hb
      exact (or_or_or_comm.mp hb).elim (ih b) (ihs b)
  | @field b' k v T hk h ih =>
      intro b hb
      simp only [List.mem_cons, Token.key.injEq, reduceCtorEq, false_or, or_assoc] at hb
      obtain rfl | hb := hb
      · exact g.guarded _ _ hk
      · exact ih b hb
  | @fields b' k v f fs T R hk h hs ih ihs =>
      intro b hb
      simp only [List.mem_cons, List.mem_append, Token.key.injEq, reduceCtorEq, false_or,
        or_assoc] at hb
      obtain rfl | hb := hb
      · exact g.guarded _ _ hk
      · rw [← or_assoc] at hb
        exact (or_or_or_comm.mp hb).elim (ih b) (ihs b)

theorem openShapes_append (st : List Shape) (T R : List Token) :
    openShapes st (T ++ R) = openShapes (openShapes st T) R := by
  induction T generalizing st with
  | nil => rfl
  | cons t T ih =>
      cases t with
      | opening | closing | space | comma | colon | key | str | scalar => exact ih _

/-- What is opened is closed. -/
theorem Ser.openShapes_eq (h : Ser g part T) (st : List Shape) : openShapes st T = st := by
  induction h generalizing st with
  | scalar | str | noItems | noFields => rfl
  | arr h ih =>
      show openShapes (.array :: st) _ = st
      rw [openShapes_append, ih]
      rfl
  | obj h ih =>
      show openShapes (.object :: st) _ = st
      rw [openShapes_append, ih]
      rfl
  | item h ih => exact ih st
  | items h hs ih ihs =>
      rw [openShapes_append, ih]
      exact ihs st
  | field hk h ih => exact ih st
  | fields hk h hs ih ihs =>
      show openShapes st (_ ++ _) = st
      rw [openShapes_append, ih]
      exact ihs st

/-- A part of the same kind. -/
def Part.Same : Part → Part → Prop
  | .value _, .value _ => True
  | .items _, .items _ => True
  | .fields _, .fields _ => True
  | _, _ => False

/-- Where a string stands, another may end the text, if the open brackets are
closed after it. -/
structure Closable (g : Leaves) (part : Part) (pre : List Token) (cs : List Shape) : Prop where
  opens : ∀ st, openShapes st pre = cs ++ st
  closes : ∀ b s, g.body b s →
    ∃ part', part.Same part' ∧ Ser g part' (pre ++ .str b :: cs.map Token.closing)

/-- Two ways to take a list of tokens apart around a string. -/
theorem cut_append {T R pre post : List Token} {b : List Char}
    (h : T ++ R = pre ++ .str b :: post) :
    (∃ post', T = pre ++ .str b :: post') ∨
      ∃ pre', pre = T ++ pre' ∧ R = pre' ++ .str b :: post := by
  obtain ⟨rest, hpre, hR⟩ | ⟨rest, hT, hR⟩ := List.append_eq_append_iff.mp h
  · exact .inr ⟨rest, hpre, hR⟩
  · cases rest with
    | nil => exact .inr ⟨[], by simpa using hT.symm, by simpa using hR.symm⟩
    | cons t rest =>
        obtain ⟨rfl, -⟩ := List.cons.inj hR
        exact .inl ⟨rest, hT⟩

theorem cut_cons {t : Token} (ht : ∀ b, t ≠ .str b) {R pre post : List Token} {b : List Char}
    (h : t :: R = pre ++ .str b :: post) :
    ∃ pre', pre = t :: pre' ∧ R = pre' ++ .str b :: post := by
  cases pre with
  | nil => exact absurd (List.cons.inj h).1 (ht b)
  | cons u pre =>
      obtain ⟨rfl, hR⟩ := List.cons.inj h
      exact ⟨pre, rfl, hR⟩

theorem cut_concat {t : Token} (ht : ∀ b, t ≠ .str b) {T pre post : List Token} {b : List Char}
    (h : T ++ [t] = pre ++ .str b :: post) : ∃ post', T = pre ++ .str b :: post' := by
  obtain hT | ⟨pre', rfl, hlast⟩ := cut_append h
  · exact hT
  · obtain ⟨pre'', -, hnil⟩ := cut_cons ht hlast
    cases pre'' with
    | nil => cases hnil
    | cons => cases hnil

theorem Part.same_value {v : Json} {part : Part} (h : (Part.value v).Same part) :
    ∃ w, part = .value w := by
  cases part with
  | value w => exact ⟨w, rfl⟩
  | items => cases h
  | fields => cases h

theorem Part.same_items {vs : List Json} {part : Part} (h : (Part.items vs).Same part) :
    ∃ ws, part = .items ws := by
  cases part with
  | items ws => exact ⟨ws, rfl⟩
  | value => cases h
  | fields => cases h

theorem Part.same_fields {fs : List (String × Json)} {part : Part}
    (h : (Part.fields fs).Same part) : ∃ fs', part = .fields fs' := by
  cases part with
  | fields fs' => exact ⟨fs', rfl⟩
  | value => cases h
  | items => cases h

theorem closable_str {s : String} : Closable g (.value (.str s)) [] [] :=
  ⟨fun _ => rfl, fun _ s' h => ⟨.value (.str s'), trivial, .str h⟩⟩

theorem Closable.arr {vs : List Json} {pre : List Token} {cs : List Shape}
    (h : Closable g (.items vs) pre cs) :
    Closable g (.value (.arr vs)) (.opening .array :: pre) (cs ++ [.array]) := by
  constructor
  · intro st
    show openShapes (.array :: st) pre = _
    rw [h.opens, List.append_assoc, List.singleton_append]
  · intro b s hb
    obtain ⟨part', hsame, hser⟩ := h.closes b s hb
    obtain ⟨ws, rfl⟩ := Part.same_items hsame
    refine ⟨.value (.arr ws), trivial, ?_⟩
    have harr := Ser.arr hser
    simpa using harr

theorem Closable.obj {fs : List (String × Json)} {pre : List Token} {cs : List Shape}
    (h : Closable g (.fields fs) pre cs) :
    Closable g (.value (g.object fs)) (.opening .object :: pre) (cs ++ [.object]) := by
  constructor
  · intro st
    show openShapes (.object :: st) pre = _
    rw [h.opens, List.append_assoc, List.singleton_append]
  · intro b s hb
    obtain ⟨part', hsame, hser⟩ := h.closes b s hb
    obtain ⟨fs', rfl⟩ := Part.same_fields hsame
    refine ⟨.value (g.object fs'), trivial, ?_⟩
    have hobj := Ser.obj hser
    simpa using hobj

theorem Closable.item {v : Json} {vs : List Json} {pre : List Token} {cs : List Shape}
    (h : Closable g (.value v) pre cs) : Closable g (.items vs) pre cs := by
  refine ⟨h.opens, ?_⟩
  intro b s hb
  obtain ⟨part', hsame, hser⟩ := h.closes b s hb
  obtain ⟨w, rfl⟩ := Part.same_value hsame
  exact ⟨.items [w], trivial, .item hser⟩

theorem Closable.field {b : List Char} {k : String} {v : Json} {fs : List (String × Json)}
    {pre : List Token} {cs : List Shape} (hk : g.body b k) (h : Closable g (.value v) pre cs) :
    Closable g (.fields fs) (.key b :: .colon :: pre) cs := by
  refine ⟨h.opens, ?_⟩
  intro b' s hb
  obtain ⟨part', hsame, hser⟩ := h.closes b' s hb
  obtain ⟨w, rfl⟩ := Part.same_value hsame
  exact ⟨.fields [(k, w)], trivial, .field hk hser⟩

theorem Closable.laterItem {v : Json} {vs : List Json} {T pre : List Token} {cs : List Shape}
    (hv : Ser g (.value v) T) (h : Closable g (.items vs) pre cs) :
    Closable g (.items (v :: vs)) (T ++ .comma :: pre) cs := by
  constructor
  · intro st
    rw [openShapes_append, hv.openShapes_eq]
    exact h.opens st
  · intro b s hb
    obtain ⟨part', hsame, hser⟩ := h.closes b s hb
    obtain ⟨ws, rfl⟩ := Part.same_items hsame
    cases ws with
    | nil =>
        -- The rest has at least the string in it.
        generalize hT : pre ++ Token.str b :: cs.map Token.closing = T' at hser
        cases hser with
        | noItems => exact absurd hT (by simp)
    | cons w ws =>
        refine ⟨.items (v :: w :: ws), trivial, ?_⟩
        have hitems := Ser.items hv hser
        simpa using hitems

theorem Closable.laterField {kb : List Char} {k : String} {v : Json} {fs : List (String × Json)}
    {T pre : List Token} {cs : List Shape} (hk : g.body kb k) (hv : Ser g (.value v) T)
    (h : Closable g (.fields fs) pre cs) :
    Closable g (.fields ((k, v) :: fs)) (.key kb :: .colon :: (T ++ .comma :: pre)) cs := by
  constructor
  · intro st
    show openShapes st (T ++ .comma :: pre) = _
    rw [openShapes_append, hv.openShapes_eq]
    exact h.opens st
  · intro b s hb
    obtain ⟨part', hsame, hser⟩ := h.closes b s hb
    obtain ⟨fs', rfl⟩ := Part.same_fields hsame
    cases fs' with
    | nil =>
        generalize hT : pre ++ Token.str b :: cs.map Token.closing = T' at hser
        cases hser with
        | noFields => exact absurd hT (by simp)
    | cons f fs' =>
        refine ⟨.fields ((k, v) :: f :: fs'), trivial, ?_⟩
        have hfields := Ser.fields hk hv hser
        simpa using hfields

theorem Ser.closable (h : Ser g part T) {pre post : List Token} {b : List Char}
    (hT : T = pre ++ .str b :: post) : ∃ cs, Closable g part pre cs := by
  induction h generalizing pre post with
  | scalar h =>
      obtain ⟨pre', -, hnil⟩ := cut_cons (by simp) hT
      exact absurd hnil (by simp)
  | noItems => exact absurd hT (by simp)
  | noFields => exact absurd hT (by simp)
  | str h =>
      cases pre with
      | nil => exact ⟨[], closable_str⟩
      | cons t pre => exact absurd (List.cons.inj hT).2 (by simp)
  | arr h ih =>
      obtain ⟨pre', rfl, hrest⟩ := cut_cons (by simp) hT
      obtain ⟨post', hitems⟩ := cut_concat (by simp) hrest
      obtain ⟨cs, hcs⟩ := ih hitems
      exact ⟨_, hcs.arr⟩
  | obj h ih =>
      obtain ⟨pre', rfl, hrest⟩ := cut_cons (by simp) hT
      obtain ⟨post', hfields⟩ := cut_concat (by simp) hrest
      obtain ⟨cs, hcs⟩ := ih hfields
      exact ⟨_, hcs.obj⟩
  | item h ih =>
      obtain ⟨cs, hcs⟩ := ih hT
      exact ⟨cs, hcs.item⟩
  | items h hs ih ihs =>
      obtain ⟨post', hfirst⟩ | ⟨pre', rfl, hrest⟩ := cut_append hT
      · obtain ⟨cs, hcs⟩ := ih hfirst
        exact ⟨cs, hcs.item⟩
      · obtain ⟨pre'', rfl, hlater⟩ := cut_cons (by simp) hrest
        obtain ⟨cs, hcs⟩ := ihs hlater
        exact ⟨cs, hcs.laterItem h⟩
  | field hk h ih =>
      obtain ⟨pre', rfl, hrest⟩ := cut_cons (by simp) hT
      obtain ⟨pre'', rfl, hvalue⟩ := cut_cons (by simp) hrest
      obtain ⟨cs, hcs⟩ := ih hvalue
      exact ⟨cs, hcs.field hk⟩
  | fields hk h hs ih ihs =>
      obtain ⟨pre', rfl, hrest⟩ := cut_cons (by simp) hT
      obtain ⟨pre'', rfl, hmore⟩ := cut_cons (by simp) hrest
      obtain ⟨post', hfirst⟩ | ⟨pre₃, rfl, hcomma⟩ := cut_append hmore
      · obtain ⟨cs, hcs⟩ := ih hfirst
        exact ⟨cs, hcs.field hk⟩
      · obtain ⟨pre₄, rfl, hlater⟩ := cut_cons (by simp) hcomma
        obtain ⟨cs, hcs⟩ := ihs hlater
        exact ⟨cs, hcs.laterField hk h⟩

/-- A string in the fields of an object is in the value of one of them. -/
theorem Ser.inValue {fs : List (String × Json)} (h : Ser g (.fields fs) T) {pre post : List Token}
    {b rest : List Char} (hT : T = pre ++ .str (b ++ rest) :: post) :
    ∃ done k v more,
      fs = done ++ (k, v) :: more ∧ InValue g done k b (.opening .object :: pre) := by
  generalize hpart : Part.fields fs = part at h
  induction h generalizing fs pre with
  | scalar | str | arr | obj | noItems | item | items => cases hpart
  | noFields => exact absurd hT (by simp)
  | @field kb k v T hk h ih =>
      obtain rfl := Part.fields.inj hpart
      obtain ⟨pre', rfl, hrest⟩ := cut_cons (by simp) hT
      obtain ⟨pre'', rfl, hvalue⟩ := cut_cons (by simp) hrest
      rw [hvalue] at h
      exact ⟨[], k, v, [], rfl, .mk .nil hk h⟩
  | @fields kb k v f fs' T R hk h hs ih ihs =>
      obtain rfl := Part.fields.inj hpart
      obtain ⟨pre', rfl, hrest⟩ := cut_cons (by simp) hT
      obtain ⟨pre'', rfl, hmore⟩ := cut_cons (by simp) hrest
      obtain ⟨post', hfirst⟩ | ⟨pre₃, rfl, hcomma⟩ := cut_append hmore
      · rw [hfirst] at h
        exact ⟨[], k, v, f :: fs', rfl, .mk .nil hk h⟩
      · obtain ⟨pre₄, rfl, hlater⟩ := cut_cons (by simp) hcomma
        obtain ⟨done, k', v', more, hfs, hin⟩ := ihs hlater rfl
        refine ⟨(k, v) :: done, k', v', more, by rw [hfs, List.cons_append], ?_⟩
        generalize hpre : Token.opening Shape.object :: pre₄ = pre₅ at hin
        cases hin with
        | @mk D inner post'' kb' rest' v'' hdone hk' hv =>
            obtain rfl := (List.cons.inj hpre).2
            have hin := InValue.mk (.cons hk h hdone) hk' hv
            simpa using hin

theorem Done.openShapes_eq {done : List (String × Json)} {D : List Token} (h : Done g done D)
    (st : List Shape) : openShapes st D = st := by
  induction h with
  | nil => rfl
  | cons hk hv hs ih =>
      show openShapes st (_ ++ .comma :: _) = st
      rw [openShapes_append, hv.openShapes_eq]
      exact ih

/-- Complete fields and one more make the fields of an object. -/
theorem Done.ser {done : List (String × Json)} {D : List Token} (h : Done g done D)
    {kb : List Char} {k : String} {v : Json} {T : List Token} (hk : g.body kb k)
    (hv : Ser g (.value v) T) :
    Ser g (.fields (done ++ [(k, v)])) (D ++ .key kb :: .colon :: T) := by
  induction h with
  | nil => exact .field hk hv
  | @cons b' k' v' fs T' R hk' hv' hs ih =>
      rw [List.cons_append, List.cons_append, List.cons_append, List.append_assoc, List.cons_append]
      cases fs with
      | nil => exact .fields hk' hv' ih
      | cons f fs => exact .fields hk' hv' ih

/-- With another string in place of the one that is cut, and the open brackets
closed, there is an object with the same complete fields. -/
theorem InValue.ser {done : List (String × Json)} {k : String} {b : List Char} {pre : List Token}
    (h : InValue g done k b pre) {b' : List Char} {s : String} (hb : g.body b' s) :
    ∃ x, Ser g (.value (g.object (done ++ [(k, x)])))
      (pre ++ .str b' :: (openShapes [] pre).map Token.closing) := by
  cases h with
  | @mk D inner post kb rest v hdone hk hv =>
      obtain ⟨cs, hcs⟩ := hv.closable rfl
      obtain ⟨part', hsame, hser⟩ := hcs.closes b' s hb
      obtain ⟨x, rfl⟩ := Part.same_value hsame
      have hopens : openShapes [] (.opening .object :: (D ++ .key kb :: .colon :: inner)) =
          cs ++ [.object] := by
        show openShapes [.object] (D ++ .key kb :: .colon :: inner) = _
        rw [openShapes_append, hdone.openShapes_eq]
        exact hcs.opens [.object]
      have hobj := Ser.obj (hdone.ser hk hser)
      refine ⟨x, ?_⟩
      rw [hopens]
      simpa using hobj

end

/-! ## The repair -/

section

variable {serde : Serde} {g : Leaves}

/-- What the repair makes of a text that is not JSON. -/
theorem repairJson_of_error {s : String}
    (h : ∀ v, serde.fromStr (String.ofList (trim s.toList)) ≠ .ok v) :
    repairJson serde s = String.ofList (balance (scan none none (trim s.toList))) := by
  rw [repairJson]
  cases hparse : serde.fromStr (String.ofList (trim s.toList)) with
  | ok v => exact absurd hparse (h v)
  | error e => rfl

theorem repairJson_of_ok {s : String} {v : Json}
    (h : serde.fromStr (String.ofList (trim s.toList)) = .ok v) :
    repairJson serde s = String.ofList (trim s.toList) := by
  rw [repairJson]
  simp only [h]

/-- A serialisation with commas before closing brackets, or without. -/
theorem repair_commas_iff {T : List Token} {v : Json}
    (hser : Ser g (.value v) (clean (noSpace T))) (hserde : Reads serde g (clean (noSpace T)))
    (hends : clean (noSpace T) = noSpace T ∨ Ends T) :
    serde.fromStr (repairJson serde (String.ofList (chars T))) = .ok v ↔
      clean (noSpace T) = noSpace T ∨ openBrackets (chars T) = [] := by
  have htrim : trim (String.ofList (chars T)).toList = chars (trimmed T) := by
    rw [String.toList_ofList, trim_chars]
  by_cases hplain : clean (noSpace T) = noSpace T
  · -- Without commas to drop the text is left alone.
    have hok : serde.fromStr (String.ofList (chars (trimmed T))) = .ok v :=
      hserde.accepts _ _ (by rw [noSpace_trimmed, hplain]) hser
    rw [repairJson_of_ok (by rw [htrim, hok]), htrim, hok]
    exact iff_of_true rfl (.inl hplain)
  have herror (w : Json) : serde.fromStr (String.ofList (chars (trimmed T))) ≠ .ok w :=
    hserde.strict _ _ (by rw [noSpace_trimmed]) (by rw [noSpace_trimmed]; exact Ne.symm hplain)
  have hends : Ends (trimmed T) := by
    rw [← ends_noSpace, noSpace_trimmed, ends_noSpace]
    exact hends.resolve_left hplain
  have hguard : ∀ b, .key b ∈ trimmed T ∨ .str b ∈ trimmed T → Guarded (some '"') b := by
    intro b hb
    refine hser.guarded b ?_
    rw [mem_clean (by simp), mem_clean (by simp), ← noSpace_trimmed, mem_noSpace rfl,
      mem_noSpace rfl]
    exact hb
  have hscan : scan none none (chars (trimmed T)) = chars (clean (trimmed T)) := by
    have h := @scan_chars (trimmed T) [] rfl hends hguard
    simpa [scan] using h
  have hcore : noSpace (clean (trimmed T)) = clean (noSpace T) := by
    rw [noSpace_clean, noSpace_trimmed]
  rw [repairJson_of_error (by rwa [htrim]), htrim, hscan, balance, openBrackets_trimmed,
    or_iff_right hplain]
  constructor
  · intro hok
    by_contra hne
    exact hserde.ends _ ((openBrackets (chars T)).map closer) v hcore (by simpa using hne)
      isCloser_of_mem hok
  · intro hnil
    rw [hnil, List.map_nil, List.append_nil]
    exact hserde.accepts _ _ hcore hser

theorem noSpace_append (A R : List Token) : noSpace (A ++ R) = noSpace A ++ noSpace R :=
  List.filter_append A R

theorem noSpace_str (b : List Char) (R : List Token) :
    noSpace (.str b :: R) = .str b :: noSpace R := rfl

theorem noSpace_closings (shapes : List Shape) :
    noSpace (shapes.map Token.closing) = shapes.map Token.closing := by
  induction shapes with
  | nil => rfl
  | cons s shapes ih => exact congrArg (Token.closing s :: ·) ih

theorem chars_closings (shapes : List Shape) :
    chars (shapes.map Token.closing) = shapes.map Shape.right := by
  induction shapes with
  | nil => rfl
  | cons s shapes ih => exact congrArg (s.right :: ·) ih

theorem closers_eq (shapes : List Shape) :
    (shapes.map Shape.left).map closer = shapes.map Shape.right := by
  rw [List.map_map]
  exact List.map_congr_left fun s _ => closer_left s

theorem trimEnd_quote (text body : List Char) :
    trimEnd (text ++ '"' :: body) = text ++ '"' :: trimEnd body := by
  induction body using List.reverseRecOn with
  | nil => exact List.rdropWhile_concat_neg _ _ _ (by decide)
  | append_singleton body c ih =>
      rw [← List.cons_append, ← List.append_assoc]
      cases hc : isWhitespace c with
      | true =>
          have hbody : trimEnd (body ++ [c]) = trimEnd body := List.rdropWhile_concat_pos _ _ _ hc
          rw [hbody, ← ih]
          exact List.rdropWhile_concat_pos _ _ _ hc
      | false =>
          have hbody : trimEnd (body ++ [c]) = body ++ [c] :=
            List.rdropWhile_concat_neg _ _ _ (by simp [hc])
          rw [hbody, ← List.cons_append, ← List.append_assoc]
          exact List.rdropWhile_concat_neg _ _ _ (by simp [hc])

/-- A text that ends in a string, without the space around it. -/
theorem trim_cut (P : List Token) (b : List Char) :
    trim (chars P ++ '"' :: b) = chars (P.dropWhile Token.isSpace) ++ '"' :: trimEnd b := by
  rw [trim, @trimStart_chars ('"' :: b) rfl, trimEnd_quote]

theorem Guarded.trimEnd {prev : Option Char} {b rest : List Char} (h : Guarded prev (b ++ rest)) :
    Guarded prev (Ai.trimEnd b) := by
  have hsplit : Ai.trimEnd b ++ b.rtakeWhile isWhitespace = b :=
    List.rdropWhile_append_rtakeWhile
  have hb := h.of_append
  rw [← hsplit] at hb
  exact hb.of_append

theorem closes_append_str (A R : List Token) (b : List Char) :
    closes (A ++ .str b :: R) = closes A := by
  induction A with
  | nil => rfl
  | cons t A ih =>
      cases t with
      | space c => exact ih
      | opening | closing | comma | colon | key | str | scalar => rfl

theorem clean_append_str (A R : List Token) (b : List Char) :
    clean (A ++ .str b :: R) = clean A ++ .str b :: clean R := by
  induction A with
  | nil => rfl
  | cons t A ih =>
      cases t with
      | comma =>
          rw [List.cons_append, clean, clean, closes_append_str, ih]
          split
          · rfl
          · rfl
      | space | opening | closing | colon | key | str | scalar => exact congrArg (List.cons _) ih

theorem length_clean_le (A : List Token) : (clean A).length ≤ A.length := by
  induction A with
  | nil => exact Nat.le_refl 0
  | cons t A ih =>
      cases t with
      | comma =>
          rw [clean]
          split
          · exact Nat.le_succ_of_le ih
          · exact Nat.succ_le_succ ih
      | space | opening | closing | colon | key | str | scalar => exact Nat.succ_le_succ ih

/-- Nothing is dropped before a string of a text in which nothing is dropped. -/
theorem clean_of_cut {A R : List Token} {b : List Char}
    (h : clean (A ++ .str b :: R) = A ++ .str b :: R) : clean A = A := by
  rw [clean_append_str] at h
  have hlength := congrArg List.length h
  have hA := length_clean_le A
  have hR := length_clean_le R
  simp only [List.length_append, List.length_cons] at hlength
  exact List.append_inj_left h (by omega)

/-- The start of a serialised object, up to a string in the value of one of its
fields, with that string closed and then the brackets. -/
theorem repair_prefix_iff {fs : List (String × Json)} {toks P Q : List Token} {b rest : List Char}
    (hser : Ser g (.fields fs) toks)
    (hcut : noSpace (P ++ .str (b ++ rest) :: Q) =
      .opening .object :: (toks ++ [.closing .object])) :
    ∃ done k v more, fs = done ++ (k, v) :: more ∧ InValue g done k b (noSpace P) ∧
      (Unfinished serde g (noSpace P) (trimEnd b) →
        Reads serde g
          (noSpace P ++ .str (trimEnd b) :: (openShapes [] (noSpace P)).map Token.closing) →
        Ends P →
        ((∃ x, serde.fromStr (repairJson serde (String.ofList (chars P ++ '"' :: b))) =
            .ok (g.object (done ++ [(k, x)]))) ↔
          (∃ s, g.body (trimEnd b) s) ∧
            openBrackets (chars P ++ '"' :: b) = (openShapes [] (noSpace P)).map Shape.left)) := by
  have hwhole := Ser.obj hser
  have hsplit : noSpace P ++ .str (b ++ rest) :: noSpace Q =
      .opening .object :: (toks ++ [.closing .object]) := by
    rw [← hcut, noSpace_append, noSpace_str]
  obtain ⟨pre, hpre, hrest⟩ := cut_cons (by simp) hsplit.symm
  obtain ⟨post, htoks⟩ := cut_concat (by simp) hrest
  obtain ⟨done, k, v, more, hfs, hin⟩ := hser.inValue htoks
  rw [← hpre] at hin
  refine ⟨done, k, v, more, hfs, hin, ?_⟩
  intro hserde haccepts hends
  have hclean : clean (noSpace P) = noSpace P :=
    clean_of_cut (by rw [hsplit]; exact hwhole.clean_eq)
  have hguard := hwhole.guarded
  rw [← hsplit] at hguard
  -- The text without the space around it.
  generalize hstart : P.dropWhile Token.isSpace = P'
  have hP' : noSpace P' = noSpace P := by rw [← hstart, noSpace_dropWhile]
  have htrim : trim (String.ofList (chars P ++ '"' :: b)).toList =
      chars P' ++ '"' :: trimEnd b := by
    rw [String.toList_ofList, trim_cut, hstart]
  have hwholeBody : Guarded (some '"') (b ++ rest) := hguard _ (.inr (by simp))
  have hguard' : ∀ b, .key b ∈ P' ∨ .str b ∈ P' → Guarded (some '"') b := by
    intro b hb
    refine hguard b ?_
    rw [List.mem_append, List.mem_append, ← hP', mem_noSpace rfl, mem_noSpace rfl]
    exact hb.imp .inl .inl
  have hends' : Ends P' := by rwa [← ends_noSpace, hP', ends_noSpace]
  have hscan : scan none none (chars P' ++ '"' :: trimEnd b) =
      chars (clean P') ++ ('"' :: trimEnd b ++ ['"']) := by
    rw [scan_chars rfl hends' hguard', scan_opening, scan_unclosed hwholeBody.trimEnd]
    rfl
  have hopen := openBrackets_cut P b
  rw [hstart] at hopen
  have hcore : noSpace (clean P') = noSpace P := by rw [noSpace_clean, hP', hclean]
  rw [repairJson_of_error (by rw [htrim]; exact fun v => hserde.unclosed P' v hP'), htrim, hscan,
    balance, hopen]
  have htext (cs : List Char) : chars (clean P') ++ ('"' :: trimEnd b ++ ['"']) ++ cs =
      chars (clean P') ++ '"' :: trimEnd b ++ '"' :: cs := by simp
  rw [htext]
  constructor
  · intro h
    obtain ⟨x, hx⟩ := h
    obtain ⟨hs, hclosers⟩ := hserde.closed _ _ _ hcore isCloser_of_mem hx
    exact ⟨hs, eq_lefts_of_closers (mem_openBrackets _) hclosers⟩
  · intro h
    obtain ⟨⟨s, hs⟩, hopens⟩ := h
    obtain ⟨x, hx⟩ := hin.ser hs
    refine ⟨x, ?_⟩
    have hcore' : noSpace (clean P' ++ .str (trimEnd b) ::
          (openShapes [] (noSpace P)).map Token.closing) =
        noSpace P ++ .str (trimEnd b) :: (openShapes [] (noSpace P)).map Token.closing := by
      rw [noSpace_append, hcore, noSpace_str, noSpace_closings]
    have hread := haccepts.accepts _ _ hcore' hx
    rw [chars_append, chars_cons, chars_closings] at hread
    rw [hopens, closers_eq, ← hread]
    simp [Token.chars]

end

/-- With commas before closing brackets, what decides is the brackets, unless a
string ends on a backslash. In a text that is cut it is the brackets and whether
the string was cut between two characters. -/
theorem repairs_iff (serde : Serde) (g : Leaves) :
    (∀ T v, Ser g (.value v) (clean (noSpace T)) → Reads serde g (clean (noSpace T)) →
      (clean (noSpace T) = noSpace T ∨ Ends T) →
      (serde.fromStr (repairJson serde (String.ofList (chars T))) = .ok v ↔
        clean (noSpace T) = noSpace T ∨ openBrackets (chars T) = [])) ∧
    ∀ fs toks P Q b rest, Ser g (.fields fs) toks →
      noSpace (P ++ .str (b ++ rest) :: Q) = .opening .object :: (toks ++ [.closing .object]) →
      ∃ done k v more, fs = done ++ (k, v) :: more ∧ InValue g done k b (noSpace P) ∧
        (Unfinished serde g (noSpace P) (trimEnd b) →
          Reads serde g
            (noSpace P ++ .str (trimEnd b) :: (openShapes [] (noSpace P)).map Token.closing) →
          Ends P →
          ((∃ x, serde.fromStr (repairJson serde (String.ofList (chars P ++ '"' :: b))) =
              .ok (g.object (done ++ [(k, x)]))) ↔
            (∃ s, g.body (trimEnd b) s) ∧
              openBrackets (chars P ++ '"' :: b) =
                (openShapes [] (noSpace P)).map Shape.left)) :=
  ⟨fun _ _ hser hserde hends => repair_commas_iff hser hserde hends,
    fun _ _ _ _ _ _ hser hcut => repair_prefix_iff hser hcut⟩

/-! ## Some texts -/

/-- Two strings, one of them a key. -/
def twoStrings (b : List Char) (s : String) (h : Guarded (some '"') b) : Leaves where
  body b' s' := (b' = ['k'] ∧ s' = "k") ∨ (b' = b ∧ s' = s)
  scalar _ _ := False
  object := .obj
  guarded b' s' h' := by
    obtain ⟨rfl, -⟩ | ⟨rfl, -⟩ := h'
    · exact ⟨by decide, trivial⟩
    · exact h

/-- `serde_json`, as far as one value and texts like it go. -/
def reading (core : List Token) (v : Json) : Serde where
  fromStr s :=
    if s.toList.filter (fun c => c ∉ [' ', '\t', '\n', '\r']) = chars core then .ok v
    else .error "expected value"
  fromSlice _ := .error "expected value"

def arrayOf (b : List Char) : List Token := [.opening .array, .str b, .closing .array]

def startOf : List Token := [.opening .object, .key ['k'], .colon]

def objectOf (b : List Char) : List Token := startOf ++ [.str b, .closing .object]

theorem filter_chars {T : List Token}
    (h : ∀ c ∈ chars (noSpace T), c ∉ [' ', '\t', '\n', '\r']) :
    (chars T).filter (fun c => c ∉ [' ', '\t', '\n', '\r']) = chars (noSpace T) := by
  induction T with
  | nil => rfl
  | cons t T ih =>
      cases ht : t.isSpace with
      | true =>
          obtain ⟨c, rfl⟩ := eq_space_of_isSpace ht
          show (c.val :: chars T).filter _ = chars (noSpace T)
          rw [List.filter_cons_of_neg ?_, ih h]
          simp only [decide_eq_true_eq, not_not]
          exact c.property
      | false =>
          have hkeep : noSpace (t :: T) = t :: noSpace T :=
            List.filter_cons_of_pos (by simp [ht])
          rw [hkeep, chars_cons] at h
          rw [hkeep, chars_cons, chars_cons, List.filter_append,
            ih fun c hc => h c (List.mem_append_right _ hc), List.filter_eq_self.mpr]
          intro c hc
          exact decide_eq_true (h c (List.mem_append_left _ hc))

theorem comma_mem_of_clean_ne {T : List Token} (h : clean T ≠ T) : .comma ∈ T := by
  by_contra hnot
  refine h ?_
  clear h
  induction T with
  | nil => rfl
  | cons t T ih =>
      have ih := ih fun hmem => hnot (List.mem_cons_of_mem t hmem)
      cases t with
      | comma => exact absurd List.mem_cons_self hnot
      | space | opening | closing | colon | key | str | scalar => exact congrArg (List.cons _) ih

theorem reading_eq_ok {core : List Token} {v w : Json} {text : List Char}
    (h : (reading core v).fromStr (String.ofList text) = .ok w) :
    text.filter (fun c => c ∉ [' ', '\t', '\n', '\r']) = chars core := by
  simp only [reading, String.toList_ofList] at h
  split at h
  · next htext => exact htext
  · cases h

theorem not_space_of_isCloser {c : Char} (h : IsCloser c) : c ∉ [' ', '\t', '\n', '\r'] := by
  obtain rfl | rfl := h
  · decide
  · decide

theorem filter_closers {cs : List Char} (h : ∀ c ∈ cs, IsCloser c) :
    cs.filter (fun c => c ∉ [' ', '\t', '\n', '\r']) = cs :=
  List.filter_eq_self.mpr fun c hc => decide_eq_true (not_space_of_isCloser (h c hc))

theorem reads_reading {g : Leaves} {core : List Token} {v : Json}
    (hv : ∀ w, Ser g (.value w) core → w = v)
    (hcore : ∀ c ∈ chars core, c ≠ ',' ∧ c ∉ [' ', '\t', '\n', '\r']) :
    Reads (reading core v) g core := by
  constructor
  · intro T w hT hser
    subst hT
    have hfilter := filter_chars fun c hc => (hcore c hc).2
    rw [hv w hser]
    simp only [reading, String.toList_ofList, hfilter, if_true]
  · intro T w hclean hne hok
    have hcomma : .comma ∈ noSpace T := comma_mem_of_clean_ne fun h => hne (h.symm.trans hclean)
    have hchar : ',' ∈ chars T :=
      List.mem_flatMap.mpr ⟨.comma, (mem_noSpace rfl).mp hcomma, List.mem_singleton.mpr rfl⟩
    have hmem : ',' ∈ (chars T).filter (fun c => c ∉ [' ', '\t', '\n', '\r']) :=
      List.mem_filter.mpr ⟨hchar, by decide⟩
    rw [reading_eq_ok hok] at hmem
    exact (hcore _ hmem).1 rfl
  · intro T cs w hT hne hcs hok
    subst hT
    have htext := reading_eq_ok hok
    rw [List.filter_append, filter_chars fun c hc => (hcore c hc).2, filter_closers hcs] at htext
    exact hne (List.append_right_eq_self.mp htext)

section

variable {b : List Char} {s : String} {h : Guarded (some '"') b}

theorem ser_str (hk : b ≠ ['k']) {w : Json}
    (hser : Ser (twoStrings b s h) (.value w) [.str b]) : w = .str s := by
  cases hser with
  | str hb =>
      obtain ⟨hb, -⟩ | ⟨-, rfl⟩ := hb
      · exact absurd hb hk
      · rfl

theorem ser_items (hk : b ≠ ['k']) {vs : List Json}
    (hser : Ser (twoStrings b s h) (.items vs) [.str b]) : vs = [.str s] := by
  generalize hT : [Token.str b] = T at hser
  cases hser with
  | noItems => cases hT
  | item hv =>
      subst hT
      rw [ser_str hk hv]
  | items hv hs =>
      have hcomma : Token.comma ∈ [Token.str b] := by simp [hT]
      cases List.mem_singleton.mp hcomma

theorem ser_fields (hk : b ≠ ['k']) {fs : List (String × Json)}
    (hser : Ser (twoStrings b s h) (.fields fs) [.key ['k'], .colon, .str b]) :
    fs = [("k", .str s)] := by
  generalize hT : [Token.key ['k'], .colon, .str b] = T at hser
  cases hser with
  | noFields => cases hT
  | field hkey hv =>
      obtain ⟨hhead, htail⟩ := List.cons.inj hT
      obtain rfl := Token.key.inj hhead
      obtain rfl := (List.cons.inj htail).2
      obtain ⟨-, rfl⟩ | ⟨hb, -⟩ := hkey
      · rw [ser_str hk hv]
      · exact absurd hb.symm hk
  | fields hkey hv hs =>
      have hcomma : Token.comma ∈ [Token.key ['k'], .colon, .str b] := by simp [hT]
      simp at hcomma

/-- One string in an array is read as that. -/
theorem ser_arrayOf (hk : b ≠ ['k']) {w : Json}
    (hser : Ser (twoStrings b s h) (.value w) (arrayOf b)) : w = .arr [.str s] := by
  generalize harray : arrayOf b = T at hser
  cases hser with
  | scalar => cases harray
  | str => cases harray
  | obj => cases (List.cons.inj harray).1
  | @arr vs T hitems =>
      have hT : [Token.str b] ++ [.closing .array] = T ++ [.closing .array] :=
        (List.cons.inj harray).2
      obtain rfl := List.append_cancel_right hT
      rw [ser_items hk hitems]

theorem ser_objectOf (hk : b ≠ ['k']) {w : Json}
    (hser : Ser (twoStrings b s h) (.value w) (objectOf b)) : w = .obj [("k", .str s)] := by
  generalize hobject : objectOf b = T at hser
  cases hser with
  | scalar => cases hobject
  | str => cases hobject
  | arr => cases (List.cons.inj hobject).1
  | @obj fs T hfields =>
      have hT : [Token.key ['k'], .colon, .str b] ++ [.closing .object] =
          T ++ [.closing .object] := (List.cons.inj hobject).2
      obtain rfl := List.append_cancel_right hT
      rw [ser_fields hk hfields]
      rfl

theorem arrayOf_ser : Ser (twoStrings b s h) (.value (.arr [.str s])) (arrayOf b) :=
  .arr (.item (.str (Or.inr ⟨rfl, rfl⟩)))

theorem fields_ser :
    Ser (twoStrings b s h) (.fields [("k", .str s)]) [.key ['k'], .colon, .str b] :=
  .field (Or.inl ⟨rfl, rfl⟩) (.str (Or.inr ⟨rfl, rfl⟩))

/-- A string without a comma or space. -/
def Compact (b : List Char) : Prop := ∀ c ∈ b, c ≠ ',' ∧ c ∉ [' ', '\t', '\n', '\r']

-- Not by the instance for all characters, which goes through all of them.
instance (b : List Char) : Decidable (Compact b) := List.decidableBAll _ b

theorem Compact.append {a b : List Char} (ha : Compact a) (hb : Compact b) : Compact (a ++ b) := by
  intro c hc
  obtain hc | hc := List.mem_append.mp hc
  · exact ha c hc
  · exact hb c hc

theorem reads_array (hk : b ≠ ['k']) (hb : Compact b) :
    Reads (reading (arrayOf b) (.arr [.str s])) (twoStrings b s h) (arrayOf b) := by
  have hleft : Compact ['[', '"'] := by decide
  have hright : Compact ['"', ']'] := by decide
  have hchars : chars (arrayOf b) = (['[', '"'] ++ b) ++ ['"', ']'] := by
    simp [arrayOf, chars, Token.chars, Shape.left, Shape.right]
  refine reads_reading (fun w hser => ser_arrayOf hk hser) ?_
  rw [hchars]
  exact (hleft.append hb).append hright

theorem chars_objectOf (b : List Char) :
    chars (objectOf b) = chars startOf ++ '"' :: b ++ ['"', '\x7d'] := by
  simp [objectOf, startOf, chars, Token.chars, Shape.right]

theorem reads_object (hk : b ≠ ['k']) (hb : Compact b) :
    Reads (reading (objectOf b) (.obj [("k", .str s)])) (twoStrings b s h) (objectOf b) := by
  have hleft : Compact (chars startOf ++ ['"']) := by decide
  have hright : Compact ['"', '\x7d'] := by decide
  have hchars : chars (objectOf b) = ((chars startOf ++ ['"']) ++ b) ++ ['"', '\x7d'] := by
    rw [chars_objectOf]
    simp
  refine reads_reading (fun w hser => ser_objectOf hk hser) ?_
  rw [hchars]
  exact (hleft.append hb).append hright

/-- The object is all that is read of the texts that start as it does. -/
theorem unfinished_object (hb : Compact b) :
    Unfinished (reading (objectOf b) (.obj [("k", .str s)])) (twoStrings b s h) startOf b := by
  have hcore : Compact (chars startOf) := by decide
  have hstart {T : List Token} (hT : noSpace T = startOf) (text : List Char) :
      (chars T ++ '"' :: text).filter (fun c => c ∉ [' ', '\t', '\n', '\r']) =
        chars startOf ++ '"' :: text.filter (fun c => c ∉ [' ', '\t', '\n', '\r']) := by
    have hfilter := @filter_chars T fun c hc => (hcore c (hT ▸ hc)).2
    rw [List.filter_append, hfilter, hT, List.filter_cons_of_pos (by decide)]
  have hbody : b.filter (fun c => c ∉ [' ', '\t', '\n', '\r']) = b :=
    List.filter_eq_self.mpr fun c hc => decide_eq_true (hb c hc).2
  constructor
  · intro T w hT hok
    have htext := reading_eq_ok hok
    rw [hstart hT, hbody, chars_objectOf, List.append_assoc] at htext
    have hlen := congrArg List.length (List.append_cancel_left htext)
    simp at hlen
  · intro T cs w hT hcs hok
    have htext := reading_eq_ok hok
    rw [List.append_assoc, List.cons_append, hstart hT, List.filter_append, hbody,
      List.filter_cons_of_pos (by decide), filter_closers hcs, chars_objectOf,
      List.append_assoc] at htext
    have htail := (List.cons.inj (List.append_cancel_left htext)).2
    exact ⟨⟨s, Or.inr ⟨rfl, rfl⟩⟩, (List.cons.inj (List.append_cancel_left htail)).2⟩

end

theorem guarded_a : Guarded (some '"') ['a'] := ⟨by decide, trivial⟩

/-- A comma too many in an array, and an object that is cut in its only value. -/
theorem repairs_short :
    (reading (arrayOf ['a']) (.arr [.str "a"])).fromStr
        (repairJson (reading (arrayOf ['a']) (.arr [.str "a"])) "[\"a\",]") =
      .ok (.arr [.str "a"]) ∧
    ∃ x, (reading (objectOf ['a']) (.obj [("k", .str "a")])).fromStr
        (repairJson (reading (objectOf ['a']) (.obj [("k", .str "a")])) "\x7b\"k\":\"a") =
      .ok (.obj [("k", x)]) := by
  have hk : ['a'] ≠ ['k'] := by decide
  have hb : Compact ['a'] := by decide
  constructor
  · have h := (repairs_iff (reading (arrayOf ['a']) (.arr [.str "a"]))
      (twoStrings ['a'] "a" guarded_a)).1
      [.opening .array, .str ['a'], .comma, .closing .array] (.arr [.str "a"])
      arrayOf_ser (reads_array hk hb) (.inr ?_)
    · exact h.mpr (.inr (by decide))
    · intro body hbody
      obtain rfl : body = ['a'] := by simpa using hbody
      exact (by decide : lastOr (some '"') ['a'] ≠ some '\\')
  · obtain ⟨done, k, v, more, hfs, -, h⟩ := (repairs_iff
      (reading (objectOf ['a']) (.obj [("k", .str "a")]))
      (twoStrings ['a'] "a" guarded_a)).2 [("k", .str "a")] [.key ['k'], .colon, .str ['a']]
      startOf [.closing .object] ['a'] [] fields_ser rfl
    obtain ⟨rfl, hkey, -⟩ := List.append_eq_singleton_iff.mp hfs.symm |>.resolve_right (by simp)
    have h := h (unfinished_object hb) (reads_object hk hb) ?_
    · exact h.mpr ⟨⟨"a", Or.inr ⟨rfl, rfl⟩⟩, by decide⟩
    · intro body hbody
      obtain rfl : body = ['k'] := by simpa [startOf] using hbody
      exact (by decide : lastOr (some '"') ['k'] ≠ some '\\')

/-- Commas before closing brackets make no difference. -/
def RepairsCommas (serde : Serde) (g : Leaves) : Prop :=
  ∀ T v, Ser g (.value v) (clean (noSpace T)) → Reads serde g (clean (noSpace T)) →
    serde.fromStr (repairJson serde (String.ofList (chars T))) = .ok v

/-- The fields before a cut in a string are kept. -/
def RepairsPrefixes (serde : Serde) (g : Leaves) : Prop :=
  ∀ fs toks P Q b rest, Ser g (.fields fs) toks →
    noSpace (P ++ .str (b ++ rest) :: Q) = .opening .object :: (toks ++ [.closing .object]) →
    ∃ done k v more, fs = done ++ (k, v) :: more ∧ InValue g done k b (noSpace P) ∧
      (Unfinished serde g (noSpace P) (trimEnd b) →
        Reads serde g
          (noSpace P ++ .str (trimEnd b) :: (openShapes [] (noSpace P)).map Token.closing) →
        ∃ x, serde.fromStr (repairJson serde (String.ofList (chars P ++ '"' :: b))) =
          .ok (g.object (done ++ [(k, x)])))

/-- What is read of the repaired text is the text of the tokens. -/
theorem RepairsCommas.text {b : List Char} {s : String} {hg : Guarded (some '"') b}
    (h : RepairsCommas (reading (arrayOf b) (.arr [.str s])) (twoStrings b s hg))
    (hk : b ≠ ['k']) (hb : Compact b) :
    (repairJson (reading (arrayOf b) (.arr [.str s]))
        (String.ofList (chars [.opening .array, .str b, .comma, .closing .array]))).toList.filter
      (fun c => c ∉ [' ', '\t', '\n', '\r']) = chars (arrayOf b) := by
  have hread := h [.opening .array, .str b, .comma, .closing .array] (.arr [.str s])
    arrayOf_ser (reads_array hk hb)
  rw [← String.ofList_toList (s := repairJson _ _)] at hread
  exact reading_eq_ok hread

/-- The value is lost if a string has a bracket in it that is not closed, or ends
on a backslash that is escaped. Such a bracket loses a cut object as well. -/
theorem not_repairs :
    ¬ RepairsCommas (reading (arrayOf ['[']) (.arr [.str "["]))
        (twoStrings ['['] "[" ⟨by decide, trivial⟩) ∧
    ¬ RepairsCommas (reading (arrayOf ['\\', '\\']) (.arr [.str "\\"]))
        (twoStrings ['\\', '\\'] "\\" ⟨by decide, by decide, trivial⟩) ∧
    ¬ RepairsPrefixes (reading (objectOf ['[']) (.obj [("k", .str "[")]))
        (twoStrings ['['] "[" ⟨by decide, trivial⟩) := by
  refine ⟨fun h => ?_, fun h => ?_, fun h => ?_⟩
  · have htext := h.text (by decide) (by decide)
    revert htext
    decide +kernel
  · have htext := h.text (by decide) (by decide)
    revert htext
    decide +kernel
  · obtain ⟨done, k, v, more, -, -, h⟩ := h [("k", .str "[")] [.key ['k'], .colon, .str ['[']]
      startOf [.closing .object] ['['] [] fields_ser rfl
    obtain ⟨x, hread⟩ := h (unfinished_object (by decide)) (reads_object (by decide) (by decide))
    rw [← String.ofList_toList (s := repairJson _ _)] at hread
    have htext := reading_eq_ok hread
    revert htext
    decide +kernel

end Pandaria.Ai.Repair
