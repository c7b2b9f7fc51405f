import Pandaria.Mcp.Client

/-!
# The endpoint that is not taken

The server names the place for requests by a path, the client wants a URL that
stands by itself. However the event arrives, in one piece or byte by byte, the
reader ends with it before the URL has been put into the channel, so a request
never sees one.
-/

namespace Pandaria.Mcp

open Pandaria.Ai
open Pandaria.Toolkit

/-! ## Bytes of a plain text -/

def isAscii (c : Char) : Bool := decide (c.toNat < 128)

/-- A byte as the character it is by itself. -/
def charOf (b : UInt8) : Char := Char.ofNat b.toNat

theorem decodeUtf8_append {bs : List UInt8} (h : ∀ b ∈ bs, b.toNat < 128) (rest : List UInt8) :
    decodeUtf8 none (bs ++ rest) = bs.map charOf ++ decodeUtf8 none rest := by
  induction bs with
  | nil => rfl
  | cons b bs ih =>
      have hb : b.toNat ≤ 0x7f := Nat.le_of_lt_succ (h b List.mem_cons_self)
      have hrest := ih fun b' hb' => h b' (List.mem_cons_of_mem _ hb')
      rw [List.cons_append, decodeUtf8, utf8Step, utf8Start, if_pos hb]
      show [charOf b] ++ decodeUtf8 none (bs ++ rest) = _
      rw [hrest]
      rfl

theorem fromUtf8Lossy_of_ascii {bs : List UInt8} (h : ∀ b ∈ bs, b.toNat < 128) :
    fromUtf8Lossy bs = bs.map charOf := by
  have happend := decodeUtf8_append h []
  rw [List.append_nil] at happend
  rw [fromUtf8Lossy, happend]
  exact List.append_nil _

theorem utf8EncodeChar_of_ascii {c : Char} (h : isAscii c = true) :
    String.utf8EncodeChar c = [c.val.toUInt8] ∧ c.val.toUInt8.toNat = c.toNat := by
  have hlt : c.val.toNat < 128 := of_decide_eq_true h
  constructor
  · refine String.utf8EncodeChar_eq_singleton ?_
    rw [Char.utf8Size_eq_one_iff, UInt32.le_iff_toNat_le]
    show c.val.toNat ≤ 127
    omega
  · rw [UInt32.toNat_toUInt8]
    show c.val.toNat % 256 = c.val.toNat
    omega

theorem charOf_val {c : Char} (h : isAscii c = true) : charOf c.val.toUInt8 = c := by
  rw [charOf, (utf8EncodeChar_of_ascii h).2]
  exact Char.ofNat_toNat c

/-- The bytes of a plain text are its characters. -/
theorem utf8Bytes_of_ascii {s : String} (h : s.toList.all isAscii = true) :
    (∀ b ∈ utf8Bytes s, b.toNat < 128) ∧ (utf8Bytes s).map charOf = s.toList := by
  rw [utf8Bytes]
  generalize s.toList = cs at h
  induction cs with
  | nil => exact ⟨fun b hb => (by cases hb), rfl⟩
  | cons c cs ih =>
      rw [List.all_cons, Bool.and_eq_true] at h
      obtain ⟨hbytes, hchars⟩ := ih h.2
      obtain ⟨hone, hval⟩ := utf8EncodeChar_of_ascii h.1
      rw [List.flatMap_cons, hone]
      constructor
      · intro b hb
        rcases List.mem_cons.mp hb with hb | hb
        · rw [hb, hval]
          exact of_decide_eq_true h.1
        · exact hbytes b hb
      · rw [List.singleton_append, List.map_cons, hchars, charOf_val h.1]

/-! ## Blocks -/

/-- A text without a line break. -/
def oneLine (s : List Char) : Bool := s.all fun c => c ≠ '\n' && c ≠ '\r'

theorem splitBlock_skip {xs : List Char} (h : oneLine xs = true) (acc ys : List Char) :
    splitBlock acc (xs ++ ys) = splitBlock (acc ++ xs) ys := by
  induction xs generalizing acc with
  | nil => rw [List.nil_append, List.append_nil]
  | cons c xs ih =>
      rw [oneLine, List.all_cons, Bool.and_eq_true, Bool.and_eq_true, decide_eq_true_eq,
        decide_eq_true_eq] at h
      rw [List.cons_append, splitBlock, if_neg (fun hc => h.1.1 hc.1),
        if_neg (fun hc => h.1.2 hc.1), ih h.2, List.append_assoc, List.singleton_append]

/-- What is found is found when more has come. -/
theorem splitBlock_append {p q acc block rest : List Char} (hr : '\r' ∉ p)
    (h : splitBlock acc p = some (block, rest)) :
    splitBlock acc (p ++ q) = some (block, rest ++ q) := by
  induction p generalizing acc with
  | nil => cases h
  | cons c p ih =>
      have hc : c ≠ '\r' := fun e => hr (e ▸ List.mem_cons_self)
      rw [splitBlock] at h
      rw [List.cons_append, splitBlock]
      cases p with
      | nil =>
          rw [if_neg (by simp), if_neg (fun e => hc e.1), splitBlock] at h
          cases h
      | cons d p =>
          rw [List.head?_cons] at h
          rw [List.cons_append, List.head?_cons]
          by_cases hn : c = '\n' ∧ some d = some '\n'
          · rw [if_pos hn] at h ⊢
            injection h with h
            injection h with hblock hrest
            rw [hblock, ← hrest]
            rfl
          · rw [if_neg hn, if_neg fun e => hc e.1] at h ⊢
            exact ih (fun hm => hr (List.mem_cons_of_mem _ hm)) h

theorem replaceCrLf_of_not_mem {s : List Char} (h : '\r' ∉ s) : replaceCrLf s = s := by
  induction s with
  | nil => rfl
  | cons c s ih =>
      have hc : c ≠ '\r' := fun e => h (e ▸ List.mem_cons_self)
      rw [replaceCrLf, if_neg (fun e => hc e.1), ih fun hm => h (List.mem_cons_of_mem _ hm)]

theorem linesFrom_skip {xs : List Char} (h : oneLine xs = true) (line ys : List Char) :
    linesFrom line (xs ++ ys) = linesFrom (line ++ xs) ys := by
  induction xs generalizing line with
  | nil => rw [List.nil_append, List.append_nil]
  | cons c xs ih =>
      rw [oneLine, List.all_cons, Bool.and_eq_true, Bool.and_eq_true, decide_eq_true_eq] at h
      rw [List.cons_append, linesFrom, if_neg h.1.1, ih h.2, List.append_assoc,
        List.singleton_append]

theorem not_mem_of_oneLine {s : List Char} (h : oneLine s = true) : '\r' ∉ s ∧ '\n' ∉ s := by
  rw [oneLine, List.all_eq_true] at h
  constructor
  · intro hm
    simpa using h _ hm
  · intro hm
    simpa using h _ hm

/-- An event of two lines. -/
structure TwoLines where
  first : List Char
  second : List Char
  first_line : oneLine first = true
  second_line : oneLine second = true
  second_ne : second ≠ []

namespace TwoLines

def block (e : TwoLines) : List Char := e.first ++ '\n' :: e.second

def text (e : TwoLines) : List Char := e.block ++ ['\n', '\n']

theorem not_mem_text (e : TwoLines) : '\r' ∉ e.text := by
  have h1 := (not_mem_of_oneLine e.first_line).1
  have h2 := (not_mem_of_oneLine e.second_line).1
  simp [text, block, h1, h2]

theorem splitBlock_text (e : TwoLines) : splitBlock [] e.text = some (e.block, []) := by
  obtain ⟨first, second, hfirst, hsecond, hne⟩ := e
  cases second with
  | nil => exact absurd rfl hne
  | cons c cs =>
      have hc : c ≠ '\n' := fun hn =>
        (not_mem_of_oneLine hsecond).2 (hn ▸ List.mem_cons_self)
      show splitBlock [] ((first ++ '\n' :: (c :: cs)) ++ ['\n', '\n']) =
        some (first ++ '\n' :: (c :: cs), [])
      rw [List.append_assoc, splitBlock_skip hfirst, List.nil_append, List.cons_append, splitBlock,
        if_neg (by simp [hc]), if_neg (by simp), splitBlock_skip hsecond, splitBlock,
        if_pos ⟨rfl, rfl⟩]
      simp

/-- Less than the whole text is no event. -/
theorem splitBlock_prefix (e : TwoLines) {p q : List Char} (h : p ++ q = e.text) (hq : q ≠ []) :
    splitBlock [] p = none := by
  cases hs : splitBlock [] p with
  | none => rfl
  | some found =>
      obtain ⟨block, rest⟩ := found
      have hr : '\r' ∉ p := fun hm => e.not_mem_text (h ▸ List.mem_append_left q hm)
      have happend := splitBlock_append (q := q) hr hs
      rw [h, e.splitBlock_text] at happend
      injection happend with happend
      injection happend with _ hnil
      exact absurd (List.append_eq_nil_iff.mp hnil.symm).2 hq

theorem linesFrom_block (e : TwoLines) : linesFrom [] e.block = [e.first, e.second] := by
  rw [block, linesFrom_skip e.first_line, List.nil_append, linesFrom, if_pos rfl]
  have hlast : ¬ e.first.getLast? = some '\r' := fun hl =>
    (not_mem_of_oneLine e.first_line).1 (List.mem_of_getLast? hl)
  have hrest := linesFrom_skip e.second_line [] []
  rw [List.append_nil, List.nil_append, linesFrom,
    if_neg (by simpa using e.second_ne)] at hrest
  rw [if_neg hlast, hrest]

theorem nextEvent_text (e : TwoLines) : SseParser.nextEvent e.text =
    some (ClientEvent.line (ClientEvent.line ⟨none, []⟩ e.first) e.second, []) := by
  have hr : '\r' ∉ e.block := fun hm => e.not_mem_text (List.mem_append_left _ hm)
  rw [SseParser.nextEvent, e.splitBlock_text]
  show some (parseBlock (replaceCrLf e.block), []) = _
  rw [replaceCrLf_of_not_mem hr, parseBlock, e.linesFrom_block]
  rfl

end TwoLines

/-! ## The endpoint event -/

/-- What the crates document: a URL that is a path alone does not parse without a
base, and an event is its name and its data, each on a line with a space or
without, and an empty line. -/
structure Web.Lawful (w : Web) : Prop where
  relative : ∀ text : String, text.toList.head? = some '/' → ∃ e, w.parseUrl text = .error e
  event : ∀ name data : String, oneLine name.toList = true → oneLine data.toList = true →
    ∃ gap gap' : String, (gap = "" ∨ gap = " ") ∧ (gap' = "" ∨ gap' = " ") ∧
      w.eventText name data = "event:" ++ gap ++ name ++ "\n" ++ "data:" ++ gap' ++ data ++ "\n\n"

namespace Uuid

variable (session : Uuid)

theorem oneLine_text : oneLine session.text.toList = true := by
  rw [oneLine, List.all_eq_true]
  intro c hc
  rw [Bool.and_eq_true, decide_eq_true_eq, decide_eq_true_eq]
  constructor
  · rintro rfl
    rcases session.digits _ hc with h | h | h
    · cases h
    · exact absurd h.1 (by decide)
    · cases h
  · rintro rfl
    rcases session.digits _ hc with h | h | h
    · cases h
    · exact absurd h.1 (by decide)
    · cases h

theorem isAscii_text : session.text.toList.all isAscii = true := by
  rw [List.all_eq_true]
  intro c hc
  refine decide_eq_true ?_
  rcases session.digits c hc with h | h | h
  · rw [Char.isDigit, Bool.and_eq_true, decide_eq_true_eq, decide_eq_true_eq] at h
    have hle : c.toNat ≤ 57 := h.2
    omega
  · have hle : c.toNat ≤ 102 := h.2
    omega
  · rw [h]
    decide

end Uuid

theorem toList_messagePath (session : Uuid) :
    (messagePath session).toList = "/message?sessionId=".toList ++ session.text.toList :=
  String.toList_append

theorem oneLine_messagePath (session : Uuid) : oneLine (messagePath session).toList = true := by
  have hpath : oneLine "/message?sessionId=".toList = true := by decide
  have htext := session.oneLine_text
  unfold oneLine at hpath htext ⊢
  simp only [toList_messagePath, List.all_append, hpath, htext, Bool.and_self]

theorem isAscii_messagePath (session : Uuid) :
    (messagePath session).toList.all isAscii = true := by
  have hpath : "/message?sessionId=".toList.all isAscii = true := by decide
  simp only [toList_messagePath, List.all_append, hpath, session.isAscii_text, Bool.and_self]

theorem length_messagePath (session : Uuid) : (messagePath session).toList.length = 55 := by
  have htext : session.text.toList.length = 36 := session.length
  have hpath : "/message?sessionId=".toList.length = 19 := by decide
  simp only [toList_messagePath, List.length_append, hpath, htext]

theorem head_messagePath (session : Uuid) : (messagePath session).toList.head? = some '/' := by
  simp only [toList_messagePath, List.head?_append]
  rfl

theorem line_event {gap : String} (hgap : gap = "" ∨ gap = " ") :
    ClientEvent.line ⟨none, []⟩ ("event:".toList ++ (gap.toList ++ "endpoint".toList)) =
      ⟨some "endpoint", []⟩ := by
  rcases hgap with rfl | rfl <;> decide

theorem line_data {gap : String} (hgap : gap = "" ∨ gap = " ") (session : Uuid) :
    ClientEvent.line ⟨some "endpoint", []⟩
        ("data:".toList ++ (gap.toList ++ (messagePath session).toList)) =
      ⟨some "endpoint", [messagePath session]⟩ := by
  have hhead := head_messagePath session
  obtain ⟨path, hpath⟩ : ∃ path, (messagePath session).toList = path := ⟨_, rfl⟩
  have htrim : trimStart (gap.toList ++ path) = path := by
    rw [hpath] at hhead
    cases path with
    | nil => cases hhead
    | cons c path =>
        injection hhead with hhead
        subst hhead
        rcases hgap with rfl | rfl <;> rfl
  have hline : ClientEvent.line ⟨some "endpoint", []⟩ ("data:".toList ++ (gap.toList ++ path)) =
      ⟨some "endpoint", [String.ofList (trimStart (gap.toList ++ path))]⟩ := rfl
  rw [hpath, hline, htrim, ← hpath, String.ofList_toList]

/-- The event as two lines, with the blanks there are. -/
theorem exists_twoLines {w : Web} (hw : w.Lawful) (session : Uuid) :
    ∃ e : TwoLines, (endpointEvent w session).toList = e.text ∧
      (endpointEvent w session).toList.all isAscii = true ∧
        (endpointEvent w session).toList.length ≤ 100 ∧
          SseParser.nextEvent e.text = some (⟨some "endpoint", [messagePath session]⟩, []) := by
  obtain ⟨gap, gap', hgap, hgap', htext⟩ :=
    hw.event "endpoint" (messagePath session) (by decide) (oneLine_messagePath session)
  have hfirst : ∀ gap : String, gap = "" ∨ gap = " " →
      oneLine ("event:".toList ++ (gap.toList ++ "endpoint".toList)) = true := by
    rintro gap (rfl | rfl) <;> decide
  have hsecond : ∀ gap : String, gap = "" ∨ gap = " " →
      oneLine ("data:".toList ++ (gap.toList ++ (messagePath session).toList)) = true := by
    have hpath := oneLine_messagePath session
    unfold oneLine at hpath ⊢
    rintro gap (rfl | rfl) <;> simp only [List.all_append, hpath] <;> decide
  let e : TwoLines :=
    { first := "event:".toList ++ (gap.toList ++ "endpoint".toList)
      second := "data:".toList ++ (gap'.toList ++ (messagePath session).toList)
      first_line := hfirst gap hgap
      second_line := hsecond gap' hgap'
      second_ne := by simp }
  have hlist : (endpointEvent w session).toList = e.text := by
    have hbreak : "\n".toList = ['\n'] := rfl
    have hbreaks : "\n\n".toList = ['\n', '\n'] := rfl
    unfold endpointEvent
    rw [htext, TwoLines.text, TwoLines.block]
    simp only [e, String.toList_append, hbreak, hbreaks, List.append_assoc, List.cons_append,
      List.nil_append]
  have hlength : ∀ gap : String, gap = "" ∨ gap = " " → gap.toList.length ≤ 1 := by
    rintro gap (rfl | rfl) <;> decide
  have hascii : ∀ gap : String, gap = "" ∨ gap = " " → gap.toList.all isAscii = true := by
    rintro gap (rfl | rfl) <;> decide
  have hwords : "event:".toList.all isAscii = true ∧ "endpoint".toList.all isAscii = true ∧
      "data:".toList.all isAscii = true ∧ ['\n', '\n'].all isAscii = true ∧
        isAscii '\n' = true := by decide
  have hlengths : "event:".toList.length = 6 ∧ "endpoint".toList.length = 8 ∧
      "data:".toList.length = 5 := by decide
  refine ⟨e, hlist, ?_, ?_, ?_⟩
  · rw [hlist, TwoLines.text, TwoLines.block]
    simp only [e, List.all_append, List.all_cons, hascii gap hgap, hascii gap' hgap', hwords,
      isAscii_messagePath session, Bool.and_self]
  · rw [hlist, TwoLines.text, TwoLines.block]
    have h1 := hlength gap hgap
    have h2 := hlength gap' hgap'
    simp only [e, List.length_append, List.length_cons, List.length_nil, hlengths,
      length_messagePath session]
    omega
  · rw [e.nextEvent_text, line_event hgap, line_data hgap' session]

/-! ## The reader -/

theorem byteLength_of_ascii {s : List Char} (h : s.all isAscii = true) :
    byteLength s = s.length := by
  induction s with
  | nil => rfl
  | cons c s ih =>
      rw [List.all_cons, Bool.and_eq_true] at h
      have hsize : c.utf8Size = 1 := by
        rw [Char.utf8Size_eq_one_iff, UInt32.le_iff_toNat_le]
        have hlt : c.val.toNat < 128 := of_decide_eq_true h.1
        show c.val.toNat ≤ 127
        omega
      have hrest := ih h.2
      rw [byteLength] at hrest ⊢
      rw [List.map_cons, List.sum_cons, hsize, hrest, List.length_cons, Nat.add_comm]

/-- The first event of a session, as its characters: what the reader is to be sent. -/
structure Announced (w : Web) (session : Uuid) (e : TwoLines) : Prop where
  ascii : e.text.all isAscii = true
  short : e.text.length ≤ 100
  event : SseParser.nextEvent e.text = some (⟨some "endpoint", [messagePath session]⟩, [])

namespace Announced

variable {w : Web} {session : Uuid} {e : TwoLines} {r : Reader} {buffer rest : List Char}
  {bs : List UInt8}

theorem feed (h : Announced w session e) (hbs : ∀ b ∈ bs, b.toNat < 128)
    (hparts : buffer ++ (bs.map charOf ++ rest) = e.text) :
    SseParser.feed buffer bs = some (buffer ++ bs.map charOf) := by
  have hascii := h.ascii
  have hshort := h.short
  rw [← hparts, ← List.append_assoc, List.all_append, Bool.and_eq_true] at hascii
  rw [← hparts, ← List.append_assoc, List.length_append] at hshort
  have hlength := byteLength_of_ascii hascii.1
  have hmax : maxSseBuffer = 1048576 := rfl
  rw [SseParser.feed, fromUtf8Lossy_of_ascii hbs, if_neg (by rw [hlength, hmax]; omega)]

/-- As long as something of the event is missing the reader waits. -/
theorem onEvents_of_ne_nil (hparts : buffer ++ rest = e.text) (hne : rest ≠ []) (fuel : Nat) :
    Reader.onEvents w fuel r buffer = (r, .ok buffer) := by
  cases fuel with
  | zero => rfl
  | succ fuel =>
      rw [Reader.onEvents, SseParser.nextEvent, e.splitBlock_prefix hparts hne]
      rfl

theorem validateUrl_messagePath (hw : w.Lawful) (session : Uuid) :
    ∃ err, validateUrl w.parseUrl (messagePath session) = .error (.invalid err) := by
  obtain ⟨err, herr⟩ := hw.relative (messagePath session) (head_messagePath session)
  refine ⟨err, ?_⟩
  rw [validateUrl, herr]

/-- And with the event it ends. -/
theorem onEvents_text (h : Announced w session e) {err : String}
    (herr : validateUrl w.parseUrl (messagePath session) = .error (.invalid err)) :
    Reader.onEvents w e.text.length r e.text = (r, .error (.endpoint (.invalid err))) := by
  obtain ⟨fuel, hfuel⟩ : ∃ fuel, e.text.length = fuel + 1 := by
    rw [TwoLines.text, List.length_append]
    exact ⟨e.block.length + 1, rfl⟩
  have htext : ClientEvent.text ⟨some "endpoint", [messagePath session]⟩ = messagePath session :=
    rfl
  rw [hfuel, Reader.onEvents, h.event]
  dsimp only
  rw [Reader.onEvent, if_pos rfl, htext, herr]

/-- One chunk of the event, when others follow or when it is the last. -/
theorem onChunks_bytes (h : Announced w session e) {err : String}
    (herr : validateUrl w.parseUrl (messagePath session) = .error (.invalid err))
    (hbs : ∀ b ∈ bs, b.toNat < 128) (hparts : buffer ++ (bs.map charOf ++ rest) = e.text)
    (chunks : List Chunk) :
    r.onChunks w buffer (.bytes bs :: chunks) =
      if rest = [] then (r, some (.error (.endpoint (.invalid err))))
      else r.onChunks w (buffer ++ bs.map charOf) chunks := by
  rw [Reader.onChunks, h.feed hbs hparts]
  dsimp only
  by_cases hrest : rest = []
  · rw [hrest, List.append_nil] at hparts
    rw [hparts, h.onEvents_text herr, if_pos hrest]
  · rw [← List.append_assoc] at hparts
    rw [onEvents_of_ne_nil hparts hrest, if_neg hrest]

/-- All of the event, in any chunks, before anything else. -/
theorem onChunks_all (h : Announced w session e) {err : String}
    (herr : validateUrl w.parseUrl (messagePath session) = .error (.invalid err))
    {chunks : List (List UInt8)} (hbs : ∀ b ∈ chunks.flatten, b.toNat < 128)
    (hparts : buffer ++ chunks.flatten.map charOf = e.text) (hne : chunks.flatten ≠ [])
    (later : List Chunk) :
    r.onChunks w buffer (chunks.map .bytes ++ later) =
      (r, some (.error (.endpoint (.invalid err)))) := by
  induction chunks generalizing buffer with
  | nil => exact absurd rfl hne
  | cons bs chunks ih =>
      rw [List.flatten_cons, List.map_append] at hparts
      have hfirst : ∀ b ∈ bs, b.toNat < 128 := fun b hb =>
        hbs b (by rw [List.flatten_cons]; exact List.mem_append_left _ hb)
      rw [List.map_cons, List.cons_append, h.onChunks_bytes herr hfirst hparts]
      by_cases hrest : chunks.flatten = []
      · rw [if_pos (by rw [hrest]; rfl)]
      · rw [if_neg (by simpa using hrest)]
        refine ih (fun b hb => hbs b ?_) (by rw [List.append_assoc, hparts]) hrest
        rw [List.flatten_cons]
        exact List.mem_append_right _ hb

end Announced

/-- A stream that brings the bytes, one chunk after another, unless it ends before. -/
inductive Carries : List UInt8 → List Chunk → Prop where
  | waiting (bs : List UInt8) : Carries bs []
  | closed (bs : List UInt8) (later : List Chunk) : Carries bs (.closed :: later)
  | failed (bs : List UInt8) (e : String) (later : List Chunk) : Carries bs (.failed e :: later)
  | last (bs : List UInt8) (later : List Chunk) : Carries bs (.bytes bs :: later)
  | chunk {bs rest : List UInt8} {later : List Chunk} (hne : rest ≠ []) (h : Carries rest later) :
      Carries (bs ++ rest) (.bytes bs :: later)

/-- A connection to the server: it fails, or it is answered with the stream of a
new session. -/
def Connects (w : Web) : Attempt → Prop
  | .failed _ => True
  | .answered status chunks =>
      isSuccess status = true → ∃ session, Carries (utf8Bytes (endpointEvent w session)) chunks

section

variable {w : Web} {session : Uuid} {e : TwoLines} {r : Reader}

/-- Nothing that comes of a connection is kept by the reader. -/
theorem onChunks_fst (h : Announced w session e) {err : String}
    (herr : validateUrl w.parseUrl (messagePath session) = .error (.invalid err))
    {bs : List UInt8} {chunks : List Chunk} (hc : Carries bs chunks) {buffer : List Char}
    (hbs : ∀ b ∈ bs, b.toNat < 128) (hparts : buffer ++ bs.map charOf = e.text) :
    (r.onChunks w buffer chunks).1 = r := by
  induction hc generalizing buffer with
  | waiting bs => rfl
  | closed bs later => rfl
  | failed bs err later => rfl
  | last bs later =>
      have hall : buffer ++ (bs.map charOf ++ []) = e.text := by rw [List.append_nil, hparts]
      rw [h.onChunks_bytes herr hbs hall, if_pos rfl]
  | chunk hne hc ih =>
      rw [List.map_append] at hparts
      rw [h.onChunks_bytes herr (fun b hb => hbs b (List.mem_append_left _ hb)) hparts,
        if_neg (by simpa using hne)]
      exact ih (fun b hb => hbs b (List.mem_append_right _ hb))
        (by rw [List.append_assoc, hparts])

theorem exists_announced (hw : w.Lawful) (session : Uuid) :
    ∃ e : TwoLines, Announced w session e ∧
      (∀ b ∈ utf8Bytes (endpointEvent w session), b.toNat < 128) ∧
        (utf8Bytes (endpointEvent w session)).map charOf = e.text := by
  obtain ⟨e, hlist, hascii, hshort, hevent⟩ := exists_twoLines hw session
  obtain ⟨hbytes, hchars⟩ := utf8Bytes_of_ascii hascii
  rw [hlist] at hascii hshort hchars
  exact ⟨e, ⟨hascii, hshort, hevent⟩, hbytes, hchars⟩

theorem task_fst (hw : w.Lawful) {a : Attempt} (ha : Connects w a) : (r.task w a).1 = r := by
  cases a with
  | failed e => rfl
  | answered status chunks =>
      rw [Reader.task]
      split
      · next hok =>
          obtain ⟨session, hc⟩ := ha hok
          obtain ⟨e, he, hbs, hparts⟩ := exists_announced hw session
          obtain ⟨err, herr⟩ := Announced.validateUrl_messagePath hw session
          exact onChunks_fst he herr hc hbs hparts
      · rfl

/-- No URL is ever put into the channel. -/
theorem mem_postUrl_loop (hw : w.Lawful) (maxRetries retries : Nat) {attempts : List Attempt}
    (ha : ∀ a ∈ attempts, Connects w a) {v : Option String}
    (hv : v ∈ (r.loop w maxRetries retries attempts).1.postUrl) : v ∈ r.postUrl ∨ v = none := by
  have hdrain : ∀ {r : Reader}, v ∈ r.drain.postUrl → v ∈ r.postUrl ∨ v = none := fun hm =>
    (List.mem_append.mp hm).imp id List.mem_singleton.mp
  induction attempts generalizing r retries with
  | nil => exact .inl hv
  | cons a attempts ih =>
      have htask : (r.task w a).1 = r := task_fst hw (ha a List.mem_cons_self)
      have hagain : ∀ {retries : Nat}, v ∈ (r.drain.loop w maxRetries retries attempts).1.postUrl →
          v ∈ r.postUrl ∨ v = none := fun hm =>
        (ih _ (fun a' ha' => ha a' (List.mem_cons_of_mem _ ha')) hm).elim hdrain .inr
      rw [Reader.loop] at hv
      split at hv
      · next heq =>
          rw [heq] at htask
          exact .inl (htask ▸ hv)
      · next heq =>
          rw [heq] at htask
          exact .inl (htask ▸ hv)
      · next heq =>
          rw [heq] at htask
          subst htask
          exact hagain hv
      · next heq =>
          rw [heq] at htask
          subst htask
          split at hv
          · exact hdrain hv
          · exact hagain hv

theorem request_of_none {values : List (Option String)} (hv : ∀ v ∈ values, v = none)
    (waitEnd : WaitEnd) (post : String → JsonRpcRequest → Except String Nat) (reply : ReplyEnd)
    (req : JsonRpcRequest) :
    ∃ message, request values waitEnd post reply req = .error (.http message) := by
  have hfind : values.findSome? id = none := List.findSome?_eq_none_iff.mpr hv
  cases waitEnd with
  | closed =>
      have hwait : awaitPostUrl values .closed = .ok "" := by rw [awaitPostUrl, hfind]
      unfold request
      rw [hwait]
      exact ⟨_, rfl⟩
  | timedOut =>
      have hwait : awaitPostUrl values .timedOut =
          .error (.http "SSE endpoint handshake timed out") := by rw [awaitPostUrl, hfind]
      unfold request
      rw [hwait]
      exact ⟨_, rfl⟩

/-- In whatever chunks the endpoint event comes, its URL is not put into the channel. -/
theorem not_mem_postUrl_task (hw : w.Lawful) (url : Option String) {status : Nat}
    (hok : isSuccess status = true) {chunks : List (List UInt8)} (later : List Chunk)
    (hchunks : chunks.flatten = utf8Bytes (endpointEvent w session)) :
    url ∉ (Reader.start.task w (.answered status (chunks.map .bytes ++ later))).1.postUrl := by
  obtain ⟨e, he, hbs, hparts⟩ := exists_announced hw session
  obtain ⟨err, herr⟩ := Announced.validateUrl_messagePath hw session
  rw [← hchunks] at hbs hparts
  have hne : chunks.flatten ≠ [] := by
    intro hnil
    rw [hnil, List.map_nil, TwoLines.text] at hparts
    exact absurd (List.append_eq_nil_iff.mp hparts.symm).2 (by simp)
  rw [Reader.task, if_pos hok, he.onChunks_all herr hbs hparts hne later]
  exact fun hm => by cases hm

/-- Of no session is the endpoint taken, and no request gets an answer: the URL of
its messages is never in the channel, in whatever chunks the event comes, and in
no run of the reader against the server does a request see a URL. -/
theorem endpoint_refused (hw : w.Lawful) (sseUrl : String) (session : Uuid) :
    (∀ (status : Nat) (chunks : List (List UInt8)) (later : List Chunk), isSuccess status = true →
      chunks.flatten = utf8Bytes (endpointEvent w session) →
        some (w.join sseUrl (messagePath session)) ∉
          (Reader.start.task w (.answered status (chunks.map .bytes ++ later))).1.postUrl) ∧
      ∀ (maxRetries : Nat) (attempts : List Attempt) (values : List (Option String))
        (waitEnd : WaitEnd) (post : String → JsonRpcRequest → Except String Nat)
        (reply : ReplyEnd) (req : JsonRpcRequest), (∀ a ∈ attempts, Connects w a) →
          (∀ v ∈ values, v ∈ none :: (Reader.start.loop w maxRetries 0 attempts).1.postUrl) →
            ∀ resp, request values waitEnd post reply req ≠ .ok resp := by
  refine ⟨fun status chunks later hok hchunks => not_mem_postUrl_task hw _ hok later hchunks,
    fun maxRetries attempts values waitEnd post reply req ha hv resp => ?_⟩
  have hnone : ∀ v ∈ values, v = none := by
    intro v hm
    rcases List.mem_cons.mp (hv v hm) with hv | hv
    · exact hv
    · exact (mem_postUrl_loop hw maxRetries 0 ha hv).elim (fun h => by cases h) id
  obtain ⟨message, hrequest⟩ := request_of_none hnone waitEnd post reply req
  rw [hrequest]
  exact fun h => by cases h

end

/-- What the ends owe each other for a session: the client has the URL of its
messages once the event is there, and a request that is POSTed and answered
returns the answer. -/
structure HandedOver (w : Web) (sseUrl : String) (session : Uuid) : Prop where
  accepted : ∀ (status : Nat) (chunks : List (List UInt8)) (later : List Chunk),
    isSuccess status = true → chunks.flatten = utf8Bytes (endpointEvent w session) →
      some (w.join sseUrl (messagePath session)) ∈
        (Reader.start.task w (.answered status (chunks.map .bytes ++ later))).1.postUrl
  answered : ∀ (status : Nat) (chunks : List (List UInt8)) (later : List Chunk)
    (waitEnd : WaitEnd) (req : JsonRpcRequest) (resp : JsonRpcResponse),
    isSuccess status = true → chunks.flatten = utf8Bytes (endpointEvent w session) →
      req.id.isSome = true → resp.id = req.id →
        request (Reader.start.task w (.answered status (chunks.map .bytes ++ later))).1.postUrl
          waitEnd (fun _ _ => .ok 200) (.received resp) req = .ok resp

/-- The crates, of the texts that matter here. -/
def plainWeb : Web where
  parseUrl text :=
    if "http://".toList.isPrefixOf text.toList then
      .ok (some (String.ofList ((text.toList.drop 7).takeWhile fun c => c ≠ '/' && c ≠ ':')))
    else .error "relative URL without a base"
  join base path :=
    "http://" ++ String.ofList ((base.toList.drop 7).takeWhile fun c => c ≠ '/') ++ path
  responseFromStr _ := .error "expected value at line 1 column 1"
  eventText name data := "event:" ++ " " ++ name ++ "\n" ++ "data:" ++ " " ++ data ++ "\n\n"

theorem lawful_plainWeb : plainWeb.Lawful where
  relative text h := by
    have hhttp : "http://".toList = ['h', 't', 't', 'p', ':', '/', '/'] := rfl
    refine ⟨"relative URL without a base", ?_⟩
    show (if _ then _ else _ : Except String (Option String)) = _
    rw [if_neg]
    rw [hhttp]
    cases htext : text.toList with
    | nil => simp
    | cons c cs =>
        rw [htext] at h
        injection h with h
        subst h
        simp
  event name data _ _ := ⟨" ", " ", .inr rfl, .inr rfl, rfl⟩

def aSession : Uuid :=
  { text := "6f1d0c9e-2b7a-4f53-8c1e-0a9b8c7d6e5f"
    length := by decide
    digits := by
      have hall : ("6f1d0c9e-2b7a-4f53-8c1e-0a9b8c7d6e5f".toList.all fun c =>
          decide (c.isDigit = true ∨ 'a' ≤ c ∧ c ≤ 'f' ∨ c = '-')) = true := by decide
      exact fun c hc => of_decide_eq_true (List.all_eq_true.mp hall c hc) }

theorem endpoint_refused_aSession :
    some (plainWeb.join "http://example.com/sse" (messagePath aSession)) ∉
        (Reader.start.task plainWeb (.answered 200
          ([utf8Bytes (endpointEvent plainWeb aSession)].map .bytes ++ []))).1.postUrl ∧
      request [none] .timedOut (fun _ _ => .ok 200) (.received .empty)
        (.new (.number 0) "initialize" none) ≠ .ok .empty :=
  have h := endpoint_refused lawful_plainWeb "http://example.com/sse" aSession
  ⟨h.1 200 _ [] rfl (by simp), h.2 5 [] [none] .timedOut _ _ _ (by simp) (by simp) _⟩

theorem not_handedOver_aSession :
    ¬ ∀ w : Web, w.Lawful → ∀ (sseUrl : String) (session : Uuid), HandedOver w sseUrl session := by
  intro h
  have hall : [utf8Bytes (endpointEvent plainWeb aSession)].flatten =
      utf8Bytes (endpointEvent plainWeb aSession) := List.flatten_singleton
  have hmem := (h plainWeb lawful_plainWeb "http://example.com/sse" aSession).accepted 200 _ []
    rfl hall
  exact not_mem_postUrl_task lawful_plainWeb _ rfl [] hall hmem

end Pandaria.Mcp
