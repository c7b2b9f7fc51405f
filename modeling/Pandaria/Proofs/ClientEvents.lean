import Pandaria.Mcp.Client
import Pandaria.Proofs.SseChunks

/-!
# Events of the MCP client, however they come

The client takes out of its buffer the text up to the separator that comes first,
of either kind, and these are the blocks of the text. Text that is fed in pieces
has the blocks of the whole text, so neither a separator that is cut nor separators
of both kinds do any harm.

The cut of a buffer that is too long does: it comes before the events of the chunk
are taken out, and all that is in front of the place it looks for is dropped. As an
event fits into the buffer, one of these is complete. And a character that is cut
in two is lost.
-/

namespace Pandaria.Mcp.SseParser

open Pandaria.Ai
open Pandaria.Ai.SseDecoder (SseBlock Separator blocks consBlock)

/-! ## What is taken out of a buffer -/

/-- What the events say that the transport reads. -/
def Event.read (e : Event) : ClientEvent := ⟨e.event, e.data⟩

theorem read_line (e : Event) (line : List Char) : (e.line line).read = e.read.line line := by
  rw [Event.line, ClientEvent.line]
  repeat' split
  all_goals rfl

theorem nextEvent_eq (buffer : SseParser) : nextEvent buffer =
    (splitBlock [] buffer).map fun (block, rest) => ((parseEvent block).read, rest) := by
  have hparse (block : List Char) : (parseEvent block).read = parseBlock (replaceCrLf block) :=
    (List.foldl_hom Event.read fun e line => (read_line e line).symm).symm
  simp only [nextEvent, hparse]

/-- Where no separator begins the scan goes on. -/
theorem splitBlock_step {c : Char} {rest : List Char} (acc : List Char)
    (hlf : ∀ left, c = '\n' → rest = '\n' :: left → False)
    (hcrlf : ∀ left, c = '\r' → rest = '\n' :: '\r' :: '\n' :: left → False) :
    splitBlock acc (c :: rest) = splitBlock (acc ++ [c]) rest := by
  have hnot : ¬ (c = '\n' ∧ rest.head? = some '\n') := by
    intro h
    obtain ⟨left, hleft⟩ := List.head?_eq_some_iff.1 h.2
    exact hlf left h.1 hleft
  have hnot' : ¬ (c = '\r' ∧ rest.take 3 = ['\n', '\r', '\n']) := by
    intro h
    refine hcrlf (rest.drop 3) h.1 ?_
    rw [← List.take_append_drop 3 rest, h.2]
    simp
  rw [splitBlock, if_neg hnot, if_neg hnot']

theorem splitBlock_nil {text : List Char} (acc : List Char) (h : (blocks text).1 = []) :
    splitBlock acc text = none := by
  induction text using SseDecoder.blocks.induct generalizing acc with
  | case1 rest ih => cases h
  | case2 rest ih => cases h
  | case3 c rest hlf hcrlf ih =>
      rw [splitBlock_step acc hlf hcrlf]
      refine ih _ (List.length_eq_zero_iff.1 ?_)
      rw [← SseDecoder.consBlock_length c, ← SseDecoder.blocks.eq_3 c rest hlf hcrlf, h,
        List.length_nil]
  | case4 => rfl

theorem splitBlock_cons {text : List Char} {b : SseBlock} {bs : List SseBlock} (acc : List Char)
    (h : (blocks text).1 = b :: bs) :
    ∃ rest, splitBlock acc text = some (acc ++ b.raw, rest) ∧
      blocks rest = (bs, (blocks text).2) ∧ rest.length < text.length := by
  induction text using SseDecoder.blocks.induct generalizing acc b with
  | case1 rest ih =>
      obtain ⟨rfl, rfl⟩ := List.cons.inj h
      refine ⟨rest, ?_, rfl, ?_⟩
      · rw [splitBlock, if_pos ⟨rfl, rfl⟩, List.append_nil]
        rfl
      · simp only [List.length_cons]
        omega
  | case2 rest ih =>
      obtain ⟨rfl, rfl⟩ := List.cons.inj h
      refine ⟨rest, ?_, rfl, ?_⟩
      · rw [splitBlock, if_neg (by simp), if_pos ⟨rfl, rfl⟩, List.append_nil]
        rfl
      · simp only [List.length_cons]
        omega
  | case3 c rest hlf hcrlf ih =>
      rw [SseDecoder.blocks.eq_3 c rest hlf hcrlf] at h
      cases hblocks : (blocks rest).1 with
      | nil =>
          rw [SseDecoder.consBlock_of_nil hblocks] at h
          cases h
      | cons b' bs' =>
          rw [SseDecoder.consBlock_of_cons hblocks] at h
          obtain ⟨rfl, rfl⟩ := List.cons.inj h
          obtain ⟨left, hsplit, hleft, hlt⟩ := ih (acc ++ [c]) hblocks
          refine ⟨left, ?_, ?_, Nat.lt_succ_of_lt hlt⟩
          · rw [splitBlock_step acc hlf hcrlf, hsplit, List.append_assoc]
            rfl
          · rw [hleft, SseDecoder.blocks.eq_3 c rest hlf hcrlf,
              SseDecoder.consBlock_of_cons hblocks]
  | case4 => cases h

section
variable {α : Type} (parse : List Char → α)

theorem drainTimes_eq {n : Nat} {text : List Char} (hn : text.length ≤ n) :
    drainTimes parse n text = ((blocks text).1.map fun b => parse b.raw, (blocks text).2) := by
  induction n generalizing text with
  | zero =>
      obtain rfl := List.length_eq_zero_iff.1 (Nat.le_zero.1 hn)
      rfl
  | succ n ih =>
      rw [drainTimes]
      cases hblocks : (blocks text).1 with
      | nil =>
          rw [splitBlock_nil [] hblocks, SseDecoder.blocks_of_nil hblocks]
          rfl
      | cons b bs =>
          obtain ⟨rest, hsplit, hrest, hlt⟩ := splitBlock_cons [] hblocks
          have htail := @ih rest (by omega)
          rw [hrest] at htail
          rw [hsplit]
          show (parse b.raw :: (drainTimes parse n rest).1, (drainTimes parse n rest).2) = _
          rw [htail]
          rfl

theorem drain_eq (text : List Char) :
    drain parse text = ((blocks text).1.map fun b => parse b.raw, (blocks text).2) :=
  drainTimes_eq parse (Nat.le_refl _)

/-! ## Chunks that fit -/

/-- No chunk makes the buffer too long for what is in it when the chunk comes. -/
def Fits (buffer : SseParser) : List (List UInt8) → Prop
  | [] => True
  | bs :: chunks =>
      byteLength (buffer ++ fromUtf8Lossy bs) ≤ maxSseBuffer ∧
        Fits (drain id (buffer ++ fromUtf8Lossy bs)).2 chunks

/-- The text that is fed. -/
def fed (chunks : List (List UInt8)) : List Char := chunks.flatMap fromUtf8Lossy

theorem fed_cons (bs : List UInt8) (chunks : List (List UInt8)) :
    fed (bs :: chunks) = fromUtf8Lossy bs ++ fed chunks := List.flatMap_cons

theorem feed_of_le {buffer : SseParser} {bs : List UInt8}
    (h : byteLength (buffer ++ fromUtf8Lossy bs) ≤ maxSseBuffer) :
    feed buffer bs = some (buffer ++ fromUtf8Lossy bs) :=
  if_neg (Nat.not_lt.2 h)

def count (text : List Char) : Nat := (blocks text).1.length

theorem count_append (text more : List Char) :
    count (text ++ more) = count text + count ((blocks text).2 ++ more) := by
  rw [count, SseDecoder.blocks_append, List.length_append]
  rfl

theorem count_step {c : Char} {rest : List Char}
    (hlf : ∀ left, c = '\n' → rest = '\n' :: left → False)
    (hcrlf : ∀ left, c = '\r' → rest = '\n' :: '\r' :: '\n' :: left → False) :
    count (c :: rest) = count rest := by
  rw [count, SseDecoder.blocks.eq_3 c rest hlf hcrlf, SseDecoder.consBlock_length]
  rfl

/-- One character in front ends at most one block more, and takes none away. Induction on the
length, as a separator that begins there is followed by up to three characters of it. -/
theorem count_cons (k : Nat) : ∀ (c : Char) (text : List Char), text.length ≤ k →
    count text ≤ count (c :: text) ∧ count (c :: text) ≤ count text + 1 := by
  induction k with
  | zero =>
      intro c text hk
      obtain rfl := List.length_eq_zero_iff.1 (Nat.le_zero.1 hk)
      rw [count_step (fun _ _ h => by cases h) fun _ _ h => by cases h]
      omega
  | succ k ih =>
      intro c text hk
      by_cases hlf : ∃ left, c = '\n' ∧ text = '\n' :: left
      · obtain ⟨left, rfl, rfl⟩ := hlf
        have hleft := ih '\n' left (by simpa using hk)
        have hwhole : count ('\n' :: '\n' :: left) = count left + 1 := rfl
        omega
      by_cases hcrlf : ∃ left, c = '\r' ∧ text = '\n' :: '\r' :: '\n' :: left
      · obtain ⟨left, rfl, rfl⟩ := hcrlf
        have hlen : left.length + 1 ≤ k := by
          simp only [List.length_cons] at hk
          omega
        have hwhole : count ('\r' :: '\n' :: '\r' :: '\n' :: left) = count left + 1 := rfl
        have hbreak : count ('\n' :: '\r' :: '\n' :: left) = count ('\r' :: '\n' :: left) :=
          count_step (fun _ _ h => absurd (List.cons.inj h).1 (by decide))
            fun _ h _ => absurd h (by decide)
        have hone := ih '\n' left (by omega)
        have htwo := ih '\r' ('\n' :: left) hlen
        -- A second separator may begin with the line break that is left of the first.
        by_cases hmore : ∃ more, left = '\r' :: '\n' :: more
        · obtain ⟨more, rfl⟩ := hmore
          have hnext : count ('\r' :: '\n' :: '\r' :: '\n' :: more) = count more + 1 := rfl
          have hthree := ih '\n' more (by simp only [List.length_cons] at hlen; omega)
          have hfour := ih '\r' ('\n' :: more)
            (by simp only [List.length_cons] at hlen ⊢; omega)
          omega
        · have hsame : count ('\r' :: '\n' :: left) = count ('\n' :: left) :=
            count_step (fun _ h _ => absurd h (by decide))
              fun more _ h => hmore ⟨more, (List.cons.inj h).2⟩
          omega
      · have hsame : count (c :: text) = count text :=
          count_step (fun left hc ht => hlf ⟨left, hc, ht⟩) fun left hc ht => hcrlf ⟨left, hc, ht⟩
        omega

theorem count_suffix (front text : List Char) : count text ≤ count (front ++ text) := by
  induction front with
  | nil => exact Nat.le_refl _
  | cons c front ih => exact Nat.le_trans ih (count_cons _ c _ (Nat.le_refl _)).1

theorem dropBytes_suffix {text tail : List Char} {n : Nat} (h : dropBytes text n = some tail) :
    ∃ front, text = front ++ tail := by
  induction text, n using dropBytes.induct with
  | case1 text => exact ⟨[], by simpa [dropBytes] using h⟩
  | case2 n => cases h
  | case3 c cs n hle ih =>
      rw [dropBytes, if_pos hle] at h
      obtain ⟨front, hfront⟩ := ih h
      exact ⟨c :: front, congrArg _ hfront⟩
  | case4 c cs n hle =>
      rw [dropBytes, if_neg hle] at h
      cases h

theorem afterBreak_some {text tail : List Char} (h : afterBreak text = some tail) :
    ∃ front, text = front ++ '\n' :: '\n' :: tail := by
  induction text with
  | nil => cases h
  | cons c cs ih =>
      rw [afterBreak] at h
      split at h
      · next hbreak =>
        obtain ⟨left, rfl⟩ := List.head?_eq_some_iff.1 hbreak.2
        refine ⟨[], ?_⟩
        rw [hbreak.1, ← Option.some.inj h]
        rfl
      · obtain ⟨front, hfront⟩ := ih h
        exact ⟨c :: front, congrArg _ hfront⟩

/-- What `feed` leaves of a buffer that is too long. -/
theorem feed_of_gt {buffer left : SseParser} {bs : List UInt8}
    (hlong : maxSseBuffer < byteLength (buffer ++ fromUtf8Lossy bs))
    (h : feed buffer bs = some left) :
    left = [] ∨ ∃ front, buffer ++ fromUtf8Lossy bs = front ++ '\n' :: '\n' :: left := by
  rw [feed, if_pos hlong, Option.map_eq_some_iff] at h
  obtain ⟨tail, htail, rfl⟩ := h
  cases hbreak : afterBreak tail with
  | none => exact Or.inl rfl
  | some left =>
      obtain ⟨front, hfront⟩ := dropBytes_suffix htail
      obtain ⟨front', hfront'⟩ := afterBreak_some hbreak
      refine Or.inr ⟨front ++ front', ?_⟩
      rw [hfront, hfront', List.append_assoc]
      rfl

theorem feed_suffix {buffer left : SseParser} {bs : List UInt8} (h : feed buffer bs = some left) :
    ∃ front, buffer ++ fromUtf8Lossy bs = front ++ left := by
  by_cases hlong : maxSseBuffer < byteLength (buffer ++ fromUtf8Lossy bs)
  · rcases feed_of_gt hlong h with rfl | ⟨front, hfront⟩
    · exact ⟨_, (List.append_nil _).symm⟩
    · refine ⟨front ++ ['\n', '\n'], ?_⟩
      rw [hfront, List.append_assoc]
      rfl
  · rw [feed_of_le (Nat.not_lt.1 hlong)] at h
    exact ⟨[], Option.some.inj h⟩

/-- With a complete event in it a buffer that is too long has an event less. -/
theorem count_of_gt {buffer left : SseParser} {bs : List UInt8}
    (hlong : maxSseBuffer < byteLength (buffer ++ fromUtf8Lossy bs))
    (hcomplete : (blocks (buffer ++ fromUtf8Lossy bs)).1 ≠ [])
    (h : feed buffer bs = some left) (more : List Char) :
    count (left ++ more) < count (buffer ++ fromUtf8Lossy bs ++ more) := by
  rcases feed_of_gt hlong h with rfl | ⟨front, hfront⟩
  · have hone : 0 < count (buffer ++ fromUtf8Lossy bs) := List.length_pos_iff.2 hcomplete
    have hmore := count_suffix (blocks (buffer ++ fromUtf8Lossy bs)).2 more
    rw [count_append (buffer ++ fromUtf8Lossy bs)]
    show count more < _
    omega
  · have hwhole : count ('\n' :: '\n' :: (left ++ more)) = count (left ++ more) + 1 := rfl
    have hsuffix := count_suffix front ('\n' :: '\n' :: (left ++ more))
    rw [hfront, List.append_assoc]
    show count (left ++ more) < count (front ++ '\n' :: '\n' :: (left ++ more))
    omega

/-! ## Events that fit into the buffer -/

/-- The text of an event with the empty line that ends it. -/
def blockText (b : SseBlock) : List Char :=
  b.raw ++ match b.sep with
    | .lf => ['\n', '\n']
    | .crlf => ['\r', '\n', '\r', '\n']

/-- No single event is longer than the buffer may be, the one that is not complete included. -/
structure Short (text : List Char) : Prop where
  complete : ∀ b ∈ (blocks text).1, byteLength (blockText b) ≤ maxSseBuffer
  unfinished : byteLength (blocks text).2 ≤ maxSseBuffer

theorem blocks_join (text : List Char) :
    (blocks text).1.flatMap blockText ++ (blocks text).2 = text := by
  induction text using SseDecoder.blocks.induct with
  | case1 rest ih => exact congrArg (fun t => '\n' :: '\n' :: t) ih
  | case2 rest ih => exact congrArg (fun t => '\r' :: '\n' :: '\r' :: '\n' :: t) ih
  | case3 c rest hlf hcrlf ih =>
      rw [SseDecoder.blocks.eq_3 c rest hlf hcrlf]
      cases hblocks : (blocks rest).1 with
      | nil => rw [SseDecoder.consBlock_of_nil hblocks, SseDecoder.blocks_of_nil hblocks]; rfl
      | cons b bs =>
          rw [hblocks] at ih
          rw [SseDecoder.consBlock_of_cons hblocks]
          exact congrArg (c :: ·) ih
  | case4 => rfl

theorem count_blockText (b : SseBlock) (text : List Char) : 0 < count (blockText b ++ text) := by
  have hsuffix (ending : List Char) (h : 0 < count (ending ++ text)) :
      0 < count (b.raw ++ ending ++ text) := by
    rw [List.append_assoc]
    exact Nat.lt_of_lt_of_le h (count_suffix b.raw _)
  rw [blockText]
  cases b.sep with
  | lf => exact hsuffix _ (Nat.succ_pos _)
  | crlf => exact hsuffix _ (Nat.succ_pos _)

theorem byteLength_le_append (s t : List Char) : byteLength s ≤ byteLength (s ++ t) := by
  rw [byteLength, byteLength, List.map_append, List.sum_append]
  exact Nat.le_add_right _ _

/-- A text without a complete event is no longer than the event it begins. -/
theorem Short.le {text more : List Char} (h : Short (text ++ more)) (hnone : (blocks text).1 = []) :
    byteLength text ≤ maxSseBuffer := by
  cases hblocks : (blocks (text ++ more)).1 with
  | nil =>
      have hunfinished := h.unfinished
      rw [SseDecoder.blocks_of_nil hblocks] at hunfinished
      exact Nat.le_trans (byteLength_le_append text more) hunfinished
  | cons b bs =>
      have hb := h.complete b (by rw [hblocks]; exact List.mem_cons_self)
      have hjoin := blocks_join (text ++ more)
      rw [hblocks, List.flatMap_cons, List.append_assoc] at hjoin
      rcases List.append_eq_append_iff.1 hjoin with ⟨inner, hinner, -⟩ | ⟨inner, hinner, -⟩
      · have hpos := count_blockText b inner
        rw [← hinner, count, hnone, List.length_nil] at hpos
        omega
      · rw [hinner] at hb
        exact Nat.le_trans (byteLength_le_append text inner) hb

theorem Short.rest {text more : List Char} (h : Short (text ++ more)) :
    Short ((blocks text).2 ++ more) := by
  obtain ⟨hcomplete, hunfinished⟩ := h
  rw [SseDecoder.blocks_append] at hcomplete hunfinished
  exact ⟨fun b hb => hcomplete b (List.mem_append_right _ hb), hunfinished⟩

/-! ## What a run yields -/

theorem run_cons {buffer : SseParser} {bs : List UInt8} {chunks : List (List UInt8)}
    {out : List α × SseParser} (h : run parse buffer (bs :: chunks) = some out) :
    ∃ left more, feed buffer bs = some left ∧
      run parse (blocks left).2 chunks = some more ∧
      out.1.length = count left + more.1.length := by
  rw [run, Option.bind_eq_some_iff] at h
  obtain ⟨left, hfeed, h⟩ := h
  rw [drain_eq] at h
  obtain ⟨more, hmore, hout⟩ := Option.map_eq_some_iff.1 h
  refine ⟨left, more, hfeed, hmore, ?_⟩
  rw [← hout]
  show (_ ++ more.1).length = _
  rw [List.length_append, List.length_map]
  rfl

/-- No run makes events. -/
theorem run_le {chunks : List (List UInt8)} {buffer : SseParser} {out : List α × SseParser}
    (h : run parse buffer chunks = some out) : out.1.length ≤ count (buffer ++ fed chunks) := by
  induction chunks generalizing buffer out with
  | nil =>
      obtain rfl := Option.some.inj h
      exact Nat.zero_le _
  | cons bs chunks ih =>
      obtain ⟨left, more, hfeed, hmore, hlength⟩ := run_cons parse h
      obtain ⟨front, hfront⟩ := feed_suffix hfeed
      have hrest := ih hmore
      have hsuffix := count_suffix front (left ++ fed chunks)
      rw [fed_cons, ← List.append_assoc, hfront, List.append_assoc, hlength]
      rw [count_append left] at hsuffix
      omega

/-- And one that has a chunk that does not fit loses one. -/
theorem run_lt {chunks : List (List UInt8)} {buffer : SseParser} {out : List α × SseParser}
    (hshort : Short (buffer ++ fed chunks)) (hfits : ¬ Fits buffer chunks)
    (h : run parse buffer chunks = some out) : out.1.length < count (buffer ++ fed chunks) := by
  induction chunks generalizing buffer out with
  | nil => exact absurd trivial hfits
  | cons bs chunks ih =>
      obtain ⟨left, more, hfeed, hmore, hlength⟩ := run_cons parse h
      rw [fed_cons, ← List.append_assoc] at hshort ⊢
      by_cases hle : byteLength (buffer ++ fromUtf8Lossy bs) ≤ maxSseBuffer
      · rw [feed_of_le hle] at hfeed
        obtain rfl := Option.some.inj hfeed
        have hnot : ¬ Fits (blocks (buffer ++ fromUtf8Lossy bs)).2 chunks := by
          intro hrest
          refine hfits ⟨hle, ?_⟩
          rw [drain_eq]
          exact hrest
        have hrest := ih hshort.rest hnot hmore
        rw [count_append, hlength]
        omega
      · have hcomplete : (blocks (buffer ++ fromUtf8Lossy bs)).1 ≠ [] := by
          intro hnone
          exact hle (hshort.le hnone)
        have hlost := count_of_gt (Nat.lt_of_not_le hle) hcomplete hfeed (fed chunks)
        have hrest := run_le parse hmore
        rw [count_append left] at hlost
        omega

/-- The chunks yield what their bytes do at once: the events of the whole text in one buffer,
with the text that is left. -/
def Yields (chunks : List (List UInt8)) : Prop :=
  run parse [] chunks = some (drain parse (fromUtf8Lossy chunks.flatten))

/-- Decoded one by one the chunks are what they are at once. -/
def Whole (chunks : List (List UInt8)) : Prop := fed chunks = fromUtf8Lossy chunks.flatten

theorem Yields.fits {chunks : List (List UInt8)} (hshort : Short (fed chunks))
    (h : Yields parse chunks) : Fits [] chunks := by
  by_contra hfits
  have hlost := run_lt parse hshort hfits h
  have hblocks := (SseDecoder.blocks_blur (blur_chunks chunks)).1.length_eq
  rw [drain_eq, List.length_map, hblocks] at hlost
  exact Nat.lt_irrefl _ hlost

end

end Pandaria.Mcp.SseParser
