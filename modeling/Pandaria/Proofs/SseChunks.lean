import Pandaria.Proofs.SseParse

/-!
# Events that come in pieces

A stream of events is blocks, each ended by one of two separators, and what is
left when the connection closes. The decoder looks for the longer separator
first, in all it has at the moment, so blocks that end in the shorter one are
read as one block with the next that ends in the longer; how many of them are
still there to be read so depends on where the stream was cut.

`streamEvents` is what the blocks say in the order of the stream, and the
events are these, however the bytes are cut, exactly when no event holds a
character of several bytes and no two blocks that are read as one say anything
different then.
-/

namespace Pandaria.Ai.SseDecoder

/-! ## Blocks -/

inductive Separator where
  | lf
  | crlf
deriving DecidableEq

structure SseBlock where
  raw : List Char
  sep : Separator
deriving DecidableEq

/-- One more character in front. -/
def consBlock (c : Char) : List SseBlock × List Char → List SseBlock × List Char
  | ([], rest) => ([], c :: rest)
  | (b :: bs, rest) => ({ b with raw := c :: b.raw } :: bs, rest)

/-- The blocks of a text, each up to the separator that comes first, and what
is left after the last. -/
def blocks : List Char → List SseBlock × List Char
  | '\n' :: '\n' :: rest => (⟨[], .lf⟩ :: (blocks rest).1, (blocks rest).2)
  | '\r' :: '\n' :: '\r' :: '\n' :: rest => (⟨[], .crlf⟩ :: (blocks rest).1, (blocks rest).2)
  | c :: rest => consBlock c (blocks rest)
  | [] => ([], [])

attribute [local simp] blocks

/-- All that is parsed of a text, in the order of the stream. -/
def parts (text : List Char) : List (List Char) :=
  (blocks text).1.map SseBlock.raw ++ [(blocks text).2]

def streamEvents (text : List Char) : List SseEvent := (parts text).filterMap parseEvent

example : streamEvents "data: a\n\ndata: b\r\n\r\ndata: c".toList =
    [⟨none, "a", none⟩, ⟨none, "b", none⟩, ⟨none, "c", none⟩] := by decide

/-! ## Blocks that are read as one -/

/-- The text up to the first long separator, and the blocks after it. -/
def mergeFirst : List SseBlock → Option (List Char × List SseBlock)
  | [] => none
  | ⟨raw, .crlf⟩ :: rest => some (raw, rest)
  | ⟨raw, .lf⟩ :: rest => (mergeFirst rest).map fun (merged, left) =>
      (raw ++ '\n' :: '\n' :: merged, left)

/-- What is parsed when all blocks are there at once. -/
def mergeBlocks : List SseBlock → List (List Char)
  | [] => []
  | ⟨raw, .crlf⟩ :: rest => raw :: mergeBlocks rest
  | ⟨raw, .lf⟩ :: rest =>
      match mergeFirst rest, mergeBlocks rest with
      | some _, merged :: left => (raw ++ '\n' :: '\n' :: merged) :: left
      | _, raws => raw :: raws

theorem consBlock_of_nil {c : Char} {p : List SseBlock × List Char} (h : p.1 = []) :
    consBlock c p = ([], c :: p.2) := by
  obtain ⟨bs, rest⟩ := p
  subst h
  rfl

theorem consBlock_of_cons {c : Char} {p : List SseBlock × List Char} {b : SseBlock}
    {bs : List SseBlock} (h : p.1 = b :: bs) : consBlock c p = ({ b with raw := c :: b.raw } :: bs, p.2) := by
  obtain ⟨bs', rest⟩ := p
  subst h
  rfl

theorem mergeFirst_consBlock (c : Char) (p : List SseBlock × List Char) :
    mergeFirst (consBlock c p).1 = (mergeFirst p.1).map fun (raw, left) => (c :: raw, left) := by
  obtain ⟨bs, rest⟩ := p
  cases bs with
  | nil => rfl
  | cons b bs =>
      obtain ⟨raw, sep⟩ := b
      cases sep with
      | crlf => rfl
      | lf => simp [consBlock, mergeFirst, Function.comp_def]

/-- A separator is found where the pattern begins. -/
theorem splitAtFirst_of_not_start {pattern : List Char} {c : Char} {rest : List Char}
    (h : ¬ pattern <+: c :: rest) : splitAtFirst pattern (c :: rest) =
      (splitAtFirst pattern rest).map fun (raw, left) => (c :: raw, left) := by
  rw [splitAtFirst, if_neg fun hp => h (List.isPrefixOf_iff_prefix.mp hp)]

theorem not_starts_crlf {c : Char} {rest : List Char}
    (h : ∀ left, c = '\r' → rest = '\n' :: '\r' :: '\n' :: left → False) :
    ¬ ['\r', '\n', '\r', '\n'] <+: c :: rest := by
  rintro ⟨left, hleft⟩
  injection hleft with hc hrest
  exact h left hc.symm hrest.symm

theorem not_starts_lf {c : Char} {rest : List Char}
    (h : ∀ left, c = '\n' → rest = '\n' :: left → False) : ¬ ['\n', '\n'] <+: c :: rest := by
  rintro ⟨left, hleft⟩
  injection hleft with hc hrest
  exact h left hc.symm hrest.symm

/-- The long separator is looked for in all there is. -/
theorem splitAtFirst_crlf (text : List Char) :
    (splitAtFirst ['\r', '\n', '\r', '\n'] text).map (fun (raw, rest) => (raw, blocks rest)) =
      (mergeFirst (blocks text).1).map fun (raw, bs) => (raw, (bs, (blocks text).2)) := by
  induction text using blocks.induct with
  | case1 rest ih =>
      have hstep := congrArg (Option.map fun (raw, p) => ('\n' :: '\n' :: raw, p)) ih
      rw [splitAtFirst_of_not_start (not_starts_crlf (by simp)),
        splitAtFirst_of_not_start (not_starts_crlf (by simp)), blocks, mergeFirst]
      simpa [Function.comp_def] using hstep
  | case2 rest ih =>
      rw [blocks, mergeFirst, splitAtFirst, if_pos (by simp)]
      rfl
  | case3 c rest hlf hcrlf ih =>
      have hstep := congrArg (Option.map fun (raw, p) => (c :: raw, p)) ih
      rw [splitAtFirst_of_not_start (not_starts_crlf hcrlf), blocks.eq_3 c rest hlf hcrlf,
        mergeFirst_consBlock]
      cases hb : (blocks rest).1 with
      | nil => simpa [hb, mergeFirst, Function.comp_def] using hstep
      | cons b bs =>
          rw [consBlock_of_cons hb]
          simpa [hb, Function.comp_def] using hstep
  | case4 => rfl

/-- The short one is looked for when there is no long one. -/
theorem splitAtFirst_lf (text : List Char) (h : mergeFirst (blocks text).1 = none) :
    (splitAtFirst ['\n', '\n'] text).map (fun (raw, rest) => (raw, blocks rest)) =
      (blocks text).1.head?.map fun b => (b.raw, ((blocks text).1.tail, (blocks text).2)) := by
  induction text using blocks.induct with
  | case1 rest ih =>
      rw [blocks, splitAtFirst, if_pos (by simp)]
      rfl
  | case2 rest ih =>
      rw [blocks, mergeFirst] at h
      cases h
  | case3 c rest hlf hcrlf ih =>
      rw [blocks.eq_3 c rest hlf hcrlf, mergeFirst_consBlock, Option.map_eq_none_iff] at h
      have hstep := congrArg (Option.map fun q => (c :: q.1, q.2)) (ih h)
      rw [splitAtFirst_of_not_start (not_starts_lf hlf), blocks.eq_3 c rest hlf hcrlf]
      cases hb : (blocks rest).1 with
      | nil =>
          rw [consBlock_of_nil hb]
          simpa [hb, Function.comp_def] using hstep
      | cons b bs =>
          rw [consBlock_of_cons hb]
          simpa [hb, Function.comp_def] using hstep
  | case4 => rfl

theorem mergeBlocks_of_some {bs left : List SseBlock} {raw : List Char}
    (h : mergeFirst bs = some (raw, left)) : mergeBlocks bs = raw :: mergeBlocks left := by
  induction bs generalizing raw with
  | nil => cases h
  | cons b bs ih =>
      obtain ⟨raw', sep⟩ := b
      cases sep with
      | crlf =>
          injection h with h
          injection h with h h'
          rw [mergeBlocks, h, h']
      | lf =>
          obtain ⟨⟨merged, left'⟩, hm, heq⟩ := Option.map_eq_some_iff.mp h
          injection heq with heq hleft
          subst hleft heq
          rw [mergeBlocks, hm, ih hm]

theorem mergeBlocks_of_none {bs : List SseBlock} (h : mergeFirst bs = none) :
    mergeBlocks bs = bs.map SseBlock.raw := by
  induction bs with
  | nil => rfl
  | cons b bs ih =>
      obtain ⟨raw, sep⟩ := b
      cases sep with
      | crlf => cases h
      | lf =>
          have hrest := Option.map_eq_none_iff.mp h
          rw [mergeBlocks, hrest, ih hrest]
          rfl

theorem blocks_of_nil {text : List Char} (h : (blocks text).1 = []) : (blocks text).2 = text := by
  induction text using blocks.induct with
  | case1 rest ih => cases h
  | case2 rest ih => cases h
  | case3 c rest hlf hcrlf ih =>
      rw [blocks.eq_3 c rest hlf hcrlf] at h ⊢
      cases hb : (blocks rest).1 with
      | nil => rw [consBlock_of_nil hb, ih hb]
      | cons b bs =>
          rw [consBlock_of_cons hb] at h
          cases h
  | case4 => rfl

/-- What is flushed first is what the blocks are read as first. -/
theorem tryFlushEvent_cons {text raw : List Char} {raws : List (List Char)}
    (h : mergeBlocks (blocks text).1 = raw :: raws) :
    ∃ rest, tryFlushEvent text = some (parseEvent raw, rest) ∧
      mergeBlocks (blocks rest).1 = raws ∧ (blocks rest).2 = (blocks text).2 := by
  have hcrlf := splitAtFirst_crlf text
  cases hm : mergeFirst (blocks text).1 with
  | some p =>
      obtain ⟨raw', bs⟩ := p
      rw [hm, Option.map_some, Option.map_eq_some_iff] at hcrlf
      obtain ⟨⟨raw'', rest⟩, hsplit, heq⟩ := hcrlf
      injection heq with hraw hrest
      rw [mergeBlocks_of_some hm] at h
      injection h with hhead htail
      refine ⟨rest, ?_, by rw [hrest, htail], by rw [hrest]⟩
      rw [tryFlushEvent, hsplit, ← hhead, hraw]
  | none =>
      have hlf := splitAtFirst_lf text hm
      rw [hm, Option.map_none, Option.map_eq_none_iff] at hcrlf
      rw [mergeBlocks_of_none hm] at h
      obtain ⟨b, bs, hb, hhead, htail⟩ := List.map_eq_cons_iff.mp h
      rw [hb, List.head?_cons, Option.map_some, Option.map_eq_some_iff] at hlf
      obtain ⟨⟨raw', rest⟩, hsplit, heq⟩ := hlf
      injection heq with hraw hrest
      have hnone : mergeFirst bs = none := by
        rw [hb] at hm
        obtain ⟨raw'', sep⟩ := b
        cases sep with
        | crlf => cases hm
        | lf => exact Option.map_eq_none_iff.mp hm
      refine ⟨rest, ?_, ?_, by rw [hrest]⟩
      · rw [tryFlushEvent, hcrlf, hsplit, ← hhead, ← hraw]
        rfl
      · rw [hrest, List.tail_cons, mergeBlocks_of_none hnone, htail]

theorem tryFlushEvent_nil {text : List Char} (h : (blocks text).1 = []) :
    tryFlushEvent text = none := by
  have hcrlf := splitAtFirst_crlf text
  have hlf := splitAtFirst_lf text (by rw [h]; rfl)
  rw [h] at hcrlf hlf
  rw [tryFlushEvent, Option.map_eq_none_iff.mp hcrlf, Option.map_eq_none_iff.mp hlf]
  rfl

theorem mergeBlocks_eq_nil {bs : List SseBlock} (h : mergeBlocks bs = []) : bs = [] := by
  cases hm : mergeFirst bs with
  | some p =>
      rw [mergeBlocks_of_some hm] at h
      cases h
  | none =>
      rw [mergeBlocks_of_none hm] at h
      exact List.map_eq_nil_iff.mp h

/-- And all that is flushed is what they are read as. -/
theorem flushTimes_eq {n : Nat} {text : List Char} (hn : text.length ≤ n) :
    flushTimes n text = ((mergeBlocks (blocks text).1).filterMap parseEvent, (blocks text).2) := by
  induction n generalizing text with
  | zero =>
      obtain rfl := List.length_eq_zero_iff.mp (Nat.le_zero.mp hn)
      rfl
  | succ n ih =>
      rw [flushTimes]
      cases hraws : mergeBlocks (blocks text).1 with
      | nil =>
          have hnil := mergeBlocks_eq_nil hraws
          rw [tryFlushEvent_nil hnil, blocks_of_nil hnil]
          rfl
      | cons raw raws =>
          obtain ⟨rest, hflush, hrest, hleft⟩ := tryFlushEvent_cons hraws
          have hlt := tryFlushEvent_length hflush
          have htail : flushTimes n rest = _ := ih (by omega)
          rw [hrest, hleft] at htail
          rw [hflush]
          show ((parseEvent raw).toList ++ (flushTimes n rest).1, (flushTimes n rest).2) = _
          rw [htail, List.filterMap_cons]
          cases parseEvent raw with
          | none => rfl
          | some e => rfl

theorem flushEvents_eq (text : List Char) :
    flushEvents text = ((mergeBlocks (blocks text).1).filterMap parseEvent, (blocks text).2) :=
  flushTimes_eq (Nat.le_refl _)

/-! ## When nothing is lost that way -/

/-- No event is read together with another: with an event in a block that ends
in the short separator, nothing up to the next long one says anything, and the
event is the same with a line break behind it. -/
def Apart : List SseBlock → Prop
  | [] => True
  | ⟨_, .crlf⟩ :: rest => Apart rest
  | ⟨raw, .lf⟩ :: rest => Apart rest ∧ ∀ merged left, mergeFirst rest = some (merged, left) →
      parseEvent raw = none ∨
        (parseEvent (raw ++ ['\n']) = parseEvent raw ∧ parseEvent merged = none)

/-- The events of blocks, each by itself. -/
def blockEvents (bs : List SseBlock) : List SseEvent := bs.filterMap fun b => parseEvent b.raw

/-- And read as one where they are. -/
def mergedEvents (bs : List SseBlock) : List SseEvent := (mergeBlocks bs).filterMap parseEvent

theorem filterMap_parse_cons (raw : List Char) (raws : List (List Char)) :
    (raw :: raws).filterMap parseEvent = (parseEvent raw).toList ++ raws.filterMap parseEvent := by
  rw [List.filterMap_cons]
  cases parseEvent raw <;> rfl

theorem blockEvents_cons (b : SseBlock) (bs : List SseBlock) :
    blockEvents (b :: bs) = (parseEvent b.raw).toList ++ blockEvents bs := by
  rw [blockEvents, List.filterMap_cons]
  cases parseEvent b.raw <;> rfl

theorem mergedEvents_of_some {bs left : List SseBlock} {raw : List Char}
    (h : mergeFirst bs = some (raw, left)) :
    mergedEvents bs = (parseEvent raw).toList ++ mergedEvents left := by
  rw [mergedEvents, mergeBlocks_of_some h, filterMap_parse_cons]
  rfl

theorem mergedEvents_of_none {bs : List SseBlock} (h : mergeFirst bs = none) :
    mergedEvents bs = blockEvents bs := by
  rw [mergedEvents, mergeBlocks_of_none h, List.filterMap_map]
  rfl

theorem mergedEvents_crlf (raw : List Char) (bs : List SseBlock) :
    mergedEvents (⟨raw, .crlf⟩ :: bs) = (parseEvent raw).toList ++ mergedEvents bs :=
  mergedEvents_of_some rfl

theorem mergedEvents_lf {raw merged : List Char} {bs left : List SseBlock}
    (h : mergeFirst bs = some (merged, left)) : mergedEvents (⟨raw, .lf⟩ :: bs) =
      (parseEvent (raw ++ '\n' :: '\n' :: merged)).toList ++ mergedEvents left :=
  mergedEvents_of_some (by rw [mergeFirst, h]; rfl)

theorem toList_length_le (e : Option SseEvent) : e.toList.length ≤ 1 := by
  cases e <;> simp

/-- Reading blocks as one makes no events. -/
theorem mergedEvents_length (bs : List SseBlock) :
    (mergedEvents bs).length ≤ (blockEvents bs).length := by
  induction bs with
  | nil => exact Nat.le_refl _
  | cons b bs ih =>
      obtain ⟨raw, sep⟩ := b
      rw [blockEvents_cons, List.length_append]
      cases sep with
      | crlf =>
          rw [mergedEvents_crlf, List.length_append]
          exact Nat.add_le_add_left ih _
      | lf =>
          cases hm : mergeFirst bs with
          | none =>
              have hnone : mergeFirst (⟨raw, .lf⟩ :: bs) = none := by rw [mergeFirst, hm]; rfl
              exact Nat.le_of_eq (by
                rw [mergedEvents_of_none hnone, blockEvents_cons, List.length_append])
          | some p =>
              obtain ⟨merged, left⟩ := p
              rw [mergedEvents_of_some hm, List.length_append] at ih
              rw [mergedEvents_lf hm, List.length_append]
              cases hraw : parseEvent raw with
              | none =>
                  rw [parseEvent_merged_of_none hraw]
                  omega
              | some e =>
                  have hone := toList_length_le (parseEvent (raw ++ '\n' :: '\n' :: merged))
                  simp only [Option.toList_some, List.length_singleton]
                  omega

theorem mergedEvents_eq_iff (bs : List SseBlock) : mergedEvents bs = blockEvents bs ↔ Apart bs := by
  induction bs with
  | nil => exact ⟨fun _ => trivial, fun _ => rfl⟩
  | cons b bs ih =>
      obtain ⟨raw, sep⟩ := b
      rw [blockEvents_cons]
      cases sep with
      | crlf => rw [mergedEvents_crlf, List.append_cancel_left_eq, ih, Apart]
      | lf =>
          rw [Apart]
          cases hm : mergeFirst bs with
          | none =>
              have hnone : mergeFirst (⟨raw, .lf⟩ :: bs) = none := by rw [mergeFirst, hm]; rfl
              rw [mergedEvents_of_none hm] at ih
              rw [mergedEvents_of_none hnone, blockEvents_cons]
              refine iff_of_true rfl ⟨ih.mp rfl, fun merged left h => by cases h⟩
          | some p =>
              obtain ⟨merged, left⟩ := p
              have hlength := mergedEvents_length bs
              rw [mergedEvents_of_some hm] at ih hlength
              rw [mergedEvents_lf hm, ← ih]
              constructor
              · intro heq
                cases hraw : parseEvent raw with
                | none =>
                    rw [parseEvent_merged_of_none hraw, hraw] at heq
                    exact ⟨heq, fun _ _ _ => Or.inl rfl⟩
                | some e =>
                    rw [hraw] at heq
                    have hcount := congrArg List.length heq
                    have hone := toList_length_le (parseEvent (raw ++ '\n' :: '\n' :: merged))
                    simp only [List.length_append, Option.toList_some, List.length_singleton]
                      at hcount hlength
                    have hmerged : parseEvent merged = none :=
                      Option.toList_eq_nil_iff.mp (List.length_eq_zero_iff.mp (by omega))
                    rw [parseEvent_merged_none hmerged] at heq hcount
                    cases hnl : parseEvent (raw ++ ['\n']) with
                    | none =>
                        rw [hnl, Option.toList_none, List.length_nil] at hcount
                        omega
                    | some e' =>
                        rw [hnl] at heq
                        injection heq with he hrest
                        refine ⟨by rw [hmerged]; exact hrest, fun merged' left' h => Or.inr ?_⟩
                        injection h with h
                        injection h with h _
                        exact ⟨by rw [he], h ▸ hmerged⟩
              · rintro ⟨heq, hapart⟩
                rcases hapart merged left rfl with hraw | ⟨hnl, hmerged⟩
                · rw [parseEvent_merged_of_none hraw, hraw]
                  exact heq
                · rw [parseEvent_merged_none hmerged, hnl, ← heq, hmerged]
                  rfl

/-! ## One piece after another -/

/-- What has blocks does not begin with half a separator. -/
theorem blocks_cons_append {c : Char} {rest : List Char}
    (hlf : ∀ left, c = '\n' → rest = '\n' :: left → False)
    (hcrlf : ∀ left, c = '\r' → rest = '\n' :: '\r' :: '\n' :: left → False)
    (hblocks : (blocks rest).1 ≠ []) (more : List Char) :
    blocks (c :: (rest ++ more)) = consBlock c (blocks (rest ++ more)) := by
  refine blocks.eq_3 c (rest ++ more) (fun left hc hleft => ?_) fun left hc hleft => ?_
  · cases rest with
    | nil => exact hblocks rfl
    | cons d rest =>
        injection hleft with hd _
        exact hlf rest hc (by rw [hd])
  · rcases rest with _ | ⟨d, _ | ⟨d', _ | ⟨d'', rest⟩⟩⟩
    · exact hblocks rfl
    · injection hleft with hd _
      subst hd
      exact hblocks rfl
    · injection hleft with hd hleft
      injection hleft with hd' _
      subst hd hd'
      exact hblocks rfl
    · injection hleft with hd hleft
      injection hleft with hd' hleft
      injection hleft with hd'' _
      exact hcrlf rest hc (by rw [hd, hd', hd''])

/-- What is left of a text and the text after it have the blocks that are still
to come. -/
theorem blocks_append (text more : List Char) :
    blocks (text ++ more) = ((blocks text).1 ++ (blocks ((blocks text).2 ++ more)).1,
      (blocks ((blocks text).2 ++ more)).2) := by
  induction text using blocks.induct with
  | case1 rest ih =>
      rw [List.cons_append, List.cons_append, blocks, ih, blocks]
      rfl
  | case2 rest ih =>
      rw [List.cons_append, List.cons_append, List.cons_append, List.cons_append, blocks, ih,
        blocks]
      rfl
  | case3 c rest hlf hcrlf ih =>
      have hcons := blocks.eq_3 c rest hlf hcrlf
      cases hb : (blocks rest).1 with
      | nil =>
          rw [hcons, consBlock_of_nil hb, blocks_of_nil hb]
          rfl
      | cons b bs =>
          have hmore := blocks_cons_append hlf hcrlf (by rw [hb]; simp) more
          rw [hb] at ih
          have hmoreBlocks : (blocks (rest ++ more)).1 =
              b :: (bs ++ (blocks ((blocks rest).2 ++ more)).1) := by
            rw [ih]
            rfl
          rw [List.cons_append, hmore, hcons, consBlock_of_cons hb, consBlock_of_cons hmoreBlocks,
            ih]
          rfl
  | case4 => rfl

/-- What is left holds no block. -/
theorem blocks_left (text : List Char) : (blocks (blocks text).2).1 = [] := by
  have h := congrArg Prod.fst (blocks_append text [])
  rw [List.append_nil, List.append_nil] at h
  simpa using h

/-- The decoder on texts: what it does with each piece, and with what is left. -/
def runEvents (buffer : List Char) : List (List Char) → List SseEvent
  | [] => (parseEvent buffer).toList
  | piece :: rest =>
      (flushEvents (buffer ++ piece)).1 ++ runEvents (flushEvents (buffer ++ piece)).2 rest

/-- It reads the blocks a few at a time. -/
theorem runEvents_eq (pieces : List (List Char)) {buffer : List Char}
    (hbuffer : (blocks buffer).1 = []) :
    ∃ batches : List (List SseBlock),
      batches.flatten = (blocks (buffer ++ pieces.flatten)).1 ∧
      runEvents buffer pieces = batches.flatMap mergedEvents ++
        (parseEvent (blocks (buffer ++ pieces.flatten)).2).toList := by
  induction pieces generalizing buffer with
  | nil =>
      have hnone : buffer ++ ([] : List (List Char)).flatten = buffer := List.append_nil _
      rw [hnone]
      exact ⟨[], hbuffer.symm, by rw [blocks_of_nil hbuffer]; rfl⟩
  | cons piece rest ih =>
      obtain ⟨batches, hflatten, hrun⟩ := ih (blocks_left (buffer ++ piece))
      have hblocks := blocks_append (buffer ++ piece) rest.flatten
      rw [List.flatten_cons, ← List.append_assoc, hblocks]
      refine ⟨(blocks (buffer ++ piece)).1 :: batches, ?_, ?_⟩
      · rw [List.flatten_cons, hflatten]
      · rw [runEvents, flushEvents_eq, hrun, List.flatMap_cons, List.append_assoc]
        rfl

theorem streamEvents_eq (text : List Char) : streamEvents text =
    blockEvents (blocks text).1 ++ (parseEvent (blocks text).2).toList := by
  rw [streamEvents, parts, List.filterMap_append, List.filterMap_map, filterMap_parse_cons]
  simp [blockEvents]

theorem mergeFirst_append {bs left : List SseBlock} {raw : List Char}
    (h : mergeFirst bs = some (raw, left)) (more : List SseBlock) :
    mergeFirst (bs ++ more) = some (raw, left ++ more) := by
  induction bs generalizing raw with
  | nil => cases h
  | cons b bs ih =>
      obtain ⟨raw', sep⟩ := b
      cases sep with
      | crlf =>
          injection h with h
          injection h with h h'
          rw [List.cons_append, mergeFirst, h, h']
      | lf =>
          obtain ⟨⟨merged, left'⟩, hm, heq⟩ := Option.map_eq_some_iff.mp h
          injection heq with heq hleft
          subst hleft heq
          rw [List.cons_append, mergeFirst, ih hm]
          rfl

theorem Apart.append {bs more : List SseBlock} (h : Apart (bs ++ more)) :
    Apart bs ∧ Apart more := by
  induction bs with
  | nil => exact ⟨trivial, h⟩
  | cons b bs ih =>
      obtain ⟨raw, sep⟩ := b
      cases sep with
      | crlf => exact ih h
      | lf =>
          obtain ⟨hrest, hapart⟩ := h
          refine ⟨⟨(ih hrest).1, fun merged left hm => ?_⟩, (ih hrest).2⟩
          exact hapart merged _ (mergeFirst_append hm more)

/-- With no events read together, the pieces say what the text says. -/
theorem runEvents_of_apart {pieces : List (List Char)} (h : Apart (blocks pieces.flatten).1) :
    runEvents [] pieces = streamEvents pieces.flatten := by
  obtain ⟨batches, hflatten, hrun⟩ := runEvents_eq pieces (show (blocks []).1 = [] from rfl)
  rw [List.nil_append] at hflatten hrun
  rw [hrun, streamEvents_eq, ← hflatten]
  rw [← hflatten] at h
  refine congrArg (· ++ _) ?_
  clear hflatten hrun
  induction batches with
  | nil => rfl
  | cons batch batches ih =>
      obtain ⟨hbatch, hrest⟩ := Apart.append h
      rw [List.flatMap_cons, List.flatten_cons, blockEvents, List.filterMap_append, ih hrest,
        (mergedEvents_eq_iff batch).mpr hbatch]
      rfl

theorem consBlock_length (c : Char) (p : List SseBlock × List Char) :
    (consBlock c p).1.length = p.1.length := by
  obtain ⟨bs, rest⟩ := p
  cases bs <;> rfl

/-- One more character ends at most one block. -/
theorem blocks_snoc (text : List Char) (c : Char) (h : (blocks text).1 = []) :
    (blocks (text ++ [c])).1.length ≤ 1 := by
  induction text using blocks.induct with
  | case1 rest ih => cases h
  | case2 rest ih => cases h
  | case3 d rest hlf hcrlf ih =>
      have hrest : (blocks rest).1 = [] := by
        have hlength := consBlock_length d (blocks rest)
        rw [← blocks.eq_3 d rest hlf hcrlf, h] at hlength
        exact List.length_eq_zero_iff.mp hlength.symm
      rw [List.cons_append]
      -- A separator at the front has the new character for its last.
      by_cases hl : ∃ left, d = '\n' ∧ rest ++ [c] = '\n' :: left
      · obtain ⟨left, rfl, hleft⟩ := hl
        cases rest with
        | nil =>
            injection hleft with hc _
            subst hc
            exact Nat.le_refl 1
        | cons x rest =>
            injection hleft with hx _
            exact (hlf rest rfl (by rw [hx])).elim
      · by_cases hc : ∃ left, d = '\r' ∧ rest ++ [c] = '\n' :: '\r' :: '\n' :: left
        · obtain ⟨left, rfl, hleft⟩ := hc
          rcases rest with _ | ⟨x, _ | ⟨y, _ | ⟨z, rest⟩⟩⟩
          · injection hleft with _ hleft
            cases hleft
          · injection hleft with _ hleft
            injection hleft with _ hleft
            cases hleft
          · injection hleft with hx hleft
            injection hleft with hy hleft
            injection hleft with hz _
            subst hx hy hz
            exact Nat.le_refl 1
          · injection hleft with hx hleft
            injection hleft with hy hleft
            injection hleft with hz _
            exact (hcrlf rest rfl (by rw [hx, hy, hz])).elim
        · rw [blocks.eq_3 d _ (fun left hd h' => hl ⟨left, hd, h'⟩)
            fun left hd h' => hc ⟨left, hd, h'⟩, consBlock_length]
          exact ih hrest
  | case4 =>
      rw [List.nil_append, blocks.eq_3 c [] (fun left _ h => by cases h) fun left _ h => by cases h]
      exact Nat.zero_le 1

theorem apart_of_length {bs : List SseBlock} (h : bs.length ≤ 1) : Apart bs := by
  rcases bs with _ | ⟨⟨raw, sep⟩, _ | ⟨b, bs⟩⟩
  · exact trivial
  · cases sep with
    | crlf => exact trivial
    | lf => exact ⟨trivial, fun merged left hm => by cases hm⟩
  · simp at h

/-- A text that comes character by character is never read together. -/
theorem runEvents_chars (text : List Char) {buffer : List Char} (h : (blocks buffer).1 = []) :
    runEvents buffer (text.map fun c => [c]) = streamEvents (buffer ++ text) := by
  induction text generalizing buffer with
  | nil => rw [List.append_nil, streamEvents_eq, h, blocks_of_nil h]; rfl
  | cons c text ih =>
      have hone :
          mergedEvents (blocks (buffer ++ [c])).1 = blockEvents (blocks (buffer ++ [c])).1 :=
        (mergedEvents_eq_iff _).mpr (apart_of_length (blocks_snoc buffer c h))
      have hsplit : buffer ++ c :: text = (buffer ++ [c]) ++ text := by simp
      rw [List.map_cons, runEvents, flushEvents_eq, ih (blocks_left _), streamEvents_eq, hsplit,
        streamEvents_eq, blocks_append (buffer ++ [c]) text]
      show mergedEvents _ ++ _ = _
      rw [hone, blockEvents, blockEvents, blockEvents, List.filterMap_append, List.append_assoc]

/-! ## Blurred streams -/

def BlurBlock (b b' : SseBlock) : Prop := Blur b.raw b'.raw ∧ b.sep = b'.sep

/-- The same blocks, blurred. -/
def BlurBlocks (p q : List SseBlock × List Char) : Prop :=
  List.Forall₂ BlurBlock p.1 q.1 ∧ Blur p.2 q.2

theorem BlurBlocks.cons {p q : List SseBlock × List Char} (h : BlurBlocks p q) (sep : Separator) :
    BlurBlocks (⟨[], sep⟩ :: p.1, p.2) (⟨[], sep⟩ :: q.1, q.2) :=
  ⟨.cons ⟨.nil, rfl⟩ h.1, h.2⟩

/-- Text in front of the first block. -/
def prepend (s : List Char) : List SseBlock × List Char → List SseBlock × List Char
  | ([], rest) => ([], s ++ rest)
  | (b :: bs, rest) => ({ b with raw := s ++ b.raw } :: bs, rest)

theorem consBlock_prepend (c : Char) (s : List Char) (p : List SseBlock × List Char) :
    consBlock c (prepend s p) = prepend (c :: s) p := by
  obtain ⟨bs, rest⟩ := p
  cases bs <;> rfl

theorem BlurBlocks.prepend {p q : List SseBlock × List Char} (h : BlurBlocks p q) {s t : List Char}
    (hs : Blur s t) : BlurBlocks (prepend s p) (prepend t q) := by
  obtain ⟨bs, rest⟩ := p
  obtain ⟨bs', rest'⟩ := q
  obtain ⟨hbs, hrest⟩ := h
  cases hbs with
  | nil => exact ⟨.nil, hs.append hrest⟩
  | cons hb hbs => exact ⟨.cons ⟨hs.append hb.1, hb.2⟩ hbs, hrest⟩

theorem prepend_singleton (c : Char) (p : List SseBlock × List Char) :
    prepend [c] p = consBlock c p := by
  obtain ⟨bs, rest⟩ := p
  cases bs <;> rfl

theorem blocks_replacement (n : Nat) (text : List Char) :
    blocks (List.replicate n replacementChar ++ text) =
      prepend (List.replicate n replacementChar) (blocks text) := by
  induction n with
  | zero =>
      obtain ⟨p, hp⟩ : ∃ p, p = blocks text := ⟨_, rfl⟩
      rw [List.replicate_zero, List.nil_append, ← hp]
      obtain ⟨bs, rest⟩ := p
      cases bs <;> rfl
  | succ n ih =>
      rw [List.replicate_succ, List.cons_append, blocks.eq_3, ih, consBlock_prepend]
      · exact fun left hc _ => absurd hc (by decide)
      · exact fun left hc _ => absurd hc (by decide)

theorem blocks_blur {text text' : List Char} (h : Blur text text') :
    BlurBlocks (blocks text) (blocks text') := by
  induction text using blocks.induct generalizing text' with
  | case1 rest ih =>
      obtain ⟨t₁, rfl, h₁⟩ := h.ascii_left (by decide)
      obtain ⟨t₂, rfl, h₂⟩ := h₁.ascii_left (by decide)
      exact (ih h₂).cons .lf
  | case2 rest ih =>
      obtain ⟨t₁, rfl, h₁⟩ := h.ascii_left (by decide)
      obtain ⟨t₂, rfl, h₂⟩ := h₁.ascii_left (by decide)
      obtain ⟨t₃, rfl, h₃⟩ := h₂.ascii_left (by decide)
      obtain ⟨t₄, rfl, h₄⟩ := h₃.ascii_left (by decide)
      exact (ih h₄).cons .crlf
  | case3 c rest hlf hcrlf ih =>
      rw [blocks.eq_3 c rest hlf hcrlf, ← prepend_singleton]
      cases h with
      | @keep _ _ t ht =>
          rw [blocks.eq_3 c t, ← prepend_singleton]
          · exact (ih ht).prepend (.refl [c])
          · rintro left hc rfl
            obtain ⟨s, rfl, -⟩ := ht.ascii_right (by decide)
            exact hlf s hc rfl
          · rintro left hc rfl
            obtain ⟨s₁, rfl, h₁⟩ := ht.ascii_right (by decide)
            obtain ⟨s₂, rfl, h₂⟩ := h₁.ascii_right (by decide)
            obtain ⟨s₃, rfl, -⟩ := h₂.ascii_right (by decide)
            exact hcrlf s₃ hc rfl
      | blur hc n ht =>
          have hone := Blur.blur hc n .nil
          rw [List.append_nil] at hone
          rw [blocks_replacement]
          exact (ih ht).prepend hone
  | case4 =>
      rw [h.nil_left]
      exact ⟨.nil, .nil⟩

theorem parts_blur {text text' : List Char} (h : Blur text text') :
    List.Forall₂ Blur (parts text) (parts text') := by
  obtain ⟨hbs, hrest⟩ := blocks_blur h
  refine List.rel_append ?_ (.cons hrest .nil)
  rw [List.forall₂_map_left_iff, List.forall₂_map_right_iff]
  exact hbs.imp fun _ _ hb => hb.1

theorem mergeFirst_blur {bs bs' : List SseBlock} (h : List.Forall₂ BlurBlock bs bs') :
    Option.Rel (fun p q => Blur p.1 q.1) (mergeFirst bs) (mergeFirst bs') := by
  induction h with
  | nil => exact .none
  | @cons b b' bs bs' hb _ ih =>
      obtain ⟨raw, sep⟩ := b
      obtain ⟨raw', sep'⟩ := b'
      obtain ⟨hraw, rfl⟩ := hb
      cases sep with
      | crlf => exact .some hraw
      | lf =>
          rw [mergeFirst, mergeFirst]
          generalize mergeFirst bs = m at ih ⊢
          generalize mergeFirst bs' = m' at ih ⊢
          cases ih with
          | none => exact .none
          | some hm => exact .some (hraw.append (.keep _ (.keep _ hm)))

/-- A blur that shows in no part leaves events apart that were apart. -/
theorem Apart.blur {bs bs' : List SseBlock} (h : List.Forall₂ BlurBlock bs bs')
    (hparse : List.Forall₂ (fun b b' => parseEvent b.raw = parseEvent b'.raw) bs bs')
    (hapart : Apart bs) : Apart bs' := by
  induction h with
  | nil => exact trivial
  | @cons b b' bs bs' hb hbs ih =>
      cases hparse with
      | cons heq hparse =>
          obtain ⟨raw, sep⟩ := b
          obtain ⟨raw', sep'⟩ := b'
          obtain ⟨hraw, rfl⟩ := hb
          cases sep with
          | crlf => exact ih hparse hapart
          | lf =>
              refine ⟨ih hparse hapart.1, fun merged' left' hm' => ?_⟩
              have hrel := mergeFirst_blur hbs
              rw [hm'] at hrel
              generalize hm : mergeFirst bs = m at hrel
              cases hrel with
              | @some p _ hmerged =>
                  rcases hapart.2 p.1 p.2 hm with hnone | ⟨hnl, hnone⟩
                  · exact Or.inl (heq ▸ hnone)
                  · refine Or.inr ⟨?_, (parseEvent_eq_none_blur hmerged).mp hnone⟩
                    rw [← parseEvent_newline_blur hraw heq, hnl]
                    exact heq

/-! ## The decoder -/

/-- The bytes a network hands over, piece by piece. -/
def received (network : List NetworkPoll) : List (List UInt8) :=
  network.filterMap fun
    | .ready bytes => some bytes
    | _ => none

theorem deliver_eq (more : Nat → List Item) (polls : Nat) (events : List SseEvent) :
    deliver (fun _ => false) more polls events =
      events.map .ok ++ more (polls + events.length) := by
  induction events generalizing polls with
  | nil => rfl
  | cons e rest ih =>
      have hpolls : polls + 1 + rest.length = polls + (e :: rest).length := by
        rw [List.length_cons]
        omega
      rw [deliver, if_neg (by simp), ih, hpolls]
      rfl

/-- Unless it is aborted, a decoder hands on what the texts of the pieces say. -/
theorem read_eq (network : List NetworkPoll) (hok : ∀ e, .failed e ∉ network)
    (buffer : List Char) (polls : Nat) : read (fun _ => false) network buffer polls =
      (runEvents buffer ((received network).map fromUtf8Lossy)).map .ok := by
  induction network generalizing buffer polls with
  | nil =>
      rw [read, received, List.filterMap_nil, List.map_nil, runEvents]
      cases parseEvent buffer <;> rfl
  | cons poll network ih =>
      have hrest : ∀ e, .failed e ∉ network := fun e he => hok e (List.mem_cons_of_mem _ he)
      cases poll with
      | pending =>
          rw [read, if_neg (by simp)]
          exact ih hrest buffer (polls + 1)
      | failed e => exact absurd List.mem_cons_self (hok e)
      | ready bytes =>
          have hreceived : received (.ready bytes :: network) = bytes :: received network := rfl
          rw [hreceived, List.map_cons, runEvents, List.map_append, ← ih hrest, read]
          exact deliver_eq _ _ _

theorem items_eq {network : List NetworkPoll} (hok : ∀ e, .failed e ∉ network) :
    items (fun _ => false) network =
      (runEvents [] ((received network).map fromUtf8Lossy)).map .ok := by
  rw [items, if_neg (by simp)]
  exact read_eq network hok [] 1

/-- No event holds a character of several bytes: nothing that is parsed says
anything else when each byte beyond ASCII is a replacement character. -/
def SingleBytes (bytes : List UInt8) : Prop :=
  List.Forall₂ (fun part part' => parseEvent part = parseEvent part')
    (parts (fromUtf8Lossy bytes)) (parts (bytes.map lossyByte))

/-- With the same parts missing an event, equal events are of equal parts. -/
theorem forall₂_of_filterMap_eq {raws raws' : List (List Char)} (h : List.Forall₂ Blur raws raws')
    (heq : raws.filterMap parseEvent = raws'.filterMap parseEvent) :
    List.Forall₂ (fun part part' => parseEvent part = parseEvent part') raws raws' := by
  induction h with
  | nil => exact .nil
  | @cons raw raw' raws raws' hraw _ ih =>
      rw [filterMap_parse_cons, filterMap_parse_cons] at heq
      cases hp : parseEvent raw with
      | none =>
          have hp' := (parseEvent_eq_none_blur hraw).mp hp
          rw [hp, hp'] at heq
          exact .cons (hp.trans hp'.symm) (ih heq)
      | some e =>
          cases hp' : parseEvent raw' with
          | none =>
              have hnone := (parseEvent_eq_none_blur hraw).mpr hp'
              rw [hp] at hnone
              cases hnone
          | some e' =>
              rw [hp, hp'] at heq
              injection heq with he hrest
              exact .cons (by rw [hp, hp', he]) (ih hrest)

theorem forall₂_between {raws raws' raws'' : List (List Char)} (h : List.Forall₂ Blur raws raws')
    (h' : List.Forall₂ Blur raws' raws'')
    (heq : List.Forall₂ (fun part part' => parseEvent part = parseEvent part') raws raws'') :
    List.Forall₂ (fun part part' => parseEvent part = parseEvent part') raws raws' := by
  induction h generalizing raws'' with
  | nil => exact .nil
  | cons hraw _ ih =>
      cases h' with
      | cons hraw' hrest' =>
          cases heq with
          | cons hp hrest => exact .cons (parseEvent_between hraw hraw' hp) (ih hrest' hrest)

theorem filterMap_eq_of_forall₂ {raws raws' : List (List Char)}
    (h : List.Forall₂ (fun part part' => parseEvent part = parseEvent part') raws raws') :
    raws.filterMap parseEvent = raws'.filterMap parseEvent := by
  induction h with
  | nil => rfl
  | cons hp _ ih => rw [filterMap_parse_cons, filterMap_parse_cons, hp, ih]

theorem forall₂_dropLast {α β : Type} {r : α → β → Prop} {a : List α} {b : List β} {x : α} {y : β}
    (h : List.Forall₂ r (a ++ [x]) (b ++ [y])) : List.Forall₂ r a b := by
  have hrev := List.forall₂_reverse_iff.mpr h
  rw [List.reverse_append, List.reverse_append] at hrev
  cases hrev with
  | cons _ hrest => exact List.forall₂_reverse_iff.mp hrest

/-- The text that comes in pieces, when nothing depends on how it is cut. -/
theorem runEvents_of_plain {chunks : List (List UInt8)} (hsingle : SingleBytes chunks.flatten)
    (hapart : Apart (blocks (fromUtf8Lossy chunks.flatten)).1) :
    runEvents [] (chunks.map fromUtf8Lossy) = streamEvents (fromUtf8Lossy chunks.flatten) := by
  have hpieces : (chunks.map fromUtf8Lossy).flatten = chunks.flatMap fromUtf8Lossy := rfl
  have hblur := blur_chunks chunks
  have hparts := forall₂_between (parts_blur hblur) (parts_blur (blur_chunks_bytes chunks)) hsingle
  have hblocks := forall₂_dropLast hparts
  rw [List.forall₂_map_left_iff, List.forall₂_map_right_iff] at hblocks
  have hapart' : Apart (blocks (chunks.map fromUtf8Lossy).flatten).1 :=
    Apart.blur (blocks_blur hblur).1 hblocks hapart
  rw [runEvents_of_apart hapart', hpieces, streamEvents, streamEvents,
    filterMap_eq_of_forall₂ hparts]

theorem received_ready (chunks : List (List UInt8)) :
    received (chunks.map .ready) = chunks := by
  induction chunks with
  | nil => rfl
  | cons chunk rest ih => rw [List.map_cons, received, List.filterMap_cons, ← received, ih]

theorem items_ready (chunks : List (List UInt8)) :
    items (fun _ => false) (chunks.map .ready) =
      (runEvents [] (chunks.map fromUtf8Lossy)).map .ok := by
  rw [items_eq, received_ready]
  intro e he
  obtain ⟨chunk, -, h⟩ := List.mem_map.mp he
  cases h

theorem map_ok_injective :
    Function.Injective (List.map (Except.ok : SseEvent → Item)) :=
  List.map_injective_iff.mpr fun a b h => by injection h

/-- However the bytes of a response are cut, the events are those of its blocks
in the order of the stream, exactly when no event holds a character of several
bytes and no two are read together. -/
theorem cut_anywhere_iff (bytes : List UInt8) :
    (∀ network : List NetworkPoll, (∀ e, .failed e ∉ network) →
      (received network).flatten = bytes →
        items (fun _ => false) network =
            items (fun _ => false) [.ready bytes] ∧
          items (fun _ => false) network =
            (streamEvents (fromUtf8Lossy bytes)).map .ok) ↔
      SingleBytes bytes ∧ Apart (blocks (fromUtf8Lossy bytes)).1 := by
  constructor
  · intro h
    have hchunks (chunks : List (List UInt8)) (hflatten : chunks.flatten = bytes) :
        runEvents [] (chunks.map fromUtf8Lossy) = streamEvents (fromUtf8Lossy bytes) := by
      have hitems := (h (chunks.map .ready) (fun e he => by simp at he)
        (by rw [received_ready, hflatten])).2
      rw [items_ready] at hitems
      exact map_ok_injective hitems
    constructor
    · have hbytes := hchunks (bytewise bytes) (bytewise_flatten bytes)
      have hmap : (bytewise bytes).map fromUtf8Lossy = (bytes.map lossyByte).map fun c => [c] := by
        simp [bytewise, fromUtf8Lossy_singleton]
      rw [hmap, runEvents_chars (bytes.map lossyByte) rfl] at hbytes
      exact forall₂_of_filterMap_eq (parts_blur (blur_bytes bytes)) hbytes.symm
    · have hwhole := hchunks [bytes] (by simp)
      rw [List.map_singleton, runEvents, flushEvents_eq, List.nil_append, runEvents,
        streamEvents_eq] at hwhole
      exact (mergedEvents_eq_iff _).mp (List.append_cancel_right hwhole)
  · rintro ⟨hsingle, hapart⟩ network hok hreceived
    have hrun (network : List NetworkPoll) (hok : ∀ e, .failed e ∉ network)
        (hreceived : (received network).flatten = bytes) :
        items (fun _ => false) network =
          (streamEvents (fromUtf8Lossy bytes)).map .ok := by
      subst hreceived
      rw [items_eq hok, runEvents_of_plain hsingle hapart]
    refine ⟨?_, hrun network hok hreceived⟩
    rw [hrun network hok hreceived,
      hrun [.ready bytes] (fun e he => by simp at he) (by simp [received])]

/-- Two lines, one before each separator, `a` and `b`: in one piece they are
read as one event. -/
theorem cut_between_separators : ¬ ∀ (bytes : List UInt8) (chunks : List (List UInt8)),
    chunks.flatten = bytes → items (fun _ => false) (chunks.map .ready) =
      items (fun _ => false) [.ready bytes] := by
  intro h
  have heq := h _ [[97, 10, 10], [98, 13, 10, 13, 10]] rfl
  have hlength := congrArg List.length heq
  revert hlength
  decide

end Pandaria.Ai.SseDecoder
