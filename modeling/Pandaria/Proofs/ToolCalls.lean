import Pandaria.Proofs.ToolBlocks

/-!
# Tool calls that were started

Chat completions start a call by an index, and send the pieces of several calls
in any order. What the pieces with an index come to (`accumAt`) is what the map
of the loop has there, and at the end of the stream the map is gone through once.
So a call is dropped there for the reason a block is dropped for: its text does
not parse.
-/

namespace Pandaria.Ai

/-! ## Indexed calls -/

/-- The pieces of calls in a chunk. -/
def callPieces (chunk : Json) : List Json :=
  ((chunk.at "choices").asArray.getD []).flatMap fun choice =>
    ((choice.at "delta").at "tool_calls").asArray.getD []

def pieceIndex (tc : Json) : Nat := (tc.at "index").asU64.getD 0

/-- A call after one more piece of it. -/
def ToolCallAccum.add (d : ChatDialect) (a : ToolCallAccum) (tc : Json) : ToolCallAccum :=
  { id := ((tc.at "id").asStr.bind d.truncateId).or a.id
    name := ((tc.at "function").at "name").asStr.or a.name
    args := a.args ++ ((tc.at "function").at "arguments").asStr.getD "" }

def ToolCallAccum.blank : ToolCallAccum := ⟨none, none, ""⟩

/-- What the pieces with one index come to, if there are any. -/
def accumAt (d : ChatDialect) (idx : Nat) (pieces : List Json) : Option ToolCallAccum :=
  pieces.foldl
    (fun a tc => if pieceIndex tc = idx then some ((a.getD .blank).add d tc) else a) none

/-- The pieces of calls a response has before its end. -/
def piecesRead (serde : Serde) : List SseDecoder.Item → List Json
  | [] => []
  | .error _ :: _ => []
  | .ok e :: rest =>
      if e.isDoneMarker then []
      else match e.json serde with
        | some (.ok value) => callPieces value ++ piecesRead serde rest
        | _ => []

/-- The calls sent with one index. -/
def callsAt (idx : Nat) (events : List AssistantMessageEvent) : List ToolCall :=
  ((sentCalls events).filter fun c => c.1 = idx).map Prod.snd

/-! ### The map of calls -/

/-- The entry of an index. -/
def entryAt (i : Nat) : List (Nat × ToolCallAccum) → Option ToolCallAccum
  | [] => none
  | (j, a) :: rest => if j = i then some a else entryAt i rest

section

variable {idx i : Nat} {f : ToolCallAccum → ToolCallAccum} {m : List (Nat × ToolCallAccum)}

theorem entryAt_eq_none (h : ∀ p ∈ m, i < p.1) : entryAt i m = none := by
  induction m with
  | nil => rfl
  | cons p rest ih =>
      have hp : i < p.1 := h p List.mem_cons_self
      rw [entryAt, if_neg (by omega)]
      exact ih fun q hq => h q (List.mem_cons_of_mem _ hq)

theorem entryAt_entryOrDefault (hm : m.Pairwise fun a b => a.1 < b.1) :
    entryAt i (entryOrDefault idx f m) =
      if i = idx then some (f ((entryAt idx m).getD .blank)) else entryAt i m := by
  induction m with
  | nil =>
      show (if idx = i then some (f .blank) else none) = _
      by_cases h : i = idx
      · rw [if_pos h.symm, if_pos h]
        rfl
      · rw [if_neg (Ne.symm h), if_neg h]
        rfl
  | cons p rest ih =>
      obtain ⟨hlt, hrest⟩ := List.pairwise_cons.mp hm
      rw [entryOrDefault]
      by_cases hbefore : idx < p.1
      · have hnone : entryAt idx (p :: rest) = none := by
          apply entryAt_eq_none
          intro q hq
          obtain rfl | hq := List.mem_cons.mp hq
          · exact hbefore
          · exact Nat.lt_trans hbefore (hlt q hq)
        rw [if_pos hbefore, hnone, entryAt]
        by_cases h : i = idx
        · rw [if_pos h.symm, if_pos h]
          rfl
        · rw [if_neg (Ne.symm h), if_neg h]
      · rw [if_neg hbefore]
        by_cases hsame : p.1 = idx
        · rw [if_pos hsame, entryAt, entryAt, entryAt, if_pos hsame, hsame]
          by_cases h : i = idx
          · rw [if_pos h.symm, if_pos h]
            rfl
          · rw [if_neg (Ne.symm h), if_neg h, if_neg (Ne.symm h)]
        · rw [if_neg hsame, entryAt, entryAt, entryAt, if_neg hsame, ih hrest]
          by_cases h : p.1 = i
          · rw [if_pos h, if_pos h, if_neg (h ▸ hsame)]
          · rw [if_neg h, if_neg h]

theorem mem_entryOrDefault {q : Nat × ToolCallAccum} (h : q ∈ entryOrDefault idx f m) :
    q.1 = idx ∨ ∃ p ∈ m, q.1 = p.1 := by
  induction m with
  | nil =>
      obtain rfl := List.mem_singleton.mp h
      exact .inl rfl
  | cons p rest ih =>
      rw [entryOrDefault] at h
      split at h
      · obtain rfl | h := List.mem_cons.mp h
        · exact .inl rfl
        · exact .inr ⟨q, h, rfl⟩
      · split at h
        · obtain rfl | h := List.mem_cons.mp h
          · exact .inr ⟨p, List.mem_cons_self, rfl⟩
          · exact .inr ⟨q, List.mem_cons_of_mem _ h, rfl⟩
        · obtain rfl | h := List.mem_cons.mp h
          · exact .inr ⟨p, List.mem_cons_self, rfl⟩
          · obtain hidx | ⟨r, hr, hqr⟩ := ih h
            · exact .inl hidx
            · exact .inr ⟨r, List.mem_cons_of_mem _ hr, hqr⟩

theorem pairwise_entryOrDefault (hm : m.Pairwise fun a b => a.1 < b.1) :
    (entryOrDefault idx f m).Pairwise fun a b => a.1 < b.1 := by
  induction m with
  | nil => exact List.pairwise_singleton _ _
  | cons p rest ih =>
      obtain ⟨hlt, hrest⟩ := List.pairwise_cons.mp hm
      rw [entryOrDefault]
      by_cases hbefore : idx < p.1
      · rw [if_pos hbefore]
        refine List.pairwise_cons.mpr ⟨?_, hm⟩
        intro q hq
        obtain rfl | hq := List.mem_cons.mp hq
        · exact hbefore
        · exact Nat.lt_trans hbefore (hlt q hq)
      · rw [if_neg hbefore]
        by_cases hsame : p.1 = idx
        · rw [if_pos hsame]
          exact List.pairwise_cons.mpr ⟨hlt, hrest⟩
        · rw [if_neg hsame]
          refine List.pairwise_cons.mpr ⟨?_, ih hrest⟩
          intro q hq
          show p.1 < q.1
          obtain hidx | ⟨r, hr, hqr⟩ := mem_entryOrDefault hq
          · omega
          · rw [hqr]
            exact hlt r hr

end

/-! ### The loop over chunks -/

namespace ChatState

variable {d : ChatDialect} {serde : Serde}

/-- The map of calls is what the pieces so far come to. -/
structure Holds (d : ChatDialect) (s : ChatState) (pieces : List Json) : Prop where
  sorted : s.toolCallAccum.Pairwise fun a b => a.1 < b.1
  entries : ∀ i, entryAt i s.toolCallAccum = accumAt d i pieces

/-- Something sends no call, and takes these pieces into the map. -/
def Takes (d : ChatDialect) (s : ChatState) (added : List Json) (r : Sends ChatState) : Prop :=
  sentCalls r.1 = [] ∧ ∀ s', r.2 = some s' → ∀ pieces, s.Holds d pieces →
    s'.Holds d (pieces ++ added)

theorem accumAt_append (i : Nat) (pieces : List Json) (tc : Json) :
    accumAt d i (pieces ++ [tc]) =
      if pieceIndex tc = i then some (((accumAt d i pieces).getD .blank).add d tc)
      else accumAt d i pieces := by
  rw [accumAt, List.foldl_append]
  rfl

theorem takes_nothing {s s' : ChatState} {events : List AssistantMessageEvent}
    (hsent : sentCalls events = []) (h : s'.toolCallAccum = s.toolCallAccum) :
    Takes d s [] (events, some s') := by
  refine ⟨hsent, ?_⟩
  intro t ht pieces hs
  injection ht with ht
  subst ht
  rw [List.append_nil]
  exact ⟨by rw [h]; exact hs.sorted, by rw [h]; exact hs.entries⟩

theorem Takes.andThen {s : ChatState} {xs ys : List Json} {r : Sends ChatState}
    {f : ChatState → Sends ChatState} (hr : Takes d s xs r) (hf : ∀ s, Takes d s ys (f s)) :
    Takes d s (xs ++ ys) (r.andThen f) := by
  obtain ⟨events, t⟩ := r
  cases t with
  | none => exact ⟨hr.1, fun s' h => by cases h⟩
  | some t =>
      refine ⟨?_, ?_⟩
      · show sentCalls (events ++ (f t).1) = []
        rw [sentCalls_append, hr.1, (hf t).1]
        rfl
      · intro s' hs' pieces hs
        rw [← List.append_assoc]
        exact (hf t).2 s' hs' _ (hr.2 t rfl pieces hs)

theorem takes_sendAll {α : Type} {f : ChatState → α → Sends ChatState} {pieces : α → List Json}
    (hf : ∀ s a, Takes d s (pieces a) (f s a)) (as : List α) (s : ChatState) :
    Takes d s (as.flatMap pieces) (sendAll f as s) := by
  induction as generalizing s with
  | nil => exact takes_nothing rfl rfl
  | cons a as ih => exact (hf s a).andThen ih

/-- One entry of the map is altered, or made. -/
structure Altered (idx : Nat) (f : ToolCallAccum → ToolCallAccum) (s s' : ChatState) : Prop where
  sorted : s'.toolCallAccum.Pairwise fun a b => a.1 < b.1
  entries : ∀ i, entryAt i s'.toolCallAccum =
    if i = idx then some (f ((entryAt idx s.toolCallAccum).getD .blank))
    else entryAt i s.toolCallAccum

theorem altered {s : ChatState} (idx : Nat) (f : ToolCallAccum → ToolCallAccum)
    (hs : s.toolCallAccum.Pairwise fun a b => a.1 < b.1) :
    Altered idx f s { s with toolCallAccum := entryOrDefault idx f s.toolCallAccum } :=
  ⟨pairwise_entryOrDefault hs, fun _ => entryAt_entryOrDefault hs⟩

theorem Altered.again {idx : Nat} {f : ToolCallAccum → ToolCallAccum} {s s' : ChatState}
    (h : Altered idx f s s') (g : ToolCallAccum → ToolCallAccum) :
    Altered idx (fun a => g (f a)) s
      { s' with toolCallAccum := entryOrDefault idx g s'.toolCallAccum } := by
  refine ⟨pairwise_entryOrDefault h.sorted, ?_⟩
  intro i
  show entryAt i (entryOrDefault idx g s'.toolCallAccum) = _
  rw [entryAt_entryOrDefault h.sorted, h.entries idx, if_pos rfl, h.entries i]
  by_cases hi : i = idx
  · rw [if_pos hi, if_pos hi]
    rfl
  · rw [if_neg hi, if_neg hi, if_neg hi]

theorem Altered.holds {s s' : ChatState} {tc : Json} {f : ToolCallAccum → ToolCallAccum}
    {pieces : List Json} (h : Altered (pieceIndex tc) f s s') (hf : ∀ a, f a = a.add d tc)
    (hs : s.Holds d pieces) : s'.Holds d (pieces ++ [tc]) := by
  refine ⟨h.sorted, ?_⟩
  intro i
  rw [h.entries i, accumAt_append, hf, hs.entries, hs.entries]
  by_cases hi : i = pieceIndex tc
  · rw [if_pos hi, if_pos hi.symm, hi]
  · rw [if_neg hi, if_neg (Ne.symm hi)]

/-- What alters the entry of a piece as the piece does takes it in. -/
theorem takes_altered {s s' : ChatState} {tc : Json} {f : ToolCallAccum → ToolCallAccum}
    (h : (s.toolCallAccum.Pairwise fun a b => a.1 < b.1) → Altered (pieceIndex tc) f s s')
    (hf : ∀ a, f a = a.add d tc) : Takes d s [tc] ([], some s') := by
  refine ⟨rfl, fun t ht pieces hs => ?_⟩
  injection ht with ht
  subst ht
  exact (h hs.sorted).holds hf hs

theorem text_takes (s : ChatState) (delta : Json) : Takes d s [] (s.text delta) := by
  rw [text]
  cases (delta.at "content").asStr with
  | none => exact takes_nothing rfl rfl
  | some content =>
      refine takes_nothing ?_ rfl
      cases s.textStarted with
      | true => rfl
      | false => rfl

theorem reasoning_takes (s : ChatState) (delta : Json) : Takes d s [] (s.reasoning d delta) := by
  rw [reasoning]
  cases d.reasoning delta with
  | none => exact takes_nothing rfl rfl
  | some r => exact takes_nothing rfl rfl

theorem toolCall_takes (s : ChatState) (tc : Json) : Takes d s [tc] (s.toolCall d tc) := by
  rw [toolCall]
  simp only []
  cases hid : (tc.at "id").asStr with
  | none =>
      cases hargs : ((tc.at "function").at "arguments").asStr with
      | none =>
          refine takes_altered (fun hs => (altered (pieceIndex tc) _ hs).again _) fun a => ?_
          simp [ToolCallAccum.add, hid, hargs]
      | some args =>
          refine takes_altered (fun hs => ((altered (pieceIndex tc) _ hs).again _).again _)
            fun a => ?_
          simp [ToolCallAccum.add, hid, hargs]
  | some id =>
      simp only []
      cases htruncate : d.truncateId id with
      | none => exact ⟨rfl, fun s' hs' => by cases hs'⟩
      | some id' =>
          cases hargs : ((tc.at "function").at "arguments").asStr with
          | none =>
              refine takes_altered (fun hs => (altered (pieceIndex tc) _ hs).again _) fun a => ?_
              simp [ToolCallAccum.add, hid, hargs, htruncate]
          | some args =>
              refine takes_altered (fun hs => ((altered (pieceIndex tc) _ hs).again _).again _)
                fun a => ?_
              simp [ToolCallAccum.add, hid, hargs, htruncate]

theorem choice_takes (s : ChatState) (c : Json) :
    Takes d s (((c.at "delta").at "tool_calls").asArray.getD []) (s.choice d c) := by
  have hcalls (s : ChatState) :
      Takes d s ((((c.at "delta").at "tool_calls").asArray.getD []).flatMap fun tc => [tc]) _ :=
    takes_sendAll toolCall_takes (((c.at "delta").at "tool_calls").asArray.getD []) s
  have hrest (s : ChatState) : Takes d s ([] ++ [])
      ((s.reasoning d (c.at "delta")).andThen fun s => ([], some (s.finishReason d c))) := by
    refine (reasoning_takes s _).andThen ?_
    intro s
    refine takes_nothing rfl ?_
    rw [finishReason]
    cases (c.at "finish_reason").asStr with
    | none => rfl
    | some reason => rfl
  have h := (text_takes (d := d) s (c.at "delta")).andThen fun s => (hcalls s).andThen hrest
  rw [List.nil_append, List.append_nil, List.append_nil, List.flatMap_singleton'] at h
  exact h

theorem chunk_takes (s : ChatState) (value : Json) :
    Takes d s (callPieces value) (s.chunk d value) := by
  rw [chunk, callPieces]
  cases (value.at "choices").asArray with
  | none => exact takes_nothing rfl rfl
  | some choices =>
      obtain ⟨hsent, hholds⟩ := takes_sendAll (d := d) choice_takes choices
        { s with message := { s.message with
          responseId := s.message.responseId.or
            (if d.responseId then (value.at "id").asStr else none) } }
      exact ⟨hsent, fun s' hs' pieces hs => hholds s' hs' pieces ⟨hs.sorted, hs.entries⟩⟩

/-- The call an entry ends in, if its text parses. -/
def entryCall (serde : Serde) (idx : Nat) (a : ToolCallAccum) : Option ToolCall :=
  (serde.fromStr a.args).toOption.map fun args =>
    { id := a.id.getD ("call_" ++ toString idx)
      name := a.name.getD ""
      arguments := args
      thoughtSignature := none }

theorem sentCalls_toolCallEnd (idx : Nat) (a : ToolCallAccum) :
    sentCalls (toolCallEnd serde (idx, a)) =
      (entryCall serde idx a).toList.map fun tc => (idx, tc) := by
  rw [toolCallEnd, entryCall]
  cases serde.fromStr a.args with
  | error e => rfl
  | ok args => rfl

theorem callsAt_append (idx : Nat) (xs ys : List AssistantMessageEvent) :
    callsAt idx (xs ++ ys) = callsAt idx xs ++ callsAt idx ys := by
  rw [callsAt, sentCalls_append, List.filter_append, List.map_append]
  rfl

theorem callsAt_toolCallEnd (idx j : Nat) (a : ToolCallAccum) :
    callsAt idx (toolCallEnd serde (j, a)) =
      if j = idx then (entryCall serde j a).toList else [] := by
  rw [callsAt, sentCalls_toolCallEnd]
  cases entryCall serde j a with
  | none => simp
  | some tc =>
      by_cases h : j = idx
      · simp [h]
      · simp [h]

/-- What the map ends in, read at one index. -/
theorem callsAt_flatMap {m : List (Nat × ToolCallAccum)} (idx : Nat)
    (hm : m.Pairwise fun a b => a.1 < b.1) :
    callsAt idx (m.flatMap (toolCallEnd serde)) =
      ((entryAt idx m).bind (entryCall serde idx)).toList := by
  induction m with
  | nil => rfl
  | cons p rest ih =>
      obtain ⟨j, a⟩ := p
      obtain ⟨hlt, hrest⟩ := List.pairwise_cons.mp hm
      rw [List.flatMap_cons, callsAt_append, callsAt_toolCallEnd, ih hrest, entryAt]
      by_cases h : j = idx
      · have hnone : entryAt idx rest = none := by
          apply entryAt_eq_none
          intro q hq
          rw [← h]
          exact hlt q hq
        rw [if_pos h, if_pos h, hnone, h]
        exact List.append_nil _
      · rw [if_neg h, if_neg h]
        rfl

theorem callsAt_done {s : ChatState} {pieces : List Json} (hs : s.Holds d pieces) (idx : Nat) :
    callsAt idx (s.done serde) =
      ((accumAt d idx pieces).bind (entryCall serde idx)).toList := by
  have htext : callsAt idx (if s.textAccum.isEmpty then [] else [.textEnd 0 s.textAccum]) = [] := by
    split <;> rfl
  rw [done, callsAt_append, callsAt_append, htext, callsAt_flatMap idx hs.sorted, hs.entries]
  exact List.append_nil _

/-- What the loop makes of an event: it ends, it breaks off, or it goes on with the
chunk in it. -/
theorem streamLoop_cases (e : SseEvent) (rest : List SseDecoder.Item) (s : ChatState) :
    (e.isDoneMarker = true ∧
      (streamLoop (handle d serde) (fun _ => []) (.ok e :: rest) s).1 = s.done serde) ∨
    (¬ Finished (streamLoop (handle d serde) (fun _ => []) (.ok e :: rest) s).1 ∧
      sentCalls (streamLoop (handle d serde) (fun _ => []) (.ok e :: rest) s).1 = []) ∨
    e.isDoneMarker = false ∧ ∃ value t, e.json serde = some (.ok value) ∧
      (s.chunk d value).2 = some t ∧ Quiet (s.chunk d value).1 ∧
      (streamLoop (handle d serde) (fun _ => []) (.ok e :: rest) s).1 =
        (s.chunk d value).1 ++ (streamLoop (handle d serde) (fun _ => []) rest t).1 := by
  rw [streamLoop, handle]
  cases e.isDoneMarker with
  | true => exact .inl ⟨rfl, rfl⟩
  | false =>
      cases e.json serde with
      | none => exact .inr (.inl ⟨quiet_nil.not_finished, rfl⟩)
      | some result =>
          cases result with
          | error err => exact .inr (.inl ⟨quiet_nil.not_finished, rfl⟩)
          | ok value =>
              have hquiet := (chunk_breaks (d := d) s value).1
              obtain ⟨hsent, -⟩ := chunk_takes (d := d) s value
              have hchunk : s.chunk d value = ((s.chunk d value).1, (s.chunk d value).2) := rfl
              cases hnext : (s.chunk d value).2 with
              | none =>
                  have hevents := hquiet.not_finished
                  rw [hnext] at hchunk
                  simp only [Bool.false_eq_true, if_false]
                  rw [hchunk]
                  exact .inr (.inl ⟨hevents, hsent⟩)
              | some t =>
                  refine .inr (.inr ⟨rfl, value, t, rfl, hnext, hquiet, ?_⟩)
                  rw [hnext] at hchunk
                  simp only [Bool.false_eq_true, if_false]
                  rw [hchunk]
                  rfl

/-- A finished loop sends at an index what its pieces come to. -/
theorem callsAt_streamLoop {s : ChatState} {pieces : List Json} (hs : s.Holds d pieces) (idx : Nat)
    (items : List SseDecoder.Item)
    (hdone : Finished (streamLoop (handle d serde) (fun _ => []) items s).1) :
    callsAt idx (streamLoop (handle d serde) (fun _ => []) items s).1 =
      ((accumAt d idx (pieces ++ piecesRead serde items)).bind (entryCall serde idx)).toList := by
  induction items generalizing s pieces with
  | nil => exact absurd hdone quiet_nil.not_finished
  | cons item rest ih =>
      cases item with
      | error e => exact absurd hdone quiet_nil.not_finished
      | ok e =>
          obtain ⟨hmarker, hloop⟩ | ⟨hbroken, -⟩ |
            ⟨hmarker, value, t, hjson, hnext, hquiet, hloop⟩ := @streamLoop_cases d serde e rest s
          · rw [hloop, piecesRead, if_pos hmarker, List.append_nil]
            exact callsAt_done hs idx
          · exact absurd hdone hbroken
          · obtain ⟨hsent, htakes⟩ := chunk_takes (d := d) s value
            rw [hloop] at hdone ⊢
            have hrest := ih (htakes t hnext pieces hs) (hdone.of_append hquiet)
            rw [List.append_assoc] at hrest
            rw [callsAt_append, hrest, callsAt, hsent, piecesRead, hjson, hmarker]
            rfl

end ChatState

/-! ## Whole streams -/

/-- Each block a response has started is answered by one call, in order. -/
def BlocksAnswered (events : List AssistantMessageEvent) (values : List Json) : Prop :=
  List.Forall₂ StartedCall.Answers ((sentCalls events).map Prod.snd) (startedCalls none values)

/-- Each index a response has started a call at is answered by one call. -/
def IndicesAnswered (d : ChatDialect) (events : List AssistantMessageEvent) (pieces : List Json) :
    Prop :=
  ∀ idx a, accumAt d idx pieces = some a →
    ∃ tc, callsAt idx events = [tc] ∧ (a.args = "" → tc.arguments = .obj [])

theorem blocksAnswered_iff {serde : Serde} {events : List AssistantMessageEvent}
    {values : List Json}
    (h : (sentCalls events).map Prod.snd =
      (startedCalls none values).filterMap (StartedCall.sent serde)) :
    BlocksAnswered events values ↔ ∀ c ∈ startedCalls none values, c.Complete serde := by
  rw [BlocksAnswered, h]
  exact answers_iff_complete _

theorem indicesAnswered_iff {serde : Serde} {d : ChatDialect}
    {events : List AssistantMessageEvent} {pieces : List Json}
    (h : ∀ idx, callsAt idx events =
      ((accumAt d idx pieces).bind (ChatState.entryCall serde idx)).toList) :
    IndicesAnswered d events pieces ↔
      ∀ idx a, accumAt d idx pieces = some a → Usable serde a.args := by
  have hone (idx : Nat) (a : ToolCallAccum) (ha : accumAt d idx pieces = some a) :
      (∃ tc, callsAt idx events = [tc] ∧ (a.args = "" → tc.arguments = .obj [])) ↔
        Usable serde a.args := by
    rw [h idx, ha, Option.bind_some, ChatState.entryCall, Usable]
    cases serde.fromStr a.args with
    | error e => simp [Except.toOption]
    | ok args => simp [Except.toOption]
  constructor
  · intro hall idx a ha
    exact (hone idx a ha).mp (hall idx a ha)
  · intro hall idx a ha
    exact (hone idx a ha).mpr (hall idx a ha)

theorem anthropicStream_fst (serde : Serde) (model : String) (now : SystemTime)
    (items : List SseDecoder.Item) :
    (anthropicStream serde model now items).1 = .start ::
      (streamLoop (StreamParser.handle serde) (fun _ => []) items
        (.new "anthropic" model now)).1 := rfl

theorem bedrockStream_fst (serde : Serde) (model : String) (now : SystemTime)
    (items : List (Except LlmError (Option (List UInt8)))) :
    (bedrockStream serde model now items).1 = .start ::
      (streamLoop (StreamParser.handleChunk serde) (fun _ => []) items
        (.new "bedrock" model now)).1 := rfl

theorem chatStream_fst (d : ChatDialect) (serde : Serde) (provider model : String)
    (now : SystemTime) (items : List SseDecoder.Item) :
    (chatStream d serde provider model now items).1 = .start ::
      (streamLoop (ChatState.handle d serde) (fun _ => []) items
        (.start provider model now)).1 := rfl

theorem sentCalls_start (events : List AssistantMessageEvent) :
    sentCalls (.start :: events) = sentCalls events := rfl

theorem Finished.tail {events : List AssistantMessageEvent} (h : Finished (.start :: events)) :
    Finished events :=
  Finished.of_append (show Finished ([.start] ++ events) from h) (quiet_single rfl)

/-- In a finished stream every started call is answered exactly when every block
has been closed and every text of arguments is JSON, where no text would have to
be the empty object. -/
theorem calls_answered_iff (serde : Serde) (model : String) (now : SystemTime) :
    (∀ items, Finished (anthropicStream serde model now items).1 →
      (BlocksAnswered (anthropicStream serde model now items).1
          (StreamParser.valuesRead (StreamParser.sseValue serde) items) ↔
        ∀ c ∈ startedCalls none (StreamParser.valuesRead (StreamParser.sseValue serde) items),
          c.Complete serde)) ∧
    (∀ items, Finished (bedrockStream serde model now items).1 →
      (BlocksAnswered (bedrockStream serde model now items).1
          (StreamParser.valuesRead (StreamParser.chunkValue serde) items) ↔
        ∀ c ∈ startedCalls none (StreamParser.valuesRead (StreamParser.chunkValue serde) items),
          c.Complete serde)) ∧
    (∀ d provider items, Finished (chatStream d serde provider model now items).1 →
      (IndicesAnswered d (chatStream d serde provider model now items).1
          (piecesRead serde items) ↔
        ∀ idx a, accumAt d idx (piecesRead serde items) = some a → Usable serde a.args)) := by
  refine ⟨?_, ?_, ?_⟩
  · intro items hdone
    apply blocksAnswered_iff
    rw [anthropicStream_fst] at hdone ⊢
    rw [sentCalls_start]
    exact StreamParser.sentCalls_sseLoop items hdone.tail
  · intro items hdone
    apply blocksAnswered_iff
    rw [bedrockStream_fst] at hdone ⊢
    rw [sentCalls_start]
    exact StreamParser.sentCalls_chunkLoop items hdone.tail
  · intro d provider items hdone
    apply indicesAnswered_iff
    intro idx
    rw [chatStream_fst] at hdone ⊢
    have hstart : (ChatState.start provider model now).Holds d [] := ⟨.nil, fun _ => rfl⟩
    have h := ChatState.callsAt_streamLoop hstart idx items hdone.tail
    rw [List.nil_append] at h
    exact h

/-- A call without arguments, as Anthropic streams it. -/
def callWithoutArguments : List Json :=
  [.obj [("type", .str "content_block_start"),
      ("content_block",
        .obj [("type", .str "tool_use"), ("id", .str "t1"), ("name", .str "list")])],
    .obj [("type", .str "content_block_stop")],
    .obj [("type", .str "message_stop")]]

/-- And as OpenAI does. -/
def pieceWithoutArguments : List Json :=
  [.obj [("choices", .arr [.obj [("delta", .obj [("tool_calls", .arr [.obj [("id", .str "c1"),
    ("function", .obj [("name", .str "list"), ("arguments", .str "")])]])])]])]]

/-- The chunks of the AWS client. -/
def blockItems : List (Except LlmError (Option (List UInt8))) :=
  bedrockItems (fun _ => false) 0 (chunksOf callWithoutArguments)

/-- The events of the response, with the marker that ends it. -/
def pieceItems : List SseDecoder.Item :=
  pieceWithoutArguments.map (fun v => .ok ⟨none, String.ofList v.render, none⟩) ++
    [.ok ⟨none, "[DONE]", none⟩]

/-- Both streams are finished, and neither has sent the call. -/
theorem not_calls_answered :
    (bedrockStream (.knowing callWithoutArguments) "model" 0 blockItems).1 =
        [.start, .toolCallStart 0, .done .stop (.blank "bedrock" "model" 0)] ∧
      ¬ BlocksAnswered (bedrockStream (.knowing callWithoutArguments) "model" 0 blockItems).1
        (StreamParser.valuesRead (StreamParser.chunkValue (.knowing callWithoutArguments))
          blockItems) ∧
    (chatStream openAiDialect (.knowing pieceWithoutArguments) "openai" "model" 0 pieceItems).1 =
        [.start, .toolCallDelta 1 "", .done .stop (.blank "openai" "model" 0)] ∧
      ¬ IndicesAnswered openAiDialect
        (chatStream openAiDialect (.knowing pieceWithoutArguments) "openai" "model" 0 pieceItems).1
        (piecesRead (.knowing pieceWithoutArguments) pieceItems) := by
  have hblock : (bedrockStream (.knowing callWithoutArguments) "model" 0 blockItems).1 =
      [.start, .toolCallStart 0, .done .stop (.blank "bedrock" "model" 0)] := by
    decide +kernel
  have hpiece : (chatStream openAiDialect (.knowing pieceWithoutArguments) "openai" "model" 0
      pieceItems).1 = [.start, .toolCallDelta 1 "", .done .stop (.blank "openai" "model" 0)] := by
    decide +kernel
  have hvalues : StreamParser.valuesRead
      (StreamParser.chunkValue (.knowing callWithoutArguments)) blockItems =
      callWithoutArguments := by decide +kernel
  have hpieces : piecesRead (.knowing pieceWithoutArguments) pieceItems =
      pieceWithoutArguments.flatMap callPieces := by decide +kernel
  refine ⟨hblock, ?_, hpiece, ?_⟩
  · rw [hblock, hvalues]
    intro h
    cases h
  · rw [hpiece, hpieces]
    intro h
    obtain ⟨tc, hcalls, -⟩ := h 0 ⟨some "c1", some "list", ""⟩ rfl
    cases hcalls

end Pandaria.Ai
