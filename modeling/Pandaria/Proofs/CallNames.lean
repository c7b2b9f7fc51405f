import Pandaria.Ai.Providers
import Pandaria.Proofs.ToolCalls
import Mathlib.Data.List.Dedup
import Mathlib.Data.List.Induction

/-!
# What tool calls are called

A call that comes without an id is given one, of its place in the response:
Gemini sends no ids at all, and the others leave them out. The number starts
again with every response. So the ids of several responses are apart exactly
when no place is used for two calls, no id is given to two, and none of the given
ids looks like a place that is used (`Apart`).
-/

namespace Pandaria.Ai

/-- The id of a call: what the response says, or its place in the response. -/
inductive CallName where
  | given (id : String)
  | fallback (idx : Nat)
deriving DecidableEq

namespace CallName

def id : CallName → String
  | .given id => id
  | .fallback idx => "call_" ++ toString idx

def given? : CallName → Option String
  | .given id => some id
  | .fallback _ => none

def fallback? : CallName → Option Nat
  | .given _ => none
  | .fallback idx => some idx

theorem mem_given {names : List CallName} {s : String} :
    s ∈ names.filterMap given? ↔ .given s ∈ names := by
  rw [List.mem_filterMap]
  constructor
  · rintro ⟨name, hmem, hname⟩
    cases name with
    | given id =>
        injection hname with hname
        rw [← hname]
        exact hmem
    | fallback idx => cases hname
  · intro h
    exact ⟨_, h, rfl⟩

theorem mem_fallback {names : List CallName} {i : Nat} :
    i ∈ names.filterMap fallback? ↔ .fallback i ∈ names := by
  rw [List.mem_filterMap]
  constructor
  · rintro ⟨name, hmem, hname⟩
    cases name with
    | given id => cases hname
    | fallback idx =>
        injection hname with hname
        rw [← hname]
        exact hmem
  · intro h
    exact ⟨_, h, rfl⟩

theorem fallback_injective {i j : Nat} (h : (fallback i).id = (fallback j).id) : i = j := by
  have hdigits := congrArg String.toList h
  rw [id, id, String.toList_append, String.toList_append, List.append_cancel_left_eq] at hdigits
  have hi : (toString i).toList = Nat.toDigits 10 i := Nat.toList_repr
  have hj : (toString j).toList = Nat.toDigits 10 j := Nat.toList_repr
  rw [hi, hj] at hdigits
  have hnum := congrArg (fun cs => Nat.ofDigitChars 10 cs 0) hdigits
  simp only [Nat.ofDigitChars_ten_toDigits] at hnum
  exact hnum

end CallName

/-- No two of these calls are called the same. -/
structure Apart (names : List CallName) : Prop where
  given : (names.filterMap CallName.given?).Nodup
  fallback : (names.filterMap CallName.fallback?).Nodup
  between : ∀ s i, .given s ∈ names → .fallback i ∈ names → s ≠ "call_" ++ toString i

theorem nodup_ids_iff (names : List CallName) : (names.map CallName.id).Nodup ↔ Apart names := by
  induction names with
  | nil =>
      exact iff_of_true List.nodup_nil
        ⟨List.nodup_nil, List.nodup_nil, fun _ _ h => absurd h List.not_mem_nil⟩
  | cons name rest ih =>
      rw [List.map_cons, List.nodup_cons, ih, List.mem_map]
      cases name with
      | given s =>
          constructor
          · rintro ⟨hnew, hgiven, hfallback, hbetween⟩
            refine ⟨?_, hfallback, ?_⟩
            · refine List.nodup_cons.mpr ⟨?_, hgiven⟩
              intro hmem
              exact hnew ⟨_, CallName.mem_given.mp hmem, rfl⟩
            · intro t i ht hi
              obtain hi | hi := List.mem_cons.mp hi
              · cases hi
              · obtain ht | ht := List.mem_cons.mp ht
                · injection ht with ht
                  rw [ht]
                  intro heq
                  exact hnew ⟨_, hi, heq.symm⟩
                · exact hbetween t i ht hi
          · rintro ⟨hgiven, hfallback, hbetween⟩
            obtain ⟨hnew, hgiven⟩ := List.nodup_cons.mp hgiven
            refine ⟨?_, hgiven, hfallback, ?_⟩
            · rintro ⟨other, hmem, hsame⟩
              cases other with
              | given t =>
                  rw [show t = s from hsame] at hmem
                  exact hnew (CallName.mem_given.mpr hmem)
              | fallback i =>
                  exact hbetween s i List.mem_cons_self (List.mem_cons_of_mem _ hmem) hsame.symm
            · intro t i ht hi
              exact hbetween t i (List.mem_cons_of_mem _ ht) (List.mem_cons_of_mem _ hi)
      | fallback j =>
          constructor
          · rintro ⟨hnew, hgiven, hfallback, hbetween⟩
            refine ⟨hgiven, ?_, ?_⟩
            · refine List.nodup_cons.mpr ⟨?_, hfallback⟩
              intro hmem
              exact hnew ⟨_, CallName.mem_fallback.mp hmem, rfl⟩
            · intro t i ht hi
              obtain ht | ht := List.mem_cons.mp ht
              · cases ht
              · obtain hi | hi := List.mem_cons.mp hi
                · injection hi with hi
                  rw [hi]
                  intro heq
                  exact hnew ⟨_, ht, heq⟩
                · exact hbetween t i ht hi
          · rintro ⟨hgiven, hfallback, hbetween⟩
            obtain ⟨hnew, hfallback⟩ := List.nodup_cons.mp hfallback
            refine ⟨?_, hgiven, hfallback, ?_⟩
            · rintro ⟨other, hmem, hsame⟩
              cases other with
              | given t => exact hbetween t j (List.mem_cons_of_mem _ hmem) List.mem_cons_self hsame
              | fallback i =>
                  rw [CallName.fallback_injective hsame] at hmem
                  exact hnew (CallName.mem_fallback.mpr hmem)
            · intro t i ht hi
              exact hbetween t i (List.mem_cons_of_mem _ ht) (List.mem_cons_of_mem _ hi)

/-- The ids of the calls that have been sent. -/
def sentIds (events : List AssistantMessageEvent) : List String :=
  (sentCalls events).map fun c => c.2.id

theorem sentIds_append (xs ys : List AssistantMessageEvent) :
    sentIds (xs ++ ys) = sentIds xs ++ sentIds ys := by
  rw [sentIds, sentCalls_append, List.map_append]
  rfl

/-! ## Gemini -/

/-- The parts of a chunk. -/
def googleParts (response : Json) : List Json :=
  ((response.at "candidates").asArray.getD []).flatMap fun c =>
    ((c.at "content").at "parts").asArray.getD []

def isCallPart (part : Json) : Bool := (part.get "functionCall").isSome

/-- How many calls a response has, up to where it cannot be read. -/
def callsRead (serde : Serde) : List SseDecoder.Item → Nat
  | [] => 0
  | .error _ :: _ => 0
  | .ok e :: rest =>
      match e.json serde with
      | some (.ok value) => (googleParts value).countP isCallPart + callsRead serde rest
      | _ => 0

/-- Ids of `n` places in a row. -/
def placeIds (start n : Nat) : List String :=
  (List.range' start n).map fun i => (CallName.fallback i).id

theorem placeIds_append (start m n : Nat) :
    placeIds start m ++ placeIds (start + m) n = placeIds start (m + n) := by
  rw [placeIds, placeIds, placeIds, ← List.map_append]
  have h : List.range' start m ++ List.range' (start + 1 * m) n = List.range' start (m + n) :=
    List.range'_append
  rw [Nat.one_mul] at h
  rw [h]

namespace GoogleState

/-- Something sends `n` calls, with the ids of the next places. -/
def Numbers (s : GoogleState) (n : Nat) (r : Sends GoogleState) : Prop :=
  sentIds r.1 = placeIds s.contentIndex n ∧
    ∃ s', r.2 = some s' ∧ s'.contentIndex = s.contentIndex + n

theorem Numbers.andThen {s : GoogleState} {m n : Nat} {r : Sends GoogleState}
    {f : GoogleState → Sends GoogleState} (hr : s.Numbers m r) (hf : ∀ s, Numbers s n (f s)) :
    s.Numbers (m + n) (r.andThen f) := by
  obtain ⟨events, t⟩ := r
  obtain ⟨hids, s', hs', hindex⟩ := hr
  simp only [] at hs'
  subst hs'
  obtain ⟨hids', s'', hs'', hindex'⟩ := hf s'
  refine ⟨?_, s'', hs'', by omega⟩
  show sentIds (events ++ (f s').1) = _
  rw [sentIds_append, hids, hids', hindex]
  exact placeIds_append _ _ _

theorem numbers_sendAll {α : Type} {f : GoogleState → α → Sends GoogleState} {n : α → Nat}
    (hf : ∀ s a, Numbers s (n a) (f s a)) (as : List α) (s : GoogleState) :
    s.Numbers (as.map n).sum (sendAll f as s) := by
  induction as generalizing s with
  | nil => exact ⟨rfl, s, rfl, rfl⟩
  | cons a as ih => exact (hf s a).andThen ih

theorem part_numbers (s : GoogleState) (p : Json) :
    s.Numbers (if isCallPart p then 1 else 0) (s.part p) := by
  have htext : s.Numbers 0 (s.text p) := by
    rw [text]
    cases (p.at "text").asStr with
    | none => exact ⟨rfl, s, rfl, rfl⟩
    | some content =>
        simp only []
        split
        · exact ⟨rfl, _, rfl, rfl⟩
        · refine ⟨?_, _, rfl, rfl⟩
          cases s.currentTextBlock <;> rfl
  have hcall (s : GoogleState) :
      s.Numbers (if isCallPart p then 1 else 0) (s.functionCall p) := by
    rw [functionCall, isCallPart]
    cases p.get "functionCall" with
    | none => exact ⟨rfl, s, rfl, rfl⟩
    | some fc =>
        refine ⟨?_, _, rfl, rfl⟩
        rw [closeText]
        cases s.currentTextBlock <;> rfl
  have h := htext.andThen hcall
  rw [Nat.zero_add] at h
  exact h

theorem sum_ite_eq_countP (parts : List Json) :
    (parts.map fun p => if isCallPart p then 1 else 0).sum = parts.countP isCallPart := by
  induction parts with
  | nil => rfl
  | cons p parts ih =>
      rw [List.map_cons, List.sum_cons, ih, List.countP_cons, Nat.add_comm]

theorem candidate_numbers (s : GoogleState) (c : Json) :
    s.Numbers ((((c.at "content").at "parts").asArray.getD []).countP isCallPart)
      (s.candidate c) := by
  have hparts := numbers_sendAll part_numbers (((c.at "content").at "parts").asArray.getD []) s
  rw [sum_ite_eq_countP] at hparts
  refine hparts.andThen (n := 0) ?_
  intro s
  rw [finishReason]
  cases (c.at "finishReason").asStr with
  | none => exact ⟨rfl, s, rfl, rfl⟩
  | some reason =>
      refine ⟨?_, _, rfl, rfl⟩
      rw [closeText]
      cases s.currentTextBlock <;> rfl

theorem chunk_numbers (s : GoogleState) (response : Json) :
    s.Numbers ((googleParts response).countP isCallPart) (s.chunk response) := by
  have h := numbers_sendAll candidate_numbers ((response.at "candidates").asArray.getD []) s
  have hsum : ((googleParts response).countP isCallPart) =
      (((response.at "candidates").asArray.getD []).map fun c =>
        (((c.at "content").at "parts").asArray.getD []).countP isCallPart).sum := by
    rw [googleParts, List.countP_flatMap]
    rfl
  rw [hsum]
  exact h

/-- The ids of a response are those of its places. -/
theorem sentIds_streamLoop {serde : Serde} (items : List SseDecoder.Item) (s : GoogleState) :
    sentIds (streamLoop (handle serde) done items s).1 =
      placeIds s.contentIndex (callsRead serde items) := by
  induction items generalizing s with
  | nil => rfl
  | cons item rest ih =>
      cases item with
      | error e => rfl
      | ok e =>
          rw [streamLoop, handle, callsRead]
          cases e.json serde with
          | none => rfl
          | some result =>
              cases result with
              | error err => rfl
              | ok value =>
                  obtain ⟨hids, s', hs', hindex⟩ := chunk_numbers s value
                  simp only []
                  generalize s.chunk value = r at hids hs' ⊢
                  obtain ⟨events, t⟩ := r
                  simp only [] at hs'
                  subst hs'
                  show sentIds (events ++ (streamLoop (handle serde) done rest s').1) = _
                  rw [sentIds_append, hids, ih, hindex]
                  exact placeIds_append _ _ _

end GoogleState

/-! ## Chat completions -/

section

variable {β : Type} {l : List (Nat × β)}

theorem nodup_of_length_filter [DecidableEq β]
    (h : ∀ i, (l.filter fun c => c.1 = i).length ≤ 1) : l.Nodup := by
  induction l with
  | nil => exact List.nodup_nil
  | cons c rest ih =>
      refine List.nodup_cons.mpr ⟨?_, ih ?_⟩
      · intro hmem
        have hc := h c.1
        have hrest : c ∈ rest.filter fun c' => c'.1 = c.1 :=
          List.mem_filter.mpr ⟨hmem, by simp⟩
        have hpos := List.length_pos_of_mem hrest
        rw [List.filter_cons, if_pos (by simp), List.length_cons] at hc
        omega
      · intro i
        exact Nat.le_trans ((List.sublist_cons_self c rest).filter _).length_le (h i)

/-- A list with at most one entry at an index is put together from them. -/
theorem perm_filterMap_of_filter [DecidableEq β] {indices : List Nat} {f : Nat → Option β}
    (hindices : indices.Nodup)
    (h : ∀ i, (l.filter fun c => c.1 = i).map Prod.snd = (f i).toList)
    (hall : ∀ i b, f i = some b → i ∈ indices) :
    l.Perm (indices.filterMap fun i => (f i).map fun b => (i, b)) := by
  have hl : l.Nodup := by
    apply nodup_of_length_filter
    intro i
    have hlen := congrArg List.length (h i)
    rw [List.length_map] at hlen
    rw [hlen]
    cases f i <;> simp
  have hmem (i : Nat) (b : β) : (i, b) ∈ l ↔ f i = some b := by
    rw [← Option.mem_toList, ← h i, List.mem_map]
    constructor
    · intro hmem
      exact ⟨(i, b), List.mem_filter.mpr ⟨hmem, by simp⟩, rfl⟩
    · rintro ⟨⟨j, b'⟩, hmem, rfl⟩
      obtain ⟨hmem, hj⟩ := List.mem_filter.mp hmem
      simp only [decide_eq_true_eq] at hj
      rw [← hj]
      exact hmem
  have hr : (indices.filterMap fun i => (f i).map fun b => (i, b)).Nodup := by
    apply hindices.filterMap
    intro i j c hi hj
    obtain ⟨b, _, rfl⟩ := Option.map_eq_some_iff.mp hi
    obtain ⟨b', _, hc⟩ := Option.map_eq_some_iff.mp hj
    exact (congrArg Prod.fst hc).symm
  rw [List.perm_ext_iff_of_nodup hl hr]
  rintro ⟨i, b⟩
  rw [hmem, List.mem_filterMap]
  constructor
  · intro hb
    exact ⟨i, hall i b hb, by rw [hb]; rfl⟩
  · rintro ⟨j, _, hj⟩
    obtain ⟨b', hb', hc⟩ := Option.map_eq_some_iff.mp hj
    injection hc with hij hbb
    rw [← hij, ← hbb]
    exact hb'

end

namespace ChatState

variable {d : ChatDialect} {serde : Serde}

/-- The name of the call an entry of the map ends in. -/
def callName (idx : Nat) (a : ToolCallAccum) : CallName :=
  match a.id with
  | some id => .given id
  | none => .fallback idx

theorem callName_id (idx : Nat) (a : ToolCallAccum) :
    (callName idx a).id = a.id.getD ("call_" ++ toString idx) := by
  rw [callName]
  cases a.id with
  | none => rfl
  | some id => rfl

/-- The calls that come of some pieces. -/
def names (d : ChatDialect) (serde : Serde) (pieces : List Json) : List CallName :=
  (pieces.map pieceIndex).dedup.filterMap fun idx =>
    ((accumAt d idx pieces).filter fun a => (serde.fromStr a.args).toOption.isSome).map
      (callName idx)

theorem accumAt_isSome {idx : Nat} {pieces : List Json} {a : ToolCallAccum}
    (h : accumAt d idx pieces = some a) : idx ∈ (pieces.map pieceIndex).dedup := by
  rw [List.mem_dedup]
  induction pieces using List.reverseRecOn generalizing a with
  | nil => cases h
  | append_singleton pieces tc ih =>
      rw [accumAt_append] at h
      rw [List.map_append, List.mem_append]
      by_cases hidx : pieceIndex tc = idx
      · exact .inr (List.mem_singleton.mpr hidx.symm)
      · rw [if_neg hidx] at h
        exact .inl (ih h)

theorem sentIds_perm_names {events : List AssistantMessageEvent} {pieces : List Json}
    (h : ∀ idx, callsAt idx events = ((accumAt d idx pieces).bind (entryCall serde idx)).toList) :
    (sentIds events).Perm ((names d serde pieces).map CallName.id) := by
  have hall : ∀ i b, (accumAt d i pieces).bind (entryCall serde i) = some b →
      i ∈ (pieces.map pieceIndex).dedup := by
    intro i b hb
    obtain ⟨a, ha, _⟩ := Option.bind_eq_some_iff.mp hb
    exact accumAt_isSome ha
  have hperm := perm_filterMap_of_filter (List.nodup_dedup _) h hall
  refine (hperm.map fun c => c.2.id).trans (.of_eq ?_)
  rw [names, List.map_filterMap, List.map_filterMap]
  congr 1
  funext idx
  cases accumAt d idx pieces with
  | none => rfl
  | some a =>
      simp only [Option.bind_some, Option.filter_some, entryCall]
      cases serde.fromStr a.args with
      | error e => rfl
      | ok args => exact congrArg some (callName_id idx a).symm

/-- What sends a call is the end of the response. -/
theorem finished_of_sentCalls (items : List SseDecoder.Item) (s : ChatState)
    (h : sentCalls (streamLoop (handle d serde) (fun _ => []) items s).1 ≠ []) :
    Finished (streamLoop (handle d serde) (fun _ => []) items s).1 := by
  induction items generalizing s with
  | nil => exact absurd rfl h
  | cons item rest ih =>
      cases item with
      | error e => exact absurd rfl h
      | ok e =>
          obtain ⟨-, hloop⟩ | ⟨-, hnone⟩ | ⟨-, value, t, -, -, -, hloop⟩ :=
            @streamLoop_cases d serde e rest s
          · rw [hloop]
            exact ⟨_, _, List.mem_append.mpr (.inr List.mem_cons_self)⟩
          · exact absurd hnone h
          · obtain ⟨hsent, -⟩ := chunk_takes (d := d) s value
            rw [hloop, sentCalls_append, hsent, List.nil_append] at h
            obtain ⟨reason, m, hmem⟩ := ih t h
            rw [hloop]
            exact ⟨reason, m, List.mem_append.mpr (.inr hmem)⟩

theorem finished_iff (items : List SseDecoder.Item) (s : ChatState) :
    Finished (streamLoop (handle d serde) (fun _ => []) items s).1 ↔
      ending (stops d serde) items = some .finished := by
  have h : Ends (fun _ => []) (ending (stops d serde) items)
      (streamLoop (handle d serde) (fun _ => []) items s) :=
    streamLoop_ends handle_handles items s
  generalize streamLoop (handle d serde) (fun _ => []) items s = after at h ⊢
  generalize ending (stops d serde) items = result at h ⊢
  cases h with
  | left hleaves =>
      cases hleaves with
      | finished reason m hquiet =>
          exact iff_of_true ⟨reason, m, List.mem_append.mpr (.inr List.mem_cons_self)⟩ rfl
      | failed e hquiet => exact iff_of_false hquiet.not_finished (by simp)
      | panicked hquiet => exact iff_of_false hquiet.not_finished (by simp)
  | ranOut t hquiet =>
      exact iff_of_false (hquiet.append quiet_nil).not_finished (by simp)

/-- The names of the calls of a whole response. -/
def responseNames (d : ChatDialect) (serde : Serde) (items : List SseDecoder.Item) :
    List CallName :=
  if ending (stops d serde) items = some .finished then names d serde (piecesRead serde items)
  else []

theorem sentIds_perm (provider model : String) (now : SystemTime)
    (items : List SseDecoder.Item) :
    (sentIds (chatStream d serde provider model now items).1).Perm
      ((responseNames d serde items).map CallName.id) := by
  have hids : sentIds (chatStream d serde provider model now items).1 =
      sentIds (streamLoop (handle d serde) (fun _ => []) items (start provider model now)).1 := rfl
  rw [hids, responseNames]
  split
  · next hend =>
      have hdone := (finished_iff items (start provider model now)).mpr hend
      have hstart : (start provider model now).Holds d [] := ⟨.nil, fun _ => rfl⟩
      apply sentIds_perm_names
      intro idx
      have h := callsAt_streamLoop hstart idx items hdone
      rw [List.nil_append] at h
      exact h
  · next hend =>
      have hnone : sentCalls
          (streamLoop (handle d serde) (fun _ => []) items (start provider model now)).1 = [] := by
        by_contra hne
        exact hend ((finished_iff items _).mp (finished_of_sentCalls items _ hne))
      rw [sentIds, hnone]
      exact .refl _

end ChatState

/-! ## A response -/

/-- The providers that number calls without an id. -/
def ProviderRun.numbersCalls : ProviderRun → Bool
  | .openAiCompatible .. | .mistral _ | .google _ => true
  | _ => false

/-- The names of the calls of a response. -/
def callNames (penv : ProviderEnv) : ProviderRun → List CallName
  | .openAiCompatible _ network =>
      ChatState.responseNames openAiDialect penv.serde (SseDecoder.items penv.cancel network)
  | .mistral network =>
      ChatState.responseNames mistralDialect penv.serde (SseDecoder.items penv.cancel network)
  | .google network =>
      (List.range (callsRead penv.serde (SseDecoder.items penv.cancel network))).map .fallback
  | _ => []

theorem sentCalls_taskEvents (provider model : String) (now : SystemTime)
    (result : List AssistantMessageEvent × TaskEnd) :
    sentCalls (taskEvents provider model now result) = sentCalls result.1 := by
  obtain ⟨events, last⟩ := result
  cases last with
  | failed e =>
      rw [taskEvents, sentCalls_append]
      exact List.append_nil _
  | finished => rfl
  | panicked => rfl

/-- The ids a response brings are those of its names, in some order. -/
theorem sentIds_perm_callNames (penv : ProviderEnv) {run : ProviderRun}
    (h : run.numbersCalls = true) :
    (sentIds (run.events penv)).Perm ((callNames penv run).map CallName.id) := by
  rw [sentIds, ProviderRun.events, sentCalls_taskEvents]
  cases run with
  | openAiCompatible provider network => exact ChatState.sentIds_perm _ _ _ _
  | mistral network => exact ChatState.sentIds_perm _ _ _ _
  | google network =>
      refine .of_eq ?_
      have hids : sentIds (streamLoop (GoogleState.handle penv.serde) GoogleState.done
          (SseDecoder.items penv.cancel network) (.start penv.model penv.now)).1 = _ :=
        GoogleState.sentIds_streamLoop _ _
      rw [callNames, List.map_map, List.range_eq_range']
      exact hids
  | _ => cases h

end Pandaria.Ai
