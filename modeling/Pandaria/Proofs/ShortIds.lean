import Mathlib.Data.Set.Function
import Pandaria.Ai.Transform
import Pandaria.Lib.ByteText

/-!
# Ids cut short

Providers bound the length of an id, so a long one is replaced by its hash and its last
eight bytes. Calls and results are rewritten apart from each other: `normalize_tool_call_ids`
looks up the results among the calls, and for Mistral every id is replaced where it stands.
The two replacements are one with two bounds.

Three things can go wrong. The last eight bytes of a text need not begin with a character.
A result without a call is not looked up, so its id stays as it is. And what a long id is
replaced by is an id that another call may have had from the start.
-/

namespace Pandaria.Ai

open Pandaria.Lib

/-! ## Ids -/

def contentIds (content : List Content) : List String :=
  content.filterMap fun
    | .toolCall tc => some tc.id
    | _ => none

/-- The ids of the calls, in their order. -/
def calledIds (messages : List Message) : List String :=
  messages.flatMap fun
    | .assistant m => contentIds m.content
    | _ => []

/-- And those the results carry. -/
def resultIds (messages : List Message) : List String :=
  messages.filterMap fun
    | .toolResult m => some m.toolCallId
    | _ => none

/-! ## The claim -/

/-- What becomes of the ids of the calls and of the results: they are short, a call and a
result that shared one share one still, and calls that had different ones have. -/
structure Shortened (bound : Nat) (calls results calls' results' : List String) : Prop where
  bounded : ∀ id ∈ calls' ++ results', id.utf8ByteSize ≤ bound
  shared : ∀ (i j : Nat) id, calls[i]? = some id → results[j]? = some id →
    ∃ id', calls'[i]? = some id' ∧ results'[j]? = some id'
  distinct : Set.InjOn shortHash { id | id ∈ calls ++ results } → ∀ (i j : Nat) id jd,
    calls[i]? = some id → calls[j]? = some jd → id ≠ jd → calls'[i]? ≠ calls'[j]?

def Normalizes (messages : List Message) : Prop :=
  ∃ out, normalizeToolCallIds messages = some out ∧
    Shortened 64 (calledIds messages) (resultIds messages) (calledIds out) (resultIds out) ∧
    normalizeToolCallIds out = some out

/-- Mistral truncates the id of each call and of each result. -/
def Truncates (messages : List Message) : Prop :=
  ∃ calls results, (calledIds messages).mapM truncateToolCallId = some calls ∧
    (resultIds messages).mapM truncateToolCallId = some results ∧
    Shortened 36 (calledIds messages) (resultIds messages) calls results ∧
    (calls ++ results).mapM truncateToolCallId = some (calls ++ results)

/-- A character begins eight bytes before the end of the id. -/
def EndsIn (id : String) (last : List Char) : Prop :=
  ∃ front, id.toList = front ++ last ∧ ByteText.size last = 8

/-- No call has the id that a longer one will be replaced by. -/
def Unclaimed (bound : Nat) (calls results : List String) : Prop :=
  Set.InjOn shortHash { id | id ∈ calls ++ results } →
    ∀ id ∈ calls, bound < id.utf8ByteSize → ∀ last, EndsIn id last →
      "call_" ++ shortHash id ++ String.ofList last ∉ calls

/-! ## One id -/

theorem dropBytes_eq (s : List Char) (n : Nat) : dropBytes s n = ByteText.sliceFrom s n := by
  induction s generalizing n with
  | nil => cases n <;> rfl
  | cons c s ih =>
      cases n with
      | zero => rfl
      | succ n => rw [dropBytes, ByteText.sliceFrom, ih]

theorem dropBytes_last_iff {id : String} {last : List Char} (h : 8 ≤ id.utf8ByteSize) :
    dropBytes id.toList (id.utf8ByteSize - 8) = some last ↔ EndsIn id last := by
  rw [dropBytes_eq, ByteText.sliceFrom_eq_some_iff]
  rw [ByteText.utf8ByteSize_eq] at h ⊢
  refine exists_congr fun front => and_congr_right fun heq => ?_
  have hsize := ByteText.size_append front last
  rw [← heq] at hsize
  omega

theorem utf8Size_digitChar {n : Nat} (h : n < 16) : (Nat.digitChar n).utf8Size = 1 := by
  revert n
  decide

theorem size_toDigits (n : Nat) :
    ByteText.size (Nat.toDigits 16 n) = (Nat.toDigits 16 n).length := by
  induction n using Nat.strongRecOn with
  | ind n ih =>
      rw [Nat.toDigits_eq_if (by decide)]
      split
      · next hlt =>
          rw [ByteText.size, utf8Size_digitChar hlt]
          rfl
      · next hge =>
          rw [ByteText.size_append, ih (n / 16) (by omega), List.length_append, ByteText.size,
            utf8Size_digitChar (Nat.mod_lt n (by decide))]
          rfl

theorem size_zeros (n : Nat) : ByteText.size (List.replicate n '0') = n := by
  induction n with
  | zero => rfl
  | succ n ih =>
      have hone : '0'.utf8Size = 1 := by decide
      rw [List.replicate_succ, ByteText.size, ih, hone]
      omega

/-- Sixty-four bits are sixteen digits. -/
theorem size_shortHash_le (s : String) : (shortHash s).utf8ByteSize ≤ 16 := by
  obtain ⟨h, hhash⟩ : ∃ h : UInt64, shortHash s =
      String.ofList (List.replicate (8 - (Nat.toDigits 16 h.toNat).length) '0' ++
        Nat.toDigits 16 h.toNat) := ⟨_, rfl⟩
  have hdigits := (@Nat.length_toDigits_le_iff 16 h.toNat 16 (by decide) (by decide)).mpr
    h.toNat_lt
  rw [hhash, ByteText.utf8ByteSize_ofList, ByteText.size_append, size_zeros, size_toDigits]
  omega

/-! ## Cutting -/

/-- `normalize_id` and `truncate_tool_call_id`, but for the bound. -/
def cutId (bound : Nat) (id : String) : Option String :=
  if id.utf8ByteSize ≤ bound then some id
  else (dropBytes id.toList (id.utf8ByteSize - 8)).map fun last =>
    "call_" ++ shortHash id ++ String.ofList last

theorem normalizeId_eq : normalizeId = cutId 64 := rfl

theorem truncateToolCallId_eq : truncateToolCallId = cutId 36 := rfl

variable {bound : Nat} {id jd id' : String}

theorem cutId_of_le (h : id.utf8ByteSize ≤ bound) : cutId bound id = some id := if_pos h

theorem cutId_long_iff (hb : 8 ≤ bound) (h : bound < id.utf8ByteSize) :
    cutId bound id = some id' ↔
      ∃ last, EndsIn id last ∧ id' = "call_" ++ shortHash id ++ String.ofList last := by
  rw [cutId, if_neg (by omega), Option.map_eq_some_iff]
  refine exists_congr fun last => ?_
  rw [dropBytes_last_iff (by omega), eq_comm]

/-- An id that is replaced becomes a short one. -/
theorem size_short_le {last : List Char} (h : EndsIn id last) :
    ("call_" ++ shortHash id ++ String.ofList last).utf8ByteSize ≤ 29 := by
  obtain ⟨-, -, hsize⟩ := h
  have hhash := size_shortHash_le id
  have hcall : "call_".utf8ByteSize = 5 := by decide
  rw [String.utf8ByteSize_append, String.utf8ByteSize_append, ByteText.utf8ByteSize_ofList last]
  omega

theorem size_cutId_le (hb : 29 ≤ bound) (h : cutId bound id = some id') :
    id'.utf8ByteSize ≤ bound := by
  by_cases hle : id.utf8ByteSize ≤ bound
  · rw [cutId_of_le hle] at h
    injection h with h
    rw [← h]
    exact hle
  · obtain ⟨last, hlast, rfl⟩ := (cutId_long_iff (by omega) (by omega)).mp h
    have hshort := size_short_le hlast
    omega

/-- The replacements of two ids differ if their hashes do. -/
theorem shortHash_eq_of_short_eq {last last' : List Char} (h : EndsIn id last)
    (h' : EndsIn jd last')
    (heq : "call_" ++ shortHash id ++ String.ofList last =
      "call_" ++ shortHash jd ++ String.ofList last') : shortHash id = shortHash jd := by
  obtain ⟨-, -, hsize⟩ := h
  obtain ⟨-, -, hsize'⟩ := h'
  have hlist := congrArg String.toList heq
  rw [String.toList_append, String.toList_append, String.toList_append, String.toList_append,
    @String.toList_ofList last, @String.toList_ofList last', List.append_assoc,
    List.append_assoc] at hlist
  have hrest := List.append_cancel_left hlist
  have htotal := congrArg ByteText.size hrest
  rw [ByteText.size_append, ByteText.size_append] at htotal
  obtain ⟨w, hw, hlast⟩ := ByteText.exists_append_of_size_le hrest (by omega)
  have hnil : w = [] := by
    by_contra hne
    have hpos := ByteText.size_pos hne
    rw [hw, ByteText.size_append] at htotal
    omega
  rw [hnil, List.append_nil] at hw
  exact (String.toList_inj.mp hw).symm

/-! ## All ids of a list -/

/-- An id, cut if it can be. -/
def shortId (bound : Nat) (id : String) : String := (cutId bound id).getD id

theorem cutId_eq_shortId (h : (cutId bound id).isSome) :
    cutId bound id = some (shortId bound id) := by
  obtain ⟨id', hid'⟩ := Option.isSome_iff_exists.mp h
  rw [shortId, hid']
  rfl

theorem isSome_cutId_iff (hb : 8 ≤ bound) :
    (cutId bound id).isSome ↔ (bound < id.utf8ByteSize → ∃ last, EndsIn id last) := by
  by_cases hle : id.utf8ByteSize ≤ bound
  · rw [cutId_of_le hle]
    exact iff_of_true rfl fun h => absurd h (by omega)
  · have hlong : bound < id.utf8ByteSize := by omega
    rw [Option.isSome_iff_exists]
    constructor
    · rintro ⟨id', hid'⟩ _
      obtain ⟨last, hlast, -⟩ := (cutId_long_iff hb hlong).mp hid'
      exact ⟨last, hlast⟩
    · intro h
      obtain ⟨last, hlast⟩ := h hlong
      exact ⟨_, (cutId_long_iff hb hlong).mpr ⟨last, hlast, rfl⟩⟩

section

variable {calls results : List String} {rename : String → String}

/-- Different ids stay different exactly when none of them is what another one becomes. -/
theorem distinct_iff_unclaimed (hb : 29 ≤ bound) (hcalls : ∀ id ∈ calls, (cutId bound id).isSome) :
    (Set.InjOn shortHash { id | id ∈ calls ++ results } → ∀ id ∈ calls, ∀ jd ∈ calls, id ≠ jd →
      shortId bound id ≠ shortId bound jd) ↔ Unclaimed bound calls results := by
  refine imp_congr_right fun hinj => ?_
  constructor
  · intro h id hid hlong last hlast hmem
    have hid' : shortId bound id = "call_" ++ shortHash id ++ String.ofList last := by
      rw [shortId, (cutId_long_iff (by omega) hlong).mpr ⟨last, hlast, rfl⟩]
      rfl
    have hsize := size_short_le hlast
    have hne : id ≠ "call_" ++ shortHash id ++ String.ofList last := by
      intro heq
      rw [← heq] at hsize
      omega
    refine h id hid _ hmem hne ?_
    rw [hid', shortId, cutId_of_le (by omega)]
    rfl
  · intro h id hid jd hjd hne heq
    have hid' := cutId_eq_shortId (hcalls id hid)
    have hjd' := cutId_eq_shortId (hcalls jd hjd)
    -- One of the two is replaced, for else they are as they were.
    rcases Nat.lt_or_ge bound id.utf8ByteSize with hlong | hle
    · obtain ⟨last, hlast, hshort⟩ := (cutId_long_iff (by omega) hlong).mp hid'
      rcases Nat.lt_or_ge bound jd.utf8ByteSize with hlong' | hle'
      · obtain ⟨last', hlast', hshort'⟩ := (cutId_long_iff (by omega) hlong').mp hjd'
        have hhash := shortHash_eq_of_short_eq hlast hlast'
          (hshort.symm.trans (heq.trans hshort'))
        exact hne (hinj (List.mem_append_left _ hid) (List.mem_append_left _ hjd) hhash)
      · rw [cutId_of_le hle'] at hjd'
        injection hjd' with hjd'
        refine h id hid hlong last hlast ?_
        rw [← hshort, heq, ← hjd']
        exact hjd
    · rw [cutId_of_le hle] at hid'
      injection hid' with hid'
      rcases Nat.lt_or_ge bound jd.utf8ByteSize with hlong' | hle'
      · obtain ⟨last', hlast', hshort'⟩ := (cutId_long_iff (by omega) hlong').mp hjd'
        refine h jd hjd hlong' last' hlast' ?_
        rw [← hshort', ← heq, ← hid']
        exact hid
      · rw [cutId_of_le hle'] at hjd'
        injection hjd' with hjd'
        exact hne (hid'.trans (heq.trans hjd'.symm))

/-- When calls are cut, and results are at least where they share an id with a call. -/
theorem shortened_iff (hb : 29 ≤ bound) (hcalls : ∀ id ∈ calls, (cutId bound id).isSome)
    (hshared : ∀ id ∈ results, id ∈ calls → rename id = shortId bound id) :
    Shortened bound calls results (calls.map (shortId bound)) (results.map rename) ↔
      (∀ id ∈ results, (rename id).utf8ByteSize ≤ bound) ∧ Unclaimed bound calls results := by
  rw [← distinct_iff_unclaimed hb hcalls]
  constructor
  · intro h
    refine ⟨fun id hid => ?_, fun hinj id hid jd hjd hne heq => ?_⟩
    · exact h.bounded _ (List.mem_append_right _ (List.mem_map_of_mem hid))
    · obtain ⟨i, hi⟩ := List.getElem?_of_mem hid
      obtain ⟨j, hj⟩ := List.getElem?_of_mem hjd
      refine h.distinct hinj i j id jd hi hj hne ?_
      rw [List.getElem?_map, List.getElem?_map, hi, hj, Option.map_some, Option.map_some, heq]
  · rintro ⟨hbounded, hdistinct⟩
    refine ⟨fun id hid => ?_, fun i j id hi hj => ?_, fun hinj i j id jd hi hj hne heq => ?_⟩
    · rcases List.mem_append.mp hid with hid | hid
      · obtain ⟨jd, hjd, rfl⟩ := List.mem_map.mp hid
        exact size_cutId_le hb (cutId_eq_shortId (hcalls jd hjd))
      · obtain ⟨jd, hjd, rfl⟩ := List.mem_map.mp hid
        exact hbounded jd hjd
    · refine ⟨shortId bound id, ?_, ?_⟩
      · rw [List.getElem?_map, hi, Option.map_some]
      · rw [List.getElem?_map, hj, Option.map_some,
          hshared id (List.mem_of_getElem? hj) (List.mem_of_getElem? hi)]
    · rw [List.getElem?_map, List.getElem?_map, hi, hj, Option.map_some, Option.map_some] at heq
      injection heq with heq
      exact hdistinct hinj id (List.mem_of_getElem? hi) jd (List.mem_of_getElem? hj) hne heq

end

/-! ## The ids of messages -/

theorem mapM_cutId_iff {ids ids' : List String} :
    ids.mapM (cutId bound) = some ids' ↔
      (∀ id ∈ ids, (cutId bound id).isSome) ∧ ids' = ids.map (shortId bound) := by
  induction ids generalizing ids' with
  | nil =>
      rw [List.mapM_nil]
      constructor
      · rintro ⟨⟩
        exact ⟨fun _ hid => absurd hid List.not_mem_nil, rfl⟩
      · rintro ⟨-, rfl⟩
        rfl
  | cons id ids ih =>
      rw [List.mapM_cons, List.forall_mem_cons]
      constructor
      · intro h
        obtain ⟨first, hfirst, h⟩ := Option.bind_eq_some_iff.mp h
        obtain ⟨rest, hrest, h⟩ := Option.bind_eq_some_iff.mp h
        injection h with h
        obtain ⟨hall, hmap⟩ := ih.mp hrest
        refine ⟨⟨by rw [hfirst]; rfl, hall⟩, ?_⟩
        rw [← h, hmap, List.map_cons, shortId, hfirst]
        rfl
      · rintro ⟨⟨hfirst, hall⟩, rfl⟩
        rw [cutId_eq_shortId hfirst, ih.mpr ⟨hall, rfl⟩]
        rfl

def Content.shortened : Content → Content
  | .toolCall tc => .toolCall { tc with id := shortId 64 tc.id }
  | c => c

def Message.shortened : Message → Message
  | .assistant m => .assistant { m with content := m.content.map Content.shortened }
  | m => m

/-- What the first pass writes down of some ids. -/
def entries (ids : List String) : List (String × String) :=
  (ids.filter fun id => shortId 64 id ≠ id).map fun id => (id, shortId 64 id)

theorem entries_append (ids ids' : List String) :
    entries (ids ++ ids') = entries ids ++ entries ids' := by
  rw [entries, List.filter_append, List.map_append]
  rfl

theorem entries_cons (id : String) (ids : List String) :
    entries (id :: ids) =
      (if shortId 64 id = id then [] else [(id, shortId 64 id)]) ++ entries ids := by
  rw [← List.singleton_append, entries_append]
  congr 1
  by_cases h : shortId 64 id = id
  · simp [entries, h]
  · simp [entries, h]

theorem renameCalls_eq (content : List Content) :
    renameCalls content =
      if (contentIds content).all (fun id => (cutId 64 id).isSome) then
        some (content.map Content.shortened, entries (contentIds content))
      else none := by
  induction content with
  | nil => rfl
  | cons c rest ih =>
      cases c with
      | toolCall tc =>
          have hids : contentIds (.toolCall tc :: rest) = tc.id :: contentIds rest := rfl
          rw [renameCalls, normalizeId_eq, hids, List.all_cons, entries_cons, ih]
          cases hcut : cutId 64 tc.id with
          | none => rfl
          | some normalized =>
              have hshort : shortId 64 tc.id = normalized := by
                rw [shortId, hcut]
                rfl
              rw [hshort, Option.bind_some, Option.isSome_some, Bool.true_and]
              by_cases hall : ((contentIds rest).all fun id => (cutId 64 id).isSome) = true
              · rw [if_pos hall, if_pos hall, Option.map_some, List.map_cons, Content.shortened,
                  hshort]
              · rw [if_neg hall, if_neg hall]
                rfl
      | text _ _ | image _ _ | video _ _ | audio _ _ | thinking _ _ _ =>
          have hmap : ∀ c : Content, Content.shortened c = c →
              (renameCalls rest).map (fun later => (c :: later.1, later.2)) =
                if (contentIds rest).all (fun id => (cutId 64 id).isSome) then
                  some ((c :: rest).map Content.shortened, entries (contentIds rest))
                else none := by
            intro c hc
            rw [ih, List.map_cons, hc]
            split <;> rfl
          exact hmap _ rfl

theorem calledIds_assistant (m : AssistantMessage) (rest : List Message) :
    calledIds (.assistant m :: rest) = contentIds m.content ++ calledIds rest := rfl

theorem renameAssistants_eq (messages : List Message) :
    renameAssistants messages =
      if (calledIds messages).all (fun id => (cutId 64 id).isSome) then
        some (messages.map Message.shortened, entries (calledIds messages))
      else none := by
  induction messages with
  | nil => rfl
  | cons m rest ih =>
      cases m with
      | assistant m =>
          rw [renameAssistants, calledIds_assistant, List.all_append, entries_append, ih,
            renameCalls_eq]
          cases (contentIds m.content).all fun id => (cutId 64 id).isSome with
          | false => rfl
          | true =>
              cases (calledIds rest).all fun id => (cutId 64 id).isSome with
              | false => rfl
              | true => rfl
      | user _ | toolResult _ =>
          have hmap : ∀ m : Message, Message.shortened m = m →
              (renameAssistants rest).map (fun later => (m :: later.1, later.2)) =
                if (calledIds rest).all (fun id => (cutId 64 id).isSome) then
                  some ((m :: rest).map Message.shortened, entries (calledIds rest))
                else none := by
            intro m hm
            rw [ih, List.map_cons, hm]
            split <;> rfl
          exact hmap _ rfl

/-- A short id stays as it is. -/
theorem shortId_of_le (h : id.utf8ByteSize ≤ bound) : shortId bound id = id := by
  rw [shortId, cutId_of_le h]
  rfl

/-- How an entry is tried on an id. -/
def tryEntry (id : String) (entry : String × String) : String :=
  if id = entry.1 then entry.2 else id

/-- What an id of a result becomes. No entry is tried on what another one has put there, for
what is put there is short. -/
theorem foldl_entries {ids : List String} (h : ∀ id ∈ ids, (cutId 64 id).isSome) (id : String) :
    (entries ids).foldl tryEntry id = if id ∈ ids then shortId 64 id else id := by
  induction ids generalizing id with
  | nil => rfl
  | cons first ids ih =>
      have hrest := ih fun id hid => h id (List.mem_cons_of_mem _ hid)
      have hstep : (if shortId 64 first = first then [] else [(first, shortId 64 first)]).foldl
          tryEntry id = if id = first then shortId 64 first else id := by
        split
        · next hsame =>
            rw [hsame]
            split
            · next heq => exact heq
            · rfl
        · rfl
      rw [entries_cons, List.foldl_append, hstep]
      by_cases heq : id = first
      · have hsize := size_cutId_le (by decide) (cutId_eq_shortId (h first List.mem_cons_self))
        rw [if_pos heq, hrest, shortId_of_le hsize, ite_self, heq, if_pos List.mem_cons_self]
      · rw [if_neg heq, hrest]
        have hmem : id ∈ first :: ids ↔ id ∈ ids :=
          ⟨fun hid => (List.mem_cons.mp hid).resolve_left heq, List.mem_cons_of_mem _⟩
        rw [if_congr hmem rfl rfl]

theorem calledIds_shortened (messages : List Message) :
    calledIds (messages.map Message.shortened) = (calledIds messages).map (shortId 64) := by
  have hcontent (content : List Content) :
      contentIds (content.map Content.shortened) = (contentIds content).map (shortId 64) := by
    induction content with
    | nil => rfl
    | cons c rest ih =>
        cases c with
        | toolCall tc => exact congrArg (List.cons _) ih
        | _ => exact ih
  induction messages with
  | nil => rfl
  | cons m rest ih =>
      cases m with
      | assistant m =>
          rw [List.map_cons, Message.shortened, calledIds_assistant, calledIds_assistant,
            List.map_append, ← hcontent, ← ih]
      | _ => exact ih

theorem resultIds_shortened (messages : List Message) :
    resultIds (messages.map Message.shortened) = resultIds messages := by
  induction messages with
  | nil => rfl
  | cons m rest ih =>
      cases m with
      | toolResult m => exact congrArg (List.cons _) ih
      | _ => exact ih

theorem calledIds_renameResults (idMap : List (String × String)) (messages : List Message) :
    calledIds (renameResults idMap messages) = calledIds messages := by
  induction messages with
  | nil => rfl
  | cons m rest ih =>
      cases m with
      | assistant m => exact congrArg (contentIds m.content ++ ·) ih
      | _ => exact ih

theorem resultIds_renameResults (idMap : List (String × String)) (messages : List Message) :
    resultIds (renameResults idMap messages) =
      (resultIds messages).map (idMap.foldl tryEntry) := by
  induction messages with
  | nil => rfl
  | cons m rest ih =>
      cases m with
      | toolResult m => exact congrArg (List.cons _) ih
      | _ => exact ih

theorem shortened_of_short {messages : List Message}
    (h : ∀ id ∈ calledIds messages, id.utf8ByteSize ≤ 64) :
    messages.map Message.shortened = messages := by
  have hcontent {content : List Content} (h : ∀ id ∈ contentIds content, id.utf8ByteSize ≤ 64) :
      content.map Content.shortened = content := by
    induction content with
    | nil => rfl
    | cons c rest ih =>
        cases c with
        | toolCall tc =>
            rw [List.map_cons, Content.shortened, shortId_of_le (h _ List.mem_cons_self),
              ih fun id hid => h id (List.mem_cons_of_mem _ hid)]
        | _ => exact congrArg (List.cons _) (ih h)
  induction messages with
  | nil => rfl
  | cons m rest ih =>
      cases m with
      | assistant m =>
          have hrest := ih fun id hid => h id (List.mem_append_right _ hid)
          have hm := hcontent fun id hid => h id (List.mem_append_left _ hid)
          rw [List.map_cons, Message.shortened, hm, hrest]
      | _ => exact congrArg (List.cons _) (ih h)

theorem renameResults_nil (messages : List Message) : renameResults [] messages = messages := by
  induction messages with
  | nil => rfl
  | cons m rest ih =>
      cases m with
      | _ => exact congrArg (List.cons _) ih

/-- Where all calls have short ids there is nothing to do. -/
theorem normalizeToolCallIds_of_short {messages : List Message}
    (h : ∀ id ∈ calledIds messages, id.utf8ByteSize ≤ 64) :
    normalizeToolCallIds messages = some messages := by
  have hall : (calledIds messages).all (fun id => (cutId 64 id).isSome) = true := by
    refine List.all_eq_true.mpr fun id hid => ?_
    rw [cutId_of_le (h id hid)]
    rfl
  have hnone : entries (calledIds messages) = [] := by
    rw [entries, List.filter_eq_nil_iff.mpr fun id hid => ?_]
    · rfl
    · rw [decide_eq_true_iff, not_not]
      exact shortId_of_le (h id hid)
  rw [normalizeToolCallIds, renameAssistants_eq, if_pos hall, shortened_of_short h, hnone]
  exact congrArg some (renameResults_nil messages)

/-! ## What becomes of the ids -/

theorem normalizes_iff_of_isSome {messages : List Message}
    (hall : ∀ id ∈ calledIds messages, (cutId 64 id).isSome) :
    Normalizes messages ↔
      (∀ id ∈ resultIds messages, 64 < id.utf8ByteSize → id ∈ calledIds messages) ∧
      Unclaimed 64 (calledIds messages) (resultIds messages) := by
  have hout : normalizeToolCallIds messages = some (renameResults (entries (calledIds messages))
      (messages.map Message.shortened)) := by
    rw [normalizeToolCallIds, renameAssistants_eq, if_pos (List.all_eq_true.mpr hall)]
    rfl
  have hsent : calledIds (renameResults (entries (calledIds messages))
      (messages.map Message.shortened)) = (calledIds messages).map (shortId 64) := by
    rw [calledIds_renameResults, calledIds_shortened]
  have hresults : resultIds (renameResults (entries (calledIds messages))
      (messages.map Message.shortened)) =
        (resultIds messages).map ((entries (calledIds messages)).foldl tryEntry) := by
    rw [resultIds_renameResults, resultIds_shortened]
  have hshared (id : String) (_ : id ∈ resultIds messages) (hid : id ∈ calledIds messages) :
      (entries (calledIds messages)).foldl tryEntry id = shortId 64 id := by
    rw [foldl_entries hall, if_pos hid]
  have hbounded : (∀ id ∈ resultIds messages,
      ((entries (calledIds messages)).foldl tryEntry id).utf8ByteSize ≤ 64) ↔
        ∀ id ∈ resultIds messages, 64 < id.utf8ByteSize → id ∈ calledIds messages := by
    refine forall₂_congr fun id hid => ?_
    rw [foldl_entries hall]
    by_cases hsent : id ∈ calledIds messages
    · have hsize := size_cutId_le (by decide) (cutId_eq_shortId (hall id hsent))
      rw [if_pos hsent]
      exact iff_of_true hsize fun _ => hsent
    · rw [if_neg hsent]
      constructor
      · intro hle hlong
        omega
      · intro h
        by_contra hlong
        exact hsent (h (by omega))
  have hshortened := shortened_iff (by decide) hall hshared
  rw [hbounded] at hshortened
  rw [← hshortened]
  constructor
  · rintro ⟨out, hnormal, hshort, -⟩
    rw [hout] at hnormal
    injection hnormal with hnormal
    rw [← hnormal, hsent, hresults] at hshort
    exact hshort
  · intro hshort
    refine ⟨_, hout, by rw [hsent, hresults]; exact hshort, ?_⟩
    refine normalizeToolCallIds_of_short fun id hid => ?_
    rw [hsent] at hid
    exact hshort.bounded id (List.mem_append_left _ hid)

theorem isSome_of_normalizes {messages : List Message} (h : Normalizes messages) :
    ∀ id ∈ calledIds messages, (cutId 64 id).isSome := by
  obtain ⟨out, hout, -⟩ := h
  rw [normalizeToolCallIds, renameAssistants_eq] at hout
  split at hout
  · next hall => exact List.all_eq_true.mp hall
  · cases hout

theorem truncates_iff_of_isSome {messages : List Message}
    (hall : ∀ id ∈ calledIds messages ++ resultIds messages, (cutId 36 id).isSome) :
    Truncates messages ↔ Unclaimed 36 (calledIds messages) (resultIds messages) := by
  have hcalls (id : String) (hid : id ∈ calledIds messages) := hall id (List.mem_append_left _ hid)
  have hresults (id : String) (hid : id ∈ resultIds messages) :=
    hall id (List.mem_append_right _ hid)
  have hbounded (id : String) (hid : id ∈ resultIds messages) :
      (shortId 36 id).utf8ByteSize ≤ 36 :=
    size_cutId_le (by decide) (cutId_eq_shortId (hresults id hid))
  have hshortened := @shortened_iff 36 _ _ (shortId 36) (by decide) hcalls
    fun id (_ : id ∈ resultIds messages) _ => rfl
  rw [and_iff_right hbounded] at hshortened
  rw [← hshortened, Truncates, truncateToolCallId_eq]
  constructor
  · rintro ⟨calls, results, hmcalls, hmresults, hshort, -⟩
    rw [(mapM_cutId_iff.mp hmcalls).2, (mapM_cutId_iff.mp hmresults).2] at hshort
    exact hshort
  · intro hshort
    refine ⟨_, _, mapM_cutId_iff.mpr ⟨hcalls, rfl⟩, mapM_cutId_iff.mpr ⟨hresults, rfl⟩, hshort,
      mapM_cutId_iff.mpr ⟨fun id hid => ?_, ?_⟩⟩
    · rw [cutId_of_le (hshort.bounded id hid)]
      rfl
    · refine (List.map_id _).symm.trans (List.map_congr_left fun id hid => ?_)
      exact (shortId_of_le (hshort.bounded id hid)).symm

theorem isSome_of_truncates {messages : List Message} (h : Truncates messages) :
    ∀ id ∈ calledIds messages ++ resultIds messages, (cutId 36 id).isSome := by
  obtain ⟨calls, results, hcalls, hresults, -⟩ := h
  rw [truncateToolCallId_eq] at hcalls hresults
  intro id hid
  rcases List.mem_append.mp hid with hid | hid
  · exact (mapM_cutId_iff.mp hcalls).1 id hid
  · exact (mapM_cutId_iff.mp hresults).1 id hid

/-- The last eight bytes of a long id are its last characters, no result with a long id is
without its call, and no call has the id that another one gets; and the same for Mistral,
where the ids of the results are cut like those of the calls. -/
theorem shortened_ids_iff (messages : List Message) :
    (Normalizes messages ↔
      (∀ id ∈ calledIds messages, 64 < id.utf8ByteSize → ∃ last, EndsIn id last) ∧
      (∀ id ∈ resultIds messages, 64 < id.utf8ByteSize → id ∈ calledIds messages) ∧
      Unclaimed 64 (calledIds messages) (resultIds messages)) ∧
    (Truncates messages ↔
      (∀ id ∈ calledIds messages ++ resultIds messages,
        36 < id.utf8ByteSize → ∃ last, EndsIn id last) ∧
      Unclaimed 36 (calledIds messages) (resultIds messages)) := by
  have hsome (bound : Nat) (hb : 8 ≤ bound) (ids : List String) :
      (∀ id ∈ ids, (cutId bound id).isSome) ↔
        ∀ id ∈ ids, bound < id.utf8ByteSize → ∃ last, EndsIn id last :=
    forall₂_congr fun _ _ => isSome_cutId_iff hb
  rw [← hsome 64 (by decide), ← hsome 36 (by decide)]
  constructor
  · constructor
    · intro h
      have hall := isSome_of_normalizes h
      exact ⟨hall, (normalizes_iff_of_isSome hall).mp h⟩
    · rintro ⟨hall, h⟩
      exact (normalizes_iff_of_isSome hall).mpr h
  · constructor
    · intro h
      have hall := isSome_of_truncates h
      exact ⟨hall, (truncates_iff_of_isSome hall).mp h⟩
    · rintro ⟨hall, h⟩
      exact (truncates_iff_of_isSome hall).mpr h

/-! ## An id of three-byte characters -/

/-- A message that calls a tool. -/
def calling (id : String) : Message :=
  .assistant { (default : AssistantMessage) with content := [.toolCall ⟨id, "read", .null, none⟩] }

theorem not_isSome_cutId {bound : Nat} (h : bound < 66) (hb : 8 ≤ bound) :
    ¬ (cutId bound (String.ofList (List.replicate 22 '€'))).isSome := by
  have hsize (n : Nat) : ByteText.size (List.replicate n '€') = 3 * n := by
    have hthree : '€'.utf8Size = 3 := by decide
    induction n with
    | zero => rfl
    | succ n ih =>
        rw [List.replicate_succ, ByteText.size, ih, hthree]
        omega
  rw [isSome_cutId_iff hb, ByteText.utf8ByteSize_ofList, hsize]
  intro hends
  obtain ⟨last, front, heq, hlast⟩ := hends h
  rw [String.toList_ofList] at heq
  have htotal := congrArg ByteText.size heq
  rw [ByteText.size_append, hsize] at htotal
  have hfront := (List.prefix_replicate_iff.mp ⟨last, heq.symm⟩).2
  rw [hfront, hsize] at htotal
  omega

/-- The last eight bytes of 22 times three begin inside a character. -/
theorem not_shortened_ids :
    ¬ Normalizes [calling (String.ofList (List.replicate 22 '€'))] ∧
      ¬ Truncates [calling (String.ofList (List.replicate 22 '€'))] := by
  constructor
  · intro h
    exact not_isSome_cutId (by decide) (by decide) (isSome_of_normalizes h _ List.mem_cons_self)
  · intro h
    exact not_isSome_cutId (by decide) (by decide) (isSome_of_truncates h _ List.mem_cons_self)

end Pandaria.Ai
