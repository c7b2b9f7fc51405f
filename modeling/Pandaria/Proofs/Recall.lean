import Pandaria.Agent.Hooks
import Pandaria.Lib.Run
import Pandaria.Proofs.Copy
import Pandaria.Proofs.SummaryText
import Pandaria.Proofs.Fragments
import Pandaria.Proofs.Partition

/-!
# What a session still has of its past

A message is still there when its entry is, or when a summary that goes into the
next prompt is of it: the note of the context strategy, or the summary of the
last compaction entry. A history does not say what its summaries are of. Here
every entry stands beside the messages it is a summary of, the note beside those
it is of, and `seen` is the history as it would be had nothing ever been cut off.

An attempt cuts at two places. The note is of what stands before the cut of the
compactor, which goes by tokens; the entries are cut at a number of them. What is
between the two is nowhere. What an earlier note was of is nowhere either: the new
note takes its place, and the compactor knows only of compaction entries.
`AttemptOk` is the state in which neither happens.
-/

namespace Pandaria.Agent

open Pandaria.Ai Pandaria.Lib

/-! ## What a summary is of -/

/-- Where the compactor cuts. -/
def summaryCut (c : Compactor) (entries : List SessionEntry) : Nat :=
  (findCutPoint entries (previousBoundary entries).2 entries.length
    c.config.keepRecentTokens).firstKeptEntryIndex

/-- The entries of the messages the compactor puts before the provider. -/
def summarized (c : Compactor) (entries : List SessionEntry) : List SessionEntry :=
  ((entries.take (summaryCut c entries)).drop (previousBoundary entries).2).filter isMessage

theorem filterMap_filter_isMessage (entries : List SessionEntry) :
    (entries.filter isMessage).filterMap SessionEntry.message? =
      entries.filterMap SessionEntry.message? := by
  rw [List.filterMap_filter]
  congr 1
  funext e
  cases e <;> rfl

/-- It puts them before the provider in one or two prompts, and the summary of the last
compaction entry with them. -/
theorem prepare_summarized {c : Compactor} {entries : List SessionEntry}
    {p : CompactionPreparation} (h : prepare c entries = .ok p) :
    p.messagesToSummarize ++ p.turnPrefixMessages =
        (summarized c entries).filterMap SessionEntry.message? ∧
      p.previousSummary = (previousBoundary entries).1 := by
  constructor
  · obtain ⟨hlast, -⟩ := prepare_ok h
    obtain ⟨hle, -⟩ := findCutPoint_le entries c.config.keepRecentTokens
      (previousBoundary_lt hlast)
    obtain ⟨i, hi, hij, hsummarize, hturn⟩ := prepare_stretches h rfl hle
    rw [hsummarize, hturn, ← messagesBetween_append entries hi hij, summarized,
      filterMap_filter_isMessage]
    rfl
  · rw [prepare] at h
    generalize previousBoundary entries = boundary at h ⊢
    obtain ⟨previousSummary, start⟩ := boundary
    split at h
    · cases h
    · cases h
    · injection h with h
      rw [← h]

/-- The entry holds the call, and the other one its result. -/
def SessionEntry.calls : SessionEntry → SessionEntry → Bool
  | .message _ (.assistant a), .message _ (.toolResult r) =>
      a.content.any fun
        | .toolCall call => call.id = r.toolCallId
        | _ => false
  | _, _ => false

/-- The summary of a compaction entry. -/
def SessionEntry.summary? : SessionEntry → Option String
  | .message .. => none
  | .compaction _ summary .. => some summary

/-! ## Sessions with a memory -/

/-- An entry beside the messages its summary is of. -/
abbrev Item := SessionEntry × List SessionEntry

/-- The last compaction among some items. -/
def lastCompaction (items : List Item) : Option Item :=
  items.reverse.find? fun x => x.1.isCompaction

/-- What the summary of the last compaction is of. -/
def carriedOver (items : List Item) : List SessionEntry :=
  ((lastCompaction items).map Prod.snd).getD []

/-- The note of a context strategy. -/
structure Note where
  summary : String
  messages : List SessionEntry

structure Remembered where
  items : List Item
  prompt : Hook.PromptBuilder
  note : Option Note
  seen : List SessionEntry

namespace Remembered

def entries (s : Remembered) : List SessionEntry := s.items.map Prod.fst

/-- A session from which the account starts. -/
def start (items : List Item) (b : Hook.PromptBuilder) : Remembered :=
  { items := items
    prompt := b
    note := none
    seen := (items.map Prod.fst ++ carriedOver items).filter isMessage }

/-- The summary is in the prompt, as far as a fragment has room for it. -/
def Shows (b : Hook.PromptBuilder) (summary : String) : Prop :=
  ∃ f ∈ b.fragments, f.id = (Hook.PromptBuilder.strategyFragment summary).id ∧
    truncate PromptBuilder.maxFragmentBytes
      (Hook.PromptBuilder.strategyFragment summary).content = some f.content

/-- A note that is in the prompt is of the message. -/
def Noted (s : Remembered) (e : SessionEntry) : Prop :=
  ∃ n, s.note = some n ∧ Shows s.prompt n.summary ∧ e ∈ n.messages

/-- The entry of a message is kept, or a summary that goes into the next prompt is of it. -/
inductive Recalls (s : Remembered) (e : SessionEntry) : Prop where
  | kept (h : e ∈ s.entries)
  | noted (h : s.Noted e)
  | carried {x : Item} {summary : String} (hlast : lastCompaction s.items = some x)
      (hsummary : x.1.summary? = some summary)
      (hshown : ∀ now, summaryMessage now summary ∈ buildContext now s.entries) (h : e ∈ x.2)

/-- Nothing is lost of what there has been. -/
def Lossless (s : Remembered) : Prop := ∀ e ∈ s.seen, s.Recalls e

/-- Where a result is kept, so is its call. -/
def KeepsCalls (s s' : Remembered) : Prop :=
  ∀ e ∈ s.entries, ∀ r ∈ s'.entries, e.calls r = true → ∃ e' ∈ s'.entries, e'.calls r = true

/-! ## Steps -/

/-- What becomes of a session: messages, compactions by the compactor and by a hook, which
says itself what its summary is of, and attempts at a goal. -/
inductive Event where
  | push (id : Uuid) (m : AgentMessage)
  | compact (id : Uuid) (summary : String) (timestamp : SystemTime)
  | replace (id : Uuid) (result : CompactionResult) (timestamp : SystemTime)
      (messages : List SessionEntry)
  | attempt (keepLastN : Nat) (answer : Except CompactionError String)

/-- How far into a history a compaction cuts. -/
def dropped (entries : List SessionEntry) (entry : SessionEntry) (firstKept : Uuid) : Nat :=
  SessionHistory.boundaryIndex (entries ++ [entry]) firstKept

/-- A compaction is applied. -/
def apply (s : Remembered) (entry : SessionEntry) (firstKept : Uuid)
    (messages : List SessionEntry) : Remembered :=
  { s with items := (s.items ++ [(entry, messages)]).drop (dropped s.entries entry firstKept) }

def compactionOf (id : Uuid) (byHook : Bool) (timestamp : SystemTime) (r : CompactionResult) :
    SessionEntry :=
  .compaction id r.summary r.firstKeptEntryId r.tokensBefore r.details byHook timestamp

/-- What the compactor returns for a summary. -/
def resultOf (p : CompactionPreparation) (summary : String) : CompactionResult :=
  { summary := summary
    firstKeptEntryId := p.firstKeptEntryId
    tokensBefore := p.tokensBefore
    details := some { readFiles := p.fileOps.read, modifiedFiles := p.fileOps.written } }

/-- The summary the compactor makes of the answer of the provider. -/
def summaryOf (c : Compactor) (entries : List SessionEntry)
    (answer : Except CompactionError String) : Option String :=
  match prepare c entries with
  | .error _ => none
  | .ok _ => answer.toOption

/-- An attempt that cuts. -/
def cut (s : Remembered) (c : Compactor) (keepLastN : Nat)
    (answer : Except CompactionError String) : Remembered :=
  let summary := summaryOf c s.entries answer
  let fragment := Hook.PromptBuilder.strategyFragment (summary.getD "(compaction failed)")
  { s with
    items := s.items.drop (s.entries.length - keepLastN)
    prompt := (s.prompt.upsertFragment fragment).getD s.prompt
    note := summary.map fun summary => ⟨summary, summarized c s.entries ++ carriedOver s.items⟩ }

def step (c : Compactor) (s : Remembered) : Event → Remembered
  | .push id m =>
      { s with
        items := s.items ++ [(.message id m, [])]
        seen := s.seen ++ [.message id m] }
  | .compact id summary timestamp =>
      match prepare c s.entries with
      | .error _ => s
      | .ok p =>
          s.apply (compactionOf id false timestamp (resultOf p summary)) p.firstKeptEntryId
            (summarized c s.entries ++ carriedOver s.items)
  | .replace id result timestamp messages =>
      s.apply (compactionOf id true timestamp result) result.firstKeptEntryId messages
  | .attempt keepLastN answer =>
      if keepLastN < s.entries.length then s.cut c keepLastN answer else s

/-! ## When nothing is lost -/

/-- The summary is made, and the prompt has room for its note. -/
def Succeeds (c : Compactor) (answer : Except CompactionError String) (s : Remembered) : Prop :=
  ∃ summary, summaryOf c s.entries answer = some summary ∧
    (s.prompt.upsertFragment (Hook.PromptBuilder.strategyFragment summary)).isSome = true

/-- What an attempt finds that cuts where the compactor cuts, once. -/
structure AttemptOk (c : Compactor) (keepLastN : Nat) (s : Remembered) : Prop where
  /-- No message stands behind what is summarised and before what is kept. -/
  gap : ∀ e ∈ (s.entries.take (s.entries.length - keepLastN)).drop (summaryCut c s.entries),
    isMessage e = true → e ∈ carriedOver s.items
  /-- And none before what is summarised, but those the last compaction is of. -/
  front : ∀ e ∈ (s.entries.take (s.entries.length - keepLastN)).take (previousBoundary s.entries).2,
    isMessage e = true → e ∈ carriedOver s.items
  /-- The note that is replaced is of nothing that only it is of. -/
  note : ∀ e, s.Noted e → isMessage e = true →
    e ∈ s.entries.drop (min (s.entries.length - keepLastN) (previousBoundary s.entries).2) ∨
      e ∈ carriedOver s.items
  /-- No call stands before what is kept whose result is kept. -/
  calls : ∀ e ∈ s.entries.take (s.entries.length - keepLastN),
    ∀ r ∈ s.entries.drop (s.entries.length - keepLastN), e.calls r = true →
      ∃ e' ∈ s.entries.drop (s.entries.length - keepLastN), e'.calls r = true

/-- A step finds a state in which it loses nothing. A compaction of the compactor is not of
what stands before its boundary, and one of a hook is of what the hook says. -/
def StepOk (c : Compactor) (s : Remembered) : Event → Prop
  | .push .. => True
  | .compact .. => ∀ e ∈ s.entries.take (previousBoundary s.entries).2, isMessage e = true →
      e ∈ carriedOver s.items ∨ s.Noted e
  | .replace id result timestamp messages => ∀ e,
      (e ∈ s.entries.take (dropped s.entries (compactionOf id true timestamp result)
        result.firstKeptEntryId) ∨ e ∈ carriedOver s.items) → e ∈ messages ∨ s.Noted e
  | .attempt keepLastN answer => keepLastN < s.entries.length →
      s.Succeeds c answer ∧ s.AttemptOk c keepLastN

end Remembered

/-! ## The last compaction -/

theorem lastCompaction_append (xs ys : List Item) :
    lastCompaction (xs ++ ys) = (lastCompaction ys).or (lastCompaction xs) := by
  rw [lastCompaction, List.reverse_append, List.find?_append]
  rfl

theorem lastCompaction_concat_message (xs : List Item) (id : Uuid) (m : AgentMessage)
    (ms : List SessionEntry) :
    lastCompaction (xs ++ [(.message id m, ms)]) = lastCompaction xs := by
  rw [lastCompaction_append]
  rfl

theorem lastCompaction_concat {e : SessionEntry} (h : e.isCompaction = true) (xs : List Item)
    (ms : List SessionEntry) : lastCompaction (xs ++ [(e, ms)]) = some (e, ms) := by
  have hlast : lastCompaction [(e, ms)] = some (e, ms) := List.find?_cons_of_pos h
  rw [lastCompaction_append, hlast]
  rfl

/-- Behind a cut stands the same last compaction, or none. -/
theorem carried_drop {items : List Item} {k : Nat} {e : SessionEntry}
    (h : e ∈ carriedOver (items.drop k)) : e ∈ carriedOver items := by
  have hsplit := lastCompaction_append (items.take k) (items.drop k)
  rw [List.take_append_drop] at hsplit
  rw [carriedOver] at h ⊢
  cases hlast : lastCompaction (items.drop k) with
  | none =>
      rw [hlast] at h
      cases h
  | some x =>
      rw [hlast] at hsplit h
      rw [hsplit]
      exact h

/-- Its summary is at the head of the context. -/
theorem lastCompaction_shown {items : List Item} {x : Item} (h : lastCompaction items = some x) :
    ∃ summary, x.1.summary? = some summary ∧
      ∀ now, summaryMessage now summary ∈ buildContext now (items.map Prod.fst) := by
  obtain ⟨hx, after, before, hitems, hafter⟩ := List.find?_eq_some_iff_append.mp h
  have hentries : items.map Prod.fst =
      before.reverse.map Prod.fst ++ x.1 :: after.reverse.map Prod.fst := by
    rw [← List.reverse_reverse items, hitems]
    simp
  obtain ⟨entry, messages⟩ := x
  cases entry with
  | message => cases hx
  | compaction id summary fk tokens details ext ts =>
      refine ⟨summary, rfl, fun now => ?_⟩
      rw [hentries, buildContext_compaction]
      · exact List.mem_cons_self
      · intro e he
        obtain ⟨y, hy, rfl⟩ := List.mem_map.mp he
        simpa using hafter y (List.mem_reverse.mp hy)

/-! ## The note in the prompt -/

theorem mem_placed (b : Hook.PromptBuilder) (f : Hook.PromptFragment) :
    f ∈ Hook.placed b f := by
  rcases Hook.placed_cases b f with ⟨before, g, after, -, -, hplaced⟩ | ⟨-, hplaced⟩
  · rw [hplaced]
    simp
  · rw [hplaced]
    simp

namespace Remembered

/-- An attempt that does not panic puts its summary into the prompt. -/
theorem shows_upsertFragment {b b' : Hook.PromptBuilder} {summary : String}
    (h : b.upsertFragment (Hook.PromptBuilder.strategyFragment summary) = some b') :
    Shows b' summary := by
  rw [Hook.upsertFragment_eq] at h
  obtain ⟨content, hcontent, rfl⟩ := Option.map_eq_some_iff.mp h
  refine ⟨{ Hook.PromptBuilder.strategyFragment summary with content := content }, ?_, rfl,
    hcontent⟩
  rw [Hook.put_eq]
  exact (List.mem_insertionSort _).mpr (mem_placed b _)

/-! ## What is recalled -/

variable {c : Compactor} {s : Remembered} {e : SessionEntry}

theorem recalls_of_carried (h : e ∈ carriedOver s.items) : s.Recalls e := by
  rw [carriedOver] at h
  cases hlast : lastCompaction s.items with
  | none =>
      rw [hlast] at h
      cases h
  | some x =>
      rw [hlast] at h
      obtain ⟨summary, hsummary, hshown⟩ := lastCompaction_shown hlast
      exact .carried hlast hsummary hshown h

/-- Three ways to be recalled. -/
theorem recalls_iff : s.Recalls e ↔ e ∈ s.entries ∨ s.Noted e ∨ e ∈ carriedOver s.items := by
  constructor
  · intro h
    cases h with
    | kept h => exact .inl h
    | noted h => exact .inr (.inl h)
    | carried hlast _ _ h =>
        refine .inr (.inr ?_)
        rw [carriedOver, hlast]
        exact h
  · rintro (h | h | h)
    · exact .kept h
    · exact .noted h
    · exact recalls_of_carried h

/-! ## Attempts -/

theorem mem_summarized {entries : List SessionEntry} :
    e ∈ summarized c entries ↔
      e ∈ (entries.take (summaryCut c entries)).drop (previousBoundary entries).2 ∧
        isMessage e = true :=
  List.mem_filter

theorem mem_stretch {α : Type} {xs : List α} {x : α} {i j n : Nat} (hget : xs[n]? = some x)
    (hi : i ≤ n) (hj : n < j) : x ∈ (xs.take j).drop i := by
  have hget' : ((xs.take j).drop i)[n - i]? = some x := by
    rw [List.getElem?_drop, Nat.add_sub_cancel' hi, List.getElem?_take_of_lt hj]
    exact hget
  exact List.mem_of_getElem? hget'

/-- An entry is kept, stands before what is summarised, is summarised, or stands behind that
and is not kept. -/
theorem mem_stretches {α : Type} {xs : List α} {x : α} (h : x ∈ xs) (i j k : Nat) :
    x ∈ xs.drop k ∨ x ∈ (xs.take k).take i ∨ x ∈ (xs.take j).drop i ∨ x ∈ (xs.take k).drop j := by
  obtain ⟨n, hget⟩ := List.getElem?_of_mem h
  have hlt : n < xs.length := (List.getElem?_eq_some_iff.mp hget).1
  by_cases hk : n < k
  · by_cases hi : n < i
    · refine .inr (.inl ?_)
      rw [List.take_take]
      exact mem_stretch hget (Nat.zero_le n) (by omega)
    · by_cases hj : n < j
      · exact .inr (.inr (.inl (mem_stretch hget (by omega) hj)))
      · exact .inr (.inr (.inr (mem_stretch hget (by omega) hk)))
  · have hkept := mem_stretch hget (Nat.le_of_not_lt hk) hlt
    rw [List.take_length] at hkept
    exact .inl hkept

variable {keepLastN : Nat} {answer : Except CompactionError String}

theorem entries_cut :
    (s.cut c keepLastN answer).entries = s.entries.drop (s.entries.length - keepLastN) :=
  List.map_drop

/-- The note of an attempt is of what is summarised and of what the last compaction is of. -/
theorem noted_cut_iff (h : s.Succeeds c answer) :
    (s.cut c keepLastN answer).Noted e ↔
      e ∈ summarized c s.entries ∨ e ∈ carriedOver s.items := by
  obtain ⟨summary, hsummary, hsome⟩ := h
  obtain ⟨b, hb⟩ := Option.isSome_iff_exists.mp hsome
  have hshown := shows_upsertFragment hb
  rw [← List.mem_append]
  simp only [Noted, cut, hsummary, Option.getD_some, hb, Option.map_some, Option.some.injEq]
  constructor
  · rintro ⟨n, rfl, -, he⟩
    exact he
  · intro he
    exact ⟨_, rfl, hshown, he⟩

theorem recalls_cut_iff (h : s.Succeeds c answer) :
    (s.cut c keepLastN answer).Recalls e ↔
      e ∈ s.entries.drop (s.entries.length - keepLastN) ∨ e ∈ summarized c s.entries ∨
        e ∈ carriedOver s.items := by
  rw [recalls_iff, noted_cut_iff h, entries_cut]
  constructor
  · rintro (hkept | hnoted | hcarried)
    · exact .inl hkept
    · exact .inr hnoted
    · exact .inr (.inr (carried_drop hcarried))
  · rintro (hkept | hnoted)
    · exact .inl hkept
    · exact .inr (.inl hnoted)

/-- Of a message whose entry there is something is left. -/
theorem recalls_cut_of_mem (h : s.Succeeds c answer) (hok : s.AttemptOk c keepLastN)
    (hmessage : isMessage e = true) (he : e ∈ s.entries) :
    (s.cut c keepLastN answer).Recalls e := by
  rw [recalls_cut_iff h]
  rcases mem_stretches he (previousBoundary s.entries).2 (summaryCut c s.entries)
    (s.entries.length - keepLastN) with hkept | hfront | hsummarized | hgap
  · exact .inl hkept
  · exact .inr (.inr (hok.front e hfront hmessage))
  · exact .inr (.inl (mem_summarized.mpr ⟨hsummarized, hmessage⟩))
  · exact .inr (.inr (hok.gap e hgap hmessage))

theorem recalls_cut (h : s.Succeeds c answer) (hok : s.AttemptOk c keepLastN)
    (hmessage : isMessage e = true) (he : s.Recalls e) :
    (s.cut c keepLastN answer).Recalls e := by
  rcases recalls_iff.mp he with hkept | hnoted | hcarried
  · exact recalls_cut_of_mem h hok hmessage hkept
  · rcases hok.note e hnoted hmessage with hentry | hcarried
    · exact recalls_cut_of_mem h hok hmessage (List.mem_of_mem_drop hentry)
    · exact (recalls_cut_iff h).mpr (.inr (.inr hcarried))
  · exact (recalls_cut_iff h).mpr (.inr (.inr hcarried))

theorem keepsCalls_cut_iff :
    s.KeepsCalls (s.cut c keepLastN answer) ↔
      ∀ e ∈ s.entries.take (s.entries.length - keepLastN),
        ∀ r ∈ s.entries.drop (s.entries.length - keepLastN), e.calls r = true →
          ∃ e' ∈ s.entries.drop (s.entries.length - keepLastN), e'.calls r = true := by
  rw [KeepsCalls, entries_cut]
  constructor
  · intro h e he
    exact h e (List.mem_of_mem_take he)
  · intro h e he r hr hcalls
    rw [← List.take_append_drop (s.entries.length - keepLastN) s.entries] at he
    rcases List.mem_append.mp he with hbefore | hkept
    · exact h e hbefore r hr hcalls
    · exact ⟨e, hkept, hcalls⟩

/-- The condition of an attempt leaves out nothing but what the attempt loses, where no entry
stands in a history twice and nothing has been lost of it before. -/
theorem attemptOk_iff (h : s.Succeeds c answer) (hnodup : s.entries.Nodup)
    (hseen : ∀ e, e ∈ s.seen ↔ isMessage e = true ∧ s.Recalls e) :
    s.AttemptOk c keepLastN ↔
      (s.cut c keepLastN answer).Lossless ∧ s.KeepsCalls (s.cut c keepLastN answer) := by
  constructor
  · intro hok
    refine ⟨fun e he => ?_, keepsCalls_cut_iff.mpr hok.calls⟩
    obtain ⟨hmessage, he⟩ := (hseen e).mp he
    exact recalls_cut h hok hmessage he
  · rintro ⟨hlossless, hcalls⟩
    have hrecalls {e : SessionEntry} (he : s.Recalls e) (hmessage : isMessage e = true) :=
      (recalls_cut_iff h).mp (hlossless e ((hseen e).mpr ⟨hmessage, he⟩))
    -- What stands before the entries that are kept is not among them.
    have hdisjoint (k : Nat) {e : SessionEntry} (hbefore : e ∈ s.entries.take k)
        (hbehind : e ∈ s.entries.drop k) : False :=
      List.disjoint_take_drop hnodup (Nat.le_refl k) hbefore hbehind
    refine ⟨fun e he hmessage => ?_, fun e he hmessage => ?_,
      fun e he hmessage => ?_, keepsCalls_cut_iff.mp hcalls⟩
    · have hbefore := List.mem_of_mem_drop he
      rcases hrecalls (.kept (List.mem_of_mem_take hbefore)) hmessage with hkept | hnoted | hcarried
      · exact (hdisjoint _ hbefore hkept).elim
      · have hsummarized := List.mem_of_mem_drop (mem_summarized.mp hnoted).1
        rw [List.drop_take] at he
        exact (hdisjoint _ hsummarized (List.mem_of_mem_take he)).elim
      · exact hcarried
    · have hbefore := List.mem_of_mem_take he
      rcases hrecalls (.kept (List.mem_of_mem_take hbefore)) hmessage with hkept | hnoted | hcarried
      · exact (hdisjoint _ hbefore hkept).elim
      · have hsummarized := (mem_summarized.mp hnoted).1
        rw [List.take_take, Nat.min_comm, ← List.take_take] at he
        rw [List.drop_take] at hsummarized
        exact (hdisjoint _ (List.mem_of_mem_take he) (List.mem_of_mem_take hsummarized)).elim
      · exact hcarried
    · rcases hrecalls (.noted he) hmessage with hkept | hsummarized | hcarried
      · exact .inl (List.drop_subset_drop_left _ (Nat.min_le_left _ _) hkept)
      · have hbehind := (mem_summarized.mp hsummarized).1
        rw [List.drop_take] at hbehind
        exact .inl (List.drop_subset_drop_left _ (Nat.min_le_right _ _)
          (List.mem_of_mem_take hbehind))
      · exact .inr hcarried

/-! ## Compactions -/

theorem dropped_le (entries : List SessionEntry) (entry : SessionEntry) (firstKept : Uuid) :
    dropped entries entry firstKept ≤ entries.length :=
  boundaryIndex_append_le entries entry firstKept

theorem entries_apply (entry : SessionEntry) (firstKept : Uuid) (messages : List SessionEntry) :
    (s.apply entry firstKept messages).entries =
      s.entries.drop (dropped s.entries entry firstKept) ++ [entry] := by
  rw [← List.drop_append_of_le_length (dropped_le s.entries entry firstKept)]
  show ((s.items ++ [(entry, messages)]).drop _).map Prod.fst = _
  rw [List.map_drop, List.map_append]
  rfl

theorem carried_apply {entry : SessionEntry} (hentry : entry.isCompaction = true)
    (firstKept : Uuid) (messages : List SessionEntry) :
    carriedOver (s.apply entry firstKept messages).items = messages := by
  have hle : dropped s.entries entry firstKept ≤ s.items.length := by
    have hlen := dropped_le s.entries entry firstKept
    rwa [entries, List.length_map] at hlen
  have hlast := lastCompaction_concat hentry
    (s.items.drop (dropped s.entries entry firstKept)) messages
  rw [← List.drop_append_of_le_length hle] at hlast
  show carriedOver ((s.items ++ [(entry, messages)]).drop _) = messages
  rw [carriedOver, hlast]
  rfl

/-- A compaction leaves what it keeps, what its summary is of and what the note is of. -/
theorem recalls_apply {entry : SessionEntry} (hentry : entry.isCompaction = true)
    {firstKept : Uuid} {messages : List SessionEntry}
    (h : e ∈ s.entries.drop (dropped s.entries entry firstKept) ∨ e ∈ messages ∨ s.Noted e) :
    (s.apply entry firstKept messages).Recalls e := by
  rw [recalls_iff, entries_apply, carried_apply hentry, List.mem_append]
  rcases h with hkept | hmessage | hnoted
  · exact .inl (.inl hkept)
  · exact .inr (.inr hmessage)
  · exact .inr (.inl hnoted)

/-- The compactor drops no more than what stands before its cut. -/
theorem dropped_le_summaryCut {p : CompactionPreparation} (h : prepare c s.entries = .ok p)
    (entry : SessionEntry) :
    dropped s.entries entry p.firstKeptEntryId ≤ summaryCut c s.entries := by
  obtain ⟨e, hget, hid⟩ : ∃ e, s.entries[summaryCut c s.entries]? = some e ∧
      p.firstKeptEntryId = e.id := (prepare_ok h).2
  obtain ⟨hlt, rfl⟩ := List.getElem?_eq_some_iff.mp hget
  rw [dropped, SessionHistory.boundaryIndex]
  cases hfind : List.findIdx? _ (s.entries ++ [entry]) with
  | none => exact Nat.zero_le _
  | some i =>
      obtain ⟨hi, -, hfirst⟩ := List.findIdx?_eq_some_iff_getElem.mp hfind
      show i ≤ summaryCut c s.entries
      by_contra hgt
      have hno := hfirst (summaryCut c s.entries) (by omega)
      rw [List.getElem_append_left hlt] at hno
      simp [hid] at hno

theorem recalls_compact {p : CompactionPreparation} (h : prepare c s.entries = .ok p)
    {entry : SessionEntry} (hentry : entry.isCompaction = true)
    (hok : ∀ e ∈ s.entries.take (previousBoundary s.entries).2, isMessage e = true →
      e ∈ carriedOver s.items ∨ s.Noted e)
    (hmessage : isMessage e = true) (he : s.Recalls e) :
    (s.apply entry p.firstKeptEntryId
      (summarized c s.entries ++ carriedOver s.items)).Recalls e := by
  have hle := dropped_le_summaryCut h entry
  refine recalls_apply hentry ?_
  rw [List.mem_append]
  rcases recalls_iff.mp he with hkept | hnoted | hcarried
  · rcases mem_stretches hkept (previousBoundary s.entries).2 (summaryCut c s.entries)
      (dropped s.entries entry p.firstKeptEntryId) with hkept | hfront | hsummarized | hgap
    · exact .inl hkept
    · rw [List.take_take, Nat.min_comm, ← List.take_take] at hfront
      rcases hok e (List.mem_of_mem_take hfront) hmessage with hcarried | hnoted
      · exact .inr (.inl (.inr hcarried))
      · exact .inr (.inr hnoted)
    · exact .inr (.inl (.inl (mem_summarized.mpr ⟨hsummarized, hmessage⟩)))
    · -- There is nothing from the cut on that is dropped.
      rw [List.drop_eq_nil_of_le ((List.length_take_le _ _).trans hle)] at hgap
      cases hgap
  · exact .inr (.inr hnoted)
  · exact .inr (.inl (.inr hcarried))

/-! ## What a call does -/

variable {cfg : SessionConfig} {env : Env}

/-- The compactor returns what it makes of the answer of the provider. -/
theorem compact_fst (c : Compactor) (env : Env) (entries : List SessionEntry) (w : World) :
    ∃ answer, (Agent.compact c env entries w).1.toOption.map CompactionResult.summary =
        summaryOf c entries answer ∧
      ∀ result, (Agent.compact c env entries w).1 = .ok result →
        ∃ p summary, prepare c entries = .ok p ∧ result = resultOf p summary := by
  rw [Agent.compact]
  cases hp : prepare c entries with
  | error e =>
      refine ⟨.error e, ?_, fun _ h => by cases h⟩
      simp only [summaryOf, hp]
      rfl
  | ok p =>
      refine ⟨(summarize env p w).1, ?_⟩
      simp only [summaryOf, hp]
      split
      · next e w' h =>
          rw [h]
          exact ⟨rfl, fun _ h => by cases h⟩
      · next summary w' h =>
          rw [h]
          refine ⟨rfl, fun result hresult => ⟨p, summary, rfl, ?_⟩⟩
          injection hresult with hresult
          rw [← hresult]
          rfl

/-- What a context strategy does to a session is an attempt. The provider has made a
summary just where the attempt succeeds. -/
theorem step_attempt_eq {a : SessionActor} {persona : String} {skills : List LoadedSkill}
    {b : Hook.PromptBuilder} (hcontext : a.strategy.context = .compact keepLastN)
    (hprompt : s.prompt.applyContextStrategy persona skills cfg env a = some b)
    (hentries : s.entries = a.history.entries) :
    ∃ answer, (s.step cfg.compactor (.attempt keepLastN answer)).entries =
        (a.applyContextStrategy cfg env).history.entries ∧
      (s.step cfg.compactor (.attempt keepLastN answer)).prompt = b ∧
      (keepLastN < a.history.entries.length → (s.Succeeds cfg.compactor answer ↔
        (Agent.compact cfg.compactor env a.history.entries a.world).1.isOk = true)) := by
  obtain ⟨answer, hanswer, -⟩ := compact_fst cfg.compactor env a.history.entries a.world
  rw [Hook.PromptBuilder.applyContextStrategy, hcontext] at hprompt
  simp only [] at hprompt
  refine ⟨answer, ?_⟩
  by_cases hlt : keepLastN < a.history.entries.length
  · rw [if_pos hlt] at hprompt
    rw [step, if_pos (hentries ▸ hlt), SessionActor.applyContextStrategy_compact hcontext hlt,
      entries_cut, hentries]
    simp only [cut, Succeeds, hentries, ← hanswer]
    cases hcompact : (Agent.compact cfg.compactor env a.history.entries a.world).1 with
    | error e =>
        rw [hcompact] at hprompt
        simp only [] at hprompt
        refine ⟨trivial, ?_, fun _ => by simp [Except.toOption, Except.isOk, Except.toBool]⟩
        simp only [Except.toOption, Option.map_none, Option.getD_none, hprompt, Option.getD_some]
    | ok result =>
        rw [hcompact] at hprompt
        simp only [] at hprompt
        refine ⟨trivial, ?_, fun _ => iff_of_true ⟨_, rfl, ?_⟩ rfl⟩
        · simp only [Except.toOption, Option.map_some, Option.getD_some, hprompt]
        · rw [hprompt]
          rfl
  · rw [if_neg hlt] at hprompt
    injection hprompt with hprompt
    rw [step, if_neg (hentries ▸ hlt), SessionActor.applyContextStrategy, hcontext]
    simp only [if_neg hlt]
    exact ⟨hentries, hprompt, fun h => absurd h hlt⟩

/-- From the one history to the other leads a run without attempts, whatever is recalled. -/
def Follows (c : Compactor) (before after : List SessionEntry) : Prop :=
  ∀ s : Remembered, s.entries = before → ∃ es : List Event,
    (es.foldl (step c) s).entries = after ∧ (es.foldl (step c) s).prompt = s.prompt ∧
      ∀ keepLastN answer, Event.attempt keepLastN answer ∉ es

theorem Follows.refl (c : Compactor) (entries : List SessionEntry) : Follows c entries entries :=
  fun _ hs => ⟨[], hs, rfl, fun _ _ => List.not_mem_nil⟩

theorem Follows.trans {before between after : List SessionEntry} (h : Follows c before between)
    (h' : Follows c between after) : Follows c before after := by
  intro s hs
  obtain ⟨es, hes, hprompt, hno⟩ := h s hs
  obtain ⟨es', hes', hprompt', hno'⟩ := h' _ hes
  refine ⟨es ++ es', ?_, ?_, fun keepLastN answer hmem => ?_⟩
  · rw [List.foldl_append, hes']
  · rw [List.foldl_append, hprompt', hprompt]
  · rcases List.mem_append.mp hmem with hmem | hmem
    · exact hno _ _ hmem
    · exact hno' _ _ hmem

/-- One event. -/
theorem Follows.single {before after : List SessionEntry} (event : Event)
    (hevent : ∀ keepLastN answer, event ≠ .attempt keepLastN answer)
    (h : ∀ s : Remembered, s.entries = before →
      (s.step c event).entries = after ∧ (s.step c event).prompt = s.prompt) :
    Follows c before after := by
  intro s hs
  refine ⟨[event], (h s hs).1, (h s hs).2, fun keepLastN answer hmem => ?_⟩
  exact hevent keepLastN answer (List.mem_singleton.mp hmem).symm

theorem entries_push (id : Uuid) (m : AgentMessage) :
    (s.step c (.push id m)).entries = s.entries ++ [.message id m] := by
  show (s.items ++ [(SessionEntry.message id m, [])]).map Prod.fst = _
  rw [List.map_append]
  rfl

theorem follows_push (id : Uuid) (m : AgentMessage) (entries : List SessionEntry) :
    Follows c entries (entries ++ [.message id m]) := by
  refine .single (.push id m) (fun _ _ => by simp) fun s hs => ⟨?_, rfl⟩
  rw [entries_push, hs]

theorem follows_pushMessages (a : SessionActor) (ms : List AgentMessage) :
    Follows c a.history.entries (a.pushMessages env ms).history.entries := by
  induction ms generalizing a with
  | nil => exact .refl c _
  | cons m ms ih =>
      rw [SessionActor.pushMessages_cons]
      exact (follows_push _ m a.history.entries).trans (ih (a.pushMessage env m))

/-- A compaction of the session, by the compactor or by a hook. -/
theorem follows_applyCompaction {a : SessionActor} {byHook : Bool} {result : CompactionResult}
    (h : byHook = true ∨ ∃ p summary, prepare cfg.compactor a.history.entries = .ok p ∧
      result = resultOf p summary) :
    Follows cfg.compactor a.history.entries
      (a.applyCompaction env byHook result).history.entries := by
  have happly (s : Remembered) (hs : s.entries = a.history.entries) (messages : List SessionEntry) :
      (s.apply (a.compactionEntry env byHook result) result.firstKeptEntryId messages).entries =
        (a.applyCompaction env byHook result).history.entries := by
    show ((s.items ++ [(_, messages)]).drop _).map Prod.fst = _
    rw [List.map_drop, List.map_append, ← entries, hs]
    rfl
  cases byHook with
  | true =>
      exact .single (.replace (a.world.newId env).1 result (env.clock a.world.now) [])
        (fun _ _ => by simp) fun s hs => ⟨happly s hs [], rfl⟩
  | false =>
      obtain ⟨p, summary, hp, rfl⟩ := h.resolve_left Bool.false_ne_true
      refine .single (.compact (a.world.newId env).1 summary (env.clock a.world.now))
        (fun _ _ => by simp) fun s hs => ?_
      have hstep := happly s hs (summarized cfg.compactor s.entries ++ carriedOver s.items)
      rw [← hs] at hp
      simp only [step, hp]
      exact ⟨hstep, rfl⟩

/-- What is applied has been made by the compactor or by the hook. -/
theorem chooseCompaction_ok {a : SessionActor} {byHook : Bool} {result : CompactionResult}
    {w : World} (h : a.chooseCompaction cfg env = (.ok (.compaction byHook result), w)) :
    byHook = true ∨ ∃ p summary, prepare cfg.compactor a.history.entries = .ok p ∧
      result = resultOf p summary := by
  rw [SessionActor.chooseCompaction] at h
  split at h
  · cases h
  · split at h
    · cases h
    · cases h
      exact .inl rfl
    · next w' _ =>
        obtain ⟨-, -, hresult⟩ := compact_fst cfg.compactor env a.history.entries w'
        split at h
        · cases h
        · next result' w'' hcompact =>
            rw [hcompact] at hresult
            cases h
            exact .inr (hresult _ rfl)

theorem follows_runAutoCompaction (reason : CompactReason) (willRetry : Bool)
    (a : SessionActor) :
    Follows cfg.compactor a.history.entries
      (a.runAutoCompaction cfg env reason willRetry).2.history.entries := by
  rw [SessionActor.runAutoCompaction]
  split
  · exact .refl _ _
  · exact .refl _ _
  · next byHook result w hchoose =>
      have hmade := chooseCompaction_ok hchoose
      exact @follows_applyCompaction cfg env { a.emit (.compactionStart reason) with world := w }
        byHook result hmade

theorem follows_finishRun (msgs : List AgentMessage) (a : SessionActor) :
    Follows cfg.compactor a.history.entries (a.finishRun cfg env msgs).history.entries := by
  rw [SessionActor.finishRun]
  split
  · next m _ =>
      rcases @SessionActor.checkCompaction_cases cfg env m a.concludeRun with
        ⟨-, hcheck⟩ | ⟨reason, r, -, -, hcheck⟩
      · rw [hcheck]
        exact .refl _ _
      · rw [hcheck]
        exact follows_runAutoCompaction reason false (a.concludeRun.withRecovery r)
  · exact .refl _ _

/-- The history has been restored, or there is no store to restore it from. -/
def Restored (h : SessionHistory) : Prop := ∀ loaded, restored h loaded = none

theorem restore_entries {a : SessionActor} (h : Restored a.history) :
    (Call.restore env a).history.entries = a.history.entries := by
  show (a.history.autoRestore (env.loadSession a.world.now)).entries = a.history.entries
  rw [autoRestore_entries, h]
  rfl

theorem follows_stepPrompt (content : List Content) {call : Call}
    (h : Restored call.actor.history) :
    Follows cfg.compactor call.actor.history.entries
      (Call.stepPrompt cfg env content call).actor.history.entries := by
  have hrestore := @restore_entries env call.actor h
  have hleave (a : SessionActor) (e : AgentError) : (call.leave a (.error e)).actor = a :=
    (Call.leave_spec call a (.error e)).1
  unfold Call.stepPrompt
  simp only []
  split
  · rw [hleave]
    exact .refl _ _
  · split
    · rw [Call.stepSkill]
      split
      · rw [hleave, hrestore]
        exact .refl _ _
      · split
        · rw [hleave]
          exact hrestore ▸ .refl _ _
        · exact hrestore ▸ .refl _ _
    · rw [← hrestore]
      exact follows_push _ _ _

/-- Whatever else a call does is a run without attempts. -/
theorem follows_step {call : Call} (h : Restored call.actor.history)
    (hno : ∀ g, call.phase = .attempt g → ¬ g.attempt < g.goal.maxAttempts) :
    Follows cfg.compactor call.actor.history.entries
      (call.step cfg env).actor.history.entries := by
  have hprompt {content : List Content} (hp : call.phase = .prompt content) :
      Follows cfg.compactor call.actor.history.entries
        (call.step cfg env).actor.history.entries := by
    simp only [Call.step, Call.stepWith, hp]
    exact follows_stepPrompt content h
  have hleave (a : SessionActor) (result : Except AgentError (List AgentMessage)) :
      (call.leave a result).actor = a := (Call.leave_spec call a result).1
  cases Call.step_cases cfg env call with
  | strategy hp hlt _ => exact absurd hlt (hno _ hp)
  | lastPrompt _ h' | notMet _ h' | started _ h' | looped _ _ h' | broken _ _ h'
  | backoffOver _ h' | belowThreshold _ _ h' | deltasLooped _ _ h' | ended _ h' =>
      rw [h']
      exact .refl _ _
  | rejected hp _ _ | unprepared hp _ _ _ | prepared hp _ _ _ => exact hprompt hp
  | @settled l result _ _ h' =>
      obtain ⟨next, machine, pushed, a, -, -, hhistory, -, hs⟩ :=
        @Call.stepSettle_spec env result l.locals.world call
      have hpush : Follows cfg.compactor call.actor.history.entries a.history.entries := by
        rw [hhistory]
        exact @follows_pushMessages cfg.compactor env
          { call.actor with world := l.locals.world } pushed
      rw [h', hs]
      cases next with
      | backoff | compactAndRetry | absorbed => exact hpush
      | fail e =>
          simp only [hleave]
          exact hpush
  | backoffAborted _ h' =>
      rw [h', hleave]
      exact .refl _ _
  | compactionFailed _ _ h' | thresholdFailed _ _ h' =>
      rw [h', hleave]
      exact follows_runAutoCompaction _ _ _
  | compacted _ h' | thresholdCompacted _ _ h' =>
      rw [h']
      exact follows_runAutoCompaction _ _ _
  | savePanicked _ h' =>
      rw [h']
      exact follows_finishRun _ _
  | finished _ ha h' =>
      rw [h', hleave, (SessionActor.persist_spec ha).2.1]
      exact follows_finishRun _ _
  | @deltasEnded l result _ _ h' =>
      obtain ⟨a, pushed, hs, -, hhistory, -⟩ := @Call.stepDeltas_spec env result l.locals.world call
      rw [h', hs, hhistory]
      exact @follows_pushMessages cfg.compactor env
        { call.actor with world := l.locals.world } pushed

/-- The prompt of a session after a step of a call: only an attempt touches it. `none` is a
panic. -/
def promptAfter (persona : String) (skills : List LoadedSkill) (cfg : SessionConfig) (env : Env)
    (call : Call) (b : Hook.PromptBuilder) : Option Hook.PromptBuilder :=
  match call.phase with
  | .attempt g =>
      if g.attempt < g.goal.maxAttempts then
        b.applyContextStrategy persona skills cfg env call.actor
      else some b
  | _ => some b

/-- A call in progress, and the prompt of its session. -/
inductive Steps (persona : String) (skills : List LoadedSkill) (cfg : SessionConfig) (env : Env)
    (call : Call) (b : Hook.PromptBuilder) : Call → Hook.PromptBuilder → Prop where
  | refl : Steps persona skills cfg env call b call b
  | step {call' : Call} {b' b'' : Hook.PromptBuilder}
      (h : Steps persona skills cfg env call b call' b') (hrestored : Restored call'.actor.history)
      (hprompt : promptAfter persona skills cfg env call' b' = some b'') :
      Steps persona skills cfg env call b (call'.step cfg env) b''

variable {persona : String} {skills : List LoadedSkill} {call call' : Call}
  {b b' : Hook.PromptBuilder}

/-- A step of a call is an attempt, or a run without one. -/
theorem events_of_step (hcontext : call.actor.strategy.context = .compact keepLastN)
    (hrestored : Restored call.actor.history)
    (hprompt : promptAfter persona skills cfg env call s.prompt = some b)
    (hentries : s.entries = call.actor.history.entries) :
    ∃ es : List Event,
      (es.foldl (step cfg.compactor) s).entries = (call.step cfg env).actor.history.entries ∧
        (es.foldl (step cfg.compactor) s).prompt = b := by
  by_cases hattempt : ∃ g, call.phase = .attempt g ∧ g.attempt < g.goal.maxAttempts
  · obtain ⟨g, hphase, hlt⟩ := hattempt
    rw [promptAfter, hphase] at hprompt
    simp only [if_pos hlt] at hprompt
    obtain ⟨answer, hhistory, hb, -⟩ := step_attempt_eq hcontext hprompt hentries
    refine ⟨[.attempt keepLastN answer], hhistory.trans ?_, hb⟩
    simp only [Call.step, Call.stepWith, hphase, Call.stepAttempt, if_pos hlt]
  · have hno (g : GoalRun) (hphase : call.phase = .attempt g) :
        ¬ g.attempt < g.goal.maxAttempts := fun hlt => hattempt ⟨g, hphase, hlt⟩
    obtain ⟨es, hes, hsame, -⟩ := @follows_step cfg env call hrestored hno s hentries
    refine ⟨es, hes, hsame.trans ?_⟩
    rw [promptAfter] at hprompt
    split at hprompt
    · next g hphase =>
        rw [if_neg (hno g hphase)] at hprompt
        injection hprompt
    · injection hprompt

/-- So every state of a call is the state of a run. -/
theorem events_of_steps (h : Steps persona skills cfg env call b call' b')
    (hcontext : call.actor.strategy.context = .compact keepLastN)
    (hentries : s.entries = call.actor.history.entries) (hb : s.prompt = b) :
    ∃ es : List Event,
      (es.foldl (step cfg.compactor) s).entries = call'.actor.history.entries ∧
        (es.foldl (step cfg.compactor) s).prompt = b' ∧
        call'.actor.strategy.context = .compact keepLastN := by
  induction h with
  | refl => exact ⟨[], hentries, hb, hcontext⟩
  | step _ hrestored hprompt ih =>
      obtain ⟨es, hes, hsame, hcontext'⟩ := ih
      rw [← hsame] at hprompt
      obtain ⟨es', hes', hb'⟩ := events_of_step hcontext' hrestored hprompt hes
      refine ⟨es ++ es', ?_, ?_, ?_⟩
      · rw [List.foldl_append, hes']
      · rw [List.foldl_append, hb']
      · rw [Call.step_strategy]
        exact hcontext'

/-! ## Runs -/

/-- What a run keeps: only messages have been seen, and none of them is lost. -/
structure Sound (s : Remembered) : Prop where
  messages : ∀ e ∈ s.seen, isMessage e = true
  lossless : s.Lossless

theorem sound_start (items : List Item) (b : Hook.PromptBuilder) : (start items b).Sound where
  messages e he := (List.mem_filter.mp he).2
  lossless e he := by
    rcases List.mem_append.mp (List.mem_filter.mp he).1 with hentry | hcarried
    · exact .kept hentry
    · exact recalls_of_carried hcarried

theorem recalls_push (id : Uuid) (m : AgentMessage) (he : s.Recalls e) :
    (s.step c (.push id m)).Recalls e := by
  rw [recalls_iff] at he ⊢
  rcases he with hkept | hnoted | hcarried
  · rw [entries_push]
    exact .inl (List.mem_append_left _ hkept)
  · exact .inr (.inl hnoted)
  · refine .inr (.inr ?_)
    show e ∈ carriedOver (s.items ++ [(SessionEntry.message id m, [])])
    rw [carriedOver, lastCompaction_concat_message]
    exact hcarried

theorem sound_step {event : Event} (hok : s.StepOk c event) (h : s.Sound) :
    (s.step c event).Sound := by
  cases event with
  | push id m =>
      refine ⟨fun e he => ?_, fun e he => ?_⟩
      · rcases List.mem_append.mp he with he | he
        · exact h.messages e he
        · rw [List.mem_singleton.mp he]
          rfl
      · rcases List.mem_append.mp he with he | he
        · exact recalls_push id m (h.lossless e he)
        · refine .kept ?_
          rw [entries_push]
          exact List.mem_append_right _ he
  | compact id summary timestamp =>
      rw [step]
      cases hp : prepare c s.entries with
      | error => exact h
      | ok p => exact ⟨h.messages, fun e he =>
          recalls_compact hp rfl hok (h.messages e he) (h.lossless e he)⟩
  | replace id result timestamp messages =>
      refine ⟨h.messages, fun e he => recalls_apply rfl ?_⟩
      rcases recalls_iff.mp (h.lossless e he) with hkept | hnoted | hcarried
      · rw [← List.take_append_drop (dropped s.entries (compactionOf id true timestamp result)
          result.firstKeptEntryId) s.entries] at hkept
        rcases List.mem_append.mp hkept with hdropped | hkept
        · exact .inr (hok e (.inl hdropped))
        · exact .inl hkept
      · exact .inr (.inr hnoted)
      · exact .inr (hok e (.inr hcarried))
  | attempt keepLastN answer =>
      rw [step]
      split
      · next hlt =>
          obtain ⟨hsucceeds, hattempt⟩ := hok hlt
          exact ⟨h.messages, fun e he =>
            recalls_cut hsucceeds hattempt (h.messages e he) (h.lossless e he)⟩
      · exact h

/-- A result that is kept by an attempt keeps its call. -/
theorem keepsCalls_attempt (hok : s.StepOk c (.attempt keepLastN answer)) :
    s.KeepsCalls (s.step c (.attempt keepLastN answer)) := by
  rw [step]
  split
  · next hlt => exact keepsCalls_cut_iff.mpr (hok hlt).2.calls
  · exact fun e he _ _ hcalls => ⟨e, he, hcalls⟩

/-- Whatever the history and however many attempts there are: in a run whose steps all meet
their conditions nothing is lost, and no attempt cuts a call off from its result. -/
theorem loses_nothing_of_along {items : List Item} {b : Hook.PromptBuilder} {es : List Event}
    (hok : Along (step c) (StepOk c) (start items b) es) (n : Nat) :
    ((es.take n).foldl (step c) (start items b)).Lossless ∧
      ∀ keepLastN answer, es[n]? = some (.attempt keepLastN answer) →
        ((es.take n).foldl (step c) (start items b)).KeepsCalls
          ((es.take (n + 1)).foldl (step c) (start items b)) := by
  have hbefore := hok
  rw [← List.take_append_drop n es, Along.append] at hbefore
  obtain ⟨hbefore, hbehind⟩ := hbefore
  refine ⟨(hbefore.invariant (fun s e => sound_step) (sound_start items b)).lossless, ?_⟩
  intro keepLastN answer hget
  obtain ⟨hlt, hevent⟩ := List.getElem?_eq_some_iff.mp hget
  rw [List.drop_eq_getElem_cons hlt, hevent] at hbehind
  rw [List.take_add_one, hget, List.foldl_append]
  exact keepsCalls_attempt hbehind.1

/-! ## A session that keeps its last entry -/

/-- Two questions, both answered. -/
def answeredTwice : Remembered :=
  start
    [(.message 0 (userText "question"), []),
      (.message 1 (.assistant (plainReply [.text "answer" none] .stop none)), []),
      (.message 2 (userText "more"), []),
      (.message 3 (.assistant (plainReply [.text "done" none] .stop none)), [])]
    (.fromBase "help")

/-- A question, a call and its result. -/
def calledOnce : Remembered :=
  start
    [(.message 0 (userText "question"), []),
      (.message 1 (.assistant
        (plainReply [.toolCall ⟨"a", "tool", .null, none⟩] .toolUse none)), []),
      (.message 2 (.toolResult ⟨"a", "tool", [.text "found" none], none, false, 0⟩), [])]
    (.fromBase "help")

/-- What is left of a session at an attempt that keeps the last entry, by a compactor that
keeps so many tokens. -/
def keepLast (keepRecentTokens : Nat) (s : Remembered) : Remembered :=
  s.step (plainConfig keepRecentTokens).compactor (.attempt 1 (.ok "summary"))

/-- And two messages more. -/
def answeredAgain : Remembered :=
  [.push 4 (userText "again"),
    .push 5 (.assistant (plainReply [.text "better" none] .stop none))].foldl
      (step (plainConfig 1).compactor) (answeredTwice.keepLast 1)

/-- The first attempt of a session whose compactor keeps one message cuts where it cuts. -/
theorem stepOk_answeredTwice :
    answeredTwice.StepOk (plainConfig 1).compactor (.attempt 1 (.ok "summary")) := by
  intro _
  refine ⟨⟨"summary", rfl, by decide⟩, by decide, by decide, ?_, by decide⟩
  rintro e ⟨n, hn, -⟩
  cases hn

theorem not_lossless (hseen : e ∈ s.seen) (hkept : e ∉ s.entries)
    (hnote : ∀ n, s.note = some n → e ∉ n.messages) (hcarried : e ∉ carriedOver s.items) :
    ¬ s.Lossless := by
  intro h
  rcases recalls_iff.mp (h e hseen) with hentry | ⟨n, hn, -, hnoted⟩ | hover
  · exact hkept hentry
  · exact hnote n hn hnoted
  · exact hcarried hover

/-- The compactor keeps more than there is: the note is of nothing, and three messages are
gone. The note of a second attempt takes the place of the first, and what that was of is
gone. A result is kept and its call is not. -/
theorem loses_messages_and_calls :
    (answeredTwice.Succeeds (plainConfig 20000).compactor (.ok "summary") ∧
      summarized (plainConfig 20000).compactor answeredTwice.entries = [] ∧
      ¬ (answeredTwice.keepLast 20000).Lossless) ∧
    ((answeredTwice.keepLast 1).Lossless ∧
      answeredAgain.Succeeds (plainConfig 1).compactor (.ok "summary") ∧
      ¬ (answeredAgain.keepLast 1).Lossless) ∧
    (calledOnce.Succeeds (plainConfig 1).compactor (.ok "summary") ∧
      ¬ calledOnce.KeepsCalls (calledOnce.keepLast 1)) := by
  have hnoted (ms : List SessionEntry) (n : Note) (hn : some (Note.mk "summary" ms) = some n)
      (he : SessionEntry.message 0 (userText "question") ∉ ms) :
      SessionEntry.message 0 (userText "question") ∉ n.messages := by
    injection hn with hn
    rw [← hn]
    exact he
  refine ⟨⟨⟨"summary", rfl, by decide⟩, by decide, ?_⟩, ⟨?_, ⟨"summary", rfl, by decide⟩, ?_⟩,
    ⟨"summary", rfl, by decide⟩, ?_⟩
  · exact @not_lossless _ (.message 0 (userText "question")) (by decide) (by decide)
      (fun n hn => hnoted _ n hn (by decide)) (by decide)
  · exact (sound_step stepOk_answeredTwice (sound_start _ _)).lossless
  · exact @not_lossless _ (.message 0 (userText "question")) (by decide) (by decide)
      (fun n hn => hnoted _ n hn (by decide)) (by decide)
  · intro h
    -- The one entry that is kept is the result itself.
    obtain ⟨e, he, hcalls⟩ := h _ (List.mem_cons_of_mem _ List.mem_cons_self) _ List.mem_cons_self
      rfl
    rw [List.mem_singleton.mp he] at hcalls
    cases hcalls

/-- An attempt that cuts, a compaction between two questions, and an attempt at which there
is nothing to cut. -/
def compactedBetween : List Event :=
  [.attempt 1 (.ok "summary"), .push 4 (userText "again"), .compact 5 "shorter" 0,
    .push 6 (userText "more"), .attempt 9 (.error .alreadyCompacted)]

theorem loses_nothing_compacted :
    ((compactedBetween.take 5).foldl (step (plainConfig 1).compactor) answeredTwice).Lossless := by
  have hok : Along (step (plainConfig 1).compactor) (StepOk (plainConfig 1).compactor)
      answeredTwice compactedBetween := by
    refine ⟨stepOk_answeredTwice, trivial, ?_, trivial, fun hlt => ?_, trivial⟩
    · exact fun e he => absurd he (by decide +revert)
    · exact absurd hlt (by decide)
  exact (loses_nothing_of_along hok 5).1

end Remembered

end Pandaria.Agent
