import Pandaria.Agent.Compaction
import Pandaria.Proofs.Context

/-!
# How a compaction divides the history

From the boundary of the previous compaction on, the history falls into what is
summarized, the beginning of a split turn and what is kept. The cut is one of the
cut points wherever there is one, and the turn it splits begins between the boundary
and the cut, so the three stretches meet; and no index on the way is out of range.
-/

namespace Pandaria.Agent

open Pandaria.Ai Pandaria.Lib

/-! ## Two stretches that meet -/

theorem drop_take_append {α : Type} (xs : List α) {i j k : Nat} (hij : i ≤ j) (hjk : j ≤ k) :
    (xs.take k).drop i = (xs.take j).drop i ++ (xs.take k).drop j := by
  have hfirst : ((xs.take k).drop i).take (j - i) = (xs.take j).drop i := by
    rw [List.take_drop, List.take_take]
    congr 2
    omega
  have hsecond : ((xs.take k).drop i).drop (j - i) = (xs.take k).drop j := by
    rw [List.drop_drop, Nat.add_sub_cancel' hij]
  rw [← hfirst, ← hsecond, List.take_append_drop]

theorem messagesBetween_append (entries : List SessionEntry) {i j k : Nat} (hij : i ≤ j)
    (hjk : j ≤ k) :
    messagesBetween entries i k = messagesBetween entries i j ++ messagesBetween entries j k := by
  rw [messagesBetween, drop_take_append entries hij hjk, List.filterMap_append]
  rfl

theorem messagesBetween_length (entries : List SessionEntry) (i : Nat) :
    messagesBetween entries i entries.length = (entries.drop i).filterMap SessionEntry.message? := by
  rw [messagesBetween, List.take_length]

theorem messagesBetween_self (entries : List SessionEntry) (i : Nat) :
    messagesBetween entries i i = [] := by
  rw [messagesBetween, List.drop_eq_nil_of_le (List.length_take_le i entries)]
  rfl

/-! ## No index is out of range -/

theorem checked_sub {a b : Nat} (h : b ≤ a) : Checked.sub a b = some (a - b) :=
  if_pos h

theorem checked_estimateContextTokens (entries : List SessionEntry) :
    Checked.estimateContextTokens entries = some (estimateContextTokens entries) := by
  rw [Checked.estimateContextTokens, estimateContextTokens]
  cases hpos : rposition (fun e => (reportedTokens e).isSome) entries with
  | none => rfl
  | some idx =>
      have hslice : Checked.sliceFrom entries (idx + 1) = some (entries.drop (idx + 1)) :=
        if_pos (rposition_lt hpos)
      simp only [hslice, Option.bind_eq_bind, Option.bind_some]

theorem checked_findValidCutPoints (entries : List SessionEntry) {start stop : Nat}
    (h : start ≤ stop) :
    Checked.findValidCutPoints entries start stop =
      some (findValidCutPoints entries start stop) := by
  rw [Checked.findValidCutPoints, checked_sub h]
  rfl

theorem checked_findTurnStartIndex (entries : List SessionEntry) {k start : Nat}
    (h : start ≤ k) :
    Checked.findTurnStartIndex entries k start = some (findTurnStartIndex entries k start) := by
  rw [Checked.findTurnStartIndex, checked_sub h]
  rfl

theorem checked_walkBack (entries : List SessionEntry) (start keep : Nat) {n : Nat}
    (hn : n ≤ entries.length) (accumulated : Nat) :
    Checked.walkBack entries start keep n accumulated =
      some (walkBack entries start keep n accumulated) := by
  induction n generalizing accumulated with
  | zero => rfl
  | succ i ih =>
      have hget : entries[i]? = some entries[i] := List.getElem?_eq_getElem hn
      rw [Checked.walkBack, walkBack]
      split
      · rfl
      · rw [hget]
        cases entries[i] with
        | message id m =>
            simp only []
            split
            · rfl
            · exact ih (by omega) _
        | compaction id summary fk tokens details ext ts => exact ih (by omega) _

theorem checked_cutAt {entries : List SessionEntry} {start k : Nat} (hs : start ≤ k)
    (hk : k < entries.length) :
    Checked.cutAt entries start k = some (cutPointAt entries start k) := by
  have hget : entries[k]? = some entries[k] := List.getElem?_eq_getElem hk
  have hturn := checked_findTurnStartIndex entries hs
  simp only [Checked.cutAt, cutPointAt, hget, hturn, Option.any_some, Option.bind_eq_bind,
    Option.bind_some]
  -- The entry before the cut is there whenever it is looked at.
  split
  · have hbefore : entries[k - 1]? = some entries[k - 1] := List.getElem?_eq_getElem (by omega)
    rw [checked_sub (by omega), Option.bind_some, hbefore, Option.bind_some]
    split <;> rfl
  · split <;> rfl

theorem checked_findCutPoint {entries : List SessionEntry} {start : Nat} (keep : Nat)
    (hs : start < entries.length) :
    Checked.findCutPoint entries start entries.length keep =
      some (findCutPoint entries start entries.length keep) := by
  have hle := findCutPoint_le entries keep hs
  rw [findCutPoint] at hle ⊢
  simp only [Checked.findCutPoint, checked_findValidCutPoints entries (Nat.le_of_lt hs),
    checked_walkBack entries start keep (Nat.le_refl _), Option.bind_eq_bind, Option.bind_some]
  cases hpoints : findValidCutPoints entries start entries.length with
  | nil => rfl
  | cons first more =>
      rw [hpoints] at hle
      cases hwalk : walkBack entries start keep entries.length 0 with
      | none =>
          rw [hwalk] at hle
          exact checked_cutAt hle.1 hle.2
      | some i =>
          rw [hwalk] at hle
          exact checked_cutAt hle.1 hle.2

theorem checked_previousBoundary (entries : List SessionEntry) :
    Checked.previousBoundary entries = some (previousBoundary entries) := by
  rw [Checked.previousBoundary, previousBoundary]
  cases hpos : rposition SessionEntry.isCompaction entries with
  | none => rfl
  | some idx =>
      have hlt := rposition_lt hpos
      have hget : entries[idx]? = some entries[idx] := List.getElem?_eq_getElem hlt
      simp only [hget, Option.bind_eq_bind, Option.bind_some]
      cases entries[idx] with
      | message id m => rfl
      | compaction id summary fk tokens details ext ts => rfl

/-- `prepare` returns what it does in `Compaction.lean`, and never panics. -/
theorem checked_prepare (c : Compactor) (entries : List SessionEntry) :
    Checked.prepare c entries = some (prepare c entries) := by
  rw [Checked.prepare, prepare]
  cases hlast : entries.getLast? with
  | none => rfl
  | some e =>
      cases e with
      | compaction id summary fk tokens details ext ts => rfl
      | message id m =>
          have hstart := previousBoundary_lt (isMessage_of_getLast? hlast)
          have hcut := checked_findCutPoint c.config.keepRecentTokens hstart
          obtain ⟨-, hlt⟩ := findCutPoint_le entries c.config.keepRecentTokens hstart
          have hget := List.getElem?_eq_getElem hlt
          simp only [checked_previousBoundary, checked_estimateContextTokens, hcut, hget,
            Option.bind_eq_bind, Option.bind_some, Option.map_some, Option.getD_some]
          cases hsplit : (findCutPoint entries (previousBoundary entries).2 entries.length
              c.config.keepRecentTokens).isSplitTurn with
          | false => rfl
          | true =>
              obtain ⟨t, ht, -, -⟩ := turnStart_of_isSplitTurn hsplit
              rw [ht]
              rfl

/-! ## The three stretches -/

/-- Where no two entries have one id, the first with the id of an entry is that entry. -/
theorem keptFrom_of_nodup {entries : List SessionEntry} {j : Nat} {e : SessionEntry}
    (hnodup : (entries.map SessionEntry.id).Nodup) (h : entries[j]? = some e) :
    keptFrom entries e.id = entries.drop j := by
  rw [keptFrom]
  induction entries generalizing j with
  | nil => cases h
  | cons x xs ih =>
      obtain ⟨hx, hxs⟩ := List.nodup_cons.mp hnodup
      cases j with
      | zero =>
          injection h with h
          subst h
          exact List.dropWhile_cons_of_neg (by simp)
      | succ j =>
          have hmem : e.id ∈ xs.map SessionEntry.id := List.mem_map_of_mem (List.mem_of_getElem? h)
          have hne : x.id ≠ e.id := fun heq => hx (heq ▸ hmem)
          rw [List.dropWhile_cons_of_pos (by simpa using hne), List.drop_succ_cons]
          exact ih hxs h

/-- What is summarized ends where the beginning of the split turn starts, and that
ends at the cut. -/
theorem prepare_stretches {c : Compactor} {entries : List SessionEntry}
    {p : CompactionPreparation} {cut : CutPoint} (h : prepare c entries = .ok p)
    (hcut : findCutPoint entries (previousBoundary entries).2 entries.length
      c.config.keepRecentTokens = cut)
    (hle : (previousBoundary entries).2 ≤ cut.firstKeptEntryIndex) :
    ∃ i, (previousBoundary entries).2 ≤ i ∧ i ≤ cut.firstKeptEntryIndex ∧
      p.messagesToSummarize = messagesBetween entries (previousBoundary entries).2 i ∧
      p.turnPrefixMessages = messagesBetween entries i cut.firstKeptEntryIndex := by
  rw [prepare] at h
  generalize previousBoundary entries = boundary at h hcut hle ⊢
  obtain ⟨previousSummary, start⟩ := boundary
  split at h
  · cases h
  · cases h
  · simp only [hcut] at h
    injection h with h
    subst h
    cases hsplit : cut.isSplitTurn with
    | false =>
        refine ⟨cut.firstKeptEntryIndex, hle, Nat.le_refl _, rfl, ?_⟩
        rw [messagesBetween_self]
        rfl
    | true =>
        obtain ⟨t, ht, h1, h2⟩ := turnStart_of_isSplitTurn (hcut ▸ hsplit)
        rw [hcut] at ht h2
        refine ⟨t, h1, h2, ?_, ?_⟩
        · rw [ht]
          rfl
        · rw [ht]
          rfl

/-- The history from the boundary on is what is summarized, the beginning of the split
turn and what is kept, one behind the other, and the first entry that is kept is a user
or an assistant message if any is to be had. -/
theorem prepare_partition {c : Compactor} {entries : List SessionEntry}
    {p : CompactionPreparation} (h : prepare c entries = .ok p) :
    Checked.prepare c entries = some (.ok p) ∧
    ∃ i j, (previousBoundary entries).2 ≤ i ∧ i ≤ j ∧ j < entries.length ∧
      p.messagesToSummarize = messagesBetween entries (previousBoundary entries).2 i ∧
      p.turnPrefixMessages = messagesBetween entries i j ∧
      p.messagesToSummarize ++ p.turnPrefixMessages ++
          (entries.drop j).filterMap SessionEntry.message? =
        (entries.drop (previousBoundary entries).2).filterMap SessionEntry.message? ∧
      (entries[j]?).map SessionEntry.id = some p.firstKeptEntryId ∧
      (findValidCutPoints entries (previousBoundary entries).2 entries.length ≠ [] →
        (entries[j]?).any isCutEntry = true) ∧
      ((entries.map SessionEntry.id).Nodup →
        keptFrom entries p.firstKeptEntryId = entries.drop j) := by
  obtain ⟨hlast, e, hget, hid⟩ := prepare_ok h
  obtain ⟨hle, hlt⟩ := findCutPoint_le entries c.config.keepRecentTokens
    (previousBoundary_lt hlast)
  obtain ⟨i, hi, hij, hsummarize, hturn⟩ := prepare_stretches h rfl hle
  refine ⟨(checked_prepare c entries).trans (congrArg some h), i, _, hi, hij, hlt, hsummarize,
    hturn, ?_, ?_, isCutEntry_findCutPoint _, ?_⟩
  · rw [hsummarize, hturn, ← messagesBetween_append entries hi hij, ← messagesBetween_length,
      ← messagesBetween_length, ← messagesBetween_append entries hle (Nat.le_of_lt hlt)]
  · rw [hget, hid]
    rfl
  · intro hnodup
    rw [hid]
    exact keptFrom_of_nodup hnodup hget

/-- A history compacted once, with a turn that uses a tool at its end. -/
def compactedOnce : List SessionEntry :=
  [.compaction 0 "summary" 1 9 none false 0,
    .message 1 (userText "question"),
    .message 2 (.assistant (plainReply [.text "answer" none] .stop none)),
    .message 3 (userText "more"),
    .message 4 (.assistant (plainReply [.toolCall ⟨"a", "tool", .null, none⟩] .toolUse none)),
    .message 5 (.toolResult ⟨"a", "tool", [.text "found" none], none, false, 0⟩),
    .message 6 (.assistant (plainReply [.text "done" none] .stop none))]

/-- Its first turn is summarized, and the second is split before its last message. -/
theorem prepare_partition_splitTurn :
    ∃ p, p.messagesToSummarize.length = 2 ∧ p.turnPrefixMessages.length = 3 ∧
      p.firstKeptEntryId = 6 ∧
      Checked.prepare (plainConfig 1).compactor compactedOnce = some (.ok p) :=
  ⟨_, rfl, rfl, rfl, (prepare_partition rfl).1⟩

end Pandaria.Agent
