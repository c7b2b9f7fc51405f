import Pandaria.Agent.Call
import Pandaria.Proofs.Copy
import Pandaria.Proofs.CutPoint

/-!
# The estimate and the context it stands for

The context of a history begins at its last compaction; the estimate looks for the
last reported count in all of it. The two are compared by what each has and the
other has not. `carried` is counted and not sent: the answers that stopped with an
error, and, when nothing after the compaction has reported a count, everything up to
it. `uncounted` is sent and not counted: the summary. What is counted of a history,
with the one exchanged for the other, is what is counted of its context
(`estimate_add_uncounted`), so two histories with one context are told apart by
these alone.
-/

namespace Pandaria.Agent

open Pandaria.Ai Pandaria.Lib

variable {entries entries' before after : List SessionEntry} {now now' : SystemTime}

/-! ## What is counted -/

/-- The last reported count, and the entries since. -/
def sinceReport : List SessionEntry → Option (Nat × List SessionEntry)
  | [] => none
  | e :: rest =>
      match sinceReport rest with
      | some r => some r
      | none => (reportedTokens e).map fun tokens => (tokens, rest)

/-- The last reported count with what has come since, or everything. -/
def counted (entries : List SessionEntry) : Nat :=
  match sinceReport entries with
  | some (tokens, rest) => tokens + totalTokens rest
  | none => totalTokens entries

theorem sinceReport_eq_none :
    sinceReport entries = none ↔ ∀ e ∈ entries, reportedTokens e = none := by
  induction entries with
  | nil => simp [sinceReport]
  | cons e rest ih =>
      rw [sinceReport, List.forall_mem_cons, ← ih]
      cases sinceReport rest <;> simp

theorem sinceReport_append (before after : List SessionEntry) :
    sinceReport (before ++ after) = (sinceReport after).or
      ((sinceReport before).map fun r => (r.1, r.2 ++ after)) := by
  induction before with
  | nil =>
      rw [List.nil_append]
      exact (Option.or_none).symm
  | cons e rest ih =>
      rw [List.cons_append, sinceReport, ih, sinceReport]
      cases sinceReport after with
      | some r => rfl
      | none =>
          cases sinceReport rest with
          | some r => rfl
          | none => cases reportedTokens e <;> rfl

theorem totalTokens_append (xs ys : List SessionEntry) :
    totalTokens (xs ++ ys) = totalTokens xs + totalTokens ys := by
  rw [totalTokens, List.map_append, List.sum_append]
  rfl

theorem counted_append_of_reports {r : Nat × List SessionEntry}
    (h : sinceReport after = some r) : counted (before ++ after) = counted after := by
  rw [counted, counted, sinceReport_append, h]
  rfl

theorem counted_append_of_silent (h : sinceReport after = none) :
    counted (before ++ after) = counted before + totalTokens after := by
  rw [counted, counted, sinceReport_append, h]
  cases sinceReport before with
  | none => exact totalTokens_append before after
  | some r =>
      have hsum := totalTokens_append r.2 after
      show r.1 + totalTokens (r.2 ++ after) = r.1 + totalTokens r.2 + totalTokens after
      omega

theorem reported_pos {e : SessionEntry} {tokens : Nat} (h : reportedTokens e = some tokens) :
    0 < tokens := by
  cases e with
  | compaction => cases h
  | message id m =>
      cases m with
      | user | toolResult => cases h
      | assistant a =>
          rw [reportedTokens] at h
          split at h
          · next hpos =>
              injection h with h
              rw [← h]
              exact hpos.2.2
          · cases h

theorem totalTokens_eq_zero : totalTokens entries = 0 ↔ ∀ e ∈ entries, entryTokens e = 0 := by
  rw [totalTokens, List.sum_eq_zero_iff_forall_eq_nat, List.forall_mem_map]

theorem sinceReport_pos {r : Nat × List SessionEntry} (h : sinceReport entries = some r) :
    0 < r.1 := by
  induction entries with
  | nil => cases h
  | cons e rest ih =>
      rw [sinceReport] at h
      cases hrest : sinceReport rest with
      | some r' =>
          rw [hrest] at h ih
          injection h with h
          exact ih (congrArg some h)
      | none =>
          rw [hrest] at h
          obtain ⟨tokens, hreported, rfl⟩ := Option.map_eq_some_iff.mp h
          exact reported_pos hreported

/-- Nothing is counted of a stretch that reports nothing and weighs nothing. -/
theorem counted_eq_zero :
    counted entries = 0 ↔ ∀ e ∈ entries, reportedTokens e = none ∧ entryTokens e = 0 := by
  have hall : (∀ e ∈ entries, reportedTokens e = none ∧ entryTokens e = 0) ↔
      sinceReport entries = none ∧ totalTokens entries = 0 := by
    rw [sinceReport_eq_none, totalTokens_eq_zero, ← forall₂_and]
  rw [hall, counted]
  cases h : sinceReport entries with
  | none => simp
  | some r =>
      have hpos := sinceReport_pos h
      refine iff_of_false (fun hzero => ?_) (fun hand => by simp at hand)
      have hsum : r.1 + totalTokens r.2 = 0 := hzero
      omega

theorem estimateContextTokens_eq (entries : List SessionEntry) :
    estimateContextTokens entries = counted entries := by
  rw [estimateContextTokens]
  cases hpos : rposition (fun e => (reportedTokens e).isSome) entries with
  | none =>
      have hnone : sinceReport entries = none := by
        refine sinceReport_eq_none.mpr fun e he => ?_
        simpa using rposition_eq_none.mp hpos e he
      rw [counted, hnone]
  | some idx =>
      obtain ⟨before, e, after, rfl, rfl, he, hafter⟩ := rposition_eq_some hpos
      obtain ⟨tokens, htokens⟩ := Option.isSome_iff_exists.mp he
      have hsilent : sinceReport after = none :=
        sinceReport_eq_none.mpr fun e' he' => by simpa using hafter e' he'
      have hhit : sinceReport (e :: after) = some (tokens, after) := by
        rw [sinceReport, hsilent, htokens]
        rfl
      rw [counted_append_of_reports hhit, counted, hhit]
      simp [htokens]

/-! ## What is sent -/

/-- What a history holds up to its last compaction. -/
def liveStart (entries : List SessionEntry) : Nat :=
  ((rposition SessionEntry.isCompaction entries).map (· + 1)).getD 0

def deadPart (entries : List SessionEntry) : List SessionEntry := entries.take (liveStart entries)

def livePart (entries : List SessionEntry) : List SessionEntry := entries.drop (liveStart entries)

/-- The answers that stopped with an error, which are not sent. -/
def errorTokens (entries : List SessionEntry) : Nat :=
  totalTokens (entries.filter fun e => e.message?.any isErrorAssistant)

/-- What is counted of a history and not sent. -/
def carried (entries : List SessionEntry) : Nat :=
  match sinceReport (livePart entries) with
  | some (_, rest) => errorTokens rest
  | none => counted (deadPart entries) + errorTokens (livePart entries)

/-- What is sent of a history and not counted: its last summary. -/
def uncounted (entries : List SessionEntry) : Nat :=
  match sinceReport (livePart entries), (deadPart entries).getLast? with
  | none, some (.compaction _ summary ..) => estimateTokens (summaryMessage 0 summary)
  | _, _ => 0

/-- A context as a history of its own. -/
def contextEntries (ms : List AgentMessage) : List SessionEntry := ms.map (.message 0)

theorem contextEntries_visible_cons (e : SessionEntry) (rest : List SessionEntry) :
    contextEntries (visible (e :: rest)) =
      contextEntries (visible [e]) ++ contextEntries (visible rest) := by
  have hsplit : visible (e :: rest) = visible [e] ++ visible rest := by
    rw [visible, visible, visible, ← List.filter_append, ← List.filterMap_append]
    rfl
  rw [hsplit, contextEntries, List.map_append]
  rfl

theorem errorTokens_cons (e : SessionEntry) (rest : List SessionEntry) :
    errorTokens (e :: rest) = errorTokens [e] + errorTokens rest := by
  rw [errorTokens, errorTokens, errorTokens, ← totalTokens_append, ← List.filter_append]
  rfl

/-- An answer that stopped with an error has reported nothing. -/
theorem reportedTokens_of_error {id : Uuid} {m : AgentMessage} (h : isErrorAssistant m = true) :
    reportedTokens (.message id m) = none := by
  cases m with
  | user | toolResult => cases h
  | assistant a =>
      have hstop : a.stopReason = .error := of_decide_eq_true h
      rw [reportedTokens, if_neg fun hand => hand.2.1 hstop]

theorem visible_message (id : Uuid) (m : AgentMessage) :
    visible [.message id m] = if isErrorAssistant m then [] else [m] := by
  cases h : isErrorAssistant m <;> simp [visible, SessionEntry.message?, h]

theorem errorTokens_message (id : Uuid) (m : AgentMessage) :
    errorTokens [.message id m] = if isErrorAssistant m then estimateTokens m else 0 := by
  cases h : isErrorAssistant m <;>
    simp [errorTokens, totalTokens, entryTokens, SessionEntry.message?, h]

/-- What weighs is sent, or is an error. -/
theorem sent_add_errorTokens (entries : List SessionEntry) :
    totalTokens (contextEntries (visible entries)) + errorTokens entries =
      totalTokens entries := by
  induction entries with
  | nil => rfl
  | cons e rest ih =>
      have hone : totalTokens (contextEntries (visible [e])) + errorTokens [e] = entryTokens e := by
        cases e with
        | compaction => rfl
        | message id m =>
            rw [visible_message, errorTokens_message]
            cases isErrorAssistant m with
            | true => exact Nat.zero_add _
            | false => exact Nat.add_zero _
      have htotal : totalTokens (e :: rest) = entryTokens e + totalTokens rest := rfl
      rw [contextEntries_visible_cons, errorTokens_cons, totalTokens_append, htotal]
      omega

/-- What is reported is sent. -/
theorem sinceReport_sent (entries : List SessionEntry) :
    sinceReport (contextEntries (visible entries)) =
      (sinceReport entries).map fun r => (r.1, contextEntries (visible r.2)) := by
  induction entries with
  | nil => rfl
  | cons e rest ih =>
      have hone : sinceReport (contextEntries (visible [e])) =
          (reportedTokens e).map fun tokens => (tokens, []) := by
        cases e with
        | compaction => rfl
        | message id m =>
            rw [visible_message]
            cases herr : isErrorAssistant m with
            | true =>
                rw [reportedTokens_of_error herr]
                rfl
            | false =>
                have hsame : reportedTokens (.message 0 m) = reportedTokens (.message id m) := by
                  cases m <;> rfl
                rw [← hsame]
                rfl
      rw [contextEntries_visible_cons, sinceReport_append, ih, hone, sinceReport]
      cases sinceReport rest with
      | some r => rfl
      | none => cases reportedTokens e <;> rfl

/-- What is counted of a stretch is sent, less the errors since the last report. -/
theorem counted_sent (entries : List SessionEntry) :
    counted entries = counted (contextEntries (visible entries)) +
      (match sinceReport entries with
        | some (_, rest) => errorTokens rest
        | none => errorTokens entries) := by
  rw [counted, counted, sinceReport_sent]
  cases sinceReport entries with
  | none => exact (sent_add_errorTokens entries).symm
  | some r =>
      have hsent := sent_add_errorTokens r.2
      show r.1 + totalTokens r.2 =
        r.1 + totalTokens (contextEntries (visible r.2)) + errorTokens r.2
      omega

/-! ## The two exchanged -/

theorem liveStart_compaction {e : SessionEntry} (he : e.isCompaction = true)
    (hafter : ∀ x ∈ after, x.isCompaction = false) :
    deadPart (before ++ e :: after) = before ++ [e] ∧ livePart (before ++ e :: after) = after := by
  rw [deadPart, livePart, liveStart, rposition_append_cons he hafter]
  have hlist : before ++ e :: after = (before ++ [e]) ++ after := by
    rw [List.append_assoc]
    rfl
  have hlength : ((some before.length).map (· + 1)).getD 0 = (before ++ [e]).length := by
    rw [List.length_append]
    rfl
  rw [hlength, hlist]
  exact ⟨List.take_left, List.drop_left⟩

/-- Without a compaction the whole history is sent. -/
theorem counted_uncompacted (now : SystemTime) {entries : List SessionEntry}
    (hpos : rposition SessionEntry.isCompaction entries = none) :
    counted entries + uncounted entries =
      counted (contextEntries (buildContext now entries)) + carried entries := by
  have hstart : liveStart entries = 0 := by
    rw [liveStart, hpos]
    rfl
  have hlive : livePart entries = entries := by
    rw [livePart, hstart, List.drop_zero]
  have hdead : deadPart entries = [] := by
    rw [deadPart, hstart, List.take_zero]
  have hsent := counted_sent entries
  rw [buildContext_messages now (rposition_eq_none.mp hpos), carried, uncounted, hlive, hdead]
  cases h : sinceReport entries with
  | none =>
      rw [h] at hsent
      exact hsent.trans (congrArg _ (Nat.zero_add _).symm)
  | some r =>
      rw [h] at hsent
      exact hsent

/-- With one, its summary and what comes after it. -/
theorem counted_compacted (now : SystemTime) (before : List SessionEntry) {e : SessionEntry}
    (he : e.isCompaction = true) (hafter : ∀ x ∈ after, x.isCompaction = false) :
    counted (before ++ e :: after) + uncounted (before ++ e :: after) =
      counted (contextEntries (buildContext now (before ++ e :: after))) +
        carried (before ++ e :: after) := by
  obtain ⟨hdead, hlive⟩ := @liveStart_compaction before after e he hafter
  cases e with
  | message => cases he
  | compaction id summary fk tokens details ext ts =>
      have hsent := counted_sent after
      rw [buildContext_compaction now before after _ _ _ _ _ _ _ hafter, carried, uncounted,
        hlive, hdead]
      have hlist : before ++ SessionEntry.compaction id summary fk tokens details ext ts :: after =
          (before ++ [.compaction id summary fk tokens details ext ts]) ++ after := by
        rw [List.append_assoc]
        rfl
      rw [hlist]
      cases h : sinceReport after with
      | none =>
          have hsilent : sinceReport (contextEntries (visible after)) = none := by
            rw [sinceReport_sent, h]
            rfl
          have hcontext :
              counted (contextEntries (summaryMessage now summary :: visible after)) =
                estimateTokens (summaryMessage 0 summary) +
                  totalTokens (contextEntries (visible after)) :=
            @counted_append_of_silent [.message 0 (summaryMessage now summary)] _ hsilent
          have hweight := sent_add_errorTokens after
          rw [counted_append_of_silent h, hcontext, List.getLast?_concat]
          show counted _ + totalTokens after + estimateTokens (summaryMessage 0 summary) =
            estimateTokens (summaryMessage 0 summary) +
              totalTokens (contextEntries (visible after)) + (counted _ + errorTokens after)
          omega
      | some r =>
          rw [h] at hsent
          have hreports : sinceReport (contextEntries (visible after)) =
              some (r.1, contextEntries (visible r.2)) := by
            rw [sinceReport_sent, h]
            rfl
          have hcontext :
              counted (contextEntries (summaryMessage now summary :: visible after)) =
                counted (contextEntries (visible after)) :=
            @counted_append_of_reports [.message 0 (summaryMessage now summary)] _ _ hreports
          rw [counted_append_of_reports h, hcontext]
          exact hsent

/-- What is counted of a history, with the summary and without what is only carried, is
what is counted of its context. -/
theorem estimate_add_uncounted (now : SystemTime) (entries : List SessionEntry) :
    estimateContextTokens entries + uncounted entries =
      estimateContextTokens (contextEntries (buildContext now entries)) + carried entries := by
  rw [estimateContextTokens_eq, estimateContextTokens_eq]
  cases hpos : rposition SessionEntry.isCompaction entries with
  | none => exact counted_uncompacted now hpos
  | some i =>
      obtain ⟨before, e, after, rfl, -, he, hafter⟩ := rposition_eq_some hpos
      exact counted_compacted now before he hafter

/-! ## The decision -/

/-- Whatever the window and the reserve, both are to be compacted or neither. -/
def SameDecision (entries entries' : List SessionEntry) : Prop :=
  ∀ window config, shouldCompact (estimateContextTokens entries) window config =
    shouldCompact (estimateContextTokens entries') window config

theorem sameDecision_iff :
    SameDecision entries entries' ↔
      estimateContextTokens entries = estimateContextTokens entries' := by
  constructor
  · intro h
    -- A window that leaves room for one estimate and not for a larger one.
    have hroom (n : Nat) := h (n + 1) { enabled := true, reserveTokens := 1, keepRecentTokens := 0 }
    have hroom₁ := hroom (estimateContextTokens entries)
    have hroom₂ := hroom (estimateContextTokens entries')
    simp only [shouldCompact, Bool.true_and, Nat.succ_pos, decide_true, Nat.add_sub_cancel,
      decide_eq_decide] at hroom₁ hroom₂
    omega
  · intro h window config
    rw [h]

theorem uncounted_compaction {e : SessionEntry} (he : e.isCompaction = true)
    (hafter : ∀ x ∈ after, x.isCompaction = false) :
    uncounted (before ++ e :: after) = uncounted (e :: after) := by
  obtain ⟨hdead, hlive⟩ := @liveStart_compaction before after e he hafter
  obtain ⟨hdead', hlive'⟩ := @liveStart_compaction [] after e he hafter
  rw [List.nil_append] at hdead' hlive'
  rw [uncounted, uncounted, hdead, hlive, hdead', hlive', List.getLast?_concat]
  rfl

/-- What stands before the last compaction is carried exactly when no count has been
reported since. -/
theorem carried_compaction_iff {e : SessionEntry} (he : e.isCompaction = true)
    (hafter : ∀ x ∈ after, x.isCompaction = false) :
    carried (before ++ e :: after) = carried (e :: after) ↔
      (∃ x ∈ after, (reportedTokens x).isSome = true) ∨
        ∀ x ∈ before, reportedTokens x = none ∧ entryTokens x = 0 := by
  obtain ⟨hdead, hlive⟩ := @liveStart_compaction before after e he hafter
  obtain ⟨hdead', hlive'⟩ := @liveStart_compaction [] after e he hafter
  rw [List.nil_append] at hdead' hlive'
  rw [carried, carried, hdead, hlive, hdead', hlive', ← counted_eq_zero]
  cases h : sinceReport after with
  | none =>
      have hsilent := sinceReport_eq_none.mp h
      have hno : ¬ ∃ x ∈ after, (reportedTokens x).isSome = true := by
        rintro ⟨x, hx, hsome⟩
        rw [hsilent x hx] at hsome
        cases hsome
      have hmarker : sinceReport [e] = none ∧ totalTokens [e] = 0 := by
        cases e with
        | message => cases he
        | compaction => exact ⟨rfl, rfl⟩
      have hempty : counted ([] ++ [e]) = 0 := by
        rw [List.nil_append, counted, hmarker.1]
        exact hmarker.2
      rw [counted_append_of_silent hmarker.1, hmarker.2, hempty, or_iff_right hno]
      show counted before + 0 + errorTokens after = 0 + errorTokens after ↔ counted before = 0
      omega
  | some r =>
      refine iff_of_true rfl (.inl ?_)
      by_contra hno
      have hsilent : sinceReport after = none := by
        refine sinceReport_eq_none.mpr fun x hx => ?_
        by_contra hsome
        exact hno ⟨x, hx, Option.isSome_iff_ne_none.mpr hsome⟩
      rw [hsilent] at h
      cases h

/-- Two histories with one context are decided alike exactly when they balance: what
either carries besides, less a summary it does not count, is the same. What stands before
the last compaction makes no difference exactly when a count has been reported since, or
nothing of it counts. -/
theorem sameDecision_context_iff (h : buildContext now entries = buildContext now' entries') :
    (SameDecision entries entries' ↔
      carried entries + uncounted entries' = carried entries' + uncounted entries) ∧
    ∀ before e after, entries = before ++ e :: after → e.isCompaction = true →
      (∀ x ∈ after, x.isCompaction = false) →
      (SameDecision entries (e :: after) ↔
        (∃ x ∈ after, (reportedTokens x).isSome = true) ∨
          ∀ x ∈ before, reportedTokens x = none ∧ entryTokens x = 0) := by
  have hbalance := estimate_add_uncounted now entries
  constructor
  · have hbalance' := estimate_add_uncounted now' entries'
    rw [h] at hbalance
    rw [sameDecision_iff]
    omega
  · rintro before e after rfl he hafter
    have hbalance' := estimate_add_uncounted now (e :: after)
    have hcontext : buildContext now (before ++ e :: after) = buildContext now (e :: after) := by
      cases e with
      | message => cases he
      | compaction id summary fk tokens details ext ts =>
          rw [buildContext_compaction now before after _ _ _ _ _ _ _ hafter]
          exact (buildContext_compaction now [] after _ _ _ _ _ _ _ hafter).symm
    rw [hcontext, uncounted_compaction he hafter] at hbalance
    rw [sameDecision_iff, ← carried_compaction_iff he hafter]
    omega

/-- An answer whose provider has counted a thousand tokens. -/
def countedAnswer : AgentMessage :=
  .assistant { plainReply [.text "done" none] .stop none with
    usage := ⟨990, 10, none, none, 1000⟩ }

/-- A compaction that keeps an answer, and the next question. -/
def compactedHistory : SessionHistory :=
  let answered := ((SessionHistory.new false).push 1 (userText "find")).push 2 countedAnswer
  let compacted := answered.appendCompactionEntry (.compaction 3 "found" 2 1000 none false 0)
  (compacted.truncateBefore 2).push 4 (userText "thanks")

/-- The same context, and nothing before the compaction. -/
def freshHistory : List SessionEntry := compactedHistory.entries.drop 1

/-- The count of the answer that was kept makes up for a whole window. -/
theorem not_sameDecision :
    buildContext 0 compactedHistory.entries = buildContext 0 freshHistory ∧
      shouldCompact (estimateContextTokens compactedHistory.entries) 1000 ⟨true, 100, 10⟩ = true ∧
      shouldCompact (estimateContextTokens freshHistory) 1000 ⟨true, 100, 10⟩ = false := by
  decide

/-- Another count, reported since, and both are decided alike. -/
theorem sameDecision_reported :
    SameDecision (compactedHistory.push 5 countedAnswer).entries
      (freshHistory ++ [.message 5 countedAnswer]) :=
  (@sameDecision_context_iff _ _ 0 0 (by decide)).1.mpr (by decide)

end Pandaria.Agent
