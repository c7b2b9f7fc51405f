import Pandaria.Proofs.CutPoint
import Pandaria.Proofs.SessionSteps
import Mathlib.Data.List.TakeWhile

/-!
# The context after a compaction

A compaction appends its entry at the end of the history and then drops what
stands before the first entry it keeps. `buildContext` reads on from the last
compaction entry, so what it finds there is what was pushed after the
compaction, and nothing of what the compaction kept. The context is as it
should be exactly when the compaction kept no message that is ever sent: when
the recent messages are all responses that ended in an error, or when a hook
names a first kept entry with only such messages behind it.
-/

namespace Pandaria.Agent

open Pandaria.Ai Pandaria.Lib

/-! ## What a compaction leaves behind -/

/-- The entries from the first one with this id onward. -/
def keptFrom (entries : List SessionEntry) (id : Uuid) : List SessionEntry :=
  entries.dropWhile fun e => decide (e.id ≠ id)

/-- A compaction of the session `a` that is applied, by `run_auto_compaction`
or by hand. -/
inductive Compacts (cfg : SessionConfig) (env : Env) (a : SessionActor) :
    Bool → CompactionResult → SessionActor → Prop where
  | auto {fromExtension : Bool} {result : CompactionResult} (reason : CompactReason)
      (willRetry : Bool)
      (h : ((a.emit (.compactionStart reason)).chooseCompaction cfg env).1 =
        .ok (.compaction fromExtension result)) :
      Compacts cfg env a fromExtension result (a.runAutoCompaction cfg env reason willRetry).2
  | manual {result : CompactionResult} (h : (a.compact cfg env).1 = .ok result) :
      Compacts cfg env a false result (a.compact cfg env).2

theorem applyCompaction_entries (env : Env) (byHook : Bool) (result : CompactionResult)
    (a : SessionActor) :
    ∃ before id ts, (a.applyCompaction env byHook result).history.entries =
      before ++ [.compaction id result.summary result.firstKeptEntryId result.tokensBefore
        result.details byHook ts] := by
  simp only [SessionActor.applyCompaction, SessionHistory.truncateBefore,
    SessionHistory.appendCompactionEntry, SessionActor.compactionEntry]
  refine ⟨_, _, _, List.drop_append_of_le_length ?_⟩
  exact boundaryIndex_append_le _ _ _

/-- However it came about, the entry of a compaction stands at the end. -/
theorem Compacts.entries {cfg : SessionConfig} {env : Env} {a a' : SessionActor} {byHook : Bool}
    {result : CompactionResult} (h : Compacts cfg env a byHook result a') :
    ∃ before id ts, a'.history.entries =
      before ++ [.compaction id result.summary result.firstKeptEntryId result.tokensBefore
        result.details byHook ts] := by
  cases h with
  | auto reason willRetry h =>
      simp only [SessionActor.runAutoCompaction]
      split
      · next hc => rw [hc] at h; cases h
      · next hc => rw [hc] at h; cases h
      · next hc =>
          rw [hc] at h
          injection h with h
          injection h with h1 h2
          subst h1 h2
          exact applyCompaction_entries env _ _ _
  | manual h =>
      simp only [SessionActor.compact] at h ⊢
      split at h
      · cases h
      · injection h with h
        subst h
        exact applyCompaction_entries env _ _ _

/-- What the provider is shown after a compaction and some pushes. -/
theorem Compacts.buildContext {cfg : SessionConfig} {env : Env} {a a' : SessionActor} {byHook : Bool}
    {result : CompactionResult} (h : Compacts cfg env a byHook result a') (now : SystemTime)
    (ms : List AgentMessage) :
    buildContext now (a'.pushMessages env ms).history.entries =
      summaryMessage now result.summary :: ms.filter fun m => !isErrorAssistant m := by
  obtain ⟨before, id, ts, hentries⟩ := h.entries
  obtain ⟨es, hpush, hes, hms⟩ := a'.pushMessages_entries ms
  rw [hpush, hentries, List.append_assoc, List.singleton_append,
    buildContext_compaction _ _ _ _ _ _ _ _ _ _ hes, visible, hms]

/-! ## The first kept entry of a prepared compaction -/

theorem previousBoundary_lt {entries : List SessionEntry}
    (hlast : (entries[entries.length - 1]?).any isMessage = true) :
    (previousBoundary entries).2 < entries.length := by
  have hpos : 0 < entries.length := by
    cases entries with
    | nil => cases hlast
    | cons => simp
  rw [previousBoundary]
  split
  · exact hpos
  · next idx hidx =>
      split
      · next summary firstKept _ _ _ _ hget =>
          cases hf : List.findIdx? _ entries with
          | some i => exact (List.findIdx?_eq_some_iff_findIdx_eq.mp hf).1
          | none =>
              show idx + 1 < entries.length
              have hlt := rposition_lt hidx
              by_contra hge
              rw [show entries.length - 1 = idx by omega, hget] at hlast
              cases hlast
      · exact hpos

theorem isMessage_of_getLast? {entries : List SessionEntry} {id : Uuid} {m : AgentMessage}
    (h : entries.getLast? = some (.message id m)) :
    (entries[entries.length - 1]?).any isMessage = true := by
  rw [List.getLast?_eq_getElem?] at h
  rw [h]
  rfl

/-- What a successful `prepare` says about the history it was given. -/
theorem prepare_ok {c : Compactor} {entries : List SessionEntry} {p : CompactionPreparation}
    (h : prepare c entries = .ok p) :
    (entries[entries.length - 1]?).any isMessage = true ∧
      ∃ e, entries[(findCutPoint entries (previousBoundary entries).2 entries.length
        c.config.keepRecentTokens).firstKeptEntryIndex]? = some e ∧ p.firstKeptEntryId = e.id := by
  rw [prepare] at h
  split at h
  · cases h
  · cases h
  · next id m hl =>
      have hlast := isMessage_of_getLast? hl
      obtain ⟨-, hlt⟩ := findCutPoint_le entries c.config.keepRecentTokens
        (previousBoundary_lt hlast)
      have hget := List.getElem?_eq_getElem hlt
      refine ⟨hlast, _, hget, ?_⟩
      injection h with h
      rw [← h]
      exact congrArg (fun o => (o.map SessionEntry.id).getD 0) hget

theorem compact_ok {c : Compactor} {env : Env} {entries : List SessionEntry} {w w' : World}
    {result : CompactionResult} (h : compact c env entries w = (.ok result, w')) :
    ∃ p, prepare c entries = .ok p ∧ result.firstKeptEntryId = p.firstKeptEntryId := by
  rw [compact] at h
  split at h
  · injection h with h; cases h
  · next p hp =>
      split at h
      · injection h with h; cases h
      · injection h with h
        injection h with h
        exact ⟨p, hp, by rw [← h]⟩

/-- The result of a compaction no hook has replaced. -/
theorem Compacts.prepared {cfg : SessionConfig} {env : Env} {a a' : SessionActor}
    {result : CompactionResult} (h : Compacts cfg env a false result a') :
    ∃ p, prepare cfg.compactor a.history.entries = .ok p ∧
      result.firstKeptEntryId = p.firstKeptEntryId := by
  cases h with
  | auto reason willRetry h =>
      simp only [SessionActor.chooseCompaction] at h
      split at h
      · cases h
      · split at h
        · cases h
        · injection h with h; injection h with h; cases h
        · split at h
          · cases h
          · next hc =>
              injection h with h
              injection h with _ h
              subst h
              exact compact_ok hc
  | manual h =>
      simp only [SessionActor.compact] at h
      split at h
      · cases h
      · next hc =>
          injection h with h
          subst h
          exact compact_ok hc

theorem keptFrom_getLast? {entries : List SessionEntry} {e : SessionEntry} (he : e ∈ entries) :
    (keptFrom entries e.id).getLast? = entries.getLast? := by
  have hne : keptFrom entries e.id ≠ [] := by
    intro hnil
    have := List.dropWhile_eq_nil_iff.mp hnil e he
    simp at this
  conv_rhs => rw [← List.takeWhile_append_dropWhile (p := fun x => decide (x.id ≠ e.id)) (l := entries)]
  exact (List.getLast?_append_of_ne_nil _ hne).symm

/-- The last message of a history whose kept part is never sent ended in an
error, and so is one a cut may stand before. -/
theorem isCutEntry_of_visible_eq_nil {entries : List SessionEntry}
    (hlast : (entries[entries.length - 1]?).any isMessage = true) {e : SessionEntry}
    (he : e ∈ entries) (hv : visible (keptFrom entries e.id) = []) :
    (entries[entries.length - 1]?).any isCutEntry = true := by
  have hget := keptFrom_getLast? he
  rw [← List.getLast?_eq_getElem?, ← hget] at hlast ⊢
  cases hl : (keptFrom entries e.id).getLast? with
  | none => rw [hl] at hlast; cases hlast
  | some x =>
      rw [hl] at hlast
      cases x with
      | compaction => cases hlast
      | message id m =>
          have herr := visible_eq_nil.mp hv id m (List.mem_of_getLast? hl)
          cases m with
          | assistant a => rfl
          | user u => cases herr
          | toolResult r => cases herr

/-! ## When nothing that is kept is ever sent -/

/-- From the entry a compaction will cut at, every message is a response that
ended in an error. For a result that comes from a hook that is the entry it
names; for one that is prepared it is the first user or assistant message,
from the boundary of the previous compaction on, that fewer than
`keepRecentTokens` estimated tokens follow. -/
def KeepsNothing (cfg : SessionConfig) (entries : List SessionEntry) (fromExtension : Bool)
    (result : CompactionResult) : Prop :=
  if fromExtension then visible (keptFrom entries result.firstKeptEntryId) = []
  else ∃ k e, recentStart entries (previousBoundary entries).2
      cfg.compactor.config.keepRecentTokens = some k ∧
    entries[k]? = some e ∧ visible (keptFrom entries e.id) = []

theorem Compacts.visible_kept_eq_nil {cfg : SessionConfig} {env : Env} {a a' : SessionActor}
    {byHook : Bool} {result : CompactionResult} (h : Compacts cfg env a byHook result a') :
    visible (keptFrom a.history.entries result.firstKeptEntryId) = [] ↔
      KeepsNothing cfg a.history.entries byHook result := by
  rw [KeepsNothing]
  cases byHook with
  | true => rw [if_pos rfl]
  | false =>
      rw [if_neg (by simp)]
      obtain ⟨p, hp, hfk⟩ := h.prepared
      obtain ⟨hlast, e, hget, hid⟩ := prepare_ok hp
      rw [hfk, hid]
      constructor
      · intro hv
        cases hr : recentStart a.history.entries (previousBoundary a.history.entries).2
            cfg.compactor.config.keepRecentTokens with
        | some k =>
            rw [findCutPoint_index hlast hr] at hget
            exact ⟨k, e, rfl, hget, hv⟩
        | none =>
            -- The last message is always a recent start when it can be cut at.
            have hcut := isCutEntry_of_visible_eq_nil hlast (List.mem_of_getElem? hget) hv
            have hb := previousBoundary_lt hlast
            have hno := List.find?_eq_none.mp hr (a.history.entries.length - 1)
              (List.mem_range'_1.mpr ⟨by omega, by omega⟩)
            refine absurd ?_ hno
            simp [isRecentStart, hcut, show a.history.entries.length - 1 + 1 =
              a.history.entries.length by omega]
      · rintro ⟨k, e', hr, hget', hv⟩
        rw [findCutPoint_index hlast hr, hget'] at hget
        injection hget with hget
        rwa [← hget]

/-- The context after a compaction is the summary, the kept messages and what
is pushed later exactly when there are no kept messages. -/
theorem context_after_compaction_iff {cfg : SessionConfig} {env : Env} {a a' : SessionActor}
    {fromExtension : Bool} {result : CompactionResult}
    (h : Compacts cfg env a fromExtension result a') (now : SystemTime) :
    (∀ pushed : List AgentMessage,
      buildContext now (a'.pushMessages env pushed).history.entries =
        summaryMessage now result.summary ::
          (visible (keptFrom a.history.entries result.firstKeptEntryId) ++
            pushed.filter fun m => !isErrorAssistant m)) ↔
      KeepsNothing cfg a.history.entries fromExtension result := by
  rw [← h.visible_kept_eq_nil]
  constructor
  · intro hall
    have hnone := hall []
    rw [h.buildContext now []] at hnone
    simpa using hnone
  · intro hnil pushed
    rw [h.buildContext now pushed, hnil, List.nil_append]

/-! ## A question and its answer

With one token to keep, the cut falls on the answer, which is then in the
history and not in the context. -/

/-- A provider that answers everything with the same summary. -/
def summarizing : Env := { Env.quiet with stream := fun _ => .ok (saying "summary") }

def answered : SessionActor :=
  plainSession (plainConfig 1)
    [userText "question", .assistant (plainReply [.text "answer" none] .stop none)]

def answeredResult : CompactionResult :=
  { summary := "summary\n\n---\n\n**Turn Context (split turn):**\n\nsummary"
    firstKeptEntryId := 1
    tokensBefore := 4
    details := some ⟨[], []⟩ }

theorem answered_compact : (answered.compact (plainConfig 1) summarizing).1 = .ok answeredResult := by
  rfl

theorem kept_answer_not_sent :
    ∃ a', Compacts (plainConfig 1) summarizing answered false answeredResult a' ∧
      buildContext 0 a'.history.entries ≠
        summaryMessage 0 answeredResult.summary ::
          visible (keptFrom answered.history.entries answeredResult.firstKeptEntryId) :=
  ⟨_, .manual answered_compact, by decide⟩

/-- After a failed response that fills the kept part the context is complete. -/
def failed : SessionActor :=
  plainSession (plainConfig 1)
    [userText "question", .assistant (plainReply [.text "answer" none] .error none)]

theorem failed_compact : (failed.compact (plainConfig 1) summarizing).1 = .ok answeredResult := by
  rfl

theorem context_after_failed_compaction :
    buildContext 0 (((failed.compact (plainConfig 1) summarizing).2).pushMessages summarizing
        [userText "next"]).history.entries =
      summaryMessage 0 answeredResult.summary ::
        (visible (keptFrom failed.history.entries answeredResult.firstKeptEntryId) ++
          [userText "next"].filter fun m => !isErrorAssistant m) :=
  (context_after_compaction_iff (.manual failed_compact) 0).mpr ⟨1, _, rfl, rfl, rfl⟩ _

end Pandaria.Agent
