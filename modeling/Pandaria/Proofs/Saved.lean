import Pandaria.Agent.Session
import Pandaria.Lib.Run
import Pandaria.Lib.Watermark

/-!
# The counter of saved entries

`SessionHistory` keeps a counter of the entries that have been saved. Here
every entry carries a mark of its own beside it, set when it really gets into
the store, and the counter is compared with the marks. Four operations can
part the two: a truncation and a clearing, which take saved entries away and
leave the counter where it is; a flush, which saves entries and does not count
them; and an incremental save that fails after it has been counted.

`StepOk` is the state in which each operation keeps the counter exact, and it
is the only one: a run keeps it exact throughout just when all its steps meet
the condition.
-/

namespace Pandaria.Agent

open Pandaria.Ai Pandaria.Lib

/-! ## Histories with marks -/

/-- What is done to a history. `appended` and `saved` are how the store takes
the entries it is given. -/
inductive HistoryEvent where
  | push (id : Uuid) (m : AgentMessage)
  | compaction (entry : SessionEntry) (firstKeptEntryId : Uuid)
  | clear
  | reset
  | restore (loaded : Except AgentError (List SessionEntry))
  | persist (appended : Bool)
  | flush (saved : Bool)

/-- A history and the marks of its entries. -/
structure Tracked where
  history : SessionHistory
  items : List (SessionEntry × Bool)
  agree : items.map Prod.fst = history.entries

namespace Tracked

def new (hasStore : Bool) : Tracked :=
  { history := .new hasStore, items := [], agree := rfl }

/-- A panic leaves the history as it was. -/
def step (s : Tracked) : HistoryEvent → Tracked
  | .push id m =>
      { history := s.history.push id m
        items := s.items ++ [(.message id m, false)]
        agree := by simp [SessionHistory.push, s.agree] }
  | .compaction entry firstKept =>
      { history := (s.history.appendCompactionEntry entry).truncateBefore firstKept
        items := (s.items ++ [(entry, false)]).drop
          (SessionHistory.boundaryIndex (s.history.entries ++ [entry]) firstKept)
        agree := by
          simp [SessionHistory.appendCompactionEntry, SessionHistory.truncateBefore, s.agree] }
  | .clear | .reset => { history := s.history.clearEntries, items := [], agree := rfl }
  | .restore loaded =>
      { history := s.history.autoRestore loaded
        items := ((restored s.history loaded).map fun es => es.map fun e => (e, true)).getD s.items
        agree := by
          rw [autoRestore_entries]
          cases restored s.history loaded with
          | none => exact s.agree
          | some es => simp [Function.comp_def] }
  | .persist appended =>
      match h : s.history.persistIncremental with
      | none => s
      | some (history, slice) =>
          { history := history
            items :=
              if slice.isSome && appended then
                s.items.take s.history.lastSavedEntryCount ++
                  markSaved (s.items.drop s.history.lastSavedEntryCount)
              else s.items
            agree := by
              have he : history.entries = s.history.entries := by
                rcases persistIncremental_cases s.history with
                  ⟨-, -, hp⟩ | ⟨h', hp, he, -⟩ | ⟨h', hp, he, -⟩ <;> rw [hp] at h
                · cases h
                · injection h with h; injection h with h; rw [← h, he]
                · injection h with h; injection h with h; rw [← h, he]
              rw [he]
              split
              · rw [List.map_append, markSaved, List.map_map, ← s.agree]
                conv_rhs => rw [← List.take_append_drop s.history.lastSavedEntryCount s.items]
                rw [List.map_append]
                rfl
              · exact s.agree }
  | .flush saved =>
      { history := s.history.flush.1
        items := if saved && s.history.hasStore then markSaved s.items else s.items
        agree := by
          split
          · rw [markSaved, List.map_map]; exact s.agree
          · exact s.agree }

theorem items_length (s : Tracked) : s.items.length = s.history.entries.length := by
  rw [← s.agree, List.length_map]

/-- The counter is within the list, the slice above it can be taken, and what
is in the slice is what has not been saved. -/
structure Accurate (s : Tracked) : Prop where
  le : s.history.lastSavedEntryCount ≤ s.history.entries.length
  noPanic : s.history.persistIncremental ≠ none
  slice : s.items.drop s.history.lastSavedEntryCount = unsaved s.items

theorem accurate_iff_exact (s : Tracked) :
    s.Accurate ↔ Exact s.history.lastSavedEntryCount s.items := by
  rw [exact_iff_drop, items_length]
  constructor
  · rintro ⟨h1, -, h2⟩
    exact ⟨h1, h2⟩
  · rintro ⟨h1, h2⟩
    refine ⟨h1, ?_, h2⟩
    rcases persistIncremental_cases s.history with ⟨-, hlt, -⟩ | ⟨_, hp, -⟩ | ⟨_, hp, -⟩
    · omega
    · rw [hp]; simp
    · rw [hp]; simp

/-! ## When a step keeps the counter exact -/

def StepOk (s : Tracked) : HistoryEvent → Prop
  | .push .. | .restore _ => True
  | .compaction entry firstKept =>
      s.history.lastSavedEntryCount = 0 ∨
        SessionHistory.boundaryIndex (s.history.entries ++ [entry]) firstKept = 0
  | .clear | .reset => s.history.lastSavedEntryCount = 0
  | .persist appended =>
      s.history.hasStore = true → appended = false →
        s.history.lastSavedEntryCount = s.history.entries.length
  | .flush saved =>
      s.history.hasStore = true → saved = true →
        s.history.lastSavedEntryCount = s.history.entries.length

theorem step_compaction_iff {s : Tracked} (h : Exact s.history.lastSavedEntryCount s.items)
    (entry : SessionEntry) (firstKept : Uuid) :
    Exact (s.step (.compaction entry firstKept)).history.lastSavedEntryCount
        (s.step (.compaction entry firstKept)).items ↔ s.StepOk (.compaction entry firstKept) := by
  have hle : SessionHistory.boundaryIndex (s.history.entries ++ [entry]) firstKept ≤
      (s.items ++ [(entry, false)]).length := by
    have := boundaryIndex_append_le s.history.entries entry firstKept
    rw [List.length_append, s.items_length]
    omega
  exact ((h.append entry).drop_iff hle).trans or_comm

theorem step_persist_iff {s : Tracked} (h : Exact s.history.lastSavedEntryCount s.items)
    (appended : Bool) :
    Exact (s.step (.persist appended)).history.lastSavedEntryCount
        (s.step (.persist appended)).items ↔ s.StepOk (.persist appended) := by
  have hle := h.le
  rw [s.items_length] at hle
  unfold StepOk step
  simp only []
  split
  · next hp =>
      rcases persistIncremental_cases s.history with ⟨-, hlt, -⟩ | ⟨_, hp', -⟩ | ⟨_, hp', -⟩
      · omega
      · rw [hp'] at hp; cases hp
      · rw [hp'] at hp; cases hp
  · next history slice hp =>
      rcases persistIncremental_cases s.history with
        ⟨-, -, hp'⟩ | ⟨h', hp', -, hm, hend⟩ | ⟨h', hp', -, hm, hstore, hlt⟩ <;> rw [hp'] at hp
      · cases hp
      · injection hp with hp
        injection hp with hp1 hp2
        subst hp1 hp2
        simp only [hm, Option.isSome_none, Bool.false_and, Bool.false_eq_true, if_false]
        exact ⟨fun _ hs _ => hend hs, fun _ => h⟩
      · injection hp with hp
        injection hp with hp1 hp2
        subst hp1 hp2
        simp only [hm, Option.isSome_some, Bool.true_and, ← s.items_length]
        cases appended with
        | true =>
            rw [if_pos rfl, h.take_append_markSaved, exact_markSaved]
            simp
        | false =>
            rw [if_neg (by simp), h.length_iff]
            simp [hstore]

theorem step_flush_iff {s : Tracked} (h : Exact s.history.lastSavedEntryCount s.items)
    (saved : Bool) :
    Exact (s.step (.flush saved)).history.lastSavedEntryCount (s.step (.flush saved)).items ↔
      s.StepOk (.flush saved) := by
  unfold StepOk step
  simp only [SessionHistory.flush]
  cases hs : s.history.hasStore <;> cases saved <;> simp [h, exact_markSaved, s.items_length]

/-- Each operation keeps the counter exact just when its condition is met. -/
theorem step_accurate_iff (s : Tracked) (e : HistoryEvent) (h : s.Accurate) :
    (s.step e).Accurate ↔ s.StepOk e := by
  rw [accurate_iff_exact] at h ⊢
  cases e with
  | push id m => exact iff_of_true (h.append _) trivial
  | compaction entry firstKept => exact step_compaction_iff h entry firstKept
  | clear => exact exact_nil
  | reset => exact exact_nil
  | restore loaded =>
      refine iff_of_true ?_ trivial
      rw [step]
      simp only [autoRestore_lastSaved]
      cases restored s.history loaded with
      | none => exact h
      | some es =>
          have heq : es.map (fun e => (e, true)) = markSaved (es.map fun e => (e, true)) := by
            simp [markSaved, Function.comp_def]
          show Exact es.length (es.map fun e => (e, true))
          rw [heq, exact_markSaved, List.length_map]
  | persist appended => exact step_persist_iff h appended
  | flush saved => exact step_flush_iff h saved

/-- In every state of a run the counter is exact, if and only if every step of
the run meets its condition. -/
theorem accurate_throughout_iff (hasStore : Bool) (es : List HistoryEvent) :
    (∀ n, ((es.take n).foldl step (new hasStore)).Accurate) ↔ Along step StepOk (new hasStore) es :=
  along_iff_forall_take step_accurate_iff
    ((accurate_iff_exact _).mpr (exact_nil.mpr rfl)) es

/-- A message, an incremental save, a reset: the counter stands above the list
and the next incremental save panics. -/
theorem reset_after_persist :
    let s := [.push 0 (.user ⟨[], 0⟩), .persist true, .reset].foldl step (new true)
    s.history.entries.length < s.history.lastSavedEntryCount ∧
      s.history.persistIncremental = none := by
  decide

end Tracked

end Pandaria.Agent
