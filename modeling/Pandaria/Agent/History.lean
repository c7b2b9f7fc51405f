import Pandaria.Agent.Error
import Pandaria.Ai.Types
import Pandaria.Lib.Search

/-!
# Session entries and the context built from them

`SessionEntry` and `SessionContextBuilder::build_context` from
`agent-core/src/persistence/entry.rs`. A history is a list of messages with
compaction markers between them; the context a provider is shown is read off
the list from the last marker on.
-/

namespace Pandaria.Agent

open Pandaria.Ai Pandaria.Lib

abbrev AgentMessage := Message

/-- A `uuid::Uuid`, of which only equality is ever used. -/
abbrev Uuid := Nat

structure CompactionDetails where
  readFiles : List String
  modifiedFiles : List String
deriving DecidableEq

inductive SessionEntry where
  | message (id : Uuid) (message : AgentMessage)
  | compaction (id : Uuid) (summary : String) (firstKeptEntryId : Uuid)
      (tokensBefore : Nat) (details : Option CompactionDetails)
      (fromExtension : Bool) (timestamp : SystemTime)
deriving DecidableEq

def SessionEntry.id : SessionEntry → Uuid
  | .message id _ => id
  | .compaction id .. => id

def SessionEntry.isCompaction : SessionEntry → Bool
  | .message .. => false
  | .compaction .. => true

/-- The message an entry holds, if it holds one. -/
def SessionEntry.message? : SessionEntry → Option AgentMessage
  | .message _ m => some m
  | .compaction .. => none

/-- What `build_context` leaves out: an assistant message that stopped with an
error stays in the transcript and is not sent again. -/
def isErrorAssistant : AgentMessage → Bool
  | .assistant a => a.stopReason = .error
  | _ => false

/-- The messages of a stretch of history that are sent to the provider. -/
def visible (entries : List SessionEntry) : List AgentMessage :=
  (entries.filterMap SessionEntry.message?).filter fun m => !isErrorAssistant m

/-- The message a compaction summary is sent as. -/
def summaryMessage (now : SystemTime) (summary : String) : AgentMessage :=
  .user { content := [.text ("[Context Summary]\n" ++ summary) none], timestamp := now }

/-- `SessionContextBuilder::build_context`. -/
def buildContext (now : SystemTime) (entries : List SessionEntry) : List AgentMessage :=
  let lastCompactionIdx := rposition SessionEntry.isCompaction entries
  let startIdx := (lastCompactionIdx.map (· + 1)).getD 0
  let summary := match lastCompactionIdx.bind (entries[·]?) with
    | some (.compaction _ summary ..) => [summaryMessage now summary]
    | _ => []
  summary ++ visible (entries.drop startIdx)

/-! ## What is sent of a history -/

/-- Nothing is sent of a stretch exactly when every message in it stopped
with an error. -/
theorem visible_eq_nil {entries : List SessionEntry} :
    visible entries = [] ↔
      ∀ id m, SessionEntry.message id m ∈ entries → isErrorAssistant m = true := by
  simp only [visible, List.filter_eq_nil_iff, List.mem_filterMap, Bool.not_eq_true',
    Bool.not_eq_false]
  constructor
  · intro h id m hm
    exact h m ⟨_, hm, rfl⟩
  · rintro h m ⟨e, he, hem⟩
    cases e with
    | message id m' =>
        obtain rfl : m' = m := by simpa [SessionEntry.message?] using hem
        exact h id _ he
    | compaction => simp [SessionEntry.message?] at hem

/-- The summary of a compaction entry stands for it and for everything before
it. -/
theorem buildContext_compaction (now : SystemTime) (before after : List SessionEntry)
    (id : Uuid) (summary : String) (fk : Uuid) (tokens : Nat)
    (details : Option CompactionDetails) (ext : Bool) (ts : SystemTime)
    (h : ∀ e ∈ after, e.isCompaction = false) :
    buildContext now
        (before ++ .compaction id summary fk tokens details ext ts :: after) =
      summaryMessage now summary :: visible after := by
  have hpos : rposition SessionEntry.isCompaction
      (before ++ .compaction id summary fk tokens details ext ts :: after) =
        some before.length := rposition_append_cons rfl h
  simp [buildContext, hpos]

end Pandaria.Agent

/-!
## The history of a session and what is saved of it

`SessionHistory` from `agent-core/src/harness/session/history.rs`. Beside the
entries it keeps how many of them have been given to the store. A save is a
task of its own: `persistIncremental` hands over the entries from that count
on and moves the count to the end at once, whatever becomes of the task.
-/

namespace Pandaria.Agent

open Pandaria.Ai

structure SessionHistory where
  entries : List SessionEntry
  /-- Whether a store is configured. -/
  hasStore : Bool
  needsRestore : Bool
  lastSavedEntryCount : Nat
  /-- Whether the handle of a save task is held. -/
  lastSave : Bool
deriving DecidableEq

namespace SessionHistory

/-- `SessionHistory::new`. -/
def new (hasStore : Bool) : SessionHistory :=
  { entries := []
    hasStore := hasStore
    needsRestore := hasStore
    lastSavedEntryCount := 0
    lastSave := false }

/-! ### Entries -/

def push (h : SessionHistory) (id : Uuid) (msg : AgentMessage) : SessionHistory :=
  { h with entries := h.entries ++ [.message id msg] }

/-- `append_compaction` and `append_compaction_entry`. -/
def appendCompactionEntry (h : SessionHistory) (entry : SessionEntry) : SessionHistory :=
  { h with entries := h.entries ++ [entry] }

/-- The index a boundary id stands for. -/
def boundaryIndex (entries : List SessionEntry) (boundary : Uuid) : Nat :=
  (entries.findIdx? fun e => e.id = boundary).getD 0

/-- `truncate_before`: everything strictly before the first entry with that
id, or nothing when there is none. -/
def truncateBefore (h : SessionHistory) (boundary : Uuid) : SessionHistory :=
  { h with entries := h.entries.drop (boundaryIndex h.entries boundary) }

def clearEntries (h : SessionHistory) : SessionHistory := { h with entries := [] }

def messages (h : SessionHistory) : List AgentMessage :=
  h.entries.filterMap SessionEntry.message?

def lastCompactionTimestamp (h : SessionHistory) : Option SystemTime :=
  h.entries.reverse.findSome? fun
    | .compaction _ _ _ _ _ _ timestamp => some timestamp
    | .message .. => none

/-! ### Saving and restoring -/

/-- `auto_restore`, given what the store answers if it is asked. -/
def autoRestore (h : SessionHistory) (loaded : Except AgentError (List SessionEntry)) :
    SessionHistory :=
  if !h.needsRestore then h
  else
    let h := { h with needsRestore := false }
    if !h.hasStore then h
    else match loaded with
      | .ok entries =>
          if entries.isEmpty then h
          else { h with entries := entries, lastSavedEntryCount := entries.length }
      | .error _ => h

/-- `persist_incremental`: the history it leaves and the entries it hands to a
new save task, `none` when the slice is out of range and the call panics. -/
def persistIncremental (h : SessionHistory) :
    Option (SessionHistory × Option (List SessionEntry)) :=
  if !h.hasStore then some (h, none)
  else if h.entries.length < h.lastSavedEntryCount then none
  else
    let newEntries := h.entries.drop h.lastSavedEntryCount
    if newEntries.isEmpty then some ({ h with lastSave := false }, none)
    else some ({ h with lastSavedEntryCount := h.entries.length, lastSave := true },
      some newEntries)

/-- `flush`: it waits for the task in flight and then saves all entries. -/
def flush (h : SessionHistory) : SessionHistory × Option (List SessionEntry) :=
  ({ h with lastSave := false }, if h.hasStore then some h.entries else none)

end SessionHistory

/-! ### What saving and restoring do to the entries -/

/-- The entries `auto_restore` takes over. -/
def restored (h : SessionHistory) (loaded : Except AgentError (List SessionEntry)) :
    Option (List SessionEntry) :=
  match loaded with
  | .ok entries =>
      if h.needsRestore && h.hasStore && !entries.isEmpty then some entries else none
  | .error _ => none

theorem autoRestore_entries (h : SessionHistory)
    (loaded : Except AgentError (List SessionEntry)) :
    (h.autoRestore loaded).entries = (restored h loaded).getD h.entries := by
  unfold SessionHistory.autoRestore restored
  cases h.needsRestore <;> cases h.hasStore <;> cases loaded with
  | error => simp
  | ok entries => cases entries <;> simp

theorem autoRestore_lastSaved (h : SessionHistory)
    (loaded : Except AgentError (List SessionEntry)) :
    (h.autoRestore loaded).lastSavedEntryCount =
      ((restored h loaded).map List.length).getD h.lastSavedEntryCount := by
  unfold SessionHistory.autoRestore restored
  cases h.needsRestore <;> cases h.hasStore <;> cases loaded with
  | error => simp
  | ok entries => cases entries <;> simp

/-- A truncation after an entry has been appended leaves that entry. -/
theorem boundaryIndex_append_le (entries : List SessionEntry) (e : SessionEntry)
    (boundary : Uuid) :
    SessionHistory.boundaryIndex (entries ++ [e]) boundary ≤ entries.length := by
  rw [SessionHistory.boundaryIndex]
  cases hf : List.findIdx? _ _ with
  | none => exact Nat.zero_le _
  | some i =>
      have hlt := (List.findIdx?_eq_some_iff_findIdx_eq.mp hf).1
      rw [List.length_append] at hlt
      exact Nat.lt_succ_iff.mp hlt

/-- An incremental save, taken apart: it panics, or has nothing to save, or
hands over the slice above the counter. -/
theorem persistIncremental_cases (h : SessionHistory) :
    (h.hasStore = true ∧ h.entries.length < h.lastSavedEntryCount ∧ h.persistIncremental = none) ∨
    (∃ h', h.persistIncremental = some (h', none) ∧ h'.entries = h.entries ∧
      h'.lastSavedEntryCount = h.lastSavedEntryCount ∧
      (h.hasStore = true → h.lastSavedEntryCount = h.entries.length)) ∨
    (∃ h', h.persistIncremental = some (h', some (h.entries.drop h.lastSavedEntryCount)) ∧
      h'.entries = h.entries ∧ h'.lastSavedEntryCount = h.entries.length ∧
      h.hasStore = true ∧ h.lastSavedEntryCount < h.entries.length) := by
  rw [SessionHistory.persistIncremental]
  cases hs : h.hasStore with
  | false => exact .inr (.inl ⟨h, by simp, rfl, rfl, by simp⟩)
  | true =>
      by_cases hlt : h.entries.length < h.lastSavedEntryCount
      · exact .inl ⟨rfl, hlt, by simp [hlt]⟩
      · cases hd : h.entries.drop h.lastSavedEntryCount with
        | nil =>
            have := List.drop_eq_nil_iff.mp hd
            exact .inr (.inl ⟨{ h with lastSave := false }, by simp [hs, hlt], rfl, rfl,
              fun _ => by omega⟩)
        | cons e es =>
            have hlt' : h.lastSavedEntryCount < h.entries.length := by
              by_contra hge
              rw [List.drop_eq_nil_of_le (by omega)] at hd
              cases hd
            exact .inr (.inr ⟨{ h with lastSavedEntryCount := h.entries.length, lastSave := true },
              by simp [hs, hlt], rfl, rfl, rfl, hlt'⟩)

theorem persistIncremental_hasStore {h h' : SessionHistory} {slice : Option (List SessionEntry)}
    (hp : h.persistIncremental = some (h', slice)) : h'.hasStore = h.hasStore := by
  rw [SessionHistory.persistIncremental] at hp
  split at hp
  · injection hp with hp; injection hp with hp; rw [← hp]
  · split at hp
    · cases hp
    · simp only [] at hp
      split at hp <;> (injection hp with hp; injection hp with hp; rw [← hp])

end Pandaria.Agent
