import Pandaria.Agent.History
import Pandaria.Agent.Error

/-!
# Where a compaction cuts

The pure half of `agent-core/src/harness/compaction/mod.rs`: the token
estimates, the search for a cut point and `Compactor::prepare`. The other half
asks the provider for a summary and lives in `Summary.lean`.

A cut point is the index of a user or an assistant message. The search walks
back from the end of the history, adding up estimated tokens, and stops at the
first message at which `keep_recent_tokens` is reached; the cut is the first
cut point from there on, or the first of all when the walk reaches the
boundary without getting there.
-/

namespace Pandaria.Agent

open Pandaria.Ai Pandaria.Lib

structure CompactionConfig where
  enabled : Bool
  reserveTokens : Nat
  keepRecentTokens : Nat
deriving DecidableEq

structure CompactionResult where
  summary : String
  firstKeptEntryId : Uuid
  tokensBefore : Nat
  details : Option CompactionDetails
deriving DecidableEq

structure FileOperations where
  read : List String
  written : List String
  edited : List String
deriving DecidableEq

structure CompactionPreparation where
  firstKeptEntryId : Uuid
  messagesToSummarize : List AgentMessage
  turnPrefixMessages : List AgentMessage
  isSplitTurn : Bool
  tokensBefore : Nat
  previousSummary : Option String
  fileOps : FileOperations
deriving DecidableEq

/-! ## Token estimation -/

/-- The characters of one content block, as the three arms of
`estimate_tokens` count them: only an assistant's thinking, tool calls, videos
and recordings count, everybody's text and images do. -/
def contentChars (assistant : Bool) : Content → Nat
  | .text text _ => text.utf8ByteSize
  | .image .. => 4800
  | .thinking thinking _ _ => if assistant then thinking.utf8ByteSize else 0
  | .toolCall tc =>
      if assistant then tc.name.utf8ByteSize + tc.arguments.renderedLength else 0
  | .video .. => if assistant then 4800 else 0
  | .audio .. => if assistant then 4800 else 0

/-- `estimate_tokens`: four characters to a token, rounded up. The division
goes through `f64`, which is exact on every length that fits in memory. -/
def estimateTokens (m : AgentMessage) : Nat :=
  let chars := match m with
    | .user u => (u.content.map (contentChars false)).sum
    | .assistant a => (a.content.map (contentChars true)).sum
    | .toolResult r => (r.content.map (contentChars false)).sum
  (chars + 3) / 4

/-- The estimate of one entry: a compaction entry counts for nothing. -/
def entryTokens (e : SessionEntry) : Nat := (e.message?.map estimateTokens).getD 0

def totalTokens (entries : List SessionEntry) : Nat := (entries.map entryTokens).sum

/-- The provider's own count for an entry, where it reported one: an assistant
message that neither stopped with an error nor was aborted. -/
def reportedTokens : SessionEntry → Option Nat
  | .message _ (.assistant a) =>
      if a.stopReason ≠ .aborted ∧ a.stopReason ≠ .error ∧ 0 < a.usage.computeTotal then
        some a.usage.computeTotal
      else none
  | _ => none

/-- `estimate_context_tokens`: the last reported count, and an estimate for
what came after it. -/
def estimateContextTokens (entries : List SessionEntry) : Nat :=
  match rposition (fun e => (reportedTokens e).isSome) entries with
  | some idx =>
      ((entries[idx]?.bind reportedTokens).getD 0) + totalTokens (entries.drop (idx + 1))
  | none => totalTokens entries

/-- `should_compact`. -/
def shouldCompact (tokens window : Nat) (config : CompactionConfig) : Bool :=
  config.enabled && decide (0 < window) && decide (window - config.reserveTokens < tokens)

/-! ## Cut points -/

structure CutPoint where
  firstKeptEntryIndex : Nat
  turnStartIndex : Option Nat
  isSplitTurn : Bool
deriving DecidableEq

/-- An entry a cut may stand before: a user or an assistant message. -/
def isCutEntry : SessionEntry → Bool
  | .message _ (.user _) => true
  | .message _ (.assistant _) => true
  | _ => false

def isUserEntry : SessionEntry → Bool
  | .message _ (.user _) => true
  | _ => false

/-- `find_valid_cut_points`. -/
def findValidCutPoints (entries : List SessionEntry) (start stop : Nat) : List Nat :=
  (List.range' start (stop - start)).filter fun i => (entries[i]?).any isCutEntry

/-- `find_turn_start_index`: the last user message from `start` up to and
including `entryIndex`. -/
def findTurnStartIndex (entries : List SessionEntry) (entryIndex start : Nat) : Option Nat :=
  (List.range' start (entryIndex - start + 1)).reverse.find? fun i =>
    (entries[i]?).any isUserEntry

/-- The walk of `find_cut_point` from the end of the history back to `start`,
with what it has added up so far: the index at which `keep` was reached. -/
def walkBack (entries : List SessionEntry) (start keep : Nat) : Nat → Nat → Option Nat
  | 0, _ => none
  | i + 1, accumulated =>
      if i < start then none
      else match entries[i]? with
        | some (.message _ m) =>
            if accumulated + estimateTokens m ≥ keep then some i
            else walkBack entries start keep i (accumulated + estimateTokens m)
        | _ => walkBack entries start keep i accumulated

/-- `find_cut_point`. -/
def findCutPoint (entries : List SessionEntry) (start stop keep : Nat) : CutPoint :=
  match findValidCutPoints entries start stop with
  | [] => { firstKeptEntryIndex := start, turnStartIndex := none, isSplitTurn := false }
  | first :: more =>
      let cutIndex := match walkBack entries start keep stop 0 with
        | none => first
        | some i => ((first :: more).find? fun cp => decide (i ≤ cp)).getD first
      let isUserMsg := (entries[cutIndex]?).any isUserEntry
      let turnStartIndex :=
        if isUserMsg then none else findTurnStartIndex entries cutIndex start
      { firstKeptEntryIndex := cutIndex
        turnStartIndex := turnStartIndex
        isSplitTurn := !isUserMsg && turnStartIndex.isSome }

/-! ## Preparing a compaction -/

/-- What a `Compactor` is built with, less its provider and model. -/
structure Compactor where
  config : CompactionConfig
  fileOpExtractor : List AgentMessage → FileOperations

/-- The last compaction entry's summary and where the messages it kept begin:
the entry it named, or the one after it when that entry is gone. -/
def previousBoundary (entries : List SessionEntry) : Option String × Nat :=
  match rposition SessionEntry.isCompaction entries with
  | none => (none, 0)
  | some idx =>
      match entries[idx]? with
      | some (.compaction _ summary firstKept ..) =>
          (some summary, (entries.findIdx? fun
            | .message id _ => decide (id = firstKept)
            | .compaction .. => false).getD (idx + 1))
      | _ => (none, 0)

/-- The messages of `entries[from..to]`. -/
def messagesBetween (entries : List SessionEntry) (start stop : Nat) : List AgentMessage :=
  ((entries.take stop).drop start).filterMap SessionEntry.message?

/-- `Compactor::prepare`. The index it reads the first kept id at is within
the list, by `findCutPoint_le`; the `0` is never reached. -/
def prepare (c : Compactor) (entries : List SessionEntry) :
    Except CompactionError CompactionPreparation :=
  match entries.getLast? with
  | none => .error .alreadyCompacted
  | some (.compaction ..) => .error .alreadyCompacted
  | some (.message ..) =>
      let (previousSummary, boundaryStart) := previousBoundary entries
      let cut := findCutPoint entries boundaryStart entries.length c.config.keepRecentTokens
      let historyEnd :=
        if cut.isSplitTurn then cut.turnStartIndex.getD cut.firstKeptEntryIndex
        else cut.firstKeptEntryIndex
      let messagesToSummarize := messagesBetween entries boundaryStart historyEnd
      let turnPrefixMessages :=
        if cut.isSplitTurn then
          messagesBetween entries (cut.turnStartIndex.getD 0) cut.firstKeptEntryIndex
        else []
      .ok {
        firstKeptEntryId := ((entries[cut.firstKeptEntryIndex]?).map SessionEntry.id).getD 0
        messagesToSummarize := messagesToSummarize
        turnPrefixMessages := turnPrefixMessages
        isSplitTurn := cut.isSplitTurn
        tokensBefore := estimateContextTokens entries
        previousSummary := previousSummary
        fileOps := c.fileOpExtractor messagesToSummarize }

end Pandaria.Agent

/-!
## Where preparing a compaction could panic

`Compactor::prepare` and what it calls, once more, with `none` for a panic: an
index or a slice beyond the end of the history, a difference of indices below
zero, the `expect` on the start of a split turn. What only iterates (`skip`,
`take`, `position`) cannot panic and is taken from above as it is.
-/

namespace Pandaria.Agent.Checked

open Pandaria.Ai Pandaria.Lib

/-- `a - b` of two indices. -/
def sub (a b : Nat) : Option Nat := if b ≤ a then some (a - b) else none

/-- `&entries[from..]`. -/
def sliceFrom (entries : List SessionEntry) (start : Nat) : Option (List SessionEntry) :=
  if start ≤ entries.length then some (entries.drop start) else none

/-- `estimate_context_tokens`. -/
def estimateContextTokens (entries : List SessionEntry) : Option Nat :=
  match rposition (fun e => (reportedTokens e).isSome) entries with
  | some idx => do
      let after ← sliceFrom entries (idx + 1)
      some (((entries[idx]?.bind reportedTokens).getD 0) + totalTokens after)
  | none => some (totalTokens entries)

/-- `find_valid_cut_points`. -/
def findValidCutPoints (entries : List SessionEntry) (start stop : Nat) : Option (List Nat) := do
  let count ← sub stop start
  some ((List.range' start count).filter fun i => (entries[i]?).any isCutEntry)

/-- `find_turn_start_index`. -/
def findTurnStartIndex (entries : List SessionEntry) (entryIndex start : Nat) :
    Option (Option Nat) := do
  let count ← sub entryIndex start
  some ((List.range' start (count + 1)).reverse.find? fun i => (entries[i]?).any isUserEntry)

/-- The walk of `find_cut_point`, which indexes the history at every step. -/
def walkBack (entries : List SessionEntry) (start keep : Nat) : Nat → Nat → Option (Option Nat)
  | 0, _ => some none
  | i + 1, accumulated =>
      if i < start then some none
      else match entries[i]? with
        | none => none
        | some (.message _ m) =>
            if accumulated + estimateTokens m ≥ keep then some (some i)
            else walkBack entries start keep i (accumulated + estimateTokens m)
        | some (.compaction ..) => walkBack entries start keep i accumulated

/-- The end of `find_cut_point`, from the index of the cut on. The look at the entry
before the cut does nothing else. -/
def cutAt (entries : List SessionEntry) (start cutIndex : Nat) : Option CutPoint := do
  if start < cutIndex then
    let _ ← entries[(← sub cutIndex 1)]?
  let isUserMsg := isUserEntry (← entries[cutIndex]?)
  let turnStartIndex ←
    if isUserMsg then some none else findTurnStartIndex entries cutIndex start
  some {
    firstKeptEntryIndex := cutIndex
    turnStartIndex := turnStartIndex
    isSplitTurn := !isUserMsg && turnStartIndex.isSome }

/-- `find_cut_point`. -/
def findCutPoint (entries : List SessionEntry) (start stop keep : Nat) : Option CutPoint := do
  match ← findValidCutPoints entries start stop with
  | [] => some { firstKeptEntryIndex := start, turnStartIndex := none, isSplitTurn := false }
  | first :: more =>
      match ← walkBack entries start keep stop 0 with
      | none => cutAt entries start first
      | some i => cutAt entries start (((first :: more).find? fun cp => decide (i ≤ cp)).getD first)

/-- The search for the previous compaction in `prepare`. -/
def previousBoundary (entries : List SessionEntry) : Option (Option String × Nat) :=
  match rposition SessionEntry.isCompaction entries with
  | none => some (none, 0)
  | some idx => do
      match ← entries[idx]? with
      | .compaction _ summary firstKept .. =>
          some (some summary, (entries.findIdx? fun
            | .message id _ => decide (id = firstKept)
            | .compaction .. => false).getD (idx + 1))
      | .message .. => some (none, 0)

/-- `Compactor::prepare`. -/
def prepare (c : Compactor) (entries : List SessionEntry) :
    Option (Except CompactionError CompactionPreparation) :=
  match entries.getLast? with
  | none => some (.error .alreadyCompacted)
  | some (.compaction ..) => some (.error .alreadyCompacted)
  | some (.message ..) => do
      let (previousSummary, boundaryStart) ← previousBoundary entries
      let tokensBefore ← estimateContextTokens entries
      let cut ← findCutPoint entries boundaryStart entries.length c.config.keepRecentTokens
      let historyEnd :=
        if cut.isSplitTurn then cut.turnStartIndex.getD cut.firstKeptEntryIndex
        else cut.firstKeptEntryIndex
      let messagesToSummarize := messagesBetween entries boundaryStart historyEnd
      let turnPrefixMessages ←
        if cut.isSplitTurn then do
          let turnStart ← cut.turnStartIndex
          some (messagesBetween entries turnStart cut.firstKeptEntryIndex)
        else some []
      let firstKept ← entries[cut.firstKeptEntryIndex]?
      some (.ok {
        firstKeptEntryId := firstKept.id
        messagesToSummarize := messagesToSummarize
        turnPrefixMessages := turnPrefixMessages
        isSplitTurn := cut.isSplitTurn
        tokensBefore := tokensBefore
        previousSummary := previousSummary
        fileOps := c.fileOpExtractor messagesToSummarize })

end Pandaria.Agent.Checked
