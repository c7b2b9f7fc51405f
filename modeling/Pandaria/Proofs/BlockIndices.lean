import Pandaria.Proofs.ToolBlocks
import Pandaria.Lib.Run

/-!
# The indices of content blocks

The parser numbers the blocks of a message itself: the count goes up when a
block stops, and what is sent carries the count as it stands. So the events of
one block agree whatever comes in. Two blocks differ as long as the one has
stopped before the other starts. No event is read in a way that can panic, but
for the usage of a `message_delta`.
-/

namespace Pandaria.Ai

open Lib (Along)

/-- The `content_index` of the events that have one. -/
def AssistantMessageEvent.contentIndex : AssistantMessageEvent → Option Nat
  | .textStart i => some i
  | .textDelta i _ => some i
  | .textEnd i _ => some i
  | .thinkingStart i => some i
  | .thinkingDelta i _ => some i
  | .thinkingEnd i _ => some i
  | .toolCallStart i => some i
  | .toolCallDelta i _ => some i
  | .toolCallEnd i _ => some i
  | .start => none
  | .done _ _ => none
  | .error _ => none

namespace StreamParser

/-! ## Calls -/

/-- What a call leaves, the parser as it was where the loop would leave. -/
def result (p : StreamParser) : Handled StreamParser → Sends StreamParser
  | .next events p' => (events, some p')
  | .leave events .panicked => (events, none)
  | .leave events _ => (events, some p)

/-- One call of `process_event`. With `checks` the build checks arithmetic, and
`compute_total` panics where the sum does not fit a `u64`. -/
def call (serde : Serde) (checks : Bool) (p : StreamParser) (event : Json) : Sends StreamParser :=
  match p.result (p.processEvent serde event) with
  | (events, none) => (events, none)
  | (events, some p') =>
      if checks = true ∧ 2 ^ 64 ≤ p'.message.usage.totalTokens then (events, none)
      else (events, some p')

/-- A call that was made: the event, the index of the parser at the time, and
what was sent. -/
structure Call where
  event : Json
  index : Nat
  sent : List AssistantMessageEvent

def Call.indices (c : Call) : List Nat := c.sent.filterMap AssistantMessageEvent.contentIndex

/-- The calls of a run, up to a panic. -/
def calls (serde : Serde) (checks : Bool) : StreamParser → List Json → List Call
  | _, [] => []
  | p, event :: rest =>
      { event := event, index := p.contentIndex, sent := (p.call serde checks event).1 } ::
        match (p.call serde checks event).2 with
        | none => []
        | some p' => calls serde checks p' rest

/-- A block starts, of any type. -/
def starts (event : Json) : Bool := eventType event = "content_block_start"

def stopsBlock (event : Json) : Bool := eventType event = "content_block_stop"

/-- What still belongs to a block after its start: the calls up to its stop. -/
def body : List Call → List Call
  | [] => []
  | c :: rest =>
      if starts c.event then [] else if stopsBlock c.event then [c] else c :: body rest

attribute [local simp] calls body

/-- The indices blocks start at. -/
def blockIndices (cs : List Call) : List Nat :=
  (cs.filter fun c => starts c.event).map Call.index

structure WellIndexed (cs : List Call) : Prop where
  agree : ∀ c rest, List.IsSuffix (c :: rest) cs → starts c.event = true →
    ∀ d ∈ c :: body rest, ∀ i ∈ d.indices, i = c.index
  increasing : (blockIndices cs).Pairwise (· < ·)

/-- No call panics, and the blocks are well indexed. -/
structure Total (serde : Serde) (checks : Bool) (p : StreamParser) (events : List Json) :
    Prop where
  returns : (sendAll (call serde checks) events p).2 ≠ none
  indexed : WellIndexed (calls serde checks p events)

/-! ## What decides it -/

/-- What has been read: the tokens, and whether a block is open. -/
structure Seen where
  input : Nat
  output : Nat
  inBlock : Bool

def Seen.start : Seen := { input := 0, output := 0, inBlock := false }

def Seen.next (s : Seen) (event : Json) : Seen :=
  if eventType event = "message_start" then
    match (event.at "message").get "usage" with
    | none => s
    | some u =>
        { s with
          input := (u.at "input_tokens").asU64.getD 0
          output := (u.at "output_tokens").asU64.getD 0 }
  else if eventType event = "message_delta" then
    match (event.at "usage").get "output_tokens" with
    | none => s
    | some tokens => { s with output := tokens.asU64.getD s.output }
  else if starts event then { s with inBlock := true }
  else if stopsBlock event then { s with inBlock := false }
  else s

structure Fits (checks : Bool) (s : Seen) (event : Json) : Prop where
  counted : eventType event = "message_delta" → usageBreaks event = false
  bounded : checks = true → (s.next event).input + (s.next event).output < 2 ^ 64
  closed : starts event = true → s.inBlock = false

def Seen.usage (s : Seen) : Usage :=
  { inputTokens := s.input
    outputTokens := s.output
    cacheCreationInputTokens := none
    cacheReadInputTokens := none
    totalTokens := s.input + s.output }

/-! ## One call -/

variable {serde : Serde} {checks : Bool}

/-- What is sent carries the index of the parser. The call panics if `broken`,
and otherwise moves the index on by `k` and leaves the usage at `u`. -/
structure Does (p : StreamParser) (r : Sends StreamParser) (broken : Bool) (k : Nat) (u : Usage) :
    Prop where
  carries : ∀ i ∈ r.1.filterMap AssistantMessageEvent.contentIndex, i = p.contentIndex
  panics : r.2 = none ↔ broken = true
  moves : ∀ p', r.2 = some p' → p'.contentIndex = p.contentIndex + k ∧ p'.message.usage = u

theorem does_some {p p' : StreamParser} {events : List AssistantMessageEvent} {k : Nat} {u : Usage}
    (hc : ∀ i ∈ events.filterMap AssistantMessageEvent.contentIndex, i = p.contentIndex)
    (hk : p'.contentIndex = p.contentIndex + k) (hu : p'.message.usage = u) :
    Does p (events, some p') false k u := by
  refine ⟨hc, by simp, ?_⟩
  intro q hq
  injection hq with hq
  rw [← hq]
  exact ⟨hk, hu⟩

theorem Does.result {p : StreamParser} {r : Sends StreamParser} {b : Bool} {k : Nat} {u : Usage}
    (h : Does p r b k u) : Does p (p.result r.handled) b k u := by
  obtain ⟨events, s⟩ := r
  cases s with
  | none => exact h
  | some p' => exact h

theorem blockStart_does (p : StreamParser) (event : Json) :
    Does p (p.blockStart event) false 0 p.message.usage := by
  rw [blockStart]
  simp only []
  split
  · exact does_some (by simp [AssistantMessageEvent.contentIndex]) rfl rfl
  split
  · exact does_some (by simp [AssistantMessageEvent.contentIndex]) rfl rfl
  split
  · exact does_some (by simp [AssistantMessageEvent.contentIndex]) rfl rfl
  split
  · exact does_some (by simp [AssistantMessageEvent.contentIndex]) rfl rfl
  · exact does_some (by simp) rfl rfl

theorem blockDelta_does (p : StreamParser) (event : Json) :
    Does p (p.blockDelta event) false 0 p.message.usage := by
  rw [blockDelta]
  simp only []
  split
  · exact does_some (by simp [AssistantMessageEvent.contentIndex]) rfl rfl
  split
  · exact does_some (by simp [AssistantMessageEvent.contentIndex]) rfl rfl
  split
  · exact does_some (by simp [AssistantMessageEvent.contentIndex]) rfl rfl
  split
  · split
    · exact does_some (by simp) rfl rfl
    · exact does_some (by simp) rfl rfl
  · exact does_some (by simp) rfl rfl

theorem blockStop_does (p : StreamParser) : Does p (p.blockStop serde) false 1 p.message.usage := by
  have hclose : (∀ i ∈ (p.closeBlock serde).1.filterMap AssistantMessageEvent.contentIndex,
        i = p.contentIndex) ∧
      (p.closeBlock serde).2.contentIndex = p.contentIndex ∧
      (p.closeBlock serde).2.message.usage = p.message.usage := by
    rw [closeBlock]
    simp only []
    split
    · simp [AssistantMessageEvent.contentIndex]
    · split
      · simp
      · simp [AssistantMessageEvent.contentIndex, push]
    · simp [AssistantMessageEvent.contentIndex, push]
    · simp [AssistantMessageEvent.contentIndex, push]
    · simp
  obtain ⟨hc, hk, hu⟩ := hclose
  exact does_some hc (congrArg (· + 1) hk) hu

theorem messageStart_does {p : StreamParser} {s : Seen} (hp : p.message.usage = s.usage)
    {event : Json} (htype : eventType event = "message_start") :
    Does p ([], some (p.messageStart event)) false 0 (s.next event).usage := by
  rw [messageStart, Seen.next, if_pos htype]
  simp only []
  cases (event.at "message").get "usage" with
  | none => exact does_some (by simp) rfl hp
  | some u =>
      refine does_some (by simp) rfl ?_
      simp [withUsage, hp, Seen.usage, Usage.computeTotal]

theorem messageDelta_does {p : StreamParser} {s : Seen} (hp : p.message.usage = s.usage)
    {event : Json} (htype : eventType event = "message_delta") :
    Does p (p.messageDelta event) (usageBreaks event) 0 (s.next event).usage := by
  have hstop : (p.takeStopReason event).message.usage = s.usage ∧
      (p.takeStopReason event).contentIndex = p.contentIndex := by
    rw [takeStopReason]
    split
    · exact ⟨hp, rfl⟩
    · exact ⟨hp, rfl⟩
  obtain ⟨hu, hk⟩ := hstop
  rw [messageDelta, takeUsage, usageBreaks, Seen.next, if_neg (by simp [htype]), if_pos htype]
  cases event.at "usage" with
  | obj fields =>
      simp only []
      cases (Json.obj fields).get "output_tokens" with
      | none => exact ⟨by simp, by simp, by simp⟩
      | some tokens =>
          refine does_some (by simp) hk ?_
          simp [withUsage, hu, Seen.usage, Usage.computeTotal]
  | null | bool | num | str | arr => exact does_some (by simp) hk hu

theorem usage_next_of_ne {s : Seen} {event : Json} (hs : eventType event ≠ "message_start")
    (hd : eventType event ≠ "message_delta") : (s.next event).usage = s.usage := by
  rw [Seen.next, if_neg hs, if_neg hd]
  split
  · rfl
  · split
    · rfl
    · rfl

theorem result_does {p : StreamParser} {s : Seen} (hp : p.message.usage = s.usage) (event : Json) :
    Does p (p.result (p.processEvent serde event))
      (decide (eventType event = "message_delta") && usageBreaks event)
      (stopsBlock event).toNat (s.next event).usage := by
  rw [processEvent, stopsBlock]
  simp only [← eventType.eq_1]
  by_cases hs : eventType event = "message_start"
  · have h := messageStart_does hp hs
    simpa [hs, result] using h
  by_cases hd : eventType event = "message_delta"
  · have h := (messageDelta_does hp hd).result
    simpa [hd] using h
  -- No other event touches the usage.
  rw [usage_next_of_ne hs hd, ← hp, if_neg hs]
  by_cases hb : eventType event = "content_block_start"
  · have h := (blockStart_does p event).result
    simpa [hb] using h
  by_cases hdelta : eventType event = "content_block_delta"
  · have h := (blockDelta_does p event).result
    simpa [hdelta] using h
  by_cases hstop : eventType event = "content_block_stop"
  · have h := (@blockStop_does serde p).result
    simpa [hstop] using h
  rw [if_neg hb, if_neg hdelta, if_neg hstop, if_neg hd]
  simp only [hd, hstop, decide_false, Bool.false_and, Bool.toNat_false]
  split
  · exact does_some (by simp [AssistantMessageEvent.contentIndex]) rfl rfl
  · exact does_some (by simp) rfl rfl

/-- With the check on the sum, the call goes through exactly when the event fits,
as far as the tokens go. -/
theorem call_does {p : StreamParser} {s : Seen} (hp : p.message.usage = s.usage) (event : Json) :
    Does p (p.call serde checks event)
      ((decide (eventType event = "message_delta") && usageBreaks event) ||
        (checks && decide (2 ^ 64 ≤ (s.next event).input + (s.next event).output)))
      (stopsBlock event).toNat (s.next event).usage := by
  obtain ⟨hc, hpanic, hmoves⟩ := @result_does serde p s hp event
  rw [call]
  generalize (decide (eventType event = "message_delta") && usageBreaks event) = b at hpanic ⊢
  generalize p.result (p.processEvent serde event) = r at hc hpanic hmoves
  obtain ⟨events, q⟩ := r
  cases q with
  | none =>
      have hbroken : b = true := hpanic.mp rfl
      exact ⟨hc, by simp [hbroken], by simp⟩
  | some p' =>
      obtain ⟨hk, hu⟩ := hmoves p' rfl
      have hbroken : b = false := by simpa using hpanic
      have htotal : p'.message.usage.totalTokens =
          (s.next event).input + (s.next event).output := by rw [hu, Seen.usage]
      simp only [htotal, hbroken, Bool.false_or]
      by_cases hover : checks = true ∧ 2 ^ 64 ≤ (s.next event).input + (s.next event).output
      · rw [if_pos hover]
        exact ⟨hc, by simpa using hover, by simp⟩
      · rw [if_neg hover]
        refine ⟨hc, by simpa using hover, ?_⟩
        intro q hq
        injection hq with hq
        rw [← hq]
        exact ⟨hk, hu⟩

theorem inBlock_next (s : Seen) (event : Json) :
    (s.next event).inBlock =
      if starts event then true else if stopsBlock event then false else s.inBlock := by
  rw [Seen.next]
  by_cases hs : eventType event = "message_start"
  · rw [if_pos hs]
    have hb : starts event = false := by simp [starts, hs]
    have he : stopsBlock event = false := by simp [stopsBlock, hs]
    cases (event.at "message").get "usage" with
    | none => simp [hb, he]
    | some u => simp [hb, he]
  by_cases hd : eventType event = "message_delta"
  · rw [if_neg hs, if_pos hd]
    have hb : starts event = false := by simp [starts, hd]
    have he : stopsBlock event = false := by simp [stopsBlock, hd]
    cases (event.at "usage").get "output_tokens" with
    | none => simp [hb, he]
    | some u => simp [hb, he]
  rw [if_neg hs, if_neg hd]
  split
  · rfl
  · split
    · rfl
    · rfl

theorem starts_not_stops {event : Json} (h : starts event = true) : stopsBlock event = false := by
  simp only [starts, decide_eq_true_eq] at h
  simp [stopsBlock, h]

theorem fits_iff {s : Seen} {event : Json} :
    Fits checks s event ↔
      ((decide (eventType event = "message_delta") && usageBreaks event) ||
        (checks && decide (2 ^ 64 ≤ (s.next event).input + (s.next event).output))) = false ∧
      (starts event = true → s.inBlock = false) := by
  constructor
  · intro h
    have hc := h.counted
    have hb := h.bounded
    exact ⟨by simpa using ⟨hc, hb⟩, h.closed⟩
  · intro h
    obtain ⟨htokens, hclosed⟩ := h
    have htokens : (eventType event = "message_delta" → usageBreaks event = false) ∧
        (checks = true → (s.next event).input + (s.next event).output < 2 ^ 64) := by
      simpa using htokens
    exact ⟨htokens.1, htokens.2, hclosed⟩

/-! ## Runs -/

theorem blockIndices_cons (c : Call) (cs : List Call) :
    blockIndices (c :: cs) =
      if starts c.event then c.index :: blockIndices cs else blockIndices cs := by
  rw [blockIndices, List.filter_cons]
  split
  · rfl
  · rfl

theorem le_of_mem_blockIndices {p : StreamParser} {s : Seen} (hp : p.message.usage = s.usage)
    (events : List Json) :
    ∀ i ∈ blockIndices (calls serde checks p events), p.contentIndex ≤ i := by
  induction events generalizing p s with
  | nil => simp [calls, blockIndices]
  | cons event rest ih =>
      have hcall := @call_does serde checks p s hp event
      have htail : ∀ i ∈ blockIndices (match (p.call serde checks event).2 with
          | none => []
          | some p' => calls serde checks p' rest), p.contentIndex ≤ i := by
        cases hr : (p.call serde checks event).2 with
        | none => simp [blockIndices]
        | some p' =>
            intro i hi
            obtain ⟨hk, hu⟩ := hcall.moves p' hr
            have hle := ih hu i hi
            omega
      intro i hi
      rw [calls, blockIndices_cons] at hi
      split at hi
      · obtain rfl | hi := List.mem_cons.mp hi
        · exact Nat.le_refl _
        · exact htail i hi
      · exact htail i hi

/-- Until the stop the index of the parser does not move. -/
theorem body_carries {p : StreamParser} {s : Seen} (hp : p.message.usage = s.usage)
    (events : List Json) :
    ∀ d ∈ body (calls serde checks p events), ∀ i ∈ d.indices, i = p.contentIndex := by
  induction events generalizing p s with
  | nil => simp [calls, body]
  | cons event rest ih =>
      have hcall := @call_does serde checks p s hp event
      intro d hd
      rw [calls, body] at hd
      split at hd
      · cases hd
      split at hd
      · rw [List.mem_singleton.mp hd]
        exact hcall.carries
      · rename_i hstart hstop
        obtain rfl | hd := List.mem_cons.mp hd
        · exact hcall.carries
        · cases hr : (p.call serde checks event).2 with
          | none =>
              rw [hr] at hd
              cases hd
          | some p' =>
              rw [hr] at hd
              obtain ⟨hk, hu⟩ := hcall.moves p' hr
              rw [Bool.eq_false_iff.mpr hstop] at hk
              intro i hi
              exact (ih hu d hd i hi).trans hk

theorem calls_agree {p : StreamParser} {s : Seen} (hp : p.message.usage = s.usage)
    (events : List Json) :
    ∀ c rest, List.IsSuffix (c :: rest) (calls serde checks p events) → starts c.event = true →
      ∀ d ∈ c :: body rest, ∀ i ∈ d.indices, i = c.index := by
  induction events generalizing p s with
  | nil =>
      intro c rest hsuffix
      cases List.suffix_nil.mp hsuffix
  | cons event tail ih =>
      have hcall := @call_does serde checks p s hp event
      intro c rest hsuffix hstart
      rw [calls] at hsuffix
      cases hr : (p.call serde checks event).2 with
      | none =>
          rw [hr] at hsuffix
          obtain heq | hlater := List.suffix_cons_iff.mp hsuffix
          · obtain ⟨rfl, rfl⟩ := List.cons.inj heq
            intro d hd
            rw [body] at hd
            rw [List.mem_singleton.mp hd]
            exact hcall.carries
          · cases List.suffix_nil.mp hlater
      | some p' =>
          rw [hr] at hsuffix
          obtain ⟨hk, hu⟩ := hcall.moves p' hr
          obtain heq | hlater := List.suffix_cons_iff.mp hsuffix
          · obtain ⟨rfl, rfl⟩ := List.cons.inj heq
            -- A start does not move the index either.
            rw [starts_not_stops hstart] at hk
            intro d hd
            obtain rfl | hd := List.mem_cons.mp hd
            · exact hcall.carries
            · intro i hi
              exact (body_carries hu tail d hd i hi).trans hk
          · exact ih hu c rest hlater hstart

/-- Where a block is open, the next one that starts has to have a larger index. -/
theorem increasing_iff {p : StreamParser} {s : Seen} (hp : p.message.usage = s.usage)
    (events : List Json) :
    ((sendAll (call serde checks) events p).2 ≠ none ∧
      (blockIndices (calls serde checks p events)).Pairwise (· < ·) ∧
      (s.inBlock = true → ∀ i ∈ blockIndices (calls serde checks p events), p.contentIndex < i)) ↔
      Along Seen.next (Fits checks) s events := by
  induction events generalizing p s with
  | nil => simp [sendAll, calls, blockIndices, Along]
  | cons event rest ih =>
      have hcall := @call_does serde checks p s hp event
      rw [Along, fits_iff, sendAll, calls, blockIndices_cons]
      cases hr : (p.call serde checks event).2 with
      | none =>
          have hbroken := hcall.panics.mp hr
          have hsend : ((p.call serde checks event).andThen
              (sendAll (call serde checks) rest)).2 = none := by
            rw [← Prod.eta (p.call serde checks event), hr]
            rfl
          rw [hbroken, hsend]
          simp
      | some p' =>
          have hfits := Bool.eq_false_iff.mpr fun h => by
            have hnone := hcall.panics.mpr h
            rw [hr] at hnone
            cases hnone
          obtain ⟨hk, hu⟩ := hcall.moves p' hr
          have hsend : ((p.call serde checks event).andThen
              (sendAll (call serde checks) rest)).2 = (sendAll (call serde checks) rest p').2 := by
            rw [← Prod.eta (p.call serde checks event), hr]
            rfl
          have hle := @le_of_mem_blockIndices serde checks p' (s.next event) hu rest
          rw [hfits, hsend, ← ih hu, inBlock_next]
          simp only [true_and]
          generalize blockIndices (calls serde checks p' rest) = later at hle ⊢
          by_cases hstart : starts event = true
          · have hsame : p'.contentIndex = p.contentIndex := by
              simpa [starts_not_stops hstart] using hk
            simp only [hstart, if_true, List.pairwise_cons, hsame, forall_true_left,
              List.forall_mem_cons]
            constructor
            · rintro ⟨hreturns, ⟨hlt, hpair⟩, hopen⟩
              refine ⟨?_, hreturns, hpair, hlt⟩
              by_contra h
              have hself := (hopen (by simpa using h)).1
              omega
            · rintro ⟨hclosed, hreturns, hpair, hlt⟩
              exact ⟨hreturns, ⟨hlt, hpair⟩, by simp [hclosed]⟩
          rw [if_neg hstart, if_neg hstart]
          by_cases hstop : stopsBlock event = true
          · -- After a stop every index is a new one.
            have hlt : ∀ i ∈ later, p.contentIndex < i := by
              intro i hi
              have h := hle i hi
              rw [hk, hstop, Bool.toNat_true] at h
              omega
            simpa [hstart, hstop] using fun _ _ _ => hlt
          · have hsame : p'.contentIndex = p.contentIndex := by simpa [hstop] using hk
            simp [hstart, hstop, hsame]

/-- The calls of a run from a fresh parser do not panic and number the blocks
one by one, exactly when every usage can be counted and no block starts inside
another. -/
theorem block_indices_iff (serde : Serde) (checks : Bool) (provider model : String)
    (now : SystemTime) (events : List Json) :
    Total serde checks (new provider model now) events ↔
      Along Seen.next (Fits checks) .start events := by
  have hnew : (new provider model now).message.usage = Seen.start.usage := rfl
  rw [← @increasing_iff serde checks _ _ hnew events]
  constructor
  · intro h
    exact ⟨h.returns, h.indexed.increasing, by simp [Seen.start]⟩
  · intro h
    exact ⟨h.1, calls_agree hnew events, h.2.1⟩

/-- Usage without `output_tokens` is a panic, and a second block that starts
before the first has stopped gets the index of the first. -/
theorem not_block_indices :
    ¬ (∀ serde checks provider model now events,
        Total serde checks (new provider model now) events) ∧
      ¬ (∀ serde checks provider model now events,
        WellIndexed (calls serde checks (new provider model now) events)) := by
  constructor
  · intro h
    have hreturns := (h (.knowing []) false "anthropic" "claude" 0
      [.obj [("type", .str "message_delta"), ("usage", .obj [])]]).returns
    exact hreturns (by decide +kernel)
  · intro h
    let text : Json := .obj [("type", .str "content_block_start"),
      ("content_block", .obj [("type", .str "text"), ("text", .str "")])]
    have hincreasing := (h (.knowing []) false "anthropic" "claude" 0 [text, text]).increasing
    exact absurd hincreasing (by decide +kernel)

end StreamParser

end Pandaria.Ai
