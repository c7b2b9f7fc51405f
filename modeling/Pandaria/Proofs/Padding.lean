import Pandaria.Lib.Padding
import Pandaria.Ai.Transform

/-!
# Where `transform_messages` puts a message of its own

The last pass completes tool results that no assistant message has called for.
What it asks of a result is whether the message right before it is an
assistant's. Of the results of parallel calls that is true of the first one
only, so every other one gets an empty assistant message between it and the
result before it.

The output is read through `Lib.Padded`: which message of the input an entry
stands for, or which one it was put in before. The five passes before only
rewrite messages where they stand (`rewriteMessages_kinds`).
-/

namespace Pandaria.Ai

open Lib

/-! ## The passes that rewrite -/

inductive MessageKind where
  | user
  | assistant
  | toolResult
deriving DecidableEq

def Message.kind : Message → MessageKind
  | .user _ => .user
  | .assistant _ => .assistant
  | .toolResult _ => .toolResult

/-- A pass over the messages one by one that keeps each one's kind. -/
theorem map_kinds {f : Message → Message} (h : ∀ m, (f m).kind = m.kind) (ms : List Message) :
    (ms.map f).map Message.kind = ms.map Message.kind := by
  rw [List.map_map]
  exact List.map_congr_left fun m _ => h m

theorem downgradeImages_kinds (ms : List Message) :
    (downgradeImages ms).map Message.kind = ms.map Message.kind :=
  map_kinds (fun m => by cases m <;> rfl) ms

theorem downgradeVideoAudio_kinds (options : TransformOptions) (ms : List Message) :
    (downgradeVideoAudio options ms).map Message.kind = ms.map Message.kind := by
  unfold downgradeVideoAudio
  split
  · rfl
  · exact map_kinds (fun m => by cases m <;> rfl) ms

theorem downgradeToolResultMedia_kinds (ms : List Message) :
    (downgradeToolResultMedia ms).map Message.kind = ms.map Message.kind :=
  map_kinds (fun m => by cases m <;> rfl) ms

theorem removeThinkingBlocks_kinds (ms : List Message) :
    (removeThinkingBlocks ms).map Message.kind = ms.map Message.kind :=
  map_kinds (fun m => by cases m <;> rfl) ms

theorem renameResults_kinds (idMap : List (String × String)) (ms : List Message) :
    (renameResults idMap ms).map Message.kind = ms.map Message.kind :=
  map_kinds (fun m => by cases m <;> rfl) ms

theorem renameAssistants_kinds {ms : List Message} :
    ∀ {out}, renameAssistants ms = some out → out.1.map Message.kind = ms.map Message.kind := by
  induction ms with
  | nil =>
    intro out h
    cases h
    rfl
  | cons m rest ih =>
    intro out h
    cases m with
    | assistant a =>
      obtain ⟨renamed, _, h⟩ := Option.bind_eq_some_iff.mp h
      obtain ⟨later, hlater, rfl⟩ := Option.map_eq_some_iff.mp h
      simp only [List.map_cons, ih hlater]
      rfl
    | user _ | toolResult _ =>
      obtain ⟨later, hlater, rfl⟩ := Option.map_eq_some_iff.mp h
      simp only [List.map_cons, ih hlater]

theorem normalizeToolCallIds_kinds {ms out : List Message}
    (h : normalizeToolCallIds ms = some out) :
    out.map Message.kind = ms.map Message.kind := by
  obtain ⟨renamed, hrenamed, rfl⟩ := Option.map_eq_some_iff.mp h
  rw [renameResults_kinds, renameAssistants_kinds hrenamed]

theorem rewriteMessages_kinds {options : TransformOptions} {ms out : List Message}
    (h : rewriteMessages options ms = some out) : out.map Message.kind = ms.map Message.kind := by
  rw [normalizeToolCallIds_kinds h]
  have hthinking : ∀ l : List Message,
      (if options.preserveThinking then l else removeThinkingBlocks l).map Message.kind =
        l.map Message.kind := by
    intro l
    split
    · rfl
    · exact removeThinkingBlocks_kinds l
  rw [hthinking, downgradeToolResultMedia_kinds, downgradeVideoAudio_kinds]
  split
  · rfl
  · exact downgradeImages_kinds ms

/-! ## The pass that puts messages in -/

/-- The message before the `k`th. -/
def previous (ms : List Message) : Nat → Option Message
  | 0 => none
  | k + 1 => ms[k]?

/-- What the loop asks before it makes up a message: the `k`th message is a
tool result, and the one before it is not an assistant's. -/
def bareAt (ms : List Message) (k : Nat) : Bool :=
  ms[k]?.any Message.isToolResult && !(previous ms k).any Message.isAssistant

/-- The output by what each entry stands for: message `i`, or a message of the
pass itself before message `i`. -/
def padTrace (ms : List Message) : List (Padded Nat) :=
  Padded.pad (bareAt ms) (List.range ms.length)

/-- The message an entry is, for the rewritten messages `ms`. -/
def place (clock : Nat → SystemTime) (ms : List Message) : Padded Nat → Option Message
  | .filler i => some (syntheticAssistant (clock i))
  | .item i => ms[i]?

/-- A question that the kind alone decides. -/
theorem any_eq_of_kind {p : Message → Bool} (h : ∀ m m', m.kind = m'.kind → p m = p m')
    {o o' : Option Message} (ho : o.map Message.kind = o'.map Message.kind) :
    o.any p = o'.any p := by
  cases o with
  | none =>
    cases o' with
    | none => rfl
    | some m' => cases ho
  | some m =>
    cases o' with
    | none => cases ho
    | some m' => exact h m m' (Option.some.inj ho)

theorem isToolResult_of_kind (m m' : Message) (h : m.kind = m'.kind) :
    m.isToolResult = m'.isToolResult := by
  cases m <;> cases m' <;> first | rfl | cases h

theorem isAssistant_of_kind (m m' : Message) (h : m.kind = m'.kind) :
    m.isAssistant = m'.isAssistant := by
  cases m <;> cases m' <;> first | rfl | cases h

theorem bareAt_congr {ms out : List Message} (h : out.map Message.kind = ms.map Message.kind) :
    bareAt out = bareAt ms := by
  have hkind : ∀ k : Nat, out[k]?.map Message.kind = ms[k]?.map Message.kind := by
    intro k
    rw [← List.getElem?_map, ← List.getElem?_map, h]
  have hprevious : ∀ k, (previous out k).map Message.kind = (previous ms k).map Message.kind := by
    intro k
    cases k with
    | zero => rfl
    | succ k => exact hkind k
  funext k
  rw [bareAt, bareAt, any_eq_of_kind isToolResult_of_kind (hkind k),
    any_eq_of_kind isAssistant_of_kind (hprevious k)]

/-- The loop, from the message after those of `before` on. -/
theorem padFrom_eq (clock : Nat → SystemTime) (rest : List Message) :
    ∀ before : List Message,
      (padFrom clock before.length
          ((previous (before ++ rest) before.length).any Message.isAssistant) rest).map some =
        (Padded.pad (bareAt (before ++ rest)) (List.range' before.length rest.length)).map
          (place clock (before ++ rest)) := by
  induction rest with
  | nil => simp [padFrom, Padded.pad]
  | cons msg rest ih =>
    intro before
    have hmsg : (before ++ msg :: rest)[before.length]? = some msg := by simp
    have hprevious : previous (before ++ msg :: rest) (before.length + 1) = some msg := hmsg
    have hbare : bareAt (before ++ msg :: rest) before.length = (msg.isToolResult &&
        !(previous (before ++ msg :: rest) before.length).any Message.isAssistant) := by
      rw [bareAt, hmsg]
      rfl
    have hrest := ih (before ++ [msg])
    rw [List.append_assoc, List.singleton_append, List.length_append, List.length_singleton,
      hprevious] at hrest
    rw [List.length_cons, List.range'_succ, Padded.pad_cons, padFrom, List.map_append,
      List.map_append, List.map_cons, List.map_cons, hbare]
    rw [Option.any_some] at hrest
    rw [hrest]
    congr 1
    · split <;> rfl
    · rw [place, hmsg]

theorem padOrphanToolResults_eq (clock : Nat → SystemTime) (ms : List Message) :
    (padOrphanToolResults clock ms).map some = (padTrace ms).map (place clock ms) := by
  rw [padTrace, List.range_eq_range']
  exact padFrom_eq clock ms []

theorem transformMessages_eq {options : TransformOptions} {clock : Nat → SystemTime}
    {ms out : List Message} (h : transformMessages options clock ms = some out) :
    ∃ rewritten, rewriteMessages options ms = some rewritten ∧
      rewritten.map Message.kind = ms.map Message.kind ∧
      out.map some = (padTrace ms).map (place clock rewritten) := by
  obtain ⟨rewritten, hrewritten, rfl⟩ := Option.map_eq_some_iff.mp h
  have hkinds := rewriteMessages_kinds hrewritten
  have hlength : rewritten.length = ms.length := by simpa using congrArg List.length hkinds
  refine ⟨rewritten, hrewritten, hkinds, ?_⟩
  rw [padOrphanToolResults_eq, padTrace, padTrace, bareAt_congr hkinds, hlength]

/-! ## Results and the message that calls for them -/

def Message.hasCall (m : Message) (id : String) : Bool :=
  match m with
  | .assistant a => a.toolCalls.any fun tc => tc.id = id
  | _ => false

/-- Message `a` is an assistant's and contains the call that message `i` is the
result of. -/
def CallOf (ms : List Message) (a i : Nat) : Prop :=
  ∃ m result, ms[a]? = some m ∧ ms[i]? = some (.toolResult result) ∧
    m.hasCall result.toolCallId = true

/-- The last such message before the result, the one it is a result of. -/
def CallerOf (ms : List Message) (a i : Nat) : Prop :=
  a < i ∧ CallOf ms a i ∧ ∀ b, a < b → b < i → ¬ CallOf ms b i

/-- Messages `i` and `j` are results of one assistant message. -/
def SameCaller (ms : List Message) (i j : Nat) : Prop := ∃ a, CallerOf ms a i ∧ CallerOf ms a j

/-- Every tool result follows, through other tool results only, an assistant
message that contains its call. -/
def Grouped (ms : List Message) : Prop :=
  ∀ i result, ms[i]? = some (.toolResult result) →
    ∃ a < i, CallOf ms a i ∧
      ∀ k, a < k → k < i → ∃ other, ms[k]? = some (.toolResult other)

/-- Between two results of one assistant message, the later one included, no
result stands right after anything but an assistant message. -/
def OneByOne (ms : List Message) : Prop :=
  ∀ i j, i < j → SameCaller ms i j → ∀ k, i < k → k ≤ j → bareAt ms k = false

theorem CallOf.assistant {ms : List Message} {a i : Nat} (h : CallOf ms a i) :
    ∃ m, ms[a]? = some (.assistant m) := by
  obtain ⟨m, _, hm, _, hcall⟩ := h
  cases m with
  | assistant m => exact ⟨m, hm⟩
  | user _ | toolResult _ => cases hcall

/-- In a grouped list the message a result follows is the one it is a result
of: what stands between are results. -/
theorem CallOf.caller {ms : List Message} {a i : Nat} (h : CallOf ms a i) (hlt : a < i)
    (hresults : ∀ k, a < k → k < i → ∃ other, ms[k]? = some (.toolResult other)) :
    CallerOf ms a i := by
  refine ⟨hlt, h, ?_⟩
  intro b hab hbi hb
  obtain ⟨m, hm⟩ := hb.assistant
  obtain ⟨other, hother⟩ := hresults b hab hbi
  rw [hm] at hother
  cases hother

theorem bareAt_iff {ms : List Message} {k : Nat} :
    bareAt ms k = true ↔
      (∃ result, ms[k]? = some (.toolResult result)) ∧
        ∀ m, previous ms k ≠ some (.assistant m) := by
  rw [bareAt, Bool.and_eq_true, Bool.not_eq_true']
  apply and_congr
  · cases hk : ms[k]? with
    | none => simp
    | some m => cases m <;> simp [Message.isToolResult]
  · cases hk : previous ms k with
    | none => simp
    | some m => cases m <;> simp [Message.isAssistant]

/-- A bare result of a grouped list stands right after another result of its
assistant message. -/
theorem Grouped.same_of_bare {ms : List Message} {k : Nat} (h : Grouped ms)
    (hbare : bareAt ms k = true) : ∃ i, k = i + 1 ∧ SameCaller ms i k := by
  obtain ⟨⟨result, hresult⟩, hprevious⟩ := bareAt_iff.mp hbare
  obtain ⟨a, hak, hcall, hbetween⟩ := h k result hresult
  cases k with
  | zero => omega
  | succ i =>
    refine ⟨i, rfl, ?_⟩
    obtain ⟨m, hm⟩ := hcall.assistant
    have hai : a < i := by
      rcases Nat.lt_or_ge a i with hlt | hge
      · exact hlt
      · have heq : a = i := by omega
        subst heq
        exact absurd hm (hprevious m)
    obtain ⟨other, hother⟩ := hbetween i hai (Nat.lt_succ_self i)
    obtain ⟨b, hbi, hcall', hbetween'⟩ := h i other hother
    obtain ⟨m', hm'⟩ := hcall'.assistant
    -- Neither of the two messages can stand among the other's results.
    have hba : b = a := by
      rcases Nat.lt_trichotomy b a with hlt | heq | hgt
      · obtain ⟨_, hresult'⟩ := hbetween' a hlt hai
        rw [hm] at hresult'
        cases hresult'
      · exact heq
      · obtain ⟨_, hresult'⟩ := hbetween b hgt (Nat.lt_succ_of_lt hbi)
        rw [hm'] at hresult'
        cases hresult'
    subst hba
    exact ⟨b, hcall'.caller hbi hbetween', hcall.caller hak hbetween⟩

theorem CallOf.lt_length {ms : List Message} {a i : Nat} (h : CallOf ms a i) : i < ms.length := by
  obtain ⟨_, _, _, hi, _⟩ := h
  exact (List.getElem?_eq_some_iff.mp hi).1

theorem range'_split (s : Nat) {m n : Nat} (h : m < n) :
    List.range' s n = List.range' s m ++ (s + m) :: List.range' (s + m + 1) (n - m - 1) := by
  rw [← List.range'_succ, List.range'_append_1]
  congr 1
  omega

/-- What the pass puts between two messages, it puts before one of those after
the first, up to the second. -/
theorem between_padTrace {ms : List Message} {i j : Nat} (hij : i < j) (hj : j < ms.length) :
    (∀ x ∈ Padded.between i j (padTrace ms), x.isFiller = false) ↔
      ∀ k, i < k → k ≤ j → bareAt ms k = false := by
  have hrange : List.range ms.length = List.range i ++ i :: (List.range' (i + 1) (j - i - 1) ++
      j :: List.range' (j + 1) (ms.length - j - 1)) := by
    have hfirst := range'_split 0 (Nat.lt_trans hij hj)
    have hsecond := range'_split (i + 1) (show j - i - 1 < ms.length - i - 1 by omega)
    rw [show i + 1 + (j - i - 1) = j by omega,
      show ms.length - i - 1 - (j - i - 1) - 1 = ms.length - j - 1 by omega] at hsecond
    rw [Nat.zero_add, hsecond] at hfirst
    rw [List.range_eq_range', List.range_eq_range', hfirst]
  rw [padTrace, hrange, Padded.forall_between_iff (by simp) (by simp [List.mem_range']; omega)]
  constructor
  · intro h k hik hkj
    apply h
    simp [List.mem_range'_1]
    omega
  · intro h k hk
    simp [List.mem_range'_1] at hk
    apply h <;> omega

/-- Where results come one by one, a grouped list is left as it is. -/
theorem Grouped.not_padded {ms : List Message} (h : Grouped ms) (hone : OneByOne ms) :
    ∀ x ∈ padTrace ms, x.isFiller = false := by
  rw [padTrace, Padded.forall_pad_iff]
  intro k _
  by_contra hbare
  obtain ⟨i, rfl, hsame⟩ := h.same_of_bare (by simpa using hbare)
  exact hbare (hone i (i + 1) (Nat.lt_succ_self i) hsame _ (Nat.lt_succ_self i) (Nat.le_refl _))

theorem oneByOne_iff {ms : List Message} :
    OneByOne ms ↔ ∀ i j, i < j → SameCaller ms i j →
      ∀ x ∈ Padded.between i j (padTrace ms), x.isFiller = false := by
  have hbetween : ∀ i j, i < j → SameCaller ms i j →
      ((∀ x ∈ Padded.between i j (padTrace ms), x.isFiller = false) ↔
        ∀ k, i < k → k ≤ j → bareAt ms k = false) := by
    intro i j hij hsame
    obtain ⟨_, _, hj⟩ := hsame
    exact between_padTrace hij hj.2.1.lt_length
  constructor
  · intro h i j hij hsame
    exact (hbetween i j hij hsame).mpr (h i j hij hsame)
  · intro h i j hij hsame
    exact (hbetween i j hij hsame).mp (h i j hij hsame)

/-- The output of `transform_messages` is the rewritten messages with empty
assistant messages put in where `padTrace` says. None is put into a grouped
list, and none between two results of one assistant message, exactly where the
results of an assistant message come one by one. -/
theorem padding_iff (options : TransformOptions) (clock : Nat → SystemTime) (ms : List Message) :
    (∀ out, transformMessages options clock ms = some out →
      ∃ rewritten, rewriteMessages options ms = some rewritten ∧
        rewritten.map Message.kind = ms.map Message.kind ∧
        out.map some = (padTrace ms).map (place clock rewritten)) ∧
    (((Grouped ms → ∀ x ∈ padTrace ms, x.isFiller = false) ∧
      ∀ i j, i < j → SameCaller ms i j →
        ∀ x ∈ Padded.between i j (padTrace ms), x.isFiller = false) ↔
      OneByOne ms) := by
  refine ⟨fun out h => transformMessages_eq h, ?_⟩
  constructor
  · rintro ⟨_, hbetween⟩
    exact oneByOne_iff.mpr hbetween
  · intro hone
    exact ⟨fun hgrouped => hgrouped.not_padded hone, oneByOne_iff.mp hone⟩

/-! ## Two calls of one message -/

def callsOf (ids : List String) : Message :=
  .assistant
    { content := ids.map fun id => .toolCall ⟨id, "t", .null, none⟩
      provider := "p"
      api := ⟨"p", "m"⟩
      model := "m"
      usage := .zero
      stopReason := .toolUse
      responseId := none
      errorMessage := none
      timestamp := 0 }

def resultOf (id : String) : Message := .toolResult ⟨id, "t", [.text "r" none], none, false, 0⟩

/-- An assistant message with two calls and the two results: the second result
is taken for one without a call. -/
theorem parallel_results_padded :
    Grouped [callsOf ["a", "b"], resultOf "a", resultOf "b"] ∧
      SameCaller [callsOf ["a", "b"], resultOf "a", resultOf "b"] 1 2 ∧
      transformMessages ⟨none, true, true, true, true⟩ id
          [callsOf ["a", "b"], resultOf "a", resultOf "b"] =
        some [callsOf ["a", "b"], resultOf "a", syntheticAssistant 2, resultOf "b"] := by
  have hfirst : CallOf [callsOf ["a", "b"], resultOf "a", resultOf "b"] 0 1 :=
    ⟨_, _, rfl, rfl, by decide⟩
  have hsecond : CallOf [callsOf ["a", "b"], resultOf "a", resultOf "b"] 0 2 :=
    ⟨_, _, rfl, rfl, by decide⟩
  have hbetween : ∀ k, 0 < k → k < 2 →
      ∃ other, [callsOf ["a", "b"], resultOf "a", resultOf "b"][k]? = some (.toolResult other) := by
    intro k h0 h2
    rw [show k = 1 by omega]
    exact ⟨_, rfl⟩
  refine ⟨?_, ⟨0, hfirst.caller (by omega) (by omega), hsecond.caller (by omega) hbetween⟩, ?_⟩
  · intro i result hresult
    rcases i with _ | _ | _ | i
    · cases hresult
    · exact ⟨0, by omega, hfirst, by omega⟩
    · exact ⟨0, by omega, hsecond, hbetween⟩
    · cases hresult
  · decide

end Pandaria.Ai
