import Pandaria.Agent.Summary
import Pandaria.Proofs.CompactionEvents
import Pandaria.Proofs.StreamText

/-!
# What of a stream is in the summary

A summary is read off its stream by another rule than a response. The deltas are
put together as they come, and `Done` replaces them by the text blocks of its
message, whether it has any or not; an agent loop keeps what it has collected when
the message is empty. No provider puts a text into that message (`noText_run`). So
a stream that ends in `Done` leaves no summary, and one that is cut before it does.
-/

namespace Pandaria.Agent

open Pandaria.Ai

variable {env : Env} {ifEmpty text : String} {w : World}
  {body rest events : List AssistantMessageEvent} {reason : StopReason} {m : AssistantMessage}

/-- The text deltas of a stream. -/
def textDeltas (events : List AssistantMessageEvent) : List String :=
  events.filterMap fun
    | .textDelta _ delta => some delta
    | _ => none

def streamedText (events : List AssistantMessageEvent) : String := String.join (textDeltas events)

/-- The text blocks of a message, a line each. -/
def joinedText (content : List Content) : String := "\n".intercalate (textBlocks content)

/-! ## The stream of a summary -/

/-- Before a terminal event the text of a summary grows by the deltas. -/
theorem summaryEvent_quiet {e : AssistantMessageEvent} (he : e.isTerminal = false) :
    summaryEvent text e = .ok (text ++ streamedText [e]) := by
  cases e with
  | textDelta i delta =>
      have hjoin : streamedText [.textDelta i delta] = delta := by
        simp [streamedText, textDeltas]
      rw [hjoin]
      rfl
  | done | error => cases he
  | _ =>
      have hnone : text = text ++ "" := String.append_empty.symm
      exact congrArg Except.ok hnone

theorem streamedText_cons (e : AssistantMessageEvent) (rest : List AssistantMessageEvent) :
    streamedText (e :: rest) = streamedText [e] ++ streamedText rest := by
  rw [streamedText, streamedText, streamedText, ← String.join_append, textDeltas, textDeltas,
    textDeltas, ← List.filterMap_append]
  rfl

theorem readSummary_append (hq : Quiet body) (text : String) (w : World) :
    ∃ w', readSummary env ifEmpty (body ++ rest) text w =
      readSummary env ifEmpty rest (text ++ streamedText body) w' := by
  induction body generalizing text w with
  | nil =>
      refine ⟨w, ?_⟩
      have hnone : text ++ streamedText [] = text := String.append_empty
      rw [hnone]
      rfl
  | cons e body ih =>
      obtain ⟨w', hw'⟩ := ih (fun e' h => hq e' (List.mem_cons_of_mem _ h))
        (text ++ streamedText [e]) (w.tick env)
      refine ⟨w', ?_⟩
      rw [streamedText_cons, ← String.append_assoc, ← hw', List.cons_append, readSummary,
        summaryEvent_quiet (hq e List.mem_cons_self)]

/-- `Done` leaves nothing of the deltas. -/
theorem readSummary_done (hq : Quiet body) (reason : StopReason) (m : AssistantMessage) :
    (readSummary env ifEmpty (body ++ [.done reason m]) text w).1 =
      endSummary ifEmpty (.ok (joinedText m.content)) := by
  obtain ⟨w', hw'⟩ := @readSummary_append env ifEmpty body [.done reason m] hq text w
  rw [hw']
  rfl

/-- A stream that is cut leaves all of them. -/
theorem readSummary_cut (hq : Quiet body) :
    (readSummary env ifEmpty body text w).1 =
      endSummary ifEmpty (.ok (text ++ streamedText body)) := by
  obtain ⟨w', hw'⟩ := @readSummary_append env ifEmpty body [] hq text w
  rw [List.append_nil] at hw'
  rw [hw']
  rfl

theorem endSummary_eq_ok_iff {said expected : String} (hne : expected ≠ "") :
    endSummary ifEmpty (.ok said) = .ok expected ↔ said = expected := by
  have hend : endSummary ifEmpty (.ok said) =
      if said.isEmpty then .error (.llmError ifEmpty) else .ok said := rfl
  rw [hend]
  by_cases hempty : said.isEmpty
  · rw [if_pos hempty, String.isEmpty_iff.mp hempty]
    refine iff_of_false (fun h => ?_) hne.symm
    cases h
  · rw [if_neg hempty]
    exact ⟨fun h => Except.ok.inj h, fun h => congrArg _ h⟩

/-! ## The message of `Done` -/

/-- A text block is a block. -/
theorem textBlocks_eq_nil {content : List Content} (h : ∀ text, .text text ∉ blocks content) :
    textBlocks content = [] := by
  refine List.filterMap_eq_nil_iff.mpr fun c hc => ?_
  cases c with
  | text text signature =>
      have hmem : .text text ∈ blocks content := List.mem_filterMap.mpr ⟨_, hc, rfl⟩
      exact absurd hmem (h text)
  | _ => rfl

/-- No provider says anything in the message of `Done`. -/
theorem noText_run {penv : ProviderEnv} {run : ProviderRun}
    (h : .done reason m ∈ run.events penv) : textBlocks m.content = [] := by
  cases hf : fillsMessage run with
  | false =>
      rw [doneWith_run_empty hf reason m h]
      rfl
  | true =>
      refine textBlocks_eq_nil fun text hmem => ?_
      rw [(doneWith_run_filled hf reason m h).blocks_eq] at hmem
      obtain ⟨e, -, he⟩ := List.mem_filterMap.mp hmem
      cases e <;> cases he

/-! ## The two readings -/

/-- The response an agent loop puts together from the same stream. -/
theorem content_readAll_done (cfg : AgentLoopConfig) (hq : Quiet body) :
    ((PartialReply.start cfg).readAll (body ++ [.done reason m])).content =
      if m.content = [] then ((PartialReply.start cfg).readAll body).content else m.content := by
  rw [readAll_append hq]
  simp only [PartialReply.readAll, PartialReply.take, List.isEmpty_iff]

/-- A summary says what a response says exactly when `Done` says something. -/
theorem endSummary_eq_reply_iff (cfg : AgentLoopConfig) (hq : Quiet body) :
    endSummary ifEmpty (.ok (joinedText m.content)) =
        .ok (joinedText ((PartialReply.start cfg).readAll (body ++ [.done reason m])).content) ↔
      joinedText m.content ≠ "" := by
  rw [content_readAll_done cfg hq]
  constructor
  · intro h hempty
    rw [hempty] at h
    cases h
  · intro hne
    have hcontent : m.content ≠ [] := by
      intro hnil
      rw [hnil] at hne
      exact hne rfl
    rw [if_neg hcontent]
    exact (endSummary_eq_ok_iff hne).mpr rfl

/-- A summary whose stream is ended by `Done` is the streamed text exactly when the
text blocks of its message are; it is the text of the response an agent loop would
read off that stream exactly when there is a text in them. With a provider there is
none, and no summary. -/
theorem summary_streamed_iff (p : CompactionPreparation) (cfg : AgentLoopConfig) (env : Env)
    (w : World) (hq : Quiet body) (hne : streamedText body ≠ "")
    (hstream : env.stream (w.now + 1) = .ok (body ++ [.done reason m])) :
    ∀ task ∈ [historySummary p, turnPrefixSummary p],
      ((task.finish env w).1 = .ok (streamedText body) ↔
        joinedText m.content = streamedText body) ∧
      ((task.finish env w).1 = .ok (joinedText
          ((PartialReply.start cfg).readAll (body ++ [.done reason m])).content) ↔
        joinedText m.content ≠ "") ∧
      (∀ penv run, ProviderRun.events penv run = body ++ [.done reason m] →
        ∃ e, (task.finish env w).1 = .error e) := by
  have hfinish (prompt ifEmpty : String) :
      ((SummaryTask.prompting prompt ifEmpty).finish env w).1 =
        endSummary ifEmpty (.ok (joinedText m.content)) := by
    have hawait : ((requestSummary env prompt w).await env env.stream).1 =
        .ok (body ++ [.done reason m]) := hstream
    rw [SummaryTask.finish, SummaryTask.receive]
    generalize (requestSummary env prompt w).await env env.stream = answer at hawait ⊢
    obtain ⟨result, w'⟩ := answer
    subst hawait
    exact readSummary_done hq reason m
  intro task htask
  have hprompting : ∃ prompt ifEmpty, task = .prompting prompt ifEmpty := by
    obtain rfl | htask := List.mem_cons.mp htask
    · exact ⟨_, _, rfl⟩
    · rw [List.mem_singleton.mp htask]
      exact ⟨_, _, rfl⟩
  obtain ⟨prompt, ifEmpty, rfl⟩ := hprompting
  rw [hfinish]
  refine ⟨endSummary_eq_ok_iff hne, endSummary_eq_reply_iff cfg hq, fun penv run hrun => ?_⟩
  have hdone : .done reason m ∈ run.events penv := by
    rw [hrun]
    exact List.mem_append_right _ (List.mem_singleton_self _)
  rw [joinedText, noText_run hdone]
  exact ⟨_, rfl⟩

/-- A history of nothing, to be summarised. -/
def emptyPreparation : CompactionPreparation :=
  { firstKeptEntryId := 0, messagesToSummarize := [], turnPrefixMessages := [],
    isSplitTurn := false, tokensBefore := 0, previousSummary := none, fileOps := ⟨[], [], []⟩ }

/-- The provider on Bedrock answers, and its answer is a response and no summary. -/
theorem not_summary_streamed :
    streamedText (bedrockEvents answerOnly) = "Forty-two" ∧
      ((historySummary emptyPreparation).finish (answeredBy (bedrockEvents answerOnly)) .fresh).1 =
        .error (.llmError "Summary generation returned empty text") ∧
      ((turnPrefixSummary emptyPreparation).finish
          (answeredBy (bedrockEvents answerOnly)) .fresh).1 =
        .error (.llmError "Turn prefix summary returned empty text") ∧
      ((PartialReply.start (plainConfig 0).loop).readAll (bedrockEvents answerOnly)).content =
        [.text "Forty-two" none] := by
  rw [bedrockEvents_answerOnly]
  exact ⟨by decide, rfl, rfl, rfl⟩

/-- The beginning of an answer. -/
def answerBody : List AssistantMessageEvent :=
  [.start, .textDelta 0 "Forty-two", .textEnd 0 "Forty-two"]

/-- With its text in the message of `Done` as well the answer is a summary; as it comes from
Bedrock it is none. -/
theorem summary_streamed_answer :
    ((historySummary emptyPreparation).finish (answeredBy (answerBody ++
        [.done .stop (plainReply [.text "Forty-two" none] .stop none)])) .fresh).1 =
      .ok "Forty-two" ∧
    ∃ e, ((historySummary emptyPreparation).finish
      (answeredBy (bedrockEvents answerOnly)) .fresh).1 = .error e := by
  constructor
  · have hiff := (@summary_streamed_iff answerBody .stop
      (plainReply [.text "Forty-two" none] .stop none) emptyPreparation (plainConfig 0).loop
      (answeredBy _) .fresh (by decide) (by decide) rfl _ List.mem_cons_self).1
    exact hiff.mpr (by decide)
  · have hevents : bedrockEvents answerOnly =
        [.start, .textStart 0, .textDelta 0 "Forty-two", .textEnd 0 "Forty-two"] ++
          [.done .stop (.blank "bedrock" "model" 0)] := bedrockEvents_answerOnly
    have hnone := (@summary_streamed_iff _ _ _ emptyPreparation (plainConfig 0).loop
      (answeredBy (bedrockEvents answerOnly)) .fresh (by decide) (by decide)
      (congrArg Except.ok hevents) _ List.mem_cons_self).2.2
    exact hnone _ _ hevents

end Pandaria.Agent

/-!
## A summary that fails

A call summarises the history at three places: before an attempt, where the context
strategy asks for it; right after a run; and in the check that ends it. All three are
made of the same pieces and treat a failure differently. The strategy has dropped the
entries by then and only warns; the one after a run ends the call with the error, and
the messages of the run are neither returned nor saved; the check reports it, and the
call goes on. `FailsAt` says where a summary fails, `Harmless` what is then expected.
-/

namespace Pandaria.Agent

open Pandaria.Ai

variable {cfg : SessionConfig} {env : Env}

/-! ### Compactions that fail -/

namespace SessionActor

/-- The history can be prepared and no hook has an answer of its own, but there is no
summary. -/
def summaryFails (cfg : SessionConfig) (env : Env) (reason : CompactReason) (a : SessionActor) :
    Bool :=
  (prepare cfg.compactor a.history.entries).isOk && !a.compacts cfg env reason

/-- A compaction that is not made leaves the history as it was. -/
theorem runAutoCompaction_of_fails {reason : CompactReason} (willRetry : Bool) {a : SessionActor}
    (h : a.summaryFails cfg env reason = true) :
    (∃ e, (a.runAutoCompaction cfg env reason willRetry).1 = .error e) ∧
      (a.runAutoCompaction cfg env reason willRetry).2.history = a.history := by
  obtain ⟨-, hno⟩ := Bool.and_eq_true_iff.mp h
  rw [Bool.not_eq_true', ← chooseCompaction_isOk] at hno
  rw [runAutoCompaction]
  split
  · next e w hc => exact ⟨⟨e, rfl⟩, rfl⟩
  · next hc =>
      rw [hc] at hno
      cases hno
  · next hc =>
      rw [hc] at hno
      cases hno

/-- The strategy asks for a summary of the history, and there is none. -/
def strategyFails (cfg : SessionConfig) (env : Env) (keepLastN : Nat) (a : SessionActor) : Prop :=
  a.strategy.context = .compact keepLastN ∧ keepLastN < a.history.entries.length ∧
    (prepare cfg.compactor a.history.entries).isOk = true ∧
    (Agent.compact cfg.compactor env a.history.entries a.world).1.isOk = false

theorem foldl_appendCompactionEntry (entries : List SessionEntry) (h : SessionHistory) :
    (entries.foldl SessionHistory.appendCompactionEntry h).entries = h.entries ++ entries := by
  induction entries generalizing h with
  | nil => exact (List.append_nil _).symm
  | cons e rest ih =>
      rw [List.foldl_cons, ih]
      exact List.append_assoc h.entries [e] rest

/-- A strategy that compacts drops what it does not keep, summary or no summary. -/
theorem applyContextStrategy_compact {keepLastN : Nat} {a : SessionActor}
    (hctx : a.strategy.context = .compact keepLastN)
    (hlen : keepLastN < a.history.entries.length) :
    (a.applyContextStrategy cfg env).history.entries =
      a.history.entries.drop (a.history.entries.length - keepLastN) := by
  rw [applyContextStrategy, hctx]
  simp only [if_pos hlen]
  exact foldl_appendCompactionEntry _ _

end SessionActor

/-- Everything has been handed to the store, if there is one. -/
def SessionHistory.Saved (h : SessionHistory) : Prop :=
  h.hasStore = true → h.lastSavedEntryCount = h.entries.length

/-- An incremental save goes through unless more has been saved than there is. -/
theorem SessionActor.persist_isSome_iff (a : SessionActor) :
    (∃ a', a.persist env = some a') ↔
      (a.history.hasStore = true → a.history.lastSavedEntryCount ≤ a.history.entries.length) := by
  have hsame : (if a.history.hasStore && a.history.lastSave then a.tick env else a).history =
      a.history := by
    split <;> rfl
  rw [SessionActor.persist]
  simp only [hsame, Option.map_eq_some_iff]
  obtain ⟨hs, hlt, hp⟩ | ⟨h', hp, -, -, hsaved⟩ | ⟨h', hp, -, -, -, hlt⟩ :=
    persistIncremental_cases a.history
  · rw [hp, hs]
    simp
    omega
  · rw [hp]
    exact iff_of_true ⟨_, _, rfl, rfl⟩ fun hs => Nat.le_of_eq (hsaved hs)
  · rw [hp]
    exact iff_of_true ⟨_, _, rfl, rfl⟩ fun _ => Nat.le_of_lt hlt

/-- And leaves nothing unsaved. -/
theorem SessionActor.persist_saved {a a' : SessionActor} (h : a.persist env = some a') :
    a'.history.Saved := by
  rw [SessionActor.persist] at h
  simp only [Option.map_eq_some_iff] at h
  obtain ⟨⟨h', slice⟩, hp, rfl⟩ := h
  obtain ⟨-, -, hnone⟩ | ⟨h'', hsome, hentries, hcount, hsaved⟩ |
      ⟨h'', hsome, hentries, hcount, -⟩ :=
    persistIncremental_cases
      (if a.history.hasStore && a.history.lastSave then a.tick env else a).history
  · rw [hnone] at hp
    cases hp
  · have hstore := persistIncremental_hasStore hp
    rw [hsome] at hp
    injection hp with hp
    injection hp with hp
    intro hs
    show h'.lastSavedEntryCount = h'.entries.length
    rw [← hp, hcount, hentries]
    exact hsaved (hstore ▸ hs)
  · rw [hsome] at hp
    injection hp with hp
    injection hp with hp
    intro hs
    show h'.lastSavedEntryCount = h'.entries.length
    rw [← hp, hcount, hentries]

/-! ### Where a summary fails -/

inductive CompactionSite where
  | strategy
  | afterRun
  | finalCheck
deriving DecidableEq

/-- The next step of a call asks for a summary, at this place, and there is none. -/
inductive FailsAt (cfg : SessionConfig) (env : Env) (c : Call) : CompactionSite → Prop where
  | strategy {g : GoalRun} {keepLastN : Nat} (hphase : c.phase = .attempt g)
      (hattempt : g.attempt < g.goal.maxAttempts)
      (hfails : c.actor.strategyFails cfg env keepLastN) : FailsAt cfg env c .strategy
  | afterRun {msgs : List AgentMessage} (hphase : c.phase = .threshold msgs)
      (hover : (cfg.compactor.config.enabled && c.actor.overThreshold cfg) = true)
      (hfails : c.actor.summaryFails cfg env .threshold = true) : FailsAt cfg env c .afterRun
  | finalCheck {msgs : List AgentMessage} (hphase : c.phase = .finish msgs)
      (hcheck : c.actor.lastCompaction cfg msgs = some .threshold)
      (hfails : c.actor.concludeRun.summaryFails cfg env .threshold = true) :
      FailsAt cfg env c .finalCheck

/-- The messages a run has produced, which are to be returned. -/
def Call.produced (c : Call) : Option (List AgentMessage) :=
  match c.phase with
  | .threshold msgs | .finish msgs => some msgs
  | _ => none

/-- The entries are those from before the step; the messages of the run are still to be
returned, or are returned and saved. -/
def Harmless (cfg : SessionConfig) (env : Env) (c : Call) : Prop :=
  (c.step cfg env).actor.history.entries = c.actor.history.entries ∧
    ∀ msgs, c.produced = some msgs →
      (c.step cfg env).phase = .finish msgs ∨
        (c.step cfg env = c.leave (c.step cfg env).actor (.ok msgs) ∧
          (c.step cfg env).actor.history.Saved)

/-! ### The three places -/

/-- A call that returns messages does not end with an error. -/
theorem Call.leave_ok_phase (c : Call) (a : SessionActor) (msgs : List AgentMessage) :
    (∀ e, (c.leave a (.ok msgs)).phase ≠ .returned (.error e)) ∧
      (c.leave a (.ok msgs)).phase ≠ .panicked := by
  obtain ⟨-, hphase | ⟨g, hphase⟩⟩ := Call.leave_spec c a (.ok msgs)
  · rw [hphase]
    simp
  · rw [hphase]
    simp

theorem not_harmless_strategy {c : Call} {g : GoalRun} {keepLastN : Nat}
    (hphase : c.phase = .attempt g) (hattempt : g.attempt < g.goal.maxAttempts)
    (hfails : c.actor.strategyFails cfg env keepLastN) : ¬ Harmless cfg env c := by
  rintro ⟨hentries, -⟩
  have hstep : c.step cfg env = Call.stepAttempt cfg env g c := by
    rw [Call.step, Call.stepWith, hphase]
  rw [hstep, Call.stepAttempt, if_pos hattempt] at hentries
  -- What is kept is shorter than what there was.
  have hkept := hentries.symm.trans
    (SessionActor.applyContextStrategy_compact hfails.1 hfails.2.1)
  have hlength := congrArg List.length hkept
  rw [List.length_drop] at hlength
  have hlt := hfails.2.1
  omega

theorem not_harmless_afterRun {c : Call} {msgs : List AgentMessage}
    (hphase : c.phase = .threshold msgs)
    (hover : (cfg.compactor.config.enabled && c.actor.overThreshold cfg) = true)
    (hfails : c.actor.summaryFails cfg env .threshold = true) : ¬ Harmless cfg env c := by
  rintro ⟨-, hanswers⟩
  obtain ⟨⟨e, he⟩, -⟩ := SessionActor.runAutoCompaction_of_fails false hfails
  have hstep : (c.step cfg env).phase = .returned (.error e) := by
    rw [Call.step, Call.stepWith, hphase]
    show (Call.stepThreshold cfg env msgs c).phase = _
    rw [Call.stepThreshold, if_pos hover]
    generalize c.actor.runAutoCompaction cfg env .threshold false = result at he ⊢
    obtain ⟨result, a⟩ := result
    subst he
    exact Call.leave_error c a e
  have hproduced : c.produced = some msgs := by
    rw [Call.produced, hphase]
  obtain hfinish | ⟨hleave, -⟩ := hanswers msgs hproduced
  · rw [hstep] at hfinish
    cases hfinish
  · rw [hleave] at hstep
    exact (Call.leave_ok_phase c _ msgs).1 e hstep

theorem harmless_finalCheck_iff {c : Call} {msgs : List AgentMessage}
    (hphase : c.phase = .finish msgs) (hcheck : c.actor.lastCompaction cfg msgs = some .threshold)
    (hfails : c.actor.concludeRun.summaryFails cfg env .threshold = true) :
    Harmless cfg env c ↔ (c.actor.history.hasStore = true →
      c.actor.history.lastSavedEntryCount ≤ c.actor.history.entries.length) := by
  obtain ⟨r, hfinish⟩ := @SessionActor.finishRun_of_some cfg env msgs c.actor _ hcheck
  have hhistory : (c.actor.finishRun cfg env msgs).history = c.actor.history := by
    have hfails' : (c.actor.concludeRun.withRecovery r).summaryFails cfg env .threshold = true :=
      hfails
    rw [hfinish, (SessionActor.runAutoCompaction_of_fails false hfails').2]
    rfl
  have hproduced : c.produced = some msgs := by
    rw [Call.produced, hphase]
  have hstep : c.step cfg env = Call.stepFinish cfg env msgs c := by
    rw [Call.step, Call.stepWith, hphase]
  have hsaves := @SessionActor.persist_isSome_iff env (c.actor.finishRun cfg env msgs)
  rw [hhistory] at hsaves
  rw [← hsaves, Harmless, hstep, Call.stepFinish]
  cases hpersist : (c.actor.finishRun cfg env msgs).persist env with
  | none =>
      refine iff_of_false (fun h => ?_) (fun h => by obtain ⟨a', h⟩ := h; cases h)
      obtain hfinish | ⟨hleave, -⟩ := h.2 msgs hproduced
      · cases hfinish
      · exact (Call.leave_ok_phase c _ msgs).2 (congrArg Call.phase hleave).symm
  | some a' =>
      have hactor : (c.leave a' (.ok msgs)).actor = a' := (Call.leave_spec c a' (.ok msgs)).1
      refine iff_of_true ⟨?_, ?_⟩ ⟨a', rfl⟩
      · show (c.leave a' (.ok msgs)).actor.history.entries = _
        rw [hactor, (SessionActor.persist_spec hpersist).2.1, hhistory]
      · intro msgs' hmsgs
        rw [hproduced] at hmsgs
        injection hmsgs with hmsgs
        subst hmsgs
        right
        show c.leave a' (.ok msgs) = c.leave (c.leave a' (.ok msgs)).actor (.ok msgs) ∧
          (c.leave a' (.ok msgs)).actor.history.Saved
        rw [hactor]
        exact ⟨rfl, SessionActor.persist_saved hpersist⟩

/-- A summary that fails is harmless exactly in the check that ends a run, and there as
long as no more has been saved than there is. -/
theorem failed_summary_harmless_iff {c : Call} {site : CompactionSite}
    (h : FailsAt cfg env c site) :
    Harmless cfg env c ↔ site = .finalCheck ∧ (c.actor.history.hasStore = true →
      c.actor.history.lastSavedEntryCount ≤ c.actor.history.entries.length) := by
  cases h with
  | strategy hphase hattempt hfails =>
      refine iff_of_false (not_harmless_strategy hphase hattempt hfails) ?_
      rintro ⟨h, -⟩
      cases h
  | afterRun hphase hover hfails =>
      refine iff_of_false (not_harmless_afterRun hphase hover hfails) ?_
      rintro ⟨h, -⟩
      cases h
  | finalCheck hphase hcheck hfails =>
      rw [harmless_finalCheck_iff hphase hcheck hfails]
      exact (and_iff_right rfl).symm

/-! ### A provider that answers once -/

/-- A context of ten tokens. -/
def narrowConfig : SessionConfig := { plainConfig 1 with contextWindow := 10 }

/-- A provider that answers the first call, at some length, and no other. -/
def answersOnce : Env :=
  { Env.quiet with
    stream := fun n =>
      if n < 12 then .ok (saying "a long answer to a short question, of more than ten tokens")
      else .error (.overloaded "busy") }

/-- A question, and its answer has been put into the history. -/
def longAnswered : Call :=
  (Call.step narrowConfig answersOnce)^[7]
    (.promptWithContent [.text "why?" none] (.new narrowConfig))

/-- A provider that does not answer. -/
def answersNever : Env := { Env.quiet with stream := fun _ => .error (.overloaded "busy") }

/-- A session with a goal that summarises all but its last entry before each attempt. -/
def keepingOne : Call :=
  Call.runGoalSync "fix it" { criteria := [], maxAttempts := 1, onExhausted := .returnLast }
    { plainSession narrowConfig [userText "why?", .assistant (plainReply [] .stop none)] with
      strategy := { SessionStrategy.default with context := .compact 1 } }

/-- After the run the answer is neither returned nor saved; before an attempt the question
is gone. -/
theorem not_harmless :
    (FailsAt narrowConfig answersOnce longAnswered .afterRun ∧
      longAnswered.actor.history.entries.length = 2 ∧
      (longAnswered.step narrowConfig answersOnce).phase =
        .returned (.error (.compactionFailed "llm error: provider overloaded: busy")) ∧
      ¬ Harmless narrowConfig answersOnce longAnswered) ∧
    (FailsAt narrowConfig answersNever keepingOne .strategy ∧
      (keepingOne.step narrowConfig answersNever).actor.history.entries =
        keepingOne.actor.history.entries.drop 1 ∧
      ¬ Harmless narrowConfig answersNever keepingOne) := by
  have hafter : FailsAt narrowConfig answersOnce longAnswered .afterRun := .afterRun rfl rfl rfl
  have hstrategy : FailsAt narrowConfig answersNever keepingOne .strategy :=
    .strategy rfl (by decide) ⟨rfl, by decide, rfl, rfl⟩
  refine ⟨⟨hafter, rfl, rfl, ?_⟩, hstrategy, rfl, ?_⟩
  · exact not_harmless_afterRun rfl rfl rfl
  · exact not_harmless_strategy rfl (by decide) ⟨rfl, by decide, rfl, rfl⟩

/-- A long answer that is to be returned, and then the check. -/
def checkedLast : Call :=
  .begin (plainSession narrowConfig [userText "why?",
    .assistant (plainReply [.text "a long answer to a short question, of more than ten tokens" none]
      .stop none)])
    (.finish [.assistant (plainReply [] .stop none)])

theorem harmless_checkedLast : Harmless narrowConfig answersNever checkedLast :=
  (failed_summary_harmless_iff (.finalCheck rfl rfl rfl)).mpr ⟨rfl, fun h => by cases h⟩

end Pandaria.Agent
