import Pandaria.Proofs.CallNames
import Pandaria.Proofs.NextRequest
import Pandaria.Proofs.Orphans
import Pandaria.Proofs.StreamText

/-!
# The ids of a session

Calls and results are paired by id over all the messages of a session, while the
ids of calls are made response by response. A session is a list of prompts here,
each the run of an agent loop, as far as it has come. The ids of its calls are
those the responses bring, so they are all different exactly when the names of
the responses are apart. Two responses of Gemini that call a tool never are.
-/

namespace Pandaria.Agent

open Pandaria.Ai Pandaria.Lib

/-! ## The calls of a response -/

def contentCalls (content : List Content) : List ToolCall :=
  content.filterMap fun
    | .toolCall tc => some tc
    | _ => none

theorem toolCalls_eq (m : AssistantMessage) : m.toolCalls = contentCalls m.content := rfl

theorem contentCalls_append (xs ys : List Content) :
    contentCalls (xs ++ ys) = contentCalls xs ++ contentCalls ys :=
  List.filterMap_append

theorem readAll_calls {events : List AssistantMessageEvent} (hq : Quiet events)
    (r : PartialReply) :
    contentCalls (r.readAll events).content =
      contentCalls r.content ++ (sentCalls events).map Prod.snd := by
  induction events generalizing r with
  | nil => exact (List.append_nil _).symm
  | cons e events ih =>
      have he := hq e List.mem_cons_self
      have hrest := ih (fun e' h => hq e' (List.mem_cons_of_mem _ h))
      cases e with
      | error m => cases he
      | done reason m => cases he
      | toolCallEnd i tc =>
          show contentCalls ((r.take (.toolCallEnd i tc)).readAll events).content = _
          rw [hrest, PartialReply.take, contentCalls_append, List.append_assoc]
          rfl
      | textEnd i text =>
          show contentCalls ((r.take (.textEnd i text)).readAll events).content = _
          rw [hrest, PartialReply.take, contentCalls_append]
          rw [show contentCalls [.text ((r.textAccum i).getD text) none] = [] from rfl,
            List.append_nil]
          rfl
      | _ =>
          rw [PartialReply.readAll, hrest]
          · rfl
          · intro m hm
            cases hm

/-- A response has the calls of its stream. -/
theorem calls_of_run (cfg : AgentLoopConfig) (penv : ProviderEnv) {run : ProviderRun}
    (h : run.numbersCalls = true) :
    contentCalls ((PartialReply.start cfg).readAll (run.events penv)).content =
      (sentCalls (run.events penv)).map Prod.snd := by
  have hfills : fillsMessage run = false := by cases run <;> first | rfl | cases h
  have hdone : DoneWith (fun _ m => m.content = []) (run.events penv) := doneWith_run_empty hfills
  have hcloses := run.events_closes penv
  generalize run.events penv = events at hdone hcloses ⊢
  generalize run.closesAfter penv = b at hcloses
  cases hcloses with
  | cut hquiet => exact readAll_calls hquiet _
  | @closed body last hquiet hlast =>
      have hbody := readAll_calls hquiet (PartialReply.start cfg)
      rw [readAll_append hquiet, sentCalls_append, List.map_append]
      cases last with
      | done reason m =>
          have hempty : m.content = [] :=
            hdone reason m (List.mem_append.mpr (.inr List.mem_cons_self))
          show contentCalls (if m.content.isEmpty then _ else m.content) = _
          rw [hempty]
          exact hbody.trans (List.append_nil _).symm
      | error m => exact hbody.trans (List.append_nil _).symm
      | _ => cases hlast

/-! ## The responses of a run -/

variable {cfg : AgentLoopConfig} {env : Env}

def response? : AgentMessage → Option AssistantMessage
  | .assistant a => some a
  | _ => none

def responses (messages : List AgentMessage) : List AssistantMessage :=
  messages.filterMap response?

theorem responses_append (xs ys : List AgentMessage) :
    responses (xs ++ ys) = responses xs ++ responses ys :=
  List.filterMap_append

theorem responses_toolResults (results : List ToolResultMessage) :
    responses (results.map .toolResult) = [] := by
  rw [responses, List.filterMap_map]
  exact List.filterMap_eq_nil_iff.mpr fun _ _ => rfl

/-- Nobody has queued a response. -/
def Plain (w : World) : Prop := responses w.steerQueue = [] ∧ responses w.followUpQueue = []

/-- And nobody will. -/
def PlainArrivals (env : Env) : Prop :=
  ∀ n, responses (env.steer n) = [] ∧ responses (env.followUp n) = []

theorem Plain.activity {allow : Allow} {w w' : World} (h : Plain w) (harrive : PlainArrivals env)
    (hact : Activity env allow w w') : Plain w' := by
  induction hact with
  | refl => exact h
  | observe o _ _ ih => exact ih
  | newId _ ih => exact ih
  | @tick w₁ _ ih =>
      obtain ⟨hsteer, hfollow⟩ := harrive w₁.now
      refine ⟨?_, ?_⟩
      · show responses (w₁.steerQueue ++ env.steer w₁.now) = []
        rw [responses_append, ih.1, hsteer]
        rfl
      · show responses (w₁.followUpQueue ++ env.followUp w₁.now) = []
        rw [responses_append, ih.2, hfollow]
        rfl

/-- A response has been read off a stream of the provider, and no hook has
changed what is in it. -/
def Brought (cfg : AgentLoopConfig) (env : Env) (reply : AssistantMessage) : Prop :=
  ∃ t events, env.stream t = .ok events ∧
    reply.content = ((PartialReply.start cfg).readAll events).content

theorem receiveResponse_brought {s s' : LoopLocals} {reply : AssistantMessage}
    (hhooks : ∀ n, (env.onAfterProviderResponse n).content = none)
    (h : receiveResponse cfg env s = (.ok reply, s')) :
    Brought cfg env reply ∧ s'.newMessages = s.newMessages ++ [.assistant reply] := by
  rw [receiveResponse] at h
  simp only [] at h
  split at h
  · injection h with h _
    cases h
  · next n answer w hcall =>
      obtain ⟨t, events, w₁, w₂, r, hstream, hread, hreply⟩ := callLlmWithRetry_ok hcall
      injection h with hr hs
      injection hr with hr
      refine ⟨⟨t, events, hstream, ?_⟩, ?_⟩
      · rw [← hr]
        show ((env.onAfterProviderResponse w.now).content).getD answer.content = _
        rw [hhooks, Option.getD_none, hreply, ← readStream_ok hread]
        rfl
      · rw [← hs, ← hr]
        rfl

namespace AgentLoop

/-- A step adds one response, or none. -/
theorem responses_step (l : AgentLoop) (hplain : Plain l.locals.world)
    (hhooks : ∀ n, (env.onAfterProviderResponse n).content = none) :
    responses (step cfg env l).locals.newMessages = responses l.locals.newMessages ∨
      ∃ reply, Brought cfg env reply ∧
        responses (step cfg env l).locals.newMessages =
          responses l.locals.newMessages ++ [reply] := by
  obtain ⟨phase, s⟩ := l
  cases phase with
  | outer =>
      refine .inl ?_
      show responses (s.newMessages ++ s.world.steerQueue) = _
      rw [responses_append, hplain.1]
      exact List.append_nil _
  | inner =>
      rw [step]
      simp only []
      split
      · exact .inl rfl
      · obtain ⟨-, -, hnew⟩ := receiveResponse_cases cfg env s
        cases hrec : receiveResponse cfg env s with
        | mk result s' =>
            cases result with
            | error e =>
                rw [hrec] at hnew
                obtain ⟨e', -, hnew⟩ | ⟨reply, hreply, -⟩ := hnew
                · exact .inl (congrArg responses hnew)
                · cases hreply
            | ok reply =>
                obtain ⟨hbrought, hadd⟩ := receiveResponse_brought hhooks hrec
                refine .inr ⟨reply, hbrought, ?_⟩
                show responses s'.newMessages = _
                rw [hadd, responses_append]
                rfl
  | responded reply =>
      rw [step]
      simp only []
      cases hfinish : finishTurn cfg env reply s with
      | none => exact .inl rfl
      | some rs =>
          obtain ⟨r, s'⟩ := rs
          have hsame : responses s'.newMessages = responses s.newMessages := by
            obtain ⟨-, -, ⟨e, -, -, hnew⟩ | ⟨-, -, -, hnew⟩ | ⟨results, w, -, -, -, -, hnew⟩⟩ :=
              finishTurn_cases hfinish
            · rw [hnew]
            · rw [hnew]
            · rw [hnew, responses_append, responses_toolResults]
              exact List.append_nil _
          cases r <;> exact .inl hsame
  | stopped =>
      rw [step]
      simp only []
      split
      · exact .inl rfl
      · refine .inl ?_
        show responses (s.newMessages ++ s.world.followUpQueue) = _
        rw [responses_append, hplain.2]
        exact List.append_nil _
  | returned result => exact .inl rfl
  | panicked => exact .inl rfl

theorem plain_step (l : AgentLoop) (hplain : Plain l.locals.world) (harrive : PlainArrivals env) :
    Plain (step cfg env l).locals.world := by
  cases step_cases cfg env l with
  | drainSteer _ h' =>
      rw [h']
      exact ⟨rfl, hplain.2⟩
  | drainFollowUp _ h' =>
      rw [h']
      exact ⟨hplain.1, rfl⟩
  | done _ _ hs | cancelled _ _ _ hs | refused _ _ _ hs | received _ _ hs | rejected _ _ _ hs
  | turned _ _ _ hs => exact hplain.activity harrive hs.world
  | broken _ h' =>
      rw [h']
      exact hplain
  | ended _ h' =>
      rw [h']
      exact hplain

/-- Every response of a run has been brought by a stream. -/
theorem brought_run {initialMessages : List AgentMessage} {w : World} (hplain : Plain w)
    (harrive : PlainArrivals env)
    (hhooks : ∀ n, (env.onAfterProviderResponse n).content = none) (n : Nat) :
    Plain (run cfg env initialMessages w n).locals.world ∧
      ∀ reply ∈ responses (run cfg env initialMessages w n).locals.newMessages,
        Brought cfg env reply := by
  induction n with
  | zero =>
      refine ⟨?_, fun reply h => absurd h List.not_mem_nil⟩
      have htick : Plain (w.tick env) := by
        have hact : Activity env anyObs w (w.tick env) := .tick .refl
        exact hplain.activity harrive hact
      exact ⟨htick.1, htick.2⟩
  | succ n ih =>
      obtain ⟨hplain', hall⟩ := ih
      have hsucc : run cfg env initialMessages w (n + 1) =
          step cfg env (run cfg env initialMessages w n) := Function.iterate_succ_apply' _ _ _
      rw [hsucc]
      refine ⟨plain_step _ hplain' harrive, ?_⟩
      obtain hsame | ⟨reply, hbrought, hadd⟩ :=
        @responses_step cfg env (run cfg env initialMessages w n) hplain' hhooks
      · rw [hsame]
        exact hall
      · rw [hadd]
        intro r hr
        obtain hr | hr := List.mem_append.mp hr
        · exact hall r hr
        · rw [List.mem_singleton.mp hr]
          exact hbrought

end AgentLoop

/-! ## A session -/

/-- A prompt, and the run of the loop that answers it, as far as it has come.
The provider numbers its calls, no hook changes a response, and nobody else
queues one. -/
structure Prompted where
  prompt : UserMessage
  cfg : AgentLoopConfig
  env : Env
  initialMessages : List AgentMessage
  world : World
  steps : Nat
  provider : ∀ t events, env.stream t = .ok events →
    ∃ (penv : ProviderEnv) (run : ProviderRun),
      run.numbersCalls = true ∧ events = run.events penv
  hooks : ∀ n, (env.onAfterProviderResponse n).content = none
  arrivals : PlainArrivals env
  queues : Plain world

/-- What the prompt adds to the session. -/
def Prompted.messages (p : Prompted) : List AgentMessage :=
  .user p.prompt ::
    (AgentLoop.run p.cfg p.env p.initialMessages p.world p.steps).locals.newMessages

def history (session : List Prompted) : List AgentMessage := session.flatMap Prompted.messages

/-- The ids of the calls, as `resolve_orphan_tool_calls` collects them. -/
def historyIds (messages : List AgentMessage) : List String :=
  (toolCallIds messages).map fun c => c.2.id

theorem flatMap_callsOf (messages : List AgentMessage) :
    messages.flatMap callsOf = (responses messages).flatMap AssistantMessage.toolCalls := by
  induction messages with
  | nil => rfl
  | cons m messages ih =>
      rw [List.flatMap_cons, ih]
      cases m with
      | assistant a => rfl
      | user u => rfl
      | toolResult r => rfl

theorem historyIds_eq (messages : List AgentMessage) :
    historyIds messages =
      (responses messages).flatMap fun a => a.toolCalls.map ToolCall.id := by
  calc historyIds messages
      = ((wishes callsOf 0 messages).map Prod.snd).map ToolCall.id := by
        rw [historyIds, toolCallIds_eq, List.map_map]
        rfl
    _ = ((responses messages).flatMap AssistantMessage.toolCalls).map ToolCall.id := by
        rw [map_wishes, flatMap_callsOf]
    _ = (responses messages).flatMap fun a => a.toolCalls.map ToolCall.id := List.map_flatMap

/-- A response comes from a run of a provider that numbers its calls. -/
def ComesFrom (a : AssistantMessage) (o : ProviderEnv × ProviderRun) : Prop :=
  o.2.numbersCalls = true ∧ a.toolCalls = (sentCalls (o.2.events o.1)).map Prod.snd

theorem Prompted.comesFrom (p : Prompted) {a : AssistantMessage}
    (h : a ∈ responses p.messages) : ∃ o, ComesFrom a o := by
  obtain ⟨-, hall⟩ := @AgentLoop.brought_run p.cfg p.env p.initialMessages p.world
    p.queues p.arrivals p.hooks p.steps
  obtain ⟨t, events, hstream, hcontent⟩ := hall a h
  obtain ⟨penv, run, hnumbers, rfl⟩ := p.provider t events hstream
  refine ⟨(penv, run), hnumbers, ?_⟩
  rw [toolCalls_eq, hcontent]
  exact calls_of_run p.cfg penv hnumbers

theorem exists_origins {l : List AssistantMessage} (h : ∀ a ∈ l, ∃ o, ComesFrom a o) :
    ∃ origins, List.Forall₂ ComesFrom l origins := by
  induction l with
  | nil => exact ⟨[], .nil⟩
  | cons a l ih =>
      obtain ⟨o, ho⟩ := h a List.mem_cons_self
      obtain ⟨origins, horigins⟩ := ih fun b hb => h b (List.mem_cons_of_mem _ hb)
      exact ⟨o :: origins, .cons ho horigins⟩

theorem ids_perm_names {l : List AssistantMessage} {origins : List (ProviderEnv × ProviderRun)}
    (h : List.Forall₂ ComesFrom l origins) :
    (l.flatMap fun a => a.toolCalls.map ToolCall.id).Perm
      ((origins.flatMap fun o => callNames o.1 o.2).map CallName.id) := by
  induction h with
  | nil => exact .refl _
  | @cons a o l origins ho _ ih =>
      obtain ⟨hnumbers, hcalls⟩ := ho
      rw [List.flatMap_cons, List.flatMap_cons, List.map_append]
      refine List.Perm.append ?_ ih
      rw [hcalls, List.map_map]
      exact sentIds_perm_callNames o.1 hnumbers

/-- The ids of all the calls of a session are different exactly when the names of
the calls of its responses are apart. -/
theorem historyIds_nodup_iff (session : List Prompted) :
    (∃ origins, List.Forall₂ ComesFrom (responses (history session)) origins) ∧
      ∀ origins, List.Forall₂ ComesFrom (responses (history session)) origins →
        ((historyIds (history session)).Nodup ↔
          Apart (origins.flatMap fun o => callNames o.1 o.2)) := by
  have hall : ∀ a ∈ responses (history session), ∃ o, ComesFrom a o := by
    intro a ha
    obtain ⟨m, hm, hresponse⟩ := List.mem_filterMap.mp ha
    obtain ⟨p, -, hp⟩ := List.mem_flatMap.mp hm
    exact p.comesFrom (List.mem_filterMap.mpr ⟨m, hp, hresponse⟩)
  refine ⟨exists_origins hall, ?_⟩
  intro origins horigins
  rw [historyIds_eq, (ids_perm_names horigins).nodup_iff]
  exact nodup_ids_iff _

/-- A prompt that Gemini answers with a call. -/
def geminiPrompted : Prompted where
  prompt := ⟨[.text "hello" none], 0⟩
  cfg := AgentLoop.toolConfig
  env := AgentLoop.geminiEnv
  initialMessages := []
  world := .fresh
  steps := 3
  provider := by
    intro t events h
    injection h with h
    exact ⟨_, _, rfl, h.symm⟩
  hooks := fun _ => rfl
  arrivals := fun _ => ⟨rfl, rfl⟩
  queues := ⟨rfl, rfl⟩

theorem newMessages_gemini :
    (AgentLoop.run AgentLoop.toolConfig AgentLoop.geminiEnv [] .fresh 3).locals.newMessages =
      [.assistant AgentLoop.geminiReply,
        .toolResult ⟨"call_0", "tool", [], some (.obj []), false, 0⟩] := by
  rw [AgentLoop.geminiEnv_eq]
  rfl

theorem messages_gemini :
    geminiPrompted.messages =
      [.user ⟨[.text "hello" none], 0⟩, .assistant AgentLoop.geminiReply,
        .toolResult ⟨"call_0", "tool", [], some (.obj []), false, 0⟩] := by
  simp only [Prompted.messages, geminiPrompted, newMessages_gemini]

/-- Two prompts, and both calls are the first of their response. -/
theorem not_historyIds_nodup :
    historyIds (history [geminiPrompted, geminiPrompted]) = ["call_0", "call_0"] ∧
      ¬ (historyIds (history [geminiPrompted, geminiPrompted])).Nodup := by
  have hids : historyIds (history [geminiPrompted, geminiPrompted]) = ["call_0", "call_0"] := by
    rw [history, List.flatMap_cons, List.flatMap_cons, messages_gemini]
    rfl
  refine ⟨hids, ?_⟩
  rw [hids]
  decide

end Pandaria.Agent
