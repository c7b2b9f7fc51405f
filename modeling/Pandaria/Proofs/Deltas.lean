import Mathlib.Data.List.Induction
import Pandaria.Proofs.CallSteps
import Pandaria.Proofs.LoopSteps
import Pandaria.Proofs.StreamEnd

/-!
# What `complete_with_deltas` returns of a stream

The run sends every delta it reads, those of an attempt it gives up too, and the
collector receives them in that order. So at any time what it has received and what
is still in the channel is what has been sent, and what has been sent is, message by
message, what was streamed for it after what was streamed for the attempts before.

A listener to the events of the run can tell these apart: `heard` keeps what was
streamed since the last start of a message until the message has ended.
-/

namespace Pandaria.Agent

open Pandaria.Ai

variable {cfg : AgentLoopConfig} {env : Env}

/-! ## Listening to a run -/

/-- The deltas of messages that were kept, those of attempts that were given up, and those of
the attempt that is under way. -/
structure Heard where
  kept : List String
  given : List String
  open_ : List String

namespace Heard

def hear (h : Heard) : Obs → Heard
  | .event (.messageStart _) => { h with given := h.given ++ h.open_, open_ := [] }
  | .event (.messageUpdate _ delta) => { h with open_ := h.open_ ++ [delta] }
  | .event (.messageEnd (.assistant _)) => { h with kept := h.kept ++ h.open_, open_ := [] }
  | _ => h

end Heard

def heard (w : World) : Heard := w.trace.foldl Heard.hear ⟨[], [], []⟩

def AgentEvent.isText : AgentEvent → Bool
  | .messageUpdate .. => true
  | _ => false

theorem heard_observe (w : World) (o : Obs) : heard (w.observe o) = (heard w).hear o := by
  rw [heard, World.observe, List.foldl_append]
  rfl

theorem heard_emit (w : World) (e : AgentEvent) : heard (w.emit e) = (heard w).hear (.event e) :=
  heard_observe w _

theorem heard_tick (w : World) : heard (w.tick env) = heard w := by
  rw [heard, World.tick]
  show List.foldl Heard.hear _ (if env.abort w.now then w.trace ++ [.abort] else w.trace) = _
  split
  · rw [List.foldl_append]
    rfl
  · rfl

/-- An observation adds its delta to what is open, moves what is open, or changes nothing. -/
inductive Hears (h : Heard) (o : Obs) : Heard → Prop where
  | delta (delta : String) (ho : o.delta? = some delta) :
      Hears h o { h with open_ := h.open_ ++ [delta] }
  | restart (ho : o.delta? = none) : Hears h o { h with given := h.given ++ h.open_, open_ := [] }
  | keep (ho : o.delta? = none) : Hears h o { h with kept := h.kept ++ h.open_, open_ := [] }
  | other (ho : o.delta? = none) : Hears h o h

theorem hears (h : Heard) (o : Obs) : Hears h o (h.hear o) := by
  cases o with
  | event e =>
      cases e with
      | messageStart i => exact .restart rfl
      | messageUpdate i delta => exact .delta delta rfl
      | messageEnd m =>
          cases m with
          | assistant a => exact .keep rfl
          | _ => exact .other rfl
      | _ => exact .other rfl
  | _ => exact .other rfl

/-- Everything that has been sent is one of the three; and with nothing given up it is what
was kept and then what is open. -/
theorem sentDeltas_eq (w : World) :
    (String.join (sentDeltas w)).length = (String.join (heard w).kept).length +
        (String.join (heard w).given).length + (String.join (heard w).open_).length ∧
      (String.join (heard w).given = "" → String.join (sentDeltas w) =
        String.join (heard w).kept ++ String.join (heard w).open_) := by
  rw [heard, sentDeltas]
  generalize w.trace = trace
  induction trace using List.reverseRecOn with
  | nil => exact ⟨rfl, fun _ => rfl⟩
  | append_singleton trace o ih =>
      obtain ⟨hlength, hwhole⟩ := ih
      rw [List.filterMap_append, String.join_append, String.length_append, hlength,
        List.foldl_append, List.foldl_cons, List.foldl_nil]
      have hstep := hears (trace.foldl Heard.hear ⟨[], [], []⟩) o
      generalize trace.foldl Heard.hear ⟨[], [], []⟩ = h at hstep hwhole ⊢
      generalize h.hear o = h' at hstep ⊢
      cases hstep with
      | delta delta ho =>
          rw [List.filterMap_cons_some ho, List.filterMap_nil]
          simp only [String.join_append, String.length_append]
          refine ⟨by omega, fun hgiven => ?_⟩
          rw [hwhole hgiven, String.append_assoc]
      | restart ho =>
          rw [List.filterMap_cons_none ho, List.filterMap_nil]
          simp only [String.join_append, String.length_append, String.join_nil, String.append_empty,
            String.length_empty]
          refine ⟨by omega, fun hgiven => ?_⟩
          obtain ⟨hgiven, hopen⟩ := String.append_eq_empty_iff.1 hgiven
          rw [hwhole hgiven, hopen, String.append_empty]
      | keep ho =>
          rw [List.filterMap_cons_none ho, List.filterMap_nil]
          simp only [String.join_append, String.length_append, String.join_nil, String.append_empty,
            String.length_empty]
          exact ⟨by omega, hwhole⟩
      | other ho =>
          rw [List.filterMap_cons_none ho, List.filterMap_nil]
          simp only [String.join_nil, String.append_empty, String.length_empty]
          exact ⟨rfl, hwhole⟩

/-! ## A request -/

/-- The deltas that are read of a stream, up to an error. -/
def readDeltas : List AssistantMessageEvent → List String
  | [] => []
  | .error _ :: _ => []
  | .textDelta _ delta :: rest => delta :: readDeltas rest
  | _ :: rest => readDeltas rest

/-- What has been heard, with more deltas open. -/
def Heard.more (h : Heard) (deltas : List String) : Heard := { h with open_ := h.open_ ++ deltas }

theorem Heard.more_nil (h : Heard) : h.more [] = h := by rw [Heard.more, List.append_nil]

theorem heard_readStream {i : Nat} {events : List AssistantMessageEvent} {r r' : PartialReply}
    {w w' : World} (h : readStream env i events r w = (.ok r', w')) :
    heard w' = (heard w).more (readDeltas events) := by
  induction events generalizing r w with
  | nil =>
      obtain ⟨-, rfl⟩ := Prod.mk.inj h
      rw [heard_tick, readDeltas, Heard.more_nil]
  | cons e rest ih =>
      rw [readStream.eq_def] at h
      simp only [] at h
      split at h
      · cases (Prod.mk.inj h).1
      · split at h
        · obtain ⟨-, rfl⟩ := Prod.mk.inj h
          rw [heard_tick, readDeltas, Heard.more_nil]
        · next herror =>
          rw [ih h]
          cases e with
          | textDelta j delta =>
              show (heard ((w.tick env).emit _)).more _ = _
              rw [heard_emit, heard_tick]
              show Heard.mk _ _ ((_ ++ [delta]) ++ _) = Heard.mk _ _ (_ ++ delta :: _)
              rw [List.append_assoc]
              rfl
          | error m => exact absurd rfl (herror m)
          | _ => exact congrArg (Heard.more · _) (heard_tick w)

theorem heard_recordCircuit (w : World) : heard (recordCircuit cfg env w) = heard w := by
  rw [recordCircuit]
  split
  · exact heard_tick w
  · rfl

theorem heard_autoRetry (attempt maxRetries : Nat) (error : Option String) (w : World) :
    heard (autoRetry env attempt maxRetries error w) = heard w := by
  rw [autoRetry, heard_emit, heard_tick, heard_emit]
  rfl

/-- An attempt has begun, and the provider has answered it. -/
def attempted (env : Env) (messages : List AgentMessage) (i : Nat) (w : World) : World :=
  ((w.emit (.messageStart i)).observe (.stream messages)).tick env

theorem heard_attempted (messages : List AgentMessage) (i : Nat) (w : World) :
    heard (attempted env messages i w) =
      { heard w with given := (heard w).given ++ (heard w).open_, open_ := [] } := by
  rw [attempted, heard_tick, heard_observe, heard_emit]
  rfl

/-- What has been read of the stream of an attempt is open. -/
theorem heard_attempt {messages : List AgentMessage} {i : Nat}
    {events : List AssistantMessageEvent} {r r' : PartialReply} {w w' : World}
    (h : readStream env i events r (attempted env messages i w) = (.ok r', w')) :
    (heard w').kept = (heard w).kept ∧ (heard w').open_ = readDeltas events := by
  rw [heard_readStream h, heard_attempted]
  exact ⟨rfl, List.nil_append _⟩

theorem heard_recorded (c : Prop) [Decidable c] (w : World) :
    heard (if c then recordCircuit cfg env w else w) = heard w := by
  split
  · exact heard_recordCircuit w
  · rfl

theorem heard_settled (w : World) :
    heard ((recordCircuit cfg env w).emit (.autoRetryEnd true none)) = heard w := by
  rw [heard_emit, heard_recordCircuit]
  rfl

/-- A response is read off this stream. -/
def ReadOff (cfg : AgentLoopConfig) (env : Env) (events : List AssistantMessageEvent)
    (reply : AssistantMessage) : Prop :=
  ∃ i w w' r, readStream env i events (.start cfg) w = (.ok r, w') ∧
    reply = r.toMessage cfg (env.clock w'.now)

/-- The deltas of the stream a response is read off are open when it is there. -/
theorem heard_callAttempts {messages : List AgentMessage} {i maxRetries left n : Nat}
    {w w' : World} {reply : AssistantMessage}
    (h : callAttempts cfg env messages i maxRetries left w = (.ok (n, reply), w')) :
    (heard w').kept = (heard w).kept ∧
      ∃ events, ReadOff cfg env events reply ∧ (heard w').open_ = readDeltas events := by
  induction left generalizing w with
  | zero =>
      rw [callAttempts] at h
      split at h
      · cases (Prod.mk.inj h).1
      · simp only [] at h
        split at h
        · cases (Prod.mk.inj h).1
        · next events w₁ hstream =>
          obtain rfl := (congrArg Prod.snd hstream).symm
          split at h
          · cases (Prod.mk.inj h).1
          · next r w₂ hread =>
            obtain ⟨hkept, hopen⟩ := heard_attempt hread
            obtain ⟨hreply, rfl⟩ := Prod.mk.inj h
            obtain ⟨-, rfl⟩ := Prod.mk.inj (Except.ok.inj hreply)
            rw [heard_settled, heard_recorded]
            exact ⟨hkept, events, ⟨_, _, _, _, hread, rfl⟩, hopen⟩
  | succ left ih =>
      rw [callAttempts] at h
      split at h
      · cases (Prod.mk.inj h).1
      · simp only [] at h
        split at h
        · next e w₁ hstream =>
          obtain rfl := (congrArg Prod.snd hstream).symm
          split at h
          · obtain ⟨hkept, hrest⟩ := ih h
            refine ⟨?_, hrest⟩
            rw [hkept, heard_autoRetry, heard_recordCircuit]
            show (heard (attempted env messages i w)).kept = _
            rw [heard_attempted]
          · cases (Prod.mk.inj h).1
        · next events w₁ hstream =>
          obtain rfl := (congrArg Prod.snd hstream).symm
          split at h
          · cases (Prod.mk.inj h).1
          · next r w₂ hread =>
            obtain ⟨hkept, hopen⟩ := heard_attempt hread
            split at h
            · obtain ⟨hkept', hrest⟩ := ih h
              refine ⟨?_, hrest⟩
              rw [hkept', heard_autoRetry, heard_recordCircuit, hkept]
            · obtain ⟨hreply, rfl⟩ := Prod.mk.inj h
              obtain ⟨-, rfl⟩ := Prod.mk.inj (Except.ok.inj hreply)
              rw [heard_settled]
              exact ⟨hkept, events, ⟨_, _, _, _, hread, rfl⟩, hopen⟩

theorem heard_callLlmWithRetry {messages : List AgentMessage} {maxRetries i n : Nat}
    {w w' : World} {reply : AssistantMessage}
    (h : callLlmWithRetry cfg env messages maxRetries i w = (.ok (n, reply), w')) :
    (heard w').kept = (heard w).kept ∧
      ∃ events, ReadOff cfg env events reply ∧ (heard w').open_ = readDeltas events := by
  rw [callLlmWithRetry] at h
  split at h
  · split at h
    · cases (Prod.mk.inj h).1
    · next w₁ hcircuit =>
      obtain rfl := (congrArg Prod.snd hcircuit).symm
      obtain ⟨hkept, hrest⟩ := heard_callAttempts h
      exact ⟨hkept.trans (congrArg Heard.kept (heard_tick w)), hrest⟩
  · exact heard_callAttempts h

/-- What is kept with a message are the deltas of the stream it was read off, before a hook
has changed it; and nothing is open then. -/
theorem heard_receiveResponse {s s' : LoopLocals} {reply : AssistantMessage}
    (h : receiveResponse cfg env s = (.ok reply, s')) :
    (heard s'.world).open_ = [] ∧
      ∃ events, ∃ received : AssistantMessage, ∃ mutation : ProviderResponseMutation,
        ReadOff cfg env events received ∧ reply = mutation.apply received ∧
        (heard s'.world).kept = (heard s.world).kept ++ readDeltas events := by
  rw [receiveResponse] at h
  simp only [] at h
  split at h
  · cases (Prod.mk.inj h).1
  · next n received w hcall =>
    obtain ⟨hkept, events, hread, hopen⟩ := heard_callLlmWithRetry hcall
    obtain ⟨hreply, rfl⟩ := Prod.mk.inj h
    have hprepared (s : LoopLocals) : heard (prepareRequest cfg env s).2 = heard s.world := by
      show heard (((s.world.emit (.turnStart s.turnIndex)).tick env).tick env) = _
      rw [heard_tick, heard_tick, heard_emit]
      rfl
    have hend (m : AssistantMessage) : heard ((w.tick env).emit (.messageEnd (.assistant m))) =
        { heard w with kept := (heard w).kept ++ (heard w).open_, open_ := [] } := by
      rw [heard_emit, heard_tick]
      rfl
    refine ⟨congrArg Heard.open_ (hend _), events, received, _, hread,
      (Except.ok.inj hreply).symm, ?_⟩
    rw [hprepared] at hkept
    exact (congrArg Heard.kept (hend _)).trans (by rw [hkept, hopen])

/-! ## A run -/

/-- Nothing is open. -/
def Closed (w : World) : Prop := (heard w).open_ = []

/-- What sends no delta opens nothing. -/
theorem Activity.closed {w w' : World} (h : Activity env (loopObs.without AgentEvent.isText) w w')
    (hw : Closed w) : Closed w' := by
  induction h with
  | refl => exact hw
  | @observe w₁ o _ ho ih =>
      rw [Closed, heard_observe]
      have hstep := hears (heard w₁) o
      generalize (heard w₁).hear o = h' at hstep ⊢
      cases hstep with
      | delta delta hdelta =>
          have htext : ∃ e, o = .event e ∧ e.isText = true := by
            rw [Obs.delta?.eq_def] at hdelta
            split at hdelta
            · exact ⟨_, rfl, rfl⟩
            · cases hdelta
          obtain ⟨e, he, htext⟩ := htext
          exact absurd (ho.2 e he) (by rw [htext]; exact Bool.noConfusion)
      | restart => exact rfl
      | keep => exact rfl
      | other => exact ih
  | tick _ ih =>
      rw [Closed, heard_tick]
      exact ih
  | newId _ ih => exact ih

theorem isText_of_isTool {e : AgentEvent} (h : e.isTool = true) : e.isText = false := by
  cases e with
  | messageUpdate => cases h
  | _ => rfl

theorem finishTurn_closed {reply : AssistantMessage} {s s' : LoopLocals} {r : TurnResult}
    (h : finishTurn cfg env reply s = some (r, s')) (hs : Closed s.world) : Closed s'.world := by
  rw [finishTurn] at h
  split at h
  · obtain ⟨-, rfl⟩ := Prod.mk.inj (Option.some.inj h)
    exact hs
  · split at h
    · obtain ⟨-, rfl⟩ := Prod.mk.inj (Option.some.inj h)
      exact (Activity.refl.emitWithout rfl).tick.closed hs
    · obtain ⟨⟨results, w⟩, hexec, hrs⟩ := Option.map_eq_some_iff.1 h
      obtain ⟨-, rfl⟩ := Prod.mk.inj hrs
      have hw := (executeTools_activity (fun _ => isText_of_isTool) hexec).closed hs
      exact (Activity.refl.emitWithout rfl).tick.closed hw

namespace AgentLoop

/-- A loop has nothing open between two requests, unless a request has failed. -/
def Whole (l : AgentLoop) : Prop :=
  Closed l.locals.world ∨ ∃ e, l.phase = .returned (.error e)

theorem whole_start (messages : List AgentMessage) {w : World} (hw : Closed w) :
    (start env messages w).Whole :=
  Or.inl ((Activity.refl.tick.emitWithout rfl).closed hw)

theorem whole_step {l : AgentLoop} (h : l.Whole) : (step cfg env l).Whole := by
  obtain ⟨phase, s⟩ := l
  rcases h with hs | ⟨e, he⟩
  · cases phase with
    | outer => exact Or.inl hs
    | inner =>
        simp only [step]
        split
        · exact Or.inr ⟨_, rfl⟩
        · split
          · exact Or.inr ⟨_, rfl⟩
          · next reply s' hreceive => exact Or.inl (heard_receiveResponse hreceive).1
    | responded reply =>
        simp only [step]
        split
        · exact Or.inl hs
        · exact Or.inr ⟨_, rfl⟩
        · next s' hfinish => exact Or.inl (finishTurn_closed hfinish hs)
        · next s' hfinish => exact Or.inl (finishTurn_closed hfinish hs)
    | stopped =>
        simp only [step]
        split
        · exact Or.inl ((Activity.refl.emitWithout rfl).tick.closed hs)
        · exact Or.inl hs
    | returned result => exact Or.inl hs
    | panicked => exact Or.inl hs
  · obtain rfl : phase = _ := he
    exact Or.inr ⟨e, rfl⟩

end AgentLoop

namespace DeltaCall

/-- The call is one of `complete_with_deltas`, with nothing open unless it fails or panics. -/
inductive Whole (c : Call) : Prop where
  | running {l : AgentLoop} (hc : c.phase = .deltas l) (hl : l.Whole)
  | returned {result : Except AgentError (List AgentMessage)} (hc : c.phase = .returned result)
      (hclosed : ∀ msgs, result = .ok msgs → Closed c.world)
  | panicked (hc : c.phase = .panicked)

theorem trace_pushMessages (a : SessionActor) (ms : List AgentMessage) :
    (a.pushMessages env ms).world.trace = a.world.trace := by
  induction ms generalizing a with
  | nil => rfl
  | cons m ms ih =>
      rw [SessionActor.pushMessages_cons, ih]
      rfl

theorem trace_stepDeltas (result : Except AgentError (List AgentMessage)) (w : World) (c : Call) :
    (c.stepDeltas env result w).phase = .returned result ∧
      (c.stepDeltas env result w).world.trace = w.trace := by
  cases result with
  | error e => exact ⟨rfl, rfl⟩
  | ok msgs =>
      refine ⟨rfl, ?_⟩
      obtain ⟨u, hu⟩ := SessionActor.captureUsage_frame
        ({ c.actor with world := w } : SessionActor).enterIdle msgs
      show ((({ c.actor with world := w } : SessionActor).enterIdle.captureUsage msgs).pushMessages
        env msgs).world.trace = w.trace
      rw [hu, trace_pushMessages]
      rfl

theorem phase_start (text : String) (a : SessionActor) :
    ∃ messages w, (Call.completeWithDeltas env text a).phase = .deltas (.start env messages w) ∧
      w.trace = [.event (.stateChanged .running)] :=
  ⟨_, _, rfl, rfl⟩

theorem sentDeltas_start (messages : List AgentMessage) (w : World) :
    sentDeltas (AgentLoop.start env messages w).locals.world = sentDeltas w := by
  show List.filterMap Obs.delta? ((w.tick env).trace ++ [.event .agentStart]) = _
  rw [List.filterMap_append]
  show List.filterMap Obs.delta?
    (if env.abort w.now then w.trace ++ [.abort] else w.trace) ++ [] = sentDeltas w
  split
  · rw [List.filterMap_append, List.append_nil]
    exact List.append_nil _
  · exact List.append_nil _

theorem whole_start (text : String) (a : SessionActor) :
    Whole (Call.completeWithDeltas env text a) ∧
      sentDeltas (Call.completeWithDeltas env text a).world = [] := by
  obtain ⟨messages, w, hphase, htrace⟩ := @phase_start env text a
  have hclosed : Closed w := by rw [Closed, heard, htrace]; rfl
  refine ⟨Whole.running hphase (AgentLoop.whole_start messages hclosed), ?_⟩
  rw [Call.world, hphase]
  show sentDeltas (AgentLoop.start env messages w).locals.world = []
  rw [sentDeltas_start, sentDeltas, htrace]
  rfl

theorem trace_loop (l : AgentLoop) : ∃ added,
    (l.step cfg env).locals.world.trace = l.locals.world.trace ++ added := by
  have hturned {s s' : LoopLocals} {ms : List AgentMessage} (h : Turned env s s' ms) :
      ∃ added, s'.world.trace = s.world.trace ++ added := by
    obtain ⟨added, hadded, -⟩ := h.world.trace_append
    exact ⟨added, hadded⟩
  have hsame : ∃ added, l.locals.world.trace = l.locals.world.trace ++ added :=
    ⟨[], (List.append_nil _).symm⟩
  cases AgentLoop.step_cases cfg env l with
  | drainSteer _ h' | drainFollowUp _ h' | broken _ h' | ended _ h' =>
      rw [h']
      exact hsame
  | done _ _ hs | cancelled _ _ _ hs | refused _ _ _ hs | received _ _ hs | rejected _ _ _ hs
  | turned _ _ _ hs => exact hturned hs

variable {scfg : SessionConfig}

/-- One step of the call, which only adds to what has been sent. -/
theorem whole_step {c : Call} (h : Whole c) :
    Whole (c.step scfg env) ∧
      ∃ added, (c.step scfg env).world.trace = c.world.trace ++ added := by
  have hsame : ∃ added, c.world.trace = c.world.trace ++ added := ⟨[], (List.append_nil _).symm⟩
  cases h with
  | @running l hc hl =>
      have hworld : c.world = l.locals.world := by rw [Call.world, hc]
      have hstep (hl' : ∀ result, l.phase ≠ .returned result) (hl'' : l.phase ≠ .panicked) :
          c.step scfg env =
            { c with phase := .deltas (l.step (c.actor.loopConfig scfg) env) } := by
        simp only [Call.step, Call.stepWith, hc]
      by_cases hreturned : ∃ result, l.phase = .returned result
      · obtain ⟨result, hresult⟩ := hreturned
        have hend : c.step scfg env = c.stepDeltas env result l.locals.world := by
          simp only [Call.step, Call.stepWith, hc, hresult]
        obtain ⟨hphase, htrace⟩ := @trace_stepDeltas env result l.locals.world c
        rw [hend, htrace, hworld]
        refine ⟨Whole.returned hphase fun msgs hmsgs => ?_, [], (List.append_nil _).symm⟩
        rcases hl with hclosed | ⟨e, he⟩
        · rw [Closed, heard, htrace]
          exact hclosed
        · rw [hresult, hmsgs] at he
          cases he
      · by_cases hpanicked : l.phase = .panicked
        · have hend : c.step scfg env =
              { c with actor := { c.actor with world := l.locals.world }, phase := .panicked } := by
            simp only [Call.step, Call.stepWith, hc, hpanicked]
          refine ⟨by rw [hend]; exact Whole.panicked rfl, [], ?_⟩
          rw [hend, hworld, List.append_nil]
          rfl
        · rw [hstep (fun result hresult => hreturned ⟨result, hresult⟩) hpanicked, hworld]
          exact ⟨Whole.running rfl (AgentLoop.whole_step hl), trace_loop l⟩
  | returned hc hclosed =>
      have hend : c.step scfg env = c := by simp only [Call.step, Call.stepWith, hc]
      rw [hend]
      exact ⟨Whole.returned hc hclosed, hsame⟩
  | panicked hc =>
      have hend : c.step scfg env = c := by simp only [Call.step, Call.stepWith, hc]
      rw [hend]
      exact ⟨Whole.panicked hc, hsame⟩

/-! ## The call and the collector -/

/-- What has been sent is what has been received and what is still in the channel. -/
structure InOrder (s : DeltaCall) : Prop where
  call : Whole s.call
  sent : s.deltas ++ s.channel = sentDeltas s.call.world

theorem inOrder_start (text : String) (a : SessionActor) : InOrder (start env text a) :=
  ⟨(whole_start text a).1, (whole_start text a).2.symm⟩

theorem InOrder.step {s : DeltaCall} (h : InOrder s) (e : DeltaEvent) :
    InOrder (s.step scfg env e) := by
  cases e with
  | run =>
      obtain ⟨hwhole, added, hadded⟩ := @whole_step env scfg s.call h.call
      refine ⟨hwhole, ?_⟩
      have hsent : sentDeltas (s.call.step scfg env).world =
          sentDeltas s.call.world ++ added.filterMap Obs.delta? := by
        rw [sentDeltas, hadded, List.filterMap_append]
        rfl
      show s.deltas ++ (s.channel ++ _) = sentDeltas (s.call.step scfg env).world
      rw [hsent, List.drop_left, ← List.append_assoc, h.sent]
  | collect =>
      rw [DeltaCall.step.eq_def]
      simp only []
      split
      · exact h
      · next delta rest hchannel =>
        refine ⟨h.call, ?_⟩
        show (s.deltas ++ [delta]) ++ rest = _
        rw [List.append_assoc, List.singleton_append, ← hchannel, h.sent]

theorem InOrder.run {s : DeltaCall} (h : InOrder s) (events : List DeltaEvent) :
    InOrder (s.run scfg env events) := by
  induction events generalizing s with
  | nil => exact h
  | cons e events ih => exact ih (h.step e)

/-! ## What is returned -/

/-- The text of the chunks. -/
def chunkText (chunks : List AgentOutputChunk) : String :=
  String.join (chunks.map fun chunk => match chunk.content with
    | .str text => text
    | _ => "")

/-- What was streamed for the messages that were kept. -/
def keptText (c : Call) : String := String.join (heard c.world).kept

/-- What was streamed in attempts that were given up. -/
def givenText (c : Call) : String := String.join (heard c.world).given

/-- The deltas are the text of the messages that were kept, and so are the chunks before the
last one. -/
structure Tells (s : DeltaCall) (msgs : List AgentMessage) : Prop where
  deltas : String.join s.deltas = keptText s.call
  chunks : ∀ tryParseJson usage,
    chunkText (outputChunks tryParseJson usage (fullText msgs) s.deltas).dropLast = keptText s.call

theorem chunkText_outputChunks (tryParseJson : String → Json) (usage : Option Json)
    (full : String) (deltas : List String) :
    chunkText (outputChunks tryParseJson usage full deltas).dropLast = String.join deltas := by
  have htext : chunkText (deltas.map fun delta => ⟨.str delta, none⟩) = String.join deltas := by
    rw [chunkText, List.map_map]
    exact congrArg String.join (List.map_id _)
  rw [outputChunks]
  split
  · rw [List.dropLast_concat, htext]
  · next hnone =>
    obtain ⟨rfl, -⟩ : deltas = [] ∧ full = "" := by simpa using hnone
    rfl

theorem tells_iff_deltas {s : DeltaCall} {msgs : List AgentMessage} :
    Tells s msgs ↔ String.join s.deltas = keptText s.call :=
  ⟨Tells.deltas, fun h => ⟨h, fun _ _ => (chunkText_outputChunks _ _ _ _).trans h⟩⟩

/-- Of a call that has returned messages: when the collector has received everything that says
something, the deltas are the text of the messages exactly when nothing was streamed in an
attempt that was given up; and when nothing was, exactly when it has. -/
theorem tells_iff (cfg : SessionConfig) (env : Env) (text : String) (a : SessionActor)
    (events : List DeltaEvent) (msgs : List AgentMessage) (s : DeltaCall)
    (hs : s = (start env text a).run cfg env events) (hok : s.call.phase = .returned (.ok msgs)) :
    (String.join s.channel = "" → (Tells s msgs ↔ givenText s.call = "")) ∧
      (givenText s.call = "" → (Tells s msgs ↔ String.join s.channel = "")) := by
  have h : InOrder s := hs ▸ (inOrder_start text a).run events
  have hopen : (heard s.call.world).open_ = [] := by
    cases h.call with
    | running hc _ => rw [hok] at hc; cases hc
    | returned hc hclosed =>
        rw [hok] at hc
        injection hc with hc
        exact hclosed msgs hc.symm
    | panicked hc => rw [hok] at hc; cases hc
  have hsent : String.join s.deltas ++ String.join s.channel =
      String.join (sentDeltas s.call.world) := by
    rw [← String.join_append, h.sent]
  obtain ⟨hlength, hwhole⟩ := sentDeltas_eq s.call.world
  rw [← hsent, hopen] at hlength hwhole
  rw [String.join_nil, String.append_empty] at hwhole
  simp only [String.length_append, String.join_nil, String.length_empty] at hlength
  rw [tells_iff_deltas]
  refine ⟨fun hchannel => ?_, fun hgiven => ?_⟩
  · rw [hchannel, String.append_empty] at hwhole
    refine ⟨fun htells => ?_, hwhole⟩
    rw [hchannel, htells, String.length_empty] at hlength
    refine String.length_eq_zero_iff.1 ?_
    rw [keptText] at hlength
    rw [givenText]
    omega
  · have hall : String.join s.deltas ++ String.join s.channel = keptText s.call := hwhole hgiven
    refine ⟨fun htells => ?_, fun hchannel => by rw [← hall, hchannel, String.append_empty]⟩
    have hlength' := congrArg String.length hall
    rw [htells, String.length_append] at hlength'
    exact String.length_eq_zero_iff.1 (by omega)

/-! ## Two runs -/

/-- A provider that says `hi`, after an attempt that breaks off after the first letter where
`breaks` is set. -/
def greeting (breaks : Bool) : Env :=
  { Env.quiet with
    stream := fun n => .ok (if breaks && n ≤ 3 then
        [.textDelta 0 "h", .error (plainReply [] .error (some "overloaded"))]
      else [.textDelta 0 "hi", .textEnd 0 "hi", .done .stop (plainReply [] .stop none)]) }

def greetingConfig : SessionConfig :=
  { plainConfig 0 with loop := { (plainConfig 0).loop with maxRetries := 1 } }

/-- A call followed to its end, with the collector called `collected` times after that. -/
def greeted (breaks : Bool) (collected : Nat) : DeltaCall :=
  (start (greeting breaks) "hello" (.new greetingConfig)).run greetingConfig (greeting breaks)
    (List.replicate 5 .run ++ List.replicate collected .collect)

theorem tells_greeted :
    (∃ msgs, (greeted false 1).call.phase = .returned (.ok msgs)) ∧
      ∀ msgs, (greeted false 1).call.phase = .returned (.ok msgs) → Tells (greeted false 1) msgs :=
  ⟨⟨_, rfl⟩, fun msgs hok =>
    ((tells_iff greetingConfig (greeting false) "hello" _ _ msgs _ rfl hok).1
      (by decide +kernel)).2 (by decide +kernel)⟩

/-- Without the collector the delta is missing; after an attempt that broke off its text is
there too. -/
theorem greeted_wrong :
    (greeted false 0).result?.bind Except.toOption = some ("hi", []) ∧
      keptText (greeted false 0).call = "hi" ∧
      (greeted true 2).result?.bind Except.toOption = some ("hi", ["h", "hi"]) ∧
      keptText (greeted true 2).call = "hi" := by
  decide +kernel

end DeltaCall

end Pandaria.Agent
