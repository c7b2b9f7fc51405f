import Pandaria.Comp.Replay
import Mathlib.Data.Finset.Card

/-!
# Two reports on one execution

Nothing a report is made of is kept from the clock: the start it names is the
time `InstanceStarted` was looked at, or the time the report was put together,
and never the time the instance started. So a replay that takes a moment longer
gives another report (`Delayed`), whatever the stream and the options.

The counts of the summary do not depend on the clock, other than through the
filters. They are those of the events that are left (`Tallied`), and those of
the stream exactly when the filters have spared every event that counts.
-/

namespace Pandaria.Comp

open Pandaria.Ai

variable {toValue : WorkflowEvent → Json} {detail : DetailLevel} {clock : ReplayClock}

/-! ## Clocks -/

/-- The filters read the clock in two passes, and the loop event by event. -/
def ClockReading.turn : ClockReading → Nat × Nat
  | .filterFrom i => (0, i)
  | .filterTo i => (1, i)
  | .applied i => (2, 3 * i)
  | .entry i => (2, 3 * i + 1)
  | .failed i => (2, 3 * i + 2)
  | .startedAt => (3, 0)

namespace ReplayClock

/-- A clock that does not go back. -/
def Lawful (clock : ReplayClock) : Prop :=
  ∀ a b : ClockReading, a.turn.1 < b.turn.1 ∨ a.turn.1 = b.turn.1 ∧ a.turn.2 ≤ b.turn.2 →
    clock a ≤ clock b

/-- The same replay, with a pause behind the filters. -/
def slower (clock : ReplayClock) : ReplayClock := fun r =>
  if r.turn.1 < 2 then clock r else clock r + 1

theorem Lawful.slower (h : clock.Lawful) : clock.slower.Lawful := by
  intro a b hle
  have hclock : clock a ≤ clock b := h a b hle
  show (if a.turn.1 < 2 then clock a else clock a + 1) ≤
    (if b.turn.1 < 2 then clock b else clock b + 1)
  by_cases ha : a.turn.1 < 2
  · rw [if_pos ha]
    split
    · exact hclock
    · exact Nat.le_succ_of_le hclock
  · have hb : ¬ b.turn.1 < 2 := by omega
    rw [if_neg ha, if_neg hb]
    exact Nat.succ_le_succ hclock

end ReplayClock

theorem keeps_slower (opts : ReplayOptions) : opts.keeps clock.slower = opts.keeps clock := rfl

/-! ## A slower replay -/

namespace InstanceState

/-- What of a state does not come from the clock and decides on a panic. -/
def look (s : InstanceState) : InstanceStatus × Json × String := (s.status, s.context, s.workflowId)

theorem look_apply {s t : InstanceState} (h : s.look = t.look) (now now' : SystemTime)
    (e : WorkflowEvent) : (s.apply now e).map look = (t.apply now' e).map look := by
  obtain ⟨hstatus, hrest⟩ := Prod.mk.inj h
  obtain ⟨hcontext, hid⟩ := Prod.mk.inj hrest
  cases e with
  | signalReceived name payload at' action reviewer =>
      rw [apply, apply, hstatus, hcontext]
      split
      · simp [look, hid]
      · split
        · cases recordSignal t.context name payload with
          | none => rfl
          | some context => simp [look, hid]
        · simp [look, hstatus, hcontext, hid]
  | _ => simp [apply, setResult, look, hstatus, hcontext, hid]

end InstanceState

namespace Replaying

/-- The second replay is a moment behind the first. -/
structure Delayed (p p' : Replaying) : Prop where
  state : p.state.look = p'.state.look
  startedAt : p'.startedAt = p.startedAt.map (· + 1)

@[simp]
theorem noteStart_startedAt (p : Replaying) (e : WorkflowEvent) :
    (p.noteStart e).startedAt = p.startedAt := by
  cases e <;> rfl

theorem track_startedAt (p : Replaying) (ts : SystemTime) (e : WorkflowEvent) :
    (p.track ts e).startedAt = if e = .instanceStarted then some ts else p.startedAt := by
  cases e with
  | stepStarted stepId at' =>
      rw [track]
      split <;> rfl
  | stepFailed stepId error attempt willRetry => cases willRetry <;> rfl
  | squadEventOccurred event at' => cases event <;> rfl
  | _ => rfl

theorem step_startedAt {p q : Replaying} {e : WorkflowEvent × Nat}
    (h : p.step toValue detail clock e = some q) :
    q.startedAt = if e.1 = .instanceStarted then some (clock (.entry e.2)) else p.startedAt := by
  obtain ⟨state, _, rfl⟩ := Option.map_eq_some_iff.mp h
  show ((p.noteStart e.1).track _ e.1).startedAt = _
  rw [track_startedAt, noteStart_startedAt]
  split
  · next he => rw [he, eventTimestamp]
  · rfl

theorem Delayed.step {p p' q : Replaying} {e : WorkflowEvent × Nat} (h : Delayed p p')
    (hq : p.step toValue detail clock e = some q) :
    ∃ q', p'.step toValue detail clock.slower e = some q' ∧ Delayed q q' := by
  have hstarted := step_startedAt hq
  obtain ⟨state, hstate, rfl⟩ := Option.map_eq_some_iff.mp hq
  have hlook := InstanceState.look_apply h.state (clock (.applied e.2))
    (clock.slower (.applied e.2)) e.1
  rw [hstate, Option.map_some] at hlook
  obtain ⟨state', hstate', hsame⟩ := Option.map_eq_some_iff.mp hlook.symm
  have hq' : ∃ q', p'.step toValue detail clock.slower e = some q' ∧ q'.state = state' := by
    rw [Replaying.step, hstate']
    exact ⟨_, rfl, rfl⟩
  obtain ⟨q', hq', rfl⟩ := hq'
  refine ⟨q', hq', hsame.symm, ?_⟩
  rw [step_startedAt hq', hstarted, h.startedAt]
  split
  · rfl
  · rfl

theorem Delayed.run {events : List (WorkflowEvent × Nat)} {p p' q : Replaying} (h : Delayed p p')
    (hq : p.run toValue detail clock events = some q) :
    ∃ q', p'.run toValue detail clock.slower events = some q' ∧ Delayed q q' := by
  induction events generalizing p p' with
  | nil =>
      injection hq with hq
      subst hq
      exact ⟨p', rfl, h⟩
  | cons e events ih =>
      rw [Replaying.run, List.foldlM_cons] at hq
      obtain ⟨p₁, hstep, hrest⟩ := Option.bind_eq_some_iff.mp hq
      obtain ⟨p₁', hstep', hdelayed⟩ := h.step hstep
      obtain ⟨q', hrest', hdone⟩ := ih hdelayed hrest
      refine ⟨q', ?_, hdone⟩
      rw [Replaying.run, List.foldlM_cons, hstep']
      exact hrest'

theorem Delayed.report {p p' : Replaying} (h : Delayed p p') (instanceId : String) :
    (p'.report instanceId clock.slower).startedAt =
      (p.report instanceId clock).startedAt + 1 := by
  show p'.startedAt.getD _ = p.startedAt.getD _ + 1
  rw [h.startedAt]
  cases p.startedAt with
  | none => rfl
  | some t => rfl

end Replaying

/-! ## Counting -/

def startedStep : WorkflowEvent → Option String
  | .stepStarted stepId _ => some stepId
  | _ => none

def isStepCompletion : WorkflowEvent → Bool
  | .stepCompleted .. => true
  | _ => false

/-- A failure that is not retried. -/
def isStepFailure : WorkflowEvent → Bool
  | .stepFailed _ _ _ willRetry => !willRetry
  | _ => false

def isStepRetry : WorkflowEvent → Bool
  | .stepRetryScheduled .. => true
  | _ => false

def isSignal : WorkflowEvent → Bool
  | .signalReceived .. => true
  | _ => false

def isCounted (e : WorkflowEvent) : Bool :=
  isStepCompletion e || isStepFailure e || isStepRetry e || isSignal e

def startedSteps (events : List WorkflowEvent) : Finset String :=
  (events.filterMap startedStep).toFinset

/-- The counts of a stream. Of the duration a stream says nothing: no event has
the time an instance started. -/
def ReplaySummary.of (events : List WorkflowEvent) : ReplaySummary :=
  { totalSteps := (startedSteps events).card
    completedSteps := events.countP isStepCompletion
    failedSteps := events.countP isStepFailure
    totalDurationMs := 0
    retriesCount := events.countP isStepRetry
    signalsReceived := events.countP isSignal }

namespace Replaying

/-- The summary is that of the events the loop has been through. -/
structure Tallied (p : Replaying) (events : List WorkflowEvent) : Prop where
  seenSteps : p.seenSteps = startedSteps events
  summary : p.summary = .of events

theorem startedSteps_append (events : List WorkflowEvent) (e : WorkflowEvent) :
    startedSteps (events ++ [e]) =
      match startedStep e with
      | some stepId => insert stepId (startedSteps events)
      | none => startedSteps events := by
  rw [startedSteps, List.filterMap_append, List.toFinset_append]
  cases h : startedStep e with
  | none => simp [h, startedSteps]
  | some stepId => simp [h, startedSteps]

/-- The counts of a stream with one event more. -/
theorem summary_append (events : List WorkflowEvent) (e : WorkflowEvent) :
    ReplaySummary.of (events ++ [e]) =
      { totalSteps := (startedSteps (events ++ [e])).card
        completedSteps := events.countP isStepCompletion + if isStepCompletion e then 1 else 0
        failedSteps := events.countP isStepFailure + if isStepFailure e then 1 else 0
        totalDurationMs := 0
        retriesCount := events.countP isStepRetry + if isStepRetry e then 1 else 0
        signalsReceived := events.countP isSignal + if isSignal e then 1 else 0 } := by
  simp only [ReplaySummary.of, List.countP_append, List.countP_singleton]

theorem Tallied.track {p : Replaying} {events : List WorkflowEvent} (h : p.Tallied events)
    (ts : SystemTime) (e : WorkflowEvent) : (p.track ts e).Tallied (events ++ [e]) := by
  obtain ⟨state, timeline, summary, startedAt, completedAt, stepStartTimes, seenSteps⟩ := p
  obtain ⟨hseen, hsummary⟩ := h
  simp only [] at hseen hsummary
  subst hseen hsummary
  have happend := startedSteps_append events e
  have hcounts := summary_append events e
  cases e with
  | stepStarted stepId at' =>
      simp only [startedStep] at happend
      rw [Replaying.track]
      split
      · next hmem =>
          rw [Finset.insert_eq_self.mpr hmem] at happend
          rw [happend] at hcounts
          exact ⟨happend.symm, hcounts.symm⟩
      · next hmem =>
          rw [happend, Finset.card_insert_of_notMem hmem] at hcounts
          exact ⟨happend.symm, hcounts.symm⟩
  | stepFailed stepId error attempt willRetry =>
      rw [happend] at hcounts
      cases willRetry <;> exact ⟨happend.symm, hcounts.symm⟩
  | squadEventOccurred event at' =>
      rw [happend] at hcounts
      cases event <;> exact ⟨happend.symm, hcounts.symm⟩
  | _ =>
      rw [happend] at hcounts
      exact ⟨happend.symm, hcounts.symm⟩

theorem Tallied.step {p q : Replaying} {events : List WorkflowEvent} {e : WorkflowEvent × Nat}
    (h : p.Tallied events) (hq : p.step toValue detail clock e = some q) :
    q.Tallied (events ++ [e.1]) := by
  obtain ⟨state, _, rfl⟩ := Option.map_eq_some_iff.mp hq
  have hnoted : (p.noteStart e.1).Tallied events := by
    cases e.1 <;> exact ⟨h.seenSteps, h.summary⟩
  have htracked := hnoted.track (eventTimestamp (clock (.entry e.2)) e.1) e.1
  exact ⟨htracked.seenSteps, htracked.summary⟩

end Replaying

/-! ## Status, workflow and timeline -/

def statusNext (status : InstanceStatus) : WorkflowEvent → InstanceStatus
  | .instanceCreated .. => .pending
  | .instanceStarted => .running
  | .signalWaitStarted _ signalName => .waitingForSignal signalName
  | .breakpointHit stepId _ _ => .waitingForSignal ("__breakpoint__" ++ stepId)
  | .stepFailed _ _ _ willRetry => if willRetry then status else .failed
  | .signalReceived signalName _ _ action _ =>
      if action = some .reject then .failed
      else if status = .waitingForSignal signalName then .running
      else status
  | .cancelRequested _ | .workflowFailed .. => .failed
  | .workflowCompleted .. => .completed
  | _ => status

def createdId : WorkflowEvent → Option String
  | .instanceCreated workflowId _ => some workflowId
  | _ => none

def statusAfter (status : InstanceStatus) (events : List WorkflowEvent) : InstanceStatus :=
  events.foldl statusNext status

def workflowIdAfter (workflowId : String) (events : List WorkflowEvent) : String :=
  events.foldl (fun id e => (createdId e).getD id) workflowId

/-- What a timeline shows of an event whatever the clock says. -/
def listed (events : List WorkflowEvent) : List (String × Option String) :=
  events.map fun e => (eventTypeName e, eventStepId e)

theorem InstanceState.apply_status {s t : InstanceState} {now : SystemTime} {e : WorkflowEvent}
    (h : s.apply now e = some t) : t.status = statusNext s.status e := by
  cases e with
  | signalReceived name payload at' action reviewer =>
      rw [statusNext]
      obtain ⟨hreject, _, rfl⟩ | ⟨hreject, hwaits, _, _, rfl⟩ | ⟨hreject, hwaits, rfl⟩ :=
        apply_signalReceived h
      · rw [if_pos hreject]
      · rw [if_neg hreject, if_pos hwaits]
      · rw [if_neg hreject, if_neg hwaits]
  | _ =>
      injection h with h
      rw [← h]
      rfl

theorem InstanceState.apply_workflowId {s t : InstanceState} {now : SystemTime}
    {e : WorkflowEvent} (h : s.apply now e = some t) :
    t.workflowId = (createdId e).getD s.workflowId := by
  cases e with
  | signalReceived name payload at' action reviewer =>
      obtain ⟨_, _, rfl⟩ | ⟨_, _, _, _, rfl⟩ | ⟨_, _, rfl⟩ := apply_signalReceived h
      · rfl
      · rfl
      · rfl
  | _ =>
      injection h with h
      rw [← h]
      rfl

namespace Replaying

/-- Where the loop is, once it has been through some events. -/
structure Folded (s : InstanceState) (events : List WorkflowEvent) (p : Replaying) : Prop where
  status : p.state.status = statusAfter s.status events
  workflowId : p.state.workflowId = workflowIdAfter s.workflowId events
  listed : (p.timeline.map fun t => (t.eventType, t.stepId)) = Comp.listed events
  tallied : p.Tallied events

theorem folded_start (s : InstanceState) : Folded s [] (start s) :=
  ⟨rfl, rfl, rfl, rfl, rfl⟩

theorem Folded.step {s : InstanceState} {p q : Replaying} {events : List WorkflowEvent}
    {e : WorkflowEvent × Nat} (h : Folded s events p)
    (hq : p.step toValue detail clock e = some q) : Folded s (events ++ [e.1]) q := by
  have htallied := h.tallied.step hq
  obtain ⟨state, hstate, rfl⟩ := Option.map_eq_some_iff.mp hq
  constructor
  · show state.status = _
    rw [InstanceState.apply_status hstate, h.status, statusAfter, statusAfter, List.foldl_append]
    rfl
  · show state.workflowId = _
    rw [InstanceState.apply_workflowId hstate, h.workflowId, workflowIdAfter, workflowIdAfter,
      List.foldl_append]
    rfl
  · show (p.timeline ++ [_]).map _ = _
    rw [List.map_append, h.listed, Comp.listed, Comp.listed, List.map_append]
    rfl
  · exact htallied

theorem Folded.run {s : InstanceState} {todo : List (WorkflowEvent × Nat)} {p q : Replaying}
    {events : List WorkflowEvent} (h : Folded s events p)
    (hq : p.run toValue detail clock todo = some q) :
    Folded s (events ++ todo.map Prod.fst) q := by
  induction todo generalizing p events with
  | nil =>
      injection hq with hq
      subst hq
      rw [List.map_nil, List.append_nil]
      exact h
  | cons e todo ih =>
      rw [Replaying.run, List.foldlM_cons] at hq
      obtain ⟨p₁, hstep, hrest⟩ := Option.bind_eq_some_iff.mp hq
      have hdone := ih (h.step hstep) hrest
      rw [List.append_assoc] at hdone
      exact hdone

theorem Folded.of_run {s : InstanceState} {todo : List (WorkflowEvent × Nat)} {q : Replaying}
    (hq : (start s).run toValue detail clock todo = some q) :
    Folded s (todo.map Prod.fst) q :=
  (folded_start s).run hq

end Replaying

/-! ## A whole report -/

/-- The events the filters leave. -/
def ReplayOptions.left (opts : ReplayOptions) (clock : ReplayClock) (events : List WorkflowEvent) :
    List WorkflowEvent :=
  (events.zipIdx.filter (opts.keeps clock)).map Prod.fst

/-- The first workflow the stream names. -/
def firstId (events : List WorkflowEvent) : String := (events.findSome? createdId).getD ""

theorem initialState_spec {instanceId : String} {events : List WorkflowEvent} {s : InstanceState}
    (h : ExecutionReplayer.initialState clock instanceId events = some s) :
    s.status = .pending ∧ s.workflowId = firstId events := by
  rw [ExecutionReplayer.initialState] at h
  have hfirst : events.findSome? createdId =
      (events.find? isInstanceCreated).bind createdId := by
    clear h
    induction events with
    | nil => rfl
    | cons e events ih => cases e <;> first | rfl | exact ih
  rw [firstId, hfirst]
  cases hfind : events.find? isInstanceCreated with
  | none =>
      rw [hfind] at h
      injection h with h
      rw [← h]
      exact ⟨rfl, rfl⟩
  | some event =>
      rw [hfind] at h
      have hcreated := List.find?_some hfind
      cases event with
      | instanceCreated workflowId inputs =>
          injection h with h
          rw [← h]
          exact ⟨rfl, rfl⟩
      | _ => cases hcreated

/-- A replay that reports has been through the options, the stream and the loop. -/
theorem replay_eq_ok {instanceId : String} {events : List WorkflowEvent} {opts : ReplayOptions}
    {r : ExecutionReplay}
    (h : ExecutionReplayer.replay toValue clock instanceId events opts = some (.ok r)) :
    opts.validate = .ok () ∧ events.isEmpty = false ∧
      ∃ s p, ExecutionReplayer.initialState clock instanceId events = some s ∧
        (Replaying.start s).run toValue opts.detail clock
          (events.zipIdx.filter (opts.keeps clock)) = some p ∧
        r = p.report instanceId clock := by
  rw [ExecutionReplayer.replay] at h
  cases hvalid : opts.validate with
  | error e =>
      rw [hvalid] at h
      injection h with h
      cases h
  | ok u =>
      rw [hvalid] at h
      cases hempty : events.isEmpty with
      | true =>
          rw [hempty] at h
          injection h with h
          cases h
      | false =>
          rw [hempty] at h
          obtain ⟨s, hs, h⟩ := Option.bind_eq_some_iff.mp h
          obtain ⟨p, hp, h⟩ := Option.map_eq_some_iff.mp h
          injection h with h
          exact ⟨rfl, rfl, s, p, hs, hp, h.symm⟩

/-- Whether it is an error does not depend on the clock, nor does the error. -/
theorem replay_cases (toValue : WorkflowEvent → Json) (clock : ReplayClock) (instanceId : String)
    (events : List WorkflowEvent) (opts : ReplayOptions) :
    (∃ r, ExecutionReplayer.replay toValue clock instanceId events opts = some (.ok r)) ∨
      ExecutionReplayer.replay toValue clock instanceId events opts = none ∧
        opts.validate = .ok () ∧ events.isEmpty = false ∨
      ∃ e, ∀ clock, ExecutionReplayer.replay toValue clock instanceId events opts =
        some (.error e) := by
  simp only [ExecutionReplayer.replay]
  cases hvalid : opts.validate with
  | error e => exact .inr (.inr ⟨e, fun _ => rfl⟩)
  | ok u =>
      cases hempty : events.isEmpty with
      | true => exact .inr (.inr ⟨_, fun _ => rfl⟩)
      | false =>
          cases hstate : ExecutionReplayer.initialState clock instanceId events with
          | none => exact .inr (.inl ⟨rfl, rfl, rfl⟩)
          | some s =>
              cases hrun : (Replaying.start s).run toValue opts.detail clock
                  (events.zipIdx.filter (opts.keeps clock)) with
              | none => exact .inr (.inl ⟨by simp [hrun], rfl, rfl⟩)
              | some p => exact .inl ⟨p.report instanceId clock, by simp [hrun]⟩

/-- Without a report, the clock has no say in what comes of a replay. -/
theorem replay_eq_of_no_report {clock' : ReplayClock} {instanceId : String}
    {events : List WorkflowEvent} {opts : ReplayOptions}
    (h : ∀ r, ExecutionReplayer.replay toValue clock instanceId events opts ≠ some (.ok r))
    (h' : ∀ r, ExecutionReplayer.replay toValue clock' instanceId events opts ≠ some (.ok r)) :
    ExecutionReplayer.replay toValue clock instanceId events opts =
      ExecutionReplayer.replay toValue clock' instanceId events opts := by
  obtain ⟨r, hr⟩ | ⟨hnone, hvalid, hempty⟩ | ⟨e, he⟩ :=
    replay_cases toValue clock instanceId events opts
  · exact absurd hr (h r)
  · obtain ⟨r, hr⟩ | ⟨hnone', -, -⟩ | ⟨e, he⟩ := replay_cases toValue clock' instanceId events opts
    · exact absurd hr (h' r)
    · rw [hnone, hnone']
    · rw [he clock, he clock']
  · rw [he clock, he clock']

theorem initialState_clock (clock clock' : ReplayClock) (instanceId : String)
    (events : List WorkflowEvent) :
    ExecutionReplayer.initialState clock instanceId events =
      ExecutionReplayer.initialState clock' instanceId events := by
  rw [ExecutionReplayer.initialState, ExecutionReplayer.initialState]
  cases hfind : events.find? isInstanceCreated with
  | none => rfl
  | some event =>
      have hcreated := List.find?_some hfind
      cases event with
      | instanceCreated workflowId inputs => rfl
      | _ => cases hcreated

/-- The slower replay reports a start that is later. -/
theorem replay_slower {instanceId : String} {events : List WorkflowEvent} {opts : ReplayOptions}
    {r : ExecutionReplay}
    (h : ExecutionReplayer.replay toValue clock instanceId events opts = some (.ok r)) :
    ∃ r', ExecutionReplayer.replay toValue clock.slower instanceId events opts = some (.ok r') ∧
      r'.startedAt = r.startedAt + 1 := by
  obtain ⟨hvalid, hempty, s, p, hs, hp, rfl⟩ := replay_eq_ok h
  have hstart : Replaying.Delayed (.start s) (.start s) := ⟨rfl, rfl⟩
  obtain ⟨p', hp', hdelayed⟩ := hstart.run hp
  refine ⟨p'.report instanceId clock.slower, ?_, hdelayed.report instanceId⟩
  rw [ExecutionReplayer.replay, hvalid]
  simp only [hempty, Bool.false_eq_true, if_false]
  rw [initialState_clock clock.slower clock, hs, Option.bind_some, keeps_slower, hp']
  rfl

/-! ## What the filters leave -/

theorem countP_filter_eq_iff {α : Type} (l : List α) (p q : α → Bool) :
    (l.filter q).countP p = l.countP p ↔ ∀ a ∈ l, p a = true → q a = true := by
  rw [List.countP_eq_countP_filter_add l p q, Nat.left_eq_add, List.countP_eq_zero]
  constructor
  · intro h a ha hp
    by_contra hq
    exact h a (List.mem_filter.mpr ⟨ha, by simp [hq]⟩) hp
  · intro h a ha hp
    obtain ⟨ha, hq⟩ := List.mem_filter.mp ha
    rw [h a ha hp] at hq
    cases hq

/-- The filters have left every event the counts depend on, and the status and
the workflow the stream ends with. -/
structure Spared (opts : ReplayOptions) (clock : ReplayClock) (events : List WorkflowEvent) :
    Prop where
  counted : ∀ e ∈ events.zipIdx, isCounted e.1 = true → opts.keeps clock e = true
  started : ∀ stepId ∈ startedSteps events, stepId ∈ startedSteps (opts.left clock events)
  status : (statusAfter .pending (opts.left clock events)).asStr =
    (statusAfter .pending events).asStr
  workflowId : workflowIdAfter (firstId events) (opts.left clock events) =
    workflowIdAfter "" events

theorem countP_left_eq_iff (opts : ReplayOptions) (clock : ReplayClock)
    (events : List WorkflowEvent) (counts : WorkflowEvent → Bool) :
    (opts.left clock events).countP counts = events.countP counts ↔
      ∀ e ∈ events.zipIdx, counts e.1 = true → opts.keeps clock e = true := by
  have hall : events.countP counts = events.zipIdx.countP (counts ∘ Prod.fst) := by
    rw [← List.countP_map, List.zipIdx_map_fst]
  rw [ReplayOptions.left, List.countP_map, hall]
  exact countP_filter_eq_iff _ _ _

theorem startedSteps_left_subset (opts : ReplayOptions) (clock : ReplayClock)
    (events : List WorkflowEvent) :
    startedSteps (opts.left clock events) ⊆ startedSteps events := by
  intro stepId h
  rw [startedSteps, List.mem_toFinset, List.mem_filterMap] at h ⊢
  obtain ⟨e, he, hstep⟩ := h
  obtain ⟨e', he', rfl⟩ := List.mem_map.mp he
  have hmem := List.mem_map_of_mem (f := Prod.fst) (List.mem_of_mem_filter he')
  rw [List.zipIdx_map_fst] at hmem
  exact ⟨_, hmem, hstep⟩

theorem summary_left_eq_iff (opts : ReplayOptions) (clock : ReplayClock)
    (events : List WorkflowEvent) :
    ReplaySummary.of (opts.left clock events) = .of events ↔
      (∀ e ∈ events.zipIdx, isCounted e.1 = true → opts.keeps clock e = true) ∧
        ∀ stepId ∈ startedSteps events, stepId ∈ startedSteps (opts.left clock events) := by
  have hsteps : (startedSteps (opts.left clock events)).card = (startedSteps events).card ↔
      startedSteps events ⊆ startedSteps (opts.left clock events) := by
    constructor
    · intro h
      exact (Finset.eq_of_subset_of_card_le (startedSteps_left_subset opts clock events)
        (Nat.le_of_eq h.symm)).symm.subset
    · intro h
      exact congrArg Finset.card ((startedSteps_left_subset opts clock events).antisymm h)
  simp only [ReplaySummary.of, ReplaySummary.mk.injEq, countP_left_eq_iff, hsteps, true_and]
  constructor
  · rintro ⟨hstarted, hcompleted, hfailed, hretried, hsignals⟩
    refine ⟨?_, hstarted⟩
    intro e he hcounted
    rw [isCounted, Bool.or_eq_true, Bool.or_eq_true, Bool.or_eq_true] at hcounted
    obtain ((h | h) | h) | h := hcounted
    · exact hcompleted e he h
    · exact hfailed e he h
    · exact hretried e he h
    · exact hsignals e he h
  · rintro ⟨hcounted, hstarted⟩
    refine ⟨hstarted, ?_, ?_, ?_, ?_⟩
    all_goals
      intro e he h
      exact hcounted e he (by simp [isCounted, h])

/-! ## Two replays and the stream -/

/-- The fold over the whole stream. -/
def foldAll (toValue : WorkflowEvent → Json) (clock : ReplayClock) (instanceId : String)
    (events : List WorkflowEvent) (opts : ReplayOptions) : Option Replaying :=
  (Replaying.start (.blank instanceId)).run toValue opts.detail clock events.zipIdx

/-- Every report has the status, the workflow and the totals of the whole
stream, shows some events of it, goes by the times of the events, and comes out
of a second replay again. -/
structure FaithfulReport (toValue : WorkflowEvent → Json) (instanceId : String)
    (events : List WorkflowEvent) (opts : ReplayOptions) : Prop where
  totals : ∀ clock : ReplayClock, clock.Lawful → ∀ r p,
    ExecutionReplayer.replay toValue clock instanceId events opts = some (.ok r) →
      foldAll toValue clock instanceId events opts = some p →
        r.status = p.state.status.asStr ∧ r.workflowId = p.state.workflowId ∧
          r.summary = p.finalSummary
  selects : ∀ clock : ReplayClock, clock.Lawful → ∀ r,
    ExecutionReplayer.replay toValue clock instanceId events opts = some (.ok r) →
      (r.timeline.map fun t => (t.eventType, t.stepId)).Sublist (listed events)
  recorded : ∀ clock clock' : ReplayClock, clock.Lawful → clock'.Lawful → ∀ r,
    ExecutionReplayer.replay toValue clock instanceId events opts = some (.ok r) →
      ∀ e ∈ events.zipIdx, opts.keeps clock e = opts.keeps clock' e
  again : ∀ clock clock' : ReplayClock, clock.Lawful → clock'.Lawful →
    ExecutionReplayer.replay toValue clock instanceId events opts =
      ExecutionReplayer.replay toValue clock' instanceId events opts

theorem faithfulReport_iff (toValue : WorkflowEvent → Json) (instanceId : String)
    (events : List WorkflowEvent) (opts : ReplayOptions) :
    FaithfulReport toValue instanceId events opts ↔ ∀ clock : ReplayClock, clock.Lawful → ∀ r,
      ExecutionReplayer.replay toValue clock instanceId events opts ≠ some (.ok r) := by
  constructor
  · intro h clock hclock r hr
    obtain ⟨r', hr', hlater⟩ := replay_slower hr
    have hsame := h.again clock clock.slower hclock hclock.slower
    rw [hr, hr'] at hsame
    injection hsame with hsame
    injection hsame with hsame
    rw [← hsame] at hlater
    exact Nat.succ_ne_self _ hlater.symm
  · intro h
    constructor
    · intro clock hclock r p hr
      exact absurd hr (h clock hclock r)
    · intro clock hclock r hr
      exact absurd hr (h clock hclock r)
    · intro clock clock' hclock _ r hr
      exact absurd hr (h clock hclock r)
    · intro clock clock' hclock hclock'
      exact replay_eq_of_no_report (h clock hclock) (h clock' hclock')

theorem finalSummary_counts (p : Replaying) :
    { p.finalSummary with totalDurationMs := 0 } = { p.summary with totalDurationMs := 0 } := by
  rw [Replaying.finalSummary]
  cases p.startedAt <;> cases p.completedAt <;> rfl

theorem left_sublist (opts : ReplayOptions) (clock : ReplayClock) (events : List WorkflowEvent) :
    (opts.left clock events).Sublist events := by
  have h := (List.filter_sublist (p := opts.keeps clock) (l := events.zipIdx)).map Prod.fst
  rw [List.zipIdx_map_fst] at h
  exact h

theorem report_listed {instanceId : String} {events : List WorkflowEvent} {opts : ReplayOptions}
    {r : ExecutionReplay}
    (h : ExecutionReplayer.replay toValue clock instanceId events opts = some (.ok r)) :
    (r.timeline.map fun t => (t.eventType, t.stepId)) = listed (opts.left clock events) := by
  obtain ⟨-, -, s, p, -, hp, rfl⟩ := replay_eq_ok h
  exact (Replaying.Folded.of_run hp).listed

/-- A report has the status, the workflow and the counts of the whole stream
exactly when the filters have spared them. -/
theorem report_totals_iff {instanceId : String} {events : List WorkflowEvent}
    {opts : ReplayOptions} {r : ExecutionReplay} {p : Replaying}
    (h : ExecutionReplayer.replay toValue clock instanceId events opts = some (.ok r))
    (hall : foldAll toValue clock instanceId events opts = some p) :
    r.status = p.state.status.asStr ∧ r.workflowId = p.state.workflowId ∧
        { r.summary with totalDurationMs := 0 } = p.summary ↔
      Spared opts clock events := by
  obtain ⟨-, -, s, q, hs, hq, rfl⟩ := replay_eq_ok h
  obtain ⟨hstatus, hid⟩ := initialState_spec hs
  have hfull := Replaying.Folded.of_run hall
  rw [List.zipIdx_map_fst] at hfull
  have hleft : Replaying.Folded s (opts.left clock events) q := Replaying.Folded.of_run hq
  have hcounts : { q.finalSummary with totalDurationMs := 0 } =
      ReplaySummary.of (opts.left clock events) := by
    rw [finalSummary_counts, hleft.tallied.summary]
    rfl
  show q.state.status.asStr = _ ∧ q.state.workflowId = _ ∧
    { q.finalSummary with totalDurationMs := 0 } = _ ↔ _
  rw [hcounts, hleft.status, hleft.workflowId, hfull.status, hfull.workflowId,
    hfull.tallied.summary, summary_left_eq_iff, hstatus, hid]
  constructor
  · rintro ⟨hsame, hids, hcounted, hstarted⟩
    exact ⟨hcounted, hstarted, hsame, hids⟩
  · rintro ⟨hcounted, hstarted, hsame, hids⟩
    exact ⟨hsame, hids, hcounted, hstarted⟩

/-- No report is faithful. What it lists is from the stream; what it counts is
right as far as the filters let it. -/
theorem replay_faithful_iff (toValue : WorkflowEvent → Json) (instanceId : String)
    (events : List WorkflowEvent) (opts : ReplayOptions) :
    (FaithfulReport toValue instanceId events opts ↔ ∀ clock : ReplayClock, clock.Lawful → ∀ r,
      ExecutionReplayer.replay toValue clock instanceId events opts ≠ some (.ok r)) ∧
    (∀ clock r, ExecutionReplayer.replay toValue clock instanceId events opts = some (.ok r) →
      (r.timeline.map fun t => (t.eventType, t.stepId)).Sublist (listed events) ∧
      ∀ p, foldAll toValue clock instanceId events opts = some p →
        (r.status = p.state.status.asStr ∧ r.workflowId = p.state.workflowId ∧
            { r.summary with totalDurationMs := 0 } = p.summary ↔
          Spared opts clock events)) := by
  refine ⟨faithfulReport_iff toValue instanceId events opts, ?_⟩
  intro clock r hr
  refine ⟨?_, fun p hp => report_totals_iff hr hp⟩
  rw [report_listed hr]
  exact (left_sublist opts clock events).map _

/-- A step that waits, after a signal nobody waits for. -/
def waitingStream : List WorkflowEvent :=
  [.instanceCreated "wf" (.obj []), .instanceStarted, .signalReceived "early" .null 5 none none,
    .signalWaitStarted "s1" "go"]

/-- At the low level of detail a waiting instance is reported as running, and
without its signal. -/
theorem not_faithfulReport :
    (∃ r p, ExecutionReplayer.replay (fun _ => .null) (fun _ => 0) "i1" waitingStream
        ⟨.low, none, none, none⟩ = some (.ok r) ∧
      foldAll (fun _ => .null) (fun _ => 0) "i1" waitingStream ⟨.low, none, none, none⟩ = some p ∧
      r.status = "running" ∧ p.state.status.asStr = "waiting_for_signal" ∧
      r.summary.signalsReceived = 0 ∧ p.finalSummary.signalsReceived = 1) ∧
    ¬ FaithfulReport (fun _ => .null) "i1" waitingStream ⟨.low, none, none, none⟩ := by
  refine ⟨⟨_, _, rfl, rfl, rfl, rfl, rfl, rfl⟩, ?_⟩
  intro h
  have hlawful : ReplayClock.Lawful fun _ => 0 := fun _ _ _ => Nat.le_refl 0
  obtain ⟨hstatus, -⟩ := h.totals (fun _ => 0) hlawful _ _ rfl rfl
  have hne : "running" ≠ "waiting_for_signal" := by decide
  exact hne hstatus

end Pandaria.Comp
