import Pandaria.Comp.Instance
import Pandaria.Lib.Run
import Mathlib.Data.Finset.Disjoint
import Mathlib.Data.Finset.Insert

/-!
# Replaying an instance

Three things are asked of a replay. No event makes `apply` panic, an event
other than the creation of the instance leaves a terminal status alone, and no
step is running and completed at once. `apply` looks at neither the status nor
the completed steps, so a replay is sound exactly when each event fits the
state it meets, and `Orderly` says event by event what that takes. The panic
is behind a signal that is expected while the context holds something else
than an object under `signals`.
-/

namespace Pandaria.Comp

open Pandaria.Ai

def InstanceStatus.terminal : InstanceStatus → Bool
  | .completed | .failed => true
  | _ => false

def WorkflowEvent.creates : WorkflowEvent → Bool
  | .instanceCreated .. => true
  | _ => false

namespace InstanceState

/-- What every event of a replay has to leave behind. -/
def Sound (s₀ : InstanceState) (es : List (SystemTime × WorkflowEvent)) : Prop :=
  ∀ n, ∃ s, s₀.replay (es.take n) = some s ∧
    Disjoint s.runningSteps s.completedSteps ∧
    ∀ now e s', es[n]? = some (now, e) → s.apply now e = some s' →
      s.status.terminal = true → e.creates = false → s'.status = s.status

/-- `signals` is absent from the context, or an object. -/
def SignalsOpen (context : Json) : Prop :=
  ∀ v, context.get "signals" = some v → ∃ fields, v = .obj fields

/-- When an event fits the state it meets. -/
def Orderly (s : InstanceState) : WorkflowEvent → Prop
  | .instanceStarted | .signalWaitStarted .. | .breakpointHit .. => s.status.terminal = false
  | .stepStarted stepId _ => stepId ∉ s.completedSteps
  | .stepFailed _ _ _ willRetry => willRetry = true ∨ s.status ≠ .completed
  | .signalReceived signalName _ _ action _ =>
      if action = some .reject then s.status ≠ .completed
      else s.status = .waitingForSignal signalName → SignalsOpen s.context
  | .cancelRequested _ | .workflowFailed .. => s.status ≠ .completed
  | .workflowCompleted .. => s.status ≠ .failed
  | _ => True

/-- The state after one event, for runs in which none of them panics. -/
def next (s : InstanceState) (e : SystemTime × WorkflowEvent) : InstanceState :=
  (s.apply e.1 e.2).getD s

@[simp]
theorem setResult_status (s : InstanceState) (stepId : String) (r : StepResult) :
    (s.setResult stepId r).status = s.status := rfl

@[simp]
theorem setResult_runningSteps (s : InstanceState) (stepId : String) (r : StepResult) :
    (s.setResult stepId r).runningSteps = s.runningSteps := rfl

@[simp]
theorem setResult_completedSteps (s : InstanceState) (stepId : String) (r : StepResult) :
    (s.setResult stepId r).completedSteps = s.completedSteps := rfl

/-! ## One event -/

/-- One event does what is asked of it. -/
def Keeps (s : InstanceState) (now : SystemTime) (e : WorkflowEvent) : Prop :=
  ∃ s', s.apply now e = some s' ∧ Disjoint s'.runningSteps s'.completedSteps ∧
    (s.status.terminal = true → e.creates = false → s'.status = s.status)

theorem keeps_of_apply {s s' : InstanceState} {now : SystemTime} {e : WorkflowEvent}
    (h : s.apply now e = some s') :
    Keeps s now e ↔ Disjoint s'.runningSteps s'.completedSteps ∧
      (s.status.terminal = true → e.creates = false → s'.status = s.status) := by
  constructor
  · rintro ⟨s'', h', hk⟩
    rw [h] at h'
    injection h' with h'
    rw [h']
    exact hk
  · intro hk
    exact ⟨s', h, hk⟩

/-- An object under `signals`, or nothing there, is what a signal can be
recorded in. -/
theorem recordSignal_isSome {context : Json} {signalName : String} {payload : Json} :
    (recordSignal context signalName payload).isSome = true ↔ SignalsOpen context := by
  cases context with
  | obj fields =>
      rw [recordSignal]
      cases hs : (Json.obj fields).get "signals" with
      | none =>
          have ho : SignalsOpen (.obj fields) := by
            intro v hv
            rw [hs] at hv
            cases hv
          simp [ho, Json.insert]
          split <;> rfl
      | some v =>
          cases v with
          | obj signals =>
              have ho : SignalsOpen (.obj fields) := by
                intro v hv
                rw [hs] at hv
                injection hv with hv
                exact ⟨signals, hv.symm⟩
              simp only [Option.getD_some, iff_true, ho]
              rw [Json.insert]
              split <;>
              · rw [Option.bind_some, Json.insert]
                split <;> rfl
          | null | bool b | num t | str t | arr es =>
              constructor
              · intro h
                cases h
              · intro ho
                obtain ⟨fields', hf⟩ := ho _ hs
                cases hf
  | null | bool b | num t | str t | arr es =>
      constructor
      · intro _ v hv
        cases hv
      · intro _
        rfl

theorem keeps_signalReceived {s : InstanceState} {now at' : SystemTime} {name : String}
    {payload : Json} {action : Option SignalAction} {reviewer : Option String}
    (hd : Disjoint s.runningSteps s.completedSteps) :
    Keeps s now (.signalReceived name payload at' action reviewer) ↔
      Orderly s (.signalReceived name payload at' action reviewer) := by
  by_cases ha : action = some .reject
  · rw [Orderly, if_pos ha, keeps_of_apply (by rw [apply, if_pos ha])]
    cases s.status <;> simp [hd, InstanceStatus.terminal, WorkflowEvent.creates]
  · rw [Orderly, if_neg ha]
    by_cases hw : s.status = .waitingForSignal name
    · have hnt : s.status.terminal = false := by rw [hw]; rfl
      rw [← @recordSignal_isSome s.context name payload]
      cases hr : recordSignal s.context name payload with
      | none =>
          constructor
          · rintro ⟨s', h, -⟩
            rw [apply, if_neg ha, if_pos hw, hr] at h
            cases h
          · intro h
            cases h hw
      | some context =>
          rw [keeps_of_apply (by rw [apply, if_neg ha, if_pos hw, hr]; rfl)]
          simp [hd, hnt]
    · rw [keeps_of_apply (by rw [apply, if_neg ha, if_neg hw])]
      simp [hd, hw]

/-- One event keeps what is asked of it exactly when it fits. -/
theorem keeps_iff_orderly {s : InstanceState} (hd : Disjoint s.runningSteps s.completedSteps)
    (now : SystemTime) (e : WorkflowEvent) : Keeps s now e ↔ Orderly s e := by
  cases e with
  | signalReceived name payload at' action reviewer => exact keeps_signalReceived hd
  | stepStarted stepId at' =>
      rw [Orderly, keeps_of_apply rfl]
      simp only [setResult_runningSteps, setResult_completedSteps, setResult_status,
        Finset.disjoint_insert_left, implies_true, and_true, hd]
  | stepCompleted stepId output attempt key at' =>
      show Keeps s now _ ↔ True
      rw [keeps_of_apply rfl]
      have hd' : Disjoint (s.runningSteps.erase stepId) (insert stepId s.completedSteps) := by
        rw [Finset.disjoint_insert_right]
        exact ⟨Finset.notMem_erase stepId _, hd.mono_left (Finset.erase_subset _ _)⟩
      simp [hd']
  | stepFailed stepId error attempt willRetry =>
      rw [Orderly, keeps_of_apply rfl]
      have hd' : Disjoint (s.runningSteps.erase stepId) s.completedSteps :=
        hd.mono_left (Finset.erase_subset _ _)
      cases willRetry <;> cases s.status <;>
        simp [hd', InstanceStatus.terminal, WorkflowEvent.creates]
  | instanceStarted | signalWaitStarted | breakpointHit | cancelRequested | workflowCompleted
  | workflowFailed =>
      rw [Orderly, keeps_of_apply rfl]
      cases s.status <;> simp [hd, InstanceStatus.terminal, WorkflowEvent.creates]
  | instanceCreated | stepScheduled | stepRetryScheduled | timerFired | llmCallStarted
  | llmCallCompleted | llmCallFailed | toolCallStarted | toolCallCompleted | toolCallFailed
  | external | squadEventOccurred =>
      show Keeps s now _ ↔ True
      rw [keeps_of_apply rfl]
      simp [hd, WorkflowEvent.creates]

/-! ## A whole replay -/

theorem replay_append {s : InstanceState} {es es' : List (SystemTime × WorkflowEvent)} :
    s.replay (es ++ es') = (s.replay es).bind fun s' => s'.replay es' := by
  induction es generalizing s with
  | nil => rfl
  | cons e es ih =>
      obtain ⟨now, e⟩ := e
      rw [List.cons_append, replay, replay, Option.bind_assoc]
      congr 1
      funext s'
      exact ih

/-- The state after one more event. -/
theorem replay_take_succ {s s' : InstanceState} {es : List (SystemTime × WorkflowEvent)} {n : Nat}
    (h : s.replay (es.take (n + 1)) = some s') :
    ∃ t, s.replay (es.take n) = some t ∧
      (t = s' ∧ es[n]? = none ∨ ∃ e, es[n]? = some e ∧ t.apply e.1 e.2 = some s') := by
  cases he : es[n]? with
  | none =>
      have hlen := List.getElem?_eq_none_iff.mp he
      rw [List.take_of_length_le (Nat.le_succ_of_le hlen)] at h
      rw [List.take_of_length_le hlen]
      exact ⟨s', h, .inl ⟨rfl, rfl⟩⟩
  | some e =>
      rw [List.take_add_one, he, replay_append] at h
      obtain ⟨t, ht, happly⟩ := Option.bind_eq_some_iff.mp h
      obtain ⟨t', ht', happly⟩ := Option.bind_eq_some_iff.mp happly
      injection happly with happly
      subst happly
      exact ⟨t, ht, .inr ⟨e, rfl, ht'⟩⟩

theorem sound_nil {s : InstanceState} :
    Sound s [] ↔ Disjoint s.runningSteps s.completedSteps := by
  constructor
  · intro h
    obtain ⟨s', h, hd, -⟩ := h 0
    injection h with h
    rw [h]
    exact hd
  · intro hd n
    exact ⟨s, by rw [List.take_nil]; rfl, hd, fun now e s' h => by cases h⟩

theorem sound_cons {s : InstanceState} {now : SystemTime} {e : WorkflowEvent}
    {es : List (SystemTime × WorkflowEvent)} :
    Sound s ((now, e) :: es) ↔ Disjoint s.runningSteps s.completedSteps ∧
      Keeps s now e ∧ Sound (s.next (now, e)) es := by
  constructor
  · intro h
    obtain ⟨s₀, h₀, hd, hk⟩ := h 0
    injection h₀ with h₀
    subst h₀
    obtain ⟨s₁, h₁, hd₁, -⟩ := h 1
    rw [List.take_succ_cons, List.take_zero, replay] at h₁
    obtain ⟨s', ha, h₁⟩ := Option.bind_eq_some_iff.mp h₁
    injection h₁ with h₁
    subst h₁
    refine ⟨hd, ⟨s', ha, hd₁, fun ht hc => hk now e s' rfl ha ht hc⟩, ?_⟩
    have hn : s.next (now, e) = s' := by rw [next, ha]; rfl
    intro n
    obtain ⟨s'', h'', hrest⟩ := h (n + 1)
    rw [List.take_succ_cons, replay, ha, Option.bind_some] at h''
    rw [hn]
    exact ⟨s'', h'', hrest⟩
  · rintro ⟨hd, ⟨s', ha, -, hk⟩, hes⟩ n
    have hn : s.next (now, e) = s' := by rw [next, ha]; rfl
    cases n with
    | zero =>
        refine ⟨s, rfl, hd, ?_⟩
        intro now' e' s'' he hs'' ht hc
        injection he with he
        injection he with h₁ h₂
        subst h₁ h₂
        rw [ha] at hs''
        injection hs'' with hs''
        rw [← hs'']
        exact hk ht hc
    | succ n =>
        obtain ⟨s'', h'', hrest⟩ := hes n
        refine ⟨s'', ?_, hrest⟩
        rw [List.take_succ_cons, replay, ha, Option.bind_some, ← hn]
        exact h''

/-- A replay is sound exactly when it starts so and every event fits. -/
theorem sound_iff_orderly (s : InstanceState) (es : List (SystemTime × WorkflowEvent)) :
    Sound s es ↔ Disjoint s.runningSteps s.completedSteps ∧
      Lib.Along next (fun s e => Orderly s e.2) s es := by
  induction es generalizing s with
  | nil => rw [sound_nil, Lib.Along, and_true]
  | cons e es ih =>
      obtain ⟨now, e⟩ := e
      rw [sound_cons, ih, Lib.Along]
      constructor
      · rintro ⟨hd, hk, -, hes⟩
        exact ⟨hd, (keeps_iff_orderly hd now e).mp hk, hes⟩
      · rintro ⟨hd, he, hes⟩
        obtain ⟨s', ha, hd', hst⟩ := (keeps_iff_orderly hd now e).mpr he
        have hn : s.next (now, e) = s' := by rw [next, ha]; rfl
        exact ⟨hd, ⟨s', ha, hd', hst⟩, by rw [hn]; exact hd', hes⟩

/-- A `signals` input that is no object, a start after the end, and a step
started again after it has completed. -/
theorem not_sound :
    (blank "i1").replay [(0, .instanceCreated "wf" (.obj [("signals", .bool true)])),
        (0, .signalWaitStarted "s1" "approve"),
        (0, .signalReceived "approve" .null 0 none none)] = none ∧
      ¬ Sound (blank "i1") [(0, .workflowCompleted .null 0), (0, .instanceStarted)] ∧
      ¬ Sound (blank "i1") [(0, .stepCompleted "s1" .null 1 none 0), (0, .stepStarted "s1" 0)] := by
  refine ⟨rfl, ?_, ?_⟩
  · intro h
    obtain ⟨s, hs, -, hk⟩ := h 1
    injection hs with hs
    subst hs
    cases hk 0 .instanceStarted _ rfl rfl rfl rfl
  · intro h
    obtain ⟨s, hs, hd, -⟩ := h 2
    injection hs with hs
    subst hs
    exact Finset.disjoint_left.mp hd (Finset.mem_insert_self "s1" _)
      (Finset.mem_insert_self "s1" _)

end InstanceState

end Pandaria.Comp
