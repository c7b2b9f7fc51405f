import Pandaria.Proofs.Instance

/-!
# Steps that wait for a signal

An instance has one set of blocked steps, and its status has room for one
signal: the one of the latest wait. That signal lets every blocked step go, and
any other is ignored. Who waits for what is not recorded, so it is kept beside
the run here (`waits`).

A step stays blocked until its own signal arrives as long as no step is let go
by the signal of another, and the status stays with the blocked steps as long as
the instance is not created or started over them. `Fits` is that, event by
event.
-/

namespace Pandaria.Comp

open Pandaria.Ai

/-- The signal a breakpoint waits for. -/
def breakpointSignal (stepId : String) : String := "__breakpoint__" ++ stepId

/-- The waits that are open after an event, each a step and its signal. -/
def waitsNext (waits : Finset (String × String)) : WorkflowEvent → Finset (String × String)
  | .signalWaitStarted stepId signalName => insert (stepId, signalName) waits
  | .breakpointHit stepId _ _ => insert (stepId, breakpointSignal stepId) waits
  | .signalReceived signalName _ _ action _ =>
      if action = some .reject then ∅ else waits.filter fun w => w.2 ≠ signalName
  | _ => waits

def waits (es : List (SystemTime × WorkflowEvent)) : Finset (String × String) :=
  es.foldl (fun ws e => waitsNext ws e.2) ∅

def InstanceStatus.waiting : InstanceStatus → Bool
  | .waitingForSignal _ => true
  | _ => false

namespace InstanceState

/-- Whoever waits is blocked, and whoever is blocked is seen in the status. -/
structure Waiting (waits : Finset (String × String)) (s : InstanceState) : Prop where
  blocked : ∀ w ∈ waits, w.1 ∈ s.signalBlockedSteps
  status : s.signalBlockedSteps.Nonempty → s.status.waiting = true ∨ s.status.terminal = true

/-- An event that lets no step go before its signal, and takes no status from a
blocked step. -/
def Fits (waits : Finset (String × String)) (s : InstanceState) : WorkflowEvent → Prop
  | .instanceCreated .. | .instanceStarted => s.signalBlockedSteps = ∅
  | .signalReceived signalName _ _ action _ =>
      action ≠ some .reject → s.status = .waitingForSignal signalName → SignalsOpen s.context →
        ∀ w ∈ waits, w.2 = signalName
  | _ => True

/-! ## One event -/

theorem waiting_of_blocked_empty {ws : Finset (String × String)} {s : InstanceState}
    (h : s.signalBlockedSteps = ∅) : Waiting ws s ↔ ws = ∅ := by
  constructor
  · intro hw
    apply Finset.eq_empty_of_forall_notMem
    intro w hmem
    have hblocked := hw.blocked w hmem
    rw [h] at hblocked
    exact Finset.notMem_empty _ hblocked
  · intro hempty
    constructor
    · rw [hempty]
      intro w hmem
      exact absurd hmem (Finset.notMem_empty w)
    · rw [h]
      intro hsome
      exact absurd hsome Finset.not_nonempty_empty

/-- An event that changes neither the blocked steps nor, if there are any, what
the status says of them. -/
theorem Waiting.of_status {ws ws' : Finset (String × String)} {s s' : InstanceState}
    (h : Waiting ws s) (hws : ws' ⊆ ws) (hblocked : s'.signalBlockedSteps = s.signalBlockedSteps)
    (hstatus : s'.status = s.status ∨ s'.status.terminal = true) : Waiting ws' s' := by
  constructor
  · intro w hmem
    rw [hblocked]
    exact h.blocked w (hws hmem)
  · intro hsome
    rw [hblocked] at hsome
    obtain hsame | hdone := hstatus
    · rw [hsame]
      exact h.status hsome
    · exact .inr hdone

theorem Waiting.block {ws : Finset (String × String)} {s s' : InstanceState} {stepId : String}
    {signal : String} (h : Waiting ws s)
    (hblocked : s'.signalBlockedSteps = insert stepId s.signalBlockedSteps)
    (hstatus : s'.status = .waitingForSignal signal) :
    Waiting (insert (stepId, signal) ws) s' := by
  constructor
  · intro w hmem
    rw [hblocked]
    obtain rfl | hmem := Finset.mem_insert.mp hmem
    · exact Finset.mem_insert_self _ _
    · exact Finset.mem_insert_of_mem (h.blocked w hmem)
  · intro _
    rw [hstatus]
    exact .inl rfl

/-- An event that takes the instance back to a status of its own. -/
theorem waiting_of_restart {ws : Finset (String × String)} {s s' : InstanceState}
    (h : Waiting ws s) (hblocked : s'.signalBlockedSteps = s.signalBlockedSteps)
    (hwaiting : s'.status.waiting = false) (hterminal : s'.status.terminal = false) :
    Waiting ws s' ↔ s.signalBlockedSteps = ∅ := by
  constructor
  · intro h'
    by_contra hne
    rw [← hblocked] at hne
    obtain hw | ht := h'.status (Finset.nonempty_iff_ne_empty.mpr hne)
    · rw [hwaiting] at hw
      cases hw
    · rw [hterminal] at ht
      cases ht
  · intro hempty
    rw [waiting_of_blocked_empty (hblocked.trans hempty)]
    exact (waiting_of_blocked_empty hempty).mp h

theorem waiting_signalReceived {ws : Finset (String × String)} {s s' : InstanceState}
    {now at' : SystemTime} {name : String} {payload : Json} {action : Option SignalAction}
    {reviewer : Option String} (h : Waiting ws s)
    (hs : s.apply now (.signalReceived name payload at' action reviewer) = some s') :
    Waiting (waitsNext ws (.signalReceived name payload at' action reviewer)) s' ↔
      Fits ws s (.signalReceived name payload at' action reviewer) := by
  rw [waitsNext, Fits]
  obtain ⟨hreject, _, rfl⟩ | ⟨hreject, hwaits, context, hrecord, rfl⟩ | ⟨hreject, hwaits, rfl⟩ :=
    apply_signalReceived hs
  · rw [if_pos hreject, waiting_of_blocked_empty rfl]
    simp [hreject]
  · have hopen : SignalsOpen s.context :=
      recordSignal_isSome.mp (Option.isSome_of_mem hrecord)
    rw [if_neg hreject, waiting_of_blocked_empty rfl, Finset.filter_eq_empty_iff]
    constructor
    · intro hnone _ _ _ w hmem
      exact not_not.mp (hnone hmem)
    · intro hall w hmem
      exact not_not.mpr (hall hreject hwaits hopen w hmem)
  · have hkept : Waiting (ws.filter fun w => w.2 ≠ name) s' :=
      h.of_status (Finset.filter_subset _ _) rfl (.inl rfl)
    rw [if_neg hreject]
    simp [hkept, hwaits]

/-- One event keeps the waiting steps blocked exactly when it fits. -/
theorem waiting_iff_fits {ws : Finset (String × String)} {s s' : InstanceState} {now : SystemTime}
    {e : WorkflowEvent} (h : Waiting ws s) (hs : s.apply now e = some s') :
    Waiting (waitsNext ws e) s' ↔ Fits ws s e := by
  cases e with
  | signalReceived name payload at' action reviewer => exact waiting_signalReceived h hs
  | instanceCreated | instanceStarted =>
      injection hs with hs
      subst hs
      exact waiting_of_restart h rfl rfl rfl
  | signalWaitStarted | breakpointHit =>
      injection hs with hs
      subst hs
      exact iff_of_true (h.block rfl rfl) trivial
  | stepFailed stepId error attempt willRetry =>
      injection hs with hs
      subst hs
      refine iff_of_true (h.of_status subset_rfl rfl ?_) trivial
      cases willRetry with
      | true => exact .inl rfl
      | false => exact .inr rfl
  | cancelRequested | workflowCompleted | workflowFailed =>
      injection hs with hs
      subst hs
      exact iff_of_true (h.of_status subset_rfl rfl (.inr rfl)) trivial
  | stepScheduled | stepStarted | stepCompleted | stepRetryScheduled | timerFired
  | llmCallStarted | llmCallCompleted | llmCallFailed | toolCallStarted | toolCallCompleted
  | toolCallFailed | external | squadEventOccurred =>
      injection hs with hs
      subst hs
      exact iff_of_true (h.of_status subset_rfl rfl (.inl rfl)) trivial

/-! ## A whole run -/

/-- Every state a run gets to has its waiting steps blocked. -/
def BlockedUntilSignal (s₀ : InstanceState) (es : List (SystemTime × WorkflowEvent)) : Prop :=
  ∀ n s, s₀.replay (es.take n) = some s → Waiting (Comp.waits (es.take n)) s

/-- Every event of a run fits the state it meets. -/
def FitsAlong (s₀ : InstanceState) (es : List (SystemTime × WorkflowEvent)) : Prop :=
  ∀ n s e, s₀.replay (es.take n) = some s → es[n]? = some e → Fits (Comp.waits (es.take n)) s e.2

theorem waits_take_succ {es : List (SystemTime × WorkflowEvent)} {n : Nat}
    {e : SystemTime × WorkflowEvent} (h : es[n]? = some e) :
    Comp.waits (es.take (n + 1)) = waitsNext (Comp.waits (es.take n)) e.2 := by
  rw [List.take_add_one, h, Comp.waits, List.foldl_append]
  rfl

theorem waits_take_of_none {es : List (SystemTime × WorkflowEvent)} {n : Nat}
    (h : es[n]? = none) : Comp.waits (es.take (n + 1)) = Comp.waits (es.take n) := by
  rw [List.take_add_one, h, Option.toList_none, List.append_nil]

/-- An event that does not fit either is panicked on or does harm. -/
theorem fits_of_apply_eq_none {ws : Finset (String × String)} {s : InstanceState}
    {now : SystemTime} {e : WorkflowEvent} (h : s.apply now e = none) : Fits ws s e := by
  cases e with
  | signalReceived name payload at' action reviewer =>
      intro hreject hwaits hopen
      rw [apply, if_neg hreject, if_pos hwaits, Option.map_eq_none_iff] at h
      have hsome := (@recordSignal_isSome s.context name payload).mpr hopen
      rw [h] at hsome
      cases hsome
  | _ => cases h

theorem blockedUntilSignal_iff (s₀ : InstanceState) (es : List (SystemTime × WorkflowEvent))
    (h₀ : Waiting ∅ s₀) : BlockedUntilSignal s₀ es ↔ FitsAlong s₀ es := by
  constructor
  · intro h n s e hs he
    cases happly : s.apply e.1 e.2 with
    | none => exact fits_of_apply_eq_none happly
    | some s' =>
        have hnext : s₀.replay (es.take (n + 1)) = some s' := by
          rw [List.take_add_one, he, replay_append, hs]
          show (s.apply e.1 e.2).bind _ = _
          rw [happly]
          rfl
        have hwaiting := h (n + 1) s' hnext
        rw [waits_take_succ he] at hwaiting
        exact (waiting_iff_fits (h n s hs) happly).mp hwaiting
  · intro h n
    induction n with
    | zero =>
        intro s hs
        injection hs with hs
        subst hs
        exact h₀
    | succ n ih =>
        intro s' hs'
        obtain ⟨s, hs, ⟨rfl, he⟩ | ⟨e, he, happly⟩⟩ := replay_take_succ hs'
        · rw [waits_take_of_none he]
          exact ih s hs
        · rw [waits_take_succ he]
          exact (waiting_iff_fits (ih s hs) happly).mpr (h n s e hs he)

/-! ## What lets a step go -/

/-- An event that lets the blocked steps go: the signal the status names, or a
rejection. -/
def LetsGo (s : InstanceState) : WorkflowEvent → Prop
  | .signalReceived signalName _ _ action _ =>
      action = some .reject ∨ s.status = .waitingForSignal signalName
  | _ => False

theorem letsGo_of_apply {s s' : InstanceState} {now : SystemTime} {e : WorkflowEvent}
    {stepId : String} (hs : s.apply now e = some s') (hbefore : stepId ∈ s.signalBlockedSteps)
    (hafter : stepId ∉ s'.signalBlockedSteps) : LetsGo s e := by
  cases e with
  | signalReceived name payload at' action reviewer =>
      obtain ⟨hreject, -⟩ | ⟨-, hwaits, -⟩ | ⟨-, -, rfl⟩ := apply_signalReceived hs
      · exact .inl hreject
      · exact .inr hwaits
      · exact absurd hbefore hafter
  | signalWaitStarted | breakpointHit =>
      injection hs with hs
      rw [← hs] at hafter
      exact absurd (Finset.mem_insert_of_mem hbefore) hafter
  | _ =>
      injection hs with hs
      rw [← hs] at hafter
      exact absurd hbefore hafter

/-- A step that is blocked at one state of a run and not at a later one has been
let go in between. -/
theorem letsGo_between {s₀ s t : InstanceState} {es : List (SystemTime × WorkflowEvent)}
    {n m : Nat} {stepId : String} (hle : n ≤ m) (hs : s₀.replay (es.take n) = some s)
    (ht : s₀.replay (es.take m) = some t) (hbefore : stepId ∈ s.signalBlockedSteps)
    (hafter : stepId ∉ t.signalBlockedSteps) :
    ∃ k e u, n ≤ k ∧ k < m ∧ es[k]? = some e ∧ s₀.replay (es.take k) = some u ∧ LetsGo u e.2 := by
  induction m, hle using Nat.le_induction generalizing t with
  | base =>
      rw [hs] at ht
      injection ht with ht
      rw [← ht] at hafter
      exact absurd hbefore hafter
  | succ m hle ih =>
      obtain ⟨u, hu, hlast⟩ := replay_take_succ ht
      by_cases hblocked : stepId ∈ u.signalBlockedSteps
      · obtain ⟨rfl, he⟩ | ⟨e, he, happly⟩ := hlast
        · exact absurd hblocked hafter
        · exact ⟨m, e, u, hle, Nat.lt_succ_self m, he, hu,
            letsGo_of_apply happly hblocked hafter⟩
      · obtain ⟨k, e, u', hk, hkm, hrest⟩ := ih hu hblocked
        exact ⟨k, e, u', hk, Nat.lt_succ_of_lt hkm, hrest⟩

end InstanceState

/-! ## What takes the status away -/

def WorkflowEvent.restarts : WorkflowEvent → Bool
  | .instanceCreated .. | .instanceStarted => true
  | _ => false

def WorkflowEvent.waits : WorkflowEvent → Bool
  | .signalWaitStarted .. | .breakpointHit .. => true
  | _ => false

/-- The instance has been created or started since its last wait. -/
def Restarted (es : List (SystemTime × WorkflowEvent)) (n : Nat) : Prop :=
  ∃ k e, k < n ∧ es[k]? = some e ∧ e.2.restarts = true ∧
    ∀ j e', k < j → j < n → es[j]? = some e' → e'.2.waits = false

namespace InstanceState

/-- Whoever is blocked is seen in the status. -/
def Seen (s : InstanceState) : Prop :=
  s.signalBlockedSteps.Nonempty → s.status.waiting = true ∨ s.status.terminal = true

theorem seen_of_waits {s s' : InstanceState} {now : SystemTime} {e : WorkflowEvent}
    (hs : s.apply now e = some s') (he : e.waits = true) : Seen s' := by
  intro _
  cases e with
  | signalWaitStarted | breakpointHit =>
      injection hs with hs
      rw [← hs]
      exact .inl rfl
  | _ => cases he

theorem Seen.apply {s s' : InstanceState} {now : SystemTime} {e : WorkflowEvent} (h : Seen s)
    (hs : s.apply now e = some s') (he : e.restarts = false) : Seen s' := by
  have hwaiting : Waiting ∅ s := ⟨fun w hw => absurd hw (Finset.notMem_empty w), h⟩
  have hfits : Fits ∅ s e := by
    cases e with
    | instanceCreated | instanceStarted => cases he
    | signalReceived name payload at' action reviewer =>
        intro _ _ _ w hw
        exact absurd hw (Finset.notMem_empty w)
    | _ => trivial
  exact ((waiting_iff_fits hwaiting hs).mpr hfits).status

/-- Whoever is blocked is seen in the status, but for what is created or started
over a wait. -/
theorem seen_or_restarted {s₀ s : InstanceState} {es : List (SystemTime × WorkflowEvent)} {n : Nat}
    (h₀ : Seen s₀) (hs : s₀.replay (es.take n) = some s) : Seen s ∨ Restarted es n := by
  induction n generalizing s with
  | zero =>
      injection hs with hs
      subst hs
      exact .inl h₀
  | succ n ih =>
      obtain ⟨t, ht, ⟨rfl, he⟩ | ⟨e, he, happly⟩⟩ := replay_take_succ hs
      · obtain hseen | ⟨k, e, hk, hek, hrestarts, hquiet⟩ := ih ht
        · exact .inl hseen
        · refine .inr ⟨k, e, Nat.lt_succ_of_lt hk, hek, hrestarts, ?_⟩
          intro j e' hkj hj he'
          obtain hj | rfl := Nat.lt_succ_iff_lt_or_eq.mp hj
          · exact hquiet j e' hkj hj he'
          · rw [he] at he'
            cases he'
      · cases hwaits : e.2.waits with
        | true => exact .inl (seen_of_waits happly hwaits)
        | false =>
            cases hrestarts : e.2.restarts with
            | true =>
                refine .inr ⟨n, e, Nat.lt_succ_self n, he, hrestarts, ?_⟩
                intro j e' hnj hj
                omega
            | false =>
                obtain hseen | ⟨k, e₁, hk, hek, hrestarts₁, hquiet⟩ := ih ht
                · exact .inl (hseen.apply happly hrestarts)
                · refine .inr ⟨k, e₁, Nat.lt_succ_of_lt hk, hek, hrestarts₁, ?_⟩
                  intro j e' hkj hj he'
                  obtain hj | rfl := Nat.lt_succ_iff_lt_or_eq.mp hj
                  · exact hquiet j e' hkj hj he'
                  · rw [he] at he'
                    injection he' with he'
                    rw [← he']
                    exact hwaits

/-! ## From the blank instance -/

theorem waiting_blank (id : String) : Waiting ∅ (blank id) :=
  ⟨fun w hw => absurd hw (Finset.notMem_empty w), fun h => absurd h Finset.not_nonempty_empty⟩

/-- One signal is awaited at a time. A blocked step goes with the signal the
status names, or with a rejection; the status stays until the instance is
created or started anew. Each step has its own signal, throughout a run, exactly
when every event fits. -/
theorem blocked_until_letsGo (id : String) (es : List (SystemTime × WorkflowEvent)) :
    (∀ n m s t stepId, n ≤ m → (blank id).replay (es.take n) = some s →
      (blank id).replay (es.take m) = some t → stepId ∈ s.signalBlockedSteps →
        stepId ∉ t.signalBlockedSteps →
          ∃ k e u, n ≤ k ∧ k < m ∧ es[k]? = some e ∧ (blank id).replay (es.take k) = some u ∧
            LetsGo u e.2) ∧
    (∀ n s, (blank id).replay (es.take n) = some s → Seen s ∨ Restarted es n) ∧
    (BlockedUntilSignal (blank id) es ↔ FitsAlong (blank id) es) := by
  refine ⟨?_, ?_, blockedUntilSignal_iff (blank id) es (waiting_blank id)⟩
  · intro n m s t stepId hle hs ht hbefore hafter
    exact letsGo_between hle hs ht hbefore hafter
  · intro n s hs
    exact seen_or_restarted (waiting_blank id).status hs

/-- Two steps and two signals: the second signal lets both steps go. And a
breakpoint the instance is started over. -/
theorem not_blockedUntilSignal :
    ¬ BlockedUntilSignal (blank "i1") [(0, .signalWaitStarted "s1" "legal"),
        (0, .signalWaitStarted "s2" "budget"), (0, .signalReceived "budget" .null 0 none none)] ∧
      ¬ BlockedUntilSignal (blank "i1") [(0, .breakpointHit "s1" "debug" 0),
        (0, .instanceStarted)] := by
  constructor
  · intro h
    have hwaiting := (h 3 _ rfl).blocked ("s1", "legal") (by decide)
    exact Finset.notMem_empty _ hwaiting
  · intro h
    obtain hstatus | hstatus := (h 2 _ rfl).status ⟨"s1", by decide⟩
    · cases hstatus
    · cases hstatus

end InstanceState

end Pandaria.Comp
