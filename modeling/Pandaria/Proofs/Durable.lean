import Pandaria.Agent.History
import Pandaria.Lib.Run

/-!
# What the store holds

A history and its store, where `append_entries` is what `SessionStore` gives
by default: load the session, extend it, save it. The incremental save runs
this as a task of its own, so its load and its save are steps of their own,
and a task that is not waited for long enough stays behind as an orphan. A
flush overwrites the stored session, and waits for the task in flight first.

An incremental save is right when the store holds just the entries the counter
stands for, and nobody else is about to change that. After a flush the counter
still stands where it was, and the next incremental save repeats what the
flush has saved.
-/

namespace Pandaria.Agent

open Pandaria.Ai Pandaria.Lib

/-! ## The history and its store -/

/-- A save task: the entries it was handed and the session it has loaded. -/
structure AppendTask where
  newEntries : List SessionEntry
  loaded : Option (List SessionEntry)
deriving DecidableEq

/-- `log` is what has been pushed or restored, in that order; the code keeps
nothing of the kind. `current` is the unfinished task the handle of the
history waits for, and `orphans` are those it no longer waits for. -/
structure Stored where
  history : SessionHistory
  stored : List SessionEntry
  current : Option AppendTask
  orphans : List AppendTask
  log : List SessionEntry
deriving DecidableEq

/-- `fails`, `saved` and `ok` are how the store takes the request. -/
inductive StoreEvent where
  | push (id : Uuid) (m : AgentMessage)
  | restore (fails : Bool)
  | persist
  | flush (saved : Bool)
  | current (ok : Bool)
  | orphan (i : Nat) (ok : Bool)

namespace AppendTask

/-- One request of `append_entries`: the stored session after it, and the task
if it goes on. -/
def step (t : AppendTask) (stored : List SessionEntry) (ok : Bool) :
    List SessionEntry × Option AppendTask :=
  match t.loaded, ok with
  | none, true => (stored, some { t with loaded := some stored })
  | some loaded, true => (loaded ++ t.newEntries, none)
  | _, false => (stored, none)

end AppendTask

namespace Stored

/-- A new session of a store that holds `stored`. -/
def new (stored : List SessionEntry) : Stored :=
  { history := .new true
    stored := stored
    current := none
    orphans := []
    log := [] }

/-- What the store answers a restore. -/
def load (s : Stored) (fails : Bool) : Except AgentError (List SessionEntry) :=
  if fails then .error (.persistence "load failed") else .ok s.stored

/-- A restore while there is something in the history puts what it restores
before it in the log. A flush waits: it is not made while a task is running. -/
def step (s : Stored) : StoreEvent → Stored
  | .push id m =>
      { s with history := s.history.push id m, log := s.log ++ [.message id m] }
  | .restore fails =>
      { s with
        history := s.history.autoRestore (s.load fails)
        log := match restored s.history (s.load fails) with
          | some entries => entries ++ s.log.filter fun e => !entries.contains e
          | none => s.log }
  | .persist =>
      match s.history.persistIncremental with
      | none => s
      | some (history, none) => { s with history := history }
      | some (history, some slice) =>
          { s with
            history := history
            current := some { newEntries := slice, loaded := none }
            orphans := s.orphans ++ s.current.toList }
  | .flush saved =>
      if s.current.isSome then s
      else
        let (history, entries) := s.history.flush
        { s with
          history := history
          stored := if saved then entries.getD s.stored else s.stored }
  | .current ok =>
      match s.current with
      | none => s
      | some t =>
          let (stored, current) := t.step s.stored ok
          { s with stored := stored, current := current }
  | .orphan i ok =>
      match s.orphans[i]? with
      | none => s
      | some t =>
          let (stored, rest) := t.step s.stored ok
          { s with
            stored := stored
            orphans := s.orphans.take i ++ rest.toList ++ s.orphans.drop (i + 1) }

/-- The request that ends a successful save of everything there is: a flush
that goes through, the last request of the task in flight with nothing pushed
since, or an incremental save with nothing left to do. -/
def Completes (s : Stored) : StoreEvent → Prop
  | .flush saved => saved = true ∧ s.current = none
  | .current ok =>
      ok = true ∧ (∃ t, s.current = some t ∧ t.loaded.isSome) ∧
        s.history.lastSavedEntryCount = s.history.entries.length
  | .persist => s.history.lastSavedEntryCount = s.history.entries.length
  | _ => False

/-! ## The condition and the invariant -/

/-- An incremental save is made when no earlier one is still running and the
store holds as many entries as the counter says; a restore that finds a
session finds an empty history, or itself. -/
def StepOk (s : Stored) : StoreEvent → Prop
  | .persist => s.current = none ∧ s.stored.length = s.history.lastSavedEntryCount
  | .restore fails =>
      ∀ entries, restored s.history (s.load fails) = some entries →
        s.history.entries = [] ∨ s.history.entries = entries
  | _ => True

/-- The task in flight is about to make the stored session what the counter
stands for. -/
def Carries (s : Stored) (t : AppendTask) : Prop :=
  s.stored ++ t.newEntries = s.history.entries.take s.history.lastSavedEntryCount ∧
    (t.loaded = none ∨ t.loaded = some s.stored)

/-- The stored session is a beginning of the history, unless it is one that
has been there before and is not restored. -/
structure Inv (s : Stored) : Prop where
  store : s.history.hasStore = true
  orphans : s.orphans = []
  log : s.log = s.history.entries
  count : s.history.lastSavedEntryCount ≤ s.history.entries.length
  stored : s.stored <+: s.history.entries ∨
    s.history.lastSavedEntryCount < s.stored.length ∧ s.current = none
  current : ∀ t, s.current = some t → s.Carries t

theorem inv_new (stored : List SessionEntry) : (new stored).Inv where
  store := rfl
  orphans := rfl
  log := rfl
  count := Nat.le_refl _
  stored := by
    cases stored with
    | nil => exact .inl (List.nil_prefix)
    | cons e es => exact .inr ⟨Nat.succ_pos _, rfl⟩
  current := by
    intro t ht
    cases ht

theorem inv_push {s : Stored} (h : s.Inv) (id : Uuid) (m : AgentMessage) :
    (s.step (.push id m)).Inv where
  store := h.store
  orphans := h.orphans
  log := by
    show s.log ++ _ = s.history.entries ++ _
    rw [h.log]
  count := by
    show _ ≤ (s.history.entries ++ _).length
    rw [List.length_append]
    exact Nat.le_add_right_of_le h.count
  stored := by
    rcases h.stored with hp | hn
    · exact .inl (hp.trans (List.prefix_append _ _))
    · exact .inr hn
  current := by
    intro t ht
    obtain ⟨h1, h2⟩ := h.current t ht
    refine ⟨?_, h2⟩
    show s.stored ++ t.newEntries =
      (s.history.entries ++ _).take s.history.lastSavedEntryCount
    rw [List.take_append_of_le_length h.count]
    exact h1

theorem restored_load {s : Stored} {fails : Bool} {entries : List SessionEntry}
    (h : restored s.history (s.load fails) = some entries) :
    entries = s.stored ∧ entries ≠ [] := by
  unfold load restored at h
  cases fails with
  | true => cases h
  | false =>
      simp only [Bool.false_eq_true, if_false] at h
      split at h
      · next hc =>
          injection h with h
          subst h
          simp only [Bool.and_eq_true, Bool.not_eq_true', List.isEmpty_eq_false_iff] at hc
          exact ⟨rfl, hc.2⟩
      · cases h

theorem autoRestore_hasStore (h : SessionHistory) (loaded : Except AgentError (List SessionEntry)) :
    (h.autoRestore loaded).hasStore = h.hasStore := by
  rw [SessionHistory.autoRestore]
  cases h.needsRestore <;> cases hs : h.hasStore <;> cases loaded with
  | error => simp [hs]
  | ok entries => cases entries <;> simp [hs]

theorem inv_restore {s : Stored} (h : s.Inv) {fails : Bool} (hok : s.StepOk (.restore fails)) :
    (s.step (.restore fails)).Inv := by
  have hentries := autoRestore_entries s.history (s.load fails)
  have hcount := autoRestore_lastSaved s.history (s.load fails)
  have hstore := (autoRestore_hasStore s.history (s.load fails)).trans h.store
  cases hr : restored s.history (s.load fails) with
  | none =>
      rw [hr] at hentries hcount
      refine ⟨hstore, h.orphans, ?_, ?_, ?_, fun t ht => ?_⟩
      · simp only [step, hr, hentries, Option.getD_none, h.log]
      · simpa [step, hentries, hcount] using h.count
      · simpa [step, hentries, hcount] using h.stored
      · simpa [step, Carries, hentries, hcount] using h.current t ht
  | some entries =>
      obtain ⟨rfl, hne⟩ := restored_load hr
      rw [hr] at hentries hcount
      simp only [Option.getD_some, Option.map_some] at hentries hcount
      have hlog : s.stored ++ s.log.filter (fun e => !s.stored.contains e) = s.stored := by
        rw [h.log]
        rcases hok s.stored hr with he | he
        · rw [he]; simp
        · have hnil : s.stored.filter (fun e => !s.stored.contains e) = [] :=
            List.filter_eq_nil_iff.mpr fun e hmem => by simp [hmem]
          rw [he, hnil, List.append_nil]
      refine ⟨hstore, h.orphans, ?_, ?_, .inl ?_, fun t ht => ?_⟩
      · simp only [step, hr, hentries, hlog]
      · simp [step, hentries, hcount]
      · simp [step, hentries]
      · obtain ⟨h1, h2⟩ := h.current t ht
        refine ⟨?_, h2⟩
        show s.stored ++ t.newEntries = (s.history.autoRestore _).entries.take
          (s.history.autoRestore _).lastSavedEntryCount
        rw [hentries, hcount, List.take_length]
        rcases hok s.stored hr with he | he
        · -- A task of an empty history has stored nothing, and a restore finds something.
          rw [he, List.take_nil, List.append_eq_nil_iff] at h1
          exact absurd h1.1 hne
        · have hlen := congrArg List.length h1
          rw [he, List.length_append, List.length_take] at hlen
          rw [List.length_eq_zero_iff.mp (show t.newEntries.length = 0 by omega), List.append_nil]

theorem stored_eq_take {s : Stored} (h : s.Inv) (hok : s.StepOk .persist) :
    s.stored = s.history.entries.take s.history.lastSavedEntryCount := by
  rcases h.stored with hp | ⟨hlt, -⟩
  · rw [← hok.2]
    exact List.prefix_iff_eq_take.mp hp
  · have := hok.2
    omega

theorem inv_persist {s : Stored} (h : s.Inv) (hok : s.StepOk .persist) : (s.step .persist).Inv := by
  have htake := stored_eq_take h hok
  have hpre : s.stored <+: s.history.entries := htake ▸ List.take_prefix _ _
  rw [step]
  rcases persistIncremental_cases s.history with
    ⟨-, hlt, -⟩ | ⟨h', hp, he, hm, -⟩ | ⟨h', hp, he, hm, -, hlt⟩
  · have := h.count
    omega
  · rw [hp]
    refine ⟨?_, h.orphans, ?_, ?_, .inl ?_, fun t ht => ?_⟩
    · exact (persistIncremental_hasStore hp).trans h.store
    · show s.log = h'.entries
      rw [he, h.log]
    · show h'.lastSavedEntryCount ≤ h'.entries.length
      rw [he, hm]
      exact h.count
    · show s.stored <+: h'.entries
      rw [he]
      exact hpre
    · rw [show s.current = none from hok.1] at ht
      cases ht
  · rw [hp]
    refine ⟨?_, ?_, ?_, ?_, .inl ?_, fun t ht => ?_⟩
    · exact (persistIncremental_hasStore hp).trans h.store
    · show s.orphans ++ s.current.toList = []
      rw [h.orphans, hok.1]
      rfl
    · show s.log = h'.entries
      rw [he, h.log]
    · show h'.lastSavedEntryCount ≤ h'.entries.length
      exact Nat.le_of_eq (hm.trans (by rw [he]))
    · show s.stored <+: h'.entries
      rw [he]
      exact hpre
    · injection ht with ht
      subst ht
      refine ⟨?_, .inl rfl⟩
      show s.stored ++ _ = h'.entries.take h'.lastSavedEntryCount
      rw [he, hm, List.take_length, htake, List.take_append_drop]

theorem inv_flush {s : Stored} (h : s.Inv) (saved : Bool) : (s.step (.flush saved)).Inv := by
  unfold step
  simp only []
  split
  · exact h
  · next hc =>
      have hcur : s.current = none := by simpa using hc
      refine ⟨h.store, h.orphans, h.log, h.count, ?_, fun t ht => ?_⟩
      · cases saved with
        | true => exact .inl (by simp [SessionHistory.flush, h.store])
        | false => exact h.stored
      · exact absurd (hcur.symm.trans ht) (by simp)

theorem step_current {s : Stored} {t : AppendTask} (hc : s.current = some t) (ok : Bool) :
    s.step (.current ok) =
      { s with stored := (t.step s.stored ok).1, current := (t.step s.stored ok).2 } := by
  simp only [step, hc]

/-- A request that goes through loads the stored session or saves it extended. -/
theorem Carries.step {s : Stored} {t : AppendTask} (h : s.Carries t) :
    t.loaded = none ∧ t.step s.stored true = (s.stored, some { t with loaded := some s.stored }) ∨
      t.loaded = some s.stored ∧ t.step s.stored true = (s.stored ++ t.newEntries, none) := by
  unfold AppendTask.step
  rcases h.2 with hl | hl
  · rw [hl]; exact .inl ⟨rfl, rfl⟩
  · rw [hl]; exact .inr ⟨rfl, rfl⟩

theorem inv_current {s : Stored} (h : s.Inv) (ok : Bool) : (s.step (.current ok)).Inv := by
  cases hc : s.current with
  | none =>
      have hstep : s.step (.current ok) = s := by simp only [Stored.step, hc]
      rw [hstep]
      exact h
  | some t =>
      have ht := h.current t hc
      have hpre : s.stored <+: s.history.entries := by
        rcases h.stored with hp | ⟨-, hn⟩
        · exact hp
        · rw [hc] at hn; cases hn
      rw [step_current hc]
      cases ok with
      | false =>
          have hstep : t.step s.stored false = (s.stored, none) := by
            unfold AppendTask.step
            cases t.loaded <;> rfl
          rw [hstep]
          exact ⟨h.store, h.orphans, h.log, h.count, .inl hpre, fun t ht => by cases ht⟩
      | true =>
          rcases ht.step with ⟨-, hstep⟩ | ⟨-, hstep⟩
          · rw [hstep]
            refine ⟨h.store, h.orphans, h.log, h.count, .inl hpre, fun t' ht' => ?_⟩
            injection ht' with ht'
            subst ht'
            exact ⟨ht.1, .inr rfl⟩
          · rw [hstep]
            refine ⟨h.store, h.orphans, h.log, h.count, .inl ?_, fun t ht => by cases ht⟩
            show s.stored ++ t.newEntries <+: s.history.entries
            rw [ht.1]
            exact List.take_prefix _ _

theorem inv_step (s : Stored) (e : StoreEvent) (hok : s.StepOk e) (h : s.Inv) :
    (s.step e).Inv := by
  cases e with
  | push id m => exact inv_push h id m
  | restore fails => exact inv_restore h hok
  | persist => exact inv_persist h hok
  | flush saved => exact inv_flush h saved
  | current ok => exact inv_current h ok
  | orphan i ok =>
      rw [step]
      rw [h.orphans]
      exact h

/-! ## After the last save -/

theorem stored_eq_entries {s : Stored} (h : s.Inv) {e : StoreEvent} (hok : s.StepOk e)
    (hc : s.Completes e) : (s.step e).stored = (s.step e).history.entries := by
  cases e with
  | push => exact hc.elim
  | restore => exact hc.elim
  | orphan => exact hc.elim
  | flush saved =>
      obtain ⟨rfl, hcur⟩ := hc
      simp [step, hcur, SessionHistory.flush, h.store]
  | current ok =>
      obtain ⟨rfl, ⟨t, ht, hl⟩, hend⟩ := hc
      rcases (h.current t ht).step with ⟨hn, -⟩ | ⟨-, hstep⟩
      · rw [hn] at hl; cases hl
      · rw [step_current ht, hstep]
        show s.stored ++ t.newEntries = s.history.entries
        rw [(h.current t ht).1, hend, List.take_length]
  | persist =>
      have htake := stored_eq_take h hok
      have hend : s.history.lastSavedEntryCount = s.history.entries.length := hc
      rw [hend, List.take_length] at htake
      rcases persistIncremental_cases s.history with
        ⟨-, hlt, -⟩ | ⟨h', hp, he, -⟩ | ⟨h', hp, -, -, -, hlt⟩
      · omega
      · simp only [step, hp]
        rw [he, htake]
      · omega

/-- What a new session of the same store restores. -/
def restoredEntries (stored : List SessionEntry) : List SessionEntry :=
  ((SessionHistory.new true).autoRestore (.ok stored)).entries

theorem restoredEntries_eq (stored : List SessionEntry) : restoredEntries stored = stored := by
  cases stored <;> rfl

/-- After a run whose steps all meet the condition and whose last step
completes a save, the store holds everything that was pushed or restored, once
and in that order, and a restore gives the same history. -/
theorem stored_eq_log {stored : List SessionEntry} {es : List StoreEvent} {e : StoreEvent}
    (hok : Along step StepOk (new stored) (es ++ [e]))
    (hc : (es.foldl step (new stored)).Completes e) :
    let s := (es ++ [e]).foldl step (new stored)
    s.stored = s.log ∧ restoredEntries s.stored = s.history.entries := by
  obtain ⟨h1, h2, -⟩ := Along.append.mp hok
  have hinv : (es.foldl step (new stored)).Inv := h1.invariant inv_step (inv_new stored)
  have hinv' := inv_step _ e h2 hinv
  have heq := stored_eq_entries hinv h2 hc
  intro s
  have hs : s = (es.foldl step (new stored)).step e := by
    show (es ++ [e]).foldl step (new stored) = _
    rw [List.foldl_append]
    rfl
  rw [hs, restoredEntries_eq, heq, hinv'.log]
  exact ⟨rfl, rfl⟩

/-! ## A flush and an incremental save -/

def pushed (i : Nat) : StoreEvent := .push i (.user ⟨[], i⟩)

/-- Two messages, each saved incrementally. -/
def twoSaves : List StoreEvent :=
  [pushed 0, .persist, .current true, .current true, pushed 1, .persist, .current true]

theorem stored_eq_log_twoSaves :
    ((twoSaves ++ [StoreEvent.current true]).foldl step (new [])).stored =
        ((twoSaves ++ [StoreEvent.current true]).foldl step (new [])).log ∧
      restoredEntries ((twoSaves ++ [StoreEvent.current true]).foldl step (new [])).stored =
        ((twoSaves ++ [StoreEvent.current true]).foldl step (new [])).history.entries :=
  stored_eq_log
    ⟨trivial, ⟨rfl, rfl⟩, trivial, trivial, trivial, ⟨rfl, rfl⟩, trivial, trivial, trivial⟩
    ⟨rfl, ⟨_, rfl, rfl⟩, rfl⟩

/-- A flush between the two, and the first message is stored twice. -/
theorem stored_twice_after_flush :
    let s := [pushed 0, .flush true, pushed 1, .persist, .current true].foldl step (new [])
    s.Completes (.current true) ∧
      (s.step (.current true)).stored =
        [.message 0 (.user ⟨[], 0⟩), .message 0 (.user ⟨[], 0⟩), .message 1 (.user ⟨[], 1⟩)] ∧
      (s.step (.current true)).log =
        [.message 0 (.user ⟨[], 0⟩), .message 1 (.user ⟨[], 1⟩)] :=
  ⟨⟨rfl, ⟨_, rfl, rfl⟩, rfl⟩, by decide, by decide⟩

end Stored

end Pandaria.Agent
