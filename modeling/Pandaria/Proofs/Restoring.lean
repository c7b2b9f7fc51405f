import Pandaria.Proofs.CallSteps
import Pandaria.Proofs.Durable

/-!
# What was stored before a session

A session of a store that has a history takes it over with its first prompt, and
with nothing else. `Restoring` keeps beside the session what the store held when it
was made, what has been pushed since, and whether a load has gone through. Two
operations can lose something of it: a restore, which puts what it loads in the
place of what has been pushed, and a flush, which stores what there is whether it
has been restored or not. A save task only ever adds to what it has loaded.
-/

namespace Pandaria.Agent

open Pandaria.Ai Pandaria.Lib

structure Restoring where
  session : Stored
  /-- What was stored before. -/
  before : List SessionEntry
  pushed : List SessionEntry
  /-- A load has gone through. -/
  taken : Bool
deriving DecidableEq

namespace Restoring

/-- A new session of a store that holds `before`. -/
def new (before : List SessionEntry) : Restoring :=
  { session := .new before, before := before, pushed := [], taken := false }

def step (s : Restoring) (e : StoreEvent) : Restoring :=
  { session := s.session.step e
    before := s.before
    pushed := match e with
      | .push id m => s.pushed ++ [.message id m]
      | _ => s.pushed
    taken := match e with
      | .restore fails => s.taken || (s.session.history.needsRestore && !fails)
      | _ => s.taken }

/-- Nothing is lost: what was stored is stored, what has been pushed comes last, and once
it has been loaded, what was stored comes first. -/
structure Intact (s : Restoring) : Prop where
  stored : s.before <+: s.session.stored
  pushed : s.pushed <:+ s.session.history.entries
  taken : s.taken = true → s.before <+: s.session.history.entries

/-- A load that finds a history finds what has been pushed at the end of it; a flush is
made after a load has gone through, or where what has been pushed begins with what was
stored. -/
def StepOk (s : Restoring) : StoreEvent → Prop
  | .restore fails =>
      s.session.history.needsRestore = true → fails = false → s.session.stored ≠ [] →
        s.pushed <:+ s.session.stored
  | .flush saved =>
      saved = true → s.session.current = none → s.taken = true ∨ s.before <+: s.pushed
  | _ => True

/-- What holds of the session as long as nothing is lost. -/
structure Inv (s : Restoring) : Prop where
  store : s.session.history.hasStore = true
  untaken : s.taken = false → s.session.history.entries = s.pushed
  needs : s.session.history.needsRestore = true → s.taken = false
  current : ∀ t l, s.session.current = some t → t.loaded = some l → s.before <+: l
  orphans : ∀ t l, t ∈ s.session.orphans → t.loaded = some l → s.before <+: l

variable {s : Restoring}

theorem inv_new (before : List SessionEntry) : (new before).Inv where
  store := rfl
  untaken _ := rfl
  needs _ := rfl
  current t l ht := by cases ht
  orphans t l ht := by cases ht

theorem intact_new (before : List SessionEntry) : (new before).Intact where
  stored := List.prefix_refl _
  pushed := List.suffix_refl _
  taken h := by cases h

/-! ## One step -/

theorem step_push (h : s.Inv) (hi : s.Intact) (id : Uuid) (m : AgentMessage) :
    (s.step (.push id m)).Inv ∧ (s.step (.push id m)).Intact := by
  constructor
  · refine ⟨h.store, fun ht => ?_, h.needs, h.current, h.orphans⟩
    exact congrArg (· ++ [SessionEntry.message id m]) (h.untaken ht)
  · refine ⟨hi.stored, ?_, fun ht => (hi.taken ht).trans (List.prefix_append _ _)⟩
    obtain ⟨base, hbase⟩ := hi.pushed
    refine ⟨base, ?_⟩
    show base ++ (s.pushed ++ _) = s.session.history.entries ++ _
    rw [← List.append_assoc, hbase]

theorem autoRestore_needsRestore (h : SessionHistory)
    (loaded : Except AgentError (List SessionEntry)) :
    (h.autoRestore loaded).needsRestore = false := by
  rw [SessionHistory.autoRestore]
  cases hn : h.needsRestore <;> cases hs : h.hasStore <;> cases loaded with
  | error => simp [hn]
  | ok entries => cases entries <;> simp [hn]

/-- What a restore of this session takes over. -/
theorem restored_eq (h : s.Inv) (fails : Bool) :
    restored s.session.history (s.session.load fails) =
      if s.session.history.needsRestore && !fails && !s.session.stored.isEmpty then
        some s.session.stored
      else none := by
  cases fails with
  | true => simp [restored, Stored.load]
  | false => simp [restored, Stored.load, h.store]

theorem restore_entries (h : s.Inv) (fails : Bool) :
    (s.step (.restore fails)).session.history.entries =
      (if s.session.history.needsRestore && !fails && !s.session.stored.isEmpty then
        some s.session.stored
      else none).getD s.session.history.entries := by
  rw [← restored_eq h fails]
  exact autoRestore_entries s.session.history (s.session.load fails)

/-- After a restore nothing is left to restore, whether it has loaded anything or not. -/
theorem inv_restore (h : s.Inv) (fails : Bool)
    (huntaken : (s.step (.restore fails)).taken = false →
      (s.step (.restore fails)).session.history.entries = s.pushed) :
    (s.step (.restore fails)).Inv where
  store := (Stored.autoRestore_hasStore s.session.history (s.session.load fails)).trans h.store
  untaken := huntaken
  needs hn := by
    have hdone := autoRestore_needsRestore s.session.history (s.session.load fails)
    exact absurd (hdone.symm.trans hn) Bool.false_ne_true
  current := h.current
  orphans := h.orphans

/-- A load that goes through puts what is stored in the place of the entries, if there is
any of it. -/
theorem step_load (h : s.Inv) (hi : s.Intact) (hneeds : s.session.history.needsRestore = true) :
    (s.step (.restore false)).Inv ∧
      ((s.step (.restore false)).Intact ↔ s.StepOk (.restore false)) := by
  have hentries := restore_entries h false
  have htaken : (s.step (.restore false)).taken = true := by
    show (s.taken || (s.session.history.needsRestore && true)) = true
    rw [hneeds]
    exact Bool.or_true _
  rw [hneeds] at hentries
  refine ⟨inv_restore h false fun ht => absurd (htaken.symm.trans ht) Bool.noConfusion, ?_⟩
  by_cases hempty : s.session.stored = []
  · -- There was nothing to load, and nothing of it can be lost.
    rw [hempty] at hentries
    have hbefore : s.before = [] := List.prefix_nil.mp (hempty ▸ hi.stored)
    refine iff_of_true ⟨hi.stored, ?_, fun _ => ?_⟩ fun _ _ hne => absurd hempty hne
    · show s.pushed <:+ _
      rw [hentries]
      exact hi.pushed
    · show s.before <+: _
      rw [hbefore]
      exact List.nil_prefix
  · have hload : (s.step (.restore false)).session.history.entries = s.session.stored := by
      rw [hentries]
      simp [hempty]
    constructor
    · intro hi' _ _ _
      have hpushed := hi'.pushed
      rw [hload] at hpushed
      exact hpushed
    · intro hok
      refine ⟨hi.stored, ?_, fun _ => ?_⟩
      · rw [hload]
        exact hok hneeds rfl hempty
      · rw [hload]
        exact hi.stored

/-- A restore that is not needed or fails leaves the entries alone. -/
theorem step_noLoad (h : s.Inv) (hi : s.Intact) {fails : Bool}
    (hno : (s.session.history.needsRestore && !fails) = false) :
    (s.step (.restore fails)).Inv ∧ (s.step (.restore fails)).Intact := by
  have hentries := restore_entries h fails
  have htaken : (s.step (.restore fails)).taken = s.taken := by
    show (s.taken || (s.session.history.needsRestore && !fails)) = s.taken
    rw [hno]
    exact Bool.or_false _
  rw [hno] at hentries
  have hsame : (s.step (.restore fails)).session.history.entries = s.session.history.entries :=
    hentries
  refine ⟨inv_restore h fails fun ht => ?_, hi.stored, ?_, fun ht => ?_⟩
  · rw [hsame]
    exact h.untaken (htaken.symm.trans ht)
  · rw [hsame]
    exact hi.pushed
  · rw [hsame]
    exact hi.taken (htaken.symm.trans ht)

theorem step_restore (h : s.Inv) (hi : s.Intact) (fails : Bool) :
    (s.step (.restore fails)).Inv ∧
      ((s.step (.restore fails)).Intact ↔ s.StepOk (.restore fails)) := by
  by_cases hload : s.session.history.needsRestore = true ∧ fails = false
  · obtain ⟨hneeds, rfl⟩ := hload
    exact step_load h hi hneeds
  · obtain ⟨hinv, hintact⟩ := @step_noLoad s h hi fails (by simpa using hload)
    exact ⟨hinv, iff_of_true hintact fun hneeds hf => absurd ⟨hneeds, hf⟩ hload⟩

/-- The other operations leave the entries alone. -/
theorem Inv.withSession (h : s.Inv) {s' : Stored}
    (hentries : s'.history.entries = s.session.history.entries)
    (hstore : s'.history.hasStore = s.session.history.hasStore)
    (hneeds : s'.history.needsRestore = s.session.history.needsRestore)
    (hcurrent : ∀ t l, s'.current = some t → t.loaded = some l → s.before <+: l)
    (horphans : ∀ t l, t ∈ s'.orphans → t.loaded = some l → s.before <+: l) :
    Inv { s with session := s' } where
  store := hstore.trans h.store
  untaken ht := hentries.trans (h.untaken ht)
  needs hn := h.needs (hneeds.symm.trans hn)
  current := hcurrent
  orphans := horphans

theorem Intact.withSession (hi : s.Intact) {s' : Stored}
    (hentries : s'.history.entries = s.session.history.entries) (hstored : s.before <+: s'.stored) :
    Intact { s with session := s' } where
  stored := hstored
  pushed := hentries ▸ hi.pushed
  taken ht := hentries ▸ hi.taken ht

theorem persistIncremental_needsRestore {h h' : SessionHistory}
    {slice : Option (List SessionEntry)} (hp : h.persistIncremental = some (h', slice)) :
    h'.needsRestore = h.needsRestore := by
  rw [SessionHistory.persistIncremental] at hp
  split at hp
  · injection hp with hp
    injection hp with hp
    rw [← hp]
  · split at hp
    · cases hp
    · simp only [] at hp
      split at hp <;> (injection hp with hp; injection hp with hp; rw [← hp])

/-- An incremental save starts a task that has loaded nothing. -/
theorem step_persist (h : s.Inv) (hi : s.Intact) :
    (s.step .persist).Inv ∧ (s.step .persist).Intact := by
  have hstep : s.step .persist = { s with session := s.session.step .persist } := rfl
  rw [hstep]
  obtain ⟨-, -, hp⟩ | ⟨h', hp, hentries, -⟩ | ⟨h', hp, hentries, -⟩ :=
    persistIncremental_cases s.session.history
  · have hsame : s.session.step .persist = s.session := by
      simp only [Stored.step, hp]
    rw [hsame]
    exact ⟨h, hi⟩
  · have hnext : s.session.step .persist = { s.session with history := h' } := by
      simp only [Stored.step, hp]
    rw [hnext]
    exact ⟨h.withSession hentries (persistIncremental_hasStore hp)
      (persistIncremental_needsRestore hp) h.current h.orphans, hi.withSession hentries hi.stored⟩
  · have hnext : s.session.step .persist =
        { s.session with
          history := h'
          current := some
            { newEntries := s.session.history.entries.drop s.session.history.lastSavedEntryCount
              loaded := none }
          orphans := s.session.orphans ++ s.session.current.toList } := by
      simp only [Stored.step, hp]
    rw [hnext]
    refine ⟨h.withSession hentries (persistIncremental_hasStore hp)
      (persistIncremental_needsRestore hp) ?_ ?_, hi.withSession hentries hi.stored⟩
    · intro t l ht hl
      injection ht with ht
      rw [← ht] at hl
      cases hl
    · intro t l ht hl
      obtain ht | ht := List.mem_append.mp ht
      · exact h.orphans t l ht hl
      · exact h.current t l (Option.mem_toList.mp ht) hl

/-- A flush stores the entries: those that have been loaded and pushed, or only pushed. -/
theorem step_flush (h : s.Inv) (hi : s.Intact) (saved : Bool) :
    (s.step (.flush saved)).Inv ∧
      ((s.step (.flush saved)).Intact ↔ s.StepOk (.flush saved)) := by
  have hstep : s.step (.flush saved) = { s with session := s.session.step (.flush saved) } := rfl
  rw [hstep]
  cases hc : s.session.current with
  | some t =>
      have hsame : s.session.step (.flush saved) = s.session := by
        simp [Stored.step, hc]
      rw [hsame]
      refine ⟨h, iff_of_true hi fun _ hnone => ?_⟩
      rw [hc] at hnone
      cases hnone
  | none =>
      have hnext : s.session.step (.flush saved) =
          { s.session with
            history := { s.session.history with lastSave := false }
            stored := if saved then s.session.history.entries else s.session.stored } := by
        simp [Stored.step, hc, SessionHistory.flush, h.store]
      rw [hnext]
      refine ⟨h.withSession rfl rfl rfl h.current h.orphans, ?_⟩
      cases saved with
      | false => exact iff_of_true (hi.withSession rfl hi.stored) fun hs => by cases hs
      | true =>
          constructor
          · intro hi' _ _
            cases htaken : s.taken with
            | true => exact .inl rfl
            | false =>
                right
                rw [← h.untaken htaken]
                exact hi'.stored
          · intro hok
            refine hi.withSession rfl ?_
            show s.before <+: s.session.history.entries
            obtain htaken | hpushed := hok rfl hc
            · exact hi.taken htaken
            · cases htaken : s.taken with
              | true => exact hi.taken htaken
              | false => rw [h.untaken htaken]; exact hpushed

/-- A request of a save task adds to what the task has loaded. -/
theorem task_extends {before stored : List SessionEntry} {t : AppendTask}
    (hstored : before <+: stored) (hloaded : ∀ l, t.loaded = some l → before <+: l) (ok : Bool) :
    before <+: (t.step stored ok).1 ∧
      ∀ t', (t.step stored ok).2 = some t' → ∀ l, t'.loaded = some l → before <+: l := by
  unfold AppendTask.step
  cases hl : t.loaded with
  | none =>
      cases ok with
      | false => exact ⟨hstored, fun t' ht' => by cases ht'⟩
      | true =>
          refine ⟨hstored, fun t' ht' l hl' => ?_⟩
          injection ht' with ht'
          rw [← ht'] at hl'
          injection hl' with hl'
          rw [← hl']
          exact hstored
  | some l =>
      cases ok with
      | false => exact ⟨hstored, fun t' ht' => by cases ht'⟩
      | true =>
          exact ⟨(hloaded l hl).trans (List.prefix_append _ _), fun t' ht' => by cases ht'⟩

theorem step_current (h : s.Inv) (hi : s.Intact) (ok : Bool) :
    (s.step (.current ok)).Inv ∧ (s.step (.current ok)).Intact := by
  have hstep : s.step (.current ok) = { s with session := s.session.step (.current ok) } := rfl
  rw [hstep]
  cases hc : s.session.current with
  | none =>
      have hsame : s.session.step (.current ok) = s.session := by
        simp only [Stored.step, hc]
      rw [hsame]
      exact ⟨h, hi⟩
  | some t =>
      obtain ⟨hstored, htask⟩ := task_extends hi.stored (fun l => h.current t l hc) ok
      rw [Stored.step_current hc]
      exact ⟨h.withSession rfl rfl rfl (fun t' l ht' => htask t' ht' l) h.orphans,
        hi.withSession rfl hstored⟩

theorem step_orphan (h : s.Inv) (hi : s.Intact) (i : Nat) (ok : Bool) :
    (s.step (.orphan i ok)).Inv ∧ (s.step (.orphan i ok)).Intact := by
  have hstep : s.step (.orphan i ok) = { s with session := s.session.step (.orphan i ok) } := rfl
  rw [hstep]
  cases hget : s.session.orphans[i]? with
  | none =>
      have hsame : s.session.step (.orphan i ok) = s.session := by
        simp only [Stored.step, hget]
      rw [hsame]
      exact ⟨h, hi⟩
  | some t =>
      have hmem := List.mem_of_getElem? hget
      obtain ⟨hstored, htask⟩ := task_extends hi.stored (fun l => h.orphans t l hmem) ok
      have hnext : s.session.step (.orphan i ok) =
          { s.session with
            stored := (t.step s.session.stored ok).1
            orphans := s.session.orphans.take i ++ (t.step s.session.stored ok).2.toList ++
              s.session.orphans.drop (i + 1) } := by
        simp only [Stored.step, hget]
      rw [hnext]
      refine ⟨h.withSession rfl rfl rfl h.current ?_, hi.withSession rfl hstored⟩
      intro t' l ht' hl
      obtain ht' | ht' := List.mem_append.mp ht'
      · obtain ht' | ht' := List.mem_append.mp ht'
        · exact h.orphans t' l (List.mem_of_mem_take ht') hl
        · exact htask t' (Option.mem_toList.mp ht') l hl
      · exact h.orphans t' l (List.mem_of_mem_drop ht') hl

/-! ## Runs -/

theorem step_intact_iff (s : Restoring) (e : StoreEvent) (h : s.Inv) (hi : s.Intact) :
    (s.step e).Inv ∧ ((s.step e).Intact ↔ s.StepOk e) := by
  cases e with
  | push id m => exact (step_push h hi id m).imp_right fun hi' => iff_of_true hi' trivial
  | restore fails => exact step_restore h hi fails
  | persist => exact (step_persist h hi).imp_right fun hi' => iff_of_true hi' trivial
  | flush saved => exact step_flush h hi saved
  | current ok => exact (step_current h hi ok).imp_right fun hi' => iff_of_true hi' trivial
  | orphan i ok => exact (step_orphan h hi i ok).imp_right fun hi' => iff_of_true hi' trivial

/-- Nothing is lost in any state of a run exactly when every step of it meets its
condition. -/
theorem intact_iff_along (before : List SessionEntry) (es : List StoreEvent) :
    (∀ n, ((es.take n).foldl step (new before)).Intact) ↔ Along step StepOk (new before) es :=
  along_iff_forall_good step_intact_iff (inv_new before) (intact_new before) es

/-- A session that was stored. -/
def oldSession : List SessionEntry := [.message 0 (userText "before")]

/-- A message pushed before the first prompt is gone after it. A flush after a load that
failed, or after a message that came without a prompt, stores that message alone. -/
theorem not_intact :
    let pushedFirst := [.push 1 (userText "now"), .restore false].foldl step (new oldSession)
    let loadFailed :=
      [.restore true, .push 1 (userText "now"), .flush true].foldl step (new oldSession)
    let notRestored := [.push 1 (userText "now"), .flush true].foldl step (new oldSession)
    (pushedFirst.session.history.entries = oldSession ∧ ¬ pushedFirst.Intact) ∧
      (loadFailed.session.stored = [.message 1 (userText "now")] ∧ ¬ loadFailed.Intact) ∧
      (notRestored.session.stored = [.message 1 (userText "now")] ∧ ¬ notRestored.Intact) := by
  refine ⟨⟨by decide, fun h => ?_⟩, ⟨by decide, fun h => ?_⟩, by decide, fun h => ?_⟩
  · exact absurd h.pushed (by decide)
  · exact absurd h.stored (by decide)
  · exact absurd h.stored (by decide)

end Restoring

/-! ## The calls of a session -/

/-- A prompt restores before it pushes anything; what `complete_with_deltas` pushes, it
pushes as it is. -/
theorem prompt_restores {cfg : SessionConfig} {env : Env} (content : List Content) (text : String)
    (c : Call) (hidle : c.actor.machine.state ≠ .error) :
    (∃ h, h = c.actor.history.autoRestore (env.loadSession c.actor.world.now) ∧
      ((Call.stepPrompt cfg env content c).actor.history = h ∨
        ∃ id m, (Call.stepPrompt cfg env content c).actor.history = h.push id m)) ∧
    ∃ id m, (Call.completeWithDeltas env text c.actor).actor.history =
      c.actor.history.push id m := by
  refine ⟨⟨_, rfl, ?_⟩, _, _, rfl⟩
  unfold Call.stepPrompt
  simp only [if_neg hidle]
  split
  · left
    unfold Call.stepSkill
    split
    · rw [(Call.leave_spec c _ _).1]
      rfl
    · split
      · rw [(Call.leave_spec c _ _).1]
        rfl
      · rfl
  · exact .inr ⟨_, _, rfl⟩

end Pandaria.Agent
