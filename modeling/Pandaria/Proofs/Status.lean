import Pandaria.Agent.Status
import Pandaria.Lib.Run

/-!
# The last status set and the one stored

What is stored is what the task that went last has set, if there was a row for
it to set it in. So the tasks that set a status have to go in the order they
were spawned in, and none of them before the row has been made, by an append or
by a flush. The appends themselves may go whenever they like: they leave the
status of a row alone.
-/

namespace Pandaria.Agent

open Pandaria.Ai Pandaria.Lib Pandaria.Storage

variable {ν : Type _} {p : StoreSetting ν} {s : Persisting ν}

namespace Persisting

/-- When no task is pending, the stored status is the last one set. -/
def Settled (p : StoreSetting ν) (s : Persisting ν) : Prop :=
  s.tasks = [] → ∀ status ∈ s.last, storedStatus p s.pg = some status

/-- The statuses that are still to be set. -/
def pending (tasks : List PersistTask) : List String := tasks.filterMap PersistTask.status?

/-- A task that sets a status goes behind those spawned before it, and behind
the first write of the row. -/
def Ok (p : StoreSetting ν) (s : Persisting ν) : PersistEvent → Prop
  | .session _ => True
  | .run i =>
      ∀ task ∈ s.tasks[i]?, ∀ status ∈ task.status?,
        pending (s.tasks.take i) = [] ∧ (storedStatus p s.pg).isSome = true ∧
          (isText p.tenantId && isText p.sessionId && isText status) = true

/-! ## The row -/

theorem storedStatus_upsert (pg : Pg ν) (f : List ν → List ν) (new : List ν) :
    storedStatus p (pg.upsert p.tenantId p.sessionId f new) =
      some ((storedStatus p pg).getD "active") := by
  rw [storedStatus, Pg.upsert, Table.get?_upsert, if_pos rfl, storedStatus]
  cases pg.sessions.get? (p.tenantId, p.sessionId) <;> rfl

/-- A write of the entries leaves the status there is. -/
theorem storedStatus_saveSession {pg : Pg ν} {status : String} (entries : List SessionEntry)
    (h : storedStatus p pg = some status) :
    storedStatus p (p.store.saveSession pg p.tenantId p.sessionId entries).1 = some status := by
  rw [PgSessionStore.saveSession]
  split
  · rw [storedStatus_upsert, h]
    rfl
  · exact h

theorem storedStatus_append {pg : Pg ν} {status : String} (entries : List SessionEntry)
    (h : storedStatus p pg = some status) :
    storedStatus p (runTask p pg (.append entries)) = some status := by
  rw [runTask, PgSessionStore.appendEntries]
  split
  · rw [storedStatus_upsert, h]
    rfl
  · exact h

/-- A status that is set in a row is the one stored. -/
theorem storedStatus_status {pg : Pg ν} {status : String}
    (hrow : (storedStatus p pg).isSome = true)
    (htext : (isText p.tenantId && isText p.sessionId && isText status) = true) :
    storedStatus p (runTask p pg (.status status)) = some status := by
  rw [runTask, PgSessionStore.updateSessionStatus, if_pos htext, Pg.updateStatus]
  rw [storedStatus, Option.isSome_map, Option.isSome_iff_exists] at hrow
  obtain ⟨row, hrow⟩ := hrow
  rw [hrow]
  show storedStatus p { pg with sessions := pg.sessions.upsert _ _ } = _
  rw [storedStatus, Table.get?_upsert, if_pos rfl]
  rfl

/-! ## The tasks -/

theorem pending_append (tasks tasks' : List PersistTask) :
    pending (tasks ++ tasks') = pending tasks ++ pending tasks' := List.filterMap_append ..

/-- Without the task at `i`. -/
theorem pending_eraseIdx (tasks : List PersistTask) (i : Nat) :
    pending (tasks.eraseIdx i) = pending (tasks.take i) ++ pending (tasks.drop (i + 1)) := by
  rw [List.eraseIdx_eq_take_drop_succ, pending_append]

theorem pending_of_getElem? {tasks : List PersistTask} {i : Nat} {task : PersistTask}
    (h : tasks[i]? = some task) :
    pending tasks =
      pending (tasks.take i) ++ (task.status?.toList ++ pending (tasks.drop (i + 1))) := by
  have hsplit : tasks = tasks.take i ++ task :: tasks.drop (i + 1) := by
    obtain ⟨hi, htask⟩ := List.getElem?_eq_some_iff.mp h
    rw [← htask, ← List.drop_eq_getElem_cons hi, List.take_append_drop]
  conv => lhs; rw [hsplit]
  rw [pending_append]
  refine congrArg (pending (tasks.take i) ++ ·) ?_
  cases task with
  | status status => rfl
  | append entries => rfl

/-! ## What every step keeps -/

/-- The last status set is the last that is pending, or, if none is, the one
that is stored. -/
def Carried (p : StoreSetting ν) (s : Persisting ν) : Prop :=
  ∀ status ∈ s.last,
    (pending s.tasks).getLast? = some status ∨
      pending s.tasks = [] ∧ storedStatus p s.pg = some status

theorem Carried.settled (h : s.Carried p) : s.Settled p := by
  intro htasks status hlast
  rcases h status hlast with hpending | ⟨_, hstored⟩
  · rw [htasks] at hpending
    cases hpending
  · exact hstored

theorem Carried.spawn (h : s.Carried p) (status : Option String)
    (entries : Option (List SessionEntry)) : (s.spawn status entries).Carried p := by
  rw [Persisting.spawn]
  split
  · have hpending : pending (s.tasks ++ (status.map PersistTask.status).toList ++
        (entries.map PersistTask.append).toList) = pending s.tasks ++ status.toList := by
      rw [pending_append, pending_append]
      cases status <;> cases entries <;> simp [pending, PersistTask.status?]
    intro last hlast
    rw [hpending]
    cases status with
    | none =>
        rw [Option.toList_none, List.append_nil]
        exact h last hlast
    | some status =>
        injection hlast with hlast
        rw [← hlast]
        exact .inl List.getLast?_concat
  · exact h

/-- A write of the entries. -/
theorem Carried.write {pg : Pg ν} (h : s.Carried p)
    (hpg : ∀ status, storedStatus p s.pg = some status → storedStatus p pg = some status) :
    ({ s with pg := pg } : Persisting ν).Carried p := by
  intro status hlast
  rcases h status hlast with hpending | ⟨hnone, hstored⟩
  · exact .inl hpending
  · exact .inr ⟨hnone, hpg status hstored⟩

theorem Carried.run {i : Nat} {task : PersistTask} (h : s.Carried p) (htask : s.tasks[i]? = some task)
    (hok : s.Ok p (.run i)) :
    ({ s with pg := runTask p s.pg task, tasks := s.tasks.eraseIdx i } : Persisting ν).Carried
      p := by
  have hpending := pending_of_getElem? htask
  intro last hlast
  show (pending (s.tasks.eraseIdx i)).getLast? = _ ∨ pending (s.tasks.eraseIdx i) = [] ∧ _
  rw [pending_eraseIdx]
  cases task with
  | append entries =>
      rw [PersistTask.status?, Option.toList_none, List.nil_append] at hpending
      rw [← hpending]
      exact (h.write fun status => storedStatus_append entries) last hlast
  | status status =>
      obtain ⟨hfirst, hrow, htext⟩ := hok _ htask status rfl
      rw [hfirst, List.nil_append] at hpending ⊢
      have hset := storedStatus_status hrow htext
      -- Either it was the last status that was pending, or that one is pending still.
      rcases h last hlast with hlater | ⟨hnone, _⟩
      · rw [hpending] at hlater
        cases hrest : pending (s.tasks.drop (i + 1)) with
        | nil =>
            rw [hrest] at hlater
            injection hlater with hlater
            exact .inr ⟨rfl, by rw [← hlater]; exact hset⟩
        | cons status' rest =>
            rw [hrest] at hlater
            exact .inl ((List.getLast?_cons_cons ..).symm.trans hlater)
      · rw [hpending] at hnone
        cases hnone

theorem carried_step (h : s.Carried p) (e : PersistEvent) (hok : s.Ok p e) :
    (s.step p e).Carried p := by
  cases e with
  | session e =>
      cases e with
      | advance => exact h.spawn s.call.nextStatus (s.call.nextSave p.cfg p.env)
      | op o =>
          rw [step]
          split
          · exact h
          · have hspawned := h.spawn o.status none
            have hpg : (s.spawn o.status none).pg = s.pg := by
              rw [spawn]
              split <;> rfl
            refine hspawned.write (fun status hstored => ?_)
            rw [hpg] at hstored
            split
            · exact storedStatus_saveSession _ hstored
            · exact hstored
  | run i =>
      rw [step]
      split
      · next task htask => exact h.run htask hok
      · exact h

/-- Whatever a session does and whatever its store held before: when the tasks
that set a status go in their order and find a row, then as soon as no task is
pending the stored status is the last one set. -/
theorem settled_of_along_ok (p : StoreSetting ν) (pg : Pg ν) (events : List PersistEvent)
    (h : Along (step p) (Ok p) (start p pg) events) :
    (events.foldl (step p) (start p pg)).Settled p := by
  have hstart : (start p pg).Carried p := by
    intro status hlast
    cases hlast
  refine Carried.settled ?_
  refine Along.invariant (fun s e hok hs => ?_) hstart h
  exact carried_step hs e hok

/-! ## Tasks that go too early -/

instance (s : Persisting ν) : ∀ e, Decidable (s.Ok p e)
  | .session _ => inferInstanceAs (Decidable True)
  | .run i =>
      inferInstanceAs (Decidable (∀ task ∈ s.tasks[i]?, ∀ status ∈ task.status?, _ ∧ _ ∧ _))

/-- A session whose provider says that it is done. -/
def doneSetting : StoreSetting SessionEntry :=
  { store := { codec := .id _, accepts := fun _ => true }
    tenantId := "acme"
    sessionId := "s1"
    cfg := { plainConfig 0 with hasStore := true }
    env := { Env.quiet with stream := fun _ => .ok (saying "done") } }

/-- The events of the first prompt of a session: three tasks are pending
afterwards, which set it active, set it completed and append its entries. -/
def firstRun : List PersistEvent :=
  .session (.op (.prompt "hi")) :: List.replicate 12 (.session .advance)

theorem settled_firstRun :
    ((firstRun ++ [PersistEvent.run 2, .run 0, .run 0]).foldl (step doneSetting)
      (start doneSetting .empty)).Settled doneSetting := by
  refine settled_of_along_ok doneSetting .empty _ ?_
  decide +kernel

/-- The second prompt of a session whose row is there, up to its agent loop. -/
def secondRun : List PersistEvent :=
  firstRun ++ [.run 2, .session (.op (.prompt "again")), .session .advance, .session .advance]

/-- Run as they were spawned, the tasks of the first prompt find no row: it is
made at last, with the default status, although the session has completed. And
a session that is running is left completed when the task of its last run goes
behind that of this one. -/
theorem not_settled_early_or_late :
    ¬ ((firstRun ++ [PersistEvent.run 0, .run 0, .run 0]).foldl (step doneSetting)
        (start doneSetting .empty)).Settled doneSetting ∧
      ¬ ((secondRun ++ [PersistEvent.run 0, .run 1, .run 0]).foldl (step doneSetting)
        (start doneSetting .empty)).Settled doneSetting := by
  constructor
  · intro h
    have hstored := h (by decide +kernel) "completed" (by decide +kernel)
    revert hstored
    decide +kernel
  · intro h
    have hstored := h (by decide +kernel) "active" (by decide +kernel)
    revert hstored
    decide +kernel

end Persisting

end Pandaria.Agent
