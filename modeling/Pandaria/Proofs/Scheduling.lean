import Pandaria.Proofs.Hierarchy
import Pandaria.Proofs.Merge

/-!
# Running a team to its end

`run_dag` from its first loop head to its return, under any interleaving of the
executions it starts, as long as none of them fails or pauses the squad. Then
nothing is left in `running` at a loop head, and the driver never waits for what
it cannot hear of.

The order in which missions are started is itself the order a team asks for: a
mission is ready with what is completed, which has been started before. So a run
that ends with all completed has found one, and a run that finds nothing ready
has not found one because there is none, as in any order the first of those left
would be ready now. A step that changes anything uses up some of a measure: eight
for a mission that is not started, against at most five acts, its result and the
next loop head.
-/

namespace Pandaria.Comp

open Pandaria.Ai Pandaria.Lib

variable {cfg : EngineConfig} {team : ValidTeam}

/-! ## Orders and reports -/

/-- The missions that are not done. -/
def ValidTeam.left (team : ValidTeam) (done : Finset String) : List Mission :=
  team.team.missions.filter fun m => m.id ∉ done

/-- What is not done can be done in some order. -/
def ValidTeam.Satisfiable (team : ValidTeam) (done : Finset String) : Prop :=
  ∃ order : List Mission, order.Perm (team.left done) ∧
    Doable Mission.id (fun done m => m.ReadyAfter done) done order

def Act.completedMission : Act → Option String
  | .emit (.missionCompleted id _ _ _) => some id
  | _ => none

/-- The missions reported as completed. -/
def completedIn (acts : List Act) : Finset String := (acts.filterMap Act.completedMission).toFinset

theorem mem_completedIn {acts : List Act} {id : String} :
    id ∈ completedIn acts ↔ ∃ act ∈ acts, act.completedMission = some id := by
  rw [completedIn, List.mem_toFinset, List.mem_filterMap]

theorem completedIn_mono {acts acts' : List Act} (h : acts ⊆ acts') :
    completedIn acts ⊆ completedIn acts' := by
  intro id hid
  obtain ⟨act, hact, hc⟩ := mem_completedIn.mp hid
  exact mem_completedIn.mpr ⟨act, h hact, hc⟩

theorem ValidTeam.mem_left {done : Finset String} {m : Mission} :
    m ∈ team.left done ↔ m ∈ team.team.missions ∧ m.id ∉ done := by
  rw [ValidTeam.left, List.mem_filter, decide_eq_true_eq]

theorem ValidTeam.nodup_left (team : ValidTeam) (done : Finset String) :
    ((team.left done).map Mission.id).Nodup :=
  team.nodup.sublist (List.filter_sublist.map _)

/-- When there is an order, something of what is left is ready at any time. -/
theorem ValidTeam.Satisfiable.exists_ready {done completed : Finset String}
    (h : team.Satisfiable done) (hdone : done ⊆ completed)
    (hleft : ∃ m ∈ team.team.missions, m.id ∉ completed) :
    ∃ m ∈ team.team.missions, m.id ∉ completed ∧ m.ReadyAfter completed := by
  obtain ⟨order, hperm, hdoable⟩ := h
  obtain ⟨m, hm, hout⟩ := hleft
  have hmem {id : String} : id ∈ ((team.left done).map Mission.id).toFinset \ completed ↔
      id ∈ (team.left done).map Mission.id ∧ id ∉ completed := by
    rw [Finset.mem_sdiff, List.mem_toFinset]
  have horder : (order.map Mission.id).toFinset = ((team.left done).map Mission.id).toFinset :=
    List.toFinset_eq_of_perm _ _ (hperm.map _)
  have hmleft : m ∈ team.left done := mem_left.mpr ⟨hm, fun hin => hout (hdone hin)⟩
  have hwaits : ∃ m ∈ order, m.id ∈ ((team.left done).map Mission.id).toFinset \ completed :=
    ⟨m, hperm.symm.subset hmleft, hmem.mpr ⟨List.mem_map_of_mem hmleft, hout⟩⟩
  obtain ⟨m', hm', hin, hready⟩ := hdoable.exists_ready (fun _ _ _ hst h => h.mono hst)
    (fun id hid hw => (hmem.mp hw).2 (hdone hid)) hwaits
  refine ⟨m', (mem_left.mp (hperm.subset hm')).1, (hmem.mp hin).2, hready.mono fun id hid => ?_⟩
  rw [horder, Finset.mem_sdiff, Finset.mem_union, hmem] at hid
  rcases hid with ⟨hid | hid, hnot⟩
  · exact hdone hid
  · by_contra hc
    exact hnot ⟨List.mem_toFinset.mp hid, hc⟩

/-! ## The run -/

/-- The mission is done, and the squad does not pause. -/
def Execution.Succeeds (x : Execution) : Prop :=
  x.result = some (.ok ()) ∧ x.squad.status.paused = false

instance (x : Execution) : Decidable x.Succeeds := inferInstanceAs (Decidable (_ ∧ _))

/-- The executions that have not sent their result. -/
def inFlight (bs : List Branch) : Nat := (bs.filter fun b => !b.ended).length

namespace System

/-- The mission a step starts. -/
def spawns (cfg : EngineConfig) (s : System) : Label → Option Mission
  | .spawn missionId _ =>
      match s.phase with
      | .driving d =>
          if inFlight s.batch < cfg.maxConcurrency then
            d.todo.find? fun m => m.id = missionId
          else none
      | _ => none
  | _ => none

/-- `run_dag` at its start. -/
structure Enters (s : System) (d : Driver) : Prop extends s.AtHead d where
  process : d.team.team.defaultProcess = .sequential
  running : d.running = ∅

end System

/-- A squad under `run_dag`, with the missions started so far, oldest first. -/
structure DagRun where
  system : System
  started : List Mission

namespace DagRun

def step (cfg : EngineConfig) (team : ValidTeam) (x : DagRun) (l : Label) : DagRun :=
  { system := System.step cfg team x.system l
    started := x.started ++ (x.system.spawns cfg l).toList }

/-- A step of the driver or of an execution. Those started neither fail nor pause. -/
def Smooth (cfg : EngineConfig) (x : DagRun) : Label → Prop
  | .spawn missionId a => ∀ m ∈ x.system.spawns cfg (.spawn missionId a),
      (executeMission cfg a x.system.squad m).Succeeds
  | .head _ _ | .advance _ | .advanceOrphan _ | .receive _ _ => True
  | _ => False

instance (cfg : EngineConfig) (x : DagRun) (l : Label) : Decidable (Smooth cfg x l) :=
  match l with
  | .spawn missionId a =>
      inferInstanceAs (Decidable (∀ m ∈ x.system.spawns cfg (.spawn missionId a), _))
  | .head _ _ | .advance _ | .advanceOrphan _ | .receive _ _ => .isTrue trivial
  | .sendSignal _ | .run _ _ | .plan _ _ => .isFalse fun h => h

def after (cfg : EngineConfig) (team : ValidTeam) (s : System) (labels : List Label) : DagRun :=
  labels.foldl (step cfg team) { system := s, started := [] }

end DagRun

/-! ## One step -/

namespace System

/-- What a step of `run_dag` does, and the mission it starts. -/
inductive DagStep (cfg : EngineConfig) (s : System) (d : Driver) :
    Label → Option Mission → System → Prop where
  | stay {l : Label} : DagStep cfg s d l none s
  | complete {manager : Option (Except String Json)} {a : DriverAnswers} (hd : s.AtHead d)
      (hall : ∀ m ∈ d.team.team.missions, m.id ∈ d.completed) :
      DagStep cfg s d (.head manager a) none (s.complete d a)
  | stuck {manager : Option (Except String Json)} {a : DriverAnswers} (hd : s.AtHead d)
      (hleft : ∃ m ∈ d.team.team.missions, m.id ∉ d.completed)
      (hnone : ∀ m ∈ d.team.team.missions, m.id ∉ d.completed → ¬ m.ReadyAfter d.completed) :
      DagStep cfg s d (.head manager a) none (s.ret (.error .cyclicDependency))
  | schedule {manager : Option (Except String Json)} {a : DriverAnswers} {todo : List Mission}
      (hd : s.AtHead d) (hne : todo ≠ [])
      (hready : ∀ m ∈ todo, m ∈ d.team.team.missions ∧ m.ReadyAfter d.completed) :
      DagStep cfg s d (.head manager a) none { s with phase := .driving { d with todo := todo } }
  | spawn {missionId : String} {a : MissionAnswers} {m : Mission} {pre post : List Mission}
      (hm : d.todo = pre ++ m :: post) (hfree : inFlight s.batch < cfg.maxConcurrency)
      (hspawns : s.spawns cfg (.spawn missionId a) = some m) :
      DagStep cfg s d (.spawn missionId a) (some m)
        { s with
          phase := .driving { d with todo := pre ++ post, running := insert m.id d.running }
          batch := s.batch ++ [{ executeMission cfg a s.squad m with mission := m }] }
  | advance {missionId : String} {pre post : List Branch} {b : Branch} {act : Act}
      {rest : List Act} (hb : s.batch = pre ++ b :: post) (ha : b.acts = act :: rest) :
      DagStep cfg s d (.advance missionId) none
        ({ s with batch := pre ++ { b with acts := rest } :: post }.record act)
  | advanceOrphan {index : Nat} {pre post : List Branch} {b : Branch} {act : Act}
      {rest : List Act} (hb : s.orphans = pre ++ b :: post) (ha : b.acts = act :: rest) :
      DagStep cfg s d (.advanceOrphan index) none
        ({ s with orphans := pre ++ { b with acts := rest } :: post }.record act)
  | receive {missionId : String} {a : DriverAnswers} {pre post : List Branch} {b : Branch}
      (hb : s.Receives d pre b post) {ctx : TeamContext} :
      DagStep cfg s d (.receive missionId a) none
        { s with
          squad.context := ctx
          batch := pre ++ post
          phase := .driving { heard d b with completed := insert b.mission.id d.completed } }

variable {s : System} {d : Driver}

theorem complete_atHead (hd : s.AtHead d) (a : DriverAnswers) :
    (s.complete d a).phase = .idle ∧ (s.complete d a).batch = [] ∧
      (s.complete d a).orphans = s.orphans := by
  have horphans : s.orphans ++ s.batch = s.orphans := by
    rw [hd.batch, List.append_nil]
  rw [complete]
  dsimp only
  rcases retWith_cases { s with squad := { s.squad with
      completedMissions := d.completed, status := .completed } } a
    (.squadCompleted s.squad.context.shared a.now) .completed with ⟨err, -, he⟩ | ⟨-, he⟩
  · rw [he]
    exact ⟨rfl, rfl, horphans⟩
  · rw [he]
    exact ⟨rfl, rfl, horphans⟩

theorem dagStep_head (manager : Option (Except String Json)) (a : DriverAnswers)
    (hd : s.phase = .driving d) (hseq : d.team.team.defaultProcess = .sequential)
    (hrun : s.batch = [] → d.running = ∅) :
    DagStep cfg s d (.head manager a) none (head cfg s manager a) := by
  rw [head, hd]
  dsimp only
  split
  · next hg =>
      rw [Bool.and_eq_true, List.isEmpty_iff, List.isEmpty_iff] at hg
      have hat : s.AtHead d := ⟨hd, hg.1, hg.2⟩
      have hfilter : ((MissionScheduler.new d.team.team).ready d.completed).filter
          (fun m => m.id ∉ d.running) = (MissionScheduler.new d.team.team).ready d.completed := by
        rw [hrun hg.2]
        exact List.filter_eq_self.mpr fun m _ => by simp
      rw [hseq]
      dsimp only
      rw [dagHead, hfilter, if_pos (hrun hg.2)]
      dsimp only
      split
      · next hall => exact .complete hat (allCompleted_iff.mp hall)
      · next hnot =>
          split
          · next hnil =>
              rw [List.isEmpty_iff] at hnil
              refine .stuck hat (exists_pending (Bool.not_eq_true _ ▸ hnot)) ?_
              intro m hm hout hready
              have hin := mem_ready_iff.mpr ⟨hm, hout, hready⟩
              rw [hnil] at hin
              cases hin
          · next hne =>
              refine .schedule hat (fun hnil => hne (List.isEmpty_iff.mpr hnil)) fun m hm => ?_
              obtain ⟨hmem, -, hready⟩ := mem_ready_iff.mp hm
              exact ⟨hmem, hready⟩
  · exact .stay

theorem spawns_of_driving {missionId : String} {a : MissionAnswers} (hd : s.phase = .driving d) :
    s.spawns cfg (.spawn missionId a) =
      if inFlight s.batch < cfg.maxConcurrency then d.todo.find? fun m => m.id = missionId
      else none := by
  rw [spawns, hd]

theorem dagStep_spawn (missionId : String) (a : MissionAnswers) (hd : s.phase = .driving d) :
    DagStep cfg s d (.spawn missionId a) (s.spawns cfg (.spawn missionId a))
      (spawn cfg s missionId a) := by
  have hspawns := @spawns_of_driving cfg s d missionId a hd
  rw [spawn, hd]
  dsimp only
  split
  · next m hm =>
      rw [hm, inFlight] at hspawns
      obtain ⟨hid, pre, post, htodo, hpre⟩ := List.find?_eq_some_iff_append.mp hm
      rw [decide_eq_true_eq] at hid
      have herase : d.todo.eraseP (fun m => m.id = missionId) = pre ++ post := by
        rw [htodo, List.eraseP_append_right _ (by intro c hc; simpa using hpre c hc),
          List.eraseP_cons_of_pos (by simpa using hid)]
      subst hid
      split
      · next hfree =>
          rw [if_pos hfree] at hspawns
          rw [hspawns, herase]
          exact .spawn htodo hfree hspawns
      · next hfull =>
          rw [if_neg hfull] at hspawns
          rw [hspawns]
          exact .stay
  · next hnone =>
      rw [hnone, ite_self] at hspawns
      rw [hspawns]
      exact .stay

theorem dagStep_receive (missionId : String) (a : DriverAnswers) (hd : s.phase = .driving d)
    (hbatch : ∀ b ∈ s.batch, b.Succeeds) :
    DagStep cfg s d (.receive missionId a) none (s.receive missionId a) := by
  rw [receive, hd]
  dsimp only
  split
  · next b hb =>
      split
      · next hg =>
          rw [Bool.and_eq_true, List.isEmpty_iff, Branch.ended, List.isEmpty_iff] at hg
          obtain ⟨hid, pre, post, hsplit, herase⟩ := find_eraseP hb
          rw [decide_eq_true_eq] at hid
          subst hid
          obtain ⟨hr, hp⟩ := hbatch b (List.mem_of_find?_eq_some hb)
          rw [hr, herase]
          dsimp only
          rw [receiveOk]
          dsimp only
          split
          · next hst => rw [hst] at hp; cases hp
          · next hst => rw [hst] at hp; cases hp
          · next hst => rw [hst] at hp; cases hp
          · exact .receive ⟨hd, hg.1, hsplit, hg.2⟩
      · exact .stay
  · exact .stay

theorem dagStep {x : DagRun} {l : Label} (hl : DagRun.Smooth cfg x l) (hs : s = x.system)
    (hd : s.phase = .driving d) (hseq : d.team.team.defaultProcess = .sequential)
    (hrun : s.batch = [] → d.running = ∅) (hbatch : ∀ b ∈ s.batch, b.Succeeds) :
    DagStep cfg s d l (s.spawns cfg l) (step cfg team s l) := by
  subst hs
  cases l with
  | head manager a => exact dagStep_head manager a hd hseq hrun
  | spawn missionId a => exact dagStep_spawn missionId a hd
  | receive missionId a => exact dagStep_receive missionId a hd hbatch
  | advance missionId =>
      show DagStep cfg x.system d (.advance missionId) none (x.system.advance missionId)
      rw [System.advance]
      split
      · next act batch h =>
          obtain ⟨pre, b, post, rest, hb, ha, rfl⟩ := popAct_cases h
          exact .advance hb ha
      · exact .stay
  | advanceOrphan index =>
      show DagStep cfg x.system d (.advanceOrphan index) none (x.system.advanceOrphan index)
      rw [System.advanceOrphan]
      split
      · next act orphans h =>
          obtain ⟨pre, b, post, rest, hb, ha, rfl⟩ := popAct_cases h
          exact .advanceOrphan hb ha
      · exact .stay
  | sendSignal signal => cases hl
  | run stream a => cases hl
  | plan answer a => cases hl

end System

/-! ## What is kept -/

theorem inFlight_append (bs bs' : List Branch) :
    inFlight (bs ++ bs') = inFlight bs + inFlight bs' := by
  rw [inFlight, List.filter_append, List.length_append, inFlight, inFlight]

theorem inFlight_singleton_le (b : Branch) : inFlight [b] ≤ 1 := List.length_filter_le _ [b]

/-- A branch that does an act was in flight. -/
theorem inFlight_popped_le {pre post : List Branch} {b : Branch} {act : Act} {rest : List Act}
    (ha : b.acts = act :: rest) :
    inFlight (pre ++ { b with acts := rest } :: post) ≤ inFlight (pre ++ b :: post) := by
  have hb : inFlight [b] = 1 := by
    rw [inFlight, List.filter_singleton, Branch.ended, ha]
    rfl
  have hle := inFlight_singleton_le { b with acts := rest }
  rw [List.append_cons pre b, List.append_cons pre { b with acts := rest }]
  rw [inFlight_append, inFlight_append, inFlight_append, inFlight_append, hb]
  omega

theorem inFlight_removed_le (pre post : List Branch) (b : Branch) :
    inFlight (pre ++ post) ≤ inFlight (pre ++ b :: post) := by
  rw [List.append_cons pre b, inFlight_append, inFlight_append, inFlight_append]
  omega

/-- An execution that succeeds reports its mission, and does little else. -/
theorem Execution.Succeeds.executed {a : MissionAnswers} {sq : Squad} {m : Mission}
    (h : (executeMission cfg a sq m).Succeeds) :
    m.id ∈ completedIn (executeMission cfg a sq m).acts ∧
      (executeMission cfg a sq m).acts.length ≤ 5 := by
  obtain ⟨hr, hp⟩ := h
  cases executeMission_cases cfg a sq m with
  | stopped hacts hr' => exact absurd hr hr'
  | waiting signal hm hs hacts hr' hc hst =>
      rw [hst] at hp
      cases hp
  | answered succeeded hacts hr' hpanic => exact absurd hr hr'
  | completed handoff value hacts hr' hc hst =>
      have htaken : (takenActs m sq).length ≤ 1 := by
        rw [takenActs]
        split
        · split
          · exact Nat.le_refl 1
          · exact Nat.zero_le 1
        · exact Nat.zero_le 1
      rw [hacts]
      refine ⟨mem_completedIn.mpr ⟨.emit (.missionCompleted m.id value m.outputKey a.completedAt),
        by simp, rfl⟩, ?_⟩
      rw [openingActs, List.length_append, List.length_append]
      simp only [List.length_cons, List.length_nil]
      omega
  | retrying reason wakeAt hm hacts hr' hc hst =>
      rw [hst] at hp
      cases hp
  | failed reason hm hacts hr' =>
      rw [hr'] at hr
      cases hr

namespace DagRun

/-- Missions started in an order the team asks for. -/
structure Ordered (d₀ : Driver) (started : List Mission) : Prop where
  mem : ∀ m ∈ started, m ∈ d₀.team.team.missions ∧ m.id ∉ d₀.completed
  nodup : (started.map Mission.id).Nodup
  doable : Doable Mission.id (fun done m => m.ReadyAfter done) d₀.completed started

/-- While the driver is on. What it counts as completed was completed before it, or
is what has been started and is not running, and is in the squad's log. -/
structure Going (d₀ : Driver) (x : DagRun) (d : Driver) : Prop where
  phase : x.system.phase = .driving d
  team : d.team = d₀.team
  process : d.team.team.defaultProcess = .sequential
  todo : ∀ m ∈ d.todo, m ∈ d.team.team.missions ∧ m.ReadyAfter d.completed
  running : ∀ id ∈ d.running, ∃ b ∈ x.system.batch, b.mission.id = id
  batch : ∀ b ∈ x.system.batch, b.mission ∈ x.started ∧ b.Succeeds ∧
    b.mission.id ∈ completedIn (x.system.trace ++ b.acts)
  completed : ∀ id, id ∈ d.completed ↔
    id ∈ d₀.completed ∨ id ∈ x.started.map Mission.id ∧ id ∉ d.running
  reported : d.completed ⊆ d₀.completed ∪ completedIn x.system.trace

/-- How it returns: with all missions completed, whether or not the last event is
kept, or because there is no order. -/
inductive Ended (errors : Set String) (d₀ : Driver) (x : DagRun) : Prop where
  | complete (hall : ∀ m ∈ d₀.team.team.missions, m.id ∈ x.system.squad.completedMissions)
      (hstatus : x.system.squad.status = .completed)
      (hr : x.system.returned = some .completed ∨
        ∃ err ∈ errors, x.system.returned = some (.error (.storeError err)))
      (horder : x.started.Perm (d₀.team.left d₀.completed))
  | stuck (hnot : ¬ d₀.team.Satisfiable d₀.completed)
      (hr : x.system.returned = some (.error .cyclicDependency))

structure Kept (cfg : EngineConfig) (team : ValidTeam) (errors : Set String) (s₀ : System)
    (d₀ : Driver) (x : DagRun) : Prop where
  driven : System.Driven team x.system
  ordered : Ordered d₀ x.started
  permits : inFlight x.system.batch ≤ cfg.maxConcurrency
  orphans : inFlight x.system.orphans ≤ inFlight s₀.orphans
  state : (∃ d, Going d₀ x d) ∨ (x.system.phase = .idle ∧ Ended errors d₀ x)

variable {errors : Set String} {s₀ : System} {d₀ d : Driver} {x : DagRun}

theorem Going.running_empty (h : Going d₀ x d) (hb : x.system.batch = []) : d.running = ∅ := by
  refine Finset.eq_empty_of_forall_notMem fun id hid => ?_
  obtain ⟨b, hmem, -⟩ := h.running id hid
  rw [hb] at hmem
  cases hmem

theorem Going.before_subset (h : Going d₀ x d) : d₀.completed ⊆ d.completed :=
  fun id hid => (h.completed id).mpr (.inl hid)

/-- What is completed has been started or was completed before. -/
theorem Going.completed_subset (h : Going d₀ x d) :
    d.completed ⊆ d₀.completed ∪ (x.started.map Mission.id).toFinset := by
  intro id hid
  rw [Finset.mem_union, List.mem_toFinset]
  exact ((h.completed id).mp hid).imp_right And.left

/-- With all completed, all that was left has been started. -/
theorem Going.perm_left (h : Going d₀ x d) (hord : Ordered d₀ x.started)
    (hall : ∀ m ∈ d.team.team.missions, m.id ∈ d.completed) :
    x.started.Perm (d₀.team.left d₀.completed) := by
  rw [h.team] at hall
  refine (List.perm_ext_iff_of_nodup (.of_map _ hord.nodup)
    (.of_map _ (d₀.team.nodup_left d₀.completed))).mpr fun m => ?_
  rw [ValidTeam.mem_left]
  refine ⟨hord.mem m, fun ⟨hm, hout⟩ => ?_⟩
  obtain ⟨hin, -⟩ := ((h.completed m.id).mp (hall m hm)).resolve_left hout
  obtain ⟨m', hm', hid⟩ := List.mem_map.mp hin
  rw [← eq_of_id (hord.mem m' hm').1 hm hid]
  exact hm'

theorem Going.complete (h : Going d₀ x d) (hord : Ordered d₀ x.started) {a : DriverAnswers}
    (herr : ∀ e err, a.store e = some err → err ∈ errors)
    (hall : ∀ m ∈ d.team.team.missions, m.id ∈ d.completed) :
    Ended errors d₀ { x with system := x.system.complete d a } := by
  have hperm := h.perm_left hord hall
  rw [h.team] at hall
  rw [System.complete]
  dsimp only
  rcases System.retWith_cases
    { x.system with squad := { x.system.squad with
      completedMissions := d.completed, status := .completed } } a
    (.squadCompleted x.system.squad.context.shared a.now) .completed with ⟨err, hs, he⟩ | ⟨-, he⟩
  · rw [he]
    exact .complete hall rfl (.inr ⟨err, herr _ err hs, rfl⟩) hperm
  · rw [he]
    exact .complete hall rfl (.inl rfl) hperm

/-- Nothing is ready, so there is no order. -/
theorem Going.stuck (h : Going d₀ x d) (hleft : ∃ m ∈ d.team.team.missions, m.id ∉ d.completed)
    (hnone : ∀ m ∈ d.team.team.missions, m.id ∉ d.completed → ¬ m.ReadyAfter d.completed) :
    ¬ d₀.team.Satisfiable d₀.completed := by
  intro hsat
  rw [h.team] at hleft hnone
  obtain ⟨m, hm, hout, hready⟩ := hsat.exists_ready h.before_subset hleft
  exact hnone m hm hout hready

/-- One more mission of the team, which what has been completed lets start. -/
theorem Ordered.concat (h : Ordered d₀ x.started) (hgo : Going d₀ x d) {m : Mission}
    (hm : m ∈ d₀.team.team.missions) (hready : m.ReadyAfter d.completed)
    (hout : m.id ∉ d₀.completed) (hnew : m.id ∉ x.started.map Mission.id) :
    Ordered d₀ (x.started ++ [m]) where
  mem m' hm' := by
    rcases List.mem_append.mp hm' with hm' | hm'
    · exact h.mem m' hm'
    · rw [List.mem_singleton] at hm'
      subst hm'
      exact ⟨hm, hout⟩
  nodup := by
    rw [List.map_append, List.map_singleton, List.nodup_append]
    refine ⟨h.nodup, List.nodup_singleton _, fun id hid id' hid' => ?_⟩
    rw [List.mem_singleton] at hid'
    rintro rfl
    exact hnew (hid' ▸ hid)
  doable := doable_concat.mpr ⟨h.doable, hready.mono hgo.completed_subset⟩

theorem Going.spawn (h : Going d₀ x d) (hord : Ordered d₀ x.started)
    (hdriving : System.Driving team x.system d) {a : MissionAnswers} {m : Mission}
    {pre post : List Mission} (hm : d.todo = pre ++ m :: post)
    (hsucceeds : (executeMission cfg a x.system.squad m).Succeeds) :
    Ordered d₀ (x.started ++ [m]) ∧ Going d₀
      { system := { x.system with
          phase := .driving { d with todo := pre ++ post, running := insert m.id d.running }
          batch := x.system.batch ++
            [{ executeMission cfg a x.system.squad m with mission := m }] }
        started := x.started ++ [m] }
      { d with todo := pre ++ post, running := insert m.id d.running } := by
  have hmem : m ∈ d.todo := by
    rw [hm]
    simp
  obtain ⟨hmission, hready⟩ := h.todo m hmem
  obtain ⟨-, hrun, hcomp⟩ := hdriving.todo m hmem
  have hout : m.id ∉ d₀.completed := fun hin => hcomp (h.before_subset hin)
  have hnew : m.id ∉ x.started.map Mission.id := fun hin =>
    hcomp ((h.completed m.id).mpr (.inr ⟨hin, hrun⟩))
  refine ⟨hord.concat h (h.team ▸ hmission) hready hout hnew, rfl, h.team, h.process, ?_, ?_, ?_,
    ?_, h.reported⟩
  · intro m' hm'
    refine h.todo m' ?_
    rw [hm]
    simp only [List.mem_append, List.mem_cons] at hm' ⊢
    tauto
  · intro id hid
    rcases Finset.mem_insert.mp hid with rfl | hid
    · exact ⟨_, List.mem_append_right _ (List.mem_singleton_self _), rfl⟩
    · obtain ⟨b, hb, he⟩ := h.running id hid
      exact ⟨b, List.mem_append_left _ hb, he⟩
  · intro b hb
    rcases List.mem_append.mp hb with hb | hb
    · obtain ⟨hstarted, hrest⟩ := h.batch b hb
      exact ⟨List.mem_append_left _ hstarted, hrest⟩
    · rw [List.mem_singleton] at hb
      subst hb
      refine ⟨List.mem_append_right _ (List.mem_singleton_self _), hsucceeds, ?_⟩
      exact completedIn_mono (List.subset_append_right _ _) hsucceeds.executed.1
  · intro id
    rw [h.completed, List.map_append, List.map_singleton]
    simp only [List.mem_append, List.mem_singleton, Finset.mem_insert, not_or]
    constructor
    · rintro (hin | ⟨hin, hrun'⟩)
      · exact .inl hin
      · refine .inr ⟨.inl hin, ?_, hrun'⟩
        rintro rfl
        exact hnew hin
    · rintro (hin | ⟨hin | rfl, hne, hrun'⟩)
      · exact .inl hin
      · exact .inr ⟨hin, hrun'⟩
      · exact absurd rfl hne

/-- An execution left behind does its next act. -/
theorem Going.record (h : Going d₀ x d) {orphans : List Branch} (act : Act) :
    Going d₀ { x with system := ({ x.system with orphans := orphans }.record act) } d := by
  refine ⟨h.phase, h.team, h.process, h.todo, h.running, fun c hc => ?_, h.completed, ?_⟩
  · obtain ⟨hstarted, hs, hrep⟩ := h.batch c hc
    refine ⟨hstarted, hs, completedIn_mono (fun act' hact' => ?_) hrep⟩
    show act' ∈ x.system.trace ++ [act] ++ c.acts
    simp only [List.mem_append] at hact' ⊢
    tauto
  · exact h.reported.trans (Finset.union_subset_union_right
      (completedIn_mono (List.subset_append_left _ _)))

/-- An execution of the batch does its next act. -/
theorem Going.advance (h : Going d₀ x d) {pre post : List Branch} {b : Branch} {act : Act}
    {rest : List Act} (hb : x.system.batch = pre ++ b :: post) (ha : b.acts = act :: rest) :
    Going d₀ { x with system :=
      ({ x.system with batch := pre ++ { b with acts := rest } :: post }.record act) } d := by
  have hother := @Going.record d₀ d x h x.system.orphans act
  refine ⟨h.phase, h.team, h.process, h.todo, ?_, ?_, h.completed, hother.reported⟩
  · intro id hid
    obtain ⟨c, hc, he⟩ := h.running id hid
    rw [hb, List.mem_append, List.mem_cons] at hc
    rcases hc with hc | rfl | hc
    · exact ⟨c, List.mem_append_left _ hc, he⟩
    · exact ⟨_, List.mem_append_right _ List.mem_cons_self, he⟩
    · exact ⟨c, List.mem_append_right _ (List.mem_cons_of_mem _ hc), he⟩
  · intro c hc
    have hmem {c : Branch} (hc : c ∈ pre ∨ c = b ∨ c ∈ post) : c ∈ x.system.batch := by
      rw [hb]
      simpa using hc
    rcases List.mem_append.mp hc with hc | hc
    · exact hother.batch c (hmem (.inl hc))
    · rcases List.mem_cons.mp hc with rfl | hc
      · obtain ⟨hstarted, hs, hrep⟩ := h.batch b (hmem (.inr (.inl rfl)))
        rw [ha, List.append_cons] at hrep
        exact ⟨hstarted, hs, hrep⟩
      · exact hother.batch c (hmem (.inr (.inr hc)))

/-- The driver takes the result of an execution. -/
theorem Going.receive (h : Going d₀ x d) {pre post : List Branch} {b : Branch}
    (hb : x.system.Receives d pre b post) (ctx : TeamContext) :
    Going d₀ { x with system := { x.system with
        squad.context := ctx
        batch := pre ++ post
        phase := .driving { System.heard d b with
          completed := insert b.mission.id d.completed } } }
      { System.heard d b with completed := insert b.mission.id d.completed } := by
  have hmem : b ∈ x.system.batch := by
    rw [hb.batch]
    simp
  obtain ⟨hstarted, -, hrep⟩ := h.batch b hmem
  rw [hb.ended, List.append_nil] at hrep
  refine ⟨rfl, h.team, h.process, ?_, ?_, ?_, ?_, ?_⟩
  · intro m hm
    rw [show (System.heard d b).todo = [] from hb.todo] at hm
    cases hm
  · intro id hid
    obtain ⟨hne, hin⟩ := Finset.mem_erase.mp hid
    obtain ⟨c, hc, he⟩ := h.running id hin
    refine ⟨c, ?_, he⟩
    rw [hb.batch, List.mem_append, List.mem_cons] at hc
    rcases hc with hc | rfl | hc
    · exact List.mem_append_left _ hc
    · exact absurd he.symm hne
    · exact List.mem_append_right _ hc
  · intro c hc
    refine h.batch c ?_
    rw [hb.batch]
    simp only [List.mem_append, List.mem_cons] at hc ⊢
    tauto
  · intro id
    show id ∈ insert b.mission.id d.completed ↔ id ∈ d₀.completed ∨
      id ∈ x.started.map Mission.id ∧ id ∉ d.running.erase b.mission.id
    rw [Finset.mem_insert, Finset.mem_erase, h.completed]
    by_cases he : id = b.mission.id
    · subst he
      simp [List.mem_map_of_mem hstarted]
    · simp [he]
  · intro id hid
    rcases Finset.mem_insert.mp hid with rfl | hid
    · exact Finset.mem_union_right _ hrep
    · exact h.reported hid

/-! ### Every step -/

/-- A run that is over does nothing, but executions left behind go on. -/
theorem step_idle {team : ValidTeam} {l : Label} (hp : x.system.phase = .idle)
    (hbatch : x.system.batch = []) (hl : Smooth cfg x l) :
    step cfg team x l = x ∨ ∃ pre b post act rest, x.system.orphans = pre ++ b :: post ∧
      b.acts = act :: rest ∧ step cfg team x l = { x with system :=
        ({ x.system with orphans := pre ++ { b with acts := rest } :: post }.record act) } := by
  have hlog : x.started ++ ([] : List Mission) = x.started := List.append_nil _
  cases l with
  | head manager a =>
      refine .inl ?_
      rw [step, System.step, System.head, hp]
      exact congrArg _ hlog
  | spawn missionId a =>
      refine .inl ?_
      rw [step, System.step, System.spawn, System.spawns, hp]
      exact congrArg _ hlog
  | receive missionId a =>
      refine .inl ?_
      rw [step, System.step, System.receive, hp]
      exact congrArg _ hlog
  | advance missionId =>
      refine .inl ?_
      rw [step, System.step, System.advance, hbatch]
      exact congrArg _ hlog
  | advanceOrphan index =>
      rw [step, System.step, System.advanceOrphan]
      split
      · next act orphans h =>
          obtain ⟨pre, b, post, rest, hb, ha, rfl⟩ := popAct_cases h
          exact .inr ⟨pre, b, post, act, rest, hb, ha, congrArg _ hlog⟩
      · exact .inl (congrArg _ hlog)
  | sendSignal signal => cases hl
  | run stream a => cases hl
  | plan answer a => cases hl

/-- While it is on, a step is one of `run_dag`. -/
theorem Going.dagStep {team : ValidTeam} (h : Going d₀ x d) {l : Label} (hl : Smooth cfg x l) :
    System.DagStep cfg x.system d l (x.system.spawns cfg l) (System.step cfg team x.system l) :=
  System.dagStep hl rfl h.phase h.process h.running_empty fun b hb => (h.batch b hb).2.1

theorem kept_step {team : ValidTeam} (h : Kept cfg team errors s₀ d₀ x) {l : Label}
    (hl : Smooth cfg x l) (herr : ∀ manager a, l = .head manager a →
      ∀ e err, a.store e = some err → err ∈ errors) :
    Kept cfg team errors s₀ d₀ (step cfg team x l) := by
  have hdriven := @System.driven_step cfg team x.system l h.driven
  rcases h.state with ⟨d, hgo⟩ | ⟨hidle, hended⟩
  · have hdriving := h.driven.driving hgo.phase
    have hst := @Going.dagStep cfg d₀ d x team hgo l hl
    rw [step]
    generalize System.step cfg team x.system l = s' at hdriven hst
    generalize x.system.spawns cfg l = started at hst
    -- a step that starts nothing
    have hsame : x.started ++ (none : Option Mission).toList = x.started := List.append_nil _
    cases hst with
    | stay =>
        rw [hsame]
        exact h
    | @complete manager a hd hall =>
        rw [hsame]
        obtain ⟨hp, hbatch, horphans⟩ := System.complete_atHead hd a
        have hended := hgo.complete h.ordered (herr manager a rfl) hall
        refine ⟨hdriven, h.ordered, ?_, ?_, .inr ⟨hp, hended⟩⟩
        · show inFlight (x.system.complete d a).batch ≤ cfg.maxConcurrency
          rw [hbatch]
          exact Nat.zero_le _
        · show inFlight (x.system.complete d a).orphans ≤ inFlight s₀.orphans
          rw [horphans]
          exact h.orphans
    | stuck hd hleft hnone =>
        rw [hsame]
        refine ⟨hdriven, h.ordered, Nat.zero_le _, ?_, .inr ⟨rfl, .stuck ?_ rfl⟩⟩
        · show inFlight (x.system.orphans ++ x.system.batch) ≤ _
          rw [hd.batch, List.append_nil]
          exact h.orphans
        · exact hgo.stuck hleft hnone
    | @schedule manager a todo hd hne hready =>
        rw [hsame]
        exact ⟨hdriven, h.ordered, h.permits, h.orphans, .inl ⟨{ d with todo := todo }, rfl,
          hgo.team, hgo.process, hready, hgo.running, hgo.batch, hgo.completed, hgo.reported⟩⟩
    | @spawn missionId a m pre post hm hfree hspawns =>
        obtain ⟨hord, hgo'⟩ := hgo.spawn h.ordered hdriving hm (hl m hspawns)
        refine ⟨hdriven, hord, ?_, h.orphans, .inl ⟨_, hgo'⟩⟩
        show inFlight (x.system.batch ++ [_]) ≤ cfg.maxConcurrency
        rw [inFlight_append]
        have hone := inFlight_singleton_le
          { executeMission cfg a x.system.squad m with mission := m }
        omega
    | @advance missionId pre post b act rest hb ha =>
        rw [hsame]
        refine ⟨hdriven, h.ordered, ?_, h.orphans, .inl ⟨d, hgo.advance hb ha⟩⟩
        have hle := h.permits
        rw [hb] at hle
        exact (inFlight_popped_le ha).trans hle
    | @advanceOrphan index pre post b act rest hb ha =>
        rw [hsame]
        refine ⟨hdriven, h.ordered, h.permits, ?_, .inl ⟨d, hgo.record act⟩⟩
        have hle := h.orphans
        rw [hb] at hle
        exact (inFlight_popped_le ha).trans hle
    | @receive missionId a pre post b hb ctx =>
        rw [hsame]
        refine ⟨hdriven, h.ordered, ?_, h.orphans, .inl ⟨_, hgo.receive hb ctx⟩⟩
        have hle := h.permits
        rw [hb.batch] at hle
        exact (inFlight_removed_le pre post b).trans hle
  · have hbatch := h.driven.batch_nil fun d hd => by rw [hidle] at hd; cases hd
    rcases @step_idle cfg x team l hidle hbatch hl with he | ⟨pre, b, post, act, rest, hb, ha, he⟩
    · rw [he]
      exact h
    · have hdriven' : System.Driven team (step cfg team x l).system := hdriven
      rw [he] at hdriven' ⊢
      refine ⟨hdriven', h.ordered, h.permits, ?_, .inr ⟨hidle, ?_⟩⟩
      · have hle := h.orphans
        rw [hb] at hle
        exact (inFlight_popped_le ha).trans hle
      · cases hended with
        | complete hall hstatus hr horder => exact .complete hall hstatus hr horder
        | stuck hnot hr => exact .stuck hnot hr

end DagRun

/-! ## An end -/

/-- What a driver may still do. -/
def Phase.remaining : Phase → Nat
  | .driving d =>
      8 * System.pending d.team (d.completed ∪ d.running) + if d.todo.isEmpty then 1 else 0
  | _ => 0

theorem Phase.remaining_idle : Phase.remaining .idle = 0 := rfl

theorem Phase.remaining_driving (d : Driver) : Phase.remaining (.driving d) =
    8 * System.pending d.team (d.completed ∪ d.running) + if d.todo.isEmpty then 1 else 0 := rfl

/-- And with it all executions. -/
def System.remaining (s : System) : Nat :=
  Phase.remaining s.phase + (s.batch.map fun b => b.acts.length + 1).sum +
    (s.orphans.map fun b => b.acts.length).sum

namespace DagRun

variable {d₀ d : Driver} {x : DagRun}

/-- A step changes nothing, or there is less to do after it. -/
theorem Going.remaining_lt {team : ValidTeam} (h : Going d₀ x d)
    (hdriving : System.Driving team x.system d) {l : Label} (hl : Smooth cfg x l) :
    System.step cfg team x.system l = x.system ∨
      (System.step cfg team x.system l).remaining < x.system.remaining := by
  have hnow : x.system.remaining = Phase.remaining (.driving d) +
      (x.system.batch.map fun b => b.acts.length + 1).sum +
        (x.system.orphans.map fun b => b.acts.length).sum := by
    rw [System.remaining, h.phase]
  -- each case is arithmetic once the parts that change are written out
  have hst := @Going.dagStep cfg d₀ d x team h l hl
  generalize System.step cfg team x.system l = s' at hst
  generalize x.system.spawns cfg l = started at hst
  cases hst with
  | stay => exact .inl rfl
  | @complete manager a hd hall =>
      refine .inr ?_
      obtain ⟨hp, hbatch, horphans⟩ := System.complete_atHead hd a
      rw [hnow, System.remaining, hp, hbatch, horphans, hd.batch, Phase.remaining_idle,
        Phase.remaining_driving, hd.todo, List.isEmpty_nil, if_pos rfl]
      omega
  | stuck hd hleft hnone =>
      refine .inr ?_
      have horphans : x.system.orphans ++ x.system.batch = x.system.orphans := by
        rw [hd.batch, List.append_nil]
      rw [hnow, System.remaining, System.ret]
      dsimp only
      rw [horphans, hd.batch, Phase.remaining_idle, Phase.remaining_driving, hd.todo,
        List.isEmpty_nil, if_pos rfl]
      omega
  | @schedule manager a todo hd hne hready =>
      refine .inr ?_
      have htodo : todo.isEmpty = false := by
        rw [← Bool.not_eq_true, List.isEmpty_iff]
        exact hne
      rw [hnow, System.remaining]
      dsimp only
      rw [Phase.remaining_driving, Phase.remaining_driving]
      dsimp only
      rw [hd.todo, List.isEmpty_nil, if_pos rfl, htodo, if_neg Bool.false_ne_true]
      omega
  | @spawn missionId a m pre post hm hfree hspawns =>
      refine .inr ?_
      have hmem : m ∈ d.todo := by
        rw [hm]
        simp
      obtain ⟨-, hrun, hcomp⟩ := hdriving.todo m hmem
      have hout : m.id ∉ d.completed ∪ d.running := by
        rw [Finset.mem_union, not_or]
        exact ⟨hcomp, hrun⟩
      have hless := System.pending_insert (List.mem_map_of_mem (h.todo m hmem).1) hout
      have hlen := (hl m hspawns).executed.2
      have hone : (if (pre ++ post).isEmpty then 1 else 0) ≤ 1 := by
        split <;> omega
      rw [hnow, System.remaining]
      dsimp only
      rw [Phase.remaining_driving, Phase.remaining_driving, Finset.union_insert,
        List.map_append, List.sum_append]
      simp only [List.map_cons, List.map_nil, List.sum_cons, List.sum_nil]
      omega
  | @advance missionId pre post b act rest hb ha =>
      refine .inr ?_
      rw [hnow, System.remaining, hb]
      simp only [System.record, h.phase, List.map_append, List.map_cons, List.sum_append,
        List.sum_cons, ha, List.length_cons]
      omega
  | @advanceOrphan index pre post b act rest hb ha =>
      refine .inr ?_
      rw [hnow, System.remaining, hb]
      simp only [System.record, h.phase, List.map_append, List.map_cons, List.sum_append,
        List.sum_cons, ha, List.length_cons]
      omega
  | @receive missionId a pre post b hb ctx =>
      refine .inr ?_
      have hin : b.mission.id ∈ d.running := by
        refine hdriving.batch b ?_
        rw [hb.batch]
        simp
      have hsame : insert b.mission.id d.completed ∪ d.running.erase b.mission.id =
          d.completed ∪ d.running := by
        rw [Finset.insert_union, ← Finset.union_insert, Finset.insert_erase hin]
      rw [hnow, System.remaining, hb.batch]
      dsimp only
      rw [Phase.remaining_driving, Phase.remaining_driving, System.heard]
      dsimp only
      rw [hsame]
      simp only [List.map_append, List.map_cons, List.sum_append, List.sum_cons]
      omega

/-- An execution that is not over can do its next act. -/
theorem advance_ne {team : ValidTeam} (hdriving : System.Driving team x.system d)
    {b : Branch} (hb : b ∈ x.system.batch) (hn : b.ended = false) :
    System.step cfg team x.system (.advance b.mission.id) ≠ x.system := by
  obtain ⟨pre, post, hsplit⟩ := List.append_of_mem hb
  obtain ⟨act, rest, ha⟩ : ∃ act rest, b.acts = act :: rest :=
    List.exists_cons_of_ne_nil fun hnil => by rw [Branch.ended, hnil] at hn; cases hn
  have hpre : ∀ c ∈ pre, c.mission.id ≠ b.mission.id := by
    have hapart := hdriving.apart
    rw [hsplit, List.map_append, List.map_cons] at hapart
    intro c hc
    exact (List.nodup_append.mp hapart).2.2 _ (List.mem_map_of_mem hc) _ List.mem_cons_self
  intro hsame
  have htrace := congrArg (fun s : System => s.trace.length) hsame
  rw [System.step, System.advance, hsplit, System.indexOf_append hpre, System.popAct_append ha]
    at htrace
  simp [System.record] at htrace

/-- At a loop head all is completed, nothing is ready, or something is spawned. -/
theorem Going.head_ne {team : ValidTeam} (h : Going d₀ x d) (hat : x.system.AtHead d)
    (da : DriverAnswers) : System.step cfg team x.system (.head none da) ≠ x.system := by
  intro hsame
  have hphase : (System.step cfg team x.system (.head none da)).phase = .driving d := by
    rw [hsame, h.phase]
  rw [System.step, System.head, h.phase] at hphase
  dsimp only at hphase
  rw [hat.todo, hat.batch, List.isEmpty_nil, Bool.true_and, List.isEmpty_nil, if_pos rfl,
    h.process] at hphase
  dsimp only at hphase
  rw [System.dagHead, h.running_empty hat.batch, if_pos rfl] at hphase
  dsimp only at hphase
  split at hphase
  · rw [(System.complete_atHead hat da).1] at hphase
    cases hphase
  · split at hphase
    · cases hphase
    · next hne =>
        injection hphase with hd
        have htodo := congrArg Driver.todo hd
        dsimp only at htodo
        rw [htodo, hat.todo] at hne
        exact hne rfl

theorem Going.receive_ne {team : ValidTeam} (h : Going d₀ x d) {b : Branch} {post : List Branch}
    (hb : x.system.Receives d [] b post) (da : DriverAnswers) :
    System.step cfg team x.system (.receive b.mission.id da) ≠ x.system := by
  intro hsame
  have hmem : b ∈ x.system.batch := by
    rw [hb.batch]
    exact List.mem_cons_self
  obtain ⟨-, ⟨hr, hp⟩, -⟩ := h.batch b hmem
  have hbatch := congrArg (fun s : System => s.batch.length) hsame
  rw [System.receive_eq da hb (fun c hc => by cases hc), System.hear, hr, hb.batch] at hbatch
  dsimp only at hbatch
  rw [System.receiveOk] at hbatch
  dsimp only at hbatch
  split at hbatch
  · next hst => rw [hst] at hp; cases hp
  · next hst => rw [hst] at hp; cases hp
  · next hst => rw [hst] at hp; cases hp
  · simp at hbatch

/-- Until the driver returns, it can go on, whatever it is answered. -/
theorem Going.exists_step {team : ValidTeam} (h : Going d₀ x d)
    (hdriving : System.Driving team x.system d) (a : MissionAnswers) (da : DriverAnswers) :
    ∃ id, ∃ l ∈ [Label.head none da, .spawn id a, .advance id, .receive id da],
      System.step cfg team x.system l ≠ x.system := by
  cases htodo : d.todo with
  | cons m ms =>
      by_cases hfree : inFlight x.system.batch < cfg.maxConcurrency
      · refine ⟨m.id, .spawn m.id a, by simp, fun hsame => ?_⟩
        have hbatch := congrArg (fun s : System => s.batch.length) hsame
        have hfind : d.todo.find? (fun m' => m'.id = m.id) = some m := by
          rw [htodo, List.find?_cons_of_pos (by simp)]
        rw [inFlight] at hfree
        rw [System.step, System.spawn, h.phase] at hbatch
        dsimp only at hbatch
        rw [hfind] at hbatch
        dsimp only at hbatch
        rw [if_pos hfree] at hbatch
        simp at hbatch
      · -- all permits are taken, by executions that are not over
        have hpos : 0 < inFlight x.system.batch := by
          have := cfg.concurrent
          omega
        obtain ⟨b, hb⟩ := List.exists_mem_of_length_pos hpos
        obtain ⟨hb, hn⟩ := List.mem_filter.mp hb
        exact ⟨b.mission.id, _, by simp, advance_ne hdriving hb (by simpa using hn)⟩
  | nil =>
      cases hbatch : x.system.batch with
      | nil =>
          have hat : x.system.AtHead d := ⟨h.phase, htodo, hbatch⟩
          exact ⟨"", .head none da, by simp, h.head_ne hat da⟩
      | cons b bs =>
          have hb : b ∈ x.system.batch := by
            rw [hbatch]
            exact List.mem_cons_self
          cases hn : b.ended with
          | false => exact ⟨b.mission.id, _, by simp, advance_ne hdriving hb hn⟩
          | true =>
              have hrec : x.system.Receives d [] b bs :=
                ⟨h.phase, htodo, hbatch, List.isEmpty_iff.mp hn⟩
              exact ⟨b.mission.id, .receive b.mission.id da, by simp, h.receive_ne hrec da⟩

/-! ## Whole runs -/

/-- What a run keeps that has begun with the driver `d₀` in `s₀`, and how it ends. -/
structure Orderly (cfg : EngineConfig) (team : ValidTeam) (s₀ : System) (d₀ : Driver)
    (labels : List Label) (x : DagRun) : Prop where
  once : (x.started.map Mission.id).Nodup
  known : ∀ m ∈ x.started, m ∈ d₀.team.team.missions ∧ m.id ∉ d₀.completed
  /-- What is started next has not been started, and what it needs is in the log. -/
  ready : ∀ l m, x.system.spawns cfg l = some m → m.id ∉ x.started.map Mission.id ∧
    m.ReadyAfter (d₀.completed ∪ completedIn x.system.trace)
  /-- Executions left behind before the run are not its own. -/
  bounded : inFlight x.system.branches ≤ cfg.maxConcurrency + inFlight s₀.branches
  /-- It is never stuck before it returns, whatever it is answered. -/
  moves : x.system.phase ≠ .idle → ∀ (a : MissionAnswers) (da : DriverAnswers), ∃ id,
    ∃ l ∈ [Label.head none da, .spawn id a, .advance id, .receive id da],
      System.step cfg team x.system l ≠ x.system
  /-- And it does not go on forever. -/
  ends : Along (step cfg team) (fun x l => System.step cfg team x.system l ≠ x.system)
      { system := s₀, started := [] } labels →
    labels.length ≤ 8 * d₀.team.team.missions.length + 1 +
      (s₀.orphans.map fun b => b.acts.length).sum
  complete : x.system.phase = .idle → d₀.team.Satisfiable d₀.completed →
    x.started.Perm (d₀.team.left d₀.completed) ∧
      (∀ m ∈ d₀.team.team.missions, m.id ∈ x.system.squad.completedMissions) ∧
      x.system.squad.status = .completed ∧
      (x.system.returned = some .completed ∨ ∃ manager a e err, .head manager a ∈ labels ∧
        a.store e = some err ∧ x.system.returned = some (.error (.storeError err)))
  cyclic : x.system.phase = .idle → ¬ d₀.team.Satisfiable d₀.completed →
    x.system.returned = some (.error .cyclicDependency)

/-- The errors of the store at loop heads. -/
def headErrors (labels : List Label) : Set String :=
  { err | ∃ manager a e, .head manager a ∈ labels ∧ a.store e = some err }

theorem kept_enters {team : ValidTeam} {s₀ : System} (hdriven : System.Driven team s₀)
    (h : s₀.Enters d₀) (errors : Set String) :
    Kept cfg team errors s₀ d₀ { system := s₀, started := [] } where
  driven := hdriven
  ordered := ⟨fun m hm => absurd hm List.not_mem_nil, List.nodup_nil, trivial⟩
  permits := by
    show inFlight s₀.batch ≤ cfg.maxConcurrency
    rw [h.batch]
    exact Nat.zero_le _
  orphans := Nat.le_refl _
  state := by
    refine .inl ⟨d₀, h.phase, rfl, h.process, ?_, ?_, ?_, ?_, fun id hid => ?_⟩
    · intro m hm
      rw [h.todo] at hm
      cases hm
    · intro id hid
      rw [h.running] at hid
      cases hid
    · intro b hb
      rw [show ({ system := s₀, started := [] } : DagRun).system.batch = [] from h.batch] at hb
      cases hb
    · simp
    · exact Finset.mem_union_left _ hid

/-- A step of a kept run that changes something leaves less to do. -/
theorem Kept.remaining_lt {team : ValidTeam} {errors : Set String} {s₀ : System}
    (h : Kept cfg team errors s₀ d₀ x) {l : Label} (hl : Smooth cfg x l)
    (hne : System.step cfg team x.system l ≠ x.system) :
    (System.step cfg team x.system l).remaining < x.system.remaining := by
  rcases h.state with ⟨d, hgo⟩ | ⟨hidle, -⟩
  · exact (hgo.remaining_lt (h.driven.driving hgo.phase) hl).resolve_left hne
  · have hbatch := h.driven.batch_nil fun d hd => by rw [hidle] at hd; cases hd
    rcases @step_idle cfg x team l hidle hbatch hl with he | ⟨pre, b, post, act, rest, hb, ha, he⟩
    · exact absurd (congrArg DagRun.system he) hne
    · have hsystem := congrArg DagRun.system he
      dsimp only [step] at hsystem
      rw [hsystem, System.remaining, System.remaining, hb]
      simp only [System.record, List.map_append, List.map_cons, List.sum_append, List.sum_cons, ha,
        List.length_cons]
      omega

theorem remaining_enters {s₀ : System} (h : s₀.Enters d₀) : s₀.remaining ≤
    8 * d₀.team.team.missions.length + 1 + (s₀.orphans.map fun b => b.acts.length).sum := by
  have hpending : System.pending d₀.team (d₀.completed ∪ d₀.running) ≤
      d₀.team.team.missions.length := by
    rw [System.pending, ← @List.length_map _ _ d₀.team.team.missions Mission.id]
    exact List.countP_le_length
  rw [System.remaining, h.phase, h.batch, Phase.remaining_driving, h.todo, List.isEmpty_nil,
    if_pos rfl, List.map_nil, List.sum_nil]
  omega

theorem mem_todo_of_spawns {s : System} {l : Label} {m : Mission} (h : s.spawns cfg l = some m) :
    ∃ d, s.phase = .driving d ∧ m ∈ d.todo := by
  rw [System.spawns.eq_def] at h
  split at h
  · split at h
    · next d hd =>
        split at h
        · exact ⟨d, hd, List.mem_of_find?_eq_some h⟩
        · cases h
    · cases h
  · cases h

/-- What is started next. -/
theorem Going.ready {team : ValidTeam} (h : Going d₀ x d)
    (hdriving : System.Driving team x.system d) {m : Mission} (hm : m ∈ d.todo) :
    m.id ∉ x.started.map Mission.id ∧
      m.ReadyAfter (d₀.completed ∪ completedIn x.system.trace) := by
  obtain ⟨-, hrun, hcomp⟩ := hdriving.todo m hm
  refine ⟨fun hin => hcomp ?_, (h.todo m hm).2.mono h.reported⟩
  exact (h.completed m.id).mpr (.inr ⟨hin, hrun⟩)

/-- `run_dag` ends with every mission completed when its team can be done in some
order, and with the error otherwise. On the way it starts every mission once, when
what it needs is completed, and no more than allowed at a time. -/
theorem run_dag_orderly (cfg : EngineConfig) (team : ValidTeam) (squadId : String) (inputs : Json)
    (before labels : List Label) (d₀ : Driver)
    (henters : (System.after cfg team squadId inputs before).Enters d₀)
    (hsmooth : Along (step cfg team) (Smooth cfg)
      { system := System.after cfg team squadId inputs before, started := [] } labels) :
    Orderly cfg team (System.after cfg team squadId inputs before) d₀ labels
      (after cfg team (System.after cfg team squadId inputs before) labels) := by
  have hdriven := (System.driven_busy_after cfg team squadId inputs before).1
  generalize System.after cfg team squadId inputs before = s₀ at *
  have hstart := @kept_enters cfg d₀ team s₀ hdriven henters (headErrors labels)
  -- along with the store's answers
  have hok : Along (step cfg team) (fun x l => Smooth cfg x l ∧ ∀ manager a, l = .head manager a →
      ∀ e err, a.store e = some err → err ∈ headErrors labels)
      { system := s₀, started := [] } labels := by
    refine hsmooth.mono fun x l hmem hl => ⟨hl, ?_⟩
    rintro manager a rfl e err herr
    exact ⟨manager, a, e, hmem, herr⟩
  have hkept : Kept cfg team (headErrors labels) s₀ d₀ (after cfg team s₀ labels) :=
    @Along.invariant _ _ _ _ (Kept cfg team (headErrors labels) s₀ d₀)
      (fun x l hl h => kept_step h hl.1 hl.2) _ hstart _ hok
  generalize after cfg team s₀ labels = x at hkept
  refine ⟨hkept.ordered.nodup, hkept.ordered.mem, ?_, ?_, ?_, ?_, ?_, ?_⟩
  · intro l m hm
    obtain ⟨d, hd, htodo⟩ := mem_todo_of_spawns hm
    rcases hkept.state with ⟨d', hgo⟩ | ⟨hidle, -⟩
    · have hsame := hgo.phase.symm.trans hd
      injection hsame with hsame
      subst hsame
      exact hgo.ready (hkept.driven.driving hd) htodo
    · rw [hidle] at hd
      cases hd
  · rw [System.branches, System.branches, inFlight_append, inFlight_append, henters.batch]
    have hp := hkept.permits
    have ho := hkept.orphans
    omega
  · intro hphase a da
    rcases hkept.state with ⟨d, hgo⟩ | ⟨hidle, -⟩
    · exact hgo.exists_step (hkept.driven.driving hgo.phase) a da
    · exact absurd hidle hphase
  · intro hmoves
    refine le_trans ?_ (remaining_enters henters)
    exact @Along.length_le _ _ _ _ (Kept cfg team (headErrors labels) s₀ d₀)
      (fun x => x.system.remaining)
      (fun x l hl h => ⟨kept_step h hl.1.1 hl.1.2, h.remaining_lt hl.1.1 hl.2⟩) _ hstart _
      (hok.and hmoves)
  · intro hidle hsat
    rcases hkept.state with ⟨d, hgo⟩ | ⟨-, hended⟩
    · rw [hgo.phase] at hidle
      cases hidle
    · cases hended with
      | complete hall hstatus hr horder =>
          refine ⟨horder, hall, hstatus, hr.imp_right ?_⟩
          rintro ⟨err, ⟨manager, a, e, hmem, herr⟩, hr⟩
          exact ⟨manager, a, e, err, hmem, herr, hr⟩
      | stuck hnot hr => exact absurd hsat hnot
  · intro hidle hnot
    rcases hkept.state with ⟨d, hgo⟩ | ⟨-, hended⟩
    · rw [hgo.phase] at hidle
      cases hidle
    · cases hended with
      | complete hall hstatus hr horder =>
          exact absurd ⟨x.started, horder, hkept.ordered.doable⟩ hnot
      | stuck hnot hr => exact hr

/-- A run up to its driver. -/
def entering : List Label := [.run false System.storing, .plan (.error "") System.storing]

/-- Two missions, the second when the first is done. -/
def oneByOne : List Label :=
  [.head none System.storing] ++ System.collecting ["m1"] ++ [.head none System.storing] ++
    System.collecting ["m2"] ++ [.head none System.storing]

theorem orderly_inTurn :
    let s := System.after System.plainEngine inTurn "s" (.obj []) entering
    let x := after System.plainEngine inTurn s oneByOne
    Orderly System.plainEngine inTurn s (System.scheduling inTurn ∅ []) oneByOne x ∧
      x.system.returned = some .completed := by
  intro s x
  refine ⟨run_dag_orderly System.plainEngine inTurn "s" (.obj []) entering oneByOne
    (System.scheduling inTurn ∅ []) ?_ (by decide), by decide⟩
  exact { phase := rfl, todo := rfl, batch := rfl, process := rfl, running := rfl }

end DagRun

end Pandaria.Comp
