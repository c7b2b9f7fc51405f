import Mathlib.Logic.Relation
import Pandaria.Proofs.Runnable

/-!
# A manager and its team

`run_hierarchical` awaits whatever it starts, so inside a run every state has at
most one next step, and a run is followed from its start to its return. A turn
of the manager either completes one mission or is the last, since the mission
pauses; so a run that goes on makes the pending missions one fewer with each of
its turns, and what is allowed is a hundred of them. The life of a squad is a
number of runs, with signals between them, as long as no run ends in an error.
-/

namespace Pandaria.Comp

open Pandaria.Ai Pandaria.Lib

/-- The mission is completed here. -/
def Act.completes (id : String) : Act → Bool
  | .emit (.missionCompleted missionId ..) => missionId = id
  | _ => false

/-- A mission that may pause its run. -/
def Mission.Pausing (m : Mission) : Prop :=
  m.waitForSignal ≠ none ∨ 0 < m.retries.getD 0 ∨ m.breakpoint = true

namespace System

/-! ## Runs -/

/-- What answers a squad from outside, whatever its state. -/
structure Surroundings where
  planner : System → Except String (Except String Plan)
  manager : System → Except String Json
  mission : System → Mission → MissionAnswers
  driver : System → DriverAnswers

/-- The label with which a run that awaits everything goes on. -/
def next (env : Surroundings) (s : System) : Option Label :=
  match s.phase with
  | .idle => none
  | .planning _ => some (.plan (env.planner s) (env.driver s))
  | .driving d =>
      match d.todo, s.batch with
      | m :: _, _ => some (.spawn m.id (env.mission s m))
      | [], [] => some (.head (some (env.manager s)) (env.driver s))
      | [], b :: _ =>
          if b.ended then some (.receive b.mission.id (env.driver s))
          else some (.advance b.mission.id)

def Goes (cfg : EngineConfig) (team : ValidTeam) (env : Surroundings) (s t : System) : Prop :=
  ∃ l, next env s = some l ∧ step cfg team s l = t

/-- The run in `s` comes to `t`. -/
def Leads (cfg : EngineConfig) (team : ValidTeam) (env : Surroundings) : System → System → Prop :=
  Relation.ReflTransGen (Goes cfg team env)

/-- The manager hands over to a pending mission: by `next_role`, or else by the
first of its candidates. -/
def Delegates (cfg : EngineConfig) (d : Driver) (answer : Except String Json) : Prop :=
  ∃ content h, answer = .ok content ∧ managerHandoff cfg content = .ok h ∧ h.terminate = false ∧
    ∃ m ∈ d.team.team.missions, m.id ∉ d.completed ∧
      (h.nextRole = some m.role ∨ h.nextRole = none ∧ h.candidates.head? = some m.role)

/-- The manager always delegates, no mission fails, and the store keeps all. -/
structure Obliging (cfg : EngineConfig) (team : ValidTeam) (env : Surroundings) : Prop where
  hierarchical : team.team.defaultProcess ≠ .sequential
  stores : ∀ s e, (env.driver s).store e = none
  plans : team.team.planning = true → ∀ s, ∃ planned,
    runPlanningPhase team.team (env.planner s) = .ok planned
  delegates : ∀ s d, s.AtHead d → (∃ m ∈ d.team.team.missions, m.id ∉ d.completed) →
    Delegates cfg d (env.manager s)
  succeeds : ∀ s m, Known team m →
    (executeMission cfg (env.mission s m) s.squad m).result = some (.ok ())

/-- How many missions are not completed. -/
def pending (team : ValidTeam) (completed : Finset String) : Nat :=
  (team.team.missions.map Mission.id).countP fun id => id ∉ completed

/-- Every mission has been completed as often as the set says: once, or never. -/
def Counted (s : System) (completed : Finset String) : Prop :=
  ∀ id, s.trace.countP (Act.completes id) = if id ∈ completed then 1 else 0

variable {cfg : EngineConfig} {team : ValidTeam} {env : Surroundings} {s t : System}

theorem countP_openingActs (a : MissionAnswers) (m : Mission) (sq : Squad) (id : String) :
    (openingActs a m sq).countP (Act.completes id) = 0 := by
  rw [List.countP_eq_zero]
  intro act hact hcompletes
  rw [openingActs, takenActs] at hact
  split at hact
  · split at hact
    · simp only [List.mem_append, List.mem_cons, List.not_mem_nil, or_false] at hact
      rcases hact with rfl | rfl | rfl
      all_goals cases hcompletes
    · simp only [List.nil_append, List.mem_cons, List.not_mem_nil, or_false] at hact
      rcases hact with rfl | rfl
      all_goals cases hcompletes
  · simp only [List.nil_append, List.mem_cons, List.not_mem_nil, or_false] at hact
    rcases hact with rfl | rfl
    all_goals cases hcompletes

/-- An execution that does not fail pauses its mission, or completes it. -/
inductive Finished (m : Mission) (x : Execution) : Prop where
  | paused (hm : m.Pausing) (hacts : ∀ id, x.acts.countP (Act.completes id) = 0)
      (hst : (∃ signal, x.squad.status = .waitingForSignal signal) ∨
        ∃ wakeAt, x.squad.status = .sleeping wakeAt)
  | completed (hacts : ∀ id, x.acts.countP (Act.completes id) = if id = m.id then 1 else 0)
      (hst : x.squad.status = if m.breakpoint then .breakpoint m.id else .running)

theorem finished_of_executed {a : MissionAnswers} {m : Mission} {sq : Squad} {x : Execution}
    (h : Executed a m sq x) (hr : x.result = some (.ok ())) (hrun : sq.status = .running) :
    Finished m x := by
  cases h with
  | stopped hacts hr' => exact absurd hr hr'
  | waiting signal hm hs hacts hr' hc hst =>
      refine .paused (.inl (by rw [hm]; exact Option.some_ne_none _)) (fun id => ?_)
        (.inl ⟨signal, hst⟩)
      rw [hacts]
      rfl
  | answered succeeded hacts hr' => exact absurd hr hr'
  | completed handoff value hacts hr' hc hst =>
      refine .completed (fun id => ?_) (by rw [hst, hrun])
      rw [hacts, List.countP_append, countP_openingActs,
        List.countP_cons_of_neg (by simp [Act.completes]), List.countP_singleton, Nat.zero_add]
      simp [Act.completes, eq_comm]
  | retrying reason wakeAt hm hacts hr' hc hst =>
      refine .paused (.inr (.inl hm)) (fun id => ?_) (.inr ⟨wakeAt, hst⟩)
      rw [hacts, List.countP_append, countP_openingActs]
      rfl
  | failed reason hm hacts hr' =>
      rw [hr] at hr'
      cases hr'

/-- All that an execution still does, when it is the only one. -/
theorem leads_advance {d : Driver} (hphase : s.phase = .driving d) (htodo : d.todo = [])
    {b : Branch} (hbatch : s.batch = [b]) :
    Leads cfg team env s
      { s with batch := [{ b with acts := [] }], trace := s.trace ++ b.acts } := by
  obtain ⟨acts, hacts⟩ : ∃ acts, b.acts = acts := ⟨_, rfl⟩
  induction acts generalizing s b with
  | nil =>
      rw [hacts, List.append_nil, ← hacts, ← hbatch]
      exact Relation.ReflTransGen.refl
  | cons act rest ih =>
      have hnext : next env s = some (.advance b.mission.id) := by
        rw [next, hphase]
        simp only [htodo, hbatch, Branch.ended, hacts]
        rfl
      have hstep : step cfg team s (.advance b.mission.id) =
          { s with batch := [{ b with acts := rest }], trace := s.trace ++ [act] } := by
        rw [step, System.advance, hbatch, indexOf, popAct]
        simp [hacts, record]
      have hrest := ih
        (s := { s with batch := [{ b with acts := rest }], trace := s.trace ++ [act] })
        hphase rfl rfl
      have hsplit : s.trace ++ act :: rest = s.trace ++ [act] ++ rest := by simp
      rw [hacts, hsplit]
      exact Relation.ReflTransGen.head ⟨_, hnext, hstep⟩ hrest

/-- The one mission to spawn is spawned, and its execution comes to its end. -/
theorem leads_execution {d : Driver} {m : Mission} (hphase : s.phase = .driving d)
    (htodo : d.todo = [m]) (hbatch : s.batch = []) :
    Leads cfg team env s
      { s with
        phase := .driving { d with todo := [], running := insert m.id d.running }
        batch := [{ executeMission cfg (env.mission s m) s.squad m with acts := [], mission := m }]
        trace := s.trace ++ (executeMission cfg (env.mission s m) s.squad m).acts } := by
  have hnext : next env s = some (.spawn m.id (env.mission s m)) := by
    rw [next, hphase]
    simp only [htodo]
  have hstep : step cfg team s (.spawn m.id (env.mission s m)) =
      { s with
        phase := .driving { d with todo := [], running := insert m.id d.running }
        batch := [{ executeMission cfg (env.mission s m) s.squad m with mission := m }] } := by
    rw [step, System.spawn, hphase]
    simp [htodo, hbatch, cfg.concurrent]
  refine Relation.ReflTransGen.head ⟨_, hnext, hstep⟩ ?_
  exact leads_advance (b := { executeMission cfg (env.mission s m) s.squad m with mission := m })
    rfl rfl rfl

/-- Its result is taken. -/
theorem leads_receive {d : Driver} (hphase : s.phase = .driving d) (htodo : d.todo = [])
    {b : Branch} (hbatch : s.batch = [b]) (hended : b.acts = []) (hr : b.result = some (.ok ())) :
    Leads cfg team env s
      ({ s with batch := [], phase := .driving (heard d b) }.receiveOk (heard d b) b) := by
  have hnext : next env s = some (.receive b.mission.id (env.driver s)) := by
    rw [next, hphase]
    simp [htodo, hbatch, Branch.ended, hended]
  have hstep : step cfg team s (.receive b.mission.id (env.driver s)) =
      { s with batch := [], phase := .driving (heard d b) }.receiveOk (heard d b) b := by
    have hfind : s.batch.find? (fun c => c.mission.id = b.mission.id) = some b := by
      rw [hbatch]
      simp
    have herase : s.batch.eraseP (fun c => c.mission.id = b.mission.id) = [] := by
      rw [hbatch]
      simp
    rw [step, System.receive, hphase]
    simp only [hfind]
    rw [if_pos (by simp [htodo, Branch.ended, hended])]
    simp only [herase, hr]
    rfl
  exact Relation.ReflTransGen.single ⟨_, hnext, hstep⟩

/-- The driver that has heard of its one mission. -/
def settled (d : Driver) (m : Mission) : Driver :=
  { d with todo := [], running := (insert m.id d.running).erase m.id }

theorem leads_delegated {d : Driver} {m : Mission} (hphase : s.phase = .driving d)
    (htodo : d.todo = [m]) (hbatch : s.batch = []) {x : Execution}
    (hx : executeMission cfg (env.mission s m) s.squad m = x) (hr : x.result = some (.ok ())) :
    Leads cfg team env s
      ({ s with batch := [], phase := .driving (settled d m), trace := s.trace ++ x.acts }.receiveOk
        (settled d m) { x with acts := [], mission := m }) := by
  have hexecution : Leads cfg team env s _ := leads_execution hphase htodo hbatch
  rw [hx] at hexecution
  refine Relation.ReflTransGen.trans hexecution ?_
  exact leads_receive (s := { s with
      phase := .driving { d with todo := [], running := insert m.id d.running }
      batch := [{ x with acts := [], mission := m }]
      trace := s.trace ++ x.acts })
    (d := { d with todo := [], running := insert m.id d.running })
    (b := { x with acts := [], mission := m }) rfl rfl rfl rfl hr

/-! ## The loop -/

/-- A manager's loop head in a run that began with `total` missions pending. -/
structure Turning (team : ValidTeam) (total : Nat) (s : System) (d : Driver) : Prop where
  head : s.AtHead d
  known : ∀ m ∈ d.team.team.missions, Known team m
  ids : d.team.team.missions.map Mission.id = team.team.missions.map Mission.id
  process : d.team.team.defaultProcess ≠ .sequential
  status : s.squad.status = .running
  counted : Counted s d.completed
  turns : pending team d.completed + d.managerLoops = total
  within : d.managerLoops ≤ maxManagerLoops

/-- How a run of an obliging manager returns. -/
inductive Outcome (team : ValidTeam) (total : Nat) (s : System) : Prop where
  | paused {status : SquadStatus} (hr : s.returned = some (.paused status))
      (hm : ∃ m ∈ team.team.missions, m.Pausing) (hc : Counted s s.squad.completedMissions)
  | completed (hr : s.returned = some .completed) (hst : s.squad.status = .completed)
      (hall : pending team s.squad.completedMissions = 0) (htotal : total ≤ maxManagerLoops)
      (hc : Counted s s.squad.completedMissions)
  | exceeded (hr : s.returned = some (.error (.managerLoopExceeded maxManagerLoops)))
      (htotal : maxManagerLoops < total)

/-- The run has returned, and left nothing behind. -/
structure Back (team : ValidTeam) (total : Nat) (s : System) : Prop where
  phase : s.phase = .idle
  batch : s.batch = []
  outcome : Outcome team total s

theorem pausing_of_known {m : Mission} (hk : Known team m) (hm : m.Pausing) :
    ∃ m ∈ team.team.missions, m.Pausing := by
  obtain ⟨m', hm', he⟩ := hk
  refine ⟨m', hm', ?_⟩
  rw [he] at hm
  exact hm

theorem pending_insert {completed : Finset String} {m : Mission}
    (hm : m.id ∈ team.team.missions.map Mission.id) (hnot : m.id ∉ completed) :
    pending team (insert m.id completed) + 1 = pending team completed := by
  obtain ⟨pre, post, hids⟩ := List.append_of_mem hm
  have hnodup := team.nodup
  rw [hids] at hnodup
  have hperm : (pre ++ m.id :: post).Perm (m.id :: (pre ++ post)) := List.perm_middle
  have hout := (List.nodup_cons.mp (hperm.nodup_iff.mp hnodup)).1
  have hsame : (pre ++ post).countP (fun id => decide (id ∉ insert m.id completed)) =
      (pre ++ post).countP fun id => decide (id ∉ completed) := by
    apply List.countP_congr
    intro id hid
    have hne : id ≠ m.id := fun he => hout (he ▸ hid)
    simp [hne]
  rw [pending, pending, hids, hperm.countP_eq, hperm.countP_eq,
    List.countP_cons_of_neg (by simp), List.countP_cons_of_pos (by simpa using hnot), hsame]

theorem exists_pending {d : Driver}
    (hmore : (MissionScheduler.new d.team.team).allCompleted d.completed = false) :
    ∃ m ∈ d.team.team.missions, m.id ∉ d.completed := by
  rw [MissionScheduler.allCompleted, List.all_eq_false] at hmore
  obtain ⟨r, hr, hout⟩ := hmore
  obtain ⟨hm, hid⟩ := mem_scheduler hr
  exact ⟨r.2, hm, by simpa [hid] using hout⟩

/-- The role of the handoff has a pending mission, so the first such is chosen. -/
theorem decideNext_of_delegates {d : Driver} {answer : Except String Json}
    (h : Delegates cfg d answer) : ∃ m ∈ d.team.team.missions, m.id ∉ d.completed ∧
      decideNext cfg d answer = .ok (some m) := by
  obtain ⟨content, handoff, rfl, hhandoff, hgo, m, hm, hnot, hrole⟩ := h
  have hfind : ∃ m', (d.team.team.missions.find? fun m' => m'.role = m.role ∧ m'.id ∉ d.completed) =
      some m' := by
    rw [← Option.isSome_iff_exists, List.find?_isSome]
    exact ⟨m, hm, by simp [hnot]⟩
  obtain ⟨m', hm'⟩ := hfind
  have hchoose : chooseMission d.team.team d.completed handoff = .ok m' := by
    rw [chooseMission.eq_def]
    rcases hrole with hrole | ⟨hnone, hcand⟩
    · simp only [hrole, hm']
    · obtain ⟨rest, hcand⟩ := List.head?_eq_some_iff.mp hcand
      simp only [hnone, hcand, hm']
  obtain ⟨hmem, hout⟩ := mem_of_chooseMission hchoose
  refine ⟨m', hmem, hout, ?_⟩
  rw [decideNext.eq_def]
  simp only [hhandoff, hgo, hchoose]
  rfl

theorem next_head {d : Driver} (hd : s.AtHead d) :
    next env s = some (.head (some (env.manager s)) (env.driver s)) := by
  rw [next, hd.phase]
  simp only [hd.todo, hd.batch]

theorem step_head {d : Driver} (hd : s.AtHead d) (hproc : d.team.team.defaultProcess ≠ .sequential)
    (manager : Option (Except String Json)) (a : DriverAnswers) :
    step cfg team s (.head manager a) = managerHead cfg s d manager a := by
  rw [step, System.head, hd.phase]
  dsimp only
  rw [if_pos (by simp [hd.todo, hd.batch])]
  cases hp : d.team.team.defaultProcess with
  | sequential => exact absurd hp hproc
  | hierarchical agentId => rfl

/-- A turn completes a mission and comes back to the loop head, or the run
returns paused. -/
theorem turn (h : Obliging cfg team env) {total : Nat} {d : Driver} (ht : Turning team total s d)
    (hmore : (MissionScheduler.new d.team.team).allCompleted d.completed = false)
    (hlt : d.managerLoops < maxManagerLoops) :
    ∃ t, Leads cfg team env s t ∧ (Back team total t ∨
      ∃ d', Turning team total t d' ∧ d'.managerLoops = d.managerLoops + 1) := by
  obtain ⟨m, hm, hnot, hdecide⟩ := decideNext_of_delegates
    (h.delegates s d ht.head (exists_pending hmore))
  have hstep : step cfg team s (.head (some (env.manager s)) (env.driver s)) =
      { s with phase := .driving { d with todo := [m], managerLoops := d.managerLoops + 1 } } := by
    rw [step_head ht.head ht.process, managerHead.eq_def, hmore, if_neg (by simp),
      if_neg (by omega)]
    simp only [hdecide]
  obtain ⟨u, hu⟩ : ∃ u : System, { s with
    phase := .driving { d with todo := [m], managerLoops := d.managerLoops + 1 } } = u := ⟨_, rfl⟩
  obtain ⟨x, hx⟩ : ∃ x, executeMission cfg (env.mission u m) u.squad m = x := ⟨_, rfl⟩
  have hres : x.result = some (.ok ()) := hx ▸ h.succeeds u m (ht.known m hm)
  have hsquad : u.squad = s.squad := by rw [← hu]
  have hfinished : Finished m x :=
    finished_of_executed (hx ▸ executeMission_cases cfg (env.mission u m) u.squad m) hres
      (hsquad ▸ ht.status)
  have hdelegated : Leads cfg team env u _ :=
    leads_delegated (d := { d with todo := [m], managerLoops := d.managerLoops + 1 })
      (by rw [← hu]) rfl (by rw [← hu]; exact ht.head.batch) hx hres
  have hturn := Relation.ReflTransGen.head ⟨_, next_head ht.head, hstep.trans hu⟩ hdelegated
  refine ⟨_, hturn, ?_⟩
  rw [receiveOk]
  dsimp only
  have htrace : u.trace = s.trace := by rw [← hu]
  have hsame : ∀ acts : List Act, (∀ id, acts.countP (Act.completes id) = 0) → ∀ id,
      (u.trace ++ acts).countP (Act.completes id) = if id ∈ d.completed then 1 else 0 := by
    intro acts hacts id
    rw [htrace, List.countP_append, hacts, Nat.add_zero]
    exact ht.counted id
  have hmore : ∀ acts : List Act,
      (∀ id, acts.countP (Act.completes id) = if id = m.id then 1 else 0) → ∀ id,
        (u.trace ++ acts).countP (Act.completes id) =
          if id ∈ insert m.id d.completed then 1 else 0 := by
    intro acts hacts id
    rw [htrace, List.countP_append, hacts, ht.counted id]
    by_cases hid : id = m.id
    · subst hid
      simp [hnot]
    · simp [hid]
  cases hfinished with
  | paused hpausing hacts hst =>
      refine .inl ?_
      rcases hst with ⟨signal, hst⟩ | ⟨wakeAt, hst⟩
      · rw [hst]
        exact ⟨rfl, rfl, .paused rfl (pausing_of_known (ht.known m hm) hpausing) (hsame _ hacts)⟩
      · rw [hst]
        exact ⟨rfl, rfl, .paused rfl (pausing_of_known (ht.known m hm) hpausing) (hsame _ hacts)⟩
  | completed hacts hst =>
      rw [hst]
      cases hbreak : m.breakpoint with
      | true =>
          have hpausing : m.Pausing := .inr (.inr hbreak)
          exact .inl ⟨rfl, rfl,
            .paused rfl (pausing_of_known (ht.known m hm) hpausing) (hmore _ hacts)⟩
      | false =>
          refine .inr ⟨_, ⟨⟨rfl, rfl, rfl⟩, ht.known, ht.ids, ht.process, hsquad ▸ ht.status,
            hmore _ hacts, ?_, hlt⟩, rfl⟩
          have hpending := pending_insert (ht.ids ▸ List.mem_map_of_mem hm) hnot
          have hturns := ht.turns
          show pending team (insert m.id d.completed) + (d.managerLoops + 1) = total
          omega

theorem head_complete (h : Obliging cfg team env) {total : Nat} {d : Driver}
    (ht : Turning team total s d)
    (hall : (MissionScheduler.new d.team.team).allCompleted d.completed = true) :
    ∃ t, Leads cfg team env s t ∧ Back team total t := by
  have hstep : step cfg team s (.head (some (env.manager s)) (env.driver s)) =
      s.complete d (env.driver s) := by
    rw [step_head ht.head ht.process, managerHead.eq_def, hall, if_pos rfl]
  refine ⟨_, Relation.ReflTransGen.single ⟨_, next_head ht.head, hstep⟩, ?_⟩
  rw [complete, retWith, h.stores]
  have hpending : pending team d.completed = 0 := by
    rw [pending, ← ht.ids, List.countP_eq_zero]
    intro id hid
    obtain ⟨m, hm, rfl⟩ := List.mem_map.mp hid
    rw [MissionScheduler.allCompleted, List.all_eq_true] at hall
    simpa using hall _ (mem_scheduler_of_mem hm)
  have hturns := ht.turns
  have hwithin := ht.within
  refine ⟨rfl, rfl, .completed rfl rfl hpending (by omega) fun id => ?_⟩
  show (s.trace ++ [_]).countP (Act.completes id) = if id ∈ d.completed then 1 else 0
  rw [List.countP_append, ht.counted id]
  rfl

theorem head_exceeded (h : Obliging cfg team env) {total : Nat} {d : Driver}
    (ht : Turning team total s d)
    (hmore : (MissionScheduler.new d.team.team).allCompleted d.completed = false)
    (hlast : d.managerLoops = maxManagerLoops) :
    ∃ t, Leads cfg team env s t ∧ Back team total t := by
  have hstep : step cfg team s (.head (some (env.manager s)) (env.driver s)) =
      s.failWith (env.driver s)
        ("manager loop exceeded " ++ Nat.repr maxManagerLoops ++ " iterations")
        (.managerLoopExceeded maxManagerLoops) := by
    rw [step_head ht.head ht.process, managerHead.eq_def, hmore, if_neg (by simp),
      if_pos (by omega)]
  refine ⟨_, Relation.ReflTransGen.single ⟨_, next_head ht.head, hstep⟩, ?_⟩
  rw [failWith, retWith, h.stores]
  obtain ⟨m, hm, hnot⟩ := exists_pending hmore
  have hpending : 0 < pending team d.completed := by
    rw [pending, ← ht.ids, List.countP_pos_iff]
    exact ⟨m.id, List.mem_map_of_mem hm, by simpa using hnot⟩
  have hturns := ht.turns
  exact ⟨rfl, rfl, .exceeded rfl (by omega)⟩

/-- The loop returns: with every turn there is one left less. -/
theorem loop (h : Obliging cfg team env) {total : Nat} (left : Nat) {d : Driver}
    (ht : Turning team total s d) (hleft : d.managerLoops + left = maxManagerLoops) :
    ∃ t, Leads cfg team env s t ∧ Back team total t := by
  induction left generalizing s d with
  | zero =>
      cases hc : (MissionScheduler.new d.team.team).allCompleted d.completed with
      | true => exact head_complete h ht hc
      | false => exact head_exceeded h ht hc hleft
  | succ left ih =>
      cases hc : (MissionScheduler.new d.team.team).allCompleted d.completed with
      | true => exact head_complete h ht hc
      | false =>
          obtain ⟨t, hst, hback | ⟨d', ht', hloops⟩⟩ := turn h ht hc (by omega)
          · exact ⟨t, hst, hback⟩
          · obtain ⟨u, htu, hback⟩ := ih ht' (by omega)
            exact ⟨u, hst.trans htu, hback⟩

/-! ## Lives -/

/-- An engine that reads the three fields of a handoff a manager decides with. -/
def managed : EngineConfig :=
  { plainEngine with
    handoffFromValue := fun v => .ok
      { summary := ""
        nextRole := (v.get "next_role").bind Json.asStr
        candidates := ((v.get "candidates").bind Json.asArray).elim [] fun items =>
          items.filterMap Json.asStr
        instructions := none
        attachments := []
        payload := .null
        requestHuman := false
        terminate := (v.get "terminate").bind Json.asBool = some true } }

def candidates : Json :=
  .obj [("summary", .str "either"), ("candidates", .arr [.str "r", .str "w"])]

end System

end Pandaria.Comp
