import Pandaria.Proofs.EngineSteps
import Pandaria.Lib.Run

/-!
# A driver and its batch

What holds of a driver between any two steps, whatever is said of runs: the
executions it waits for are of different missions, none of which it counts as
completed or is about to spawn, and all missions are the team's, up to what a
planner may rewrite.
-/

namespace Pandaria.Comp

open Pandaria.Ai Pandaria.Lib

variable {cfg : EngineConfig} {team : ValidTeam}

/-! ## The missions of a team -/

/-- A mission of the team, up to its task and its dependencies. -/
def Known (team : ValidTeam) (m : Mission) : Prop :=
  ∃ m' ∈ team.team.missions, m = { m' with task := m.task, dependsOn := m.dependsOn }

theorem known_of_mem {m : Mission} (h : m ∈ team.team.missions) : Known team m := ⟨m, h, rfl⟩

theorem validateMissions_ok {ms : List Mission} {seen : List String}
    (h : Team.validateMissions seen ms = .ok ()) :
    (ms.map Mission.id).Nodup ∧ ∀ m ∈ ms, m.id ∉ seen := by
  induction ms generalizing seen with
  | nil => exact ⟨List.nodup_nil, by simp⟩
  | cons m ms ih =>
      rw [Team.validateMissions] at h
      split at h
      · cases h
      · next hm =>
          obtain ⟨hn, hs⟩ := ih h
          rw [List.map_cons, List.nodup_cons]
          refine ⟨⟨?_, hn⟩, ?_⟩
          · intro hmem
            obtain ⟨m', hm', he⟩ := List.mem_map.mp hmem
            exact hs m' hm' (by rw [he]; exact List.mem_cons_self)
          · intro m' hm'
            rcases List.mem_cons.mp hm' with rfl | hm'
            · exact hm
            · exact fun hmem => hs m' hm' (List.mem_cons_of_mem _ hmem)

/-- The missions of a valid team have different ids. -/
theorem ValidTeam.nodup (team : ValidTeam) : (team.team.missions.map Mission.id).Nodup := by
  obtain ⟨t, hv⟩ := team
  show (t.missions.map Mission.id).Nodup
  have hm : Team.validateMissions [] t.missions = .ok () := by
    rw [Team.validate] at hv
    simp only [bind, Except.bind] at hv
    repeat' split at hv
    all_goals first
      | assumption
      | cases hv
  exact (validateMissions_ok hm).1

theorem eq_of_id {m m' : Mission} (h : m ∈ team.team.missions) (h' : m' ∈ team.team.missions)
    (hid : m.id = m'.id) : m = m' :=
  List.inj_on_of_nodup_map team.nodup h h' hid

theorem Known.of_id {m m' : Mission} (h : Known team m) (hm : m' ∈ team.team.missions)
    (hid : m.id = m'.id) : m.retries = m'.retries ∧ m.outputKey = m'.outputKey := by
  obtain ⟨m'', hm'', he⟩ := h
  have hid' : m''.id = m'.id := by
    rw [← hid, he]
  have heq := eq_of_id hm'' hm hid'
  subst heq
  rw [he]
  exact ⟨rfl, rfl⟩

/-- Planning keeps to the team's missions. -/
theorem known_of_runPlanningPhase {answer : Except String (Except String Plan)}
    {planned : ValidTeam} (h : runPlanningPhase team.team answer = .ok planned) :
    ∀ m ∈ planned.team.missions, Known team m := by
  rw [runPlanningPhase.eq_def] at h
  split at h
  · cases h
  · cases h
  · next plan =>
      split at h
      · cases h
      · have hteam : planned.team.missions =
            team.team.missions.map (plan.inject team.team.defaultProcess) := by
          rw [Team.check] at h
          split at h
          · injection h with h
            rw [← h]
          · cases h
        intro m hm
        rw [hteam] at hm
        obtain ⟨m', hm', rfl⟩ := List.mem_map.mp hm
        refine ⟨m', hm', ?_⟩
        rw [Plan.inject]
        split <;> rfl

theorem mem_scheduler {t : Team} {r : String × Mission}
    (h : r ∈ (MissionScheduler.new t).rows) : r.2 ∈ t.missions ∧ r.1 = r.2.id := by
  have hinv : ∀ ms : List Mission, (∀ m ∈ ms, m ∈ t.missions) → ∀ t' : MissionScheduler,
      (∀ r ∈ t'.rows, r.2 ∈ t.missions ∧ r.1 = r.2.id) →
        ∀ r ∈ (ms.foldl (fun t m => t.upsert m.id fun _ => m) t').rows,
          r.2 ∈ t.missions ∧ r.1 = r.2.id := by
    intro ms
    induction ms with
    | nil =>
        intro _ t' ht'
        exact ht'
    | cons m ms ih =>
        intro hms t' ht'
        refine ih (fun m' hm' => hms m' (List.mem_cons_of_mem _ hm')) _ ?_
        rintro ⟨k, m'⟩ hr
        rw [← Table.get?_eq_some, Table.get?_upsert] at hr
        split at hr
        · next hk =>
            injection hr with hr
            subst hr
            exact ⟨hms m List.mem_cons_self, hk⟩
        · exact ht' _ (Table.get?_eq_some.mp hr)
  exact hinv t.missions (fun _ hm => hm) .empty (by simp [Table.empty]) r h

theorem mem_ready {t : Team} {completed : Finset String} {m : Mission}
    (h : m ∈ (MissionScheduler.new t).ready completed) : m ∈ t.missions ∧ m.id ∉ completed := by
  rw [MissionScheduler.ready, List.mem_filter] at h
  obtain ⟨r, hr, rfl⟩ := List.mem_map.mp h.1
  refine ⟨(mem_scheduler hr).1, ?_⟩
  simp only [Bool.and_eq_true, decide_eq_true_eq] at h
  exact h.2.1.1

theorem nodup_ready (t : Team) (completed : Finset String) :
    (((MissionScheduler.new t).ready completed).map Mission.id).Nodup := by
  have hkeys : ((MissionScheduler.new t).rows.map Prod.snd).map Mission.id =
      (MissionScheduler.new t).rows.map Prod.fst := by
    rw [List.map_map]
    apply List.map_congr_left
    intro r hr
    exact (mem_scheduler hr).2.symm
  have hn := (MissionScheduler.new t).unique
  rw [← hkeys] at hn
  exact hn.sublist (List.filter_sublist.map _)

/-! ## The driver -/

namespace System

structure Driving (team : ValidTeam) (s : System) (d : Driver) : Prop where
  phase : s.phase = .driving d
  missions : ∀ m ∈ d.team.team.missions, Known team m
  todo : ∀ m ∈ d.todo, Known team m ∧ m.id ∉ d.running ∧ m.id ∉ d.completed
  order : (d.todo.map Mission.id).Nodup
  batch : ∀ b ∈ s.batch, b.mission.id ∈ d.running
  apart : (s.batch.map fun b => b.mission.id).Nodup
  open_ : ∀ id ∈ d.running, id ∉ d.completed
  waits : ∀ id ∈ d.running, d.team.team.defaultProcess = .sequential ∨
    ∃ b ∈ s.batch, b.mission.id = id

structure Driven (team : ValidTeam) (s : System) : Prop where
  known : ∀ b ∈ s.branches, Known team b.mission
  driver : (∃ d, Driving team s d) ∨ (s.batch = [] ∧ ∀ d, s.phase ≠ .driving d)

variable {s s' : System}

theorem driven_ret {t : System} {r : Returned} (h : ∀ b ∈ t.branches, Known team b.mission) :
    Driven team (t.ret r) :=
  { known := fun b hb => h b (mem_branches_ret hb)
    driver := .inr ⟨rfl, fun d hd => by cases hd⟩ }

theorem driven_retWith {t : System} {a : DriverAnswers} {e : SquadEvent} {r : Returned}
    (h : ∀ b ∈ t.branches, Known team b.mission) : Driven team (t.retWith a e r) := by
  rcases retWith_cases t a e r with ⟨err, -, he⟩ | ⟨-, he⟩
  · rw [he]
    exact driven_ret h
  · rw [he]
    exact driven_ret h

theorem Driven.driving (h : Driven team s) {d : Driver} (hd : s.phase = .driving d) :
    Driving team s d := by
  rcases h.driver with ⟨d', hd'⟩ | ⟨-, hn⟩
  · have he : d' = d := by
      have := hd'.phase.symm.trans hd
      injection this
    rw [← he]
    exact hd'
  · exact absurd hd (hn d)

/-- Outside a driver nothing is waited for. -/
theorem Driven.batch_nil (h : Driven team s) (hd : ∀ d, s.phase ≠ .driving d) : s.batch = [] := by
  rcases h.driver with ⟨d, hd'⟩ | ⟨hb, -⟩
  · exact absurd hd'.phase (hd d)
  · exact hb

theorem known_heard {d : Driver} {pre post : List Branch} {b : Branch} (h : Driven team s)
    (hb : s.Receives d pre b post) :
    ∀ c ∈ (pre ++ post) ++ s.orphans, Known team c.mission :=
  fun c hc => h.known c (mem_of_heard hb.batch hc)

/-- The driver after it has heard of one mission. -/
theorem Driving.heard {d : Driver} {pre post : List Branch} {b : Branch}
    (h : Driving team s d) (hb : s.Receives d pre b post) :
    (∀ c ∈ pre ++ post, c.mission.id ∈ (System.heard d b).running) ∧
      ((pre ++ post).map fun c => c.mission.id).Nodup ∧
      b.mission.id ∉ (pre ++ post).map fun c => c.mission.id := by
  have hap := h.apart
  rw [hb.batch, List.map_append, List.map_cons] at hap
  have hperm : (pre.map (fun c : Branch => c.mission.id) ++
      b.mission.id :: post.map fun c => c.mission.id).Perm
      (b.mission.id :: ((pre ++ post).map fun c => c.mission.id)) := by
    rw [List.map_append]
    exact List.perm_middle
  have hn := hperm.nodup_iff.mp hap
  rw [List.nodup_cons] at hn
  refine ⟨?_, hn.2, hn.1⟩
  intro c hc
  rw [System.heard, Finset.mem_erase]
  refine ⟨?_, ?_⟩
  · intro he
    exact hn.1 (List.mem_map.mpr ⟨c, hc, he⟩)
  · apply h.batch
    rw [hb.batch]
    simp only [List.mem_append, List.mem_cons] at hc ⊢
    tauto

/-- A driver that waits for one execution leaves none behind. -/
theorem Receives.left_nil {d : Driver} {pre post : List Branch} {b : Branch}
    (hb : s.Receives d pre b post) (hlen : s.batch.length ≤ 1) : pre ++ post = [] := by
  rw [hb.batch, List.length_append, List.length_cons] at hlen
  rw [← List.length_eq_zero_iff, List.length_append]
  omega

theorem Receives.todo_heard {d : Driver} {pre post : List Branch} {b : Branch}
    (hb : s.Receives d pre b post) : (System.heard d b).todo = [] := hb.todo

theorem driven_receiveOk {d : Driver} {pre post : List Branch} {b : Branch}
    (h : Driven team s) (hb : s.Receives d pre b post) :
    Driven team ({ s with batch := pre ++ post, phase := .driving (heard d b) }.receiveOk
      (heard d b) b) := by
  have hk := known_heard h hb
  obtain ⟨hbatch, hapart, hnot⟩ := (h.driving hb.phase).heard hb
  have hd := h.driving hb.phase
  rw [receiveOk]
  simp only []
  split
  · exact driven_ret hk
  · exact driven_ret hk
  · exact driven_ret hk
  · refine ⟨hk, .inl ⟨_, rfl, hd.missions, ?_, hd.order, hbatch, hapart, ?_, ?_⟩⟩
    · intro m hm
      rw [hb.todo_heard] at hm
      cases hm
    · intro id hid
      rw [heard, Finset.mem_erase] at hid
      rw [Finset.mem_insert, not_or]
      exact ⟨hid.1, hd.open_ id hid.2⟩
    · intro id hid
      rw [heard, Finset.mem_erase] at hid
      rcases hd.waits id hid.2 with hseq | ⟨c, hc, he⟩
      · exact .inl hseq
      · refine .inr ⟨c, ?_, he⟩
        rw [hb.batch] at hc
        simp only [List.mem_append, List.mem_cons] at hc ⊢
        rcases hc with hc | rfl | hc
        · exact .inl hc
        · exact absurd he.symm hid.1
        · exact .inr hc

theorem driven_receivePanic {d : Driver} {pre post : List Branch} {b : Branch}
    (h : Driven team s) (hb : s.Receives d pre b post) :
    Driven team ({ s with batch := pre ++ post }.receivePanic (heard d b) b) := by
  have hk := known_heard h hb
  obtain ⟨hbatch, hapart, -⟩ := (h.driving hb.phase).heard hb
  have hd := h.driving hb.phase
  rw [System.receivePanic]
  split
  · next hseq =>
      have hback : insert b.mission.id (heard d b).running = d.running :=
        Finset.insert_erase (hd.batch b (by rw [hb.batch]; simp))
      refine ⟨hk, .inl ⟨_, rfl, hd.missions, ?_, hd.order, ?_, hapart, ?_, ?_⟩⟩
      · intro m hm
        rw [hb.todo_heard] at hm
        cases hm
      · intro c hc
        exact Finset.mem_insert_of_mem (hbatch c hc)
      · intro id hid
        rw [hback] at hid
        exact hd.open_ id hid
      · intro id _
        exact .inl hseq
  · exact driven_ret hk

theorem driven_schedule {d d' : Driver} (h : Driven team s) (hd : s.AtHead d)
    (hs : Scheduled d d') : Driven team { s with phase := .driving d' } := by
  have hdr := h.driving hd.phase
  refine ⟨h.known, .inl ⟨d', ?_⟩⟩
  cases hs with
  | ready hseq =>
      refine ⟨rfl, hdr.missions, ?_, ?_, hdr.batch, hdr.apart, hdr.open_, hdr.waits⟩
      · intro m hm
        rw [List.mem_filter] at hm
        obtain ⟨hmem, hc⟩ := mem_ready hm.1
        exact ⟨hdr.missions m hmem, by simpa using hm.2, hc⟩
      · exact (nodup_ready d.team.team d.completed).sublist (List.filter_sublist.map _)
  | @managed m hp hm hc =>
      refine ⟨rfl, hdr.missions, ?_, List.nodup_singleton _, hdr.batch, hdr.apart, hdr.open_,
        hdr.waits⟩
      intro m' hm'
      rw [List.mem_singleton] at hm'
      subst hm'
      refine ⟨hdr.missions m' hm, ?_, hc⟩
      intro hrun
      rcases hdr.waits m'.id hrun with hseq | ⟨b, hb, -⟩
      · exact hp hseq
      · rw [hd.batch] at hb
        cases hb

theorem driven_spawn {d d' : Driver} {a : MissionAnswers} {m : Mission} {pre post : List Mission}
    (h : Driven team s) (hp : s.phase = .driving d) (hm : d.todo = pre ++ m :: post)
    (h' : d' = { d with todo := pre ++ post, running := insert m.id d.running }) :
    Driven team { s with
      phase := .driving d'
      batch := s.batch ++ [{ executeMission cfg a s.squad m with mission := m }] } := by
  have hdr := h.driving hp
  have hmem : m ∈ d.todo := by rw [hm]; simp
  obtain ⟨hknown, hrun, hcomp⟩ := hdr.todo m hmem
  have hord := hdr.order
  rw [hm, List.map_append, List.map_cons] at hord
  have hn := List.perm_middle.nodup_iff.mp hord
  rw [← List.map_append, List.nodup_cons] at hn
  subst h'
  refine ⟨?_, .inl ⟨_, rfl, hdr.missions, ?_, hn.2, ?_, ?_, ?_, ?_⟩⟩
  · intro b hb
    rw [branches] at hb
    simp only [List.mem_append, List.mem_singleton] at hb
    rcases hb with (hb | rfl) | hb
    · exact h.known b (List.mem_append_left _ hb)
    · exact hknown
    · exact h.known b (List.mem_append_right _ hb)
  · intro m' hm'
    obtain ⟨hk, hr, hc⟩ := hdr.todo m' (by rw [hm]; simp only [List.mem_append, List.mem_cons] at hm' ⊢; tauto)
    refine ⟨hk, ?_, hc⟩
    rw [Finset.mem_insert, not_or]
    refine ⟨?_, hr⟩
    intro he
    exact hn.1 (List.mem_map.mpr ⟨m', hm', he⟩)
  · intro b hb
    rw [Finset.mem_insert]
    simp only [List.mem_append, List.mem_singleton] at hb
    rcases hb with hb | rfl
    · exact .inr (hdr.batch b hb)
    · exact .inl rfl
  · rw [List.map_append, List.nodup_append]
    refine ⟨hdr.apart, List.nodup_singleton _, ?_⟩
    intro id hid id' hid'
    rw [List.map_singleton, List.mem_singleton] at hid'
    obtain ⟨b, hb, rfl⟩ := List.mem_map.mp hid
    rw [hid']
    intro he
    exact hrun (he ▸ hdr.batch b hb)
  · intro id hid
    rcases Finset.mem_insert.mp hid with rfl | hid
    · exact hcomp
    · exact hdr.open_ id hid
  · intro id hid
    rcases Finset.mem_insert.mp hid with rfl | hid
    · exact .inr ⟨_, List.mem_append_right _ (List.mem_singleton_self _), rfl⟩
    · rcases hdr.waits id hid with hseq | ⟨b, hb, he⟩
      · exact .inl hseq
      · exact .inr ⟨b, List.mem_append_left _ hb, he⟩

/-- An execution keeps its mission while it moves. -/
theorem forall_popped {bs pre post : List Branch} {b : Branch} {rest : List Act}
    {P : Mission → Prop} (hb : bs = pre ++ b :: post) (h : ∀ c ∈ bs, P c.mission) :
    ∀ c ∈ pre ++ { b with acts := rest } :: post, P c.mission := by
  intro c hc
  rw [hb] at h
  simp only [List.mem_append, List.mem_cons] at hc
  rcases hc with hc | rfl | hc
  · exact h c (by simp [hc])
  · exact h b (by simp)
  · exact h c (by simp [hc])

theorem driven_advance {pre post : List Branch} {b : Branch} {act : Act} {rest : List Act}
    (h : Driven team s) (hb : s.batch = pre ++ b :: post) :
    Driven team ({ s with batch := pre ++ { b with acts := rest } :: post }.record act) := by
  have hids : (pre ++ { b with acts := rest } :: post).map (fun c : Branch => c.mission.id) =
      s.batch.map fun c => c.mission.id := by
    rw [hb, List.map_append, List.map_append]
    rfl
  refine ⟨?_, ?_⟩
  · intro c hc
    rcases List.mem_append.mp hc with hc | hc
    · exact forall_popped hb (fun c hc => h.known c (List.mem_append_left _ hc)) c hc
    · exact h.known c (List.mem_append_right _ hc)
  · rcases h.driver with ⟨d, hd⟩ | ⟨hnil, -⟩
    · refine .inl ⟨d, hd.phase, hd.missions, hd.todo, hd.order, ?_, ?_, hd.open_, ?_⟩
      · exact forall_popped (P := fun m => m.id ∈ d.running) hb hd.batch
      · show ((pre ++ { b with acts := rest } :: post).map fun c => c.mission.id).Nodup
        rw [hids]
        exact hd.apart
      · intro id hid
        rcases hd.waits id hid with hseq | ⟨c, hc, he⟩
        · exact .inl hseq
        · have hmem' : id ∈ s.batch.map fun c => c.mission.id := List.mem_map.mpr ⟨c, hc, he⟩
          rw [← hids] at hmem'
          obtain ⟨c', hc', he'⟩ := List.mem_map.mp hmem'
          exact .inr ⟨c', hc', he'⟩
    · rw [hnil] at hb
      simp at hb

/-! ## Every step -/

theorem driven_of_steps {l : Label} (hst : Steps cfg team s l s') (h : Driven team s) :
    Driven team s' := by
  have hsame : ∀ {t : System}, (∀ b ∈ t.branches, Known team b.mission) → t.batch = s.batch →
      t.phase = s.phase → Driven team t := by
    intro t hk hb hp
    refine ⟨hk, ?_⟩
    rcases h.driver with ⟨d, hd⟩ | ⟨hnil, hn⟩
    · refine .inl ⟨d, by rw [hp]; exact hd.phase, hd.missions, hd.todo, hd.order, ?_, ?_, hd.open_, ?_⟩
      · rw [hb]
        exact hd.batch
      · rw [hb]
        exact hd.apart
      · rw [hb]
        exact hd.waits
    · exact .inr ⟨by rw [hb]; exact hnil, by rw [hp]; exact hn⟩
  cases hst with
  | stay hn => exact h
  | deliver hp => exact hsame h.known rfl rfl
  | @start stream a hp ha s'' h' =>
      subst h'
      refine ⟨h.known, .inr ⟨?_, fun d hd => by cases hd⟩⟩
      exact h.batch_nil (by rw [hp.1]; nofun)
  | startLost hp ha => exact driven_ret h.known
  | @drive stream answer a planned hp hplan =>
      have hnil : s.batch = [] := h.batch_nil (by rw [hp]; nofun)
      refine ⟨h.known, .inl ⟨_, rfl, ?_, by simp, List.nodup_nil, ?_, ?_, by simp, by simp⟩⟩
      · rcases hplan with rfl | hplan
        · exact fun m hm => known_of_mem hm
        · exact known_of_runPlanningPhase hplan
      · intro b hb
        rw [show (s.drive planned).batch = s.batch from rfl, hnil] at hb
        cases hb
      · rw [show (s.drive planned).batch = s.batch from rfl, hnil]
        exact List.nodup_nil
  | planFailed hp hplan he h' =>
      rcases h' with rfl | rfl
      · exact driven_ret h.known
      · exact driven_ret h.known
  | complete hd hc => exact driven_retWith h.known
  | stuck hd hp hs => exact driven_ret h.known
  | exceeded hd hc => exact driven_retWith h.known
  | managerPanic hd ha => exact driven_ret h.known
  | managerFailed hd ha he => exact driven_ret h.known
  | schedule hd hs => exact driven_schedule h hd hs
  | spawn hp hm hid h' => exact driven_spawn h hp hm h'
  | advance hn hb ha => exact driven_advance h hb
  | @advanceOrphan i pre post b act rest hn hb ha =>
      refine hsame ?_ rfl rfl
      intro c hc
      rcases List.mem_append.mp hc with hc | hc
      · exact h.known c (List.mem_append_left _ hc)
      · exact forall_popped hb (fun c hc => h.known c (List.mem_append_right _ hc)) c hc
  | receivePanic hb hid hr => exact driven_receivePanic h hb
  | receiveOk hb hid hr => exact driven_receiveOk h hb
  | receiveError hb hid hr => exact driven_retWith fun c hc => known_heard h hb c hc

theorem driven_deployed (squadId : String) (inputs : Json) :
    Driven team (deployed team squadId inputs) :=
  { known := fun b hb => by cases hb
    driver := .inr ⟨rfl, fun d hd => by cases hd⟩ }

theorem driven_step (l : Label) (h : Driven team s) : Driven team (step cfg team s l) :=
  driven_of_steps (step_cases cfg team s l) h

/-! ## The squad while a run is on -/

/-- A run keeps the squad running until it returns. -/
def Busy (s : System) : Prop := s.phase ≠ .idle → s.squad.status = .running

theorem busy_retWith (t : System) (a : DriverAnswers) (e : SquadEvent) (r : Returned) :
    Busy (t.retWith a e r) := by
  rcases retWith_cases t a e r with ⟨err, -, he⟩ | ⟨-, he⟩
  · rw [he]
    exact fun hn => absurd rfl hn
  · rw [he]
    exact fun hn => absurd rfl hn

theorem busy_of_steps {l : Label} (hst : Steps cfg team s l s') (h : Busy s) : Busy s' := by
  have hdriving : ∀ {d : Driver}, s.phase = .driving d → s.squad.status = .running := by
    intro d hd
    exact h (ne_idle_of_driving hd)
  have hret : ∀ {t : System} {r : Returned}, Busy (t.ret r) := fun hn => absurd rfl hn
  cases hst with
  | stay hn => exact h
  | deliver hp => exact fun hn => absurd hp hn
  | start hp ha h' =>
      subst h'
      exact fun _ => rfl
  | startLost hp ha => exact hret
  | drive hp hplan => exact fun _ => h (ne_idle_of_planning hp)
  | planFailed hp hplan he h' => exact hret
  | complete hd hc => exact busy_retWith _ _ _ _
  | stuck hd hp hs => exact hret
  | exceeded hd hc => exact busy_retWith _ _ _ _
  | managerPanic hd ha => exact hret
  | managerFailed hd ha he => exact hret
  | schedule hd hs => exact fun _ => hdriving hd.phase
  | spawn hp hm hid h' => exact fun _ => hdriving hp
  | advance hn hb ha => exact h
  | advanceOrphan hn hb ha => exact h
  | receivePanic hb hid hr =>
      rw [System.receivePanic]
      split
      · exact fun _ => hdriving hb.phase
      · exact hret
  | receiveOk hb hid hr =>
      rw [receiveOk]
      simp only []
      split
      · exact hret
      · exact hret
      · exact hret
      · exact fun _ => hdriving hb.phase
  | receiveError hb hid hr => exact busy_retWith _ _ _ _

/-- What every step keeps. -/
theorem driven_busy_after (cfg : EngineConfig) (team : ValidTeam) (squadId : String) (inputs : Json)
    (labels : List Label) :
    Driven team (after cfg team squadId inputs labels) ∧
      Busy (after cfg team squadId inputs labels) := by
  have hstep : ∀ s l, Driven team s ∧ Busy s →
      Driven team (step cfg team s l) ∧ Busy (step cfg team s l) := by
    rintro s l ⟨hd, hb⟩
    exact ⟨driven_step l hd, busy_of_steps (step_cases cfg team s l) hb⟩
  exact foldl_invariant hstep ⟨driven_deployed squadId inputs, fun hn => absurd rfl hn⟩ labels

end System

end Pandaria.Comp
