import Pandaria.Lib.Precedence
import Pandaria.Proofs.Driving

/-!
# Which teams can be run

The check of a team looks at what its missions depend on, and not at their roles
and alternatives, nor at cycles: the comment that leaves these to the deployment
is the only place that speaks of them, and after planning the same check runs
again. So a team that passes it can be run exactly when the rest is right as
well. Then a driver never gives up, whatever has been completed before: of the
missions left, one does not wait for the others.
-/

namespace Pandaria.Comp

open Pandaria.Ai Pandaria.Lib

/-! ## The conditions -/

/-- What the mission needs is done. -/
def Mission.ReadyAfter (m : Mission) (done : Finset String) : Prop :=
  (∀ dep ∈ m.dependsOn, dep ∈ done) ∧ (m.orDependsOn ≠ [] → ∃ dep ∈ m.orDependsOn, dep ∈ done)

theorem Mission.ReadyAfter.mono {m : Mission} {done more : Finset String} (h : m.ReadyAfter done)
    (hmore : done ⊆ more) : m.ReadyAfter more := Met.mono h hmore

/-- One of its dependencies is among these, or all its alternatives are. -/
def Mission.WaitsFor (m : Mission) (waiting : Finset String) : Prop :=
  (∃ dep ∈ m.dependsOn, dep ∈ waiting) ∨
    (m.orDependsOn ≠ [] ∧ ∀ dep ∈ m.orDependsOn, dep ∈ waiting)

instance (m : Mission) (waiting : Finset String) : Decidable (m.WaitsFor waiting) :=
  inferInstanceAs (Decidable (_ ∨ _))

/-- No run that drives the team ends with this error. -/
def NeverCyclic (team : ValidTeam) : Prop :=
  ∀ (cfg : EngineConfig) (deployed : ValidTeam) (squadId : String) (inputs : Json)
    (labels : List Label) (label : Label) (d : Driver),
    (System.after cfg deployed squadId inputs labels).phase = .driving d → d.team = team →
      (System.step cfg deployed (System.after cfg deployed squadId inputs labels) label).returned ≠
        some (.error .cyclicDependency)

structure Runnable (team : ValidTeam) : Prop where
  roles : ∀ m ∈ team.team.missions, m.role ∈ team.team.roles.map Role.id
  dependsOn : ∀ m ∈ team.team.missions, ∀ dep ∈ m.dependsOn, dep ∈ team.team.missions.map Mission.id
  orDependsOn : ∀ m ∈ team.team.missions, ∀ dep ∈ m.orDependsOn,
    dep ∈ team.team.missions.map Mission.id
  order : ∃ order : List Mission, order.Perm team.team.missions ∧
    Doable Mission.id (fun done m => m.ReadyAfter done) ∅ order
  never : NeverCyclic team

/-- What the check leaves out: roles, alternatives and cycles. -/
structure Unchecked (roles : List Role) (missions : List Mission) : Prop where
  roles : ∀ m ∈ missions, m.role ∈ roles.map Role.id
  alternatives : ∀ m ∈ missions, ∀ dep ∈ m.orDependsOn, dep ∈ missions.map Mission.id
  noCycle : ∀ waiting : Finset String, (∃ m ∈ missions, m.id ∈ waiting) →
    ∃ m ∈ missions, m.id ∈ waiting ∧ ¬ m.WaitsFor waiting

variable {cfg : EngineConfig} {team : ValidTeam}

/-! ## What the check says -/

theorem ValidTeam.dependsOn (team : ValidTeam) {m : Mission} (hm : m ∈ team.team.missions)
    {dep : String} (hdep : dep ∈ m.dependsOn) : dep ∈ team.team.missions.map Mission.id := by
  obtain ⟨t, hv⟩ := team
  have hd : Team.validateDependencies t.missions = .ok () := by
    rw [Team.validate] at hv
    simp only [bind, Except.bind] at hv
    repeat' split at hv
    all_goals first
      | assumption
      | cases hv
  rw [Team.validateDependencies] at hd
  split at hd
  · cases hd
  · next hnone =>
      have h := List.find?_eq_none.mp hnone dep (List.mem_flatMap.mpr ⟨m, hm, hdep⟩)
      simpa using h

/-- What waits for none of these is ready once the others are done. -/
theorem readyAfter_sdiff_iff (hor : ∀ m ∈ team.team.missions, ∀ dep ∈ m.orDependsOn,
    dep ∈ team.team.missions.map Mission.id) {m : Mission} (hm : m ∈ team.team.missions)
    (waiting : Finset String) :
    m.ReadyAfter ((team.team.missions.map Mission.id).toFinset \ waiting) ↔
      ¬ m.WaitsFor waiting :=
  met_sdiff_iff (fun _ hdep => List.mem_toFinset.mpr (team.dependsOn hm hdep))
    (fun dep hdep => List.mem_toFinset.mpr (hor m hm dep hdep)) waiting

theorem order_iff (hor : ∀ m ∈ team.team.missions, ∀ dep ∈ m.orDependsOn,
    dep ∈ team.team.missions.map Mission.id) :
    (∃ order : List Mission, order.Perm team.team.missions ∧
      Doable Mission.id (fun done m => m.ReadyAfter done) ∅ order) ↔
      ∀ waiting : Finset String, (∃ m ∈ team.team.missions, m.id ∈ waiting) →
        ∃ m ∈ team.team.missions, m.id ∈ waiting ∧ ¬ m.WaitsFor waiting :=
  exists_order_iff_blocked team.nodup (fun _ hm _ hdep => team.dependsOn hm hdep) hor

/-! ## The scheduler -/

theorem get?_foldl_upsert {ms : List Mission} (hnodup : (ms.map Mission.id).Nodup) {m : Mission}
    {t : MissionScheduler} (h : m ∈ ms ∨ t.get? m.id = some m ∧ m.id ∉ ms.map Mission.id) :
    (ms.foldl (fun t m => t.upsert m.id fun _ => m) t).get? m.id = some m := by
  induction ms generalizing t with
  | nil =>
      rcases h with h | ⟨h, -⟩
      · cases h
      · exact h
  | cons b ms ih =>
      obtain ⟨hnot, hrest⟩ := List.nodup_cons.mp hnodup
      refine ih hrest ?_
      rw [Table.get?_upsert]
      rcases h with h | ⟨h, hm⟩
      · rcases List.mem_cons.mp h with rfl | h
        · exact .inr ⟨if_pos rfl, hnot⟩
        · exact .inl h
      · rw [List.map_cons, List.mem_cons, not_or] at hm
        exact .inr ⟨(if_neg hm.1).trans h, hm.2⟩

/-- Every mission of a valid team is in the scheduler. -/
theorem mem_scheduler_of_mem {m : Mission} (hm : m ∈ team.team.missions) :
    (m.id, m) ∈ (MissionScheduler.new team.team).rows :=
  Table.get?_eq_some.mp (get?_foldl_upsert team.nodup (.inl hm))

/-- The ready missions are those whose needs are completed and which are not. -/
theorem mem_ready_iff {completed : Finset String} {m : Mission} :
    m ∈ (MissionScheduler.new team.team).ready completed ↔
      m ∈ team.team.missions ∧ m.id ∉ completed ∧ m.ReadyAfter completed := by
  have hfilter : (decide (m.id ∉ completed) && m.dependsOn.all (fun dep => dep ∈ completed) &&
      (m.orDependsOn.isEmpty || m.orDependsOn.any fun dep => dep ∈ completed)) = true ↔
        m.id ∉ completed ∧ m.ReadyAfter completed := by
    rw [Bool.and_eq_true, Bool.and_eq_true, Bool.or_eq_true, decide_eq_true_eq, List.all_eq_true,
      List.any_eq_true, List.isEmpty_iff, Mission.ReadyAfter, and_assoc, or_iff_not_imp_left]
    simp only [decide_eq_true_eq, ne_eq]
  rw [MissionScheduler.ready, List.mem_filter, hfilter]
  refine and_congr_left fun _ => ⟨fun h => ?_, fun h => ?_⟩
  · obtain ⟨r, hr, rfl⟩ := List.mem_map.mp h
    exact (mem_scheduler hr).1
  · exact List.mem_map_of_mem (mem_scheduler_of_mem h)

theorem allCompleted_iff {completed : Finset String} :
    (MissionScheduler.new team.team).allCompleted completed = true ↔
      ∀ m ∈ team.team.missions, m.id ∈ completed := by
  rw [MissionScheduler.allCompleted, List.all_eq_true]
  constructor
  · intro h m hm
    exact of_decide_eq_true (h _ (mem_scheduler_of_mem hm))
  · intro h r hr
    obtain ⟨hm, hid⟩ := mem_scheduler hr
    rw [hid]
    exact decide_eq_true (h _ hm)

/-- While not all is completed, something is ready. -/
theorem ready_ne_nil (h : Unchecked team.team.roles team.team.missions) {completed : Finset String}
    (hnot : (MissionScheduler.new team.team).allCompleted completed = false) :
    (MissionScheduler.new team.team).ready completed ≠ [] := by
  have hleft : ∃ m ∈ team.team.missions, m.id ∉ completed := by
    by_contra hall
    have hdone := allCompleted_iff.mpr fun m hm => by_contra fun hout => hall ⟨m, hm, hout⟩
    rw [hnot] at hdone
    cases hdone
  obtain ⟨m, hm, hin⟩ := hleft
  have hmem {id : String} : id ∈ (team.team.missions.map Mission.id).toFinset \ completed ↔
      id ∈ team.team.missions.map Mission.id ∧ id ∉ completed := by
    rw [Finset.mem_sdiff, List.mem_toFinset]
  obtain ⟨m', hm', hin', hfree⟩ := h.noCycle
    ((team.team.missions.map Mission.id).toFinset \ completed)
    ⟨m, hm, hmem.mpr ⟨List.mem_map_of_mem hm, hin⟩⟩
  rw [← readyAfter_sdiff_iff h.alternatives hm'] at hfree
  have hready : m' ∈ (MissionScheduler.new team.team).ready completed := by
    refine mem_ready_iff.mpr ⟨hm', (hmem.mp hin').2, hfree.mono fun id hid => ?_⟩
    rw [Finset.mem_sdiff, hmem, List.mem_toFinset] at hid
    by_contra hout
    exact hid.2 ⟨hid.1, hout⟩
  exact List.ne_nil_of_mem hready

/-! ## How a run ends -/

namespace Execution

def NotCyclic (x : Execution) : Prop := x.result ≠ some (.error .cyclicDependency)

variable {x : Execution} {a : MissionAnswers} {m : Mission}

theorem notCyclic_emit {e : SquadEvent} {k : Execution → Execution}
    (h : (k (x.act (.emit e))).NotCyclic) : (x.emit a e k).NotCyclic := by
  rw [emit]
  split
  · exact fun hr => by cases hr
  · exact h

theorem notCyclic_completeMission {content : Json} (h : x.NotCyclic) :
    (completeMission cfg a m content x).NotCyclic := by
  rw [completeMission]
  split
  · next e he =>
      rw [outputValue] at he
      split at he
      · split at he
        · injection he with he
          subst he
          exact fun hr => by cases hr
        · cases he
      all_goals
        split at he
        · cases he
        · cases he
  · refine notCyclic_emit ?_
    split
    · exact h
    · exact h

theorem notCyclic_retryOrFail {maxAttempts attempt : Nat} {reason : String} (h : x.NotCyclic) :
    (retryOrFail a m maxAttempts attempt reason x).NotCyclic := by
  rw [retryOrFail]
  split
  · split
    · exact fun hr => by cases hr
    · exact notCyclic_emit h
  · exact notCyclic_emit fun hr => by cases hr

theorem notCyclic_attemptMission {maxAttempts attempt : Nat} (h : x.NotCyclic) :
    (attemptMission cfg a m maxAttempts attempt x).NotCyclic := by
  rw [attemptMission]
  refine notCyclic_emit ?_
  split
  · exact fun hr => by cases hr
  · split
    · exact fun hr => by cases hr
    · refine notCyclic_emit ?_
      split
      · exact fun hr => by cases hr
      · exact notCyclic_completeMission h
      · exact notCyclic_retryOrFail h

theorem notCyclic_executeMission (cfg : EngineConfig) (a : MissionAnswers) (sq : Squad)
    (m : Mission) : (executeMission cfg a sq m).NotCyclic := by
  have hstart : (start sq).NotCyclic := fun hr => by cases hr
  rw [executeMission]
  dsimp only
  split
  · exact fun hr => by cases hr
  · split
    · exact notCyclic_attemptMission hstart
    · split
      · exact notCyclic_attemptMission hstart
      · exact notCyclic_emit hstart

end Execution

namespace System

variable {s s' : System}

theorem decideNext_error {d : Driver} {answer : Except String Json} {e : CompError}
    (h : decideNext cfg d answer = .error e) : e ≠ .cyclicDependency := by
  rintro rfl
  rw [decideNext.eq_def] at h
  split at h
  · cases h
  · split at h
    · next content e he =>
        injection h with h
        subst h
        rw [managerHandoff] at he
        split at he
        · cases he
        · cases he
        · split at he
          · cases he
          · cases he
    · split at h
      · cases h
      · next handoff _ _ =>
          rw [chooseMission] at h
          dsimp only at h
          split at h
          · split at h
            · cases h
            · cases h
          · split at h
            · cases h
            · cases h
          · cases h

/-! ### What a run has returned -/

/-- Nothing, while it is on. -/
def Quiet (s : System) : Prop := s.phase ≠ .idle → s.returned = none

theorem quiet_ret {t : System} {r : Returned} : (t.ret r).Quiet := fun hn => absurd rfl hn

theorem quiet_retWith (t : System) (a : DriverAnswers) (e : SquadEvent) (r : Returned) :
    (t.retWith a e r).Quiet := by
  rcases retWith_cases t a e r with ⟨err, -, he⟩ | ⟨-, he⟩
  · rw [he]
    exact quiet_ret
  · rw [he]
    exact quiet_ret

theorem quiet_of_steps {l : Label} (hst : Steps cfg team s l s') (h : s.Quiet) : s'.Quiet := by
  have hdriving : ∀ {d : Driver}, s.phase = .driving d → s.returned = none :=
    fun hd => h (ne_idle_of_driving hd)
  cases hst with
  | stay hn => exact h
  | deliver hp => exact fun hn => absurd hp hn
  | start hp ha h' => exact fun _ => rfl
  | startLost hp ha => exact quiet_ret
  | drive hp hplan => exact fun _ => h (ne_idle_of_planning hp)
  | planFailed hp hplan he h' => exact quiet_ret
  | complete hd hc => exact quiet_retWith _ _ _ _
  | stuck hd hp hs => exact quiet_ret
  | exceeded hd hc => exact quiet_retWith _ _ _ _
  | managerPanic hd ha => exact quiet_ret
  | managerFailed hd ha he => exact quiet_ret
  | schedule hd hs => exact fun _ => hdriving hd.phase
  | spawn hp hm hid h' => exact fun _ => hdriving hp
  | advance hn hb ha => exact h
  | advanceOrphan hn hb ha => exact h
  | receivePanic hb hid hr =>
      rw [System.receivePanic]
      split
      · exact fun _ => hdriving hb.phase
      · exact quiet_ret
  | receiveOk hb hid hr =>
      rw [receiveOk]
      simp only []
      split
      · exact quiet_ret
      · exact quiet_ret
      · exact quiet_ret
      · exact fun _ => hdriving hb.phase
  | receiveError hb hid hr => exact quiet_retWith _ _ _ _

/-- No mission fails with the error of a cycle. -/
def Sane (s : System) : Prop := ∀ b ∈ s.branches, b.NotCyclic

theorem sane_of_moves {l : Label} (hm : Moves cfg s s' l) (h : s.Sane) : s'.Sane := by
  cases hm with
  | driver events hn hev htrace hbs hsig => exact fun b hb => h b (hbs b hb)
  | deliver signal hn htrace hbs hsig => exact fun b hb => h b (hbs b hb)
  | spawn a m hp hn htrace hbs hsig =>
      intro b hb
      rcases hbs b hb with hb | rfl
      · exact h b hb
      · exact Execution.notCyclic_executeMission cfg a s.squad m
  | act b act rest hn hb ha htrace hbs hsig =>
      intro c hc
      rcases hbs c hc with hc | rfl
      · exact h c hc
      · exact h b hb

theorem quiet_sane_after (cfg : EngineConfig) (team : ValidTeam) (squadId : String) (inputs : Json)
    (labels : List Label) :
    Quiet (after cfg team squadId inputs labels) ∧ Sane (after cfg team squadId inputs labels) := by
  have hstep : ∀ s l, Quiet s ∧ Sane s → Quiet (step cfg team s l) ∧ Sane (step cfg team s l) := by
    rintro s l ⟨hq, hs⟩
    exact ⟨quiet_of_steps (step_cases cfg team s l) hq, sane_of_moves (moves cfg team s l) hs⟩
  exact foldl_invariant hstep ⟨fun hn => absurd rfl hn, fun b hb => by cases hb⟩ labels

theorem returned_retWith {t : System} {a : DriverAnswers} {e : SquadEvent} {r : Returned}
    (hr : r ≠ .error .cyclicDependency) :
    (t.retWith a e r).returned ≠ some (.error .cyclicDependency) := by
  rcases retWith_cases t a e r with ⟨err, -, he⟩ | ⟨-, he⟩
  · rw [he]
    exact fun h => by cases h
  · rw [he]
    exact fun h => hr (Option.some.inj h)

/-- A driver of a team with nothing amiss never gives up. -/
theorem notCyclic_of_steps {l : Label} (hst : Steps cfg team s l s') (hquiet : s.Quiet)
    (hsane : s.Sane) {d : Driver} (hd : s.phase = .driving d)
    (h : Unchecked d.team.team.roles d.team.team.missions) :
    s'.returned ≠ some (.error .cyclicDependency) := by
  have hnone : s.returned ≠ some (.error .cyclicDependency) := by
    rw [hquiet (ne_idle_of_driving hd)]
    exact fun hr => by cases hr
  cases hst with
  | stay hn => exact hnone
  | deliver hp => exact hnone
  | start hp ha h' => exact fun hr => by cases hr
  | startLost hp ha => exact fun hr => by cases hr
  | drive hp hplan => exact hnone
  | planFailed hp hplan he h' =>
      rw [hd] at hp
      cases hp
  | complete hd hc => exact returned_retWith fun hr => by cases hr
  | stuck hd' hp hs =>
      have hsame := hd.symm.trans hd'.phase
      injection hsame with hsame
      subst hsame
      obtain ⟨hnot, hready, hrun⟩ := hs
      rw [hrun, List.filter_eq_self.mpr (fun m _ => by simp)] at hready
      exact absurd hready (ready_ne_nil h hnot)
  | exceeded hd hc => exact returned_retWith fun hr => by cases hr
  | managerPanic hd ha => exact fun hr => by cases hr
  | managerFailed hd ha he =>
      exact fun hr => decideNext_error he (by injection hr with hr; injection hr)
  | schedule hd hs => exact hnone
  | spawn hp hm hid h' => exact hnone
  | advance hn hb ha => exact hnone
  | advanceOrphan hn hb ha => exact hnone
  | receivePanic hb hid hr =>
      rw [System.receivePanic]
      split
      · exact hnone
      · exact fun hr => by cases hr
  | receiveOk hb hid hr =>
      rw [receiveOk]
      simp only []
      split
      · exact fun hr => by cases hr
      · exact fun hr => by cases hr
      · exact fun hr => by cases hr
      · exact hnone
  | @receiveError _ _ _ _ _ b e hb hid hr =>
      refine returned_retWith fun he => ?_
      injection he with he
      rw [he] at hr
      exact hsane b (by rw [branches, hb.batch]; simp) hr

end System

/-! ## The teams that can be run -/

theorem Unchecked.neverCyclic (h : Unchecked team.team.roles team.team.missions) :
    NeverCyclic team := by
  intro cfg deployed squadId inputs labels label d hd hteam
  obtain ⟨hquiet, hsane⟩ := System.quiet_sane_after cfg deployed squadId inputs labels
  subst hteam
  exact System.notCyclic_of_steps (System.step_cases cfg deployed _ label) hquiet hsane hd h

theorem runnable_iff_unchecked (team : ValidTeam) :
    Runnable team ↔ Unchecked team.team.roles team.team.missions := by
  constructor
  · intro h
    exact ⟨h.roles, h.orDependsOn, (order_iff h.orDependsOn).mp h.order⟩
  · intro h
    exact ⟨h.roles, fun m hm dep hdep => team.dependsOn hm hdep, h.alternatives,
      (order_iff h.alternatives).mpr h.noCycle, h.neverCyclic⟩

theorem id_inject (plan : Plan) (process : Process) (m : Mission) :
    (plan.inject process m).id = m.id := by
  rw [Plan.inject]
  split <;> rfl

/-- The team of a plan is the team with what the plan adds to its missions. -/
theorem team_of_runPlanningPhase {plan : Plan} {planned : ValidTeam}
    (h : runPlanningPhase team.team (.ok (.ok plan)) = .ok planned) :
    planned.team = { team.team with
      missions := team.team.missions.map (plan.inject team.team.defaultProcess) } := by
  rw [runPlanningPhase] at h
  split at h
  · cases h
  · rw [Team.check] at h
    split at h
    · injection h with h
      rw [← h]
    · cases h

/-- An accepted team, and what a plan makes of one, can be run exactly when the
roles and the alternatives exist and no missions wait for each other. -/
theorem runnable_iff (team : ValidTeam) (plan : Plan) :
    (Runnable team ↔ Unchecked team.team.roles team.team.missions) ∧
      ∀ planned, runPlanningPhase team.team (.ok (.ok plan)) = .ok planned →
        (Runnable planned ↔ Unchecked team.team.roles
          (team.team.missions.map (plan.inject team.team.defaultProcess))) := by
  refine ⟨runnable_iff_unchecked team, fun planned h => ?_⟩
  rw [runnable_iff_unchecked, team_of_runPlanningPhase h]

/-- The second mission comes after the first, its only alternative. -/
def inTurn : ValidTeam :=
  { team := System.plainTeam [System.plainMission "m1",
      { System.plainMission "m2" with orDependsOn := ["m1"] }]
    valid := rfl }

/-- The planner wants the first mission to wait for the second as well. -/
def swapping : Plan :=
  { steps := [{ taskId := "m1", reasoning := "", expectedOutput := "", dependencies := ["m2"] }]
    overallStrategy := "" }

/-- What it makes of the team, which passes the check again. -/
def swapped : ValidTeam :=
  { team := { inTurn.team with
      missions := inTurn.team.missions.map (swapping.inject inTurn.team.defaultProcess) }
    valid := rfl }

theorem unchecked_inTurn : Unchecked inTurn.team.roles inTurn.team.missions := by
  refine ⟨by decide, by decide, ?_⟩
  rintro waiting ⟨m, hm, hin⟩
  by_cases hfirst : "m1" ∈ waiting
  · refine ⟨System.plainMission "m1", List.mem_cons_self, hfirst, ?_⟩
    rintro (⟨dep, hdep, -⟩ | ⟨hne, -⟩)
    · cases hdep
    · exact hne rfl
  · refine ⟨m, hm, hin, ?_⟩
    have hbare : ∀ m ∈ inTurn.team.missions, m.dependsOn = [] ∧
        (m.orDependsOn = [] ∨ "m1" ∈ m.orDependsOn) := by decide
    obtain ⟨hnone, hor⟩ := hbare m hm
    rintro (⟨dep, hdep, -⟩ | ⟨hne, hall⟩)
    · rw [hnone] at hdep
      cases hdep
    · exact hor.elim hne fun hin => hfirst (hall _ hin)

theorem runnable_inTurn : Runnable inTurn :=
  (runnable_iff inTurn swapping).1.mpr unchecked_inTurn

/-- The squad of what the plan has made of the team ends with the error. -/
theorem not_runnable_swapped :
    runPlanningPhase inTurn.team (.ok (.ok swapping)) = .ok swapped ∧
      (System.after System.plainEngine swapped "s" (.obj []) System.starting).returned =
        some (.error .cyclicDependency) ∧ ¬ Runnable swapped := by
  refine ⟨rfl, by decide, fun h => ?_⟩
  obtain ⟨m, hm, -, hfree⟩ := ((runnable_iff_unchecked swapped).mp h).noCycle {"m1", "m2"}
    ⟨swapping.inject .sequential (System.plainMission "m1"), by decide, by decide⟩
  have hwait : ∀ m ∈ swapped.team.missions, m.WaitsFor {"m1", "m2"} := by decide
  exact hfree (hwait m hm)

end Pandaria.Comp
