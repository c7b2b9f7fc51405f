import Pandaria.Proofs.Execution

/-!
# What one step of a squad's life can do

`Steps` lists the ways a label can change a squad, guards included. A step
that is not possible in the state it meets changes nothing, and is `stay`.
Where an execution moves, the list of branches is given as what stands before
it and what stands after, since the others do not change.
-/

namespace Pandaria.Comp

open Pandaria.Ai

variable {cfg : EngineConfig} {team : ValidTeam}

/-! ## Branches -/

theorem popAct_cases {bs bs' : List Branch} {index : Nat} {act : Act}
    (h : System.popAct bs index = some (act, bs')) :
    ∃ pre b post rest, bs = pre ++ b :: post ∧ b.acts = act :: rest ∧
      bs' = pre ++ { b with acts := rest } :: post := by
  rw [System.popAct] at h
  split at h
  · next b hb =>
      obtain ⟨hlt, hget⟩ := List.getElem?_eq_some_iff.mp hb
      split at h
      · next a rest ha =>
          injection h with h
          injection h with h₁ h₂
          subst h₁
          refine ⟨bs.take index, b, bs.drop (index + 1), rest, ?_, ha, ?_⟩
          · rw [← hget, List.cons_getElem_drop_succ, List.take_append_drop]
          · rw [← h₂, List.set_eq_take_append_cons_drop, if_pos hlt]
      · cases h
  · cases h

/-- The branch a driver takes its result from, out of the batch. -/
theorem find_eraseP {bs : List Branch} {p : Branch → Bool} {b : Branch}
    (h : bs.find? p = some b) :
    p b = true ∧ ∃ pre post, bs = pre ++ b :: post ∧ bs.eraseP p = pre ++ post := by
  obtain ⟨hp, pre, post, hbs, hpre⟩ := List.find?_eq_some_iff_append.mp h
  refine ⟨hp, pre, post, hbs, ?_⟩
  have hno : ∀ c ∈ pre, ¬ p c = true := by
    intro c hc
    simpa using hpre c hc
  rw [hbs, List.eraseP_append_right _ hno, List.eraseP_cons_of_pos hp]

/-- The events `execute_mission` appends; the others are the driver's. -/
def SquadEvent.ofMission : SquadEvent → Bool
  | .missionScheduled .. | .missionStarted .. | .missionCompleted .. | .missionFailed ..
  | .missionWaitingForSignal .. | .missionRetryScheduled .. => true
  | _ => false

namespace System

/-! ## Steps -/

/-- `run` may start: `run_stream` asks more than `run` does. -/
def Startable (s : System) (stream : Bool) : Prop :=
  s.phase = .idle ∧ (stream = true → s.squad.status = .pending ∨ s.squad.status.paused = true)

theorem ne_idle_of_planning {s : System} {stream : Bool} (hp : s.phase = .planning stream) :
    s.phase ≠ .idle := by
  intro hidle
  rw [hp] at hidle
  cases hidle

theorem ne_idle_of_driving {s : System} {d : Driver} (hp : s.phase = .driving d) :
    s.phase ≠ .idle := by
  intro hidle
  rw [hp] at hidle
  cases hidle

/-- A driver at its loop head. -/
structure AtHead (s : System) (d : Driver) : Prop where
  phase : s.phase = .driving d
  todo : d.todo = []
  batch : s.batch = []

/-- A driver about to take the result of `b`. -/
structure Receives (s : System) (d : Driver) (pre : List Branch) (b : Branch)
    (post : List Branch) : Prop where
  phase : s.phase = .driving d
  todo : d.todo = []
  batch : s.batch = pre ++ b :: post
  ended : b.acts = []

/-- The driver without the mission it has heard of. -/
def heard (d : Driver) (b : Branch) : Driver := { d with running := d.running.erase b.mission.id }

/-- What makes `run_dag` give up. -/
def Stuck (d : Driver) : Prop :=
  (MissionScheduler.new d.team.team).allCompleted d.completed = false ∧
    ((MissionScheduler.new d.team.team).ready d.completed).filter (fun m => m.id ∉ d.running) = [] ∧
    d.running = ∅

/-- A manager is asked for what comes next. -/
structure Asks (d : Driver) : Prop where
  process : d.team.team.defaultProcess ≠ .sequential
  more : (MissionScheduler.new d.team.team).allCompleted d.completed = false
  within : d.managerLoops + 1 ≤ maxManagerLoops

/-- A loop head out of the loop, with a last event. -/
inductive Concludes (cfg : EngineConfig) (d : Driver) (manager : Option (Except String Json)) :
    Prop where
  | all (h : (MissionScheduler.new d.team.team).allCompleted d.completed = true)
  | exceeded (h : d.team.team.defaultProcess ≠ .sequential)
      (hx : maxManagerLoops < d.managerLoops + 1)
  | terminated {answer : Except String Json} (h : Asks d) (hm : manager = some answer)
      (ha : decideNext cfg d answer = .ok none)

/-- What a loop head schedules. -/
inductive Scheduled (d : Driver) : Driver → Prop where
  | ready (hp : d.team.team.defaultProcess = .sequential) :
      Scheduled d { d with todo :=
        ((MissionScheduler.new d.team.team).ready d.completed).filter fun m => m.id ∉ d.running }
  | managed {m : Mission} (hp : d.team.team.defaultProcess ≠ .sequential)
      (hm : m ∈ d.team.team.missions) (hc : m.id ∉ d.completed) :
      Scheduled d { d with todo := [m], managerLoops := d.managerLoops + 1 }

/-- All executions on their way. -/
def branches (s : System) : List Branch := s.batch ++ s.orphans

/-- The act a label makes an execution do. -/
def nextAct (s : System) : Label → Option Act
  | .advance missionId => (popAct s.batch (indexOf s.batch missionId)).map Prod.fst
  | .advanceOrphan index => (popAct s.orphans index).map Prod.fst
  | _ => none

inductive Steps (cfg : EngineConfig) (team : ValidTeam) (s : System) : Label → System → Prop where
  | stay {l : Label} (hn : s.nextAct l = none) : Steps cfg team s l s
  | deliver {signal : String} (hp : s.phase = .idle) :
      Steps cfg team s (.sendSignal signal)
        ({ s with squad := s.squad.sendSignal signal }.record (.delivered signal))
  | start {stream : Bool} {a : DriverAnswers} (hp : s.Startable stream)
      (ha : a.store .squadStarted = none) {s' : System}
      (h' : s' = (s.setStatus .running).record (.emit .squadStarted)) :
      Steps cfg team s (.run stream a) { s' with phase := .planning stream, returned := none }
  | startLost {stream : Bool} {a : DriverAnswers} {err : String} (hp : s.Startable stream)
      (ha : a.store .squadStarted = some err) :
      Steps cfg team s (.run stream a) ((s.setStatus .running).ret (.error (.storeError err)))
  | drive {stream : Bool} {answer : Except String (Except String Plan)} {a : DriverAnswers}
      {planned : ValidTeam} (hp : s.phase = .planning stream)
      (hplan : planned = team ∨ runPlanningPhase team.team answer = .ok planned) :
      Steps cfg team s (.plan answer a) (s.drive planned)
  | planFailed {stream : Bool} {answer : Except String (Except String Plan)} {a : DriverAnswers}
      {e : CompError} (hp : s.phase = .planning stream) (hplan : team.team.planning = true)
      (he : runPlanningPhase team.team answer = .error e) {s' : System}
      (h' : s' = s ∨ s' = s.record (.emit (.squadFailed e.toString a.now))) :
      Steps cfg team s (.plan answer a) (s'.ret (.error e))
  | complete {d : Driver} {manager : Option (Except String Json)} {a : DriverAnswers}
      (hd : s.AtHead d) (hc : Concludes cfg d manager) :
      Steps cfg team s (.head manager a) (s.complete d a)
  | stuck {d : Driver} {manager : Option (Except String Json)} {a : DriverAnswers}
      (hd : s.AtHead d) (hp : d.team.team.defaultProcess = .sequential) (hs : Stuck d) :
      Steps cfg team s (.head manager a) (s.ret (.error .cyclicDependency))
  | exceeded {d : Driver} {manager : Option (Except String Json)} {a : DriverAnswers}
      {reason : String} (hd : s.AtHead d) (hc : Concludes cfg d manager) :
      Steps cfg team s (.head manager a)
        (s.failWith a reason (.managerLoopExceeded maxManagerLoops))
  | managerPanic {d : Driver} {a : DriverAnswers} (hd : s.AtHead d) (ha : Asks d) :
      Steps cfg team s (.head none a) (s.ret .panicked)
  | managerFailed {d : Driver} {answer : Except String Json} {a : DriverAnswers} {e : CompError}
      (hd : s.AtHead d) (ha : Asks d) (he : decideNext cfg d answer = .error e) :
      Steps cfg team s (.head (some answer) a) (s.ret (.error e))
  | schedule {d d' : Driver} {manager : Option (Except String Json)} {a : DriverAnswers}
      (hd : s.AtHead d) (hs : Scheduled d d') :
      Steps cfg team s (.head manager a) { s with phase := .driving d' }
  | spawn {d : Driver} {missionId : String} {a : MissionAnswers} {m : Mission}
      {pre post : List Mission} (hp : s.phase = .driving d) (hm : d.todo = pre ++ m :: post)
      (hid : m.id = missionId) {d' : Driver}
      (h' : d' = { d with todo := pre ++ post, running := insert m.id d.running }) :
      Steps cfg team s (.spawn missionId a)
        { s with
          phase := .driving d'
          batch := s.batch ++ [{ executeMission cfg a s.squad m with mission := m }] }
  | advance {missionId : String} {pre post : List Branch} {b : Branch} {act : Act}
      {rest : List Act} (hn : s.nextAct (.advance missionId) = some act)
      (hb : s.batch = pre ++ b :: post) (ha : b.acts = act :: rest) :
      Steps cfg team s (.advance missionId)
        ({ s with batch := pre ++ { b with acts := rest } :: post }.record act)
  | advanceOrphan {index : Nat} {pre post : List Branch} {b : Branch} {act : Act}
      {rest : List Act} (hn : s.nextAct (.advanceOrphan index) = some act)
      (hb : s.orphans = pre ++ b :: post) (ha : b.acts = act :: rest) :
      Steps cfg team s (.advanceOrphan index)
        ({ s with orphans := pre ++ { b with acts := rest } :: post }.record act)
  | receivePanic {missionId : String} {a : DriverAnswers} {d : Driver} {pre post : List Branch}
      {b : Branch} (hb : s.Receives d pre b post) (hid : b.mission.id = missionId)
      (hr : b.result = none) :
      Steps cfg team s (.receive missionId a)
        ({ s with batch := pre ++ post }.receivePanic (heard d b) b)
  | receiveOk {missionId : String} {a : DriverAnswers} {d : Driver} {pre post : List Branch}
      {b : Branch} (hb : s.Receives d pre b post) (hid : b.mission.id = missionId)
      (hr : b.result = some (.ok ())) :
      Steps cfg team s (.receive missionId a)
        ({ s with batch := pre ++ post, phase := .driving (heard d b) }.receiveOk (heard d b) b)
  | receiveError {missionId : String} {a : DriverAnswers} {d : Driver} {pre post : List Branch}
      {b : Branch} {e : CompError} (hb : s.Receives d pre b post)
      (hid : b.mission.id = missionId) (hr : b.result = some (.error e)) :
      Steps cfg team s (.receive missionId a)
        ({ s with batch := pre ++ post }.failWith a e.toString e)

variable {s : System}

theorem steps_run (s : System) (stream : Bool) (a : DriverAnswers) :
    Steps cfg team s (.run stream a) (s.run stream a) := by
  rw [System.run]
  split
  · next hp =>
      split
      · exact .stay rfl
      · next hg =>
          have hs : s.Startable stream := by
            refine ⟨hp, ?_⟩
            intro hstream
            by_contra hn
            exact hg ⟨hstream, hn⟩
          simp only []
          split
          · next err ha => exact .startLost hs ha
          · next ha => exact .start hs ha rfl
  · exact .stay rfl

theorem steps_plan (s : System) (answer : Except String (Except String Plan)) (a : DriverAnswers) :
    Steps cfg team s (.plan answer a) (s.plan team answer a) := by
  rw [System.plan]
  split
  · next stream hp =>
      split
      · next hplan =>
          split
          · next planned h => exact .drive hp (.inr h)
          · next e he =>
              split
              · simp only []
                split
                · exact .planFailed hp hplan he (.inl rfl)
                · exact .planFailed hp hplan he (.inr rfl)
              · exact .planFailed hp hplan he (.inl rfl)
      · exact .drive hp (.inl rfl)
  · exact .stay rfl

theorem mem_of_chooseMission {t : Team} {completed : Finset String} {h : Handoff} {m : Mission}
    (hm : chooseMission t completed h = .ok m) : m ∈ t.missions ∧ m.id ∉ completed := by
  have hfind : ∀ {roleId : String} {m' : Mission},
      (t.missions.find? fun m => m.role = roleId ∧ m.id ∉ completed) = some m' →
        m' ∈ t.missions ∧ m'.id ∉ completed := by
    intro roleId m' hf
    have hp := List.find?_some hf
    simp only [decide_eq_true_eq] at hp
    exact ⟨List.mem_of_find?_eq_some hf, hp.2⟩
  rw [chooseMission] at hm
  dsimp only at hm
  split at hm
  · split at hm
    · next m' hf =>
        injection hm with hm
        subst hm
        exact hfind hf
    · cases hm
  · split at hm
    · next m' hf =>
        injection hm with hm
        subst hm
        exact hfind hf
    · cases hm
  · cases hm

theorem mem_of_decideNext {d : Driver} {answer : Except String Json} {m : Mission}
    (h : decideNext cfg d answer = .ok (some m)) :
    m ∈ d.team.team.missions ∧ m.id ∉ d.completed := by
  rw [decideNext.eq_def] at h
  split at h
  · cases h
  · split at h
    · cases h
    · next handoff _ =>
        split at h
        · cases h
        · cases hch : chooseMission d.team.team d.completed handoff with
          | error e =>
              rw [hch] at h
              cases h
          | ok m' =>
              rw [hch] at h
              injection h with h
              injection h with h
              rw [← h]
              exact mem_of_chooseMission hch

theorem steps_dagHead {d : Driver} {manager : Option (Except String Json)} (hd : s.AtHead d)
    (hseq : d.team.team.defaultProcess = .sequential) (a : DriverAnswers) :
    Steps cfg team s (.head manager a) (s.dagHead d a) := by
  rw [dagHead]
  simp only []
  split
  · next hc => exact .complete hd (.all hc)
  · next hc =>
      split
      · next hr =>
          split
          · next hrun =>
              rw [List.isEmpty_iff] at hr
              exact .stuck hd hseq ⟨by simpa using hc, hr, hrun⟩
          · exact .stay rfl
      · exact .schedule hd (.ready hseq)

theorem steps_managerHead {d : Driver} {manager : Option (Except String Json)} (hd : s.AtHead d)
    (hmgr : d.team.team.defaultProcess ≠ .sequential) (a : DriverAnswers) :
    Steps cfg team s (.head manager a) (managerHead cfg s d manager a) := by
  rw [managerHead.eq_def]
  split
  · next hc => exact .complete hd (.all hc)
  · next hc =>
      split
      · next hx => exact .exceeded hd (.exceeded hmgr hx)
      · next hx =>
          have hasks : Asks d := ⟨hmgr, by simpa using hc, by omega⟩
          split
          · exact .managerPanic hd hasks
          · next answer =>
              split
              · next e he => exact .managerFailed hd hasks he
              · next hn => exact .complete hd (.terminated hasks rfl hn)
              · next m hm =>
                  obtain ⟨hmem, hnot⟩ := mem_of_decideNext hm
                  exact .schedule hd (.managed hmgr hmem hnot)

theorem steps_head (s : System) (manager : Option (Except String Json)) (a : DriverAnswers) :
    Steps cfg team s (.head manager a) (System.head cfg s manager a) := by
  rw [System.head]
  split
  · next d hp =>
      split
      · next hg =>
          rw [Bool.and_eq_true, List.isEmpty_iff, List.isEmpty_iff] at hg
          have hd : s.AtHead d := ⟨hp, hg.1, hg.2⟩
          split
          · next hseq => exact steps_dagHead hd hseq a
          · next agentId hmgr => exact steps_managerHead hd (by rw [hmgr]; nofun) a
      · exact .stay rfl
  · exact .stay rfl

theorem steps_spawn (s : System) (missionId : String) (a : MissionAnswers) :
    Steps cfg team s (.spawn missionId a) (System.spawn cfg s missionId a) := by
  rw [System.spawn]
  split
  · next d hp =>
      split
      · next m hm =>
          split
          · obtain ⟨hid, pre, post, htodo, hpre⟩ := List.find?_eq_some_iff_append.mp hm
            rw [decide_eq_true_eq] at hid
            have herase : d.todo.eraseP (fun m => m.id = missionId) = pre ++ post := by
              rw [htodo, List.eraseP_append_right _ (by intro c hc; simpa using hpre c hc),
                List.eraseP_cons_of_pos (by simpa using hid)]
            rw [herase]
            exact .spawn hp htodo hid (by rw [hid])
          · exact .stay rfl
      · exact .stay rfl
  · exact .stay rfl

theorem steps_receive (s : System) (missionId : String) (a : DriverAnswers) :
    Steps cfg team s (.receive missionId a) (s.receive missionId a) := by
  rw [System.receive]
  split
  · next d hp =>
      split
      · next b hb =>
          split
          · next hg =>
              rw [Bool.and_eq_true, List.isEmpty_iff, Branch.ended, List.isEmpty_iff] at hg
              obtain ⟨hid, pre, post, hbatch, herase⟩ := find_eraseP hb
              rw [decide_eq_true_eq] at hid
              have hrec : s.Receives d pre b post := ⟨hp, hg.1, hbatch, hg.2⟩
              subst hid
              simp only [herase]
              split
              · next hr => exact .receivePanic hrec rfl hr
              · next hr => exact .receiveOk hrec rfl hr
              · next e hr => exact .receiveError hrec rfl hr
          · exact .stay rfl
      · exact .stay rfl
  · exact .stay rfl

theorem step_cases (cfg : EngineConfig) (team : ValidTeam) (s : System) (l : Label) :
    Steps cfg team s l (step cfg team s l) := by
  cases l with
  | sendSignal signal =>
      rw [step]
      split
      · next hp => exact .deliver hp
      · exact .stay rfl
  | run stream a => exact steps_run s stream a
  | plan answer a => exact steps_plan s answer a
  | head manager a => exact steps_head s manager a
  | spawn missionId a => exact steps_spawn s missionId a
  | advance missionId =>
      rw [step, System.advance]
      split
      · next act batch h =>
          obtain ⟨pre, b, post, rest, hb, ha, rfl⟩ := popAct_cases h
          exact .advance (by rw [nextAct, h]; rfl) hb ha
      · next h => exact .stay (by rw [nextAct, h]; rfl)
  | advanceOrphan index =>
      rw [step, System.advanceOrphan]
      split
      · next act orphans h =>
          obtain ⟨pre, b, post, rest, hb, ha, rfl⟩ := popAct_cases h
          exact .advanceOrphan (by rw [nextAct, h]; rfl) hb ha
      · next h => exact .stay (by rw [nextAct, h]; rfl)
  | receive missionId a => exact steps_receive s missionId a

/-! ## Moves -/


/-- What a step does to the trace, the signals and the executions, whatever it
does to the rest. -/
inductive Moves (cfg : EngineConfig) (s s' : System) (l : Label) : Prop where
  | driver (events : List SquadEvent) (hn : s.nextAct l = none)
      (hev : ∀ e ∈ events, e.ofMission = false) (htrace : s'.trace = s.trace ++ events.map .emit)
      (hbs : ∀ b ∈ s'.branches, b ∈ s.branches)
      (hsig : s'.squad.receivedSignals = s.squad.receivedSignals)
  | deliver (signal : String) (hn : s.nextAct l = none)
      (htrace : s'.trace = s.trace ++ [.delivered signal])
      (hbs : ∀ b ∈ s'.branches, b ∈ s.branches)
      (hsig : s'.squad.receivedSignals = insert signal s.squad.receivedSignals)
  | spawn (a : MissionAnswers) (m : Mission) (hp : s.phase ≠ .idle) (hn : s.nextAct l = none)
      (htrace : s'.trace = s.trace)
      (hbs : ∀ b ∈ s'.branches, b ∈ s.branches ∨
        b = { executeMission cfg a s.squad m with mission := m })
      (hsig : s'.squad.receivedSignals = s.squad.receivedSignals)
  | act (b : Branch) (act : Act) (rest : List Act) (hn : s.nextAct l = some act)
      (hb : b ∈ s.branches) (ha : b.acts = act :: rest)
      (htrace : s'.trace = s.trace ++ [act])
      (hbs : ∀ c ∈ s'.branches, c ∈ s.branches ∨ c = { b with acts := rest })
      (hsig : s'.squad.receivedSignals = s.squad.receivedSignals)

theorem mem_branches_ret {r : Returned} {b : Branch} (h : b ∈ (s.ret r).branches) :
    b ∈ s.branches := by
  rw [branches, ret, List.nil_append, List.mem_append] at h
  rw [branches, List.mem_append]
  exact h.symm

/-- A return, with or without its event. -/
theorem retWith_cases (s : System) (a : DriverAnswers) (e : SquadEvent) (r : Returned) :
    (∃ err, a.store e = some err ∧ s.retWith a e r = s.ret (.error (.storeError err))) ∨
      (a.store e = none ∧ s.retWith a e r = (s.record (.emit e)).ret r) := by
  rw [retWith]
  split
  · next err h => exact .inl ⟨err, h, rfl⟩
  · next h => exact .inr ⟨h, rfl⟩

/-- What returning makes of a state that differs from `s` in its squad and in
the branch it has heard of. -/
theorem moves_ret {s t : System} {l : Label} {r : Returned} (hn : s.nextAct l = none)
    (events : List SquadEvent) (hev : ∀ e ∈ events, e.ofMission = false)
    (htrace : t.trace = s.trace ++ events.map .emit) (hbs : ∀ b ∈ t.branches, b ∈ s.branches)
    (hsig : t.squad.receivedSignals = s.squad.receivedSignals) :
    Moves cfg s (t.ret r) l :=
  .driver events hn hev htrace (fun b hb => hbs b (mem_branches_ret hb)) hsig

theorem moves_retWith {s t : System} {l : Label} {r : Returned} {a : DriverAnswers}
    {e : SquadEvent} (hn : s.nextAct l = none) (he : e.ofMission = false)
    (htrace : t.trace = s.trace)
    (hbs : ∀ b ∈ t.branches, b ∈ s.branches)
    (hsig : t.squad.receivedSignals = s.squad.receivedSignals) :
    Moves cfg s (t.retWith a e r) l := by
  rcases retWith_cases t a e r with ⟨err, -, h⟩ | ⟨-, h⟩
  · rw [h]
    exact moves_ret hn [] (by simp) (by rw [htrace]; simp) hbs hsig
  · rw [h]
    exact moves_ret hn [e] (by simpa using he) (by rw [record, htrace]; rfl) hbs hsig

theorem mem_of_heard {s : System} {pre post : List Branch} {b c : Branch}
    (hb : s.batch = pre ++ b :: post) (hc : c ∈ (pre ++ post) ++ s.orphans) : c ∈ s.branches := by
  rw [branches, hb]
  simp only [List.mem_append, List.mem_cons] at hc ⊢
  tauto

theorem moves_receiveOk {l : Label} {d : Driver} {b : Branch} {pre post : List Branch}
    {phase : Phase} (hn : s.nextAct l = none) (hb : s.batch = pre ++ b :: post) :
    Moves cfg s ({ s with batch := pre ++ post, phase := phase }.receiveOk d b) l := by
  have hbs : ∀ c ∈ (pre ++ post) ++ s.orphans, c ∈ s.branches := fun c hc => mem_of_heard hb hc
  rw [receiveOk]
  simp only []
  split
  · exact moves_ret hn [] (by simp) (List.append_nil _).symm hbs rfl
  · exact moves_ret hn [] (by simp) (List.append_nil _).symm hbs rfl
  · exact moves_ret hn [] (by simp) (List.append_nil _).symm hbs rfl
  · exact .driver [] hn (by simp) (List.append_nil _).symm hbs rfl

theorem moves_act {l : Label} {b : Branch} {act : Act} {rest : List Act} {t : System}
    (hn : s.nextAct l = some act) (hb : b ∈ s.branches) (ha : b.acts = act :: rest)
    (htrace : t.trace = s.trace) (hsig : t.squad.receivedSignals = s.squad.receivedSignals)
    (hbs : ∀ c ∈ t.branches, c ∈ s.branches ∨ c = { b with acts := rest }) :
    Moves cfg s (t.record act) l :=
  .act b act rest hn hb ha (by rw [record, htrace]) hbs hsig

theorem moves_of_steps {l : Label} {s' : System} (h : Steps cfg team s l s') :
    Moves cfg s s' l := by
  have hself : ∀ b ∈ s.branches, b ∈ s.branches := fun _ hb => hb
  have hnil : s.trace = s.trace ++ ([] : List SquadEvent).map .emit := (List.append_nil _).symm
  cases h with
  | stay hn => exact .driver [] hn (by simp) hnil hself rfl
  | deliver hp => exact .deliver _ rfl rfl hself rfl
  | start hp ha h' =>
      subst h'
      exact .driver [.squadStarted] rfl (by simp [SquadEvent.ofMission]) rfl hself rfl
  | startLost hp ha => exact moves_ret rfl [] (by simp) hnil hself rfl
  | drive hp hplan => exact .driver [] rfl (by simp) hnil hself rfl
  | planFailed hp hplan he h' =>
      rcases h' with rfl | rfl
      · exact moves_ret rfl [] (by simp) hnil hself rfl
      · exact moves_ret rfl [_] (by simp [SquadEvent.ofMission]) rfl hself rfl
  | complete hd hc => exact moves_retWith rfl rfl rfl hself rfl
  | stuck hd hp hs => exact moves_ret rfl [] (by simp) hnil hself rfl
  | exceeded hd hc => exact moves_retWith rfl rfl rfl hself rfl
  | managerPanic hd ha => exact moves_ret rfl [] (by simp) hnil hself rfl
  | managerFailed hd ha he => exact moves_ret rfl [] (by simp) hnil hself rfl
  | schedule hd hs => exact .driver [] rfl (by simp) hnil hself rfl
  | @spawn d id a m pre post hp hm hid d' h' =>
      refine .spawn a m (by rw [hp]; nofun) rfl rfl ?_ rfl
      intro b hb
      rw [branches] at hb
      simp only [List.mem_append, List.mem_singleton] at hb
      rcases hb with (hb | hb) | hb
      · exact .inl (List.mem_append_left _ hb)
      · exact .inr hb
      · exact .inl (List.mem_append_right _ hb)
  | @advance id pre post b act rest hn hb ha =>
      refine moves_act hn (by simp [branches, hb]) ha rfl rfl ?_
      intro c hc
      rw [branches, hb]
      simp only [branches, List.mem_append, List.mem_cons] at hc ⊢
      tauto
  | @advanceOrphan i pre post b act rest hn hb ha =>
      refine moves_act hn (by simp [branches, hb]) ha rfl rfl ?_
      intro c hc
      rw [branches, hb]
      simp only [branches, List.mem_append, List.mem_cons] at hc ⊢
      tauto
  | receivePanic hb hid hr =>
      rw [System.receivePanic]
      split
      · exact .driver [] rfl (by simp) hnil (fun c hc => mem_of_heard hb.batch hc) rfl
      · exact moves_ret rfl [] (by simp) hnil (fun c hc => mem_of_heard hb.batch hc) rfl
  | receiveOk hb hid hr => exact moves_receiveOk rfl hb.batch
  | receiveError hb hid hr =>
      exact moves_retWith rfl rfl rfl (fun c hc => mem_of_heard hb.batch hc) rfl

theorem moves (cfg : EngineConfig) (team : ValidTeam) (s : System) (l : Label) :
    Moves cfg s (step cfg team s l) l :=
  moves_of_steps (step_cases cfg team s l)

/-! ## Executions under way -/

/-- A branch is the rest of an execution. -/
def Underway (b : Branch) : Prop :=
  ∃ a sq x past, Executed a b.mission sq x ∧ x.acts = past ++ b.acts ∧ b.result = x.result ∧
    b.squad = x.squad

theorem underway_of_moves {s s' : System} {l : Label} (hm : Moves cfg s s' l)
    (h : ∀ b ∈ s.branches, Underway b) : ∀ b ∈ s'.branches, Underway b := by
  cases hm with
  | driver events hn hev htrace hbs hsig => exact fun b hb => h b (hbs b hb)
  | deliver signal hn htrace hbs hsig => exact fun b hb => h b (hbs b hb)
  | spawn a m hp hn htrace hbs hsig =>
      intro b hb
      rcases hbs b hb with hb | rfl
      · exact h b hb
      · exact ⟨a, s.squad, _, [], executeMission_cases cfg a s.squad m, rfl, rfl, rfl⟩
  | act b act rest hn hb ha htrace hbs hsig =>
      intro c hc
      rcases hbs c hc with hc | rfl
      · exact h c hc
      · obtain ⟨a, sq, x, past, hx, hacts, hr, hsq⟩ := h b hb
        refine ⟨a, sq, x, past ++ [act], hx, ?_, hr, hsq⟩
        rw [hacts, ha, List.append_assoc]
        rfl

/-! ## A plain engine

For runs that are looked at in full: tasks without variables, outputs that are
plain text, and a store that keeps everything. -/

def plainEngine : EngineConfig :=
  { maxConcurrency := 4
    concurrent := by decide
    renderTemplate := fun task _ => .ok task
    handoffFromValue := fun _ => .error "invalid type: string, expected struct Handoff" }

def plainMission (id : String) : Mission :=
  { id := id, role := "r", task := "work", dependsOn := [], orDependsOn := [], outputKey := none
    handoffMode := .inherit, timeout := none, retries := none, retryDelay := none
    waitForSignal := none, breakpoint := false }

def plainTeam (missions : List Mission) : Team :=
  { id := "t", roles := [{ id := "r", agentId := "a" }], missions := missions
    defaultProcess := .sequential, planning := false }

def storing : DriverAnswers := { store := fun _ => none, now := 0 }

/-- An execution whose executor answers as given. -/
def answering (answer : Except String Json) (id : String) : MissionAnswers :=
  { store := fun _ => none, resolveRole := .ok (), execute := fun _ => some answer
    startedAt := 0, completedAt := 0, wakeAt := some 1
    handoffStamp := ("h-" ++ id, 0), outputStamp := ("o-" ++ id, 0) }

/-- The labels with which a run gets to its first loop head and past it. -/
def starting : List Label :=
  [.run false storing, .plan (.error "") storing, .head none storing]

def spawning (answer : Except String Json) (id : String) : Label :=
  .spawn id (answering answer id)

end System

end Pandaria.Comp
