import Pandaria.Proofs.Attempts

/-!
# The last event of a squad

`WellClosed` is about the trace of a whole life: nothing is emitted after
`SquadCompleted` or `SquadFailed`, a run that finishes has emitted one of them,
and an error leaves the squad failed. The engine writes its last event while
other executions may still be on their way, and several of its exits write
none; `Tidy` names these, exit by exit.
-/

namespace Pandaria.Comp

open Pandaria.Ai Pandaria.Lib

variable {cfg : EngineConfig} {team : ValidTeam}

namespace Act

def isEvent : Act → Bool
  | .emit _ => true
  | _ => false

/-- A terminal event. -/
def closes : Act → Bool
  | .emit (.squadCompleted _ _) | .emit (.squadFailed _ _) => true
  | _ => false

end Act

def terminals (t : List Act) : Nat := t.countP Act.closes

@[simp]
theorem terminals_append (t t' : List Act) : terminals (t ++ t') = terminals t + terminals t' :=
  List.countP_append

theorem closes_of_of {act : Act} {id : String} (h : act.Of id) : act.closes = false := by
  cases act with
  | emit e => cases e <;> first | rfl | cases h
  | delivered n => rfl
  | took i n => rfl
  | called i b => rfl

def Returned.isPause : Returned → Bool
  | .paused _ => true
  | _ => false

namespace System

/-! ## The property and its condition -/

structure WellClosed (s : System) : Prop where
  last : s.trace.Pairwise fun a b => a.closes = true → b.isEvent = false
  one : ∀ r, s.returned = some r → terminals s.trace = if r.isPause then 0 else 1
  failed : ∀ e, s.returned = some (.error e) → s.squad.status = .failed

/-- The label makes the driver write its last event, while `others` are still
on their way. -/
inductive Ending (cfg : EngineConfig) (s : System) : Label → List Branch → DriverAnswers → Prop where
  | head {d : Driver} {manager : Option (Except String Json)} {a : DriverAnswers}
      (hd : s.AtHead d) (hc : Concludes cfg d manager) :
      Ending cfg s (.head manager a) s.orphans a
  | failed {d : Driver} {pre post : List Branch} {b : Branch} {e : CompError} {a : DriverAnswers}
      (hb : s.Receives d pre b post) (hr : b.result = some (.error e)) :
      Ending cfg s (.receive b.mission.id a) (s.orphans ++ (pre ++ post)) a

structure Tidy (cfg : EngineConfig) (team : ValidTeam) (s : System) (l : Label) : Prop where
  run : ∀ stream a, l = .run stream a → s.Startable stream →
    s.Resumable ∧ a.store .squadStarted = none
  plan : ∀ stream answer a, l = .plan answer a → s.phase = .planning stream →
    team.team.planning = true → ∃ planned, runPlanningPhase team.team answer = .ok planned
  stuck : ∀ d manager a, l = .head manager a → s.AtHead d →
    d.team.team.defaultProcess = .sequential → ¬ Stuck d
  manager : ∀ d manager a, l = .head manager a → s.AtHead d → Asks d →
    ∃ answer next, manager = some answer ∧ decideNext cfg d answer = .ok next
  panic : ∀ d pre b post a, l = .receive b.mission.id a → s.Receives d pre b post →
    b.result = none → d.team.team.defaultProcess = .sequential
  ends : ∀ others a, s.Ending cfg l others a →
    (∀ e, (Act.emit e).closes = true → a.store e = none) ∧
      ∀ b ∈ others, ∀ act ∈ b.acts, act.isEvent = false

/-! ## The invariant -/

/-- No last event yet. -/
structure Unsealed (s : System) : Prop where
  idle : s.phase = .idle → s.Resumable
  none : terminals s.trace = 0
  pause : ∀ r, s.returned = some r → r.isPause = true

/-- The last event has been written, and there is none to come. -/
structure Sealed (s : System) : Prop where
  idle : s.phase = .idle
  status : s.squad.status = .completed ∨ s.squad.status = .failed
  one : terminals s.trace = 1
  last : s.trace.Pairwise fun a b => a.closes = true → b.isEvent = false
  quiet : ∀ b ∈ s.branches, ∀ act ∈ b.acts, act.isEvent = false
  finished : ∀ r, s.returned = some r → r.isPause = false
  failed : ∀ e, s.returned = some (.error e) → s.squad.status = .failed

def Tidied (s : System) : Prop := s.Unsealed ∨ s.Sealed

variable {s s' : System}

theorem last_of_terminals {t : List Act} (h : terminals t = 0) :
    t.Pairwise fun a b => a.closes = true → b.isEvent = false := by
  rw [terminals, List.countP_eq_zero] at h
  refine List.Pairwise.imp_of_mem ?_ (List.pairwise_of_forall (R := fun _ _ => True) fun _ _ => trivial)
  intro a b ha _ _ hc
  exact absurd hc (h a ha)

theorem Tidied.wellClosed (h : s.Tidied) : s.WellClosed := by
  rcases h with h | h
  · refine ⟨last_of_terminals h.none, ?_, ?_⟩
    · intro r hr
      rw [h.none, if_pos (h.pause r hr)]
    · intro e he
      cases h.pause _ he
  · refine ⟨h.last, ?_, h.failed⟩
    intro r hr
    rw [h.one, if_neg (by rw [h.finished r hr]; exact Bool.false_ne_true)]

/-- An open squad stays open when nothing terminal is done. -/
theorem unsealed_step (h : s.Unsealed) {added : List Act} (htrace : s'.trace = s.trace ++ added)
    (hadded : terminals added = 0) (hidle : s'.phase = .idle → s'.Resumable)
    (hret : ∀ r, s'.returned = some r → r.isPause = true) : s'.Tidied :=
  .inl ⟨hidle, by rw [htrace, terminals_append, h.none, hadded], hret⟩

/-- The last event is written. -/
theorem sealed_retWith {t : System} {a : DriverAnswers} {e : SquadEvent} {r : Returned}
    (h : s.Unsealed) (htrace : t.trace = s.trace) (he : (Act.emit e).closes = true)
    (hstore : a.store e = none) (hstatus : t.squad.status = .completed ∧ r = .completed ∨
      t.squad.status = .failed ∧ ∃ err, r = .error err)
    (hquiet : ∀ b ∈ t.branches, ∀ act ∈ b.acts, act.isEvent = false) :
    (t.retWith a e r).Tidied := by
  have hone : terminals [Act.emit e] = 1 := by
    rw [terminals, List.countP_singleton, he]
    rfl
  have hnone := h.none
  have hret : t.retWith a e r = (t.record (.emit e)).ret r := by
    rcases retWith_cases t a e r with ⟨err, hbad, -⟩ | ⟨-, heq⟩
    · rw [hstore] at hbad
      cases hbad
    · exact heq
  rw [hret]
  refine .inr
    { idle := rfl
      status := hstatus.imp And.left And.left
      one := ?_
      last := ?_
      quiet := fun b hb => hquiet b (@mem_branches_ret (t.record (.emit e)) r b hb)
      finished := ?_
      failed := ?_ }
  · show terminals (t.trace ++ [Act.emit e]) = 1
    rw [htrace, terminals_append, hnone, hone]
  · show (t.trace ++ [Act.emit e]).Pairwise _
    rw [htrace, List.pairwise_append]
    refine ⟨last_of_terminals hnone, List.pairwise_singleton _ _, ?_⟩
    intro a' ha' b _ hc
    rw [terminals, List.countP_eq_zero] at hnone
    exact absurd hc (hnone a' ha')
  · intro r' hr'
    injection hr' with hr'
    subst hr'
    rcases hstatus with ⟨-, rfl⟩ | ⟨-, err, rfl⟩ <;> rfl
  · intro err herr
    injection herr with herr
    rcases hstatus with ⟨-, rfl⟩ | ⟨hst, -⟩
    · cases herr
    · exact hst

/-- A closed squad stays closed: there are no more events to come. -/
theorem sealed_step (h : s.Sealed) {added : List Act} (htrace : s'.trace = s.trace ++ added)
    (hadded : ∀ act ∈ added, act.isEvent = false) (hphase : s'.phase = s.phase)
    (hstatus : s'.squad.status = s.squad.status) (hret : s'.returned = s.returned)
    (hbs : ∀ b ∈ s'.branches, ∀ act ∈ b.acts, act.isEvent = false) : s'.Tidied := by
  have hzero : terminals added = 0 := by
    rw [terminals, List.countP_eq_zero]
    intro act hact hc
    have hno := hadded act hact
    cases act with
    | emit e => cases hno
    | _ => cases hc
  refine .inr
    { idle := hphase.trans h.idle
      status := by rw [hstatus]; exact h.status
      one := by rw [htrace, terminals_append, h.one, hzero]
      last := ?_
      quiet := hbs
      finished := by rw [hret]; exact h.finished
      failed := by rw [hret, hstatus]; exact h.failed }
  rw [htrace, List.pairwise_append]
  refine ⟨h.last, ?_, fun _ _ b hb _ => hadded b hb⟩
  refine List.Pairwise.imp_of_mem ?_ (List.pairwise_of_forall (R := fun _ _ => True) fun _ _ => trivial)
  intro a b _ hb _ _
  exact hadded b hb

theorem mem_branches_left {pre post : List Branch} {c : Branch}
    (hc : c ∈ (pre ++ post) ++ s.orphans) : c ∈ s.orphans ++ (pre ++ post) := by
  rw [List.mem_append] at hc ⊢
  exact hc.symm

/-- The next act of an execution. -/
theorem tidied_act {b : Branch} {act : Act} {rest : List Act} (h : s.Tidied)
    (hown : ∀ b ∈ s.branches, ∀ act ∈ b.acts, act.Of b.mission.id) (hb : b ∈ s.branches)
    (ha : b.acts = act :: rest) (htrace : s'.trace = s.trace ++ [act]) (hphase : s'.phase = s.phase)
    (hsquad : s'.squad = s.squad) (hret : s'.returned = s.returned)
    (hbs : ∀ c ∈ s'.branches, c ∈ s.branches ∨ c = { b with acts := rest }) : s'.Tidied := by
  have hmem : act ∈ b.acts := by rw [ha]; exact List.mem_cons_self
  rcases h with h | h
  · refine unsealed_step h htrace ?_ ?_ (by rw [hret]; exact h.pause)
    · rw [terminals, List.countP_singleton, closes_of_of (hown b hb act hmem)]
      rfl
    · rw [hphase, Resumable, hsquad]
      exact h.idle
  · refine sealed_step h htrace ?_ hphase (by rw [hsquad]) hret ?_
    · intro act' hact
      rw [List.mem_singleton] at hact
      subst hact
      exact h.quiet b hb act' hmem
    · intro c hc act' hact
      rcases hbs c hc with hc | rfl
      · exact h.quiet c hc act' hact
      · exact h.quiet b hb act' (by rw [ha]; exact List.mem_cons_of_mem _ hact)

/-! ## Every step -/

theorem tidied_of_steps {l : Label} (hst : Steps cfg team s l s') (h : s.Tidied)
    (hown : ∀ b ∈ s.branches, ∀ act ∈ b.acts, act.Of b.mission.id)
    (hok : Tidy cfg team s l) : s'.Tidied := by
  have hnil : s.trace = s.trace ++ [] := (List.append_nil _).symm
  -- a run that is on has written no last event yet
  have hopen : s.phase ≠ .idle → s.Unsealed := by
    intro hn
    rcases h with h | h
    · exact h
    · exact absurd h.idle hn
  have hon : ∀ {t : System} {added : List Act}, s.phase ≠ .idle → t.phase ≠ .idle →
      t.trace = s.trace ++ added → terminals added = 0 → t.returned = s.returned → t.Tidied := by
    intro t added hn ht htrace hadded hret
    exact unsealed_step (hopen hn) htrace hadded (fun hi => absurd hi ht)
      (by rw [hret]; exact (hopen hn).pause)
  cases hst with
  | stay hn => exact h
  | deliver hp =>
      rcases h with h | h
      · exact unsealed_step h rfl rfl h.idle h.pause
      · refine sealed_step h rfl ?_ rfl rfl rfl h.quiet
        intro act hact
        rw [List.mem_singleton] at hact
        subst hact
        rfl
  | @start stream a hp ha s'' h' =>
      subst h'
      have hs : s.Unsealed := by
        rcases h with h | h
        · exact h
        · have hr := (hok.run stream a rfl hp).1
          rw [Resumable] at hr
          rcases h.status with hst | hst <;> simp [hst, SquadStatus.paused] at hr
      refine unsealed_step hs rfl rfl ?_ ?_
      · intro hi
        cases hi
      · intro r hr
        cases hr
  | @startLost stream a err hp ha =>
      rw [(hok.run stream a rfl hp).2] at ha
      cases ha
  | drive hp hplan =>
      exact hon (ne_idle_of_planning hp) (ne_idle_of_driving rfl) hnil rfl rfl
  | @planFailed stream answer a e hp hplan he s'' h' =>
      obtain ⟨planned, hplanned⟩ := hok.plan stream answer a rfl hp hplan
      rw [hplanned] at he
      cases he
  | @complete d manager a hd hc =>
      obtain ⟨hstore, hquiet⟩ := hok.ends _ a (.head hd hc)
      refine sealed_retWith (hopen (ne_idle_of_driving hd.phase)) rfl rfl (hstore _ rfl)
        (.inl ⟨rfl, rfl⟩) ?_
      intro b hb
      refine hquiet b ?_
      have hb' : b ∈ s.batch ++ s.orphans := hb
      rw [hd.batch] at hb'
      exact hb'
  | @stuck d manager a hd hp hs => exact absurd hs (hok.stuck d manager a rfl hd hp)
  | @exceeded d manager a reason hd hc =>
      obtain ⟨hstore, hquiet⟩ := hok.ends _ a (.head hd hc)
      refine sealed_retWith (hopen (ne_idle_of_driving hd.phase)) rfl rfl (hstore _ rfl)
        (.inr ⟨rfl, _, rfl⟩) ?_
      intro b hb
      refine hquiet b ?_
      have hb' : b ∈ s.batch ++ s.orphans := hb
      rw [hd.batch] at hb'
      exact hb'
  | @managerPanic d a hd ha =>
      obtain ⟨answer, next, hm, -⟩ := hok.manager d none a rfl hd ha
      cases hm
  | @managerFailed d answer a e hd ha he =>
      obtain ⟨answer', next, hm, hnext⟩ := hok.manager d (some answer) a rfl hd ha
      injection hm with hm
      subst hm
      rw [hnext] at he
      cases he
  | schedule hd hs =>
      exact hon (ne_idle_of_driving hd.phase) (ne_idle_of_driving rfl) hnil rfl rfl
  | spawn hp hm hid h' =>
      exact hon (ne_idle_of_driving hp) (ne_idle_of_driving rfl) hnil rfl rfl
  | @advance id pre post b act rest hn hb ha =>
      refine tidied_act h hown (by simp [branches, hb]) ha rfl rfl rfl rfl ?_
      intro c hc
      rw [branches, hb]
      simp only [branches, record, List.mem_append, List.mem_cons] at hc ⊢
      tauto
  | @advanceOrphan i pre post b act rest hn hb ha =>
      refine tidied_act h hown (by simp [branches, hb]) ha rfl rfl rfl rfl ?_
      intro c hc
      rw [branches, hb]
      simp only [branches, record, List.mem_append, List.mem_cons] at hc ⊢
      tauto
  | @receivePanic id a d pre post b hb hid hr =>
      subst hid
      have hseq := hok.panic d pre b post a rfl hb hr
      rw [System.receivePanic, show (heard d b).team = d.team from rfl, hseq]
      exact hon (ne_idle_of_driving hb.phase) (ne_idle_of_driving rfl) hnil rfl rfl
  | @receiveOk id a d pre post b hb hid hr =>
      have hn : s.phase ≠ .idle := ne_idle_of_driving hb.phase
      have hpaused : ∀ {t : System} {st : SquadStatus}, t.trace = s.trace → t.squad.status = st →
          st.paused = true → (t.ret (.paused st)).Tidied := by
        intro t st htrace hst hp
        refine unsealed_step (hopen hn) (show t.trace = s.trace ++ [] by rw [htrace, List.append_nil])
          rfl (fun _ => .inr (by rw [← hst] at hp; exact hp)) ?_
        intro r hr
        injection hr with hr
        rw [← hr]
        rfl
      rw [receiveOk]
      simp only []
      split
      · next hst => exact hpaused rfl rfl (by rw [hst]; rfl)
      · next hst => exact hpaused rfl rfl (by rw [hst]; rfl)
      · next hst => exact hpaused rfl rfl (by rw [hst]; rfl)
      · exact hon hn (ne_idle_of_driving rfl) hnil rfl rfl
  | @receiveError id a d pre post b e hb hid hr =>
      subst hid
      obtain ⟨hstore, hquiet⟩ := hok.ends _ a (.failed hb hr)
      refine sealed_retWith (hopen (ne_idle_of_driving hb.phase)) rfl rfl (hstore _ rfl)
        (.inr ⟨rfl, _, rfl⟩) ?_
      intro c hc
      exact hquiet c (mem_branches_left hc)

theorem tidied_deployed (squadId : String) (inputs : Json) :
    (deployed team squadId inputs).Tidied :=
  .inl ⟨fun _ => .inl rfl, rfl, fun r hr => by cases hr⟩

/-- In a tidy life the last event is the last. -/
theorem wellClosed_of_along (squadId : String) (inputs : Json) (labels : List Label)
    (h : Along (step cfg team) (Tidy cfg team) (deployed team squadId inputs) labels) :
    WellClosed (after cfg team squadId inputs labels) := by
  have hinv : ∀ s l, Tidy cfg team s l → s.Tidied ∧ (∀ b ∈ s.branches, Underway b) →
      (step cfg team s l).Tidied ∧ ∀ b ∈ (step cfg team s l).branches, Underway b := by
    rintro s l hok ⟨ht, hu⟩
    have hst := step_cases cfg team s l
    refine ⟨tidied_of_steps hst ht ?_ hok, underway_of_moves (moves_of_steps hst) hu⟩
    intro b hmem act hact
    obtain ⟨a, sq, x, past, hx, hacts, -⟩ := hu b hmem
    exact of_executed hx (by rw [hacts]; exact List.mem_append_right _ hact)
  exact (h.invariant hinv ⟨tidied_deployed squadId inputs, fun b hb => by cases hb⟩).1.wellClosed

/-! A life with a retry in it, a mission that fails beside another, and a
mission that waits for itself. -/

def answersOf : Label → Option DriverAnswers
  | .run _ a | .plan _ a | .head _ a | .receive _ a => some a
  | _ => none

/-- The store takes whatever the driver appends. -/
def Accepting (l : Label) : Prop := ∀ a, answersOf l = some a → ∀ e, a.store e = none

instance (d : Driver) : Decidable (Stuck d) := inferInstanceAs (Decidable (_ ∧ _ ∧ _))

/-- Nothing to give up on, and no manager. -/
def goesOn (s : System) : Bool :=
  match s.phase with
  | .driving d => decide (d.team.team.defaultProcess = .sequential ∧ ¬ Stuck d)
  | _ => true

/-- Tidiness, where missions run one at a time and none is left behind. -/
abbrev TidyAlone (s : System) (l : Label) : Prop :=
  s.batch.length ≤ 1 ∧ s.orphans.isEmpty = true ∧ s.goesOn = true ∧
    (starts l = true → s.squad.status = .pending ∨ s.squad.status.paused = true)

theorem tidy_of_alone {l : Label} (hplan : team.team.planning = false) (hacc : Accepting l)
    (h : TidyAlone s l) : Tidy cfg team s l := by
  obtain ⟨hlen, horph, hgo, hrun⟩ := h
  rw [List.isEmpty_iff] at horph
  have hdriving : ∀ {d : Driver}, s.phase = .driving d →
      d.team.team.defaultProcess = .sequential ∧ ¬ Stuck d := by
    intro d hd
    simpa [goesOn, hd] using hgo
  refine ⟨?_, ?_, ?_, ?_, ?_, ?_⟩
  · rintro stream a rfl -
    exact ⟨hrun rfl, hacc a rfl _⟩
  · intro stream answer a _ _ hp
    rw [hplan] at hp
    cases hp
  · rintro d manager a - hd -
    exact (hdriving hd.phase).2
  · rintro d manager a - hd hasks
    exact absurd (hdriving hd.phase).1 hasks.process
  · rintro d pre b post a - hb -
    exact (hdriving hb.phase).1
  · intro others a he
    cases he with
    | head hd hc => exact ⟨fun e _ => hacc a rfl e, by rw [horph]; simp⟩
    | failed hb hr => exact ⟨fun e _ => hacc a rfl e, by rw [horph, hb.left_nil hlen]; simp⟩

theorem accepting_attempting (answer : Except String Json) :
    ∀ l ∈ attempting answer, Accepting l := by
  simp [attempting, starting, spawning, Accepting, answersOf, storing]

theorem wellClosed_recovered :
    WellClosed (after plainEngine retriedOnce "s" (.obj [])
      (attempting (.error "e") ++ attempting (.ok (.str "done")) ++ [.head none storing])) := by
  refine wellClosed_of_along "s" (.obj []) _ (Along.mono ?_ (by decide : Along _ TidyAlone _ _))
  intro s l hl
  refine tidy_of_alone rfl ?_
  rw [List.mem_append, List.mem_append, List.mem_singleton] at hl
  rcases hl with (hl | hl) | rfl
  · exact accepting_attempting _ l hl
  · exact accepting_attempting _ l hl
  · intro a ha e
    injection ha with ha
    rw [← ha]
    rfl

def besideAnother : ValidTeam :=
  { team := plainTeam [plainMission "m1", plainMission "m2"], valid := rfl }

def waitsForItself : ValidTeam :=
  { team := plainTeam [{ plainMission "m1" with dependsOn := ["m1"] }], valid := rfl }

def failedBeside : System :=
  after plainEngine besideAnother "s" (.obj []) (starting ++
    [spawning (.error "e") "m1", spawning (.ok (.str "done")) "m2"] ++
    List.replicate 4 (.advance "m1") ++ [.receive "m1" storing, .advanceOrphan 0])

def givenUp : System := after plainEngine waitsForItself "s" (.obj []) starting

/-- One squad has an event after its `SquadFailed`. The run of the other
returns an error, with the squad running and no event. -/
theorem not_wellClosed :
    failedBeside.trace.drop 6 =
        [.emit (.squadFailed "mission 'm1' failed on attempt 1: e" 0),
          .emit (.missionScheduled "m2" 1)] ∧ ¬ WellClosed failedBeside ∧
      givenUp.returned = some (.error .cyclicDependency) ∧ givenUp.squad.status = .running ∧
        terminals givenUp.trace = 0 ∧ ¬ WellClosed givenUp := by
  have hlast : failedBeside.trace.drop 6 =
      [.emit (.squadFailed "mission 'm1' failed on attempt 1: e" 0),
        .emit (.missionScheduled "m2" 1)] := by decide
  have hr : givenUp.returned = some (.error .cyclicDependency) := by decide
  have hst : givenUp.squad.status = .running := by decide
  refine ⟨hlast, ?_, hr, hst, by decide, ?_⟩
  · intro h
    have hp := h.last.sublist (List.drop_sublist 6 _)
    rw [hlast] at hp
    exact absurd hp (by decide)
  · intro h
    have hf := h.failed _ hr
    rw [hst] at hf
    cases hf

end System

end Pandaria.Comp
