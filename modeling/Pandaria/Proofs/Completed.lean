import Pandaria.Proofs.Attempts
import Pandaria.Proofs.Merge

/-!
# A completed mission stays completed

`Kept` asks that nothing of a mission's execution follows its completion, and
that its output is in the squad's context once the driver no longer waits for
it. The result of an execution is lost when the driver leaves it behind, and
an output can be overwritten by the clone of a sibling. `Careful` asks that
neither happens: whatever is left behind does not complete, and missions that
are started together find nothing under each other's output keys.
-/

namespace Pandaria.Comp

open Pandaria.Ai Pandaria.Lib

variable {cfg : EngineConfig} {team : ValidTeam}

/-- An act of carrying out a mission. -/
def Executes (id : String) : Act → Prop
  | .called id' _ | .emit (.missionScheduled id' _) | .emit (.missionStarted id' _)
  | .emit (.missionCompleted id' _ _ _) => id' = id
  | _ => False

theorem Executes.of {id id' : String} {act : Act} (h : Executes id act) (ho : act.Of id') :
    id = id' := by
  cases act with
  | called i b => exact h.symm.trans ho
  | emit e =>
      cases e with
      | missionScheduled i n => exact h.symm.trans ho
      | missionStarted i n => exact h.symm.trans ho
      | missionCompleted i v k t => exact h.symm.trans ho
      | _ => cases h
  | took i n => cases h
  | delivered n => cases h

/-- After a completion, no act of carrying out the same mission. -/
def Over (act act' : Act) : Prop :=
  ∀ id value key at_, act = .emit (.missionCompleted id value key at_) → ¬ Executes id act'

theorem not_executes_of_ofMission {id : String} {e : SquadEvent} (h : e.ofMission = false) :
    ¬ Executes id (.emit e) := by
  intro ha
  cases e <;> first | exact False.elim ha | cases h

/-- A context with an output in it. -/
structure Holds (ctx : TeamContext) (value : Json) (key : Option String) : Prop where
  shared : ∀ k, key = some k → ctx.shared.isObject = true → Json.get k ctx.shared = some value
  thread : ∃ msg ∈ ctx.thread, msg.kind = .output ∧ msg.content = value

/-- Ends well, and not to be called again. -/
def Execution.completes (x : Execution) : Bool :=
  x.merges &&
    match x.squad.status with
    | .waitingForSignal _ | .sleeping _ => false
    | _ => true

theorem holds_storeOutput (a : MissionAnswers) (m : Mission) (handoff : Option Handoff)
    (value : Json) (ctx : TeamContext) :
    Holds (storeOutput a m handoff value ctx) value m.outputKey := by
  constructor
  · intro k hk ho
    rw [storeOutput_shared] at ho ⊢
    rw [isObject_insertIfObject] at ho
    rw [get_insertIfObject ho, if_pos hk]
  · cases handoff <;> exact ⟨_, List.mem_append_right _ (List.mem_singleton_self _), rfl, rfl⟩

/-! ## Branches -/

/-- What an execution has still to do, and what it carries when it is done. -/
structure Carrying (b : Branch) : Prop where
  own : ∀ act ∈ b.acts, act.Of b.mission.id
  output : ∀ past id value key at_ later,
    b.acts = past ++ .emit (.missionCompleted id value key at_) :: later →
      later = [] ∧ b.completes = true ∧ key = b.mission.outputKey ∧
        Holds b.squad.context value key

theorem Carrying.pop {b : Branch} {act : Act} {rest : List Act} (h : Carrying b)
    (ha : b.acts = act :: rest) : Carrying { b with acts := rest } where
  own := fun act' hact => h.own act' (by rw [ha]; exact List.mem_cons_of_mem _ hact)
  output := fun past id value key at_ later hsplit => by
    have hrest : rest = past ++ .emit (.missionCompleted id value key at_) :: later := hsplit
    exact h.output (act :: past) id value key at_ later (by rw [ha, hrest]; rfl)

/-- What a merged branch brings besides its output: nothing new. -/
structure Faithful (ctx : TeamContext) (b : Branch) : Prop where
  distinct : b.squad.context.shared.Distinct
  object : b.squad.context.shared.isObject = ctx.shared.isObject
  agrees : ∀ key, (b.completes = true → b.mission.outputKey ≠ some key) →
    Json.get key b.squad.context.shared = none ∨
      Json.get key b.squad.context.shared = Json.get key ctx.shared

theorem not_completed_openingActs {a : MissionAnswers} {m : Mission} {s : Squad} {id : String}
    {value : Json} {key : Option String} {at_ : SystemTime} :
    .emit (.missionCompleted id value key at_) ∉ openingActs a m s := by
  intro h
  rcases openingActs_cases h with ⟨signal, -, h⟩ | h | h
  · cases h
  · cases h
  · cases h

/-- Completing is the last act of an execution. -/
theorem cut_at_completed {a : MissionAnswers} {m : Mission} {sq : Squad} {x : Execution}
    {past later : List Act} {id : String} {value : Json} {key : Option String} {at_ : SystemTime}
    (h : Executed a m sq x) (hs : sq.status = .running)
    (hx : x.acts = past ++ .emit (.missionCompleted id value key at_) :: later) :
    later = [] ∧ x.completes = true ∧ key = m.outputKey ∧ Holds x.squad.context value key := by
  have hmem : .emit (.missionCompleted id value key at_) ∈ x.acts := by
    rw [hx]
    simp
  cases h with
  | stopped hacts hr => exact absurd (hacts.subset hmem) not_completed_openingActs
  | waiting signal hm hn hacts hr hc hst =>
      rw [hacts, List.mem_singleton] at hmem
      cases hmem
  | answered succeeded hacts hr hp =>
      rw [hacts, List.mem_append, List.mem_singleton] at hmem
      rcases hmem with hmem | hmem
      · exact absurd hmem not_completed_openingActs
      · cases hmem
  | completed handoff v hacts hr hc hst =>
      have hlater : later = [] := by
        rw [hacts, show ∀ c d : Act, openingActs a m sq ++ [c, d] = (openingActs a m sq ++ [c]) ++ [d]
          from fun c d => by simp] at hx
        rcases List.append_eq_append_iff.mp hx with ⟨e, he, hc⟩ | ⟨e, he, hc⟩
        · cases e with
          | nil => exact (List.cons.inj hc).2.symm
          | cons f e => simp at hc
        · cases e with
          | nil => exact (List.cons.inj hc).2
          | cons f e =>
              injection hc with hc _
              subst hc
              have hbad : .emit (.missionCompleted id value key at_) ∈
                  openingActs a m sq ++ [.called m.id true] := by
                rw [he]
                simp
              rw [List.mem_append, List.mem_singleton] at hbad
              rcases hbad with hbad | hbad
              · exact absurd hbad not_completed_openingActs
              · cases hbad
      rw [hacts, List.mem_append] at hmem
      rcases hmem with hmem | hmem
      · exact absurd hmem not_completed_openingActs
      · simp only [List.mem_cons, List.not_mem_nil, or_false] at hmem
        rcases hmem with hmem | hmem
        · cases hmem
        · injection hmem with hmem
          injection hmem with _ hv hk _
          subst hv hk
          refine ⟨hlater, ?_, rfl, ?_⟩
          · rw [Execution.completes, Execution.merges, hr, hst, hs]
            cases m.breakpoint <;> rfl
          · rw [hc]
            exact holds_storeOutput a m handoff value sq.context
  | retrying reason wakeAt hm hacts hr hc hst =>
      rw [hacts, List.mem_append] at hmem
      rcases hmem with hmem | hmem
      · exact absurd hmem not_completed_openingActs
      · simp at hmem
  | failed reason hm hacts hr =>
      rw [hacts, List.mem_append] at hmem
      rcases hmem with hmem | hmem
      · exact absurd hmem not_completed_openingActs
      · simp at hmem

theorem carrying_executeMission {a : MissionAnswers} {sq : Squad} {m : Mission}
    (hs : sq.status = .running) :
    Carrying { executeMission cfg a sq m with mission := m } where
  own := fun _ hact => of_executed (executeMission_cases cfg a sq m) hact
  output := fun _ _ _ _ _ _ hsplit =>
    cut_at_completed (executeMission_cases cfg a sq m) hs hsplit

/-- A clone of the squad that is merged has what the squad has, its own output
apart. -/
theorem faithful_executeMission {a : MissionAnswers} {sq : Squad} {m : Mission}
    (hs : sq.status = .running) (hd : sq.context.shared.Distinct)
    (hm : (executeMission cfg a sq m).merges = true) :
    Faithful sq.context { executeMission cfg a sq m with mission := m } := by
  rcases announced_cases (executeMission_cases cfg a sq m) with
    ⟨handoff, value, -, hr, hc, hst⟩ | ⟨-, hn⟩
  · have hshared : (executeMission cfg a sq m).squad.context.shared =
        sq.context.shared.insertIfObject m.outputKey value := by
      rw [hc, storeOutput_shared]
    have hcomp : (executeMission cfg a sq m).completes = true := by
      rw [Execution.completes, hm, hst, hs]
      cases m.breakpoint <;> rfl
    refine ⟨?_, ?_, ?_⟩
    · exact hshared ▸ distinct_insertIfObject hd _ _
    · exact hshared ▸ isObject_insertIfObject _ _ _
    · intro key hkey
      refine .inr ?_
      show Json.get key (executeMission cfg a sq m).squad.context.shared = _
      rw [hshared]
      cases ho : sq.context.shared.isObject with
      | true => rw [get_insertIfObject ho, if_neg (hkey hcomp)]
      | false => rw [insertIfObject_of_not_object ho]
  · have hshared : (executeMission cfg a sq m).squad.context = sq.context := (hn hm).2
    exact ⟨hshared ▸ hd, by rw [hshared], fun key _ => .inr (by rw [hshared])⟩

namespace System

/-! ## The property and its condition -/

/-- Nothing is carried out of a mission that has completed, and what it has
put out is there once the driver does not wait for it any more. -/
structure Kept (s : System) : Prop where
  once : s.trace.Pairwise Over
  stays : ∀ id value key at_, .emit (.missionCompleted id value key at_) ∈ s.trace →
    (∀ b ∈ s.batch, b.mission.id ≠ id) →
      (∀ k, key = some k → Json.get k s.squad.context.shared = some value) ∧
        ∃ msg ∈ s.squad.context.thread, msg.kind = .output ∧ msg.content = value

/-- The label makes the driver return, and leave `left` behind. -/
def LeavesBehind (s : System) (l : Label) (left : List Branch) : Prop :=
  ∃ d pre b post missionId a, l = .receive missionId a ∧ s.Receives d pre b post ∧
    b.mission.id = missionId ∧
    (b.leaves = true ∨ b.result = none ∧ d.team.team.defaultProcess ≠ .sequential) ∧
    left = pre ++ post

/-- The missions a loop head would start. -/
def nextReady (d : Driver) : List Mission :=
  ((MissionScheduler.new d.team.team).ready d.completed).filter fun m => m.id ∉ d.running

structure Careful (s : System) (l : Label) : Prop where
  run : ∀ stream a, l = .run stream a → s.Resumable ∨ s.squad.status = .completed
  left : ∀ left, s.LeavesBehind l left → ∀ c ∈ left, c.completes = false
  quiet : ∀ left, s.PausesLeaving l left → ∀ c ∈ left, ∀ act ∈ c.acts,
    ¬ Executes c.mission.id act
  clear : ∀ d manager a, l = .head manager a → s.AtHead d → 2 ≤ (nextReady d).length →
    ∀ m ∈ nextReady d, ∀ key, m.outputKey = some key → Json.get key s.squad.context.shared = none

/-- What a squad is deployed with: outputs have somewhere to go, and none
replaces another. -/
structure Deployable (team : ValidTeam) (inputs : Json) : Prop where
  distinct : inputs.Distinct
  object : inputs.isObject = true ∨ ∀ m ∈ team.team.missions, m.outputKey = none
  keys : team.team.missions.Pairwise fun m m' =>
    ∀ key, m.outputKey = some key → m'.outputKey ≠ some key

/-! ## The invariant -/

/-- A run may be started, or is on. -/
def Open (s : System) : Prop := s.phase = .idle → s.Resumable ∨ s.squad.status = .completed

/-- The missions the driver, or the next one, takes for completed. -/
def counted (s : System) : Finset String :=
  match s.phase with
  | .driving d => d.completed
  | _ => s.squad.completedMissions

/-- A completed mission: the driver is about to hear of it, or has. -/
structure Done (team : ValidTeam) (s : System) (id : String) (value : Json) (key : Option String) :
    Prop where
  mission : ∃ m ∈ team.team.missions, m.id = id ∧ m.outputKey = key
  output : (∃ b ∈ s.batch, b.mission.id = id ∧ b.acts = [] ∧ b.completes = true ∧
      Holds b.squad.context value key) ∨
    (Holds s.squad.context value key ∧ (s.Open → id ∈ s.counted))

/-- The missions of a batch, those still to be spawned included. -/
def crowd (d : Driver) (s : System) : List Mission := d.todo ++ s.batch.map Branch.mission

/-- No clone has anything under the output key of another mission of its batch. -/
structure Spread (s : System) (d : Driver) : Prop where
  clones : ∀ c ∈ s.batch, c.merges = true → ∀ m ∈ crowd d s, m.id ≠ c.mission.id →
    ∀ key, m.outputKey = some key → Json.get key c.squad.context.shared = none
  clear : d.todo ≠ [] → 2 ≤ (crowd d s).length → ∀ m ∈ crowd d s,
    ∀ key, m.outputKey = some key → Json.get key s.squad.context.shared = none

structure Recorded (team : ValidTeam) (inputs : Json) (s : System) : Prop where
  carrying : ∀ b ∈ s.branches, Carrying b
  distinct : s.squad.context.shared.Distinct
  object : s.squad.context.shared.isObject = inputs.isObject
  faithful : ∀ b ∈ s.batch, b.merges = true → Faithful s.squad.context b
  spread : ∀ d, s.phase = .driving d → Spread s d
  left : ∀ c ∈ s.orphans, c.completes = false ∧
    (s.Open → ∀ act ∈ c.acts, ¬ Executes c.mission.id act)
  once : s.trace.Pairwise Over
  ahead : ∀ id value key at_, .emit (.missionCompleted id value key at_) ∈ s.trace →
    ∀ b ∈ s.branches, b.mission.id = id → ∀ act ∈ b.acts, ¬ Executes id act
  done : ∀ id value key at_, .emit (.missionCompleted id value key at_) ∈ s.trace →
    Done team s id value key

variable {s s' : System} {inputs : Json}

/-- A step that carries out nothing and starts nothing. -/
theorem recorded_driver (h : Recorded team inputs s) {added : List Act}
    (htrace : s'.trace = s.trace ++ added) (hadded : ∀ act ∈ added, ∀ id, ¬ Executes id act)
    (hbs : ∀ b ∈ s'.branches, b ∈ s.branches) (hdistinct : s'.squad.context.shared.Distinct)
    (hobject : s'.squad.context.shared.isObject = s.squad.context.shared.isObject)
    (hfaithful : ∀ b ∈ s'.batch, b.merges = true → Faithful s'.squad.context b)
    (hspread : ∀ d, s'.phase = .driving d → Spread s' d)
    (hleft : ∀ c ∈ s'.orphans, c.completes = false ∧
      (s'.Open → ∀ act ∈ c.acts, ¬ Executes c.mission.id act))
    (hdone : ∀ id value key, Done team s id value key → Done team s' id value key) :
    Recorded team inputs s' := by
  have hold : ∀ {id value key at_}, .emit (.missionCompleted id value key at_) ∈ s'.trace →
      .emit (.missionCompleted id value key at_) ∈ s.trace := by
    intro id value key at_ hmem
    rw [htrace, List.mem_append] at hmem
    rcases hmem with hmem | hmem
    · exact hmem
    · exact absurd rfl (hadded _ hmem id)
  refine
    { carrying := fun b hb => h.carrying b (hbs b hb)
      distinct := hdistinct
      object := hobject.trans h.object
      faithful := hfaithful
      spread := hspread
      left := hleft
      once := ?_
      ahead := fun id value key at_ hmem b hb => h.ahead id value key at_ (hold hmem) b (hbs b hb)
      done := fun id value key at_ hmem => hdone id value key (h.done id value key at_ (hold hmem)) }
  rw [htrace, List.pairwise_append]
  refine ⟨h.once, ?_, fun a _ b hb id _ _ _ _ => hadded b hb id⟩
  refine List.Pairwise.imp_of_mem ?_
    (List.pairwise_of_forall (R := fun _ _ => True) fun _ _ => trivial)
  intro a b _ hb _ id _ _ _ _
  exact hadded b hb id

/-- And that leaves the executions and the context alone. -/
theorem recorded_still (h : Recorded team inputs s) {added : List Act}
    (htrace : s'.trace = s.trace ++ added) (hadded : ∀ act ∈ added, ∀ id, ¬ Executes id act)
    (hbatch : s'.batch = s.batch) (horphans : ∀ c ∈ s'.orphans, c ∈ s.orphans)
    (hctx : s'.squad.context = s.squad.context)
    (hopen : s'.Open → s.Open ∧ ∀ id ∈ s.counted, id ∈ s'.counted)
    (hspread : ∀ d, s'.phase = .driving d → Spread s' d) : Recorded team inputs s' := by
  refine recorded_driver h htrace hadded ?_ (by rw [hctx]; exact h.distinct) (by rw [hctx])
    (by rw [hbatch, hctx]; exact h.faithful) hspread ?_ ?_
  · intro b hb
    rw [branches, hbatch, List.mem_append] at hb
    rw [branches, List.mem_append]
    exact hb.imp_right (horphans b)
  · intro c hc
    obtain ⟨hcomp, hquiet⟩ := h.left c (horphans c hc)
    exact ⟨hcomp, fun ho => hquiet (hopen ho).1⟩
  · rintro id value key ⟨hmission, hbatch' | ⟨hholds, hcount⟩⟩
    · exact ⟨hmission, .inl (by rw [hbatch]; exact hbatch')⟩
    · refine ⟨hmission, .inr ⟨by rw [hctx]; exact hholds, ?_⟩⟩
      intro ho
      exact (hopen ho).2 id (hcount (hopen ho).1)

/-! ## Hearing of a mission -/

theorem holds_merge {ctx : TeamContext} {value : Json} {key : Option String} {b : Branch}
    (h : Holds ctx value key) (hf : Faithful ctx b)
    (hk : ∀ k, key = some k → b.completes = true → b.mission.outputKey ≠ some k) :
    Holds (mergeContext ctx b.squad.context) value key := by
  obtain ⟨msg, hmsg, hkind⟩ := h.thread
  refine ⟨?_, msg, List.mem_append_left _ hmsg, hkind⟩
  intro k hkey ho
  rw [isObject_mergeContext] at ho
  rw [get_mergeContext ho hf.distinct, h.shared k hkey ho]
  rcases hf.agrees k (hk k hkey) with hn | hs
  · rw [hn]
    rfl
  · rw [hs, h.shared k hkey ho]
    rfl

theorem holds_merge_own {ctx : TeamContext} {value : Json} {key : Option String} {b : Branch}
    (h : Holds b.squad.context value key) (hf : Faithful ctx b) :
    Holds (mergeContext ctx b.squad.context) value key := by
  obtain ⟨msg, hmsg, hkind⟩ := h.thread
  refine ⟨?_, msg, List.mem_append_right _ hmsg, hkind⟩
  intro k hkey ho
  rw [isObject_mergeContext] at ho
  rw [get_mergeContext ho hf.distinct, h.shared k hkey (hf.object.trans ho)]
  rfl

theorem faithful_merge {ctx : TeamContext} {b c : Branch} (hb : Faithful ctx b)
    (hc : Faithful ctx c) (hclear : ∀ key, b.mission.outputKey = some key →
      Json.get key c.squad.context.shared = none) :
    Faithful (mergeContext ctx b.squad.context) c := by
  refine ⟨hc.distinct, hc.object.trans (isObject_mergeContext _ _).symm, ?_⟩
  intro key hkey
  by_cases hown : b.mission.outputKey = some key
  · exact .inl (hclear key hown)
  · rcases hc.agrees key hkey with hn | hs
    · exact .inl hn
    · refine .inr ?_
      rw [hs]
      cases ho : ctx.shared.isObject with
      | false =>
          rw [Json.get_of_not_object ho,
            Json.get_of_not_object ((isObject_mergeContext _ _).trans ho)]
      | true =>
          rw [get_mergeContext ho hb.distinct]
          rcases hb.agrees key fun _ => hown with hn | hs'
          · rw [hn]
            rfl
          · rw [hs']
            cases Json.get key ctx.shared <;> rfl

/-- Two missions of a team have different output keys. -/
theorem key_apart (hdep : Deployable team inputs) {m m' : Mission} (hm : Known team m)
    (hm' : Known team m') (hne : m.id ≠ m'.id) {key : String} (hk : m.outputKey = some key) :
    m'.outputKey ≠ some key := by
  obtain ⟨m₀, hm₀, he⟩ := hm
  obtain ⟨m₁, hm₁, he'⟩ := hm'
  have hsymm : Std.Symm fun m m' : Mission =>
      ∀ key, m.outputKey = some key → m'.outputKey ≠ some key :=
    ⟨fun m m' h key hk' hk => h key hk hk'⟩
  have hdiff : m₀ ≠ m₁ := by
    rintro rfl
    rw [he, he'] at hne
    exact hne rfl
  rw [he] at hk
  rw [he']
  exact hdep.keys.forall hm₀ hm₁ hdiff key hk

/-- What was completed before the driver hears of `b`. -/
theorem done_cases {d : Driver} {pre post : List Branch} {b : Branch} {id : String} {value : Json}
    {key : Option String} (hdr : Driven team s) (hb : s.Receives d pre b post)
    (h : Done team s id value key) :
    (id = b.mission.id ∧ b.completes = true ∧ Holds b.squad.context value key) ∨
      (∃ c ∈ pre ++ post, c.mission.id = id ∧ c.acts = [] ∧ c.completes = true ∧
        Holds c.squad.context value key) ∨
      (Holds s.squad.context value key ∧ id ∈ d.completed ∧ id ≠ b.mission.id) := by
  have hd := hdr.driving hb.phase
  have hmem : b ∈ s.batch := by rw [hb.batch]; simp
  rcases h.output with ⟨c, hc, hid, hend, hcomp, hholds⟩ | ⟨hholds, hcount⟩
  · rw [hb.batch] at hc
    simp only [List.mem_append, List.mem_cons] at hc
    rcases hc with hc | rfl | hc
    · exact .inr (.inl ⟨c, by simp [hc], hid, hend, hcomp, hholds⟩)
    · exact .inl ⟨hid.symm, hcomp, hholds⟩
    · exact .inr (.inl ⟨c, by simp [hc], hid, hend, hcomp, hholds⟩)
  · have hin : id ∈ d.completed := by
      have hc := hcount fun hidle => by rw [hb.phase] at hidle; cases hidle
      rw [counted, hb.phase] at hc
      exact hc
    refine .inr (.inr ⟨hholds, hin, ?_⟩)
    rintro rfl
    exact hd.open_ _ (hd.batch b hmem) hin

theorem not_open {t : System} (hp : t.phase = .idle)
    (hst : t.squad.status = .running ∨ t.squad.status = .failed) : ¬ t.Open := by
  intro ho
  have hr := ho hp
  rw [Resumable] at hr
  rcases hst with hst | hst <;> simp [hst, SquadStatus.paused] at hr

theorem open_of_driving {d : Driver} {t : System} (hp : t.phase = .driving d) : t.Open := by
  intro hidle
  rw [hp] at hidle
  cases hidle

/-- What the driver leaves behind, and the orphans it had. -/
theorem left_behind (h : Recorded team inputs s) {d : Driver} (hp : s.phase = .driving d)
    {left : List Branch} (hleft : ∀ c ∈ left, c.completes = false)
    (hquiet : s'.Open → ∀ c ∈ left, ∀ act ∈ c.acts, ¬ Executes c.mission.id act) :
    ∀ c ∈ s.orphans ++ left, c.completes = false ∧
      (s'.Open → ∀ act ∈ c.acts, ¬ Executes c.mission.id act) := by
  intro c hc
  rcases List.mem_append.mp hc with hc | hc
  · obtain ⟨hcomp, hq⟩ := h.left c hc
    exact ⟨hcomp, fun _ => hq (open_of_driving hp)⟩
  · exact ⟨hleft c hc, fun ho => hquiet ho c hc⟩

theorem mem_of_left {pre post : List Branch} {b : Branch} (hb : s.batch = pre ++ b :: post)
    (hbatch : s'.batch = []) (horphans : s'.orphans = s.orphans ++ (pre ++ post)) :
    ∀ c ∈ s'.branches, c ∈ s.branches := by
  intro c hc
  rw [branches, hbatch, horphans, List.nil_append, List.mem_append] at hc
  exact mem_of_heard hb (List.mem_append.mpr hc.symm)

/-- The driver returns for good, and merges nothing. -/
theorem recorded_closed {d : Driver} {pre post : List Branch} {b : Branch} {added : List Act}
    (h : Recorded team inputs s) (hdr : Driven team s) (hb : s.Receives d pre b post)
    (hown : b.completes = false) (hleft : ∀ c ∈ pre ++ post, c.completes = false)
    (htrace : s'.trace = s.trace ++ added) (hadded : ∀ act ∈ added, ∀ id, ¬ Executes id act)
    (hbatch : s'.batch = []) (horphans : s'.orphans = s.orphans ++ (pre ++ post))
    (hctx : s'.squad.context = s.squad.context) (hphase : s'.phase = .idle)
    (hclosed : ¬ s'.Open) : Recorded team inputs s' := by
  refine recorded_driver h htrace hadded (mem_of_left hb.batch hbatch horphans)
    (by rw [hctx]; exact h.distinct) (by rw [hctx]) (by rw [hbatch]; simp) ?_ ?_ ?_
  · intro d' hd'
    rw [hphase] at hd'
    cases hd'
  · rw [horphans]
    exact left_behind h hb.phase hleft fun ho => absurd ho hclosed
  · intro id value key hdone
    rcases done_cases hdr hb hdone with ⟨-, hcomp, -⟩ | ⟨c, hc, -, -, hcomp, -⟩ | ⟨hholds, -, -⟩
    · rw [hown] at hcomp
      cases hcomp
    · rw [hleft c hc] at hcomp
      cases hcomp
    · exact ⟨hdone.mission, .inr ⟨by rw [hctx]; exact hholds, fun ho => absurd ho hclosed⟩⟩

/-- The driver merges what it has heard of, and goes on or pauses. -/
theorem recorded_heard {d : Driver} {pre post : List Branch} {b : Branch}
    (h : Recorded team inputs s) (hdr : Driven team s) (hdep : Deployable team inputs)
    (hb : s.Receives d pre b post) (hr : b.merges = true) (htrace : s'.trace = s.trace)
    (hctx : s'.squad.context = mergeContext s.squad.context b.squad.context)
    (hwhere : (s'.batch = pre ++ post ∧ s'.orphans = s.orphans ∧
        ∃ d', s'.phase = .driving d' ∧ d'.todo = []) ∨
      (s'.batch = [] ∧ s'.orphans = s.orphans ++ (pre ++ post) ∧ s'.phase = .idle ∧
        (∀ c ∈ pre ++ post, c.completes = false) ∧
        ∀ c ∈ pre ++ post, ∀ act ∈ c.acts, ¬ Executes c.mission.id act))
    (hcount : ∀ id ∈ d.completed, id ∈ s'.counted)
    (hown : b.completes = true → b.mission.id ∈ s'.counted) : Recorded team inputs s' := by
  have hmem : b ∈ s.batch := by rw [hb.batch]; simp
  have hrest : ∀ c ∈ pre ++ post, c ∈ s.batch := by
    intro c hc
    rw [hb.batch]
    simp only [List.mem_append, List.mem_cons] at hc ⊢
    tauto
  have hf := h.faithful b hmem hr
  have hspread := h.spread d hb.phase
  have hapart := ((hdr.driving hb.phase).heard hb).2.2
  have hclear : ∀ c ∈ pre ++ post, c.merges = true → ∀ key, b.mission.outputKey = some key →
      Json.get key c.squad.context.shared = none := by
    intro c hc hmg key hkey
    refine hspread.clones c (hrest c hc) hmg b.mission ?_ ?_ key hkey
    · exact List.mem_append_right _ (List.mem_map_of_mem hmem)
    · intro he
      exact hapart (List.mem_map.mpr ⟨c, hc, he.symm⟩)
  have hfaithful : ∀ c ∈ pre ++ post, c.merges = true →
      Faithful (mergeContext s.squad.context b.squad.context) c := by
    intro c hc hmg
    exact faithful_merge hf (h.faithful c (hrest c hc) hmg) (hclear c hc hmg)
  have hdistinct : s'.squad.context.shared.Distinct := by
    rw [hctx]
    exact distinct_mergeContext h.distinct _
  have hobject : s'.squad.context.shared.isObject = s.squad.context.shared.isObject := by
    rw [hctx]
    exact isObject_mergeContext _ _
  have hnil : s'.trace = s.trace ++ [] := by rw [htrace, List.append_nil]
  -- an output the squad has already, or that of `b`
  have hkeep : ∀ {id value key}, Done team s id value key → Holds s.squad.context value key →
      id ∈ d.completed → id ≠ b.mission.id → Done team s' id value key := by
    intro id value key hdone hholds hin hne
    obtain ⟨m, hm, hid, hkey⟩ := hdone.mission
    refine ⟨⟨m, hm, hid, hkey⟩, .inr ⟨?_, fun _ => hcount id hin⟩⟩
    rw [hctx]
    refine holds_merge hholds hf ?_
    intro k hk _
    exact key_apart hdep (known_of_mem hm) (hdr.known b (List.mem_append_left _ hmem)) (by rw [hid]; exact hne)
      (hkey.trans hk)
  have hnew : ∀ {id value key}, Done team s id value key → id = b.mission.id →
      b.completes = true → Holds b.squad.context value key → Done team s' id value key := by
    intro id value key hdone hid hcomp hholds
    refine ⟨hdone.mission, .inr ⟨?_, fun _ => by rw [hid]; exact hown hcomp⟩⟩
    rw [hctx]
    exact holds_merge_own hholds hf
  rcases hwhere with ⟨hbatch, horphans, d', hp', htodo'⟩ | ⟨hbatch, horphans, hp', hleft, hquiet⟩
  · refine recorded_driver h hnil (by simp) ?_ hdistinct hobject (by rw [hbatch, hctx]; exact hfaithful)
      ?_ ?_ ?_
    · intro c hc
      rw [branches, hbatch, horphans] at hc
      exact mem_of_heard hb.batch hc
    · intro d₁ hd₁
      have he : d₁ = d' := by
        have heq := hd₁.symm.trans hp'
        injection heq
      subst he
      refine ⟨?_, fun hn => absurd htodo' hn⟩
      intro c hc hmg m hm hne key hkey
      rw [hbatch] at hc
      rw [crowd, htodo', List.nil_append, hbatch] at hm
      obtain ⟨c', hc', rfl⟩ := List.mem_map.mp hm
      exact hspread.clones c (hrest c hc) hmg c'.mission
        (List.mem_append_right _ (List.mem_map_of_mem (hrest c' hc'))) hne key hkey
    · rw [horphans]
      intro c hc
      obtain ⟨hcomp, hq⟩ := h.left c hc
      exact ⟨hcomp, fun _ => hq (open_of_driving hb.phase)⟩
    · intro id value key hdone
      rcases done_cases hdr hb hdone with ⟨hid, hcomp, hholds⟩ | hin | ⟨hholds, hin, hne⟩
      · exact hnew hdone hid hcomp hholds
      · exact ⟨hdone.mission, .inl (by rw [hbatch]; exact hin)⟩
      · exact hkeep hdone hholds hin hne
  · refine recorded_driver h hnil (by simp) (mem_of_left hb.batch hbatch horphans) hdistinct hobject
      (by rw [hbatch]; simp) ?_ ?_ ?_
    · intro d₁ hd₁
      rw [hp'] at hd₁
      cases hd₁
    · rw [horphans]
      exact left_behind h hb.phase hleft fun _ => hquiet
    · intro id value key hdone
      rcases done_cases hdr hb hdone with ⟨hid, hcomp, hholds⟩ | ⟨c, hc, -, -, hcomp, -⟩ |
        ⟨hholds, hin, hne⟩
      · exact hnew hdone hid hcomp hholds
      · rw [hleft c hc] at hcomp
        cases hcomp
      · exact hkeep hdone hholds hin hne

theorem recorded_receiveOk {d : Driver} {pre post : List Branch} {b : Branch} {missionId : String}
    {a : DriverAnswers} (h : Recorded team inputs s) (hdr : Driven team s)
    (hdep : Deployable team inputs) (hok : Careful s (.receive missionId a))
    (hb : s.Receives d pre b post) (hid : b.mission.id = missionId)
    (hr : b.result = some (.ok ())) :
    Recorded team inputs ({ s with batch := pre ++ post, phase := .driving (heard d b) }.receiveOk
      (heard d b) b) := by
  have hmg : b.merges = true := by rw [Execution.merges, hr]
  have hleft : b.squad.status.paused = true → (∀ c ∈ pre ++ post, c.completes = false) ∧
      ∀ c ∈ pre ++ post, ∀ act ∈ c.acts, ¬ Executes c.mission.id act := by
    intro hp
    refine ⟨hok.left _ ⟨d, pre, b, post, missionId, a, rfl, hb, hid, .inl ?_, rfl⟩,
      hok.quiet _ ⟨d, pre, b, post, missionId, a, rfl, hb, hid, hr, hp, rfl⟩⟩
    rw [Execution.leaves, hr, hp]
  rw [receiveOk]
  simp only []
  split
  · next hst =>
      refine recorded_heard h hdr hdep hb hmg rfl rfl
        (.inr ⟨rfl, rfl, rfl, hleft (by rw [hst]; rfl)⟩) (fun id hin => hin) ?_
      intro hcomp
      rw [Execution.completes, hmg, hst] at hcomp
      cases hcomp
  · next hst =>
      refine recorded_heard h hdr hdep hb hmg rfl rfl
        (.inr ⟨rfl, rfl, rfl, hleft (by rw [hst]; rfl)⟩) (fun id hin => hin) ?_
      intro hcomp
      rw [Execution.completes, hmg, hst] at hcomp
      cases hcomp
  · next hst =>
      exact recorded_heard h hdr hdep hb hmg rfl rfl
        (.inr ⟨rfl, rfl, rfl, hleft (by rw [hst]; rfl)⟩)
        (fun id hin => Finset.mem_insert_of_mem hin) fun _ => Finset.mem_insert_self _ _
  · exact recorded_heard h hdr hdep hb hmg rfl rfl (.inl ⟨rfl, rfl, _, rfl, hb.todo⟩)
      (fun id hin => Finset.mem_insert_of_mem hin) fun _ => Finset.mem_insert_self _ _

theorem recorded_receiveError {d : Driver} {pre post : List Branch} {b : Branch}
    {missionId : String} {a : DriverAnswers} {e : CompError} (h : Recorded team inputs s)
    (hdr : Driven team s) (hok : Careful s (.receive missionId a)) (hb : s.Receives d pre b post)
    (hid : b.mission.id = missionId) (hr : b.result = some (.error e)) :
    Recorded team inputs ({ s with batch := pre ++ post }.failWith a e.toString e) := by
  have hown : b.completes = false := by rw [Execution.completes, Execution.merges, hr]; rfl
  have hleft : ∀ c ∈ pre ++ post, c.completes = false := by
    refine hok.left _ ⟨d, pre, b, post, missionId, a, rfl, hb, hid, .inl ?_, rfl⟩
    rw [Execution.leaves, hr]
  rw [failWith]
  rcases retWith_cases ({ s with batch := pre ++ post }.setStatus .failed) a
    (.squadFailed e.toString a.now) (.error e) with ⟨err, -, he⟩ | ⟨-, he⟩
  · rw [he]
    exact recorded_closed h hdr hb hown hleft (List.append_nil _).symm (by simp) rfl rfl rfl rfl
      (not_open rfl (.inr rfl))
  · rw [he]
    refine recorded_closed h hdr hb hown hleft rfl ?_ rfl rfl rfl rfl (not_open rfl (.inr rfl))
    intro act hact id
    rw [List.mem_singleton] at hact
    subst hact
    exact not_executes_of_ofMission rfl

theorem recorded_receivePanic {d : Driver} {pre post : List Branch} {b : Branch}
    {missionId : String} {a : DriverAnswers} (h : Recorded team inputs s) (hdr : Driven team s)
    (hbusy : Busy s) (hok : Careful s (.receive missionId a)) (hb : s.Receives d pre b post)
    (hid : b.mission.id = missionId) (hr : b.result = none) :
    Recorded team inputs ({ s with batch := pre ++ post }.receivePanic (heard d b) b) := by
  have hown : b.completes = false := by rw [Execution.completes, Execution.merges, hr]; rfl
  have hmem : b ∈ s.batch := by rw [hb.batch]; simp
  have hrest : ∀ c ∈ pre ++ post, c ∈ s.batch := by
    intro c hc
    rw [hb.batch]
    simp only [List.mem_append, List.mem_cons] at hc ⊢
    tauto
  have hspread := h.spread d hb.phase
  rw [System.receivePanic]
  split
  · refine recorded_driver h (List.append_nil _).symm (by simp)
      (fun c hc => mem_of_heard hb.batch hc) h.distinct rfl
      (fun c hc => h.faithful c (hrest c hc)) ?_ ?_ ?_
    · intro d₁ hd₁
      injection hd₁ with hd₁
      subst hd₁
      refine ⟨?_, fun hn => absurd hb.todo hn⟩
      intro c hc hmg m hm hne key hkey
      rw [crowd, hb.todo_heard, List.nil_append] at hm
      obtain ⟨c', hc', rfl⟩ := List.mem_map.mp hm
      exact hspread.clones c (hrest c hc) hmg c'.mission
        (List.mem_append_right _ (List.mem_map_of_mem (hrest c' hc'))) hne key hkey
    · intro c hc
      obtain ⟨hcomp, hq⟩ := h.left c hc
      exact ⟨hcomp, fun _ => hq (open_of_driving hb.phase)⟩
    · intro id value key hdone
      rcases done_cases hdr hb hdone with ⟨-, hcomp, -⟩ | hin | ⟨hholds, hin, -⟩
      · rw [hown] at hcomp
        cases hcomp
      · exact ⟨hdone.mission, .inl hin⟩
      · exact ⟨hdone.mission, .inr ⟨hholds, fun _ => hin⟩⟩
  · next agentId hp =>
      have hleft : ∀ c ∈ pre ++ post, c.completes = false := by
        refine hok.left _ ⟨d, pre, b, post, missionId, a, rfl, hb, hid, .inr ⟨hr, ?_⟩, rfl⟩
        intro hseq
        cases hseq.symm.trans hp
      exact recorded_closed h hdr hb hown hleft (List.append_nil _).symm (by simp) rfl rfl rfl rfl
        (not_open rfl (.inl (hbusy (ne_idle_of_driving hb.phase))))

/-! ## Starting and carrying out -/

theorem recorded_spawn {d d' : Driver} {a : MissionAnswers} {m : Mission} {pre post : List Mission}
    (h : Recorded team inputs s) (hdr : Driven team s) (hbusy : Busy s)
    (hdep : Deployable team inputs) (hp : s.phase = .driving d) (hm : d.todo = pre ++ m :: post)
    (h' : d' = { d with todo := pre ++ post, running := insert m.id d.running }) :
    Recorded team inputs { s with
      phase := .driving d'
      batch := s.batch ++ [{ executeMission cfg a s.squad m with mission := m }] } := by
  subst h'
  have hst : s.squad.status = .running := hbusy (ne_idle_of_driving hp)
  have hd := hdr.driving hp
  obtain ⟨hknown, hrun, hcomp⟩ := hd.todo m (by rw [hm]; simp)
  have hspread := h.spread d hp
  have hnew : ∀ {id value key at_}, .emit (.missionCompleted id value key at_) ∈ s.trace →
      m.id ≠ id := by
    rintro id value key at_ hmem rfl
    rcases (h.done _ value key at_ hmem).output with ⟨b, hb, hid, -⟩ | ⟨-, hcount⟩
    · exact hrun (hid ▸ hd.batch b hb)
    · have hc := hcount (open_of_driving hp)
      rw [counted, hp] at hc
      exact hcomp hc
  -- the missions of the batch are the same as before
  have hcrowd : (pre ++ post ++ (s.batch ++
      [({ executeMission cfg a s.squad m with mission := m } : Branch)]).map Branch.mission).Perm
      (crowd d s) := by
    rw [crowd, hm, List.map_append, List.map_singleton, ← List.append_assoc]
    refine List.perm_append_comm.trans ?_
    rw [List.singleton_append, List.append_assoc pre, List.append_assoc pre]
    exact List.perm_middle.symm
  have hmcrowd : m ∈ crowd d s := List.mem_append_left _ (by rw [hm]; simp)
  have hclear : ∀ m' ∈ crowd d s, m'.id ≠ m.id → ∀ key, m'.outputKey = some key →
      Json.get key s.squad.context.shared = none := by
    intro m' hm' hne
    refine hspread.clear (by rw [hm]; simp) ?_ m' hm'
    by_contra hlt
    have hone : (crowd d s).length ≤ 1 := by omega
    obtain ⟨i, hi, hmi⟩ := List.getElem_of_mem hmcrowd
    obtain ⟨j, hj, hmj⟩ := List.getElem_of_mem hm'
    have hij : i = j := by omega
    subst hij
    exact hne (by rw [← hmj, hmi])
  refine
    { carrying := ?_
      distinct := h.distinct
      object := h.object
      faithful := ?_
      spread := ?_
      left := ?_
      once := h.once
      ahead := ?_
      done := ?_ }
  · intro b hb
    rw [branches] at hb
    simp only [List.mem_append, List.mem_singleton] at hb
    rcases hb with (hb | rfl) | hb
    · exact h.carrying b (List.mem_append_left _ hb)
    · exact carrying_executeMission hst
    · exact h.carrying b (List.mem_append_right _ hb)
  · intro b hb hmg
    simp only [List.mem_append, List.mem_singleton] at hb
    rcases hb with hb | rfl
    · exact h.faithful b hb hmg
    · exact faithful_executeMission hst h.distinct hmg
  · intro d₁ hd₁
    injection hd₁ with hd₁
    subst hd₁
    refine ⟨?_, ?_⟩
    · intro c hc hmg m' hm' hne key hkey
      have hm'' : m' ∈ crowd d s := hcrowd.mem_iff.mp hm'
      simp only [List.mem_append, List.mem_singleton] at hc
      rcases hc with hc | rfl
      · exact hspread.clones c hc hmg m' hm'' hne key hkey
      · have hk : Known team m' := by
          rcases List.mem_append.mp hm'' with hin | hin
          · exact (hd.todo m' hin).1
          · obtain ⟨b, hb, rfl⟩ := List.mem_map.mp hin
            exact hdr.known b (List.mem_append_left _ hb)
        rcases (faithful_executeMission hst h.distinct hmg).agrees key
          fun _ => key_apart hdep hk hknown hne hkey with hn | hs
        · exact hn
        · rw [hs]
          exact hclear m' hm'' hne key hkey
    · intro hn hlen m' hm'
      rw [crowd] at hlen
      refine hspread.clear (by rw [hm]; simp) ?_ m' (hcrowd.mem_iff.mp hm')
      rw [← hcrowd.length_eq]
      exact hlen
  · intro c hc
    obtain ⟨hcomp, hq⟩ := h.left c hc
    exact ⟨hcomp, fun _ => hq (open_of_driving hp)⟩
  · intro id value key at_ hmem b hb hid
    rw [branches] at hb
    simp only [List.mem_append, List.mem_singleton] at hb
    rcases hb with (hb | rfl) | hb
    · exact h.ahead id value key at_ hmem b (List.mem_append_left _ hb) hid
    · exact absurd hid (hnew hmem)
    · exact h.ahead id value key at_ hmem b (List.mem_append_right _ hb) hid
  · intro id value key at_ hmem
    obtain ⟨hmission, ⟨b, hb, hrest⟩ | ⟨hholds, hcount⟩⟩ := h.done id value key at_ hmem
    · exact ⟨hmission, .inl ⟨b, List.mem_append_left _ hb, hrest⟩⟩
    · refine ⟨hmission, .inr ⟨hholds, fun _ => ?_⟩⟩
      have hc := hcount (open_of_driving hp)
      rw [counted, hp] at hc
      exact hc

/-- The trace after one more act, when that act is rightly done. -/
theorem once_act (h : Recorded team inputs s) {b : Branch} {act : Act} {rest : List Act}
    (hb : b ∈ s.branches) (ha : b.acts = act :: rest) : (s.trace ++ [act]).Pairwise Over := by
  have hmem : act ∈ b.acts := by rw [ha]; exact List.mem_cons_self
  rw [List.pairwise_append]
  refine ⟨h.once, List.pairwise_singleton _ _, ?_⟩
  intro a hold act' hact id value key at_ he hex
  rw [List.mem_singleton] at hact
  subst hact he
  have hid := hex.of ((h.carrying b hb).own act' hmem)
  exact h.ahead id value key at_ hold b hb hid.symm act' hmem hex

theorem recorded_advance {pre post : List Branch} {b : Branch} {act : Act} {rest : List Act}
    (h : Recorded team inputs s) (hdr : Driven team s) (hb : s.batch = pre ++ b :: post)
    (ha : b.acts = act :: rest) :
    Recorded team inputs
      ({ s with batch := pre ++ { b with acts := rest } :: post }.record act) := by
  have hmem : b ∈ s.batch := by rw [hb]; simp
  have hmem' : b ∈ s.branches := List.mem_append_left _ hmem
  have hrest : ∀ c ∈ pre ++ post, c ∈ s.batch := by
    intro c hc
    rw [hb]
    simp only [List.mem_append, List.mem_cons] at hc ⊢
    tauto
  have hmissions : (pre ++ { b with acts := rest } :: post).map Branch.mission =
      s.batch.map Branch.mission := by
    rw [hb, List.map_append, List.map_append]
    rfl
  obtain ⟨d, hd⟩ : ∃ d, Driving team s d := by
    rcases hdr.driver with hd | ⟨hnil, -⟩
    · exact hd
    · rw [hnil] at hmem
      cases hmem
  have hapart : ∀ c ∈ pre ++ post, c.mission.id ≠ b.mission.id := by
    have hn := hd.apart
    rw [hb, List.map_append, List.map_cons] at hn
    have hn' := (List.perm_middle.nodup_iff.mp hn)
    rw [← List.map_append, List.nodup_cons] at hn'
    intro c hc he
    exact hn'.1 (List.mem_map.mpr ⟨c, hc, he⟩)
  have hpop : ∀ c, c ∈ pre ++ { b with acts := rest } :: post →
      c ∈ pre ++ post ∨ c = { b with acts := rest } := by
    intro c hc
    simp only [List.mem_append, List.mem_cons] at hc ⊢
    tauto
  have hspread := h.spread d hd.phase
  refine
    { carrying := ?_
      distinct := h.distinct
      object := h.object
      faithful := ?_
      spread := ?_
      left := h.left
      once := once_act h hmem' ha
      ahead := ?_
      done := ?_ }
  · intro c hc
    rcases List.mem_append.mp hc with hc | hc
    · rcases hpop c hc with hc | rfl
      · exact h.carrying c (List.mem_append_left _ (hrest c hc))
      · exact (h.carrying b hmem').pop ha
    · exact h.carrying c (List.mem_append_right _ hc)
  · intro c hc hmg
    rcases hpop c hc with hc | rfl
    · exact h.faithful c (hrest c hc) hmg
    · obtain ⟨hdis, hobj, hagr⟩ := h.faithful b hmem hmg
      exact ⟨hdis, hobj, hagr⟩
  · intro d₁ hd₁
    have hcrowd : crowd d₁ ({ s with batch := pre ++ { b with acts := rest } :: post }.record act) =
        crowd d₁ s := congrArg (d₁.todo ++ ·) hmissions
    obtain ⟨hclones, hclear⟩ := h.spread d₁ hd₁
    constructor
    · intro c hc hmg m hm
      rw [hcrowd] at hm
      rcases hpop c hc with hc | rfl
      · exact hclones c (hrest c hc) hmg m hm
      · exact hclones b hmem hmg m hm
    · rw [hcrowd]
      exact hclear
  · intro id value key at_ hin c hc hid act' hact hex
    have hin' : .emit (.missionCompleted id value key at_) ∈ s.trace ++ [act] := hin
    rw [List.mem_append, List.mem_singleton] at hin'
    have hwhere : (c ∈ s.branches ∧ c.mission.id = id ∧ (c ∈ pre ++ post ∨ c ∈ s.orphans)) ∨
        c = { b with acts := rest } := by
      rcases List.mem_append.mp hc with hc | hc
      · rcases hpop c hc with hc | rfl
        · exact .inl ⟨List.mem_append_left _ (hrest c hc), hid, .inl hc⟩
        · exact .inr rfl
      · exact .inl ⟨List.mem_append_right _ hc, hid, .inr hc⟩
    rcases hin' with hin' | rfl
    · rcases hwhere with ⟨hcs, -, -⟩ | rfl
      · exact h.ahead id value key at_ hin' c hcs hid act' hact hex
      · exact h.ahead id value key at_ hin' b hmem' hid act'
          (by rw [ha]; exact List.mem_cons_of_mem _ hact) hex
    · have hown : id = b.mission.id :=
        (h.carrying b hmem').own (.emit (.missionCompleted id value key at_))
          (by rw [ha]; exact List.mem_cons_self)
      rcases hwhere with ⟨-, -, hcb | hco⟩ | rfl
      · exact hapart c hcb (hid.trans hown)
      · exact (h.left c hco).2 (open_of_driving hd.phase) act' hact (by rw [hid]; exact hex)
      · rw [((h.carrying b hmem').output [] id value key at_ rest ha).1] at hact
        cases hact
  · intro id value key at_ hin
    have hin' : .emit (.missionCompleted id value key at_) ∈ s.trace ++ [act] := hin
    rw [List.mem_append, List.mem_singleton] at hin'
    rcases hin' with hin' | rfl
    · obtain ⟨hmission, ⟨c, hc, hcid, hend, hcomp, hholds⟩ | ⟨hholds, hcount⟩⟩ :=
        h.done id value key at_ hin'
      · refine ⟨hmission, .inl ⟨c, ?_, hcid, hend, hcomp, hholds⟩⟩
        rw [hb] at hc
        simp only [record, List.mem_append, List.mem_cons] at hc ⊢
        rcases hc with hc | rfl | hc
        · exact .inl hc
        · rw [ha] at hend
          cases hend
        · exact .inr (.inr hc)
      · exact ⟨hmission, .inr ⟨hholds, hcount⟩⟩
    · have hown : id = b.mission.id :=
        (h.carrying b hmem').own (.emit (.missionCompleted id value key at_))
          (by rw [ha]; exact List.mem_cons_self)
      obtain ⟨hnil, hcomp, hkey, hholds⟩ := (h.carrying b hmem').output [] id value key at_ rest ha
      obtain ⟨m, hm, he⟩ := hdr.known b hmem'
      refine ⟨⟨m, hm, ?_, ?_⟩, .inl ⟨{ b with acts := rest }, ?_, hown.symm, hnil, hcomp, hholds⟩⟩
      · rw [hown, he]
      · rw [hkey, he]
      · simp [record]

theorem recorded_advanceOrphan {pre post : List Branch} {b : Branch} {act : Act} {rest : List Act}
    (h : Recorded team inputs s) (hb : s.orphans = pre ++ b :: post) (ha : b.acts = act :: rest) :
    Recorded team inputs
      ({ s with orphans := pre ++ { b with acts := rest } :: post }.record act) := by
  have hmem : b ∈ s.orphans := by rw [hb]; simp
  have hmem' : b ∈ s.branches := List.mem_append_right _ hmem
  have hpop : ∀ c ∈ pre ++ { b with acts := rest } :: post,
      c ∈ s.orphans ∨ c = { b with acts := rest } := by
    intro c hc
    rw [hb]
    simp only [List.mem_append, List.mem_cons] at hc ⊢
    tauto
  have hpopped : ∀ c ∈ s.batch ++ (pre ++ { b with acts := rest } :: post),
      c ∈ s.branches ∨ c = { b with acts := rest } := by
    intro c hc
    rcases List.mem_append.mp hc with hc | hc
    · exact .inl (List.mem_append_left _ hc)
    · exact (hpop c hc).imp_left (List.mem_append_right _)
  -- what is left behind does not complete
  have hold : ∀ {id value key at_}, .emit (.missionCompleted id value key at_) ∈ s.trace ++ [act] →
      .emit (.missionCompleted id value key at_) ∈ s.trace := by
    intro id value key at_ hin
    rw [List.mem_append, List.mem_singleton] at hin
    rcases hin with hin | rfl
    · exact hin
    · have hcomp := ((h.carrying b hmem').output [] id value key at_ rest ha).2.1
      rw [(h.left b hmem).1] at hcomp
      cases hcomp
  refine
    { carrying := ?_
      distinct := h.distinct
      object := h.object
      faithful := h.faithful
      spread := fun d hd => ⟨(h.spread d hd).clones, (h.spread d hd).clear⟩
      left := ?_
      once := once_act h hmem' ha
      ahead := ?_
      done := fun id value key at_ hin =>
        ⟨(h.done id value key at_ (hold hin)).mission, (h.done id value key at_ (hold hin)).output⟩ }
  · intro c hc
    rcases hpopped c hc with hc | rfl
    · exact h.carrying c hc
    · exact (h.carrying b hmem').pop ha
  · intro c hc
    rcases hpop c hc with hc | rfl
    · exact h.left c hc
    · obtain ⟨hcomp, hq⟩ := h.left b hmem
      exact ⟨hcomp, fun ho act' hact => hq ho act' (by rw [ha]; exact List.mem_cons_of_mem _ hact)⟩
  · intro id value key at_ hin c hc hid act' hact
    rcases hpopped c hc with hc | rfl
    · exact h.ahead id value key at_ (hold hin) c hc hid act' hact
    · exact h.ahead id value key at_ (hold hin) b hmem' hid act'
        (by rw [ha]; exact List.mem_cons_of_mem _ hact)

/-! ## Every step -/

/-- A batch of at most one mission is spread, and so is one whose output keys
are not taken. -/
theorem spread_schedule {d d' : Driver} {manager : Option (Except String Json)} {a : DriverAnswers}
    (hok : Careful s (.head manager a)) (hd : s.AtHead d) (hs : Scheduled d d') :
    Spread { s with phase := .driving d' } d' := by
  have hbatch : s.batch = [] := hd.batch
  have hcrowd : crowd d' { s with phase := .driving d' } = d'.todo := by
    rw [crowd, show ({ s with phase := .driving d' } : System).batch = s.batch from rfl, hbatch,
      List.map_nil, List.append_nil]
  refine ⟨?_, ?_⟩
  · intro c hc
    have hc' : c ∈ s.batch := hc
    rw [hbatch] at hc'
    cases hc'
  · intro _ hlen m hm key hkey
    rw [hcrowd] at hlen hm
    cases hs with
    | ready hseq => exact hok.clear d manager a rfl hd hlen m hm key hkey
    | managed hp hm' hc =>
        simp at hlen

theorem recorded_of_steps {l : Label} (hst : Steps cfg team s l s') (h : Recorded team inputs s)
    (hdr : Driven team s) (hbusy : Busy s) (hdep : Deployable team inputs) (hok : Careful s l) :
    Recorded team inputs s' := by
  have hnil : s.trace = s.trace ++ [] := (List.append_nil _).symm
  have hquiet : ∀ {e : SquadEvent}, e.ofMission = false →
      ∀ act ∈ [Act.emit e], ∀ id, ¬ Executes id act := by
    intro e he act hact id
    rw [List.mem_singleton] at hact
    subst hact
    exact not_executes_of_ofMission he
  have hnot : ∀ {t : System}, t.phase = .idle → ∀ d, t.phase = .driving d → Spread t d := by
    intro t hp d hd
    rw [hp] at hd
    cases hd
  -- a return with nothing under way, for good
  have hclosed : ∀ {t : System} {r : Returned} {added : List Act}, s.batch = [] →
      t.batch = s.batch → t.orphans = s.orphans → t.squad.context = s.squad.context →
      t.squad.status = .running ∨ t.squad.status = .failed → t.trace = s.trace ++ added →
      (∀ act ∈ added, ∀ id, ¬ Executes id act) → Recorded team inputs (t.ret r) := by
    intro t r added hb htb hto hctx hstatus htrace hadded
    refine recorded_still h htrace hadded ?_ ?_ hctx (fun ho => absurd ho (not_open rfl hstatus))
      (hnot rfl)
    · exact hb.symm
    · intro c hc
      have hc' : c ∈ t.orphans ++ t.batch := hc
      rw [htb, hb, hto, List.append_nil] at hc'
      exact hc'
  have hrunning : s.phase ≠ .idle → s.squad.status = .running := hbusy
  cases hst with
  | stay hn => exact h
  | deliver hp =>
      refine recorded_still h rfl ?_ rfl (fun c hc => hc) rfl (fun ho => ⟨ho, fun id hin => hin⟩)
        (hnot hp)
      intro act hact id
      rw [List.mem_singleton] at hact
      subst hact
      exact fun hex => hex
  | @start stream a hp ha s'' h' =>
      subst h'
      refine recorded_still h rfl (hquiet rfl) rfl (fun c hc => hc) rfl ?_ (fun d hd => by cases hd)
      intro _
      refine ⟨fun _ => hok.run stream a rfl, ?_⟩
      intro id hin
      rw [counted, hp.1] at hin
      exact hin
  | startLost hp ha =>
      have hb : s.batch = [] := hdr.batch_nil fun d hd => by rw [hp.1] at hd; cases hd
      exact hclosed hb rfl rfl rfl (.inl rfl) hnil (by simp)
  | drive hp hplan =>
      have hb : s.batch = [] := hdr.batch_nil fun d hd => by rw [hp] at hd; cases hd
      refine recorded_still h hnil (by simp) rfl (fun c hc => hc) rfl ?_ ?_
      · intro _
        have ho : s.Open := by
          intro hidle
          rw [hp] at hidle
          cases hidle
        refine ⟨ho, ?_⟩
        intro id hin
        rw [counted, hp] at hin
        exact hin
      · intro d hd
        injection hd with hd
        subst hd
        refine ⟨?_, fun hn => absurd rfl hn⟩
        intro c hc
        have hc' : c ∈ s.batch := hc
        rw [hb] at hc'
        cases hc'
  | @planFailed stream answer a e hp hplan he s'' h' =>
      have hb : s.batch = [] := hdr.batch_nil fun d hd => by rw [hp] at hd; cases hd
      have hr := hrunning (ne_idle_of_planning hp)
      rcases h' with rfl | rfl
      · exact hclosed hb rfl rfl rfl (.inl hr) hnil (by simp)
      · exact hclosed hb rfl rfl rfl (.inl hr) rfl (hquiet rfl)
  | @complete d manager a hd hc =>
      rw [System.complete]
      simp only []
      have hkeep : ∀ {t : System} {r : Returned} {added : List Act}, t.batch = s.batch →
          t.orphans = s.orphans → t.squad.context = s.squad.context →
          t.squad.completedMissions = d.completed → t.trace = s.trace ++ added →
          (∀ act ∈ added, ∀ id, ¬ Executes id act) → Recorded team inputs (t.ret r) := by
        intro t r added htb hto hctx hcomp htrace hadded
        refine recorded_still h htrace hadded hd.batch.symm ?_ hctx ?_ (hnot rfl)
        · intro c hc
          have hc' : c ∈ t.orphans ++ t.batch := hc
          rw [htb, hd.batch, hto, List.append_nil] at hc'
          exact hc'
        · intro _
          refine ⟨open_of_driving hd.phase, ?_⟩
          intro id hin
          rw [counted, hd.phase] at hin
          show id ∈ t.squad.completedMissions
          rw [hcomp]
          exact hin
      rcases retWith_cases { s with squad := { s.squad with
          completedMissions := d.completed, status := .completed } } a
        (.squadCompleted s.squad.context.shared a.now) .completed with ⟨err, -, he⟩ | ⟨-, he⟩
      · rw [he]
        exact hkeep rfl rfl rfl rfl hnil (by simp)
      · rw [he]
        exact hkeep rfl rfl rfl rfl rfl (hquiet rfl)
  | stuck hd hp hs =>
      exact hclosed hd.batch rfl rfl rfl (.inl (hrunning (ne_idle_of_driving hd.phase))) hnil
        (by simp)
  | @exceeded d manager a reason hd hc =>
      rw [failWith]
      rcases retWith_cases (s.setStatus .failed) a (.squadFailed reason a.now)
        (.error (.managerLoopExceeded maxManagerLoops)) with ⟨err, -, he⟩ | ⟨-, he⟩
      · rw [he]
        exact hclosed hd.batch rfl rfl rfl (.inr rfl) hnil (by simp)
      · rw [he]
        exact hclosed hd.batch rfl rfl rfl (.inr rfl) rfl (hquiet rfl)
  | managerPanic hd ha =>
      exact hclosed hd.batch rfl rfl rfl (.inl (hrunning (ne_idle_of_driving hd.phase))) hnil
        (by simp)
  | managerFailed hd ha he =>
      exact hclosed hd.batch rfl rfl rfl (.inl (hrunning (ne_idle_of_driving hd.phase))) hnil
        (by simp)
  | @schedule d d' manager a hd hs =>
      refine recorded_still h hnil (by simp) rfl (fun c hc => hc) rfl ?_ ?_
      · intro _
        refine ⟨open_of_driving hd.phase, ?_⟩
        intro id hin
        rw [counted, hd.phase] at hin
        cases hs with
        | ready hseq => exact hin
        | managed hp hm hc => exact hin
      · intro d₁ hd₁
        injection hd₁ with hd₁
        subst hd₁
        exact spread_schedule hok hd hs
  | spawn hp hm hid h' =>
      exact recorded_spawn h hdr hbusy hdep hp hm h'
  | advance hn hb ha => exact recorded_advance h hdr hb ha
  | advanceOrphan hn hb ha => exact recorded_advanceOrphan h hb ha
  | receivePanic hb hid hr => exact recorded_receivePanic h hdr hbusy hok hb hid hr
  | receiveOk hb hid hr => exact recorded_receiveOk h hdr hdep hok hb hid hr
  | receiveError hb hid hr => exact recorded_receiveError h hdr hok hb hid hr

theorem recorded_deployed (squadId : String) (hdep : Deployable team inputs) :
    Recorded team inputs (deployed team squadId inputs) := by
  have hnone : ∀ {id value key at_}, .emit (.missionCompleted id value key at_) ∉
      (deployed team squadId inputs).trace := by
    intro id value key at_ hmem
    rw [deployed, List.mem_singleton] at hmem
    cases hmem
  exact
    { carrying := fun b hb => by cases hb
      distinct := hdep.distinct
      object := rfl
      faithful := fun b hb => by cases hb
      spread := fun d hd => by cases hd
      left := fun c hc => by cases hc
      once := List.pairwise_singleton _ _
      ahead := fun id value key at_ hmem => absurd hmem hnone
      done := fun id value key at_ hmem => absurd hmem hnone }

theorem Recorded.kept (h : Recorded team inputs s) (hdep : Deployable team inputs) : Kept s := by
  refine ⟨h.once, ?_⟩
  intro id value key at_ hmem hno
  obtain ⟨⟨m, hm, -, hkey⟩, ⟨b, hb, hid, -⟩ | ⟨hholds, -⟩⟩ := h.done id value key at_ hmem
  · exact absurd hid (hno b hb)
  · refine ⟨?_, hholds.thread⟩
    intro k hk
    refine hholds.shared k hk (h.object.trans ?_)
    rcases hdep.object with ho | hnone
    · exact ho
    · rw [hnone m hm] at hkey
      rw [← hkey] at hk
      cases hk

/-- In a careful life every completed mission is kept. -/
theorem kept_of_along (squadId : String) (inputs : Json) (labels : List Label)
    (hdep : Deployable team inputs)
    (h : Along (step cfg team) Careful (deployed team squadId inputs) labels) :
    Kept (after cfg team squadId inputs labels) := by
  have hinv : ∀ s l, Careful s l → Recorded team inputs s ∧ Driven team s ∧ Busy s →
      Recorded team inputs (step cfg team s l) ∧ Driven team (step cfg team s l) ∧
        Busy (step cfg team s l) := by
    rintro s l hok ⟨hr, hd, hb⟩
    have hst := step_cases cfg team s l
    exact ⟨recorded_of_steps hst hr hd hb hdep hok, driven_of_steps hst hd, busy_of_steps hst hb⟩
  exact (h.invariant hinv ⟨recorded_deployed squadId hdep, driven_deployed squadId inputs,
    fun hn => absurd rfl hn⟩).1.kept hdep

/-! A mission that waits for a signal, and one that comes after it or beside
it. -/

def waitsThenGoes : ValidTeam :=
  { team := plainTeam [{ keyedMission "m1" "a" [] with waitForSignal := some "go" },
      keyedMission "m2" "b" ["m1"]]
    valid := rfl }

def waitsBeside : ValidTeam :=
  { team := plainTeam [{ keyedMission "m1" "a" [] with waitForSignal := some "go" },
      keyedMission "m2" "b" []]
    valid := rfl }

/-- At most one mission to start. -/
def fewReady (s : System) : Bool :=
  match s.phase with
  | .driving d => decide ((nextReady d).length ≤ 1)
  | _ => true

/-- Care, where missions run one at a time. -/
abbrev CarefulAlone (s : System) (l : Label) : Prop :=
  s.batch.length ≤ 1 ∧ s.fewReady = true ∧
    (starts l = true → (s.squad.status = .pending ∨ s.squad.status.paused = true) ∨
      s.squad.status = .completed)

theorem careful_of_alone {l : Label} (h : CarefulAlone s l) : Careful s l := by
  obtain ⟨hlen, hfew, hrun⟩ := h
  refine ⟨?_, ?_, ?_, ?_⟩
  · rintro stream a rfl
    exact hrun rfl
  · rintro left ⟨d, pre, b, post, id, a, -, hb, -, -, rfl⟩ c hc
    rw [hb.left_nil hlen] at hc
    cases hc
  · rintro left ⟨d, pre, b, post, id, a, -, hb, -, -, -, rfl⟩ c hc
    rw [hb.left_nil hlen] at hc
    cases hc
  · intro d manager a _ hd htwo
    rw [fewReady, hd.phase, decide_eq_true_eq] at hfew
    omega

theorem kept_waitsThenGoes :
    Kept (after plainEngine waitsThenGoes "s" (.obj []) (starting ++
      [.spawn "m1" (doneBy "m1"), .advance "m1", .receive "m1" storing, .sendSignal "go"] ++
      starting ++ .spawn "m1" (doneBy "m1") :: List.replicate 5 (.advance "m1") ++
      [.receive "m1" storing, .head none storing] ++ collecting ["m2"] ++
      [.head none storing])) :=
  kept_of_along "s" (.obj []) _
    { distinct := List.nodup_nil
      object := .inl rfl
      keys := by simp [waitsThenGoes, plainTeam, keyedMission] }
    (Along.mono (fun _ _ _ => careful_of_alone) (by decide))

/-- The mission beside it completes after the driver has left, and is executed
again by the next run. -/
theorem not_kept_waitsBeside :
    let s := after plainEngine waitsBeside "s" (.obj []) (starting ++
      [.spawn "m1" (doneBy "m1"), .spawn "m2" (doneBy "m2"), .advance "m1",
        .receive "m1" storing] ++ List.replicate 4 (.advanceOrphan 0) ++ [.sendSignal "go"] ++
      starting ++ .spawn "m2" (doneBy "m2") :: List.replicate 4 (.advance "m2"))
    s.trace.count (.called "m2" true) = 2 ∧ ¬ Kept s := by
  intro s
  refine ⟨by decide, ?_⟩
  intro h
  have hlast : s.trace.drop 6 = .emit (.missionCompleted "m2" (.str "done") (some "b") 0) ::
      s.trace.drop 7 := by decide
  have hp := h.once.sublist (List.drop_sublist 6 _)
  rw [hlast, List.pairwise_cons] at hp
  exact hp.1 (.called "m2" true) (by decide) "m2" _ _ _ rfl rfl

end System

end Pandaria.Comp
