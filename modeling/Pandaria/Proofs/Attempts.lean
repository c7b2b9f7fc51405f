import Pandaria.Proofs.Driving
import Pandaria.Lib.Run

/-!
# How often a mission is attempted

`execute_mission` numbers its attempts from 1 each time it is called, so a
mission with retries is rescheduled after every failure, and only a mission
without any is failed by the engine. What is left of the bound is what the
executor and the pauses leave of it. `Patient` asks that the executor fails a
mission with retries no more often than it has retries, that a run is started
only before the end, and that no mission without retries is under way, or has
failed, when the driver leaves its batch on a pause: such a failure would be
lost and the mission executed again.
-/

namespace Pandaria.Comp

open Pandaria.Ai Pandaria.Lib

variable {cfg : EngineConfig} {team : ValidTeam}

/-- The executor's calls for a mission that ended in an error. -/
def failures (t : List Act) (id : String) : Nat := t.count (.called id false)

@[simp]
theorem failures_append (t t' : List Act) (id : String) :
    failures (t ++ t') id = failures t id + failures t' id :=
  List.count_append

/-- An act that belongs to an attempt at a mission, or announces one. -/
def Attempts (id : String) : Act → Prop
  | .called id' _ | .emit (.missionScheduled id' _) | .emit (.missionRetryScheduled id' _ _ _) =>
      id' = id
  | _ => False

theorem Attempts.of {id id' : String} {act : Act} (h : Attempts id act) (ho : act.Of id') :
    id = id' := by
  cases act with
  | called i b => exact h.symm.trans ho
  | emit e =>
      cases e with
      | missionScheduled i n => exact h.symm.trans ho
      | missionRetryScheduled i n r w => exact h.symm.trans ho
      | _ => cases h
  | took i n => cases h
  | delivered n => cases h

theorem not_attempts_of_ofMission {id : String} {e : SquadEvent} (h : e.ofMission = false) :
    ¬ Attempts id (.emit e) := by
  intro ha
  cases e <;> first | exact False.elim ha | cases h

namespace System

/-- Once the executor has failed a mission as often as it has retries and once
more, the mission is neither attempted nor scheduled again, and the execution
the driver waits for ends in an error. -/
structure WithinAttempts (team : ValidTeam) (s : System) : Prop where
  calls : ∀ m ∈ team.team.missions, ∀ past act later, s.trace = past ++ act :: later →
    m.retries.getD 0 + 1 ≤ failures past m.id → ¬ Attempts m.id act
  fails : ∀ b ∈ s.batch, b.mission.retries.getD 0 + 1 ≤ failures s.trace b.mission.id →
    b.result ≠ some (.ok ())

/-- The label makes the driver take the result of a paused execution and leave
`left` behind. -/
def PausesLeaving (s : System) (l : Label) (left : List Branch) : Prop :=
  ∃ d pre b post missionId a, l = .receive missionId a ∧ s.Receives d pre b post ∧
    b.mission.id = missionId ∧ b.result = some (.ok ()) ∧ b.squad.status.paused = true ∧
    left = pre ++ post

/-- The squad is at its beginning or has been paused. -/
def Resumable (s : System) : Prop :=
  s.squad.status = .pending ∨ s.squad.status.paused = true

structure Patient (team : ValidTeam) (s : System) (l : Label) : Prop where
  failing : ∀ m ∈ team.team.missions, 0 < m.retries.getD 0 →
    s.nextAct l = some (.called m.id false) → failures s.trace m.id < m.retries.getD 0
  run : ∀ stream a, l = .run stream a → s.Resumable
  pause : ∀ left, s.PausesLeaving l left → ∀ c ∈ left, c.mission.retries.getD 0 = 0 →
    c.acts = [] ∧ c.result = some (.ok ())

/-! ## The invariant -/

/-- No run will start any more. -/
def Closed (s : System) : Prop := s.phase = .idle ∧ ¬ s.Resumable

/-- Of two executions of one mission without retries, one is over. -/
def Alone (b c : Branch) : Prop :=
  b.mission.id = c.mission.id → b.mission.retries.getD 0 = 0 → c.mission.retries.getD 0 = 0 →
    b.acts = [] ∨ c.acts = []

/-- A mission without retries that has failed: nothing of it is left to be
done, and the failure ends the squad or is about to. -/
structure Spent (s : System) (m : Mission) : Prop where
  quiet : ∀ b ∈ s.branches, b.mission.id = m.id → ∀ act ∈ b.acts, ¬ Attempts m.id act
  ends : s.Closed ∨ ∃ b ∈ s.batch, b.mission.id = m.id ∧ ∃ e, b.result = some (.error e)

structure Ledger (team : ValidTeam) (s : System) : Prop where
  busy : s.phase ≠ .idle → s.squad.status = .running
  few : ∀ m ∈ team.team.missions, 0 < m.retries.getD 0 →
    failures s.trace m.id ≤ m.retries.getD 0
  alone : s.branches.Pairwise Alone
  left : ¬ s.Closed → ∀ c ∈ s.orphans, c.mission.retries.getD 0 = 0 →
    c.acts = [] ∧ c.result = some (.ok ())
  spent : ∀ m ∈ team.team.missions, m.retries.getD 0 = 0 → 0 < failures s.trace m.id → Spent s m

structure Tried (team : ValidTeam) (s : System) : Prop extends Ledger team s where
  underway : ∀ b ∈ s.branches, Underway b
  calls : ∀ m ∈ team.team.missions, ∀ past act later, s.trace = past ++ act :: later →
    m.retries.getD 0 + 1 ≤ failures past m.id → ¬ Attempts m.id act

variable {s s' : System}

/-- What the next act of an execution keeps of the bound. -/
theorem Tried.next (h : Tried team s) {b : Branch}
    {act : Act} {rest : List Act} (hb : b ∈ s.branches) (ha : b.acts = act :: rest) {m : Mission}
    (hm : m ∈ team.team.missions) (hf : m.retries.getD 0 + 1 ≤ failures s.trace m.id) :
    ¬ Attempts m.id act := by
  by_cases hz : m.retries.getD 0 = 0
  · intro hatt
    obtain ⟨a, sq, x, past, hx, hacts, -⟩ := h.underway b hb
    have hof : act.Of b.mission.id := of_executed hx (by rw [hacts, ha]; simp)
    exact (h.spent m hm hz (by omega)).quiet b hb (hatt.of hof).symm act
      (by rw [ha]; exact List.mem_cons_self) hatt
  · have hfew := h.few m hm (by omega)
    omega

/-- The trace part of the bound, for every step. -/
theorem calls_of_moves {l : Label} (hm : Moves cfg s s' l) (h : Tried team s) :
    ∀ m ∈ team.team.missions, ∀ past act later, s'.trace = past ++ act :: later →
      m.retries.getD 0 + 1 ≤ failures past m.id → ¬ Attempts m.id act := by
  -- an act of the longer trace is an old one, or one of those added
  have hgrow : ∀ added : List Act, s'.trace = s.trace ++ added →
      (∀ m ∈ team.team.missions, ∀ past act later, added = past ++ act :: later →
        m.retries.getD 0 + 1 ≤ failures (s.trace ++ past) m.id → ¬ Attempts m.id act) →
      ∀ m ∈ team.team.missions, ∀ past act later, s'.trace = past ++ act :: later →
        m.retries.getD 0 + 1 ≤ failures past m.id → ¬ Attempts m.id act := by
    intro added htrace hadded m hm past act later hsplit hf
    rw [htrace] at hsplit
    rcases List.append_eq_append_iff.mp hsplit with ⟨d, hd, hc⟩ | ⟨d, hd, hc⟩
    · rw [hd] at hf
      exact hadded m hm d act later hc hf
    · cases d with
      | nil =>
          rw [List.append_nil] at hd
          exact hadded m hm [] act later hc.symm (by rw [List.append_nil, hd]; exact hf)
      | cons c d =>
          injection hc with h₁ h₂
          subst h₁
          exact h.calls m hm past act d hd hf
  cases hm with
  | driver events hn hev htrace hbs hsig =>
      refine hgrow _ htrace ?_
      intro m hm past act later hsplit hf
      have hmem : act ∈ events.map Act.emit := by
        rw [hsplit]
        simp
      obtain ⟨e, he, rfl⟩ := List.mem_map.mp hmem
      exact not_attempts_of_ofMission (hev e he)
  | deliver signal hn htrace hbs hsig =>
      refine hgrow _ htrace ?_
      intro m hm past act later hsplit hf
      have hmem : act ∈ [Act.delivered signal] := by
        rw [hsplit]
        simp
      rw [List.mem_singleton] at hmem
      subst hmem
      exact fun hatt => hatt
  | spawn a m hp hn htrace hbs hsig =>
      refine hgrow [] (by rw [htrace, List.append_nil]) ?_
      intro m hm past act later hsplit hf
      simp at hsplit
  | act b act rest hn hb ha htrace hbs hsig =>
      refine hgrow _ htrace ?_
      intro m hm past act' later hsplit hf
      have hpast : past = [] ∧ act' = act := by
        cases past with
        | nil =>
            injection hsplit with h₁ h₂
            exact ⟨rfl, h₁.symm⟩
        | cons c past =>
            injection hsplit with h₁ h₂
            simp at h₂
      obtain ⟨rfl, rfl⟩ := hpast
      rw [List.append_nil] at hf
      exact h.next hb ha hm hf

/-! ## Keeping the ledger -/

theorem alone_symm {b c : Branch} (h : Alone b c) : Alone c b :=
  fun hid hc hb => (h hid.symm hb hc).symm

theorem pairwise_of_subperm {bs bs' : List Branch} (h : bs.Pairwise Alone) (hs : bs'.Subperm bs) :
    bs'.Pairwise Alone := by
  obtain ⟨l, hp, hl⟩ := hs
  exact (hp.pairwise_iff fun h => alone_symm h).mp (h.sublist hl)

theorem subperm_ret {t : System} {r : Returned} : (t.ret r).branches.Subperm t.branches :=
  (List.perm_append_comm : (t.orphans ++ t.batch).Perm _).subperm

theorem subperm_heard {pre post : List Branch} {b : Branch} (hb : s.batch = pre ++ b :: post) :
    ((pre ++ post) ++ s.orphans).Subperm s.branches := by
  rw [branches, hb]
  refine (List.Sublist.append_right ?_ _).subperm
  exact (List.sublist_cons_self b post).append_left pre

/-- A step after which no run starts any more. -/
theorem ledger_closed (h : Ledger team s) (hp : s'.phase = .idle) (hres : ¬ s'.Resumable)
    (htr : ∀ id, failures s'.trace id = failures s.trace id)
    (hsub : s'.branches.Subperm s.branches) : Ledger team s' :=
  { busy := fun hn => absurd hp hn
    few := fun m hm hz => by rw [htr]; exact h.few m hm hz
    alone := pairwise_of_subperm h.alone hsub
    left := fun hn => absurd ⟨hp, hres⟩ hn
    spent := fun m hm hz hf =>
      { quiet := fun b hb =>
          (h.spent m hm hz (by rw [← htr]; exact hf)).quiet b (hsub.subset hb)
        ends := .inl ⟨hp, hres⟩ } }

/-- A step that does nothing for or against a mission, and keeps waiting for
those that end in an error. -/
theorem ledger_keep (h : Ledger team s) (hopen : ¬ s.Closed)
    (hbusy : s'.phase ≠ .idle → s'.squad.status = .running)
    (htr : ∀ id, failures s'.trace id = failures s.trace id)
    (hsub : s'.branches.Subperm s.branches)
    (hleft : ∀ c ∈ s'.orphans, c.mission.retries.getD 0 = 0 →
      c.acts = [] ∧ c.result = some (.ok ()))
    (hkeep : ∀ m ∈ team.team.missions, m.retries.getD 0 = 0 → ∀ b ∈ s.batch, b.mission.id = m.id →
      ∀ e, b.result = some (.error e) → b ∈ s'.batch) : Ledger team s' :=
  { busy := hbusy
    few := fun m hm hz => by rw [htr]; exact h.few m hm hz
    alone := pairwise_of_subperm h.alone hsub
    left := fun _ => hleft
    spent := fun m hm hz hf => by
      have hs := h.spent m hm hz (by rw [← htr]; exact hf)
      refine ⟨fun b hb => hs.quiet b (hsub.subset hb), ?_⟩
      rcases hs.ends with hc | ⟨b, hb, hid, e, he⟩
      · exact absurd hc hopen
      · exact .inr ⟨b, hkeep m hm hz b hb hid e he, hid, e, he⟩ }

/-- A driver returns for good. -/
theorem ledger_retWith {t : System} {a : DriverAnswers} {e : SquadEvent} {r : Returned}
    (h : Ledger team s) (hres : ¬ t.Resumable)
    (htr : ∀ id, failures t.trace id = failures s.trace id)
    (hsub : t.branches.Subperm s.branches) : Ledger team (t.retWith a e r) := by
  rcases retWith_cases t a e r with ⟨err, -, he⟩ | ⟨-, he⟩
  · rw [he]
    exact ledger_closed h rfl hres htr (subperm_ret.trans hsub)
  · rw [he]
    refine ledger_closed h rfl hres ?_ (subperm_ret.trans hsub)
    intro id
    show failures (t.trace ++ [.emit e]) id = _
    rw [failures_append, htr]
    rfl

theorem ledger_spawn {d d' : Driver} {a : MissionAnswers} {m : Mission} {pre post : List Mission}
    (h : Ledger team s) (hd : Driven team s) (hp : s.phase = .driving d)
    (hm : d.todo = pre ++ m :: post) :
    Ledger team { s with
      phase := .driving d'
      batch := s.batch ++ [{ executeMission cfg a s.squad m with mission := m }] } := by
  have hdr := hd.driving hp
  obtain ⟨hknown, hrun, -⟩ := hdr.todo m (by rw [hm]; simp)
  have hopen : ¬ s.Closed := by
    rintro ⟨hidle, -⟩
    rw [hp] at hidle
    cases hidle
  have hperm : (branches { s with
      phase := .driving d'
      batch := s.batch ++ [{ executeMission cfg a s.squad m with mission := m }] }).Perm
      ({ executeMission cfg a s.squad m with mission := m } :: s.branches) := by
    show (s.batch ++ [_] ++ s.orphans).Perm _
    rw [List.append_assoc]
    exact List.perm_middle
  have hbusy : s.squad.status = .running := h.busy (ne_idle_of_driving hp)
  refine ⟨fun _ => hbusy, h.few, ?_, fun _ => h.left hopen, ?_⟩
  · refine (hperm.pairwise_iff fun h => alone_symm h).mpr ?_
    rw [List.pairwise_cons]
    refine ⟨?_, h.alone⟩
    intro c hc hid _ hz
    rcases List.mem_append.mp hc with hc | hc
    · exact absurd (hid ▸ hdr.batch c hc) hrun
    · exact .inr (h.left hopen c hc hz).1
  · intro m' hm' hz hf
    obtain ⟨hquiet, hends⟩ := h.spent m' hm' hz hf
    rcases hends with hc | ⟨b, hb, hid, he⟩
    · exact absurd hc hopen
    · refine ⟨?_, .inr ⟨b, List.mem_append_left _ hb, hid, he⟩⟩
      intro c hc hcid
      rcases List.mem_cons.mp (hperm.subset hc) with rfl | hc
      · refine absurd (hdr.batch b hb) ?_
        rw [hid, ← hcid]
        exact hrun
      · exact hquiet c hc hcid

/-- A failed call for a mission without retries is its last attempt. -/
theorem called_false_of_zero {a : MissionAnswers} {m : Mission} {sq : Squad} {x : Execution}
    {past rest : List Act} {id : String} (h : Executed a m sq x)
    (hx : x.acts = past ++ .called id false :: rest) (hz : m.retries.getD 0 = 0) :
    (∃ e, x.result = some (.error e)) ∧ ∀ act ∈ rest, ∀ i, ¬ Attempts i act := by
  obtain ⟨-, hpast, hrest⟩ := cut_at_call h hx
  rw [hpast] at hx
  cases h with
  | stopped hacts hr =>
      refine absurd (hacts.subset ?_) (@not_called_openingActs a m sq id false)
      rw [hx]
      simp
  | waiting signal hm hs hacts hr hc hst =>
      have hmem : .called id false ∈ x.acts := by
        rw [hx]
        simp
      rw [hacts, List.mem_singleton] at hmem
      cases hmem
  | answered succeeded hacts hr hp =>
      rw [hacts] at hx
      have htail := List.append_cancel_left hx
      injection htail with _ htail
      subst htail
      refine ⟨?_, by simp⟩
      cases hres : x.result with
      | none => exact absurd (hp hres) (by omega)
      | some r =>
          cases r with
          | ok u => exact absurd hres hr
          | error e => exact ⟨e, rfl⟩
  | completed handoff value hacts hr hc hst =>
      rw [hacts] at hx
      have htail := List.append_cancel_left hx
      injection htail with htail _
      injection htail with _ htail
      cases htail
  | retrying reason wakeAt hm hacts hr hc hst => omega
  | failed reason hm hacts hr =>
      rw [hacts] at hx
      have htail := List.append_cancel_left hx
      injection htail with _ htail
      subst htail
      refine ⟨⟨_, hr⟩, ?_⟩
      intro act hact i
      rw [List.mem_singleton] at hact
      subst hact
      exact fun hatt => hatt

/-- What an execution's move does to the executions: its own is one act
shorter. -/
structure Popped (s s' : System) (b b' : Branch) (others : List Branch) : Prop where
  before : s.branches.Perm (b :: others)
  after : s'.branches.Perm (b' :: others)
  batch : ∀ c ∈ s.batch, c ∈ s'.batch ∨ c = b ∧ b' ∈ s'.batch
  orphans : ∀ c ∈ s'.orphans, c ∈ s.orphans ∨ c = b' ∧ b ∈ s.orphans

theorem ledger_act {b : Branch} {act : Act} {rest : List Act} {others : List Branch} {l : Label}
    (h : Tried team s) (hk : ∀ b ∈ s.branches, Known team b.mission) (hok : Patient team s l)
    (hn : s.nextAct l = some act) (ha : b.acts = act :: rest)
    (hpop : Popped s s' b { b with acts := rest } others)
    (hphase : s'.phase = s.phase) (hsquad : s'.squad = s.squad)
    (htrace : s'.trace = s.trace ++ [act]) : Ledger team s' := by
  have hb : b ∈ s.branches := hpop.before.mem_iff.mpr List.mem_cons_self
  have hclosed : s'.Closed ↔ s.Closed := by rw [Closed, Closed, Resumable, Resumable, hphase, hsquad]
  have hne : b.acts ≠ [] := by rw [ha]; nofun
  -- a mission without retries still under way is not left behind
  have hleft : b ∈ s.orphans → b.mission.retries.getD 0 = 0 → s.Closed := by
    intro hbo hz
    by_contra hc
    exact hne (h.left hc b hbo hz).1
  have halone : (b :: others).Pairwise Alone :=
    (hpop.before.pairwise_iff fun h => alone_symm h).mp h.alone
  rw [List.pairwise_cons] at halone
  refine ⟨by rw [hphase, hsquad]; exact h.busy, ?_, ?_, ?_, ?_⟩
  · intro m hm hz
    rw [htrace, failures_append]
    by_cases hcall : act = .called m.id false
    · have hlt := hok.failing m hm hz (by rw [hn, hcall])
      have hone : failures [act] m.id = 1 := by rw [hcall]; simp [failures]
      omega
    · have hzero : failures [act] m.id = 0 := by simp [failures, hcall]
      have hfew := h.few m hm hz
      omega
  · refine (hpop.after.pairwise_iff fun h => alone_symm h).mpr ?_
    rw [List.pairwise_cons]
    refine ⟨?_, halone.2⟩
    intro c hc hid hz hz'
    rcases halone.1 c hc hid hz hz' with hnil | hnil
    · exact absurd hnil hne
    · exact .inr hnil
  · intro hnc c hc hz
    rw [hclosed] at hnc
    rcases hpop.orphans c hc with hc | ⟨rfl, hbo⟩
    · exact h.left hnc c hc hz
    · exact absurd (hleft hbo hz) hnc
  · intro m hm hz hf
    by_cases hcall : act = .called m.id false
    · obtain ⟨a, sq, x, past, hx, hacts, hr, -⟩ := h.underway b hb
      rw [ha, hcall] at hacts
      have hid : m.id = b.mission.id := (cut_at_call hx hacts).1
      have hzb : b.mission.retries.getD 0 = 0 := by
        rw [((hk b hb).of_id hm hid.symm).1]
        exact hz
      obtain ⟨⟨e, he⟩, hquiet⟩ := called_false_of_zero hx hacts hzb
      refine ⟨?_, ?_⟩
      · intro c hc hcid act' hact'
        rcases List.mem_cons.mp (hpop.after.subset hc) with rfl | hco
        · exact hquiet act' hact' m.id
        · have hzc : c.mission.retries.getD 0 = 0 := by
            have hcs : c ∈ s.branches := hpop.before.mem_iff.mpr (List.mem_cons_of_mem _ hco)
            rw [((hk c hcs).of_id hm hcid).1]
            exact hz
          rcases halone.1 c hco (hid.symm.trans hcid.symm) hzb hzc with hnil | hnil
          · exact absurd hnil hne
          · rw [hnil] at hact'
            cases hact'
      · rcases List.mem_append.mp hb with hbb | hbo
        · rcases hpop.batch b hbb with hbb' | ⟨-, hbb'⟩
          · exact .inr ⟨b, hbb', hid.symm, e, hr.trans he⟩
          · exact .inr ⟨_, hbb', hid.symm, e, hr.trans he⟩
        · exact .inl (hclosed.mpr (hleft hbo hzb))
    · have hzero : failures [act] m.id = 0 := by simp [failures, hcall]
      rw [htrace, failures_append, hzero] at hf
      obtain ⟨hquiet, hends⟩ := h.spent m hm hz hf
      refine ⟨?_, ?_⟩
      · intro c hc hcid act' hact'
        rcases List.mem_cons.mp (hpop.after.subset hc) with rfl | hco
        · exact hquiet b hb hcid act' (by rw [ha]; exact List.mem_cons_of_mem _ hact')
        · exact hquiet c (hpop.before.mem_iff.mpr (List.mem_cons_of_mem _ hco)) hcid act' hact'
      · rcases hends with hc | ⟨c, hc, hcid, e, he⟩
        · exact .inl (hclosed.mpr hc)
        · rcases hpop.batch c hc with hc' | ⟨rfl, hb'⟩
          · exact .inr ⟨c, hc', hcid, e, he⟩
          · exact .inr ⟨_, hb', hcid, e, he⟩

theorem popped_advance {pre post : List Branch} {b : Branch} {act : Act} {rest : List Act}
    (hb : s.batch = pre ++ b :: post) :
    Popped s ({ s with batch := pre ++ { b with acts := rest } :: post }.record act) b
      { b with acts := rest } (pre ++ post ++ s.orphans) := by
  refine ⟨?_, ?_, ?_, fun c hc => .inl hc⟩
  · rw [branches, hb]
    exact List.perm_middle.append_right s.orphans
  · exact List.perm_middle.append_right s.orphans
  · intro c hc
    rw [hb] at hc
    simp only [List.mem_append, List.mem_cons] at hc
    rcases hc with hc | rfl | hc
    · exact .inl (by simp [record, hc])
    · exact .inr ⟨rfl, by simp [record]⟩
    · exact .inl (by simp [record, hc])

theorem popped_advanceOrphan {pre post : List Branch} {b : Branch} {act : Act} {rest : List Act}
    (hb : s.orphans = pre ++ b :: post) :
    Popped s ({ s with orphans := pre ++ { b with acts := rest } :: post }.record act) b
      { b with acts := rest } (s.batch ++ (pre ++ post)) := by
  have hperm : ∀ c : Branch, (s.batch ++ (pre ++ c :: post)).Perm (c :: (s.batch ++ (pre ++ post))) := by
    intro c
    exact (List.perm_middle.append_left s.batch).trans List.perm_middle
  refine ⟨?_, hperm _, fun c hc => .inl hc, ?_⟩
  · rw [branches, hb]
    exact hperm b
  · intro c hc
    simp only [record, List.mem_append, List.mem_cons] at hc
    rw [hb]
    rcases hc with hc | rfl | hc
    · exact .inl (by simp [hc])
    · exact .inr ⟨rfl, by simp⟩
    · exact .inl (by simp [hc])

/-! ## Every step -/

/-- A branch that has ended in another way stays when one is received. -/
theorem mem_of_unheard {pre post : List Branch} {b c : Branch} (hb : s.batch = pre ++ b :: post)
    (hc : c ∈ s.batch) (hne : c.result ≠ b.result) : c ∈ pre ++ post := by
  rw [hb] at hc
  simp only [List.mem_append, List.mem_cons] at hc ⊢
  obtain hc | rfl | hc := hc
  · exact .inl hc
  · exact absurd rfl hne
  · exact .inr hc

theorem ledger_receiveOk {d : Driver} {pre post : List Branch} {b : Branch} {missionId : String}
    {a : DriverAnswers} (h : Ledger team s) (hk : ∀ b ∈ s.branches, Known team b.mission)
    (hok : Patient team s (.receive missionId a)) (hb : s.Receives d pre b post)
    (hid : b.mission.id = missionId) (hr : b.result = some (.ok ())) :
    Ledger team ({ s with batch := pre ++ post, phase := .driving (heard d b) }.receiveOk
      (heard d b) b) := by
  have hopen : ¬ s.Closed := by
    rintro ⟨hidle, -⟩
    rw [hb.phase] at hidle
    cases hidle
  have hbusy : s.squad.status = .running := h.busy (ne_idle_of_driving hb.phase)
  have hsub := subperm_heard hb.batch
  -- a pause leaves no mission without retries behind that has failed
  have hpause : b.squad.status.paused = true → ∀ {t : System}, t.phase = .idle →
      t.trace = s.trace → t.branches.Subperm s.branches →
      t.orphans = s.orphans ++ (pre ++ post) → Ledger team t := by
    intro hp t hphase htrace hsubt horphans
    have hleft : ∀ c ∈ pre ++ post, c.mission.retries.getD 0 = 0 →
        c.acts = [] ∧ c.result = some (.ok ()) :=
      hok.pause _ ⟨d, pre, b, post, missionId, a, rfl, hb, hid, hr, hp, rfl⟩
    refine ledger_keep h hopen (fun hn => absurd hphase hn) (fun id => by rw [htrace]) hsubt ?_ ?_
    · intro c hc hz
      rw [horphans, List.mem_append] at hc
      rcases hc with hc | hc
      · exact h.left hopen c hc hz
      · exact hleft c hc hz
    · intro m hm hz c hc hcid e he
      have hzc : c.mission.retries.getD 0 = 0 := by
        rw [((hk c (List.mem_append_left _ hc)).of_id hm hcid).1]
        exact hz
      have hres := (hleft c (mem_of_unheard hb.batch hc (by rw [he, hr]; simp)) hzc).2
      rw [hres] at he
      cases he
  rw [receiveOk]
  simp only []
  split
  · next hst => exact hpause (by rw [hst]; rfl) rfl rfl (subperm_ret.trans hsub) rfl
  · next hst => exact hpause (by rw [hst]; rfl) rfl rfl (subperm_ret.trans hsub) rfl
  · next hst => exact hpause (by rw [hst]; rfl) rfl rfl (subperm_ret.trans hsub) rfl
  · refine ledger_keep h hopen (fun _ => hbusy) (fun _ => rfl) hsub (h.left hopen) ?_
    intro m hm hz c hc hcid e he
    exact mem_of_unheard hb.batch hc (by rw [he, hr]; simp)

theorem ledger_of_steps {l : Label} (hst : Steps cfg team s l s') (h : Tried team s)
    (hd : Driven team s) (hok : Patient team s l) : Ledger team s' := by
  have hbusy : s.phase ≠ .idle → ¬ s.Resumable := by
    intro hn hres
    rw [Resumable, h.busy hn] at hres
    simp [SquadStatus.paused] at hres
  have hself : s.branches.Subperm s.branches := List.Subperm.refl _
  have hopen : s.phase ≠ .idle → ¬ s.Closed := fun hn hc => hn hc.1
  have hret : ∀ {t : System} {r : Returned}, ¬ t.Resumable →
      (∀ id, failures t.trace id = failures s.trace id) → t.branches.Subperm s.branches →
      Ledger team (t.ret r) :=
    fun hres htr hsub => ledger_closed h.toLedger rfl hres htr (subperm_ret.trans hsub)
  cases hst with
  | stay hn => exact h.toLedger
  | deliver hp =>
      refine { h.toLedger with few := ?_, spent := ?_ }
      · intro m hm hz
        show failures (s.trace ++ [_]) m.id ≤ _
        rw [failures_append]
        exact h.few m hm hz
      · intro m hm hz hf
        have hf' : 0 < failures (s.trace ++ [_]) m.id := hf
        rw [failures_append] at hf'
        obtain ⟨hquiet, hends⟩ := h.spent m hm hz hf'
        exact ⟨hquiet, hends⟩
  | @start stream a hp ha s'' h' =>
      subst h'
      have hres := hok.run stream a rfl
      refine ledger_keep h.toLedger (fun hc => hc.2 hres) (fun _ => rfl) ?_ hself
        (h.left fun hc => hc.2 hres) fun m hm hz b hb hid e he => hb
      intro id
      show failures (s.trace ++ [_]) id = _
      rw [failures_append]
      rfl
  | startLost hp ha => exact hret (by simp [Resumable, System.setStatus, SquadStatus.paused]) (fun _ => rfl) hself
  | drive hp hplan =>
      have hn : s.phase ≠ .idle := ne_idle_of_planning hp
      exact ledger_keep h.toLedger (hopen hn) (fun _ => h.busy hn) (fun _ => rfl) hself
        (h.left (hopen hn)) fun m hm hz b hb hid e he => hb
  | @planFailed stream answer a e hp hplan he s'' h' =>
      have hn : s.phase ≠ .idle := ne_idle_of_planning hp
      rcases h' with rfl | rfl
      · exact hret (hbusy hn) (fun _ => rfl) hself
      · refine hret (hbusy hn) ?_ hself
        intro id
        show failures (s.trace ++ [_]) id = _
        rw [failures_append]
        rfl
  | complete hd hc =>
      exact ledger_retWith h.toLedger (by simp [Resumable, SquadStatus.paused]) (fun _ => rfl) hself
  | stuck hd hp hs => exact hret (hbusy (ne_idle_of_driving hd.phase)) (fun _ => rfl) hself
  | exceeded hd hc =>
      exact ledger_retWith h.toLedger (by simp [Resumable, System.setStatus, SquadStatus.paused])
        (fun _ => rfl) hself
  | managerPanic hd ha => exact hret (hbusy (ne_idle_of_driving hd.phase)) (fun _ => rfl) hself
  | managerFailed hd ha he => exact hret (hbusy (ne_idle_of_driving hd.phase)) (fun _ => rfl) hself
  | schedule hd hs =>
      have hn : s.phase ≠ .idle := ne_idle_of_driving hd.phase
      exact ledger_keep h.toLedger (hopen hn) (fun _ => h.busy hn) (fun _ => rfl) hself
        (h.left (hopen hn)) fun m hm hz b hb hid e he => hb
  | spawn hp hm hid h' => exact ledger_spawn h.toLedger hd hp hm
  | advance hn hb ha =>
      exact ledger_act h hd.known hok hn ha (popped_advance hb) rfl rfl rfl
  | advanceOrphan hn hb ha =>
      exact ledger_act h hd.known hok hn ha (popped_advanceOrphan hb) rfl rfl rfl
  | @receivePanic id a d pre post b hb hid hr =>
      have hn : s.phase ≠ .idle := ne_idle_of_driving hb.phase
      have hsub := subperm_heard hb.batch
      rw [System.receivePanic]
      split
      · refine ledger_keep h.toLedger (hopen hn) (fun _ => h.busy hn) (fun _ => rfl) hsub
          (h.left (hopen hn)) ?_
        intro m hm hz c hc hcid e he
        exact mem_of_unheard hb.batch hc (by rw [he, hr]; simp)
      · exact hret (hbusy hn) (fun _ => rfl) hsub
  | receiveOk hb hid hr => exact ledger_receiveOk h.toLedger hd.known hok hb hid hr
  | receiveError hb hid hr =>
      exact ledger_retWith h.toLedger (by simp [Resumable, System.setStatus, SquadStatus.paused])
        (fun _ => rfl) (subperm_heard hb.batch)

theorem tried_of_steps {l : Label} (hst : Steps cfg team s l s') (h : Tried team s)
    (hd : Driven team s) (hok : Patient team s l) : Tried team s' :=
  { ledger_of_steps hst h hd hok with
    underway := underway_of_moves (moves_of_steps hst) h.underway
    calls := calls_of_moves (moves_of_steps hst) h }

theorem tried_deployed (squadId : String) (inputs : Json) :
    Tried team (deployed team squadId inputs) where
  busy := fun hn => absurd rfl hn
  few := fun m _ _ => Nat.zero_le _
  alone := List.Pairwise.nil
  left := fun _ c hc => by cases hc
  spent := fun m _ _ hf => absurd hf (by simp [deployed, failures])
  underway := fun b hb => by cases hb
  calls := by
    intro m hm past act later hsplit hf
    have hact : act ∈ (deployed team squadId inputs).trace := by
      rw [hsplit]
      simp
    rw [deployed, List.mem_singleton] at hact
    subst hact
    exact fun hatt => hatt

/-- The execution a driver waits for is the only one of its mission. -/
theorem Tried.withinAttempts (h : Tried team s) (hd : Driven team s) : WithinAttempts team s := by
  refine ⟨h.calls, ?_⟩
  intro b hb hf hr
  obtain ⟨m, hm, he⟩ := hd.known b (List.mem_append_left _ hb)
  have hid : b.mission.id = m.id := by rw [he]
  have hret : b.mission.retries = m.retries := by rw [he]
  rw [hid, hret] at hf
  by_cases hz : m.retries.getD 0 = 0
  · rcases hd.driver with ⟨d, hdr⟩ | ⟨hnil, -⟩
    · rcases (h.spent m hm hz (by omega)).ends with ⟨hidle, -⟩ | ⟨c, hc, hcid, e, hce⟩
      · rw [hdr.phase] at hidle
        cases hidle
      · have heq : b = c :=
          List.inj_on_of_nodup_map hdr.apart hb hc (hid.trans hcid.symm)
        rw [heq, hce] at hr
        cases hr
    · rw [hnil] at hb
      cases hb
  · have hfew := h.few m hm (by omega)
    omega

/-- The bound holds throughout a patient life. -/
theorem withinAttempts_of_along (squadId : String) (inputs : Json) (labels : List Label)
    (h : Along (step cfg team) (Patient team) (deployed team squadId inputs) labels) :
    WithinAttempts team (after cfg team squadId inputs labels) := by
  have hinv : ∀ s l, Patient team s l → Tried team s ∧ Driven team s →
      Tried team (step cfg team s l) ∧ Driven team (step cfg team s l) := by
    rintro s l hok ⟨ht, hd⟩
    have hst := step_cases cfg team s l
    exact ⟨tried_of_steps hst ht hd hok, driven_of_steps hst hd⟩
  obtain ⟨ht, hd⟩ := h.invariant hinv ⟨tried_deployed squadId inputs, driven_deployed squadId inputs⟩
  exact ht.withinAttempts hd

/-! A mission that may be retried once. -/

def retriedOnce : ValidTeam :=
  { team := plainTeam [{ plainMission "m1" with retries := some 1 }], valid := rfl }

/-- A run that gets to the executor and to what follows its answer. -/
def attempting (answer : Except String Json) : List Label :=
  starting ++ spawning answer "m1" :: List.replicate 4 (.advance "m1") ++ [.receive "m1" storing]

def starts : Label → Bool
  | .run _ _ => true
  | _ => false

/-- Patience, where the driver never waits for more than one execution. -/
abbrev PatientAlone (team : ValidTeam) (s : System) (l : Label) : Prop :=
  s.batch.length ≤ 1 ∧
    (starts l = true → s.squad.status = .pending ∨ s.squad.status.paused = true) ∧
    ∀ m ∈ team.team.missions, s.nextAct l = some (.called m.id false) →
      failures s.trace m.id < m.retries.getD 0

theorem patient_of_alone {l : Label} (h : PatientAlone team s l) : Patient team s l := by
  obtain ⟨hlen, hrun, hf⟩ := h
  refine ⟨fun m hm _ => hf m hm, ?_, ?_⟩
  · rintro stream a rfl
    exact hrun rfl
  · rintro left ⟨d, pre, b, post, id, a, -, hb, -, -, -, rfl⟩ c hc
    rw [hb.left_nil hlen] at hc
    cases hc

theorem withinAttempts_recovered :
    WithinAttempts retriedOnce (after plainEngine retriedOnce "s" (.obj [])
      (attempting (.error "e") ++ attempting (.ok (.str "done")))) :=
  withinAttempts_of_along "s" (.obj []) _
    (Along.mono (fun _ _ _ => patient_of_alone) (by decide))

/-- It is tried as often as the squad is woken up, and never fails. -/
theorem not_withinAttempts :
    let s := after plainEngine retriedOnce "s" (.obj [])
      (attempting (.error "e") ++ attempting (.error "e") ++ attempting (.error "e"))
    failures s.trace "m1" = 3 ∧ s.squad.status = .sleeping 1 ∧ ¬ WithinAttempts retriedOnce s := by
  intro s
  refine ⟨by decide, by decide, ?_⟩
  intro h
  refine h.calls _ (List.mem_singleton_self _) (s.trace.take 14) (.called "m1" false)
    (s.trace.drop 15) ?_ ?_ ?_
  · decide
  · decide
  · rfl

end System

end Pandaria.Comp
