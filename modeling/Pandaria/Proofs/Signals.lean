import Pandaria.Proofs.EngineSteps
import Pandaria.Lib.Run

/-!
# Signals and the missions they release

A signal that is sent is one credit under its name, and a mission that goes on
from its wait spends one. `Accounted` asks that no name is overspent and that
the squad holds a name exactly while a credit is left under it. A mission takes
its signal from its own clone of the squad, so the squad never loses one, and
what is left of `Accounted` after a mission was released is whether its name
has been sent often enough for the signal to stay rightly.
-/

namespace Pandaria.Comp

open Pandaria.Lib

variable {cfg : EngineConfig} {team : ValidTeam}

def deliveries (t : List Act) (signal : String) : Nat := t.count (.delivered signal)

/-- The missions a signal has released. -/
def releases (t : List Act) (signal : String) : Nat :=
  t.countP fun
    | .took _ name => name = signal
    | _ => false

@[simp]
theorem deliveries_append (t t' : List Act) (signal : String) :
    deliveries (t ++ t') signal = deliveries t signal + deliveries t' signal :=
  List.count_append

@[simp]
theorem releases_append (t t' : List Act) (signal : String) :
    releases (t ++ t') signal = releases t signal + releases t' signal :=
  List.countP_append

@[simp]
theorem deliveries_emit (es : List SquadEvent) (signal : String) :
    deliveries (es.map .emit) signal = 0 := by
  rw [deliveries, List.count_eq_zero]
  simp

@[simp]
theorem releases_emit (es : List SquadEvent) (signal : String) :
    releases (es.map .emit) signal = 0 := by
  rw [releases, List.countP_eq_zero]
  simp

namespace System

def Accounted (s : System) : Prop :=
  ∀ signal, releases s.trace signal ≤ deliveries s.trace signal ∧
    (signal ∈ s.squad.receivedSignals ↔ releases s.trace signal < deliveries s.trace signal)

/-- No mission takes a signal unless, with this mission counted, the signal has
been sent more often than missions were released by it. -/
def Spares (s : System) (l : Label) : Prop :=
  ∀ missionId signal, s.nextAct l = some (.took missionId signal) →
    releases s.trace signal + 1 < deliveries s.trace signal

/-- What an execution may still do to signals: take what has been sent. -/
def Backed (t : List Act) : Act → Prop
  | .took _ signal => 0 < deliveries t signal
  | .delivered _ => False
  | _ => True

/-- The squad holds the signals that were ever sent, and so does every clone an
execution takes its own from. -/
structure Heard (s : System) : Prop where
  received : ∀ signal, signal ∈ s.squad.receivedSignals ↔ 0 < deliveries s.trace signal
  acts : ∀ b ∈ s.branches, ∀ act ∈ b.acts, Backed s.trace act

theorem Backed.mono {t t' : List Act} {act : Act} (h : Backed t act) :
    Backed (t ++ t') act := by
  cases act with
  | took missionId signal =>
      have ht : 0 < deliveries t signal := h
      show 0 < deliveries (t ++ t') signal
      rw [deliveries_append]
      omega
  | delivered signal => exact h
  | emit e => trivial
  | called missionId succeeded => trivial

/-- An execution takes a signal of its clone, and sends none. -/
theorem backed_of_executed {a : MissionAnswers} {m : Mission} {s : Squad} {x : Execution}
    {t : List Act} (h : Executed a m s x)
    (hs : ∀ signal, signal ∈ s.receivedSignals → 0 < deliveries t signal) :
    ∀ act ∈ x.acts, Backed t act := by
  intro act hact
  rcases executed_act_cases h hact with ⟨signal, hmem, rfl⟩ | ⟨b, rfl⟩ | ⟨e, rfl, -⟩
  · exact hs signal hmem
  · trivial
  · trivial

/-! ## One step -/

theorem heard_of_moves {s s' : System} {l : Label} (hm : Moves cfg s s' l) (h : s.Heard) :
    s'.Heard := by
  cases hm with
  | driver events hn hev htrace hbs hsig =>
      constructor
      · intro signal
        rw [hsig, htrace, deliveries_append, deliveries_emit, h.received, Nat.add_zero]
      · intro b hb act hact
        rw [htrace]
        exact (h.acts b (hbs b hb) act hact).mono
  | deliver signal hn htrace hbs hsig =>
      constructor
      · intro name
        rw [hsig, htrace, deliveries_append, Finset.mem_insert, h.received]
        by_cases hname : name = signal
        · subst hname
          simp [deliveries]
        · have hname' : signal ≠ name := fun e => hname e.symm
          simp [deliveries, hname, hname']
      · intro b hb act hact
        rw [htrace]
        exact (h.acts b (hbs b hb) act hact).mono
  | spawn a m hp hn htrace hbs hsig =>
      constructor
      · intro signal
        rw [hsig, htrace, h.received]
      · intro b hb act hact
        rw [htrace]
        rcases hbs b hb with hb | rfl
        · exact h.acts b hb act hact
        · refine backed_of_executed (executeMission_cases cfg a s.squad m) ?_ act hact
          intro signal hmem
          exact (h.received signal).mp hmem
  | act b act rest hn hb ha htrace hbs hsig =>
      have hback : Backed s.trace act := h.acts b hb act (by rw [ha]; exact List.mem_cons_self)
      constructor
      · intro signal
        rw [hsig, htrace, deliveries_append, h.received]
        cases act with
        | delivered name => exact absurd hback id
        | took missionId name => simp [deliveries]
        | emit e => simp [deliveries]
        | called missionId succeeded => simp [deliveries]
      · intro c hc act' hact'
        rw [htrace]
        rcases hbs c hc with hc | rfl
        · exact (h.acts c hc act' hact').mono
        · exact (h.acts b hb act' (by rw [ha]; exact List.mem_cons_of_mem _ hact')).mono

/-- From an accounted state a step stays accounted exactly when it spares. -/
theorem accounted_iff_spares {s s' : System} {l : Label} (hm : Moves cfg s s' l) (h : s.Heard)
    (ha : s.Accounted) : s'.Accounted ↔ s.Spares l := by
  have hquiet : s.nextAct l = none → s.Spares l := by
    intro hn missionId signal h
    rw [hn] at h
    cases h
  cases hm with
  | driver events hn hev htrace hbs hsig =>
      refine iff_of_true ?_ (hquiet hn)
      intro signal
      rw [hsig, htrace, releases_append, deliveries_append, releases_emit, deliveries_emit]
      exact ha signal
  | deliver signal hn htrace hbs hsig =>
      refine iff_of_true ?_ (hquiet hn)
      intro name
      obtain ⟨hle, hiff⟩ := ha name
      have hrel : releases [Act.delivered signal] name = 0 := rfl
      rw [hsig, htrace, releases_append, deliveries_append, hrel, Finset.mem_insert, hiff]
      by_cases hname : name = signal
      · subst hname
        have hdel : deliveries [Act.delivered name] name = 1 := by simp [deliveries]
        rw [hdel]
        constructor
        · omega
        · constructor
          · intro _
            omega
          · intro _
            exact .inl rfl
      · have hdel : deliveries [Act.delivered signal] name = 0 := by
          have hname' : signal ≠ name := fun e => hname e.symm
          simp [deliveries, hname']
        rw [hdel]
        constructor
        · omega
        · simp [hname]
  | spawn a m hp hn htrace hbs hsig =>
      refine iff_of_true ?_ (hquiet hn)
      intro signal
      rw [hsig, htrace]
      exact ha signal
  | act b act rest hn hb hacts htrace hbs hsig =>
      have hback : Backed s.trace act :=
        h.acts b hb act (by rw [hacts]; exact List.mem_cons_self)
      cases act with
      | delivered name => exact absurd hback id
      | took missionId name =>
          have hdel : ∀ signal, deliveries [Act.took missionId name] signal = 0 := fun _ => rfl
          have hrel : ∀ signal, releases [Act.took missionId name] signal =
              if name = signal then 1 else 0 := by
            intro signal
            simp [releases, List.countP_cons]
          constructor
          · intro ha' missionId' signal hs
            rw [hn] at hs
            injection hs with hs
            injection hs with _ hs
            subst hs
            obtain ⟨hle, hiff⟩ := ha' name
            rw [hsig, htrace, releases_append, deliveries_append, hdel, hrel, if_pos rfl,
              h.received] at hiff
            have hlt := hiff.mp hback
            omega
          · intro hs signal
            rw [hsig, htrace, releases_append, deliveries_append, hdel, hrel]
            by_cases hname : name = signal
            · subst hname
              have hlt := hs missionId name hn
              rw [if_pos rfl, h.received]
              constructor
              · omega
              · constructor
                · intro _
                  omega
                · intro _
                  exact hback
            · rw [if_neg hname]
              exact ha signal
      | emit e =>
          refine iff_of_true ?_ ?_
          · intro signal
            rw [hsig, htrace, releases_append, deliveries_append]
            exact ha signal
          · intro missionId signal hs
            rw [hn] at hs
            cases hs
      | called missionId succeeded =>
          refine iff_of_true ?_ ?_
          · intro signal
            rw [hsig, htrace, releases_append, deliveries_append]
            exact ha signal
          · intro missionId signal hs
            rw [hn] at hs
            cases hs

/-! ## Whole lives -/

/-- Signals are accounted for throughout a squad's life exactly when every step
of it spares. -/
theorem accounted_iff_along_spares (cfg : EngineConfig) (team : ValidTeam) (squadId : String)
    (inputs : Ai.Json) (labels : List Label) :
    (∀ n, (after cfg team squadId inputs (labels.take n)).Accounted) ↔
      Along (step cfg team) Spares (deployed team squadId inputs) labels := by
  have hinit : (deployed team squadId inputs).Heard ∧ (deployed team squadId inputs).Accounted := by
    refine ⟨⟨?_, ?_⟩, ?_⟩
    · intro signal
      exact iff_of_false (Finset.notMem_empty signal) (by simp [deployed, deliveries])
    · intro b hb
      cases hb
    · intro signal
      exact ⟨Nat.le_refl _, iff_of_false (Finset.notMem_empty signal) (Nat.lt_irrefl _)⟩
  have hstep : ∀ s l, s.Heard ∧ s.Accounted →
      ((step cfg team s l).Heard ∧ (step cfg team s l).Accounted ↔ s.Spares l) := by
    rintro s l ⟨hh, ha⟩
    have hm := moves cfg team s l
    rw [accounted_iff_spares hm hh ha]
    exact and_iff_right (heard_of_moves hm hh)
  rw [← along_iff_forall_take hstep hinit labels]
  constructor
  · intro h n
    refine ⟨?_, h n⟩
    exact foldl_invariant (fun s l hs => heard_of_moves (moves cfg team s l) hs) hinit.1 _
  · intro h n
    exact (h n).2

/-- Two missions that wait for the same signal. -/
def bothWaiting : ValidTeam :=
  { team := plainTeam [{ plainMission "m1" with waitForSignal := some "go" },
      { plainMission "m2" with waitForSignal := some "go" }]
    valid := rfl }

/-- Sent once, the signal releases both, and the squad still has it. -/
theorem not_accounted :
    let s := after plainEngine bothWaiting "s" (.obj []) (.sendSignal "go" :: starting ++
      [spawning (.ok (.str "done")) "m1", spawning (.ok (.str "done")) "m2",
        .advance "m1", .advance "m2"])
    deliveries s.trace "go" = 1 ∧ releases s.trace "go" = 2 ∧
      "go" ∈ s.squad.receivedSignals ∧ ¬ s.Accounted := by
  intro s
  have hdel : deliveries s.trace "go" = 1 := by decide
  have hrel : releases s.trace "go" = 2 := by decide
  have hmem : "go" ∈ s.squad.receivedSignals := by decide
  refine ⟨hdel, hrel, hmem, ?_⟩
  intro h
  have hle := (h "go").1
  omega

end System

end Pandaria.Comp
