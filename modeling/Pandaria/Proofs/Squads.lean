import Pandaria.Gateway.Squads
import Pandaria.Lib.Run
import Pandaria.Proofs.Driving

/-!
# Squads in the registry

A squad is to be found until it is done, and not for ever after. The task that
removes it knows nothing of its status: it ends with its stream. What keeps the
registry right is that streams end with squads, and this is what `Ok` asks for:
no stream ends while the squad is to be run again, and no client leaves as long
as its task is the one that has to remove the squad.
-/

namespace Pandaria.Comp.System

variable {cfg : EngineConfig} {team : ValidTeam} {s s' : System} {l : Label}

theorem isIdle_of_eq {p : Phase} (h : p = .idle) : p.isIdle = true := by
  rw [h]
  rfl

theorem eq_of_isIdle {p : Phase} (h : p.isIdle = true) : p = .idle := by
  cases p with
  | idle => rfl
  | planning stream => cases h
  | driving d => cases h

/-- Between runs nothing but a run changes the status. -/
theorem idle_of_steps (hst : Steps cfg team s l s') (hp : s.phase = .idle) (hl : l.isRun = false) :
    s'.phase = .idle ∧ s'.squad.status = s.squad.status := by
  cases hst with
  | stay hn => exact ⟨hp, rfl⟩
  | deliver _ => exact ⟨hp, rfl⟩
  | start _ _ _ => cases hl
  | startLost _ _ => cases hl
  | drive h _ => exact absurd hp (ne_idle_of_planning h)
  | planFailed h _ _ _ => exact absurd hp (ne_idle_of_planning h)
  | complete h _ => exact absurd hp (ne_idle_of_driving h.phase)
  | stuck h _ _ => exact absurd hp (ne_idle_of_driving h.phase)
  | exceeded h _ => exact absurd hp (ne_idle_of_driving h.phase)
  | managerPanic h _ => exact absurd hp (ne_idle_of_driving h.phase)
  | managerFailed h _ _ => exact absurd hp (ne_idle_of_driving h.phase)
  | schedule h _ => exact absurd hp (ne_idle_of_driving h.phase)
  | spawn h _ _ _ => exact absurd hp (ne_idle_of_driving h)
  | advance _ _ _ => exact ⟨hp, rfl⟩
  | advanceOrphan _ _ _ => exact ⟨hp, rfl⟩
  | receivePanic h _ _ => exact absurd hp (ne_idle_of_driving h.phase)
  | receiveOk h _ _ => exact absurd hp (ne_idle_of_driving h.phase)
  | receiveError h _ _ => exact absurd hp (ne_idle_of_driving h.phase)

theorem not_terminal_of_startable (h : s.Startable true) : s.squad.status.terminal = false := by
  rcases h.2 rfl with hpending | hpaused
  · rw [hpending]
    rfl
  · cases hstatus : s.squad.status with
    | pending | running | waitingForSignal | sleeping | breakpoint => rfl
    | completed | failed =>
        rw [hstatus] at hpaused
        cases hpaused

/-- `run_stream` refuses a squad, or it is `Running` from then on. -/
theorem run_cases {a : DriverAnswers} (hst : Steps cfg team s (.run true a) s') :
    s' = s ∨ s.squad.status.terminal = false ∧ s'.squad.status = .running := by
  cases hst with
  | stay hn => exact .inl rfl
  | start hp ha h' =>
      refine .inr ⟨not_terminal_of_startable hp, ?_⟩
      rw [h']
      rfl
  | startLost hp ha => exact .inr ⟨not_terminal_of_startable hp, rfl⟩

end Pandaria.Comp.System

namespace Pandaria.Gateway

open Pandaria.Comp Pandaria.Comp.System Pandaria.Lib

namespace SquadEntry

variable {cfg : EngineConfig} {team : ValidTeam} {s : SquadEntry}

def terminal (s : SquadEntry) : Bool := s.system.squad.status.terminal

/-- The squad is in the registry until its status is terminal. Then it is
removed, or will be: a task is still forwarding its events, and the channel it
reads is closed as soon as the executions that are left have ended. -/
structure Registered (s : SquadEntry) : Prop where
  stays : s.terminal = false → s.listed = true
  removed : s.terminal = true → s.listed = false ∨
    ∃ i, s.forwards i = true ∧
      ((∀ b ∈ s.system.orphans, b.ended = true) → s.closes i = true)

def Ok (s : SquadEntry) : SquadEntryEvent → Prop
  | .channelClosed i => s.closes i = true → s.terminal = true
  | .sendFailed i => s.forwards i = true → s.terminal = true
  | .disconnect i => s.forwards i = true → s.listed = true →
      s.system.phase.isIdle = false ∨ s.terminal = true →
        ∃ j < s.forwarders.length, j ≠ i ∧ s.forwards j = true
  | .eventsStream | .runStream _ _ | .giveUp _ | .engine _ => True

structure Inv (s : SquadEntry) : Prop where
  busy : s.system.Busy
  stays : s.terminal = false → s.listed = true
  /-- Somebody is there to remove the squad when it is done. -/
  removed : s.system.phase.isIdle = false ∨ s.terminal = true →
    s.listed = false ∨ ∃ i, s.forwards i = true

theorem Inv.registered (h : s.Inv) : s.Registered where
  stays := h.stays
  removed hterminal := by
    rcases h.removed (.inr hterminal) with hlisted | ⟨i, hi⟩
    · exact .inl hlisted
    · refine .inr ⟨i, hi, fun hended => ?_⟩
      have hidle : s.system.phase.isIdle = true := by
        cases hp : s.system.phase.isIdle with
        | true => rfl
        | false =>
            have hrunning := h.busy fun hidle => by rw [hidle] at hp; cases hp
            rw [terminal, hrunning] at hterminal
            cases hterminal
      have hleft : (s.leftBehind i).all Branch.ended = true := by
        refine List.all_eq_true.mpr fun b hb => hended b ?_
        exact List.mem_of_mem_take (List.mem_of_mem_drop hb)
      rw [closes, hi, hidle, hleft, Bool.or_true]
      rfl

theorem forwards_setForwarder {i j : Nat} (h : j ≠ i) (phase : ForwardPhase) :
    (s.setForwarder i phase).forwards j = s.forwards j := by
  rw [forwards, setForwarder, List.getElem?_modify_ne _ _ h.symm]
  rfl

/-- What a task does at its end is right when the squad is done. -/
theorem Inv.remove (h : s.Inv) (hterminal : s.terminal = true) (i : Nat) : (s.remove i).Inv :=
  ⟨h.busy, fun hnot => absurd (hterminal.symm.trans hnot) Bool.noConfusion, fun _ => .inl rfl⟩

/-- A new task at the end. -/
theorem forwards_push (s : SquadEntry) (system : System) (requests : List StreamRequest)
    (before : Nat) :
    forwards { s with
      system := system
      requests := requests
      forwarders := s.forwarders ++ [{ phase := .forwarding, before := before }] }
      s.forwarders.length = true := by
  rw [forwards, List.getElem?_concat_length]
  rfl

theorem Inv.runStream (h : s.Inv) (i : Nat) (a : DriverAnswers) :
    (s.step cfg team (.runStream i a)).Inv := by
  have hst : Steps cfg team s.system (.run true a) (s.system.run true a) := steps_run _ _ a
  have hbusy := busy_of_steps hst h.busy
  rw [SquadEntry.step]
  split
  · dsimp only
    rcases run_cases hst with hrun | ⟨hnot, hrunning⟩
    · rw [hrun]
      split
      · exact ⟨h.busy, h.stays, h.removed⟩
      · exact ⟨h.busy, h.stays, fun _ => .inr ⟨_, forwards_push s _ _ _⟩⟩
    · have hlisted : s.listed = true := h.stays hnot
      split
      · rename_i hidle
        refine ⟨hbusy, fun _ => hlisted, fun hneeded => ?_⟩
        rcases hneeded with hneeded | hneeded
        · exact absurd (hidle.symm.trans hneeded) Bool.noConfusion
        · rw [terminal, hrunning] at hneeded
          cases hneeded
      · exact ⟨hbusy, fun _ => hlisted, fun _ => .inr ⟨_, forwards_push s _ _ _⟩⟩
  · exact h

theorem Inv.engine (h : s.Inv) (l : Label) : (s.step cfg team (.engine l)).Inv := by
  rw [SquadEntry.step]
  split
  · exact h
  · rename_i hl
    have hst := step_cases cfg team s.system l
    have hbusy := busy_of_steps hst h.busy
    cases hidle : s.system.phase.isIdle with
    | true =>
        -- Between runs it is not the engine that does anything to the squad.
        obtain ⟨hphase, hstatus⟩ := idle_of_steps hst (eq_of_isIdle hidle)
          (Bool.eq_false_iff.mpr hl)
        refine ⟨hbusy, fun hnot => h.stays ?_, fun hneeded => h.removed (.inr ?_)⟩
        · rwa [terminal, ← hstatus]
        · rcases hneeded with hneeded | hneeded
          · exact absurd ((isIdle_of_eq hphase).symm.trans hneeded) Bool.noConfusion
          · rwa [terminal, ← hstatus]
    | false =>
        -- The squad is listed while it is run, and its task is there.
        have hrunning := h.busy fun hp => by
          rw [hp] at hidle
          cases hidle
        have hlisted : s.listed = true := h.stays (by rw [terminal, hrunning]; rfl)
        exact ⟨hbusy, fun _ => hlisted, fun _ => h.removed (.inl hidle)⟩

theorem Inv.disconnect (h : s.Inv) {i : Nat} (hok : s.Ok (.disconnect i)) :
    (s.step cfg team (.disconnect i)).Inv := by
  rw [step]
  split
  · rename_i hi
    refine ⟨h.busy, h.stays, fun hneeded => ?_⟩
    cases hlisted : s.listed with
    | false => exact .inl hlisted
    | true =>
        obtain ⟨j, -, hne, hj⟩ := hok hi hlisted hneeded
        exact .inr ⟨j, (forwards_setForwarder hne _).trans hj⟩
  · exact h

theorem Inv.step (h : s.Inv) (e : SquadEntryEvent) (hok : s.Ok e) : (s.step cfg team e).Inv := by
  cases e with
  | eventsStream =>
      rw [SquadEntry.step]
      split
      · exact ⟨h.busy, h.stays, h.removed⟩
      · exact h
  | runStream i a => exact h.runStream i a
  | giveUp i => exact ⟨h.busy, h.stays, h.removed⟩
  | engine l => exact h.engine l
  | channelClosed i =>
      rw [SquadEntry.step]
      split
      · rename_i hi
        exact h.remove (hok hi) i
      · exact h
  | sendFailed i =>
      rw [SquadEntry.step]
      split
      · rename_i hi
        exact h.remove (hok hi) i
      · exact h
  | disconnect i => exact h.disconnect hok

theorem registered_of_along_ok (cfg : EngineConfig) (team : ValidTeam) (squadId : String)
    (inputs : Ai.Json) (events : List SquadEntryEvent)
    (h : Along (step cfg team) Ok (deployed team squadId inputs) events) :
    (events.foldl (step cfg team) (deployed team squadId inputs)).Registered := by
  have hstart : (deployed team squadId inputs).Inv :=
    ⟨fun hn => absurd rfl hn, fun _ => rfl, fun hor => by rcases hor with h | h <;> cases h⟩
  have hinv : (events.foldl (step cfg team) (deployed team squadId inputs)).Inv := by
    refine Along.invariant (fun s e hok hs => ?_) hstart h
    exact hs.step e hok
  exact hinv.registered

/-! ## Streams that end early -/

instance (s : SquadEntry) : ∀ e, Decidable (s.Ok e)
  | .channelClosed i => inferInstanceAs (Decidable (s.closes i = true → s.terminal = true))
  | .sendFailed i => inferInstanceAs (Decidable (s.forwards i = true → s.terminal = true))
  | .disconnect i => inferInstanceAs (Decidable (s.forwards i = true → s.listed = true →
      s.system.phase.isIdle = false ∨ s.terminal = true →
        ∃ j < s.forwarders.length, j ≠ i ∧ s.forwards j = true))
  | .eventsStream | .runStream _ _ | .giveUp _ | .engine _ => inferInstanceAs (Decidable True)

theorem oneMission_valid : (plainTeam [plainMission "m1"]).validate = .ok () := rfl

def oneMission : ValidTeam := { team := plainTeam [plainMission "m1"], valid := oneMission_valid }

def oneWaiting : ValidTeam :=
  { team := plainTeam [{ plainMission "m1" with waitForSignal := some "go" }]
    valid := rfl }

/-- A request, and the run it starts up to the execution of the mission. -/
def streaming : List SquadEntryEvent :=
  [.eventsStream, .runStream 0 storing, .engine (.plan (.error "") storing),
    .engine (.head none storing), .engine (spawning (.ok (.str "done")) "m1")]

/-- The execution does what it has to do, and the run goes to its end. -/
def finishing : List SquadEntryEvent :=
  [.engine (.advance "m1"), .engine (.advance "m1"), .engine (.advance "m1"),
    .engine (.advance "m1"), .engine (.receive "m1" storing), .engine (.head none storing)]

/-- A run to its end, and its stream. -/
theorem registered_completed :
    ((streaming ++ finishing ++ [SquadEntryEvent.channelClosed 0]).foldl
      (step plainEngine oneMission) (deployed oneMission "s" (.obj []))).Registered := by
  refine registered_of_along_ok plainEngine oneMission "s" (.obj []) _ ?_
  decide +kernel

/-- The mission waits for a signal, and the stream ends. -/
def paused : SquadEntry :=
  (streaming ++ [SquadEntryEvent.engine (.advance "m1"), .engine (.receive "m1" storing),
    .channelClosed 0]).foldl (step plainEngine oneWaiting) (deployed oneWaiting "s" (.obj []))

/-- The client leaves while the mission is executed. -/
def abandoned : SquadEntry :=
  (streaming ++ [SquadEntryEvent.disconnect 0] ++ finishing).foldl
    (step plainEngine oneMission) (deployed oneMission "s" (.obj []))

theorem forwards_of_all_aborted (h : ∀ f ∈ s.forwarders, f.phase = .aborted) (i : Nat) :
    s.forwards i = false := by
  rw [forwards]
  cases hi : s.forwarders[i]? with
  | none => rfl
  | some f =>
      have hf := h f (List.mem_of_getElem? hi)
      rw [Option.any_some, hf]
      rfl

/-- A squad that waits for a signal is removed with its stream, and one that
completes after its client has left stays. -/
theorem not_registered_paused_or_abandoned :
    (paused.system.squad.status = .waitingForSignal "go" ∧ paused.listed = false ∧
      ¬ paused.Registered) ∧
    (abandoned.system.squad.status = .completed ∧ abandoned.listed = true ∧
      ¬ abandoned.Registered) := by
  have hpaused : paused.system.squad.status = .waitingForSignal "go" := by decide +kernel
  have hremoved : paused.listed = false := by decide +kernel
  have hcompleted : abandoned.system.squad.status = .completed := by decide +kernel
  have hlisted : abandoned.listed = true := by decide +kernel
  have haborted : ∀ f ∈ abandoned.forwarders, f.phase = .aborted := by decide +kernel
  refine ⟨⟨hpaused, hremoved, fun h => ?_⟩, ⟨hcompleted, hlisted, fun h => ?_⟩⟩
  · have hstays := h.stays (by rw [terminal, hpaused]; rfl)
    exact absurd (hstays.symm.trans hremoved) Bool.noConfusion
  · rcases h.removed (by rw [terminal, hcompleted]; rfl) with hgone | ⟨i, hi, -⟩
    · exact absurd (hlisted.symm.trans hgone) Bool.noConfusion
    · rw [forwards_of_all_aborted haborted i] at hi
      cases hi

end SquadEntry

end Pandaria.Gateway
