import Pandaria.Comp.Engine

/-!
# What one execution of a mission can do

`Executed` lists the ways an execution can end, with all it does on the way.
Everything proved about executions is a case analysis of it, and nothing below
unfolds `executeMission` again.
-/

namespace Pandaria.Comp

open Pandaria.Ai

/-- The signal a mission waits for is taken when it is there. -/
def takenActs (m : Mission) (s : Squad) : List Act :=
  match m.waitForSignal with
  | some signal => if signal ∈ s.receivedSignals then [.took m.id signal] else []
  | none => []

/-- What an execution does up to the executor's call. -/
def openingActs (a : MissionAnswers) (m : Mission) (s : Squad) : List Act :=
  takenActs m s ++ [.emit (.missionScheduled m.id 1), .emit (.missionStarted m.id a.startedAt)]

inductive Executed (a : MissionAnswers) (m : Mission) (s : Squad) (x : Execution) : Prop where
  /-- It does not get to the executor. -/
  | stopped (hacts : x.acts <+: openingActs a m s) (hr : x.result ≠ some (.ok ()))
  | waiting (signal : String) (hm : m.waitForSignal = some signal)
      (hs : signal ∉ s.receivedSignals)
      (hacts : x.acts = [.emit (.missionWaitingForSignal m.id signal 1)])
      (hr : x.result = some (.ok ())) (hc : x.squad.context = s.context)
      (hst : x.squad.status = .waitingForSignal signal)
  /-- What comes after the call fails. -/
  | answered (succeeded : Bool) (hacts : x.acts = openingActs a m s ++ [.called m.id succeeded])
      (hr : x.result ≠ some (.ok ())) (hp : x.result = none → 0 < m.retries.getD 0)
  | completed (handoff : Option Handoff) (value : Json)
      (hacts : x.acts = openingActs a m s ++ [.called m.id true,
        .emit (.missionCompleted m.id value m.outputKey a.completedAt)])
      (hr : x.result = some (.ok ()))
      (hc : x.squad.context = storeOutput a m handoff value s.context)
      (hst : x.squad.status = if m.breakpoint then .breakpoint m.id else s.status)
  | retrying (reason : String) (wakeAt : SystemTime) (hm : 0 < m.retries.getD 0)
      (hacts : x.acts = openingActs a m s ++ [.called m.id false,
        .emit (.missionRetryScheduled m.id 2 reason wakeAt)])
      (hr : x.result = some (.ok ())) (hc : x.squad.context = s.context)
      (hst : x.squad.status = .sleeping wakeAt)
  | failed (reason : String) (hm : m.retries.getD 0 = 0)
      (hacts : x.acts = openingActs a m s ++ [.called m.id false,
        .emit (.missionFailed m.id reason 1 false)])
      (hr : x.result = some (.error (.missionFailed m.id 1 reason)))

variable {cfg : EngineConfig} {a : MissionAnswers} {m : Mission} {s : Squad} {x : Execution}

theorem emit_cases (x : Execution) (a : MissionAnswers) (e : SquadEvent)
    (k : Execution → Execution) :
    (∃ err, x.emit a e k = x.fail err) ∨ x.emit a e k = k (x.act (.emit e)) := by
  rw [Execution.emit]
  split
  · exact .inl ⟨_, rfl⟩
  · exact .inr rfl

/-- After an output. -/
theorem executed_completeMission {content : Json} (hacts : x.acts = openingActs a m s)
    (hr : x.result = some (.ok ())) (hc : x.squad.context = s.context)
    (hst : x.squad.status = s.status) :
    Executed a m s (completeMission cfg a m content (x.act (.called m.id true))) := by
  have hcall : (x.act (.called m.id true)).acts = openingActs a m s ++ [.called m.id true] := by
    rw [Execution.act, hacts]
  rw [completeMission]
  split
  · exact .answered true hcall (by simp [Execution.fail]) nofun
  · next handoff value _ =>
      simp only []
      rcases emit_cases { x.act (.called m.id true) with
          squad.context := storeOutput a m handoff value x.squad.context } a
        (.missionCompleted m.id value m.outputKey a.completedAt)
        (fun x => if m.breakpoint then x.setStatus (.breakpoint m.id) else x) with
        ⟨err, he⟩ | he
      · rw [Execution.act] at he ⊢
        rw [he]
        exact .answered true hcall (by simp [Execution.fail]) nofun
      · rw [Execution.act] at he ⊢
        rw [he]
        refine .completed handoff value ?_ ?_ ?_ ?_
        · split <;> simp [Execution.setStatus, Execution.act, hacts]
        · split <;> exact hr
        · split <;> simp [Execution.setStatus, Execution.act, hc]
        · split
          · rfl
          · exact hst

/-- After an error of the executor. -/
theorem executed_retryOrFail {reason : String} (hacts : x.acts = openingActs a m s)
    (hr : x.result = some (.ok ())) (hc : x.squad.context = s.context) :
    Executed a m s
      (retryOrFail a m (m.retries.getD 0 + 1) 1 reason (x.act (.called m.id false))) := by
  have hcall : (x.act (.called m.id false)).acts = openingActs a m s ++ [.called m.id false] := by
    rw [Execution.act, hacts]
  rw [retryOrFail]
  split
  · next hm =>
      split
      · exact .answered false hcall (by simp [Execution.panic]) fun _ => by omega
      · next wakeAt _ =>
          rcases emit_cases (x.act (.called m.id false)) a
            (.missionRetryScheduled m.id (1 + 1) reason wakeAt)
            (fun x => x.setStatus (.sleeping wakeAt)) with ⟨err, he⟩ | he
          · rw [he]
            exact .answered false hcall (by simp [Execution.fail]) nofun
          · rw [he]
            exact .retrying reason wakeAt (by omega)
              (by simp [Execution.setStatus, Execution.act, hacts]) hr hc rfl
  · next hm =>
      rcases emit_cases (x.act (.called m.id false)) a (.missionFailed m.id reason 1 false)
        (fun x => x.fail (.missionFailed m.id 1 reason)) with ⟨err, he⟩ | he
      · rw [he]
        exact .answered false hcall (by simp [Execution.fail]) nofun
      · rw [he]
        exact .failed reason (by omega) (by simp [Execution.fail, Execution.act, hacts]) rfl

theorem executed_attemptMission (hacts : x.acts = takenActs m s)
    (hr : x.result = some (.ok ())) (hc : x.squad.context = s.context)
    (hst : x.squad.status = s.status) :
    Executed a m s (attemptMission cfg a m (m.retries.getD 0 + 1) 1 x) := by
  have h₀ : openingActs a m s = x.acts ++
      [.emit (.missionScheduled m.id 1), .emit (.missionStarted m.id a.startedAt)] := by
    rw [openingActs, hacts]
  rw [attemptMission]
  rcases emit_cases x a (.missionScheduled m.id 1) _ with ⟨err, he⟩ | he
  · rw [he]
    exact .stopped ⟨_, h₀.symm⟩ (by simp [Execution.fail])
  · rw [he]
    have h₁ : openingActs a m s =
        (x.act (.emit (.missionScheduled m.id 1))).acts ++
          [.emit (.missionStarted m.id a.startedAt)] := by
      rw [h₀, Execution.act, List.append_assoc]
      rfl
    split
    · exact .stopped ⟨_, h₁.symm⟩ (by simp [Execution.fail])
    · split
      · exact .stopped ⟨_, h₁.symm⟩ (by simp [Execution.fail])
      · rcases emit_cases (x.act (.emit (.missionScheduled m.id 1))) a
          (.missionStarted m.id a.startedAt) _ with ⟨err, he⟩ | he
        · rw [he]
          exact .stopped ⟨_, h₁.symm⟩ (by simp [Execution.fail])
        · rw [he]
          have h₂ : ((x.act (.emit (.missionScheduled m.id 1))).act
              (.emit (.missionStarted m.id a.startedAt))).acts = openingActs a m s := by
            rw [h₁]
            rfl
          split
          · exact .stopped (by rw [Execution.panic, h₂]) (by simp [Execution.panic])
          · exact executed_completeMission h₂ hr hc hst
          · exact executed_retryOrFail h₂ hr hc

theorem executeMission_cases (cfg : EngineConfig) (a : MissionAnswers) (s : Squad) (m : Mission) :
    Executed a m s (executeMission cfg a s m) := by
  rw [executeMission]
  simp only []
  split
  · exact .stopped List.nil_prefix (by simp [Execution.panic])
  · split
    · next hm =>
        exact executed_attemptMission (by rw [takenActs, hm]; rfl) rfl rfl rfl
    · next signal hm =>
        by_cases hs : signal ∈ s.receivedSignals
        · rw [Squad.takeSignal, if_pos (by simpa using hs)]
          exact executed_attemptMission (by rw [takenActs, hm]; simp [Execution.act, hs]; rfl) rfl
            rfl rfl
        · rw [Squad.takeSignal, if_neg (by simpa using hs)]
          rcases emit_cases ((Execution.start s).setStatus (.waitingForSignal signal)) a
            (.missionWaitingForSignal m.id signal 1) (fun x => x) with ⟨err, he⟩ | he
          · rw [he]
            exact .stopped List.nil_prefix (by simp [Execution.fail])
          · rw [he]
            exact .waiting signal hm hs rfl rfl rfl rfl

/-! ## The acts of an execution -/

/-- An act of an execution of the mission `id`. -/
def Act.Of (id : String) : Act → Prop
  | .took id' _ | .called id' _ => id' = id
  | .emit (.missionScheduled id' _) | .emit (.missionStarted id' _)
  | .emit (.missionCompleted id' _ _ _) | .emit (.missionFailed id' _ _ _)
  | .emit (.missionWaitingForSignal id' _ _) | .emit (.missionRetryScheduled id' _ _ _) => id' = id
  | _ => False

/-- Up to the call a mission takes a signal that is there and says that it starts. -/
theorem openingActs_cases {act : Act} (h : act ∈ openingActs a m s) :
    (∃ signal ∈ s.receivedSignals, act = .took m.id signal) ∨
      act = .emit (.missionScheduled m.id 1) ∨ act = .emit (.missionStarted m.id a.startedAt) := by
  rw [openingActs, takenActs, List.mem_append] at h
  rcases h with h | h
  · split at h
    · next signal _ =>
        split at h
        · next hs =>
            rw [List.mem_singleton] at h
            exact .inl ⟨signal, hs, h⟩
        · cases h
    · cases h
  · simp only [List.mem_cons, List.not_mem_nil, or_false] at h
    exact .inr h

/-- The executor is called last of these. -/
theorem not_called_openingActs {id : String} {b : Bool} : .called id b ∉ openingActs a m s := by
  intro h
  rcases openingActs_cases h with ⟨signal, -, h⟩ | h | h
  · cases h
  · cases h
  · cases h

/-- What comes after the opening, and how it ends. -/
theorem acts_cases (h : Executed a m s x) :
    x.acts <+: openingActs a m s ∨
      (∃ signal, x.acts = [.emit (.missionWaitingForSignal m.id signal 1)]) ∨
      ∃ b rest, x.acts = openingActs a m s ++ .called m.id b :: rest ∧
        (rest = [] ∨ (∃ value, b = true ∧
            rest = [.emit (.missionCompleted m.id value m.outputKey a.completedAt)]) ∨
          (∃ reason wakeAt, b = false ∧
            rest = [.emit (.missionRetryScheduled m.id 2 reason wakeAt)]) ∨
          ∃ reason, b = false ∧ rest = [.emit (.missionFailed m.id reason 1 false)]) := by
  cases h with
  | stopped hacts hr => exact .inl hacts
  | waiting signal hm hn hacts hr hc hst => exact .inr (.inl ⟨signal, hacts⟩)
  | answered succeeded hacts hr hp => exact .inr (.inr ⟨succeeded, [], hacts, .inl rfl⟩)
  | completed handoff value hacts hr hc hst =>
      exact .inr (.inr ⟨true, _, hacts, .inr (.inl ⟨value, rfl, rfl⟩)⟩)
  | retrying reason wakeAt hm hacts hr hc hst =>
      exact .inr (.inr ⟨false, _, hacts, .inr (.inr (.inl ⟨reason, wakeAt, rfl, rfl⟩))⟩)
  | failed reason hm hacts hr =>
      exact .inr (.inr ⟨false, _, hacts, .inr (.inr (.inr ⟨reason, rfl, rfl⟩))⟩)

/-- An execution takes signals its squad holds, calls the executor, and announces. -/
theorem executed_act_cases (h : Executed a m s x) {act : Act} (hact : act ∈ x.acts) :
    (∃ signal ∈ s.receivedSignals, act = .took m.id signal) ∨
      (∃ b, act = .called m.id b) ∨ ∃ e, act = .emit e ∧ (Act.emit e).Of m.id := by
  have hopen : act ∈ openingActs a m s → (∃ signal ∈ s.receivedSignals, act = .took m.id signal) ∨
      (∃ b, act = .called m.id b) ∨ ∃ e, act = .emit e ∧ (Act.emit e).Of m.id := by
    intro hact
    rcases openingActs_cases hact with htook | rfl | rfl
    · exact .inl htook
    · exact .inr (.inr ⟨_, rfl, rfl⟩)
    · exact .inr (.inr ⟨_, rfl, rfl⟩)
  rcases acts_cases h with hpre | ⟨signal, he⟩ | ⟨b, rest, he, hrest⟩
  · exact hopen (hpre.subset hact)
  · rw [he, List.mem_singleton] at hact
    exact .inr (.inr ⟨_, hact, rfl⟩)
  · rw [he, List.mem_append, List.mem_cons] at hact
    rcases hact with hact | rfl | hact
    · exact hopen hact
    · exact .inr (.inl ⟨b, rfl⟩)
    · rcases hrest with rfl | ⟨v, -, rfl⟩ | ⟨r, w, -, rfl⟩ | ⟨r, -, rfl⟩
      · cases hact
      · exact .inr (.inr ⟨_, List.mem_singleton.mp hact, rfl⟩)
      · exact .inr (.inr ⟨_, List.mem_singleton.mp hact, rfl⟩)
      · exact .inr (.inr ⟨_, List.mem_singleton.mp hact, rfl⟩)

theorem of_executed (h : Executed a m s x) {act : Act} (hact : act ∈ x.acts) : act.Of m.id := by
  rcases executed_act_cases h hact with ⟨signal, -, rfl⟩ | ⟨b, rfl⟩ | ⟨e, rfl, he⟩
  · exact rfl
  · exact rfl
  · exact he

/-- A list cut at a call is cut after the opening. -/
theorem cut_at_call {past rest : List Act} {id : String} {b : Bool} (h : Executed a m s x)
    (hx : x.acts = past ++ .called id b :: rest) :
    id = m.id ∧ past = openingActs a m s ∧
      (rest = [] ∨ (∃ value, b = true ∧
          rest = [.emit (.missionCompleted m.id value m.outputKey a.completedAt)]) ∨
        (∃ reason wakeAt, b = false ∧
          rest = [.emit (.missionRetryScheduled m.id 2 reason wakeAt)]) ∨
        ∃ reason, b = false ∧ rest = [.emit (.missionFailed m.id reason 1 false)]) := by
  have hmem : .called id b ∈ x.acts := by
    rw [hx]
    simp
  rcases acts_cases h with hpre | ⟨signal, he⟩ | ⟨b', rest', he, hrest⟩
  · exact absurd (hpre.subset hmem) not_called_openingActs
  · rw [he, List.mem_singleton] at hmem
    cases hmem
  · have hno : ∀ act ∈ rest', ∀ id b, act ≠ .called id b := by
      rintro act hact id b rfl
      rcases hrest with rfl | ⟨v, -, rfl⟩ | ⟨r, w, -, rfl⟩ | ⟨r, -, rfl⟩ <;> simp at hact
    rw [he] at hx
    rcases List.append_eq_append_iff.mp hx with ⟨d, hd, hc⟩ | ⟨d, hd, hc⟩
    · cases d with
      | nil =>
          injection hc with h₁ h₂
          injection h₁ with h₁ h₃
          subst h₁ h₂ h₃
          exact ⟨rfl, by rw [hd, List.append_nil], hrest⟩
      | cons c d =>
          injection hc with h₁ h₂
          refine absurd rfl (hno (.called id b) ?_ id b)
          rw [h₂]
          simp
    · cases d with
      | nil =>
          injection hc with h₁ h₂
          injection h₁ with h₁ h₃
          subst h₁ h₂ h₃
          exact ⟨rfl, by rw [hd, List.append_nil], hrest⟩
      | cons c d =>
          injection hc with h₁ h₂
          subst h₁
          refine absurd ?_ (@not_called_openingActs a m s id b)
          rw [hd]
          simp

end Pandaria.Comp
