import Mathlib.Algebra.GroupWithZero.Nat
import Pandaria.Lib.Run
import Pandaria.Lib.Threads
import Pandaria.Proofs.CallSteps
import Pandaria.Tenant.Turns

/-!
# Turns and their indexes

The turns that were started, the one that is about to start and those that wait
stand in one line. Its indexes increase as long as nobody asks for the actor
before somebody with a smaller index, and when no prompt is rejected nobody
leaves the line, so the counter is how many stand in it and before it. That the
indexes are distinct takes nothing but a counter that does not go round.
-/

namespace Pandaria.Tenant

open Pandaria.Ai Pandaria.Lib
open Pandaria.Agent

variable {cfg : SessionConfig} {env : Env} {s : Turns}

namespace Turns

/-- The turn that has the actor and is not started yet. -/
def opening (s : Turns) : List Turn :=
  if isPrompt s.call then s.running.toList else []

/-- All indexes that were handed out. -/
def indexes (s : Turns) : List Nat :=
  (s.numbered ++ s.waiting ++ s.running.toList).map Turn.index ++ s.returned

/-- The indexes are distinct and in the order the
turns were started in, and the counter says how many turns there are, the
started ones and those that are still to start. -/
structure InOrder (s : Turns) : Prop where
  distinct : s.indexes.Nodup
  ordered : s.started.Pairwise (· < ·)
  counted : s.turnCounter =
    s.started.length + (s.opening.length + s.waiting.length + s.numbered.length)

/-- The message of a prompt that has not got as far as its run. -/
def message? (c : Call) : Option (List Content) :=
  match c.phase with
  | .prompt content => some content
  | _ => none

/-- The skill that a message invokes. -/
def invoked (content : List Content) : Option String :=
  match content with
  | [.text text _] => Call.parseSkillInvocation text
  | _ => none

/-- The prompt is not rejected: the session is not in its error state, and a
skill that the message invokes is there and can be read. -/
def accepts (cfg : SessionConfig) (env : Env) (content : List Content) (a : SessionActor) : Bool :=
  a.machine.state ≠ .error &&
    (invoked content).all fun name =>
      (cfg.skills.find? fun skill => skill.name = name).isSome &&
        (env.readSkill (Call.restore env a).world.now).isOk

/-- The counter does not go round; a call asks for the actor behind all calls
with a smaller index; and no prompt is rejected. -/
def Ok (cfg : SessionConfig) (env : Env) (s : Turns) : TurnEvent → Prop
  | .number _ => s.turnCounter + 1 < 2 ^ 64
  | .lock i => ∀ turn ∈ s.numbered[i]?, ∀ other ∈ s.numbered, turn.index ≤ other.index
  | .advance =>
      ∀ content ∈ message? s.call, s.running.isSome → accepts cfg env content s.call.actor = true
  | .call _ | .refuse _ | .grant | .unlock | .reset => True

/-! ## The prompt -/

theorem stepPrompt_head {c : Call} {content : List Content}
    (h : accepts cfg env content c.actor = true) :
    ∃ a, c.stepPrompt cfg env content = { c with actor := a, phase := .head } := by
  rw [accepts, Bool.and_eq_true, decide_eq_true_eq] at h
  obtain ⟨hstate, hskill⟩ := h
  rw [Call.stepPrompt.eq_def]
  dsimp only
  rw [if_neg hstate]
  split
  · next name hname =>
      have hinvoked : invoked content = some name := hname
      rw [hinvoked, Option.all_some, Bool.and_eq_true, Option.isSome_iff_exists] at hskill
      obtain ⟨⟨skill, hfind⟩, hread⟩ := hskill
      simp only [Call.stepSkill, hfind, World.await]
      cases htext : env.readSkill (Call.restore env c.actor).world.now with
      | ok text => exact ⟨_, rfl⟩
      | error e =>
          rw [htext] at hread
          cases hread
  · exact ⟨_, rfl⟩

/-- The prompt of a turn, which has no goal. -/
structure Plain (c : Call) : Prop where
  goal : c.goal = none
  phase : ∀ g, c.phase ≠ .attempt g

theorem Plain.leave {c : Call} (h : Plain c) (a : SessionActor)
    (result : Except AgentError (List AgentMessage)) :
    Plain (c.leave a result) ∧ isPrompt (c.leave a result) = false := by
  simp only [Call.leave, h.goal]
  exact ⟨⟨rfl, fun _ => CallPhase.noConfusion⟩, rfl⟩

/-- It never comes back to its start. -/
theorem Plain.step {c : Call} (h : Plain c) :
    Plain (c.step cfg env) ∧ isPrompt (c.step cfg env) = false := by
  have hphase : ∀ {c' : Call}, c'.goal = none → (∀ g, c'.phase ≠ .attempt g) →
      isPrompt c' = false → Plain c' ∧ isPrompt c' = false := fun hg hp hf => ⟨⟨hg, hp⟩, hf⟩
  cases Call.step_cases cfg env c with
  | strategy hc | lastPrompt hc | notMet hc => exact absurd hc (h.phase _)
  | rejected _ _ h' | unprepared _ _ _ h' | backoffAborted _ h' | compactionFailed _ _ h'
  | thresholdFailed _ _ h' | finished _ _ h' =>
      rw [h']
      exact h.leave _ _
  | prepared _ _ _ h' | started _ h' | looped _ _ h' | broken _ _ h' | backoffOver _ h'
  | compacted _ h' | belowThreshold _ _ h' | thresholdCompacted _ _ h' | savePanicked _ h'
  | deltasLooped _ _ h' =>
      rw [h']
      exact hphase h.goal (fun _ => CallPhase.noConfusion) rfl
  | settled _ _ h' =>
      obtain ⟨next, _, _, a, _, _, _, _, hs⟩ :=
        @Call.stepSettle_spec env _ _ c
      rw [h', hs]
      cases next with
      | backoff d => exact hphase h.goal (fun _ => CallPhase.noConfusion) rfl
      | compactAndRetry => exact hphase h.goal (fun _ => CallPhase.noConfusion) rfl
      | absorbed msgs => exact hphase h.goal (fun _ => CallPhase.noConfusion) rfl
      | fail e => exact h.leave _ _
  | deltasEnded _ _ h' =>
      rw [h']
      unfold Call.stepDeltas
      split
      · exact hphase h.goal (fun _ => CallPhase.noConfusion) rfl
      · exact hphase h.goal (fun _ => CallPhase.noConfusion) rfl
  | ended hc h' =>
      rw [h']
      refine ⟨h, ?_⟩
      rcases hc with ⟨result, hc⟩ | hc
      · rw [isPrompt, hc]
      · rw [isPrompt, hc]

/-! ## Distinct indexes -/

/-- The indexes handed out are distinct, and below the counter. -/
def Distinct (s : Turns) : Prop := s.indexes.Nodup ∧ ∀ n ∈ s.indexes, n < s.turnCounter

theorem Distinct.of_perm {s' : Turns} (h : s.Distinct) (hperm : s'.indexes.Perm s.indexes)
    (hcounter : s'.turnCounter = s.turnCounter) : s'.Distinct :=
  ⟨hperm.nodup_iff.mpr h.1, fun n hn => hcounter ▸ h.2 n (hperm.subset hn)⟩

/-- A call gets the index the counter stands at. -/
theorem Distinct.number (h : s.Distinct) (content : List Content) (called : List (List Content)) :
    ({ s with
      called := called
      numbered := s.numbered ++ [{ index := s.turnCounter, content := content }]
      turnCounter := s.turnCounter + 1 } : Turns).Distinct := by
  refine Distinct.of_perm (s := { s with
    returned := s.turnCounter :: s.returned, turnCounter := s.turnCounter + 1 }) ⟨?_, ?_⟩ ?_ rfl
  · have hfresh : s.turnCounter ∉ s.indexes := fun hm => Nat.lt_irrefl _ (h.2 _ hm)
    exact (List.perm_middle.nodup_iff).mpr (List.nodup_cons.mpr ⟨hfresh, h.1⟩)
  · intro n hn
    rcases List.mem_cons.mp (List.perm_middle.subset hn) with hn | hn
    · exact Nat.lt_succ_of_le (Nat.le_of_eq hn)
    · exact Nat.lt_succ_of_lt (h.2 n hn)
  · refine List.perm_iff_count.mpr fun n => ?_
    simp only [indexes, List.map_append, List.map_cons, List.map_nil, List.count_append,
      List.count_cons, List.count_nil]
    omega

/-! ## The line -/

/-- The started turns, the one about to start, and those that wait. -/
def line (s : Turns) : List Nat := s.started ++ (s.opening ++ s.waiting).map Turn.index

structure InLine (s : Turns) : Prop where
  plain : Plain s.call
  distinct : s.Distinct
  increasing : s.line.Pairwise (· < ·)
  low : ∀ n ∈ s.line, n < s.turnCounter
  /-- Those that have not asked for the actor yet come behind the line. -/
  behind : ∀ turn ∈ s.numbered, ∀ n ∈ s.line, n < turn.index
  counted : s.turnCounter = s.line.length + s.numbered.length

theorem InLine.inOrder (h : s.InLine) : s.InOrder := by
  refine ⟨h.distinct.1, ?_, ?_⟩
  · exact (List.pairwise_append.mp h.increasing).1
  · rw [h.counted, line, List.length_append, List.length_map, List.length_append]
    omega

/-- A step that leaves the line and those before it as they are. -/
theorem InLine.of_line {s' : Turns} (h : s.InLine) (hplain : Plain s'.call)
    (hindexes : s'.indexes.Perm s.indexes) (hline : s'.line = s.line)
    (hnumbered : s'.numbered = s.numbered) (hcounter : s'.turnCounter = s.turnCounter) :
    s'.InLine where
  plain := hplain
  distinct := h.distinct.of_perm hindexes hcounter
  increasing := hline ▸ h.increasing
  low := by
    rw [hline, hcounter]
    exact h.low
  behind := by
    rw [hline, hnumbered]
    exact h.behind
  counted := by
    rw [hline, hnumbered, hcounter]
    exact h.counted

theorem InLine.number (h : s.InLine) {i : Nat} (hok : s.turnCounter + 1 < 2 ^ 64) :
    (s.step cfg env (.number i)).InLine := by
  rw [step]
  split
  · next content _ =>
      rw [fetchAdd, Nat.mod_eq_of_lt hok]
      refine ⟨h.plain, h.distinct.number content _, h.increasing,
        fun n hn => Nat.lt_succ_of_lt (h.low n hn), ?_, ?_⟩
      · intro turn hturn n hn
        rcases List.mem_append.mp hturn with hturn | hturn
        · exact h.behind turn hturn n hn
        · rw [List.mem_singleton.mp hturn]
          exact h.low n hn
      · show s.turnCounter + 1 = s.line.length + (s.numbered ++ [_]).length
        rw [h.counted, List.length_append, List.length_singleton]
        omega
  · exact h

/-- Nobody with a smaller index is left behind the one that joins the line. -/
theorem InLine.lock (h : s.InLine) {i : Nat} (hok : s.Ok cfg env (.lock i)) :
    (s.step cfg env (.lock i)).InLine := by
  rw [step]
  split
  · next turn hturn =>
      have hperm := getElem?_cons_eraseIdx_perm hturn
      have hmem : turn ∈ s.numbered := hperm.subset List.mem_cons_self
      have hline : ({ s with
          numbered := s.numbered.eraseIdx i, waiting := s.waiting ++ [turn] } : Turns).line =
          s.line ++ [turn.index] := by
        show s.started ++ (s.opening ++ (s.waiting ++ [turn])).map Turn.index = _
        rw [line, ← List.append_assoc, List.map_append, ← List.append_assoc]
        rfl
      have hbefore : ∀ n ∈ s.line, n < turn.index := h.behind turn hmem
      have hnumbered : (s.numbered.map Turn.index).Nodup := by
        have hdistinct := h.distinct.1
        rw [indexes, List.map_append, List.map_append] at hdistinct
        exact (hdistinct.of_append_left).of_append_left.of_append_left
      have hothers : turn.index ∉ (s.numbered.eraseIdx i).map Turn.index :=
        (List.nodup_cons.mp (((hperm.map Turn.index).nodup_iff).mpr hnumbered)).1
      refine ⟨h.plain, h.distinct.of_perm ?_ rfl, ?_, ?_, ?_, ?_⟩
      · refine List.perm_iff_count.mpr fun n => ?_
        have hcount := (hperm.map Turn.index).count_eq n
        simp only [indexes, List.map_append, List.map_cons, List.map_nil, List.count_append,
          List.count_cons, List.count_nil] at hcount ⊢
        omega
      · rw [hline, List.pairwise_append]
        refine ⟨h.increasing, List.pairwise_singleton _ _, fun n hn m hm => ?_⟩
        rw [List.mem_singleton.mp hm]
        exact hbefore n hn
      · rw [hline]
        refine List.forall_mem_append.mpr ⟨h.low, fun n hn => ?_⟩
        rw [List.mem_singleton.mp hn]
        refine h.distinct.2 _ ?_
        rw [indexes, List.map_append, List.map_append]
        simp only [List.mem_append]
        exact .inl (.inl (.inl (List.mem_map_of_mem hmem)))
      · intro other hother
        rw [hline]
        have hother' : other ∈ s.numbered := hperm.subset (List.mem_cons_of_mem _ hother)
        refine List.forall_mem_append.mpr ⟨h.behind other hother', fun n hn => ?_⟩
        rw [List.mem_singleton.mp hn]
        refine Nat.lt_of_le_of_ne (hok turn hturn other hother') fun heq => hothers ?_
        rw [heq]
        exact List.mem_map_of_mem hother
      · have hlength := hperm.length_eq
        rw [List.length_cons] at hlength
        show s.turnCounter = _ + (s.numbered.eraseIdx i).length
        rw [hline, List.length_append, List.length_singleton, h.counted]
        omega
  · exact h

theorem InLine.grant (h : s.InLine) : (s.step cfg env .grant).InLine := by
  rw [step]
  split
  · next turn rest hrunning hwaiting =>
      refine h.of_line ⟨rfl, fun _ => CallPhase.noConfusion⟩ ?_ ?_ rfl rfl
      · refine List.perm_iff_count.mpr fun n => ?_
        simp only [indexes, hrunning, hwaiting, Option.toList_none, Option.toList_some,
          List.map_append, List.map_cons, List.map_nil, List.count_append, List.count_cons,
          List.count_nil]
        omega
      · show s.started ++ ([turn] ++ rest).map Turn.index = s.line
        have hopening : s.opening = [] := by
          rw [opening, hrunning]
          split <;> rfl
        rw [line, hopening, hwaiting]
        rfl
  · exact h

theorem InLine.advance (h : s.InLine) (hok : s.Ok cfg env .advance) :
    (s.step cfg env .advance).InLine := by
  rw [step]
  split
  · next turn hrunning =>
      obtain ⟨hplain, hpast⟩ := @Plain.step cfg env s.call h.plain
      refine h.of_line hplain (List.Perm.refl _) ?_ rfl rfl
      rw [line, line, opening, opening]
      simp only [hpast, hrunning]
      cases hphase : s.call.phase with
      | prompt content =>
          have haccepts : accepts cfg env content s.call.actor = true := by
            refine hok content ?_ (by rw [hrunning]; rfl)
            rw [message?, hphase]
            rfl
          obtain ⟨a, hstep⟩ := stepPrompt_head haccepts
          have hhead : s.call.step cfg env = { s.call with actor := a, phase := .head } := by
            rw [Call.step, Call.stepWith, hphase]
            exact hstep
          simp only [isPrompt, isHead, hphase, hhead]
          show (s.started ++ [turn.index]) ++ (s.waiting.map Turn.index) =
            s.started ++ (turn.index :: s.waiting.map Turn.index)
          rw [List.append_assoc]
          rfl
      | _ =>
          simp only [isPrompt, hphase]
          rfl
  · exact h

theorem InLine.unlock (h : s.InLine) : (s.step cfg env .unlock).InLine := by
  rw [step]
  split
  · next turn hrunning =>
      split
      · exact h
      · next hover =>
          have hopening : s.opening = [] := by
            rw [opening, isPrompt]
            cases hphase : s.call.phase with
            | prompt content =>
                rw [Call.inProgress, hphase] at hover
                exact absurd rfl hover
            | _ => rfl
          refine h.of_line h.plain ?_ ?_ rfl rfl
          · refine List.perm_iff_count.mpr fun n => ?_
            simp only [indexes, hrunning, Option.toList_none, Option.toList_some, List.map_append,
              List.map_cons, List.map_nil, List.count_append, List.count_cons, List.count_nil]
            omega
          · rw [line, line, hopening]
            have hempty : ({ s with
                running := none, returned := s.returned ++ [turn.index] } : Turns).opening = [] := by
              rw [opening]
              split <;> rfl
            rw [hempty]
  · exact h

theorem InLine.reset (h : s.InLine) : (s.step cfg env .reset).InLine := by
  rw [step]
  split
  · exact h
  · next hidle =>
      have hrunning : s.running = none := by simpa using hidle
      refine h.of_line ⟨rfl, fun _ => CallPhase.noConfusion⟩ (List.Perm.refl _) ?_ rfl rfl
      rw [line, line, opening, opening]
      simp only [hrunning, Option.toList_none, ite_self]

theorem inLine_step (h : s.InLine) (e : TurnEvent) (hok : s.Ok cfg env e) :
    (s.step cfg env e).InLine := by
  cases e with
  | call content => exact h.of_line h.plain (List.Perm.refl _) rfl rfl rfl
  | refuse i => exact h.of_line h.plain (List.Perm.refl _) rfl rfl rfl
  | number i => exact h.number hok
  | lock i => exact h.lock hok
  | grant => exact h.grant
  | advance => exact h.advance hok
  | unlock => exact h.unlock
  | reset => exact h.reset

/-- Whatever the order in which any number of calls take their steps: as long
as they ask for the actor in the order of their indexes and no prompt is
rejected, the indexes are distinct, the turns are started in their order, and
the counter counts them. -/
theorem inOrder_of_along_ok (cfg : SessionConfig) (env : Env) (events : List TurnEvent)
    (h : Along (step cfg env) (Ok cfg env) (start cfg) events) :
    (events.foldl (step cfg env) (start cfg)).InOrder := by
  have hstart : (start cfg).InLine :=
    { plain := ⟨rfl, fun _ => CallPhase.noConfusion⟩
      distinct := ⟨List.nodup_nil, fun n hn => absurd hn List.not_mem_nil⟩
      increasing := List.Pairwise.nil
      low := fun n hn => absurd hn List.not_mem_nil
      behind := fun turn hturn => absurd hturn List.not_mem_nil
      counted := rfl }
  refine InLine.inOrder ?_
  refine Along.invariant (fun s e hok hs => ?_) hstart h
  exact inLine_step hs e hok

/-! ## Overtaken and rejected -/

instance (s : Turns) : ∀ e, Decidable (s.Ok cfg env e)
  | .number _ => inferInstanceAs (Decidable (_ < _))
  | .lock i => inferInstanceAs
      (Decidable (∀ turn ∈ s.numbered[i]?, ∀ other ∈ s.numbered, turn.index ≤ other.index))
  | .advance => inferInstanceAs (Decidable (∀ content ∈ message? s.call, _ → _))
  | .call _ | .refuse _ | .grant | .unlock | .reset => inferInstanceAs (Decidable True)

/-- The first in the line has its whole turn. -/
def wholeTurn : List TurnEvent := .grant :: List.replicate 12 .advance ++ [.unlock]

/-- A provider that says it is done. -/
def obliging : Env := { Env.quiet with stream := fun _ => .ok (saying "done") }

/-- Two calls, of which the first to have its index is the first to ask for the
actor. -/
def inTurn : List TurnEvent :=
  [.call [], .call [], .number 0, .lock 0, .number 0, .lock 0] ++ wholeTurn ++ wholeTurn

theorem inOrder_inTurn :
    (inTurn.foldl (step (plainConfig 0) obliging) (start (plainConfig 0))).InOrder := by
  refine inOrder_of_along_ok (plainConfig 0) obliging inTurn ?_
  decide +kernel

/-- The second one asks first. -/
def overtaking : List TurnEvent :=
  [.call [], .call [], .number 0, .number 0, .lock 1, .lock 0] ++ wholeTurn ++ wholeTurn

/-- The turn with the index 1 is started before the one with the index 0. And
when the provider fails and the session is in its error state, the second
prompt is rejected, but its index is gone: two turns are counted, and one was
started. -/
theorem not_inOrder_overtaken_or_rejected :
    ¬ (overtaking.foldl (step (plainConfig 0) obliging) (start (plainConfig 0))).InOrder ∧
      ¬ (inTurn.foldl (step (plainConfig 0) .quiet) (start (plainConfig 0))).InOrder := by
  constructor
  · intro h
    have hordered := h.ordered
    revert hordered
    decide +kernel
  · intro h
    have hcounted := h.counted
    revert hcounted
    decide +kernel

end Turns

end Pandaria.Tenant
