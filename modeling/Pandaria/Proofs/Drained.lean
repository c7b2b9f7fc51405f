import Pandaria.Lib.Run
import Pandaria.Proofs.CallSteps
import Pandaria.Proofs.LoopSteps

/-!
# What becomes of the messages drained from the queues

An agent loop takes messages out of the two queues and puts them among what it
will return. A loop that returns an error returns nothing, and a loop whose
result is retried has its result thrown away, so in both cases what it has
drained is gone: it is not in the queue any more and has not reached the
history.

A call is followed here with the messages its finished loops have drained and
with the number of entries that stood in the history before the last of them
was absorbed. Where nothing is thrown away, these messages stand among the
entries behind that number, in their order. A compaction at the end of a run
keeps them there as long as it cuts no deeper than that.
-/

namespace Pandaria.Agent

open Pandaria.Ai Pandaria.Lib

/-! ## One loop -/

namespace AgentLoop

/-- What a loop has drained is among what it will return. -/
structure Carried (l : AgentLoop) : Prop where
  drained : List.Sublist l.locals.drained l.locals.newMessages
  result : ∀ msgs, l.phase = .returned (.ok msgs) → msgs = l.locals.newMessages

theorem carried_start (env : Env) (messages : List AgentMessage) (w : World) :
    (start env messages w).Carried :=
  { drained := List.Sublist.refl _
    result := nofun }

theorem carried_drain {s : LoopLocals} (h : List.Sublist s.drained s.newMessages)
    (q : List AgentMessage) : List.Sublist (drain s q).drained (drain s q).newMessages :=
  h.append (List.Sublist.refl q)

theorem carried_turned {env : Env} {s s' : LoopLocals} {added : List AgentMessage}
    (hs : Turned env s s' added) (h : List.Sublist s.drained s.newMessages) :
    List.Sublist s'.drained s'.newMessages := by
  rw [hs.drained, hs.newMessages]
  exact h.trans (List.sublist_append_left _ _)

theorem carried_step (cfg : AgentLoopConfig) (env : Env) (l : AgentLoop) (h : l.Carried) :
    (step cfg env l).Carried := by
  cases step_cases cfg env l with
  | drainSteer _ h' =>
      rw [h']
      exact ⟨carried_drain h.drained _, nofun⟩
  | drainFollowUp _ h' =>
      rw [h']
      exact ⟨carried_drain h.drained _, nofun⟩
  | done _ h' hs =>
      refine ⟨carried_turned hs h.drained, fun msgs hm => ?_⟩
      rw [h'] at hm
      injection hm with hm
      injection hm with hm
      rw [hs.newMessages, List.append_nil, hm]
  | cancelled _ _ h' hs | refused _ _ h' hs | rejected _ _ h' hs =>
      refine ⟨carried_turned hs h.drained, fun msgs hm => ?_⟩
      rw [h'] at hm
      injection hm with hm
      cases hm
  | received _ h' hs =>
      refine ⟨carried_turned hs h.drained, fun msgs hm => ?_⟩
      rw [h'] at hm
      cases hm
  | turned _ _ h' hs =>
      refine ⟨carried_turned hs h.drained, fun msgs hm => ?_⟩
      rcases h' with h' | h'
      · rw [h'] at hm; cases hm
      · rw [h'] at hm; cases hm
  | broken _ h' =>
      rw [h']
      exact ⟨h.drained, nofun⟩
  | ended _ h' =>
      rw [h']
      exact h

end AgentLoop

/-! ## A call and what its loops have drained -/

/-- A call, the messages drained by those of its loops that have ended, and
how many entries stand in front of what the last loop has left. A prompt
starts these anew. -/
structure Drained where
  call : Call
  taken : List AgentMessage
  since : Nat

namespace Drained

/-- How far the compaction of this step cuts into the history, if it makes
one. -/
def cut (cfg : SessionConfig) (env : Env) (c : Call) : Nat :=
  match c.phase with
  | .threshold _ =>
      if cfg.compactor.config.enabled && c.actor.overThreshold cfg then
        c.actor.cutOf cfg env .threshold
      else 0
  | .finish msgs => c.actor.finishCut cfg env msgs
  | _ => 0

def step (cfg : SessionConfig) (env : Env) (t : Drained) : Drained :=
  let c := t.call.step cfg env
  match t.call.phase with
  | .attempt _ | .prompt _ => { call := c, taken := [], since := 0 }
  | .looping l | .deltas l =>
      match l.phase with
      | .returned _ =>
          { call := c
            taken := t.taken ++ l.locals.drained
            since := t.call.actor.history.entries.length }
      | _ => { t with call := c }
  | _ => { t with call := c, since := t.since - cut cfg env t.call }

/-- A call that has just been made. -/
def start (c : Call) : Drained := { call := c, taken := [], since := 0 }

/-- A loop that ends has its result absorbed or has drained nothing, and a
compaction behind it cuts away at most what stood there before. -/
def StepOk (cfg : SessionConfig) (env : Env) (t : Drained) : Prop :=
  match t.call.phase with
  | .looping l =>
      ∀ result, l.phase = .returned result →
        l.locals.drained = [] ∨ SessionActor.Absorbs t.call.actor.machine.recovery result
  | .deltas l => ∀ e, l.phase = .returned (.error e) → l.locals.drained = []
  | .threshold _ | .finish _ => t.taken = [] ∨ cut cfg env t.call ≤ t.since
  | _ => True

/-! ## The invariant -/

/-- What was drained stands behind the entries that were there before. -/
def Held (t : Drained) : Prop :=
  List.Sublist t.taken ((t.call.actor.history.entries.drop t.since).filterMap SessionEntry.message?)

def Inv (t : Drained) : Prop :=
  t.Held ∧
    match t.call.phase with
    | .looping l | .deltas l => t.taken = [] ∧ l.Carried
    | .head | .backoff _ | .compactAndRetry => t.taken = []
    | _ => True

theorem held_nil (c : Call) (n : Nat) : Held { call := c, taken := [], since := n } :=
  List.nil_sublist _

/-- A state whose phase is that of a call that has left its run. -/
theorem inv_of_held {t : Drained} (h : t.Held)
    (hp : (∃ r, t.call.phase = .returned r) ∨ (∃ g, t.call.phase = .attempt g) ∨
      (∃ msgs, t.call.phase = .threshold msgs ∨ t.call.phase = .finish msgs) ∨
      t.call.phase = .panicked) : t.Inv := by
  refine ⟨h, ?_⟩
  rcases hp with ⟨r, hp⟩ | ⟨g, hp⟩ | ⟨msgs, hp | hp⟩ | hp <;> (rw [hp]; trivial)

theorem inv_leave {c : Call} {a : SessionActor} {result : Except AgentError (List AgentMessage)}
    {taken : List AgentMessage} {since : Nat}
    (h : List.Sublist taken ((a.history.entries.drop since).filterMap SessionEntry.message?)) :
    Inv { call := c.leave a result, taken := taken, since := since } := by
  obtain ⟨ha, hp⟩ := c.leave_spec a result
  refine inv_of_held (by rw [Held, ha]; exact h) ?_
  rcases hp with hp | hp
  · exact .inl ⟨result, hp⟩
  · exact .inr (.inl hp)

/-- A compaction that cuts no deeper than `since` leaves behind it what stood
there. -/
theorem sublist_drop_cut {taken : List AgentMessage} {entries added : List SessionEntry}
    {since k : Nat} (hk : k ≤ since)
    (h : List.Sublist taken ((entries.drop since).filterMap SessionEntry.message?)) :
    List.Sublist taken ((((entries ++ added).drop k).drop (since - k)).filterMap
      SessionEntry.message?) := by
  rw [List.drop_drop, Nat.add_sub_cancel' hk, List.drop_append, List.filterMap_append]
  exact h.trans (List.sublist_append_left _ _)

theorem cut_held {t : Drained} {entries added : List SessionEntry} {k : Nat} (h : t.Held)
    (hok : t.taken = [] ∨ k ≤ t.since)
    (he : entries = (t.call.actor.history.entries ++ added).drop k) :
    List.Sublist t.taken ((entries.drop (t.since - k)).filterMap SessionEntry.message?) := by
  rw [he]
  rcases hok with hnil | hk
  · rw [hnil]
    exact List.nil_sublist _
  · exact sublist_drop_cut hk h

variable {cfg : SessionConfig} {env : Env}

/-! ## One step -/

/-- The session after a loop has ended: what was drained has been pushed, or
there is nothing. -/
theorem pushed_held (a : SessionActor) {taken pushed : List AgentMessage} {c : Call}
    (h : List.Sublist taken pushed) (ha : c.actor.history = (a.pushMessages env pushed).history) :
    Held { call := c, taken := taken, since := a.history.entries.length } := by
  obtain ⟨es, hes, -, hms⟩ := @SessionActor.pushMessages_entries env a pushed
  rw [Held]
  rw [ha, hes, List.drop_left, hms]
  exact h

theorem inv_settle {c : Call} {l : AgentLoop} {result : Except AgentError (List AgentMessage)}
    (hl : l.Carried) (hp : l.phase = .returned result)
    (hok : l.locals.drained = [] ∨ SessionActor.Absorbs c.actor.machine.recovery result) :
    Inv { call := c.stepSettle env result l.locals.world
          taken := l.locals.drained, since := c.actor.history.entries.length } := by
  obtain ⟨next, machine, pushed, a, hs, -, hh, -, hstep⟩ :=
    @Call.stepSettle_spec env result l.locals.world c
  rw [hstep]
  rcases hok with hnil | habs
  · rw [hnil]
    cases next with
    | backoff d => exact ⟨held_nil _ _, rfl⟩
    | compactAndRetry => exact ⟨held_nil _ _, rfl⟩
    | absorbed msgs => exact ⟨held_nil _ _, trivial⟩
    | fail e => exact inv_leave (List.nil_sublist _)
  · obtain ⟨rfl, rfl⟩ := habs.pushed hs
    have hsub : List.Sublist l.locals.drained pushed := by
      rw [hl.result pushed hp]
      exact hl.drained
    exact ⟨pushed_held { c.actor with world := l.locals.world } hsub hh, trivial⟩

/-- A compaction at the end of a run that stays within what it may cut. -/
theorem inv_threshold {c : Call} {taken : List AgentMessage} {since : Nat}
    (hheld : Held { call := c, taken := taken, since := since })
    (hok : taken = [] ∨ c.actor.cutOf cfg env .threshold ≤ since) :
    List.Sublist taken
      (((c.actor.runAutoCompaction cfg env .threshold false).2.history.entries.drop
        (since - c.actor.cutOf cfg env .threshold)).filterMap SessionEntry.message?) := by
  obtain ⟨-, ⟨added, hentries⟩, -⟩ :=
    @SessionActor.runAutoCompaction_spec cfg env .threshold false c.actor
  exact cut_held hheld hok hentries

theorem inv_step (cfg : SessionConfig) (env : Env) (t : Drained) (hok : StepOk cfg env t)
    (h : t.Inv) : (step cfg env t).Inv := by
  obtain ⟨c, taken, since⟩ := t
  obtain ⟨hheld, hphase⟩ := h
  cases Call.step_cases cfg env c with
  | strategy hp _ h' | lastPrompt hp h' | notMet hp h' =>
      simp only [step, hp]
      rw [h']
      exact ⟨held_nil _ _, trivial⟩
  | rejected hp _ h' | unprepared hp _ _ h' =>
      simp only [step, hp]
      rw [h']
      exact inv_leave (List.nil_sublist _)
  | prepared hp _ _ h' =>
      simp only [step, hp]
      rw [h']
      exact ⟨held_nil _ _, rfl⟩
  | started hp h' =>
      simp only [hp] at hphase
      subst hphase
      simp only [step, hp]
      rw [h']
      exact ⟨held_nil _ _, rfl, AgentLoop.carried_start _ _ _⟩
  | @looped l hp hl h' | @deltasLooped l hp hl h' =>
      simp only [hp] at hphase
      obtain ⟨rfl, hcarried⟩ := hphase
      simp only [step, hp]
      rw [h']
      exact ⟨held_nil _ _, rfl, AgentLoop.carried_step _ _ l hcarried⟩
  | @settled l result hp hl h' =>
      simp only [hp] at hphase
      obtain ⟨rfl, hcarried⟩ := hphase
      simp only [StepOk, hp] at hok
      simp only [step, hp, hl, List.nil_append]
      rw [h']
      exact inv_settle hcarried hl (hok result hl)
  | broken hp hl h' =>
      rcases hp with hp | hp
      · simp only [hp] at hphase
        obtain ⟨rfl, -⟩ := hphase
        simp only [step, hp, hl]
        rw [h']
        exact ⟨held_nil _ _, trivial⟩
      · simp only [hp] at hphase
        obtain ⟨rfl, -⟩ := hphase
        simp only [step, hp, hl]
        rw [h']
        exact ⟨held_nil _ _, trivial⟩
  | backoffAborted hp h' | compactionFailed hp _ h' =>
      simp only [hp] at hphase
      subst hphase
      simp only [step, hp]
      rw [h']
      exact inv_leave (List.nil_sublist _)
  | backoffOver hp h' | compacted hp h' =>
      simp only [hp] at hphase
      subst hphase
      simp only [step, hp]
      rw [h']
      exact ⟨held_nil _ _, rfl⟩
  | belowThreshold hp ht h' =>
      have hcut : cut cfg env c = 0 := by simp only [cut, hp, ht]; rfl
      simp only [step, hp, hcut]
      rw [h']
      exact ⟨hheld, trivial⟩
  | thresholdFailed hp ht h' =>
      have hcut : cut cfg env c = c.actor.cutOf cfg env .threshold := by
        simp only [cut, hp, ht, if_true]
      simp only [StepOk, hp, hcut] at hok
      simp only [step, hp, hcut]
      rw [h']
      exact inv_leave (inv_threshold hheld hok)
  | thresholdCompacted hp ht h' =>
      have hcut : cut cfg env c = c.actor.cutOf cfg env .threshold := by
        simp only [cut, hp, ht, if_true]
      simp only [StepOk, hp, hcut] at hok
      simp only [step, hp, hcut]
      rw [h']
      exact ⟨inv_threshold hheld hok, trivial⟩
  | @savePanicked msgs hp h' =>
      obtain ⟨-, ⟨added, hentries⟩, -⟩ := @SessionActor.finishRun_spec cfg env msgs c.actor
      have hcut : cut cfg env c = c.actor.finishCut cfg env msgs := by simp only [cut, hp]
      simp only [StepOk, hp, hcut] at hok
      simp only [step, hp, hcut]
      rw [h']
      exact ⟨cut_held hheld hok hentries, trivial⟩
  | @finished msgs a hp ha h' =>
      obtain ⟨-, ⟨added, hentries⟩, -⟩ := @SessionActor.finishRun_spec cfg env msgs c.actor
      have hcut : cut cfg env c = c.actor.finishCut cfg env msgs := by simp only [cut, hp]
      simp only [StepOk, hp, hcut] at hok
      simp only [step, hp, hcut]
      rw [h']
      refine inv_leave ?_
      rw [(SessionActor.persist_spec ha).2.1]
      exact cut_held hheld hok hentries
  | @deltasEnded l result hp hl h' =>
      obtain ⟨a, pushed, hs, -, hh, -, hpushed⟩ :=
        @Call.stepDeltas_spec env result l.locals.world c
      simp only [hp] at hphase
      obtain ⟨rfl, hcarried⟩ := hphase
      simp only [StepOk, hp] at hok
      simp only [step, hp, hl, List.nil_append]
      rw [h', hs]
      refine ⟨?_, trivial⟩
      cases result with
      | error e =>
          rw [hok e hl]
          exact held_nil _ _
      | ok msgs =>
          have hsub : List.Sublist l.locals.drained pushed := by
            rw [hpushed msgs rfl, hcarried.result msgs hl]
            exact hcarried.drained
          exact pushed_held { c.actor with world := l.locals.world } hsub hh
  | ended hover h' =>
      rcases hover with ⟨result, hp⟩ | hp
      · simp only [step, hp, cut, Nat.sub_zero]
        rw [h']
        exact ⟨hheld, hphase⟩
      · simp only [step, hp, cut, Nat.sub_zero]
        rw [h']
        exact ⟨hheld, hphase⟩

/-! ## Whole calls -/

theorem inv_start (o : Op) (a : SessionActor) : (start (o.begin cfg env a)).Inv := by
  refine ⟨held_nil _ _, ?_⟩
  rw [start]
  rcases @Op.begin_phase cfg env o a with ⟨_, h⟩ | ⟨_, h⟩ | ⟨_, h⟩ | ⟨-, -, h⟩ | ⟨_, _, _, -, h⟩
  · rw [h]; trivial
  · rw [h]; trivial
  · rw [h]; trivial
  · rw [h]
  · rw [h]; exact ⟨rfl, AgentLoop.carried_start _ _ _⟩

/-- A session with one message in its steer queue. -/
def steered : SessionActor :=
  { SessionActor.new (plainConfig 0) with
    world := { World.fresh with steerQueue := [userText "look here first"] } }

def answering : Env := { Env.quiet with stream := fun _ => .ok (saying "done") }

end Drained

end Pandaria.Agent
