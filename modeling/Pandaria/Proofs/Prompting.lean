import Pandaria.Proofs.Background
import Pandaria.Proofs.CallSteps
import Pandaria.Tenant.Turns

/-!
# When it is the same to send and to prompt

`send_message` makes a single run. So does `prompt`, when the strategy asks for
nothing else: no goal, or one without attempts of which the last answer is
wanted anyway; and no loop, or one whose bound the first run meets already. For
every other strategy there is a session and a text with which the two differ.
-/

namespace Pandaria.Agent

open Pandaria.Ai Pandaria.Lib

variable {cfg : SessionConfig} {env : Env}

/-! ## The last run of a goal -/

/-- `d` is the run `c`, made for a goal `g` that is exhausted. -/
structure LastRun (g : GoalRun) (c d : Call) : Prop where
  eq : d = { c with goal := some g }
  goal : c.goal = none
  phase : ∀ g', c.phase ≠ .attempt g'

variable {g : GoalRun} {c d : Call}

theorem LastRun.actor (h : LastRun g c d) : d.actor = c.actor := by rw [h.eq]

/-- A step that does not leave the run keeps its goal. -/
theorem LastRun.keep (h : LastRun g c d) {c' d' : Call} (hgoal : c'.goal = c.goal)
    (hd : d' = { c' with goal := d.goal }) (hphase : ∀ g', c'.phase ≠ .attempt g') :
    LastRun g c' d' := by
  have hsome : d.goal = some g := by rw [h.eq]
  exact ⟨by rw [hd, hsome], hgoal.trans h.goal, hphase⟩

theorem LastRun.leave (h : LastRun g c d) (hg : g.exhausted = true) (a : SessionActor)
    (result : Except AgentError (List AgentMessage)) :
    LastRun g (c.leave a result) (d.leave a result) := by
  obtain ⟨rfl, hgoal, -⟩ := h
  have hleave : c.leave a result = { c with actor := a, phase := .returned result } := by
    rw [Call.leave.eq_def, hgoal]
  have hleave' : ({ c with goal := some g } : Call).leave a result =
      { c with actor := a, phase := .returned result, goal := some g } := by
    rw [Call.leave.eq_def]
    cases result with
    | error e => rfl
    | ok msgs => simp [hg]
  rw [hleave, hleave']
  exact ⟨rfl, hgoal, fun g' hphase => by cases hphase⟩

theorem LastRun.stepSkill (h : LastRun g c d) (hg : g.exhausted = true) (name : String)
    (a : SessionActor) :
    LastRun g (c.stepSkill cfg env name a) (d.stepSkill cfg env name a) := by
  rw [Call.stepSkill, Call.stepSkill]
  split
  · exact h.leave hg _ _
  · split
    · exact h.leave hg _ _
    · exact h.keep rfl (by rw [h.eq]) (by simp)

theorem LastRun.stepPrompt (h : LastRun g c d) (hg : g.exhausted = true) (content : List Content) :
    LastRun g (c.stepPrompt cfg env content) (d.stepPrompt cfg env content) := by
  rw [Call.stepPrompt.eq_def, Call.stepPrompt.eq_def, h.actor]
  dsimp only
  split
  · exact h.leave hg _ _
  · split
    · exact h.stepSkill hg _ _
    · exact h.keep rfl (by rw [h.eq]) (by simp)

theorem LastRun.stepSettle (h : LastRun g c d) (hg : g.exhausted = true)
    (result : Except AgentError (List AgentMessage)) (w : World) :
    LastRun g (c.stepSettle env result w) (d.stepSettle env result w) := by
  rw [Call.stepSettle, Call.stepSettle, h.actor]
  split
  case h_4 => exact h.leave hg _ _
  all_goals exact h.keep rfl (by rw [h.eq]) (by simp)

theorem LastRun.stepBackoff (h : LastRun g c d) (hg : g.exhausted = true) :
    LastRun g (c.stepBackoff env) (d.stepBackoff env) := by
  rw [Call.stepBackoff, Call.stepBackoff, h.actor]
  split
  · exact h.leave hg _ _
  · exact h.keep rfl (by rw [h.eq]) (by simp)

theorem LastRun.stepCompactAndRetry (h : LastRun g c d) (hg : g.exhausted = true) :
    LastRun g (c.stepCompactAndRetry cfg env) (d.stepCompactAndRetry cfg env) := by
  rw [Call.stepCompactAndRetry, Call.stepCompactAndRetry, h.actor]
  split
  · exact h.leave hg _ _
  · exact h.keep rfl (by rw [h.eq]) (by simp)

theorem LastRun.stepThreshold (h : LastRun g c d) (hg : g.exhausted = true)
    (msgs : List AgentMessage) :
    LastRun g (c.stepThreshold cfg env msgs) (d.stepThreshold cfg env msgs) := by
  rw [Call.stepThreshold, Call.stepThreshold, h.actor]
  split
  · split
    · exact h.leave hg _ _
    · exact h.keep rfl (by rw [h.eq]) (by simp)
  · exact h.keep rfl (by rw [h.eq]) (by simp)

theorem LastRun.stepFinish (h : LastRun g c d) (hg : g.exhausted = true)
    (msgs : List AgentMessage) :
    LastRun g (c.stepFinish cfg env msgs) (d.stepFinish cfg env msgs) := by
  rw [Call.stepFinish, Call.stepFinish, h.actor]
  split
  · exact h.keep rfl (by rw [h.eq]) (by simp)
  · exact h.leave hg _ _

theorem LastRun.stepDeltas (h : LastRun g c d) (result : Except AgentError (List AgentMessage))
    (w : World) : LastRun g (c.stepDeltas env result w) (d.stepDeltas env result w) := by
  obtain ⟨rfl, hgoal, -⟩ := h
  rw [Call.stepDeltas.eq_def, Call.stepDeltas.eq_def]
  cases result with
  | error e => exact ⟨rfl, hgoal, fun g' hphase => by cases hphase⟩
  | ok msgs => exact ⟨rfl, hgoal, fun g' hphase => by cases hphase⟩

/-- The last run of an exhausted goal is a run like any other. -/
theorem LastRun.step (h : LastRun g c d) (hg : g.exhausted = true) :
    LastRun g (c.step cfg env) (d.step cfg env) := by
  have hphase : d.phase = c.phase := by rw [h.eq]
  rw [Call.step, Call.step, Call.stepWith.eq_def, Call.stepWith.eq_def, hphase, h.actor]
  cases hc : c.phase with
  | attempt g' => exact absurd hc (h.phase g')
  | prompt content => exact h.stepPrompt hg content
  | backoff delayMs => exact h.stepBackoff hg
  | compactAndRetry => exact h.stepCompactAndRetry hg
  | threshold msgs => exact h.stepThreshold hg msgs
  | finish msgs => exact h.stepFinish hg msgs
  | returned result => exact h
  | panicked => exact h
  | head => exact h.keep rfl (by rw [h.eq]; rfl) (fun g' hhead => by cases hhead)
  | looping l =>
      dsimp only
      split
      · exact h.stepSettle hg _ _
      all_goals exact h.keep rfl (by rw [h.eq]) (by simp)
  | deltas l =>
      dsimp only
      split
      · exact h.stepDeltas _ _
      all_goals exact h.keep rfl (by rw [h.eq]) (by simp)

theorem LastRun.iterate (h : LastRun g c d) (hg : g.exhausted = true)
    (n : Nat) : LastRun g ((Call.step cfg env)^[n] c) ((Call.step cfg env)^[n] d) := by
  induction n with
  | zero => exact h
  | succ n ih =>
      rw [Function.iterate_succ_apply', Function.iterate_succ_apply']
      exact ih.step hg

end Pandaria.Agent

namespace Pandaria.Tenant

open Pandaria.Ai Pandaria.Lib
open Pandaria.Agent

variable {cfg : SessionConfig} {max : Option UInt32} {env : Env} {s t : LoopingSession}

/-! ## A call and the loop after it -/

theorem step_of_ended {c : Call} (h : c.inProgress = false) : c.step cfg env = c := by
  rw [Call.step, Call.stepWith.eq_def]
  rw [Call.inProgress.eq_def] at h
  cases hphase : c.phase with
  | returned result => rfl
  | panicked => rfl
  | _ =>
      rw [hphase] at h
      cases h

theorem goOn_frame (s : LoopingSession) (c : Call) :
    (s.goOn c).call = c ∧ (s.goOn c).spawning = s.spawning ∧ (s.goOn c).loops = s.loops := by
  rw [LoopingSession.goOn]
  split
  · exact ⟨rfl, rfl, rfl⟩
  · exact ⟨rfl, rfl, rfl⟩

/-- A loop is spawned when its prompt returns `Ok`, and at no other time. -/
theorem finish_cases (s : LoopingSession) :
    s.finish.call = s.call ∧
      ((s.finish.loops = s.loops ∧ (s.finish.spawning = s.spawning ∨ s.finish.spawning = none)) ∨
        ∃ task, s.spawning = some task ∧ s.finish.spawning = none ∧ s.finish.loops =
          s.loops ++ [.spawn task s.call.actor.strategy.termination s.current]) := by
  rw [LoopingSession.finish]
  split
  · next task _ hspawning => exact ⟨rfl, .inr ⟨_, hspawning, rfl, rfl⟩⟩
  · exact ⟨rfl, .inl ⟨rfl, .inr rfl⟩⟩
  · exact ⟨rfl, .inl ⟨rfl, .inr rfl⟩⟩
  · exact ⟨rfl, .inl ⟨rfl, .inl rfl⟩⟩

theorem advance_call (s : LoopingSession) :
    (s.step cfg max env .advance).call = s.call.step cfg env := by
  rw [LoopingSession.step]
  split
  · rw [(finish_cases _).1, (goOn_frame _ _).1]
  · next h => rw [step_of_ended (Bool.eq_false_iff.mpr h)]

theorem runFor_succ (n : Nat) (s : LoopingSession) :
    runFor cfg max env (n + 1) s = (runFor cfg max env n s).step cfg max env .advance :=
  Function.iterate_succ_apply' _ n s

theorem runFor_call (n : Nat) (s : LoopingSession) :
    (runFor cfg max env n s).call = (Call.step cfg env)^[n] s.call := by
  induction n with
  | zero => rfl
  | succ n ih => rw [runFor_succ, advance_call, ih, Function.iterate_succ_apply']

/-! ## Loops that start nothing -/

/-- It has started nothing, and is over or at its first look at the bound. -/
def Silent (l : BackgroundLoop) : Prop :=
  l.started = [] ∧ (l.phase = .ended ∨ l.phase = .head ∧ l.iteration = 1)

theorem silent_step {l : BackgroundLoop} (hmax : max.any (· ≤ 1) = true) (h : Silent l) :
    Silent (l.step max false) := by
  obtain ⟨hstarted, hphase | ⟨hphase, hiteration⟩⟩ := h
  · rw [BackgroundLoop.step, hphase]
    exact ⟨hstarted, .inl hphase⟩
  · rw [BackgroundLoop.step, hphase, hiteration]
    simp [hmax, Silent, hstarted]

/-- A loop whose bound the first run meets starts no iteration. -/
theorem started_spawn (hmax : max.any (· ≤ 1) = true) (task : String)
    (termination : TerminationStrategy) (token : Nat) (k : Nat) :
    ((BackgroundLoop.step max false)^[k] (.spawn task termination token)).started = [] := by
  have hspawn : Silent (.spawn task termination token) := ⟨rfl, .inr ⟨rfl, rfl⟩⟩
  exact (iterate_invariant (fun _ hl => silent_step hmax hl) hspawn k).1

theorem iterations_push (hmax : max.any (· ≤ 1) = true) (task : String)
    (termination : TerminationStrategy) (token : Nat)
    (h : t.loops = s.loops ++ [.spawn task termination token]) :
    iterations max t = iterations max s := by
  ext m
  constructor
  · rintro ⟨l, hl, k, hk⟩
    rw [h, List.mem_append, List.mem_singleton] at hl
    rcases hl with hl | rfl
    · exact ⟨l, hl, k, hk⟩
    · rw [started_spawn hmax] at hk
      cases hk
  · rintro ⟨l, hl, k, hk⟩
    exact ⟨l, by rw [h]; exact List.mem_append_left _ hl, k, hk⟩

theorem iterations_eq (h : t.loops = s.loops) : iterations max t = iterations max s := by
  rw [iterations, iterations, h]

/-- The prompt in progress leaves no loop that starts an iteration. -/
def Quiet (max : Option UInt32) (s : LoopingSession) : Prop :=
  s.spawning = none ∨ max.any (· ≤ 1) = true

theorem quiet_advance (h : Quiet max s) :
    Quiet max (s.step cfg max env .advance) ∧
      iterations max (s.step cfg max env .advance) = iterations max s := by
  rw [LoopingSession.step]
  split
  · obtain ⟨-, hspawning, hloops⟩ := goOn_frame s (s.call.step cfg env)
    generalize s.goOn (s.call.step cfg env) = u at hspawning hloops
    rcases (finish_cases u).2 with ⟨hkept, hor⟩ | ⟨task, htask, hnone, hpushed⟩
    · refine ⟨?_, iterations_eq (hkept.trans hloops)⟩
      rcases hor with hsame | hnone
      · rw [Quiet, hsame, hspawning]
        exact h
      · exact .inl hnone
    · refine ⟨.inl hnone, ?_⟩
      have hmax : max.any (· ≤ 1) = true := by
        rcases h with h | h
        · rw [hspawning, h] at htask
          cases htask
        · exact h
      exact (iterations_push hmax _ _ _ hpushed).trans (iterations_eq hloops)
  · exact ⟨h, rfl⟩

theorem Quiet.runFor (h : Quiet max s) (n : Nat) :
    iterations max (runFor cfg max env n s) = iterations max s := by
  have hinv : Quiet max (Tenant.runFor cfg max env n s) ∧
      iterations max (Tenant.runFor cfg max env n s) = iterations max s := by
    induction n with
    | zero => exact ⟨h, rfl⟩
    | succ n ih =>
        obtain ⟨hquiet, heq⟩ := @quiet_advance cfg max env _ ih.1
        rw [runFor_succ]
        exact ⟨hquiet, heq.trans ih.2⟩
  exact hinv.2

/-! ## The same effect -/

/-- What can be seen of a call. -/
structure Looks (c d : Call) : Prop where
  actor : c.actor = d.actor
  phase : c.phase = d.phase

theorem Looks.world {c d : Call} (h : Looks c d) : c.world = d.world := by
  rw [Call.world, Call.world, h.phase, h.actor]

theorem Looks.outcome {c d : Call} (h : Looks c d) : outcome c = outcome d := by
  rw [Tenant.outcome, Tenant.outcome, h.phase]

theorem sameEffect_of_looks
    (hcall : ∀ n, Looks (runFor cfg max env n s).call (runFor cfg max env n t).call)
    (hiter : ∀ n, iterations max (runFor cfg max env n s) =
      iterations max (runFor cfg max env n t)) : SameEffect cfg max env s t where
  shows a w := by
    refine exists_congr fun n => ?_
    rw [(hcall n).actor, (hcall n).world]
  ends result a later := by
    refine exists_congr fun n => ?_
    rw [(hcall n).outcome, (hcall n).actor, hiter n]

/-- A first step that cannot be seen makes no difference. -/
theorem SameEffect.delayed (h : SameEffect cfg max env (s.step cfg max env .advance) t)
    (hactor : (s.step cfg max env .advance).call.actor = s.call.actor)
    (hworld : (s.step cfg max env .advance).call.world = s.call.world)
    (hgoing : outcome s.call = none) : SameEffect cfg max env s t where
  shows a w := by
    rw [← h.shows]
    constructor
    · rintro ⟨n, hn⟩
      cases n with
      | zero =>
          refine ⟨0, ?_⟩
          rw [runFor, Function.iterate_zero, id, hactor, hworld]
          exact hn
      | succ n => exact ⟨n, hn⟩
    · rintro ⟨n, hn⟩
      exact ⟨n + 1, hn⟩
  ends result a later := by
    rw [← h.ends]
    constructor
    · rintro ⟨n, hresult, hn⟩
      cases n with
      | zero =>
          rw [runFor, Function.iterate_zero, id, hgoing] at hresult
          cases hresult
      | succ n => exact ⟨n, hresult, hn⟩
    · rintro ⟨n, hn⟩
      exact ⟨n + 1, hn⟩

/-- The strategy asks for a single run, the loop being bounded by `max`. -/
def singleRun (max : Option UInt32) (cronDisabled : Bool) (strategy : SessionStrategy) : Bool :=
  (match strategy.termination with
    | .once => true
    | .goal g => g.maxAttempts = 0 && g.onExhausted = .returnLast) &&
  match strategy.rhythm with
    | .once => true
    | .loop => !cronDisabled && max.any (· ≤ 1)

theorem prompt_call {text : String} {a : SessionActor}
    (h : a.strategy.rhythm = .loop → cfg.cronDisabled = false) :
    Call.prompt cfg text a = match a.strategy.termination with
      | .once => .promptWithContent [.text text none] a
      | .goal g => .runGoalSync text g a := by
  rw [Call.prompt.eq_def]
  cases hrhythm : a.strategy.rhythm with
  | once => cases a.strategy.termination <;> rfl
  | loop => rw [h hrhythm]; cases a.strategy.termination <;> rfl

theorem prompt_refused {text : String} {a : SessionActor} (h : a.strategy.rhythm = .loop)
    (hcron : cfg.cronDisabled = true) :
    Call.prompt cfg text a = Call.begin a (.returned (.error .loopDisabled)) := by
  rw [Call.prompt.eq_def, h, hcron]
  rfl

theorem prompt_eq (hfree : s.taken = false) (text : String) :
    prompt cfg max env text s =
      { s with
        call := .prompt cfg text s.call.actor
        spawning := if s.spawns cfg then some text else none } := by
  rw [prompt, LoopingSession.step, hfree]
  rfl

theorem sendMessage_eq (hfree : s.taken = false) (text : String) :
    sendMessage text s =
      { s with call := .promptWithContent [.text text none] s.call.actor, spawning := none } := by
  rw [sendMessage, hfree]
  rfl

theorem looks_of_lastRun {g : GoalRun} {c d : Call} (h : LastRun g c d) : Looks d c := by
  rw [h.eq]
  exact ⟨rfl, rfl⟩

/-- A goal without attempts, of which the last answer is wanted, has one run. -/
theorem lastRun_runGoalSync {goal : Goal} (hattempts : goal.maxAttempts = 0)
    (hexhausted : goal.onExhausted = .returnLast) (text : String) (a : SessionActor) :
    ∃ g, g.exhausted = true ∧ LastRun g (.promptWithContent [.text text none] a)
      ((Call.runGoalSync text goal a).step cfg env) := by
  let g : GoalRun :=
    { task := text, goal := goal, attempt := 0, lastEval := none, exhausted := true }
  refine ⟨g, rfl, ?_, rfl, fun g' hphase => by cases hphase⟩
  show Call.stepAttempt cfg env { g with exhausted := false } _ = _
  rw [Call.stepAttempt, if_neg (by rw [hattempts]; exact Nat.lt_irrefl 0), hexhausted]
  rfl

/-- Two quiet prompts of one session, whose calls look alike. -/
theorem sameEffect_of_quiet (hs : Quiet max s) (ht : Quiet max t)
    (hloops : iterations max s = iterations max t)
    (hcall : ∀ n, Looks ((Call.step cfg env)^[n] s.call) ((Call.step cfg env)^[n] t.call)) :
    SameEffect cfg max env s t := by
  refine sameEffect_of_looks (fun n => ?_) fun n => ?_
  · rw [runFor_call, runFor_call]
    exact hcall n
  · rw [hs.runFor, ht.runFor, hloops]

theorem sameEffect_of_singleRun (text : String)
    (h : singleRun max cfg.cronDisabled s.call.actor.strategy = true) :
    SameEffect cfg max env (prompt cfg max env text s) (sendMessage text s) := by
  cases htaken : s.taken with
  | true =>
      rw [prompt, LoopingSession.step, sendMessage, htaken]
      exact ⟨fun _ _ => Iff.rfl, fun _ _ _ => Iff.rfl⟩
  | false =>
      rw [prompt_eq htaken, sendMessage_eq htaken]
      rw [singleRun, Bool.and_eq_true] at h
      obtain ⟨htermination, hrhythm⟩ := h
      have hcron : s.call.actor.strategy.rhythm = .loop → cfg.cronDisabled = false := by
        intro hloop
        rw [hloop, Bool.and_eq_true] at hrhythm
        simpa using hrhythm.1
      have hquiet (c : Call) : Quiet max
          { s with call := c, spawning := if s.spawns cfg then some text else none } := by
        cases hspawns : s.spawns cfg with
        | false => exact .inl rfl
        | true =>
            rw [LoopingSession.spawns, Bool.and_eq_true, decide_eq_true_eq] at hspawns
            rw [hspawns.1, Bool.and_eq_true] at hrhythm
            exact .inr hrhythm.2
      rw [prompt_call hcron]
      cases hstrategy : s.call.actor.strategy.termination with
      | once => exact sameEffect_of_quiet (hquiet _) (.inl rfl) rfl fun n => ⟨rfl, rfl⟩
      | goal goal =>
          rw [hstrategy, Bool.and_eq_true, decide_eq_true_eq, decide_eq_true_eq] at htermination
          obtain ⟨g, hg, hlast⟩ := @lastRun_runGoalSync cfg env _ htermination.1 htermination.2 text
            s.call.actor
          obtain ⟨hquiet', hiter⟩ := @quiet_advance cfg max env _
            (hquiet (.runGoalSync text goal s.call.actor))
          refine SameEffect.delayed (sameEffect_of_quiet hquiet' (.inl rfl) hiter fun n => ?_) ?_ ?_ rfl
          · rw [advance_call]
            exact looks_of_lastRun (hlast.iterate hg n)
          · rw [advance_call]
            exact (looks_of_lastRun hlast).actor
          · rw [advance_call]
            exact (looks_of_lastRun hlast).world

/-! ## Sessions that tell the two apart -/

/-- A text that invokes a skill. -/
def skillText : String := "/skill:x"

theorem parse_skillText : Call.parseSkillInvocation skillText = some "x" := by decide +kernel

theorem head?_append {c : Char} {x : String} (h : x.toList.head? = some c) (y : String) :
    (x ++ y).toList.head? = some c := by
  rw [String.toList_append, List.head?_append, h]
  rfl

/-- A goal is not mistaken for an invocation, whatever its task is. -/
theorem parse_goalPrompt (task : String) (criteria : List GoalCriterion) :
    Call.parseSkillInvocation (buildInitialGoalPrompt task criteria) = none := by
  have hhead : (buildInitialGoalPrompt task criteria).toList.head? = some '#' := by
    unfold buildInitialGoalPrompt
    repeat refine head?_append ?_ _
    decide +kernel
  have hmarker : "/skill:".toList.head? = some '/' := by decide +kernel
  rw [Call.parseSkillInvocation]
  refine if_neg fun hstart => ?_
  obtain ⟨rest, hrest⟩ := List.isPrefixOf_iff_prefix.mp hstart
  rw [← hrest, List.head?_append, hmarker] at hhead
  cases hhead

/-- The invocation of a skill that is not there. -/
theorem step_skillText {a : SessionActor} (hstate : a.machine.state ≠ .error)
    (hskills : cfg.skills = []) :
    (Call.step cfg env (.promptWithContent [.text skillText none] a)).phase =
        .returned (.error (.skillNotFound "x")) ∧
      (Call.step cfg env (.promptWithContent [.text skillText none] a)).actor.history =
        (Call.restore env { a with world := { a.world with trace := [] } }).history := by
  have hstep : Call.step cfg env (.promptWithContent [.text skillText none] a) =
      Call.stepPrompt cfg env [.text skillText none]
        (.promptWithContent [.text skillText none] a) := rfl
  have hactor : (Call.promptWithContent [.text skillText none] a).actor =
      { a with world := { a.world with trace := [] } } := rfl
  rw [hstep, Call.stepPrompt.eq_def, hactor]
  dsimp only
  rw [if_neg hstate, parse_skillText]
  dsimp only
  rw [Call.stepSkill, hskills]
  exact ⟨rfl, rfl⟩

/-- A prompt goes as far as its run, and its message is in the history. -/
theorem step_goalPrompt {c : Call} {task : String} {criteria : List GoalCriterion}
    (hphase : c.phase = .prompt [.text (buildInitialGoalPrompt task criteria) none])
    (hstate : c.actor.machine.state ≠ .error) :
    (Call.step cfg env c).actor.history.entries ≠ [] := by
  rw [Call.step, Call.stepWith.eq_def, hphase]
  dsimp only
  rw [Call.stepPrompt.eq_def]
  dsimp only
  rw [if_neg hstate, parse_goalPrompt]
  exact List.append_ne_nil_of_right_ne_nil _ (List.cons_ne_nil _ _)

/-- A session for which nothing but the environment variable may be different. -/
def plainCron (cronDisabled : Bool) : SessionConfig :=
  { plainConfig 0 with cronDisabled := cronDisabled }

def fresh (cronDisabled : Bool) (strategy : SessionStrategy) : LoopingSession :=
  .start (plainCron cronDisabled) strategy

/-- What sending the text does to a new session. -/
theorem send_skillText (cronDisabled : Bool) (strategy : SessionStrategy) (n : Nat) :
    let s := runFor (plainCron cronDisabled) max .quiet n
      (sendMessage skillText (fresh cronDisabled strategy))
    s.call.actor.history.entries = [] ∧
      ∀ result, outcome s.call = some result → result = some (.error (.skillNotFound "x")) := by
  intro s
  have hs : s.call = (Call.step (plainCron cronDisabled) .quiet)^[n]
      (.promptWithContent [.text skillText none] (fresh cronDisabled strategy).call.actor) :=
    runFor_call n _
  rw [hs]
  cases n with
  | zero => exact ⟨rfl, fun result h => by cases h⟩
  | succ n =>
      rw [Function.iterate_succ_apply]
      obtain ⟨hphase, hhistory⟩ := @step_skillText (plainCron cronDisabled) .quiet
        (fresh cronDisabled strategy).call.actor (by intro h; cases h) rfl
      generalize Call.step (plainCron cronDisabled) .quiet _ = c at hphase hhistory
      have hended : c.inProgress = false := by
        rw [Call.inProgress.eq_def, hphase]
      rw [Function.iterate_fixed (step_of_ended hended), hhistory]
      refine ⟨rfl, fun result h => ?_⟩
      rw [outcome, hphase] at h
      injection h with h
      exact h.symm

/-- A strategy that is refused, or does not come to a run. -/
theorem not_sameEffect_of_outcome {cronDisabled : Bool} {strategy : SessionStrategy} {n : Nat}
    {e : AgentError}
    (h : outcome (runFor (plainCron cronDisabled) max .quiet n
      (prompt (plainCron cronDisabled) max .quiet skillText (fresh cronDisabled strategy))).call =
        some (some (.error e))) (he : e ≠ .skillNotFound "x") :
    ¬ SameEffect (plainCron cronDisabled) max .quiet
      (prompt (plainCron cronDisabled) max .quiet skillText (fresh cronDisabled strategy))
      (sendMessage skillText (fresh cronDisabled strategy)) := by
  intro hsame
  obtain ⟨m, hm, -⟩ := (hsame.ends _ _ _).mp ⟨n, h, rfl, rfl⟩
  have hsent := (send_skillText cronDisabled strategy m).2 _ hm
  injection hsent with hsent
  injection hsent with hsent
  exact he hsent

/-- The first attempt at a goal puts its message into the history. -/
theorem attempt_pushes {goal : Goal} (hattempts : 0 < goal.maxAttempts) (task : String)
    {a : SessionActor} (hstate : a.machine.state ≠ .error) :
    ((Call.step cfg env)^[2] (.runGoalSync task goal a)).actor.history.entries ≠ [] := by
  have hstep : Call.step cfg env (.runGoalSync task goal a) =
      Call.stepAttempt cfg env
        { task := task, goal := goal, attempt := 0, lastEval := none, exhausted := false }
        (.runGoalSync task goal a) := rfl
  rw [Function.iterate_succ_apply, Function.iterate_one, hstep, Call.stepAttempt, if_pos hattempts]
  refine step_goalPrompt rfl ?_
  rw [SessionActor.applyContextStrategy_spec _ |>.1]
  exact hstate

theorem prompt_goal {cronDisabled : Bool} {strategy : SessionStrategy} {goal : Goal}
    (hcron : strategy.rhythm = .loop → cronDisabled = false)
    (hgoal : strategy.termination = .goal goal) (text : String) (env : Env) :
    (prompt (plainCron cronDisabled) max env text (fresh cronDisabled strategy)).call =
      .runGoalSync text goal (fresh cronDisabled strategy).call.actor := by
  rw [prompt_eq rfl]
  refine (prompt_call hcron).trans ?_
  show (match strategy.termination with | .once => _ | .goal g => _) = _
  rw [hgoal]

/-- A goal with attempts is another message. -/
theorem not_sameEffect_of_attempts {cronDisabled : Bool} {strategy : SessionStrategy} {goal : Goal}
    (hcron : strategy.rhythm = .loop → cronDisabled = false)
    (hgoal : strategy.termination = .goal goal) (hattempts : 0 < goal.maxAttempts) :
    ¬ SameEffect (plainCron cronDisabled) max .quiet
      (prompt (plainCron cronDisabled) max .quiet skillText (fresh cronDisabled strategy))
      (sendMessage skillText (fresh cronDisabled strategy)) := by
  intro hsame
  have hpushed : (runFor (plainCron cronDisabled) max .quiet 2
      (prompt (plainCron cronDisabled) max .quiet skillText
        (fresh cronDisabled strategy))).call.actor.history.entries ≠ [] := by
    rw [runFor_call, prompt_goal hcron hgoal]
    exact attempt_pushes hattempts _ (by intro h; cases h)
  obtain ⟨n, hn, -⟩ := (hsame.shows _ _).mp ⟨2, rfl, rfl⟩
  rw [← hn] at hpushed
  exact hpushed (send_skillText cronDisabled strategy n).1

/-! ### Loops that go on -/

/-- While its prompt is in progress a loop is waiting to be spawned; when the
prompt has returned `Ok`, it has been. -/
structure Spawning (task : String) (s : LoopingSession) : Prop where
  going : s.call.inProgress = true → s.spawning = some task
  spawned : ∀ msgs, s.call.phase = .returned (.ok msgs) →
    ∃ termination token, .spawn task termination token ∈ s.loops

theorem spawning_finish {task : String} (h : s.spawning = some task) :
    Spawning task s.finish := by
  have hcall := (finish_cases s).1
  refine ⟨fun hgoing => ?_, fun msgs hok => ?_⟩
  · rw [hcall, Call.inProgress.eq_def] at hgoing
    rw [LoopingSession.finish.eq_def]
    cases hphase : s.call.phase with
    | returned result =>
        rw [hphase] at hgoing
        cases hgoing
    | panicked =>
        rw [hphase] at hgoing
        cases hgoing
    | _ => exact h
  · rw [hcall] at hok
    refine ⟨s.call.actor.strategy.termination, s.current, ?_⟩
    rw [LoopingSession.finish.eq_def, hok, h]
    exact List.mem_append_right _ (List.mem_singleton_self _)

theorem Spawning.advance {task : String} (h : Spawning task s) :
    Spawning task (s.step cfg max env .advance) := by
  rw [LoopingSession.step]
  split
  · next hgoing =>
      refine spawning_finish ?_
      rw [(goOn_frame _ _).2.1]
      exact h.going hgoing
  · exact h

theorem Spawning.runFor {task : String} (h : Spawning task s) (n : Nat) :
    Spawning task (Tenant.runFor cfg max env n s) :=
  iterate_invariant (fun _ hs => hs.advance) h n

/-- A loop that the first run does not bring to its bound has a second one. -/
theorem iterations_of_mem {task : String} {termination : TerminationStrategy} {token : Nat}
    (hmax : max.any (· ≤ 1) = false) (h : .spawn task termination token ∈ s.loops) :
    iterations max s ≠ ∅ := by
  refine Set.Nonempty.ne_empty ⟨termination.iterationText task, _, h, 2, ?_⟩
  have hhead : (BackgroundLoop.spawn task termination token).step max false =
      { BackgroundLoop.spawn task termination token with phase := .sleeping } := by
    show (if max.any (· ≤ 1) = true then _ else _) = _
    rw [hmax]
    rfl
  rw [Function.iterate_succ_apply, hhead]
  exact List.mem_singleton_self _

/-- The message of a plain text, on its way to the run. -/
theorem step_plainText {a : SessionActor} {text : String}
    (hparse : Call.parseSkillInvocation text = none) (hstate : a.machine.state ≠ .error) :
    Call.step cfg env (.promptWithContent [.text text none] a) =
      let a := Call.restore env { a with world := { a.world with trace := [] } }
      { Call.begin a .head with
        actor := a.pushMessage env
          (.user { content := [.text text none], timestamp := env.clock a.world.now }) } := by
  have hstep : Call.step cfg env (.promptWithContent [.text text none] a) =
      Call.stepPrompt cfg env [.text text none] (.promptWithContent [.text text none] a) := rfl
  have hactor : (Call.promptWithContent [.text text none] a).actor =
      { a with world := { a.world with trace := [] } } := rfl
  rw [hstep, Call.stepPrompt.eq_def, hactor]
  dsimp only
  rw [if_neg hstate, hparse]
  rfl

def succeeded (c : Call) : Bool :=
  match c.phase with
  | .returned (.ok _) => true
  | _ => false

theorem succeeded_congr {c d : Call} (h : c.phase = d.phase) : succeeded c = succeeded d := by
  rw [succeeded, succeeded, h]

theorem exists_of_succeeded {c : Call} (h : succeeded c = true) :
    ∃ msgs, c.phase = .returned (.ok msgs) := by
  unfold succeeded at h
  split at h
  · next msgs hphase => exact ⟨msgs, hphase⟩
  · cases h

/-- A new session, with a message that is about to be answered. -/
def asked (strategy : SessionStrategy) : Call :=
  let a := SessionActor.new (plainConfig 0)
  Call.begin { a with
    history := { a.history with entries := [.message 0 (userText "go")], needsRestore := false }
    world := { a.world with ids := 1 }
    strategy := strategy } .head

theorem succeeded_asked (strategy : SessionStrategy) :
    succeeded ((Call.step (plainCron false) LoopingSession.obliging)^[8] (asked strategy)) = true := by
  rfl

/-- A new session is answered, whatever its strategy is. -/
theorem send_obliging (strategy : SessionStrategy) :
    succeeded ((Call.step (plainCron false) LoopingSession.obliging)^[9]
      (.promptWithContent [.text "go" none] (fresh false strategy).call.actor)) = true := by
  have hasked : Call.step (plainCron false) LoopingSession.obliging
      (.promptWithContent [.text "go" none] (fresh false strategy).call.actor) = asked strategy := by
    rw [step_plainText (by decide +kernel) (by intro h; cases h)]
    rfl
  rw [Function.iterate_succ_apply, hasked]
  exact succeeded_asked strategy

/-- A loop with more than one iteration is spawned by a prompt and by nothing
else. -/
theorem not_sameEffect_of_loop {strategy : SessionStrategy} {c : Call}
    (hrhythm : strategy.rhythm = .loop) (hmax : max.any (· ≤ 1) = false)
    (hcall : (prompt (plainCron false) max LoopingSession.obliging "go"
      (fresh false strategy)).call = c)
    (hgoing : ∀ result, c.phase ≠ .returned result) {n : Nat}
    (hok : succeeded ((Call.step (plainCron false) LoopingSession.obliging)^[n] c) = true) :
    ¬ SameEffect (plainCron false) max LoopingSession.obliging
      (prompt (plainCron false) max LoopingSession.obliging "go" (fresh false strategy))
      (sendMessage "go" (fresh false strategy)) := by
  intro hsame
  have hspawning : Spawning "go"
      (prompt (plainCron false) max LoopingSession.obliging "go" (fresh false strategy)) := by
    refine ⟨fun _ => ?_, fun msgs hreturned => ?_⟩
    · rw [prompt_eq rfl]
      refine if_pos ?_
      rw [LoopingSession.spawns, Bool.and_eq_true, decide_eq_true_eq]
      exact ⟨hrhythm, rfl⟩
    · rw [hcall] at hreturned
      exact absurd hreturned (hgoing _)
  obtain ⟨msgs, hmsgs⟩ := exists_of_succeeded hok
  rw [← hcall, ← runFor_call] at hmsgs
  obtain ⟨termination, token, hmem⟩ := (hspawning.runFor n).spawned msgs hmsgs
  have hsome := iterations_of_mem hmax hmem
  obtain ⟨m, -, -, hlater⟩ := (hsame.ends (some (.ok msgs)) _ _).mp
    ⟨n, by rw [outcome, hmsgs], rfl, rfl⟩
  have hquiet : Quiet max (sendMessage "go" (fresh false strategy)) := .inl rfl
  rw [← hlater, hquiet.runFor] at hsome
  refine hsome (Set.eq_empty_of_forall_notMem fun text htext => ?_)
  obtain ⟨l, hl, -⟩ := htext
  cases hl

theorem prompt_once {cronDisabled : Bool} {strategy : SessionStrategy}
    (hcron : strategy.rhythm = .loop → cronDisabled = false)
    (honce : strategy.termination = .once) (text : String) (env : Env) :
    (prompt (plainCron cronDisabled) max env text (fresh cronDisabled strategy)).call =
      .promptWithContent [.text text none] (fresh cronDisabled strategy).call.actor := by
  rw [prompt_eq rfl]
  refine (prompt_call hcron).trans ?_
  show (match strategy.termination with | .once => _ | .goal g => _) = _
  rw [honce]

/-- A single run whose loop goes on. -/
theorem not_sameEffect_of_once {strategy : SessionStrategy} (hrhythm : strategy.rhythm = .loop)
    (hmax : max.any (· ≤ 1) = false) (honce : strategy.termination = .once) :
    ¬ SameEffect (plainCron false) max LoopingSession.obliging
      (prompt (plainCron false) max LoopingSession.obliging "go" (fresh false strategy))
      (sendMessage "go" (fresh false strategy)) :=
  not_sameEffect_of_loop hrhythm hmax (prompt_once (fun _ => rfl) honce _ _)
    (fun result hphase => by cases hphase) (send_obliging strategy)

/-- The last run of a goal whose loop goes on. -/
theorem not_sameEffect_of_exhausted {strategy : SessionStrategy} {goal : Goal}
    (hrhythm : strategy.rhythm = .loop) (hmax : max.any (· ≤ 1) = false)
    (hgoal : strategy.termination = .goal goal) (hattempts : goal.maxAttempts = 0)
    (hexhausted : goal.onExhausted = .returnLast) :
    ¬ SameEffect (plainCron false) max LoopingSession.obliging
      (prompt (plainCron false) max LoopingSession.obliging "go" (fresh false strategy))
      (sendMessage "go" (fresh false strategy)) := by
  obtain ⟨g, hg, hlast⟩ := @lastRun_runGoalSync (plainCron false) LoopingSession.obliging goal
    hattempts hexhausted "go" (fresh false strategy).call.actor
  have hrun := @LastRun.iterate (plainCron false) LoopingSession.obliging _ _ _ hlast hg 9
  have hok : succeeded ((Call.step (plainCron false) LoopingSession.obliging)^[10]
      (.runGoalSync "go" goal (fresh false strategy).call.actor)) = true := by
    rw [Function.iterate_succ_apply, succeeded_congr (looks_of_lastRun hrun).phase]
    exact send_obliging strategy
  exact not_sameEffect_of_loop hrhythm hmax (prompt_goal (fun _ => rfl) hgoal _ _)
    (fun result hphase => by cases hphase) hok

/-- For every strategy that asks for more than a single run. -/
theorem not_sameEffect_of_not_singleRun {strategy : SessionStrategy} {cronDisabled : Bool}
    (h : singleRun max cronDisabled strategy = false) :
    ∃ env text, ¬ SameEffect (plainCron cronDisabled) max env
      (prompt (plainCron cronDisabled) max env text (fresh cronDisabled strategy))
      (sendMessage text (fresh cronDisabled strategy)) := by
  by_cases hcron : strategy.rhythm = .loop → cronDisabled = false
  · have hloop (htermination : (match strategy.termination with
        | .once => true
        | .goal g => g.maxAttempts = 0 && g.onExhausted = .returnLast) = true) :
        strategy.rhythm = .loop ∧ max.any (· ≤ 1) = false := by
      rw [singleRun, htermination, Bool.true_and] at h
      cases hrhythm : strategy.rhythm with
      | once =>
          rw [hrhythm] at h
          cases h
      | loop =>
          rw [hrhythm, hcron hrhythm] at h
          exact ⟨rfl, h⟩
    cases htermination : strategy.termination with
    | once =>
        obtain ⟨hrhythm, hmax⟩ := hloop (by rw [htermination])
        have hfalse := hcron hrhythm
        subst hfalse
        exact ⟨_, _, not_sameEffect_of_once hrhythm hmax htermination⟩
    | goal goal =>
        rcases Nat.eq_zero_or_pos goal.maxAttempts with hattempts | hattempts
        · cases hexhausted : goal.onExhausted with
          | returnLast =>
              obtain ⟨hrhythm, hmax⟩ := hloop (by simp [htermination, hattempts, hexhausted])
              have hfalse := hcron hrhythm
              subst hfalse
              exact ⟨_, _,
                not_sameEffect_of_exhausted hrhythm hmax htermination hattempts hexhausted⟩
          | abort =>
              refine ⟨_, _, not_sameEffect_of_outcome (n := 1)
                (e := .goalNotMet (goal.criteria.map GoalCriterion.id) goal.maxAttempts) ?_
                (by intro h; cases h)⟩
              rw [runFor_call, prompt_goal hcron htermination]
              show outcome (Call.stepAttempt _ _ _ _) = _
              rw [Call.stepAttempt, if_neg (by rw [hattempts]; exact Nat.lt_irrefl 0), hexhausted]
              rfl
        · exact ⟨_, _, not_sameEffect_of_attempts hcron htermination hattempts⟩
  · -- The loop is refused.
    rw [Classical.not_imp, Bool.not_eq_false] at hcron
    obtain ⟨hrhythm, hdisabled⟩ := hcron
    subst hdisabled
    refine ⟨_, _, not_sameEffect_of_outcome (n := 0) (e := .loopDisabled) ?_ (by intro h; cases h)⟩
    rw [runFor_call, prompt_eq rfl]
    show outcome (Call.prompt _ _ _) = _
    rw [prompt_refused hrhythm rfl]
    rfl

/-- For which strategies sending has the effect of prompting, over all sessions
that have the strategy and all texts. -/
theorem sameEffect_iff_singleRun (strategy : SessionStrategy) (max : Option UInt32)
    (cronDisabled : Bool) :
    (∀ cfg env s text, cfg.cronDisabled = cronDisabled → s.call.actor.strategy = strategy →
      SameEffect cfg max env (prompt cfg max env text s) (sendMessage text s)) ↔
      singleRun max cronDisabled strategy = true := by
  constructor
  · intro h
    by_contra hmore
    obtain ⟨env, text, hdiffer⟩ := not_sameEffect_of_not_singleRun (Bool.eq_false_iff.mpr hmore)
    exact hdiffer (h _ env _ text rfl rfl)
  · intro h cfg env s text hcron hstrategy
    refine sameEffect_of_singleRun text ?_
    rw [hcron, hstrategy]
    exact h

/-! ## A goal that is not verified -/

theorem ended_of_outcome {c : Call} {r : Option (Except AgentError (List AgentMessage))}
    (h : outcome c = some r) : c.inProgress = false := by
  rw [outcome.eq_def] at h
  rw [Call.inProgress.eq_def]
  cases hphase : c.phase with
  | returned result => rfl
  | panicked => rfl
  | _ =>
      rw [hphase] at h
      cases h

/-- A call that has ended stays as it is. -/
theorem outcome_runFor_of_le {m n : Nat} {r : Option (Except AgentError (List AgentMessage))}
    (h : outcome (runFor cfg max env m s).call = some r) (hle : m ≤ n) :
    outcome (runFor cfg max env n s).call = some r := by
  obtain ⟨k, rfl⟩ := Nat.exists_eq_add_of_le' hle
  rw [runFor_call] at h ⊢
  rw [Function.iterate_add_apply, Function.iterate_fixed (step_of_ended (ended_of_outcome h))]
  exact h

theorem outcome_unique {m n : Nat} {r r' : Option (Except AgentError (List AgentMessage))}
    (hm : outcome (runFor cfg max env m s).call = some r)
    (hn : outcome (runFor cfg max env n s).call = some r') : r = r' := by
  have hm' := outcome_runFor_of_le hm (Nat.le_max_left m n)
  have hn' := outcome_runFor_of_le hn (Nat.le_max_right m n)
  rw [hm'] at hn'
  injection hn'

def answerCriterion : GoalCriterion :=
  { id := "answer", description := "the answer is given", verification := .outputContains "42" }

def verifying : SessionStrategy :=
  { termination := .goal { criteria := [answerCriterion], maxAttempts := 1, onExhausted := .abort }
    rhythm := .once
    context := .accumulate }

/-- The provider says it is done, and the message is answered; prompted with the
same text, the session looks for the answer and fails. -/
theorem not_sameEffect_verifying :
    (∃ msgs, outcome (runFor (plainCron false) none LoopingSession.obliging 9
      (sendMessage "go" (fresh false verifying))).call = some (some (.ok msgs))) ∧
      outcome (runFor (plainCron false) none LoopingSession.obliging 11
        (prompt (plainCron false) none LoopingSession.obliging "go" (fresh false verifying))).call =
        some (some (.error (.goalNotMet ["answer"] 1))) ∧
      ¬ SameEffect (plainCron false) none LoopingSession.obliging
        (prompt (plainCron false) none LoopingSession.obliging "go" (fresh false verifying))
        (sendMessage "go" (fresh false verifying)) := by
  have hsent : ∃ msgs, outcome (runFor (plainCron false) none LoopingSession.obliging 9
      (sendMessage "go" (fresh false verifying))).call = some (some (.ok msgs)) := by
    obtain ⟨msgs, hmsgs⟩ := exists_of_succeeded (send_obliging verifying)
    refine ⟨msgs, ?_⟩
    rw [runFor_call, sendMessage_eq rfl, outcome, hmsgs]
  have hprompted : outcome (runFor (plainCron false) none LoopingSession.obliging 11
      (prompt (plainCron false) none LoopingSession.obliging "go" (fresh false verifying))).call =
        some (some (.error (.goalNotMet ["answer"] 1))) := by
    decide +kernel
  refine ⟨hsent, hprompted, fun hsame => ?_⟩
  obtain ⟨msgs, hmsgs⟩ := hsent
  obtain ⟨n, hn, -⟩ := (hsame.ends _ _ _).mp ⟨11, hprompted, rfl, rfl⟩
  cases outcome_unique hmsgs hn

end Pandaria.Tenant
