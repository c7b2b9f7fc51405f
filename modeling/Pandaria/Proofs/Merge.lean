import Mathlib.Data.List.Pairwise
import Pandaria.Proofs.Driving
import Pandaria.Proofs.Execution
import Pandaria.Proofs.Objects

/-!
# What merging a branch does to a context

A context is looked at through `get` on its shared object and through its
thread. Merging a branch overwrites the shared fields the branch has, those it
was only cloned with included, and appends the branch's whole thread, the part
it was cloned with included.
-/

namespace Pandaria.Comp

open Pandaria.Ai

/-! ## Merging -/

theorem isObject_mergeFields (main : Json) (fields : List (String × Json)) :
    (mergeFields main fields).isObject = main.isObject := by
  induction fields generalizing main with
  | nil => rfl
  | cons f fields ih => exact (ih _).trans (isObject_insertIfObject main _ _)

theorem distinct_mergeFields {main : Json} (h : main.Distinct) (fields : List (String × Json)) :
    (mergeFields main fields).Distinct := by
  induction fields generalizing main with
  | nil => exact h
  | cons f fields ih => exact ih (distinct_insertIfObject h _ _)

/-- The fields of a branch come before those of the main object. -/
theorem get_mergeFields {main : Json} (h : main.isObject = true) {fields : List (String × Json)}
    (hn : (fields.map Prod.fst).Nodup) (k : String) :
    Json.get k (mergeFields main fields) = (Json.get k (.obj fields)).or (Json.get k main) := by
  induction fields generalizing main with
  | nil => rfl
  | cons f fields ih =>
      rw [List.map_cons, List.nodup_cons] at hn
      have hf : (main.insertIfObject (some f.1) f.2).isObject = true := by
        rw [isObject_insertIfObject, h]
      rw [show mergeFields main (f :: fields) =
        mergeFields (main.insertIfObject (some f.1) f.2) fields from rfl, ih hf hn.2,
        get_insertIfObject h, Json.get_cons]
      by_cases hk : f.1 = k
      · have habs : Json.get k (.obj fields) = none := Json.get_eq_none.mpr (hk ▸ hn.1)
        simp [hk, habs]
      · simp [hk]

theorem isObject_mergeContext (main branch : TeamContext) :
    (mergeContext main branch).shared.isObject = main.shared.isObject := by
  rw [mergeContext]
  split
  · exact isObject_mergeFields _ _
  · rfl

theorem distinct_mergeContext {main : TeamContext} (h : main.shared.Distinct)
    (branch : TeamContext) : (mergeContext main branch).shared.Distinct := by
  rw [mergeContext]
  split
  · exact distinct_mergeFields h _
  · exact h

theorem get_mergeContext {main branch : TeamContext} (h : main.shared.isObject = true)
    (hn : branch.shared.Distinct) (k : String) :
    Json.get k (mergeContext main branch).shared =
      (Json.get k branch.shared).or (Json.get k main.shared) := by
  rw [mergeContext]
  split
  · next fields hb =>
      rw [hb] at hn ⊢
      exact get_mergeFields h hn k
  · next hb =>
      have hno : branch.shared.isObject = false := by
        cases hj : branch.shared with
        | obj fields => exact absurd hj (hb fields)
        | _ => rfl
      rw [Json.get_of_not_object hno]
      rfl

/-! ## What an execution leaves behind -/

/-- The output an execution announces. -/
def announced (x : Execution) : Option Json :=
  x.acts.findSome? fun
    | .emit (.missionCompleted _ value _ _) => some value
    | _ => none

namespace Execution

/-- Its clone of the squad is merged. -/
def merges (x : Execution) : Bool :=
  match x.result with
  | some (.ok ()) => true
  | _ => false

/-- Its result makes the driver return. -/
def leaves (x : Execution) : Bool :=
  match x.result with
  | some (.ok ()) => x.squad.status.paused
  | some (.error _) => true
  | none => false

end Execution

variable {a : MissionAnswers} {m : Mission} {s : Squad} {x : Execution}

theorem announced_openingActs (h : x.acts <+: openingActs a m s) : announced x = none := by
  rw [announced, List.findSome?_eq_none_iff]
  intro act hact
  rcases openingActs_cases (h.subset hact) with ⟨signal, -, rfl⟩ | rfl | rfl
  · rfl
  · rfl
  · rfl

theorem announced_append {acts : List Act} (h : x.acts = openingActs a m s ++ acts) :
    announced x = acts.findSome? fun
      | .emit (.missionCompleted _ value _ _) => some value
      | _ => none := by
  have hopen : announced { x with acts := openingActs a m s } = none :=
    announced_openingActs (List.prefix_refl _)
  rw [announced] at hopen
  rw [announced, h, List.findSome?_append, hopen]
  rfl

/-- An execution that announces an output has stored it, and one that ends well
without is one that pauses. -/
theorem announced_cases (h : Executed a m s x) :
    (∃ handoff value, announced x = some value ∧ x.result = some (.ok ()) ∧
      x.squad.context = storeOutput a m handoff value s.context ∧
      x.squad.status = if m.breakpoint then .breakpoint m.id else s.status) ∨
    (announced x = none ∧ (x.merges = true → x.leaves = true ∧ x.squad.context = s.context)) := by
  have hbad : x.result ≠ some (.ok ()) → x.merges = true →
      x.leaves = true ∧ x.squad.context = s.context := by
    intro hr hm
    rw [Execution.merges] at hm
    split at hm
    · next hok => exact absurd hok hr
    · cases hm
  cases h with
  | stopped hacts hr => exact .inr ⟨announced_openingActs hacts, hbad hr⟩
  | waiting signal hm hn hacts hr hc hst =>
      refine .inr ⟨by rw [announced, hacts]; rfl, fun _ => ⟨?_, hc⟩⟩
      rw [Execution.leaves, hr, hst]
      rfl
  | answered succeeded hacts hr hp =>
      exact .inr ⟨by rw [announced_append hacts]; rfl, hbad hr⟩
  | completed handoff value hacts hr hc hst =>
      exact .inl ⟨handoff, value, by rw [announced_append hacts]; rfl, hr, hc, hst⟩
  | retrying reason wakeAt hm hacts hr hc hst =>
      refine .inr ⟨by rw [announced_append hacts]; rfl, fun _ => ⟨?_, hc⟩⟩
      rw [Execution.leaves, hr, hst]
      rfl
  | failed reason hm hacts hr =>
      exact .inr ⟨by rw [announced_append hacts]; rfl, hbad (by rw [hr]; nofun)⟩

theorem storeOutput_shared (a : MissionAnswers) (m : Mission) (handoff : Option Handoff)
    (value : Json) (ctx : TeamContext) :
    (storeOutput a m handoff value ctx).shared = ctx.shared.insertIfObject m.outputKey value := by
  cases handoff <;> rfl

/-- The messages of a mission's output: that of the handoff, where there is
one, and that of the output itself. -/
theorem storeOutput_thread (a : MissionAnswers) (m : Mission) (handoff : Option Handoff)
    (value : Json) (ctx : TeamContext) :
    ∃ own output, (storeOutput a m handoff value ctx).thread = ctx.thread ++ (own ++ [output]) ∧
      output.id = a.outputStamp.1 ∧ (∀ msg ∈ own, msg.id = a.handoffStamp.1) := by
  cases handoff with
  | none => exact ⟨[], _, rfl, rfl, by simp⟩
  | some h =>
      refine ⟨[_], _, List.append_assoc _ _ _, rfl, ?_⟩
      intro msg hmsg
      rw [List.mem_singleton] at hmsg
      subst hmsg
      rfl

end Pandaria.Comp

/-!
## A batch, whatever the order it ends in

A batch starts at a loop head with missions to spawn and ends when the driver
has heard of all of them or has left. In between the executions take turns in
any order, and `Ends` ranges over all of these. What the driver has merged by
then is a fold over the missions it has heard of, in the order it heard of
them, so that the question of the order is one about that fold.
-/

namespace Pandaria.Comp

open Pandaria.Ai

variable {cfg : EngineConfig} {team : ValidTeam} {answers : String → MissionAnswers}

namespace System

/-- What happens between two loop heads, when the executions are answered as
given. -/
inductive Collecting (answers : String → MissionAnswers) : Label → Prop where
  | spawn (id : String) : Collecting answers (.spawn id (answers id))
  | advance (id : String) : Collecting answers (.advance id)
  | advanceOrphan (index : Nat) : Collecting answers (.advanceOrphan index)
  | receive (id : String) (a : DriverAnswers) : Collecting answers (.receive id a)

/-- The missions about to be spawned. -/
def todo (t : System) : List Mission :=
  match t.phase with
  | .driving d => d.todo
  | _ => []

/-- Nothing is left to spawn or to hear of. -/
def Collected (t : System) : Prop := t.batch = [] ∧ t.todo = []

def Reaches (cfg : EngineConfig) (team : ValidTeam) (answers : String → MissionAnswers)
    (s t : System) : Prop :=
  ∃ labels : List Label, (∀ l ∈ labels, Collecting answers l) ∧
    t = labels.foldl (step cfg team) s

/-- One of the ways the batch can end that `s` is about to spawn. -/
def Ends (cfg : EngineConfig) (team : ValidTeam) (answers : String → MissionAnswers)
    (s t : System) : Prop :=
  Reaches cfg team answers s t ∧ t.Collected

/-- The execution of a mission of the batch. -/
def execution (cfg : EngineConfig) (answers : String → MissionAnswers) (s : System) (m : Mission) :
    Execution :=
  executeMission cfg (answers m.id) s.squad m

/-- The ids a mission's messages are given. -/
def stamps (answers : String → MissionAnswers) (m : Mission) : List String :=
  [(answers m.id).handoffStamp.1, (answers m.id).outputStamp.1]

/-- A loop head that has scheduled missions with disjoint output keys. The ids
of new messages are new. -/
structure Batch (answers : String → MissionAnswers) (s : System) (d : Driver) : Prop where
  phase : s.phase = .driving d
  process : d.team.team.defaultProcess = .sequential
  running : s.squad.status = .running
  batch : s.batch = []
  apart : (d.todo.map Mission.id).Nodup
  keys : d.todo.Pairwise fun m m' => ∀ key, m.outputKey = some key → m'.outputKey ≠ some key
  distinct : s.squad.context.shared.Distinct
  fresh : (d.todo.flatMap (stamps answers)).Nodup
  unseen : ∀ id ∈ d.todo.flatMap (stamps answers), ∀ msg ∈ s.squad.context.thread, msg.id ≠ id

/-- The messages a completed mission has added to its clone of the thread. -/
def messages (s : System) (x : Execution) : List ThreadMessage :=
  if (announced x).isSome then x.squad.context.thread.drop s.squad.context.thread.length else []

/-- What is asked of every way a batch can end: the output of every mission
that has completed, and each message once. -/
structure Merged (cfg : EngineConfig) (answers : String → MissionAnswers) (s : System) (d : Driver)
    (t : System) : Prop where
  outputs : ∀ m ∈ d.todo, ∀ key value, m.outputKey = some key →
    announced (execution cfg answers s m) = some value →
      Json.get key t.squad.context.shared = some value
  thread : t.squad.context.thread.Perm (s.squad.context.thread ++
    d.todo.flatMap fun m => messages s (execution cfg answers s m))

/-- And of any two of them: the same shared object. -/
def SameShared (t t' : System) : Prop :=
  ∀ key, Json.get key t.squad.context.shared = Json.get key t'.squad.context.shared

/-- When a batch can be merged in any order. -/
structure Mergeable (cfg : EngineConfig) (answers : String → MissionAnswers) (s : System)
    (d : Driver) : Prop where
  /-- Beside a mission that completes, no other pauses or fails. -/
  kept : ∀ m ∈ d.todo, ∀ m' ∈ d.todo, m ≠ m' →
    (announced (execution cfg answers s m)).isSome → (execution cfg answers s m').leaves = false
  /-- There is nothing in the thread yet, or nothing will be merged. -/
  thread : s.squad.context.thread = [] ∨ ∀ m ∈ d.todo, (execution cfg answers s m).merges = false
  /-- Outputs have somewhere to go. -/
  object : s.squad.context.shared.isObject = true ∨ ∀ m ∈ d.todo,
    (announced (execution cfg answers s m)).isSome → m.outputKey = none
  /-- No other clone has an older value under the key of an output. -/
  stale : ∀ m ∈ d.todo, ∀ m' ∈ d.todo, m ≠ m' → ∀ key value, m.outputKey = some key →
    announced (execution cfg answers s m) = some value →
    (execution cfg answers s m').merges = true →
      Json.get key s.squad.context.shared = none ∨
        Json.get key s.squad.context.shared = some value

/-! ### The fold -/

/-- The context after hearing of `ms`. -/
def gather (f : Mission → Execution) (ctx : TeamContext) (ms : List Mission) : TeamContext :=
  (ms.filter fun m => (f m).merges).foldl (fun ctx m => mergeContext ctx (f m).squad.context) ctx

variable {f : Mission → Execution} {ctx : TeamContext}

theorem gather_append (ms ms' : List Mission) :
    gather f ctx (ms ++ ms') = gather f (gather f ctx ms) ms' := by
  rw [gather, gather, gather, List.filter_append, List.foldl_append]

theorem gather_merges {m : Mission} (h : (f m).merges = true) :
    gather f ctx [m] = mergeContext ctx (f m).squad.context := by
  rw [gather, List.filter_cons, if_pos h]
  rfl

theorem gather_not_merges {m : Mission} (h : (f m).merges = false) : gather f ctx [m] = ctx := by
  rw [gather, List.filter_cons, if_neg (by rw [h]; exact Bool.false_ne_true)]
  rfl

theorem thread_gather (ms : List Mission) :
    (gather f ctx ms).thread = ctx.thread ++
      (ms.filter fun m => (f m).merges).flatMap fun m => (f m).squad.context.thread := by
  rw [gather]
  induction ms.filter fun m => (f m).merges generalizing ctx with
  | nil => simp
  | cons m ms ih =>
      rw [List.foldl_cons, ih, List.flatMap_cons, ← List.append_assoc]
      rfl

theorem isObject_gather (ms : List Mission) :
    (gather f ctx ms).shared.isObject = ctx.shared.isObject := by
  rw [gather]
  induction ms.filter fun m => (f m).merges generalizing ctx with
  | nil => rfl
  | cons m ms ih =>
      rw [List.foldl_cons, ih]
      exact isObject_mergeContext _ _

/-- A key whose value each of the merged branches agrees with keeps it. -/
theorem get_gather_keep {ms : List Mission} {key : String} {value : Option Json}
    (ho : ctx.shared.isObject = true)
    (hd : ∀ m ∈ ms, (f m).merges = true → (f m).squad.context.shared.Distinct)
    (hc : Json.get key ctx.shared = value)
    (hm : ∀ m ∈ ms, (f m).merges = true → Json.get key (f m).squad.context.shared = none ∨
      Json.get key (f m).squad.context.shared = value) :
    Json.get key (gather f ctx ms).shared = value := by
  induction ms generalizing ctx with
  | nil => exact hc
  | cons m ms ih =>
      rw [show m :: ms = [m] ++ ms from rfl, gather_append]
      have hone : Json.get key (gather f ctx [m]).shared = value := by
        cases hmg : (f m).merges with
        | false => rw [gather_not_merges hmg, hc]
        | true =>
            rw [gather_merges hmg, get_mergeContext ho (hd m List.mem_cons_self hmg), hc]
            rcases hm m List.mem_cons_self hmg with h | h
            · rw [h]
              rfl
            · rw [h]
              cases value <;> rfl
      exact ih ((isObject_gather [m]).trans ho) (fun m' h => hd m' (List.mem_cons_of_mem _ h)) hone
        fun m' h => hm m' (List.mem_cons_of_mem _ h)

/-- A branch that was merged has set its keys, as far as no later one differs. -/
theorem get_gather_set {pre post : List Mission} {m : Mission} {key : String} {value : Json}
    (ho : ctx.shared.isObject = true)
    (hd : ∀ m' ∈ pre ++ m :: post, (f m').merges = true → (f m').squad.context.shared.Distinct)
    (hmg : (f m).merges = true) (hv : Json.get key (f m).squad.context.shared = some value)
    (hm : ∀ m' ∈ post, (f m').merges = true → Json.get key (f m').squad.context.shared = none ∨
      Json.get key (f m').squad.context.shared = some value) :
    Json.get key (gather f ctx (pre ++ m :: post)).shared = some value := by
  have hpre : (gather f ctx pre).shared.isObject = true := (isObject_gather pre).trans ho
  rw [show pre ++ m :: post = pre ++ ([m] ++ post) from rfl, gather_append, gather_append,
    gather_merges hmg]
  refine get_gather_keep ((isObject_mergeContext _ _).trans hpre)
    (fun m' h => hd m' (by simp [h])) ?_ hm
  rw [get_mergeContext hpre (hd m (by simp) hmg), hv]
  rfl

/-! ### Collecting -/

/-- `received` is what the driver has heard of, in order, some way into the
batch of `s`. -/
structure Gathering (cfg : EngineConfig) (answers : String → MissionAnswers) (s : System)
    (d : Driver) (received : List Mission) (t : System) : Prop where
  context : t.squad.context = gather (execution cfg answers s) s.squad.context received
  state :
    (∃ d', t.phase = .driving d' ∧ d'.team = d.team ∧
      (∀ m ∈ received, (execution cfg answers s m).leaves = false) ∧
      d.todo.Perm (received ++ (t.batch.map Branch.mission ++ d'.todo)) ∧
      (∀ b ∈ t.batch, b.result = (execution cfg answers s b.mission).result ∧
        b.squad = (execution cfg answers s b.mission).squad) ∧
      (d'.todo ≠ [] → t.squad = s.squad)) ∨
    (t.phase = .idle ∧ t.batch = [] ∧ ∃ pre m rest, received = pre ++ [m] ∧
      (execution cfg answers s m).leaves = true ∧
      (∀ m' ∈ pre, (execution cfg answers s m').leaves = false) ∧
      d.todo.Perm (received ++ rest))

variable {s t : System} {d d' : Driver} {received : List Mission}

theorem todo_of_driving (hp : t.phase = .driving d) : t.todo = d.todo := by
  rw [todo, hp]

theorem gathering_start (h : Batch answers s d) : Gathering cfg answers s d [] s :=
  { context := rfl
    state := .inl ⟨d, h.phase, rfl, by simp, by rw [h.batch]; exact List.Perm.refl _,
      by rw [h.batch]; simp, fun _ => rfl⟩ }

/-- What the driver makes of a result. -/
def hear (t : System) (d : Driver) (pre post : List Branch) (b : Branch) (a : DriverAnswers) :
    System :=
  match b.result with
  | none => { t with batch := pre ++ post }.receivePanic (heard d b) b
  | some (.ok ()) =>
      { t with batch := pre ++ post, phase := .driving (heard d b) }.receiveOk (heard d b) b
  | some (.error e) => { t with batch := pre ++ post }.failWith a e.toString e

theorem retWith_idle (t : System) (a : DriverAnswers) (e : SquadEvent) (r : Returned) :
    (t.retWith a e r).phase = .idle ∧ (t.retWith a e r).batch = [] ∧
      (t.retWith a e r).squad = t.squad := by
  rcases retWith_cases t a e r with ⟨err, -, he⟩ | ⟨-, he⟩ <;> rw [he] <;> exact ⟨rfl, rfl, rfl⟩

/-- Hearing of one more mission. -/
theorem gathering_hear {pre post : List Branch} {b : Branch} {a : DriverAnswers}
    (hs : Batch answers s d) (h : Gathering cfg answers s d received t)
    (hb : t.Receives d' pre b post) :
    Gathering cfg answers s d (received ++ [b.mission]) (hear t d' pre post b a) ∧
      ((execution cfg answers s b.mission).leaves = false →
        ∃ d'', (hear t d' pre post b a).phase = .driving d'' ∧ d''.todo = [] ∧
          (hear t d' pre post b a).batch = pre ++ post) := by
  obtain ⟨d₁, hphase, hteam, hstay, hperm, hres, -⟩ | ⟨hidle, -⟩ := h.state
  · have hd : d₁ = d' := by
      have heq := hphase.symm.trans hb.phase
      injection heq
    subst hd
    obtain ⟨hr, hsq⟩ := hres b (by rw [hb.batch]; simp)
    have hcontext := h.context
    have hperm' : d.todo.Perm (received ++ [b.mission] ++ (pre ++ post).map Branch.mission) := by
      rw [hb.batch, hb.todo, List.append_nil, List.map_append, List.map_cons] at hperm
      rw [List.append_assoc, List.map_append]
      exact hperm.trans (List.perm_middle.append_left received)
    have hrest : ∀ c ∈ pre ++ post, c.result = (execution cfg answers s c.mission).result ∧
        c.squad = (execution cfg answers s c.mission).squad := by
      intro c hc
      apply hres
      rw [hb.batch]
      simp only [List.mem_append, List.mem_cons] at hc ⊢
      tauto
    have hopen : ∀ {t' : System} {d'' : Driver}, (execution cfg answers s b.mission).leaves = false →
        t'.squad.context = gather (execution cfg answers s) s.squad.context
          (received ++ [b.mission]) →
        t'.phase = .driving d'' → d''.team = d₁.team → d''.todo = [] → t'.batch = pre ++ post →
        Gathering cfg answers s d (received ++ [b.mission]) t' := by
      intro t' d'' hl hc hp ht htodo hbatch
      refine ⟨hc, .inl ⟨d'', hp, ht.trans hteam, ?_, ?_, ?_, fun hn => absurd htodo hn⟩⟩
      · intro m hm
        rw [List.mem_append, List.mem_singleton] at hm
        rcases hm with hm | rfl
        · exact hstay m hm
        · exact hl
      · rw [htodo, List.append_nil, hbatch]
        exact hperm'
      · rw [hbatch]
        exact hrest
    have hclosed : ∀ {t' : System}, (execution cfg answers s b.mission).leaves = true →
        t'.squad.context = gather (execution cfg answers s) s.squad.context
          (received ++ [b.mission]) →
        t'.phase = .idle → t'.batch = [] →
        Gathering cfg answers s d (received ++ [b.mission]) t' := by
      intro t' hl hc hp hbatch
      exact ⟨hc, .inr ⟨hp, hbatch, received, b.mission, _, rfl, hl, hstay, hperm'⟩⟩
    rw [gather_append, ← hcontext] at hopen hclosed
    rw [hear]
    split
    · next hnone =>
        have hl : (execution cfg answers s b.mission).leaves = false := by
          rw [Execution.leaves, ← hr, hnone]
        have hm : (execution cfg answers s b.mission).merges = false := by
          rw [Execution.merges, ← hr, hnone]
        rw [gather_not_merges hm] at hopen
        rw [System.receivePanic, show (heard d₁ b).team = d₁.team from rfl, hteam, hs.process]
        exact ⟨hopen hl rfl rfl hteam.symm hb.todo rfl, fun _ => ⟨_, rfl, hb.todo, rfl⟩⟩
    · next hok =>
        have hm : (execution cfg answers s b.mission).merges = true := by
          rw [Execution.merges, ← hr, hok]
        have hl : (execution cfg answers s b.mission).leaves = b.squad.status.paused := by
          rw [Execution.leaves, ← hr, hok, hsq]
        rw [gather_merges hm, ← hsq] at hopen hclosed
        rw [hl] at hopen hclosed ⊢
        rw [receiveOk]
        simp only []
        split
        · next hst =>
            rw [hst] at hclosed ⊢
            exact ⟨hclosed rfl rfl rfl rfl, fun hn => absurd hn.symm Bool.false_ne_true⟩
        · next hst =>
            rw [hst] at hclosed ⊢
            exact ⟨hclosed rfl rfl rfl rfl, fun hn => absurd hn.symm Bool.false_ne_true⟩
        · next hst =>
            rw [hst] at hclosed ⊢
            exact ⟨hclosed rfl rfl rfl rfl, fun hn => absurd hn.symm Bool.false_ne_true⟩
        · next h₁ h₂ h₃ =>
            have hp : b.squad.status.paused = false := by
              cases hst : b.squad.status with
              | waitingForSignal n => exact absurd hst (h₁ n)
              | sleeping w => exact absurd hst (h₂ w)
              | breakpoint i => exact absurd hst (h₃ i)
              | _ => rfl
            exact ⟨hopen hp rfl rfl rfl hb.todo rfl, fun _ => ⟨_, rfl, hb.todo, rfl⟩⟩
    · next e he =>
        have hl : (execution cfg answers s b.mission).leaves = true := by
          rw [Execution.leaves, ← hr, he]
        have hm : (execution cfg answers s b.mission).merges = false := by
          rw [Execution.merges, ← hr, he]
        rw [gather_not_merges hm] at hclosed
        rw [failWith]
        obtain ⟨hp, hbt, hsquad⟩ := retWith_idle ({ t with batch := pre ++ post }.setStatus .failed) a
          (.squadFailed e.toString a.now) (.error e)
        refine ⟨hclosed hl (by rw [hsquad]; rfl) hp hbt, ?_⟩
        intro h
        rw [hl] at h
        cases h
  · rw [hb.phase] at hidle
    cases hidle

theorem gathering_spawn {d₂ : Driver} {id : String} {m : Mission} {pre post : List Mission}
    (h : Gathering cfg answers s d received t) (hp : t.phase = .driving d')
    (hm : d'.todo = pre ++ m :: post) (hid : m.id = id)
    (h' : d₂ = { d' with todo := pre ++ post, running := insert m.id d'.running }) :
    Gathering cfg answers s d received { t with
      phase := .driving d₂
      batch := t.batch ++ [{ executeMission cfg (answers id) t.squad m with mission := m }] } := by
  obtain ⟨d₁, hphase, hteam, hstay, hperm, hres, hsame⟩ | ⟨hidle, -⟩ := h.state
  · have hd : d₁ = d' := by
      have heq := hphase.symm.trans hp
      injection heq
    subst hd h'
    have hsquad : t.squad = s.squad := hsame (by rw [hm]; simp)
    refine ⟨h.context, .inl ⟨_, rfl, hteam, hstay, ?_, ?_, fun _ => hsquad⟩⟩
    · refine hperm.trans (List.Perm.append_left received ?_)
      rw [hm, List.map_append, List.append_assoc]
      exact List.Perm.append_left _ List.perm_middle
    · intro b hb
      rw [List.mem_append, List.mem_singleton] at hb
      rcases hb with hb | rfl
      · exact hres b hb
      · rw [execution, hsquad, hid]
        exact ⟨rfl, rfl⟩
  · rw [hp] at hidle
    cases hidle

/-- An execution does an act, and the driver does nothing. -/
theorem gathering_same {t' : System} (h : Gathering cfg answers s d received t)
    (hphase : t'.phase = t.phase) (hsquad : t'.squad = t.squad)
    (hids : t'.batch.map Branch.mission = t.batch.map Branch.mission)
    (hres : ∀ b' ∈ t'.batch, ∃ b ∈ t.batch,
      b'.mission = b.mission ∧ b'.result = b.result ∧ b'.squad = b.squad) :
    Gathering cfg answers s d received t' := by
  refine ⟨by rw [hsquad]; exact h.context, ?_⟩
  rcases h.state with ⟨d₁, hp, hteam, hstay, hperm, hr, hsame⟩ | ⟨hidle, hnil, hleft⟩
  · refine .inl ⟨d₁, hphase.trans hp, hteam, hstay, by rw [hids]; exact hperm, ?_, ?_⟩
    · intro b' hb'
      obtain ⟨b, hb, hm, hr', hsq⟩ := hres b' hb'
      rw [hm, hr', hsq]
      exact hr b hb
    · rw [hsquad]
      exact hsame
  · refine .inr ⟨hphase.trans hidle, ?_, hleft⟩
    rw [hnil, List.map_nil, List.map_eq_nil_iff] at hids
    exact hids

theorem gathering_step {l : Label} (hs : Batch answers s d)
    (h : Gathering cfg answers s d received t) (hl : Collecting answers l) :
    ∃ received', Gathering cfg answers s d received' (step cfg team t l) := by
  have hst := step_cases cfg team t l
  generalize step cfg team t l = t' at hst ⊢
  cases hl with
  | spawn id =>
      cases hst with
      | stay hn => exact ⟨received, h⟩
      | spawn hp hm hid h' => exact ⟨received, gathering_spawn h hp hm hid h'⟩
  | advance id =>
      cases hst with
      | stay hn => exact ⟨received, h⟩
      | advance hn hb ha =>
          refine ⟨received, gathering_same h rfl rfl ?_ ?_⟩
          · rw [hb]
            simp [record]
          · intro b' hb'
            simp only [record, List.mem_append, List.mem_cons] at hb'
            rw [hb]
            rcases hb' with hb' | rfl | hb'
            · exact ⟨b', by simp [hb'], rfl, rfl, rfl⟩
            · exact ⟨_, List.mem_append_right _ List.mem_cons_self, rfl, rfl, rfl⟩
            · exact ⟨b', by simp [hb'], rfl, rfl, rfl⟩
  | advanceOrphan index =>
      cases hst with
      | stay hn => exact ⟨received, h⟩
      | advanceOrphan hn hb ha =>
          exact ⟨received, gathering_same h rfl rfl rfl fun b hb => ⟨b, hb, rfl, rfl, rfl⟩⟩
  | receive id a =>
      cases hst with
      | stay hn => exact ⟨received, h⟩
      | @receivePanic _ _ d' pre post b hb hid hr =>
          have hg := (gathering_hear (a := a) hs h hb).1
          rw [hear, hr] at hg
          exact ⟨_, hg⟩
      | @receiveOk _ _ d' pre post b hb hid hr =>
          have hg := (gathering_hear (a := a) hs h hb).1
          rw [hear, hr] at hg
          exact ⟨_, hg⟩
      | @receiveError _ _ d' pre post b e hb hid hr =>
          have hg := (gathering_hear (a := a) hs h hb).1
          rw [hear, hr] at hg
          exact ⟨_, hg⟩

/-- However a batch goes on, what it leaves is a fold over what was heard. -/
theorem gathering_of_reaches (hs : Batch answers s d) (h : Reaches cfg team answers s t) :
    ∃ received, Gathering cfg answers s d received t := by
  obtain ⟨labels, hl, rfl⟩ := h
  have hinv : ∀ (t : System) (received : List Mission), Gathering cfg answers s d received t →
      ∃ received', Gathering cfg answers s d received' (labels.foldl (step cfg team) t) := by
    induction labels with
    | nil => exact fun t received hg => ⟨received, hg⟩
    | cons l labels ih =>
        intro t received hg
        obtain ⟨received', hg'⟩ := @gathering_step cfg team _ _ _ _ _ _ hs hg (hl l List.mem_cons_self)
        exact ih (fun l' hl' => hl l' (List.mem_cons_of_mem _ hl')) _ received' hg'
  exact hinv s [] (gathering_start hs)

/-! ### Every order is one the batch can end in -/

/-- The driver does not hear of what comes after a mission that makes it
return. -/
def untilLeaving (f : Mission → Execution) : List Mission → List Mission
  | [] => []
  | m :: ms => if (f m).leaves then [m] else m :: untilLeaving f ms

theorem mem_of_mem_untilLeaving {m : Mission} {ms : List Mission} (h : m ∈ untilLeaving f ms) :
    m ∈ ms := by
  induction ms with
  | nil => exact h
  | cons m' ms ih =>
      rw [untilLeaving] at h
      split at h
      · rw [List.mem_singleton] at h
        rw [h]
        exact List.mem_cons_self
      · rcases List.mem_cons.mp h with rfl | h
        · exact List.mem_cons_self
        · exact List.mem_cons_of_mem _ (ih h)

theorem popAct_append {pre post : List Branch} {b : Branch} {act : Act} {rest : List Act}
    (ha : b.acts = act :: rest) :
    popAct (pre ++ b :: post) pre.length = some (act, pre ++ { b with acts := rest } :: post) := by
  have hget : (pre ++ b :: post)[pre.length]? = some b := by
    rw [List.getElem?_append_right (Nat.le_refl _), Nat.sub_self]
    rfl
  rw [popAct, hget]
  simp [ha]

theorem indexOf_append {pre post : List Branch} {b : Branch}
    (h : ∀ c ∈ pre, c.mission.id ≠ b.mission.id) :
    indexOf (pre ++ b :: post) b.mission.id = pre.length := by
  rw [indexOf, List.findIdx_append]
  have hpre : pre.findIdx (fun c => c.mission.id = b.mission.id) = pre.length := by
    rw [List.findIdx_eq_length]
    intro c hc
    simpa using h c hc
  rw [hpre, if_neg (Nat.lt_irrefl _)]
  simp [List.findIdx_cons]

theorem Reaches.step {l : Label} (h : Reaches cfg team answers s t) (hl : Collecting answers l) :
    Reaches cfg team answers s (step cfg team t l) := by
  obtain ⟨labels, hls, rfl⟩ := h
  refine ⟨labels ++ [l], ?_, by rw [List.foldl_append]; rfl⟩
  intro l' hl'
  rw [List.mem_append, List.mem_singleton] at hl'
  rcases hl' with hl' | rfl
  · exact hls l' hl'
  · exact hl

/-- The last branch of a batch is run to its end. -/
theorem reaches_settled {pre : List Branch} (acts : List Act) (b : Branch) (t : System)
    (ha : b.acts = acts) (hb : t.batch = pre ++ [b])
    (hpre : ∀ c ∈ pre, c.mission.id ≠ b.mission.id) (h : Reaches cfg team answers s t) :
    ∃ t', Reaches cfg team answers s t' ∧ t'.phase = t.phase ∧ t'.squad = t.squad ∧
      t'.batch = pre ++ [{ b with acts := [] }] := by
  induction acts generalizing b t with
  | nil => exact ⟨t, h, rfl, rfl, by rw [hb, ← ha]⟩
  | cons act acts ih =>
      have hstep : System.step cfg team t (.advance b.mission.id) =
          { t with batch := pre ++ [{ b with acts := acts }], trace := t.trace ++ [act] } := by
        rw [System.step, System.advance, hb, indexOf_append hpre, popAct_append ha]
        rfl
      have h' := h.step (.advance b.mission.id)
      obtain ⟨t', hr, hp, hsq, hbatch⟩ := ih { b with acts := acts } _ rfl
        (by rw [hstep]) hpre h'
      refine ⟨t', hr, ?_, ?_, hbatch⟩
      · rw [hp, hstep]
      · rw [hsq, hstep]

theorem spawn_eq {m : Mission} {ms : List Mission} {a : MissionAnswers}
    (hp : t.phase = .driving d') (htodo : d'.todo = m :: ms) (hb : ∀ b ∈ t.batch, b.acts = []) :
    System.step cfg team t (.spawn m.id a) = { t with
      phase := .driving { d' with todo := ms, running := insert m.id d'.running }
      batch := t.batch ++ [{ executeMission cfg a t.squad m with mission := m }] } := by
  have hfree : t.batch.filter (fun b => !b.ended) = [] := by
    rw [List.filter_eq_nil_iff]
    intro b hmem
    rw [Branch.ended, hb b hmem]
    simp
  rw [System.step, System.spawn, hp]
  simp only [htodo, List.find?_cons, List.eraseP_cons, decide_true, hfree, List.length_nil,
    if_pos cfg.concurrent, cond_true]

/-- All missions are spawned and executed, and the driver has heard of none. -/
theorem exists_spawned (hs : Batch answers s d) (ms : List Mission) (t : System) (d' : Driver)
    (hp : t.phase = .driving d') (htodo : d'.todo = ms) (hb : ∀ b ∈ t.batch, b.acts = [])
    (h : Gathering cfg answers s d [] t) (hr : Reaches cfg team answers s t) :
    ∃ t' d'', Reaches cfg team answers s t' ∧ Gathering cfg answers s d [] t' ∧
      t'.phase = .driving d'' ∧ d''.todo = [] ∧ ∀ b ∈ t'.batch, b.acts = [] := by
  induction ms generalizing t d' with
  | nil => exact ⟨t, d', hr, h, hp, htodo, hb⟩
  | cons m ms ih =>
      have hapart : ∀ c ∈ t.batch, c.mission.id ≠ m.id := by
        obtain ⟨d₁, hp₁, -, -, hperm, -⟩ | ⟨hidle, -⟩ := h.state
        · have hd : d₁ = d' := by
            have heq := hp₁.symm.trans hp
            injection heq
          subst hd
          have hn := (hperm.map Mission.id).nodup_iff.mp hs.apart
          rw [List.nil_append, htodo, List.map_append, List.map_cons, List.nodup_append] at hn
          intro c hc
          exact hn.2.2 _ (List.mem_map_of_mem (List.mem_map_of_mem hc)) _ List.mem_cons_self
        · rw [hp] at hidle
          cases hidle
      have hg := gathering_spawn h hp (show d'.todo = [] ++ m :: ms from htodo) rfl rfl
      have hr' := hr.step (.spawn m.id)
      rw [spawn_eq hp htodo hb] at hr'
      obtain ⟨t', hr'', hp', hsq, hbatch⟩ := reaches_settled _ _ _ rfl rfl hapart hr'
      refine ih t' _ hp' rfl ?_ (gathering_same hg hp' hsq ?_ ?_) hr''
      · intro b hmem
        rw [hbatch, List.mem_append, List.mem_singleton] at hmem
        rcases hmem with hmem | rfl
        · exact hb b hmem
        · rfl
      · rw [hbatch]
        simp
      · intro b hmem
        rw [hbatch, List.mem_append, List.mem_singleton] at hmem
        rcases hmem with hmem | rfl
        · exact ⟨b, List.mem_append_left _ hmem, rfl, rfl, rfl⟩
        · exact ⟨_, List.mem_append_right _ (List.mem_singleton_self _), rfl, rfl, rfl⟩

theorem receive_eq {pre post : List Branch} {b : Branch} (a : DriverAnswers)
    (hb : t.Receives d' pre b post) (hpre : ∀ c ∈ pre, c.mission.id ≠ b.mission.id) :
    System.step cfg team t (.receive b.mission.id a) = hear t d' pre post b a := by
  have hne : ∀ c ∈ pre, ¬ decide (c.mission.id = b.mission.id) = true := by
    intro c hc
    simpa using hpre c hc
  have hfind : t.batch.find? (fun c => decide (c.mission.id = b.mission.id)) = some b := by
    rw [hb.batch, List.find?_append, List.find?_eq_none.mpr hne]
    simp
  have herase : t.batch.eraseP (fun c => decide (c.mission.id = b.mission.id)) = pre ++ post := by
    rw [hb.batch, List.eraseP_append_right _ hne, List.eraseP_cons_of_pos (by simp)]
  have hend : (d'.todo.isEmpty && b.ended) = true := by
    rw [hb.todo, Branch.ended, hb.ended]
    rfl
  rw [System.step, System.receive, hb.phase]
  simp only [hfind, hend, herase, if_true]
  rfl

/-- The driver hears of what is left in any order. -/
theorem exists_heard (hs : Batch answers s d) (order : List Mission) (t : System) (d' : Driver)
    (received : List Mission) (hp : t.phase = .driving d') (htodo : d'.todo = [])
    (hb : ∀ b ∈ t.batch, b.acts = []) (ho : (t.batch.map Branch.mission).Perm order)
    (h : Gathering cfg answers s d received t) (hr : Reaches cfg team answers s t) :
    ∃ t', Ends cfg team answers s t' ∧ Gathering cfg answers s d
      (received ++ untilLeaving (execution cfg answers s) order) t' := by
  induction order generalizing t d' received with
  | nil =>
      rw [List.perm_nil, List.map_eq_nil_iff] at ho
      exact ⟨t, ⟨hr, ho, by rw [todo_of_driving hp, htodo]⟩, by rw [untilLeaving, List.append_nil]; exact h⟩
  | cons m order ih =>
      obtain ⟨b, hmem, rfl⟩ := List.mem_map.mp (ho.mem_iff.mpr List.mem_cons_self)
      obtain ⟨pre, post, hbatch⟩ := List.append_of_mem hmem
      have hrec : t.Receives d' pre b post := ⟨hp, htodo, hbatch, hb b hmem⟩
      have hapart : ((t.batch.map Branch.mission).map Mission.id).Nodup := by
        obtain ⟨d₁, -, -, -, hperm, -⟩ | ⟨hidle, -⟩ := h.state
        · have hn := (hperm.map Mission.id).nodup_iff.mp hs.apart
          rw [List.map_append, List.nodup_append, List.map_append, List.nodup_append] at hn
          exact hn.2.1.1
        · rw [hp] at hidle
          cases hidle
      have hpre : ∀ c ∈ pre, c.mission.id ≠ b.mission.id := by
        rw [hbatch, List.map_append, List.map_append, List.map_cons, List.nodup_append] at hapart
        intro c hc
        exact hapart.2.2 _ (List.mem_map_of_mem (List.mem_map_of_mem hc)) _ List.mem_cons_self
      have hr' := hr.step (.receive b.mission.id storing)
      rw [receive_eq storing hrec hpre] at hr'
      obtain ⟨hg, hgo⟩ := gathering_hear (a := storing) hs h hrec
      rw [untilLeaving]
      cases hl : (execution cfg answers s b.mission).leaves with
      | true =>
          rw [if_pos rfl]
          refine ⟨_, ⟨hr', ?_⟩, hg⟩
          rcases hg.state with ⟨_, -, -, hstay, -⟩ | ⟨hidle, hnil, -⟩
          · have hno := hstay b.mission (by simp)
            rw [hl] at hno
            cases hno
          · exact ⟨hnil, by rw [todo, hidle]⟩
      | false =>
          obtain ⟨d'', hp', htodo', hbatch'⟩ := hgo hl
          rw [if_neg Bool.false_ne_true, show received ++ b.mission ::
            untilLeaving (execution cfg answers s) order =
              received ++ [b.mission] ++ untilLeaving (execution cfg answers s) order by simp]
          refine ih _ d'' _ hp' htodo' ?_ ?_ hg hr'
          · rw [hbatch']
            intro c hc
            apply hb
            rw [hbatch]
            simp only [List.mem_append, List.mem_cons] at hc ⊢
            tauto
          · rw [hbatch, List.map_append, List.map_cons] at ho
            rw [hbatch', List.map_append]
            exact (List.perm_middle.symm.trans ho).cons_inv

/-- The driver may hear of the missions of a batch in any order. -/
theorem exists_ends (hs : Batch answers s d) {order : List Mission} (ho : d.todo.Perm order) :
    ∃ t, Ends cfg team answers s t ∧ Gathering cfg answers s d
      (untilLeaving (execution cfg answers s) order) t := by
  have hr : Reaches cfg team answers s s := ⟨[], by simp, rfl⟩
  obtain ⟨t, d', hr', hg, hp, htodo, hb⟩ := exists_spawned hs d.todo s d hs.phase rfl
    (by rw [hs.batch]; simp) (gathering_start hs) hr
  refine exists_heard hs order t d' [] hp htodo hb ?_ hg hr'
  rcases hg.state with ⟨d₁, hp₁, -, -, hperm, -⟩ | ⟨hidle, -⟩
  · have hd : d₁ = d' := by
      have heq := hp₁.symm.trans hp
      injection heq
    subst hd
    rw [htodo, List.nil_append, List.append_nil] at hperm
    exact hperm.symm.trans ho
  · rw [hp] at hidle
    cases hidle

/-! ### What the executions of a batch leave -/

theorem execution_cases (cfg : EngineConfig) (answers : String → MissionAnswers) (s : System)
    (m : Mission) :
    (∃ handoff value, announced (execution cfg answers s m) = some value ∧
      (execution cfg answers s m).merges = true ∧ (execution cfg answers s m).squad.context =
        storeOutput (answers m.id) m handoff value s.squad.context) ∨
    (announced (execution cfg answers s m) = none ∧
      ((execution cfg answers s m).merges = true → (execution cfg answers s m).leaves = true ∧
        (execution cfg answers s m).squad.context = s.squad.context)) := by
  rcases announced_cases (executeMission_cases cfg (answers m.id) s.squad m) with
    ⟨handoff, value, ha, hr, hc, -⟩ | h
  · refine .inl ⟨handoff, value, ha, ?_, hc⟩
    rw [execution, Execution.merges, hr]
  · exact .inr h

theorem merges_of_announced {m : Mission}
    (h : (announced (execution cfg answers s m)).isSome) :
    (execution cfg answers s m).merges = true := by
  rcases execution_cases cfg answers s m with ⟨_, _, _, hm, -⟩ | ⟨hn, -⟩
  · exact hm
  · rw [hn] at h
    cases h

theorem announced_of_merges {m : Mission}
    (h : (execution cfg answers s m).merges = true)
    (hl : (execution cfg answers s m).leaves = false) :
    (announced (execution cfg answers s m)).isSome := by
  rcases execution_cases cfg answers s m with ⟨_, _, ha, -⟩ | ⟨-, hn⟩
  · rw [ha]
    rfl
  · have hleaves := (hn h).1
    rw [hl] at hleaves
    cases hleaves

theorem distinct_execution (hs : Batch answers s d) {m : Mission}
    (h : (execution cfg answers s m).merges = true) :
    (execution cfg answers s m).squad.context.shared.Distinct := by
  rcases execution_cases cfg answers s m with ⟨_, _, _, -, hc⟩ | ⟨-, hn⟩
  · rw [hc, storeOutput_shared]
    exact distinct_insertIfObject hs.distinct _ _
  · rw [(hn h).2]
    exact hs.distinct

theorem get_output (ho : s.squad.context.shared.isObject = true)
    {m : Mission} {key : String} {value : Json} (hk : m.outputKey = some key)
    (h : announced (execution cfg answers s m) = some value) :
    Json.get key (execution cfg answers s m).squad.context.shared = some value := by
  rcases execution_cases cfg answers s m with ⟨_, value', ha, -, hc⟩ | ⟨hn, -⟩
  · rw [ha] at h
    injection h with h
    rw [hc, storeOutput_shared, get_insertIfObject ho, if_pos hk, h]
  · rw [hn] at h
    cases h

/-- A clone has what it was cloned with under every key but its own. -/
theorem get_other (ho : s.squad.context.shared.isObject = true)
    {m : Mission} {key : String} (hk : m.outputKey = some key →
      announced (execution cfg answers s m) = none)
    (h : (execution cfg answers s m).merges = true) :
    Json.get key (execution cfg answers s m).squad.context.shared =
      Json.get key s.squad.context.shared := by
  rcases execution_cases cfg answers s m with ⟨_, value, ha, -, hc⟩ | ⟨-, hn⟩
  · rw [hc, storeOutput_shared, get_insertIfObject ho, if_neg]
    intro hkey
    rw [hk hkey] at ha
    cases ha
  · rw [(hn h).2]

theorem messages_of_not_merges {m : Mission}
    (h : (execution cfg answers s m).merges = false) :
    messages s (execution cfg answers s m) = [] := by
  rw [messages, if_neg]
  intro ha
  rw [merges_of_announced ha] at h
  cases h

theorem thread_execution {m : Mission}
    (h : (execution cfg answers s m).merges = true) :
    (execution cfg answers s m).squad.context.thread =
      s.squad.context.thread ++ messages s (execution cfg answers s m) := by
  rw [messages]
  rcases execution_cases cfg answers s m with ⟨handoff, value, ha, -, hc⟩ | ⟨hn, hk⟩
  · obtain ⟨own, output, hthread, -⟩ :=
      storeOutput_thread (answers m.id) m handoff value s.squad.context
    rw [ha, if_pos Option.isSome_some, hc, hthread, List.drop_left]
  · rw [hn, (hk h).2]
    simp

theorem messages_stamped (m : Mission) :
    ∀ msg ∈ messages s (execution cfg answers s m), msg.id ∈ stamps answers m := by
  intro msg hmsg
  rw [messages] at hmsg
  split at hmsg
  · rcases execution_cases cfg answers s m with ⟨handoff, value, -, -, hc⟩ | ⟨hn, -⟩
    · obtain ⟨own, output, hthread, hout, hown⟩ :=
        storeOutput_thread (answers m.id) m handoff value s.squad.context
      rw [hc, hthread, List.drop_left, List.mem_append, List.mem_singleton] at hmsg
      rcases hmsg with hmsg | rfl
      · rw [hown msg hmsg]
        exact List.mem_cons_self
      · rw [hout]
        exact List.mem_cons_of_mem _ (List.mem_singleton_self _)
    · next ha =>
        rw [hn] at ha
        cases ha
  · cases hmsg

/-- A completed mission has added the message of its output. -/
theorem exists_message {m : Mission}
    (h : (announced (execution cfg answers s m)).isSome) :
    ∃ msg, msg ∈ messages s (execution cfg answers s m) := by
  rw [messages, if_pos h]
  rcases execution_cases cfg answers s m with ⟨handoff, value, -, -, hc⟩ | ⟨hn, -⟩
  · obtain ⟨own, output, hthread, -⟩ :=
      storeOutput_thread (answers m.id) m handoff value s.squad.context
    refine ⟨output, ?_⟩
    rw [hc, hthread, List.drop_left]
    simp
  · rw [hn] at h
    cases h

theorem Batch.nodup (hs : Batch answers s d) : d.todo.Nodup := List.Nodup.of_map _ hs.apart

theorem Batch.key_apart (hs : Batch answers s d) {m m' : Mission} (hm : m ∈ d.todo)
    (hm' : m' ∈ d.todo) (hne : m ≠ m') {key : String} (hk : m.outputKey = some key) :
    m'.outputKey ≠ some key := by
  have hsymm : Std.Symm fun m m' : Mission =>
      ∀ key, m.outputKey = some key → m'.outputKey ≠ some key :=
    ⟨fun m m' h key hk' hk => h key hk hk'⟩
  exact hs.keys.forall hm hm' hne key hk

theorem Batch.stamp_apart (hs : Batch answers s d) {m m' : Mission} (hm : m ∈ d.todo)
    (hm' : m' ∈ d.todo) (hne : m ≠ m') {id : String} (hid : id ∈ stamps answers m) :
    id ∉ stamps answers m' := by
  have hsymm : Std.Symm fun m m' : Mission =>
      List.Disjoint (stamps answers m) (stamps answers m') :=
    ⟨fun m m' h => h.symm⟩
  exact (List.nodup_flatMap.mp hs.fresh).2.forall hm hm' hne hid

/-! ### Mergeable batches -/

/-- Where no other pauses or fails beside it, a completed mission is heard of. -/
theorem exists_unheard (hs : Batch answers s d) (hk : Mergeable cfg answers s d)
    (h : Gathering cfg answers s d received t) (hc : t.Collected) :
    ∃ rest, d.todo.Perm (received ++ rest) ∧
      ∀ m ∈ rest, announced (execution cfg answers s m) = none := by
  rcases h.state with ⟨d', hp, -, -, hperm, -⟩ | ⟨-, -, pre, m, rest, hrec, hl, -, hperm⟩
  · have htodo := hc.2
    rw [todo_of_driving hp] at htodo
    rw [hc.1, htodo] at hperm
    exact ⟨[], hperm, by simp⟩
  · refine ⟨rest, hperm, ?_⟩
    intro m' hm'
    by_contra hne
    have hmem : m ∈ d.todo := hperm.mem_iff.mpr (by rw [hrec]; simp)
    have hmem' : m' ∈ d.todo := hperm.mem_iff.mpr (by simp [hm'])
    have hdiff : m' ≠ m := by
      have hn := hperm.nodup_iff.mp hs.nodup
      rw [List.nodup_append] at hn
      intro he
      exact hn.2.2 m (by rw [hrec]; simp) m' hm' he.symm
    have hstay := hk.kept m' hmem' m hmem hdiff (Option.ne_none_iff_isSome.mp hne)
    rw [hl] at hstay
    cases hstay

theorem flatMap_messages (ms : List Mission) :
    (ms.filter fun m => (execution cfg answers s m).merges).flatMap
        (fun m => messages s (execution cfg answers s m)) =
      ms.flatMap fun m => messages s (execution cfg answers s m) := by
  induction ms with
  | nil => rfl
  | cons m ms ih =>
      rw [List.filter_cons]
      split
      · rw [List.flatMap_cons, List.flatMap_cons, ih]
      · next hm =>
          have hnil := messages_of_not_merges (by simpa using hm)
          rw [List.flatMap_cons, hnil, List.nil_append, ih]

theorem thread_of_mergeable (hs : Batch answers s d) (hk : Mergeable cfg answers s d)
    (h : Gathering cfg answers s d received t) (hc : t.Collected) :
    t.squad.context.thread.Perm (s.squad.context.thread ++
      d.todo.flatMap fun m => messages s (execution cfg answers s m)) := by
  obtain ⟨rest, hperm, hrest⟩ := exists_unheard hs hk h hc
  have hquiet : (rest.flatMap fun m => messages s (execution cfg answers s m)) = [] := by
    rw [List.flatMap_eq_nil_iff]
    intro m hm
    rw [messages, hrest m hm]
    rfl
  have hall : (d.todo.flatMap fun m => messages s (execution cfg answers s m)).Perm
      (received.flatMap fun m => messages s (execution cfg answers s m)) := by
    have hp := hperm.flatMap_right fun m => messages s (execution cfg answers s m)
    rw [List.flatMap_append, hquiet, List.append_nil] at hp
    exact hp
  rw [h.context, thread_gather]
  refine List.Perm.append_left _ (List.Perm.trans (List.Perm.of_eq ?_) hall.symm)
  rw [← flatMap_messages]
  -- nothing is merged, or the clones had no messages to begin with
  rcases hk.thread with hnil | hno
  · apply List.flatMap_congr
    intro m hm
    rw [thread_execution (List.mem_filter.mp hm).2, hnil, List.nil_append]
  · have hnone : (received.filter fun m => (execution cfg answers s m).merges) = [] := by
      rw [List.filter_eq_nil_iff]
      intro m hm
      rw [hno m (hperm.mem_iff.mpr (List.mem_append_left _ hm))]
      exact Bool.false_ne_true
    rw [hnone]
    rfl

theorem outputs_of_mergeable (hs : Batch answers s d) (hk : Mergeable cfg answers s d)
    (h : Gathering cfg answers s d received t) (hc : t.Collected) {m : Mission} {key : String}
    {value : Json} (hm : m ∈ d.todo) (hkey : m.outputKey = some key)
    (ha : announced (execution cfg answers s m) = some value) :
    Json.get key t.squad.context.shared = some value := by
  obtain ⟨rest, hperm, hrest⟩ := exists_unheard hs hk h hc
  have ho : s.squad.context.shared.isObject = true := by
    rcases hk.object with ho | hno
    · exact ho
    · rw [hno m hm (by rw [ha]; rfl)] at hkey
      cases hkey
  have hmg := merges_of_announced (m := m) (by rw [ha]; rfl)
  have hmem : m ∈ received := by
    rcases List.mem_append.mp (hperm.mem_iff.mp hm) with hmem | hmem
    · exact hmem
    · rw [hrest m hmem] at ha
      cases ha
  obtain ⟨pre, post, hsplit⟩ := List.append_of_mem hmem
  rw [h.context, hsplit]
  refine get_gather_set ho (fun m' _ hmg' => distinct_execution hs hmg') hmg
    (get_output ho hkey ha) ?_
  intro m' hm' hmg'
  have hn : (pre ++ m :: post).Nodup := by
    rw [← hsplit]
    exact (List.nodup_append.mp (hperm.nodup_iff.mp hs.nodup)).1
  have hne : m ≠ m' := by
    rintro rfl
    rw [List.nodup_append, List.nodup_cons] at hn
    exact hn.2.1.1 hm'
  have hmem' : m' ∈ d.todo := hperm.mem_iff.mpr (by rw [hsplit]; simp [hm'])
  rw [get_other ho (fun hkey' => absurd hkey' (hs.key_apart hm hmem' hne hkey)) hmg']
  exact hk.stale m hm m' hmem' hne key value hkey ha hmg'

/-- A key no mission of the batch has an output for. -/
theorem get_unowned (hs : Batch answers s d) (h : Gathering cfg answers s d received t)
    {key : String} (hno : ∀ m ∈ d.todo, m.outputKey = some key →
      announced (execution cfg answers s m) = none) :
    Json.get key t.squad.context.shared = Json.get key s.squad.context.shared := by
  rw [h.context]
  cases ho : s.squad.context.shared.isObject with
  | false =>
      rw [Json.get_of_not_object ((isObject_gather received).trans ho), Json.get_of_not_object ho]
  | true =>
      have hmem : ∀ m ∈ received, m ∈ d.todo := by
        intro m hm
        rcases h.state with ⟨d', -, -, -, hperm, -⟩ | ⟨-, -, pre, m', rest, -, -, -, hperm⟩
        · exact hperm.mem_iff.mpr (List.mem_append_left _ hm)
        · exact hperm.mem_iff.mpr (List.mem_append_left _ hm)
      exact get_gather_keep ho (fun m _ hmg => distinct_execution hs hmg) rfl
        fun m hm hmg => .inr (get_other ho (hno m (hmem m hm)) hmg)

/-! ### Batches that are not -/

theorem kept_of_merged (hs : Batch answers s d)
    (h : ∀ t, Ends cfg team answers s t → Merged cfg answers s d t) {m m' : Mission}
    (hm : m ∈ d.todo) (hm' : m' ∈ d.todo) (hne : m ≠ m')
    (ha : (announced (execution cfg answers s m)).isSome) :
    (execution cfg answers s m').leaves = false := by
  by_contra hl
  rw [Bool.not_eq_false] at hl
  obtain ⟨t, ht, hg⟩ := exists_ends hs (List.perm_cons_erase hm')
  obtain ⟨msg, hmsg⟩ := exists_message ha
  have hstamp := messages_stamped m msg hmsg
  have hall : msg ∈ t.squad.context.thread := by
    refine (h t ht).thread.mem_iff.mpr (List.mem_append_right _ ?_)
    exact List.mem_flatMap.mpr ⟨m, hm, hmsg⟩
  have hold : msg ∉ s.squad.context.thread := by
    intro hmem
    exact hs.unseen msg.id (List.mem_flatMap.mpr ⟨m, hm, hstamp⟩) msg hmem rfl
  -- the driver has heard of nothing but `m'`
  rw [hg.context, untilLeaving, if_pos hl] at hall
  cases hmg : (execution cfg answers s m').merges with
  | false =>
      rw [gather_not_merges hmg] at hall
      exact hold hall
  | true =>
      rw [gather_merges hmg] at hall
      have hthread : msg ∈ s.squad.context.thread ++
        (execution cfg answers s m').squad.context.thread := hall
      rw [thread_execution hmg, List.mem_append, List.mem_append] at hthread
      rcases hthread with hmem | hmem | hmem
      · exact hold hmem
      · exact hold hmem
      · exact hs.stamp_apart hm hm' hne hstamp (messages_stamped m' msg hmem)

theorem thread_of_merged (hs : Batch answers s d)
    (h : ∀ t, Ends cfg team answers s t → Merged cfg answers s d t) :
    s.squad.context.thread = [] ∨ ∀ m ∈ d.todo, (execution cfg answers s m).merges = false := by
  by_contra hno
  rw [not_or] at hno
  obtain ⟨hthread, hmerge⟩ := hno
  push Not at hmerge
  obtain ⟨m, hm, hmg⟩ := hmerge
  rw [Bool.ne_false_iff] at hmg
  obtain ⟨old, hold⟩ := List.exists_mem_of_ne_nil _ hthread
  obtain ⟨t, ht, hg⟩ := exists_ends hs (List.perm_cons_erase hm)
  have hnew : (d.todo.flatMap fun m => messages s (execution cfg answers s m)).count old = 0 := by
    rw [List.count_eq_zero]
    intro hmem
    obtain ⟨m', hm', hmem⟩ := List.mem_flatMap.mp hmem
    exact hs.unseen old.id (List.mem_flatMap.mpr ⟨m', hm', messages_stamped m' old hmem⟩) old
      hold rfl
  have hcount := (h t ht).thread.count_eq old
  -- the clone of `m` brings the old messages once more
  obtain ⟨rest, hrest⟩ : ∃ rest, untilLeaving (execution cfg answers s) (m :: d.todo.erase m) =
      m :: rest := by
    rw [untilLeaving]
    split
    · exact ⟨[], rfl⟩
    · exact ⟨_, rfl⟩
  rw [hg.context, hrest, thread_gather, List.filter_cons, if_pos hmg, List.flatMap_cons,
    thread_execution hmg] at hcount
  simp only [List.count_append, hnew] at hcount
  have hpos := List.count_pos_iff.mpr hold
  omega

theorem object_of_merged (hs : Batch answers s d)
    (h : ∀ t, Ends cfg team answers s t → Merged cfg answers s d t) :
    s.squad.context.shared.isObject = true ∨ ∀ m ∈ d.todo,
      (announced (execution cfg answers s m)).isSome → m.outputKey = none := by
  cases ho : s.squad.context.shared.isObject with
  | true => exact .inl rfl
  | false =>
      refine .inr ?_
      intro m hm ha
      by_contra hkey
      obtain ⟨key, hkey⟩ := Option.ne_none_iff_exists'.mp hkey
      obtain ⟨value, hvalue⟩ := Option.isSome_iff_exists.mp ha
      obtain ⟨t, ht, hg⟩ := exists_ends hs (List.Perm.refl d.todo)
      have hget := (h t ht).outputs m hm key value hkey hvalue
      rw [hg.context, Json.get_of_not_object ((isObject_gather _).trans ho)] at hget
      cases hget

theorem stale_of_merged (hs : Batch answers s d)
    (h : ∀ t, Ends cfg team answers s t → Merged cfg answers s d t) {m m' : Mission}
    (hm : m ∈ d.todo) (hm' : m' ∈ d.todo) (hne : m ≠ m') {key : String} {value : Json}
    (hkey : m.outputKey = some key) (ha : announced (execution cfg answers s m) = some value)
    (hmg' : (execution cfg answers s m').merges = true) :
    Json.get key s.squad.context.shared = none ∨
      Json.get key s.squad.context.shared = some value := by
  cases hold : Json.get key s.squad.context.shared with
  | none => exact .inl rfl
  | some old =>
      refine .inr ?_
      have ho : s.squad.context.shared.isObject = true := by
        by_contra hno
        rw [Bool.not_eq_true] at hno
        rw [Json.get_of_not_object hno] at hold
        cases hold
      have ha' : (announced (execution cfg answers s m)).isSome := by rw [ha]; rfl
      have hl' := kept_of_merged hs h hm hm' hne ha'
      have hl := kept_of_merged hs h hm' hm hne.symm (announced_of_merges hmg' hl')
      -- `m'` comes right after `m`
      have hperm : d.todo.Perm (m :: m' :: (d.todo.erase m).erase m') :=
        (List.perm_cons_erase hm).trans
          ((List.perm_cons_erase ((List.mem_erase_of_ne hne.symm).mpr hm')).cons m)
      obtain ⟨t, ht, hg⟩ := exists_ends hs hperm
      have hget := (h t ht).outputs m hm key value hkey ha
      rw [hg.context, untilLeaving, if_neg (by rw [hl]; exact Bool.false_ne_true), untilLeaving,
        if_neg (by rw [hl']; exact Bool.false_ne_true)] at hget
      rw [← hget]
      have hother : ∀ m'' ∈ d.todo, m ≠ m'' → (execution cfg answers s m'').merges = true →
          Json.get key (execution cfg answers s m'').squad.context.shared = some old := by
        intro m'' hm'' hne' hmg''
        rw [get_other ho (fun hk => absurd hk (hs.key_apart hm hm'' hne' hkey)) hmg'', hold]
      have hafter : ∀ m'' ∈ untilLeaving (execution cfg answers s) ((d.todo.erase m).erase m'),
          m'' ∈ d.todo ∧ m ≠ m'' := by
        intro m'' hm''
        have hmem := List.mem_of_mem_erase (mem_of_mem_untilLeaving hm'')
        refine ⟨List.mem_of_mem_erase hmem, ?_⟩
        rintro rfl
        exact hs.nodup.not_mem_erase hmem
      have hset := @get_gather_set (execution cfg answers s) s.squad.context [m]
        (untilLeaving (execution cfg answers s) ((d.todo.erase m).erase m')) m' key old ho
        (fun m'' _ hmg'' => distinct_execution hs hmg'') hmg' (hother m' hm' hne hmg')
        fun m'' hm'' hmg'' => .inr (hother m'' (hafter m'' hm'').1 (hafter m'' hm'').2 hmg'')
      exact hset.symm

/-- A batch can be merged in any order exactly when it is mergeable. -/
theorem merged_iff_mergeable (cfg : EngineConfig) (team : ValidTeam)
    (answers : String → MissionAnswers) (s : System) (d : Driver) (hs : Batch answers s d) :
    (∀ t, Ends cfg team answers s t → Merged cfg answers s d t ∧
      ∀ t', Ends cfg team answers s t' → SameShared t t') ↔ Mergeable cfg answers s d := by
  constructor
  · intro h
    have hmerged : ∀ t, Ends cfg team answers s t → Merged cfg answers s d t :=
      fun t ht => (h t ht).1
    exact
      { kept := fun m hm m' hm' hne ha => kept_of_merged hs hmerged hm hm' hne ha
        thread := thread_of_merged hs hmerged
        object := object_of_merged hs hmerged
        stale := fun m hm m' hm' hne key value hkey ha hmg =>
          stale_of_merged hs hmerged hm hm' hne hkey ha hmg }
  · intro hk
    have hmerged : ∀ t, Ends cfg team answers s t → Merged cfg answers s d t := by
      rintro t ⟨hr, hc⟩
      obtain ⟨received, hg⟩ := gathering_of_reaches hs hr
      exact ⟨fun m hm key value hkey ha => outputs_of_mergeable hs hk hg hc hm hkey ha,
        thread_of_mergeable hs hk hg hc⟩
    intro t ht
    refine ⟨hmerged t ht, ?_⟩
    intro t' ht' key
    by_cases hown : ∃ m ∈ d.todo, m.outputKey = some key ∧
        announced (execution cfg answers s m) ≠ none
    · obtain ⟨m, hm, hkey, ha⟩ := hown
      obtain ⟨value, ha⟩ := Option.ne_none_iff_exists'.mp ha
      rw [(hmerged t ht).outputs m hm key value hkey ha,
        (hmerged t' ht').outputs m hm key value hkey ha]
    · have hno : ∀ m ∈ d.todo, m.outputKey = some key →
          announced (execution cfg answers s m) = none := by
        intro m hm hkey
        by_contra ha
        exact hown ⟨m, hm, hkey, ha⟩
      obtain ⟨received, hg⟩ := gathering_of_reaches hs ht.1
      obtain ⟨received', hg'⟩ := gathering_of_reaches hs ht'.1
      rw [get_unowned hs hg hno, get_unowned hs hg' hno]

/-! ### Batches of a run -/

/-- What `run_dag` schedules at a loop head is a batch, as far as its missions
have disjoint output keys. -/
theorem batch_of_scheduled {squadId : String} {inputs : Json} {labels : List Label}
    (ht : t = after cfg team squadId inputs labels) (hd : t.AtHead d)
    (hp : d.team.team.defaultProcess = .sequential) (hs : Scheduled d d')
    (hkeys : d'.todo.Pairwise fun m m' => ∀ key, m.outputKey = some key → m'.outputKey ≠ some key)
    (hdistinct : t.squad.context.shared.Distinct)
    (hfresh : (d'.todo.flatMap (stamps answers)).Nodup)
    (hunseen : ∀ id ∈ d'.todo.flatMap (stamps answers), ∀ msg ∈ t.squad.context.thread,
      msg.id ≠ id) : Batch answers { t with phase := .driving d' } d' := by
  obtain ⟨hdriven, hbusy⟩ := driven_busy_after cfg team squadId inputs labels
  rw [← ht] at hdriven hbusy
  have hteam : d'.team = d.team := by
    cases hs with
    | ready hseq => rfl
    | managed hp' hm hc => rfl
  have hsched := (driven_schedule hdriven hd hs).driving rfl
  exact
    { phase := rfl
      process := by rw [hteam, hp]
      running := hbusy (ne_idle_of_driving hd.phase)
      batch := hd.batch
      apart := hsched.order
      keys := hkeys
      distinct := hdistinct
      fresh := hfresh
      unseen := hunseen }

def keyedMission (id key : String) (deps : List String) : Mission :=
  { plainMission id with outputKey := some key, dependsOn := deps }

/-- A mission alone, and then two at once. -/
def oneThenTwo : ValidTeam :=
  { team := plainTeam [keyedMission "m1" "a" [], keyedMission "m2" "b" ["m1"],
      keyedMission "m3" "c" ["m1"]]
    valid := rfl }

def twoAtOnce : ValidTeam :=
  { team := plainTeam [keyedMission "m1" "a" [], keyedMission "m2" "b" []], valid := rfl }

def doneBy : String → MissionAnswers := answering (.ok (.str "done"))

/-- The labels of a batch whose executions take turns one after the other. -/
def collecting (ids : List String) : List Label :=
  ids.flatMap (fun id => .spawn id (doneBy id) :: List.replicate 4 (.advance id)) ++
    ids.map fun id => .receive id storing

theorem collecting_collecting (ids : List String) :
    ∀ l ∈ collecting ids, Collecting doneBy l := by
  intro l hl
  rw [collecting, List.mem_append, List.mem_flatMap, List.mem_map] at hl
  rcases hl with ⟨id, -, hl⟩ | ⟨id, -, rfl⟩
  · rw [List.mem_cons] at hl
    rcases hl with rfl | hl
    · exact .spawn id
    · rw [(List.mem_replicate.mp hl).2]
      exact .advance id
  · exact .receive id storing

/-- The driver at the loop head that schedules the missions `todo`. -/
def scheduling (team : ValidTeam) (completed : Finset String) (todo : List Mission) : Driver :=
  { team := team, completed := completed, running := ∅, todo := todo, managerLoops := 0 }

theorem merged_twoAtOnce :
    let s := after plainEngine twoAtOnce "s" (.obj []) starting
    let d := scheduling twoAtOnce ∅ twoAtOnce.team.missions
    Batch doneBy s d ∧ ∀ t, Ends plainEngine twoAtOnce doneBy s t →
      Merged plainEngine doneBy s d t ∧
        ∀ t', Ends plainEngine twoAtOnce doneBy s t' → SameShared t t' := by
  intro s d
  have hbatch : Batch doneBy s d :=
    { phase := rfl
      process := rfl
      running := rfl
      batch := rfl
      apart := by decide
      keys := by
        rw [show d.todo = [keyedMission "m1" "a" [], keyedMission "m2" "b" []] from rfl]
        simp [keyedMission]
      distinct := List.nodup_nil
      fresh := by decide
      unseen := by decide }
  refine ⟨hbatch, (merged_iff_mergeable plainEngine twoAtOnce doneBy s d hbatch).mpr ?_⟩
  exact
    { kept := by decide
      thread := .inl rfl
      object := .inl rfl
      stale := fun m hm m' hm' hne key value hk ha hmg => .inl rfl }

/-- The clones of the second batch bring the message of the first mission back
twice. -/
theorem not_merged_oneThenTwo :
    let s := after plainEngine oneThenTwo "s" (.obj [])
      (starting ++ collecting ["m1"] ++ [.head none storing])
    let d := scheduling oneThenTwo {"m1"} [keyedMission "m2" "b" ["m1"], keyedMission "m3" "c" ["m1"]]
    Batch doneBy s d ∧ ∃ t, Ends plainEngine oneThenTwo doneBy s t ∧
      t.squad.context.thread.map ThreadMessage.id = ["o-m1", "o-m1", "o-m2", "o-m1", "o-m3"] ∧
      ¬ Merged plainEngine doneBy s d t := by
  intro s d
  have hbatch : Batch doneBy s d :=
    { phase := rfl
      process := rfl
      running := rfl
      batch := rfl
      apart := by decide
      keys := by
        rw [show d.todo = [keyedMission "m2" "b" ["m1"], keyedMission "m3" "c" ["m1"]] from rfl]
        simp [keyedMission]
      distinct := by
        show (List.map Prod.fst _).Nodup
        decide
      fresh := by decide
      unseen := by decide }
  refine ⟨hbatch, (collecting ["m2", "m3"]).foldl (step plainEngine oneThenTwo) s, ?_, ?_, ?_⟩
  · exact ⟨⟨_, collecting_collecting _, rfl⟩, List.isEmpty_iff.mp (by decide), by decide⟩
  · decide
  · intro h
    have hcount := h.thread.length_eq
    revert hcount
    decide

end System

end Pandaria.Comp
