import Pandaria.Lib.Template
import Pandaria.Proofs.Runnable

/-!
# What a planner's text becomes

The planning phase puts the planner's words behind the author's task, and
`execute_mission` renders the whole as a template. Of the template engine no
more is used than that text renders to itself. So the words come out as they
are when no tag begins in them, and only then: an engine may make anything of a
tag, and some make nothing of it.
-/

namespace Pandaria.Comp

open Pandaria.Ai Pandaria.Lib Pandaria.Lib.Template

/-! ## The text a plan adds -/

namespace Plan

/-- The step of a plan for a mission. -/
def stepFor (plan : Plan) (mission : Mission) : Option PlanStep :=
  plan.steps.find? fun ps => ps.taskId = mission.id

/-- What is put behind the task of the mission. -/
def contextOf (plan : Plan) (ps : PlanStep) : String :=
  "\n\n[Plan Context]\nOverall Strategy: " ++ plan.overallStrategy ++
    "\nYour role in this plan: " ++ ps.reasoning ++ "\nExpected output: " ++ ps.expectedOutput

/-- A tag begins in one of the planner's own texts. -/
def opensIn (plan : Plan) (ps : PlanStep) : Bool :=
  opens plan.overallStrategy.toList || opens ps.reasoning.toList || opens ps.expectedOutput.toList

variable {plan : Plan} {m : Mission} {ps : PlanStep}

theorem task_inject (h : plan.stepFor m = some ps) (process : Process) :
    (plan.inject process m).task = m.task ++ plan.contextOf ps := by
  rw [stepFor] at h
  unfold inject
  rw [h]
  unfold contextOf
  simp only [String.append_assoc]

/-- The context begins on a new line. -/
def contextLine (plan : Plan) (ps : PlanStep) : String :=
  "\n[Plan Context]\nOverall Strategy: " ++ (plan.overallStrategy ++
    ("\nYour role in this plan: " ++
      (ps.reasoning ++ ("\nExpected output: " ++ ps.expectedOutput))))

theorem contextOf_eq (plan : Plan) (ps : PlanStep) :
    plan.contextOf ps = "\n" ++ plan.contextLine ps := by
  have hhead : "\n\n[Plan Context]\nOverall Strategy: " =
      "\n" ++ "\n[Plan Context]\nOverall Strategy: " := rfl
  unfold contextOf contextLine
  rw [hhead]
  simp only [String.append_assoc]

/-- The words around the planner's texts neither begin a tag nor end in a brace. -/
theorem opens_contextLine (plan : Plan) (ps : PlanStep) :
    opens (plan.contextLine ps).toList = plan.opensIn ps := by
  have hrole : "\nYour role in this plan: ".toList =
      '\n' :: "Your role in this plan: ".toList := rfl
  have hexpected : "\nExpected output: ".toList = '\n' :: "Expected output: ".toList := rfl
  unfold contextLine
  rw [String.toList_append, opens_append_of_not_mem (by decide), String.toList_append,
    String.toList_append, hrole, List.cons_append, opens_append_cons _ (by decide),
    ← List.cons_append, ← hrole, opens_append_of_not_mem (by decide), String.toList_append,
    String.toList_append, hexpected, List.cons_append, opens_append_cons _ (by decide),
    ← List.cons_append, ← hexpected, opens_append_of_not_mem (by decide), opensIn, Bool.or_assoc]

end Plan

/-! ## Planned missions -/

variable {team planned : ValidTeam} {plan : Plan}

/-- Whatever is in the context, a planned mission's task renders to what the
author's renders to, and then the planner's text. -/
def PlanIsData (cfg : EngineConfig) (team planned : ValidTeam) (plan : Plan) : Prop :=
  ∀ m ∈ team.team.missions, ∀ m' ∈ planned.team.missions, m'.id = m.id →
    ∀ ps ∈ plan.stepFor m, ∀ shared r, cfg.renderTemplate m.task shared = .ok r →
      cfg.renderTemplate m'.task shared = .ok (r ++ plan.contextOf ps)

/-- No tag begins in what the plan says about the missions. -/
def Plan.Plain (plan : Plan) (missions : List Mission) : Prop :=
  ∀ m ∈ missions, ∀ ps ∈ plan.stepFor m, plan.opensIn ps = false

instance (plan : Plan) (missions : List Mission) : Decidable (plan.Plain missions) :=
  inferInstanceAs (Decidable (∀ m ∈ missions, ∀ ps ∈ plan.stepFor m, _))

theorem mem_planned (h : runPlanningPhase team.team (.ok (.ok plan)) = .ok planned) {m : Mission} :
    m ∈ planned.team.missions ↔
      ∃ m' ∈ team.team.missions, plan.inject team.team.defaultProcess m' = m := by
  rw [team_of_runPlanningPhase h]
  exact List.mem_map

theorem task_planned (h : runPlanningPhase team.team (.ok (.ok plan)) = .ok planned)
    {m m' : Mission} (hm : m ∈ team.team.missions) (hm' : m' ∈ planned.team.missions)
    (hid : m'.id = m.id) {ps : PlanStep} (hps : plan.stepFor m = some ps) :
    m'.task = m.task ++ plan.contextOf ps := by
  obtain ⟨m'', hm'', rfl⟩ := (mem_planned h).mp hm'
  rw [id_inject] at hid
  rw [eq_of_id hm'' hm hid]
  exact Plan.task_inject hps _

theorem planIsData_of_plain (h : runPlanningPhase team.team (.ok (.ok plan)) = .ok planned)
    {cfg : EngineConfig} (hcfg : RendersText cfg.renderTemplate)
    (hplain : plan.Plain team.team.missions) : PlanIsData cfg team planned plan := by
  intro m hm m' hm' hid ps hps shared r hr
  rw [task_planned h hm hm' hid hps, Plan.contextOf_eq]
  refine hcfg.after m.task (plan.contextLine ps) shared r hr ?_
  rw [Plan.opens_contextLine]
  exact hplain m hm ps hps

/-- An engine that drops what is before the last tag drops some of a text in
which a tag begins. -/
theorem plain_of_planIsData (h : runPlanningPhase team.team (.ok (.ok plan)) = .ok planned)
    (hdata : ∀ cfg : EngineConfig, RendersText cfg.renderTemplate →
      PlanIsData cfg team planned plan) : plan.Plain team.team.missions := by
  intro m hm ps hps
  by_contra hopens
  rw [Bool.not_eq_false, ← Plan.opens_contextLine] at hopens
  have hcontext : opens (plan.contextOf ps).toList = true := by
    rw [Plan.contextOf_eq, String.toList_append]
    exact opens_append_right hopens _
  have hm' := (mem_planned h).mpr ⟨m, hm, rfl⟩
  have hdrop := hdata { System.plainEngine with renderTemplate := Template.tail }
    rendersText_tail m hm _ hm' (id_inject ..) ps hps .null _ rfl
  rw [task_planned h hm hm' (id_inject ..) hps] at hdrop
  injection hdrop with hdrop
  have hlist := congrArg String.toList hdrop
  rw [String.toList_append, String.toList_append, String.toList_ofList, String.toList_ofList,
    plainTail_append_of_opens hcontext] at hlist
  have hlen := congrArg List.length hlist
  rw [List.length_append] at hlen
  have hlt := length_plainTail_lt hcontext
  omega

/-- With every engine that renders text to itself a planner's text is data,
exactly when no tag begins in it. -/
theorem planIsData_iff (team planned : ValidTeam) (plan : Plan)
    (h : runPlanningPhase team.team (.ok (.ok plan)) = .ok planned) :
    (∀ cfg : EngineConfig, RendersText cfg.renderTemplate → PlanIsData cfg team planned plan) ↔
      plan.Plain team.team.missions :=
  ⟨plain_of_planIsData h, fun hplain _ hcfg => planIsData_of_plain h hcfg hplain⟩

/-- A team of one mission, and a plan that says this about it. -/
def alone : ValidTeam := { team := System.plainTeam [System.plainMission "m1"], valid := rfl }

def saying (reasoning : String) : Plan :=
  { steps := [{ taskId := "m1", reasoning := reasoning, expectedOutput := "a list"
                dependencies := [] }]
    overallStrategy := "divide {and} conquer" }

def percent : Plan := saying "collect 100% of \x7bthem\x7d\x7d"

def braces : Plan := saying "write \x7b\x7b where the name goes"

def plannedPercent : ValidTeam :=
  { team := { alone.team with missions := alone.team.missions.map (percent.inject .sequential) }
    valid := rfl }

def plannedBraces : ValidTeam :=
  { team := { alone.team with missions := alone.team.missions.map (braces.inject .sequential) }
    valid := rfl }

/-- An engine for text without tags: it refuses every other template. -/
def tagless (template : String) (_ : Json) : Except String String :=
  if opens template.toList then .error "syntax error: unexpected identifier" else .ok template

theorem rendersText_tagless : RendersText tagless := by
  constructor
  · intro text ctx h
    rw [tagless, h]
    rfl
  · intro template text ctx r hr h
    rw [tagless] at hr
    split at hr
    · cases hr
    · next hnone =>
        injection hr with hr
        subst hr
        rw [Bool.not_eq_true] at hnone
        have hboth : opens (template ++ ("\n" ++ text)).toList = false := by
          rw [String.toList_append, String.toList_append]
          show opens (template.toList ++ '\n' :: text.toList) = false
          rw [opens_append_cons _ (by decide), hnone, opens_cons_of_ne (by decide), h]
          rfl
        rw [tagless, hboth]
        rfl

/-- And with it a plan without a tag is told. -/
theorem planIsData_percent :
    PlanIsData { System.plainEngine with renderTemplate := tagless } alone plannedPercent percent :=
  (planIsData_iff alone plannedPercent percent rfl).mpr (by decide) _ rendersText_tagless

/-- The author's task renders, and with the plan it does not. -/
theorem not_planIsData_told :
    ¬ ∀ (cfg : EngineConfig) (team planned : ValidTeam) (plan : Plan),
      RendersText cfg.renderTemplate →
        runPlanningPhase team.team (.ok (.ok plan)) = .ok planned →
          PlanIsData cfg team planned plan := by
  intro h
  have hmem : braces.inject .sequential (System.plainMission "m1") ∈ plannedBraces.team.missions :=
    List.mem_cons_self
  obtain ⟨task, htask, hopens⟩ : ∃ task,
      (braces.inject .sequential (System.plainMission "m1")).task = task ∧
        opens task.toList = true := by
    refine ⟨_, rfl, ?_⟩
    rw [Plan.task_inject rfl, String.toList_append, Plan.contextOf_eq, String.toList_append]
    refine opens_append_right (opens_append_right ?_ _) _
    rw [Plan.opens_contextLine]
    decide
  have hrenders := h { System.plainEngine with renderTemplate := tagless } alone plannedBraces
    braces rendersText_tagless rfl _ List.mem_cons_self _ hmem rfl _ rfl (.obj []) "work" rfl
  rw [htask] at hrenders
  have hfails : tagless task (.obj []) = .error "syntax error: unexpected identifier" := by
    rw [tagless, hopens]
    rfl
  cases hfails.symm.trans hrenders

end Pandaria.Comp
