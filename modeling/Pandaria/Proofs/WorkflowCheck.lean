import Pandaria.Comp.Workflow
import Pandaria.Lib.Precedence

/-!
# What the check of a workflow says

It is said to look for unknown dependencies and for cycles. Ids and output keys
differ in every workflow that passes. Of the dependencies it looks at one kind, of
hierarchical workflows: the pass over a sequential one is empty since the module
with the cycle check was removed, and alternatives and routers are looked at nowhere.
What is asked of these on top is all that is missing.
-/

namespace Pandaria.Comp.Workflow

open Pandaria.Ai Pandaria.Lib

/-! ## The conditions -/

/-- What the step comes after: its dependencies, and the step it routes from. -/
def Step.upstreams (step : Step) : List String :=
  step.dependsOn ++ (step.router.map RouterConfig.upstream).toList

/-- What the step needs is done. -/
def Step.ReadyAfter (step : Step) (done : Finset String) : Prop :=
  Met step.upstreams step.orDependsOn done

/-- It comes after one of these, or has no other alternative. -/
def Step.WaitsFor (step : Step) (waiting : Finset String) : Prop :=
  Blocked step.upstreams step.orDependsOn waiting

instance (step : Step) (waiting : Finset String) : Decidable (step.WaitsFor waiting) :=
  inferInstanceAs (Decidable (Blocked _ _ _))

def ids (w : Workflow) : List String := w.steps.map Step.id

/-- What the comment of the check says of a workflow that passes. -/
structure Sound (w : Workflow) : Prop where
  ids : w.ids.Nodup
  outputKeys : (w.steps.filterMap Step.outputKey).Nodup
  dependsOn : ∀ step ∈ w.steps, ∀ dep ∈ step.dependsOn, dep ∈ w.ids
  orDependsOn : ∀ step ∈ w.steps, ∀ dep ∈ step.orDependsOn, dep ∈ w.ids
  routers : ∀ step ∈ w.steps, ∀ router ∈ step.router, router.upstream ∈ w.ids
  order : w.process = .sequential → ∃ order : List Step, order.Perm w.steps ∧
    Doable Step.id (fun done step => step.ReadyAfter done) ∅ order

/-- What it leaves out. -/
structure Unchecked (w : Workflow) : Prop where
  alternatives : ∀ step ∈ w.steps, ∀ dep ∈ step.orDependsOn, dep ∈ w.ids
  routers : ∀ step ∈ w.steps, ∀ router ∈ step.router, router.upstream ∈ w.ids
  dependsOn : w.process = .sequential → ∀ step ∈ w.steps, ∀ dep ∈ step.dependsOn, dep ∈ w.ids
  noCycle : w.process = .sequential → ∀ waiting : Finset String,
    (∃ step ∈ w.steps, step.id ∈ waiting) →
      ∃ step ∈ w.steps, step.id ∈ waiting ∧ ¬ step.WaitsFor waiting

variable {w : Workflow}

/-! ## The passes -/

theorem validateSteps_ok {steps : List Step} {seen : List String}
    (h : validateSteps seen steps = .ok ()) :
    (steps.map Step.id).Nodup ∧ ∀ step ∈ steps, step.id ∉ seen := by
  induction steps generalizing seen with
  | nil => exact ⟨List.nodup_nil, fun step hs => absurd hs List.not_mem_nil⟩
  | cons step rest ih =>
      rw [validateSteps] at h
      split at h
      · cases h
      · split at h
        · cases h
        · split at h
          · cases h
          · split at h
            · cases h
            · next hnew =>
                obtain ⟨hnodup, hseen⟩ := ih h
                rw [List.map_cons, List.nodup_cons]
                refine ⟨⟨fun hin => ?_, hnodup⟩, fun s hs => ?_⟩
                · obtain ⟨s, hs, he⟩ := List.mem_map.mp hin
                  exact hseen s hs (he ▸ List.mem_cons_self)
                · rcases List.mem_cons.mp hs with rfl | hs
                  · exact hnew
                  · exact fun hin => hseen s hs (List.mem_cons_of_mem _ hin)

theorem validateOutputKeys_ok {steps : List Step} {seen : List String}
    (h : validateOutputKeys seen steps = .ok ()) :
    (steps.filterMap Step.outputKey).Nodup ∧
      ∀ key ∈ steps.filterMap Step.outputKey, key ∉ seen := by
  induction steps generalizing seen with
  | nil => exact ⟨List.nodup_nil, fun key hk => absurd hk List.not_mem_nil⟩
  | cons step rest ih =>
      rw [validateOutputKeys] at h
      split at h
      · next hnone =>
          rw [List.filterMap_cons_none hnone]
          exact ih h
      · next key hkey =>
          rw [List.filterMap_cons_some hkey, List.nodup_cons]
          split at h
          · cases h
          · split at h
            · cases h
            · split at h
              · cases h
              · next hnew =>
                  obtain ⟨hnodup, hseen⟩ := ih h
                  refine ⟨⟨fun hin => hseen key hin List.mem_cons_self, hnodup⟩, fun k hk => ?_⟩
                  rcases List.mem_cons.mp hk with rfl | hk
                  · exact hnew
                  · exact fun hin => hseen k hk (List.mem_cons_of_mem _ hin)

/-- The dependencies of a hierarchical workflow exist. -/
theorem validateProcess_ok (h : w.validateProcess = .ok ()) (hp : w.process ≠ .sequential) :
    ∀ step ∈ w.steps, ∀ dep ∈ step.dependsOn, dep ∈ w.ids := by
  rw [validateProcess] at h
  split at h
  · next hseq => exact absurd hseq hp
  · split at h
    · cases h
    · split at h
      · cases h
      · next hnone =>
          intro step hs dep hdep
          have hin := List.find?_eq_none.mp hnone dep (List.mem_flatMap.mpr ⟨step, hs, hdep⟩)
          simpa [ids] using hin

theorem validateStatic_ok (h : w.validateStatic = .ok ()) :
    validateSteps [] w.steps = .ok () ∧ w.validateProcess = .ok () ∧
      validateOutputKeys [] w.steps = .ok () := by
  rw [validateStatic] at h
  simp only [bind, Except.bind] at h
  repeat' split at h
  all_goals first
    | exact ⟨‹_›, ‹_›, h⟩
    | cases h

/-! ## The workflows that can be run -/

theorem mem_upstreams {step : Step} {id : String} : id ∈ step.upstreams ↔
    id ∈ step.dependsOn ∨ ∃ router ∈ step.router, router.upstream = id := by
  rw [Step.upstreams, List.mem_append]
  simp

/-- When all a sequential workflow names exists, there is an order unless it has a cycle. -/
theorem order_iff_noCycle (hnodup : w.ids.Nodup)
    (hdep : ∀ step ∈ w.steps, ∀ dep ∈ step.dependsOn, dep ∈ w.ids)
    (hor : ∀ step ∈ w.steps, ∀ dep ∈ step.orDependsOn, dep ∈ w.ids)
    (hrouter : ∀ step ∈ w.steps, ∀ router ∈ step.router, router.upstream ∈ w.ids) :
    (∃ order : List Step, order.Perm w.steps ∧
      Doable Step.id (fun done step => step.ReadyAfter done) ∅ order) ↔
      ∀ waiting : Finset String, (∃ step ∈ w.steps, step.id ∈ waiting) →
        ∃ step ∈ w.steps, step.id ∈ waiting ∧ ¬ step.WaitsFor waiting := by
  refine exists_order_iff_blocked hnodup (fun step hs id hid => ?_) hor
  rcases mem_upstreams.mp hid with hid | ⟨router, hr, rfl⟩
  · exact hdep step hs id hid
  · exact hrouter step hs router hr

/-- An accepted workflow is what the check says exactly when the rest is right. -/
theorem sound_iff_unchecked (w : Workflow) (h : w.validateStatic = .ok ()) :
    w.Sound ↔ w.Unchecked := by
  obtain ⟨hsteps, hprocess, hkeys⟩ := validateStatic_ok h
  have hnodup := (validateSteps_ok hsteps).1
  constructor
  · intro hs
    exact
      { alternatives := hs.orDependsOn
        routers := hs.routers
        dependsOn := fun _ => hs.dependsOn
        noCycle := fun hp =>
          (order_iff_noCycle hnodup hs.dependsOn hs.orDependsOn hs.routers).mp (hs.order hp) }
  · intro hu
    have hdep : ∀ step ∈ w.steps, ∀ dep ∈ step.dependsOn, dep ∈ w.ids := by
      by_cases hp : w.process = .sequential
      · exact hu.dependsOn hp
      · exact validateProcess_ok hprocess hp
    exact
      { ids := hnodup
        outputKeys := (validateOutputKeys_ok hkeys).1
        dependsOn := hdep
        orDependsOn := hu.alternatives
        routers := hu.routers
        order := fun hp =>
          (order_iff_noCycle hnodup hdep hu.alternatives hu.routers).mpr (hu.noCycle hp) }

def plainStep (id : String) (deps : List String) : Step :=
  { id := id, agentId := "a", task := "work", dependsOn := deps, outputKey := some id
    timeout := none, retries := none, retryDelay := none, waitForSignal := none
    signalTimeout := none, signalTimeoutAction := none, breakpoint := false
    modelOverride := none, expectedOutput := none, orDependsOn := [], router := none }

def plainWorkflow (steps : List Step) : Workflow :=
  { id := "w", name := "w", description := none, steps := steps, inputs := [], outputs := []
    process := .sequential, planning := none, webhook := none, schedule := none
    scheduleInputs := .null }

/-- The second step routes what the first one gives. -/
def routed : Workflow :=
  plainWorkflow [plainStep "s1" [],
    { plainStep "s2" [] with orDependsOn := ["s1"], router := some { upstream := "s1" } }]

/-- Each of two steps comes after the other. -/
def circular : Workflow := plainWorkflow [plainStep "s1" ["s2"], plainStep "s2" ["s1"]]

theorem sound_routed : routed.Sound := by
  refine (sound_iff_unchecked routed (by decide)).mpr
    ⟨by decide, by decide, fun _ => by decide, fun _ waiting => ?_⟩
  rintro ⟨step, hs, hin⟩
  by_cases hfirst : "s1" ∈ waiting
  · refine ⟨plainStep "s1" [], List.mem_cons_self, hfirst, ?_⟩
    rintro (⟨dep, hdep, -⟩ | ⟨hne, -⟩)
    · cases hdep
    · exact hne rfl
  · refine ⟨step, hs, hin, ?_⟩
    have hbare : ∀ step ∈ routed.steps, (∀ id ∈ step.upstreams, id = "s1") ∧
        (step.orDependsOn = [] ∨ "s1" ∈ step.orDependsOn) := by decide
    obtain ⟨hup, hor⟩ := hbare step hs
    rintro (⟨dep, hdep, hw⟩ | ⟨hne, hall⟩)
    · exact hfirst (hup dep hdep ▸ hw)
    · exact hor.elim hne fun hin => hfirst (hall _ hin)

/-- A sequential workflow with a cycle passes. -/
theorem not_sound_circular : circular.validateStatic = .ok () ∧ ¬ circular.Sound := by
  refine ⟨by decide, fun h => ?_⟩
  have hu := ((order_iff_noCycle h.ids h.dependsOn h.orDependsOn h.routers).mp (h.order rfl))
    {"s1", "s2"} ⟨plainStep "s1" ["s2"], by decide, by decide⟩
  obtain ⟨step, hs, -, hfree⟩ := hu
  have hwait : ∀ step ∈ circular.steps, step.WaitsFor {"s1", "s2"} := by decide
  exact hfree (hwait step hs)

end Pandaria.Comp.Workflow

/-!
## What of a workflow comes back

Everything a definition has is written, under the name it is read by, so a workflow
comes back when its parts do. Two parts may not. The default of an input may be the
JSON value `null`, which is what no default is written as. And an `f32` may be a
number JSON does not have.
-/

namespace Pandaria.Comp

open Pandaria.Ai Pandaria.Lib JsonCodec

namespace Workflow

variable {f32 : F32Format}

/-! ### Parts that always come back -/

theorem lossless_signalTimeoutAction : SignalTimeoutAction.codec.Lossless where
  read a := by
    cases a with
    | fail => rfl
    | reject => rfl
  ne_null _ := Json.noConfusion

theorem lossless_routerConfig : RouterConfig.codec.Lossless where
  read r := by
    obtain ⟨upstream⟩ := r
    simp [RouterConfig.codec, Codec.bind_eq_ok]
  ne_null _ := Json.noConfusion

theorem lossless_managerConfig : ManagerConfig.codec.Lossless where
  read m := by
    obtain ⟨agentId, instructions⟩ := m
    simp [ManagerConfig.codec, Codec.bind_eq_ok, lossless_string.option_read]
  ne_null _ := Json.noConfusion

theorem lossless_planningConfig : PlanningConfig.codec.Lossless where
  read p := by
    obtain ⟨enabled, planningAgent⟩ := p
    simp [PlanningConfig.codec, Codec.bind_eq_ok, lossless_string.option_read]
  ne_null _ := Json.noConfusion

theorem lossless_webhookConfig : WebhookConfig.codec.Lossless where
  read w := by
    obtain ⟨url, secret, timeoutSecs, retries, retryDelay⟩ := w
    simp [WebhookConfig.codec, Codec.bind_eq_ok, lossless_string.option_read,
      lossless_uint64.option_read]
  ne_null _ := Json.noConfusion

theorem lossless_outputDef : OutputDef.codec.Lossless where
  read o := by
    obtain ⟨name, value⟩ := o
    simp [OutputDef.codec, Codec.bind_eq_ok]
  ne_null _ := Json.noConfusion

/-! ### Parts that may not -/

theorem inputDef_roundTrips_iff (i : InputDef) :
    InputDef.codec.RoundTrips i ↔ i.default ≠ some .null := by
  have h : InputDef.codec.RoundTrips i ↔ value.option.RoundTrips i.default := by
    obtain ⟨name, required, default⟩ := i
    simp [Codec.RoundTrips, InputDef.codec, Codec.bind_eq_ok, Codec.map_eq_ok, -Bool.exists_bool]
  rw [h, option_roundTrips_iff]
  constructor
  · intro h hnull
    exact (h .null hnull).1 rfl
  · intro h x hx
    refine ⟨?_, value_read x⟩
    rintro rfl
    exact h hx

/-- A temperature that is not finite is written as `null`. -/
theorem temperature_roundTrips_iff (x : UInt32) :
    f32.codec.RoundTrips x ↔ isFinite x = true := by
  constructor
  · intro h
    by_contra hx
    rw [Codec.RoundTrips, f32.notFinite x (by simpa using hx)] at h
    exact f32.null x h
  · exact f32.finite x

theorem modelConfig_roundTrips_iff (m : ModelConfig) :
    (ModelConfig.codec f32).RoundTrips m ↔ isFinite m.temperature = true := by
  rw [← @temperature_roundTrips_iff f32]
  obtain ⟨provider, name, temperature⟩ := m
  simp [Codec.RoundTrips, ModelConfig.codec, Codec.bind_eq_ok, Codec.map_eq_ok]

theorem step_roundTrips_iff (s : Step) :
    (Step.codec f32).RoundTrips s ↔
      ∀ m, s.modelOverride = some m → isFinite m.temperature = true := by
  have h : (Step.codec f32).RoundTrips s ↔
      (ModelConfig.codec f32).option.RoundTrips s.modelOverride := by
    obtain ⟨⟩ := s
    simp [Codec.RoundTrips, Step.codec, Codec.bind_eq_ok, Codec.map_eq_ok,
      lossless_string.option_read, lossless_string.vec_read, lossless_uint64.option_read,
      lossless_signalTimeoutAction.option_read, lossless_routerConfig.option_read,
      -Bool.exists_bool]
  rw [h, option_roundTrips_iff]
  refine forall_congr' fun m => imp_congr_right fun _ => ?_
  rw [modelConfig_roundTrips_iff]
  exact and_iff_right Json.noConfusion

/-- The manager is under a key of its own. -/
theorem manager_read (cfg : ManagerConfig) :
    ManagerConfig.codec.option.read (ManagerConfig.codec.write cfg) = .ok (some cfg) :=
  lossless_managerConfig.option_read (some cfg)

theorem kind_read (kind : String) : string.option.read (.str kind) = .ok (some kind) := rfl

/-- A workflow comes back exactly when no input has the default `null` and every
temperature is a number. -/
theorem workflow_roundTrips_iff (f32 : F32Format) (w : Workflow) :
    (codec f32).RoundTrips w ↔
      (∀ input ∈ w.inputs, input.default ≠ some .null) ∧
        ∀ step ∈ w.steps, ∀ m, step.modelOverride = some m → isFinite m.temperature = true := by
  have h : (codec f32).RoundTrips w ↔
      (Step.codec f32).vec.RoundTrips w.steps ∧ InputDef.codec.vec.RoundTrips w.inputs := by
    obtain ⟨id, name, description, steps, inputs, outputs, process, planning, webhook, schedule,
      scheduleInputs⟩ := w
    cases process with
    | sequential =>
        simp [Codec.RoundTrips, codec, Codec.bind_eq_ok, Process.write, Process.read, kind_read,
          lossless_string.option_read, lossless_outputDef.vec_read,
          lossless_planningConfig.option_read, lossless_webhookConfig.option_read]
    | hierarchical cfg =>
        simp [Codec.RoundTrips, codec, Codec.bind_eq_ok, Process.write, Process.read, kind_read,
          manager_read, lossless_string.option_read, lossless_outputDef.vec_read,
          lossless_planningConfig.option_read, lossless_webhookConfig.option_read]
  rw [h, vec_roundTrips_iff, vec_roundTrips_iff, and_comm]
  exact and_congr (forall₂_congr fun input _ => inputDef_roundTrips_iff input)
    (forall₂_congr fun step _ => step_roundTrips_iff step)

/-- A format of `f32`s, which writes their bits. -/
def bitsFormat : F32Format where
  codec :=
    { write := fun x => if isFinite x then uint64.write x.toUInt64 else .null
      read := fun v => UInt64.toUInt32 <$> uint64.read v }
  finite x h := by
    show UInt64.toUInt32 <$> uint64.read (if isFinite x then uint64.write x.toUInt64 else .null) = _
    rw [if_pos h, uint64_read]
    exact congrArg Except.ok (UInt32.toUInt32_toUInt64 x)
  notFinite x h := by
    show (if isFinite x then uint64.write x.toUInt64 else .null) = _
    rw [h]
    rfl
  null x h := by cases h

/-- The default of the input is the value `null`. -/
def nullDefault : Workflow where
  id := "pipeline"
  name := "Pipeline"
  description := none
  steps := []
  inputs := [⟨"topic", false, some .null⟩]
  outputs := []
  process := .sequential
  planning := none
  webhook := none
  schedule := none
  scheduleInputs := .null

/-- What comes back has no default. -/
theorem not_workflow_roundTrips :
    (codec bitsFormat).read ((codec bitsFormat).write nullDefault) =
        .ok { nullDefault with inputs := [⟨"topic", false, none⟩] } ∧
      ¬ (codec bitsFormat).RoundTrips nullDefault := by
  have hread : (codec bitsFormat).read ((codec bitsFormat).write nullDefault) =
      .ok { nullDefault with inputs := [⟨"topic", false, none⟩] } := rfl
  refine ⟨hread, ?_⟩
  intro h
  rw [Codec.RoundTrips, hread] at h
  injection h with h
  exact absurd (congrArg Workflow.inputs h) (by decide)

end Workflow

end Pandaria.Comp
