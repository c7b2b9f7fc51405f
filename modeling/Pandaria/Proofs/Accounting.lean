import Mathlib.Data.List.Perm.Basic
import Pandaria.Lib.Threads
import Pandaria.Proofs.Meter
import Pandaria.Proofs.Reservation
import Pandaria.Tenant.Supervisor

/-!
# What a registered supervisor accounts for

The counter and the meters of a tenant live in a supervisor, and the registry
replaces the supervisor. So what it knows of the tenant is what has been done
with this one object since it was made: the guards and the records of its
predecessors are nowhere in it, and those that somebody still makes with a
predecessor are not either.

As long as a supervisor is only replaced while its tenant has no guards and
nothing in its windows, and no one goes on with an old one, all of it is there.
-/

namespace Pandaria.Tenant

open Pandaria.Lib

/-- How long a meter of this kind looks back. -/
def MeterKind.window : MeterKind → Nat
  | .token | .cpuTime => 86400 * second
  | .toolCall => 60 * second

/-- The supervisor, had its meters these entries. -/
def TenantSupervisor.knowing (s : TenantSupervisor) (entries : MeterKind → List Record) :
    TenantSupervisor :=
  { s with
    tokenMeter := { s.tokenMeter with entries := entries .token }
    toolCallMeter := { s.toolCallMeter with entries := entries .toolCall }
    cpuTimeMeter := { s.cpuTimeMeter with entries := entries .cpuTime } }

namespace Tenants

open Reservations (oneSession)

/-- What was recorded for a tenant within the last window. -/
def recent (s : Tenants) (tenantId : String) (kind : MeterKind) (later : Nat) : List Record :=
  within kind.window later (s.usageOf tenantId kind)

/-- The registered supervisors account for their tenants: the guards are within
the limit in force, the meters look at everything that was recorded within
their windows, and a check answers as if they held everything ever recorded. -/
structure Accounted (s : Tenants) : Prop where
  guards : ∀ tenantId supervisor, s.registered tenantId = some supervisor →
    s.liveGuards tenantId ≤ supervisor.quota.maxConcurrentSessions.toNat
  seen : ∀ tenantId supervisor kind later, s.registered tenantId = some supervisor →
    s.now ≤ later → ((supervisor.meter kind).prune later).entries = s.recent tenantId kind later
  checked : ∀ tenantId supervisor check later, s.registered tenantId = some supervisor →
    s.now ≤ later → (supervisor.checkQuota later check).1 =
      ((supervisor.knowing (s.usageOf tenantId)).checkQuota later check).1

/-- The tenant has no guards and nothing in its windows. -/
def Idle (s : Tenants) (tenantId : String) : Prop :=
  s.liveGuards tenantId = 0 ∧ ∀ kind, s.recent tenantId kind s.now = []

/-- Operations that leave nothing behind: a supervisor is only replaced while
its tenant is idle, a session is only reserved and usage only recorded with the
supervisor that is registered, and a record finds room in the window. -/
def OkNow (s : Tenants) : RegistryOp → Prop
  | .resolveOrInsert ctx =>
      match s.registered ctx.tenantId with
      | some existing =>
          existing.isStale s.registry.cacheTtl s.now = true → s.Idle ctx.tenantId
      | none => True
  | .refresh ctx => s.Idle ctx.tenantId
  | .reserveSession i =>
      ∀ supervisor, s.supervisors[i]? = some supervisor →
        s.registry.tenants.get? supervisor.tenantId = some i ∨
          supervisor.quota.maxConcurrentSessions.toNat ≤ supervisor.activeSessions
  | .record i usage =>
      ∀ supervisor, s.supervisors[i]? = some supervisor →
        s.registry.tenants.get? supervisor.tenantId = some i ∧
          (s.recent supervisor.tenantId usage.kind s.now).length < SlidingWindowMeter.maxEntries
  | .dropGuard _ | .checkQuota .. => True

def Ok (s : Tenants) (e : Nat × RegistryOp) : Prop := { s with now := s.now + e.1 }.OkNow e.2

/-! ## What is kept -/

/-- Of each supervisor, replaced or not. -/
structure Keeps (s : Tenants) (i : Nat) (supervisor : TenantSupervisor) : Prop where
  window : ∀ kind, (supervisor.meter kind).window = kind.window
  counter : supervisor.activeSessions = s.guards.count i
  within : supervisor.activeSessions ≤ supervisor.quota.maxConcurrentSessions.toNat
  home : i ∈ s.guards → s.registry.tenants.get? supervisor.tenantId = some i
  seen : s.registry.tenants.get? supervisor.tenantId = some i → ∀ kind,
    Tenant.within kind.window s.now (supervisor.meter kind).entries =
      s.recent supervisor.tenantId kind s.now

structure Whole (s : Tenants) : Prop where
  numbered : ∀ tenantId i, s.registry.tenants.get? tenantId = some i →
    ∃ supervisor, s.supervisors[i]? = some supervisor ∧ supervisor.tenantId = tenantId
  guards : ∀ i ∈ s.guards, i < s.supervisors.length
  /-- A tenant that was never registered has no records. -/
  usage : ∀ u ∈ s.usage, (s.registry.tenants.get? u.1).isSome = true
  keeps : ∀ i supervisor, s.supervisors[i]? = some supervisor → s.Keeps i supervisor

/-! ## The methods of a supervisor -/

theorem meter_fromContext (ctx : TenantContext) (now : Nat) (kind : MeterKind) :
    (TenantSupervisor.fromContext ctx now).meter kind = .new kind.window := by
  cases kind <;> rfl

theorem meter_recordAny (s : TenantSupervisor) (now : Nat) (usage : Usage) (kind : MeterKind) :
    (s.recordAny now usage).meter kind =
      if kind = usage.kind then (s.meter kind).record now usage.value else s.meter kind := by
  cases usage <;> cases kind <;> rfl

/-- Nothing else of a supervisor changes with a record. -/
theorem recordAny_rest (s : TenantSupervisor) (now : Nat) (usage : Usage) :
    (s.recordAny now usage).tenantId = s.tenantId ∧ (s.recordAny now usage).quota = s.quota ∧
      (s.recordAny now usage).activeSessions = s.activeSessions := by
  cases usage <;> exact ⟨rfl, rfl, rfl⟩

/-- A check drops what has left the window, and nothing else. -/
theorem meter_checkQuota (s : TenantSupervisor) (now : Nat) (check : QuotaCheck)
    (kind : MeterKind) :
    (s.checkQuota now check).2.meter kind = s.meter kind ∨
      (s.checkQuota now check).2.meter kind = (s.meter kind).prune now := by
  cases check <;> simp only [TenantSupervisor.checkQuota] <;> split <;> cases kind <;>
    first
    | exact .inl rfl
    | exact .inr rfl

theorem checkQuota_rest (s : TenantSupervisor) (now : Nat) (check : QuotaCheck) :
    (s.checkQuota now check).2.tenantId = s.tenantId ∧
      (s.checkQuota now check).2.quota = s.quota ∧
      (s.checkQuota now check).2.activeSessions = s.activeSessions := by
  cases check <;> simp only [TenantSupervisor.checkQuota] <;> split <;> exact ⟨rfl, rfl, rfl⟩

/-! ## What is seen -/

theorem fst_ite {α β : Type} {p q : Prop} [Decidable p] [Decidable q] (h : p ↔ q) (a b : α)
    (x y x' y' : β) :
    (if p then (a, x) else (b, y)).1 = (if q then (a, x') else (b, y')).1 := by
  by_cases hq : q
  · rw [if_pos hq, if_pos (h.mpr hq)]
  · rw [if_neg hq, if_neg fun hp => hq (h.mp hp)]

theorem checkQuota_knowing {s : TenantSupervisor} {entries : MeterKind → List Record}
    {now : Nat} (h : ∀ kind, within (s.meter kind).window now (s.meter kind).entries =
      within (s.meter kind).window now (entries kind)) (check : QuotaCheck) :
    (s.checkQuota now check).1 = ((s.knowing entries).checkQuota now check).1 := by
  have htoken := h .token
  have hcalls := h .toolCall
  have hcpu := h .cpuTime
  simp only [TenantSupervisor.meter] at htoken hcalls hcpu
  cases check with
  | sessionCreation =>
      simp only [TenantSupervisor.checkQuota, TenantSupervisor.knowing]
      exact fst_ite Iff.rfl _ _ _ _ _ _
  | toolCall =>
      simp only [TenantSupervisor.checkQuota, TenantSupervisor.knowing,
        SlidingWindowMeter.count, SlidingWindowMeter.prune, hcalls]
      exact fst_ite Iff.rfl _ _ _ _ _ _
  | tokenUsage input output =>
      simp only [TenantSupervisor.checkQuota, TenantSupervisor.knowing,
        TenantSupervisor.tokenTotal, SlidingWindowMeter.sum, SlidingWindowMeter.prune, htoken]
      exact fst_ite Iff.rfl _ _ _ _ _ _
  | cpuBudget =>
      simp only [TenantSupervisor.checkQuota, TenantSupervisor.knowing,
        SlidingWindowMeter.sum, SlidingWindowMeter.prune, hcpu]
      exact fst_ite Iff.rfl _ _ _ _ _ _

theorem registered_eq_some {s : Tenants} {tenantId : String} {supervisor : TenantSupervisor} :
    s.registered tenantId = some supervisor ↔
      ∃ i, s.registry.tenants.get? tenantId = some i ∧ s.supervisors[i]? = some supervisor :=
  Option.bind_eq_some_iff

/-- The guards of a tenant are those of its registered supervisor. -/
theorem Whole.liveGuards_le {s : Tenants} (h : s.Whole) {tenantId : String} {i : Nat}
    (hi : s.registry.tenants.get? tenantId = some i) :
    s.liveGuards tenantId ≤ s.guards.count i := by
  refine List.countP_mono_left fun j hj htenant => ?_
  obtain ⟨supervisor, hsup, hid⟩ := Option.map_eq_some_iff.mp (of_decide_eq_true htenant)
  have hhome := (h.keeps j supervisor hsup).home hj
  rw [hid, hi] at hhome
  exact beq_iff_eq.mpr (Option.some.inj hhome).symm

theorem Whole.accounted {s : Tenants} (h : s.Whole) : s.Accounted := by
  have hseen : ∀ tenantId supervisor kind later, s.registered tenantId = some supervisor →
      s.now ≤ later → within (supervisor.meter kind).window later
        (supervisor.meter kind).entries = s.recent tenantId kind later := by
    intro tenantId supervisor kind later hreg hle
    obtain ⟨i, hi, hsup⟩ := registered_eq_some.mp hreg
    obtain ⟨supervisor', hsup', hid⟩ := h.numbered tenantId i hi
    rw [hsup] at hsup'
    injection hsup' with hsup'
    subst hsup' hid
    have hkeeps := h.keeps i supervisor hsup
    rw [hkeeps.window, ← within_within hle, hkeeps.seen hi, recent, within_within hle, recent]
  refine ⟨fun tenantId supervisor hreg => ?_, hseen, fun tenantId supervisor check later hreg hle =>
    checkQuota_knowing (fun kind => ?_) check⟩
  · obtain ⟨i, hi, hsup⟩ := registered_eq_some.mp hreg
    have hkeeps := h.keeps i supervisor hsup
    have hle := h.liveGuards_le hi
    have hwithin := hkeeps.within
    rw [hkeeps.counter] at hwithin
    exact Nat.le_trans hle hwithin
  · obtain ⟨i, hi, hsup⟩ := registered_eq_some.mp hreg
    rw [hseen tenantId supervisor kind later hreg hle, recent,
      (h.keeps i supervisor hsup).window]

/-! ## One operation -/

/-- Time passes. -/
theorem Whole.wait {s : Tenants} (h : s.Whole) (wait : Nat) :
    Whole { s with now := s.now + wait } := by
  refine ⟨h.numbered, h.guards, h.usage, fun i supervisor hi => ?_⟩
  have hkeeps := h.keeps i supervisor hi
  refine ⟨hkeeps.window, hkeeps.counter, hkeeps.within, hkeeps.home, fun hreg kind => ?_⟩
  have hle : s.now ≤ s.now + wait := Nat.le_add_right _ _
  have hseen := congrArg (within kind.window (s.now + wait)) (hkeeps.seen hreg kind)
  rw [recent, within_within hle, within_within hle] at hseen
  exact hseen

theorem Whole.supervisor {s : Tenants} (h : s.Whole) {i : Nat} {supervisor : TenantSupervisor}
    (hi : s.supervisors[i]? = some supervisor) {tenantId : String}
    (hreg : s.registry.tenants.get? tenantId = some i) : supervisor.tenantId = tenantId := by
  obtain ⟨supervisor', hsup', hid⟩ := h.numbered tenantId i hreg
  rw [hi] at hsup'
  rw [Option.some.inj hsup', hid]

theorem Keeps.other {s : Tenants} {i : Nat} {supervisor : TenantSupervisor}
    (h : s.Keeps i supervisor) (supervisors : List TenantSupervisor) :
    Keeps { s with supervisors := supervisors } i supervisor :=
  ⟨h.window, h.counter, h.within, h.home, h.seen⟩

/-- A supervisor changes, and with it the guards or the records. -/
theorem Whole.set {s : Tenants} (h : s.Whole) {i : Nat} {supervisor supervisor' : TenantSupervisor}
    {guards : List Nat} {usage : List (String × MeterKind × Record)}
    (hi : s.supervisors[i]? = some supervisor) (hid : supervisor'.tenantId = supervisor.tenantId)
    (hguards : ∀ j ∈ guards, j = i ∨ j ∈ s.guards)
    (husage : ∀ u ∈ usage, (s.registry.tenants.get? u.1).isSome = true)
    (hself : Keeps { s with guards := guards, usage := usage } i supervisor')
    (hother : ∀ j other, j ≠ i → s.supervisors[j]? = some other →
      Keeps { s with guards := guards, usage := usage } j other) :
    Whole { s with
      supervisors := s.supervisors.set i supervisor', guards := guards, usage := usage } := by
  have hlt : i < s.supervisors.length := (List.getElem?_eq_some_iff.mp hi).1
  refine ⟨fun tenantId j hreg => ?_, fun j hj => ?_, husage,
    forall_getElem?_set (hself.other _) fun j other hne hj => (hother j other hne hj).other _⟩
  · by_cases hj : i = j
    · subst hj
      exact ⟨supervisor', List.getElem?_set_self hlt, by rw [hid, h.supervisor hi hreg]⟩
    · obtain ⟨other, hother', hid'⟩ := h.numbered tenantId j hreg
      exact ⟨other, by rw [List.getElem?_set_ne hj, hother'], hid'⟩
  · rw [List.length_set]
    rcases hguards j hj with hj | hj
    · omega
    · exact h.guards j hj

theorem Whole.checkQuota {s : Tenants} (h : s.Whole) (i : Nat) (check : QuotaCheck) :
    (s.act (.checkQuota i check)).Whole := by
  rw [act]
  split
  next supervisor hi =>
    have hkeeps := h.keeps i supervisor hi
    obtain ⟨hid, hquota, hactive⟩ := checkQuota_rest supervisor s.now check
    refine h.set hi hid (fun j hj => .inr hj) h.usage ⟨fun kind => ?_, ?_, ?_, ?_, ?_⟩
      fun j other _ hj => h.keeps j other hj
    · rcases meter_checkQuota supervisor s.now check kind with hm | hm
      · rw [hm, hkeeps.window]
      · rw [hm]
        exact hkeeps.window kind
    · rw [hactive]
      exact hkeeps.counter
    · rw [hactive, hquota]
      exact hkeeps.within
    · rw [hid]
      exact hkeeps.home
    · rw [hid]
      intro hreg kind
      have hseen := hkeeps.seen hreg kind
      rcases meter_checkQuota supervisor s.now check kind with hm | hm
      · rw [hm]
        exact hseen
      · rw [hm, SlidingWindowMeter.prune, hkeeps.window, within_within (Nat.le_refl _)]
        exact hseen
  next => exact h

/-- A reservation that is granted adds a guard to the registered supervisor. -/
theorem Whole.reserveSession {s : Tenants} (h : s.Whole) {i : Nat}
    (hok : s.OkNow (.reserveSession i)) : (s.act (.reserveSession i)).Whole := by
  rw [act]
  split
  next supervisor hi =>
    have hkeeps := h.keeps i supervisor hi
    by_cases hmax : supervisor.quota.maxConcurrentSessions.toNat < supervisor.activeSessions + 1
    · rw [TenantSupervisor.reserveSession, if_pos hmax]
      exact h.set hi rfl (fun j hj => .inr hj) h.usage hkeeps fun j other _ hj =>
        h.keeps j other hj
    · rw [TenantSupervisor.reserveSession, if_neg hmax]
      have hreg : s.registry.tenants.get? supervisor.tenantId = some i := by
        rcases hok supervisor hi with hreg | hfull
        · exact hreg
        · omega
      refine h.set hi rfl (fun j hj => ?_) h.usage
        ⟨hkeeps.window, ?_, ?_, fun _ => hreg, hkeeps.seen⟩ fun j other hne hj => ?_
      · rcases List.mem_append.mp hj with hj | hj
        · exact .inr hj
        · exact .inl (List.mem_singleton.mp hj)
      · show supervisor.activeSessions + 1 = (s.guards ++ [i]).count i
        rw [List.count_append, List.count_singleton_self, hkeeps.counter]
      · show supervisor.activeSessions + 1 ≤ supervisor.quota.maxConcurrentSessions.toNat
        omega
      · have hother := h.keeps j other hj
        refine ⟨hother.window, ?_, hother.within, fun hmem => ?_, hother.seen⟩
        · show other.activeSessions = (s.guards ++ [i]).count j
          rw [List.count_append, hother.counter, List.count_singleton,
            if_neg (by simpa using Ne.symm hne)]
          rfl
        · rcases List.mem_append.mp hmem with hmem | hmem
          · exact hother.home hmem
          · exact absurd (List.mem_singleton.mp hmem) hne
  next => exact h

theorem Whole.dropGuard {s : Tenants} (h : s.Whole) (place : Nat) :
    (s.act (.dropGuard place)).Whole := by
  rw [act]
  split
  next i hplace =>
    split
    next supervisor hi =>
      have hkeeps := h.keeps i supervisor hi
      obtain ⟨hlt, hget⟩ := List.getElem?_eq_some_iff.mp hplace
      have hperm : (i :: s.guards.eraseIdx place).Perm s.guards := by
        rw [← hget]
        exact List.getElem_cons_eraseIdx_perm hlt
      have hmem : ∀ j ∈ s.guards.eraseIdx place, j ∈ s.guards :=
        fun j hj => hperm.subset (List.mem_cons_of_mem _ hj)
      have hself := hperm.count_eq i
      rw [List.count_cons_self, ← hkeeps.counter] at hself
      have hwithin := hkeeps.within
      refine h.set hi rfl (fun j hj => .inr (hmem j hj)) h.usage
        ⟨hkeeps.window, ?_, ?_, fun hi' => hkeeps.home (hmem i hi'), hkeeps.seen⟩
        fun j other hne hj => ?_
      · show supervisor.activeSessions - 1 = (s.guards.eraseIdx place).count i
        omega
      · show supervisor.activeSessions - 1 ≤ supervisor.quota.maxConcurrentSessions.toNat
        omega
      · have hother := h.keeps j other hj
        refine ⟨hother.window, ?_, hother.within, fun hj' => hother.home (hmem j hj'),
          hother.seen⟩
        rw [hother.counter, ← hperm.count_eq j, List.count_cons_of_ne (Ne.symm hne)]
    next => exact h
  next => exact h

theorem usageOf_append (s : Tenants) (usage : List (String × MeterKind × Record))
    (tenantId : String) (kind : MeterKind) :
    usageOf { s with usage := s.usage ++ usage } tenantId kind = s.usageOf tenantId kind ++
      (usage.filter fun u => u.1 = tenantId ∧ u.2.1 = kind).map (·.2.2) := by
  rw [usageOf, usageOf, List.filter_append, List.map_append]

/-- A record with the registered supervisor is in its window and in its meter. -/
theorem Whole.record {s : Tenants} (h : s.Whole) {i : Nat} {usage : Usage}
    (hok : s.OkNow (.record i usage)) : (s.act (.record i usage)).Whole := by
  rw [act]
  split
  next supervisor hi =>
    have hkeeps := h.keeps i supervisor hi
    obtain ⟨hid, hquota, hactive⟩ := recordAny_rest supervisor s.now usage
    obtain ⟨hreg, hroom⟩ := hok supervisor hi
    refine h.set hi hid (fun j hj => .inr hj) (fun u hu => ?_)
      ⟨fun kind => ?_, ?_, ?_, ?_, fun _ kind => ?_⟩ fun j other hne hj => ?_
    · rcases List.mem_append.mp hu with hu | hu
      · exact h.usage u hu
      · rw [List.mem_singleton.mp hu, hreg]
        rfl
    · rw [meter_recordAny]
      split
      · exact hkeeps.window kind
      · exact hkeeps.window kind
    · rw [hactive]
      exact hkeeps.counter
    · rw [hactive, hquota]
      exact hkeeps.within
    · rw [hid]
      exact hkeeps.home
    · have hseen := hkeeps.seen hreg kind
      have hsplit : ∀ later, recent { s with usage :=
            s.usage ++ [(supervisor.tenantId, usage.kind, (s.now, usage.value))] }
            supervisor.tenantId kind later =
          s.recent supervisor.tenantId kind later ++ Tenant.within kind.window later
            (if kind = usage.kind then [(s.now, usage.value)] else []) := by
        intro later
        rw [recent, usageOf_append, within_append, recent]
        by_cases hkind : kind = usage.kind
        · simp [hkind]
        · simp [hkind, Ne.symm hkind]
      rw [hid, meter_recordAny]
      refine Eq.trans ?_ (hsplit s.now).symm
      by_cases hkind : kind = usage.kind
      · rw [if_pos hkind, if_pos hkind]
        have hpruned : ((supervisor.meter kind).prune s.now).entries =
            s.recent supervisor.tenantId kind s.now := by
          rw [SlidingWindowMeter.prune, hkeeps.window]
          exact hseen
        rw [entries_record_of_room usage.value (by rw [hpruned, hkind]; exact hroom), within_append,
          hpruned, recent, within_within (Nat.le_refl _)]
      · rw [if_neg hkind, if_neg hkind, hseen]
        exact (List.append_nil _).symm
    · have hother := h.keeps j other hj
      refine ⟨hother.window, hother.counter, hother.within, hother.home, fun hj' kind => ?_⟩
      have hne' : supervisor.tenantId ≠ other.tenantId := by
        intro heq
        rw [heq] at hreg
        exact hne (Option.some.inj (hj'.symm.trans hreg))
      rw [recent, usageOf_append, List.filter_cons_of_neg (by simp [hne']), List.filter_nil,
        List.map_nil, List.append_nil]
      exact hother.seen hj' kind
  next => exact h

/-- A supervisor that has just been made has nothing to account for. -/
theorem Whole.refresh {s : Tenants} (h : s.Whole) {ctx : TenantContext}
    (hidle : s.Idle ctx.tenantId) : (s.refresh ctx).Whole := by
  obtain ⟨hnone, hempty⟩ := hidle
  have hget : ∀ tenantId, (s.refresh ctx).registry.tenants.get? tenantId =
      if tenantId = ctx.tenantId then some s.supervisors.length
      else s.registry.tenants.get? tenantId := fun tenantId => Table.get?_upsert ..
  have hold : ∀ (i : Nat) (supervisor : TenantSupervisor),
      s.supervisors[i]? = some supervisor →
      (s.refresh ctx).Keeps i supervisor := by
    intro i supervisor hi
    have hlt : i < s.supervisors.length := (List.getElem?_eq_some_iff.mp hi).1
    have hkeeps := h.keeps i supervisor hi
    refine ⟨hkeeps.window, hkeeps.counter, hkeeps.within, fun hmem => ?_, fun hreg kind => ?_⟩
    · have hne : supervisor.tenantId ≠ ctx.tenantId := by
        intro heq
        rw [liveGuards, List.countP_eq_zero] at hnone
        exact hnone i hmem (by simp [hi, heq])
      rw [hget, if_neg hne]
      exact hkeeps.home hmem
    · rw [hget] at hreg
      by_cases heq : supervisor.tenantId = ctx.tenantId
      · rw [if_pos heq] at hreg
        injection hreg with hreg
        omega
      · rw [if_neg heq] at hreg
        exact hkeeps.seen hreg kind
  have hnew : (s.refresh ctx).supervisors[s.supervisors.length]? =
      some (.fromContext ctx s.now) := List.getElem?_concat_length
  have hlater : ∀ (i : Nat) (supervisor : TenantSupervisor),
      s.supervisors[i]? = some supervisor →
      (s.refresh ctx).supervisors[i]? = some supervisor := by
    intro i supervisor hi
    obtain ⟨hlt, -⟩ := List.getElem?_eq_some_iff.mp hi
    exact (List.getElem?_append_left hlt).trans hi
  refine ⟨fun tenantId i hreg => ?_, fun i hi => ?_, fun u hu => ?_, fun i supervisor hi => ?_⟩
  · rw [hget] at hreg
    by_cases heq : tenantId = ctx.tenantId
    · rw [if_pos heq] at hreg
      injection hreg with hreg
      subst hreg
      exact ⟨_, hnew, heq.symm⟩
    · rw [if_neg heq] at hreg
      obtain ⟨supervisor, hi, hid⟩ := h.numbered tenantId i hreg
      exact ⟨supervisor, hlater i supervisor hi, hid⟩
  · show i < (s.supervisors ++ [_]).length
    rw [List.length_append, List.length_singleton]
    exact Nat.lt_succ_of_lt (h.guards i hi)
  · rw [hget]
    split
    · rfl
    · exact h.usage u hu
  · rcases getElem?_push hi with hi | ⟨hi, hsup⟩
    · exact hold i supervisor hi
    · subst hi hsup
      have hfresh : s.supervisors.length ∉ s.guards :=
        fun hmem => Nat.lt_irrefl _ (h.guards _ hmem)
      refine ⟨fun kind => ?_, ?_, Nat.zero_le _, fun hmem => absurd hmem hfresh, fun _ kind => ?_⟩
      · rw [meter_fromContext]
        rfl
      · exact (List.count_eq_zero.mpr hfresh).symm
      · rw [meter_fromContext]
        exact (hempty kind).symm

/-- A tenant without a supervisor has never done anything. -/
theorem Whole.idle {s : Tenants} (h : s.Whole) {tenantId : String}
    (hnone : s.registered tenantId = none) : s.Idle tenantId := by
  have hget : s.registry.tenants.get? tenantId = none := by
    rcases hreg : s.registry.tenants.get? tenantId with _ | i
    · rfl
    · obtain ⟨supervisor, hi, _⟩ := h.numbered tenantId i hreg
      have hsome := registered_eq_some.mpr ⟨i, hreg, hi⟩
      rw [hnone] at hsome
      cases hsome
  constructor
  · rw [liveGuards, List.countP_eq_zero]
    intro i hi htenant
    obtain ⟨supervisor, hsup, hid⟩ := Option.map_eq_some_iff.mp (of_decide_eq_true htenant)
    have hhome := (h.keeps i supervisor hsup).home hi
    rw [hid, hget] at hhome
    cases hhome
  · intro kind
    have husage : s.usageOf tenantId kind = [] := by
      rw [usageOf, List.map_eq_nil_iff, List.filter_eq_nil_iff]
      intro u hu htenant
      have hsome := h.usage u hu
      rw [(of_decide_eq_true htenant).1, hget] at hsome
      cases hsome
    rw [recent, husage]
    rfl

theorem Whole.act {s : Tenants} (h : s.Whole) {op : RegistryOp} (hok : s.OkNow op) :
    (s.act op).Whole := by
  cases op with
  | resolveOrInsert ctx =>
      rw [Tenants.act]
      split
      next existing hreg =>
        by_cases hstale : existing.isStale s.registry.cacheTtl s.now = true
        · rw [if_pos hstale]
          simp only [OkNow, hreg] at hok
          exact h.refresh (hok hstale)
        · rw [if_neg hstale]
          exact h
      next hnone => exact h.refresh (h.idle hnone)
  | refresh ctx => exact h.refresh hok
  | reserveSession i => exact h.reserveSession hok
  | dropGuard place => exact h.dropGuard place
  | record i usage => exact h.record hok
  | checkQuota i check => exact h.checkQuota i check

theorem Whole.step {s : Tenants} {e : Nat × RegistryOp} (hok : s.Ok e) (h : s.Whole) :
    (s.step e).Whole := (h.wait e.1).act hok

theorem whole_start (cacheTtl : Nat) : (start cacheTtl).Whole :=
  ⟨nofun, nofun, nofun, nofun⟩

/-- Over any operations at any times, the registered supervisors account for
their tenants as long as every operation leaves nothing behind. -/
theorem accounted_of_along_ok {cacheTtl : Nat} {es : List (Nat × RegistryOp)}
    (hok : Along step Ok (start cacheTtl) es) : (es.foldl step (start cacheTtl)).Accounted :=
  (hok.invariant (fun _ _ hok h => h.step hok) (whole_start cacheTtl)).accounted

/-- A supervisor is used, left alone for more than a day, and replaced. -/
theorem accounted_replaced :
    ([(0, .resolveOrInsert oneSession), (0, .reserveSession 0), (0, .record 0 (.tokens 900)),
        (0, .dropGuard 0), (90000 * second, .resolveOrInsert oneSession),
        (0, .reserveSession 1)].foldl step (start (300 * second))).Accounted := by
  refine accounted_of_along_ok ⟨trivial, ?_, ?_, trivial, ?_, ?_, trivial⟩
  · intro supervisor h
    injection h with h
    subst h
    exact .inl (by decide)
  · intro supervisor h
    injection h with h
    subst h
    exact ⟨by decide, by decide⟩
  · intro _
    exact ⟨by decide, fun kind => by cases kind <;> decide⟩
  · intro supervisor h
    injection h with h
    subst h
    exact .inl (by decide)

/-- A tenant that may have one session and a thousand tokens a day, has a
session and has used 900 tokens. -/
def beforeTtl : List (Nat × RegistryOp) :=
  [(0, .resolveOrInsert oneSession), (0, .reserveSession 0), (0, .record 0 (.tokens 900))]

/-- Five minutes later it has another supervisor. -/
def afterTtl : List (Nat × RegistryOp) :=
  beforeTtl ++ [(301 * second, .resolveOrInsert oneSession), (0, .reserveSession 1)]

/-- It has two sessions, and nothing of the 900 tokens is left. -/
theorem not_accounted_afterTtl :
    (afterTtl.foldl step (start (300 * second))).liveGuards "acme" = 2 ∧
      (((afterTtl.foldl step (start (300 * second))).registered "acme").map fun s =>
        (s.quota.maxConcurrentSessions, (s.checkQuota (301 * second) (.tokenUsage 900 0)).1)) =
        some (1, .ok ()) ∧
      (afterTtl.foldl step (start (300 * second))).recent "acme" .token (301 * second) =
        [(0, 900)] ∧
      ¬ (afterTtl.foldl step (start (300 * second))).Accounted := by
  refine ⟨by decide, by rfl, by rfl, fun h => ?_⟩
  have hguards := h.guards "acme" _ rfl
  exact absurd hguards (by decide)

end Tenants

end Pandaria.Tenant
