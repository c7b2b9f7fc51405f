import Pandaria.Lib.Run
import Pandaria.Lib.Threads
import Pandaria.Tenant.Supervisor

/-!
# Slots and guards

A reservation counts itself first and looks afterwards, so the counter is the
number of live guards and of the reservations that are about to take back what
they have added. That settles everything but the refusals: a guard is only
handed out while the counter is within the limit, and whoever subtracts has
been counted.

A refusal is another matter. What the counter shows beyond the live guards is
no slot in use, and a reservation that finds it at the limit is refused all the
same. So a refusal is justified where no such excess is what fills it up.
-/

namespace Pandaria.Tenant

open Pandaria.Lib

namespace Task

/-- The slot of a guard is given back once, and not before. -/
def Once : Task → Prop
  | .guard false releases => releases = 0
  | .guard true releases | .gone releases => releases = 1
  | .zeroing .. => False
  | .called _ | .beyond _ | .refused _ => True

/-- A call in progress has seen the moment at which all guards were live. -/
def HasSeen : Task → Prop
  | .called full | .beyond full => full = true
  | _ => True

/-- A refusal, or a reservation on its way to one, has seen that moment. -/
def Refusable : Task → Prop
  | .beyond full | .refused full => full = true
  | _ => True

/-- How much of the counter is a task's. -/
def share (t : Task) : Nat := (if t.isLive then 1 else 0) + (if t.isBeyond then 1 else 0)

theorem isLive_sawFull (t : Task) : t.sawFull.isLive = t.isLive := by cases t <;> rfl

theorem isBeyond_sawFull (t : Task) : t.sawFull.isBeyond = t.isBeyond := by cases t <;> rfl

theorem hasSeen_sawFull (t : Task) : t.sawFull.HasSeen := by
  cases t with
  | called | beyond => rfl
  | _ => trivial

theorem once_sawFull {t : Task} (h : t.Once) : t.sawFull.Once := by
  cases t with
  | called | beyond => trivial
  | _ => exact h

theorem refusable_sawFull {t : Task} (h : t.Refusable) : t.sawFull.Refusable := by
  cases t with
  | beyond => rfl
  | called => trivial
  | _ => exact h

end Task

namespace Reservations

/-- What the counter holds, after any number of atomic operations. -/
structure Counted (s : Reservations) : Prop where
  counter : s.activeSessions = s.live + s.beyond
  within : s.live ≤ s.maxConcurrentSessions
  once : ∀ t ∈ s.tasks, t.Once

/-- What holds after any atomic operation, whatever the order. -/
structure Sound (s : Reservations) : Prop where
  within : s.live ≤ s.maxConcurrentSessions
  settled : (∀ t ∈ s.tasks, t.inProgress = false) → s.activeSessions = s.live
  /-- Nobody who is going to subtract finds a zero. -/
  positive : ∀ t ∈ s.tasks, t.isLive = true ∨ t.isBeyond = true → 0 < s.activeSessions
  once : ∀ t ∈ s.tasks, t.Once

/-- Every refused call has seen the moment at which all guards were live. -/
def Justified (s : Reservations) : Prop := ∀ t ∈ s.tasks, t.Refusable

/-- A reservation counts itself while there is room in the counter, or while
no other is about to take back what it has added, or after all guards have been
live during its call. -/
def Ok (s : Reservations) : ReservationEvent → Prop
  | .step i =>
      match s.tasks[i]? with
      | some (.called full) =>
          s.activeSessions < s.maxConcurrentSessions ∨ s.beyond = 0 ∨ full = true
      | _ => True
  | .call | .release _ | .drop _ => True

theorem Counted.sound {s : Reservations} (h : s.Counted) : s.Sound := by
  have hcounter := h.counter
  refine ⟨h.within, fun hidle => ?_, fun t ht hcounts => ?_, h.once⟩
  · have hbeyond : s.beyond = 0 := by
      rw [beyond, List.countP_eq_zero]
      intro t ht ho
      have hprogress := hidle t ht
      cases t with
      | beyond => cases hprogress
      | _ => cases ho
    omega
  · rcases hcounts with hl | ho
    · have hpos : 0 < s.live := List.countP_pos_iff.mpr ⟨t, ht, hl⟩
      omega
    · have hpos : 0 < s.beyond := List.countP_pos_iff.mpr ⟨t, ht, ho⟩
      omega

/-! ## The moment all guards are live -/

theorem witness_live (s : Reservations) : s.witness.live = s.live := by
  rw [witness]
  split
  · rw [live, List.countP_map]
    exact List.countP_congr fun t _ => by rw [Function.comp_apply, Task.isLive_sawFull]
  · rfl

theorem witness_beyond (s : Reservations) : s.witness.beyond = s.beyond := by
  rw [witness]
  split
  · rw [beyond, List.countP_map]
    exact List.countP_congr fun t _ => by rw [Function.comp_apply, Task.isBeyond_sawFull]
  · rfl

theorem witness_max (s : Reservations) :
    s.witness.maxConcurrentSessions = s.maxConcurrentSessions := by
  rw [witness]
  split <;> rfl

theorem witness_active (s : Reservations) : s.witness.activeSessions = s.activeSessions := by
  rw [witness]
  split <;> rfl

/-- What a task does not lose by seeing all guards live, no task loses. -/
theorem forall_mem_witness {s : Reservations} {P : Task → Prop} (h : ∀ t ∈ s.tasks, P t)
    (hsaw : ∀ t, P t → P t.sawFull) : ∀ t ∈ s.witness.tasks, P t := by
  rw [witness]
  split
  · intro t ht
    obtain ⟨t', ht', rfl⟩ := List.mem_map.mp ht
    exact hsaw t' (h t' ht')
  · exact h

theorem Counted.witness {s : Reservations} (h : s.Counted) : s.witness.Counted := by
  refine ⟨?_, ?_, forall_mem_witness h.once fun _ => Task.once_sawFull⟩
  · rw [witness_active, witness_live, witness_beyond]
    exact h.counter
  · rw [witness_max, witness_live]
    exact h.within

/-- While all guards are live, no call in progress has missed it. -/
theorem hasSeen_witness (s : Reservations)
    (hfull : s.witness.maxConcurrentSessions ≤ s.witness.live) :
    ∀ t ∈ s.witness.tasks, t.HasSeen := by
  rw [witness_max, witness_live] at hfull
  rw [witness, if_pos hfull]
  intro t ht
  obtain ⟨t', _, rfl⟩ := List.mem_map.mp ht
  exact Task.hasSeen_sawFull t'

/-! ## One atomic operation -/

theorem fetchSub_add_one {n : Nat} (h : n ≠ 0) : fetchSub n + 1 = n := by
  rw [fetchSub, if_neg h]
  omega

/-- A task moves on, and the counter with it by what the task's share of it
changes. -/
theorem Counted.move {s : Reservations} (h : s.Counted) {i n : Nat} {a b : Task}
    (hi : s.tasks[i]? = some a) (hn : n + a.share = s.activeSessions + b.share)
    (hroom : b.isLive = true → s.live < s.maxConcurrentSessions) (hb : b.Once) :
    Counted { s with activeSessions := n, tasks := s.tasks.set i b } := by
  have hlive := countP_set_add hi b Task.isLive
  have hbeyond := countP_set_add hi b Task.isBeyond
  have hcounter := h.counter
  have hwithin := h.within
  rw [Task.share, Task.share] at hn
  rw [live, beyond] at hcounter
  rw [live] at hwithin hroom
  refine ⟨?_, ?_, forall_mem_set h.once hb i⟩
  · simp only [live, beyond]
    omega
  · simp only [live]
    by_cases hbl : b.isLive = true
    · have hlt := hroom hbl
      rw [if_pos hbl] at hlive
      omega
    · rw [if_neg hbl] at hlive
      omega

/-- Whoever has a share in the counter finds it above zero. -/
theorem Counted.positive {s : Reservations} (h : s.Counted) {i : Nat} {t : Task}
    (hi : s.tasks[i]? = some t) (ht : t.isLive = true ∨ t.isBeyond = true) :
    s.activeSessions ≠ 0 :=
  Nat.pos_iff_ne_zero.mp (h.sound.positive t (List.mem_of_getElem? hi) ht)

/-- A guard gives its slot back, by `release` or by `drop`. -/
theorem Counted.releaseSession {s : Reservations} (h : s.Counted) {i releases : Nat}
    (hi : s.tasks[i]? = some (.guard false releases)) (dropped : Bool) :
    (s.releaseSession i dropped releases).Counted := by
  have hactive : s.activeSessions ≠ 0 := h.positive hi (.inl rfl)
  have honce : releases = 0 := h.once _ (List.mem_of_getElem? hi)
  have hsub : fetchSub s.activeSessions + 1 = s.activeSessions := fetchSub_add_one hactive
  rw [Reservations.releaseSession, if_neg hactive, honce]
  cases dropped with
  | false => exact h.move hi hsub nofun rfl
  | true => exact h.move hi hsub nofun rfl

theorem Counted.act {s : Reservations} (h : s.Counted) (e : ReservationEvent) :
    (s.act e).Counted := by
  cases e with
  | call =>
      have hlive : (s.act .call).live = s.live := countP_push_of_not s.tasks rfl
      have hbeyond : (s.act .call).beyond = s.beyond := countP_push_of_not s.tasks rfl
      refine ⟨?_, ?_, forall_mem_push h.once trivial⟩
      · rw [hlive, hbeyond]
        exact h.counter
      · rw [hlive]
        exact h.within
  | step i =>
      rw [Reservations.act]
      split
      next full hi =>
        by_cases hmax : s.maxConcurrentSessions < s.activeSessions + 1
        · rw [if_pos hmax]
          exact h.move hi rfl nofun trivial
        · have hcounter := h.counter
          rw [if_neg hmax]
          exact h.move hi rfl (fun _ => by omega) rfl
      next full hi =>
        exact h.move hi (fetchSub_add_one (h.positive hi (.inr rfl))) nofun trivial
      next dropped releases hi => exact absurd (h.once _ (List.mem_of_getElem? hi)) id
      next => exact h
  | release i =>
      rw [Reservations.act]
      split
      next releases hi => exact h.releaseSession hi false
      next => exact h
  | drop i =>
      rw [Reservations.act]
      split
      next releases hi => exact h.releaseSession hi true
      next releases hi =>
        have honce : releases = 1 := h.once _ (List.mem_of_getElem? hi)
        exact h.move hi rfl nofun honce
      next => exact h

theorem Counted.step {s : Reservations} (h : s.Counted) (e : ReservationEvent) :
    (s.step e).Counted :=
  (h.act e).witness

theorem counted_start (ctx : TenantContext) (now : Nat) : (start ctx now).Counted :=
  ⟨rfl, Nat.zero_le _, nofun⟩

/-! ## Refusals -/

/-- What is needed for the refusals. -/
structure Watched (s : Reservations) : Prop where
  counted : s.Counted
  seen : s.maxConcurrentSessions ≤ s.live → ∀ t ∈ s.tasks, t.HasSeen
  justified : s.Justified

/-- A reservation that goes beyond the limit has seen all guards live. -/
theorem Watched.called {s : Reservations} (h : s.Watched) {i : Nat} {full : Bool}
    (hi : s.tasks[i]? = some (.called full)) (hok : s.Ok (.step i))
    (hmax : s.maxConcurrentSessions < s.activeSessions + 1) : full = true := by
  simp only [Ok, hi] at hok
  rcases hok with hroom | hbeyond | hfull
  · omega
  · have hcounter := h.counted.counter
    exact h.seen (by omega) _ (List.mem_of_getElem? hi)
  · exact hfull

theorem Watched.act {s : Reservations} (h : s.Watched) {e : ReservationEvent} (hok : s.Ok e) :
    (s.act e).Justified := by
  have hset : ∀ (i n : Nat) (t : Task), t.Refusable →
      Justified { s with activeSessions := n, tasks := s.tasks.set i t } :=
    fun i _ _ ht => forall_mem_set h.justified ht i
  cases e with
  | call => exact forall_mem_push h.justified trivial
  | step i =>
      rw [Reservations.act]
      split
      next full hi =>
        by_cases hmax : s.maxConcurrentSessions < s.activeSessions + 1
        · rw [if_pos hmax]
          exact hset _ _ _ (h.called hi hok hmax)
        · rw [if_neg hmax]
          exact hset _ _ _ trivial
      next full hi =>
        have hfull : full = true := h.justified _ (List.mem_of_getElem? hi)
        exact hset _ _ (.refused full) hfull
      next => exact hset _ _ _ (by split <;> trivial)
      next => exact h.justified
  | release i =>
      rw [Reservations.act]
      split
      next => exact hset _ _ _ (by split <;> trivial)
      next => exact h.justified
  | drop i =>
      rw [Reservations.act]
      split
      next => exact hset _ _ _ (by split <;> trivial)
      next => exact hset _ _ _ trivial
      next => exact h.justified

theorem Watched.step {s : Reservations} {e : ReservationEvent} (hok : s.Ok e) (h : s.Watched) :
    (s.step e).Watched :=
  ⟨h.counted.step e, hasSeen_witness (s.act e),
    forall_mem_witness (h.act hok) fun _ => Task.refusable_sawFull⟩

theorem watched_start (ctx : TenantContext) (now : Nat) : (start ctx now).Watched :=
  ⟨counted_start ctx now, fun _ => nofun, nofun⟩

/-- The limit is the one in the tenant's context all along. -/
theorem max_run (ctx : TenantContext) (now : Nat) (es : List ReservationEvent) :
    (es.foldl step (start ctx now)).maxConcurrentSessions =
      ctx.quotas.maxConcurrentSessions.toNat := by
  have hstep : ∀ (s : Reservations) (e : ReservationEvent),
      s.maxConcurrentSessions = ctx.quotas.maxConcurrentSessions.toNat →
      (s.step e).maxConcurrentSessions = ctx.quotas.maxConcurrentSessions.toNat := by
    intro s e h
    rw [step, witness_max, ← h]
    cases e with
    | call => rfl
    | step i =>
        rw [act]
        split <;> rfl
    | release i =>
        rw [act]
        split <;> rfl
    | drop i =>
        rw [act]
        split <;> rfl
  exact foldl_invariant hstep rfl es

/-- Over any interleaving the guards stay within the limit, the counter counts
them and each gives its slot back once; and no call is refused that has not
seen all guards live, as long as none is kept out by what another is about to
take back. -/
theorem sound_and_justified (ctx : TenantContext) (now : Nat) (es : List ReservationEvent) :
    (es.foldl step (start ctx now)).live ≤ ctx.quotas.maxConcurrentSessions.toNat ∧
      (es.foldl step (start ctx now)).Sound ∧
      (Along step Ok (start ctx now) es → (es.foldl step (start ctx now)).Justified) := by
  have hcounted : (es.foldl step (start ctx now)).Counted :=
    foldl_invariant (fun _ e h => h.step e) (counted_start ctx now) es
  refine ⟨?_, hcounted.sound, fun hok => ?_⟩
  · rw [← max_run ctx now es]
    exact hcounted.within
  · have hwatched : (es.foldl step (start ctx now)).Watched :=
      hok.invariant (fun _ _ hok h => h.step hok) (watched_start ctx now)
    exact hwatched.justified

/-- A tenant with a single session. -/
def oneSession : TenantContext := { tenantId := "acme", quotas := ⟨1, 1000, 60, 3600000⟩ }

/-- One call gets the session and a second is refused. -/
theorem sound_and_justified_full :
    (([.call, .step 0, .call, .step 1, .step 1].foldl step (start oneSession 0)).tasks =
        [.guard false 0, .refused true]) ∧
      ([.call, .step 0, .call, .step 1, .step 1].foldl step (start oneSession 0)).Justified :=
  ⟨rfl, (sound_and_justified oneSession 0 [.call, .step 0, .call, .step 1, .step 1]).2.2
    ⟨trivial, .inl (by decide), trivial, .inr (.inr rfl), trivial, trivial⟩⟩

/-- A call that is going to be refused has added itself to the counter, the
only guard is dropped, and a third call is refused with no guard live from its
beginning to its end. -/
theorem not_justified_excess :
    ([.call, .step 0, .call, .step 1, .drop 0, .call, .step 2, .step 2].foldl step
        (start oneSession 0)).tasks = [.gone 1, .beyond true, .refused false] ∧
      ¬ ([.call, .step 0, .call, .step 1, .drop 0, .call, .step 2, .step 2].foldl step
        (start oneSession 0)).Justified := by
  refine ⟨rfl, fun h => ?_⟩
  have hfull : false = true := h (.refused false) (by decide)
  cases hfull

/-! ## One call at a time -/

/-- A call with nobody else at it is the method of the supervisor: the same
counter is left behind, and it is refused when that one is. -/
theorem reserveSession_alone (s : TenantSupervisor) (tasks : List Task) :
    let before : Reservations :=
      { maxConcurrentSessions := s.quota.maxConcurrentSessions.toNat
        activeSessions := s.activeSessions
        tasks := tasks }
    let after := [.call, .step tasks.length, .step tasks.length].foldl act before
    after.activeSessions = s.reserveSession.2.activeSessions ∧
      after.tasks[tasks.length]? =
        some (if s.reserveSession.1.isOk then .guard false 0 else .refused false) := by
  have hset : ∀ t t' : Task, (tasks ++ [t]).set tasks.length t' = tasks ++ [t'] :=
    fun t t' => by simp
  by_cases hmax : s.quota.maxConcurrentSessions.toNat < s.activeSessions + 1
  · simp [act, TenantSupervisor.reserveSession, hset, hmax, fetchSub, Except.isOk,
      Except.toBool]
  · simp [act, TenantSupervisor.reserveSession, hset, hmax, Except.isOk, Except.toBool]

end Reservations

end Pandaria.Tenant
