import Pandaria.Lib.Run
import Pandaria.Tenant.Supervisor

/-!
# What a meter remembers

Beside the meter stands everything that was ever recorded. Pruning drops what
has left the window, and that never changes an answer; the truncation drops
entries that are still in it. So the meter is exact as long as no record finds
the window full, with `maxEntries` in it, and from the moment one does it is
not: the entries it has just dropped are missing from the very next answer.

The sums are another matter. They are added up in `u64` from values the caller
chooses, so they are exact as long as the true total fits.
-/

namespace Pandaria.Tenant

open Pandaria.Lib

/-! ## Windows -/

section Windows

variable {window now later : Nat}

/-- What has left the window does not come back. -/
theorem within_within (h : now ≤ later) (records : List Record) :
    within window later (within window now records) = within window later records := by
  rw [within, within, within, List.filter_filter]
  refine List.filter_congr fun r _ => ?_
  have himp : later - r.1 < window → now - r.1 < window := by omega
  simpa using himp

theorem within_append (xs ys : List Record) :
    within window now (xs ++ ys) = within window now xs ++ within window now ys :=
  List.filter_append xs ys

/-- A record that has just been made is in the window, unless that is empty. -/
theorem within_single (h : 0 < window) (value : UInt64) :
    within window now [(now, value)] = [(now, value)] := by
  rw [within, List.filter_eq_self]
  intro r hr
  rw [List.mem_singleton.mp hr, Nat.sub_self]
  exact decide_eq_true h

theorem within_zero (records : List Record) : within 0 now records = [] := by
  rw [within, List.filter_eq_nil_iff]
  simp

theorem length_within_le (records : List Record) :
    (within window now records).length ≤ records.length :=
  List.length_filter_le _ _

theorem total_append (xs ys : List Record) : total (xs ++ ys) = total xs + total ys := by
  rw [total, List.map_append, List.sum_append]
  rfl

theorem total_cons (r : Record) (records : List Record) :
    total (r :: records) = r.2.toNat + total records := List.sum_cons

theorem total_within_le (records : List Record) :
    total (within window now records) ≤ total records := by
  induction records with
  | nil => exact Nat.le_refl 0
  | cons r records ih =>
      rw [within, List.filter_cons]
      split
      · rw [total_cons, total_cons]
        exact Nat.add_le_add_left ih _
      · rw [total_cons]
        exact Nat.le_trans ih (Nat.le_add_left _ _)

/-- The sum in `u64` is the true one, as far as that goes. -/
theorem toNat_sum (records : List Record) :
    (records.map Prod.snd).sum.toNat = total records % 2 ^ 64 := by
  induction records with
  | nil => rfl
  | cons r records ih =>
      rw [List.map_cons, List.sum_cons, UInt64.toNat_add, ih, total_cons]
      omega

/-- A record that finds room goes behind what is in the window. -/
theorem entries_record_of_room {m : SlidingWindowMeter} (value : UInt64)
    (h : (m.prune now).entries.length < SlidingWindowMeter.maxEntries) :
    (m.record now value).entries = (m.prune now).entries ++ [(now, value)] := by
  rw [SlidingWindowMeter.record, if_neg]
  rw [List.length_append, List.length_singleton]
  omega

end Windows

/-! ## A meter and what was recorded -/

/-- A supervisor's meter of tokens, with everything that was recorded, the time
of the last call, and the total of the last check beside what it should have
been. The code keeps only the meter. -/
structure Metered where
  supervisor : TenantSupervisor
  log : List Record
  now : Nat
  checked : Option (UInt64 × Nat)

inductive MeterOp where
  | record (value : UInt64)
  | sum
  | count
  | check (input output : UInt64)

namespace Metered

/-- Nothing has been recorded in this window yet. -/
def start (s : TenantSupervisor) (window : Nat) : Metered :=
  { supervisor := { s with tokenMeter := .new window }
    log := []
    now := 0
    checked := none }

def meter (s : Metered) : SlidingWindowMeter := s.supervisor.tokenMeter

/-- The records of the last window. -/
def recent (s : Metered) (now : Nat) : List Record := within s.meter.window now s.log

/-- A call, some time after the last one. -/
def step (s : Metered) : Nat × MeterOp → Metered
  | (wait, op) =>
      let now := s.now + wait
      match op with
      | .record value =>
          { s with
            supervisor := s.supervisor.recordUsage now value
            log := s.log ++ [(now, value)]
            now := now }
      | .sum =>
          { s with
            supervisor := { s.supervisor with tokenMeter := (s.meter.sum now).2 }
            now := now }
      | .count =>
          { s with
            supervisor := { s.supervisor with tokenMeter := (s.meter.count now).2 }
            now := now }
      | .check input output =>
          { s with
            supervisor := (s.supervisor.checkQuota now (.tokenUsage input output)).2
            now := now
            checked := some (s.supervisor.tokenTotal now input output,
              total (s.recent now) + input.toNat + output.toNat) }

/-- From now on the answers are the right ones: the sum, the number, the total
of a check, and the refusal of what goes beyond the quota. -/
structure Exact (s : Metered) : Prop where
  sum : ∀ later, s.now ≤ later → (s.meter.sum later).1.toNat = total (s.recent later)
  count : ∀ later, s.now ≤ later → (s.meter.count later).1 = (s.recent later).length
  checked : ∀ computed actual, s.checked = some (computed, actual) → computed.toNat = actual
  usedUp : ∀ later input output, s.now ≤ later →
    s.supervisor.quota.maxTokensPerDay.toNat <
      total (s.recent later) + input.toNat + output.toNat →
    total (s.recent later) + input.toNat + output.toNat < 2 ^ 64 →
    (s.supervisor.checkQuota later (.tokenUsage input output)).1 ≠ .ok ()

/-- A call the meter stays exact over: a record finds room in the window, and
no total reaches the width of `u64`. -/
def Fits (s : Metered) : Nat × MeterOp → Prop
  | (wait, .record value) =>
      (s.recent (s.now + wait)).length < SlidingWindowMeter.maxEntries ∧
        total (s.recent (s.now + wait)) + value.toNat < 2 ^ 64
  | (wait, .check input output) =>
      total (s.recent (s.now + wait)) + input.toNat + output.toNat < 2 ^ 64
  | (_, .sum) | (_, .count) => True

/-! ## What makes it exact -/

/-- The entries are records, in their order. -/
def Shape (s : Metered) : Prop := s.meter.entries.Sublist s.log

theorem shape_step {s : Metered} (h : s.Shape) (e : Nat × MeterOp) : (s.step e).Shape := by
  obtain ⟨wait, op⟩ := e
  have hpruned : ∀ now, (s.meter.prune now).entries.Sublist s.log :=
    fun now => List.filter_sublist.trans h
  cases op with
  | record value =>
      have hpush := (hpruned (s.now + wait)).append_right [(s.now + wait, value)]
      simp only [Shape, step, meter, TenantSupervisor.recordUsage, SlidingWindowMeter.record]
      split
      · exact (List.drop_sublist _ _).trans hpush
      · exact hpush
  | sum => exact hpruned _
  | count => exact hpruned _
  | check input output =>
      simp only [Shape, step, TenantSupervisor.checkQuota, meter]
      split
      · exact hpruned _
      · exact hpruned _

/-- Nothing inside the window has been dropped, and its total fits. -/
structure Held (s : Metered) : Prop where
  entries : within s.meter.window s.now s.meter.entries = s.recent s.now
  small : total (s.recent s.now) < 2 ^ 64
  checked : ∀ computed actual, s.checked = some (computed, actual) → computed.toNat = actual

theorem Held.later {s : Metered} (h : s.Held) {later : Nat} (hle : s.now ≤ later) :
    within s.meter.window later s.meter.entries = s.recent later := by
  rw [← within_within hle, h.entries, recent, within_within hle, recent]

theorem Held.small_later {s : Metered} (h : s.Held) {later : Nat} (hle : s.now ≤ later) :
    total (s.recent later) < 2 ^ 64 := by
  have hmono := @total_within_le s.meter.window later (s.recent s.now)
  rw [recent, within_within hle] at hmono
  exact Nat.lt_of_le_of_lt hmono h.small

theorem Held.exact {s : Metered} (h : s.Held) : s.Exact := by
  have hsum : ∀ later, s.now ≤ later →
      (s.meter.sum later).1.toNat = total (s.recent later) := by
    intro later hle
    rw [SlidingWindowMeter.sum, toNat_sum, SlidingWindowMeter.prune, h.later hle]
    exact Nat.mod_eq_of_lt (h.small_later hle)
  refine ⟨hsum, fun later hle => ?_, h.checked, fun later input output hle hover hfits hok => ?_⟩
  · rw [SlidingWindowMeter.count, SlidingWindowMeter.prune, h.later hle]
  · have htotal : (s.supervisor.tokenTotal later input output).toNat =
        total (s.recent later) + input.toNat + output.toNat := by
      have hs : (s.supervisor.tokenMeter.sum later).1.toNat = _ := hsum later hle
      rw [TenantSupervisor.tokenTotal, UInt64.toNat_add, UInt64.toNat_add, hs]
      omega
    have hlt : s.supervisor.quota.maxTokensPerDay <
        s.supervisor.tokenTotal later input output := by
      rw [UInt64.lt_iff_toNat_lt, htotal]
      exact hover
    simp only [TenantSupervisor.checkQuota, if_pos hlt] at hok
    cases hok

theorem Exact.held {s : Metered} (hshape : s.Shape) (h : s.Exact) : s.Held := by
  have hcount := h.count s.now (Nat.le_refl _)
  have hentries : within s.meter.window s.now s.meter.entries = s.recent s.now :=
    (hshape.filter _).eq_of_length hcount
  refine ⟨hentries, ?_, h.checked⟩
  have hsum := h.sum s.now (Nat.le_refl _)
  rw [← hsum]
  exact UInt64.toNat_lt _

/-! ## One call -/

/-- A call that drops what has left the window changes nothing that is seen. -/
theorem Held.prune {s s' : Metered} {wait : Nat} (h : s.Held)
    (hmeter : s'.meter = s.meter.prune (s.now + wait)) (hlog : s'.log = s.log)
    (hnow : s'.now = s.now + wait) :
    within s'.meter.window s'.now s'.meter.entries = s'.recent s'.now ∧
      s'.recent s'.now = s.recent (s.now + wait) := by
  have hle : s.now ≤ s.now + wait := Nat.le_add_right _ _
  have hrecent : s'.recent s'.now = s.recent (s.now + wait) := by
    rw [recent, hmeter, hlog, hnow]
    rfl
  refine ⟨?_, hrecent⟩
  rw [hrecent, hmeter, hnow, ← h.later hle]
  exact within_within (Nat.le_refl _) _

theorem held_record {s : Metered} {wait : Nat} {value : UInt64} (h : s.Held) :
    (s.step (wait, .record value)).Held ↔ s.Fits (wait, .record value) := by
  have hle : s.now ≤ s.now + wait := Nat.le_add_right _ _
  have hpruned : (s.meter.prune (s.now + wait)).entries = s.recent (s.now + wait) := h.later hle
  have hwindow : (s.step (wait, .record value)).meter.window = s.meter.window := rfl
  have hrecent : (s.step (wait, .record value)).recent (s.now + wait) =
      s.recent (s.now + wait) ++ within s.meter.window (s.now + wait) [(s.now + wait, value)] :=
    within_append _ _
  have htotal : total ((s.step (wait, .record value)).recent (s.now + wait)) < 2 ^ 64 ↔
      total (s.recent (s.now + wait)) + value.toNat < 2 ^ 64 := by
    rw [hrecent, total_append]
    rcases Nat.eq_zero_or_pos s.meter.window with hw | hw
    · rw [recent, hw, within_zero, within_zero]
      refine iff_of_true (by decide) ?_
      rw [total, List.map_nil, List.sum_nil, Nat.zero_add]
      exact value.toNat_lt
    · rw [within_single hw, total_cons]
      exact Iff.rfl
  by_cases hroom : (s.recent (s.now + wait)).length < SlidingWindowMeter.maxEntries
  · have hentries : (s.step (wait, .record value)).meter.entries =
        s.recent (s.now + wait) ++ [(s.now + wait, value)] := by
      rw [← hpruned] at hroom ⊢
      exact entries_record_of_room value hroom
    constructor
    · intro h'
      exact ⟨hroom, htotal.mp h'.small⟩
    · intro hfits
      refine ⟨?_, htotal.mpr hfits.2, h.checked⟩
      rw [hentries, hwindow]
      show within s.meter.window (s.now + wait) _ =
        (s.step (wait, .record value)).recent (s.now + wait)
      rw [hrecent, within_append, recent, within_within (Nat.le_refl _)]
  · -- The window is full, so the older half of it is dropped.
    refine iff_of_false (fun h' => ?_) fun hfits => hroom hfits.1
    have hentries : (s.step (wait, .record value)).meter.entries =
        (s.recent (s.now + wait) ++ [(s.now + wait, value)]).drop
          (((s.recent (s.now + wait)).length + 1) / 2) := by
      simp only [step, meter, TenantSupervisor.recordUsage, SlidingWindowMeter.record]
      rw [show s.supervisor.tokenMeter = s.meter from rfl, hpruned, if_pos]
      · rw [List.length_append, List.length_singleton]
      · rw [List.length_append, List.length_singleton]
        omega
    have hpos : 0 < s.meter.window := by
      by_contra hw
      rw [recent, show s.meter.window = 0 by omega, within_zero] at hroom
      exact hroom (by decide)
    have hlen := congrArg List.length h'.entries
    have hkept := @length_within_le s.meter.window (s.now + wait)
      (s.step (wait, .record value)).meter.entries
    rw [show (s.step (wait, .record value)).now = s.now + wait from rfl, hwindow, hrecent,
      within_single hpos, List.length_append, List.length_singleton] at hlen
    rw [hlen, hentries, List.length_drop, List.length_append, List.length_singleton] at hkept
    rw [SlidingWindowMeter.maxEntries] at hroom
    omega

theorem held_check {s : Metered} {wait : Nat} {input output : UInt64} (h : s.Held) :
    (s.step (wait, .check input output)).Held ↔ s.Fits (wait, .check input output) := by
  have hle : s.now ≤ s.now + wait := Nat.le_add_right _ _
  have hmeter : (s.step (wait, .check input output)).meter = s.meter.prune (s.now + wait) := by
    simp only [step, meter, TenantSupervisor.checkQuota]
    split
    · rfl
    · rfl
  obtain ⟨hentries, hrecent⟩ := h.prune hmeter rfl rfl
  have hsum : (s.supervisor.tokenMeter.sum (s.now + wait)).1.toNat =
      total (s.recent (s.now + wait)) := h.exact.sum _ hle
  have htotal : (s.supervisor.tokenTotal (s.now + wait) input output).toNat =
      (total (s.recent (s.now + wait)) + input.toNat + output.toNat) % 2 ^ 64 := by
    rw [TenantSupervisor.tokenTotal, UInt64.toNat_add, UInt64.toNat_add, hsum]
    omega
  constructor
  · intro h'
    have hchecked := h'.checked _ _ rfl
    rw [Fits, ← hchecked]
    exact UInt64.toNat_lt _
  · intro hfits
    refine ⟨hentries, by rw [hrecent]; exact h.small_later hle, fun computed actual hc => ?_⟩
    injection hc with hc
    injection hc with h1 h2
    rw [← h1, ← h2, htotal]
    exact Nat.mod_eq_of_lt hfits

theorem held_step {s : Metered} (h : s.Held) (e : Nat × MeterOp) :
    (s.step e).Held ↔ s.Fits e := by
  obtain ⟨wait, op⟩ := e
  have hle : s.now ≤ s.now + wait := Nat.le_add_right _ _
  cases op with
  | record value => exact held_record h
  | sum =>
      obtain ⟨hentries, hrecent⟩ := @Held.prune s (s.step (wait, .sum)) wait h rfl rfl rfl
      exact iff_of_true ⟨hentries, by rw [hrecent]; exact h.small_later hle, h.checked⟩ trivial
  | count =>
      obtain ⟨hentries, hrecent⟩ := @Held.prune s (s.step (wait, .count)) wait h rfl rfl rfl
      exact iff_of_true ⟨hentries, by rw [hrecent]; exact h.small_later hle, h.checked⟩ trivial
  | check input output => exact held_check h

theorem held_start (supervisor : TenantSupervisor) (window : Nat) :
    (start supervisor window).Held :=
  ⟨rfl, (by decide : total [] < 2 ^ 64), nofun⟩

/-- Over any calls at any times, the answers are right throughout exactly when
every call fits. -/
theorem exact_iff_along_fits (supervisor : TenantSupervisor) (window : Nat)
    (calls : List (Nat × MeterOp)) :
    (∀ n, ((calls.take n).foldl step (start supervisor window)).Exact) ↔
      Along step Fits (start supervisor window) calls := by
  have hstep : ∀ (s : Metered) e, s.Shape ∧ s.Held →
      ((s.step e).Shape ∧ (s.step e).Held ↔ s.Fits e) := by
    intro s e hs
    rw [and_iff_right (shape_step hs.1 e)]
    exact held_step hs.2 e
  have hstart : (start supervisor window).Shape ∧ (start supervisor window).Held :=
    ⟨List.Sublist.slnil, held_start supervisor window⟩
  have hshape : ∀ n, ((calls.take n).foldl step (start supervisor window)).Shape :=
    fun n => @foldl_invariant _ _ step Shape (fun _ e h => shape_step h e) _ hstart.1 _
  rw [← along_iff_forall_take hstep hstart calls]
  exact forall_congr' fun n =>
    ⟨fun h => ⟨hshape n, h.held (hshape n)⟩, fun h => h.2.exact⟩

/-! ## One record too many -/

/-- A tenant with a thousand tokens a day. -/
def thousandTokens : TenantSupervisor :=
  .fromContext { tenantId := "acme", quotas := ⟨10, 1000, 60, 3600000⟩ } 0

/-- The meter of a day after `n` records of one token at the same time. -/
def afterRecords (n : Nat) : Metered :=
  (List.replicate n (0, .record 1)).foldl step (start thousandTokens (86400 * second))

theorem afterRecords_succ (n : Nat) :
    afterRecords (n + 1) = (afterRecords n).step (0, .record 1) := by
  rw [afterRecords, List.replicate_succ', List.foldl_append]
  rfl

/-- All of them are in the window. -/
theorem recent_afterRecords (n : Nat) :
    (afterRecords n).now = 0 ∧ (afterRecords n).meter.window = 86400 * second ∧
      (afterRecords n).log = List.replicate n (0, 1) := by
  induction n with
  | zero => exact ⟨rfl, rfl, rfl⟩
  | succ n ih =>
      obtain ⟨hnow, hwindow, hlog⟩ := ih
      rw [afterRecords_succ]
      refine ⟨hnow, hwindow, ?_⟩
      show (afterRecords n).log ++ [((afterRecords n).now + 0, 1)] = _
      rw [hlog, hnow, List.replicate_succ']

theorem fits_afterRecords (n : Nat) :
    (afterRecords n).Fits (0, .record 1) ↔
      n < SlidingWindowMeter.maxEntries ∧ n + 1 < 2 ^ 64 := by
  obtain ⟨hnow, hwindow, hlog⟩ := recent_afterRecords n
  have hrecent : (afterRecords n).recent 0 = List.replicate n (0, 1) := by
    rw [recent, hwindow, hlog, within, List.filter_eq_self]
    intro r hr
    rw [(List.mem_replicate.mp hr).2]
    decide
  have htotal : total (List.replicate n (0, 1)) = n := by
    rw [total, List.map_replicate, List.sum_replicate]
    exact Nat.mul_one n
  simp only [Fits, hnow, Nat.add_zero, hrecent, htotal, List.length_replicate]
  exact Iff.rfl

theorem held_afterRecords (n : Nat) (h : n ≤ SlidingWindowMeter.maxEntries) :
    (afterRecords n).Held := by
  induction n with
  | zero => exact held_start _ _
  | succ n ih =>
      have hlt : n < SlidingWindowMeter.maxEntries := h
      rw [SlidingWindowMeter.maxEntries] at hlt
      rw [afterRecords_succ, held_step (ih (Nat.le_of_lt h)), fits_afterRecords]
      exact ⟨h, by omega⟩

/-- After 10001 records of one token the sum is not 10001, nor is the number. -/
theorem not_exact_afterRecords :
    ¬ ((List.replicate 10001 (0, MeterOp.record 1)).foldl step
      (start thousandTokens (86400 * second))).Exact := by
  intro h
  have hshape := @foldl_invariant _ _ step Shape (fun _ e h => shape_step h e)
    (start thousandTokens (86400 * second)) List.Sublist.slnil
    (List.replicate 10001 (0, MeterOp.record 1))
  have hheld : (afterRecords (10000 + 1)).Held := h.held hshape
  rw [afterRecords_succ, held_step (held_afterRecords 10000 (Nat.le_refl _)),
    fits_afterRecords] at hheld
  exact absurd hheld.1 (Nat.lt_irrefl _)

end Metered

end Pandaria.Tenant
